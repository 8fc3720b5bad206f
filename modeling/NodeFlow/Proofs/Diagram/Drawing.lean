import Mathlib.Data.List.Nodup
import Mathlib.Data.List.Perm.Subperm
import Mathlib.Data.List.TakeWhile
import Mathlib.Data.Prod.Basic
import NodeFlow.Diagram.Graph
import NodeFlow.Proofs.Run.Inline
import NodeFlow.Proofs.Value.Members
/-!
# Drawings of graphs

The drawing of a flow shows what can be reached from its start and nothing else: each node once, under an id of its own,
and each edge once, between the ids of its ends.

The awkward thing up front: an id is given before all names are known, so a name may later turn out to be just what an
earlier name got with a number behind it. That is why the search for an id asks what is taken and not which names there
are. It ends because the ids to try are all different, so one more than are taken cannot all be taken.

The search for nodes meets them while it draws. Whoever is met is given an id and becomes pending, and pending nodes are
drawn in the order in which they were met, so the nodes that have an id are always those that are drawn, followed by
those that are pending. From this one fact all the others follow: nobody is drawn twice, since nobody is given a second
id; the search ends, since there are no more ids to give than nodes; and at the end what has an id is closed under
edges.

A step of the search is `drawEdges`, and what it does is stated once (`Meets`). The search as a whole is stated as a
relation that knows no bound (`Draws`), and the bound of `drawPending` is shown to be never met.

A line is a text, but nothing is lost in it: no id has a blank or a bracket in it, so the ids of an arrow or of a line
of a node can be read off it, whatever its label or its name is.

Main statement: `ofGraph_depicts`.
-/

set_option autoImplicit false

namespace NodeFlow

/-- A graph as it is wired: an edge leads to a node of it, no two edges leave a node under one label, and a flow starts
at a node of it. -/
structure Graph.Linked (g : Graph) : Prop where
  targets : ∀ n ∈ g, ∀ e ∈ n.wiring, e.2 < g.length
  labels : ∀ n ∈ g, (Members.keys n.wiring).Nodup
  starts : ∀ n ∈ g, ∀ i ∈ n.start?, i < g.length

namespace Diagram

/-! ## 1. What an id is made of -/

/-- An id: some characters that a drawing takes for one word. -/
structure IsId (s : String) : Prop where
  ne_nil : s.toList ≠ []
  chars : ∀ c ∈ s.toList, isIdChar c = true

/-- The characters of a name, as far as an id can have them. -/
def spelling (name : String) : List Char := name.toList.map fun c => if isIdChar c then c else '_'

theorem isIdChar_spelling {name : String} : ∀ c ∈ spelling name, isIdChar c = true := by
  intro c hc
  obtain ⟨d, -, rfl⟩ := List.mem_map.1 hc
  by_cases hd : isIdChar d = true
  · rw [if_pos hd, hd]
  · rw [if_neg hd]
    rfl

theorem spelling_ne_nil {name : String} (h : name ≠ "") : spelling name ≠ [] := by
  simpa [spelling] using h

theorem toList_idOf {name : String} (h : name ≠ "") : (idOf name).toList = spelling name := by
  rw [idOf, ← spelling, List.isEmpty_eq_false_iff.2 (spelling_ne_nil h), if_neg Bool.false_ne_true,
    String.toList_ofList]

theorem isId_idOf (name : String) : IsId (idOf name) := by
  by_cases h : name = ""
  · subst h
    exact ⟨by decide, List.all_eq_true.1 (by decide)⟩
  · exact ⟨by rw [toList_idOf h]; exact spelling_ne_nil h, by rw [toList_idOf h]; exact isIdChar_spelling⟩

/-- Two names have one id exactly if they are spelled alike. -/
theorem idOf_eq_iff {a b : String} (ha : a ≠ "") (hb : b ≠ "") : idOf a = idOf b ↔ spelling a = spelling b := by
  rw [← String.toList_inj, toList_idOf ha, toList_idOf hb]

/-! ## 2. Fresh ids -/

theorem isIdChar_of_mem_toString {n : Nat} {c : Char} (hc : c ∈ (toString n).toList) : isIdChar c = true := by
  rw [Nat.toString_eq_repr, Nat.toList_repr] at hc
  have hdigit := Nat.isDigit_of_mem_toDigits (by decide) (by decide) hc
  rw [Char.isDigit_iff_toNat] at hdigit
  have hrange : '0' ≤ c ∧ c ≤ '9' := hdigit
  simp [isIdChar, hrange]

theorem toList_candidate_succ (base : String) (n : Nat) :
    (candidate base (n + 1)).toList = base.toList ++ '_' :: (toString (n + 2)).toList := by
  rw [candidate, if_neg (Nat.succ_ne_zero n), String.toList_append, String.toList_append, List.append_assoc]
  rfl

theorem IsId.candidate {base : String} (h : IsId base) (n : Nat) : IsId (candidate base n) := by
  cases n with
  | zero => exact h
  | succ n =>
    refine ⟨?_, ?_⟩
    · rw [toList_candidate_succ]
      simp
    · rw [toList_candidate_succ]
      intro c hc
      rcases List.mem_append.1 hc with hc | hc
      · exact h.chars c hc
      · rcases List.mem_cons.1 hc with rfl | hc
        · rfl
        · exact isIdChar_of_mem_toString hc

/-- All the ids to try for a name are different. -/
theorem candidate_injective (base : String) : Function.Injective (candidate base) := by
  intro m n h
  have hlist := congrArg String.toList h
  cases m with
  | zero =>
    cases n with
    | zero => rfl
    | succ n =>
      rw [toList_candidate_succ, candidate, if_pos rfl] at hlist
      exact absurd (List.self_eq_append_right.1 hlist) (List.cons_ne_nil _ _)
  | succ m =>
    cases n with
    | zero =>
      rw [toList_candidate_succ, candidate, if_pos rfl] at hlist
      exact absurd (List.append_right_eq_self.1 hlist) (List.cons_ne_nil _ _)
    | succ n =>
      rw [toList_candidate_succ, toList_candidate_succ] at hlist
      -- behind the name the numbers differ, and so do their digits
      have hdigits := (List.cons.inj (List.append_cancel_left hlist)).2
      rw [Nat.toString_eq_repr, Nat.toString_eq_repr, Nat.toList_repr, Nat.toList_repr] at hdigits
      have hnumbers := congrArg (Nat.ofDigitChars 10 · 0) hdigits
      simp only [Nat.ofDigitChars_ten_toDigits] at hnumbers
      omega

/-- The first of the ids to try for a name that is not taken. -/
def FirstFree (base : String) (taken : List String) (s : String) : Prop :=
  ∃ n, s = candidate base n ∧ s ∉ taken ∧ ∀ m < n, candidate base m ∈ taken

theorem FirstFree.isId {base s : String} {taken : List String} (h : FirstFree base taken s) (hbase : IsId base) :
    IsId s := by
  obtain ⟨n, rfl, -⟩ := h
  exact hbase.candidate n

/-- The search for a fresh id always finds one. -/
theorem firstFree_freshId (base : String) (taken : List String) : FirstFree base taken (freshId base taken) := by
  -- there are more ids to try than are taken, so not all of them are
  obtain ⟨c, hc⟩ : ∃ c,
      (((List.range (taken.length + 1)).map (candidate base)).find? fun c => !taken.contains c) = some c := by
    rw [← Option.isSome_iff_exists, List.find?_isSome]
    by_contra hall
    have hsub : (List.range (taken.length + 1)).map (candidate base) ⊆ taken := by
      intro c hc
      by_contra hfree
      exact hall ⟨c, hc, by simpa using hfree⟩
    have hnodup := (List.nodup_range (n := taken.length + 1)).map (candidate_injective base)
    have hlength := (hnodup.subperm hsub).length_le
    rw [List.length_map, List.length_range] at hlength
    exact absurd hlength (Nat.not_succ_le_self _)
  have hfresh : freshId base taken = c := by rw [freshId, hc, Option.getD_some]
  obtain ⟨hfree, n, hn, hget, hbefore⟩ := List.find?_eq_some_iff_getElem.1 hc
  rw [List.length_map, List.length_range] at hn
  rw [List.getElem_map, List.getElem_range] at hget
  refine ⟨n, hfresh.trans hget.symm, by simpa [hfresh] using hfree, fun m hm => ?_⟩
  have htaken := hbefore m hm
  rw [List.getElem_map, List.getElem_range] at htaken
  simpa using htaken

/-! ## 3. Arrows -/

/-- What stands before the first character that no id has is read off a text, and so is what stands behind it. -/
theorem cut_eq {c d : Char} (hc : isIdChar c = false) (hd : isIdChar d = false) {xs ys as bs : List Char}
    (hxs : ∀ x ∈ xs, isIdChar x = true) (hys : ∀ y ∈ ys, isIdChar y = true) (h : xs ++ c :: as = ys ++ d :: bs) :
    xs = ys ∧ c :: as = d :: bs := by
  have hfront : ∀ {e : Char} {zs es : List Char}, isIdChar e = false → (∀ z ∈ zs, isIdChar z = true) →
      (zs ++ e :: es).takeWhile isIdChar = zs := by
    intro e zs es he hzs
    rw [List.takeWhile_append_of_pos hzs, List.takeWhile_cons_of_neg (by simp [he]), List.append_nil]
  have hids : xs = ys := by rw [← hfront hc hxs, h, hfront hd hys]
  exact ⟨hids, List.append_cancel_left (hids ▸ h)⟩

/-- An arrow is its source, and behind it its label, unless it has the default one, and its target. -/
theorem toList_arrow (s t l : String) : (arrow s t l).toList = s.toList ++ ' ' :: '-' :: '-' :: '>' ::
    (if l = defaultLabel then ' ' :: t.toList else '|' :: (l.toList ++ '|' :: ' ' :: t.toList)) := by
  unfold arrow
  split
  · simp only [String.toList_append, List.append_assoc]
    rfl
  · simp only [String.toList_append, List.append_assoc]
    rfl

/-- The ends and the label of an arrow can be read off it. -/
theorem arrow_inj {s t s' t' l l' : String} (hs : IsId s) (ht : IsId t) (hs' : IsId s') (ht' : IsId t')
    (h : arrow s t l = arrow s' t' l') : s = s' ∧ t = t' ∧ l = l' := by
  have hlist := congrArg String.toList h
  rw [toList_arrow, toList_arrow] at hlist
  obtain ⟨hsource, htail⟩ := cut_eq (by decide) (by decide) hs.chars hs'.chars hlist
  refine ⟨String.toList_inj.1 hsource, ?_⟩
  simp only [List.cons.injEq, true_and] at htail
  split at htail
  · next hl =>
    split at htail
    · next hl' => exact ⟨String.toList_inj.1 (List.cons.inj htail).2, hl.trans hl'.symm⟩
    · exact absurd (List.cons.inj htail).1 (by decide)
  · split at htail
    · exact absurd (List.cons.inj htail).1 (by decide)
    · -- the label may hold anything, so the target is read from the end
      have hback := congrArg List.reverse (List.cons.inj htail).2
      simp only [List.reverse_append, List.reverse_cons, List.append_assoc, List.cons_append, List.nil_append] at hback
      have hchars : ∀ {u : String}, IsId u → ∀ c ∈ u.toList.reverse, isIdChar c = true :=
        fun hu c hc => hu.chars c (List.mem_reverse.1 hc)
      obtain ⟨htarget, hlabel⟩ := cut_eq (by decide) (by decide) (hchars ht) (hchars ht') hback
      have hreversed := (List.cons.inj (List.cons.inj hlabel).2).2
      exact ⟨String.toList_inj.1 (List.reverse_inj.1 htarget), String.toList_inj.1 (List.reverse_inj.1 hreversed)⟩

/-! ## 4. Lines of nodes -/

/-- A node has two lines. The first one starts with its id and the second one has it as second word. -/
theorem exists_nodeLines (n : Node) (s : String) : ∃ definition style text colour, nodeLines n s = [definition, style] ∧
    definition.toList = s.toList ++ '[' :: text ∧
    style.toList = ['s', 't', 'y', 'l', 'e'] ++ ' ' :: (s.toList ++ ' ' :: colour) := by
  refine ⟨_, _, '"' :: (n.name ++ "\\n" ++ (if n.kind = "" then n.title else n.kind) ++ "\"]").toList,
    ("fill:" ++ colourOf n).toList, rfl, ?_, ?_⟩
  · simp only [String.toList_append, List.append_assoc]
    rfl
  · simp only [String.toList_append, List.append_assoc]
    rfl

theorem isIdChar_style : ∀ c ∈ ['s', 't', 'y', 'l', 'e'], isIdChar c = true :=
  List.all_eq_true.1 (by decide)

/-- A definition and a style differ in the first character that no id has. -/
theorem definition_ne_style {s : String} (hs : IsId s) (text rest : List Char) :
    s.toList ++ '[' :: text ≠ ['s', 't', 'y', 'l', 'e'] ++ ' ' :: rest := by
  intro h
  obtain ⟨-, hnext⟩ := cut_eq (by decide) (by decide) hs.chars isIdChar_style h
  exact absurd (List.cons.inj hnext).1 (by decide)

/-- The two lines of a node differ. -/
theorem nodup_nodeLines {s : String} (hs : IsId s) (n : Node) : (nodeLines n s).Nodup := by
  obtain ⟨definition, style, text, colour, hlines, hdefinition, hstyle⟩ := exists_nodeLines n s
  rw [hlines, List.nodup_cons, List.mem_singleton]
  refine ⟨?_, List.nodup_singleton _⟩
  rintro rfl
  exact definition_ne_style hs _ _ (hdefinition.symm.trans hstyle)

/-- The id of a node can be read off each of its lines. -/
theorem id_of_mem_nodeLines {n n' : Node} {s s' line : String} (hs : IsId s) (hs' : IsId s')
    (h : line ∈ nodeLines n s) (h' : line ∈ nodeLines n' s') : s = s' := by
  obtain ⟨definition, style, text, colour, hlines, hdefinition, hstyle⟩ := exists_nodeLines n s
  obtain ⟨definition', style', text', colour', hlines', hdefinition', hstyle'⟩ := exists_nodeLines n' s'
  rw [hlines, List.mem_pair] at h
  rw [hlines', List.mem_pair] at h'
  rcases h with rfl | rfl <;> rcases h' with rfl | rfl
  · exact String.toList_inj.1
      (cut_eq (by decide) (by decide) hs.chars hs'.chars (hdefinition.symm.trans hdefinition')).1
  · exact absurd (hdefinition.symm.trans hstyle') (definition_ne_style hs _ _)
  · exact absurd (hdefinition'.symm.trans hstyle) (definition_ne_style hs' _ _)
  · have hwords := (List.cons.inj (List.append_cancel_left (hstyle.symm.trans hstyle'))).2
    exact String.toList_inj.1 (cut_eq (by decide) (by decide) hs.chars hs'.chars hwords).1

/-- An arrow is no line of a node, not even one that leaves a node with the id `style`. -/
theorem arrow_notMem_nodeLines {n : Node} {s t u l : String} (hs : IsId s) (hu : IsId u) :
    arrow s t l ∉ nodeLines n u := by
  obtain ⟨definition, style, text, colour, hlines, hdefinition, hstyle⟩ := exists_nodeLines n u
  rw [hlines, List.mem_pair]
  rintro (rfl | rfl)
  · have hnext := (cut_eq (by decide) (by decide) hs.chars hu.chars ((toList_arrow s t l).symm.trans hdefinition)).2
    exact absurd (List.cons.inj hnext).1 (by decide)
  · have hnext := (cut_eq (by decide) (by decide) hs.chars isIdChar_style
      ((toList_arrow s t l).symm.trans hstyle)).2
    -- the second word of the line is an id, and no id starts with a dash
    have hword := (List.cons.inj hnext).2
    have hchars := hu.chars
    cases hu' : u.toList with
    | nil => exact hu.ne_nil hu'
    | cons c cs =>
      rw [hu'] at hword hchars
      rw [← (List.cons.inj hword).1] at hchars
      exact absurd (hchars '-' List.mem_cons_self) (by decide)

variable {g : Graph} {ids ids' ids'' : Ids} {pending new new' : List Nat} {i : Nat}

/-! ## 5. Ids that have been given -/

/-- The nodes that have been given an id. -/
def named (ids : Ids) : List Nat := ids.map Prod.fst

/-- The id that has been given to a node. -/
def idIn (ids : Ids) (i : Nat) : String := (ids.lookup i).getD ""

/-- Ids as the search gives them, one after the other: a node that has none is given the first one to try for its name
that is not taken by then. -/
inductive Assigns (g : Graph) : Ids → Prop
  | nil : Assigns g []
  | snoc {ids : Ids} {i : Nat} {n : Node} {s : String} : Assigns g ids → g[i]? = some n → i ∉ named ids →
    FirstFree (idOf n.name) (ids.map Prod.snd) s → Assigns g (ids ++ [(i, s)])

theorem named_snoc (ids : Ids) (i : Nat) (s : String) : named (ids ++ [(i, s)]) = named ids ++ [i] := List.map_append

/-- Each node has one id. -/
theorem Assigns.nodup_named (h : Assigns g ids) : (named ids).Nodup := by
  induction h with
  | nil => exact .nil
  | snoc _ _ hnew _ ih =>
    rw [named_snoc]
    exact ih.append (List.nodup_singleton _) (List.disjoint_singleton.2 hnew)

/-- Each id is that of one node. -/
theorem Assigns.nodup_ids (h : Assigns g ids) : (ids.map Prod.snd).Nodup := by
  induction h with
  | nil => exact .nil
  | snoc _ _ _ hfree ih =>
    obtain ⟨-, -, hfree, -⟩ := hfree
    rw [List.map_append]
    exact ih.append (List.nodup_singleton _) (List.disjoint_singleton.2 hfree)

theorem Assigns.lt (h : Assigns g ids) : ∀ i ∈ named ids, i < g.length := by
  induction h with
  | nil => exact nofun
  | snoc _ hn _ _ ih =>
    rw [named_snoc, List.forall_mem_append, List.forall_mem_singleton]
    exact ⟨ih, (List.getElem?_eq_some_iff.1 hn).1⟩

theorem Assigns.isId (h : Assigns g ids) : ∀ e ∈ ids, IsId e.2 := by
  induction h with
  | nil => exact nofun
  | snoc _ _ _ hfree ih =>
    rw [List.forall_mem_append, List.forall_mem_singleton]
    exact ⟨ih, hfree.isId (isId_idOf _)⟩

theorem lookup_of_mem (h : i ∈ named ids) : ids.lookup i = some (idIn ids i) := by
  obtain ⟨s, hs⟩ : ∃ s, ids.lookup i = some s := by
    obtain ⟨e, he, rfl⟩ := List.mem_map.1 h
    exact Option.isSome_iff_exists.1 (List.lookup_isSome_iff.2 ⟨e, he, beq_self_eq_true _⟩)
  rw [idIn, hs, Option.getD_some]

theorem lookup_of_notMem (h : i ∉ named ids) : ids.lookup i = none := by
  rw [List.lookup_eq_none_iff]
  intro e he
  rw [bne_iff_ne]
  rintro rfl
  exact h (List.mem_map_of_mem he)

theorem mem_of_named (h : i ∈ named ids) : (i, idIn ids i) ∈ ids := by
  have hlookup := lookup_of_mem h
  generalize idIn ids i = s at hlookup ⊢
  obtain ⟨before, after, hsplit, -⟩ := List.lookup_eq_some_iff.1 hlookup
  rw [hsplit]
  exact List.mem_append_right _ List.mem_cons_self

theorem Assigns.isId_idIn (h : Assigns g ids) (hi : i ∈ named ids) : IsId (idIn ids i) := h.isId _ (mem_of_named hi)

theorem Assigns.idIn_inj (h : Assigns g ids) {j : Nat} (hi : i ∈ named ids) (hj : j ∈ named ids)
    (hid : idIn ids i = idIn ids j) : i = j :=
  congrArg Prod.fst (List.inj_on_of_nodup_map h.nodup_ids (mem_of_named hi) (mem_of_named hj) hid)

/-- There are no more ids than nodes. -/
theorem Assigns.length_le (h : Assigns g ids) : ids.length ≤ g.length := by
  have hsub : named ids ⊆ List.range g.length := fun i hi => List.mem_range.2 (h.lt i hi)
  have hle := (h.nodup_named.subperm hsub).length_le
  rwa [named, List.length_map, List.length_range] at hle

/-! ## 6. A step of the search -/

/-- Some nodes are met: they are given ids behind those that have been given. -/
structure Meets (g : Graph) (ids ids' : Ids) (new : List Nat) : Prop where
  older : ids <+: ids'
  named : named ids' = named ids ++ new
  assigns : Assigns g ids'

theorem Meets.refl (h : Assigns g ids) : Meets g ids ids [] := ⟨List.prefix_rfl, (List.append_nil _).symm, h⟩

theorem Meets.trans (h : Meets g ids ids' new) (h' : Meets g ids' ids'' new') : Meets g ids ids'' (new ++ new') :=
  ⟨h.older.trans h'.older, by rw [h'.named, h.named, List.append_assoc], h'.assigns⟩

theorem Meets.mem (h : Meets g ids ids' new) (hi : i ∈ Diagram.named ids) : i ∈ Diagram.named ids' := by
  rw [h.named]
  exact List.mem_append_left _ hi

/-- Whoever has an id keeps it. -/
theorem idIn_of_older (h : ids <+: ids') (hi : i ∈ named ids) : idIn ids' i = idIn ids i := by
  obtain ⟨more, rfl⟩ := h
  rw [idIn, List.lookup_append, lookup_of_mem hi, Option.some_or, Option.getD_some]

theorem Meets.length (h : Meets g ids ids' new) : ids'.length = ids.length + new.length := by
  have hlength := congrArg List.length h.named
  rwa [List.length_append, Diagram.named, Diagram.named, List.length_map, List.length_map] at hlength

/-- Whoever is met while a node is drawn comes behind those that are pending. -/
theorem Meets.named_next {done : List Nat} (h : Meets g ids ids' new)
    (hnamed : Diagram.named ids = done ++ i :: pending) :
    Diagram.named ids' = (done ++ [i]) ++ (pending ++ new) := by
  rw [h.named, hnamed, List.append_assoc, List.append_assoc, List.singleton_append, List.cons_append]

theorem meet_of_named (h : i ∈ named ids) : meet g ids i = (ids, idIn ids i, []) := by
  rw [meet, lookup_of_mem h]

/-- To meet a node is to give it an id if it has none. -/
theorem meets_meet (h : Assigns g ids) (hi : i < g.length) :
    Meets g ids (meet g ids i).1 (meet g ids i).2.2 ∧ i ∈ named (meet g ids i).1 ∧
      (meet g ids i).2.1 = idIn (meet g ids i).1 i ∧ ∀ k ∈ (meet g ids i).2.2, k = i := by
  by_cases hnamed : i ∈ named ids
  · rw [meet_of_named hnamed]
    exact ⟨.refl h, hnamed, rfl, nofun⟩
  · have hn := List.getElem?_eq_getElem hi
    rw [meet, lookup_of_notMem hnamed, hn, Option.map_some, Option.getD_some]
    refine ⟨⟨List.prefix_append _ _, named_snoc _ _ _, h.snoc hn hnamed (firstFree_freshId _ _)⟩, ?_, ?_,
      fun k hk => List.mem_singleton.1 hk⟩
    · rw [named_snoc]
      exact List.mem_append_right _ List.mem_cons_self
    · simp [idIn, List.lookup_append, lookup_of_notMem hnamed]

/-- To draw the edges of a node is to meet the nodes that they lead to. -/
theorem meets_drawEdges {es : List (String × Nat)} (source : String) (h : Assigns g ids)
    (hes : ∀ e ∈ es, e.2 < g.length) :
    Meets g ids (drawEdges g source es ids).1 (drawEdges g source es ids).2.1 ∧
      (drawEdges g source es ids).2.2 = es.map (fun e => arrow source (idIn (drawEdges g source es ids).1 e.2) e.1) ∧
      (∀ e ∈ es, e.2 ∈ named (drawEdges g source es ids).1) ∧
      ∀ k ∈ (drawEdges g source es ids).2.1, ∃ e ∈ es, e.2 = k := by
  induction es generalizing ids with
  | nil => exact ⟨.refl h, rfl, nofun, nofun⟩
  | cons e es ih =>
    obtain ⟨he, hes⟩ := List.forall_mem_cons.1 hes
    obtain ⟨hmet, hnamed, hid, hown⟩ := meets_meet h he
    obtain ⟨hmore, harrows, hall, hfrom⟩ := ih hmet.assigns hes
    rw [drawEdges]
    refine ⟨hmet.trans hmore, ?_, List.forall_mem_cons.2 ⟨hmore.mem hnamed, hall⟩, fun k hk => ?_⟩
    · rw [List.map_cons, ← harrows, hid, idIn_of_older hmore.older hnamed]
    · rcases List.mem_append.1 hk with hk | hk
      · exact ⟨e, List.mem_cons_self, (hown k hk).symm⟩
      · obtain ⟨f, hf, hfk⟩ := hfrom k hk
        exact ⟨f, List.mem_cons_of_mem _ hf, hfk⟩

/-! ## 7. The search -/

/-- The search from pending nodes on, with the ids that are given at its end and what is drawn. -/
inductive Draws (g : Graph) : Ids → List Nat → Ids → Drawn → Prop
  | done {ids : Ids} : Draws g ids [] ids ⟨[], []⟩
  | node {ids ids' : Ids} {pending : List Nat} {i : Nat} {n : Node} {rest : Drawn} : g[i]? = some n →
    Draws g (drawEdges g (idIn ids i) n.wiring ids).1 (pending ++ (drawEdges g (idIn ids i) n.wiring ids).2.1) ids'
      rest →
    Draws g ids (i :: pending) ids'
      ⟨nodeLines n (idIn ids i) ++ rest.nodes, (drawEdges g (idIn ids i) n.wiring ids).2.2 ++ rest.edges⟩

/-- The search comes to one end at most. -/
theorem Draws.unique {d d' : Drawn} (h : Draws g ids pending ids' d) (h' : Draws g ids pending ids'' d') :
    ids' = ids'' ∧ d = d' := by
  induction h generalizing ids'' d' with
  | done =>
    cases h'
    exact ⟨rfl, rfl⟩
  | node hn _ ih =>
    cases h' with
    | node hn' hrest =>
      obtain rfl := Option.some.inj (hn.symm.trans hn')
      obtain ⟨rfl, rfl⟩ := ih hrest
      exact ⟨rfl, rfl⟩

/-- **The search ends**, after no more steps than nodes are pending or without an id, and a bound of at least so many
steps is not met. -/
theorem exists_draws (hg : g.Linked) {done : List Nat} {bound : Nat} (h : Assigns g ids)
    (hnamed : named ids = done ++ pending) (hbound : pending.length + (g.length - ids.length) ≤ bound) :
    ∃ ids' d, Draws g ids pending ids' d ∧ drawPending g bound ids pending = d := by
  induction bound generalizing ids pending done with
  | zero =>
    obtain rfl : pending = [] := List.length_eq_zero_iff.1 (by omega)
    exact ⟨ids, _, .done, rfl⟩
  | succ bound ih =>
    cases pending with
    | nil => exact ⟨ids, _, .done, rfl⟩
    | cons i pending =>
      have hi : i ∈ named ids := hnamed ▸ List.mem_append_right _ List.mem_cons_self
      have hlt := h.lt i hi
      have hn := List.getElem?_eq_getElem hlt
      obtain ⟨hmeets, -, -, -⟩ := meets_drawEdges (idIn ids i) h (hg.targets _ (List.getElem_mem hlt))
      -- each step takes one node from the pending ones, and adds one for each id that it gives
      have hlength := hmeets.length
      have hle := hmeets.assigns.length_le
      have hleft : (pending ++ (drawEdges g (idIn ids i) g[i].wiring ids).2.1).length +
          (g.length - (drawEdges g (idIn ids i) g[i].wiring ids).1.length) ≤ bound := by
        rw [List.length_cons] at hbound
        rw [List.length_append]
        omega
      obtain ⟨ids', rest, hrest, hdrawn⟩ := ih hmeets.assigns (hmeets.named_next hnamed) hleft
      refine ⟨ids', _, .node hn hrest, ?_⟩
      rw [drawPending, hn, lookup_of_mem hi]
      simp only [hdrawn]

/-! ## 8. What is drawn -/

/-- The lines of a node of a graph. -/
def linesAt (g : Graph) (id : Nat → String) (i : Nat) : List String := (g[i]?).elim [] fun n => nodeLines n (id i)

/-- The edges that leave a node of a graph: each with the node that it leaves, its label, and the node that it leads
to. -/
def edgesAt (g : Graph) (i : Nat) : List (Nat × String × Nat) := (g[i]?).elim [] fun n => n.wiring.map (Prod.mk i)

/-- The arrow of an edge, between the ids of its ends. -/
def arrowOf (id : Nat → String) (e : Nat × String × Nat) : String := arrow (id e.1) (id e.2.2) e.2.1

/-- Nodes are drawn in an order, each with all its edges. -/
structure Shows (g : Graph) (id : Nat → String) (order : List Nat) (d : Drawn) : Prop where
  nodes : d.nodes = order.flatMap (linesAt g id)
  edges : d.edges = (order.flatMap (edgesAt g)).map (arrowOf id)

theorem mem_linesAt {id : Nat → String} {line : String} :
    line ∈ linesAt g id i ↔ ∃ n, g[i]? = some n ∧ line ∈ nodeLines n (id i) := by
  rw [linesAt]
  cases g[i]? with
  | none => simp
  | some n => simp

theorem mem_edgesAt {e : Nat × String × Nat} :
    e ∈ edgesAt g i ↔ e.1 = i ∧ ∃ n, g[i]? = some n ∧ e.2 ∈ n.wiring := by
  rw [edgesAt]
  cases g[i]? with
  | none => simp
  | some n =>
    rw [Option.elim_some, List.mem_map]
    constructor
    · rintro ⟨m, hm, rfl⟩
      exact ⟨rfl, n, rfl, hm⟩
    · rintro ⟨rfl, n', hn, hm⟩
      exact ⟨e.2, Option.some.inj hn ▸ hm, rfl⟩

theorem Shows.cons {id : Nat → String} {order : List Nat} {n : Node} {rest : Drawn} {arrows : List String}
    (hn : g[i]? = some n) (h : Shows g id order rest)
    (harrows : arrows = n.wiring.map fun e => arrow (id i) (id e.2) e.1) :
    Shows g id (i :: order) ⟨nodeLines n (id i) ++ rest.nodes, arrows ++ rest.edges⟩ where
  nodes := by rw [List.flatMap_cons, linesAt, hn, Option.elim_some, ← h.nodes]
  edges := by
    rw [List.flatMap_cons, List.map_append, edgesAt, hn, Option.elim_some, List.map_map, ← h.edges, harrows]
    rfl

/-- **What a search draws.** It draws the pending nodes and then those that it meets, each with all its edges, and what
they lead to has an id at the end. -/
theorem Draws.shows {d : Drawn} (hg : g.Linked) (h : Draws g ids pending ids' d) {done : List Nat}
    (hassigns : Assigns g ids) (hnamed : named ids = done ++ pending) :
    ∃ more, Meets g ids ids' more ∧ Shows g (idIn ids') (pending ++ more) d ∧
      ∀ i ∈ pending ++ more, ∀ e ∈ edgesAt g i, e.2.2 ∈ named ids' := by
  induction h generalizing done with
  | done => exact ⟨[], .refl hassigns, ⟨rfl, rfl⟩, nofun⟩
  | @node ids ids' pending i n rest hn _ ih =>
    have hi : i ∈ named ids := hnamed ▸ List.mem_append_right _ List.mem_cons_self
    obtain ⟨hmet, harrows, htargets, -⟩ :=
      meets_drawEdges (idIn ids i) hassigns (hg.targets n (List.mem_of_getElem? hn))
    obtain ⟨more, hmore, hshows, hclosed⟩ := ih hmet.assigns (hmet.named_next hnamed)
    rw [List.append_assoc] at hshows hclosed
    refine ⟨_, hmet.trans hmore, ?_, List.forall_mem_cons.2 ⟨fun e he => ?_, hclosed⟩⟩
    · -- the ids in the arrows are those of the end, since nobody loses an id
      have hown := idIn_of_older (hmet.trans hmore).older hi
      have hlast : (drawEdges g (idIn ids i) n.wiring ids).2.2 =
          n.wiring.map fun e => arrow (idIn ids' i) (idIn ids' e.2) e.1 := by
        rw [harrows, hown]
        exact List.map_congr_left fun e he => by rw [idIn_of_older hmore.older (htargets e he)]
      have hdrawn := hshows.cons hn hlast
      rwa [hown] at hdrawn
    · obtain ⟨-, n', hn', hm⟩ := mem_edgesAt.1 he
      obtain rfl := Option.some.inj (hn.symm.trans hn')
      exact hmore.mem (htargets _ hm)

/-- Nobody is met whom no edges lead to. -/
theorem Draws.reaches {d : Drawn} {start : Option Nat} (hg : g.Linked) (h : Draws g ids pending ids' d)
    {done : List Nat} (hassigns : Assigns g ids) (hnamed : named ids = done ++ pending)
    (hreach : ∀ k ∈ named ids, g.Reaches start k) :
    ∀ k ∈ named ids', g.Reaches start k := by
  induction h generalizing done with
  | done => exact hreach
  | @node ids ids' pending i n rest hn _ ih =>
    have hi : i ∈ named ids := hnamed ▸ List.mem_append_right _ List.mem_cons_self
    have hmem := List.mem_of_getElem? hn
    obtain ⟨hmet, -, -, hfrom⟩ := meets_drawEdges (idIn ids i) hassigns (hg.targets n hmem)
    refine ih hmet.assigns (hmet.named_next hnamed) fun k hk => ?_
    rw [hmet.named] at hk
    rcases List.mem_append.1 hk with hk | hk
    · exact hreach k hk
    · obtain ⟨e, he, rfl⟩ := hfrom k hk
      exact .next (hreach i hi) hn (Members.get?_of_mem (hg.labels n hmem) he)

/-! ## 9. The drawing of a flow -/

/-- A faithful drawing of what can be reached from a start: all of that and nothing else, each node once, under an id of
its own, and each with all its edges. -/
structure Depicts (g : Graph) (start : Option Nat) (order : List Nat) (id : Nat → String) (d : Drawn) : Prop
    extends Shows g id order d where
  once : order.Nodup
  reached : ∀ i, i ∈ order ↔ g.Reaches start i
  isId : ∀ i ∈ order, IsId (id i)
  apart : ∀ i ∈ order, ∀ j ∈ order, id i = id j → i = j

section Depicts

variable {start : Option Nat} {order : List Nat} {id : Nat → String} {d : Drawn}

/-- Both ends of an edge that is drawn are drawn. -/
theorem Depicts.mem_ends (hg : g.Linked) (h : Depicts g start order id d) {e : Nat × String × Nat}
    (he : e ∈ order.flatMap (edgesAt g)) : e.1 ∈ order ∧ e.2.2 ∈ order := by
  obtain ⟨i, hi, he⟩ := List.mem_flatMap.1 he
  obtain ⟨rfl, n, hn, hm⟩ := mem_edgesAt.1 he
  have hget := Members.get?_of_mem (hg.labels n (List.mem_of_getElem? hn)) hm
  exact ⟨hi, (h.reached _).2 (((h.reached _).1 hi).next hn hget)⟩

/-- No two edges have one arrow. -/
theorem Depicts.arrowOf_inj (hg : g.Linked) (h : Depicts g start order id d) {e e' : Nat × String × Nat}
    (he : e ∈ order.flatMap (edgesAt g)) (he' : e' ∈ order.flatMap (edgesAt g)) (heq : arrowOf id e = arrowOf id e') :
    e = e' := by
  obtain ⟨hsource, htarget⟩ := h.mem_ends hg he
  obtain ⟨hsource', htarget'⟩ := h.mem_ends hg he'
  obtain ⟨hs, ht, hl⟩ :=
    arrow_inj (h.isId _ hsource) (h.isId _ htarget) (h.isId _ hsource') (h.isId _ htarget') heq
  exact Prod.ext (h.apart _ hsource _ hsource' hs) (Prod.ext hl (h.apart _ htarget _ htarget' ht))

theorem nodup_edges (hg : g.Linked) (honce : order.Nodup) : (order.flatMap (edgesAt g)).Nodup := by
  refine List.nodup_flatMap.2 ⟨fun i _ => ?_, honce.imp fun hne e he he' => ?_⟩
  · rw [edgesAt]
    cases hn : g[i]? with
    | none => exact .nil
    | some n =>
      have hwiring : n.wiring.Nodup := .of_map Prod.fst (hg.labels n (List.mem_of_getElem? hn))
      exact hwiring.map (Prod.mk_right_injective i)
  · exact hne ((mem_edgesAt.1 he).1.symm.trans (mem_edgesAt.1 he').1)

theorem Depicts.nodup_nodes (h : Depicts g start order id d) : d.nodes.Nodup := by
  rw [h.nodes]
  refine List.nodup_flatMap.2 ⟨fun i hi => ?_, h.once.imp_of_mem fun hi hj hne line hline hline' => ?_⟩
  · rw [linesAt]
    cases g[i]? with
    | none => exact .nil
    | some n => exact nodup_nodeLines (h.isId i hi) n
  · obtain ⟨n, -, hn⟩ := mem_linesAt.1 hline
    obtain ⟨n', -, hn'⟩ := mem_linesAt.1 hline'
    exact hne (h.apart _ hi _ hj (id_of_mem_nodeLines (h.isId _ hi) (h.isId _ hj) hn hn'))

/-- No line is drawn twice. -/
theorem Depicts.nodup (hg : g.Linked) (h : Depicts g start order id d) : (d.nodes ++ d.edges).Nodup := by
  refine h.nodup_nodes.append ?_ fun line hnode hedge => ?_
  · rw [h.edges]
    exact (nodup_edges hg h.once).map_on fun e he e' he' => h.arrowOf_inj hg he he'
  · rw [h.nodes] at hnode
    rw [h.edges] at hedge
    obtain ⟨i, hi, hline⟩ := List.mem_flatMap.1 hnode
    obtain ⟨n, -, hline⟩ := mem_linesAt.1 hline
    obtain ⟨e, he, rfl⟩ := List.mem_map.1 hedge
    exact arrow_notMem_nodeLines (h.isId _ (h.mem_ends hg he).1) (h.isId i hi) hline

end Depicts

/-- A search from one node on draws what can be reached from it. -/
theorem Draws.depicts {first : Nat} {d : Drawn} (hg : g.Linked) (h : Draws g ids [first] ids' d)
    (hassigns : Assigns g ids) (hnamed : named ids = [first]) :
    Assigns g ids' ∧ Depicts g (some first) (named ids') (idIn ids') d := by
  have hnone : named ids = [] ++ [first] := hnamed
  obtain ⟨more, hmore, hshows, hclosed⟩ := h.shows hg hassigns hnone
  have horder : named ids' = [first] ++ more := by rw [hmore.named, hnamed]
  rw [← horder] at hshows hclosed
  have hreach : ∀ k ∈ named ids', g.Reaches (some first) k := by
    refine h.reaches hg hassigns hnone fun k hk => ?_
    rw [hnamed, List.mem_singleton] at hk
    exact .first (congrArg some hk.symm)
  refine ⟨hmore.assigns, hshows, hmore.assigns.nodup_named, fun k => ⟨hreach k, fun hk => ?_⟩,
    fun k hk => hmore.assigns.isId_idIn hk, fun i hi j hj => hmore.assigns.idIn_inj hi hj⟩
  -- induction on the way to a node: it starts at one that has an id, and edges lead from ids to ids
  induction hk with
  | first hstart =>
    obtain rfl := Option.some.inj hstart
    rw [horder]
    exact List.mem_append_left _ List.mem_cons_self
  | @next i j n label _ hn hget hi =>
    exact hclosed i hi (i, label, j) (mem_edgesAt.2 ⟨rfl, n, hn, Members.mem_of_get? hget⟩)

/-- The drawing of a flow with a start is what the search from it draws, and the bound on the search is not met. -/
theorem exists_drawn {first : Nat} (hg : g.Linked) (hfirst : (g[i]?).bind Node.start? = some first) : ∃ ids d,
    Draws g (meet g [] first).1 (meet g [] first).2.2 ids d ∧
    (∀ bound, g.length ≤ bound → drawPending g bound (meet g [] first).1 (meet g [] first).2.2 = d) ∧
    Assigns g ids ∧ Depicts g (some first) (named ids) (idIn ids) d ∧
    ofGraph g i = ofLines (header :: (d.nodes ++ d.edges).map ("    " ++ ·)) := by
  obtain ⟨n, hn, hstart⟩ := Option.bind_eq_some_iff.1 hfirst
  have hlt := hg.starts n (List.mem_of_getElem? hn) first hstart
  obtain ⟨hmeets, -, -, -⟩ := meets_meet .nil hlt
  have hmet : (meet g [] first).2.2 = [first] := rfl
  have hnamed : named (meet g [] first).1 = [] ++ [first] := hmeets.named
  have hends : ∀ bound, g.length ≤ bound → ∃ ids d, Draws g (meet g [] first).1 [first] ids d ∧
      drawPending g bound (meet g [] first).1 [first] = d := by
    intro bound hbound
    refine exists_draws hg hmeets.assigns hnamed ?_
    have hlength := hmeets.length
    rw [hmet] at hlength
    simp only [List.length_nil, List.length_singleton] at hlength ⊢
    omega
  -- the drawing has a bound of its own, one more than there are nodes, and that is one of them
  obtain ⟨ids, d, hdraws, hdrawn⟩ := hends _ (Nat.le_succ g.length)
  obtain ⟨hassigns, hdepicts⟩ := hdraws.depicts hg hmeets.assigns hnamed
  refine ⟨ids, d, hdraws, fun bound hbound => ?_, hassigns, hdepicts, ?_⟩
  · obtain ⟨ids', d', hdraws', hdrawn'⟩ := hends bound hbound
    exact hdrawn'.trans (hdraws'.unique hdraws).2
  · rw [ofGraph, hfirst]
    simp only [hmet, hdrawn]

/-- **The drawing of a flow is a faithful drawing of what can be reached from its start.** The search for it ends, and a
bound of as many steps as there are nodes is never met. Each node that it meets is given the first id to try for its
name that no node has by then, so different nodes have different ids, whatever their names are. It draws the nodes that
can be reached from the start and no others, each of them once, with one arrow for each of its edges, between the ids of
its two ends; and no line is drawn twice. A flow without a start has a drawing that says so. -/
theorem ofGraph_depicts (hg : g.Linked) (i : Nat) :
    ((g[i]?).bind Node.start? = none → ofGraph g i = ofLines [header, "    Error[\"No start node found\"]"]) ∧
    ∀ first, (g[i]?).bind Node.start? = some first → ∃ ids d,
      Draws g (meet g [] first).1 (meet g [] first).2.2 ids d ∧
      (∀ bound, g.length ≤ bound → drawPending g bound (meet g [] first).1 (meet g [] first).2.2 = d) ∧
      Assigns g ids ∧ Depicts g (some first) (named ids) (idIn ids) d ∧ (d.nodes ++ d.edges).Nodup ∧
      ofGraph g i = ofLines (header :: (d.nodes ++ d.edges).map ("    " ++ ·)) := by
  refine ⟨fun hnone => by rw [ofGraph, hnone], fun first hfirst => ?_⟩
  obtain ⟨ids, d, hdraws, hbound, hassigns, hdepicts, htext⟩ := exists_drawn hg hfirst
  exact ⟨ids, d, hdraws, hbound, hassigns, hdepicts, hdepicts.nodup hg, htext⟩

/-- Three names of which the first two have one id, and the third one is what the second one then gets; the last of
these nodes is a flow itself, and leads back to the first. -/
def tangle : Graph :=
  [.bare "a b" [(defaultLabel, 1), ("x", 2)] (.blocking fun _ => pure .null),
    .bare "a_b" [("y", 2)] (.blocking fun _ => pure .null),
    .bare "a_b_2" [(defaultLabel, 0)] (.flow false (.plain ⟨"a_b_2", some 1, .null, []⟩)),
    .bare "Flow(a b)" [] (.flow false (.plain ⟨"Flow(a b)", some 0, .null, []⟩))]

theorem ofGraph_depicts_tangle : tangle.Linked ∧ ∃ ids d, Depicts tangle (some 0) (named ids) (idIn ids) d ∧
    d.edges = ["a_b --> a_b_2", "a_b -->|x| a_b_2_2", "a_b_2 -->|y| a_b_2_2", "a_b_2_2 --> a_b"] := by
  have hlinked : tangle.Linked := ⟨by decide, by decide, by decide⟩
  obtain ⟨ids, d, -, hbound, -, hdepicts, -⟩ := (ofGraph_depicts hlinked 3).2 0 rfl
  refine ⟨hlinked, ids, d, hdepicts, ?_⟩
  rw [← hbound 4 (Nat.le_refl 4)]
  decide +kernel

end Diagram

end NodeFlow
