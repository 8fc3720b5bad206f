import NodeFlow.Proofs.Description.WellFormed
/-!
# What the checker accepts

The checker finds no problem in a description exactly if it is well-formed. Its two loops carry state,
the table of nodes declared so far and the routes taken so far; the work of this file is to recover
from that state the demands on all nodes and on all pairs of edges.

A fault of the checker counts as no acceptance on both sides: it arises only over a kind that is a
container, and such a kind is not registered.
-/

set_option autoImplicit false

namespace NodeFlow.Description

/-! ## 1. Labels -/

theorem kindAmong_eq_ok {names : List String} {node : Value} {b : Bool}
    (h : kindAmong names (node.field "kind") = .ok b) : b = true ↔ KindIn names node := by
  rw [KindIn]
  revert h
  cases node.field "kind" <;> simp +contextual [kindAmong, eq_comm]

theorem mem_nextLabels (node : Value) (l : String) :
    l ∈ nextLabels node ↔ (node.field "post").field "next" = .str l ∧ l ≠ "" := by
  rw [nextLabels, Option.mem_toList, name?_eq_some_iff]

theorem mem_caseLabels (cases : Value) (l : String) :
    l ∈ caseLabels cases ↔ ∃ c ∈ cases.items, c.field "label" = .str l ∧ l ≠ "" := by
  rw [caseLabels, List.mem_filterMap]
  exact exists_congr fun c => and_congr_right fun _ => name?_eq_some_iff _ _

theorem mem_guardLabels (node : Value) (l : String) :
    l ∈ guardLabels node ↔ IsObject (node.field "loop_guard") ∧
      ((node.field "loop_guard").field "exit").orElse (.str loopExitLabel) = .str l ∧ l ≠ "" := by
  rw [guardLabels]
  cases node.field "loop_guard" with
  | dict cell ms =>
    rw [Option.mem_toList, name?_eq_some_iff]
    exact ⟨fun h => ⟨⟨cell, ms, rfl⟩, h⟩, fun h => h.2⟩
  | _ => simp [IsObject]

/-- The labels that are read off a declaration are those that it can give. -/
theorem mem_producibleLabels {routers : List String} {node : Value} {valid : List String}
    (h : producibleLabels routers node = .ok valid) (l : String) :
    l ∈ valid ↔ Produces routers node l := by
  rw [producibleLabels] at h
  split at h
  · cases h
  split at h
  · cases h
  next isRouter hkind =>
  have hrouter := kindAmong_eq_ok hkind
  obtain rfl := Except.ok.inj h
  rw [labelsGiven, List.mem_append, List.mem_append, List.mem_cons, mem_nextLabels,
    mem_guardLabels]
  -- one part of the list for each way to give a label; the cases count for routers only
  constructor
  · rintro (((rfl | ⟨hnext, hne⟩) | hcase) | ⟨hobj, hexit, hne⟩)
    · exact .default
    · exact .next hnext hne
    · split at hcase
      · next hr =>
        obtain ⟨c, hc, hlabel, hne⟩ := (mem_caseLabels _ _).1 hcase
        exact .case (hrouter.1 hr) hc hlabel hne
      · exact absurd hcase List.not_mem_nil
    · exact .exit hobj hexit hne
  · rintro (_ | ⟨hnext, hne⟩ | ⟨hr, hc, hlabel, hne⟩ | ⟨hobj, hexit, hne⟩)
    · exact Or.inl (Or.inl (Or.inl rfl))
    · exact Or.inl (Or.inl (Or.inr ⟨hnext, hne⟩))
    · rw [if_pos (hrouter.2 hr)]
      exact Or.inl (Or.inr ((mem_caseLabels _ _).2 ⟨_, hc, hlabel, hne⟩))
    · exact Or.inr ⟨hobj, hexit, hne⟩

/-- A node of a registered kind has labels. -/
theorem IsNode.exists_labels {kinds routers : List String} {node : Value}
    (h : IsNode kinds routers node) : ∃ valid, producibleLabels routers node = .ok valid := by
  obtain ⟨k, -, hk⟩ := h.kind
  rw [producibleLabels, (isDict_iff node).2 h.isObject, hk]
  exact ⟨_, rfl⟩

/-! ## 2. The nodes, one after another -/

/-- The id of a node; empty if it has none. -/
def idOf (node : Value) : String := ((node.field "id").name?).getD ""

theorem idOf_eq {node : Value} {id : String} (h : (node.field "id").name? = some id) :
    idOf node = id := by
  rw [idOf, h, Option.getD_some]

theorem idOf_eq_of_str {node : Value} {id : String} (h : node.field "id" = .str id) :
    idOf node = id := by
  by_cases hid : id = ""
  · simp [idOf, h, Value.name?, hid]
  · exact idOf_eq ((name?_eq_some_iff _ _).2 ⟨h, hid⟩)

theorem IsName.name?_eq {v : Value} (h : IsName v) : ∃ s, v.name? = some s :=
  Option.isSome_iff_exists.1 ((name?_isSome_iff v).2 h)

/-- The id of a well-formed node, as its text. -/
theorem IsNode.field_id {kinds routers : List String} {node : Value}
    (h : IsNode kinds routers node) : node.field "id" = .str (idOf node) := by
  obtain ⟨s, hs, -⟩ := h.id
  rw [hs, idOf_eq_of_str hs]

/-- The table of declared nodes. -/
def table (nodes : List Value) : Members Value := nodes.map fun n => (idOf n, n)

/-- The loop over nodes finds nothing exactly if all of them are well-formed and no id occurs twice,
in the list or in the table that it starts with. -/
theorem checkNodes_eq_nil (kinds routers : List String) (i : Nat) (declared : Members Value)
    (nodes : List Value) :
    (checkNodes kinds routers i declared nodes).2 = [] ↔
      (∀ n ∈ nodes, IsNode kinds routers n) ∧
      (∀ n ∈ nodes, Members.has declared (idOf n) = false) ∧
      nodes.Pairwise fun n m => idOf n ≠ idOf m := by
  -- the table grows along the loop, so the induction is for all tables
  induction nodes generalizing i declared with
  | nil => simp [checkNodes]
  | cons node rest ih =>
    rw [List.forall_mem_cons, List.forall_mem_cons, List.pairwise_cons]
    simp only [checkNodes]
    -- the loop passes over a node that is no object, has no id or one that is taken, and each of
    -- these is a problem; only then the node itself is looked at
    split
    · next hdict =>
      refine ⟨fun h => absurd h (List.cons_ne_nil _ _), ?_⟩
      intro h
      rw [(isDict_iff node).2 h.1.1.isObject] at hdict
      cases hdict
    split
    · next hid =>
      refine ⟨fun h => absurd h (List.cons_ne_nil _ _), ?_⟩
      intro h
      obtain ⟨s, hs⟩ := h.1.1.id.name?_eq
      rw [hid] at hs
      cases hs
    next id hid =>
    have hidOf := idOf_eq hid
    split
    · next hdup =>
      refine ⟨fun h => absurd h (List.cons_ne_nil _ _), ?_⟩
      intro h
      rw [← hidOf, h.2.1.1] at hdup
      cases hdup
    · next hnew =>
      -- the table grows by this node, so the rest must avoid its id beside the older ones
      have hgrown : (∀ n ∈ rest, Members.has (declared ++ [(id, node)]) (idOf n) = false) ↔
          (∀ n ∈ rest, Members.has declared (idOf n) = false) ∧
          ∀ n ∈ rest, idOf node ≠ idOf n := by
        rw [← forall₂_and, hidOf]
        refine forall₂_congr ?_
        intro n _
        simp [Members.has, List.any_append]
      rw [List.append_eq_nil_iff, nodeProblems_eq_nil hid, ih, hgrown, hidOf]
      simp only [Bool.not_eq_true] at hnew
      constructor
      · rintro ⟨hnode, hrest, ⟨hold, hother⟩, hpair⟩
        exact ⟨⟨hnode, hrest⟩, ⟨hnew, hold⟩, hidOf ▸ hother, hpair⟩
      · rintro ⟨⟨hnode, hrest⟩, ⟨-, hold⟩, hother, hpair⟩
        exact ⟨hnode, hrest, ⟨hold, hidOf.symm ▸ hother⟩, hpair⟩

/-- Nodes without problems are all in the table, in their order. -/
theorem checkNodes_declared {kinds routers : List String} {i : Nat} {declared : Members Value}
    {nodes : List Value} (h : (checkNodes kinds routers i declared nodes).2 = []) :
    (checkNodes kinds routers i declared nodes).1 = declared ++ table nodes := by
  induction nodes generalizing i declared with
  | nil => simp [checkNodes, table]
  | cons node rest ih =>
    simp only [checkNodes] at h ⊢
    -- a node that the loop passes over is a problem, so every node gets into the table
    split at h
    · exact absurd h (List.cons_ne_nil _ _)
    next hdict =>
    rw [if_neg hdict]
    split at h
    · exact absurd h (List.cons_ne_nil _ _)
    next id hid =>
    split at h
    · exact absurd h (List.cons_ne_nil _ _)
    next hnew =>
    rw [if_neg hnew, ih (List.append_eq_nil_iff.1 h).2, table, table, List.map_cons, idOf_eq hid,
      List.append_assoc]
    rfl

/-! ## 3. The edges, one after another -/

/-- An edge that leads somewhere leads from one source to one target under one label. -/
theorem Leads.unique {e : Value} {s l t s' l' t' : String} (h : Leads e s l t)
    (h' : Leads e s' l' t') : s = s' ∧ l = l' ∧ t = t' := by
  have hs := h.source.symm.trans h'.source
  have hl := h.label.symm.trans h'.label
  have ht := h.target.symm.trans h'.target
  simp only [Value.str.injEq] at hs hl ht
  exact ⟨hs, hl, ht⟩

theorem has_iff_get? {α : Type} (ms : Members α) (key : String) :
    Members.has ms key = true ↔ ∃ a, Members.get? ms key = some a := by
  induction ms with
  | nil => simp [Members.has, Members.get?]
  | cons m rest ih =>
    rw [Members.has, Members.get?, List.any_cons, List.lookup_cons, Bool.or_eq_true,
      decide_eq_true_eq]
    by_cases hm : m.1 = key
    · simp [hm]
    · have hne : (key == m.1) = false := beq_eq_false_iff_ne.2 fun h => hm h.symm
      rw [hne]
      simp only [hm, false_or]
      exact ih

/-- An edge by itself, given the table of nodes. -/
def EdgeFits (routers : List String) (declared : Members Value) (e : Value) : Prop :=
  ∃ s l t node valid, Leads e s l t ∧ Members.get? declared s = some node ∧
    Members.has declared t = true ∧ producibleLabels routers node = .ok valid ∧ l ∈ valid

/-- An edge takes a route that is still free. -/
def TakesFree (routes : Routes) (e : Value) : Prop :=
  ∀ s l t, Leads e s l t → routes.lookup (s, l) = none

/-- The check of one edge between named nodes. -/
theorem routeProblems_eq_nil {routers : List String} {declared : Members Value} {routes after : Routes}
    {s l t : String} :
    routeProblems routers declared routes s t l = .ok (after, []) ↔
      ∃ node valid, Members.get? declared s = some node ∧ Members.has declared t = true ∧
        producibleLabels routers node = .ok valid ∧ l ∈ valid ∧ routes.lookup (s, l) = none ∧
        after = routes ++ [((s, l), t)] := by
  rw [routeProblems]
  -- without the source, or with labels that cannot be told, there is a problem or a fault
  cases hnode : Members.get? declared s with
  | none => simp
  | some node =>
    cases hvalid : producibleLabels routers node with
    | error f => simp [hvalid]
    | ok valid =>
      cases hroute : routes.lookup (s, l) with
      | some other => simp [hvalid]
      | none =>
        simp only [Option.isSome_none, Bool.false_eq_true, if_false, List.append_nil, hvalid,
          Except.ok.injEq, Prod.mk.injEq, List.append_eq_nil_iff, demand_eq_nil,
          List.contains_iff_mem]
        constructor
        · rintro ⟨rfl, htarget, hlabel⟩
          exact ⟨node, valid, rfl, htarget, hvalid, hlabel, trivial, rfl⟩
        · rintro ⟨node', valid', hnode', htarget, hvalid', hlabel, -, rfl⟩
          obtain rfl := Option.some.inj hnode'
          obtain rfl := Except.ok.inj (hvalid.symm.trans hvalid')
          exact ⟨rfl, htarget, hlabel⟩

/-- What is found at one edge comes before what is found at the others. -/
theorem map_append_eq_ok_nil {found : List Problem} {r : Except Fault (List Problem)} :
    r.map (found ++ ·) = .ok [] ↔ found = [] ∧ r = .ok [] := by
  cases r <;> simp [Except.map]

/-- The fields that an edge must have are there if it leads somewhere. -/
theorem Leads.missing_eq_nil {e : Value} {s l t : String} (h : Leads e s l t) :
    (["from", "to"].filter fun f => !Members.has e.members f) = [] := by
  have hthere : ∀ key v, e.field key = .str v → Members.has e.members key = true := by
    intro key v hv
    rw [has_iff_get?]
    rw [Value.field] at hv
    cases hget : Members.get? e.members key with
    | none => rw [hget] at hv; cases hv
    | some a => exact ⟨a, rfl⟩
  rw [List.filter_eq_nil_iff]
  simp [hthere "from" s h.source, hthere "to" t h.target]

/-- Past the tests of its fields an edge is checked by its route alone. -/
theorem edgeProblems_cons (routers : List String) (declared : Members Value) (i : Nat)
    (routes : Routes) {edge : Value} {s l t : String} (h : Leads edge s l t) (rest : List Value) :
    edgeProblems routers declared i routes (edge :: rest) =
      match routeProblems routers declared routes s t l with
      | .error f => .error f
      | .ok (after, found) =>
        (edgeProblems routers declared (i + 1) after rest).map (found ++ ·) := by
  have hdict : (!edge.isDict) = false := by
    rw [(isDict_iff edge).2 h.isObject]
    rfl
  rw [edgeProblems, hdict, h.missing_eq_nil, h.source, h.target, h.label]
  rfl

/-- An edge that leads nowhere is a problem. -/
theorem exists_leads_of_edgeProblems {routers : List String} {declared : Members Value} {i : Nat}
    {routes : Routes} {edge : Value} {rest : List Value}
    (hok : edgeProblems routers declared i routes (edge :: rest) = .ok []) :
    ∃ s l t, Leads edge s l t := by
  simp only [edgeProblems] at hok
  -- every test that an edge fails puts a problem in front of what is found at the others
  split at hok
  · exact absurd (map_append_eq_ok_nil.1 hok).1 (List.cons_ne_nil _ _)
  next hdict =>
  split at hok
  · exact absurd (map_append_eq_ok_nil.1 hok).1 (List.cons_ne_nil _ _)
  split at hok
  · next source target label hs ht hl =>
    simp only [Bool.not_eq_true', Bool.not_eq_false] at hdict
    exact ⟨source, label, target, (isDict_iff edge).1 hdict, hs, ht, hl⟩
  · exact absurd (map_append_eq_ok_nil.1 hok).1 (List.cons_ne_nil _ _)

theorem Leads.takesFree_iff {edge : Value} {s l t : String} (h : Leads edge s l t) (routes : Routes) :
    TakesFree routes edge ↔ routes.lookup (s, l) = none := by
  constructor
  · intro hf
    exact hf s l t h
  · intro hnone s' l' t' h'
    obtain ⟨rfl, rfl, -⟩ := h.unique h'
    exact hnone

/-- A route more is free for the edges that do not compete with the one that took it. -/
theorem Leads.takesFree_append_iff {edge : Value} {s l t : String} (h : Leads edge s l t)
    (routes : Routes) (e : Value) :
    TakesFree (routes ++ [((s, l), t)]) e ↔ TakesFree routes e ∧ ¬ Compete edge e := by
  constructor
  · intro hf
    constructor
    · intro s' l' t' h'
      have hnone := hf s' l' t' h'
      rw [List.lookup_append, Option.or_eq_none_iff] at hnone
      exact hnone.1
    · rintro ⟨s', l', t', u, hs, he⟩
      obtain ⟨rfl, rfl, rfl⟩ := h.unique hs
      have hnone := hf s l u he
      rw [List.lookup_append, Option.or_eq_none_iff] at hnone
      simp at hnone
  · rintro ⟨hf, hc⟩ s' l' t' h'
    rw [List.lookup_append, hf s' l' t' h', Option.none_or, List.lookup_cons]
    have hne : ((s', l') == (s, l)) = false := by
      rw [beq_eq_false_iff_ne]
      intro heq
      obtain ⟨rfl, rfl⟩ := Prod.mk.inj heq
      exact hc ⟨s', l', t, t', h, h'⟩
    rw [hne]
    rfl

/-- The loop over edges: without a problem, and without a fault, exactly if every edge fits, takes a
route that is free at the start, and no two take the same one. -/
theorem edgeProblems_eq_nil (routers : List String) (declared : Members Value) (i : Nat)
    (routes : Routes) (edges : List Value) :
    edgeProblems routers declared i routes edges = .ok [] ↔
      (∀ e ∈ edges, EdgeFits routers declared e) ∧ (∀ e ∈ edges, TakesFree routes e) ∧
      edges.Pairwise fun e f => ¬ Compete e f := by
  -- the routes grow along the loop, so the induction is for all of them
  induction edges generalizing i routes with
  | nil => simp [edgeProblems]
  | cons edge rest ih =>
    rw [List.forall_mem_cons, List.forall_mem_cons, List.pairwise_cons]
    constructor
    · intro hok
      obtain ⟨s, l, t, h⟩ := exists_leads_of_edgeProblems hok
      rw [edgeProblems_cons _ _ _ _ h] at hok
      split at hok
      · cases hok
      next after found hroute =>
      rw [map_append_eq_ok_nil] at hok
      obtain ⟨rfl, hrest⟩ := hok
      obtain ⟨node, valid, hnode, htarget, hvalid, hl, hnone, rfl⟩ := routeProblems_eq_nil.1 hroute
      obtain ⟨hfits, hfree, hpair⟩ := (ih _ _).1 hrest
      have hgrown : ∀ e ∈ rest, TakesFree routes e ∧ ¬ Compete edge e := fun e he =>
        (h.takesFree_append_iff routes e).1 (hfree e he)
      exact ⟨⟨⟨s, l, t, node, valid, h, hnode, htarget, hvalid, hl⟩, hfits⟩,
        ⟨(h.takesFree_iff routes).2 hnone, fun e he => (hgrown e he).1⟩,
        fun e he => (hgrown e he).2, hpair⟩
    · rintro ⟨⟨⟨s, l, t, node, valid, h, hnode, htarget, hvalid, hl⟩, hfits⟩, ⟨hfree, hold⟩,
        hcompete, hpair⟩
      have hnone := (h.takesFree_iff routes).1 hfree
      rw [edgeProblems_cons _ _ _ _ h,
        routeProblems_eq_nil.2 ⟨node, valid, hnode, htarget, hvalid, hl, hnone, rfl⟩]
      refine map_append_eq_ok_nil.2 ⟨rfl, (ih _ _).2 ⟨hfits, fun e he => ?_, hpair⟩⟩
      exact (h.takesFree_append_iff routes e).2 ⟨hold e he, hcompete e he⟩

/-! ## 4. Looking nodes up -/

/-- A table of nodes with their own ids finds a node that has the id. -/
theorem get?_table {nodes : List Value} {id : String} {node : Value}
    (h : Members.get? (table nodes) id = some node) : node ∈ nodes ∧ idOf node = id := by
  rw [Members.get?, List.lookup_eq_some_iff] at h
  obtain ⟨before, after, hsplit, -⟩ := h
  have hmem : (id, node) ∈ table nodes := by
    rw [hsplit]
    exact List.mem_append_right _ List.mem_cons_self
  obtain ⟨n, hn, heq⟩ := List.mem_map.1 hmem
  obtain ⟨rfl, rfl⟩ := Prod.mk.inj heq
  exact ⟨hn, rfl⟩

/-- With ids that differ it finds every node of the list. -/
theorem get?_table_of_mem {nodes : List Value} {node : Value} (hn : node ∈ nodes)
    (hd : nodes.Pairwise fun n m => idOf n ≠ idOf m) :
    Members.get? (table nodes) (idOf node) = some node := by
  induction nodes with
  | nil => exact absurd hn List.not_mem_nil
  | cons n rest ih =>
    rw [List.pairwise_cons] at hd
    rw [table, List.map_cons, Members.get?, List.lookup_cons]
    rcases List.mem_cons.1 hn with rfl | hn
    · rw [beq_self_eq_true]
    · rw [beq_eq_false_iff_ne.2 (hd.1 node hn).symm]
      exact ih hn hd.2

theorem has_table {nodes : List Value} {id : String} :
    Members.has (table nodes) id = true ↔ ∃ n ∈ nodes, idOf n = id := by
  simp [Members.has, table]

/-! ## 5. The whole -/

section

variable {kinds routers : List String} {d : Value}

/-- A declared node under its id, if every node has one. -/
theorem declares_iff (hnodes : ∀ n ∈ nodesOf d, IsNode kinds routers n) {id : String}
    {node : Value} : Declares d id node ↔ node ∈ nodesOf d ∧ idOf node = id := by
  refine and_congr_right ?_
  intro hn
  rw [(hnodes node hn).field_id, Value.str.injEq]

/-- What fits the table of all nodes is an edge of the description. -/
theorem edgeFits_table_iff (hnodes : ∀ n ∈ nodesOf d, IsNode kinds routers n)
    (hd : (nodesOf d).Pairwise fun n m => idOf n ≠ idOf m) (e : Value) :
    EdgeFits routers (table (nodesOf d)) e ↔ IsEdge routers d e := by
  constructor
  · rintro ⟨s, l, t, node, valid, hlead, hnode, htarget, hvalid, hl⟩
    have hsource : Declares d s node := (declares_iff hnodes).2 (get?_table hnode)
    have hlabel : Produces routers node l := (mem_producibleLabels hvalid l).1 hl
    obtain ⟨other, hother, hid⟩ := has_table.1 htarget
    have htarget : Declares d t other := (declares_iff hnodes).2 ⟨hother, hid⟩
    exact ⟨s, l, t, node, hlead, hsource, hlabel, other, htarget⟩
  · rintro ⟨s, l, t, node, hlead, hnode, hl, other, hother⟩
    obtain ⟨hmem, rfl⟩ := (declares_iff hnodes).1 hnode
    obtain ⟨valid, hvalid⟩ := (hnodes node hmem).exists_labels
    have hsource := get?_table_of_mem hmem hd
    have hlabel : l ∈ valid := (mem_producibleLabels hvalid l).2 hl
    have htarget : Members.has (table (nodesOf d)) t = true :=
      has_table.2 ⟨other, (declares_iff hnodes).1 hother⟩
    exact ⟨_, l, t, node, valid, hlead, hsource, htarget, hvalid, hlabel⟩

/-- Ids differ as values exactly if they differ as texts. -/
theorem distinct_iff (hnodes : ∀ n ∈ nodesOf d, IsNode kinds routers n) :
    ((nodesOf d).Pairwise fun n m => n.field "id" ≠ m.field "id") ↔
      (nodesOf d).Pairwise fun n m => idOf n ≠ idOf m := by
  refine List.Pairwise.iff_of_mem fun {n m} hn hm => ?_
  rw [(hnodes n hn).field_id, (hnodes m hm).field_id, ne_eq, Value.str.injEq]

theorem isPresent_iff (v : Value) :
    isPresent v = true ↔ v.truthy = true ∨ ∃ cell, v = .list cell [] := by
  rw [isPresent, Bool.or_eq_true, isList_iff]
  constructor
  · rintro (h | ⟨cell, xs, rfl⟩)
    · exact Or.inl h
    · cases xs with
      | nil => exact Or.inr ⟨cell, rfl⟩
      | cons x xs => exact Or.inl rfl
  · rintro (h | ⟨cell, rfl⟩)
    · exact Or.inl h
    · exact Or.inr ⟨cell, [], rfl⟩

theorem missing_eq_nil :
    (requiredFields.filter fun f => !isPresent (d.field f)) = [] ↔
      ∀ f ∈ requiredFields, (d.field f).truthy = true ∨ ∃ cell, d.field f = .list cell [] := by
  rw [List.filter_eq_nil_iff]
  refine forall₂_congr ?_
  intro f _
  rw [← isPresent_iff, Bool.not_eq_true', Bool.not_eq_false]

theorem entryProblems_eq_nil {declared : Members Value} (entry : Value) :
    entryProblems declared true entry = [] ↔
      ∃ e, entry = .str e ∧ Members.has declared e = true := by
  cases entry with
  | str e => simp [entryProblems]
  | _ => simp [entryProblems]

/-- The entry is in the table of all nodes exactly if it is declared. -/
theorem entry_table_iff (hnodes : ∀ n ∈ nodesOf d, IsNode kinds routers n) :
    (∃ e, d.field "entry" = .str e ∧ Members.has (table (nodesOf d)) e = true) ↔
      ∃ e node, d.field "entry" = .str e ∧ Declares d e node := by
  refine exists_congr ?_
  intro e
  rw [has_table]
  constructor
  · rintro ⟨he, n, hn, hid⟩
    exact ⟨n, he, (declares_iff hnodes).2 ⟨hn, hid⟩⟩
  · rintro ⟨n, he, hn⟩
    exact ⟨he, n, (declares_iff hnodes).1 hn⟩

/-- Nothing is found in the fields of a description exactly if each check by itself finds nothing. -/
theorem isVersionText_iff (v : Value) : (match v with | .str s => isVersion s | _ => false) = true ↔
    ∃ s, v = .str s ∧ isVersion s = true := by
  cases v <;> simp

theorem fieldProblems_eq_nil :
    fieldProblems kinds routers d = .ok [] ↔
      (∃ s, d.field "version" = .str s ∧ isVersion s = true) ∧ nodesOf d ≠ [] ∧
      (d.field "edges").isList = true ∧ absentOrDict (d.field "globals") = true ∧
      (checkNodes kinds routers 0 [] (nodesOf d)).2 = [] ∧
      entryProblems (checkNodes kinds routers 0 [] (nodesOf d)).1 (!(nodesOf d).isEmpty)
        (d.field "entry") = [] ∧
      edgeProblems routers (checkNodes kinds routers 0 [] (nodesOf d)).1 0 [] (edgesOf d) = .ok [] := by
  rw [fieldProblems, ← nodesOf, ← edgesOf, ← isVersionText_iff]
  cases edgeProblems routers (checkNodes kinds routers 0 [] (nodesOf d)).1 0 [] (edgesOf d) with
  | error f => simp
  | ok found =>
    simp only [Except.ok.injEq, List.append_eq_nil_iff, demand_eq_nil, Bool.not_eq_true',
      List.isEmpty_eq_false_iff, ne_eq]
    constructor
    · rintro ⟨⟨⟨⟨⟨⟨hv, hn⟩, he⟩, hg⟩, hc⟩, hentry⟩, hf⟩
      exact ⟨hv, hn, he, hg, hc, hentry, hf⟩
    · rintro ⟨hv, hn, he, hg, hc, hentry, hf⟩
      exact ⟨⟨⟨⟨⟨⟨hv, hn⟩, he⟩, hg⟩, hc⟩, hentry⟩, hf⟩

/-- A description in which the checker finds nothing is well-formed. -/
theorem wellFormed_of_accepted (h : problems kinds routers d = .ok []) :
    WellFormed kinds routers d := by
  rw [problems] at h
  split at h
  · exact absurd (Except.ok.inj h) (List.cons_ne_nil _ _)
  next hdict =>
  simp only [Bool.not_eq_true', Bool.not_eq_false] at hdict
  split at h
  · exact absurd (Except.ok.inj h) (List.cons_ne_nil _ _)
  next hpresent =>
  obtain ⟨⟨s, hs, hversion⟩, hsome, hedges, hglobals, hchecked, hentry, hfound⟩ :=
    fieldProblems_eq_nil.1 h
  -- the table that entry and edges are checked against is that of all nodes
  have htable := checkNodes_declared hchecked
  rw [List.nil_append] at htable
  obtain ⟨hnodes, -, hdistinct⟩ := (checkNodes_eq_nil _ _ _ _ _).1 hchecked
  rw [htable, List.isEmpty_eq_false_iff.2 hsome] at hentry
  rw [htable, edgeProblems_eq_nil] at hfound
  obtain ⟨cell, xs, hlist⟩ : ∃ cell xs, d.field "nodes" = .list cell xs := by
    cases hn : d.field "nodes" with
    | list cell xs => exact ⟨cell, xs, rfl⟩
    | _ => exact absurd (by rw [nodesOf, hn]; rfl) hsome
  have hxs : ∀ x ∈ xs, IsNode kinds routers x := by
    rw [nodesOf, hlist] at hnodes
    exact hnodes
  obtain ⟨ecell, es, hes⟩ := (isList_iff _).1 hedges
  have hall : ∀ e ∈ es, IsEdge routers d e := by
    intro e he
    have hmem : e ∈ edgesOf d := by
      rw [edgesOf, hes]
      exact he
    exact (edgeFits_table_iff hnodes hdistinct e).1 (hfound.1 e hmem)
  exact {
    isObject := (isDict_iff d).1 hdict
    present := missing_eq_nil.1 hpresent
    version := ⟨s, hs, (isVersion_iff s).1 hversion⟩
    nodes := ⟨cell, xs, hlist, hxs⟩
    someNode := hsome
    distinct := (distinct_iff hnodes).2 hdistinct
    globals := (absentOrDict_iff _).1 hglobals
    entry := (entry_table_iff hnodes).1 ((entryProblems_eq_nil _).1 hentry)
    edges := ⟨ecell, es, hes, hall⟩
    unambiguous := hfound.2.2 }

/-- In a well-formed description the checker finds nothing, and no fault keeps it from looking. -/
theorem accepted_of_wellFormed (h : WellFormed kinds routers d) :
    problems kinds routers d = .ok [] := by
  obtain ⟨ecell, es, hes, -⟩ := h.edges
  have hnodes := h.isNode
  have hdistinct := (distinct_iff hnodes).1 h.distinct
  have hchecked : (checkNodes kinds routers 0 [] (nodesOf d)).2 = [] :=
    (checkNodes_eq_nil _ _ _ _ _).2 ⟨hnodes, fun _ _ => rfl, hdistinct⟩
  have htable := checkNodes_declared hchecked
  rw [List.nil_append] at htable
  obtain ⟨s, hs, hversion⟩ := h.version
  rw [problems, (isDict_iff d).2 h.isObject, missing_eq_nil.2 h.present]
  refine fieldProblems_eq_nil.2 ⟨⟨s, hs, (isVersion_iff s).2 hversion⟩, h.someNode, ?_,
    (absentOrDict_iff _).2 h.globals, hchecked, ?_, ?_⟩
  · rw [hes]
    rfl
  · rw [htable, List.isEmpty_eq_false_iff.2 h.someNode]
    exact (entryProblems_eq_nil _).2 ((entry_table_iff hnodes).2 h.entry)
  -- no route is taken yet, so every edge finds its own free
  · rw [htable, edgeProblems_eq_nil]
    refine ⟨?_, fun _ _ _ _ _ _ => rfl, h.unambiguous⟩
    intro e he
    exact (edgeFits_table_iff hnodes hdistinct e).2 (h.isEdge e he)

end

/-- The checker with the built-in kinds accepts exactly the well-formed descriptions. -/
theorem builtin_accepts_iff (d : Value) :
    problems Kind.names Kind.routerNames d = .ok [] ↔ WellFormed Kind.names Kind.routerNames d :=
  ⟨wellFormed_of_accepted, accepted_of_wellFormed⟩

end NodeFlow.Description
