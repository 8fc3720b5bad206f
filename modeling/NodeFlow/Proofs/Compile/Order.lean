import NodeFlow.Proofs.Compile.Aligned
import NodeFlow.Proofs.Compile.Templates
import NodeFlow.Proofs.Memory.Growth
/-!
# The order of declarations does not matter

A graph is walked by the labels of its edges and not by their order, and nodes are found by their ids. So a
description whose nodes and edges come in another order says the same: it is accepted too, and its graph does the
same in every run. Only where the end of a flow lists the labels that a node has can the order be seen.

The two graphs are walked in tandem. Nodes have other places in the second one, and declarations other cells.
-/

set_option autoImplicit false

namespace NodeFlow

open Description

/-- Two diagnostics that differ at most in the order of the labels that the end of a flow lists. -/
inductive Diagnostic.Alike : Diagnostic → Diagnostic → Prop
  | same (d : Diagnostic) : Alike d d
  | listed {n n' : Node} (label : Value) : n'.name = n.name → (n'.wiring.map Prod.fst).Perm (n.wiring.map Prod.fst) →
    Alike (n.endNote label) (n'.endNote label)

namespace Accord

/-! ## 1. Contexts under other names -/

variable {A : Accord} {k : Kind} {d : Declared} {m : Value}

theorem Scopes.eq_renamed (hcontext : ∀ v v', A.context v v' → v' = v.renamed A.names) {s s' : Scope}
    (hs : A.Scopes s s') : s' = s.renamed A.names := by
  have hoption : ∀ {o o' : Option Value}, Option.Rel A.Values o o' → o' = o.map (Value.renamed A.names) := by
    intro o o' h
    cases h with
    | none => rfl
    | some h => rw [h.2, Option.map_some]
  obtain ⟨ctx, result, exec, item, params⟩ := s
  obtain ⟨ctx', result', exec', item', params'⟩ := s'
  obtain rfl := hcontext _ _ hs.ctx
  obtain rfl : result' = _ := hs.result.2
  obtain rfl : exec' = _ := hoption hs.exec
  obtain rfl : item' = _ := hoption hs.item
  obtain rfl : params' = _ := hs.params_eq
  rfl

/-- If views of the context differ in their names only, no expression can tell them apart. -/
theorem agree_of_renamed (hcontext : ∀ v v', A.context v v' → v' = v.renamed A.names) {s s' : Scope}
    (hs : A.Scopes s s') (expr : List Char) : Template.Agree A.names s s' expr := by
  rw [hs.eq_renamed hcontext]
  exact Template.agree_renamed s expr

theorem fills_of_renamed (hcontext : ∀ v v', A.context v v' → v' = v.renamed A.names) (t : Value) : A.Fills t :=
  fun _ _ hs => Template.every_of_forall (agree_of_renamed hcontext hs) t

/-- A declaration that honors the seal suits the accord. -/
theorem suits_of_honors (hcontext : ∀ v v', A.context v v' → v' = v.renamed A.names)
    (hparams : ∀ v, A.params v → v.Free A.sealed) (hd : d.Honors A.sealed (Gives m) (k == .router)) {h : Heap}
    (hh : h.Obeys A.sealed) : A.Suits k (d.contentIn h) := by
  have hroutes : k ≠ .router → (k == .router) = false := fun hk => beq_eq_false_iff_ne.2 hk
  have hprompts : k.prompts = true → (k == .router) = false := fun hk => hroutes (by rintro rfl; cases hk)
  refine ⟨fun hk => ?_, fun hk save hsave => ⟨fills_of_renamed hcontext _, fun s s' hs node v hv => ?_⟩,
    fun _ _ _ => fills_of_renamed hcontext _, fun hk => ?_, fun hk => ?_, fun _ _ _ => fills_of_renamed hcontext _,
    fun _ => fills_of_renamed hcontext _, fun _ => fills_of_renamed hcontext _, fun hk => ?_, fun hk cs hcs c hc => ?_,
    fun _ _ _ _ _ _ s s' hs => agree_of_renamed hcontext hs _⟩
  · exact isEnding_of_labels (hd.next (hroutes hk) h hh)
  · -- the entries are rendered without the marks of the declaration
    have hsaves := Terms.free_field (Terms.free_field (hd.saves (hroutes hk) h hh) "outputs") "save"
    rw [Value.field_fresh, Value.field_fresh] at hsaves
    have hitems := Terms.free_items hsaves
    rw [Value.items_fresh, List.forall_mem_map] at hitems
    refine Template.free_of_render (hs.free hparams) ?_ hv
    rw [← Terms.fieldOr_fresh, ← Value.field_fresh]
    exact Terms.free_fieldOr (hitems save hsave) (Terms.free_field (hitems save hsave) _) _
  · exact Terms.free_fieldOr (hd.work (hprompts hk) h hh) (Terms.free_str _) _
  · exact Terms.free_field (hd.work (hprompts hk) h hh) "model"
  · exact (Value.free_orElse (hd.work (hroutes (by rintro rfl; cases hk)) h hh) Value.free_nothing).fresh
  · exact isEnding_of_labels (hd.cases (by rw [hk]; rfl) h hh cs hcs c hc)

end Accord

/-- A world with an empty object and nothing else. -/
def World.stocked : World := { World.blank with heap := (World.blank.heap.alloc (.dict [])).2 }

theorem World.closed_stocked : World.stocked.heap.Closed :=
  Heap.Closed.alloc (fun _ _ hc => absurd (Heap.cell?_lt hc) (Nat.not_lt_zero _)) Cell.free_empty

namespace Compiler

variable {env : Environment} {h₀ kept kept₂ : Heap} {d d₂ d' d₂' m : Value} {σ : Renaming} {w : World}

/-! ## 2. The accord -/

/-- Cells of a description that runs do not look at, with what they hold. -/
def unseen (d : Value) (h : Heap) : Seal := fun a => if a ∈ d.marks ∧ a ∉ shown d then h.cell? a else none

/-- How the runs of two graphs correspond whose descriptions differ in their order only. -/
def orderAccord (d : Value) (h : Heap) (σ : Renaming) (w : World) : Accord where
  names := σ
  hidden := unseen d h
  sealed := sealOf d h
  hidden_of_sealed a ha := by
    rw [unseen]
    split
    · next hunseen =>
      rw [← sealOf_eq hunseen.1 fun hexposed => hunseen.2 (exposed_subset d a hexposed)]
      exact ha
    · rfl
  objects _ := False
  context v v' := v' = v.renamed σ
  params v := v.Free (sealOf d h)
  note := Diagnostic.Alike
  note_refl := .same
  recorded := True
  setup := w.channel.setup
  before := w.calls
  before' := w.calls
  past := w.journal
  past' := w.journal

theorem unseen_of_not_mem {a : Addr} (ha : a ∉ d.marks) : unseen d kept a = none := if_neg fun h => ha h.1

theorem unseen_of_shown {a : Addr} (ha : a ∈ shown d) : unseen d kept a = none := if_neg fun h => h.2 ha

theorem shown_of_unseen {a : Addr} (ha : unseen d kept a = none) (hmem : a ∈ d.marks) (hlt : a < kept.cells.size) :
    a ∈ shown d := by
  by_contra hnot
  have hcell : kept.cell? a = some kept.cells[a] := Array.getElem?_eq_getElem hlt
  rw [unseen, if_pos ⟨hmem, hnot⟩, hcell] at ha
  cases ha

/-- What is shown is part of a value that is held, all of whose cells are shown. -/
theorem exists_of_shown (hkept : Heap.Kept h₀ d d' kept) {a : Addr} (ha : a ∈ shown d') :
    ∃ v, kept.Holds v ∧ a ∈ v.marks ∧ (∀ b ∈ v.marks, b ∈ shown d') ∧
      (v = d'.field "globals" ∨ v ∈ nodesOf d') := by
  rcases List.mem_append.1 ha with ha | ha
  · exact ⟨_, hkept.holds.field "globals", ha, fun b hb => List.mem_append_left _ hb, Or.inl rfl⟩
  · obtain ⟨m, hm, ham⟩ := List.mem_flatMap.1 ha
    exact ⟨m, (hkept.holds.field "nodes").item hm, ham,
      fun b hb => List.mem_append_right _ (List.mem_flatMap.2 ⟨m, hm, hb⟩), Or.inr hm⟩

/-- The two descriptions in memory correspond. -/
theorem heaps_kept (hkept : Heap.Kept w.heap d d' kept) (hkept₂ : Heap.Kept w.heap d₂ d₂' kept₂)
    (hclosed : w.heap.Closed) (haligned : Aligned w.heap kept kept₂ d' d₂' σ) :
    (orderAccord d' kept σ w).Heaps kept kept₂ where
  obeys := obeys_kept hkept hclosed
  shows := by
    refine ⟨fun a c ha hc part hpart b hb => ?_, fun a ha => ?_⟩
    · by_cases hold : a < w.heap.cells.size
      · rw [hkept.extends_.cell a hold] at hc
        exact unseen_of_not_mem fun hmem => absurd (hclosed a c hc part hpart b hb) (Nat.not_lt.2 (hkept.new b hmem))
      · have hshown : a ∈ shown d' :=
          shown_of_unseen ha (hkept.all a (Nat.not_lt.1 hold) (Heap.cell?_lt hc)) (Heap.cell?_lt hc)
        obtain ⟨v, hv, hav, hall, -⟩ := exists_of_shown hkept hshown
        exact unseen_of_shown (hall b (hv.refs_subset hav hc part hpart b hb))
    · rcases Nat.lt_or_ge a w.heap.cells.size with hold | hnew
      · -- an older cell is as it was, in both memories
        show kept₂.cell? (σ.cell a) = _
        rw [haligned.old a hold, hkept₂.extends_.cell a hold, hkept.extends_.cell a hold]
        cases hc : w.heap.cell? a with
        | none => rfl
        | some c =>
          have hfixed := Cell.renamed_of_fixed haligned.label fun part hpart b hb =>
            haligned.old b (hclosed a c hc part hpart b hb)
          exact congrArg some hfixed.symm
      · rcases Nat.lt_or_ge a kept.cells.size with hlt | hlater
        · have hshown : a ∈ shown d' := shown_of_unseen ha (hkept.all a hnew hlt) hlt
          obtain ⟨v, hv, hav, -, hwhich⟩ := exists_of_shown hkept hshown
          refine hv.cell?_renamed ?_ hav
          rcases hwhich with rfl | hm
          · exact haligned.globals ▸ hkept₂.holds.field "globals"
          · obtain ⟨i, hi, rfl⟩ := List.getElem_of_mem hm
            exact (hkept₂.holds.field "nodes").item
              (List.mem_of_getElem? (haligned.node i _ (List.getElem?_eq_getElem hi)))
        · show kept₂.cell? (σ.cell a) = _
          rw [haligned.later a hlater, Heap.cell?, Heap.cell?, Array.getElem?_eq_none hlater,
            Array.getElem?_eq_none (haligned.size ▸ hlater), Option.map_none]
  cells k := by
    rw [haligned.size]
    exact haligned.later _ (Nat.le_add_right _ _)
  labels k := by
    show σ.label (kept.nextLabel + k) = kept₂.nextLabel + k
    rw [haligned.label, hkept.labels, hkept₂.labels, id]
  objects a ha := ha.elim

/-! ## 3. Parameters and collaborators -/

theorem globals_fixed {h : Heap} (hglobals : env.HasGlobals h) (hold : ∀ a < h.cells.size, σ.cell a = a) :
    env.globals.renamed σ = env.globals := by
  rcases hglobals with hnull | ⟨a, ms, href, hcell⟩
  · rw [hnull]
    rfl
  · rw [href, Datum.renamed_ref, hold a (Heap.cell?_lt hcell)]

theorem environments_order (hkept : Heap.Kept w.heap d d' kept) (hglobals : env.HasGlobals w.heap)
    (henv : ∀ σ, env.Indifferent σ) (hold : ∀ a < w.heap.cells.size, σ.cell a = a) :
    (orderAccord d' kept σ w).Environments env := by
  have hfree : env.globals.Free (sealOf d' kept) := free_globals hkept hglobals
  refine Accord.environments_of (henv σ) (Environment.discreet_of_indifferent henv) (env.repeats_self _)
    (Accord.free_hidden hfree) (globals_fixed hglobals hold) (fun h h' hh ms hms => ?_)
    fun v hv => Terms.free_field hv "model"
  have hall := Terms.free_commonMembers hh.obeys.free hfree hms
  exact hh.obeys.view (Members.forall_getD hall Datum.free_null "model")

/-- The parameters of the two flows correspond. -/
theorem entries_paramsFor {A : Accord} (hh : A.Heaps kept kept₂) (henv : A.Environments env)
    (hglobals : env.globals.Free A.sealed) {common common₂ : Members Datum}
    (hcommon : env.commonMembers? kept = some common) (hcommon₂ : env.commonMembers? kept₂ = some common₂)
    (hsame : d₂'.field "globals" = (d'.field "globals").renamed A.names)
    (hfree : (d'.field "globals").Free A.sealed) :
    A.Entries (paramsFor common kept d') (paramsFor common₂ kept₂ d₂') := by
  have hentries : A.Entries common common₂ := by
    refine ⟨Terms.free_commonMembers hh.obeys.free hglobals hcommon, ?_⟩
    have hboth := henv.commonMembers? hh
    rw [hcommon, hcommon₂, Option.map_some] at hboth
    exact Option.some.inj hboth
  rw [paramsFor, paramsFor, hsame]
  refine hentries.putAll ?_
  cases hfield : d'.field "globals" with
  | dict cell ms =>
    rw [hfield] at hfree
    rw [Value.renamed_dict]
    cases cell with
    | none => exact Accord.Heaps.entries_nil
    | some a => exact hh.entries ((Value.free_dict.1 hfree).1 a rfl)
  | list cell xs =>
    rw [Value.renamed_list]
    exact Accord.Heaps.entries_nil
  | store cell name ms =>
    rw [Value.renamed_store]
    exact Accord.Heaps.entries_nil
  | _ => exact Accord.Heaps.entries_nil

/-! ## 4. Graphs -/

theorem isRouter_eq {name : String} {k : Kind} (hname : m.field "kind" = .str name) (hkind : Kind.ofName? name = some k) :
    isRouter m = (k == .router) := by
  rw [isRouter, hname]
  dsimp only
  rw [hkind]
  cases k <;> rfl

/-- A declaration corresponds to that of the same node. -/
theorem declarations_order (hkept : Heap.Kept w.heap d d' kept) (haligned : Aligned w.heap kept kept₂ d' d₂' σ)
    (hm : m ∈ nodesOf d') (hnode : IsNode Kind.names Kind.routerNames m) :
    (orderAccord d' kept σ w).Declarations m (m.renamed σ) where
  id := idOf_renamed m
  kind := kind_renamed hnode
  policy := policyOf_renamed haligned.label hnode
  declares name k hname hkind := by
    obtain ⟨cell, ms, rfl⟩ := hnode.isObject
    have hheld : kept.Holds (.dict cell ms) := (hkept.holds.field "nodes").item hm
    cases hheld with
    | plain hp => cases hp
    | @dict a _ _ _ _ =>
      have hcontent : (Terms.declaredOf ((Value.dict (some a) ms).renamed σ)).content = σ.cell a := by
        rw [Terms.declaredOf, Value.renamed_dict]
        rfl
      refine ⟨idOf_renamed _, guardOf_renamed _, hcontent, unseen_of_shown (List.mem_append_right _ ?_), fun h h' hh => ?_⟩
      · refine List.mem_flatMap.2 ⟨_, hm, ?_⟩
        rw [Value.marks_dict_some]
        exact List.mem_cons_self
      · have hhonors := honors hkept hm hnode
        rw [isRouter_eq hname hkind] at hhonors
        exact Accord.suits_of_honors (fun _ _ h => h) (fun _ h => h) hhonors hh.obeys

theorem leads_order (hkept : Heap.Kept h₀ d d' kept) (hkept₂ : Heap.Kept h₀ d₂ d₂' kept₂) (horder : Reorders d d₂)
    (source label target : String) :
    (∃ e ∈ edgesOf d₂', Leads e source label target) ↔ ∃ e ∈ edgesOf d', Leads e source label target := by
  have hfresh : ∀ {x x' : Value} {k : Heap}, Heap.Kept h₀ x x' k →
      ((∃ e ∈ edgesOf x', Leads e source label target) ↔ ∃ e ∈ edgesOf x, Leads e source label target) := by
    intro x x' k hk
    rw [← hk.fresh, edgesOf_fresh]
    simp only [List.mem_map, exists_exists_and_eq_and, leads_fresh]
  rw [hfresh hkept, hfresh hkept₂]
  exact exists_congr fun e => and_congr_left fun _ => horder.edges.mem_iff

section

variable {own own₂ params params₂ : Addr} {nodes nodes₂ : List Node} {edges edges₂ : List Edge} {start start₂ : Nat}
  {c c₂ : Compiled}

theorem ids_order (h : Assembles env d' own params nodes edges start c)
    (h₂ : Assembles env d₂' own₂ params₂ nodes₂ edges₂ start₂ c₂) (haligned : Aligned h₀ kept kept₂ d' d₂' σ) {j : Nat}
    {id : String} (hj : c.ids[j]? = some id) : c₂.ids[placeIn d' d₂' j]? = some id := by
  rw [h.ids, List.getElem?_map, Option.map_eq_some_iff] at hj
  obtain ⟨m, hm, rfl⟩ := hj
  rw [h₂.ids, List.getElem?_map, haligned.node j m hm, Option.map_some, idOf_renamed]

theorem eq_of_ids {ids : List String} (hdistinct : ids.Nodup) {i j : Nat} {id : String} (hi : ids[i]? = some id)
    (hj : ids[j]? = some id) : i = j := by
  obtain ⟨hilt, hiid⟩ := List.getElem?_eq_some_iff.1 hi
  obtain ⟨hjlt, hjid⟩ := List.getElem?_eq_some_iff.1 hj
  exact hdistinct.getElem_inj_iff.1 (hiid.trans hjid.symm)

/-- Edges lead to the places of the same nodes. -/
theorem routes_order (h : Assembles env d' own params nodes edges start c)
    (h₂ : Assembles env d₂' own₂ params₂ nodes₂ edges₂ start₂ c₂) (hkept : Heap.Kept h₀ d d' kept)
    (hkept₂ : Heap.Kept h₀ d₂ d₂' kept₂) (horder : Reorders d d₂) (haligned : Aligned h₀ kept kept₂ d' d₂' σ)
    (hdistinct : c.ids.Nodup) (hdistinct₂ : c₂.ids.Nodup) {i : Nat} (hi : i < (nodesOf d').length) (l : String) :
    Members.get? (routesFrom (placeIn d' d₂' i) edges₂) l =
      (Members.get? (routesFrom i edges) l).map (placeIn d' d₂') := by
  have hlt : i < c.ids.length := by rwa [h.ids, List.length_map]
  have hid : c.ids[i]? = some c.ids[i] := List.getElem?_eq_getElem hlt
  have hid₂ := ids_order h h₂ haligned hid
  ext j₂
  rw [get?_routesFrom h₂.apart, h₂.edge_mem_iff hdistinct₂ hid₂, Option.map_eq_some_iff]
  constructor
  · rintro ⟨e₂, he₂, target, hlead, hj₂⟩
    obtain ⟨e, he, hlead⟩ := (leads_order hkept hkept₂ horder _ _ _).1 ⟨e₂, he₂, hlead⟩
    -- the target is declared in the first description too
    obtain ⟨f, -, hnumbers⟩ := exists_mem_of_forall₂ h.numbers.flip e he
    obtain ⟨s, t, hleads, -, ht⟩ := hnumbers.leads
    obtain ⟨-, -, rfl⟩ := hlead.unique hleads
    refine ⟨f.target, ?_, eq_of_ids hdistinct₂ (ids_order h h₂ haligned ht) hj₂⟩
    exact (get?_routesFrom h.apart i l _).2 ((h.edge_mem_iff hdistinct hid l _).2 ⟨e, he, target, hlead, ht⟩)
  · rintro ⟨j, hj, rfl⟩
    obtain ⟨e, he, target, hlead, ht⟩ := (h.edge_mem_iff hdistinct hid l j).1 ((get?_routesFrom h.apart i l j).1 hj)
    obtain ⟨e₂, he₂, hlead₂⟩ := (leads_order hkept hkept₂ horder _ _ _).2 ⟨e, he, hlead⟩
    exact ⟨e₂, he₂, target, hlead₂, ids_order h h₂ haligned ht⟩

theorem nodup_keys_routesFrom (hapart : edges.Pairwise Apart) (i : Nat) : ((routesFrom i edges).map Prod.fst).Nodup := by
  rw [routesFrom, List.map_map]
  refine List.Pairwise.map _ (fun e f h => h) ((hapart.sublist List.filter_sublist).imp_of_mem ?_)
  intro e f he hf happly hlabel
  refine happly ⟨?_, hlabel⟩
  rw [of_decide_eq_true (List.mem_filter.1 he).2, of_decide_eq_true (List.mem_filter.1 hf).2]

theorem matches_order (h : Assembles env d' own params nodes edges start c)
    (h₂ : Assembles env d₂' own₂ params₂ nodes₂ edges₂ start₂ c₂) (hkept : Heap.Kept w.heap d d' kept)
    (hkept₂ : Heap.Kept w.heap d₂ d₂' kept₂) (horder : Reorders d d₂) (haligned : Aligned w.heap kept kept₂ d' d₂' σ)
    (hwell : WellFormed Kind.names Kind.routerNames d') (hdistinct : c.ids.Nodup) (hdistinct₂ : c₂.ids.Nodup) :
    (orderAccord d' kept σ w).Matches (placeIn d' d₂') d' d₂' edges edges₂ where
  declaration i m hm := by
    have hmem := List.mem_of_getElem? hm
    exact ⟨_, haligned.node i m hm, declarations_order hkept haligned hmem (hwell.isNode m hmem)⟩
  onto := haligned.onto
  routes i hi l := routes_order h h₂ hkept hkept₂ horder haligned hdistinct hdistinct₂ hi l
  note i hi n n' hname hwiring hwiring₂ label _ := by
    refine .listed label hname ?_
    rw [hwiring, hwiring₂]
    refine (List.perm_ext_iff_of_nodup (nodup_keys_routesFrom h₂.apart _) (nodup_keys_routesFrom h.apart _)).2 fun l => ?_
    have hkey : ∀ ms : Members Nat, l ∈ ms.map Prod.fst ↔ (Members.get? ms l).isSome := by
      intro ms
      rw [Members.get?, List.lookup_isSome_iff]
      simp
    rw [hkey, hkey, routes_order h h₂ hkept hkept₂ horder haligned hdistinct hdistinct₂ hi l, Option.isSome_map]

theorem start_order (h : Assembles env d' own params nodes edges start c)
    (h₂ : Assembles env d₂' own₂ params₂ nodes₂ edges₂ start₂ c₂) (hkept : Heap.Kept h₀ d d' kept)
    (hkept₂ : Heap.Kept h₀ d₂ d₂' kept₂) (horder : Reorders d d₂) (haligned : Aligned h₀ kept kept₂ d' d₂' σ)
    (hdistinct₂ : c₂.ids.Nodup) : start₂ = placeIn d' d₂' start := by
  obtain ⟨e, he, hstart⟩ := h.entry
  obtain ⟨e₂, he₂, hstart₂⟩ := h₂.entry
  have hentry : ∀ {x x' : Value} {k : Heap} {s : String}, Heap.Kept h₀ x x' k → x'.field "entry" = .str s →
      x.field "entry" = .str s := by
    intro x x' k s hk hs
    rw [← hk.fresh, Value.field_fresh, hs]
    rfl
  have hsame := hentry hkept₂ he₂
  rw [horder.field (by decide) (by decide), hentry hkept he] at hsame
  obtain rfl := Value.str.inj hsame
  exact eq_of_ids hdistinct₂ hstart₂ (ids_order h h₂ haligned hstart)

end

/-! ## 5. Runs -/

/-- Two runs that do the same, under other names: they end with the same label or failure and leave the same context,
after the same calls. What was told and recorded since the graphs were compiled is alike. -/
structure RunsAlike (σ : Renaming) (shared : Shared) (w : World) (r r' : Except Failure Datum × World) : Prop where
  label : r'.1 = r.1
  context : r'.2.heap.view shared.datum = (r.2.heap.view shared.datum).renamed σ
  calls : r'.2.calls = r.2.calls
  records : List.Forall₂ Diagnostic.Alike r.2.channel.records r'.2.channel.records
  journal : ∃ events events', r.2.journal = events ++ w.journal ∧ r'.2.journal = events' ++ w.journal ∧
    List.Forall₂ (Event.Alike σ Diagnostic.Alike fun v v' => v' = v.renamed σ) events events'

theorem Accord.Called.eq {A : Accord} (hsame : A.before' = A.before) {c c' : Calls} (h : A.Called c c') : c' = c := by
  have hcount : ∀ line, c'.count line = c.count line := by
    intro line
    obtain ⟨k, hk, hk'⟩ := h line
    rw [hk, hk', hsame]
  obtain ⟨generator, model, http, session⟩ := c
  obtain ⟨generator', model', http', session'⟩ := c'
  obtain rfl : generator' = generator := hcount .generator
  obtain rfl : model' = model := hcount .model
  obtain rfl : http' = http := hcount .http
  obtain rfl : session' = session := hcount .session
  rfl

/-- States that correspond make runs alike. -/
theorem runsAlike_of_worlds {shared : Shared} {r r' : Except Failure Datum} {u u' : World} (hlabel : r' = r)
    (hworlds : (orderAccord d' kept σ w).Worlds u u') (hfree : shared.datum.Free (unseen d' kept))
    (hname : shared.datum.renamed σ = shared.datum) : RunsAlike σ shared w (r, u) (r', u') where
  label := hlabel
  context := by
    have hview := hworlds.heap.view (A := orderAccord d' kept σ w) hfree
    rwa [show shared.datum.renamed (orderAccord d' kept σ w).names = shared.datum from hname] at hview
  calls := Accord.Called.eq rfl hworlds.calls
  records := hworlds.records trivial
  journal := hworlds.journal

/-- **The order of declarations does not matter.** A description that the checker accepts is accepted with its nodes
and edges in any other order. Both compile in one world, and under some renaming, which keeps all that was there
before, every run of the one graph is alike to that of the other, in any context and under any limit and listeners. -/
theorem reordered_runs_alike {env : Environment} {d d₂ : Value} {w : World} (hjson : d.IsJson)
    (haccepted : (ofEnvironment env).problems d = .ok []) (hclosed : w.heap.Closed)
    (hglobals : env.HasGlobals w.heap) (henv : ∀ σ, env.Indifferent σ) (horder : Reorders d d₂) :
    (ofEnvironment env).problems d₂ = .ok [] ∧ ∃ c c₂ w₁ w₂ σ, (ofEnvironment env).compile d w = (.ok c, w₁) ∧
      (ofEnvironment env).compile d₂ w = (.ok c₂, w₂) ∧ (∀ a < w.heap.cells.size, σ.cell a = a) ∧
      ∀ limit ls (shared : Shared) b, shared.data < w.heap.cells.size →
        RunsAlike σ shared w ((c.configured limit ls).runWithin b shared w₁)
          ((c₂.configured limit ls).runWithin b shared w₂) := by
  have haccepted₂ : (ofEnvironment env).problems d₂ = .ok [] := by
    rw [problems_ofEnvironment] at haccepted ⊢
    exact accepted_of_wellFormed (horder.wellFormed (wellFormed_of_accepted haccepted))
  refine ⟨haccepted₂, ?_⟩
  have hwell₀ : WellFormed Kind.names Kind.routerNames d := wellFormed_of_accepted (problems_ofEnvironment env d ▸ haccepted)
  obtain ⟨d', kept, common, nodes, edges, start, c, hkept, hwell, hcommon, h, hcompile⟩ :=
    compile_ok hjson haccepted hglobals
  obtain ⟨d₂', kept₂, common₂, nodes₂, edges₂, start₂, c₂, hkept₂, hwell₂, hcommon₂, h₂, hcompile₂⟩ :=
    compile_ok (horder.isJson hjson) haccepted₂ hglobals
  have hdistinct : c.ids.Nodup := (h.faithful (distinct_ids hwell)).distinct
  have hdistinct₂ : c₂.ids.Nodup := (h₂.faithful (distinct_ids hwell₂)).distinct
  obtain ⟨σ, haligned⟩ := exists_aligned hkept hkept₂ horder hwell₀ (h₂.ids ▸ hdistinct₂)
  refine ⟨c, c₂, _, _, σ, hcompile, hcompile₂, haligned.old, fun limit ls shared b hshared => ?_⟩
  -- memory corresponds, with what compiling has put behind the descriptions
  have hheaps := heaps_kept hkept hkept₂ hclosed haligned
  have henvironments := environments_order hkept hglobals henv haligned.old
  have hglobalsFree : env.globals.Free (sealOf d' kept) := free_globals hkept hglobals
  have hparams := entries_paramsFor hheaps henvironments hglobalsFree hcommon hcommon₂ haligned.globals fun a ha =>
    sealOf_of_exposed (mem_exposed_globals ha)
  have hcompiled := (hheaps.alloc_dict Accord.Heaps.entries_nil).alloc_dict hparams
  have hunsealed : ∀ a, kept.cells.size ≤ a → sealOf d' kept a = none := fun a ha =>
    sealOf_of_not_mem fun hmem => absurd (hkept.holds.mark_lt a hmem) (Nat.not_lt.2 ha)
  have hworlds : (orderAccord d' kept σ w).Worlds { w with heap := _ } { w with heap := _ } :=
    ⟨hcompiled, rfl, rfl, fun _ => List.forall₂_same.2 fun r _ => .same r, fun _ => ⟨0, rfl, rfl⟩, Accord.journals_start⟩
  -- the context was there before
  have hdata : sealOf d' kept shared.data = none :=
    sealOf_of_not_mem fun hmem => absurd hshared (Nat.not_lt.2 (hkept.new _ hmem))
  have hcontexts := Accord.contexts_same (A := orderAccord d' kept σ w) hdata shared.store fun _ => rfl
  rw [show (orderAccord d' kept σ w).names.cell shared.data = shared.data from haligned.old _ hshared] at hcontexts
  have hname : shared.datum.renamed σ = shared.datum := by
    rw [Shared.renamed_datum, haligned.old _ hshared]
  have hfree : shared.datum.Free (unseen d' kept) :=
    Shared.free_datum ((orderAccord d' kept σ w).hidden_of_sealed _ hdata)
  obtain ⟨plan, plan₂, htandem⟩ := (matches_order h h₂ hkept hkept₂ horder haligned hwell hdistinct hdistinct₂).tandem
    henvironments h h₂ (start_order h h₂ hkept hkept₂ horder haligned hdistinct₂) limit ls
  have hbegun := hunsealed (((kept.alloc (.dict [])).2.alloc (.dict (paramsFor common kept d'))).2.cells.size)
    (by rw [Heap.size_alloc, Heap.size_alloc]; omega)
  obtain ⟨hends, hdone⟩ := htandem.run_from hworlds hcontexts (hunsealed (kept.cells.size + 1) (Nat.le_succ _))
    (hheaps.cells 1).symm (fun g g' hg => hg.obeys.view (Datum.free_ref.2 hbegun)) b
  exact runsAlike_of_worlds (Accord.eq_of_sameLabel hends) hdone hfree hname

/-- The pair with its nodes in the other order, next to an empty context. -/
theorem reordered_runs_alike_wildcardPair : ∃ c c₂ w₁ w₂ σ,
    (ofEnvironment .echo).compile wildcardPair .stocked = (.ok c, w₁) ∧
      (ofEnvironment .echo).compile
        (withLists wildcardPair (nodesOf wildcardPair).reverse (edgesOf wildcardPair)) .stocked = (.ok c₂, w₂) ∧
      ∀ limit ls b, RunsAlike σ ⟨0, none⟩ .stocked ((c.configured limit ls).runWithin b ⟨0, none⟩ w₁)
        ((c₂.configured limit ls).runWithin b ⟨0, none⟩ w₂) := by
  obtain ⟨-, c, c₂, w₁, w₂, σ, hcompile, hcompile₂, -, hruns⟩ := @reordered_runs_alike .echo wildcardPair
    (withLists wildcardPair (nodesOf wildcardPair).reverse (edgesOf wildcardPair)) .stocked isJson_wildcardPair
    (problems_wildcardPair .echo) World.closed_stocked (Or.inl rfl) (fun _ => Environment.indifferent_echo)
    (.mk (List.reverse_perm _) (.refl _))
  exact ⟨c, c₂, w₁, w₂, σ, hcompile, hcompile₂, fun limit ls b => hruns limit ls ⟨0, none⟩ b Nat.zero_lt_one⟩

end Compiler

end NodeFlow
