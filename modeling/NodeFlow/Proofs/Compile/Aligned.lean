import NodeFlow.Proofs.Compile.Indifferent
import NodeFlow.Proofs.Compile.Tandem
import NodeFlow.Proofs.Description.Acceptance
import NodeFlow.Proofs.Memory.Counts
import NodeFlow.Proofs.Memory.Twins
import Mathlib.Algebra.BigOperators.Group.List.Basic
import Mathlib.Data.List.Perm.Basic
/-!
# Descriptions in another order

The nodes and the edges of a description are lists, but nothing depends on their order: every demand on a
description is one on all nodes, on all edges, or on all pairs of them.

Two descriptions that differ in the order of their nodes and edges are kept in as many cells. Their declarations and
their parameters lie elsewhere in these cells, but hold the same, so there is a renaming under which each declaration
is that of the same node in the other description.

The lists themselves, and what stands in their edges, need not correspond: nobody looks at them in a run.
-/

set_option autoImplicit false

namespace NodeFlow

namespace Description

/-! ## 1. Demands do not depend on the order -/

/-- A description with other nodes and edges, in the place of its own. -/
def withLists (d : Value) (nodes edges : List Value) : Value :=
  .ofMembers (Members.put "nodes" (.ofList nodes) (Members.put "edges" (.ofList edges) d.members))

/-- Two descriptions that differ in the order of their nodes and edges only. -/
inductive Reorders (d : Value) : Value → Prop
  | mk {nodes edges : List Value} : nodes.Perm (nodesOf d) → edges.Perm (edgesOf d) → Reorders d (withLists d nodes edges)

variable {kinds routers : List String} {d d' : Value} {ns es : List Value}

theorem field_withLists {key : String} (hnodes : key ≠ "nodes") (hedges : key ≠ "edges") :
    (withLists d ns es).field key = d.field key := by
  rw [withLists, Value.field, Value.ofMembers, Value.members, Members.get?_put, if_neg hnodes, Members.get?_put,
    if_neg hedges, Value.field]

theorem nodes_withLists : (withLists d ns es).field "nodes" = .ofList ns := by
  rw [withLists, Value.field, Value.ofMembers, Value.members, Members.get?_put, if_pos rfl]
  rfl

theorem nodesOf_withLists : nodesOf (withLists d ns es) = ns := by
  rw [nodesOf, nodes_withLists]
  rfl

theorem edges_withLists : (withLists d ns es).field "edges" = .ofList es := by
  rw [withLists, Value.field, Value.ofMembers, Value.members, Members.get?_put, if_neg (by decide), Members.get?_put,
    if_pos rfl]
  rfl

theorem edgesOf_withLists : edgesOf (withLists d ns es) = es := by
  rw [edgesOf, edges_withLists]
  rfl

namespace Reorders

theorem nodes (h : Reorders d d') : (nodesOf d').Perm (nodesOf d) := by
  obtain ⟨hnodes, -⟩ := h
  rwa [nodesOf_withLists]

theorem edges (h : Reorders d d') : (edgesOf d').Perm (edgesOf d) := by
  obtain ⟨-, hedges⟩ := h
  rwa [edgesOf_withLists]

theorem field (h : Reorders d d') {key : String} (hnodes : key ≠ "nodes") (hedges : key ≠ "edges") :
    d'.field key = d.field key := by
  obtain ⟨-, -⟩ := h
  exact field_withLists hnodes hedges

theorem isJson (h : Reorders d d') (hjson : d.IsJson) : d'.IsJson := by
  obtain ⟨hnodes, hedges⟩ := h
  have hparts : ∀ m ∈ d.members, m.2.IsJson := by
    cases hjson with
    | dict hms => exact hms
    | _ => exact fun m hm => absurd hm List.not_mem_nil
  have hitems : ∀ key, ∀ x ∈ (d.field key).items, x.IsJson := by
    intro key x hx
    have hfield : (d.field key).IsJson := by
      rw [Value.field]
      cases hget : Members.get? d.members key with
      | none => exact .null
      | some v => exact hparts _ (Members.mem_of_get? hget)
    generalize d.field key = v at hx hfield
    cases hfield with
    | list hxs => exact hxs x hx
    | _ => exact absurd hx List.not_mem_nil
  refine Value.isJson_ofMembers.2
    (Members.forall_put (p := Value.IsJson) (Members.forall_put (p := Value.IsJson) hparts _ ?_) _ ?_)
  · exact Value.isJson_ofList.2 fun x hx => hitems "edges" x (hedges.subset hx)
  · exact Value.isJson_ofList.2 fun x hx => hitems "nodes" x (hnodes.subset hx)

/-- **What is well-formed stays so in any order.** -/
theorem wellFormed (h : Reorders d d') (hd : WellFormed kinds routers d) : WellFormed kinds routers d' := by
  have hnodes := h.nodes
  have hedges := h.edges
  have hdeclares : ∀ id node, Declares d' id node ↔ Declares d id node := by
    intro id node
    rw [Declares, Declares, hnodes.mem_iff]
  have hfields := @h.field
  refine ⟨?_, fun f hf => ?_, ?_, ?_, ?_, ?_, ?_, ?_, ?_, ?_⟩
  · obtain ⟨-, -⟩ := h
    exact ⟨_, _, rfl⟩
  · -- lists count as present even if they are empty
    have hlist : ∀ xs : List Value, (Value.ofList xs).truthy = true ∨ ∃ cell, Value.ofList xs = .list cell [] := by
      intro xs
      cases xs with
      | nil => exact Or.inr ⟨none, rfl⟩
      | cons x xs => exact Or.inl rfl
    by_cases hns : f = "nodes"
    · obtain ⟨-, -⟩ := h
      rw [hns, nodes_withLists]
      exact hlist _
    · by_cases hes : f = "edges"
      · obtain ⟨-, -⟩ := h
        rw [hes, edges_withLists]
        exact hlist _
      · rw [hfields hns hes]
        exact hd.present f hf
  · rw [hfields (by decide) (by decide)]
    exact hd.version
  · obtain ⟨hperm, -⟩ := h
    rw [nodes_withLists]
    exact ⟨none, _, rfl, fun x hx => hd.isNode x (hperm.subset hx)⟩
  · exact fun hnil => hd.someNode (List.perm_nil.1 (hnil ▸ hnodes.symm))
  · exact hnodes.pairwise_iff (fun h => Ne.symm h) |>.2 hd.distinct
  · rw [hfields (by decide) (by decide)]
    exact hd.globals
  · rw [hfields (by decide) (by decide)]
    obtain ⟨e, node, he, hentry⟩ := hd.entry
    exact ⟨e, node, he, (hdeclares e node).2 hentry⟩
  · have hisEdge : ∀ e, IsEdge routers d e → IsEdge routers d' e := by
      rintro e ⟨source, label, target, node, hlead, hnode, hlabel, other, hother⟩
      exact ⟨source, label, target, node, hlead, (hdeclares _ _).2 hnode, hlabel, other, (hdeclares _ _).2 hother⟩
    obtain ⟨-, hperm⟩ := h
    rw [edges_withLists]
    exact ⟨none, _, rfl, fun e he => hisEdge e (hd.isEdge e (hperm.subset he))⟩
  · refine hedges.pairwise_iff (fun {e f} h hcompete => h ?_) |>.2 hd.unambiguous
    obtain ⟨source, label, target, other, hf, he⟩ := hcompete
    exact ⟨source, label, other, target, he, hf⟩

/-- A member is put in the place of one with as many containers. -/
theorem sum_containers_put {ms : Members Value} {key : String} {u v : Value} (hget : Members.get? ms key = some u)
    (hsame : v.containers = u.containers) :
    ((Members.put key v ms).map fun m => m.2.containers).sum = (ms.map fun m => m.2.containers).sum := by
  induction ms with
  | nil => cases hget
  | cons m ms ih =>
    rw [Members.get?_cons] at hget
    rw [Members.put]
    by_cases hkey : m.1 = key
    · rw [if_pos hkey.symm, Option.some.injEq] at hget
      rw [if_pos hkey, List.map_cons, List.map_cons, List.sum_cons, List.sum_cons, hsame, hget]
    · rw [if_neg (Ne.symm hkey)] at hget
      rw [if_neg hkey, List.map_cons, List.map_cons, List.sum_cons, List.sum_cons, ih hget]

theorem get?_of_field_list {key : String} {cell : Option Addr} {xs : List Value} (h : d.field key = .list cell xs) :
    Members.get? d.members key = some (.list cell xs) := by
  rw [Value.field] at h
  cases hget : Members.get? d.members key with
  | none =>
    rw [hget] at h
    cases h
  | some v =>
    rw [hget] at h
    exact congrArg some h

theorem containers_of_perm {cell : Option Addr} {xs ys : List Value} (h : ys.Perm xs) :
    (Value.ofList ys).containers = (Value.list cell xs).containers := by
  rw [Value.ofList, Value.containers_list, Value.containers_list, List.Perm.sum_eq (h.map _)]

/-- There are as many containers in any order. -/
theorem containers (h : Reorders d d') (hd : WellFormed kinds routers d) : d'.containers = d.containers := by
  obtain ⟨hnodes, hedges⟩ := h
  obtain ⟨cell, ms, rfl⟩ := hd.isObject
  obtain ⟨ncell, xs, hxs, -⟩ := hd.nodes
  obtain ⟨ecell, ys, hys, -⟩ := hd.edges
  rw [nodesOf, hxs] at hnodes
  rw [edgesOf, hys] at hedges
  rw [withLists, Value.ofMembers, Value.containers_dict, Value.containers_dict]
  refine congrArg (· + 1) (Eq.trans (sum_containers_put (u := .list ncell xs) ?_ (containers_of_perm hnodes))
    (sum_containers_put (get?_of_field_list hys) (containers_of_perm hedges)))
  -- the edges have been put under another key
  rw [Members.get?_put, if_neg (by decide)]
  exact get?_of_field_list hxs

end Reorders

end Description

open Description

/-- Lists with the same images in another order: the one can be put in the order of the other. -/
theorem exists_perm_of_map {α β : Type} {f : α → β} {xs ys : List α} (h : (xs.map f).Perm (ys.map f)) :
    ∃ zs : List α, zs.Perm ys ∧ zs.map f = xs.map f := by
  have hys : List.Forall₂ (fun b a => b = f a) (ys.map f) ys :=
    List.forall₂_map_left_iff.2 (List.forall₂_same.2 fun _ _ => rfl)
  obtain ⟨zs, hzs, hperm⟩ := List.perm_comp_forall₂ h hys
  refine ⟨zs, hperm, ?_⟩
  rw [← List.forall₂_eq_eq_eq, List.forall₂_map_left_iff]
  exact hzs.flip.imp fun _ _ h => h.symm

namespace Compiler

/-! ## 2. What runs look at -/

/-- The cells of a description that a run looks at. -/
def shown (d : Value) : List Addr := (d.field "globals").marks ++ (nodesOf d).flatMap Value.marks

variable {h₀ kept kept₂ : Heap} {d d₂ d' d₂' m : Value} {σ : Renaming} {place : Nat → Nat}

theorem shown_subset (d : Value) : ∀ a ∈ shown d, a ∈ d.marks := by
  intro a ha
  rcases List.mem_append.1 ha with ha | ha
  · exact Value.marks_field_subset d "globals" a ha
  · obtain ⟨m, hm, ham⟩ := List.mem_flatMap.1 ha
    exact Value.marks_field_subset d "nodes" a (mem_marks_of_node hm ham)

theorem exposed_subset (d : Value) : ∀ a ∈ exposed d, a ∈ shown d := by
  intro a ha
  rcases List.mem_append.1 ha with ha | ha
  · exact List.mem_append_left _ ha
  · obtain ⟨m, hm, ham⟩ := List.mem_flatMap.1 ha
    refine List.mem_append_right _ (List.mem_flatMap.2 ⟨m, hm, ?_⟩)
    split at ham
    · exact absurd ham List.not_mem_nil
    · exact Value.marks_field_subset m "exec" a ham

theorem nodup_shown {d : Value} (h : d.marks.Nodup) : (shown d).Nodup := by
  refine List.nodup_append.2 ⟨Value.nodup_field h "globals", Value.nodup_items (Value.nodup_field h "nodes"), ?_⟩
  rintro a hglobals b hnodes rfl
  obtain ⟨m, hm, ham⟩ := List.mem_flatMap.1 hnodes
  exact Value.not_mem_marks_of_field_ne h (by decide) hglobals (mem_marks_of_node hm ham)

theorem length_shown (hkept : Heap.Kept h₀ d d' kept) : (shown d').length =
    (d.field "globals").containers + ((nodesOf d).map Value.containers).sum := by
  have hnodes := Heap.length_flatMap_marks fun m hm => ((hkept.holds.field "nodes").item hm).length_marks
  rw [shown, List.length_append, (hkept.holds.field "globals").length_marks, ← Value.field_fresh, hkept.fresh, nodesOf,
    hnodes, ← Value.items_fresh, ← Value.field_fresh, hkept.fresh, nodesOf]

/-! ## 3. Where nodes are -/

/-- The place of a node of one description in another one. -/
def placeIn (d d₂ : Value) (i : Nat) : Nat := ((nodesOf d₂).map idOf).idxOf (((nodesOf d).map idOf).getD i "")

theorem getElem?_placeIn (hdistinct : ((nodesOf d₂).map idOf).Nodup) {i : Nat} {m₂ : Value}
    (hm : (nodesOf d)[i]? = some m) (hm₂ : m₂ ∈ nodesOf d₂) (hid : idOf m₂ = idOf m) :
    (nodesOf d₂)[placeIn d d₂ i]? = some m₂ := by
  obtain ⟨j, hj, rfl⟩ := List.getElem_of_mem hm₂
  have hplace : placeIn d d₂ i = j := by
    have hj' : j < ((nodesOf d₂).map idOf).length := by rwa [List.length_map]
    have hname : ((nodesOf d).map idOf).getD i "" = ((nodesOf d₂).map idOf)[j] := by
      rw [List.getD_eq_getElem?_getD, List.getElem?_map, hm, Option.map_some, Option.getD_some, List.getElem_map, hid]
    rw [placeIn, hname]
    exact hdistinct.idxOf_getElem j hj'
  rw [hplace, List.getElem?_eq_getElem hj]

theorem idOf_renamed (m : Value) : idOf (m.renamed σ) = idOf m := by
  rw [idOf, idOf, Value.field_renamed, Value.name?_renamed]

theorem guardOf_renamed (m : Value) : Declared.guardOf (m.renamed σ) = Declared.guardOf m := by
  rw [Declared.guardOf, Declared.guardOf, Value.field_renamed, Value.field_renamed, Value.field_renamed,
    Value.name?_renamed]
  cases (m.field "loop_guard").field "max_iterations" with
  | list | dict | store => simp
  | _ => rfl

theorem kind_renamed (hnode : IsNode Kind.names Kind.routerNames m) : (m.renamed σ).field "kind" = m.field "kind" := by
  obtain ⟨name, -, hname⟩ := hnode.kind
  rw [Value.field_renamed, hname, Value.renamed_str]

/-- The settings of retries are no containers, so they are the same under other names. -/
theorem policyOf_renamed (hlabel : σ.label = id) (hnode : IsNode Kind.names Kind.routerNames m) :
    policyOf (m.renamed σ) = policyOf m := by
  have hsame : ∀ {v : Value}, v.marks = [] → v.renamed σ = v := fun hv =>
    Value.renamed_of_fixed hlabel fun a ha => absurd (hv ▸ ha) List.not_mem_nil
  have hmax : (fieldOr (m.field "retry") "max" (.int 1)).marks = [] := by
    refine fieldOr_of (C := fun x => x.marks = []) hnode.retry rfl fun hretry x hx => ?_
    obtain ⟨n, rfl, -⟩ := hretry.max x hx
    rfl
  have hwait : (fieldOr (m.field "retry") "wait" (.int 0)).marks = [] := by
    refine fieldOr_of (C := fun x => x.marks = []) hnode.retry rfl fun hretry x hx => ?_
    obtain ⟨hnumber, -⟩ := hretry.wait x hx
    cases x <;> first | rfl | cases hnumber
  have hbackoff : (fieldOr (m.field "retry") "backoff" (.str Backoff.fixed.name)).marks = [] := by
    refine fieldOr_of (C := fun x => x.marks = []) hnode.retry rfl fun hretry x hx => ?_
    rcases hretry.backoff x hx with rfl | rfl <;> rfl
  have hfield : ∀ key other, (fieldOr (m.field "retry") key other).marks = [] → other.renamed σ = other →
      fieldOr ((m.renamed σ).field "retry") key other = fieldOr (m.field "retry") key other := by
    intro key other hmarks hother
    rw [Value.field_renamed]
    refine Eq.trans ?_ ((Value.fieldOr_renamed _ other key).trans (hsame hmarks))
    rw [hother]
  rw [policyOf, policyOf, hfield "max" _ hmax rfl, hfield "wait" _ hwait rfl, hfield "backoff" _ hbackoff rfl]

/-! ## 4. Alignment -/

/-- Two descriptions in memory whose parameters and declarations are the same under a renaming, each declaration in
the place of its node. -/
structure Aligned (h₀ kept kept₂ : Heap) (d' d₂' : Value) (σ : Renaming) : Prop where
  label : σ.label = id
  old : ∀ a < h₀.cells.size, σ.cell a = a
  size : kept₂.cells.size = kept.cells.size
  later : ∀ a, kept.cells.size ≤ a → σ.cell a = a
  globals : d₂'.field "globals" = (d'.field "globals").renamed σ
  node : ∀ (i : Nat) m, (nodesOf d')[i]? = some m → (nodesOf d₂')[placeIn d' d₂' i]? = some (m.renamed σ)
  onto : ∀ j < (nodesOf d₂').length, ∃ i < (nodesOf d').length, placeIn d' d₂' i = j

/-- Cells that were there before, and behind them some of those of a description: none of them twice. -/
theorem nodup_older_append (hkept : Heap.Kept h₀ d d' kept) {cells : List Addr} (hin : ∀ a ∈ cells, a ∈ d'.marks)
    (hnodup : cells.Nodup) : (List.range h₀.cells.size ++ cells).Nodup := by
  refine List.nodup_append.2 ⟨List.nodup_range, hnodup, ?_⟩
  rintro a ha b hb rfl
  exact absurd (List.mem_range.1 ha) (Nat.not_lt.2 (hkept.new a (hin a hb)))

theorem lt_of_mem_older_append (hkept : Heap.Kept h₀ d d' kept) {cells : List Addr} (hin : ∀ a ∈ cells, a ∈ d'.marks) :
    ∀ a ∈ List.range h₀.cells.size ++ cells, a < kept.cells.size := by
  rw [List.forall_mem_append]
  refine ⟨fun a ha => Nat.lt_of_lt_of_le (List.mem_range.1 ha) hkept.extends_.size, fun a ha => ?_⟩
  exact hkept.holds.mark_lt a (hin a ha)

/-- The nodes of the second description, in the order of those of the first. -/
theorem exists_matched (hkept : Heap.Kept h₀ d d' kept) (hkept₂ : Heap.Kept h₀ d₂ d₂' kept₂) (horder : Reorders d d₂) :
    ∃ matched : List Value, matched.Perm (nodesOf d₂') ∧
      matched.map Value.fresh = (nodesOf d').map Value.fresh := by
  have hnodes : ∀ {x x' : Value} {k : Heap}, Heap.Kept h₀ x x' k → (nodesOf x').map Value.fresh = nodesOf x := by
    intro x x' k hk
    rw [← nodesOf_fresh, hk.fresh]
  refine exists_perm_of_map ?_
  rw [hnodes hkept, hnodes hkept₂]
  exact horder.nodes.symm

/-- The renaming: older cells keep their names, those that are shown get the names of the others. -/
theorem exists_renaming (hkept : Heap.Kept h₀ d d' kept) (hkept₂ : Heap.Kept h₀ d₂ d₂' kept₂) (horder : Reorders d d₂)
    (hsize : kept₂.cells.size = kept.cells.size) {matched : List Value} (hperm : matched.Perm (nodesOf d₂'))
    (hmatched : matched.map Value.fresh = (nodesOf d').map Value.fresh) :
    ∃ σ : Renaming, σ.label = id ∧ (∀ a < h₀.cells.size, σ.cell a = a) ∧ (∀ a, kept.cells.size ≤ a → σ.cell a = a) ∧
      d₂'.field "globals" = (d'.field "globals").renamed σ ∧ matched = (nodesOf d').map (Value.renamed σ) := by
  have hcells : ((d₂'.field "globals").marks ++ matched.flatMap Value.marks).Perm (shown d₂') :=
    (hperm.flatMap_right _).append_left _
  have hin : ∀ a ∈ (d₂'.field "globals").marks ++ matched.flatMap Value.marks, a ∈ d₂'.marks := fun a ha =>
    shown_subset d₂' a (hcells.subset ha)
  have hlength : (shown d').length = ((d₂'.field "globals").marks ++ matched.flatMap Value.marks).length := by
    rw [hcells.length_eq]
    refine (length_shown hkept).trans (Eq.trans ?_ (length_shown hkept₂).symm)
    rw [horder.field (by decide) (by decide), List.Perm.sum_eq (horder.nodes.map _)]
  obtain ⟨σ, hmap, hlater, hlabel⟩ := Renaming.exists_of_lists
    (nodup_older_append hkept (shown_subset d') (nodup_shown hkept.nodup))
    (nodup_older_append hkept₂ hin (hcells.nodup_iff.2 (nodup_shown hkept₂.nodup)))
    (by simp only [List.length_append, hlength]) (lt_of_mem_older_append hkept (shown_subset d'))
    fun a ha => hsize ▸ lt_of_mem_older_append hkept₂ hin a ha
  rw [List.map_append] at hmap
  obtain ⟨hold, hshown⟩ := List.append_inj hmap (by rw [List.length_map])
  rw [shown, List.map_append] at hshown
  have hfresh : (d'.field "globals").fresh = (d₂'.field "globals").fresh := by
    rw [← Value.field_fresh, ← Value.field_fresh, hkept.fresh, hkept₂.fresh, horder.field (by decide) (by decide)]
  have hglobalsLength : ((d'.field "globals").marks.map σ.cell).length = (d₂'.field "globals").marks.length := by
    rw [List.length_map, (hkept.holds.field _).length_marks, (hkept₂.holds.field _).length_marks, hfresh]
  obtain ⟨hglobals, hrest⟩ := List.append_inj hshown hglobalsLength
  have hheld : ∀ m ∈ nodesOf d', kept.Holds m := fun m hm => (hkept.holds.field "nodes").item hm
  have hheld₂ : ∀ m ∈ matched, kept₂.Holds m := fun m hm => (hkept₂.holds.field "nodes").item (hperm.subset hm)
  refine ⟨σ, hlabel, fun a ha => ?_, hlater, ?_, ?_⟩
  · have hid : (List.range h₀.cells.size).map σ.cell = (List.range h₀.cells.size).map id := by rw [hold, List.map_id]
    exact List.map_inj_left.1 hid a (List.mem_range.2 ha)
  · exact (hkept.holds.field "globals").eq_renamed (hkept₂.holds.field "globals") hlabel hfresh hglobals
  · exact Heap.renamed_all hheld hheld₂ hmatched.symm hrest fun u hu v hv hf hmarks =>
      (hheld u hu).eq_renamed (hheld₂ v hv) hlabel hf hmarks

/-- Every node of the second description is in the place of one of the first. -/
theorem exists_placeIn (hdistinct₂ : ((nodesOf d₂').map idOf).Nodup)
    (hperm : ((nodesOf d').map (Value.renamed σ)).Perm (nodesOf d₂')) {j : Nat} (hj : j < (nodesOf d₂').length) :
    ∃ i < (nodesOf d').length, placeIn d' d₂' i = j := by
  obtain ⟨m, hm, heq⟩ := List.mem_map.1 (hperm.symm.subset (List.getElem_mem hj))
  obtain ⟨i, hi, rfl⟩ := List.getElem_of_mem hm
  have hplace := getElem?_placeIn hdistinct₂ (List.getElem?_eq_getElem hi) (hperm.subset (List.mem_map_of_mem hm))
    (idOf_renamed _)
  obtain ⟨hlt, hget⟩ := List.getElem?_eq_some_iff.1 hplace
  have hnodup : (nodesOf d₂').Nodup := List.Nodup.of_map idOf hdistinct₂
  exact ⟨i, hi, hnodup.getElem_inj_iff.1 (hget.trans heq)⟩

theorem exists_aligned (hkept : Heap.Kept h₀ d d' kept) (hkept₂ : Heap.Kept h₀ d₂ d₂' kept₂) (horder : Reorders d d₂)
    (hwell : WellFormed Kind.names Kind.routerNames d) (hdistinct₂ : ((nodesOf d₂').map idOf).Nodup) :
    ∃ σ, Aligned h₀ kept kept₂ d' d₂' σ := by
  have hsize : kept₂.cells.size = kept.cells.size := by rw [hkept.size, hkept₂.size, horder.containers hwell]
  obtain ⟨matched, hperm, hmatched⟩ := exists_matched hkept hkept₂ horder
  obtain ⟨σ, hlabel, hold, hlater, hglobals, rfl⟩ := exists_renaming hkept hkept₂ horder hsize hperm hmatched
  exact ⟨σ, {
    label := hlabel
    old := hold
    size := hsize
    later := hlater
    globals := hglobals
    node := fun i m hm => getElem?_placeIn hdistinct₂ hm
      (hperm.subset (List.mem_map_of_mem (List.mem_of_getElem? hm))) (idOf_renamed m)
    onto := fun j hj => exists_placeIn hdistinct₂ hperm hj }⟩

end Compiler

end NodeFlow
