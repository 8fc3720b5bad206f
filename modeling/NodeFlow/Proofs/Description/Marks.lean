import NodeFlow.Proofs.Description.Acceptance
import NodeFlow.Proofs.Memory.Kept
import NodeFlow.Proofs.Value.Members
/-!
# Descriptions and marks

A compiler checks the description that memory holds, whose containers carry marks, and not the one that
it was given. Marks make no difference to any of the demands on a description.
-/

set_option autoImplicit false

namespace NodeFlow

/-! ## 1. Reading values without marks -/

namespace Value

@[simp] theorem truthy_fresh (v : Value) : v.fresh.truthy = v.truthy := by
  cases v with
  | list cell xs => cases xs <;> simp [truthy]
  | dict cell ms => cases ms <;> simp [truthy]
  | _ => rfl

@[simp] theorem isDict_fresh (v : Value) : v.fresh.isDict = v.isDict := by
  cases v <;> simp [isDict, fresh]

theorem items_fresh (v : Value) : v.fresh.items = v.items.map fresh := by
  cases v <;> simp [items, fresh, freshItems_eq]

theorem members_fresh (v : Value) :
    v.fresh.members = v.members.map fun m => (m.1, m.2.fresh) := by
  cases v <;> simp [members, fresh, freshMembers_eq]

theorem get?_members_fresh (v : Value) (key : String) :
    Members.get? v.fresh.members key = (Members.get? v.members key).map fresh := by
  rw [members_fresh, Members.get?_map]

@[simp] theorem field_fresh (v : Value) (key : String) :
    v.fresh.field key = (v.field key).fresh := by
  rw [field, field, get?_members_fresh]
  cases Members.get? v.members key <;> rfl

/-- What is no container has no marks to lose. -/
theorem fresh_eq_iff {v w : Value} (hw : w.isPlain = true) : v.fresh = w ↔ v = w := by
  cases v with
  | list cell xs => cases w <;> simp_all [isPlain]
  | dict cell ms => cases w <;> simp_all [isPlain]
  | _ => exact Iff.rfl

@[simp] theorem fresh_eq_null (v : Value) : v.fresh = .null ↔ v = .null := fresh_eq_iff rfl

@[simp] theorem fresh_eq_str (v : Value) (s : String) : v.fresh = .str s ↔ v = .str s :=
  fresh_eq_iff rfl

@[simp] theorem fresh_eq_int (v : Value) (n : Int) : v.fresh = .int n ↔ v = .int n :=
  fresh_eq_iff rfl

theorem fresh_of_isNumber {v : Value} (h : v.isNumber = true) : v.fresh = v := by
  cases v <;> first | rfl | cases h

theorem name?_fresh (v : Value) : v.fresh.name? = v.name? := by
  cases v <;> simp [name?, fresh]

@[simp] theorem isNumber_fresh (v : Value) : v.fresh.isNumber = v.isNumber := by
  cases v <;> simp [isNumber, fresh]

@[simp] theorem orElse_fresh (v : Value) (s t : String) :
    v.fresh.orElse (.str s) = .str t ↔ v.orElse (.str s) = .str t := by
  rw [orElse, orElse, truthy_fresh]
  split
  · exact fresh_eq_str v t
  · rfl

end Value

namespace Description

/-! ## 2. Shapes -/

@[simp] theorem isObject_fresh (v : Value) : IsObject v.fresh ↔ IsObject v := by
  rw [← isDict_iff, ← isDict_iff, Value.isDict_fresh]

@[simp] theorem isName_fresh (v : Value) : IsName v.fresh ↔ IsName v := by
  simp [IsName]

@[simp] theorem optionally_fresh {shape : Value → Prop} {v : Value}
    (h : shape v.fresh ↔ shape v) : Optionally shape v.fresh ↔ Optionally shape v := by
  rw [Optionally, Optionally, Value.fresh_eq_null, h]

/-- A list without marks is as the list is, if its elements are. -/
theorem isListOf_fresh {shape shape' : Value → Prop} {v : Value}
    (h : ∀ x ∈ v.items, shape x.fresh ↔ shape' x) : IsListOf shape v.fresh ↔ IsListOf shape' v := by
  cases v with
  | list cell xs =>
    rw [Value.fresh_list]
    constructor
    · rintro ⟨c, ys, heq, hys⟩
      obtain ⟨-, rfl⟩ := (Value.list.injEq ..).mp heq
      exact ⟨cell, xs, rfl, fun x hx => (h x hx).1 (hys _ (List.mem_map_of_mem hx))⟩
    · rintro ⟨c, ys, heq, hys⟩
      obtain ⟨-, rfl⟩ := (Value.list.injEq ..).mp heq
      exact ⟨none, _, rfl, List.forall_mem_map.2 fun x hx => (h x hx).2 (hys x hx)⟩
  | _ => simp [IsListOf, Value.fresh]

@[simp] theorem isNamedBy_fresh (key : String) (v : Value) :
    IsNamedBy key v.fresh ↔ IsNamedBy key v := by
  rw [IsNamedBy, IsNamedBy, isObject_fresh, Value.field_fresh, isName_fresh]

@[simp] theorem isListOf_isNamedBy_fresh (key : String) (v : Value) :
    IsListOf (IsNamedBy key) v.fresh ↔ IsListOf (IsNamedBy key) v := by
  apply isListOf_fresh
  intro x _
  exact isNamedBy_fresh key x

@[simp] theorem isRetry_fresh (v : Value) : IsRetry v.fresh ↔ IsRetry v := by
  -- the settings are demands on what stands under a key, so marks are lost from within
  have hget : ∀ (key : String) (p q : Value → Prop), (∀ x : Value, p x.fresh ↔ q x) →
      ((∀ x, Members.get? v.fresh.members key = some x → p x) ↔
        ∀ x, Members.get? v.members key = some x → q x) := by
    intro key p q hpq
    rw [Value.get?_members_fresh]
    cases Members.get? v.members key <;> simp [hpq]
  have hwait : ∀ x : Value, (x.fresh.isNumber = true ∧
      Value.ordered .lt x.fresh (.int 0) = .ok false) ↔
      (x.isNumber = true ∧ Value.ordered .lt x (.int 0) = .ok false) := by
    intro x
    rw [Value.isNumber_fresh]
    refine and_congr_right ?_
    intro hx
    rw [Value.fresh_of_isNumber hx]
  constructor
  · rintro ⟨hobj, hmax, hw, hback⟩
    exact ⟨(isObject_fresh v).1 hobj, (hget _ _ _ fun x => by simp).1 hmax,
      (hget _ _ _ hwait).1 hw, (hget _ _ _ fun x => by simp).1 hback⟩
  · rintro ⟨hobj, hmax, hw, hback⟩
    exact ⟨(isObject_fresh v).2 hobj, (hget _ _ _ fun x => by simp).2 hmax,
      (hget _ _ _ hwait).2 hw, (hget _ _ _ fun x => by simp).2 hback⟩

@[simp] theorem isGuard_fresh (v : Value) : IsGuard v.fresh ↔ IsGuard v := by
  simp [isGuard_iff]

@[simp] theorem isPrep_fresh (v : Value) : IsPrep v.fresh ↔ IsPrep v := by
  simp [isPrep_iff]

@[simp] theorem isOutputs_fresh (v : Value) : IsOutputs v.fresh ↔ IsOutputs v := by
  simp [isOutputs_iff]

@[simp] theorem isPost_fresh (v : Value) : IsPost v.fresh ↔ IsPost v := by
  simp [isPost_iff]

/-! ## 3. Nodes -/

@[simp] theorem kindIn_fresh (names : List String) (v : Value) :
    KindIn names v.fresh ↔ KindIn names v := by
  simp [KindIn]

theorem isNode_fresh (kinds routers : List String) (v : Value) :
    IsNode kinds routers v.fresh ↔ IsNode kinds routers v := by
  simp [isNode_iff]

/-- A declaration gives the same labels with marks and without. -/
theorem produces_fresh (routers : List String) (node : Value) (l : String) :
    Produces routers node.fresh l ↔ Produces routers node l := by
  constructor
  · rintro (_ | ⟨hnext, hne⟩ | ⟨hr, hc, hlabel, hne⟩ | ⟨hobj, hexit, hne⟩)
    · exact .default
    · exact .next (by simpa using hnext) hne
    · rw [Value.field_fresh, Value.field_fresh, Value.items_fresh] at hc
      obtain ⟨c, hmem, rfl⟩ := List.mem_map.1 hc
      exact .case (by simpa using hr) hmem (by simpa using hlabel) hne
    · exact .exit (by simpa using hobj) (by simpa using hexit) hne
  · rintro (_ | ⟨hnext, hne⟩ | ⟨hr, hc, hlabel, hne⟩ | ⟨hobj, hexit, hne⟩)
    · exact .default
    · exact .next (by simpa using hnext) hne
    · refine .case (by simpa using hr) ?_ ((Value.field_fresh _ _).trans (by rw [hlabel]; rfl)) hne
      rw [Value.field_fresh, Value.field_fresh, Value.items_fresh]
      exact List.mem_map_of_mem hc
    · exact .exit (by simpa using hobj) (by simpa using hexit) hne

/-! ## 4. Edges and the whole -/

theorem leads_fresh (e : Value) (s l t : String) : Leads e.fresh s l t ↔ Leads e s l t := by
  simp [leads_iff]

theorem compete_fresh (e f : Value) : Compete e.fresh f.fresh ↔ Compete e f := by
  simp only [Compete, leads_fresh]

theorem nodesOf_fresh (d : Value) : nodesOf d.fresh = (nodesOf d).map Value.fresh := by
  rw [nodesOf, nodesOf, Value.field_fresh, Value.items_fresh]

theorem edgesOf_fresh (d : Value) : edgesOf d.fresh = (edgesOf d).map Value.fresh := by
  rw [edgesOf, edgesOf, Value.field_fresh, Value.items_fresh]

theorem idOf_fresh (node : Value) : idOf node.fresh = idOf node := by
  rw [idOf, idOf, Value.field_fresh, Value.name?_fresh]

/-- What is declared is declared as it is with marks. -/
theorem declares_fresh (d : Value) (id : String) (node : Value) :
    Declares d.fresh id node ↔ ∃ n, Declares d id n ∧ n.fresh = node := by
  rw [Declares, nodesOf_fresh, List.mem_map]
  constructor
  · rintro ⟨⟨n, hn, rfl⟩, hid⟩
    exact ⟨n, ⟨hn, by simpa using hid⟩, rfl⟩
  · rintro ⟨n, ⟨hn, hid⟩, rfl⟩
    exact ⟨⟨n, hn, rfl⟩, by simpa using hid⟩

theorem isEdge_fresh (routers : List String) (d e : Value) :
    IsEdge routers d.fresh e.fresh ↔ IsEdge routers d e := by
  simp only [IsEdge, leads_fresh, declares_fresh]
  constructor
  · rintro ⟨s, l, t, _, hlead, ⟨n, hn, rfl⟩, hl, _, m, hm, rfl⟩
    exact ⟨s, l, t, n, hlead, hn, (produces_fresh routers n l).1 hl, m, hm⟩
  · rintro ⟨s, l, t, n, hlead, hn, hl, m, hm⟩
    exact ⟨s, l, t, n.fresh, hlead, ⟨n, hn, rfl⟩, (produces_fresh routers n l).2 hl, m.fresh, m, hm,
      rfl⟩

/-- A description is well-formed with marks if it is without. -/
theorem WellFormed.of_fresh {kinds routers : List String} {d : Value}
    (h : WellFormed kinds routers d.fresh) : WellFormed kinds routers d where
  isObject := by simpa using h.isObject
  present f hf := by
    rcases h.present f hf with htrue | ⟨cell, hempty⟩
    · exact Or.inl (by simpa using htrue)
    -- what is empty without its mark is empty with it
    · right
      rw [Value.field_fresh] at hempty
      cases hv : d.field f with
      | list c xs =>
        rw [hv, Value.fresh_list, Value.list.injEq, List.map_eq_nil_iff] at hempty
        exact ⟨c, by rw [hempty.2]⟩
      | _ => rw [hv] at hempty; simp [Value.fresh] at hempty
  version := by simpa using h.version
  nodes := by
    have hnodes := h.nodes
    rw [Value.field_fresh] at hnodes
    exact (isListOf_fresh fun x _ => isNode_fresh kinds routers x).1 hnodes
  someNode := by
    have hsome := h.someNode
    rw [nodesOf_fresh] at hsome
    intro hnil
    exact hsome (by rw [hnil, List.map_nil])
  distinct := by
    have hdistinct := h.distinct
    rw [nodesOf_fresh, List.pairwise_map] at hdistinct
    refine hdistinct.imp fun {n m} hne heq => hne ?_
    rw [Value.field_fresh, Value.field_fresh, heq]
  globals := by simpa using h.globals
  entry := by
    obtain ⟨e, node, he, hnode⟩ := h.entry
    obtain ⟨n, hn, -⟩ := (declares_fresh d e node).1 hnode
    exact ⟨e, n, by simpa using he, hn⟩
  edges := by
    have hedges := h.edges
    rw [Value.field_fresh] at hedges
    exact (isListOf_fresh fun x _ => isEdge_fresh routers d x).1 hedges
  unambiguous := by
    have hpair := h.unambiguous
    rw [edgesOf_fresh, List.pairwise_map] at hpair
    exact hpair.imp fun {e f} hne hc => hne ((compete_fresh e f).2 hc)

end Description

end NodeFlow
