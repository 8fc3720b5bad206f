import NodeFlow.Run.Node
/-!
# Edges

What the edges of a node say about the node that follows it: the one under the label itself, else the one
under the wildcard. A label that counts as false, such as none or the empty one, stands for the default one.
What is no label at all, a container that is not empty, leads nowhere, not even to an end.
-/

set_option autoImplicit false

namespace NodeFlow

/-! ## 1. Labels -/

/-- Can a value be a label? All can but containers that are not empty. -/
def Value.CanLabel (shown : Value) : Prop := shown.truthy = true → shown.isHashable = true

/-- The text that a value is as a label. -/
inductive Value.IsLabel : Value → String → Prop
  | default {v : Value} : v.truthy = false → IsLabel v defaultLabel
  | own {label : String} : label ≠ "" → IsLabel (.str label) label

theorem Value.IsLabel.canLabel {shown : Value} {label : String} (h : shown.IsLabel label) :
    shown.CanLabel := by
  cases h with
  | default hfalse => exact fun htrue => absurd (hfalse.symm.trans htrue) Bool.false_ne_true
  | own _ => exact fun _ => rfl

/-- A value is one label at most. -/
theorem Value.IsLabel.unique {shown : Value} {l l' : String} (h : shown.IsLabel l) (h' : shown.IsLabel l') :
    l = l' := by
  cases h with
  | default hfalse =>
    cases h' with
    | default _ => rfl
    | own hne => simp [Value.truthy, hne] at hfalse
  | own hne =>
    cases h' with
    | default hfalse => simp [Value.truthy, hne] at hfalse
    | own _ => rfl

/-- The node that a node selects under a label: that of the edge with exactly the label, or that of the
wildcard if there is no such edge. -/
inductive Node.Selects (n : Node) (shown : Value) : Nat → Prop
  | exact {label : String} {j : Nat} : shown.IsLabel label → Members.get? n.wiring label = some j →
    Selects n shown j
  | wildcard {j : Nat} : shown.CanLabel →
    (∀ label, shown.IsLabel label → Members.get? n.wiring label = none) →
    Members.get? n.wiring wildcardLabel = some j → Selects n shown j

/-- A node under a label of which neither an edge with exactly the label nor a wildcard leads on. -/
def Node.Stops (n : Node) (shown : Value) : Prop := shown.CanLabel ∧ ∀ j, ¬ n.Selects shown j

namespace Node

variable {n : Node} {shown : Value} {j : Nat}

/-- What can be a label is looked up, and what cannot be one is not. -/
theorem next?_of_not_canLabel (h : ¬ shown.CanLabel) : n.next? shown = .error .type := by
  rw [Value.CanLabel, Classical.not_imp] at h
  rw [next?, Value.orElse, if_pos h.1]
  simp [h.2]

/-- What is looked up is the edge of the text that a value is as a label, if it is one, and the wildcard. -/
theorem next?_of_canLabel (h : shown.CanLabel) :
    (∃ label, shown.IsLabel label ∧
      n.next? shown = .ok (Members.get? n.wiring label <|> Members.get? n.wiring wildcardLabel)) ∨
    ((∀ label, ¬ shown.IsLabel label) ∧ n.next? shown = .ok (Members.get? n.wiring wildcardLabel)) := by
  cases htruthy : shown.truthy with
  | false =>
    refine Or.inl ⟨_, .default htruthy, ?_⟩
    rw [next?, Value.orElse, htruthy]
    rfl
  | true =>
    have hhashable := h htruthy
    have hnone : ¬ shown.truthy = false := by rw [htruthy]; exact nofun
    rw [next?, Value.orElse, if_pos htruthy]
    cases shown with
    | str label => exact Or.inl ⟨label, .own (by simpa [Value.truthy] using htruthy), rfl⟩
    | list _ _ | dict _ _ => cases hhashable
    | null | undefined | bool _ | int _ | float _ | store _ _ _ =>
      refine Or.inr ⟨fun label hlabel => ?_, rfl⟩
      cases hlabel with
      | default hfalse => exact hnone hfalse

/-- What can be a label is looked up, with one node or none. -/
theorem exists_next? (h : shown.CanLabel) : ∃ o, n.next? shown = .ok o := by
  rcases n.next?_of_canLabel h with ⟨label, -, hnext⟩ | ⟨-, hnext⟩
  · exact ⟨_, hnext⟩
  · exact ⟨_, hnext⟩

/-- Looking up what follows finds exactly the node that is selected. -/
theorem next?_eq_some_iff : n.next? shown = .ok (some j) ↔ n.Selects shown j := by
  by_cases hcan : shown.CanLabel
  · rcases n.next?_of_canLabel hcan with ⟨label, hlabel, hnext⟩ | ⟨hnone, hnext⟩
    · rw [hnext, Except.ok.injEq, Option.orElse_eq_orElse, Option.orElse_eq_or, Option.or_eq_some_iff]
      constructor
      · rintro (hexact | ⟨hmissing, hwildcard⟩)
        · exact .exact hlabel hexact
        · exact .wildcard hcan (fun l hl => hl.unique hlabel ▸ hmissing) hwildcard
      · rintro (⟨hl, hexact⟩ | ⟨-, hmissing, hwildcard⟩)
        · exact Or.inl (hl.unique hlabel ▸ hexact)
        · exact Or.inr ⟨hmissing label hlabel, hwildcard⟩
    · rw [hnext, Except.ok.injEq]
      constructor
      · exact fun hwildcard => .wildcard hcan (fun l hl => absurd hl (hnone l)) hwildcard
      · rintro (⟨hl, -⟩ | ⟨-, -, hwildcard⟩)
        · exact absurd hl (hnone _)
        · exact hwildcard
  · rw [next?_of_not_canLabel hcan]
    refine ⟨nofun, ?_⟩
    rintro (⟨hl, -⟩ | ⟨hcan', -, -⟩)
    · exact absurd hl.canLabel hcan
    · exact absurd hcan' hcan

/-- A label selects one node at most. -/
theorem Selects.unique {k : Nat} (h : n.Selects shown j) (h' : n.Selects shown k) : j = k := by
  have hnext := (next?_eq_some_iff.2 h).symm.trans (next?_eq_some_iff.2 h')
  exact Option.some.inj (Except.ok.inj hnext)

/-- And it finds nothing exactly where a walk stops. -/
theorem next?_eq_none_iff : n.next? shown = .ok none ↔ n.Stops shown := by
  simp only [Stops, ← next?_eq_some_iff]
  by_cases hcan : shown.CanLabel
  · obtain ⟨o, hnext⟩ := n.exists_next? hcan
    rw [hnext]
    cases o <;> simp [hcan]
  · simp [next?_of_not_canLabel hcan, hcan]

/-! ## 2. Following an edge -/

/-- The node that follows is one that the node leads to. -/
theorem get?_of_next? {node : Node} {shown : Value} {j : Nat} (h : node.next? shown = .ok (some j)) :
    ∃ l, Members.get? node.wiring l = some j := by
  cases next?_eq_some_iff.1 h with
  | exact _ hexact => exact ⟨_, hexact⟩
  | wildcard _ _ hwildcard => exact ⟨wildcardLabel, hwildcard⟩

/-- A walk goes on only where an edge leads. -/
theorem next?_of_follow {node : Node} {w : World}
    (h : (node.follow shown w).1 = .ok (some j)) : node.next? shown = .ok (some j) := by
  change (Act.bind (Act.ofFault (node.next? shown)) _ w).1 = _ at h
  rw [Act.bind, Act.ofFault] at h
  cases hnext : node.next? shown with
  | error f =>
    rw [hnext] at h
    cases h
  | ok o =>
    rw [hnext] at h
    cases o with
    | some k => exact congrArg Except.ok (Except.ok.inj h)
    | none =>
      dsimp only [Except.mapError] at h
      split at h <;> cases h

end Node

end NodeFlow
