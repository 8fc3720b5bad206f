import Mathlib.Data.List.Perm.Subperm
import Mathlib.Data.String.Basic
import NodeFlow.Expr.Eval
import NodeFlow.Proofs.Memory.Seal
import NodeFlow.Proofs.Value.Members
/-!
# Comparisons from both sides

It makes no difference from which side two values are compared: `==` is the same both ways, and `<` is `>` the other
way round, also where there is no order at all and the comparison fails.

The awkward thing up front: equality of objects goes through the members of one side only, and asks whether the other
side has each of them. That this is symmetric is a count, since both have as many members: different keys on one side
have to be all the keys of the other. So it needs that no object has a key twice.
-/

set_option autoImplicit false

namespace NodeFlow

/-! ## 1. Numbers and texts -/

namespace Binary64

theorem compareScaled_swap (m e n f : Int) : compareScaled n f m e = (compareScaled m e n f).swap := by
  rw [compareScaled, compareScaled, Int.min_comm f e]
  exact Std.OrientedCmp.eq_swap

theorem order?_swap (x y : Binary64) : y.order? x = (x.order? y).map Ordering.swap := by
  cases x with
  | nan l => cases y <;> rfl
  | infinite s =>
    cases y with
    | infinite t => cases s <;> cases t <;> rfl
    | nan l => rfl
    | finite t n f => cases s <;> rfl
  | finite s m e =>
    cases y with
    | nan l => rfl
    | infinite t => cases t <;> rfl
    | finite t n f => exact congrArg some (compareScaled_swap _ _ _ _)

end Binary64

theorem Number.order?_swap (x y : Number) : y.order? x = (x.order? y).map Ordering.swap := by
  cases x with
  | int m =>
    cases y with
    | int n => exact congrArg some Std.OrientedCmp.eq_swap
    | float y => simp [order?, Function.comp_def]
  | float x =>
    cases y with
    | int n => rfl
    | float y => exact x.order?_swap y

namespace Comparison

/-- The comparison from the other side. -/
def flipped : Comparison → Comparison
  | .lt => .gt
  | .le => .ge
  | .gt => .lt
  | .ge => .le

theorem holds_flipped (c : Comparison) (o : Ordering) : c.flipped.holds o.swap = c.holds o := by
  cases c <;> cases o <;> rfl

end Comparison

namespace Value

theorem compareText_swap (s t : String) : compareText t s = (compareText s t).swap := by
  rw [compareText, compareText]
  rcases lt_trichotomy s t with h | rfl | h
  · rw [if_neg (lt_asymm h), if_neg h.ne', if_pos h]
    rfl
  · rw [if_neg (lt_irrefl s), if_pos rfl]
    rfl
  · rw [if_pos h, if_neg (lt_asymm h), if_neg h.ne']
    rfl

/-! ## 2. Equality -/

/-- A value none of whose objects has a key twice. What a store holds is of no account, since a store equals itself
only. -/
inductive Keyed : Value → Prop
  | plain {v : Value} : v.isPlain = true → Keyed v
  | list {cell : Option Nat} {xs : List Value} : (∀ x ∈ xs, Keyed x) → Keyed (.list cell xs)
  | dict {cell : Option Nat} {ms : List (String × Value)} : (Members.keys ms).Nodup → (∀ m ∈ ms, Keyed m.2) →
      Keyed (.dict cell ms)
  | store (cell : Nat) (name : String) (ms : List (String × Value)) : Keyed (.store cell name ms)

theorem same_comm (a b : Value) : same b a = same a b := by
  cases a with
  | float x =>
    cases b with
    | float y =>
      rcases x with (_ | i) | _ | _ <;> rcases y with (_ | j) | _ | _ <;> try rfl
      exact decide_eq_decide.2 eq_comm
    | _ => rfl
  | _ => cases b <;> rfl

theorem equalAtoms_comm (a b : Value) : equalAtoms b a = equalAtoms a b := by
  unfold equalAtoms
  cases ha : a.magnitude? with
  | some x =>
    cases hb : b.magnitude? with
    | some y =>
      dsimp only
      rw [x.order?_swap y]
      rcases x.order? y with _ | o
      · rfl
      · cases o <;> rfl
    | none => rfl
  | none =>
    cases hb : b.magnitude? with
    | some y => rfl
    | none => cases a <;> cases b <;> simp [eq_comm]

/-- Equality of anything but lists and objects asks for no parts. -/
theorem equal_of_atom {a : Value} (hlist : a.isList = false) (hdict : a.isDict = false) (b : Value) :
    a.equal b = equalAtoms a b := by
  cases a with
  | list => cases hlist
  | dict => cases hdict
  | _ => simp [equal]

theorem equal_comm_of_atom {a : Value} (hlist : a.isList = false) (hdict : a.isDict = false) (b : Value) :
    b.equal a = a.equal b := by
  rw [equal_of_atom hlist hdict]
  cases b with
  | list cell xs =>
    cases a with
    | list => cases hlist
    | _ => rfl
  | dict cell ms =>
    cases a with
    | dict => cases hdict
    | _ => rfl
  | _ => rw [equal_of_atom rfl rfl, equalAtoms_comm]

theorem equalItems_comm {xs ys : List Value} (h : ∀ x ∈ xs, ∀ y ∈ ys, equalHeld y x = equalHeld x y) :
    equalItems ys xs = equalItems xs ys := by
  induction xs generalizing ys with
  | nil => cases ys <;> rfl
  | cons x xs ih =>
    cases ys with
    | nil => rfl
    | cons y ys =>
      have hhead := h x List.mem_cons_self y List.mem_cons_self
      have htail := ih fun x hx y hy => h x (List.mem_cons_of_mem _ hx) y (List.mem_cons_of_mem _ hy)
      rw [equalHeld, equalHeld] at hhead
      rw [equalItems, equalItems, hhead, htail]

/-- What is found in the other object, said of all members at once. -/
theorem equalMembers_iff {ms ns : List (String × Value)} :
    equalMembers ms ns = true ↔ ∀ m ∈ ms, ∃ y, Members.get? ns m.1 = some y ∧ equalHeld m.2 y = true := by
  induction ms with
  | nil => exact iff_of_true rfl fun m hm => absurd hm List.not_mem_nil
  | cons m ms ih =>
    rw [equalMembers, Bool.and_eq_true, ih, List.forall_mem_cons]
    refine and_congr_left fun _ => ?_
    cases Members.get? ns m.1 with
    | none => simp
    | some y => simp [equalHeld]

/-- If one of two objects with as many members has all members of the other, it has no more. -/
theorem equalMembers_symm {ms ns : List (String × Value)} (hms : (Members.keys ms).Nodup) (hns : (Members.keys ns).Nodup)
    (hlength : ms.length = ns.length) (hcomm : ∀ m ∈ ms, ∀ n ∈ ns, equalHeld n.2 m.2 = equalHeld m.2 n.2)
    (h : equalMembers ms ns = true) : equalMembers ns ms = true := by
  rw [equalMembers_iff] at h ⊢
  have hsubset : Members.keys ms ⊆ Members.keys ns := by
    intro key hkey
    obtain ⟨m, hm, rfl⟩ := List.mem_map.1 hkey
    obtain ⟨y, hy, -⟩ := h m hm
    exact List.mem_map.2 ⟨(m.1, y), Members.mem_of_get? hy, rfl⟩
  have hperm : (Members.keys ms).Perm (Members.keys ns) := by
    refine (List.subperm_of_subset hms hsubset).perm_of_length_le (Nat.le_of_eq ?_)
    rw [Members.keys, Members.keys, List.length_map, List.length_map, hlength]
  intro n hn
  obtain ⟨m, hm, hkey⟩ := List.mem_map.1 (hperm.symm.subset (List.mem_map_of_mem hn))
  obtain ⟨y, hy, hequal⟩ := h m hm
  rw [hkey, Members.get?_of_mem hns hn] at hy
  obtain rfl := Option.some.inj hy
  refine ⟨m.2, ?_, (hcomm m hm n hn).trans hequal⟩
  rw [← hkey]
  exact Members.get?_of_mem hms hm

theorem isAtom_of_isPlain {v : Value} (h : v.isPlain = true) : v.isList = false ∧ v.isDict = false := by
  cases v with
  | list | dict | store => cases h
  | _ => exact ⟨rfl, rfl⟩

theorem Keyed.items {cell : Option Nat} {xs : List Value} (h : (Value.list cell xs).Keyed) : ∀ x ∈ xs, x.Keyed := by
  cases h with
  | plain hp => cases hp
  | list hxs => exact hxs

theorem Keyed.members {cell : Option Nat} {ms : List (String × Value)} (h : (Value.dict cell ms).Keyed) :
    (Members.keys ms).Nodup ∧ ∀ m ∈ ms, m.2.Keyed := by
  cases h with
  | plain hp => cases hp
  | dict hkeys hms => exact ⟨hkeys, hms⟩

/-- Equality is symmetric. -/
theorem equal_comm {a b : Value} (ha : a.Keyed) (hb : b.Keyed) : b.equal a = a.equal b := by
  induction a using Value.induction generalizing b with
  | plain v hp =>
    obtain ⟨hlist, hdict⟩ := isAtom_of_isPlain hp
    exact equal_comm_of_atom hlist hdict b
  | list cell xs ih =>
    cases b with
    | list cell' ys =>
      have hheld : ∀ x ∈ xs, ∀ y ∈ ys, equalHeld y x = equalHeld x y := fun x hx y hy => by
        rw [equalHeld, equalHeld, same_comm, ih x hx (ha.items x hx) (hb.items y hy)]
      rw [equal, equal]
      exact equalItems_comm hheld
    | dict => rfl
    | _ => exact (equal_comm_of_atom rfl rfl _).symm
  | dict cell ms ih =>
    cases b with
    | dict cell' ns =>
      have hheld : ∀ m ∈ ms, ∀ n ∈ ns, equalHeld n.2 m.2 = equalHeld m.2 n.2 := fun m hm n hn => by
        rw [equalHeld, equalHeld, same_comm, ih m hm (ha.members.2 m hm) (hb.members.2 n hn)]
      rw [equal, equal, Bool.eq_iff_iff, Bool.and_eq_true, Bool.and_eq_true, decide_eq_true_iff, decide_eq_true_iff]
      -- one direction for both, since what is asked of the two objects is symmetric itself
      constructor
      · rintro ⟨hlength, hmembers⟩
        exact ⟨hlength.symm, equalMembers_symm hb.members.1 ha.members.1 hlength
          (fun n hn m hm => (hheld m hm n hn).symm) hmembers⟩
      · rintro ⟨hlength, hmembers⟩
        exact ⟨hlength.symm, equalMembers_symm ha.members.1 hb.members.1 hlength hheld hmembers⟩
    | list => rfl
    | _ => exact (equal_comm_of_atom rfl rfl _).symm
  | store cell name ms ih => exact equal_comm_of_atom rfl rfl b

theorem equalHeld_comm {a b : Value} (ha : a.Keyed) (hb : b.Keyed) : equalHeld b a = equalHeld a b := by
  rw [equalHeld, equalHeld, same_comm, equal_comm ha hb]

/-! ## 3. Order -/

theorem orderAtoms_flipped (c : Comparison) (a b : Value) : orderAtoms c.flipped b a = orderAtoms c a b := by
  unfold orderAtoms
  cases ha : a.magnitude? with
  | some x =>
    cases hb : b.magnitude? with
    | some y =>
      dsimp only
      rw [x.order?_swap y]
      cases x.order? y with
      | none => rfl
      | some o => exact congrArg Except.ok (c.holds_flipped o)
    | none => cases a <;> cases b <;> first | rfl | cases ha
  | none =>
    cases a with
    | str s =>
      cases b with
      | str t =>
        have hswap := compareText_swap s t
        simp [magnitude?, hswap, c.holds_flipped]
      | _ => rfl
    | bool | int | float => cases ha
    | _ => cases b <;> rfl

/-- Only two lists are compared by their elements. -/
theorem ordered_eq_orderAtoms {a b : Value} (h : a.isList = false ∨ b.isList = false) (c : Comparison) :
    ordered c a b = orderAtoms c a b := by
  cases a with
  | list cell xs =>
    rcases h with h | h
    · cases h
    · cases b with
      | list => cases h
      | _ => rfl
  | _ => simp [ordered]

/-- Lists are compared from both sides at the same first difference, which is one from both sides as equality is
symmetric. -/
theorem orderedItems_flipped (c : Comparison) {xs ys : List Value}
    (hheld : ∀ x ∈ xs, ∀ y ∈ ys, equalHeld y x = equalHeld x y)
    (hordered : ∀ x ∈ xs, ∀ y ∈ ys, ordered c.flipped y x = ordered c x y) :
    orderedItems c.flipped ys xs = orderedItems c xs ys := by
  induction xs generalizing ys with
  | nil =>
    cases ys with
    | nil => exact congrArg Except.ok (c.holds_flipped .eq)
    | cons y ys => exact congrArg Except.ok (c.holds_flipped .lt)
  | cons x xs ih =>
    cases ys with
    | nil => exact congrArg Except.ok (c.holds_flipped .gt)
    | cons y ys =>
      have htail := ih (fun x hx y hy => hheld x (List.mem_cons_of_mem _ hx) y (List.mem_cons_of_mem _ hy))
        fun x hx y hy => hordered x (List.mem_cons_of_mem _ hx) y (List.mem_cons_of_mem _ hy)
      rw [orderedItems, orderedItems, hheld x List.mem_cons_self y List.mem_cons_self,
        hordered x List.mem_cons_self y List.mem_cons_self, htail]

/-- Order is the other way round from the other side, and a fault from one side is one from the other. -/
theorem ordered_flipped (c : Comparison) {a b : Value} (ha : a.Keyed) (hb : b.Keyed) :
    ordered c.flipped b a = ordered c a b := by
  induction a using Value.induction generalizing b with
  | list cell xs ih =>
    cases b with
    | list cell' ys =>
      rw [ordered, ordered]
      exact orderedItems_flipped c (fun x hx y hy => equalHeld_comm (ha.items x hx) (hb.items y hy))
        fun x hx y hy => ih x hx (ha.items x hx) (hb.items y hy)
    | _ => rw [ordered_eq_orderAtoms (Or.inl rfl), ordered_eq_orderAtoms (Or.inr rfl), orderAtoms_flipped]
  | plain v hp =>
    have hlist := (isAtom_of_isPlain hp).1
    rw [ordered_eq_orderAtoms (Or.inr hlist), ordered_eq_orderAtoms (Or.inl hlist), orderAtoms_flipped]
  | dict => rw [ordered_eq_orderAtoms (Or.inr rfl), ordered_eq_orderAtoms (Or.inl rfl), orderAtoms_flipped]
  | store => rw [ordered_eq_orderAtoms (Or.inr rfl), ordered_eq_orderAtoms (Or.inl rfl), orderAtoms_flipped]

/-! ## 4. Texts beside numbers -/

theorem coerced_swap (a b : Value) : coerced b a = (coerced a b).swap := by
  rw [coerced, coerced]
  cases a <;> cases b <;> rfl

/-- Two numbers, or two values of one type, are compared as they stand. -/
theorem coerced_of_alike {a b : Value} (h : a.isText = b.isText ∨ a.isNumber = b.isNumber) : coerced a b = (a, b) := by
  rw [coerced]
  cases a <;> cases b <;> first | rfl | simp [isText, isNumber] at h

theorem Keyed.numeric {v : Value} (hv : v.Keyed) : v.numeric.Keyed := by
  cases v with
  | str s =>
    rw [Value.numeric]
    cases numberOfText? s with
    | none => exact hv
    | some n => cases n <;> exact .plain rfl
  | _ => exact hv

theorem keyed_coerced {a b : Value} (ha : a.Keyed) (hb : b.Keyed) : (coerced a b).1.Keyed ∧ (coerced a b).2.Keyed := by
  rw [coerced]
  split
  · exact ⟨ha, hb.numeric⟩
  · split
    · exact ⟨ha.numeric, hb⟩
    · exact ⟨ha, hb⟩

end Value

/-! ## 5. The operators -/

namespace Expr

theorem isMissing_coerced {a b : Value} (h : isMissing a = true ∨ isMissing b = true) :
    (isMissing (Value.coerced a b).1 || isMissing (Value.coerced a b).2) = true := by
  have hsame : Value.coerced a b = (a, b) := by
    rw [Value.coerced]
    cases a <;> cases b <;> first | rfl | simp [isMissing] at h
  rw [hsame, Bool.or_eq_true]
  exact h

/-- What is equal and of one type is compared as it stands. -/
theorem coerced_of_strictEqual {a b : Value} (h : strictEqual a b = true) :
    Value.coerced a b = (a, b) ∧ a.equal b = true := by
  rw [strictEqual] at h
  split at h
  · next hnumbers =>
    rw [Bool.and_eq_true] at hnumbers
    exact ⟨Value.coerced_of_alike (Or.inr (hnumbers.1.trans hnumbers.2.symm)), h⟩
  · rw [Bool.and_eq_true, decide_eq_true_iff] at h
    refine ⟨Value.coerced_of_alike (Or.inl ?_), h.2⟩
    have htype := h.1
    cases a <;> cases b <;> first | rfl | simp [Value.typeName] at htype

/-- **The comparisons are consistent.** Equality is symmetric, what is not equal is exactly what differs, what is the
same is equal, and a comparison by order comes to the same from the other side, to a fault as well; nothing is in order
with a missing value. -/
theorem comparisons_consistent {a b : Value} (ha : a.Keyed) (hb : b.Keyed) :
    compareValues .eq b a = compareValues .eq a b ∧
    compareValues .ne a b = (compareValues .eq a b).map Bool.not ∧
    compareValues .notSame a b = (compareValues .same a b).map Bool.not ∧
    (compareValues .same a b = .ok true → compareValues .eq a b = .ok true) ∧
    (∀ c : Comparison, compareValues (.order c.flipped) b a = compareValues (.order c) a b) ∧
    (isMissing a = true ∨ isMissing b = true → ∀ c, compareValues (.order c) a b = .ok false) := by
  obtain ⟨hleft, hright⟩ := Value.keyed_coerced ha hb
  refine ⟨?_, rfl, rfl, fun h => ?_, fun c => ?_, fun h c => ?_⟩
  · rw [compareValues, compareValues, Value.coerced_swap a b]
    exact congrArg Except.ok (Value.equal_comm hleft hright)
  · obtain ⟨hsame, hequal⟩ := coerced_of_strictEqual (Except.ok.inj h)
    rw [compareValues, hsame]
    exact congrArg Except.ok hequal
  · rw [compareValues, compareValues, Value.coerced_swap a b]
    simp only [Prod.fst_swap, Prod.snd_swap, Value.ordered_flipped c hleft hright,
      Bool.or_comm (isMissing (Value.coerced a b).2)]
  · rw [compareValues]
    exact if_pos (isMissing_coerced h)

/-- Two lists whose first difference is one without an order fail from both sides. -/
theorem comparisons_consistent_unordered :
    compareValues (.order .lt) (.ofList [.int 1, .null]) (.ofList [.float (.finite false 1 0), .int 2]) = .error .type ∧
    compareValues (.order .gt) (.ofList [.float (.finite false 1 0), .int 2]) (.ofList [.int 1, .null]) =
      .error .type := by
  have hkeyed : ∀ {x y : Value}, x.isPlain = true → y.isPlain = true → (Value.ofList [x, y]).Keyed := fun hx hy =>
    .list (List.forall_mem_cons.2 ⟨.plain hx, List.forall_mem_singleton.2 (.plain hy)⟩)
  have hfails : compareValues (.order .lt) (.ofList [.int 1, .null])
      (.ofList [.float (.finite false 1 0), .int 2]) = .error .type := rfl
  obtain ⟨-, -, -, -, hflipped, -⟩ := @comparisons_consistent (.ofList [.int 1, .null])
    (.ofList [.float (.finite false 1 0), .int 2]) (hkeyed rfl rfl) (hkeyed rfl rfl)
  exact ⟨hfails, (hflipped .lt).trans hfails⟩

end Expr

end NodeFlow
