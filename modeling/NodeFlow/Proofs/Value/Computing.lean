import NodeFlow.Expr.Function
import NodeFlow.Expr.Property
import NodeFlow.Proofs.Value.Renaming
/-!
# Computing with renamed values

Equality and order are the same after a renaming, and so is what arithmetic, properties, functions and methods
give, up to the renaming. Arithmetic labels nothing: a not-a-number that it makes has no label.
-/

set_option autoImplicit false

namespace NodeFlow

variable {σ : Renaming}

/-! ## 1. Numbers -/

namespace Binary64

@[simp] theorem same_renamed (x y : Binary64) : (x.renamed σ).same (y.renamed σ) = x.same y := by
  rcases x with (_ | i) | _ | _ <;> rcases y with (_ | j) | _ | _ <;> try rfl
  -- two labels are the same exactly if they are so when renamed
  by_cases h : i = j
  · subst h
    simp [renamed, same]
  · have hne : σ.label i ≠ σ.label j := fun heq => h (σ.label_injective heq)
    simp [renamed, same, h, hne]

@[simp] theorem isZero_renamed (x : Binary64) : (x.renamed σ).isZero = x.isZero := by
  cases x <;> rfl

@[simp] theorem isNegative_renamed (x : Binary64) : (x.renamed σ).isNegative = x.isNegative := by
  cases x <;> rfl

@[simp] theorem order?_renamed (x y : Binary64) : (x.renamed σ).order? (y.renamed σ) = x.order? y := by
  cases x <;> cases y <;> rfl

@[simp] theorem orderInt?_renamed (x : Binary64) (n : Int) : (x.renamed σ).orderInt? n = x.orderInt? n := by
  cases x <;> rfl

@[simp] theorem truncate?_renamed (x : Binary64) : (x.renamed σ).truncate? = x.truncate? := by
  cases x <;> rfl

/-- A number without a label, which no renaming changes. -/
def Unlabelled (x : Binary64) : Prop := ∀ σ : Renaming, x.renamed σ = x

@[simp] theorem unlabelled_nan : Unlabelled (.nan none) := fun _ => rfl

@[simp] theorem unlabelled_infinite (negative : Bool) : Unlabelled (.infinite negative) := fun _ => rfl

@[simp] theorem unlabelled_finite (negative : Bool) (mantissa : Nat) (exponent : Int) :
    Unlabelled (.finite negative mantissa exponent) := fun _ => rfl

@[simp] theorem unlabelled_zero (negative : Bool) : Unlabelled (zero negative) := fun _ => rfl

@[simp] theorem unlabelled_ite {c : Prop} [Decidable c] {x y : Binary64} (hx : x.Unlabelled) (hy : y.Unlabelled) :
    (if c then x else y).Unlabelled := by
  by_cases h : c
  · rwa [if_pos h]
  · rwa [if_neg h]

@[simp] theorem unlabelled_ofRatio (negative : Bool) (num den : Nat) : (ofRatio negative num den).Unlabelled := by
  simp [ofRatio]

@[simp] theorem unlabelled_ofScaled (m e : Int) (zeroSign : Bool) : (ofScaled m e zeroSign).Unlabelled := by
  simp [ofScaled]

theorem unlabelled_neg (x : Binary64) : x.neg.Unlabelled := by
  cases x <;> simp [neg]

theorem unlabelled_add (x y : Binary64) : (x.add y).Unlabelled := by
  cases x <;> cases y <;> simp [add]

theorem unlabelled_mul (x y : Binary64) : (x.mul y).Unlabelled := by
  cases x <;> cases y <;> simp [mul]

theorem unlabelled_div (x y : Binary64) : (x.div y).Unlabelled := by
  cases x <;> cases y <;> simp [div]

theorem unlabelled_mod (x y : Binary64) : (x.mod y).Unlabelled := by
  cases x <;> cases y <;> simp [mod, unlabelled_add]

@[simp] theorem neg_renamed (x : Binary64) : (x.renamed σ).neg = x.neg := by
  cases x <;> rfl

@[simp] theorem add_renamed (x y : Binary64) : (x.renamed σ).add (y.renamed σ) = x.add y := by
  cases x <;> cases y <;> rfl

@[simp] theorem mul_renamed (x y : Binary64) : (x.renamed σ).mul (y.renamed σ) = x.mul y := by
  cases x <;> cases y <;> rfl

@[simp] theorem div_renamed (x y : Binary64) : (x.renamed σ).div (y.renamed σ) = x.div y := by
  cases x <;> cases y <;> rfl

@[simp] theorem mod_renamed (x y : Binary64) : (x.renamed σ).mod (y.renamed σ) = x.mod y := by
  cases x <;> cases y <;> rfl

end Binary64

namespace Number

@[simp] theorem renamed_int (n : Int) : (Number.int n).renamed σ = .int n := rfl

@[simp] theorem renamed_float (x : Binary64) : (Number.float x).renamed σ = .float (x.renamed σ) := rfl

@[simp] theorem value_renamed (x : Number) : (x.renamed σ).value = x.value.renamed σ := by
  cases x <;> rfl

@[simp] theorem order?_renamed (x y : Number) : (x.renamed σ).order? (y.renamed σ) = x.order? y := by
  cases x <;> cases y <;> simp [order?]

/-- A number that no renaming changes. -/
def Unlabelled (x : Number) : Prop := ∀ σ : Renaming, x.renamed σ = x

theorem unlabelled_int (n : Int) : Unlabelled (.int n) := fun _ => rfl

theorem unlabelled_float {x : Binary64} (hx : x.Unlabelled) : Unlabelled (.float x) := fun σ =>
  congrArg float (hx σ)

theorem unlabelled_neg (x : Number) : Unlabelled x.neg := by
  cases x with
  | int n => exact unlabelled_int _
  | float x => exact unlabelled_float x.unlabelled_neg

@[simp] theorem neg_renamed (x : Number) : (x.renamed σ).neg = x.neg := by
  cases x <;> simp [neg]

@[simp] theorem toBinary_renamed (x : Number) : (x.renamed σ).toBinary = x.toBinary.map (Binary64.renamed σ) := by
  cases x with
  | int n =>
    -- a whole number that is rounded has no label
    have hlabel := Binary64.unlabelled_ofRatio (n < 0) n.natAbs 1 σ
    rw [renamed_int, toBinary, Binary64.ofInt?]
    generalize Binary64.ofRatio (n < 0) n.natAbs 1 = x at hlabel ⊢
    cases x with
    | infinite negative => rfl
    | _ => exact congrArg Except.ok hlabel.symm
  | float x => rfl

/-- An operation on numbers that overlooks labels, and whose results have none. -/
structure Overlooks (op : Number → Number → Except Fault Number) : Prop where
  renamed : ∀ (σ : Renaming) x y, op (x.renamed σ) (y.renamed σ) = op x y
  unlabelled : ∀ x y z, op x y = .ok z → z.Unlabelled

/-- So it is with one that has two forms, if it is with both. -/
theorem overlooks_apply {whole : Int → Int → Except Fault Number}
    {binary : Binary64 → Binary64 → Except Fault Number}
    (hwhole : ∀ m n z, whole m n = .ok z → z.Unlabelled)
    (hrenamed : ∀ (σ : Renaming) x y, binary (x.renamed σ) (y.renamed σ) = binary x y)
    (hbinary : ∀ x y z, binary x y = .ok z → z.Unlabelled) : Overlooks (apply whole binary) where
  renamed σ x y := by
    -- unless both are whole they are rounded first
    cases x with
    | int m =>
      cases y with
      | int n => rfl
      | float y =>
        have hm := @toBinary_renamed σ (.int m)
        rw [renamed_int] at hm
        rw [renamed_int, renamed_float, apply, apply, toBinary, toBinary]
        · cases hround : toBinary (.int m) with
          | error f => rfl
          | ok a =>
            have ha : a = a.renamed σ := Except.ok.inj (hround.symm.trans (hm.trans (congrArg _ hround)))
            have hsame := hrenamed σ a y
            rwa [← ha] at hsame
        all_goals simp
    | float x =>
      cases y with
      | int n =>
        have hn := @toBinary_renamed σ (.int n)
        rw [renamed_int] at hn
        rw [renamed_int, renamed_float, apply, apply, toBinary, toBinary]
        · cases hround : toBinary (.int n) with
          | error f => rfl
          | ok b =>
            have hb : b = b.renamed σ := Except.ok.inj (hround.symm.trans (hn.trans (congrArg _ hround)))
            have hsame := hrenamed σ x b
            rwa [← hb] at hsame
        all_goals simp
      | float y => exact hrenamed σ x y
  unlabelled x y z h := by
    rw [apply.eq_def] at h
    split at h
    · exact hwhole _ _ z h
    · split at h
      · exact hbinary _ _ z h
      · cases h
      · cases h

theorem unlabelled_of_int {n : Int} {z : Number} (h : (Except.ok (.int n) : Except Fault Number) = .ok z) :
    z.Unlabelled :=
  Except.ok.inj h ▸ unlabelled_int n

theorem unlabelled_of_float {x : Binary64} {z : Number} (hx : x.Unlabelled)
    (h : (Except.ok (.float x) : Except Fault Number) = .ok z) : z.Unlabelled :=
  Except.ok.inj h ▸ unlabelled_float hx

theorem overlooks_add : Overlooks add :=
  overlooks_apply (fun _ _ _ => unlabelled_of_int) (fun σ x y => by simp)
    fun x y _ => unlabelled_of_float (x.unlabelled_add y)

theorem overlooks_sub : Overlooks sub :=
  overlooks_apply (fun _ _ _ => unlabelled_of_int)
    (fun σ x y => by
      have hneg : y.neg.renamed σ = y.neg := y.unlabelled_neg σ
      have hsum := Binary64.add_renamed (σ := σ) x y.neg
      rw [hneg] at hsum
      simp [Binary64.sub, hsum])
    fun x y _ => unlabelled_of_float (x.unlabelled_add y.neg)

theorem overlooks_mul : Overlooks mul :=
  overlooks_apply (fun _ _ _ => unlabelled_of_int) (fun σ x y => by simp)
    fun x y _ => unlabelled_of_float (x.unlabelled_mul y)

theorem overlooks_div : Overlooks div := by
  refine overlooks_apply (fun m n z h => ?_) (fun σ x y => by simp) fun x y z h => ?_
  · rw [divWhole] at h
    split at h
    · cases h
    · have hlabel := Binary64.unlabelled_ofRatio ((m < 0) != (n < 0)) m.natAbs n.natAbs
      split at h
      · cases h
      · exact unlabelled_of_float hlabel h
  · split at h
    · cases h
    · exact unlabelled_of_float (x.unlabelled_div y) h

theorem overlooks_mod : Overlooks mod := by
  refine overlooks_apply (fun m n z h => ?_) (fun σ x y => by simp) fun x y z h => ?_
  · split at h
    · cases h
    · exact unlabelled_of_int h
  · split at h
    · cases h
    · exact unlabelled_of_float (x.unlabelled_mod y) h

/-- The result of an operation is none that could be renamed. -/
theorem Overlooks.value_renamed {op : Number → Number → Except Fault Number} (h : Overlooks op) {x y z : Number}
    (hz : op x y = .ok z) : z.value.renamed σ = z.value := by
  rw [← Number.value_renamed, h.unlabelled x y z hz σ]

end Number

/-! ## 2. Equality and order -/

namespace Value

@[simp] theorem magnitude?_renamed (v : Value) :
    (v.renamed σ).magnitude? = v.magnitude?.map (Number.renamed σ) := by
  cases v <;> simp [magnitude?]

@[simp] theorem same_renamed (x y : Value) : (x.renamed σ).same (y.renamed σ) = x.same y := by
  cases x <;> cases y <;> simp [same]

@[simp] theorem equalAtoms_renamed (x y : Value) :
    (x.renamed σ).equalAtoms (y.renamed σ) = x.equalAtoms y := by
  have hstore : ∀ i j, decide (σ.cell i = σ.cell j) = decide (i = j) := fun i j =>
    decide_eq_decide.2 σ.cell_injective.eq_iff
  unfold equalAtoms
  rw [magnitude?_renamed, magnitude?_renamed]
  cases x.magnitude? with
  | none =>
    cases y.magnitude? with
    | none => cases x <;> cases y <;> simp [hstore]
    | some n => rfl
  | some m =>
    cases y.magnitude? with
    | none => rfl
    | some n => simp

theorem equalItems_renamed {xs : List Value}
    (hxs : ∀ x ∈ xs, ∀ y, (x.renamed σ).equal (y.renamed σ) = x.equal y) (ys : List Value) :
    equalItems (xs.map (renamed σ)) (ys.map (renamed σ)) = equalItems xs ys := by
  induction xs generalizing ys with
  | nil => cases ys <;> rfl
  | cons x xs ih =>
    rw [List.forall_mem_cons] at hxs
    cases ys with
    | nil => rfl
    | cons y ys => rw [List.map_cons, List.map_cons, equalItems, equalItems, same_renamed, hxs.1, ih hxs.2]

theorem equalMembers_renamed {ms : List (String × Value)}
    (hms : ∀ m ∈ ms, ∀ y, (m.2.renamed σ).equal (y.renamed σ) = m.2.equal y) (ns : List (String × Value)) :
    equalMembers (ms.map fun m => (m.1, m.2.renamed σ)) (ns.map fun n => (n.1, n.2.renamed σ)) =
      equalMembers ms ns := by
  induction ms with
  | nil => rfl
  | cons m ms ih =>
    rw [List.forall_mem_cons] at hms
    rw [List.map_cons, equalMembers, equalMembers, ih hms.2, Members.get?_map]
    cases Members.get? ns m.1 with
    | none => rfl
    | some y => simp [hms.1]

/-- Equal values are equal when renamed, and others are not. -/
@[simp] theorem equal_renamed (x y : Value) : (x.renamed σ).equal (y.renamed σ) = x.equal y := by
  induction x using Value.induction generalizing y with
  | plain x hp =>
    have hatoms := @equalAtoms_renamed σ x y
    cases x with
    | list | dict | store => cases hp
    | _ => exact hatoms
  | list cell xs ih =>
    cases y with
    | list cell' ys => simp [equal, equalItems_renamed ih]
    | _ => simp [equal]
  | dict cell ms ih =>
    cases y with
    | dict cell' ns => simp [equal, equalMembers_renamed ih]
    | _ => simp [equal]
  | store cell name ms ih =>
    have hatoms := @equalAtoms_renamed σ (.store cell name ms) y
    rw [renamed_store] at hatoms ⊢
    exact hatoms

@[simp] theorem equalHeld_renamed (x y : Value) : (x.renamed σ).equalHeld (y.renamed σ) = x.equalHeld y := by
  simp [equalHeld]

@[simp] theorem orderAtoms_renamed (op : Comparison) (x y : Value) :
    orderAtoms op (x.renamed σ) (y.renamed σ) = orderAtoms op x y := by
  unfold orderAtoms
  rw [magnitude?_renamed, magnitude?_renamed]
  cases x.magnitude? with
  | none => cases x <;> cases y <;> simp
  | some m =>
    cases y.magnitude? with
    | none => cases x <;> cases y <;> simp
    | some n => simp

theorem orderedItems_renamed (op : Comparison) {xs : List Value}
    (hxs : ∀ x ∈ xs, ∀ y, ordered op (x.renamed σ) (y.renamed σ) = ordered op x y) (ys : List Value) :
    orderedItems op (xs.map (renamed σ)) (ys.map (renamed σ)) = orderedItems op xs ys := by
  induction xs generalizing ys with
  | nil => cases ys <;> rfl
  | cons x xs ih =>
    rw [List.forall_mem_cons] at hxs
    cases ys with
    | nil => rfl
    | cons y ys =>
      rw [List.map_cons, List.map_cons, orderedItems, orderedItems, equalHeld_renamed, hxs.1, ih hxs.2]

@[simp] theorem ordered_renamed (op : Comparison) (x y : Value) :
    ordered op (x.renamed σ) (y.renamed σ) = ordered op x y := by
  induction x using Value.induction generalizing y with
  | plain x hp =>
    have hatoms := @orderAtoms_renamed σ op x y
    cases x with
    | list | dict | store => cases hp
    | _ => exact hatoms
  | list cell xs ih =>
    cases y with
    | list cell' ys => simp [ordered, orderedItems_renamed op ih]
    | _ => simp [ordered]
  | dict cell ms ih =>
    have hatoms := @orderAtoms_renamed σ op (.dict cell ms) y
    rw [renamed_dict] at hatoms ⊢
    exact hatoms
  | store cell name ms ih =>
    have hatoms := @orderAtoms_renamed σ op (.store cell name ms) y
    rw [renamed_store] at hatoms ⊢
    exact hatoms

/-! ## 3. Arithmetic -/

@[simp] theorem number?_renamed (v : Value) : (v.renamed σ).number? = v.number?.map (Number.renamed σ) := by
  cases v <;> simp [number?]

theorem unlabelled_ofDecimal (negative : Bool) (n : Nat) (e : Int) :
    (Numeral.ofDecimal negative n e).Unlabelled := by
  have hratio : ∀ num den, (Binary64.ofRatio negative num den).Unlabelled :=
    Binary64.unlabelled_ofRatio negative
  have hzero := Binary64.unlabelled_zero negative
  rw [Numeral.ofDecimal]
  refine Binary64.unlabelled_ite hzero (Binary64.unlabelled_ite (Binary64.unlabelled_infinite _) ?_)
  exact Binary64.unlabelled_ite hzero (Binary64.unlabelled_ite (hratio _ _) (hratio _ _))

theorem unlabelled_readName {negative : Bool} {cs : List Char} {x : Binary64}
    (h : Numeral.readName? negative cs = some x) : x.Unlabelled := by
  rw [Numeral.readName?] at h
  split at h
  · exact Option.some.inj h ▸ Binary64.unlabelled_infinite _
  · split at h
    · exact Option.some.inj h ▸ Binary64.unlabelled_nan
    · cases h

/-- A number that is read from a text has no label. -/
theorem unlabelled_readFloat {cs : List Char} {x : Binary64} (h : Numeral.readFloat? cs = some x) :
    x.Unlabelled := by
  rw [Numeral.readFloat?] at h
  dsimp only at h
  split at h
  · next hname => exact Option.some.inj h ▸ unlabelled_readName hname
  · split at h
    · cases h
    · split at h
      · exact Option.some.inj h ▸ unlabelled_ofDecimal _ _ _
      · cases h

theorem unlabelled_numberOfText {s : String} {n : Number} (h : numberOfText? s = some n) : n.Unlabelled := by
  rw [numberOfText?] at h
  split at h
  · obtain ⟨x, hx, rfl⟩ := Option.map_eq_some_iff.1 h
    exact Number.unlabelled_float (unlabelled_readFloat hx)
  · obtain ⟨n, -, rfl⟩ := Option.map_eq_some_iff.1 h
    exact Number.unlabelled_int n

@[simp] theorem numeric_renamed (v : Value) : (v.renamed σ).numeric = v.numeric.renamed σ := by
  cases v with
  | str s =>
    rw [renamed_str, numeric]
    cases hn : numberOfText? s with
    | none => rfl
    | some n =>
      change n.value = n.value.renamed σ
      rw [← Number.value_renamed, unlabelled_numberOfText hn σ]
  | _ => simp [numeric]

@[simp] theorem coerced_renamed (l r : Value) :
    coerced (l.renamed σ) (r.renamed σ) = ((coerced l r).1.renamed σ, (coerced l r).2.renamed σ) := by
  simp only [coerced, isNumber_renamed, isText_renamed, numeric_renamed]
  split
  · rfl
  · split <;> rfl

/-- A sum with a whole number is none that could be renamed. -/
theorem plus_renamed (v : Value) (n : Int) :
    (v.renamed σ).plus (.int n) = (v.plus (.int n)).map (renamed σ) := by
  have hnumber : ∀ x : Number, ofNumber ((x.renamed σ).add (.int n)) = (ofNumber (x.add (.int n))).map (renamed σ) := by
    intro x
    have hsame := Number.overlooks_add.renamed σ x (.int n)
    rw [Number.renamed_int] at hsame
    rw [hsame]
    cases hsum : x.add (.int n) with
    | error f => rfl
    | ok z => exact congrArg Except.ok (Number.overlooks_add.value_renamed hsum).symm
  cases v with
  | bool b => exact hnumber (.int (if b then 1 else 0))
  | int m => exact hnumber (.int m)
  | float x => exact hnumber (.float x)
  | _ => simp [plus, magnitude?, Except.map, typeName]

end Value

end NodeFlow
