import NodeFlow.Expr.Eval
/-!
# What escapes from an expression

Evaluating a text refuses it if a fault arises that the expression answers for, and lets any other fault
pass through. There are four kinds of faults that it does not answer for, but only one of them can arise: a
number that is too large for its type. A place beyond the end gives the undefined value, and so does a part
that a value does not have.

So the argument goes through everything that an expression can do, operator by operator and function by
function, down to the few places where a floating-point number is made of something else or a whole number
of an infinite one.
-/

set_option autoImplicit false

namespace NodeFlow

/-! ## 1. Errors of one kind -/

/-- Whatever a computation fails with is such an error. -/
def FailsWith {ε α : Type} (P : ε → Prop) (x : Except ε α) : Prop := ∀ e, x = .error e → P e

namespace FailsWith

variable {ε α β : Type} {P : ε → Prop}

theorem ok (a : α) : FailsWith P (.ok a) := nofun

theorem error {e : ε} (h : P e) : FailsWith P (.error e : Except ε α) :=
  fun _ he => Except.error.inj he ▸ h

theorem map {x : Except ε α} (hx : FailsWith P x) (f : α → β) : FailsWith P (x.map f) := by
  cases x with
  | error e => exact error (hx e rfl)
  | ok a => exact ok (f a)

end FailsWith

/-- A fault that an expression answers for, or an overflow. -/
def Fault.Tame (f : Fault) : Prop := f.isRefused = true ∨ f = .overflow

instance : DecidablePred Fault.Tame := fun _ => inferInstanceAs (Decidable (_ ∨ _))

/-- A reason that is no fault, or such a fault. -/
def Reason.Tame (r : Reason) : Prop := ∀ f, r = .fault f → f.Tame

theorem Reason.tame_fault {f : Fault} (h : f.Tame) : (Reason.fault f).Tame :=
  fun _ hf => Reason.fault.inj hf ▸ h

/-! ## 2. Properties -/

namespace Value

theorem tame_memberAt (ms : List (String × Value)) (key : Value) :
    FailsWith Fault.Tame (memberAt ms key) := by
  cases key with
  | str k =>
    rw [memberAt]
    split
    · exact .ok _
    · exact .ok _
  | list | dict => exact .error (by decide)
  | _ => exact .ok _

theorem tame_place? (key : Value) : FailsWith Fault.Tame (place? key) := by
  cases key with
  | float x =>
    cases x with
    | infinite => exact .error (by decide)
    | _ => exact .ok _
  | _ => exact .ok _

theorem tame_elementOf (xs : List Value) (key : Value) : FailsWith Fault.Tame (elementOf xs key) := by
  rw [elementOf.eq_def]
  split
  · exact .ok _
  · split
    · next f hplace => exact .error (tame_place? key f hplace)
    · exact .ok _
    · exact .ok _

theorem tame_property (container key : Value) : FailsWith Fault.Tame (container.property key) := by
  cases container with
  | dict | store => exact tame_memberAt _ _
  | list | str => exact tame_elementOf _ _
  | _ => exact .ok _

/-! ## 3. Comparisons -/

theorem tame_includes (container needle : Value) : FailsWith Fault.Tame (container.includes needle) := by
  rw [includes.eq_def]
  split
  · exact .ok _
  · exact .ok _
  · split
    · exact .ok _
    · exact .error (by decide)
    · exact .error (by decide)
    · exact .ok _
  · exact .ok _

theorem tame_orderAtoms (op : Comparison) (a b : Value) : FailsWith Fault.Tame (orderAtoms op a b) := by
  rw [orderAtoms.eq_def]
  split
  · exact .ok _
  · split
    · exact .ok _
    · exact .error (by decide)

mutual

/-- Values that are in no order are of types that have none: recursion on the left one. -/
theorem tame_ordered (op : Comparison) : ∀ a b : Value, FailsWith Fault.Tame (ordered op a b)
  | .list _ xs, b => by
    rw [ordered.eq_def]
    dsimp only
    split
    · exact tame_orderedItems op xs _
    · exact .error (by decide)
  | .null, b | .undefined, b | .bool _, b | .int _, b | .float _, b | .str _, b | .dict _ _, b
  | .store _ _ _, b => by
    rw [ordered.eq_def]
    exact tame_orderAtoms op _ b
termination_by structural a => a

theorem tame_orderedItems (op : Comparison) : ∀ xs ys : List Value,
    FailsWith Fault.Tame (orderedItems op xs ys)
  | [], [] => .ok _
  | [], _ :: _ => .ok _
  | _ :: _, [] => .ok _
  | x :: xs, y :: ys => by
    rw [orderedItems]
    split
    · exact tame_orderedItems op xs ys
    · exact tame_ordered op x y
termination_by structural xs => xs

end

end Value

/-! ## 4. Numbers -/

namespace Number

theorem tame_toBinary (x : Number) : FailsWith Fault.Tame x.toBinary := by
  cases x with
  | float x => exact .ok _
  | int n =>
    rw [toBinary]
    split
    · exact .ok _
    · exact .error (by decide)

/-- An operation on two numbers adds to its two forms only that an operand may be too large. -/
theorem tame_apply {whole : Int → Int → Except Fault Number}
    {binary : Binary64 → Binary64 → Except Fault Number} (hwhole : ∀ m n, FailsWith Fault.Tame (whole m n))
    (hbinary : ∀ x y, FailsWith Fault.Tame (binary x y)) (x y : Number) :
    FailsWith Fault.Tame (apply whole binary x y) := by
  rw [apply.eq_def]
  split
  · exact hwhole _ _
  · split
    · exact hbinary _ _
    · next f hx => exact .error (tame_toBinary _ f hx)
    · next f hy _ => exact .error (tame_toBinary _ f hy)

theorem tame_divWhole (m n : Int) : FailsWith Fault.Tame (divWhole m n) := by
  rw [divWhole]
  split
  · exact .error (by decide)
  · split
    · exact .error (by decide)
    · exact .ok _

theorem tame_div (x y : Number) : FailsWith Fault.Tame (div x y) := by
  refine tame_apply tame_divWhole (fun x y => ?_) x y
  split
  · exact .error (by decide)
  · exact .ok _

theorem tame_mod (x y : Number) : FailsWith Fault.Tame (mod x y) := by
  refine tame_apply (fun m n => ?_) (fun x y => ?_) x y
  · split
    · exact .error (by decide)
    · exact .ok _
  · split
    · exact .error (by decide)
    · exact .ok _

end Number

/-! ## 5. Functions and methods -/

namespace Value

theorem tame_length (v : Value) : FailsWith Fault.Tame v.length := by
  cases v with
  | str | list | dict | store => exact .ok _
  | _ => exact .error (by decide)

theorem tame_toWhole (v : Value) : FailsWith Fault.Tame v.toWhole := by
  rw [toWhole]
  split
  · exact .ok _
  · exact .ok _
  · rw [wholeOf.eq_def]
    split
    · exact .error (by decide)
    · exact .error (by decide)
    · exact .ok _
  · exact .error (by decide)
  · exact .error (by decide)

theorem tame_toBinary (v : Value) : FailsWith Fault.Tame v.toBinary := by
  cases v with
  | float => exact .ok _
  | int | bool => exact (Number.tame_toBinary _).map _
  | str s =>
    rw [toBinary]
    split
    · exact .ok _
    · exact .error (by decide)
  | _ => exact .error (by decide)

theorem tame_decoded (v : Value) : FailsWith Fault.Tame v.decoded := by
  cases v with
  | str s =>
    rw [decoded]
    split
    · exact .ok _
    · exact .error (by decide)
  | _ => exact .error (by decide)

end Value

theorem Function.tame_apply (f : Function) (args : List Value) : FailsWith Fault.Tame (f.apply args) := by
  rw [apply.eq_def]
  split
  · exact .ok _
  · exact Value.tame_decoded _
  · exact Value.tame_length _
  · exact .ok _
  · exact .ok _
  · exact .ok _
  · exact Value.tame_toWhole _
  · exact Value.tame_toBinary _
  · exact .ok _
  · exact (Value.tame_includes _ _).map _
  · split
    · exact .ok _
    · exact .ok _
    · exact .ok _
  · exact .error (by decide)

theorem Method.tame_apply (m : Method) (receiver : Value) (args : List Value) :
    FailsWith Fault.Tame (m.apply receiver args) := by
  rw [apply.eq_def]
  split
  · exact (Value.tame_includes _ _).map _
  · exact .ok _
  · exact .ok _
  · exact .ok _
  · exact .ok _
  · exact .ok _
  · exact .error (by decide)

/-! ## 6. Trees and texts -/

namespace Expr

theorem tame_refused {α : Type} {x : Except Fault α} (hx : FailsWith Fault.Tame x) :
    FailsWith Reason.Tame (refused x) := by
  cases x with
  | error f => exact .error (Reason.tame_fault (hx f rfl))
  | ok a => exact .ok a

theorem tame_compareValues (op : CompareOp) (l r : Value) :
    FailsWith Fault.Tame (compareValues op l r) := by
  cases op with
  | isIn => exact Value.tame_includes r l
  | order c =>
    rw [compareValues]
    split
    · exact .ok _
    · exact Value.tame_ordered c _ _
  | _ => exact .ok _

theorem tame_onNumbers (op : ArithOp) (x y : Number) : FailsWith Fault.Tame (onNumbers op x y) := by
  cases op with
  | add | sub | mul => exact Number.tame_apply (fun _ _ => .ok _) (fun _ _ => .ok _) x y
  | div => exact Number.tame_div x y
  | mod => exact Number.tame_mod x y

theorem tame_arithValues (op : ArithOp) (l r : Value) : FailsWith Reason.Tame (arithValues op l r) := by
  rw [arithValues]
  split
  · exact .ok _
  · split
    · split
      · exact .ok _
      · next f hf => exact .error (Reason.tame_fault (tame_onNumbers op _ _ f hf))
    · exact .error nofun

theorem tame_negValue (v : Value) : FailsWith Reason.Tame (negValue v) := by
  rw [negValue]
  split
  · exact .ok _
  · exact .error nofun

mutual

/-- A tree has a value, or none for a tame reason: recursion on the tree. -/
theorem tame_eval (names : Names) : ∀ e : Expr, FailsWith Reason.Tame (eval names e)
  | .lit l => .ok _
  | .name n => by
    rw [eval]
    split
    · exact .ok _
    · exact .error nofun
  | .get base key => by
    rw [eval]
    split
    · next r hbase => exact .error (tame_eval names base r hbase)
    next b _ =>
    split
    · next r hkey => exact .error (tame_eval names key r hkey)
    · exact tame_refused (Value.tame_property b _)
  | .list items => by
    rw [eval]
    exact (tame_evalAll names items).map _
  | .or l r => by
    rw [eval]
    split
    · next e hl => exact .error (tame_eval names l e hl)
    split
    · exact .ok _
    · exact tame_eval names r
  | .and l r => by
    rw [eval]
    split
    · next e hl => exact .error (tame_eval names l e hl)
    split
    · exact tame_eval names r
    · exact .ok _
  | .not e => by
    rw [eval]
    exact (tame_eval names e).map _
  | .neg e => by
    rw [eval]
    split
    · next r he => exact .error (tame_eval names e r he)
    · exact tame_negValue _
  | .compare op l r => by
    rw [eval]
    split
    · next e hl => exact .error (tame_eval names l e hl)
    split
    · next e hr => exact .error (tame_eval names r e hr)
    · exact (tame_refused (tame_compareValues op _ _)).map _
  | .arith op l r => by
    rw [eval]
    split
    · next e hl => exact .error (tame_eval names l e hl)
    split
    · next e hr => exact .error (tame_eval names r e hr)
    · exact tame_arithValues op _ _
  | .call f args => by
    rw [eval]
    split
    · exact .error nofun
    next fn _ =>
    split
    · next r hargs => exact .error (tame_evalAll names args r hargs)
    · exact tame_refused (fn.tame_apply _)
  | .method receiver m args => by
    rw [eval]
    split
    · exact .error nofun
    next known _ =>
    split
    · next r hreceiver => exact .error (tame_eval names receiver r hreceiver)
    split
    · exact .error nofun
    split
    · next r hargs => exact .error (tame_evalAll names args r hargs)
    · exact tame_refused (known.tame_apply _ _)
termination_by structural e => e

theorem tame_evalAll (names : Names) : ∀ es : List Expr, FailsWith Reason.Tame (evalAll names es)
  | [] => .ok _
  | e :: es => by
    rw [evalAll]
    split
    · next r he => exact .error (tame_eval names e r he)
    · exact (tame_evalAll names es).map _
termination_by structural es => es

end

end Expr

/-- What escapes from a text is an overflow. -/
theorem eq_overflow_of_evaluate {source : String} {names : Names} {f : Fault}
    (h : evaluate source names = .error (.escaped f)) : f = .overflow := by
  rw [evaluate] at h
  split at h
  · cases h
  next e _ =>
  split at h
  · cases h
  next r heval =>
  have htame := e.tame_eval names r heval
  cases r with
  | fault f' =>
    rw [EvalError.of] at h
    split at h
    · cases h
    next hrefused =>
    obtain rfl : f' = f := EvalError.escaped.inj (Except.error.inj h)
    exact (htame f' rfl).resolve_left hrefused
  | _ => cases h

end NodeFlow
