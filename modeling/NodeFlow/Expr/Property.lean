import NodeFlow.Number.Numeral
import NodeFlow.Value.Basic
import NodeFlow.Value.Fault
/-!
# Properties

What `a.b` and `a[b]` give. A path that leads nowhere gives the undefined value: a missing key, a place
beyond the end, anything of a value that has no parts. Lists and texts have places, which may count
from the end, and a length; an object has a length too, unless it has a key of that name; numbers have
four parts.

Two keys are faults all the same: a container looked up in an object, and an infinite place.
-/

set_option autoImplicit false

namespace NodeFlow.Value

/-- A member of an object, or its length. -/
def memberAt (ms : List (String × Value)) : Value → Except Fault Value
  | .str k =>
    match Members.get? ms k with
    | some v => .ok v
    | none => .ok (if k = "length" then .int ms.length else .undefined)
  | .list _ _ | .dict _ _ => .error .type
  | _ => .ok .undefined

/-- The place that a key names: whole numbers, texts that write one, booleans as one and zero, and
floating-point numbers without their fraction. -/
def place? : Value → Except Fault (Option Int)
  | .str s => .ok (Numeral.readInt? s.toList)
  | .int n => .ok (some n)
  | .bool b => .ok (some (if b then 1 else 0))
  | .float x =>
    match x with
    | .nan _ => .ok none
    | .infinite _ => .error .overflow
    | x => .ok x.truncate?
  | _ => .ok none

/-- The element at a place. A negative place counts from the end. -/
def elementAt {α : Type} (xs : List α) (n : Int) : Option α :=
  if 0 ≤ n then xs[n.toNat]?
  else if -n ≤ xs.length then xs[xs.length - (-n).toNat]?
  else none

/-- An element of a sequence, or its length. -/
def elementOf (xs : List Value) (key : Value) : Except Fault Value :=
  match key with
  | .str "length" => .ok (.int xs.length)
  | _ =>
    match place? key with
    | .error f => .error f
    | .ok none => .ok .undefined
    | .ok (some n) => .ok ((elementAt xs n).getD .undefined)

/-- The parts of a whole number. -/
def wholePart (n : Int) : Value → Value
  | .str "real" | .str "numerator" => .int n
  | .str "imag" => .int 0
  | .str "denominator" => .int 1
  | _ => .undefined

/-- The parts of a floating-point number. -/
def binaryPart (x : Binary64) : Value → Value
  | .str "real" => .float x
  | .str "imag" => .float (.zero false)
  | _ => .undefined

/-- The property of a value under a key. -/
def property (container key : Value) : Except Fault Value :=
  match container with
  | .null | .undefined => .ok .undefined
  | .dict _ ms | .store _ _ ms => memberAt ms key
  | .list _ xs => elementOf xs key
  | .str s => elementOf (s.toList.map fun c => .str (String.singleton c)) key
  | .bool b => .ok (wholePart (if b then 1 else 0) key)
  | .int n => .ok (wholePart n key)
  | .float x => .ok (binaryPart x key)

end NodeFlow.Value
