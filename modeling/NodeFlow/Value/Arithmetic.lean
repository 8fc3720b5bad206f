import NodeFlow.Number.Numeral
import NodeFlow.Value.Compare
/-!
# Arithmetic

The five operations on numbers. Whole numbers are unbounded and stay whole, except that a quotient is
always a floating-point number; if either operand is a floating-point number the other is rounded to
one first, which fails if it is out of range. A remainder has the sign of the divisor.

Texts that write numbers stand in for them: saved values are often text.
-/

set_option autoImplicit false

namespace NodeFlow

namespace Number

/-- The number as a value. -/
def value : Number → Value
  | .int n => .int n
  | .float x => .float x

/-- The nearest floating-point number, if one is in range. -/
def toBinary : Number → Except Fault Binary64
  | .float x => .ok x
  | .int n =>
    match Binary64.ofInt? n with
    | some x => .ok x
    | none => .error .overflow

/-- The number with the other sign. -/
def neg : Number → Number
  | .int n => .int (-n)
  | .float x => .float x.neg

/-- An operation on two numbers from its two forms. Both operands are rounded before the
floating-point form is used. -/
def apply (whole : Int → Int → Except Fault Number) (binary : Binary64 → Binary64 → Except Fault Number) :
    Number → Number → Except Fault Number
  | .int m, .int n => whole m n
  | x, y =>
    match x.toBinary, y.toBinary with
    | .ok a, .ok b => binary a b
    | .error f, _ => .error f
    | _, .error f => .error f

/-- The sum. -/
def add : Number → Number → Except Fault Number :=
  apply (fun m n => .ok (.int (m + n))) (fun x y => .ok (.float (x.add y)))

/-- The difference. -/
def sub : Number → Number → Except Fault Number :=
  apply (fun m n => .ok (.int (m - n))) (fun x y => .ok (.float (x.sub y)))

/-- The product. -/
def mul : Number → Number → Except Fault Number :=
  apply (fun m n => .ok (.int (m * n))) (fun x y => .ok (.float (x.mul y)))

/-- The quotient of two whole numbers, rounded once. -/
def divWhole (m n : Int) : Except Fault Number :=
  if n = 0 then .error .zeroDivision
  else
    match Binary64.ofRatio ((m < 0) != (n < 0)) m.natAbs n.natAbs with
    | .infinite _ => .error .overflow
    | x => .ok (.float x)

/-- The quotient. -/
def div : Number → Number → Except Fault Number :=
  apply divWhole fun x y => if y.isZero then .error .zeroDivision else .ok (.float (x.div y))

/-- The remainder, with the sign of the divisor. -/
def mod : Number → Number → Except Fault Number :=
  apply (fun m n => if n = 0 then .error .zeroDivision else .ok (.int (m.fmod n)))
    fun x y => if y.isZero then .error .zeroDivision else .ok (.float (x.mod y))

end Number

namespace Value

/-- The number that a value is. -/
def number? : Value → Option Number
  | .int n => some (.int n)
  | .float x => some (.float x)
  | _ => none

/-- Does a text have a point or an exponent letter? -/
def looksFractional (cs : List Char) : Bool :=
  cs.any fun c => c = '.' || c = 'e' || c = 'E'

/-- The number that a text writes: a floating-point one if the text has a point or an exponent
letter. -/
def numberOfText? (s : String) : Option Number :=
  let cs := s.toList
  if looksFractional cs then (Numeral.readFloat? cs).map .float
  else (Numeral.readInt? cs).map .int

/-- A text that writes a number becomes that number, anything else stays. -/
def numeric : Value → Value
  | .str s =>
    match numberOfText? s with
    | some n => n.value
    | none => .str s
  | v => v

/-- Is the value a string? -/
def isText : Value → Bool
  | .str _ => true
  | _ => false

/-- Beside a number a text is read as a number; two values of other types stay as they are. -/
def coerced (left right : Value) : Value × Value :=
  if left.isNumber && right.isText then (left, right.numeric)
  else if right.isNumber && left.isText then (left.numeric, right)
  else (left, right)

end Value

end NodeFlow
