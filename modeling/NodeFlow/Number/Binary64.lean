/-!
# Binary floating-point numbers

A number of 64 bits is kept as what it denotes: a sign, a whole mantissa and a power of two. Every
operation is exact arithmetic on whole numbers followed by one rounding, to the nearest representable
number and at a tie to the even mantissa, so the awkward parts (subnormal numbers, overflow, signed
zeros) all sit in one function, `ofRatio`.

The awkward thing up front: a not-a-number differs from every number and from itself, yet a
container that holds one equals itself, because containers look at the thing held before they look at
its value. So a not-a-number may carry a label that says which one it is.
-/

set_option autoImplicit false

namespace NodeFlow

/-- A binary floating-point number of 64 bits. A finite one is `± mantissa * 2 ^ exponent`. -/
inductive Binary64
  | nan (label : Option Nat)
  | infinite (negative : Bool)
  | finite (negative : Bool) (mantissa : Nat) (exponent : Int)
  deriving DecidableEq, Inhabited

namespace Binary64

/-! ## 1. Rounding -/

/-- The least exponent; subnormal numbers and zero have it. -/
def minExponent : Int := -1074

/-- The greatest exponent of a finite number. -/
def maxExponent : Int := 971

/-- Zero, with its sign. -/
def zero (negative : Bool) : Binary64 := .finite negative 0 minExponent

/-- The ratio `num / den` in units of `2 ^ e`, as a numerator and a denominator. -/
def scaleRatio (num den : Nat) (e : Int) : Nat × Nat :=
  if 0 ≤ e then (num, den * Nat.pow 2 e.toNat) else (num * Nat.pow 2 (-e).toNat, den)

/-- A whole number times a power of two that is no fraction. -/
def scaleInt (n : Int) (e : Int) : Int := n * (Nat.pow 2 e.toNat : Nat)

/-- The whole number nearest to `num / den`; a half goes to the even neighbour. -/
def nearestEven (num den : Nat) : Nat :=
  let q := num / den
  let r := num % den
  if 2 * r > den || (2 * r = den && q % 2 = 1) then q + 1 else q

/-- The exponent at which `num / den` has 53 binary digits, or the least exponent. -/
def targetExponent (num den : Nat) : Int :=
  let e : Int := (num.log2 : Int) - (den.log2 : Int) - 53
  let s := scaleRatio num den e
  max (if s.1 / s.2 < Nat.pow 2 53 then e else e + 1) minExponent

/-- The representable number nearest to `± num / den`, infinite beyond the greatest one. -/
def ofRatio (negative : Bool) (num den : Nat) : Binary64 :=
  if num = 0 then zero negative
  else
    let e := targetExponent num den
    let s := scaleRatio num den e
    let m := nearestEven s.1 s.2
    let carried := if m = Nat.pow 2 53 then (Nat.pow 2 52, e + 1) else (m, e)
    if carried.2 > maxExponent then .infinite negative else .finite negative carried.1 carried.2

/-- The number nearest to `m * 2 ^ e`; `zeroSign` is the sign of a result that is zero. -/
def ofScaled (m : Int) (e : Int) (zeroSign : Bool) : Binary64 :=
  if m = 0 then zero zeroSign
  else if 0 ≤ e then ofRatio (m < 0) (m.natAbs * Nat.pow 2 e.toNat) 1
  else ofRatio (m < 0) m.natAbs (Nat.pow 2 (-e).toNat)

/-- The number nearest to a whole number, if one within range is. -/
def ofInt? (n : Int) : Option Binary64 :=
  match ofRatio (n < 0) n.natAbs 1 with
  | .infinite _ => none
  | x => some x

/-! ## 2. Arithmetic -/

/-- The sign of a number; a not-a-number has none. -/
def isNegative : Binary64 → Bool
  | .nan _ => false
  | .infinite s => s
  | .finite s _ _ => s

/-- Is the number zero, of either sign? -/
def isZero : Binary64 → Bool
  | .finite _ m _ => m = 0
  | _ => false

/-- The mantissa with its sign. -/
def signed (negative : Bool) (m : Nat) : Int :=
  if negative then -(m : Int) else (m : Int)

/-- The number with the other sign. A not-a-number becomes another one. -/
def neg : Binary64 → Binary64
  | .nan _ => .nan none
  | .infinite s => .infinite (!s)
  | .finite s m e => .finite (!s) m e

/-- The exact sum, rounded. Only two negative zeros have a negative zero as their sum. -/
def add : Binary64 → Binary64 → Binary64
  | .nan _, _ => .nan none
  | _, .nan _ => .nan none
  | .infinite s, .infinite t => if s = t then .infinite s else .nan none
  | .infinite s, _ => .infinite s
  | _, .infinite t => .infinite t
  | .finite s m e, .finite t n f =>
    let g := min e f
    ofScaled (scaleInt (signed s m) (e - g) + scaleInt (signed t n) (f - g)) g (s && t)

/-- The exact difference, rounded. -/
def sub (x y : Binary64) : Binary64 := x.add y.neg

/-- The exact product, rounded. -/
def mul : Binary64 → Binary64 → Binary64
  | .nan _, _ => .nan none
  | _, .nan _ => .nan none
  | .infinite s, y => if y.isZero then .nan none else .infinite (s != y.isNegative)
  | x, .infinite t => if x.isZero then .nan none else .infinite (x.isNegative != t)
  | .finite s m e, .finite t n f => ofScaled (signed (s != t) (m * n)) (e + f) (s != t)

/-- The exact quotient, rounded. The divisor is not zero. -/
def div : Binary64 → Binary64 → Binary64
  | .nan _, _ => .nan none
  | _, .nan _ => .nan none
  | .infinite _, .infinite _ => .nan none
  | .infinite s, y => .infinite (s != y.isNegative)
  | x, .infinite t => zero (x.isNegative != t)
  | .finite s m e, .finite t n f =>
    let r := scaleRatio m n (f - e)
    ofRatio (s != t) r.1 r.2

/-- The remainder that has the sign of the divisor. The divisor is not zero. -/
def mod : Binary64 → Binary64 → Binary64
  | .nan _, _ => .nan none
  | _, .nan _ => .nan none
  | .infinite _, _ => .nan none
  | .finite s m e, .infinite t =>
    if m = 0 then zero t else if s = t then .finite s m e else .infinite t
  | .finite s m e, .finite t n f =>
    let g := min e f
    let r := (m * Nat.pow 2 (e - g).toNat) % (n * Nat.pow 2 (f - g).toNat)
    if r = 0 then zero t
    else
      let rest := ofScaled (signed s r) g s
      if s = t then rest else rest.add (.finite t n f)

/-! ## 3. Order -/

/-- The order of `m * 2 ^ e` and `n * 2 ^ f`. -/
def compareScaled (m : Int) (e : Int) (n : Int) (f : Int) : Ordering :=
  let g := min e f
  compare (scaleInt m (e - g)) (scaleInt n (f - g))

/-- The order of two numbers by value; a not-a-number has no place in it. -/
def order? : Binary64 → Binary64 → Option Ordering
  | .nan _, _ => none
  | _, .nan _ => none
  | .infinite s, .infinite t => some (if s = t then .eq else if s then .lt else .gt)
  | .infinite s, _ => some (if s then .lt else .gt)
  | _, .infinite t => some (if t then .gt else .lt)
  | .finite s m e, .finite t n f => some (compareScaled (signed s m) e (signed t n) f)

/-- The order of a number and a whole number, without rounding either. -/
def orderInt? : Binary64 → Int → Option Ordering
  | .nan _, _ => none
  | .infinite s, _ => some (if s then .lt else .gt)
  | .finite s m e, n => some (compareScaled (signed s m) e n 0)

/-! ## 4. Whole numbers -/

/-- Is the number a whole number? -/
def isWhole : Binary64 → Bool
  | .finite _ m e => 0 ≤ e || m % Nat.pow 2 (-e).toNat = 0
  | _ => false

/-- The whole part of a finite number, towards zero. -/
def truncate? : Binary64 → Option Int
  | .finite s m e =>
    some (signed s (if 0 ≤ e then m * Nat.pow 2 e.toNat else m / Nat.pow 2 (-e).toNat))
  | _ => none

/-- Are the two one and the same thing? A not-a-number is the same only under the same label. -/
def same : Binary64 → Binary64 → Bool
  | .nan (some i), .nan (some j) => i = j
  | _, _ => false

end Binary64

end NodeFlow
