import NodeFlow.Number.Binary64
/-!
# The shortest decimal text of a number

The text of a floating-point number has the fewest digits that read back as the same number, and of
those with that many digits the nearest one. The search tries one digit, two, and so on: on the grid
of decimals with so many digits only the two neighbours of the number can read back as it.

How the digits are then laid out (where exponents begin, the `.0` of a whole number, two digits of
exponent) is a separate decision and stands in `render`.
-/

set_option autoImplicit false

namespace NodeFlow.Binary64

/-! ## 1. The digits -/

/-- The number of decimal digits of a positive whole number. -/
def digitCount (n : Nat) : Nat := (Nat.toDigits 10 n).length

/-- The `p` with `10 ^ (p - 1) ≤ num / den < 10 ^ p`, for a positive ratio that is not a negative
power of ten. -/
def decimalPlace (num den : Nat) : Int :=
  if den ≤ num then (digitCount (num / den) : Int)
  else 1 - (digitCount (den / num) : Int)

/-- The ratio `c * 10 ^ s` as a numerator and a denominator. -/
def decimalRatio (c : Nat) (s : Int) : Nat × Nat :=
  if 0 ≤ s then (c * Nat.pow 10 s.toNat, 1) else (c, Nat.pow 10 (-s).toNat)

/-- Does the decimal `c * 10 ^ s` read back as the positive number `m * 2 ^ e`? -/
def readsBack (m : Nat) (e : Int) (c : Nat) (s : Int) : Bool :=
  let r := decimalRatio c s
  ofRatio false r.1 r.2 = .finite false m e

/-- The shortest decimal of the positive number `m * 2 ^ e`, which is `num / den`: tries `n` digits
and more, as long as `tries` lasts. Seventeen digits always suffice. -/
def shortestFrom (m : Nat) (e : Int) (num den : Nat) (place : Int) : Nat → Nat → Nat × Int
  | 0, _ => (0, 0)
  | tries + 1, n =>
    let s := place - n
    let up := Nat.pow 10 s.toNat
    let down := Nat.pow 10 (-s).toNat
    let low := if 0 ≤ s then num / (den * up) else num * down / den
    let high := low + 1
    let lowHits := readsBack m e low s
    let highHits := readsBack m e high s
    if lowHits && highHits then
      -- twice the number against the sum of the two neighbours, both in units of 10 ^ s
      let twice := if 0 ≤ s then (2 * num, den * up) else (2 * num * down, den)
      match compare twice.1 ((low + high) * twice.2) with
      | .lt => (low, s)
      | .gt => (high, s)
      | .eq => (if low % 2 = 0 then low else high, s)
    else if lowHits then (low, s)
    else if highHits then (high, s)
    else shortestFrom m e num den place tries (n + 1)

/-- The shortest decimal `c * 10 ^ s` of a positive number. -/
def shortest (m : Nat) (e : Int) : Nat × Int :=
  let r := if 0 ≤ e then (m * Nat.pow 2 e.toNat, 1) else (m, Nat.pow 2 (-e).toNat)
  shortestFrom m e r.1 r.2 (decimalPlace r.1 r.2) 17 1

/-! ## 2. The layout -/

/-- Digits without the zeros at their end. -/
def dropTrailingZeros (ds : List Char) : List Char :=
  (ds.reverse.dropWhile (· = '0')).reverse

/-- A positive decimal: digits, and the place of the point counted from their start. Exponents below
-4 and from 16 on are written out, others are not. -/
def layout (ds : List Char) (point : Int) : List Char :=
  let exponent := point - 1
  if exponent < -4 || 16 ≤ exponent then
    let fraction := match ds.tail with
      | [] => []
      | rest => '.' :: rest
    let sign := if exponent < 0 then '-' else '+'
    let size := Nat.toDigits 10 exponent.natAbs
    let padded := if size.length < 2 then '0' :: size else size
    ds.take 1 ++ fraction ++ 'e' :: sign :: padded
  else if point ≤ 0 then
    '0' :: '.' :: (List.replicate (-point).toNat '0' ++ ds)
  else
    let whole := ds.take point.toNat
    let fraction := ds.drop point.toNat
    whole ++ List.replicate (point.toNat - ds.length) '0' ++ '.' ::
      (if fraction.isEmpty then ['0'] else fraction)

/-- The text of a number. -/
def render : Binary64 → String
  | .nan _ => "nan"
  | .infinite negative => if negative then "-inf" else "inf"
  | .finite negative m e =>
    let body :=
      if m = 0 then ['0', '.', '0']
      else
        let d := shortest m e
        let all := Nat.toDigits 10 d.1
        layout (dropTrailingZeros all) (all.length + d.2)
    String.ofList (if negative then '-' :: body else body)

end NodeFlow.Binary64
