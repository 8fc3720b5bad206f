import NodeFlow.Number.Binary64
import NodeFlow.Text.Blank
import NodeFlow.Text.Digit
/-!
# Numerals

Reading numbers from text. Two readers share the rule for digits: a run of digits of any script, in
which single underscores may separate two digits. Blanks may surround a numeral, nothing may follow
it.
-/

set_option autoImplicit false

namespace NodeFlow.Numeral

open Text

/-! ## 1. Digits -/

/-- The rest of a run of digits. A single underscore belongs to it if a digit stands just before
(`after`) and another just behind. -/
def spanDigitsFrom (after : Bool) : List Char → List Nat × List Char
  | [] => ([], [])
  | c :: rest =>
    match digitValue? c with
    | some d => let r := spanDigitsFrom true rest; (d :: r.1, r.2)
    | none =>
      if after && c = '_' then
        let r := spanDigitsFrom false rest
        if r.1.isEmpty then ([], c :: rest) else r
      else ([], c :: rest)

/-- A run of digits with single underscores between them: the digits, and what follows the run. -/
def spanDigits (cs : List Char) : List Nat × List Char :=
  spanDigitsFrom false cs

/-- An optional sign: is the number negative, and what follows. -/
def spanSign : List Char → Bool × List Char
  | '-' :: rest => (true, rest)
  | '+' :: rest => (false, rest)
  | rest => (false, rest)

/-! ## 2. Whole numbers -/

/-- The whole number that a text writes: a sign and digits, between blanks. -/
def readInt? (cs : List Char) : Option Int :=
  let s := spanSign (stripBy isNumeralBlank cs)
  match spanDigits s.2 with
  | ([], _) => none
  | (ds, []) => some (Binary64.signed s.1 (natOfDigits ds))
  | _ => none

/-! ## 3. Floating-point numbers -/

/-- The number nearest to `± n * 10 ^ e`. Far beyond the range the power itself is not computed. -/
def ofDecimal (negative : Bool) (n : Nat) (e : Int) : Binary64 :=
  if n = 0 then .zero negative
  else
    let place := ((Nat.toDigits 10 n).length : Int) + e
    if place > 400 then .infinite negative
    else if place < -400 then .zero negative
    else if 0 ≤ e then .ofRatio negative (n * Nat.pow 10 e.toNat) 1
    else .ofRatio negative n (Nat.pow 10 (-e).toNat)

/-- An optional fraction: its digits and what follows. The point needs no digits after it. -/
def spanFraction : List Char → List Nat × List Char
  | '.' :: rest => spanDigits rest
  | rest => ([], rest)

/-- An optional exponent: its value and what follows. -/
def spanExponent (cs : List Char) : Int × List Char :=
  match cs with
  | c :: rest =>
    if c = 'e' || c = 'E' then
      let s := spanSign rest
      match spanDigits s.2 with
      | ([], _) => (0, cs)
      | (ds, after) => (Binary64.signed s.1 (natOfDigits ds), after)
    else (0, cs)
  | [] => (0, [])

/-- The names of the numbers that have no digits, in small letters. -/
def readName? (negative : Bool) (cs : List Char) : Option Binary64 :=
  let name := cs.map Char.toLower
  if name = ['i', 'n', 'f'] || name = ['i', 'n', 'f', 'i', 'n', 'i', 't', 'y'] then
    some (.infinite negative)
  else if name = ['n', 'a', 'n'] then some (.nan none)
  else none

/-- The floating-point number that a text writes: a sign, digits with a point, an exponent, between
blanks; or the name of an infinity or of a not-a-number. -/
def readFloat? (cs : List Char) : Option Binary64 :=
  let s := spanSign (stripBy isNumeralBlank cs)
  match readName? s.1 s.2 with
  | some x => some x
  | none =>
    let whole := spanDigits s.2
    let fraction := spanFraction whole.2
    if whole.1.isEmpty && fraction.1.isEmpty then none
    else
      let exponent := spanExponent fraction.2
      if exponent.2.isEmpty then
        some (ofDecimal s.1 (natOfDigits (whole.1 ++ fraction.1)) (exponent.1 - fraction.1.length))
      else none

end NodeFlow.Numeral
