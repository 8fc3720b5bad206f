import NodeFlow.Number.Numeral
import NodeFlow.Value.Basic
/-!
# Reading JSON

A reader for JSON text with the three names `NaN`, `Infinity` and `-Infinity`. A number with a
fraction or an exponent is a floating-point number, any other a whole one. Of a repeated key the first
place and the last content count.

The reader goes down with a bound on its depth, the length of the text: every step takes at least one
character, so the bound is never met before the text ends.
-/

set_option autoImplicit false

namespace NodeFlow.Json

/-! ## 1. Blanks and strings -/

/-- The four blanks of JSON. -/
def isSpace (c : Char) : Bool :=
  c = ' ' || c = '\t' || c = '\n' || c = '\r'

/-- What follows the blanks in front. -/
def skipSpaces (cs : List Char) : List Char :=
  cs.dropWhile isSpace

/-- The value of a hexadecimal digit. -/
def hexValue? (c : Char) : Option Nat :=
  if '0' ≤ c && c ≤ '9' then some (c.toNat - 48)
  else if 'a' ≤ c && c ≤ 'f' then some (c.toNat - 87)
  else if 'A' ≤ c && c ≤ 'F' then some (c.toNat - 55)
  else none

/-- Four hexadecimal digits: a unit of 16 bits, and what follows. -/
def readUnit? : List Char → Option (Nat × List Char)
  | a :: b :: c :: d :: rest =>
    match hexValue? a, hexValue? b, hexValue? c, hexValue? d with
    | some a, some b, some c, some d => some (((a * 16 + b) * 16 + c) * 16 + d, rest)
    | _, _, _, _ => none
  | _ => none

/-- The character of an escape of one letter. -/
def shortEscape? : Char → Option Char
  | '"' => some '"'
  | '\\' => some '\\'
  | '/' => some '/'
  | 'b' => some (Char.ofNat 8)
  | 'f' => some (Char.ofNat 12)
  | 'n' => some '\n'
  | 'r' => some '\r'
  | 't' => some '\t'
  | _ => none

/-- The character of an escape by units, and what follows it. Two units of a pair are one
character. -/
def readCodePoint? (cs : List Char) : Option (Char × List Char) :=
  match readUnit? cs with
  | none => none
  | some (high, rest) =>
    if 0xD800 ≤ high && high < 0xDC00 then
      match rest with
      | '\\' :: 'u' :: more =>
        match readUnit? more with
        | some (low, after) =>
          if 0xDC00 ≤ low && low < 0xE000 then
            some (Char.ofNat (0x10000 + (high - 0xD800) * 0x400 + (low - 0xDC00)), after)
          else some (Char.ofNat high, rest)
        | none => some (Char.ofNat high, rest)
      | _ => some (Char.ofNat high, rest)
    else some (Char.ofNat high, rest)

/-- The rest of a string behind its opening quote: its characters, and what follows the closing
quote. Control characters must be escaped. -/
def readText? : Nat → List Char → Option (List Char × List Char)
  | 0, _ => none
  | _ + 1, [] => none
  | fuel + 1, c :: rest =>
    if c = '"' then some ([], rest)
    else if c = '\\' then
      match rest with
      | [] => none
      | e :: more =>
        if e = 'u' then
          (readCodePoint? more).bind fun (ch, after) =>
            (readText? fuel after).map fun (text, tail) => (ch :: text, tail)
        else
          (shortEscape? e).bind fun ch =>
            (readText? fuel more).map fun (text, tail) => (ch :: text, tail)
    else if c.toNat < 32 then none
    else (readText? fuel rest).map fun (text, tail) => (c :: text, tail)

/-! ## 2. Numbers -/

/-- A digit of the first script. -/
def isPlainDigit (c : Char) : Bool := '0' ≤ c && c ≤ '9'

/-- The number that plain digits write. -/
def natOfPlain (ds : List Char) : Nat :=
  ds.foldl (fun n c => 10 * n + (c.toNat - 48)) 0

/-- The digits before the point: a single zero, or digits that do not start with one. -/
def readWhole? : List Char → Option (List Char × List Char)
  | '0' :: rest => some (['0'], rest)
  | c :: rest =>
    if isPlainDigit c then some ((c :: rest).span isPlainDigit) else none
  | [] => none

/-- An optional fraction. A point without digits behind it belongs to what follows. -/
def spanPlainFraction (cs : List Char) : Option (List Char) × List Char :=
  match cs with
  | '.' :: rest =>
    match rest.span isPlainDigit with
    | ([], _) => (none, cs)
    | (ds, after) => (some ds, after)
  | _ => (none, cs)

/-- An optional exponent. A letter without digits behind it belongs to what follows. -/
def spanPlainExponent (cs : List Char) : Option Int × List Char :=
  match cs with
  | c :: rest =>
    if c = 'e' || c = 'E' then
      let s := Numeral.spanSign rest
      match s.2.span isPlainDigit with
      | ([], _) => (none, cs)
      | (ds, after) => (some (Binary64.signed s.1 (natOfPlain ds)), after)
    else (none, cs)
  | [] => (none, cs)

/-- A number without its sign, and what follows. -/
def readMagnitude? (negative : Bool) (cs : List Char) : Option (Value × List Char) :=
  (readWhole? cs).map fun (whole, rest) =>
    let fraction := spanPlainFraction rest
    let exponent := spanPlainExponent fraction.2
    match fraction.1, exponent.1 with
    | none, none => (.int (Binary64.signed negative (natOfPlain whole)), exponent.2)
    | _, _ =>
      let ds := fraction.1.getD []
      (.float (Numeral.ofDecimal negative (natOfPlain (whole ++ ds)) (exponent.1.getD 0 - ds.length)),
        exponent.2)

/-! ## 3. Values -/

/-- What follows a given word in front. -/
def dropWord? : List Char → List Char → Option (List Char)
  | [], cs => some cs
  | w :: ws, c :: cs => if w = c then dropWord? ws cs else none
  | _ :: _, [] => none

/-- A value that starts with a letter, a digit or a sign, and what follows. All not-a-numbers that a
reader makes are one and the same, number zero. -/
def readAtom? (cs : List Char) : Option (Value × List Char) :=
  match cs with
  | 'n' :: rest => (dropWord? "ull".toList rest).map fun r => (.null, r)
  | 't' :: rest => (dropWord? "rue".toList rest).map fun r => (.bool true, r)
  | 'f' :: rest => (dropWord? "alse".toList rest).map fun r => (.bool false, r)
  | 'N' :: rest => (dropWord? "aN".toList rest).map fun r => (.float (.nan (some 0)), r)
  | 'I' :: rest => (dropWord? "nfinity".toList rest).map fun r => (.float (.infinite false), r)
  | '-' :: 'I' :: rest => (dropWord? "nfinity".toList rest).map fun r => (.float (.infinite true), r)
  | '-' :: rest => readMagnitude? true rest
  | _ => readMagnitude? false cs

mutual

/-- A value at the very start of a text, and what follows it. -/
def readValue? : Nat → List Char → Option (Value × List Char)
  | 0, _ => none
  | fuel + 1, cs =>
    match cs with
    | '"' :: rest => (readText? (rest.length + 1) rest).map fun (t, r) => (.str (String.ofList t), r)
    | '[' :: rest =>
      match skipSpaces rest with
      | ']' :: after => some (.ofList [], after)
      | _ => (readItems? fuel rest).map fun (xs, r) => (.ofList xs, r)
    | '\x7b' :: rest =>
      match skipSpaces rest with
      | '\x7d' :: after => some (.ofMembers [], after)
      | _ => (readMembers? fuel rest).map fun (ms, r) => (.ofMembers (Members.ofPairs ms), r)
    | _ => readAtom? cs

/-- The elements of a list up to its closing bracket. -/
def readItems? : Nat → List Char → Option (List Value × List Char)
  | 0, _ => none
  | fuel + 1, cs =>
    match readValue? fuel (skipSpaces cs) with
    | none => none
    | some (x, rest) =>
      match skipSpaces rest with
      | ',' :: more => (readItems? fuel more).map fun (xs, r) => (x :: xs, r)
      | ']' :: after => some ([x], after)
      | _ => none

/-- The members of an object up to its closing brace. -/
def readMembers? : Nat → List Char → Option (List (String × Value) × List Char)
  | 0, _ => none
  | fuel + 1, cs =>
    match skipSpaces cs with
    | '"' :: inner =>
      match readText? (inner.length + 1) inner with
      | none => none
      | some (key, rest) =>
        match skipSpaces rest with
        | ':' :: body =>
          match readValue? fuel (skipSpaces body) with
          | none => none
          | some (x, more) =>
            match skipSpaces more with
            | ',' :: next =>
              (readMembers? fuel next).map fun (ms, r) => ((String.ofList key, x) :: ms, r)
            | '\x7d' :: after => some ([(String.ofList key, x)], after)
            | _ => none
        | _ => none
    | _ => none

end

/-- The value at the very start of a text, whatever follows it. -/
def readFront? (cs : List Char) : Option (Value × List Char) :=
  readValue? (2 * cs.length + 1) cs

/-- The value that a whole text writes, between blanks. -/
def read? (cs : List Char) : Option Value :=
  match readFront? (skipSpaces cs) with
  | some (v, rest) => if (skipSpaces rest).isEmpty then some v else none
  | none => none

/-- The value of a JSON text. -/
def decode? (s : String) : Option Value :=
  read? s.toList

end NodeFlow.Json
