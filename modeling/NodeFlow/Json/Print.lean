import NodeFlow.Value.Notation
/-!
# Writing JSON

A value as JSON text. Two layouts exist: on one line, with a blank after every comma and colon, and
indented, with a line for every element. Text beyond the first 128 code points is written as it is;
quotes, backslashes and control characters are escaped.

JSON has no undefined value and no stores. Where one is held in a container, its notation is written
as a string; an undefined value that is written by itself is null.
-/

set_option autoImplicit false

namespace NodeFlow.Json

/-! ## 1. Strings and numbers -/

/-- One character of a string. -/
def escapeChar (c : Char) : List Char :=
  if c = '"' then ['\\', '"']
  else if c = '\\' then ['\\', '\\']
  else if c = '\n' then ['\\', 'n']
  else if c = '\r' then ['\\', 'r']
  else if c = '\t' then ['\\', 't']
  else if c.toNat = 8 then ['\\', 'b']
  else if c.toNat = 12 then ['\\', 'f']
  else if c.toNat < 32 then '\\' :: 'u' :: Text.hexPadded 4 c.toNat
  else [c]

/-- A string between quotes. -/
def writeText (s : String) : List Char :=
  '"' :: s.toList.flatMap escapeChar ++ ['"']

/-- A whole number in decimal digits. -/
def writeInt (n : Int) : List Char :=
  if n < 0 then '-' :: Nat.toDigits 10 n.natAbs else Nat.toDigits 10 n.natAbs

/-- A floating-point number; the three that have no digits are written by name. -/
def writeFloat : Binary64 → List Char
  | .nan _ => "NaN".toList
  | .infinite negative => if negative then "-Infinity".toList else "Infinity".toList
  | x => x.render.toList

/-- A value that is no container. -/
def writeAtom : Value → List Char
  | .null => "null".toList
  | .bool b => if b then "true".toList else "false".toList
  | .int n => writeInt n
  | .float x => writeFloat x
  | .str s => writeText s
  | v => writeText v.notate

/-! ## 2. One line -/

mutual

/-- A value held in a container, on one line. -/
def writeHeld : Value → List Char
  | .list _ items =>
    match items with
    | [] => ['[', ']']
    | x :: xs => '[' :: writeHeld x ++ writeItems xs
  | .dict _ members =>
    match members with
    | [] => ['\x7b', '\x7d']
    | (k, x) :: ms => '\x7b' :: writeText k ++ ':' :: ' ' :: writeHeld x ++ writeMembers ms
  | v => writeAtom v
termination_by structural v => v

/-- The elements after the first, and the closing bracket. -/
def writeItems : List Value → List Char
  | [] => [']']
  | x :: xs => ',' :: ' ' :: writeHeld x ++ writeItems xs
termination_by structural xs => xs

/-- The members after the first, and the closing brace. -/
def writeMembers : List (String × Value) → List Char
  | [] => ['\x7d']
  | (k, x) :: ms => ',' :: ' ' :: writeText k ++ ':' :: ' ' :: writeHeld x ++ writeMembers ms
termination_by structural ms => ms

end

/-- A value by itself on one line. -/
def write : Value → List Char
  | .undefined => "null".toList
  | v => writeHeld v

/-- The JSON text of a value. -/
def render (v : Value) : String :=
  String.ofList (write v)

/-! ## 3. Indented -/

/-- A line end and the indentation of a depth, two blanks each. -/
def newline (depth : Nat) : List Char :=
  '\n' :: List.replicate (2 * depth) ' '

mutual

/-- A value held at a depth, a line for every element. -/
def writeIndented (depth : Nat) : Value → List Char
  | .list _ items =>
    match items with
    | [] => ['[', ']']
    | x :: xs =>
      '[' :: newline (depth + 1) ++ writeIndented (depth + 1) x ++ indentedItems depth xs
  | .dict _ members =>
    match members with
    | [] => ['\x7b', '\x7d']
    | (k, x) :: ms =>
      '\x7b' :: newline (depth + 1) ++ writeText k ++ ':' :: ' ' :: writeIndented (depth + 1) x ++
        indentedMembers depth ms
  | v => writeAtom v
termination_by structural v => v

/-- The elements after the first, and the closing bracket on a line of its own. -/
def indentedItems (depth : Nat) : List Value → List Char
  | [] => newline depth ++ [']']
  | x :: xs =>
    ',' :: newline (depth + 1) ++ writeIndented (depth + 1) x ++ indentedItems depth xs
termination_by structural xs => xs

/-- The members after the first, and the closing brace on a line of its own. -/
def indentedMembers (depth : Nat) : List (String × Value) → List Char
  | [] => newline depth ++ ['\x7d']
  | (k, x) :: ms =>
    ',' :: newline (depth + 1) ++ writeText k ++ ':' :: ' ' :: writeIndented (depth + 1) x ++
      indentedMembers depth ms
termination_by structural ms => ms

end

/-- The indented JSON text of a value. -/
def renderIndented (v : Value) : String :=
  String.ofList (writeIndented 0 v)

end NodeFlow.Json
