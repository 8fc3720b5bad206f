/-!
# Blanks

Two sets of blank characters occur, and they differ in four controls: the information separators
(28 to 31) surround an expression without meaning, but do not surround a numeral. Both sets are
spelled out here, with the two ways of cutting blanks off a text.
-/

set_option autoImplicit false

namespace NodeFlow.Text

/-- The blanks beyond the first 128 code points. -/
def wideBlanks : List Nat := [
  133, 160, 5760, 8192, 8193, 8194, 8195, 8196, 8197, 8198, 8199, 8200, 8201, 8202, 8232, 8233,
  8239, 8287, 12288]

/-- A character that separates words and is cut off at the ends of a text. -/
def isBlank (c : Char) : Bool :=
  (9 ≤ c.toNat && c.toNat ≤ 13) || (28 ≤ c.toNat && c.toNat ≤ 32) || wideBlanks.contains c.toNat

/-- A character that may surround a numeral: a blank, the information separators apart. -/
def isNumeralBlank (c : Char) : Bool :=
  (9 ≤ c.toNat && c.toNat ≤ 13) || c.toNat = 32 || wideBlanks.contains c.toNat

/-- Cuts the characters of a class off both ends. -/
def stripBy (p : Char → Bool) (cs : List Char) : List Char :=
  (((cs.dropWhile p).reverse).dropWhile p).reverse

/-- Cuts the blanks off both ends. -/
def strip (cs : List Char) : List Char :=
  stripBy isBlank cs

/-- The text without the blanks at its ends. -/
def trimmed (s : String) : String :=
  String.ofList (strip s.toList)

end NodeFlow.Text
