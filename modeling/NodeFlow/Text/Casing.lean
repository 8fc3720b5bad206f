import NodeFlow.Text.CaseTable
/-!
# Upper and lower case

The case forms of whole texts. Forms may be longer than the character (`ß` has the upper form `SS`),
and one letter looks around: a capital sigma that ends a word becomes a final sigma, where "ends a
word" means that a letter with case stands before it and none behind it, characters that case rules
skip not counted.
-/

set_option autoImplicit false

namespace NodeFlow.Text

/-! ## 1. Single characters -/

/-- Is a code point in one of the ranges? -/
def inRanges (ranges : List (Nat × Nat)) (n : Nat) : Bool :=
  ranges.any fun r => r.1 ≤ n && n ≤ r.2

/-- Does the character have case? -/
def isCased (c : Char) : Bool := inRanges casedRanges c.toNat

/-- Do case rules skip the character? -/
def isCaseIgnorable (c : Char) : Bool := inRanges caseIgnorableRanges c.toNat

/-- The form of a code point by a table of runs and a table of special forms. -/
def mapped (runs : List (Nat × Nat × Nat × Int)) (specials : List (Nat × List Nat)) (c : Char) :
    List Char :=
  match specials.lookup c.toNat with
  | some forms => forms.map Char.ofNat
  | none =>
    match runs.find? fun r => r.1 ≤ c.toNat && c.toNat ≤ r.2.1 && (c.toNat - r.1) % r.2.2.1 = 0 with
    | some r => [Char.ofNat ((c.toNat : Int) + r.2.2.2).toNat]
    | none => [c]

/-- The lower form of a character, its surroundings apart. -/
def lowerChar (c : Char) : List Char :=
  if c.toNat < 128 then [c.toLower] else mapped lowerRuns lowerSpecials c

/-- The upper form of a character. -/
def upperChar (c : Char) : List Char :=
  if c.toNat < 128 then [c.toUpper] else mapped upperRuns upperSpecials c

/-! ## 2. Texts -/

/-- Is the first character that case rules do not skip one with case? -/
def startsCased (cs : List Char) : Bool :=
  match cs.dropWhile isCaseIgnorable with
  | [] => false
  | c :: _ => isCased c

/-- The lower form of a text, given what stands before it, nearest first. -/
def lowerFrom (before : List Char) : List Char → List Char
  | [] => []
  | c :: rest =>
    let form :=
      if c = 'Σ' then (if startsCased before && !startsCased rest then ['ς'] else ['σ'])
      else lowerChar c
    form ++ lowerFrom (c :: before) rest

/-- The text in lower case. -/
def lower (s : String) : String :=
  String.ofList (lowerFrom [] s.toList)

/-- The text in upper case. -/
def upper (s : String) : String :=
  String.ofList (s.toList.flatMap upperChar)

end NodeFlow.Text
