import NodeFlow.Text.Blank
/-!
# Placeholders in a text

A placeholder is two opening braces, a body without closing braces, and two closing braces. A text is
read from left to right as plain characters and placeholders; two opening braces that no such body and
end follow are plain.

The awkward thing up front: a body of blanks alone is a placeholder too. The expression in it is then
its last blank, where any other body has its surrounding blanks cut off.
-/

set_option autoImplicit false

namespace NodeFlow.Template

/-- A part of a text: one plain character, or a placeholder by its body. -/
inductive Piece
  | plain (c : Char)
  | hole (body : List Char)
  deriving DecidableEq

namespace Piece

/-- How a part is written. -/
def text : Piece → List Char
  | .plain c => [c]
  | .hole body => '\x7b' :: '\x7b' :: body ++ ['\x7d', '\x7d']

end Piece

/-- The body of a placeholder behind its opening braces, and what follows its closing ones. -/
def readBody? : List Char → Option (List Char × List Char)
  | [] => none
  | c :: rest =>
    if c = '\x7d' then
      match rest with
      | '\x7d' :: after => some ([], after)
      | _ => none
    else (readBody? rest).map fun (body, after) => (c :: body, after)

/-- The placeholder at the very start of a text, if one is there. -/
def readHole? : List Char → Option (List Char × List Char)
  | '\x7b' :: '\x7b' :: rest =>
    match readBody? rest with
    | some (c :: body, after) => some (c :: body, after)
    | _ => none
  | _ => none

/-- The parts of a text that has at most so many characters. -/
def piecesFrom : Nat → List Char → List Piece
  | 0, _ => []
  | _ + 1, [] => []
  | fuel + 1, c :: rest =>
    match readHole? (c :: rest) with
    | some (body, after) => .hole body :: piecesFrom fuel after
    | none => .plain c :: piecesFrom fuel rest

/-- The parts of a text. -/
def pieces (cs : List Char) : List Piece :=
  piecesFrom cs.length cs

/-- The expression in a body: what stands between its blanks, or its last blank. -/
def expressionOf (body : List Char) : List Char :=
  match Text.strip body with
  | [] => body.drop (body.length - 1)
  | inner => inner

end NodeFlow.Template
