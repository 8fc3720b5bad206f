import NodeFlow.Failure
import NodeFlow.Json.Read
/-!
# Reading a description

A description is a JSON text whose value is an object. Replies of a model hold one among other words,
so there is a second reader: it takes the value at the leftmost opening brace at which a well-formed
object starts, whatever stands around it.
-/

set_option autoImplicit false

namespace NodeFlow.Description

/-- The description that a text writes. -/
def load (text : String) : Except Failure Value :=
  match Json.decode? text with
  | none => .error .undecodable
  | some (.dict cell ms) => .ok (.dict cell ms)
  | some v => .error (.notDescription v.typeName)

/-- The object at the very start of a text, if a well-formed one is there. -/
def objectAtFront? (cs : List Char) : Option Value :=
  match Json.readFront? cs with
  | some (.dict cell ms, _) => some (.dict cell ms)
  | _ => none

/-- The first object in a text. -/
def firstObject? : List Char → Option Value
  | [] => none
  | c :: rest =>
    if c = '\x7b' then
      match objectAtFront? (c :: rest) with
      | some v => some v
      | none => firstObject? rest
    else firstObject? rest

/-- The first object in a text. -/
def extract? (text : String) : Option Value :=
  firstObject? text.toList

end NodeFlow.Description
