import NodeFlow.Text.Quoted
import NodeFlow.Value.Display
import NodeFlow.Value.Fault
/-!
# Why an expression has no value

Every reason for which a text is no expression or an expression has no value, and its wording in one
place. A fault has no wording; a message that would end in one ends in its name between angle
brackets.
-/

set_option autoImplicit false

namespace NodeFlow

/-- Why a text is no expression, or an expression has no value. -/
inductive Reason
  /-- the text has nothing but blanks -/
  | empty
  /-- no token starts at this place of the text -/
  | stray (offset : Nat) (c : Char)
  /-- another token stands where this one must -/
  | expected (token got : String)
  /-- a token that cannot stand here -/
  | unexpected (token : String)
  /-- what follows a point is no name -/
  | noProperty (got : String)
  /-- the text ends within an expression -/
  | ended
  | unknownName (name : String)
  | unknownFunction (name : String)
  | unknownMethod (name : String)
  | cannotNegate (v : Value)
  /-- an operator whose operands are not both numbers -/
  | needsNumbers (operator : String) (left right : Value)
  /-- a method of a value that is missing -/
  | cannotCall (method : String) (receiver : Value)
  | fault (f : Fault)

namespace Reason

/-- The wording of a reason. -/
def message : Reason → String
  | .empty => "empty expression"
  | .stray offset c =>
    "unexpected character at offset " ++ toString offset ++ ": " ++ Text.quoted (String.singleton c)
  | .expected token got => "expected '" ++ token ++ "', got " ++ Text.quoted got
  | .unexpected token => "unexpected token " ++ Text.quoted token
  | .noProperty got => "expected a property name after '.', got " ++ Text.quoted got
  | .ended => "unexpected end of expression"
  | .unknownName name => "unknown name '" ++ name ++ "'"
  | .unknownFunction name => "unknown function '" ++ name ++ "'"
  | .unknownMethod name => "unknown method '" ++ name ++ "'"
  | .cannotNegate v => "cannot negate " ++ v.notate
  | .needsNumbers operator left right =>
    "'" ++ operator ++ "' needs numbers, got " ++ Text.quoted left.display ++ " and " ++
      Text.quoted right.display
  | .cannotCall method receiver => "cannot call '" ++ method ++ "' on " ++ receiver.display
  | .fault f => "<" ++ f.name ++ ">"

end Reason

/-- A text that could not be evaluated, and why. -/
structure Rejection where
  source : String
  reason : Reason

namespace Rejection

/-- The wording of a rejection. -/
def message (r : Rejection) : String :=
  "cannot evaluate " ++ Text.quoted r.source ++ ": " ++ r.reason.message

end Rejection

end NodeFlow
