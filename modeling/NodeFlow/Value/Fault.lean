/-!
# Faults

What can go wrong while values are computed. A fault says which kind of demand was not met and nothing
else: it has a name, under which notices report it, and no text of its own.
-/

set_option autoImplicit false

namespace NodeFlow

/-- Why a computation on values has no answer. -/
inductive Fault
  /-- an operand of a wrong type, or a wrong number of operands -/
  | type
  /-- an operand of the right type that denotes nothing -/
  | value
  /-- a text that is not well-formed JSON -/
  | undecodable
  /-- a division by zero -/
  | zeroDivision
  /-- a key that is not there -/
  | key
  /-- a place beyond the end -/
  | index
  /-- a number too large for its type -/
  | overflow
  /-- something asked of a thing that has no such part -/
  | attribute
  /-- something that there is no room for -/
  | memory
  deriving DecidableEq

namespace Fault

/-- The name under which a fault is reported. -/
def name : Fault → String
  | .type => "TypeError"
  | .value => "ValueError"
  | .undecodable => "JSONDecodeError"
  | .zeroDivision => "ZeroDivisionError"
  | .key => "KeyError"
  | .index => "IndexError"
  | .overflow => "OverflowError"
  | .attribute => "AttributeError"
  | .memory => "MemoryError"

/-- A fault within an expression that makes the expression itself invalid. The others are not the
expression's to answer for, and pass through whoever evaluates it. -/
def isRefused : Fault → Bool
  | .type | .value | .undecodable | .zeroDivision | .key => true
  | .index | .overflow | .attribute | .memory => false

end Fault

end NodeFlow
