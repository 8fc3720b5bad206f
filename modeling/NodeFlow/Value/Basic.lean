import NodeFlow.Number.Binary64
import NodeFlow.Value.Members
/-!
# Values

The data that expressions compute with and that a graph's nodes hand on: what JSON can write, the
undefined value that a missing path gives, and a store seen as a value.

The awkward thing up front: during a run containers are shared, and a write through one name shows
under every other. A value here is a whole tree, which cannot share; so a container may carry the
number of the memory cell that it is a view of. Computing with values looks at cells nowhere; whoever
keeps a value in memory again finds by them which parts already live there.
-/

set_option autoImplicit false

namespace NodeFlow

/-- A value. -/
inductive Value
  | null
  | undefined
  | bool (b : Bool)
  | int (n : Int)
  | float (x : Binary64)
  | str (s : String)
  | list (cell : Option Nat) (items : List Value)
  | dict (cell : Option Nat) (members : List (String × Value))
  | store (cell : Nat) (name : String) (members : List (String × Value))
  deriving Inhabited

namespace Value

/-- A list that is no view of a cell. -/
def ofList (items : List Value) : Value := .list none items

/-- An object that is no view of a cell. -/
def ofMembers (members : List (String × Value)) : Value := .dict none members

/-- A value counts as true unless it is nothing, zero or empty. -/
def truthy : Value → Bool
  | .null | .undefined => false
  | .bool b => b
  | .int n => n != 0
  | .float x => !x.isZero
  | .str s => s != ""
  | .list _ items => !items.isEmpty
  | .dict _ members | .store _ _ members => !members.isEmpty

/-- Is the value a whole or floating-point number? Booleans are not numbers here. -/
def isNumber : Value → Bool
  | .int _ | .float _ => true
  | _ => false

/-- The name of a value's type, as messages show it. -/
def typeName : Value → String
  | .null => "NoneType"
  | .undefined => "_Undefined"
  | .bool _ => "bool"
  | .int _ => "int"
  | .float _ => "float"
  | .str _ => "str"
  | .list _ _ => "list"
  | .dict _ _ => "dict"
  | .store _ _ _ => "Store"

/-- The members of an object; none of anything else. -/
def members : Value → List (String × Value)
  | .dict _ ms => ms
  | _ => []

/-- The elements of a list; none of anything else. -/
def items : Value → List Value
  | .list _ xs => xs
  | _ => []

/-- What an object holds under a key, null if it has no such key. -/
def field (v : Value) (key : String) : Value :=
  (Members.get? v.members key).getD .null

/-- The value itself if it counts as true, another one otherwise. -/
def orElse (v other : Value) : Value :=
  if v.truthy then v else other

/-- Is the value an object? -/
def isDict : Value → Bool
  | .dict _ _ => true
  | _ => false

/-- Is the value a list? -/
def isList : Value → Bool
  | .list _ _ => true
  | _ => false

/-- Is the value null? -/
def isNull : Value → Bool
  | .null => true
  | _ => false

/-- The text of a non-empty string. -/
def name? : Value → Option String
  | .str s => if s = "" then none else some s
  | _ => none

/-- Can the value be a key? Containers cannot. -/
def isHashable : Value → Bool
  | .list _ _ | .dict _ _ => false
  | _ => true

end Value

end NodeFlow
