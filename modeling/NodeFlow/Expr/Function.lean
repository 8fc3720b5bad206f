import NodeFlow.Json.Read
import NodeFlow.Text.Blank
import NodeFlow.Text.Casing
import NodeFlow.Value.Arithmetic
import NodeFlow.Value.Display
/-!
# Functions and methods

The functions and methods that expressions may call, and nothing beside them. Each takes a fixed
number of arguments; any other number is a fault of the call.
-/

set_option autoImplicit false

namespace NodeFlow

/-! ## 1. What they do -/

namespace Value

/-- Does one text stand within another? -/
def isWithin (needle : List Char) : List Char → Bool
  | [] => needle.isEmpty
  | c :: rest => needle.isPrefixOf (c :: rest) || isWithin needle rest

/-- Does a container hold a value: a text a part, a list an element, an object a key? -/
def includes (container needle : Value) : Except Fault Bool :=
  match container with
  | .str s => .ok (isWithin needle.display.toList s.toList)
  | .list _ xs => .ok (xs.any fun x => equalHeld x needle)
  | .dict _ ms =>
    match needle with
    | .str k => .ok (Members.has ms k)
    | .list _ _ | .dict _ _ => .error .type
    | _ => .ok false
  | _ => .ok false

/-- Does a text start with what a value shows? Nothing else starts with anything. -/
def startsWith (v part : Value) : Bool :=
  match v with
  | .str s => part.display.toList.isPrefixOf s.toList
  | _ => false

/-- Does a text end with what a value shows? -/
def endsWith (v part : Value) : Bool :=
  match v with
  | .str s => part.display.toList.isSuffixOf s.toList
  | _ => false

/-- The number of parts. -/
def length : Value → Except Fault Value
  | .str s => .ok (.int s.toList.length)
  | .list _ xs => .ok (.int xs.length)
  | .dict _ ms | .store _ _ ms => .ok (.int ms.length)
  | _ => .error .type

/-- The whole part of a floating-point number. -/
def wholeOf (x : Binary64) : Except Fault Value :=
  match x with
  | .nan _ => .error .value
  | .infinite _ => .error .overflow
  | x => .ok (.int (x.truncate?.getD 0))

/-- A value as a whole number. -/
def toWhole (v : Value) : Except Fault Value :=
  match v.numeric with
  | .int n => .ok (.int n)
  | .bool b => .ok (.int (if b then 1 else 0))
  | .float x => wholeOf x
  | .str _ => .error .value
  | _ => .error .type

/-- A value as a floating-point number. -/
def toBinary (v : Value) : Except Fault Value :=
  match v with
  | .float x => .ok (.float x)
  | .int n => (Number.int n).toBinary.map .float
  | .bool b => (Number.int (if b then 1 else 0)).toBinary.map .float
  | .str s =>
    match Numeral.readFloat? s.toList with
    | some x => .ok (.float x)
    | none => .error .value
  | _ => .error .type

/-- The value that a JSON text writes. -/
def decoded : Value → Except Fault Value
  | .str s =>
    match Json.decode? s with
    | some v => .ok v
    | none => .error .undecodable
  | _ => .error .type

end Value

/-! ## 2. Functions -/

/-- A function that expressions can call. -/
inductive Function
  | json | decode | length | lower | upper | text | whole | binary | truth | contains | exists
  deriving DecidableEq

namespace Function

/-- The function of a name. Two names write JSON. -/
def ofName? (n : String) : Option Function :=
  if n = "json" || n = "stringify" then some .json
  else if n = "parse" then some .decode
  else if n = "len" then some .length
  else if n = "lower" then some .lower
  else if n = "upper" then some .upper
  else if n = "str" then some .text
  else if n = "int" then some .whole
  else if n = "float" then some .binary
  else if n = "bool" then some .truth
  else if n = "contains" then some .contains
  else if n = "exists" then some .exists
  else none

/-- What a function gives for its arguments. -/
def apply : Function → List Value → Except Fault Value
  | .json, [v] => .ok (.str (Json.render v))
  | .decode, [v] => v.decoded
  | .length, [v] => v.length
  | .lower, [v] => .ok (.str (Text.lower v.display))
  | .upper, [v] => .ok (.str (Text.upper v.display))
  | .text, [v] => .ok (.str v.display)
  | .whole, [v] => v.toWhole
  | .binary, [v] => v.toBinary
  | .truth, [v] => .ok (.bool v.truthy)
  | .contains, [container, needle] => (container.includes needle).map .bool
  | .exists, [v] =>
    match v with
    | .null | .undefined => .ok (.bool false)
    | _ => .ok (.bool true)
  | _, _ => .error .type

end Function

/-! ## 3. Methods -/

/-- A method that expressions can call on a value. -/
inductive Method
  | includes | startsWith | endsWith | lower | upper | trim
  deriving DecidableEq

namespace Method

/-- The method of a name. -/
def ofName? (n : String) : Option Method :=
  if n = "includes" then some .includes
  else if n = "startsWith" then some .startsWith
  else if n = "endsWith" then some .endsWith
  else if n = "toLowerCase" then some .lower
  else if n = "toUpperCase" then some .upper
  else if n = "trim" then some .trim
  else none

/-- What a method gives for its receiver and arguments. -/
def apply : Method → Value → List Value → Except Fault Value
  | .includes, v, [needle] => (v.includes needle).map .bool
  | .startsWith, v, [part] => .ok (.bool (v.startsWith part))
  | .endsWith, v, [part] => .ok (.bool (v.endsWith part))
  | .lower, v, [] => .ok (.str (Text.lower v.display))
  | .upper, v, [] => .ok (.str (Text.upper v.display))
  | .trim, v, [] => .ok (.str (Text.trimmed v.display))
  | _, _, _ => .error .type

end Method

end NodeFlow
