import NodeFlow.Number.Shortest
import NodeFlow.Text.Quoted
import NodeFlow.Value.Basic
/-!
# The notation of values in messages

How a message shows a value. Strings are quoted, containers are written out with their parts in the
same notation, and a store shows its name and its keys only.
-/

set_option autoImplicit false

namespace NodeFlow

/-- Parts with a separator between each two. -/
def joinWith (separator : String) (parts : List String) : String :=
  separator.intercalate parts

namespace Value

/-- A store shows its name and its keys, never its content. -/
def storeNotation (name : String) (keys : List String) : String :=
  "Store(name=" ++ Text.quoted name ++ ", keys=[" ++ joinWith ", " (keys.map Text.quoted) ++ "])"

mutual

/-- The notation of a value. -/
def notate : Value → String
  | .null => "None"
  | .undefined => "undefined"
  | .bool b => if b then "True" else "False"
  | .int n => toString n
  | .float x => x.render
  | .str s => Text.quoted s
  | .list _ items => "[" ++ joinWith ", " (notateItems items) ++ "]"
  | .dict _ members => "\x7b" ++ joinWith ", " (notateMembers members) ++ "\x7d"
  | .store _ name members => storeNotation name (members.map (·.1))
termination_by structural v => v

/-- The notation of the elements of a list. -/
def notateItems : List Value → List String
  | [] => []
  | x :: xs => notate x :: notateItems xs
termination_by structural xs => xs

/-- The notation of the members of an object. -/
def notateMembers : List (String × Value) → List String
  | [] => []
  | (k, x) :: ms => (Text.quoted k ++ ": " ++ notate x) :: notateMembers ms
termination_by structural ms => ms

end

/-- A string as it is, any other value in the notation of messages. -/
def plain : Value → String
  | .str s => s
  | v => v.notate

end Value

end NodeFlow
