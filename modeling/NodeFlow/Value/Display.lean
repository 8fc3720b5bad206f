import NodeFlow.Json.Print
/-!
# The text of a value in templates

What a placeholder shows. A string shows as itself, a floating-point number that is whole shows
without its point, containers show as JSON; the rest has the notation of JSON too, save that the
undefined value has a name here and a store shows its notation.
-/

set_option autoImplicit false

namespace NodeFlow.Value

/-- The text that a placeholder shows for a value. -/
def display : Value → String
  | .str s => s
  | .undefined => "undefined"
  | .null => "null"
  | .bool b => if b then "true" else "false"
  | .int n => toString n
  | .float x =>
    match x.isWhole, x.truncate? with
    | true, some n => toString n
    | _, _ => x.render
  | .list cell items => Json.render (.list cell items)
  | .dict cell members => Json.render (.dict cell members)
  | .store _ name members => storeNotation name (members.map (·.1))

end NodeFlow.Value
