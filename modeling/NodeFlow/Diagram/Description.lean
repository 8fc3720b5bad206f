import NodeFlow.Description.Kind
import NodeFlow.Value.Fault
import NodeFlow.Value.Notation
/-!
# Drawing a description

The Mermaid flowchart of a description as it stands, without compiling it: a line for every node, its
id and kind inside, routers in a shape of their own, and an arrow for every edge, with its label unless
that is the default one.

Nothing needs to be well-formed for a drawing. Where something is no object that has to be one, the
drawing ends in a fault.
-/

set_option autoImplicit false

namespace NodeFlow.Diagram

/-- A character that an id of a drawing may have. -/
def isIdChar (c : Char) : Bool :=
  ('A' ≤ c && c ≤ 'Z') || ('a' ≤ c && c ≤ 'z') || ('0' ≤ c && c ≤ '9') || c = '_'

/-- The id of a name in a drawing: all other characters become `_`. -/
def idOf (name : String) : String :=
  let cs := name.toList.map fun c => if isIdChar c then c else '_'
  if cs.isEmpty then "node" else String.ofList cs

/-- The first line of a drawing. -/
def header : String := "flowchart TD"

/-- The lines of a drawing as a text. -/
def ofLines (lines : List String) : String := joinWith "\n" lines

/-- An arrow between two ids. -/
def arrow (source target label : String) : String :=
  if label = defaultLabel then source ++ " --> " ++ target
  else source ++ " -->|" ++ label ++ "| " ++ target

/-- The elements to draw of a field that may be absent. -/
def elements (v : Value) : Except Fault (List Value) :=
  if !v.truthy then .ok []
  else
    match v with
    | .list _ xs => .ok xs
    | .str _ | .dict _ _ => .error .attribute
    | _ => .error .type

/-- The shape of a node with its text. -/
def shape (isRouter : Bool) (text : String) : String :=
  if isRouter then "\x7b\x7b\"" ++ text ++ "\"\x7d\x7d" else "[\"" ++ text ++ "\"]"

/-- Is a declared kind the router kind? -/
def isRouterKind : Value → Bool
  | .str k => k = "router"
  | _ => false

/-- The line of a declared node. -/
def nodeLine (node : Value) : Except Fault String :=
  if !node.isDict then .error .attribute
  else
    let id := ((Members.get? node.members "id").getD (.str "")).plain
    let text := (node.field "id").plain ++ "\\n" ++ (node.field "kind").plain
    .ok ("    " ++ idOf id ++ shape (isRouterKind (node.field "kind")) text)

/-- The line of a declared edge. -/
def edgeLine (edge : Value) : Except Fault String :=
  if !edge.isDict then .error .attribute
  else
    let label := (edge.field "label").orElse (.str defaultLabel)
    .ok ("    " ++ arrow (idOf (edge.field "from").plain) (idOf (edge.field "to").plain) label.plain)

/-- The lines of a list, up to the first fault. -/
def linesOf (line : Value → Except Fault String) : List Value → Except Fault (List String)
  | [] => .ok []
  | x :: xs =>
    match line x with
    | .error f => .error f
    | .ok s => (linesOf line xs).map (s :: ·)

/-- The drawing of a description. -/
def ofDescription (d : Value) : Except Fault String :=
  if !d.isDict then .error .attribute
  else
    match elements (d.field "nodes") with
    | .error f => .error f
    | .ok nodes =>
      match linesOf nodeLine nodes with
      | .error f => .error f
      | .ok nodeLines =>
        match elements (d.field "edges") with
        | .error f => .error f
        | .ok edges =>
          (linesOf edgeLine edges).map fun edgeLines =>
            ofLines (header :: nodeLines ++ edgeLines)

end NodeFlow.Diagram
