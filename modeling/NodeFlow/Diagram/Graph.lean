import NodeFlow.Diagram.Description
import NodeFlow.Run.Node
/-!
# Drawing a graph

The Mermaid flowchart of everything that can be reached from the start of a flow. Nodes are told apart
by themselves and not by their names: each gets an id when it is first met, made from its name, with a
number behind it if the id is taken.
-/

set_option autoImplicit false

namespace NodeFlow.Diagram

/-- The colours of the types of nodes. -/
def colours : List (String × String) := [
  ("Node", "#e1f5fe"), ("BatchNode", "#e8f5e9"), ("AsyncNode", "#f3e5f5"),
  ("AsyncParallelBatchNode", "#ede7f6"), ("RouterNode", "#fff8e1"), ("Flow", "#fff3e0")]

/-- The colour of a node: that of its type, or of the nearest type it builds upon that has one. -/
def colourOf (n : Node) : String :=
  ((n.title :: n.lineage).findSome? fun t => colours.lookup t).getD "#f0f0f0"

/-- The n-th id to try for a name: the id of the name itself, then with numbers from two on. -/
def candidate (base : String) (n : Nat) : String :=
  if n = 0 then base else base ++ "_" ++ toString (n + 1)

/-- The first id for a name that is not taken. As many ids as are taken and one more always suffice. -/
def freshId (base : String) (taken : List String) : String :=
  (((List.range (taken.length + 1)).map (candidate base)).find? fun c => !taken.contains c).getD base

/-- The ids that have been given to nodes, in the order in which the nodes were met. -/
abbrev Ids := List (Nat × String)

/-- The ids with one for a node, and that one; new nodes are noted as pending. -/
def meet (g : Graph) (ids : Ids) (i : Nat) : Ids × String × List Nat :=
  match ids.lookup i with
  | some id => (ids, id, [])
  | none =>
    let id := freshId (idOf (((g[i]?).map Node.name).getD "")) (ids.map (·.2))
    (ids ++ [(i, id)], id, [i])

/-- What has been drawn so far: lines for nodes, and lines for edges. -/
structure Drawn where
  nodes : List String
  edges : List String

/-- Draws the edges of a node and meets their targets. -/
def drawEdges (g : Graph) (source : String) :
    List (String × Nat) → Ids → Ids × List Nat × List String
  | [], ids => (ids, [], [])
  | (label, target) :: rest, ids =>
    let met := meet g ids target
    let more := drawEdges g source rest met.1
    (more.1, met.2.2 ++ more.2.1, arrow source met.2.1 label :: more.2.2)

/-- The lines of a node itself. -/
def nodeLines (n : Node) (id : String) : List String :=
  let under := if n.kind = "" then n.title else n.kind
  [id ++ "[\"" ++ n.name ++ "\\n" ++ under ++ "\"]", "style " ++ id ++ " fill:" ++ colourOf n]

/-- Draws pending nodes in the order in which they were met. Each node is pending once, so as many
steps as there are nodes suffice. -/
def drawPending (g : Graph) : Nat → Ids → List Nat → Drawn
  | 0, _, _ => ⟨[], []⟩
  | _ + 1, _, [] => ⟨[], []⟩
  | fuel + 1, ids, i :: pending =>
    match g[i]?, ids.lookup i with
    | some n, some id =>
      let r := drawEdges g id n.wiring ids
      let rest := drawPending g fuel r.1 (pending ++ r.2.1)
      ⟨nodeLines n id ++ rest.nodes, r.2.2 ++ rest.edges⟩
    | _, _ => drawPending g fuel ids pending

/-- The drawing of what a node leads to from its start; only flows have a start. -/
def ofGraph (g : Graph) (i : Nat) : String :=
  match (g[i]?).bind Node.start? with
  | none => ofLines [header, "    Error[\"No start node found\"]"]
  | some first =>
    let met := meet g [] first
    let drawn := drawPending g (g.length + 1) met.1 met.2.2
    ofLines (header :: (drawn.nodes ++ drawn.edges).map ("    " ++ ·))

end NodeFlow.Diagram
