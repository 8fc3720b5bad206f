import NodeFlow.Compile.Make
import NodeFlow.Run.Graph
/-!
# Compiling a description

A description becomes a graph: one node for each declaration, in their order, one edge for each declared
one, and a last node, the flow that walks them from the entry. The description is checked first, and
nothing is made of one that has problems.

The flow is cooperative if one of its nodes is. Its parameters are the common ones of the environment,
overlaid with those of the description.

A registry says which kinds there are. What is registered may turn out to make no nodes, which shows
when it is used.
-/

set_option autoImplicit false

namespace NodeFlow

/-- What is registered for a kind. -/
inductive Factory
  | kind (k : Kind)
  | custom (make : Make)
  /-- something that makes objects of another type -/
  | foreign (typeName : String)

namespace Factory

/-- The way in which a factory makes nodes, or the type of what it makes instead. -/
def make (modelWaits : Bool) : Factory → Except String Make
  | .kind k => .ok (Make.ofKind modelWaits k)
  | .custom m => .ok m
  | .foreign typeName => .error typeName

end Factory

/-- A compiler: what graphs are compiled against, the registered kinds, and those of them whose cases
are labels that a node can give. -/
structure Compiler where
  env : Environment
  registry : Members Factory
  routers : List String

/-- A compiled graph: its nodes, the ids of the declared ones by their numbers, the number of the flow,
and the name of the flow as it was declared. -/
structure Compiled where
  graph : Graph
  ids : List String
  flow : Nat
  name : Value

namespace Compiled

/-- The flow itself. -/
def flowNode? (c : Compiled) : Option Node := c.graph[c.flow]?

/-- Is the flow cooperative? -/
def isCooperative (c : Compiled) : Bool := c.flowNode?.any Node.isCooperative

/-- The declared nodes. -/
def nodes (c : Compiled) : List Node := c.graph.take c.ids.length

/-- The number of edges. -/
def edgeCount (c : Compiled) : Nat := c.nodes.foldl (fun count n => count + n.wiring.length) 0

/-- The graph with its flow limited to so many nodes. -/
def withLimit (c : Compiled) (limit : Value) : Compiled :=
  match c.graph.withLimit c.flow limit with
  | .ok g => { c with graph := g }
  | .error _ => c

/-- The graph with a listener that is told of all moments of its flow. -/
def listened (c : Compiled) (l : Listener) : Compiled :=
  let change (p : FlowPlan) : FlowPlan :=
    { p with listeners := p.listeners ++ Hook.all.map fun h => (h, l) }
  match c.graph.replan c.flow change with
  | .ok g => { c with graph := g }
  | .error _ => c

/-- Runs the graph in a context to its end. -/
def runWithin (b : Graph.Bounds) (c : Compiled) (shared : Shared) : Act World Datum :=
  c.graph.runWithin b c.flow shared

/-- Runs the graph in a context; a graph without cooperative nodes never gives up control. -/
def startWithin (b : Graph.Bounds) (c : Compiled) (shared : Shared) : Coop World Datum Datum :=
  if c.isCooperative then c.graph.startWithin b c.flow shared
  else Coop.ofAct (c.runWithin b shared)

/-- Runs the graph in several contexts at once and collects the labels. -/
def runTogetherWithin (b : Graph.Bounds) (c : Compiled) (contexts : List Shared) :
    Act World Datum :=
  let all : Coop World Datum Datum := do
    let labels ← Coop.together (contexts.map (c.startWithin b))
    Coop.ofAct (World.alloc (.list labels))
  all.run b.rounds

/-- A run within the standard bounds. -/
def run (c : Compiled) (shared : Shared) : Act World Datum := c.runWithin .standard shared

/-- Runs at once within the standard bounds. -/
def runTogether (c : Compiled) (contexts : List Shared) : Act World Datum :=
  c.runTogetherWithin .standard contexts

end Compiled

namespace Compiler

/-- The built-in kinds. -/
def builtins : Members Factory := Kind.named.map fun k => (k.1, .kind k.2)

/-- A compiler with the built-in kinds. -/
def ofEnvironment (env : Environment) : Compiler := ⟨env, builtins, Kind.routerNames⟩

/-- Registers a factory for a kind, in place of the one that is registered, if any. -/
def register (c : Compiler) (kind : String) (factory : Factory) (isRouter : Bool) :
    Except Failure Compiler :=
  if kind = "" then .error .emptyKind
  else
    .ok { c with
      registry := Members.put kind factory c.registry
      routers := if isRouter then kind :: c.routers else c.routers }

/-- The names of the registered kinds, in order. -/
def kinds (c : Compiler) : List String := Description.sortedNames (Members.keys c.registry)

/-- The problems of a description for this compiler. -/
def problems (c : Compiler) (d : Value) : Except Fault (List Problem) :=
  Description.problems (Members.keys c.registry) c.routers d

/-! ## 1. Nodes -/

/-- The retry policy of a declaration. -/
def policyOf (node : Value) : Except Failure RetryPolicy :=
  let retry := node.field "retry"
  RetryPolicy.make (Description.fieldOr retry "max" (.int 1))
    (Description.fieldOr retry "wait" (.int 0))
    (Description.fieldOr retry "backoff" (.str Backoff.fixed.name))

/-- What is registered for the kind of a declaration. -/
def factoryOf (c : Compiler) (id : String) (kind : Value) : Except Failure (String × Factory) :=
  match kind with
  | .str k =>
    match Members.get? c.registry k with
    | some f => .ok (k, f)
    | none => .error (.invalid [.unknownKind kind id c.kinds])
  | _ => .error (.invalid [.unknownKind kind id c.kinds])

/-- The address of a value in memory. -/
def addressOf : Value → Addr
  | .dict (some a) _ | .list (some a) _ | .store a _ _ => a
  | _ => 0

/-- The node that a way makes of a declaration, under a number. -/
def nodeOf (c : Compiler) (make : Make) (policy : RetryPolicy) (params : Addr) (number : Nat)
    (id : String) (declaration : Value) : Node where
  name := id
  title := make.title
  lineage := make.lineage
  kind := make.kind
  wiring := []
  params := params
  policy := policy
  conduct :=
    make.conduct c.env ⟨id, addressOf declaration, Declared.guardOf declaration⟩ policy number

/-- The node of a declaration, under a number. -/
def node (c : Compiler) (params : Addr) (number : Nat) (declaration : Value) :
    Except Failure Node := do
  let id := (declaration.field "id").plain
  let (kind, factory) ← c.factoryOf id (declaration.field "kind")
  match factory.make c.env.modelWaits, policyOf declaration with
  | .error typeName, _ => .error (.notNode kind typeName)
  | _, .error e => .error e
  | .ok make, .ok policy => .ok (c.nodeOf make policy params number id declaration)

/-- The nodes of declarations, numbered from a number on. -/
def makeNodes (c : Compiler) (params : Addr) : Nat → List Value → Except Failure (List Node)
  | _, [] => .ok []
  | number, d :: rest => do
    let first ← c.node params number d
    let more ← makeNodes c params (number + 1) rest
    .ok (first :: more)

/-! ## 2. Edges -/

/-- The number of a declared node. -/
def numberOf (ids : List String) (id : Value) : Except Failure Nat :=
  match ids.idxOf? id.plain with
  | some i => .ok i
  | none => .error (.invalid [.edgeUnknownNode id.plain])

/-- An edge between numbered nodes. -/
structure Edge where
  source : Nat
  label : String
  target : Nat

/-- The edge of a declaration. What counts as false as a label stands for the default one. -/
def edge (ids : List String) (declaration : Value) : Except Failure Edge := do
  let source ← numberOf ids (declaration.field "from")
  let target ← numberOf ids (declaration.field "to")
  .ok ⟨source, ((declaration.field "label").orElse (.str defaultLabel)).plain, target⟩

/-- Wires edges in order; the diagnostics on the way, oldest first. -/
def wireAll : List Edge → Graph → Graph × List Diagnostic
  | [], g => (g, [])
  | e :: rest, g =>
    let wired := g.link e.source e.label e.target
    let more := wireAll rest wired.1
    (more.1, wired.2 ++ more.2)

/-! ## 3. The whole -/

/-- The flow that walks from a node. -/
def flowNode (isCooperative : Bool) (name : String) (start : Nat) (params : Addr) : Node where
  name := name
  title := (if isCooperative then NodeType.waitingFlow else NodeType.flow).title
  lineage := (if isCooperative then NodeType.waitingFlow else NodeType.flow).lineage
  kind := ""
  wiring := []
  params := params
  policy := .standard
  conduct :=
    let plan : FlowPlan := ⟨name, some start, .null, []⟩
    if isCooperative then
      .cooperativeFlow .once { plan with prep := fun _ => pure .null, post := fun _ _ r => pure r }
    else .flow false { plan with prep := fun _ => pure .null, post := fun _ _ r => pure r }

/-- What a description says about nodes by their numbers: its edges, and where it starts. -/
def routesOf (ids : List String) (d : Value) : Except Failure (List Edge × Nat) := do
  let edges ← (d.field "edges").items.mapM (edge ids)
  let start ← numberOf ids (d.field "entry")
  .ok (edges, start)

/-- The graph of a description that has no problems. `own` are the parameters of the nodes themselves,
`params` those of the flow. -/
def assemble (c : Compiler) (d : Value) (own params : Addr) :
    Except Failure (Compiled × List Diagnostic) := do
  let declarations := (d.field "nodes").items
  let ids := declarations.map fun n => (n.field "id").plain
  let nodes ← c.makeNodes own 0 declarations
  match routesOf ids d with
  | .error e => .error e
  | .ok (edges, start) =>
    let wired := wireAll edges nodes
    let name := (d.field "name").orElse (d.field "entry")
    let flow := flowNode (nodes.any Node.isCooperative) name.plain start params
    .ok (⟨wired.1 ++ [flow], ids, nodes.length, name⟩, wired.2)

/-- The parameters of the flow of a description, over the common ones. -/
def paramsFor (common : Members Datum) (h : Heap) (d : Value) : Members Datum :=
  let own := match d.field "globals" with
    | .dict (some a) _ => h.membersAt a
    | _ => []
  Members.putAll common own

/-- Compiles a description, which is kept in memory if it is not there yet. Common parameters that are
no object cannot be overlaid, which shows last. -/
def compile (c : Compiler) (description : Value) (w : World) : Except Failure Compiled × World :=
  let kept := w.heap.keep description
  let d := kept.2.view kept.1
  let w := { w with heap := kept.2 }
  match c.problems d with
  | .error f => (.error (.fault f), w)
  | .ok (p :: ps) => (.error (.invalid (p :: ps)), w)
  | .ok [] =>
    let common := c.env.commonMembers? w.heap
    let own := w.heap.alloc (.dict [])
    let params := own.2.alloc (.dict (paramsFor (common.getD []) w.heap d))
    let w := { w with heap := params.2 }
    match c.assemble d own.1 params.1 with
    | .error e => (.error e, w)
    | .ok (compiled, notes) =>
      let w := (World.noteAll notes w).2
      if common.isSome then (.ok compiled, w) else (.error (.fault .type), w)

end Compiler

end NodeFlow
