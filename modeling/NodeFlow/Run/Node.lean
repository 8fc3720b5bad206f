import NodeFlow.Description.Kind
import NodeFlow.Run.Elements
import NodeFlow.Run.Retry
import NodeFlow.Run.Schedule
/-!
# Nodes and graphs

A graph is a row of nodes that refer to each other by their numbers. A node has a name, edges to
others under labels, parameters of its own, and a conduct: what happens when it is visited. It works
either at once or cooperatively; a flow is a node too, and its conduct is to walk other nodes.

Nothing about a graph changes while it runs; what changes is the state of the run.
-/

set_option autoImplicit false

universe u

namespace NodeFlow

/-- What a node is visited with: the shared context, and the parameters that count for it, which are
those of the run around it, or its own outside of any run. -/
structure Scene where
  shared : Shared
  params : Addr

/-- The moments at which a flow tells its listeners something. -/
inductive Hook
  | nodeStart | nodeEnd | nodeError | flowEnd
  deriving DecidableEq

namespace Hook

/-- All moments. -/
def all : List Hook := [.nodeStart, .nodeEnd, .nodeError, .flowEnd]

/-- The moment of a name. -/
def ofName? : String → Option Hook
  | "node_start" => some .nodeStart
  | "node_end" => some .nodeEnd
  | "node_error" => some .nodeError
  | "flow_end" => some .flowEnd
  | _ => none

end Hook

namespace HookCall

/-- The moment of what is told. -/
def hook : HookCall → Hook
  | .nodeStart _ => .nodeStart
  | .nodeEnd _ _ _ => .nodeEnd
  | .nodeError _ _ => .nodeError
  | .flowEnd _ => .flowEnd

end HookCall

/-- What can be changed about a flow until it runs: where it starts, how many nodes it may run (null
for any number), and who is told of its steps. -/
structure FlowPlan where
  name : String
  start : Option Nat
  limit : Value
  listeners : List (Hook × Listener)

/-- A flow: a plan, and its own stages before and after the walk. -/
structure Flow (m : Type → Type u) extends FlowPlan where
  prep : Scene → m Datum
  post : Scene → Datum → Datum → m Datum

/-- How a flow walks its nodes: once, or once for every element of what it prepares, in turn or all
at once. -/
inductive Fan
  | once | inTurn | together
  deriving DecidableEq

/-- What happens when a node is visited. -/
inductive Conduct : Type 1
  /-- works at once -/
  | blocking (visit : Scene → Act World Datum)
  /-- may give up control -/
  | cooperative (visit : Scene → Coop World Datum Datum)
  /-- walks nodes that work at once, once or once for each element -/
  | flow (each : Bool) (f : Flow (Act World))
  /-- walks nodes of both kinds -/
  | cooperativeFlow (fan : Fan) (f : Flow (Coop World Datum))

/-- A node. -/
structure Node : Type 1 where
  name : String
  /-- the name of its type, from which it has its own name if it is given none -/
  title : String
  /-- the names of the types that its type builds upon -/
  lineage : List String
  /-- the kind that it was declared as, if any -/
  kind : String
  wiring : Members Nat
  params : Addr
  policy : RetryPolicy
  conduct : Conduct

/-- A graph: its nodes by their numbers. -/
abbrev Graph := List Node

namespace Node

/-- Can the node be waited for? -/
def isCooperative (n : Node) : Bool :=
  match n.conduct with
  | .cooperative _ | .cooperativeFlow _ _ => true
  | _ => false

/-- Is the node a flow? -/
def isFlow (n : Node) : Bool :=
  match n.conduct with
  | .flow _ _ | .cooperativeFlow _ _ => true
  | _ => false

/-- The plan of a flow. -/
def plan? (n : Node) : Option FlowPlan :=
  match n.conduct with
  | .flow _ f => some f.toFlowPlan
  | .cooperativeFlow _ f => some f.toFlowPlan
  | _ => none

/-- A flow with its plan changed; any other node as it is. -/
def modifyPlan (n : Node) (change : FlowPlan → FlowPlan) : Node :=
  match n.conduct with
  | .flow each f => { n with conduct := .flow each { f with toFlowPlan := change f.toFlowPlan } }
  | .cooperativeFlow fan f =>
    { n with conduct := .cooperativeFlow fan { f with toFlowPlan := change f.toFlowPlan } }
  | _ => n

/-- The node that a flow starts with. -/
def start? (n : Node) : Option Nat := n.plan?.bind FlowPlan.start

/-- How a message shows a node. -/
def notate (n : Node) : String := n.title ++ "(name=" ++ Text.quoted n.name ++ ")"

/-- The node under a label: that of the label's own edge, else that of the wildcard. What counts as
false stands for the default label; a container is no label and not even looked up. -/
def next? (n : Node) (label : Value) : Except Fault (Option Nat) :=
  let key := label.orElse (.str defaultLabel)
  if !key.isHashable then .error .type
  else
    let own := match key with
      | .str l => Members.get? n.wiring l
      | _ => none
    .ok (own <|> Members.get? n.wiring wildcardLabel)

/-- The diagnostic of a node that leads elsewhere but is run by itself. -/
def ignoredNote (n : Node) (advice : String) : Diagnostic where
  code := Diagnostic.successorsIgnored
  message := "Node '" ++ n.name ++ "' won't run successors. " ++ advice
  node := .str n.name
  data := []

/-- The diagnostic of a flow that ends at a node that leads elsewhere. -/
def endNote (n : Node) (label : Value) : Diagnostic where
  code := Diagnostic.flowEnds
  message := "Flow ends: '" ++ label.plain ++ "' not found in [" ++
    joinWith ", " (n.wiring.map fun e => Text.quoted e.1) ++ "]"
  node := .str n.name
  data := [("action", label)]

/-- The node that follows; a diagnostic if there is none although the node leads elsewhere. -/
def follow (n : Node) (label : Value) : Act World (Option Nat) := do
  match ← Act.ofFault (n.next? label) with
  | some i => pure (some i)
  | none =>
    if !n.wiring.isEmpty then World.note (n.endNote label)
    pure none

end Node

/-- Prepare, work, finish: the course of a visit. -/
def course {m : Type → Type u} [Monad m] {α β : Type} (prep : m α) (work : α → m β)
    (post : α → β → m Datum) : m Datum := do
  let prepared ← prep
  let result ← work prepared
  post prepared result

end NodeFlow
