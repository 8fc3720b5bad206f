import NodeFlow.Run.NodeType
import NodeFlow.Script.Stage
/-!
# Nodes that follow a script

Any of the ten types of nodes with scripted stages. The retry settings of a node and the start of a
flow are checked and named as they are for every node.
-/

set_option autoImplicit false

universe u

namespace NodeFlow

namespace Script

/-- A node to be made: its type, the name of its own type, which builds upon that, the kind it shows,
the name it is given, and what it does. Retry settings count for every node, the start and the limit
for flows only. -/
structure Part where
  type : NodeType
  title : String
  kind : String
  name : Option String
  limit : Value
  delay : Value
  backoff : Value
  start : Option Nat
  maxSteps : Value
  script : Script

/-- The stages of a node that works at once. -/
def stages (s : Script) (name : String) (node : Nat) (scene : Scene) :
    Stages (Act World) Datum Datum where
  prep := prepare s.prep name scene
  exec := execute s.exec name node scene
  fallback := standIn s.fallback name
  post _ result :=
    match s.post with
    | none => pure .null
    | some ending => finish ending name node scene result

/-- The stages of a cooperative node. -/
def stagesWaiting (s : Script) (name : String) (node : Nat) (scene : Scene) :
    Stages (Coop World Datum) Datum Datum where
  prep := Coop.ofAct (prepare s.prep name scene)
  exec := executeWaiting s.exec name node scene
  fallback input e := Coop.ofAct (standIn s.fallback name input e)
  post _ result :=
    match s.post with
    | none => pure .null
    | some ending => Coop.ofAct (finish ending name node scene result)

/-- A flow with scripted stages. Without a script it ends with the label of its walk. -/
def flow {m : Type → Type u} [Performs World m] (p : Part) (name : String) (node : Nat) : Flow m where
  name := name
  start := p.start
  limit := p.maxSteps
  listeners := []
  prep scene := Performs.perform (prepare p.script.prep name scene)
  post scene _ result :=
    match p.script.post with
    | none => pure result
    | some ending => Performs.perform (finish ending name node scene result)

/-- The conduct of a part, as the node of a number under a name. -/
def conduct (p : Part) (policy : RetryPolicy) (name : String) (node : Nat) : Conduct :=
  let atOnce := stages p.script name node
  let waiting := stagesWaiting p.script name node
  match p.type with
  | .single => .blocking fun scene => (atOnce scene).once policy node
  | .batch =>
    .blocking fun scene => (atOnce scene).inTurn policy node Stages.batchBound fun d => do
      pure (← Elements.of d).at?
  | .waiting => .cooperative fun scene => (waiting scene).once policy node
  | .waitingBatch =>
    .cooperative fun scene => (waiting scene).inTurn policy node Stages.batchBound fun d => do
      pure (← Elements.of d).at?
  | .waitingParallel =>
    .cooperative fun scene => (waiting scene).together policy node fun d => do
      (← Elements.of d).all
  | .flow => .flow false (flow p name node)
  | .batchFlow => .flow true (flow p name node)
  | .waitingFlow => .cooperativeFlow .once (flow p name node)
  | .waitingBatchFlow => .cooperativeFlow .inTurn (flow p name node)
  | .waitingParallelFlow => .cooperativeFlow .together (flow p name node)

/-- The name of a part: the one it is given; else that of its type, behind which a flow that is given
none at all shows what it starts with. -/
def nameOf (g : Graph) (p : Part) : String :=
  match p.name with
  | some "" => p.title
  | some name => name
  | none =>
    match p.start.bind (g[·]?) with
    | some first => if p.type.walks then p.title ++ "(" ++ first.name ++ ")" else p.title
    | none => p.title

/-- Adds a part to a graph as its last node. Its parameters are a cell of its own. -/
def Part.addTo (p : Part) (g : Graph) (params : Addr) : Except Failure Graph :=
  match RetryPolicy.make p.limit p.delay p.backoff with
  | .error e => .error e
  | .ok policy =>
    let name := nameOf g p
    .ok (g ++ [{
      name := name
      title := p.title
      lineage := p.type.lineage
      kind := p.kind
      wiring := []
      params := params
      policy := policy
      conduct := conduct p policy name g.length }])

/-- What the node of a part remembers before it has run. -/
def Part.memory (p : Part) : NodeMemory :=
  { NodeMemory.blank with
    failuresLeft := ((p.script.exec.map Work.failOn).getD []).map (·.2) }

end Script

end NodeFlow
