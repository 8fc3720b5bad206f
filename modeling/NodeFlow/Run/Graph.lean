import NodeFlow.Run.Flow
/-!
# Building and running graphs

Nodes are wired, given parameters and listened to before they run. A node can be run by itself, in
which case its edges are left alone, or as part of a flow. Cooperative nodes are driven to their end,
alone or several runs at once.
-/

set_option autoImplicit false

namespace NodeFlow.Graph

/-! ## 1. Building -/

/-- Changes one node. -/
def modifyNode (g : Graph) (i : Nat) (f : Node → Node) : Graph := g.modify i f

/-- The diagnostic of an edge that is wired over another one. -/
def overwriteNote (n : Node) (label : String) : Diagnostic where
  code := Diagnostic.successorOverwrite
  message := "Node '" ++ n.name ++ "': overwriting existing edge for action '" ++ label ++ "'"
  node := .str n.name
  data := [("action", .str label)]

/-- Wires an edge under a label. An edge that is there already is wired over, in its place, and a
diagnostic tells of it. -/
def link (g : Graph) (i : Nat) (label : String) (target : Nat) : Graph × List Diagnostic :=
  match g[i]? with
  | none => (g, [])
  | some n =>
    (g.modifyNode i fun n => { n with wiring := Members.put label target n.wiring },
      if Members.has n.wiring label then [overwriteNote n label] else [])

/-- Wires an edge under a label, which has to be a text. -/
def wire (g : Graph) (i : Nat) (label : Value) (target : Nat) :
    Except Failure (Graph × List Diagnostic) :=
  match label with
  | .str l => .ok (g.link i l target)
  | v => .error (.labelNotText v.typeName)

/-- Gives a node parameters of its own. -/
def withParams (g : Graph) (i : Nat) (params : Addr) : Graph :=
  g.modifyNode i fun n => { n with params := params }

/-- Changes the plan of a flow; only flows have one. -/
def replan (g : Graph) (i : Nat) (change : FlowPlan → FlowPlan) : Except Failure Graph :=
  if (g[i]?).any Node.isFlow then .ok (g.modifyNode i (·.modifyPlan change))
  else .error (.fault .attribute)

/-- Makes a flow start elsewhere. -/
def startAt (g : Graph) (i target : Nat) : Except Failure Graph :=
  g.replan i fun p => { p with start := some target }

/-- Makes a flow run only so many nodes. -/
def withLimit (g : Graph) (i : Nat) (limit : Value) : Except Failure Graph :=
  g.replan i fun p => { p with limit := limit }

/-- Adds a listener to a flow for one of its moments. -/
def listen (g : Graph) (i : Nat) (event : String) (l : Listener) : Except Failure Graph :=
  match Hook.ofName? event with
  | some hook => g.replan i fun p => { p with listeners := p.listeners ++ [(hook, l)] }
  | none => if (g[i]?).any Node.isFlow then .error (.unknownHook event) else .error (.fault .attribute)

/-! ## 2. Running -/

/-- The bounds on a run: the visits on the way into nested flows and along one walk, and the rounds of
a cooperative run. -/
structure Bounds where
  visits : Nat
  rounds : Nat

/-- The bounds of runs that name none, far beyond what any run makes. -/
def Bounds.standard : Bounds := ⟨1000000, 1000000000⟩

/-- Tells by a diagnostic if a node that is run by itself leads elsewhere. Flows have no such
diagnostic. -/
def noteIgnored (n : Node) (advice : String) : Act World Unit :=
  if !n.isFlow && !n.wiring.isEmpty then World.note (n.ignoredNote advice) else pure ()

/-- Runs one node in a shared context as a computation that may give up control. Nodes that only work
at once cannot be run so. -/
def startWithin (b : Bounds) (g : Graph) (i : Nat) (shared : Shared) : Coop World Datum Datum :=
  match g[i]? with
  | none => throw .exhausted
  | some n =>
    if n.isCooperative then do
      Coop.ofAct (noteIgnored n "Use AsyncFlow.")
      g.visitWaiting b.visits ⟨shared, n.params⟩ i
    else throw (.fault .attribute)

/-- Runs one cooperative node to its end. -/
def runWaitingWithin (b : Bounds) (g : Graph) (i : Nat) (shared : Shared) : Act World Datum :=
  (g.startWithin b i shared).run b.rounds

/-- Runs one node to its end. A cooperative flow is driven; a cooperative node by itself cannot be run
so. -/
def runWithin (b : Bounds) (g : Graph) (i : Nat) (shared : Shared) : Act World Datum :=
  match g[i]? with
  | none => Act.fail .exhausted
  | some n => do
    if n.isFlow && n.isCooperative then g.runWaitingWithin b i shared
    else
      noteIgnored n "Use Flow."
      g.visit b.visits ⟨shared, n.params⟩ i

/-- Runs one node in several contexts at once and collects the labels. -/
def runTogetherWithin (b : Bounds) (g : Graph) (i : Nat) (contexts : List Shared) :
    Act World Datum :=
  let all : Coop World Datum Datum := do
    let labels ← Coop.together (contexts.map (g.startWithin b i))
    Coop.ofAct (World.alloc (.list labels))
  if (g[i]?).any Node.isCooperative || contexts.isEmpty then all.run b.rounds
  else Act.fail (.fault .attribute)

/-- A run within the standard bounds. -/
def run (g : Graph) (i : Nat) (shared : Shared) : Act World Datum :=
  g.runWithin .standard i shared

/-- A run of a cooperative node within the standard bounds. -/
def runWaiting (g : Graph) (i : Nat) (shared : Shared) : Act World Datum :=
  g.runWaitingWithin .standard i shared

/-- Runs at once within the standard bounds. -/
def runTogether (g : Graph) (i : Nat) (contexts : List Shared) : Act World Datum :=
  g.runTogetherWithin .standard i contexts

end NodeFlow.Graph
