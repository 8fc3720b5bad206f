import NodeFlow.Run.Flow
/-!
# Parameters in a context variable

A node does not get its parameters handed: it asks for them, and the answer is in a variable of the context in
which it runs. A run sets the variable to a new object, walks, and puts back what was there before, however the
walk ends. Outside of any run a node answers with parameters of its own. What is started together runs in copies
of the context, one for each part.

Here this is told as it is, beside the visits to which a scene is handed down. A stage is written as a program that
may ask for the parameters at any time, be it in the middle of its work or in a part of it, after it has given up
control as often as it likes.
-/

set_option autoImplicit false

universe u

namespace NodeFlow

/-- What the variable of a context holds: where the parameters of the run are that goes on in it, if any. -/
abbrev Current := Option Addr

/-! ## 1. Programs that ask -/

/-- What a stage does: it changes the state, asks where its parameters are, gives up control, or starts parts
together and waits for them. -/
inductive Code : Type → Type 1
  | done {α : Type} (r : Except Failure α) : Code α
  | act {α β : Type} (x : World → β × World) (k : β → Code α) : Code α
  | params {α : Type} (k : Addr → Code α) : Code α
  | turn {α : Type} (k : Code α) : Code α
  | gather {α : Type} (parts : List (Code Datum)) (k : Except Failure (List Datum) → Code α) : Code α

/-- Where programs can be run step by step. -/
class Stepwise (m : Type → Type u) extends Performs World m where
  done {α : Type} : Except Failure α → m α
  act {α β : Type} : (World → β × World) → (β → m α) → m α
  turn {α : Type} : m α → m α
  gather {α : Type} : List (m Datum) → (Except Failure (List Datum) → m α) → m α

/-- Who works at once keeps control, and does the parts of something in turn. -/
instance : Stepwise (Act World) where
  done r := Act.ofExcept r
  act x k := fun w => k (x w).1 (x w).2
  turn k := k
  gather parts k := fun w => let r := eachOf parts id w; k r.1 r.2

instance : Stepwise (Coop World Datum) where
  done r := .done r
  act x k := .act x k
  turn k := .turn k
  gather parts k := .gather parts k

section

variable {m : Type → Type u} [Stepwise m] {α β : Type}

mutual

/-- A program with the answer given beforehand: wherever it asks, the parameters are at one cell. -/
def Code.given {α : Type} (cell : Addr) : Code α → m α
  | .done r => Stepwise.done r
  | .act x k => Stepwise.act x fun b => (k b).given cell
  | .params k => (k cell).given cell
  | .turn k => Stepwise.turn (k.given cell)
  | .gather parts k => Stepwise.gather (givenAll cell parts) fun r => (k r).given cell
termination_by structural x => x

/-- All parts with the answer given beforehand. -/
def givenAll (cell : Addr) : List (Code Datum) → List (m Datum)
  | [] => []
  | p :: ps => p.given cell :: givenAll cell ps
termination_by structural ps => ps

end

/-! ## 2. The variable -/

/-- A computation in a context. What it leaves in the variable is part of how it ends, also when it fails. -/
def Scoped (m : Type → Type u) (α : Type) : Type u := Current → m (Except Failure α × Current)

namespace Scoped

/-- One computation after another, unless the first fails. -/
def bind (x : Scoped m α) (f : α → Scoped m β) : Scoped m β := fun slot => do
  match ← x slot with
  | (.ok a, slot) => f a slot
  | (.error e, slot) => pure (.error e, slot)

/-- Goes on with a handler after a failure. -/
def tryCatch (x : Scoped m α) (handler : Failure → Scoped m α) : Scoped m α := fun slot => do
  match ← x slot with
  | (.ok a, slot) => pure (.ok a, slot)
  | (.error e, slot) => handler e slot

instance : Performs World (Scoped m) where
  pure a := fun slot => pure (.ok a, slot)
  bind := Scoped.bind
  throw e := fun slot => pure (.error e, slot)
  tryCatch := Scoped.tryCatch
  perform x := fun slot => Performs.perform (σ := World) fun w => (.ok ((x w).1, slot), (x w).2)

/-- Asks where the parameters are: in the variable, or with the node itself. -/
def params (own : Addr) : Scoped m Addr := fun slot => pure (.ok (slot.getD own), slot)

/-- Sets the variable and answers what was there. -/
def set (cell : Addr) : Scoped m Current := fun slot => pure (.ok slot, some cell)

/-- Puts back what was there. -/
def reset (token : Current) : Scoped m Unit := fun _ => pure (.ok (), token)

/-- Does something last, however a computation ends. -/
def ensuring (x : Scoped m α) (last : Scoped m Unit) : Scoped m α := fun slot => do
  let (r, slot) ← x slot
  match ← last slot with
  | (.ok _, slot) => pure (r, slot)
  | (.error e, slot) => pure (.error e, slot)

/-- A part that runs in a copy of a context. What it leaves in the copy is lost. -/
def copied (x : Scoped m α) (slot : Current) : m α := do
  let (r, _) ← x slot
  match r with
  | .ok a => pure a
  | .error e => throw e

/-- Parts that are started together, each in its copy of the context. -/
def together (parts : List (Scoped m Datum)) : Scoped m (List Datum) := fun slot =>
  Stepwise.gather (parts.map fun p => p.copied slot) fun r => Stepwise.done (.ok (r, slot))

/-- What works at once, as a part of what need not, in the same context. -/
def ofAct (x : Scoped (Act World) α) : Scoped (Coop World Datum) α := fun slot => Coop.ofAct (x slot)

end Scoped

mutual

/-- A program in a context: it asks the variable. -/
def Code.run {α : Type} (own : Addr) : Code α → Scoped m α
  | .done r, slot => Stepwise.done (.ok (r, slot))
  | .act x k, slot => Stepwise.act x fun b => (k b).run own slot
  | .params k, slot => (k (slot.getD own)).run own slot
  | .turn k, slot => Stepwise.turn (k.run own slot)
  | .gather parts k, slot => Stepwise.gather (runAll own slot parts) fun r => (k r).run own slot
termination_by structural x => x

/-- All parts, each in its copy of the context. -/
def runAll (own : Addr) (slot : Current) : List (Code Datum) → List (m Datum)
  | [] => []
  | p :: ps => Scoped.copied (p.run own) slot :: runAll own slot ps
termination_by structural ps => ps

end

end

/-! ## 3. Flows and nodes -/

/-- A flow whose own stages are programs. -/
structure CodedFlow extends FlowPlan where
  prep : Shared → Code Datum
  post : Shared → Datum → Datum → Code Datum

/-- What happens when a node is visited, told by programs. -/
inductive CodedConduct : Type 1
  | blocking (code : Shared → Code Datum)
  | cooperative (code : Shared → Code Datum)
  | flow (each : Bool) (f : CodedFlow)
  | cooperativeFlow (fan : Fan) (f : CodedFlow)

/-- A node that is told by programs. -/
structure CodedNode : Type 1 where
  name : String
  title : String
  lineage : List String
  kind : String
  wiring : Members Nat
  params : Addr
  policy : RetryPolicy
  conduct : CodedConduct

/-- Nodes by their numbers, told by programs. -/
abbrev CodedGraph := List CodedNode

section

variable {m : Type → Type u} [Stepwise m]

namespace CodedFlow

/-- The flow to which a scene is handed down. -/
def given (f : CodedFlow) : Flow m where
  toFlowPlan := f.toFlowPlan
  prep scene := (f.prep scene.shared).given scene.params
  post scene prepared result := (f.post scene.shared prepared result).given scene.params

/-- The flow in a context, when it is a node with parameters of its own. -/
def inContext (f : CodedFlow) (own : Addr) : Flow (Scoped m) where
  toFlowPlan := f.toFlowPlan
  prep scene := (f.prep scene.shared).run own
  post scene prepared result := (f.post scene.shared prepared result).run own

end CodedFlow

/-- The conduct of a node to which a scene is handed down. -/
def CodedConduct.given : CodedConduct → Conduct
  | .blocking code => .blocking fun scene => (code scene.shared).given scene.params
  | .cooperative code => .cooperative fun scene => (code scene.shared).given scene.params
  | .flow each f => .flow each f.given
  | .cooperativeFlow fan f => .cooperativeFlow fan f.given

/-- The node to which a scene is handed down. -/
def CodedNode.given (n : CodedNode) : Node :=
  ⟨n.name, n.title, n.lineage, n.kind, n.wiring, n.params, n.policy, n.conduct.given⟩

/-- The graph to whose nodes scenes are handed down. -/
def CodedGraph.given (g : CodedGraph) : Graph := List.map CodedNode.given g

/-! ## 4. Runs -/

/-- One walk under given parameters: sets the variable to a new object, walks, and puts back what was there. -/
def Flow.orchestrated (g : Graph) (f : Flow (Scoped m)) (shared : Shared) (visit : Nat → Scoped m Datum)
    (fuel : Nat) (params : Members Datum) : Scoped m Datum :=
  match f.start with
  | none => throw (.noStart f.name)
  | some first => do
    let cell ← Performs.perform (σ := World) (Act.update fun w =>
      let r := w.heap.alloc (.dict params)
      (r.1, { w with heap := r.2 }))
    let token ← Scoped.set cell
    Scoped.ensuring (f.walk g shared visit fuel 0 first) (Scoped.reset token)

namespace CodedFlow

variable (f : CodedFlow) (own : Addr) (g : Graph) (shared : Shared) (visit : Nat → Scoped m Datum) (fuel : Nat)

/-- Prepares, walks once, finishes. -/
def runOnce : Scoped m Datum :=
  course ((f.prep shared).run own)
    (fun _ => do
      let cell ← Scoped.params own
      let params ← Performs.perform (Flow.paramsOf ⟨shared, cell⟩)
      (f.inContext own).orchestrated g shared visit fuel params)
    fun prepared result => (f.post shared prepared result).run own

/-- Prepares a batch, walks once for each element in turn, finishes. -/
def runEach : Scoped m Datum :=
  course (do Performs.perform (Flow.batchOf (← (f.prep shared).run own)))
    (fun batch => do
      let elements ← Performs.perform (Elements.of batch)
      let _ ← eachFrom elements.at?
        (fun d => do
          let cell ← Scoped.params own
          let params ← Performs.perform (Flow.overlaid ⟨shared, cell⟩ d)
          (f.inContext own).orchestrated g shared visit fuel params)
        fuel 0
      pure Datum.null)
    fun prepared result => (f.post shared prepared result).run own

/-- Prepares a batch, walks for all elements at once, finishes. -/
def runTogether (visit : Nat → Scoped (Coop World Datum) Datum) : Scoped (Coop World Datum) Datum :=
  course (do Performs.perform (Flow.batchOf (← (f.prep shared).run own)))
    (fun batch => do
      let items ← Performs.perform (do (← Elements.of batch).all)
      let overlays ← Scoped.ofAct (eachOf items fun d => do
        let cell ← Scoped.params own
        Performs.perform (Flow.overlaid ⟨shared, cell⟩ d))
      let _ ← Scoped.together (overlays.map ((f.inContext own).orchestrated g shared visit fuel))
      pure Datum.null)
    fun prepared result => (f.post shared prepared result).run own

end CodedFlow

namespace CodedGraph

/-- Visits a node that works at once. -/
def visit (g : CodedGraph) : Nat → Shared → Nat → Scoped (Act World) Datum
  | 0, _, _ => throw .exhausted
  | fuel + 1, shared, i =>
    match g[i]? with
    | none => throw .exhausted
    | some n =>
      match n.conduct with
      | .blocking code => (code shared).run n.params
      | .flow false f => f.runOnce n.params g.given shared (visit g fuel shared) fuel
      | .flow true f => f.runEach n.params g.given shared (visit g fuel shared) fuel
      | _ => throw .onlyCooperative

/-- Visits a node of either kind. -/
def visitWaiting (g : CodedGraph) : Nat → Shared → Nat → Scoped (Coop World Datum) Datum
  | 0, _, _ => throw .exhausted
  | fuel + 1, shared, i =>
    match g[i]? with
    | some n =>
      match n.conduct with
      | .cooperative code => (code shared).run n.params
      | .cooperativeFlow .once f => f.runOnce n.params g.given shared (visitWaiting g fuel shared) fuel
      | .cooperativeFlow .inTurn f => f.runEach n.params g.given shared (visitWaiting g fuel shared) fuel
      | .cooperativeFlow .together f =>
        f.runTogether n.params g.given shared fuel (visitWaiting g fuel shared)
      | _ => Scoped.ofAct (g.visit (fuel + 1) shared i)
    | none => Scoped.ofAct (g.visit (fuel + 1) shared i)

end CodedGraph

end

end NodeFlow
