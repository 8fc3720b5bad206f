import NodeFlow.Run.Node
/-!
# Walking a graph

A flow runs its first node, follows the edge under the label that the node ends with, and so on until
there is no edge. Its own result is the last label. Nothing keeps it from going in circles but its
limit on the number of nodes.

The parameters of a walk are a new object each time, so concurrent walks over the same nodes do not
see each other's. They are handed down with the scene and so end with the walk.

Walks are bounded by a number of visits, far beyond what any run makes, and nested flows share it.
-/

set_option autoImplicit false

universe u

namespace NodeFlow

namespace Flow

variable {m : Type → Type u} [Performs World m]

/-! ## 1. One walk -/

/-- Tells the listeners of a moment. -/
def tell (f : Flow m) (call : HookCall) : Act World Unit :=
  .modify fun w =>
    let hooks := (f.listeners.filter fun l => l.1 = call.hook).map Prod.snd
    let events := Listener.told (fun l => Event.told l.tag call) hooks
    { w with journal := events.reverse ++ w.journal }

/-- Fails if as many nodes have run as the flow may run. -/
def checkSteps (f : Flow m) (step : Nat) : Act World Unit :=
  match f.limit with
  | .null => pure ()
  | limit => do
    if ← Act.ofFault (Value.ordered .ge (.int step) limit) then Act.fail (.tooManySteps limit)

/-- Walks on from a node, when so many nodes have run. -/
def walk (g : Graph) (f : Flow m) (shared : Shared) (visit : Nat → m Datum) :
    Nat → Nat → Nat → m Datum
  | 0, _, _ => throw .exhausted
  | fuel + 1, step, i =>
    match g[i]? with
    | none => throw .exhausted
    | some node => do
      Performs.perform (f.checkSteps step)
      Performs.perform (f.tell (.nodeStart node.name))
      let label ← tryCatch (visit i) fun e => do
        Performs.perform (f.tell (.nodeError node.name e))
        throw e
      let shown ← Performs.perform (World.view label)
      let context ← Performs.perform (Act.reads fun (w : World) => shared.view w.heap)
      Performs.perform (f.tell (.nodeEnd node.name shown context))
      match ← Performs.perform (node.follow shown) with
      | some next => walk g f shared visit fuel (step + 1) next
      | none =>
        Performs.perform (f.tell (.flowEnd (step + 1)))
        pure label

/-- One walk from the start under given parameters. -/
def traverse (g : Graph) (f : Flow m) (shared : Shared) (visit : Scene → Nat → m Datum) (fuel : Nat)
    (params : Members Datum) : m Datum :=
  match f.start with
  | none => throw (.noStart f.name)
  | some first => do
    let cell ← Performs.perform (σ := World) (Act.update fun w =>
      let r := w.heap.alloc (.dict params)
      (r.1, { w with heap := r.2 }))
    walk g f shared (visit ⟨shared, cell⟩) fuel 0 first

/-! ## 2. A whole visit -/

/-- The parameters of a scene. -/
def paramsOf (scene : Scene) : Act World (Members Datum) :=
  .reads fun w => w.heap.membersAt scene.params

/-- The parameters of a scene overlaid with those of one element of a batch, which has to be an
object. -/
def overlaid (scene : Scene) (d : Datum) : Act World (Members Datum) := fun w =>
  let base := w.heap.membersAt scene.params
  match w.heap.view d with
  | .dict (some a) _ => (.ok (Members.putAll base (w.heap.membersAt a)), w)
  | .store a _ _ => (.ok (Members.putAll base (w.heap.membersAt a)), w)
  | _ => (.error (.fault .type), w)

/-- Prepares, walks once, finishes. -/
def runOnce (g : Graph) (f : Flow m) (visit : Scene → Nat → m Datum) (fuel : Nat) (scene : Scene) :
    m Datum :=
  course (f.prep scene)
    (fun _ => do
      let params ← Performs.perform (paramsOf scene)
      f.traverse g scene.shared visit fuel params)
    (f.post scene)

/-- The batch that a flow has prepared; what counts as false is an empty one. -/
def batchOf (d : Datum) : Act World Datum := do
  if (← World.view d).truthy then pure d else World.alloc (.list [])

/-- Prepares a batch, walks once for each element in turn, finishes. -/
def runEach (g : Graph) (f : Flow m) (visit : Scene → Nat → m Datum) (fuel : Nat) (scene : Scene) :
    m Datum :=
  course (do Performs.perform (batchOf (← f.prep scene)))
    (fun batch => do
      let elements ← Performs.perform (Elements.of batch)
      let _ ← eachFrom elements.at?
        (fun d => do
          let params ← Performs.perform (overlaid scene d)
          f.traverse g scene.shared visit fuel params)
        fuel 0
      pure Datum.null)
    (f.post scene)

/-- Prepares a batch, walks for all elements at once, finishes. -/
def runTogether (g : Graph) (f : Flow (Coop World Datum)) (visit : Scene → Nat → Coop World Datum Datum)
    (fuel : Nat) (scene : Scene) : Coop World Datum Datum :=
  course (do Coop.ofAct (batchOf (← f.prep scene)))
    (fun batch => do
      let items ← Coop.ofAct (do (← Elements.of batch).all)
      let overlays ← Coop.ofAct (eachOf items (overlaid scene))
      let _ ← Coop.together (overlays.map (f.traverse g scene.shared visit fuel))
      pure Datum.null)
    (f.post scene)

end Flow

namespace Graph

/-! ## 3. Visits -/

/-- Visits a node that works at once. -/
def visit (g : Graph) : Nat → Scene → Nat → Act World Datum
  | 0, _, _ => Act.fail .exhausted
  | fuel + 1, scene, i =>
    match (g[i]?).map Node.conduct with
    | none => Act.fail .exhausted
    | some (.blocking run) => run scene
    | some (.flow false f) => f.runOnce g (visit g fuel) fuel scene
    | some (.flow true f) => f.runEach g (visit g fuel) fuel scene
    | some _ => Act.fail .onlyCooperative

/-- Visits a node of either kind. -/
def visitWaiting (g : Graph) : Nat → Scene → Nat → Coop World Datum Datum
  | 0, _, _ => throw .exhausted
  | fuel + 1, scene, i =>
    match (g[i]?).map Node.conduct with
    | some (.cooperative run) => run scene
    | some (.cooperativeFlow .once f) => f.runOnce g (visitWaiting g fuel) fuel scene
    | some (.cooperativeFlow .inTurn f) => f.runEach g (visitWaiting g fuel) fuel scene
    | some (.cooperativeFlow .together f) => f.runTogether g (visitWaiting g fuel) fuel scene
    | _ => Coop.ofAct (g.visit (fuel + 1) scene i)

end Graph

end NodeFlow
