import NodeFlow.Compile.Compiler
import NodeFlow.Proofs.Compile.Runs
/-!
# Handing the last result on

Templates see the result of the node that ran last. The nodes look it up in the shared context, where any node
could have changed it meanwhile. Here is what they are meant to see, said without the context: a run in which
each visit hands the result of its work on to the next one, and what templates see is that very datum.

A visit whose guard keeps it from running hands on what it was handed, and so does a router, which has no result
of its own. Everything else is as in the runs themselves. So what a node prepares, and how a router chooses, is
written down with the place open from which the last result comes, and the built-in kinds are this with the
result looked up.
-/

set_option autoImplicit false

universe u

namespace NodeFlow

/-- What templates see before a node has a result of its own, for each item or for none. -/
abbrev Prior := Option Value → Act World Scope

namespace Declared

/-- What templates see before a node has a result of its own, if the last result is handed to it. -/
def handedScope (scene : Scene) (last : Datum) : Prior := fun item => do
  scopeWith scene (← World.view last) none item

/-! ## 1. What is prepared -/

variable (env : Environment) (d : Declared) (scene : Scene) (prior : Prior)

/-- Prepares a call to a model. -/
def preparePromptFrom : Act World Prompted := do
  let model ← Act.ofExcept (env.modelFor d.id)
  let work ← d.part "exec"
  let prompt ← d.fill (← prior none) (Description.fieldOr work "prompt" (.str ""))
  let name ← d.modelName env scene
  pure ⟨model, prompt, name⟩

/-- Prepares a request. -/
def prepareRequestFrom : Act World Request := do
  let client ← Act.ofExcept (env.httpFor d.id)
  let scope ← prior none
  let work ← d.part "exec"
  let url ← d.fill scope (Description.fieldOr work "url" (.str ""))
  let method := Text.upper (Description.fieldOr work "method" (.str "GET")).plain
  let headers ← d.render scope ((work.field "headers").orElse (.ofMembers []))
  let body ← d.render scope ((work.field "body").orElse (.ofMembers []))
  pure ⟨client, url, method, headers, body⟩

/-- The orders for elements. -/
def ordersFrom (model : Model) (name template : Value) : List Value → Act World (List WorkOrder)
  | [] => pure []
  | item :: rest => do
    let prompt ← d.fill (← prior (some item)) template
    let kept ← World.keep item
    let more ← ordersFrom model name template rest
    pure (⟨kept, some ⟨model, prompt, name⟩⟩ :: more)

/-- Prepares an order for every element of a batch. -/
def workOrdersFrom : Act World (List WorkOrder) := do
  let path ← d.inputPath
  let items ← Act.reads fun (w : World) => batchItems (scene.shared.getPath? w.heap path)
  let work ← d.part "exec"
  match work.field "prompt" with
  | .null => do
    let kept ← eachOf items World.keep
    pure (kept.map fun d => ⟨d, none⟩)
  | template => do
    let model ← Act.ofExcept (env.modelFor d.id)
    let name ← d.modelName env scene
    d.ordersFrom prior model name template items

/-- Counts a visit and chooses among the cases of a router. -/
def routeFrom : Act World Datum := do
  d.recordVisit scene
  let scope ← prior none
  let work ← d.part "exec"
  let cases ← Act.ofFault (casesOf (work.field "cases"))
  World.keep (← d.firstCase scope cases)

theorem ordersFrom_priorScope (model : Model) (name template : Value) (items : List Value) :
    d.ordersFrom (priorScope scene) model name template items = d.ordersFor scene model name template items := by
  induction items with
  | nil => rfl
  | cons item rest ih => rw [ordersFrom, ordersFor, ih]

theorem workOrdersFrom_priorScope : d.workOrdersFrom env scene (priorScope scene) = d.workOrders env scene := by
  refine bind_congr fun path => bind_congr fun items => bind_congr fun work => ?_
  cases work.field "prompt" <;> simp only [ordersFrom_priorScope]

end Declared

/-! ## 2. Visits -/

/-- The errand of a visit that runs. What it prepares and how it ends is said for any place from which the last
result comes; `routes` says that it has no result of its own. -/
structure Errand (m : Type → Type u) (α : Type) where
  prep : Prior → Act World α
  work : α → m Datum
  post : Prior → Datum → Act World Datum
  routes : Bool

namespace Errand

section

variable {m : Type → Type u} [Performs World m] {α : Type}

/-- A visit that looks the last result up. -/
def lookingUp (c : Errand m α) (d : Declared) (scene : Scene) : m Datum :=
  d.guarded scene <| course (Performs.perform (c.prep (Declared.priorScope scene))) c.work fun _ result =>
    Performs.perform (c.post (Declared.priorScope scene) result)

/-- A visit that is handed the last result. It ends with its label and with what it hands on. -/
def handed (c : Errand m α) (d : Declared) (scene : Scene) (last : Datum) : m (Datum × Datum) := do
  match ← Performs.perform (d.guardExit? scene) with
  | some label => pure (.str label, last)
  | none => do
    let prepared ← Performs.perform (c.prep (Declared.handedScope scene last))
    let result ← c.work prepared
    Performs.perform (σ := World) do
      let label ← c.post (Declared.handedScope scene last) result
      pure (label, if c.routes then last else result)

/-- Work on one thing. -/
def workOn (exec : α → m Datum) (policy : RetryPolicy) (node : Nat) (a : α) : m Datum :=
  working policy node .null (exec a) fun e => throw e

/-- Work on the elements of a batch, one after another. -/
def workInOrder (exec : α → m Datum) (policy : RetryPolicy) (node : Nat) (elements : List α) : m Datum := do
  let items ← Performs.perform (σ := World) (pure elements)
  let results ← eachOf items (workOn exec policy node)
  Performs.perform (World.alloc (.list results))

end

/-- Work on all elements of a batch at once. -/
def workTogether {α : Type} (exec : α → Coop World Datum Datum) (policy : RetryPolicy) (node : Nat)
    (elements : List α) : Coop World Datum Datum := do
  let items ← Coop.ofAct (pure elements)
  let results ← Coop.together (items.map (workOn exec policy node))
  Coop.ofAct (World.alloc (.list results))

section

variable {m : Type → Type u} [Performs World m] (env : Environment) (d : Declared) (policy : RetryPolicy)
  (node : Nat) (scene : Scene)

/-- Asks a model. -/
def asks (exec : Prompted → m Datum) : Errand m Prompted where
  prep := d.preparePromptFrom env scene
  work := workOn exec policy node
  post _ result := d.finish scene result
  routes := false

/-- Goes through a batch, in one way or another. -/
def batches (work : List WorkOrder → m Datum) : Errand m (List WorkOrder) where
  prep := d.workOrdersFrom env scene
  work := work
  post _ result := d.finish scene result
  routes := false

/-- Fetches over HTTP. -/
def fetches : Errand (Act World) Request where
  prep := d.prepareRequestFrom env
  work := workOn Request.send policy node
  post _ result := d.finish scene result
  routes := false

/-- Hands on its own data. -/
def copies : Errand (Act World) Unit where
  prep _ := pure ()
  work := workOn (fun _ => d.copyData) policy node
  post _ result := d.finish scene result
  routes := false

/-- Chooses among cases. -/
def chooses : Errand (Act World) Unit where
  prep _ := pure ()
  work := workOn (fun _ => pure .null) policy node
  post prior _ := d.routeFrom scene prior
  routes := true

end

end Errand

/-- A node that is handed the last result and hands it on. -/
inductive Relay : Type 1
  | blocking (visit : Scene → Datum → Act World (Datum × Datum))
  | cooperative (visit : Scene → Datum → Coop World Datum (Datum × Datum))

namespace Relay

variable (env : Environment) (d : Declared) (policy : RetryPolicy) (node : Nat)

/-- The node of a built-in kind, if the model answers at once or if it has to be waited for. -/
def ofKind (modelWaits : Bool) : Kind → Relay
  | .llmCall =>
    if modelWaits then .cooperative fun s => (Errand.asks env d policy node s Prompted.callWaiting).handed d s
    else .blocking fun s => (Errand.asks env d policy node s Prompted.call).handed d s
  | .httpCall => .blocking fun s => (Errand.fetches env d policy node s).handed d s
  | .router => .blocking fun s => (Errand.chooses d policy node s).handed d s
  | .staticData => .blocking fun s => (Errand.copies d policy node s).handed d s
  | .batch =>
    if modelWaits then
      .cooperative fun s =>
        (Errand.batches env d s (Errand.workInOrder WorkOrder.carryOutWaiting policy node)).handed d s
    else .blocking fun s => (Errand.batches env d s (Errand.workInOrder WorkOrder.carryOut policy node)).handed d s
  | .cooperative => .cooperative fun s => (Errand.asks env d policy node s Prompted.callWaiting).handed d s
  | .cooperativeParallel =>
    .cooperative fun s =>
      (Errand.batches env d s (Errand.workTogether WorkOrder.carryOutWaiting policy node)).handed d s

/-- The node that a declaration makes under a number; nothing is made of one without a kind or a policy. -/
def ofDeclaration? (number : Nat) (declaration : Value) : Option Relay :=
  match (declaration.field "kind").name?.bind Kind.ofName?, Compiler.policyOf declaration with
  | some kind, .ok policy =>
    some (ofKind env (Terms.declaredOf declaration) policy number env.modelWaits kind)
  | _, _ => none

/-- The nodes that a description makes when it is compiled in a world. -/
def ofDescription (description : Value) (w : World) : List (Option Relay) :=
  let kept := w.heap.keep description
  (Description.nodesOf (kept.2.view kept.1)).mapIdx (ofDeclaration? env)

/-- Visits a node that works at once. -/
def visit (relays : List (Option Relay)) (scene : Scene) (last : Datum) (i : Nat) : Act World (Datum × Datum) :=
  match relays[i]?.join with
  | some (.blocking run) => run scene last
  | _ => Act.fail .exhausted

/-- Visits a node of either kind. -/
def visitWaiting (relays : List (Option Relay)) (scene : Scene) (last : Datum) (i : Nat) :
    Coop World Datum (Datum × Datum) :=
  match relays[i]?.join with
  | some (.cooperative run) => run scene last
  | _ => Coop.ofAct (visit relays scene last i)

end Relay

/-! ## 3. Walks -/

namespace Flow

variable {m : Type → Type u} [Performs World m]

/-- Walks on from a node that is handed the last result. -/
def relay (g : Graph) (f : Flow m) (shared : Shared) (visit : Datum → Nat → m (Datum × Datum)) :
    Nat → Nat → Datum → Nat → m Datum
  | 0, _, _, _ => throw .exhausted
  | fuel + 1, step, last, i =>
    match g[i]? with
    | none => throw .exhausted
    | some node => do
      Performs.perform (f.checkSteps step)
      Performs.perform (f.tell (.nodeStart node.name))
      let ended ← tryCatch (visit last i) fun e => do
        Performs.perform (f.tell (.nodeError node.name e))
        throw e
      let shown ← Performs.perform (World.view ended.1)
      let context ← Performs.perform (Act.reads fun (w : World) => shared.view w.heap)
      Performs.perform (f.tell (.nodeEnd node.name shown context))
      match ← Performs.perform (node.follow shown) with
      | some next => relay g f shared visit fuel (step + 1) ended.2 next
      | none =>
        Performs.perform (f.tell (.flowEnd (step + 1)))
        pure ended.1

/-- One walk from the start under given parameters, with a first last result. -/
def relayFromStart (g : Graph) (f : Flow m) (shared : Shared) (visit : Scene → Datum → Nat → m (Datum × Datum))
    (fuel : Nat) (last : Datum) (params : Members Datum) : m Datum :=
  match f.start with
  | none => throw (.noStart f.name)
  | some first => do
    let cell ← Performs.perform (σ := World) (Act.update fun w =>
      let r := w.heap.alloc (.dict params)
      (r.1, { w with heap := r.2 }))
    relay g f shared (visit ⟨shared, cell⟩) fuel 0 last first

/-- Prepares, walks once, finishes. -/
def relayOnce (g : Graph) (f : Flow m) (visit : Scene → Datum → Nat → m (Datum × Datum)) (fuel : Nat)
    (scene : Scene) (last : Datum) : m Datum :=
  course (f.prep scene)
    (fun _ => do
      let params ← Performs.perform (paramsOf scene)
      f.relayFromStart g scene.shared visit fuel last params)
    (f.post scene)

/-- The same under a bound on visits. -/
def relayWithin (g : Graph) (f : Flow m) (visit : Scene → Datum → Nat → m (Datum × Datum)) :
    Nat → Scene → Datum → m Datum
  | 0, _, _ => throw .exhausted
  | fuel + 1, scene, last => f.relayOnce g visit fuel scene last

end Flow

/-- Runs a compiled graph with nodes that hand the last result on, from a first one. -/
def Compiled.relayWithin (b : Graph.Bounds) (c : Compiled) (relays : List (Option Relay)) (shared : Shared)
    (last : Datum) : Act World Datum :=
  match c.flowNode?, c.flowNode?.bind Node.plan? with
  | some node, some plan =>
    if c.isCooperative then
      ((Flow.plain plan).relayWithin c.graph (Relay.visitWaiting relays) b.visits ⟨shared, node.params⟩ last).run
        b.rounds
    else (Flow.plain plan).relayWithin c.graph (Relay.visit relays) b.visits ⟨shared, node.params⟩ last
  | _, _ => Act.fail .exhausted

end NodeFlow
