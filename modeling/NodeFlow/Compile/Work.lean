import NodeFlow.Compile.Declared
/-!
# The work of declared nodes

What the built-in kinds prepare, and what they do with it: call a model with a filled prompt, fetch
over HTTP, copy their own data, go through a list, or choose among cases.
-/

set_option autoImplicit false

namespace NodeFlow

/-! ## 1. Prompts -/

/-- A call to a model that is ready to be made. -/
structure Prompted where
  model : Model
  prompt : Value
  name : Value

namespace Prompted

/-- Makes the call at once. -/
def call (p : Prompted) : Act World Datum := do
  World.keep (← p.model.call p.prompt p.name)

/-- Makes the call and waits for the answer if need be. -/
def callWaiting {ρ : Type} (p : Prompted) : Coop World ρ Datum := do
  let answer ← p.model.callWaiting p.prompt p.name
  Coop.ofAct (World.keep answer)

end Prompted

/-- An element of a batch: it is handed on as it is, or is what a prompt is filled with. -/
structure WorkOrder where
  item : Datum
  prompted : Option Prompted

namespace WorkOrder

/-- Carries out an order at once. -/
def carryOut (o : WorkOrder) : Act World Datum :=
  match o.prompted with
  | none => pure o.item
  | some p => p.call

/-- Carries out an order and waits if need be. -/
def carryOutWaiting {ρ : Type} (o : WorkOrder) : Coop World ρ Datum :=
  match o.prompted with
  | none => pure o.item
  | some p => p.callWaiting

end WorkOrder

/-- A request that is ready to be sent. -/
structure Request where
  client : HttpClient
  url : Value
  method : String
  headers : Value
  body : Value

namespace Request

/-- Sends a request; one that only gets something has no body. -/
def send (r : Request) : Act World Datum := do
  let body := if r.method = "GET" then Value.null else r.body
  World.keep (← r.client.fetch r.url (.str r.method) r.headers body)

end Request

namespace Declared

variable (env : Environment) (d : Declared) (scene : Scene)

/-- The name of the model that the node calls. -/
def modelName : Act World Value := do
  let work ← d.part "exec"
  let params ← World.view (.ref scene.params)
  env.modelName (work.field "model") params

/-- Prepares a call: the model is looked up first, then the prompt is filled. -/
def preparePrompt : Act World Prompted := do
  let model ← Act.ofExcept (env.modelFor d.id)
  let work ← d.part "exec"
  let prompt ← d.fill (← priorScope scene none) (Description.fieldOr work "prompt" (.str ""))
  let name ← d.modelName env scene
  pure ⟨model, prompt, name⟩

/-! ## 2. Requests -/

/-- Prepares a request: the collaborator is looked up first. -/
def prepareRequest : Act World Request := do
  let client ← Act.ofExcept (env.httpFor d.id)
  let scope ← priorScope scene none
  let work ← d.part "exec"
  let url ← d.fill scope (Description.fieldOr work "url" (.str ""))
  let method := Text.upper (Description.fieldOr work "method" (.str "GET")).plain
  let headers ← d.render scope ((work.field "headers").orElse (.ofMembers []))
  let body ← d.render scope ((work.field "body").orElse (.ofMembers []))
  pure ⟨client, url, method, headers, body⟩

/-! ## 3. Data -/

/-- A copy of the declared data, down to its last part. -/
def copyData : Act World Datum := do
  let data ← d.part "exec"
  World.keep (data.orElse (.ofMembers [])).fresh

/-! ## 4. Batches -/

/-- The path under which a batch finds its elements: that of the first input, else the node's path,
else `items`. -/
def inputPath : Act World String := do
  let prep ← d.part "prep"
  match prep.field "inputs" with
  | .list _ (first :: _) => pure (((first.field "path").name?).getD "items")
  | _ => pure (((prep.field "path").name?).getD "items")

/-- The elements of a batch: those of a list, the values of an object, nothing for null; anything else
is a single element. -/
def batchItems : Option Value → List Value
  | none | some .null => []
  | some (.list _ xs) => xs
  | some (.dict _ ms) => ms.map (·.2)
  | some v => [v]

/-- The orders for elements, with their prompts filled in turn. -/
def ordersFor (model : Model) (name template : Value) : List Value → Act World (List WorkOrder)
  | [] => pure []
  | item :: rest => do
    let prompt ← d.fill (← priorScope scene (some item)) template
    let kept ← World.keep item
    let more ← ordersFor model name template rest
    pure (⟨kept, some ⟨model, prompt, name⟩⟩ :: more)

/-- Prepares an order for every element. Without a prompt no model is looked up. -/
def workOrders : Act World (List WorkOrder) := do
  let path ← d.inputPath
  let items ← Act.reads fun (w : World) => batchItems (scene.shared.getPath? w.heap path)
  let work ← d.part "exec"
  match work.field "prompt" with
  | .null => do
    let kept ← eachOf items World.keep
    pure (kept.map fun d => ⟨d, none⟩)
  | template => do
    let model ← Act.ofExcept (env.modelFor d.id)
    let name ← d.modelName env scene
    d.ordersFor scene model name template items

/-! ## 5. Cases -/

/-- The cases that a router goes through. Its declaration has been checked to be a list of objects only
if its kind is known to be a router's. -/
def casesOf (cases : Value) : Except Fault (List Value) :=
  if !cases.truthy then .ok []
  else
    match cases with
    | .list _ xs => .ok xs
    | .dict _ ms => .ok (ms.map fun m => .str m.1)
    | .str s => .ok (s.toList.map fun c => .str (String.singleton c))
    | _ => .error .type

/-- The label of the first case that holds; a case without a condition always does. -/
def firstCase (scope : Scope) : List Value → Act World Value
  | [] => pure .null
  | case :: rest =>
    if !case.isDict then Act.fail (.fault .attribute)
    else
      match case.field "when" with
      | .null => pure (case.field "label")
      | condition => do
        if ← World.settle (Template.condition scope d.id condition) then pure (case.field "label")
        else firstCase scope rest

/-- Ends a router's visit: the visit counts, and the label is that of the first case that holds. The
last result stays the one that the router has found. -/
def route : Act World Datum := do
  d.recordVisit scene
  let scope ← priorScope scene none
  let work ← d.part "exec"
  let cases ← Act.ofFault (casesOf (work.field "cases"))
  World.keep (← d.firstCase scope cases)

end Declared

end NodeFlow
