import NodeFlow.Compile.Work
import NodeFlow.Run.NodeType
/-!
# Making nodes of declarations

Every kind of node as a way to make a node of its declaration. Two kinds have a second way, for a
model that has to be waited for: what calls the model then waits for it, one call at a time.

Besides the built-in kinds there can be others; whoever adds one says what its nodes do. Two small ones
are given here.
-/

set_option autoImplicit false

namespace NodeFlow

/-- A way to make nodes: the name of their type and of those it builds upon, the kind they show, and
their conduct. -/
structure Make where
  title : String
  lineage : List String
  kind : String
  conduct : Environment → Declared → RetryPolicy → Nat → Conduct

namespace Make

/-! ## 1. At once -/

/-- A node that works at once on what it has prepared. -/
def single {α : Type} (title kind : String) (prep : Environment → Declared → Scene → Act World α)
    (exec : Environment → Declared → α → Act World Datum)
    (post : Declared → Scene → Datum → Act World Datum) : Make where
  title := title
  lineage := NodeType.single.lineage
  kind := kind
  conduct env d policy node :=
    .blocking fun scene =>
      d.guarded scene <|
        Stages.once (Declared.stages (prep env d scene) (exec env d) (post d scene)) policy node

/-- Calls a model. -/
def llmCall : Make :=
  single "LLMCallNode" Kind.llmCall.name (fun env d scene => d.preparePrompt env scene)
    (fun _ _ p => p.call) Declared.finish

/-- Fetches over HTTP. -/
def httpCall : Make :=
  single "HTTPCallNode" Kind.httpCall.name (fun env d scene => d.prepareRequest env scene)
    (fun _ _ r => r.send) Declared.finish

/-- Chooses among cases. -/
def router : Make :=
  single "RouterNode" Kind.router.name (fun _ _ _ => pure ()) (fun _ _ _ => pure .null)
    (fun d scene _ => d.route scene)

/-- Hands on its own data. -/
def staticData : Make :=
  single "StaticDataNode" Kind.staticData.name (fun _ _ _ => pure ()) (fun _ d _ => d.copyData)
    Declared.finish

/-- Goes through a list, one element after another. -/
def batch : Make where
  title := "BatchMapNode"
  lineage := NodeType.batch.lineage
  kind := Kind.batch.name
  conduct env d policy node :=
    .blocking fun scene =>
      d.guarded scene <|
        Stages.inOrder
          (Declared.stages (d.workOrders env scene) WorkOrder.carryOut (d.finish scene)) policy node
          pure

/-! ## 2. Waiting -/

/-- Calls a model and waits. -/
def cooperative : Make where
  title := "CooperativeLLMNode"
  lineage := NodeType.waiting.lineage
  kind := Kind.cooperative.name
  conduct env d policy node :=
    .cooperative fun scene =>
      d.guarded scene <|
        Stages.once
          (Declared.stages (d.preparePrompt env scene) Prompted.callWaiting (d.finish scene)) policy
          node

/-- Goes through a list, one element after another, and waits for each. -/
def cooperativeBatch : Make where
  title := "CooperativeBatchNode"
  lineage := NodeType.waitingBatch.lineage
  kind := Kind.batch.name
  conduct env d policy node :=
    .cooperative fun scene =>
      d.guarded scene <|
        Stages.inOrder
          (Declared.stages (d.workOrders env scene) WorkOrder.carryOutWaiting (d.finish scene)) policy
          node pure

/-- Goes through a list, all elements at once. -/
def cooperativeParallel : Make where
  title := "CooperativeParallelNode"
  lineage := NodeType.waitingParallel.lineage
  kind := Kind.cooperativeParallel.name
  conduct env d policy node :=
    .cooperative fun scene =>
      d.guarded scene <|
        Stages.together
          (Declared.stages (d.workOrders env scene) WorkOrder.carryOutWaiting (d.finish scene)) policy
          node pure

/-- The way of a built-in kind, if the model answers at once or if it has to be waited for. -/
def ofKind (modelWaits : Bool) : Kind → Make
  | .llmCall => if modelWaits then cooperative else llmCall
  | .httpCall => httpCall
  | .router => router
  | .staticData => staticData
  | .batch => if modelWaits then cooperativeBatch else batch
  | .cooperative => cooperative
  | .cooperativeParallel => cooperativeParallel

/-! ## 3. Two kinds beside the built-in ones -/

/-- A text in capitals with a mark behind it; only texts have capitals. -/
def loud : Value → Act World Datum
  | .str s => pure (.str (Text.upper s ++ "!"))
  | _ => Act.fail (.fault .attribute)

/-- Fills a word and says it loudly. -/
def shout : Make :=
  single "Shout" ""
    (fun _ d scene => do
      let work ← d.part "exec"
      d.fill (← Declared.priorScope scene none) (Description.fieldOr work "word" (.str "")))
    (fun _ _ word => loud word) Declared.finish

/-- The label of the first of some cases, whatever it demands. -/
def firstLabel (work : Value) : Except Fault Value :=
  match Members.get? work.members "cases" with
  | none => .error .key
  | some (.list _ []) | some (.str "") => .error .index
  | some (.list _ (.dict _ ms :: _)) =>
    match Members.get? ms "label" with
    | some label => .ok label
    | none => .error .key
  | some (.dict _ _) => .error .key
  | some _ => .error .type

/-- Always gives the label of its first case. -/
def coin : Make :=
  single "Coin" "" (fun _ _ _ => pure ()) (fun _ _ _ => pure .null) fun d _ _ => do
    World.keep (← Act.ofFault (firstLabel (← d.part "exec")))

end Make

end NodeFlow
