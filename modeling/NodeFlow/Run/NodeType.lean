/-!
# Types of nodes

The ten types of nodes: a node does its work once, or once for each element of a batch; it works at
once or cooperatively; it works itself or walks other nodes. Each type builds upon simpler ones, and
whoever asks for a property of a type looks through those from the nearest on.
-/

set_option autoImplicit false

namespace NodeFlow

/-- A type of nodes. -/
inductive NodeType
  | single | batch
  | waiting | waitingBatch | waitingParallel
  | flow | batchFlow
  | waitingFlow | waitingBatchFlow | waitingParallelFlow
  deriving DecidableEq

namespace NodeType

/-- All types. -/
def all : List NodeType :=
  [.single, .batch, .waiting, .waitingBatch, .waitingParallel, .flow, .batchFlow, .waitingFlow,
    .waitingBatchFlow, .waitingParallelFlow]

/-- The name of a type. -/
def title : NodeType → String
  | .single => "Node"
  | .batch => "BatchNode"
  | .waiting => "AsyncNode"
  | .waitingBatch => "AsyncBatchNode"
  | .waitingParallel => "AsyncParallelBatchNode"
  | .flow => "Flow"
  | .batchFlow => "BatchFlow"
  | .waitingFlow => "AsyncFlow"
  | .waitingBatchFlow => "AsyncBatchFlow"
  | .waitingParallelFlow => "AsyncParallelBatchFlow"

/-- The type of a name. -/
def ofTitle? (s : String) : Option NodeType :=
  all.find? fun t => t.title = s

/-- The types that a type builds upon, itself first. -/
def line : NodeType → List NodeType
  | .single => [.single]
  | .batch => [.batch, .single]
  | .waiting => [.waiting, .single]
  | .waitingBatch => [.waitingBatch, .waiting, .single]
  | .waitingParallel => [.waitingParallel, .waiting, .single]
  | .flow => [.flow, .single]
  | .batchFlow => [.batchFlow, .flow, .single]
  | .waitingFlow => [.waitingFlow, .flow, .waiting, .single]
  | .waitingBatchFlow => [.waitingBatchFlow, .waitingFlow, .flow, .waiting, .single]
  | .waitingParallelFlow => [.waitingParallelFlow, .waitingFlow, .flow, .waiting, .single]

/-- The names of the types that a type builds upon, its own first. -/
def lineage (t : NodeType) : List String := t.line.map title

/-- Do nodes of a type walk other nodes? -/
def walks : NodeType → Bool
  | .flow | .batchFlow | .waitingFlow | .waitingBatchFlow | .waitingParallelFlow => true
  | _ => false

end NodeType

end NodeFlow
