import NodeFlow.Value.Basic
import NodeFlow.Value.Fault
/-!
# Diagnostics

Records of things that are suspicious without being failures: a placeholder that could not be
evaluated, a condition that counts as false because it has no value, a flow that ends although its
last node leads elsewhere. A record has a code, a message for people, the node that it is about, and
named details.
-/

set_option autoImplicit false

namespace NodeFlow

/-- A record of something suspicious. What it is about is shown by a name as a rule, and an empty one
if nothing is named. -/
structure Diagnostic where
  code : String
  message : String
  node : Value
  data : Members Value

namespace Diagnostic

/-! ## 1. Codes -/

/-- An edge was wired over another one. -/
def successorOverwrite : String := "successor_overwrite"

/-- A node that leads elsewhere was run by itself. -/
def successorsIgnored : String := "successors_ignored"

/-- A flow ended at a node that leads elsewhere. -/
def flowEnds : String := "flow_ends"

/-- A placeholder could not be evaluated. -/
def evaluationFailed : String := "evaluation_failed"

/-- A condition could not be evaluated. -/
def conditionFailed : String := "condition_failed"

/-- A loop guard kept a node from running once more. -/
def loopGuard : String := "loop_guard"

/-! ## 2. Records from details -/

/-- The names of parts that a record is given otherwise; no detail can have them. -/
def takenNames : List String := ["self", "code", "message"]

/-- A record from its details by name. A detail may name the node, unless the node is given already. -/
def ofDetails (code message : String) (node? : Option Value) (details : Members Value) :
    Except Fault Diagnostic :=
  if takenNames.any (Members.has details) then .error .type
  else
    match node?, Members.get? details "node" with
    | some _, some _ => .error .type
    | some node, none => .ok ⟨code, message, node, details⟩
    | none, some node => .ok ⟨code, message, node, Members.erase "node" details⟩
    | none, none => .ok ⟨code, message, .str "", details⟩

end Diagnostic

end NodeFlow
