import NodeFlow.Value.Notation
/-!
# Problems of a description

Every defect that a description can have, with its wording in one place. A problem names the node or
edge that it is about; edges and nodes without a name are counted from zero.
-/

set_option autoImplicit false

namespace NodeFlow

/-- A defect of a graph description. -/
inductive Problem
  | notObject
  | missingFields (fields : List String)
  | badVersion (v : Value)
  | noNodes
  | noEdges
  | globalsNotObject
  | nodeNotObject (index : Nat)
  | nodeWithoutId (index : Nat)
  | duplicateNode (id : String)
  | unknownKind (kind : Value) (id : String) (valid : List String)
  | retryNotObject (id : String)
  | retryMax (id : String) (v : Value)
  | retryWait (id : String) (v : Value)
  | retryBackoff (id : String) (v : Value)
  | guardLimit (id : String)
  | guardExit (id : String)
  | sectionNotObject (id part : String)
  | inputPath (id : String)
  | inputList (id : String)
  | nextLabel (id : String) (v : Value)
  | outputsNotObject (id : String)
  | savesNotList (id : String)
  | savePath (id : String) (index : Nat)
  | casesNotList (id : String)
  | caseLabel (id : String) (index : Nat)
  | entryNotText (v : Value)
  | entryUnknown (id : String)
  | edgeNotObject (index : Nat)
  | edgeMissing (index : Nat) (fields : List String)
  | edgeMistyped (index : Nat) (fields : List String)
  | edgeUnknownNode (id : String)
  | duplicateEdge (source label target : String)
  | badRoute (source target label : String) (valid : List String)

namespace Problem

/-- A defect within a node. -/
def ofNode (id text : String) : String := "Node '" ++ id ++ "': " ++ text

/-- The wording of a problem. -/
def message : Problem → String
  | .notObject => "Graph description must be an object"
  | .missingFields fields =>
    "Invalid config: missing required fields (" ++ joinWith ", " fields ++ ")"
  | .badVersion v => "Invalid version format: " ++ v.notate ++ ". Expected format: pf-js/1.0"
  | .noNodes => "Config must have at least one node"
  | .noEdges => "Config must have edges array"
  | .globalsNotObject => "globals must be an object"
  | .nodeNotObject i => "Node #" ++ toString i ++ " must be an object"
  | .nodeWithoutId i => "Node #" ++ toString i ++ " has no id"
  | .duplicateNode id => "Duplicate node ID: " ++ id
  | .unknownKind kind id valid =>
    "Unknown node kind: " ++ kind.notate ++ " (node '" ++ id ++ "'). Valid kinds: " ++
      joinWith ", " valid
  | .retryNotObject id => ofNode id "retry must be an object"
  | .retryMax id v => ofNode id ("retry.max must be an integer >= 1, got " ++ v.notate)
  | .retryWait id v => ofNode id ("retry.wait must be a number >= 0, got " ++ v.notate)
  | .retryBackoff id v =>
    ofNode id ("retry.backoff must be 'fixed' or 'exponential', got " ++ v.notate)
  | .guardLimit id => ofNode id "loop_guard.max_iterations must be an integer >= 1"
  | .guardExit id => ofNode id "loop_guard.exit must be a non-empty string"
  | .sectionNotObject id part => ofNode id (part ++ " must be an object")
  | .inputPath id => ofNode id "prep.path must be a non-empty string"
  | .inputList id => ofNode id "prep.inputs must be a list of \x7bpath\x7d objects"
  | .nextLabel id v => ofNode id ("post.next must be a non-empty string, got " ++ v.notate)
  | .outputsNotObject id => ofNode id "post.outputs must be an object"
  | .savesNotList id => ofNode id "post.outputs.save must be a list"
  | .savePath id i =>
    ofNode id ("post.outputs.save #" ++ toString i ++ " needs a non-empty string path")
  | .casesNotList id => ofNode id "exec.cases must be a list"
  | .caseLabel id i => ofNode id ("exec.cases #" ++ toString i ++ " needs a non-empty string label")
  | .entryNotText v => "entry must be a node id string, got " ++ v.notate
  | .entryUnknown id => "Entry node '" ++ id ++ "' not found in nodes"
  | .edgeNotObject i => "Edge #" ++ toString i ++ " must be an object"
  | .edgeMissing i fields =>
    "Edge #" ++ toString i ++ ": missing required edge field(s): " ++ joinWith ", " fields
  | .edgeMistyped i fields =>
    "Edge #" ++ toString i ++ ": " ++ joinWith ", " fields ++ " must be a string"
  | .edgeUnknownNode id => "Edge references missing node: " ++ id
  | .duplicateEdge source label target =>
    "Duplicate edge: node '" ++ source ++ "' already routes label '" ++ label ++ "' to '" ++
      target ++ "'"
  | .badRoute source target label valid =>
    "Invalid edge routing: Node '" ++ source ++ "' cannot route to '" ++ target ++
      "' with label '" ++ label ++ "'. Valid actions: " ++ joinWith ", " valid

end Problem

end NodeFlow
