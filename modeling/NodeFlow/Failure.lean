import NodeFlow.Description.Problem
import NodeFlow.Value.Combine
/-!
# Failures

Why a run, a compilation or a call ended without a result. A failure is a cause with its parts; its
wording is made in one place, and a failure that is nothing but a fault has none.
-/

set_option autoImplicit false

namespace NodeFlow

/-- The kinds of trouble that stages and collaborators report on their own account. -/
inductive Trouble
  | value | runtime | connection | timeout
  deriving DecidableEq

/-- Why there is no result. -/
inductive Failure
  /-- a fault of some computation on values -/
  | fault (f : Fault)
  /-- operands that cannot be combined -/
  | operands (f : OperandFault)
  /-- a stage or a collaborator reported trouble -/
  | reported (kind : Trouble) (text : String)
  /-- a call to a collaborator could not be carried out -/
  | execution (text : String)
  /-- a text that is no JSON was to be a description -/
  | undecodable
  /-- a description is another type of value -/
  | notDescription (typeName : String)
  /-- a description has problems -/
  | invalid (problems : List Problem)
  /-- what was registered for a kind makes something that is no node -/
  | notNode (kind typeName : String)
  /-- a node needs a collaborator that was not given -/
  | missingCollaborator (collaborator node : String)
  /-- a request did not lead to a graph -/
  | generation (text : String)
  | noStart (flow : String)
  /-- as many nodes as a flow may run have run -/
  | tooManySteps (limit : Value)
  /-- a cooperative node was to run without giving way -/
  | onlyCooperative
  | retryCount (v : Value)
  | retryDelay (v : Value)
  | retryBackoff (v : Value)
  | unknownHook (event : String)
  | emptyKind
  /-- a store lacks keys that its schema requires -/
  | missingKeys (store : String) (keys : List String)
  | labelNotText (typeName : String)
  /-- a store's schema allows other types under a key -/
  | wrongType (store key expected got : String)
  /-- the bound on the work of a run was met; no run of finite length meets it -/
  | exhausted

namespace Failure

/-- The problems that a rejected description is reported with. -/
def problems? : Failure → Option (List String)
  | .notDescription typeName => some ["Graph description must be an object, got " ++ typeName]
  | .invalid ps => some (ps.map Problem.message)
  | .notNode kind typeName =>
    some ["Factory for kind '" ++ kind ++ "' returned " ++ typeName ++ ", not a Node"]
  | _ => none

/-- One problem as it is, several counted and joined. -/
def joinProblems : List String → String
  | [p] => p
  | ps => toString ps.length ++ " problems: " ++ joinWith "; " ps

/-- The wording of a failure. -/
def message : Failure → String
  | .fault f => "<" ++ f.name ++ ">"
  | .operands f => f.message
  | .reported _ text => text
  | .execution text => text
  | .undecodable => "Cannot parse graph description as json: ..."
  | .missingCollaborator collaborator node =>
    let place := if node = "" then "" else " (node '" ++ node ++ "')"
    collaborator ++ " collaborator not configured" ++ place ++ "; pass env=\x7b'" ++ collaborator ++
      "': ...\x7d to the Compiler"
  | .generation text => text
  | .noStart flow => "Flow '" ++ flow ++ "' has no start node"
  | .tooManySteps limit =>
    "Flow exceeded max_steps=" ++ limit.plain ++
      ". Check for infinite loops or increase max_steps."
  | .onlyCooperative => "Use run_async."
  | .retryCount v => "max_retries must be >= 1, got " ++ v.plain
  | .retryDelay v => "retry_delay must be >= 0, got " ++ v.plain
  | .retryBackoff v => "Unknown retry_backoff '" ++ v.plain ++ "'"
  | .unknownHook event => "Unknown hook event '" ++ event ++ "'"
  | .emptyKind => "kind must be a non-empty string"
  | .missingKeys store keys =>
    "Store[" ++ store ++ "]: required key(s) missing: [" ++
      joinWith ", " (keys.map Text.quoted) ++ "]"
  | .labelNotText typeName => "Action must be a string, got " ++ typeName
  | .wrongType store key expected got =>
    "Store[" ++ store ++ "]: key '" ++ key ++ "' expects " ++ expected ++ ", got " ++ got
  | .exhausted => "the bound on the work of a run was met"
  | f => joinProblems (f.problems?.getD [])

end Failure

end NodeFlow
