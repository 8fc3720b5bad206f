import NodeFlow.Compile.Compiler
import NodeFlow.Description.Load
import NodeFlow.Generate.Prompt
/-!
# Graphs from requests

A model is asked to write a description, the first object in its reply is taken for it, and the
compiler judges it. The reply is not trusted: a reply without a description and a description with
problems are outcomes like any other, and so is a call that fails. What fails otherwise, fails.

Whoever asks for a run at once has no use for such outcomes, and gets a failure instead.
-/

set_option autoImplicit false

namespace NodeFlow

namespace Generate

/-- What is wanted: a request, hints for the model, and the name of the model to ask, if any. -/
structure Wish where
  request : String
  hints : String
  modelName : Value

/-- What comes of a request. -/
inductive Outcome : Type 1
  /-- the call failed -/
  | unanswered (text : String)
  /-- the reply holds no object -/
  | noObject (reply : Value)
  /-- the description cannot be compiled -/
  | rejected (reply description : Value) (e : Failure)
  | accepted (reply description : Value) (compiled : Compiled)

namespace Outcome

/-- Why there is no graph. -/
def error? : Outcome → Option String
  | .unanswered text => some ("LLM call failed: " ++ text)
  | .noObject _ => some "No valid JSON found in LLM response"
  | .rejected _ _ e => some e.message
  | .accepted _ _ _ => none

/-- The problems of the description. -/
def problems : Outcome → List String
  | .rejected _ _ e => e.problems?.getD []
  | _ => []

/-- The description that was found. -/
def description? : Outcome → Option Value
  | .rejected _ d _ => some d
  | .accepted _ d _ => some d
  | _ => none

/-- The text of the reply; empty if there was none. -/
def reply : Outcome → Value
  | .unanswered _ => .str ""
  | .noObject r => r
  | .rejected r _ _ => r
  | .accepted r _ _ => r

/-- The compiled graph. -/
def compiled? : Outcome → Option Compiled
  | .accepted _ _ c => some c
  | _ => none

end Outcome

/-- Whoever creates graphs: the model to ask, the compiler that judges, and the name of the model if a
wish names none. -/
structure Creator where
  model : Model
  compiler : Compiler
  modelName : Value

namespace Creator

/-- The prompt of a wish. -/
def prompt (c : Creator) (wish : Wish) : String :=
  promptFor c.compiler.kinds wish.request wish.hints

/-! ## 1. Asking -/

/-- The name of the model to ask. -/
def nameFor (c : Creator) (wish : Wish) : Act World Value :=
  c.compiler.env.modelName (wish.modelName.orElse c.modelName) (.ofMembers [])

/-- Asks a model that answers at once. -/
def ask (c : Creator) (wish : Wish) : Act World Value := do
  let name ← c.nameFor wish
  c.model.call (.str (c.prompt wish)) name

/-- Asks a model of either kind. -/
def askWaiting (c : Creator) (wish : Wish) : Act World Value := do
  let name ← c.nameFor wish
  let answer : Coop World Value Value := c.model.callWaiting (.str (c.prompt wish)) name
  answer.run Graph.Bounds.standard.rounds

/-- Is a failure one of the call, and not of the way to it? -/
def isCallFailure : Failure → Bool
  | .execution _ | .reported .connection _ | .reported .timeout _ => true
  | _ => false

/-! ## 2. Judging -/

/-- What comes of a reply's text. Only texts can hold an object; what counts as false is no text. -/
def judge (c : Creator) (text : Value) (w : World) : Except Failure Outcome × World :=
  match text.orElse (.str "") with
  | .str s =>
    match Description.extract? s with
    | none => (.ok (.noObject text), w)
    | some d =>
      match c.compiler.compile d w with
      | (.ok compiled, w) => (.ok (.accepted text d compiled), w)
      | (.error e, w) =>
        if e.problems?.isSome then (.ok (.rejected text d e), w) else (.error e, w)
  | _ => (.error (.fault .attribute), w)

/-- Creates a graph, given how to ask. -/
def createBy (c : Creator) (asking : Act World Value) (w : World) : Except Failure Outcome × World :=
  match asking w with
  | (.ok answer, w) => c.judge (answer.field "text") w
  | (.error e, w) =>
    if isCallFailure e then (.ok (.unanswered e.message), w) else (.error e, w)

/-- Creates a graph by a model that answers at once. -/
def create (c : Creator) (wish : Wish) : World → Except Failure Outcome × World :=
  c.createBy (c.ask wish)

/-- Creates a graph by a model of either kind. -/
def createWaiting (c : Creator) (wish : Wish) : World → Except Failure Outcome × World :=
  c.createBy (c.askWaiting wish)

/-! ## 3. Running at once -/

/-- Runs the graph of an outcome; any other outcome is a failure. -/
def runOutcome (shared : Shared) : Except Failure Outcome × World → Except Failure Datum × World
  | (.error e, w) => (.error e, w)
  | (.ok outcome, w) =>
    match outcome.compiled? with
    | some compiled => compiled.run shared w
    | none =>
      (.error (.generation ("Failed to create graph: " ++ outcome.error?.getD "")), w)

/-- Creates a graph by a model that answers at once, and runs it in a context. -/
def createAndRun (c : Creator) (wish : Wish) (shared : Shared) : Act World Datum :=
  fun w => runOutcome shared (c.create wish w)

/-- Creates a graph by a model of either kind, and runs it in a context. -/
def createAndRunWaiting (c : Creator) (wish : Wish) (shared : Shared) : Act World Datum :=
  fun w => runOutcome shared (c.createWaiting wish w)

end Creator

end Generate

end NodeFlow
