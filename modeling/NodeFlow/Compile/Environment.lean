import NodeFlow.Collaborator.Http
import NodeFlow.Collaborator.Model
import NodeFlow.Settings
/-!
# What a graph is compiled against

The collaborators that nodes may call, parameters that every graph starts with, and the settings.
Collaborators are looked up when a node prepares, not when it is made: a graph whose nodes need a model
can be compiled without one.
-/

set_option autoImplicit false

namespace NodeFlow

/-- The collaborators, the common parameters, and the settings or why there are none. Without an HTTP
collaborator nodes may fall back on a client of their own, if its session is given. The common
parameters are to be an object; this shows only when they are asked for one. -/
structure Environment where
  model : Option Model
  http : Option HttpClient
  ownSession : Option (Nat → SessionAnswer)
  globals : Datum
  settings : Except Fault Settings

namespace Environment

/-- Does the model show that it has to be waited for? -/
def modelWaits (env : Environment) : Bool :=
  env.model.any fun m => m.calling = .awaited

/-- The model, for a node that needs it. -/
def modelFor (env : Environment) (node : String) : Except Failure Model :=
  match env.model with
  | some m => .ok m
  | none => .error (.missingCollaborator "llm" node)

/-- The HTTP collaborator, for a node that needs it. -/
def httpFor (env : Environment) (node : String) : Except Failure HttpClient :=
  match env.http, env.ownSession with
  | some client, _ => .ok client
  | none, some answer =>
    match env.settings with
    | .ok s => .ok (.session ⟨.float s.timeout, answer⟩)
    | .error f => .error (.fault f)
  | none, none => .error (.missingCollaborator "http" node)

/-- The common parameters as members: none if they count as false, nothing if they are no object. -/
def commonMembers? (env : Environment) (h : Heap) : Option (Members Datum) :=
  match h.view env.globals with
  | .dict (some a) _ => some (h.membersAt a)
  | v => if v.truthy then none else some []

/-- The name of a model among the common parameters. -/
def commonModelName (env : Environment) : Act World Value := do
  match ← Act.reads fun (w : World) => env.commonMembers? w.heap with
  | some ms => World.view ((Members.get? ms "model").getD .null)
  | none => Act.fail (.fault .attribute)

/-- The name of the model to call: the one declared, else that of the parameters, else that of the
common parameters, else that of the settings. -/
def modelName (env : Environment) (declared params : Value) : Act World Value := do
  let named := declared.orElse (params.field "model")
  if named.truthy then pure named
  else
    let common ← env.commonModelName
    if common.truthy then pure common
    else
      let settings ← Act.ofFault env.settings
      pure (.str settings.model)

end Environment

end NodeFlow
