import NodeFlow.Failure
/-!
# Replies of a model

What a model answers comes in several forms: an object with a text, a bare text, or a response with
attributes of its own. All become one form, a text and what else is known about it. A response that
says it has failed, and any other answer, is a failure of the call.
-/

set_option autoImplicit false

namespace NodeFlow

/-- An answer of a model. -/
inductive Reply
  | value (v : Value)
  /-- a response, by its attributes -/
  | response (attributes : List (String × Value))

namespace Reply

/-- The one form of an answer. -/
def form (text about : Value) : Value := .ofMembers [("text", text), ("meta", about)]

/-- The last entry of a history of errors. -/
def lastError : Value → Except Fault Value
  | .list _ xs =>
    match xs.getLast? with
    | some (.dict _ ms) =>
      match Members.get? ms "error" with
      | some e => .ok e
      | none => .error .key
    | _ => .error .type
  | .dict _ _ => .error .key
  | _ => .error .type

/-- What a failed response says went wrong. -/
def complaint (attributes : List (String × Value)) : Except Fault String :=
  let history := (Members.get? attributes "error_history").getD .null
  if history.truthy then (lastError history).map Value.plain else .ok "unknown error"

/-- Does a response say that it has failed? Only a plain `false` says so. -/
def hasFailed (attributes : List (String × Value)) : Bool :=
  match Members.get? attributes "success" with
  | some (.bool b) => !b
  | _ => false

/-- How a message shows attributes: those that have a name. -/
def attributesNotation (attributes : List (String × Value)) : String :=
  let named := attributes.filter fun a => a.1 != ""
  "namespace(" ++ joinWith ", " (named.map fun a => a.1 ++ "=" ++ a.2.notate) ++ ")"

/-- The failure of an answer in no known form. -/
def unusable (shown : String) : Failure :=
  .execution ("LLM collaborator returned nothing usable: " ++ shown)

/-- An answer in its one form. -/
def normalize : Reply → Except Failure Value
  | .value (.dict _ ms) =>
    match Members.get? ms "text" with
    | none =>
      .error (.execution ("LLM collaborator reply has no 'text': [" ++
        joinWith ", " (ms.map fun m => Text.quoted m.1) ++ "]"))
    | some text =>
      .ok (form text (((Members.get? ms "meta").getD .null).orElse (.ofMembers [])))
  | .value (.str s) => .ok (form (.str s) (.ofMembers []))
  | .value v => .error (unusable v.notate)
  | .response attributes =>
    match Members.get? attributes "content" with
    | none => .error (unusable (attributesNotation attributes))
    | some content =>
      if hasFailed attributes then
        match complaint attributes with
        | .ok text => .error (.execution ("LLM call failed: " ++ text))
        | .error f => .error (.fault f)
      else
        .ok (form content (.ofMembers (["provider", "model", "attempts"].filterMap fun k =>
          (Members.get? attributes k).map fun v => (k, v))))

end Reply

end NodeFlow
