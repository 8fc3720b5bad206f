import NodeFlow.Run.World
import NodeFlow.Text.Casing
/-!
# HTTP collaborators

Something that fetches: either a collaborator that is given as it is, or a client of its own over a
session. The client sends a body only with methods other than `GET`, always sends headers, and takes a
response whose body is no JSON as an empty object.
-/

set_option autoImplicit false

namespace NodeFlow

/-- What comes back over a session. -/
inductive SessionAnswer
  /-- a response; without a body if what it has is no JSON -/
  | response (status : Value) (body : Option Value) (headers : Value)
  /-- the request could not be sent -/
  | broken (text : String)

/-- A client over a session, which answers its n-th request. -/
structure SessionClient where
  timeout : Value
  answer : Nat → SessionAnswer

/-- An HTTP collaborator: a given one, which answers its n-th call, or a client over a session. -/
inductive HttpClient
  | given (answer : Nat → Except Failure Value)
  | session (client : SessionClient)

namespace SessionClient

/-- The method in capitals; `GET` if none is named. -/
def methodName : Value → Except Fault String
  | .str s => .ok (Text.upper (if s = "" then "GET" else s))
  | v => if v.truthy then .error .attribute else .ok "GET"

/-- A response as a value. -/
def result (status data headers : Value) : Value :=
  .ofMembers [("status", status), ("data", data), ("headers", headers)]

/-- Fetches over the session. -/
def fetch (c : SessionClient) (url method headers body : Value) : Act World Value := do
  let name ← Act.ofFault (methodName method)
  let payload := if name = "GET" then Value.null else body
  World.log (.request name url (headers.orElse (.ofMembers [])) payload c.timeout)
  let n ← World.countCall .session
  match c.answer n with
  | .broken text =>
    Act.fail (.execution ("HTTP " ++ name ++ " " ++ url.plain ++ " failed: " ++ text))
  | .response status data headers => pure (result status (data.getD (.ofMembers [])) headers)

end SessionClient

namespace HttpClient

/-- Fetches. -/
def fetch (c : HttpClient) (url method headers body : Value) : Act World Value :=
  match c with
  | .given answer => do
    World.log (.httpCall url method headers body)
    let n ← World.countCall .http
    Act.ofExcept (answer n)
  | .session client => client.fetch url method headers body

end HttpClient

end NodeFlow
