import NodeFlow.Compile.Environment
import NodeFlow.Description.Check
import NodeFlow.Run.Stages
/-!
# Declared nodes

A node as a description declares it, and what every declared node has in common whatever its kind:
templates that see the shared context and the last result, outputs to save, and a loop guard.

The declaration stays in memory and is read anew at every visit, since it is data like any other: a
value that a template takes out of it is the very object that was declared.

A guard counts the visits that have run to their end in the shared context itself, so the count holds
over all runs on one context.
-/

set_option autoImplicit false

universe u

namespace NodeFlow

/-- A bound on the visits of a node, and the label of a visit beyond it. -/
structure Guard where
  limit : Int
  exit : String

/-- A declared node. -/
structure Declared where
  id : String
  content : Addr
  guard : Option Guard

namespace Declared

/-- The key under which the last result is handed on. -/
def lastResultKey : String := "_last_result"

/-- The key under which the visits of guarded nodes are counted. -/
def visitsKey : String := "_visits"

/-- The guard that a declaration sets up. -/
def guardOf (node : Value) : Option Guard :=
  match (node.field "loop_guard").field "max_iterations" with
  | .int limit =>
    some ⟨limit, (((node.field "loop_guard").field "exit").name?).getD loopExitLabel⟩
  | _ => none

/-! ## 1. Templates -/

/-- A part of the declaration as it is now. -/
def part (d : Declared) (name : String) : Act World Value := do
  let v ← World.view (.ref d.content)
  pure (v.field name)

/-- What templates see of a scene beside results. -/
def scopeWith (scene : Scene) (result : Value) (exec item : Option Value) : Act World Scope :=
  .reads fun w => {
    ctx := scene.shared.view w.heap
    result := result
    exec := exec
    item := item
    params := w.heap.view (.ref scene.params) }

/-- What the shared context holds under a key, null if nothing. -/
def held (scene : Scene) (key : String) : Act World Datum :=
  .reads fun w => (scene.shared.get? w.heap key).getD .null

/-- What templates see before the node has a result of its own. -/
def priorScope (scene : Scene) (item : Option Value) : Act World Scope := do
  let last ← World.view (← held scene lastResultKey)
  scopeWith scene last none item

/-- What templates see when the node has a result. -/
def resultScope (scene : Scene) (result : Datum) : Act World Scope := do
  let v ← World.view result
  scopeWith scene v (some v) none

/-- Fills a template. -/
def fill (d : Declared) (scope : Scope) (template : Value) : Act World Value :=
  World.settle (Template.interpolate scope d.id template)

/-- The value that a template stands for. -/
def render (d : Declared) (scope : Scope) (template : Value) : Act World Value :=
  World.settle (Template.render scope d.id template)

/-! ## 2. The loop guard -/

/-- How often a node has been visited in a context. -/
def visits (d : Declared) (scene : Scene) : Act World Value := do
  let counts ← World.view (← held scene visitsKey)
  match counts with
  | .dict _ ms | .store _ _ ms => pure ((Members.get? ms d.id).getD (.int 0))
  | v => if v.truthy then Act.fail (.fault .attribute) else pure (.int 0)

/-- The diagnostic of a guard that keeps its node from running. -/
def guardNote (d : Declared) (g : Guard) : Diagnostic where
  code := Diagnostic.loopGuard
  message := "Node '" ++ d.id ++ "' reached loop_guard.max_iterations=" ++ toString g.limit ++
    "; returning " ++ Text.quoted g.exit
  node := .str d.id
  data := [("max_iterations", .int g.limit)]

/-- The label of a visit that the guard keeps from running; none if the node is to run. -/
def guardExit? (d : Declared) (scene : Scene) : Act World (Option String) := do
  match d.guard with
  | none => pure none
  | some g => do
    if ← Act.ofFault (Value.ordered .lt (← d.visits scene) (.int g.limit)) then pure none
    else do
      World.note (d.guardNote g)
      pure (some g.exit)

/-- Counts a visit, if the node has a guard. The counts are a new object each time. -/
def recordVisit (d : Declared) (scene : Scene) : Act World Unit := do
  match d.guard with
  | none => pure ()
  | some _ => do
    let counts ← membersOf (← held scene visitsKey)
    let before ← World.view ((Members.get? counts d.id).getD (.int 0))
    let count ← World.keep (← Act.ofOperands (before.plus (.int 1)))
    let new ← World.alloc (.dict (Members.put d.id count counts))
    World.onShared (scene.shared.set visitsKey new)

/-! ## 3. Finishing -/

/-- Saves outputs in the order in which they are declared; each sees what the ones before have saved. -/
def saveAll (d : Declared) (scene : Scene) (result : Datum) : List Value → Act World Unit
  | [] => pure ()
  | save :: rest => do
    let template := Description.fieldOr save "value" (save.field "valueTemplate")
    let value ← d.render (← resultScope scene result) template
    let kept ← World.keep value
    match save.field "path" with
    | .str path => World.onShared (scene.shared.setPath path kept)
    | _ => Act.fail (.fault .key)
    d.saveAll scene result rest

/-- Ends a visit: the result is handed on and saved, the visit counts, and the label is the one that
the node names as its next, if any. -/
def finish (d : Declared) (scene : Scene) (result : Datum) : Act World Datum := do
  World.onShared (scene.shared.set lastResultKey result)
  let post ← d.part "post"
  d.saveAll scene result ((post.field "outputs").field "save").items
  d.recordVisit scene
  World.keep ((post.field "next").orElse .null)

/-! ## 4. Visits -/

section

variable {m : Type → Type u} [Performs World m] {α β : Type}

/-- A visit, unless the guard keeps the node from running. -/
def guarded (d : Declared) (scene : Scene) (visit : m Datum) : m Datum := do
  match ← Performs.perform (d.guardExit? scene) with
  | some label => pure (.str label)
  | none => visit

/-- The stages of a declared node: a failure stays one, and what comes after the work depends on its
result only. -/
def stages (prep : Act World α) (exec : β → m Datum) (post : Datum → Act World Datum) :
    Stages m α β where
  prep := Performs.perform prep
  exec := exec
  fallback _ e := throw e
  post _ result := Performs.perform (post result)

end

end Declared

end NodeFlow
