import NodeFlow.Run.Stages
import NodeFlow.Script.Basic
/-!
# Stages that follow a script

Each stage of a script as an action. The node that follows the script is told apart by its number, by
which it remembers how often it has worked and ended and which failures are still to come.
-/

set_option autoImplicit false

namespace NodeFlow

/-- What the shared context holds under a key. -/
def Shared.lookup (s : Shared) (key : String) : Act World (Option Datum) :=
  .reads fun w => s.get? w.heap key

/-- A copy of the parameters of a scene. -/
def Scene.copyParams (scene : Scene) : Act World Datum := do
  let members ← Act.reads fun (w : World) => w.heap.membersAt scene.params
  World.alloc (.dict members)

/-- One of the parameters of a scene, null if there is none. -/
def Scene.param (scene : Scene) (key : String) : Act World Datum :=
  .reads fun w => (Members.get? (w.heap.membersAt scene.params) key).getD .null

namespace Script

/-! ## 1. Preparing -/

/-- What a script prepares. -/
def prepare (source : Option Source) (name : String) (scene : Scene) : Act World Datum := do
  let found (d : Act World Datum) : Act World Datum := do
    let d ← d
    World.log (.prepared name (← World.view d))
    pure d
  match source with
  | none => pure .null
  | some (.failing e) => Act.fail e
  | some (.path path) =>
    found do
      let v ← Act.reads fun (w : World) => (scene.shared.getPath? w.heap path).getD .null
      World.keep v
  | some .params => found scene.copyParams
  | some (.param key) => found (scene.param key)
  | some (.value v) => found (World.keep v)

/-! ## 2. Working -/

/-- Uses up one of the failures of an input, if there is one left. -/
def spend (x : Value) : List (Value × Int) → List Int → Option (List Int)
  | (v, _) :: entries, n :: left =>
    if v.equal x && n > 0 then some ((n - 1) :: left)
    else (spend x entries left).map (n :: ·)
  | _, _ => none

/-- The failure that a script names, or the standard one with a text. -/
def failureOr (named : Option Failure) (text : String) : Failure :=
  named.getD (.reported .value text)

/-- Is a call among the first ones, up to a number that has yet to be looked at? -/
def isAmongFirst (count : Nat) (last : Value) : Except OperandFault Bool :=
  match Value.ordered .le (.int count) last with
  | .ok b => .ok b
  | .error _ => .error (.unordered "<=" "int" last.typeName)

/-- Begins work: it is put on the journal, and fails if it is its turn to fail. -/
def begin (work : Work) (name : String) (node : Nat) (input : Datum) : Act World Unit := do
  let x ← World.view input
  let memory ← Act.reads fun (w : World) => w.memoryOf node
  World.log (.executed name x memory.attempt)
  let count := memory.executions + 1
  World.remember node fun m => { m with executions := count }
  if (← Act.ofOperands (isAmongFirst count work.failFirst)) then
    Act.fail (failureOr work.failure ("call " ++ toString count ++ " failed"))
  else
    match spend x work.failOn memory.failuresLeft with
    | some left => do
      World.remember node fun m => { m with failuresLeft := left }
      Act.fail (failureOr work.failure "item failed")
    | none => pure ()

/-- A number of times, which has to be a whole one; below zero it is none. -/
def timesOf : Value → Except OperandFault Nat
  | .int n => .ok n.toNat
  | .bool b => .ok (if b then 1 else 0)
  | v => .error (.notWhole v.typeName)

/-- How often work on an input gives up control. -/
def turnsFor (work : Work) (input : Value) : Except OperandFault Nat :=
  match work.turns with
  | .fixed n => timesOf n
  | .input => timesOf input

/-- The result of an operation on an input and a value of a script. The value is made first, so that
its parts are shared where the result has them more than once. -/
def combined (f : Value → Value → Except OperandFault Value) (input : Datum) (v : Value) :
    Act World Datum := do
  let other ← World.keep v
  World.keep (← Act.ofOperands (f (← World.view input) (← World.view other)))

/-- What work results in. -/
def outcome (work : Work) (scene : Scene) (input : Datum) : Act World Datum :=
  match work.outcome with
  | .value v => World.keep v
  | .plus n => combined Value.plus input n
  | .times n => combined Value.times input n
  | .under key => World.alloc (.dict [(key, input)])
  | .param key => scene.param key
  | .input => pure input

/-- Work that never gives up control. -/
def execute (work : Option Work) (name : String) (node : Nat) (scene : Scene) (input : Datum) :
    Act World Datum :=
  match work with
  | none => pure .null
  | some work => do
    begin work name node input
    outcome work scene input

/-- Work that may give up control after it has begun. -/
def executeWaiting (work : Option Work) (name : String) (node : Nat) (scene : Scene) (input : Datum) :
    Coop World Datum Datum :=
  match work with
  | none => pure .null
  | some work => do
    Coop.ofAct (begin work name node input)
    let n ← Coop.ofAct do Act.ofOperands (turnsFor work (← World.view input))
    Coop.turns n
    Coop.ofAct (outcome work scene input)

/-- What stands in for a result. -/
def standIn (fallback : Option Fallback) (name : String) (input : Datum) (e : Failure) :
    Act World Datum :=
  match fallback with
  | none => Act.fail e
  | some f => do
    World.log (.fellBack name (← World.view input) e)
    match f with
    | .value v => World.keep v
    | .wording start => pure (.str (start ++ e.message))

/-! ## 3. Ending -/

/-- Appends to the list under a key of the shared context, which is made if it is missing. -/
def appendUnder (scene : Scene) (key : String) (d : Datum) : Act World Unit := do
  let fresh ← World.alloc (.list [])
  match ← World.onShared (scene.shared.setDefault key fresh) with
  | .ref a => do
    let cell ← Act.reads fun (w : World) => w.heap.cell? a
    match cell with
    | some (.list xs) => .modify fun w => { w with heap := w.heap.write a (.list (xs ++ [d])) }
    | _ => Act.fail (.fault .attribute)
  | _ => Act.fail (.fault .attribute)

/-- Raises the count under a key of the shared context; a missing one is zero. -/
def countUnder (scene : Scene) (key : String) : Act World Unit := do
  let old := (← scene.shared.lookup key).getD (.int 0)
  let new ← Act.ofOperands ((← World.view old).plus (.int 1))
  World.onShared (scene.shared.set key (← World.keep new))

/-- The label of an ending, when so many went before it. -/
def Label.at (result : Datum) (before : Nat) : Label → Act World Datum
  | .value v => World.keep v
  | .series labels =>
    match labels[before]? <|> labels.getLast? with
    | some v => World.keep v
    | none => Act.fail (.fault .index)
  | .result => pure result

/-- Ends a visit. -/
def finish (ending : Ending) (name : String) (node : Nat) (scene : Scene) (result : Datum) :
    Act World Datum := do
  match ending.failure with
  | some e => Act.fail e
  | none => do
    if let some key := ending.save then World.onShared (scene.shared.set key result)
    if let some key := ending.append then appendUnder scene key result
    if let some key := ending.appendParams then appendUnder scene key (← scene.copyParams)
    if let some key := ending.count then countUnder scene key
    let memory ← Act.reads fun (w : World) => w.memoryOf node
    World.remember node fun m => { m with endings := memory.endings + 1 }
    let label ← ending.label.at result memory.endings
    World.log (.finished name (← World.view label))
    pure label

end Script

end NodeFlow
