import NodeFlow.Diagnostic.Channel
import NodeFlow.Memory.Store
import NodeFlow.Template.Render
/-!
# The state of a run

Everything that a run can change: memory, the diagnostics channel, what the nodes remember from one
attempt to the next, how often each collaborator has been called, and the journal, in which whatever
can be seen from outside is written down as it happens.

Parts of values are written down as they are at that moment: a container that is changed later does
not change the journal.
-/

set_option autoImplicit false

namespace NodeFlow

/-! ## 1. The journal -/

/-- What a flow tells its listeners. -/
inductive HookCall
  | nodeStart (node : String)
  /-- a node has ended with a label; the shared context as it is then -/
  | nodeEnd (node : String) (label context : Value)
  | nodeError (node : String) (failure : Failure)
  /-- the flow has ended after so many nodes -/
  | flowEnd (steps : Nat)

/-- Something that can be seen from outside. -/
inductive Event
  /-- a diagnostic reaches a subscriber -/
  | delivered (d : Delivery)
  /-- a write to a store reaches an observer -/
  | written (w : Write)
  /-- a flow's listener is told of something -/
  | told (tag : String) (call : HookCall)
  /-- a node waits before it tries again -/
  | wait (seconds : Binary64)
  | prepared (node : String) (result : Value)
  | executed (node : String) (input : Value) (attempt : Nat)
  | fellBack (node : String) (input : Value) (failure : Failure)
  | finished (node : String) (label : Value)
  /-- a model is called -/
  | modelCall (prompt model : Value)
  /-- an HTTP collaborator is called -/
  | httpCall (url method headers body : Value)
  /-- a session sends a request -/
  | request (method : String) (url headers body timeout : Value)

/-! ## 2. The state -/

/-- What a node remembers: the number of its last attempt, and for nodes that follow a script how
often its stages have run and which failures are still to come. -/
structure NodeMemory where
  attempt : Nat
  executions : Nat
  endings : Nat
  failuresLeft : List Int

/-- A node that has not run yet. -/
def NodeMemory.blank : NodeMemory := ⟨0, 0, 0, []⟩

/-- The lines on which collaborators are called; calls are counted for each. -/
inductive Line
  | generator | model | http | session
  deriving DecidableEq

/-- How often each line has been used. -/
structure Calls where
  generator : Nat
  model : Nat
  http : Nat
  session : Nat

namespace Calls

/-- No calls. -/
def none : Calls := ⟨0, 0, 0, 0⟩

/-- How often a line has been used. -/
def count (c : Calls) : Line → Nat
  | .generator => c.generator
  | .model => c.model
  | .http => c.http
  | .session => c.session

/-- One more call on a line. -/
def add (c : Calls) : Line → Calls
  | .generator => { c with generator := c.generator + 1 }
  | .model => { c with model := c.model + 1 }
  | .http => { c with http := c.http + 1 }
  | .session => { c with session := c.session + 1 }

end Calls

/-- The state of a run. The journal has the newest event first. -/
structure World where
  heap : Heap
  channel : Channel
  memory : Array NodeMemory
  calls : Calls
  journal : List Event

namespace World

/-! ## 3. Small actions -/

/-- Writes an event into the journal. -/
def log (e : Event) : Act World Unit :=
  .modify fun w => { w with journal := e :: w.journal }

/-- Hands a diagnostic to the channel. -/
def note (d : Diagnostic) : Act World Unit :=
  .modify fun w =>
    let r := w.channel.emit d
    { w with channel := r.1, journal := (r.2.map Event.delivered).reverse ++ w.journal }

/-- Hands several diagnostics to the channel. -/
def noteAll : List Diagnostic → Act World Unit
  | [] => pure ()
  | d :: ds => do
    note d
    noteAll ds

/-- Takes over a result with its diagnostics. -/
def settle {α : Type} (x : Noted α) : Act World α := do
  noteAll x.notes
  Act.ofFault x.result

/-- The tree below a datum as it is now. -/
def view (d : Datum) : Act World Value :=
  .reads fun w => w.heap.view d

/-- Keeps a value in memory. -/
def keep (v : Value) : Act World Datum :=
  .update fun w => let r := w.heap.keep v; (r.1, { w with heap := r.2 })

/-- Takes a new cell into use. -/
def alloc (c : Cell) : Act World Datum :=
  .update fun w => let r := w.heap.alloc c; (.ref r.1, { w with heap := r.2 })

/-- An action on the shared context, whose writes go into the journal. -/
def onShared {α : Type} (x : Act Ledger α) : Act World α := fun w =>
  let r := x ⟨w.heap, []⟩
  (r.1, { w with
    heap := r.2.heap
    journal := (r.2.writes.map Event.written).reverse ++ w.journal })

/-- What a node remembers. -/
def memoryOf (w : World) (node : Nat) : NodeMemory :=
  w.memory.getD node .blank

/-- Changes what a node remembers. -/
def remember (node : Nat) (f : NodeMemory → NodeMemory) : Act World Unit :=
  .modify fun w => { w with memory := w.memory.setIfInBounds node (f (w.memoryOf node)) }

/-- Counts a call and answers how many there were before it. -/
def countCall (line : Line) : Act World Nat :=
  .update fun w => (w.calls.count line, { w with calls := w.calls.add line })

end World

end NodeFlow
