import NodeFlow.Collaborator.Reply
import NodeFlow.Run.Coop
import NodeFlow.Run.World
/-!
# Models

A language model as a collaborator: something that answers a prompt. A model answers at once, or it
has to be waited for and may give up control before it answers. Nodes that cannot wait refuse a model
of the second kind, without calling it; nodes that can take either.
-/

set_option autoImplicit false

namespace NodeFlow

/-- How a model is called. -/
inductive Calling
  /-- it answers at once -/
  | direct
  /-- it is known to have to be waited for -/
  | awaited
  /-- it has to be waited for, which shows only when it is called -/
  | deferred
  deriving DecidableEq

/-- A model: how it is called, how often it gives up control over a prompt, and what it answers as its
n-th call. -/
structure Model where
  line : Line
  calling : Calling
  turns : Value → Nat
  answer : Nat → Value → Value → Except Failure Reply

namespace Model

/-- The answer to a prompt in its one form, when the model gets to it. -/
def respond (m : Model) (prompt model : Value) : Act World Value := do
  World.log (.modelCall prompt model)
  let n ← World.countCall m.line
  let reply ← Act.ofExcept (m.answer n prompt model)
  Act.ofExcept reply.normalize

/-- Calls a model that answers at once. -/
def call (m : Model) (prompt model : Value) : Act World Value :=
  if m.calling = .direct then m.respond prompt model
  else
    Act.fail (.execution "LLM collaborator is async; use a cooperative node kind to call it")

/-- Calls a model of either kind. -/
def callWaiting {ρ : Type} (m : Model) (prompt model : Value) : Coop World ρ Value := do
  Coop.turns (if m.calling = .direct then 0 else m.turns prompt)
  Coop.ofAct (m.respond prompt model)

end Model

end NodeFlow
