import NodeFlow.Failure
/-!
# Actions

An action reads and changes a state and ends in a result or a failure. What it changed before it
failed stays changed: a failure undoes nothing. Whoever catches a failure goes on from the state that
it left behind.
-/

set_option autoImplicit false

universe u

namespace NodeFlow

/-- An action on a state. -/
def Act (σ α : Type) : Type := σ → Except Failure α × σ

namespace Act

variable {σ α β : Type}

/-- The action that changes nothing. -/
def pure (a : α) : Act σ α := fun s => (.ok a, s)

/-- One action after another, unless the first fails. -/
def bind (x : Act σ α) (f : α → Act σ β) : Act σ β := fun s =>
  match x s with
  | (.ok a, s') => f a s'
  | (.error e, s') => (.error e, s')

/-- Fails. -/
def fail (e : Failure) : Act σ α := fun s => (.error e, s)

/-- Goes on with a handler after a failure. -/
def tryCatch (x : Act σ α) (handler : Failure → Act σ α) : Act σ α := fun s =>
  match x s with
  | (.ok a, s') => (.ok a, s')
  | (.error e, s') => handler e s'

instance : Monad (Act σ) where
  pure := Act.pure
  bind := Act.bind

instance : MonadExceptOf Failure (Act σ) where
  throw := Act.fail
  tryCatch := Act.tryCatch

/-- The state. -/
def get : Act σ σ := fun s => (.ok s, s)

/-- Something read off the state. -/
def reads (f : σ → α) : Act σ α := fun s => (.ok (f s), s)

/-- Changes the state. -/
def modify (f : σ → σ) : Act σ Unit := fun s => (.ok (), f s)

/-- Changes the state and answers something. -/
def update (f : σ → α × σ) : Act σ α := fun s => (.ok (f s).1, (f s).2)

/-- A result that is there already, or a failure. -/
def ofExcept (x : Except Failure α) : Act σ α := fun s => (x, s)

/-- A result that is there already, or a fault. -/
def ofFault (x : Except Fault α) : Act σ α := fun s => (x.mapError .fault, s)

/-- A result that is there already, or the cause for which operands have none. -/
def ofOperands (x : Except OperandFault α) : Act σ α := fun s => (x.mapError .operands, s)

end Act

/-- Where actions can be performed: among actions themselves, and among computations that may give up
control. -/
class Performs (σ : Type) (m : Type → Type u) extends Monad m, MonadExceptOf Failure m where
  perform {α : Type} : Act σ α → m α

instance (priority := high) {σ : Type} : Performs σ (Act σ) where
  perform x := x

end NodeFlow
