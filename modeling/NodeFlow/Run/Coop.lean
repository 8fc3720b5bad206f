import NodeFlow.Run.Act
/-!
# Cooperative computations

A computation that may give up control: it performs actions, gives way to others, or starts several
computations at once and waits for them. It is kept as the tree of what it does next, so that whoever
drives it decides when it goes on.

The awkward thing up front: the results of computations that are started together have one fixed
type, `ρ`, while the computation that waits for them may end in a result of any type. Hence the type
of the result is an index here and not a parameter.
-/

set_option autoImplicit false

namespace NodeFlow

/-- A computation on a state `σ` that may give up control, and whose parts end in a `ρ`. -/
inductive Coop (σ ρ : Type) : Type → Type 1
  /-- the end -/
  | done {α : Type} (r : Except Failure α) : Coop σ ρ α
  /-- changes the state and goes on at once -/
  | act {α β : Type} (m : σ → β × σ) (k : β → Coop σ ρ α) : Coop σ ρ α
  /-- lets all others that are ready go first -/
  | turn {α : Type} (k : Coop σ ρ α) : Coop σ ρ α
  /-- starts computations together; goes on with all their results, or with the first failure -/
  | gather {α : Type} (parts : List (Coop σ ρ ρ)) (k : Except Failure (List ρ) → Coop σ ρ α) :
    Coop σ ρ α

namespace Coop

variable {σ ρ α β : Type}

/-- One computation after another, unless the first fails. -/
def bind (x : Coop σ ρ α) (f : α → Coop σ ρ β) : Coop σ ρ β :=
  match x with
  | .done (.ok a) => f a
  | .done (.error e) => .done (.error e)
  | .act m k => .act m fun b => (k b).bind f
  | .turn k => .turn (k.bind f)
  | .gather parts k => .gather parts fun r => (k r).bind f
termination_by structural x

/-- Goes on with a handler after a failure. -/
def tryCatch (x : Coop σ ρ α) (handler : Failure → Coop σ ρ α) : Coop σ ρ α :=
  match x with
  | .done (.ok a) => .done (.ok a)
  | .done (.error e) => handler e
  | .act m k => .act m fun b => (k b).tryCatch handler
  | .turn k => .turn (k.tryCatch handler)
  | .gather parts k => .gather parts fun r => (k r).tryCatch handler
termination_by structural x

instance : Monad (Coop σ ρ) where
  pure a := .done (.ok a)
  bind := Coop.bind

instance : MonadExceptOf Failure (Coop σ ρ) where
  throw e := .done (.error e)
  tryCatch := Coop.tryCatch

/-- An action as a computation that never gives up control. -/
def ofAct (x : Act σ α) : Coop σ ρ α := .act x .done

/-- Gives up control so many times. -/
def turns : Nat → Coop σ ρ Unit
  | 0 => .done (.ok ())
  | n + 1 => .turn (turns n)

/-- Starts computations together and waits for them. -/
def together (parts : List (Coop σ ρ ρ)) : Coop σ ρ (List ρ) := .gather parts .done

/-- What a computation comes to when it next stops. -/
inductive Pause (σ ρ α : Type) : Type 1
  | done (r : Except Failure α)
  | turn (k : Coop σ ρ α)
  | gather (parts : List (Coop σ ρ ρ)) (k : Except Failure (List ρ) → Coop σ ρ α)

/-- Drives a computation until it stops. Waiting for nothing is no stop. -/
def advance (x : Coop σ ρ α) (s : σ) : Pause σ ρ α × σ :=
  match x with
  | .done r => (.done r, s)
  | .act m k => let p := m s; (k p.1).advance p.2
  | .turn k => (.turn k, s)
  | .gather [] k => (k (.ok [])).advance s
  | .gather (p :: ps) k => (.gather (p :: ps) k, s)
termination_by structural x

end Coop

instance (priority := high) {σ ρ : Type} : Performs σ (Coop σ ρ) where
  perform x := Coop.ofAct x

end NodeFlow
