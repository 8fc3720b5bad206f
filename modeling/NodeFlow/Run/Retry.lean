import NodeFlow.Run.World
import NodeFlow.Value.Arithmetic
/-!
# Retries

How often a node's work is tried, and how long it waits between two tries: always the same time, or
twice as long each time. The last failure goes to a fallback, which is tried once.

The settings are kept as they were given, since they are shown again. They are numbers once they have
been checked, but the count may still be no whole number, which shows only when the node first works,
and a wait may grow beyond every floating-point number.
-/

set_option autoImplicit false

universe u

namespace NodeFlow

/-- How waits grow. -/
inductive Backoff
  | fixed | exponential
  deriving DecidableEq

namespace Backoff

/-- The name of a way to grow. -/
def name : Backoff → String
  | .fixed => "fixed"
  | .exponential => "exponential"

/-- The way to grow of a name. -/
def ofValue? : Value → Option Backoff
  | .str s => if s = "fixed" then some .fixed else if s = "exponential" then some .exponential else none
  | _ => none

end Backoff

/-- How often work is tried, and the waits in between. -/
structure RetryPolicy where
  limit : Value
  delay : Value
  backoff : Backoff

namespace RetryPolicy

/-- One try, no wait. -/
def standard : RetryPolicy := ⟨.int 1, .float (.zero false), .fixed⟩

/-- Checks settings: at least one try, no negative wait, a known way to grow. -/
def make (limit delay backoff : Value) : Except Failure RetryPolicy :=
  match Value.ordered .lt limit (.int 1) with
  | .error f => .error (.fault f)
  | .ok true => .error (.retryCount limit)
  | .ok false =>
    match Value.ordered .lt delay (.int 0) with
    | .error f => .error (.fault f)
    | .ok true => .error (.retryDelay delay)
    | .ok false =>
      match Backoff.ofValue? backoff with
      | none => .error (.retryBackoff backoff)
      | some b => .ok ⟨limit, delay, b⟩

/-- The number of tries. -/
def tries (p : RetryPolicy) : Except Fault Nat :=
  match p.limit with
  | .int n => .ok n.toNat
  | .bool b => .ok (if b then 1 else 0)
  | _ => .error .type

/-- The wait after a failed attempt; attempts are counted from one. -/
def wait (p : RetryPolicy) (attempt : Nat) : Except Fault Value :=
  match p.backoff with
  | .fixed => .ok p.delay
  | .exponential =>
    match p.delay.magnitude? with
    | some d => (d.mul (.int (Nat.pow 2 (attempt - 1) : Nat))).map Number.value
    | none => .error .type

/-- Waits after a failed attempt, unless the wait is not positive. -/
def pause (p : RetryPolicy) (attempt : Nat) : Act World Unit := do
  let w ← Act.ofFault (p.wait attempt)
  if ← Act.ofFault (Value.ordered .gt w (.int 0)) then
    match w.magnitude? with
    | some n => World.log (.wait (← Act.ofFault n.toBinary))
    | none => pure ()

end RetryPolicy

section

variable {m : Type → Type u} [Performs World m] {α : Type}

/-- Tries work as long as tries are left, waiting in between; the failure of the last try goes to the
fallback. Attempts are counted from one. Without any try there is no result but `idle`. -/
def retrying (policy : RetryPolicy) (idle : α) (work : Nat → m α) (fallback : Failure → m α) :
    Nat → Nat → m α
  | 0, _ => pure idle
  | 1, attempt => tryCatch (work attempt) fallback
  | left + 2, attempt =>
    tryCatch (work attempt) fun _ => do
      Performs.perform (policy.pause attempt)
      retrying policy idle work fallback (left + 1) (attempt + 1)

/-- Work under a retry policy. The node remembers which attempt it is at. -/
def working (policy : RetryPolicy) (node : Nat) (idle : α) (work : m α) (fallback : Failure → m α) :
    m α := do
  let n ← Performs.perform (σ := World) (Act.ofFault policy.tries)
  let attempt (k : Nat) : m α := do
    Performs.perform (World.remember node fun memory => { memory with attempt := k - 1 })
    work
  retrying policy idle attempt fallback n 1

end

end NodeFlow
