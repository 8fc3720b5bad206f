import NodeFlow.Run.Coop
/-!
# Driving cooperative computations

One computation is the root; others are started together by computations that then wait for them.
What is ready to go on stands in a queue and is taken in the order in which it became ready. Control
goes round by round: a round takes everything that was ready when it began.

A part that ends reports to those who wait for it in a later round, and those who have all their
reports, or a first failure, go on in a round after that. When the root has ended, one more round is
run; whatever is still waiting then never goes on.
-/

set_option autoImplicit false

namespace NodeFlow

/-- Who waits for a computation: nobody but the caller, or a group in which it has a place. -/
inductive Owner
  | root
  | member (group place : Nat)
  deriving DecidableEq

/-- Something that is ready. -/
inductive Ready (σ ρ : Type) : Type 1
  /-- a computation goes on -/
  | resume (owner : Owner) (x : Coop σ ρ ρ)
  /-- a part of a group has ended -/
  | report (group place : Nat) (r : Except Failure ρ)

/-- Computations that were started together: who waits for the one that started them, the results so
far, and how it goes on. -/
structure Group (σ ρ : Type) : Type 1 where
  owner : Owner
  results : Array (Option ρ)
  settled : Bool
  resume : Except Failure (List ρ) → Coop σ ρ ρ

/-- All computations under way: the state, the groups, what is ready for the next round, and how the
root has ended. -/
structure Pool (σ ρ : Type) : Type 1 where
  state : σ
  groups : Array (Group σ ρ)
  queue : List (Ready σ ρ)
  result : Option (Except Failure ρ)

namespace Pool

variable {σ ρ : Type}

/-- A pool with a root that has yet to start. -/
def start (x : Coop σ ρ ρ) (s : σ) : Pool σ ρ := ⟨s, #[], [.resume .root x], none⟩

/-- Adds to what is ready for the next round. -/
def enqueue (p : Pool σ ρ) (rs : List (Ready σ ρ)) : Pool σ ρ :=
  { p with queue := p.queue ++ rs }

/-- The parts of a group, ready to start. -/
def members (group : Nat) : Nat → List (Coop σ ρ ρ) → List (Ready σ ρ)
  | _, [] => []
  | i, x :: xs => .resume (.member group i) x :: members group (i + 1) xs

/-- A computation goes on until it stops. -/
def resume (p : Pool σ ρ) (owner : Owner) (x : Coop σ ρ ρ) : Pool σ ρ :=
  match x.advance p.state with
  | (.done r, s) =>
    match owner with
    | .root => { p with state := s, result := some r }
    | .member g i => { p with state := s }.enqueue [.report g i r]
  | (.turn k, s) => { p with state := s }.enqueue [.resume owner k]
  | (.gather parts k, s) =>
    let group : Group σ ρ := ⟨owner, Array.replicate parts.length none, false, k⟩
    { p with state := s, groups := p.groups.push group }.enqueue (members p.groups.size 0 parts)

/-- The results of a group if all its parts have ended. -/
def complete? (results : Array (Option ρ)) : Option (List ρ) :=
  results.toList.mapM id

/-- Those who wait for a group go on. -/
def settle (p : Pool σ ρ) (g : Nat) (group : Group σ ρ) (r : Except Failure (List ρ)) : Pool σ ρ :=
  { p with groups := p.groups.setIfInBounds g { group with settled := true } }.enqueue
    [.resume group.owner (group.resume r)]

/-- A part of a group has ended. Reports to a group that is settled are of no interest. -/
def report (p : Pool σ ρ) (g place : Nat) (r : Except Failure ρ) : Pool σ ρ :=
  match p.groups[g]? with
  | none => p
  | some group =>
    if group.settled then p
    else
      match r with
      | .error e => p.settle g group (.error e)
      | .ok a =>
        let group := { group with results := group.results.setIfInBounds place (some a) }
        match complete? group.results with
        | some as => p.settle g group (.ok as)
        | none => { p with groups := p.groups.setIfInBounds g group }

/-- One thing that was ready happens. -/
def fire (p : Pool σ ρ) : Ready σ ρ → Pool σ ρ
  | .resume owner x => p.resume owner x
  | .report g place r => p.report g place r

/-- Everything that is ready happens, in order. -/
def round (p : Pool σ ρ) : Pool σ ρ :=
  p.queue.foldl fire { p with queue := [] }

/-- Rounds until the root has ended, but no more than so many, and one more. -/
def rounds : Nat → Pool σ ρ → Pool σ ρ
  | 0, p => p
  | n + 1, p =>
    let q := p.round
    if q.result.isSome then q.round else rounds n q

end Pool

/-- Runs a computation to its end, in at most so many rounds. -/
def Coop.run {σ ρ : Type} (limit : Nat) (x : Coop σ ρ ρ) : Act σ ρ := fun s =>
  let p := (Pool.start x s).rounds limit
  (p.result.getD (.error .exhausted), p.state)

end NodeFlow
