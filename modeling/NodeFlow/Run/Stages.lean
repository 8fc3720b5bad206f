import NodeFlow.Run.Node
/-!
# The stages of a visit

A node that works itself prepares something, works on it under its retry policy, and finishes. A batch
works on each element of what it has prepared and finishes with the list of the results, which is in
the order of the elements however they were worked on.

The stages are stated once for nodes that work at once and for cooperative ones; only working on all
elements together needs the latter.
-/

set_option autoImplicit false

universe u

namespace NodeFlow

/-- What a node does in one visit: it prepares an `α` and works on a `β`, which is the `α` itself or an
element of it. -/
structure Stages (m : Type → Type u) (α β : Type) where
  prep : m α
  exec : β → m Datum
  fallback : β → Failure → m Datum
  post : α → Datum → m Datum

namespace Stages

section

variable {m : Type → Type u} [Performs World m] {α β : Type}

/-- Works on one thing under a retry policy. -/
def work (s : Stages m α β) (policy : RetryPolicy) (node : Nat) (b : β) : m Datum :=
  working policy node .null (s.exec b) (s.fallback b)

/-- Works on what was prepared. -/
def once (s : Stages m α α) (policy : RetryPolicy) (node : Nat) : m Datum :=
  course s.prep (s.work policy node) s.post

/-- Works on the elements of what was prepared one after another, when all of them are there from the
start. -/
def inOrder (s : Stages m α β) (policy : RetryPolicy) (node : Nat)
    (elements : α → Act World (List β)) : m Datum :=
  course s.prep
    (fun a => do
      let items ← Performs.perform (elements a)
      let results ← eachOf items (s.work policy node)
      Performs.perform (World.alloc (.list results)))
    s.post

/-- The bound on the elements of batches that name none, far beyond what any batch has. -/
def batchBound : Nat := 1000000

/-- Works on the elements of what was prepared one after another. `elements` gives the element at a
place, for as long as there is one. There may be ever more of them, so they are looked for in at most as
many places as the bound says. -/
def inTurn (s : Stages m α β) (policy : RetryPolicy) (node bound : Nat)
    (elements : α → Act World (Nat → Act World (Option β))) : m Datum :=
  course s.prep
    (fun a => do
      let next ← Performs.perform (elements a)
      let results ← eachFrom next (s.work policy node) bound 0
      Performs.perform (World.alloc (.list results)))
    s.post

end

/-- Works on all elements of what was prepared at once. -/
def together {α β : Type} (s : Stages (Coop World Datum) α β) (policy : RetryPolicy) (node : Nat)
    (elements : α → Act World (List β)) : Coop World Datum Datum :=
  course s.prep
    (fun a => do
      let items ← Coop.ofAct (elements a)
      let results ← Coop.together (items.map (s.work policy node))
      Coop.ofAct (World.alloc (.list results)))
    s.post

end Stages

end NodeFlow
