import NodeFlow.Run.World
/-!
# Going through a list, and making an object

What a batch goes through: the elements of a list, the keys of an object, the characters of a text. A
list is gone through as it is at each moment, so what is appended to it on the way is reached as well;
everything else is fixed at the start. Whatever counts as false has no elements.

An object can be made of another one, or of pairs, which are whatever has two elements. Its keys have
to be texts.
-/

set_option autoImplicit false

universe u

namespace NodeFlow

/-! ## 1. Elements -/

/-- What is gone through. -/
inductive Elements
  | live (list : Addr)
  | fixed (items : List Datum)

namespace Elements

/-- What a batch goes through for a datum. -/
def of (d : Datum) : Act World Elements := do
  let v ← World.view d
  if !v.truthy then pure (.fixed [])
  else
    match d, v with
    | .ref a, .list _ _ => pure (.live a)
    | _, .dict _ ms => pure (.fixed (ms.map fun m => .str m.1))
    | _, .store _ _ ms => pure (.fixed (ms.map fun m => .str m.1))
    | _, .str s => pure (.fixed (s.toList.map fun c => .str (String.singleton c)))
    | _, _ => Act.fail (.fault .type)

/-- The element at a place, if the place is not beyond the end by now. -/
def at? (e : Elements) (i : Nat) : Act World (Option Datum) :=
  match e with
  | .live a => .reads fun w => (w.heap.itemsAt a)[i]?
  | .fixed xs => pure xs[i]?

/-- All elements at this moment. -/
def all (e : Elements) : Act World (List Datum) :=
  match e with
  | .live a => .reads fun w => w.heap.itemsAt a
  | .fixed xs => pure xs

end Elements

/-! ## 2. Objects -/

/-- The pair that an element of a list amounts to. -/
def pairOf (d : Datum) : Act World (String × Datum) := do
  let v ← World.view d
  let parts ← match d, v with
    | .ref a, .list _ _ => Act.reads fun (w : World) => w.heap.itemsAt a
    | _, .dict _ ms | _, .store _ _ ms => pure (ms.map fun m => .str m.1)
    | _, .str s => pure (s.toList.map fun c => .str (String.singleton c))
    | _, _ => Act.fail (.fault .type)
  match parts with
  | [.str key, part] => pure (key, part)
  | [_, _] => Act.fail (.fault .type)
  | _ => Act.fail (.fault .value)

/-- The pairs that a list amounts to. -/
def pairsOf : List Datum → Act World (List (String × Datum))
  | [] => pure []
  | d :: rest => do
    let pair ← pairOf d
    let pairs ← pairsOf rest
    pure (pair :: pairs)

/-- The members of the object that is made of a datum; what counts as false makes an empty one. -/
def membersOf (d : Datum) : Act World (Members Datum) := do
  match d, ← World.view d with
  | _, .dict (some a) _ | _, .store a _ _ => .reads fun (w : World) => w.heap.membersAt a
  | d, _ => do
    let pairs ← pairsOf (← (← Elements.of d).all)
    pure (Members.ofPairs pairs)

/-- A new object that is made of a datum. -/
def copyOf (d : Datum) : Act World Addr := do
  let members ← membersOf d
  .update fun w => let r := w.heap.alloc (.dict members); (r.1, { w with heap := r.2 })

/-! ## 3. Work on elements -/

section

variable {m : Type → Type u} [Performs World m] {α β : Type}

/-- Does work on the elements that `next` gives one after another, from a place on, and collects the
results. At most so many elements are gone through. -/
def eachFrom (next : Nat → Act World (Option α)) (work : α → m β) : Nat → Nat → m (List β)
  | 0, _ => throw .exhausted
  | fuel + 1, i => do
    match ← Performs.perform (next i) with
    | none => pure []
    | some a =>
      let b ← work a
      let rest ← eachFrom next work fuel (i + 1)
      pure (b :: rest)

/-- Does work on the elements of a list one after another. -/
def eachOf (items : List α) (work : α → m β) : m (List β) :=
  match items with
  | [] => pure []
  | a :: rest => do
    let b ← work a
    let bs ← eachOf rest work
    pure (b :: bs)

end

end NodeFlow
