import NodeFlow.Value.Basic
/-!
# Memory

During a run lists and objects are shared: two names may lead to one container, and a write through
one shows under the other. Memory is a row of numbered cells, each a list or an object whose parts are
plain data or numbers of further cells.

Two functions tie cells to values. `view` unfolds a datum into the tree below it and marks every
container with its cell. `keep` goes the other way: a marked part is the cell that it is a view of,
an unmarked one gets a cell of its own. So a value that an expression has taken from memory and that
is kept again is the very same container.
-/

set_option autoImplicit false

namespace NodeFlow

/-- The number of a cell. -/
abbrev Addr := Nat

/-- What a name or a part of a container stands for. -/
inductive Datum
  | null
  | undefined
  | bool (b : Bool)
  | int (n : Int)
  | float (x : Binary64)
  | str (s : String)
  /-- a list or an object in memory -/
  | ref (cell : Addr)
  /-- a store whose content is in memory -/
  | store (cell : Addr) (name : String)
  deriving Inhabited, DecidableEq

/-- A container in memory. -/
inductive Cell
  | list (items : List Datum)
  | dict (members : Members Datum)
  deriving Inhabited

/-- The cells in use, and the label of the next not-a-number. -/
structure Heap where
  cells : Array Cell
  nextLabel : Nat

namespace Heap

/-- Memory without cells. Label zero belongs to what is decoded. -/
def empty : Heap := ⟨#[], 1⟩

/-- The cell of a number. -/
def cell? (h : Heap) (a : Addr) : Option Cell := h.cells[a]?

/-- Takes a new cell into use. -/
def alloc (c : Cell) (h : Heap) : Addr × Heap :=
  (h.cells.size, { h with cells := h.cells.push c })

/-- Changes the content of a cell. -/
def write (a : Addr) (c : Cell) (h : Heap) : Heap :=
  { h with cells := h.cells.setIfInBounds a c }

/-- The members of an object in memory; none of anything else. -/
def membersAt (h : Heap) (a : Addr) : Members Datum :=
  match h.cell? a with
  | some (.dict ms) => ms
  | _ => []

/-- The elements of a list in memory; none of anything else. -/
def itemsAt (h : Heap) (a : Addr) : List Datum :=
  match h.cell? a with
  | some (.list xs) => xs
  | _ => []

/-! ## 1. From memory to values -/

/-- The tree below a datum that is reached through the cells of a path, down to a depth. A circle is cut
where it closes: a cell that is met again below itself shows as nothing. -/
def viewWithin (h : Heap) : Nat → List Addr → Datum → Value
  | _, _, .null => .null
  | _, _, .undefined => .undefined
  | _, _, .bool b => .bool b
  | _, _, .int n => .int n
  | _, _, .float x => .float x
  | _, _, .str s => .str s
  | 0, _, .ref _ => .null
  | 0, _, .store _ _ => .null
  | depth + 1, path, .ref a =>
    if path.contains a then .null
    else
      match h.cell? a with
      | some (.list xs) => .list (some a) (xs.map (viewWithin h depth (a :: path)))
      | some (.dict ms) => .dict (some a) (ms.map fun m => (m.1, viewWithin h depth (a :: path) m.2))
      | none => .null
  | depth + 1, path, .store a name =>
    if path.contains a then .null
    else .store a name ((h.membersAt a).map fun m => (m.1, viewWithin h depth (a :: path) m.2))

/-- The tree below a datum. No path through memory is longer than the number of cells unless it runs
in a circle. -/
def view (h : Heap) (d : Datum) : Value :=
  h.viewWithin (h.cells.size + 1) [] d

/-! ## 2. From values to memory -/

mutual

/-- Keeps a value in memory. -/
def keep : Value → Heap → Datum × Heap
  | .null, h => (.null, h)
  | .undefined, h => (.undefined, h)
  | .bool b, h => (.bool b, h)
  | .int n, h => (.int n, h)
  | .str s, h => (.str s, h)
  | .float x, h =>
    match x with
    | .nan none => (.float (.nan (some h.nextLabel)), { h with nextLabel := h.nextLabel + 1 })
    | x => (.float x, h)
  | .store a name _, h => (.store a name, h)
  | .list (some a) _, h => (.ref a, h)
  | .dict (some a) _, h => (.ref a, h)
  | .list none items, h =>
    let r := keepItems items h
    let p := alloc (.list r.1) r.2
    (.ref p.1, p.2)
  | .dict none members, h =>
    let r := keepMembers members h
    let p := alloc (.dict r.1) r.2
    (.ref p.1, p.2)
termination_by structural v => v

/-- Keeps the elements of a list. -/
def keepItems : List Value → Heap → List Datum × Heap
  | [], h => ([], h)
  | x :: xs, h =>
    let r := keep x h
    let rest := keepItems xs r.2
    (r.1 :: rest.1, rest.2)
termination_by structural xs => xs

/-- Keeps the members of an object. -/
def keepMembers : List (String × Value) → Heap → Members Datum × Heap
  | [], h => ([], h)
  | (k, x) :: ms, h =>
    let r := keep x h
    let rest := keepMembers ms r.2
    ((k, r.1) :: rest.1, rest.2)
termination_by structural ms => ms

end

end Heap

mutual

/-- The value without its marks: what a copy of it holds. -/
def Value.fresh : Value → Value
  | .list _ items => .list none (freshItems items)
  | .dict _ members => .dict none (freshMembers members)
  | v => v
termination_by structural v => v

/-- The elements of a list without their marks. -/
def freshItems : List Value → List Value
  | [] => []
  | x :: xs => x.fresh :: freshItems xs
termination_by structural xs => xs

/-- The members of an object without their marks. -/
def freshMembers : List (String × Value) → List (String × Value)
  | [] => []
  | (k, x) :: ms => (k, x.fresh) :: freshMembers ms
termination_by structural ms => ms

end

end NodeFlow
