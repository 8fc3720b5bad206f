import NodeFlow.Value.Basic
import NodeFlow.Value.Fault
/-!
# Equality and order of values

Equality is deep and by value: whole and floating-point numbers and booleans compare as numbers,
without rounding, and objects regardless of the order of their members. Order is defined between
numbers, between strings (by code point) and between lists (by the first difference); anything else
is a fault.

One place is not by value: a container compares what it holds by identity first, so a not-a-number
equals itself inside containers and nowhere else.
-/

set_option autoImplicit false

namespace NodeFlow

/-! ## 1. Numbers -/

/-- A number of either kind. -/
inductive Number
  | int (n : Int)
  | float (x : Binary64)
  deriving DecidableEq

namespace Number

/-- The order of two numbers, if neither is a not-a-number. -/
def order? : Number → Number → Option Ordering
  | .int m, .int n => some (compare m n)
  | .float x, .float y => x.order? y
  | .float x, .int n => x.orderInt? n
  | .int m, .float y => (y.orderInt? m).map Ordering.swap

end Number

namespace Value

/-- The number that a value compares as. Booleans compare as one and zero. -/
def magnitude? : Value → Option Number
  | .bool b => some (.int (if b then 1 else 0))
  | .int n => some (.int n)
  | .float x => some (.float x)
  | _ => none

/-! ## 2. Equality -/

/-- Are the two one and the same not-a-number? -/
def same : Value → Value → Bool
  | .float x, .float y => x.same y
  | _, _ => false

/-- Do two values that are not containers equal each other? -/
def equalAtoms (a b : Value) : Bool :=
  match a.magnitude?, b.magnitude? with
  | some x, some y => x.order? y = some .eq
  | none, none =>
    match a, b with
    | .null, .null => true
    | .undefined, .undefined => true
    | .str s, .str t => s = t
    | .store i _ _, .store j _ _ => i = j
    | _, _ => false
  | _, _ => false

mutual

/-- Equality by value. -/
def equal : Value → Value → Bool
  | .list _ xs, b =>
    match b with
    | .list _ ys => equalItems xs ys
    | _ => false
  | .dict _ ms, b =>
    match b with
    | .dict _ ns => ms.length = ns.length && equalMembers ms ns
    | _ => false
  | a, b => equalAtoms a b
termination_by structural a => a

/-- Equality of lists, element by element. -/
def equalItems : List Value → List Value → Bool
  | [], [] => true
  | x :: xs, y :: ys => (same x y || equal x y) && equalItems xs ys
  | _, _ => false
termination_by structural xs => xs

/-- Does every member have an equal one in the other object? -/
def equalMembers : List (String × Value) → List (String × Value) → Bool
  | [], _ => true
  | (k, x) :: ms, ns =>
    (match Members.get? ns k with
      | some y => same x y || equal x y
      | none => false) && equalMembers ms ns
termination_by structural ms => ms

end

/-- Equality of things held in a container: the same thing, or an equal one. -/
def equalHeld (x y : Value) : Bool := same x y || equal x y

end Value

/-! ## 3. Order -/

/-- The four comparisons by order. -/
inductive Comparison
  | lt | le | gt | ge
  deriving DecidableEq

namespace Comparison

/-- Does the comparison hold of two things in this order? -/
def holds : Comparison → Ordering → Bool
  | .lt, o => o = .lt
  | .le, o => o != .gt
  | .gt, o => o = .gt
  | .ge, o => o != .lt

end Comparison

namespace Value

/-- The order of texts by code point. -/
def compareText (s t : String) : Ordering :=
  if s < t then .lt else if s = t then .eq else .gt

/-- Order of two values that are not lists. A not-a-number is in no order with any number. -/
def orderAtoms (op : Comparison) (a b : Value) : Except Fault Bool :=
  match a.magnitude?, b.magnitude? with
  | some x, some y => .ok ((x.order? y).any op.holds)
  | _, _ =>
    match a, b with
    | .str s, .str t => .ok (op.holds (compareText s t))
    | _, _ => .error .type

mutual

/-- Order by value, for one of the four comparisons. -/
def ordered (op : Comparison) : Value → Value → Except Fault Bool
  | .list _ xs, b =>
    match b with
    | .list _ ys => orderedItems op xs ys
    | _ => .error .type
  | a, b => orderAtoms op a b
termination_by structural a => a

/-- Lists are in the order of the first two elements that differ, else of their lengths. -/
def orderedItems (op : Comparison) : List Value → List Value → Except Fault Bool
  | [], [] => .ok (op.holds .eq)
  | [], _ :: _ => .ok (op.holds .lt)
  | _ :: _, [] => .ok (op.holds .gt)
  | x :: xs, y :: ys => if equalHeld x y then orderedItems op xs ys else ordered op x y
termination_by structural xs => xs

end

end Value

end NodeFlow
