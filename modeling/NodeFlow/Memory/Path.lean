import NodeFlow.Expr.Property
import NodeFlow.Memory.Heap
/-!
# Dotted paths

A path is a text whose segments are separated by points. Reading follows it one segment at a time: a
key of an object or a store, a place in a list, a part of a number. Writing makes the objects on the
way where there is something else or nothing, and changes the object at its end in place, so the write
shows wherever that object is shared.

Every text is a path, and empty segments are keys like any other.
-/

set_option autoImplicit false

namespace NodeFlow

namespace Path

/-- A text cut at its points. -/
def cut : List Char → List (List Char)
  | [] => [[]]
  | c :: rest =>
    if c = '.' then [] :: cut rest
    else
      match cut rest with
      | [] => [[c]]
      | first :: more => (c :: first) :: more

/-- The segments of a path. -/
def segments (path : String) : List String :=
  (cut path.toList).map String.ofList

end Path

/-! ## 1. Reading -/

namespace Value

/-- One segment of a path. -/
def step (v : Value) (key : String) : Option Value :=
  match v with
  | .dict _ ms | .store _ _ ms => Members.get? ms key
  | .list _ xs => (Numeral.readInt? key.toList).bind (elementAt xs)
  | .bool _ | .int _ | .float _ =>
    match v.property (.str key) with
    | .ok .undefined => none
    | .ok part => some part
    | .error _ => none
  | _ => none

/-- What stands at the end of a path. -/
def at? (v : Value) : List String → Option Value
  | [] => some v
  | key :: rest => (v.step key).bind (at? · rest)

/-- What stands at the end of a dotted path. -/
def atPath? (v : Value) (path : String) : Option Value :=
  v.at? (Path.segments path)

end Value

/-! ## 2. Writing -/

namespace Heap

/-- The object that a datum is. -/
def objectOf? (h : Heap) : Datum → Option Addr
  | .ref a =>
    match h.cell? a with
    | some (.dict _) => some a
    | _ => none
  | _ => none

/-- Puts a member into an object in memory. -/
def putMember (a : Addr) (key : String) (d : Datum) (h : Heap) : Heap :=
  h.write a (.dict (Members.put key d (h.membersAt a)))

/-- The object that a member is, or a new one that is not put anywhere yet. -/
def objectUnder (a : Addr) (key : String) (h : Heap) : Addr × Heap :=
  match (Members.get? (h.membersAt a) key).bind h.objectOf? with
  | some b => (b, h)
  | none => h.alloc (.dict [])

/-- Writes below an object. The objects on the way are put under their keys as they are reached. -/
def writeBelow (a : Addr) (first : String) (rest : List String) (d : Datum) (h : Heap) : Heap :=
  match rest with
  | [] => h.putMember a first d
  | key :: more =>
    match (Members.get? (h.membersAt a) first).bind h.objectOf? with
    | some b => writeBelow b key more d h
    | none =>
      let r := h.alloc (.dict [])
      writeBelow r.1 key more d (r.2.putMember a first (.ref r.1))

end Heap

end NodeFlow
