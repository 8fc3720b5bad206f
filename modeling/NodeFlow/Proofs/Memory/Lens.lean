import NodeFlow.Memory.Path
import NodeFlow.Proofs.Memory.Kept
import NodeFlow.Proofs.Value.Members
/-!
# Paths as a lens

What a write at a path amounts to can be said of values, without memory: along the path every object gets one other
member, and what is no object is replaced by an empty one first. Reading and writing then obey the laws of a lens.

The last law is about paths that part: a write at one does not show at the other. It asks for a way through objects
only. A list is replaced where a write leads through it, so what could be read through the list is lost.
-/

set_option autoImplicit false

namespace NodeFlow

/-! ## 1. Paths -/

namespace Path

theorem cut_ne_nil (s : List Char) : cut s ≠ [] := by
  cases s with
  | nil => exact List.cons_ne_nil _ _
  | cons c s =>
    rw [cut]
    split
    · exact List.cons_ne_nil _ _
    · split <;> exact List.cons_ne_nil _ _

theorem cut_append (s t : List Char) : cut (s ++ '.' :: t) = cut s ++ cut t := by
  induction s with
  | nil => rfl
  | cons c s ih =>
    rw [List.cons_append, cut, cut, ih]
    split
    · rfl
    · obtain ⟨first, more, hcut⟩ := List.exists_cons_of_ne_nil (cut_ne_nil s)
      rw [hcut]
      rfl

/-- A path that goes on behind another one has the segments of both. -/
theorem segments_append (p r : String) : segments (p ++ "." ++ r) = segments p ++ segments r := by
  have hpoint : (p ++ "." ++ r).toList = p.toList ++ '.' :: r.toList := by simp
  rw [segments, hpoint, cut_append, List.map_append, segments, segments]

theorem segments_ne_nil (p : String) : segments p ≠ [] := by
  rw [segments, ne_eq, List.map_eq_nil_iff]
  exact cut_ne_nil _

end Path

namespace Value

/-! ## 2. What a write amounts to -/

/-- A value with another one written at the end of a path. -/
def putAt (w : Value) : List String → Value → Value
  | [], _ => w
  | key :: rest, v => .ofMembers (Members.put key (putAt w rest (v.field key)) v.members)

variable {v w : Value}

theorem members_putAt (w v : Value) (key : String) (rest : List String) :
    (putAt w (key :: rest) v).members = Members.put key (putAt w rest (v.field key)) v.members := rfl

theorem step_putAt (w v : Value) (key other : String) (rest : List String) : (putAt w (key :: rest) v).step other =
    if other = key then some (putAt w rest (v.field key)) else Members.get? v.members other :=
  Members.get?_put _ _ _ _

/-- What is read at the path and beyond is read in what has been written. -/
theorem at?_putAt (w v : Value) (p r : List String) : (putAt w p v).at? (p ++ r) = w.at? r := by
  induction p generalizing v with
  | nil => rfl
  | cons key p ih => rw [List.cons_append, at?, step_putAt, if_pos rfl, Option.bind_some, ih]

theorem field_putAt (w v : Value) (key : String) (rest : List String) :
    (putAt w (key :: rest) v).field key = putAt w rest (v.field key) := by
  rw [field, members_putAt, Members.get?_put, if_pos rfl, Option.getD_some]

/-- Only the last write at a path counts. -/
theorem putAt_putAt (w w' v : Value) (p : List String) : putAt w' p (putAt w p v) = putAt w' p v := by
  induction p generalizing v with
  | nil => rfl
  | cons key p ih => rw [putAt, field_putAt, members_putAt, Members.put_put, ih, ← putAt]

/-- Does a path lead to an object, and through objects only? -/
def ByObjects (v : Value) (p : List String) : Prop :=
  ∀ front, front <+: p → ∃ x, v.at? front = some x ∧ x.isDict = true

theorem ByObjects.isDict {p : List String} (hp : v.ByObjects p) : v.isDict = true := by
  obtain ⟨x, hx, hdict⟩ := hp [] (List.nil_prefix)
  obtain rfl : v = x := Option.some.inj hx
  exact hdict

theorem step_of_isDict (h : v.isDict = true) (key : String) : v.step key = Members.get? v.members key := by
  cases v <;> first | rfl | cases h

theorem ByObjects.tail {key : String} {p : List String} (hp : v.ByObjects (key :: p)) :
    ∃ x, Members.get? v.members key = some x ∧ x.ByObjects p := by
  have hstep := step_of_isDict hp.isDict key
  obtain ⟨x, hx, -⟩ := hp [key] (List.prefix_append [key] p)
  rw [at?, hstep] at hx
  cases hget : Members.get? v.members key with
  | none =>
    rw [hget] at hx
    cases hx
  | some y =>
    refine ⟨y, rfl, fun front hfront => ?_⟩
    obtain ⟨z, hz, hdict⟩ := hp (key :: front) (List.cons_prefix_cons.2 ⟨rfl, hfront⟩)
    rw [at?, hstep, hget] at hz
    exact ⟨z, hz, hdict⟩

section

variable {p q c : List String} {key other : String}

theorem members_of_not_isDict (h : v.isDict = false) : v.members = [] := by
  cases v <;> first | rfl | cases h

/-- Objects that have been made for a write have no other members. -/
theorem at?_putAt_null (hne : other ≠ key) (c p q : List String) :
    (putAt w (c ++ key :: p) .null).at? (c ++ other :: q) = none := by
  induction c with
  | nil => rw [List.nil_append, List.nil_append, at?, step_putAt, if_neg hne]; rfl
  | cons k c ih =>
    rw [List.cons_append, List.cons_append, at?, step_putAt, if_pos rfl, Option.bind_some]
    exact ih

/-- A write does not show at a path that parts from it, in an object that is reached through objects only or where
nothing could be read. -/
theorem at?_putAt_of_ne (hne : other ≠ key) (p : List String)
    (hc : v.ByObjects c ∨ v.at? (c ++ other :: q) = none) :
    (putAt w (c ++ key :: p) v).at? (c ++ other :: q) = v.at? (c ++ other :: q) := by
  induction c generalizing v with
  | nil =>
    rw [List.nil_append, List.nil_append] at *
    rw [at?, step_putAt, if_neg hne]
    cases hdict : v.isDict with
    | true => rw [at?, step_of_isDict hdict]
    | false =>
      have hnone := hc.resolve_left fun hby => by rw [hby.isDict] at hdict; cases hdict
      rw [hnone, members_of_not_isDict hdict]
      rfl
  | cons k c ih =>
    rw [List.cons_append, List.cons_append, at?, step_putAt, if_pos rfl, Option.bind_some, field]
    cases hget : Members.get? v.members k with
    | some x =>
      have hstep : v.step k = some x := by
        cases v <;> first | exact hget | cases hget
      rw [at?, hstep, Option.bind_some]
      refine ih (hc.imp (fun hby => ?_) fun hnone => ?_)
      · obtain ⟨y, hy, hby'⟩ := hby.tail
        exact Option.some.inj (hget.symm.trans hy) ▸ hby'
      · rwa [List.cons_append, at?, hstep] at hnone
    | none =>
      -- there is nothing to be read, neither in the new objects nor where they have been put
      have hnone : v.at? (k :: (c ++ other :: q)) = none := by
        refine hc.elim (fun hby => ?_) id
        obtain ⟨y, hy, -⟩ := hby.tail
        rw [hget] at hy
        cases hy
      exact (at?_putAt_null hne c p q).trans hnone.symm

end

/-! ## 3. Values that are alike -/

theorem wholePart_bare (n : Int) (key : Value) : (wholePart n key).bare = wholePart n key := by
  rw [wholePart.eq_def]
  split <;> rfl

theorem binaryPart_bare (x : Binary64) (key : Value) : (binaryPart x key).bare = binaryPart x.bare key := by
  rw [binaryPart.eq_def, binaryPart.eq_def]
  split <;> rfl

/-- A part that there is, and nothing for one that is undefined. -/
def part? (v : Value) : Option Value :=
  match v with
  | .undefined => none
  | part => some part

theorem part?_bare (v : Value) : v.bare.part? = v.part?.map bare := by
  cases v with
  | list cell xs => rw [bare_list]; exact congrArg some (bare_list cell xs).symm
  | dict cell ms => rw [bare_dict]; exact congrArg some (bare_dict cell ms).symm
  | _ => rfl

theorem step_bool (b : Bool) (key : String) :
    (Value.bool b).step key = (wholePart (if b then 1 else 0) (.str key)).part? := by
  rw [step, property]
  cases wholePart (if b then 1 else 0) (.str key) <;> rfl

theorem step_int (n : Int) (key : String) : (Value.int n).step key = (wholePart n (.str key)).part? := by
  rw [step, property]
  cases wholePart n (.str key) <;> rfl

theorem step_float (x : Binary64) (key : String) : (Value.float x).step key = (binaryPart x (.str key)).part? := by
  rw [step, property]
  cases binaryPart x (.str key) <;> rfl

theorem step_bare (v : Value) (key : String) : v.bare.step key = (v.step key).map bare := by
  have helement : ∀ (xs : List Value) (n : Int), elementAt (xs.map bare) n = (elementAt xs n).map bare := by
    intro xs n
    rw [elementAt, elementAt, List.length_map]
    split
    · exact List.getElem?_map ..
    · split
      · exact List.getElem?_map ..
      · rfl
  cases v with
  | list cell xs =>
    rw [bare_list, step, step]
    cases Numeral.readInt? key.toList with
    | none => rfl
    | some n => exact helement xs n
  | dict cell ms =>
    rw [bare_dict, step, step]
    exact Members.get?_map bare ms key
  | store cell name ms =>
    rw [bare, bareMembers_eq, step, step]
    exact Members.get?_map bare ms key
  | bool b =>
    change (Value.bool b).step key = _
    rw [step_bool, ← part?_bare, wholePart_bare]
  | int n =>
    change (Value.int n).step key = _
    rw [step_int, ← part?_bare, wholePart_bare]
  | float x =>
    change (Value.float x.bare).step key = _
    rw [step_float, step_float, ← part?_bare, binaryPart_bare]
  | _ => rfl

theorem at?_bare (v : Value) (p : List String) : v.bare.at? p = (v.at? p).map bare := by
  induction p generalizing v with
  | nil => rfl
  | cons key p ih =>
    rw [at?, at?, step_bare]
    cases v.step key with
    | none => rfl
    | some x => exact ih x

theorem members_bare (v : Value) : v.bare.members = v.members.map fun m => (m.1, m.2.bare) := by
  cases v with
  | dict cell ms => rw [bare_dict]; rfl
  | list cell xs => rw [bare_list]; rfl
  | _ => rfl

theorem field_bare (v : Value) (key : String) : v.bare.field key = (v.field key).bare := by
  rw [field, field, members_bare, Members.get?_map]
  cases Members.get? v.members key <;> rfl

theorem isDict_bare (v : Value) : v.bare.isDict = v.isDict := by
  cases v with
  | dict cell ms => rw [bare_dict]; rfl
  | list cell xs => rw [bare_list]; rfl
  | _ => rfl

theorem byObjects_bare {p : List String} : v.bare.ByObjects p ↔ v.ByObjects p := by
  simp only [ByObjects, at?_bare, Option.map_eq_some_iff]
  refine forall₂_congr fun front _ => ⟨?_, ?_⟩
  · rintro ⟨-, ⟨x, hx, rfl⟩, hdict⟩
    exact ⟨x, hx, by rwa [isDict_bare] at hdict⟩
  · rintro ⟨x, hx, hdict⟩
    exact ⟨x.bare, ⟨x, hx, rfl⟩, by rwa [isDict_bare]⟩

end Value

end NodeFlow
