import Mathlib.Data.List.Pairwise
import NodeFlow.Proofs.Description.Marks
import NodeFlow.Proofs.Memory.Seal
/-!
# Parts of a held value

The fields of an object and the elements of a list are held where the whole is, and if no cell has two
places in the whole, different parts have no cell in common.

Of a value that is kept in memory some parts may be handed on, and then anything can happen to them. The rest can be
sealed: no cell around the parts refers to anything else of the value, nor does what was there before. What is
sealed is read as it was kept. Where a part has been left out, a reader finds the sealed cells around it and
comes to whatever has become of it.
-/

set_option autoImplicit false

namespace NodeFlow

namespace Value

variable {v : Value} {key : String}

/-! ## 1. Parts -/

/-- A field is null, or it stands among the members of an object. -/
theorem field_cases (v : Value) (key : String) :
    v.field key = .null ∨ ∃ cell ms, v = .dict cell ms ∧ (key, v.field key) ∈ ms := by
  cases v with
  | dict cell ms =>
    rw [field, members]
    cases hget : Members.get? ms key with
    | none => exact Or.inl rfl
    | some x => exact Or.inr ⟨cell, ms, rfl, Members.mem_of_get? hget⟩
  | _ => exact Or.inl rfl

theorem mem_marks_field {a : Addr} (ha : a ∈ (v.field key).marks) :
    ∃ cell ms, v = .dict cell ms ∧ (key, v.field key) ∈ ms := by
  rcases v.field_cases key with hnull | hmem
  · rw [hnull] at ha
    exact absurd ha List.not_mem_nil
  · exact hmem

theorem marks_field_subset (v : Value) (key : String) : ∀ a ∈ (v.field key).marks, a ∈ v.marks := by
  intro a ha
  obtain ⟨cell, ms, hv, hmem⟩ := mem_marks_field ha
  have hsnd : v.field key ∈ ms.map Prod.snd := List.mem_map.2 ⟨_, hmem, rfl⟩
  generalize v.field key = x at ha hsnd
  rw [hv, marks_dict]
  exact List.mem_append_right _ (List.mem_flatMap.2 ⟨x, hsnd, ha⟩)

theorem marks_item_subset {x : Value} (hx : x ∈ v.items) : ∀ a ∈ x.marks, a ∈ v.marks := by
  intro a ha
  cases v with
  | list cell xs =>
    rw [marks_list]
    exact List.mem_append_right _ (List.mem_flatMap.2 ⟨x, hx, ha⟩)
  | _ => exact absurd hx List.not_mem_nil

/-! ## 2. No cell twice -/

theorem not_mem_of_nodup_flatMap {α : Type} {f : α → List Addr} {xs : List α}
    (h : (xs.flatMap f).Nodup) {x y : α} (hx : x ∈ xs) (hy : y ∈ xs) (hne : x ≠ y) {a : Addr}
    (ha : a ∈ f x) : a ∉ f y := by
  have hsymm : Std.Symm (Function.onFun List.Disjoint f) := ⟨fun _ _ h _ ha hb => h hb ha⟩
  exact (List.nodup_flatMap.1 h).2.forall hx hy hne ha

theorem nodup_members {cell : Option Addr} {ms : List (String × Value)}
    (h : (Value.dict cell ms).marks.Nodup) :
    (ms.flatMap fun m => m.2.marks).Nodup ∧
      ∀ a ∈ cell, a ∉ ms.flatMap fun m => m.2.marks := by
  rw [marks_dict, List.nodup_append, List.flatMap_map] at h
  refine ⟨h.2.1, ?_⟩
  intro a ha hmem
  have hcell : a ∈ cell.toList := Option.mem_toList.2 ha
  exact h.2.2 a hcell a hmem rfl

/-- The cell of an object is none of its fields. -/
theorem not_mem_marks_field {a : Addr} {ms : List (String × Value)}
    (h : (Value.dict (some a) ms).marks.Nodup) (key : String) :
    a ∉ ((Value.dict (some a) ms).field key).marks := by
  intro ha
  obtain ⟨cell, ms', hv, hmem⟩ := mem_marks_field ha
  obtain ⟨rfl, rfl⟩ := Value.dict.inj hv
  exact (nodup_members h).2 a rfl (List.mem_flatMap.2 ⟨_, hmem, ha⟩)

theorem nodup_field (h : v.marks.Nodup) (key : String) : (v.field key).marks.Nodup := by
  rcases v.field_cases key with hnull | ⟨cell, ms, hv, hmem⟩
  · rw [hnull]
    exact List.nodup_nil
  · rw [hv] at h
    exact (List.nodup_flatMap.1 (nodup_members h).1).1 _ hmem

/-- Two fields have no cell in common. -/
theorem not_mem_marks_of_field_ne (h : v.marks.Nodup) {key other : String} (hne : key ≠ other)
    {a : Addr} (ha : a ∈ (v.field key).marks) : a ∉ (v.field other).marks := by
  intro hother
  obtain ⟨cell, ms, hv, hmem⟩ := mem_marks_field ha
  obtain ⟨cell', ms', hv', hmem'⟩ := mem_marks_field hother
  obtain ⟨rfl, rfl⟩ := Value.dict.inj (hv.symm.trans hv')
  rw [hv] at h
  -- the two members differ, for their keys do
  have hmembers : (key, v.field key) ≠ (other, v.field other) := by
    intro heq
    exact hne (congrArg Prod.fst heq)
  exact not_mem_of_nodup_flatMap (nodup_members h).1 hmem hmem' hmembers ha hother

theorem nodup_items (h : v.marks.Nodup) : (v.items.flatMap marks).Nodup := by
  cases v with
  | list cell xs =>
    rw [marks_list, List.nodup_append] at h
    exact h.2.1
  | _ => exact List.nodup_nil

/-- Two elements have no cell in common. -/
theorem not_mem_marks_of_item_ne (h : v.marks.Nodup) {x y : Value} (hx : x ∈ v.items)
    (hy : y ∈ v.items) (hne : x ≠ y) {a : Addr} (ha : a ∈ x.marks) : a ∉ y.marks :=
  not_mem_of_nodup_flatMap (nodup_items h) hx hy hne ha

end Value

namespace Heap

variable {h : Heap} {v : Value}

/-! ## 3. Parts in memory -/

theorem Holds.field (hv : h.Holds v) (key : String) : h.Holds (v.field key) := by
  rcases v.field_cases key with hnull | ⟨cell, ms, rfl, hmem⟩
  · rw [hnull]
    exact .plain rfl
  · cases hv with
    | plain hp => cases hp
    | dict _ _ hms => exact hms _ hmem

theorem Holds.item (hv : h.Holds v) {x : Value} (hx : x ∈ v.items) : h.Holds x := by
  cases hv with
  | plain hp => cases v <;> first | exact absurd hx List.not_mem_nil | cases hp
  | list _ _ hxs => exact hxs x hx
  | dict => exact absurd hx List.not_mem_nil

/-- The cell of a held value is that of no field of it. -/
theorem Holds.not_mem_field (hv : h.Holds v) (hnodup : v.marks.Nodup) (key : String) :
    ∀ a ∈ v.datum.refs, a ∉ (v.field key).marks := by
  intro a ha
  cases hv with
  | plain hp =>
    -- what is no container refers to no cell
    cases v with
    | list | dict | store => cases hp
    | _ => exact absurd ha List.not_mem_nil
  | list _ _ _ => exact List.not_mem_nil
  | dict _ _ _ =>
    obtain rfl := List.mem_singleton.1 ha
    exact Value.not_mem_marks_field hnodup key

theorem view_dict {a : Addr} {ms : Members Datum} (hcell : h.cell? a = some (.dict ms)) :
    h.view (.ref a) = .dict (some a) (ms.map fun m => (m.1, h.viewWithin h.cells.size [a] m.2)) := by
  rw [view, viewWithin, hcell]
  rfl

theorem view_list {a : Addr} {xs : List Datum} (hcell : h.cell? a = some (.list xs)) :
    h.view (.ref a) = .list (some a) (xs.map (h.viewWithin h.cells.size [a])) := by
  rw [view, viewWithin, hcell]
  rfl

theorem viewWithin_int (h : Heap) (depth : Nat) (path : List Addr) (k : Int) :
    h.viewWithin depth path (.int k) = .int k := by
  cases depth <;> rfl

end Heap

theorem Value.eq_str_of_datum {v : Value} {s : String} (h : v.datum = .str s) : v = .str s := by
  cases v with
  | str t => exact congrArg Value.str (Datum.str.inj h)
  | list cell xs => cases cell <;> cases h
  | dict cell ms => cases cell <;> cases h
  | _ => cases h

namespace Heap

/-! ## 4. Leaving parts out -/

/-- The cells of a value outside of some of its parts, with what they hold. -/
def sealBut (h : Heap) (v : Value) (parts : List Value) : Seal := fun a =>
  if a ∈ v.marks ∧ a ∉ parts.flatMap Value.marks then h.cell? a else none

variable {h₀ h kept : Heap} {v₀ v p : Value} {parts : List Value} {S : Seal} {a : Addr}

theorem sealBut_of_not_mem (ha : a ∉ v.marks) : kept.sealBut v parts a = none := if_neg fun hmem => ha hmem.1

theorem sealBut_of_part (hp : p ∈ parts) (ha : a ∈ p.marks) : kept.sealBut v parts a = none :=
  if_neg fun hmem => hmem.2 (List.mem_flatMap.2 ⟨p, hp, ha⟩)

theorem sealBut_eq (ha : a ∈ v.marks) (hparts : ∀ p ∈ parts, a ∉ p.marks) :
    kept.sealBut v parts a = kept.cell? a := by
  refine if_pos ⟨ha, fun hmem => ?_⟩
  obtain ⟨p, hp, hap⟩ := List.mem_flatMap.1 hmem
  exact hparts p hp hap

/-- A value that has just been kept is sealed outside of its parts. -/
theorem obeys_sealBut (hkept : Kept h₀ v₀ v kept) (hclosed : h₀.Closed) (hparts : ∀ p ∈ parts, kept.Holds p) :
    kept.Obeys (kept.sealBut v parts) where
  sealed a c hs := by
    rw [sealBut] at hs
    split at hs
    · exact hs
    · cases hs
  free a c hs hc := by
    intro d hd b hb
    by_cases hold : a < h₀.cells.size
    · -- an older cell knows none of the new ones
      rw [hkept.extends_.cell a hold] at hc
      exact sealBut_of_not_mem fun hmem => absurd (hclosed a c hc d hd b hb) (Nat.not_lt.2 (hkept.new b hmem))
    · -- a new cell that is not sealed is one of a part, and so is all that it refers to
      have hmem := hkept.all a (Nat.not_lt.1 hold) (cell?_lt hc)
      by_cases hpart : a ∈ parts.flatMap Value.marks
      · obtain ⟨p, hp, hap⟩ := List.mem_flatMap.1 hpart
        exact sealBut_of_part hp ((hparts p hp).refs_subset hap hc d hd b hb)
      · rw [sealBut, if_pos ⟨hmem, hpart⟩, hc] at hs
        cases hs

/-! ## 5. Reading -/

/-- A sealed cell stays as it was. -/
theorem Obeys.cell?_eq (hh : h.Obeys S) (ha : S a = kept.cell? a) (hlt : a < kept.cells.size) :
    h.cell? a = kept.cell? a := by
  have hcell : kept.cell? a = some kept.cells[a] := Array.getElem?_eq_getElem hlt
  rw [hcell] at ha ⊢
  exact hh.sealed a _ ha

/-- A value that is sealed altogether is still held. -/
theorem Holds.of_obeys (hv : kept.Holds v) (hh : h.Obeys S) (hsealed : ∀ a ∈ v.marks, S a = kept.cell? a) : h.Holds v :=
  hv.congr fun a ha => hh.cell?_eq (hsealed a ha) (hv.mark_lt a ha)

theorem viewWithin_null (h : Heap) (depth : Nat) (path : List Addr) : h.viewWithin depth path .null = .null := by
  cases depth <;> rfl

theorem viewWithin_eq_str {depth : Nat} {path : List Addr} {d : Datum} {s : String} :
    h.viewWithin depth path d = .str s ↔ d = .str s := by
  cases d with
  | ref b =>
    refine ⟨fun hview => ?_, fun hstr => by cases hstr⟩
    cases depth with
    | zero => cases hview
    | succ depth =>
      rw [viewWithin] at hview
      split at hview
      · cases hview
      · split at hview <;> cases hview
  | store b name =>
    refine ⟨fun hview => ?_, fun hstr => by cases hstr⟩
    cases depth with
    | zero => cases hview
    | succ depth =>
      rw [viewWithin] at hview
      split at hview <;> cases hview
  | _ => cases depth <;> simp [viewWithin]

/-- A member of what is held is seen below its cell, if this cell stays as it was and has not been passed. -/
theorem Holds.get?_viewWithin (hv : kept.Holds v) (hcell : ∀ a ∈ v.datum.refs, h.cell? a = kept.cell? a)
    {path : List Addr} (hpath : ∀ a ∈ v.datum.refs, a ∉ path) (depth : Nat) (key : String) :
    Members.get? (h.viewWithin (depth + 1) path v.datum).members key =
      (Members.get? v.members key).map fun x => h.viewWithin depth (v.datum.refs ++ path) x.datum := by
  cases hv with
  | plain hp =>
    -- what is no container has no members
    cases v with
    | list | dict | store => cases hp
    | _ => rfl
  | @list a xs hold _ _ =>
    have hsame := hcell a (List.mem_singleton_self a)
    have hnew := hpath a (List.mem_singleton_self a)
    rw [Value.datum, viewWithin, if_neg (by simpa using hnew), hsame, hold]
    rfl
  | @dict a ms hold _ _ =>
    have hsame := hcell a (List.mem_singleton_self a)
    have hnew := hpath a (List.mem_singleton_self a)
    rw [Value.datum, viewWithin, if_neg (by simpa using hnew), hsame, hold]
    dsimp only
    rw [Value.members, List.map_map]
    exact Members.get?_map (fun x => h.viewWithin depth (a :: path) x.datum) ms key

/-- And so is a field. -/
theorem Holds.field_viewWithin (hv : kept.Holds v) (hcell : ∀ a ∈ v.datum.refs, h.cell? a = kept.cell? a)
    {path : List Addr} (hpath : ∀ a ∈ v.datum.refs, a ∉ path) (depth : Nat) (key : String) :
    (h.viewWithin (depth + 1) path v.datum).field key =
      h.viewWithin depth (v.datum.refs ++ path) (v.field key).datum := by
  rw [Value.field, hv.get?_viewWithin hcell hpath, Value.field]
  cases Members.get? v.members key with
  | none => exact (viewWithin_null h depth _).symm
  | some x => rfl

end Heap

end NodeFlow
