import Mathlib.Data.Finset.Card
import NodeFlow.Proofs.Memory.Seal
import NodeFlow.Proofs.Value.Renaming
/-!
# Memory under a renaming

Two memories may hold the same in different cells. Outside of what is sealed each cell of the one is then a cell
of the other, renamed, and its content is renamed too. The views of what is free are the same up to the renaming,
and so they stay when both memories are changed alike.

The awkward thing up front: a view is cut off at a depth, which depends on how many cells there are. That this
makes no difference is a count: a path through memory meets no cell twice, so it ends before the depth does.
-/

set_option autoImplicit false

namespace NodeFlow

variable {σ : Renaming} {S : Seal}

/-- A datum under a renaming. -/
def Datum.renamed (σ : Renaming) : Datum → Datum
  | .float x => .float (x.renamed σ)
  | .ref a => .ref (σ.cell a)
  | .store a name => .store (σ.cell a) name
  | d => d

/-- A cell under a renaming. -/
def Cell.renamed (σ : Renaming) : Cell → Cell
  | .list xs => .list (xs.map (Datum.renamed σ))
  | .dict ms => .dict (ms.map fun m => (m.1, m.2.renamed σ))

@[simp] theorem Datum.renamed_null : Datum.null.renamed σ = .null := rfl

@[simp] theorem Datum.renamed_str (s : String) : (Datum.str s).renamed σ = .str s := rfl

@[simp] theorem Datum.renamed_ref (a : Addr) : (Datum.ref a).renamed σ = .ref (σ.cell a) := rfl

@[simp] theorem Datum.renamed_store (a : Addr) (name : String) :
    (Datum.store a name).renamed σ = .store (σ.cell a) name := rfl

/-- A shared context under a renaming is one with another cell. -/
theorem Shared.renamed_datum (s : Shared) : s.datum.renamed σ = { s with data := σ.cell s.data }.datum := by
  rw [datum, datum]
  cases s.store <;> rfl

@[simp] theorem Datum.renamed_refl (d : Datum) : d.renamed .refl = d := by
  cases d with
  | float x =>
    cases x with
    | nan label => simp [renamed, Binary64.renamed]
    | _ => rfl
  | _ => rfl

@[simp] theorem Cell.renamed_refl (c : Cell) : c.renamed .refl = c := by
  have hid : Datum.renamed .refl = id := funext Datum.renamed_refl
  cases c <;> simp [renamed, hid]

theorem Datum.refs_renamed (d : Datum) : (d.renamed σ).refs = d.refs.map σ.cell := by
  cases d <;> rfl

theorem Cell.parts_renamed (c : Cell) : (c.renamed σ).parts = c.parts.map (Datum.renamed σ) := by
  cases c with
  | list xs => rfl
  | dict ms => simp only [renamed, parts, List.map_map, Function.comp_def]

/-! ## 1. What keeps its names -/

namespace Value

theorem marks_renamed (v : Value) : (v.renamed σ).marks = v.marks.map σ.cell := by
  have hall : ∀ {xs : List Value}, (∀ x ∈ xs, (x.renamed σ).marks = x.marks.map σ.cell) →
      (xs.map (renamed σ)).flatMap marks = (xs.flatMap marks).map σ.cell := by
    intro xs h
    rw [List.flatMap_map, List.map_flatMap, List.flatMap_def, List.flatMap_def]
    exact congrArg _ (List.map_congr_left h)
  have hmembers : ∀ {ms : List (String × Value)}, (∀ m ∈ ms, (m.2.renamed σ).marks = m.2.marks.map σ.cell) →
      ((ms.map fun m => (m.1, m.2.renamed σ)).map Prod.snd).flatMap marks =
        ((ms.map Prod.snd).flatMap marks).map σ.cell := by
    intro ms h
    have hsnd := hall (List.forall_mem_map.2 h)
    rwa [List.map_map] at hsnd ⊢
  induction v using Value.induction with
  | plain v hp =>
    cases v with
    | list | dict | store => cases hp
    | _ => rfl
  | list cell xs ih =>
    rw [renamed_list, marks_list, marks_list, hall ih, List.map_append]
    cases cell <;> rfl
  | dict cell ms ih =>
    rw [renamed_dict, marks_dict, marks_dict, hmembers ih, List.map_append]
    cases cell <;> rfl
  | store cell name ms ih => rw [renamed_store, marks_store, marks_store, hmembers ih, List.map_cons]

/-- A value whose cells and labels keep their names stays as it is. -/
theorem renamed_of_fixed (hlabel : σ.label = id) {v : Value} (h : ∀ a ∈ v.marks, σ.cell a = a) : v.renamed σ = v := by
  have hmembers : ∀ {ms : List (String × Value)}, (∀ m ∈ ms, m.2.renamed σ = m.2) →
      (ms.map fun m => (m.1, m.2.renamed σ)) = ms := by
    intro ms hms
    exact (List.map_congr_left fun m hm => congrArg (Prod.mk m.1) (hms m hm)).trans (List.map_id ms)
  have hin : ∀ {ms : List (String × Value)}, (∀ a ∈ (ms.map Prod.snd).flatMap marks, σ.cell a = a) →
      ∀ m ∈ ms, ∀ a ∈ m.2.marks, σ.cell a = a :=
    fun hms m hm a ha => hms a (List.mem_flatMap.2 ⟨m.2, List.mem_map_of_mem hm, ha⟩)
  induction v using Value.induction with
  | plain v hp =>
    cases v with
    | float x =>
      cases x with
      | nan label => simp [Binary64.renamed, hlabel]
      | _ => rfl
    | list | dict | store => cases hp
    | _ => rfl
  | list cell xs ih =>
    rw [marks_list, List.forall_mem_append] at h
    have hxs : xs.map (renamed σ) = xs :=
      (List.map_congr_left fun x hx => ih x hx fun a ha => h.2 a (List.mem_flatMap.2 ⟨x, hx, ha⟩)).trans (List.map_id' xs)
    rw [renamed_list, hxs]
    cases cell with
    | none => rfl
    | some a => rw [Option.map_some, h.1 a (List.mem_singleton_self a)]
  | dict cell ms ih =>
    rw [marks_dict, List.forall_mem_append] at h
    rw [renamed_dict, hmembers fun m hm => ih m hm (hin h.2 m hm)]
    cases cell with
    | none => rfl
    | some a => rw [Option.map_some, h.1 a (List.mem_singleton_self a)]
  | store cell name ms ih =>
    rw [marks_store, List.forall_mem_cons] at h
    rw [renamed_store, hmembers fun m hm => ih m hm (hin h.2 m hm), h.1]

end Value

theorem Cell.renamed_of_fixed {c : Cell} (hlabel : σ.label = id) (h : ∀ part ∈ c.parts, ∀ a ∈ part.refs, σ.cell a = a) :
    c.renamed σ = c := by
  have hdatum : ∀ x : Datum, (∀ a ∈ x.refs, σ.cell a = a) → x.renamed σ = x := by
    intro x hx
    cases x with
    | float x =>
      cases x with
      | nan label => simp [Datum.renamed, Binary64.renamed, hlabel]
      | _ => rfl
    | ref a => rw [Datum.renamed_ref, hx a (List.mem_singleton_self a)]
    | store a name => rw [Datum.renamed_store, hx a (List.mem_singleton_self a)]
    | _ => rfl
  cases c with
  | list xs =>
    have hxs : ∀ x ∈ xs, x.renamed σ = x := fun x hx => hdatum x (h x hx)
    rw [Cell.renamed, List.map_congr_left hxs, List.map_id']
  | dict ms =>
    have hms : ∀ m ∈ ms, (m.1, m.2.renamed σ) = m := fun m hm =>
      congrArg (Prod.mk m.1) (hdatum m.2 (h m.2 (List.mem_map_of_mem hm)))
    rw [Cell.renamed, List.map_congr_left hms, List.map_id']

namespace Heap

/-! ## 2. Views -/

/-- What one memory holds outside of what is sealed another one holds as well, renamed. -/
structure Reflects (σ : Renaming) (S : Seal) (h h' : Heap) : Prop where
  apart : h.Apart S
  cell : ∀ a, S a = none → h'.cell? (σ.cell a) = (h.cell? a).map (Cell.renamed σ)

variable {h h' : Heap}

theorem Reflects.membersAt (hs : Reflects σ S h h') {a : Addr} (ha : S a = none) :
    h'.membersAt (σ.cell a) = (h.membersAt a).map fun m => (m.1, m.2.renamed σ) := by
  rw [Heap.membersAt, Heap.membersAt, hs.cell a ha]
  cases h.cell? a with
  | none => rfl
  | some c => cases c <;> rfl

theorem Reflects.itemsAt (hs : Reflects σ S h h') {a : Addr} (ha : S a = none) :
    h'.itemsAt (σ.cell a) = (h.itemsAt a).map (Datum.renamed σ) := by
  rw [Heap.itemsAt, Heap.itemsAt, hs.cell a ha]
  cases h.cell? a with
  | none => rfl
  | some c => cases c <;> rfl

/-- A path through memory: it meets no cell twice. -/
structure Trail (h : Heap) (path : List Addr) : Prop where
  nodup : path.Nodup
  lt : ∀ a ∈ path, a < h.cells.size

theorem Trail.length_le {path : List Addr} (hpath : h.Trail path) : path.length ≤ h.cells.size := by
  have hsubset : path.toFinset ⊆ Finset.range h.cells.size := by
    intro a ha
    exact Finset.mem_range.2 (hpath.lt a (List.mem_toFinset.1 ha))
  have hcard := Finset.card_le_card hsubset
  rwa [List.toFinset_card_of_nodup hpath.nodup, Finset.card_range] at hcard

theorem Trail.cons {path : List Addr} (hpath : h.Trail path) {a : Addr} (hnew : a ∉ path) {c : Cell}
    (hc : h.cell? a = some c) : h.Trail (a :: path) where
  nodup := List.nodup_cons.2 ⟨hnew, hpath.nodup⟩
  lt := List.forall_mem_cons.2 ⟨cell?_lt hc, hpath.lt⟩

theorem contains_renamed (path : List Addr) (a : Addr) :
    (path.map σ.cell).contains (σ.cell a) = path.contains a := by
  rw [Bool.eq_iff_iff, List.contains_iff_mem, List.contains_iff_mem]
  exact List.mem_map_of_injective σ.cell_injective

/-- A view is the same up to the renaming, at any two depths that no path through memory exceeds. -/
theorem Reflects.viewWithin (hs : Reflects σ S h h') {depth depth' : Nat} {path : List Addr} {d : Datum}
    (hd : d.Free S) (hpath : h.Trail path) (hpath' : h'.Trail (path.map σ.cell))
    (hdepth : h.cells.size < depth + path.length) (hdepth' : h'.cells.size < depth' + path.length) :
    h'.viewWithin depth' (path.map σ.cell) (d.renamed σ) = (h.viewWithin depth path d).renamed σ := by
  induction depth generalizing depth' path d with
  | zero =>
    rw [Nat.zero_add] at hdepth
    exact absurd hpath.length_le (Nat.not_le.2 hdepth)
  | succ depth ih =>
    have hlength' := hpath'.length_le
    rw [List.length_map] at hlength'
    obtain ⟨deep, rfl⟩ : ∃ deep, depth' = deep + 1 := Nat.exists_eq_succ_of_ne_zero (by omega)
    -- a container that is not cut leads on into each of its parts
    have hparts : ∀ a c, S a = none → a ∉ path → h.cell? a = some c → ∀ part ∈ c.parts,
        h'.viewWithin deep (σ.cell a :: path.map σ.cell) (part.renamed σ) =
          (h.viewWithin depth (a :: path) part).renamed σ := by
      intro a c ha hnew hc part hpart
      have hc' : h'.cell? (σ.cell a) = some (c.renamed σ) := by rw [hs.cell a ha, hc, Option.map_some]
      have hnew' : σ.cell a ∉ path.map σ.cell := by rwa [List.mem_map_of_injective σ.cell_injective]
      have hlonger : (a :: path).length = path.length + 1 := rfl
      exact ih (hs.apart a c ha hc part hpart) (hpath.cons hnew hc) (hpath'.cons hnew' hc') (by omega)
        (by omega)
    cases d with
    | ref a =>
      rw [Datum.free_ref] at hd
      rw [Datum.renamed_ref, Heap.viewWithin, Heap.viewWithin, contains_renamed, hs.cell a hd]
      by_cases hcontains : path.contains a = true
      · rw [if_pos hcontains, if_pos hcontains]
        rfl
      rw [if_neg hcontains, if_neg hcontains]
      have hnew : a ∉ path := fun hmem => hcontains (List.contains_iff_mem.2 hmem)
      cases hc : h.cell? a with
      | none => rfl
      | some c =>
        have hbelow := hparts a c hd hnew hc
        cases c with
        | list xs =>
          simp only [Option.map_some, Cell.renamed, Value.renamed_list, List.map_map]
          exact congrArg _ (List.map_congr_left hbelow)
        | dict ms =>
          simp only [Option.map_some, Cell.renamed, Value.renamed_dict, List.map_map]
          refine congrArg _ (List.map_congr_left fun m hm => ?_)
          exact congrArg (Prod.mk m.1) (hbelow m.2 (List.mem_map_of_mem hm))
    | store a name =>
      rw [Datum.free_store] at hd
      rw [Datum.renamed_store, Heap.viewWithin, Heap.viewWithin, contains_renamed, hs.membersAt hd]
      by_cases hcontains : path.contains a = true
      · rw [if_pos hcontains, if_pos hcontains]
        rfl
      rw [if_neg hcontains, if_neg hcontains, Value.renamed_store, List.map_map, List.map_map]
      have hnew : a ∉ path := fun hmem => hcontains (List.contains_iff_mem.2 hmem)
      refine congrArg _ (List.map_congr_left fun m hm => congrArg (Prod.mk m.1) ?_)
      rw [Heap.membersAt] at hm
      split at hm
      · next ms hc => exact hparts a _ hd hnew hc m.2 (List.mem_map_of_mem hm)
      · exact absurd hm List.not_mem_nil
    | _ => rfl

/-- Two memories stay alike if they get the same new cell, and no older cell bears the name of the next one. -/
theorem Reflects.alloc (hs : Reflects σ S h h') (hcells : ∀ k, σ.cell (h.cells.size + k) = h'.cells.size + k) {c : Cell}
    (hc : c.Free S) : Reflects σ S (h.alloc c).2 (h'.alloc (c.renamed σ)).2 := by
  refine ⟨fun a c' ha hc' => ?_, fun a ha => ?_⟩
  · rcases cell?_alloc_cases hc' with hold | ⟨-, rfl⟩
    · exact hs.apart a c' ha hold
    · exact hc
  · -- an older cell, the new one, or none in both memories
    rcases Nat.lt_trichotomy a h.cells.size with hlt | rfl | hgt
    · have hold := hs.cell a ha
      have hlt' : σ.cell a < h'.cells.size := by
        obtain ⟨c', hc'⟩ : ∃ c', h.cell? a = some c' := ⟨_, Array.getElem?_eq_getElem hlt⟩
        rw [hc', Option.map_some] at hold
        exact cell?_lt hold
      rw [cell?_alloc_of_lt hlt, cell?_alloc_of_lt hlt', hold]
    · rw [show σ.cell h.cells.size = h'.cells.size from hcells 0, cell?_alloc_self, cell?_alloc_self, Option.map_some]
    · obtain ⟨k, rfl⟩ := Nat.exists_eq_add_of_lt hgt
      have hnone : ∀ (g : Heap) (c : Cell), (g.alloc c).2.cell? (g.cells.size + (k + 1)) = none := by
        intro g c
        refine Array.getElem?_eq_none ?_
        rw [size_alloc]
        exact Nat.add_le_add_left (Nat.le_add_left 1 k) _
      rw [Nat.add_assoc, hcells (k + 1), hnone, hnone, Option.map_none]

theorem trail_nil (h : Heap) : h.Trail [] := ⟨List.nodup_nil, fun _ ha => absurd ha List.not_mem_nil⟩

theorem Reflects.view (hs : Reflects σ S h h') {d : Datum} (hd : d.Free S) :
    h'.view (d.renamed σ) = (h.view d).renamed σ :=
  hs.viewWithin hd h.trail_nil h'.trail_nil (Nat.lt_succ_self _) (Nat.lt_succ_self _)

end Heap

end NodeFlow
