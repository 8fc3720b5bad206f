import NodeFlow.Proofs.Memory.Counts
import NodeFlow.Proofs.Memory.Renaming
/-!
# Memory that grows

New cells come behind all older ones. As long as nothing refers to a cell that is not there yet, what an older
datum shows does not depend on what has come since: a view of it is the same as long as the older cells are.

A cell that is not there yet is treated as a sealed one here, so what is known of free data carries over. The
awkward thing up front: this seal gets smaller as memory grows.
-/

set_option autoImplicit false

namespace NodeFlow

/-- The cells from a number on. -/
def Seal.beyond (n : Nat) : Seal := fun a => if a < n then none else some (.dict [])

theorem Seal.beyond_eq_none {n : Nat} {a : Addr} : Seal.beyond n a = none ↔ a < n := by
  unfold beyond
  split <;> simp_all

section

variable {n n' : Nat}

theorem Seal.beyond_mono (h : n ≤ n') {a : Addr} (ha : Seal.beyond n a = none) : Seal.beyond n' a = none :=
  beyond_eq_none.2 (Nat.lt_of_lt_of_le (beyond_eq_none.1 ha) h)

theorem Datum.Free.later {d : Datum} (hd : d.Free (.beyond n)) (h : n ≤ n') : d.Free (.beyond n') :=
  fun a ha => Seal.beyond_mono h (hd a ha)

theorem Value.Free.later {v : Value} (hv : v.Free (.beyond n)) (h : n ≤ n') : v.Free (.beyond n') :=
  fun a ha => Seal.beyond_mono h (hv a ha)

theorem Cell.Free.later {c : Cell} (hc : c.Free (.beyond n)) (h : n ≤ n') : c.Free (.beyond n') :=
  fun d hd => (hc d hd).later h

end

namespace Heap

variable {h h' : Heap}

theorem closed_iff : h.Closed ↔ ∀ a c, h.cell? a = some c → c.Free (.beyond h.cells.size) :=
  forall_congr' fun _ => forall_congr' fun _ => forall_congr' fun _ => forall_congr' fun _ =>
    forall_congr' fun _ => forall_congr' fun _ => forall_congr' fun _ => Seal.beyond_eq_none.symm

/-- Whether memory is closed can be seen cell by cell. -/
theorem closed_of_forall (hh : ∀ c ∈ h.cells.toList, ∀ d ∈ c.parts, ∀ b ∈ d.refs, b < h.cells.size) : h.Closed :=
  fun _ _ hc => hh _ (Array.mem_toList_iff.2 (Array.mem_of_getElem? hc))

theorem Closed.apart (hh : h.Closed) : h.Apart (.beyond h.cells.size) := fun a c _ hc =>
  closed_iff.1 hh a c hc

/-! ## 1. Views -/

theorem shows_of_extends (hh : h.Closed) (hext : h'.Extends h) :
    Reflects .refl (.beyond h.cells.size) h h' where
  apart := hh.apart
  cell a ha := by
    rw [Renaming.refl_cell, id, hext.cell a (Seal.beyond_eq_none.1 ha)]
    cases h.cell? a with
    | none => rfl
    | some c => rw [Option.map_some, Cell.renamed_refl]

/-- What an older datum shows stays as it is while memory grows. -/
theorem Extends.view_eq (hext : h'.Extends h) (hh : h.Closed) {d : Datum} (hd : d.Free (.beyond h.cells.size)) :
    h'.view d = h.view d := by
  have hview := (shows_of_extends hh hext).view hd
  rwa [Datum.renamed_refl, Value.renamed_refl] at hview

theorem cell?_eq_none {a : Addr} : h.cell? a = none ↔ h.cells.size ≤ a := Array.getElem?_eq_none_iff

/-- A view stays as it is if the cells that show in it do, and no cells come into use. -/
theorem viewWithin_congr (hsize : h'.cells.size = h.cells.size) (depth : Nat) (path : List Addr) (d : Datum)
    (heq : ∀ a ∈ (h.viewWithin depth path d).marks, h'.cell? a = h.cell? a) :
    h'.viewWithin depth path d = h.viewWithin depth path d := by
  induction depth generalizing path d with
  | zero => cases d <;> rfl
  | succ depth ih =>
    -- the cell of a container that shows is the same, and so are its parts
    have hmembers : ∀ {ms : Members Datum} {path : List Addr}, (∀ a ∈ ((ms.map fun m =>
        (m.1, h.viewWithin depth path m.2)).map Prod.snd).flatMap Value.marks, h'.cell? a = h.cell? a) →
        (ms.map fun m => (m.1, h'.viewWithin depth path m.2)) = ms.map fun m => (m.1, h.viewWithin depth path m.2) := by
      intro ms path hms
      rw [List.map_map] at hms
      refine List.map_congr_left fun m hm => congrArg (Prod.mk m.1) (ih _ _ fun a ha => hms a ?_)
      exact List.mem_flatMap.2 ⟨_, List.mem_map_of_mem hm, ha⟩
    cases d with
    | ref a =>
      rw [viewWithin] at heq ⊢
      rw [viewWithin]
      split
      · rfl
      next hpath =>
      rw [if_neg hpath] at heq
      cases hc : h.cell? a with
      | none => rw [cell?_eq_none.2 (hsize ▸ cell?_eq_none.1 hc)]
      | some c =>
        rw [hc] at heq
        cases c with
        | list xs =>
          simp only [Value.marks_list_some, List.forall_mem_cons] at heq
          rw [heq.1, hc]
          refine congrArg (Value.list (some a)) (List.map_congr_left fun x hx => ih _ _ fun b hb => heq.2 b ?_)
          exact List.mem_flatMap.2 ⟨_, List.mem_map_of_mem hx, hb⟩
        | dict ms =>
          simp only [Value.marks_dict_some, List.forall_mem_cons] at heq
          rw [heq.1, hc]
          exact congrArg (Value.dict (some a)) (hmembers heq.2)
    | store a name =>
      rw [viewWithin] at heq ⊢
      rw [viewWithin]
      split
      · rfl
      next hpath =>
      rw [if_neg hpath, Value.marks_store, List.forall_mem_cons] at heq
      have hsame : h'.membersAt a = h.membersAt a := by rw [membersAt, membersAt, heq.1]
      rw [hsame]
      exact congrArg (Value.store a name) (hmembers heq.2)
    | _ => rfl

theorem view_congr (hsize : h'.cells.size = h.cells.size) (d : Datum)
    (heq : ∀ a ∈ (h.view d).marks, h'.cell? a = h.cell? a) : h'.view d = h.view d := by
  rw [view, hsize]
  exact viewWithin_congr hsize _ _ d heq
/-- An older datum is an object as long as it was one. -/
theorem Extends.objectOf?_eq (hext : h'.Extends h) {d : Datum} (hd : d.Free (.beyond h.cells.size)) :
    h'.objectOf? d = h.objectOf? d := by
  cases d with
  | ref a => rw [objectOf?, objectOf?, hext.cell a (Seal.beyond_eq_none.1 (Datum.free_ref.1 hd))]
  | _ => rfl

/-! ## 2. New cells -/

theorem Closed.alloc (hh : h.Closed) {c : Cell} (hc : c.Free (.beyond h.cells.size)) : (h.alloc c).2.Closed := by
  have hsize : h.cells.size ≤ (h.alloc c).2.cells.size := (extends_alloc h c).size
  refine closed_iff.2 fun a c' ha => ?_
  rcases cell?_alloc_cases ha with ha | ⟨-, rfl⟩
  · exact (closed_iff.1 hh a c' ha).later hsize
  · exact hc.later hsize

theorem free_alloc (h : Heap) (c : Cell) : (Datum.ref h.cells.size).Free (.beyond (h.alloc c).2.cells.size) := by
  rw [Datum.free_ref, Seal.beyond_eq_none, size_alloc]
  exact Nat.lt_succ_self _

/-- What happens to memory that is kept closed: it grows, and the new datum is there. -/
def KeepsClosed (v : Value) : Prop :=
  ∀ h : Heap, h.Closed → v.Free (.beyond h.cells.size) →
    (h.keep v).2.Closed ∧ (h.keep v).1.Free (.beyond (h.keep v).2.cells.size)

theorem closed_keepItems {xs : List Value} (hxs : ∀ x ∈ xs, KeepsClosed x)
    (hfree : ∀ x ∈ xs, x.Free (.beyond h.cells.size)) (hh : h.Closed) :
    (keepItems xs h).2.Closed ∧ ∀ d ∈ (keepItems xs h).1, d.Free (.beyond (keepItems xs h).2.cells.size) := by
  induction xs generalizing h with
  | nil => exact ⟨hh, fun d hd => absurd hd List.not_mem_nil⟩
  | cons x xs ih =>
    rw [List.forall_mem_cons] at hxs hfree
    obtain ⟨hh', hx⟩ := hxs.1 h hh hfree.1
    have hsize := (extends_keep h x).size
    obtain ⟨hh'', hrest⟩ := ih hxs.2 (fun y hy => (hfree.2 y hy).later hsize) hh'
    have hlater := (extends_keepItems (fun y _ h => extends_keep h y) (h.keep x).2 : Extends (keepItems xs _).2 _)
    exact ⟨hh'', List.forall_mem_cons.2 ⟨hx.later hlater.size, hrest⟩⟩

theorem keepsClosed (v : Value) : KeepsClosed v := by
  induction v using Value.induction with
  | plain v hp =>
    intro h hh hv
    cases v with
    | float x =>
      cases x with
      | nan label => cases label <;> exact ⟨hh, fun a ha => absurd ha List.not_mem_nil⟩
      | _ => exact ⟨hh, fun a ha => absurd ha List.not_mem_nil⟩
    | list => cases hp
    | dict => cases hp
    | store => cases hp
    | _ => exact ⟨hh, fun a ha => absurd ha List.not_mem_nil⟩
  | list cell xs ih =>
    intro h hh hv
    rw [Value.free_list] at hv
    cases cell with
    | some a => exact ⟨hh, Datum.free_ref.2 (hv.1 a rfl)⟩
    | none =>
      obtain ⟨hh', hitems⟩ := closed_keepItems ih hv.2 hh
      exact ⟨hh'.alloc (Cell.free_list.2 hitems), free_alloc _ _⟩
  | dict cell ms ih =>
    intro h hh hv
    rw [Value.free_dict] at hv
    cases cell with
    | some a => exact ⟨hh, Datum.free_ref.2 (hv.1 a rfl)⟩
    | none =>
      obtain ⟨hh', hitems⟩ := closed_keepItems (List.forall_mem_map.2 ih) (List.forall_mem_map.2 hv.2) hh
      rw [Heap.keep, keepMembers_eq]
      refine ⟨hh'.alloc (Cell.free_dict.2 fun m hm => ?_), free_alloc _ _⟩
      exact hitems m.2 (List.of_mem_zip hm).2
  | store cell name ms _ =>
    intro h hh hv
    exact ⟨hh, Datum.free_store.2 (Value.free_store.1 hv).1⟩

/-! ## 3. Writes -/

@[simp] theorem size_write (a : Addr) (c : Cell) (h : Heap) : (h.write a c).cells.size = h.cells.size :=
  Array.size_setIfInBounds

theorem Closed.write (hh : h.Closed) (a : Addr) {c : Cell} (hc : c.Free (.beyond h.cells.size)) :
    (h.write a c).Closed := by
  refine closed_iff.2 fun b c' hb => ?_
  rw [size_write]
  rcases cell?_write_cases hb with ⟨-, rfl⟩ | hb
  · exact hc
  · exact closed_iff.1 hh b c' hb

theorem Closed.membersAt (hh : h.Closed) (a : Addr) : ∀ m ∈ h.membersAt a, m.2.Free (.beyond h.cells.size) := by
  rw [Heap.membersAt]
  split
  · next ms hcell => exact Cell.free_dict.1 (closed_iff.1 hh a _ hcell)
  · exact fun m hm => absurd hm List.not_mem_nil

variable {a : Addr} {d : Datum}

theorem Closed.putMember (hh : h.Closed) (a : Addr) (hd : d.Free (.beyond h.cells.size)) (key : String) :
    (h.putMember a key d).Closed :=
  hh.write a (Cell.free_dict.2 (Members.forall_put (hh.membersAt a) key hd))

@[simp] theorem size_putMember (a : Addr) (key : String) (d : Datum) (h : Heap) :
    (h.putMember a key d).cells.size = h.cells.size := size_write _ _ _

/-- An object that is found under a key is there, and so is one that is made. -/
theorem Closed.objectUnder (hh : h.Closed) (a : Addr) (key : String) :
    (h.objectUnder a key).2.Closed ∧ h.cells.size ≤ (h.objectUnder a key).2.cells.size ∧
      (Datum.ref (h.objectUnder a key).1).Free (.beyond (h.objectUnder a key).2.cells.size) := by
  rw [Heap.objectUnder]
  split
  · next b hb =>
    refine ⟨hh, Nat.le_refl _, Datum.free_ref.2 (Seal.beyond_eq_none.2 ?_)⟩
    obtain ⟨-, ms, hcell⟩ := get?_of_objectOf? hb
    exact cell?_lt hcell
  · exact ⟨hh.alloc Cell.free_empty, (extends_alloc h _).size, free_alloc _ _⟩

theorem Closed.writeBelow (hh : h.Closed) (hd : d.Free (.beyond h.cells.size)) (a : Addr) (first : String)
    (rest : List String) :
    (h.writeBelow a first rest d).Closed ∧ h.cells.size ≤ (h.writeBelow a first rest d).cells.size := by
  induction rest generalizing h a first with
  | nil => exact ⟨hh.putMember a hd first, Nat.le_of_eq (size_putMember _ _ _ _).symm⟩
  | cons key more ih =>
    rw [Heap.writeBelow]
    split
    · next b hb => exact ih hh hd b key
    · have hsize := (extends_alloc h (.dict [])).size
      have hnew := (hh.alloc Cell.free_empty).putMember a (free_alloc h (.dict [])) first
      obtain ⟨hclosed, hle⟩ := ih hnew (by rw [size_putMember]; exact hd.later hsize) _ key
      rw [size_putMember] at hle
      exact ⟨hclosed, Nat.le_trans hsize hle⟩

end Heap

namespace Shared

variable {s : Shared} {d : Datum} {l : Ledger}

theorem closed_set (hl : l.heap.Closed) (hd : d.Free (.beyond l.heap.cells.size)) (key : String) :
    (s.set key d l).2.heap.Closed ∧ l.heap.cells.size ≤ (s.set key d l).2.heap.cells.size := by
  rw [set]
  split
  · exact ⟨hl, Nat.le_refl _⟩
  · exact ⟨hl.putMember _ hd key, Nat.le_of_eq (Heap.size_putMember _ _ _ _).symm⟩

theorem closed_setPath (hl : l.heap.Closed) (hd : d.Free (.beyond l.heap.cells.size)) (path : String) :
    (s.setPath path d l).2.heap.Closed ∧ l.heap.cells.size ≤ (s.setPath path d l).2.heap.cells.size := by
  rw [setPath]
  rcases Path.segments path with - | ⟨key, - | ⟨first, rest⟩⟩
  · exact ⟨hl, Nat.le_refl _⟩
  · exact closed_set hl hd key
  · obtain ⟨hunder, hsize, hfree⟩ := hl.objectUnder s.data key
    obtain ⟨hbelow, hsize'⟩ := hunder.writeBelow (hd.later hsize) (l.heap.objectUnder s.data key).1 first rest
    obtain ⟨hset, hsize''⟩ := closed_set (s := s) (l := ⟨_, l.writes⟩) hbelow (hfree.later hsize') key
    exact ⟨hset, Nat.le_trans hsize (Nat.le_trans hsize' hsize'')⟩

end Shared

end NodeFlow
