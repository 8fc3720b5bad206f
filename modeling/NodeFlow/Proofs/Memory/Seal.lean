import NodeFlow.Memory.Store
import NodeFlow.Proofs.Memory.Kept
import NodeFlow.Proofs.Value.Members
/-!
# Sealed memory

Some cells are sealed: they keep the content that they have, and nothing outside of them refers to them.
What a run computes with is free, it carries no mark of a sealed cell; so whatever it writes it writes
elsewhere, and whatever it takes into use is free again.

That is all there is to say why the declarations of a graph stay as they are: one lemma for each
operation on memory, and one for each that turns values into others.

A write to a context that lies in free memory leaves sealed memory alone, wherever its path leads: the
path starts in a free object, and free cells lead to free cells only. The one failure of a write is that of a
schema.
-/

set_option autoImplicit false

namespace NodeFlow

/-- The sealed cells, with what they hold. -/
abbrev Seal := Addr → Option Cell

/-! ## 1. What is free -/

/-- A datum that is no sealed cell. -/
def Datum.Free (S : Seal) (d : Datum) : Prop := ∀ a ∈ d.refs, S a = none

/-- A cell that refers to no sealed one. -/
def Cell.Free (S : Seal) (c : Cell) : Prop := ∀ d ∈ c.parts, d.Free S

/-- A value that is a view of no sealed cell, in none of its parts. -/
def Value.Free (S : Seal) (v : Value) : Prop := ∀ a ∈ v.marks, S a = none

variable {S : Seal}

/-- Values are made of values that are their parts. -/
@[elab_as_elim]
theorem Value.induction {P : Value → Prop} (plain : ∀ v : Value, v.isPlain = true → P v)
    (list : ∀ cell xs, (∀ x ∈ xs, P x) → P (.list cell xs))
    (dict : ∀ cell ms, (∀ m ∈ ms, P m.2) → P (.dict cell ms))
    (store : ∀ cell name ms, (∀ m ∈ ms, P m.2) → P (.store cell name ms)) (v : Value) : P v :=
  @Value.rec P (fun xs => ∀ x ∈ xs, P x) (fun ms => ∀ m ∈ ms, P m.2) (fun m => P m.2)
    (plain _ rfl) (plain _ rfl) (fun _ => plain _ rfl) (fun _ => plain _ rfl)
    (fun _ => plain _ rfl) (fun _ => plain _ rfl) list dict store
    (fun _ h => absurd h List.not_mem_nil) (fun _ _ hx hxs => List.forall_mem_cons.2 ⟨hx, hxs⟩)
    (fun _ h => absurd h List.not_mem_nil) (fun _ _ hm hms => List.forall_mem_cons.2 ⟨hm, hms⟩)
    (fun _ _ h => h) v

theorem Value.free_of_isPlain {v : Value} (h : v.isPlain = true) : v.Free S := by
  rw [Free, marks_of_isPlain h]
  intro a ha
  exact absurd ha List.not_mem_nil

theorem Value.free_list {cell : Option Addr} {xs : List Value} :
    (Value.list cell xs).Free S ↔ (∀ a, cell = some a → S a = none) ∧ ∀ x ∈ xs, x.Free S := by
  rw [Free, marks_list, List.forall_mem_append, List.forall_mem_flatMap]
  exact and_congr_left fun _ => by cases cell <;> simp

theorem Value.free_dict {cell : Option Addr} {ms : List (String × Value)} :
    (Value.dict cell ms).Free S ↔ (∀ a, cell = some a → S a = none) ∧ ∀ m ∈ ms, m.2.Free S := by
  rw [Free, marks_dict, List.forall_mem_append, List.forall_mem_flatMap, List.forall_mem_map]
  exact and_congr_left fun _ => by cases cell <;> simp

theorem Value.free_store {cell : Addr} {name : String} {ms : List (String × Value)} :
    (Value.store cell name ms).Free S ↔ S cell = none ∧ ∀ m ∈ ms, m.2.Free S := by
  rw [Free, marks_store, List.forall_mem_cons, List.forall_mem_flatMap, List.forall_mem_map]
  rfl

theorem Datum.free_ref {a : Addr} : (Datum.ref a).Free S ↔ S a = none := by
  simp [Free, refs]

theorem Datum.free_store {a : Addr} {name : String} :
    (Datum.store a name).Free S ↔ S a = none := by
  simp [Free, refs]

theorem Shared.free_datum {s : Shared} (h : S s.data = none) : s.datum.Free S := by
  rw [Shared.datum]
  split
  · exact Datum.free_store.2 h
  · exact Datum.free_ref.2 h

theorem Datum.free_str (s : String) : (Datum.str s).Free S := fun _ ha => absurd ha List.not_mem_nil

theorem Datum.free_null : Datum.null.Free S := fun _ ha => absurd ha List.not_mem_nil

theorem Cell.free_list {xs : List Datum} : (Cell.list xs).Free S ↔ ∀ d ∈ xs, d.Free S := Iff.rfl

theorem Cell.free_dict {ms : Members Datum} :
    (Cell.dict ms).Free S ↔ ∀ m ∈ ms, m.2.Free S := List.forall_mem_map

/-! ## 2. Memory -/

/-- The cells that are not sealed refer to no sealed one. -/
def Heap.Apart (S : Seal) (h : Heap) : Prop := ∀ a c, S a = none → h.cell? a = some c → c.Free S

/-- Memory that refers to nothing beyond itself. -/
def Heap.Closed (h : Heap) : Prop :=
  ∀ a c, h.cell? a = some c → ∀ d ∈ c.parts, ∀ b ∈ d.refs, b < h.cells.size

/-- The sealed cells hold what they are to hold, and the others refer to none of them. -/
structure Heap.Obeys (S : Seal) (h : Heap) : Prop where
  sealed : ∀ a c, S a = some c → h.cell? a = some c
  free : h.Apart S

namespace Heap

variable {h : Heap}

theorem Apart.membersAt (hh : h.Apart S) {a : Addr} (ha : S a = none) : ∀ m ∈ h.membersAt a, m.2.Free S := by
  rw [Heap.membersAt]
  split
  · next ms hcell => exact Cell.free_dict.1 (hh a _ ha hcell)
  · intro m hm
    exact absurd hm List.not_mem_nil

theorem Apart.itemsAt (hh : h.Apart S) {a : Addr} (ha : S a = none) : ∀ d ∈ h.itemsAt a, d.Free S := by
  rw [Heap.itemsAt]
  split
  · next xs hcell => exact Cell.free_list.1 (hh a _ ha hcell)
  · intro d hd
    exact absurd hd List.not_mem_nil

/-- The view of what is free is free. -/
theorem Apart.viewWithin (hh : h.Apart S) (depth : Nat) (path : List Addr) {d : Datum} (hd : d.Free S) :
    (h.viewWithin depth path d).Free S := by
  -- a free cell refers to free data only, so the induction goes down into every part
  induction depth generalizing d path with
  | zero => cases d <;> exact Value.free_of_isPlain rfl
  | succ depth ih =>
    cases d with
    | ref a =>
      rw [Datum.free_ref] at hd
      rw [Heap.viewWithin]
      split
      · exact Value.free_of_isPlain rfl
      split
      · next xs hcell =>
        have hfree := Cell.free_list.1 (hh a _ hd hcell)
        refine Value.free_list.2 ⟨fun b hb => Option.some.inj hb ▸ hd, List.forall_mem_map.2 ?_⟩
        intro d hd
        exact ih _ (hfree d hd)
      · next ms hcell =>
        have hfree := Cell.free_dict.1 (hh a _ hd hcell)
        refine Value.free_dict.2 ⟨fun b hb => Option.some.inj hb ▸ hd, List.forall_mem_map.2 ?_⟩
        intro m hm
        exact ih _ (hfree m hm)
      · exact Value.free_of_isPlain rfl
    | store a name =>
      rw [Datum.free_store] at hd
      rw [Heap.viewWithin]
      split
      · exact Value.free_of_isPlain rfl
      refine Value.free_store.2 ⟨hd, List.forall_mem_map.2 ?_⟩
      intro m hm
      exact ih _ (hh.membersAt hd m hm)
    | _ => exact Value.free_of_isPlain rfl

theorem Apart.view (hh : h.Apart S) {d : Datum} (hd : d.Free S) : (h.view d).Free S :=
  hh.viewWithin _ _ hd

theorem Obeys.fresh (hh : h.Obeys S) : S h.cells.size = none := by
  cases hs : S h.cells.size with
  | none => rfl
  | some c => exact absurd (cell?_lt (hh.sealed _ c hs)) (Nat.lt_irrefl _)

/-- A cell is an older one or the new one. -/
theorem cell?_alloc_cases {a : Addr} {c c' : Cell} (ha : (h.alloc c).2.cell? a = some c') :
    h.cell? a = some c' ∨ a = h.cells.size ∧ c' = c := by
  by_cases hlt : a < h.cells.size
  · rw [cell?_alloc_of_lt hlt] at ha
    exact Or.inl ha
  · have hsize := cell?_lt ha
    rw [size_alloc] at hsize
    obtain rfl : a = h.cells.size := Nat.le_antisymm (Nat.le_of_lt_succ hsize) (Nat.not_lt.1 hlt)
    rw [cell?_alloc_self, Option.some.injEq] at ha
    exact Or.inr ⟨rfl, ha.symm⟩

theorem Obeys.alloc (hh : h.Obeys S) {c : Cell} (hc : c.Free S) : (h.alloc c).2.Obeys S where
  sealed a c' hs := by
    rw [cell?_alloc_of_lt (cell?_lt (hh.sealed a c' hs))]
    exact hh.sealed a c' hs
  free a c' hs ha := by
    rcases cell?_alloc_cases ha with ha | ⟨-, rfl⟩
    · exact hh.free a c' hs ha
    · exact hc

theorem cell?_write (a : Addr) (c : Cell) (h : Heap) (b : Addr) :
    (h.write a c).cell? b = if a = b then (if a < h.cells.size then some c else none)
      else h.cell? b :=
  Array.getElem?_setIfInBounds

/-- A cell is the one that is written to or stays as it is. -/
theorem cell?_write_cases {a b : Addr} {c c' : Cell} (hb : (h.write a c).cell? b = some c') :
    b = a ∧ c' = c ∨ h.cell? b = some c' := by
  rw [cell?_write] at hb
  split at hb
  · next hab =>
    split at hb
    · exact Or.inl ⟨hab.symm, (Option.some.inj hb).symm⟩
    · cases hb
  · exact Or.inr hb

theorem Obeys.write (hh : h.Obeys S) {a : Addr} (ha : S a = none) {c : Cell} (hc : c.Free S) :
    (h.write a c).Obeys S where
  sealed b c' hs := by
    -- a sealed cell is not the one that is written to
    have hne : a ≠ b := by
      rintro rfl
      rw [ha] at hs
      cases hs
    rw [cell?_write, if_neg hne]
    exact hh.sealed b c' hs
  free b c' hs hb := by
    rcases cell?_write_cases hb with ⟨-, rfl⟩ | hb
    · exact hc
    · exact hh.free b c' hs hb

theorem Obeys.membersAt (hh : h.Obeys S) {a : Addr} (ha : S a = none) :
    ∀ m ∈ h.membersAt a, m.2.Free S :=
  hh.free.membersAt ha

theorem Obeys.itemsAt (hh : h.Obeys S) {a : Addr} (ha : S a = none) :
    ∀ d ∈ h.itemsAt a, d.Free S :=
  hh.free.itemsAt ha

theorem Obeys.viewWithin (hh : h.Obeys S) (depth : Nat) (path : List Addr) {d : Datum} (hd : d.Free S) :
    (h.viewWithin depth path d).Free S :=
  hh.free.viewWithin depth path hd

theorem Obeys.view (hh : h.Obeys S) {d : Datum} (hd : d.Free S) : (h.view d).Free S :=
  hh.free.view hd

theorem keepItems_free {xs : List Value}
    (hxs : ∀ x ∈ xs, ∀ h : Heap, h.Obeys S → x.Free S → (h.keep x).1.Free S ∧ (h.keep x).2.Obeys S)
    (hfree : ∀ x ∈ xs, x.Free S) (hh : h.Obeys S) :
    (∀ d ∈ (keepItems xs h).1, d.Free S) ∧ (keepItems xs h).2.Obeys S := by
  induction xs generalizing h with
  | nil => exact ⟨fun d hd => absurd hd List.not_mem_nil, hh⟩
  | cons x xs ih =>
    rw [List.forall_mem_cons] at hxs hfree
    obtain ⟨hx, hh'⟩ := hxs.1 h hh hfree.1
    obtain ⟨hrest, hh''⟩ := ih hxs.2 hfree.2 hh'
    exact ⟨List.forall_mem_cons.2 ⟨hx, hrest⟩, hh''⟩

/-- What is free is kept as something free, and nothing sealed changes. -/
theorem Obeys.keep (hh : h.Obeys S) {v : Value} (hv : v.Free S) :
    (h.keep v).1.Free S ∧ (h.keep v).2.Obeys S := by
  induction v using Value.induction generalizing h with
  | plain v hp =>
    cases v with
    | float x =>
      cases x with
      | nan label => cases label <;> exact ⟨fun a ha => absurd ha List.not_mem_nil, hh.sealed, hh.free⟩
      | _ => exact ⟨fun a ha => absurd ha List.not_mem_nil, hh⟩
    | list => cases hp
    | dict => cases hp
    | store => cases hp
    | _ => exact ⟨fun a ha => absurd ha List.not_mem_nil, hh⟩
  -- a view is kept as the very cell that it is a view of, anything else in a cell of its own
  | list cell xs ih =>
    rw [Value.free_list] at hv
    cases cell with
    | some a => exact ⟨Datum.free_ref.2 (hv.1 a rfl), hh⟩
    | none =>
      obtain ⟨hitems, hh'⟩ := keepItems_free (fun x hx h hh hf => ih x hx hh hf) hv.2 hh
      exact ⟨Datum.free_ref.2 hh'.fresh, hh'.alloc (Cell.free_list.2 hitems)⟩
  | dict cell ms ih =>
    rw [Value.free_dict] at hv
    cases cell with
    | some a => exact ⟨Datum.free_ref.2 (hv.1 a rfl), hh⟩
    | none =>
      obtain ⟨hitems, hh'⟩ := @keepItems_free S h (ms.map Prod.snd)
        (List.forall_mem_map.2 fun m hm h hh hf => ih m hm hh hf) (List.forall_mem_map.2 hv.2) hh
      rw [Heap.keep, keepMembers_eq]
      refine ⟨Datum.free_ref.2 hh'.fresh, hh'.alloc (Cell.free_dict.2 ?_)⟩
      intro m hm
      exact hitems m.2 (List.of_mem_zip hm).2
  | store cell name ms _ => exact ⟨Datum.free_store.2 (Value.free_store.1 hv).1, hh⟩

end Heap

/-! ## 3. Writes to a shared context -/

theorem Cell.free_empty : (Cell.dict []).Free S :=
  Cell.free_dict.2 fun _ hm => absurd hm List.not_mem_nil

namespace Heap

variable {h : Heap} {a : Addr} {d : Datum}

theorem Obeys.putMember (hh : h.Obeys S) (ha : S a = none) (hd : d.Free S) (key : String) :
    (h.putMember a key d).Obeys S := by
  have hmembers := Members.forall_put (hh.membersAt ha) key hd
  exact hh.write ha (Cell.free_dict.2 hmembers)

theorem objectOf?_eq_some_iff {b : Addr} :
    h.objectOf? d = some b ↔ d = .ref b ∧ ∃ ms, h.cell? b = some (.dict ms) := by
  rw [Heap.objectOf?.eq_def]
  cases d with
  | ref a =>
    dsimp only
    rw [Datum.ref.injEq]
    split
    · next ms hcell =>
      rw [Option.some.injEq]
      exact ⟨fun hab => ⟨hab, ms, hab ▸ hcell⟩, And.left⟩
    · next hcell =>
      constructor
      · exact fun hnone => nomatch hnone
      · rintro ⟨rfl, ms, hms⟩
        exact absurd hms (hcell ms)
  | _ => exact ⟨fun hnone => (nomatch hnone), fun hd => (nomatch hd.1)⟩

/-- The object that is found under a key is a member. -/
theorem get?_of_objectOf? {key : String} {b : Addr} (hb : (Members.get? (h.membersAt a) key).bind h.objectOf? = some b) :
    Members.get? (h.membersAt a) key = some (.ref b) ∧ ∃ ms, h.cell? b = some (.dict ms) := by
  obtain ⟨d, hget, hobject⟩ := Option.bind_eq_some_iff.1 hb
  obtain ⟨rfl, hcell⟩ := objectOf?_eq_some_iff.1 hobject
  exact ⟨hget, hcell⟩

/-- The object that a member of a free cell is lies in free memory. -/
theorem Obeys.objectOf? (hh : h.Obeys S) (ha : S a = none) {key : String} {b : Addr}
    (hb : (Members.get? (h.membersAt a) key).bind h.objectOf? = some b) : S b = none := by
  have hmem := Members.mem_of_get? (get?_of_objectOf? hb).1
  exact Datum.free_ref.1 (hh.membersAt ha _ hmem)

theorem Obeys.objectUnder (hh : h.Obeys S) (ha : S a = none) (key : String) :
    S (h.objectUnder a key).1 = none ∧ (h.objectUnder a key).2.Obeys S := by
  rw [Heap.objectUnder]
  split
  · next b hb => exact ⟨hh.objectOf? ha hb, hh⟩
  · exact ⟨hh.fresh, hh.alloc Cell.free_empty⟩

theorem Obeys.writeBelow (hh : h.Obeys S) (ha : S a = none) (hd : d.Free S) (first : String)
    (rest : List String) : (h.writeBelow a first rest d).Obeys S := by
  -- each key leads from a free object to a free one, found there or new
  induction rest generalizing h a first with
  | nil => exact hh.putMember ha hd first
  | cons key more ih =>
    rw [Heap.writeBelow]
    split
    · next b hb => exact ih hh (hh.objectOf? ha hb) key
    · have hnew := hh.alloc (Cell.free_empty (S := S))
      exact ih (hnew.putMember ha (Datum.free_ref.2 hh.fresh) first) hh.fresh key

end Heap

namespace Shared

variable {s : Shared} {d : Datum} {l : Ledger}

/-- An action on a context keeps memory as it has to be, and fails as the action may. -/
structure Obeys (S : Seal) {α : Type} (r : Except Failure α × Ledger) : Prop where
  heap : r.2.heap.Obeys S
  failure : ∀ e, r.1 = .error e → e ≠ .onlyCooperative

theorem obeys_set (hs : S s.data = none) (hd : d.Free S) (hl : l.heap.Obeys S) (key : String) :
    Obeys S (s.set key d l) := by
  rw [set]
  split
  · next e he =>
    refine ⟨hl, ?_⟩
    intro e' he'
    obtain rfl := Except.error.inj he'
    -- what a schema refuses is refused for a wrong type
    rw [refusal?] at he
    split at he
    · cases he
    · split at he
      · cases he
      · split at he
        · cases he
        · obtain rfl := Option.some.inj he
          exact fun h => by cases h
  · exact ⟨hl.putMember hs hd key, fun e he => nomatch he⟩

theorem obeys_setPath (hs : S s.data = none) (hd : d.Free S) (hl : l.heap.Obeys S)
    (path : String) : Obeys S (s.setPath path d l) := by
  rw [setPath]
  -- a path without keys changes nothing, one key is a member, more of them lead below one
  rcases Path.segments path with - | ⟨key, - | ⟨first, rest⟩⟩
  · exact ⟨hl, fun e he => nomatch he⟩
  · exact obeys_set hs hd hl key
  · obtain ⟨hfree, hheap⟩ := hl.objectUnder hs key
    exact obeys_set hs (Datum.free_ref.2 hfree) (hheap.writeBelow hfree hd first rest) key

end Shared

end NodeFlow
