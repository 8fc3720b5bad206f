import NodeFlow.Compile.Declared
import NodeFlow.Proofs.Memory.Parts
/-!
# The counts in a shared context

Loop guards count in the shared context itself, in an object under a key of its own. It is never changed in
place: a visit that counts puts a new object there. So the counts stay as they are as long as nobody writes
that key and no old cell but that of the context, and this is what most steps of a run are like.

The object of the counts cannot be the context itself, since all its members are numbers.
-/

set_option autoImplicit false

namespace NodeFlow

/-! ## 1. Counts -/

namespace Shared

variable {s : Shared} {h h' : Heap}

/-- The counts as members. -/
def counts (s : Shared) (h : Heap) : Members Datum :=
  match s.get? h Declared.visitsKey with
  | some (.ref a) => h.membersAt a
  | _ => []

/-- How often a node has been visited in a context. -/
def visitsOf (s : Shared) (h : Heap) (id : String) : Int :=
  match Members.get? (s.counts h) id with
  | some (.int k) => k
  | _ => 0

/-- The counts of a context are missing, or they are numbers that are not negative. -/
structure Tallied (s : Shared) (h : Heap) : Prop where
  object : ∃ ms, h.cell? s.data = some (.dict ms)
  counts : s.get? h Declared.visitsKey = none ∨ ∃ a ms, s.get? h Declared.visitsKey = some (.ref a) ∧
    h.cell? a = some (.dict ms) ∧ ∀ m ∈ ms, ∃ k : Nat, m.2 = .int k

/-- A new context is empty. -/
theorem get?_new (h : Heap) (key : String) :
    (⟨h.cells.size, none⟩ : Shared).get? (h.alloc (.dict [])).2 key = none := by
  have hcell : (h.alloc (.dict [])).2.cell? h.cells.size = some (.dict []) := Heap.cell?_alloc_self _ _
  rw [get?, Heap.membersAt, hcell]
  rfl

theorem tallied_new (h : Heap) : (⟨h.cells.size, none⟩ : Shared).Tallied (h.alloc (.dict [])).2 where
  object := ⟨[], Heap.cell?_alloc_self _ _⟩
  counts := Or.inl (get?_new h _)

theorem Tallied.ne_data (hs : s.Tallied h) {a : Addr} (ha : s.get? h Declared.visitsKey = some (.ref a)) :
    a ≠ s.data := by
  rintro rfl
  rcases hs.counts with hnone | ⟨a, ms, hget, hcell, hall⟩
  · rw [ha] at hnone
    cases hnone
  · -- the member that refers to the counts would be one of them, and so a number
    obtain rfl := Datum.ref.inj (Option.some.inj (ha.symm.trans hget))
    have hmem : Members.get? ms Declared.visitsKey = some (.ref s.data) := by
      rw [get?, Heap.membersAt, hcell] at ha
      exact ha
    obtain ⟨k, hk⟩ := hall _ (Members.mem_of_get? hmem)
    cases hk

theorem Tallied.counts_nat (hs : s.Tallied h) : ∀ m ∈ s.counts h, ∃ k : Nat, m.2 = .int k := by
  rcases hs.counts with hnone | ⟨a, ms, hget, hcell, hall⟩
  · rw [Shared.counts, hnone]
    exact fun m hm => absurd hm List.not_mem_nil
  · rw [Shared.counts, hget]
    dsimp only
    rwa [Heap.membersAt, hcell]

/-- A count is what is found under the id, and nothing is found for zero only. -/
theorem Tallied.get?_counts (hs : s.Tallied h) (id : String) :
    ∃ k : Nat, (Members.get? (s.counts h) id).getD (.int 0) = .int k ∧ s.visitsOf h id = k := by
  rw [visitsOf]
  cases hget : Members.get? (s.counts h) id with
  | none => exact ⟨0, rfl, rfl⟩
  | some d =>
    obtain ⟨k, hk⟩ := hs.counts_nat _ (Members.mem_of_get? hget)
    obtain rfl : d = .int k := hk
    exact ⟨k, rfl, rfl⟩

end Shared

/-! ## 2. Steps that leave the counts alone -/

/-- Memory may have grown, and of the old cells only one may have changed. -/
structure Heap.Beside (a : Addr) (h h' : Heap) : Prop where
  size : h.cells.size ≤ h'.cells.size
  cell : ∀ b < h.cells.size, b ≠ a → h'.cell? b = h.cell? b

namespace Heap.Beside

variable {a : Addr} {h h' h'' : Heap}

theorem refl (a : Addr) (h : Heap) : Beside a h h := ⟨Nat.le_refl _, fun _ _ _ => rfl⟩

theorem trans (hh : Beside a h h') (hh' : Beside a h' h'') : Beside a h h'' where
  size := Nat.le_trans hh.size hh'.size
  cell b hb hne := (hh'.cell b (Nat.lt_of_lt_of_le hb hh.size) hne).trans (hh.cell b hb hne)

theorem write (a : Addr) (c : Cell) (h : Heap) : Beside a h (h.write a c) where
  size := Nat.le_of_eq Array.size_setIfInBounds.symm
  cell b _ hne := by rw [Heap.cell?_write, if_neg fun hab => hne hab.symm]

theorem of_extends (hh : h'.Extends h) : Beside a h h' :=
  ⟨hh.size, fun b hb _ => hh.cell b hb⟩

end Heap.Beside

theorem Heap.extends_keepItems {xs : List Value}
    (hxs : ∀ x ∈ xs, ∀ h : Heap, (h.keep x).2.Extends h) (h : Heap) : (keepItems xs h).2.Extends h := by
  induction xs generalizing h with
  | nil => exact .refl h
  | cons x xs ih =>
    rw [List.forall_mem_cons] at hxs
    exact (hxs.1 h).trans (ih hxs.2 _)

/-- Keeping a value only takes new cells into use. -/
theorem Heap.extends_keep (h : Heap) (v : Value) : (h.keep v).2.Extends h := by
  induction v using Value.induction generalizing h with
  | plain v hp =>
    cases v with
    | float x =>
      cases x with
      | nan label => cases label <;> exact ⟨Nat.le_refl _, fun _ _ => rfl⟩
      | _ => exact .refl h
    | list => cases hp
    | dict => cases hp
    | store => cases hp
    | _ => exact .refl h
  | list cell xs ih =>
    cases cell with
    | some a => exact .refl h
    | none => exact (extends_keepItems (fun x hx h => ih x hx h) h).trans (extends_alloc _ _)
  | dict cell ms ih =>
    cases cell with
    | some a => exact .refl h
    | none =>
      rw [Heap.keep, keepMembers_eq]
      have hitems := @extends_keepItems (ms.map Prod.snd) (List.forall_mem_map.2 fun m hm h => ih m hm h) h
      exact hitems.trans (extends_alloc _ _)
  | store cell name ms _ => exact .refl h

namespace Shared

/-- A step of which the counts of a context know nothing. -/
structure Spares (s : Shared) (h h' : Heap) : Prop where
  beside : h.Beside s.data h'
  object : ∀ ms, h.cell? s.data = some (.dict ms) → ∃ ms', h'.cell? s.data = some (.dict ms') ∧
    Members.get? ms' Declared.visitsKey = Members.get? ms Declared.visitsKey

variable {s : Shared} {h h' h'' : Heap}

theorem Spares.refl (s : Shared) (h : Heap) : s.Spares h h := ⟨.refl _ _, fun ms hms => ⟨ms, hms, rfl⟩⟩

theorem Spares.trans (hh : s.Spares h h') (hh' : s.Spares h' h'') : s.Spares h h'' where
  beside := hh.beside.trans hh'.beside
  object ms hms := by
    obtain ⟨ms', hms', hget⟩ := hh.object ms hms
    obtain ⟨ms'', hms'', hget'⟩ := hh'.object ms' hms'
    exact ⟨ms'', hms'', hget'.trans hget⟩

theorem spares_of_extends (hh : h'.Extends h) : s.Spares h h' where
  beside := .of_extends hh
  object ms hms := ⟨ms, (hh.cell _ (Heap.cell?_lt hms)).trans hms, rfl⟩

theorem spares_putMember {key : String} (hkey : key ≠ Declared.visitsKey) (d : Datum) :
    s.Spares h (h.putMember s.data key d) where
  beside := .write _ _ _
  object ms hms := by
    refine ⟨Members.put key d ms, ?_, ?_⟩
    · rw [Heap.putMember, Heap.cell?_write, if_pos rfl, if_pos (Heap.cell?_lt hms), Heap.membersAt, hms]
    · rw [Members.get?_put, if_neg hkey.symm]

theorem Spares.get?_eq (hh : s.Spares h h') (hs : s.Tallied h) :
    s.get? h' Declared.visitsKey = s.get? h Declared.visitsKey := by
  obtain ⟨ms, hms⟩ := hs.object
  obtain ⟨ms', hms', hget⟩ := hh.object ms hms
  rw [get?, get?, Heap.membersAt, Heap.membersAt, hms, hms']
  exact hget

theorem Spares.tallied (hh : s.Spares h h') (hs : s.Tallied h) : s.Tallied h' where
  object := by
    obtain ⟨ms, hms⟩ := hs.object
    obtain ⟨ms', hms', -⟩ := hh.object ms hms
    exact ⟨ms', hms'⟩
  counts := by
    rw [hh.get?_eq hs]
    refine hs.counts.imp_right ?_
    rintro ⟨a, ms, hget, hcell, hall⟩
    exact ⟨a, ms, hget, (hh.beside.cell a (Heap.cell?_lt hcell) (hs.ne_data hget)).trans hcell, hall⟩

theorem Spares.counts_eq (hh : s.Spares h h') (hs : s.Tallied h) : s.counts h' = s.counts h := by
  rw [counts, counts, hh.get?_eq hs]
  rcases hs.counts with hnone | ⟨a, ms, hget, hcell, -⟩
  · rw [hnone]
  · rw [hget]
    dsimp only
    have hsame := hh.beside.cell a (Heap.cell?_lt hcell) (hs.ne_data hget)
    rw [Heap.membersAt, Heap.membersAt, hsame]

theorem Spares.visitsOf_eq (hh : s.Spares h h') (hs : s.Tallied h) : s.visitsOf h' = s.visitsOf h := by
  funext id
  rw [visitsOf, visitsOf, hh.counts_eq hs]

/-! ## 3. Counting -/

/-- Memory after a visit has been counted: a new object takes the place of the counts. -/
def counted (s : Shared) (id : String) (k : Nat) (h : Heap) : Heap :=
  (h.alloc (.dict (Members.put id (.int (k + 1 : Nat)) (s.counts h)))).2.putMember s.data
    Declared.visitsKey (.ref h.cells.size)

variable {id : String} {k : Nat}

theorem cell?_counted (hs : s.Tallied h) (id : String) (k : Nat) :
    (s.counted id k h).cell? h.cells.size =
      some (.dict (Members.put id (.int (k + 1 : Nat)) (s.counts h))) ∧
    ∃ ms, h.cell? s.data = some (.dict ms) ∧ (s.counted id k h).cell? s.data =
      some (.dict (Members.put Declared.visitsKey (.ref h.cells.size) ms)) := by
  obtain ⟨ms, hms⟩ := hs.object
  have hlt := Heap.cell?_lt hms
  refine ⟨?_, ms, hms, ?_⟩
  · rw [counted, Heap.putMember, Heap.cell?_write, if_neg (Nat.ne_of_lt hlt), Heap.cell?_alloc_self]
  · rw [counted, Heap.putMember, Heap.cell?_write, if_pos rfl, Heap.size_alloc,
      if_pos (Nat.lt_succ_of_lt hlt), Heap.membersAt, Heap.cell?_alloc_of_lt hlt, hms]

theorem beside_counted : h.Beside s.data (s.counted id k h) :=
  .trans (.of_extends (Heap.extends_alloc _ _)) (.write _ _ _)

theorem get?_counted (hs : s.Tallied h) :
    s.get? (s.counted id k h) Declared.visitsKey = some (.ref h.cells.size) := by
  obtain ⟨-, ms, -, hcell⟩ := cell?_counted hs id k
  rw [get?, Heap.membersAt, hcell]
  dsimp only
  rw [Members.get?_put, if_pos rfl]

theorem counts_counted (hs : s.Tallied h) :
    s.counts (s.counted id k h) = Members.put id (.int (k + 1 : Nat)) (s.counts h) := by
  rw [counts, get?_counted hs]
  dsimp only
  rw [Heap.membersAt, (cell?_counted hs id k).1]

theorem tallied_counted (hs : s.Tallied h) : s.Tallied (s.counted id k h) where
  object := by
    obtain ⟨-, ms, -, hcell⟩ := cell?_counted hs id k
    exact ⟨_, hcell⟩
  counts := by
    refine Or.inr ⟨_, _, get?_counted hs, (cell?_counted hs id k).1, ?_⟩
    exact Members.forall_put (p := fun d : Datum => ∃ k : Nat, d = .int k) hs.counts_nat id ⟨k + 1, rfl⟩

/-- Counting a visit adds one to the count of its node and nothing to the others. -/
theorem visitsOf_counted (hs : s.Tallied h) (hk : s.visitsOf h id = k) :
    s.visitsOf (s.counted id k h) = Function.update (s.visitsOf h) id (s.visitsOf h id + 1) := by
  funext other
  rw [visitsOf, counts_counted hs, Members.get?_put]
  by_cases h : other = id
  · subst h
    rw [if_pos rfl, Function.update_self, hk]
    rfl
  · rw [if_neg h, Function.update_of_ne h, visitsOf]

end Shared

/-! ## 4. Counts as they are shown -/

namespace Value

/-- The members of a context as it is shown, a plain object or a store. -/
def entries : Value → Members Value
  | .dict _ ms | .store _ _ ms => ms
  | _ => []

/-- How often a node has been visited in a context as it is shown. -/
def visitsOf (context : Value) (id : String) : Int :=
  match ((Members.get? context.entries Declared.visitsKey).getD .null).field id with
  | .int k => k
  | _ => 0

end Value

namespace Shared

variable {s : Shared} {h : Heap}

theorem entries_view {ms : Members Datum} (hms : h.cell? s.data = some (.dict ms)) :
    (s.view h).entries = ms.map fun m => (m.1, h.viewWithin h.cells.size [s.data] m.2) := by
  rw [view, datum]
  cases s.store with
  | none => rw [Heap.view_dict hms, Value.entries]
  | some info =>
    rw [Heap.view, Heap.viewWithin, Heap.membersAt, hms]
    rfl

/-- A context shows the counts that it has. -/
theorem visitsOf_view (hs : s.Tallied h) (id : String) : (s.view h).visitsOf id = s.visitsOf h id := by
  obtain ⟨ms, hms⟩ := hs.object
  have hentry := Members.get?_map (h.viewWithin h.cells.size [s.data]) ms Declared.visitsKey
  have hheld : s.get? h Declared.visitsKey = Members.get? ms Declared.visitsKey := by
    rw [get?, Heap.membersAt, hms]
  rw [Value.visitsOf, entries_view hms, hentry, ← hheld, visitsOf, counts]
  rcases hs.counts with hnone | ⟨a, counts, hget, hcell, hall⟩
  · rw [hnone]
    rfl
  · -- there are cells, so the object of the counts is shown with its members, which are numbers
    obtain ⟨depth, hdepth⟩ := Nat.exists_eq_succ_of_ne_zero (Nat.ne_zero_of_lt (Heap.cell?_lt hcell))
    have hcount := Members.get?_map (h.viewWithin depth [a, s.data]) counts id
    -- and they are not shown within themselves, for the context holds more than numbers
    have hne : [s.data].contains a = false := by
      have hdata : a ≠ s.data := by
        rintro rfl
        obtain rfl := Cell.dict.inj (Option.some.inj (hms.symm.trans hcell))
        obtain ⟨k, hk⟩ := hall _ (Members.mem_of_get? (hheld.symm.trans hget))
        cases hk
      simpa using hdata
    rw [hget, hdepth, Option.map_some, Option.getD_some, Heap.viewWithin, hcell, hne]
    simp only [Bool.false_eq_true, if_false]
    rw [Value.field, Value.members, hcount, Heap.membersAt, hcell]
    dsimp only
    cases hfound : Members.get? counts id with
    | none => rfl
    | some d =>
      obtain ⟨k, hk⟩ := hall _ (Members.mem_of_get? hfound)
      obtain rfl : d = .int k := hk
      rw [Option.map_some, Option.getD_some, Heap.viewWithin_int]

end Shared

end NodeFlow
