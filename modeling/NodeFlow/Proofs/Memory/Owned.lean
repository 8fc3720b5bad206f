import NodeFlow.Proofs.Memory.Growth
/-!
# The object of a store

Whoever makes a store copies what it is made of, so its object is new and no cell of memory leads there. That stays
so as long as the store is used through its own operations: what is written is at hand, and the object is not. So
the members at the top change by an assignment or a deletion and in no other way, whatever lies below them.

The store as a whole may well stand in memory, even in itself. It counts as something else than its object: a path
that is written does not lead on into it.
-/

set_option autoImplicit false

namespace NodeFlow

/-- A value in which an object does not stand. What a store consists of does not count. -/
inductive Value.Lacks (a : Addr) : Value → Prop
  | plain {v : Value} : v.isPlain = true → Lacks a v
  | list {cell : Option Addr} {xs : List Value} : cell ≠ some a → (∀ x ∈ xs, Lacks a x) → Lacks a (.list cell xs)
  | dict {cell : Option Addr} {ms : List (String × Value)} :
    cell ≠ some a → (∀ m ∈ ms, Lacks a m.2) → Lacks a (.dict cell ms)
  | store {b : Addr} {name : String} {ms : List (String × Value)} : Lacks a (.store b name ms)

theorem Value.IsJson.lacks {v : Value} (hv : v.IsJson) (a : Addr) : v.Lacks a := by
  induction hv with
  | list _ ih => exact .list nofun ih
  | dict _ ih => exact .dict nofun ih
  | _ => exact .plain rfl

namespace Heap

variable {h h' h'' : Heap} {a b : Addr} {c : Cell} {d : Datum} {v : Value}

/-! ## 1. Memory that does not lead to an object -/

/-- No cell leads to an object. -/
def Withholds (h : Heap) (a : Addr) : Prop := ∀ b c, h.cell? b = some c → .ref a ∉ c.parts

theorem Withholds.alloc (hh : h.Withholds a) (hc : .ref a ∉ c.parts) : (h.alloc c).2.Withholds a := by
  intro b c' hb
  rcases cell?_alloc_cases hb with hb | ⟨-, rfl⟩
  · exact hh b c' hb
  · exact hc

theorem Withholds.write (hh : h.Withholds a) (hc : .ref a ∉ c.parts) : (h.write b c).Withholds a := by
  intro b' c' hb
  rcases cell?_write_cases hb with ⟨-, rfl⟩ | hb
  · exact hc
  · exact hh b' c' hb

theorem Withholds.membersAt (hh : h.Withholds a) (b : Addr) : ∀ m ∈ h.membersAt b, m.2 ≠ .ref a := by
  rw [Heap.membersAt]
  split
  · next ms hcell =>
    intro m hm heq
    exact hh b _ hcell (heq ▸ List.mem_map_of_mem hm)
  · exact fun m hm => absurd hm List.not_mem_nil

theorem not_mem_parts_dict {ms : Members Datum} (hms : ∀ m ∈ ms, m.2 ≠ .ref a) : .ref a ∉ (Cell.dict ms).parts := by
  intro hmem
  obtain ⟨m, hm, heq⟩ := List.mem_map.1 hmem
  exact hms m hm heq

theorem Withholds.putMember (hh : h.Withholds a) (hd : d ≠ .ref a) (b : Addr) (key : String) :
    (h.putMember b key d).Withholds a :=
  hh.write (not_mem_parts_dict (Members.forall_put (p := (· ≠ Datum.ref a)) (hh.membersAt b) key hd))

/-- What is kept does not lead to an object that does not stand in it. -/
def KeepsFrom (a : Addr) (v : Value) : Prop :=
  ∀ h : Heap, h.Withholds a → a < h.cells.size → (h.keep v).2.Withholds a ∧ (h.keep v).1 ≠ .ref a

theorem withholds_keepItems {xs : List Value} (hxs : ∀ x ∈ xs, KeepsFrom a x) (hh : h.Withholds a)
    (ha : a < h.cells.size) :
    (keepItems xs h).2.Withholds a ∧ a < (keepItems xs h).2.cells.size ∧ ∀ d ∈ (keepItems xs h).1, d ≠ .ref a := by
  induction xs generalizing h with
  | nil => exact ⟨hh, ha, fun d hd => absurd hd List.not_mem_nil⟩
  | cons x xs ih =>
    rw [List.forall_mem_cons] at hxs
    obtain ⟨hh', hx⟩ := hxs.1 h hh ha
    obtain ⟨hh'', ha'', hrest⟩ := ih hxs.2 hh' (Nat.lt_of_lt_of_le ha (extends_keep h x).size)
    exact ⟨hh'', ha'', List.forall_mem_cons.2 ⟨hx, hrest⟩⟩

theorem keepsFrom (hv : v.Lacks a) : KeepsFrom a v := by
  induction hv with
  | @plain v hp =>
    intro h hh ha
    cases v with
    | float x =>
      cases x with
      | nan label => cases label <;> exact ⟨hh, fun heq => Datum.noConfusion heq⟩
      | _ => exact ⟨hh, fun heq => Datum.noConfusion heq⟩
    | list => cases hp
    | dict => cases hp
    | store => cases hp
    | _ => exact ⟨hh, fun heq => Datum.noConfusion heq⟩
  -- what is a view already is not the object, and a new cell is none that is there
  | @list cell xs hcell _ ih =>
    intro h hh ha
    cases cell with
    | some b => exact ⟨hh, fun heq => hcell (congrArg some (Datum.ref.inj heq))⟩
    | none =>
      obtain ⟨hh', ha', hitems⟩ := withholds_keepItems ih hh ha
      exact ⟨hh'.alloc fun hmem => hitems _ hmem rfl, fun heq => Nat.ne_of_gt ha' (Datum.ref.inj heq)⟩
  | @dict cell ms hcell _ ih =>
    intro h hh ha
    cases cell with
    | some b => exact ⟨hh, fun heq => hcell (congrArg some (Datum.ref.inj heq))⟩
    | none =>
      obtain ⟨hh', ha', hitems⟩ := withholds_keepItems (List.forall_mem_map.2 ih) hh ha
      rw [Heap.keep, keepMembers_eq]
      refine ⟨hh'.alloc (not_mem_parts_dict fun m hm => ?_), fun heq => Nat.ne_of_gt ha' (Datum.ref.inj heq)⟩
      exact hitems m.2 (List.of_mem_zip hm).2
  | store => exact fun h hh _ => ⟨hh, fun heq => Datum.noConfusion heq⟩

/-- An object that memory withholds does not stand in the view of anything else. -/
theorem Withholds.lacks_viewWithin (hh : h.Withholds a) (depth : Nat) (path : List Addr) (hd : d ≠ .ref a) :
    (h.viewWithin depth path d).Lacks a := by
  induction depth generalizing path d with
  | zero => cases d <;> exact .plain rfl
  | succ depth ih =>
    cases d with
    | ref b =>
      have hb : some b ≠ some a := fun heq => hd (congrArg Datum.ref (Option.some.inj heq))
      rw [Heap.viewWithin]
      split
      · exact .plain rfl
      split
      · next xs hcell =>
        refine .list hb (List.forall_mem_map.2 fun x hx => ih _ ?_)
        exact fun heq => hh b _ hcell (heq ▸ hx)
      · next ms hcell =>
        refine .dict hb (List.forall_mem_map.2 fun m hm => ih _ ?_)
        exact fun heq => hh b _ hcell (heq ▸ List.mem_map_of_mem hm)
      · exact .plain rfl
    | store b name =>
      rw [Heap.viewWithin]
      split
      · exact .plain rfl
      · exact .store
    | _ => exact .plain rfl

theorem Withholds.lacks_view (hh : h.Withholds a) (hd : d ≠ .ref a) : (h.view d).Lacks a :=
  hh.lacks_viewWithin _ _ hd

/-! ## 2. Containers stay what they are -/

/-- A list in memory is still a list, and an object still an object. -/
def KeepsKinds (h h' : Heap) : Prop :=
  ∀ a, (∀ xs, h.cell? a = some (.list xs) → ∃ xs', h'.cell? a = some (.list xs')) ∧
    ∀ ms, h.cell? a = some (.dict ms) → ∃ ms', h'.cell? a = some (.dict ms')

theorem KeepsKinds.trans (hh : h.KeepsKinds h') (hh' : h'.KeepsKinds h'') : h.KeepsKinds h'' := by
  intro a
  constructor
  · intro xs hxs
    obtain ⟨xs', hxs'⟩ := (hh a).1 xs hxs
    exact (hh' a).1 xs' hxs'
  · intro ms hms
    obtain ⟨ms', hms'⟩ := (hh a).2 ms hms
    exact (hh' a).2 ms' hms'

theorem Extends.keepsKinds (hext : h'.Extends h) : h.KeepsKinds h' := fun a =>
  ⟨fun xs hxs => ⟨xs, (hext.cell a (cell?_lt hxs)).trans hxs⟩,
    fun ms hms => ⟨ms, (hext.cell a (cell?_lt hms)).trans hms⟩⟩

theorem cell?_write_self (ha : a < h.cells.size) : (h.write a c).cell? a = some c := by
  rw [cell?_write, if_pos rfl, if_pos ha]

theorem cell?_write_of_ne (hab : a ≠ b) : (h.write a c).cell? b = h.cell? b := by
  rw [cell?_write, if_neg hab]

/-- To write what a cell holds changes nothing. -/
theorem write_self (hc : h.cell? a = some c) : h.write a c = h := by
  obtain ⟨ha, rfl⟩ := Array.getElem?_eq_some_iff.1 hc
  rw [write, Array.setIfInBounds, dif_pos ha, Array.set_getElem_self]

theorem write_write (a : Addr) (c c' : Cell) (h : Heap) : (h.write a c).write a c' = h.write a c' := by
  rw [write, write, write, Array.setIfInBounds_setIfInBounds]

/-- An object may get other members. -/
theorem keepsKinds_write {ms : Members Datum} (hms : h.cell? a = some (.dict ms)) (ms' : Members Datum) :
    h.KeepsKinds (h.write a (.dict ms')) := by
  intro b
  by_cases hab : a = b
  · subst hab
    rw [cell?_write_self (cell?_lt hms), hms]
    exact ⟨fun xs hxs => (nomatch hxs), fun _ _ => ⟨ms', rfl⟩⟩
  · rw [cell?_write_of_ne hab]
    exact ⟨fun xs hxs => ⟨xs, hxs⟩, fun ms hms => ⟨ms, hms⟩⟩

theorem Extends.putMember (hext : h'.Extends h) (hnew : h.cells.size ≤ a) (key : String) (d : Datum) :
    (h'.putMember a key d).Extends h where
  size := by
    rw [size_putMember]
    exact hext.size
  cell b hb := by
    rw [Heap.putMember, cell?_write_of_ne (Nat.ne_of_gt (Nat.lt_of_lt_of_le hb hnew)), hext.cell b hb]

/-- A write below a new object that is empty makes new objects only. -/
theorem extends_writeBelow (hext : h'.Extends h) (hnew : h.cells.size ≤ a) (ha : h'.cell? a = some (.dict []))
    (first : String) (rest : List String) (d : Datum) : (h'.writeBelow a first rest d).Extends h := by
  induction rest generalizing h' a first with
  | nil => exact hext.putMember hnew first d
  | cons key more ih =>
    have hnone : (Members.get? (h'.membersAt a) first).bind h'.objectOf? = none := by
      rw [membersAt, ha]
      rfl
    rw [Heap.writeBelow, hnone]
    have halloc := hext.trans (extends_alloc h' (.dict []))
    have hne : a ≠ h'.cells.size := Nat.ne_of_lt (cell?_lt ha)
    refine ih (halloc.putMember hnew first _) hext.size ?_ key
    rw [Heap.putMember, cell?_write_of_ne hne]
    exact cell?_alloc_self h' _

theorem keepsKinds_writeBelow {ms : Members Datum} (hms : h.cell? a = some (.dict ms)) (first : String)
    (rest : List String) (d : Datum) : h.KeepsKinds (h.writeBelow a first rest d) := by
  induction rest generalizing h a ms first with
  | nil => exact keepsKinds_write hms _
  | cons key more ih =>
    rw [Heap.writeBelow]
    split
    · next b hb =>
      obtain ⟨-, ms', hms'⟩ := get?_of_objectOf? hb
      exact ih hms' key
    · have hnew := extends_alloc h (.dict [])
      have hlt := cell?_lt hms
      have hold : (h.alloc (.dict [])).2.cell? a = some (.dict ms) := (hnew.cell a hlt).trans hms
      have hput := keepsKinds_write hold (Members.put first (.ref h.cells.size) ((h.alloc (.dict [])).2.membersAt a))
      obtain ⟨ms', hms'⟩ := (hput h.cells.size).2 [] (cell?_alloc_self h _)
      exact (hnew.keepsKinds.trans hput).trans (ih hms' key)

/-- The type of a datum that is there does not change while containers stay what they are. -/
theorem KeepsKinds.admits_eq (hh : h.KeepsKinds h') (hd : d.Free (.beyond h.cells.size)) (demand : Demand) :
    demand.admits (h'.view d) = demand.admits (h.view d) := by
  have htype : ∀ t : TypeName, t.admits (h'.view d) = t.admits (h.view d) := by
    intro t
    cases d with
    | ref a =>
      have hlt := Seal.beyond_eq_none.1 (Datum.free_ref.1 hd)
      obtain ⟨c, hc⟩ : ∃ c, h.cell? a = some c := ⟨_, Array.getElem?_eq_getElem hlt⟩
      cases c with
      | list xs =>
        obtain ⟨xs', hxs'⟩ := (hh a).1 xs hc
        rw [view_list hc, view_list hxs']
        cases t <;> rfl
      | dict ms =>
        obtain ⟨ms', hms'⟩ := (hh a).2 ms hc
        rw [view_dict hc, view_dict hms']
        cases t <;> rfl
    | store a name => cases t <;> rfl
    | _ => rfl
  cases demand with
  | one t => exact htype t
  | among ts => exact congrArg (ts.any ·) (funext htype)

end Heap

namespace Shared

variable {s : Shared} {h h' : Heap} {ms : Members Datum} {d : Datum}

/-! ## 3. A context whose object is its own -/

/-- Memory holds the members of a context in an object to which nothing else leads. -/
structure Owns (s : Shared) (h : Heap) (ms : Members Datum) : Prop where
  object : h.cell? s.data = some (.dict ms)
  closed : h.Closed
  withheld : h.Withholds s.data

/-- A datum that is there and is not the object of a context. -/
structure Offers (s : Shared) (h : Heap) (d : Datum) : Prop where
  free : d.Free (.beyond h.cells.size)
  ne : d ≠ .ref s.data

theorem Offers.later (hd : s.Offers h d) (hsize : h.cells.size ≤ h'.cells.size) : s.Offers h' d :=
  ⟨hd.free.later hsize, hd.ne⟩

namespace Owns

variable (hs : s.Owns h ms)
include hs

theorem lt : s.data < h.cells.size := Heap.cell?_lt hs.object

theorem membersAt : h.membersAt s.data = ms := by
  rw [Heap.membersAt, hs.object]

theorem get? (key : String) : s.get? h key = Members.get? ms key := by
  rw [Shared.get?, hs.membersAt]

theorem offers : ∀ m ∈ ms, s.Offers h m.2 := by
  have hfree := hs.closed.membersAt s.data
  have hne := hs.withheld.membersAt s.data
  rw [hs.membersAt] at hfree hne
  exact fun m hm => ⟨hfree m hm, hne m hm⟩

theorem congr {s' : Shared} (hdata : s'.data = s.data) : s'.Owns h ms :=
  ⟨hdata ▸ hs.object, hs.closed, hdata ▸ hs.withheld⟩

theorem write {ms' : Members Datum} (hms' : ∀ m ∈ ms', s.Offers h m.2) : s.Owns (h.write s.data (.dict ms')) ms' where
  object := Heap.cell?_write_self hs.lt
  closed := hs.closed.write s.data (Cell.free_dict.2 fun m hm => (hms' m hm).free)
  withheld := hs.withheld.write (Heap.not_mem_parts_dict fun m hm => (hms' m hm).ne)

/-- What is kept is at hand afterwards. -/
theorem keep {v : Value} (hfree : v.Free (.beyond h.cells.size)) (hlacks : v.Lacks s.data) :
    s.Owns (h.keep v).2 ms ∧ s.Offers (h.keep v).2 (h.keep v).1 := by
  obtain ⟨hclosed, hdatum⟩ := Heap.keepsClosed v h hs.closed hfree
  obtain ⟨hwithheld, hne⟩ := Heap.keepsFrom hlacks h hs.withheld hs.lt
  have hobject := ((Heap.extends_keep h v).cell s.data hs.lt).trans hs.object
  exact ⟨⟨hobject, hclosed, hwithheld⟩, hdatum, hne⟩

/-- The members of an object are kept under the same keys. -/
theorem keepMembers {entries : Members Value}
    (hentries : ∀ m ∈ entries, m.2.Free (.beyond h.cells.size) ∧ m.2.Lacks s.data) :
    s.Owns (Heap.keepMembers entries h).2 ms ∧ (Heap.keepMembers entries h).2.Extends h ∧
      (∀ m ∈ (Heap.keepMembers entries h).1, s.Offers (Heap.keepMembers entries h).2 m.2) ∧
      (Heap.keepMembers entries h).1.keys = entries.keys := by
  induction entries generalizing h with
  | nil => exact ⟨hs, .refl h, fun m hm => absurd hm List.not_mem_nil, rfl⟩
  | cons m entries ih =>
    rw [List.forall_mem_cons] at hentries
    obtain ⟨hkept, hdatum⟩ := hs.keep hentries.1.1 hentries.1.2
    have hext := Heap.extends_keep h m.2
    obtain ⟨hall, hext', hrest, hkeys⟩ := ih hkept fun m hm =>
      ⟨(hentries.2 m hm).1.later hext.size, (hentries.2 m hm).2⟩
    rw [Heap.keepMembers]
    refine ⟨hall, hext.trans hext', List.forall_mem_cons.2 ⟨hdatum.later hext'.size, hrest⟩, ?_⟩
    exact congrArg (m.1 :: ·) hkeys

theorem alloc : s.Owns (h.alloc (.dict [])).2 ms where
  object := ((Heap.extends_alloc h _).cell s.data hs.lt).trans hs.object
  closed := hs.closed.alloc Cell.free_empty
  withheld := hs.withheld.alloc List.not_mem_nil

/-- An object that is found in memory is not that of the context. -/
theorem ne_of_objectOf? {a b : Addr} {key : String}
    (hb : (Members.get? (h.membersAt a) key).bind h.objectOf? = some b) : b ≠ s.data := by
  rintro rfl
  exact hs.withheld.membersAt a _ (Members.mem_of_get? (Heap.get?_of_objectOf? hb).1) rfl

theorem putMember {a : Addr} (ha : a ≠ s.data) (hd : s.Offers h d) (key : String) :
    s.Owns (h.putMember a key d) ms where
  object := (Heap.cell?_write_of_ne ha).trans hs.object
  closed := hs.closed.putMember a hd.free key
  withheld := hs.withheld.putMember hd.ne a key

/-- The object under a key is not that of the context, whether it is found or made. -/
theorem objectUnder (key : String) :
    s.Owns (h.objectUnder s.data key).2 ms ∧ (h.objectUnder s.data key).2.Extends h ∧
      s.Offers (h.objectUnder s.data key).2 (.ref (h.objectUnder s.data key).1) ∧
      ∃ ms', (h.objectUnder s.data key).2.cell? (h.objectUnder s.data key).1 = some (.dict ms') := by
  have hfree := (hs.closed.objectUnder s.data key).2.2
  rw [Heap.objectUnder] at hfree ⊢
  split at hfree
  · next b hb =>
    have hne := hs.ne_of_objectOf? hb
    exact ⟨hs, .refl h, ⟨hfree, fun heq => hne (Datum.ref.inj heq)⟩, (Heap.get?_of_objectOf? hb).2⟩
  · have hne : h.cells.size ≠ s.data := Nat.ne_of_gt hs.lt
    exact ⟨hs.alloc, Heap.extends_alloc h _, ⟨hfree, fun heq => hne (Datum.ref.inj heq)⟩,
      [], Heap.cell?_alloc_self h _⟩

/-- A write below does not reach the top. -/
theorem writeBelow {a : Addr} (ha : a ≠ s.data) (hd : s.Offers h d) (first : String) (rest : List String) :
    s.Owns (h.writeBelow a first rest d) ms := by
  induction rest generalizing h a first with
  | nil => exact hs.putMember ha hd first
  | cons key more ih =>
    rw [Heap.writeBelow]
    split
    · next b hb => exact ih hs (hs.ne_of_objectOf? hb) hd key
    · have hnew : h.cells.size ≠ s.data := Nat.ne_of_gt hs.lt
      have hd' := hd.later (Heap.extends_alloc h (.dict [])).size
      have hput : s.Owns ((h.alloc (.dict [])).2.putMember a first (.ref h.cells.size)) ms :=
        hs.alloc.putMember ha ⟨Heap.free_alloc h _, fun heq => hnew (Datum.ref.inj heq)⟩ first
      exact ih hput hnew (hd'.later (Nat.le_of_eq (Heap.size_putMember _ _ _ _).symm)) key

end Owns

end Shared

end NodeFlow
