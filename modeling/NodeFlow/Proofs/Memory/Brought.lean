import NodeFlow.Proofs.Memory.Growth
import NodeFlow.Proofs.Memory.Twins
/-!
# Memory that is brought along

A shared context comes with memory of its own. Its cells are put behind those that are there, and bear other names
then; so do its labels. Brought to a later state of a memory it lies further behind, and that is the only difference:
what the two states have in common corresponds to itself, what was brought corresponds to what was brought, and
what has come in between can be left out of account, since nothing refers to it.

The awkward thing up front: a not-a-number is told from another one by its label. So the labels in what is common
must have been given by then, or the next one to be given might be among them.
-/

set_option autoImplicit false

namespace NodeFlow

/-! ## 1. Labels -/

/-- The label of a datum, if it is a not-a-number with one. -/
def Datum.labels : Datum → List Nat
  | .float (.nan label) => label.toList
  | _ => []

/-- All labels in memory have been given. -/
structure Heap.Labelled (h : Heap) : Prop where
  pos : 0 < h.nextLabel
  lt : ∀ a c, h.cell? a = some c → ∀ d ∈ c.parts, ∀ l ∈ d.labels, l < h.nextLabel

namespace Value

mutual

/-- The labels of the not-a-numbers in a value. -/
def labels : Value → List Nat
  | .float x => (Datum.float x).labels
  | .list _ items => labelsOfItems items
  | .dict _ members => labelsOfMembers members
  | .store _ _ members => labelsOfMembers members
  | _ => []
termination_by structural v => v

/-- The labels in the elements of a list. -/
def labelsOfItems : List Value → List Nat
  | [] => []
  | x :: xs => x.labels ++ labelsOfItems xs
termination_by structural xs => xs

/-- The labels in the members of an object. -/
def labelsOfMembers : List (String × Value) → List Nat
  | [] => []
  | (_, x) :: ms => x.labels ++ labelsOfMembers ms
termination_by structural ms => ms

end

theorem labelsOfItems_eq (xs : List Value) : labelsOfItems xs = xs.flatMap labels := by
  induction xs with
  | nil => rfl
  | cons x xs ih => rw [labelsOfItems, ih, List.flatMap_cons]

theorem labelsOfMembers_eq (ms : List (String × Value)) : labelsOfMembers ms = (ms.map Prod.snd).flatMap labels := by
  induction ms with
  | nil => rfl
  | cons m ms ih => rw [labelsOfMembers, ih, List.map_cons, List.flatMap_cons]

theorem labels_list (cell : Option Addr) (xs : List Value) : (Value.list cell xs).labels = xs.flatMap labels := by
  rw [labels, labelsOfItems_eq]

theorem labels_dict (cell : Option Addr) (ms : List (String × Value)) :
    (Value.dict cell ms).labels = (ms.map Prod.snd).flatMap labels := by
  rw [labels, labelsOfMembers_eq]

theorem labels_fresh (v : Value) : v.fresh.labels = v.labels := by
  have hall : ∀ {xs : List Value}, (∀ x ∈ xs, x.fresh.labels = x.labels) →
      (xs.map fresh).flatMap labels = xs.flatMap labels := by
    intro xs h
    rw [List.flatMap_map, List.flatMap_def, List.flatMap_def]
    exact congrArg List.flatten (List.map_congr_left h)
  induction v using Value.induction with
  | plain v hp => rw [fresh_of_isPlain hp]
  | list cell xs ih => rw [fresh_list, labels_list, labels_list, hall ih]
  | dict cell ms ih =>
    have hsnd := hall (List.forall_mem_map.2 ih)
    rw [List.map_map] at hsnd
    rw [fresh_dict, labels_dict, labels_dict, List.map_map]
    exact hsnd
  | store cell name ms _ => rfl

theorem labels_datum_subset (v : Value) : ∀ l ∈ v.datum.labels, l ∈ v.labels := by
  intro l hl
  cases v with
  | float x =>
    rw [labels]
    exact hl
  | list cell xs => cases cell <;> exact absurd hl List.not_mem_nil
  | dict cell ms => cases cell <;> exact absurd hl List.not_mem_nil
  | _ => exact absurd hl List.not_mem_nil

end Value

namespace Heap

variable {h h' : Heap} {a : Addr} {c : Cell}

/-- The labels in the cells of a value that is held are those of the value. -/
theorem Holds.labels_subset {v : Value} (hv : h.Holds v) (ha : a ∈ v.marks) (hc : h.cell? a = some c) :
    ∀ d ∈ c.parts, ∀ l ∈ d.labels, l ∈ v.labels := by
  induction hv with
  | plain hp =>
    rw [Value.marks_of_isPlain hp] at ha
    exact absurd ha List.not_mem_nil
  | @list root xs hcell _ _ ih =>
    rw [Value.marks_list_some] at ha
    rw [Value.labels_list]
    intro d hd l hl
    rcases List.mem_cons.1 ha with rfl | ha
    · obtain rfl := Option.some.inj (hcell.symm.trans hc)
      obtain ⟨x, hx, rfl⟩ := List.mem_map.1 hd
      exact List.mem_flatMap.2 ⟨x, hx, x.labels_datum_subset l hl⟩
    · obtain ⟨x, hx, hax⟩ := List.mem_flatMap.1 ha
      exact List.mem_flatMap.2 ⟨x, hx, ih x hx hax d hd l hl⟩
  | @dict root ms hcell _ _ ih =>
    rw [Value.marks_dict_some] at ha
    rw [Value.labels_dict]
    intro d hd l hl
    rcases List.mem_cons.1 ha with rfl | ha
    · obtain rfl := Option.some.inj (hcell.symm.trans hc)
      rw [Cell.parts, List.map_map] at hd
      obtain ⟨m, hm, rfl⟩ := List.mem_map.1 hd
      exact List.mem_flatMap.2 ⟨m.2, List.mem_map_of_mem hm, m.2.labels_datum_subset l hl⟩
    · obtain ⟨x, hx, hax⟩ := List.mem_flatMap.1 ha
      obtain ⟨m, hm, rfl⟩ := List.mem_map.1 hx
      exact List.mem_flatMap.2 ⟨m.2, hx, ih m hm hax d hd l hl⟩

theorem Labelled.alloc (hh : h.Labelled) (hc : ∀ d ∈ c.parts, ∀ l ∈ d.labels, l < h.nextLabel) :
    (h.alloc c).2.Labelled where
  pos := hh.pos
  lt a c' ha := by
    rcases cell?_alloc_cases ha with ha | ⟨-, rfl⟩
    · exact hh.lt a c' ha
    · exact hc

theorem Labelled.membersAt (hh : h.Labelled) (a : Addr) : ∀ m ∈ h.membersAt a, ∀ l ∈ m.2.labels, l < h.nextLabel := by
  rw [Heap.membersAt]
  split
  · next ms hcell => exact fun m hm => hh.lt a _ hcell m.2 (List.mem_map_of_mem hm)
  · exact fun m hm => absurd hm List.not_mem_nil

/-- Memory in which a value is kept is labelled if the labels of the value have been given. -/
theorem Kept.labelled {v v' : Value} (hkept : Kept h v v' h') (hh : h.Labelled) (hv : ∀ l ∈ v.labels, l < h.nextLabel) :
    h'.Labelled where
  pos := hkept.labels ▸ hh.pos
  lt a c hc := by
    rw [hkept.labels]
    rcases Nat.lt_or_ge a h.cells.size with hold | hnew
    · rw [hkept.extends_.cell a hold] at hc
      exact hh.lt a c hc
    · rw [← hkept.fresh, Value.labels_fresh] at hv
      exact fun d hd l hl => hv l (hkept.holds.labels_subset (hkept.all a hnew (cell?_lt hc)) hc d hd l hl)

end Heap

/-! ## 2. Names -/

namespace Renaming

/-- All cells are moved by a number, and all labels but that of what is decoded. -/
def moved (n m : Nat) : Renaming where
  cell a := n + a
  label l := if l = 0 then 0 else m + l
  cell_injective _ _ h := Nat.add_left_cancel h
  label_injective l l' h := by
    dsimp only at h
    split at h <;> split at h <;> omega
  label_zero := rfl

theorem injective_later (n k : Nat) : Function.Injective fun a : Nat => if a < n then a else a + k := by
  intro a b h
  dsimp only at h
  split at h <;> split at h <;> omega

/-- The cells from a number on are moved, and so are the labels. -/
def later (n k l j : Nat) : Renaming where
  cell a := if a < n then a else a + k
  label b := if b = 0 ∨ b < l then b else b + j
  cell_injective := injective_later n k
  label_injective a b h := by
    dsimp only at h
    split at h <;> split at h <;> omega
  label_zero := rfl

theorem moved_label_of_ne {n m l : Nat} (h : l ≠ 0) : (moved n m).label l = m + l := if_neg h

variable {n k l j : Nat}

theorem later_cell_of_lt {a : Addr} (h : a < n) : (later n k l j).cell a = a := if_pos h

theorem later_cell_of_le {a : Addr} (h : n ≤ a) : (later n k l j).cell a = a + k := if_neg (Nat.not_lt.2 h)

theorem later_label_of_lt {b : Nat} (h : b < l) : (later n k l j).label b = b := if_pos (Or.inr h)

theorem later_label_of_le {b : Nat} (hl : 0 < l) (h : l ≤ b) : (later n k l j).label b = b + j :=
  if_neg fun hb => hb.elim (fun hb => by omega) (Nat.not_lt.2 h)

end Renaming

section

variable {σ τ ρ : Renaming}

/-- A datum whose cell and label keep their names stays as it is. -/
theorem Datum.renamed_eq_self {d : Datum} (hcell : ∀ a ∈ d.refs, σ.cell a = a) (hlabel : ∀ l ∈ d.labels, σ.label l = l) :
    d.renamed σ = d := by
  cases d with
  | float x =>
    cases x with
    | nan label =>
      cases label with
      | none => rfl
      | some l => rw [renamed, Binary64.renamed, Option.map_some, hlabel l (List.mem_singleton_self l)]
    | _ => rfl
  | ref a => rw [renamed_ref, hcell a (List.mem_singleton_self a)]
  | store a name => rw [renamed_store, hcell a (List.mem_singleton_self a)]
  | _ => rfl

theorem Cell.renamed_eq_self {c : Cell} (h : ∀ d ∈ c.parts, d.renamed σ = d) : c.renamed σ = c := by
  cases c with
  | list xs => exact congrArg Cell.list ((List.map_congr_left h).trans (List.map_id' xs))
  | dict ms =>
    have hms : ∀ m ∈ ms, (m.1, m.2.renamed σ) = m := fun m hm =>
      congrArg (Prod.mk m.1) (h m.2 (List.mem_map_of_mem hm))
    exact congrArg Cell.dict ((List.map_congr_left hms).trans (List.map_id' ms))

/-- One renaming after another is a third one. -/
theorem Cell.renamed_renamed (hcell : ∀ a, τ.cell (σ.cell a) = ρ.cell a) (hlabel : ∀ l, τ.label (σ.label l) = ρ.label l)
    (c : Cell) : (c.renamed σ).renamed τ = c.renamed ρ := by
  have hdatum : ∀ d : Datum, (d.renamed σ).renamed τ = d.renamed ρ := by
    intro d
    cases d with
    | float x =>
      cases x with
      | nan label =>
        have hsame : τ.label ∘ σ.label = ρ.label := funext hlabel
        simp only [Datum.renamed, Binary64.renamed, Option.map_map, hsame]
      | _ => rfl
    | ref a => exact congrArg Datum.ref (hcell a)
    | store a name => exact congrArg (Datum.store · name) (hcell a)
    | _ => rfl
  cases c with
  | list xs => simp only [renamed, List.map_map, Function.comp_def, hdatum]
  | dict ms => simp only [renamed, List.map_map, Function.comp_def, hdatum]

end

/-! ## 3. What is brought -/

namespace Heap

/-- Memory with the cells of another one behind its own, under new names. -/
def bring (g h : Heap) : Heap where
  cells := h.cells ++ g.cells.map (Cell.renamed (.moved h.cells.size (h.nextLabel - 1)))
  nextLabel := h.nextLabel + (g.nextLabel - 1)

variable {g h h' : Heap}

@[simp] theorem size_bring (g h : Heap) : (g.bring h).cells.size = h.cells.size + g.cells.size := by
  rw [bring, Array.size_append, Array.size_map]

theorem cell?_bring_of_lt {a : Addr} (ha : a < h.cells.size) : (g.bring h).cell? a = h.cell? a :=
  Array.getElem?_append_left ha

theorem cell?_bring (i : Nat) :
    (g.bring h).cell? (h.cells.size + i) = (g.cell? i).map (Cell.renamed (.moved h.cells.size (h.nextLabel - 1))) := by
  rw [bring, cell?, Array.getElem?_append_right (Nat.le_add_right _ _), Nat.add_sub_cancel_left, Array.getElem?_map, cell?]

theorem extends_bring (g h : Heap) : (g.bring h).Extends h where
  size := by rw [size_bring]; exact Nat.le_add_right _ _
  cell _ ha := cell?_bring_of_lt ha

/-- What is brought refers to nothing else. -/
theorem refs_bring (hg : g.Closed) {a : Addr} {c : Cell} (ha : h.cells.size ≤ a) (hc : (g.bring h).cell? a = some c) :
    ∀ d ∈ c.parts, ∀ b ∈ d.refs, h.cells.size ≤ b ∧ b < (g.bring h).cells.size := by
  obtain ⟨i, rfl⟩ := Nat.exists_eq_add_of_le ha
  rw [cell?_bring, Option.map_eq_some_iff] at hc
  obtain ⟨c, hc, rfl⟩ := hc
  rw [Cell.parts_renamed, List.forall_mem_map]
  intro d hd _ hb
  rw [Datum.refs_renamed] at hb
  obtain ⟨b, hmem, rfl⟩ := List.mem_map.1 hb
  rw [size_bring]
  exact ⟨Nat.le_add_right _ _, Nat.add_lt_add_left (hg i c hc d hd b hmem) _⟩

/-- A later state of memory: the cells are as they were, and more may have come into use, and more labels. -/
structure Follows (h' h : Heap) : Prop where
  extends_ : h'.Extends h
  labels : h.nextLabel ≤ h'.nextLabel

theorem Follows.refl (h : Heap) : h.Follows h := ⟨.refl h, Nat.le_refl _⟩

/-- The cells that have come into use since a state of memory. -/
def since (n : Nat) (h : Heap) : Seal := fun a => if n ≤ a then h.cell? a else none

/-- The names in a later state of memory: what is there in the earlier one keeps its own. -/
def namesIn (h h' : Heap) : Renaming :=
  .later h.cells.size (h'.cells.size - h.cells.size) h.nextLabel (h'.nextLabel - h.nextLabel)

variable {base : Heap}

theorem since_of_lt {n : Nat} {a : Addr} (ha : a < n) : h.since n a = none := if_neg (Nat.not_le.2 ha)

theorem since_of_le {n : Nat} {a : Addr} (ha : h.cells.size ≤ a) : h.since n a = none := by
  rw [since]
  split
  · exact Array.getElem?_eq_none ha
  · rfl

theorem cases_of_since {n : Nat} {a : Addr} (ha : h.since n a = none) : a < n ∨ h.cells.size ≤ a := by
  rcases Nat.lt_or_ge a n with hlt | hle
  · exact Or.inl hlt
  · rw [since, if_pos hle] at ha
    exact Or.inr (Array.getElem?_eq_none_iff.1 ha)

theorem free_since {d : Datum} {n : Nat} (hd : d.Free (.beyond n)) : d.Free (h.since n) := fun a ha =>
  since_of_lt (Seal.beyond_eq_none.1 (hd a ha))

section

variable (hclosed : base.Closed) (hlabelled : base.Labelled) (hh : h.Follows base) (hh' : h'.Follows h)

include hh'

theorem namesIn_cell (k : Nat) : (h.namesIn h').cell (h.cells.size + k) = h'.cells.size + k := by
  rw [namesIn, Renaming.later_cell_of_le (Nat.le_add_right _ _), Nat.add_right_comm,
    Nat.add_sub_cancel' hh'.extends_.size]

include hlabelled hh

theorem namesIn_label (k : Nat) : (h.namesIn h').label (h.nextLabel + k) = h'.nextLabel + k := by
  have hle := hh'.labels
  rw [namesIn, Renaming.later_label_of_le (Nat.lt_of_lt_of_le hlabelled.pos hh.labels) (Nat.le_add_right _ _)]
  omega

omit hlabelled hh' in
/-- What refers to the common memory only keeps its names. -/
theorem datum_renamed_namesIn {d : Datum} (hrefs : ∀ b ∈ d.refs, b < base.cells.size)
    (hlabels : ∀ l ∈ d.labels, l < base.nextLabel) : d.renamed (h.namesIn h') = d :=
  Datum.renamed_eq_self (fun b hb => Renaming.later_cell_of_lt (Nat.lt_of_lt_of_le (hrefs b hb) hh.extends_.size))
    fun l hl => Renaming.later_label_of_lt (Nat.lt_of_lt_of_le (hlabels l hl) hh.labels)

include hclosed

omit hh' in
theorem renamed_namesIn {a : Addr} {c : Cell} (hc : base.cell? a = some c) : c.renamed (h.namesIn h') = c :=
  Cell.renamed_eq_self fun d hd => datum_renamed_namesIn hh (hclosed a c hc d hd) (hlabelled.lt a c hc d hd)

/-- What is brought to two states of a memory, the one later than the other, is the same in both, beside what both
have in common with an earlier state. -/
theorem reflects_bring (hg : g.Closed) :
    Reflects (h.namesIn h') (h.since base.cells.size) (g.bring h) (g.bring h') where
  apart a c ha hc d hd b hb := by
    rcases cases_of_since ha with hlt | hle
    · rw [cell?_bring_of_lt (Nat.lt_of_lt_of_le hlt hh.extends_.size), hh.extends_.cell a hlt] at hc
      exact since_of_lt (hclosed a c hc d hd b hb)
    · exact since_of_le (refs_bring hg hle hc d hd b hb).1
  cell a ha := by
    rcases cases_of_since ha with hlt | hle
    · have hlt' := Nat.lt_of_lt_of_le hlt hh.extends_.size
      rw [namesIn, Renaming.later_cell_of_lt hlt', cell?_bring_of_lt (Nat.lt_of_lt_of_le hlt' hh'.extends_.size),
        cell?_bring_of_lt hlt', hh'.extends_.cell a hlt', hh.extends_.cell a hlt]
      cases hc : base.cell? a with
      | none => rfl
      | some c => exact congrArg some (renamed_namesIn hclosed hlabelled hh hc).symm
    · obtain ⟨i, rfl⟩ := Nat.exists_eq_add_of_le hle
      rw [namesIn_cell hh', cell?_bring, cell?_bring, Option.map_map]
      refine congrArg (Option.map · _) (funext fun c => (Cell.renamed_renamed (namesIn_cell hh') (fun l => ?_) c).symm)
      -- a label that is moved becomes one that is moved further
      have hpos := Nat.lt_of_lt_of_le hlabelled.pos hh.labels
      have hle' := hh'.labels
      by_cases hl : l = 0
      · subst hl
        rfl
      · have hfar : h.nextLabel ≤ h.nextLabel - 1 + l := by omega
        rw [Renaming.moved_label_of_ne hl, Renaming.moved_label_of_ne hl, namesIn, Renaming.later_label_of_le hpos hfar]
        omega

end

/-- What stands when an object has been put behind memory and what was brought to it: this object, and that memory. -/
def standing (g h : Heap) (ms : Members Datum) : Seal := fun a =>
  if a < h.cells.size ∨ a = (g.bring h).cells.size then ((g.bring h).alloc (.dict ms)).2.cell? a else none

section

variable {ms : Members Datum} {k : Heap}

theorem standing_of_lt {a : Addr} (ha : a < h.cells.size) : standing g h ms a = h.cell? a := by
  rw [standing, if_pos (Or.inl ha), cell?_alloc_of_lt (Nat.lt_of_lt_of_le ha (extends_bring g h).size),
    cell?_bring_of_lt ha]

theorem standing_size : standing g h ms (g.bring h).cells.size = some (.dict ms) := by
  rw [standing, if_pos (Or.inr rfl), cell?_alloc_self]

theorem standing_of_brought {a : Addr} (ha : h.cells.size ≤ a) (hlt : a < (g.bring h).cells.size) :
    standing g h ms a = none :=
  if_neg fun hor => hor.elim (Nat.not_lt.2 ha) (Nat.ne_of_lt hlt)

/-- What was brought does not refer to what stands. -/
theorem obeys_standing (hg : g.Closed) (ms : Members Datum) :
    ((g.bring h).alloc (.dict ms)).2.Obeys (standing g h ms) where
  sealed a c hs := by
    rw [standing] at hs
    split at hs
    · exact hs
    · cases hs
  free a c ha hc d hd b hb := by
    have hbrought : h.cells.size ≤ a ∧ (g.bring h).cell? a = some c := by
      rcases cell?_alloc_cases hc with hold | ⟨rfl, -⟩
      · refine ⟨Nat.not_lt.1 fun hlt => ?_, hold⟩
        rw [standing_of_lt hlt, ← cell?_bring_of_lt (g := g) hlt, hold] at ha
        cases ha
      · rw [standing_size] at ha
        cases ha
    obtain ⟨hle, hlt⟩ := refs_bring hg hbrought.1 hbrought.2 d hd b hb
    exact standing_of_brought hle hlt

/-- While that stands, memory is a later state of what it was, and the object is what it was. -/
theorem Obeys.cell?_standing (hk : k.Obeys (standing g h ms)) : k.cell? (g.bring h).cells.size = some (.dict ms) :=
  hk.sealed _ _ standing_size

theorem Obeys.extends_standing (hk : k.Obeys (standing g h ms)) : k.Extends h where
  size := Nat.le_trans (extends_bring g h).size (Nat.le_of_lt (cell?_lt hk.cell?_standing))
  cell a ha := by
    obtain ⟨c, hc⟩ : ∃ c, h.cell? a = some c := ⟨_, Array.getElem?_eq_getElem ha⟩
    rw [hc]
    exact hk.sealed a c ((standing_of_lt ha).trans hc)

end

/-! ## 4. What is seen -/

/-- A view does not depend on cells of the path to it that it does not lead to. -/
theorem viewWithin_append {S : Seal} (hh : h.Apart S) (depth : Nat) (path : List Addr) {extra : List Addr}
    (hextra : ∀ a ∈ extra, S a ≠ none) {d : Datum} (hd : d.Free S) :
    h.viewWithin depth (path ++ extra) d = h.viewWithin depth path d := by
  have hcontains : ∀ (path : List Addr) {a : Addr}, S a = none → (path ++ extra).contains a = path.contains a := by
    intro path a ha
    rw [List.contains_append, Bool.or_eq_left_iff_imp]
    exact fun hmem => absurd ha (hextra a (List.contains_iff_mem.1 hmem))
  induction depth generalizing path d with
  | zero => cases d <;> rfl
  | succ depth ih =>
    cases d with
    | ref a =>
      rw [Datum.free_ref] at hd
      rw [viewWithin, viewWithin, hcontains path hd]
      split
      · rfl
      cases hc : h.cell? a with
      | none => rfl
      | some c =>
        have hparts : ∀ part ∈ c.parts,
            h.viewWithin depth (a :: (path ++ extra)) part = h.viewWithin depth (a :: path) part :=
          fun part hpart => ih (a :: path) (hh a c hd hc part hpart)
        cases c with
        | list xs => exact congrArg _ (List.map_congr_left hparts)
        | dict ms =>
          exact congrArg _ (List.map_congr_left fun m hm =>
            congrArg (Prod.mk m.1) (hparts m.2 (List.mem_map_of_mem hm)))
    | store a name =>
      rw [Datum.free_store] at hd
      rw [viewWithin, viewWithin, hcontains path hd]
      split
      · rfl
      exact congrArg _ (List.map_congr_left fun m hm => congrArg (Prod.mk m.1)
        (ih (a :: path) (hh.membersAt hd m hm)))
    | _ => rfl

/-- An object in a new cell is seen with the members that older data show. -/
theorem view_of_members (hbase : base.Closed) (hh : h.Extends base) {a : Addr} (ha : base.cells.size ≤ a)
    {ms : Members Datum} (hms : ∀ m ∈ ms, m.2.Free (.beyond base.cells.size)) (hc : h.cell? a = some (.dict ms)) :
    h.view (.ref a) = .dict (some a) (ms.map fun m => (m.1, base.view m.2)) := by
  have happart : h.Apart (.beyond base.cells.size) := by
    intro b c hb hcell
    rw [hh.cell b (Seal.beyond_eq_none.1 hb)] at hcell
    exact closed_iff.1 hbase b c hcell
  have hself : Reflects .refl (.beyond base.cells.size) h h := by
    refine ⟨happart, fun b _ => ?_⟩
    rw [show Cell.renamed .refl = id from funext Cell.renamed_refl, Option.map_id]
    rfl
  have htrail : h.Trail [a] :=
    ⟨List.nodup_singleton a, fun b hb => List.mem_singleton.1 hb ▸ cell?_lt hc⟩
  have hmember : ∀ m ∈ ms, h.viewWithin h.cells.size [a] m.2 = base.view m.2 := by
    intro m hm
    have hdeep : h.viewWithin (h.cells.size + 1) ([a].map Renaming.refl.cell) (m.2.renamed .refl) =
        (h.viewWithin h.cells.size [a] m.2).renamed .refl :=
      hself.viewWithin (hms m hm) htrail htrail (Nat.lt_succ_self _) (Nat.lt_succ_of_lt (Nat.lt_succ_self _))
    rw [Datum.renamed_refl, Value.renamed_refl, Renaming.refl_cell, List.map_id] at hdeep
    rw [← hdeep, ← hh.view_eq hbase (hms m hm)]
    refine viewWithin_append happart _ [] (fun b hb => ?_) (hms m hm)
    rw [List.mem_singleton.1 hb, ne_eq, Seal.beyond_eq_none]
    exact Nat.not_lt.2 ha
  have hview : h.view (.ref a) = .dict (some a) (ms.map fun m => (m.1, h.viewWithin h.cells.size [a] m.2)) := by
    rw [view, viewWithin, hc]
    rfl
  rw [hview]
  exact congrArg _ (List.map_congr_left fun m hm => congrArg (Prod.mk m.1) (hmember m hm))

end Heap

end NodeFlow
