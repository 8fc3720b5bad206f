import Mathlib.Algebra.GroupWithZero.Nat
import Mathlib.Data.Fintype.Sum
import Mathlib.Order.Interval.Finset.Nat
import NodeFlow.Proofs.Memory.Renaming
/-!
# One value in two memories

Two memories may hold the same value, each in cells of its own. Then the one is the other under a renaming: any
renaming will do that takes the cells of the one to those of the other in their order.

There is such a renaming for whole lists of cells, and it can leave alone all cells behind both.
-/

set_option autoImplicit false

namespace NodeFlow

/-! ## 1. Renamings of lists -/

/-- Cells can be renamed so that a list of them becomes another, and no cell from some number on is renamed. -/
theorem Renaming.exists_of_lists {us vs : List Addr} {n : Nat} (hus : us.Nodup) (hvs : vs.Nodup)
    (hlength : us.length = vs.length) (hlt : ∀ a ∈ us, a < n) (hlt' : ∀ a ∈ vs, a < n) :
    ∃ σ : Renaming, us.map σ.cell = vs ∧ (∀ a, n ≤ a → σ.cell a = a) ∧ σ.label = id := by
  let place (i : Fin n) : Nat := vs.getD (us.idxOf i.1) 0
  let known : Finset (Fin n) := Finset.univ.filter fun i => i.1 ∈ us
  have hindex : ∀ {a : Addr}, a ∈ us → us.idxOf a < vs.length :=
    fun ha => hlength ▸ List.idxOf_lt_length_iff.2 ha
  have hplace : ∀ (i : Fin n) (h : us.idxOf i.1 < vs.length), place i = vs[us.idxOf i.1] :=
    fun i h => (List.getElem_eq_getD (h := h) 0).symm
  have hmem : ∀ {i : Fin n}, i ∈ known → i.1 ∈ us := fun hi => (Finset.mem_filter.1 hi).2
  have himage : Finset.image place known ⊆ Finset.range n := by
    intro a ha
    obtain ⟨i, hi, rfl⟩ := Finset.mem_image.1 ha
    rw [hplace i (hindex (hmem hi)), Finset.mem_range]
    exact hlt' _ (List.getElem_mem _)
  have hinjective : Set.InjOn place known := by
    intro i hi j hj hij
    rw [hplace i (hindex (hmem hi)), hplace j (hindex (hmem hj)), hvs.getElem_inj_iff] at hij
    exact Fin.ext ((List.idxOf_inj (hmem hi)).1 hij)
  -- what is known of the first cells extends to a permutation of all of them
  obtain ⟨g, hg⟩ := Finset.exists_equiv_extend_of_card_eq (t := Finset.range n) (by simp) himage hinjective
  have hbelow : ∀ i : Fin n, (g i).1 < n := fun i => Finset.mem_range.1 (g i).2
  let cell (a : Addr) : Addr := if h : a < n then (g ⟨a, h⟩).1 else a
  have hcell : ∀ a (h : a < n), cell a = (g ⟨a, h⟩).1 := fun a h => dif_pos h
  have hsame : ∀ a, n ≤ a → cell a = a := fun a h => dif_neg (Nat.not_lt.2 h)
  refine ⟨⟨cell, id, fun a b hab => ?_, Function.injective_id, rfl⟩, ?_, hsame, rfl⟩
  · rcases Nat.lt_or_ge a n with ha | ha <;> rcases Nat.lt_or_ge b n with hb | hb
    · rw [hcell a ha, hcell b hb] at hab
      exact congrArg Fin.val (g.injective (Subtype.ext hab))
    · rw [hcell a ha, hsame b hb] at hab
      exact absurd (hbelow ⟨a, ha⟩) (hab ▸ Nat.not_lt.2 hb)
    · rw [hsame a ha, hcell b hb] at hab
      exact absurd (hbelow ⟨b, hb⟩) (hab ▸ Nat.not_lt.2 ha)
    · rwa [hsame a ha, hsame b hb] at hab
  · refine List.ext_getElem (by rw [List.length_map, hlength]) fun i hi hi' => ?_
    rw [List.length_map] at hi
    have hu : us[i] < n := hlt _ (List.getElem_mem hi)
    have hknown : (⟨us[i], hu⟩ : Fin n) ∈ known :=
      Finset.mem_filter.2 ⟨Finset.mem_univ _, List.getElem_mem hi⟩
    rw [List.getElem_map]
    refine (hcell _ hu).trans ((hg _ hknown).trans ((hplace _ (hindex (List.getElem_mem hi))).trans ?_))
    exact getElem_congr_idx (hus.idxOf_getElem i hi)

variable {σ : Renaming}

namespace Value

/-! ## 2. How many containers there are -/

mutual

/-- The number of containers in a value. -/
def containers : Value → Nat
  | .list _ items => containersOfItems items + 1
  | .dict _ members => containersOfMembers members + 1
  | .store _ _ members => containersOfMembers members + 1
  | _ => 0
termination_by structural v => v

/-- The number of containers in the elements of a list. -/
def containersOfItems : List Value → Nat
  | [] => 0
  | x :: xs => x.containers + containersOfItems xs
termination_by structural xs => xs

/-- The number of containers in the members of an object. -/
def containersOfMembers : List (String × Value) → Nat
  | [] => 0
  | (_, x) :: ms => x.containers + containersOfMembers ms
termination_by structural ms => ms

end

theorem containersOfItems_eq (xs : List Value) : containersOfItems xs = (xs.map containers).sum := by
  induction xs with
  | nil => rfl
  | cons x xs ih => rw [containersOfItems, ih, List.map_cons, List.sum_cons]

theorem containersOfMembers_eq (ms : List (String × Value)) :
    containersOfMembers ms = (ms.map fun m => m.2.containers).sum := by
  induction ms with
  | nil => rfl
  | cons m ms ih => rw [containersOfMembers, ih, List.map_cons, List.sum_cons]

theorem containers_list (cell : Option Addr) (xs : List Value) :
    (Value.list cell xs).containers = (xs.map containers).sum + 1 := by
  rw [containers, containersOfItems_eq]

theorem containers_dict (cell : Option Addr) (ms : List (String × Value)) :
    (Value.dict cell ms).containers = (ms.map fun m => m.2.containers).sum + 1 := by
  rw [containers, containersOfMembers_eq]

theorem containers_of_isPlain {v : Value} (h : v.isPlain = true) : v.containers = 0 := by
  cases v <;> first | rfl | cases h

@[simp] theorem datum_renamed (v : Value) : (v.renamed σ).datum = v.datum.renamed σ := by
  cases v with
  | list cell xs => cases cell <;> simp [datum, Datum.renamed]
  | dict cell ms => cases cell <;> simp [datum, Datum.renamed]
  | store cell name ms => simp [datum]
  | _ => rfl

end Value

namespace Heap

variable {h h' : Heap}

theorem length_flatMap_marks {us : List Value} (hus : ∀ u ∈ us, u.marks.length = u.fresh.containers) :
    (us.flatMap Value.marks).length = ((us.map Value.fresh).map Value.containers).sum := by
  rw [List.length_flatMap, List.map_map]
  exact congrArg List.sum (List.map_congr_left hus)

/-- Every container of what is held has a cell. -/
theorem Holds.length_marks {u : Value} (hu : h.Holds u) : u.marks.length = u.fresh.containers := by
  induction hu with
  | plain hp => rw [Value.marks_of_isPlain hp, Value.fresh_of_isPlain hp, Value.containers_of_isPlain hp, List.length_nil]
  | @list a us _ _ _ ih =>
    rw [Value.marks_list_some, List.length_cons, length_flatMap_marks ih, Value.fresh_list, Value.containers_list]
  | @dict a us _ _ _ ih =>
    rw [Value.marks_dict_some, List.length_cons, length_flatMap_marks (List.forall_mem_map.2 ih), Value.fresh_dict,
      Value.containers_dict, List.map_map, List.map_map, List.map_map]
    rfl

/-- Keeping a value takes one cell for each of its containers. -/
theorem Kept.size {u v : Value} (hv : Kept h u v h') : h'.cells.size = h.cells.size + u.containers := by
  have hcells : v.marks.toFinset = Finset.Ico h.cells.size h'.cells.size := by
    ext a
    rw [List.mem_toFinset, Finset.mem_Ico]
    exact ⟨fun ha => ⟨hv.new a ha, hv.holds.mark_lt a ha⟩, fun ha => hv.all a ha.1 ha.2⟩
  have hcard := congrArg Finset.card hcells
  rw [List.toFinset_card_of_nodup hv.nodup, Nat.card_Ico, hv.holds.length_marks, hv.fresh] at hcard
  have hgrown := hv.extends_.size
  omega

/-! ## 3. Values that are held twice -/

/-- What is held twice is one value under a renaming, part by part. -/
theorem renamed_all {us vs : List Value} (hus : ∀ u ∈ us, h.Holds u) (hvs : ∀ v ∈ vs, h'.Holds v)
    (hfresh : us.map Value.fresh = vs.map Value.fresh)
    (hmarks : (us.flatMap Value.marks).map σ.cell = vs.flatMap Value.marks)
    (hparts : ∀ u ∈ us, ∀ v ∈ vs, u.fresh = v.fresh → u.marks.map σ.cell = v.marks → v = u.renamed σ) :
    vs = us.map (Value.renamed σ) := by
  induction us generalizing vs with
  | nil => exact List.map_eq_nil_iff.1 hfresh.symm
  | cons u us ih =>
    cases vs with
    | nil => cases hfresh
    | cons v vs =>
      rw [List.forall_mem_cons] at hus hvs
      obtain ⟨hfirst, hothers⟩ := List.cons.inj hfresh
      rw [List.flatMap_cons, List.flatMap_cons, List.map_append] at hmarks
      have hlength : (u.marks.map σ.cell).length = v.marks.length := by
        rw [List.length_map, hus.1.length_marks, hvs.1.length_marks, hfirst]
      obtain ⟨hmark, hrest⟩ := List.append_inj hmarks hlength
      have hv := hparts u List.mem_cons_self v List.mem_cons_self hfirst hmark
      have hall := ih hus.2 hvs.2 hothers hrest fun x hx y hy =>
        hparts x (List.mem_cons_of_mem _ hx) y (List.mem_cons_of_mem _ hy)
      rw [List.map_cons, ← hv, ← hall]

/-- Two values that are held and are the same without their marks are one value under every renaming that takes the
marks of the one to those of the other, in their order. -/
theorem Holds.eq_renamed {u v : Value} (hu : h.Holds u) (hv : h'.Holds v) (hlabel : σ.label = id)
    (hfresh : u.fresh = v.fresh) (hmarks : u.marks.map σ.cell = v.marks) : v = u.renamed σ := by
  induction hu generalizing v with
  | @plain u hp =>
    rw [Value.fresh_of_isPlain hp] at hfresh
    cases hv with
    | @plain _ hp' =>
      rw [Value.fresh_of_isPlain hp'] at hfresh
      subst hfresh
      cases u with
      | float x =>
        cases x with
        | nan label => simp [Binary64.renamed, hlabel]
        | _ => rfl
      | list | dict | store => cases hp
      | _ => rfl
    | list _ _ _ => rw [hfresh, Value.fresh_list] at hp; cases hp
    | dict _ _ _ => rw [hfresh, Value.fresh_dict] at hp; cases hp
  | @list a us _ _ hus ih =>
    rw [Value.fresh_list] at hfresh
    cases hv with
    | @plain _ hp' => rw [Value.fresh_of_isPlain hp'] at hfresh; rw [← hfresh] at hp'; cases hp'
    | dict _ _ _ => rw [Value.fresh_dict] at hfresh; cases hfresh
    | @list b vs _ _ hvs =>
      rw [Value.fresh_list] at hfresh
      rw [Value.marks_list_some, Value.marks_list_some, List.map_cons] at hmarks
      obtain ⟨ha, hrest⟩ := List.cons.inj hmarks
      have hall := renamed_all hus hvs (Value.list.inj hfresh).2 hrest fun x hx y hy => ih x hx (hvs y hy)
      rw [Value.renamed_list, Option.map_some, ha, ← hall]
  | @dict a us _ _ hus ih =>
    rw [Value.fresh_dict] at hfresh
    cases hv with
    | @plain _ hp' => rw [Value.fresh_of_isPlain hp'] at hfresh; rw [← hfresh] at hp'; cases hp'
    | list _ _ _ => rw [Value.fresh_list] at hfresh; cases hfresh
    | @dict b vs _ _ hvs =>
      rw [Value.fresh_dict] at hfresh
      rw [Value.marks_dict_some, Value.marks_dict_some, List.map_cons] at hmarks
      obtain ⟨ha, hrest⟩ := List.cons.inj hmarks
      have hmembers := (Value.dict.inj hfresh).2
      have hkeys : us.map Prod.fst = vs.map Prod.fst := by
        simpa only [List.map_map, Function.comp_def] using congrArg (List.map Prod.fst) hmembers
      have hvalues : (us.map Prod.snd).map Value.fresh = (vs.map Prod.snd).map Value.fresh := by
        simpa only [List.map_map, Function.comp_def] using congrArg (List.map Prod.snd) hmembers
      have hall := renamed_all (List.forall_mem_map.2 hus) (List.forall_mem_map.2 hvs) hvalues hrest
        (List.forall_mem_map.2 fun m hm => List.forall_mem_map.2 fun n hn => ih m hm (hvs n hn))
      have hpairs : vs = us.map fun m => (m.1, m.2.renamed σ) := by
        rw [List.zip_of_prod hkeys.symm hall, List.map_map]
        exact List.zip_map' ..
      rw [Value.renamed_dict, Option.map_some, ha, ← hpairs]

/-- Each cell of what is held twice is a cell of the other value too, renamed. -/
theorem Holds.cell?_renamed {u : Value} (hu : h.Holds u) (hu' : h'.Holds (u.renamed σ)) {a : Addr} (ha : a ∈ u.marks) :
    h'.cell? (σ.cell a) = (h.cell? a).map (Cell.renamed σ) := by
  induction hu with
  | plain hp =>
    rw [Value.marks_of_isPlain hp] at ha
    exact absurd ha List.not_mem_nil
  | @list b us hcell _ _ ih =>
    rw [Value.renamed_list] at hu'
    cases hu' with
    | list hcell' _ hparts =>
      rw [Value.marks_list_some] at ha
      rcases List.mem_cons.1 ha with rfl | ha
      · rw [hcell, hcell', Option.map_some, Cell.renamed, List.map_map, List.map_map]
        exact congrArg (fun ds => some (Cell.list ds)) (List.map_congr_left fun x _ => x.datum_renamed)
      · obtain ⟨x, hx, hax⟩ := List.mem_flatMap.1 ha
        exact ih x hx (hparts _ (List.mem_map_of_mem hx)) hax
    | plain hp => cases hp
  | @dict b us hcell _ _ ih =>
    rw [Value.renamed_dict] at hu'
    cases hu' with
    | dict hcell' _ hparts =>
      rw [Value.marks_dict_some] at ha
      rcases List.mem_cons.1 ha with rfl | ha
      · rw [hcell, hcell', Option.map_some, Cell.renamed, List.map_map, List.map_map]
        exact congrArg (fun ds => some (Cell.dict ds))
          (List.map_congr_left fun m _ => congrArg (Prod.mk m.1) m.2.datum_renamed)
      · obtain ⟨x, hx, hax⟩ := List.mem_flatMap.1 ha
        obtain ⟨m, hm, rfl⟩ := List.mem_map.1 hx
        exact ih m hm (hparts _ (List.mem_map_of_mem hm)) hax
    | plain hp => cases hp

end Heap

end NodeFlow
