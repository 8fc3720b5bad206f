import NodeFlow.Proofs.Memory.Kept
import NodeFlow.Proofs.Memory.Growth
/-!
# Trees in memory

Memory forms a value if every container of it is the cell of its mark, with the parts that it has, and no container
is part of itself. A view of such a tree gives it back, whatever else there is and however the cells are numbered:
an old cell may well have got new parts. Cells may be shared as long as nothing is a part of itself; how often a
cell stands in a tree is how often it stands among its marks.
-/

set_option autoImplicit false

namespace NodeFlow

namespace Heap

variable {h h' : Heap} {v w : Value}

/-! ## 1. Trees -/

/-- Memory forms a value: its containers are the cells of their marks, and none is part of itself. -/
inductive Forms (h : Heap) : Value → Prop
  | plain {v : Value} : v.isPlain = true → Forms h v
  | list {a : Addr} {xs : List Value} : h.cell? a = some (.list (xs.map Value.datum)) →
    a ∉ xs.flatMap Value.marks → (∀ x ∈ xs, Forms h x) → Forms h (.list (some a) xs)
  | dict {a : Addr} {ms : List (String × Value)} : h.cell? a = some (.dict (ms.map fun m => (m.1, m.2.datum))) →
    a ∉ (ms.map Prod.snd).flatMap Value.marks → (∀ m ∈ ms, Forms h m.2) → Forms h (.dict (some a) ms)

theorem Holds.forms (hv : h.Holds v) : h.Forms v := by
  induction hv with
  | plain hp => exact .plain hp
  | list hcell hless _ ih => exact .list hcell (fun ha => Nat.lt_irrefl _ (hless _ ha)) ih
  | dict hcell hless _ ih => exact .dict hcell (fun ha => Nat.lt_irrefl _ (hless _ ha)) ih

theorem Forms.mark_lt (hv : h.Forms v) : ∀ a ∈ v.marks, a < h.cells.size := by
  induction hv with
  | plain hp =>
    rw [Value.marks_of_isPlain hp]
    exact fun a ha => absurd ha List.not_mem_nil
  | list hcell _ _ ih =>
    rw [Value.marks_list_some, List.forall_mem_cons, List.forall_mem_flatMap]
    exact ⟨cell?_lt hcell, ih⟩
  | dict hcell _ _ ih =>
    rw [Value.marks_dict_some, List.forall_mem_cons, List.forall_mem_flatMap, List.forall_mem_map]
    exact ⟨cell?_lt hcell, ih⟩

/-- A tree stays if its own cells stay as they are. -/
theorem Forms.congr (hv : h.Forms v) (heq : ∀ a ∈ v.marks, h'.cell? a = h.cell? a) : h'.Forms v := by
  induction hv with
  | plain hp => exact .plain hp
  | list hcell hown _ ih =>
    rw [Value.marks_list_some, List.forall_mem_cons, List.forall_mem_flatMap] at heq
    exact .list (heq.1.trans hcell) hown fun x hx => ih x hx (heq.2 x hx)
  | dict hcell hown _ ih =>
    rw [Value.marks_dict_some, List.forall_mem_cons, List.forall_mem_flatMap, List.forall_mem_map] at heq
    exact .dict (heq.1.trans hcell) hown fun m hm => ih m hm (heq.2 m hm)

theorem Forms.extends (hv : h.Forms v) (hext : h'.Extends h) : h'.Forms v :=
  hv.congr fun a ha => hext.cell a (hv.mark_lt a ha)

/-- A view of a tree gives it back, at any depth that no path through memory exceeds. -/
theorem Forms.viewWithin_datum (hv : h.Forms v) {depth : Nat} {path : List Addr} (htrail : h.Trail path)
    (hpath : ∀ a ∈ path, a ∉ v.marks) (hdepth : h.cells.size < depth + path.length) :
    h.viewWithin depth path v.datum = v := by
  induction hv generalizing depth path with
  | @plain v hp => cases v <;> first | (cases depth <;> rfl) | cases hp
  | @list a xs hcell hown _ ih =>
    rw [Value.marks_list_some] at hpath
    have hnew : a ∉ path := fun ha => hpath a ha List.mem_cons_self
    have hlength := htrail.length_le
    obtain ⟨k, rfl⟩ : ∃ k, depth = k + 1 := Nat.exists_eq_succ_of_ne_zero (by omega)
    have hcontains : path.contains a = false := by simpa using hnew
    have hlonger : (a :: path).length = path.length + 1 := rfl
    have hparts : ∀ x ∈ xs, h.viewWithin k (a :: path) x.datum = x := by
      intro x hx
      have hmarks : ∀ b ∈ x.marks, b ∈ xs.flatMap Value.marks := fun b hb => List.mem_flatMap.2 ⟨x, hx, hb⟩
      refine ih x hx (htrail.cons hnew hcell) (List.forall_mem_cons.2 ⟨fun ha => hown (hmarks a ha), ?_⟩) (by omega)
      exact fun b hb hmark => hpath b hb (List.mem_cons_of_mem _ (hmarks b hmark))
    rw [Value.datum, viewWithin, hcell, hcontains]
    simp only [Bool.false_eq_true, if_false, List.map_map, Value.list.injEq, true_and]
    exact (List.map_congr_left hparts).trans (List.map_id' _)
  | @dict a ms hcell hown _ ih =>
    rw [Value.marks_dict_some] at hpath
    have hnew : a ∉ path := fun ha => hpath a ha List.mem_cons_self
    have hlength := htrail.length_le
    obtain ⟨k, rfl⟩ : ∃ k, depth = k + 1 := Nat.exists_eq_succ_of_ne_zero (by omega)
    have hcontains : path.contains a = false := by simpa using hnew
    have hlonger : (a :: path).length = path.length + 1 := rfl
    have hparts : ∀ m ∈ ms, (m.1, h.viewWithin k (a :: path) m.2.datum) = m := by
      intro m hm
      have hmarks : ∀ b ∈ m.2.marks, b ∈ (ms.map Prod.snd).flatMap Value.marks := fun b hb =>
        List.mem_flatMap.2 ⟨m.2, List.mem_map_of_mem hm, hb⟩
      rw [ih m hm (htrail.cons hnew hcell) (List.forall_mem_cons.2 ⟨fun ha => hown (hmarks a ha), ?_⟩) (by omega)]
      exact fun b hb hmark => hpath b hb (List.mem_cons_of_mem _ (hmarks b hmark))
    rw [Value.datum, viewWithin, hcell, hcontains]
    simp only [Bool.false_eq_true, if_false, List.map_map, Value.dict.injEq, true_and]
    exact (List.map_congr_left hparts).trans (List.map_id' _)

theorem Forms.view_datum (hv : h.Forms v) : h.view v.datum = v :=
  hv.viewWithin_datum h.trail_nil (fun _ ha => absurd ha List.not_mem_nil) (Nat.lt_succ_self _)

/-- A tree whose datum is a cell that holds an object is that object. -/
theorem Forms.exists_dict (hv : h.Forms v) {a : Addr} (hdatum : v.datum = .ref a) {ms : Members Datum}
    (hcell : h.cell? a = some (.dict ms)) : ∃ ms', v = .dict (some a) ms' := by
  cases hv with
  | plain hp => cases v <;> first | cases hdatum | cases hp
  | list hcell' =>
    obtain rfl := Datum.ref.inj hdatum
    exact absurd (hcell.symm.trans hcell') nofun
  | dict =>
    obtain rfl := Datum.ref.inj hdatum
    exact ⟨_, rfl⟩

/-! ## 2. Keeping values that have parts in memory -/

/-- A value that can be kept as it shows: new containers, with trees of memory and plain values in them. -/
inductive Mixes (h : Heap) : Value → Prop
  | plain {v : Value} : v.isPlain = true → Mixes h v
  | held {v : Value} : v.isPlain = false → h.Forms v → Mixes h v
  | list {xs : List Value} : (∀ x ∈ xs, Mixes h x) → Mixes h (.list none xs)
  | dict {ms : List (String × Value)} : (∀ m ∈ ms, Mixes h m.2) → Mixes h (.dict none ms)

/-- A value has been kept as a tree, in new cells but for the parts that it had in memory. -/
structure Grown (h : Heap) (v w : Value) (h' : Heap) : Prop where
  forms : h'.Forms w
  bare : w.bare = v.bare
  extends_ : h'.Extends h
  marks : ∀ a ∈ w.marks, a ∈ v.marks ∨ h.cells.size ≤ a

/-- The same of the elements of a list. -/
structure GrownItems (h : Heap) (xs ws : List Value) (h' : Heap) : Prop where
  forms : ∀ w ∈ ws, h'.Forms w
  bare : ws.map Value.bare = xs.map Value.bare
  extends_ : h'.Extends h
  marks : ∀ a ∈ ws.flatMap Value.marks, a ∈ xs.flatMap Value.marks ∨ h.cells.size ≤ a

/-- A value can be kept as a tree, however memory has grown until then. -/
def Grows (h : Heap) (v : Value) : Prop :=
  ∀ h' : Heap, h'.Extends h → ∃ w, (h'.keep v).1 = w.datum ∧ Grown h' v w (h'.keep v).2

theorem exists_grownItems {xs : List Value} (hxs : ∀ x ∈ xs, h.Grows x) (hext : h'.Extends h) :
    ∃ ws, (keepItems xs h').1 = ws.map Value.datum ∧ GrownItems h' xs ws (keepItems xs h').2 := by
  induction xs generalizing h' with
  | nil => exact ⟨[], rfl, fun w hw => absurd hw List.not_mem_nil, rfl, .refl h', fun a ha => absurd ha List.not_mem_nil⟩
  | cons x xs ih =>
    rw [List.forall_mem_cons] at hxs
    obtain ⟨w, hw, hfirst⟩ := hxs.1 h' hext
    obtain ⟨ws, hws, hrest⟩ := ih hxs.2 (hext.trans hfirst.extends_)
    refine ⟨w :: ws, by rw [keepItems, hw, hws, List.map_cons], ?_, ?_, hfirst.extends_.trans hrest.extends_, ?_⟩
    · exact List.forall_mem_cons.2 ⟨hfirst.forms.extends hrest.extends_, hrest.forms⟩
    · rw [List.map_cons, List.map_cons, hfirst.bare, hrest.bare]
    · intro a ha
      rw [List.flatMap_cons, List.mem_append] at ha ⊢
      have hsize := hfirst.extends_.size
      rcases ha with ha | ha
      · exact (hfirst.marks a ha).imp_left Or.inl
      · exact (hrest.marks a ha).imp Or.inr (Nat.le_trans hsize)

/-- A tree of memory is kept as the very datum that it is of. -/
theorem Forms.keep (hv : h.Forms v) (hcontainer : v.isPlain = false) : h.keep v = (v.datum, h) := by
  cases hv with
  | plain hp =>
    rw [hp] at hcontainer
    cases hcontainer
  | list => rfl
  | dict => rfl

/-- A value without parts stays what it is, but a not-a-number that is not labelled gets a label. -/
theorem grows_of_isPlain (hp : v.isPlain = true) : h.Grows v := by
  intro h' hext
  cases v with
  | float x =>
    cases x with
    | nan label =>
      cases label with
      | none => exact ⟨.float (.nan (some h'.nextLabel)), rfl, .plain rfl, rfl, ⟨Nat.le_refl _, fun _ _ => rfl⟩, nofun⟩
      | some i => exact ⟨_, rfl, .plain rfl, rfl, .refl h', nofun⟩
    | _ => exact ⟨_, rfl, .plain rfl, rfl, .refl h', nofun⟩
  | list | dict | store => cases hp
  | null => exact ⟨.null, rfl, .plain rfl, rfl, .refl h', nofun⟩
  | undefined => exact ⟨.undefined, rfl, .plain rfl, rfl, .refl h', nofun⟩
  | bool b => exact ⟨.bool b, rfl, .plain rfl, rfl, .refl h', nofun⟩
  | int n => exact ⟨.int n, rfl, .plain rfl, rfl, .refl h', nofun⟩
  | str s => exact ⟨.str s, rfl, .plain rfl, rfl, .refl h', nofun⟩

theorem grows_list {xs : List Value} (hxs : ∀ x ∈ xs, h.Grows x) : h.Grows (.list none xs) := by
  intro h' hext
  obtain ⟨ws, hws, hgrown⟩ := exists_grownItems hxs hext
  have hlt : ∀ a ∈ ws.flatMap Value.marks, a < (keepItems xs h').2.cells.size :=
    List.forall_mem_flatMap.2 fun w hw => (hgrown.forms w hw).mark_lt
  have hnew := extends_alloc (keepItems xs h').2 (.list (ws.map Value.datum))
  refine ⟨.list (some (keepItems xs h').2.cells.size) ws, rfl, ?_⟩
  rw [keep, hws]
  exact {
    forms := .list (cell?_alloc_self _ _) (fun ha => Nat.lt_irrefl _ (hlt _ ha)) fun w hw =>
      (hgrown.forms w hw).extends hnew
    bare := by rw [Value.bare_list, Value.bare_list, hgrown.bare]
    extends_ := hgrown.extends_.trans hnew
    marks := by
      rw [Value.marks_list_some, List.forall_mem_cons, Value.marks_list]
      exact ⟨Or.inr hgrown.extends_.size, hgrown.marks⟩ }

/-- The values of an object grow like the elements of a list, and each is put back under its key. -/
theorem grows_dict {ms : List (String × Value)} (hms : ∀ m ∈ ms, h.Grows m.2) : h.Grows (.dict none ms) := by
  intro h' hext
  have hparts : ∀ x ∈ ms.map Prod.snd, h.Grows x := List.forall_mem_map.2 hms
  obtain ⟨ws, hws, hgrown⟩ := exists_grownItems hparts hext
  have hlength : ws.length = ms.length := by
    have hbare := congrArg List.length hgrown.bare
    rwa [List.length_map, List.length_map, List.length_map] at hbare
  have hsnd : ((ms.map Prod.fst).zip ws).map Prod.snd = ws := List.map_snd_zip (by simp [hlength])
  have hdata : ((ms.map Prod.fst).zip ws).map (fun n => (n.1, n.2.datum)) =
      (ms.map Prod.fst).zip (keepItems (ms.map Prod.snd) h').1 := by
    rw [hws, List.zip_map_right]
    rfl
  have hbare : ((ms.map Prod.fst).zip ws).map (fun n => (n.1, n.2.bare)) = ms.map fun m => (m.1, m.2.bare) := by
    have hzip := @List.zip_map_right _ _ _ Value.bare (ms.map Prod.fst) ws
    rw [hgrown.bare, List.map_map, List.zip_map'] at hzip
    exact hzip.symm
  have hforms : ∀ n ∈ (ms.map Prod.fst).zip ws, (keepItems (ms.map Prod.snd) h').2.Forms n.2 := fun n hn =>
    hgrown.forms _ (List.of_mem_zip hn).2
  have hlt : ∀ a ∈ (((ms.map Prod.fst).zip ws).map Prod.snd).flatMap Value.marks,
      a < (keepItems (ms.map Prod.snd) h').2.cells.size :=
    List.forall_mem_flatMap.2 (List.forall_mem_map.2 fun n hn => (hforms n hn).mark_lt)
  refine ⟨.dict (some (keepItems (ms.map Prod.snd) h').2.cells.size) ((ms.map Prod.fst).zip ws),
    by rw [keep, keepMembers_eq]; rfl, ?_⟩
  rw [keep, keepMembers_eq, ← hdata]
  have hnew := extends_alloc (keepItems (ms.map Prod.snd) h').2
    (.dict (((ms.map Prod.fst).zip ws).map fun n => (n.1, n.2.datum)))
  exact {
    forms := .dict (cell?_alloc_self _ _) (fun ha => Nat.lt_irrefl _ (hlt _ ha)) fun n hn =>
      (hforms n hn).extends hnew
    bare := by rw [Value.bare_dict, Value.bare_dict, hbare]
    extends_ := hgrown.extends_.trans hnew
    marks := by
      rw [Value.marks_dict_some, List.forall_mem_cons, Value.marks_dict, hsnd]
      exact ⟨Or.inr hgrown.extends_.size, hgrown.marks⟩ }

/-- Whatever mixes new containers with those of memory can be kept, now and in all memories that come after. -/
theorem Mixes.grows (hv : h.Mixes v) : h.Grows v := by
  induction hv with
  | plain hp => exact grows_of_isPlain hp
  | @held v hcontainer hforms =>
    intro h' hext
    have hforms' := hforms.extends hext
    rw [hforms'.keep hcontainer]
    exact ⟨v, rfl, hforms', rfl, .refl h', fun a ha => Or.inl ha⟩
  | list _ ih => exact grows_list ih
  | dict _ ih => exact grows_dict ih

end Heap

end NodeFlow
