import NodeFlow.Proofs.Memory.Lens
import NodeFlow.Proofs.Memory.Owned
import NodeFlow.Proofs.Memory.Trees
/-!
# Writes to trees in memory

A write at a path changes the objects that the path leads through, each in place, and makes the ones that are
missing. If none of these has a second place in the tree, what memory forms afterwards is what the write amounts to:
the rest of the tree does not notice.

How often a cell stands in a tree is what is counted here. An old cell stands there as often as before, and as often
as in what is written; a new one stands there once. That is why such a tree can be written again.
-/

set_option autoImplicit false

namespace NodeFlow

namespace Value

/-- The objects that a path leads through. They are what a write at the path changes in place. -/
def way : List String → Value → List Addr
  | [], _ => []
  | key :: rest, v =>
    match v with
    | .dict (some a) _ => a :: way rest (v.field key)
    | _ => []

variable {v w : Value} {a b : Addr} {ms : List (String × Value)} {key : String}

theorem way_dict (a : Addr) (ms : List (String × Value)) (key : String) (rest : List String) :
    (Value.dict (some a) ms).way (key :: rest) = a :: ((Value.dict (some a) ms).field key).way rest := rfl

theorem way_subset (path : List String) (v : Value) : ∀ b ∈ v.way path, b ∈ v.marks := by
  induction path generalizing v with
  | nil => exact fun b hb => absurd hb List.not_mem_nil
  | cons key rest ih =>
    intro b hb
    cases v with
    | dict cell ms =>
      cases cell with
      | none => exact absurd hb List.not_mem_nil
      | some a =>
        rcases List.mem_cons.1 hb with rfl | hb
        · rw [marks_dict_some]
          exact List.mem_cons_self
        · exact marks_field_subset _ key b (ih _ b hb)
    | _ => exact absurd hb List.not_mem_nil

theorem putAt_congr {v' : Value} (h : v.members = v'.members) (w : Value) (key : String) (rest : List String) :
    putAt w (key :: rest) v = putAt w (key :: rest) v' := by
  rw [putAt, putAt, field, field, h]

/-- How often a cell stands among the members of an object. -/
def countIn (b : Addr) (ms : List (String × Value)) : Nat := ((ms.map Prod.snd).flatMap marks).count b

theorem count_dict (a b : Addr) (ms : List (String × Value)) :
    (Value.dict (some a) ms).marks.count b = (if a = b then 1 else 0) + countIn b ms := by
  rw [marks_dict_some, List.count_cons, countIn, Nat.add_comm]
  simp only [beq_iff_eq]

theorem countIn_append (b : Addr) (ms ns : List (String × Value)) :
    countIn b (ms ++ ns) = countIn b ms + countIn b ns := by
  rw [countIn, List.map_append, List.flatMap_append, List.count_append, countIn, countIn]

theorem countIn_cons (b : Addr) (m : String × Value) (ms : List (String × Value)) :
    countIn b (m :: ms) = m.2.marks.count b + countIn b ms := by
  rw [countIn, List.map_cons, List.flatMap_cons, List.count_append, countIn]

theorem countIn_pos {m : String × Value} (hm : m ∈ ms) (hb : b ∈ m.2.marks) : 0 < countIn b ms :=
  List.count_pos_iff.2 (List.mem_flatMap.2 ⟨m.2, List.mem_map_of_mem hm, hb⟩)

/-- The members of an object other than the one under a key, whatever is put there. -/
theorem exists_others (ms : List (String × Value)) (key : String) : ∃ others : List (String × Value),
    (∀ m ∈ others, m ∈ ms) ∧ (∀ x, ∀ m ∈ Members.put key x ms, m = (key, x) ∨ m ∈ others) ∧
      (∀ b, countIn b ms = countIn b others + ((Members.get? ms key).getD .null).marks.count b) ∧
      ∀ x b, countIn b (Members.put key x ms) = countIn b others + x.marks.count b := by
  obtain ⟨before, after, hput, hms⟩ := Members.exists_put key ms
  refine ⟨before ++ after, ?_, ?_, ?_, ?_⟩
  · rcases hms with ⟨-, rfl⟩ | ⟨x, -, rfl⟩
    · exact fun m hm => hm
    · intro m hm
      simp only [List.mem_append, List.mem_cons] at hm ⊢
      tauto
  · intro x m hm
    rw [hput] at hm
    simp only [List.mem_append, List.mem_cons] at hm ⊢
    tauto
  · intro b
    rcases hms with ⟨hnone, rfl⟩ | ⟨x, hget, hms⟩
    · rw [hnone]
      exact (Nat.add_zero _).symm
    · rw [hget, hms, countIn_append, countIn_cons, countIn_append, Option.getD_some]
      dsimp only
      omega
  · intro x b
    rw [hput, countIn_append, countIn_cons, countIn_append]
    dsimp only
    omega

end Value

namespace Heap

variable {h h' : Heap} {v v' w : Value} {path : List String} {around : List Addr} {a : Addr}
  {ms : List (String × Value)} {key : String}

/-! ## 1. Objects of a tree -/

theorem Forms.cell (hv : h.Forms (.dict (some a) ms)) :
    h.cell? a = some (.dict (ms.map fun m => (m.1, m.2.datum))) := by
  cases hv with
  | plain hp => cases hp
  | dict hcell => exact hcell

theorem Forms.own (hv : h.Forms (.dict (some a) ms)) : a ∉ (ms.map Prod.snd).flatMap Value.marks := by
  cases hv with
  | plain hp => cases hp
  | dict _ hown => exact hown

theorem Forms.member (hv : h.Forms (.dict (some a) ms)) : ∀ m ∈ ms, h.Forms m.2 := by
  cases hv with
  | plain hp => cases hp
  | dict _ _ hparts => exact hparts

theorem Forms.membersAt (hv : h.Forms (.dict (some a) ms)) : h.membersAt a = ms.map fun m => (m.1, m.2.datum) := by
  rw [Heap.membersAt, hv.cell]

theorem Forms.field (hv : h.Forms (.dict (some a) ms)) (key : String) :
    h.Forms ((Value.dict (some a) ms).field key) := by
  rw [Value.field, Value.members]
  cases hget : Members.get? ms key with
  | none => exact .plain rfl
  | some x => exact hv.member _ (Members.mem_of_get? hget)

/-- The object that is found under a key is the one that stands there in the tree. -/
theorem Forms.exists_field (hv : h.Forms (.dict (some a) ms)) {b : Addr}
    (hb : (Members.get? (h.membersAt a) key).bind h.objectOf? = some b) :
    ∃ ms', (Value.dict (some a) ms).field key = .dict (some b) ms' ∧ h.Forms (.dict (some b) ms') := by
  obtain ⟨hget, members, hcell⟩ := get?_of_objectOf? hb
  rw [hv.membersAt, Members.get?_map Value.datum] at hget
  obtain ⟨x, hx, hdatum⟩ := Option.map_eq_some_iff.1 hget
  have hforms := hv.member _ (Members.mem_of_get? hx)
  obtain ⟨ms', rfl⟩ := hforms.exists_dict hdatum hcell
  exact ⟨ms', by rw [Value.field, Value.members, hx, Option.getD_some], hforms⟩

theorem Forms.not_isDict_field (hv : h.Forms (.dict (some a) ms))
    (hnone : (Members.get? (h.membersAt a) key).bind h.objectOf? = none) :
    ((Value.dict (some a) ms).field key).isDict = false := by
  rw [hv.membersAt, Members.get?_map Value.datum] at hnone
  rw [Value.field, Value.members]
  cases hget : Members.get? ms key with
  | none => rfl
  | some x =>
    have hforms := hv.member _ (Members.mem_of_get? hget)
    rw [hget, Option.map_some, Option.bind_some] at hnone
    cases hforms with
    | plain hp => exact (by cases x <;> first | rfl | cases hp)
    | list => rfl
    | dict hcell =>
      -- an object would have been found
      cases hnone.symm.trans (objectOf?_eq_some_iff.2 ⟨rfl, _, hcell⟩)

/-! ## 2. What a write leaves -/

/-- Memory forms one tree and then another one, which is what a write amounts to. The cell of the object around it
may have changed as well. -/
structure Grafted (around : List Addr) (h : Heap) (v : Value) (path : List String) (w : Value) (h' : Heap)
    (v' : Value) : Prop where
  forms : h'.Forms v'
  bare : v'.bare = Value.putAt w.bare path v.bare
  size : h.cells.size ≤ h'.cells.size
  kept : ∀ b < h.cells.size, b ∉ around → b ∉ v.way path → h'.cell? b = h.cell? b
  old : ∀ b < h.cells.size, v'.marks.count b ≤ v.marks.count b + w.marks.count b
  new : ∀ b, h.cells.size ≤ b → v'.marks.count b ≤ 1
  way : ∀ b ∈ v'.way path, b ∈ v.way path ∨ h.cells.size ≤ b

/-- A path through objects that have no other place in a tree, and none in what is written. -/
structure Sole (v w : Value) (path : List String) : Prop where
  once : ∀ b ∈ v.way path, v.marks.count b ≤ 1
  apart : ∀ b ∈ v.way path, b ∉ w.marks

theorem Sole.below {rest : List String} (hsole : Sole (.dict (some a) ms) w (key :: rest)) :
    Sole ((Value.dict (some a) ms).field key) w rest where
  once b hb := by
    obtain ⟨others, -, -, hcount, -⟩ := Value.exists_others ms key
    have honce := hsole.once b (List.mem_cons_of_mem _ hb)
    rw [Value.count_dict, hcount] at honce
    exact Nat.le_trans (Nat.le_trans (Nat.le_add_left _ _) (Nat.le_add_left _ _)) honce
  apart b hb := hsole.apart b (List.mem_cons_of_mem _ hb)

/-- What is written at the end of a path stands there as it is. -/
theorem grafted_nil (hw : h.Forms w) (v : Value) (around : List Addr) : Grafted around h v [] w h w where
  forms := hw
  bare := rfl
  size := Nat.le_refl _
  kept _ _ _ _ := rfl
  old _ _ := Nat.le_add_left _ _
  new b hb := by
    rw [List.count_eq_zero.2 fun hmem => Nat.not_lt.2 hb (hw.mark_lt b hmem)]
    exact Nat.zero_le 1
  way b hb := absurd hb List.not_mem_nil

theorem Grafted.mono (hv : Grafted [] h v path w h' v') (around : List Addr) : Grafted around h v path w h' v' :=
  { hv with kept := fun b hb _ hway => hv.kept b hb List.not_mem_nil hway }

/-- A tree that has no cell in common with the way of a write stays. -/
theorem Grafted.forms_of_apart (hx : Grafted around h v path w h' v') {x : Value} (hforms : h.Forms x)
    (haround : ∀ b ∈ around, b ∉ x.marks) (hway : ∀ b ∈ v.way path, b ∉ x.marks) : h'.Forms x :=
  hforms.congr fun b hb => hx.kept b (hforms.mark_lt b hb) (fun hmem => haround b hmem hb) fun hmem => hway b hmem hb

/-- A member may be put into the object around what has been written. -/
theorem Grafted.putMember (hx : Grafted [a] h v path w h' v') (ha : a ∉ v'.marks) (key : String) (d : Datum) :
    Grafted [a] h v path w (h'.putMember a key d) v' := by
  have helse : ∀ b, b ≠ a → (h'.putMember a key d).cell? b = h'.cell? b := fun b hb => cell?_write_of_ne (Ne.symm hb)
  exact { hx with
    forms := hx.forms.congr fun b hb => helse b fun heq => ha (heq ▸ hb)
    size := by
      rw [size_putMember]
      exact hx.size
    kept := fun b hb haround hway => by
      rw [helse b fun heq => haround (List.mem_singleton.2 heq)]
      exact hx.kept b hb haround hway }

section

variable {rest : List String} {x' : Value} (hv : h.Forms (.dict (some a) ms))
  (hx : Grafted around h ((Value.dict (some a) ms).field key) rest w h' x')
  (hsole : Sole (.dict (some a) ms) w (key :: rest))
include hv hx hsole

/-- An object does not become a part of itself by a write below it. -/
theorem Grafted.notMem_marks : a ∉ x'.marks := by
  obtain ⟨others, -, -, hcount, -⟩ := Value.exists_others ms key
  have hold := hx.old a (cell?_lt hv.cell)
  have hown : Value.countIn a ms = 0 := List.count_eq_zero.2 hv.own
  have hapart : w.marks.count a = 0 := List.count_eq_zero.2 (hsole.apart a List.mem_cons_self)
  have hsplit := hcount a
  change _ ≤ ((Members.get? ms key).getD .null).marks.count a + _ at hold
  exact List.count_eq_zero.1 (by omega)

/-- The other members of the object have no cell in common with the way below, so they stay. -/
theorem Grafted.forms_others (haround : ∀ b ∈ around, b = a) {others : List (String × Value)}
    (hothers : ∀ m ∈ others, m ∈ ms)
    (hcount : ∀ b, Value.countIn b ms = Value.countIn b others + ((Members.get? ms key).getD .null).marks.count b) :
    ∀ m ∈ others, h'.Forms m.2 := by
  intro m hm
  refine hx.forms_of_apart (hv.member m (hothers m hm)) (fun b hb hmark => ?_) fun b hb hmark => ?_
  · rw [haround b hb] at hmark
    exact hv.own (List.mem_flatMap.2 ⟨m.2, List.mem_map_of_mem (hothers m hm), hmark⟩)
  · have hpos := Value.countIn_pos hm hmark
    have hbelow := List.count_pos_iff.2 (Value.way_subset rest _ b hb)
    have honce := hsole.once b (List.mem_cons_of_mem _ hb)
    have hsplit := hcount b
    change 0 < ((Members.get? ms key).getD .null).marks.count b at hbelow
    rw [Value.count_dict] at honce
    omega

/-- A part of an object has been written, and stands in its place. -/
theorem Grafted.close (haround : ∀ b ∈ around, b = a)
    (hcell : h'.cell? a = some (.dict (Members.put key x'.datum (ms.map fun m => (m.1, m.2.datum))))) :
    Grafted [] h (.dict (some a) ms) (key :: rest) w h' (.dict (some a) (Members.put key x' ms)) := by
  have hself := hx.notMem_marks hv hsole
  obtain ⟨others, hothers, hput, hcount, hcount'⟩ := Value.exists_others ms key
  have hforms := hx.forms_others hv hsole haround hothers hcount
  have hlt := cell?_lt hv.cell
  have hfield : (Value.dict (some a) ms).field key = (Members.get? ms key).getD .null := rfl
  rw [hfield] at hx
  have hown : Value.countIn a others = 0 := by
    have hnone : Value.countIn a ms = 0 := List.count_eq_zero.2 hv.own
    have hsplit := hcount a
    omega
  exact {
    forms := by
      refine .dict (hcell.trans (by rw [Members.put_map Value.datum])) (List.count_eq_zero.1 ?_) fun m hm => ?_
      · have hafter := hcount' x' a
        rwa [hown, List.count_eq_zero.2 hself] at hafter
      · rcases hput x' m hm with rfl | hm
        · exact hx.forms
        · exact hforms m hm
    bare := by
      rw [Value.bare_dict, ← Members.put_map Value.bare, hx.bare, Value.putAt, Value.field_bare, Value.members_bare]
      rfl
    size := hx.size
    kept := fun b hb _ hway => by
      obtain ⟨hne, hbelow⟩ := not_or.1 (mt List.mem_cons.2 hway)
      exact hx.kept b hb (fun hmem => hne (haround b hmem)) hbelow
    old := fun b hb => by
      have hold := hx.old b hb
      have hsplit := hcount b
      rw [Value.count_dict, Value.count_dict, hcount', hsplit]
      omega
    new := fun b hb => by
      have hnew := hx.new b hb
      have hne : a ≠ b := Nat.ne_of_lt (Nat.lt_of_lt_of_le hlt hb)
      have hnone : Value.countIn b others = 0 := List.count_eq_zero.2 fun hmem => by
        obtain ⟨x, hx, hbx⟩ := List.mem_flatMap.1 hmem
        obtain ⟨m, hm, rfl⟩ := List.mem_map.1 hx
        exact Nat.not_lt.2 hb ((hv.member m (hothers m hm)).mark_lt b hbx)
      rw [Value.count_dict, hcount', if_neg hne, hnone]
      omega
    way := by
      have hfield' : (Value.dict (some a) (Members.put key x' ms)).field key = x' := by
        rw [Value.field, Value.members, Members.get?_put, if_pos rfl, Option.getD_some]
      rw [Value.way_dict, Value.way_dict, hfield', hfield]
      intro b hb
      rcases List.mem_cons.1 hb with rfl | hb
      · exact Or.inl List.mem_cons_self
      · exact (hx.way b hb).imp_left (List.mem_cons_of_mem _) }

end

/-- What has been made for a write, in a new object, stands where there was no object. -/
theorem Grafted.of_new {h₁ : Heap} {x : Value} {rest : List String}
    (hnew : Grafted [] h₁ (.dict (some h.cells.size) []) (key :: rest) w h' v') (hx : x.isDict = false)
    (hw : h.Forms w) (hsize : h₁.cells.size = h.cells.size + 1)
    (hcells : ∀ b < h.cells.size, b ≠ a → h₁.cell? b = h.cell? b) :
    Grafted [a] h x (key :: rest) w h' v' where
  forms := hnew.forms
  bare := by
    have hnone : x.bare.members = (Value.dict (some h.cells.size) []).bare.members := by
      rw [Value.members_bare, Value.members_bare]
      cases x <;> first | rfl | cases hx
    rw [Value.putAt_congr hnone, hnew.bare]
  size := by
    have hlater := hnew.size
    omega
  kept b hb haround _ := by
    have hne : b ≠ a := fun heq => haround (List.mem_singleton.2 heq)
    have hway : b ∉ (Value.dict (some h.cells.size) []).way (key :: rest) := fun hmem =>
      Nat.ne_of_lt hb (List.mem_singleton.1 (Value.way_subset _ _ b hmem))
    rw [hnew.kept b (by omega) List.not_mem_nil hway, hcells b hb hne]
  old b hb := by
    have hold := hnew.old b (by omega)
    have hne : h.cells.size ≠ b := Nat.ne_of_gt hb
    rw [Value.count_dict, if_neg hne] at hold
    change _ ≤ 0 + 0 + _ at hold
    omega
  new b hb := by
    by_cases hself : b = h.cells.size
    · subst hself
      have hold := hnew.old h.cells.size (by omega)
      have hnot : w.marks.count h.cells.size = 0 :=
        List.count_eq_zero.2 fun hmem => Nat.lt_irrefl _ (hw.mark_lt _ hmem)
      rw [Value.count_dict, if_pos rfl, hnot] at hold
      exact hold
    · exact hnew.new b (by omega)
  way b hb := by
    refine Or.inr ((hnew.way b hb).elim (fun hmem => ?_) fun hle => by omega)
    exact Nat.le_of_eq (List.mem_singleton.1 (Value.way_subset _ _ b hmem)).symm

/-- A write below a member does not reach the object itself. -/
theorem Grafted.cell_around {x' : Value} {rest : List String} (hv : h.Forms (.dict (some a) ms))
    (hx : Grafted [] h ((Value.dict (some a) ms).field key) rest w h' x') : h'.cell? a = h.cell? a := by
  refine hx.kept a (cell?_lt hv.cell) List.not_mem_nil fun hway => hv.own ?_
  have hmem := Value.way_subset _ _ a hway
  obtain ⟨cell, ms', heq, hm⟩ := Value.mem_marks_field hmem
  obtain ⟨-, rfl⟩ := Value.dict.inj heq
  exact List.mem_flatMap.2 ⟨_, List.mem_map_of_mem hm, hmem⟩

/-! ## 3. Writing -/

/-- What a new object, put under a key, leaves of an object and of memory. -/
theorem cells_put_new (hv : h.Forms (.dict (some a) ms)) (key : String) :
    let h₁ := (h.alloc (.dict [])).2.putMember a key (.ref h.cells.size)
    h₁.cells.size = h.cells.size + 1 ∧ h₁.cell? h.cells.size = some (.dict []) ∧
      h₁.cell? a = some (.dict (Members.put key (.ref h.cells.size) (ms.map fun m => (m.1, m.2.datum)))) ∧
        ∀ b < h.cells.size, b ≠ a → h₁.cell? b = h.cell? b := by
  have hlt := cell?_lt hv.cell
  have hcell := (cell?_alloc_of_lt hlt (.dict [])).trans hv.cell
  refine ⟨?_, ?_, ?_, fun b hb hne => ?_⟩
  · rw [size_putMember, size_alloc]
  · exact (cell?_write_of_ne (Nat.ne_of_lt hlt)).trans (cell?_alloc_self h _)
  · rw [putMember, Heap.membersAt, hcell, cell?_write_self (cell?_lt hcell)]
  · exact (cell?_write_of_ne (Ne.symm hne)).trans (cell?_alloc_of_lt hb _)

/-- A path below a new object leads through that object only. -/
theorem sole_new (hw : h.Forms w) (path : List String) : Sole (.dict (some h.cells.size) []) w path := by
  have hway : ∀ b ∈ (Value.dict (some h.cells.size) []).way path, b = h.cells.size := fun b hb =>
    List.mem_singleton.1 (Value.way_subset _ _ b hb)
  refine ⟨fun b hb => ?_, fun b hb hmark => ?_⟩
  · rw [hway b hb, Value.count_dict, if_pos rfl]
    exact Nat.le_refl _
  · exact Nat.lt_irrefl _ (hway b hb ▸ hw.mark_lt b hmark)

theorem forms_new (hcell : h.cell? a = some (.dict [])) : h.Forms (.dict (some a) []) :=
  .dict hcell (fun ha => absurd ha List.not_mem_nil) fun _ hm => absurd hm List.not_mem_nil

/-- **A write below an object** leaves what it amounts to. -/
theorem grafted_writeBelow {first : String} {rest : List String} (hv : h.Forms (.dict (some a) ms)) (hw : h.Forms w)
    (hsole : Sole (.dict (some a) ms) w (first :: rest)) : ∃ ms', Grafted [] h (.dict (some a) ms) (first :: rest) w
      (h.writeBelow a first rest w.datum) (.dict (some a) ms') := by
  induction rest generalizing h a ms first with
  | nil =>
    have hself : a ∉ w.marks := hsole.apart a List.mem_cons_self
    refine ⟨_, ((grafted_nil hw _ [a]).putMember hself first w.datum).close hv hsole
      (fun b => List.mem_singleton.1) ?_⟩
    rw [writeBelow, Heap.putMember, hv.membersAt, cell?_write_self (cell?_lt hv.cell)]
  | cons key more ih =>
    rw [writeBelow]
    split
    · next b hb =>
      obtain ⟨ms', hfield, hx⟩ := hv.exists_field hb
      obtain ⟨ms'', hgraft⟩ := ih hx hw (hfield ▸ hsole.below)
      rw [← hfield] at hgraft
      refine ⟨_, hgraft.close hv hsole (fun b hb => absurd hb List.not_mem_nil) ?_⟩
      -- the object stands already where it is put
      have hget := (get?_of_objectOf? hb).1
      rw [hv.membersAt] at hget
      rw [hgraft.cell_around hv, hv.cell, Value.datum, Members.put_of_get? hget]
    · next hnone =>
      obtain ⟨hsize, hnew, hcell, hcells⟩ := cells_put_new hv first
      have hw' : ((h.alloc (.dict [])).2.putMember a first (.ref h.cells.size)).Forms w :=
        hw.congr fun b hb => hcells b (hw.mark_lt b hb) fun heq => hsole.apart a List.mem_cons_self (heq ▸ hb)
      obtain ⟨ms', hgraft⟩ := ih (forms_new hnew) hw' (sole_new hw _)
      refine ⟨_, (hgraft.of_new (hv.not_isDict_field hnone) hw hsize hcells).close hv hsole
        (fun b => List.mem_singleton.1) ?_⟩
      have hne : a ∉ (Value.dict (some h.cells.size) []).way (key :: more) := fun hmem =>
        Nat.ne_of_lt (cell?_lt hv.cell) (List.mem_singleton.1 (Value.way_subset _ _ a hmem))
      exact (hgraft.kept a (cell?_lt hcell) List.not_mem_nil hne).trans hcell

end Heap

end NodeFlow
