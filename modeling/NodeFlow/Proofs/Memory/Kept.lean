import NodeFlow.Memory.Heap
import Mathlib.Data.List.Flatten
import Mathlib.Data.List.Nodup
/-!
# Values that memory holds

A marked value is held by memory if every container in it is the cell of its mark, part by part. What
is kept for the first time is then held, in cells of its own that lie behind all older ones, and a view
of the datum gives the very value back.

The awkward thing up front: a view is cut off at a depth. A container gets its cell after its parts
have got theirs, so marks fall on the way down, and a mark bounds the depth below it. That is why
`Holds` asks for falling marks, which no cycle has.

Two values are alike if they differ only in where their containers are kept and how their not-a-numbers are
told apart. That is all that can be compared of the results of two runs, which need not take the same cells
into use.
-/

set_option autoImplicit false

namespace NodeFlow

/-! ## 1. Marks -/

/-- The cell that a datum refers to, if any. -/
def Datum.refs : Datum → List Addr
  | .ref a | .store a _ => [a]
  | _ => []

/-- What a cell consists of. -/
def Cell.parts : Cell → List Datum
  | .list xs => xs
  | .dict ms => ms.map Prod.snd

namespace Value

/-- Is the value no container? -/
def isPlain : Value → Bool
  | .list _ _ | .dict _ _ | .store _ _ _ => false
  | _ => true

/-- A value as JSON writes one: its containers are no views, and a not-a-number has a label, as what is
decoded has. -/
inductive IsJson : Value → Prop
  | null : IsJson .null
  | bool (b : Bool) : IsJson (.bool b)
  | int (n : Int) : IsJson (.int n)
  | float {x : Binary64} : x ≠ .nan none → IsJson (.float x)
  | str (s : String) : IsJson (.str s)
  | list {xs : List Value} : (∀ x ∈ xs, IsJson x) → IsJson (.list none xs)
  | dict {ms : List (String × Value)} : (∀ m ∈ ms, IsJson m.2) → IsJson (.dict none ms)

@[simp] theorem isJson_ofList {xs : List Value} : (ofList xs).IsJson ↔ ∀ x ∈ xs, x.IsJson := by
  constructor
  · intro h
    cases h with
    | list hxs => exact hxs
  · intro hxs
    exact .list hxs

@[simp] theorem isJson_ofMembers {ms : List (String × Value)} :
    (ofMembers ms).IsJson ↔ ∀ m ∈ ms, m.2.IsJson := by
  constructor
  · intro h
    cases h with
    | dict hms => exact hms
  · intro hms
    exact .dict hms

mutual

/-- The cells that a value is a view of. -/
def marks : Value → List Addr
  | .list cell items => cell.toList ++ marksOfItems items
  | .dict cell members => cell.toList ++ marksOfMembers members
  | .store cell _ members => cell :: marksOfMembers members
  | _ => []
termination_by structural v => v

/-- The cells that the elements of a list are views of. -/
def marksOfItems : List Value → List Addr
  | [] => []
  | x :: xs => x.marks ++ marksOfItems xs
termination_by structural xs => xs

/-- The cells that the members of an object are views of. -/
def marksOfMembers : List (String × Value) → List Addr
  | [] => []
  | (_, x) :: ms => x.marks ++ marksOfMembers ms
termination_by structural ms => ms

end

theorem marksOfItems_eq (xs : List Value) : marksOfItems xs = xs.flatMap marks := by
  induction xs with
  | nil => rfl
  | cons x xs ih => rw [marksOfItems, ih, List.flatMap_cons]

theorem marksOfMembers_eq (ms : List (String × Value)) :
    marksOfMembers ms = (ms.map Prod.snd).flatMap marks := by
  induction ms with
  | nil => rfl
  | cons m ms ih => rw [marksOfMembers, ih, List.map_cons, List.flatMap_cons]

@[simp] theorem marks_list (cell : Option Addr) (xs : List Value) :
    (Value.list cell xs).marks = cell.toList ++ xs.flatMap marks := by
  rw [marks, marksOfItems_eq]

@[simp] theorem marks_dict (cell : Option Addr) (ms : List (String × Value)) :
    (Value.dict cell ms).marks = cell.toList ++ (ms.map Prod.snd).flatMap marks := by
  rw [marks, marksOfMembers_eq]

theorem marks_list_some (a : Addr) (xs : List Value) :
    (Value.list (some a) xs).marks = a :: xs.flatMap marks := by
  rw [marks_list, Option.toList_some, List.singleton_append]

theorem marks_dict_some (a : Addr) (ms : List (String × Value)) :
    (Value.dict (some a) ms).marks = a :: (ms.map Prod.snd).flatMap marks := by
  rw [marks_dict, Option.toList_some, List.singleton_append]

@[simp] theorem marks_store (cell : Addr) (name : String) (ms : List (String × Value)) :
    (Value.store cell name ms).marks = cell :: (ms.map Prod.snd).flatMap marks := by
  rw [marks, marksOfMembers_eq]

theorem marks_of_isPlain {v : Value} (h : v.isPlain = true) : v.marks = [] := by
  cases v <;> first | rfl | cases h

/-- The datum that a marked value is a view of. -/
def datum : Value → Datum
  | .undefined => .undefined
  | .bool b => .bool b
  | .int n => .int n
  | .float x => .float x
  | .str s => .str s
  | .list (some a) _ | .dict (some a) _ => .ref a
  | .store a name _ => .store a name
  | _ => .null

theorem refs_datum_subset (v : Value) : ∀ a ∈ v.datum.refs, a ∈ v.marks := by
  intro a ha
  cases v with
  | list cell xs =>
    cases cell with
    | none => exact absurd ha List.not_mem_nil
    | some b => rw [marks_list]; exact List.mem_append_left _ ha
  | dict cell ms =>
    cases cell with
    | none => exact absurd ha List.not_mem_nil
    | some b => rw [marks_dict]; exact List.mem_append_left _ ha
  | store cell name ms => rw [marks_store]; exact List.mem_cons.2 (Or.inl (List.mem_singleton.1 ha))
  | _ => exact absurd ha List.not_mem_nil

theorem freshItems_eq (xs : List Value) : freshItems xs = xs.map fresh := by
  induction xs with
  | nil => rfl
  | cons x xs ih => rw [freshItems, ih, List.map_cons]

theorem freshMembers_eq (ms : List (String × Value)) :
    freshMembers ms = ms.map fun m => (m.1, m.2.fresh) := by
  induction ms with
  | nil => rfl
  | cons m ms ih => rw [freshMembers, ih, List.map_cons]

@[simp] theorem fresh_list (cell : Option Addr) (xs : List Value) :
    (Value.list cell xs).fresh = .list none (xs.map fresh) := by
  rw [fresh, freshItems_eq]

@[simp] theorem fresh_dict (cell : Option Addr) (ms : List (String × Value)) :
    (Value.dict cell ms).fresh = .dict none (ms.map fun m => (m.1, m.2.fresh)) := by
  rw [fresh, freshMembers_eq]

theorem fresh_of_isPlain {v : Value} (h : v.isPlain = true) : v.fresh = v := by
  cases v <;> first | rfl | cases h

end Value

namespace Heap

/-! ## 2. Cells -/

theorem cell?_lt {h : Heap} {a : Addr} {c : Cell} (hc : h.cell? a = some c) : a < h.cells.size :=
  (Array.getElem?_eq_some_iff.1 hc).1

theorem cell?_alloc_of_lt {h : Heap} {a : Addr} (ha : a < h.cells.size) (c : Cell) :
    (h.alloc c).2.cell? a = h.cell? a := by
  rw [cell?, cell?, alloc, Array.getElem?_push_lt ha, Array.getElem?_eq_getElem ha]

@[simp] theorem cell?_alloc_self (h : Heap) (c : Cell) :
    (h.alloc c).2.cell? h.cells.size = some c := by
  rw [cell?, alloc, Array.getElem?_push_size]

@[simp] theorem size_alloc (h : Heap) (c : Cell) :
    (h.alloc c).2.cells.size = h.cells.size + 1 := by
  rw [alloc, Array.size_push]

/-- Memory has grown from one to another: the older cells are as they were. -/
structure Extends (h' h : Heap) : Prop where
  size : h.cells.size ≤ h'.cells.size
  cell : ∀ a, a < h.cells.size → h'.cell? a = h.cell? a

theorem Extends.refl (h : Heap) : h.Extends h := ⟨Nat.le_refl _, fun _ _ => rfl⟩

theorem Extends.trans {h h' h'' : Heap} (hab : h'.Extends h) (hbc : h''.Extends h') :
    h''.Extends h where
  size := Nat.le_trans hab.size hbc.size
  cell a ha := by
    have hlater : a < h'.cells.size := Nat.lt_of_lt_of_le ha hab.size
    rw [hbc.cell a hlater, hab.cell a ha]

theorem extends_alloc (h : Heap) (c : Cell) : (h.alloc c).2.Extends h where
  size := by rw [size_alloc]; exact Nat.le_succ _
  cell _ ha := cell?_alloc_of_lt ha c

/-! ## 3. Values that are held -/

/-- Memory holds a marked value: every container of it is the cell of its mark, and the marks of its
parts are less. -/
inductive Holds (h : Heap) : Value → Prop
  | plain {v : Value} : v.isPlain = true → Holds h v
  | list {a : Addr} {xs : List Value} : h.cell? a = some (.list (xs.map Value.datum)) →
    (∀ b ∈ xs.flatMap Value.marks, b < a) → (∀ x ∈ xs, Holds h x) → Holds h (.list (some a) xs)
  | dict {a : Addr} {ms : List (String × Value)} :
    h.cell? a = some (.dict (ms.map fun m => (m.1, m.2.datum))) →
    (∀ b ∈ (ms.map Prod.snd).flatMap Value.marks, b < a) → (∀ m ∈ ms, Holds h m.2) →
    Holds h (.dict (some a) ms)

theorem Holds.mark_lt {h : Heap} {v : Value} (hv : h.Holds v) :
    ∀ a ∈ v.marks, a < h.cells.size := by
  cases hv with
  | plain hp =>
    rw [Value.marks_of_isPlain hp]
    intro a ha
    exact absurd ha List.not_mem_nil
  -- the mark of a container is a cell, and those of its parts are less
  | list hcell hless _ =>
    have hlt := cell?_lt hcell
    rw [Value.marks_list_some, List.forall_mem_cons]
    refine ⟨hlt, ?_⟩
    intro b hb
    exact Nat.lt_trans (hless b hb) hlt
  | dict hcell hless _ =>
    have hlt := cell?_lt hcell
    rw [Value.marks_dict_some, List.forall_mem_cons]
    refine ⟨hlt, ?_⟩
    intro b hb
    exact Nat.lt_trans (hless b hb) hlt

/-- What is held stays held if its own cells stay as they are. -/
theorem Holds.congr {h h' : Heap} {v : Value} (hv : h.Holds v)
    (heq : ∀ a ∈ v.marks, h'.cell? a = h.cell? a) : h'.Holds v := by
  induction hv with
  | plain hp => exact .plain hp
  | list hcell hless _ ih =>
    rw [Value.marks_list_some, List.forall_mem_cons] at heq
    refine .list (heq.1.trans hcell) hless ?_
    intro x hx
    apply ih x hx
    intro a ha
    exact heq.2 a (List.mem_flatMap.2 ⟨x, hx, ha⟩)
  | dict hcell hless _ ih =>
    rw [Value.marks_dict_some, List.forall_mem_cons] at heq
    refine .dict (heq.1.trans hcell) hless ?_
    intro m hm
    apply ih m hm
    intro a ha
    exact heq.2 a (List.mem_flatMap.2 ⟨m.2, List.mem_map_of_mem hm, ha⟩)

theorem Holds.extends {h h' : Heap} {v : Value} (hv : h.Holds v) (hext : h'.Extends h) :
    h'.Holds v := by
  apply hv.congr
  intro a ha
  exact hext.cell a (hv.mark_lt a ha)

/-- A view that may go as deep as all marks of a held value reach, and comes from elsewhere, is the value. -/
theorem Holds.viewWithin_datum {h : Heap} {v : Value} (hv : h.Holds v) {depth : Nat} {path : List Addr}
    (hless : ∀ a ∈ v.marks, a < depth) (hpath : ∀ a ∈ path, a ∉ v.marks) :
    h.viewWithin depth path v.datum = v := by
  induction hv generalizing depth path with
  | @plain v hp => cases v <;> first | (cases depth <;> rfl) | cases hp
  | @list a xs hcell hfall _ ih =>
    rw [Value.marks_list_some, List.forall_mem_cons] at hless
    rw [Value.marks_list_some] at hpath
    obtain ⟨k, rfl⟩ := Nat.exists_eq_succ_of_ne_zero (Nat.ne_zero_of_lt hless.1)
    have hnew : path.contains a = false := by simpa using fun ha => hpath a ha List.mem_cons_self
    -- the marks of the parts are below the mark of the list, and that is below the depth
    have hparts : ∀ x ∈ xs, h.viewWithin k (a :: path) x.datum = x := by
      intro x hx
      have hbelow : ∀ b ∈ x.marks, b < a := fun b hb => hfall b (List.mem_flatMap.2 ⟨x, hx, hb⟩)
      refine ih x hx (fun b hb => Nat.lt_of_lt_of_le (hbelow b hb) (Nat.le_of_lt_succ hless.1)) ?_
      refine List.forall_mem_cons.2 ⟨fun ha => Nat.lt_irrefl a (hbelow a ha), fun b hb hmark => ?_⟩
      exact hpath b hb (List.mem_cons_of_mem _ (List.mem_flatMap.2 ⟨x, hx, hmark⟩))
    rw [Value.datum, viewWithin, hcell, hnew]
    simp only [Bool.false_eq_true, if_false, List.map_map, Value.list.injEq, true_and]
    exact (List.map_congr_left hparts).trans (List.map_id' _)
  | @dict a ms hcell hfall _ ih =>
    rw [Value.marks_dict_some, List.forall_mem_cons] at hless
    rw [Value.marks_dict_some] at hpath
    obtain ⟨k, rfl⟩ := Nat.exists_eq_succ_of_ne_zero (Nat.ne_zero_of_lt hless.1)
    have hnew : path.contains a = false := by simpa using fun ha => hpath a ha List.mem_cons_self
    have hparts : ∀ m ∈ ms, (m.1, h.viewWithin k (a :: path) m.2.datum) = m := by
      intro m hm
      have hmem : m.2 ∈ ms.map Prod.snd := List.mem_map_of_mem hm
      have hbelow : ∀ b ∈ m.2.marks, b < a := fun b hb => hfall b (List.mem_flatMap.2 ⟨m.2, hmem, hb⟩)
      rw [ih m hm (fun b hb => Nat.lt_of_lt_of_le (hbelow b hb) (Nat.le_of_lt_succ hless.1))]
      refine List.forall_mem_cons.2 ⟨fun ha => Nat.lt_irrefl a (hbelow a ha), fun b hb hmark => ?_⟩
      exact hpath b hb (List.mem_cons_of_mem _ (List.mem_flatMap.2 ⟨m.2, hmem, hmark⟩))
    rw [Value.datum, viewWithin, hcell, hnew]
    simp only [Bool.false_eq_true, if_false, List.map_map, Value.dict.injEq, true_and]
    exact (List.map_congr_left hparts).trans (List.map_id' _)

/-- The view of a held value is the value. -/
theorem Holds.view_datum {h : Heap} {v : Value} (hv : h.Holds v) : h.view v.datum = v :=
  hv.viewWithin_datum (fun a ha => Nat.lt_succ_of_lt (hv.mark_lt a ha)) fun _ ha => absurd ha List.not_mem_nil

/-- The cells of a held value refer to no cells but its own. -/
theorem Holds.refs_subset {h : Heap} {v : Value} (hv : h.Holds v) {a : Addr} (ha : a ∈ v.marks)
    {c : Cell} (hc : h.cell? a = some c) : ∀ d ∈ c.parts, ∀ b ∈ d.refs, b ∈ v.marks := by
  induction hv with
  | plain hp =>
    rw [Value.marks_of_isPlain hp] at ha
    exact absurd ha List.not_mem_nil
  | @list root xs hcell _ _ ih =>
    rw [Value.marks_list_some] at ha ⊢
    intro d hd b hb
    refine List.mem_cons_of_mem _ (List.mem_flatMap.2 ?_)
    -- the cell is that of the list itself, which refers to its elements, or one of an element
    rcases List.mem_cons.1 ha with rfl | ha
    · obtain rfl := Option.some.inj (hcell.symm.trans hc)
      obtain ⟨x, hx, rfl⟩ := List.mem_map.1 hd
      exact ⟨x, hx, x.refs_datum_subset b hb⟩
    · obtain ⟨x, hx, hax⟩ := List.mem_flatMap.1 ha
      exact ⟨x, hx, ih x hx hax d hd b hb⟩
  | @dict root ms hcell _ _ ih =>
    rw [Value.marks_dict_some] at ha ⊢
    intro d hd b hb
    refine List.mem_cons_of_mem _ (List.mem_flatMap.2 ?_)
    rcases List.mem_cons.1 ha with rfl | ha
    · obtain rfl := Option.some.inj (hcell.symm.trans hc)
      rw [Cell.parts, List.map_map] at hd
      obtain ⟨m, hm, rfl⟩ := List.mem_map.1 hd
      exact ⟨m.2, List.mem_map_of_mem hm, m.2.refs_datum_subset b hb⟩
    · obtain ⟨x, hx, hax⟩ := List.mem_flatMap.1 ha
      obtain ⟨m, hm, rfl⟩ := List.mem_map.1 hx
      exact ⟨m.2, hx, ih m hm hax d hd b hb⟩

/-! ## 4. Keeping -/

/-- A value is kept: memory has grown by cells that hold it and nothing else. -/
structure Kept (h : Heap) (v v' : Value) (h' : Heap) : Prop where
  fresh : v'.fresh = v
  holds : h'.Holds v'
  extends_ : h'.Extends h
  new : ∀ a ∈ v'.marks, h.cells.size ≤ a
  all : ∀ a, h.cells.size ≤ a → a < h'.cells.size → a ∈ v'.marks
  nodup : v'.marks.Nodup
  labels : h'.nextLabel = h.nextLabel

/-- The same of several values, each kept behind the ones before. -/
structure KeptAll (h : Heap) (vs vs' : List Value) (h' : Heap) : Prop where
  fresh : vs'.map Value.fresh = vs
  holds : ∀ v ∈ vs', h'.Holds v
  extends_ : h'.Extends h
  new : ∀ a ∈ vs'.flatMap Value.marks, h.cells.size ≤ a
  all : ∀ a, h.cells.size ≤ a → a < h'.cells.size → a ∈ vs'.flatMap Value.marks
  nodup : (vs'.flatMap Value.marks).Nodup
  labels : h'.nextLabel = h.nextLabel

theorem KeptAll.nil (h : Heap) : KeptAll h [] [] h :=
  ⟨rfl, fun _ hv => absurd hv List.not_mem_nil, .refl h, fun _ ha => absurd ha List.not_mem_nil,
    fun _ hle hlt => absurd hlt (Nat.not_lt.2 hle), List.nodup_nil, rfl⟩

theorem KeptAll.cons {h h' h'' : Heap} {v v' : Value} {vs vs' : List Value} (hv : Kept h v v' h')
    (hvs : KeptAll h' vs vs' h'') : KeptAll h (v :: vs) (v' :: vs') h'' where
  fresh := by rw [List.map_cons, hv.fresh, hvs.fresh]
  holds := List.forall_mem_cons.2 ⟨hv.holds.extends hvs.extends_, hvs.holds⟩
  extends_ := hv.extends_.trans hvs.extends_
  new a ha := by
    rw [List.flatMap_cons] at ha
    rcases List.mem_append.1 ha with ha | ha
    · exact hv.new a ha
    · have hgrown := hv.extends_.size
      have hnew := hvs.new a ha
      omega
  all a hle hlt := by
    rw [List.flatMap_cons, List.mem_append]
    -- the cells of the first value come before those of the others
    by_cases hfirst : a < h'.cells.size
    · exact Or.inl (hv.all a hle hfirst)
    · exact Or.inr (hvs.all a (Nat.not_lt.1 hfirst) hlt)
  nodup := by
    rw [List.flatMap_cons, List.nodup_append]
    refine ⟨hv.nodup, hvs.nodup, ?_⟩
    intro a ha b hb
    have hfirst := hv.holds.mark_lt a ha
    have hlater := hvs.new b hb
    exact Nat.ne_of_lt (Nat.lt_of_lt_of_le hfirst hlater)
  labels := hvs.labels.trans hv.labels

theorem KeptAll.mark_lt {h h' : Heap} {vs vs' : List Value} (hvs : KeptAll h vs vs' h') :
    ∀ a ∈ vs'.flatMap Value.marks, a < h'.cells.size := by
  intro a ha
  obtain ⟨v, hv, hav⟩ := List.mem_flatMap.1 ha
  exact (hvs.holds v hv).mark_lt a hav

/-- A container whose parts are kept is kept in the next cell. -/
theorem KeptAll.list {h h' : Heap} {vs vs' : List Value} (hvs : KeptAll h vs vs' h') :
    Kept h (.list none vs) (.list (some h'.cells.size) vs')
      (h'.alloc (.list (vs'.map Value.datum))).2 where
  fresh := by rw [Value.fresh_list, hvs.fresh]
  holds := by
    refine .list (cell?_alloc_self _ _) hvs.mark_lt ?_
    intro v hv
    exact (hvs.holds v hv).extends (extends_alloc _ _)
  extends_ := hvs.extends_.trans (extends_alloc _ _)
  new := by
    rw [Value.marks_list_some]
    exact List.forall_mem_cons.2 ⟨hvs.extends_.size, hvs.new⟩
  all a hle hlt := by
    rw [Value.marks_list_some, List.mem_cons]
    rw [size_alloc] at hlt
    exact (Nat.eq_or_lt_of_le (Nat.le_of_lt_succ hlt)).imp_right (hvs.all a hle)
  nodup := by
    rw [Value.marks_list_some, List.nodup_cons]
    refine ⟨?_, hvs.nodup⟩
    intro ha
    exact Nat.lt_irrefl _ (hvs.mark_lt _ ha)
  labels := hvs.labels

theorem KeptAll.dict {h h' : Heap} {ms ms' : List (String × Value)}
    (hms : KeptAll h (ms.map Prod.snd) (ms'.map Prod.snd) h')
    (hkeys : ms'.map Prod.fst = ms.map Prod.fst) :
    Kept h (.dict none ms) (.dict (some h'.cells.size) ms')
      (h'.alloc (.dict (ms'.map fun m => (m.1, m.2.datum)))).2 where
  fresh := by
    rw [Value.fresh_dict, Value.dict.injEq]
    refine ⟨rfl, List.ext_getElem? ?_⟩
    intro i
    -- keys and values agree place by place, so the members do
    have hfst := congrArg (fun l => l[i]?) hkeys
    have hsnd := congrArg (fun l => l[i]?) hms.fresh
    simp only [List.getElem?_map, Option.map_map] at hfst hsnd ⊢
    cases hm' : ms'[i]? <;> cases hm : ms[i]? <;> simp_all
  holds := by
    refine .dict (cell?_alloc_self _ _) hms.mark_lt ?_
    intro m hm
    exact (hms.holds m.2 (List.mem_map_of_mem hm)).extends (extends_alloc _ _)
  extends_ := hms.extends_.trans (extends_alloc _ _)
  new := by
    rw [Value.marks_dict_some]
    exact List.forall_mem_cons.2 ⟨hms.extends_.size, hms.new⟩
  all a hle hlt := by
    rw [Value.marks_dict_some, List.mem_cons]
    rw [size_alloc] at hlt
    exact (Nat.eq_or_lt_of_le (Nat.le_of_lt_succ hlt)).imp_right (hms.all a hle)
  nodup := by
    rw [Value.marks_dict_some, List.nodup_cons]
    refine ⟨?_, hms.nodup⟩
    intro ha
    exact Nat.lt_irrefl _ (hms.mark_lt _ ha)
  labels := hms.labels

/-- Members are kept as what they hold is. -/
theorem keepMembers_eq (ms : List (String × Value)) (h : Heap) :
    keepMembers ms h =
      ((ms.map Prod.fst).zip (keepItems (ms.map Prod.snd) h).1, (keepItems (ms.map Prod.snd) h).2) := by
  induction ms generalizing h with
  | nil => rfl
  | cons m ms ih =>
    obtain ⟨key, x⟩ := m
    rw [keepMembers, ih, List.map_cons, List.map_cons, keepItems, List.zip_cons_cons]

theorem keepItems_kept {xs : List Value}
    (hxs : ∀ x ∈ xs, ∀ h : Heap, ∃ x', (h.keep x).1 = x'.datum ∧ Kept h x x' (h.keep x).2)
    (h : Heap) :
    ∃ xs', (keepItems xs h).1 = xs'.map Value.datum ∧ KeptAll h xs xs' (keepItems xs h).2 := by
  induction xs generalizing h with
  | nil => exact ⟨[], rfl, .nil h⟩
  | cons x xs ih =>
    rw [List.forall_mem_cons] at hxs
    obtain ⟨x', hx', hkept⟩ := hxs.1 h
    obtain ⟨xs', hxs', hall⟩ := ih hxs.2 (h.keep x).2
    exact ⟨x' :: xs', by rw [keepItems, hx', hxs', List.map_cons], .cons hkept hall⟩

theorem kept_of_isPlain {v : Value} (hv : v.isPlain = true) (h : Heap) : Kept h v v h where
  fresh := Value.fresh_of_isPlain hv
  holds := .plain hv
  extends_ := .refl h
  new := by simp [Value.marks_of_isPlain hv]
  all a hle hlt := absurd hlt (Nat.not_lt.2 hle)
  nodup := by simp [Value.marks_of_isPlain hv]
  labels := rfl

/-- What JSON writes is kept in new cells, and the datum is that of the same value with marks. -/
theorem keep_kept {v : Value} (hv : v.IsJson) (h : Heap) :
    ∃ v', (h.keep v).1 = v'.datum ∧ Kept h v v' (h.keep v).2 := by
  induction hv generalizing h with
  | null => exact ⟨.null, rfl, kept_of_isPlain rfl h⟩
  | bool b => exact ⟨.bool b, rfl, kept_of_isPlain rfl h⟩
  | int n => exact ⟨.int n, rfl, kept_of_isPlain rfl h⟩
  | @float x hx =>
    -- a not-a-number without a label would get one, but JSON writes none
    have hkeep : h.keep (.float x) = (.float x, h) := by
      cases x with
      | nan label =>
        cases label with
        | none => exact absurd rfl hx
        | some i => rfl
      | _ => rfl
    rw [hkeep]
    exact ⟨.float x, rfl, kept_of_isPlain rfl h⟩
  | str s => exact ⟨.str s, rfl, kept_of_isPlain rfl h⟩
  | @list xs _ ih =>
    obtain ⟨xs', hxs', hall⟩ := keepItems_kept ih h
    refine ⟨.list (some (keepItems xs h).2.cells.size) xs', rfl, ?_⟩
    rw [keep, hxs']
    exact hall.list
  | @dict ms _ ih =>
    obtain ⟨xs', hxs', hall⟩ := @keepItems_kept (ms.map Prod.snd) (List.forall_mem_map.2 ih) h
    have hlength : xs'.length = (ms.map Prod.snd).length := by
      rw [← List.length_map (f := Value.fresh), hall.fresh]
    have hfst : ((ms.map Prod.fst).zip xs').map Prod.fst = ms.map Prod.fst :=
      List.map_fst_zip (by simp [hlength])
    have hsnd : ((ms.map Prod.fst).zip xs').map Prod.snd = xs' :=
      List.map_snd_zip (by simp [hlength])
    refine ⟨.dict (some (keepItems (ms.map Prod.snd) h).2.cells.size) ((ms.map Prod.fst).zip xs'),
      by rw [keep, keepMembers_eq]; rfl, ?_⟩
    rw [← hsnd] at hall
    -- the cell that is made holds the data of the members that are kept
    have hdata : ((ms.map Prod.fst).zip xs').map (fun m => (m.1, m.2.datum)) =
        (ms.map Prod.fst).zip (keepItems (ms.map Prod.snd) h).1 := by
      rw [hxs', List.zip_map_right]
      rfl
    rw [keep, keepMembers_eq, ← hdata]
    exact hall.dict hfst

end Heap

/-! ## 5. Values without identity -/

/-- A number without the label by which one not-a-number is told from another. -/
def Binary64.bare : Binary64 → Binary64
  | .nan _ => .nan none
  | x => x

mutual

/-- A value without its marks and labels. -/
def Value.bare : Value → Value
  | .float x => .float x.bare
  | .list _ items => .list none (bareItems items)
  | .dict _ members => .dict none (bareMembers members)
  | .store _ name members => .store 0 name (bareMembers members)
  | v => v
termination_by structural v => v

/-- The elements of a list without their marks and labels. -/
def bareItems : List Value → List Value
  | [] => []
  | x :: xs => x.bare :: bareItems xs
termination_by structural xs => xs

/-- The members of an object without their marks and labels. -/
def bareMembers : List (String × Value) → List (String × Value)
  | [] => []
  | (k, x) :: ms => (k, x.bare) :: bareMembers ms
termination_by structural ms => ms

end

namespace Value

theorem bareItems_eq (xs : List Value) : bareItems xs = xs.map bare := by
  induction xs with
  | nil => rfl
  | cons x xs ih => rw [bareItems, ih, List.map_cons]

theorem bareMembers_eq (ms : List (String × Value)) : bareMembers ms = ms.map fun m => (m.1, m.2.bare) := by
  induction ms with
  | nil => rfl
  | cons m ms ih => rw [bareMembers, ih, List.map_cons]

@[simp] theorem bare_list (cell : Option Addr) (xs : List Value) :
    (Value.list cell xs).bare = .list none (xs.map bare) := by
  rw [bare, bareItems_eq]

@[simp] theorem bare_dict (cell : Option Addr) (ms : List (String × Value)) :
    (Value.dict cell ms).bare = .dict none (ms.map fun m => (m.1, m.2.bare)) := by
  rw [bare, bareMembers_eq]

end Value

/-- A datum shows a value: the tree below it is alike. -/
def Heap.Shows (h : Heap) (d : Datum) (v : Value) : Prop := (h.view d).bare = v

namespace Heap

theorem shows_null (h : Heap) : h.Shows .null .null := rfl

theorem shows_int (h : Heap) (n : Int) : h.Shows (.int n) (.int n) := rfl

end Heap

end NodeFlow
