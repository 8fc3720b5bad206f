import NodeFlow.Proofs.Memory.Grafts
import NodeFlow.Proofs.Memory.Usage
/-!
# Dotted paths of a context

A context that demands no types is written and read at dotted paths by the laws of a lens, as long as no object of it
has two places. What is written may have parts in the context, but not the objects on the way to where it is written:
these would become parts of themselves.

One law has a limit. A path that leads through a list can be read but not written: the write puts an object where the
list was. So a write at a path shows at another one that parts from it below a list.
-/

set_option autoImplicit false

namespace NodeFlow

namespace Heap

variable {h h' : Heap} {v w : Value} {path : List String}

/-! ## 1. What is written -/

/-- What JSON writes can be kept as it shows. -/
theorem mixes_of_isJson (hv : v.IsJson) (h : Heap) : h.Mixes v := by
  induction hv with
  | null | bool b | int n | float hx | str s => exact .plain rfl
  | list _ ih => exact .list ih
  | dict _ ih => exact .dict ih

theorem Mixes.mark_lt (hv : h.Mixes v) : ∀ a ∈ v.marks, a < h.cells.size := by
  induction hv with
  | plain hp =>
    rw [Value.marks_of_isPlain hp]
    exact fun a ha => absurd ha List.not_mem_nil
  | held _ hforms => exact hforms.mark_lt
  | list _ ih =>
    rw [Value.marks_list, Option.toList_none, List.nil_append, List.forall_mem_flatMap]
    exact ih
  | dict _ ih =>
    rw [Value.marks_dict, Option.toList_none, List.nil_append, List.forall_mem_flatMap, List.forall_mem_map]
    exact ih

/-- What can be kept still can if its parts in memory stay as they are. -/
theorem Mixes.congr (hv : h.Mixes v) (heq : ∀ a ∈ v.marks, h'.cell? a = h.cell? a) : h'.Mixes v := by
  induction hv with
  | plain hp => exact .plain hp
  | held hcontainer hforms => exact .held hcontainer (hforms.congr heq)
  | list _ ih =>
    rw [Value.marks_list, Option.toList_none, List.nil_append, List.forall_mem_flatMap] at heq
    exact .list fun x hx => ih x hx (heq x hx)
  | dict _ ih =>
    rw [Value.marks_dict, Option.toList_none, List.nil_append, List.forall_mem_flatMap, List.forall_mem_map] at heq
    exact .dict fun m hm => ih m hm (heq m hm)

/-- What a path leads through are objects. -/
theorem Forms.cell_of_mem_way (hv : h.Forms v) {b : Addr} (hb : b ∈ v.way path) :
    ∃ ms, h.cell? b = some (.dict ms) := by
  induction path generalizing v with
  | nil => exact absurd hb List.not_mem_nil
  | cons key rest ih =>
    cases v with
    | dict cell ms =>
      cases cell with
      | none => exact absurd hb List.not_mem_nil
      | some a =>
        rcases List.mem_cons.1 hb with rfl | hb
        · exact ⟨_, hv.cell⟩
        · exact ih (hv.field key) hb
    | _ => exact absurd hb List.not_mem_nil

/-- A write below the object under a key, which may have to be made. It is not put under the key yet. -/
theorem grafted_objectUnder {a : Addr} {ms : List (String × Value)} {key first : String} {rest : List String}
    (hv : h.Forms (.dict (some a) ms)) (hw : h.Forms w) (hsole : Sole (.dict (some a) ms) w (key :: first :: rest))
    {r : Addr × Heap} (hr : h.objectUnder a key = r) :
    ∃ ms', (r.2.writeBelow r.1 first rest w.datum).cell? a = h.cell? a ∧
      Grafted [a] h ((Value.dict (some a) ms).field key) (first :: rest) w
        (r.2.writeBelow r.1 first rest w.datum) (.dict (some r.1) ms') := by
  subst hr
  rw [objectUnder]
  split
  · next b hb =>
    obtain ⟨ms', hfield, hx⟩ := hv.exists_field hb
    obtain ⟨ms'', hgraft⟩ := grafted_writeBelow hx hw (hfield ▸ hsole.below)
    rw [← hfield] at hgraft
    exact ⟨ms'', hgraft.cell_around hv, hgraft.mono [a]⟩
  · next hnone =>
    have hext := extends_alloc h (.dict [])
    obtain ⟨ms', hgraft⟩ := grafted_writeBelow (forms_new (cell?_alloc_self h (.dict [])))
      (hw.extends hext) (sole_new hw (first :: rest))
    refine ⟨ms', ?_, hgraft.of_new (hv.not_isDict_field hnone) hw (size_alloc h _) fun b hb _ => hext.cell b hb⟩
    have hlt := cell?_lt hv.cell
    have hne : a ∉ (Value.dict (some h.cells.size) []).way (first :: rest) := fun hmem =>
      Nat.ne_of_lt hlt (List.mem_singleton.1 (Value.way_subset _ _ a hmem))
    exact (hgraft.kept a (Nat.lt_of_lt_of_le hlt hext.size) List.not_mem_nil hne).trans (hext.cell a hlt)

end Heap

/-! ## 2. Contexts without types -/

namespace Shared

variable {s : Shared} {l : Ledger} {v w : Value} {p : String}

/-- No type is demanded of any key: a plain context, or a store whose schema is empty. -/
def Unchecked (s : Shared) : Prop := ∀ info, s.store = some info → info.schema = []

theorem Unchecked.set (hs : s.Unchecked) (key : String) (d : Datum) (l : Ledger) :
    ∃ l', s.set key d l = (.ok (), l') ∧ l'.heap = l.heap.putMember s.data key d := by
  have hnone : s.refusal? key (l.heap.view d) = none := by
    rw [refusal?]
    split
    · rfl
    · next info hinfo =>
      rw [hs info hinfo]
      rfl
  rw [Shared.set, hnone]
  exact ⟨_, rfl, rfl⟩

/-- **A write at a path of a context** leaves what it amounts to. -/
theorem exists_setPath (hs : s.Unchecked) {ms : List (String × Value)} (hv : l.heap.Forms (.dict (some s.data) ms))
    (hw : l.heap.Forms w) (hsole : Heap.Sole (.dict (some s.data) ms) w (Path.segments p)) :
    ∃ l' ms', s.setPath p w.datum l = (.ok (), l') ∧ Heap.Grafted [] l.heap (.dict (some s.data) ms) (Path.segments p) w
      l'.heap (.dict (some s.data) ms') := by
  rw [setPath]
  rcases hsegments : Path.segments p with - | ⟨key, - | ⟨first, rest⟩⟩
  · exact absurd hsegments (Path.segments_ne_nil p)
  · rw [hsegments] at hsole
    obtain ⟨l', hset, hheap⟩ := hs.set key w.datum l
    obtain ⟨ms', hgraft⟩ := Heap.grafted_writeBelow hv hw hsole
    rw [Heap.writeBelow, ← hheap] at hgraft
    exact ⟨l', ms', hset, hgraft⟩
  · rw [hsegments] at hsole
    obtain ⟨ms', hcell, hgraft⟩ := Heap.grafted_objectUnder hv hw hsole rfl
    obtain ⟨l', hset, hheap⟩ := hs.set key (.ref (l.heap.objectUnder s.data key).1)
      { l with heap := (l.heap.objectUnder s.data key).2.writeBelow (l.heap.objectUnder s.data key).1 first rest w.datum }
    have hput := hgraft.putMember (hgraft.notMem_marks hv hsole) key (.ref (l.heap.objectUnder s.data key).1)
    rw [← hheap] at hput
    refine ⟨l', _, hset, hput.close hv hsole (fun b => List.mem_singleton.1) ?_⟩
    have hcell' := hcell.trans hv.cell
    rw [hheap, Heap.putMember, Heap.membersAt, hcell', Heap.cell?_write_self (Heap.cell?_lt hcell'), Value.datum]

/-- A context and a value that can be written at a path of it: no object that the path leads through has another
place in the context, or one in the value. -/
structure Writable (s : Shared) (h : Heap) (p : String) (v : Value) : Prop where
  object : ∃ ms, s.content h = .dict (some s.data) ms
  forms : h.Forms (s.content h)
  mixes : h.Mixes v
  sole : Heap.Sole (s.content h) v (Path.segments p)

/-- What a write at a path of a context has left. The value has been kept first. -/
structure Written (s : Shared) (p : String) (w : Value) (l l' : Ledger) (w' : Value) : Prop where
  act : (Usage.setPath p w).act s l = (.ok (), l')
  object : ∃ ms, s.content l'.heap = .dict (some s.data) ms
  grown : Heap.Grown l.heap w w' (l.heap.keep w).2
  grafted : Heap.Grafted [] (l.heap.keep w).2 (s.content l.heap) (Path.segments p) w' l'.heap (s.content l'.heap)

theorem Writable.exists_written (hs : s.Unchecked) (hw : s.Writable l.heap p w) : ∃ l' w', s.Written p w l l' w' := by
  obtain ⟨ms, hcontent⟩ := hw.object
  obtain ⟨w', hdatum, hgrown⟩ := hw.mixes.grows l.heap (.refl _)
  have hforms := hw.forms.extends hgrown.extends_
  have hmarks := hw.forms.mark_lt
  have hsole : Heap.Sole (s.content l.heap) w' (Path.segments p) := by
    refine ⟨hw.sole.once, fun b hb hmark => ?_⟩
    rcases hgrown.marks b hmark with hmem | hnew
    · exact hw.sole.apart b hb hmem
    · exact Nat.not_lt.2 hnew (hmarks b (Value.way_subset _ _ b hb))
  rw [hcontent] at hforms hsole
  obtain ⟨l', ms', hact, hgraft⟩ := exists_setPath (l := ⟨(l.heap.keep w).2, l.writes⟩) hs hforms hgrown.forms hsole
  have hcontent' : s.content l'.heap = .dict (some s.data) ms' := hgraft.forms.view_datum
  refine ⟨l', w', ?_, ⟨ms', hcontent'⟩, hgrown, by rwa [hcontent, hcontent']⟩
  change s.setPath p (l.heap.keep w).1 ⟨(l.heap.keep w).2, l.writes⟩ = _
  rw [hdatum, hact]

namespace Written

variable {w' : Value} {l' : Ledger} (hl : s.Written p w l l' w')
include hl

theorem bare_content : (s.content l'.heap).bare = Value.putAt w.bare (Path.segments p) (s.content l.heap).bare := by
  rw [hl.grafted.bare, hl.grown.bare]

/-- What is read of a context after a write is read of what the write amounts to. -/
theorem bare_getPath? (q : String) : (s.getPath? l'.heap q).map Value.bare =
    (Value.putAt w.bare (Path.segments p) (s.content l.heap).bare).at? (Path.segments q) := by
  rw [getPath?, Value.atPath?, ← Value.at?_bare, hl.bare_content]

/-- After a write, what could have been written instead still can. -/
theorem writable (hw : s.Writable l.heap p w) (hv : s.Writable l.heap p v) : s.Writable l'.heap p v := by
  have hsize := hl.grown.extends_.size
  have hkept : ∀ b ∈ v.marks, l'.heap.cell? b = l.heap.cell? b := by
    intro b hb
    have hlt := hv.mixes.mark_lt b hb
    rw [hl.grafted.kept b (Nat.lt_of_lt_of_le hlt hsize) List.not_mem_nil fun hway => hv.sole.apart b hway hb]
    exact hl.grown.extends_.cell b hlt
  refine ⟨hl.object, hl.grafted.forms, hv.mixes.congr hkept, fun b hb => ?_, fun b hb hmark => ?_⟩
  · rcases hl.grafted.way b hb with hway | hnew
    · have hlt := hw.forms.mark_lt b (Value.way_subset _ _ b hway)
      have hold := hl.grafted.old b (Nat.lt_of_lt_of_le hlt hsize)
      have honce := hw.sole.once b hway
      have hapart : w'.marks.count b = 0 := List.count_eq_zero.2 fun hmark =>
        (hl.grown.marks b hmark).elim (hw.sole.apart b hway) (Nat.not_le.2 hlt)
      omega
    · exact hl.grafted.new b hnew
  · rcases hl.grafted.way b hb with hway | hnew
    · exact hv.sole.apart b hway hmark
    · exact Nat.not_lt.2 (Nat.le_trans hsize hnew) (hv.mixes.mark_lt b hmark)

end Written

/-! ## 3. The laws -/

/-- A context whose objects have one place each. -/
structure IsTree (s : Shared) (h : Heap) : Prop where
  object : ∃ ms, h.cell? s.data = some (.dict ms)
  forms : h.Forms (s.content h)
  once : ∀ a ms, h.cell? a = some (.dict ms) → (s.content h).marks.count a ≤ 1

/-- A value that can be written at a path of a context: no part of it is an object that the path leads through. -/
structure Fits (s : Shared) (h : Heap) (p : String) (v : Value) : Prop where
  mixes : h.Mixes v
  apart : ∀ a ∈ (s.content h).way (Path.segments p), a ∉ v.marks

/-- What JSON writes can be written at any path. -/
theorem Fits.of_isJson (hv : v.IsJson) (s : Shared) (h : Heap) (p : String) : s.Fits h p v where
  mixes := Heap.mixes_of_isJson hv h
  apart a _ ha := by
    have hfree := hv.free (.beyond 0) a ha
    exact absurd (Seal.beyond_eq_none.1 hfree) (Nat.not_lt_zero a)

/-- A context that is made of what JSON writes is a tree. -/
theorem isTree_keep {h : Heap} {ms : List (String × Value)} (hms : (Value.dict none ms).IsJson)
    (hdata : (h.keep (.dict none ms)).1 = .ref s.data) : s.IsTree (h.keep (.dict none ms)).2 := by
  obtain ⟨c, hc, hkept⟩ := Heap.keep_kept hms h
  have hcontent : s.content (h.keep (.dict none ms)).2 = c := by
    rw [content, ← hdata, hc, hkept.holds.view_datum]
  refine ⟨⟨(Heap.keepMembers ms h).1, ?_⟩, ?_, fun a ms _ => ?_⟩
  · rw [Heap.keep] at hdata ⊢
    rw [← Datum.ref.inj hdata]
    exact Heap.cell?_alloc_self _ _
  · rw [hcontent]
    exact hkept.holds.forms
  · rw [hcontent]
    exact List.nodup_iff_count_le_one.1 hkept.nodup a

theorem IsTree.writable {h : Heap} (htree : s.IsTree h) (hv : s.Fits h p v) : s.Writable h p v where
  object := by
    obtain ⟨ms, hms⟩ := htree.object
    exact ⟨_, Heap.view_dict hms⟩
  forms := htree.forms
  mixes := hv.mixes
  sole := by
    refine ⟨fun b hb => ?_, hv.apart⟩
    obtain ⟨ms, hms⟩ := htree.forms.cell_of_mem_way hb
    exact htree.once b ms hms

/-- A store is read as its content is. -/
theorem atPath?_view {h : Heap} {ms : Members Datum} (hms : h.cell? s.data = some (.dict ms)) (q : String) :
    (s.view h).atPath? q = s.getPath? h q := by
  obtain ⟨key, rest, hsegments⟩ := List.exists_cons_of_ne_nil (Path.segments_ne_nil q)
  rw [getPath?, Value.atPath?, Value.atPath?, hsegments, content, view, datum]
  cases s.store with
  | none => rfl
  | some info =>
    have hstore : h.view (.store s.data info.name) =
        .store s.data info.name (ms.map fun m => (m.1, h.viewWithin h.cells.size [s.data] m.2)) := by
      rw [Heap.view, Heap.viewWithin, Heap.membersAt, hms]
      rfl
    rw [hstore, Heap.view_dict hms]
    rfl

/-- **Dotted paths are a lens.** What has been written at a path is read there, and below it the parts of it are read.
Only the last write at a path counts. A store is read as its content is. A write does not show at a path that parts
from it in an object which is reached through objects only, and not where nothing could be read. -/
theorem dotted_paths_lens (hs : s.Unchecked) (htree : s.IsTree l.heap) (hv : s.Fits l.heap p v)
    (hw : s.Fits l.heap p w) : ∃ lv lw lvw, (Usage.setPath p v).act s l = (.ok (), lv) ∧
      (Usage.setPath p w).act s l = (.ok (), lw) ∧ (Usage.setPath p w).act s lv = (.ok (), lvw) ∧
      (s.getPath? lv.heap p).map Value.bare = some v.bare ∧
      (s.content lvw.heap).bare = (s.content lw.heap).bare ∧
      (∀ r, (s.getPath? lv.heap (p ++ "." ++ r)).map Value.bare = (v.atPath? r).map Value.bare) ∧
      (∀ q, (s.view lv.heap).atPath? q = s.getPath? lv.heap q) ∧
      ∀ q c key other p' q', Path.segments p = c ++ key :: p' → Path.segments q = c ++ other :: q' → other ≠ key →
        (s.content l.heap).ByObjects c ∨ s.getPath? l.heap q = none →
        (s.getPath? lv.heap q).map Value.bare = (s.getPath? l.heap q).map Value.bare := by
  obtain ⟨lv, v', hlv⟩ := (htree.writable hv).exists_written hs
  obtain ⟨lw, w', hlw⟩ := (htree.writable hw).exists_written hs
  obtain ⟨lvw, w'', hlvw⟩ := (hlv.writable (htree.writable hv) (htree.writable hw)).exists_written hs
  refine ⟨lv, lw, lvw, hlv.act, hlw.act, hlvw.act, ?_, ?_, fun r => ?_, fun q => ?_, ?_⟩
  · have hread := Value.at?_putAt v.bare (s.content l.heap).bare (Path.segments p) []
    rw [List.append_nil] at hread
    rw [hlv.bare_getPath?, hread]
    rfl
  · rw [hlvw.bare_content, hlv.bare_content, Value.putAt_putAt, hlw.bare_content]
  · rw [hlv.bare_getPath?, Path.segments_append, Value.at?_putAt, Value.at?_bare]
    rfl
  · obtain ⟨ms, hms⟩ := hlv.object
    have hforms := hlv.grafted.forms
    rw [hms] at hforms
    exact atPath?_view hforms.cell q
  · intro q c key other p' q' hp hq hne hc
    have hbefore : (s.getPath? l.heap q).map Value.bare = (s.content l.heap).bare.at? (Path.segments q) :=
      (Value.at?_bare _ _).symm
    rw [hlv.bare_getPath?, hbefore, hp, hq]
    refine Value.at?_putAt_of_ne hne p' (hc.imp Value.byObjects_bare.2 fun hnone => ?_)
    rw [← hq, ← hbefore, hnone]
    rfl

/-- An object in an object, in a store without types. -/
def nested : Shared × Ledger :=
  (⟨1, some ⟨"nested", [], []⟩⟩,
    ⟨(Heap.empty.keep (.dict none [("a", .dict none [("b", .int 1), ("d", .bool true)])])).2, []⟩)

theorem isTree_nested : nested.1.IsTree nested.2.heap :=
  isTree_keep (.dict (List.forall_mem_singleton.2 (.dict (List.forall_mem_cons.2
    ⟨.int 1, List.forall_mem_singleton.2 (.bool true)⟩)))) rfl

theorem byObjects_nested : (nested.1.content nested.2.heap).ByObjects ["a"] := by
  intro front hfront
  rcases List.prefix_cons_iff.1 hfront with rfl | ⟨rest, rfl, hrest⟩
  · exact ⟨_, rfl, rfl⟩
  · obtain rfl := List.prefix_nil.1 hrest
    exact ⟨_, rfl, rfl⟩

theorem dotted_paths_lens_nested : ∃ l, (Usage.setPath "a.b.x" (.int 2)).act nested.1 nested.2 = (.ok (), l) ∧
    (nested.1.getPath? l.heap "a.b.x").map Value.bare = some (.int 2) ∧
      (nested.1.getPath? l.heap "a.d").map Value.bare = some (.bool true) := by
  obtain ⟨l, -, -, hl, -, -, hread, -, -, -, hframe⟩ := dotted_paths_lens (s := nested.1) (l := nested.2)
    (p := "a.b.x") (fun info hinfo => by cases hinfo; rfl) isTree_nested (.of_isJson (.int 2) _ _ _)
    (.of_isJson .null _ _ _)
  exact ⟨l, hl, hread, hframe "a.d" ["a"] "b" "d" ["x"] [] (by decide) (by decide) (by decide)
    (Or.inl byObjects_nested)⟩

/-- A list with an object in it, in a plain context. -/
def listed : Shared × Ledger :=
  (⟨2, none⟩, ⟨(Heap.empty.keep (.dict none [("a", .list none [.dict none [("y", .int 1)]])])).2, []⟩)

/-- A write through a list loses what could be read through the list, although the paths part in an object. -/
theorem path_through_list_loses : listed.1.IsTree listed.2.heap ∧
    listed.1.getPath? listed.2.heap "a.0" = some (.dict (some 0) [("y", .int 1)]) ∧
      listed.1.getPath? listed.2.heap "a.0.y" = some (.int 1) ∧
        listed.1.getPath? ((Usage.setPath "a.0.x" (.int 2)).act listed.1 listed.2).2.heap "a.0.y" = none :=
  ⟨isTree_keep (.dict (List.forall_mem_singleton.2 (.list (List.forall_mem_singleton.2
    (.dict (List.forall_mem_singleton.2 (.int 1))))))) rfl, rfl, rfl, rfl⟩

end Shared

end NodeFlow
