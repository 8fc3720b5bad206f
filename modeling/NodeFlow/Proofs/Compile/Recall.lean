import NodeFlow.Proofs.Compile.Watch
import NodeFlow.Proofs.Compile.Handing
import NodeFlow.Proofs.Run.Bounds
/-!
# The last result in its place

A visit puts its result into the shared context, and the next one looks it up there. In between the context
changes: outputs are saved, visits are counted. What is put under the key of the last result stays there all the
same, since a write changes no more of any object than what it holds under the keys of its path.

The awkward thing up front: a saved path may lead into the context itself, where the context has been saved below
one of its own keys. So it is not enough that no path begins with the key of the last result; none may have it
anywhere.
-/

set_option autoImplicit false

namespace NodeFlow

/-! ## 1. Memory -/

/-- Memory may have grown, and under a key all objects hold what they held. -/
structure Heap.Leaves (key : String) (h h' : Heap) : Prop where
  size : h.cells.size ≤ h'.cells.size
  held : ∀ a < h.cells.size, Members.get? (h'.membersAt a) key = Members.get? (h.membersAt a) key

namespace Heap

variable {key : String} {h h' h'' : Heap}

theorem Leaves.refl (key : String) (h : Heap) : Leaves key h h := ⟨Nat.le_refl _, fun _ _ => rfl⟩

theorem Leaves.trans (hh : Leaves key h h') (hh' : Leaves key h' h'') : Leaves key h h'' where
  size := Nat.le_trans hh.size hh'.size
  held a ha := (hh'.held a (Nat.lt_of_lt_of_le ha hh.size)).trans (hh.held a ha)

theorem Extends.leaves (key : String) (hh : h'.Extends h) : Leaves key h h' where
  size := hh.size
  held a ha := by rw [membersAt, membersAt, hh.cell a ha]

theorem leaves_putMember {other : String} (hne : other ≠ key) (a : Addr) (d : Datum) (h : Heap) :
    Leaves key h (h.putMember a other d) where
  size := Nat.le_of_eq Array.size_setIfInBounds.symm
  held b hb := by
    rw [membersAt, putMember, cell?_write]
    by_cases hab : a = b
    · rw [if_pos hab, if_pos (hab ▸ hb), hab]
      dsimp only
      rw [Members.get?_put, if_neg (Ne.symm hne)]
    · rw [if_neg hab]
      rfl

theorem leaves_objectUnder (a : Addr) (other : String) (h : Heap) : Leaves key h (h.objectUnder a other).2 := by
  rw [objectUnder]
  split
  · exact .refl key h
  · exact (extends_alloc h _).leaves key

/-- What is written below an object is put under the keys of the path. -/
theorem leaves_writeBelow {first : String} {rest : List String} (hkeys : key ∉ first :: rest) (a : Addr) (d : Datum)
    (h : Heap) : Leaves key h (h.writeBelow a first rest d) := by
  induction rest generalizing h a first with
  | nil => exact leaves_putMember (List.ne_of_not_mem_cons hkeys).symm a d h
  | cons next more ih =>
    have hfirst : first ≠ key := (List.ne_of_not_mem_cons hkeys).symm
    have hmore : key ∉ next :: more := List.not_mem_of_not_mem_cons hkeys
    rw [writeBelow]
    split
    · exact ih hmore _ _
    · exact (((extends_alloc h _).leaves key).trans (leaves_putMember hfirst _ _ _)).trans (ih hmore _ _)

end Heap

namespace Shared

variable {s : Shared} {key : String}

theorem leaves_set {other : String} (hne : other ≠ key) (d : Datum) (l : Ledger) :
    l.heap.Leaves key (s.set other d l).2.heap := by
  rw [set]
  split
  · exact .refl key _
  · exact Heap.leaves_putMember hne _ _ _

theorem leaves_setPath {path : String} (hpath : key ∉ Path.segments path) (d : Datum) (l : Ledger) :
    l.heap.Leaves key (s.setPath path d l).2.heap := by
  rw [setPath]
  rcases hsegments : Path.segments path with - | ⟨first, - | ⟨next, rest⟩⟩
  · exact .refl key _
  · rw [hsegments] at hpath
    exact leaves_set (List.ne_of_not_mem_cons hpath).symm d l
  · rw [hsegments] at hpath
    have hobject : l.heap.Leaves key (l.heap.objectUnder s.data first).2 := Heap.leaves_objectUnder s.data first l.heap
    have hbelow := Heap.leaves_writeBelow (List.not_mem_of_not_mem_cons hpath) (l.heap.objectUnder s.data first).1 d
      (l.heap.objectUnder s.data first).2
    exact (hobject.trans hbelow).trans (leaves_set (s := s) (List.ne_of_not_mem_cons hpath).symm _ ⟨_, l.writes⟩)

/-- What the context holds as the last result. -/
def lastResult (s : Shared) (h : Heap) : Datum := (s.get? h Declared.lastResultKey).getD .null

/-- The context is there, and holds the last result in its place. -/
structure Recalls (s : Shared) (last : Datum) (w : World) : Prop where
  lt : s.data < w.heap.cells.size
  eq : s.lastResult w.heap = last

theorem lastResult_of_leaves {h h' : Heap} (hh : h.Leaves Declared.lastResultKey h') (hlt : s.data < h.cells.size) :
    s.lastResult h' = s.lastResult h := by
  rw [lastResult, lastResult, get?, get?, hh.held s.data hlt]

theorem Recalls.of_leaves {last : Datum} {w w' : World} (h : s.Recalls last w)
    (hh : w.heap.Leaves Declared.lastResultKey w'.heap) : s.Recalls last w' :=
  ⟨Nat.lt_of_lt_of_le h.lt hh.size, (lastResult_of_leaves hh h.lt).trans h.eq⟩

/-- A last result that is put into the context is there, if the context does not refuse it. -/
theorem recalls_set {w w' : World} {result : Datum} (hlt : s.data < w.heap.cells.size)
    (h : World.onShared (s.set Declared.lastResultKey result) w = (.ok (), w')) : s.Recalls result w' := by
  rcases Declared.onShared_set s Declared.lastResultKey result w with ⟨e, -, hset⟩ | hset
  · rw [hset] at h
    cases h
  · rw [hset] at h
    obtain rfl := (Prod.mk.inj h).2
    refine ⟨lt_of_lt_of_eq hlt Array.size_setIfInBounds.symm, ?_⟩
    rw [lastResult, get?, Heap.membersAt, Heap.putMember, Heap.cell?_write, if_pos rfl, if_pos hlt, Members.get?_put,
      if_pos rfl, Option.getD_some]

end Shared

/-! ## 2. Actions -/

variable {α β : Type}

namespace Act

/-- An action after which all objects hold under a key what they held. -/
def Leaves (key : String) (x : Act World α) : Prop := ∀ w : World, w.heap.Leaves key (x w).2.heap

variable {key : String}

/-- An action that leaves memory alone. -/
def Still (x : Act World α) : Prop := ∀ w : World, (x w).2.heap = w.heap

theorem Still.bind {x : Act World α} {f : α → Act World β} (hx : x.Still) (hf : ∀ a, (f a).Still) :
    (x >>= f).Still := by
  intro w
  have hstep := hx w
  rcases hxw : x w with ⟨r, w'⟩
  rw [hxw] at hstep
  cases r with
  | ok a =>
    rw [Act.bind_ok hxw]
    exact (hf a w').trans hstep
  | error e =>
    rw [Act.bind_error hxw]
    exact hstep

theorem leaves_of_still {x : Act World α} (h : x.Still) : x.Leaves key := fun w => by
  rw [h w]
  exact .refl key _

theorem Leaves.bind {x : Act World α} {f : α → Act World β} (hx : x.Leaves key) (hf : ∀ a, (f a).Leaves key) :
    (x >>= f).Leaves key := by
  intro w
  have hstep := hx w
  rcases hxw : x w with ⟨r, w'⟩
  rw [hxw] at hstep
  cases r with
  | ok a =>
    rw [Act.bind_ok hxw]
    exact hstep.trans (hf a w')
  | error e =>
    rw [Act.bind_error hxw]
    exact hstep

theorem leaves_pure (a : α) : (pure a : Act World α).Leaves key := leaves_of_still fun _ => rfl

theorem leaves_fail (e : Failure) : (fail e : Act World α).Leaves key := leaves_of_still fun _ => rfl

theorem leaves_reads (f : World → α) : (reads f).Leaves key := leaves_of_still fun _ => rfl

theorem leaves_ofExcept (x : Except Failure α) : (ofExcept x : Act World α).Leaves key := leaves_of_still fun _ => rfl

theorem leaves_ofFault (x : Except Fault α) : (ofFault x : Act World α).Leaves key := leaves_of_still fun _ => rfl

theorem leaves_ofOperands (x : Except OperandFault α) : (ofOperands x : Act World α).Leaves key :=
  leaves_of_still fun _ => rfl

theorem leaves_noteAll (ds : List Diagnostic) : (World.noteAll ds).Leaves key := by
  induction ds with
  | nil => exact leaves_pure ()
  | cons d ds ih => exact .bind (leaves_of_still fun _ => rfl) fun _ => ih

theorem leaves_settle (x : Noted α) : (World.settle x).Leaves key :=
  .bind (leaves_noteAll x.notes) fun _ => leaves_ofFault x.result

theorem leaves_keep (v : Value) : (World.keep v).Leaves key := fun w => (Heap.extends_keep w.heap v).leaves key

theorem leaves_alloc (c : Cell) : (World.alloc c).Leaves key := fun w => (Heap.extends_alloc w.heap c).leaves key

/-! ### Objects -/

theorem leaves_elements (d : Datum) : (Elements.of d).Leaves key := by
  refine .bind (leaves_reads _) fun v => ?_
  split
  · exact leaves_pure _
  · split
    · exact leaves_pure _
    · exact leaves_pure _
    · exact leaves_pure _
    · exact leaves_pure _
    · exact leaves_fail _

theorem leaves_all (e : Elements) : e.all.Leaves key := by
  cases e with
  | live a => exact leaves_reads _
  | fixed ds => exact leaves_pure ds

/-- A list of a key and a part is a pair, and nothing else is one. -/
theorem leaves_pair (ds : List Datum) :
    (match ds with
      | [.str key, part] => pure (key, part)
      | [_, _] => Act.fail (.fault .type)
      | _ => Act.fail (.fault .value) : Act World (String × Datum)).Leaves key := by
  split
  · exact leaves_pure _
  · exact leaves_fail _
  · exact leaves_fail _

theorem leaves_pairOf (d : Datum) : (pairOf d).Leaves key := by
  refine .bind (leaves_reads _) fun v => ?_
  dsimp only
  split
  · exact .bind (leaves_reads _) leaves_pair
  · exact leaves_pair _
  · exact leaves_pair _
  · exact leaves_pair _
  · exact .bind (leaves_fail _) leaves_pair

theorem leaves_pairsOf (ds : List Datum) : (pairsOf ds).Leaves key := by
  induction ds with
  | nil => exact leaves_pure _
  | cons d ds ih => exact .bind (leaves_pairOf d) fun _ => .bind ih fun _ => leaves_pure _

theorem leaves_membersOf (d : Datum) : (membersOf d).Leaves key := by
  refine .bind (leaves_reads _) fun v => ?_
  split
  · exact leaves_reads _
  · exact leaves_reads _
  · refine .bind (leaves_elements d) fun e => .bind (leaves_all e) fun ds => ?_
    exact .bind (leaves_pairsOf ds) fun _ => leaves_pure _

end Act

namespace Declared

variable {d : Declared} {scene : Scene}

/-! ## 3. The end of a visit -/

/-- None of the paths under which a declared node saves has the key of the last result, in any memory in which
the declaration is as it was sealed. -/
def Reserves (d : Declared) (S : Seal) : Prop :=
  ∀ h : Heap, h.Obeys S → ∀ save ∈ ((((d.contentIn h).field "post").field "outputs").field "save").items,
    ∀ path, save.field "path" = .str path → lastResultKey ∉ Path.segments path

theorem leaves_recordVisit (d : Declared) (scene : Scene) : (d.recordVisit scene).Leaves lastResultKey := by
  rw [recordVisit]
  split
  · exact Act.leaves_pure _
  · refine .bind (Act.leaves_reads _) fun held => .bind (Act.leaves_membersOf held) fun counts => ?_
    refine .bind (Act.leaves_reads _) fun before => .bind (Act.leaves_ofOperands _) fun sum => ?_
    refine .bind (Act.leaves_keep sum) fun count => .bind (Act.leaves_alloc _) fun new w => ?_
    exact Shared.leaves_set (by decide) new ⟨w.heap, []⟩

theorem leaves_saveAll (result : Datum) {saves : List Value}
    (hsaves : ∀ save ∈ saves, ∀ path, save.field "path" = .str path → lastResultKey ∉ Path.segments path) :
    (d.saveAll scene result saves).Leaves lastResultKey := by
  induction saves with
  | nil => exact Act.leaves_pure _
  | cons save rest ih =>
    rw [List.forall_mem_cons] at hsaves
    refine .bind (.bind (Act.leaves_reads _) fun _ => Act.leaves_reads _) fun scope => ?_
    refine .bind (Act.leaves_settle _) fun v => .bind (Act.leaves_keep v) fun kept => ?_
    dsimp only
    split
    · next path hpath =>
      exact .bind (fun w => Shared.leaves_setPath (hsaves.1 path hpath) kept ⟨w.heap, []⟩) fun _ => ih hsaves.2
    · exact .bind (Act.leaves_fail _) fun _ => ih hsaves.2

/-- A visit that has finished has left its result in its place. -/
theorem recalls_finish {S : Seal} (hd : d.Reserves S) (hs : scene.Free S) {result : Datum} (hresult : result.Free S)
    {w w' : World} (hw : w.heap.Obeys S) (hlt : scene.shared.data < w.heap.cells.size) {label : Datum}
    (h : d.finish scene result w = (.ok label, w')) : scene.shared.Recalls result w' := by
  rw [finish] at h
  rcases hset : World.onShared (scene.shared.set lastResultKey result) w with ⟨r, w₁⟩
  cases r with
  | error e =>
    rw [Act.bind_error hset] at h
    cases h
  | ok a =>
    have hrecalls := Shared.recalls_set hlt hset
    have hobeys := (Shared.obeys_set hs.data hresult (l := ⟨w.heap, []⟩) hw lastResultKey).heap
    have hheap := congrArg (World.heap ∘ Prod.snd) hset
    dsimp only [Function.comp_apply, World.onShared] at hheap
    rw [hheap] at hobeys
    rw [Act.bind_ok hset] at h
    -- what is saved is read from the declaration as it is now, and that is as it was sealed
    have hpart : d.part "post" w₁ = (.ok ((d.contentIn w₁.heap).field "post"), w₁) := rfl
    rw [Act.bind_ok hpart] at h
    have hrest : Act.Leaves lastResultKey (do
        d.saveAll scene result (((((d.contentIn w₁.heap).field "post").field "outputs").field "save").items)
        d.recordVisit scene
        World.keep ((((d.contentIn w₁.heap).field "post").field "next").orElse .null)) :=
      .bind (leaves_saveAll result (hd w₁.heap hobeys)) fun _ =>
        .bind (leaves_recordVisit d scene) fun _ => Act.leaves_keep _
    have hend := hrest w₁
    rw [h] at hend
    exact hrecalls.of_leaves hend

/-! ## 4. Looking it up -/

/-- Two actions that come to the same wherever the context holds a last result in its place. -/
def Alike (s : Shared) (last : Datum) (x y : Act World α) : Prop := ∀ w, s.Recalls last w → y w = x w

variable {s : Shared} {last : Datum}

theorem Alike.refl (x : Act World α) : Alike s last x x := fun _ _ => rfl

theorem Alike.bind {x y : Act World α} {f g : α → Act World β} (h : Alike s last x y) (hx : x.Leaves lastResultKey)
    (hfg : ∀ a, Alike s last (f a) (g a)) : Alike s last (x >>= f) (y >>= g) := by
  intro w hw
  have hsame := h w hw
  have hlater := hw.of_leaves (hx w)
  rcases hxw : x w with ⟨r, w'⟩
  rw [hxw] at hsame hlater
  cases r with
  | ok a =>
    rw [Act.bind_ok hxw, Act.bind_ok hsame]
    exact hfg a w' hlater
  | error e => rw [Act.bind_error hxw, Act.bind_error hsame]

theorem Alike.after {x : Act World α} {f g : α → Act World β} (hx : x.Leaves lastResultKey)
    (hfg : ∀ a, Alike s last (f a) (g a)) : Alike s last (x >>= f) (x >>= g) :=
  .bind (.refl x) hx hfg

theorem leaves_priorScope (item : Option Value) : (priorScope scene item).Leaves lastResultKey :=
  .bind (Act.leaves_reads _) fun _ => .bind (Act.leaves_reads _) fun _ => Act.leaves_reads _

/-- To look the last result up comes to the same as to have it handed over. -/
theorem alike_priorScope (item : Option Value) :
    Alike scene.shared last (priorScope scene item) (handedScope scene last item) := by
  intro w hw
  have hheld : held scene lastResultKey w = (.ok last, w) := by
    rw [← hw.eq]
    rfl
  rw [priorScope, Act.bind_ok hheld]
  rfl

theorem leaves_part (name : String) : (d.part name).Leaves lastResultKey :=
  .bind (Act.leaves_reads _) fun _ => Act.leaves_pure _

theorem leaves_modelName (env : Environment) : (d.modelName env scene).Leaves lastResultKey := by
  refine .bind (leaves_part "exec") fun work => .bind (Act.leaves_reads _) fun params => ?_
  rw [Environment.modelName]
  split
  · exact Act.leaves_pure _
  · refine .bind (.bind (Act.leaves_reads _) fun common => ?_) fun common => ?_
    · split
      · exact Act.leaves_reads _
      · exact Act.leaves_fail _
    · split
      · exact Act.leaves_pure _
      · exact .bind (Act.leaves_ofFault _) fun _ => Act.leaves_pure _

variable {env : Environment}

theorem alike_preparePrompt : Alike scene.shared last (d.preparePromptFrom env scene (priorScope scene))
    (d.preparePromptFrom env scene (handedScope scene last)) := by
  refine .after (Act.leaves_ofExcept _) fun model => .after (leaves_part "exec") fun work => ?_
  exact .bind (alike_priorScope none) (leaves_priorScope none) fun scope => .refl _

theorem alike_prepareRequest : Alike scene.shared last (d.prepareRequestFrom env (priorScope scene))
    (d.prepareRequestFrom env (handedScope scene last)) :=
  .after (Act.leaves_ofExcept _) fun _ =>
    .bind (alike_priorScope none) (leaves_priorScope none) fun _ => .refl _

theorem leaves_orders (model : Model) (name template : Value) (items : List Value) :
    (d.ordersFrom (priorScope scene) model name template items).Leaves lastResultKey := by
  induction items with
  | nil => exact Act.leaves_pure _
  | cons item rest ih =>
    refine .bind (leaves_priorScope (some item)) fun scope => .bind (Act.leaves_settle _) fun prompt => ?_
    exact .bind (Act.leaves_keep item) fun kept => .bind ih fun more => Act.leaves_pure _

theorem alike_orders (model : Model) (name template : Value) (items : List Value) :
    Alike scene.shared last (d.ordersFrom (priorScope scene) model name template items)
      (d.ordersFrom (handedScope scene last) model name template items) := by
  -- the context still holds the last result when the next element is prepared
  induction items with
  | nil => exact .refl _
  | cons item rest ih =>
    refine .bind (alike_priorScope (some item)) (leaves_priorScope (some item)) fun scope => ?_
    refine .after (Act.leaves_settle _) fun prompt => .after (Act.leaves_keep item) fun kept => ?_
    exact .bind ih (leaves_orders model name template rest) fun more => .refl _

theorem alike_workOrders : Alike scene.shared last (d.workOrdersFrom env scene (priorScope scene))
    (d.workOrdersFrom env scene (handedScope scene last)) := by
  have hpath : d.inputPath.Leaves lastResultKey := by
    refine .bind (leaves_part "prep") fun prep => ?_
    split <;> exact Act.leaves_pure _
  refine .after hpath fun path => .after (Act.leaves_reads _) fun items => .after (leaves_part "exec") fun work => ?_
  split
  · exact .refl _
  · refine .after (Act.leaves_ofExcept _) fun model => .after (leaves_modelName env) fun name => ?_
    exact alike_orders model name _ items

theorem alike_route : Alike scene.shared last (d.routeFrom scene (priorScope scene))
    (d.routeFrom scene (handedScope scene last)) :=
  .after (leaves_recordVisit d scene) fun _ =>
    .bind (alike_priorScope none) (leaves_priorScope none) fun _ => .refl _

/-- A router leaves the last result in its place. -/
theorem leaves_route (prior : Prior) (hprior : ∀ item, (prior item).Leaves lastResultKey) :
    (d.routeFrom scene prior).Leaves lastResultKey := by
  refine .bind (leaves_recordVisit d scene) fun _ => .bind (hprior none) fun scope => ?_
  refine .bind (leaves_part "exec") fun work => .bind (Act.leaves_ofFault _) fun cases => ?_
  refine .bind ?_ fun label => Act.leaves_keep label
  induction cases with
  | nil => exact Act.leaves_pure _
  | cons c rest ih =>
    rw [firstCase]
    split
    · exact Act.leaves_fail _
    · split
      · exact Act.leaves_pure _
      · refine .bind (Act.leaves_settle _) fun applies => ?_
        split
        · exact Act.leaves_pure _
        · exact ih

end Declared

end NodeFlow
