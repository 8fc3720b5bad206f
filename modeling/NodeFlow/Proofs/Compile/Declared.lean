import NodeFlow.Compile.Declared
import NodeFlow.Compile.Work
import NodeFlow.Proofs.Collaborator.Terms
import NodeFlow.Proofs.Description.Marks
import NodeFlow.Proofs.Run.Stages
/-!
# What declared nodes have in common keeps the terms

A visit reads the declaration anew, so what it ends with depends on memory: that of the declaration has
to be as it was declared. `Honors` says what is asked of it, for every memory that the terms allow: the
parts that are handed on are free, and the labels that the node may end with are labels as they have to
be.
-/

set_option autoImplicit false

universe u

namespace NodeFlow

variable {S : Seal}

/-- A scene in free memory. -/
structure Scene.Free (S : Seal) (scene : Scene) : Prop where
  data : S scene.shared.data = none
  params : S scene.params = none

/-- A value that may be handed on as a label. -/
structure Value.Labels (S : Seal) (L : Datum → Prop) (v : Value) : Prop where
  free : v.Free S
  kept : ∀ h : Heap, L (h.keep v).1

/-- The declaration as memory has it. -/
def Declared.contentIn (d : Declared) (h : Heap) : Value := h.view (.ref d.content)

/-- What is asked of a declaration in every possible memory. A router hands on the labels of its cases,
any other node what it names as its next label and parts of its work. -/
structure Declared.Honors (d : Declared) (S : Seal) (L : Datum → Prop) (routes : Bool) : Prop where
  exit : ∀ g, d.guard = some g → L (.str g.exit)
  next : routes = false → ∀ h : Heap, h.Obeys S →
    ((((d.contentIn h).field "post").field "next").orElse .null).Labels S L
  saves : routes = false → ∀ h : Heap, h.Obeys S → ((d.contentIn h).field "post").fresh.Free S
  work : routes = false → ∀ h : Heap, h.Obeys S → ((d.contentIn h).field "exec").Free S
  cases : routes = true → ∀ h : Heap, h.Obeys S → ∀ cs,
    Declared.casesOf (((d.contentIn h).field "exec").field "cases") = .ok cs →
    ∀ c ∈ cs, (c.field "label").Labels S L
  none : routes = true → L .null

namespace Terms

variable {τ : Type} {T : Terms τ} {d : Declared} {scene : Scene} {L : Datum → Prop}

theorem keeps_label {v : Value} (hv : v.Labels T.sealed L) : T.Keeps (World.keep v) L :=
  .of_forall fun w hw => ⟨(hw.keep hv.free).2, rfl, hv.kept w.heap⟩

/-! ## 1. Templates -/

/-- A part of the declaration is one in some memory that the terms allow. -/
theorem keeps_part (d : Declared) (name : String) :
    T.Keeps (d.part name) fun v =>
      ∃ h : Heap, h.Obeys T.sealed ∧ v = (d.contentIn h).field name := by
  refine .bind (P := fun v => ∃ h : Heap, h.Obeys T.sealed ∧ v = d.contentIn h)
    (keeps_reads fun w hw => ⟨w.heap, hw, rfl⟩) fun v hv => ?_
  obtain ⟨h, hh, rfl⟩ := hv
  exact .pure ⟨h, hh, rfl⟩

theorem keeps_work (hd : d.Honors T.sealed L false) :
    T.Keeps (d.part "exec") (Value.Free T.sealed) :=
  (keeps_part d "exec").mono fun _ ⟨h, hh, hv⟩ => hv ▸ hd.work rfl h hh

theorem keeps_scopeWith (hs : scene.Free T.sealed) {result : Value} {exec item : Option Value}
    (hresult : result.Free T.sealed) (hexec : ∀ v, exec = some v → v.Free T.sealed)
    (hitem : ∀ v, item = some v → v.Free T.sealed) :
    T.Keeps (Declared.scopeWith scene result exec item) (Scope.Free T.sealed) :=
  keeps_reads fun _ hw => ⟨hw.view (Shared.free_datum hs.data), hresult, hexec, hitem,
    hw.view (Datum.free_ref.2 hs.params)⟩

theorem keeps_held (hs : scene.Free T.sealed) (key : String) :
    T.Keeps (Declared.held scene key) (Datum.Free T.sealed) :=
  keeps_reads fun _ hw => Members.forall_getD (hw.membersAt hs.data) Datum.free_null key

theorem keeps_priorScope (hs : scene.Free T.sealed) {item : Option Value}
    (hitem : ∀ v, item = some v → v.Free T.sealed) :
    T.Keeps (Declared.priorScope scene item) (Scope.Free T.sealed) := by
  refine .bind (keeps_held hs _) fun last hlast => .bind (keeps_view hlast) ?_
  intro v hv
  exact keeps_scopeWith hs hv nofun hitem

theorem keeps_resultScope (hs : scene.Free T.sealed) {result : Datum}
    (hresult : result.Free T.sealed) :
    T.Keeps (Declared.resultScope scene result) (Scope.Free T.sealed) := by
  refine .bind (keeps_view hresult) ?_
  intro v hv
  exact keeps_scopeWith hs hv (fun _ h => Option.some.inj h ▸ hv) nofun

theorem keeps_fill {scope : Scope} {template : Value} (ht : template.Free T.sealed) :
    T.Keeps (d.fill scope template) (Value.Free T.sealed) :=
  keeps_settle fun _ h => Template.free_of_interpolate ht h

theorem keeps_render {scope : Scope} (hs : scope.Free T.sealed) {template : Value}
    (ht : template.fresh.Free T.sealed) :
    T.Keeps (d.render scope template) (Value.Free T.sealed) :=
  keeps_settle fun _ h => Template.free_of_render hs ht h

/-! ## 2. The loop guard -/

theorem keeps_visits (hs : scene.Free T.sealed) : T.Keeps (d.visits scene) fun _ => True := by
  refine .bind (keeps_held hs _) fun held hheld => .bind (keeps_view hheld) ?_
  intro v _
  split
  · exact .pure trivial
  · exact .pure trivial
  · split
    · exact keeps_fault
    · exact .pure trivial

/-- The label of a visit that the guard keeps from running is that of the guard. -/
theorem keeps_guardExit? (hs : scene.Free T.sealed) :
    T.Keeps (d.guardExit? scene) fun o => ∀ label, o = some label →
      ∃ g, d.guard = some g ∧ label = g.exit := by
  rw [Declared.guardExit?]
  split
  · exact .pure nofun
  · next g hg =>
    refine .bind (keeps_visits hs) ?_
    intro v _
    refine .bind (keeps_faultable _) ?_
    intro run _
    split
    · exact .pure nofun
    · exact .bind (keeps_note _) fun _ _ =>
        .pure fun label h => ⟨g, hg, (Option.some.inj h).symm⟩

theorem free_of_plus_one {v w : Value} (h : v.plus (.int 1) = .ok w) : w.Free S := by
  have hplain : ∀ n : Number, n.value.isPlain = true := fun n => by cases n <;> rfl
  rw [Value.plus.eq_def] at h
  split at h
  · exact Except.ok.inj h ▸ Value.free_of_isPlain rfl
  · cases ‹Value.int 1 = Value.list _ _›
  · cases h
  · cases h
  · split at h
    · rw [Value.ofNumber.eq_def] at h
      split at h
      · exact Except.ok.inj h ▸ Value.free_of_isPlain (hplain _)
      · cases h
    · cases h

theorem keeps_recordVisit (hs : scene.Free T.sealed) :
    T.Keeps (d.recordVisit scene) fun _ => True := by
  rw [Declared.recordVisit]
  split
  · exact .pure trivial
  · refine .bind (keeps_held hs _) fun held hheld => .bind (keeps_membersOf hheld) ?_
    intro counts hcounts
    have hcount : ((Members.get? counts d.id).getD (.int 0)).Free T.sealed :=
      Members.forall_getD hcounts (fun _ ha => absurd ha List.not_mem_nil) d.id
    refine .bind (keeps_view hcount) ?_
    intro before _
    refine .bind (P := Value.Free T.sealed) (keeps_ofOperands fun _ h => free_of_plus_one h) ?_
    intro sum hsum
    refine .bind (keeps_keep hsum) ?_
    intro count hcount
    -- the counts are copied, and the copy is kept under their name
    have hnew := Cell.free_dict.2 (Members.forall_put hcounts d.id hcount)
    refine .bind (keeps_alloc hnew) ?_
    intro new hnew
    exact keeps_onShared fun l hl => Shared.obeys_set hs.data hnew hl _

/-! ## 3. Finishing -/

theorem free_items {v : Value} (hv : v.Free S) : ∀ x ∈ v.items, x.Free S := by
  cases v with
  | list cell xs => exact (Value.free_list.1 hv).2
  | _ => exact fun x hx => absurd hx List.not_mem_nil

theorem free_fieldOr {v other : Value} (hv : v.Free S) (hother : other.Free S) (key : String) :
    (Description.fieldOr v key other).Free S := by
  cases v with
  | dict cell ms => exact Members.forall_getD (Value.free_dict.1 hv).2 hother key
  | _ => exact hother

theorem fieldOr_fresh (v other : Value) (key : String) :
    Description.fieldOr v.fresh key other.fresh = (Description.fieldOr v key other).fresh := by
  rw [Description.fieldOr, Description.fieldOr, Value.get?_members_fresh]
  cases Members.get? v.members key <;> rfl

theorem keeps_saveAll (hs : scene.Free T.sealed) {result : Datum} (hresult : result.Free T.sealed)
    {saves : List Value} (hsaves : ∀ s ∈ saves, s.fresh.Free T.sealed) :
    T.Keeps (d.saveAll scene result saves) fun _ => True := by
  induction saves with
  | nil => exact .pure trivial
  | cons save rest ih =>
    rw [List.forall_mem_cons] at hsaves
    -- the value of an entry stands under one of two names, and both lie in the entry
    have htemplate :
        (Description.fieldOr save "value" (save.field "valueTemplate")).fresh.Free T.sealed := by
      rw [← fieldOr_fresh, ← Value.field_fresh]
      exact free_fieldOr hsaves.1 (free_field hsaves.1 _) _
    refine .bind (keeps_resultScope hs hresult) ?_
    intro scope hscope
    refine .bind (keeps_render hscope htemplate) fun v hv => .bind (keeps_keep hv) ?_
    intro kept hkept
    dsimp only
    split
    · exact .bind (keeps_onShared fun l hl => Shared.obeys_setPath hs.data hkept hl _) fun _ _ =>
        ih hsaves.2
    · exact .bind (P := fun _ => False) keeps_fault fun _ h => h.elim

/-- The end of a visit: its label is what the node names as its next one. -/
theorem keeps_finish (hd : d.Honors T.sealed L false) (hs : scene.Free T.sealed) {result : Datum}
    (hresult : result.Free T.sealed) : T.Keeps (d.finish scene result) L := by
  refine .bind (keeps_onShared fun l hl => Shared.obeys_set hs.data hresult hl _) ?_
  intro _ _
  refine .bind (keeps_part d "post") ?_
  intro post hpost
  obtain ⟨h, hh, rfl⟩ := hpost
  -- the entries are rendered without the marks of the declaration, so those are not asked about
  have hsaves : ∀ s ∈ ((((d.contentIn h).field "post").field "outputs").field "save").items,
      s.fresh.Free T.sealed := by
    have hfresh := free_field (free_field (hd.saves rfl h hh) "outputs") "save"
    rw [Value.field_fresh, Value.field_fresh] at hfresh
    have hitems := free_items hfresh
    rwa [Value.items_fresh, List.forall_mem_map] at hitems
  refine .bind (keeps_saveAll hs hresult hsaves) ?_
  intro _ _
  exact .bind (keeps_recordVisit hs) fun _ _ => keeps_label (hd.next rfl h hh)

/-! ## 4. Visits -/

section

variable {m : Type → Type u} [Performs World m] [Reasoned World Datum m]

theorem keeps_guarded {routes : Bool} (hd : d.Honors T.sealed L routes) (hs : scene.Free T.sealed)
    {visit : m Datum} (hvisit : T.Keeps visit L) : T.Keeps (d.guarded scene visit) L := by
  refine .bind (Keeps.perform (keeps_guardExit? hs)) ?_
  intro o ho
  cases o with
  | none => exact hvisit
  | some label =>
    obtain ⟨g, hg, rfl⟩ := ho label rfl
    exact .pure (hd.exit g hg)

theorem holds_stages {α β : Type} {P : α → Prop} {Q : β → Prop} {prep : Act World α}
    {exec : β → m Datum} {post : Datum → Act World Datum} (hprep : T.Keeps prep P)
    (hexec : ∀ b, Q b → T.Keeps (exec b) (Datum.Free T.sealed))
    (hpost : ∀ r, r.Free T.sealed → T.Keeps (post r) L) :
    T.Holds (Declared.stages prep exec post : Stages m α β) P Q L where
  prep := .perform hprep
  exec := hexec
  fallback _ _ _ he := .throw he
  post _ d _ hd := .perform (hpost d hd)

end

end Terms

end NodeFlow
