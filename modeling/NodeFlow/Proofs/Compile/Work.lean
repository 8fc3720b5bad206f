import NodeFlow.Compile.Make
import NodeFlow.Proofs.Compile.Declared
/-!
# The work of the built-in kinds keeps the terms

What each kind prepares, what it does with it, and how it ends; then every way to make a node of a
built-in kind at once. A router is the one kind that ends otherwise than all others, with the label of
a case.
-/

set_option autoImplicit false

universe u

namespace NodeFlow

variable {S : Seal}

namespace Terms

variable {τ : Type} {T : Terms τ} {env : Environment} {d : Declared} {scene : Scene}
  {L : Datum → Prop}

/-! ## 1. Prompts -/

/-- A call that is ready to be made, to a model that keeps the terms. -/
structure SuitsPrompted (T : Terms τ) (p : Prompted) : Prop where
  model : T.Suits p.model
  prompt : p.prompt.Free T.sealed
  name : p.name.Free T.sealed

theorem SuitsPrompted.call {p : Prompted} (hp : T.SuitsPrompted p) :
    T.Keeps p.call (Datum.Free T.sealed) := by
  refine .bind (keeps_call hp.model hp.prompt hp.name) ?_
  intro v hv
  exact keeps_keep hv

theorem SuitsPrompted.callWaiting {p : Prompted} (hp : T.SuitsPrompted p) :
    T.Keeps (p.callWaiting : Coop World Datum Datum) (Datum.Free T.sealed) := by
  refine .bind (keeps_callWaiting hp.model hp.prompt hp.name) ?_
  intro v hv
  exact .perform (keeps_keep hv)

theorem keeps_modelName (henv : T.SuitsAll env) (hd : d.Honors T.sealed L false)
    (hs : scene.Free T.sealed) : T.Keeps (d.modelName env scene) (Value.Free T.sealed) := by
  refine .bind (keeps_work hd) ?_
  intro work hwork
  refine .bind (keeps_view (Datum.free_ref.2 hs.params)) ?_
  intro params hparams
  exact henv.modelName (free_field hwork "model") hparams

theorem free_str (s : String) : (Value.str s).Free S := Value.free_of_isPlain rfl

theorem keeps_preparePrompt (henv : T.SuitsAll env) (hd : d.Honors T.sealed L false)
    (hs : scene.Free T.sealed) : T.Keeps (d.preparePrompt env scene) T.SuitsPrompted := by
  refine .bind (keeps_ofExcept (henv.modelFor d.id)) ?_
  intro model hmodel
  refine .bind (keeps_work hd) ?_
  intro work hwork
  refine .bind (keeps_priorScope hs nofun) ?_
  intro scope _
  refine .bind (keeps_fill (free_fieldOr hwork (free_str _) _)) ?_
  intro prompt hprompt
  exact .bind (keeps_modelName henv hd hs) fun name hname => .pure ⟨hmodel, hprompt, hname⟩

/-! ## 2. Requests -/

theorem keeps_prepareRequest (henv : T.SuitsAll env) (hd : d.Honors T.sealed L false)
    (hs : scene.Free T.sealed) :
    T.Keeps (d.prepareRequest env scene) fun r => T.SuitsClient r.client := by
  refine .bind (keeps_ofExcept (henv.httpFor d.id)) ?_
  intro client hclient
  refine .bind (keeps_priorScope hs nofun) ?_
  intro scope hscope
  refine .bind (keeps_work hd) ?_
  intro work hwork
  refine .bind (keeps_fill (free_fieldOr hwork (free_str _) _)) ?_
  intro url _
  -- the headers and the body are each a part of the work, or empty
  have htemplate : ∀ key, ((work.field key).orElse (.ofMembers [])).fresh.Free T.sealed := by
    intro key
    exact (Value.free_orElse (free_field hwork key) Value.free_nothing).fresh
  refine .bind (keeps_render hscope (htemplate "headers")) ?_
  intro headers _
  exact .bind (keeps_render hscope (htemplate "body")) fun body _ => .pure hclient

theorem keeps_send {r : Request} (hr : T.SuitsClient r.client) :
    T.Keeps r.send (Datum.Free T.sealed) := by
  refine .bind (keeps_fetch hr _ _ _ _) ?_
  intro v hv
  exact keeps_keep hv

/-! ## 3. Data -/

theorem keeps_copyData (hd : d.Honors T.sealed L false) :
    T.Keeps d.copyData (Datum.Free T.sealed) := by
  refine .bind (keeps_work hd) ?_
  intro data hdata
  exact keeps_keep (Value.free_orElse hdata Value.free_nothing).fresh

/-! ## 4. Batches -/

/-- An element of a batch that is ready to be worked on. -/
structure SuitsOrder (T : Terms τ) (o : WorkOrder) : Prop where
  item : o.item.Free T.sealed
  prompted : ∀ p, o.prompted = some p → T.SuitsPrompted p

theorem SuitsOrder.carryOut {o : WorkOrder} (ho : T.SuitsOrder o) :
    T.Keeps o.carryOut (Datum.Free T.sealed) := by
  rw [WorkOrder.carryOut]
  split
  · exact .pure ho.item
  · next p hp => exact (ho.prompted p hp).call

theorem SuitsOrder.carryOutWaiting {o : WorkOrder} (ho : T.SuitsOrder o) :
    T.Keeps (o.carryOutWaiting : Coop World Datum Datum) (Datum.Free T.sealed) := by
  rw [WorkOrder.carryOutWaiting]
  split
  · exact .pure ho.item
  · next p hp => exact (ho.prompted p hp).callWaiting

/-- A property that is a step is free. -/
theorem free_of_attribute {v w : Value} (hv : v.Free S) {key : String}
    (h : (match v.property (.str key) with
      | .ok .undefined => none
      | .ok part => some part
      | .error _ => none) = some w) : w.Free S := by
  split at h
  · cases h
  · next hpart => exact Option.some.inj h ▸ hv.property hpart
  · cases h

theorem free_of_step {v w : Value} (hv : v.Free S) {key : String} (h : v.step key = some w) :
    w.Free S := by
  cases v with
  | dict cell ms => exact (Value.free_dict.1 hv).2 _ (Members.mem_of_get? h)
  | store cell name ms => exact (Value.free_store.1 hv).2 _ (Members.mem_of_get? h)
  | list cell xs =>
    obtain ⟨n, -, hn⟩ := Option.bind_eq_some_iff.1 h
    exact (Value.free_list.1 hv).2 w (Value.mem_of_elementAt hn)
  | bool b => exact free_of_attribute hv h
  | int n => exact free_of_attribute hv h
  | float x => exact free_of_attribute hv h
  | null => cases h
  | undefined => cases h
  | str s => cases h

/-- What stands at the end of a path through something free is free. -/
theorem free_of_at? {v w : Value} (hv : v.Free S) {path : List String} (h : v.at? path = some w) :
    w.Free S := by
  induction path generalizing v with
  | nil => exact Option.some.inj h ▸ hv
  | cons key rest ih =>
    obtain ⟨u, hu, hrest⟩ := Option.bind_eq_some_iff.1 h
    exact ih (free_of_step hv hu) hrest

theorem free_batchItems {o : Option Value} (ho : ∀ v, o = some v → v.Free S) :
    ∀ x ∈ Declared.batchItems o, x.Free S := by
  rw [Declared.batchItems.eq_def]
  split
  · intro x hx
    exact absurd hx List.not_mem_nil
  · intro x hx
    exact absurd hx List.not_mem_nil
  · exact (Value.free_list.1 (ho _ rfl)).2
  · exact List.forall_mem_map.2 (Value.free_dict.1 (ho _ rfl)).2
  · exact List.forall_mem_singleton.2 (ho _ rfl)

theorem keeps_inputPath (d : Declared) : T.Keeps d.inputPath fun _ => True := by
  refine .bind (keeps_part d "prep") ?_
  intro prep _
  split <;> exact .pure trivial

theorem keeps_ordersFor (hs : scene.Free T.sealed) {model : Model} {name template : Value}
    (hmodel : T.Suits model) (hname : name.Free T.sealed) (htemplate : template.Free T.sealed)
    {items : List Value} (hitems : ∀ x ∈ items, x.Free T.sealed) :
    T.Keeps (d.ordersFor scene model name template items) fun os => ∀ o ∈ os, T.SuitsOrder o := by
  induction items with
  | nil => exact .pure fun o ho => absurd ho List.not_mem_nil
  | cons item rest ih =>
    rw [List.forall_mem_cons] at hitems
    refine .bind (keeps_priorScope hs fun _ h => Option.some.inj h ▸ hitems.1) ?_
    intro scope _
    refine .bind (keeps_fill htemplate) ?_
    intro prompt hprompt
    refine .bind (keeps_keep hitems.1) fun kept hkept => .bind (ih hitems.2) ?_
    intro more hmore
    refine .pure (List.forall_mem_cons.2 ⟨⟨hkept, fun p hp => ?_⟩, hmore⟩)
    exact Option.some.inj hp ▸ ⟨hmodel, hprompt, hname⟩

theorem keeps_workOrders (henv : T.SuitsAll env) (hd : d.Honors T.sealed L false)
    (hs : scene.Free T.sealed) :
    T.Keeps (d.workOrders env scene) fun os => ∀ o ∈ os, T.SuitsOrder o := by
  refine .bind (keeps_inputPath d) ?_
  intro path _
  refine .bind (P := fun xs => ∀ x ∈ xs, x.Free T.sealed) (keeps_reads fun w hw => ?_)
    fun items hitems => .bind (keeps_work hd) fun work hwork => ?_
  · exact free_batchItems fun v hv => free_of_at? (hw.view (Datum.free_ref.2 hs.data)) hv
  · -- without a prompt the items are the results, with one each is an order to the model
    split
    · refine .bind (Duty.keeps_eachOf (D := T.duty) fun x hx => keeps_keep (hitems x hx)) ?_
      intro kept hkept
      exact .pure (List.forall_mem_map.2 fun d hd => ⟨hkept d hd, nofun⟩)
    · refine .bind (keeps_ofExcept (henv.modelFor d.id)) ?_
      intro model hmodel
      refine .bind (keeps_modelName henv hd hs) ?_
      intro name hname
      exact keeps_ordersFor hs hmodel hname (free_field hwork "prompt") hitems

/-! ## 5. Cases -/

/-- The first case that holds is one of the cases, if any holds. -/
theorem keeps_firstCase (scope : Scope) (cases : List Value) :
    T.Keeps (d.firstCase scope cases) fun v => v = .null ∨ ∃ c ∈ cases, v = c.field "label" := by
  induction cases with
  | nil => exact .pure (Or.inl rfl)
  | cons c rest ih =>
    rw [Declared.firstCase]
    split
    · exact keeps_fault
    · split
      · exact .pure (Or.inr ⟨c, List.mem_cons_self, rfl⟩)
      · refine .bind (keeps_settle (P := fun _ => True) fun _ _ => trivial) ?_
        intro applies _
        split
        · exact .pure (Or.inr ⟨c, List.mem_cons_self, rfl⟩)
        · refine ih.mono fun v hv => hv.imp_right ?_
          rintro ⟨c', hc', h⟩
          exact ⟨c', List.mem_cons_of_mem _ hc', h⟩

theorem labels_null (hnone : L .null) : Value.null.Labels T.sealed L :=
  ⟨Value.free_of_isPlain rfl, fun _ => hnone⟩

theorem keeps_route (hd : d.Honors T.sealed L true) (hs : scene.Free T.sealed) :
    T.Keeps (d.route scene) L := by
  refine .bind (keeps_recordVisit hs) ?_
  intro _ _
  refine .bind (keeps_priorScope hs nofun) ?_
  intro scope _
  refine .bind (keeps_part d "exec") ?_
  intro work hwork
  obtain ⟨h, hh, rfl⟩ := hwork
  refine .bind (P := fun cs => ∀ c ∈ cs, (c.field "label").Labels T.sealed L)
    (keeps_ofFault fun cs hcs => hd.cases rfl h hh cs hcs) fun cases hcases => ?_
  refine .bind (keeps_firstCase scope cases) ?_
  intro label hlabel
  rcases hlabel with rfl | ⟨c, hc, rfl⟩
  · exact keeps_label (labels_null (hd.none rfl))
  · exact keeps_label (hcases c hc)

/-! ## 6. Every kind -/

/-- A conduct that is no walk and keeps the terms in every scene. -/
def KeepsConduct (T : Terms τ) (L : Datum → Prop) : Conduct → Prop
  | .blocking visit => ∀ scene, scene.Free T.sealed → T.Keeps (visit scene) L
  | .cooperative visit => ∀ scene, scene.Free T.sealed → T.Keeps (visit scene) L
  | .flow _ _ | .cooperativeFlow _ _ => False

theorem keepsConduct_single {α : Type} {P : α → Prop} {title kind : String} {routes : Bool}
    {prep : Environment → Declared → Scene → Act World α}
    {exec : Environment → Declared → α → Act World Datum}
    {post : Declared → Scene → Datum → Act World Datum} (hd : d.Honors T.sealed L routes)
    (hprep : ∀ scene, scene.Free T.sealed → T.Keeps (prep env d scene) P)
    (hexec : ∀ a, P a → T.Keeps (exec env d a) (Datum.Free T.sealed))
    (hpost : ∀ scene r, scene.Free T.sealed → r.Free T.sealed → T.Keeps (post d scene r) L)
    (policy : RetryPolicy) (number : Nat) :
    T.KeepsConduct L ((Make.single title kind prep exec post).conduct env d policy number) := by
  intro scene hs
  have hstages := holds_stages (hprep scene hs) hexec fun r hr => hpost scene r hs hr
  exact keeps_guarded hd hs hstages.once

theorem holds_orders {m : Type → Type u} [Performs World m] [Reasoned World Datum m]
    {exec : WorkOrder → m Datum} (henv : T.SuitsAll env) (hd : d.Honors T.sealed L false)
    (hs : scene.Free T.sealed)
    (hexec : ∀ o, T.SuitsOrder o → T.Keeps (exec o) (Datum.Free T.sealed)) :
    T.Holds (Declared.stages (d.workOrders env scene) exec (d.finish scene) :
      Stages m (List WorkOrder) WorkOrder) (fun os => ∀ o ∈ os, T.SuitsOrder o) T.SuitsOrder L :=
  holds_stages (keeps_workOrders henv hd hs) hexec fun _ hr => keeps_finish hd hs hr

/-- Whatever way a node of a built-in kind is made, its visits keep the terms and end with a label as
it has to be. -/
theorem keepsConduct_ofKind (henv : T.SuitsAll env) (modelWaits : Bool) (k : Kind)
    (hd : d.Honors T.sealed L (k == .router)) (policy : RetryPolicy) (number : Nat) :
    T.KeepsConduct L ((Make.ofKind modelWaits k).conduct env d policy number) := by
  -- two kinds make it: the cooperative one, and the other that calls a model if the model waits
  have hcooperative : ∀ (_ : d.Honors T.sealed L false),
      T.KeepsConduct L (Make.cooperative.conduct env d policy number) := by
    intro hd scene hs
    have hstages : T.Holds (Declared.stages (d.preparePrompt env scene) Prompted.callWaiting
        (d.finish scene) : Stages (Coop World Datum) Prompted Prompted)
        T.SuitsPrompted T.SuitsPrompted L :=
      holds_stages (keeps_preparePrompt henv hd hs) (fun _ hp => hp.callWaiting)
        fun _ hr => keeps_finish hd hs hr
    exact keeps_guarded hd hs hstages.once
  cases k with
  | router =>
    exact keepsConduct_single (P := fun _ => True) hd (fun _ _ => .pure trivial)
      (fun _ _ => .pure Datum.free_null) (fun _ _ hs _ => keeps_route hd hs) policy number
  | httpCall =>
    exact keepsConduct_single hd (fun _ hs => keeps_prepareRequest henv hd hs)
      (fun _ hr => keeps_send hr) (fun _ _ hs hr => keeps_finish hd hs hr) policy number
  | staticData =>
    exact keepsConduct_single (P := fun _ => True) hd (fun _ _ => .pure trivial)
      (fun _ _ => keeps_copyData hd) (fun _ _ hs hr => keeps_finish hd hs hr) policy number
  | llmCall =>
    cases modelWaits with
    | true => exact hcooperative hd
    | false =>
      exact keepsConduct_single hd (fun _ hs => keeps_preparePrompt henv hd hs)
        (fun _ hp => hp.call) (fun _ _ hs hr => keeps_finish hd hs hr) policy number
  | cooperative => exact hcooperative hd
  | batch =>
    cases modelWaits with
    | true =>
      intro scene hs
      have hstages := holds_orders (m := Coop World Datum) henv hd hs fun _ ho => ho.carryOutWaiting
      exact keeps_guarded hd hs (hstages.inOrder fun _ ho => .pure ho)
    | false =>
      intro scene hs
      have hstages := holds_orders (m := Act World) henv hd hs fun _ ho => ho.carryOut
      exact keeps_guarded hd hs (hstages.inOrder fun _ ho => .pure ho)
  | cooperativeParallel =>
    intro scene hs
    have hstages := holds_orders (m := Coop World Datum) henv hd hs fun _ ho => ho.carryOutWaiting
    exact keeps_guarded hd hs (hstages.together fun _ ho => .pure ho)

end Terms

end NodeFlow
