import NodeFlow.Compile.Make
import NodeFlow.Proofs.Collaborator.Terms
import NodeFlow.Proofs.Compile.Watch
import NodeFlow.Proofs.Memory.Seal
import NodeFlow.Template.Render
/-!
# The work of declared nodes is calm

Filling a template tells of placeholders that could not be evaluated, and deciding a condition of a
condition that could not be; both tell of nothing else. So whoever looks for other diagnostics can overlook
all that templates do.

Whatever a node prepares and whomever it calls, nothing of it is seen, and the counts of the watched context
stay as they are. Only the failures of collaborators are not known, so they are asked about: a collaborator
suits a watch if it fails as the watch allows.
-/

set_option autoImplicit false

namespace NodeFlow

/-! ## 1. What is told of templates -/

/-- All diagnostics on the way to a result have one code. -/
def Noted.Tells {α : Type} (x : Noted α) (code : String) : Prop := ∀ d ∈ x.notes, d.code = code

namespace Noted

variable {α β : Type} {code : String}

theorem tells_nil (r : Except Fault α) : (Noted.mk r []).Tells code :=
  fun _ hd => absurd hd List.not_mem_nil

theorem Tells.bind {x : Noted α} {f : α → Noted β} (hx : x.Tells code)
    (hf : ∀ a, (f a).Tells code) : (x.bind f).Tells code := by
  rw [Noted.bind]
  split
  · next a _ => exact List.forall_mem_append.2 ⟨hx, hf a⟩
  · exact hx

theorem Tells.map {x : Noted α} (hx : x.Tells code) (f : α → β) : (x.map f).Tells code := hx

end Noted

namespace Template

variable (scope : Scope) (node : String)

theorem tells_fill (p : Piece) : (fill scope node p).Tells Diagnostic.evaluationFailed := by
  cases p with
  | plain c => exact Noted.tells_nil _
  | hole body =>
    rw [fill]
    dsimp only
    split
    · exact Noted.tells_nil _
    · exact Noted.tells_nil _
    · exact List.forall_mem_singleton.2 rfl

theorem tells_fillText (s : String) : (fillText scope node s).Tells Diagnostic.evaluationFailed := by
  refine Noted.Tells.map ?_ _
  induction pieces s.toList with
  | nil => exact Noted.tells_nil _
  | cons p ps ih => exact (tells_fill scope node p).bind fun _ => ih.map _

theorem tells_interpolate (t : Value) :
    (interpolate scope node t).Tells Diagnostic.evaluationFailed := by
  rw [interpolate.eq_def]
  split
  · exact (tells_fillText scope node _).map _
  · exact Noted.tells_nil _

theorem tells_renderText (s : String) :
    (renderText scope node s).Tells Diagnostic.evaluationFailed := by
  rw [renderText]
  split
  · dsimp only
    split
    · exact Noted.tells_nil _
    · exact Noted.tells_nil _
    · exact Noted.tells_nil _
    · exact List.forall_mem_singleton.2 rfl
  · exact (tells_fillText scope node s).map _

theorem tells_renderItems {xs : List Value}
    (hxs : ∀ x ∈ xs, (render scope node x).Tells Diagnostic.evaluationFailed) :
    (renderItems scope node xs).Tells Diagnostic.evaluationFailed := by
  induction xs with
  | nil => exact Noted.tells_nil _
  | cons x xs ih =>
    rw [List.forall_mem_cons] at hxs
    rw [renderItems]
    exact hxs.1.bind fun _ => (ih hxs.2).map _

theorem tells_renderMembers {ms : List (String × Value)}
    (hms : ∀ m ∈ ms, (render scope node m.2).Tells Diagnostic.evaluationFailed) :
    (renderMembers scope node ms).Tells Diagnostic.evaluationFailed := by
  induction ms with
  | nil => exact Noted.tells_nil _
  | cons m ms ih =>
    rw [List.forall_mem_cons] at hms
    rw [renderMembers]
    exact hms.1.bind fun _ => (ih hms.2).map _

theorem tells_render (t : Value) : (render scope node t).Tells Diagnostic.evaluationFailed := by
  induction t using Value.induction with
  | plain t hp =>
    cases t with
    | str s =>
      rw [render]
      exact tells_renderText scope node s
    | list => cases hp
    | dict => cases hp
    | store => cases hp
    | _ => exact Noted.tells_nil _
  | list cell xs ih =>
    rw [render]
    exact (tells_renderItems scope node ih).map _
  | dict cell ms ih =>
    rw [render]
    exact (tells_renderMembers scope node ih).map _
  | store cell name ms _ => exact Noted.tells_nil _

theorem tells_condition (t : Value) : (condition scope node t).Tells Diagnostic.conditionFailed := by
  rw [condition.eq_def]
  split
  · exact Noted.tells_nil _
  · split
    · exact Noted.tells_nil _
    · exact Noted.tells_nil _
    · exact List.forall_mem_singleton.2 rfl

end Template

end NodeFlow

universe u

namespace NodeFlow.Watch

variable {W : Watch}

/-! ## 2. Collaborators -/

/-- A model fails as the watch allows. -/
def Suits (W : Watch) (m : Model) : Prop :=
  ∀ n prompt name e, m.answer n prompt name = .error e → W.fails e

/-- So does an HTTP collaborator; a session has only failures of its own. -/
def SuitsClient (W : Watch) : HttpClient → Prop
  | .given answer => ∀ n e, answer n = .error e → W.fails e
  | .session _ => True

/-- So do all collaborators of an environment. -/
structure SuitsAll (W : Watch) (env : Environment) : Prop where
  model : ∀ m, env.model = some m → W.Suits m
  http : ∀ c, env.http = some c → W.SuitsClient c

/-- If every failure is allowed, they do. -/
theorem SuitsAll.of_all {env : Environment} (h : ∀ e, W.fails e) : W.SuitsAll env where
  model _ _ _ _ _ e _ := h e
  http client _ := by
    cases client with
    | given answer => exact fun _ e _ => h e
    | session client => trivial

theorem ends_of_error {α : Type} {x : Except Failure α} (hx : ∀ e, x = .error e → W.fails e) :
    Ends W.fails (fun _ => True) x := by
  cases x with
  | ok a => trivial
  | error e => exact hx e rfl

theorem ends_of_normalize (r : Reply) : Ends W.fails (fun _ => True) r.normalize := by
  have hfree : r.Free fun _ => none := by
    cases r with
    | value v => exact fun _ _ => rfl
    | response attributes => exact fun _ _ _ _ => rfl
  exact (Terms.ends_of_normalize (fun _ => W.fails_of_ne _ (by simp)) (fun _ => W.fails_of_ne _ (by simp)) hfree).mono
    fun _ _ => trivial

theorem calm_respond {m : Model} (hm : W.Suits m) (prompt name : Value) :
    W.Calm (m.respond prompt name) fun _ => True := by
  refine .bind (calm_log rfl) fun _ _ => .bind (calm_countCall _) ?_
  intro n _
  refine .bind (calm_ofExcept (ends_of_error (hm n prompt name))) ?_
  intro r _
  exact calm_ofExcept (ends_of_normalize r)

theorem calm_call {m : Model} (hm : W.Suits m) (prompt name : Value) :
    W.Calm (m.call prompt name) fun _ => True := by
  rw [Model.call]
  split
  · exact calm_respond hm prompt name
  · exact calm_fail (by simp)

theorem calm_callWaiting {m : Model} (hm : W.Suits m) (prompt name : Value) :
    W.Calm (m.callWaiting prompt name : Coop World Datum Value) fun _ => True := by
  have hturns : W.Calm (Coop.turns (if m.calling = .direct then 0 else m.turns prompt) :
      Coop World Datum Unit) fun _ => True := Coop.meets_turns _ trivial
  exact .bind hturns fun _ _ => .perform (calm_respond hm prompt name)

theorem calm_fetch {c : HttpClient} (hc : W.SuitsClient c) (url method headers body : Value) :
    W.Calm (c.fetch url method headers body) fun _ => True := by
  cases c with
  | given answer =>
    refine .bind (calm_log rfl) fun _ _ => .bind (calm_countCall _) ?_
    intro n _
    exact calm_ofExcept (ends_of_error (hc n))
  | session client =>
    refine .bind (Duty.keeps_faultable _) ?_
    intro method' _
    refine .bind (calm_log rfl) fun _ _ => .bind (calm_countCall _) ?_
    intro n _
    split
    · exact calm_fail nofun
    · exact .pure trivial

variable {env : Environment}

theorem SuitsAll.modelFor (henv : W.SuitsAll env) (node : String) :
    Ends W.fails W.Suits (env.modelFor node) := by
  rw [Environment.modelFor]
  cases hmodel : env.model with
  | none => exact W.fails_of_ne _ (by simp)
  | some m => exact henv.model m hmodel

theorem SuitsAll.httpFor (henv : W.SuitsAll env) (node : String) :
    Ends W.fails W.SuitsClient (env.httpFor node) := by
  rw [Environment.httpFor]
  split
  · next client hclient => exact henv.http client hclient
  · split
    · trivial
    · exact W.fails_of_ne _ (by simp)
  · exact W.fails_of_ne _ (by simp)

theorem calm_commonModelName (env : Environment) : W.Calm env.commonModelName fun _ => True := by
  refine .bind (P := fun _ => True) (calm_reads fun _ _ => trivial) ?_
  intro o _
  split
  · exact calm_view _
  · exact Duty.keeps_fault

theorem calm_environmentModelName (env : Environment) (declared params : Value) :
    W.Calm (env.modelName declared params) fun _ => True := by
  rw [Environment.modelName]
  split
  · exact .pure trivial
  · refine .bind (calm_commonModelName env) ?_
    intro common _
    split
    · exact .pure trivial
    · exact .bind (Duty.keeps_faultable _) fun _ _ => .pure trivial

/-! ## 3. Templates -/

variable (d : Declared) (scene : Scene)

theorem calm_part (name : String) : W.Calm (d.part name) fun _ => True :=
  .bind (calm_view _) fun _ _ => .pure trivial

theorem calm_priorScope (item : Option Value) : W.Calm (Declared.priorScope scene item) fun _ => True := by
  refine .bind (P := fun _ => True) (calm_reads fun _ _ => trivial) fun last _ => .bind (calm_view last) ?_
  intro v _
  exact calm_reads fun _ _ => trivial

theorem calm_resultScope (result : Datum) :
    W.Calm (Declared.resultScope scene result) fun _ => True := by
  refine .bind (calm_view result) ?_
  intro v _
  exact calm_reads fun _ _ => trivial

theorem ne_loopGuard {α : Type} {x : Noted α} {code : String} (hx : x.Tells code)
    (hcode : code ≠ Diagnostic.loopGuard) : ∀ d ∈ x.notes, d.code ≠ Diagnostic.loopGuard :=
  fun d hd h => hcode ((hx d hd).symm.trans h)

theorem calm_fill (scope : Scope) (template : Value) :
    W.Calm (d.fill scope template) fun _ => True :=
  calm_settle (ne_loopGuard (Template.tells_interpolate scope d.id template) (by decide))

theorem calm_render (scope : Scope) (template : Value) :
    W.Calm (d.render scope template) fun _ => True :=
  calm_settle (ne_loopGuard (Template.tells_render scope d.id template) (by decide))

/-! ## 4. Prompts and requests -/

theorem calm_modelName (env : Environment) : W.Calm (d.modelName env scene) fun _ => True := by
  refine .bind (calm_part d "exec") fun work _ => .bind (calm_view _) ?_
  intro params _
  exact calm_environmentModelName env _ _

variable {d scene}

theorem calm_preparePrompt (henv : W.SuitsAll env) :
    W.Calm (d.preparePrompt env scene) fun p => W.Suits p.model := by
  refine .bind (calm_ofExcept (henv.modelFor d.id)) ?_
  intro model hmodel
  refine .bind (calm_part d "exec") fun work _ => .bind (calm_priorScope scene none) ?_
  intro scope _
  refine .bind (calm_fill d scope _) fun prompt _ => .bind (calm_modelName d scene env) ?_
  intro name _
  exact .pure hmodel

theorem calm_promptedCall {p : Prompted} (hp : W.Suits p.model) : W.Calm p.call fun _ => True :=
  .bind (calm_call hp _ _) fun v _ => calm_keep v

theorem calm_promptedCallWaiting {p : Prompted} (hp : W.Suits p.model) :
    W.Calm (p.callWaiting : Coop World Datum Datum) fun _ => True :=
  .bind (calm_callWaiting hp _ _) fun v _ => .perform (calm_keep v)

theorem calm_prepareRequest (henv : W.SuitsAll env) :
    W.Calm (d.prepareRequest env scene) fun r => W.SuitsClient r.client := by
  refine .bind (calm_ofExcept (henv.httpFor d.id)) ?_
  intro client hclient
  refine .bind (calm_priorScope scene none) fun scope _ => .bind (calm_part d "exec") ?_
  intro work _
  refine .bind (calm_fill d scope _) fun url _ => .bind (calm_render d scope _) ?_
  intro headers _
  exact .bind (calm_render d scope _) fun body _ => .pure hclient

theorem calm_send {r : Request} (hr : W.SuitsClient r.client) : W.Calm r.send fun _ => True :=
  .bind (calm_fetch hr _ _ _ _) fun v _ => calm_keep v

theorem calm_copyData : W.Calm d.copyData fun _ => True :=
  .bind (calm_part d "exec") fun _ _ => calm_keep _

/-! ## 5. Batches -/

/-- An order to a model that suits the watch, or to none. -/
def SuitsOrder (W : Watch) (o : WorkOrder) : Prop := ∀ p, o.prompted = some p → W.Suits p.model

theorem calm_carryOut {o : WorkOrder} (ho : W.SuitsOrder o) : W.Calm o.carryOut fun _ => True := by
  rw [WorkOrder.carryOut]
  split
  · exact .pure trivial
  · next p hp => exact calm_promptedCall (ho p hp)

theorem calm_carryOutWaiting {o : WorkOrder} (ho : W.SuitsOrder o) :
    W.Calm (o.carryOutWaiting : Coop World Datum Datum) fun _ => True := by
  rw [WorkOrder.carryOutWaiting]
  split
  · exact .pure trivial
  · next p hp => exact calm_promptedCallWaiting (ho p hp)

theorem calm_inputPath : W.Calm d.inputPath fun _ => True := by
  refine .bind (calm_part d "prep") ?_
  intro prep _
  split <;> exact .pure trivial

theorem calm_ordersFor {model : Model} (hmodel : W.Suits model) (name template : Value)
    (items : List Value) :
    W.Calm (d.ordersFor scene model name template items) fun os => ∀ o ∈ os, W.SuitsOrder o := by
  induction items with
  | nil => exact .pure fun o ho => absurd ho List.not_mem_nil
  | cons item rest ih =>
    refine .bind (calm_priorScope scene _) fun scope _ => .bind (calm_fill d scope template) ?_
    intro prompt _
    refine .bind (calm_keep item) fun kept _ => .bind ih ?_
    intro more hmore
    exact .pure (List.forall_mem_cons.2 ⟨fun p hp => Option.some.inj hp ▸ hmodel, hmore⟩)

theorem calm_workOrders (henv : W.SuitsAll env) :
    W.Calm (d.workOrders env scene) fun os => ∀ o ∈ os, W.SuitsOrder o := by
  refine .bind calm_inputPath ?_
  intro path _
  refine .bind (P := fun _ => True) (calm_reads fun _ _ => trivial) fun items _ =>
    .bind (calm_part d "exec") fun work _ => ?_
  split
  · refine .bind (Duty.keeps_eachOf (D := W.duty) (Q := fun _ => True) fun x _ => calm_keep x) ?_
    intro kept _
    exact .pure (List.forall_mem_map.2 fun d _ => nofun)
  · refine .bind (calm_ofExcept (henv.modelFor d.id)) ?_
    intro model hmodel
    refine .bind (calm_modelName d scene env) ?_
    intro name _
    exact calm_ordersFor hmodel name _ items

/-! ## 6. Cases -/

theorem calm_firstCase (scope : Scope) (cases : List Value) :
    W.Calm (d.firstCase scope cases) fun _ => True := by
  induction cases with
  | nil => exact .pure trivial
  | cons c rest ih =>
    rw [Declared.firstCase]
    split
    · exact Duty.keeps_fault
    · split
      · exact .pure trivial
      · refine .bind (calm_settle (ne_loopGuard (Template.tells_condition scope d.id _) (by decide))) ?_
        intro applies _
        split
        · exact .pure trivial
        · exact ih

end NodeFlow.Watch
