import NodeFlow.Proofs.Compile.Sessions
import NodeFlow.Proofs.Run.Growth
/-!
# Quiet work of declared nodes

Whatever a declared node prepares, and whatever it works on, it does quietly: it reads, it fills templates, it
calls its collaborators, and it keeps what it gets in new cells. Only when it finishes does it change something
that was there, and then memory stays closed still.

The collaborators have to be grounded: what they answer refers to what they were asked with, or to objects that
were there before the run.
-/

set_option autoImplicit false

universe u

namespace NodeFlow

/-! ## 1. Grounded collaborators -/

/-- The collaborators of an environment hand out nothing but new values, what they are given, and objects among
the first cells of memory. The common parameters are such an object. -/
structure Environment.Grounded (env : Environment) (n : Nat) : Prop where
  model : ∀ m, env.model = some m → ∀ i prompt name reply, m.answer i prompt name = .ok reply →
    ∀ a ∈ reply.marks, a ∈ prompt.marks ∨ a ∈ name.marks ∨ a < n
  http : ∀ answer, env.http = some (.given answer) → ∀ i v, answer i = .ok v → ∀ a ∈ v.marks, a < n
  session : ∀ client, env.http = some (.session client) → ∀ i, ∀ a ∈ (client.answer i).marks, a < n
  ownSession : ∀ answer, env.ownSession = some answer → ∀ i, ∀ a ∈ (answer i).marks, a < n
  globals : ∀ a ∈ env.globals.refs, a < n

/-- Discreet collaborators are grounded. -/
theorem Environment.Discreet.grounded {env : Environment} {n : Nat} (henv : env.Discreet)
    (hglobals : ∀ a ∈ env.globals.refs, a < n) : env.Grounded n where
  model m hm i prompt name reply hreply a ha :=
    (henv.model m hm i prompt name reply hreply a ha).imp_right Or.inl
  http answer hanswer i v hv a ha := by
    rw [henv.http answer hanswer i v hv] at ha
    exact absurd ha List.not_mem_nil
  session client hclient i a ha := by
    rw [henv.session client hclient i] at ha
    exact absurd ha List.not_mem_nil
  ownSession answer hanswer i a ha := by
    rw [henv.ownSession answer hanswer i] at ha
    exact absurd ha List.not_mem_nil
  globals := hglobals

theorem SessionAnswer.free_of_forall {S : Seal} {r : SessionAnswer} (h : ∀ a ∈ r.marks, S a = none) :
    r.Free S := by
  cases r with
  | broken text => trivial
  | response status body headers =>
    refine ⟨fun a ha => h a ?_, fun v hv a ha => h a ?_, fun a ha => h a ?_⟩
    · exact List.mem_append_left _ (List.mem_append_left _ ha)
    · refine List.mem_append_left _ (List.mem_append_right _ (List.mem_flatMap.2 ⟨v, ?_, ha⟩))
      exact Option.mem_toList.2 hv
    · exact List.mem_append_right _ ha

theorem Environment.Grounded.later {env : Environment} {n n' : Nat} (henv : env.Grounded n) (h : n ≤ n') :
    env.Grounded n' where
  model m hm i prompt name reply hreply a ha :=
    (henv.model m hm i prompt name reply hreply a ha).imp_right (Or.imp_right fun hlt => Nat.lt_of_lt_of_le hlt h)
  http answer hanswer i v hv a ha := Nat.lt_of_lt_of_le (henv.http answer hanswer i v hv a ha) h
  session client hclient i a ha := Nat.lt_of_lt_of_le (henv.session client hclient i a ha) h
  ownSession answer hanswer i a ha := Nat.lt_of_lt_of_le (henv.ownSession answer hanswer i a ha) h
  globals a ha := Nat.lt_of_lt_of_le (henv.globals a ha) h

theorem Scene.Free.later {scene : Scene} {n n' : Nat} (hs : scene.Free (.beyond n)) (h : n ≤ n') :
    scene.Free (.beyond n') where
  data := Seal.beyond_mono h hs.data
  params := Seal.beyond_mono h hs.params

namespace Growth

variable {tag : String} {n : Nat} {env : Environment} {d : Declared} {scene : Scene}

/-! ## 2. Templates -/

theorem quietly_part (hd : (Datum.ref d.content).Free (.beyond n)) (name : String) :
    Quietly tag n (d.part name) fun v k => v.Free (.beyond k) :=
  .bind (quietly_view hd) fun _ _ _ hv => .pure fun _ hk => (Terms.free_field hv name).later hk

theorem quietly_held (hs : scene.Free (.beyond n)) (key : String) :
    Quietly tag n (Declared.held scene key) fun d k => d.Free (.beyond k) :=
  quietly_reads fun _ hn hw =>
    Members.forall_getD (hw.apart.membersAt (hs.later hn).data) Datum.free_null key

theorem quietly_scopeWith (hs : scene.Free (.beyond n)) {result : Value} {exec item : Option Value}
    (hresult : result.Free (.beyond n)) (hexec : ∀ v, exec = some v → v.Free (.beyond n))
    (hitem : ∀ v, item = some v → v.Free (.beyond n)) :
    Quietly tag n (Declared.scopeWith scene result exec item) fun s k => s.Free (.beyond k) :=
  quietly_reads fun _ hn hw => ⟨hw.apart.view (Shared.free_datum (hs.later hn).data), hresult.later hn,
    fun v hv => (hexec v hv).later hn, fun v hv => (hitem v hv).later hn,
    hw.apart.view (Datum.free_ref.2 (hs.later hn).params)⟩

theorem quietly_priorScope (hs : scene.Free (.beyond n)) {item : Option Value}
    (hitem : ∀ v, item = some v → v.Free (.beyond n)) :
    Quietly tag n (Declared.priorScope scene item) fun s k => s.Free (.beyond k) := by
  refine .bind (quietly_held hs _) fun last k hk hlast => .bind (quietly_view hlast) fun v k' hk' hv => ?_
  have hle := Nat.le_trans hk hk'
  exact quietly_scopeWith (hs.later hle) hv nofun fun v hv => (hitem v hv).later hle

theorem quietly_resultScope (hs : scene.Free (.beyond n)) {result : Datum} (hresult : result.Free (.beyond n)) :
    Quietly tag n (Declared.resultScope scene result) fun s k => s.Free (.beyond k) :=
  .bind (quietly_view hresult) fun _ _ hk hv =>
    quietly_scopeWith (hs.later hk) hv (fun _ h => Option.some.inj h ▸ hv) nofun

theorem quietly_fill {scope : Scope} {template : Value} (ht : template.Free (.beyond n)) :
    Quietly tag n (d.fill scope template) fun v k => v.Free (.beyond k) :=
  quietly_settle fun _ h _ hk => (Template.free_of_interpolate ht h).later hk

theorem quietly_render {scope : Scope} (hs : scope.Free (.beyond n)) {template : Value}
    (ht : template.fresh.Free (.beyond n)) :
    Quietly tag n (d.render scope template) fun v k => v.Free (.beyond k) :=
  quietly_settle fun _ h _ hk => (Template.free_of_render hs ht h).later hk

/-! ## 3. The loop guard -/

theorem quietly_visits (hs : scene.Free (.beyond n)) : Quietly tag n (d.visits scene) fun _ _ => True := by
  refine .bind (quietly_held hs _) fun held k hk hheld => .bind (quietly_view hheld) fun v _ _ _ => ?_
  split
  · exact .pure fun _ _ => trivial
  · exact .pure fun _ _ => trivial
  · split
    · exact quietly_fail _
    · exact .pure fun _ _ => trivial

theorem quietly_guardExit? (hs : scene.Free (.beyond n)) :
    Quietly tag n (d.guardExit? scene) fun _ _ => True := by
  rw [Declared.guardExit?]
  split
  · exact .pure fun _ _ => trivial
  · refine .bind (quietly_visits hs) fun v _ _ _ => .bind (quietly_faultable _) fun run _ _ _ => ?_
    split
    · exact .pure fun _ _ => trivial
    · exact .bind (quietly_note _) fun _ _ _ _ => .pure fun _ _ => trivial

/-! ## 4. Collaborators -/

/-- A model whose answers are there. -/
def Answers (n : Nat) (m : Model) : Prop :=
  ∀ i prompt name reply, m.answer i prompt name = .ok reply → ∀ a ∈ reply.marks,
    a ∈ prompt.marks ∨ a ∈ name.marks ∨ a < n

/-- An HTTP collaborator whose answers are there. -/
def Fetches (n : Nat) : HttpClient → Prop
  | .given answer => ∀ i v, answer i = .ok v → ∀ a ∈ v.marks, a < n
  | .session client => ∀ i, ∀ a ∈ (client.answer i).marks, a < n

theorem Answers.free {m : Model} (hm : Answers n m) {i : Nat} {prompt name : Value} {reply : Reply} {k : Nat}
    (hk : n ≤ k) (hprompt : prompt.Free (.beyond k)) (hname : name.Free (.beyond k))
    (hreply : m.answer i prompt name = .ok reply) : reply.Free (.beyond k) := by
  refine Reply.free_of_marks fun a ha => ?_
  rcases hm i prompt name reply hreply a ha with ha | ha | hlt
  · exact hprompt a ha
  · exact hname a ha
  · exact Seal.beyond_eq_none.2 (Nat.lt_of_lt_of_le hlt hk)

theorem modelFor_grounded (henv : env.Grounded n) {node : String} {m : Model}
    (h : env.modelFor node = .ok m) : Answers n m := by
  rw [Environment.modelFor] at h
  split at h
  · next hm => exact Except.ok.inj h ▸ henv.model _ hm
  · cases h

theorem httpFor_grounded (henv : env.Grounded n) {node : String} {c : HttpClient}
    (h : env.httpFor node = .ok c) : Fetches n c := by
  rw [Environment.httpFor] at h
  split at h
  · next client hclient =>
    obtain rfl := Except.ok.inj h
    cases client with
    | given answer => exact henv.http answer hclient
    | session client => exact henv.session client hclient
  · next answer _ hanswer =>
    split at h
    · exact Except.ok.inj h ▸ henv.ownSession answer hanswer
    · cases h
  · cases h

theorem quietly_respond {m : Model} (hm : Answers n m) {prompt name : Value} (hprompt : prompt.Free (.beyond n))
    (hname : name.Free (.beyond n)) : Quietly tag n (m.respond prompt name) fun v k => v.Free (.beyond k) := by
  refine .bind (quietly_log nofun) fun _ k hk _ => .bind (quietly_countCall _) fun i k' hk' _ => ?_
  have hle := Nat.le_trans hk hk'
  refine .bind (P := fun r k => r.Free (.beyond k)) (quietly_ofExcept fun r hr l hl => ?_) fun r l hl hr => ?_
  · have hlater := Nat.le_trans hle hl
    exact hm.free hlater (hprompt.later hlater) (hname.later hlater) hr
  · refine quietly_ofExcept fun v hv l' hl' => ?_
    have hends : Ends (fun _ => True) (Value.Free (.beyond l)) r.normalize :=
      Terms.ends_of_normalize (fun _ => trivial) (fun _ => trivial) hr
    rw [hv] at hends
    exact Value.Free.later hends hl'

theorem quietly_call {m : Model} (hm : Answers n m) {prompt name : Value} (hprompt : prompt.Free (.beyond n))
    (hname : name.Free (.beyond n)) : Quietly tag n (m.call prompt name) fun v k => v.Free (.beyond k) := by
  rw [Model.call]
  split
  · exact quietly_respond hm hprompt hname
  · exact quietly_fail _

theorem quietly_turns (count : Nat) :
    Quietly tag n (Coop.turns count : Coop World Datum Unit) fun _ _ => True :=
  fun _ _ _ _ => Coop.minds_turns count fun _ h => ⟨h, fun _ _ => trivial⟩

theorem quietly_callWaiting {m : Model} (hm : Answers n m) {prompt name : Value}
    (hprompt : prompt.Free (.beyond n)) (hname : name.Free (.beyond n)) :
    Quietly tag n (m.callWaiting prompt name : Coop World Datum Value) fun v k => v.Free (.beyond k) :=
  .bind (quietly_turns _) fun _ _ hk _ =>
    .perform ((quietly_respond hm hprompt hname).later hk)

theorem quietly_fetch {c : HttpClient} (hc : Fetches n c) (url method headers body : Value) :
    Quietly tag n (c.fetch url method headers body) fun v k => v.Free (.beyond k) := by
  cases c with
  | given answer =>
    refine .bind (quietly_log nofun) fun _ k hk _ => .bind (quietly_countCall _) fun i k' hk' _ => ?_
    have hle := Nat.le_trans hk hk'
    exact quietly_ofExcept fun v hv l hl a ha =>
      Seal.beyond_eq_none.2 (Nat.lt_of_lt_of_le (hc i v hv a ha) (Nat.le_trans hle hl))
  | session client =>
    refine .bind (quietly_faultable _) fun _ k hk _ => .bind (quietly_log nofun) fun _ k' hk' _ => ?_
    refine .bind (quietly_countCall _) fun i l hl _ => ?_
    have hanswer : (client.answer i).Free (.beyond n) :=
      SessionAnswer.free_of_forall fun a ha => Seal.beyond_eq_none.2 (hc i a ha)
    split
    · exact quietly_fail _
    · next status data headers' heq =>
      rw [heq] at hanswer
      obtain ⟨hstatus, hdata, hheaders⟩ := hanswer
      have hresult : (SessionClient.result status (data.getD (.ofMembers [])) headers').Free (.beyond n) := by
        refine Value.free_ofMembers (List.forall_mem_cons.2 ⟨hstatus, List.forall_mem_cons.2 ⟨?_, ?_⟩⟩)
        · exact free_getD hdata Value.free_nothing
        · exact List.forall_mem_singleton.2 hheaders
      exact .pure fun l' hl' => hresult.later (by omega)

/-- The names of models are found without changing anything. -/
theorem quietly_commonModelName (henv : env.Grounded n) :
    Quietly tag n env.commonModelName fun v k => v.Free (.beyond k) := by
  refine .bind (P := fun o k => ∀ ms, o = some ms → ∀ m ∈ ms, m.2.Free (.beyond k))
    (quietly_reads fun w hn hw ms hms => ?_) fun o k hk ho => ?_
  · have hglobals : env.globals.Free (.beyond w.heap.cells.size) := fun a ha =>
      Seal.beyond_eq_none.2 (Nat.lt_of_lt_of_le (henv.globals a ha) hn)
    exact Terms.free_commonMembers hw.apart hglobals hms
  · split
    · next ms => exact quietly_view (Members.forall_getD (ho ms rfl) Datum.free_null "model")
    · exact quietly_fail _

theorem quietly_envModelName (henv : env.Grounded n) {declared params : Value}
    (hdeclared : declared.Free (.beyond n)) (hparams : params.Free (.beyond n)) :
    Quietly tag n (env.modelName declared params) fun v k => v.Free (.beyond k) := by
  rw [Environment.modelName]
  split
  · exact .pure fun k hk => (Value.free_orElse hdeclared (Terms.free_field hparams "model")).later hk
  · refine .bind (quietly_commonModelName henv) fun common k hk hcommon => ?_
    split
    · exact .pure fun k' hk' => hcommon.later hk'
    · exact .bind (quietly_faultable _) fun _ _ _ _ => .pure fun _ _ => Value.free_of_isPlain rfl

/-! ## 5. What is prepared, and work on it -/

theorem quietly_modelName (henv : env.Grounded n) (hd : (Datum.ref d.content).Free (.beyond n))
    (hs : scene.Free (.beyond n)) : Quietly tag n (d.modelName env scene) fun v k => v.Free (.beyond k) := by
  refine .bind (quietly_part hd "exec") fun work k hk hwork => ?_
  refine .bind (quietly_view (Datum.free_ref.2 (hs.later hk).params)) fun params k' hk' hparams => ?_
  exact quietly_envModelName (henv.later (Nat.le_trans hk hk')) ((Terms.free_field hwork "model").later hk') hparams

/-- A call that is ready to be made with what is there. -/
structure Ready (n : Nat) (p : Prompted) : Prop where
  model : Answers n p.model
  prompt : p.prompt.Free (.beyond n)
  name : p.name.Free (.beyond n)

theorem Answers.later {m : Model} (hm : Answers n m) {n' : Nat} (h : n ≤ n') : Answers n' m :=
  fun i prompt name reply hreply a ha =>
    (hm i prompt name reply hreply a ha).imp_right (Or.imp_right fun hlt => Nat.lt_of_lt_of_le hlt h)

theorem Fetches.later {c : HttpClient} (hc : Fetches n c) {n' : Nat} (h : n ≤ n') : Fetches n' c := by
  cases c with
  | given answer => exact fun i v hv a ha => Nat.lt_of_lt_of_le (hc i v hv a ha) h
  | session client => exact fun i a ha => Nat.lt_of_lt_of_le (hc i a ha) h

theorem Ready.later {p : Prompted} (hp : Ready n p) {n' : Nat} (h : n ≤ n') : Ready n' p :=
  ⟨hp.model.later h, hp.prompt.later h, hp.name.later h⟩

theorem Ready.call {p : Prompted} (hp : Ready n p) : Quietly tag n p.call fun d k => d.Free (.beyond k) :=
  .bind (quietly_call hp.model hp.prompt hp.name) fun _ _ _ hv => quietly_keep hv

theorem Ready.callWaiting {p : Prompted} (hp : Ready n p) :
    Quietly tag n (p.callWaiting : Coop World Datum Datum) fun d k => d.Free (.beyond k) :=
  .bind (quietly_callWaiting hp.model hp.prompt hp.name) fun _ _ _ hv => .perform (quietly_keep hv)

theorem quietly_preparePrompt (henv : env.Grounded n) (hd : (Datum.ref d.content).Free (.beyond n))
    (hs : scene.Free (.beyond n)) :
    Quietly tag n (d.preparePrompt env scene) fun p k => Ready k p := by
  refine .bind (P := fun m _ => Answers n m)
    (quietly_ofExcept fun m hm _ _ => modelFor_grounded henv hm) fun model k hk hmodel => ?_
  refine .bind (quietly_part (hd.later hk) "exec") fun work k₁ hk₁ hwork => ?_
  refine .bind (quietly_priorScope (hs.later (Nat.le_trans hk hk₁)) nofun) fun scope k₂ hk₂ _ => ?_
  have hprompt : (Description.fieldOr work "prompt" (.str "")).Free (.beyond k₂) :=
    (Terms.free_fieldOr hwork (Terms.free_str _) "prompt").later hk₂
  refine .bind (quietly_fill hprompt) fun prompt k₃ hk₃ hprompt => ?_
  have hle : n ≤ k₃ := by omega
  refine .bind (quietly_modelName (henv.later hle) (hd.later hle) (hs.later hle)) fun name k₄ hk₄ hname => ?_
  exact .pure fun k₅ hk₅ => ⟨hmodel.later (by omega), hprompt.later (Nat.le_trans hk₄ hk₅), hname.later hk₅⟩

theorem quietly_prepareRequest (henv : env.Grounded n) (hd : (Datum.ref d.content).Free (.beyond n))
    (hs : scene.Free (.beyond n)) :
    Quietly tag n (d.prepareRequest env scene) fun r k => Fetches k r.client := by
  refine .bind (P := fun c _ => Fetches n c)
    (quietly_ofExcept fun c hc _ _ => httpFor_grounded henv hc) fun client k hk hclient => ?_
  refine .bind (quietly_priorScope (hs.later hk) nofun) fun scope k₁ hk₁ hscope => ?_
  refine .bind (quietly_part (hd.later (Nat.le_trans hk hk₁)) "exec") fun work k₂ hk₂ hwork => ?_
  refine .bind (quietly_fill (Terms.free_fieldOr hwork (Terms.free_str _) _)) fun url k₃ hk₃ _ => ?_
  have htemplate : ∀ key, ((work.field key).orElse (.ofMembers [])).fresh.Free (.beyond k₂) := by
    intro key
    exact (Value.free_orElse (Terms.free_field hwork key) Value.free_nothing).fresh
  have hfree : ∀ l, k₁ ≤ l → scope.Free (.beyond l) := fun l hl => ⟨hscope.ctx.later hl, hscope.result.later hl,
    fun v hv => (hscope.exec v hv).later hl, fun v hv => (hscope.item v hv).later hl, hscope.params.later hl⟩
  refine .bind (quietly_render (hfree k₃ (by omega)) ((htemplate "headers").later hk₃)) fun headers k₄ hk₄ _ => ?_
  refine .bind (quietly_render (hfree k₄ (by omega)) ((htemplate "body").later (by omega)))
    fun body k₅ hk₅ _ => ?_
  exact .pure fun k₆ hk₆ => hclient.later (by omega)

theorem quietly_send {r : Request} (hr : Fetches n r.client) :
    Quietly tag n r.send fun d k => d.Free (.beyond k) :=
  .bind (quietly_fetch hr _ _ _ _) fun _ _ _ hv => quietly_keep hv

theorem quietly_copyData (hd : (Datum.ref d.content).Free (.beyond n)) :
    Quietly tag n d.copyData fun d k => d.Free (.beyond k) :=
  .bind (quietly_part hd "exec") fun _ _ _ hdata =>
    quietly_keep (Value.free_orElse hdata Value.free_nothing).fresh

/-- An element of a batch that is ready to be worked on with what is there. -/
structure Ordered (n : Nat) (o : WorkOrder) : Prop where
  item : o.item.Free (.beyond n)
  prompted : ∀ p, o.prompted = some p → Ready n p

theorem Ordered.later {o : WorkOrder} (ho : Ordered n o) {n' : Nat} (h : n ≤ n') : Ordered n' o :=
  ⟨ho.item.later h, fun p hp => (ho.prompted p hp).later h⟩

theorem Ordered.carryOut {o : WorkOrder} (ho : Ordered n o) :
    Quietly tag n o.carryOut fun d k => d.Free (.beyond k) := by
  rw [WorkOrder.carryOut]
  split
  · exact .pure fun k hk => ho.item.later hk
  · next p hp => exact (ho.prompted p hp).call

theorem Ordered.carryOutWaiting {o : WorkOrder} (ho : Ordered n o) :
    Quietly tag n (o.carryOutWaiting : Coop World Datum Datum) fun d k => d.Free (.beyond k) := by
  rw [WorkOrder.carryOutWaiting]
  split
  · exact .pure fun k hk => ho.item.later hk
  · next p hp => exact (ho.prompted p hp).callWaiting

theorem quietly_inputPath (hd : (Datum.ref d.content).Free (.beyond n)) :
    Quietly tag n d.inputPath fun _ _ => True := by
  refine .bind (quietly_part hd "prep") fun prep _ _ _ => ?_
  split <;> exact .pure fun _ _ => trivial

theorem quietly_ordersFor (hs : scene.Free (.beyond n)) {model : Model} {name template : Value}
    (hmodel : Answers n model) (hname : name.Free (.beyond n)) (htemplate : template.Free (.beyond n))
    {items : List Value} (hitems : ∀ x ∈ items, x.Free (.beyond n)) :
    Quietly tag n (d.ordersFor scene model name template items) fun os k => ∀ o ∈ os, Ordered k o := by
  induction items generalizing n with
  | nil => exact .pure fun _ _ o ho => absurd ho List.not_mem_nil
  | cons item rest ih =>
    rw [List.forall_mem_cons] at hitems
    refine .bind (quietly_priorScope hs fun _ h => Option.some.inj h ▸ hitems.1) fun scope k hk _ => ?_
    refine .bind (quietly_fill (htemplate.later hk)) fun prompt k₁ hk₁ hprompt => ?_
    have hle := Nat.le_trans hk hk₁
    refine .bind (quietly_keep (hitems.1.later hle)) fun kept k₂ hk₂ hkept => ?_
    have hle' := Nat.le_trans hle hk₂
    refine .bind (ih (hs.later hle') (hmodel.later hle') (hname.later hle') (htemplate.later hle')
      fun x hx => (hitems.2 x hx).later hle') fun more k₃ hk₃ hmore => ?_
    refine .pure fun k₄ hk₄ => List.forall_mem_cons.2 ⟨⟨hkept.later (by omega), fun p hp => ?_⟩, fun o ho => ?_⟩
    · exact Option.some.inj hp ▸ ⟨hmodel.later (by omega), hprompt.later (by omega), hname.later (by omega)⟩
    · exact (hmore o ho).later hk₄

theorem quietly_workOrders (henv : env.Grounded n) (hd : (Datum.ref d.content).Free (.beyond n))
    (hs : scene.Free (.beyond n)) :
    Quietly tag n (d.workOrders env scene) fun os k => ∀ o ∈ os, Ordered k o := by
  refine .bind (quietly_inputPath hd) fun path k hk _ => ?_
  refine .bind (P := fun xs k => ∀ x ∈ xs, x.Free (.beyond k)) (quietly_reads fun w hn hw => ?_)
    fun items k₁ hk₁ hitems => ?_
  · have hdata := (hs.later (Nat.le_trans hk hn)).data
    exact Terms.free_batchItems fun v hv => Terms.free_of_at? (hw.apart.view (Datum.free_ref.2 hdata)) hv
  refine .bind (quietly_part (hd.later (Nat.le_trans hk hk₁)) "exec") fun work k₂ hk₂ hwork => ?_
  have hle : n ≤ k₂ := by omega
  -- without a prompt the items are the results, with one each is an order to the model
  split
  · refine .bind (quietly_eachOf (Q := fun d k => d.Free (.beyond k)) (fun _ _ _ h hd => hd.later h)
      fun x hx => quietly_keep ((hitems x hx).later hk₂)) fun kept k₃ hk₃ hkept => ?_
    exact .pure fun k₄ hk₄ => List.forall_mem_map.2 fun d hd => ⟨(hkept d hd).later hk₄, nofun⟩
  · refine .bind (P := fun m _ => Answers n m)
      (quietly_ofExcept fun m hm _ _ => modelFor_grounded henv hm) fun model k₃ hk₃ hmodel => ?_
    have hle₃ := Nat.le_trans hle hk₃
    refine .bind (quietly_modelName (henv.later hle₃) (hd.later hle₃) (hs.later hle₃)) fun name k₄ hk₄ hname => ?_
    have hle₄ := Nat.le_trans hle₃ hk₄
    exact quietly_ordersFor (hs.later hle₄) (hmodel.later hle₄) hname
      ((Terms.free_field hwork "prompt").later (Nat.le_trans hk₃ hk₄))
      fun x hx => (hitems x hx).later (by omega)

/-! ## 6. Finishing -/

theorem grows_recordVisit (hs : scene.Free (.beyond n)) : Grows tag n (d.recordVisit scene) fun _ _ => True := by
  rw [Declared.recordVisit]
  split
  · exact Quietly.grows (.pure fun _ _ => trivial)
  refine .bind (quietly_held hs _).grows fun held k hk hheld => ?_
  refine .bind (quietly_membersOf hheld).grows fun counts k₁ hk₁ hcounts => ?_
  have hcount : ((Members.get? counts d.id).getD (.int 0)).Free (.beyond k₁) :=
    Members.forall_getD hcounts (fun _ ha => absurd ha List.not_mem_nil) d.id
  refine .bind (quietly_view hcount).grows fun before k₂ hk₂ _ => ?_
  refine .bind (P := fun v k => v.Free (.beyond k)) (Quietly.grows ?_) fun sum k₃ hk₃ hsum => ?_
  · refine quietly_still fun w _ _ => ⟨rfl, fun v hv => ?_⟩
    rw [Act.ofOperands] at hv
    cases hplus : before.plus (.int 1) with
    | ok u =>
      rw [hplus] at hv
      exact Except.ok.inj hv ▸ Terms.free_of_plus_one hplus
    | error f =>
      rw [hplus] at hv
      cases hv
  refine .bind (quietly_keep hsum).grows fun count k₄ hk₄ hcount => ?_
  -- the counts are copied, and the copy is kept under their name
  have hnew : (Cell.dict (Members.put d.id count counts)).Free (.beyond k₄) :=
    Cell.free_dict.2 (Members.forall_put (fun m hm => (hcounts m hm).later (by omega)) d.id hcount)
  refine .bind (quietly_alloc hnew).grows fun new k₅ hk₅ hnew => ?_
  exact grows_onShared fun l hl hclosed => Shared.closed_set hclosed (hnew.later hl) _

theorem grows_saveAll (hs : scene.Free (.beyond n)) {result : Datum} (hresult : result.Free (.beyond n))
    {saves : List Value} (hsaves : ∀ s ∈ saves, s.Free (.beyond n)) :
    Grows tag n (d.saveAll scene result saves) fun _ _ => True := by
  induction saves generalizing n with
  | nil => exact Quietly.grows (.pure fun _ _ => trivial)
  | cons save rest ih =>
    rw [List.forall_mem_cons] at hsaves
    have htemplate : (Description.fieldOr save "value" (save.field "valueTemplate")).Free (.beyond n) :=
      Terms.free_fieldOr hsaves.1 (Terms.free_field hsaves.1 _) _
    refine .bind (quietly_resultScope hs hresult).grows fun scope k hk hscope => ?_
    refine .bind (quietly_render hscope (htemplate.later hk).fresh).grows fun v k₁ hk₁ hv => ?_
    refine .bind (quietly_keep hv).grows fun kept k₂ hk₂ hkept => ?_
    have hle : n ≤ k₂ := by omega
    dsimp only
    split
    · refine .bind (grows_onShared fun l hl hclosed => Shared.closed_setPath hclosed (hkept.later hl) _)
        fun _ k₃ hk₃ _ => ?_
      have hle' := Nat.le_trans hle hk₃
      exact ih (hs.later hle') (hresult.later hle') fun s hs => (hsaves.2 s hs).later hle'
    · exact .bind (P := fun _ _ => False) (quietly_fail _).grows fun _ _ _ h => h.elim

theorem grows_finish (hd : (Datum.ref d.content).Free (.beyond n)) (hs : scene.Free (.beyond n)) {result : Datum}
    (hresult : result.Free (.beyond n)) :
    Grows tag n (d.finish scene result) fun d k => d.Free (.beyond k) := by
  refine .bind (grows_onShared fun l hl hclosed => Shared.closed_set hclosed (hresult.later hl) _)
    fun _ k hk _ => ?_
  refine .bind (quietly_part (hd.later hk) "post").grows fun post k₁ hk₁ hpost => ?_
  have hle := Nat.le_trans hk hk₁
  have hsaves := Terms.free_items (Terms.free_field (Terms.free_field hpost "outputs") "save")
  refine .bind (grows_saveAll (hs.later hle) (hresult.later hle) hsaves) fun _ k₂ hk₂ _ => ?_
  refine .bind (grows_recordVisit (hs.later (Nat.le_trans hle hk₂))) fun _ k₃ hk₃ _ => ?_
  have hnext := Value.free_orElse (Terms.free_field hpost "next") (Value.free_of_isPlain rfl : Value.null.Free _)
  exact (quietly_keep (hnext.later (Nat.le_trans hk₂ hk₃))).grows

theorem free_casesOf {S : Seal} {v : Value} (hv : v.Free S) {xs : List Value}
    (h : Declared.casesOf v = .ok xs) : ∀ x ∈ xs, x.Free S := by
  rw [Declared.casesOf.eq_def] at h
  split at h
  · exact Except.ok.inj h ▸ fun x hx => absurd hx List.not_mem_nil
  · split at h
    · exact Except.ok.inj h ▸ (Value.free_list.1 hv).2
    · exact Except.ok.inj h ▸ List.forall_mem_map.2 fun _ _ => Value.free_of_isPlain rfl
    · exact Except.ok.inj h ▸ List.forall_mem_map.2 fun _ _ => Value.free_of_isPlain rfl
    · cases h

theorem quietly_firstCase (scope : Scope) {cases : List Value} (hcases : ∀ c ∈ cases, c.Free (.beyond n)) :
    Quietly tag n (d.firstCase scope cases) fun v k => v.Free (.beyond k) := by
  induction cases generalizing n with
  | nil => exact .pure fun _ _ => Value.free_of_isPlain rfl
  | cons c rest ih =>
    rw [List.forall_mem_cons] at hcases
    have hlabel : ∀ k, n ≤ k → (c.field "label").Free (.beyond k) := fun k hk =>
      (Terms.free_field hcases.1 "label").later hk
    rw [Declared.firstCase]
    split
    · exact quietly_fail _
    · split
      · exact .pure hlabel
      · refine .bind (quietly_settle (P := fun _ _ => True) fun _ _ _ _ => trivial) fun applies k hk _ => ?_
        split
        · exact .pure fun l hl => hlabel l (Nat.le_trans hk hl)
        · exact ih fun c hc => (hcases.2 c hc).later hk

theorem grows_route (hd : (Datum.ref d.content).Free (.beyond n)) (hs : scene.Free (.beyond n)) :
    Grows tag n (d.route scene) fun d k => d.Free (.beyond k) := by
  refine .bind (grows_recordVisit hs) fun _ k hk _ => ?_
  have hnone : ∀ v : Value, (none : Option Value) = some v → v.Free (.beyond k) := fun _ h => nomatch h
  refine .bind (quietly_priorScope (hs.later hk) hnone).grows fun scope k₁ hk₁ _ => ?_
  refine .bind (quietly_part (hd.later (Nat.le_trans hk hk₁)) "exec").grows fun work k₂ hk₂ hwork => ?_
  refine .bind (P := fun cs k => ∀ c ∈ cs, c.Free (.beyond k))
    (quietly_ofFault fun cs hcs l hl c hc => ?_).grows fun cases k₃ hk₃ hcases => ?_
  · exact (free_casesOf (Terms.free_field hwork "cases") hcs c hc).later hl
  · exact .bind (quietly_firstCase scope hcases).grows fun label _ _ hlabel => (quietly_keep hlabel).grows

end Growth

end NodeFlow
