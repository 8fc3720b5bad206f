import NodeFlow.Compile.Make
import NodeFlow.Proofs.Collaborator.Accord
import NodeFlow.Proofs.Compile.Work
/-!
# Declared nodes in accord

Two runs visit a declared node, each the one in its own memory. They stay in accord if the declaration suits the
accord: its templates come to the same in scopes that correspond, what it hands on is free, and it ends with texts.

Everything that the built-in kinds have in common comes first, then what each of them prepares, and in the end every
way to make a node of a built-in kind at once.
-/

set_option autoImplicit false

universe u

namespace NodeFlow

/-- A value that a visit may end with: nothing, or a text. -/
def Value.IsEnding (v : Value) : Prop := v = .null ∨ ∃ l, v = .str l

/-- Does a node of a kind call a model? -/
def Kind.prompts : Kind → Bool
  | .llmCall | .batch | .cooperative | .cooperativeParallel => true
  | .httpCall | .router | .staticData => false

/-- Two visits that end with the same label. -/
def SameLabel (d d' : Datum) : Prop := d' = d ∧ d.IsEnding

/-! ## 1. Paths under other names -/

namespace Value

variable {σ : Renaming}

/-- A property that is there. -/
def found? (v : Value) (key : String) : Option Value :=
  match v.property (.str key) with
  | .ok .undefined => none
  | .ok part => some part
  | .error _ => none

theorem step_renamed (v : Value) (key : String) : (v.renamed σ).step key = (v.step key).map (renamed σ) := by
  have hproperty : ∀ v : Value, (v.renamed σ).found? key = (v.found? key).map (renamed σ) := by
    intro v
    have h := property_renamed (σ := σ) v (.str key)
    rw [renamed_str] at h
    rw [found?, found?, h]
    cases v.property (.str key) with
    | error f => rfl
    | ok part =>
      cases part with
      | undefined => rfl
      | list | dict | store => simp [Except.map]
      | _ => rfl
  cases v with
  | list cell xs =>
    rw [renamed_list, step, step]
    cases Numeral.readInt? key.toList with
    | none => rfl
    | some n => exact elementAt_map (renamed σ) xs n
  | dict cell ms =>
    rw [renamed_dict, step, step]
    exact Members.get?_map (renamed σ) ms key
  | store cell name ms =>
    rw [renamed_store, step, step]
    exact Members.get?_map (renamed σ) ms key
  | bool b => exact hproperty (.bool b)
  | int n => exact hproperty (.int n)
  | float x => exact hproperty (.float x)
  | _ => rfl

theorem at?_renamed (v : Value) (path : List String) : (v.renamed σ).at? path = (v.at? path).map (renamed σ) := by
  induction path generalizing v with
  | nil => rfl
  | cons key rest ih =>
    rw [at?, at?, step_renamed]
    cases v.step key with
    | none => rfl
    | some u => exact ih u

theorem batchItems_renamed (o : Option Value) :
    Declared.batchItems (o.map (renamed σ)) = (Declared.batchItems o).map (renamed σ) := by
  cases o with
  | none => rfl
  | some v =>
    cases v with
    | dict cell ms => simp [Declared.batchItems]
    | list | store => simp [Declared.batchItems]
    | _ => rfl

end Value

namespace Accord

variable {A : Accord}

/-! ## 2. Scopes and scenes -/

/-- Two scopes that correspond. -/
structure Scopes (A : Accord) (s s' : Scope) : Prop where
  ctx : A.context s.ctx s'.ctx
  ctx_free : s.ctx.Free A.sealed
  result : A.Values s.result s'.result
  exec : Option.Rel A.Values s.exec s'.exec
  item : Option.Rel A.Values s.item s'.item
  params : A.params s.params
  params_eq : s'.params = s.params.renamed A.names

/-- A template that comes to the same in scopes that correspond. -/
def Fills (A : Accord) (t : Value) : Prop :=
  ∀ s s', A.Scopes s s' → Template.Every (Template.Agree A.names s s') t

/-- A template that stands for a free value, the same in scopes that correspond. -/
structure Hands (A : Accord) (t : Value) : Prop where
  fills : A.Fills t
  free : ∀ s s', A.Scopes s s' → ∀ node v, (Template.render s node t).result = .ok v → v.Free A.sealed

/-- Two scenes that correspond. -/
structure Scenes (A : Accord) (s s' : Scene) : Prop where
  contexts : A.Contexts s.shared s'.shared
  params : s'.params = A.names.cell s.params
  hidden : A.hidden s.params = none
  known : ∀ h h', A.Heaps h h' → A.params (h.view (.ref s.params))

/-- What an accord asks of a declaration of a kind. -/
structure Suits (A : Accord) (k : Kind) (v : Value) : Prop where
  next : k ≠ .router → (((v.field "post").field "next").orElse .null).IsEnding
  saves : k ≠ .router → ∀ save ∈ (((v.field "post").field "outputs").field "save").items,
    A.Hands (Description.fieldOr save "value" (save.field "valueTemplate"))
  prompt : k.prompts = true → ∀ t, Description.fieldOr (v.field "exec") "prompt" (.str "") = .str t → A.Fills (.str t)
  prompt_free : k.prompts = true → (Description.fieldOr (v.field "exec") "prompt" (.str "")).Free A.sealed
  model : k.prompts = true → ((v.field "exec").field "model").Free A.sealed
  url : k = .httpCall → ∀ t, Description.fieldOr (v.field "exec") "url" (.str "") = .str t → A.Fills (.str t)
  headers : k = .httpCall → A.Fills (((v.field "exec").field "headers").orElse (.ofMembers []))
  body : k = .httpCall → A.Fills (((v.field "exec").field "body").orElse (.ofMembers []))
  data : k = .staticData → ((v.field "exec").orElse (.ofMembers [])).fresh.Free A.sealed
  label : k = .router → ∀ cs, Declared.casesOf ((v.field "exec").field "cases") = .ok cs →
    ∀ c ∈ cs, (c.field "label").IsEnding
  condition : k = .router → ∀ cs, Declared.casesOf ((v.field "exec").field "cases") = .ok cs →
    ∀ c ∈ cs, c.field "when" ≠ .null → ∀ s s', A.Scopes s s' →
      Template.Agree A.names s s' (c.field "when").plain.toList

/-- Two declarations that correspond, and suit the accord in every memory. -/
structure Declares (A : Accord) (k : Kind) (d d' : Declared) : Prop where
  id : d'.id = d.id
  guard : d'.guard = d.guard
  content : d'.content = A.names.cell d.content
  hidden : A.hidden d.content = none
  suits : ∀ h h', A.Heaps h h' → A.Suits k (d.contentIn h)

variable {k : Kind} {d d' : Declared} {s s' : Scene} {env : Environment}

/-! ## 3. What declared nodes have in common -/

theorem tracks_part (hd : A.Declares k d d') (name : String) : A.Tracks (d.part name) (d'.part name) fun v v' =>
    ∃ u, A.Suits k u ∧ v = u.field name ∧ v' = v.renamed A.names := by
  refine .bind (R := fun u u' => A.Suits k u ∧ u' = u.renamed A.names) (tracks_reads fun w w' hw => ?_) ?_
  · refine ⟨hd.suits _ _ hw.heap, ?_⟩
    rw [hd.content]
    exact hw.heap.view (Datum.free_ref.2 hd.hidden)
  · rintro u _ ⟨hu, rfl⟩
    exact .pure ⟨u, hu, rfl, Value.field_renamed u name⟩

theorem tracks_scopeWith (hs : A.Scenes s s') {result result' : Value} {exec exec' item item' : Option Value}
    (hresult : A.Values result result') (hexec : Option.Rel A.Values exec exec')
    (hitem : Option.Rel A.Values item item') : A.Tracks (Declared.scopeWith s result exec item)
      (Declared.scopeWith s' result' exec' item') A.Scopes := by
  refine tracks_reads fun w w' hw => ?_
  refine ⟨hs.contexts.view _ _ hw.heap, hw.heap.obeys.view (Shared.free_datum hs.contexts.free), hresult, hexec, hitem,
    hs.known _ _ hw.heap, ?_⟩
  rw [hs.params]
  exact hw.heap.view (Datum.free_ref.2 hs.hidden)

theorem tracks_held (hs : A.Scenes s s') (key : String) :
    A.Tracks (Declared.held s key) (Declared.held s' key) A.Data :=
  tracks_reads fun _ _ hw => (hs.contexts.entries hw.heap).getD key data_null

theorem tracks_priorScope (hs : A.Scenes s s') {item item' : Option Value} (hitem : Option.Rel A.Values item item') :
    A.Tracks (Declared.priorScope s item) (Declared.priorScope s' item') A.Scopes :=
  .bind (tracks_held hs _) fun _ _ hlast => .bind (tracks_view hlast) fun _ _ hv => tracks_scopeWith hs hv .none hitem

theorem tracks_resultScope (hs : A.Scenes s s') {r r' : Datum} (hr : A.Data r r') :
    A.Tracks (Declared.resultScope s r) (Declared.resultScope s' r') A.Scopes :=
  .bind (tracks_view hr) fun _ _ hv => tracks_scopeWith hs hv (.some hv) .none

/-- What is no text is no template, and nothing is asked of it. -/
theorem tracks_fill (hid : d'.id = d.id) {scope scope' : Scope} (hscope : A.Scopes scope scope') {t : Value}
    (ht : ∀ s, t = .str s → A.Fills (.str s)) : A.Tracks (d.fill scope t) (d'.fill scope' (t.renamed A.names))
      fun v v' => (t.Free A.sealed → v.Free A.sealed) ∧ v' = v.renamed A.names := by
  have halike : (Template.interpolate scope d.id t).Alike (fun v v' => v' = v.renamed A.names)
      (Template.interpolate scope' d.id (t.renamed A.names)) := by
    cases htext : t.isText with
    | false =>
      rw [Template.interpolate_of_not_text htext, Template.interpolate_of_not_text (by rwa [Value.isText_renamed])]
      exact .pure rfl
    | true =>
      cases t with
      | str s => exact Template.interpolate_alike (ht s rfl _ _ hscope)
      | _ => cases htext
  rw [Declared.fill, Declared.fill, hid]
  refine tracks_settle ⟨?_, halike.notes⟩
  have hresult := halike.result
  have hfree : ∀ v, t.Free A.sealed → (Template.interpolate scope d.id t).result = .ok v → v.Free A.sealed :=
    fun _ ht hv => Template.free_of_interpolate ht hv
  generalize (Template.interpolate scope' d.id (t.renamed A.names)).result = r' at hresult ⊢
  generalize (Template.interpolate scope d.id t).result = r at hresult hfree ⊢
  cases hresult with
  | error e => exact .error e
  | ok hv => exact .ok ⟨fun ht => hfree _ ht rfl, hv⟩

theorem tracks_render (hid : d'.id = d.id) {scope scope' : Scope} (hscope : A.Scopes scope scope') {t : Value}
    (ht : A.Fills t) : A.Tracks (d.render scope t) (d'.render scope' (t.renamed A.names))
      fun v v' => (Template.render scope d.id t).result = .ok v ∧ v' = v.renamed A.names := by
  have halike : (Template.render scope d.id t).Alike (fun v v' => v' = v.renamed A.names)
      (Template.render scope' d.id (t.renamed A.names)) := Template.render_alike (ht _ _ hscope)
  rw [Declared.render, Declared.render, hid]
  refine tracks_settle ⟨?_, halike.notes⟩
  have hresult := halike.result
  generalize (Template.render scope' d.id (t.renamed A.names)).result = r' at hresult ⊢
  generalize (Template.render scope d.id t).result = r at hresult ⊢
  cases hresult with
  | error e => exact .error e
  | ok hv => exact .ok ⟨rfl, hv⟩

/-! ## 4. The loop guard -/

theorem tracks_visits (hid : d'.id = d.id) (hs : A.Scenes s s') :
    A.Tracks (d.visits s) (d'.visits s') fun v v' => v' = v.renamed A.names := by
  refine .bind (tracks_held hs _) fun _ _ hheld => .bind (tracks_view hheld) fun v v' hv => ?_
  obtain ⟨-, rfl⟩ := hv
  have hcount : ∀ ms : List (String × Value), (Members.get? (ms.map fun m => (m.1, m.2.renamed A.names)) d.id).getD (.int 0) =
      ((Members.get? ms d.id).getD (.int 0)).renamed A.names := by
    intro ms
    rw [Members.get?_map]
    cases Members.get? ms d.id <;> rfl
  have hother : ∀ v : Value, A.Tracks (if v.truthy then Act.fail (.fault .attribute) else pure (.int 0) : Act World Value)
      (if (v.renamed A.names).truthy then Act.fail (.fault .attribute) else pure (.int 0))
      fun v v' => v' = v.renamed A.names := by
    intro v
    rw [Value.truthy_renamed]
    split
    · exact tracks_fail _
    · exact .pure rfl
  rw [hid]
  cases v with
  | dict cell ms =>
    rw [Value.renamed_dict]
    exact .pure (hcount ms)
  | store cell name ms =>
    rw [Value.renamed_store]
    exact .pure (hcount ms)
  | list cell xs => exact hother (.list cell xs)
  | float x => exact hother (.float x)
  | _ => exact hother _

theorem tracks_guardExit? (hd : A.Declares k d d') (hs : A.Scenes s s') :
    A.Tracks (d.guardExit? s) (d'.guardExit? s') Eq := by
  rw [Declared.guardExit?, Declared.guardExit?, hd.guard]
  cases d.guard with
  | none => exact .pure rfl
  | some g =>
    refine .bind (tracks_visits hd.id hs) fun v _ hv => ?_
    subst hv
    have hsame := Value.ordered_renamed (σ := A.names) .lt v (.int g.limit)
    rw [Value.renamed_int] at hsame
    have hordered : EndsAlike Eq (Value.ordered .lt v (.int g.limit))
        (Value.ordered .lt (v.renamed A.names) (.int g.limit)) := by
      rw [hsame]
      cases Value.ordered .lt v (.int g.limit) with
      | ok b => exact .ok rfl
      | error f => exact .error f
    refine .bind (tracks_ofFault hordered) fun run _ hrun => ?_
    subst hrun
    split
    · exact .pure rfl
    · have hnote : d'.guardNote g = d.guardNote g := by rw [Declared.guardNote, Declared.guardNote, hd.id]
      rw [hnote]
      exact .bind (tracks_note (A.note_refl _)) fun _ _ _ => .pure rfl

theorem tracks_recordVisit (hd : A.Declares k d d') (hs : A.Scenes s s') :
    A.Tracks (d.recordVisit s) (d'.recordVisit s') fun _ _ => True := by
  rw [Declared.recordVisit, Declared.recordVisit, hd.guard]
  cases d.guard with
  | none => exact .pure trivial
  | some g =>
    refine .bind (tracks_held hs _) fun held held' hheld => ?_
    refine .bind (tracks_membersOf hheld) fun counts counts' hcounts => ?_
    rw [hd.id]
    refine .bind (tracks_view (hcounts.getD d.id (data_int 0))) fun before before' hbefore => ?_
    obtain ⟨-, rfl⟩ := hbefore
    have hsum : EndsAlike A.Values (before.plus (.int 1)) ((before.renamed A.names).plus (.int 1)) := by
      rw [Value.plus_renamed]
      cases hplus : before.plus (.int 1) with
      | error f => exact .error f
      | ok v => exact .ok ⟨Terms.free_of_plus_one hplus, rfl⟩
    refine .bind (tracks_ofOperands hsum) fun sum sum' hsum => .bind (tracks_keep hsum) fun count count' hcount => ?_
    refine .bind (tracks_alloc_dict (hcounts.put d.id hcount)) fun new new' hnew => ?_
    exact tracks_onShared fun l l' hl => hs.contexts.set hl hnew _

/-! ## 5. Finishing -/

theorem tracks_saveAll (hid : d'.id = d.id) (hs : A.Scenes s s') {r r' : Datum} (hr : A.Data r r') {saves : List Value}
    (hsaves : ∀ save ∈ saves, A.Hands (Description.fieldOr save "value" (save.field "valueTemplate"))) :
    A.Tracks (d.saveAll s r saves) (d'.saveAll s' r' (saves.map (Value.renamed A.names))) fun _ _ => True := by
  induction saves with
  | nil => exact .pure trivial
  | cons save rest ih =>
    rw [List.forall_mem_cons] at hsaves
    rw [List.map_cons, Declared.saveAll, Declared.saveAll, Value.field_renamed, Value.field_renamed,
      Value.fieldOr_renamed]
    refine .bind (tracks_resultScope hs hr) fun scope scope' hscope => ?_
    refine .bind (tracks_render hid hscope hsaves.1.fills) fun v v' hv => ?_
    refine .bind (tracks_keep ⟨hsaves.1.free _ _ hscope d.id v hv.1, hv.2⟩) fun kept kept' hkept => ?_
    have hrest := ih hsaves.2
    have hfault : ∀ f g : Unit → Act World Unit, A.Tracks (Act.fail (.fault .key) >>= f) (Act.fail (.fault .key) >>= g)
        fun _ _ => True :=
      fun _ _ => .bind (R := fun _ _ => False) (tracks_fail _) fun _ _ h => h.elim
    cases save.field "path" with
    | str path => exact .bind (tracks_onShared fun l l' hl => hs.contexts.setPath hl hkept path) fun _ _ _ => hrest
    | list cell xs =>
      rw [Value.renamed_list]
      exact hfault _ _
    | dict cell ms =>
      rw [Value.renamed_dict]
      exact hfault _ _
    | store cell name ms =>
      rw [Value.renamed_store]
      exact hfault _ _
    | _ => exact hfault _ _

/-- A label is kept as itself. -/
theorem tracks_label {v v' : Value} (hv : v.IsEnding) (heq : v' = v.renamed A.names) :
    A.Tracks (World.keep v) (World.keep v') SameLabel := by
  subst heq
  rcases hv with rfl | ⟨l, rfl⟩
  · exact .of_forall fun _ _ hw => ⟨hw, .ok ⟨rfl, Or.inl rfl⟩⟩
  · exact .of_forall fun _ _ hw => ⟨hw, .ok ⟨rfl, Or.inr ⟨l, rfl⟩⟩⟩

theorem orElse_null_renamed {σ : Renaming} (v : Value) : (v.renamed σ).orElse .null = (v.orElse .null).renamed σ :=
  Value.orElse_renamed v .null

theorem tracks_finish (hd : A.Declares k d d') (hk : k ≠ .router) (hs : A.Scenes s s') {r r' : Datum}
    (hr : A.Data r r') : A.Tracks (d.finish s r) (d'.finish s' r') SameLabel := by
  refine .bind (tracks_onShared fun l l' hl => hs.contexts.set hl hr _) fun _ _ _ => ?_
  refine .bind (tracks_part hd "post") fun post _ hpost => ?_
  obtain ⟨u, hu, rfl, rfl⟩ := hpost
  have hsaves := tracks_saveAll hd.id hs hr (hu.saves hk)
  rw [← Value.items_renamed, ← Value.field_renamed, ← Value.field_renamed] at hsaves
  refine .bind hsaves fun _ _ _ => .bind (tracks_recordVisit hd hs) fun _ _ _ => ?_
  rw [Value.field_renamed, orElse_null_renamed]
  exact tracks_label (hu.next hk) rfl

/-! ## 6. Prompts -/

/-- Two calls that are ready to be made to one model. -/
structure Prompteds (A : Accord) (p p' : Prompted) : Prop where
  model : p'.model = p.model
  models : A.Models p.model
  prompt : A.Values p.prompt p'.prompt
  name : A.Values p.name p'.name

theorem Prompteds.call {p p' : Prompted} (hp : A.Prompteds p p') : A.Tracks p.call p'.call A.Data := by
  rw [Prompted.call, Prompted.call, hp.model]
  exact .bind (tracks_call hp.models hp.prompt hp.name) fun _ _ hv => tracks_keep hv

theorem Prompteds.callWaiting {p p' : Prompted} (hp : A.Prompteds p p') :
    A.Tracks (p.callWaiting : Coop World Datum Datum) p'.callWaiting A.Data := by
  rw [Prompted.callWaiting, Prompted.callWaiting, hp.model]
  exact .bind (tracks_callWaiting hp.models hp.prompt hp.name) fun _ _ hv => .perform (tracks_keep hv)

theorem tracks_nameOf (henv : A.Environments env) (hd : A.Declares k d d') (hk : k.prompts = true)
    (hs : A.Scenes s s') : A.Tracks (d.modelName env s) (d'.modelName env s') A.Values := by
  refine .bind (tracks_part hd "exec") fun work _ hwork => ?_
  obtain ⟨u, hu, rfl, rfl⟩ := hwork
  refine .bind (R := fun v v' => A.params v ∧ v' = v.renamed A.names) (tracks_reads fun w w' hw => ?_) ?_
  · refine ⟨hs.known _ _ hw.heap, ?_⟩
    rw [hs.params]
    exact hw.heap.view (Datum.free_ref.2 hs.hidden)
  · intro params params' hparams
    rw [Value.field_renamed]
    exact tracks_modelName henv ⟨hu.model hk, rfl⟩ hparams.1 hparams.2

theorem fieldOr_empty_renamed {σ : Renaming} (v : Value) (key : String) :
    Description.fieldOr (v.renamed σ) key (.str "") = (Description.fieldOr v key (.str "")).renamed σ :=
  Value.fieldOr_renamed v (.str "") key

theorem tracks_preparePrompt (henv : A.Environments env) (hd : A.Declares k d d') (hk : k.prompts = true)
    (hs : A.Scenes s s') : A.Tracks (d.preparePrompt env s) (d'.preparePrompt env s') A.Prompteds := by
  rw [Declared.preparePrompt, Declared.preparePrompt, hd.id]
  refine .bind (tracks_ofExcept (henv.modelFor d.id)) fun model _ hmodel => ?_
  obtain ⟨rfl, hmodel⟩ := hmodel
  refine .bind (tracks_part hd "exec") fun work _ hwork => ?_
  obtain ⟨u, hu, rfl, rfl⟩ := hwork
  refine .bind (tracks_priorScope hs .none) fun scope scope' hscope => ?_
  rw [fieldOr_empty_renamed]
  refine .bind (tracks_fill hd.id hscope (hu.prompt hk)) fun prompt prompt' hprompt => ?_
  refine .bind (tracks_nameOf henv hd hk hs) fun name name' hname => .pure ?_
  exact ⟨rfl, hmodel, ⟨hprompt.1 (hu.prompt_free hk), hprompt.2⟩, hname⟩

/-! ## 7. Requests -/

/-- Two requests that are ready to be sent by one client. -/
structure Requests (A : Accord) (r r' : Request) : Prop where
  client : r'.client = r.client
  clients : A.Clients r.client
  url : r'.url = r.url.renamed A.names
  method : r'.method = r.method
  headers : r'.headers = r.headers.renamed A.names
  body : r'.body = r.body.renamed A.names

theorem tracks_prepareRequest (henv : A.Environments env) (hd : A.Declares .httpCall d d') (hs : A.Scenes s s') :
    A.Tracks (d.prepareRequest env s) (d'.prepareRequest env s') A.Requests := by
  rw [Declared.prepareRequest, Declared.prepareRequest, hd.id]
  refine .bind (tracks_ofExcept (henv.httpFor d.id)) fun client _ hclient => ?_
  obtain ⟨rfl, hclient⟩ := hclient
  refine .bind (tracks_priorScope hs .none) fun scope scope' hscope => ?_
  refine .bind (tracks_part hd "exec") fun work _ hwork => ?_
  obtain ⟨u, hu, rfl, rfl⟩ := hwork
  have hmethod : Description.fieldOr ((u.field "exec").renamed A.names) "method" (.str "GET") =
      (Description.fieldOr (u.field "exec") "method" (.str "GET")).renamed A.names :=
    Value.fieldOr_renamed _ (.str "GET") _
  rw [fieldOr_empty_renamed, hmethod, Value.plain_renamed, Value.field_renamed, Value.field_renamed,
    Reply.orElse_nothing_renamed, Reply.orElse_nothing_renamed]
  refine .bind (tracks_fill hd.id hscope (hu.url rfl)) fun url url' hurl => ?_
  refine .bind (tracks_render hd.id hscope (hu.headers rfl)) fun headers headers' hheaders => ?_
  refine .bind (tracks_render hd.id hscope (hu.body rfl)) fun body body' hbody => .pure ?_
  exact ⟨rfl, hclient, hurl.2, rfl, hheaders.2, hbody.2⟩

theorem tracks_send {r r' : Request} (hr : A.Requests r r') : A.Tracks r.send r'.send A.Data := by
  have hbody : (if r.method = "GET" then Value.null else r.body.renamed A.names) =
      (if r.method = "GET" then Value.null else r.body).renamed A.names := by
    split <;> rfl
  rw [Request.send, Request.send, hr.client, hr.method, hr.url, hr.headers, hr.body, hbody]
  exact .bind (tracks_fetch hr.clients r.url (.str r.method) r.headers _) fun _ _ hv => tracks_keep hv

/-! ## 8. Data -/

theorem fresh_renamed {σ : Renaming} (v : Value) : (v.renamed σ).fresh = v.fresh.renamed σ := by
  induction v using Value.induction with
  | plain v hp =>
    cases v with
    | list | dict | store => cases hp
    | _ => rfl
  | list cell xs ih =>
    rw [Value.renamed_list, Value.fresh_list, Value.fresh_list, Value.renamed_list, List.map_map, List.map_map]
    exact congrArg _ (List.map_congr_left ih)
  | dict cell ms ih =>
    rw [Value.renamed_dict, Value.fresh_dict, Value.fresh_dict, Value.renamed_dict, List.map_map, List.map_map]
    exact congrArg _ (List.map_congr_left fun m hm => congrArg (Prod.mk m.1) (ih m hm))
  | store cell name ms _ =>
    have hfresh : ∀ a (ns : List (String × Value)), (Value.store a name ns).fresh = .store a name ns := fun _ _ => rfl
    rw [Value.renamed_store, hfresh, hfresh, Value.renamed_store]

theorem tracks_copyData (hd : A.Declares .staticData d d') : A.Tracks d.copyData d'.copyData A.Data := by
  refine .bind (tracks_part hd "exec") fun work _ hwork => ?_
  obtain ⟨u, hu, rfl, rfl⟩ := hwork
  rw [Reply.orElse_nothing_renamed, fresh_renamed]
  exact tracks_keep ⟨hu.data rfl, rfl⟩

/-! ## 9. Batches -/

/-- Two orders that correspond. -/
structure Orders (A : Accord) (o o' : WorkOrder) : Prop where
  item : A.Data o.item o'.item
  prompted : Option.Rel A.Prompteds o.prompted o'.prompted

theorem Orders.carryOut {o o' : WorkOrder} (ho : A.Orders o o') : A.Tracks o.carryOut o'.carryOut A.Data := by
  obtain ⟨item, prompted⟩ := o
  obtain ⟨item', prompted'⟩ := o'
  obtain ⟨hitem, hprompted⟩ := ho
  cases hprompted with
  | none => exact .pure hitem
  | some hp => exact hp.call

theorem Orders.carryOutWaiting {o o' : WorkOrder} (ho : A.Orders o o') :
    A.Tracks (o.carryOutWaiting : Coop World Datum Datum) o'.carryOutWaiting A.Data := by
  obtain ⟨item, prompted⟩ := o
  obtain ⟨item', prompted'⟩ := o'
  obtain ⟨hitem, hprompted⟩ := ho
  cases hprompted with
  | none => exact .pure hitem
  | some hp => exact hp.callWaiting

theorem tracks_inputPath (hd : A.Declares k d d') : A.Tracks d.inputPath d'.inputPath Eq := by
  refine .bind (tracks_part hd "prep") fun prep _ hprep => ?_
  obtain ⟨u, -, rfl, rfl⟩ := hprep
  rw [Value.field_renamed, Value.field_renamed, Value.name?_renamed]
  cases (u.field "prep").field "inputs" with
  | list cell xs =>
    rw [Value.renamed_list]
    cases xs with
    | nil => exact .pure rfl
    | cons x xs =>
      have hname := Value.name?_renamed (σ := A.names) (x.field "path")
      rw [← Value.field_renamed] at hname
      exact .pure (congrArg (Option.getD · "items") hname.symm)
  | dict cell ms =>
    rw [Value.renamed_dict]
    exact .pure rfl
  | store cell name ms =>
    rw [Value.renamed_store]
    exact .pure rfl
  | _ => exact .pure rfl

theorem tracks_ordersFor (hid : d'.id = d.id) (hs : A.Scenes s s') {model : Model} (hmodel : A.Models model)
    {name name' : Value} (hname : A.Values name name') {t : Value} (ht : ∀ s, t = .str s → A.Fills (.str s))
    (hfree : t.Free A.sealed) {items items' : List Value} (hitems : List.Forall₂ A.Values items items') :
    A.Tracks (d.ordersFor s model name t items) (d'.ordersFor s' model name' (t.renamed A.names) items')
      (List.Forall₂ A.Orders) := by
  induction hitems with
  | nil => exact .pure .nil
  | cons hitem _ ih =>
    refine .bind (tracks_priorScope hs (.some hitem)) fun scope scope' hscope => ?_
    refine .bind (tracks_fill hid hscope ht) fun prompt prompt' hprompt => ?_
    refine .bind (tracks_keep hitem) fun kept kept' hkept => .bind ih fun more more' hmore => .pure ?_
    exact .cons ⟨hkept, .some ⟨rfl, hmodel, ⟨hprompt.1 hfree, hprompt.2⟩, hname⟩⟩ hmore

theorem fieldOr_of_field_ne_null {v : Value} {key : String} (other : Value) (h : v.field key ≠ .null) :
    Description.fieldOr v key other = v.field key := by
  rw [Description.fieldOr, Value.field]
  rw [Value.field] at h
  cases hget : Members.get? v.members key with
  | none =>
    rw [hget] at h
    exact absurd rfl h
  | some w => rfl

theorem tracks_workOrders (henv : A.Environments env) (hd : A.Declares k d d') (hk : k.prompts = true)
    (hs : A.Scenes s s') : A.Tracks (d.workOrders env s) (d'.workOrders env s') (List.Forall₂ A.Orders) := by
  refine .bind (tracks_inputPath hd) fun path _ hpath => ?_
  subst hpath
  refine .bind (R := List.Forall₂ A.Values) (tracks_reads fun w w' hw => ?_) fun items items' hitems => ?_
  · have hview := hw.heap.values (A := A) (d := .ref s.shared.data) ⟨Datum.free_ref.2 hs.contexts.free, rfl⟩
    rw [Datum.renamed_ref, ← hs.contexts.data] at hview
    have hsame : s'.shared.getPath? w'.heap path = (s.shared.getPath? w.heap path).map (Value.renamed A.names) := by
      rw [Shared.getPath?, Shared.getPath?, Shared.content, Shared.content, hview.2]
      exact Value.at?_renamed _ _
    have hfree := Terms.free_batchItems (o := s.shared.getPath? w.heap path) fun v hv => Terms.free_of_at? hview.1 hv
    rw [hsame, Value.batchItems_renamed, List.forall₂_map_right_iff, List.forall₂_same]
    exact fun x hx => ⟨hfree x hx, rfl⟩
  refine .bind (tracks_part hd "exec") fun work _ hwork => ?_
  obtain ⟨u, hu, rfl, rfl⟩ := hwork
  -- without a prompt the elements are handed on; with one it is the declared prompt
  have hnull : (((u.field "exec").renamed A.names).field "prompt" = .null ↔ (u.field "exec").field "prompt" = .null) := by
    rw [Value.field_renamed]
    cases (u.field "exec").field "prompt" <;> simp
  by_cases hprompt : (u.field "exec").field "prompt" = .null
  · rw [hprompt, hnull.2 hprompt]
    refine .bind (tracks_eachOf hitems fun x x' hx => tracks_keep hx) fun kept kept' hkept => .pure ?_
    rw [List.forall₂_map_left_iff, List.forall₂_map_right_iff]
    exact hkept.imp fun _ _ hd => ⟨hd, .none⟩
  · have hgiven := fieldOr_of_field_ne_null (.str "") hprompt
    have hfills := hu.prompt hk
    have hfree := hu.prompt_free hk
    rw [hgiven] at hfills hfree
    have horders : A.Tracks (do
        let model ← Act.ofExcept (env.modelFor d.id)
        let name ← d.modelName env s
        d.ordersFor s model name ((u.field "exec").field "prompt") items) (do
        let model ← Act.ofExcept (env.modelFor d'.id)
        let name ← d'.modelName env s'
        d'.ordersFor s' model name (((u.field "exec").field "prompt").renamed A.names) items')
        (List.Forall₂ A.Orders) := by
      rw [hd.id]
      refine .bind (tracks_ofExcept (henv.modelFor d.id)) fun model _ hmodel => ?_
      obtain ⟨rfl, hmodel⟩ := hmodel
      exact .bind (tracks_nameOf henv hd hk hs) fun name name' hname =>
        tracks_ordersFor hd.id hs hmodel hname hfills hfree hitems
    rw [Value.field_renamed]
    revert hprompt horders
    cases (u.field "exec").field "prompt" with
    | null => exact fun h => absurd rfl h
    | list | dict | store =>
      simp only [Value.renamed_list, Value.renamed_dict, Value.renamed_store]
      exact fun _ h => h
    | _ => exact fun _ h => h

/-! ## 10. Cases -/

theorem casesOf_renamed {σ : Renaming} (v : Value) :
    Declared.casesOf (v.renamed σ) = (Declared.casesOf v).map (List.map (Value.renamed σ)) := by
  rw [Declared.casesOf.eq_def, Declared.casesOf.eq_def, Value.truthy_renamed]
  split
  · rfl
  · cases v with
    | list cell xs => simp [Except.map]
    | dict cell ms => simp [Except.map]
    | store cell name ms => simp [Except.map]
    | str s => simp [Except.map]
    | _ => rfl

theorem tracks_firstCase (hid : d'.id = d.id) {scope scope' : Scope} (hscope : A.Scopes scope scope') {cs : List Value}
    (hlabel : ∀ c ∈ cs, (c.field "label").IsEnding)
    (hcondition : ∀ c ∈ cs, c.field "when" ≠ .null → ∀ s s', A.Scopes s s' →
      Template.Agree A.names s s' (c.field "when").plain.toList) :
    A.Tracks (d.firstCase scope cs) (d'.firstCase scope' (cs.map (Value.renamed A.names)))
      fun v v' => v.IsEnding ∧ v' = v.renamed A.names := by
  induction cs with
  | nil => exact .pure ⟨Or.inl rfl, rfl⟩
  | cons c rest ih =>
    rw [List.forall_mem_cons] at hlabel hcondition
    have hrest := ih hlabel.2 hcondition.2
    rw [List.map_cons, Declared.firstCase, Declared.firstCase, Value.isDict_renamed, Value.field_renamed,
      Value.field_renamed]
    split
    · exact tracks_fail _
    have hdecided : ∀ t : Value, Template.Agree A.names scope scope' t.plain.toList → A.Tracks (do
        if ← World.settle (Template.condition scope d.id t) then pure (c.field "label") else d.firstCase scope rest)
        (do
        if ← World.settle (Template.condition scope' d'.id (t.renamed A.names)) then
          pure ((c.field "label").renamed A.names)
        else d'.firstCase scope' (rest.map (Value.renamed A.names)))
        fun v v' => v.IsEnding ∧ v' = v.renamed A.names := by
      intro t ht
      rw [hid]
      refine .bind (tracks_settle (Template.condition_alike ht)) fun applies _ happlies => ?_
      subst happlies
      split
      · exact .pure ⟨hlabel.1, rfl⟩
      · exact hrest
    have hagree := hcondition.1
    cases hwhen : c.field "when" with
    | null => exact .pure ⟨hlabel.1, rfl⟩
    | list cell xs =>
      have ht := hdecided (.list cell xs) (hwhen ▸ hagree (by rw [hwhen]; simp) _ _ hscope)
      rw [Value.renamed_list] at ht ⊢
      exact ht
    | dict cell ms =>
      have ht := hdecided (.dict cell ms) (hwhen ▸ hagree (by rw [hwhen]; simp) _ _ hscope)
      rw [Value.renamed_dict] at ht ⊢
      exact ht
    | store cell name ms =>
      have ht := hdecided (.store cell name ms) (hwhen ▸ hagree (by rw [hwhen]; simp) _ _ hscope)
      rw [Value.renamed_store] at ht ⊢
      exact ht
    | _ => exact hdecided _ (hwhen ▸ hagree (by rw [hwhen]; simp) _ _ hscope)

theorem tracks_route (hd : A.Declares .router d d') (hs : A.Scenes s s') :
    A.Tracks (d.route s) (d'.route s') SameLabel := by
  refine .bind (tracks_recordVisit hd hs) fun _ _ _ => ?_
  refine .bind (tracks_priorScope hs .none) fun scope scope' hscope => ?_
  refine .bind (tracks_part hd "exec") fun work _ hwork => ?_
  obtain ⟨u, hu, rfl, rfl⟩ := hwork
  have hcases : EndsAlike (fun cs cs' => Declared.casesOf ((u.field "exec").field "cases") = .ok cs ∧
      cs' = cs.map (Value.renamed A.names)) (Declared.casesOf ((u.field "exec").field "cases"))
      (Declared.casesOf (((u.field "exec").renamed A.names).field "cases")) := by
    rw [Value.field_renamed, casesOf_renamed]
    cases Declared.casesOf ((u.field "exec").field "cases") with
    | error f => exact .error f
    | ok cs => exact .ok ⟨rfl, rfl⟩
  refine .bind (tracks_ofFault hcases) fun cs _ hcs => ?_
  obtain ⟨hcs, rfl⟩ := hcs
  exact .bind (tracks_firstCase hd.id hscope (hu.label rfl cs hcs) (hu.condition rfl cs hcs)) fun v v' hv =>
    tracks_label hv.1 hv.2

/-! ## 11. Every kind -/

/-- Two conducts that are no walks and do the same in scenes that correspond. -/
inductive Conducts (A : Accord) : Conduct → Conduct → Prop
  | blocking {visit visit' : Scene → Act World Datum} :
    (∀ s s', A.Scenes s s' → A.Tracks (visit s) (visit' s') SameLabel) → Conducts A (.blocking visit) (.blocking visit')
  | cooperative {visit visit' : Scene → Coop World Datum Datum} :
    (∀ s s', A.Scenes s s' → A.Tracks (visit s) (visit' s') SameLabel) →
    Conducts A (.cooperative visit) (.cooperative visit')

section

variable {m : Type → Type u} [Performs World m] [Lockstep World Datum m]

theorem tracks_guarded (hd : A.Declares k d d') (hs : A.Scenes s s') {visit visit' : m Datum}
    (hvisit : A.Tracks visit visit' SameLabel) : A.Tracks (d.guarded s visit) (d'.guarded s' visit') SameLabel := by
  refine .bind (.perform (tracks_guardExit? hd hs)) fun o _ ho => ?_
  subst ho
  cases o with
  | none => exact hvisit
  | some label => exact .pure ⟨rfl, Or.inr ⟨label, rfl⟩⟩

theorem stages_declared {α α' β β' : Type} {P : α → α' → Prop} {Q : β → β' → Prop} {L : Datum → Datum → Prop}
    {prep : Act World α} {prep' : Act World α'} {exec : β → m Datum} {exec' : β' → m Datum}
    {post post' : Datum → Act World Datum} (hprep : A.Tracks prep prep' P)
    (hexec : ∀ b b', Q b b' → A.Tracks (exec b) (exec' b') A.Data)
    (hpost : ∀ r r', A.Data r r' → A.Tracks (post r) (post' r') L) :
    A.Stages (Declared.stages prep exec post) (Declared.stages prep' exec' post') P Q L where
  prep := .perform hprep
  exec := hexec
  fallback _ _ e := .throw e
  post _ _ r r' _ hr := .perform (hpost r r' hr)

end

theorem conducts_single {α : Type} {P : α → α → Prop} {title kind : String}
    {prep : Environment → Declared → Scene → Act World α} {exec : Environment → Declared → α → Act World Datum}
    {post : Declared → Scene → Datum → Act World Datum} (hd : A.Declares k d d')
    (hprep : ∀ s s', A.Scenes s s' → A.Tracks (prep env d s) (prep env d' s') P)
    (hexec : ∀ a a', P a a' → A.Tracks (exec env d a) (exec env d' a') A.Data)
    (hpost : ∀ s s' r r', A.Scenes s s' → A.Data r r' → A.Tracks (post d s r) (post d' s' r') SameLabel)
    (policy : RetryPolicy) (number number' : Nat) :
    A.Conducts ((Make.single title kind prep exec post).conduct env d policy number)
      ((Make.single title kind prep exec post).conduct env d' policy number') :=
  .blocking fun s s' hs => tracks_guarded hd hs
    (stages_declared (hprep s s' hs) hexec fun r r' hr => hpost s s' r r' hs hr).once

theorem stages_orders {m : Type → Type u} [Performs World m] [Lockstep World Datum m] {exec : WorkOrder → m Datum}
    (henv : A.Environments env) (hd : A.Declares k d d') (hk : k.prompts = true) (hs : A.Scenes s s')
    (hexec : ∀ o o', A.Orders o o' → A.Tracks (exec o) (exec o') A.Data) :
    A.Stages (Declared.stages (d.workOrders env s) exec (d.finish s))
      (Declared.stages (d'.workOrders env s') exec (d'.finish s')) (List.Forall₂ A.Orders) A.Orders SameLabel :=
  stages_declared (tracks_workOrders henv hd hk hs) hexec fun r r' hr =>
    tracks_finish hd (by rintro rfl; cases hk) hs hr

/-- Whatever way a node of a built-in kind is made, its visits stay in accord. -/
theorem conducts_ofKind (henv : A.Environments env) (modelWaits : Bool) (hd : A.Declares k d d') (policy : RetryPolicy)
    (number number' : Nat) : A.Conducts ((Make.ofKind modelWaits k).conduct env d policy number)
      ((Make.ofKind modelWaits k).conduct env d' policy number') := by
  have hcooperative : k.prompts = true → A.Conducts (Make.cooperative.conduct env d policy number)
      (Make.cooperative.conduct env d' policy number') := by
    intro hk
    refine .cooperative fun s s' hs => tracks_guarded hd hs ?_
    exact (stages_declared (m := Coop World Datum) (tracks_preparePrompt henv hd hk hs) (fun _ _ hp => hp.callWaiting)
      fun r r' hr => tracks_finish hd (by rintro rfl; cases hk) hs hr).once
  cases k with
  | router =>
    exact conducts_single (P := fun _ _ => True) hd (fun _ _ _ => .pure trivial) (fun _ _ _ => .pure data_null)
      (fun _ _ _ _ hs _ => tracks_route hd hs) policy number number'
  | httpCall =>
    exact conducts_single hd (fun _ _ hs => tracks_prepareRequest henv hd hs) (fun _ _ hr => tracks_send hr)
      (fun _ _ _ _ hs hr => tracks_finish hd nofun hs hr) policy number number'
  | staticData =>
    exact conducts_single (P := fun _ _ => True) hd (fun _ _ _ => .pure trivial) (fun _ _ _ => tracks_copyData hd)
      (fun _ _ _ _ hs hr => tracks_finish hd nofun hs hr) policy number number'
  | llmCall =>
    cases modelWaits with
    | true => exact hcooperative rfl
    | false =>
      exact conducts_single hd (fun _ _ hs => tracks_preparePrompt henv hd rfl hs) (fun _ _ hp => hp.call)
        (fun _ _ _ _ hs hr => tracks_finish hd nofun hs hr) policy number number'
  | cooperative => exact hcooperative rfl
  | batch =>
    cases modelWaits with
    | true =>
      refine .cooperative fun s s' hs => tracks_guarded hd hs ?_
      exact (stages_orders (m := Coop World Datum) henv hd rfl hs fun _ _ ho => ho.carryOutWaiting).inOrder
        fun _ _ ho => .pure ho
    | false =>
      refine .blocking fun s s' hs => tracks_guarded hd hs ?_
      exact (stages_orders (m := Act World) henv hd rfl hs fun _ _ ho => ho.carryOut).inOrder fun _ _ ho => .pure ho
  | cooperativeParallel =>
    refine .cooperative fun s s' hs => tracks_guarded hd hs ?_
    exact (stages_orders (m := Coop World Datum) henv hd rfl hs fun _ _ ho => ho.carryOutWaiting).together
      fun _ _ ho => .pure ho

end Accord

end NodeFlow
