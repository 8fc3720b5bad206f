import NodeFlow.Proofs.Collaborator.Terms
import NodeFlow.Proofs.Run.Accord
/-!
# Collaborators in accord

Collaborators are asked by both runs. They stay in accord if a collaborator answers questions that correspond with
answers that correspond, call by call. So it is whenever a collaborator looks at what it is given only, and not at
where that is.
-/

set_option autoImplicit false

universe u

namespace NodeFlow

variable {σ : Renaming}

/-! ## 1. Answers under other names -/

/-- An answer of a model under a renaming. -/
def Reply.renamed (σ : Renaming) : Reply → Reply
  | .value v => .value (v.renamed σ)
  | .response attributes => .response (attributes.map fun a => (a.1, a.2.renamed σ))

/-- What comes back over a session under a renaming. -/
def SessionAnswer.renamed (σ : Renaming) : SessionAnswer → SessionAnswer
  | .response status body headers => .response (status.renamed σ) (body.map (Value.renamed σ)) (headers.renamed σ)
  | .broken text => .broken text

namespace Reply

theorem form_renamed (text about : Value) :
    form (text.renamed σ) (about.renamed σ) = (form text about).renamed σ := by
  rw [form, form, Value.renamed_ofMembers]
  rfl

theorem orElse_nothing_renamed (v : Value) :
    (v.renamed σ).orElse (.ofMembers []) = (v.orElse (.ofMembers [])).renamed σ := by
  have h := Value.orElse_renamed (σ := σ) v (.ofMembers [])
  rwa [Value.renamed_ofMembers, List.map_nil] at h

theorem lastError_renamed (v : Value) : lastError (v.renamed σ) = (lastError v).map (Value.renamed σ) := by
  cases v with
  | list cell xs =>
    rw [Value.renamed_list, lastError, lastError, List.getLast?_map]
    cases xs.getLast? with
    | none => rfl
    | some x =>
      cases x with
      | dict cell ms =>
        simp only [Option.map_some, Value.renamed_dict, Members.get?_map]
        cases Members.get? ms "error" <;> rfl
      | _ => rfl
  | _ => rfl

theorem complaint_renamed (attributes : List (String × Value)) :
    complaint (attributes.map fun a => (a.1, a.2.renamed σ)) = complaint attributes := by
  have hhistory : (Members.get? (attributes.map fun a => (a.1, a.2.renamed σ)) "error_history").getD .null =
      ((Members.get? attributes "error_history").getD .null).renamed σ := by
    rw [Members.get?_map]
    cases Members.get? attributes "error_history" <;> rfl
  rw [complaint, complaint, hhistory, Value.truthy_renamed, lastError_renamed]
  cases lastError ((Members.get? attributes "error_history").getD .null) with
  | ok v => simp only [Except.map, Value.plain_renamed]
  | error f => rfl

theorem hasFailed_renamed (attributes : List (String × Value)) :
    hasFailed (attributes.map fun a => (a.1, a.2.renamed σ)) = hasFailed attributes := by
  rw [hasFailed, hasFailed, Members.get?_map]
  cases Members.get? attributes "success" with
  | none => rfl
  | some v => cases v <;> rfl

theorem attributesNotation_renamed (attributes : List (String × Value)) :
    attributesNotation (attributes.map fun a => (a.1, a.2.renamed σ)) = attributesNotation attributes := by
  simp only [attributesNotation, List.filter_map, List.map_map, Function.comp_def, Value.notate_renamed]

/-- The one form of an answer does not depend on names. -/
theorem normalize_renamed (r : Reply) : (r.renamed σ).normalize = r.normalize.map (Value.renamed σ) := by
  cases r with
  | value v =>
    cases v with
    | dict cell ms =>
      rw [renamed, Value.renamed_dict, normalize, normalize, Members.get?_map]
      cases Members.get? ms "text" with
      | none =>
        simp only [Option.map_none, List.map_map]
        rfl
      | some text =>
        have habout : (Members.get? (ms.map fun m => (m.1, m.2.renamed σ)) "meta").getD .null =
            ((Members.get? ms "meta").getD .null).renamed σ := by
          rw [Members.get?_map]
          cases Members.get? ms "meta" <;> rfl
        simp only [Option.map_some]
        rw [habout, orElse_nothing_renamed, form_renamed]
        rfl
    | str s =>
      have hform := form_renamed (σ := σ) (.str s) (.ofMembers [])
      rw [Value.renamed_ofMembers, List.map_nil] at hform
      exact congrArg Except.ok hform
    | _ => exact congrArg (fun t => Except.error (unusable t)) (Value.notate_renamed _)
  | response attributes =>
    rw [renamed, normalize, normalize, Members.get?_map]
    cases Members.get? attributes "content" with
    | none => exact congrArg (fun t => Except.error (unusable t)) (attributesNotation_renamed attributes)
    | some content =>
      simp only [Option.map_some]
      rw [hasFailed_renamed, complaint_renamed]
      split
      · cases complaint attributes <;> rfl
      · have hknown : (["provider", "model", "attempts"].filterMap fun k =>
              (Members.get? (attributes.map fun a => (a.1, a.2.renamed σ)) k).map fun v => (k, v)) =
            (["provider", "model", "attempts"].filterMap fun k =>
              (Members.get? attributes k).map fun v => (k, v)).map fun m => (m.1, m.2.renamed σ) := by
          rw [List.map_filterMap]
          refine List.filterMap_congr fun k _ => ?_
          rw [Members.get?_map]
          cases Members.get? attributes k <;> rfl
        rw [hknown, ← Value.renamed_ofMembers, form_renamed]
        rfl

end Reply

/-! ## 2. Collaborators -/

/-- The collaborators of an environment answer the same under other names. -/
structure Environment.Indifferent (env : Environment) (σ : Renaming) : Prop where
  answer : ∀ m, env.model = some m → ∀ n prompt name,
    m.answer n (prompt.renamed σ) (name.renamed σ) = (m.answer n prompt name).map (Reply.renamed σ)
  turns : ∀ m, env.model = some m → ∀ prompt, m.turns (prompt.renamed σ) = m.turns prompt
  http : ∀ answer, env.http = some (.given answer) → ∀ n, (answer n).map (Value.renamed σ) = answer n
  session : ∀ client, env.http = some (.session client) → ∀ n, (client.answer n).renamed σ = client.answer n
  ownSession : ∀ answer, env.ownSession = some answer → ∀ n, (answer n).renamed σ = answer n

namespace Accord

variable {A : Accord}

/-- A model that answers both runs alike. -/
structure Models (A : Accord) (m : Model) : Prop where
  answer : ∀ k prompt name, prompt.Free A.sealed → name.Free A.sealed →
    EndsAlike (fun r r' => r.Free A.sealed ∧ r' = r.renamed A.names) (m.answer (A.before.count m.line + k) prompt name)
      (m.answer (A.before'.count m.line + k) (prompt.renamed A.names) (name.renamed A.names))
  turns : ∀ prompt, m.turns (prompt.renamed A.names) = m.turns prompt

/-- Two answers over a session that correspond. -/
def Answers (A : Accord) (r r' : SessionAnswer) : Prop := r.Free A.sealed ∧ r' = r.renamed A.names

/-- An HTTP collaborator that answers both runs alike. -/
def Clients (A : Accord) : HttpClient → Prop
  | .given answer => ∀ k, EndsAlike A.Values (answer (A.before.count .http + k)) (answer (A.before'.count .http + k))
  | .session client => ∀ k, A.Answers (client.answer (A.before.count .session + k))
      (client.answer (A.before'.count .session + k))

/-- An environment for both runs. What the common parameters and those of the run name as a model is free. -/
structure Environments (A : Accord) (env : Environment) : Prop where
  model : ∀ m, env.model = some m → A.Models m
  http : ∀ c, env.http = some c → A.Clients c
  session : ∀ answer, env.ownSession = some answer → ∀ k,
    A.Answers (answer (A.before.count .session + k)) (answer (A.before'.count .session + k))
  globals : env.globals.Free A.hidden
  globals_eq : env.globals.renamed A.names = env.globals
  common : ∀ h h', A.Heaps h h' → ∀ ms, env.commonMembers? h = some ms →
    (h.view ((Members.get? ms "model").getD .null)).Free A.sealed
  params : ∀ v, A.params v → (v.field "model").Free A.sealed

/-! ## 3. Calls -/

theorem tracks_respond {m : Model} (hm : A.Models m) {prompt prompt' name name' : Value}
    (hprompt : A.Values prompt prompt') (hname : A.Values name name') :
    A.Tracks (m.respond prompt name) (m.respond prompt' name') A.Values := by
  obtain ⟨hprompt, rfl⟩ := hprompt
  obtain ⟨hname, rfl⟩ := hname
  refine .bind (tracks_log (.modelCall prompt name)) fun _ _ _ => .bind (tracks_countCall m.line) fun n n' hn => ?_
  obtain ⟨k, rfl, rfl⟩ := hn
  refine .bind (tracks_ofExcept (hm.answer k prompt name hprompt hname)) fun r r' hr => tracks_ofExcept ?_
  obtain ⟨hfree, rfl⟩ := hr
  rw [Reply.normalize_renamed]
  have hends : NodeFlow.Ends (fun _ => True) (Value.Free A.sealed) r.normalize :=
    Terms.ends_of_normalize (fun _ => trivial) (fun _ => trivial) hfree
  cases hnormal : r.normalize with
  | error e => exact .error e
  | ok v =>
    rw [hnormal] at hends
    exact .ok ⟨hends, rfl⟩

theorem tracks_call {m : Model} (hm : A.Models m) {prompt prompt' name name' : Value}
    (hprompt : A.Values prompt prompt') (hname : A.Values name name') :
    A.Tracks (m.call prompt name) (m.call prompt' name') A.Values := by
  rw [Model.call, Model.call]
  split
  · exact tracks_respond hm hprompt hname
  · exact tracks_fail _

theorem tracks_callWaiting {m : Model} (hm : A.Models m) {prompt prompt' name name' : Value}
    (hprompt : A.Values prompt prompt') (hname : A.Values name name') :
    A.Tracks (m.callWaiting prompt name : Coop World Datum Value) (m.callWaiting prompt' name') A.Values := by
  have hturns : m.turns prompt' = m.turns prompt := hprompt.2 ▸ hm.turns prompt
  rw [Model.callWaiting, Model.callWaiting, hturns]
  exact .bind (R := fun _ _ => True) (Coop.tracks_turns _) fun _ _ _ => .perform (tracks_respond hm hprompt hname)

theorem values_ofMembers {ms ms' : List (String × Value)}
    (h : List.Forall₂ (fun m m' => m'.1 = m.1 ∧ A.Values m.2 m'.2) ms ms') : A.Values (.ofMembers ms) (.ofMembers ms') := by
  have hall : (∀ m ∈ ms, m.2.Free A.sealed) ∧ ms' = ms.map fun m => (m.1, m.2.renamed A.names) := by
    induction h with
    | nil => exact ⟨fun m hm => absurd hm List.not_mem_nil, rfl⟩
    | cons hm _ ih =>
      exact ⟨List.forall_mem_cons.2 ⟨hm.2.1, ih.1⟩, by rw [List.map_cons, ← hm.1, ← hm.2.2, ← ih.2]⟩
  exact ⟨Value.free_ofMembers hall.1, by rw [hall.2, Value.renamed_ofMembers]⟩

theorem tracks_fetch {c : HttpClient} (hc : A.Clients c) (url method headers body : Value) :
    A.Tracks (c.fetch url method headers body)
      (c.fetch (url.renamed A.names) (method.renamed A.names) (headers.renamed A.names) (body.renamed A.names))
      A.Values := by
  cases c with
  | given answer =>
    refine .bind (tracks_log (.httpCall url method headers body)) fun _ _ _ => ?_
    refine .bind (tracks_countCall .http) fun n n' hn => ?_
    obtain ⟨k, rfl, rfl⟩ := hn
    exact tracks_ofExcept (hc k)
  | session client =>
    have hmethod : EndsAlike Eq (SessionClient.methodName method)
        (SessionClient.methodName (method.renamed A.names)) := by
      have hsame : SessionClient.methodName (method.renamed A.names) = SessionClient.methodName method := by
        cases method with
        | str s => rfl
        | list | dict | store => simp [SessionClient.methodName, Value.truthy]
        | float x => cases x <;> rfl
        | _ => rfl
      rw [hsame]
      cases SessionClient.methodName method with
      | ok s => exact .ok rfl
      | error f => exact .error f
    refine .bind (tracks_ofFault hmethod) fun name _ hname => ?_
    subst hname
    have hpayload : (if name = "GET" then Value.null else body.renamed A.names) =
        (if name = "GET" then Value.null else body).renamed A.names := by
      split <;> rfl
    rw [hpayload, Reply.orElse_nothing_renamed, Value.plain_renamed]
    refine .bind (tracks_log (.request name url _ _ client.timeout)) fun _ _ _ => ?_
    refine .bind (tracks_countCall .session) fun n n' hn => ?_
    obtain ⟨k, rfl, rfl⟩ := hn
    obtain ⟨hfree, heq⟩ := hc k
    rw [heq]
    cases hanswer : client.answer (A.before.count .session + k) with
    | broken text => exact tracks_fail _
    | response status body headers =>
      rw [hanswer] at hfree
      obtain ⟨hstatus, hbody, hheaders⟩ := hfree
      refine .pure (values_ofMembers ?_)
      refine .cons ⟨rfl, hstatus, rfl⟩ (.cons ⟨rfl, ?_⟩ (.cons ⟨rfl, hheaders, rfl⟩ .nil))
      cases body with
      | none => exact ⟨Value.free_nothing, (Value.renamed_ofMembers (σ := A.names) []).symm⟩
      | some v => exact ⟨hbody v rfl, rfl⟩

/-! ## 4. The environment -/

variable {env : Environment}

theorem Environments.modelFor (henv : A.Environments env) (node : String) :
    EndsAlike (fun m m' => m' = m ∧ A.Models m) (env.modelFor node) (env.modelFor node) := by
  rw [Environment.modelFor]
  cases hmodel : env.model with
  | none => exact .error _
  | some m => exact .ok ⟨rfl, henv.model m hmodel⟩

theorem Environments.httpFor (henv : A.Environments env) (node : String) :
    EndsAlike (fun c c' => c' = c ∧ A.Clients c) (env.httpFor node) (env.httpFor node) := by
  rw [Environment.httpFor]
  split
  · next client hclient => exact .ok ⟨rfl, henv.http client hclient⟩
  · next answer _ hanswer =>
    split
    · exact .ok ⟨rfl, henv.session answer hanswer⟩
    · exact .error _
  · exact .error _

theorem Environments.commonMembers? (henv : A.Environments env) {h h' : Heap} (hh : A.Heaps h h') :
    env.commonMembers? h' = (env.commonMembers? h).map fun ms => ms.map fun m => (m.1, m.2.renamed A.names) := by
  have hview := hh.view henv.globals
  rw [henv.globals_eq] at hview
  have hfree := hh.shows.apart.view henv.globals
  -- what is no object in memory counts as true under either name, or as false
  have hother : ∀ v : Value, (if (v.renamed A.names).truthy then none else some ([] : Members Datum)) =
      (if v.truthy then none else some ([] : Members Datum)).map fun ms => ms.map fun m =>
        (m.1, m.2.renamed A.names) := by
    intro v
    rw [Value.truthy_renamed]
    split <;> rfl
  rw [Environment.commonMembers?, Environment.commonMembers?, hview]
  cases hv : h.view env.globals with
  | dict cell ms =>
    rw [hv] at hfree
    rw [Value.renamed_dict]
    cases cell with
    | some a => exact congrArg some (hh.shows.membersAt ((Value.free_dict.1 hfree).1 a rfl))
    | none => exact Value.renamed_dict (σ := A.names) none ms ▸ hother (.dict none ms)
  | list cell xs => exact hother (.list cell xs)
  | store a name ms => exact hother (.store a name ms)
  | float x => exact hother (.float x)
  | _ => exact hother _

theorem tracks_commonModelName (henv : A.Environments env) :
    A.Tracks env.commonModelName env.commonModelName A.Values := by
  refine .of_forall fun w w' hw => ?_
  have hfree := henv.common _ _ hw.heap
  simp only [Environment.commonModelName, bind, Act.bind, Act.reads]
  rw [henv.commonMembers? hw.heap]
  cases hms : env.commonMembers? w.heap with
  | none => exact ⟨hw, .error _⟩
  | some ms =>
    have hhidden := Terms.free_commonMembers hw.heap.shows.apart henv.globals hms
    have hview := hw.heap.view (Members.forall_getD hhidden Datum.free_null "model")
    have hname : (Members.get? (ms.map fun m => (m.1, m.2.renamed A.names)) "model").getD .null =
        ((Members.get? ms "model").getD .null).renamed A.names := by
      rw [Members.get?_map]
      cases Members.get? ms "model" <;> rfl
    refine ⟨hw, .ok ⟨hfree ms hms, ?_⟩⟩
    dsimp only
    rw [hname, hview]

/-- The name of the model to call is the same in both runs, and free. -/
theorem tracks_modelName (henv : A.Environments env) {declared declared' params params' : Value}
    (hdeclared : A.Values declared declared') (hparams : A.params params) (heq : params' = params.renamed A.names) :
    A.Tracks (env.modelName declared params) (env.modelName declared' params') A.Values := by
  obtain ⟨hfree, rfl⟩ := hdeclared
  subst heq
  have hnamed := Value.free_orElse hfree (henv.params params hparams)
  rw [Environment.modelName, Environment.modelName, Value.field_renamed, Value.orElse_renamed,
    Value.truthy_renamed]
  split
  · exact .pure ⟨hnamed, rfl⟩
  · refine .bind (tracks_commonModelName henv) fun common _ hcommon => ?_
    obtain ⟨hcommon, rfl⟩ := hcommon
    rw [Value.truthy_renamed]
    split
    · exact .pure ⟨hcommon, rfl⟩
    · have hsettings : EndsAlike Eq env.settings env.settings := by
        cases env.settings with
        | ok s => exact .ok rfl
        | error f => exact .error f
      refine .bind (tracks_ofFault hsettings) fun s _ hs => ?_
      subst hs
      exact .pure ⟨Value.free_of_isPlain rfl, rfl⟩

end Accord

end NodeFlow
