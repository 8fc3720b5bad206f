import NodeFlow.Compile.Environment
import NodeFlow.Proofs.Run.Terms
import NodeFlow.Proofs.Template.Free
/-!
# Collaborators that keep the terms

Nothing is known of what a collaborator answers, except what the terms ask of it: its answers refer to
no sealed memory if it is called with nothing that does, and its failures are allowed.
-/

set_option autoImplicit false

universe u

namespace NodeFlow

/-! ## 1. What is asked of collaborators -/

/-- An answer of a model that is free, in its value or its attributes. -/
def Reply.Free (S : Seal) : Reply → Prop
  | .value v => v.Free S
  | .response attributes => ∀ a ∈ attributes, a.2.Free S

/-- What comes back over a session is free. -/
def SessionAnswer.Free (S : Seal) : SessionAnswer → Prop
  | .response status body headers =>
    status.Free S ∧ (∀ v, body = some v → v.Free S) ∧ headers.Free S
  | .broken _ => True

namespace Terms

variable {τ : Type}

/-- A model that keeps the terms. -/
def Suits (T : Terms τ) (m : Model) : Prop :=
  ∀ n prompt name, prompt.Free T.sealed → name.Free T.sealed →
    T.Ends (Reply.Free T.sealed) (m.answer n prompt name)

/-- An HTTP collaborator that keeps the terms. -/
def SuitsClient (T : Terms τ) : HttpClient → Prop
  | .given answer => ∀ n, T.Ends (Value.Free T.sealed) (answer n)
  | .session client => ∀ n, (client.answer n).Free T.sealed

/-- An environment that keeps the terms. -/
structure SuitsAll (T : Terms τ) (env : Environment) : Prop where
  model : ∀ m, env.model = some m → T.Suits m
  http : ∀ c, env.http = some c → T.SuitsClient c
  session : ∀ answer, env.ownSession = some answer → ∀ n, (answer n).Free T.sealed
  globals : env.globals.Free T.sealed

variable {T : Terms τ}

/-! ## 2. Replies -/

theorem free_field {S : Seal} {v : Value} (hv : v.Free S) (key : String) : (v.field key).Free S := by
  cases v with
  | dict cell ms =>
    exact Members.forall_getD (Value.free_dict.1 hv).2 (Value.free_of_isPlain rfl) key
  | _ => exact Value.free_of_isPlain rfl

theorem free_form {S : Seal} {text about : Value} (htext : text.Free S) (habout : about.Free S) :
    (Reply.form text about).Free S :=
  Value.free_ofMembers (List.forall_mem_cons.2 ⟨htext, List.forall_mem_singleton.2 habout⟩)

/-- A reply that is free is made into a free value, or it is of no use and that is a failure of its own. -/
theorem ends_of_normalize {S : Seal} {fails : Failure → Prop} (hfail : ∀ text, fails (.execution text))
    (hfault : ∀ f, fails (.fault f)) {r : Reply} (hr : r.Free S) :
    NodeFlow.Ends fails (Value.Free S) r.normalize := by
  rw [Reply.normalize.eq_def]
  split
  · -- an object: its text and what it says about it are members
    next cell ms =>
    have hms := (Value.free_dict.1 hr).2
    split
    · exact hfail _
    · next text htext =>
      refine free_form (hms _ (Members.mem_of_get? htext)) (Value.free_orElse ?_ Value.free_nothing)
      exact Members.forall_getD hms (Value.free_of_isPlain rfl) "meta"
  · exact free_form (Value.free_of_isPlain rfl) Value.free_nothing
  · exact hfail _
  · -- a response: they are attributes
    next attributes =>
    split
    · exact hfail _
    · next content hcontent =>
      split
      · split
        · exact hfail _
        · exact hfault _
      · refine free_form (hr _ (Members.mem_of_get? hcontent)) (Value.free_ofMembers fun m hm => ?_)
        obtain ⟨key, -, hkey⟩ := List.mem_filterMap.1 hm
        obtain ⟨v, hv, rfl⟩ := Option.map_eq_some_iff.1 hkey
        exact hr _ (Members.mem_of_get? hv)

/-! ## 3. Calls -/

theorem keeps_respond {m : Model} (hm : T.Suits m) {prompt name : Value}
    (hprompt : prompt.Free T.sealed) (hname : name.Free T.sealed) :
    T.Keeps (m.respond prompt name) (Value.Free T.sealed) := by
  refine .bind (keeps_log nofun) fun _ _ => .bind (keeps_countCall _) ?_
  intro n _
  refine .bind (keeps_ofExcept (hm n prompt name hprompt hname)) ?_
  intro r hr
  exact keeps_ofExcept
    (ends_of_normalize (fun _ => T.fails_of_ne _ nofun) (fun _ => T.fails_of_ne _ nofun) hr)

theorem keeps_call {m : Model} (hm : T.Suits m) {prompt name : Value}
    (hprompt : prompt.Free T.sealed) (hname : name.Free T.sealed) :
    T.Keeps (m.call prompt name) (Value.Free T.sealed) := by
  rw [Model.call]
  split
  · exact keeps_respond hm hprompt hname
  · exact keeps_fail nofun

theorem keeps_callWaiting {m : Model} (hm : T.Suits m) {prompt name : Value}
    (hprompt : prompt.Free T.sealed) (hname : name.Free T.sealed) :
    T.Keeps (m.callWaiting prompt name : Coop World Datum Value) (Value.Free T.sealed) := by
  have hturns : T.Keeps (Coop.turns (if m.calling = .direct then 0 else m.turns prompt) :
      Coop World Datum Unit) fun _ => True := Coop.meets_turns _ trivial
  exact .bind hturns fun _ _ => .perform (keeps_respond hm hprompt hname)

theorem keeps_fetch {c : HttpClient} (hc : T.SuitsClient c) (url method headers body : Value) :
    T.Keeps (c.fetch url method headers body) (Value.Free T.sealed) := by
  cases c with
  | given answer =>
    refine .bind (keeps_log nofun) ?_
    intro _ _
    exact .bind (keeps_countCall _) fun n _ => keeps_ofExcept (hc n)
  | session client =>
    refine .bind (keeps_faultable _) ?_
    intro method' _
    refine .bind (keeps_log nofun) ?_
    intro _ _
    refine .bind (keeps_countCall _) ?_
    intro n _
    have hanswer := hc n
    split
    · exact keeps_fail nofun
    · -- what comes back is put together from three parts, the body only if there is one
      next status data headers' heq =>
      rw [heq] at hanswer
      obtain ⟨hstatus, hdata, hheaders⟩ := hanswer
      refine .pure (Value.free_ofMembers ?_)
      refine List.forall_mem_cons.2 ⟨hstatus, List.forall_mem_cons.2 ⟨?_, ?_⟩⟩
      · exact free_getD hdata Value.free_nothing
      · exact List.forall_mem_singleton.2 hheaders

/-! ## 4. The environment -/

variable {env : Environment}

theorem SuitsAll.modelFor (henv : T.SuitsAll env) (node : String) :
    T.Ends T.Suits (env.modelFor node) := by
  rw [Environment.modelFor]
  cases hmodel : env.model with
  | none => exact T.fails_of_ne _ (by simp)
  | some m => exact henv.model m hmodel

theorem SuitsAll.httpFor (henv : T.SuitsAll env) (node : String) :
    T.Ends T.SuitsClient (env.httpFor node) := by
  rw [Environment.httpFor]
  split
  · next client hclient => exact henv.http client hclient
  · next answer _ hanswer =>
    split
    · exact henv.session answer hanswer
    · exact T.fails_of_ne _ (by simp)
  · exact T.fails_of_ne _ (by simp)

theorem free_commonMembers {S : Seal} {h : Heap} (hh : h.Apart S) (hglobals : env.globals.Free S)
    {ms : Members Datum} (hms : env.commonMembers? h = some ms) : ∀ m ∈ ms, m.2.Free S := by
  have hview := hh.view hglobals
  rw [Environment.commonMembers?] at hms
  split at hms
  · next a _ heq =>
    rw [heq] at hview
    exact Option.some.inj hms ▸ hh.membersAt ((Value.free_dict.1 hview).1 a rfl)
  · split at hms
    · cases hms
    · exact Option.some.inj hms ▸ fun m hm => absurd hm List.not_mem_nil

theorem SuitsAll.commonModelName (henv : T.SuitsAll env) :
    T.Keeps env.commonModelName (Value.Free T.sealed) := by
  refine .bind (P := fun o => ∀ ms, o = some ms → ∀ m ∈ ms, m.2.Free T.sealed)
    (keeps_reads fun w hw ms hms => free_commonMembers hw.free henv.globals hms) fun o ho => ?_
  split
  · next ms => exact keeps_view (Members.forall_getD (ho ms rfl) Datum.free_null "model")
  · exact keeps_fault

theorem SuitsAll.modelName (henv : T.SuitsAll env) {declared params : Value}
    (hdeclared : declared.Free T.sealed) (hparams : params.Free T.sealed) :
    T.Keeps (env.modelName declared params) (Value.Free T.sealed) := by
  rw [Environment.modelName]
  split
  · exact .pure (Value.free_orElse hdeclared (free_field hparams "model"))
  · refine .bind henv.commonModelName ?_
    intro common hcommon
    split
    · exact .pure hcommon
    · exact .bind (keeps_faultable _) fun _ _ =>
        .pure (Value.free_of_isPlain rfl)

end Terms

end NodeFlow
