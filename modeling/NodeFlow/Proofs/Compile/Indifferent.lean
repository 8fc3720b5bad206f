import Mathlib.Data.Fintype.EquivFin
import NodeFlow.Proofs.Collaborator.Accord
import NodeFlow.Proofs.Compile.Sessions
/-!
# Collaborators that do not know names

A collaborator that answers the same under all names can hand out only what it is given: if it handed out another
cell, it would hand out yet another one after that cell is swapped with a new one. So such collaborators are
discreet, and they answer two runs alike whenever they are asked in the same order.
-/

set_option autoImplicit false

namespace NodeFlow

variable {σ : Renaming}

/-! ## 1. Renamings of answers -/

theorem Reply.marks_renamed (r : Reply) : (r.renamed σ).marks = r.marks.map σ.cell := by
  cases r with
  | value v => exact v.marks_renamed
  | response attributes =>
    rw [renamed, marks, marks, List.flatMap_map, List.map_flatMap]
    exact congrArg (List.flatMap · attributes) (funext fun a => a.2.marks_renamed)

theorem SessionAnswer.marks_renamed (r : SessionAnswer) : (r.renamed σ).marks = r.marks.map σ.cell := by
  cases r with
  | broken text => rfl
  | response status body headers =>
    rw [renamed, marks, marks, List.map_append, List.map_append, Value.marks_renamed, Value.marks_renamed]
    cases body with
    | none => rfl
    | some v =>
      have hbody : (some v).toList.flatMap Value.marks = v.marks := List.flatMap_singleton ..
      have hbody' : ((some v).map (Value.renamed σ)).toList.flatMap Value.marks = v.marks.map σ.cell :=
        (List.flatMap_singleton ..).trans v.marks_renamed
      rw [hbody, hbody']

theorem Reply.renamed_refl (r : Reply) : r.renamed .refl = r := by
  cases r with
  | value v => rw [renamed, Value.renamed_refl]
  | response attributes =>
    have hid : (fun a : String × Value => (a.1, a.2.renamed .refl)) = id :=
      funext fun a => congrArg (Prod.mk a.1) a.2.renamed_refl
    rw [renamed, hid, List.map_id]

theorem SessionAnswer.renamed_refl (r : SessionAnswer) : r.renamed .refl = r := by
  have hid : Value.renamed .refl = id := funext Value.renamed_refl
  cases r with
  | broken text => rfl
  | response status body headers => rw [renamed, hid, Option.map_id, id, id, id]

/-- All collaborators answer the same under the names that everything has. -/
theorem Environment.indifferent_refl (env : Environment) : env.Indifferent .refl where
  answer m _ n prompt name := by
    have hid : Reply.renamed .refl = id := funext Reply.renamed_refl
    rw [Value.renamed_refl, Value.renamed_refl, hid]
    cases m.answer n prompt name <;> rfl
  turns m _ prompt := by rw [Value.renamed_refl]
  http answer _ n := by
    have hid : Value.renamed .refl = id := funext Value.renamed_refl
    rw [hid]
    cases answer n <;> rfl
  session client _ n := (client.answer n).renamed_refl
  ownSession answer _ n := (answer n).renamed_refl

/-- An environment with a model that answers at once with what it is asked. -/
def Environment.echo : Environment :=
  ⟨some ⟨.model, .direct, fun _ => 0, fun _ prompt _ => .ok (.value (.ofMembers [("text", prompt)]))⟩, none, none, .null,
    .error .value⟩

theorem Environment.indifferent_echo : Environment.echo.Indifferent σ where
  answer m hm n prompt name := by
    obtain rfl := Option.some.inj hm
    show Except.ok (Reply.value (.ofMembers [("text", prompt.renamed σ)])) = _
    rw [← List.map_singleton (f := fun m : String × Value => (m.1, m.2.renamed σ)) (a := ("text", prompt)),
      ← Value.renamed_ofMembers]
    rfl
  turns m hm _ := by
    obtain rfl := Option.some.inj hm
    rfl
  http := nofun
  session := nofun
  ownSession := nofun

/-! ## 2. Only what is given is handed out -/

/-- Swaps two cells. -/
def Renaming.swap (a b : Addr) : Renaming :=
  ⟨Equiv.swap a b, id, (Equiv.swap a b).injective, Function.injective_id, Renaming.refl.label_zero⟩

/-- What stays the same when any cell but some is swapped with a new one has none of the other cells. -/
theorem mem_of_swaps {marks given : List Addr}
    (h : ∀ σ : Renaming, σ.label = id → (∀ a ∈ given, σ.cell a = a) → marks.map σ.cell = marks) :
    ∀ a ∈ marks, a ∈ given := by
  intro a ha
  by_contra hnot
  obtain ⟨b, hb⟩ := Infinite.exists_notMem_finset (marks ++ given).toFinset
  rw [List.mem_toFinset, List.mem_append, not_or] at hb
  have hswap := h (.swap a b) rfl fun c hc => Equiv.swap_apply_of_ne_of_ne (by rintro rfl; exact hnot hc)
    (by rintro rfl; exact hb.2 hc)
  refine hb.1 (hswap ▸ List.mem_map.2 ⟨a, ha, ?_⟩)
  exact Equiv.swap_apply_left a b

theorem nil_of_swaps {marks : List Addr} (h : ∀ σ : Renaming, marks.map σ.cell = marks) : marks = [] :=
  List.eq_nil_iff_forall_not_mem.2 fun a ha =>
    absurd (@mem_of_swaps marks [] (fun σ _ _ => h σ) a ha) List.not_mem_nil

/-- Collaborators that answer the same under all names are discreet. -/
theorem Environment.discreet_of_indifferent {env : Environment} (h : ∀ σ, env.Indifferent σ) : env.Discreet where
  model m hm n prompt name reply hreply := by
    have hmem : ∀ a ∈ reply.marks, a ∈ prompt.marks ++ name.marks := mem_of_swaps fun σ hlabel hfixed => ?_
    · exact fun a ha => List.mem_append.1 (hmem a ha)
    rw [List.forall_mem_append] at hfixed
    have hanswer := (h σ).answer m hm n prompt name
    rw [Value.renamed_of_fixed hlabel hfixed.1, Value.renamed_of_fixed hlabel hfixed.2, hreply] at hanswer
    rw [← Reply.marks_renamed, ← Except.ok.inj hanswer]
  http answer hanswer n v hv := by
    refine nil_of_swaps fun σ => ?_
    have hsame := (h σ).http answer hanswer n
    rw [hv] at hsame
    rw [← Value.marks_renamed, Except.ok.inj hsame]
  session client hclient n := nil_of_swaps fun σ => by
    rw [← SessionAnswer.marks_renamed, (h σ).session client hclient n]
  ownSession answer hanswer n := nil_of_swaps fun σ => by
    rw [← SessionAnswer.marks_renamed, (h σ).ownSession answer hanswer n]

/-! ## 3. Environments in accord -/

/-- From some calls on the collaborators answer what they have answered from others on. -/
structure Environment.Repeats (env : Environment) (c c' : Calls) : Prop where
  answer : ∀ m, env.model = some m → ∀ k, m.answer (c'.count m.line + k) = m.answer (c.count m.line + k)
  http : ∀ answer, env.http = some (.given answer) → ∀ k, answer (c'.count .http + k) = answer (c.count .http + k)
  session : ∀ client, env.http = some (.session client) → ∀ k,
    client.answer (c'.count .session + k) = client.answer (c.count .session + k)
  ownSession : ∀ answer, env.ownSession = some answer → ∀ k,
    answer (c'.count .session + k) = answer (c.count .session + k)

theorem Environment.repeats_self (env : Environment) (c : Calls) : env.Repeats c c :=
  ⟨fun _ _ _ => rfl, fun _ _ _ => rfl, fun _ _ _ => rfl, fun _ _ _ => rfl⟩

namespace Accord

variable {A : Accord} {env : Environment}

/-- Collaborators that know no names and hand out only what they are given answer both runs alike. -/
theorem environments_of (hnames : env.Indifferent A.names) (hdiscreet : env.Discreet)
    (hrepeats : env.Repeats A.before A.before') (hglobals : env.globals.Free A.hidden)
    (hfixed : env.globals.renamed A.names = env.globals)
    (hcommon : ∀ h h', A.Heaps h h' → ∀ ms, env.commonMembers? h = some ms →
      (h.view ((Members.get? ms "model").getD .null)).Free A.sealed)
    (hparams : ∀ v, A.params v → (v.field "model").Free A.sealed) : A.Environments env where
  model m hm := by
    refine ⟨fun k prompt name hprompt hname => ?_, hnames.turns m hm⟩
    rw [hrepeats.answer m hm, hnames.answer m hm]
    cases hanswer : m.answer (A.before.count m.line + k) prompt name with
    | error e => exact .error e
    | ok reply =>
      refine .ok ⟨Reply.free_of_marks fun a ha => ?_, rfl⟩
      exact (hdiscreet.model m hm _ _ _ _ hanswer a ha).elim (hprompt a) (hname a)
  http client hclient := by
    cases client with
    | given answer =>
      intro k
      have hsame := hnames.http answer hclient (A.before.count .http + k)
      rw [hrepeats.http answer hclient]
      cases hanswer : answer (A.before.count .http + k) with
      | error e => exact .error e
      | ok v =>
        rw [hanswer] at hsame
        refine .ok ⟨fun a ha => ?_, (Except.ok.inj hsame).symm⟩
        rw [hdiscreet.http answer hclient _ v hanswer] at ha
        exact absurd ha List.not_mem_nil
    | session client =>
      intro k
      rw [hrepeats.session client hclient]
      exact ⟨SessionAnswer.free_of_marks (hdiscreet.session client hclient _), (hnames.session client hclient _).symm⟩
  session answer hanswer k := by
    rw [hrepeats.ownSession answer hanswer]
    exact ⟨SessionAnswer.free_of_marks (hdiscreet.ownSession answer hanswer _), (hnames.ownSession answer hanswer _).symm⟩
  globals := hglobals
  globals_eq := hfixed
  common := hcommon
  params := hparams

end Accord

end NodeFlow
