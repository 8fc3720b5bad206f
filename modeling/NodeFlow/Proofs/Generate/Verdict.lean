import NodeFlow.Generate.Creator
import NodeFlow.Proofs.Compile.Total
import NodeFlow.Proofs.Description.Faults
import NodeFlow.Proofs.Description.Reports
import NodeFlow.Proofs.Json.Decoded
import NodeFlow.Proofs.Json.Grammar
import Mathlib.Data.List.Permutation
/-!
# Verdicts on descriptions

Descriptions come from models, so nothing is known about them but that they are JSON. The checker
reports on all of them but those that baffle it, and everything that is built on the checker inherits
this: a compiler makes a graph or rejects with the very report, and whoever creates graphs from the
replies of a model has an outcome for every text.

Over a description that baffles the checker all three fail alike.

The text of a model is searched for the first object that is written in it, and that one and no other is compiled. What
stands around it is not looked at, be it an object too, and neither is a brace in front of it that opens nothing.
-/

set_option autoImplicit false

namespace NodeFlow

open Description

/-! ## 1. Compiling -/

namespace Compiler

/-- A compiler makes a graph of a description in which the checker finds nothing, rejects it with what
the checker finds, or fails as the checker does. -/
theorem compile_of_problems {env : Environment} {d : Value} {w : World} (hjson : d.IsJson)
    (hglobals : env.HasGlobals w.heap) :
    match Description.problems Kind.names Kind.routerNames d with
    | .ok [] => ∃ c w', (ofEnvironment env).compile d w = (.ok c, w')
    | .ok ps => ∃ qs w', (ofEnvironment env).compile d w = (.error (.invalid qs), w') ∧
        qs.map Problem.message = ps.map Problem.message
    | .error f => ∃ w', (ofEnvironment env).compile d w = (.error (.fault f), w') := by
  obtain ⟨d', hdatum, hkept⟩ := Heap.keep_kept hjson w.heap
  have hview : (w.heap.keep d).2.view (w.heap.keep d).1 = d' := by
    rw [hdatum]
    exact hkept.holds.view_datum
  -- what the compiler checks is what was kept, so the reports are compared
  have hreport := problems_fresh Kind.names Kind.routerNames d'
  rw [hkept.fresh] at hreport
  have hcompile : (ofEnvironment env).problems d' =
      Description.problems Kind.names Kind.routerNames d' := rfl
  cases hproblems : Description.problems Kind.names Kind.routerNames d' with
  | error f =>
    rw [hproblems] at hreport
    rw [hreport]
    refine ⟨{ w with heap := (w.heap.keep d).2 }, ?_⟩
    simp only [compile, hview, hcompile, hproblems]
  | ok qs =>
    rw [hproblems] at hreport
    cases qs with
    | nil =>
      rw [hreport]
      obtain ⟨d', kept, common, nodes, edges, start, c, -, -, -, -, hc⟩ :=
        compile_ok hjson hreport hglobals
      exact ⟨c, _, hc⟩
    | cons q qs =>
      rw [hreport]
      refine ⟨q :: qs, { w with heap := (w.heap.keep d).2 }, ?_, ?_⟩
      · simp only [compile, hview, hcompile, hproblems]
      · simp [Function.comp_def]

end Compiler

/-! ## 2. Creating -/

/-- What is found in a text is as JSON writes it. -/
theorem Description.isJson_of_extract? {s : String} {d : Value} (h : extract? s = some d) :
    d.IsJson := by
  obtain ⟨front, t, rest, -, ⟨hwrites, -⟩, -⟩ := firstObject?_eq_some_iff.1 h
  exact hwrites.isDecoded.isJson

/-- Naming a model changes nothing. -/
theorem Environment.modelName_state (env : Environment) (declared params : Value) (w : World) :
    (env.modelName declared params w).2 = w := by
  have hcommon : (env.commonModelName w).2 = w := by
    simp only [commonModelName, bind, Act.bind, Act.reads]
    cases env.commonMembers? w.heap <;> rfl
  simp only [modelName]
  split
  · rfl
  · simp only [bind, Act.bind]
    cases hnamed : env.commonModelName w with
    | mk r u =>
      rw [hnamed] at hcommon
      subst hcommon
      cases r with
      | error e => rfl
      | ok v =>
        dsimp only
        split
        · rfl
        · cases hsettings : env.settings <;> rfl

/-- The empty text in place of one that counts as false is that text again. -/
theorem Value.str_orElse_empty (s : String) : (Value.str s).orElse (.str "") = .str s := by
  rw [Value.orElse, Value.truthy]
  split <;> simp_all

namespace Generate.Creator

/-- Judging a text has an outcome unless what is found in it baffles the checker. -/
theorem judge_iff {c : Creator} {env : Environment} (hc : c.compiler = .ofEnvironment env) {w : World}
    (hglobals : env.HasGlobals w.heap) (s : String) :
    (∃ outcome, (c.judge (.str s) w).1 = .ok outcome) ↔ ∀ d, extract? s = some d → ¬ Baffles d := by
  cases hfound : extract? s with
  | none => simp [judge, Value.str_orElse_empty, hfound]
  | some d =>
    simp only [judge, Value.str_orElse_empty, hc, hfound]
    have hcompile := Compiler.compile_of_problems (w := w) (isJson_of_extract? hfound) hglobals
    have hreports := exists_problems_iff Kind.names Kind.routerNames d
    simp only [Option.some.injEq, forall_eq']
    rw [← hreports]
    cases hproblems : Description.problems Kind.names Kind.routerNames d with
    | error f =>
      rw [hproblems] at hcompile
      obtain ⟨w', hcompile⟩ := hcompile
      rw [hcompile]
      simp [Failure.problems?]
    | ok ps =>
      refine iff_of_true ?_ ⟨ps, rfl⟩
      rw [hproblems] at hcompile
      cases ps with
      | nil =>
        obtain ⟨compiled, w', hcompile⟩ := hcompile
        rw [hcompile]
        exact ⟨_, rfl⟩
      | cons p ps =>
        obtain ⟨qs, w', hcompile, -⟩ := hcompile
        rw [hcompile]
        exact ⟨_, rfl⟩

/-- A model that answers at once with a text has been asked, and memory is as it was. -/
theorem ask_text {c : Creator} {wish : Wish} {w : World} {name : Value} {s : String}
    (hdirect : c.model.calling = .direct) (hname : (c.nameFor wish w).1 = .ok name)
    (hanswer : ∀ n, c.model.answer n (.str (c.prompt wish)) name = .ok (.value (.str s))) :
    ∃ u, c.ask wish w = (.ok (Reply.form (.str s) (.ofMembers [])), u) ∧ u.heap = w.heap := by
  have hstate : (c.nameFor wish w).2 = w := Environment.modelName_state ..
  cases hn : c.nameFor wish w with
  | mk r u =>
    rw [hn] at hname hstate
    dsimp only at hname hstate
    subst hname hstate
    simp only [ask, bind, Act.bind, hn, Model.call, hdirect, if_true, Model.respond, World.log, Act.modify,
      World.countCall, Act.update, Act.ofExcept, hanswer, Reply.normalize]
    exact ⟨_, rfl, rfl⟩

/-- So creating a graph from the text of a model has an outcome unless what is found in it baffles the
checker. -/
theorem create_iff {c : Creator} {env : Environment} (hc : c.compiler = .ofEnvironment env) {wish : Wish}
    {w : World} {name : Value} {s : String} (hglobals : env.HasGlobals w.heap)
    (hdirect : c.model.calling = .direct) (hname : (c.nameFor wish w).1 = .ok name)
    (hanswer : ∀ n, c.model.answer n (.str (c.prompt wish)) name = .ok (.value (.str s))) :
    (∃ outcome, (c.create wish w).1 = .ok outcome) ↔ ∀ d, extract? s = some d → ¬ Baffles d := by
  obtain ⟨u, hask, hheap⟩ := ask_text hdirect hname hanswer
  rw [create, createBy, hask]
  exact judge_iff hc (hheap ▸ hglobals) s

end Generate.Creator

/-! ## 3. What baffles the checker -/

namespace Compiler

open Generate

/-- **The checker reports, unless a kind cannot be looked up.** Over every JSON value it has a report
exactly if the value does not baffle it. With a report a compiler makes a graph, or rejects with the very
report; and a text of a model that asks for a graph has an outcome exactly if no object that baffles the
checker is found in it. -/
theorem reports_unless_baffled {env : Environment} {d : Value} {w : World} (hjson : d.IsJson)
    (hglobals : env.HasGlobals w.heap) :
    (∀ kinds routers, (∃ ps, Description.problems kinds routers d = .ok ps) ↔ ¬ Baffles d) ∧
    (∀ ps, (ofEnvironment env).problems d = .ok ps →
      (ps = [] ∧ ∃ c w', (ofEnvironment env).compile d w = (.ok c, w')) ∨
      (ps ≠ [] ∧ ∃ qs w', (ofEnvironment env).compile d w = (.error (.invalid qs), w') ∧
        qs.map Problem.message = ps.map Problem.message)) ∧
    (∀ (c : Creator) wish name s, c.compiler = .ofEnvironment env → c.model.calling = .direct →
      (c.nameFor wish w).1 = .ok name →
      (∀ n, c.model.answer n (.str (c.prompt wish)) name = .ok (.value (.str s))) →
      ((∃ outcome, (c.create wish w).1 = .ok outcome) ↔ ∀ d, extract? s = some d → ¬ Baffles d)) := by
  refine ⟨fun kinds routers => exists_problems_iff kinds routers d, fun ps hps => ?_,
    fun c wish name s hc hdirect hname hanswer => Creator.create_iff hc hglobals hdirect hname hanswer⟩
  have hcompile := compile_of_problems (w := w) hjson hglobals
  rw [problems_ofEnvironment] at hps
  rw [hps] at hcompile
  cases ps with
  | nil => exact Or.inl ⟨rfl, hcompile⟩
  | cons p ps => exact Or.inr ⟨List.cons_ne_nil _ _, hcompile⟩

/-- A model that answers every prompt with one text. -/
def echoing (s : String) : Model := ⟨.generator, .direct, fun _ => 0, fun _ _ _ => .ok (.value (.str s))⟩

/-- Over an object without fields the checker reports, the compiler rejects it, and a text without an
object has an outcome. -/
theorem reports_unless_baffled_empty :
    (∃ qs w', (ofEnvironment .bare).compile (.ofMembers []) .blank = (.error (.invalid qs), w')) ∧
    ∃ outcome, ((⟨echoing "no graph", ofEnvironment .bare, .str "m"⟩ : Creator).create ⟨"", "", .null⟩
      .blank).1 = .ok outcome := by
  obtain ⟨-, hcompile, hcreate⟩ := @reports_unless_baffled .bare (.ofMembers []) .blank
    (.dict fun _ hm => absurd hm List.not_mem_nil) (Or.inl rfl)
  constructor
  · rcases hcompile _ rfl with ⟨hnil, -⟩ | ⟨-, qs, w', hrejected, -⟩
    · cases hnil
    · exact ⟨qs, w', hrejected⟩
  · refine (hcreate _ _ (.str "m") "no graph" rfl rfl rfl fun n => rfl).2 ?_
    intro d hd
    cases hd

/-- A description with a node whose kind is a list, and an edge that leads on from it. -/
def listKind : Value :=
  .ofMembers [("version", .str "pf-js/1.0"), ("entry", .str "a"),
    ("nodes", .ofList [.ofMembers [("id", .str "a"), ("kind", .ofList [])]]),
    ("edges", .ofList [.ofMembers [("from", .str "a"), ("to", .str "a")]])]

/-- The text of that description. -/
def listKindText : String :=
  "\x7b\"version\":\"pf-js/1.0\",\"entry\":\"a\",\"nodes\":[\x7b\"id\":\"a\",\"kind\":[]\x7d],\"edges\":[\x7b\"from\":\"a\",\"to\":\"a\"\x7d]\x7d"

theorem baffles_listKind : Baffles listKind :=
  ((problems_eq_error_iff Kind.names Kind.routerNames listKind .type).1 rfl).2

/-- Over it the checker, the compiler and whoever creates graphs from its text all fail, and none of them
reports that the kind is unknown. -/
theorem listKind_not_reported :
    Description.problems Kind.names Kind.routerNames listKind = .error .type ∧
    (∃ w', (ofEnvironment .bare).compile listKind .blank = (.error (.fault .type), w')) ∧
    ¬ ∃ outcome, ((⟨echoing listKindText, ofEnvironment .bare, .str "m"⟩ : Creator).create
      ⟨"", "", .null⟩ .blank).1 = .ok outcome := by
  have hjson : listKind.IsJson := by simp [listKind, Value.IsJson.str]
  refine ⟨rfl, compile_of_problems hjson (Or.inl rfl), ?_⟩
  let creator : Creator := ⟨echoing listKindText, ofEnvironment .bare, .str "m"⟩
  have hname : (creator.nameFor ⟨"", "", .null⟩ .blank).1 = .ok (.str "m") := rfl
  rw [Creator.create_iff (c := creator) rfl (Or.inl rfl) rfl hname fun n => rfl]
  intro hreports
  exact hreports listKind (by cbv) baffles_listKind

end Compiler

end NodeFlow

namespace NodeFlow.Generate

open Description

namespace Creator

/-! ## 4. Judging a text -/

end Creator

end NodeFlow.Generate
