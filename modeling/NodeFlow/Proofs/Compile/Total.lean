import NodeFlow.Proofs.Compile.Runs
/-!
# Accepted descriptions compile and run

The last words on compiling: whatever the checker accepts compiles to a graph that says the same, and
no run of that graph asks a cooperative node to work at once. The flow was made cooperative if a node is,
so a flow that works at once meets none.
-/

set_option autoImplicit false

namespace NodeFlow

/-! ## 1. Ways to run a graph -/

/-- An environment without collaborators and without common parameters. -/
def Environment.bare : Environment := ⟨none, none, none, .null, .error .value⟩

namespace FlowPlan

/-- A plan with a listener that is told of all moments. -/
def listened (plan : FlowPlan) (l : Listener) : FlowPlan :=
  { plan with listeners := plan.listeners ++ Hook.all.map fun h => (h, l) }

/-- A plan with a limit and listeners. -/
def configured (plan : FlowPlan) (limit : Value) (ls : List Listener) : FlowPlan :=
  ls.foldl listened { plan with limit := limit }

theorem foldl_listened (plan : FlowPlan) (ls : List Listener) : ls.foldl listened plan =
    { plan with listeners := plan.listeners ++ ls.flatMap fun l => Hook.all.map fun h => (h, l) } := by
  induction ls generalizing plan with
  | nil => rw [List.foldl_nil, List.flatMap_nil, List.append_nil]
  | cons l ls ih => rw [List.foldl_cons, ih, listened, List.flatMap_cons, List.append_assoc]

theorem start_configured (plan : FlowPlan) (limit : Value) (ls : List Listener) :
    (plan.configured limit ls).start = plan.start := by
  rw [configured, foldl_listened]

end FlowPlan

namespace Compiled

/-- A graph with a limit and listeners, as it may be given before it runs. -/
def configured (c : Compiled) (limit : Value) (ls : List Listener) : Compiled :=
  ls.foldl listened (c.withLimit limit)

/-- However it is run, alone or among others, a graph does not fail because a cooperative node was run
without giving way. -/
structure NeverRefuses (c : Compiled) : Prop where
  run : ∀ b shared w, (c.runWithin b shared w).1 ≠ .error .onlyCooperative
  waiting : ∀ b shared rounds w, ((c.startWithin b shared).run rounds w).1 ≠ .error .onlyCooperative
  together : ∀ b contexts w, (c.runTogetherWithin b contexts w).1 ≠ .error .onlyCooperative

theorem Walks.configured {c : Compiled} {plan : FlowPlan} {params : Addr}
    (h : c.Walks plan params) (limit : Value) (ls : List Listener) :
    (c.configured limit ls).Walks (plan.configured limit ls) params ∧
      (c.configured limit ls).Like c := by
  rw [Compiled.configured, withLimit_eq, FlowPlan.configured]
  obtain ⟨hwalks, hlike⟩ := h.replanned fun p => { p with limit := limit }
  -- the listeners come one after the other
  generalize c.replanned (fun p => { p with limit := limit }) = c' at hwalks hlike ⊢
  generalize ({ plan with limit := limit } : FlowPlan) = plan' at hwalks ⊢
  induction ls generalizing c' plan' with
  | nil => exact ⟨hwalks, hlike⟩
  | cons l ls ih =>
    rw [List.foldl_cons, List.foldl_cons, listened_eq]
    obtain ⟨hwalks', hlike'⟩ := hwalks.replanned (·.listened l)
    exact ih _ (hlike'.trans hlike) _ hwalks'

end Compiled

/-! ## 2. Cooperation -/

/-- The collaborators of an environment do not fail with the one failure that says that a cooperative
node was run without giving way. -/
structure Environment.Truthful (env : Environment) : Prop where
  model : ∀ m, env.model = some m → ∀ n prompt name,
    m.answer n prompt name ≠ .error .onlyCooperative
  http : ∀ answer, env.http = some (.given answer) → ∀ n, answer n ≠ .error .onlyCooperative

/-- Every failure is allowed but that one. -/
def cooperation : Terms Unit where
  sealed _ := none
  told _ := True
  mark _ := ()
  fails e := e ≠ .onlyCooperative
  fails_of_ne _ he := he

theorem keeps_cooperation {x : Act World Datum} {P : Datum → Prop} (h : cooperation.Keeps x P)
    (w : World) : (x w).1 ≠ .error .onlyCooperative := by
  have hend := (h w ⟨⟨Terms.obeys_open w.heap, trivial⟩, nofun⟩).2
  intro he
  rw [he] at hend
  exact hend rfl

/-- Where a declared node leads there is a declared node. -/
theorem Faithful.target_lt {d : Value} {c : Compiled} (h : Faithful d c) {i : Nat} {n : Node}
    (hn : c.nodes[i]? = some n) {label : String} {j : Nat}
    (hj : Members.get? n.wiring label = some j) : j < c.ids.length := by
  obtain ⟨-, -, target, -, hid⟩ := (h.wiring i n hn label j).1 hj
  exact (List.getElem?_eq_some_iff.1 hid).1

namespace Compiler

variable {env : Environment} {d : Value} {own params : Addr} {nodes : List Node}
  {edges : List Edge} {start : Nat} {c : Compiled}

theorem Assembles.start_lt (h : Assembles env d own params nodes edges start c) :
    start < c.ids.length := by
  obtain ⟨e, -, hstart⟩ := h.entry
  exact (List.getElem?_eq_some_iff.1 hstart).1

/-- A compiled graph is walked as the labels of its nodes have it, under whatever plan. -/
theorem Assembles.narrated {T : Terms Unit} (h : Assembles env d own params nodes edges start c)
    (hf : Faithful d c) {c' : Compiled} {plan : FlowPlan} (hwalks : c'.Walks plan params)
    (hlike : c'.Like c) (hstart : plan.start = some start) {label : Nat → Datum → Prop}
    (hfree : ∀ i x, label i x → x.Free T.sealed)
    (hends : ∀ i node, c.nodes[i]? = some node → ∀ x (h : Heap) context, label i x →
      ∀ hs, T.told hs → T.told (.nodeEnd node.name (h.view x) context :: hs))
    (hothers : ∀ call : HookCall, call.hook ≠ .nodeEnd → ∀ hs, T.told hs → T.told (call :: hs))
    (hconduct : ∀ i node, c.nodes[i]? = some node → T.KeepsConduct (label i) node.conduct)
    (hparams : T.sealed params = none) :
    T.Narrated c' plan params start label (T.quiet label) where
  walks := hwalks
  narrates := by
    have hnode : ∀ i < c'.flow, ∀ node, c'.graph[i]? = some node → c.nodes[i]? = some node := by
      intro i hi node hnode
      rwa [hwalks.node hi, hlike.nodes] at hnode
    refine Terms.narrates_quiet hfree (fun i hi node hget l j hj => ?_)
      (fun i hi node hget => hends i node (hnode i hi node hget)) hothers
    rw [← hwalks.size, hlike.ids]
    exact hf.target_lt (hnode i hi node hget) hj
  conduct := by
    rw [hlike.nodes]
    exact hconduct
  start := hstart
  first_lt := by
    rw [← hwalks.size, hlike.ids]
    exact h.start_lt
  params := hparams

theorem narrated_cooperation (h : Assembles env d own params nodes edges start c)
    (hf : Faithful d c) (henv : env.Truthful) {c' : Compiled} {plan : FlowPlan}
    (hwalks : c'.Walks plan params) (hlike : c'.Like c) (hstart : plan.start = some start) :
    cooperation.Narrated c' plan params start (fun _ _ => True)
      (cooperation.quiet fun _ _ => True) := by
  refine h.narrated hf hwalks hlike hstart (fun _ _ _ _ _ => rfl)
    (fun _ _ _ _ _ _ _ _ _ => trivial) (fun _ _ _ _ => trivial) ?_ rfl
  refine Terms.keepsConduct_of_assembles h (Terms.suitsAll_open rfl ?_ ?_)
    fun _ _ _ _ _ _ _ => Terms.honors_open _ _
  · intro m hm n prompt name e he hc
    exact henv.model m hm n prompt name (hc ▸ he)
  · intro answer hanswer n e he hc
    exact henv.http answer hanswer n (hc ▸ he)

theorem neverRefuses (h : Assembles env d own params nodes edges start c) (hf : Faithful d c)
    (henv : env.Truthful) (limit : Value) (ls : List Listener) :
    (c.configured limit ls).NeverRefuses := by
  obtain ⟨name, hwalks⟩ := Compiled.walks_of_assembles h
  obtain ⟨hwalks, hlike⟩ := hwalks.configured limit ls
  have hnarrated := narrated_cooperation h hf henv hwalks hlike (FlowPlan.start_configured _ _ _)
  refine ⟨fun b shared w => ?_, fun b shared rounds w => ?_, fun b contexts w => ?_⟩
  · exact keeps_cooperation (Terms.keeps_runWithin hnarrated rfl b) w
  · exact keeps_cooperation ((Terms.keeps_startWithin hnarrated rfl b).run rounds) w
  · exact keeps_cooperation (Terms.keeps_runTogetherWithin hnarrated (fun _ _ => rfl) b) w

/-! ## 3. Compiling -/

theorem distinct_ids {d : Value} (h : Description.WellFormed Kind.names Kind.routerNames d) :
    (Description.nodesOf d).Pairwise fun n m => Description.idOf n ≠ Description.idOf m := by
  refine h.distinct.imp_of_mem ?_
  intro n m hn hm hne hid
  refine hne ?_
  rw [(h.isNode n hn).field_id, (h.isNode m hm).field_id, hid]

/-- **What the checker accepts compiles.** The graph says what the description says, nothing is told of
an edge that is wired over another, and however the graph is run, under whatever limit and listeners,
no cooperative node is asked to work at once. -/
theorem compile_faithful {env : Environment} {d : Value} {w : World} (hjson : d.IsJson)
    (haccepted : (ofEnvironment env).problems d = .ok []) (hglobals : env.HasGlobals w.heap) :
    ∃ c w', (ofEnvironment env).compile d w = (.ok c, w') ∧ Faithful d c ∧
      w'.channel = w.channel ∧ w'.journal = w.journal ∧
      (env.Truthful → ∀ limit ls, (c.configured limit ls).NeverRefuses) := by
  obtain ⟨d', kept, common, nodes, edges, start, c, hkept, hwell, -, h, hcompile⟩ :=
    compile_ok hjson haccepted hglobals
  have hf : Faithful d' c := h.faithful (distinct_ids hwell)
  refine ⟨c, _, hcompile, ?_, rfl, rfl, ?_⟩
  · rw [← hkept.fresh]
    exact hf.fresh
  · intro henv limit ls
    exact neverRefuses h hf henv limit ls

/-- Two nodes. The first names the wildcard as its next label, leads to the second under it, and is to
run once. -/
def wildcardPair : Value :=
  .ofMembers [("version", .str "pf-js/1.0"), ("entry", .str "a"),
    ("nodes", .ofList [
      .ofMembers [("id", .str "a"), ("kind", .str "static-data"),
        ("post", .ofMembers [("next", .str "*")]),
        ("loop_guard", .ofMembers [("max_iterations", .int 1)])],
      .ofMembers [("id", .str "b"), ("kind", .str "static-data")]]),
    ("edges", .ofList [
      .ofMembers [("from", .str "a"), ("to", .str "b"), ("label", .str "*")]])]

theorem isJson_wildcardPair : wildcardPair.IsJson := by
  simp [wildcardPair, Value.IsJson.str, Value.IsJson.int]

set_option maxRecDepth 10000 in
theorem problems_wildcardPair (env : Environment) :
    (ofEnvironment env).problems wildcardPair = .ok [] := by rfl

/-- The pair compiles without any collaborator in an empty world. -/
theorem compile_faithful_wildcardPair : ∃ c w',
    (ofEnvironment .bare).compile wildcardPair .blank = (.ok c, w') ∧
      Faithful wildcardPair c ∧ ∀ limit ls, (c.configured limit ls).NeverRefuses := by
  obtain ⟨c, w', hcompile, hf, -, -, hnever⟩ := @compile_faithful .bare wildcardPair .blank
    isJson_wildcardPair (problems_wildcardPair .bare) (Or.inl rfl)
  exact ⟨c, w', hcompile, hf, hnever ⟨nofun, nofun⟩⟩

end Compiler

end NodeFlow
