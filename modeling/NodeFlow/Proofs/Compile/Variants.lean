import NodeFlow.Proofs.Compile.Asking
import NodeFlow.Proofs.Compile.Total
import NodeFlow.Proofs.Run.Inline
/-!
# Graphs compiled for a model that has to be waited for

With a model that has to be waited for a description is compiled to other nodes and to a flow that can
wait, and that is all: every run comes to the same result and leaves the same state behind as with a model
that gives the same answers at once. The one exception is the kind that starts all elements of a batch
together, whose calls overlap only if the model gives way.

Both runs are compared to a third thing, a walk over visits that are actions. What the nodes of a graph do
is settled before; here the two graphs are laid beside each other, node by node, and then their walks.
-/

set_option autoImplicit false

namespace NodeFlow

/-! ## 1. Nodes -/

/-- Two nodes of one name with the same edges that come to the same visits. -/
structure Node.Matches (n n' : Node) : Prop where
  name : n.name = n'.name
  wiring : n.wiring = n'.wiring
  visit : ∃ visit, n.conduct.Follows visit ∧ n'.conduct.Follows visit

section

variable {g : Graph} {i : Nat} {n : Node} {visit : Scene → Act World Datum}

/-- A node that works at once does what it comes to. -/
theorem Conduct.Follows.visit_eq (h : n.conduct.Follows visit) (hn : g[i]? = some n)
    (hblocking : n.isCooperative = false) (fuel : Nat) (scene : Scene) :
    g.visit (fuel + 1) scene i = visit scene := by
  rw [Node.isCooperative] at hblocking
  rw [Graph.visit, hn, Option.map_some]
  cases hc : n.conduct with
  | blocking run =>
    rw [hc] at h
    exact h scene
  | cooperative run =>
    rw [hc] at hblocking
    cases hblocking
  | flow each f =>
    rw [hc] at h
    exact h.elim
  | cooperativeFlow fan f =>
    rw [hc] at h
    exact h.elim

/-- A node of either kind comes to it when it is waited for. -/
theorem Conduct.Follows.visitWaiting (h : n.conduct.Follows visit) (hn : g[i]? = some n) (fuel : Nat)
    (scene : Scene) :
    Following.Follows False (g.visitWaiting (fuel + 1) scene i) (visit scene) := by
  rw [Graph.visitWaiting, hn, Option.map_some]
  cases hc : n.conduct with
  | blocking run =>
    have hblocking : n.isCooperative = false := by rw [Node.isCooperative, hc]
    rw [← h.visit_eq hn hblocking fuel scene]
    exact Following.perform (m := Coop World Datum) _
  | cooperative run =>
    rw [hc] at h
    exact h scene
  | flow each f =>
    rw [hc] at h
    exact h.elim
  | cooperativeFlow fan f =>
    rw [hc] at h
    exact h.elim

end

/-! ## 2. Graphs -/

/-- Two compiled graphs whose nodes match in each place. -/
structure Compiled.Matches (c c' : Compiled) : Prop where
  flow : c.flow = c'.flow
  length : c.nodes.length = c.flow ∧ c'.nodes.length = c'.flow
  node : ∀ i < c.flow, ∃ n n', c.nodes[i]? = some n ∧ c'.nodes[i]? = some n' ∧ n.Matches n'

theorem Compiled.Matches.like {c c' c₁ c₁' : Compiled} (h : c.Matches c') (hc : c₁.Like c)
    (hc' : c₁'.Like c') : c₁.Matches c₁' := by
  refine ⟨?_, ?_, ?_⟩
  · rw [hc.flow, hc'.flow, h.flow]
  · rw [hc.flow, hc'.flow, hc.nodes, hc'.nodes]
    exact h.length
  · rw [hc.flow, hc.nodes, hc'.nodes]
    exact h.node

/-- So there is one visit for each place that the nodes there come to. -/
theorem Compiled.Matches.exists_visits {c c' : Compiled} (h : c.Matches c') :
    ∃ visits : Nat → Scene → Act World Datum, ∀ (i : Nat) (n : Node),
      (c.nodes[i]? = some n → n.conduct.Follows (visits i)) ∧
        (c'.nodes[i]? = some n → n.conduct.Follows (visits i)) := by
  have hvisit : ∀ i : Nat, ∃ visit : Scene → Act World Datum, ∀ n : Node,
      (c.nodes[i]? = some n → n.conduct.Follows visit) ∧
        (c'.nodes[i]? = some n → n.conduct.Follows visit) := by
    intro i
    by_cases hi : i < c.flow
    · obtain ⟨n, n', hn, hn', hmatch⟩ := h.node i hi
      obtain ⟨visit, hfollows, hfollows'⟩ := hmatch.visit
      refine ⟨visit, fun m => ⟨fun hm => ?_, fun hm => ?_⟩⟩
      · exact Option.some.inj (hn.symm.trans hm) ▸ hfollows
      · exact Option.some.inj (hn'.symm.trans hm) ▸ hfollows'
    · have hnone : c.nodes[i]? = none ∧ c'.nodes[i]? = none := by
        rw [List.getElem?_eq_none_iff, List.getElem?_eq_none_iff, h.length.1, h.length.2, ← h.flow]
        exact ⟨Nat.le_of_not_lt hi, Nat.le_of_not_lt hi⟩
      rw [hnone.1, hnone.2]
      exact ⟨fun _ => Act.fail .exhausted, fun _ => ⟨nofun, nofun⟩⟩
  choose visits hvisits using hvisit
  exact ⟨visits, hvisits⟩

/-- The visits of a walk that are actions, while visits are left. -/
def Graph.acted (visits : Nat → Scene → Act World Datum) : Nat → Scene → Nat → Act World Datum
  | 0, _, _ => Act.fail .exhausted
  | _ + 1, scene, i => visits i scene

/-- Plans that are alike stay so under the same limit and the same listeners. -/
theorem FlowPlan.Alike.configured {p p' : FlowPlan} (h : p.Alike p') (limit : Value)
    (ls : List Listener) : (p.configured limit ls).Alike (p'.configured limit ls) := by
  rw [FlowPlan.configured, FlowPlan.configured, FlowPlan.foldl_listened, FlowPlan.foldl_listened]
  exact ⟨h.start, rfl, congrArg (· ++ _) h.listeners, h.name⟩

namespace Compiled

/-- A compiled graph whose flow walks under a plan, over nodes that look like those of a graph and come to
given visits. -/
structure Follows (c : Compiled) (g : Graph) (plan : FlowPlan) (params : Addr)
    (visits : Nat → Scene → Act World Datum) : Prop where
  walks : ∃ own, c.Walks own params ∧ own.Alike plan
  alike : Graph.Alike (· < c.flow) c.graph g
  conduct : ∀ i (n : Node), c.nodes[i]? = some n → n.conduct.Follows (visits i)
  start_lt : ∀ first, plan.start = some first → first < c.flow

/-- What runs come to whose visits are actions. -/
def outcome (g : Graph) (plan : FlowPlan) (params : Addr) (visits : Nat → Scene → Act World Datum)
    (shared : Shared) : Nat → Act World Datum
  | 0 => Act.fail .exhausted
  | fuel + 1 =>
    (Flow.plain plan : Flow (Act World)).runOnce g (Graph.acted visits fuel) fuel ⟨shared, params⟩

variable {c : Compiled} {g : Graph} {plan : FlowPlan} {params : Addr}
  {visits : Nat → Scene → Act World Datum}

theorem Follows.node (h : c.Follows g plan params visits) {i : Nat} (hi : i < c.flow) :
    ∃ n ∈ c.nodes, c.graph[i]? = some n ∧ n.conduct.Follows (visits i) := by
  obtain ⟨own, hwalks, -⟩ := h.walks
  obtain ⟨node, hnode, -⟩ := hwalks.flow
  have hlt : i < c.graph.length := Nat.lt_trans hi (List.getElem?_eq_some_iff.1 hnode).1
  have hget := List.getElem?_eq_getElem hlt
  rw [hwalks.node hi] at hget
  exact ⟨_, List.mem_of_getElem? hget, (hwalks.node hi).trans hget, h.conduct i _ hget⟩

/-- With rounds enough every run comes to that. -/
theorem Follows.exists_run (h : c.Follows g plan params visits) (bound : Nat) (shared : Shared)
    (w : World) : ∃ rounds, ∀ b : Graph.Bounds, b.visits = bound → rounds ≤ b.rounds →
      c.runWithin b shared w = outcome g plan params visits shared bound w := by
  obtain ⟨own, hwalks, halike⟩ := h.walks
  obtain ⟨node, hnode, rfl, hconduct⟩ := hwalks.flow
  have hstart : ∀ i, own.start = some i → i < c.flow :=
    fun i hi => h.start_lt i (halike.start.symm.trans hi)
  cases hcooperative : c.nodes.any Node.isCooperative with
  | false =>
    rw [hcooperative, Conduct.walking, if_neg Bool.false_ne_true] at hconduct
    refine ⟨0, ?_⟩
    rintro b rfl -
    rw [runWithin, Graph.runWithin_flow hnode hconduct]
    cases b.visits with
    | zero => rfl
    | succ fuel =>
      rw [Graph.visit_flow hnode hconduct, outcome]
      have hvisit : ∀ scene i, i < c.flow → Following.Follows False (c.graph.visit fuel scene i)
          (Graph.acted visits fuel scene i) := by
        intro scene i hi
        -- none of the nodes has to be waited for
        obtain ⟨n, hmem, hn, hfollows⟩ := h.node hi
        have hblocking : n.isCooperative = false := Bool.eq_false_iff.2 fun hn =>
          Bool.false_ne_true (hcooperative.symm.trans (List.any_eq_true.2 ⟨n, hmem, hn⟩))
        cases fuel with
        | zero => rfl
        | succ fuel => exact hfollows.visit_eq hn hblocking fuel scene
      have hwalk := h.alike.runOnce halike hstart hvisit fuel ⟨shared, node.params⟩
      exact congrFun hwalk w
  | true =>
    rw [hcooperative, Conduct.walking, if_pos rfl] at hconduct
    have hwalk : Following.Follows False (c.graph.visitWaiting bound ⟨shared, node.params⟩ c.flow)
        (outcome g plan node.params visits shared bound) := by
      cases bound with
      | zero => exact Following.throw _
      | succ fuel =>
        rw [Graph.visitWaiting, hnode, Option.map_some, hconduct]
        refine h.alike.runOnce halike hstart (fun scene i hi => ?_) fuel _
        obtain ⟨n, -, hn, hfollows⟩ := h.node hi
        cases fuel with
        | zero => exact Following.throw _
        | succ fuel => exact hfollows.visitWaiting hn fuel scene
    -- driving it costs rounds, but what is driven does not depend on how many there are
    have hstarted := Graph.follows_startWithin (b := ⟨bound, 0⟩) hnode hconduct hwalk
    obtain ⟨rounds, hrounds⟩ := Coop.Follows.exists_run hstarted w
    refine ⟨rounds, ?_⟩
    rintro ⟨_, limit⟩ rfl hlimit
    rw [runWithin, Graph.runWithin_waitingFlow hnode hconduct]
    exact hrounds limit hlimit

end Compiled

namespace Compiler

open Description

variable {env : Environment} {m : Model} {turns : Value → Nat}

/-! ## 3. Two ways to make a graph -/

/-- A description without nodes of the parallel kind. -/
def InTurn (d : Value) : Prop :=
  ∀ node ∈ nodesOf d, ∀ name, node.field "kind" = .str name →
    Kind.ofName? name ≠ some .cooperativeParallel

/-- A node is made of a declaration by its kind and its policy, which the declaration settles. -/
theorem exists_of_node {env : Environment} {own : Addr} {i : Nat} {declaration : Value} {n : Node}
    (h : (ofEnvironment env).node own i declaration = .ok n) :
    ∃ name kind policy, declaration.field "kind" = .str name ∧ Kind.ofName? name = some kind ∧
      policyOf declaration = .ok policy ∧
      n = (ofEnvironment env).nodeOf (Make.ofKind env.modelWaits kind) policy own i
        (declaration.field "id").plain declaration := by
  rw [node] at h
  cases hfield : declaration.field "kind" with
  | str name =>
    rw [hfield, factoryOf, ofEnvironment, get?_builtins] at h
    cases hkind : Kind.ofName? name with
    | none =>
      rw [hkind] at h
      cases h
    | some kind =>
      rw [hkind] at h
      cases hpolicy : policyOf declaration with
      | error e =>
        rw [hpolicy] at h
        cases h
      | ok policy =>
        rw [hpolicy] at h
        exact ⟨name, kind, policy, rfl, hkind, rfl, (Except.ok.inj h).symm⟩
  | _ =>
    rw [hfield] at h
    cases h

/-- The nodes that two environments make of one declaration match. -/
theorem node_matches (hm : env.model = some m) (hdirect : m.calling = .direct) {own : Addr} {i : Nat}
    {declaration : Value} (hkind : ∀ name, declaration.field "kind" = .str name →
      Kind.ofName? name ≠ some .cooperativeParallel) {n n' : Node}
    (hn : (ofEnvironment env).node own i declaration = .ok n)
    (hn' : (ofEnvironment (env.withModel (m.awaited turns))).node own i declaration = .ok n') :
    n.Matches n' := by
  have hwaits : env.modelWaits = false := by rw [Environment.modelWaits, hm, Option.any_some, hdirect]; rfl
  obtain ⟨name, kind, policy, hfield, hname, hpolicy, rfl⟩ := exists_of_node hn
  obtain ⟨name', kind', policy', hfield', hname', hpolicy', rfl⟩ := exists_of_node hn'
  -- name, kind and policy are those of the declaration
  obtain rfl : name = name' := Value.str.inj (hfield.symm.trans hfield')
  obtain rfl : kind = kind' := Option.some.inj (hname.symm.trans hname')
  obtain rfl : policy = policy' := Except.ok.inj (hpolicy.symm.trans hpolicy')
  have hparallel : kind ≠ .cooperativeParallel := fun h => hkind name hfield (h ▸ hname)
  refine ⟨rfl, rfl, ?_⟩
  rw [hwaits]
  exact Make.exists_visit hm hdirect turns hparallel _ policy i

/-- So do all of them, in their order. -/
theorem makeNodes_matches (hm : env.model = some m) (hdirect : m.calling = .direct) {own : Addr}
    {declarations : List Value} (hkinds : ∀ d ∈ declarations, ∀ name, d.field "kind" = .str name →
      Kind.ofName? name ≠ some .cooperativeParallel) {number : Nat} {nodes nodes' : List Node}
    (hnodes : (ofEnvironment env).makeNodes own number declarations = .ok nodes)
    (hnodes' : (ofEnvironment (env.withModel (m.awaited turns))).makeNodes own number declarations =
      .ok nodes') : List.Forall₂ Node.Matches nodes nodes' := by
  induction declarations generalizing number nodes nodes' with
  | nil =>
    obtain rfl := Except.ok.inj hnodes
    obtain rfl := Except.ok.inj hnodes'
    exact .nil
  | cons declaration rest ih =>
    rw [List.forall_mem_cons] at hkinds
    obtain ⟨first, more, hfirst, hmore, rfl⟩ := exists_of_makeNodes_cons hnodes
    obtain ⟨first', more', hfirst', hmore', rfl⟩ := exists_of_makeNodes_cons hnodes'
    exact .cons (node_matches hm hdirect hkinds.1 hfirst hfirst') (ih hkinds.2 hmore hmore')

/-! ## 4. Runs -/

variable {d : Value} {own params : Addr} {nodes nodes' : List Node} {edges : List Edge} {start : Nat}
  {c c' : Compiled}

/-- Graphs that are assembled of matching nodes with the same edges match. -/
theorem Assembles.matches {env' : Environment} (h : Assembles env d own params nodes edges start c)
    (h' : Assembles env' d own params nodes' edges start c')
    (hmatches : List.Forall₂ Node.Matches nodes nodes') : c.Matches c' where
  flow := by
    rw [h.flow, h'.flow]
    exact hmatches.length_eq
  length := by
    rw [h.nodes_eq, h'.nodes_eq, length_wired, length_wired, h.flow, h'.flow]
    exact ⟨rfl, rfl⟩
  node i hi := by
    have hlt : i < c.nodes.length ∧ i < c'.nodes.length := by
      rw [h.nodes_eq, h'.nodes_eq, length_wired, length_wired, ← hmatches.length_eq, ← h.flow]
      exact ⟨hi, hi⟩
    have hn := List.getElem?_eq_getElem hlt.1
    have hn' := List.getElem?_eq_getElem hlt.2
    refine ⟨_, _, hn, hn', ?_⟩
    obtain ⟨-, n₀, -, hn₀, -, hnode⟩ := h.node hn
    obtain ⟨-, n₀', -, hn₀', -, hnode'⟩ := h'.node hn'
    obtain ⟨hlt, hget⟩ := List.getElem?_eq_some_iff.1 hn₀
    obtain ⟨hlt', hget'⟩ := List.getElem?_eq_some_iff.1 hn₀'
    have hmatch := (List.forall₂_iff_get.1 hmatches).2 i hlt hlt'
    rw [List.get_eq_getElem, List.get_eq_getElem, hget, hget'] at hmatch
    rw [hnode, hnode']
    exact ⟨hmatch.name, rfl, hmatch.visit⟩

/-- A walk keeps to the declared nodes. -/
theorem Assembles.closed (h : Assembles env d own params nodes edges start c)
    (hwell : WellFormed Kind.names Kind.routerNames d) {c₁ : Compiled} {plan : FlowPlan}
    (hwalks : c₁.Walks plan params) (hlike : c₁.Like c) {i : Nat} (hi : i < c₁.flow) {n : Node}
    (hn : c₁.graph[i]? = some n) {label : String} {j : Nat} (hj : Members.get? n.wiring label = some j) :
    j < c₁.flow := by
  rw [hwalks.node hi, hlike.nodes] at hn
  have hlt := (h.faithful (distinct_ids hwell)).target_lt hn hj
  rwa [← hlike.ids, hwalks.size] at hlt

/-- Two graphs that are assembled so come to the same visits, whatever the limit and the listeners. -/
theorem Assembles.exists_visits {env' : Environment}
    (h : Assembles env d own params nodes edges start c)
    (h' : Assembles env' d own params nodes' edges start c')
    (hwell : WellFormed Kind.names Kind.routerNames d)
    (hmatches : List.Forall₂ Node.Matches nodes nodes') (limit : Value) (ls : List Listener) :
    ∃ g plan visits, (c.configured limit ls).Follows g plan params visits ∧
      (c'.configured limit ls).Follows g plan params visits := by
  obtain ⟨name, hwalks⟩ := Compiled.walks_of_assembles h
  obtain ⟨name', hwalks'⟩ := Compiled.walks_of_assembles h'
  obtain ⟨hwalks, hlike⟩ := hwalks.configured limit ls
  obtain ⟨hwalks', hlike'⟩ := hwalks'.configured limit ls
  have hmatch : (c.configured limit ls).Matches (c'.configured limit ls) :=
    (h.matches h' hmatches).like hlike hlike'
  have halike : FlowPlan.Alike ⟨name', some start, .null, []⟩ ⟨name, some start, .null, []⟩ :=
    ⟨rfl, rfl, rfl, nofun⟩
  have hstart : ∀ first, (FlowPlan.configured ⟨name, some start, .null, []⟩ limit ls).start = some first →
      first < (c.configured limit ls).flow := by
    intro first hfirst
    rw [FlowPlan.start_configured] at hfirst
    rw [← Option.some.inj hfirst, ← hwalks.size, hlike.ids]
    exact h.start_lt
  obtain ⟨visits, hvisits⟩ := hmatch.exists_visits
  refine ⟨(c.configured limit ls).graph, _, visits, ⟨⟨_, hwalks, rfl, rfl, rfl, fun _ => rfl⟩, ?_, ?_, hstart⟩,
    ⟨⟨_, hwalks', halike.configured limit ls⟩, ?_, ?_, hmatch.flow ▸ hstart⟩⟩
  · exact ⟨fun _ _ => rfl, fun i hi n hn l j hj => h.closed hwell hwalks hlike hi hn hj⟩
  · exact fun i n hn => (hvisits i n).1 hn
  · refine ⟨fun i hi => ?_, fun i hi n hn l j hj => h'.closed hwell hwalks' hlike' hi hn hj⟩
    rw [hwalks'.node hi, hwalks.node (hmatch.flow ▸ hi)]
    obtain ⟨n, n', hn, hn', hnodes⟩ := hmatch.node i (hmatch.flow ▸ hi)
    rw [hn, hn', Option.map_some, Option.map_some, hnodes.name, hnodes.wiring]
  · exact fun i n hn => (hvisits i n).2 hn

/-- No node of a description turns parallel when it is kept. -/
theorem InTurn.of_fresh {d : Value} (h : InTurn d.fresh) : InTurn d := by
  intro node hnode name hname
  refine h node.fresh (nodesOf_fresh d ▸ List.mem_map_of_mem hnode) name ?_
  rw [Value.field_fresh, hname]
  rfl

/-- **A model that has to be waited for changes nothing but the flow.** A description without parallel nodes
is accepted. Compiled for a model that answers at once and for one that gives the same answers but has to be
waited for, it leaves the same world, and under every limit, whoever listens and in every context both
graphs run alike: they end with the same label or failure in the same world, that is, with the same memory
and the same calls, waits and diagnostics in the same order. The rounds that this takes depend on how often
the model gives way. -/
theorem runs_alike_awaited {w : World} (hjson : d.IsJson)
    (haccepted : (ofEnvironment env).problems d = .ok []) (hinTurn : InTurn d)
    (hglobals : env.HasGlobals w.heap) (hm : env.model = some m) (hdirect : m.calling = .direct)
    (turns : Value → Nat) :
    ∃ c c' w', (ofEnvironment env).compile d w = (.ok c, w') ∧
      (ofEnvironment (env.withModel (m.awaited turns))).compile d w = (.ok c', w') ∧
      ∀ limit ls shared u visits, ∃ rounds, ∀ b b' : Graph.Bounds, b.visits = visits →
        b'.visits = visits → rounds ≤ b.rounds → rounds ≤ b'.rounds →
        (c.configured limit ls).runWithin b shared u =
          (c'.configured limit ls).runWithin b' shared u := by
  obtain ⟨d', kept, common, -, -, hkept, hwell, -, hcompile⟩ := compile_of_assemble hjson haccepted hglobals
  obtain ⟨edges, start, hroutes, hnumbers, hapart, hentry⟩ := routes_ok hwell
  obtain ⟨nodes, c, hnodes, hassemble, h⟩ := assemble_of_routes env hwell kept.cells.size
    (kept.cells.size + 1) hroutes hnumbers hapart hentry
  obtain ⟨nodes', c', hnodes', hassemble', h'⟩ := assemble_of_routes (env.withModel (m.awaited turns))
    hwell kept.cells.size (kept.cells.size + 1) hroutes hnumbers hapart hentry
  have hkinds : InTurn d' := .of_fresh (hkept.fresh.symm ▸ hinTurn)
  have hmatches := makeNodes_matches hm hdirect hkinds hnodes hnodes'
  refine ⟨c, c', _, hcompile env c rfl hassemble, hcompile _ c' rfl hassemble', ?_⟩
  intro limit ls shared u visits
  obtain ⟨g, plan, does, hruns, hruns'⟩ := h.exists_visits h' hwell hmatches limit ls
  obtain ⟨rounds, hrun⟩ := hruns.exists_run visits shared u
  obtain ⟨rounds', hrun'⟩ := hruns'.exists_run visits shared u
  refine ⟨max rounds rounds', fun b b' hb hb' hrounds hrounds' => ?_⟩
  rw [hrun b hb (Nat.le_trans (Nat.le_max_left ..) hrounds),
    hrun' b' hb' (Nat.le_trans (Nat.le_max_right ..) hrounds')]

/-- Two nodes that ask a model: one tries again, the other goes through a list. -/
def survey : Value :=
  .ofMembers [("version", .str "pf-js/1.0"), ("entry", .str "ask"),
    ("nodes", .ofList [
      .ofMembers [("id", .str "ask"), ("kind", .str "llm-call"),
        ("exec", .ofMembers [("prompt", .str "Who are you?")]),
        ("retry", .ofMembers [("max", .int 2)])],
      .ofMembers [("id", .str "each"), ("kind", .str "batch"),
        ("exec", .ofMembers [("prompt", .str "And \x7b\x7bitem\x7d\x7d?")])]]),
    ("edges", .ofList [.ofMembers [("from", .str "ask"), ("to", .str "each")]])]

theorem isJson_survey : survey.IsJson := by
  simp [survey, Value.IsJson.str, Value.IsJson.int]

set_option maxRecDepth 10000 in
theorem problems_survey (env : Environment) : (ofEnvironment env).problems survey = .ok [] := by rfl

/-- A model that fails when it is first called, and then answers. -/
def hesitant : Model where
  line := .model
  calling := .direct
  turns _ := 0
  answer n _ _ := if n = 0 then .error (.reported .timeout "busy") else .ok (.value (.str "yes"))

theorem inTurn_survey : InTurn survey := by
  intro node hnode name hname
  rcases List.mem_cons.1 hnode with rfl | hnode
  · obtain rfl : "llm-call" = name := Value.str.inj hname
    decide
  · obtain rfl := List.mem_singleton.1 hnode
    obtain rfl : "batch" = name := Value.str.inj hname
    decide

/-- It makes no difference to the survey if the model gives way three times over every prompt. -/
theorem runs_alike_awaited_survey : ∃ c c' w',
    (ofEnvironment (Environment.bare.withModel hesitant)).compile survey .blank = (.ok c, w') ∧
      (ofEnvironment (Environment.bare.withModel (hesitant.awaited fun _ => 3))).compile survey .blank =
        (.ok c', w') ∧
      ∀ limit ls shared u visits, ∃ rounds, ∀ b b' : Graph.Bounds, b.visits = visits →
        b'.visits = visits → rounds ≤ b.rounds → rounds ≤ b'.rounds →
        (c.configured limit ls).runWithin b shared u = (c'.configured limit ls).runWithin b' shared u :=
  @runs_alike_awaited (Environment.bare.withModel hesitant) hesitant survey .blank isJson_survey
    (problems_survey _) inTurn_survey (Or.inl rfl) rfl rfl fun _ => 3

end Compiler

end NodeFlow
