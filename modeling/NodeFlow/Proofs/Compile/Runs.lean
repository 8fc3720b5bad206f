import NodeFlow.Proofs.Compile.Faithful
import NodeFlow.Proofs.Compile.Work
import NodeFlow.Proofs.Run.Edges
import NodeFlow.Proofs.Run.Schedule
import NodeFlow.Proofs.Run.Walk
/-!
# Runs of compiled graphs

A compiled graph is a row of nodes that are no flows, and behind them the one flow that walks them, under
a plan that may have got listeners since. Whatever is narrated of its walk holds of its runs, and both
kinds of flows are run here: one that works at once, and a cooperative one that is driven.
-/

set_option autoImplicit false

universe u

namespace NodeFlow

/-! ## 1. The graph -/

/-- The conduct of a flow that does nothing but walk. -/
def Conduct.walking (isCooperative : Bool) (plan : FlowPlan) : Conduct :=
  if isCooperative then .cooperativeFlow .once (Flow.plain plan) else .flow false (Flow.plain plan)

/-- A compiled graph whose flow walks its nodes under a plan, with parameters of its own. -/
structure Compiled.Walks (c : Compiled) (plan : FlowPlan) (params : Addr) : Prop where
  size : c.ids.length = c.flow
  flow : ∃ node, c.graph[c.flow]? = some node ∧ node.params = params ∧
    node.conduct = .walking (c.nodes.any Node.isCooperative) plan

namespace Compiled

variable {c : Compiled} {plan : FlowPlan} {params : Addr}

/-- The declared nodes come first. -/
theorem Walks.node (h : c.Walks plan params) {i : Nat} (hi : i < c.flow) :
    c.graph[i]? = c.nodes[i]? := by
  rw [nodes, List.getElem?_take_of_lt (h.size ▸ hi)]

/-- The flow is cooperative if one of its nodes is. -/
theorem Walks.isCooperative_eq (h : c.Walks plan params) :
    c.isCooperative = c.nodes.any Node.isCooperative := by
  obtain ⟨node, hnode, -, hconduct⟩ := h.flow
  rw [isCooperative, flowNode?, hnode, Option.any_some, Node.isCooperative, hconduct]
  cases c.nodes.any Node.isCooperative <;> rfl

/-- Compiled graphs walk from the entry, without a limit and without listeners. -/
theorem walks_of_assembles {env : Environment} {d : Value} {own : Addr} {nodes : List Node}
    {edges : List Compiler.Edge} {start : Nat}
    (h : Compiler.Assembles env d own params nodes edges start c) :
    ∃ name, c.Walks ⟨name, some start, .null, []⟩ params := by
  obtain ⟨name, hflow⟩ := h.flowNode?
  refine ⟨name, ⟨?_, _, hflow, rfl, ?_⟩⟩
  · rw [h.ids, List.length_map, h.flow, h.length]
  · rw [h.nodes_eq, Compiler.any_wired]
    cases nodes.any Node.isCooperative <;> rfl

/-- The graph with another plan for its flow. -/
def replanned (c : Compiled) (change : FlowPlan → FlowPlan) : Compiled :=
  match c.graph.replan c.flow change with
  | .ok g => { c with graph := g }
  | .error _ => c

theorem withLimit_eq (c : Compiled) (limit : Value) :
    c.withLimit limit = c.replanned fun p => { p with limit := limit } := rfl

theorem listened_eq (c : Compiled) (l : Listener) :
    c.listened l = c.replanned fun p =>
      { p with listeners := p.listeners ++ Hook.all.map fun h => (h, l) } := rfl

/-- Two graphs that differ in nothing but the plans of their flows. -/
structure Like (c' c : Compiled) : Prop where
  ids : c'.ids = c.ids
  nodes : c'.nodes = c.nodes
  flow : c'.flow = c.flow

theorem Like.trans {c'' c' c : Compiled} (h : c''.Like c') (h' : c'.Like c) : c''.Like c :=
  ⟨h.ids.trans h'.ids, h.nodes.trans h'.nodes, h.flow.trans h'.flow⟩

/-- A walk under another plan walks the same nodes. -/
theorem Walks.replanned (h : c.Walks plan params) (change : FlowPlan → FlowPlan) :
    (c.replanned change).Walks (change plan) params ∧ (c.replanned change).Like c := by
  obtain ⟨node, hnode, hparams, hconduct⟩ := h.flow
  have hflow : node.isFlow = true := by
    rw [Node.isFlow, hconduct]
    cases c.nodes.any Node.isCooperative <;> rfl
  have hreplanned : c.replanned change =
      { c with graph := c.graph.modify c.flow (·.modifyPlan change) } := by
    rw [Compiled.replanned, Graph.replan, hnode, Option.any_some, if_pos hflow]
    rfl
  -- the plan is in the last node, and the declared ones come before it
  have hnodes : (c.replanned change).nodes = c.nodes := by
    rw [hreplanned, nodes, nodes]
    refine List.ext_getElem? ?_
    intro i
    rw [List.getElem?_take, List.getElem?_take]
    split
    · next hi =>
      have hlt : i < c.flow := lt_of_lt_of_eq hi h.size
      exact List.getElem?_modify_ne _ _ (Nat.ne_of_gt hlt)
    · rfl
  refine ⟨⟨?_, node.modifyPlan change, ?_, ?_, ?_⟩, ?_, hnodes, ?_⟩
  · rw [hreplanned]
    exact h.size
  · rw [hreplanned, List.getElem?_modify_eq, hnode]
    rfl
  · rw [← hparams, Node.modifyPlan.eq_def]
    split <;> rfl
  · rw [hnodes, Node.modifyPlan.eq_def, hconduct]
    cases c.nodes.any Node.isCooperative <;> rfl
  · rw [hreplanned]
  · rw [hreplanned]

/-- A run of a graph without cooperative nodes walks once from the start of the flow. -/
theorem Walks.runWithin_blocking (h : c.Walks plan params) (hblocking : c.nodes.any Node.isCooperative = false)
    (b : Graph.Bounds) (shared : Shared) : c.runWithin b shared = match b.visits with
      | 0 => Act.fail .exhausted
      | fuel + 1 => (Flow.plain plan).runOnce c.graph (c.graph.visit fuel) fuel ⟨shared, params⟩ := by
  obtain ⟨node, hnode, rfl, hconduct⟩ := h.flow
  rw [hblocking, Conduct.walking, if_neg Bool.false_ne_true] at hconduct
  have hflow : node.isFlow = true ∧ node.isCooperative = false := by
    rw [Node.isFlow, Node.isCooperative, hconduct]
    exact ⟨rfl, rfl⟩
  rw [Compiled.runWithin, Graph.runWithin, hnode]
  simp only [hflow.1, hflow.2, Graph.noteIgnored, Bool.and_false, Bool.not_true, Bool.false_and,
    Bool.false_eq_true, if_false]
  change c.graph.visit b.visits ⟨shared, node.params⟩ c.flow = _
  cases b.visits with
  | zero => rfl
  | succ fuel => rw [Graph.visit, hnode, Option.map_some, hconduct]

/-- And that of a graph with some is a computation that may give up control. -/
theorem Walks.startWithin_eq (h : c.Walks plan params) (hcooperative : c.nodes.any Node.isCooperative = true)
    (b : Graph.Bounds) (shared : Shared) : c.graph.startWithin b c.flow shared =
      (Coop.ofAct (pure ()) >>= fun _ => match b.visits with
        | 0 => throw .exhausted
        | fuel + 1 => (Flow.plain plan).runOnce c.graph (c.graph.visitWaiting fuel) fuel ⟨shared, params⟩) := by
  obtain ⟨node, hnode, rfl, hconduct⟩ := h.flow
  rw [hcooperative, Conduct.walking, if_pos rfl] at hconduct
  have hflow : node.isFlow = true ∧ node.isCooperative = true := by
    rw [Node.isFlow, Node.isCooperative, hconduct]
    exact ⟨rfl, rfl⟩
  -- a flow is not told that its edges are ignored
  rw [Graph.startWithin, hnode]
  simp only [hflow.1, hflow.2, Graph.noteIgnored, Bool.not_true, Bool.false_and, Bool.false_eq_true,
    if_true, if_false]
  cases b.visits with
  | zero => rfl
  | succ fuel => rw [Graph.visitWaiting, hnode, Option.map_some, hconduct]

/-- A cooperative run is a computation that is driven. -/
theorem Walks.runWithin_waiting (h : c.Walks plan params) (hcooperative : c.nodes.any Node.isCooperative = true)
    (b : Graph.Bounds) (shared : Shared) :
    c.runWithin b shared = (c.graph.startWithin b c.flow shared).run b.rounds := by
  obtain ⟨node, hnode, -, hconduct⟩ := h.flow
  rw [hcooperative, Conduct.walking, if_pos rfl] at hconduct
  have hflow : (node.isFlow && node.isCooperative) = true := by
    rw [Node.isFlow, Node.isCooperative, hconduct]
    rfl
  rw [Compiled.runWithin, Graph.runWithin, hnode]
  simp only [hflow, if_true]
  rfl

end Compiled

/-! ## 2. Visits -/

/-- What holds of a visit that is no walk. -/
def Conduct.Meets {τ : Type} (R : Regime World Datum τ) (known : Option τ) (scene : Scene)
    (Q : Except Failure Datum → Option τ → Prop) : Conduct → Prop
  | .blocking visit => Act.Meets R known (visit scene) Q
  | .cooperative visit => Coop.Meets R known (visit scene) Q
  | .flow _ _ | .cooperativeFlow _ _ => False

theorem Conduct.Meets.mono {τ : Type} {R : Regime World Datum τ} {known : Option τ} {scene : Scene}
    {Q Q' : Except Failure Datum → Option τ → Prop} {c : Conduct} (h : c.Meets R known scene Q)
    (himp : ∀ r k, Q r k → Q' r k) : c.Meets R known scene Q' := by
  cases c with
  | blocking visit => exact Act.Meets.mono h himp
  | cooperative visit => exact Coop.Meets.mono h himp
  | flow each f => exact h
  | cooperativeFlow fan f => exact h

namespace Regime

variable {τ : Type} {R : Regime World Datum τ}

section

variable {g : Graph} {i : Nat} {node : Node} {scene : Scene} {known : Option τ}
  {Q : Except Failure Datum → Option τ → Prop}

/-- A node that works at once can be visited at once. -/
theorem meets_visit (hnode : g[i]? = some node) (hconduct : node.conduct.Meets R known scene Q)
    (hblocking : node.isCooperative = false) (fuel : Nat) :
    Act.Meets R known (g.visit (fuel + 1) scene i) Q := by
  rw [Node.isCooperative] at hblocking
  rw [Graph.visit, hnode, Option.map_some]
  cases hc : node.conduct with
  | blocking visit =>
    rw [hc] at hconduct
    exact hconduct
  | cooperative visit =>
    rw [hc] at hblocking
    cases hblocking
  | flow each f =>
    rw [hc] at hconduct
    exact hconduct.elim
  | cooperativeFlow fan f =>
    rw [hc] at hconduct
    exact hconduct.elim

/-- A node of either kind can be visited by those who wait. -/
theorem meets_visitWaiting (hnode : g[i]? = some node) (hconduct : node.conduct.Meets R known scene Q)
    (fuel : Nat) : Coop.Meets R known (g.visitWaiting (fuel + 1) scene i) Q := by
  rw [Graph.visitWaiting, hnode, Option.map_some]
  cases hc : node.conduct with
  | blocking visit =>
    refine Coop.Meets.ofAct (meets_visit hnode hconduct ?_ fuel)
    rw [Node.isCooperative, hc]
  | cooperative visit =>
    rw [hc] at hconduct
    exact hconduct
  | flow each f =>
    rw [hc] at hconduct
    exact hconduct.elim
  | cooperativeFlow fan f =>
    rw [hc] at hconduct
    exact hconduct.elim

end

/-! ## 3. Runs -/

/-- A compiled graph whose walk is as a journey has it: every visit in a good scene leads on. -/
structure Guides (R : Regime World Datum τ) (Good : Scene → Prop) (c : Compiled) (plan : FlowPlan)
    (params : Addr) (first : Nat) (J : Journey τ) : Prop where
  walks : c.Walks plan params
  travels : R.Travels c.graph plan c.flow Good J
  hosts : R.Hosts Good
  visits : ∀ step, ∀ i < c.flow, ∀ node, c.nodes[i]? = some node → ∀ k, J.within step i k →
    ∀ scene, Good scene → node.conduct.Meets R k scene (J.visited step i)
  start : plan.start = some first
  first_lt : first < c.flow

variable {Good : Scene → Prop} {c : Compiled} {plan : FlowPlan} {params : Addr} {first : Nat}
  {J : Journey τ} {known : Option τ} {shared : Shared} {b : Graph.Bounds}

theorem Guides.flow_le (h : R.Guides Good c plan params first J) : c.flow ≤ c.graph.length := by
  obtain ⟨node, hnode, -⟩ := h.walks.flow
  exact Nat.le_of_lt (List.getElem?_eq_some_iff.1 hnode).1

theorem Guides.node (h : R.Guides Good c plan params first J) {i : Nat} (hi : i < c.flow) :
    ∃ n ∈ c.nodes, c.graph[i]? = some n ∧ ∀ step k, J.within step i k → ∀ scene, Good scene →
      n.conduct.Meets R k scene (J.visited step i) := by
  have hget := List.getElem?_eq_getElem (Nat.lt_of_lt_of_le hi h.flow_le)
  rw [h.walks.node hi] at hget
  exact ⟨_, List.mem_of_getElem? hget, (h.walks.node hi).trans hget, fun step k hk scene hs =>
    h.visits step i hi _ hget k hk scene hs⟩

/-- The run of a graph without cooperative nodes is as the journey has it, if the journey says how it ends
when the bound on visits is met. -/
theorem Guides.run_blocking (h : R.Guides Good c plan params first J)
    (hblocking : c.nodes.any Node.isCooperative = false) (hgood : Good ⟨shared, params⟩)
    (hbefore : J.before 0 first known)
    (hout : ∀ step i k, b.visits ≤ step + 1 → J.before step i k → J.ends (.error .exhausted) k) :
    Act.Meets R known (c.runWithin b shared) J.ends := by
  rw [h.walks.runWithin_blocking hblocking]
  cases hvisits : b.visits with
  | zero => exact .fail (hout 0 first known (by omega) hbefore)
  | succ fuel =>
    refine Travels.runOnce (m := Act World) h.travels h.flow_le h.hosts h.start h.first_lt hgood ?_ ?_ hbefore
    · intro s hs step hstep i hi k hwithin
      -- none of the nodes is cooperative, so each can be visited at once
      obtain ⟨n, hn, hget, hmeets⟩ := h.node hi
      obtain ⟨fuel, rfl⟩ := Nat.exists_eq_succ_of_ne_zero (Nat.ne_zero_of_lt hstep)
      refine meets_visit hget (hmeets step k hwithin s hs) ?_ fuel
      exact Bool.eq_false_iff.2 fun hcooperative =>
        Bool.false_ne_true (hblocking.symm.trans (List.any_eq_true.2 ⟨n, hn, hcooperative⟩))
    · exact fun i k => hout fuel i k (Nat.le_of_eq hvisits)

/-- And so is that of a graph with some, as a computation that may give up control. -/
theorem Guides.run_waiting (h : R.Guides Good c plan params first J)
    (hcooperative : c.nodes.any Node.isCooperative = true) (hgood : Good ⟨shared, params⟩)
    (hbefore : J.before 0 first known)
    (hout : ∀ step i k, b.visits ≤ step + 1 → J.before step i k → J.ends (.error .exhausted) k) :
    Coop.Meets R known (c.graph.startWithin b c.flow shared) J.ends := by
  rw [h.walks.startWithin_eq hcooperative]
  refine Coop.Meets.bind (P := fun r k => r = .ok () ∧ k = known)
    (.ofAct fun w hw => ⟨hw.refl, rfl, hw.after_eq⟩) ?_ fun e k h => absurd h.1 nofun
  rintro - k ⟨-, rfl⟩
  cases hvisits : b.visits with
  | zero => exact .done (hout 0 first k (by omega) hbefore)
  | succ fuel =>
    refine Travels.runOnce (m := Coop World Datum) h.travels h.flow_le h.hosts h.start h.first_lt hgood ?_ ?_ hbefore
    · intro s hs step hstep i hi k hwithin
      obtain ⟨n, -, hget, hmeets⟩ := h.node hi
      obtain ⟨fuel, rfl⟩ := Nat.exists_eq_succ_of_ne_zero (Nat.ne_zero_of_lt hstep)
      exact meets_visitWaiting hget (hmeets step k hwithin s hs) fuel
    · exact fun i k => hout fuel i k (Nat.le_of_eq hvisits)

/-- A run is as the journey has it, unless it is cut short by its bound on rounds. -/
theorem Guides.run (h : R.Guides Good c plan params first J) (hgood : Good ⟨shared, params⟩) {t : τ}
    (hbefore : J.before 0 first (some t))
    (hout : ∀ step i k, b.visits ≤ step + 1 → J.before step i k → J.ends (.error .exhausted) k) :
    Act.Meets R (some t) (c.runWithin b shared) fun r k => r = .error .exhausted ∨ J.ends r k := by
  cases hcooperative : c.nodes.any Node.isCooperative with
  | false =>
    exact (h.run_blocking hcooperative hgood hbefore hout).mono fun _ _ hr => Or.inr hr
  | true =>
    rw [h.walks.runWithin_waiting hcooperative]
    exact Coop.Meets.run (h.run_waiting hcooperative hgood hbefore hout) b.rounds

end Regime

namespace Terms

variable {τ : Type} {T : Terms τ}

/-- A compiled graph whose walk is as a narration has it, and whose nodes keep the terms. -/
structure Narrated (T : Terms τ) (c : Compiled) (plan : FlowPlan) (params : Addr) (first : Nat)
    (label : Nat → Datum → Prop) (N : Narration τ) : Prop where
  walks : c.Walks plan params
  narrates : T.Narrates c.graph plan c.flow label N
  conduct : ∀ i n, c.nodes[i]? = some n → T.KeepsConduct (label i) n.conduct
  start : plan.start = some first
  first_lt : first < c.flow
  params : T.sealed params = none

variable {c : Compiled} {plan : FlowPlan} {params : Addr} {first : Nat}
  {label : Nat → Datum → Prop} {N : Narration τ} {known : Option τ} {shared : Shared}

/-- A visit that keeps the terms leaves what is known as it is. -/
theorem KeepsConduct.meets {L : Datum → Prop} {conduct : Conduct} (h : T.KeepsConduct L conduct)
    {scene : Scene} (hs : scene.Free T.sealed) (k : Option τ) :
    conduct.Meets T.regime k scene fun r k' => k' = k ∧ T.Ends L r := by
  cases conduct with
  | blocking visit => exact Reasoned.frame (m := Act World) (h scene hs) k
  | cooperative visit => exact Reasoned.frame (m := Coop World Datum) (h scene hs) k
  | flow each f => exact h.elim
  | cooperativeFlow fan f => exact h.elim

/-- The parameters of a walk are free, so the cell that holds them is not sealed. -/
theorem hosts_free : T.regime.Hosts fun s => s.Free T.sealed := by
  rintro s ⟨hdata, hparams⟩ w hw u hu
  obtain ⟨hallows, hends⟩ := keeps_alloc (Cell.free_dict.2 (hw.1.membersAt hparams)) u hu
  exact ⟨hallows, _, rfl, hdata, Datum.free_ref.1 hends⟩

theorem Narrated.exhausted (h : T.Narrated c plan params first label N) (b : Graph.Bounds) :
    ∀ step i k, b.visits ≤ step + 1 → (T.journey label N).before step i k →
      (T.journey label N).ends (.error .exhausted) k :=
  fun _ i k _ hbefore => h.narrates.halts i k _ hbefore (T.fails_of_ne _ nofun) fun _ => rfl

theorem Narrated.guides (h : T.Narrated c plan params first label N) :
    T.regime.Guides (fun s => s.Free T.sealed) c plan params first (T.journey label N) where
  walks := h.walks
  travels := h.narrates.travels
  hosts := hosts_free
  visits _ i _ node hnode k hwithin scene hs := by
    refine Conduct.Meets.mono ((h.conduct i node hnode).meets hs k) ?_
    rintro r k' ⟨rfl, hr⟩
    exact ⟨hwithin, hr⟩
  start := h.start
  first_lt := h.first_lt

/-- A run is as it is narrated, unless it is cut short by its bound on rounds. -/
theorem Narrated.run (h : T.Narrated c plan params first label N)
    (hshared : T.sealed shared.data = none) {t : τ} (hbefore : N.before first (some t))
    (b : Graph.Bounds) :
    Act.Meets T.regime (some t) (c.runWithin b shared)
      fun r k => r = .error .exhausted ∨ N.ends r k :=
  h.guides.run ⟨hshared, h.params⟩ hbefore (h.exhausted b)

/-! ## 4. Compiled nodes -/

/-- The declaration that a node is made of. -/
def declaredOf (m : Value) : Declared :=
  ⟨Description.idOf m, Compiler.addressOf m, Declared.guardOf m⟩

/-- Compiled nodes keep the terms if their declarations honor them. -/
theorem keepsConduct_of_assembles {env : Environment} {d : Value} {own : Addr} {nodes : List Node}
    {edges : List Compiler.Edge} {start : Nat}
    (h : Compiler.Assembles env d own params nodes edges start c) (henv : T.SuitsAll env)
    (hhonors : ∀ i m name kind, (Description.nodesOf d)[i]? = some m → m.field "kind" = .str name →
      Kind.ofName? name = some kind → (declaredOf m).Honors T.sealed (label i) (kind == .router)) :
    ∀ i n, c.nodes[i]? = some n → T.KeepsConduct (label i) n.conduct := by
  intro i n hn
  obtain ⟨m, n₀, hm, -, ⟨name, kind, policy, hname, hkind, -, rfl⟩, rfl⟩ := h.node hn
  exact keepsConduct_ofKind henv env.modelWaits kind (hhonors i m name kind hm hname hkind) policy i

/-! ## 5. Nothing sealed

Where nothing is sealed nothing is asked of memory, of declarations and of the answers of
collaborators; only their failures have to be allowed. -/

theorem honors_open (d : Declared) (routes : Bool) :
    d.Honors (fun _ => none) (fun _ => True) routes where
  exit _ _ := trivial
  next _ _ _ := ⟨fun _ _ => rfl, fun _ => trivial⟩
  saves _ _ _ _ _ := rfl
  work _ _ _ _ _ := rfl
  cases _ _ _ _ _ _ _ := ⟨fun _ _ => rfl, fun _ => trivial⟩
  none _ := trivial

theorem suitsAll_open {env : Environment} (hopen : T.sealed = fun _ => none)
    (hmodel : ∀ m, env.model = some m → ∀ n prompt name e, m.answer n prompt name = .error e →
      T.fails e)
    (hhttp : ∀ answer, env.http = some (.given answer) → ∀ n e, answer n = .error e → T.fails e) :
    T.SuitsAll env := by
  have hvalue : ∀ v : Value, v.Free T.sealed := fun v a _ => congrFun hopen a
  refine ⟨fun m hm n prompt name _ _ => ?_, fun client hclient => ?_, fun answer _ n => ?_,
    fun a _ => congrFun hopen a⟩
  · cases hanswer : m.answer n prompt name with
    | ok r =>
      cases r with
      | value v => exact hvalue v
      | response attributes => exact fun a _ => hvalue a.2
    | error e => exact hmodel m hm n prompt name e hanswer
  · cases client with
    | given answer =>
      intro n
      cases hanswer : answer n with
      | ok v => exact hvalue v
      | error e => exact hhttp answer hclient n e hanswer
    | session client =>
      intro n
      cases client.answer n with
      | response status body headers => exact ⟨hvalue _, fun v _ => hvalue v, hvalue _⟩
      | broken text => trivial
  · cases answer n with
    | response status body headers => exact ⟨hvalue _, fun v _ => hvalue v, hvalue _⟩
    | broken text => trivial

theorem obeys_open (h : Heap) : h.Obeys fun _ => none :=
  ⟨nofun, fun _ _ _ _ _ _ _ _ => rfl⟩

/-! ## 6. Runs among others

If the mark says nothing, nothing has to be known of it, and runs at once are as good as one. -/

section

variable {T : Terms Unit} {α : Type} {P : α → Prop}

theorem keeps_of_meets {t : Unit} {x : Act World α} {Q : Except Failure α → Option Unit → Prop}
    (hx : Act.Meets T.regime (some t) x Q) (himp : ∀ r k, Q r k → T.Ends P r) : T.Keeps x P :=
  fun w hw => by
    -- there is one mark only, so it is known
    obtain ⟨hallows, hQ⟩ := hx w ⟨hw.inv, fun _ _ => rfl⟩
    exact ⟨⟨hallows.inv, fun _ => rfl⟩, himp _ _ hQ⟩

theorem Keeps.run {x : Coop World Datum Datum} {P : Datum → Prop} (hx : T.Keeps x P) (limit : Nat) :
    T.Keeps (x.run limit) P := by
  refine keeps_of_meets (Coop.Meets.run (hx.frame (some ())) limit) ?_
  intro r k hr
  rcases hr with rfl | ⟨-, hr⟩
  · exact T.fails_of_ne _ nofun
  · exact hr

/-- Nothing but the labels is said about a walk. -/
def quiet (T : Terms Unit) (label : Nat → Datum → Prop) : Narration Unit where
  before _ _ := True
  within _ _ := True
  after i d _ _ := label i d
  ends r _ := T.Ends (Datum.Free T.sealed) r

variable {c : Compiled} {plan : FlowPlan} {params : Addr} {first : Nat}
  {label : Nat → Datum → Prop} {shared : Shared}

theorem told_replicate {call : HookCall} (h : ∀ hs, T.told hs → T.told (call :: hs)) (k : Nat)
    {hs : List HookCall} (hs' : T.told hs) : T.told (List.replicate k call ++ hs) := by
  induction k with
  | zero => exact hs'
  | succ k ih => exact h _ ih

/-- A walk is as it is narrated if its nodes lead among themselves, and if whatever is told may be told:
the end of a visit with a label of its node, and everything else. -/
theorem narrates_quiet {g : Graph} {n : Nat} (hfree : ∀ i d, label i d → d.Free T.sealed)
    (hwiring : ∀ i < n, ∀ node, g[i]? = some node →
      ∀ l j, Members.get? node.wiring l = some j → j < n)
    (hends : ∀ i < n, ∀ node, g[i]? = some node → ∀ d (h : Heap) context, label i d →
      ∀ hs, T.told hs → T.told (.nodeEnd node.name (h.view d) context :: hs))
    (hothers : ∀ call : HookCall, call.hook ≠ .nodeEnd → ∀ hs, T.told hs → T.told (call :: hs)) :
    T.Narrates g plan n label (T.quiet label) where
  enters _ _ node _ _ _ := tells fun hs htold _ =>
    ⟨told_replicate (hothers (.nodeStart node.name) (by simp [HookCall.hook])) _ htold, fun _ => rfl, trivial⟩
  fails _ _ node _ _ e _ he := tells fun hs htold _ =>
    ⟨told_replicate (hothers (.nodeError node.name e) (by simp [HookCall.hook])) _ htold, fun _ => rfl, he⟩
  leaves i hi node hnode _ d h context _ hlabel := tells fun hs htold _ =>
    ⟨told_replicate (hends i hi node hnode d h context hlabel) _ htold, fun _ => rfl, hlabel⟩
  follows i hi node hnode _ d shown j _ hnext := by
    obtain ⟨l, hl⟩ := Node.get?_of_next? hnext
    exact ⟨hwiring i hi node hnode l j hl, trivial⟩
  stops i _ _ _ _ d _ steps hlabel _ := tells fun hs htold _ =>
    ⟨told_replicate (hothers (.flowEnd steps) (by simp [HookCall.hook])) _ htold, fun _ => rfl, hfree i d hlabel⟩
  lost _ _ _ _ _ _ _ _ _ _ := T.fails_of_ne _ (by simp)
  halts _ _ _ _ he _ := he

theorem keeps_runWithin (h : T.Narrated c plan params first label (T.quiet label))
    (hshared : T.sealed shared.data = none) (b : Graph.Bounds) :
    T.Keeps (c.runWithin b shared) (Datum.Free T.sealed) := by
  refine keeps_of_meets (t := ()) (h.run hshared trivial b) ?_
  intro r k hr
  rcases hr with rfl | hr
  · exact T.fails_of_ne _ nofun
  · exact hr

theorem keeps_startWithin (h : T.Narrated c plan params first label (T.quiet label))
    (hshared : T.sealed shared.data = none) (b : Graph.Bounds) :
    T.Keeps (c.startWithin b shared) (Datum.Free T.sealed) := by
  rw [Compiled.startWithin]
  split
  · next hcooperative =>
    rw [h.walks.isCooperative_eq] at hcooperative
    exact h.guides.run_waiting hcooperative ⟨hshared, h.params⟩ trivial (h.exhausted b)
  · exact .perform (keeps_runWithin h hshared b)

theorem keeps_runTogetherWithin (h : T.Narrated c plan params first label (T.quiet label))
    {contexts : List Shared} (hcontexts : ∀ s ∈ contexts, T.sealed s.data = none)
    (b : Graph.Bounds) : T.Keeps (c.runTogetherWithin b contexts) (Datum.Free T.sealed) := by
  refine Keeps.run ?_ b.rounds
  refine .bind (Duty.keeps_together (D := T.duty) (List.forall_mem_map.2 fun s hs =>
    keeps_startWithin h (hcontexts s hs) b)) fun labels hlabels => ?_
  exact .perform (keeps_alloc (Cell.free_list.2 hlabels))

end

end Terms

end NodeFlow
