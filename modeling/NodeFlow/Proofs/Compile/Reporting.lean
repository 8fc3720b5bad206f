import NodeFlow.Proofs.Compile.Growth
/-!
# Reports from the ends of visits

Whether a run has failed before the end of a visit or at it cannot be read off the failure, since both can fail in
the same way. It shows when the last stages of all nodes pass on their failures under other names: a run that
fails before the end of a visit does not notice.

The graphs whose nodes do so are compiled like any other, from a registry in which each kind has such a way to be
made. Under its own name every failure is what it is in the graph itself.
-/

set_option autoImplicit false

namespace NodeFlow

/-! ## 1. Nodes whose last stages report failures under other names -/

/-- An action that reports its failures under other names. -/
def Act.reporting {σ α : Type} (tag : Failure → Failure) (x : Act σ α) : Act σ α :=
  tryCatch x fun e => throw (tag e)

theorem Act.reporting_id {σ α : Type} (x : Act σ α) : x.reporting id = x := by
  funext s
  rcases hx : x s with ⟨r, s'⟩
  cases r with
  | ok a => exact Act.tryCatch_ok hx _
  | error e => exact Act.tryCatch_error hx _

namespace Make

variable (finish route : Declared → Scene → Datum → Act World Datum)

/-- Calls a model, waits, and finishes in another way. -/
def askingWith : Make :=
  let conduct (env : Environment) (d : Declared) (policy : RetryPolicy) (node : Nat) : Conduct :=
    .cooperative fun scene => d.guarded scene <|
      Stages.once (Declared.stages (d.preparePrompt env scene) Prompted.callWaiting (finish d scene)) policy node
  { cooperative with conduct }

/-- Goes through a list and finishes in another way. -/
def batchWith : Make :=
  let conduct (env : Environment) (d : Declared) (policy : RetryPolicy) (node : Nat) : Conduct :=
    .blocking fun scene => d.guarded scene <|
      Stages.inOrder (Declared.stages (d.workOrders env scene) WorkOrder.carryOut (finish d scene)) policy node pure
  { batch with conduct }

/-- Goes through a list, waits for each element, and finishes in another way. -/
def waitingBatchWith : Make :=
  let conduct (env : Environment) (d : Declared) (policy : RetryPolicy) (node : Nat) : Conduct :=
    .cooperative fun scene => d.guarded scene <|
      Stages.inOrder (Declared.stages (d.workOrders env scene) WorkOrder.carryOutWaiting (finish d scene)) policy
        node pure
  { cooperativeBatch with conduct }

/-- Goes through a list, all elements at once, and finishes in another way. -/
def parallelWith : Make :=
  let conduct (env : Environment) (d : Declared) (policy : RetryPolicy) (node : Nat) : Conduct :=
    .cooperative fun scene => d.guarded scene <|
      Stages.together (Declared.stages (d.workOrders env scene) WorkOrder.carryOutWaiting (finish d scene)) policy
        node pure
  { cooperativeParallel with conduct }

/-- The way of a built-in kind with other last stages: one for routers, and one for all others. -/
def ending (modelWaits : Bool) : Kind → Make
  | .llmCall =>
    if modelWaits then askingWith finish
    else
      single llmCall.title Kind.llmCall.name (fun env d scene => d.preparePrompt env scene) (fun _ _ p => p.call)
        finish
  | .httpCall =>
    single httpCall.title Kind.httpCall.name (fun env d scene => d.prepareRequest env scene) (fun _ _ r => r.send)
      finish
  | .router =>
    single router.title Kind.router.name (fun _ _ _ => pure ()) (fun _ _ _ => pure .null) route
  | .staticData =>
    single staticData.title Kind.staticData.name (fun _ _ _ => pure ()) (fun _ d _ => d.copyData) finish
  | .batch => if modelWaits then waitingBatchWith finish else batchWith finish
  | .cooperative => askingWith finish
  | .cooperativeParallel => parallelWith finish

/-- With the last stages of the built-in kinds these are the built-in kinds. -/
theorem ending_eq (modelWaits : Bool) (k : Kind) :
    ending Declared.finish (fun d scene _ => d.route scene) modelWaits k = ofKind modelWaits k := by
  cases k <;> cases modelWaits <;> rfl

end Make

namespace Compiler

/-- How a node of a kind is made that reports the failures of its last stage under other names. -/
def reportingMake (env : Environment) (tag : Failure → Failure) (k : Kind) : Make :=
  Make.ending (fun d scene result => (d.finish scene result).reporting tag)
    (fun d scene _ => (d.route scene).reporting tag) env.modelWaits k

/-- The compiler with the built-in kinds, whose nodes report the failures of their last stages under other
names. -/
def reporting (env : Environment) (tag : Failure → Failure) : Compiler where
  env := env
  registry := Kind.named.map fun k => (k.1, .custom (reportingMake env tag k.2))
  routers := Kind.routerNames

/-- A run of the graph of a description comes to a failure before the end of a visit: it comes to the same
whatever names failures at the end of visits have. -/
def FailsBeforeEnd (env : Environment) (d : Value) (w w' : World) (run : Compiled → Act World Datum) (u : World)
    (e : Failure) (v : World) : Prop :=
  ∀ tag : Failure → Failure, ∃ c, (reporting env tag).compile d w = (.ok c, w') ∧ run c u = (.error e, v)

variable {env : Environment} {tag : Failure → Failure}

theorem get?_reporting (env : Environment) (tag : Failure → Failure) (name : String) :
    Members.get? (reporting env tag).registry name =
      (Kind.ofName? name).map fun k => .custom (reportingMake env tag k) :=
  Members.get?_map (fun k => Factory.custom (reportingMake env tag k)) Kind.named name

theorem reportingMake_id (k : Kind) : reportingMake env id k = Make.ofKind env.modelWaits k := by
  simp only [reportingMake, Act.reporting_id]
  exact Make.ending_eq env.modelWaits k

theorem node_reporting_id (own : Addr) (number : Nat) (m : Value) :
    (reporting env id).node own number m = (ofEnvironment env).node own number m := by
  rw [node, node]
  cases m.field "kind" with
  | str name =>
    rw [factoryOf, factoryOf, get?_reporting, ofEnvironment, get?_builtins]
    cases Kind.ofName? name with
    | none => rfl
    | some k =>
      simp only [Option.map_some, bind, Except.bind, Factory.make, reportingMake_id]
      rfl
  | _ => rfl

/-- Under their own names failures are what they are in the graph itself. -/
theorem compile_reporting_id (env : Environment) : (reporting env id).compile = (ofEnvironment env).compile := by
  have hnodes : ∀ own number ms,
      (reporting env id).makeNodes own number ms = (ofEnvironment env).makeNodes own number ms := by
    intro own number ms
    induction ms generalizing number with
    | nil => rfl
    | cons m ms ih => rw [makeNodes, makeNodes, node_reporting_id, ih]
  have hassemble : (reporting env id).assemble = (ofEnvironment env).assemble := by
    funext d own params
    rw [assemble, assemble, hnodes]
  funext d w
  rw [compile, compile, hassemble]
  rfl

/-- What fails before the end of a visit is the run of the graph itself. -/
theorem FailsBeforeEnd.run {d : Value} {w w' u v : World} {run : Compiled → Act World Datum} {e : Failure}
    (h : FailsBeforeEnd env d w w' run u e v) :
    ∃ c, (ofEnvironment env).compile d w = (.ok c, w') ∧ run c u = (.error e, v) :=
  compile_reporting_id env ▸ h id

/-! ## 2. What is compiled -/

open Description

/-- A graph whose nodes report, as it is walked: whatever it needs of memory lies among the first cells. -/
structure Reporting (env : Environment) (tag : Failure → Failure) (n : Nat) (c : Compiled) (plan : FlowPlan)
    (params : Addr) (first : Nat) : Prop where
  walks : c.Walks plan params
  params_lt : params < n
  start : plan.start = some first
  first_lt : first < c.flow
  wiring : ∀ (i : Nat) (node : Node), c.nodes[i]? = some node → ∀ l j, Members.get? node.wiring l = some j → j < c.flow
  conduct : ∀ (i : Nat) (node : Node), c.nodes[i]? = some node → ∃ k declared policy, declared.content < n ∧
    node.conduct = (reportingMake env tag k).conduct env declared policy i

theorem node_reporting {own : Addr} {number : Nat} {m : Value} {n : Node}
    (h : (reporting env tag).node own number m = .ok n) :
    ∃ k policy id, n = (reporting env tag).nodeOf (reportingMake env tag k) policy own number id m := by
  rw [node] at h
  cases hkind : m.field "kind" with
  | str name =>
    rw [hkind, factoryOf, get?_reporting] at h
    cases hk : Kind.ofName? name with
    | none =>
      rw [hk] at h
      cases h
    | some k =>
      rw [hk] at h
      simp only [Option.map_some, bind, Except.bind, Factory.make] at h
      cases hpolicy : policyOf m with
      | error e =>
        rw [hpolicy] at h
        cases h
      | ok policy =>
        rw [hpolicy] at h
        exact ⟨k, policy, _, (Except.ok.inj h).symm⟩
  | _ =>
    rw [hkind] at h
    cases h

theorem makeNodes_reporting {own : Addr} {number : Nat} {ms : List Value} {nodes : List Node}
    (h : (reporting env tag).makeNodes own number ms = .ok nodes) :
    nodes.length = ms.length ∧ ∀ i n, nodes[i]? = some n → ∃ m ∈ ms, ∃ k policy id,
      n = (reporting env tag).nodeOf (reportingMake env tag k) policy own (number + i) id m := by
  induction ms generalizing number nodes with
  | nil =>
    obtain rfl := Except.ok.inj h
    refine ⟨rfl, fun i n hn => ?_⟩
    rw [List.getElem?_nil] at hn
    cases hn
  | cons m ms ih =>
    obtain ⟨first, more, hfirst, hmore, rfl⟩ := exists_of_makeNodes_cons h
    obtain ⟨hlength, hall⟩ := ih hmore
    refine ⟨by rw [List.length_cons, List.length_cons, hlength], fun i n hn => ?_⟩
    cases i with
    | zero =>
      rw [List.getElem?_cons_zero, Option.some.injEq] at hn
      exact ⟨m, List.mem_cons_self, hn ▸ node_reporting hfirst⟩
    | succ i =>
      rw [List.getElem?_cons_succ] at hn
      -- the numbers of the rest begin one later
      obtain ⟨m', hm', k, policy, id, hnode⟩ := hall i n hn
      rw [Nat.add_assoc, Nat.add_comm 1 i] at hnode
      exact ⟨m', List.mem_cons_of_mem _ hm', k, policy, id, hnode⟩

theorem addressOf_lt {m : Value} {n : Nat} (hn : 0 < n) (hm : m.Free (.beyond n)) : addressOf m < n := by
  cases m with
  | list cell xs =>
    cases cell with
    | none => exact hn
    | some a => exact Seal.beyond_eq_none.1 ((Value.free_list.1 hm).1 a rfl)
  | dict cell ms =>
    cases cell with
    | none => exact hn
    | some a => exact Seal.beyond_eq_none.1 ((Value.free_dict.1 hm).1 a rfl)
  | store a name ms => exact Seal.beyond_eq_none.1 (Value.free_store.1 hm).1
  | _ => exact hn

/-- To note something leaves memory alone. -/
theorem heap_noteAll (ds : List Diagnostic) (w : World) : (World.noteAll ds w).2.heap = w.heap := by
  induction ds generalizing w with
  | nil => rfl
  | cons d ds ih => exact ih _

variable {d : Value} {w w' : World} {c : Compiled}

/-- What compiling a description comes to, when it does. -/
theorem compile_eq_ok {comp : Compiler} (h : comp.compile d w = (.ok c, w')) :
    ∃ notes, comp.problems ((w.heap.keep d).2.view (w.heap.keep d).1) = .ok [] ∧
      comp.assemble ((w.heap.keep d).2.view (w.heap.keep d).1) (w.heap.keep d).2.cells.size
        ((w.heap.keep d).2.cells.size + 1) = .ok (c, notes) ∧
      w'.heap.cells.size = (w.heap.keep d).2.cells.size + 2 := by
  rw [compile] at h
  dsimp only at h
  split at h
  · cases h
  · cases h
  · next hproblems =>
    split at h
    · cases h
    · next compiled notes hassemble =>
      split at h
      · obtain ⟨hc, rfl⟩ := Prod.mk.inj h
        obtain rfl := Except.ok.inj hc
        rw [Heap.alloc, Heap.alloc, Array.size_push] at hassemble
        refine ⟨notes, hproblems, hassemble, ?_⟩
        rw [heap_noteAll, Heap.size_alloc, Heap.size_alloc]
      · cases (Prod.mk.inj h).1

/-- Compiling keeps memory closed, whether it succeeds or not. -/
theorem closed_compile (comp : Compiler) (hw : w.heap.Closed) (hd : d.Free (.beyond w.heap.cells.size))
    (hglobals : comp.env.globals.Free (.beyond w.heap.cells.size)) : (comp.compile d w).2.heap.Closed := by
  obtain ⟨hkept, hroot⟩ := Heap.keepsClosed d w.heap hw hd
  have hsize := (Heap.extends_keep w.heap d).size
  have hfree := hkept.apart.view hroot
  have hcommon : ∀ m ∈ (comp.env.commonMembers? (w.heap.keep d).2).getD [],
      m.2.Free (.beyond (w.heap.keep d).2.cells.size) := by
    cases hms : comp.env.commonMembers? (w.heap.keep d).2 with
    | none => exact fun m hm => absurd hm List.not_mem_nil
    | some ms => exact Terms.free_commonMembers hkept.apart (hglobals.later hsize) hms
  have hparams : ∀ m ∈ paramsFor ((comp.env.commonMembers? (w.heap.keep d).2).getD []) (w.heap.keep d).2
      ((w.heap.keep d).2.view (w.heap.keep d).1), m.2.Free (.beyond (w.heap.keep d).2.cells.size) := by
    rw [paramsFor]
    refine Members.forall_putAll hcommon ?_
    split
    · next a ms hglobals =>
      have hfield := Terms.free_field hfree "globals"
      rw [hglobals] at hfield
      exact hkept.apart.membersAt ((Value.free_dict.1 hfield).1 a rfl)
    · exact fun m hm => absurd hm List.not_mem_nil
  have hdone := (hkept.alloc Cell.free_empty).alloc
    (Cell.free_dict.2 fun m hm => (hparams m hm).later (Heap.extends_alloc _ _).size)
  rw [compile]
  dsimp only
  split
  · exact hkept
  · exact hkept
  · split
    · exact hdone
    · split <;> exact (heap_noteAll _ _).symm ▸ hdone

theorem conduct_flowNode (isCooperative : Bool) (name : String) (start : Nat) (params : Addr) :
    (flowNode isCooperative name start params).conduct =
      .walking isCooperative ⟨name, some start, .null, []⟩ := by
  cases isCooperative <;> rfl

/-- What a compiler puts together: the nodes that it has made and wired, and the flow. -/
theorem exists_of_assemble {comp : Compiler} {own params : Addr} {notes : List Diagnostic}
    (h : comp.assemble d own params = .ok (c, notes)) :
    ∃ nodes edges start, comp.makeNodes own 0 (nodesOf d) = .ok nodes ∧
      routesOf ((nodesOf d).map fun m => (m.field "id").plain) d = .ok (edges, start) ∧
      c = ⟨(wireAll edges nodes).1 ++ [flowNode (nodes.any Node.isCooperative)
          ((d.field "name").orElse (d.field "entry")).plain start params],
        (nodesOf d).map fun m => (m.field "id").plain, nodes.length, (d.field "name").orElse (d.field "entry")⟩ := by
  rw [assemble, ← nodesOf] at h
  cases hnodes : comp.makeNodes own 0 (nodesOf d) with
  | error e =>
    rw [hnodes] at h
    cases h
  | ok nodes =>
    rw [hnodes] at h
    dsimp only [bind, Except.bind] at h
    split at h
    · cases h
    · next edges start hroutes =>
      obtain ⟨rfl, -⟩ := Prod.mk.inj (Except.ok.inj h)
      exact ⟨nodes, edges, start, rfl, hroutes, rfl⟩

/-- Nodes are made without edges, so the first edge of each route finds it free. -/
theorem wireAll_reporting {own : Addr} {ms : List Value} {nodes : List Node} {edges : List Edge}
    (hmade : (reporting env tag).makeNodes own 0 ms = .ok nodes) (hlt : ∀ f ∈ edges, f.source < nodes.length)
    (hapart : edges.Pairwise Apart) : wireAll edges nodes = (wired edges nodes, []) := by
  refine wireAll_eq hlt (fun f hf n hn => ?_) hapart
  obtain ⟨m, -, k, policy, id, rfl⟩ := (makeNodes_reporting hmade).2 _ n hn
  rfl

/-- A node that has been wired leads where the edges lead that begin at it, and is else as it has been made. -/
theorem exists_of_wired {own : Addr} {ms : List Value} {nodes : List Node} {edges : List Edge}
    (hmade : (reporting env tag).makeNodes own 0 ms = .ok nodes) {i : Nat} {node : Node}
    (hnode : (wired edges nodes)[i]? = some node) : ∃ m ∈ ms, ∃ k policy id, node =
      { (reporting env tag).nodeOf (reportingMake env tag k) policy own i id m with wiring := routesFrom i edges } := by
  rw [wired, List.getElem?_mapIdx, Option.map_eq_some_iff] at hnode
  obtain ⟨n, hn, rfl⟩ := hnode
  obtain ⟨m, hm, k, policy, id, rfl⟩ := (makeNodes_reporting hmade).2 i n hn
  rw [Nat.zero_add]
  exact ⟨m, hm, k, policy, id, rfl⟩

/-- A graph that is compiled is walked among its nodes, and what it needs is there. -/
theorem reporting_of_compile (hclosed : w.heap.Closed) (hd : d.Free (.beyond w.heap.cells.size))
    (h : (reporting env tag).compile d w = (.ok c, w')) :
    ∃ name first params, Reporting env tag w'.heap.cells.size c ⟨name, some first, .null, []⟩ params first := by
  obtain ⟨notes, hproblems, hassemble, hsize⟩ := compile_eq_ok h
  obtain ⟨hkept, hroot⟩ := Heap.keepsClosed d w.heap hclosed hd
  have hfree := hkept.apart.view hroot
  generalize (w.heap.keep d).2.view (w.heap.keep d).1 = d' at hproblems hassemble hfree
  have hwell : WellFormed Kind.names Kind.routerNames d' := wellFormed_of_accepted hproblems
  obtain ⟨nodes, edges, start, hmade, hroutes, rfl⟩ := exists_of_assemble hassemble
  have hids : ((nodesOf d').map fun m => (m.field "id").plain) = (nodesOf d').map idOf := by
    refine List.map_congr_left fun m hm => ?_
    rw [(hwell.isNode m hm).field_id]
    rfl
  obtain ⟨edges', start', hroutes', hnumbers, hapart, e, -, hentry⟩ := routes_ok hwell
  rw [hids, hroutes', Except.ok.injEq, Prod.mk.injEq] at hroutes
  obtain ⟨rfl, rfl⟩ := hroutes
  -- entries and edges are numbers of nodes
  have hlength : ((nodesOf d').map idOf).length = nodes.length := by
    rw [List.length_map, (makeNodes_reporting hmade).1]
  have hlt : ∀ {j : Nat} {id : String}, ((nodesOf d').map idOf)[j]? = some id → j < nodes.length := fun hj =>
    hlength ▸ (List.getElem?_eq_some_iff.1 hj).1
  have hends : ∀ f ∈ edges', f.source < nodes.length ∧ f.target < nodes.length := by
    intro f hf
    obtain ⟨x, -, hx⟩ := exists_mem_of_forall₂ hnumbers f hf
    obtain ⟨s, t, -, hs, ht⟩ := hx.leads
    exact ⟨hlt hs, hlt ht⟩
  have hflow : ((nodesOf d').map idOf).length = (wired edges' nodes).length := by
    rw [hlength, length_wired]
  have htake : ∀ flow : Node, (wired edges' nodes ++ [flow]).take ((nodesOf d').map idOf).length =
      wired edges' nodes := fun flow => by rw [hflow, List.take_left]
  rw [hids, wireAll_reporting hmade (fun f hf => (hends f hf).1) hapart]
  let name := ((d'.field "name").orElse (d'.field "entry")).plain
  let flow := flowNode (nodes.any Node.isCooperative) name start' ((w.heap.keep d).2.cells.size + 1)
  refine ⟨name, start', (w.heap.keep d).2.cells.size + 1,
    ⟨⟨hlength, flow, ?_, rfl, ?_⟩, ?_, rfl, hlt hentry, fun i node hnode l j hj => ?_, fun i node hnode => ?_⟩⟩
  · rw [← length_wired edges' nodes]
    exact List.getElem?_concat_length
  · rw [Compiled.nodes, htake, any_wired]
    exact conduct_flowNode _ _ _ _
  · rw [hsize]
    exact Nat.lt_succ_self _
  · rw [Compiled.nodes, htake] at hnode
    obtain ⟨m, -, k, policy, id, rfl⟩ := exists_of_wired hmade hnode
    exact (hends _ ((get?_routesFrom hapart i l j).1 hj)).2
  · rw [Compiled.nodes, htake] at hnode
    obtain ⟨m, hm, k, policy, id, rfl⟩ := exists_of_wired hmade hnode
    refine ⟨k, _, policy, ?_, rfl⟩
    have hm' : m.Free (.beyond w'.heap.cells.size) :=
      (Terms.free_items (Terms.free_field hfree "nodes") m hm).later (by omega)
    exact addressOf_lt (by omega) hm'

end Compiler

end NodeFlow
