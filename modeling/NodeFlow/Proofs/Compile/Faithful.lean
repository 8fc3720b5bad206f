import NodeFlow.Proofs.Compile.Assembly
/-!
# Compilation is total and faithful

A description that the checker accepts compiles, whatever the environment, and the graph says what the
description says: its nodes are the declared ones, an edge is wired exactly where one is declared, the
walk starts at the entry, and the flow is cooperative if one of the nodes is.

The common parameters of the environment are the one thing that compiling depends on beside the
description: they have to be an object, if there are any.
-/

set_option autoImplicit false

namespace NodeFlow

open Description

/-- The common parameters of an environment are an object in memory, or there are none. -/
def Environment.HasGlobals (env : Environment) (h : Heap) : Prop :=
  env.globals = .null ∨ ∃ a ms, env.globals = .ref a ∧ h.cell? a = some (.dict ms)

theorem Environment.HasGlobals.commonMembers? {env : Environment} {h : Heap}
    (hg : env.HasGlobals h) : ∃ common, env.commonMembers? h = some common := by
  rcases hg with hnull | ⟨a, ms, href, hcell⟩
  · rw [Environment.commonMembers?, hnull]
    exact ⟨[], rfl⟩
  · rw [Environment.commonMembers?, href, Heap.view, Heap.viewWithin, hcell]
    exact ⟨_, rfl⟩

theorem Environment.HasGlobals.extends {env : Environment} {h h' : Heap} (hg : env.HasGlobals h)
    (hext : h'.Extends h) : env.HasGlobals h' := by
  refine hg.imp_right ?_
  rintro ⟨a, ms, href, hcell⟩
  exact ⟨a, ms, href, (hext.cell a (Heap.cell?_lt hcell)).trans hcell⟩

/-- A compiled graph says what a description says. -/
structure Faithful (d : Value) (c : Compiled) : Prop where
  ids : c.ids = (nodesOf d).map idOf
  distinct : c.ids.Nodup
  names : c.nodes.map Node.name = c.ids
  wiring : ∀ (i : Nat) (n : Node), c.nodes[i]? = some n → ∀ label j, Members.get? n.wiring label = some j ↔
    ∃ e ∈ edgesOf d, ∃ target, Leads e n.name label target ∧ c.ids[j]? = some target
  entry : ∃ flow start e, c.flowNode? = some flow ∧ flow.start? = some start ∧
    c.ids[start]? = some e ∧ d.field "entry" = .str e
  edges : c.edgeCount = (edgesOf d).length
  cooperative : c.isCooperative = true ↔ ∃ n ∈ c.nodes, n.isCooperative = true

/-- The declarations of a compiled graph have different ids. -/
theorem Faithful.eq_of_idOf {d : Value} {c : Compiled} (h : Faithful d c) {n m : Value} (hn : n ∈ nodesOf d)
    (hm : m ∈ nodesOf d) (hid : idOf n = idOf m) : n = m :=
  List.inj_on_of_nodup_map (h.ids ▸ h.distinct) hn hm hid

namespace Compiler

section

variable {env : Environment} {d : Value} {own params : Addr} {nodes : List Node}
  {edges : List Edge} {start : Nat} {c : Compiled}

theorem length_wired (es : List Edge) (g : Graph) : (wired es g).length = g.length := by
  rw [wired, List.length_mapIdx]

/-! ## 1. What is assembled is faithful -/

theorem Assembles.nodes_eq (h : Assembles env d own params nodes edges start c) :
    c.nodes = wired edges nodes := by
  obtain ⟨name, hgraph⟩ := h.graph
  have hlength : c.ids.length = (wired edges nodes).length := by
    rw [h.ids, List.length_map, length_wired, h.length]
  rw [Compiled.nodes, hgraph, hlength, List.take_left]

theorem Assembles.flowNode? (h : Assembles env d own params nodes edges start c) :
    ∃ name, c.flowNode? =
      some (flowNode (nodes.any Node.isCooperative) name start params) := by
  obtain ⟨name, hgraph⟩ := h.graph
  refine ⟨name, ?_⟩
  rw [Compiled.flowNode?, hgraph, h.flow, ← length_wired edges nodes, List.getElem?_concat_length]

/-- A compiled node is made of the declaration in its place, with the edges that leave it. -/
theorem Assembles.node (h : Assembles env d own params nodes edges start c) {i : Nat} {n : Node}
    (hn : c.nodes[i]? = some n) :
    ∃ m n₀, (nodesOf d)[i]? = some m ∧ nodes[i]? = some n₀ ∧ Makes env own i m n₀ ∧
      n = { n₀ with wiring := routesFrom i edges } := by
  rw [h.nodes_eq, wired, List.getElem?_mapIdx, Option.map_eq_some_iff] at hn
  obtain ⟨n₀, hn₀, rfl⟩ := hn
  obtain ⟨m, hm, hmade⟩ := h.makes i n₀ hn₀
  exact ⟨m, n₀, hm, hn₀, hmade, by rw [hmade.wiring, List.nil_append]⟩

theorem Makes.name {number : Nat} {m : Value} {n : Node} (h : Makes env own number m n) :
    n.name = idOf m := by
  obtain ⟨name, kind, policy, -, -, -, rfl⟩ := h
  rfl

/-- A compiled node has the id in its place. -/
theorem Assembles.ids_getElem? (h : Assembles env d own params nodes edges start c) {i : Nat}
    {n : Node} (hn : c.nodes[i]? = some n) : c.ids[i]? = some n.name := by
  obtain ⟨m, n₀, hm, -, hmade, rfl⟩ := h.node hn
  rw [h.ids, List.getElem?_map, hm, Option.map_some, ← hmade.name]

theorem Assembles.names (h : Assembles env d own params nodes edges start c) :
    c.nodes.map Node.name = c.ids := by
  have hlength : c.nodes.length = c.ids.length := by
    rw [h.nodes_eq, length_wired, h.length, h.ids, List.length_map]
  refine List.ext_getElem? ?_
  intro i
  rw [List.getElem?_map]
  cases hn : c.nodes[i]? with
  | none =>
    rw [List.getElem?_eq_none_iff] at hn
    rw [Option.map_none, List.getElem?_eq_none (hlength ▸ hn)]
  | some n => rw [Option.map_some, h.ids_getElem? hn]

theorem Assembles.edge_mem_iff (h : Assembles env d own params nodes edges start c)
    (hdistinct : c.ids.Nodup) {i : Nat} {source : String} (hi : c.ids[i]? = some source)
    (label : String) (j : Nat) :
    (⟨i, label, j⟩ : Edge) ∈ edges ↔
      ∃ e ∈ edgesOf d, ∃ target, Leads e source label target ∧ c.ids[j]? = some target := by
  -- an id has one place
  have hplace : ∀ {k l : Nat} {id : String}, c.ids[k]? = some id → c.ids[l]? = some id → k = l := by
    intro k l id hk hl
    obtain ⟨hklt, hkid⟩ := List.getElem?_eq_some_iff.1 hk
    obtain ⟨hllt, hlid⟩ := List.getElem?_eq_some_iff.1 hl
    exact hdistinct.getElem_inj_iff.1 (hkid.trans hlid.symm)
  constructor
  · intro hmem
    obtain ⟨e, he, hnumbers⟩ := exists_mem_of_forall₂ h.numbers _ hmem
    obtain ⟨s, t, hlead, hs, ht⟩ := hnumbers.leads
    rw [hi, Option.some.injEq] at hs
    subst hs
    exact ⟨e, he, t, hlead, ht⟩
  · rintro ⟨e, he, target, hlead, hj⟩
    obtain ⟨f, hf, hnumbers⟩ := exists_mem_of_forall₂ h.numbers.flip e he
    obtain ⟨s, t, hlead', hs, ht⟩ := hnumbers.leads
    obtain ⟨rfl, hlabel, rfl⟩ := hlead.unique hlead'
    obtain rfl := hplace hi hs
    obtain rfl := hplace hj ht
    rw [hlabel]
    exact hf

theorem foldl_add_eq_sum (xs : List Node) (count : Nat) :
    xs.foldl (fun count n => count + n.wiring.length) count =
      count + (xs.map fun n => n.wiring.length).sum := by
  induction xs generalizing count with
  | nil => rfl
  | cons n xs ih => rw [List.foldl_cons, ih, List.map_cons, List.sum_cons, Nat.add_assoc]

theorem Assembles.edgeCount (h : Assembles env d own params nodes edges start c) :
    c.edgeCount = (edgesOf d).length := by
  have hlengths : c.nodes.map (fun n => n.wiring.length) =
      (List.range nodes.length).map fun i => (routesFrom i edges).length := by
    refine List.ext_getElem? ?_
    intro i
    rw [List.getElem?_map, List.getElem?_map]
    cases hn : c.nodes[i]? with
    | none =>
      rw [h.nodes_eq, List.getElem?_eq_none_iff, length_wired] at hn
      rw [List.getElem?_eq_none (by rwa [List.length_range]), Option.map_none, Option.map_none]
    | some n =>
      obtain ⟨m, n₀, -, hn₀, -, rfl⟩ := h.node hn
      rw [List.getElem?_range (List.getElem?_eq_some_iff.1 hn₀).1, Option.map_some, Option.map_some]
  -- so every edge is counted, at its source
  have hrange : ∀ e ∈ edges, e.source < nodes.length := by
    intro e he
    obtain ⟨x, -, hx⟩ := exists_mem_of_forall₂ h.numbers e he
    have hlt := hx.source_lt
    rwa [h.ids, List.length_map, ← h.length] at hlt
  calc c.edgeCount
      = (c.nodes.map fun n => n.wiring.length).sum := by
        rw [Compiled.edgeCount, foldl_add_eq_sum, Nat.zero_add]
    _ = ∑ i ∈ Finset.range nodes.length, (routesFrom i edges).length := by rw [hlengths]; rfl
    _ = edges.length := sum_length_routesFrom hrange
    _ = (edgesOf d).length := h.numbers.length_eq.symm

theorem any_wired (es : List Edge) (g : Graph) :
    (wired es g).any Node.isCooperative = g.any Node.isCooperative := by
  have hmap : (wired es g).map Node.isCooperative = g.map Node.isCooperative := by
    refine List.ext_getElem? ?_
    intro i
    rw [List.getElem?_map, List.getElem?_map, wired, List.getElem?_mapIdx]
    cases g[i]? <;> rfl
  simpa only [List.any_map, Function.comp_def, id] using congrArg (List.any · id) hmap

theorem Assembles.isCooperative_iff (h : Assembles env d own params nodes edges start c) :
    c.isCooperative = true ↔ ∃ n ∈ c.nodes, n.isCooperative = true := by
  obtain ⟨name, hflow⟩ := h.flowNode?
  rw [Compiled.isCooperative, hflow, Option.any_some, h.nodes_eq, ← List.any_eq_true, any_wired]
  cases nodes.any Node.isCooperative <;> rfl

theorem Assembles.faithful (h : Assembles env d own params nodes edges start c)
    (hd : (nodesOf d).Pairwise fun n m => idOf n ≠ idOf m) : Faithful d c := by
  have hdistinct : c.ids.Nodup := by
    rw [h.ids]
    exact List.pairwise_map.2 hd
  obtain ⟨name, hflow⟩ := h.flowNode?
  obtain ⟨e, he, hstart⟩ := h.entry
  refine ⟨h.ids, hdistinct, h.names, ?_, ⟨_, start, e, hflow, ?_, hstart, he⟩, h.edgeCount,
    h.isCooperative_iff⟩
  · intro i n hn label j
    rw [← h.edge_mem_iff hdistinct (h.ids_getElem? hn), ← get?_routesFrom h.apart]
    obtain ⟨m, n₀, -, -, -, rfl⟩ := h.node hn
    rfl
  · cases nodes.any Node.isCooperative <;> rfl

end

end Compiler

/-! ## 2. Marks -/

/-- A graph that says what a description with marks says does so without them. -/
theorem Faithful.fresh {d : Value} {c : Compiled} (h : Faithful d c) : Faithful d.fresh c where
  ids := by
    rw [h.ids, nodesOf_fresh, List.map_map]
    exact List.map_congr_left fun n _ => (idOf_fresh n).symm
  distinct := h.distinct
  names := h.names
  wiring i n hn label j := by
    rw [h.wiring i n hn label j, edgesOf_fresh]
    constructor
    · rintro ⟨e, he, target, hlead, hj⟩
      exact ⟨e.fresh, List.mem_map_of_mem he, target, (leads_fresh e _ _ _).2 hlead, hj⟩
    · rintro ⟨f, hf, target, hlead, hj⟩
      obtain ⟨e, he, rfl⟩ := List.mem_map.1 hf
      exact ⟨e, he, target, (leads_fresh e _ _ _).1 hlead, hj⟩
  entry := by
    obtain ⟨flow, start, e, hflow, hstart, he, hentry⟩ := h.entry
    exact ⟨flow, start, e, hflow, hstart, he, by simpa using hentry⟩
  edges := by rw [h.edges, edgesOf_fresh, List.length_map]
  cooperative := h.cooperative

namespace Compiler

/-! ## 3. Compiling -/

/-- The names of the built-in kinds are those of the registry. -/
theorem problems_ofEnvironment (env : Environment) (d : Value) :
    (ofEnvironment env).problems d = Description.problems Kind.names Kind.routerNames d := rfl

/-- What is accepted is kept in memory, behind it come an empty object and the parameters of the flow, and
nothing else changes. What remains is to assemble a graph from what was kept, which is the same for all
environments with the same common parameters. -/
theorem compile_of_assemble {env : Environment} {d : Value} {w : World} (hjson : d.IsJson)
    (haccepted : (ofEnvironment env).problems d = .ok []) (hglobals : env.HasGlobals w.heap) :
    ∃ d' kept common, kept = (w.heap.keep d).2 ∧ d' = kept.view (w.heap.keep d).1 ∧
      Heap.Kept w.heap d d' kept ∧ WellFormed Kind.names Kind.routerNames d' ∧
      env.commonMembers? kept = some common ∧
      ∀ env' c, env'.globals = env.globals →
        (ofEnvironment env').assemble d' kept.cells.size (kept.cells.size + 1) = .ok (c, []) →
        (ofEnvironment env').compile d w = (.ok c, { w with
          heap := ((kept.alloc (.dict [])).2.alloc (.dict (paramsFor common kept d'))).2 }) := by
  obtain ⟨d', hdatum, hkept⟩ := Heap.keep_kept hjson w.heap
  have hview : (w.heap.keep d).2.view (w.heap.keep d).1 = d' := by
    rw [hdatum]
    exact hkept.holds.view_datum
  rw [problems_ofEnvironment] at haccepted
  have hwell : WellFormed Kind.names Kind.routerNames d' := by
    refine WellFormed.of_fresh ?_
    rw [hkept.fresh]
    exact wellFormed_of_accepted haccepted
  -- keeping the description leaves the common parameters in their place
  obtain ⟨common, hcommon⟩ := (hglobals.extends hkept.extends_).commonMembers?
  refine ⟨d', _, common, rfl, hview.symm, hkept, hwell, hcommon, ?_⟩
  intro env' c henv hassemble
  -- the parameters of the flow come right behind the empty object
  have hparams : (((w.heap.keep d).2.alloc (.dict [])).2.alloc
      (.dict (paramsFor common (w.heap.keep d).2 d'))).1 = (w.heap.keep d).2.cells.size + 1 := by
    rw [Heap.alloc, Heap.size_alloc]
  have hsame : (ofEnvironment env').env.commonMembers? (w.heap.keep d).2 = some common := by
    rw [← hcommon, Environment.commonMembers?, Environment.commonMembers?, ← henv]
    rfl
  rw [compile]
  simp only [hview, problems_ofEnvironment, accepted_of_wellFormed hwell, hsame, Option.getD_some,
    hparams]
  rw [Heap.alloc, hassemble]
  rfl

/-- What the compiler accepts it compiles: the description is kept in memory and read there, behind it come an
empty object and the parameters of the flow, and nothing else changes. -/
theorem compile_ok_view {env : Environment} {d : Value} {w : World} (hjson : d.IsJson)
    (haccepted : (ofEnvironment env).problems d = .ok []) (hglobals : env.HasGlobals w.heap) :
    ∃ d' kept common nodes edges start c, kept = (w.heap.keep d).2 ∧ d' = kept.view (w.heap.keep d).1 ∧
      Heap.Kept w.heap d d' kept ∧ WellFormed Kind.names Kind.routerNames d' ∧
      env.commonMembers? kept = some common ∧
      Assembles env d' kept.cells.size (kept.cells.size + 1) nodes edges start c ∧
      (ofEnvironment env).compile d w = (.ok c, { w with
        heap := ((kept.alloc (.dict [])).2.alloc (.dict (paramsFor common kept d'))).2 }) := by
  obtain ⟨d', kept, common, hheap, hview, hkept, hwell, hcommon, hcompile⟩ :=
    compile_of_assemble hjson haccepted hglobals
  obtain ⟨nodes, edges, start, c, hassemble, h⟩ := assemble_ok env hwell kept.cells.size
    (kept.cells.size + 1)
  exact ⟨d', kept, common, nodes, edges, start, c, hheap, hview, hkept, hwell, hcommon, h,
    hcompile env c rfl hassemble⟩

/-- The same, whatever memory has become by keeping the description. -/
theorem compile_ok {env : Environment} {d : Value} {w : World} (hjson : d.IsJson)
    (haccepted : (ofEnvironment env).problems d = .ok []) (hglobals : env.HasGlobals w.heap) :
    ∃ d' kept common nodes edges start c, Heap.Kept w.heap d d' kept ∧
      WellFormed Kind.names Kind.routerNames d' ∧ env.commonMembers? kept = some common ∧
      Assembles env d' kept.cells.size (kept.cells.size + 1) nodes edges start c ∧
      (ofEnvironment env).compile d w = (.ok c, { w with
        heap := ((kept.alloc (.dict [])).2.alloc (.dict (paramsFor common kept d'))).2 }) := by
  obtain ⟨d', kept, common, nodes, edges, start, c, -, -, h⟩ := compile_ok_view hjson haccepted hglobals
  exact ⟨d', kept, common, nodes, edges, start, c, h⟩

end Compiler

end NodeFlow
