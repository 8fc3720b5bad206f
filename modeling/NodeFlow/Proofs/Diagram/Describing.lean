import NodeFlow.Proofs.Compile.Order
import NodeFlow.Proofs.Compile.Total
import NodeFlow.Proofs.Description.Cycles
import NodeFlow.Proofs.Diagram.Drawing
/-!
# Drawings of descriptions

A description can be drawn as it stands, and it can be compiled and then drawn as a flow. Both drawings are of one
graph, whose nodes are the places of the declarations and whose edges are numbered by them; they differ in the ids under
which they draw a place.

The awkward thing up front: a description is drawn under the ids that it declares, with all characters that no id of a
drawing can have replaced, and nothing is done about two ids that become one by that. So the drawing of a description
merges nodes, and it does so exactly if their ids are spelled alike. A flow is drawn under ids that the search keeps
apart, so the other drawing never does.

Main statement: `description_drawn_as_compiled`.
-/

set_option autoImplicit false

namespace NodeFlow

open Description (nodesOf edgesOf WellFormed IsNode Leads)

/-! ## 1. Compiled graphs -/

namespace Compiler

variable {env : Environment} {d : Value} {own params : Addr} {nodes : List Node} {edges : List Edge} {start : Nat}
  {c : Compiled} {i : Nat} {n : Node}

/-- An edge as the numbers of its ends with its label between them. -/
def Edge.numbered (e : Edge) : Nat × String × Nat := (e.source, e.label, e.target)

/-- No declaration makes a flow. -/
theorem Makes.start?_eq {number : Nat} {m : Value} (h : Makes env own number m n) : n.start? = none := by
  obtain ⟨name, kind, policy, -, -, -, rfl⟩ := h
  cases kind <;> cases env.modelWaits <;> rfl

theorem Assembles.start?_flow (h : Assembles env d own params nodes edges start c) :
    (c.graph[c.flow]?).bind Node.start? = some start := by
  obtain ⟨name, hflow⟩ := h.flowNode?
  rw [← Compiled.flowNode?, hflow]
  cases nodes.any Node.isCooperative <;> rfl

/-- A node of a compiled graph is that of a declaration, or the flow, which comes last. -/
theorem Assembles.declared_or_flow (h : Assembles env d own params nodes edges start c) (hn : c.graph[i]? = some n) :
    c.nodes[i]? = some n ∨ i = c.ids.length ∧ c.flow = i := by
  have hcount : nodes.length = c.ids.length := by rw [h.length, h.ids, List.length_map]
  obtain ⟨name, hgraph⟩ := h.graph
  obtain ⟨hlt, -⟩ := List.getElem?_eq_some_iff.1 hn
  rw [hgraph, List.length_append, length_wired, hcount, List.length_singleton] at hlt
  rcases Nat.lt_succ_iff_lt_or_eq.1 hlt with hi | rfl
  · exact .inl (by rw [Compiled.nodes, List.getElem?_take_of_lt hi, hn])
  · exact .inr ⟨rfl, h.flow.trans hcount⟩

/-- A flow starts where the description says, and nothing else starts anywhere. -/
theorem Assembles.start?_eq (h : Assembles env d own params nodes edges start c) (hn : c.graph[i]? = some n) :
    ∀ k ∈ n.start?, k = start := by
  intro k hk
  rcases h.declared_or_flow hn with hnode | ⟨-, hflow⟩
  · obtain ⟨m, n₀, -, -, hmade, rfl⟩ := h.node hnode
    exact absurd (hk.symm.trans hmade.start?_eq) (Option.some_ne_none k)
  · have hstart := h.start?_flow
    rw [hflow, hn] at hstart
    exact Option.some.inj (hk.symm.trans hstart)

theorem mem_routesFrom {label : String} {j : Nat} : (label, j) ∈ routesFrom i edges ↔ ⟨i, label, j⟩ ∈ edges := by
  rw [routesFrom, List.mem_map]
  constructor
  · rintro ⟨e, hmem, heq⟩
    obtain ⟨he, hsource⟩ := List.mem_filter.1 hmem
    obtain ⟨rfl, rfl⟩ := Prod.mk.inj heq
    obtain rfl := of_decide_eq_true hsource
    exact he
  · intro he
    exact ⟨_, List.mem_filter.2 ⟨he, decide_eq_true rfl⟩, rfl⟩

/-- Marks make no difference to the numbers of an edge. -/
theorem Numbers.fresh {ids : List String} {declaration : Value} {e : Edge} (h : Numbers ids declaration e) :
    Numbers ids declaration.fresh e := by
  obtain ⟨s, t, hleads, hs, ht⟩ := h.leads
  exact ⟨s, t, (Description.leads_fresh _ _ _ _).2 hleads, hs, ht⟩

/-- Both ends of an edge are declared. -/
theorem Assembles.edge_lt (h : Assembles env d own params nodes edges start c) {f : Edge} (hf : f ∈ edges) :
    f.source < c.ids.length ∧ f.target < c.ids.length := by
  obtain ⟨m, -, hnumbers⟩ := exists_mem_of_forall₂ h.numbers f hf
  obtain ⟨s, t, -, hs, ht⟩ := hnumbers.leads
  exact ⟨(List.getElem?_eq_some_iff.1 hs).1, (List.getElem?_eq_some_iff.1 ht).1⟩

theorem Assembles.length_le (h : Assembles env d own params nodes edges start c) : c.ids.length ≤ c.graph.length := by
  obtain ⟨name, hgraph⟩ := h.graph
  rw [hgraph, List.length_append, length_wired, h.length, h.ids, List.length_map]
  exact Nat.le_add_right _ _

/-- A node of a compiled graph is wired as the edges have it. That is true of the flow too, which no edge leaves. -/
theorem Assembles.wiring_eq (h : Assembles env d own params nodes edges start c) (hn : c.graph[i]? = some n) :
    n.wiring = routesFrom i edges := by
  rcases h.declared_or_flow hn with hnode | ⟨hi, hflow⟩
  · obtain ⟨m, n₀, -, -, -, rfl⟩ := h.node hnode
    rfl
  · obtain ⟨name, hlast⟩ := h.flowNode?
    rw [Compiled.flowNode?, hflow, hn] at hlast
    obtain rfl := Option.some.inj hlast
    have hnone : routesFrom i edges = [] :=
      List.eq_nil_iff_forall_not_mem.2 fun e he =>
        absurd (h.edge_lt (mem_routesFrom.1 he)).1 (Nat.not_lt.2 hi.ge)
    exact hnone.symm

/-- A compiled graph can be drawn. -/
theorem Assembles.linked (h : Assembles env d own params nodes edges start c) : c.graph.Linked := by
  refine ⟨fun n hn e he => ?_, fun n hn => ?_, fun n hn k hk => ?_⟩ <;>
    obtain ⟨i, hi⟩ := List.getElem?_of_mem hn
  · rw [h.wiring_eq hi] at he
    exact Nat.lt_of_lt_of_le (h.edge_lt (mem_routesFrom.1 he)).2 h.length_le
  · rw [h.wiring_eq hi]
    exact nodup_keys_routesFrom h.apart i
  · rw [h.start?_eq hi k hk]
    exact Nat.lt_of_lt_of_le h.start_lt h.length_le

/-- The edges of a compiled graph are the declared ones. -/
theorem Assembles.mem_edgesAt (h : Assembles env d own params nodes edges start c) {e : Nat × String × Nat} :
    e ∈ Diagram.edgesAt c.graph i ↔ e.1 = i ∧ ∃ f ∈ edges, f.numbered = e := by
  rw [Diagram.mem_edgesAt]
  refine and_congr_right ?_
  rintro rfl
  constructor
  · rintro ⟨n, hn, he⟩
    rw [h.wiring_eq hn] at he
    exact ⟨_, mem_routesFrom.1 he, rfl⟩
  · rintro ⟨f, hf, rfl⟩
    have hn := List.getElem?_eq_getElem (Nat.lt_of_lt_of_le (h.edge_lt hf).1 h.length_le)
    refine ⟨_, hn, ?_⟩
    rw [h.wiring_eq hn]
    exact mem_routesFrom.2 hf

/-- All declared edges are drawn with the declared nodes, in whatever order these come. -/
theorem Assembles.edges_perm (h : Assembles env d own params nodes edges start c) {order : List Nat}
    (horder : order.Perm (List.range c.ids.length)) :
    (order.flatMap (Diagram.edgesAt c.graph)).Perm (edges.map Edge.numbered) := by
  have honce : order.Nodup := horder.nodup_iff.2 List.nodup_range
  have hnumbered : (edges.map Edge.numbered).Nodup :=
    List.pairwise_map.2 <| h.apart.imp fun hapart heq =>
      hapart ⟨congrArg Prod.fst heq, congrArg (fun e => e.2.1) heq⟩
  -- the order in which the search comes to edges is not known, so they are compared by membership
  refine (List.perm_ext_iff_of_nodup (Diagram.nodup_edges h.linked honce) hnumbered).2 fun e => ?_
  rw [List.mem_flatMap, List.mem_map]
  constructor
  · rintro ⟨i, -, he⟩
    exact (h.mem_edgesAt.1 he).2
  · rintro ⟨f, hf, rfl⟩
    exact ⟨f.source, horder.mem_iff.2 (List.mem_range.2 (h.edge_lt hf).1), h.mem_edgesAt.2 ⟨rfl, f, hf, rfl⟩⟩

/-- Where edges of a description lead to from its entry, edges of its graph lead to from its start. -/
theorem Assembles.reaches (h : Assembles env d own params nodes edges start c) (hdistinct : c.ids.Nodup)
    {entry id : String} (hentry : d.field "entry" = .str entry)
    (hlinked : Relation.ReflTransGen (Description.Linked d) entry id) :
    ∃ k, c.ids[k]? = some id ∧ c.graph.Reaches (some start) k := by
  induction hlinked with
  | refl =>
    obtain ⟨e, he, hstart⟩ := h.entry
    obtain rfl := Value.str.inj (he.symm.trans hentry)
    exact ⟨start, hstart, .first rfl⟩
  | @tail source target _ hlink ih =>
    -- induction on the way from the entry: its last edge has numbers, and they begin where the way before it ends
    obtain ⟨k, hk, hreach⟩ := ih
    obtain ⟨e, he, label, hleads⟩ := hlink
    obtain ⟨f, hf, hnumbers⟩ := exists_mem_of_forall₂ h.numbers.flip e he
    obtain ⟨s, t, hleads', hs, ht⟩ := hnumbers.leads
    obtain ⟨rfl, rfl, rfl⟩ := hleads.unique hleads'
    obtain rfl := eq_of_ids hdistinct hk hs
    obtain ⟨-, n, hn, hmem⟩ := Diagram.mem_edgesAt.1 (h.mem_edgesAt.2 ⟨rfl, f, hf, rfl⟩)
    have hkeys := h.linked.labels n (List.mem_of_getElem? hn)
    exact ⟨f.target, ht, hreach.next hn (Members.get?_of_mem hkeys hmem)⟩

/-- Nothing else is reached. -/
theorem Assembles.lt_of_reaches (h : Assembles env d own params nodes edges start c) {k : Nat}
    (hreach : c.graph.Reaches (some start) k) : k < c.ids.length := by
  cases hreach with
  | first hstart => exact Option.some.inj hstart ▸ h.start_lt
  | @next i _ n label _ hn hget =>
    have hmem : (i, label, k) ∈ Diagram.edgesAt c.graph i :=
      Diagram.mem_edgesAt.2 ⟨rfl, n, hn, Members.mem_of_get? hget⟩
    obtain ⟨-, f, hf, heq⟩ := h.mem_edgesAt.1 hmem
    have htarget : f.target = k := congrArg (fun e => e.2.2) heq
    exact htarget ▸ (h.edge_lt hf).2

end Compiler

namespace Diagram

open Compiler (Edge Numbers ofEnvironment)

/-! ## 2. The drawing of a description -/

/-- The id under which a description draws the declaration in a place. -/
def placeId (ids : List String) (i : Nat) : String := idOf (ids.getD i "")

/-- The line of a declaration: its id and its kind, in the shape of its kind, under what becomes of its id. -/
def declaredLine (m : Value) : String :=
  "    " ++ idOf (Description.idOf m) ++
    shape (isRouterKind (m.field "kind")) (Description.idOf m ++ "\\n" ++ (m.field "kind").plain)

variable {kinds routers : List String} {d : Value}

theorem nodeLine_of_isNode {m : Value} (h : IsNode kinds routers m) : nodeLine m = .ok (declaredLine m) := by
  have hid : (Members.get? m.members "id").getD (.str "") = .str (Description.idOf m) := by
    have hfield := h.field_id
    rw [Value.field] at hfield
    cases hget : Members.get? m.members "id" with
    | none =>
      rw [hget] at hfield
      cases hfield
    | some v =>
      rw [hget, Option.getD_some] at hfield
      rw [Option.getD_some, hfield]
  rw [nodeLine, (Description.isDict_iff m).2 h.isObject, hid, h.field_id]
  rfl

theorem edgeLine_of_leads {e : Value} {s l t : String} (h : Leads e s l t) :
    edgeLine e = .ok ("    " ++ arrow (idOf s) (idOf t) l) := by
  rw [edgeLine, (Description.isDict_iff e).2 h.isObject, h.source, h.target, h.label]
  rfl

theorem linesOf_of_forall₂ {line : Value → Except Fault String} {xs : List Value} {lines : List String}
    (h : List.Forall₂ (fun x s => line x = .ok s) xs lines) : linesOf line xs = .ok lines := by
  induction h with
  | nil => rfl
  | cons hx _ ih =>
    rw [linesOf, hx, ih]
    rfl

theorem elements_list (cell : Option Addr) (xs : List Value) : elements (.list cell xs) = .ok xs := by
  cases xs <;> rfl

/-- A well-formed description is drawn, with a line for each declaration and an arrow for each edge. -/
theorem ofDescription_ok (h : WellFormed kinds routers d) {arrows : List String}
    (harrows : List.Forall₂ (fun e a => ∃ s l t, Leads e s l t ∧ a = "    " ++ arrow (idOf s) (idOf t) l)
      (edgesOf d) arrows) :
    ofDescription d = .ok (ofLines (header :: (nodesOf d).map declaredLine ++ arrows)) := by
  obtain ⟨cell, ns, hns, -⟩ := h.nodes
  obtain ⟨cell', es, hes, -⟩ := h.edges
  have hnodes : elements (d.field "nodes") = .ok (nodesOf d) := by
    rw [nodesOf, hns, elements_list]
    rfl
  have hedges : elements (d.field "edges") = .ok (edgesOf d) := by
    rw [edgesOf, hes, elements_list]
    rfl
  have hnodeLines : linesOf nodeLine (nodesOf d) = .ok ((nodesOf d).map declaredLine) := by
    refine linesOf_of_forall₂ (List.forall₂_map_right_iff.2 (List.forall₂_same.2 fun m hm => ?_))
    exact nodeLine_of_isNode (h.isNode m hm)
  have hedgeLines : linesOf edgeLine (edgesOf d) = .ok arrows := by
    refine linesOf_of_forall₂ (harrows.imp fun e a => ?_)
    rintro ⟨s, l, t, hleads, rfl⟩
    exact edgeLine_of_leads hleads
  rw [ofDescription, (Description.isDict_iff d).2 h.isObject]
  simp only [hnodes, hnodeLines, hedges, hedgeLines]
  rfl

/-- The arrow of a declared edge is that of its numbers. -/
theorem arrowOf_of_numbers {ids : List String} {m : Value} {e : Edge} (h : Numbers ids m e) :
    ∃ s l t, Leads m s l t ∧ "    " ++ arrowOf (placeId ids) e.numbered = "    " ++ arrow (idOf s) (idOf t) l := by
  obtain ⟨s, t, hleads, hs, ht⟩ := h.leads
  refine ⟨s, e.label, t, hleads, ?_⟩
  rw [arrowOf, Edge.numbered, placeId, placeId, List.getD_eq_getElem?_getD, List.getD_eq_getElem?_getD, hs, ht]
  rfl

/-! ## 3. Both drawings -/

/-- Ids are drawn apart exactly if no two of them are spelled alike. -/
theorem nodup_idOf_iff {ids : List String} (h : ∀ a ∈ ids, a ≠ "") :
    (ids.map idOf).Nodup ↔ ids.Pairwise fun a b => spelling a ≠ spelling b := by
  rw [List.Nodup, List.pairwise_map]
  exact List.Pairwise.iff_of_mem fun ha hb => not_congr (idOf_eq_iff (h _ ha) (h _ hb))

/-- **A description and its compiled graph are drawn as one graph.** Whatever the checker accepts is drawn, with a line
for each declaration and an arrow for each edge, and the nodes of two declarations are one in the drawing exactly if
their ids are spelled alike. The same places and the same numbered edges are drawn, in another order and under other
ids, when the compiled flow is, if every declaration can be reached from the entry. There no two nodes are one, so the
two drawings are the same up to the naming of nodes exactly if no two declared ids are spelled alike. -/
theorem description_drawn_as_compiled {env : Environment} {w : World} (hjson : d.IsJson)
    (haccepted : (ofEnvironment env).problems d = .ok []) (hglobals : env.HasGlobals w.heap) :
    ∃ c w' edges, (ofEnvironment env).compile d w = (.ok c, w') ∧ Faithful d c ∧
      List.Forall₂ (Numbers c.ids) (edgesOf d) edges ∧
      ofDescription d = .ok (ofLines (header :: (nodesOf d).map declaredLine ++
        edges.map fun e => "    " ++ arrowOf (placeId c.ids) e.numbered)) ∧
      (∀ a ∈ c.ids, ∀ b ∈ c.ids, idOf a = idOf b ↔ spelling a = spelling b) ∧
      ((c.ids.map idOf).Nodup ↔ c.ids.Pairwise fun a b => spelling a ≠ spelling b) ∧
      ∀ entry, d.field "entry" = .str entry →
        (∀ id ∈ c.ids, Relation.ReflTransGen (Description.Linked d) entry id) →
        ∃ start order id drawn, c.ids[start]? = some entry ∧ Depicts c.graph (some start) order id drawn ∧
          order.Perm (List.range c.ids.length) ∧
          (order.flatMap (edgesAt c.graph)).Perm (edges.map Edge.numbered) ∧
          ofGraph c.graph c.flow = ofLines (header :: (drawn.nodes ++ drawn.edges).map ("    " ++ ·)) := by
  obtain ⟨d', kept, common, nodes, edges, start, c, hkept, hwell, -, h, hcompile⟩ :=
    Compiler.compile_ok hjson haccepted hglobals
  -- what is compiled is the description in memory, which has marks; what is drawn has none
  have hf : Faithful d c := hkept.fresh ▸ (h.faithful (Compiler.distinct_ids hwell)).fresh
  have hwelld : WellFormed Kind.names Kind.routerNames d := Description.wellFormed_of_accepted haccepted
  have hnumbers : List.Forall₂ (Numbers c.ids) (edgesOf d) edges := by
    rw [← hkept.fresh, Description.edgesOf_fresh, List.forall₂_map_left_iff]
    exact h.numbers.imp fun _ _ hm => hm.fresh
  have hnames : ∀ a ∈ c.ids, a ≠ "" := by
    intro a ha
    rw [hf.ids] at ha
    obtain ⟨m, hm, rfl⟩ := List.mem_map.1 ha
    obtain ⟨s, hs, hne⟩ := (hwelld.isNode m hm).id
    rwa [Description.idOf_eq_of_str hs]
  refine ⟨c, _, edges, hcompile, hf, hnumbers, ?_, fun a ha b hb => idOf_eq_iff (hnames a ha) (hnames b hb),
    nodup_idOf_iff hnames, fun entry hentry hall => ?_⟩
  · refine ofDescription_ok hwelld (List.forall₂_map_right_iff.2 (hnumbers.imp fun m e hm => ?_))
    exact arrowOf_of_numbers hm
  · obtain ⟨ids, drawn, -, -, -, hdepicts, htext⟩ := exists_drawn h.linked h.start?_flow
    have hentry' : d'.field "entry" = .str entry := by
      rw [← hkept.fresh] at hentry
      simpa using hentry
    obtain ⟨e, he, hstart⟩ := h.entry
    obtain rfl := Value.str.inj (he.symm.trans hentry')
    have horder : (named ids).Perm (List.range c.ids.length) := by
      refine (List.perm_ext_iff_of_nodup hdepicts.once List.nodup_range).2 fun k => ?_
      rw [hdepicts.reached, List.mem_range]
      refine ⟨h.lt_of_reaches, fun hk => ?_⟩
      -- the id in this place is reached, and no other place has it
      have hlinked := hall _ (List.getElem_mem hk)
      rw [← hkept.fresh, Description.linked_fresh] at hlinked
      obtain ⟨k', hk', hreach⟩ := h.reaches hf.distinct hentry' hlinked
      rwa [Compiler.eq_of_ids hf.distinct (List.getElem?_eq_getElem hk) hk']
    exact ⟨start, named ids, idIn ids, drawn, hstart, hdepicts, horder, h.edges_perm horder, htext⟩

/-- Two declarations under ids that are spelled apart, and an edge each way. -/
def dashedPair : Value :=
  .ofMembers [("version", .str "pf-js/1.0"), ("entry", .str "a-b"),
    ("nodes", .ofList [.ofMembers [("id", .str "a-b"), ("kind", .str "static-data")],
      .ofMembers [("id", .str "a-c"), ("kind", .str "static-data")]]),
    ("edges", .ofList [.ofMembers [("from", .str "a-b"), ("to", .str "a-c")],
      .ofMembers [("from", .str "a-c"), ("to", .str "a-b")]])]

theorem isJson_dashedPair : dashedPair.IsJson := by
  simp [dashedPair, Value.IsJson.str]

set_option maxRecDepth 10000 in
theorem problems_dashedPair (env : Environment) : (ofEnvironment env).problems dashedPair = .ok [] := by rfl

theorem linked_dashedPair : Description.Linked dashedPair "a-b" "a-c" :=
  ⟨.ofMembers [("from", .str "a-b"), ("to", .str "a-c")], List.mem_cons_self, defaultLabel, ⟨_, _, rfl⟩, rfl, rfl, rfl⟩

/-- Both of them can be reached, so both drawings show both. -/
theorem description_drawn_as_compiled_dashedPair : ∃ c w',
    (ofEnvironment .bare).compile dashedPair .blank = (.ok c, w') ∧ (c.ids.map idOf).Nodup ∧
      ∃ start order id drawn, Depicts c.graph (some start) order id drawn ∧ order.Perm (List.range 2) ∧
        drawn.edges.length = 2 := by
  obtain ⟨c, w', edges, hcompile, hf, hnumbers, -, -, hnodup, hreached⟩ :=
    @description_drawn_as_compiled dashedPair .bare .blank isJson_dashedPair (problems_dashedPair .bare) (Or.inl rfl)
  have hids : c.ids = ["a-b", "a-c"] := hf.ids
  have hall : ∀ id ∈ c.ids, Relation.ReflTransGen (Description.Linked dashedPair) "a-b" id := by
    rw [hids, List.forall_mem_cons, List.forall_mem_singleton]
    exact ⟨.refl, .single linked_dashedPair⟩
  obtain ⟨start, order, id, drawn, -, hdepicts, horder, hedges, -⟩ := hreached "a-b" rfl hall
  refine ⟨c, w', hcompile, hnodup.2 ?_, start, order, id, drawn, hdepicts, by rwa [hids] at horder, ?_⟩
  · rw [hids, List.pairwise_pair]
    decide
  · rw [hdepicts.edges, List.length_map, hedges.length_eq, List.length_map, ← hnumbers.length_eq]
    rfl

/-- Two declarations under ids that are spelled alike, and an edge from the one to the other. -/
def mergedPair : Value :=
  .ofMembers [("version", .str "pf-js/1.0"), ("entry", .str "a-b"),
    ("nodes", .ofList [.ofMembers [("id", .str "a-b"), ("kind", .str "static-data")],
      .ofMembers [("id", .str "a_b"), ("kind", .str "static-data")]]),
    ("edges", .ofList [.ofMembers [("from", .str "a-b"), ("to", .str "a_b")]])]

set_option maxRecDepth 10000 in
/-- They are accepted, but drawn as one node, which is defined twice, and the edge leads from it to itself. -/
theorem merged_in_drawing : Description.problems Kind.names Kind.routerNames mergedPair = .ok [] ∧
    ofDescription mergedPair = .ok ("flowchart TD\n    a_b[\"a-b\\nstatic-data\"]\n" ++
      "    a_b[\"a_b\\nstatic-data\"]\n    a_b --> a_b") :=
  ⟨rfl, rfl⟩

end Diagram

end NodeFlow
