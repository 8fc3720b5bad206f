import Mathlib.Algebra.BigOperators.Group.Finset.Piecewise
import Mathlib.Algebra.Ring.Nat
import NodeFlow.Compile.Compiler
import NodeFlow.Proofs.Description.Marks
/-!
# Assembling a graph

From a well-formed description to a graph, step by step: a policy, a node, all nodes, an edge, all
edges, the wiring. Each step has a lemma that says that it does not fail and what it results in; a
demand on the description answers each way in which it could fail.

Wiring is a fold over edges. No two edges take one route, so each of them is put behind the ones before,
and none is wired over.
-/

set_option autoImplicit false

namespace NodeFlow

open Description

namespace Compiler

/-! ## 1. Policies -/

/-- A setting of retries is the one that is given, or else its default. -/
theorem fieldOr_of {C : Value → Prop} {retry other : Value} {key : String}
    (h : Optionally IsRetry retry) (hother : C other)
    (hgiven : IsRetry retry → ∀ x, Members.get? retry.members key = some x → C x) :
    C (fieldOr retry key other) := by
  rw [fieldOr]
  rcases h with rfl | h
  · exact hother
  · cases hget : Members.get? retry.members key with
    | none => exact hother
    | some x => exact hgiven h x hget

/-- Retries that are well-formed make a policy. -/
theorem policyOf_ok {node : Value} (h : Optionally IsRetry (node.field "retry")) :
    ∃ policy, policyOf node = .ok policy := by
  have hmax : ∃ n : Int, fieldOr (node.field "retry") "max" (.int 1) = .int n ∧ 1 ≤ n := by
    refine fieldOr_of (C := fun x => ∃ n : Int, x = .int n ∧ 1 ≤ n) h ?_ ?_
    · exact ⟨1, rfl, Int.le_refl 1⟩
    · intro hretry x hx
      exact hretry.max x hx
  have hwait : Value.ordered .lt (fieldOr (node.field "retry") "wait" (.int 0)) (.int 0) =
      .ok false := by
    refine fieldOr_of (C := fun x => Value.ordered .lt x (.int 0) = .ok false) h ?_ ?_
    · exact ordered_lt_int 0 0
    · intro hretry x hx
      exact (hretry.wait x hx).2
  have hbackoff : ∃ b, Backoff.ofValue? (fieldOr (node.field "retry") "backoff"
      (.str Backoff.fixed.name)) = some b := by
    refine fieldOr_of (C := fun x => ∃ b, Backoff.ofValue? x = some b) h ?_ ?_
    · exact ⟨.fixed, by decide⟩
    · intro hretry x hx
      rcases hretry.backoff x hx with rfl | rfl
      · exact ⟨.fixed, by decide⟩
      · exact ⟨.exponential, by decide⟩
  obtain ⟨n, hn, hle⟩ := hmax
  obtain ⟨b, hb⟩ := hbackoff
  rw [policyOf, RetryPolicy.make, hn, ordered_lt_int, decide_eq_false (Int.not_lt.2 hle), hwait, hb]
  exact ⟨_, rfl⟩

/-! ## 2. Nodes -/

/-- A node is what a compiler makes of a declaration of a built-in kind, under a number. -/
def Makes (env : Environment) (own : Addr) (number : Nat) (declaration : Value) (n : Node) : Prop :=
  ∃ name kind policy, declaration.field "kind" = .str name ∧ Kind.ofName? name = some kind ∧
    policyOf declaration = .ok policy ∧
    n = (ofEnvironment env).nodeOf (Make.ofKind env.modelWaits kind) policy own number
      (idOf declaration) declaration

/-- Nodes are made without edges. -/
theorem Makes.wiring {env : Environment} {own : Addr} {number : Nat} {declaration : Value} {n : Node}
    (h : Makes env own number declaration n) : n.wiring = [] := by
  obtain ⟨name, kind, policy, -, -, -, rfl⟩ := h
  rfl

theorem mem_kindNames {name : String} (h : name ∈ Kind.names) :
    ∃ kind, Kind.ofName? name = some kind := by
  rw [Kind.names, List.mem_map] at h
  obtain ⟨⟨key, kind⟩, hmem, rfl⟩ := h
  rw [← Option.isSome_iff_exists, Kind.ofName?, List.lookup_isSome_iff]
  exact ⟨_, hmem, beq_self_eq_true _⟩

theorem get?_builtins (name : String) :
    Members.get? builtins name = (Kind.ofName? name).map Factory.kind :=
  Members.get?_map Factory.kind Kind.named name

/-- Every well-formed declaration makes a node. -/
theorem node_ok (env : Environment) {declaration : Value}
    (h : IsNode Kind.names Kind.routerNames declaration) (own : Addr) (number : Nat) :
    ∃ n, (ofEnvironment env).node own number declaration = .ok n ∧
      Makes env own number declaration n := by
  obtain ⟨name, hname, hfield⟩ := h.kind
  obtain ⟨kind, hkind⟩ := mem_kindNames hname
  obtain ⟨policy, hpolicy⟩ := policyOf_ok h.retry
  have hfactory : ∀ id : String, (ofEnvironment env).factoryOf id (.str name) =
      .ok (name, .kind kind) := by
    intro id
    rw [factoryOf, ofEnvironment, get?_builtins, hkind]
    rfl
  have hid : (declaration.field "id").plain = idOf declaration := by
    rw [h.field_id]
    rfl
  refine ⟨_, ?_, name, kind, policy, hfield, hkind, hpolicy, rfl⟩
  rw [node, hfield, hfactory, hpolicy, hid]
  rfl

theorem exists_of_makeNodes_cons {c : Compiler} {own : Addr} {number : Nat} {declaration : Value}
    {rest : List Value} {nodes : List Node}
    (h : c.makeNodes own number (declaration :: rest) = .ok nodes) :
    ∃ first more, c.node own number declaration = .ok first ∧
      c.makeNodes own (number + 1) rest = .ok more ∧ nodes = first :: more := by
  rw [makeNodes] at h
  cases hfirst : c.node own number declaration with
  | error e =>
    rw [hfirst] at h
    cases h
  | ok first =>
    rw [hfirst] at h
    cases hmore : c.makeNodes own (number + 1) rest with
    | error e =>
      rw [hmore] at h
      cases h
    | ok more =>
      rw [hmore] at h
      exact ⟨first, more, rfl, rfl, (Except.ok.inj h).symm⟩

/-- So all of them do, numbered in their order. -/
theorem makeNodes_ok (env : Environment) {declarations : List Value}
    (h : ∀ d ∈ declarations, IsNode Kind.names Kind.routerNames d) (own : Addr) (number : Nat) :
    ∃ nodes, (ofEnvironment env).makeNodes own number declarations = .ok nodes ∧
      nodes.length = declarations.length ∧
      ∀ i n, nodes[i]? = some n →
        ∃ d, declarations[i]? = some d ∧ Makes env own (number + i) d n := by
  induction declarations generalizing number with
  | nil => exact ⟨[], rfl, rfl, fun i n hn => by rw [List.getElem?_nil] at hn; cases hn⟩
  | cons declaration rest ih =>
    rw [List.forall_mem_cons] at h
    obtain ⟨first, hfirst, hmade⟩ := node_ok env h.1 own number
    obtain ⟨nodes, hnodes, hlength, hall⟩ := ih h.2 (number + 1)
    refine ⟨first :: nodes, ?_, by rw [List.length_cons, hlength, List.length_cons], ?_⟩
    · rw [makeNodes, hfirst, hnodes]
      rfl
    · intro i n hn
      cases i with
      | zero =>
        rw [List.getElem?_cons_zero, Option.some.injEq] at hn
        exact ⟨declaration, rfl, hn ▸ hmade⟩
      | succ i =>
        rw [List.getElem?_cons_succ] at hn ⊢
        -- the numbers of the rest begin one later
        obtain ⟨d, hd, hmakes⟩ := hall i n hn
        rw [Nat.add_assoc, Nat.add_comm 1 i] at hmakes
        exact ⟨d, hd, hmakes⟩

/-! ## 3. Edges -/

theorem numberOf_ok {ids : List String} {id : String} (h : id ∈ ids) :
    ∃ i, numberOf ids (.str id) = .ok i ∧ ids[i]? = some id := by
  have hsome : (ids.idxOf? id).isSome := List.isSome_idxOf?.2 h
  obtain ⟨i, hi⟩ := Option.isSome_iff_exists.1 hsome
  obtain ⟨hlt, hget, -⟩ := List.idxOf?_eq_some_iff.1 hi
  refine ⟨i, by rw [numberOf, Value.plain, hi], ?_⟩
  rw [List.getElem?_eq_getElem hlt, hget]

/-- A numbered edge is that of a declared one. -/
structure Numbers (ids : List String) (declaration : Value) (e : Edge) : Prop where
  leads : ∃ source target, Leads declaration source e.label target ∧
    ids[e.source]? = some source ∧ ids[e.target]? = some target

theorem edge_ok {ids : List String} {declaration : Value} {source label target : String}
    (h : Leads declaration source label target) (hs : source ∈ ids) (ht : target ∈ ids) :
    ∃ e, edge ids declaration = .ok e ∧ Numbers ids declaration e := by
  obtain ⟨i, hi, hsource⟩ := numberOf_ok hs
  obtain ⟨j, hj, htarget⟩ := numberOf_ok ht
  refine ⟨⟨i, label, j⟩, ?_, ⟨source, target, h, hsource, htarget⟩⟩
  rw [edge, h.source, h.target, hi, hj, h.label]
  rfl

theorem edges_ok {ids : List String} {declarations : List Value}
    (h : ∀ d ∈ declarations, ∃ e, edge ids d = .ok e ∧ Numbers ids d e) :
    ∃ es, declarations.mapM (edge ids) = .ok es ∧ List.Forall₂ (Numbers ids) declarations es := by
  induction declarations with
  | nil => exact ⟨[], rfl, .nil⟩
  | cons d rest ih =>
    rw [List.forall_mem_cons] at h
    obtain ⟨e, he, hnumbers⟩ := h.1
    obtain ⟨es, hes, hall⟩ := ih h.2
    refine ⟨e :: es, ?_, .cons hnumbers hall⟩
    rw [List.mapM_cons, he, hes]
    rfl

/-! ## 4. Wiring -/

/-- What edges wire at a node, in their order. -/
def routesFrom (i : Nat) (es : List Edge) : Members Nat :=
  (es.filter fun e => e.source = i).map fun e => (e.label, e.target)

/-- Nodes with edges wired behind those that are there. -/
def wired (es : List Edge) (g : Graph) : Graph :=
  g.mapIdx fun i n => { n with wiring := n.wiring ++ routesFrom i es }

/-- Two edges do not take one route. -/
def Apart (e f : Edge) : Prop := ¬ (e.source = f.source ∧ e.label = f.label)

theorem put_of_not_has {α : Type} {ms : Members α} {key : String}
    (h : Members.has ms key = false) (a : α) : Members.put key a ms = ms ++ [(key, a)] := by
  induction ms with
  | nil => rfl
  | cons m ms ih =>
    rw [Members.has, List.any_cons, Bool.or_eq_false_iff, decide_eq_false_iff_not] at h
    rw [Members.put, if_neg h.1, ih h.2, List.cons_append]

/-- An edge that takes a free route is put behind the others of its source, without a diagnostic. -/
theorem link_eq {g : Graph} {e : Edge} (hrange : e.source < g.length)
    (hfree : ∀ n, g[e.source]? = some n → Members.has n.wiring e.label = false) :
    g.link e.source e.label e.target = (wired [e] g, []) := by
  have hget := List.getElem?_eq_getElem hrange
  rw [Graph.link, hget]
  simp only [hfree _ hget, Bool.false_eq_true, if_false, Prod.mk.injEq, and_true]
  refine List.ext_getElem? ?_
  intro i
  rw [Graph.modifyNode, List.getElem?_modify, wired, List.getElem?_mapIdx]
  by_cases hi : e.source = i
  · subst hi
    rw [hget]
    simp [routesFrom, put_of_not_has (hfree _ hget)]
  · cases g[i]? <;> simp [routesFrom, hi]

theorem wired_cons (e : Edge) (es : List Edge) (g : Graph) :
    wired es (wired [e] g) = wired (e :: es) g := by
  simp only [wired, List.mapIdx_mapIdx]
  congr 1
  funext i n
  by_cases hi : e.source = i <;> simp [routesFrom, hi]

/-- Edges that take free routes, no two of them one, are wired one behind the other. -/
theorem wireAll_eq {es : List Edge} {g : Graph} (hrange : ∀ e ∈ es, e.source < g.length)
    (hfree : ∀ e ∈ es, ∀ n, g[e.source]? = some n → Members.has n.wiring e.label = false)
    (hapart : es.Pairwise Apart) : wireAll es g = (wired es g, []) := by
  induction es generalizing g with
  | nil =>
    have hnil : wired [] g = g := by
      refine List.ext_getElem? ?_
      intro i
      rw [wired, List.getElem?_mapIdx]
      cases g[i]? <;> simp [routesFrom]
    rw [wireAll, hnil]
  | cons e rest ih =>
    rw [List.forall_mem_cons] at hrange hfree
    rw [List.pairwise_cons] at hapart
    rw [wireAll, link_eq hrange.1 hfree.1]
    have hrest : wireAll rest (wired [e] g) = (wired rest (wired [e] g), []) := by
      refine ih (fun f hf => ?_) (fun f hf n hn => ?_) hapart.2
      · rw [wired, List.length_mapIdx]
        exact hrange.2 f hf
      · -- the first edge has taken a route, but not that of an edge behind it
        rw [wired, List.getElem?_mapIdx, Option.map_eq_some_iff] at hn
        obtain ⟨m, hm, rfl⟩ := hn
        have hold := hfree.2 f hf m hm
        rw [Members.has] at hold ⊢
        rw [List.any_append, hold, Bool.false_or]
        by_cases hsource : e.source = f.source
        · have hlabel : e.label ≠ f.label := fun hl => hapart.1 f hf ⟨hsource, hl⟩
          simp [routesFrom, hsource, hlabel]
        · simp [routesFrom, hsource]
    rw [hrest, wired_cons]
    rfl

/-- A route leads where its edge does. -/
theorem get?_routesFrom {es : List Edge} (hapart : es.Pairwise Apart) (i : Nat) (label : String)
    (j : Nat) : Members.get? (routesFrom i es) label = some j ↔ ⟨i, label, j⟩ ∈ es := by
  induction es with
  | nil => simp [routesFrom, Members.get?]
  | cons e rest ih =>
    rw [List.pairwise_cons] at hapart
    rw [List.mem_cons, ← ih hapart.2, routesFrom, List.filter_cons]
    by_cases hi : e.source = i
    · rw [if_pos (by simpa using hi), List.map_cons, Members.get?, List.lookup_cons]
      by_cases hl : label = e.label
      · -- no other edge of the source has the label
        have hnone : Members.get? (routesFrom i rest) label ≠ some j := fun hj =>
          hapart.1 _ ((ih hapart.2).1 hj) ⟨hi, hl.symm⟩
        subst hi hl
        rw [beq_self_eq_true]
        constructor
        · intro hj
          exact Or.inl (by rw [← Option.some.inj hj])
        · rintro (heq | hj)
          · rw [← heq]
          · exact absurd hj hnone
      · rw [beq_eq_false_iff_ne.2 hl]
        refine ⟨Or.inr, fun hj => hj.resolve_left fun heq => hl ?_⟩
        rw [← heq]
    · rw [if_neg (by simpa using hi)]
      refine ⟨Or.inr, fun hj => hj.resolve_left fun heq => hi ?_⟩
      rw [← heq]

/-- Every edge is a route from one of the nodes. -/
theorem sum_length_routesFrom {es : List Edge} {n : Nat} (h : ∀ e ∈ es, e.source < n) :
    ∑ i ∈ Finset.range n, (routesFrom i es).length = es.length := by
  induction es with
  | nil => simp [routesFrom]
  | cons e rest ih =>
    rw [List.forall_mem_cons] at h
    have hlength : ∀ i, (routesFrom i (e :: rest)).length =
        (if e.source = i then 1 else 0) + (routesFrom i rest).length := by
      intro i
      by_cases hi : e.source = i <;> simp [routesFrom, hi, Nat.add_comm]
    simp only [hlength]
    rw [Finset.sum_add_distrib, Finset.sum_ite_eq, if_pos (Finset.mem_range.2 h.1), ih h.2,
      List.length_cons, Nat.add_comm]

/-! ## 5. The whole -/

/-- A graph is assembled from nodes and numbered edges, and starts at a node. -/
structure Assembles (env : Environment) (d : Value) (own params : Addr) (nodes : List Node)
    (edges : List Edge) (start : Nat) (c : Compiled) : Prop where
  ids : c.ids = (nodesOf d).map idOf
  flow : c.flow = nodes.length
  length : nodes.length = (nodesOf d).length
  makes : ∀ i n, nodes[i]? = some n → ∃ m, (nodesOf d)[i]? = some m ∧ Makes env own i m n
  numbers : List.Forall₂ (Numbers c.ids) (edgesOf d) edges
  apart : edges.Pairwise Apart
  entry : ∃ e, d.field "entry" = .str e ∧ c.ids[start]? = some e
  graph : ∃ name, c.graph =
    wired edges nodes ++ [flowNode (nodes.any Node.isCooperative) name start params]

theorem Numbers.source_lt {ids : List String} {declaration : Value} {e : Edge}
    (h : Numbers ids declaration e) : e.source < ids.length := by
  obtain ⟨s, t, -, hs, -⟩ := h.leads
  exact (List.getElem?_eq_some_iff.1 hs).1

theorem exists_mem_of_forall₂ {α β : Type} {r : α → β → Prop} {xs : List α} {ys : List β}
    (h : List.Forall₂ r xs ys) : ∀ y ∈ ys, ∃ x ∈ xs, r x y := by
  induction h with
  | nil => exact fun y hy => absurd hy List.not_mem_nil
  | @cons x y xs ys hr _ ih =>
    rw [List.forall_mem_cons]
    refine ⟨⟨x, List.mem_cons_self, hr⟩, fun z hz => ?_⟩
    obtain ⟨w, hw, hwz⟩ := ih z hz
    exact ⟨w, List.mem_cons_of_mem _ hw, hwz⟩

/-- Edges that do not compete take different routes. -/
theorem apart_of_numbers {ids : List String} {declarations : List Value} {es : List Edge}
    (hnumbers : List.Forall₂ (Numbers ids) declarations es)
    (hpair : declarations.Pairwise fun e f => ¬ Compete e f) : es.Pairwise Apart := by
  induction hnumbers with
  | nil => exact .nil
  | @cons d e rest es hd hrest ih =>
    rw [List.pairwise_cons] at hpair ⊢
    refine ⟨fun f hf => ?_, ih hpair.2⟩
    rintro ⟨hsource, hlabel⟩
    obtain ⟨d', hmem, hd'⟩ := exists_mem_of_forall₂ hrest f hf
    obtain ⟨s, t, hlead, hs, -⟩ := hd.leads
    obtain ⟨s', t', hlead', hs', -⟩ := hd'.leads
    rw [hsource, hs', Option.some.injEq] at hs
    subst hs
    exact hpair.1 d' hmem ⟨s', e.label, t, t', hlead, hlabel ▸ hlead'⟩

/-- The edges of a well-formed description are those of nodes by their numbers, whatever the nodes do. -/
theorem routes_ok {d : Value} (h : WellFormed Kind.names Kind.routerNames d) :
    ∃ edges start, routesOf ((nodesOf d).map idOf) d = .ok (edges, start) ∧
      List.Forall₂ (Numbers ((nodesOf d).map idOf)) (edgesOf d) edges ∧ edges.Pairwise Apart ∧
      ∃ e, d.field "entry" = .str e ∧ ((nodesOf d).map idOf)[start]? = some e := by
  have hdeclared : ∀ {id node}, Declares d id node → id ∈ (nodesOf d).map idOf := by
    intro id node hd
    exact List.mem_map.2 ⟨node, hd.1, idOf_eq_of_str hd.2⟩
  obtain ⟨edges, hedges, hnumbers⟩ : ∃ es,
      (edgesOf d).mapM (edge ((nodesOf d).map idOf)) = .ok es ∧
      List.Forall₂ (Numbers ((nodesOf d).map idOf)) (edgesOf d) es := by
    refine edges_ok ?_
    intro e he
    obtain ⟨s, l, t, node, hlead, hs, -, other, ht⟩ := h.isEdge e he
    exact edge_ok hlead (hdeclared hs) (hdeclared ht)
  obtain ⟨e, node, he, hentry⟩ := h.entry
  obtain ⟨start, hstart, hget⟩ := numberOf_ok (hdeclared hentry)
  refine ⟨edges, start, ?_, hnumbers, apart_of_numbers hnumbers h.unambiguous, e, he, hget⟩
  rw [routesOf, ← edgesOf, hedges, he, hstart]
  rfl

/-- With its routes a well-formed description is assembled, without a failure and without a diagnostic. -/
theorem assemble_of_routes (env : Environment) {d : Value}
    (h : WellFormed Kind.names Kind.routerNames d) (own params : Addr) {edges : List Edge} {start : Nat}
    (hroutes : routesOf ((nodesOf d).map idOf) d = .ok (edges, start))
    (hnumbers : List.Forall₂ (Numbers ((nodesOf d).map idOf)) (edgesOf d) edges)
    (hapart : edges.Pairwise Apart)
    (hentry : ∃ e, d.field "entry" = .str e ∧ ((nodesOf d).map idOf)[start]? = some e) :
    ∃ nodes c, (ofEnvironment env).makeNodes own 0 (nodesOf d) = .ok nodes ∧
      (ofEnvironment env).assemble d own params = .ok (c, []) ∧
      Assembles env d own params nodes edges start c := by
  have hids : ((nodesOf d).map fun m => (m.field "id").plain) = (nodesOf d).map idOf := by
    refine List.map_congr_left ?_
    intro m hm
    rw [(h.isNode m hm).field_id]
    rfl
  obtain ⟨nodes, hnodes, hlength, hmakes⟩ := makeNodes_ok env h.isNode own 0
  -- every node is made without edges, so the first edge of each route finds it free
  have hwire : wireAll edges nodes = (wired edges nodes, []) := by
    refine wireAll_eq (fun f hf => ?_) (fun f hf n hn => ?_) hapart
    · obtain ⟨x, -, hx⟩ := exists_mem_of_forall₂ hnumbers f hf
      rw [hlength]
      exact lt_of_lt_of_eq hx.source_lt (List.length_map ..)
    · obtain ⟨m, -, hmade⟩ := hmakes _ n hn
      rw [hmade.wiring]
      rfl
  let name := (d.field "name").orElse (d.field "entry")
  let flow := flowNode (nodes.any Node.isCooperative) name.plain start params
  refine ⟨nodes, ⟨wired edges nodes ++ [flow], (nodesOf d).map idOf, nodes.length, name⟩, hnodes,
    ?_, rfl, rfl, hlength, ?_, hnumbers, hapart, hentry, _, rfl⟩
  · rw [assemble, ← nodesOf, hids, hnodes]
    simp only [bind, Except.bind, hroutes, hwire]
    rfl
  · intro i n hn
    obtain ⟨m, hm, hmade⟩ := hmakes i n hn
    rw [Nat.zero_add] at hmade
    exact ⟨m, hm, hmade⟩

/-- A well-formed description is assembled, without a failure and without a diagnostic. -/
theorem assemble_ok (env : Environment) {d : Value}
    (h : WellFormed Kind.names Kind.routerNames d) (own params : Addr) :
    ∃ nodes edges start c, (ofEnvironment env).assemble d own params = .ok (c, []) ∧
      Assembles env d own params nodes edges start c := by
  obtain ⟨edges, start, hroutes, hnumbers, hapart, hentry⟩ := routes_ok h
  obtain ⟨nodes, c, -, hassemble, hc⟩ :=
    assemble_of_routes env h own params hroutes hnumbers hapart hentry
  exact ⟨nodes, edges, start, c, hassemble, hc⟩

end Compiler

end NodeFlow
