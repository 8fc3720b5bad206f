import NodeFlow.Proofs.Compile.Total
/-!
# Runs follow declared edges

What a listener is told of a run, call by call, is a trail: each call follows from the one before. After
a visit comes the target of the declared edge under its label, and if there is none the run ends there.

The awkward thing up front: a declared edge under the wildcard is wired like any other, and the walk takes
it for every label without an edge of its own, the exit of a loop guard included. So there are two accounts
of where a visit leads, with the wildcard and without, and they part exactly where a visit strays.
-/

set_option autoImplicit false

namespace NodeFlow

/-! ## 1. Where a visit leads -/

namespace Description

/-- An edge leads from a node to a target under the label that a visit shows; what counts as false is the
default label. -/
def RoutesTo (d : Value) (node : String) (shown : Value) (target : String) : Prop :=
  ∃ l, shown.orElse (.str defaultLabel) = .str l ∧ ∃ e ∈ edgesOf d, Leads e node l target

/-- Such an edge leads to a target, or there is none and one under the wildcard does. -/
def Continues (d : Value) (node : String) (shown : Value) (target : String) : Prop :=
  RoutesTo d node shown target ∨
    (∀ t, ¬ RoutesTo d node shown t) ∧ RoutesTo d node (.str wildcardLabel) target

/-- A visit strays if no edge has its label but one has the wildcard. -/
def Strays (d : Value) (node : String) (shown : Value) : Prop :=
  (∀ t, ¬ RoutesTo d node shown t) ∧ ∃ t, RoutesTo d node (.str wildcardLabel) t

variable {d : Value} {node : String} {shown : Value}

theorem continues_iff_routesTo (h : ¬ Strays d node shown) (target : String) :
    Continues d node shown target ↔ RoutesTo d node shown target := by
  refine ⟨fun hc => hc.resolve_right fun hw => ?_, Or.inl⟩
  exact h ⟨hw.1, target, hw.2⟩

end Description

open Description

/-! ## 2. Trails -/

/-- What may be told after what, given where visits lead and the node where runs enter. -/
inductive Ensues (R : String → Value → String → Prop) (entry : String) :
    Option HookCall → HookCall → Prop
  | enters : Ensues R entry none (.nodeStart entry)
  | ends {n : String} {shown context : Value} :
    Ensues R entry (some (.nodeStart n)) (.nodeEnd n shown context)
  | fails {n : String} {e : Failure} : Ensues R entry (some (.nodeStart n)) (.nodeError n e)
  | follows {n : String} {shown context : Value} {t : String} : R n shown t →
    Ensues R entry (some (.nodeEnd n shown context)) (.nodeStart t)
  | stops {n : String} {shown context : Value} {steps : Nat} : (∀ t, ¬ R n shown t) →
    Ensues R entry (some (.nodeEnd n shown context)) (.flowEnd steps)

/-- What is told of one run, newest first: every call follows from the one before. -/
def Trail (R : String → Value → String → Prop) (entry : String) : List HookCall → Prop
  | [] => True
  | call :: calls => Ensues R entry calls.head? call ∧ Trail R entry calls

/-- How a run with a trail comes to its end, under a limit. -/
inductive Outcome (R : String → Value → String → Prop) (entry : String) (limit : Value) :
    Except Failure Datum → List HookCall → Prop
  /-- with the label of its last visit -/
  | ended {x : Datum} {n : String} {h : Heap} {context : Value} {steps : Nat} {calls : List HookCall} :
    Outcome R entry limit (.ok x) (.flowEnd steps :: .nodeEnd n (h.view x) context :: calls)
  /-- with the failure of its last visit -/
  | failed {e : Failure} {n : String} {calls : List HookCall} :
    Outcome R entry limit (.error e) (.nodeError n e :: calls)
  /-- before a visit, at its limit -/
  | limited {e : Failure} {t : String} {calls : List HookCall} : limit ≠ .null →
    Ensues R entry calls.head? (.nodeStart t) → Outcome R entry limit (.error e) calls
  /-- after a visit with a label that is none -/
  | lost {f : Fault} {n : String} {shown context : Value} {calls : List HookCall} :
    (shown.orElse (.str defaultLabel)).isHashable = false →
    Outcome R entry limit (.error (.fault f)) (.nodeEnd n shown context :: calls)
  /-- at the bound on its work -/
  | exhausted {calls : List HookCall} : Outcome R entry limit (.error .exhausted) calls

/-- Where a visit does not stray both accounts say the same of what follows it. -/
theorem ensues_iff_of_not_strays {d : Value} {entry : String} {last : Option HookCall} {call : HookCall}
    (h : ∀ n shown context, last = some (.nodeEnd n shown context) → ¬ Strays d n shown) :
    Ensues (Continues d) entry last call ↔ Ensues (RoutesTo d) entry last call := by
  constructor
  · rintro (_ | _ | _ | hcontinues | hnone)
    · exact .enters
    · exact .ends
    · exact .fails
    · exact .follows ((continues_iff_routesTo (h _ _ _ rfl) _).1 hcontinues)
    · exact .stops fun t ht => hnone t (Or.inl ht)
  · rintro (_ | _ | _ | hroutes | hnone)
    · exact .enters
    · exact .ends
    · exact .fails
    · exact .follows (Or.inl hroutes)
    · exact .stops fun t ht => hnone t ((continues_iff_routesTo (h _ _ _ rfl) t).1 ht)

/-- And if both allow what follows a visit, it does not stray. -/
theorem not_strays_of_ensues {d : Value} {entry n : String} {shown context : Value} {call : HookCall}
    (hc : Ensues (Continues d) entry (some (.nodeEnd n shown context)) call)
    (hr : Ensues (RoutesTo d) entry (some (.nodeEnd n shown context)) call) : ¬ Strays d n shown := by
  rintro ⟨hnone, t, ht⟩
  cases hr with
  | follows hroutes => exact hnone _ hroutes
  | stops _ =>
    cases hc with
    | stops hstops => exact hstops t (Or.inr ⟨hnone, ht⟩)

/-- A trail keeps to the exact labels if and only if no visit that something follows strays: induction on
the trail. -/
theorem Trail.routesTo_iff {d : Value} {entry : String} {calls : List HookCall}
    (h : Trail (Continues d) entry calls) : Trail (RoutesTo d) entry calls ↔
      ∀ n shown context, .nodeEnd n shown context ∈ calls.tail → ¬ Strays d n shown := by
  induction calls with
  | nil => exact ⟨fun _ _ _ _ hmem => absurd hmem List.not_mem_nil, fun _ => trivial⟩
  | cons call calls ih =>
    have hrest := ih h.2
    rw [List.tail_cons]
    constructor
    · rintro ⟨hensues, htrail⟩ n shown context hmem
      cases calls with
      | nil => exact absurd hmem List.not_mem_nil
      | cons last calls =>
        -- the visit is the one right before this call, or an earlier one
        rcases List.mem_cons.1 hmem with rfl | hmem
        · exact not_strays_of_ensues h.1 hensues
        · exact hrest.1 htrail n shown context hmem
    · intro hstrays
      refine ⟨(ensues_iff_of_not_strays fun n shown context hlast => ?_).1 h.1, hrest.2 ?_⟩
      · exact hstrays n shown context (List.mem_of_mem_head? hlast)
      · intro n shown context hmem
        exact hstrays n shown context (List.mem_of_mem_tail hmem)

/-! ## 3. Where a compiled node leads -/

section

variable {d : Value} {c : Compiled}

/-- Under its own label a visit leads to the number of the node that a declared edge leads to. -/
theorem Faithful.own_iff (h : Faithful d c) {i : Nat} {n : Node} (hn : c.nodes[i]? = some n)
    (shown : Value) (j : Nat) :
    (match shown.orElse (.str defaultLabel) with
      | .str l => Members.get? n.wiring l
      | _ => none) = some j ↔ ∃ t, RoutesTo d n.name shown t ∧ c.ids[j]? = some t := by
  cases hkey : shown.orElse (.str defaultLabel) with
  | str l =>
    dsimp only
    rw [h.wiring i n hn]
    constructor
    · rintro ⟨e, he, t, hlead, hj⟩
      exact ⟨t, ⟨l, hkey, e, he, hlead⟩, hj⟩
    · rintro ⟨t, ⟨l', hl', e, he, hlead⟩, hj⟩
      obtain rfl := Value.str.inj (hkey.symm.trans hl')
      exact ⟨e, he, t, hlead, hj⟩
  | _ =>
    refine ⟨nofun, ?_⟩
    rintro ⟨t, ⟨l, hl, -⟩, -⟩
    exact nomatch hkey.symm.trans hl

theorem Faithful.wildcard_iff (h : Faithful d c) {i : Nat} {n : Node} (hn : c.nodes[i]? = some n)
    (j : Nat) : Members.get? n.wiring wildcardLabel = some j ↔
      ∃ t, RoutesTo d n.name (.str wildcardLabel) t ∧ c.ids[j]? = some t :=
  h.own_iff hn (.str wildcardLabel) j

/-- What an edge of an accepted description leads to is a declared node. -/
theorem Faithful.exists_number (h : Faithful d c) {kinds routers : List String}
    (hwell : WellFormed kinds routers d) {node : String} {shown : Value} {t : String}
    (ht : RoutesTo d node shown t) : ∃ j : Nat, c.ids[j]? = some t := by
  obtain ⟨l, -, e, he, hlead⟩ := ht
  obtain ⟨s, l', t', m, hlead', -, -, other, hother⟩ := hwell.isEdge e he
  obtain ⟨-, -, rfl⟩ := hlead.unique hlead'
  refine List.mem_iff_getElem?.1 ?_
  rw [h.ids]
  exact List.mem_map.2 ⟨other, hother.1, idOf_eq_of_str hother.2⟩

theorem Faithful.eq_none_iff (h : Faithful d c) {kinds routers : List String}
    (hwell : WellFormed kinds routers d) {node : String} {shown : Value} {o : Option Nat}
    (ho : ∀ j, o = some j ↔ ∃ t, RoutesTo d node shown t ∧ c.ids[j]? = some t) :
    o = none ↔ ∀ t, ¬ RoutesTo d node shown t := by
  constructor
  · intro hnone t ht
    obtain ⟨j, hj⟩ := h.exists_number hwell ht
    have := (ho j).2 ⟨t, ht, hj⟩
    rw [hnone] at this
    cases this
  · intro hnone
    cases o with
    | none => rfl
    | some j =>
      obtain ⟨t, ht, -⟩ := (ho j).1 rfl
      exact absurd ht (hnone t)

/-- The node that follows a compiled node is where the visit continues. -/
theorem Faithful.next?_eq (h : Faithful d c) {kinds routers : List String}
    (hwell : WellFormed kinds routers d) {i : Nat} {n : Node} (hn : c.nodes[i]? = some n)
    {shown : Value} {o : Option Nat} (hnext : n.next? shown = .ok o) :
    (∀ j, o = some j → ∃ t, Continues d n.name shown t ∧ c.ids[j]? = some t) ∧
      (o = none → ∀ t, ¬ Continues d n.name shown t) := by
  have hown := h.own_iff hn shown
  have hwild := h.wildcard_iff hn
  rw [Node.next?] at hnext
  dsimp only at hnext
  split at hnext
  · cases hnext
  · have hnext := Except.ok.inj hnext
    rw [Option.orElse_eq_orElse, Option.orElse_eq_or] at hnext
    constructor
    · rintro j rfl
      rcases Option.or_eq_some_iff.1 hnext with hj | ⟨hnone, hj⟩
      · obtain ⟨t, ht, hid⟩ := (hown j).1 hj
        exact ⟨t, Or.inl ht, hid⟩
      · obtain ⟨t, ht, hid⟩ := (hwild j).1 hj
        exact ⟨t, Or.inr ⟨(h.eq_none_iff hwell hown).1 hnone, ht⟩, hid⟩
    · rintro rfl t ht
      obtain ⟨hnone, hwnone⟩ := Option.or_eq_none_iff.1 hnext
      rcases ht with ht | ⟨-, ht⟩
      · exact (h.eq_none_iff hwell hown).1 hnone t ht
      · exact (h.eq_none_iff hwell hwild).1 hwnone t ht

end

/-- Only a label that cannot be looked up is a fault. -/
theorem Node.isHashable_of_next? {n : Node} {shown : Value} {f : Fault}
    (h : n.next? shown = .error f) : (shown.orElse (.str defaultLabel)).isHashable = false := by
  rw [next?] at h
  dsimp only at h
  split at h
  · next hhash => simpa using hhash
  · cases h

/-! ## 4. The narration -/

namespace Compiler

/-- The terms of one run: what has been told since is a trail, and the mark is all that has been told. -/
def trailing (d : Value) (entry : String) (old : List HookCall) : Terms (List HookCall) where
  sealed _ := none
  told hs := ∃ calls, hs = calls ++ old ∧ Trail (Continues d) entry calls
  mark hs := hs
  fails _ := True
  fails_of_ne _ _ := trivial

/-- A trail so far is known. -/
def Known (d : Value) (entry : String) (old calls : List HookCall) (k : Option (List HookCall)) : Prop :=
  k = some (calls ++ old) ∧ Trail (Continues d) entry calls

/-- The trail at each moment of the walk. -/
def itinerary (d : Value) (entry : String) (limit : Value) (old : List HookCall) (g : Graph) :
    Narration (List HookCall) where
  before i k := ∃ node calls, g[i]? = some node ∧ Known d entry old calls k ∧
    Ensues (Continues d) entry calls.head? (.nodeStart node.name)
  within i k := ∃ node calls, g[i]? = some node ∧ Known d entry old (.nodeStart node.name :: calls) k
  after i x shown k := ∃ node calls context, ∃ h : Heap, g[i]? = some node ∧ shown = h.view x ∧
    Known d entry old (.nodeEnd node.name shown context :: calls) k
  ends r k := ∃ calls, Known d entry old calls k ∧ Outcome (Continues d) entry limit r calls

variable {d d' : Value} {entry : String} {limit : Value} {old calls : List HookCall}
  {k : Option (List HookCall)} {plan : FlowPlan}

/-- One listener is told, and the trail goes on. -/
theorem tells_trail {call : HookCall} (hone : (Terms.audience plan call).length = 1)
    (hk : Known d entry old calls k) (hensues : Ensues (Continues d) entry calls.head? call)
    {K : Option (List HookCall) → Prop} (hK : ∀ k', Known d entry old (call :: calls) k' → K k') :
    (trailing d entry old).Tells plan k call K := by
  obtain ⟨rfl, htrail⟩ := hk
  refine Terms.tells ?_
  intro hs _ hmark
  -- what has been told is known exactly
  obtain rfl : hs = calls ++ old := hmark _ rfl
  rw [hone]
  have htrail' : Trail (Continues d) entry (call :: calls) := ⟨hensues, htrail⟩
  exact ⟨⟨call :: calls, rfl, htrail'⟩, nofun, hK _ ⟨rfl, htrail'⟩⟩

/-- The walk of a compiled graph with one listener leaves a trail. -/
theorem narrates_trail {c c' : Compiled} {params : Addr} (hf : Faithful d c) {kinds routers : List String}
    (hwell : WellFormed kinds routers d) (hlike : c'.Like c) (hwalks : c'.Walks plan params)
    (hone : ∀ call, (Terms.audience plan call).length = 1) {label : Nat → Datum → Prop} :
    (trailing d entry old).Narrates c'.graph plan c'.flow label
      (itinerary d entry plan.limit old c'.graph) := by
  have hnodes : ∀ i < c'.flow, c'.graph[i]? = c.nodes[i]? := by
    intro i hi
    rw [hwalks.node hi, hlike.nodes]
  have hflow : c'.flow = c.ids.length := by rw [← hwalks.size, hlike.ids]
  refine { enters := ?enters, fails := ?fails, leaves := ?leaves, follows := ?follows,
           stops := ?stops, lost := ?lost, halts := ?halts }
  case enters =>
    rintro i hi node hnode k ⟨node', calls, hnode', hk, hensues⟩
    obtain rfl : node = node' := Option.some.inj (hnode.symm.trans hnode')
    exact tells_trail (hone _) hk hensues fun k' hk' => ⟨node, calls, hnode, hk'⟩
  case fails =>
    rintro i hi node hnode k e ⟨node', calls, hnode', hk⟩ -
    obtain rfl : node = node' := Option.some.inj (hnode.symm.trans hnode')
    exact tells_trail (hone _) hk .fails fun k' hk' => ⟨_, hk', .failed⟩
  case leaves =>
    rintro i hi node hnode k x h context ⟨node', calls, hnode', hk⟩ -
    obtain rfl : node = node' := Option.some.inj (hnode.symm.trans hnode')
    exact tells_trail (hone _) hk .ends fun k' hk' => ⟨node, _, context, h, hnode, rfl, hk'⟩
  case follows =>
    rintro i hi node hnode k x shown j ⟨node', calls, context, h, hnode', -, hk⟩ hnext
    obtain rfl : node = node' := Option.some.inj (hnode.symm.trans hnode')
    rw [hnodes i hi] at hnode
    obtain ⟨t, hcontinues, hid⟩ := (hf.next?_eq hwell hnode hnext).1 j rfl
    -- the number is that of a declared node, and its name is the target of the edge
    have hj : j < c'.flow := hflow ▸ (List.getElem?_eq_some_iff.1 hid).1
    rw [← hf.names, List.getElem?_map, Option.map_eq_some_iff] at hid
    obtain ⟨target, htarget, rfl⟩ := hid
    exact ⟨hj, target, _, (hnodes j hj).trans htarget, hk, .follows hcontinues⟩
  case stops =>
    rintro i hi node hnode k x shown steps ⟨node', calls, context, h, hnode', rfl, hk⟩ hnext
    obtain rfl : node = node' := Option.some.inj (hnode.symm.trans hnode')
    rw [hnodes i hi] at hnode
    have hnone := (hf.next?_eq hwell hnode hnext).2 rfl
    exact tells_trail (hone _) hk (.stops hnone) fun k' hk' => ⟨_, hk', .ended⟩
  case lost =>
    rintro i hi node hnode k x shown f ⟨node', calls, context, h, hnode', -, hk⟩ hnext
    exact ⟨_, hk, .lost (Node.isHashable_of_next? hnext)⟩
  case halts =>
    rintro i k e ⟨node, calls, hnode, hk, hensues⟩ - hlimit
    refine ⟨calls, hk, ?_⟩
    by_cases hnull : plan.limit = .null
    · rw [hlimit hnull]
      exact .exhausted
    · exact .limited hnull hensues

/-! ## 5. Runs -/

/-- A compiled graph with a limit and one listener walks from its entry, and every call is told once. -/
theorem Assembles.walks_listened {env : Environment} {own params : Addr} {nodes : List Node}
    {edges : List Edge} {start : Nat} {c : Compiled}
    (h : Assembles env d own params nodes edges start c) (limit : Value) (l : Listener) :
    ∃ plan, (c.configured limit [l]).Walks plan params ∧ (c.configured limit [l]).Like c ∧
      plan.start = some start ∧ plan.limit = limit ∧
      ∀ call, (Terms.audience plan call).length = 1 := by
  obtain ⟨name, hwalks⟩ := Compiled.walks_of_assembles h
  obtain ⟨hwalks, hlike⟩ := hwalks.configured limit [l]
  refine ⟨_, hwalks, hlike, rfl, rfl, fun call => ?_⟩
  cases call <;> rfl

/-- What is told of one run of a compiled graph with one listener is a trail from its entry, and the run
ends as the trail does. -/
theorem Assembles.exists_trail {env : Environment} {own params : Addr} {nodes : List Node}
    {edges : List Edge} {start : Nat} {c : Compiled}
    (h : Assembles env d' own params nodes edges start c) (hf : Faithful d c)
    {kinds routers : List String} (hwell : WellFormed kinds routers d)
    (hentry : c.ids[start]? = some entry) (limit : Value) (l : Listener) (b : Graph.Bounds)
    (shared : Shared) (u : World) :
    ∃ calls,
      heard ((c.configured limit [l]).runWithin b shared u).2.journal = calls ++ heard u.journal ∧
      Trail (Continues d) entry calls ∧
      Outcome (Continues d) entry limit ((c.configured limit [l]).runWithin b shared u).1 calls := by
  obtain ⟨plan, hwalks, hlike, hplan, rfl, hone⟩ := h.walks_listened limit l
  have hnarrated : (trailing d entry (heard u.journal)).Narrated (c.configured plan.limit [l]) plan
      params start (fun _ _ => True)
      (itinerary d entry plan.limit (heard u.journal) (c.configured plan.limit [l]).graph) := by
    refine ⟨hwalks, narrates_trail hf hwell hlike hwalks hone, ?_, hplan, ?_, rfl⟩
    · rw [hlike.nodes]
      exact Terms.keepsConduct_of_assembles h
        (Terms.suitsAll_open rfl (fun _ _ _ _ _ _ _ => trivial) fun _ _ _ _ _ => trivial)
        fun _ _ _ _ _ _ _ => Terms.honors_open _ _
    · rw [← hwalks.size, hlike.ids]
      exact h.start_lt
  -- nothing has been told yet of the run
  have hbefore : (itinerary d entry plan.limit (heard u.journal)
      (c.configured plan.limit [l]).graph).before start (some (heard u.journal)) := by
    rw [← hf.names, List.getElem?_map, Option.map_eq_some_iff] at hentry
    obtain ⟨node, hnode, rfl⟩ := hentry
    refine ⟨node, [], ?_, ⟨rfl, trivial⟩, .enters⟩
    rw [hwalks.node hnarrated.first_lt, hlike.nodes]
    exact hnode
  have hopen : (trailing d entry (heard u.journal)).sealed shared.data = none := rfl
  obtain ⟨hallows, hends⟩ := hnarrated.run hopen hbefore b u
    ⟨⟨Terms.obeys_open u.heap, [], rfl, trivial⟩, fun _ h => Option.some.inj h⟩
  rcases hends with hexhausted | ⟨calls, ⟨hcalls, htrail⟩, houtcome⟩
  · obtain ⟨calls, hcalls, htrail⟩ := hallows.inv.2
    exact ⟨calls, hcalls, htrail, hexhausted ▸ .exhausted⟩
  · exact ⟨calls, Option.some.inj hcalls, htrail, houtcome⟩

/-- **Runs follow declared edges.** An accepted description is compiled, and what the listener of a run is
told is a trail from its entry: the next visit is that of the target of the edge with exactly the label, or
else with the wildcard, and where there is none the run ends with that label. So the run keeps to the exact
labels if and only if none of its visits that something follows strays. -/
theorem run_follows_edges {env : Environment} {w : World} (hjson : d.IsJson)
    (haccepted : (ofEnvironment env).problems d = .ok []) (hglobals : env.HasGlobals w.heap) :
    ∃ c w' entry, (ofEnvironment env).compile d w = (.ok c, w') ∧ d.field "entry" = .str entry ∧
      ∀ limit l b shared u, ∃ calls,
        heard ((c.configured limit [l]).runWithin b shared u).2.journal = calls ++ heard u.journal ∧
        Trail (Continues d) entry calls ∧
        Outcome (Continues d) entry limit ((c.configured limit [l]).runWithin b shared u).1 calls ∧
        (Trail (RoutesTo d) entry calls ↔
          ∀ n shown context, .nodeEnd n shown context ∈ calls.tail → ¬ Strays d n shown) := by
  obtain ⟨d', kept, common, nodes, edges, start, c, hkept, hwell', -, h, hcompile⟩ :=
    compile_ok hjson haccepted hglobals
  -- the graph says what the description says, and not only what was kept of it
  have hf : Faithful d c := hkept.fresh ▸ (h.faithful (distinct_ids hwell')).fresh
  have hwell : WellFormed Kind.names Kind.routerNames d := wellFormed_of_accepted haccepted
  obtain ⟨entry, hentry, hstart⟩ := h.entry
  have hentry' : d.field "entry" = .str entry := by
    rw [← hkept.fresh, Value.field_fresh, hentry]
    rfl
  refine ⟨c, _, entry, hcompile, hentry', ?_⟩
  intro limit l b shared u
  obtain ⟨calls, hcalls, htrail, houtcome⟩ := h.exists_trail hf hwell hstart limit l b shared u
  exact ⟨calls, hcalls, htrail, houtcome, htrail.routesTo_iff⟩

/-- Every run of the pair enters at its first node. -/
theorem run_follows_edges_wildcardPair : ∃ c w',
    (ofEnvironment .bare).compile wildcardPair .blank = (.ok c, w') ∧
      ∀ limit l b shared u, ∃ calls,
        heard ((c.configured limit [l]).runWithin b shared u).2.journal = calls ++ heard u.journal ∧
        Trail (Continues wildcardPair) "a" calls := by
  obtain ⟨c, w', entry, hcompile, hentry, hruns⟩ := @run_follows_edges wildcardPair .bare .blank
    isJson_wildcardPair (problems_wildcardPair .bare) (Or.inl rfl)
  obtain rfl : "a" = entry := Value.str.inj hentry
  refine ⟨c, w', hcompile, fun limit l b shared u => ?_⟩
  obtain ⟨calls, hcalls, htrail, -⟩ := hruns limit l b shared u
  exact ⟨calls, hcalls, htrail⟩

/-- A context in which the first node of the pair has run as often as its guard lets it. -/
def spentContext : Value := .ofMembers [("_visits", .ofMembers [("a", .int 1)])]

/-- How the pair runs in that context, and what is told of it. -/
def spentRun : Option (Except Failure Datum × List HookCall) :=
  match (ofEnvironment .bare).compile wildcardPair .blank with
  | (.ok c, w) =>
    match w.heap.keep spentContext with
    | (.ref cell, heap) =>
      let r := (c.configured .null [⟨0, "trail", false⟩]).runWithin ⟨10, 10⟩ ⟨cell, none⟩ { w with heap }
      some (r.1, heard r.2.journal)
    | _ => none
  | (.error _, _) => none

/-- Does a run end without a label, behind a visit of the second node and one that a guard has ended before it? -/
def endsBehindExit : Except Failure Datum × List HookCall → Bool
  | (.ok .null, [.flowEnd 2, .nodeEnd "b" .null _, .nodeStart "b", .nodeEnd "a" (.str label) _, .nodeStart "a"]) =>
    label == loopExitLabel
  | _ => false

theorem endsBehindExit_spentRun : spentRun.any endsBehindExit = true := by
  decide +kernel

theorem exists_of_endsBehindExit {r : Except Failure Datum × List HookCall} (h : endsBehindExit r = true) :
    ∃ contextA contextB, r = (.ok .null, [.flowEnd 2, .nodeEnd "b" .null contextB, .nodeStart "b",
      .nodeEnd "a" (.str loopExitLabel) contextA, .nodeStart "a"]) := by
  unfold endsBehindExit at h
  split at h
  · obtain rfl := eq_of_beq h
    exact ⟨_, _, rfl⟩
  · cases h

/-- The one edge of the pair is not under the exit of the guard. -/
theorem not_routesTo_loopExit (t : String) : ¬ RoutesTo wildcardPair "a" (.str loopExitLabel) t := by
  rintro ⟨l, hl, e, he, hlead⟩
  obtain rfl := List.mem_singleton.1 he
  obtain rfl : loopExitLabel = l := Value.str.inj hl
  exact absurd (Value.str.inj hlead.label) (by decide)

/-- In that context the guard of the first node trips. No edge has its exit label, and still the run
goes on, to the second node, and ends there without a label. -/
theorem guard_exit_takes_wildcard : ∃ c w' cell heap u contextA contextB,
    (ofEnvironment .bare).compile wildcardPair .blank = (.ok c, w') ∧
      w'.heap.keep spentContext = (.ref cell, heap) ∧
      (c.configured .null [⟨0, "trail", false⟩]).runWithin ⟨10, 10⟩ ⟨cell, none⟩ { w' with heap } =
        (.ok .null, u) ∧
      heard u.journal = [.flowEnd 2, .nodeEnd "b" .null contextB, .nodeStart "b",
        .nodeEnd "a" (.str loopExitLabel) contextA, .nodeStart "a"] ∧
      ¬ Trail (RoutesTo wildcardPair) "a" (heard u.journal) := by
  -- the visit of the second node is the step that no edge allows
  have htrail : ∀ contextA contextB, ¬ Trail (RoutesTo wildcardPair) "a"
      [.flowEnd 2, .nodeEnd "b" .null contextB, .nodeStart "b",
        .nodeEnd "a" (.str loopExitLabel) contextA, .nodeStart "a"] := by
    rintro contextA contextB ⟨-, -, hfollows, -⟩
    cases hfollows with
    | follows hroutes => exact not_routesTo_loopExit _ hroutes
  have hspent := endsBehindExit_spentRun
  rw [spentRun] at hspent
  rcases hcompile : (ofEnvironment .bare).compile wildcardPair .blank with ⟨_ | c, w'⟩
  · rw [hcompile] at hspent
    cases hspent
  rw [hcompile] at hspent
  dsimp only at hspent
  rcases hkeep : w'.heap.keep spentContext with ⟨cell, heap⟩
  rw [hkeep] at hspent
  cases cell with
  | ref cell =>
    dsimp only at hspent
    rcases hrun : (c.configured .null [⟨0, "trail", false⟩]).runWithin ⟨10, 10⟩ ⟨cell, none⟩ { w' with heap } with ⟨r, u⟩
    rw [hrun] at hspent
    obtain ⟨contextA, contextB, hends⟩ := exists_of_endsBehindExit hspent
    obtain ⟨rfl, hheard⟩ := Prod.mk.inj hends
    exact ⟨c, w', cell, heap, u, contextA, contextB, rfl, hkeep, hrun, hheard, hheard ▸ htrail _ _⟩
  | _ => cases hspent

end Compiler

end NodeFlow
