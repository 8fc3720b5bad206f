import NodeFlow.Proofs.Compile.Accord
import NodeFlow.Proofs.Compile.Total
/-!
# Graphs in tandem

Two graphs whose nodes correspond, though they may be numbered otherwise, are walked in tandem: each walk visits the
node that corresponds to the one that the other visits, and tells and notes the same, or what the accord allows.

A run begins with a step in which its parameters are put into a new cell. The accord is asked for from then on, for
it may say more of this cell than of a cell that is not there yet.
-/

set_option autoImplicit false

universe u

namespace NodeFlow

/-- The state in which a walk under some parameters begins. -/
def World.begun (w : World) (params : Addr) : World :=
  { w with heap := (w.heap.alloc (.dict (w.heap.membersAt params))).2 }

namespace Accord

variable {A : Accord} {place : Nat → Nat} {count : Nat} {g g' : Graph} {n n' : Node}

/-! ## 1. Nodes -/

/-- Two nodes that correspond. -/
structure Nodes (A : Accord) (place : Nat → Nat) (n n' : Node) : Prop where
  name : n'.name = n.name
  conduct : A.Conducts n.conduct n'.conduct
  wiring : ∀ l, Members.get? n'.wiring l = (Members.get? n.wiring l).map place
  isEmpty : n'.wiring.isEmpty = n.wiring.isEmpty
  note : ∀ label : Value, label.IsEnding → A.note (n.endNote label) (n'.endNote label)

/-- Two graphs whose first nodes correspond, and lead to each other only. -/
structure Graphs (A : Accord) (place : Nat → Nat) (count : Nat) (g g' : Graph) : Prop where
  node : ∀ i < count, ∃ n n', g[i]? = some n ∧ g'[place i]? = some n' ∧ A.Nodes place n n'
  closed : ∀ i < count, ∀ n, g[i]? = some n → ∀ l j, Members.get? n.wiring l = some j → j < count

theorem tracks_visit (hg : A.Graphs place count g g') {i : Nat} (hi : i < count) {s s' : Scene} (hs : A.Scenes s s')
    (fuel : Nat) : A.Tracks (g.visit fuel s i) (g'.visit fuel s' (place i)) SameLabel := by
  obtain ⟨n, n', hn, hn', hnodes⟩ := hg.node i hi
  cases fuel with
  | zero => exact tracks_fail _
  | succ fuel =>
    rw [Graph.visit, Graph.visit, hn, hn', Option.map_some, Option.map_some]
    have hconduct := hnodes.conduct
    generalize n.conduct = v at hconduct
    generalize n'.conduct = v' at hconduct
    cases hconduct with
    | blocking hvisit => exact hvisit s s' hs
    | cooperative _ => exact tracks_fail _

theorem tracks_visitWaiting (hg : A.Graphs place count g g') {i : Nat} (hi : i < count) {s s' : Scene}
    (hs : A.Scenes s s') (fuel : Nat) :
    A.Tracks (g.visitWaiting fuel s i) (g'.visitWaiting fuel s' (place i)) SameLabel := by
  have hvisit := tracks_visit hg hi hs fuel
  obtain ⟨n, n', hn, hn', hnodes⟩ := hg.node i hi
  cases fuel with
  | zero => exact .throw _
  | succ fuel =>
    rw [Graph.visitWaiting, Graph.visitWaiting, hn, hn', Option.map_some, Option.map_some]
    have hconduct := hnodes.conduct
    generalize n.conduct = v at hconduct
    generalize n'.conduct = v' at hconduct
    cases hconduct with
    | blocking _ => exact .perform (m := Coop World Datum) hvisit
    | cooperative hvisit => exact hvisit s s' hs

/-- A label leads to the corresponding node. -/
theorem Nodes.next? (hn : A.Nodes place n n') {label : Value} (hlabel : label.IsEnding) :
    n'.next? label = (n.next? label).map (Option.map place) := by
  obtain ⟨l, hl⟩ : ∃ l, label.orElse (.str defaultLabel) = .str l := by
    rcases hlabel with rfl | ⟨l, rfl⟩
    · exact ⟨_, rfl⟩
    · rw [Value.orElse]
      split
      · exact ⟨_, rfl⟩
      · exact ⟨_, rfl⟩
  have hkey : (Value.str l).isHashable = true := rfl
  simp only [Node.next?, hl, hkey, Bool.not_true, Bool.false_eq_true, if_false, hn.wiring, Except.map]
  cases Members.get? n.wiring l <;> rfl

theorem mem_wiring_of_next? {label : Value} {j : Nat} (h : n.next? label = .ok (some j)) :
    ∃ l, Members.get? n.wiring l = some j := by
  rw [Node.next?] at h
  split at h
  · cases h
  · obtain h := Except.ok.inj h
    split at h
    · next l _ =>
      cases hl : Members.get? n.wiring l with
      | none =>
        rw [hl] at h
        exact ⟨_, h⟩
      | some i =>
        rw [hl] at h
        exact ⟨l, hl.trans h⟩
    · exact ⟨_, h⟩

theorem tracks_follow (hn : A.Nodes place n n') {label : Value} (hlabel : label.IsEnding) :
    A.Tracks (n.follow label) (n'.follow label) fun o o' =>
      o' = o.map place ∧ ∀ j, o = some j → ∃ l, Members.get? n.wiring l = some j := by
  have hnext : EndsAlike (fun o o' => o' = o.map place ∧ n.next? label = .ok o) (n.next? label) (n'.next? label) := by
    rw [hn.next? hlabel]
    cases n.next? label with
    | error f => exact .error f
    | ok o => exact .ok ⟨rfl, rfl⟩
  refine .bind (tracks_ofFault hnext) fun o o' ho => ?_
  obtain ⟨rfl, hnext⟩ := ho
  cases o with
  | some j => exact .pure ⟨rfl, fun i hi => mem_wiring_of_next? (hi ▸ hnext)⟩
  | none =>
    rw [Option.map_none]
    dsimp only
    rw [hn.isEmpty]
    split
    · exact .bind (tracks_note (hn.note label hlabel)) fun _ _ _ => .pure ⟨rfl, nofun⟩
    · exact .pure ⟨rfl, nofun⟩

/-! ## 2. Walks -/

section

variable {m : Type → Type u} {f f' : Flow m}

theorem tracks_tell (hlisteners : f'.listeners = f.listeners) {call call' : HookCall}
    (hcall : call.Alike A.context call') : A.Tracks (f.tell call) (f'.tell call') fun _ _ => True := by
  have hhook : call'.hook = call.hook := by cases hcall <;> rfl
  refine .of_forall fun w w' hw => ⟨{ hw with journal := hw.journal.append (List.rel_reverse ?_) }, .ok trivial⟩
  rw [hlisteners, hhook, Listener.told_eq, Listener.told_eq, List.map_map, List.map_map, List.forall₂_map_left_iff,
    List.forall₂_map_right_iff, List.forall₂_same]
  exact fun l _ => .told l.2.tag hcall

theorem tracks_checkSteps (hlimit : f'.limit = f.limit) (step : Nat) :
    A.Tracks (f.checkSteps step) (f'.checkSteps step) fun _ _ => True := by
  have hsame : ∀ x : Except Fault Bool, EndsAlike Eq x x := fun x => by
    cases x with
    | ok b => exact .ok rfl
    | error f => exact .error f
  rw [Flow.checkSteps, Flow.checkSteps, hlimit]
  split
  · exact .pure trivial
  · refine .bind (tracks_ofFault (hsame _)) fun exceeded _ hexceeded => ?_
    subst hexceeded
    split
    · exact tracks_fail _
    · exact .pure trivial

variable [Performs World m] [Lockstep World Datum m]

theorem tracks_walk (f f' : Flow m) (hg : A.Graphs place count g g') (hlimit : f'.limit = f.limit)
    (hlisteners : f'.listeners = f.listeners) {shared shared' : Shared} (hshared : A.Contexts shared shared')
    {visit visit' : Nat → m Datum} (hvisit : ∀ i < count, A.Tracks (visit i) (visit' (place i)) SameLabel)
    (fuel step i : Nat) (hi : i < count) :
    A.Tracks (f.walk g shared visit fuel step i) (f'.walk g' shared' visit' fuel step (place i)) SameLabel := by
  -- the induction is on the nodes that may still be visited
  induction fuel generalizing step i with
  | zero => exact .throw _
  | succ fuel ih =>
    obtain ⟨n, n', hn, hn', hnodes⟩ := hg.node i hi
    rw [Flow.walk, Flow.walk, hn, hn']
    dsimp only
    rw [hnodes.name]
    refine .bind (.perform (tracks_checkSteps hlimit step)) fun _ _ _ => ?_
    refine .bind (.perform (tracks_tell hlisteners (.nodeStart n.name))) fun _ _ _ => ?_
    refine .bind (.tryCatch (hvisit i hi) fun e => ?_) fun label label' hlabel => ?_
    · exact .bind (.perform (tracks_tell hlisteners (.nodeError n.name e))) fun _ _ _ => .throw e
    obtain ⟨rfl, hlabel⟩ := hlabel
    refine .bind (R := fun v v' => v' = v ∧ v.IsEnding) (.perform (tracks_reads fun w w' _ => ?_))
      fun _ shown hshown => ?_
    · rcases hlabel with rfl | ⟨l, rfl⟩
      · exact ⟨rfl, Or.inl rfl⟩
      · exact ⟨rfl, Or.inr ⟨l, rfl⟩⟩
    obtain ⟨rfl, hshown⟩ := hshown
    refine .bind (R := A.context) (.perform (tracks_reads fun w w' hw => hshared.view _ _ hw.heap))
      fun context context' hcontext => ?_
    refine .bind (.perform (tracks_tell hlisteners (.nodeEnd n.name shown hcontext))) fun _ _ _ => ?_
    refine .bind (.perform (tracks_follow hnodes hshown)) fun o o' ho => ?_
    obtain ⟨rfl, hwired⟩ := ho
    cases o with
    | some j =>
      obtain ⟨l, hl⟩ := hwired j rfl
      exact ih (step + 1) j (hg.closed i hi n hn l j hl)
    | none =>
      exact .bind (.perform (tracks_tell hlisteners (.flowEnd (step + 1)))) fun _ _ _ => .pure ⟨rfl, hlabel⟩

end

/-! ## 3. Runs -/

/-- Two compiled graphs whose nodes correspond. -/
structure Tandem (A : Accord) (place : Nat → Nat) (c c' : Compiled) (plan plan' : FlowPlan) (params params' : Addr) :
    Prop where
  walks : c.Walks plan params
  walks' : c'.Walks plan' params'
  graphs : A.Graphs place c.flow c.graph c'.graph
  cooperative : c'.nodes.any Node.isCooperative = c.nodes.any Node.isCooperative
  start : ∃ first < c.flow, plan.start = some first ∧ plan'.start = some (place first)
  limit : plan'.limit = plan.limit
  listeners : plan'.listeners = plan.listeners

/-- How two runs end that begin in two states: they are cut short before they begin, or they end alike in states that
correspond. -/
inductive Outcome (A : Accord) (w w' : World) :
    Except Failure Datum × World → Except Failure Datum × World → Prop
  | cut : Outcome A w w' (.error .exhausted, w) (.error .exhausted, w')
  | ended {r r' : Except Failure Datum} {u u' : World} : EndsAlike SameLabel r r' → A.Worlds u u' →
    Outcome A w w' (r, u) (r', u')

variable {c c' : Compiled} {plan plan' : FlowPlan} {params params' : Addr} {shared shared' : Shared} {w w' : World}

theorem traverse_plain {m : Type → Type u} [Performs World m] {first : Nat} (hstart : plan.start = some first)
    (visit : Scene → Nat → m Datum) (fuel : Nat) (ms : Members Datum) :
    (Flow.plain plan : Flow m).traverse g shared visit fuel ms = (do
      let cell ← Performs.perform (σ := World) (Act.update fun w =>
        let r := w.heap.alloc (.dict ms)
        (r.1, { w with heap := r.2 }))
      (Flow.plain plan).walk g shared (visit ⟨shared, cell⟩) fuel 0 first) := by
  have hplain : (Flow.plain plan : Flow m).start = some first := hstart
  rw [Flow.traverse, hplain]

/-- A run at once walks in the state in which it begins. -/
theorem run_blocking (h : c.Walks plan params) (hblocking : c.nodes.any Node.isCooperative = false) {first : Nat}
    (hstart : plan.start = some first) {b : Graph.Bounds} {fuel : Nat} (hfuel : b.visits = fuel + 1) (w : World) :
    c.runWithin b shared w = (Flow.plain plan : Flow (Act World)).walk c.graph shared
      (c.graph.visit fuel ⟨shared, w.heap.cells.size⟩) fuel 0 first (w.begun params) := by
  rw [h.runWithin_blocking hblocking, hfuel]
  dsimp only
  rw [Flow.plain_runOnce, traverse_plain hstart]
  rfl

/-- So does one that is driven, unless it may not even begin. -/
theorem run_waiting (h : c.Walks plan params) (hcooperative : c.nodes.any Node.isCooperative = true) {first : Nat}
    (hstart : plan.start = some first) {b : Graph.Bounds} {fuel rounds : Nat} (hfuel : b.visits = fuel + 1)
    (hrounds : b.rounds = rounds + 1) (w : World) :
    c.runWithin b shared w = (((Flow.plain plan : Flow (Coop World Datum)).walk c.graph shared
      (c.graph.visitWaiting fuel ⟨shared, w.heap.cells.size⟩) fuel 0 first >>= fun d => pure d :
        Coop World Datum Datum).run (rounds + 1)) (w.begun params) := by
  rw [h.runWithin_waiting hcooperative, h.startWithin_eq hcooperative, hfuel, hrounds]
  dsimp only
  have hbegin : (Flow.plain plan : Flow (Coop World Datum)).runOnce c.graph (c.graph.visitWaiting fuel) fuel
      ⟨shared, params⟩ = ((Coop.ofAct (Flow.paramsOf ⟨shared, params⟩) >>= fun ms => do
        let cell ← Performs.perform (σ := World) (Act.update fun w =>
          let r := w.heap.alloc (.dict ms)
          (r.1, { w with heap := r.2 }))
        (Flow.plain plan).walk c.graph shared (c.graph.visitWaiting fuel ⟨shared, cell⟩) fuel 0 first) >>=
          fun d => pure d) := by
    rw [Flow.runOnce]
    simp only [traverse_plain hstart]
    rfl
  rw [hbegin]
  rfl

/-- Graphs in tandem are run in tandem, from the states in which their walks begin. -/
theorem Tandem.run (h : A.Tandem place c c' plan plan' params params')
    (hw : A.Worlds (w.begun params) (w'.begun params'))
    (hs : A.Scenes ⟨shared, w.heap.cells.size⟩ ⟨shared', w'.heap.cells.size⟩) (b : Graph.Bounds) :
    A.Outcome w w' (c.runWithin b shared w) (c'.runWithin b shared' w') := by
  obtain ⟨first, hfirst, hstart, hstart'⟩ := h.start
  have hended : ∀ {x y : Except Failure Datum × World}, A.Worlds x.2 y.2 ∧ EndsAlike SameLabel x.1 y.1 →
      A.Outcome w w' x y := fun h => .ended h.2 h.1
  cases hcooperative : c.nodes.any Node.isCooperative with
  | false =>
    have hcooperative' := h.cooperative.trans hcooperative
    cases hfuel : b.visits with
    | zero =>
      rw [h.walks.runWithin_blocking hcooperative, h.walks'.runWithin_blocking hcooperative', hfuel]
      exact .cut
    | succ fuel =>
      rw [run_blocking h.walks hcooperative hstart hfuel, run_blocking h.walks' hcooperative' hstart' hfuel]
      exact hended (tracks_walk (.plain plan) (.plain plan') h.graphs h.limit h.listeners
        hs.contexts (fun i hi => tracks_visit h.graphs hi hs fuel) fuel 0 first hfirst _ _ hw)
  | true =>
    have hcooperative' := h.cooperative.trans hcooperative
    cases hrounds : b.rounds with
    | zero =>
      rw [h.walks.runWithin_waiting hcooperative, h.walks'.runWithin_waiting hcooperative', hrounds]
      exact .cut
    | succ rounds =>
      cases hfuel : b.visits with
      | zero =>
        rw [h.walks.runWithin_waiting hcooperative, h.walks'.runWithin_waiting hcooperative',
          h.walks.startWithin_eq hcooperative, h.walks'.startWithin_eq hcooperative', hfuel, hrounds]
        exact .cut
      | succ fuel =>
        rw [run_waiting h.walks hcooperative hstart hfuel hrounds,
          run_waiting h.walks' hcooperative' hstart' hfuel hrounds]
        have hwalk := tracks_walk (.plain plan) (.plain plan') h.graphs h.limit h.listeners
          hs.contexts (fun i hi => tracks_visitWaiting h.graphs hi hs fuel) fuel 0 first hfirst
        have hall : A.Tracks (m := Coop World Datum) _ _ SameLabel :=
          .bind hwalk fun d d' hd => .pure (m := Coop World Datum) hd
        exact hended (Coop.Tracks.run hall (rounds + 1) _ _ hw)

/-- So they are from any states that correspond, if their parameters do: these are copied into cells that correspond. -/
theorem Tandem.run_from (h : A.Tandem place c c' plan plan' params params') (hw : A.Worlds w w')
    (hs : A.Contexts shared shared') (hparams : A.sealed params = none) (hname : params' = A.names.cell params)
    (hknown : ∀ g g', A.Heaps g g' → A.params (g.view (.ref w.heap.cells.size))) (b : Graph.Bounds) :
    EndsAlike SameLabel (c.runWithin b shared w).1 (c'.runWithin b shared' w').1 ∧
      A.Worlds (c.runWithin b shared w).2 (c'.runWithin b shared' w').2 := by
  have hbegun : A.Worlds (w.begun params) (w'.begun params') := by
    subst hname
    exact { hw with heap := hw.heap.alloc_dict (hw.heap.entries hparams) }
  have houtcome := h.run hbegun ⟨hs, hw.heap.names_size.symm, hw.heap.new_hidden, hknown⟩ b
  generalize c.runWithin b shared w = x at houtcome ⊢
  generalize c'.runWithin b shared' w' = y at houtcome ⊢
  cases houtcome with
  | cut => exact ⟨.error _, hw⟩
  | ended hends hworlds => exact ⟨hends, hworlds⟩

/-- Runs that end alike end with the same label or failure. -/
theorem eq_of_sameLabel {r r' : Except Failure Datum} (h : EndsAlike SameLabel r r') : r' = r := by
  cases h with
  | ok h => exact congrArg Except.ok h.1
  | error e => rfl

/-! ## 4. Compiled graphs -/

open Compiler Description

/-- Two declarations that correspond, of which nodes are made in the same way. -/
structure Declarations (A : Accord) (m m' : Value) : Prop where
  id : idOf m' = idOf m
  kind : m'.field "kind" = m.field "kind"
  policy : policyOf m' = policyOf m
  declares : ∀ name k, m.field "kind" = .str name → Kind.ofName? name = some k →
    A.Declares k (Terms.declaredOf m) (Terms.declaredOf m')

/-- Two descriptions whose declarations correspond, place by place, and whose edges lead to corresponding places. -/
structure Matches (A : Accord) (place : Nat → Nat) (d d' : Value) (edges edges' : List Edge) : Prop where
  declaration : ∀ (i : Nat) m, (nodesOf d)[i]? = some m → ∃ m', (nodesOf d')[place i]? = some m' ∧ A.Declarations m m'
  onto : ∀ j < (nodesOf d').length, ∃ i < (nodesOf d).length, place i = j
  routes : ∀ i < (nodesOf d).length, ∀ l,
    Members.get? (routesFrom (place i) edges') l = (Members.get? (routesFrom i edges) l).map place
  note : ∀ i < (nodesOf d).length, ∀ n n' : Node, n'.name = n.name → n.wiring = routesFrom i edges →
    n'.wiring = routesFrom (place i) edges' → ∀ label : Value, label.IsEnding →
      A.note (n.endNote label) (n'.endNote label)

/-- A description matches itself if its declarations correspond to themselves. -/
theorem matches_self {d : Value} {edges : List Edge} (h : ∀ m ∈ nodesOf d, A.Declarations m m) :
    A.Matches id d d edges edges where
  declaration i m hm := ⟨m, hm, h m (List.mem_of_getElem? hm)⟩
  onto j hj := ⟨j, hj, rfl⟩
  routes i _ l := Option.map_id.symm ▸ rfl
  note i _ n n' hname hwiring hwiring' label _ := by
    have hsame : n'.endNote label = n.endNote label := by
      rw [Node.endNote, Node.endNote, hname, hwiring, hwiring', id]
    rw [hsame]
    exact A.note_refl _

theorem isEmpty_of_get? {ms ms' : Members Nat} (h : ∀ l, Members.get? ms' l = (Members.get? ms l).map place) :
    ms'.isEmpty = ms.isEmpty := by
  cases ms with
  | nil =>
    cases ms' with
    | nil => rfl
    | cons m' ms' => simpa [Members.get?, List.lookup_cons] using h m'.1
  | cons m ms =>
    cases ms' with
    | nil => simpa [Members.get?, List.lookup_cons] using h m.1
    | cons m' ms' => rfl

section

variable {env : Environment} {d d' : Value} {own own' params params' : Addr} {nodes nodes' : List Node}
  {edges edges' : List Edge} {first first' : Nat} {c c' : Compiled}

theorem flow_eq_length (h : Assembles env d own params nodes edges first c) : c.flow = (nodesOf d).length :=
  h.flow.trans h.length

/-- What stands in a place of the one graph corresponds to what stands in its place of the other. -/
theorem Matches.node (hm : A.Matches place d d' edges edges') (henv : A.Environments env)
    (h : Assembles env d own params nodes edges first c) (h' : Assembles env d' own' params' nodes' edges' first' c')
    {i : Nat} (hi : i < (nodesOf d).length) :
    ∃ n n', c.nodes[i]? = some n ∧ c'.nodes[place i]? = some n' ∧ n.wiring = routesFrom i edges ∧
      A.Nodes place n n' := by
  have hplaced : ∀ {d : Value} {own params : Addr} {nodes : List Node} {edges : List Edge} {first : Nat} {c : Compiled},
      Assembles env d own params nodes edges first c → ∀ {i : Nat} {m : Value}, (nodesOf d)[i]? = some m →
        ∃ n n₀, c.nodes[i]? = some n ∧ Makes env own i m n₀ ∧ n = { n₀ with wiring := routesFrom i edges } := by
    intro d own params nodes edges first c h i m hm
    have hlt : i < c.nodes.length := by
      rw [h.nodes_eq, length_wired, h.length]
      exact (List.getElem?_eq_some_iff.1 hm).1
    obtain ⟨m₀, n₀, hm₀, -, hmade, heq⟩ := h.node (List.getElem?_eq_getElem hlt)
    obtain rfl := Option.some.inj (hm.symm.trans hm₀)
    exact ⟨_, n₀, List.getElem?_eq_getElem hlt, hmade, heq⟩
  obtain ⟨m', hm', hdeclared⟩ := hm.declaration i _ (List.getElem?_eq_getElem hi)
  obtain ⟨n, n₀, hn, ⟨name, kind, policy, hname, hkind, hpolicy, rfl⟩, rfl⟩ := hplaced h (List.getElem?_eq_getElem hi)
  obtain ⟨n', n₀', hn', ⟨name', kind', policy', hname', hkind', hpolicy', rfl⟩, rfl⟩ := hplaced h' hm'
  -- both are of one kind, with one policy
  rw [hdeclared.kind, hname] at hname'
  obtain rfl := Value.str.inj hname'
  obtain rfl := Option.some.inj (hkind.symm.trans hkind')
  rw [hdeclared.policy, hpolicy] at hpolicy'
  obtain rfl := Except.ok.inj hpolicy'
  refine ⟨_, _, hn, hn', rfl, ⟨hdeclared.id, ?_, hm.routes i hi, isEmpty_of_get? (hm.routes i hi), ?_⟩⟩
  · exact conducts_ofKind henv env.modelWaits (hdeclared.declares _ _ hname hkind) policy i (place i)
  · exact hm.note i hi _ _ hdeclared.id rfl rfl

theorem Conducts.isCooperative {n n' : Node} (h : A.Conducts n.conduct n'.conduct) :
    n'.isCooperative = n.isCooperative := by
  rw [Node.isCooperative, Node.isCooperative]
  generalize n.conduct = v at h
  generalize n'.conduct = v' at h
  cases h <;> rfl

theorem any_isCooperative (hm : A.Matches place d d' edges edges') (henv : A.Environments env)
    (h : Assembles env d own params nodes edges first c)
    (h' : Assembles env d' own' params' nodes' edges' first' c') :
    c'.nodes.any Node.isCooperative = c.nodes.any Node.isCooperative := by
  have hlt : ∀ {d : Value} {own params : Addr} {nodes : List Node} {edges : List Edge} {first : Nat} {c : Compiled},
      Assembles env d own params nodes edges first c → ∀ {i : Nat}, i < c.nodes.length → i < (nodesOf d).length := by
    intro d own params nodes edges first c h i hi
    rwa [h.nodes_eq, length_wired, h.length] at hi
  rw [Bool.eq_iff_iff, List.any_eq_true, List.any_eq_true]
  constructor
  · rintro ⟨n', hn', hcooperative⟩
    obtain ⟨j, hj, rfl⟩ := List.getElem_of_mem hn'
    obtain ⟨i, hi, rfl⟩ := hm.onto j (hlt h' hj)
    obtain ⟨n, n', hn, hn', -, hnodes⟩ := hm.node henv h h' hi
    obtain rfl := Option.some.inj ((List.getElem?_eq_getElem hj).symm.trans hn')
    exact ⟨n, List.mem_of_getElem? hn, hnodes.conduct.isCooperative ▸ hcooperative⟩
  · rintro ⟨n, hn, hcooperative⟩
    obtain ⟨i, hi, rfl⟩ := List.getElem_of_mem hn
    obtain ⟨n, n', hn, hn', -, hnodes⟩ := hm.node henv h h' (hlt h hi)
    obtain rfl := Option.some.inj ((List.getElem?_eq_getElem hi).symm.trans hn)
    exact ⟨n', List.mem_of_getElem? hn', hnodes.conduct.isCooperative.trans hcooperative⟩

/-- Descriptions that match are compiled to graphs in tandem, whatever their limit and their listeners. -/
theorem Matches.tandem (hm : A.Matches place d d' edges edges') (henv : A.Environments env)
    (h : Assembles env d own params nodes edges first c) (h' : Assembles env d' own' params' nodes' edges' first' c')
    (hstart : first' = place first) (limit : Value) (ls : List Listener) :
    ∃ plan plan', A.Tandem place (c.configured limit ls) (c'.configured limit ls) plan plan' params params' := by
  obtain ⟨name, hwalks⟩ := Compiled.walks_of_assembles h
  obtain ⟨name', hwalks'⟩ := Compiled.walks_of_assembles h'
  obtain ⟨hwalks, hlike⟩ := hwalks.configured limit ls
  obtain ⟨hwalks', hlike'⟩ := hwalks'.configured limit ls
  have hflow : (c.configured limit ls).flow = (nodesOf d).length := hlike.flow.trans (flow_eq_length h)
  have hflow' : (c'.configured limit ls).flow = (nodesOf d').length := hlike'.flow.trans (flow_eq_length h')
  have hplans : ((FlowPlan.mk name' (some first') .null []).configured limit ls).limit =
      ((FlowPlan.mk name (some first) .null []).configured limit ls).limit ∧
      ((FlowPlan.mk name' (some first') .null []).configured limit ls).listeners =
        ((FlowPlan.mk name (some first) .null []).configured limit ls).listeners := by
    rw [FlowPlan.configured, FlowPlan.configured, FlowPlan.foldl_listened, FlowPlan.foldl_listened]
    exact ⟨rfl, rfl⟩
  refine ⟨_, _, hwalks, hwalks', ⟨fun i hi => ?_, fun i hi n hn l j hj => ?_⟩, ?_, ⟨first, ?_, ?_, ?_⟩, hplans.1,
    hplans.2⟩
  · obtain ⟨n, n', hn, hn', -, hnodes⟩ := hm.node henv h h' (hflow ▸ hi)
    have hi' : place i < (c'.configured limit ls).flow := by
      obtain ⟨m', hm', -⟩ := hm.declaration i _ (List.getElem?_eq_getElem (hflow ▸ hi))
      exact hflow' ▸ (List.getElem?_eq_some_iff.1 hm').1
    refine ⟨n, n', ?_, ?_, hnodes⟩
    · rw [hwalks.node hi, hlike.nodes, hn]
    · rw [hwalks'.node hi', hlike'.nodes, hn']
  · rw [hwalks.node hi, hlike.nodes] at hn
    obtain ⟨-, n₀, -, -, -, rfl⟩ := h.node hn
    -- an edge leads to a declared node
    obtain ⟨e, -, hnumbers⟩ := exists_mem_of_forall₂ h.numbers _ ((get?_routesFrom h.apart i l j).1 hj)
    obtain ⟨s, t, -, -, ht⟩ := hnumbers.leads
    rw [hflow, ← List.length_map (f := idOf), ← h.ids]
    exact (List.getElem?_eq_some_iff.1 ht).1
  · rw [hlike.nodes, hlike'.nodes]
    exact any_isCooperative hm henv h h'
  · rw [hlike.flow, h.flow, h.length, ← List.length_map (f := idOf), ← h.ids]
    exact h.start_lt
  · exact FlowPlan.start_configured _ _ _
  · rw [← hstart]
    exact FlowPlan.start_configured _ _ _

end

end Accord

end NodeFlow
