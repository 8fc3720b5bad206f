import NodeFlow.Proofs.Compile.Handover
import NodeFlow.Proofs.Description.Cycles
/-!
# The last result

Templates see the result of the node that ran last. A run does the same whether its nodes look that result up
in the shared context or have it handed over from visit to visit, however the context is changed in between: by
routers and guards that have nothing to hand on, by visits that are counted, and by outputs that are saved at
paths through objects that the context shares with results.

The one thing that is asked of a description is that none of its outputs is saved at a path with the key of the last
result in it.
-/

set_option autoImplicit false

universe u

namespace NodeFlow

namespace Handing

open Growth

variable {S : Seal} {n : Nat} {shared : Shared} {last : Datum} {w w' : World} {α β : Type}

/-! ## 1. Walks -/

section

variable {m : Type → Type u} [Performs World m] [Mannerly World Datum m] [Agreeing World Datum m] {f : Flow m}
  {g : Graph} {count : Nat}

theorem agrees_tell (call : HookCall) (w : World) :
    Agreeing.Agrees (manners S) w (Performs.perform (f.tell call) : m Unit) (Performs.perform (f.tell call))
      fun _ _ w' => w'.heap = w.heap := by
  refine Agreeing.mono (agrees_of_heap rfl ?_) fun _ _ _ h => h.2.2
  rw [contextsShown_tell]
  exact List.suffix_append _ _

theorem agrees_checkSteps (step : Nat) (hw : Holding S n shared last w) :
    Agreeing.Agrees (manners S) w (Performs.perform (f.checkSteps step) : m Unit) (Performs.perform (f.checkSteps step))
      fun _ _ w' => Holding S n shared last w' := by
  have hquiet : Quietly "" n (f.checkSteps step) fun _ _ => True := quietly_checkSteps step
  obtain ⟨-, -, hshown, -⟩ := hquiet.grows w hw.size hw.closed
  have hstill : (f.checkSteps step).Still := by
    rw [Flow.checkSteps]
    split
    · exact fun _ => rfl
    · refine .bind (fun _ => rfl) fun beyond => ?_
      split <;> exact fun _ => rfl
  exact Agreeing.mono (agrees_of_heap (hstill w) (hshown ▸ List.suffix_rfl)) fun _ _ _ h => hw.of_heap h.2.2

theorem agrees_follow (node : Node) (label : Value) (hw : Holding S n shared last w) :
    Agreeing.Agrees (manners S) w (Performs.perform (node.follow label) : m (Option Nat))
      (Performs.perform (node.follow label)) fun a b w' =>
        a = b ∧ (∀ j, a = some j → ∃ l, Members.get? node.wiring l = some j) ∧ Holding S n shared last w' := by
  have hquiet : Quietly "" n (node.follow label) fun o _ => ∀ j, o = some j → ∃ l, Members.get? node.wiring l = some j :=
    quietly_follow node label
  obtain ⟨-, -, hshown, hwired⟩ := hquiet.grows w hw.size hw.closed
  have hstill : (node.follow label).Still := by
    refine .bind (fun _ => rfl) fun o => ?_
    cases o with
    | some j => exact fun _ => rfl
    | none =>
      dsimp only
      split
      · exact .bind (fun _ => rfl) fun _ _ => rfl
      · exact fun _ => rfl
  refine Agreeing.mono (agrees_of_heap (hstill w) (hshown ▸ List.suffix_rfl)) ?_
  rintro a _ w' ⟨rfl, ha, hsame⟩
  exact ⟨rfl, hwired a ha, hw.of_heap hsame⟩

/-- A walk does the same whether its nodes look the last result up or have it handed over. By induction on how many
visits are left: before each of them the context holds the last result in its place. -/
theorem agrees_walk {visit : Nat → m Datum} {visit' : Datum → Nat → m (Datum × Datum)}
    (hnodes : ∀ i < count, ∀ node, g[i]? = some node → ∀ l j, Members.get? node.wiring l = some j → j < count)
    (fuel step i : Nat) (hi : i < count)
    (hvisit : fuel ≠ 0 → ∀ i < count, ∀ last w, Holding S n shared last w →
      Agreeing.Agrees (manners S) w (visit i) (visit' last i) (Visited S n shared))
    (hw : Holding S n shared last w) :
    Agreeing.Agrees (manners S) w (f.walk g shared visit fuel step i) (f.relay g shared visit' fuel step last i)
      fun a b _ => a = b := by
  induction fuel generalizing step i last w with
  | zero => exact Agreeing.throw _
  | succ fuel ih =>
    rw [Flow.walk, Flow.relay]
    cases hnode : g[i]? with
    | none => exact Agreeing.throw _
    | some node =>
      refine Agreeing.bind (agrees_checkSteps step hw) fun _ _ w₁ hw₁ => ?_
      refine Agreeing.bind (agrees_tell _ w₁) fun _ _ w₂ hsame₂ => ?_
      have hw₂ := hw₁.of_heap hsame₂
      -- whatever a visit fails with is told and then fails the walk
      have hvisited : Agreeing.Agrees (manners S) w₂
          (tryCatch (visit i) fun e => do
            Performs.perform (f.tell (.nodeError node.name e))
            throw e : m Datum)
          (tryCatch (visit' last i) fun e => do
            Performs.perform (f.tell (.nodeError node.name e))
            throw e) (Visited S n shared) :=
        Agreeing.tryCatch (hvisit (Nat.succ_ne_zero _) i hi last w₂ hw₂) fun e w₃ _ =>
          Agreeing.bind (agrees_tell _ w₃) fun _ _ _ _ => Agreeing.throw e
      refine Agreeing.bind hvisited ?_
      rintro _ ⟨label, result⟩ w₃ ⟨rfl, hw₃⟩
      refine Agreeing.bind (agrees_of_heap rfl List.suffix_rfl) ?_
      rintro shown _ w₄ ⟨rfl, -, hsame₄⟩
      refine Agreeing.bind (agrees_of_heap rfl List.suffix_rfl) ?_
      rintro context _ w₅ ⟨rfl, -, hsame₅⟩
      refine Agreeing.bind (agrees_tell _ w₅) fun _ _ w₆ hsame₆ => ?_
      have hw₆ := ((hw₃.of_heap hsame₄).of_heap hsame₅).of_heap hsame₆
      refine Agreeing.bind (agrees_follow node shown hw₆) ?_
      rintro next _ w₇ ⟨rfl, hnext, hw₇⟩
      cases next with
      | some j =>
        obtain ⟨l, hj⟩ := hnext j rfl
        exact ih (step + 1) j (hnodes i hi node hnode l j hj) (fun _ => hvisit (Nat.succ_ne_zero _)) hw₇
      | none => exact Agreeing.bind (agrees_tell _ w₇) fun _ _ _ _ => Agreeing.pure rfl

/-- And so does a flow that does nothing but walk. -/
theorem agrees_runOnce {plan : FlowPlan} {visit : Scene → Nat → m Datum}
    {visit' : Scene → Datum → Nat → m (Datum × Datum)} {first fuel : Nat} {params : Addr}
    (hstart : plan.start = some first) (hfirst : first < count) (hparams : S params = none)
    (hnodes : ∀ i < count, ∀ node, g[i]? = some node → ∀ l j, Members.get? node.wiring l = some j → j < count)
    (hvisit : fuel ≠ 0 → ∀ cell k, S cell = none → cell < k → n ≤ k → ∀ i < count, ∀ last w,
      Holding S k shared last w →
        Agreeing.Agrees (manners S) w (visit ⟨shared, cell⟩ i) (visit' ⟨shared, cell⟩ last i) (Visited S k shared))
    (hw : Holding S n shared last w) :
    Agreeing.Agrees (manners S) w ((Flow.plain plan : Flow m).runOnce g visit fuel ⟨shared, params⟩)
      ((Flow.plain plan : Flow m).relayOnce g visit' fuel ⟨shared, params⟩ last) fun a b _ => a = b := by
  have hplan : (Flow.plain plan : Flow m).start = some first := hstart
  refine Agreeing.bind (R := fun _ _ w' => w' = w) (Agreeing.pure rfl) ?_
  rintro _ _ w₀ rfl
  refine Agreeing.bind (R := fun a b _ => a = b) ?_ ?_
  · refine Agreeing.bind (agrees_of_heap rfl List.suffix_rfl) ?_
    rintro ms _ w₁ ⟨rfl, hms, hsame⟩
    have hw₁ := hw.of_heap hsame
    obtain rfl : w₀.heap.membersAt params = ms := Except.ok.inj hms
    rw [Flow.traverse, Flow.relayFromStart, hplan]
    -- the walk has parameters of its own, in a new cell
    have hfree : (Cell.dict (w₀.heap.membersAt params)).Free S := Cell.free_dict.2 (hw.obeys.membersAt hparams)
    have hthere : (Cell.dict (w₀.heap.membersAt params)).Free (.beyond w₁.heap.cells.size) := by
      rw [hsame]
      exact Cell.free_dict.2 (hw.closed.membersAt params)
    have hext := Heap.extends_alloc w₁.heap (.dict (w₀.heap.membersAt params))
    have hclosed := hw₁.closed.alloc hthere
    have hstep : (manners S).step w₁ { w₁ with heap := (w₁.heap.alloc (.dict (w₀.heap.membersAt params))).2 } :=
      step_of (fun h => h.alloc hfree) fun _ => ⟨hclosed, hext.size, List.suffix_rfl⟩
    refine Agreeing.bind (R := fun a b w₂ => a = b ∧ a = w₁.heap.cells.size ∧ Holding S (a + 1) shared last w₂ ∧
      S a = none) (Agreeing.perform ⟨hstep, rfl, .ok ⟨rfl, rfl, ⟨hw₁.obeys.alloc hfree, hclosed, ?_, ?_⟩, ?_⟩⟩) ?_
    · exact Nat.le_of_eq (Heap.size_alloc _ _).symm
    · exact hw₁.recalls.of_leaves (hext.leaves _)
    · exact hw₁.obeys.fresh
    rintro cell _ w₂ ⟨rfl, hcell, hw₂, hsealed⟩
    have hlater : n ≤ cell + 1 := by
      rw [hcell]
      exact Nat.le_succ_of_le hw₁.size
    exact agrees_walk hnodes fuel 0 first hfirst
      (fun hfuel => hvisit hfuel cell (cell + 1) hsealed (Nat.lt_succ_self cell) hlater) hw₂
  · rintro d _ _ rfl
    exact Agreeing.pure rfl

end

/-! ## 2. Runs -/

variable {g : Graph} {i : Nat} {scene : Scene} {node : Node} {relays : List (Option Relay)} {relay : Relay}

/-- A visit at once agrees if the conduct of its node does. -/
theorem agrees_visit (hnode : g[i]? = some node) (hrelay : relays[i]? = some (some relay))
    (hagrees : AgreesConduct S n scene last w node.conduct relay) (hblocking : node.isCooperative = false)
    (fuel : Nat) : Act.Agrees (manners S) w (g.visit (fuel + 1) scene i) (Relay.visit relays scene last i)
      (Visited S n scene.shared) := by
  rw [Node.isCooperative] at hblocking
  rw [Graph.visit, hnode, Option.map_some, Relay.visit, hrelay]
  cases hc : node.conduct with
  | blocking visit =>
    rw [hc] at hagrees
    cases relay with
    | blocking visit' => exact hagrees
    | cooperative visit' => exact hagrees.elim
  | cooperative visit =>
    rw [hc] at hblocking
    cases hblocking
  | flow each f =>
    rw [hc] at hagrees
    cases relay <;> exact hagrees.elim
  | cooperativeFlow fan f =>
    rw [hc] at hagrees
    cases relay <;> exact hagrees.elim

theorem agrees_visitWaiting (hnode : g[i]? = some node) (hrelay : relays[i]? = some (some relay))
    (hagrees : AgreesConduct S n scene last w node.conduct relay) (fuel : Nat) :
    Coop.Agrees (manners S) w (g.visitWaiting (fuel + 1) scene i) (Relay.visitWaiting relays scene last i)
      (Visited S n scene.shared) := by
  rw [Graph.visitWaiting, hnode, Option.map_some, Relay.visitWaiting, hrelay]
  cases hc : node.conduct with
  | blocking visit =>
    have hat : node.isCooperative = false := by rw [Node.isCooperative, hc]
    have hvisit := Coop.Agrees.ofAct (ρ := Datum) (agrees_visit hnode hrelay hagrees hat fuel)
    rw [hc] at hagrees
    cases relay with
    | blocking visit' => exact hvisit
    | cooperative visit' => exact hagrees.elim
  | cooperative visit =>
    rw [hc] at hagrees
    cases relay with
    | blocking visit' => exact hagrees.elim
    | cooperative visit' => exact hagrees
  | flow each f =>
    rw [hc] at hagrees
    cases relay <;> exact hagrees.elim
  | cooperativeFlow fan f =>
    rw [hc] at hagrees
    cases relay <;> exact hagrees.elim

variable {c : Compiled} {plan : FlowPlan} {params : Addr} {first : Nat} {b : Graph.Bounds} {u : World}

/-- A compiled graph runs as its nodes hand the last result on, if each of them does the same as one to which it is
handed. -/
theorem run_eq_relay (hwalks : c.Walks plan params) (hstart : plan.start = some first) (hfirst : first < c.flow)
    (hparams : S params = none) (hu : Holding S n shared last u)
    (hwiring : ∀ (i : Nat) (node : Node), c.nodes[i]? = some node → ∀ l j,
      Members.get? node.wiring l = some j → j < c.flow)
    (hconduct : ∀ cell k, S cell = none → cell < k → n ≤ k → ∀ (i : Nat) (node : Node), c.nodes[i]? = some node →
      ∃ relay, relays[i]? = some (some relay) ∧ ∀ last w, Holding S k shared last w →
        AgreesConduct S k ⟨shared, cell⟩ last w node.conduct relay) :
    c.runWithin b shared u = c.relayWithin b relays shared last u := by
  obtain ⟨flow, hflow, hown, hwalking⟩ := hwalks.flow
  have hle : c.flow ≤ c.graph.length := Nat.le_of_lt (List.getElem?_eq_some_iff.1 hflow).1
  have hnode : ∀ i < c.flow, ∃ node, c.graph[i]? = some node ∧ c.nodes[i]? = some node := by
    intro i hi
    have hget := List.getElem?_eq_getElem (Nat.lt_of_lt_of_le hi hle)
    exact ⟨_, hget, (hwalks.node hi).symm.trans hget⟩
  have hnodes : ∀ i < c.flow, ∀ node, c.graph[i]? = some node →
      ∀ l j, Members.get? node.wiring l = some j → j < c.flow := fun i hi node h =>
    hwiring i node ((hwalks.node hi).symm.trans h)
  have hplan : flow.plan? = some plan := by
    rw [Node.plan?, hwalking]
    cases c.nodes.any Node.isCooperative <;> rfl
  rw [Compiled.relayWithin, Compiled.flowNode?, hflow, Option.bind_some, hplan]
  dsimp only
  rw [hown, hwalks.isCooperative_eq]
  cases hcooperative : c.nodes.any Node.isCooperative with
  | false =>
    rw [hwalks.runWithin_blocking hcooperative, if_neg Bool.false_ne_true]
    cases b.visits with
    | zero => rfl
    | succ fuel =>
      refine (agrees_runOnce (m := Act World) hstart hfirst hparams hnodes ?_ hu).eq
      intro hfuel cell k hcell hlt hk i hi last w hw
      obtain ⟨node, hgraph, hmem⟩ := hnode i hi
      obtain ⟨relay, hrelay, hagrees⟩ := hconduct cell k hcell hlt hk i node hmem
      obtain ⟨fuel, rfl⟩ := Nat.exists_eq_succ_of_ne_zero hfuel
      refine agrees_visit hgraph hrelay (hagrees last w hw) (Bool.eq_false_iff.2 fun h => ?_) fuel
      exact Bool.false_ne_true (hcooperative.symm.trans (List.any_eq_true.2 ⟨node, List.mem_of_getElem? hmem, h⟩))
  | true =>
    rw [hwalks.runWithin_waiting hcooperative, hwalks.startWithin_eq hcooperative, Coop.run_after_pure, if_pos rfl]
    cases b.visits with
    | zero => rfl
    | succ fuel =>
      -- when the run begins others may have gone on
      refine Coop.Agrees.run (M := manners S) (fun u' hquiet => ?_) b.rounds
      refine agrees_runOnce (m := Coop World Datum) hstart hfirst hparams hnodes ?_ (hu.of_quiet hquiet)
      intro hfuel cell k hcell hlt hk i hi last w hw
      obtain ⟨node, hgraph, hmem⟩ := hnode i hi
      obtain ⟨relay, hrelay, hagrees⟩ := hconduct cell k hcell hlt hk i node hmem
      obtain ⟨fuel, rfl⟩ := Nat.exists_eq_succ_of_ne_zero hfuel
      exact agrees_visitWaiting hgraph hrelay (hagrees last w hw) fuel

end Handing

/-! ## 3. Accepted descriptions -/

namespace Compiler

open Description Handing

variable {env : Environment} {d₀ d m : Value} {h₀ kept : Heap} {own params : Addr} {nodes : List Node}
  {edges : List Edge} {start : Nat} {c : Compiled} {shared : Shared} {last : Datum} {u w w' : World}

/-- A declaration reserves the key of the last result if the description saves nothing there. -/
theorem reserves (hkept : Heap.Kept h₀ d₀ d kept) (hm : m ∈ nodesOf d)
    (hnode : IsNode Kind.names Kind.routerNames m) (hsaves : SavesBeside d) :
    (Terms.declaredOf m).Reserves (sealOf d kept) := by
  intro h hh save hsave
  rw [field_contentIn_sealed hkept hm hh hnode.isObject (Or.inr (by decide))] at hsave
  exact hsaves m hm save hsave

/-- The node that a declaration makes and the one that hands the last result on. -/
theorem relay_of_makes {i : Nat} {n : Node} (h : Makes env own i m n) :
    ∃ kind policy, Relay.ofDeclaration? env i m =
        some (Relay.ofKind env (Terms.declaredOf m) policy i env.modelWaits kind) ∧
      n.conduct = (Make.ofKind env.modelWaits kind).conduct env (Terms.declaredOf m) policy i ∧
      isRouter m = (kind == .router) := by
  obtain ⟨name, kind, policy, hname, hkind, hpolicy, rfl⟩ := h
  have hne : name ≠ "" := by
    rintro rfl
    cases hkind
  refine ⟨kind, policy, ?_, rfl, ?_⟩
  · rw [Relay.ofDeclaration?, hname, Value.name?, if_neg hne, Option.bind_some, hkind, hpolicy]
  · rw [isRouter, hname]
    dsimp only
    rw [hkind]
    rfl

/-- A compiled graph runs as its nodes hand the last result on, from what the context holds. -/
theorem run_eq_relay_of_assembles {n : Nat} (hkept : Heap.Kept h₀ d₀ d kept)
    (hwell : WellFormed Kind.names Kind.routerNames d) (henv : env.Discreet) (hglobals : env.HasGlobals h₀)
    (h : Assembles env d own params nodes edges start c) (hparams : sealOf d kept params = none)
    (hshared : sealOf d kept shared.data = none) (hsaves : SavesBeside d) (hn : kept.cells.size ≤ n)
    (hlt : shared.data < n) (hu : Holding (sealOf d kept) n shared last u) (limit : Value) (ls : List Listener)
    (b : Graph.Bounds) :
    (c.configured limit ls).runWithin b shared u = (c.configured limit ls).relayWithin b
      ((nodesOf d).mapIdx (Relay.ofDeclaration? env)) shared last u := by
  obtain ⟨name, hwalks⟩ := Compiled.walks_of_assembles h
  obtain ⟨hwalks, hlike⟩ := hwalks.configured limit ls
  have hfaithful := h.faithful (distinct_ids hwell)
  have hcount : (c.configured limit ls).flow = c.ids.length := by rw [← hwalks.size, hlike.ids]
  have hextends := hkept.extends_.size
  have hgrounded : env.Grounded n := henv.grounded fun a ha => by
    rcases hglobals with hnull | ⟨a', ms, href, hcell⟩
    · rw [hnull] at ha
      exact absurd ha List.not_mem_nil
    · rw [href] at ha
      obtain rfl := List.mem_singleton.1 ha
      exact Nat.lt_of_lt_of_le (Heap.cell?_lt hcell) (Nat.le_trans hextends hn)
  refine run_eq_relay hwalks (FlowPlan.start_configured _ _ _) (hcount ▸ h.start_lt) hparams hu
    (fun i node hnode l j hj => ?_) fun cell k hcell hcellLt hk i node hnode => ?_
  · rw [hlike.nodes] at hnode
    exact hcount ▸ hfaithful.target_lt hnode hj
  · rw [hlike.nodes] at hnode
    obtain ⟨m, n₀, hm, -, hmakes, rfl⟩ := h.node hnode
    obtain ⟨kind, policy, hrelay, hconduct, hrouter⟩ := relay_of_makes hmakes
    have hmem := List.mem_of_getElem? hm
    have hisNode := hwell.isNode m hmem
    have hhonors := honors hkept hmem hisNode
    rw [hrouter] at hhonors
    -- the declaration lies in what was kept, and all of that is there
    have hcontent : addressOf m < k := by
      refine addressOf_lt (Nat.lt_of_le_of_lt (Nat.zero_le _) hcellLt) fun a ha => Seal.beyond_eq_none.2 ?_
      have hmark := hkept.holds.mark_lt a (Value.marks_field_subset d "nodes" a (mem_marks_of_node hmem ha))
      exact Nat.lt_of_lt_of_le hmark (Nat.le_trans hn hk)
    refine ⟨Relay.ofKind env (Terms.declaredOf m) policy i env.modelWaits kind, ?_, fun last w hw => ?_⟩
    · rw [List.getElem?_mapIdx, hm, Option.map_some, hrelay]
    · have hsuits : (Terms.sealing (sealOf d kept)).SuitsAll env :=
        henv.suitsAll (fun _ => trivial) (free_globals hkept hglobals)
      have hagrees : AgreesConduct (sealOf d kept) k ⟨shared, cell⟩ last w
          ((Make.ofKind env.modelWaits kind).conduct env (Terms.declaredOf m) policy i)
          (Relay.ofKind env (Terms.declaredOf m) policy i env.modelWaits kind) := agrees_ofKind hsuits
        (hgrounded.later hk) hhonors (reserves hkept hmem hisNode hsaves)
        (Datum.free_ref.2 (Seal.beyond_eq_none.2 hcontent)) ⟨hshared, hcell⟩
        ⟨Seal.beyond_eq_none.2 (Nat.lt_of_lt_of_le hlt hk), Seal.beyond_eq_none.2 hcellLt⟩ hw env.modelWaits
      rw [← hconduct] at hagrees
      exact hagrees

/-- **Templates see the last result.** A description that the checker accepts, and that saves nothing at a path with
the key of the last result among its segments, is compiled, and in every session with the graph it makes no
difference if the last result is looked up in the shared context, as it is, or if each visit is handed it by the
visit before: the result of its work by a visit that worked, and what it was handed itself by one whose guard has
tripped or that of a router. The first one is handed what the context holds. All else is the same: the label or the
failure in the end, the memory, and all that can be seen on the way. -/
theorem run_eq_relay_of_accepted {env : Environment} {d : Value} {w : World} (hjson : d.IsJson)
    (haccepted : (ofEnvironment env).problems d = .ok []) (hsaves : SavesBeside d) (hclosed : w.heap.Closed)
    (hglobals : env.HasGlobals w.heap) (henv : env.Discreet) :
    ∃ c w', (ofEnvironment env).compile d w = (.ok c, w') ∧
      ∀ u, Session c w w' u → u.heap.Closed → w'.heap.cells.size ≤ u.heap.cells.size →
        ∀ limit ls b (shared : Shared), Outside w w' shared.data → shared.data < u.heap.cells.size →
          (c.configured limit ls).runWithin b shared u = (c.configured limit ls).relayWithin b
            (Relay.ofDescription env d w) shared (shared.lastResult u.heap) u := by
  obtain ⟨d', kept, common, nodes, edges, start, c, hheap, hview, hkept, hwell, hcommon, h, hcompile⟩ :=
    compile_ok_view hjson haccepted hglobals
  refine ⟨c, _, hcompile, fun u hu huclosed hlater limit ls b shared hshared hlt => ?_⟩
  have hinv := inv_of_compiled hkept hwell henv hclosed hglobals hcommon h hu
  have hsize : kept.cells.size ≤
      ((kept.alloc (.dict [])).2.alloc (.dict (paramsFor common kept d'))).2.cells.size :=
    ((Heap.extends_alloc kept _).trans (Heap.extends_alloc _ _)).size
  have hsaves' : SavesBeside d' := by
    rw [← savesBeside_fresh, hkept.fresh]
    exact hsaves
  have hholding : Holding (sealOf d' kept) u.heap.cells.size shared (shared.lastResult u.heap) u :=
    ⟨hinv.1, huclosed, Nat.le_refl _, hlt, rfl⟩
  have hrelays : Relay.ofDescription env d w = (nodesOf d').mapIdx (Relay.ofDeclaration? env) := by
    rw [Relay.ofDescription, hview, hheap]
  rw [hrelays]
  exact run_eq_relay_of_assembles hkept hwell henv hglobals h (sealOf_params hkept)
    (sealOf_of_outside hkept rfl hsize hshared) hsaves' (Nat.le_trans hsize hlater) hlt hholding limit ls b

/-! ## 4. A pair of nodes -/

/-- A node hands data on and saves something under one key; the next one asks a model for what templates see as the
last result. -/
def askingPair (saves : List Value) : Value :=
  .ofMembers [("version", .str "pf-js/1.0"), ("entry", .str "a"),
    ("nodes", .ofList [
      .ofMembers [("id", .str "a"), ("kind", .str "static-data"), ("exec", .ofMembers [("x", .int 1)]),
        ("post", .ofMembers [("outputs", .ofMembers [("save", .ofList saves)])])],
      .ofMembers [("id", .str "b"), ("kind", .str "llm-call"),
        ("exec", .ofMembers [("prompt", .str "\x7b\x7bresult\x7d\x7d"), ("model", .str "m")])]]),
    ("edges", .ofList [.ofMembers [("from", .str "a"), ("to", .str "b")]])]

/-- An output under a path. -/
def saveAt (path : String) (value : Value) : Value := .ofMembers [("path", .str path), ("value", value)]

/-- A model that says what it is asked. -/
def parrot : Model where
  line := .model
  calling := .direct
  turns _ := 0
  answer _ prompt _ := .ok (.value prompt)

/-- An environment with nothing but that model. -/
def parroting : Environment := { Environment.bare with model := some parrot }

/-- An output that is saved below the key of another. -/
def tidySaves : List Value := [saveAt "kept.text" (.str "oops"), saveAt "kept" (.int 0)]

theorem isJson_tidySaves : (askingPair tidySaves).IsJson := by
  simp [askingPair, tidySaves, saveAt, Value.IsJson.str, Value.IsJson.int]

set_option maxRecDepth 10000 in
theorem problems_tidySaves (env : Environment) : (ofEnvironment env).problems (askingPair tidySaves) = .ok [] := by rfl

theorem savesBeside_tidySaves : SavesBeside (askingPair tidySaves) := by
  intro m hm save hsave path hpath
  have hsaves : save ∈ (nodesOf (askingPair tidySaves)).flatMap savesOf := List.mem_flatMap.2 ⟨m, hm, hsave⟩
  rcases List.mem_cons.1 hsaves with rfl | hsaves
  · obtain rfl : "kept.text" = path := Value.str.inj hpath
    decide
  · obtain rfl := List.mem_singleton.1 hsaves
    obtain rfl : "kept" = path := Value.str.inj hpath
    decide

/-- A new context. -/
def freshContext (w : World) : Shared × World :=
  (⟨w.heap.cells.size, none⟩, { w with heap := (w.heap.alloc (.dict [])).2 })

theorem discreet_parroting : parroting.Discreet where
  model m hm n prompt name reply hreply a ha := by
    obtain rfl := Option.some.inj hm
    obtain rfl := Except.ok.inj hreply
    exact Or.inl ha
  http _ h := by cases h
  session _ h := by cases h
  ownSession _ h := by cases h

/-- In a new context the pair runs as its nodes hand the last result on, and at first there is none. -/
theorem run_eq_relay_of_accepted_tidySaves : ∃ c w',
    (ofEnvironment parroting).compile (askingPair tidySaves) .blank = (.ok c, w') ∧ ∀ limit ls b,
      (c.configured limit ls).runWithin b (freshContext w').1 (freshContext w').2 =
        (c.configured limit ls).relayWithin b (Relay.ofDescription parroting (askingPair tidySaves) .blank)
          (freshContext w').1 .null (freshContext w').2 := by
  have hblank : World.blank.heap.Closed := fun a cell h => by cases h
  have hcompiled : ((ofEnvironment parroting).compile (askingPair tidySaves) .blank).2.heap.Closed :=
    closed_compile _ hblank (isJson_tidySaves.free _) Datum.free_null
  obtain ⟨c, w', hcompile, hruns⟩ := run_eq_relay_of_accepted isJson_tidySaves (problems_tidySaves parroting)
    savesBeside_tidySaves hblank (Or.inl rfl) discreet_parroting
  rw [hcompile] at hcompiled
  have hsession : Session c .blank w' (freshContext w').2 := .create .start fun _ h => absurd h List.not_mem_nil
  have hsize : w'.heap.cells.size < (freshContext w').2.heap.cells.size := by
    rw [freshContext, Heap.size_alloc]
    exact Nat.lt_succ_self _
  have hnone : (freshContext w').1.lastResult (freshContext w').2.heap = .null := by
    rw [Shared.lastResult, freshContext, Shared.get?_new]
    rfl
  refine ⟨c, w', hcompile, fun limit ls b => ?_⟩
  have hrun := hruns _ hsession (hcompiled.alloc Cell.free_empty) (Nat.le_of_lt hsize) limit ls b (freshContext w').1
    (Or.inr (Nat.le_refl _)) hsize
  rwa [hnone] at hrun

/-- Outputs that change the last result: the context is saved under a key of its own, and below that key the key of
the last result is reached. -/
def aliasSaves : List Value :=
  [saveAt "self" (.str "\x7b\x7bctx\x7d\x7d"), saveAt "self._last_result" (.str "oops"), saveAt "self" (.int 0)]

/-- The prompts that a model has been called with, the last one first. -/
def promptsOf (w : World) : List String :=
  w.journal.filterMap fun
    | .modelCall prompt _ => some prompt.plain
    | _ => none

/-- The prompts of the pair in a new context, as it is run and as it is to be run. -/
def promptsOfPair (saves : List Value) : Option (List String × List String) :=
  match (ofEnvironment parroting).compile (askingPair saves) .blank with
  | (.ok c, w) =>
    let relays := Relay.ofDescription parroting (askingPair saves) .blank
    some (promptsOf (c.runWithin ⟨5, 5⟩ (freshContext w).1 (freshContext w).2).2,
      promptsOf (c.relayWithin ⟨5, 5⟩ relays (freshContext w).1 .null (freshContext w).2).2)
  | (.error _, _) => none

theorem promptsOfPair_aliasSaves : promptsOfPair aliasSaves = some (["oops"], ["\x7b\"x\": 1\x7d"]) := by
  decide +kernel

set_option maxRecDepth 10000 in
/-- It is not enough that no path is the key of the last result or begins with it: one that leads into the context
itself changes the last result, and the next prompt is filled with what has been saved there. -/
theorem run_ne_relay_aliasSaves : (ofEnvironment parroting).problems (askingPair aliasSaves) = .ok [] ∧
    (∀ m ∈ nodesOf (askingPair aliasSaves), ∀ save ∈ savesOf m, ∀ path, save.field "path" = .str path →
      path ≠ Declared.lastResultKey ∧ ¬ (Declared.lastResultKey ++ ".").toList <+: path.toList) ∧
    ∃ c w', (ofEnvironment parroting).compile (askingPair aliasSaves) .blank = (.ok c, w') ∧
      c.runWithin ⟨5, 5⟩ (freshContext w').1 (freshContext w').2 ≠ c.relayWithin ⟨5, 5⟩
        (Relay.ofDescription parroting (askingPair aliasSaves) .blank) (freshContext w').1 .null (freshContext w').2 := by
  refine ⟨rfl, fun m hm save hsave path hpath => ?_, ?_⟩
  · have hsaves : save ∈ (nodesOf (askingPair aliasSaves)).flatMap savesOf := List.mem_flatMap.2 ⟨m, hm, hsave⟩
    have hpaths : path ∈ ["self", "self._last_result", "self"] := by
      rcases List.mem_cons.1 hsaves with rfl | hsaves
      · exact List.mem_cons.2 (Or.inl (Value.str.inj hpath).symm)
      rcases List.mem_cons.1 hsaves with rfl | hsaves
      · exact List.mem_cons_of_mem _ (List.mem_cons.2 (Or.inl (Value.str.inj hpath).symm))
      · obtain rfl := List.mem_singleton.1 hsaves
        exact List.mem_cons.2 (Or.inl (Value.str.inj hpath).symm)
    have hall : ∀ path ∈ ["self", "self._last_result", "self"], path ≠ Declared.lastResultKey ∧
        ¬ (Declared.lastResultKey ++ ".").toList <+: path.toList := by decide
    exact hall path hpaths
  · have hprompts := promptsOfPair_aliasSaves
    dsimp only [promptsOfPair] at hprompts
    rcases hcompile : (ofEnvironment parroting).compile (askingPair aliasSaves) .blank with ⟨r, w'⟩
    rw [hcompile] at hprompts
    cases r with
    | error e => cases hprompts
    | ok c =>
      refine ⟨c, w', rfl, fun hsame => ?_⟩
      obtain ⟨hrun, hrelay⟩ := Prod.mk.inj (Option.some.inj hprompts)
      rw [hsame, hrelay] at hrun
      exact absurd hrun (by decide)

end Compiler

end NodeFlow
