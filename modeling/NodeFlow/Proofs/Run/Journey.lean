import NodeFlow.Proofs.Run.Logic
import NodeFlow.Run.Graph
/-!
# Journeys

A walk goes through moments: it is before a node, within a visit, at its end, behind it with its label, and
at last at an end of its own. A journey says what may be known of the mark at each of them, after so many
visits. If every step that a walk can take leads from one moment to the next as the journey has it, the
whole walk does, however long it is.

Nothing here depends on what a regime is about. What a regime has to say is how its mark changes when the
listeners are told of something, and what a visit makes of it.
-/

set_option autoImplicit false

universe u

namespace NodeFlow

/-- A world in which nothing has happened yet. -/
def World.blank : World := ⟨.empty, .ofLimit none, #[], .none, []⟩

/-- A flow that does nothing but walk. -/
def Flow.plain {m : Type → Type u} [Performs World m] (plan : FlowPlan) : Flow m :=
  { plan with prep := fun _ => pure .null, post := fun _ _ r => pure r }

/-- All that a plain flow takes from its scene besides the shared context is what the parameters hold. -/
theorem Flow.plain_runOnce (g : Graph) (plan : FlowPlan) (visit : Scene → Nat → Act World Datum)
    (fuel : Nat) (scene : Scene) (w : World) :
    (plain plan : Flow (Act World)).runOnce g visit fuel scene w =
      (plain plan : Flow (Act World)).traverse g scene.shared visit fuel
        (w.heap.membersAt scene.params) w := by
  change Act.bind (traverse (m := Act World) g (plain plan) scene.shared visit fuel
    (w.heap.membersAt scene.params)) Act.pure w = _
  rw [Act.bind]
  split
  · next d w' h => rw [h]; rfl
  · next e w' h => rw [h]

/-- What may be known of the mark at the moments of a walk, when so many nodes have run: before a node,
within a visit of it, when the visit has ended with a label or a failure, behind it with the label and the
value that the label shows, and when the walk has ended. -/
structure Journey (τ : Type) where
  before : Nat → Nat → Option τ → Prop
  within : Nat → Nat → Option τ → Prop
  visited : Nat → Nat → Except Failure Datum → Option τ → Prop
  behind : Nat → Nat → Datum → Value → Option τ → Prop
  ends : Except Failure Datum → Option τ → Prop

namespace Regime

variable {m : Type → Type u} [Performs World m] [Reasoned World Datum m] {τ : Type}
  {R : Regime World Datum τ} {α β : Type}

/-- Telling the listeners of a plan leads from what is known to something known. -/
def Tells (R : Regime World Datum τ) (plan : FlowPlan) (known : Option τ) (call : HookCall)
    (K : Option τ → Prop) : Prop :=
  Act.Meets R known ((Flow.plain plan : Flow (Act World)).tell call) fun r k => r = .ok () ∧ K k

/-- The steps of a walk under a plan, in a scene that is `Good`, lead from each moment of a journey to the
next. Before a node a walk may be at its limit, and behind a visit it is lost if the label cannot be looked
up. The context that is told at the end of a visit is as it is in a world that is possible then. -/
structure Travels (R : Regime World Datum τ) (g : Graph) (plan : FlowPlan) (n : Nat) (Good : Scene → Prop)
    (J : Journey τ) : Prop where
  enters : ∀ step, ∀ i < n, ∀ node, g[i]? = some node → ∀ k, J.before step i k →
    R.Tells plan k (.nodeStart node.name) (J.within step i)
  fails : ∀ step, ∀ i < n, ∀ node, g[i]? = some node → ∀ k e, J.visited step i (.error e) k →
    R.Tells plan k (.nodeError node.name e) (J.ends (.error e))
  leaves : ∀ step, ∀ i < n, ∀ node, g[i]? = some node → ∀ k d (h : Heap) scene w, Good scene →
    R.Admits k w → J.visited step i (.ok d) k →
    R.Tells plan k (.nodeEnd node.name (h.view d) (scene.shared.view w.heap)) (J.behind step i d (h.view d))
  follows : ∀ step, ∀ i < n, ∀ node, g[i]? = some node → ∀ k d shown j, J.behind step i d shown k →
    node.next? shown = .ok (some j) → j < n ∧ J.before (step + 1) j k
  stops : ∀ step, ∀ i < n, ∀ node, g[i]? = some node → ∀ k d shown, J.behind step i d shown k →
    node.next? shown = .ok none → R.Tells plan k (.flowEnd (step + 1)) (J.ends (.ok d))
  lost : ∀ step, ∀ i < n, ∀ node, g[i]? = some node → ∀ k d shown f, J.behind step i d shown k →
    node.next? shown = .error f → J.ends (.error (.fault f)) k
  limited : ∀ step, ∀ i < n, ∀ k e, J.before step i k → plan.limit ≠ .null →
    (∃ f, e = .fault f) ∨ e = .tooManySteps plan.limit → J.ends (.error e) k
  notes : ∀ (node : Node) shown k, Act.Meets R k (World.note (node.endNote shown)) fun r k' =>
    r = .ok () ∧ k' = k

/-! ## 1. Steps that change nothing -/

theorem meets_reads (f : World → α) (known : Option τ) :
    Act.Meets R known (Act.reads f) fun r k => k = known ∧ ∃ w, R.Admits known w ∧ r = .ok (f w) :=
  fun w hw => ⟨hw.refl, hw.after_eq, w, hw, rfl⟩

/-- After something has been read everything that was known is known. -/
theorem meets_reads_then {known : Option τ} (f : World → α) {next : α → m β}
    {E : Except Failure β → Option τ → Prop}
    (hnext : ∀ w, R.Admits known w → Reasoned.Meets R known (next (f w)) E) :
    Reasoned.Meets R known ((Performs.perform (Act.reads f) : m α) >>= next) E := by
  refine Reasoned.bind (Reasoned.perform (meets_reads f known)) ?_ ?_
  · rintro a k ⟨rfl, w, hw, ha⟩
    exact Except.ok.inj ha ▸ hnext w hw
  · rintro e k ⟨-, w, -, he⟩
    cases he

/-- After a call has been told. -/
theorem Tells.then {f : Flow m} {known : Option τ} {call : HookCall} {K : Option τ → Prop} {next : m β}
    {E : Except Failure β → Option τ → Prop} (h : R.Tells f.toFlowPlan known call K)
    (hnext : ∀ k, K k → Reasoned.Meets R k next E) :
    Reasoned.Meets R known ((Performs.perform (f.tell call) : m Unit) >>= fun _ => next) E :=
  Reasoned.bind (Reasoned.perform h) (fun _ k hk => hnext k hk.2) fun _ _ hk => absurd hk.1 nofun

omit [Performs World m] [Reasoned World Datum m] in
/-- Only a limit ends a walk before a node. -/
theorem meets_checkSteps (f : Flow m) (step : Nat) (known : Option τ) :
    (f.checkSteps step).Meets R known fun r k => k = known ∧ ∀ e, r = .error e →
      f.limit ≠ .null ∧ ((∃ x, e = .fault x) ∨ e = .tooManySteps f.limit) := by
  rw [Flow.checkSteps]
  split
  · exact .pure ⟨rfl, nofun⟩
  · next hlimit =>
    -- comparing with the limit fails, or says that it is reached, or that it is not
    have hcompare : (Act.ofFault (Value.ordered .ge (.int step) f.limit) : Act World Bool).Meets R known
        fun r k => k = known ∧ ∀ e, r = .error e → ∃ x, e = .fault x := by
      refine fun w hw => ⟨hw.refl, hw.after_eq, fun e he => ?_⟩
      rw [Act.ofFault] at he
      cases hv : Value.ordered .ge (.int step) f.limit with
      | error x =>
        rw [hv] at he
        exact ⟨x, (Except.error.inj he).symm⟩
      | ok b =>
        rw [hv] at he
        cases he
    refine Act.Meets.bind hcompare (fun beyond k h => ?_) fun e k h => ⟨h.1, ?_⟩
    · obtain ⟨rfl, -⟩ := h
      split
      · exact .fail ⟨rfl, fun e he => ⟨hlimit, Or.inr (Except.error.inj he).symm⟩⟩
      · exact .pure ⟨rfl, nofun⟩
    · intro e' he
      obtain rfl := Except.error.inj he
      exact ⟨hlimit, Or.inl (h.2 e rfl)⟩

omit [Performs World m] [Reasoned World Datum m] in
/-- What follows a node is what its edges say. -/
theorem meets_follow {node : Node} {shown : Value} {known : Option τ}
    (hnote : Act.Meets R known (World.note (node.endNote shown)) fun r k => r = .ok () ∧ k = known) :
    (node.follow shown).Meets R known fun r k =>
      k = known ∧ r = (node.next? shown).mapError Failure.fault := by
  have hlookup : (Act.ofFault (node.next? shown) : Act World _).Meets R known fun r k =>
      k = known ∧ r = (node.next? shown).mapError Failure.fault :=
    fun _ hw => ⟨hw.refl, hw.after_eq, rfl⟩
  refine Act.Meets.bind hlookup (fun o k h => ?_) fun e k h => h
  obtain ⟨rfl, ho⟩ := h
  cases o with
  | some j => exact .pure ⟨rfl, ho⟩
  | none =>
    dsimp only
    split
    · refine Act.Meets.bind hnote (fun _ k' h => ?_) fun e k' h => absurd h.1 nofun
      exact .pure ⟨h.2, ho⟩
    · exact .pure ⟨rfl, ho⟩

/-! ## 2. A visit and what follows it -/

variable {g : Graph} {f : Flow m} {n : Nat} {Good : Scene → Prop} {J : Journey τ} {step i : Nat}
  {node : Node} {k : Option τ} {scene : Scene}

/-- A visit that fails is told, and the walk is over. -/
theorem Travels.visited (hJ : R.Travels g f.toFlowPlan n Good J) (hi : i < n) (hnode : g[i]? = some node)
    {visit : m Datum} (hvisit : Reasoned.Meets R k visit (J.visited step i)) :
    Reasoned.Meets R k
      (tryCatch visit fun e => do
        Performs.perform (f.tell (.nodeError node.name e))
        throw e)
      fun r k' => (∃ d, r = .ok d ∧ J.visited step i (.ok d) k') ∨
        ∃ e, r = .error e ∧ J.ends (.error e) k' := by
  refine Reasoned.tryCatch hvisit (fun d k' h => Or.inl ⟨d, rfl, h⟩) fun e k' h => ?_
  exact (hJ.fails step i hi node hnode k' e h).then fun k'' hends =>
    Reasoned.throw (Or.inr ⟨e, rfl, hends⟩)

/-- A visit has ended with a label, and that is told with the value that the label shows. -/
theorem Travels.left (hJ : R.Travels g f.toFlowPlan n Good J) (hi : i < n) (hnode : g[i]? = some node)
    (hgood : Good scene) {d : Datum} (hvisited : J.visited step i (.ok d) k) {next : Value → m Datum}
    (hnext : ∀ shown k', J.behind step i d shown k' → Reasoned.Meets R k' (next shown) J.ends) :
    Reasoned.Meets R k
      (do
        let shown ← Performs.perform (World.view d)
        let context ← Performs.perform (Act.reads fun (w : World) => scene.shared.view w.heap)
        Performs.perform (f.tell (.nodeEnd node.name shown context))
        next shown)
      J.ends := by
  refine meets_reads_then (fun w : World => w.heap.view d) fun w _ => ?_
  refine meets_reads_then (fun w : World => scene.shared.view w.heap) fun w' hw' => ?_
  refine (hJ.leaves step i hi node hnode k d w.heap scene w' hgood hw' hvisited).then ?_
  intro k' hbehind
  exact hnext _ k' hbehind

/-- The edge of a label is followed. -/
theorem Travels.followed (hJ : R.Travels g f.toFlowPlan n Good J) (hi : i < n) (hnode : g[i]? = some node)
    {d : Datum} {shown : Value} (hbehind : J.behind step i d shown k) {next : Option Nat → m Datum}
    (hsome : ∀ j < n, J.before (step + 1) j k → Reasoned.Meets R k (next (some j)) J.ends)
    (hnone : node.next? shown = .ok none → Reasoned.Meets R k (next none) J.ends) :
    Reasoned.Meets R k (Performs.perform (node.follow shown) >>= next) J.ends := by
  refine Reasoned.bind (Reasoned.perform (meets_follow (hJ.notes node shown k))) ?_ ?_
  · rintro o k' ⟨rfl, ho⟩
    cases hlookup : node.next? shown with
    | error f =>
      rw [hlookup] at ho
      cases ho
    | ok o' =>
      rw [hlookup] at ho
      obtain rfl : o = o' := Except.ok.inj ho
      cases o with
      | some j =>
        obtain ⟨hj, hbefore⟩ := hJ.follows step i hi node hnode k' d shown j hbehind hlookup
        exact hsome j hj hbefore
      | none => exact hnone hlookup
  · rintro e k' ⟨rfl, he⟩
    cases hlookup : node.next? shown with
    | ok o =>
      rw [hlookup] at he
      cases he
    | error f =>
      rw [hlookup] at he
      obtain rfl : e = .fault f := Except.error.inj he
      exact hJ.lost step i hi node hnode k' d shown f hbehind hlookup

/-! ## 3. Walks -/

/-- The walk from a node on is as the journey has it, if visits are and if the journey says how it ends
when no visit is left: induction on the visits that are left. -/
theorem Travels.walk (hJ : R.Travels g f.toFlowPlan n Good J) (hn : n ≤ g.length) (hgood : Good scene)
    {visit : Nat → m Datum} {total : Nat}
    (hvisit : ∀ step < total, ∀ i < n, ∀ k, J.within step i k →
      Reasoned.Meets R k (visit i) (J.visited step i))
    (hout : ∀ i k, J.before total i k → J.ends (.error .exhausted) k) (fuel : Nat)
    (hfuel : step + fuel = total) (hi : i < n) {known : Option τ} (hbefore : J.before step i known) :
    Reasoned.Meets R known (f.walk g scene.shared visit fuel step i) J.ends := by
  induction fuel generalizing step i known with
  | zero =>
    obtain rfl : step = total := hfuel
    exact Reasoned.throw (hout i known hbefore)
  | succ fuel ih =>
    have hnode := List.getElem?_eq_getElem (Nat.lt_of_lt_of_le hi hn)
    rw [Flow.walk, hnode]
    dsimp only
    refine Reasoned.bind (Reasoned.perform (meets_checkSteps f step known)) ?_ ?_
    · rintro - k ⟨rfl, -⟩
      refine (hJ.enters step i hi _ hnode k hbefore).then ?_
      intro k' hwithin
      have hlt : step < total := hfuel ▸ Nat.lt_add_of_pos_right (Nat.succ_pos fuel)
      refine Reasoned.bind (hJ.visited hi hnode (hvisit step hlt i hi k' hwithin)) ?_ ?_
      · rintro d k'' (⟨d', hd', hvisited⟩ | ⟨e, he, -⟩)
        · -- the visit has ended with a label
          obtain rfl := Except.ok.inj hd'
          refine hJ.left hi hnode hgood hvisited ?_
          intro shown k hbehind
          refine hJ.followed hi hnode hbehind ?_ ?_
          · intro j hj hbefore
            exact ih (by rw [← hfuel, Nat.add_assoc, Nat.add_comm 1]) hj hbefore
          · intro hlookup
            refine (hJ.stops step i hi _ hnode k d shown hbehind hlookup).then ?_
            intro k hends
            exact Reasoned.pure hends
        · cases he
      · -- the visit has failed, and so does the walk
        rintro e k'' (⟨d, hd, -⟩ | ⟨e', he', hends⟩)
        · cases hd
        · exact Except.error.inj he' ▸ hends
    · -- the walk is at its limit
      rintro e k ⟨rfl, he⟩
      obtain ⟨hlimit, hcause⟩ := he e rfl
      exact hJ.limited step i hi k e hbefore hlimit hcause

/-- New parameters for a walk may be taken into use in every scene that is `Good`, and the scene with them
is again. -/
def Hosts (R : Regime World Datum τ) (Good : Scene → Prop) : Prop :=
  ∀ scene, Good scene → ∀ w, R.inv w →
    Act.Meets R none (Act.update fun u : World =>
      let r := u.heap.alloc (.dict (w.heap.membersAt scene.params))
      (r.1, { u with heap := r.2 })) fun r _ => ∃ cell, r = .ok cell ∧ Good ⟨scene.shared, cell⟩

/-- A plain flow walks from its start. -/
theorem Travels.runOnce {plan : FlowPlan} (hJ : R.Travels g plan n Good J) (hn : n ≤ g.length)
    (hhosts : R.Hosts Good) {first : Nat} (hstart : plan.start = some first) (hfirst : first < n)
    (hgood : Good scene) {visit : Scene → Nat → m Datum} {fuel : Nat}
    (hvisit : ∀ s, Good s → ∀ step < fuel, ∀ i < n, ∀ k, J.within step i k →
      Reasoned.Meets R k (visit s i) (J.visited step i))
    (hout : ∀ i k, J.before fuel i k → J.ends (.error .exhausted) k) {known : Option τ}
    (hbefore : J.before 0 first known) :
    Reasoned.Meets R known ((Flow.plain plan).runOnce g visit fuel scene) J.ends := by
  refine Reasoned.bind (P := fun r k => k = known ∧ r = .ok .null) (Reasoned.pure ⟨rfl, rfl⟩) ?_
    fun e k h => absurd h.2 nofun
  rintro - k ⟨rfl, -⟩
  refine Reasoned.bind (P := J.ends) ?_ (fun d k h => Reasoned.pure h) fun e k h => h
  refine meets_reads_then (fun w : World => w.heap.membersAt scene.params) fun w hw => ?_
  have hplan : (Flow.plain plan : Flow m).start = some first := hstart
  rw [Flow.traverse, hplan]
  refine Reasoned.bind (Reasoned.perform ((hhosts scene hgood w hw.inv).frame k)) ?_ ?_
  · rintro cell k' ⟨rfl, cell', hcell, hgood'⟩
    obtain rfl := Except.ok.inj hcell
    exact Travels.walk (f := Flow.plain plan) hJ hn hgood' (hvisit _ hgood') hout fuel
      (Nat.zero_add fuel) hfirst hbefore
  · rintro e k' ⟨-, cell, he, -⟩
    cases he

end Regime

end NodeFlow
