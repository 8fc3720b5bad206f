import NodeFlow.Proofs.Run.Bounds
import NodeFlow.Proofs.Run.Edges
import NodeFlow.Proofs.Run.Listening
import NodeFlow.Proofs.Run.Walk
/-!
# Paths

A walk is the path that its labels select. From the first node on each visit ends with a label, and the label
selects the next node; the path ends where a visit fails or where a node stops under its label. A limit
changes nothing about the path but cuts it off.

A path says what each visit does to the world and what the listeners of the flow are told between visits, so
it says all there is to say of a walk. What it leaves open is what a visit does, which is whatever the visit
comes to, for a node that works itself and for one that walks others alike.
-/

set_option autoImplicit false

namespace NodeFlow

/-! ## 1. What a path is -/

/-- A world in which the listeners of a plan have been told of a call. -/
def FlowPlan.told (p : FlowPlan) (call : HookCall) (w : World) : World :=
  { w with journal :=
      ((Terms.audience p call).map fun l => Event.told l.2.tag call).reverse ++ w.journal }

/-- A world in which it has been noted that a walk ends at a node, if the node leads elsewhere. -/
def Node.noted (n : Node) (shown : Value) (w : World) : World :=
  if n.wiring.isEmpty then w else (World.note (n.endNote shown) w).2

/-- A visit that has ended: of which node, with which label, what the label shows, and the shared context as
it was then. -/
structure Visited : Type 1 where
  node : Node
  label : Datum
  shown : Value
  context : Value

namespace Graph

variable (g : Graph) (p : FlowPlan) (scene : Scene)

/-- From one world to the next by a visit: it is told that the node starts, the node is visited, and it is
told that it has ended. -/
structure Leg (i : Nat) (w : World) (v : Visited) (w' : World) : Prop where
  node : g[i]? = some v.node
  visit : ∃ s, g.Visits scene i (p.told (.nodeStart v.node.name) w) (.ok v.label) s ∧
    v.shown = s.heap.view v.label ∧ v.context = scene.shared.view s.heap ∧
    w' = p.told (.nodeEnd v.node.name v.shown v.context) s

/-- A path from a node: after some visits it stands before a node in a world. -/
inductive Path (first : Nat) (w : World) : List Visited → Nat → World → Prop
  | start : Path first w [] first w
  | follows {vs : List Visited} {i j : Nat} {v : Visited} {w₁ w₂ : World} : Path first w vs i w₁ →
    Leg g p scene i w₁ v w₂ → v.node.Selects v.shown j → Path first w (vs ++ [v]) j w₂

/-- A limit allows one more visit after so many. -/
def Allows (limit : Option Int) (visits : Nat) : Prop := ∀ k ∈ limit, (visits : Int) < k

/-- How a walk along a path ends: at a node that stops, in a visit that fails, at the limit, or behind a visit
with something that is no label. `vs` are the visits that have ended then, and `last` is what the listeners
are told after them. -/
inductive Walked (limit : Option Int) (first : Nat) (w : World) :
    List Visited → List HookCall → Except Failure Datum → World → Prop
  | ended {vs : List Visited} {i : Nat} {v : Visited} {w₁ w₂ : World} : Path g p scene first w vs i w₁ →
    Allows limit vs.length → Leg g p scene i w₁ v w₂ → v.node.Stops v.shown →
    Walked limit first w (vs ++ [v]) [.flowEnd (vs.length + 1)] (.ok v.label)
      (p.told (.flowEnd (vs.length + 1)) (v.node.noted v.shown w₂))
  | failed {vs : List Visited} {i : Nat} {n : Node} {e : Failure} {w₁ s : World} :
    Path g p scene first w vs i w₁ → Allows limit vs.length → g[i]? = some n →
    g.Visits scene i (p.told (.nodeStart n.name) w₁) (.error e) s →
    Walked limit first w vs [.nodeStart n.name, .nodeError n.name e] (.error e)
      (p.told (.nodeError n.name e) s)
  | limited {vs : List Visited} {i : Nat} {n : Node} {k : Int} {w₁ : World} :
    Path g p scene first w vs i w₁ → g[i]? = some n → limit = some k → vs.length = k.toNat →
    Walked limit first w vs [] (.error (.tooManySteps (.int k))) w₁
  | lost {vs : List Visited} {i : Nat} {v : Visited} {w₁ w₂ : World} : Path g p scene first w vs i w₁ →
    Allows limit vs.length → Leg g p scene i w₁ v w₂ → ¬ v.shown.CanLabel →
    Walked limit first w (vs ++ [v]) [] (.error (.fault .type)) w₂

end Graph

/-- A limit as it stands in a plan. -/
def limitValue : Option Int → Value
  | none => .null
  | some k => .int k

/-! ## 2. One step of a walk -/

section

variable {g : Graph} {f : Flow (Act World)} {shared : Shared} {visit : Nat → Act World Datum}
  {fuel step i : Nat} {node : Node} {limit : Option Int} {w s : World} {d : Datum} {e : Failure}

theorem Flow.tell_eq (f : Flow (Act World)) (call : HookCall) (w : World) :
    f.tell call w = (.ok (), f.told call w) := by
  rw [tell_eq_modify]
  rfl

theorem ordered_ge_int (m n : Int) : Value.ordered .ge (.int m) (.int n) = .ok (decide (n ≤ m)) := by
  have hcompare : (compare m n != .lt) = decide (n ≤ m) := by
    rw [bne, beq_eq_decide, decide_eq_decide.2 Int.compare_eq_lt, ← decide_not,
      decide_eq_decide.2 Int.not_lt]
  rw [← hcompare]
  rfl

theorem Flow.checkSteps_of_allows (hlimit : f.limit = limitValue limit) (h : Graph.Allows limit step) :
    f.checkSteps step w = (.ok (), w) := by
  rw [checkSteps, hlimit]
  cases limit with
  | none => rfl
  | some k =>
    have hlt : ¬ k ≤ (step : Int) := Int.not_le.2 (h k rfl)
    simp only [limitValue, ordered_ge_int, decide_eq_false hlt]
    rfl

theorem Flow.checkSteps_of_limit {k : Int} (hlimit : f.limit = .int k) (h : k ≤ step) :
    f.checkSteps step w = (.error (.tooManySteps (.int k)), w) := by
  rw [checkSteps, hlimit]
  simp only [ordered_ge_int, decide_eq_true h]
  rfl

/-- At its limit a walk ends before it visits the node. -/
theorem Flow.walk_of_limit {k : Int} (hnode : g[i]? = some node) (hlimit : f.limit = .int k)
    (h : k ≤ step) :
    f.walk g shared visit (fuel + 1) step i w = (.error (.tooManySteps (.int k)), w) := by
  rw [walk, hnode]
  exact Act.bind_error (checkSteps_of_limit hlimit h) _

/-- A visit that fails is told, and the walk fails with it. -/
theorem Flow.walk_of_error (hnode : g[i]? = some node) (hlimit : f.limit = limitValue limit)
    (h : Graph.Allows limit step)
    (hvisit : visit i (f.told (.nodeStart node.name) w) = (.error e, s)) :
    f.walk g shared visit (fuel + 1) step i w = (.error e, f.told (.nodeError node.name e) s) := by
  rw [walk, hnode]
  refine (Act.bind_ok (checkSteps_of_allows hlimit h) _).trans ?_
  refine (Act.bind_ok (f.tell_eq (.nodeStart node.name) w) _).trans (Act.bind_error ?_ _)
  refine (Act.tryCatch_error hvisit _).trans ?_
  exact Act.bind_ok (f.tell_eq (.nodeError node.name e) s) _

theorem Node.follow_eq (n : Node) (shown : Value) (w : World) :
    n.follow shown w =
      match n.next? shown with
      | .error x => (.error (.fault x), w)
      | .ok (some j) => (.ok (some j), w)
      | .ok none => (.ok none, n.noted shown w) := by
  change Act.bind (Act.ofFault (n.next? shown)) _ w = _
  rw [Act.bind, Act.ofFault, noted]
  cases n.next? shown with
  | error x => rfl
  | ok o =>
    cases o with
    | some j => rfl
    | none => cases n.wiring.isEmpty <;> rfl

/-- Behind a visit with a label it is told that the visit has ended, and the walk goes on as the label is
looked up. -/
theorem Flow.walk_of_label (hnode : g[i]? = some node) (hlimit : f.limit = limitValue limit)
    (h : Graph.Allows limit step)
    (hvisit : visit i (f.told (.nodeStart node.name) w) = (.ok d, s)) {u : World}
    (hu : u = f.told (.nodeEnd node.name (s.heap.view d) (shared.view s.heap)) s) :
    f.walk g shared visit (fuel + 1) step i w =
      match node.next? (s.heap.view d) with
      | .error x => (.error (.fault x), u)
      | .ok (some j) => f.walk g shared visit fuel (step + 1) j u
      | .ok none => (.ok d, f.told (.flowEnd (step + 1)) (node.noted (s.heap.view d) u)) := by
  rw [walk, hnode, hu]
  refine (Act.bind_ok (checkSteps_of_allows hlimit h) _).trans ?_
  refine (Act.bind_ok (f.tell_eq (.nodeStart node.name) w) _).trans ?_
  refine (Act.bind_ok (Act.tryCatch_ok hvisit _) _).trans ?_
  -- what the label and the shared context show is read, and then told
  have hview : World.view d s = (.ok (s.heap.view d), s) := rfl
  refine (Act.bind_ok hview _).trans ?_
  have hcontext : Act.reads (fun w : World => shared.view w.heap) s = (.ok (shared.view s.heap), s) := rfl
  refine (Act.bind_ok hcontext _).trans ?_
  refine (Act.bind_ok (f.tell_eq (.nodeEnd node.name (s.heap.view d) (shared.view s.heap)) s) _).trans ?_
  change Act.bind (node.follow (s.heap.view d)) _ (f.told _ s) = _
  rw [Act.bind, Node.follow_eq]
  cases node.next? (s.heap.view d) with
  | error x => rfl
  | ok o =>
    cases o with
    | some j => rfl
    | none => exact Act.bind_ok (f.tell_eq (.flowEnd (step + 1)) _) _

end

/-! ## 3. Walks are paths -/

namespace Graph

variable {g : Graph} {f : Flow (Act World)} {scene : Scene} {limit : Option Int} {first i : Nat}
  {vs : List Visited} {last : List HookCall} {v : Visited} {w w₁ w' : World} {r : Except Failure Datum}

/-- A limit that does not allow one more visit after so many, but did before, is that number. -/
theorem exists_limit (h : ¬ Allows limit vs.length) (hbefore : ∀ m < vs.length, Allows limit m) :
    ∃ k, limit = some k ∧ k ≤ vs.length ∧ vs.length = k.toNat := by
  cases limit with
  | none => exact absurd (fun _ => nofun) h
  | some k =>
    have hle : k ≤ vs.length := Int.not_lt.1 fun hlt => h fun _ hk => Option.some.inj hk ▸ hlt
    refine ⟨k, rfl, hle, ?_⟩
    cases hlength : vs.length with
    | zero =>
      rw [hlength] at hle
      omega
    | succ m =>
      have hlt := hbefore m (by omega) k rfl
      omega

/-- What the limit allows it has allowed before. -/
theorem Allows.of_le {m m' : Nat} (h : Allows limit m') (hle : m ≤ m') : Allows limit m :=
  fun k hk => Int.lt_of_le_of_lt (Int.ofNat_le.2 hle) (h k hk)

theorem Leg.of_visit {node : Node} {bound : Nat} {d : Datum} {s : World} (hnode : g[i]? = some node)
    (hvisit : g.visit bound scene i (f.told (.nodeStart node.name) w) = (.ok d, s)) :
    Leg g f.toFlowPlan scene i w ⟨node, d, s.heap.view d, scene.shared.view s.heap⟩
      (f.told (.nodeEnd node.name (s.heap.view d) (scene.shared.view s.heap)) s) :=
  ⟨hnode, s, ⟨nofun, bound, hvisit⟩, rfl, rfl, rfl⟩

/-- One step of a walk that has come so far along a path: the walk ends there, or it goes on by a leg. -/
theorem Path.walked_or_leg (hpath : Path g f.toFlowPlan scene first w vs i w₁)
    (hlimit : f.limit = limitValue limit) (hbefore : ∀ m < vs.length, Allows limit m) {bound fuel : Nat}
    (hwalk : f.walk g scene.shared (g.visit bound scene) (fuel + 1) vs.length i w₁ = (r, w'))
    (hr : r ≠ .error .exhausted) :
    (∃ vs' last, Walked g f.toFlowPlan scene limit first w vs' last r w') ∨
      ∃ v j w₂, Allows limit vs.length ∧ Leg g f.toFlowPlan scene i w₁ v w₂ ∧ v.node.Selects v.shown j ∧
        f.walk g scene.shared (g.visit bound scene) fuel (vs.length + 1) j w₂ = (r, w') := by
  cases hnode : g[i]? with
  | none =>
    rw [Flow.walk, hnode] at hwalk
    exact absurd (congrArg Prod.fst hwalk).symm hr
  | some node =>
    by_cases hallows : Allows limit vs.length
    · rcases hvisit : g.visit bound scene i (f.told (.nodeStart node.name) w₁) with ⟨x, s⟩
      cases x with
      | error e =>
        rw [Flow.walk_of_error hnode hlimit hallows hvisit] at hwalk
        obtain ⟨rfl, rfl⟩ := Prod.mk.inj hwalk
        exact Or.inl ⟨vs, _, .failed hpath hallows hnode ⟨hr, bound, hvisit⟩⟩
      | ok d =>
        have hleg := Leg.of_visit hnode hvisit
        rw [Flow.walk_of_label hnode hlimit hallows hvisit rfl] at hwalk
        by_cases hcan : (s.heap.view d).CanLabel
        · obtain ⟨next, hnext⟩ := node.exists_next? hcan
          rw [hnext] at hwalk
          cases next with
          | none =>
            obtain ⟨rfl, rfl⟩ := Prod.mk.inj hwalk
            exact Or.inl ⟨_, _, .ended hpath hallows hleg (Node.next?_eq_none_iff.1 hnext)⟩
          | some j => exact Or.inr ⟨_, j, _, hallows, hleg, Node.next?_eq_some_iff.1 hnext, hwalk⟩
        · rw [Node.next?_of_not_canLabel hcan] at hwalk
          obtain ⟨rfl, rfl⟩ := Prod.mk.inj hwalk
          exact Or.inl ⟨_, _, .lost hpath hallows hleg hcan⟩
    · obtain ⟨k, rfl, hle, hlength⟩ := exists_limit hallows hbefore
      rw [Flow.walk_of_limit hnode hlimit hle] at hwalk
      obtain ⟨rfl, rfl⟩ := Prod.mk.inj hwalk
      exact Or.inl ⟨vs, _, .limited hpath hnode rfl hlength⟩

/-- A walk that has come so far along a path goes on along it: induction on the visits that are left. -/
theorem Path.exists_walked (hpath : Path g f.toFlowPlan scene first w vs i w₁)
    (hlimit : f.limit = limitValue limit) (hbefore : ∀ m < vs.length, Allows limit m) {bound fuel : Nat}
    (hwalk : f.walk g scene.shared (g.visit bound scene) fuel vs.length i w₁ = (r, w'))
    (hr : r ≠ .error .exhausted) :
    ∃ vs' last, Walked g f.toFlowPlan scene limit first w vs' last r w' := by
  induction fuel generalizing vs i w₁ with
  | zero => exact absurd (congrArg Prod.fst hwalk).symm hr
  | succ fuel ih =>
    rcases hpath.walked_or_leg hlimit hbefore hwalk hr with
      hwalked | ⟨v, j, w₂, hallows, hleg, hselects, hwalk'⟩
    · exact hwalked
    · refine ih (.follows hpath hleg hselects) (fun m hm => ?_) ?_
      · rw [List.length_append] at hm
        exact hallows.of_le (Nat.le_of_lt_succ hm)
      · rw [List.length_append]
        exact hwalk'

/-- Behind a leg a walk goes on as the label is looked up, if enough visits are left. -/
theorem Leg.exists_walk_eq (hleg : Leg g f.toFlowPlan scene i w v w₁) (hlimit : f.limit = limitValue limit)
    {step : Nat} (hallows : Allows limit step) :
    ∃ bound, ∀ b, bound ≤ b → ∀ fuel,
      f.walk g scene.shared (g.visit b scene) (fuel + 1) step i w =
        match v.node.next? v.shown with
        | .error x => (.error (.fault x), w₁)
        | .ok (some j) => f.walk g scene.shared (g.visit b scene) fuel (step + 1) j w₁
        | .ok none => (.ok v.label, f.told (.flowEnd (step + 1)) (v.node.noted v.shown w₁)) := by
  obtain ⟨hnode, s, hvisits, hshown, hcontext, hw₁⟩ := hleg
  obtain ⟨bound, hvisit⟩ := hvisits.exists_forall
  refine ⟨bound, fun b hb fuel => ?_⟩
  rw [hshown]
  refine Flow.walk_of_label hnode hlimit hallows (hvisit b hb) ?_
  rw [hw₁, hcontext, hshown]

/-- The walk along a path comes to where the path stands, if enough visits are left: induction on the path. -/
theorem Path.exists_walk_eq (hpath : Path g f.toFlowPlan scene first w vs i w₁)
    (hlimit : f.limit = limitValue limit) (hbefore : ∀ m < vs.length, Allows limit m) :
    ∃ bound, ∀ b, bound ≤ b → ∀ fuel,
      f.walk g scene.shared (g.visit b scene) (vs.length + fuel) 0 first w =
        f.walk g scene.shared (g.visit b scene) fuel vs.length i w₁ := by
  induction hpath with
  | start => exact ⟨0, fun b _ fuel => by rw [List.length_nil, Nat.zero_add]⟩
  | @follows vs i j v w₁ w₂ _ hleg hselects ih =>
    rw [List.length_append] at hbefore ⊢
    obtain ⟨bound, hwalk⟩ := ih fun m hm => hbefore m (Nat.lt_succ_of_lt hm)
    obtain ⟨bound', hstep⟩ := hleg.exists_walk_eq hlimit (hbefore vs.length (Nat.lt_succ_self _))
    refine ⟨max bound bound', fun b hb fuel => ?_⟩
    have hone : vs.length + [v].length + fuel = vs.length + (fuel + 1) := by
      rw [List.length_singleton, Nat.add_assoc, Nat.add_comm 1]
    rw [hone, hwalk b (Nat.le_trans (Nat.le_max_left ..) hb),
      hstep b (Nat.le_trans (Nat.le_max_right ..) hb), Node.next?_eq_some_iff.2 hselects]
    rfl

/-- Before a path was allowed to go on it was allowed to come there. -/
theorem Allows.before {m : Nat} (h : Allows limit m) : ∀ m' < m, Allows limit m' :=
  fun _ hm => h.of_le (Nat.le_of_lt hm)

/-- How a walk ends from where a path stands is how it ends from the start. -/
theorem Path.exists_walk_end (hpath : Path g f.toFlowPlan scene first w vs i w₁)
    (hlimit : f.limit = limitValue limit) (hbefore : ∀ m < vs.length, Allows limit m)
    (hends : ∃ bound, ∀ b, bound ≤ b → ∀ fuel,
      f.walk g scene.shared (g.visit b scene) (fuel + 1) vs.length i w₁ = (r, w')) :
    ∃ bound, ∀ b, bound ≤ b → f.walk g scene.shared (g.visit b scene) b 0 first w = (r, w') := by
  obtain ⟨bound, hend⟩ := hends
  obtain ⟨bound', hwalk⟩ := hpath.exists_walk_eq hlimit hbefore
  refine ⟨max (max bound bound') (vs.length + 1), fun b hb => ?_⟩
  obtain ⟨fuel, rfl⟩ : ∃ fuel, b = vs.length + (fuel + 1) := ⟨b - (vs.length + 1), by omega⟩
  rw [hwalk _ (by omega), hend _ (by omega)]

/-- However a walk ends along a path, it comes to that under all bounds from some one on. -/
theorem Walked.exists_walk (h : Walked g f.toFlowPlan scene limit first w vs last r w')
    (hlimit : f.limit = limitValue limit) :
    ∃ bound, ∀ b, bound ≤ b → f.walk g scene.shared (g.visit b scene) b 0 first w = (r, w') := by
  cases h with
  | ended hpath hallows hleg hstops =>
    refine hpath.exists_walk_end hlimit hallows.before ?_
    obtain ⟨bound, hstep⟩ := hleg.exists_walk_eq hlimit hallows
    refine ⟨bound, fun b hb fuel => ?_⟩
    rw [hstep b hb fuel, Node.next?_eq_none_iff.2 hstops]
  | failed hpath hallows hnode hvisits =>
    refine hpath.exists_walk_end hlimit hallows.before ?_
    obtain ⟨bound, hvisit⟩ := hvisits.exists_forall
    exact ⟨bound, fun b hb fuel => Flow.walk_of_error hnode hlimit hallows (hvisit b hb)⟩
  | @limited _ _ _ k _ hpath hnode hk hlength =>
    subst hk
    refine hpath.exists_walk_end hlimit (fun m hm k' hk' => ?_) ⟨0, fun b _ fuel => ?_⟩
    · obtain rfl := Option.some.inj hk'
      omega
    · exact Flow.walk_of_limit hnode hlimit (by omega)
  | lost hpath hallows hleg hcan =>
    refine hpath.exists_walk_end hlimit hallows.before ?_
    obtain ⟨bound, hstep⟩ := hleg.exists_walk_eq hlimit hallows
    refine ⟨bound, fun b hb fuel => ?_⟩
    rw [hstep b hb fuel, Node.next?_of_not_canLabel hcan]

theorem Walked.ne_exhausted (h : Walked g f.toFlowPlan scene limit first w vs last r w') :
    r ≠ .error .exhausted := by
  cases h with
  | ended | limited | lost => exact nofun
  | failed _ _ _ hvisits => exact hvisits.1

/-- **A walk is the path that its labels select.** It comes to a result and a world, under some bound and
then under all larger ones, if and only if its path ends with them. -/
theorem exists_walk_iff (hlimit : f.limit = limitValue limit) :
    (r ≠ .error .exhausted ∧
      ∃ bound, f.walk g scene.shared (g.visit bound scene) bound 0 first w = (r, w')) ↔
    ∃ vs last, Walked g f.toFlowPlan scene limit first w vs last r w' := by
  constructor
  · rintro ⟨hr, bound, hwalk⟩
    exact Path.start.exists_walked hlimit nofun hwalk hr
  · rintro ⟨vs, last, h⟩
    obtain ⟨bound, hwalk⟩ := h.exists_walk hlimit
    exact ⟨h.ne_exhausted, bound, hwalk bound (Nat.le_refl _)⟩

/-! ## 4. Only one path -/

variable {p : FlowPlan}

/-- From one world a node is visited in one way. -/
theorem Leg.unique {v' : Visited} {w₂ : World} (h : Leg g p scene i w v w₁) (h' : Leg g p scene i w v' w₂) :
    v = v' ∧ w₁ = w₂ := by
  obtain ⟨hnode, s, hvisits, hshown, hcontext, rfl⟩ := h
  obtain ⟨hnode', s', hvisits', hshown', hcontext', rfl⟩ := h'
  obtain ⟨node, label, shown, context⟩ := v
  obtain ⟨node', label', shown', context'⟩ := v'
  obtain rfl : node = node' := Option.some.inj (hnode.symm.trans hnode')
  obtain ⟨hlabel, rfl⟩ := hvisits.unique hvisits'
  obtain rfl : label = label' := Except.ok.inj hlabel
  obtain rfl : shown = shown' := hshown.trans hshown'.symm
  obtain rfl : context = context' := hcontext.trans hcontext'.symm
  exact ⟨rfl, rfl⟩

/-- Paths of one length are one path: induction on the first one. -/
theorem Path.unique {vs' : List Visited} {j : Nat} {w₂ : World} (h : Path g p scene first w vs i w₁)
    (h' : Path g p scene first w vs' j w₂) (hlength : vs.length = vs'.length) :
    vs = vs' ∧ i = j ∧ w₁ = w₂ := by
  induction h generalizing vs' j w₂ with
  | start =>
    cases h' with
    | start => exact ⟨rfl, rfl, rfl⟩
    | follows => simp at hlength
  | follows _ hleg hselects ih =>
    cases h' with
    | start => simp at hlength
    | follows hpath' hleg' hselects' =>
      rw [List.length_append, List.length_append] at hlength
      obtain ⟨rfl, rfl, rfl⟩ := ih hpath' (Nat.succ.inj hlength)
      obtain ⟨rfl, rfl⟩ := hleg.unique hleg'
      exact ⟨rfl, hselects.unique hselects', rfl⟩

/-! ## 5. Limits -/

/-- After so many visits a path stands before one more node. -/
def StandsAfter (g : Graph) (p : FlowPlan) (scene : Scene) (first : Nat) (w : World) (visits : Nat)
    (w₁ : World) : Prop :=
  ∃ vs i n, Path g p scene first w vs i w₁ ∧ g[i]? = some n ∧ vs.length = visits

/-- A path that stands before a node has stood before one after every number of visits up to there. -/
theorem Path.exists_standsAfter (hpath : Path g p scene first w vs i w₁) {n : Node}
    (hnode : g[i]? = some n) {visits : Nat} (hvisits : visits ≤ vs.length) :
    ∃ w₁, StandsAfter g p scene first w visits w₁ := by
  induction hpath generalizing n with
  | @start =>
    obtain rfl : visits = 0 := Nat.le_zero.1 hvisits
    exact ⟨w, [], first, n, .start, hnode, rfl⟩
  | @follows vs i j v w₁ w₂ hpath hleg hselects ih =>
    rcases Nat.lt_or_ge vs.length visits with hlt | hle
    · have hlength : (vs ++ [v]).length = visits := by
        rw [List.length_append, List.length_singleton] at hvisits ⊢
        omega
      exact ⟨w₂, _, j, n, .follows hpath hleg hselects, hnode, hlength⟩
    · exact ih hleg.node hle

/-- A path that ends at a node that it visits, allowed to or not, is allowed to by a limit at which no path
stands before a node. -/
theorem allows_of_not_standsAfter {k : Int} {n : Node} (hpath : Path g p scene first w vs i w₁)
    (hnode : g[i]? = some n) (h : ∀ w₁, ¬ StandsAfter g p scene first w k.toNat w₁) :
    Allows (some k) vs.length := by
  intro k' hk'
  obtain rfl := Option.some.inj hk'
  refine Int.not_le.1 fun hle => ?_
  have hvisits : k.toNat ≤ vs.length := by omega
  obtain ⟨w₁, hstands⟩ := hpath.exists_standsAfter hnode hvisits
  exact h w₁ hstands

/-- **A limit only cuts off.** Where the path does not stand before a node after as many visits as the limit
says, a walk with the limit is a walk without any. -/
theorem walked_iff_of_not_standsAfter {k : Int}
    (h : ∀ w₁, ¬ StandsAfter g p scene first w k.toNat w₁) :
    Walked g p scene (some k) first w vs last r w' ↔ Walked g p scene none first w vs last r w' := by
  constructor
  · rintro (⟨hpath, -, hleg, hstops⟩ | ⟨hpath, -, hnode, hvisits⟩ | ⟨hpath, hnode, hk, hlength⟩ |
      ⟨hpath, -, hleg, hcan⟩)
    · exact .ended hpath nofun hleg hstops
    · exact .failed hpath nofun hnode hvisits
    · obtain rfl := Option.some.inj hk
      exact absurd ⟨_, _, _, hpath, hnode, hlength⟩ (h _)
    · exact .lost hpath nofun hleg hcan
  · rintro (⟨hpath, -, hleg, hstops⟩ | ⟨hpath, -, hnode, hvisits⟩ | ⟨-, -, hk, -⟩ |
      ⟨hpath, -, hleg, hcan⟩)
    · exact .ended hpath (allows_of_not_standsAfter hpath hleg.node h) hleg hstops
    · exact .failed hpath (allows_of_not_standsAfter hpath hnode h) hnode hvisits
    · cases hk
    · exact .lost hpath (allows_of_not_standsAfter hpath hleg.node h) hleg hcan

/-- And where it does stand before one, the walk ends there with the failure of the limit. -/
theorem StandsAfter.exists_walked {k : Int} (h : StandsAfter g p scene first w k.toNat w₁) :
    ∃ vs, vs.length = k.toNat ∧
      Walked g p scene (some k) first w vs [] (.error (.tooManySteps (.int k))) w₁ := by
  obtain ⟨vs, i, n, hpath, hnode, hlength⟩ := h
  exact ⟨vs, hlength, .limited hpath hnode rfl hlength⟩

end Graph

end NodeFlow
