import NodeFlow.Proofs.Run.Inline
import NodeFlow.Proofs.Run.Paths
/-!
# Runs of flows

A run of a flow is the path that the labels of its visits select. It begins with parameters of its own, which
are a new object, and where the path ends the run does: with the last label, or with a failure.

The awkward thing up front: a flow is a node of its graph and may come to be visited within its own walk, so a
listener may be told of several walks at once. What a listener hears of one walk can only be said where the
visits on it do not tell that listener anything.

A failure within nested flows comes up through all of them. Each of them has walked a path of its own to the
visit that fails, and tells of the failure once.
-/

set_option autoImplicit false

namespace NodeFlow

/-! ## 1. Walks without a bound -/

/-- The world in which a walk under given parameters begins: they are a new object. -/
def World.entered (w : World) (params : Members Datum) : World :=
  { w with heap := (w.heap.alloc (.dict params)).2 }

/-- The scene of that walk. -/
def World.sceneOf (w : World) (shared : Shared) (params : Members Datum) : Scene :=
  ⟨shared, (w.heap.alloc (.dict params)).1⟩

namespace Graph

/-- A flow that walks under given parameters comes to a result and a world: it does so under some bound, and
has not met it. -/
def Traverses (g : Graph) (f : Flow (Act World)) (shared : Shared) (params : Members Datum) (w : World)
    (r : Except Failure Datum) (w' : World) : Prop :=
  r ≠ .error .exhausted ∧ ∃ bound, f.traverse g shared (g.visit bound) bound params w = (r, w')

/-- A node that is run by itself comes to a result and a world: it does so under some bounds, and has not met
them. -/
def Runs (g : Graph) (i : Nat) (shared : Shared) (w : World) (r : Except Failure Datum) (w' : World) : Prop :=
  r ≠ .error .exhausted ∧ ∃ b, g.runWithin b i shared w = (r, w')

variable {g : Graph} {f : Flow (Act World)} {p : FlowPlan} {scene : Scene} {shared : Shared}
  {params : Members Datum} {limit : Option Int} {first i j : Nat} {n : Node} {e : Failure} {w w₁ w₂ w' s : World}
  {r : Except Failure Datum}

theorem traverse_eq (hstart : f.start = some first) (bound : Nat) :
    f.traverse g shared (g.visit bound) bound params w =
      f.walk g shared (g.visit bound (w.sceneOf shared params)) bound 0 first (w.entered params) := by
  rw [Flow.traverse, hstart]
  rfl

/-- What a walk comes to it comes to under all bounds from some one on. -/
theorem Traverses.exists_forall (h : g.Traverses f shared params w r w') :
    ∃ bound, ∀ b, bound ≤ b → f.traverse g shared (g.visit b) b params w = (r, w') := by
  obtain ⟨hr, bound, hbound⟩ := h
  refine ⟨bound, fun b hb => ?_⟩
  have hcuts : (f.traverse g shared (g.visit bound) bound params).Cuts
      (f.traverse g shared (g.visit b) b params) := by
    induction hb with
    | refl => exact .refl _
    | step _ ih => exact ih.trans (Flow.cuts_traverse (g.cuts_visit_succ _) _ params)
  rcases hcuts w with hcut | hsame
  · rw [hbound] at hcut
    exact absurd hcut hr
  · rw [hsame, hbound]

theorem traverses_iff (hstart : f.start = some first) (hlimit : f.limit = limitValue limit) :
    g.Traverses f shared params w r w' ↔ ∃ vs last, Walked g f.toFlowPlan (w.sceneOf shared params) limit first
      (w.entered params) vs last r w' := by
  have hscene : (w.sceneOf shared params).shared = shared := rfl
  simp only [Traverses, traverse_eq hstart, ← exists_walk_iff hlimit, hscene]

/-- Running a flow is visiting it. -/
theorem runs_iff_visits {each : Bool} (hn : g[i]? = some n) (hconduct : n.conduct = .flow each f) :
    g.Runs i shared w r w' ↔ g.Visits ⟨shared, n.params⟩ i w r w' := by
  simp only [Runs, Visits, runWithin_flow hn hconduct]
  refine and_congr_right fun _ => ⟨?_, ?_⟩
  · rintro ⟨b, hrun⟩
    exact ⟨b.visits, hrun⟩
  · rintro ⟨bound, hvisit⟩
    exact ⟨⟨bound, 0⟩, hvisit⟩

/-- A plain flow is visited by walking with a copy of the parameters of the scene. -/
theorem visits_iff_traverses (hn : g[i]? = some n) (hconduct : n.conduct = .flow false (Flow.plain p)) :
    g.Visits scene i w r w' ↔
      g.Traverses (Flow.plain p) scene.shared (w.heap.membersAt scene.params) w r w' := by
  refine and_congr_right fun hr => ⟨?_, ?_⟩
  · rintro ⟨bound, hvisit⟩
    cases bound with
    | zero => exact absurd (congrArg Prod.fst hvisit).symm hr
    | succ bound =>
      rw [visit_flow hn hconduct, Flow.plain_runOnce] at hvisit
      exact ⟨bound, hvisit⟩
  · rintro ⟨bound, hwalk⟩
    refine ⟨bound + 1, ?_⟩
    rw [visit_flow hn hconduct, Flow.plain_runOnce]
    exact hwalk

end Graph

/-! ## 2. What a listener hears -/

/-- What the listeners under a tag have been told, newest first. -/
def heardBy (tag : String) (journal : List Event) : List HookCall :=
  journal.filterMap fun
    | .told t call => if t = tag then some call else none
    | _ => none

/-- One listener of a flow has a tag at each of its moments. -/
def FlowPlan.Hears (p : FlowPlan) (tag : String) : Prop :=
  ∀ hook, ((p.listeners.filter fun l => l.1 = hook).filter fun l => l.2.tag = tag).length = 1

/-- What is told of a visit that ends: that it starts, and that it has ended and how. -/
def Visited.calls (v : Visited) : List HookCall :=
  [.nodeStart v.node.name, .nodeEnd v.node.name v.shown v.context]

theorem heardBy_append (tag : String) (es es' : List Event) :
    heardBy tag (es ++ es') = heardBy tag es ++ heardBy tag es' :=
  List.filterMap_append ..

theorem heardBy_told (tag : String) (call : HookCall) (ls : List (Hook × Listener)) :
    heardBy tag (ls.map fun l => .told l.2.tag call) =
      List.replicate (ls.filter fun l => l.2.tag = tag).length call := by
  induction ls with
  | nil => rfl
  | cons l ls ih =>
    by_cases htag : l.2.tag = tag
    · rw [List.filter_cons_of_pos (by simpa using htag), List.length_cons, List.replicate_succ, ← ih]
      simp [heardBy, htag]
    · rw [List.filter_cons_of_neg (by simpa using htag), ← ih]
      simp [heardBy, htag]

/-- The one listener hears every call once. -/
theorem FlowPlan.Hears.told {p : FlowPlan} {tag : String} (h : p.Hears tag) (call : HookCall) (w : World) :
    heardBy tag (p.told call w).journal = call :: heardBy tag w.journal := by
  rw [FlowPlan.told, heardBy_append, ← List.map_reverse, heardBy_told, List.filter_reverse,
    List.length_reverse, Terms.audience, h call.hook]
  rfl

/-- That a walk ends is no call to a listener. -/
theorem Node.heardBy_noted (n : Node) (shown : Value) (tag : String) (w : World) :
    heardBy tag (n.noted shown w).journal = heardBy tag w.journal := by
  rw [noted]
  split
  · rfl
  · change heardBy tag (((w.channel.emit (n.endNote shown)).2.map Event.delivered).reverse ++ w.journal) = _
    rw [heardBy_append, ← List.map_reverse, heardBy, List.filterMap_map]
    simp

namespace Graph

variable {g : Graph} {p : FlowPlan} {scene : Scene} {tag : String} {limit : Option Int} {first i : Nat}
  {vs : List Visited} {last : List HookCall} {v : Visited} {w w₁ w' : World} {r : Except Failure Datum}

/-- No visit that a walk can come to tells the listeners under a tag anything. -/
def Quiet (g : Graph) (first : Nat) (tag : String) : Prop :=
  ∀ scene j w r w', g.Reaches (some first) j → g.Visits scene j w r w' →
    heardBy tag w'.journal = heardBy tag w.journal

theorem Path.reaches (h : Path g p scene first w vs i w₁) : g.Reaches (some first) i := by
  induction h with
  | start => exact .first rfl
  | follows _ hleg hselects ih =>
    obtain ⟨label, hedge⟩ := Node.get?_of_next? (Node.next?_eq_some_iff.2 hselects)
    exact .next ih hleg.node hedge

theorem Leg.heardBy_eq (hleg : Leg g p scene i w v w₁) (hears : p.Hears tag) (hquiet : g.Quiet first tag)
    (hreaches : g.Reaches (some first) i) :
    heardBy tag w₁.journal = v.calls.reverse ++ heardBy tag w.journal := by
  obtain ⟨-, s, hvisits, -, -, rfl⟩ := hleg
  rw [hears.told, hquiet _ _ _ _ _ hreaches hvisits, hears.told]
  rfl

/-- Along a path a listener hears that each visit starts and that it has ended, alternating. -/
theorem Path.heardBy_eq (hpath : Path g p scene first w vs i w₁) (hears : p.Hears tag)
    (hquiet : g.Quiet first tag) :
    heardBy tag w₁.journal = (vs.flatMap Visited.calls).reverse ++ heardBy tag w.journal := by
  induction hpath with
  | start => rfl
  | follows hpath hleg _ ih =>
    rw [hleg.heardBy_eq hears hquiet hpath.reaches, ih, List.flatMap_append, List.reverse_append,
      List.append_assoc, List.flatMap_singleton]

/-- And at its end what there is to be told last. -/
theorem Walked.heardBy_eq (h : Walked g p scene limit first w vs last r w') (hears : p.Hears tag)
    (hquiet : g.Quiet first tag) :
    heardBy tag w'.journal =
      (vs.flatMap Visited.calls ++ last).reverse ++ heardBy tag w.journal := by
  cases h with
  | ended hpath _ hleg _ =>
    rw [hears.told, Node.heardBy_noted, hleg.heardBy_eq hears hquiet hpath.reaches,
      hpath.heardBy_eq hears hquiet]
    simp
  | failed hpath _ _ hvisits =>
    rw [hears.told, hquiet _ _ _ _ _ hpath.reaches hvisits, hears.told, hpath.heardBy_eq hears hquiet]
    simp
  | limited hpath _ _ _ =>
    rw [hpath.heardBy_eq hears hquiet, List.append_nil]
  | lost hpath _ hleg _ =>
    rw [hleg.heardBy_eq hears hquiet hpath.reaches, hpath.heardBy_eq hears hquiet]
    simp

/-- The end of the flow is told after all visits exactly when the walk has ended with a label. -/
theorem Walked.flowEnd_mem_iff (h : Walked g p scene limit first w vs last r w') {steps : Nat} :
    .flowEnd steps ∈ last ↔ steps = vs.length ∧ ∃ d, r = .ok d := by
  cases h <;> simp

/-! ## 3. Failures within nested flows -/

/-- From one element of a batch to a later one by walks that have ended with labels. -/
inductive Rounds (g : Graph) (f : Flow (Act World)) (scene : Scene) (elements : Elements) :
    Nat → World → Nat → World → Prop
  | start {k : Nat} {w : World} : Rounds g f scene elements k w k w
  | next {k m : Nat} {d label : Datum} {params : Members Datum} {w w₁ w₂ : World} :
    elements.at? k w = (.ok (some d), w) → Flow.overlaid scene d w = (.ok params, w) →
    g.Traverses f scene.shared params w (.ok label) w₁ → Rounds g f scene elements (k + 1) w₁ m w₂ →
    Rounds g f scene elements k w m w₂

/-- Where a visit of a flow begins a walk, and with which parameters: behind what the flow prepares, and where
it walks for each element of a batch, behind the walks for some first elements. -/
inductive Begins (g : Graph) (f : Flow (Act World)) (scene : Scene) (w : World) :
    Bool → Members Datum → World → Prop
  | once {d : Datum} {w₁ : World} : f.prep scene w = (.ok d, w₁) →
    Begins g f scene w false (w₁.heap.membersAt scene.params) w₁
  | inTurn {prepared batch d : Datum} {elements : Elements} {k : Nat} {params : Members Datum}
    {w₁ w₂ w₃ w₄ : World} : f.prep scene w = (.ok prepared, w₁) →
    Flow.batchOf prepared w₁ = (.ok batch, w₂) → Elements.of batch w₂ = (.ok elements, w₃) →
    Rounds g f scene elements 0 w₃ k w₄ → elements.at? k w₄ = (.ok (some d), w₄) →
    Flow.overlaid scene d w₄ = (.ok params, w₄) → Begins g f scene w true params w₄

/-- A failure comes up from the visit of a node. Either the visit fails with it, or the node is a flow, whose
walk has come along a path to another node, and it comes up from there. What the flows tell of it then is
counted from the innermost one on. -/
inductive Rises (g : Graph) (e : Failure) : Scene → Nat → World → World → List (FlowPlan × HookCall) → Prop
  | here {scene : Scene} {i : Nat} {w s : World} : g.Visits scene i w (.error e) s → Rises g e scene i w s []
  | within {scene : Scene} {i j first : Nat} {n m : Node} {each : Bool} {f : Flow (Act World)}
    {params : Members Datum} {limit : Option Int} {vs : List Visited} {w w₁ w₂ s : World}
    {calls : List (FlowPlan × HookCall)} : g[i]? = some n → n.conduct = .flow each f →
    Begins g f scene w each params w₁ → f.start = some first → f.limit = limitValue limit →
    Path g f.toFlowPlan (w₁.sceneOf scene.shared params) first (w₁.entered params) vs j w₂ →
    Allows limit vs.length → g[j]? = some m →
    Rises g e (w₁.sceneOf scene.shared params) j (f.told (.nodeStart m.name) w₂) s calls →
    Rises g e scene i w s (calls ++ [(f.toFlowPlan, .nodeError m.name e)])

end Graph

/-- A world in which the listeners of several plans have been told of calls, one after another. -/
def World.afterCalls (w : World) (calls : List (FlowPlan × HookCall)) : World :=
  calls.foldl (fun w c => c.1.told c.2 w) w

section

variable {α β : Type} {next : Nat → Act World (Option α)} {work : α → Act World β} {a : α} {b : β}
  {i fuel : Nat} {e : Failure} {w w₁ s : World}

theorem eachFrom_of_error (hnext : next i w = (.ok (some a), w)) (hwork : work a w = (.error e, s)) :
    eachFrom next work (fuel + 1) i w = (.error e, s) := by
  rw [eachFrom]
  exact (Act.bind_ok hnext _).trans (Act.bind_error hwork _)

theorem eachFrom_of_later_error (hnext : next i w = (.ok (some a), w)) (hwork : work a w = (.ok b, w₁))
    (hlater : eachFrom next work fuel (i + 1) w₁ = (.error e, s)) :
    eachFrom next work (fuel + 1) i w = (.error e, s) := by
  rw [eachFrom]
  refine (Act.bind_ok hnext _).trans ?_
  exact (Act.bind_ok hwork _).trans (Act.bind_error hlater _)

end

namespace Graph

variable {g : Graph} {f : Flow (Act World)} {scene : Scene} {each : Bool} {params : Members Datum}
  {elements : Elements} {i k m : Nat} {n : Node} {d : Datum} {e : Failure} {w w₁ s : World}
  {calls : List (FlowPlan × HookCall)}

/-- The walk for one element of a batch under a bound. -/
def walkFor (g : Graph) (f : Flow (Act World)) (scene : Scene) (bound : Nat) (d : Datum) : Act World Datum := do
  let params ← Flow.overlaid scene d
  f.traverse g scene.shared (g.visit bound) bound params

/-- A walk for one element that fails ends the walks for all of them: induction on those before it. -/
theorem Rounds.exists_eachFrom_eq (h : Rounds g f scene elements k w m w₁)
    (hat : elements.at? m w₁ = (.ok (some d), w₁)) (hparams : Flow.overlaid scene d w₁ = (.ok params, w₁))
    (hfails : g.Traverses f scene.shared params w₁ (.error e) s) :
    ∃ bound, ∀ b, bound ≤ b → ∀ fuel, bound ≤ fuel →
      eachFrom elements.at? (g.walkFor f scene b) fuel k w = (.error e, s) := by
  induction h with
  | start =>
    obtain ⟨bound, hwalk⟩ := hfails.exists_forall
    refine ⟨bound + 1, fun b hb fuel hfuel => ?_⟩
    obtain ⟨fuel, rfl⟩ := Nat.exists_eq_succ_of_ne_zero (n := fuel) (by omega)
    exact eachFrom_of_error hat ((Act.bind_ok hparams _).trans (hwalk b (Nat.le_of_succ_le hb)))
  | next hat₀ hparams₀ hwalk₀ _ ih =>
    obtain ⟨bound, hlater⟩ := ih hat hparams hfails
    obtain ⟨bound', hwalk⟩ := hwalk₀.exists_forall
    refine ⟨max bound bound' + 1, fun b hb fuel hfuel => ?_⟩
    obtain ⟨fuel, rfl⟩ := Nat.exists_eq_succ_of_ne_zero (n := fuel) (by omega)
    refine eachFrom_of_later_error hat₀ ((Act.bind_ok hparams₀ _).trans (hwalk b (by omega))) ?_
    exact hlater b (by omega) fuel (by omega)

/-- A visit of a flow fails with what a walk fails with that it has begun. -/
theorem Begins.visits (h : Begins g f scene w each params w₁) (hn : g[i]? = some n)
    (hconduct : n.conduct = .flow each f) (hfails : g.Traverses f scene.shared params w₁ (.error e) s) :
    g.Visits scene i w (.error e) s := by
  refine ⟨hfails.1, ?_⟩
  cases h with
  | once hprep =>
    obtain ⟨bound, hwalk⟩ := hfails.2
    refine ⟨bound + 1, ?_⟩
    rw [visit_flow hn hconduct]
    refine (Act.bind_ok hprep _).trans (Act.bind_error ?_ _)
    exact (Act.bind_ok rfl _).trans hwalk
  | inTurn hprep hbatch helements hrounds hat hparams =>
    obtain ⟨bound, heach⟩ := hrounds.exists_eachFrom_eq hat hparams hfails
    refine ⟨bound + 1, ?_⟩
    rw [visit, hn, Option.map_some, hconduct]
    refine (Act.bind_ok ((Act.bind_ok hprep _).trans hbatch) _).trans (Act.bind_error ?_ _)
    refine (Act.bind_ok helements _).trans ?_
    exact Act.bind_error (heach bound (Nat.le_refl _) bound (Nat.le_refl _)) _

/-- A failure that comes up comes to the top, and every flow on the way has told of it once: induction on how
deep it is nested. -/
theorem Rises.visits (h : Rises g e scene i w s calls) : g.Visits scene i w (.error e) (s.afterCalls calls) := by
  induction h with
  | here hvisits => exact hvisits
  | within hn hconduct hbegins hstart hlimit hpath hallows hm _ ih =>
    rw [World.afterCalls, List.foldl_append]
    refine hbegins.visits hn hconduct ?_
    exact (traverses_iff hstart hlimit).2 ⟨_, _, .failed hpath hallows hm ih⟩

/-! ## 4. Runs of flows -/

section

variable {p : FlowPlan} {limit : Option Int} {first : Nat}

/-- **A run of a flow is the path that its labels select.** A flow walks from a start, under a limit or none.
(1) It comes to a result and a world if and only if its path ends with them. (2) There is only one path, which
its visits make longer. (3) If after as many visits as the limit says the path stands before one more node,
the run ends there and fails, and else it is what it would be without a limit. (4) However the path ends, that
the flow has ended is told, with the number of visits, exactly if there is a result; and a listener at all
moments, whom the visits themselves do not tell anything, hears that each visit starts and that it has ended,
alternating, and then what is told last. (5) A failure that comes up through nested flows is what the run
fails with, and each flow that it has come through has told of it once. -/
theorem run_is_path (shared : Shared) (w : World) (hn : g[i]? = some n)
    (hconduct : n.conduct = .flow false (Flow.plain p)) (hstart : p.start = some first)
    (hlimit : p.limit = limitValue limit) :
    let params := w.heap.membersAt n.params
    let scene := w.sceneOf shared params
    let before := w.entered params
    (∀ r w', g.Runs i shared w r w' ↔ ∃ vs last, Walked g p scene limit first before vs last r w') ∧
    (∀ vs j w₁ vs' j' w₂, Path g p scene first before vs j w₁ → Path g p scene first before vs' j' w₂ →
      vs.length = vs'.length → vs = vs' ∧ j = j' ∧ w₁ = w₂) ∧
    (∀ k, limit = some k →
      (∀ w₁, StandsAfter g p scene first before k.toNat w₁ →
        g.Runs i shared w (.error (.tooManySteps (.int k))) w₁) ∧
      ((∀ w₁, ¬ StandsAfter g p scene first before k.toNat w₁) →
        ∀ r w', g.Runs i shared w r w' ↔ ∃ vs last, Walked g p scene none first before vs last r w')) ∧
    (∀ vs last r w', Walked g p scene limit first before vs last r w' →
      (∀ steps, .flowEnd steps ∈ last ↔ steps = vs.length ∧ ∃ d, r = .ok d) ∧
      ∀ tag, p.Hears tag → g.Quiet first tag →
        heardBy tag w'.journal =
          (vs.flatMap Visited.calls ++ last).reverse ++ heardBy tag w.journal) ∧
    (∀ e s calls, g.Rises e ⟨shared, n.params⟩ i w s calls →
      g.Runs i shared w (.error e) (s.afterCalls calls)) := by
  intro params scene before
  have hpath : ∀ r w', g.Runs i shared w r w' ↔
      ∃ vs last, Walked g p scene limit first before vs last r w' := fun r w' => by
    rw [runs_iff_visits hn hconduct, visits_iff_traverses hn hconduct]
    exact traverses_iff (f := Flow.plain p) hstart hlimit
  refine ⟨hpath, fun _ _ _ _ _ _ => Path.unique, ?_, ?_, ?_⟩
  · rintro k rfl
    refine ⟨fun w₁ hstands => ?_, fun hstands r w' => ?_⟩
    · obtain ⟨vs, -, hwalked⟩ := hstands.exists_walked
      exact (hpath _ _).2 ⟨vs, [], hwalked⟩
    · simp only [hpath, walked_iff_of_not_standsAfter hstands]
  · intro vs last r w' hwalked
    exact ⟨fun steps => hwalked.flowEnd_mem_iff, fun tag => hwalked.heardBy_eq⟩
  · intro e s calls hrises
    exact (runs_iff_visits hn hconduct).2 hrises.visits

end

/-- A draft is made and then a review, and there is one listener for all of it. -/
def editingPlan : FlowPlan := ⟨"editing", some 0, .int 2, Hook.all.map fun hook => (hook, ⟨0, "trace", false⟩)⟩

/-- The review follows however the draft is labelled, and is a flow of its own, of which the only visit
fails. -/
def editing : Graph :=
  [.bare "draft" [(wildcardLabel, 1)] (.blocking fun _ => pure (.str "done")),
    .bare "review" [] (.flow false (.plain ⟨"review", some 2, .null, []⟩)),
    .bare "check" [] (.blocking fun _ => Act.fail (.reported .value "rejected")),
    .bare "editing" [] (.flow false (.plain editingPlan))]

theorem editing_review (scene : Scene) (w : World) :
    editing.Visits scene 1 w (.error (.reported .value "rejected"))
      (w.entered (w.heap.membersAt scene.params)) :=
  ⟨nofun, 3, rfl⟩

theorem editing_quiet : editing.Quiet 0 "trace" := by
  have hreaches : ∀ j, editing.Reaches (some 0) j → j = 0 ∨ j = 1 := by
    intro j h
    induction h with
    | first h => exact Or.inl (Option.some.inj h).symm
    | next _ hn hj ih =>
      rcases ih with rfl | rfl <;> obtain rfl := Option.some.inj hn
      · exact Or.inr (eq_of_get?_singleton hj)
      · cases hj
  intro scene j w r w' hj hvisits
  rcases hreaches j hj with rfl | rfl
  · have hdraft : editing.Visits scene 0 w (.ok (.str "done")) w := ⟨nofun, 1, rfl⟩
    rw [(hvisits.unique hdraft).2]
  · rw [(hvisits.unique (editing_review scene w)).2]
    rfl

/-- The run fails with what the check has reported, and the listener hears of a draft that has ended and of a
review that has failed. -/
theorem run_is_path_editing : ∃ w' context,
    editing.Runs 3 ⟨0, none⟩ .blank (.error (.reported .value "rejected")) w' ∧
      heardBy "trace" w'.journal = [.nodeError "review" (.reported .value "rejected"), .nodeStart "review",
        .nodeEnd "draft" (.str "done") context, .nodeStart "draft"] := by
  have hlimit : editingPlan.limit = limitValue (some 2) := rfl
  obtain ⟨hpath, -, -, hheard, -⟩ := run_is_path (g := editing) (i := 3) ⟨0, none⟩ .blank rfl rfl rfl hlimit
  -- the draft ends and selects the review, which fails
  have hleg : Leg editing editingPlan (World.blank.sceneOf ⟨0, none⟩ []) 0 (World.blank.entered [])
      ⟨_, .str "done", .str "done", .dict (some 0) []⟩ _ := ⟨rfl, _, ⟨nofun, 1, rfl⟩, rfl, rfl, rfl⟩
  have hselects : editing[0].Selects (.str "done") 1 :=
    .wildcard (fun _ => rfl) (fun label hlabel => by cases hlabel <;> rfl) rfl
  have hallows : Allows (some 2) 1 := fun k hk => Option.some.inj hk ▸ by decide
  have hwalked := Walked.failed (.follows .start hleg hselects) hallows rfl (editing_review _ _)
  exact ⟨_, _, (hpath _ _).2 ⟨_, _, hwalked⟩,
    (hheard _ _ _ _ hwalked).2 "trace" (fun hook => by cases hook <;> rfl) editing_quiet⟩

end Graph

end NodeFlow
