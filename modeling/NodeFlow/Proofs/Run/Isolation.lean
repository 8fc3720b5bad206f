import NodeFlow.Proofs.Memory.Counts
import NodeFlow.Proofs.Run.Journal
import NodeFlow.Proofs.Run.Keeping
import NodeFlow.Proofs.Run.Traversal
/-!
# The parameters of a run

Every run sets the variable of its context and puts back what was there. So whatever asks for its parameters gets
those of the innermost run around it, just as if they had been handed down to it, at any time and in any order of
things, and outside nothing is to be seen of the run when it has ended, with a label or with a failure.
-/

set_option autoImplicit false

universe u

namespace NodeFlow

variable {α β : Type}

/-! ## 1. Programs and walks -/

section

variable {m : Type → Type u} [Stepwise m] [Keeping m] {slot : Current}

namespace Scoped

/-- A computation that starts with something in the variable leaves it there, and does else what another does
without a variable. -/
def Keeps (slot : Current) (x : Scoped m α) (y : m α) : Prop := Keeping.Keeps slot (x slot) y

theorem keeps_pure (a : α) : Keeps slot (Pure.pure a : Scoped m α) (Pure.pure a) := Keeping.pure

theorem keeps_throw (e : Failure) : Keeps slot (MonadExcept.throw e : Scoped m α) (MonadExcept.throw e) :=
  Keeping.throw

theorem keeps_perform (x : Act World α) : Keeps slot (Performs.perform x : Scoped m α) (Performs.perform x) :=
  Keeping.perform

theorem Keeps.bind {x : Scoped m α} {y : m α} {F : α → Scoped m β} {G : α → m β} (h : Keeps slot x y)
    (hF : ∀ a, Keeps slot (F a) (G a)) : Keeps slot (x >>= F) (y >>= G) :=
  Keeping.bind h hF fun _ => Keeping.throw

theorem Keeps.tryCatch {x : Scoped m α} {y : m α} {F : Failure → Scoped m α} {G : Failure → m α}
    (h : Keeps slot x y) (hF : ∀ e, Keeps slot (F e) (G e)) :
    Keeps slot (MonadExcept.tryCatch x F) (MonadExcept.tryCatch y G) :=
  Keeping.tryCatch h (fun _ => Keeping.pure) hF

/-- To ask is to be answered with what is in the variable. -/
theorem keeps_params {own : Addr} {F : Addr → Scoped m β} {y : m β} (h : Keeps slot (F (slot.getD own)) y) :
    Keeps slot (params own >>= F) y := by
  unfold Keeps
  change Keeping.Keeps slot (Pure.pure (Except.ok (slot.getD own), slot) >>= _) y
  rw [Keeping.pure_bind]
  exact h

theorem Keeps.together {ps : List (Scoped m Datum)} {qs : List (m Datum)} (h : List.Forall₂ (Keeps slot) ps qs) :
    Keeps slot (Scoped.together ps) (Stepwise.gather qs Stepwise.done) :=
  Keeping.gather h fun _ => Keeping.done

end Scoped

open Scoped

omit [Keeping m] in
theorem givenAll_eq (cell : Addr) (ps : List (Code Datum)) :
    (givenAll cell ps : List (m Datum)) = ps.map (Code.given cell) := by
  induction ps with
  | nil => rfl
  | cons p ps ih => rw [givenAll, ih, List.map_cons]

omit [Keeping m] in
theorem runAll_eq (own : Addr) (ps : List (Code Datum)) :
    (runAll own slot ps : List (m Datum)) = (ps.map (Code.run own)).map fun p => p.copied slot := by
  induction ps with
  | nil => rfl
  | cons p ps ih => rw [runAll, ih, List.map_cons, List.map_cons]

mutual

/-- **A program that asks gets what is in the variable,** whenever it asks and in whatever part of it. -/
theorem Code.keeps_run {α : Type} (own : Addr) (slot : Current) (x : Code α) :
    Keeps slot (x.run own : Scoped m α) (x.given (slot.getD own)) := by
  match x with
  | .done r => exact Keeping.done
  | .act x k => exact Keeping.act fun b => (k b).keeps_run own slot
  | .params k => exact (k (slot.getD own)).keeps_run own slot
  | .turn k => exact Keeping.turn (k.keeps_run own slot)
  | .gather parts k =>
    unfold Scoped.Keeps
    rw [Code.run, Code.given, runAll_eq, givenAll_eq]
    exact Keeping.gather (keeps_runAll own slot parts) fun r => (k r).keeps_run own slot
termination_by structural x

theorem keeps_runAll (own : Addr) (slot : Current) (ps : List (Code Datum)) :
    List.Forall₂ (Keeps slot) (ps.map (Code.run own) : List (Scoped m Datum)) (ps.map (Code.given (slot.getD own))) := by
  match ps with
  | [] => exact .nil
  | p :: ps => exact .cons (p.keeps_run own slot) (keeps_runAll own slot ps)
termination_by structural ps

end

variable {g : Graph} {f : Flow (Scoped m)} {f' : Flow m} {shared : Shared}

/-- A walk whose visits keep the variable keeps it. -/
theorem keeps_walk (hplan : f.toFlowPlan = f'.toFlowPlan) {visit : Nat → Scoped m Datum} {visit' : Nat → m Datum}
    (hvisit : ∀ i, Keeps slot (visit i) (visit' i)) (fuel step i : Nat) :
    Keeps slot (f.walk g shared visit fuel step i) (f'.walk g shared visit' fuel step i) := by
  have htell : ∀ call, f.tell call = f'.tell call := by
    intro call
    unfold Flow.tell
    rw [hplan]
  have hcheck : ∀ step, f.checkSteps step = f'.checkSteps step := by
    intro step
    unfold Flow.checkSteps
    rw [hplan]
  induction fuel generalizing step i with
  | zero => exact keeps_throw _
  | succ fuel ih =>
    rw [Flow.walk, Flow.walk]
    cases g[i]? with
    | none => exact keeps_throw _
    | some node =>
      dsimp only
      simp only [htell, hcheck]
      refine (keeps_perform _).bind fun _ => (keeps_perform _).bind fun _ => ?_
      refine ((hvisit i).tryCatch fun e => (keeps_perform _).bind fun _ => keeps_throw e).bind fun label => ?_
      refine (keeps_perform _).bind fun shown => (keeps_perform _).bind fun context => ?_
      refine (keeps_perform _).bind fun _ => (keeps_perform _).bind fun next => ?_
      cases next with
      | none => exact (keeps_perform _).bind fun _ => keeps_pure label
      | some next => exact ih (step + 1) next

/-- Work in turn keeps the variable if each piece of it does. -/
theorem keeps_eachFrom {γ : Type} {next : Nat → Act World (Option γ)} {work : γ → Scoped m β} {work' : γ → m β}
    (hwork : ∀ c, Keeps slot (work c) (work' c)) (fuel i : Nat) :
    Keeps slot (eachFrom next work fuel i) (eachFrom next work' fuel i) := by
  induction fuel generalizing i with
  | zero => exact keeps_throw _
  | succ fuel ih =>
    rw [eachFrom, eachFrom]
    refine (keeps_perform _).bind fun c => ?_
    cases c with
    | none => exact keeps_pure []
    | some c => exact (hwork c).bind fun b => (ih (i + 1)).bind fun rest => keeps_pure (b :: rest)

theorem keeps_course {γ : Type} {prep : Scoped m α} {prep' : m α} {work : α → Scoped m γ} {work' : α → m γ}
    {post : α → γ → Scoped m Datum} {post' : α → γ → m Datum} (hprep : Keeps slot prep prep')
    (hwork : ∀ a, Keeps slot (work a) (work' a)) (hpost : ∀ a c, Keeps slot (post a c) (post' a c)) :
    Keeps slot (course prep work post) (course prep' work' post') :=
  hprep.bind fun a => (hwork a).bind fun c => hpost a c

/-- **A run keeps the variable.** It is set for the walk alone, to a cell that is in use for nothing else, and what
was there is put back however the walk ends. Within, all visits find that cell. -/
theorem keeps_orchestrated (hplan : f.toFlowPlan = f'.toFlowPlan) {visit : Nat → Scoped m Datum}
    {visit' : Scene → Nat → m Datum} (hvisit : ∀ cell i, Keeps (some cell) (visit i) (visit' ⟨shared, cell⟩ i))
    (fuel : Nat) (params : Members Datum) :
    Keeps slot (f.orchestrated g shared visit fuel params) (f'.traverse g shared visit' fuel params) := by
  have hstart : f.start = f'.start := congrArg FlowPlan.start hplan
  have hname : f.name = f'.name := congrArg FlowPlan.name hplan
  unfold Flow.orchestrated Flow.traverse
  rw [hstart, hname]
  cases f'.start with
  | none => exact keeps_throw _
  | some first =>
    refine (keeps_perform _).bind fun cell => ?_
    unfold Scoped.Keeps
    change Keeping.Keeps slot (Pure.pure (Except.ok slot, some cell) >>= _) _
    rw [Keeping.pure_bind]
    have hwalk : Keeps (some cell) (f.walk g shared visit fuel 0 first)
        (f'.walk g shared (visit' ⟨shared, cell⟩) fuel 0 first) := keeps_walk hplan (hvisit cell) fuel 0 first
    refine Keeping.restored hwalk fun r => ?_
    change Pure.pure (Except.ok (), slot) >>= _ = _
    rw [Keeping.pure_bind]

/-! ## 2. Runs -/

namespace CodedFlow

variable {c : CodedFlow} {own : Addr} {visit : Nat → Scoped m Datum} {visit' : Scene → Nat → m Datum}

theorem keeps_runOnce (hvisit : ∀ cell i, Keeps (some cell) (visit i) (visit' ⟨shared, cell⟩ i)) (fuel : Nat) :
    Keeps slot (c.runOnce own g shared visit fuel)
      ((c.given : Flow m).runOnce g visit' fuel ⟨shared, slot.getD own⟩) := by
  refine keeps_course ((c.prep shared).keeps_run own slot) (fun _ => ?_) fun a b =>
    (c.post shared a b).keeps_run own slot
  refine keeps_params ((keeps_perform _).bind fun params => ?_)
  exact keeps_orchestrated rfl hvisit fuel params

theorem keeps_batch : Keeps slot (do Performs.perform (Flow.batchOf (← (c.prep shared).run own)) : Scoped m Datum)
    (do Performs.perform (Flow.batchOf (← (c.given : Flow m).prep ⟨shared, slot.getD own⟩))) :=
  ((c.prep shared).keeps_run own slot).bind fun _ => keeps_perform _

theorem keeps_runEach (hvisit : ∀ cell i, Keeps (some cell) (visit i) (visit' ⟨shared, cell⟩ i)) (fuel : Nat) :
    Keeps slot (c.runEach own g shared visit fuel)
      ((c.given : Flow m).runEach g visit' fuel ⟨shared, slot.getD own⟩) := by
  refine keeps_course keeps_batch (fun batch => ?_) fun a b => (c.post shared a b).keeps_run own slot
  refine (keeps_perform _).bind fun elements => (keeps_eachFrom (fun d => ?_) fuel 0).bind fun _ => keeps_pure _
  refine keeps_params ((keeps_perform _).bind fun params => ?_)
  exact keeps_orchestrated rfl hvisit fuel params

/-- Parameters that are asked for again and again are always the same. -/
theorem keeps_overlays (items : List Datum) :
    Keeps slot (eachOf items fun d => do
      let cell ← Scoped.params own
      Performs.perform (Flow.overlaid ⟨shared, cell⟩ d) : Scoped m (List (Members Datum)))
      (eachOf items fun d => Performs.perform (Flow.overlaid ⟨shared, slot.getD own⟩ d)) := by
  induction items with
  | nil => exact keeps_pure []
  | cons d items ih =>
    rw [eachOf, eachOf]
    exact (keeps_params (keeps_perform _)).bind fun ms => ih.bind fun rest => keeps_pure (ms :: rest)

theorem keeps_runTogether {visit : Nat → Scoped (Coop World Datum) Datum}
    {visit' : Scene → Nat → Coop World Datum Datum}
    (hvisit : ∀ cell i, Keeps (some cell) (visit i) (visit' ⟨shared, cell⟩ i)) (fuel : Nat) :
    Keeps slot (c.runTogether own g shared fuel visit)
      ((c.given : Flow (Coop World Datum)).runTogether g visit' fuel ⟨shared, slot.getD own⟩) := by
  refine keeps_course (keeps_batch (m := Coop World Datum)) (fun batch => ?_) fun a b =>
    (c.post shared a b).keeps_run own slot
  have hoverlays : ∀ items, Keeps slot (Scoped.ofAct (eachOf items fun d => do
      let cell ← Scoped.params own
      Performs.perform (Flow.overlaid ⟨shared, cell⟩ d)))
      (Coop.ofAct (eachOf items (Flow.overlaid ⟨shared, slot.getD own⟩))) :=
    fun items => Coop.Keeps.ofAct (keeps_overlays (m := Act World) items)
  refine (keeps_perform _).bind fun items => (hoverlays items).bind fun overlays => ?_
  have hparts : List.Forall₂ (Keeps slot)
      (overlays.map ((c.inContext own).orchestrated g shared visit fuel))
      (overlays.map ((c.given : Flow (Coop World Datum)).traverse g shared visit' fuel)) := by
    rw [List.forall₂_map_left_iff, List.forall₂_map_right_iff, List.forall₂_same]
    exact fun ms _ => keeps_orchestrated rfl hvisit fuel ms
  exact (Scoped.Keeps.together hparts).bind fun _ => keeps_pure _

end CodedFlow

/-! ## 3. Visits -/

namespace CodedGraph

variable {coded : CodedGraph}

theorem getElem?_given (coded : CodedGraph) (i : Nat) : coded.given[i]? = coded[i]?.map CodedNode.given := by
  unfold given
  rw [List.getElem?_map]

/-- The parameters that a node has itself. -/
def paramsAt (coded : CodedGraph) (i : Nat) : Addr := (coded[i]?.map CodedNode.params).getD 0

theorem keeps_visit (fuel : Nat) (shared : Shared) (slot : Current) (i : Nat) :
    Keeps slot (coded.visit fuel shared i) (coded.given.visit fuel ⟨shared, slot.getD (coded.paramsAt i)⟩ i) := by
  induction fuel generalizing slot i with
  | zero => exact keeps_throw _
  | succ fuel ih =>
    have hvisit : ∀ cell i, Keeps (some cell) (coded.visit fuel shared i) (coded.given.visit fuel ⟨shared, cell⟩ i) :=
      fun cell i => ih (some cell) i
    rw [visit, Graph.visit, getElem?_given, Option.map_map, paramsAt]
    cases coded[i]? with
    | none => exact keeps_throw _
    | some n =>
      obtain ⟨name, title, lineage, kind, wiring, params, policy, conduct⟩ := n
      cases conduct with
      | blocking code => exact (code shared).keeps_run params slot
      | cooperative code => exact keeps_throw _
      | flow each f =>
        cases each with
        | false => exact CodedFlow.keeps_runOnce hvisit fuel
        | true => exact CodedFlow.keeps_runEach hvisit fuel
      | cooperativeFlow fan f => exact keeps_throw _

theorem keeps_visitWaiting (fuel : Nat) (shared : Shared) (slot : Current) (i : Nat) :
    Keeps slot (coded.visitWaiting fuel shared i)
      (coded.given.visitWaiting fuel ⟨shared, slot.getD (coded.paramsAt i)⟩ i) := by
  induction fuel generalizing slot i with
  | zero => exact keeps_throw _
  | succ fuel ih =>
    have hvisit : ∀ cell i,
        Keeps (some cell) (coded.visitWaiting fuel shared i) (coded.given.visitWaiting fuel ⟨shared, cell⟩ i) :=
      fun cell i => ih (some cell) i
    have hblocking : Keeps slot (Scoped.ofAct (coded.visit (fuel + 1) shared i))
        (Coop.ofAct (coded.given.visit (fuel + 1) ⟨shared, slot.getD (coded.paramsAt i)⟩ i)) :=
      Coop.Keeps.ofAct (coded.keeps_visit (fuel + 1) shared slot i)
    rw [visitWaiting, Graph.visitWaiting, getElem?_given, Option.map_map]
    unfold paramsAt at hblocking ⊢
    cases hn : coded[i]? with
    | none =>
      rw [hn] at hblocking
      exact hblocking
    | some n =>
      rw [hn] at hblocking
      obtain ⟨name, title, lineage, kind, wiring, params, policy, conduct⟩ := n
      cases conduct with
      | blocking code => exact hblocking
      | cooperative code => exact (code shared).keeps_run params slot
      | flow each f => exact hblocking
      | cooperativeFlow fan f =>
        cases fan with
        | once => exact CodedFlow.keeps_runOnce hvisit fuel
        | inTurn => exact CodedFlow.keeps_runEach hvisit fuel
        | together => exact CodedFlow.keeps_runTogether hvisit fuel

end CodedGraph

end

/-! ## 4. What is handed down -/

/-- The parameters of a sub-run for an element: those around it overlaid with those of the element. -/
def Heap.Overlaid (h : Heap) (around : Addr) (d : Datum) (ms : Members Datum) : Prop :=
  ∃ a, (d = .ref a ∨ ∃ name, d = .store a name) ∧ ∀ key,
    Members.get? ms key = (Members.get? (h.membersAt a).reverse key).or (Members.get? (h.membersAt around) key)

theorem Heap.view_eq_dict {h : Heap} {d : Datum} {a : Addr} {ms : Members Value}
    (hview : h.view d = .dict (some a) ms) : d = .ref a := by
  cases d with
  | ref b =>
    rw [Heap.view, Heap.viewWithin] at hview
    split at hview
    · cases hview
    split at hview <;> cases hview
    rfl
  | store b name =>
    rw [Heap.view, Heap.viewWithin] at hview
    split at hview <;> cases hview
  | _ => cases hview

theorem Heap.view_eq_store {h : Heap} {d : Datum} {a : Addr} {name : String} {ms : Members Value}
    (hview : h.view d = .store a name ms) : d = .store a name := by
  cases d with
  | ref b =>
    rw [Heap.view, Heap.viewWithin] at hview
    split at hview
    · cases hview
    split at hview <;> cases hview
  | store b name =>
    rw [Heap.view, Heap.viewWithin] at hview
    split at hview <;> cases hview
    rfl
  | _ => cases hview

theorem overlaid_of_eq_ok {scene : Scene} {d : Datum} {w : World} {ms : Members Datum}
    (h : (Flow.overlaid scene d w).1 = .ok ms) : w.heap.Overlaid scene.params d ms := by
  unfold Flow.overlaid at h
  dsimp only at h
  split at h
  · next a _ hview =>
    obtain rfl := Except.ok.inj h
    exact ⟨a, Or.inl (Heap.view_eq_dict hview), Members.get?_putAll _ _⟩
  · next a name _ hview =>
    obtain rfl := Except.ok.inj h
    exact ⟨a, Or.inr ⟨name, Heap.view_eq_store hview⟩, Members.get?_putAll _ _⟩
  · cases h

/-! ## 5. Every graph -/

mutual

/-- A computation as a program that asks for nothing. -/
def Code.ofCoop {α : Type} : Coop World Datum α → Code α
  | .done r => .done r
  | .act x k => .act x fun b => Code.ofCoop (k b)
  | .turn k => .turn (Code.ofCoop k)
  | .gather parts k => .gather (allOfCoop parts) fun r => Code.ofCoop (k r)
termination_by structural x => x

/-- Parts as programs that ask for nothing. -/
def allOfCoop : List (Coop World Datum Datum) → List (Code Datum)
  | [] => []
  | p :: ps => .ofCoop p :: allOfCoop ps
termination_by structural ps => ps

end

mutual

theorem Code.given_ofCoop {α : Type} (cell : Addr) (x : Coop World Datum α) : (Code.ofCoop x).given cell = x := by
  match x with
  | .done r => rfl
  | .act x k =>
    rw [Code.ofCoop, Code.given]
    exact congrArg (Coop.act x) (funext fun b => Code.given_ofCoop cell (k b))
  | .turn k =>
    rw [Code.ofCoop, Code.given, Code.given_ofCoop cell k]
    rfl
  | .gather parts k =>
    rw [Code.ofCoop, Code.given, givenAll_allOfCoop cell parts]
    exact congrArg (Coop.gather parts) (funext fun r => Code.given_ofCoop cell (k r))
termination_by structural x

theorem givenAll_allOfCoop (cell : Addr) (ps : List (Coop World Datum Datum)) :
    givenAll cell (allOfCoop ps) = ps := by
  match ps with
  | [] => rfl
  | p :: ps => rw [allOfCoop, givenAll, Code.given_ofCoop cell p, givenAll_allOfCoop cell ps]
termination_by structural ps

end

/-- An action as a program that asks for nothing. -/
def Code.ofAct (x : Act World α) : Code α := .act x .done

/-- What happens at a node, told by a program that asks for the parameters before anything else. -/
def Conduct.coded : Conduct → CodedConduct
  | .blocking visit => .blocking fun shared => .params fun cell => .ofAct (visit ⟨shared, cell⟩)
  | .cooperative visit => .cooperative fun shared => .params fun cell => .ofCoop (visit ⟨shared, cell⟩)
  | .flow each f => .flow each
    { toFlowPlan := f.toFlowPlan
      prep := fun shared => .params fun cell => .ofAct (f.prep ⟨shared, cell⟩)
      post := fun shared a b => .params fun cell => .ofAct (f.post ⟨shared, cell⟩ a b) }
  | .cooperativeFlow fan f => .cooperativeFlow fan
    { toFlowPlan := f.toFlowPlan
      prep := fun shared => .params fun cell => .ofCoop (f.prep ⟨shared, cell⟩)
      post := fun shared a b => .params fun cell => .ofCoop (f.post ⟨shared, cell⟩ a b) }

theorem Conduct.given_coded (c : Conduct) : c.coded.given = c := by
  cases c with
  | blocking visit => rfl
  | cooperative visit => exact congrArg Conduct.cooperative (funext fun _ => Code.given_ofCoop _ _)
  | flow each f => rfl
  | cooperativeFlow fan f =>
    have hprep : ∀ scene, (Code.ofCoop (f.prep scene)).given scene.params = f.prep scene :=
      fun _ => Code.given_ofCoop _ _
    have hpost : ∀ scene a b, (Code.ofCoop (f.post scene a b)).given scene.params = f.post scene a b :=
      fun _ _ _ => Code.given_ofCoop _ _
    refine congrArg (Conduct.cooperativeFlow fan) ?_
    have hstages : ∀ {p : Scene → Coop World Datum Datum} {q : Scene → Datum → Datum → Coop World Datum Datum},
        (∀ scene, p scene = f.prep scene) → (∀ scene a b, q scene a b = f.post scene a b) →
        (⟨f.toFlowPlan, p, q⟩ : Flow (Coop World Datum)) = f := by
      intro p q hp hq
      rw [funext hp, show q = f.post from funext fun scene => funext fun a => funext fun b => hq scene a b]
    exact hstages hprep hpost

/-- Every graph is one whose nodes ask for their parameters. -/
theorem exists_given (g : Graph) : ∃ c : CodedGraph, c.given = g := by
  refine ⟨g.map fun n => ⟨n.name, n.title, n.lineage, n.kind, n.wiring, n.params, n.policy, n.conduct.coded⟩, ?_⟩
  unfold CodedGraph.given
  rw [List.map_map]
  refine (List.map_congr_left fun n _ => ?_).trans (List.map_id g)
  change Node.mk _ _ _ _ _ _ _ n.conduct.coded.given = n
  rw [Conduct.given_coded]

/-! ## 6. Parameters are isolated -/

/-- **The parameters of runs are isolated.** Let the nodes and flows of a graph ask for their parameters whenever they
like. However runs are nested and whoever goes on first, a visit does what it does when the parameters of the
innermost run around it are handed down to it, those of the node itself outside of any run, and leaves the variable
as it has found it, with a label as with a failure. So does each sub-run on its own; its parameters are a new object
that has those around it overlaid with those of its element. -/
theorem run_params_isolated (c : CodedGraph) (fuel : Nat) (shared : Shared) (slot : Current) (i : Nat) :
    let scene : Scene := ⟨shared, slot.getD (c.paramsAt i)⟩
    Act.Keeps slot (c.visit fuel shared i slot) (c.given.visit fuel scene i) ∧
    Coop.Keeps slot (c.visitWaiting fuel shared i slot) (c.given.visitWaiting fuel scene i) ∧
    (∀ {ε : Type} (C : Chronicle World ε) w,
      (Moment.start ((c.visitWaiting fuel shared i).copied slot) w).SameOrders C
        (Moment.start (c.given.visitWaiting fuel scene i) w)) ∧
    (∀ (f : CodedFlow) own ms,
      Act.Keeps slot ((f.inContext own).orchestrated c.given shared (c.visit fuel shared) fuel ms slot)
        (f.given.traverse c.given shared (c.given.visit fuel) fuel ms) ∧
      Coop.Keeps slot ((f.inContext own).orchestrated c.given shared (c.visitWaiting fuel shared) fuel ms slot)
        (f.given.traverse c.given shared (c.given.visitWaiting fuel) fuel ms)) ∧
    ∀ d w ms, (Flow.overlaid scene d w).1 = .ok ms → w.heap.Overlaid scene.params d ms ∧
      (w.entered ms).heap.membersAt (w.sceneOf shared ms).params = ms := by
  have hwaiting : Coop.Keeps slot (c.visitWaiting fuel shared i slot)
      (c.given.visitWaiting fuel ⟨shared, slot.getD (c.paramsAt i)⟩ i) := c.keeps_visitWaiting fuel shared slot i
  refine ⟨c.keeps_visit fuel shared slot i, hwaiting, fun C w => ?_, fun f own ms => ⟨?_, ?_⟩, fun d w ms h => ⟨?_, ?_⟩⟩
  · exact (Moment.mirrors_start (Coop.Keeps.copied hwaiting) w).sameOrders
  · exact keeps_orchestrated (m := Act World) rfl (fun cell i => c.keeps_visit fuel shared (some cell) i) fuel ms
  · exact keeps_orchestrated (m := Coop World Datum) rfl
      (fun cell i => c.keeps_visitWaiting fuel shared (some cell) i) fuel ms
  · exact overlaid_of_eq_ok h
  · have hcell : (w.entered ms).heap.cell? (w.sceneOf shared ms).params = some (.dict ms) := Heap.cell?_alloc_self _ _
    rw [Heap.membersAt, hcell]

/-! ## 7. A probe -/

namespace Probe

/-- A node that asks before and after it has given up control, and puts on record what it was told. -/
def code (_ : Shared) : Code Datum :=
  .params fun before => .turn (.params fun after => .act
    (fun w => ((), { w with
      journal := .finished "probe" (w.heap.view (.ref after)) :: .finished "probe" (w.heap.view (.ref before)) ::
        w.journal }))
    fun _ => .done (.ok .null))

/-- A flow that walks over the probe for two elements at once. -/
def fan : CodedFlow where
  toFlowPlan := ⟨"fan", some 1, .null, []⟩
  prep _ := .done (.ok (.ref 2))
  post _ _ _ := .done (.ok .null)

/-- The flow and the probe. -/
def graph : CodedGraph :=
  [⟨"fan", "AsyncParallelBatchFlow", [], "", [], 1, .standard, .cooperativeFlow .together fan⟩,
    ⟨"probe", "AsyncNode", [], "", [], 0, .standard, .cooperative code⟩]

/-- The flow has two parameters of its own, and each element overlays one of them. -/
def world : World :=
  ⟨⟨#[.dict [], .dict [("x", .int 0), ("y", .int 0)], .list [.ref 3, .ref 4], .dict [("x", .int 1)],
    .dict [("x", .int 2)]], 1⟩, .ofLimit none, #[], .none, []⟩

/-- Outside of any run, the sub-run for the first element has its parameter and the other one of the flow. -/
theorem run_params_isolated_probe :
    (Moment.start ((graph.visitWaiting 3 ⟨0, none⟩ 0).copied none) world).SameOrders World.chronicle
      (Moment.start (graph.given.visitWaiting 3 ⟨⟨0, none⟩, 1⟩ 0) world) ∧
    world.heap.Overlaid 1 (.ref 3) [("x", .int 1), ("y", .int 0)] := by
  obtain ⟨-, -, horders, -, hoverlaid⟩ := run_params_isolated graph 3 ⟨0, none⟩ none 0
  exact ⟨horders World.chronicle world, (hoverlaid (.ref 3) world _ rfl).1⟩

/-- Both sub-runs are told the same before and after. -/
example : ((((graph.visitWaiting 3 ⟨0, none⟩ 0).copied none).run 9 world).2.journal.map fun
    | .finished _ (.dict _ ms) => Members.get? ms "x"
    | _ => none) = [some (.int 2), some (.int 2), some (.int 1), some (.int 1)] := by
  rfl

end Probe

end NodeFlow
