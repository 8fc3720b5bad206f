import NodeFlow.Proofs.Run.Edges
import NodeFlow.Proofs.Run.Journey
import NodeFlow.Run.Stages
/-!
# Doing the same with waiting

A computation that may give up control follows an action: left alone it comes to the result and the state
that the action comes to, however often it gives way on the way. Stages, retries and walks are stated once
for both, so if the parts follow each other, so does what is made of them, and a walk that can wait follows
one that cannot over any number of steps.

The awkward thing up front: whoever drives a computation counts rounds, and each time it gives way costs
one. Where nothing ever gives way one round is enough, and two runs are the same under any bounds; else they
are the same once there are rounds enough. Both are wanted, so it is a parameter here whether giving way is
ruled out.
-/

set_option autoImplicit false

universe u

namespace NodeFlow

variable {σ ρ α β : Type}

/-! ## 1. Computations that are left alone -/

/-- Left alone, a computation that starts nothing together comes to a result and a state, and gives way so
many times before. -/
inductive Coop.Comes : {α : Type} → Coop σ ρ α → σ → Nat → Except Failure α → σ → Prop
  | done {α : Type} {r : Except Failure α} {s : σ} : Comes (.done r) s 0 r s
  | act {α β : Type} {m : σ → β × σ} {k : β → Coop σ ρ α} {s s' : σ} {n : Nat} {r : Except Failure α} :
    Comes (k (m s).1) (m s).2 n r s' → Comes (.act m k) s n r s'
  | turn {α : Type} {k : Coop σ ρ α} {s s' : σ} {n : Nat} {r : Except Failure α} :
    Comes k s n r s' → Comes (.turn k) s (n + 1) r s'

namespace Coop

theorem Comes.bind_ok {x : Coop σ ρ α} {f : α → Coop σ ρ β} {s s' s'' : σ} {n m : Nat} {a : α}
    {r : Except Failure β} (hx : x.Comes s n (.ok a) s') (hf : (f a).Comes s' m r s'') :
    (x.bind f).Comes s (n + m) r s'' := by
  generalize hr : Except.ok a = o at hx
  induction hx with
  | done =>
    subst hr
    rwa [Nat.zero_add]
  | act _ ih => exact .act (ih hf hr)
  | turn _ ih =>
    rw [Nat.add_right_comm]
    exact .turn (ih hf hr)

theorem Comes.bind_error {x : Coop σ ρ α} (f : α → Coop σ ρ β) {s s' : σ} {n : Nat} {e : Failure}
    (hx : x.Comes s n (.error e) s') : (x.bind f).Comes s n (.error e) s' := by
  generalize hr : Except.error e = o at hx
  induction hx with
  | done =>
    subst hr
    exact .done
  | act _ ih => exact .act (ih hr)
  | turn _ ih => exact .turn (ih hr)

theorem Comes.tryCatch_ok {x : Coop σ ρ α} (f : Failure → Coop σ ρ α) {s s' : σ} {n : Nat} {a : α}
    (hx : x.Comes s n (.ok a) s') : (x.tryCatch f).Comes s n (.ok a) s' := by
  generalize hr : Except.ok a = o at hx
  induction hx with
  | done =>
    subst hr
    exact .done
  | act _ ih => exact .act (ih hr)
  | turn _ ih => exact .turn (ih hr)

theorem Comes.tryCatch_error {x : Coop σ ρ α} {f : Failure → Coop σ ρ α} {s s' s'' : σ} {n m : Nat}
    {e : Failure} {r : Except Failure α} (hx : x.Comes s n (.error e) s') (hf : (f e).Comes s' m r s'') :
    (x.tryCatch f).Comes s (n + m) r s'' := by
  generalize hr : Except.error e = o at hx
  induction hx with
  | done =>
    subst hr
    rwa [Nat.zero_add]
  | act _ ih => exact .act (ih hf hr)
  | turn _ ih =>
    rw [Nat.add_right_comm]
    exact .turn (ih hf hr)

theorem comes_turns (n : Nat) (s : σ) : (turns n : Coop σ ρ Unit).Comes s n (.ok ()) s := by
  induction n with
  | zero => exact .done
  | succ n ih => exact .turn ih

/-- What comes to an end ends when it next stops, or gives way and comes to the same end from there. -/
theorem Comes.advance {x : Coop σ ρ α} {s s' : σ} {n : Nat} {r : Except Failure α}
    (h : x.Comes s n r s') :
    (n = 0 ∧ x.advance s = (.done r, s')) ∨
      ∃ m k t, n = m + 1 ∧ x.advance s = (.turn k, t) ∧ k.Comes t m r s' := by
  induction h with
  | done => exact Or.inl ⟨rfl, rfl⟩
  | act _ ih => exact ih
  | turn h _ => exact Or.inr ⟨_, _, _, rfl, rfl, h⟩

/-- Driven by itself, a computation comes to its end if there are more rounds than it gives way. -/
theorem Comes.run {x : Coop σ ρ ρ} {s s' : σ} {n : Nat} {r : Except Failure ρ} (h : x.Comes s n r s')
    {limit : Nat} (hlimit : n < limit) : x.run limit s = (r, s') := by
  obtain ⟨limit, rfl⟩ := Nat.exists_eq_succ_of_ne_zero (Nat.ne_zero_of_lt hlimit)
  induction n generalizing x s limit with
  | zero =>
    rcases h.advance with ⟨-, hadvance⟩ | ⟨m, k, t, hm, -⟩
    · simp [Coop.run, Pool.start, Pool.rounds, Pool.round, Pool.fire, Pool.resume, hadvance]
    · cases hm
  | succ n ih =>
    rcases h.advance with ⟨hn, -⟩ | ⟨m, k, t, hm, hadvance, hk⟩
    · cases hn
    · obtain rfl := Nat.succ.inj hm
      obtain ⟨limit, rfl⟩ := Nat.exists_eq_succ_of_ne_zero
        (Nat.ne_zero_of_lt (Nat.lt_of_succ_lt_succ hlimit))
      -- the next round begins as if the computation had only begun there
      have hround : (Pool.start x s).round = Pool.start k t := by
        simp [Pool.start, Pool.round, Pool.fire, Pool.resume, Pool.enqueue, hadvance]
      have hrun : x.run (limit + 1 + 1) s = k.run (limit + 1) t := by
        rw [Coop.run, Coop.run, Pool.rounds, hround]
        rfl
      rw [hrun]
      exact ih hk limit (Nat.lt_of_succ_lt_succ hlimit)

/-! ## 2. Following -/

/-- A computation follows an action: it comes to what the action comes to. If it is to be prompt it never
gives way. -/
def Follows (prompt : Prop) (x : Coop σ ρ α) (a : Act σ α) : Prop :=
  ∀ s, ∃ n, (prompt → n = 0) ∧ x.Comes s n (a s).1 (a s).2

variable {prompt : Prop}

/-- One after another; what comes second has to follow only for results that there can be. -/
theorem Follows.bind {x : Coop σ ρ α} {a : Act σ α} {f : α → Coop σ ρ β} {b : α → Act σ β}
    (hx : x.Follows prompt a) (hf : ∀ s c, (a s).1 = .ok c → (f c).Follows prompt (b c)) :
    (x.bind f).Follows prompt (a.bind b) := by
  intro s
  obtain ⟨n, hn, hx⟩ := hx s
  rw [Act.bind]
  rcases has : a s with ⟨r, s'⟩
  rw [has] at hx
  cases r with
  | error e => exact ⟨n, hn, hx.bind_error f⟩
  | ok c =>
    obtain ⟨m, hm, hf⟩ := hf s c (congrArg Prod.fst has) s'
    exact ⟨n + m, fun h => Nat.add_eq_zero_iff.2 ⟨hn h, hm h⟩, hx.bind_ok hf⟩

theorem Follows.tryCatch {x : Coop σ ρ α} {a : Act σ α} {f : Failure → Coop σ ρ α}
    {b : Failure → Act σ α} (hx : x.Follows prompt a) (hf : ∀ e, (f e).Follows prompt (b e)) :
    (x.tryCatch f).Follows prompt (a.tryCatch b) := by
  intro s
  obtain ⟨n, hn, hx⟩ := hx s
  rw [Act.tryCatch]
  rcases has : a s with ⟨r, s'⟩
  rw [has] at hx
  cases r with
  | ok c => exact ⟨n, hn, hx.tryCatch_ok f⟩
  | error e =>
    obtain ⟨m, hm, hf⟩ := hf e s'
    exact ⟨n + m, fun h => Nat.add_eq_zero_iff.2 ⟨hn h, hm h⟩, hx.tryCatch_error hf⟩

/-- A computation that gives way is done in rounds enough. -/
theorem Follows.exists_run {x : Coop σ ρ ρ} {a : Act σ ρ} (h : x.Follows prompt a) (s : σ) :
    ∃ rounds, ∀ limit, rounds ≤ limit → x.run limit s = a s := by
  obtain ⟨n, -, hx⟩ := h s
  exact ⟨n + 1, fun limit hlimit => hx.run hlimit⟩

end Coop

/-! ## 3. Both at once -/

/-- Where actions can be followed: among computations that may give up control, and among actions
themselves, where to follow is to be the same. -/
class Following (prompt : Prop) (σ : Type) (m : Type → Type u) [Performs σ m] where
  Follows {α : Type} : m α → Act σ α → Prop
  pure {α : Type} (a : α) : Follows (Pure.pure a) (Act.pure a)
  throw {α : Type} (e : Failure) : Follows (MonadExcept.throw e) (Act.fail e : Act σ α)
  perform {α : Type} (a : Act σ α) : Follows (Performs.perform a) a
  bind_of {α β : Type} {x : m α} {a : Act σ α} {f : α → m β} {b : α → Act σ β} :
    Follows x a → (∀ s c, (a s).1 = .ok c → Follows (f c) (b c)) → Follows (x >>= f) (a >>= b)
  tryCatch {α : Type} {x : m α} {a : Act σ α} {f : Failure → m α} {b : Failure → Act σ α} :
    Follows x a → (∀ e, Follows (f e) (b e)) →
    Follows (MonadExcept.tryCatch x f) (MonadExcept.tryCatch a b)

instance (prompt : Prop) : Following prompt σ (Act σ) where
  Follows x a := x = a
  pure _ := rfl
  throw _ := rfl
  perform _ := rfl
  bind_of {_ _ x a f b} hx hf := by
    subst hx
    funext s
    change Act.bind x f s = Act.bind x b s
    rw [Act.bind, Act.bind]
    split
    · next c s' h => exact congrFun (hf s c (congrArg Prod.fst h)) s'
    · rfl
  tryCatch hx hf := by rw [hx, funext hf]

instance (prompt : Prop) : Following prompt σ (Coop σ ρ) where
  Follows x a := x.Follows prompt a
  pure _ _ := ⟨0, fun _ => rfl, .done⟩
  throw _ _ := ⟨0, fun _ => rfl, .done⟩
  perform _ _ := ⟨0, fun _ => rfl, .act .done⟩
  bind_of hx hf := .bind hx hf
  tryCatch hx hf := .tryCatch hx hf

namespace Following

variable {prompt : Prop} {m : Type → Type u} [Performs World m] [Following prompt World m]

theorem bind {x : m α} {a : Act World α} {f : α → m β} {b : α → Act World β}
    (hx : Follows prompt x a) (hf : ∀ c, Follows prompt (f c) (b c)) :
    Follows prompt (x >>= f) (a >>= b) :=
  bind_of hx fun _ c _ => hf c

/-! ## 4. Stages -/

theorem course {prep : m α} {prep' : Act World α} {work : α → m β} {work' : α → Act World β}
    {post : α → β → m Datum} {post' : α → β → Act World Datum} (hprep : Follows prompt prep prep')
    (hwork : ∀ a, Follows prompt (work a) (work' a))
    (hpost : ∀ a b, Follows prompt (post a b) (post' a b)) :
    Follows prompt (course prep work post) (NodeFlow.course prep' work' post') :=
  bind hprep fun a => bind (hwork a) fun b => hpost a b

theorem eachOf {work : α → m β} {work' : α → Act World β}
    (hwork : ∀ a, Follows prompt (work a) (work' a)) (items : List α) :
    Follows prompt (eachOf items work) (NodeFlow.eachOf items work') := by
  induction items with
  | nil => exact Following.pure []
  | cons a rest ih => exact bind (hwork a) fun b => bind ih fun bs => Following.pure (b :: bs)

/-- Tries follow each other: induction on the tries that are left. -/
theorem retrying (policy : RetryPolicy) (idle : α) {work : Nat → m α} {work' : Nat → Act World α}
    {fallback : Failure → m α} {fallback' : Failure → Act World α}
    (hwork : ∀ k, Follows prompt (work k) (work' k))
    (hfallback : ∀ e, Follows prompt (fallback e) (fallback' e)) (left attempt : Nat) :
    Follows prompt (retrying policy idle work fallback left attempt)
      (NodeFlow.retrying policy idle work' fallback' left attempt) := by
  induction left generalizing attempt with
  | zero => exact Following.pure idle
  | succ left ih =>
    cases left with
    | zero => exact Following.tryCatch (hwork attempt) hfallback
    | succ left =>
      refine Following.tryCatch (hwork attempt) fun _ => ?_
      exact bind (Following.perform (policy.pause attempt)) fun _ => ih (attempt + 1)

theorem working (policy : RetryPolicy) (node : Nat) (idle : α) {work : m α} {work' : Act World α}
    {fallback : Failure → m α} {fallback' : Failure → Act World α} (hwork : Follows prompt work work')
    (hfallback : ∀ e, Follows prompt (fallback e) (fallback' e)) :
    Follows prompt (working policy node idle work fallback)
      (NodeFlow.working policy node idle work' fallback') := by
  refine bind (Following.perform (Act.ofFault policy.tries)) fun n => ?_
  refine retrying policy idle (fun k => ?_) hfallback n 1
  exact bind (Following.perform _) fun _ => hwork

/-- Stages follow others one by one. -/
structure Each (prompt : Prop) [Following prompt World m] (s : Stages m α β) (s' : Stages (Act World) α β) : Prop where
  prep : Follows prompt s.prep s'.prep
  exec : ∀ b, Follows prompt (s.exec b) (s'.exec b)
  fallback : ∀ b e, Follows prompt (s.fallback b e) (s'.fallback b e)
  post : ∀ a d, Follows prompt (s.post a d) (s'.post a d)

theorem Each.work {s : Stages m α β} {s' : Stages (Act World) α β} (h : Each prompt s s')
    (policy : RetryPolicy) (node : Nat) (b : β) :
    Follows prompt (s.work policy node b) (s'.work policy node b) :=
  working policy node Datum.null (h.exec b) (h.fallback b)

theorem Each.once {s : Stages m α α} {s' : Stages (Act World) α α} (h : Each prompt s s')
    (policy : RetryPolicy) (node : Nat) : Follows prompt (s.once policy node) (s'.once policy node) :=
  course h.prep (h.work policy node) h.post

theorem Each.inOrder {s : Stages m α β} {s' : Stages (Act World) α β} (h : Each prompt s s')
    (policy : RetryPolicy) (node : Nat) (elements : α → Act World (List β)) :
    Follows prompt (s.inOrder policy node elements) (s'.inOrder policy node elements) := by
  refine course h.prep (fun a => ?_) h.post
  refine bind (Following.perform (elements a)) fun items => ?_
  refine bind (eachOf (h.work policy node) items) fun results => ?_
  exact Following.perform _

end Following

/-! ## 5. Walks -/

/-- Two plans of one walk. Their names matter only if there is no node to start with, which is a failure
that names the flow. -/
structure FlowPlan.Alike (p p' : FlowPlan) : Prop where
  start : p.start = p'.start
  limit : p.limit = p'.limit
  listeners : p.listeners = p'.listeners
  name : p.start = none → p.name = p'.name

/-- Two graphs that look the same to a walk that keeps to some numbers, which the edges do not leave. -/
structure Graph.Alike (within : Nat → Prop) (g g' : Graph) : Prop where
  looks : ∀ i, within i →
    (g[i]?).map (fun n => (n.name, n.wiring)) = (g'[i]?).map fun n => (n.name, n.wiring)
  closed : ∀ i, within i → ∀ n, g[i]? = some n → ∀ l j, Members.get? n.wiring l = some j → within j

section

variable {prompt : Prop} {within : Nat → Prop} {g g' : Graph} {m : Type → Type u} [Performs World m]
  {f : Flow m} {f' : Flow (Act World)} {shared : Shared}

omit [Performs World m] in
theorem FlowPlan.Alike.tell_eq (h : f.toFlowPlan.Alike f'.toFlowPlan) (call : HookCall) :
    f.tell call = f'.tell call := by
  rw [Flow.tell, Flow.tell, h.listeners]

omit [Performs World m] in
theorem FlowPlan.Alike.checkSteps_eq (h : f.toFlowPlan.Alike f'.toFlowPlan) (step : Nat) :
    f.checkSteps step = f'.checkSteps step := by
  rw [Flow.checkSteps, Flow.checkSteps, h.limit]

/-- Two nodes of one name with the same edges are left in the same way. -/
theorem Node.follow_congr {n n' : Node} (hname : n.name = n'.name) (hwiring : n.wiring = n'.wiring)
    (shown : Value) : n.follow shown = n'.follow shown := by
  rw [follow, follow, next?, next?, endNote, endNote, hname, hwiring]

theorem Graph.Alike.cases (h : Graph.Alike within g g') {i : Nat} (hi : within i) :
    (g[i]? = none ∧ g'[i]? = none) ∨ ∃ n n', g[i]? = some n ∧ g'[i]? = some n' ∧
      n.name = n'.name ∧ n.wiring = n'.wiring := by
  have hlooks := h.looks i hi
  cases hn : g[i]? with
  | none =>
    rw [hn, Option.map_none, eq_comm, Option.map_eq_none_iff] at hlooks
    exact Or.inl ⟨rfl, hlooks⟩
  | some n =>
    rw [hn, Option.map_some, eq_comm, Option.map_eq_some_iff] at hlooks
    obtain ⟨n', hn', heq⟩ := hlooks
    obtain ⟨hname, hwiring⟩ := Prod.mk.inj heq
    exact Or.inr ⟨n, n', rfl, hn', hname.symm, hwiring.symm⟩

variable [Following prompt World m]

open Following in
/-- A walk follows another one if its visits do: induction on the visits that are left. -/
theorem Graph.Alike.walk (h : Graph.Alike within g g') (hplan : f.toFlowPlan.Alike f'.toFlowPlan)
    {visit : Nat → m Datum} {visit' : Nat → Act World Datum}
    (hvisit : ∀ i, within i → Following.Follows prompt (visit i) (visit' i)) (fuel step : Nat) {i : Nat}
    (hi : within i) :
    Following.Follows prompt (f.walk g shared visit fuel step i) (f'.walk g' shared visit' fuel step i) := by
  induction fuel generalizing step i with
  | zero => exact Following.throw _
  | succ fuel ih =>
    rw [Flow.walk, Flow.walk]
    rcases h.cases hi with ⟨hn, hn'⟩ | ⟨n, n', hn, hn', hname, hwiring⟩
    · rw [hn, hn']
      exact Following.throw _
    · rw [hn, hn']
      dsimp only
      simp only [← hplan.checkSteps_eq, ← hplan.tell_eq, ← hname, ← Node.follow_congr hname hwiring]
      refine bind (Following.perform _) fun _ => ?_
      refine bind (Following.perform _) fun _ => ?_
      refine bind (Following.tryCatch (hvisit i hi) fun e => ?_) fun label => ?_
      · exact bind (Following.perform _) fun _ => Following.throw e
      refine bind (Following.perform _) fun shown => ?_
      refine bind (Following.perform _) fun context => ?_
      refine bind (Following.perform _) fun _ => ?_
      -- only what a node leads to can follow it, and so the walk keeps to its numbers
      refine Following.bind_of (Following.perform _) fun w next hnext => ?_
      cases next with
      | none => exact bind (Following.perform _) fun _ => Following.pure label
      | some j =>
        obtain ⟨l, hl⟩ := Node.get?_of_next? (Node.next?_of_follow hnext)
        exact ih (step + 1) (h.closed i hi n hn l j hl)

open Following in
/-- So does a walk from the start, under parameters that are a new object each time. -/
theorem Graph.Alike.traverse (h : Graph.Alike within g g') (hplan : f.toFlowPlan.Alike f'.toFlowPlan)
    (hstart : ∀ i, f.start = some i → within i) {visit : Scene → Nat → m Datum}
    {visit' : Scene → Nat → Act World Datum}
    (hvisit : ∀ scene i, within i → Following.Follows prompt (visit scene i) (visit' scene i)) (fuel : Nat)
    (params : Members Datum) :
    Following.Follows prompt (f.traverse g shared visit fuel params)
      (f'.traverse g' shared visit' fuel params) := by
  rw [Flow.traverse, Flow.traverse, ← hplan.start]
  cases hf : f.start with
  | none =>
    rw [hplan.name hf]
    exact Following.throw _
  | some first =>
    refine bind (Following.perform _) fun cell => ?_
    exact h.walk hplan (hvisit _) fuel 0 (hstart first hf)

open Following in
/-- A flow that does nothing but walk follows another one with an alike plan. -/
theorem Graph.Alike.runOnce {p p' : FlowPlan} (h : Graph.Alike within g g') (hplan : p.Alike p')
    (hstart : ∀ i, p.start = some i → within i) {visit : Scene → Nat → m Datum}
    {visit' : Scene → Nat → Act World Datum}
    (hvisit : ∀ scene i, within i → Following.Follows prompt (visit scene i) (visit' scene i)) (fuel : Nat)
    (scene : Scene) :
    Following.Follows prompt ((Flow.plain p : Flow m).runOnce g visit fuel scene)
      ((Flow.plain p' : Flow (Act World)).runOnce g' visit' fuel scene) := by
  have hflows : (Flow.plain p : Flow m).Alike (Flow.plain p' : Flow (Act World)).toFlowPlan := hplan
  refine Following.course (Following.pure _) (fun _ => ?_) fun _ d => Following.pure d
  refine bind (Following.perform _) fun params => ?_
  exact Graph.Alike.traverse h hflows hstart hvisit fuel params

end

end NodeFlow
