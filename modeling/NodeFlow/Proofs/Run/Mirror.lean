import NodeFlow.Proofs.Run.Interleave
import NodeFlow.Proofs.Run.Lockstep
/-!
# Computations that do the same

Two computations that change the state alike in each step, give up control at the same places and start parts that
do the same again, cannot be told apart by whoever drives them: to each order in which things happen for one there
is the same order for the other, with the same records and states, and what is under way does the same still.

They need not be equal, since an action may answer something else as long as the same follows from it.
-/

set_option autoImplicit false

namespace NodeFlow

variable {σ ρ ε α β γ δ : Type}

/-! ## 1. Computations -/

/-- A computation does step by step what another one does, and their ends are related. -/
inductive Coop.Mirrors : {α β : Type} → (Except Failure α → Except Failure β → Prop) → Coop σ ρ α → Coop σ ρ β → Prop
  | done {α β : Type} {R : Except Failure α → Except Failure β → Prop} {r : Except Failure α}
    {s : Except Failure β} : R r s → Mirrors R (.done r) (.done s)
  | act {α β γ δ : Type} {R : Except Failure α → Except Failure β → Prop} {x : σ → γ × σ} {y : σ → δ × σ}
    {k : γ → Coop σ ρ α} {l : δ → Coop σ ρ β} : (∀ s, (x s).2 = (y s).2) →
    (∀ s, Mirrors R (k (x s).1) (l (y s).1)) → Mirrors R (.act x k) (.act y l)
  | turn {α β : Type} {R : Except Failure α → Except Failure β → Prop} {k : Coop σ ρ α} {l : Coop σ ρ β} :
    Mirrors R k l → Mirrors R (.turn k) (.turn l)
  | gather {α β : Type} {R : Except Failure α → Except Failure β → Prop} {ps qs : List (Coop σ ρ ρ)}
    {k : Except Failure (List ρ) → Coop σ ρ α} {l : Except Failure (List ρ) → Coop σ ρ β} :
    ps.length = qs.length → (∀ (i : Nat) (p q : Coop σ ρ ρ), ps[i]? = some p → qs[i]? = some q → Mirrors Eq p q) →
    (∀ r, Mirrors R (k r) (l r)) → Mirrors R (.gather ps k) (.gather qs l)

namespace Coop

variable {R : Except Failure α → Except Failure β → Prop} {x : Coop σ ρ α} {y : Coop σ ρ β}

theorem Mirrors.mono {S : Except Failure α → Except Failure β → Prop} (h : x.Mirrors R y)
    (himp : ∀ r s, R r s → S r s) : x.Mirrors S y := by
  induction h with
  | done hR => exact .done (himp _ _ hR)
  | act hstate _ ih => exact .act hstate fun s => ih s himp
  | turn _ ih => exact .turn (ih himp)
  | gather hlength hparts _ _ ih => exact .gather hlength hparts fun r => ih r himp

theorem Mirrors.symm (h : x.Mirrors R y) : y.Mirrors (fun s r => R r s) x := by
  induction h with
  | done hR => exact .done hR
  | act hstate _ ih => exact .act (fun s => (hstate s).symm) ih
  | turn _ ih => exact .turn ih
  | gather hlength _ _ ihparts ih =>
    refine .gather hlength.symm (fun i p q hp hq => ?_) ih
    exact (ihparts i q p hq hp).mono fun _ _ h => h.symm

theorem Mirrors.exists_act {m : σ → γ × σ} {k : γ → Coop σ ρ α} (h : (Coop.act m k).Mirrors R y) :
    ∃ (δ : Type) (n : σ → δ × σ) (l : δ → Coop σ ρ β), y = .act n l ∧ (∀ s, (m s).2 = (n s).2) ∧
      ∀ s, (k (m s).1).Mirrors R (l (n s).1) := by
  cases h with
  | act hstate hrest => exact ⟨_, _, _, rfl, hstate, hrest⟩

/-- To do the same goes both ways. -/
theorem Mirrors.symm_eq {x y : Coop σ ρ α} (h : x.Mirrors Eq y) : y.Mirrors Eq x :=
  h.symm.mono fun _ _ h => h.symm

/-- Goes on with however a computation ends. -/
def andThen (x : Coop σ ρ α) (F : Except Failure α → Coop σ ρ γ) : Coop σ ρ γ :=
  match x with
  | .done r => F r
  | .act m k => .act m fun b => (k b).andThen F
  | .turn k => .turn (k.andThen F)
  | .gather parts k => .gather parts fun r => (k r).andThen F
termination_by structural x

theorem bind_eq_andThen (x : Coop σ ρ α) (f : α → Coop σ ρ γ) :
    x.bind f = x.andThen fun r => match r with
      | .ok a => f a
      | .error e => .done (.error e) := by
  fun_induction Coop.bind x f with
  | case1 f a => rfl
  | case2 f e => rfl
  | case3 α f β m k ih =>
    rw [andThen]
    exact congrArg _ (funext ih)
  | case4 α f k ih => rw [andThen, ih]
  | case5 α f parts k ih =>
    rw [andThen]
    exact congrArg _ (funext ih)

theorem tryCatch_eq_andThen (x : Coop σ ρ α) (handler : Failure → Coop σ ρ α) :
    x.tryCatch handler = x.andThen fun r => match r with
      | .ok a => .done (.ok a)
      | .error e => handler e := by
  fun_induction Coop.tryCatch x handler with
  | case1 a => rfl
  | case2 e => rfl
  | case3 α handler β m k ih =>
    rw [andThen]
    exact congrArg _ (funext ih)
  | case4 α handler k ih => rw [andThen, ih]
  | case5 α handler parts k ih =>
    rw [andThen]
    exact congrArg _ (funext ih)

/-- What goes on after computations that do the same does the same, if it does after related ends. -/
theorem Mirrors.andThen {S : Except Failure γ → Except Failure δ → Prop} {F : Except Failure α → Coop σ ρ γ}
    {G : Except Failure β → Coop σ ρ δ} (h : x.Mirrors R y) (hrest : ∀ r s, R r s → (F r).Mirrors S (G s)) :
    (x.andThen F).Mirrors S (y.andThen G) := by
  induction h with
  | done hR => exact hrest _ _ hR
  | act hstate _ ih => exact .act hstate fun s => ih s hrest
  | turn _ ih => exact .turn (ih hrest)
  | gather hlength hparts _ _ ih => exact .gather hlength hparts fun r => ih r hrest

/-- The same if the other one is not gone on with. -/
theorem Mirrors.andThen_done {S : Except Failure γ → Except Failure β → Prop} {F : Except Failure α → Coop σ ρ γ}
    (h : x.Mirrors R y) (hrest : ∀ r s, R r s → (F r).Mirrors S (.done s)) : (x.andThen F).Mirrors S y := by
  induction h with
  | done hR => exact hrest _ _ hR
  | act hstate _ ih => exact .act hstate fun s => ih s hrest
  | turn _ ih => exact .turn (ih hrest)
  | gather hlength hparts _ _ ih => exact .gather hlength hparts fun r => ih r hrest

end Coop

/-! ## 2. What is under way -/

/-- The same thing is ready, up to computations that do the same. -/
inductive Ready.Mirrors : Ready σ ρ → Ready σ ρ → Prop
  | resume (owner : Owner) {x y : Coop σ ρ ρ} : x.Mirrors Eq y → Mirrors (.resume owner x) (.resume owner y)
  | report (group place : Nat) (r : Except Failure ρ) : Mirrors (.report group place r) (.report group place r)

/-- The same group waits, up to computations that do the same. -/
structure Group.Mirrors (a b : Group σ ρ) : Prop where
  owner : a.owner = b.owner
  results : a.results = b.results
  settled : a.settled = b.settled
  resume : ∀ r, (a.resume r).Mirrors Eq (b.resume r)

/-- The same is under way, up to computations that do the same. -/
structure Pool.Mirrors (p q : Pool σ ρ) : Prop where
  state : p.state = q.state
  size : p.groups.size = q.groups.size
  groups : ∀ g : Nat, Option.Rel Group.Mirrors p.groups[g]? q.groups[g]?
  queue : List.Forall₂ Ready.Mirrors p.queue q.queue
  result : p.result = q.result

namespace Pool

variable {p q : Pool σ ρ}

theorem Mirrors.enqueue {rs ss : List (Ready σ ρ)} (h : p.Mirrors q) (hrs : List.Forall₂ Ready.Mirrors rs ss) :
    (p.enqueue rs).Mirrors (q.enqueue ss) :=
  { h with queue := List.rel_append h.queue hrs }

/-- A new group begins to wait. -/
theorem Mirrors.push {a b : Group σ ρ} (h : p.Mirrors q) (hab : a.Mirrors b) (s : σ) :
    Mirrors { p with state := s, groups := p.groups.push a } { q with state := s, groups := q.groups.push b } where
  state := rfl
  size := by
    rw [Array.size_push, Array.size_push, h.size]
  groups g := by
    rw [Array.getElem?_push, Array.getElem?_push, h.size]
    split
    · exact .some hab
    · exact h.groups g
  queue := h.queue
  result := h.result

/-- A group changes. -/
theorem Mirrors.setGroup {a b : Group σ ρ} (h : p.Mirrors q) (hab : a.Mirrors b) (g : Nat) :
    Mirrors { p with groups := p.groups.setIfInBounds g a } { q with groups := q.groups.setIfInBounds g b } where
  state := h.state
  size := by
    rw [Array.size_setIfInBounds, Array.size_setIfInBounds, h.size]
  groups g' := by
    rw [Array.getElem?_setIfInBounds, Array.getElem?_setIfInBounds, h.size]
    split
    · split
      · exact .some hab
      · exact .none
    · exact h.groups g'
  queue := h.queue
  result := h.result

theorem Mirrors.settle {a b : Group σ ρ} (h : p.Mirrors q) (hab : a.Mirrors b) (g : Nat)
    (r : Except Failure (List ρ)) : (p.settle g a r).Mirrors (q.settle g b r) := by
  have hsettled : Group.Mirrors { a with settled := true } { b with settled := true } :=
    ⟨hab.owner, hab.results, rfl, hab.resume⟩
  have hitem : Ready.Mirrors (.resume a.owner (a.resume r)) (.resume b.owner (b.resume r)) := by
    rw [hab.owner]
    exact .resume _ (hab.resume r)
  exact (h.setGroup hsettled g).enqueue (.cons hitem .nil)

theorem Mirrors.report (h : p.Mirrors q) (g place : Nat) (r : Except Failure ρ) :
    (p.report g place r).Mirrors (q.report g place r) := by
  have hgroup := h.groups g
  unfold Pool.report
  cases ha : p.groups[g]? with
  | none =>
    rw [ha] at hgroup
    cases hb : q.groups[g]? with
    | none => exact h
    | some b =>
      rw [hb] at hgroup
      cases hgroup
  | some a =>
    rw [ha] at hgroup
    cases hb : q.groups[g]? with
    | none =>
      rw [hb] at hgroup
      cases hgroup
    | some b =>
      rw [hb] at hgroup
      cases hgroup with
      | some hab =>
        obtain ⟨owner, results, settled, resume⟩ := a
        obtain ⟨owner', results', settled', resume'⟩ := b
        obtain ⟨rfl, rfl, rfl, hresume⟩ := hab
        have hsame : ∀ results, Group.Mirrors ⟨owner, results, settled, resume⟩ ⟨owner, results, settled, resume'⟩ :=
          fun _ => ⟨rfl, rfl, rfl, hresume⟩
        dsimp only
        split
        · exact h
        · cases r with
          | error e => exact h.settle (hsame _) g _
          | ok v =>
            dsimp only
            cases complete? (results.setIfInBounds place (some v)) with
            | none => exact h.setGroup (hsame _) g
            | some vs => exact h.settle (hsame _) g _

/-- Computations that do the same have stopped. -/
theorem Mirrors.stopped {x y : Coop σ ρ ρ} {pause : Coop.Pause σ ρ ρ} (h : p.Mirrors q) (hxy : x.Mirrors Eq y)
    (owner : Owner) (hx : x.stop? = some pause) (s : σ) :
    ∃ pause', y.stop? = some pause' ∧ (p.stopped owner (pause, s)).Mirrors (q.stopped owner (pause', s)) := by
  have hstate : Mirrors { p with state := s } { q with state := s } := { h with state := rfl }
  cases hxy with
  | @done _ _ _ r r' hr =>
    subst hr
    cases hx
    refine ⟨_, rfl, ?_⟩
    cases owner with
    | root => exact { hstate with result := rfl }
    | member g i => exact hstate.enqueue (.cons (.report g i r) .nil)
  | act => cases hx
  | turn hkl =>
    cases hx
    exact ⟨_, rfl, hstate.enqueue (.cons (.resume owner hkl) .nil)⟩
  | @gather _ _ _ ps qs k l hlength hparts hrest =>
    cases ps with
    | nil => cases hx
    | cons x xs =>
      cases qs with
      | nil => cases hlength
      | cons y ys =>
        cases hx
        have hgroup : Group.Mirrors ⟨owner, Array.replicate (x :: xs).length none, false, k⟩
            ⟨owner, Array.replicate (y :: ys).length none, false, l⟩ :=
          ⟨rfl, congrArg (Array.replicate · none) hlength, rfl, hrest⟩
        have hmembers : List.Forall₂ Ready.Mirrors (members p.groups.size 0 (x :: xs))
            (members p.groups.size 0 (y :: ys)) :=
          forall₂_members _ _ hlength fun i x y hx hy n => .resume _ (hparts i x y hx hy)
        refine ⟨_, rfl, ?_⟩
        unfold Pool.stopped
        rw [h.size] at hmembers ⊢
        exact (h.push hgroup s).enqueue hmembers

end Pool

/-! ## 3. Every order -/

namespace Moment

/-- The same is going on, up to computations that do the same. -/
structure Mirrors (m n : Moment σ ρ) : Prop where
  pool : m.pool.Mirrors n.pool
  now : Option.Rel (fun a b => a.1 = b.1 ∧ a.2.Mirrors Eq b.2) m.now n.now

variable {C : Chronicle σ ε} {m n m' : Moment σ ρ} {t : Trace ε}

theorem mirrors_start {x y : Coop σ ρ ρ} (h : x.Mirrors Eq y) (s : σ) : (start x s).Mirrors (start y s) where
  pool := ⟨rfl, rfl, fun _ => .none, .cons (.resume .root h) .nil, rfl⟩
  now := .none

theorem rel_swap {A B : Type*} {R : A → B → Prop} {S : B → A → Prop} {a : Option A} {b : Option B}
    (h : Option.Rel R a b) (hswap : ∀ a b, R a b → S b a) : Option.Rel S b a := by
  cases h with
  | some h => exact .some (hswap _ _ h)
  | none => exact .none

/-- What stands in a row of the same things stands in the same place. -/
theorem exists_of_forall₂_append {before after queue : List (Ready σ ρ)} {item : Ready σ ρ}
    (h : List.Forall₂ Ready.Mirrors (before ++ item :: after) queue) :
    ∃ before' item' after', queue = before' ++ item' :: after' ∧ item.Mirrors item' ∧
      List.Forall₂ Ready.Mirrors (before ++ after) (before' ++ after') := by
  induction before generalizing queue with
  | nil =>
    cases h with
    | cons hitem hafter => exact ⟨[], _, _, rfl, hitem, hafter⟩
  | cons first before ih =>
    cases h with
    | cons hfirst hrest =>
      obtain ⟨before', item', after', rfl, hitem, hall⟩ := ih hrest
      exact ⟨_ :: before', item', after', rfl, hitem, .cons hfirst hall⟩

/-- Who goes on for one goes on for the other. -/
theorem exists_now {owner : Owner} {x : Coop σ ρ ρ} {now : Option (Owner × Coop σ ρ ρ)}
    (h : Option.Rel (fun a b => a.1 = b.1 ∧ a.2.Mirrors Eq b.2) (some (owner, x)) now) :
    ∃ y, now = some (owner, y) ∧ x.Mirrors Eq y := by
  cases h with
  | @some a b hab =>
    obtain ⟨owner', y⟩ := b
    obtain ⟨rfl, hxy⟩ := hab
    exact ⟨y, rfl, hxy⟩

theorem Mirrors.symm (h : m.Mirrors n) : n.Mirrors m where
  pool :=
    { state := h.pool.state.symm
      size := h.pool.size.symm
      groups := fun g => rel_swap (h.pool.groups g) fun _ _ hab =>
        ⟨hab.owner.symm, hab.results.symm, hab.settled.symm, fun r => (hab.resume r).symm_eq⟩
      queue := h.pool.queue.flip.imp fun _ _ hab => by
        cases hab with
        | resume owner hxy => exact .resume owner hxy.symm_eq
        | report g place r => exact .report g place r
      result := h.pool.result.symm }
  now := rel_swap h.now fun _ _ hab => ⟨hab.1.symm, hab.2.symm_eq⟩

/-- What happens for one happens for the other. -/
theorem Mirrors.step (h : m.Mirrors n) (hstep : m.Step C t m') : ∃ n', n.Step C t n' ∧ m'.Mirrors n' := by
  obtain ⟨q, now⟩ := n
  obtain ⟨hpool, hnow⟩ := h
  cases hstep with
  | @begin p before after owner x hqueue =>
    cases hnow
    have hrow := hpool.queue
    rw [hqueue] at hrow
    obtain ⟨before', item', after', hqueue', hitem, hall⟩ := exists_of_forall₂_append hrow
    cases hitem with
    | resume _ hxy => exact ⟨_, .begin before' hqueue', { hpool with queue := hall }, .some ⟨rfl, hxy⟩⟩
  | @report p before after g place r hqueue =>
    cases hnow
    have hrow := hpool.queue
    rw [hqueue] at hrow
    obtain ⟨before', item', after', hqueue', hitem, hall⟩ := exists_of_forall₂_append hrow
    cases hitem
    have htaken : Pool.Mirrors { p with queue := before ++ after } { q with queue := before' ++ after' } :=
      { hpool with queue := hall }
    exact ⟨_, .report before' hqueue', htaken.report g place r, .none⟩
  | @act p owner β x k =>
    -- the other performs an action as well, maybe another one, that leads to the same state
    obtain ⟨y, rfl, hxy⟩ := exists_now hnow
    obtain ⟨γ, y, l, rfl, hstate, hrest⟩ := hxy.exists_act
    have hnext : (x p.state).2 = (y q.state).2 := by rw [hstate p.state, hpool.state]
    refine ⟨⟨{ q with state := (y q.state).2 }, some (owner, l (y q.state).1)⟩, ?_, ?_, ?_⟩
    · rw [hnext, hpool.state]
      exact .act
    · exact { hpool with state := hnext }
    · rw [hpool.state]
      exact .some ⟨rfl, hrest q.state⟩
  | @rest p owner β x k hrests =>
    obtain ⟨y, rfl, hxy⟩ := exists_now hnow
    obtain ⟨γ, y, l, rfl, hstate, hrest⟩ := hxy.exists_act
    have hnext : (x p.state).2 = (y q.state).2 := by rw [hstate p.state, hpool.state]
    rw [hnext, hpool.state] at hrests
    refine ⟨⟨q.stopped owner (.turn (l (y q.state).1), (y q.state).2), none⟩, ?_, ?_, .none⟩
    · rw [hnext, hpool.state]
      exact .rest hrests
    · have hmoved : Pool.Mirrors { p with state := (y q.state).2 } { q with state := (y q.state).2 } :=
        { hpool with state := rfl }
      rw [hnext, hpool.state]
      exact hmoved.enqueue (.cons (.resume owner (hrest q.state)) .nil)
  | @skip p owner k =>
    obtain ⟨y, rfl, hxy⟩ := exists_now hnow
    cases hxy with
    | @gather _ _ _ _ qs _ l hlength _ hrest =>
      rw [List.length_nil, eq_comm, List.length_eq_zero_iff] at hlength
      subst hlength
      exact ⟨_, .skip, hpool, .some ⟨rfl, hrest _⟩⟩
  | @stop p owner x pause hstop =>
    obtain ⟨y, rfl, hxy⟩ := exists_now hnow
    obtain ⟨pause', hstop', hstopped⟩ := hpool.stopped hxy owner hstop p.state
    rw [hpool.state] at hstopped ⊢
    exact ⟨_, .stop hstop', hstopped, .none⟩

/-- To each order in which things happen for one there is the same for the other. -/
theorem Mirrors.steps (h : m.Mirrors n) (hsteps : m.Steps C t m') : ∃ n', n.Steps C t n' ∧ m'.Mirrors n' := by
  induction hsteps generalizing n with
  | refl => exact ⟨n, .refl, h⟩
  | step hstep _ ih =>
    obtain ⟨n₁, hstep', h₁⟩ := h.step hstep
    obtain ⟨n₂, hsteps', h₂⟩ := ih h₁
    exact ⟨n₂, .step hstep' hsteps', h₂⟩

/-- Whatever can happen for one can happen for the other, with the same records and states on the way. -/
def SameOrders (C : Chronicle σ ε) (m n : Moment σ ρ) : Prop :=
  (∀ t m', m.Steps C t m' → ∃ n', n.Steps C t n' ∧ m'.Mirrors n') ∧
    ∀ t n', n.Steps C t n' → ∃ m', m.Steps C t m' ∧ m'.Mirrors n'

theorem Mirrors.sameOrders (h : m.Mirrors n) : m.SameOrders C n := by
  refine ⟨fun t m' hsteps => h.steps hsteps, fun t n' hsteps => ?_⟩
  obtain ⟨m', hsteps', h'⟩ := h.symm.steps hsteps
  exact ⟨m', hsteps', h'.symm⟩

end Moment

end NodeFlow
