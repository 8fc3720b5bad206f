import NodeFlow.Proofs.Run.Owners
/-!
# What holds at every moment

Everyone takes steps of one kind only, and whoever has stopped is ready to go on from any state that such steps lead
to. Then no order of things leads anywhere else, also not after the root has ended, when parts of a group that has
failed may still be under way.

In the middle of a stretch the state is known exactly: nobody else goes on before the next stop.
-/

set_option autoImplicit false

namespace NodeFlow

variable {σ ρ ε α β : Type}

/-! ## 1. Everyone in a pool -/

namespace Pool

/-- Something holds of every computation that is ready, and of every one that waits, whatever it goes on with. -/
structure All (P : Coop σ ρ ρ → Prop) (p : Pool σ ρ) : Prop where
  ready : ∀ owner x, .resume owner x ∈ p.queue → P x
  waiting : ∀ (g : Nat) (group : Group σ ρ), p.groups[g]? = some group → ∀ r, P (group.resume r)

variable {P : Coop σ ρ ρ → Prop} {p : Pool σ ρ}

theorem All.mono {P' : Coop σ ρ ρ → Prop} (h : p.All P) (himp : ∀ x, P x → P' x) : p.All P' :=
  ⟨fun owner x hx => himp x (h.ready owner x hx), fun g group hget r => himp _ (h.waiting g group hget r)⟩

theorem all_start {x : Coop σ ρ ρ} {s : σ} (hx : P x) : (start x s).All P where
  ready owner y hy := by
    cases List.mem_singleton.1 hy
    exact hx
  waiting g group hget := by simp [start] at hget

theorem All.enqueue {rs : List (Ready σ ρ)} (h : p.All P) (hrs : ∀ owner x, .resume owner x ∈ rs → P x) :
    (p.enqueue rs).All P where
  ready owner x hx := (List.mem_append.1 hx).elim (h.ready owner x) (hrs owner x)
  waiting := h.waiting

theorem All.setGroup (h : p.All P) (group : Group σ ρ) (hgroup : ∀ r, P (group.resume r)) (g : Nat) :
    ({ p with groups := p.groups.setIfInBounds g group } : Pool σ ρ).All P where
  ready := h.ready
  waiting g' other hget := by
    rw [Array.getElem?_setIfInBounds] at hget
    split at hget
    · split at hget
      · cases hget
        exact hgroup
      · cases hget
    · exact h.waiting g' other hget

theorem All.settle (h : p.All P) (group : Group σ ρ) (hgroup : ∀ r, P (group.resume r)) (g : Nat)
    (r : Except Failure (List ρ)) : (p.settle g group r).All P := by
  refine (h.setGroup { group with settled := true } hgroup g).enqueue fun owner x hx => ?_
  cases List.mem_singleton.1 hx
  exact hgroup r

theorem All.report (h : p.All P) (g place : Nat) (r : Except Failure ρ) : (p.report g place r).All P := by
  rw [Pool.report]
  split
  · exact h
  · next group hget =>
    have hgroup := h.waiting g group hget
    split
    · exact h
    · cases r with
      | error e => exact h.settle group hgroup g _
      | ok a =>
        dsimp only
        split
        · exact h.settle (group.with place a) hgroup g _
        · exact h.setGroup (group.with place a) hgroup g

/-- The telling of a member's end leaves the state alone. -/
theorem state_report (p : Pool σ ρ) (g place : Nat) (r : Except Failure ρ) : (p.report g place r).state = p.state := by
  rw [Pool.report]
  split
  · rfl
  · split
    · rfl
    · split
      · rfl
      · dsimp only
        split <;> rfl

theorem All.take {before after : List (Ready σ ρ)} {item : Ready σ ρ} (h : p.All P)
    (hqueue : p.queue = before ++ item :: after) : ({ p with queue := before ++ after } : Pool σ ρ).All P where
  ready owner x hx := by
    refine h.ready owner x ?_
    rw [hqueue]
    simp only [List.mem_append, List.mem_cons] at hx ⊢
    tauto
  waiting := h.waiting

theorem state_stopped (p : Pool σ ρ) (owner : Owner) (pause : Coop.Pause σ ρ ρ) (s : σ) :
    (p.stopped owner (pause, s)).state = s := by
  cases pause with
  | done r => cases owner <;> rfl
  | turn k => rfl
  | gather parts k => rfl

/-- Something holds of all that is left of a computation that has stopped. -/
def AllStopped (P : Coop σ ρ ρ → Prop) : Coop.Pause σ ρ ρ → Prop
  | .done _ => True
  | .turn k => P k
  | .gather parts k => (∀ x ∈ parts, P x) ∧ ∀ r, P (k r)

theorem All.stopped (h : p.All P) (pause : Coop.Pause σ ρ ρ) (hpause : AllStopped P pause) (owner : Owner) (s : σ) :
    (p.stopped owner (pause, s)).All P := by
  have hmoved : ({ p with state := s } : Pool σ ρ).All P := ⟨h.ready, h.waiting⟩
  cases pause with
  | done r =>
    cases owner with
    | root => exact ⟨h.ready, h.waiting⟩
    | member g i => exact hmoved.enqueue fun owner x hx => by cases List.mem_singleton.1 hx
  | turn k =>
    refine hmoved.enqueue fun owner x hx => ?_
    cases List.mem_singleton.1 hx
    exact hpause
  | gather parts k =>
    refine All.enqueue ⟨hmoved.ready, fun g group hget => ?_⟩ fun o x hx => ?_
    · rw [Array.getElem?_push] at hget
      split at hget
      · cases hget
        exact hpause.2
      · exact h.waiting g group hget
    · obtain ⟨i, y, hy, heq⟩ := mem_members_iff.1 hx
      cases heq
      exact hpause.1 _ (List.mem_of_getElem? hy)

end Pool

/-! ## 2. Steps of one kind -/

/-- A computation takes steps of one kind from a state on, and after each stop from whatever state such steps have
led to. What it starts together does so as well. -/
inductive Coop.Steady (C : Chronicle σ ε) (R : σ → σ → Prop) : σ → {α : Type} → Coop σ ρ α → Prop
  | done {s : σ} {α : Type} (r : Except Failure α) : Steady C R s (.done r)
  | act {s : σ} {α β : Type} {m : σ → β × σ} {k : β → Coop σ ρ α} :
    R s (m s).2 → Steady C R (m s).2 (k (m s).1) →
    (C.rests s (m s).2 → ∀ s', R (m s).2 s' → Steady C R s' (k (m s).1)) → Steady C R s (.act m k)
  | turn {s : σ} {α : Type} {k : Coop σ ρ α} : (∀ s', R s s' → Steady C R s' k) → Steady C R s (.turn k)
  | gather {s : σ} {α : Type} {parts : List (Coop σ ρ ρ)} {k : Except Failure (List ρ) → Coop σ ρ α} :
    (∀ x ∈ parts, ∀ s', R s s' → Steady C R s' x) → (∀ r s', R s s' → Steady C R s' (k r)) →
    Steady C R s (.gather parts k)

variable {C : Chronicle σ ε} {R : σ → σ → Prop} {s : σ}

namespace Coop

/-- After something that ends in a state of which a condition holds a computation goes on that is steady from there
on. -/
theorem Steady.bind {x : Coop σ ρ α} {f : α → Coop σ ρ β} {P : σ → Prop} (hP : ∀ s s', P s → R s s' → P s')
    (hx : x.Steady C R s) (hs : P s) (hf : ∀ a s', P s' → (f a).Steady C R s') : (x.bind f).Steady C R s := by
  induction hx with
  | @done s α r =>
    cases r with
    | ok a => exact hf a s hs
    | error e => exact .done _
  | act hstep _ _ ih ihrest =>
    have hnext := hP _ _ hs hstep
    exact .act hstep (ih hnext hf) fun hrests s' hs' => ihrest hrests s' hs' (hP _ _ hnext hs') hf
  | turn _ ih => exact .turn fun s' hs' => ih s' hs' (hP _ _ hs hs') hf
  | gather hparts _ _ ih => exact .gather hparts fun r s' hs' => ih r s' hs' (hP _ _ hs hs') hf

theorem Steady.tryCatch {x : Coop σ ρ α} {f : Failure → Coop σ ρ α} {P : σ → Prop}
    (hP : ∀ s s', P s → R s s' → P s') (hx : x.Steady C R s) (hs : P s)
    (hf : ∀ e s', P s' → (f e).Steady C R s') : (x.tryCatch f).Steady C R s := by
  induction hx with
  | @done s α r =>
    cases r with
    | ok a => exact .done _
    | error e => exact hf e s hs
  | act hstep _ _ ih ihrest =>
    have hnext := hP _ _ hs hstep
    exact .act hstep (ih hnext hf) fun hrests s' hs' => ihrest hrests s' hs' (hP _ _ hnext hs') hf
  | turn _ ih => exact .turn fun s' hs' => ih s' hs' (hP _ _ hs hs') hf
  | gather hparts _ _ ih => exact .gather hparts fun r s' hs' => ih r s' hs' (hP _ _ hs hs') hf

/-- Where a computation stops of itself, what is left of it is steady wherever such steps may lead meanwhile. -/
theorem Steady.stopped {x : Coop σ ρ ρ} {pause : Coop.Pause σ ρ ρ} (hx : x.Steady C R s) (hstop : x.stop? = some pause) :
    Pool.AllStopped (fun y => ∀ s', R s s' → y.Steady C R s') pause := by
  cases hx with
  | done r =>
    cases hstop
    trivial
  | act => cases hstop
  | turn hk =>
    cases hstop
    exact hk
  | @gather _ _ parts k hparts hk =>
    cases parts with
    | nil => cases hstop
    | cons y ys =>
      cases hstop
      exact ⟨hparts, fun r s' hs' => hk r s' hs'⟩

end Coop

namespace Moment

/-- Everyone is steady: who goes on right now from this state, and all others from any that steps may lead to. -/
structure Steady (C : Chronicle σ ε) (R : σ → σ → Prop) (m : Moment σ ρ) : Prop where
  pool : m.pool.All fun x => ∀ s', R m.pool.state s' → x.Steady C R s'
  now : ∀ owner x, m.now = some (owner, x) → x.Steady C R m.pool.state

variable {m n : Moment σ ρ} {t : Trace ε}

theorem Steady.step (hrefl : ∀ s, R s s) (htrans : ∀ {s s' s''}, R s s' → R s' s'' → R s s'')
    (h : m.Steady C R) (hstep : m.Step C t n) : R m.pool.state n.pool.state ∧ n.Steady C R := by
  have hlater : ∀ {p : Pool σ ρ} {s : σ}, R p.state s → p.All (fun x => ∀ s', R p.state s' → x.Steady C R s') →
      p.All fun x => ∀ s', R s s' → x.Steady C R s' := fun hs hall =>
    hall.mono fun x hx s' hs' => hx s' (htrans hs hs')
  obtain ⟨hpool, hnow⟩ := h
  cases hstep with
  | @begin p before after owner x hqueue =>
    refine ⟨hrefl _, hpool.take hqueue, fun o y hy => ?_⟩
    cases hy
    exact hpool.ready owner x (hqueue ▸ List.mem_append_right _ List.mem_cons_self) _ (hrefl _)
  | @report p before after g place r hqueue =>
    refine ⟨by rw [Pool.state_report]; exact hrefl _, ?_, fun o y hy => by cases hy⟩
    rw [Pool.state_report]
    exact (hpool.take hqueue).report g place r
  | @act p owner β a k =>
    cases hnow owner _ rfl with
    | act hstep hnext _ =>
      refine ⟨hstep, ⟨fun o x hx => ?_, fun g group hget r => ?_⟩, fun o x hx => ?_⟩
      · exact (hlater hstep hpool).ready o x hx
      · exact (hlater hstep hpool).waiting g group hget r
      · cases hx
        exact hnext
  | @rest p owner β a k hrests =>
    cases hnow owner _ rfl with
    | act hstep _ hrest =>
      refine ⟨hstep, ?_, fun o x hx => by cases hx⟩
      exact (hlater hstep hpool).stopped (.turn _) (hrest hrests) owner _
  | @skip p owner k =>
    cases hnow owner _ rfl with
    | gather _ hnext =>
      refine ⟨hrefl _, hpool, fun o x hx => ?_⟩
      cases hx
      exact hnext _ _ (hrefl _)
  | @stop p owner x pause hstop =>
    refine ⟨by rw [Pool.state_stopped]; exact hrefl _, ?_, fun o y hy => by cases hy⟩
    rw [Pool.state_stopped]
    exact hpool.stopped pause ((hnow owner x rfl).stopped hstop) owner _

/-- **In every order, things lead only where such steps lead.** -/
theorem Steady.steps (hrefl : ∀ s, R s s) (htrans : ∀ {s s' s''}, R s s' → R s' s'' → R s s'')
    (h : m.Steady C R) (hsteps : m.Steps C t n) : R m.pool.state n.pool.state := by
  induction hsteps with
  | refl => exact hrefl _
  | step hstep _ ih =>
    obtain ⟨hnext, hsteady⟩ := h.step hrefl htrans hstep
    exact htrans hnext (ih hsteady)

theorem steady_start {x : Coop σ ρ ρ} (hx : ∀ s', R s s' → x.Steady C R s') : (start x s).Steady C R where
  pool := Pool.all_start hx
  now _ _ hy := nomatch hy

end Moment

end NodeFlow
