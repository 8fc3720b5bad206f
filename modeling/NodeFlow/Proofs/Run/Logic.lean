import NodeFlow.Run.Act
import NodeFlow.Run.Coop
/-!
# Reasoning about runs

What can be said of an action and of a computation that may give up control, in one way for both: it
keeps an invariant of the state, and in the end a condition holds of its result.

The awkward thing up front: while a computation waits others go on, so nothing that it has found out
about the state is sure to hold when it goes on. What it can rely on is a mark of the state that only
the root of a run may change. The root knows the mark at any moment. Computations that are started
together know nothing of it and leave it as it is, at every single step.
-/

set_option autoImplicit false

universe u

namespace NodeFlow

/-- What computations are held to: an invariant of the state, a mark that only the root of a run may
change, and what holds of the results of computations that are started together. -/
structure Regime (σ ρ τ : Type) where
  inv : σ → Prop
  mark : σ → τ
  part : Except Failure ρ → Prop

namespace Regime

variable {σ ρ τ : Type}

/-- A state that is possible by the invariant and by what is known of the mark. -/
structure Admits (R : Regime σ ρ τ) (known : Option τ) (s : σ) : Prop where
  inv : R.inv s
  mark : ∀ h, known = some h → R.mark s = h

/-- A step that is allowed: the invariant is kept, and the mark if it is unknown. -/
structure Allows (R : Regime σ ρ τ) (known : Option τ) (s s' : σ) : Prop where
  inv : R.inv s'
  mark : known = none → R.mark s' = R.mark s

/-- What is known of the mark after a step: as much as before. -/
def after (R : Regime σ ρ τ) (known : Option τ) (s : σ) : Option τ :=
  known.map fun _ => R.mark s

/-- Computations that were started together have ended: all of them, or one has failed. -/
def Gathered (R : Regime σ ρ τ) : Except Failure (List ρ) → Prop
  | .ok as => ∀ a ∈ as, R.part (.ok a)
  | .error e => R.part (.error e)

theorem Allows.admits {R : Regime σ ρ τ} {known : Option τ} {s s' : σ} (h : R.Allows known s s') :
    R.Admits (R.after known s') s' where
  inv := h.inv
  mark h hknown := by
    cases known with
    | none => cases hknown
    | some _ => exact Option.some.inj hknown

theorem Admits.after_eq {R : Regime σ ρ τ} {known : Option τ} {s : σ} (h : R.Admits known s) :
    R.after known s = known := by
  cases known with
  | none => rfl
  | some t => exact congrArg some (h.mark t rfl)

theorem after_after (R : Regime σ ρ τ) (known : Option τ) (s s' : σ) :
    R.after (R.after known s) s' = R.after known s' := by
  cases known <;> rfl

theorem Allows.trans {R : Regime σ ρ τ} {known : Option τ} {s s' s'' : σ}
    (h : R.Allows known s s') (h' : R.Allows (R.after known s') s' s'') :
    R.Allows known s s'' where
  inv := h'.inv
  mark hnone := by
    subst hnone
    exact (h'.mark rfl).trans (h.mark rfl)

theorem Admits.refl {R : Regime σ ρ τ} {known : Option τ} {s : σ} (h : R.Admits known s) :
    R.Allows known s s := ⟨h.inv, fun _ => rfl⟩

end Regime

variable {σ ρ τ : Type} {α β : Type}

/-! ## 1. Actions -/

/-- From every possible state an action makes an allowed step, and a condition holds of its result and
of what is then known of the mark. -/
def Act.Meets (R : Regime σ ρ τ) (known : Option τ) (x : Act σ α)
    (Q : Except Failure α → Option τ → Prop) : Prop :=
  ∀ s, R.Admits known s → R.Allows known s (x s).2 ∧ Q (x s).1 (R.after known (x s).2)

namespace Act

variable {R : Regime σ ρ τ} {known : Option τ} {P : Except Failure α → Option τ → Prop}
  {Q : Except Failure β → Option τ → Prop}

theorem Meets.mono {x : Act σ α} {P' : Except Failure α → Option τ → Prop}
    (hx : Meets R known x P) (himp : ∀ r k, P r k → P' r k) : Meets R known x P' :=
  fun s hs => ⟨(hx s hs).1, himp _ _ (hx s hs).2⟩

theorem Meets.pure {a : α} (ha : P (.ok a) known) : Meets R known (Act.pure a) P :=
  fun _ hs => ⟨hs.refl, hs.after_eq.symm ▸ ha⟩

theorem Meets.fail {e : Failure} (he : P (.error e) known) : Meets R known (Act.fail e) P :=
  fun _ hs => ⟨hs.refl, hs.after_eq.symm ▸ he⟩

theorem Meets.bind {x : Act σ α} {f : α → Act σ β} (hx : Meets R known x P)
    (hok : ∀ a k, P (.ok a) k → Meets R k (f a) Q)
    (herror : ∀ e k, P (.error e) k → Q (.error e) k) : Meets R known (Act.bind x f) Q := by
  intro s hs
  obtain ⟨hallows, hP⟩ := hx s hs
  rw [Act.bind]
  rcases hxs : x s with ⟨r, s'⟩
  rw [hxs] at hallows hP
  cases r with
  | error e => exact ⟨hallows, herror e _ hP⟩
  | ok a =>
    obtain ⟨hallows', hQ⟩ := hok a _ hP s' hallows.admits
    rw [R.after_after] at hQ
    exact ⟨hallows.trans hallows', hQ⟩

theorem Meets.tryCatch {x : Act σ α} {f : Failure → Act σ α}
    {P' : Except Failure α → Option τ → Prop} (hx : Meets R known x P)
    (hok : ∀ a k, P (.ok a) k → P' (.ok a) k)
    (herror : ∀ e k, P (.error e) k → Meets R k (f e) P') :
    Meets R known (Act.tryCatch x f) P' := by
  intro s hs
  obtain ⟨hallows, hP⟩ := hx s hs
  rw [Act.tryCatch]
  rcases hxs : x s with ⟨r, s'⟩
  rw [hxs] at hallows hP
  cases r with
  | ok a => exact ⟨hallows, hok a _ hP⟩
  | error e =>
    obtain ⟨hallows', hP'⟩ := herror e _ hP s' hallows.admits
    rw [R.after_after] at hP'
    exact ⟨hallows.trans hallows', hP'⟩

/-- What needs to know nothing of the mark leaves it as it is known. -/
theorem Meets.frame {x : Act σ α} (hx : Meets R none x P) (known : Option τ) :
    Meets R known x fun r k => k = known ∧ P r none := by
  intro s hs
  obtain ⟨hallows, hP⟩ := hx s ⟨hs.inv, nofun⟩
  refine ⟨⟨hallows.inv, fun _ => hallows.mark rfl⟩, ?_, hP⟩
  rw [← hs.after_eq, R.after_after, Regime.after, Regime.after, hallows.mark rfl]

end Act

/-! ## 2. Computations that may give up control -/

/-- The same of a computation. Whatever it starts together knows nothing of the mark, and it is ready
for all their results and for a failure of one of them. -/
inductive Coop.Meets (R : Regime σ ρ τ) :
    Option τ → {α : Type} → Coop σ ρ α → (Except Failure α → Option τ → Prop) → Prop
  | done {known : Option τ} {α : Type} {r : Except Failure α}
    {Q : Except Failure α → Option τ → Prop} : Q r known → Meets R known (.done r) Q
  | act {known : Option τ} {α β : Type} {m : σ → β × σ} {k : β → Coop σ ρ α}
    {Q : Except Failure α → Option τ → Prop} :
    (∀ s, R.Admits known s → R.Allows known s (m s).2) →
    (∀ s, R.Admits known s → Meets R (R.after known (m s).2) (k (m s).1) Q) →
    Meets R known (.act m k) Q
  | turn {known : Option τ} {α : Type} {k : Coop σ ρ α}
    {Q : Except Failure α → Option τ → Prop} : Meets R known k Q → Meets R known (.turn k) Q
  | gather {known : Option τ} {α : Type} {parts : List (Coop σ ρ ρ)}
    {k : Except Failure (List ρ) → Coop σ ρ α} {Q : Except Failure α → Option τ → Prop} :
    (∀ p ∈ parts, Meets R none p fun r _ => R.part r) →
    (∀ r, R.Gathered r → Meets R known (k r) Q) → Meets R known (.gather parts k) Q

namespace Coop

variable {R : Regime σ ρ τ} {known : Option τ} {P : Except Failure α → Option τ → Prop}
  {Q : Except Failure β → Option τ → Prop}

theorem Meets.mono {x : Coop σ ρ α} {P' : Except Failure α → Option τ → Prop}
    (hx : Meets R known x P) (himp : ∀ r k, P r k → P' r k) : Meets R known x P' := by
  induction hx with
  | done hP => exact .done (himp _ _ hP)
  | act hallows _ ih => exact .act hallows fun s hs => ih s hs himp
  | turn _ ih => exact .turn (ih himp)
  | gather hparts _ _ ih => exact .gather hparts fun r hr => ih r hr himp

theorem Meets.bind {x : Coop σ ρ α} {f : α → Coop σ ρ β} (hx : Meets R known x P)
    (hok : ∀ a k, P (.ok a) k → Meets R k (f a) Q)
    (herror : ∀ e k, P (.error e) k → Q (.error e) k) : Meets R known (x.bind f) Q := by
  induction hx with
  | @done known α r P hP =>
    cases r with
    | ok a => exact hok a known hP
    | error e => exact .done (herror e known hP)
  | act hallows _ ih => exact .act hallows fun s hs => ih s hs hok herror
  | turn _ ih => exact .turn (ih hok herror)
  | gather hparts _ _ ih => exact .gather hparts fun r hr => ih r hr hok herror

theorem Meets.tryCatch {x : Coop σ ρ α} {f : Failure → Coop σ ρ α}
    {P' : Except Failure α → Option τ → Prop} (hx : Meets R known x P)
    (hok : ∀ a k, P (.ok a) k → P' (.ok a) k)
    (herror : ∀ e k, P (.error e) k → Meets R k (f e) P') :
    Meets R known (x.tryCatch f) P' := by
  induction hx with
  | @done known α r P hP =>
    cases r with
    | ok a => exact .done (hok a known hP)
    | error e => exact herror e known hP
  | act hallows _ ih => exact .act hallows fun s hs => ih s hs hok herror
  | turn _ ih => exact .turn (ih hok herror)
  | gather hparts _ _ ih => exact .gather hparts fun r hr => ih r hr hok herror

theorem Meets.ofAct {x : Act σ α} (hx : Act.Meets R known x P) : Meets R known (.ofAct x) P :=
  .act (fun s hs => (hx s hs).1) fun s hs => .done (hx s hs).2

theorem Meets.frame {x : Coop σ ρ α} (hx : Meets R none x P) (known : Option τ) :
    Meets R known x fun r k => k = known ∧ P r none := by
  generalize hnone : none = n at hx
  induction hx with
  | done hP => exact .done ⟨rfl, hnone ▸ hP⟩
  | @act _ _ _ m _ _ hallows _ ih =>
    subst hnone
    refine .act (fun s hs => ?_) fun s hs => ?_
    · have hstep := hallows s ⟨hs.inv, nofun⟩
      exact ⟨hstep.inv, fun _ => hstep.mark rfl⟩
    · -- without knowledge of the mark the step has left it as it was
      have hnone : R.Admits none s := ⟨hs.inv, nofun⟩
      have hkept : R.after known (m s).2 = known := by
        rw [← hs.after_eq, R.after_after, Regime.after, Regime.after, (hallows s hnone).mark rfl]
      rw [hkept]
      exact ih s hnone rfl
  | turn _ ih => exact .turn (ih hnone)
  | gather hparts _ _ ih => exact .gather hparts fun r hr => ih r hr hnone

theorem meets_turns (n : Nat) {Q : Except Failure Unit → Option τ → Prop} (hQ : Q (.ok ()) known) :
    Meets R known (turns n) Q := by
  induction n with
  | zero => exact .done hQ
  | succ n ih => exact .turn ih

theorem meets_together {parts : List (Coop σ ρ ρ)} {Q : Except Failure (List ρ) → Option τ → Prop}
    (hparts : ∀ p ∈ parts, Meets R none p fun r _ => R.part r)
    (hQ : ∀ r, R.Gathered r → Q r known) : Meets R known (together parts) Q :=
  .gather hparts fun r hr => .done (hQ r hr)

end Coop

/-! ## 3. Both at once -/

/-- Where runs can be reasoned about: the rules that actions and computations have in common. -/
class Reasoned (σ ρ : Type) (m : Type → Type u) [Performs σ m] where
  Meets {τ α : Type} : Regime σ ρ τ → Option τ → m α → (Except Failure α → Option τ → Prop) → Prop
  mono {τ α : Type} {R : Regime σ ρ τ} {known : Option τ} {x : m α}
    {P P' : Except Failure α → Option τ → Prop} :
    Meets R known x P → (∀ r k, P r k → P' r k) → Meets R known x P'
  pure {τ α : Type} {R : Regime σ ρ τ} {known : Option τ} {a : α}
    {P : Except Failure α → Option τ → Prop} :
    P (.ok a) known → Meets R known (Pure.pure a : m α) P
  throw {τ α : Type} {R : Regime σ ρ τ} {known : Option τ} {e : Failure}
    {P : Except Failure α → Option τ → Prop} :
    P (.error e) known → Meets R known (MonadExcept.throw e : m α) P
  bind {τ α β : Type} {R : Regime σ ρ τ} {known : Option τ} {x : m α} {f : α → m β}
    {P : Except Failure α → Option τ → Prop} {Q : Except Failure β → Option τ → Prop} :
    Meets R known x P → (∀ a k, P (.ok a) k → Meets R k (f a) Q) →
    (∀ e k, P (.error e) k → Q (.error e) k) → Meets R known (x >>= f) Q
  tryCatch {τ α : Type} {R : Regime σ ρ τ} {known : Option τ} {x : m α} {f : Failure → m α}
    {P P' : Except Failure α → Option τ → Prop} :
    Meets R known x P → (∀ a k, P (.ok a) k → P' (.ok a) k) →
    (∀ e k, P (.error e) k → Meets R k (f e) P') →
    Meets R known (MonadExcept.tryCatch x f) P'
  perform {τ α : Type} {R : Regime σ ρ τ} {known : Option τ} {x : Act σ α}
    {P : Except Failure α → Option τ → Prop} :
    x.Meets R known P → Meets R known (Performs.perform x : m α) P
  frame {τ α : Type} {R : Regime σ ρ τ} {x : m α} {P : Except Failure α → Option τ → Prop} :
    Meets R none x P → ∀ known, Meets R known x fun r k => k = known ∧ P r none

instance : Reasoned σ ρ (Act σ) where
  Meets R known x P := x.Meets R known P
  mono hx himp := hx.mono himp
  pure ha := .pure ha
  throw he := .fail he
  bind hx hok herror := .bind hx hok herror
  tryCatch hx hok herror := .tryCatch hx hok herror
  perform hx := hx
  frame hx known := hx.frame known

instance : Reasoned σ ρ (Coop σ ρ) where
  Meets R known x P := x.Meets R known P
  mono hx himp := hx.mono himp
  pure ha := .done ha
  throw he := .done he
  bind hx hok herror := .bind hx hok herror
  tryCatch hx hok herror := .tryCatch hx hok herror
  perform hx := .ofAct hx
  frame hx known := hx.frame known

end NodeFlow
