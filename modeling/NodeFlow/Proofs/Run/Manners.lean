import NodeFlow.Run.Act
import NodeFlow.Run.Coop
/-!
# Manners

What can be said of computations that share a state if it is known what each of them may do to it. The root of
a run may take any step; computations that are started together take quiet steps only, and none of the others
can know when. So whoever has stopped goes on from some later state: the root from one that quiet steps lead
to, a part from one that any steps lead to.

The awkward thing up front: a condition on a result speaks of the state in which it is delivered. Of the result
of a part it has to hold on, since the result is looked at later, when others have gone on.
-/

set_option autoImplicit false

universe u

namespace NodeFlow

/-- Who goes on: the root of a run, or a part that was started together with others. -/
inductive Role
  | root | part

/-- What those who share a state may do to it, and what holds of the result of a part from its end on. -/
structure Manners (σ ρ : Type) where
  step : σ → σ → Prop
  quiet : σ → σ → Prop
  part : Except Failure ρ → σ → Prop
  step_trans : ∀ {s s' s''}, step s s' → step s' s'' → step s s''
  quiet_refl : ∀ s, quiet s s
  quiet_trans : ∀ {s s' s''}, quiet s s' → quiet s' s'' → quiet s s''
  step_of_quiet : ∀ {s s'}, quiet s s' → step s s'
  part_of_step : ∀ {r s s'}, part r s → step s s' → part r s'

namespace Manners

variable {σ ρ : Type} {M : Manners σ ρ} {role : Role} {s s' s'' : σ}

/-- What someone may do himself. -/
def May (M : Manners σ ρ) : Role → σ → σ → Prop
  | .root => M.step
  | .part => M.quiet

/-- What may have been done when someone goes on who has stopped. -/
def Bears (M : Manners σ ρ) : Role → σ → σ → Prop
  | .root => M.quiet
  | .part => M.step

/-- Computations that were started together have ended: all of them, or one has failed. -/
def Gathered (M : Manners σ ρ) (s : σ) : Except Failure (List ρ) → Prop
  | .ok as => ∀ a ∈ as, M.part (.ok a) s
  | .error e => M.part (.error e) s

theorem step_refl (M : Manners σ ρ) (s : σ) : M.step s s := M.step_of_quiet (M.quiet_refl s)

theorem may_of_quiet (h : M.quiet s s') : M.May role s s' := by
  cases role with
  | root => exact M.step_of_quiet h
  | part => exact h

theorem bears_of_quiet (h : M.quiet s s') : M.Bears role s s' := by
  cases role with
  | root => exact h
  | part => exact M.step_of_quiet h

theorem step_of_bears (h : M.Bears role s s') : M.step s s' := by
  cases role with
  | root => exact M.step_of_quiet h
  | part => exact h

theorem may_refl (M : Manners σ ρ) (role : Role) (s : σ) : M.May role s s := may_of_quiet (M.quiet_refl s)

theorem bears_refl (M : Manners σ ρ) (role : Role) (s : σ) : M.Bears role s s :=
  bears_of_quiet (M.quiet_refl s)

theorem May.trans (h : M.May role s s') (h' : M.May role s' s'') : M.May role s s'' := by
  cases role with
  | root => exact M.step_trans h h'
  | part => exact M.quiet_trans h h'

theorem Bears.trans (h : M.Bears role s s') (h' : M.Bears role s' s'') : M.Bears role s s'' := by
  cases role with
  | root => exact M.quiet_trans h h'
  | part => exact M.step_trans h h'

theorem Gathered.of_step {r : Except Failure (List ρ)} (h : M.Gathered s r) (hstep : M.step s s') :
    M.Gathered s' r := by
  cases r with
  | ok as => exact fun a ha => M.part_of_step (h a ha) hstep
  | error e => exact M.part_of_step h hstep

/-- Both manners at once. -/
def both (M N : Manners σ ρ) : Manners σ ρ where
  step s s' := M.step s s' ∧ N.step s s'
  quiet s s' := M.quiet s s' ∧ N.quiet s s'
  part r s := M.part r s ∧ N.part r s
  step_trans h h' := ⟨M.step_trans h.1 h'.1, N.step_trans h.2 h'.2⟩
  quiet_refl s := ⟨M.quiet_refl s, N.quiet_refl s⟩
  quiet_trans h h' := ⟨M.quiet_trans h.1 h'.1, N.quiet_trans h.2 h'.2⟩
  step_of_quiet h := ⟨M.step_of_quiet h.1, N.step_of_quiet h.2⟩
  part_of_step h hstep := ⟨M.part_of_step h.1 hstep.1, N.part_of_step h.2 hstep.2⟩

variable {N : Manners σ ρ}

theorem may_both : (M.both N).May role s s' ↔ M.May role s s' ∧ N.May role s s' := by
  cases role <;> exact Iff.rfl

theorem bears_both : (M.both N).Bears role s s' ↔ M.Bears role s s' ∧ N.Bears role s s' := by
  cases role <;> exact Iff.rfl

theorem Gathered.of_both {r : Except Failure (List ρ)} (h : (M.both N).Gathered s r) :
    M.Gathered s r ∧ N.Gathered s r := by
  cases r with
  | ok as => exact ⟨fun a ha => (h a ha).1, fun a ha => (h a ha).2⟩
  | error e => exact h

end Manners

variable {σ ρ : Type} {α β : Type}

/-! ## 1. Actions -/

/-- From a state an action does what it may, and a condition holds of its result and of the state it leaves. -/
def Act.Minds (M : Manners σ ρ) (role : Role) (s : σ) (x : Act σ α) (Q : Except Failure α → σ → Prop) : Prop :=
  M.May role s (x s).2 ∧ Q (x s).1 (x s).2

namespace Act

variable {M : Manners σ ρ} {role : Role} {s : σ} {P : Except Failure α → σ → Prop}

theorem Minds.bind {x : Act σ α} {f : α → Act σ β} {Q : Except Failure β → σ → Prop}
    (hx : Minds M role s x P) (hok : ∀ a s', P (.ok a) s' → Minds M role s' (f a) Q)
    (herror : ∀ e s', P (.error e) s' → Q (.error e) s') : Minds M role s (Act.bind x f) Q := by
  obtain ⟨hmay, hP⟩ := hx
  unfold Minds
  rw [Act.bind]
  rcases hxs : x s with ⟨r, s'⟩
  rw [hxs] at hmay hP
  cases r with
  | error e => exact ⟨hmay, herror e s' hP⟩
  | ok a =>
    obtain ⟨hmay', hQ⟩ := hok a s' hP
    exact ⟨hmay.trans hmay', hQ⟩

theorem Minds.tryCatch {x : Act σ α} {f : Failure → Act σ α} {Q : Except Failure α → σ → Prop}
    (hx : Minds M role s x P) (hok : ∀ a s', P (.ok a) s' → Q (.ok a) s')
    (herror : ∀ e s', P (.error e) s' → Minds M role s' (f e) Q) : Minds M role s (Act.tryCatch x f) Q := by
  obtain ⟨hmay, hP⟩ := hx
  unfold Minds
  rw [Act.tryCatch]
  rcases hxs : x s with ⟨r, s'⟩
  rw [hxs] at hmay hP
  cases r with
  | ok a => exact ⟨hmay, hok a s' hP⟩
  | error e =>
    obtain ⟨hmay', hQ⟩ := herror e s' hP
    exact ⟨hmay.trans hmay', hQ⟩

end Act

/-! ## 2. Computations that may give up control -/

/-- The same of a computation. After each stop it is ready for what the others may have done by then, and what
it starts together is ready for it as well. -/
inductive Coop.Minds (M : Manners σ ρ) :
    Role → σ → {α : Type} → Coop σ ρ α → (Except Failure α → σ → Prop) → Prop
  | done {role : Role} {s : σ} {α : Type} {r : Except Failure α} {Q : Except Failure α → σ → Prop} :
    Q r s → Minds M role s (.done r) Q
  | act {role : Role} {s : σ} {α β : Type} {m : σ → β × σ} {k : β → Coop σ ρ α}
    {Q : Except Failure α → σ → Prop} : M.May role s (m s).2 → Minds M role (m s).2 (k (m s).1) Q →
    Minds M role s (.act m k) Q
  | turn {role : Role} {s : σ} {α : Type} {k : Coop σ ρ α} {Q : Except Failure α → σ → Prop} :
    (∀ s', M.Bears role s s' → Minds M role s' k Q) → Minds M role s (.turn k) Q
  | gather {role : Role} {s : σ} {α : Type} {parts : List (Coop σ ρ ρ)}
    {k : Except Failure (List ρ) → Coop σ ρ α} {Q : Except Failure α → σ → Prop} :
    (∀ p ∈ parts, ∀ s', M.step s s' → Minds M .part s' p M.part) →
    (∀ s' r, M.Bears role s s' → M.Gathered s' r → Minds M role s' (k r) Q) →
    Minds M role s (.gather parts k) Q

namespace Coop

variable {M : Manners σ ρ} {role : Role} {s : σ} {P : Except Failure α → σ → Prop}

theorem Minds.mono {x : Coop σ ρ α} {Q : Except Failure α → σ → Prop} (hx : Minds M role s x P)
    (himp : ∀ r s', P r s' → Q r s') : Minds M role s x Q := by
  induction hx with
  | done hP => exact .done (himp _ _ hP)
  | act hmay _ ih => exact .act hmay (ih himp)
  | turn _ ih => exact .turn fun s' hs => ih s' hs himp
  | gather hparts _ _ ih => exact .gather hparts fun s' r hs hr => ih s' r hs hr himp

theorem Minds.bind {x : Coop σ ρ α} {f : α → Coop σ ρ β} {Q : Except Failure β → σ → Prop}
    (hx : Minds M role s x P) (hok : ∀ a s', P (.ok a) s' → Minds M role s' (f a) Q)
    (herror : ∀ e s', P (.error e) s' → Q (.error e) s') : Minds M role s (x.bind f) Q := by
  induction hx with
  | @done role s α r P hP =>
    cases r with
    | ok a => exact hok a s hP
    | error e => exact .done (herror e s hP)
  | act hmay _ ih => exact .act hmay (ih hok herror)
  | turn _ ih => exact .turn fun s' hs => ih s' hs hok herror
  | gather hparts _ _ ih => exact .gather hparts fun s' r hs hr => ih s' r hs hr hok herror

theorem Minds.tryCatch {x : Coop σ ρ α} {f : Failure → Coop σ ρ α} {Q : Except Failure α → σ → Prop}
    (hx : Minds M role s x P) (hok : ∀ a s', P (.ok a) s' → Q (.ok a) s')
    (herror : ∀ e s', P (.error e) s' → Minds M role s' (f e) Q) : Minds M role s (x.tryCatch f) Q := by
  induction hx with
  | @done role s α r P hP =>
    cases r with
    | ok a => exact .done (hok a s hP)
    | error e => exact herror e s hP
  | act hmay _ ih => exact .act hmay (ih hok herror)
  | turn _ ih => exact .turn fun s' hs => ih s' hs hok herror
  | gather hparts _ _ ih => exact .gather hparts fun s' r hs hr => ih s' r hs hr hok herror

theorem Minds.ofAct {x : Act σ α} (hx : Act.Minds M role s x P) : Minds M role s (.ofAct x) P :=
  .act hx.1 (.done hx.2)

/-- Who minds both manners minds them at once. -/
theorem Minds.both {N : Manners σ ρ} {x : Coop σ ρ α} {Q : Except Failure α → σ → Prop}
    (hx : Minds M role s x P) (hx' : Minds N role s x Q) :
    Minds (M.both N) role s x fun r s' => P r s' ∧ Q r s' := by
  induction hx with
  | done hP =>
    cases hx' with
    | done hQ => exact .done ⟨hP, hQ⟩
  | act hmay _ ih =>
    cases hx' with
    | act hmay' hk' => exact .act (Manners.may_both.2 ⟨hmay, hmay'⟩) (ih hk')
  | turn _ ih =>
    cases hx' with
    | turn hk' =>
      refine .turn fun s' hs => ?_
      obtain ⟨hs, hs'⟩ := Manners.bears_both.1 hs
      exact ih s' hs (hk' s' hs')
  | gather _ _ ihparts ih =>
    cases hx' with
    | gather hparts' hk' =>
      refine .gather (fun p hp s' hs => ihparts p hp s' hs.1 (hparts' p hp s' hs.2)) fun s' r hs hr => ?_
      obtain ⟨hs, hs'⟩ := Manners.bears_both.1 hs
      exact ih s' r hs hr.of_both.1 (hk' s' r hs' hr.of_both.2)

theorem minds_turns (n : Nat) {Q : Except Failure Unit → σ → Prop}
    (hQ : ∀ s', M.Bears role s s' → Q (.ok ()) s') : Minds M role s (turns n) Q := by
  induction n generalizing s with
  | zero => exact .done (hQ s (M.bears_refl role s))
  | succ n ih => exact .turn fun s' hs => ih fun s'' hs' => hQ s'' (hs.trans hs')

end Coop

/-! ## 3. Both at once -/

/-- Where manners can be minded: the rules that actions and computations have in common. -/
class Mannerly (σ ρ : Type) (m : Type → Type u) [Performs σ m] where
  Minds {α : Type} : Manners σ ρ → Role → σ → m α → (Except Failure α → σ → Prop) → Prop
  mono {α : Type} {M : Manners σ ρ} {role : Role} {s : σ} {x : m α} {P Q : Except Failure α → σ → Prop} :
    Minds M role s x P → (∀ r s', P r s' → Q r s') → Minds M role s x Q
  pure {α : Type} {M : Manners σ ρ} {role : Role} {s : σ} {a : α} {Q : Except Failure α → σ → Prop} :
    Q (.ok a) s → Minds M role s (Pure.pure a : m α) Q
  throw {α : Type} {M : Manners σ ρ} {role : Role} {s : σ} {e : Failure} {Q : Except Failure α → σ → Prop} :
    Q (.error e) s → Minds M role s (MonadExcept.throw e : m α) Q
  bind {α β : Type} {M : Manners σ ρ} {role : Role} {s : σ} {x : m α} {f : α → m β}
    {P : Except Failure α → σ → Prop} {Q : Except Failure β → σ → Prop} :
    Minds M role s x P → (∀ a s', P (.ok a) s' → Minds M role s' (f a) Q) →
    (∀ e s', P (.error e) s' → Q (.error e) s') → Minds M role s (x >>= f) Q
  tryCatch {α : Type} {M : Manners σ ρ} {role : Role} {s : σ} {x : m α} {f : Failure → m α}
    {P Q : Except Failure α → σ → Prop} :
    Minds M role s x P → (∀ a s', P (.ok a) s' → Q (.ok a) s') →
    (∀ e s', P (.error e) s' → Minds M role s' (f e) Q) → Minds M role s (MonadExcept.tryCatch x f) Q
  perform {α : Type} {M : Manners σ ρ} {role : Role} {s : σ} {x : Act σ α}
    {Q : Except Failure α → σ → Prop} : x.Minds M role s Q → Minds M role s (Performs.perform x : m α) Q
  both {α : Type} {M N : Manners σ ρ} {role : Role} {s : σ} {x : m α} {P Q : Except Failure α → σ → Prop} :
    Minds M role s x P → Minds N role s x Q → Minds (M.both N) role s x fun r s' => P r s' ∧ Q r s'

instance : Mannerly σ ρ (Act σ) where
  Minds M role s x Q := x.Minds M role s Q
  mono hx himp := ⟨hx.1, himp _ _ hx.2⟩
  pure hQ := ⟨Manners.may_refl _ _ _, hQ⟩
  throw hQ := ⟨Manners.may_refl _ _ _, hQ⟩
  bind hx hok herror := hx.bind hok herror
  tryCatch hx hok herror := hx.tryCatch hok herror
  perform hx := hx
  both hx hx' := ⟨Manners.may_both.2 ⟨hx.1, hx'.1⟩, hx.2, hx'.2⟩

instance : Mannerly σ ρ (Coop σ ρ) where
  Minds M role s x Q := x.Minds M role s Q
  mono hx himp := hx.mono himp
  pure hQ := .done hQ
  throw hQ := .done hQ
  bind hx hok herror := hx.bind hok herror
  tryCatch hx hok herror := hx.tryCatch hok herror
  perform hx := .ofAct hx
  both hx hx' := hx.both hx'

end NodeFlow
