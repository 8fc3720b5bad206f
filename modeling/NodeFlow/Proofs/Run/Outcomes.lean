import Mathlib.Algebra.BigOperators.Group.Finset.Defs
import Mathlib.Algebra.Group.Prod
import NodeFlow.Proofs.Run.Custody
import NodeFlow.Proofs.Run.Mirror
/-!
# What runs come to

An action comes to one result and one state. A computation that may give up control comes to whatever it can
come to, since others go on while it has stopped and may have changed anything until it goes on; what it has
started together has come to something too by then.

What something comes to that is made of parts can be told from what the parts come to, in one way for actions
and for computations. And nothing gets lost: in whichever order things happen, a run comes to an end, and to
one of those that are told here.
-/

set_option autoImplicit false

universe u

namespace NodeFlow

open Relation

variable {σ ρ ε α β : Type}

/-! ## 1. The ends of a computation -/

/-- From a state a computation may come to a result and a state. `rests` says after which steps others may go
on first. -/
inductive Coop.Ends (rests : σ → σ → Prop) : {α : Type} → Coop σ ρ α → σ → Except Failure α → σ → Prop
  | done {α : Type} {r : Except Failure α} {s : σ} : Ends rests (.done r) s r s
  | act {α β : Type} {m : σ → β × σ} {k : β → Coop σ ρ α} {s s' : σ} {r : Except Failure α} :
    Ends rests (k (m s).1) (m s).2 r s' → Ends rests (.act m k) s r s'
  | rest {α β : Type} {m : σ → β × σ} {k : β → Coop σ ρ α} {s s₁ s' : σ} {r : Except Failure α} :
    rests s (m s).2 → Ends rests (k (m s).1) s₁ r s' → Ends rests (.act m k) s r s'
  | turn {α : Type} {k : Coop σ ρ α} {s s₁ s' : σ} {r : Except Failure α} :
    Ends rests k s₁ r s' → Ends rests (.turn k) s r s'
  | skip {α : Type} {k : Except Failure (List ρ) → Coop σ ρ α} {s s' : σ} {r : Except Failure α} :
    Ends rests (k (.ok [])) s r s' → Ends rests (.gather [] k) s r s'
  /-- all parts have come to something, from whatever state each of them had begun in -/
  | gather {α : Type} {parts : List (Coop σ ρ ρ)} {k : Except Failure (List ρ) → Coop σ ρ α} {s s₁ s' : σ}
    {r : Except Failure α} (as : List ρ) (before after : Nat → σ) : as.length = parts.length →
    (∀ (i : Nat) (p : Coop σ ρ ρ) (a : ρ), parts[i]? = some p → as[i]? = some a →
      Ends rests p (before i) (.ok a) (after i)) →
    Ends rests (k (.ok as)) s₁ r s' → Ends rests (.gather parts k) s r s'
  /-- one of the parts has failed -/
  | gatherFails {α : Type} {parts : List (Coop σ ρ ρ)} {k : Except Failure (List ρ) → Coop σ ρ α}
    {s s₁ s₂ s₃ s' : σ} {r : Except Failure α} {p : Coop σ ρ ρ} {e : Failure} : p ∈ parts →
    Ends rests p s₂ (.error e) s₃ → Ends rests (k (.error e)) s₁ r s' → Ends rests (.gather parts k) s r s'

namespace Coop

variable {rests : σ → σ → Prop} {s s' s₁ : σ}

theorem ends_done {r r' : Except Failure α} :
    (Coop.done r : Coop σ ρ α).Ends rests s r' s' ↔ r' = r ∧ s' = s := by
  constructor
  · intro h
    cases h
    exact ⟨rfl, rfl⟩
  · rintro ⟨rfl, rfl⟩
    exact .done

/-- A step behind which nobody can go on first has one end. -/
theorem ends_ofAct {x : Act σ α} (hrests : ¬ rests s (x s).2) {r : Except Failure α} :
    (ofAct x : Coop σ ρ α).Ends rests s r s' ↔ x s = (r, s') := by
  constructor
  · intro h
    cases h with
    | act h =>
      obtain ⟨rfl, rfl⟩ := ends_done.1 h
      rfl
    | rest hrest => exact absurd hrest hrests
  · intro h
    refine .act ?_
    rw [h]
    exact .done

/-- What a computation and what goes on after it come to. -/
theorem Ends.andThen {x : Coop σ ρ α} {F : Except Failure α → Coop σ ρ β} {r₁ : Except Failure α}
    {r : Except Failure β} (h : x.Ends rests s r₁ s₁) (h' : (F r₁).Ends rests s₁ r s') :
    (x.andThen F).Ends rests s r s' := by
  induction h with
  | done => exact h'
  | act _ ih => exact .act (ih h')
  | rest hrest _ ih => exact .rest hrest (ih h')
  | turn _ ih => exact .turn (ih h')
  | skip _ ih => exact .skip (ih h')
  | gather as before after hlength hparts _ _ ih => exact .gather as before after hlength hparts (ih h')
  | gatherFails hp hfails _ _ ih => exact .gatherFails hp hfails (ih h')

/-- Nothing else comes of them: induction on what is left of the first. -/
theorem Ends.exists_of_andThen {x : Coop σ ρ α} {F : Except Failure α → Coop σ ρ β} {r : Except Failure β}
    (h : (x.andThen F).Ends rests s r s') :
    ∃ r₁ s₁, x.Ends rests s r₁ s₁ ∧ (F r₁).Ends rests s₁ r s' := by
  induction hx : Task.going x using Task.wellFounded_less.induction generalizing x s with
  | _ task ih =>
    subst hx
    cases x with
    | done r₁ => exact ⟨r₁, s, .done, h⟩
    | act m k =>
      have hless : Task.Less (.going (k (m s).1)) (.going (.act m k)) := TransGen.single (.act m k _)
      cases h with
      | act h =>
        obtain ⟨r₁, s₁, hk, hF⟩ := ih _ hless h rfl
        exact ⟨r₁, s₁, .act hk, hF⟩
      | rest hrest h =>
        obtain ⟨r₁, s₁, hk, hF⟩ := ih _ hless h rfl
        exact ⟨r₁, s₁, .rest hrest hk, hF⟩
    | turn k =>
      cases h with
      | turn h =>
        obtain ⟨r₁, s₁, hk, hF⟩ := ih _ (TransGen.single (.turn k)) h rfl
        exact ⟨r₁, s₁, .turn hk, hF⟩
    | gather parts k =>
      have hless : ∀ r, Task.Less (.going (k r)) (.going (.gather parts k)) := fun r =>
        TransGen.tail (TransGen.single (.resume k r)) (.wait parts k)
      cases h with
      | skip h =>
        obtain ⟨r₁, s₁, hk, hF⟩ := ih _ (hless _) h rfl
        exact ⟨r₁, s₁, .skip hk, hF⟩
      | gather as before after hlength hparts h =>
        obtain ⟨r₁, s₁, hk, hF⟩ := ih _ (hless _) h rfl
        exact ⟨r₁, s₁, .gather as before after hlength hparts hk, hF⟩
      | gatherFails hp hfails h =>
        obtain ⟨r₁, s₁, hk, hF⟩ := ih _ (hless _) h rfl
        exact ⟨r₁, s₁, .gatherFails hp hfails hk, hF⟩

theorem ends_bind {x : Coop σ ρ α} {f : α → Coop σ ρ β} {r : Except Failure β} :
    (x.bind f).Ends rests s r s' ↔
      (∃ a s₁, x.Ends rests s (.ok a) s₁ ∧ (f a).Ends rests s₁ r s') ∨
        ∃ e, x.Ends rests s (.error e) s' ∧ r = .error e := by
  rw [bind_eq_andThen]
  constructor
  · intro h
    obtain ⟨r₁, s₁, hx, hf⟩ := h.exists_of_andThen
    cases r₁ with
    | ok a => exact Or.inl ⟨a, s₁, hx, hf⟩
    | error e =>
      obtain ⟨rfl, rfl⟩ := ends_done.1 hf
      exact Or.inr ⟨e, hx, rfl⟩
  · rintro (⟨a, s₁, hx, hf⟩ | ⟨e, hx, rfl⟩)
    · exact hx.andThen hf
    · exact hx.andThen .done

theorem ends_tryCatch {x : Coop σ ρ α} {f : Failure → Coop σ ρ α} {r : Except Failure α} :
    (x.tryCatch f).Ends rests s r s' ↔
      (∃ a, x.Ends rests s (.ok a) s' ∧ r = .ok a) ∨
        ∃ e s₁, x.Ends rests s (.error e) s₁ ∧ (f e).Ends rests s₁ r s' := by
  rw [tryCatch_eq_andThen]
  constructor
  · intro h
    obtain ⟨r₁, s₁, hx, hf⟩ := h.exists_of_andThen
    cases r₁ with
    | ok a =>
      obtain ⟨rfl, rfl⟩ := ends_done.1 hf
      exact Or.inl ⟨a, hx, rfl⟩
    | error e => exact Or.inr ⟨e, s₁, hx, hf⟩
  · rintro (⟨a, hx, rfl⟩ | ⟨e, s₁, hx, hf⟩)
    · exact hx.andThen .done
    · exact hx.andThen hf

end Coop
/-! ## 2. Actions and computations alike -/

/-- Where it can be said what something comes to, and what comes of its parts. -/
class Running (σ : Type) (m : Type → Type u) [Performs σ m] where
  /-- From a state something may come to a result and a state. -/
  Ends {α : Type} : (σ → σ → Prop) → m α → σ → Except Failure α → σ → Prop
  ends_pure {α : Type} {rests : σ → σ → Prop} {a : α} {r : Except Failure α} {s s' : σ} :
    Ends rests (pure a : m α) s r s' ↔ r = .ok a ∧ s' = s
  ends_throw {α : Type} {rests : σ → σ → Prop} {e : Failure} {r : Except Failure α} {s s' : σ} :
    Ends rests (throw e : m α) s r s' ↔ r = .error e ∧ s' = s
  ends_bind {α β : Type} {rests : σ → σ → Prop} {x : m α} {f : α → m β} {r : Except Failure β} {s s' : σ} :
    Ends rests (x >>= f) s r s' ↔ (∃ a s₁, Ends rests x s (.ok a) s₁ ∧ Ends rests (f a) s₁ r s') ∨
      ∃ e, Ends rests x s (.error e) s' ∧ r = .error e
  ends_tryCatch {α : Type} {rests : σ → σ → Prop} {x : m α} {f : Failure → m α} {r : Except Failure α}
    {s s' : σ} :
    Ends rests (tryCatch x f) s r s' ↔ (∃ a, Ends rests x s (.ok a) s' ∧ r = .ok a) ∨
      ∃ e s₁, Ends rests x s (.error e) s₁ ∧ Ends rests (f e) s₁ r s'
  ends_perform {α : Type} {rests : σ → σ → Prop} {x : Act σ α} {r : Except Failure α} {s s' : σ} :
    ¬ rests s (x s).2 → (Ends rests (Performs.perform x : m α) s r s' ↔ x s = (r, s'))

instance : Running σ (Coop σ ρ) where
  Ends rests x s r s' := x.Ends rests s r s'
  ends_pure := Coop.ends_done
  ends_throw := Coop.ends_done
  ends_bind := Coop.ends_bind
  ends_tryCatch := Coop.ends_tryCatch
  ends_perform h := Coop.ends_ofAct h

theorem Act.ends_bind {x : Act σ α} {f : α → Act σ β} {r : Except Failure β} {s s' : σ} :
    x.bind f s = (r, s') ↔ (∃ a s₁, x s = (.ok a, s₁) ∧ f a s₁ = (r, s')) ∨
      ∃ e, x s = (.error e, s') ∧ r = .error e := by
  rw [Act.bind]
  rcases x s with ⟨r₁, s₁⟩
  cases r₁ <;> simp [eq_comm, and_comm]

theorem Act.ends_tryCatch {x : Act σ α} {f : Failure → Act σ α} {r : Except Failure α} {s s' : σ} :
    x.tryCatch f s = (r, s') ↔ (∃ a, x s = (.ok a, s') ∧ r = .ok a) ∨
      ∃ e s₁, x s = (.error e, s₁) ∧ f e s₁ = (r, s') := by
  rw [Act.tryCatch]
  rcases x s with ⟨r₁, s₁⟩
  cases r₁ <;> simp [eq_comm, and_comm]

theorem Act.ends_stay {r r' : Except Failure α} {s s' : σ} :
    ((r, s) : Except Failure α × σ) = (r', s') ↔ r' = r ∧ s' = s := by
  simp [eq_comm]

instance : Running σ (Act σ) where
  Ends _ x s r s' := x s = (r, s')
  ends_pure := Act.ends_stay
  ends_throw := Act.ends_stay
  ends_bind := Act.ends_bind
  ends_tryCatch := Act.ends_tryCatch
  ends_perform _ := Iff.rfl

/-! ## 3. Every run comes to one of its ends -/

/-- The same, with nothing put on record. -/
def Chronicle.silent (C : Chronicle σ ε) : Chronicle σ ε where
  record _ _ := []
  grows _ _ := True
  rests := C.rests
  grows_refl _ := trivial
  record_refl _ := rfl
  grows_trans _ _ := trivial
  record_trans _ _ := rfl

/-- What is known as long as someone owns the one pass to the first state: that it is the state still. Whoever
has gone on owns something in its place, and nothing is known any more. -/
def Passed (first : σ) (own : Nat × Nat) (s : σ) : Prop := (own = (1, 0) ∧ s = first) ∨ (own.1 = 0 ∧ 0 < own.2)

section

variable {C : Chronicle σ ε} {first s : σ} {f : Nat × Nat}

theorem passed_start (hpass : Passed first ((1, 0) + f) s) : s = first ∧ f.1 = 0 := by
  obtain ⟨n, k⟩ := f
  simp only [Passed, Prod.mk_add_mk, Prod.mk.injEq] at hpass
  rcases hpass with ⟨hown, hs⟩ | ⟨hown, -⟩
  · exact ⟨hs, by omega⟩
  · omega

theorem passed_iff {own : Nat × Nat} (hown : own.1 = 0) (hpos : 0 < own.2) :
    Passed first (own + f) s ↔ f.1 = 0 := by
  obtain ⟨n, k⟩ := f
  obtain ⟨n', k'⟩ := own
  simp only [Passed, Prod.mk_add_mk, Prod.mk.injEq] at hown hpos ⊢
  omega

/-- Whatever the parts of a group are left with, whoever has made it has gone on. -/
theorem passed_sum {owns : Nat → Nat × Nat} {n : Nat} (h : Passed first ((0, 1) + ∑ i ∈ Finset.range n, owns i + f) s) :
    f.1 = 0 := by
  generalize ∑ i ∈ Finset.range n, owns i = total at h
  obtain ⟨n', k'⟩ := total
  obtain ⟨n, k⟩ := f
  simp only [Passed, Prod.mk_add_mk, Prod.mk.injEq] at h ⊢
  omega

/-- The states in which the parts of a group have begun and ended, place by place. -/
theorem Coop.exists_spans {parts : List (Coop σ ρ ρ)} {as : List ρ} {rests : σ → σ → Prop} (s : σ)
    (hends : ∀ (i : Nat) (a : ρ), as[i]? = some a →
      ∃ (p : Coop σ ρ ρ) (s₂ s₃ : σ), parts[i]? = some p ∧ p.Ends rests s₂ (.ok a) s₃) :
    ∃ begins finishes : Nat → σ, ∀ (i : Nat) (p : Coop σ ρ ρ) (a : ρ), parts[i]? = some p → as[i]? = some a →
      p.Ends rests (begins i) (.ok a) (finishes i) := by
  have hspan : ∀ i : Nat, ∃ q : σ × σ, ∀ (p : Coop σ ρ ρ) (a : ρ), parts[i]? = some p → as[i]? = some a →
      p.Ends rests q.1 (.ok a) q.2 := by
    intro i
    by_cases ha : ∃ a, as[i]? = some a
    · obtain ⟨a, ha⟩ := ha
      obtain ⟨p, s₂, s₃, hp, hend⟩ := hends i a ha
      refine ⟨(s₂, s₃), fun p' a' hp' ha' => ?_⟩
      obtain rfl := Option.some.inj (hp.symm.trans hp')
      obtain rfl := Option.some.inj (ha.symm.trans ha')
      exact hend
    · exact ⟨(s, s), fun p a _ ha' => absurd ⟨a, ha'⟩ ha⟩
  choose q hq using hspan
  exact ⟨fun i => (q i).1, fun i => (q i).2, hq⟩

/-- What a computation may come to is all that it settles for: induction on what is left of it. -/
theorem Coop.settles_ends (x : Coop σ ρ ρ) (H : History ε) (hf : f.1 = 0) :
    x.Settles C.silent (Passed first) .none H (.moving s f) fun _ r s' f' =>
      f'.1 = 0 ∧ x.Ends C.rests s r s' := by
  induction hx : Task.going x using Task.wellFounded_less.induction generalizing x H s f with
  | _ task ih =>
    subst hx
    -- whoever has stopped goes on owning this much
    have hgone : ∀ {f : Nat × Nat} {s : σ}, f.1 = 0 → Passed first ((0, 1) + f) s := fun hf =>
      (passed_iff rfl Nat.one_pos).2 hf
    cases x with
    | done r => exact .done ⟨hf, .done⟩
    | act m k =>
      have hless : Task.Less (.going (k (m s).1)) (.going (.act m k)) := TransGen.single (.act m k _)
      refine .act (0, 1) trivial ?_ (fun _ => hgone hf) fun hrest => .rest fun s₁ f₁ h₁ => ?_
      · exact (ih _ hless _ _ hf rfl).mono fun _ _ _ _ h => ⟨h.1, .act h.2⟩
      · have hf₁ := (passed_iff rfl Nat.one_pos).1 h₁
        exact (ih _ hless _ _ hf₁ rfl).mono fun _ _ _ _ h => ⟨h.1, .rest hrest h.2⟩
    | turn k =>
      refine .turn (0, 1) (hgone hf) (.rest fun s₁ f₁ h₁ => ?_)
      have hf₁ := (passed_iff rfl Nat.one_pos).1 h₁
      exact (ih _ (TransGen.single (.turn k)) _ _ hf₁ rfl).mono fun _ _ _ _ h => ⟨h.1, .turn h.2⟩
    | gather parts k =>
      have hless : ∀ r, Task.Less (.going (k r)) (.going (.gather parts k)) := fun r =>
        TransGen.tail (TransGen.single (.resume k r)) (.wait parts k)
      refine .gather (0, 1) (fun _ => (0, 1))
        (fun i _ r _ => ∃ (p : Coop σ ρ ρ) (s₂ s₃ : σ), parts[i]? = some p ∧ p.Ends C.rests s₂ r s₃) ?_ ?_ ?_ ?_
      · refine (passed_iff ?_ ?_).2 hf
        · simp
        · simp
      · intro i p hp
        refine .rest fun s₁ f₁ h₁ => ?_
        have hf₁ := (passed_iff rfl Nat.one_pos).1 h₁
        have hpart := ih _ (TransGen.single (.part k (List.mem_of_getElem? hp))) (s := s₁) p .empty hf₁ rfl
        exact hpart.mono fun _ _ s₂ _ h => ⟨(0, 1), hgone h.1, p, s₁, s₂, hp, h.2⟩
      · intro g as hs bs hlength hends
        refine .rest fun s₁ f₁ h₁ => ?_
        obtain ⟨begins, finishes, hspans⟩ := Coop.exists_spans s hends
        refine (ih _ (hless _) _ _ (passed_sum h₁) rfl).mono fun _ _ _ _ h => ⟨h.1, ?_⟩
        exact .gather as begins finishes hlength hspans h.2
      · rintro i H' e b hi ⟨p, s₂, s₃, hp, hfails⟩
        refine .rest fun s₁ f₁ h₁ => ?_
        have hf₁ := (passed_iff rfl Nat.one_pos).1 h₁
        refine (ih _ (hless _) _ _ hf₁ rfl).mono fun _ _ _ _ h => ⟨h.1, ?_⟩
        exact .gatherFails (List.mem_of_getElem? hp) hfails h.2

/-- What is put on record makes no difference to what happens. -/
theorem Moment.Step.silent {m n : Moment σ ρ} {t : Trace ε} (h : m.Step C t n) : ∃ u, m.Step C.silent u n := by
  cases h with
  | begin before hqueue => exact ⟨_, .begin before hqueue⟩
  | report before hqueue => exact ⟨_, .report before hqueue⟩
  | act => exact ⟨_, .act⟩
  | rest hrest => exact ⟨_, .rest hrest⟩
  | skip => exact ⟨_, .skip⟩
  | stop hstop => exact ⟨_, .stop hstop⟩

theorem Moment.Eventually.of_silent {P : Trace ε → Moment σ ρ → Prop} {P' : Moment σ ρ → Prop}
    {m : Moment σ ρ} {t u : Trace ε} (h : m.Eventually C.silent P t) (himp : ∀ t m, P t m → P' m) :
    m.Eventually C (fun _ m => P' m) u := by
  induction h generalizing u with
  | now hP => exact .now (himp _ _ hP)
  | later hdone _ ih =>
    refine .later hdone fun u' n hstep => ?_
    obtain ⟨t', hstep'⟩ := hstep.silent
    exact ih t' n hstep'

/-- **In whichever order things happen, a run comes to an end, and to one that it may come to.** -/
theorem Coop.eventually_ends (C : Chronicle σ ε) (x : Coop σ ρ ρ) (s : σ) :
    (Moment.start x s).Eventually C
      (fun _ m => ∃ r, m.pool.result = some r ∧ x.Ends C.rests s r m.pool.state) [] := by
  have hsettles : x.Settles C.silent (Passed s) .none .empty (.resting (1, 0)) fun _ r s' f' =>
      f'.1 = 0 ∧ x.Ends C.rests s r s' := by
    refine .rest fun s₁ f h => ?_
    obtain ⟨rfl, hf⟩ := passed_start h
    exact x.settles_ends .empty hf
  refine (hsettles.eventually (Or.inl ⟨rfl, rfl⟩)).of_silent fun t m h => ?_
  rcases h with ⟨_, _, _, -, haim, -⟩ | ⟨r, _, _, hr, hend, -⟩
  · exact haim.elim
  · exact ⟨r, hr, hend.2⟩

end

end NodeFlow
