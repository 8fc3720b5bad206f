import Mathlib.Algebra.BigOperators.Group.Finset.Basic
import NodeFlow.Proofs.Run.Interleave
/-!
# Reasoning about interleavings

Computations that run side by side share one state. Each owns a part of it, which is all that it can be sure
of when it goes on after a stop, and leaves alone what others own: whatever it does, it does beside any
frame. What they own adds up, and a relation says in which states all that is owned is as its owners know it.

The awkward thing up front: between two stops nobody interferes, and there a computation may rely on more
than it owns. A node that sets the number of its attempt reads it back at once, although all who share the
node write to the same place. So while a stretch lasts the state is known exactly, and ownership counts only
where it stops.

A computation settles a condition if, whoever goes on in between, it comes to an end that satisfies it. An aim
may cut this short for the root: what is to go on next is then given up to whoever wants to know.
-/

set_option autoImplicit false

universe u

namespace NodeFlow

open Finset

variable {σ ρ ε μ α β : Type}

/-! ## 1. Histories -/

/-- What a computation can tell of the past: what it has put on record itself, and who has ended before it
went on, with all that they had put on record. -/
structure History (ε : Type) where
  own : List ε
  ended : List (Owner × List ε)

namespace History

/-- Nothing has happened yet. -/
def empty : History ε := ⟨[], []⟩

/-- More is put on record. -/
def add (H : History ε) (es : List ε) : History ε := { H with own := H.own ++ es }

/-- So many parts of a group have ended. -/
def join (H : History ε) (g n : Nat) (records : Nat → List ε) : History ε :=
  { H with ended := H.ended ++ (List.range n).map fun i => (.member g i, records i) }

@[simp] theorem own_add (H : History ε) (es : List ε) : (H.add es).own = H.own ++ es := rfl

@[simp] theorem ended_add (H : History ε) (es : List ε) : (H.add es).ended = H.ended := rfl

@[simp] theorem own_join (H : History ε) (g n : Nat) (records : Nat → List ε) :
    (H.join g n records).own = H.own := rfl

@[simp] theorem add_nil (H : History ε) : H.add [] = H := by
  unfold add
  rw [List.append_nil]

@[simp] theorem add_add (H : History ε) (es es' : List ε) : (H.add es).add es' = H.add (es ++ es') := by
  unfold add
  rw [List.append_assoc]

@[simp] theorem join_zero (H : History ε) (g : Nat) (records : Nat → List ε) : H.join g 0 records = H := by
  simp [join]

theorem mem_ended_join {H : History ε} {g n : Nat} {records : Nat → List ε} {m : Owner × List ε} :
    m ∈ (H.join g n records).ended ↔ m ∈ H.ended ∨ ∃ i < n, m = (.member g i, records i) := by
  simp [join, eq_comm]

end History

/-! ## 2. Actions -/

/-- What ends an action or a computation: its history, its result, the state at that moment, and the frame. -/
abbrev Ending (σ μ ε α : Type) := History ε → Except Failure α → σ → μ → Prop

namespace Act

variable {C : Chronicle σ ε} {H : History ε} {s : σ} {f : μ}

/-- An action ends as stated. -/
def Settles (C : Chronicle σ ε) (H : History ε) (s : σ) (f : μ) (x : Act σ α) (Q : Ending σ μ ε α) : Prop :=
  C.grows s (x s).2 ∧ Q (H.add (C.record s (x s).2)) (x s).1 (x s).2 f

theorem settles_stay {r : Except Failure α} {Q : Ending σ μ ε α} (hQ : Q H r s f) :
    Settles C H s f (Act.ofExcept r) Q := by
  refine ⟨C.grows_refl s, ?_⟩
  change Q (H.add (C.record s s)) r s f
  rwa [C.record_refl, History.add_nil]

theorem Settles.bind {x : Act σ α} {F : α → Act σ β} {P : Ending σ μ ε α} {Q : Ending σ μ ε β}
    (h : Settles C H s f x P) (hok : ∀ H a s f, P H (.ok a) s f → Settles C H s f (F a) Q)
    (herror : ∀ H e s f, P H (.error e) s f → Q H (.error e) s f) : Settles C H s f (x.bind F) Q := by
  obtain ⟨hgrows, hP⟩ := h
  unfold Settles
  rw [Act.bind]
  rcases hx : x s with ⟨r, s'⟩
  rw [hx] at hgrows hP
  cases r with
  | error e => exact ⟨hgrows, herror _ e _ _ hP⟩
  | ok a =>
    obtain ⟨hgrows', hQ⟩ := hok _ a _ _ hP
    rw [History.add_add, ← C.record_trans hgrows hgrows'] at hQ
    exact ⟨C.grows_trans hgrows hgrows', hQ⟩

theorem Settles.tryCatch {x : Act σ α} {F : Failure → Act σ α} {P Q : Ending σ μ ε α}
    (h : Settles C H s f x P) (hok : ∀ H a s f, P H (.ok a) s f → Q H (.ok a) s f)
    (herror : ∀ H e s f, P H (.error e) s f → Settles C H s f (F e) Q) : Settles C H s f (x.tryCatch F) Q := by
  obtain ⟨hgrows, hP⟩ := h
  unfold Settles
  rw [Act.tryCatch]
  rcases hx : x s with ⟨r, s'⟩
  rw [hx] at hgrows hP
  cases r with
  | ok a => exact ⟨hgrows, hok _ a _ _ hP⟩
  | error e =>
    obtain ⟨hgrows', hQ⟩ := herror _ e _ _ hP
    rw [History.add_add, ← C.record_trans hgrows hgrows'] at hQ
    exact ⟨C.grows_trans hgrows hgrows', hQ⟩

end Act

/-! ## 3. To settle -/

/-- Where a computation stands: it has stopped and owns something, or it is in the middle of a stretch, in a
state that is known, beside a frame. -/
inductive Standing (σ μ : Type)
  | resting (own : μ)
  | moving (s : σ) (frame : μ)

/-- What the root is to come to: a history, a state beside a frame, and what it goes on with there. -/
abbrev Aim (σ ρ μ ε : Type) := History ε → σ → μ → Coop σ ρ ρ → Prop

/-- No aim. -/
def Aim.none : Aim σ ρ μ ε := fun _ _ _ _ => False

variable [AddCommMonoid μ]

/-- A computation leaves something that it owns, of which a condition holds. -/
def Leaving (holds : μ → σ → Prop) (P : History ε → Except Failure α → μ → Prop) : Ending σ μ ε α :=
  fun H r s f => ∃ own, holds (own + f) s ∧ P H r own

/-- Whoever goes on in between, a computation reaches the aim or ends as stated. What it starts together has
no aim, and takes its share of what is owned. -/
inductive Coop.Settles (C : Chronicle σ ε) (holds : μ → σ → Prop) :
    Aim σ ρ μ ε → History ε → Standing σ μ → {α : Type} → Coop σ ρ α → Ending σ μ ε α → Prop
  | rest {aim : Aim σ ρ μ ε} {H : History ε} {own : μ} {α : Type} {x : Coop σ ρ α} {Q : Ending σ μ ε α} :
    (∀ s f, holds (own + f) s → Settles C holds aim H (.moving s f) x Q) →
    Settles C holds aim H (.resting own) x Q
  | aim {aim : Aim σ ρ μ ε} {H : History ε} {s : σ} {f : μ} {x : Coop σ ρ ρ} {Q : Ending σ μ ε ρ} :
    aim H s f x → Settles C holds aim H (.moving s f) x Q
  | done {aim : Aim σ ρ μ ε} {H : History ε} {s : σ} {f : μ} {α : Type} {r : Except Failure α}
    {Q : Ending σ μ ε α} : Q H r s f → Settles C holds aim H (.moving s f) (.done r) Q
  | act {aim : Aim σ ρ μ ε} {H : History ε} {s : σ} {f : μ} {α β : Type} {m : σ → β × σ} {k : β → Coop σ ρ α}
    {Q : Ending σ μ ε α} (own : μ) :
    C.grows s (m s).2 →
    Settles C holds aim (H.add (C.record s (m s).2)) (.moving (m s).2 f) (k (m s).1) Q →
    (C.rests s (m s).2 → holds (own + f) (m s).2) →
    (C.rests s (m s).2 → Settles C holds aim (H.add (C.record s (m s).2)) (.resting own) (k (m s).1) Q) →
    Settles C holds aim H (.moving s f) (.act m k) Q
  | turn {aim : Aim σ ρ μ ε} {H : History ε} {s : σ} {f : μ} {α : Type} {k : Coop σ ρ α} {Q : Ending σ μ ε α}
    (own : μ) : holds (own + f) s → Settles C holds aim H (.resting own) k Q →
    Settles C holds aim H (.moving s f) (.turn k) Q
  | gather {aim : Aim σ ρ μ ε} {H : History ε} {s : σ} {f : μ} {α : Type} {parts : List (Coop σ ρ ρ)}
    {k : Except Failure (List ρ) → Coop σ ρ α} {Q : Ending σ μ ε α} (kept : μ) (owns : Nat → μ)
    (ends : Nat → History ε → Except Failure ρ → μ → Prop) :
    holds (kept + ∑ i ∈ range parts.length, owns i + f) s →
    (∀ (i : Nat) (p : Coop σ ρ ρ), parts[i]? = some p →
      Settles C holds .none .empty (.resting (owns i)) p (Leaving holds (ends i))) →
    (∀ (g : Nat) (rs : List ρ) (hs : Nat → History ε) (bs : Nat → μ), rs.length = parts.length →
      (∀ (i : Nat) (r : ρ), rs[i]? = some r → ends i (hs i) (.ok r) (bs i)) →
      Settles C holds aim (H.join g parts.length fun i => (hs i).own)
        (.resting (kept + ∑ i ∈ range parts.length, bs i)) (k (.ok rs)) Q) →
    (∀ (i : Nat) (H' : History ε) (e : Failure) (b : μ), i < parts.length → ends i H' (.error e) b →
      Settles C holds aim H (.resting kept) (k (.error e)) Q) →
    Settles C holds aim H (.moving s f) (.gather parts k) Q

namespace Coop

variable {C : Chronicle σ ε} {holds : μ → σ → Prop} {aim : Aim σ ρ μ ε} {H : History ε} {st : Standing σ μ}
  {s : σ} {f : μ}

/-! ## 4. Rules -/

theorem Settles.mono {x : Coop σ ρ α} {Q Q' : Ending σ μ ε α} (h : Settles C holds aim H st x Q)
    (himp : ∀ H r s f, Q H r s f → Q' H r s f) : Settles C holds aim H st x Q' := by
  induction h with
  | rest _ ih => exact .rest fun s f hs => ih s f hs himp
  | aim haim => exact .aim haim
  | done hQ => exact .done (himp _ _ _ _ hQ)
  | act own hgrows _ hown _ ih ihrest => exact .act own hgrows (ih himp) hown fun hrest => ihrest hrest himp
  | turn own hown _ ih => exact .turn own hown (ih himp)
  | gather kept owns ends hown hparts _ _ _ ihok iherror =>
    exact .gather kept owns ends hown hparts (fun g rs hs bs hlen hends => ihok g rs hs bs hlen hends himp)
      fun i H' e b hi hends => iherror i H' e b hi hends himp

/-- What stands still can go on from any state in which it owns what it owns. -/
theorem Settles.moving {own : μ} {x : Coop σ ρ α} {Q : Ending σ μ ε α}
    (h : Settles C holds aim H (.resting own) x Q) (hs : holds (own + f) s) :
    Settles C holds aim H (.moving s f) x Q := by
  cases h with
  | rest h => exact h s f hs

theorem Settles.bind {x : Coop σ ρ α} {F : α → Coop σ ρ β} {P : Ending σ μ ε α} {Q : Ending σ μ ε β}
    (h : Settles C holds .none H st x P)
    (hok : ∀ H a s f, P H (.ok a) s f → Settles C holds aim H (.moving s f) (F a) Q)
    (herror : ∀ H e s f, P H (.error e) s f → Q H (.error e) s f) :
    Settles C holds aim H st (x.bind F) Q := by
  generalize hnone : (Aim.none : Aim σ ρ μ ε) = a at h
  induction h with
  | rest _ ih => exact .rest fun s f hs => ih s f hs hok herror hnone
  | aim haim =>
    subst hnone
    exact haim.elim
  | @done _ _ _ _ _ r _ hQ =>
    cases r with
    | ok a => exact hok _ a _ _ hQ
    | error e => exact .done (herror _ e _ _ hQ)
  | act own hgrows _ hown _ ih ihrest =>
    exact .act own hgrows (ih hok herror hnone) hown fun hrest => ihrest hrest hok herror hnone
  | turn own hown _ ih => exact .turn own hown (ih hok herror hnone)
  | gather kept owns ends hown hparts _ _ _ ihok iherror =>
    exact .gather kept owns ends hown hparts
      (fun g rs hs bs hlen hends => ihok g rs hs bs hlen hends hok herror hnone)
      fun i H' e b hi hends => iherror i H' e b hi hends hok herror hnone

theorem Settles.tryCatch {x : Coop σ ρ α} {F : Failure → Coop σ ρ α} {P Q : Ending σ μ ε α}
    (h : Settles C holds .none H st x P)
    (hok : ∀ H a s f, P H (.ok a) s f → Q H (.ok a) s f)
    (herror : ∀ H e s f, P H (.error e) s f → Settles C holds aim H (.moving s f) (F e) Q) :
    Settles C holds aim H st (x.tryCatch F) Q := by
  generalize hnone : (Aim.none : Aim σ ρ μ ε) = a at h
  induction h with
  | rest _ ih => exact .rest fun s f hs => ih s f hs hok herror hnone
  | aim haim =>
    subst hnone
    exact haim.elim
  | @done _ _ _ _ _ r _ hQ =>
    cases r with
    | ok a => exact .done (hok _ a _ _ hQ)
    | error e => exact herror _ e _ _ hQ
  | act own hgrows _ hown _ ih ihrest =>
    exact .act own hgrows (ih hok herror hnone) hown fun hrest => ihrest hrest hok herror hnone
  | turn own hown _ ih => exact .turn own hown (ih hok herror hnone)
  | gather kept owns ends hown hparts _ _ _ ihok iherror =>
    exact .gather kept owns ends hown hparts
      (fun g rs hs bs hlen hends => ihok g rs hs bs hlen hends hok herror hnone)
      fun i H' e b hi hends => iherror i H' e b hi hends hok herror hnone

/-- A standing and the same with something more to own, which so far was part of the frame. -/
inductive Wider (c : μ) : Standing σ μ → Standing σ μ → Prop
  | resting (own : μ) : Wider c (.resting own) (.resting (own + c))
  | moving (s : σ) (f : μ) : Wider c (.moving s (c + f)) (.moving s f)

/-- **The frame rule.** What a computation does, it does beside anything that it could own besides. -/
theorem Settles.frame {x : Coop σ ρ α} {Q : Ending σ μ ε α} {c : μ} {st' : Standing σ μ}
    (h : Settles C holds .none H st x Q) (hwider : Wider c st st') :
    Settles C holds .none H st' x fun H r s f => Q H r s (c + f) := by
  generalize hnone : (Aim.none : Aim σ ρ μ ε) = a at h
  induction h generalizing st' with
  | rest _ ih =>
    cases hwider
    refine .rest fun s f hs => ih s (c + f) ?_ (.moving s f) hnone
    rwa [← add_assoc]
  | aim haim =>
    subst hnone
    exact haim.elim
  | done hQ =>
    cases hwider
    exact .done hQ
  | act own hgrows _ hown _ ih ihrest =>
    cases hwider
    refine .act (own + c) hgrows (ih (.moving _ _) hnone) (fun hrest => ?_) fun hrest =>
      ihrest hrest (.resting own) hnone
    rw [add_assoc]
    exact hown hrest
  | turn own hown _ ih =>
    cases hwider
    refine .turn (own + c) ?_ (ih (.resting own) hnone)
    rwa [add_assoc]
  | @gather _ _ _ _ _ parts _ _ kept owns ends hown hparts _ _ _ ihok iherror =>
    cases hwider with
    | moving s f =>
      refine .gather (kept + c) owns ends ?_ hparts (fun g rs hs bs hlen hends => ?_) fun i H' e b hi hends =>
        iherror i H' e b hi hends (.resting kept) hnone
      · have hsum : kept + c + ∑ i ∈ range parts.length, owns i + f =
            kept + ∑ i ∈ range parts.length, owns i + (c + f) := by
          rw [add_right_comm kept c, add_assoc _ c f]
        rwa [hsum]
      · rw [add_right_comm kept c]
        exact ihok g rs hs bs hlen hends (.resting _) hnone

theorem Settles.perform {x : Act σ α} {Q : Ending σ μ ε α} (hgrows : C.grows s (x s).2)
    (hQ : Q (H.add (C.record s (x s).2)) (x s).1 (x s).2 f)
    (hrests : C.rests s (x s).2 → ∃ own, holds (own + f) (x s).2 ∧
      ∀ s' f', holds (own + f') s' → Q (H.add (C.record s (x s).2)) (x s).1 s' f') :
    Settles C holds .none H (.moving s f) (.ofAct x : Coop σ ρ α) Q := by
  by_cases hrest : C.rests s (x s).2
  · obtain ⟨own, hown, hafter⟩ := hrests hrest
    exact .act own hgrows (.done hQ) (fun _ => hown) fun _ => .rest fun s' f' hs => .done (hafter s' f' hs)
  · exact .act 0 hgrows (.done hQ) (fun h => absurd h hrest) fun h => absurd h hrest

end Coop

/-! ## 5. Both at once -/

/-- Where it can be said how something ends that goes on from a state beside a frame: the rules that actions
and computations have in common. -/
class Settling (σ ρ : Type) (m : Type → Type u) [Performs σ m] where
  Settles {ε μ α : Type} [AddCommMonoid μ] : Chronicle σ ε → (μ → σ → Prop) → History ε → σ → μ → m α →
    Ending σ μ ε α → Prop
  mono {ε μ α : Type} [AddCommMonoid μ] {C : Chronicle σ ε} {holds : μ → σ → Prop} {H : History ε} {s : σ}
    {f : μ} {x : m α} {Q Q' : Ending σ μ ε α} :
    Settles C holds H s f x Q → (∀ H r s f, Q H r s f → Q' H r s f) → Settles C holds H s f x Q'
  pure {ε μ α : Type} [AddCommMonoid μ] {C : Chronicle σ ε} {holds : μ → σ → Prop} {H : History ε} {s : σ}
    {f : μ} {a : α} {Q : Ending σ μ ε α} : Q H (.ok a) s f → Settles C holds H s f (Pure.pure a : m α) Q
  throw {ε μ α : Type} [AddCommMonoid μ] {C : Chronicle σ ε} {holds : μ → σ → Prop} {H : History ε} {s : σ}
    {f : μ} {e : Failure} {Q : Ending σ μ ε α} :
    Q H (.error e) s f → Settles C holds H s f (MonadExcept.throw e : m α) Q
  bind {ε μ α β : Type} [AddCommMonoid μ] {C : Chronicle σ ε} {holds : μ → σ → Prop} {H : History ε} {s : σ}
    {f : μ} {x : m α} {F : α → m β} {P : Ending σ μ ε α} {Q : Ending σ μ ε β} :
    Settles C holds H s f x P →
    (∀ H a s f, P H (.ok a) s f → Settles C holds H s f (F a) Q) →
    (∀ H e s f, P H (.error e) s f → Q H (.error e) s f) → Settles C holds H s f (x >>= F) Q
  tryCatch {ε μ α : Type} [AddCommMonoid μ] {C : Chronicle σ ε} {holds : μ → σ → Prop} {H : History ε} {s : σ}
    {f : μ} {x : m α} {F : Failure → m α} {P Q : Ending σ μ ε α} :
    Settles C holds H s f x P → (∀ H a s f, P H (.ok a) s f → Q H (.ok a) s f) →
    (∀ H e s f, P H (.error e) s f → Settles C holds H s f (F e) Q) →
    Settles C holds H s f (MonadExcept.tryCatch x F) Q
  perform {ε μ α : Type} [AddCommMonoid μ] {C : Chronicle σ ε} {holds : μ → σ → Prop} {H : History ε} {s : σ}
    {f : μ} {x : Act σ α} {Q : Ending σ μ ε α} :
    C.grows s (x s).2 → Q (H.add (C.record s (x s).2)) (x s).1 (x s).2 f →
    (C.rests s (x s).2 → ∃ own, holds (own + f) (x s).2 ∧
      ∀ s' f', holds (own + f') s' → Q (H.add (C.record s (x s).2)) (x s).1 s' f') →
    Settles C holds H s f (Performs.perform x : m α) Q
  frame {ε μ α : Type} [AddCommMonoid μ] {C : Chronicle σ ε} {holds : μ → σ → Prop} {H : History ε} {s : σ}
    {c f : μ} {x : m α} {Q : Ending σ μ ε α} :
    Settles C holds H s (c + f) x Q → Settles C holds H s f x fun H r s f => Q H r s (c + f)

instance : Settling σ ρ (Coop σ ρ) where
  Settles C holds H s f x Q := x.Settles C holds .none H (.moving s f) Q
  mono h himp := h.mono himp
  pure hQ := .done hQ
  throw hQ := .done hQ
  bind h hok herror := h.bind hok herror
  tryCatch h hok herror := h.tryCatch hok herror
  perform hgrows hQ hrests := .perform hgrows hQ hrests
  frame h := h.frame (.moving _ _)

instance : Settling σ ρ (Act σ) where
  Settles C _ H s f x Q := x.Settles C H s f Q
  mono h himp := ⟨h.1, himp _ _ _ _ h.2⟩
  pure hQ := Act.settles_stay hQ
  throw hQ := Act.settles_stay hQ
  bind h hok herror := h.bind hok herror
  tryCatch h hok herror := h.tryCatch hok herror
  perform hgrows hQ _ := ⟨hgrows, hQ⟩
  frame h := h

end NodeFlow
