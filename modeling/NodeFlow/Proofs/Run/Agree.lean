import NodeFlow.Proofs.Run.Lockstep
import NodeFlow.Proofs.Run.Schedule
/-!
# Computations that do the same from a state on

Two computations may do the same although they are made differently, because of what is known of the state
that they start from. One looks something up in the state, the other has had it handed to it: as long as the
state holds what was handed on, each step leaves both in one and the same state.

What is known of a state holds on as long as only quiet steps are taken. So it is known to the root of a run,
whenever it goes on, and what it starts together is the same on both sides. Driven to their ends, both come to
the same result in the same state.
-/

set_option autoImplicit false

universe u

namespace NodeFlow

variable {σ ρ τ : Type} {α β γ δ : Type}

/-! ## 1. The rules -/

/-- From a state an action does what another one does, and their results are related in the state that both
leave. -/
def Act.Agrees (M : Manners σ ρ) (s : σ) (x : Act σ α) (y : Act σ β) (R : α → β → σ → Prop) : Prop :=
  M.step s (x s).2 ∧ (y s).2 = (x s).2 ∧ EndsAlike (fun a b => R a b (x s).2) (x s).1 (y s).1

/-- The same of computations of the root. After each stop they are ready for the quiet steps of others. -/
inductive Coop.Agrees (M : Manners σ ρ) :
    σ → {α β : Type} → Coop σ ρ α → Coop σ ρ β → (α → β → σ → Prop) → Prop
  | done {s : σ} {α β : Type} {r : Except Failure α} {r' : Except Failure β} {R : α → β → σ → Prop} :
    EndsAlike (fun a b => R a b s) r r' → Agrees M s (.done r) (.done r') R
  | act {s : σ} {α β γ δ : Type} {m : σ → γ × σ} {m' : σ → δ × σ} {k : γ → Coop σ ρ α} {l : δ → Coop σ ρ β}
    {R : α → β → σ → Prop} : M.step s (m s).2 → (m' s).2 = (m s).2 →
    Agrees M (m s).2 (k (m s).1) (l (m' s).1) R → Agrees M s (.act m k) (.act m' l) R
  | turn {s : σ} {α β : Type} {k : Coop σ ρ α} {l : Coop σ ρ β} {R : α → β → σ → Prop} :
    (∀ s', M.quiet s s' → Agrees M s' k l R) → Agrees M s (.turn k) (.turn l) R
  | gather {s : σ} {α β : Type} {parts : List (Coop σ ρ ρ)} {k : Except Failure (List ρ) → Coop σ ρ α}
    {l : Except Failure (List ρ) → Coop σ ρ β} {R : α → β → σ → Prop} : (∀ p ∈ parts, p.IsPart M s) →
    (∀ s' r, M.quiet s s' → M.Gathered s' r → Agrees M s' (k r) (l r) R) →
    Agrees M s (.gather parts k) (.gather parts l) R

variable {M : Manners σ ρ} {s : σ} {R : α → β → σ → Prop} {S : γ → δ → σ → Prop}

namespace Act

theorem Agrees.bind {x : Act σ α} {y : Act σ β} {f : α → Act σ γ} {g : β → Act σ δ} (h : x.Agrees M s y R)
    (hfg : ∀ a b s', R a b s' → (f a).Agrees M s' (g b) S) : (x >>= f).Agrees M s (y >>= g) S := by
  obtain ⟨hstep, hsame, hends⟩ := h
  have hx : (x >>= f) s = Act.bind x f s := rfl
  have hy : (y >>= g) s = Act.bind y g s := rfl
  rw [Agrees, hx, hy, Act.bind, Act.bind]
  rcases hxs : x s with ⟨r, s'⟩
  rcases hys : y s with ⟨r', s''⟩
  rw [hxs] at hstep hsame hends
  rw [hys] at hsame hends
  obtain rfl : s'' = s' := hsame
  cases hends with
  | ok hab =>
    obtain ⟨hstep', hsame', hends'⟩ := hfg _ _ _ hab
    exact ⟨M.step_trans hstep hstep', hsame', hends'⟩
  | error e => exact ⟨hstep, rfl, .error e⟩

theorem Agrees.tryCatch {x : Act σ α} {y : Act σ β} {f : Failure → Act σ α} {g : Failure → Act σ β}
    (h : x.Agrees M s y R) (hfg : ∀ e s', M.step s s' → (f e).Agrees M s' (g e) R) :
    (MonadExcept.tryCatch x f).Agrees M s (MonadExcept.tryCatch y g) R := by
  obtain ⟨hstep, hsame, hends⟩ := h
  have hx : (MonadExcept.tryCatch x f : Act σ α) s = Act.tryCatch x f s := rfl
  have hy : (MonadExcept.tryCatch y g : Act σ β) s = Act.tryCatch y g s := rfl
  rw [Agrees, hx, hy, Act.tryCatch, Act.tryCatch]
  rcases hxs : x s with ⟨r, s'⟩
  rcases hys : y s with ⟨r', s''⟩
  rw [hxs] at hstep hsame hends
  rw [hys] at hsame hends
  obtain rfl : s'' = s' := hsame
  cases hends with
  | ok hab => exact ⟨hstep, rfl, .ok hab⟩
  | error e =>
    obtain ⟨hstep', hsame', hends'⟩ := hfg e _ hstep
    exact ⟨M.step_trans hstep hstep', hsame', hends'⟩

/-- Actions that do the same and have the same results come to the same. -/
theorem Agrees.eq {x y : Act σ α} (h : x.Agrees M s y fun a b _ => a = b) : x s = y s := by
  obtain ⟨-, hsame, hends⟩ := h
  refine Prod.ext ?_ hsame.symm
  generalize (x s).1 = r at hends
  generalize (y s).1 = r' at hends
  cases hends with
  | ok hab => rw [hab]
  | error e => rfl

end Act

namespace Coop

theorem Agrees.mono {x : Coop σ ρ α} {y : Coop σ ρ β} {R' : α → β → σ → Prop} (h : x.Agrees M s y R)
    (himp : ∀ a b s', R a b s' → R' a b s') : x.Agrees M s y R' := by
  induction h with
  | done hends => exact .done (hends.mono fun a b => himp a b _)
  | act hstep hsame _ ih => exact .act hstep hsame (ih himp)
  | turn _ ih => exact .turn fun s' hs => ih s' hs himp
  | gather hparts _ ih => exact .gather hparts fun s' r hs hr => ih s' r hs hr himp

theorem Agrees.bind {x : Coop σ ρ α} {y : Coop σ ρ β} {f : α → Coop σ ρ γ} {g : β → Coop σ ρ δ}
    (h : x.Agrees M s y R) (hfg : ∀ a b s', R a b s' → (f a).Agrees M s' (g b) S) :
    (x.bind f).Agrees M s (y.bind g) S := by
  induction h with
  | done hends =>
    cases hends with
    | ok hab => exact hfg _ _ _ hab
    | error e => exact .done (.error e)
  | act hstep hsame _ ih => exact .act hstep hsame (ih hfg)
  | turn _ ih => exact .turn fun s' hs => ih s' hs hfg
  | gather hparts _ ih => exact .gather hparts fun s' r hs hr => ih s' r hs hr hfg

theorem Agrees.tryCatch {x : Coop σ ρ α} {y : Coop σ ρ β} {f : Failure → Coop σ ρ α} {g : Failure → Coop σ ρ β}
    (h : x.Agrees M s y R) (hfg : ∀ e s', M.step s s' → (f e).Agrees M s' (g e) R) :
    (x.tryCatch f).Agrees M s (y.tryCatch g) R := by
  induction h with
  | done hends =>
    cases hends with
    | ok hab => exact .done (.ok hab)
    | error e => exact hfg e _ (M.step_refl _)
  | act hstep hsame _ ih => exact .act hstep hsame (ih fun e s' hs => hfg e s' (M.step_trans hstep hs))
  | turn _ ih =>
    exact .turn fun s' hs => ih s' hs fun e s'' hs' => hfg e s'' (M.step_trans (M.step_of_quiet hs) hs')
  | gather hparts _ ih =>
    exact .gather hparts fun s' r hs hr =>
      ih s' r hs hr fun e s'' hs' => hfg e s'' (M.step_trans (M.step_of_quiet hs) hs')

theorem Agrees.ofAct {x : Act σ α} {y : Act σ β} (h : x.Agrees M s y R) :
    (Coop.ofAct x : Coop σ ρ α).Agrees M s (Coop.ofAct y) R :=
  .act h.1 h.2.1 (.done h.2.2)

/-- A computation that minds its manners does what it does itself. -/
theorem Minds.agrees {x : Coop σ ρ α} {Q : Except Failure α → σ → Prop} (h : Coop.Minds M .root s x Q) :
    x.Agrees M s x fun a b s' => a = b ∧ Q (.ok a) s' := by
  generalize hrole : Role.root = role at h
  induction h with
  | @done role s α r Q hQ =>
    cases r with
    | ok a => exact .done (.ok ⟨rfl, hQ⟩)
    | error e => exact .done (.error e)
  | act hmay _ ih =>
    subst hrole
    exact .act hmay rfl (ih rfl)
  | turn _ ih =>
    subst hrole
    exact .turn fun s' hs => ih s' hs rfl
  | gather hparts _ _ ih =>
    subst hrole
    exact .gather hparts fun s' r hs hr => ih s' r hs hr rfl

/-- And what does the same minds its manners as well. -/
theorem Agrees.minds {x : Coop σ ρ α} {y : Coop σ ρ β} (h : x.Agrees M s y R) :
    Coop.Minds M .root s x fun _ _ => True := by
  induction h with
  | done _ => exact .done trivial
  | act hstep _ _ ih => exact .act hstep ih
  | turn _ ih => exact .turn ih
  | gather hparts _ ih => exact .gather hparts ih

end Coop

/-! ## 2. Both at once -/

/-- Where doing the same can be told: the rules that actions and computations have in common. -/
class Agreeing (σ ρ : Type) (m : Type → Type u) [Performs σ m] [Mannerly σ ρ m] where
  Agrees {α β : Type} : Manners σ ρ → σ → m α → m β → (α → β → σ → Prop) → Prop
  mono {α β : Type} {M : Manners σ ρ} {s : σ} {x : m α} {y : m β} {R S : α → β → σ → Prop} :
    Agrees M s x y R → (∀ a b s', R a b s' → S a b s') → Agrees M s x y S
  pure {α β : Type} {M : Manners σ ρ} {s : σ} {a : α} {b : β} {R : α → β → σ → Prop} :
    R a b s → Agrees M s (Pure.pure a : m α) (Pure.pure b : m β) R
  throw {α β : Type} {M : Manners σ ρ} {s : σ} {R : α → β → σ → Prop} (e : Failure) :
    Agrees M s (MonadExcept.throw e : m α) (MonadExcept.throw e : m β) R
  bind {α β γ δ : Type} {M : Manners σ ρ} {s : σ} {x : m α} {y : m β} {f : α → m γ} {g : β → m δ}
    {R : α → β → σ → Prop} {S : γ → δ → σ → Prop} : Agrees M s x y R →
    (∀ a b s', R a b s' → Agrees M s' (f a) (g b) S) → Agrees M s (x >>= f) (y >>= g) S
  tryCatch {α β : Type} {M : Manners σ ρ} {s : σ} {x : m α} {y : m β} {f : Failure → m α} {g : Failure → m β}
    {R : α → β → σ → Prop} : Agrees M s x y R → (∀ e s', M.step s s' → Agrees M s' (f e) (g e) R) →
    Agrees M s (MonadExcept.tryCatch x f) (MonadExcept.tryCatch y g) R
  perform {α β : Type} {M : Manners σ ρ} {s : σ} {x : Act σ α} {y : Act σ β} {R : α → β → σ → Prop} :
    x.Agrees M s y R → Agrees M s (Performs.perform x : m α) (Performs.perform y : m β) R
  refl {α : Type} {M : Manners σ ρ} {s : σ} {x : m α} {Q : Except Failure α → σ → Prop} :
    Mannerly.Minds M .root s x Q → Agrees M s x x fun a b s' => a = b ∧ Q (.ok a) s'

instance : Agreeing σ ρ (Act σ) where
  Agrees M s x y R := x.Agrees M s y R
  mono h himp := ⟨h.1, h.2.1, h.2.2.mono fun _ _ => himp _ _ _⟩
  pure hab := ⟨Manners.step_refl _ _, rfl, .ok hab⟩
  throw e := ⟨Manners.step_refl _ _, rfl, .error e⟩
  bind h hfg := h.bind hfg
  tryCatch h hfg := h.tryCatch hfg
  perform h := h
  refl {α M s x Q} h := by
    refine ⟨h.1, rfl, ?_⟩
    have hQ := h.2
    generalize (x s).1 = r at hQ
    cases r with
    | ok a => exact .ok ⟨rfl, hQ⟩
    | error e => exact .error e

instance : Agreeing σ ρ (Coop σ ρ) where
  Agrees M s x y R := x.Agrees M s y R
  mono h himp := h.mono himp
  pure hab := .done (.ok hab)
  throw e := .done (.error e)
  bind h hfg := h.bind hfg
  tryCatch h hfg := h.tryCatch hfg
  perform h := .ofAct h
  refl h := h.agrees

/-- An action does what it does itself. -/
theorem Act.agrees_of_step {x : Act σ α} (hstep : M.step s (x s).2) {R : α → α → σ → Prop}
    (hR : ∀ a, (x s).1 = .ok a → R a a (x s).2) : x.Agrees M s x R := by
  refine ⟨hstep, rfl, ?_⟩
  generalize (x s).1 = r at hR ⊢
  cases r with
  | ok a => exact .ok (hR a rfl)
  | error e => exact .error e

/-- An action does what another one does if it comes to the same. -/
theorem Act.agrees_of_eq {x y : Act σ α} {R : α → α → σ → Prop} (hsame : y s = x s) (h : x.Agrees M s x R) :
    x.Agrees M s y R := by
  rw [Agrees, hsame]
  exact h

/-! ## 3. What is under way -/

/-- What two computations of the root come to when they next stop. -/
inductive Coop.Pause.Agrees (M : Manners σ ρ) (s : σ) (R : α → β → σ → Prop) :
    Coop.Pause σ ρ α → Coop.Pause σ ρ β → Prop
  | done {r : Except Failure α} {r' : Except Failure β} : EndsAlike (fun a b => R a b s) r r' →
    Agrees M s R (.done r) (.done r')
  | turn {k : Coop σ ρ α} {l : Coop σ ρ β} : (∀ s', M.quiet s s' → k.Agrees M s' l R) →
    Agrees M s R (.turn k) (.turn l)
  | gather {parts : List (Coop σ ρ ρ)} {k : Except Failure (List ρ) → Coop σ ρ α}
    {l : Except Failure (List ρ) → Coop σ ρ β} :
    (∀ s' r, M.quiet s s' → M.Gathered s' r → (k r).Agrees M s' (l r) R) →
    Agrees M s R (.gather parts k) (.gather parts l)

theorem Coop.Agrees.advance {x : Coop σ ρ α} {y : Coop σ ρ β} (h : x.Agrees M s y R) :
    (y.advance s).2 = (x.advance s).2 ∧ (x.advance s).1.Agrees M (x.advance s).2 R (y.advance s).1 := by
  induction h with
  | done hends => exact ⟨rfl, .done hends⟩
  | @act s α β γ δ m m' k l R _ hsame _ ih =>
    have hy : (Coop.act m' l).advance s = (l (m' s).1).advance (m' s).2 := rfl
    rw [hy, hsame]
    exact ih
  | turn hkl _ => exact ⟨rfl, .turn hkl⟩
  | @gather s α β parts k l R hparts hkl ih =>
    cases parts with
    | nil => exact ih s (.ok []) (M.quiet_refl s) fun a ha => absurd ha List.not_mem_nil
    | cons p ps => exact ⟨rfl, .gather hkl⟩

/-- The same is ready: the root on both sides, or the very same part. -/
inductive Ready.Agrees (M : Manners σ ρ) (s : σ) : Ready σ ρ → Ready σ ρ → Prop
  | root {x y : Coop σ ρ ρ} : (∀ s', M.quiet s s' → x.Agrees M s' y fun a b _ => a = b) →
    Agrees M s (.resume .root x) (.resume .root y)
  | part {item : Ready σ ρ} : Pool.root? item = none → Agrees M s item item

/-- The same group waits. How it goes on may differ if the root waits for it. -/
structure Group.Agrees (M : Manners σ ρ) (s : σ) (a b : Group σ ρ) : Prop where
  owner : b.owner = a.owner
  results : b.results = a.results
  settled : b.settled = a.settled
  part : a.owner ≠ .root → b.resume = a.resume
  root : a.owner = .root → a.settled = false → ∀ s' r, M.quiet s s' → M.Gathered s' r →
    (a.resume r).Agrees M s' (b.resume r) fun a b _ => a = b

/-- The same is under way, when so much is still to happen in this round. -/
structure Pool.Agrees (M : Manners σ ρ) (p q : Pool σ ρ) (rest rest' : List (Ready σ ρ)) : Prop where
  state : q.state = p.state
  size : q.groups.size = p.groups.size
  groups : ∀ g : Nat, Option.Rel (Group.Agrees M p.state) p.groups[g]? q.groups[g]?
  queue : List.Forall₂ (Ready.Agrees M p.state) p.queue q.queue
  rest : List.Forall₂ (Ready.Agrees M p.state) rest rest'
  result : q.result = p.result

theorem Ready.Agrees.of_quiet {s' : σ} {item item' : Ready σ ρ} (h : item.Agrees M s item')
    (hs : M.quiet s s') : item.Agrees M s' item' := by
  cases h with
  | root hxy => exact .root fun s'' hs' => hxy s'' (M.quiet_trans hs hs')
  | part hpart => exact .part hpart

theorem Group.Agrees.of_quiet {s' : σ} {a b : Group σ ρ} (h : a.Agrees M s b) (hs : M.quiet s s') :
    a.Agrees M s' b :=
  ⟨h.owner, h.results, h.settled, h.part,
    fun howner hopen s'' r hs' hr => h.root howner hopen s'' r (M.quiet_trans hs hs') hr⟩

namespace Pool

variable {p q : Pool σ ρ} {rest rest' : List (Ready σ ρ)}

/-- Of what is ready beside the root nothing depends on the state. -/
theorem agrees_of_roots {xs ys : List (Ready σ ρ)} (h : List.Forall₂ (Ready.Agrees M s) xs ys)
    (hroots : roots xs = []) (s' : σ) : List.Forall₂ (Ready.Agrees M s') xs ys := by
  induction h with
  | nil => exact .nil
  | @cons x y xs ys hxy _ ih =>
    rw [roots, List.filterMap_cons] at hroots
    cases hxy with
    | root _ => cases hroots
    | part hpart =>
      rw [hpart] at hroots
      exact .cons (.part hpart) (ih hroots)

theorem agrees_members (s : σ) (g i : Nat) (parts : List (Coop σ ρ ρ)) :
    List.Forall₂ (Ready.Agrees M s) (members g i parts) (members g i parts) :=
  forall₂_members g i rfl fun _ _ _ hx hy _ => Option.some.inj (hx.symm.trans hy) ▸ .part rfl

/-- A group of which nobody but a part goes on is the same on both sides. -/
theorem agrees_group {a : Group σ ρ} (h : a.owner ≠ .root ∨ a.settled = true) : a.Agrees M s a :=
  ⟨rfl, rfl, rfl, fun _ => rfl, fun howner hopen => by
    rcases h with h | h
    · exact absurd howner h
    · rw [hopen] at h
      cases h⟩

theorem Agrees.of_quiet {s' : σ} (h : p.Agrees M q rest rest') (hs : M.quiet p.state s') :
    Agrees M { p with state := s' } { q with state := s' } rest rest' where
  state := rfl
  size := h.size
  groups g := by
    have hgroup := h.groups g
    dsimp only
    generalize p.groups[g]? = a at hgroup ⊢
    generalize q.groups[g]? = b at hgroup ⊢
    cases hgroup with
    | none => exact .none
    | some hab => exact .some (hab.of_quiet hs)
  queue := h.queue.imp fun _ _ h => h.of_quiet hs
  rest := h.rest.imp fun _ _ h => h.of_quiet hs
  result := h.result

theorem Agrees.enqueue {xs ys : List (Ready σ ρ)} (h : p.Agrees M q rest rest')
    (hxs : List.Forall₂ (Ready.Agrees M p.state) xs ys) : (p.enqueue xs).Agrees M (q.enqueue ys) rest rest' :=
  { h with queue := List.rel_append h.queue hxs }

theorem Agrees.push {a b : Group σ ρ} (h : p.Agrees M q rest rest') (hab : a.Agrees M p.state b) :
    Agrees M { p with groups := p.groups.push a } { q with groups := q.groups.push b } rest rest' where
  state := h.state
  size := by rw [Array.size_push, Array.size_push, h.size]
  groups g := by
    rw [Array.getElem?_push, Array.getElem?_push, h.size]
    split
    · exact .some hab
    · exact h.groups g
  queue := h.queue
  rest := h.rest
  result := h.result

theorem Agrees.setGroup {a b : Group σ ρ} (h : p.Agrees M q rest rest') (hab : a.Agrees M p.state b) (g : Nat) :
    Agrees M { p with groups := p.groups.setIfInBounds g a } { q with groups := q.groups.setIfInBounds g b }
      rest rest' where
  state := h.state
  size := by rw [Array.size_setIfInBounds, Array.size_setIfInBounds, h.size]
  groups g' := by
    rw [Array.getElem?_setIfInBounds, Array.getElem?_setIfInBounds, h.size]
    split
    · split
      · exact .some hab
      · exact .none
    · exact h.groups g'
  queue := h.queue
  rest := h.rest
  result := h.result

/-- What happens now is taken out of what is still to happen. -/
theorem Agrees.tail {item item' : Ready σ ρ} (h : p.Agrees M q (item :: rest) (item' :: rest')) :
    item.Agrees M p.state item' ∧ p.Agrees M q rest rest' := by
  cases h.rest with
  | cons hitem hrest => exact ⟨hitem, { h with rest := hrest }⟩

/-! ## 4. One thing that happens -/

/-- A part goes on, on both sides. -/
theorem Agrees.resume_part {g i : Nat} {x : Coop σ ρ ρ} (h : p.Agrees M q rest rest') (hx : x.IsPart M p.state) :
    (p.resume (.member g i) x).Agrees M (q.resume (.member g i) x) rest rest' := by
  have hadvance := (hx p.state (M.step_refl _)).advance
  rw [Pool.resume, Pool.resume, h.state]
  generalize x.advance p.state = stop at hadvance ⊢
  obtain ⟨pause, s'⟩ := stop
  have hlater := h.of_quiet hadvance.1
  cases pause with
  | done r => exact hlater.enqueue (.cons (.part rfl) .nil)
  | turn k => exact hlater.enqueue (.cons (.part rfl) .nil)
  | gather parts k =>
    have hpush := hlater.push (agrees_group (a := ⟨.member g i, Array.replicate parts.length none, false, k⟩)
      (Or.inl (by simp)))
    dsimp only
    rw [h.size]
    exact hpush.enqueue (agrees_members _ _ _ _)

/-- The root goes on. It is nowhere else, so of everything else nothing depends on the state. -/
theorem Agrees.resume_root {x y : Coop σ ρ ρ} (h : p.Agrees M q rest rest')
    (hxy : x.Agrees M p.state y fun a b _ => a = b) (hroots : roots (p.queue ++ rest) = [])
    (hawaits : ∀ g, ¬ p.Awaits g) : (p.resume .root x).Agrees M (q.resume .root y) rest rest' := by
  obtain ⟨hsame, hpause⟩ := hxy.advance
  rw [roots_append, List.append_eq_nil_iff] at hroots
  rw [Pool.resume, Pool.resume, h.state]
  generalize x.advance p.state = stop at hsame hpause ⊢
  generalize y.advance p.state = stop' at hsame hpause ⊢
  obtain ⟨pause, s'⟩ := stop
  obtain ⟨pause', s''⟩ := stop'
  obtain rfl : s'' = s' := hsame
  have hlater : Agrees M { p with state := s'' } { q with state := s'' } rest rest' := by
    refine ⟨rfl, h.size, fun g => ?_, agrees_of_roots h.queue hroots.1 _, agrees_of_roots h.rest hroots.2 _, h.result⟩
    have hgroup := h.groups g
    have hawait := hawaits g
    rw [Awaits] at hawait
    dsimp only
    generalize p.groups[g]? = a at hgroup hawait ⊢
    generalize q.groups[g]? = b at hgroup ⊢
    cases hgroup with
    | none => exact .none
    | @some a b hab =>
      -- the root waits for none of the groups
      refine .some ⟨hab.owner, hab.results, hab.settled, hab.part, fun howner hopen => ?_⟩
      exact absurd ⟨a, rfl, howner, hopen⟩ hawait
  cases hpause with
  | @done r r' hends =>
    obtain rfl : r' = r := by
      cases hends with
      | ok hab => exact congrArg Except.ok (Eq.symm hab)
      | error e => rfl
    exact { hlater with result := rfl }
  | turn hkl => exact hlater.enqueue (.cons (.root hkl) .nil)
  | @gather parts k l hkl =>
    have hnew : Group.Agrees M s'' ⟨.root, Array.replicate parts.length none, false, k⟩
        ⟨.root, Array.replicate parts.length none, false, l⟩ :=
      ⟨rfl, rfl, rfl, fun hne => absurd rfl hne, fun _ _ => hkl⟩
    dsimp only
    rw [h.size]
    exact (hlater.push hnew).enqueue (agrees_members _ _ _ _)

theorem Agrees.settle {a b : Group σ ρ} (h : p.Agrees M q rest rest') (hab : a.Agrees M p.state b)
    (hopen : a.settled = false) {r : Except Failure (List ρ)} (hr : M.Gathered p.state r) (g : Nat) :
    (p.settle g a r).Agrees M (q.settle g b r) rest rest' := by
  have hsettled : Group.Agrees M p.state { a with settled := true } { b with settled := true } :=
    ⟨hab.owner, hab.results, rfl, hab.part, fun _ h => by cases h⟩
  refine (h.setGroup hsettled g).enqueue (.cons ?_ .nil)
  rw [hab.owner]
  cases howner : a.owner with
  | root =>
    exact .root fun s' hs => hab.root howner hopen s' r hs (hr.of_step (M.step_of_quiet hs))
  | member j i =>
    rw [hab.part (by simp [howner])]
    exact .part rfl

/-- A part has ended. -/
theorem Agrees.report {g place : Nat} {result : Except Failure ρ} (h : p.Agrees M q rest rest')
    (hpart : M.part result p.state)
    (hgroups : ∀ (g : Nat) (group : Group σ ρ), p.groups[g]? = some group → GroupOk M p.state group) :
    (p.report g place result).Agrees M (q.report g place result) rest rest' := by
  have hgroup := h.groups g
  have hok := hgroups g
  rw [Pool.report, Pool.report]
  generalize p.groups[g]? = a at hgroup hok
  generalize q.groups[g]? = b at hgroup
  cases hgroup with
  | none => exact h
  | @some a b hab =>
    have hoka := hok a rfl
    dsimp only
    rw [hab.settled, hab.results]
    by_cases hsettled : a.settled = true
    · rw [if_pos hsettled, if_pos hsettled]
      exact h
    · rw [if_neg hsettled, if_neg hsettled]
      have hopen := eq_false_of_ne_true hsettled
      cases result with
      | error e => exact h.settle hab hopen (r := .error e) hpart g
      | ok v =>
        have hput := hoka.put hpart place
        have hlater : Group.Agrees M p.state { a with results := a.results.setIfInBounds place (some v) }
            { b with results := a.results.setIfInBounds place (some v), settled := a.settled } :=
          ⟨hab.owner, rfl, rfl, hab.part, hab.root⟩
        dsimp only
        cases hall : complete? (a.results.setIfInBounds place (some v)) with
        | some as =>
          refine h.settle hlater hopen (r := .ok as) (fun w hw => hput.results w ?_) g
          rw [eq_map_some_of_mapM hall]
          exact List.mem_map_of_mem hw
        | none =>
          dsimp only
          exact h.setGroup hlater g

variable {s₀ : σ} {Q : Except Failure ρ → σ → Prop}

theorem Agrees.fire {item item' : Ready σ ρ} (h : p.Agrees M q (item :: rest) (item' :: rest'))
    (hsound : Sound M s₀ p (item :: rest)) (hroot : Root M Q p (item :: rest)) :
    (p.fire item).Agrees M (q.fire item') rest rest' := by
  obtain ⟨hitem, htail⟩ := h.tail
  cases hitem with
  | root hxy =>
    obtain ⟨hroots, hawaits, -, -⟩ := hroot.of_resume
    exact htail.resume_root (hxy _ (M.quiet_refl _)) hroots hawaits
  | part hpart =>
    rcases item with ⟨- | ⟨g, i⟩, x⟩ | ⟨g, place, r⟩
    · cases hpart
    · exact htail.resume_part hsound.tail.1
    · exact htail.report hsound.tail.1 hsound.groups

theorem Agrees.foldl_fire (h : p.Agrees M q rest rest') (hsound : Sound M s₀ p rest) (hroot : Root M Q p rest) :
    (rest.foldl Pool.fire p).Agrees M (rest'.foldl Pool.fire q) [] [] := by
  induction rest generalizing p q rest' with
  | nil =>
    cases h.rest
    exact h
  | cons item rest ih =>
    obtain ⟨item', more, rfl⟩ : ∃ item' more, rest' = item' :: more := by
      cases h.rest with
      | cons _ _ => exact ⟨_, _, rfl⟩
    obtain ⟨hsound', hroot'⟩ := hsound.fire hroot
    have hrest := ih (h.fire hsound hroot) hsound' hroot'
    exact hrest

theorem Agrees.round (h : p.Agrees M q [] []) (hsound : Sound M s₀ p []) (hroot : Root M Q p []) :
    p.round.Agrees M q.round [] [] := by
  have hqueue : ({ p with queue := [] } : Pool σ ρ).queue ++ p.queue = p.queue ++ [] := by
    rw [List.append_nil]
    rfl
  have hstart : Agrees M { p with queue := [] } { q with queue := [] } p.queue q.queue :=
    ⟨h.state, h.size, h.groups, .nil, h.queue, h.result⟩
  refine hstart.foldl_fire (Q := Q) ⟨hsound.since, hqueue ▸ hsound.items, hsound.groups⟩ ?_
  exact hroot.congr (congrArg roots hqueue) (fun j other hother hownerj hopenj =>
    ⟨other, hother, hownerj, hopenj, rfl⟩) (fun _ hj => hj) rfl (M.quiet_refl _)

theorem Agrees.rounds (h : p.Agrees M q [] []) (hsound : Sound M s₀ p []) (hroot : Root M Q p []) (n : Nat) :
    (p.rounds n).Agrees M (q.rounds n) [] [] := by
  induction n generalizing p q with
  | zero => exact h
  | succ n ih =>
    have hround := h.round hsound hroot
    obtain ⟨hsound', hroot'⟩ := hsound.round hroot
    rw [Pool.rounds, Pool.rounds, hround.result]
    split
    · exact hround.round hsound' hroot'
    · exact ih hround hsound' hroot'

end Pool

/-- **Computations that do the same from a state on run alike from it**: to the same result and the same
state, in however many rounds. -/
theorem Coop.Agrees.run {x y : Coop σ ρ ρ}
    (h : ∀ s', M.quiet s s' → x.Agrees M s' y fun a b _ => a = b) (limit : Nat) :
    x.run limit s = y.run limit s := by
  have hminds : ∀ s', M.quiet s s' → Coop.Minds M .root s' x fun _ _ => True := fun s' hs => (h s' hs).minds
  have hsound : Pool.Sound M s (Pool.start x s) [] :=
    ⟨M.step_refl s, List.forall_mem_singleton.2 trivial, fun j other hother => by cases hother⟩
  have hroot : Pool.Root M (fun _ _ => True) (Pool.start x s) [] :=
    .ready rfl (fun g hg => by obtain ⟨other, hother, -⟩ := hg; cases hother) rfl hminds
  have hstart : (Pool.start x s).Agrees M (Pool.start y s) [] [] :=
    ⟨rfl, rfl, fun _ => .none, .cons (.root h) .nil, .nil, rfl⟩
  have hend := hstart.rounds hsound hroot limit
  rw [Coop.run, Coop.run, hend.state, hend.result]

/-- What a run does first, if it changes nothing, makes no difference. -/
theorem Coop.run_after_pure (k : Unit → Coop σ ρ ρ) (limit : Nat) :
    (Coop.ofAct (pure ()) >>= k).run limit = (k ()).run limit := by
  funext s
  cases limit with
  | zero => rfl
  | succ n =>
    have hround : (Pool.start (Coop.ofAct (pure ()) >>= k) s).round = (Pool.start (k ()) s).round := rfl
    rw [Coop.run, Coop.run, Pool.rounds, Pool.rounds, hround]

end NodeFlow
