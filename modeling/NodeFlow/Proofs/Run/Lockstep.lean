import Mathlib.Data.List.Forall2
import Mathlib.Data.Option.Basic
import NodeFlow.Run.Schedule
/-!
# Computations in lockstep

Two computations on two states may do the same without being equal: each step of the one corresponds to a step of
the other, and what they have come to corresponds as well. What corresponds is left open, for states and for
results; a failure corresponds to itself only.

The one awkward thing: computations that are started together end in results that others look at later, in states
that have changed since. So what it means for results of parts to correspond must not depend on the states.
-/

set_option autoImplicit false

universe u

namespace NodeFlow

variable {σ ρ α β γ δ : Type}

/-! ## 1. What corresponds -/

/-- Two ends that correspond: related results, or one failure. -/
inductive EndsAlike {ε : Type} (R : α → β → Prop) : Except ε α → Except ε β → Prop
  | ok {a : α} {b : β} : R a b → EndsAlike R (.ok a) (.ok b)
  | error (e : ε) : EndsAlike R (.error e) (.error e)

/-- Which states correspond, and which results of parts and of the whole. -/
structure Pairing (σ ρ : Type) where
  state : σ → σ → Prop
  part : ρ → ρ → Prop
  root : ρ → ρ → Prop

/-- Which results correspond, by who waits for them. -/
def Pairing.result (C : Pairing σ ρ) : Owner → ρ → ρ → Prop
  | .root => C.root
  | .member _ _ => C.part

section

variable {ε ε' : Type} {R : α → β → Prop} {r : Except ε α} {s : Except ε β}

theorem EndsAlike.mono {S : α → β → Prop} (h : EndsAlike R r s) (himp : ∀ a b, R a b → S a b) :
    EndsAlike S r s := by
  cases h with
  | ok hab => exact .ok (himp _ _ hab)
  | error e => exact .error e

theorem EndsAlike.map {S : γ → δ → Prop} {f : α → γ} {g : β → δ} (h : EndsAlike R r s)
    (hfg : ∀ a b, R a b → S (f a) (g b)) : EndsAlike S (r.map f) (s.map g) := by
  cases h with
  | ok hab => exact .ok (hfg _ _ hab)
  | error e => exact .error e

theorem EndsAlike.mapError (h : EndsAlike R r s) (f : ε → ε') : EndsAlike R (r.mapError f) (s.mapError f) := by
  cases h with
  | ok hab => exact .ok hab
  | error e => exact .error (f e)

end

/-! ## 2. The rules -/

/-- An action does what another one does. -/
def Act.Tracks (C : Pairing σ ρ) (x : Act σ α) (y : Act σ β) (R : α → β → Prop) : Prop :=
  ∀ s t, C.state s t → C.state (x s).2 (y t).2 ∧ EndsAlike R (x s).1 (y t).1

/-- A computation does step by step what another one does. -/
inductive Coop.Tracks (C : Pairing σ ρ) :
    {α β : Type} → Coop σ ρ α → Coop σ ρ β → (α → β → Prop) → Prop
  | done {α β : Type} {R : α → β → Prop} {r : Except Failure α} {s : Except Failure β} :
    EndsAlike R r s → Tracks C (.done r) (.done s) R
  | act {α β γ δ : Type} {R : α → β → Prop} {x : σ → γ × σ} {y : σ → δ × σ} {k : γ → Coop σ ρ α}
    {l : δ → Coop σ ρ β} : (∀ s t, C.state s t → C.state (x s).2 (y t).2) →
    (∀ s t, C.state s t → Tracks C (k (x s).1) (l (y t).1) R) → Tracks C (.act x k) (.act y l) R
  | turn {α β : Type} {R : α → β → Prop} {k : Coop σ ρ α} {l : Coop σ ρ β} :
    Tracks C k l R → Tracks C (.turn k) (.turn l) R
  | gather {α β : Type} {R : α → β → Prop} {ps qs : List (Coop σ ρ ρ)} {k : Except Failure (List ρ) → Coop σ ρ α}
    {l : Except Failure (List ρ) → Coop σ ρ β} : ps.length = qs.length →
    (∀ (i : Nat) (p q : Coop σ ρ ρ), ps[i]? = some p → qs[i]? = some q → Tracks C p q C.part) →
    (∀ r s, EndsAlike (List.Forall₂ C.part) r s → Tracks C (k r) (l s) R) → Tracks C (.gather ps k) (.gather qs l) R

variable {C : Pairing σ ρ} {R : α → β → Prop} {S : γ → δ → Prop}

namespace Act

theorem Tracks.bind {x : Act σ α} {y : Act σ β} {f : α → Act σ γ} {g : β → Act σ δ} (h : x.Tracks C y R)
    (hfg : ∀ a b, R a b → (f a).Tracks C (g b) S) : (x >>= f).Tracks C (y >>= g) S := by
  intro s t hst
  obtain ⟨hstate, hend⟩ := h s t hst
  have hx : (x >>= f) s = Act.bind x f s := rfl
  have hy : (y >>= g) t = Act.bind y g t := rfl
  rw [hx, hy, Act.bind, Act.bind]
  generalize x s = p at hstate hend ⊢
  generalize y t = q at hstate hend ⊢
  obtain ⟨r, s'⟩ := p
  obtain ⟨r', t'⟩ := q
  dsimp only at hstate hend
  cases hend with
  | ok hab => exact hfg _ _ hab s' t' hstate
  | error e => exact ⟨hstate, .error e⟩

theorem Tracks.tryCatch {x : Act σ α} {y : Act σ β} {f : Failure → Act σ α} {g : Failure → Act σ β}
    (h : x.Tracks C y R) (hfg : ∀ e, (f e).Tracks C (g e) R) :
    (MonadExcept.tryCatch x f).Tracks C (MonadExcept.tryCatch y g) R := by
  intro s t hst
  obtain ⟨hstate, hend⟩ := h s t hst
  have hx : (MonadExcept.tryCatch x f : Act σ α) s = Act.tryCatch x f s := rfl
  have hy : (MonadExcept.tryCatch y g : Act σ β) t = Act.tryCatch y g t := rfl
  rw [hx, hy, Act.tryCatch, Act.tryCatch]
  generalize x s = p at hstate hend ⊢
  generalize y t = q at hstate hend ⊢
  obtain ⟨r, s'⟩ := p
  obtain ⟨r', t'⟩ := q
  dsimp only at hstate hend
  cases hend with
  | ok hab => exact ⟨hstate, .ok hab⟩
  | error e => exact hfg e s' t' hstate

end Act

namespace Coop

theorem Tracks.mono {x : Coop σ ρ α} {y : Coop σ ρ β} {R' : α → β → Prop} (h : x.Tracks C y R)
    (himp : ∀ a b, R a b → R' a b) : x.Tracks C y R' := by
  induction h with
  | done hend => exact .done (hend.mono himp)
  | act hstate _ ih => exact .act hstate fun s t hst => ih s t hst himp
  | turn _ ih => exact .turn (ih himp)
  | gather hlength hparts _ _ ih => exact .gather hlength hparts fun r s hrs => ih r s hrs himp

theorem Tracks.bind {x : Coop σ ρ α} {y : Coop σ ρ β} {f : α → Coop σ ρ γ} {g : β → Coop σ ρ δ}
    (h : x.Tracks C y R) (hfg : ∀ a b, R a b → (f a).Tracks C (g b) S) : (x.bind f).Tracks C (y.bind g) S := by
  induction h with
  | done hend =>
    cases hend with
    | ok hab => exact hfg _ _ hab
    | error e => exact .done (.error e)
  | act hstate _ ih => exact .act hstate fun s t hst => ih s t hst hfg
  | turn _ ih => exact .turn (ih hfg)
  | gather hlength hparts _ _ ih => exact .gather hlength hparts fun r s hrs => ih r s hrs hfg

theorem Tracks.tryCatch {x : Coop σ ρ α} {y : Coop σ ρ β} {f : Failure → Coop σ ρ α} {g : Failure → Coop σ ρ β}
    (h : x.Tracks C y R) (hfg : ∀ e, (f e).Tracks C (g e) R) : (x.tryCatch f).Tracks C (y.tryCatch g) R := by
  induction h with
  | done hend =>
    cases hend with
    | ok hab => exact .done (.ok hab)
    | error e => exact hfg e
  | act hstate _ ih => exact .act hstate fun s t hst => ih s t hst hfg
  | turn _ ih => exact .turn (ih hfg)
  | gather hlength hparts _ _ ih => exact .gather hlength hparts fun r s hrs => ih r s hrs hfg

theorem Tracks.ofAct {x : Act σ α} {y : Act σ β} (h : x.Tracks C y R) :
    (Coop.ofAct x : Coop σ ρ α).Tracks C (Coop.ofAct y) R :=
  .act (fun s t hst => (h s t hst).1) fun s t hst => .done (h s t hst).2

theorem tracks_turns (n : Nat) : (turns n : Coop σ ρ Unit).Tracks C (turns n) fun _ _ => True := by
  induction n with
  | zero => exact .done (.ok trivial)
  | succ n ih => exact .turn ih

end Coop

/-! ## 3. Both at once -/

/-- Where computations can go in lockstep: the rules that actions and computations have in common. -/
class Lockstep (σ ρ : Type) (m : Type → Type u) [Performs σ m] where
  Tracks {α β : Type} : Pairing σ ρ → m α → m β → (α → β → Prop) → Prop
  mono {α β : Type} {C : Pairing σ ρ} {x : m α} {y : m β} {R S : α → β → Prop} :
    Tracks C x y R → (∀ a b, R a b → S a b) → Tracks C x y S
  pure {α β : Type} {C : Pairing σ ρ} {a : α} {b : β} {R : α → β → Prop} :
    R a b → Tracks C (Pure.pure a : m α) (Pure.pure b : m β) R
  throw {α β : Type} {C : Pairing σ ρ} {R : α → β → Prop} (e : Failure) :
    Tracks C (MonadExcept.throw e : m α) (MonadExcept.throw e : m β) R
  bind {α β γ δ : Type} {C : Pairing σ ρ} {x : m α} {y : m β} {f : α → m γ} {g : β → m δ} {R : α → β → Prop}
    {S : γ → δ → Prop} : Tracks C x y R → (∀ a b, R a b → Tracks C (f a) (g b) S) → Tracks C (x >>= f) (y >>= g) S
  tryCatch {α β : Type} {C : Pairing σ ρ} {x : m α} {y : m β} {f : Failure → m α} {g : Failure → m β}
    {R : α → β → Prop} : Tracks C x y R → (∀ e, Tracks C (f e) (g e) R) →
    Tracks C (MonadExcept.tryCatch x f) (MonadExcept.tryCatch y g) R
  perform {α β : Type} {C : Pairing σ ρ} {x : Act σ α} {y : Act σ β} {R : α → β → Prop} :
    x.Tracks C y R → Tracks C (Performs.perform x : m α) (Performs.perform y : m β) R

instance : Lockstep σ ρ (Act σ) where
  Tracks C x y R := x.Tracks C y R
  mono h himp := fun s t hst => ⟨(h s t hst).1, (h s t hst).2.mono himp⟩
  pure hab := fun _ _ hst => ⟨hst, .ok hab⟩
  throw e := fun _ _ hst => ⟨hst, .error e⟩
  bind h hfg := h.bind hfg
  tryCatch h hfg := h.tryCatch hfg
  perform h := h

instance : Lockstep σ ρ (Coop σ ρ) where
  Tracks C x y R := x.Tracks C y R
  mono h himp := h.mono himp
  pure hab := .done (.ok hab)
  throw e := .done (.error e)
  bind h hfg := h.bind hfg
  tryCatch h hfg := h.tryCatch hfg
  perform h := .ofAct h

/-! ## 4. What is under way -/

/-- What two computations come to when they next stop corresponds. -/
inductive Coop.Pause.Tracks (C : Pairing σ ρ) (R : α → β → Prop) : Coop.Pause σ ρ α → Coop.Pause σ ρ β → Prop
  | done {r : Except Failure α} {s : Except Failure β} : EndsAlike R r s → Tracks C R (.done r) (.done s)
  | turn {k : Coop σ ρ α} {l : Coop σ ρ β} : k.Tracks C l R → Tracks C R (.turn k) (.turn l)
  | gather {ps qs : List (Coop σ ρ ρ)} {k : Except Failure (List ρ) → Coop σ ρ α}
    {l : Except Failure (List ρ) → Coop σ ρ β} : ps.length = qs.length →
    (∀ (i : Nat) (p q : Coop σ ρ ρ), ps[i]? = some p → qs[i]? = some q → p.Tracks C q C.part) →
    (∀ r s, EndsAlike (List.Forall₂ C.part) r s → (k r).Tracks C (l s) R) → Tracks C R (.gather ps k) (.gather qs l)

theorem Coop.Tracks.advance {x : Coop σ ρ α} {y : Coop σ ρ β} (h : x.Tracks C y R) {s t : σ} (hst : C.state s t) :
    C.state (x.advance s).2 (y.advance t).2 ∧ (x.advance s).1.Tracks C R (y.advance t).1 := by
  induction h generalizing s t with
  | done hend => exact ⟨hst, .done hend⟩
  | act hstate _ ih => exact ih s t hst (hstate s t hst)
  | turn hkl _ => exact ⟨hst, .turn hkl⟩
  | @gather α β R ps qs k l hlength hparts hrest _ ih =>
    cases ps with
    | nil =>
      obtain rfl : qs = [] := List.length_eq_zero_iff.1 hlength.symm
      exact ih _ _ (.ok .nil) hst
    | cons p ps =>
      cases qs with
      | nil => cases hlength
      | cons q qs => exact ⟨hst, .gather hlength hparts hrest⟩

/-- The same thing is ready. -/
inductive Ready.Tracks (C : Pairing σ ρ) : Ready σ ρ → Ready σ ρ → Prop
  | resume (owner : Owner) {x y : Coop σ ρ ρ} : x.Tracks C y (C.result owner) →
    Tracks C (.resume owner x) (.resume owner y)
  | report (group place : Nat) {r s : Except Failure ρ} : EndsAlike C.part r s →
    Tracks C (.report group place r) (.report group place s)

/-- The same group waits. -/
structure Group.Tracks (C : Pairing σ ρ) (a b : Group σ ρ) : Prop where
  owner : a.owner = b.owner
  results : List.Forall₂ (Option.Rel C.part) a.results.toList b.results.toList
  settled : a.settled = b.settled
  resume : ∀ r s, EndsAlike (List.Forall₂ C.part) r s → (a.resume r).Tracks C (b.resume s) (C.result a.owner)

/-- The same is under way. -/
structure Pool.Tracks (C : Pairing σ ρ) (p q : Pool σ ρ) : Prop where
  state : C.state p.state q.state
  size : p.groups.size = q.groups.size
  groups : ∀ g : Nat, Option.Rel (Group.Tracks C) p.groups[g]? q.groups[g]?
  queue : List.Forall₂ (Ready.Tracks C) p.queue q.queue
  result : Option.Rel (EndsAlike C.root) p.result q.result

namespace Pool

variable {p q : Pool σ ρ}

theorem Tracks.enqueue {rs ss : List (Ready σ ρ)} (h : p.Tracks C q) (hrs : List.Forall₂ (Ready.Tracks C) rs ss) :
    (p.enqueue rs).Tracks C (q.enqueue ss) :=
  { h with queue := List.rel_append h.queue hrs }

/-- The members of two groups are related, place by place, if what goes on at each place is. -/
theorem forall₂_members {τ υ : Type} {R : Ready σ ρ → Ready τ υ → Prop} {xs : List (Coop σ ρ ρ)}
    {ys : List (Coop τ υ υ)} (g place : Nat) (hlength : xs.length = ys.length)
    (hparts : ∀ (i : Nat) (x : Coop σ ρ ρ) (y : Coop τ υ υ), xs[i]? = some x → ys[i]? = some y →
      ∀ n, R (.resume (.member g n) x) (.resume (.member g n) y)) :
    List.Forall₂ R (members g place xs) (members g place ys) := by
  induction xs generalizing ys place with
  | nil =>
    obtain rfl : ys = [] := List.length_eq_zero_iff.1 hlength.symm
    exact .nil
  | cons x xs ih =>
    cases ys with
    | nil => cases hlength
    | cons y ys =>
      exact .cons (hparts 0 x y rfl rfl place) (ih (place + 1) (Nat.succ.inj hlength) fun i => hparts (i + 1))

/-- A new group begins to wait. -/
theorem Tracks.push {a b : Group σ ρ} (h : p.Tracks C q) (hab : a.Tracks C b) :
    Tracks C { p with groups := p.groups.push a } { q with groups := q.groups.push b } where
  state := h.state
  size := by rw [Array.size_push, Array.size_push, h.size]
  groups g := by
    rw [Array.getElem?_push, Array.getElem?_push, h.size]
    split
    · exact .some hab
    · exact h.groups g
  queue := h.queue
  result := h.result

/-- A group changes. -/
theorem Tracks.setGroup {a b : Group σ ρ} (h : p.Tracks C q) (hab : a.Tracks C b) (g : Nat) :
    Tracks C { p with groups := p.groups.setIfInBounds g a } { q with groups := q.groups.setIfInBounds g b } where
  state := h.state
  size := by rw [Array.size_setIfInBounds, Array.size_setIfInBounds, h.size]
  groups g' := by
    rw [Array.getElem?_setIfInBounds, Array.getElem?_setIfInBounds, h.size]
    split
    · split
      · exact .some hab
      · exact .none
    · exact h.groups g'
  queue := h.queue
  result := h.result

theorem Tracks.settle {a b : Group σ ρ} (h : p.Tracks C q) (hab : a.Tracks C b) (g : Nat)
    {r s : Except Failure (List ρ)} (hrs : EndsAlike (List.Forall₂ C.part) r s) :
    (p.settle g a r).Tracks C (q.settle g b s) := by
  have hsettled : Group.Tracks C { a with settled := true } { b with settled := true } :=
    ⟨hab.owner, hab.results, rfl, hab.resume⟩
  have hitem : Ready.Tracks C (.resume a.owner (a.resume r)) (.resume b.owner (b.resume s)) := by
    rw [← hab.owner]
    exact .resume _ (hab.resume r s hrs)
  exact (h.setGroup hsettled g).enqueue (.cons hitem .nil)

theorem forall₂_set {A B : Type} {T : A → B → Prop} {xs : List A} {ys : List B} (h : List.Forall₂ T xs ys) {a : A}
    {b : B} (hab : T a b) (i : Nat) : List.Forall₂ T (xs.set i a) (ys.set i b) := by
  induction h generalizing i with
  | nil => exact .nil
  | cons hxy hrest ih =>
    cases i with
    | zero => exact .cons hab hrest
    | succ i => exact .cons hxy (ih i)

/-- All parts of a group have ended on both sides, or on neither. -/
theorem rel_complete {xs ys : List (Option ρ)} (h : List.Forall₂ (Option.Rel C.part) xs ys) :
    Option.Rel (List.Forall₂ C.part) (xs.mapM id) (ys.mapM id) := by
  induction h with
  | nil => exact .some .nil
  | @cons x y xs ys hxy _ ih =>
    rw [List.mapM_cons, List.mapM_cons]
    cases hxy with
    | none => exact .none
    | some hab =>
      generalize xs.mapM id = rest at ih ⊢
      generalize ys.mapM id = rest' at ih ⊢
      cases ih with
      | none => exact .none
      | some hrest => exact .some (.cons hab hrest)

theorem Tracks.report (h : p.Tracks C q) (g place : Nat) {r s : Except Failure ρ} (hrs : EndsAlike C.part r s) :
    (p.report g place r).Tracks C (q.report g place s) := by
  have hgroup := h.groups g
  rw [Pool.report, Pool.report]
  generalize p.groups[g]? = a at hgroup
  generalize q.groups[g]? = b at hgroup
  cases hgroup with
  | none => exact h
  | @some a b hab =>
    obtain ⟨owner, results, settled, resume⟩ := a
    obtain ⟨owner', results', settled', resume'⟩ := b
    obtain ⟨rfl, hresults, rfl, hresume⟩ := hab
    have hsame : ∀ {results results' : Array (Option ρ)},
        List.Forall₂ (Option.Rel C.part) results.toList results'.toList →
        Group.Tracks C ⟨owner, results, settled, resume⟩ ⟨owner, results', settled, resume'⟩ :=
      fun hresults => ⟨rfl, hresults, rfl, hresume⟩
    dsimp only at hresults ⊢
    split
    · exact h
    · cases hrs with
      | error e => exact h.settle (hsame hresults) g (.error e)
      | @ok v v' hv =>
        have hlater : List.Forall₂ (Option.Rel C.part) (results.setIfInBounds place (some v)).toList
            (results'.setIfInBounds place (some v')).toList := by
          rw [Array.toList_setIfInBounds, Array.toList_setIfInBounds]
          exact forall₂_set hresults (.some hv) place
        have hcomplete := rel_complete hlater
        dsimp only
        rw [complete?, complete?]
        generalize List.mapM id (results.setIfInBounds place (some v)).toList = done at hcomplete ⊢
        generalize List.mapM id (results'.setIfInBounds place (some v')).toList = done' at hcomplete ⊢
        cases hcomplete with
        | none => exact h.setGroup (hsame hlater) g
        | some hall => exact h.settle (hsame hlater) g (.ok hall)

theorem Tracks.resume {x y : Coop σ ρ ρ} (h : p.Tracks C q) (owner : Owner)
    (hxy : x.Tracks C y (C.result owner)) : (p.resume owner x).Tracks C (q.resume owner y) := by
  obtain ⟨hstate, hpause⟩ := hxy.advance h.state
  rw [Pool.resume, Pool.resume]
  generalize x.advance p.state = stop at hstate hpause ⊢
  generalize y.advance q.state = stop' at hstate hpause ⊢
  obtain ⟨pause, s⟩ := stop
  obtain ⟨pause', t⟩ := stop'
  dsimp only at hstate hpause
  have hlater : Pool.Tracks C { p with state := s } { q with state := t } := { h with state := hstate }
  cases hpause with
  | done hend =>
    cases owner with
    | root => exact { hlater with result := .some hend }
    | member g i => exact hlater.enqueue (.cons (.report g i hend) .nil)
  | turn hkl => exact hlater.enqueue (.cons (.resume owner hkl) .nil)
  | @gather ps qs k l hlength hparts hrest =>
    have hnone : List.Forall₂ (Option.Rel C.part) (Array.replicate ps.length none).toList
        (Array.replicate qs.length none).toList := by
      rw [Array.toList_replicate, Array.toList_replicate, hlength]
      exact List.forall₂_same.2 fun a ha => (List.eq_of_mem_replicate ha) ▸ .none
    have hgroup : Group.Tracks C ⟨owner, Array.replicate ps.length none, false, k⟩
        ⟨owner, Array.replicate qs.length none, false, l⟩ := ⟨rfl, hnone, rfl, hrest⟩
    have hmembers : List.Forall₂ (Ready.Tracks C) (members p.groups.size 0 ps) (members p.groups.size 0 qs) :=
      forall₂_members _ _ hlength fun i x y hx hy n => .resume _ (hparts i x y hx hy)
    dsimp only
    rw [← h.size]
    exact (hlater.push hgroup).enqueue hmembers

theorem Tracks.fire {item item' : Ready σ ρ} (h : p.Tracks C q) (hitem : item.Tracks C item') :
    (p.fire item).Tracks C (q.fire item') := by
  cases hitem with
  | resume owner hxy => exact h.resume owner hxy
  | report g place hrs => exact h.report g place hrs

theorem Tracks.foldl {items items' : List (Ready σ ρ)} (hitems : List.Forall₂ (Ready.Tracks C) items items')
    (h : p.Tracks C q) : (items.foldl Pool.fire p).Tracks C (items'.foldl Pool.fire q) := by
  induction hitems generalizing p q with
  | nil => exact h
  | cons hitem _ ih => exact ih (h.fire hitem)

theorem Tracks.round (h : p.Tracks C q) : p.round.Tracks C q.round :=
  Tracks.foldl h.queue { h with queue := .nil }

theorem Tracks.rounds (h : p.Tracks C q) (n : Nat) : (rounds n p).Tracks C (rounds n q) := by
  induction n generalizing p q with
  | zero => exact h
  | succ n ih =>
    have hround := h.round
    have hended : ∀ {r s : Option (Except Failure ρ)}, Option.Rel (EndsAlike C.root) r s → r.isSome = s.isSome :=
      fun h => by cases h <;> rfl
    rw [Pool.rounds, Pool.rounds, hended hround.result]
    split
    · exact hround.round
    · exact ih hround

end Pool

/-- Computations that go in lockstep do so when they are driven to their ends. -/
theorem Coop.Tracks.run {x y : Coop σ ρ ρ} (h : x.Tracks C y C.root) (limit : Nat) :
    (x.run limit).Tracks C (y.run limit) C.root := by
  intro s t hst
  have hstart : (Pool.start x s).Tracks C (Pool.start y t) :=
    ⟨hst, rfl, fun _ => .none, .cons (.resume .root h) .nil, .none⟩
  have hrounds := hstart.rounds limit
  refine ⟨hrounds.state, ?_⟩
  have hresult := hrounds.result
  rw [Coop.run, Coop.run]
  dsimp only
  generalize ((Pool.start x s).rounds limit).result = r at hresult
  generalize ((Pool.start y t).rounds limit).result = r' at hresult
  cases hresult with
  | none => exact .error _
  | some hend => exact hend

end NodeFlow
