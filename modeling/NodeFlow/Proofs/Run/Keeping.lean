import NodeFlow.Proofs.Run.Mirror
import NodeFlow.Run.Context
/-!
# To keep the variable of a context

A computation in a context does what another does without one, and leaves the variable as it has found it, with a
result as with a failure. This goes along with all ways in which computations are put together, at once or giving up
control.

The awkward thing up front: what works at once inside of what gives up control is a single step there, and the step
answers with more than it would without the variable. So the two computations are not equal as trees; they do the
same.
-/

set_option autoImplicit false

universe u

namespace NodeFlow

variable {α β : Type}

/-! ## 1. To keep the variable -/

/-- Where it can be said that something in a context does what is done without one, and leaves the variable as it
has found it, however it ends. -/
class Keeping (m : Type → Type u) [Stepwise m] where
  Keeps {α : Type} : Current → m (Except Failure α × Current) → m α → Prop
  pure_bind {α β : Type} (a : α) (F : α → m β) : (Pure.pure a >>= F) = F a
  pure {α : Type} {slot : Current} {a : α} : Keeps slot (Pure.pure (.ok a, slot)) (Pure.pure a)
  throw {α : Type} {slot : Current} {e : Failure} : Keeps (α := α) slot (Pure.pure (.error e, slot)) (MonadExcept.throw e)
  bind {α β : Type} {slot : Current} {x : m (Except Failure α × Current)} {y : m α}
    {F : Except Failure α × Current → m (Except Failure β × Current)} {G : α → m β} :
    Keeps slot x y → (∀ a, Keeps slot (F (.ok a, slot)) (G a)) →
    (∀ e, Keeps slot (F (.error e, slot)) (MonadExcept.throw e)) → Keeps slot (x >>= F) (y >>= G)
  tryCatch {α : Type} {slot : Current} {x : m (Except Failure α × Current)} {y : m α}
    {F : Except Failure α × Current → m (Except Failure α × Current)} {G : Failure → m α} :
    Keeps slot x y → (∀ a, Keeps slot (F (.ok a, slot)) (Pure.pure a)) →
    (∀ e, Keeps slot (F (.error e, slot)) (G e)) → Keeps slot (x >>= F) (MonadExcept.tryCatch y G)
  /-- something that keeps another variable, which is put back after it -/
  restored {α : Type} {inner outer : Current} {x : m (Except Failure α × Current)} {y : m α}
    {F : Except Failure α × Current → m (Except Failure α × Current)} :
    Keeps inner x y → (∀ r, F (r, inner) = Pure.pure (r, outer)) → Keeps outer (x >>= F) y
  perform {α : Type} {slot : Current} {x : Act World α} :
    Keeps slot (Performs.perform (σ := World) fun w => (.ok ((x w).1, slot), (x w).2)) (Performs.perform x)
  done {α : Type} {slot : Current} {r : Except Failure α} : Keeps slot (Stepwise.done (.ok (r, slot))) (Stepwise.done r)
  act {α β : Type} {slot : Current} {x : World → β × World} {k : β → m (Except Failure α × Current)} {l : β → m α} :
    (∀ b, Keeps slot (k b) (l b)) → Keeps slot (Stepwise.act x k) (Stepwise.act x l)
  turn {α : Type} {slot : Current} {k : m (Except Failure α × Current)} {l : m α} :
    Keeps slot k l → Keeps slot (Stepwise.turn k) (Stepwise.turn l)
  gather {α : Type} {slot : Current} {ps : List (Scoped m Datum)} {qs : List (m Datum)}
    {k : Except Failure (List Datum) → m (Except Failure α × Current)} {l : Except Failure (List Datum) → m α} :
    List.Forall₂ (fun p q => Keeps slot (p slot) q) ps qs → (∀ r, Keeps slot (k r) (l r)) →
    Keeps slot (Stepwise.gather (ps.map fun p => p.copied slot) k) (Stepwise.gather qs l)

/-! ## 2. At once -/

namespace Act

/-- An action in a context does what another does without one. -/
def Keeps (slot : Current) (x : Act World (Except Failure α × Current)) (y : Act World α) : Prop :=
  ∀ w, x w = (.ok ((y w).1, slot), (y w).2)

variable {slot : Current} {x : Act World (Except Failure α × Current)} {y : Act World α}

theorem Keeps.bind {F : Except Failure α × Current → Act World (Except Failure β × Current)} {G : α → Act World β}
    (h : Keeps slot x y) (hok : ∀ a, Keeps slot (F (.ok a, slot)) (G a))
    (herror : ∀ e, Keeps slot (F (.error e, slot)) (Act.fail e)) : Keeps slot (x.bind F) (y.bind G) := by
  intro w
  rw [Act.bind, Act.bind, h w]
  rcases y w with ⟨r, u⟩
  cases r with
  | ok a => exact hok a u
  | error e => exact herror e u

theorem Keeps.tryCatch {F : Except Failure α × Current → Act World (Except Failure α × Current)}
    {G : Failure → Act World α} (h : Keeps slot x y) (hok : ∀ a, Keeps slot (F (.ok a, slot)) (Act.pure a))
    (herror : ∀ e, Keeps slot (F (.error e, slot)) (G e)) : Keeps slot (x.bind F) (y.tryCatch G) := by
  intro w
  rw [Act.bind, Act.tryCatch, h w]
  rcases y w with ⟨r, u⟩
  cases r with
  | ok a => exact hok a u
  | error e => exact herror e u

theorem Keeps.restored {inner outer : Current} {F : Except Failure α × Current → Act World (Except Failure α × Current)}
    (h : Keeps inner x y) (hF : ∀ r, F (r, inner) = Act.pure (r, outer)) : Keeps outer (x.bind F) y := by
  intro w
  rw [Act.bind, h w]
  dsimp only
  rw [hF]
  rfl

/-- What is left of an action in a copy of a context is the action without. -/
theorem Keeps.copied {p : Scoped (Act World) α} (h : Keeps slot (p slot) y) : p.copied slot = y := by
  funext w
  change Act.bind (p slot) _ w = y w
  rw [Act.bind, h w]
  dsimp only
  rcases y w with ⟨r, u⟩
  cases r <;> rfl

end Act

instance : Keeping (Act World) where
  Keeps := Act.Keeps
  pure_bind _ _ := rfl
  pure _ := rfl
  throw _ := rfl
  bind h hok herror := h.bind hok herror
  tryCatch h hok herror := h.tryCatch hok herror
  restored h hF := h.restored hF
  perform _ := rfl
  done _ := rfl
  act h := fun w => h _ _
  turn h := h
  gather {α slot ps qs k l} hparts hrest := by
    have hcopies : (ps.map fun p => p.copied slot) = qs := by
      induction hparts with
      | nil => rfl
      | cons hp _ ih => rw [List.map_cons, ih, Act.Keeps.copied hp]
    intro w
    rw [hcopies]
    exact hrest _ _

/-! ## 3. Giving up control -/

namespace Coop

/-- A computation in a context does what another does without one. -/
def Keeps (slot : Current) (x : Coop World Datum (Except Failure α × Current)) (y : Coop World Datum α) : Prop :=
  x.Mirrors (fun r s => r = .ok (s, slot)) y

variable {slot : Current} {x : Coop World Datum (Except Failure α × Current)} {y : Coop World Datum α}

theorem Keeps.bind {F : Except Failure α × Current → Coop World Datum (Except Failure β × Current)}
    {G : α → Coop World Datum β} (h : Keeps slot x y) (hok : ∀ a, Keeps slot (F (.ok a, slot)) (G a))
    (herror : ∀ e, Keeps slot (F (.error e, slot)) (.done (.error e))) : Keeps slot (x.bind F) (y.bind G) := by
  unfold Keeps
  rw [bind_eq_andThen, bind_eq_andThen]
  refine Mirrors.andThen h ?_
  rintro r s rfl
  cases s with
  | ok a => exact hok a
  | error e => exact herror e

theorem Keeps.tryCatch {F : Except Failure α × Current → Coop World Datum (Except Failure α × Current)}
    {G : Failure → Coop World Datum α} (h : Keeps slot x y) (hok : ∀ a, Keeps slot (F (.ok a, slot)) (.done (.ok a)))
    (herror : ∀ e, Keeps slot (F (.error e, slot)) (G e)) : Keeps slot (x.bind F) (y.tryCatch G) := by
  unfold Keeps
  rw [bind_eq_andThen, tryCatch_eq_andThen]
  refine Mirrors.andThen h ?_
  rintro r s rfl
  cases s with
  | ok a => exact hok a
  | error e => exact herror e

theorem Keeps.restored {inner outer : Current}
    {F : Except Failure α × Current → Coop World Datum (Except Failure α × Current)}
    (h : Keeps inner x y) (hF : ∀ r, F (r, inner) = .done (.ok (r, outer))) : Keeps outer (x.bind F) y := by
  unfold Keeps
  rw [bind_eq_andThen]
  refine Mirrors.andThen_done h ?_
  rintro r s rfl
  dsimp only
  rw [hF]
  exact .done rfl

/-- What is left of a computation in a copy of a context does what is done without. -/
theorem Keeps.copied {p : Scoped (Coop World Datum) α} (h : Keeps slot (p slot) y) :
    (p.copied slot).Mirrors Eq y := by
  change ((p slot).bind _).Mirrors Eq y
  rw [bind_eq_andThen]
  refine Mirrors.andThen_done h ?_
  rintro r s rfl
  cases s <;> exact .done rfl

/-- What works at once is a single step of what need not. -/
theorem Keeps.ofAct {x : Act World (Except Failure α × Current)} {y : Act World α} (h : Act.Keeps slot x y) :
    Keeps slot (Coop.ofAct x) (Coop.ofAct y) := by
  refine .act (fun w => ?_) fun w => ?_
  · rw [h w]
  · rw [h w]
    exact .done rfl

end Coop

instance : Keeping (Coop World Datum) where
  Keeps := Coop.Keeps
  pure_bind _ _ := rfl
  pure := .done rfl
  throw := .done rfl
  bind h hok herror := h.bind hok herror
  tryCatch h hok herror := h.tryCatch hok herror
  restored h hF := h.restored hF
  perform := .ofAct fun _ => rfl
  done := .done rfl
  act h := .act (fun _ => rfl) fun _ => h _
  turn h := .turn h
  gather {α slot ps qs k l} hparts hrest := by
    refine .gather ?_ (fun i p q hp hq => ?_) hrest
    · rw [List.length_map, hparts.length_eq]
    · rw [List.getElem?_map, Option.map_eq_some_iff] at hp
      obtain ⟨p', hp', rfl⟩ := hp
      obtain ⟨hi, rfl⟩ := List.getElem?_eq_some_iff.1 hp'
      obtain ⟨hi', rfl⟩ := List.getElem?_eq_some_iff.1 hq
      exact Coop.Keeps.copied (hparts.get hi hi')

end NodeFlow
