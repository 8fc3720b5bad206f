import NodeFlow.Run.Graph
/-!
# Bounds on runs

A run is bounded by a number of visits, and a run that meets its bound fails in a way of its own. More
visits never change a run that did not meet its bound, so what a visit comes to can be said without any
bound: it is what it comes to under some bound, and then under all larger ones.

What makes this true is that nobody holds up that failure. The handler around a visit tells of it and fails
with it again.
-/

set_option autoImplicit false

namespace NodeFlow

variable {σ α β : Type}

/-! ## 1. Actions one after another -/

theorem Act.bind_ok {x : Act σ α} {a : α} {s s' : σ} (h : x s = (.ok a, s')) (f : α → Act σ β) :
    (x >>= f) s = f a s' := by
  change Act.bind x f s = _
  rw [Act.bind, h]

theorem Act.bind_error {x : Act σ α} {e : Failure} {s s' : σ} (h : x s = (.error e, s')) (f : α → Act σ β) :
    (x >>= f) s = (.error e, s') := by
  change Act.bind x f s = _
  rw [Act.bind, h]

theorem Act.tryCatch_ok {x : Act σ α} {a : α} {s s' : σ} (h : x s = (.ok a, s'))
    (handler : Failure → Act σ α) : tryCatch x handler s = (.ok a, s') := by
  rw [Act.tryCatch, h]

theorem Act.tryCatch_error {x : Act σ α} {e : Failure} {s s' : σ} (h : x s = (.error e, s'))
    (handler : Failure → Act σ α) : tryCatch x handler s = handler e s' := by
  rw [Act.tryCatch, h]

/-! ## 2. Actions that are cut short -/

/-- An action does what another one does, unless it is cut short. -/
def Act.Cuts (x y : Act σ α) : Prop := ∀ s, (x s).1 = .error .exhausted ∨ y s = x s

namespace Act

theorem Cuts.refl (x : Act σ α) : x.Cuts x := fun _ => Or.inr rfl

theorem Cuts.trans {x y z : Act σ α} (h : x.Cuts y) (h' : y.Cuts z) : x.Cuts z := by
  intro s
  rcases h s with hx | hx
  · exact Or.inl hx
  · rw [← hx]
    exact h' s

theorem cuts_exhausted (y : Act σ α) : (fail .exhausted).Cuts y := fun _ => Or.inl rfl

theorem Cuts.bind {x y : Act σ α} {f g : α → Act σ β} (hx : x.Cuts y) (hf : ∀ a, (f a).Cuts (g a)) :
    (x >>= f).Cuts (y >>= g) := by
  intro s
  rcases hs : x s with ⟨r, s'⟩
  rcases hx s with hcut | hsame
  · rw [hs] at hcut
    obtain rfl : r = .error .exhausted := hcut
    left
    rw [bind_error hs]
  · rw [hs] at hsame
    cases r with
    | ok a =>
      rw [bind_ok hs, bind_ok hsame]
      exact hf a s'
    | error e =>
      right
      rw [bind_error hs, bind_error hsame]

/-- A handler that fails again with what it is given does not hold up that an action is cut short. -/
theorem Cuts.rethrow {x y : Act σ α} (hx : x.Cuts y) (h : Failure → Act σ Unit)
    (hh : ∀ e s, (h e s).1 = .ok ()) :
    Cuts (tryCatch x fun e => do h e; throw e) (tryCatch y fun e => do h e; throw e) := by
  intro s
  rcases hs : x s with ⟨r, s'⟩
  rcases hx s with hcut | hsame
  · rw [hs] at hcut
    obtain rfl : r = .error .exhausted := hcut
    left
    have hok := hh .exhausted s'
    rcases hs' : h .exhausted s' with ⟨o, s''⟩
    rw [hs'] at hok
    obtain rfl : o = .ok () := hok
    rw [tryCatch_error hs, bind_ok hs']
    rfl
  · right
    rw [tryCatch, tryCatch, hsame]

end Act

/-! ## 3. Walks and visits -/

section

variable {g : Graph} {f : Flow (Act World)} {shared : Shared}

theorem cuts_eachFrom (next : Nat → Act World (Option α)) {work work' : α → Act World β}
    (hwork : ∀ a, (work a).Cuts (work' a)) (fuel i : Nat) :
    (eachFrom next work fuel i).Cuts (eachFrom next work' (fuel + 1) i) := by
  induction fuel generalizing i with
  | zero => exact Act.cuts_exhausted _
  | succ fuel ih =>
    rw [eachFrom, eachFrom]
    refine (Act.Cuts.refl _).bind fun o => ?_
    cases o with
    | none => exact .refl _
    | some a => exact (hwork a).bind fun b => (ih (i + 1)).bind fun bs => .refl _

/-- With one more visit a walk goes on as before: induction on the visits that are left. -/
theorem Flow.cuts_walk {visit visit' : Nat → Act World Datum} (hvisit : ∀ i, (visit i).Cuts (visit' i))
    (fuel step i : Nat) :
    (f.walk g shared visit fuel step i).Cuts (f.walk g shared visit' (fuel + 1) step i) := by
  induction fuel generalizing step i with
  | zero => exact Act.cuts_exhausted _
  | succ fuel ih =>
    rw [walk, walk]
    cases g[i]? with
    | none => exact .refl _
    | some node =>
      dsimp only
      refine (Act.Cuts.refl _).bind fun _ => (Act.Cuts.refl _).bind fun _ => ?_
      refine ((hvisit i).rethrow (fun e => f.tell (.nodeError node.name e)) fun _ _ => rfl).bind ?_
      intro label
      refine (Act.Cuts.refl _).bind fun shown => (Act.Cuts.refl _).bind fun context => ?_
      refine (Act.Cuts.refl _).bind fun _ => (Act.Cuts.refl _).bind fun next => ?_
      cases next with
      | none => exact .refl _
      | some j => exact ih (step + 1) j

theorem Flow.cuts_traverse {visit visit' : Scene → Nat → Act World Datum}
    (hvisit : ∀ scene i, (visit scene i).Cuts (visit' scene i)) (fuel : Nat) (params : Members Datum) :
    (f.traverse g shared visit fuel params).Cuts (f.traverse g shared visit' (fuel + 1) params) := by
  rw [traverse, traverse]
  cases f.start with
  | none => exact .refl _
  | some first => exact (Act.Cuts.refl _).bind fun cell => cuts_walk (hvisit _) fuel 0 first

/-- With one more visit a node is visited as before. -/
theorem Graph.cuts_visit_succ (g : Graph) (fuel : Nat) (scene : Scene) (i : Nat) :
    (g.visit fuel scene i).Cuts (g.visit (fuel + 1) scene i) := by
  induction fuel generalizing scene i with
  | zero => exact Act.cuts_exhausted _
  | succ fuel ih =>
    rw [visit, visit]
    cases (g[i]?).map Node.conduct with
    | none => exact .refl _
    | some conduct =>
      cases conduct with
      | blocking run => exact .refl _
      | cooperative run => exact .refl _
      | cooperativeFlow fan f => exact .refl _
      | flow each f =>
        cases each with
        | false =>
          refine (Act.Cuts.refl _).bind fun _ => Act.Cuts.bind ?_ fun _ => .refl _
          exact (Act.Cuts.refl _).bind fun params => Flow.cuts_traverse ih fuel params
        | true =>
          refine (Act.Cuts.refl _).bind fun batch => Act.Cuts.bind ?_ fun _ => .refl _
          refine (Act.Cuts.refl _).bind fun elements => Act.Cuts.bind ?_ fun _ => .refl _
          refine cuts_eachFrom _ (fun d => ?_) fuel 0
          exact (Act.Cuts.refl _).bind fun params => Flow.cuts_traverse ih fuel params

/-- And so with any number more. -/
theorem Graph.cuts_visit (g : Graph) {fuel fuel' : Nat} (h : fuel ≤ fuel') (scene : Scene) (i : Nat) :
    (g.visit fuel scene i).Cuts (g.visit fuel' scene i) := by
  induction h with
  | refl => exact .refl _
  | step _ ih => exact ih.trans (g.cuts_visit_succ _ scene i)

end

/-! ## 4. Visits without a bound -/

namespace Graph

variable {g : Graph} {scene : Scene} {i : Nat} {w w' w'' : World} {r r' : Except Failure Datum}

/-- A visit comes to a result and a world: it does so under some bound, and has not met it. -/
def Visits (g : Graph) (scene : Scene) (i : Nat) (w : World) (r : Except Failure Datum) (w' : World) :
    Prop :=
  r ≠ .error .exhausted ∧ ∃ bound, g.visit bound scene i w = (r, w')

/-- Then it does so under all bounds from there on. -/
theorem Visits.exists_forall (h : g.Visits scene i w r w') :
    ∃ bound, ∀ fuel, bound ≤ fuel → g.visit fuel scene i w = (r, w') := by
  obtain ⟨hr, bound, hbound⟩ := h
  refine ⟨bound, fun fuel hfuel => ?_⟩
  rcases g.cuts_visit hfuel scene i w with hcut | hsame
  · rw [hbound] at hcut
    exact absurd hcut hr
  · rw [hsame, hbound]

/-- A visit comes to one thing only. -/
theorem Visits.unique (h : g.Visits scene i w r w') (h' : g.Visits scene i w r' w'') :
    r = r' ∧ w' = w'' := by
  obtain ⟨bound, hbound⟩ := h.exists_forall
  obtain ⟨bound', hbound'⟩ := h'.exists_forall
  have hsame := (hbound _ (Nat.le_max_left bound bound')).symm.trans
    (hbound' _ (Nat.le_max_right bound bound'))
  exact Prod.mk.inj hsame

end Graph

end NodeFlow
