import NodeFlow.Proofs.Run.Journey
import NodeFlow.Proofs.Run.Listening
import NodeFlow.Proofs.Run.Stages
/-!
# Walks

What is narrated of a walk is a journey on which visits leave the mark alone, since nothing is told within
them: it is before a node, within a visit, after a visit with its label. If every step that the walk can take
leads from one moment to the next as the narration has it, the whole walk does, however long it is and
whatever its nodes do.

The same lemma serves walks among others, which know nothing of the mark, and the walk of the root.
-/

set_option autoImplicit false

universe u

namespace NodeFlow

/-- What may be known of the mark at the moments of a walk: before a node, within a visit of it, after
the visit with its label and the value that the label shows, and when the walk has ended. -/
structure Narration (τ : Type) where
  before : Nat → Option τ → Prop
  within : Nat → Option τ → Prop
  after : Nat → Datum → Value → Option τ → Prop
  ends : Except Failure Datum → Option τ → Prop

namespace Terms

variable {m : Type → Type u} [Performs World m] [Reasoned World Datum m] {τ : Type} {T : Terms τ}
  {α β : Type} {P : α → Prop}

/-- Telling the listeners of a plan leads from what is known to something known. -/
def Tells (T : Terms τ) (plan : FlowPlan) (known : Option τ) (call : HookCall)
    (K : Option τ → Prop) : Prop :=
  T.regime.Tells plan known call K

/-- The steps of a walk under a plan lead from each moment of a narration to the next. Before a node a
walk may halt, at its limit if it has one, and after a visit it is lost if the label cannot be looked up. -/
structure Narrates (T : Terms τ) (g : Graph) (plan : FlowPlan) (n : Nat)
    (label : Nat → Datum → Prop) (N : Narration τ) : Prop where
  enters : ∀ i < n, ∀ node, g[i]? = some node → ∀ k, N.before i k →
    T.Tells plan k (.nodeStart node.name) (N.within i)
  fails : ∀ i < n, ∀ node, g[i]? = some node → ∀ k e, N.within i k → T.fails e →
    T.Tells plan k (.nodeError node.name e) (N.ends (.error e))
  leaves : ∀ i < n, ∀ node, g[i]? = some node → ∀ k d (h : Heap) context, N.within i k → label i d →
    T.Tells plan k (.nodeEnd node.name (h.view d) context) (N.after i d (h.view d))
  follows : ∀ i < n, ∀ node, g[i]? = some node → ∀ k d shown j, N.after i d shown k →
    node.next? shown = .ok (some j) → j < n ∧ N.before j k
  stops : ∀ i < n, ∀ node, g[i]? = some node → ∀ k d shown steps, N.after i d shown k →
    node.next? shown = .ok none → T.Tells plan k (.flowEnd steps) (N.ends (.ok d))
  lost : ∀ i < n, ∀ node, g[i]? = some node → ∀ k d shown f, N.after i d shown k →
    node.next? shown = .error f → N.ends (.error (.fault f)) k
  halts : ∀ i k e, N.before i k → T.fails e → (plan.limit = .null → e = .exhausted) →
    N.ends (.error e) k

/-! ## 1. Telling -/

/-- The listeners of a plan that are told of a call. -/
def audience (plan : FlowPlan) (call : HookCall) : List (Hook × Listener) :=
  plan.listeners.filter fun l => l.1 = call.hook

theorem heard_told (call : HookCall) (ls : List (Hook × Listener))
    (journal : List Event) :
    heard ((ls.map fun l => Event.told l.2.tag call).reverse ++ journal) =
      List.replicate ls.length call ++ heard journal := by
  rw [← List.map_reverse, ← List.length_reverse]
  induction ls.reverse with
  | nil => rfl
  | cons l ls ih => exact congrArg (call :: ·) ih

/-- Telling is what the terms allow if they allow that every listener has been told. -/
theorem tells {plan : FlowPlan} {known : Option τ} {call : HookCall} {K : Option τ → Prop}
    (h : ∀ hs, T.told hs → (∀ t, known = some t → T.mark hs = t) →
      T.told (List.replicate (audience plan call).length call ++ hs) ∧
      (known = none →
        T.mark (List.replicate (audience plan call).length call ++ hs) = T.mark hs) ∧
      K (known.map fun _ => T.mark (List.replicate (audience plan call).length call ++ hs))) :
    T.Tells plan known call K := by
  intro w hw
  have hheard : heard ((Flow.plain plan : Flow (Act World)).tell call w).2.journal =
      List.replicate (audience plan call).length call ++ heard w.journal := by
    rw [Flow.tell_eq_modify]
    exact heard_told call _ _
  obtain ⟨htold, hmark, hknown⟩ := h (heard w.journal) hw.inv.2 hw.mark
  rw [← hheard] at htold hmark hknown
  exact ⟨⟨⟨hw.inv.1, htold⟩, hmark⟩, rfl, hknown⟩

/-! ## 2. Work within a walk -/

/-- An action of which nothing is told and which cannot fail, with a result as it has to be. -/
def Yields (T : Terms τ) (x : Act World α) (P : α → Prop) : Prop :=
  ∀ w : World, w.heap.Obeys T.sealed → (x w).2.heap.Obeys T.sealed ∧
    heard (x w).2.journal = heard w.journal ∧ ∃ a, (x w).1 = .ok a ∧ P a

theorem yields_note (d : Diagnostic) : T.Yields (World.note d) fun _ => True :=
  fun _ hw => ⟨hw, heard_map nofun, (), rfl, trivial⟩

omit [Performs World m] [Reasoned World Datum m] in
/-- After an action that cannot fail everything that was known is known. -/
theorem Yields.meets {x : Act World α} (hx : T.Yields x P) (known : Option τ) :
    x.Meets T.regime known fun r k => (∃ a, r = .ok a ∧ P a) ∧ k = known := by
  intro w hw
  obtain ⟨hheap, hheard, hresult⟩ := hx w hw.inv.1
  have hmark : T.mark (heard (x w).2.journal) = T.mark (heard w.journal) := congrArg T.mark hheard
  refine ⟨⟨⟨hheap, hheard ▸ hw.inv.2⟩, fun _ => hmark⟩, hresult, ?_⟩
  rw [Regime.after, regime]
  dsimp only
  rw [hmark]
  exact hw.after_eq

variable {g : Graph} {plan : FlowPlan} {n : Nat} {label : Nat → Datum → Prop} {N : Narration τ}

/-! ## 3. Walks -/

/-- The journey that is narrated. A visit keeps the terms, so it ends as it began, with a label. -/
def journey (T : Terms τ) (label : Nat → Datum → Prop) (N : Narration τ) : Journey τ where
  before _ := N.before
  within _ := N.within
  visited _ i r k := N.within i k ∧ T.Ends (label i) r
  behind _ := N.after
  ends := N.ends

omit [Performs World m] [Reasoned World Datum m] in
theorem Narrates.travels (hN : T.Narrates g plan n label N) {Good : Scene → Prop} :
    T.regime.Travels g plan n Good (T.journey label N) where
  enters _ := hN.enters
  fails _ i hi node hnode k e h := hN.fails i hi node hnode k e h.1 h.2
  leaves _ i hi node hnode k d h _ _ _ _ hv := hN.leaves i hi node hnode k d h _ hv.1 hv.2
  follows _ := hN.follows
  stops step i hi node hnode k d shown := hN.stops i hi node hnode k d shown (step + 1)
  lost _ := hN.lost
  limited _ i _ k e hbefore hlimit hcause := by
    refine hN.halts i k e hbefore (T.fails_of_ne e ?_) fun h => absurd h hlimit
    rcases hcause with ⟨f, rfl⟩ | rfl
    · simp
    · simp
  notes node shown k := by
    refine ((yields_note (node.endNote shown)).meets k).mono ?_
    rintro r k' ⟨⟨_, hr, -⟩, hk⟩
    exact ⟨hr, hk⟩

end Terms

end NodeFlow
