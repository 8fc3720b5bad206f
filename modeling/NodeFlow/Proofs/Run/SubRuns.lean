import NodeFlow.Proofs.Memory.Counts
import NodeFlow.Proofs.Run.Custody
import NodeFlow.Proofs.Run.Tours
import NodeFlow.Proofs.Run.Traversal
import NodeFlow.Proofs.Run.Journal
/-!
# Sub-runs with keys of their own

A flow that walks for many elements has one shared context for all of them. If each sub-run owns some keys of it
and does to them what depends on nothing else, then it does not matter whether the sub-runs are walked in turn or
together, nor who of them goes on first: what is under the keys in the end is the same, and so are the nodes that
each of them comes to with their labels.

The awkward thing up front: what a sub-run owns changes as it goes. Its parameters are a new object, which it has
only for as long as it goes on, and where that object is depends on who else has begun. So what is owned is dealt
out in three kinds: what is kept by all, what each owns before and after, and what it owns inside.
-/

set_option autoImplicit false

universe u

namespace NodeFlow

open Finset

section

variable {ρ μ : Type} [AddCommMonoid μ] {m : Type → Type u} [Performs World m] [Settling World ρ m]
  {holds : μ → World → Prop} {H : History Event} {w : World} {f : μ} {g : Graph} {flow : Flow m}
  {limit : Option Int}

/-! ## 1. What is dealt out -/

/-- What walks are given to go with: something that is kept for as long as they go on, what each of them owns
before and after it has its parameters at a cell, and which parameters suit it. -/
structure Deal (μ : Type) where
  kept : μ
  own : Nat → Content → μ
  inside : Nat → Addr → Content → μ
  suits : Nat → Members Datum → Prop

/-- A deal for so many walks: there is an element with suitable parameters for each, what each owns tells what is
under its keys, and with its parameters it can make its visits. -/
structure Deal.Sound (ρ : Type) [Settling World ρ m] (holds : μ → World → Prop) (scene : Scene)
    (whose : String → Option Nat) (does : Nat → Nat → Content → Deed → Prop) (start : Content)
    (visit : Scene → Nat → m Datum) (batch : Datum) (n : Nat) (deal : Deal μ) : Prop where
  given : ∃ elements items, items.length = n ∧ ∀ f w, holds (deal.kept + f) w →
    Elements.of batch w = (.ok elements, w) ∧ elements.all w = (.ok items, w) ∧
      ∀ i d, items[i]? = some d → ∃ ms, Flow.overlaid scene d w = (.ok ms, w) ∧ deal.suits i ms
  others : ∀ f w key, holds (deal.kept + f) w → whose key = none → scene.shared.contentIn w key = start key
  content : ∀ k c f w key, holds (deal.own k c + f) w → whose key = some k → scene.shared.contentIn w key = c key
  enters : ∀ k c f w ms, deal.suits k ms → holds (deal.own k c + f) w →
    holds (deal.inside k (w.heap.alloc (.dict ms)).1 c + f) (w.entered ms)
  leaves : ∀ k a c f w, holds (deal.inside k a c + f) w → holds (deal.own k c + f) w
  visits : ∀ k a i c deed H w f, does k i c deed → holds (deal.inside k a c + f) w →
    Settling.Settles ρ World.chronicle holds H w f (visit ⟨scene.shared, a⟩ i) (Does holds (deal.inside k a) deed H)

/-- What is under the keys when each owner is done with its own. -/
def merged (whose : String → Option Nat) (start : Content) (finals : Nat → Content) : Content := fun key =>
  match whose key with
  | some k => finals k key
  | none => start key

/-- The walks from a node on, each with its tour. -/
def Graph.Tours (g : Graph) (p : FlowPlan) (limit : Option Int) (does : Nat → Nat → Content → Deed → Prop)
    (fuel first n : Nat) (start : Content) (trails : Nat → List Ended) (finals : Nat → Content) : Prop :=
  ∀ k < n, ∃ steps ≤ fuel, g.Tour p limit (does k) 0 first start steps (trails k) (finals k)

variable {scene : Scene} {whose : String → Option Nat} {does : Nat → Nat → Content → Deed → Prop}
  {start : Content} {visit : Scene → Nat → m Datum} {batch : Datum} {n : Nat} {deal : Deal μ}
  {trails : Nat → List Ended} {finals : Nat → Content} {fuel first : Nat}

theorem Elements.at?_of_all {e : Elements} {items : List Datum} (h : e.all w = (.ok items, w)) (i : Nat) :
    e.at? i w = (.ok items[i]?, w) := by
  cases e with
  | live a =>
    obtain rfl := Except.ok.inj (congrArg Prod.fst h)
    rfl
  | fixed xs =>
    obtain rfl := Except.ok.inj (congrArg Prod.fst h)
    rfl

/-- What all own when their walks have ended tells what is under all keys. -/
theorem Deal.Sound.contentIn_eq (h : deal.Sound ρ holds scene whose does start visit batch n)
    (hwhose : ∀ key k, whose key = some k → k < n) {owns : Nat → μ}
    (hlast : ∀ k < n, owns k = deal.own k (finals k))
    (hown : holds (deal.kept + ∑ k ∈ range n, owns k + f) w) :
    scene.shared.contentIn w = merged whose start finals := by
  rw [Finset.sum_congr rfl fun k hk => hlast k (Finset.mem_range.1 hk)] at hown
  funext key
  unfold merged
  split
  · next k hkey =>
    have hmem : k ∈ range n := Finset.mem_range.2 (hwhose key k hkey)
    rw [← Finset.add_sum_erase _ _ hmem, add_left_comm, add_assoc] at hown
    exact h.content k _ _ w key hown hkey
  · next hkey =>
    rw [add_assoc] at hown
    exact h.others _ w key hown hkey

/-- A walk for one element makes its tour, and leaves its parameters behind. -/
theorem Deal.Sound.settles_traverse (h : deal.Sound ρ holds scene whose does start visit batch n)
    (hover : OverlooksJournal holds) (hlimit : flow.limit = limitValue limit) (hfirst : flow.start = some first)
    {k steps : Nat} {trail : List Ended} {content : Content} {ms : Members Datum}
    (htour : g.Tour flow.toFlowPlan limit (does k) 0 first start steps trail content) (hfuel : steps ≤ fuel)
    (hsuits : deal.suits k ms) (hown : holds (deal.own k start + f) w) :
    Settling.Settles ρ World.chronicle holds H w f (flow.traverse g scene.shared visit fuel ms)
      (Tours holds (deal.own k) trail content H) := by
  unfold Flow.traverse
  rw [hfirst]
  dsimp only
  have hinside := h.enters k start f w ms hsuits hown
  have henters : (Act.update fun w : World => let r := w.heap.alloc (.dict ms); (r.1, { w with heap := r.2 })) w =
      (.ok (w.heap.alloc (.dict ms)).1, w.entered ms) := rfl
  refine settles_after_silent ρ henters rfl ?_
  refine Settling.mono (settles_walk hover hlimit (h.visits k _) htour hfuel hinside) ?_
  rintro H' r w' f' ⟨d, es, rfl, rfl, htrail, hown'⟩
  exact ⟨d, es, rfl, rfl, htrail, h.leaves k _ content f' w' hown'⟩

/-- The walks for all elements in turn. -/
theorem Deal.Sound.settles_inTurn (h : deal.Sound ρ holds scene whose does start visit batch n)
    (hover : OverlooksJournal holds) (hlimit : flow.limit = limitValue limit) (hfirst : flow.start = some first)
    (htours : g.Tours flow.toFlowPlan limit does fuel first n start trails finals) (hfuel : n < fuel)
    (hwhose : ∀ key k, whose key = some k → k < n)
    (hown : holds (deal.kept + ∑ k ∈ range n, deal.own k start + f) w) :
    Settling.Settles ρ World.chronicle holds H w f
      (do
        let elements ← Performs.perform (Elements.of batch)
        let _ ← eachFrom elements.at?
          (fun d => do
            let params ← Performs.perform (Flow.overlaid scene d)
            flow.traverse g scene.shared visit fuel params)
          fuel 0
        pure Datum.null : m Datum)
      fun H' r w' _ => r = .ok .null ∧ scene.shared.contentIn w' = merged whose start finals ∧
        ∃ es, H' = H.add es ∧ trailOf es = (List.range n).flatMap trails := by
  obtain ⟨elements, items, rfl, hgiven⟩ := h.given
  have hnow : holds (deal.kept + (∑ k ∈ range items.length, deal.own k start + f)) w := by
    rwa [← add_assoc]
  refine settles_after_silent ρ (hgiven _ w hnow).1 rfl ?_
  have hwork : ∀ i d H w f, items[i]? = some d → holds (deal.own i start + (deal.kept + f)) w →
      Settling.Settles ρ World.chronicle holds H w (deal.kept + f)
        (do
          let params ← Performs.perform (Flow.overlaid scene d)
          flow.traverse g scene.shared visit fuel params)
        (Comes holds H fun es _ own => trailOf es = trails i ∧ own = deal.own i (finals i)) := by
    intro i d H w f hd hown
    have hkept : holds (deal.kept + (deal.own i start + f)) w := by
      rwa [add_left_comm]
    obtain ⟨ms, hoverlaid, hsuits⟩ := (hgiven _ w hkept).2.2 i d hd
    obtain ⟨steps, hsteps, htour⟩ := htours i (List.getElem?_eq_some_iff.1 hd).1
    refine settles_after_silent ρ hoverlaid rfl ?_
    refine Settling.mono (h.settles_traverse hover hlimit hfirst htour hsteps hsuits hown) ?_
    rintro H' r w' f' ⟨d, es, rfl, rfl, htrail, hown'⟩
    exact ⟨d, es, _, rfl, rfl, ⟨htrail, rfl⟩, hown'⟩
  refine Settling.bind (settles_eachFrom (ρ := ρ) (H := H) hwork
    (fun f w i hw => Elements.at?_of_all (hgiven f w hw).2.1 i) hfuel hown) ?_ ?_
  · rintro H' r w' f' ⟨results, records, owns, hr, rfl, hlength, hends, hown'⟩
    have hlast : ∀ i < items.length, trailOf (records i) = trails i ∧ owns i = deal.own i (finals i) :=
      fun i hi => hends i _ (List.getElem?_eq_getElem (hlength ▸ hi))
    refine Settling.pure (ρ := ρ) ⟨rfl, h.contentIn_eq hwhose (fun i hi => (hlast i hi).2) hown', _, rfl, ?_⟩
    rw [trailOf, List.filterMap_flatMap]
    exact List.flatMap_congr fun i hi => (hlast i (List.mem_range.1 hi)).1
  · rintro H' e w' f' ⟨results, records, owns, hr, -⟩
    cases hr

end

section

variable {μ : Type} [AddCommMonoid μ] {holds : μ → World → Prop} {H : History Event} {w : World} {f own : μ}
  {g : Graph} {flow : Flow (Coop World Datum)} {scene : Scene} {whose : String → Option Nat}
  {does : Nat → Nat → Content → Deed → Prop} {start : Content} {visit : Scene → Nat → Coop World Datum Datum}
  {batch : Datum} {n : Nat} {deal : Deal μ} {trails : Nat → List Ended} {finals : Nat → Content}
  {fuel first : Nat} {limit : Option Int}

/-- The parameters for all elements are made before any of the walks begins. -/
theorem exists_overlays {items : List Datum} {suits : Nat → Members Datum → Prop}
    (h : ∀ i d, items[i]? = some d → ∃ ms, Flow.overlaid scene d w = (.ok ms, w) ∧ suits i ms) :
    ∃ overlays, eachOf items (Flow.overlaid scene) w = (.ok overlays, w) ∧ overlays.length = items.length ∧
      ∀ i ms, overlays[i]? = some ms → suits i ms := by
  induction items generalizing suits with
  | nil => exact ⟨[], rfl, rfl, fun i ms hi => nomatch hi⟩
  | cons d items ih =>
    obtain ⟨ms, hms, hsuits⟩ := h 0 d rfl
    have hlater : ∀ i d, items[i]? = some d →
        ∃ ms, Flow.overlaid scene d w = (.ok ms, w) ∧ suits (i + 1) ms := fun i d hd => h (i + 1) d hd
    obtain ⟨overlays, hoverlays, hlength, hrest⟩ := ih hlater
    refine ⟨ms :: overlays, ?_, congrArg (· + 1) hlength, fun i ms' hi => ?_⟩
    · change Act.bind (Flow.overlaid scene d) _ w = _
      rw [Act.bind, hms]
      change Act.bind (eachOf items (Flow.overlaid scene)) _ w = _
      rw [Act.bind, hoverlays]
      rfl
    · cases i with
      | zero =>
        obtain rfl := Option.some.inj hi
        exact hsuits
      | succ i => exact hrest i ms' hi

/-- The walks for all elements at once. -/
theorem Deal.Sound.settles_together (h : deal.Sound Datum holds scene whose does start visit batch n)
    (hover : OverlooksJournal holds) (hlimit : flow.limit = limitValue limit) (hfirst : flow.start = some first)
    (htours : g.Tours flow.toFlowPlan limit does fuel first n start trails finals)
    (hwhose : ∀ key k, whose key = some k → k < n)
    (hown : holds (deal.kept + ∑ k ∈ range n, deal.own k start + f) w) :
    Coop.Settles World.chronicle holds .none H (.moving w f)
      (do
        let items ← Coop.ofAct (do (← Elements.of batch).all)
        let overlays ← Coop.ofAct (eachOf items (Flow.overlaid scene))
        let _ ← Coop.together (overlays.map (flow.traverse g scene.shared visit fuel))
        pure Datum.null)
      fun H' r w' _ => r = .ok .null ∧ scene.shared.contentIn w' = merged whose start finals ∧
        ∃ group records, H' = H.join group n records ∧ ∀ k < n, trailOf (records k) = trails k := by
  obtain ⟨elements, items, rfl, hgiven⟩ := h.given
  have hnow : holds (deal.kept + (∑ k ∈ range items.length, deal.own k start + f)) w := by
    rwa [← add_assoc]
  obtain ⟨helements, hall, hoverlaid⟩ := hgiven _ w hnow
  have hitems : (do (← Elements.of batch).all : Act World (List Datum)) w = (.ok items, w) := by
    change Act.bind (Elements.of batch) _ w = _
    rw [Act.bind, helements]
    exact hall
  obtain ⟨overlays, hoverlays, hlength, hsuits⟩ := exists_overlays hoverlaid
  let parts := overlays.map (flow.traverse g scene.shared visit fuel)
  have hcount : parts.length = items.length := by
    rw [List.length_map, hlength]
  refine settles_after_silent (m := Coop World Datum) Datum hitems rfl ?_
  refine settles_after_silent (m := Coop World Datum) Datum hoverlays rfl ?_
  let ends (i : Nat) (es : List Event) (r : Except Failure Datum) (own : μ) : Prop :=
    ∃ d, r = .ok d ∧ trailOf es = trails i ∧ own = deal.own i (finals i)
  have hparts : ∀ i p w f, parts[i]? = some p → holds (deal.own i start + f) w →
      p.Settles World.chronicle holds .none .empty (.moving w f)
        (Leaving holds fun H r own => ends i H.own r own) := by
    intro i p w f hp hown
    rw [List.getElem?_map, Option.map_eq_some_iff] at hp
    obtain ⟨ms, hms, rfl⟩ := hp
    obtain ⟨steps, hsteps, htour⟩ := htours i (hlength ▸ (List.getElem?_eq_some_iff.1 hms).1)
    refine Coop.Settles.mono (h.settles_traverse hover hlimit hfirst htour hsteps (hsuits i ms hms) hown) ?_
    rintro H' r w' f' ⟨d, es, rfl, rfl, htrail, hown'⟩
    exact ⟨_, hown', d, rfl, htrail, rfl⟩
  have hgather := NodeFlow.settles_together (H := H) hparts (by rwa [hcount])
  rw [hcount] at hgather
  refine hgather.bind ?_ ?_
  · rintro H' results w' f' ⟨group, records, owns, rfl, hresults, hends, hown'⟩
    have hlast : ∀ i < items.length, trailOf (records i) = trails i ∧ owns i = deal.own i (finals i) := by
      intro i hi
      obtain ⟨d, -, hlast⟩ := hends i _ (List.getElem?_eq_getElem (hresults ▸ hi))
      exact hlast
    exact .done ⟨rfl, h.contentIn_eq hwhose (fun i hi => (hlast i hi).2) hown', group, records, rfl,
      fun k hk => (hlast k hk).1⟩
  · rintro H' e w' f' ⟨-, -, i, es, own, hi, d, he, -⟩
    cases he

/-! ## 2. Whole visits -/

/-- How a flow prepares its batch: it deals out what the walks go with. -/
def Dealt {m : Type → Type u} [Performs World m] (ρ : Type) [Settling World ρ m] (holds : μ → World → Prop)
    (scene : Scene) (whose : String → Option Nat) (does : Nat → Nat → Content → Deed → Prop) (start : Content)
    (visit : Scene → Nat → m Datum) (n : Nat) (before : List Event) : Ending World μ Event Datum := fun H r w f =>
  H = History.empty.add before ∧ ∃ (batch : Datum) (deal : Deal μ), r = .ok batch ∧
    deal.Sound ρ holds scene whose does start visit batch n ∧
    holds (deal.kept + ∑ k ∈ range n, deal.own k start + f) w

/-- What a flow prepares before it walks for many elements. -/
def Flow.prepared {m : Type → Type u} [Performs World m] (flow : Flow m) (scene : Scene) : m Datum := do
  Performs.perform (batchOf (← flow.prep scene))

variable {before : List Event}

/-- A flow that walks for all elements at once goes on to finish when all walks have ended. -/
theorem settles_runTogether {aim : Aim World Datum μ Event} {Q : Ending World μ Event Datum}
    (hover : OverlooksJournal holds) (hlimit : flow.limit = limitValue limit) (hfirst : flow.start = some first)
    (htours : g.Tours flow.toFlowPlan limit does fuel first n start trails finals)
    (hwhose : ∀ key k, whose key = some k → k < n)
    (hprep : ∀ w f, holds (own + f) w → (flow.prepared scene).Settles World.chronicle holds .none .empty
      (.moving w f) (Dealt Datum holds scene whose does start visit n before))
    (hpost : ∀ batch group records w f, scene.shared.contentIn w = merged whose start finals →
      (∀ k < n, trailOf (records k) = trails k) →
      (flow.post scene batch .null).Settles World.chronicle holds aim
        ((History.empty.add before).join group n records) (.moving w f) Q) :
    (flow.runTogether g visit fuel scene).Settles World.chronicle holds aim .empty (.resting own) Q := by
  refine settles_course hprep ?_ ?_
  · rintro H batch w f ⟨rfl, batch', deal, hbatch, hsound, hown⟩
    obtain rfl := Except.ok.inj hbatch
    refine (hsound.settles_together hover hlimit hfirst htours hwhose hown).bind ?_ ?_
    · rintro H d w f ⟨hd, hcontent, group, records, rfl, htrails⟩
      obtain rfl := Except.ok.inj hd
      exact hpost batch group records w f hcontent htrails
    · rintro H e w f ⟨he, -⟩
      cases he
  · rintro H e w f ⟨-, batch, deal, he, -⟩
    cases he

/-- A flow that walks for all elements in turn goes on to finish when the last walk has ended. -/
theorem settles_runEach {aim : Aim World Datum μ Event} {Q : Ending World μ Event Datum}
    (hover : OverlooksJournal holds) (hlimit : flow.limit = limitValue limit) (hfirst : flow.start = some first)
    (htours : g.Tours flow.toFlowPlan limit does fuel first n start trails finals) (hfuel : n < fuel)
    (hwhose : ∀ key k, whose key = some k → k < n)
    (hprep : ∀ w f, holds (own + f) w → (flow.prepared scene).Settles World.chronicle holds .none .empty
      (.moving w f) (Dealt Datum holds scene whose does start visit n before))
    (hpost : ∀ batch es w f, scene.shared.contentIn w = merged whose start finals →
      trailOf es = (List.range n).flatMap trails →
      (flow.post scene batch .null).Settles World.chronicle holds aim (History.empty.add (before ++ es))
        (.moving w f) Q) :
    (flow.runEach g visit fuel scene).Settles World.chronicle holds aim .empty (.resting own) Q := by
  refine settles_course hprep ?_ ?_
  · rintro H batch w f ⟨rfl, batch', deal, hbatch, hsound, hown⟩
    obtain rfl := Except.ok.inj hbatch
    have hwalks := hsound.settles_inTurn (m := Coop World Datum) (ρ := Datum) (H := History.empty.add before)
      hover hlimit hfirst htours hfuel hwhose hown
    refine Coop.Settles.bind hwalks ?_ ?_
    · rintro H d w f ⟨hd, hcontent, es, rfl, htrail⟩
      obtain rfl := Except.ok.inj hd
      rw [History.add_add]
      exact hpost batch es w f hcontent htrail
    · rintro H e w f ⟨he, -⟩
      cases he
  · rintro H e w f ⟨-, batch, deal, he, -⟩
    cases he

/-- And when nobody can go on in between. -/
theorem runEach_at_once {flow : Flow (Act World)} {visit : Scene → Nat → Act World Datum}
    (hover : OverlooksJournal holds) (hlimit : flow.limit = limitValue limit) (hfirst : flow.start = some first)
    (htours : g.Tours flow.toFlowPlan limit does fuel first n start trails finals) (hfuel : n < fuel)
    (hwhose : ∀ key k, whose key = some k → k < n)
    (hprep : ∀ w f, holds (own + f) w → (flow.prepared scene).Settles World.chronicle .empty w f
      (Dealt Datum holds scene whose does start visit n before))
    (hown : holds own w) :
    ∃ batch w', flow.runEach g visit fuel scene w = flow.post scene batch .null w' ∧
      scene.shared.contentIn w' = merged whose start finals ∧
      trailOf (World.added w w') = trailOf before ++ (List.range n).flatMap trails := by
  rw [← add_zero own] at hown
  let Q : Ending World μ Event Datum := fun H r w' _ => r = .ok .null ∧
    scene.shared.contentIn w' = merged whose start finals ∧
      ∃ es, H = History.empty.add (before ++ es) ∧ trailOf es = (List.range n).flatMap trails
  obtain ⟨batch, d, w', hcourse, hd, hcontent, es, hes, htrail⟩ := course_at_once (Q := Q) _ (flow.post scene)
    (hprep w 0 hown)
    (by
      rintro H e u f ⟨-, batch, deal, he, -⟩
      cases he)
    (by
      rintro H batch u f ⟨rfl, batch', deal, hbatch, hsound, hown⟩
      obtain rfl := Except.ok.inj hbatch
      have hwalks := hsound.settles_inTurn (m := Act World) (ρ := Datum) (H := History.empty.add before) hover
        hlimit hfirst htours hfuel hwhose hown
      refine Settling.mono (ρ := Datum) hwalks ?_
      rintro H r w' f' ⟨rfl, hcontent, es, rfl, htrail⟩
      exact ⟨rfl, hcontent, es, History.add_add _ _ _, htrail⟩)
    (by
      rintro H e u f ⟨he, -⟩
      cases he)
  obtain rfl := Except.ok.inj hd
  have hadded : World.added w w' = before ++ es := congrArg History.own hes
  exact ⟨batch, w', hcourse, hcontent, by rw [hadded, trailOf_append, htrail]⟩

/-! ## 3. The order does not matter -/

/-- The root is about to finish: this is under the keys, and these nodes have ended within the root itself. -/
def Flow.Finishes (flow : Flow (Coop World Datum)) (scene : Scene) (content : Content) (trail : List Ended)
    (t : Trace Event) (m : Moment World Datum) : Prop :=
  ∃ batch, m.now = some (.root, flow.post scene batch .null) ∧ scene.shared.contentIn m.pool.state = content ∧
    trailOf (t.own .root) = trail

/-- The root has ended with a label: this is under the keys, and these nodes have ended within the root itself. -/
def EndedWith (scene : Scene) (label : Datum) (content : Content) (trail : List Ended) (t : Trace Event)
    (m : Moment World Datum) : Prop :=
  m.pool.result = some (.ok label) ∧ scene.shared.contentIn m.pool.state = content ∧ trailOf (t.own .root) = trail

/-- So many sub-runs have ended, each with its own trail. -/
def SubRunsEnded (n : Nat) (trails : Nat → List Ended) (t : Trace Event) (m : Moment World Datum) : Prop :=
  ∃ group, ∀ k < n, m.Idle (.member group k) ∧ trailOf (t.own (.member group k)) = trails k

/-- To finish comes to a label whatever is owned, and changes what is under the keys in a way that is known. -/
def Concludes {m : Type → Type u} [Performs World m] (ρ : Type) [Settling World ρ m] (holds : μ → World → Prop)
    (scene : Scene) (post : Datum → m Datum) (content : Content) (label : Datum) (content' : Content) : Prop :=
  ∀ batch (H : History Event) w f, scene.shared.contentIn w = content →
    Settling.Settles ρ World.chronicle holds H w f (post batch) fun H' r w' _ =>
      r = .ok label ∧ scene.shared.contentIn w' = content' ∧ ∃ es, H' = H.add es ∧ trailOf es = []

/-- The history of the root is true where all sub-runs have ended. -/
theorem subRunsEnded_of_isTrue {t : Trace Event} {m : Moment World Datum} {group : Nat}
    {records : Nat → List Event} (h : H.IsTrue t m .root)
    (hended : ∀ k < n, (.member group k, records k) ∈ H.ended) (htrails : ∀ k < n, trailOf (records k) = trails k) :
    SubRunsEnded n trails t m := by
  refine ⟨group, fun k hk => ?_⟩
  obtain ⟨hown, hidle⟩ := h.ended _ (hended k hk)
  exact ⟨hidle, by rw [← htrails k hk, ← hown]⟩

/-- A flow that walks for all elements at once: whoever goes on first, when it finishes all sub-runs have made
their tours, and each owner has done with its keys what its tour does. -/
theorem together_merges (hover : OverlooksJournal holds) (hlimit : flow.limit = limitValue limit)
    (hfirst : flow.start = some first)
    (htours : g.Tours flow.toFlowPlan limit does fuel first n start trails finals)
    (hwhose : ∀ key k, whose key = some k → k < n)
    (hprep : ∀ w f, holds (own + f) w → (flow.prepared scene).Settles World.chronicle holds .none .empty
      (.moving w f) (Dealt Datum holds scene whose does start visit n before))
    (hown : holds own w) :
    (Moment.start (flow.runTogether g visit fuel scene) w).Eventually World.chronicle
      (fun t m => flow.Finishes scene (merged whose start finals) (trailOf before) t m ∧ SubRunsEnded n trails t m)
      [] ∧
    ∀ label content, Concludes Datum holds scene (flow.post scene · .null) (merged whose start finals) label content →
      (Moment.start (flow.runTogether g visit fuel scene) w).Eventually World.chronicle
        (fun t m => EndedWith scene label content (trailOf before) t m ∧ SubRunsEnded n trails t m) [] := by
  have hmem : ∀ {H : History Event} {group : Nat} {records : Nat → List Event}, ∀ k < n,
      ((.member group k, records k) : Owner × List Event) ∈ (H.join group n records).ended :=
    fun k hk => History.mem_ended_join.2 (Or.inr ⟨k, hk, rfl⟩)
  constructor
  · let aim : Aim World Datum μ Event := fun H w _ x => ∃ batch group records, x = flow.post scene batch .null ∧
      scene.shared.contentIn w = merged whose start finals ∧
      H = (History.empty.add before).join group n records ∧ ∀ k < n, trailOf (records k) = trails k
    have hsettles : (flow.runTogether g visit fuel scene).Settles World.chronicle holds aim .empty (.resting own)
        fun _ _ _ _ => False :=
      settles_runTogether hover hlimit hfirst htours hwhose hprep
        fun batch group records w f hcontent htrails => .aim ⟨batch, group, records, rfl, hcontent, rfl, htrails⟩
    refine (hsettles.eventually hown).mono fun t m h => ?_
    rcases h with ⟨x, H, f, hnow, ⟨batch, group, records, rfl, hcontent, rfl, htrails⟩, htrue⟩ | ⟨r, H, f, -, h, -⟩
    · exact ⟨⟨batch, hnow, hcontent, by rw [← htrue.own]; rfl⟩, subRunsEnded_of_isTrue htrue hmem htrails⟩
    · exact h.elim
  · intro label content hpost
    have hsettles : (flow.runTogether g visit fuel scene).Settles World.chronicle holds .none .empty (.resting own)
        fun H r w _ => r = .ok label ∧ scene.shared.contentIn w = content ∧ ∃ group records es,
          H = ((History.empty.add before).join group n records).add es ∧ trailOf es = [] ∧
          ∀ k < n, trailOf (records k) = trails k := by
      refine settles_runTogether hover hlimit hfirst htours hwhose hprep
        fun batch group records w f hcontent htrails => Coop.Settles.mono (hpost batch _ w f hcontent) ?_
      rintro H r w f ⟨rfl, hcontent', es, rfl, htrail⟩
      exact ⟨rfl, hcontent', group, records, es, rfl, htrail, htrails⟩
    refine (hsettles.eventually hown).mono fun t m h => ?_
    rcases h with ⟨x, H, f, -, h, -⟩ | ⟨r, H, f, hr, ⟨rfl, hcontent, group, records, es, rfl, htrail, htrails⟩, htrue⟩
    · exact h.elim
    · refine ⟨⟨hr, hcontent, ?_⟩, subRunsEnded_of_isTrue htrue hmem htrails⟩
      rw [← htrue.own, History.own_add, trailOf_append, htrail, List.append_nil]
      rfl

/-- A flow that walks for all elements in turn. -/
theorem inTurn_merges (hover : OverlooksJournal holds) (hlimit : flow.limit = limitValue limit)
    (hfirst : flow.start = some first)
    (htours : g.Tours flow.toFlowPlan limit does fuel first n start trails finals) (hfuel : n < fuel)
    (hwhose : ∀ key k, whose key = some k → k < n)
    (hprep : ∀ w f, holds (own + f) w → (flow.prepared scene).Settles World.chronicle holds .none .empty
      (.moving w f) (Dealt Datum holds scene whose does start visit n before))
    (hown : holds own w) :
    (Moment.start (flow.runEach g visit fuel scene) w).Eventually World.chronicle
      (flow.Finishes scene (merged whose start finals) (trailOf before ++ (List.range n).flatMap trails)) [] ∧
    ∀ label content, Concludes Datum holds scene (flow.post scene · .null) (merged whose start finals) label content →
      (Moment.start (flow.runEach g visit fuel scene) w).Eventually World.chronicle
        (EndedWith scene label content (trailOf before ++ (List.range n).flatMap trails)) [] := by
  constructor
  · let aim : Aim World Datum μ Event := fun H w _ x => ∃ batch es, x = flow.post scene batch .null ∧
      scene.shared.contentIn w = merged whose start finals ∧ H = History.empty.add (before ++ es) ∧
      trailOf es = (List.range n).flatMap trails
    have hsettles : (flow.runEach g visit fuel scene).Settles World.chronicle holds aim .empty (.resting own)
        fun _ _ _ _ => False :=
      settles_runEach hover hlimit hfirst htours hfuel hwhose hprep
        fun batch es w f hcontent htrail => .aim ⟨batch, es, rfl, hcontent, rfl, htrail⟩
    refine (hsettles.eventually hown).mono fun t m h => ?_
    rcases h with ⟨x, H, f, hnow, ⟨batch, es, rfl, hcontent, rfl, htrail⟩, htrue⟩ | ⟨r, H, f, -, h, -⟩
    · refine ⟨batch, hnow, hcontent, ?_⟩
      rw [← htrue.own, ← htrail, ← trailOf_append]
      rfl
    · exact h.elim
  · intro label content hpost
    have hsettles : (flow.runEach g visit fuel scene).Settles World.chronicle holds .none .empty (.resting own)
        fun H r w _ => r = .ok label ∧ scene.shared.contentIn w = content ∧ ∃ es,
          H = History.empty.add (before ++ es) ∧ trailOf es = (List.range n).flatMap trails := by
      refine settles_runEach hover hlimit hfirst htours hfuel hwhose hprep
        fun batch es w f hcontent htrail => Coop.Settles.mono (hpost batch _ w f hcontent) ?_
      rintro H r w f ⟨rfl, hcontent', es', rfl, htrail'⟩
      refine ⟨rfl, hcontent', es ++ es', ?_, ?_⟩
      · rw [History.add_add, List.append_assoc]
      · rw [trailOf_append, htrail, htrail', List.append_nil]
    refine (hsettles.eventually hown).mono fun t m h => ?_
    rcases h with ⟨x, H, f, -, h, -⟩ | ⟨r, H, f, hr, ⟨rfl, hcontent, es, rfl, htrail⟩, htrue⟩
    · exact h.elim
    · refine ⟨hr, hcontent, ?_⟩
      rw [← htrue.own, ← htrail, ← trailOf_append]
      rfl

/-- And when nobody can go on in between. -/
theorem inTurn_merges_at_once {flow : Flow (Act World)} {visit : Scene → Nat → Act World Datum}
    (hover : OverlooksJournal holds) (hlimit : flow.limit = limitValue limit) (hfirst : flow.start = some first)
    (htours : g.Tours flow.toFlowPlan limit does fuel first n start trails finals) (hfuel : n < fuel)
    (hwhose : ∀ key k, whose key = some k → k < n)
    (hprep : ∀ w f, holds (own + f) w → (flow.prepared scene).Settles World.chronicle .empty w f
      (Dealt Datum holds scene whose does start visit n before))
    (hown : holds own w) :
    (∃ batch w', flow.runEach g visit fuel scene w = flow.post scene batch .null w' ∧
      scene.shared.contentIn w' = merged whose start finals ∧
      trailOf (World.added w w') = trailOf before ++ (List.range n).flatMap trails) ∧
    ∀ label content, Concludes Datum holds scene (flow.post scene · .null) (merged whose start finals) label content →
      ∃ w', flow.runEach g visit fuel scene w = (.ok label, w') ∧ scene.shared.contentIn w' = content ∧
        trailOf (World.added w w') = trailOf before ++ (List.range n).flatMap trails := by
  refine ⟨runEach_at_once hover hlimit hfirst htours hfuel hwhose hprep hown, fun label content hpost => ?_⟩
  rw [← add_zero own] at hown
  have hsettles : Settling.Settles Datum World.chronicle holds .empty w 0 (flow.runEach g visit fuel scene)
      fun H r w _ => r = .ok label ∧ scene.shared.contentIn w = content ∧ ∃ es,
        H = History.empty.add (before ++ es) ∧ trailOf es = (List.range n).flatMap trails := by
    refine Settling.bind (hprep w 0 hown) ?_ ?_
    · rintro H batch w f ⟨rfl, batch', deal, hbatch, hsound, hown⟩
      obtain rfl := Except.ok.inj hbatch
      have hwalks := hsound.settles_inTurn (m := Act World) (ρ := Datum) (H := History.empty.add before) hover
        hlimit hfirst htours hfuel hwhose hown
      refine Settling.bind hwalks ?_ ?_
      · rintro H d w f ⟨hd, hcontent, es, rfl, htrail⟩
        obtain rfl := Except.ok.inj hd
        refine Settling.mono (ρ := Datum) (hpost batch _ w f hcontent) ?_
        rintro H r w f ⟨rfl, hcontent', es', rfl, htrail'⟩
        refine ⟨rfl, hcontent', es ++ es', ?_, ?_⟩
        · rw [History.add_add, History.add_add]
        · rw [trailOf_append, htrail, htrail', List.append_nil]
      · rintro H e w f ⟨he, -⟩
        cases he
    · rintro H e w f ⟨-, batch, deal, he, -⟩
      cases he
  obtain ⟨-, hr, hcontent, es, hes, htrail⟩ := hsettles
  have hadded : World.added w (flow.runEach g visit fuel scene w).2 = before ++ es := congrArg History.own hes
  refine ⟨_, Prod.ext hr rfl, hcontent, ?_⟩
  rw [hadded, trailOf_append, htrail]

/-- **Sub-runs with keys of their own do not depend on who goes on first.** Let every visit of a sub-run do
something to the keys that its sub-run owns and leave the others alone, and let each sub-run come to the end of its
tour. Then a flow that walks for all elements at once comes in every order to finish with the same content of the
shared context as one that walks for them in turn, be it cooperative or at once, and each sub-run has come to the
same nodes with the same labels. -/
theorem sub_runs_independent_of_order {g' : Graph} {flow' : Flow (Coop World Datum)} {flow'' : Flow (Act World)}
    (hover : OverlooksJournal holds) (hlimit : flow.limit = limitValue limit) (hfirst : flow.start = some first)
    (hplan : flow'.toFlowPlan = flow.toFlowPlan) (hplan' : flow''.toFlowPlan = flow.toFlowPlan)
    (htours : g.Tours flow.toFlowPlan limit does fuel first n start trails finals)
    (htours' : g'.Tours flow.toFlowPlan limit does fuel first n start trails finals)
    (hwhose : ∀ key k, whose key = some k → k < n) (hfuel : n < fuel)
    (hprep : ∀ w f, holds (own + f) w → (flow.prepared scene).Settles World.chronicle holds .none .empty
      (.moving w f) (Dealt Datum holds scene whose does start (g.visitWaiting fuel) n before))
    (hprep' : ∀ w f, holds (own + f) w → (flow'.prepared scene).Settles World.chronicle holds .none .empty
      (.moving w f) (Dealt Datum holds scene whose does start (g.visitWaiting fuel) n before))
    (hprep'' : ∀ w f, holds (own + f) w → (flow''.prepared scene).Settles World.chronicle .empty w f
      (Dealt Datum holds scene whose does start (g'.visit fuel) n before))
    (hown : holds own w) :
    ((Moment.start (flow.runTogether g (g.visitWaiting fuel) fuel scene) w).Eventually World.chronicle
        (fun t m => flow.Finishes scene (merged whose start finals) (trailOf before) t m ∧
          SubRunsEnded n trails t m) [] ∧
      (Moment.start (flow'.runEach g (g.visitWaiting fuel) fuel scene) w).Eventually World.chronicle
        (flow'.Finishes scene (merged whose start finals) (trailOf before ++ (List.range n).flatMap trails)) [] ∧
      ∃ batch w', flow''.runEach g' (g'.visit fuel) fuel scene w = flow''.post scene batch .null w' ∧
        scene.shared.contentIn w' = merged whose start finals ∧
        trailOf (World.added w w') = trailOf before ++ (List.range n).flatMap trails) ∧
    ∀ label content,
      (Concludes Datum holds scene (flow.post scene · .null) (merged whose start finals) label content →
        (Moment.start (flow.runTogether g (g.visitWaiting fuel) fuel scene) w).Eventually World.chronicle
          (fun t m => EndedWith scene label content (trailOf before) t m ∧ SubRunsEnded n trails t m) []) ∧
      (Concludes Datum holds scene (flow'.post scene · .null) (merged whose start finals) label content →
        (Moment.start (flow'.runEach g (g.visitWaiting fuel) fuel scene) w).Eventually World.chronicle
          (EndedWith scene label content (trailOf before ++ (List.range n).flatMap trails)) []) ∧
      (Concludes Datum holds scene (flow''.post scene · .null) (merged whose start finals) label content →
        ∃ w', flow''.runEach g' (g'.visit fuel) fuel scene w = (.ok label, w') ∧
          scene.shared.contentIn w' = content ∧
          trailOf (World.added w w') = trailOf before ++ (List.range n).flatMap trails) := by
  have hlimit' : flow'.limit = limitValue limit := hplan ▸ hlimit
  have hlimit'' : flow''.limit = limitValue limit := hplan' ▸ hlimit
  have hfirst' : flow'.start = some first := hplan ▸ hfirst
  have hfirst'' : flow''.start = some first := hplan' ▸ hfirst
  obtain ⟨hfinishes, hends⟩ := together_merges hover hlimit hfirst htours hwhose hprep hown
  obtain ⟨hfinishes', hends'⟩ := inTurn_merges hover hlimit' hfirst' (hplan ▸ htours) hfuel hwhose hprep' hown
  obtain ⟨hfinishes'', hends''⟩ :=
    inTurn_merges_at_once hover hlimit'' hfirst'' (hplan' ▸ htours') hfuel hwhose hprep'' hown
  exact ⟨⟨hfinishes, hfinishes', hfinishes''⟩,
    fun label content => ⟨hends label content, hends' label content, hends'' label content⟩⟩

end

/-! ## 4. Two counts -/

namespace Tally

/-- What is owned: numbers under keys of the shared context, and cells that stay as they are. -/
abbrev Own := Multiset (String × Int) × Multiset (Addr × Cell)

/-- What is owned is as its owners know it, and no key has two owners. -/
structure Holds (own : Own) (w : World) : Prop where
  object : ∃ ms, w.heap.cell? 0 = some (.dict ms) ∧ ∀ key, key ≠ "a" → key ≠ "b" → Members.get? ms key = none
  keys : (own.1.map Prod.fst).Nodup
  counts : ∀ c ∈ own.1, Members.get? (w.heap.membersAt 0) c.1 = some (.int c.2)
  cells : ∀ p ∈ own.2, p.1 ≠ 0 ∧ w.heap.cell? p.1 = some p.2

/-- The key of a sub-run. -/
def name (k : Nat) : String := if k = 0 then "a" else "b"

/-- Whose a key is. -/
def whose (key : String) : Option Nat := if key = "a" then some 0 else if key = "b" then some 1 else none

/-- The parameters of a sub-run. -/
def paramsOf (k : Nat) : Members Datum := [("key", .str (name k))]

/-- What a sub-run owns: the number under its key. There is none that owns anything else. -/
def own (k : Nat) (content : Content) : Own :=
  match content (name k) with
  | some (.int x) => ({(name k, x)}, 0)
  | _ => (0, {(0, .list [])})

/-- The batch, with the parameters for both elements. -/
def kept : Own := (0, {(1, .dict []), (2, .dict (paramsOf 0)), (3, .dict (paramsOf 1)), (4, .list [.ref 2, .ref 3])})

/-- What both sub-runs go with. -/
def deal : Deal Own where
  kept := kept
  own := own
  inside k a content := own k content + (0, {(a, .dict (paramsOf k))})
  suits k ms := ms = paramsOf k

/-- The scene: a plain context, and no parameters. -/
def scene : Scene := ⟨⟨0, none⟩, 1⟩

/-- Both keys and nothing else have the same number. -/
def both (x : Int) : Content := fun key => if key = "a" ∨ key = "b" then some (.int x) else none

/-- The label of a visit that has found a number. -/
def labelOf (x : Int) : Value := if x = 0 then .str "more" else .null

/-- A visit adds one to the number under the key of its sub-run. -/
def does (k i : Nat) (content : Content) (deed : Deed) : Prop :=
  k < 2 ∧ i = 0 ∧ ∃ x, content (name k) = some (.int x) ∧
    deed = ⟨labelOf x, Function.update content (name k) (some (.int (x + 1))), []⟩

namespace Holds

variable {a b f : Own} {w : World} {k : Nat} {content : Content}

theorem weaken (h : Holds (a + b) w) : Holds a w where
  object := h.object
  keys := by
    have hkeys := h.keys
    rw [Prod.fst_add, Multiset.map_add] at hkeys
    exact (Multiset.nodup_add.1 hkeys).1
  counts c hc := h.counts c (Multiset.mem_add.2 (Or.inl hc))
  cells p hp := h.cells p (Multiset.mem_add.2 (Or.inl hp))

theorem lt_size {a : Addr} {c : Cell} (h : w.heap.cell? a = some c) : a < w.heap.cells.size :=
  (Array.getElem?_eq_some_iff.1 h).1

/-- A new cell stays as it is. -/
theorem alloc (h : Holds a w) (c : Cell) :
    Holds (a + (0, {(w.heap.cells.size, c)})) { w with heap := (w.heap.alloc c).2 } := by
  obtain ⟨ms, hcell, hkeys⟩ := h.object
  have hold : ∀ {b : Addr} {d : Cell}, w.heap.cell? b = some d → (w.heap.alloc c).2.cell? b = some d :=
    fun hb => by rw [Heap.cell?_alloc_of_lt (lt_size hb), hb]
  have hmembers : (w.heap.alloc c).2.membersAt 0 = w.heap.membersAt 0 := by
    rw [Heap.membersAt, Heap.membersAt, hold hcell, hcell]
  refine ⟨⟨ms, hold hcell, hkeys⟩, ?_, ?_, ?_⟩
  · simpa using h.keys
  · intro d hd
    rw [hmembers]
    exact h.counts d (by simpa using hd)
  · intro p hp
    rcases Multiset.mem_add.1 hp with hp | hp
    · obtain ⟨hne, hp⟩ := h.cells p hp
      exact ⟨hne, hold hp⟩
    · obtain rfl := Multiset.mem_singleton.1 hp
      exact ⟨Nat.ne_of_gt (lt_size hcell), Heap.cell?_alloc_self _ _⟩

/-- A number is written under a key by who owns it. -/
theorem write {key : String} {x : Int} (h : Holds (({(key, x)}, 0) + f) w) (hkey : key = "a" ∨ key = "b")
    (y : Int) :
    Holds (({(key, y)}, 0) + f) { w with heap := w.heap.putMember 0 key (.int y) } := by
  obtain ⟨ms, hcell, hkeys⟩ := h.object
  have hwritten : (w.heap.putMember 0 key (.int y)).cell? 0 = some (.dict (Members.put key (.int y) ms)) := by
    rw [Heap.putMember, Heap.cell?_write, Heap.membersAt, hcell]
    simp [lt_size hcell]
  have hmembers : (w.heap.putMember 0 key (.int y)).membersAt 0 = Members.put key (.int y) ms := by
    rw [Heap.membersAt, hwritten]
  have hbefore : w.heap.membersAt 0 = ms := by
    rw [Heap.membersAt, hcell]
  refine ⟨⟨_, hwritten, fun other ha hb => ?_⟩, ?_, ?_, ?_⟩
  · have hne : other ≠ key := by
      rintro rfl
      exact hkey.elim ha hb
    rw [Members.get?_put, if_neg hne]
    exact hkeys other ha hb
  · simpa using h.keys
  · intro c hc
    rw [hmembers, Members.get?_put]
    rcases Multiset.mem_add.1 hc with hc | hc
    · obtain rfl := Multiset.mem_singleton.1 hc
      rw [if_pos rfl]
    · -- nobody else owns the key
      have hnodup := h.keys
      rw [Prod.fst_add, Multiset.map_add] at hnodup
      have hdisjoint := (Multiset.nodup_add.1 hnodup).2.2
      have hne : c.1 ≠ key := by
        intro heq
        refine Multiset.disjoint_left.1 hdisjoint ?_ (Multiset.mem_map_of_mem Prod.fst hc)
        simp [heq]
      have hcount := h.counts c (Multiset.mem_add.2 (Or.inr hc))
      rw [if_neg hne, ← hbefore, hcount]
  · intro p hp
    obtain ⟨hne, hp⟩ := h.cells p (by simpa using hp)
    refine ⟨hne, ?_⟩
    rw [Heap.putMember, Heap.cell?_write]
    simp [Ne.symm hne, hp]

/-- What is owned by a sub-run is a number. -/
theorem exists_count (h : Holds (own k content + f) w) :
    ∃ x, content (name k) = some (.int x) ∧ own k content = ({(name k, x)}, 0) := by
  unfold own at h ⊢
  split
  · next x hx => exact ⟨x, hx, rfl⟩
  · next hnot =>
    exfalso
    split at h
    · next x hx => exact hnot x hx
    · exact (h.cells (0, .list []) (by simp)).1 rfl

end Holds

variable {m : Type → Type u} [Performs World m]

/-- A visit finds the number under the key in its parameters, gives way before and after, and writes the next. -/
def visit (way : m Unit) (scene : Scene) : m Datum := do
  let params ← Performs.perform (Act.reads fun w : World => w.heap.membersAt scene.params)
  let key := match Members.get? params "key" with
    | some (.str key) => key
    | _ => ""
  way
  let found ← Performs.perform (Act.reads fun w : World => scene.shared.get? w.heap key)
  way
  match found with
  | some (.int x) => do
    Performs.perform (World.onShared (scene.shared.set key (.int (x + 1))))
    pure (if x = 0 then .str "more" else .null)
  | _ => pure .null

variable {ρ : Type} [Settling World ρ m] {way : m Unit} {f : Own} {w : World} {H : History Event}

/-- Where others may go on, and all that is owned stays as it is. -/
def GivesWay (ρ : Type) {m : Type → Type u} [Performs World m] [Settling World ρ m] (way : m Unit) : Prop :=
  ∀ (H : History Event) (own f : Own) w, Holds (own + f) w →
    Settling.Settles ρ World.chronicle Holds H w f way fun H' r w' f' => H' = H ∧ r = .ok () ∧ Holds (own + f') w'

theorem settles_way (hway : GivesWay ρ way) {β : Type} {own : Own} {F : Unit → m β} {Q : Ending World Own Event β}
    (hown : Holds (own + f) w)
    (hF : ∀ w f, Holds (own + f) w → Settling.Settles ρ World.chronicle Holds H w f (F ()) Q) :
    Settling.Settles ρ World.chronicle Holds H w f (way >>= F) Q := by
  refine Settling.bind (hway H own f w hown) ?_ ?_
  · rintro H' a w' f' ⟨rfl, -, hown'⟩
    exact hF w' f' hown'
  · rintro H' e w' f' ⟨-, he, -⟩
    cases he

theorem name_cases (k : Nat) : name k = "a" ∨ name k = "b" := by
  unfold name
  by_cases hk : k = 0 <;> simp [hk]

/-- A visit does to the number of its sub-run what it is to do. -/
theorem settles_visit (hway : GivesWay ρ way) {k i a : Nat} {content : Content} {deed : Deed}
    (hdoes : does k i content deed) (hown : Holds (deal.inside k a content + f) w) :
    Settling.Settles ρ World.chronicle Holds H w f (visit way ⟨scene.shared, a⟩)
      (Does Holds (deal.inside k a) deed H) := by
  obtain ⟨-, -, x, hx, rfl⟩ := hdoes
  have hinside : deal.inside k a content = ({(name k, x)}, 0) + (0, {(a, .dict (paramsOf k))}) := by
    change own k content + _ = _
    rw [own, hx]
  have hinside' : deal.inside k a (Function.update content (name k) (some (.int (x + 1)))) =
      ({(name k, x + 1)}, 0) + (0, {(a, .dict (paramsOf k))}) := by
    change own k _ + _ = _
    rw [own, Function.update_self]
  rw [hinside] at hown
  have hparams : w.heap.membersAt a = paramsOf k := by
    rw [Heap.membersAt, (hown.cells (a, .dict (paramsOf k)) (by simp)).2]
  have hread : (Act.reads fun w : World => w.heap.membersAt a) w = (.ok (paramsOf k), w) :=
    congrArg (fun ms => (Except.ok ms, w)) hparams
  refine settles_after_silent ρ hread rfl ?_
  refine settles_way hway hown fun w f hown => ?_
  have hfound : scene.shared.get? w.heap (name k) = some (.int x) := hown.counts (name k, x) (by simp)
  have hlook : (Act.reads fun w : World => scene.shared.get? w.heap (name k)) w = (.ok (some (.int x)), w) :=
    congrArg (fun d => (Except.ok d, w)) hfound
  refine settles_after_silent ρ hlook rfl ?_
  refine settles_way hway hown fun w f hown => ?_
  rw [add_assoc] at hown
  have hwritten := hown.write (name_cases k) (x + 1)
  rw [← add_assoc, ← hinside'] at hwritten
  have hwrites : World.onShared (scene.shared.set (name k) (.int (x + 1))) w =
      (.ok (), { w with heap := w.heap.putMember 0 (name k) (.int (x + 1)) }) := rfl
  refine settles_after_silent ρ hwrites rfl ?_
  refine Settling.pure (ρ := ρ) ⟨_, [], rfl, (History.add_nil _).symm, ?_, rfl, hwritten⟩
  unfold labelOf
  by_cases hzero : x = 0 <;> simp [hzero] <;> rfl

/-- A node that is visited again as long as its label says so. -/
def node (conduct : Conduct) : Node := ⟨"tally", "Node", [], "", [("more", 0)], 1, .standard, conduct⟩

/-- Visits that give way to others. -/
def waiting : Graph := [node (.cooperative (visit (Coop.turns 1)))]

/-- Visits that do not. -/
def blocking : Graph := [node (.blocking (visit (pure ())))]

/-- A flow over the batch that is there; somebody is told whenever a node has ended. -/
def flow : Flow m := ⟨⟨"Flow", some 0, .null, [(.nodeEnd, ⟨0, "ear", false⟩)]⟩, fun _ => pure (.ref 4), fun _ _ _ => pure .null⟩

/-- Both keys are there, and the batch. -/
def world : World :=
  ⟨⟨#[.dict [("a", .int 0), ("b", .int 0)], .dict [], .dict (paramsOf 0), .dict (paramsOf 1), .list [.ref 2, .ref 3]], 1⟩,
    .ofLimit none, #[], .none, []⟩

/-- What is told of a sub-run: two visits, the first of which says that there is more. -/
def trail : List Ended := [⟨"ear", "tally", .str "more"⟩, ⟨"ear", "tally", .null⟩]

/-- What is under the keys after a sub-run. -/
def counted (k : Nat) : Content :=
  Function.update (Function.update (both 0) (name k) (some (.int 1))) (name k) (some (.int 2))

theorem tours {g : Graph} {conduct : Conduct} (hnode : g[0]? = some (node conduct)) :
    g.Tours (flow : Flow m).toFlowPlan none does 3 0 2 (both 0) (fun _ => trail) counted := by
  intro k hk
  have hstart : both 0 (name k) = some (.int 0) := if_pos (name_cases k)
  have hallows : ∀ step, Graph.Allows none step := fun step j hj => nomatch hj
  refine ⟨2, by omega, ?_⟩
  have hone : does k 0 (both 0) ⟨.str "more", Function.update (both 0) (name k) (some (.int 1)), []⟩ :=
    ⟨hk, rfl, 0, hstart, rfl⟩
  have htwo : does k 0 (Function.update (both 0) (name k) (some (.int 1))) ⟨.null, counted k, []⟩ :=
    ⟨hk, rfl, 1, Function.update_self .., rfl⟩
  exact .goes hnode (hallows 0) hone rfl (.stops hnode (hallows 1) htwo rfl)

/-- The elements of the batch can be had, and their parameters. -/
theorem given (h : Holds (kept + f) w) :
    Elements.of (.ref 4) w = (.ok (.live 4), w) ∧ (Elements.live 4).all w = (.ok [.ref 2, .ref 3], w) ∧
      ∀ i d, [Datum.ref 2, .ref 3][i]? = some d → Flow.overlaid scene d w = (.ok (paramsOf i), w) := by
  have hcells : ∀ p ∈ kept.2, w.heap.cell? p.1 = some p.2 := fun p hp =>
    (h.cells p (Multiset.mem_add.2 (Or.inl hp))).2
  have hlist : w.heap.cell? 4 = some (.list [.ref 2, .ref 3]) :=
    hcells (4, .list [.ref 2, .ref 3]) (by simp [kept])
  have hbase : w.heap.cell? 1 = some (.dict []) := hcells (1, .dict []) (by simp [kept])
  have hview : w.heap.view (.ref 4) =
      .list (some 4) ([.ref 2, .ref 3].map (w.heap.viewWithin w.heap.cells.size [4])) := Heap.view_list hlist
  refine ⟨?_, ?_, fun i d hd => ?_⟩
  · have hread : World.view (.ref 4) w = (.ok (w.heap.view (.ref 4)), w) := rfl
    unfold Elements.of
    change Act.bind (World.view (.ref 4)) _ w = _
    rw [Act.bind, hread, hview]
    rfl
  · change (Except.ok (w.heap.itemsAt 4), w) = _
    rw [Heap.itemsAt, hlist]
  · have helement : ∀ b k, w.heap.cell? b = some (.dict (paramsOf k)) →
        Flow.overlaid scene (.ref b) w = (.ok (paramsOf k), w) := by
      intro b k hb
      have hnone : w.heap.membersAt scene.params = [] := by
        change w.heap.membersAt 1 = []
        rw [Heap.membersAt, hbase]
      have hsome : w.heap.membersAt b = paramsOf k := by
        rw [Heap.membersAt, hb]
      unfold Flow.overlaid
      rw [Heap.view_dict hb]
      dsimp only
      rw [hnone, hsome]
      rfl
    obtain rfl | rfl : i = 0 ∨ i = 1 := by
      have hlt := (List.getElem?_eq_some_iff.1 hd).1
      simp only [List.length_cons, List.length_nil] at hlt
      omega
    · obtain rfl := Option.some.inj hd
      exact helement 2 0 (hcells (2, .dict (paramsOf 0)) (by simp [kept]))
    · obtain rfl := Option.some.inj hd
      exact helement 3 1 (hcells (3, .dict (paramsOf 1)) (by simp [kept]))

/-- What is dealt out is sound. -/
theorem sound (hway : GivesWay ρ way) {visit' : Scene → Nat → m Datum}
    (hvisit : ∀ scene, visit' scene 0 = visit way scene) :
    deal.Sound ρ Holds scene whose does (both 0) visit' (.ref 4) 2 where
  given := by
    refine ⟨.live 4, [.ref 2, .ref 3], rfl, fun f w hown => ?_⟩
    obtain ⟨helements, hall, hoverlaid⟩ := Tally.given hown
    exact ⟨helements, hall, fun i d hd => ⟨_, hoverlaid i d hd, rfl⟩⟩
  others f w key hown hkey := by
    obtain ⟨ms, hcell, hkeys⟩ := hown.object
    have hnot : ¬ (key = "a" ∨ key = "b") := by
      rintro (rfl | rfl) <;> cases hkey
    have hget : scene.shared.get? w.heap key = none := by
      change Members.get? (w.heap.membersAt 0) key = none
      rw [Heap.membersAt, hcell]
      exact hkeys key (fun h => hnot (Or.inl h)) fun h => hnot (Or.inr h)
    rw [Shared.contentIn, hget, both, if_neg hnot]
    rfl
  content k c f w key hown hkey := by
    have hname : key = name k := by
      unfold whose at hkey
      split at hkey
      · next ha => exact Option.some.inj hkey ▸ ha
      · split at hkey
        · next hb => exact Option.some.inj hkey ▸ hb
        · cases hkey
    obtain ⟨x, hx, hsame⟩ := Holds.exists_count hown
    have hown' : Holds (({(name k, x)}, 0) + f) w := hsame ▸ hown
    have hget : scene.shared.get? w.heap (name k) = some (.int x) := hown'.counts (name k, x) (by simp)
    rw [hname, hx, Shared.contentIn, hget]
    rfl
  enters k c f w ms hsuits hown := by
    obtain rfl := hsuits
    have halloc := hown.alloc (.dict (paramsOf k))
    rw [add_right_comm] at halloc
    exact halloc
  leaves k a c f w hown := by
    have hleft : Holds (own k c + f + (0, {(a, .dict (paramsOf k))})) w := by
      rwa [add_right_comm]
    exact hleft.weaken
  visits k a i c deed H w f hdoes hown := by
    obtain rfl := hdoes.2.1
    rw [hvisit]
    exact settles_visit hway hdoes hown

theorem givesWay_turn : GivesWay Datum (Coop.turns 1 : Coop World Datum Unit) :=
  fun _ own _ _ h => .turn own h (.rest fun _ _ h' => .done ⟨rfl, rfl, h'⟩)

theorem givesWay_none : GivesWay Datum (pure () : Act World Unit) :=
  fun _ _ _ _ h => Settling.pure (ρ := Datum) ⟨rfl, rfl, h⟩

/-- The flow prepares the batch that is there. -/
theorem settles_prepared (hway : GivesWay ρ way) {visit' : Scene → Nat → m Datum}
    (hvisit : ∀ scene, visit' scene 0 = visit way scene)
    (hown : Holds (kept + ∑ k ∈ range 2, own k (both 0) + f) w) :
    Settling.Settles ρ World.chronicle Holds .empty w f ((flow : Flow m).prepared scene)
      (Dealt ρ Holds scene whose does (both 0) visit' 2 []) := by
  have hlist : w.heap.cell? 4 = some (.list [.ref 2, .ref 3]) :=
    (hown.weaken.weaken.cells (4, .list [.ref 2, .ref 3]) (by simp [kept])).2
  have hview : w.heap.view (.ref 4) =
      .list (some 4) ([.ref 2, .ref 3].map (w.heap.viewWithin w.heap.cells.size [4])) := Heap.view_list hlist
  have hbatch : Flow.batchOf (.ref 4) w = (.ok (.ref 4), w) := by
    have hread : World.view (.ref 4) w = (.ok (w.heap.view (.ref 4)), w) := rfl
    unfold Flow.batchOf
    change Act.bind (World.view (.ref 4)) _ w = _
    rw [Act.bind, hread, hview]
    rfl
  refine Settling.bind (Settling.pure (ρ := ρ) (Q := fun H r u g => H = .empty ∧ r = .ok (.ref 4) ∧ u = w ∧ g = f)
    ⟨rfl, rfl, rfl, rfl⟩) ?_ ?_
  · rintro H d u g ⟨rfl, hd, rfl, rfl⟩
    obtain rfl := Except.ok.inj hd
    exact settles_silent ρ hbatch rfl ⟨rfl, .ref 4, deal, rfl, sound hway hvisit, hown⟩
  · rintro H e u g ⟨-, he, -⟩
    cases he

theorem holds_world : Holds (kept + ∑ k ∈ range 2, own k (both 0)) world where
  object := by
    refine ⟨[("a", .int 0), ("b", .int 0)], rfl, fun key ha hb => ?_⟩
    rw [Members.get?_cons, Members.get?_cons, if_neg ha, if_neg hb]
    rfl
  keys := by decide
  counts c hc := by
    have hmem : c = ("a", 0) ∨ c = ("b", 0) := by simpa [Finset.sum_range_succ, own, kept, both, name] using hc
    rcases hmem with rfl | rfl <;> rfl
  cells p hp := by
    have hmem : p ∈ kept.2 := by simpa [Finset.sum_range_succ, own, kept, both, name] using hp
    simp only [kept, Multiset.insert_eq_cons, Multiset.mem_cons, Multiset.mem_singleton] at hmem
    rcases hmem with rfl | rfl | rfl | rfl <;> exact ⟨by decide, rfl⟩

/-- Both have counted to two. -/
theorem merged_counted : merged whose (both 0) counted = both 2 := by
  have hcounted : ∀ k, counted k (name k) = some (.int 2) := fun k => Function.update_self ..
  funext key
  unfold merged whose
  by_cases ha : key = "a"
  · simpa [ha, both, name] using hcounted 0
  · by_cases hb : key = "b"
    · simpa [hb, both, name] using hcounted 1
    · simp [ha, hb, both]

/-- Both sub-runs count to two, and give way to each other between what they find and what they write. -/
theorem sub_runs_independent_of_order_tally :
    (Moment.start ((flow : Flow (Coop World Datum)).runTogether waiting (waiting.visitWaiting 3) 3 scene)
      world).Eventually World.chronicle
      (fun t m => EndedWith scene .null (both 2) [] t m ∧ SubRunsEnded 2 (fun _ => trail) t m) [] := by
  rw [← merged_counted]
  have hover : OverlooksJournal Holds := fun _ _ _ _ h => ⟨h.object, h.keys, h.counts, h.cells⟩
  have hwhose : ∀ key k, whose key = some k → k < 2 := by
    intro key k hk
    unfold whose at hk
    split at hk
    · obtain rfl := Option.some.inj hk
      omega
    · split at hk
      · obtain rfl := Option.some.inj hk
        omega
      · cases hk
  have hwaiting : ∀ scene, waiting.visitWaiting 3 scene 0 = visit (Coop.turns 1) scene := fun _ => rfl
  have hblocking : ∀ scene, blocking.visit 3 scene 0 = visit (pure ()) scene := fun _ => rfl
  have hlimit : (flow : Flow (Coop World Datum)).limit = limitValue none := rfl
  have hplan : (flow : Flow (Coop World Datum)).toFlowPlan = (flow : Flow (Coop World Datum)).toFlowPlan := rfl
  have hplan' : (flow : Flow (Act World)).toFlowPlan = (flow : Flow (Coop World Datum)).toFlowPlan := rfl
  have hprep : ∀ w f, Holds (kept + ∑ k ∈ range 2, own k (both 0) + f) w →
      Coop.Settles World.chronicle Holds .none .empty (.moving w f) (flow.prepared scene)
        (Dealt Datum Holds scene whose does (both 0) (waiting.visitWaiting 3) 2 []) :=
    fun w f h => settles_prepared (m := Coop World Datum) givesWay_turn hwaiting h
  have hprep' : ∀ w f, Holds (kept + ∑ k ∈ range 2, own k (both 0) + f) w →
      Act.Settles World.chronicle .empty w f (flow.prepared scene)
        (Dealt Datum Holds scene whose does (both 0) (blocking.visit 3) 2 []) :=
    fun w f h => settles_prepared (m := Act World) givesWay_none hblocking h
  refine ((sub_runs_independent_of_order hover hlimit rfl hplan hplan' (tours rfl) (tours rfl) hwhose (by omega)
    hprep hprep hprep' holds_world).2 .null _).1 ?_
  exact fun batch H w f h => .done ⟨rfl, h, [], (History.add_nil _).symm, rfl⟩

end Tally

end NodeFlow
