import Mathlib.Algebra.Group.PUnit
import Mathlib.Algebra.Order.PUnit
import NodeFlow.Proofs.Run.Attempts
import NodeFlow.Proofs.Run.Custody
import NodeFlow.Proofs.Run.Journey
import NodeFlow.Proofs.Run.Journal
/-!
# Work on many elements

A node that works on all its elements at once comes to the same list as one that works on them in turn,
whoever of them goes on first: each result is at the place of its element, and each element has the attempts
and waits of its own script. The node finishes only after all of them have ended. If one fails for good, it
does not finish at all.

Nothing is said here of how elements depend on each other, for they do not: what an attempt needs it owns, and
all that is shared is where the node remembers the number of its attempt.
-/

set_option autoImplicit false

universe u

namespace NodeFlow

open Finset

/-! ## 1. Lists of results -/

/-- A cell is a list whose elements show values. -/
def Heap.Lists (h : Heap) (l : Addr) (vs : List Value) : Prop :=
  ∃ ds, h.cell? l = some (.list ds) ∧ List.Forall₂ h.Shows ds vs

/-- An element returns a value in the end. -/
def Attempts.Returns {μ β : Type} (c : β → Attempts μ) (policy : RetryPolicy) (b : β) (v : Value) : Prop :=
  ((c b).worked policy).result = .ok v

section

variable {ρ μ α β : Type} [AddCommMonoid μ] {m : Type → Type u} [Performs World m] [Settling World ρ m]
  {holds : μ → World → Prop} {node : Nat} {policy : RetryPolicy} {c : β → Attempts μ} {H : History Event}
  {w : World} {f : μ} {bs : List β} {vs : List Value}

theorem Stands.add {own : μ} {d : Datum} {v : Value} (h : Stands holds own d v) (more : μ) :
    Stands holds (own + more) d v := by
  intro f w hown
  rw [add_assoc] at hown
  exact h (more + f) w hown

theorem Stands.add_left {own : μ} {d : Datum} {v : Value} (h : Stands holds own d v) (more : μ) :
    Stands holds (more + own) d v := add_comm own more ▸ h.add more

/-- A list is made of results. -/
theorem settles_listed (hover : Overlooks holds node) {own : μ} {ds : List Datum}
    (hstands : List.Forall₂ (Stands holds own) ds vs) (hown : holds (own + f) w) :
    Settling.Settles ρ World.chronicle holds H w f (Performs.perform (World.alloc (.list ds)) : m Datum)
      fun H' r w' f' => H' = H ∧ holds (own + f') w' ∧ ∃ l, r = .ok (.ref l) ∧ w'.heap.Lists l vs := by
  have hown' := hover.alloc _ w (.list ds) hown
  refine settles_silent ρ rfl rfl ⟨rfl, hown', _, rfl, ds, Heap.cell?_alloc_self _ _, ?_⟩
  exact hstands.imp fun d v hd => hd f _ hown'

/-! ## 2. Each at its place -/

/-- What the element at a place needs at first. -/
def needAt (c : β → Attempts μ) (bs : List β) (i : Nat) : μ := (bs[i]?.map fun b => (c b).need 1).getD 0

/-- What the element at a place puts on record. -/
def recordAt (c : β → Attempts μ) (policy : RetryPolicy) (bs : List β) (i : Nat) : List Event :=
  (bs[i]?.map fun b => ((c b).worked policy).record).getD []

/-- How the element at a place is to end. -/
def EndsAt (holds : μ → World → Prop) (c : β → Attempts μ) (policy : RetryPolicy) (bs : List β) (i : Nat)
    (es : List Event) (r : Except Failure Datum) (own : μ) : Prop :=
  es = recordAt c policy bs i ∧ ∃ b, bs[i]? = some b ∧ Matches holds own r ((c b).worked policy).result

/-- All that the elements put on record, one after another. -/
def records (c : β → Attempts μ) (policy : RetryPolicy) (bs : List β) : List Event :=
  bs.flatMap fun b => ((c b).worked policy).record

omit [AddCommMonoid μ] in
theorem flatMap_recordAt (c : β → Attempts μ) (policy : RetryPolicy) (bs : List β) :
    (List.range bs.length).flatMap (recordAt c policy bs) = records c policy bs := by
  induction bs with
  | nil => rfl
  | cons b bs ih =>
    rw [List.length_cons, List.range_succ_eq_map, List.flatMap_cons, List.flatMap_map, records,
      List.flatMap_cons, ← records, ← ih]
    rfl

/-- What all elements have returned, in their order. -/
theorem exists_returned {rs : List Datum} {es : Nat → List Event} {owns : Nat → μ}
    (hlen : rs.length = bs.length)
    (hends : ∀ (i : Nat) (r : Datum), rs[i]? = some r → EndsAt holds c policy bs i (es i) (.ok r) (owns i)) :
    ∃ vs, List.Forall₂ (Attempts.Returns c policy) bs vs ∧
      List.Forall₂ (Stands holds (∑ i ∈ range bs.length, owns i)) rs vs := by
  induction bs generalizing rs es owns with
  | nil =>
    rw [List.length_nil, List.length_eq_zero_iff] at hlen
    subst hlen
    exact ⟨[], .nil, .nil⟩
  | cons b bs ih =>
    cases rs with
    | nil => cases hlen
    | cons r rs =>
      have hlater : ∀ (i : Nat) (r : Datum), rs[i]? = some r →
          EndsAt holds c policy bs i (es (i + 1)) (.ok r) (owns (i + 1)) := fun i r hr => hends (i + 1) r hr
      obtain ⟨vs, hreturns, hstands⟩ := ih (Nat.succ.inj hlen) hlater
      obtain ⟨-, b', hb, hmatches⟩ := hends 0 r rfl
      obtain rfl := Option.some.inj hb
      cases hresult : ((c b).worked policy).result with
      | error e =>
        rw [hresult] at hmatches
        exact hmatches.elim
      | ok v =>
        rw [hresult] at hmatches
        rw [List.length_cons, Finset.sum_range_succ']
        refine ⟨v :: vs, .cons hresult hreturns, .cons (Stands.add_left hmatches _) ?_⟩
        exact hstands.imp fun _ _ h => h.add (owns 0)

omit [AddCommMonoid μ] in
theorem Attempts.returns_unique {vs' : List Value} (h : List.Forall₂ (Attempts.Returns c policy) bs vs)
    (h' : List.Forall₂ (Attempts.Returns c policy) bs vs') : vs' = vs := by
  induction h generalizing vs' with
  | nil =>
    cases h'
    rfl
  | cons hv _ ih =>
    cases h' with
    | cons hv' hvs' =>
      obtain rfl := Except.ok.inj (Eq.trans (Eq.symm hv') hv)
      rw [ih hvs']

omit [AddCommMonoid μ] in
/-- Where all return, none fails. -/
theorem Attempts.returns_not_error (h : List.Forall₂ (Attempts.Returns c policy) bs vs) {b : β} (hb : b ∈ bs)
    (e : Failure) : ((c b).worked policy).result ≠ .error e := by
  obtain ⟨i, hlt, rfl⟩ := List.getElem_of_mem hb
  have hreturn : ((c bs[i]).worked policy).result = _ := h.get hlt (h.length_eq ▸ hlt)
  rw [hreturn]
  nofun

/-- Whoever fails has failed for good. -/
theorem EndsAt.fails {i : Nat} {es : List Event} {e : Failure} {own : μ}
    (h : EndsAt holds c policy bs i es (.error e) own) : ∃ b ∈ bs, ((c b).worked policy).result = .error e := by
  obtain ⟨-, b, hb, hmatches⟩ := h
  refine ⟨b, List.mem_of_getElem? hb, ?_⟩
  cases hresult : ((c b).worked policy).result with
  | ok v =>
    rw [hresult] at hmatches
    exact hmatches.elim
  | error e' =>
    rw [hresult] at hmatches
    exact congrArg Except.error (Eq.symm hmatches)

/-- The work on the element at a place ends as it is to. -/
theorem settles_workAt {s : Stages m α β}
    (hfollows : ∀ b ∈ bs, Follows ρ holds node (s.exec b) (s.fallback b) (c b)) (hover : Overlooks holds node)
    {i : Nat} {b : β} (hb : bs[i]? = some b) (hown : holds (needAt c bs i + f) w) :
    Settling.Settles ρ World.chronicle holds H w f (s.work policy node b)
      (Leaving holds fun H' r own => ∃ es, H' = H.add es ∧ EndsAt holds c policy bs i es r own) := by
  rw [needAt, hb] at hown
  refine Settling.mono ((hfollows b (List.mem_of_getElem? hb)).settles_working hover hown) ?_
  rintro H' r w' f' ⟨own, hown', rfl, hmatches⟩
  refine ⟨own, hown', _, rfl, ?_, b, hb, hmatches⟩
  rw [recordAt, hb]
  rfl

/-- Where all are to return, the work on each comes to a result. -/
theorem settles_returning {s : Stages m α β}
    (hfollows : ∀ b ∈ bs, Follows ρ holds node (s.exec b) (s.fallback b) (c b)) (hover : Overlooks holds node)
    (hreturns : List.Forall₂ (Attempts.Returns c policy) bs vs) {i : Nat} {b : β} (hb : bs[i]? = some b)
    (hown : holds (needAt c bs i + f) w) :
    Settling.Settles ρ World.chronicle holds H w f (s.work policy node b)
      (Comes holds H fun es d own => EndsAt holds c policy bs i es (.ok d) own) := by
  refine Settling.mono (settles_workAt hfollows hover hb hown) ?_
  rintro H' r w' f' ⟨own, hown', es, rfl, hends⟩
  cases r with
  | ok d => exact ⟨d, es, own, rfl, rfl, hends, hown'⟩
  | error e =>
    obtain ⟨b', hb', hresult⟩ := hends.fails
    exact absurd hresult (Attempts.returns_not_error hreturns hb' e)

/-! ## 3. The work of a batch -/

/-- What a batch is about to do: it has something of which the elements can be had for as long as something is
kept, and all that they need. -/
def Prepared (holds : μ → World → Prop) (c : β → Attempts μ) (bs : List β) (before : List Event)
    (gives : α → μ → Prop) : Ending World μ Event α := fun H r w f =>
  H = History.empty.add before ∧ ∃ a kept, r = .ok a ∧ gives a kept ∧
    holds (kept + ∑ i ∈ range bs.length, needAt c bs i + f) w

/-- The elements can be had one after another. -/
def GivesInTurn (holds : μ → World → Prop) (bs : List β)
    (elements : α → Act World (Nat → Act World (Option β))) (a : α) (kept : μ) : Prop :=
  ∃ next, (∀ f w, holds (kept + f) w → elements a w = (.ok next, w)) ∧
    ∀ f w i, holds (kept + f) w → next i w = (.ok bs[i]?, w)

/-- The elements can be had at once. -/
def GivesAll (holds : μ → World → Prop) (bs : List β) (elements : α → Act World (List β)) (a : α) (kept : μ) :
    Prop :=
  ∀ f w, holds (kept + f) w → elements a w = (.ok bs, w)

/-- The work of a batch in turn. -/
theorem settles_batch {s : Stages m α β}
    (hfollows : ∀ b ∈ bs, Follows ρ holds node (s.exec b) (s.fallback b) (c b)) (hover : Overlooks holds node)
    {elements : α → Act World (Nat → Act World (Option β))} {a : α} {kept : μ}
    (hgives : GivesInTurn holds bs elements a kept) {bound : Nat} (hbound : bs.length < bound)
    (hreturns : List.Forall₂ (Attempts.Returns c policy) bs vs)
    (hown : holds (kept + ∑ i ∈ range bs.length, needAt c bs i + f) w) :
    Settling.Settles ρ World.chronicle holds H w f
      (do
        let next ← Performs.perform (elements a)
        let results ← eachFrom next (s.work policy node) bound 0
        Performs.perform (World.alloc (.list results)) : m Datum)
      fun H' r w' _ => H' = H.add (records c policy bs) ∧ ∃ l, r = .ok (.ref l) ∧ w'.heap.Lists l vs := by
  obtain ⟨next, helements, hnext⟩ := hgives
  have hready : holds (kept + (∑ i ∈ range bs.length, needAt c bs i + f)) w := by
    rwa [← add_assoc]
  refine settles_after_silent ρ (helements _ w hready) rfl ?_
  refine Settling.bind (settles_eachFrom (ρ := ρ) (H := H)
    (fun i b H w f hb hneed => settles_returning hfollows hover hreturns hb hneed) hnext hbound hown) ?_ ?_
  · rintro H' r w' f' ⟨results, es, owns, hr, rfl, hlength, hends, hown'⟩
    obtain rfl := Except.ok.inj hr
    obtain ⟨vs', hreturns', hstands⟩ := exists_returned hlength hends
    obtain rfl := Attempts.returns_unique hreturns hreturns'
    have hall := hstands.imp fun _ _ h => Stands.add_left h kept
    have hrecords : (List.range bs.length).flatMap es = records c policy bs := by
      rw [← flatMap_recordAt]
      refine List.flatMap_congr fun i hi => ?_
      have hlt : i < r.length := hlength ▸ List.mem_range.1 hi
      exact (hends i _ (List.getElem?_eq_getElem hlt)).1
    refine Settling.mono (settles_listed hover hall hown') ?_
    rintro H r w f ⟨rfl, -, l, rfl, hlists⟩
    exact ⟨congrArg _ hrecords, l, rfl, hlists⟩
  · rintro H' e w' f' ⟨results, es, owns, hr, -⟩
    cases hr

end

section

variable {μ α β : Type} [AddCommMonoid μ] {holds : μ → World → Prop} {node : Nat} {policy : RetryPolicy}
  {c : β → Attempts μ} {H : History Event} {w : World} {f : μ} {bs : List β} {vs : List Value}
  {s : Stages (Coop World Datum) α β}

/-- How work on all elements at once ends: all have returned, and their results are listed in their order; or
one has failed for good. -/
def TogetherEnds (c : β → Attempts μ) (policy : RetryPolicy) (bs : List β) (H : History Event) :
    Ending World μ Event Datum := fun H' r w _ =>
  match r with
  | .ok d => ∃ g l vs, d = .ref l ∧ H' = H.join g bs.length (recordAt c policy bs) ∧
      List.Forall₂ (Attempts.Returns c policy) bs vs ∧ w.heap.Lists l vs
  | .error e => H' = H ∧ ∃ b ∈ bs, ((c b).worked policy).result = .error e

theorem History.join_congr {H : History Event} {g n : Nat} {es es' : Nat → List Event}
    (h : ∀ i < n, es i = es' i) : H.join g n es = H.join g n es' := by
  unfold join
  congr 2
  exact List.map_congr_left fun i hi => congrArg (Owner.member g i, ·) (h i (List.mem_range.1 hi))

/-- Each part does the work on the element at its place. -/
theorem settles_part (hfollows : ∀ b ∈ bs, Follows Datum holds node (s.exec b) (s.fallback b) (c b))
    (hover : Overlooks holds node) {i : Nat} {p : Coop World Datum Datum}
    (hp : (bs.map (s.work policy node))[i]? = some p) (hneed : holds (needAt c bs i + f) w) :
    p.Settles World.chronicle holds .none .empty (.moving w f)
      (Leaving holds fun H r own => EndsAt holds c policy bs i H.own r own) := by
  rw [List.getElem?_map, Option.map_eq_some_iff] at hp
  obtain ⟨b, hb, rfl⟩ := hp
  refine Coop.Settles.mono (settles_workAt (m := Coop World Datum) hfollows hover hb hneed) ?_
  rintro H r w f ⟨own, hown', es, rfl, hends⟩
  exact ⟨own, hown', hends⟩

/-- The work of a batch on all elements at once. -/
theorem settles_batch_together
    (hfollows : ∀ b ∈ bs, Follows Datum holds node (s.exec b) (s.fallback b) (c b))
    (hover : Overlooks holds node)
    {elements : α → Act World (List β)} {a : α} {kept : μ} (hgives : GivesAll holds bs elements a kept)
    (hown : holds (kept + ∑ i ∈ range bs.length, needAt c bs i + f) w) :
    Coop.Settles World.chronicle holds .none H (.moving w f)
      (do
        let items ← Coop.ofAct (elements a)
        let results ← Coop.together (items.map (s.work policy node))
        Coop.ofAct (World.alloc (.list results)))
      (TogetherEnds c policy bs H) := by
  have hready : holds (kept + (∑ i ∈ range bs.length, needAt c bs i + f)) w := by
    rwa [← add_assoc]
  have hread : Coop.Settles World.chronicle holds .none H (.moving w f)
      (Coop.ofAct (elements a) : Coop World Datum (List β))
      fun H' r w' f' => H' = H ∧ r = .ok bs ∧ f' = f ∧ w' = w :=
    settles_silent (m := Coop World Datum) Datum (hgives _ w hready) rfl ⟨rfl, rfl, rfl, rfl⟩
  refine hread.bind ?_ ?_
  · rintro H' items w' f' ⟨rfl, hitems, rfl, rfl⟩
    obtain rfl := Except.ok.inj hitems
    have hlength : (items.map (s.work policy node)).length = items.length := List.length_map _
    have hgather := settles_together (H := H') (fun i p w f hp hneed => settles_part hfollows hover hp hneed)
      (by rwa [hlength])
    rw [hlength] at hgather
    refine hgather.bind ?_ ?_
    · rintro H'' ds w'' f'' ⟨g, es, owns, rfl, hlen, hends, hown''⟩
      obtain ⟨vs, hreturns, hstands⟩ := exists_returned hlen hends
      have hrecords : H'.join g items.length es = H'.join g items.length (recordAt c policy items) := by
        refine History.join_congr fun i hi => ?_
        exact (hends i _ (List.getElem?_eq_getElem (hlen ▸ hi))).1
      have hall := hstands.imp fun _ _ h => Stands.add_left h kept
      have hlist := settles_listed (m := Coop World Datum) (ρ := Datum) (H := H'.join g items.length es)
        hover hall hown''
      refine Coop.Settles.mono hlist ?_
      rintro H r w f ⟨rfl, -, l, rfl, hlists⟩
      exact ⟨g, l, vs, rfl, hrecords, hreturns, hlists⟩
    · rintro H'' e w'' f'' ⟨rfl, -, i, es, own, -, hends⟩
      exact ⟨rfl, hends.fails⟩
  · rintro H' e w' f' ⟨-, hr, -⟩
    cases hr

/-! ## 4. The whole visit -/

/-- The root is about to finish with a list of values. -/
def Finishing (s : Stages (Coop World Datum) α β) (vs : List Value) (own : List Event) (t : Trace Event)
    (m : Moment World Datum) : Prop :=
  ∃ a l, m.now = some (.root, s.post a (.ref l)) ∧ m.pool.state.heap.Lists l vs ∧ t.own .root = own

/-- All elements have ended, each with the record of its own script. -/
def AllEnded (c : β → Attempts μ) (policy : RetryPolicy) (bs : List β) (t : Trace Event)
    (m : Moment World Datum) : Prop :=
  ∃ g, ∀ i b, bs[i]? = some b → m.Idle (.member g i) ∧ t.own (.member g i) = ((c b).worked policy).record

/-- The root has failed as one of the elements, and has not finished. -/
def FailedAsOne (c : β → Attempts μ) (policy : RetryPolicy) (bs : List β) (own : List Event) (t : Trace Event)
    (m : Moment World Datum) : Prop :=
  ∃ b ∈ bs, ∃ e, ((c b).worked policy).result = .error e ∧ m.pool.result = some (.error e) ∧ t.own .root = own

variable {before : List Event} {own : μ} {elements : α → Act World (List β)}
  {elementAt : α → Act World (Nat → Act World (Option β))}

/-- A node that works on all elements at once goes on with their results once all have ended, or fails as one of
them. -/
theorem settles_visit {aim : Aim World Datum μ Event} {Q : Ending World μ Event Datum}
    (hfollows : ∀ b ∈ bs, Follows Datum holds node (s.exec b) (s.fallback b) (c b))
    (hover : Overlooks holds node)
    (hprep : ∀ w f, holds (own + f) w → s.prep.Settles World.chronicle holds .none .empty (.moving w f)
      (Prepared holds c bs before (GivesAll holds bs elements)))
    (hpost : ∀ a g l vs w f, List.Forall₂ (Attempts.Returns c policy) bs vs → w.heap.Lists l vs →
      (s.post a (.ref l)).Settles World.chronicle holds aim
        ((History.empty.add before).join g bs.length (recordAt c policy bs)) (.moving w f) Q)
    (hfails : ∀ b e w f, b ∈ bs → ((c b).worked policy).result = .error e →
      Q (History.empty.add before) (.error e) w f) :
    (s.together policy node elements).Settles World.chronicle holds aim .empty (.resting own) Q := by
  refine settles_course hprep ?_ ?_
  · rintro H a w f ⟨rfl, a', kept, ha, hgives, hready⟩
    obtain rfl := Except.ok.inj ha
    refine (settles_batch_together hfollows hover hgives hready).bind ?_ ?_
    · rintro H d w f ⟨g, l, vs, rfl, rfl, hreturns, hlists⟩
      exact hpost a g l vs w f hreturns hlists
    · rintro H e w f ⟨rfl, b, hb, hfailed⟩
      exact hfails b e w f hb hfailed
  · rintro H e w f ⟨-, a, kept, ha, -⟩
    cases ha

omit [AddCommMonoid μ] in
/-- The history of the root is true where all elements have ended. -/
theorem allEnded_of_isTrue {t : Trace Event} {m : Moment World Datum} {H : History Event} (g : Nat)
    (h : H.IsTrue t m .root) (hended : ∀ i < bs.length, (.member g i, recordAt c policy bs i) ∈ H.ended) :
    AllEnded c policy bs t m := by
  refine ⟨g, fun i b hb => ?_⟩
  have hlt := (List.getElem?_eq_some_iff.1 hb).1
  obtain ⟨hown, hidle⟩ := h.ended _ (hended i hlt)
  refine ⟨hidle, hown.symm.trans ?_⟩
  dsimp only
  rw [recordAt, hb]
  rfl

/-- If all elements return, such a node finishes with their results in every order, after all of them have
ended. -/
theorem together_finishes
    (hfollows : ∀ b ∈ bs, Follows Datum holds node (s.exec b) (s.fallback b) (c b))
    (hover : Overlooks holds node)
    (hprep : ∀ w f, holds (own + f) w → s.prep.Settles World.chronicle holds .none .empty (.moving w f)
      (Prepared holds c bs before (GivesAll holds bs elements)))
    (hreturns : List.Forall₂ (Attempts.Returns c policy) bs vs) (hown : holds own w) :
    (Moment.start (s.together policy node elements) w).Eventually World.chronicle
      (fun t m => Finishing s vs before t m ∧ AllEnded c policy bs t m) [] := by
  let aim : Aim World Datum μ Event := fun H w _ x =>
    ∃ a g l, x = s.post a (.ref l) ∧ w.heap.Lists l vs ∧
      H = (History.empty.add before).join g bs.length (recordAt c policy bs)
  have hsettles : (s.together policy node elements).Settles World.chronicle holds aim .empty (.resting own)
      fun _ _ _ _ => False := by
    refine settles_visit hfollows hover hprep (fun a g l vs' w f hreturns' hlists => ?_)
      fun b e w f hb hfailed => Attempts.returns_not_error hreturns hb e hfailed
    obtain rfl := Attempts.returns_unique hreturns hreturns'
    exact .aim ⟨a, g, l, rfl, hlists, rfl⟩
  refine (hsettles.eventually hown).mono fun t m h => ?_
  rcases h with ⟨x, H, f, hnow, ⟨a, g, l, rfl, hlists, rfl⟩, htrue⟩ | ⟨r, H, f, -, hfalse, -⟩
  · refine ⟨⟨a, l, hnow, hlists, htrue.own.symm⟩, allEnded_of_isTrue g htrue fun i hi => ?_⟩
    exact History.mem_ended_join.2 (Or.inr ⟨i, hi, rfl⟩)
  · exact hfalse.elim

/-- If all elements return and finishing comes to something whatever it finishes with, then the node finishes
once: its own record has what it has put there before, and that of finishing. -/
theorem together_finishes_once {after : List Event} {label : Datum}
    (hfollows : ∀ b ∈ bs, Follows Datum holds node (s.exec b) (s.fallback b) (c b))
    (hover : Overlooks holds node)
    (hprep : ∀ w f, holds (own + f) w → s.prep.Settles World.chronicle holds .none .empty (.moving w f)
      (Prepared holds c bs before (GivesAll holds bs elements)))
    (hpost : ∀ a l H w f, (s.post a (.ref l)).Settles World.chronicle holds .none H (.moving w f)
      fun H' r _ _ => H' = H.add after ∧ r = .ok label)
    (hreturns : List.Forall₂ (Attempts.Returns c policy) bs vs) (hown : holds own w) :
    (Moment.start (s.together policy node elements) w).Eventually World.chronicle
      (fun t m => m.pool.result = some (.ok label) ∧ t.own .root = before ++ after ∧
        AllEnded c policy bs t m) [] := by
  have hsettles : (s.together policy node elements).Settles World.chronicle holds .none .empty (.resting own)
      fun H r _ _ => r = .ok label ∧ ∃ g,
        H = ((History.empty.add before).join g bs.length (recordAt c policy bs)).add after := by
    refine settles_visit hfollows hover hprep (fun a g l vs' w f _ _ => ?_)
      fun b e w f hb hfailed => absurd hfailed (Attempts.returns_not_error hreturns hb e)
    refine (hpost a l _ w f).mono ?_
    rintro H r w f ⟨rfl, rfl⟩
    exact ⟨rfl, g, rfl⟩
  refine (hsettles.eventually hown).mono fun t m h => ?_
  rcases h with ⟨x, H, f, -, hfalse, -⟩ | ⟨r, H, f, hr, ⟨rfl, g, rfl⟩, htrue⟩
  · exact hfalse.elim
  · refine ⟨hr, htrue.own.symm, allEnded_of_isTrue g htrue fun i hi => ?_⟩
    exact History.mem_ended_join.2 (Or.inr ⟨i, hi, rfl⟩)

/-- If an element fails for good, such a node fails as one that does, in every order, and does not finish. -/
theorem together_fails
    (hfollows : ∀ b ∈ bs, Follows Datum holds node (s.exec b) (s.fallback b) (c b))
    (hover : Overlooks holds node)
    (hprep : ∀ w f, holds (own + f) w → s.prep.Settles World.chronicle holds .none .empty (.moving w f)
      (Prepared holds c bs before (GivesAll holds bs elements)))
    (hfails : ∃ b ∈ bs, ∃ e, ((c b).worked policy).result = .error e) (hown : holds own w) :
    (Moment.start (s.together policy node elements) w).Eventually World.chronicle
      (FailedAsOne c policy bs before) [] := by
  obtain ⟨b₀, hb₀, e₀, hfailed₀⟩ := hfails
  have hsettles : (s.together policy node elements).Settles World.chronicle holds .none .empty (.resting own)
      fun H r _ _ => H.own = before ∧ ∃ e, r = .error e ∧ ∃ b ∈ bs, ((c b).worked policy).result = .error e := by
    refine settles_visit hfollows hover hprep (fun a g l vs w f hreturns _ => ?_)
      fun b e w f hb hfailed => ⟨rfl, e, rfl, b, hb, hfailed⟩
    exact absurd hfailed₀ (Attempts.returns_not_error hreturns hb₀ e₀)
  refine (hsettles.eventually hown).mono fun t m h => ?_
  rcases h with ⟨x, H, f, -, hfalse, -⟩ | ⟨r, H, f, hr, ⟨hbefore, e, rfl, b, hb, hfailed⟩, htrue⟩
  · exact hfalse.elim
  · exact ⟨b, hb, e, hfailed, hr, htrue.own.symm.trans hbefore⟩

/-- A cooperative node that works in turn finishes with the same list, and all the records one after
another. -/
theorem inTurn_finishes
    (hfollows : ∀ b ∈ bs, Follows Datum holds node (s.exec b) (s.fallback b) (c b)) (hover : Overlooks holds node)
    (hprep : ∀ w f, holds (own + f) w → s.prep.Settles World.chronicle holds .none .empty (.moving w f)
      (Prepared holds c bs before (GivesInTurn holds bs elementAt)))
    (hreturns : List.Forall₂ (Attempts.Returns c policy) bs vs) {bound : Nat} (hbound : bs.length < bound)
    (hown : holds own w) :
    (Moment.start (s.inTurn policy node bound elementAt) w).Eventually World.chronicle
      (Finishing s vs (before ++ records c policy bs)) [] := by
  let aim : Aim World Datum μ Event := fun H w _ x =>
    ∃ a l, x = s.post a (.ref l) ∧ w.heap.Lists l vs ∧ H.own = before ++ records c policy bs
  have hsettles : (s.inTurn policy node bound elementAt).Settles World.chronicle holds aim .empty (.resting own)
      fun _ _ _ _ => False := by
    refine settles_course hprep ?_ ?_
    · rintro H a w f ⟨rfl, a', kept, ha, hgives, hready⟩
      obtain rfl := Except.ok.inj ha
      have hwork := settles_batch (m := Coop World Datum) (H := History.empty.add before)
        hfollows hover hgives hbound hreturns hready
      refine Coop.Settles.bind hwork ?_ ?_
      · rintro H d w f ⟨rfl, l, hd, hlists⟩
        obtain rfl := Except.ok.inj hd
        exact .aim ⟨a, l, rfl, hlists, rfl⟩
      · rintro H e w f ⟨-, l, he, -⟩
        cases he
    · rintro H e w f ⟨-, a, kept, ha, -⟩
      cases ha
  refine (hsettles.eventually hown).mono fun t m h => ?_
  rcases h with ⟨x, H, f, hnow, ⟨a, l, rfl, hlists, hrecords⟩, htrue⟩ | ⟨r, H, f, -, hfalse, -⟩
  · exact ⟨a, l, hnow, hlists, htrue.own.symm.trans hrecords⟩
  · exact hfalse.elim

/-- A node that works at once finishes with the same list. -/
theorem inTurn_finishes_at_once {s : Stages (Act World) α β}
    (hfollows : ∀ b ∈ bs, Follows Datum holds node (s.exec b) (s.fallback b) (c b)) (hover : Overlooks holds node)
    (hprep : ∀ w f, holds (own + f) w → s.prep.Settles World.chronicle .empty w f
      (Prepared holds c bs before (GivesInTurn holds bs elementAt)))
    (hreturns : List.Forall₂ (Attempts.Returns c policy) bs vs) {bound : Nat} (hbound : bs.length < bound)
    (hown : holds own w) :
    ∃ a l w', s.inTurn policy node bound elementAt w = s.post a (.ref l) w' ∧ w'.heap.Lists l vs ∧
      World.added w w' = before ++ records c policy bs := by
  rw [← add_zero own] at hown
  let work (a : α) : Act World Datum := do
    let next ← Performs.perform (elementAt a)
    let results ← eachFrom next (s.work policy node) bound 0
    Performs.perform (World.alloc (.list results))
  obtain ⟨a, d, w', hcourse, hrecords, l, hd, hlists⟩ := course_at_once work s.post (hprep w 0 hown)
    (Q := fun H r w' _ => H = (History.empty.add before).add (records c policy bs) ∧
      ∃ l, r = .ok (.ref l) ∧ w'.heap.Lists l vs)
    (by
      rintro H e u f ⟨-, a, kept, ha, -⟩
      cases ha)
    (by
      rintro H a u f ⟨rfl, a', kept, ha, hgives, hready⟩
      obtain rfl := Except.ok.inj ha
      exact settles_batch hfollows hover hgives hbound hreturns hready)
    (by
      rintro H e u f ⟨-, l, he, -⟩
      cases he)
  obtain rfl := Except.ok.inj hd
  exact ⟨a, l, w', hcourse, hlists, congrArg History.own hrecords⟩

/-- The elements can be had both at once and one after another. -/
def GivesBoth (holds : μ → World → Prop) (bs : List β) (elements : α → Act World (List β))
    (elementAt : α → Act World (Nat → Act World (Option β))) (a : α) (kept : μ) : Prop :=
  GivesAll holds bs elements a kept ∧ GivesInTurn holds bs elementAt a kept

/-- **Work on many elements does not depend on who of them goes on first.** Let each element have a script of
its attempts. If all return, a node that works on them at once comes in every order to finish with all values
at the places of their elements, when each has ended with the attempts and waits of its own script; it finishes
once, and nodes that work in turn finish with the same values after the same attempts and waits, under any bound
that is beyond their number. If one fails for good, the node fails as one that does and never finishes. -/
theorem work_independent_of_order {s' : Stages (Act World) α β} (hover : Overlooks holds node)
    (hfollows : ∀ b ∈ bs, Follows Datum holds node (s.exec b) (s.fallback b) (c b))
    (hfollows' : ∀ b ∈ bs, Follows Datum holds node (s'.exec b) (s'.fallback b) (c b))
    (hprep : ∀ w f, holds (own + f) w → s.prep.Settles World.chronicle holds .none .empty (.moving w f)
      (Prepared holds c bs before (GivesBoth holds bs elements elementAt)))
    (hprep' : ∀ w f, holds (own + f) w → s'.prep.Settles World.chronicle .empty w f
      (Prepared holds c bs before (GivesBoth holds bs elements elementAt)))
    (hown : holds own w) :
    (∀ vs, List.Forall₂ (Attempts.Returns c policy) bs vs →
      (Moment.start (s.together policy node elements) w).Eventually World.chronicle
        (fun t m => Finishing s vs before t m ∧ AllEnded c policy bs t m) [] ∧
      (∀ after label, (∀ a l H w f, (s.post a (.ref l)).Settles World.chronicle holds .none H (.moving w f)
          fun H' r _ _ => H' = H.add after ∧ r = .ok label) →
        (Moment.start (s.together policy node elements) w).Eventually World.chronicle
          (fun t m => m.pool.result = some (.ok label) ∧ t.own .root = before ++ after ∧
            AllEnded c policy bs t m) []) ∧
      (∀ bound, bs.length < bound →
        (Moment.start (s.inTurn policy node bound elementAt) w).Eventually World.chronicle
          (Finishing s vs (before ++ records c policy bs)) [] ∧
        ∃ a l w', s'.inTurn policy node bound elementAt w = s'.post a (.ref l) w' ∧ w'.heap.Lists l vs ∧
          World.added w w' = before ++ records c policy bs)) ∧
    ((∃ b ∈ bs, ∃ e, ((c b).worked policy).result = .error e) →
      (Moment.start (s.together policy node elements) w).Eventually World.chronicle
        (FailedAsOne c policy bs before) []) := by
  have himp : ∀ H (r : Except Failure α) w f,
      Prepared holds c bs before (GivesBoth holds bs elements elementAt) H r w f →
        Prepared holds c bs before (GivesAll holds bs elements) H r w f ∧
        Prepared holds c bs before (GivesInTurn holds bs elementAt) H r w f := by
    rintro H r w f ⟨rfl, a, kept, rfl, ⟨hall, hturn⟩, hready⟩
    exact ⟨⟨rfl, a, kept, rfl, hall, hready⟩, rfl, a, kept, rfl, hturn, hready⟩
  have hall := fun w f hw => (hprep w f hw).mono fun H r w f h => (himp H r w f h).1
  have hturn := fun w f hw => (hprep w f hw).mono fun H r w f h => (himp H r w f h).2
  have hturn' : ∀ w f, holds (own + f) w → s'.prep.Settles World.chronicle .empty w f
      (Prepared holds c bs before (GivesInTurn holds bs elementAt)) :=
    fun w f hw => ⟨(hprep' w f hw).1, (himp _ _ _ _ (hprep' w f hw).2).2⟩
  refine ⟨fun vs hreturns => ⟨together_finishes hfollows hover hall hreturns hown,
    fun after label hpost => together_finishes_once hfollows hover hall hpost hreturns hown,
    fun bound hbound => ⟨inTurn_finishes hfollows hover hturn hreturns hbound hown,
      inTurn_finishes_at_once hfollows' hover hturn' hreturns hbound hown⟩⟩,
    fun hfails => together_fails hfollows hover hall hfails hown⟩

end

/-! ## 5. A batch that tries again -/

namespace Echo

variable {m : Type → Type u} [Performs World m] {ρ : Type} [Settling World ρ m]

/-- What is owned does not matter as long as the node is there. -/
def Present (_ : Unit) (w : World) : Prop := 0 < w.memory.size

theorem overlooks_present : Overlooks Present 0 where
  there _ _ h := h
  remember _ w k h := by simpa [Present, World.remember, Act.modify] using h
  journal _ _ _ h := h
  alloc _ _ _ h := h

/-- An attempt is put on record, gives way to others, and fails the first time for the number one. -/
def attempt (way : m Unit) (d : Datum) : m Datum := do
  let number ← Performs.perform (σ := World) (Act.reads fun w => (w.memoryOf 0).attempt)
  Performs.perform (World.log (.executed "echo" .null number))
  way
  if d = .int 1 ∧ number = 0 then throw (.reported .value "not yet") else pure d

/-- The stages of a node that answers with its elements. -/
def stages (way : m Unit) : Stages m Unit Datum where
  prep := pure ()
  exec := attempt way
  fallback _ e := throw e
  post _ _ := pure .null

/-- Its elements. -/
def elements : List Datum := [.int 1, .int 2]

/-- The number that an element is. -/
def number : Datum → Value
  | .int n => .int n
  | _ => .null

/-- What its attempts come to. -/
def script (d : Datum) : Attempts Unit where
  attempt k := ⟨[.executed "echo" .null (k - 1)],
    if d = .int 1 ∧ k = 1 then .error (.reported .value "not yet") else .ok (number d)⟩
  standIn e := .silent (.error e)
  need _ := ()

theorem follows {way : m Unit}
    (hway : ∀ (H : History Event) (w : World) (f : Unit), Present f w →
      Settling.Settles ρ World.chronicle Present H w f way fun H' r w' _ => H' = H ∧ r = .ok () ∧ Present () w') :
    ∀ d ∈ elements, Follows ρ Present 0 ((stages way).exec d) ((stages way).fallback d) (script d) := by
  intro d hd
  have hint : ∃ n, d = .int n := by
    rcases List.mem_pair.1 hd with rfl | rfl
    · exact ⟨1, rfl⟩
    · exact ⟨2, rfl⟩
  obtain ⟨n, rfl⟩ := hint
  refine ⟨fun k H w f hk hnumber hpresent => ?_, fun k e H w f hpresent => ?_⟩
  · have hread : (Act.reads fun w : World => (w.memoryOf 0).attempt) w = (.ok (k - 1), w) :=
      congrArg (fun k => (Except.ok k, w)) hnumber
    refine Settling.bind (settles_silent ρ (Q := fun H' r w' _ => H' = H ∧ r = .ok (k - 1) ∧ Present () w')
      hread rfl ⟨rfl, rfl, hpresent⟩) ?_ ?_
    · rintro H' a w' f' ⟨rfl, ha, hpresent'⟩
      obtain rfl := Except.ok.inj ha
      refine Settling.bind (settles_performed ρ (Q := fun H r w _ =>
        H = H'.add [.executed "echo" .null (k - 1)] ∧ r = .ok () ∧ Present () w) rfl rfl
        ⟨rfl, rfl, hpresent'⟩ fun seconds hes => nomatch hes) ?_ ?_
      · rintro H₁ _ w₁ f₁ ⟨rfl, -, hpresent₁⟩
        refine Settling.bind (hway _ w₁ f₁ hpresent₁) ?_ ?_
        · rintro H₂ _ w₂ f₂ ⟨rfl, -, hpresent₂⟩
          by_cases hfirst : Datum.int n = .int 1 ∧ k - 1 = 0
          · have hfirst' : Datum.int n = .int 1 ∧ k = 1 := ⟨hfirst.1, by omega⟩
            rw [if_pos hfirst]
            refine Settling.throw (ρ := ρ) ⟨⟨(), hpresent₂, rfl, ?_⟩, fun _ _ => hpresent₂⟩
            simp [script, hfirst', Matches]
          · have hlater : ¬ (Datum.int n = .int 1 ∧ k = 1) := fun h => hfirst ⟨h.1, by omega⟩
            rw [if_neg hfirst]
            refine Settling.pure (ρ := ρ) ⟨⟨(), hpresent₂, rfl, ?_⟩, fun e he => nomatch he⟩
            simp only [script, hlater, if_false, Matches]
            exact fun f w _ => w.heap.shows_int n
        · rintro H₂ e w₂ f₂ ⟨-, he, -⟩
          cases he
      · rintro H₁ e w₁ f₁ ⟨-, he, -⟩
        cases he
    · rintro H' e w' f' ⟨-, he, -⟩
      cases he
  · exact Settling.throw (ρ := ρ) ⟨(), hpresent, (History.add_nil _).symm, rfl⟩

/-- A node is there, and nothing has happened yet. -/
def world : World := { World.blank with memory := #[.blank] }

/-- Two tries, and a second in between. -/
def policy : RetryPolicy := ⟨.int 2, .int 1, .fixed⟩

theorem returns : List.Forall₂ (Attempts.Returns script policy) elements [.int 1, .int 2] :=
  .cons rfl (.cons rfl .nil)

/-- Both elements give way to each other in every attempt, and the first tries again after a second. -/
theorem work_independent_of_order_echo :
    (Moment.start ((stages (Coop.turns 1)).together policy 0 fun _ => pure elements) world).Eventually
      World.chronicle (fun t m => Finishing (stages (Coop.turns 1)) [.int 1, .int 2] [] t m ∧
        AllEnded script policy elements t m) [] := by
  have hgives : GivesBoth Present elements (fun _ => pure elements)
      (fun _ => pure fun i => pure elements[i]?) () () :=
    ⟨fun _ _ _ => rfl, _, fun _ _ _ => rfl, fun _ _ _ _ => rfl⟩
  have hturn : ∀ (H : History Event) (w : World) (f : Unit), Present f w →
      Settling.Settles Datum World.chronicle Present H w f (Coop.turns 1 : Coop World Datum Unit)
        fun H' r w' _ => H' = H ∧ r = .ok () ∧ Present () w' :=
    fun H w f h => .turn () h (.rest fun _ _ h' => .done ⟨rfl, rfl, h'⟩)
  have hnone : ∀ (H : History Event) (w : World) (f : Unit), Present f w →
      Settling.Settles Datum World.chronicle Present H w f (pure () : Act World Unit)
        fun H' r w' _ => H' = H ∧ r = .ok () ∧ Present () w' :=
    fun H w f h => Settling.pure (ρ := Datum) ⟨rfl, rfl, h⟩
  have hpresent : Present () world := Nat.one_pos
  exact ((work_independent_of_order (s := stages (Coop.turns 1)) overlooks_present (follows hturn)
    (follows hnone)
    (fun w f h => .done ⟨rfl, (), (), rfl, hgives, h⟩)
    (fun w f h => Act.settles_stay ⟨rfl, (), (), rfl, hgives, h⟩) hpresent).1 _ returns).1

end Echo

end NodeFlow
