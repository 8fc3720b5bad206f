import NodeFlow.Proofs.Run.Settle
import NodeFlow.Run.Node
import NodeFlow.Run.World
/-!
# The journal as a record

What a step of a run puts on record is what it adds to the journal, oldest first. Nothing on the journal is
ever taken back. Where a step leaves a wait behind, others may go on before the one who waits.

One work after another, or all at once. Each takes what it needs out of what is owned together and leaves
something in its place, and what is kept aside stays. So it does not matter for what each of them comes to
whether they are done in turn or together, nor in which order.
-/

set_option autoImplicit false

universe u

namespace NodeFlow

/-! ## 1. The journal -/

namespace World

variable {w w' w'' : World}

/-- What has been added to the journal from one state to another, oldest first. -/
def added (w w' : World) : List Event := (w'.journal.take (w'.journal.length - w.journal.length)).reverse

theorem added_eq {es : List Event} (h : w'.journal = es.reverse ++ w.journal) : added w w' = es := by
  have hlength : w'.journal.length - w.journal.length = es.reverse.length := by
    rw [h, List.length_append, Nat.add_sub_cancel]
  rw [added, hlength, h, List.take_left, List.reverse_reverse]

theorem journal_eq (h : w.journal <:+ w'.journal) : w'.journal = (added w w').reverse ++ w.journal := by
  obtain ⟨new, hnew⟩ := h
  have hadded : added w w' = new.reverse := added_eq (by rw [List.reverse_reverse, hnew])
  rw [hadded, List.reverse_reverse, hnew]

/-- How runs are looked at. -/
def chronicle : Chronicle World Event where
  record := added
  grows w w' := w.journal <:+ w'.journal
  rests w w' := ∃ seconds, w'.journal = .wait seconds :: w.journal
  grows_refl w := List.suffix_refl _
  record_refl w := added_eq rfl
  grows_trans h h' := h.trans h'
  record_trans h h' := by
    refine added_eq ?_
    rw [journal_eq h', journal_eq h]
    simp

theorem grows_of_journal {es : List Event} (h : w'.journal = es.reverse ++ w.journal) : chronicle.grows w w' :=
  ⟨es.reverse, h.symm⟩

theorem record_of_journal {es : List Event} (h : w'.journal = es.reverse ++ w.journal) :
    chronicle.record w w' = es := added_eq h

/-- Where no wait is left behind nobody is put off. -/
theorem not_rests_of_journal {es : List Event} (h : w'.journal = es.reverse ++ w.journal)
    (hes : ∀ seconds, es ≠ [.wait seconds]) : ¬ chronicle.rests w w' := by
  rintro ⟨seconds, hwait⟩
  refine hes seconds ?_
  rw [h, ← List.singleton_append, List.append_left_inj] at hwait
  rw [← List.reverse_reverse es, hwait]
  rfl

end World

section

variable {ρ α μ : Type} {m : Type → Type u} [Performs World m] [Settling World ρ m] [AddCommMonoid μ]
  {holds : μ → World → Prop} {H : History Event} {w w' : World} {f : μ} {x : Act World α}
  {r : Except Failure α} {Q : Ending World μ Event α}

/-- An action that puts something on the journal is performed. If it leaves a wait behind, it has to be said
what is owned meanwhile. -/
theorem settles_performed (ρ : Type) [Settling World ρ m] {es : List Event} (hx : x w = (r, w'))
    (hjournal : w'.journal = es.reverse ++ w.journal) (hQ : Q (H.add es) r w' f)
    (hrests : ∀ seconds, es = [.wait seconds] → ∃ own, holds (own + f) w' ∧
      ∀ u g, holds (own + g) u → Q (H.add es) r u g) :
    Settling.Settles ρ World.chronicle holds H w f (Performs.perform x : m α) Q := by
  have hrecord := World.record_of_journal hjournal
  refine Settling.perform (ρ := ρ) ?_ ?_ ?_
  · rw [hx]
    exact World.grows_of_journal hjournal
  · rw [hx, hrecord]
    exact hQ
  · rw [hx, hrecord]
    intro hrest
    by_cases hwait : ∃ seconds, es = [.wait seconds]
    · obtain ⟨seconds, hes⟩ := hwait
      exact hrests seconds hes
    · exact absurd hrest (World.not_rests_of_journal hjournal fun seconds hes => hwait ⟨seconds, hes⟩)

/-- An action that puts nothing on the journal is performed. -/
theorem settles_silent (ρ : Type) [Settling World ρ m] (hx : x w = (r, w')) (hjournal : w'.journal = w.journal)
    (hQ : Q H r w' f) : Settling.Settles ρ World.chronicle holds H w f (Performs.perform x : m α) Q := by
  have hnone : w'.journal = ([] : List Event).reverse ++ w.journal := hjournal
  refine settles_performed ρ hx hnone ?_ fun seconds hes => nomatch hes
  rwa [History.add_nil]

/-- An action is performed that has a result and leaves no wait behind, and then it goes on. -/
theorem settles_after (ρ : Type) [Settling World ρ m] {β : Type} {a : α} {es : List Event} {F : α → m β}
    {Q : Ending World μ Event β} (hx : x w = (.ok a, w')) (hjournal : w'.journal = es.reverse ++ w.journal)
    (hes : ∀ seconds, es ≠ [.wait seconds])
    (hF : Settling.Settles ρ World.chronicle holds (H.add es) w' f (F a) Q) :
    Settling.Settles ρ World.chronicle holds H w f (Performs.perform x >>= F) Q := by
  refine Settling.bind (P := fun H' r u g => H' = H.add es ∧ r = .ok a ∧ g = f ∧ u = w')
    (settles_performed ρ hx hjournal ⟨rfl, rfl, rfl, rfl⟩ fun seconds h => absurd h (hes seconds)) ?_ ?_
  · rintro H' b u g ⟨rfl, hb, rfl, rfl⟩
    obtain rfl := Except.ok.inj hb
    exact hF
  · rintro H' e u g ⟨-, hr, -⟩
    cases hr

/-- The same for an action that puts nothing on the journal. -/
theorem settles_after_silent (ρ : Type) [Settling World ρ m] {β : Type} {a : α} {F : α → m β}
    {Q : Ending World μ Event β} (hx : x w = (.ok a, w')) (hjournal : w'.journal = w.journal)
    (hF : Settling.Settles ρ World.chronicle holds H w' f (F a) Q) :
    Settling.Settles ρ World.chronicle holds H w f (Performs.perform x >>= F) Q := by
  have hnone : w'.journal = ([] : List Event).reverse ++ w.journal := hjournal
  refine settles_after ρ hx hnone nofun ?_
  rwa [History.add_nil]

end

open Finset

variable {μ β γ : Type} [AddCommMonoid μ] {holds : μ → World → Prop} {H : History Event} {w : World}
  {f kept : μ} {bs : List β}

/-! ## 2. In turn -/

section

variable {ρ : Type} {m : Type → Type u} [Performs World m] [Settling World ρ m] {work : β → m γ}

/-- Works have come to something each: so many results, with what each has put on record and has left. -/
structure Worked (holds : μ → World → Prop) (kept : μ) (ends : Nat → List Event → γ → μ → Prop) (n : Nat)
    (results : List γ) (records : Nat → List Event) (owns : Nat → μ) (w : World) (f : μ) : Prop where
  length : results.length = n
  ends : ∀ i a, results[i]? = some a → ends i (records i) a (owns i)
  holds : holds (kept + ∑ i ∈ range n, owns i + f) w

/-- One work that comes to something. -/
def Comes (holds : μ → World → Prop) (H : History Event) (ends : List Event → γ → μ → Prop) :
    Ending World μ Event γ := fun H' r w f =>
  ∃ a es own, r = .ok a ∧ H' = H.add es ∧ ends es a own ∧ holds (own + f) w

/-- What is at the first place, and what comes at the places after it. -/
def atFirst {α : Type} (a : α) (rest : Nat → α) : Nat → α
  | 0 => a
  | i + 1 => rest i

theorem flatMap_atFirst (es : List Event) (records : Nat → List Event) (n : Nat) :
    (List.range (n + 1)).flatMap (atFirst es records) = es ++ (List.range n).flatMap records := by
  rw [List.range_succ_eq_map, List.flatMap_cons, List.flatMap_map]
  rfl

theorem sum_atFirst (own : μ) (owns : Nat → μ) (n : Nat) :
    ∑ i ∈ range (n + 1), atFirst own owns i = own + ∑ i ∈ range n, owns i := by
  rw [Finset.sum_range_succ', add_comm]
  rfl

theorem worked_nil {ends : Nat → List Event → γ → μ → Prop} (h : holds (kept + f) w) :
    Worked holds kept ends 0 [] (fun _ => []) (fun _ => 0) w f where
  length := rfl
  ends := nofun
  holds := by rwa [Finset.range_zero, Finset.sum_empty, add_zero]

/-- The work at a place has come to something, and then the works at the places after it have, while what it has
left is kept as well. -/
theorem Worked.cons {ends : Nat → List Event → γ → μ → Prop} {i n : Nat} {a : γ} {es : List Event} {done own : μ}
    {results : List γ} {records : Nat → List Event} {owns : Nat → μ} (hends : ends i es a own)
    (h : Worked holds (kept + (done + own)) (fun j => ends (i + 1 + j)) n results records owns w f) :
    Worked holds (kept + done) (fun j => ends (i + j)) (n + 1) (a :: results) (atFirst es records)
      (atFirst own owns) w f where
  length := congrArg (· + 1) h.length
  ends j d hd := by
    cases j with
    | zero =>
      obtain rfl := Option.some.inj hd
      exact hends
    | succ j =>
      rw [← Nat.add_assoc, Nat.add_right_comm]
      exact h.ends j d hd
  holds := by
    rw [sum_atFirst]
    simpa only [add_assoc] using h.holds

/-- What the works from a place on need: what the work at that place needs, and what is kept for later. -/
theorem sum_need (need : Nat → μ) (i n : Nat) :
    ∑ j ∈ range (n + 1), need (i + j) = need i + ∑ j ∈ range n, need (i + 1 + j) := by
  rw [Finset.sum_range_succ', add_comm, Nat.add_zero]
  exact congrArg _ (Finset.sum_congr rfl fun j _ => by rw [← Nat.add_assoc, Nat.add_right_comm])

/-- Works on the elements from a place on, one after another, after something has been done. What is kept can be
relied on all the time. -/
theorem settles_eachFrom_after {need : Nat → μ} {ends : Nat → List Event → γ → μ → Prop}
    (hwork : ∀ i b H w f, bs[i]? = some b → holds (need i + (kept + f)) w →
      Settling.Settles ρ World.chronicle holds H w (kept + f) (work b) (Comes holds H (ends i)))
    {next : Nat → Act World (Option β)} (hnext : ∀ f w i, holds (kept + f) w → next i w = (.ok bs[i]?, w))
    (done : μ) (rest : List β) (fuel i : Nat) (hrest : bs.drop i = rest) (hfuel : rest.length < fuel)
    (hown : holds (kept + done + ∑ j ∈ range rest.length, need (i + j) + f) w) :
    Settling.Settles ρ World.chronicle holds H w f (eachFrom next work fuel i)
      fun H' r w' f' => ∃ results records owns, r = .ok results ∧
        H' = H.add ((List.range rest.length).flatMap records) ∧
        Worked holds (kept + done) (fun j => ends (i + j)) rest.length results records owns w' f' := by
  -- on the elements that are left; what the works so far have left is kept in `done`
  induction rest generalizing fuel i H w f done with
  | nil =>
    obtain ⟨fuel, rfl⟩ := Nat.exists_eq_add_one_of_ne_zero (Nat.ne_of_gt hfuel)
    have hnone : bs[i]? = none := by
      rw [List.getElem?_eq_none_iff]
      exact List.drop_eq_nil_iff.1 hrest
    rw [List.length_nil, Finset.range_zero, Finset.sum_empty, add_zero] at hown
    have hread : next i w = (.ok none, w) := by
      rw [hnext (done + f) w i (by rwa [← add_assoc]), hnone]
    rw [eachFrom]
    refine settles_after_silent ρ hread rfl ?_
    exact Settling.pure (ρ := ρ) ⟨[], fun _ => [], fun _ => 0, rfl, (History.add_nil _).symm, worked_nil hown⟩
  | cons b rest ih =>
    obtain ⟨fuel, rfl⟩ := Nat.exists_eq_add_one_of_ne_zero (Nat.ne_of_gt (Nat.zero_lt_of_lt hfuel))
    have hsome : bs[i]? = some b := by
      have hhead := List.head?_drop (l := bs) (i := i)
      rw [hrest] at hhead
      exact hhead.symm
    have hlater : bs.drop (i + 1) = rest := by
      rw [← List.tail_drop, hrest, List.tail_cons]
    rw [List.length_cons, sum_need] at hown
    set later : μ := ∑ j ∈ range rest.length, need (i + 1 + j)
    have hnow : holds (need i + (kept + (done + later + f))) w := by
      rw [add_left_comm, add_assoc] at hown
      simpa only [add_assoc] using hown
    have hread : next i w = (.ok (some b), w) := by
      rw [hnext (need i + (done + later + f)) w i (by rwa [add_left_comm]), hsome]
    rw [eachFrom]
    refine settles_after_silent ρ hread rfl ?_
    have hwork' := hwork i b H w _ hsome hnow
    rw [← add_assoc kept] at hwork'
    refine Settling.bind (Settling.frame hwork') ?_ ?_
    · rintro H'' a w'' f'' ⟨c, es, own, hc, rfl, hends, hown'⟩
      obtain rfl := Except.ok.inj hc
      have hkept : holds (kept + (done + own) + later + f'') w'' := by
        have hsame : kept + (done + own) + later + f'' = own + (kept + (done + later) + f'') := by
          rw [add_comm done own]
          simp only [← add_assoc]
          rw [add_comm kept own]
        rwa [hsame]
      refine Settling.bind (ih (done + own) fuel (i + 1) hlater (Nat.lt_of_succ_lt_succ hfuel) hkept) ?_ ?_
      · rintro H r w f ⟨results, records, owns, hr, rfl, hworked⟩
        obtain rfl := Except.ok.inj hr
        refine Settling.pure (ρ := ρ) ⟨a :: r, atFirst es records, atFirst own owns, rfl, ?_, .cons hends hworked⟩
        rw [List.length_cons, flatMap_atFirst, History.add_add]
      · rintro H e w f ⟨results, records, owns, hr, -⟩
        cases hr
    · rintro H'' e w'' f'' ⟨c, es, own, hc, -⟩
      cases hc

/-- Works on all elements one after another. -/
theorem settles_eachFrom {need : Nat → μ} {ends : Nat → List Event → γ → μ → Prop}
    (hwork : ∀ i b H w f, bs[i]? = some b → holds (need i + (kept + f)) w →
      Settling.Settles ρ World.chronicle holds H w (kept + f) (work b) (Comes holds H (ends i)))
    {next : Nat → Act World (Option β)} (hnext : ∀ f w i, holds (kept + f) w → next i w = (.ok bs[i]?, w))
    {fuel : Nat} (hfuel : bs.length < fuel) (hown : holds (kept + ∑ i ∈ range bs.length, need i + f) w) :
    Settling.Settles ρ World.chronicle holds H w f (eachFrom next work fuel 0)
      fun H' r w' f' => ∃ results records owns, r = .ok results ∧
        H' = H.add ((List.range bs.length).flatMap records) ∧
        Worked holds kept ends bs.length results records owns w' f' := by
  have hplaces : ∀ j, 0 + j = j := Nat.zero_add
  have hall := settles_eachFrom_after (ρ := ρ) (H := H) hwork hnext 0 bs fuel 0 rfl hfuel
    (by simpa only [hplaces, add_zero] using hown)
  simpa only [hplaces, add_zero] using hall

end

/-! ## 3. All at once -/

variable {ρ : Type} {parts : List (Coop World ρ ρ)}

/-- Works on all parts at once. If all have a result, so has the whole, and it is known what each of them has put
on record; else it fails as one of them. -/
theorem settles_together {need : Nat → μ} {ends : Nat → List Event → Except Failure ρ → μ → Prop}
    (hparts : ∀ i p w f, parts[i]? = some p → holds (need i + f) w →
      p.Settles World.chronicle holds .none .empty (.moving w f) (Leaving holds fun H r own => ends i H.own r own))
    (hown : holds (kept + ∑ i ∈ range parts.length, need i + f) w) :
    Coop.Settles World.chronicle holds .none H (.moving w f) (Coop.together parts) fun H' r w' f' =>
      match r with
      | .ok results => ∃ g records owns, H' = H.join g parts.length records ∧
          Worked holds kept (fun i es a own => ends i es (.ok a) own) parts.length results records owns w' f'
      | .error e => H' = H ∧ holds (kept + f') w' ∧ ∃ i es own, i < parts.length ∧ ends i es (.error e) own := by
  refine .gather kept need (fun i H r own => ends i H.own r own) hown ?_ ?_ ?_
  · exact fun i p hp => .rest fun w f hw => hparts i p w f hp hw
  · intro g rs hs owns hlen hends
    refine .rest fun w' f' hw' => .done ⟨g, fun i => (hs i).own, owns, rfl, hlen, hends, hw'⟩
  · intro i H' e own hi hends
    exact .rest fun w' f' hw' => .done ⟨rfl, hw', i, H'.own, own, hi, hends⟩

/-! ## 4. The course of a visit -/

variable {α : Type}

/-- What a cooperative visit goes on to when it has prepared and worked. -/
theorem settles_course {prep : Coop World Datum α} {work : α → Coop World Datum Datum}
    {post : α → Datum → Coop World Datum Datum} {aim : Aim World Datum μ Event} {own : μ}
    {P : Ending World μ Event α} {Q : Ending World μ Event Datum}
    (hprep : ∀ w f, holds (own + f) w → prep.Settles World.chronicle holds .none .empty (.moving w f) P)
    (hwork : ∀ H a w f, P H (.ok a) w f →
      (work a >>= post a).Settles World.chronicle holds aim H (.moving w f) Q)
    (hfails : ∀ H e w f, P H (.error e) w f → Q H (.error e) w f) :
    (course prep work post).Settles World.chronicle holds aim .empty (.resting own) Q :=
  .bind (.rest hprep) hwork hfails

omit [AddCommMonoid μ] in
/-- A visit at once goes on to finish when it has prepared and worked. -/
theorem course_at_once {prep : Act World α} (work : α → Act World Datum) (post : α → Datum → Act World Datum)
    {P : Ending World μ Event α} {Q : Ending World μ Event Datum}
    (hprep : prep.Settles World.chronicle H w f P) (hprepared : ∀ H e w f, ¬ P H (.error e) w f)
    (hwork : ∀ H a w f, P H (.ok a) w f → (work a).Settles World.chronicle H w f Q)
    (hworked : ∀ H e w f, ¬ Q H (.error e) w f) :
    ∃ a d w', course prep work post w = post a d w' ∧ Q (H.add (World.added w w')) (.ok d) w' f := by
  obtain ⟨hgrows, hP⟩ := hprep
  rcases hp : prep w with ⟨r, u⟩
  rw [hp] at hgrows hP
  cases r with
  | error e => exact absurd hP (hprepared _ _ _ _)
  | ok a =>
    obtain ⟨hgrows', hQ⟩ := hwork _ _ _ _ hP
    rcases hw : work a u with ⟨r, w'⟩
    rw [hw] at hgrows' hQ
    cases r with
    | error e => exact absurd hQ (hworked _ _ _ _)
    | ok d =>
      refine ⟨a, d, w', ?_, ?_⟩
      · unfold course
        change Act.bind prep (fun a => Act.bind (work a) (post a)) w = _
        rw [Act.bind, hp]
        dsimp only
        rw [Act.bind, hw]
      · have hrecord := World.chronicle.record_trans hgrows hgrows'
        rw [History.add_add, ← hrecord] at hQ
        exact hQ

end NodeFlow
