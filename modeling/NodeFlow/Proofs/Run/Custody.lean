import NodeFlow.Proofs.Run.Owners
import NodeFlow.Proofs.Run.Settle
/-!
# What settles comes to its end in every order

All that is owned is spread over those who have seats, and at any moment each settles what is due from it, out
of what it owns. A step changes this for the one who goes on, and at the ends of groups: what a group has
brought about goes to the one who has waited for it. What is left over from a group that has failed keeps what
it owns and does no harm.

So in every order of a computation that settles there comes a moment when the root is at its aim or has ended
as stated, and then its history is a true one.
-/

set_option autoImplicit false

namespace NodeFlow

open Finset

variable {σ ρ ε μ : Type}

/-- A history is that of someone at a moment: it has all that he has put on record himself, and all that
others had put on record who have ended. -/
structure History.IsTrue (H : History ε) (t : Trace ε) (m : Moment σ ρ) (owner : Owner) : Prop where
  own : H.own = t.own owner
  ended : ∀ e ∈ H.ended, e.2 = t.own e.1 ∧ m.Idle e.1

theorem History.IsTrue.step {C : Chronicle σ ε} {H : History ε} {t u : Trace ε} {m n : Moment σ ρ}
    {owner : Owner} (h : H.IsTrue t m owner) (hstep : m.Step C u n) :
    (H.add (u.own owner)).IsTrue (t ++ u) n owner := by
  refine ⟨?_, fun e he => ?_⟩
  · rw [own_add, h.own, Trace.own_append]
  · obtain ⟨hown, hidle⟩ := h.ended e he
    obtain ⟨hidle', hnone⟩ := hidle.step hstep
    rw [Trace.own_append, hnone, List.append_nil]
    exact ⟨hown, hidle'⟩

/-- Who owns what, what has happened to whom, and how the parts of groups are to end. -/
structure Estate (ρ μ ε : Type) where
  own : Owner → μ
  past : Owner → History ε
  ends : Nat → Nat → History ε → Except Failure ρ → μ → Prop

namespace Estate

/-- Someone owns something else now, and more has happened to him. -/
def put (E : Estate ρ μ ε) (owner : Owner) (own : μ) (past : History ε) : Estate ρ μ ε :=
  { E with own := Function.update E.own owner own, past := Function.update E.past owner past }

/-- A group is made. -/
def opening (E : Estate ρ μ ε) (g : Nat) (owns : Nat → μ)
    (ends : Nat → History ε → Except Failure ρ → μ → Prop) : Estate ρ μ ε where
  own
    | .root => E.own .root
    | .member j i => if j = g then owns i else E.own (.member j i)
  past
    | .root => E.past .root
    | .member j i => if j = g then .empty else E.past (.member j i)
  ends := Function.update E.ends g ends

/-- Someone keeps a part of what he owns, and a group is made that owns the rest of it. -/
def parting (E : Estate ρ μ ε) (owner : Owner) (kept : μ) (g : Nat) (owns : Nat → μ)
    (ends : Nat → History ε → Except Failure ρ → μ → Prop) : Estate ρ μ ε :=
  (E.put owner kept (E.past owner)).opening g owns ends

variable [AddCommMonoid μ]

/-- A group has all its results, and whoever has waited for it owns what its parts have owned. -/
def closing (E : Estate ρ μ ε) (g n : Nat) (owner : Owner) : Estate ρ μ ε :=
  let rest : Estate ρ μ ε := { E with own := fun
    | .root => E.own .root
    | .member j i => if j = g then 0 else E.own (.member j i) }
  rest.put owner (E.own owner + ∑ i ∈ range n, E.own (.member g i))
    ((E.past owner).join g n fun i => (E.past (.member g i)).own)

/-- How someone is to end. -/
def due (E : Estate ρ μ ε) (holds : μ → σ → Prop) (Q : Ending σ μ ε ρ) : Owner → Ending σ μ ε ρ
  | .root => Q
  | .member g i => Leaving holds (E.ends g i)

/-- Only the root has an aim. -/
def aimOf (aim : Aim σ ρ μ ε) : Owner → Aim σ ρ μ ε
  | .root => aim
  | .member _ _ => .none

/-- Someone settles what is due from him. -/
def Settles (C : Chronicle σ ε) (holds : μ → σ → Prop) (aim : Aim σ ρ μ ε) (Q : Ending σ μ ε ρ)
    (E : Estate ρ μ ε) (owner : Owner) (H : History ε) (st : Standing σ μ) (x : Coop σ ρ ρ) : Prop :=
  x.Settles C holds (aimOf aim owner) H st (E.due holds Q owner)

variable (C : Chronicle σ ε) (holds : μ → σ → Prop) (aim : Aim σ ρ μ ε) (Q : Ending σ μ ε ρ)

/-- Whoever waits for an open group is ready for all its results and for a failure of one of its parts. -/
structure Awaits (E : Estate ρ μ ε) (g : Nat) (group : Group σ ρ) : Prop where
  recorded : ∀ (i : Nat) (a : ρ), group.results[i]? = some (some a) →
    E.ends g i (E.past (.member g i)) (.ok a) (E.own (.member g i))
  all : ∀ (rs : List ρ) (hs : Nat → History ε) (bs : Nat → μ), rs.length = group.results.size →
    (∀ (i : Nat) (a : ρ), rs[i]? = some a → E.ends g i (hs i) (.ok a) (bs i)) →
    E.Settles C holds aim Q group.owner
      ((E.past group.owner).join g group.results.size fun i => (hs i).own)
      (.resting (E.own group.owner + ∑ i ∈ range group.results.size, bs i)) (group.resume (.ok rs))
  one : ∀ (i : Nat) (H : History ε) (e : Failure) (b : μ), i < group.results.size →
    E.ends g i H (.error e) b →
    E.Settles C holds aim Q group.owner (E.past group.owner) (.resting (E.own group.owner))
      (group.resume (.error e))

/-- Something ready is about someone who settles what is due from him, or has ended as he was to. -/
def ItemOk (E : Estate ρ μ ε) : Ready σ ρ → Prop
  | .resume owner x => E.Settles C holds aim Q owner (E.past owner) (.resting (E.own owner)) x
  | .report g i r => E.ends g i (E.past (.member g i)) r (E.own (.member g i))

/-- Everyone who is ready, has ended, or waits is as he is to be. -/
structure Suits (E : Estate ρ μ ε) (p : Pool σ ρ) : Prop where
  items : ∀ item ∈ p.queue, E.ItemOk C holds aim Q item
  groups : ∀ (g : Nat) (group : Group σ ρ), p.groups[g]? = some group → group.settled = false →
    E.Awaits C holds aim Q g group

end Estate

/-! ## 1. What does not matter for the others -/

namespace Pool

/-- Someone counts in a pool: he is under way, or his result has been recorded for a group that is open. -/
def Counts (p : Pool σ ρ) (owner : Owner) : Prop :=
  owner ∈ p.active [] ∨ ∃ (g : Nat) (group : Group σ ρ) (i : Nat) (a : ρ), owner = .member g i ∧
    p.groups[g]? = some group ∧ group.settled = false ∧ group.results[i]? = some (some a)

theorem mem_active_of_queue {p : Pool σ ρ} {item : Ready σ ρ} (h : item ∈ p.queue) :
    concerns item ∈ p.active [] := by
  rw [active, census, List.append_nil]
  exact Multiset.mem_add.2 (Or.inl (Multiset.mem_coe.2 (List.mem_map_of_mem h)))

theorem mem_active_of_group {p : Pool σ ρ} {g : Nat} {group : Group σ ρ} (hget : p.groups[g]? = some group)
    (hopen : group.settled = false) : group.owner ∈ p.active [] := by
  rw [← Array.getElem?_toList] at hget
  have hwaits : waiting? group = some group.owner := by
    rw [waiting?, hopen]
    rfl
  refine Multiset.mem_add.2 (Or.inr (Multiset.mem_coe.2 (List.mem_filterMap.2 ⟨group, ?_, hwaits⟩)))
  exact List.mem_of_getElem? hget

end Pool

namespace Estate

variable [AddCommMonoid μ] {C : Chronicle σ ε} {holds : μ → σ → Prop} {aim : Aim σ ρ μ ε} {Q : Ending σ μ ε ρ}
  {E E' : Estate ρ μ ε} {p : Pool σ ρ}

theorem Settles.congr {owner : Owner} {H : History ε} {st : Standing σ μ} {x : Coop σ ρ ρ}
    (h : E.Settles C holds aim Q owner H st x)
    (hends : ∀ g i, owner = .member g i → E'.ends g = E.ends g) :
    E'.Settles C holds aim Q owner H st x := by
  cases owner with
  | root => exact h
  | member g i =>
    unfold Settles due at h ⊢
    dsimp only at h ⊢
    rwa [hends g i rfl]

theorem Suits.enqueue {item : Ready σ ρ} (h : E.Suits C holds aim Q p) (hitem : E.ItemOk C holds aim Q item) :
    E.Suits C holds aim Q (p.enqueue [item]) := by
  refine ⟨fun other hother => ?_, h.groups⟩
  rcases List.mem_append.1 hother with hold | hnew
  · exact h.items other hold
  · rw [List.mem_singleton.1 hnew]
    exact hitem

/-- Nobody who counts is affected when someone else changes, or another group is made. -/
theorem Suits.congr (h : E.Suits C holds aim Q p) (E' : Estate ρ μ ε) (hseated : ∀ o ∈ p.active [], p.Seated o)
    (hsame : ∀ o, p.Counts o → E'.own o = E.own o ∧ E'.past o = E.past o)
    (hends : ∀ g < p.groups.size, E'.ends g = E.ends g) : E'.Suits C holds aim Q p := by
  have howner : ∀ o ∈ p.active [], ∀ g i, o = .member g i → E'.ends g = E.ends g := by
    rintro o ho g i rfl
    exact hends g (hseated _ ho).precedes
  constructor
  · intro item hitem
    have hactive := Pool.mem_active_of_queue hitem
    obtain ⟨hown, hpast⟩ := hsame _ (Or.inl hactive)
    have hok := h.items item hitem
    cases item with
    | resume owner x =>
      replace hown : E'.own owner = E.own owner := hown
      replace hpast : E'.past owner = E.past owner := hpast
      unfold ItemOk at hok ⊢
      dsimp only at hok ⊢
      rw [hown, hpast]
      exact hok.congr (howner owner hactive)
    | report g i r =>
      replace hown : E'.own (.member g i) = E.own (.member g i) := hown
      replace hpast : E'.past (.member g i) = E.past (.member g i) := hpast
      unfold ItemOk at hok ⊢
      dsimp only at hok ⊢
      rwa [hown, hpast, howner _ hactive g i rfl]
  · intro g group hget hopen
    have hactive := Pool.mem_active_of_group hget hopen
    have hg := hends g (Array.getElem?_eq_some_iff.1 hget).1
    obtain ⟨hown, hpast⟩ := hsame _ (Or.inl hactive)
    obtain ⟨hrecorded, hall, hone⟩ := h.groups g group hget hopen
    refine ⟨fun i a hi => ?_, fun rs hs bs hlen hends' => ?_, fun i H e b hi hend => ?_⟩
    · obtain ⟨hown', hpast'⟩ := hsame _ (Or.inr ⟨g, group, i, a, rfl, hget, hopen, hi⟩)
      rw [hg, hown', hpast']
      exact hrecorded i a hi
    · rw [hg] at hends'
      rw [hown, hpast]
      exact (hall rs hs bs hlen hends').congr (howner _ hactive)
    · rw [hg] at hend
      rw [hown, hpast]
      exact (hone i H e b hi hend).congr (howner _ hactive)

omit [AddCommMonoid μ] in
theorem put_of_ne {owner o : Owner} (h : o ≠ owner) (own : μ) (past : History ε) :
    (E.put owner own past).own o = E.own o ∧ (E.put owner own past).past o = E.past o :=
  ⟨Function.update_of_ne h _ _, Function.update_of_ne h _ _⟩

omit [AddCommMonoid μ] in
theorem put_self (E : Estate ρ μ ε) (owner : Owner) (own : μ) (past : History ε) :
    (E.put owner own past).own owner = own ∧ (E.put owner own past).past owner = past :=
  ⟨Function.update_self _ _ _, Function.update_self _ _ _⟩

/-- Someone is ready to go on, out of what he owns by now. -/
theorem itemOk_put_resume {owner : Owner} {own : μ} {past : History ε} {x : Coop σ ρ ρ}
    (h : E.Settles C holds aim Q owner past (.resting own) x) :
    (E.put owner own past).ItemOk C holds aim Q (.resume owner x) := by
  obtain ⟨hown, hpast⟩ := put_self E owner own past
  unfold ItemOk
  dsimp only
  rw [hown, hpast]
  exact h.congr fun _ _ _ => rfl

/-- Someone has ended as he was to, and is about to report. -/
theorem itemOk_put_report {g i : Nat} {own : μ} {past : History ε} {r : Except Failure ρ}
    (h : E.ends g i past r own) : (E.put (.member g i) own past).ItemOk C holds aim Q (.report g i r) := by
  obtain ⟨hown, hpast⟩ := put_self E (.member g i) own past
  unfold ItemOk
  dsimp only
  rw [hown, hpast]
  exact h

end Estate

/-! ## 2. Custody -/

variable [AddCommMonoid μ]

/-- All that is owned is spread over those who have seats, everyone's history is true, and everyone settles
what is due from him, whoever goes on right now in the middle of a stretch. -/
structure Custody (C : Chronicle σ ε) (holds : μ → σ → Prop) (aim : Aim σ ρ μ ε) (Q : Ending σ μ ε ρ)
    (E : Estate ρ μ ε) (A : Finset Owner) (t : Trace ε) (m : Moment σ ρ) : Prop where
  orderly : m.Orderly
  live : m.Live
  seats : ∀ o, o ∈ A ↔ m.pool.Seated o
  told : ∀ o ∈ A, (E.past o).IsTrue t m o
  unheard : ∀ o ∉ A, t.own o = []
  suits : E.Suits C holds aim Q m.pool
  running : m.pool.result = none
  resting : m.now = none → holds (∑ o ∈ A, E.own o) m.pool.state
  moving : ∀ o x, m.now = some (o, x) →
    E.Settles C holds aim Q o (E.past o) (.moving m.pool.state (∑ o' ∈ A.erase o, E.own o')) x

namespace Custody

variable {C : Chronicle σ ε} {holds : μ → σ → Prop} {aim : Aim σ ρ μ ε} {Q : Ending σ μ ε ρ}
  {E : Estate ρ μ ε} {A : Finset Owner} {t u : Trace ε} {p q : Pool σ ρ} {owner : Owner} {x : Coop σ ρ ρ}

theorem start {own : μ} {s : σ} (hx : x.Settles C holds aim .empty (.resting own) Q) (hs : holds own s) :
    Custody C holds aim Q ⟨fun _ => own, fun _ => .empty, fun _ _ _ _ _ => True⟩ {.root} []
      (Moment.start x s) where
  orderly := Moment.orderly_start x s
  live := Moment.live_start x s
  seats o := by
    cases o with
    | root => simp [Pool.Seated]
    | member g i => simp [Pool.Seated, Moment.start, Pool.start]
  told o ho := ⟨rfl, fun e he => nomatch he⟩
  unheard o _ := rfl
  suits := by
    refine ⟨fun item hitem => ?_, fun g group hget => ?_⟩
    · rw [List.mem_singleton.1 hitem]
      exact hx
    · simp [Moment.start, Pool.start] at hget
  running := rfl
  resting _ := by
    rw [Finset.sum_singleton]
    exact hs
  moving o y hnow := by cases hnow

/-- Whoever goes on counts nowhere else. -/
theorem ne_of_counts (h : Custody C holds aim Q E A t ⟨p, some (owner, x)⟩) {o : Owner} (ho : p.Counts o) :
    o ≠ owner := by
  have honce := h.orderly.once
  rw [Moment.active_doing, Multiset.nodup_cons] at honce
  rintro rfl
  rcases ho with ho | ⟨g, group, i, a, rfl, hget, hopen, hi⟩
  · exact honce.1 ho
  · refine h.orderly.recorded g group i a hget hopen hi ?_
    rw [Moment.active_doing]
    exact Multiset.mem_cons_self _ _

theorem mem_of_active {m : Moment σ ρ} (h : Custody C holds aim Q E A t m) {o : Owner} (ho : o ∈ m.active) :
    o ∈ A := (h.seats o).2 (h.orderly.seated o ho)

theorem mem_of_counts (h : Custody C holds aim Q E A t ⟨p, some (owner, x)⟩) {o : Owner} (ho : p.Counts o) :
    o ∈ A := by
  rcases ho with ho | ⟨g, group, i, a, rfl, hget, -, hi⟩
  · refine h.mem_of_active ?_
    rw [Moment.active_doing]
    exact Multiset.mem_cons_of_mem ho
  · exact (h.seats _).2 ⟨group, hget, (Array.getElem?_eq_some_iff.1 hi).1⟩

theorem mem_owner (h : Custody C holds aim Q E A t ⟨p, some (owner, x)⟩) : owner ∈ A := by
  refine h.mem_of_active ?_
  rw [Moment.active_doing]
  exact Multiset.mem_cons_self _ _

theorem seated (h : Custody C holds aim Q E A t ⟨p, some (owner, x)⟩) :
    ∀ o ∈ p.active [], p.Seated o := by
  intro o ho
  refine h.orderly.seated o ?_
  rw [Moment.active_doing]
  exact Multiset.mem_cons_of_mem ho

/-- What has happened to everyone after a step of one. -/
theorem told_step {m n : Moment σ ρ} (h : Custody C holds aim Q E A t m) (hstep : m.Step C u n)
    (hothers : ∀ o, o ≠ owner → u.own o = []) (own : μ) :
    ∀ o ∈ A, ((E.put owner own ((E.past owner).add (u.own owner))).past o).IsTrue (t ++ u) n o := by
  intro o ho
  have htrue := (h.told o ho).step hstep
  by_cases hsame : o = owner
  · subst hsame
    rwa [(E.put_self o _ _).2]
  · rw [(Estate.put_of_ne hsame _ _).2]
    rwa [hothers o hsame, History.add_nil] at htrue

/-- Who has no seat is not heard of. -/
theorem unheard_step {m n : Moment σ ρ} (h : Custody C holds aim Q E A t m) (hstep : m.Step C u n) :
    ∀ o ∉ A, (t ++ u).own o = [] := by
  intro o ho
  have hidle : o ∉ m.active := fun hmem => ho (h.mem_of_active hmem)
  rw [Trace.own_append, h.unheard o ho, hstep.own_eq_nil hidle]
  rfl

theorem sum_put (hmem : owner ∈ A) (own : μ) (past : History ε) :
    ∑ o ∈ A, (E.put owner own past).own o = own + ∑ o ∈ A.erase owner, E.own o := by
  rw [Estate.put]
  dsimp only
  rw [Finset.sum_update_of_mem hmem, Finset.sdiff_singleton_eq_erase]

/-- Someone stops in between, or has ended and is about to report. -/
theorem stopped (h : Custody C holds aim Q E A t ⟨p, some (owner, x)⟩) {own : μ} {item : Ready σ ρ} {s : σ}
    (hstep : Moment.Step C ⟨p, some (owner, x)⟩ u ⟨{ p with state := s }.enqueue [item], none⟩)
    (hothers : ∀ o, o ≠ owner → u.own o = [])
    (hholds : holds (own + ∑ o ∈ A.erase owner, E.own o) s)
    (hitem : (E.put owner own ((E.past owner).add (u.own owner))).ItemOk C holds aim Q item) :
    Custody C holds aim Q (E.put owner own ((E.past owner).add (u.own owner))) A (t ++ u)
      ⟨{ p with state := s }.enqueue [item], none⟩ where
  orderly := hstep.orderly h.orderly
  live := hstep.live h.live
  seats o := by
    rw [h.seats o]
    cases o <;> exact Iff.rfl
  told := h.told_step hstep hothers own
  unheard := h.unheard_step hstep
  suits := by
    have hsuits := h.suits.congr _ h.seated (fun o ho => Estate.put_of_ne (h.ne_of_counts ho) own
      ((E.past owner).add (u.own owner))) fun g _ => rfl
    exact Estate.Suits.enqueue ⟨hsuits.items, hsuits.groups⟩ hitem
  running := h.running
  resting _ := by
    rw [sum_put h.mem_owner]
    exact hholds
  moving o y hnow := by cases hnow

/-- Someone goes on in the same stretch. -/
theorem going (h : Custody C holds aim Q E A t ⟨p, some (owner, x)⟩) {y : Coop σ ρ ρ} {s : σ}
    (hstep : Moment.Step C ⟨p, some (owner, x)⟩ u ⟨{ p with state := s }, some (owner, y)⟩)
    (hothers : ∀ o, o ≠ owner → u.own o = [])
    (hy : E.Settles C holds aim Q owner ((E.past owner).add (u.own owner))
      (.moving s (∑ o ∈ A.erase owner, E.own o)) y) :
    Custody C holds aim Q (E.put owner 0 ((E.past owner).add (u.own owner))) A (t ++ u)
      ⟨{ p with state := s }, some (owner, y)⟩ where
  orderly := hstep.orderly h.orderly
  live := hstep.live h.live
  seats o := by
    rw [h.seats o]
    cases o <;> exact Iff.rfl
  told := h.told_step hstep hothers 0
  unheard := h.unheard_step hstep
  suits := by
    have hsuits := h.suits.congr _ h.seated (fun o ho => Estate.put_of_ne (h.ne_of_counts ho) 0
      ((E.past owner).add (u.own owner))) fun g _ => rfl
    exact ⟨hsuits.items, hsuits.groups⟩
  running := h.running
  resting hnow := by cases hnow
  moving o z hnow := by
    obtain ⟨rfl, rfl⟩ := Prod.mk.inj (Option.some.inj hnow)
    have hframe : ∑ o' ∈ A.erase owner, (E.put owner 0 ((E.past owner).add (u.own owner))).own o' =
        ∑ o' ∈ A.erase owner, E.own o' :=
      Finset.sum_congr rfl fun o' ho' => (Estate.put_of_ne (Finset.ne_of_mem_erase ho') _ _).1
    rw [hframe, (E.put_self owner 0 _).2]
    exact hy.congr fun _ _ _ => rfl

/-- Nothing is put on record. -/
theorem told_silent {m n : Moment σ ρ} (h : Custody C holds aim Q E A t m) (hstep : m.Step C [] n) :
    ∀ o ∈ A, (E.past o).IsTrue t n o := by
  intro o ho
  have htrue := (h.told o ho).step hstep
  rw [List.append_nil, Trace.own_nil, History.add_nil] at htrue
  exact htrue

theorem unheard_silent {m n : Moment σ ρ} (h : Custody C holds aim Q E A t m) (hstep : m.Step C [] n) :
    ∀ o ∉ A, t.own o = [] := by
  have hunheard := h.unheard_step hstep
  rwa [List.append_nil] at hunheard

/-- Someone who was ready goes on. -/
theorem begun {before after : List (Ready σ ρ)} (h : Custody C holds aim Q E A t ⟨p, none⟩)
    (hqueue : p.queue = before ++ .resume owner x :: after) :
    Custody C holds aim Q E A t ⟨{ p with queue := before ++ after }, some (owner, x)⟩ := by
  have hstep : Moment.Step C ⟨p, none⟩ [] ⟨{ p with queue := before ++ after }, some (owner, x)⟩ :=
    .begin before hqueue
  have hmem : Ready.resume owner x ∈ p.queue := hqueue ▸ List.mem_append_right _ List.mem_cons_self
  refine ⟨hstep.orderly h.orderly, hstep.live h.live, fun o => ?_, h.told_silent hstep,
    h.unheard_silent hstep, ⟨fun item hitem => h.suits.items item ?_, h.suits.groups⟩, h.running,
    (fun hnow => nomatch hnow), fun o y hnow => ?_⟩
  · rw [h.seats o]
    cases o <;> exact Iff.rfl
  · rw [hqueue]
    exact List.mem_append.2 ((List.mem_append.1 hitem).imp_right (List.mem_cons_of_mem _))
  · obtain ⟨rfl, rfl⟩ := Prod.mk.inj (Option.some.inj hnow)
    have hsettles : E.Settles C holds aim Q owner (E.past owner) (.resting (E.own owner)) x :=
      h.suits.items _ hmem
    have hseat : owner ∈ A := h.mem_of_active (Pool.mem_active_of_queue hmem)
    refine Coop.Settles.moving hsettles ?_
    rw [Finset.add_sum_erase A E.own hseat]
    exact h.resting rfl

/-! ## 3. A group is made -/

section Parted

variable {parts : List (Coop σ ρ ρ)} {k : Except Failure (List ρ) → Coop σ ρ ρ} {kept : μ} {owns : Nat → μ}
  {ends : Nat → History ε → Except Failure ρ → μ → Prop} {g n : Nat} {o : Owner}

/-- Those who have seats once a group of so many parts has been made. -/
def seating (A : Finset Owner) (g n : Nat) : Finset Owner := A ∪ (range n).image (Owner.member g)

theorem mem_seating : o ∈ seating A g n ↔ o ∈ A ∨ ∃ i < n, o = .member g i := by
  simp [seating, eq_comm]

theorem seated_parted (s : σ) : (p.stopped owner (.gather parts k, s)).Seated o ↔
    p.Seated o ∨ ∃ i < parts.length, o = .member p.groups.size i := by
  cases o with
  | root => simp [Pool.Seated]
  | member g i =>
    simp only [Pool.Seated, Pool.stopped_groups, Array.getElem?_push, Owner.member.injEq]
    by_cases hg : g = p.groups.size
    · subst hg
      simp
    · simp [hg]

omit [AddCommMonoid μ] in
/-- Those who have seats are not touched when a group is made. -/
theorem opening_of_precedes (E : Estate ρ μ ε) (h : Pool.Precedes g o) (owns : Nat → μ)
    (ends : Nat → History ε → Except Failure ρ → μ → Prop) :
    (E.opening g owns ends).own o = E.own o ∧ (E.opening g owns ends).past o = E.past o := by
  cases o with
  | root => exact ⟨rfl, rfl⟩
  | member j i =>
    have hne : j ≠ g := Nat.ne_of_lt h
    simp [Estate.opening, hne]

theorem sum_opening (hseats : ∀ o ∈ A, Pool.Precedes g o) (n : Nat) :
    ∑ o ∈ seating A g n, (E.opening g owns ends).own o = ∑ o ∈ A, E.own o + ∑ i ∈ range n, owns i := by
  have hdisjoint : Disjoint A ((range n).image (Owner.member g)) := by
    rw [Finset.disjoint_left]
    intro o ho hnew
    obtain ⟨i, -, rfl⟩ := Finset.mem_image.1 hnew
    exact Nat.lt_irrefl _ (hseats _ ho)
  have hinjective : ∀ i ∈ range n, ∀ j ∈ range n, Owner.member g i = Owner.member g j → i = j :=
    fun i _ j _ hij => (Owner.member.inj hij).2
  have hold : ∑ o ∈ A, (E.opening g owns ends).own o = ∑ o ∈ A, E.own o :=
    Finset.sum_congr rfl fun o ho => (opening_of_precedes E (hseats o ho) owns ends).1
  have hnew : ∀ i, (E.opening g owns ends).own (.member g i) = owns i := fun i => if_pos rfl
  rw [seating, Finset.sum_union hdisjoint, hold, Finset.sum_image hinjective]
  simp only [hnew]

section Estates

omit [AddCommMonoid μ]

variable (E : Estate ρ μ ε) (owner : Owner) (kept : μ) (owns : Nat → μ)
  (ends : Nat → History ε → Except Failure ρ → μ → Prop)

/-- Whoever had a seat keeps what he owns, apart from the one who makes the group. -/
theorem parting_of_ne (h : Pool.Precedes g o) (hne : o ≠ owner) :
    (E.parting owner kept g owns ends).own o = E.own o ∧ (E.parting owner kept g owns ends).past o = E.past o := by
  obtain ⟨hown, hpast⟩ := opening_of_precedes (E.put owner kept (E.past owner)) h owns ends
  obtain ⟨hown', hpast'⟩ := Estate.put_of_ne (E := E) hne kept (E.past owner)
  exact ⟨hown.trans hown', hpast.trans hpast'⟩

theorem parting_self (h : Pool.Precedes g owner) :
    (E.parting owner kept g owns ends).own owner = kept ∧
      (E.parting owner kept g owns ends).past owner = E.past owner := by
  obtain ⟨hown, hpast⟩ := opening_of_precedes (E.put owner kept (E.past owner)) h owns ends
  obtain ⟨hown', hpast'⟩ := E.put_self owner kept (E.past owner)
  exact ⟨hown.trans hown', hpast.trans hpast'⟩

theorem parting_part (g i : Nat) :
    (E.parting owner kept g owns ends).own (.member g i) = owns i ∧
      (E.parting owner kept g owns ends).past (.member g i) = .empty := ⟨if_pos rfl, if_pos rfl⟩

theorem parting_ends (g : Nat) : (E.parting owner kept g owns ends).ends g = ends := Function.update_self _ _ _

theorem parting_ends_of_lt {j : Nat} (h : j < g) : (E.parting owner kept g owns ends).ends j = E.ends j :=
  Function.update_of_ne (Nat.ne_of_lt h) _ _

end Estates

/-- What is owned in all is what the group owns, and what was owned by others than the one who makes it. -/
theorem sum_parting (hmem : owner ∈ A) (hseats : ∀ o ∈ A, Pool.Precedes g o) (n : Nat) :
    ∑ o ∈ seating A g n, (E.parting owner kept g owns ends).own o =
      kept + ∑ i ∈ range n, owns i + ∑ o ∈ A.erase owner, E.own o :=
  calc ∑ o ∈ seating A g n, (E.parting owner kept g owns ends).own o
      = ∑ o ∈ A, (E.put owner kept (E.past owner)).own o + ∑ i ∈ range n, owns i := sum_opening hseats n
    _ = kept + ∑ o ∈ A.erase owner, E.own o + ∑ i ∈ range n, owns i := by rw [sum_put hmem]
    _ = kept + ∑ i ∈ range n, owns i + ∑ o ∈ A.erase owner, E.own o := add_right_comm _ _ _

/-- What is due from those who had seats is what was due from them. -/
theorem settles_parting (hprecedes : Pool.Precedes g o) {H : History ε} {st : Standing σ μ} {y : Coop σ ρ ρ}
    (h : E.Settles C holds aim Q o H st y) : (E.parting owner kept g owns ends).Settles C holds aim Q o H st y := by
  refine h.congr fun j i heq => parting_ends_of_lt E owner kept owns ends ?_
  rwa [heq] at hprecedes

/-- Whoever makes a group of parts that end as stated is ready for their results, if he settles what is due from him
whatever they are. -/
theorem awaits_parting (hprecedes : Pool.Precedes g owner)
    (hall : ∀ (rs : List ρ) (hs : Nat → History ε) (bs : Nat → μ), rs.length = n →
      (∀ (i : Nat) (r : ρ), rs[i]? = some r → ends i (hs i) (.ok r) (bs i)) →
      E.Settles C holds aim Q owner ((E.past owner).join g n fun i => (hs i).own)
        (.resting (kept + ∑ i ∈ range n, bs i)) (k (.ok rs)))
    (hone : ∀ (i : Nat) (H : History ε) (e : Failure) (b : μ), i < n → ends i H (.error e) b →
      E.Settles C holds aim Q owner (E.past owner) (.resting kept) (k (.error e))) :
    (E.parting owner kept g owns ends).Awaits C holds aim Q g ⟨owner, Array.replicate n none, false, k⟩ := by
  obtain ⟨hown, hpast⟩ := parting_self E owner kept owns ends hprecedes
  have hends := parting_ends E owner kept owns ends g
  refine ⟨fun i a hi => ?_, fun rs hs bs hlen hends' => ?_, fun i H e b hi hend => ?_⟩
  · simp [Array.getElem?_replicate] at hi
  · simp only [Array.size_replicate] at hlen ⊢
    rw [hends] at hends'
    rw [hown, hpast]
    exact settles_parting hprecedes (hall rs hs bs hlen hends')
  · rw [hends] at hend
    rw [hown, hpast]
    exact settles_parting hprecedes (hone i H e b (by simpa using hi) hend)

/-- What is ready once a group has been made: what was ready before, and its parts. -/
theorem mem_parted {item : Ready σ ρ}
    (h : item ∈ p.queue ++ Pool.members p.groups.size 0 parts) :
    item ∈ p.queue ∨ ∃ (i : Nat) (y : Coop σ ρ ρ), parts[i]? = some y ∧
      item = .resume (.member p.groups.size i) y := by
  refine (List.mem_append.1 h).imp_right fun hnew => ?_
  obtain ⟨i, y, hy, rfl⟩ := Pool.mem_members_iff.1 hnew
  exact ⟨i, y, hy, by rw [Nat.zero_add]⟩

theorem precedes (h : Custody C holds aim Q E A t ⟨p, some (owner, x)⟩) :
    ∀ o ∈ A, Pool.Precedes p.groups.size o := fun o ho => ((h.seats o).1 ho).precedes

/-- Nothing has happened to the parts of a new group, and to the others only what had happened before. -/
theorem told_parted (h : Custody C holds aim Q E A t ⟨p, some (owner, x)⟩) {m : Moment σ ρ}
    (hstep : Moment.Step C ⟨p, some (owner, x)⟩ [] m) :
    ∀ o ∈ seating A p.groups.size n,
      ((E.parting owner kept p.groups.size owns ends).past o).IsTrue t m o := by
  intro o ho
  rcases mem_seating.1 ho with hold | ⟨i, -, rfl⟩
  · have htrue := h.told_silent hstep o hold
    by_cases hsame : o = owner
    · subst hsame
      rwa [(parting_self E o kept owns ends (h.precedes o hold)).2]
    · rwa [(parting_of_ne E owner kept owns ends (h.precedes o hold) hsame).2]
  · rw [(parting_part E owner kept owns ends p.groups.size i).2]
    refine ⟨?_, fun e he => by cases he⟩
    exact (h.unheard _ fun hmem => Pool.not_seated_next p i ((h.seats _).1 hmem)).symm

/-- Everyone is as he is to be once a group has been made, if whoever has made it is ready for its results. -/
theorem suits_parted (h : Custody C holds aim Q E A t ⟨p, some (owner, x)⟩)
    (hparts : ∀ (i : Nat) (y : Coop σ ρ ρ), parts[i]? = some y →
      y.Settles C holds .none .empty (.resting (owns i)) (Leaving holds (ends i)))
    (hawaits : (E.parting owner kept p.groups.size owns ends).Awaits C holds aim Q p.groups.size
      ⟨owner, Array.replicate parts.length none, false, k⟩) :
    (E.parting owner kept p.groups.size owns ends).Suits C holds aim Q
      (p.stopped owner (.gather parts k, p.state)) := by
  have hbefore : (E.parting owner kept p.groups.size owns ends).Suits C holds aim Q p :=
    h.suits.congr _ h.seated
      (fun o ho => parting_of_ne E owner kept owns ends (h.precedes o (h.mem_of_counts ho)) (h.ne_of_counts ho))
      fun j hj => parting_ends_of_lt E owner kept owns ends hj
  refine ⟨fun item hitem => ?_, fun j group hget hopen => ?_⟩
  · replace hitem : item ∈ p.queue ++ Pool.members p.groups.size 0 parts := hitem
    rcases mem_parted hitem with hold | ⟨i, y, hy, rfl⟩
    · exact hbefore.items item hold
    · obtain ⟨hown, hpast⟩ := parting_part E owner kept owns ends p.groups.size i
      unfold Estate.ItemOk Estate.Settles Estate.due
      dsimp only
      rw [hown, hpast, parting_ends]
      exact hparts i y hy
  · rw [Pool.stopped_groups, Array.getElem?_push] at hget
    split at hget
    · next hj =>
      obtain rfl := Option.some.inj hget
      subst hj
      exact hawaits
    · exact hbefore.groups j group hget hopen

/-- Someone stops and waits for a group that he makes. -/
theorem parted (h : Custody C holds aim Q E A t ⟨p, some (owner, .gather parts k)⟩)
    (hstop : (Coop.gather parts k).stop? = some (.gather parts k))
    (hholds : holds (kept + ∑ i ∈ range parts.length, owns i + ∑ o ∈ A.erase owner, E.own o) p.state)
    (hparts : ∀ (i : Nat) (y : Coop σ ρ ρ), parts[i]? = some y →
      y.Settles C holds .none .empty (.resting (owns i)) (Leaving holds (ends i)))
    (hawaits : (E.parting owner kept p.groups.size owns ends).Awaits C holds aim Q p.groups.size
      ⟨owner, Array.replicate parts.length none, false, k⟩) :
    Custody C holds aim Q (E.parting owner kept p.groups.size owns ends)
      (seating A p.groups.size parts.length) t ⟨p.stopped owner (.gather parts k, p.state), none⟩ := by
  have hstep : Moment.Step C ⟨p, some (owner, .gather parts k)⟩ []
      ⟨p.stopped owner (.gather parts k, p.state), none⟩ := .stop hstop
  exact {
    orderly := hstep.orderly h.orderly
    live := hstep.live h.live
    seats := fun o => by rw [mem_seating, h.seats o, seated_parted]
    told := h.told_parted hstep
    unheard := fun o ho => h.unheard_silent hstep o fun hmem => ho (mem_seating.2 (Or.inl hmem))
    suits := h.suits_parted hparts hawaits
    running := h.running
    resting := fun _ => by
      rw [sum_parting h.mem_owner h.precedes]
      exact hholds
    moving := fun _ _ hnow => by cases hnow }

end Parted

/-! ## 4. A part has ended -/

section Reporting

variable {before after : List (Ready σ ρ)} {g place : Nat} {r : Except Failure ρ} {group : Group σ ρ}
  {a : ρ} {rs : List ρ}

theorem mem_of_taken {item : Ready σ ρ} (hqueue : p.queue = before ++ .report g place r :: after)
    (h : item ∈ before ++ after) : item ∈ p.queue := by
  rw [hqueue]
  exact List.mem_append.2 ((List.mem_append.1 h).imp_right (List.mem_cons_of_mem _))

/-- Whoever reports has ended as he was to. -/
theorem reported_ok (h : Custody C holds aim Q E A t ⟨p, none⟩)
    (hqueue : p.queue = before ++ .report g place r :: after) :
    E.ends g place (E.past (.member g place)) r (E.own (.member g place)) := by
  have hmem : Ready.report g place r ∈ p.queue := hqueue ▸ List.mem_append_right _ List.mem_cons_self
  exact h.suits.items _ hmem

theorem seated_report (h : Custody C holds aim Q E A t ⟨p, none⟩)
    (hqueue : p.queue = before ++ .report g place r :: after) (hget : p.groups[g]? = some group) :
    place < group.results.size := by
  have hmem : Ready.report g place r ∈ p.queue := hqueue ▸ List.mem_append_right _ List.mem_cons_self
  obtain ⟨other, hother, hlt⟩ := h.orderly.seated _ (Pool.mem_active_of_queue hmem)
  obtain rfl := Option.some.inj (hget.symm.trans hother)
  exact hlt

/-- Who reports is under way no more, nor is anyone whose result has been recorded. -/
theorem ended_of_result (h : Custody C holds aim Q E A t ⟨p, none⟩)
    (hqueue : p.queue = before ++ .report g place r :: after) (hget : p.groups[g]? = some group)
    (hopen : group.settled = false) {i : Nat} {b : ρ}
    (hi : (group.results.setIfInBounds place (some a))[i]? = some (some b)) :
    Owner.member g i ∉ ({ p with queue := before ++ after } : Pool σ ρ).active [] := by
  have htake := Moment.active_take hqueue
  rw [Array.getElem?_setIfInBounds] at hi
  by_cases hplace : place = i
  · subst hplace
    have honce := h.orderly.once
    rw [htake, Multiset.nodup_cons] at honce
    exact honce.1
  · rw [if_neg hplace] at hi
    have hrecorded := h.orderly.recorded g group i b hget hopen hi
    rw [htake] at hrecorded
    exact fun hmem => hrecorded (Multiset.mem_cons_of_mem hmem)

/-- Every result of a group is as it was to be. -/
theorem result_ok (h : Custody C holds aim Q E A t ⟨p, none⟩)
    (hqueue : p.queue = before ++ .report g place (.ok a) :: after) (hget : p.groups[g]? = some group)
    (hopen : group.settled = false) {i : Nat} {b : ρ}
    (hi : (group.results.setIfInBounds place (some a))[i]? = some (some b)) :
    E.ends g i (E.past (.member g i)) (.ok b) (E.own (.member g i)) := by
  rw [Array.getElem?_setIfInBounds] at hi
  by_cases hplace : place = i
  · subst hplace
    rw [if_pos rfl, if_pos (h.seated_report hqueue hget)] at hi
    obtain rfl := Option.some.inj (Option.some.inj hi)
    exact h.reported_ok hqueue
  · rw [if_neg hplace] at hi
    exact (h.suits.groups g group hget hopen).recorded i b hi

/-- A group that is no longer open is of no interest. -/
theorem suits_settled (h : E.Suits C holds aim Q p) (hget : p.groups[g]? = some group) (group' : Group σ ρ)
    (hsettled : group'.settled = true) :
    E.Suits C holds aim Q ({ p with groups := p.groups.setIfInBounds g group' } : Pool σ ρ) := by
  refine ⟨h.items, fun j next hnext hopen => ?_⟩
  replace hnext : (p.groups.setIfInBounds g group')[j]? = some next := hnext
  rw [Array.getElem?_setIfInBounds, if_pos (Array.getElem?_eq_some_iff.1 hget).1] at hnext
  by_cases hj : g = j
  · rw [if_pos hj] at hnext
    obtain rfl := Option.some.inj hnext
    rw [hsettled] at hopen
    cases hopen
  · rw [if_neg hj] at hnext
    exact h.groups j next hnext hopen

/-- Whoever neither has waited for a group nor is part of it keeps what he owns. -/
theorem closing_of_ne (E : Estate ρ μ ε) {n : Nat} {o : Owner} (hne : o ≠ owner) (hpart : ∀ i, o ≠ .member g i) :
    (E.closing g n owner).own o = E.own o ∧ (E.closing g n owner).past o = E.past o := by
  refine ⟨(Estate.put_of_ne hne _ _).1.trans ?_, Function.update_of_ne hne _ _⟩
  cases o with
  | root => rfl
  | member j i => exact if_neg fun hj => hpart i (congrArg (Owner.member · i) hj)

/-- Whoever has waited for a group owns what its parts have owned. -/
theorem sum_closing {n : Nat} (howner : owner ∈ A) (hmember : ∀ i < n, Owner.member g i ∈ A)
    (hparts : ∀ i, Owner.member g i ∈ A → i < n) (hne : ∀ i < n, Owner.member g i ≠ owner) :
    ∑ o ∈ A, (E.closing g n owner).own o = ∑ o ∈ A, E.own o := by
  let left : Owner → μ := fun
    | .root => E.own .root
    | .member j i => if j = g then 0 else E.own (.member j i)
  let parts : Finset Owner := (range n).image (Owner.member g)
  have hsubset : parts ⊆ A.erase owner := by
    intro o ho
    obtain ⟨i, hi, rfl⟩ := Finset.mem_image.1 ho
    exact Finset.mem_erase.2 ⟨hne i (Finset.mem_range.1 hi), hmember i (Finset.mem_range.1 hi)⟩
  have hinjective : ∀ i ∈ range n, ∀ j ∈ range n, Owner.member g i = Owner.member g j → i = j :=
    fun i _ j _ hij => (Owner.member.inj hij).2
  have hsum : ∀ f : Owner → μ, ∑ o ∈ A.erase owner, f o =
      ∑ o ∈ A.erase owner \ parts, f o + ∑ i ∈ range n, f (.member g i) := by
    intro f
    rw [← Finset.sum_sdiff hsubset, Finset.sum_image hinjective]
  have hothers : ∑ o ∈ A.erase owner \ parts, left o = ∑ o ∈ A.erase owner \ parts, E.own o := by
    refine Finset.sum_congr rfl fun o ho => ?_
    obtain ⟨hin, hnot⟩ := Finset.mem_sdiff.1 ho
    cases o with
    | root => rfl
    | member j i =>
      refine if_neg fun hj => hnot ?_
      subst hj
      exact Finset.mem_image_of_mem _ (Finset.mem_range.2 (hparts i (Finset.mem_of_mem_erase hin)))
  have hnone : ∀ i, left (.member g i) = 0 := fun i => if_pos rfl
  calc ∑ o ∈ A, (E.closing g n owner).own o
      = E.own owner + ∑ i ∈ range n, E.own (.member g i) + ∑ o ∈ A.erase owner, left o := sum_put howner _ _
    _ = E.own owner + ∑ i ∈ range n, E.own (.member g i) + ∑ o ∈ A.erase owner \ parts, E.own o := by
      rw [hsum left, hothers]
      simp only [hnone, Finset.sum_const_zero, add_zero]
    _ = E.own owner + ∑ o ∈ A.erase owner, E.own o := by
      rw [hsum E.own, add_assoc, add_comm (∑ i ∈ range n, _)]
    _ = ∑ o ∈ A, E.own o := Finset.add_sum_erase A E.own howner

section Completed

variable (h : Custody C holds aim Q E A t ⟨p, none⟩) (hqueue : p.queue = before ++ .report g place (.ok a) :: after)
  (hget : p.groups[g]? = some group) (hopen : group.settled = false)
  (hall : (group.results.setIfInBounds place (some a)).toList = rs.map some)

include hall in
omit [AddCommMonoid μ] in
theorem length_of_complete : rs.length = group.results.size := by
  have hlength := congrArg List.length hall
  rw [Array.length_toList, Array.size_setIfInBounds, List.length_map] at hlength
  exact hlength.symm

include hall in
omit [AddCommMonoid μ] in
theorem getElem?_of_complete {i : Nat} {b : ρ} (hi : rs[i]? = some b) :
    (group.results.setIfInBounds place (some a))[i]? = some (some b) := by
  rw [← Array.getElem?_toList, hall, List.getElem?_map, hi]
  rfl

include h hqueue in
/-- Whoever is under way apart from the one who reports has a seat. -/
theorem mem_of_left {o : Owner} (ho : o ∈ ({ p with queue := before ++ after } : Pool σ ρ).active []) : o ∈ A := by
  refine h.mem_of_active ?_
  rw [Moment.active_take hqueue]
  exact Multiset.mem_cons_of_mem ho

include h hget in
/-- The parts of a group have the seats that belong to it. -/
theorem mem_part_iff {i : Nat} : Owner.member g i ∈ A ↔ i < group.results.size := by
  rw [h.seats]
  refine ⟨fun ⟨other, hother, hi⟩ => ?_, fun hi => ⟨group, hget, hi⟩⟩
  obtain rfl := Option.some.inj (hget.symm.trans hother)
  exact hi

include h hqueue hget hopen hall

/-- Of a group that has all its results nobody is under way. -/
theorem not_active_of_complete {i : Nat} (hi : i < group.results.size) :
    Owner.member g i ∉ ({ p with queue := before ++ after } : Pool σ ρ).active [] := by
  rw [← length_of_complete hall] at hi
  exact h.ended_of_result hqueue hget hopen (getElem?_of_complete hall (List.getElem?_eq_getElem hi))

/-- So nobody of them waits for it. -/
theorem part_ne_owner {i : Nat} (hi : i < group.results.size) : Owner.member g i ≠ group.owner := by
  intro heq
  have hwaits : group.owner ∈ ({ p with queue := before ++ after } : Pool σ ρ).active [] :=
    Pool.mem_active_of_group hget hopen
  exact h.not_active_of_complete hqueue hget hopen hall hi (heq ▸ hwaits)

/-- Whoever counts once the group is closed has a seat, and neither waits for it nor is part of it. -/
theorem others_of_closed {closed : Group σ ρ} (hclosed : closed.settled = true) {o : Owner}
    (ho : ({ p with queue := before ++ after, groups := p.groups.setIfInBounds g closed } : Pool σ ρ).Counts o) :
    o ∈ A ∧ o ≠ group.owner ∧ ∀ i, o ≠ .member g i := by
  let left : Pool σ ρ := { p with queue := before ++ after }
  have hwaits : group.owner ∈ left.active [] := Pool.mem_active_of_group (p := left) hget hopen
  rcases ho with ho | ⟨j, other, i, b, rfl, hother, hopen', hi⟩
  · -- under way is who was so before, without the one who waited
    obtain ⟨others, hold, hnew⟩ := Pool.census_set (p := left) Pool.concerns Pool.waiting? hget closed []
    have hopened : left.active [] = group.owner ::ₘ others := by
      have hsome : Pool.waiting? group = some group.owner := by
        rw [Pool.waiting?, hopen]
        rfl
      rw [Pool.active, hold, hsome]
      rfl
    have hothers : o ∈ others := by
      have hnone : Pool.waiting? closed = none := by
        rw [Pool.waiting?, hclosed]
        rfl
      rw [hnone] at hnew
      exact (Multiset.mem_add.1 (hnew ▸ ho)).resolve_left (Multiset.notMem_zero o)
    have honce := h.orderly.once
    rw [Moment.active_take hqueue, Multiset.nodup_cons] at honce
    have hleft : o ∈ left.active [] := hopened ▸ Multiset.mem_cons_of_mem hothers
    have hnot : group.owner ∉ others := (Multiset.nodup_cons.1 (hopened ▸ honce.2)).1
    refine ⟨h.mem_of_left hqueue hleft, fun heq => hnot (heq ▸ hothers), ?_⟩
    rintro i rfl
    have hi := (h.mem_part_iff hget).1 (h.mem_of_left hqueue hleft)
    exact h.not_active_of_complete hqueue hget hopen hall hi hleft
  · -- and results are recorded for the other groups that are open
    replace hother : (p.groups.setIfInBounds g closed)[j]? = some other := hother
    rw [Array.getElem?_setIfInBounds, if_pos (Array.getElem?_eq_some_iff.1 hget).1] at hother
    split at hother
    · obtain rfl := Option.some.inj hother
      rw [hclosed] at hopen'
      cases hopen'
    · next hj =>
      refine ⟨(h.seats _).2 ⟨other, hother, (Array.getElem?_eq_some_iff.1 hi).1⟩, fun heq => ?_,
        fun i' heq => hj (Owner.member.inj heq).1.symm⟩
      refine h.orderly.recorded j other i b hother hopen' hi ?_
      rw [heq, Moment.active_take hqueue]
      exact Multiset.mem_cons_of_mem hwaits

/-- To whoever has waited for the group has happened what has happened to its parts, and they have all ended. -/
theorem told_completed (hstep : Moment.Step C ⟨p, none⟩ []
      ⟨({ p with queue := before ++ after } : Pool σ ρ).settle g (group.with place a) (.ok rs), none⟩) :
    ∀ o ∈ A, ((E.closing g group.results.size group.owner).past o).IsTrue t
      ⟨({ p with queue := before ++ after } : Pool σ ρ).settle g (group.with place a) (.ok rs), none⟩ o := by
  intro o ho
  have htrue := h.told_silent hstep
  have hreport : Pool.Reported { p with queue := before ++ after } g place (.ok a) _ :=
    Pool.Reported.completed hget hopen rfl hall
  by_cases howner : o = group.owner
  · subst howner
    have hself : (E.closing g group.results.size group.owner).past group.owner =
        (E.past group.owner).join g group.results.size fun i => (E.past (.member g i)).own :=
      Function.update_self _ _ _
    rw [hself]
    refine ⟨(htrue _ ho).own, fun e he => ?_⟩
    rcases History.mem_ended_join.1 he with hold | ⟨i, hi, rfl⟩
    · exact (htrue _ ho).ended e hold
    · refine ⟨(htrue _ ((h.mem_part_iff hget).2 hi)).own, hreport.seated_iff.2 ⟨group, hget, hi⟩, fun hmem => ?_⟩
      exact h.not_active_of_complete hqueue hget hopen hall hi (hreport.active_eq ▸ hmem)
  · have hpast : (E.closing g group.results.size group.owner).past o = E.past o :=
      Function.update_of_ne howner _ _
    rw [hpast]
    exact htrue o ho

/-- Everyone is as he is to be once the group is closed: whoever has waited for it is ready to go on with its
results, and nobody else is concerned. -/
theorem suits_completed : (E.closing g group.results.size group.owner).Suits C holds aim Q
    (({ p with queue := before ++ after } : Pool σ ρ).settle g (group.with place a) (.ok rs)) := by
  let closed : Group σ ρ := { group.with place a with settled := true }
  have hleft : E.Suits C holds aim Q { p with queue := before ++ after } :=
    ⟨fun item hitem => h.suits.items item (mem_of_taken hqueue hitem), h.suits.groups⟩
  have hseated : ∀ o, ({ p with queue := before ++ after, groups := p.groups.setIfInBounds g closed } :
      Pool σ ρ).Seated o ↔ p.Seated o := fun o =>
    Pool.seated_set (p := p) hget closed Array.size_setIfInBounds rfl
  have hothers := fun o ho => h.others_of_closed hqueue hget hopen hall (show closed.settled = true from rfl) (o := o) ho
  have hclosed := (suits_settled hleft hget closed rfl).congr (E.closing g group.results.size group.owner)
    (fun o ho => (hseated o).2 ((h.seats o).1 (hothers o (Or.inl ho)).1))
    (fun o ho => closing_of_ne E (hothers o ho).2.1 (hothers o ho).2.2) fun _ _ => rfl
  have hgoes := (h.suits.groups g group hget hopen).all rs (fun i => E.past (.member g i))
    (fun i => E.own (.member g i)) (length_of_complete hall) fun i b hi =>
      h.result_ok hqueue hget hopen (getElem?_of_complete hall hi)
  exact hclosed.enqueue (Estate.itemOk_put_resume (hgoes.congr fun _ _ _ => rfl))

/-- A group has all its results, and whoever has waited for it goes on. -/
theorem completed (hstep : Moment.Step C ⟨p, none⟩ []
      ⟨({ p with queue := before ++ after } : Pool σ ρ).settle g (group.with place a) (.ok rs), none⟩) :
    Custody C holds aim Q (E.closing g group.results.size group.owner) A t
      ⟨({ p with queue := before ++ after } : Pool σ ρ).settle g (group.with place a) (.ok rs), none⟩ where
  orderly := hstep.orderly h.orderly
  live := hstep.live h.live
  seats o := by
    have hreport : Pool.Reported { p with queue := before ++ after } g place (.ok a) _ :=
      Pool.Reported.completed hget hopen rfl hall
    exact (h.seats o).trans hreport.seated_iff.symm
  told := h.told_completed hqueue hget hopen hall hstep
  unheard := h.unheard_silent hstep
  suits := h.suits_completed hqueue hget hopen hall
  running := h.running
  resting _ := by
    have hwaits : group.owner ∈ A := h.mem_of_left hqueue (Pool.mem_active_of_group hget hopen)
    change holds _ p.state
    rw [sum_closing hwaits (fun i hi => (h.mem_part_iff hget).2 hi) (fun i hi => (h.mem_part_iff hget).1 hi)
      fun i hi => h.part_ne_owner hqueue hget hopen hall hi]
    exact h.resting rfl
  moving _ _ hnow := by cases hnow

end Completed

/-- Nobody's report is of interest, or it is recorded, or a part has failed: nobody owns anything else. -/
theorem reported (h : Custody C holds aim Q E A t ⟨p, none⟩) {q : Pool σ ρ}
    (hstep : Moment.Step C ⟨p, none⟩ [] ⟨q, none⟩) (hseats : ∀ o, p.Seated o ↔ q.Seated o)
    (hstate : q.state = p.state) (hresult : q.result = p.result) (hsuits : E.Suits C holds aim Q q) :
    Custody C holds aim Q E A t ⟨q, none⟩ where
  orderly := hstep.orderly h.orderly
  live := hstep.live h.live
  seats o := (h.seats o).trans (hseats o)
  told := h.told_silent hstep
  unheard := h.unheard_silent hstep
  suits := hsuits
  running := hresult.trans h.running
  resting _ := by
    rw [hstate]
    exact h.resting rfl
  moving o y hnow := nomatch hnow

/-- Whatever a report does, all that is owned stays spread over those who have seats. -/
theorem report (h : Custody C holds aim Q E A t ⟨p, none⟩)
    (hqueue : p.queue = before ++ .report g place r :: after) :
    ∃ E' : Estate ρ μ ε, Custody C holds aim Q E' A t
      ⟨({ p with queue := before ++ after } : Pool σ ρ).report g place r, none⟩ := by
  have hstep : Moment.Step C ⟨p, none⟩ [] ⟨_, none⟩ := .report before hqueue
  have hreport := Pool.reported_report { p with queue := before ++ after } g place r
  have hleft : E.Suits C holds aim Q { p with queue := before ++ after } :=
    ⟨fun item hitem => h.suits.items item (mem_of_taken hqueue hitem), h.suits.groups⟩
  generalize ({ p with queue := before ++ after } : Pool σ ρ).report g place r = q at hstep hreport ⊢
  have hseats : ∀ o, p.Seated o ↔ q.Seated o := by
    intro o
    rw [hreport.seated_iff]
    cases o <;> exact Iff.rfl
  cases hreport with
  | ignored => exact ⟨E, h.reported hstep hseats rfl rfl hleft⟩
  | @failed group e hget hopen hr =>
    subst hr
    have hone := (h.suits.groups g group hget hopen).one place _ e _ (h.seated_report hqueue hget)
      (h.reported_ok hqueue)
    refine ⟨E, h.reported hstep hseats rfl rfl ?_⟩
    exact (suits_settled hleft hget { group with settled := true } rfl).enqueue hone
  | @completed group a rs hget hopen hr hall =>
    subst hr
    exact ⟨_, h.completed hqueue hget hopen hall hstep⟩
  | @recorded group a hget hopen hr =>
    subst hr
    refine ⟨E, h.reported hstep hseats rfl rfl ⟨hleft.items, fun j next hnext hopen' => ?_⟩⟩
    replace hnext : (p.groups.setIfInBounds g (group.with place a))[j]? = some next := hnext
    rw [Array.getElem?_setIfInBounds, if_pos (Array.getElem?_eq_some_iff.1 hget).1] at hnext
    by_cases hj : g = j
    · rw [if_pos hj] at hnext
      obtain rfl := Option.some.inj hnext
      subst hj
      have hsize : (group.with place a).results.size = group.results.size := Array.size_setIfInBounds
      obtain ⟨-, hall, hone⟩ := h.suits.groups g group hget hopen
      refine ⟨fun i b hi => h.result_ok hqueue hget hopen hi, ?_, ?_⟩
      · rw [hsize]
        exact hall
      · rw [hsize]
        exact hone
    · rw [if_neg hj] at hnext
      exact h.suits.groups j next hnext hopen'

end Reporting

/-! ## 5. Every step -/

/-- The root is at its aim. -/
def AtAim (aim : Aim σ ρ μ ε) (t : Trace ε) (m : Moment σ ρ) : Prop :=
  ∃ x H f, m.now = some (.root, x) ∧ aim H m.pool.state f x ∧ H.IsTrue t m .root

/-- The root has ended as stated. -/
def AtEnd (Q : Ending σ μ ε ρ) (t : Trace ε) (m : Moment σ ρ) : Prop :=
  ∃ r H f, m.pool.result = some r ∧ Q H r m.pool.state f ∧ H.IsTrue t m .root

theorem others_of_self {es : List ε} (o : Owner) (h : o ≠ owner) : Trace.own [(owner, es)] o = [] :=
  Trace.own_of_ne (Ne.symm h) es

/-- Who stops of itself has ended, lets others go first, or has started parts together. -/
theorem stop_now (h : Custody C holds aim Q E A t ⟨p, some (owner, x)⟩)
    (haim : ¬ Estate.aimOf aim owner (E.past owner) p.state (∑ o ∈ A.erase owner, E.own o) x)
    {pause : Coop.Pause σ ρ ρ} (hstop : x.stop? = some pause) :
    (∃ E' A', Custody C holds aim Q E' A' (t ++ []) ⟨p.stopped owner (pause, p.state), none⟩) ∨
      AtEnd Q (t ++ []) ⟨p.stopped owner (pause, p.state), none⟩ := by
  cases h.moving owner x rfl with
  | aim h' => exact absurd h' haim
  | act => cases hstop
  | @done _ _ _ _ _ r _ hQ =>
    cases hstop
    cases owner with
    | root =>
      refine Or.inr ⟨r, E.past .root, _, rfl, hQ, ?_⟩
      have htrue := (h.told .root h.mem_owner).step (Moment.Step.stop (C := C) (x := .done r) rfl)
      rw [Trace.own_nil, History.add_nil] at htrue
      exact htrue
    | member g i =>
      -- a part leaves to its group what it owns
      obtain ⟨own, hown, hend⟩ := hQ
      have hstop : Moment.Step C ⟨p, some (.member g i, .done r)⟩ []
          ⟨p.stopped (.member g i) (.done r, p.state), none⟩ := .stop rfl
      refine Or.inl ⟨_, _, h.stopped (s := p.state) hstop (fun _ _ => rfl) hown ?_⟩
      rw [Trace.own_nil, History.add_nil]
      exact Estate.itemOk_put_report hend
  | @turn _ _ _ _ _ k _ own hown hnext =>
    cases hstop
    have hstop : Moment.Step C ⟨p, some (owner, .turn k)⟩ []
        ⟨p.stopped owner (.turn k, p.state), none⟩ := .stop rfl
    refine Or.inl ⟨_, _, h.stopped (s := p.state) hstop (fun _ _ => rfl) hown ?_⟩
    rw [Trace.own_nil, History.add_nil]
    exact Estate.itemOk_put_resume (E := E) hnext
  | @gather _ _ _ _ _ parts k _ kept owns ends hown hparts hall hone =>
    cases parts with
    | nil => cases hstop
    | cons y ys =>
      cases hstop
      rw [List.append_nil]
      exact Or.inl ⟨_, _, h.parted rfl hown hparts
        (awaits_parting (h.precedes owner h.mem_owner) (hall p.groups.size) hone)⟩

/-- Whoever goes on does something, unless the root is at its aim. -/
theorem step_now (h : Custody C holds aim Q E A t ⟨p, some (owner, x)⟩) (hnot : ¬ AtAim aim t ⟨p, some (owner, x)⟩)
    {n : Moment σ ρ} (hstep : Moment.Step C ⟨p, some (owner, x)⟩ u n) :
    (∃ E' A', Custody C holds aim Q E' A' (t ++ u) n) ∨ AtEnd Q (t ++ u) n := by
  have hsettles := h.moving owner x rfl
  have haim : ¬ Estate.aimOf aim owner (E.past owner) p.state (∑ o ∈ A.erase owner, E.own o) x := by
    cases owner with
    | root => exact fun haim => hnot ⟨x, _, _, rfl, haim, h.told .root h.mem_owner⟩
    | member g i => exact fun haim => haim
  cases hstep with
  | act =>
    cases hsettles with
    | aim h' => exact absurd h' haim
    | act own hgrows hnext hown hrest =>
      refine Or.inl ⟨_, _, h.going .act others_of_self ?_⟩
      rw [Trace.own_self]
      exact hnext
  | @rest _ _ _ m k hrests =>
    cases hsettles with
    | aim h' => exact absurd h' haim
    | act own hgrows hnext hown hrest =>
      refine Or.inl ⟨_, _, h.stopped (.rest hrests) others_of_self (hown hrests) ?_⟩
      rw [Trace.own_self]
      exact Estate.itemOk_put_resume (E := E) (hrest hrests)
  | skip =>
    cases hsettles with
    | aim h' => exact absurd h' haim
    | gather kept owns ends hown hparts hall hone =>
      -- a group without parts is complete at once
      have hgoes := hall 0 [] (fun _ => .empty) (fun _ => 0) rfl fun i r hi => nomatch hi
      rw [List.length_nil, Finset.range_zero, Finset.sum_empty, add_zero] at hown hgoes
      rw [History.join_zero] at hgoes
      refine Or.inl ⟨_, _, h.going (s := p.state) .skip (fun _ _ => rfl) ?_⟩
      rw [Trace.own_nil, History.add_nil]
      exact Coop.Settles.moving hgoes hown
  | stop hstop => exact h.stop_now haim hstop

theorem step {m n : Moment σ ρ} (h : Custody C holds aim Q E A t m) (hnot : ¬ AtAim aim t m)
    (hstep : m.Step C u n) : (∃ E' A', Custody C holds aim Q E' A' (t ++ u) n) ∨ AtEnd Q (t ++ u) n := by
  obtain ⟨p, now⟩ := m
  cases now with
  | some who => exact h.step_now hnot hstep
  | none =>
    cases hstep with
    | begin _ hqueue =>
      rw [List.append_nil]
      exact Or.inl ⟨_, _, h.begun hqueue⟩
    | report _ hqueue =>
      obtain ⟨E', hnext⟩ := h.report hqueue
      rw [List.append_nil]
      exact Or.inl ⟨E', A, hnext⟩

/-- In every order there comes a moment when the root is at its aim or has ended as stated. -/
theorem eventually {m : Moment σ ρ} (h : Custody C holds aim Q E A t m) :
    m.Eventually C (fun t m => AtAim aim t m ∨ AtEnd Q t m) t := by
  induction hm : m.ahead using Moment.wellFounded_nearer.induction generalizing E A t m with
  | _ a ih =>
    subst hm
    by_cases hnow : AtAim aim t m
    · exact .now (Or.inl hnow)
    · refine .later (fun hdone => ?_) fun u n hstep => ?_
      · have hsome := h.live.isSome_of_done hdone
        rw [h.running] at hsome
        cases hsome
      · rcases h.step hnow hstep with ⟨E', A', hnext⟩ | hend
        · exact ih _ hstep.nearer hnext rfl
        · exact .now (Or.inr hend)

end Custody

/-- **What settles comes to its end in every order.** -/
theorem Coop.Settles.eventually {C : Chronicle σ ε} {holds : μ → σ → Prop} {aim : Aim σ ρ μ ε}
    {Q : Ending σ μ ε ρ} {own : μ} {x : Coop σ ρ ρ} {s : σ}
    (h : x.Settles C holds aim .empty (.resting own) Q) (hs : holds own s) :
    (Moment.start x s).Eventually C (fun t m => Custody.AtAim aim t m ∨ Custody.AtEnd Q t m) [] :=
  (Custody.start h hs).eventually

end NodeFlow
