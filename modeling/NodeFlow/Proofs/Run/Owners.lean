import NodeFlow.Proofs.Run.Interleave
/-!
# Who is under way

In every order in which things may happen each computation is in one place: it is ready, about to report, or
waits for the group that it has started last. Once it has ended nobody acts under its name again, so what it
has put on record is complete.

The awkward thing up front: groups that have failed are settled while some of their parts are still under way,
and these go on and report to nobody. So to be settled says nothing of the parts of a group; only a result that
has been recorded does.
-/

set_option autoImplicit false

namespace NodeFlow

variable {σ ρ ε : Type}

/-- A group with one more result. -/
def Group.with (group : Group σ ρ) (place : Nat) (a : ρ) : Group σ ρ :=
  { group with results := group.results.setIfInBounds place (some a) }

namespace Pool

variable {C : Chronicle σ ε} {p q : Pool σ ρ} {t : Trace ε} {owner : Owner} {g place : Nat}
  {r : Except Failure ρ}

/-! ## 1. One place for each -/

/-- Who waits for a group that is open. -/
def waiting? (group : Group σ ρ) : Option Owner :=
  if group.settled then none else some group.owner

/-- Everyone who is ready, about to report, or waits, when `rest` is still to happen. -/
def active (p : Pool σ ρ) (rest : List (Ready σ ρ)) : Multiset Owner := p.census concerns waiting? rest

/-- The root has a seat from the start, the parts of a group once it has been made. -/
def Seated (p : Pool σ ρ) : Owner → Prop
  | .root => True
  | .member g i => ∃ group, p.groups[g]? = some group ∧ i < group.results.size

theorem map_concerns_members (g i : Nat) (parts : List (Coop σ ρ ρ)) :
    (members g i parts).map concerns = (List.range' i parts.length).map (.member g) := by
  induction parts generalizing i with
  | nil => rfl
  | cons x xs ih => exact congrArg (_ :: ·) (ih (i + 1))

/-- Who is under way when a computation has stopped: itself, unless it is the root and has ended, and what it
has started. -/
theorem active_stopped (p : Pool σ ρ) (owner : Owner) (pause : Coop.Pause σ ρ ρ) (s : σ) :
    (p.stopped owner (pause, s)).active [] = match pause with
      | .done _ => if owner = .root then p.active [] else owner ::ₘ p.active []
      | .turn _ => owner ::ₘ p.active []
      | .gather parts _ =>
        ↑((List.range' 0 parts.length).map (Owner.member p.groups.size)) + owner ::ₘ p.active [] := by
  cases pause with
  | done r =>
    cases owner with
    | root => rfl
    | member g i => exact census_enqueue concerns waiting? { p with state := s } [.report g i r] []
  | turn k => exact census_enqueue concerns waiting? { p with state := s } [.resume owner k] []
  | gather parts k =>
    let group : Group σ ρ := ⟨owner, Array.replicate parts.length none, false, k⟩
    have hpush := census_push concerns waiting? { p with state := s } group []
    have henqueue := census_enqueue concerns waiting?
      { p with state := s, groups := p.groups.push group } (members p.groups.size 0 parts) []
    rw [hpush, map_concerns_members] at henqueue
    exact henqueue

/-! ## 2. What a report can do -/

/-- What the report of a part can do: nothing, if its group is settled; its group fails, or has all its
results, and whoever waits for it is ready; or its group has one more result. -/
inductive Reported (p : Pool σ ρ) (g place : Nat) (r : Except Failure ρ) : Pool σ ρ → Prop
  | ignored : (∀ group, p.groups[g]? = some group → group.settled = true) → Reported p g place r p
  | failed {group : Group σ ρ} {e : Failure} : p.groups[g]? = some group → group.settled = false →
    r = .error e → Reported p g place r (p.settle g group (.error e))
  | completed {group : Group σ ρ} {a : ρ} {rs : List ρ} : p.groups[g]? = some group → group.settled = false →
    r = .ok a → (group.results.setIfInBounds place (some a)).toList = rs.map some →
    Reported p g place r (p.settle g (group.with place a) (.ok rs))
  | recorded {group : Group σ ρ} {a : ρ} : p.groups[g]? = some group → group.settled = false → r = .ok a →
    Reported p g place r { p with groups := p.groups.setIfInBounds g (group.with place a) }

theorem reported_report (p : Pool σ ρ) (g place : Nat) (r : Except Failure ρ) :
    Reported p g place r (p.report g place r) := by
  rw [report]
  cases hget : p.groups[g]? with
  | none =>
    refine .ignored fun group hgroup => ?_
    rw [hget] at hgroup
    cases hgroup
  | some group =>
    dsimp only
    by_cases hsettled : group.settled = true
    · rw [if_pos hsettled]
      refine .ignored fun other hother => ?_
      exact Option.some.inj (hget.symm.trans hother) ▸ hsettled
    · rw [if_neg hsettled]
      have hopen := eq_false_of_ne_true hsettled
      cases r with
      | error e => exact .failed hget hopen rfl
      | ok a =>
        dsimp only
        cases hall : complete? (group.results.setIfInBounds place (some a)) with
        | some rs => exact .completed hget hopen rfl (eq_map_some_of_mapM hall)
        | none => exact .recorded hget hopen rfl

theorem active_settle {group group' : Group σ ρ} {a : Except Failure (List ρ)}
    (hget : p.groups[g]? = some group) (hopen : group.settled = false) (howner : group'.owner = group.owner) :
    (p.settle g group' a).active [] = p.active [] := by
  obtain ⟨others, hold, hnew⟩ := census_set concerns waiting? hget
    { group' with settled := true } []
  have henqueue := census_enqueue concerns waiting?
    { p with groups := p.groups.setIfInBounds g { group' with settled := true } }
    [.resume group'.owner (group'.resume a)] []
  have hwaits : waiting? group = some group.owner := by
    rw [waiting?, hopen]
    rfl
  rw [hnew] at henqueue
  rw [active, active, settle, henqueue, hold, hwaits, howner]
  exact congrArg _ (zero_add others)

theorem active_recorded {group group' : Group σ ρ} (hget : p.groups[g]? = some group)
    (hsame : waiting? group' = waiting? group) :
    ({ p with groups := p.groups.setIfInBounds g group' } : Pool σ ρ).active [] = p.active [] := by
  obtain ⟨others, hold, hnew⟩ := census_set concerns waiting? hget group' []
  rw [active, active, hold, hnew, hsame]

/-- A report is made by one who has ended; everybody else is where he was. -/
theorem Reported.active_eq (h : Reported p g place r q) : q.active [] = p.active [] := by
  cases h with
  | ignored => rfl
  | failed hget hopen => exact active_settle hget hopen rfl
  | completed hget hopen => exact active_settle hget hopen rfl
  | recorded hget => exact active_recorded hget rfl

/-! ## 3. Seats -/

/-- Groups stay where they are, and keep the number of their parts. -/
def Stays (p q : Pool σ ρ) : Prop :=
  ∀ (g : Nat) (group : Group σ ρ), p.groups[g]? = some group →
    ∃ group', q.groups[g]? = some group' ∧ group'.results.size = group.results.size

theorem Stays.seated (h : Stays p q) (hseated : p.Seated owner) : q.Seated owner := by
  cases owner with
  | root => trivial
  | member g i =>
    obtain ⟨group, hget, hi⟩ := hseated
    obtain ⟨group', hget', hsize⟩ := h g group hget
    exact ⟨group', hget', hsize ▸ hi⟩

theorem stays_stopped (p : Pool σ ρ) (owner : Owner) (stop : Coop.Pause σ ρ ρ × σ) :
    Stays p (p.stopped owner stop) :=
  fun g group hget => ⟨group, (grows_stopped p owner stop).groups g group hget, rfl⟩

theorem stays_set {group : Group σ ρ} (hget : p.groups[g]? = some group) (group' : Group σ ρ)
    (hsize : group'.results.size = group.results.size) (hq : q.groups = p.groups.setIfInBounds g group') :
    Stays p q := by
  intro j other hother
  rw [hq, Array.getElem?_setIfInBounds, if_pos (Array.getElem?_eq_some_iff.1 hget).1]
  by_cases hj : g = j
  · subst hj
    obtain rfl := Option.some.inj (hget.symm.trans hother)
    exact ⟨group', if_pos rfl, hsize⟩
  · exact ⟨other, (if_neg hj).trans hother, rfl⟩

theorem Reported.stays (h : Reported p g place r q) : Stays p q := by
  cases h with
  | ignored => exact fun g group hget => ⟨group, hget, rfl⟩
  | @failed group e hget => exact stays_set hget { group with settled := true } rfl rfl
  | @completed group a rs hget =>
    exact stays_set hget { group.with place a with settled := true } Array.size_setIfInBounds rfl
  | @recorded group a hget => exact stays_set hget (group.with place a) Array.size_setIfInBounds rfl

theorem seated_set {group : Group σ ρ} (hget : p.groups[g]? = some group) (group' : Group σ ρ)
    (hsize : group'.results.size = group.results.size) (hq : q.groups = p.groups.setIfInBounds g group') :
    q.Seated owner ↔ p.Seated owner := by
  refine ⟨fun h => ?_, (stays_set hget group' hsize hq).seated⟩
  have hlt := (Array.getElem?_eq_some_iff.1 hget).1
  cases owner with
  | root => trivial
  | member j i =>
    obtain ⟨other, hother, hi⟩ := h
    rw [hq, Array.getElem?_setIfInBounds, if_pos hlt] at hother
    by_cases hj : g = j
    · subst hj
      rw [if_pos rfl] at hother
      obtain rfl := Option.some.inj hother
      exact ⟨group, hget, hsize ▸ hi⟩
    · rw [if_neg hj] at hother
      exact ⟨other, hother, hi⟩

theorem Reported.seated_iff (h : Reported p g place r q) : q.Seated owner ↔ p.Seated owner := by
  cases h with
  | ignored => exact Iff.rfl
  | @failed group e hget => exact seated_set hget { group with settled := true } rfl rfl
  | @completed group a rs hget =>
    exact seated_set hget { group.with place a with settled := true } Array.size_setIfInBounds rfl
  | @recorded group a hget => exact seated_set hget (group.with place a) Array.size_setIfInBounds rfl

theorem stopped_groups (p : Pool σ ρ) (owner : Owner) (pause : Coop.Pause σ ρ ρ) (s : σ) :
    (p.stopped owner (pause, s)).groups = match pause with
      | .gather parts k => p.groups.push ⟨owner, Array.replicate parts.length none, false, k⟩
      | _ => p.groups := by
  cases pause with
  | done r => cases owner <;> rfl
  | turn k => rfl
  | gather parts k => rfl

theorem Seated.precedes (h : p.Seated owner) : Precedes p.groups.size owner := by
  cases owner with
  | root => trivial
  | member g i =>
    obtain ⟨group, hget, -⟩ := h
    exact (Array.getElem?_eq_some_iff.1 hget).1

/-- The parts of the next group have no seats yet. -/
theorem not_seated_next (p : Pool σ ρ) (i : Nat) : ¬ p.Seated (.member p.groups.size i) :=
  fun h => Nat.lt_irrefl _ h.precedes

end Pool

namespace Moment

open Pool

variable {C : Chronicle σ ε} {m n : Moment σ ρ} {t : Trace ε} {owner : Owner}

/-! ## 4. Everyone in one place -/

/-- Everyone who is under way. -/
def active (m : Moment σ ρ) : Multiset Owner := m.pool.active m.doing

/-- Each is in one place and has a seat, and whose result has been recorded is under way no more. -/
structure Orderly (m : Moment σ ρ) : Prop where
  once : m.active.Nodup
  seated : ∀ owner ∈ m.active, m.pool.Seated owner
  recorded : ∀ (g : Nat) (group : Group σ ρ) (i : Nat) (a : ρ), m.pool.groups[g]? = some group →
    group.settled = false → group.results[i]? = some (some a) → Owner.member g i ∉ m.active

theorem orderly_start (x : Coop σ ρ ρ) (s : σ) : Orderly (start x s) where
  once := Multiset.nodup_singleton Owner.root
  seated owner howner := Multiset.mem_singleton.1 howner ▸ trivial
  recorded g group i a hget := by cases hget

theorem active_doing (p : Pool σ ρ) (owner : Owner) (x : Coop σ ρ ρ) :
    active ⟨p, some (owner, x)⟩ = owner ::ₘ p.active [] := census_cons concerns waiting? p (.resume owner x) []

/-- Who goes on stays where he is. -/
theorem active_going (p : Pool σ ρ) (owner : Owner) (x y : Coop σ ρ ρ) (s : σ) :
    active ⟨{ p with state := s }, some (owner, y)⟩ = active ⟨p, some (owner, x)⟩ := by
  rw [active_doing, active_doing]
  rfl

theorem active_take {p : Pool σ ρ} {before after : List (Ready σ ρ)} {item : Ready σ ρ}
    (hqueue : p.queue = before ++ item :: after) :
    active ⟨p, none⟩ = concerns item ::ₘ ({ p with queue := before ++ after } : Pool σ ρ).active [] :=
  census_take hqueue

/-- As long as the groups are as they were, nobody new is under way. -/
theorem Orderly.of_le (h : Orderly m) (hle : n.active ≤ m.active) (hgroups : n.pool.groups = m.pool.groups) :
    Orderly n := by
  refine ⟨Multiset.nodup_of_le hle h.once, fun o ho => ?_, fun g group i a hget hopen hi hmem => ?_⟩
  · have hseated := h.seated o (Multiset.mem_of_le hle ho)
    cases o with
    | root => trivial
    | member g i => rwa [Seated, hgroups]
  · rw [hgroups] at hget
    exact h.recorded g group i a hget hopen hi (Multiset.mem_of_le hle hmem)

/-- Where a group is made, its parts are under way beside those who were so before. -/
theorem active_parted (p : Pool σ ρ) (owner : Owner) (x : Coop σ ρ ρ) (parts : List (Coop σ ρ ρ))
    (k : Except Failure (List ρ) → Coop σ ρ ρ) (s : σ) :
    active ⟨p.stopped owner (.gather parts k, s), none⟩ =
      ↑((List.range' 0 parts.length).map (Owner.member p.groups.size)) + active ⟨p, some (owner, x)⟩ := by
  rw [active_doing]
  exact active_stopped p owner (.gather parts k) s

theorem mem_active_parted {p : Pool σ ρ} {x : Coop σ ρ ρ} {parts : List (Coop σ ρ ρ)}
    {k : Except Failure (List ρ) → Coop σ ρ ρ} {s : σ} {o : Owner} :
    o ∈ active ⟨p.stopped owner (.gather parts k, s), none⟩ ↔
      (∃ i < parts.length, o = .member p.groups.size i) ∨ o ∈ active ⟨p, some (owner, x)⟩ := by
  rw [active_parted p owner x, Multiset.mem_add, Multiset.mem_coe, List.mem_map]
  refine or_congr_left (exists_congr fun i => ?_)
  rw [List.mem_range'_1, Nat.zero_add, eq_comm]
  exact and_congr_left fun _ => and_iff_right (Nat.zero_le i)

/-- Whoever starts others together is in one place, and so is each of them: nobody had their seats before. -/
theorem Orderly.parted {p : Pool σ ρ} {x : Coop σ ρ ρ} (h : Orderly ⟨p, some (owner, x)⟩) (parts : List (Coop σ ρ ρ))
    (k : Except Failure (List ρ) → Coop σ ρ ρ) (s : σ) : Orderly ⟨p.stopped owner (.gather parts k, s), none⟩ where
  once := by
    rw [active_parted p owner x, Multiset.nodup_add]
    refine ⟨?_, h.once, ?_⟩
    · refine Multiset.coe_nodup.2 (List.Nodup.map (fun i j hij => (Owner.member.inj hij).2) ?_)
      exact List.nodup_range'
    · rw [Multiset.disjoint_left]
      intro o ho hold
      obtain ⟨i, -, rfl⟩ := List.mem_map.1 (Multiset.mem_coe.1 ho)
      exact not_seated_next p i (h.seated _ hold)
  seated o ho := by
    rcases mem_active_parted.1 ho with ⟨i, hi, rfl⟩ | ho
    · exact ⟨_, Array.getElem?_push_size, by rwa [Array.size_replicate]⟩
    · exact (stays_stopped p owner (.gather parts k, s)).seated (h.seated o ho)
  recorded g group i a hget hopen hi ho := by
    replace hget : (p.groups.push ⟨owner, Array.replicate parts.length none, false, k⟩)[g]? = some group := hget
    rw [Array.getElem?_push] at hget
    by_cases hg : g = p.groups.size
    · rw [if_pos hg] at hget
      obtain rfl := Option.some.inj hget
      -- a new group has no results
      have hlt := (Array.getElem?_eq_some_iff.1 hi).1
      rw [Array.size_replicate] at hlt
      simp [hlt] at hi
    · rw [if_neg hg] at hget
      rcases mem_active_parted.1 ho with ⟨j, -, heq⟩ | ho
      · exact hg (Owner.member.inj heq).1
      · exact h.recorded g group i a hget hopen hi ho

theorem Orderly.stopped {p : Pool σ ρ} {x : Coop σ ρ ρ} (h : Orderly ⟨p, some (owner, x)⟩)
    (pause : Coop.Pause σ ρ ρ) (s : σ) : Orderly ⟨p.stopped owner (pause, s), none⟩ := by
  have hold := active_doing p owner x
  have hactive : active ⟨p.stopped owner (pause, s), none⟩ = _ := active_stopped p owner pause s
  have hgroups := stopped_groups p owner pause s
  cases pause with
  | done r =>
    refine h.of_le ?_ hgroups
    rw [hactive, hold]
    dsimp only
    by_cases hroot : owner = .root
    · rw [if_pos hroot]
      exact Multiset.le_cons_self _ _
    · rw [if_neg hroot]
  | turn k =>
    refine h.of_le ?_ hgroups
    rw [hactive, hold]
  | gather parts k => exact h.parted parts k s

/-- A group is put in the place of an open one, when the part at one of its places has ended: a result that was
there before belongs to one who is under way no more, and so does the new one. -/
theorem Orderly.recorded_set {p q : Pool σ ρ} {g place : Nat} {group group' : Group σ ρ} (h : Orderly ⟨p, none⟩)
    (hle : active ⟨q, none⟩ ≤ active ⟨p, none⟩) (hnot : Owner.member g place ∉ active ⟨q, none⟩)
    (hget : p.groups[g]? = some group) (hopen : group.settled = false)
    (hgroups : q.groups = p.groups.setIfInBounds g group') (hresults : ∀ (i : Nat) (b : ρ), group'.settled = false →
      group'.results[i]? = some (some b) → i = place ∨ group.results[i]? = some (some b))
    (j : Nat) (other : Group σ ρ) (i : Nat) (b : ρ) (hother : q.groups[j]? = some other)
    (hopen' : other.settled = false) (hi : other.results[i]? = some (some b)) :
    Owner.member j i ∉ active ⟨q, none⟩ := by
  intro hmem
  rw [hgroups, Array.getElem?_setIfInBounds, if_pos (Array.getElem?_eq_some_iff.1 hget).1] at hother
  by_cases hj : g = j
  · subst hj
    rw [if_pos rfl] at hother
    obtain rfl := Option.some.inj hother
    rcases hresults i b hopen' hi with rfl | hi
    · exact hnot hmem
    · exact h.recorded g group i b hget hopen hi (Multiset.mem_of_le hle hmem)
  · rw [if_neg hj] at hother
    exact h.recorded j other i b hother hopen' hi (Multiset.mem_of_le hle hmem)

theorem Orderly.reported {p q : Pool σ ρ} {before after : List (Ready σ ρ)} {g place : Nat}
    {r : Except Failure ρ} (h : Orderly ⟨p, none⟩) (hqueue : p.queue = before ++ .report g place r :: after)
    (hreport : Reported { p with queue := before ++ after } g place r q) : Orderly ⟨q, none⟩ := by
  have htake := active_take hqueue
  have hactive : active ⟨q, none⟩ = _ := hreport.active_eq
  have hnot : Owner.member g place ∉ active ⟨q, none⟩ := by
    have honce := h.once
    rw [htake, Multiset.nodup_cons] at honce
    rw [hactive]
    exact honce.1
  have hle : active ⟨q, none⟩ ≤ active ⟨p, none⟩ := by
    rw [hactive, htake]
    exact Multiset.le_cons_self _ _
  refine ⟨Multiset.nodup_of_le hle h.once,
    fun o ho => hreport.stays.seated (h.seated o (Multiset.mem_of_le hle ho)), ?_⟩
  cases hreport with
  | ignored => exact fun j other i b hother hopen hi hmem =>
      h.recorded j other i b hother hopen hi (Multiset.mem_of_le hle hmem)
  | failed hget hopen => exact h.recorded_set hle hnot hget hopen rfl fun i b hopen' => nomatch hopen'
  | completed hget hopen => exact h.recorded_set hle hnot hget hopen rfl fun i b hopen' => nomatch hopen'
  | @recorded group a hget hopen =>
    refine h.recorded_set hle hnot hget hopen rfl fun i b _ hi => ?_
    replace hi : (group.results.setIfInBounds place (some a))[i]? = some (some b) := hi
    rw [Array.getElem?_setIfInBounds] at hi
    by_cases hplace : place = i
    · exact Or.inl hplace.symm
    · rw [if_neg hplace] at hi
      exact Or.inr hi

theorem Step.orderly (h : Step C m t n) (horderly : Orderly m) : Orderly n := by
  cases h with
  | @begin p before after owner x hqueue =>
    refine horderly.of_le ?_ rfl
    rw [active_doing, active_take hqueue]
    exact le_refl _
  | report _ hqueue => exact horderly.reported hqueue (reported_report _ _ _ _)
  | act => exact horderly.of_le (le_of_eq (active_going _ _ _ _ _)) rfl
  | rest => exact horderly.stopped _ _
  | @skip p => exact horderly.of_le (le_of_eq (active_going _ _ _ _ p.state)) rfl
  | stop => exact horderly.stopped _ _

/-! ## 5. Those who have ended -/

/-- Someone has a seat and is under way no more. -/
structure Idle (m : Moment σ ρ) (owner : Owner) : Prop where
  seated : m.pool.Seated owner
  ended : owner ∉ m.active

theorem Step.stays (h : Step C m t n) : Stays m.pool n.pool := by
  have hsame : ∀ p : Pool σ ρ, Stays p p := fun p g group hget => ⟨group, hget, rfl⟩
  cases h with
  | @begin p => exact hsame p
  | @report p before after g place r hqueue =>
    exact (reported_report { p with queue := before ++ after } g place r).stays
  | @act p => exact hsame p
  | @rest p owner β a k => exact stays_stopped p owner _
  | @skip p => exact hsame p
  | @stop p owner x pause => exact stays_stopped p owner _

theorem mem_active_stopped {p : Pool σ ρ} {x : Coop σ ρ ρ} {pause : Coop.Pause σ ρ ρ} {s : σ} {o : Owner}
    (h : o ∈ active ⟨p.stopped owner (pause, s), none⟩) :
    o ∈ active ⟨p, some (owner, x)⟩ ∨ ∃ i, o = .member p.groups.size i := by
  have hactive : active ⟨p.stopped owner (pause, s), none⟩ = _ := active_stopped p owner pause s
  cases pause with
  | done r =>
    rw [hactive] at h
    rw [active_doing]
    dsimp only at h
    split at h
    · exact Or.inl (Multiset.mem_cons_of_mem h)
    · exact Or.inl h
  | turn k =>
    rw [hactive] at h
    rw [active_doing]
    exact Or.inl h
  | gather parts k => exact (mem_active_parted.1 h).symm.imp_right fun ⟨i, _, heq⟩ => ⟨i, heq⟩

/-- Who is under way after a step was so before, or is part of the group that has just been made. -/
theorem Step.mem_active (h : Step C m t n) {o : Owner} (ho : o ∈ n.active) :
    o ∈ m.active ∨ ∃ i, o = .member m.pool.groups.size i := by
  cases h with
  | @begin p before after owner x hqueue =>
    rw [active_doing] at ho
    rw [active_take hqueue]
    exact Or.inl ho
  | @report p before after g place r hqueue =>
    replace ho : o ∈ (({ p with queue := before ++ after } : Pool σ ρ).report g place r).active [] := ho
    rw [(reported_report _ g place r).active_eq] at ho
    rw [active_take hqueue]
    exact Or.inl (Multiset.mem_cons_of_mem ho)
  | act =>
    rw [active_going] at ho
    exact Or.inl ho
  | rest => exact mem_active_stopped ho
  | skip =>
    rw [active_doing] at ho ⊢
    exact Or.inl ho
  | stop => exact mem_active_stopped ho

/-- Only those who are under way put something on record. -/
theorem Step.own_eq_nil (h : Step C m t n) {o : Owner} (ho : o ∉ m.active) : t.own o = [] := by
  have hgoing : ∀ {p : Pool σ ρ} {owner : Owner} {x : Coop σ ρ ρ}, o ∉ active ⟨p, some (owner, x)⟩ →
      owner ≠ o := by
    rintro p owner x hnot rfl
    rw [active_doing] at hnot
    exact hnot (Multiset.mem_cons_self _ _)
  cases h with
  | act => exact Trace.own_of_ne (hgoing ho) _
  | rest => exact Trace.own_of_ne (hgoing ho) _
  | _ => rfl

/-- Nobody acts under the name of someone who has ended. -/
theorem Idle.step (h : Idle m owner) (hstep : Step C m t n) : Idle n owner ∧ t.own owner = [] := by
  refine ⟨⟨hstep.stays.seated h.seated, fun hmem => ?_⟩, hstep.own_eq_nil h.ended⟩
  rcases hstep.mem_active hmem with hold | ⟨i, rfl⟩
  · exact h.ended hold
  · exact not_seated_next m.pool i h.seated

/-- So what someone who has ended has put on record is complete. -/
theorem Idle.steps (h : Idle m owner) (hsteps : Steps C m t n) : Idle n owner ∧ t.own owner = [] := by
  induction hsteps with
  | refl => exact ⟨h, rfl⟩
  | step hstep _ ih =>
    obtain ⟨hidle, hnone⟩ := h.step hstep
    obtain ⟨hidle', hnone'⟩ := ih hidle
    refine ⟨hidle', ?_⟩
    rw [Trace.own_append, hnone, hnone']
    rfl

end Moment

end NodeFlow
