import NodeFlow.Proofs.Run.Schedule
import NodeFlow.Proofs.Run.Tasks
/-!
# Cooperative runs come to an end

A pool does not run dry before its root has ended: whoever waits does so for a part that is under way, or
that waits for a younger group in turn, and the youngest group is not waited for in vain. As there is ever
less to do, the root ends after some number of rounds.
-/

set_option autoImplicit false

namespace NodeFlow

open Relation

variable {σ ρ : Type}

namespace Pool

/-! ## 1. Nobody waits in vain -/

/-- The computation that something ready is about. -/
def concerns : Ready σ ρ → Owner
  | .resume owner _ => owner
  | .report g place _ => .member g place

/-- An owner was there before a group of that number: the root, or a part of an older group. -/
def Precedes (number : Nat) : Owner → Prop
  | .root => True
  | .member g _ => g < number

theorem Precedes.mono {m n : Nat} {owner : Owner} (h : Precedes m owner) (hle : m ≤ n) : Precedes n owner := by
  cases owner with
  | root => trivial
  | member g i => exact Nat.lt_of_lt_of_le h hle

/-- A computation is accounted for: it has ended and its end is known or about to be reported, or it is ready
to go on, or it waits for a younger group. -/
inductive Accounted (p : Pool σ ρ) (rest : List (Ready σ ρ)) : Owner → Prop
  | ended : p.result.isSome → Accounted p rest .root
  | reported {g i : Nat} {r : Except Failure ρ} : .report g i r ∈ p.queue ++ rest →
    Accounted p rest (.member g i)
  | ready {owner : Owner} {x : Coop σ ρ ρ} : .resume owner x ∈ p.queue ++ rest → Accounted p rest owner
  | waiting {owner : Owner} {g : Nat} {group : Group σ ρ} : p.groups[g]? = some group →
    group.owner = owner → group.settled = false → Accounted p rest owner

/-- The root is accounted for, and so is every missing part of a group that is still awaited, of which there
is one at least. Groups are younger than those who wait for them. -/
structure Live (p : Pool σ ρ) (rest : List (Ready σ ρ)) : Prop where
  owners : ∀ owner x, .resume owner x ∈ p.queue ++ rest → Precedes p.groups.size owner
  groups : ∀ (g : Nat) (group : Group σ ρ), p.groups[g]? = some group → Precedes g group.owner
  root : Accounted p rest .root
  missing : ∀ (g : Nat) (group : Group σ ρ), p.groups[g]? = some group → group.settled = false →
    complete? group.results = none
  parts : ∀ (g : Nat) (group : Group σ ρ), p.groups[g]? = some group → group.settled = false →
    ∀ i, group.results[i]? = some none → Accounted p rest (.member g i)

theorem exists_none_of_mapM {xs : List (Option ρ)} (h : xs.mapM id = none) : none ∈ xs := by
  induction xs with
  | nil => cases h
  | cons x xs ih =>
    cases x with
    | none => exact List.mem_cons_self
    | some a =>
      refine List.mem_cons_of_mem _ (ih ?_)
      rw [List.mapM_cons] at h
      cases hxs : xs.mapM id with
      | none => rfl
      | some bs =>
        rw [hxs] at h
        cases h

/-- As long as something is left to wait for, something is ready: the youngest group that is awaited has a
part that waits for none. -/
theorem Live.isSome_of_empty {p : Pool σ ρ} (h : Live p []) (hempty : p.queue = []) :
    p.result.isSome = true := by
  have hitem : ∀ item : Ready σ ρ, item ∉ p.queue ++ [] := by
    rw [hempty]
    exact fun item => List.not_mem_nil
  have hsettled : ∀ n g group, p.groups.size - g = n → p.groups[g]? = some group → group.settled = true := by
    intro n
    induction n using Nat.strong_induction_on with
    | _ n ih =>
      intro g group hn hget
      by_contra hopen
      have hopen := eq_false_of_ne_true hopen
      obtain ⟨i, hi⟩ := List.mem_iff_getElem?.1 (exists_none_of_mapM (h.missing g group hget hopen))
      rw [Array.getElem?_toList] at hi
      cases h.parts g group hget hopen i hi with
      | reported hr => exact hitem _ hr
      | ready hx => exact hitem _ hx
      | @waiting _ g' group' hget' howner hopen' =>
        have hlt := (Array.getElem?_eq_some_iff.1 hget').1
        have hyounger : g < g' := by
          have hprecedes := h.groups g' group' hget'
          rwa [howner] at hprecedes
        rw [ih (p.groups.size - g') (by omega) g' group' rfl hget'] at hopen'
        cases hopen'
  cases h.root with
  | ended hr => exact hr
  | ready hx => exact absurd hx (hitem _)
  | waiting hget _ hopen =>
    rw [hsettled _ _ _ rfl hget] at hopen
    cases hopen

/-! ## 2. Whatever happens, everyone stays accounted for -/

section

variable {p p' : Pool σ ρ} {item : Ready σ ρ} {rest : List (Ready σ ρ)} {owner : Owner} {g : Nat}
  {group : Group σ ρ}

/-- A computation that the item is not about stays accounted for, if the groups that it waits for stay open. -/
theorem Accounted.mono (h : Accounted p (item :: rest) owner) (hne : concerns item ≠ owner)
    (hqueue : p.queue ⊆ p'.queue)
    (hgroups : ∀ (g : Nat) (group : Group σ ρ), p.groups[g]? = some group → group.owner = owner →
      group.settled = false →
      ∃ group', p'.groups[g]? = some group' ∧ group'.owner = owner ∧ group'.settled = false)
    (hresult : p.result.isSome → p'.result.isSome) : Accounted p' rest owner := by
  have hitems : ∀ other : Ready σ ρ, concerns other = owner → other ∈ p.queue ++ item :: rest →
      other ∈ p'.queue ++ rest := by
    intro other hother hmem
    rcases List.mem_append.1 hmem with hmem | hmem
    · exact List.mem_append_left _ (hqueue hmem)
    · rcases List.mem_cons.1 hmem with rfl | hmem
      · exact absurd hother hne
      · exact List.mem_append_right _ hmem
  cases h with
  | ended hr => exact .ended (hresult hr)
  | reported hr => exact .reported (hitems _ rfl hr)
  | ready hx => exact .ready (hitems _ rfl hx)
  | waiting hget howner hopen =>
    obtain ⟨group', hget', howner', hopen'⟩ := hgroups _ _ hget howner hopen
    exact .waiting hget' howner' hopen'

/-- A computation has stopped. Whoever it is stays accounted for, and nobody else is touched. -/
theorem accounted_stopped (p : Pool σ ρ) (owner : Owner) (stop : Coop.Pause σ ρ ρ × σ)
    (rest : List (Ready σ ρ)) : Accounted (p.stopped owner stop) rest owner := by
  obtain ⟨pause, s⟩ := stop
  cases pause with
  | done r =>
    cases owner with
    | root => exact .ended rfl
    | member g i =>
      exact .reported (List.mem_append_left _ (List.mem_append_right _ (List.mem_singleton_self _)))
  | turn k => exact .ready (List.mem_append_left _ (List.mem_append_right _ (List.mem_singleton_self _)))
  | gather parts k => exact .waiting Array.getElem?_push_size rfl rfl

/-- What stays as it is when a computation goes on and stops. -/
structure Grows (p p' : Pool σ ρ) : Prop where
  queue : p.queue ⊆ p'.queue
  groups : ∀ (g : Nat) (group : Group σ ρ), p.groups[g]? = some group → p'.groups[g]? = some group
  size : p.groups.size ≤ p'.groups.size
  result : p.result.isSome → p'.result.isSome

theorem grows_stopped (p : Pool σ ρ) (owner : Owner) (stop : Coop.Pause σ ρ ρ × σ) :
    Grows p (p.stopped owner stop) := by
  obtain ⟨pause, s⟩ := stop
  cases pause with
  | done r =>
    cases owner with
    | root => exact ⟨fun _ h => h, fun _ _ h => h, Nat.le_refl _, fun _ => rfl⟩
    | member g i => exact ⟨List.subset_append_left _ _, fun _ _ h => h, Nat.le_refl _, fun h => h⟩
  | turn k => exact ⟨List.subset_append_left _ _, fun _ _ h => h, Nat.le_refl _, fun h => h⟩
  | gather parts k =>
    refine ⟨List.subset_append_left _ _, fun g group h => getElem?_push_of_some h _, ?_, fun h => h⟩
    exact Nat.le_of_lt (lt_of_lt_of_eq (Nat.lt_succ_self _) (Array.size_push _).symm)

theorem complete?_replicate {n : Nat} (hn : n ≠ 0) :
    complete? (Array.replicate n (none : Option ρ)) = none := by
  obtain ⟨m, rfl⟩ := Nat.exists_eq_succ_of_ne_zero hn
  rw [complete?, Array.toList_replicate, List.replicate_succ, List.mapM_cons]
  rfl

/-- What is new when a computation has stopped: it may be ready again, and it may have started a group, all of
whose parts are ready. -/
structure Adds (p p' : Pool σ ρ) (owner : Owner) : Prop where
  owners : ∀ other x, .resume other x ∈ p'.queue →
    .resume other x ∈ p.queue ∨ other = owner ∨ Precedes p'.groups.size other
  groups : ∀ (g : Nat) (group : Group σ ρ), p'.groups[g]? = some group → p.groups[g]? = some group ∨
    (p.groups.size ≤ g ∧ group.owner = owner ∧ complete? group.results = none ∧
      ∀ rest i, group.results[i]? = some none → Accounted p' rest (.member g i))

theorem adds_stopped (p : Pool σ ρ) (owner : Owner) {x : Coop σ ρ ρ} {stop : Coop.Pause σ ρ ρ × σ}
    (hless : stop.1.LessThan x) : Adds p (p.stopped owner stop) owner := by
  obtain ⟨pause, s⟩ := stop
  cases pause with
  | done r =>
    cases owner with
    | root => exact ⟨fun _ _ h => Or.inl h, fun _ _ h => Or.inl h⟩
    | member g i =>
      refine ⟨fun other y hy => ?_, fun _ _ h => Or.inl h⟩
      rcases List.mem_append.1 hy with hy | hy
      · exact Or.inl hy
      · cases List.mem_singleton.1 hy
  | turn k =>
    refine ⟨fun other y hy => ?_, fun _ _ h => Or.inl h⟩
    rcases List.mem_append.1 hy with hy | hy
    · exact Or.inl hy
    · cases List.mem_singleton.1 hy
      exact Or.inr (Or.inl rfl)
  | gather parts k =>
    refine ⟨fun other y hy => ?_, fun g group hget => ?_⟩
    · rcases List.mem_append.1 hy with hy | hy
      · exact Or.inl hy
      · obtain ⟨i, _, -, heq⟩ := mem_members_iff.1 hy
        obtain ⟨rfl, -⟩ := Ready.resume.inj heq
        exact Or.inr (Or.inr (lt_of_lt_of_eq (Nat.lt_succ_self _) (Array.size_push _).symm))
    · replace hget : (p.groups.push _)[g]? = some group := hget
      rw [Array.getElem?_push] at hget
      split at hget
      · next hg =>
        obtain rfl := Option.some.inj hget
        subst hg
        refine Or.inr ⟨Nat.le_refl _, rfl,
          complete?_replicate fun hn => hless.1 (List.length_eq_zero_iff.1 hn), fun rest i hi => ?_⟩
        have hlt := (Array.getElem?_eq_some_iff.1 hi).1
        rw [Array.size_replicate] at hlt
        have hmem : .resume (.member p.groups.size i) parts[i] ∈ members p.groups.size 0 parts :=
          mem_members_iff.2 ⟨i, parts[i], List.getElem?_eq_getElem hlt, by rw [Nat.zero_add]⟩
        exact .ready (List.mem_append_left _ (List.mem_append_right _ hmem))
      · exact Or.inl hget

theorem Live.stopped {x : Coop σ ρ ρ} (h : Live p (.resume owner x :: rest))
    {stop : Coop.Pause σ ρ ρ × σ} (hless : stop.1.LessThan x) : Live (p.stopped owner stop) rest := by
  have hgrows := grows_stopped p owner stop
  have hadds := adds_stopped p owner hless
  have howner : Precedes p.groups.size owner := h.owners owner x (List.mem_append_right _ List.mem_cons_self)
  -- the one who goes on is accounted for, and so is everybody else
  have hall : ∀ other, Accounted p (.resume owner x :: rest) other →
      Accounted (p.stopped owner stop) rest other := by
    intro other hother
    by_cases hsame : owner = other
    · subst hsame
      exact accounted_stopped p owner stop rest
    · exact hother.mono hsame hgrows.queue
        (fun g group hget hown hopen => ⟨group, hgrows.groups g group hget, hown, hopen⟩) hgrows.result
  refine { owners := ?owners, groups := ?groups, root := hall _ h.root, missing := ?missing, parts := ?parts }
  case owners =>
    intro other y hy
    have hold : .resume other y ∈ p.queue ++ .resume owner x :: rest →
        Precedes (p.stopped owner stop).groups.size other := fun hmem => (h.owners other y hmem).mono hgrows.size
    rcases List.mem_append.1 hy with hy | hy
    · rcases hadds.owners other y hy with hmem | rfl | hnew
      · exact hold (List.mem_append_left _ hmem)
      · exact howner.mono hgrows.size
      · exact hnew
    · exact hold (List.mem_append_right _ (List.mem_cons_of_mem _ hy))
  case groups =>
    intro g group hget
    rcases hadds.groups g group hget with hold | ⟨hle, rfl, -⟩
    · exact h.groups g group hold
    · exact howner.mono hle
  case missing =>
    intro g group hget hopen
    rcases hadds.groups g group hget with hold | ⟨-, -, hnew, -⟩
    · exact h.missing g group hold hopen
    · exact hnew
  case parts =>
    intro g group hget hopen i hi
    rcases hadds.groups g group hget with hold | ⟨-, -, -, hnew⟩
    · exact hall _ (h.parts g group hold hopen i hi)
    · exact hnew rest i hi

theorem Live.resume {x : Coop σ ρ ρ} (h : Live p (.resume owner x :: rest)) :
    Live (p.resume owner x) rest := by
  rw [resume_eq_stopped]
  exact h.stopped (Coop.lessThan_advance x p.state)

/-- Someone who goes on stays accounted for on the way. -/
theorem Live.replace {x : Coop σ ρ ρ} (h : Live p (.resume owner x :: rest)) (y : Coop σ ρ ρ) (s : σ) :
    Live { p with state := s } (.resume owner y :: rest) := by
  have hitems : ∀ other : Ready σ ρ, other ∈ p.queue ++ .resume owner x :: rest →
      other = .resume owner x ∨ other ∈ p.queue ++ .resume owner y :: rest := by
    intro other hmem
    simp only [List.mem_append, List.mem_cons] at hmem ⊢
    tauto
  have hself : (.resume owner y : Ready σ ρ) ∈ p.queue ++ .resume owner y :: rest :=
    List.mem_append_right _ List.mem_cons_self
  have hall : ∀ {other : Owner}, Accounted p (.resume owner x :: rest) other →
      Accounted { p with state := s } (.resume owner y :: rest) other := by
    intro other hother
    cases hother with
    | ended hr => exact .ended hr
    | reported hr => exact .reported ((hitems _ hr).resolve_left nofun)
    | ready hx =>
      rcases hitems _ hx with heq | hmem
      · obtain ⟨rfl, -⟩ := Ready.resume.inj heq
        exact .ready hself
      · exact .ready hmem
    | waiting hget howner hopen => exact .waiting hget howner hopen
  refine ⟨fun other z hz => ?_, h.groups, hall h.root, h.missing,
    fun g group hget hopen i hi => hall (h.parts g group hget hopen i hi)⟩
  have howner := h.owners owner x (List.mem_append_right _ List.mem_cons_self)
  rcases List.mem_append.1 hz with hz | hz
  · exact h.owners other z (List.mem_append_left _ hz)
  · rcases List.mem_cons.1 hz with heq | hz
    · obtain ⟨rfl, -⟩ := Ready.resume.inj heq
      exact howner
    · exact h.owners other z (List.mem_append_right _ (List.mem_cons_of_mem _ hz))

/-- What the report of a part may change: its group has one more result, or whoever waits for the group is
ready to go on. -/
structure Takes (p p' : Pool σ ρ) (g place : Nat) : Prop where
  queue : p.queue ⊆ p'.queue
  owners : ∀ other x, .resume other x ∈ p'.queue →
    .resume other x ∈ p.queue ∨ Precedes p.groups.size other
  size : p'.groups.size = p.groups.size
  result : p'.result = p.result
  groups : ∀ (j : Nat) (group' : Group σ ρ), p'.groups[j]? = some group' →
    ∃ group, p.groups[j]? = some group ∧ group'.owner = group.owner ∧
      (group'.settled = false → group.settled = false ∧ complete? group'.results = none ∧
        ∀ i, group'.results[i]? = some none → group.results[i]? = some none ∧ (j = g → i ≠ place))
  awaited : ∀ (j : Nat) (group : Group σ ρ), p.groups[j]? = some group → group.settled = false →
    (∃ group', p'.groups[j]? = some group' ∧ group'.owner = group.owner ∧ group'.settled = false) ∨
      ∃ x, .resume group.owner x ∈ p'.queue

/-- Whoever is not the part that reports stays accounted for. -/
theorem Live.report_of_takes {place : Nat} {r : Except Failure ρ} (h : Live p (.report g place r :: rest))
    (htakes : Takes p p' g place) : Live p' rest := by
  have hall : ∀ other, other ≠ .member g place → Accounted p (.report g place r :: rest) other →
      Accounted p' rest other := by
    intro other hne hother
    by_cases hready : ∃ x, .resume other x ∈ p'.queue
    · obtain ⟨x, hx⟩ := hready
      exact .ready (List.mem_append_left _ hx)
    · refine hother.mono hne.symm htakes.queue (fun j group hget hown hopen => ?_) fun hr => htakes.result ▸ hr
      subst hown
      exact (htakes.awaited j group hget hopen).resolve_right hready
  refine { owners := ?owners, groups := ?groups, root := hall _ nofun h.root, missing := ?missing, parts := ?parts }
  case owners =>
    intro other x hx
    rw [htakes.size]
    rcases List.mem_append.1 hx with hx | hx
    · rcases htakes.owners other x hx with hold | hnew
      · exact h.owners other x (List.mem_append_left _ hold)
      · exact hnew
    · exact h.owners other x (List.mem_append_right _ (List.mem_cons_of_mem _ hx))
  case groups =>
    intro j group' hget'
    obtain ⟨group, hget, howner, -⟩ := htakes.groups j group' hget'
    rw [howner]
    exact h.groups j group hget
  case missing =>
    intro j group' hget' hopen'
    obtain ⟨group, -, -, hopen⟩ := htakes.groups j group' hget'
    exact (hopen hopen').2.1
  case parts =>
    intro j group' hget' hopen' i hi
    obtain ⟨group, hget, -, hopen⟩ := htakes.groups j group' hget'
    obtain ⟨hopen, -, hresults⟩ := hopen hopen'
    obtain ⟨hold, hne⟩ := hresults i hi
    refine hall _ ?_ (h.parts j group hget hopen i hold)
    intro heq
    obtain ⟨hj, hi⟩ := Owner.member.inj heq
    exact hne hj hi

/-- A report of no interest changes nothing. -/
theorem takes_refl {place : Nat} (h : Live p (item :: rest))
    (hsettled : ∀ group, p.groups[g]? = some group → group.settled = true) : Takes p p g place where
  queue := fun _ hx => hx
  owners _ _ hx := Or.inl hx
  size := rfl
  result := rfl
  groups j group hget := by
    refine ⟨group, hget, rfl, fun hopen => ⟨hopen, h.missing j group hget hopen, fun i hi => ⟨hi, ?_⟩⟩⟩
    rintro rfl
    rw [hsettled group hget] at hopen
    cases hopen
  awaited j group hget hopen := Or.inl ⟨group, hget, rfl, hopen⟩

/-- Whoever waits for a group goes on. -/
theorem takes_settle {place : Nat} {group' : Group σ ρ} (h : Live p (item :: rest))
    (hget : p.groups[g]? = some group) (howner : group'.owner = group.owner) (r : Except Failure (List ρ)) :
    Takes p (p.settle g group' r) g place where
  queue := List.subset_append_left _ _
  owners other x hx := by
    rcases List.mem_append.1 hx with hx | hx
    · exact Or.inl hx
    · obtain ⟨rfl, -⟩ := Ready.resume.inj (List.mem_singleton.1 hx)
      have hlt := (Array.getElem?_eq_some_iff.1 hget).1
      rw [howner]
      exact Or.inr ((h.groups g group hget).mono (Nat.le_of_lt hlt))
  size := Array.size_setIfInBounds
  result := rfl
  groups j other hother := by
    rw [getElem?_settle hget] at hother
    split at hother
    · next hj =>
      subst hj
      obtain rfl := Option.some.inj hother
      exact ⟨group, hget, howner, nofun⟩
    · next hj =>
      refine ⟨other, hother, rfl, fun hopen => ⟨hopen, h.missing j other hother hopen, fun i hi => ⟨hi, ?_⟩⟩⟩
      exact fun hj' => absurd hj'.symm hj
  awaited j other hother hopen := by
    by_cases hj : g = j
    · subst hj
      obtain rfl := Option.some.inj (hget.symm.trans hother)
      have hready : .resume group'.owner (group'.resume r) ∈ (p.settle g group' r).queue :=
        List.mem_append_right _ (List.mem_singleton_self _)
      exact Or.inr ⟨_, howner ▸ hready⟩
    · refine Or.inl ⟨other, ?_, rfl, hopen⟩
      rw [getElem?_settle hget, if_neg hj, hother]

/-- A group has one more result, and others are missing. -/
theorem takes_record {place : Nat} {a : ρ} {results : Array (Option ρ)} (h : Live p (item :: rest))
    (hget : p.groups[g]? = some group) (hopen : group.settled = false)
    (hresults : results = group.results.setIfInBounds place (some a)) (hmissing : complete? results = none) :
    Takes p { p with groups := p.groups.setIfInBounds g { group with results } } g place := by
  have hlt := (Array.getElem?_eq_some_iff.1 hget).1
  refine { queue := fun _ hx => hx, owners := fun _ _ hx => Or.inl hx,
           size := Array.size_setIfInBounds, result := rfl, groups := ?groups, awaited := ?awaited }
  case groups =>
    intro j other hother
    replace hother : (p.groups.setIfInBounds g _)[j]? = some other := hother
    rw [Array.getElem?_setIfInBounds, if_pos hlt] at hother
    split at hother
    · next hj =>
      subst hj
      obtain rfl := Option.some.inj hother
      refine ⟨group, hget, rfl, fun _ => ⟨hopen, hmissing, fun i hi => ?_⟩⟩
      replace hi : results[i]? = some none := hi
      rw [hresults, Array.getElem?_setIfInBounds] at hi
      -- the place of the part has a result now
      split at hi
      · split at hi <;> cases hi
      · next hne => exact ⟨hi, fun _ => Ne.symm hne⟩
    · next hj =>
      refine ⟨other, hother, rfl, fun hopen => ⟨hopen, h.missing j other hother hopen, fun i hi => ⟨hi, ?_⟩⟩⟩
      exact fun hj' => absurd hj'.symm hj
  case awaited =>
    intro j other hother hopen'
    refine Or.inl ?_
    change ∃ group', (p.groups.setIfInBounds g _)[j]? = some group' ∧ _
    rw [Array.getElem?_setIfInBounds, if_pos hlt]
    split
    · next hj =>
      subst hj
      obtain rfl := Option.some.inj (hget.symm.trans hother)
      exact ⟨_, rfl, rfl, hopen⟩
    · exact ⟨other, hother, rfl, hopen'⟩

theorem Live.report {place : Nat} {r : Except Failure ρ} (h : Live p (.report g place r :: rest)) :
    Live (p.report g place r) rest := by
  refine h.report_of_takes ?_
  rw [Pool.report]
  cases hget : p.groups[g]? with
  | none =>
    refine takes_refl h fun group hgroup => ?_
    rw [hget] at hgroup
    cases hgroup
  | some group =>
    dsimp only
    by_cases hsettled : group.settled = true
    · rw [if_pos hsettled]
      refine takes_refl h fun other hother => ?_
      exact Option.some.inj (hget.symm.trans hother) ▸ hsettled
    · rw [if_neg hsettled]
      cases r with
      | error e => exact takes_settle h hget rfl _
      | ok a =>
        dsimp only
        cases hall : complete? (group.results.setIfInBounds place (some a)) with
        | some as =>
          have howner : ({ group with results := group.results.setIfInBounds place (some a) } :
            Group σ ρ).owner = group.owner := rfl
          exact takes_settle h hget howner _
        | none => exact takes_record h hget (eq_false_of_ne_true hsettled) rfl hall

/-! ## 3. Rounds -/

theorem Live.fire (h : Live p (item :: rest)) : Live (p.fire item) rest := by
  cases item with
  | resume owner x => exact h.resume
  | report g place r => exact h.report

/-- Everything that is ready happens: everyone stays accounted for, and there is less to do. -/
theorem Live.foldl_fire (h : Live p rest) : Live (rest.foldl Pool.fire p) [] ∧
    ReflTransGen (CutExpand Task.Less) ((rest.foldl Pool.fire p).tasks []) (p.tasks rest) := by
  induction rest generalizing p with
  | nil => exact ⟨h, .refl⟩
  | cons item rest ih =>
    obtain ⟨hlive, hfewer⟩ := ih h.fire
    exact ⟨hlive, hfewer.trans (fewer_fire p item rest).to_reflTransGen⟩

/-- Who is accounted for does not depend on the order of what is ready. -/
theorem Live.congr {rest' : List (Ready σ ρ)} (h : Live p rest)
    (hitems : ∀ other, other ∈ p'.queue ++ rest' ↔ other ∈ p.queue ++ rest) (hgroups : p'.groups = p.groups)
    (hresult : p'.result = p.result) : Live p' rest' := by
  have hall : ∀ {other : Owner}, Accounted p rest other → Accounted p' rest' other := by
    intro other hother
    cases hother with
    | ended hr => exact .ended (hresult ▸ hr)
    | reported hr => exact .reported ((hitems _).2 hr)
    | ready hx => exact .ready ((hitems _).2 hx)
    | waiting hget howner hopen => exact .waiting (hgroups ▸ hget) howner hopen
  constructor
  · exact fun other x hx => hgroups ▸ h.owners other x ((hitems _).1 hx)
  · exact fun g group hget => h.groups g group (hgroups ▸ hget)
  · exact hall h.root
  · exact fun g group hget => h.missing g group (hgroups ▸ hget)
  · exact fun g group hget hopen i hi => hall (h.parts g group (hgroups ▸ hget) hopen i hi)

theorem live_taken (h : Live p []) : Live { p with queue := [] } p.queue :=
  h.congr (fun other => by rw [List.append_nil]; rfl) rfl rfl

theorem Live.round (h : Live p []) : Live p.round [] := (live_taken h).foldl_fire.1

/-- A round in which something happens leaves less to do. -/
theorem Live.fewer_round (h : Live p []) (hsome : p.queue ≠ []) :
    Fewer (p.round.tasks []) (p.tasks []) := by
  have htaken := live_taken h
  have htasks : ({ p with queue := [] } : Pool σ ρ).tasks p.queue = p.tasks [] := by
    rw [tasks, tasks, census, census, List.append_nil]
    rfl
  rw [← htasks, Pool.round]
  cases hqueue : p.queue with
  | nil => exact absurd hqueue hsome
  | cons item rest =>
    rw [hqueue] at htaken
    exact TransGen.trans_right htaken.fire.foldl_fire.2 (fewer_fire _ item rest)

end

theorem live_start (x : Coop σ ρ ρ) (s : σ) : Live (Pool.start x s) [] where
  owners other y hy := by
    obtain ⟨rfl, -⟩ := Ready.resume.inj (List.mem_singleton.1 hy)
    trivial
  groups g group hget := by cases hget
  root := .ready (List.mem_singleton_self _)
  missing g group hget := by cases hget
  parts g group hget := by cases hget

/-- The result of the root stays. -/
theorem isSome_fire {p : Pool σ ρ} (h : p.result.isSome = true) (item : Ready σ ρ) :
    (p.fire item).result.isSome = true := by
  cases item with
  | resume owner x =>
    rw [Pool.fire, resume_eq_stopped]
    exact (grows_stopped p owner _).result h
  | report g place r =>
    have hsame : (p.report g place r).result = p.result := by
      rw [Pool.report]
      split
      · rfl
      · split
        · rfl
        · split
          · rfl
          · dsimp only
            split <;> rfl
    exact (congrArg Option.isSome hsame).trans h

theorem isSome_round {p : Pool σ ρ} (h : p.result.isSome = true) : p.round.result.isSome = true := by
  rw [Pool.round]
  have hfold : ∀ (rest : List (Ready σ ρ)) (q : Pool σ ρ), q.result.isSome = true →
      (rest.foldl Pool.fire q).result.isSome = true := by
    intro rest
    induction rest with
    | nil => exact fun q hq => hq
    | cons item rest ih => exact fun q hq => ih _ (isSome_fire hq item)
  exact hfold _ _ h

/-- With enough rounds the root ends: there is ever less to do, and as long as the root has not ended there
is something that is ready. -/
theorem Live.exists_rounds {p : Pool σ ρ} (h : Live p []) (hrunning : p.result.isSome = false) :
    ∃ enough, ∀ n ≥ enough, (p.rounds n).result.isSome = true := by
  induction htasks : p.tasks [] using wellFounded_fewer.induction generalizing p with
  | _ tasks ih =>
    subst htasks
    have hsome : p.queue ≠ [] := fun hempty => by
      rw [h.isSome_of_empty hempty] at hrunning
      cases hrunning
    cases hround : p.round.result.isSome with
    | true =>
      refine ⟨1, fun n hn => ?_⟩
      obtain ⟨n, rfl⟩ := Nat.exists_eq_add_of_le' hn
      rw [Pool.rounds]
      simp only [hround, if_true]
      exact isSome_round hround
    | false =>
      obtain ⟨enough, henough⟩ := ih _ (h.fewer_round hsome) h.round hround rfl
      refine ⟨enough + 1, fun n hn => ?_⟩
      obtain ⟨n, rfl⟩ := Nat.exists_eq_add_of_le' hn
      rw [← Nat.add_assoc, Pool.rounds]
      simp only [hround, Bool.false_eq_true, if_false]
      exact henough _ (Nat.le_add_left _ _)

end Pool

/-- **Cooperative runs come to an end.** With enough rounds a computation gives a result, whatever it
does. -/
theorem Coop.exists_result (x : Coop σ ρ ρ) (s : σ) :
    ∃ enough, ∀ n ≥ enough, ((Pool.start x s).rounds n).result.isSome = true :=
  (Pool.live_start x s).exists_rounds rfl

/-- And then what the computation promises holds of its run. -/
theorem Coop.Meets.exists_run {τ : Type} {R : Regime σ ρ τ} {h : τ} {x : Coop σ ρ ρ}
    {Q : Except Failure ρ → Option τ → Prop} (hx : Coop.Meets R (some h) x Q) {s : σ}
    (hs : R.Admits (some h) s) : ∃ enough, ∀ n ≥ enough,
      Q (x.run n s).1 (R.after (some h) (x.run n s).2) := by
  obtain ⟨enough, henough⟩ := x.exists_result s
  refine ⟨enough, fun n hn => ?_⟩
  have hresult := henough n hn
  rw [Coop.run]
  obtain ⟨-, hend⟩ := Pool.sound_start (M := R.manners)
    (fun s' hquiet => hx.minds (@Regime.admits_of_bears _ _ _ R (some h) s s' hs hquiet)) n
  cases hend with
  | ready _ _ hnone =>
    rw [hnone] at hresult
    cases hresult
  | waiting _ _ _ _ _ hnone =>
    rw [hnone] at hresult
    cases hresult
  | ended _ _ hres hQ hquiet =>
    obtain ⟨-, hQ⟩ := hQ
    rw [hres]
    rwa [Regime.after, Option.map_some, ← hquiet.2] at hQ

end NodeFlow
