import NodeFlow.Proofs.Run.Logic
import NodeFlow.Proofs.Run.Manners
import NodeFlow.Run.Schedule
/-!
# Driving computations to their end

What holds of a computation holds of its run: the driver keeps to what everyone may do, and the result of the
root satisfies what the computation promises, unless the rounds run out.

There is one chain of control from the root on, and at any moment it has one place: it is ready to go
on, it waits for a group, or it has ended. Nothing else takes a step that is not quiet, also not what is left
over from a group that has failed, so only quiet steps come between two stretches of the chain.

What is known of a mark that only the root may change is a case of this: a quiet step is one that leaves the
mark as it is.
-/

set_option autoImplicit false

universe u

namespace NodeFlow

variable {σ ρ τ : Type} {α : Type}

/-! ## 1. One stretch -/

/-- A computation that is ready to go on as a part, whatever is done before. -/
def Coop.IsPart (M : Manners σ ρ) (s : σ) (x : Coop σ ρ ρ) : Prop :=
  ∀ s', M.step s s' → Coop.Minds M .part s' x M.part

/-- What a computation promises holds of what it comes to when it stops. -/
def Coop.Pause.Minds (M : Manners σ ρ) (role : Role) (s : σ) (Q : Except Failure α → σ → Prop) :
    Coop.Pause σ ρ α → Prop
  | .done r => Q r s
  | .turn k => ∀ s', M.Bears role s s' → Coop.Minds M role s' k Q
  | .gather parts k => (∀ p ∈ parts, p.IsPart M s) ∧
      ∀ s' r, M.Bears role s s' → M.Gathered s' r → Coop.Minds M role s' (k r) Q

theorem Coop.Minds.advance {M : Manners σ ρ} {role : Role} {s : σ} {x : Coop σ ρ α}
    {Q : Except Failure α → σ → Prop} (hx : Coop.Minds M role s x Q) :
    M.May role s (x.advance s).2 ∧ (x.advance s).1.Minds M role (x.advance s).2 Q := by
  induction hx with
  | done hQ => exact ⟨M.may_refl _ _, hQ⟩
  | act hmay _ ih => exact ⟨hmay.trans ih.1, ih.2⟩
  | turn hk _ => exact ⟨M.may_refl _ _, hk⟩
  | @gather role s α parts k Q hparts hk _ ih =>
    cases parts with
    | nil => exact ih s (.ok []) (M.bears_refl role s) fun a ha => absurd ha List.not_mem_nil
    | cons p ps => exact ⟨M.may_refl _ _, hparts, hk⟩

namespace Pool

/-! ## 2. What is under way -/

/-- The root, if that is what is ready. -/
def root? : Ready σ ρ → Option (Coop σ ρ ρ)
  | .resume .root x => some x
  | _ => none

/-- The root among what is ready. -/
def roots (rs : List (Ready σ ρ)) : List (Coop σ ρ ρ) := rs.filterMap root?

/-- The root waits for a group. -/
def Awaits (p : Pool σ ρ) (g : Nat) : Prop :=
  ∃ group, p.groups[g]? = some group ∧ group.owner = .root ∧ group.settled = false

/-- What is ready beside the root goes on, or has ended, as a part. -/
def ItemOk (M : Manners σ ρ) (s : σ) : Ready σ ρ → Prop
  | .resume .root _ => True
  | .resume (.member _ _) x => x.IsPart M s
  | .report _ _ r => M.part r s

/-- A group has results of parts, and whoever waits for it beside the root goes on as a part. -/
structure GroupOk (M : Manners σ ρ) (s : σ) (group : Group σ ρ) : Prop where
  resume : group.owner ≠ .root → ∀ s' r, M.step s s' → M.Gathered s' r →
    Coop.Minds M .part s' (group.resume r) M.part
  results : ∀ a, some a ∈ group.results.toList → M.part (.ok a) s

/-- What holds of everything beside the root, when `rest` is still to happen in this round. -/
structure Sound (M : Manners σ ρ) (s₀ : σ) (p : Pool σ ρ) (rest : List (Ready σ ρ)) : Prop where
  since : M.step s₀ p.state
  items : ∀ item ∈ p.queue ++ rest, ItemOk M p.state item
  groups : ∀ (g : Nat) (group : Group σ ρ), p.groups[g]? = some group → GroupOk M p.state group

/-- Where the root is. -/
inductive Root (M : Manners σ ρ) (Q : Except Failure ρ → σ → Prop) (p : Pool σ ρ)
    (rest : List (Ready σ ρ)) : Prop
  /-- it is ready to go on -/
  | ready {x : Coop σ ρ ρ} : roots (p.queue ++ rest) = [x] → (∀ g, ¬ p.Awaits g) →
    p.result = none → (∀ s', M.quiet p.state s' → Coop.Minds M .root s' x Q) → Root M Q p rest
  /-- it waits for a group -/
  | waiting {g : Nat} {group : Group σ ρ} : roots (p.queue ++ rest) = [] →
    p.groups[g]? = some group → group.owner = .root → group.settled = false →
    (∀ g', p.Awaits g' → g' = g) → p.result = none →
    (∀ s' r, M.quiet p.state s' → M.Gathered s' r → Coop.Minds M .root s' (group.resume r) Q) →
    Root M Q p rest
  /-- it has ended, in a state that quiet steps have led on from -/
  | ended {r : Except Failure ρ} {s : σ} : roots (p.queue ++ rest) = [] → (∀ g, ¬ p.Awaits g) →
    p.result = some r → Q r s → M.quiet s p.state → Root M Q p rest

variable {M : Manners σ ρ} {s₀ : σ} {Q : Except Failure ρ → σ → Prop}

theorem ItemOk.of_step {s s' : σ} {item : Ready σ ρ} (h : ItemOk M s item) (hstep : M.step s s') :
    ItemOk M s' item := by
  rcases item with ⟨- | ⟨g, i⟩, x⟩ | ⟨g, i, r⟩
  · trivial
  · exact fun s'' hs => h s'' (M.step_trans hstep hs)
  · exact M.part_of_step h hstep

theorem GroupOk.of_step {s s' : σ} {group : Group σ ρ} (h : GroupOk M s group) (hstep : M.step s s') :
    GroupOk M s' group where
  resume howner s'' r hs hr := h.resume howner s'' r (M.step_trans hstep hs) hr
  results a ha := M.part_of_step (h.results a ha) hstep

theorem roots_append (xs ys : List (Ready σ ρ)) : roots (xs ++ ys) = roots xs ++ roots ys :=
  List.filterMap_append

/-- The root stays where it is if neither it nor the group that it waits for is touched, and what has been
done is quiet. -/
theorem Root.congr {p p' : Pool σ ρ} {rest rest' : List (Ready σ ρ)} (h : Root M Q p rest)
    (hroots : roots (p'.queue ++ rest') = roots (p.queue ++ rest))
    (hgroups : ∀ (g : Nat) (group : Group σ ρ), p.groups[g]? = some group → group.owner = .root →
      group.settled = false → ∃ group', p'.groups[g]? = some group' ∧ group'.owner = .root ∧
        group'.settled = false ∧ group'.resume = group.resume)
    (hawaits : ∀ g, p'.Awaits g → p.Awaits g) (hresult : p'.result = p.result)
    (hquiet : M.quiet p.state p'.state) : Root M Q p' rest' := by
  cases h with
  | ready hr hnone hres hx =>
    exact .ready (hroots.trans hr) (fun g hg => hnone g (hawaits g hg)) (hresult.trans hres)
      fun s' hs => hx s' (M.quiet_trans hquiet hs)
  | waiting hr hget howner hsettled hone hres hk =>
    obtain ⟨group', hget', howner', hsettled', hresume⟩ := hgroups _ _ hget howner hsettled
    refine .waiting (hroots.trans hr) hget' howner' hsettled' (fun g' hg => hone g' (hawaits g' hg))
      (hresult.trans hres) ?_
    intro s' r hs hr
    rw [hresume]
    exact hk s' r (M.quiet_trans hquiet hs) hr
  | ended hr hnone hres hQ hs =>
    exact .ended (hroots.trans hr) (fun g hg => hnone g (hawaits g hg)) (hresult.trans hres) hQ
      (M.quiet_trans hs hquiet)

/-- A group that is put behind the others for someone beside the root is not awaited by it. -/
theorem awaits_push {p p' : Pool σ ρ} {group : Group σ ρ} (hgroups : p'.groups = p.groups.push group)
    {g : Nat} (h : p'.Awaits g) :
    p.Awaits g ∨ (g = p.groups.size ∧ group.owner = .root) := by
  obtain ⟨group', hget, howner, hsettled⟩ := h
  rw [hgroups, Array.getElem?_push] at hget
  split at hget
  · next hg =>
    obtain rfl := Option.some.inj hget
    exact Or.inr ⟨hg, howner⟩
  · exact Or.inl ⟨group', hget, howner, hsettled⟩

theorem getElem?_push_of_some {p : Pool σ ρ} {g : Nat} {group : Group σ ρ}
    (h : p.groups[g]? = some group) (new : Group σ ρ) :
    (p.groups.push new)[g]? = some group := by
  have hlt := (Array.getElem?_eq_some_iff.1 h).1
  rw [Array.getElem?_push, if_neg (Nat.ne_of_lt hlt), h]

theorem roots_members (g i : Nat) (parts : List (Coop σ ρ ρ)) : roots (members g i parts) = [] := by
  induction parts generalizing i with
  | nil => rfl
  | cons x xs ih => exact ih (i + 1)

/-- Every part that is started together with others is ready, each at its own place. -/
theorem mem_members_iff {g first : Nat} {parts : List (Coop σ ρ ρ)} {item : Ready σ ρ} :
    item ∈ members g first parts ↔
      ∃ (i : Nat) (x : Coop σ ρ ρ), parts[i]? = some x ∧ item = .resume (.member g (first + i)) x := by
  induction parts generalizing first with
  | nil =>
    rw [members]
    simp
  | cons y ys ih =>
    rw [members, List.mem_cons, ih]
    constructor
    · rintro (rfl | ⟨i, x, hx, rfl⟩)
      · exact ⟨0, y, rfl, rfl⟩
      · exact ⟨i + 1, x, hx, by rw [Nat.add_assoc, Nat.add_comm 1 i]⟩
    · rintro ⟨_ | i, x, hx, rfl⟩
      · cases hx
        exact Or.inl rfl
      · exact Or.inr ⟨i, x, hx, by rw [Nat.add_assoc, Nat.add_comm 1 i]⟩

theorem items_members {s : σ} {g i : Nat} {parts : List (Coop σ ρ ρ)}
    (h : ∀ x ∈ parts, x.IsPart M s) : ∀ item ∈ members g i parts, ItemOk M s item := by
  intro item hitem
  obtain ⟨n, x, hx, rfl⟩ := mem_members_iff.1 hitem
  exact h x (List.mem_of_getElem? hx)

/-- A new group has no results yet. -/
theorem groupOk_new {s : σ} {owner : Owner} {n : Nat} {k : Except Failure (List ρ) → Coop σ ρ ρ}
    (hk : owner ≠ .root → ∀ s' r, M.step s s' → M.Gathered s' r → Coop.Minds M .part s' (k r) M.part) :
    GroupOk M s ⟨owner, Array.replicate n none, false, k⟩ where
  resume := hk
  results a ha := by
    rw [Array.toList_replicate] at ha
    exact nomatch (List.eq_of_mem_replicate ha)

/-! ## 3. One thing that happens -/

/-- What is ready without what happens now. -/
theorem Sound.tail {p : Pool σ ρ} {item : Ready σ ρ} {rest : List (Ready σ ρ)}
    (h : Sound M s₀ p (item :: rest)) :
    ItemOk M p.state item ∧ (∀ x ∈ p.queue, ItemOk M p.state x) ∧ ∀ x ∈ rest, ItemOk M p.state x := by
  have hitems := h.items
  rw [List.forall_mem_append, List.forall_mem_cons] at hitems
  exact ⟨hitems.2.1, hitems.1, hitems.2.2⟩

/-- What is ready after a step, and after something more has become ready, in place of what happened. -/
theorem Sound.enqueued {p : Pool σ ρ} {item : Ready σ ρ} {new rest : List (Ready σ ρ)} {s : σ}
    (h : Sound M s₀ p (item :: rest)) (hstep : M.step p.state s) (hnew : ∀ x ∈ new, ItemOk M s x) :
    ∀ x ∈ p.queue ++ new ++ rest, ItemOk M s x := by
  obtain ⟨-, hqueue, hrest⟩ := h.tail
  rw [List.forall_mem_append, List.forall_mem_append]
  exact ⟨⟨fun x hx => (hqueue x hx).of_step hstep, hnew⟩, fun x hx => (hrest x hx).of_step hstep⟩

/-- The groups after a step, and after a new one has been put behind them. -/
theorem Sound.pushed {p : Pool σ ρ} {rest : List (Ready σ ρ)} {s : σ} (h : Sound M s₀ p rest)
    (hstep : M.step p.state s) {new : Group σ ρ} (hnew : GroupOk M s new) (j : Nat) (group : Group σ ρ)
    (hget : (p.groups.push new)[j]? = some group) : GroupOk M s group := by
  rw [Array.getElem?_push] at hget
  split at hget
  · obtain rfl := Option.some.inj hget
    exact hnew
  · exact (h.groups j group hget).of_step hstep

/-- A part goes on. -/
theorem Sound.resume_part {p : Pool σ ρ} {g i : Nat} {x : Coop σ ρ ρ} {rest : List (Ready σ ρ)}
    (h : Sound M s₀ p (.resume (.member g i) x :: rest))
    (hroot : Root M Q p (.resume (.member g i) x :: rest)) :
    Sound M s₀ (p.resume (.member g i) x) rest ∧ Root M Q (p.resume (.member g i) x) rest := by
  have hx : x.IsPart M p.state := h.tail.1
  have hadvance := (hx p.state (M.step_refl _)).advance
  rw [Pool.resume]
  generalize x.advance p.state = stop at hadvance ⊢
  obtain ⟨pause, s'⟩ := stop
  obtain ⟨hquiet, hpause⟩ := hadvance
  replace hquiet : M.quiet p.state s' := hquiet
  have hstep := M.step_of_quiet hquiet
  have hsince := M.step_trans h.since hstep
  have hgroups : ∀ (j : Nat) (group : Group σ ρ), p.groups[j]? = some group → GroupOk M s' group :=
    fun j group hget => (h.groups j group hget).of_step hstep
  -- a part puts no root among what is ready
  have hroots : ∀ new : List (Ready σ ρ), roots new = [] →
      roots (p.queue ++ new ++ rest) =
        roots (p.queue ++ .resume (.member g i) x :: rest) := by
    intro new hnew
    rw [roots_append, roots_append, hnew, List.append_nil, roots_append]
    rfl
  have hsame : ∀ (k : Nat) (group : Group σ ρ), p.groups[k]? = some group →
      group.owner = .root → group.settled = false → ∃ group', p.groups[k]? = some group' ∧
        group'.owner = .root ∧ group'.settled = false ∧ group'.resume = group.resume :=
    fun k group hget howner hsettled => ⟨group, hget, howner, hsettled, rfl⟩
  cases pause with
  | done r =>
    refine ⟨⟨hsince, ?_, hgroups⟩, ?_⟩
    · exact h.enqueued hstep (List.forall_mem_singleton.2 hpause)
    · exact hroot.congr (hroots [.report g i r] rfl) hsame (fun _ hk => hk) rfl hquiet
  | turn k =>
    refine ⟨⟨hsince, ?_, hgroups⟩, ?_⟩
    · exact h.enqueued hstep (List.forall_mem_singleton.2 hpause)
    · exact hroot.congr (hroots [.resume (.member g i) k] rfl) hsame (fun _ hk => hk) rfl hquiet
  | gather parts k =>
    obtain ⟨hparts, hk⟩ := hpause
    refine ⟨⟨hsince, ?_, ?_⟩, ?_⟩
    · exact h.enqueued hstep (items_members hparts)
    · exact h.pushed hstep (groupOk_new fun _ => hk)
    · refine hroot.congr (hroots _ (roots_members _ _ _)) ?_ ?_ rfl hquiet
      · exact fun j group hget howner hsettled =>
          ⟨group, getElem?_push_of_some hget _, howner, hsettled, rfl⟩
      · intro j hj
        -- the new group is awaited by the part, not by the root
        rcases awaits_push rfl hj with hj | ⟨-, howner⟩
        · exact hj
        · cases howner

/-- If the root is what happens now, it is nowhere else. -/
theorem Root.of_resume {p : Pool σ ρ} {x : Coop σ ρ ρ} {rest : List (Ready σ ρ)}
    (h : Root M Q p (.resume .root x :: rest)) :
    roots (p.queue ++ rest) = [] ∧ (∀ g, ¬ p.Awaits g) ∧ p.result = none ∧
      Coop.Minds M .root p.state x Q := by
  have hsplit : roots (p.queue ++ .resume .root x :: rest) =
      roots p.queue ++ x :: roots rest := roots_append _ _
  cases h with
  | @ready y hr hnone hres hy =>
    rw [hsplit, List.append_eq_singleton_iff] at hr
    rcases hr with ⟨hq, hx⟩ | ⟨-, hx⟩
    · obtain ⟨rfl, hrest⟩ := List.cons.inj hx
      exact ⟨by rw [roots_append, hq, hrest]; rfl, hnone, hres, hy p.state (M.quiet_refl _)⟩
    · exact absurd hx (List.cons_ne_nil _ _)
  | waiting hr => exact absurd (hsplit.symm.trans hr) (by simp)
  | ended hr => exact absurd (hsplit.symm.trans hr) (by simp)

/-- The root goes on. -/
theorem Sound.resume_root {p : Pool σ ρ} {x : Coop σ ρ ρ} {rest : List (Ready σ ρ)}
    (h : Sound M s₀ p (.resume .root x :: rest)) (hroot : Root M Q p (.resume .root x :: rest)) :
    Sound M s₀ (p.resume .root x) rest ∧ Root M Q (p.resume .root x) rest := by
  obtain ⟨hnoroot, hnone, hres, hx⟩ := hroot.of_resume
  rw [roots_append, List.append_eq_nil_iff] at hnoroot
  -- only quiet steps have been taken since the root stopped, so it goes on from a state that it knows
  have hadvance := hx.advance
  rw [Pool.resume]
  generalize x.advance p.state = stop at hadvance ⊢
  obtain ⟨pause, s'⟩ := stop
  obtain ⟨hstep, hpause⟩ := hadvance
  replace hstep : M.step p.state s' := hstep
  have hsince := M.step_trans h.since hstep
  have hgroups : ∀ (j : Nat) (group : Group σ ρ), p.groups[j]? = some group → GroupOk M s' group :=
    fun j group hget => (h.groups j group hget).of_step hstep
  cases pause with
  | done r =>
    have hnew : ∀ x ∈ ([] : List (Ready σ ρ)), ItemOk M s' x := fun x hx => absurd hx List.not_mem_nil
    have hitems := h.enqueued hstep hnew
    rw [List.append_nil] at hitems
    refine ⟨⟨hsince, hitems, hgroups⟩, ?_⟩
    refine .ended ?_ hnone rfl hpause (M.quiet_refl s')
    rw [roots_append, hnoroot.1, hnoroot.2, List.append_nil]
  | turn k =>
    refine ⟨⟨hsince, ?_, hgroups⟩, ?_⟩
    · exact h.enqueued hstep (List.forall_mem_singleton.2 trivial)
    · refine .ready ?_ hnone hres hpause
      change roots (p.queue ++ [.resume .root k] ++ rest) = [k]
      rw [roots_append, roots_append, hnoroot.1, hnoroot.2]
      rfl
  | gather parts k =>
    obtain ⟨hparts, hk⟩ := hpause
    refine ⟨⟨hsince, ?_, ?_⟩, ?_⟩
    · exact h.enqueued hstep (items_members hparts)
    · exact h.pushed hstep (groupOk_new fun howner => absurd rfl howner)
    · refine .waiting ?_ Array.getElem?_push_size rfl rfl ?_ hres hk
      · change roots (p.queue ++ members p.groups.size 0 parts ++ rest) = []
        rw [roots_append, roots_append, roots_members, hnoroot.1, hnoroot.2]
        rfl
      · -- no other group is awaited: the root has been in one place so far
        intro j hj
        rcases awaits_push rfl hj with hj | ⟨hj, -⟩
        · exact absurd hj (hnone j)
        · exact hj

theorem eq_map_some_of_mapM {xs : List (Option ρ)} {as : List ρ} (h : xs.mapM id = some as) :
    xs = as.map some := by
  induction xs generalizing as with
  | nil =>
    obtain rfl := Option.some.inj h
    rfl
  | cons x xs ih =>
    rw [List.mapM_cons] at h
    cases x with
    | none => cases h
    | some a =>
      cases hxs : xs.mapM id with
      | none => rw [hxs] at h; cases h
      | some bs =>
        rw [hxs] at h
        obtain rfl := Option.some.inj h
        rw [ih hxs, List.map_cons]

theorem getElem?_settle {p : Pool σ ρ} {g : Nat} {group group' : Group σ ρ}
    (hget : p.groups[g]? = some group) (r : Except Failure (List ρ)) (j : Nat) :
    (p.settle g group' r).groups[j]? =
      if g = j then some { group' with settled := true } else p.groups[j]? := by
  have hlt := (Array.getElem?_eq_some_iff.1 hget).1
  rw [Pool.settle, Pool.enqueue, Array.getElem?_setIfInBounds, if_pos hlt]

/-- A group that is settled is not awaited any more, and the others are as they were. -/
theorem awaits_of_settle {p : Pool σ ρ} {g j : Nat} {group group' : Group σ ρ}
    {r : Except Failure (List ρ)} (hget : p.groups[g]? = some group)
    (h : (p.settle g group' r).Awaits j) : p.Awaits j ∧ j ≠ g := by
  obtain ⟨other, hother, howner, hopen⟩ := h
  rw [getElem?_settle hget] at hother
  split at hother
  · obtain rfl := Option.some.inj hother
    cases hopen
  · next hne => exact ⟨⟨other, hother, howner, hopen⟩, Ne.symm hne⟩

theorem Sound.settled {p : Pool σ ρ} {g : Nat} {item : Ready σ ρ} {group group' : Group σ ρ}
    {r : Except Failure (List ρ)} {rest : List (Ready σ ρ)} (h : Sound M s₀ p (item :: rest))
    (hget : p.groups[g]? = some group) (hgroup' : GroupOk M p.state group') (hr : M.Gathered p.state r) :
    Sound M s₀ (p.settle g group' r) rest := by
  refine ⟨h.since, ?_, ?_⟩
  · refine h.enqueued (M.step_refl _) (List.forall_mem_singleton.2 ?_)
    cases hcase : group'.owner with
    | root => trivial
    | member j i =>
      have hne : group'.owner ≠ .root := by
        rw [hcase]
        exact nofun
      exact fun s' hs => hgroup'.resume hne s' r hs (hr.of_step hs)
  · intro j other hother
    rw [getElem?_settle hget] at hother
    split at hother
    · obtain rfl := Option.some.inj hother
      exact ⟨hgroup'.resume, hgroup'.results⟩
    · exact h.groups j other hother

/-- Whoever waits for a group goes on, with the results of its parts or the failure of one. -/
theorem Sound.settle {p : Pool σ ρ} {g place : Nat} {group group' : Group σ ρ}
    {result : Except Failure ρ} {r : Except Failure (List ρ)} {rest : List (Ready σ ρ)}
    (h : Sound M s₀ p (.report g place result :: rest))
    (hroot : Root M Q p (.report g place result :: rest)) (hget : p.groups[g]? = some group)
    (hopen : group.settled = false) (howner : group'.owner = group.owner)
    (hresume : group'.resume = group.resume) (hgroup' : GroupOk M p.state group')
    (hr : M.Gathered p.state r) :
    Sound M s₀ (p.settle g group' r) rest ∧ Root M Q (p.settle g group' r) rest := by
  refine ⟨h.settled hget hgroup' hr, ?_⟩
  have hroots : roots ((p.settle g group' r).queue ++ rest) =
      roots p.queue ++ (roots [.resume group'.owner (group'.resume r)] ++ roots rest) := by
    change roots (p.queue ++ [.resume group'.owner (group'.resume r)] ++ rest) = _
    rw [roots_append, roots_append, List.append_assoc]
  have hold : roots (p.queue ++ .report g place result :: rest) =
      roots p.queue ++ roots rest := roots_append _ _
  cases hcase : group.owner with
  | root =>
    -- the root waits for this group and for no other
    rw [howner, hcase] at hroots
    have hawaited : p.Awaits g := ⟨group, hget, hcase, hopen⟩
    cases hroot with
    | ready _ hnone => exact absurd hawaited (hnone g)
    | ended _ hnone => exact absurd hawaited (hnone g)
    | @waiting g' group'' hno hget' _ _ hone hres hk =>
      obtain rfl := hone g hawaited
      obtain rfl := Option.some.inj (hget.symm.trans hget')
      rw [hold, List.append_eq_nil_iff] at hno
      refine .ready ?_ ?_ hres fun s' hs => hk s' r hs (hr.of_step (M.step_of_quiet hs))
      · rw [hroots, hno.1, hno.2, hresume]
        rfl
      · intro j hj
        obtain ⟨hj, hne⟩ := awaits_of_settle hget hj
        exact hne (hone j hj)
  | member j i =>
    -- someone else waits, so the group of the root is another one and stays as it is
    rw [howner, hcase] at hroots
    refine hroot.congr (hroots.trans hold.symm) ?_ (fun j hj => (awaits_of_settle hget hj).1) rfl
      (M.quiet_refl _)
    intro k other hother hownerk hopenk
    have hne : g ≠ k := by
      rintro rfl
      obtain rfl := Option.some.inj (hget.symm.trans hother)
      rw [hcase] at hownerk
      cases hownerk
    refine ⟨other, ?_, hownerk, hopenk, rfl⟩
    rw [getElem?_settle hget, if_neg hne, hother]

/-- A report that changes no group leaves everything else as it is. -/
theorem Sound.skip {p : Pool σ ρ} {g place : Nat} {result : Except Failure ρ}
    {rest : List (Ready σ ρ)} (h : Sound M s₀ p (.report g place result :: rest))
    (hroot : Root M Q p (.report g place result :: rest)) : Sound M s₀ p rest ∧ Root M Q p rest := by
  obtain ⟨-, hqueue, hrest⟩ := h.tail
  refine ⟨⟨h.since, List.forall_mem_append.2 ⟨hqueue, hrest⟩, h.groups⟩, ?_⟩
  refine hroot.congr ?_ (fun j other hother hownerj hopenj =>
    ⟨other, hother, hownerj, hopenj, rfl⟩) (fun _ hj => hj) rfl (M.quiet_refl _)
  rw [roots_append, roots_append]
  rfl

/-- The results of a group with one more. -/
theorem GroupOk.put {s : σ} {group : Group σ ρ} (h : GroupOk M s group) {a : ρ} (ha : M.part (.ok a) s)
    (place : Nat) :
    GroupOk M s { group with results := group.results.setIfInBounds place (some a) } where
  resume := h.resume
  results b hb := by
    rw [Array.toList_setIfInBounds] at hb
    rcases List.mem_or_eq_of_mem_set hb with hb | hb
    · exact h.results b hb
    · exact Option.some.inj hb ▸ ha

/-- A group has one more result, and is awaited as before. -/
theorem Sound.record {p : Pool σ ρ} {g place : Nat} {result : Except Failure ρ} {group : Group σ ρ}
    {results : Array (Option ρ)} {rest : List (Ready σ ρ)}
    (h : Sound M s₀ p (.report g place result :: rest))
    (hroot : Root M Q p (.report g place result :: rest)) (hget : p.groups[g]? = some group)
    (hgroup : GroupOk M p.state { group with results := results }) :
    Sound M s₀ { p with groups := p.groups.setIfInBounds g { group with results := results } } rest ∧
      Root M Q { p with groups := p.groups.setIfInBounds g { group with results := results } }
        rest := by
  have hgroups : ∀ (j : Nat),
      (p.groups.setIfInBounds g { group with results := results })[j]? =
        if g = j then some { group with results := results } else p.groups[j]? := by
    intro j
    rw [Array.getElem?_setIfInBounds, if_pos (Array.getElem?_eq_some_iff.1 hget).1]
  obtain ⟨hskip, hrootskip⟩ := h.skip hroot
  refine ⟨⟨hskip.since, hskip.items, ?_⟩, hrootskip.congr rfl ?_ ?_ rfl (M.quiet_refl _)⟩
  · intro j other hother
    rw [hgroups] at hother
    split at hother
    · exact Option.some.inj hother ▸ hgroup
    · exact hskip.groups j other hother
  · intro j other hother hownerj hopenj
    rw [hgroups]
    split
    · next hj =>
      subst hj
      obtain rfl := Option.some.inj (hget.symm.trans hother)
      exact ⟨_, rfl, hownerj, hopenj, rfl⟩
    · exact ⟨other, hother, hownerj, hopenj, rfl⟩
  · rintro j ⟨other, hother, hownerj, hopenj⟩
    replace hother : (p.groups.setIfInBounds g { group with results := results })[j]? =
      some other := hother
    rw [hgroups] at hother
    split at hother
    · next hj =>
      obtain rfl := Option.some.inj hother
      exact hj ▸ ⟨group, hget, hownerj, hopenj⟩
    · exact ⟨other, hother, hownerj, hopenj⟩

/-- A part has ended. -/
theorem Sound.report {p : Pool σ ρ} {g place : Nat} {result : Except Failure ρ}
    {rest : List (Ready σ ρ)} (h : Sound M s₀ p (.report g place result :: rest))
    (hroot : Root M Q p (.report g place result :: rest)) :
    Sound M s₀ (p.report g place result) rest ∧ Root M Q (p.report g place result) rest := by
  have hpart : M.part result p.state := h.tail.1
  rw [Pool.report]
  cases hget : p.groups[g]? with
  | none => exact h.skip hroot
  | some group =>
    dsimp only
    by_cases hsettled : group.settled = true
    · -- what is left over from a group that has failed
      rw [if_pos hsettled]
      exact h.skip hroot
    · rw [if_neg hsettled]
      have hopen := eq_false_of_ne_true hsettled
      have hgroup := h.groups g group hget
      cases result with
      | error e => exact h.settle hroot hget hopen rfl rfl hgroup hpart
      | ok a =>
        have hput := hgroup.put hpart place
        dsimp only
        cases hall : complete? (group.results.setIfInBounds place (some a)) with
        | some as =>
          have hparts : ∀ b ∈ as, M.part (.ok b) p.state := by
            intro b hb
            refine hput.results b ?_
            rw [eq_map_some_of_mapM hall]
            exact List.mem_map_of_mem hb
          exact h.settle hroot hget hopen rfl rfl hput hparts
        | none => exact h.record hroot hget hput

/-! ## 4. Rounds -/

theorem Sound.fire {p : Pool σ ρ} {item : Ready σ ρ} {rest : List (Ready σ ρ)}
    (h : Sound M s₀ p (item :: rest)) (hroot : Root M Q p (item :: rest)) :
    Sound M s₀ (p.fire item) rest ∧ Root M Q (p.fire item) rest := by
  cases item with
  | resume owner x =>
    cases owner with
    | root => exact h.resume_root hroot
    | member g i => exact h.resume_part hroot
  | report g place r => exact h.report hroot

theorem Sound.foldl_fire {rest : List (Ready σ ρ)} {p : Pool σ ρ} (h : Sound M s₀ p rest)
    (hroot : Root M Q p rest) :
    Sound M s₀ (rest.foldl Pool.fire p) [] ∧ Root M Q (rest.foldl Pool.fire p) [] := by
  induction rest generalizing p with
  | nil => exact ⟨h, hroot⟩
  | cons item rest ih =>
    obtain ⟨hs, hr⟩ := h.fire hroot
    exact ih hs hr

theorem Sound.round {p : Pool σ ρ} (h : Sound M s₀ p []) (hroot : Root M Q p []) :
    Sound M s₀ p.round [] ∧ Root M Q p.round [] := by
  have hqueue : ({ p with queue := [] } : Pool σ ρ).queue ++ p.queue = p.queue ++ [] := by
    rw [List.append_nil]
    rfl
  refine foldl_fire ⟨h.since, hqueue ▸ h.items, h.groups⟩ ?_
  exact hroot.congr (congrArg roots hqueue) (fun j other hother hownerj hopenj =>
    ⟨other, hother, hownerj, hopenj, rfl⟩) (fun _ hj => hj) rfl (M.quiet_refl _)

theorem Sound.rounds {p : Pool σ ρ} (h : Sound M s₀ p []) (hroot : Root M Q p []) (n : Nat) :
    Sound M s₀ (p.rounds n) [] ∧ Root M Q (p.rounds n) [] := by
  induction n generalizing p with
  | zero => exact ⟨h, hroot⟩
  | succ n ih =>
    obtain ⟨hs, hr⟩ := h.round hroot
    rw [Pool.rounds]
    split
    · exact hs.round hr
    · exact ih hs hr

/-- What holds of the pool of a computation after so many rounds. -/
theorem sound_start {s : σ} {x : Coop σ ρ ρ} (hx : ∀ s', M.quiet s s' → Coop.Minds M .root s' x Q) (n : Nat) :
    Sound M s ((start x s).rounds n) [] ∧ Root M Q ((start x s).rounds n) [] := by
  have hstart : Sound M s (start x s) [] :=
    ⟨M.step_refl s, List.forall_mem_singleton.2 trivial, fun j other hother => by cases hother⟩
  refine hstart.rounds (.ready rfl (fun g hg => ?_) rfl hx) n
  obtain ⟨other, hother, -⟩ := hg
  cases hother

end Pool

/-- What a computation promises holds of its run, unless the run meets its bound; after the root has ended only
quiet steps are taken. -/
theorem Coop.Minds.run {M : Manners σ ρ} {s : σ} {x : Coop σ ρ ρ} {Q : Except Failure ρ → σ → Prop}
    (hx : ∀ s', M.quiet s s' → Coop.Minds M .root s' x Q) (limit : Nat) :
    M.step s (x.run limit s).2 ∧ ((x.run limit s).1 = .error .exhausted ∨
      ∃ s', Q (x.run limit s).1 s' ∧ M.quiet s' (x.run limit s).2) := by
  obtain ⟨hsound, hend⟩ := Pool.sound_start hx limit
  refine ⟨hsound.since, ?_⟩
  rw [Coop.run]
  cases hend with
  | ready _ _ hres => exact Or.inl (by rw [hres]; rfl)
  | waiting _ _ _ _ _ hres => exact Or.inl (by rw [hres]; rfl)
  | @ended r s' _ _ hres hQ hs => exact Or.inr ⟨s', by rw [hres]; exact hQ, hs⟩

/-! ## 5. What is known of a mark -/

namespace Regime

variable {R : Regime σ ρ τ}

/-- A regime as manners: the invariant is kept, and by quiet steps the mark as well. -/
def manners (R : Regime σ ρ τ) : Manners σ ρ where
  step s s' := R.inv s → R.inv s'
  quiet s s' := (R.inv s → R.inv s') ∧ R.mark s' = R.mark s
  part r _ := R.part r
  step_trans h h' hs := h' (h hs)
  quiet_refl _ := ⟨id, rfl⟩
  quiet_trans h h' := ⟨fun hs => h'.1 (h.1 hs), h'.2.trans h.2⟩
  step_of_quiet h := h.1
  part_of_step h _ := h

theorem gathered_manners {s : σ} {r : Except Failure (List ρ)} (h : R.manners.Gathered s r) :
    R.Gathered r := by
  cases r <;> exact h

/-- Who knows the mark is the root. -/
def roleOf : Option τ → Role
  | none => .part
  | some _ => .root

theorem may_of_allows {known : Option τ} {s s' : σ} (h : R.Allows known s s') :
    R.manners.May (roleOf known) s s' := by
  cases known with
  | none => exact ⟨fun _ => h.inv, h.mark rfl⟩
  | some t => exact fun _ => h.inv

theorem admits_of_bears {known : Option τ} {s s' : σ} (hs : R.Admits known s)
    (h : R.manners.Bears (roleOf known) s s') : R.Admits known s' := by
  cases known with
  | none => exact ⟨h hs.inv, nofun⟩
  | some t => exact ⟨h.1 hs.inv, fun t' ht => h.2.trans (hs.mark t' ht)⟩

theorem roleOf_after (known : Option τ) (s : σ) : roleOf (R.after known s) = roleOf known := by
  cases known <;> rfl

end Regime

/-- A computation that meets a regime minds its manners. -/
theorem Coop.Meets.minds {R : Regime σ ρ τ} {known : Option τ} {x : Coop σ ρ α}
    {Q : Except Failure α → Option τ → Prop} (hx : Coop.Meets R known x Q) {s : σ} (hs : R.Admits known s) :
    Coop.Minds R.manners (Regime.roleOf known) s x fun r s' => R.inv s' ∧ Q r (R.after known s') := by
  induction hx generalizing s with
  | done hQ => exact .done ⟨hs.inv, hs.after_eq.symm ▸ hQ⟩
  | @act known α β m k Q hallows _ ih =>
    have hstep := hallows s hs
    refine .act (Regime.may_of_allows hstep) ?_
    have hnext := ih s hs hstep.admits
    rw [Regime.roleOf_after] at hnext
    refine hnext.mono fun r s' hr => ?_
    rwa [R.after_after] at hr
  | turn _ ih => exact .turn fun s' hbears => ih (Regime.admits_of_bears hs hbears)
  | gather hparts _ ihparts ih =>
    refine .gather (fun p hp s' hstep => ?_) fun s' r hbears hr =>
      ih r (Regime.gathered_manners hr) (Regime.admits_of_bears hs hbears)
    exact (ihparts p hp ⟨hstep hs.inv, nofun⟩).mono fun r s' hr => hr.2

/-- Where whatever meets a regime minds its manners. -/
class Heeding (σ ρ : Type) (m : Type → Type u) [Performs σ m] [Reasoned σ ρ m] [Mannerly σ ρ m] : Prop where
  minds {τ α : Type} {R : Regime σ ρ τ} {known : Option τ} {x : m α} {Q : Except Failure α → Option τ → Prop} :
    Reasoned.Meets R known x Q → ∀ {s : σ}, R.Admits known s →
    Mannerly.Minds R.manners (Regime.roleOf known) s x fun r s' => R.inv s' ∧ Q r (R.after known s')

instance : Heeding σ ρ (Act σ) where
  minds hx s hs := by
    obtain ⟨hallows, hQ⟩ := hx s hs
    exact ⟨Regime.may_of_allows hallows, hallows.inv, hQ⟩

instance : Heeding σ ρ (Coop σ ρ) where
  minds hx _ hs := Coop.Meets.minds hx hs

/-- What a computation promises holds of its run, unless the run meets its bound. -/
theorem Coop.Meets.run {R : Regime σ ρ τ} {h : τ} {x : Coop σ ρ ρ}
    {Q : Except Failure ρ → Option τ → Prop} (hx : Coop.Meets R (some h) x Q) (limit : Nat) :
    Act.Meets R (some h) (x.run limit) fun r k => r = .error .exhausted ∨ Q r k := by
  intro s hs
  obtain ⟨hstep, hend⟩ := Coop.Minds.run (M := R.manners)
    (fun s' hquiet => hx.minds (@Regime.admits_of_bears _ _ _ R (some h) s s' hs hquiet)) limit
  refine ⟨⟨hstep hs.inv, nofun⟩, hend.imp_right ?_⟩
  rintro ⟨s', ⟨-, hQ⟩, hquiet⟩
  rwa [Regime.after, Option.map_some, ← hquiet.2] at hQ

end NodeFlow
