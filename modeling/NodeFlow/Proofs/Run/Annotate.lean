import NodeFlow.Proofs.Run.Steady
/-!
# Notes taken along a run

A computation may take notes at its steps that it never looks at again. Without its notes it is the computation that
it was, and to each order in which things happen there is the same order with notes: so what is found in the notes of
every run is found out about every run.

Notes may speak of more than the state does, of who has gone on and for how long without a stop.
-/

set_option autoImplicit false

namespace NodeFlow

variable {σ γ ρ ε α β : Type}

/-! ## 1. Computations that take notes -/

mutual

/-- A computation that takes notes at its steps: of the state before the step, and of whether it has not stopped yet. -/
def Coop.noting (note : Bool → σ → γ → γ) (fresh : Bool) {α : Type} : Coop σ ρ α → Coop (σ × γ) ρ α
  | .done r => .done r
  | .act m k => .act (fun s => ((m s.1).1, (m s.1).2, note fresh s.1 s.2)) fun b => (k b).noting note fresh
  | .turn k => .turn (k.noting note false)
  | .gather parts k => .gather (notingAll note parts) fun r => (k r).noting note false
termination_by structural x => x

/-- Parts that take notes. -/
def notingAll (note : Bool → σ → γ → γ) : List (Coop σ ρ ρ) → List (Coop (σ × γ) ρ ρ)
  | [] => []
  | p :: ps => p.noting note false :: notingAll note ps
termination_by structural ps => ps

end

/-- A computation that takes no notes. -/
def Coop.beside (x : Coop σ ρ α) : Coop (σ × γ) ρ α := x.noting (fun _ _ notes => notes) true

mutual

/-- What a computation does to the state, when nothing has been noted. -/
def Coop.unnoted (blank : γ) {α : Type} : Coop (σ × γ) ρ α → Coop σ ρ α
  | .done r => .done r
  | .act m k => .act (fun s => ((m (s, blank)).1, (m (s, blank)).2.1)) fun b => (k b).unnoted blank
  | .turn k => .turn (k.unnoted blank)
  | .gather parts k => .gather (unnotedAll blank parts) fun r => (k r).unnoted blank
termination_by structural x => x

/-- The same of parts. -/
def unnotedAll (blank : γ) : List (Coop (σ × γ) ρ ρ) → List (Coop σ ρ ρ)
  | [] => []
  | p :: ps => p.unnoted blank :: unnotedAll blank ps
termination_by structural ps => ps

end

theorem unnotedAll_eq_map (blank : γ) (ps : List (Coop (σ × γ) ρ ρ)) :
    unnotedAll blank ps = ps.map (Coop.unnoted blank) := by
  induction ps with
  | nil => rfl
  | cons p ps ih => rw [unnotedAll, ih, List.map_cons]

theorem notingAll_eq_map (note : Bool → σ → γ → γ) (ps : List (Coop σ ρ ρ)) :
    notingAll note ps = ps.map (Coop.noting note false) := by
  induction ps with
  | nil => rfl
  | cons p ps ih => rw [notingAll, ih, List.map_cons]

mutual

/-- Without its notes a computation is what it was. -/
theorem Coop.unnoted_noting (blank : γ) (note : Bool → σ → γ → γ) (fresh : Bool) {α : Type} (x : Coop σ ρ α) :
    (x.noting note fresh).unnoted blank = x := by
  match x with
  | .done r => rfl
  | .act m k =>
    rw [Coop.noting, Coop.unnoted]
    exact congrArg (Coop.act m) (funext fun b => Coop.unnoted_noting blank note fresh (k b))
  | .turn k =>
    rw [Coop.noting, Coop.unnoted, Coop.unnoted_noting blank note false k]
  | .gather parts k =>
    rw [Coop.noting, Coop.unnoted, unnotedAll_notingAll blank note parts]
    exact congrArg (Coop.gather parts) (funext fun r => Coop.unnoted_noting blank note false (k r))
termination_by structural x

theorem unnotedAll_notingAll (blank : γ) (note : Bool → σ → γ → γ) (ps : List (Coop σ ρ ρ)) :
    unnotedAll blank (notingAll note ps) = ps := by
  match ps with
  | [] => rfl
  | p :: ps =>
    rw [notingAll, unnotedAll, Coop.unnoted_noting blank note false p, unnotedAll_notingAll blank note ps]
termination_by structural ps

end

namespace Coop

variable {blank : γ}

theorem unnoted_bind (x : Coop (σ × γ) ρ α) (f : α → Coop (σ × γ) ρ β) :
    (x.bind f).unnoted blank = (x.unnoted blank).bind fun a => (f a).unnoted blank := by
  match x with
  | .done (.ok a) => rfl
  | .done (.error e) => rfl
  | .act m k =>
    rw [bind, unnoted, unnoted, bind]
    exact congrArg (act _) (funext fun b => unnoted_bind (k b) f)
  | .turn k => rw [bind, unnoted, unnoted, bind, unnoted_bind k f]
  | .gather parts k =>
    rw [bind, unnoted, unnoted, bind]
    exact congrArg (gather _) (funext fun r => unnoted_bind (k r) f)
termination_by structural x

theorem unnoted_tryCatch (x : Coop (σ × γ) ρ α) (f : Failure → Coop (σ × γ) ρ α) :
    (x.tryCatch f).unnoted blank = (x.unnoted blank).tryCatch fun e => (f e).unnoted blank := by
  match x with
  | .done (.ok a) => rfl
  | .done (.error e) => rfl
  | .act m k =>
    rw [tryCatch, unnoted, unnoted, tryCatch]
    exact congrArg (act _) (funext fun b => unnoted_tryCatch (k b) f)
  | .turn k => rw [tryCatch, unnoted, unnoted, tryCatch, unnoted_tryCatch k f]
  | .gather parts k =>
    rw [tryCatch, unnoted, unnoted, tryCatch]
    exact congrArg (gather _) (funext fun r => unnoted_tryCatch (k r) f)
termination_by structural x

/-- What a computation does, and what it answers at each step, does not depend on what has been noted. -/
inductive Blind (blank : γ) : {α : Type} → Coop (σ × γ) ρ α → Prop
  | done {α : Type} (r : Except Failure α) : Blind blank (.done r)
  | act {α β : Type} {m : σ × γ → β × σ × γ} {k : β → Coop (σ × γ) ρ α} :
    (∀ s notes, (m (s, notes)).1 = (m (s, blank)).1 ∧ (m (s, notes)).2.1 = (m (s, blank)).2.1) →
    (∀ b, Blind blank (k b)) → Blind blank (.act m k)
  | turn {α : Type} {k : Coop (σ × γ) ρ α} : Blind blank k → Blind blank (.turn k)
  | gather {α : Type} {parts : List (Coop (σ × γ) ρ ρ)} {k : Except Failure (List ρ) → Coop (σ × γ) ρ α} :
    (∀ p ∈ parts, Blind blank p) → (∀ r, Blind blank (k r)) → Blind blank (.gather parts k)

variable {x : Coop (σ × γ) ρ α}

theorem Blind.bind {f : α → Coop (σ × γ) ρ β} (hx : x.Blind blank) (hf : ∀ a, (f a).Blind blank) :
    (x.bind f).Blind blank := by
  induction hx with
  | done r =>
    cases r with
    | ok a => exact hf a
    | error e => exact .done _
  | act hm _ ih => exact .act hm fun b => ih b hf
  | turn _ ih => exact .turn (ih hf)
  | gather hparts _ _ ih => exact .gather hparts fun r => ih r hf

theorem Blind.tryCatch {f : Failure → Coop (σ × γ) ρ α} (hx : x.Blind blank) (hf : ∀ e, (f e).Blind blank) :
    (x.tryCatch f).Blind blank := by
  induction hx with
  | done r =>
    cases r with
    | ok a => exact .done _
    | error e => exact hf e
  | act hm _ ih => exact .act hm fun b => ih b hf
  | turn _ ih => exact .turn (ih hf)
  | gather hparts _ _ ih => exact .gather hparts fun r => ih r hf

theorem Blind.stopped {x : Coop (σ × γ) ρ ρ} (hx : x.Blind blank) {pause : Coop.Pause (σ × γ) ρ ρ}
    (hstop : x.stop? = some pause) : Pool.AllStopped (Blind blank) pause := by
  cases hx with
  | done r =>
    cases hstop
    trivial
  | act => cases hstop
  | turn hk =>
    cases hstop
    exact hk
  | @gather _ parts k hparts hk =>
    cases parts with
    | nil => cases hstop
    | cons y ys =>
      cases hstop
      exact ⟨hparts, hk⟩

end Coop

mutual

theorem Coop.blind_noting (blank : γ) (note : Bool → σ → γ → γ) (fresh : Bool) {α : Type} (x : Coop σ ρ α) :
    (x.noting note fresh).Blind blank := by
  match x with
  | .done r => exact .done r
  | .act m k => exact .act (fun _ _ => ⟨rfl, rfl⟩) fun b => Coop.blind_noting blank note fresh (k b)
  | .turn k => exact .turn (Coop.blind_noting blank note false k)
  | .gather parts k =>
    exact .gather (blind_notingAll blank note parts) fun r => Coop.blind_noting blank note false (k r)
termination_by structural x

theorem blind_notingAll (blank : γ) (note : Bool → σ → γ → γ) (ps : List (Coop σ ρ ρ)) :
    ∀ p ∈ notingAll note ps, p.Blind blank := by
  match ps with
  | [] => exact fun p hp => nomatch hp
  | p :: ps =>
    exact List.forall_mem_cons.2 ⟨Coop.blind_noting blank note false p, blind_notingAll blank note ps⟩
termination_by structural ps

end

/-! ## 2. Pools without their notes -/

section

variable (blank : γ)

/-- What is ready, without its notes. -/
def Ready.unnoted : Ready (σ × γ) ρ → Ready σ ρ
  | .resume owner x => .resume owner (x.unnoted blank)
  | .report g place r => .report g place r

/-- A group whose owner goes on without notes. -/
def Group.unnoted (group : Group (σ × γ) ρ) : Group σ ρ :=
  ⟨group.owner, group.results, group.settled, fun r => (group.resume r).unnoted blank⟩

/-- Everything that is under way, without its notes. -/
def Pool.unnoted (p : Pool (σ × γ) ρ) : Pool σ ρ :=
  ⟨p.state.1, p.groups.map (Group.unnoted blank), p.queue.map (Ready.unnoted blank), p.result⟩

/-- How a computation stops, without its notes. -/
def Coop.Pause.unnoted : Coop.Pause (σ × γ) ρ α → Coop.Pause σ ρ α
  | .done r => .done r
  | .turn k => .turn (k.unnoted blank)
  | .gather parts k => .gather (unnotedAll blank parts) fun r => (k r).unnoted blank

theorem Coop.stop?_unnoted (x : Coop (σ × γ) ρ α) :
    (x.unnoted blank).stop? = x.stop?.map (Coop.Pause.unnoted blank) := by
  cases x with
  | done r => rfl
  | act m k => rfl
  | turn k => rfl
  | gather parts k => cases parts <;> rfl

namespace Pool

variable {blank} (p : Pool (σ × γ) ρ)

theorem unnoted_enqueue (rs : List (Ready (σ × γ) ρ)) :
    (p.enqueue rs).unnoted blank = (p.unnoted blank).enqueue (rs.map (Ready.unnoted blank)) := by
  simp [unnoted, enqueue]

theorem unnoted_members (g i : Nat) (parts : List (Coop (σ × γ) ρ ρ)) :
    (members g i parts).map (Ready.unnoted blank) = members g i (unnotedAll blank parts) := by
  induction parts generalizing i with
  | nil => rfl
  | cons x xs ih => exact congrArg (_ :: ·) (ih (i + 1))

theorem unnoted_settle (g : Nat) (group : Group (σ × γ) ρ) (r : Except Failure (List ρ)) :
    (p.settle g group r).unnoted blank = (p.unnoted blank).settle g (group.unnoted blank) r := by
  rw [settle, unnoted_enqueue, settle]
  simp [unnoted, Group.unnoted, Ready.unnoted, enqueue]

theorem unnoted_report (g place : Nat) (r : Except Failure ρ) :
    (p.report g place r).unnoted blank = (p.unnoted blank).report g place r := by
  have hget : (p.unnoted blank).groups[g]? = p.groups[g]?.map (Group.unnoted blank) := Array.getElem?_map
  rw [report, report, hget]
  cases p.groups[g]? with
  | none => rfl
  | some group =>
    dsimp only [Option.map_some, Group.unnoted]
    split
    · rfl
    · cases r with
      | error e => exact unnoted_settle p g group _
      | ok a =>
        dsimp only
        split
        · exact unnoted_settle p g _ _
        · simp [unnoted, Group.unnoted]

theorem unnoted_stopped (owner : Owner) (pause : Coop.Pause (σ × γ) ρ ρ) (s : σ × γ) :
    (p.stopped owner (pause, s)).unnoted blank = (p.unnoted blank).stopped owner (pause.unnoted blank, s.1) := by
  cases pause with
  | done r =>
    cases owner with
    | root => rfl
    | member g i => exact unnoted_enqueue { p with state := s } _
  | turn k => exact unnoted_enqueue { p with state := s } _
  | gather parts k =>
    simp only [stopped, Coop.Pause.unnoted, unnoted_enqueue, unnoted_members]
    simp [unnoted, Group.unnoted, unnotedAll_eq_map]

end Pool

end

/-! ## 3. Every order -/

/-- How runs with notes are looked at: their notes are not. -/
def Chronicle.noted (C : Chronicle σ ε) : Chronicle (σ × γ) ε where
  record s s' := C.record s.1 s'.1
  grows s s' := C.grows s.1 s'.1
  rests s s' := C.rests s.1 s'.1
  grows_refl s := C.grows_refl s.1
  record_refl s := C.record_refl s.1
  grows_trans h h' := C.grows_trans h h'
  record_trans h h' := C.record_trans h h'

namespace Moment

/-- A moment without its notes. -/
def unnoted (blank : γ) (m : Moment (σ × γ) ρ) : Moment σ ρ :=
  ⟨m.pool.unnoted blank, m.now.map fun a => (a.1, a.2.unnoted blank)⟩

/-- Nobody looks at notes. -/
structure Blind (blank : γ) (m : Moment (σ × γ) ρ) : Prop where
  pool : m.pool.All (Coop.Blind blank)
  now : ∀ owner x, m.now = some (owner, x) → x.Blind blank

variable {C : Chronicle σ ε} {blank : γ} {m : Moment (σ × γ) ρ} {n : Moment σ ρ} {t : Trace ε}

theorem exists_queue {queue : List (Ready (σ × γ) ρ)} {before after : List (Ready σ ρ)} {item : Ready σ ρ}
    (h : queue.map (Ready.unnoted blank) = before ++ item :: after) :
    ∃ before' item' after', queue = before' ++ item' :: after' ∧ before'.map (Ready.unnoted blank) = before ∧
      item'.unnoted blank = item ∧ after'.map (Ready.unnoted blank) = after := by
  obtain ⟨before', rest, rfl, hbefore, hrest⟩ := List.map_eq_append_iff.1 h
  obtain ⟨item', after', rfl, hitem, hafter⟩ := List.map_eq_cons_iff.1 hrest
  exact ⟨before', item', after', rfl, hbefore, hitem, hafter⟩

/-- Where nobody goes on, what can happen can happen with notes. -/
theorem Blind.exists_step_resting {p : Pool (σ × γ) ρ} (hpool : p.All (Coop.Blind blank))
    (h : Step C ⟨p.unnoted blank, none⟩ t n) :
    ∃ n' : Moment (σ × γ) ρ, Step C.noted ⟨p, none⟩ t n' ∧ n'.unnoted blank = n ∧ n'.Blind blank := by
  cases h with
  | @begin _ before after owner x hqueue =>
    obtain ⟨before', item', after', hqueue', rfl, hitem, rfl⟩ := exists_queue hqueue
    cases item' with
    | report => cases hitem
    | resume owner' y =>
      cases hitem
      refine ⟨_, .begin before' hqueue', ?_, hpool.take hqueue', fun o z hz => ?_⟩
      · simp [unnoted, Pool.unnoted]
      · cases hz
        exact hpool.ready owner y (hqueue' ▸ List.mem_append_right _ List.mem_cons_self)
  | @report _ before after g place r hqueue =>
    obtain ⟨before', item', after', hqueue', rfl, hitem, rfl⟩ := exists_queue hqueue
    cases item' with
    | resume => cases hitem
    | report g' place' r' =>
      cases hitem
      refine ⟨_, .report before' hqueue', ?_, (hpool.take hqueue').report _ _ _, fun o z hz => nomatch hz⟩
      rw [unnoted, Pool.unnoted_report]
      simp [Pool.unnoted]

/-- Whoever stops stops with notes as well. -/
theorem Blind.exists_stop {p : Pool (σ × γ) ρ} (hpool : p.All (Coop.Blind blank)) {owner : Owner}
    {x : Coop (σ × γ) ρ ρ} (hx : x.Blind blank) {pause : Coop.Pause σ ρ ρ}
    (hpause : (x.unnoted blank).stop? = some pause) :
    ∃ n' : Moment (σ × γ) ρ, Step C.noted ⟨p, some (owner, x)⟩ [] n' ∧
      n'.unnoted blank = ⟨(p.unnoted blank).stopped owner (pause, p.state.1), none⟩ ∧ n'.Blind blank := by
  rw [Coop.stop?_unnoted, Option.map_eq_some_iff] at hpause
  obtain ⟨pause', hstop, rfl⟩ := hpause
  refine ⟨_, .stop hstop, ?_, hpool.stopped pause' (hx.stopped hstop) owner _, fun o z hz => nomatch hz⟩
  rw [unnoted, Pool.unnoted_stopped]
  rfl

/-- What someone does he does with notes as well: neither his answer nor the state depends on them. -/
theorem Blind.exists_act {p : Pool (σ × γ) ρ} (hpool : p.All (Coop.Blind blank)) {owner : Owner} {β : Type}
    {a : σ × γ → β × (σ × γ)} {k : β → Coop (σ × γ) ρ ρ} (hx : (Coop.act a k).Blind blank)
    (h : Step C ⟨p.unnoted blank, some (owner, (Coop.act a k).unnoted blank)⟩ t n) :
    ∃ n' : Moment (σ × γ) ρ, Step C.noted ⟨p, some (owner, .act a k)⟩ t n' ∧ n'.unnoted blank = n ∧
      n'.Blind blank := by
  change Step C ⟨p.unnoted blank,
    some (owner, .act (fun s => ((a (s, blank)).1, (a (s, blank)).2.1)) fun b => (k b).unnoted blank)⟩ t n at h
  cases hx with
  | act ha hk =>
    obtain ⟨hanswer, hstate⟩ : (a p.state).1 = (a (p.state.1, blank)).1 ∧
      (a p.state).2.1 = (a (p.state.1, blank)).2.1 := ha p.state.1 p.state.2
    cases h with
    | act =>
      refine ⟨⟨{ p with state := (a p.state).2 }, some (owner, k (a p.state).1)⟩, ?_, ?_,
        ⟨hpool.ready, hpool.waiting⟩, fun o z hz => by cases hz; exact hk _⟩
      · dsimp only
        rw [Pool.unnoted, ← hstate]
        exact .act
      · simp only [unnoted, Pool.unnoted, hstate, hanswer, Option.map_some]
    | rest hrests =>
      refine ⟨⟨p.stopped owner (.turn (k (a p.state).1), (a p.state).2), none⟩, ?_, ?_,
        hpool.stopped (.turn _) (hk _) owner _, fun o z hz => nomatch hz⟩
      · dsimp only at hrests ⊢
        rw [Pool.unnoted, ← hstate] at hrests ⊢
        exact .rest hrests
      · rw [unnoted, Pool.unnoted_stopped]
        simp only [Pool.unnoted, Coop.Pause.unnoted, hstate, hanswer, Option.map_none]
    | stop hpause => cases hpause

/-- Each thing that can happen can happen with notes. -/
theorem Blind.exists_step (hblind : m.Blind blank) (h : (m.unnoted blank).Step C t n) :
    ∃ n' : Moment (σ × γ) ρ, m.Step C.noted t n' ∧ n'.unnoted blank = n ∧ n'.Blind blank := by
  obtain ⟨p, now⟩ := m
  obtain ⟨hpool, hnow⟩ := hblind
  cases now with
  | none => exact exists_step_resting hpool h
  | some who =>
    obtain ⟨owner, x⟩ := who
    have hx := hnow owner x rfl
    cases x with
    | act a k => exact exists_act hpool hx h
    | done r =>
      change Step C ⟨p.unnoted blank, some (owner, .done r)⟩ t n at h
      cases h with
      | stop hpause => exact exists_stop hpool hx hpause
    | turn k =>
      change Step C ⟨p.unnoted blank, some (owner, .turn (k.unnoted blank))⟩ t n at h
      cases h with
      | stop hpause => exact exists_stop hpool hx hpause
    | gather parts k =>
      change Step C ⟨p.unnoted blank, some (owner, .gather (unnotedAll blank parts) fun r => (k r).unnoted blank)⟩
        t n at h
      cases parts with
      | nil =>
        -- a group of nobody is skipped, and nothing stops
        cases h with
        | skip =>
          cases hx with
          | gather _ hk => exact ⟨_, .skip, rfl, hpool, fun o z hz => by cases hz; exact hk _⟩
        | stop hpause => cases hpause
      | cons y ys =>
        cases h with
        | stop hpause => exact exists_stop hpool hx hpause

/-- **To each order in which things happen there is the same order with notes.** -/
theorem Blind.exists_steps (hblind : m.Blind blank) (h : (m.unnoted blank).Steps C t n) :
    ∃ n' : Moment (σ × γ) ρ, m.Steps C.noted t n' ∧ n'.unnoted blank = n := by
  generalize hm : m.unnoted blank = m₀ at h
  induction h generalizing m with
  | refl => exact ⟨m, .refl, hm⟩
  | step hstep _ ih =>
    subst hm
    obtain ⟨m', hstep', hm', hblind'⟩ := hblind.exists_step hstep
    obtain ⟨n', hsteps', hn'⟩ := ih hblind' hm'
    exact ⟨n', .step hstep' hsteps', hn'⟩

theorem unnoted_start (x : Coop (σ × γ) ρ ρ) (s : σ) (notes : γ) :
    (start x (s, notes)).unnoted blank = start (x.unnoted blank) s := by
  simp [start, unnoted, Pool.start, Pool.unnoted, Ready.unnoted]

theorem blind_start {x : Coop (σ × γ) ρ ρ} (hx : x.Blind blank) (s : σ × γ) : (start x s).Blind blank where
  pool := Pool.all_start hx
  now _ _ hy := nomatch hy

end Moment

end NodeFlow
