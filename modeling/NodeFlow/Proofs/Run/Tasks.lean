import Mathlib.Logic.Hydra
import NodeFlow.Run.Schedule
/-!
# What is left to do in a pool

A computation that may give up control is a tree without infinite branches, so it has only so much to do.
Whatever happens in a pool replaces one task by finitely many that are less: this is the game of the hydra,
which ends.

The awkward thing up front: a group may have any number of parts, and their results decide how whoever waits
goes on. So no number bounds what is left to do, and all that can be said is that it cannot get less forever.
-/

set_option autoImplicit false

universe v

namespace NodeFlow

open Relation

variable {σ ρ : Type}

/-! ## 1. Tasks -/

/-- Something that is left to do in a pool: to hand on a report, to go on with a computation, or to go on when
the parts that were started have ended. -/
inductive Task (σ ρ : Type) : Type 1
  | report
  | going {α : Type} (x : Coop σ ρ α)
  | pending {α : Type} (k : Except Failure (List ρ) → Coop σ ρ α)

namespace Task

/-- What may be left of a task when one thing of it has been done. -/
inductive Leaves : Task σ ρ → Task σ ρ → Prop
  | report {α : Type} (x : Coop σ ρ α) : Leaves .report (.going x)
  | act {α β : Type} (m : σ → β × σ) (k : β → Coop σ ρ α) (b : β) :
    Leaves (.going (k b)) (.going (.act m k))
  | turn {α : Type} (k : Coop σ ρ α) : Leaves (.going k) (.going (.turn k))
  | part {α : Type} {parts : List (Coop σ ρ ρ)} {p : Coop σ ρ ρ} (k : Except Failure (List ρ) → Coop σ ρ α) :
    p ∈ parts → Leaves (.going p) (.going (.gather parts k))
  | wait {α : Type} (parts : List (Coop σ ρ ρ)) (k : Except Failure (List ρ) → Coop σ ρ α) :
    Leaves (.pending k) (.going (.gather parts k))
  | resume {α : Type} (k : Except Failure (List ρ) → Coop σ ρ α) (r : Except Failure (List ρ)) :
    Leaves (.going (k r)) (.pending k)

variable {α : Type}

theorem acc_report : Acc Leaves (.report : Task σ ρ) := ⟨_, nofun⟩

theorem acc_pending {k : Except Failure (List ρ) → Coop σ ρ α} (h : ∀ r, Acc Leaves (.going (k r))) :
    Acc Leaves (.pending k) := by
  refine ⟨_, fun t ht => ?_⟩
  cases ht with
  | resume _ r => exact h r

mutual

/-- A computation leaves ever less to do: recursion along its tree. -/
theorem acc_going {α : Type} (x : Coop σ ρ α) : Acc Leaves (.going x) := by
  refine ⟨_, fun t ht => ?_⟩
  match x with
  | .done r =>
    cases ht with
    | report => exact acc_report
  | .act m k =>
    cases ht with
    | report => exact acc_report
    | act _ _ b => exact acc_going (k b)
  | .turn k =>
    cases ht with
    | report => exact acc_report
    | turn => exact acc_going k
  | .gather parts k =>
    cases ht with
    | report => exact acc_report
    | part _ hp => exact acc_parts parts _ hp
    | wait => exact acc_pending fun r => acc_going (k r)
termination_by structural x

theorem acc_parts (parts : List (Coop σ ρ ρ)) : ∀ p ∈ parts, Acc Leaves (.going p) := by
  match parts with
  | [] => exact fun p hp => absurd hp List.not_mem_nil
  | x :: xs =>
    rw [List.forall_mem_cons]
    exact ⟨acc_going x, acc_parts xs⟩
termination_by structural parts

end

/-- Less to do. -/
abbrev Less : Task σ ρ → Task σ ρ → Prop := TransGen Leaves

theorem wellFounded_less : WellFounded (Less : Task σ ρ → Task σ ρ → Prop) := by
  refine WellFounded.transGen ⟨fun t => ?_⟩
  cases t with
  | report => exact acc_report
  | going x => exact acc_going x
  | pending k => exact acc_pending fun r => acc_going (k r)

end Task

variable {α : Type}

/-- What a computation comes to when it stops leaves less to do than the computation. -/
def Coop.Pause.LessThan (x : Coop σ ρ α) : Coop.Pause σ ρ α → Prop
  | .done _ => True
  | .turn k => Task.Less (.going k) (.going x)
  | .gather parts k => parts ≠ [] ∧ (∀ p ∈ parts, Task.Less (.going p) (.going x)) ∧
      Task.Less (.pending k) (.going x)

theorem Coop.Pause.LessThan.trans {x y : Coop σ ρ α} {pause : Coop.Pause σ ρ α} (h : pause.LessThan y)
    (hy : Task.Less (.going y) (.going x)) : pause.LessThan x := by
  cases pause with
  | done r => trivial
  | turn k => exact TransGen.trans (show Task.Less _ _ from h) hy
  | gather parts k =>
    obtain ⟨hsome, hparts, hk⟩ := h
    exact ⟨hsome, fun p hp => (hparts p hp).trans hy, TransGen.trans hk hy⟩

theorem Coop.lessThan_advance {α : Type} (x : Coop σ ρ α) (s : σ) : (x.advance s).1.LessThan x := by
  match x with
  | .done r => trivial
  | .act m k => exact (lessThan_advance (k (m s).1) (m s).2).trans (TransGen.single (.act m k _))
  | .turn k => exact TransGen.single (Task.Leaves.turn k)
  | .gather [] k =>
    exact (lessThan_advance (k (.ok [])) s).trans (TransGen.tail (TransGen.single (.resume k _)) (.wait [] k))
  | .gather (p :: ps) k =>
    exact ⟨List.cons_ne_nil _ _, fun q hq => TransGen.single (.part k hq), TransGen.single (.wait _ k)⟩
termination_by structural x

namespace Pool

/-! ## 2. The game of the hydra -/

/-- The task of something that is ready. -/
def taskOf : Ready σ ρ → Task σ ρ
  | .resume _ x => .going x
  | .report _ _ _ => .report

/-- The task of a group that is not settled yet. -/
def taskOf? (group : Group σ ρ) : Option (Task σ ρ) :=
  if group.settled then none else some (.pending group.resume)

/-- What is read off everything that is ready and off every group, when `rest` is still to happen in this
round. -/
def census {τ : Type v} (ofReady : Ready σ ρ → τ) (ofGroup : Group σ ρ → Option τ) (p : Pool σ ρ)
    (rest : List (Ready σ ρ)) : Multiset τ :=
  ↑((p.queue ++ rest).map ofReady) + ↑(p.groups.toList.filterMap ofGroup)

/-- All tasks of a pool. -/
def tasks (p : Pool σ ρ) (rest : List (Ready σ ρ)) : Multiset (Task σ ρ) :=
  p.census taskOf taskOf? rest

section

variable {τ : Type v} (ofReady : Ready σ ρ → τ) (ofGroup : Group σ ρ → Option τ)

theorem census_cons (p : Pool σ ρ) (item : Ready σ ρ) (rest : List (Ready σ ρ)) :
    p.census ofReady ofGroup (item :: rest) = ofReady item ::ₘ p.census ofReady ofGroup rest := by
  have hperm : (p.queue ++ item :: rest).Perm (item :: (p.queue ++ rest)) := List.perm_middle
  rw [census, Multiset.coe_eq_coe.2 (hperm.map ofReady), List.map_cons, ← Multiset.cons_coe,
    Multiset.cons_add]
  rfl

theorem census_enqueue (p : Pool σ ρ) (new rest : List (Ready σ ρ)) :
    (p.enqueue new).census ofReady ofGroup rest = ↑(new.map ofReady) + p.census ofReady ofGroup rest := by
  have hperm : (p.queue ++ new ++ rest).Perm (new ++ (p.queue ++ rest)) := by
    rw [← List.append_assoc]
    exact List.perm_append_comm.append_right rest
  change (((p.queue ++ new ++ rest).map ofReady : List τ) : Multiset τ) + _ = _
  rw [Multiset.coe_eq_coe.2 (hperm.map ofReady), List.map_append, ← Multiset.coe_add, add_assoc]
  rfl

/-- What is read off groups, around the place of one. -/
theorem filterMap_append_cons (gs gs' : List (Group σ ρ)) (group : Group σ ρ) :
    (((gs ++ group :: gs').filterMap ofGroup : List τ) : Multiset τ) =
      ↑(ofGroup group).toList + ↑((gs ++ gs').filterMap ofGroup) := by
  have hperm : (gs ++ group :: gs').Perm (group :: (gs ++ gs')) := List.perm_middle
  rw [Multiset.coe_eq_coe.2 (hperm.filterMap ofGroup), List.filterMap_cons, Multiset.coe_add]
  cases ofGroup group <;> rfl

theorem census_push (p : Pool σ ρ) (group : Group σ ρ) (rest : List (Ready σ ρ)) :
    ({ p with groups := p.groups.push group } : Pool σ ρ).census ofReady ofGroup rest =
      ↑(ofGroup group).toList + p.census ofReady ofGroup rest := by
  rw [census, census, Array.toList_push, filterMap_append_cons, List.append_nil, add_left_comm]

/-- A group changes, and what is read off it is replaced by what is read off the changed one. -/
theorem census_set {p : Pool σ ρ} {g : Nat} {group : Group σ ρ} (hget : p.groups[g]? = some group)
    (group' : Group σ ρ) (rest : List (Ready σ ρ)) : ∃ others : Multiset τ,
      p.census ofReady ofGroup rest = ↑(ofGroup group).toList + others ∧
      ({ p with groups := p.groups.setIfInBounds g group' } : Pool σ ρ).census ofReady ofGroup rest =
        ↑(ofGroup group').toList + others := by
  obtain ⟨hlt, rfl⟩ := Array.getElem?_eq_some_iff.1 hget
  have hset : ∀ new : Group σ ρ, (p.groups.setIfInBounds g new).toList =
      p.groups.toList.take g ++ new :: p.groups.toList.drop (g + 1) := by
    intro new
    rw [Array.toList_setIfInBounds, List.set_eq_take_append_cons_drop, Array.length_toList, if_pos hlt]
  have hself := hset p.groups[g]
  rw [Array.toList_setIfInBounds, ← Array.getElem_toList hlt, List.set_getElem_self] at hself
  refine ⟨↑((p.queue ++ rest).map ofReady) +
    ↑((p.groups.toList.take g ++ p.groups.toList.drop (g + 1)).filterMap ofGroup), ?_, ?_⟩
  · rw [add_left_comm, ← filterMap_append_cons, ← Array.getElem_toList hlt, ← hself]
    rfl
  · rw [census, hset, filterMap_append_cons, add_left_comm]

end

/-- Fewer tasks, or less to do in one of them. -/
abbrev Fewer : Multiset (Task σ ρ) → Multiset (Task σ ρ) → Prop := TransGen (CutExpand Task.Less)

theorem wellFounded_fewer : WellFounded (Fewer : Multiset (Task σ ρ) → Multiset (Task σ ρ) → Prop) :=
  Task.wellFounded_less.cutExpand.transGen

/-- One task is replaced by some that are less. -/
theorem fewer_of_less {t : Task σ ρ} {new : Multiset (Task σ ρ)} (h : ∀ t' ∈ new, Task.Less t' t)
    (old : Multiset (Task σ ρ)) : Fewer (new + old) (t ::ₘ old) := by
  refine .single ⟨new, t, h, ?_⟩
  rw [← Multiset.singleton_add, add_comm (new + old), add_assoc, add_comm new old]

theorem fewer_of_done (t : Task σ ρ) (old : Multiset (Task σ ρ)) : Fewer old (t ::ₘ old) := by
  have hfewer : Fewer (0 + old) (t ::ₘ old) := fewer_of_less (fun t' ht => absurd ht (Multiset.notMem_zero t')) old
  rwa [zero_add] at hfewer

theorem tasks_cons (p : Pool σ ρ) (item : Ready σ ρ) (rest : List (Ready σ ρ)) :
    p.tasks (item :: rest) = taskOf item ::ₘ p.tasks rest := census_cons taskOf taskOf? p item rest

theorem tasks_enqueue (p : Pool σ ρ) (new rest : List (Ready σ ρ)) :
    (p.enqueue new).tasks rest = ↑(new.map taskOf) + p.tasks rest := census_enqueue taskOf taskOf? p new rest

theorem map_members (g i : Nat) (parts : List (Coop σ ρ ρ)) :
    (members g i parts).map taskOf = parts.map .going := by
  induction parts generalizing i with
  | nil => rfl
  | cons x xs ih => exact congrArg (_ :: ·) (ih (i + 1))

theorem tasks_push (p : Pool σ ρ) (group : Group σ ρ) (rest : List (Ready σ ρ)) :
    ({ p with groups := p.groups.push group } : Pool σ ρ).tasks rest =
      ↑(taskOf? group).toList + p.tasks rest := census_push taskOf taskOf? p group rest

theorem tasks_set {p : Pool σ ρ} {g : Nat} {group : Group σ ρ} (hget : p.groups[g]? = some group)
    (group' : Group σ ρ) (rest : List (Ready σ ρ)) : ∃ others : Multiset (Task σ ρ),
      p.tasks rest = ↑(taskOf? group).toList + others ∧
      ({ p with groups := p.groups.setIfInBounds g group' } : Pool σ ρ).tasks rest =
        ↑(taskOf? group').toList + others := census_set taskOf taskOf? hget group' rest

/-- Whoever waits for a group goes on, and that is less than to wait. -/
theorem fewer_settle {p : Pool σ ρ} {g : Nat} {group : Group σ ρ} (hget : p.groups[g]? = some group)
    (hopen : group.settled = false) {group' : Group σ ρ} (hresume : group'.resume = group.resume)
    (r : Except Failure (List ρ)) (rest : List (Ready σ ρ)) : Fewer ((p.settle g group' r).tasks rest) (p.tasks rest) := by
  obtain ⟨others, hold, hnew⟩ := tasks_set hget { group' with settled := true } rest
  have hpending : taskOf? group = some (.pending group.resume) := by
    rw [taskOf?, hopen, if_neg Bool.false_ne_true]
  have hnone : taskOf? { group' with settled := true } = none := rfl
  rw [Pool.settle, tasks_enqueue, hnew, hold, hpending, hnone, hresume, Option.toList_none, Option.toList_some,
    Multiset.coe_nil, zero_add, Multiset.coe_singleton, Multiset.singleton_add]
  have hless : Task.Less (.going (group.resume r)) (.pending group.resume) :=
    TransGen.single (Task.Leaves.resume group.resume r)
  refine fewer_of_less (fun t ht => ?_) others
  rw [Multiset.mem_singleton.1 ht]
  exact hless

/-- A computation has stopped, wherever that was: it has ended, is ready again, or waits for what it has
started. -/
def stopped (p : Pool σ ρ) (owner : Owner) : Coop.Pause σ ρ ρ × σ → Pool σ ρ
  | (.done r, s) =>
    match owner with
    | .root => { p with state := s, result := some r }
    | .member g i => { p with state := s }.enqueue [.report g i r]
  | (.turn k, s) => { p with state := s }.enqueue [.resume owner k]
  | (.gather parts k, s) =>
    let group : Group σ ρ := ⟨owner, Array.replicate parts.length none, false, k⟩
    { p with state := s, groups := p.groups.push group }.enqueue (members p.groups.size 0 parts)

theorem resume_eq_stopped (p : Pool σ ρ) (owner : Owner) (x : Coop σ ρ ρ) :
    p.resume owner x = p.stopped owner (x.advance p.state) := by
  rw [Pool.resume]
  generalize x.advance p.state = stop
  obtain ⟨pause, s⟩ := stop
  cases pause with
  | done r => cases owner <;> rfl
  | turn k => rfl
  | gather parts k => rfl

/-- A computation that stops leaves less to do, in itself and in what it starts. -/
theorem fewer_stopped (p : Pool σ ρ) (owner : Owner) {x : Coop σ ρ ρ} {stop : Coop.Pause σ ρ ρ × σ}
    (hless : stop.1.LessThan x) (rest : List (Ready σ ρ)) :
    Fewer ((p.stopped owner stop).tasks rest) (.going x ::ₘ p.tasks rest) := by
  obtain ⟨pause, s⟩ := stop
  have hnew : ∀ new : List (Ready σ ρ), (∀ t ∈ new.map taskOf, Task.Less t (.going x)) →
      Fewer (({ p with state := s } : Pool σ ρ).enqueue new |>.tasks rest) (.going x ::ₘ p.tasks rest) := by
    intro new hnew
    rw [tasks_enqueue]
    exact fewer_of_less hnew _
  cases pause with
  | done r =>
    cases owner with
    | root => exact fewer_of_done _ _
    | member g i => exact hnew [.report g i r] (List.forall_mem_singleton.2 (.single (.report x)))
  | turn k => exact hnew [.resume owner k] (List.forall_mem_singleton.2 hless)
  | gather parts k =>
    obtain ⟨-, hparts, hk⟩ := hless
    have htasks : ∀ t ∈ ((parts.map Task.going ++ [Task.pending k] : List (Task σ ρ)) : Multiset (Task σ ρ)),
        Task.Less t (.going x) := by
      intro t ht
      rcases List.mem_append.1 (Multiset.mem_coe.1 ht) with hpart | hwait
      · obtain ⟨q, hq, rfl⟩ := List.mem_map.1 hpart
        exact hparts q hq
      · exact List.mem_singleton.1 hwait ▸ hk
    have hfewer := fewer_of_less htasks (p.tasks rest)
    let group : Group σ ρ := ⟨owner, Array.replicate parts.length none, false, k⟩
    have hpush := tasks_push { p with state := s } group rest
    rw [← Multiset.coe_add, add_assoc, ← map_members p.groups.size 0] at hfewer
    dsimp only [stopped]
    rw [tasks_enqueue, hpush]
    exact hfewer

theorem fewer_resume (p : Pool σ ρ) (owner : Owner) (x : Coop σ ρ ρ) (rest : List (Ready σ ρ)) :
    Fewer ((p.resume owner x).tasks rest) (.going x ::ₘ p.tasks rest) := by
  rw [resume_eq_stopped]
  exact fewer_stopped p owner (Coop.lessThan_advance x p.state) rest

/-- The report of a part changes nothing about what is left to do, or whoever waits for its group goes on. -/
theorem fewer_report (p : Pool σ ρ) (g place : Nat) (r : Except Failure ρ) (rest : List (Ready σ ρ)) :
    (p.report g place r).tasks rest = p.tasks rest ∨ Fewer ((p.report g place r).tasks rest) (p.tasks rest) := by
  rw [Pool.report]
  cases hget : p.groups[g]? with
  | none => exact Or.inl rfl
  | some group =>
    dsimp only
    by_cases hsettled : group.settled = true
    · rw [if_pos hsettled]
      exact Or.inl rfl
    · rw [if_neg hsettled]
      have hopen := eq_false_of_ne_true hsettled
      cases r with
      | error e => exact Or.inr (fewer_settle hget hopen rfl _ _)
      | ok a =>
        dsimp only
        cases complete? (group.results.setIfInBounds place (some a)) with
        | some as =>
          have hresume : ({ group with results := group.results.setIfInBounds place (some a) } :
            Group σ ρ).resume = group.resume := rfl
          exact Or.inr (fewer_settle hget hopen hresume _ _)
        | none =>
          obtain ⟨others, hold, hnew⟩ := tasks_set hget
            { group with results := group.results.setIfInBounds place (some a) } rest
          exact Or.inl (hnew.trans hold.symm)

/-- Whatever happens, there is less to do. -/
theorem fewer_fire (p : Pool σ ρ) (item : Ready σ ρ) (rest : List (Ready σ ρ)) :
    Fewer ((p.fire item).tasks rest) (p.tasks (item :: rest)) := by
  rw [tasks_cons]
  cases item with
  | resume owner x => exact fewer_resume p owner x rest
  | report g place r =>
    -- the report itself is done with
    have hdone := fewer_of_done .report (p.tasks rest)
    rcases fewer_report p g place r rest with heq | hfewer
    · exact heq ▸ hdone
    · exact hfewer.trans hdone

end Pool

end NodeFlow
