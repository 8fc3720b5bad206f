import NodeFlow.Proofs.Run.Progress
/-!
# Interleavings

The driver takes what is ready in the order in which it became ready. Which of several computations goes on
first is up to clocks and networks in general, so what holds of concurrent work has to hold in any order:
here whatever is ready may happen next. Once a computation goes on nobody interferes until it stops.

The awkward thing up front: the driver lets the wait between two attempts pass at once, and the one who waits
goes on as if nothing had happened. Others may well go on meanwhile, so here a computation may also be put off
right after certain steps.

What a step puts on record is kept with the computation that made it, so that each has a history of its own
however they are interleaved. The driver's order is one of many, every order comes to an end, and none gets
stuck before the root has ended.
-/

set_option autoImplicit false

namespace NodeFlow

open Relation

variable {σ ρ ε α : Type}

/-! ## 1. What is looked at -/

/-- What is looked at when a state changes: what a step puts on record, whether what was on record stays
there, and whether others may go on right after it. -/
structure Chronicle (σ ε : Type) where
  record : σ → σ → List ε
  grows : σ → σ → Prop
  rests : σ → σ → Prop
  grows_refl (s : σ) : grows s s
  record_refl (s : σ) : record s s = []
  grows_trans {s s' s'' : σ} : grows s s' → grows s' s'' → grows s s''
  record_trans {s s' s'' : σ} : grows s s' → grows s' s'' → record s s'' = record s s' ++ record s' s''

/-- What has been put on record, and by whom. -/
abbrev Trace (ε : Type) := List (Owner × List ε)

namespace Trace

/-- What one computation has put on record itself. -/
def own (t : Trace ε) (owner : Owner) : List ε := t.flatMap fun m => if m.1 = owner then m.2 else []

@[simp] theorem own_nil (owner : Owner) : own ([] : Trace ε) owner = [] := rfl

@[simp] theorem own_append (t u : Trace ε) (owner : Owner) : own (t ++ u) owner = own t owner ++ own u owner :=
  List.flatMap_append

@[simp] theorem own_self (owner : Owner) (es : List ε) : own [(owner, es)] owner = es := by
  simp [own]

theorem own_of_ne {owner other : Owner} (h : owner ≠ other) (es : List ε) : own [(owner, es)] other = [] := by
  simp [own, h]

end Trace

/-- Where a computation stops, if it does not go on at once. -/
def Coop.stop? : Coop σ ρ α → Option (Coop.Pause σ ρ α)
  | .done r => some (.done r)
  | .act _ _ => none
  | .turn k => some (.turn k)
  | .gather [] _ => none
  | .gather (p :: ps) k => some (.gather (p :: ps) k)

theorem Coop.lessThan_of_stop? {x : Coop σ ρ α} {pause : Coop.Pause σ ρ α} (h : x.stop? = some pause) :
    pause.LessThan x := by
  cases x with
  | done r => cases h; trivial
  | act m k => cases h
  | turn k => cases h; exact TransGen.single (.turn k)
  | gather parts k =>
    cases parts with
    | nil => cases h
    | cons p ps =>
      cases h
      exact ⟨List.cons_ne_nil _ _, fun q hq => TransGen.single (.part k hq), TransGen.single (.wait _ k)⟩

/-! ## 2. Whatever is ready may happen next -/

/-- All computations under way, and who is going on right now, if anybody. -/
structure Moment (σ ρ : Type) : Type 1 where
  pool : Pool σ ρ
  now : Option (Owner × Coop σ ρ ρ)

namespace Moment

/-- A computation has yet to start. -/
def start (x : Coop σ ρ ρ) (s : σ) : Moment σ ρ := ⟨.start x s, none⟩

/-- What is going on right now, as something that was ready. -/
def doing (m : Moment σ ρ) : List (Ready σ ρ) := m.now.toList.map fun a => .resume a.1 a.2

/-- Nothing is left to happen. -/
def Done (m : Moment σ ρ) : Prop := m.pool.queue = [] ∧ m.now = none

/-- One thing happens. -/
inductive Step (C : Chronicle σ ε) : Moment σ ρ → Trace ε → Moment σ ρ → Prop
  /-- someone goes on -/
  | begin {p : Pool σ ρ} (before : List (Ready σ ρ)) {after : List (Ready σ ρ)} {owner : Owner}
    {x : Coop σ ρ ρ} :
    p.queue = before ++ .resume owner x :: after →
    Step C ⟨p, none⟩ [] ⟨{ p with queue := before ++ after }, some (owner, x)⟩
  | report {p : Pool σ ρ} (before : List (Ready σ ρ)) {after : List (Ready σ ρ)} {g place : Nat}
    {r : Except Failure ρ} :
    p.queue = before ++ .report g place r :: after →
    Step C ⟨p, none⟩ [] ⟨({ p with queue := before ++ after } : Pool σ ρ).report g place r, none⟩
  | act {p : Pool σ ρ} {owner : Owner} {β : Type} {m : σ → β × σ} {k : β → Coop σ ρ ρ} :
    Step C ⟨p, some (owner, .act m k)⟩ [(owner, C.record p.state (m p.state).2)]
      ⟨{ p with state := (m p.state).2 }, some (owner, k (m p.state).1)⟩
  /-- someone is put off after a step -/
  | rest {p : Pool σ ρ} {owner : Owner} {β : Type} {m : σ → β × σ} {k : β → Coop σ ρ ρ} :
    C.rests p.state (m p.state).2 →
    Step C ⟨p, some (owner, .act m k)⟩ [(owner, C.record p.state (m p.state).2)]
      ⟨p.stopped owner (.turn (k (m p.state).1), (m p.state).2), none⟩
  /-- waiting for nothing is no stop -/
  | skip {p : Pool σ ρ} {owner : Owner} {k : Except Failure (List ρ) → Coop σ ρ ρ} :
    Step C ⟨p, some (owner, .gather [] k)⟩ [] ⟨p, some (owner, k (.ok []))⟩
  | stop {p : Pool σ ρ} {owner : Owner} {x : Coop σ ρ ρ} {pause : Coop.Pause σ ρ ρ} : x.stop? = some pause →
    Step C ⟨p, some (owner, x)⟩ [] ⟨p.stopped owner (pause, p.state), none⟩

/-- One thing after another. -/
inductive Steps (C : Chronicle σ ε) : Moment σ ρ → Trace ε → Moment σ ρ → Prop
  | refl {m : Moment σ ρ} : Steps C m [] m
  | step {m n o : Moment σ ρ} {t u : Trace ε} : Step C m t n → Steps C n u o → Steps C m (t ++ u) o

/-- In whichever order things happen, there comes a moment of which, and of all that has been put on record
until then, a condition holds. -/
inductive Eventually (C : Chronicle σ ε) (P : Trace ε → Moment σ ρ → Prop) : Trace ε → Moment σ ρ → Prop
  | now {t : Trace ε} {m : Moment σ ρ} : P t m → Eventually C P t m
  | later {t : Trace ε} {m : Moment σ ρ} : ¬ m.Done →
    (∀ u n, Step C m u n → Eventually C P (t ++ u) n) → Eventually C P t m

variable {C : Chronicle σ ε} {m n o : Moment σ ρ} {t u : Trace ε}

theorem Step.steps (h : Step C m t n) : Steps C m t n := by
  have hsteps := Steps.step h .refl
  rwa [List.append_nil] at hsteps

theorem Steps.trans (h : Steps C m t n) (h' : Steps C n u o) : Steps C m (t ++ u) o := by
  induction h with
  | refl => exact h'
  | step hstep _ ih =>
    rw [List.append_assoc]
    exact .step hstep (ih h')

theorem Eventually.mono {P P' : Trace ε → Moment σ ρ → Prop} (h : Eventually C P t m)
    (himp : ∀ t m, P t m → P' t m) : Eventually C P' t m := by
  induction h with
  | now hP => exact .now (himp _ _ hP)
  | later hdone _ ih => exact .later hdone ih

/-- A run after which nothing is left to happen has come to such a moment. -/
theorem Eventually.passes {P : Trace ε → Moment σ ρ → Prop} (h : Eventually C P t m) (hsteps : Steps C m u n)
    (hdone : n.Done) :
    ∃ u₁ u₂ o, u = u₁ ++ u₂ ∧ Steps C m u₁ o ∧ P (t ++ u₁) o ∧ Steps C o u₂ n := by
  induction h generalizing u with
  | @now t m hP => exact ⟨[], u, m, rfl, .refl, (List.append_nil t).symm ▸ hP, hsteps⟩
  | @later t m hnot _ ih =>
    cases hsteps with
    | refl => exact absurd hdone hnot
    | step hstep hrest =>
      obtain ⟨u₁, u₂, o, rfl, hbefore, hP, hafter⟩ := ih _ _ hstep hrest
      rw [List.append_assoc] at hP
      exact ⟨_, u₂, o, (List.append_assoc _ _ _).symm, .step hstep hbefore, hP, hafter⟩

/-! ## 3. Every order comes to an end -/

/-- All that is left to do. -/
def tasks (m : Moment σ ρ) : Multiset (Task σ ρ) := m.pool.tasks m.doing

/-- How close a moment is to its end: what is left to do, and whether anybody has begun with it. -/
def ahead (m : Moment σ ρ) : Multiset (Task σ ρ) × Bool := (m.tasks, m.now.isNone)

/-- Less is ahead: there is less to do, or someone has begun with the same. -/
def Nearer : Multiset (Task σ ρ) × Bool → Multiset (Task σ ρ) × Bool → Prop :=
  Prod.Lex Pool.Fewer fun a b => a = false ∧ b = true

theorem wellFounded_nearer : WellFounded (Nearer : Multiset (Task σ ρ) × Bool → _ → Prop) := by
  refine WellFounded.prod_lex Pool.wellFounded_fewer ⟨fun b => ?_⟩
  have hfalse : Acc (fun a b => a = false ∧ b = true) false := ⟨_, fun a ha => nomatch ha.2⟩
  cases b with
  | false => exact hfalse
  | true => exact ⟨_, fun a ha => ha.1 ▸ hfalse⟩

theorem census_take {τ : Type*} {ofReady : Ready σ ρ → τ} {ofGroup : Group σ ρ → Option τ} {p : Pool σ ρ}
    {before after : List (Ready σ ρ)} {item : Ready σ ρ} (h : p.queue = before ++ item :: after) :
    p.census ofReady ofGroup [] =
      ofReady item ::ₘ ({ p with queue := before ++ after } : Pool σ ρ).census ofReady ofGroup [] := by
  have hcons := Pool.census_cons ofReady ofGroup { p with queue := before } item after
  simp only [Pool.census, List.append_nil, h] at hcons ⊢
  exact hcons

theorem tasks_take {p : Pool σ ρ} {before after : List (Ready σ ρ)} {item : Ready σ ρ}
    (h : p.queue = before ++ item :: after) :
    p.tasks [] = Pool.taskOf item ::ₘ ({ p with queue := before ++ after } : Pool σ ρ).tasks [] :=
  census_take h

theorem fewer_replace (p : Pool σ ρ) (owner : Owner) {x y : Coop σ ρ ρ} (h : Task.Less (.going y) (.going x)) :
    Pool.Fewer (p.tasks [.resume owner y]) (p.tasks [.resume owner x]) := by
  rw [Pool.tasks_cons, Pool.tasks_cons, ← Multiset.singleton_add]
  refine Pool.fewer_of_less (fun t ht => ?_) _
  rw [Multiset.mem_singleton.1 ht]
  exact h

theorem fewer_stop (p : Pool σ ρ) (owner : Owner) {x : Coop σ ρ ρ} {stop : Coop.Pause σ ρ ρ × σ}
    (h : stop.1.LessThan x) : Pool.Fewer ((p.stopped owner stop).tasks []) (p.tasks [.resume owner x]) := by
  rw [Pool.tasks_cons]
  exact Pool.fewer_stopped p owner h []

/-- Whatever happens, less is ahead. -/
theorem Step.nearer (h : Step C m t n) : Nearer n.ahead m.ahead := by
  cases h with
  | @begin p before after owner x hqueue =>
    change Nearer (({ p with queue := before ++ after } : Pool σ ρ).tasks [.resume owner x], false)
      (p.tasks [], true)
    rw [Pool.tasks_cons, tasks_take hqueue]
    exact .right _ ⟨rfl, rfl⟩
  | @report p before after g place r hqueue =>
    refine .left _ _ ?_
    have hfewer := Pool.fewer_fire { p with queue := before ++ after } (.report g place r) []
    rw [Pool.tasks_cons] at hfewer
    rw [← tasks_take hqueue] at hfewer
    exact hfewer
  | @act p owner β a k => exact .left _ _ (fewer_replace p owner (TransGen.single (.act a k _)))
  | @rest p owner β a k => exact .left _ _ (fewer_stop p owner (TransGen.single (Task.Leaves.act a k _)))
  | @skip p owner k =>
    exact .left _ _ (fewer_replace p owner (TransGen.tail (TransGen.single (.resume k _)) (.wait [] k)))
  | @stop p owner x pause hstop => exact .left _ _ (fewer_stop p owner (Coop.lessThan_of_stop? hstop))

/-- As long as something is left, something can happen. -/
theorem exists_step (C : Chronicle σ ε) (h : ¬ m.Done) : ∃ t n, Step C m t n := by
  obtain ⟨p, now⟩ := m
  cases now with
  | none =>
    have hsome : p.queue ≠ [] := fun hempty => h ⟨hempty, rfl⟩
    obtain ⟨item, after, hqueue⟩ := List.exists_cons_of_ne_nil hsome
    cases item with
    | resume owner x => exact ⟨_, _, .begin [] hqueue⟩
    | report g place r => exact ⟨_, _, .report [] hqueue⟩
  | some who =>
    obtain ⟨owner, x⟩ := who
    match x with
    | .done r => exact ⟨_, _, .stop rfl⟩
    | .act a k => exact ⟨_, _, .act⟩
    | .turn k => exact ⟨_, _, .stop rfl⟩
    | .gather [] k => exact ⟨_, _, .skip⟩
    | .gather (p :: ps) k => exact ⟨_, _, .stop rfl⟩

/-- Everyone is accounted for at a moment. -/
def Live (m : Moment σ ρ) : Prop := m.pool.Live m.doing

theorem live_start (x : Coop σ ρ ρ) (s : σ) : Live (start x s) := Pool.live_start x s

theorem Step.live (h : Step C m t n) (hlive : Live m) : Live n := by
  have htake : ∀ {p : Pool σ ρ} {before after : List (Ready σ ρ)} {item : Ready σ ρ},
      p.queue = before ++ item :: after → p.Live [] → Pool.Live { p with queue := before ++ after } [item] := by
    intro p before after item hqueue hlive
    refine hlive.congr (fun other => ?_) rfl rfl
    rw [hqueue, List.append_nil]
    change other ∈ before ++ after ++ [item] ↔ _
    simp only [List.mem_append, List.mem_cons]
    tauto
  cases h with
  | begin _ hqueue => exact htake hqueue hlive
  | report _ hqueue => exact (htake hqueue hlive).report
  | @act p owner β a k => exact hlive.replace _ _
  | @rest p owner β a k =>
    have hgoing : p.Live [.resume owner (.act a k)] := hlive
    have hless : (Coop.Pause.turn (k (a p.state).1), (a p.state).2).1.LessThan (.act a k) :=
      TransGen.single (.act a k _)
    exact hgoing.stopped hless
  | @skip p owner k => exact hlive.replace _ p.state
  | @stop p owner x pause hstop =>
    have hgoing : p.Live [.resume owner x] := hlive
    exact hgoing.stopped (Coop.lessThan_of_stop? hstop)

/-- Where nothing is left to happen the root has ended. -/
theorem Live.isSome_of_done (h : Live m) (hdone : m.Done) : m.pool.result.isSome = true := by
  obtain ⟨p, now⟩ := m
  obtain ⟨hempty, rfl⟩ := hdone
  exact Pool.Live.isSome_of_empty h hempty

/-! ## 4. The order of the driver is one of them -/

/-- To go on until it stops by itself is one way to go on. -/
theorem exists_steps_stopped (C : Chronicle σ ε) (p : Pool σ ρ) (owner : Owner) (x : Coop σ ρ ρ) :
    ∃ t, Steps C ⟨p, some (owner, x)⟩ t ⟨p.stopped owner (x.advance p.state), none⟩ := by
  induction hx : Task.going x using Task.wellFounded_less.induction generalizing p x with
  | _ task ih =>
    subst hx
    match x with
    | .done r => exact ⟨_, Step.steps (.stop rfl)⟩
    | .act a k =>
      have hless : Task.Less (.going (k (a p.state).1)) (.going (.act a k)) := TransGen.single (.act a k _)
      obtain ⟨t, hsteps⟩ := ih _ hless { p with state := (a p.state).2 } _ rfl
      have hsame : ({ p with state := (a p.state).2 } : Pool σ ρ).stopped owner
          ((k (a p.state).1).advance (a p.state).2) =
            p.stopped owner ((Coop.act a k).advance p.state) := by
        rw [Coop.advance]
        rcases (k (a p.state).1).advance (a p.state).2 with ⟨pause, s⟩
        cases pause with
        | done r => cases owner <;> rfl
        | turn k => rfl
        | gather parts k => rfl
      rw [← hsame]
      exact ⟨_, .step .act hsteps⟩
    | .turn k => exact ⟨_, Step.steps (.stop rfl)⟩
    | .gather [] k =>
      have hless : Task.Less (.going (k (.ok []))) (.going (.gather [] k)) :=
        TransGen.tail (TransGen.single (.resume k _)) (.wait [] k)
      obtain ⟨t, hsteps⟩ := ih _ hless p _ rfl
      exact ⟨_, .step .skip hsteps⟩
    | .gather (y :: ys) k => exact ⟨_, Step.steps (.stop rfl)⟩

theorem steps_fire (item : Ready σ ρ) (rest : List (Ready σ ρ)) (p : Pool σ ρ) :
    ∃ t, Steps C ⟨{ p with queue := item :: rest ++ p.queue }, none⟩ t
      ⟨{ p.fire item with queue := rest ++ (p.fire item).queue }, none⟩ := by
  cases item with
  | resume owner x =>
    have hbegin : Step C ⟨{ p with queue := .resume owner x :: rest ++ p.queue }, none⟩ []
        ⟨{ p with queue := rest ++ p.queue }, some (owner, x)⟩ := .begin [] rfl
    obtain ⟨t, hsteps⟩ := exists_steps_stopped C { p with queue := rest ++ p.queue } owner x
    have hnext : ({ p with queue := rest ++ p.queue } : Pool σ ρ).stopped owner (x.advance p.state) =
        { p.fire (.resume owner x) with queue := rest ++ (p.fire (.resume owner x)).queue } := by
      rw [Pool.fire, Pool.resume_eq_stopped]
      rcases x.advance p.state with ⟨pause, s⟩
      cases pause with
      | done r => cases owner <;> simp [Pool.stopped, Pool.enqueue]
      | turn k => simp [Pool.stopped, Pool.enqueue]
      | gather parts k => simp [Pool.stopped, Pool.enqueue]
    rw [← hnext]
    exact ⟨_, .step hbegin hsteps⟩
  | report g place r =>
    have hstep : Step C ⟨{ p with queue := .report g place r :: rest ++ p.queue }, none⟩ []
        ⟨({ p with queue := rest ++ p.queue } : Pool σ ρ).report g place r, none⟩ := .report [] rfl
    have hnext : ({ p with queue := rest ++ p.queue } : Pool σ ρ).report g place r =
        { p.fire (.report g place r) with queue := rest ++ (p.fire (.report g place r)).queue } := by
      rw [Pool.fire, Pool.report, Pool.report]
      dsimp only
      cases p.groups[g]? with
      | none => rfl
      | some group =>
        dsimp only
        split
        · rfl
        · cases r with
          | error e => simp [Pool.settle, Pool.enqueue]
          | ok a =>
            dsimp only
            cases Pool.complete? (group.results.setIfInBounds place (some a)) with
            | some as => simp [Pool.settle, Pool.enqueue]
            | none => rfl
    rw [← hnext]
    exact ⟨_, hstep.steps⟩

theorem steps_foldl_fire (rest : List (Ready σ ρ)) (p : Pool σ ρ) :
    ∃ t, Steps C ⟨{ p with queue := rest ++ p.queue }, none⟩ t ⟨rest.foldl Pool.fire p, none⟩ := by
  induction rest generalizing p with
  | nil => exact ⟨[], .refl⟩
  | cons item rest ih =>
    obtain ⟨t, hfire⟩ := steps_fire (C := C) item rest p
    obtain ⟨u, hsteps⟩ := ih (p.fire item)
    exact ⟨t ++ u, hfire.trans hsteps⟩

theorem exists_steps_round (C : Chronicle σ ε) (p : Pool σ ρ) : ∃ t, Steps C ⟨p, none⟩ t ⟨p.round, none⟩ := by
  obtain ⟨t, hsteps⟩ := steps_foldl_fire (C := C) p.queue { p with queue := [] }
  rw [List.append_nil] at hsteps
  exact ⟨t, hsteps⟩

/-- What the driver does in so many rounds is one order in which things may happen. -/
theorem exists_steps_rounds (C : Chronicle σ ε) (n : Nat) (p : Pool σ ρ) :
    ∃ t, Steps C ⟨p, none⟩ t ⟨p.rounds n, none⟩ := by
  induction n generalizing p with
  | zero => exact ⟨[], .refl⟩
  | succ n ih =>
    obtain ⟨t, hround⟩ := exists_steps_round C p
    rw [Pool.rounds]
    split
    · obtain ⟨u, hlast⟩ := exists_steps_round C p.round
      exact ⟨t ++ u, hround.trans hlast⟩
    · obtain ⟨u, hrest⟩ := ih p.round
      exact ⟨t ++ u, hround.trans hrest⟩

end Moment

end NodeFlow
