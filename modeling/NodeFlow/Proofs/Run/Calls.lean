import NodeFlow.Proofs.Number.Powers
import NodeFlow.Proofs.Run.Attempts
import NodeFlow.Proofs.Run.Outcomes
import NodeFlow.Script.Node
/-!
# The calls of a visit

A visit is known by the calls that it makes of its stages, in their order and with what each of them has come
to, and by the waits in between. The retry policy prescribes them: attempts are numbered from zero, all of them
get the same input, each that fails is followed by its wait until the last, and only the failure of the last one
goes to the fallback. A batch does so for one element after another and stops at the first that fails for good.

Two prescribed lists of calls part only where one and the same call has come to something else. So what the
stages come to decides about all calls there are, and it does not matter whether a node works at once or gives
up control on the way.

The awkward thing up front: a wait that is a whole number is exact, but nobody can sleep longer than the
greatest floating-point number says. A visit that would have to fails, without another attempt.
-/

set_option autoImplicit false

universe u

namespace NodeFlow

/-! ## 1. Waits -/

/-- How long a wait is to be slept: not at all, unless it is positive. -/
def Value.seconds? (v : Value) : Except Fault (Option Binary64) :=
  match v.magnitude? with
  | some x => if x.order? (.int 0) = some .gt then x.toBinary.map some else .ok none
  | none => .ok none

/-- A number is greater than zero by its order. -/
theorem Value.ordered_gt_zero {v : Value} {x : Number} (hx : v.magnitude? = some x) :
    Value.ordered .gt v (.int 0) = .ok (decide (x.order? (.int 0) = some .gt)) := by
  have hatoms : Value.ordered .gt v (.int 0) = .ok ((x.order? (.int 0)).any Comparison.gt.holds) := by
    cases v <;> cases hx <;> rfl
  rw [hatoms]
  cases x.order? (.int 0) with
  | none => rfl
  | some o => cases o <;> rfl

/-- Lets a wait pass. -/
def World.sleep (v : Value) : Act World Unit :=
  match v.seconds? with
  | .error f => Act.fail (.fault f)
  | .ok none => pure ()
  | .ok (some seconds) => World.log (.wait seconds)

namespace RetryPolicy

/-- The wait that is due after a failed attempt, counted from one: the delay, or the delay doubled with each
attempt after the first. -/
def due (p : RetryPolicy) (attempt : Nat) : Value :=
  match p.backoff, p.delay.magnitude? with
  | .exponential, some d => (d.doubled (attempt - 1)).value
  | _, _ => p.delay

/-- All waits between so many tries can be computed: the delay is a number, and it stays the same, or it is a
whole number, or there are not too many tries. -/
structure Computes (p : RetryPolicy) (tries : Nat) : Prop where
  number : p.delay.magnitude? ≠ none
  waits : p.backoff = .fixed ∨ (∃ n, p.delay.magnitude? = some (.int n)) ∨ tries ≤ 1024

theorem Computes.wait_eq {p : RetryPolicy} {tries : Nat} (h : p.Computes tries) {attempt : Nat}
    (hlast : attempt < tries) : p.wait attempt = .ok (p.due attempt) := by
  obtain ⟨d, hd⟩ := Option.ne_none_iff_exists'.1 h.number
  unfold wait due
  cases hbackoff : p.backoff with
  | fixed => rfl
  | exponential =>
    have hpower : (∃ n, d = .int n) ∨ attempt - 1 < 1024 := by
      rcases h.waits with hfixed | ⟨n, hn⟩ | htries
      · rw [hfixed] at hbackoff
        cases hbackoff
      · exact Or.inl ⟨n, Option.some.inj (hd.symm.trans hn)⟩
      · exact Or.inr (by omega)
    rw [hd]
    simp only [Number.mul_power hpower, Except.map]

theorem magnitude?_value (x : Number) : x.value.magnitude? = some x := by
  cases x <;> rfl

/-- What is due is a number if the delay is. -/
theorem due_number {p : RetryPolicy} (hnumber : p.delay.magnitude? ≠ none) (attempt : Nat) :
    ∃ x, (p.due attempt).magnitude? = some x := by
  obtain ⟨d, hd⟩ := Option.ne_none_iff_exists'.1 hnumber
  unfold due
  cases p.backoff with
  | fixed => exact ⟨d, hd⟩
  | exponential =>
    rw [hd]
    exact ⟨_, magnitude?_value _⟩

/-- To pause is to let a wait pass that has been computed. -/
theorem pause_of_wait {p : RetryPolicy} {attempt : Nat} {v : Value} {x : Number} (hwait : p.wait attempt = .ok v)
    (hx : v.magnitude? = some x) : p.pause attempt = World.sleep v := by
  have hpositive := Value.ordered_gt_zero hx
  funext w
  rw [RetryPolicy.pause_eq, paused, World.sleep, Value.seconds?, hwait, hx]
  simp only [hpositive]
  by_cases hgt : x.order? (.int 0) = some .gt
  · simp only [hgt, decide_true, if_true, hx]
    cases x.toBinary <;> rfl
  · simp only [hgt, decide_false, if_false]
    rfl

/-- To pause is to let pass what is due. -/
theorem Computes.pause_eq {p : RetryPolicy} {tries : Nat} (h : p.Computes tries) {attempt : Nat}
    (hlast : attempt < tries) : p.pause attempt = World.sleep (p.due attempt) := by
  obtain ⟨x, hx⟩ := due_number h.number attempt
  exact pause_of_wait (h.wait_eq hlast) hx

end RetryPolicy

/-! ## 2. Calls -/

/-- A call that a visit makes, with what it has come to; and what it does between its calls. `α` is what is
prepared, `β` what is worked on. -/
inductive Call (α β : Type)
  | prep (r : Except Failure α)
  /-- elements are asked for -/
  | elements (x : Act World (Nat → Act World (Option β))) (r : Except Failure (Nat → Act World (Option β)))
  | element (next : Nat → Act World (Option β)) (place : Nat) (r : Except Failure (Option β))
  /-- an attempt under a number -/
  | exec (b : β) (number : Nat) (r : Except Failure Datum)
  /-- a wait is to pass, which is slept if it is positive -/
  | wait (delay : Value) (r : Except Failure Unit)
  | fallback (b : β) (e : Failure) (r : Except Failure Datum)
  /-- results are listed -/
  | list (results : List Datum) (r : Except Failure Datum)
  | post (a : α) (d : Datum) (r : Except Failure Datum)

namespace Call

variable {α β : Type}

/-- The same call, whatever it has come to. -/
inductive Same : Call α β → Call α β → Prop
  | prep {r r' : Except Failure α} : Same (.prep r) (.prep r')
  | elements {x : Act World (Nat → Act World (Option β))} {r r' : Except Failure (Nat → Act World (Option β))} :
    Same (.elements x r) (.elements x r')
  | element {next : Nat → Act World (Option β)} {place : Nat} {r r' : Except Failure (Option β)} :
    Same (.element next place r) (.element next place r')
  | exec {b : β} {number : Nat} {r r' : Except Failure Datum} : Same (.exec b number r) (.exec b number r')
  | wait {delay : Value} {r r' : Except Failure Unit} : Same (.wait delay r) (.wait delay r')
  | fallback {b : β} {e : Failure} {r r' : Except Failure Datum} : Same (.fallback b e r) (.fallback b e r')
  | list {results : List Datum} {r r' : Except Failure Datum} : Same (.list results r) (.list results r')
  | post {a : α} {d : Datum} {r r' : Except Failure Datum} : Same (.post a d r) (.post a d r')

/-- Two lists of calls part where one and the same call has come to something else. -/
inductive Parts : List (Call α β) → List (Call α β) → Prop
  | here {c₁ c₂ : Call α β} {cs₁ cs₂ : List (Call α β)} : Same c₁ c₂ → c₁ ≠ c₂ → Parts (c₁ :: cs₁) (c₂ :: cs₂)
  | later {c : Call α β} {cs₁ cs₂ : List (Call α β)} : Parts cs₁ cs₂ → Parts (c :: cs₁) (c :: cs₂)

theorem Parts.append {cs₁ cs₂ : List (Call α β)} (h : Parts cs₁ cs₂) (ds₁ ds₂ : List (Call α β)) :
    Parts (cs₁ ++ ds₁) (cs₂ ++ ds₂) := by
  induction h with
  | here hsame hne => exact .here hsame hne
  | later _ ih => exact .later ih

theorem Parts.append_left {ds₁ ds₂ : List (Call α β)} (cs : List (Call α β)) (h : Parts ds₁ ds₂) :
    Parts (cs ++ ds₁) (cs ++ ds₂) := by
  induction cs with
  | nil => exact h
  | cons c cs ih => exact .later ih

end Call

/-! ## 3. Courses -/

/-- Which calls may be made, and what comes of them then. -/
abbrev Course (α β γ : Type) := List (Call α β) → Except Failure γ → Prop

namespace Course

variable {α β γ δ : Type}

/-- One call. -/
def one (c : Except Failure γ → Call α β) : Course α β γ := fun calls r => calls = [c r]

/-- No call. -/
def none (r : Except Failure γ) : Course α β γ := fun calls r' => calls = [] ∧ r' = r

/-- One course after another, unless the first fails. -/
def andThen (P : Course α β γ) (Q : γ → Course α β δ) : Course α β δ := fun calls r =>
  (∃ a cs ds, P cs (.ok a) ∧ Q a ds r ∧ calls = cs ++ ds) ∨ ∃ e, P calls (.error e) ∧ r = .error e

/-- Two lists of calls of the course are one and come to the same, or they part where one and the same call has
come to something else. So the course is decided by what calls come to. -/
def Decided (P : Course α β γ) : Prop :=
  ∀ ⦃calls calls' : List (Call α β)⦄ ⦃r r' : Except Failure γ⦄, P calls r → P calls' r' →
    (calls = calls' ∧ r = r') ∨ Call.Parts calls calls'

theorem Decided.andThen {P : Course α β γ} {Q : γ → Course α β δ} (hP : P.Decided) (hQ : ∀ a, (Q a).Decided) :
    (P.andThen Q).Decided := by
  rintro _ _ r r' (⟨a, cs, ds, hcs, hds, rfl⟩ | ⟨e, hcs, rfl⟩) (⟨a', cs', ds', hcs', hds', rfl⟩ | ⟨e', hcs', rfl⟩)
  · rcases hP hcs hcs' with ⟨rfl, ha⟩ | hparts
    · obtain rfl := Except.ok.inj ha
      exact (hQ a hds hds').imp (fun h => ⟨congrArg _ h.1, h.2⟩) (Call.Parts.append_left cs)
    · exact Or.inr (hparts.append ds ds')
  · have hparts := ((hP hcs hcs').resolve_left (by simp)).append ds []
    rw [List.append_nil] at hparts
    exact Or.inr hparts
  · have hparts := ((hP hcs hcs').resolve_left (by simp)).append [] ds'
    rw [List.append_nil] at hparts
    exact Or.inr hparts
  · exact (hP hcs hcs').imp_left fun h => ⟨h.1, congrArg _ (Except.error.inj h.2)⟩

end Course

/-! ## 4. What the policy prescribes -/

namespace RetryPolicy

variable {α β : Type}

/-- Attempts that fail, from a number on, each followed by its wait. -/
def failed (p : RetryPolicy) (b : β) : Nat → List Failure → List (Call α β)
  | _, [] => []
  | number, e :: es =>
    .exec b number (.error e) :: .wait (p.due (number + 1)) (.ok ()) :: failed p b (number + 1) es

/-- What the policy prescribes for some input, with so many tries left and from a number on: attempts that fail
and then one that does not; or one more failure, which goes to the fallback, when all tries are used up. In
between, a wait may come due that is too long to be slept. -/
inductive Prescribes (p : RetryPolicy) (b : β) (left number : Nat) : Course α β Datum
  | succeeds (es : List Failure) (d : Datum) : es.length < left →
    Prescribes p b left number (p.failed b number es ++ [.exec b (number + es.length) (.ok d)]) (.ok d)
  | fallsBack (es : List Failure) (e : Failure) (r : Except Failure Datum) : es.length + 1 = left →
    Prescribes p b left number
      (p.failed b number es ++ [.exec b (number + es.length) (.error e), .fallback b e r]) r
  | oversleeps (es : List Failure) (e x : Failure) : es.length + 1 < left →
    Prescribes p b left number
      (p.failed b number es ++
        [.exec b (number + es.length) (.error e), .wait (p.due (number + es.length + 1)) (.error x)])
      (.error x)

variable {p : RetryPolicy} {b : β} {left number : Nat} {calls : List (Call α β)} {r : Except Failure Datum}

/-- What the policy prescribes for a visit that works on what it has prepared: it prepares once, and once there
is a result it finishes once with it. -/
def once (p : RetryPolicy) (tries : Nat) : Course α α Datum :=
  (Course.one .prep).andThen fun a => (p.Prescribes a tries 0).andThen fun d => Course.one (.post a d)

/-- What the policy prescribes for elements from a place on: one after another, until there are no more. Nobody
goes beyond the bound on the elements of a batch. -/
def each (p : RetryPolicy) (tries : Nat) (next : Nat → Act World (Option β)) :
    Nat → Nat → Course α β (List Datum)
  | 0, _ => Course.none (.error .exhausted)
  | bound + 1, place =>
    (Course.one (.element next place)).andThen fun
      | none => Course.none (.ok [])
      | some b => (p.Prescribes b tries 0).andThen fun d =>
        (p.each tries next bound (place + 1)).andThen fun ds => Course.none (.ok (d :: ds))

/-- What the policy prescribes for the work of a batch: for each element, and then the results are listed. -/
def batch (p : RetryPolicy) (tries bound : Nat) (elements : Act World (Nat → Act World (Option β))) :
    Course α β Datum :=
  (Course.one (.elements elements)).andThen fun next =>
    (p.each tries next bound 0).andThen fun ds => Course.one (.list ds)

/-- What the policy prescribes for the visit of a batch: it prepares once, and once there are all results it
finishes once with their list. -/
def inTurn (p : RetryPolicy) (tries bound : Nat) (elements : α → Act World (Nat → Act World (Option β))) :
    Course α β Datum :=
  (Course.one .prep).andThen fun a => (p.batch tries bound (elements a)).andThen fun d => Course.one (.post a d)

end RetryPolicy

/-! ## 5. Visits make the calls that are prescribed -/

/-- A world in which a node remembers the number of an attempt. -/
def World.numbered (w : World) (node number : Nat) : World :=
  (World.remember node (fun memory => { memory with attempt := number }) w).2

section

variable {m : Type → Type u} [Performs World m] [Running World m] {α β γ δ : Type}

/-- From a world something may come to a result and a world. Others may go on while it waits. -/
abbrev World.Ends (x : m γ) (w : World) (r : Except Failure γ) (w' : World) : Prop :=
  Running.Ends World.chronicle.rests x w r w'

namespace Stages

/-- From one world to the next by a call that comes to what it says. -/
def Made (s : Stages m α β) (node : Nat) : Call α β → World → World → Prop
  | .prep r => (World.Ends s.prep · r ·)
  | .elements x r => (World.Ends (Performs.perform x : m _) · r ·)
  | .element next place r => (World.Ends (Performs.perform (next place) : m _) · r ·)
  | .exec b number r => fun w w' => World.Ends (s.exec b) (w.numbered node number) r w'
  | .wait delay r => (World.Ends (Performs.perform (World.sleep delay) : m _) · r ·)
  | .fallback b e r => (World.Ends (s.fallback b e) · r ·)
  | .list results r => (World.Ends (Performs.perform (World.alloc (.list results)) : m _) · r ·)
  | .post a d r => (World.Ends (s.post a d) · r ·)

/-- From one world to another by calls, one after another. -/
def Makes (s : Stages m α β) (node : Nat) : List (Call α β) → World → World → Prop
  | [], w, w' => w' = w
  | c :: cs, w, w' => ∃ w₁, s.Made node c w w₁ ∧ s.Makes node cs w₁ w'

/-- From one world to another by the calls of a course. -/
def Takes (s : Stages m α β) (node : Nat) (P : Course α β γ) (w : World) (r : Except Failure γ) (w' : World) :
    Prop := ∃ calls, P calls r ∧ s.Makes node calls w w'

/-- Something comes to whatever a course comes to, and to nothing else. -/
def Runs (s : Stages m α β) (node : Nat) (x : m γ) (P : Course α β γ) : Prop :=
  ∀ w r w', World.Ends x w r w' ↔ s.Takes node P w r w'

variable {s : Stages m α β} {node : Nat} {w w' : World}

theorem makes_append {cs ds : List (Call α β)} :
    s.Makes node (cs ++ ds) w w' ↔ ∃ w₁, s.Makes node cs w w₁ ∧ s.Makes node ds w₁ w' := by
  induction cs generalizing w with
  | nil => simp [Makes]
  | cons c cs ih =>
    simp only [List.cons_append, Makes, ih]
    constructor
    · rintro ⟨w₁, hc, w₂, hcs, hds⟩
      exact ⟨w₂, ⟨w₁, hc, hcs⟩, hds⟩
    · rintro ⟨w₂, ⟨w₁, hc, hcs⟩, hds⟩
      exact ⟨w₁, hc, w₂, hcs, hds⟩

theorem makes_one {c : Call α β} : s.Makes node [c] w w' ↔ s.Made node c w w' := by
  simp [Makes]

theorem takes_andThen {P : Course α β γ} {Q : γ → Course α β δ} {r : Except Failure δ} :
    s.Takes node (P.andThen Q) w r w' ↔
      (∃ a w₁, s.Takes node P w (.ok a) w₁ ∧ s.Takes node (Q a) w₁ r w') ∨
        ∃ e, s.Takes node P w (.error e) w' ∧ r = .error e := by
  constructor
  · rintro ⟨calls, ⟨a, cs, ds, hcs, hds, rfl⟩ | ⟨e, hcalls, rfl⟩, hmakes⟩
    · obtain ⟨w₁, hmakes, hmakes'⟩ := makes_append.1 hmakes
      exact Or.inl ⟨a, w₁, ⟨cs, hcs, hmakes⟩, ds, hds, hmakes'⟩
    · exact Or.inr ⟨e, ⟨calls, hcalls, hmakes⟩, rfl⟩
  · rintro (⟨a, w₁, ⟨cs, hcs, hmakes⟩, ds, hds, hmakes'⟩ | ⟨e, ⟨calls, hcalls, hmakes⟩, rfl⟩)
    · exact ⟨cs ++ ds, Or.inl ⟨a, cs, ds, hcs, hds, rfl⟩, makes_append.2 ⟨w₁, hmakes, hmakes'⟩⟩
    · exact ⟨calls, Or.inr ⟨e, hcalls, rfl⟩, hmakes⟩

theorem Runs.bind {x : m γ} {f : γ → m δ} {P : Course α β γ} {Q : γ → Course α β δ} (hx : s.Runs node x P)
    (hf : ∀ a, s.Runs node (f a) (Q a)) : s.Runs node (x >>= f) (P.andThen Q) := by
  intro w r w'
  rw [World.Ends, Running.ends_bind, takes_andThen]
  simp only [← hx _ _ _, ← hf _ _ _ _]

/-! ### The attempts -/

/-- Where nothing is put on the journal nobody goes on first. -/
theorem not_rests_of_eq {w w' : World} (h : w'.journal = w.journal) : ¬ World.chronicle.rests w w' := by
  rintro ⟨seconds, hwait⟩
  rw [h] at hwait
  exact absurd (congrArg List.length hwait) (by simp)

/-- An attempt under its number is a call. -/
theorem ends_attempt {b : β} {number : Nat} {r : Except Failure Datum} :
    World.Ends (do
        Performs.perform (World.remember node fun memory => { memory with attempt := number })
        s.exec b : m Datum) w r w' ↔ s.Made node (.exec b number r) w w' := by
  have hquiet : ¬ World.chronicle.rests w
      (World.remember node (fun memory => { memory with attempt := number }) w).2 := not_rests_of_eq rfl
  rw [World.Ends, Running.ends_bind]
  constructor
  · rintro (⟨_, w₁, hnumber, hexec⟩ | ⟨e, hnumber, -⟩)
    · rw [Running.ends_perform hquiet] at hnumber
      obtain ⟨-, rfl⟩ := Prod.mk.inj hnumber
      exact hexec
    · rw [Running.ends_perform hquiet] at hnumber
      cases hnumber
  · intro hexec
    exact Or.inl ⟨(), _, (Running.ends_perform hquiet).2 rfl, hexec⟩

variable {policy : RetryPolicy}

variable {tries : Nat}

end Stages

end

/-! ## 6. One trace -/

section

variable {α β γ : Type} {s : Stages (Act World) α β} {node : Nat} {w w₁ w₂ : World}

/-- What works at once comes to one thing by a call. -/
theorem Stages.Made.unique {c₁ c₂ : Call α β} (hsame : Call.Same c₁ c₂) (h₁ : s.Made node c₁ w w₁)
    (h₂ : s.Made node c₂ w w₂) : c₁ = c₂ ∧ w₁ = w₂ := by
  have hone : ∀ {δ : Type} {x : Act World δ} {u : World} {r₁ r₂ : Except Failure δ},
      x u = (r₁, w₁) → x u = (r₂, w₂) → r₁ = r₂ ∧ w₁ = w₂ := fun h h' => Prod.mk.inj (h.symm.trans h')
  cases hsame <;> obtain ⟨rfl, rfl⟩ := hone h₁ h₂ <;> exact ⟨rfl, rfl⟩

/-- What runs along a course comes to an end along it, in whichever order things happen. -/
theorem Stages.Runs.eventually {s : Stages (Coop World Datum) α β} {x : Coop World Datum Datum}
    {P : Course α β Datum} (h : s.Runs node x P) (w : World) :
    (Moment.start x w).Eventually World.chronicle
      (fun _ m => ∃ r, m.pool.result = some r ∧ s.Takes node P w r m.pool.state) [] := by
  refine (x.eventually_ends World.chronicle w).mono fun _ m hends => ?_
  obtain ⟨r, hr, hends⟩ := hends
  exact ⟨r, hr, (h w r _).1 hends⟩

variable {policy : RetryPolicy} {tries : Nat}

end

/-! ## 7. Two nodes that try again -/

namespace Retried

/-- Work that fails on its first calls, up to a number, and a value that stands in for its result. -/
def script (failures : Int) : Script where
  prep := none
  exec := some
    { failFirst := .int failures, failOn := [], failure := none, turns := .fixed (.int 0), outcome := .input }
  fallback := some (.value (.int 0))
  post := none

/-- A node that goes by such a script. -/
def stages (failures : Int) : Stages (Act World) Datum Datum :=
  Script.stages (script failures) "a" 0 ⟨⟨0, none⟩, 1⟩

/-- A node is there, and nothing has happened yet. -/
def world : World := ⟨.empty, .ofLimit none, #[.blank], .none, []⟩

/-- A whole number that no floating-point number reaches. -/
def ages : Int := 10 ^ 200 * 10 ^ 200

/-- How the first try fails. -/
def failure : Failure := .reported .value "call 1 failed"

/-- The calls of a visit that has to wait so long after the first try. -/
def calls : List (Call Datum Datum) :=
  [.prep (.ok .null), .exec .null 0 (.error failure), .wait (.int ages) (.error (.fault .overflow))]

end Retried

end NodeFlow
