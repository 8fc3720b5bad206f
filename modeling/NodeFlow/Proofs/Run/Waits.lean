import NodeFlow.Proofs.Run.Calls
/-!
# Waits that cannot be computed

A wait that doubles is the delay times a power of two. While the delay is a whole number the product is one too,
however great. A delay that is a floating-point number has the power turned into one first, and no power from the
1024th on is within range. So the wait after the 1025th failed attempt cannot be computed, and a delay of zero
does not help; every other wait of a policy that a node can have is computed.

What fails there fails after an attempt and before the next. An attempt that fails each time is made as often as
there are tries, and its last failure goes to the fallback, as long as no such wait is among them. Otherwise it is
made 1025 times, and what the work ends in is the failure of the wait.
-/

set_option autoImplicit false

universe u

namespace NodeFlow

/-! ## 1. Which waits are computed -/

namespace RetryPolicy

/-- The wait after an attempt takes a floating-point number times a power beyond its range. -/
def Overflows (p : RetryPolicy) (attempt : Nat) : Prop :=
  p.backoff = .exponential ∧ (∃ x, p.delay.magnitude? = some (.float x)) ∧ 1024 < attempt

variable {p : RetryPolicy} {limit delay backoff : Value} {attempt tries : Nat}

/-- A delay that can be compared with zero is a number. -/
theorem number_of_ordered {b : Bool} (h : Value.ordered .lt delay (.int 0) = .ok b) : delay.magnitude? ≠ none := by
  cases delay with
  | bool | int | float => exact Option.some_ne_none _
  | null | undefined | str | list | dict | store => cases h

/-- A policy has the settings that it is made from, and its delay is a number. -/
theorem settings_of_make (h : make limit delay backoff = .ok p) :
    p.limit = limit ∧ p.delay = delay ∧ Backoff.ofValue? backoff = some p.backoff ∧
      Value.ordered .lt limit (.int 1) = .ok false ∧ p.delay.magnitude? ≠ none := by
  unfold make at h
  split at h
  · cases h
  · cases h
  · rename_i hlimit
    split at h
    · cases h
    · cases h
    · rename_i hdelay
      split at h
      · cases h
      · rename_i b hbackoff
        obtain rfl := Except.ok.inj h
        exact ⟨rfl, rfl, hbackoff, hlimit, number_of_ordered hdelay⟩

/-- There is at least one try. -/
theorem tries_pos (h : make limit delay backoff = .ok p) (htries : p.tries = .ok tries) : 0 < tries := by
  obtain ⟨hp, -, -, hlimit, -⟩ := settings_of_make h
  unfold RetryPolicy.tries at htries
  rw [hp] at htries
  cases limit with
  | int n =>
    obtain rfl := Except.ok.inj htries
    have hone : compare n 1 ≠ .lt := by
      simpa [Value.ordered, Value.orderAtoms, Value.magnitude?, Number.order?, Comparison.holds] using hlimit
    have hn : ¬ n < 1 := fun hlt => hone (Int.compare_eq_lt.2 hlt)
    omega
  | bool b =>
    obtain rfl := Except.ok.inj htries
    cases b with
    | false => cases hlimit
    | true => exact Nat.one_pos
  | null | undefined | str | list | dict | store | float => cases htries

/-- The wait is what is due, unless it takes a floating-point number times a power beyond its range. -/
theorem wait_eq (hnumber : p.delay.magnitude? ≠ none) (h : ¬ p.Overflows attempt) :
    p.wait attempt = .ok (p.due attempt) := by
  obtain ⟨d, hd⟩ := Option.ne_none_iff_exists'.1 hnumber
  unfold wait due
  cases hbackoff : p.backoff with
  | fixed => rfl
  | exponential =>
    have hpower : (∃ n, d = .int n) ∨ attempt - 1 < 1024 := by
      cases d with
      | int n => exact Or.inl ⟨n, rfl⟩
      | float x =>
        have hattempt : ¬ 1024 < attempt := fun hlt => h ⟨hbackoff, ⟨x, hd⟩, hlt⟩
        exact Or.inr (by omega)
    rw [hd]
    simp only [Number.mul_power hpower, Except.map]

theorem wait_overflow (h : p.Overflows attempt) : p.wait attempt = .error .overflow := by
  obtain ⟨hbackoff, ⟨x, hx⟩, hattempt⟩ := h
  unfold wait
  rw [hbackoff, hx]
  simp only [Number.mul_power_overflow x (show 1024 ≤ attempt - 1 by omega), Except.map]

/-- Any time can be slept that is a floating-point number, and doubled it is one. -/
theorem seconds_of_float {x : Binary64} (hx : p.delay.magnitude? = some (.float x)) (attempt : Nat) :
    ∃ o, (p.due attempt).seconds? = .ok o := by
  obtain ⟨y, hy⟩ : ∃ y, (p.due attempt).magnitude? = some (.float y) := by
    unfold due
    cases p.backoff with
    | fixed => exact ⟨x, hx⟩
    | exponential =>
      rw [hx]
      exact ⟨x.mul (.power (attempt - 1)), rfl⟩
  rw [Value.seconds?, hy]
  simp only [Number.toBinary, Except.map]
  split
  · exact ⟨_, rfl⟩
  · exact ⟨_, rfl⟩

/-- A wait that cannot be computed fails at once. -/
theorem pause_of_overflow (h : p.Overflows attempt) : p.pause attempt = Act.fail (.fault .overflow) := by
  funext w
  rw [pause_eq, paused, wait_overflow h]
  rfl

/-- Where a wait overflows the first one to do so is the wait after the 1025th attempt. -/
theorem Overflows.iff_lt (h : p.Overflows attempt) (attempt' : Nat) : p.Overflows attempt' ↔ 1024 < attempt' :=
  ⟨fun h' => h'.2.2, fun hlt => ⟨h.1, h.2.1, hlt⟩⟩

end RetryPolicy

/-! ## 2. Attempts that fail each time -/

section

variable {m : Type → Type u} [Performs World m] [Running World m] {α β : Type}

namespace Stages

/-- The work on an input fails whenever it is called. -/
def Fails (s : Stages m α β) (b : β) : Prop :=
  ∀ w r w', World.Ends (s.exec b) w r w' → ∃ e, r = .error e

/-- So many attempts are made at an input, numbered from zero, each but the last followed by its wait. All of them
fail, and the failure of the last one, which is its own, goes to the fallback. -/
def Exhausts (s : Stages m α β) (p : RetryPolicy) (node : Nat) (b : β) (tries : Nat) (w : World)
    (r : Except Failure Datum) (w' : World) : Prop :=
  ∃ (es : List Failure) (e : Failure), es.length + 1 = tries ∧
    s.Makes node (p.failed b 0 es ++ [.exec b es.length (.error e), .fallback b e r]) w w'

/-- So many attempts are made at an input, and then there is neither another nor a fallback. -/
def Breaks (s : Stages m α β) (p : RetryPolicy) (node : Nat) (b : β) (tries : Nat) (w w' : World) : Prop :=
  ∃ (es : List Failure) (e : Failure), es.length + 1 = tries ∧
    s.Makes node (p.failed b 0 es ++ [.exec b es.length (.error e)]) w w'

variable {s : Stages m α β} {p : RetryPolicy} {node : Nat} {b : β} {w w' : World} {r : Except Failure Datum}

/-- Attempts that fail each time go on until the tries are used up or a wait cannot be computed: induction on the
tries that are left. -/
theorem calls_of_fails (hnumber : p.delay.magnitude? ≠ none) (hfails : s.Fails b) (left number : Nat)
    (hsleeps : ∀ attempt ≤ number + left, ∀ w x w',
      ¬ World.Ends (Performs.perform (World.sleep (p.due attempt)) : m Unit) w (.error x) w')
    (h : World.Ends
      (retrying p .null (fun k => do
        Performs.perform (World.remember node fun memory => { memory with attempt := k - 1 })
        s.exec b) (s.fallback b) (left + 1) (number + 1)) w r w') :
    ∃ (es : List Failure) (e : Failure), (∀ k < es.length, ¬ p.Overflows (number + k + 1)) ∧
      ((es.length = left ∧
          s.Makes node (p.failed b number es ++ [.exec b (number + es.length) (.error e), .fallback b e r]) w w') ∨
        (es.length < left ∧ p.Overflows (number + es.length + 1) ∧ r = .error (.fault .overflow) ∧
          s.Makes node (p.failed b number es ++ [.exec b (number + es.length) (.error e)]) w w')) := by
  induction left generalizing number w with
  | zero =>
    rw [retrying, World.Ends, Running.ends_tryCatch] at h
    rcases h with ⟨d, hexec, rfl⟩ | ⟨e, w₁, hexec, hfallback⟩
    · obtain ⟨e, he⟩ := hfails _ _ _ (ends_attempt.1 hexec)
      cases he
    · exact ⟨[], e, by simp, Or.inl ⟨rfl, w₁, ends_attempt.1 hexec, makes_one.2 hfallback⟩⟩
  | succ left ih =>
    rw [retrying, World.Ends, Running.ends_tryCatch] at h
    rcases h with ⟨d, hexec, rfl⟩ | ⟨e, w₁, hexec, hnext⟩
    · obtain ⟨e, he⟩ := hfails _ _ _ (ends_attempt.1 hexec)
      cases he
    by_cases hover : p.Overflows (number + 1)
    · -- the wait after this attempt fails, which ends the work
      have hquiet : ¬ World.chronicle.rests w₁ ((p.pause (number + 1)) w₁).2 := by
        rw [RetryPolicy.pause_of_overflow hover]
        exact not_rests_of_eq rfl
      rw [Running.ends_bind] at hnext
      rcases hnext with ⟨_, w₂, hpause, -⟩ | ⟨x, hpause, rfl⟩
      · rw [Running.ends_perform hquiet, RetryPolicy.pause_of_overflow hover] at hpause
        cases hpause
      · rw [Running.ends_perform hquiet, RetryPolicy.pause_of_overflow hover] at hpause
        obtain ⟨hx, rfl⟩ := Prod.mk.inj hpause
        exact ⟨[], e, by simp,
          Or.inr ⟨Nat.succ_pos _, hover, congrArg _ (Except.error.inj hx).symm, makes_one.2 (ends_attempt.1 hexec)⟩⟩
    · -- it is computed and slept, and the next attempt follows
      obtain ⟨x, hx⟩ := RetryPolicy.due_number hnumber (number + 1)
      rw [RetryPolicy.pause_of_wait (RetryPolicy.wait_eq hnumber hover) hx, Running.ends_bind] at hnext
      rcases hnext with ⟨_, w₂, hsleep, hrest⟩ | ⟨x, hsleep, rfl⟩
      · obtain ⟨es, e', hover', hcalls⟩ := ih (number + 1) (fun k hk => hsleeps k (by omega)) hrest
        have hplace : number + 1 + es.length = number + (es.length + 1) := by omega
        rw [hplace] at hcalls
        refine ⟨e :: es, e', fun k hk => ?_, ?_⟩
        · cases k with
          | zero => exact hover
          | succ k =>
            have hk' := hover' k (Nat.lt_of_succ_lt_succ hk)
            rwa [show number + 1 + k + 1 = number + (k + 1) + 1 by omega] at hk'
        · rcases hcalls with ⟨hlength, hmakes⟩ | ⟨hlength, hover'', hr, hmakes⟩
          · exact Or.inl ⟨congrArg _ hlength, w₁, ends_attempt.1 hexec, w₂, hsleep, hmakes⟩
          · exact Or.inr ⟨Nat.succ_lt_succ hlength, hover'', hr, w₁, ends_attempt.1 hexec, w₂, hsleep, hmakes⟩
      · exact absurd hsleep (hsleeps _ (by omega) _ _ _)

/-- Whatever work on an input that fails each time comes to: without a wait that overflows all tries are used up and
the fallback has the last word, and otherwise there are 1025 attempts and no fallback. -/
def GivesUp (s : Stages m α β) (p : RetryPolicy) (node : Nat) (b : β) (tries : Nat) (w : World)
    (r : Except Failure Datum) (w' : World) : Prop :=
  (¬ p.Overflows (tries - 1) → s.Exhausts p node b tries w r w') ∧
    (p.Overflows (tries - 1) → r = .error (.fault .overflow) ∧ s.Breaks p node b 1025 w w')

theorem givesUp_of_fails {tries : Nat} (htries : p.tries = .ok tries) (hpos : 0 < tries)
    (hnumber : p.delay.magnitude? ≠ none) (hfails : s.Fails b)
    (hsleeps : ∀ attempt < tries, ∀ w x w',
      ¬ World.Ends (Performs.perform (World.sleep (p.due attempt)) : m Unit) w (.error x) w')
    (h : World.Ends (s.work p node b) w r w') : s.GivesUp p node b tries w r w' := by
  obtain ⟨left, rfl⟩ := Nat.exists_eq_add_one_of_ne_zero (Nat.ne_of_gt hpos)
  have hquiet : ¬ World.chronicle.rests w ((Act.ofFault p.tries : Act World Nat) w).2 := not_rests_of_eq rfl
  have hread : (Act.ofFault p.tries : Act World Nat) w = (.ok (left + 1), w) := by
    rw [htries]
    rfl
  have hwork : World.Ends
      (retrying p .null (fun k => do
        Performs.perform (World.remember node fun memory => { memory with attempt := k - 1 })
        s.exec b) (s.fallback b) (left + 1) (0 + 1)) w r w' := by
    rw [work, working, World.Ends, Running.ends_bind] at h
    rcases h with ⟨n, w₁, hn, hwork⟩ | ⟨e, he, -⟩
    · rw [Running.ends_perform hquiet, hread] at hn
      cases hn
      exact hwork
    · rw [Running.ends_perform hquiet, hread] at he
      cases he
  obtain ⟨es, e, hcomputed, hcalls⟩ := calls_of_fails hnumber hfails left 0 (fun k hk => hsleeps k (by omega)) hwork
  simp only [Nat.zero_add] at hcomputed hcalls
  rw [GivesUp, Nat.add_sub_cancel]
  constructor
  · intro hall
    rcases hcalls with ⟨hlength, hmakes⟩ | ⟨hlength, hover, -⟩
    · exact ⟨es, e, congrArg _ hlength, hmakes⟩
    · exact absurd ⟨hover.1, hover.2.1, Nat.lt_of_lt_of_le hover.2.2 hlength⟩ hall
  · intro hlast
    simp only [hlast.iff_lt, Nat.not_lt] at hcomputed hcalls
    have hreach : es.length ≤ 1024 := by
      by_contra hlong
      exact absurd (hcomputed 1024 (Nat.not_le.1 hlong)) (by decide)
    rcases hcalls with ⟨hlength, -⟩ | ⟨-, hover, hr, hmakes⟩
    · have := hlast.2.2
      omega
    · exact ⟨hr, es, e, by omega, hmakes⟩

end Stages

end

/-! ## 3. Every wait, and work that fails each time -/

/-- What a step comes to does not depend on who goes on first. -/
theorem Coop.result_of_ends {σ ρ γ : Type} {rests : σ → σ → Prop} {x : Act σ γ} {s s' : σ} {r : Except Failure γ}
    (h : (ofAct x : Coop σ ρ γ).Ends rests s r s') : r = (x s).1 := by
  cases h with
  | act h => exact (ends_done.1 h).1
  | rest _ h => exact (ends_done.1 h).1

/-- What works at once comes to what it does. -/
theorem World.ends_act {γ : Type} (x : Act World γ) (w : World) : World.Ends x w (x w).1 (x w).2 := rfl

/-- What can be slept is. -/
theorem World.sleep_of_seconds {v : Value} (h : ∃ o, v.seconds? = .ok o) (w : World) : (sleep v w).1 = .ok () := by
  obtain ⟨o, ho⟩ := h
  rw [sleep, ho]
  cases o <;> rfl

theorem World.not_sleep_error {v : Value} (h : ∃ o, v.seconds? = .ok o) {w w' : World} {e : Failure} :
    sleep v w ≠ (.error e, w') := by
  intro he
  have hok := sleep_of_seconds h w
  rw [he] at hok
  cases hok

section

variable {p : RetryPolicy} {limit delay backoff : Value} {tries : Nat} {α β : Type}

/-- **Which waits can be computed.** Of a policy that a node can have, the wait after an attempt is what is due,
unless the delay is a floating-point number that is to be doubled and the attempt is the 1025th or a later one; then
it cannot be computed. So work that fails each time is attempted exactly as often as there are tries, and its own
last failure goes to the fallback, if there are at most 1025 tries or no such delay; and otherwise it is attempted
1025 times and ends in the failure of the wait, provided that the waits are not too long to be slept. This holds of
every input of a node, of whatever kind it is: in whichever order things happen, the work comes to that. -/
theorem waits_computed (hmake : RetryPolicy.make limit delay backoff = .ok p) :
    (∀ attempt, (¬ p.Overflows attempt → p.wait attempt = .ok (p.due attempt)) ∧
      (p.Overflows attempt → p.wait attempt = .error .overflow)) ∧
    ∀ tries, p.tries = .ok tries → (∀ attempt < tries, ∃ o, (p.due attempt).seconds? = .ok o) →
      (∀ (s : Stages (Act World) α β) (node : Nat) (b : β) (w : World), s.Fails b →
        s.GivesUp p node b tries w (s.work p node b w).1 (s.work p node b w).2) ∧
      ∀ (s : Stages (Coop World Datum) α β) (node : Nat) (b : β) (w : World), s.Fails b →
        (∀ r w', World.Ends (s.work p node b) w r w' → s.GivesUp p node b tries w r w') ∧
        (Moment.start (s.work p node b) w).Eventually World.chronicle
          (fun _ m => ∃ r, m.pool.result = some r ∧ s.GivesUp p node b tries w r m.pool.state) [] := by
  obtain ⟨-, -, -, -, hnumber⟩ := RetryPolicy.settings_of_make hmake
  refine ⟨fun attempt => ⟨RetryPolicy.wait_eq hnumber, RetryPolicy.wait_overflow⟩, fun tries htries hsleeps => ?_⟩
  have hpos := RetryPolicy.tries_pos hmake htries
  refine ⟨fun s node b w hfails => ?_, fun s node b w hfails => ?_⟩
  · exact Stages.givesUp_of_fails htries hpos hnumber hfails
      (fun attempt hlast _ _ _ => World.not_sleep_error (hsleeps attempt hlast)) (World.ends_act _ _)
  · have hends : ∀ r w', World.Ends (s.work p node b) w r w' → s.GivesUp p node b tries w r w' := fun r w' =>
      Stages.givesUp_of_fails htries hpos hnumber hfails fun attempt hlast w x w' hends => by
        have hok := World.sleep_of_seconds (hsleeps attempt hlast) w
        rw [← Coop.result_of_ends hends] at hok
        cases hok
    refine ⟨hends, ((s.work p node b).eventually_ends World.chronicle w).mono fun _ m h => ?_⟩
    obtain ⟨r, hr, h⟩ := h
    exact ⟨r, hr, hends r _ h⟩

end

namespace Retried

/-- A node whose work fails each time, and a value that stands in for its result. -/
def hopeless : Stages (Act World) Datum Datum where
  prep := pure .null
  exec _ := Act.fail failure
  fallback _ _ := pure (.int 0)
  post _ d := pure d

theorem hopeless_fails (b : Datum) : hopeless.Fails b := fun _ _ _ h => ⟨failure, (Prod.mk.inj h).1.symm⟩

/-- So many tries, and no time in between, doubled after each. -/
def restless (tries : Nat) : RetryPolicy := ⟨.int tries, .float (.zero false), .exponential⟩

/-- No time is not negative. -/
theorem ordered_zero : Value.ordered .lt (.float (.zero false)) (.int 0) = .ok false := by decide +kernel

theorem make_restless {tries : Nat}
    (hlimit : Value.ordered .lt (.int tries) (.int 1) = .ok false) :
    RetryPolicy.make (.int tries) (.float (.zero false)) (.str "exponential") = .ok (restless tries) := by
  rw [RetryPolicy.make, hlimit, ordered_zero]
  rfl

/-- Three tries are all used up. -/
theorem waits_computed_restless :
    hopeless.Exhausts (restless 3) 0 .null 3 world (hopeless.work (restless 3) 0 .null world).1
      (hopeless.work (restless 3) 0 .null world).2 := by
  have hmake : RetryPolicy.make (.int 3) (.float (.zero false)) (.str "exponential") = .ok (restless 3) :=
    make_restless rfl
  have hdelay : (restless 3).delay.magnitude? = some (.float (.zero false)) := rfl
  obtain ⟨hwork, -⟩ := (@waits_computed _ _ _ _ Datum Datum hmake).2 3 rfl fun attempt _ =>
    RetryPolicy.seconds_of_float hdelay attempt
  exact (hwork hopeless 0 .null world (hopeless_fails _)).1 fun hover => absurd hover.2.2 (by decide)

/-- Of 1026 tries the last is never made, and nothing stands in for the result: the wait before it cannot be
computed. -/
theorem no_try_after_overflow :
    RetryPolicy.make (.int 1026) (.float (.zero false)) (.str "exponential") = .ok (restless 1026) ∧
      (restless 1026).wait 1025 = .error .overflow ∧
      (hopeless.work (restless 1026) 0 .null world).1 = .error (.fault .overflow) ∧
      hopeless.Breaks (restless 1026) 0 .null 1025 world (hopeless.work (restless 1026) 0 .null world).2 := by
  have hover : (restless 1026).Overflows 1025 := ⟨rfl, ⟨_, rfl⟩, by decide⟩
  have hmake : RetryPolicy.make (.int 1026) (.float (.zero false)) (.str "exponential") = .ok (restless 1026) :=
    make_restless rfl
  have hdelay : (restless 1026).delay.magnitude? = some (.float (.zero false)) := rfl
  have hgives : hopeless.GivesUp (restless 1026) 0 .null 1026 world _ _ :=
    Stages.givesUp_of_fails rfl (by decide) (by rw [hdelay]; exact Option.some_ne_none _) (hopeless_fails _)
      (fun attempt _ w x w' hends =>
        absurd hends (World.not_sleep_error (RetryPolicy.seconds_of_float hdelay attempt)))
      (World.ends_act _ _)
  exact ⟨hmake, RetryPolicy.wait_overflow hover, hgives.2 hover⟩

end Retried

end NodeFlow
