import NodeFlow.Proofs.Memory.Kept
import NodeFlow.Proofs.Run.Journal
import NodeFlow.Run.Stages
/-!
# What comes of work under a retry policy

A script says what comes of each attempt at an element, told apart by its number only, and what stands in
after the last. From it and the policy follows what is to come of the work as a whole, with every attempt and
every wait on record. Work that goes by its script comes to just that, however often it stops on the way and
whatever others do meanwhile, for nodes that work at once as for cooperative ones.

The awkward thing up front: a node remembers the number of its attempt in one place, which all elements
share. An attempt reads it before it first stops, so what others write there later does not matter.
-/

set_option autoImplicit false

universe u

namespace NodeFlow

/-! ## 1. Upshots -/

/-- What comes of something: what it puts on record, and how it ends. -/
structure Upshot (α : Type) where
  record : List Event
  result : Except Failure α

namespace Upshot

variable {α β : Type}

/-- Nothing is put on record. -/
def silent (r : Except Failure α) : Upshot α := ⟨[], r⟩

/-- One thing after another, unless the first fails. -/
def bind (x : Upshot α) (f : α → Upshot β) : Upshot β :=
  match x.result with
  | .ok a => ⟨x.record ++ (f a).record, (f a).result⟩
  | .error e => ⟨x.record, .error e⟩

/-- Goes on after a failure. -/
def tryCatch (x : Upshot α) (f : Failure → Upshot α) : Upshot α :=
  match x.result with
  | .ok a => ⟨x.record, .ok a⟩
  | .error e => ⟨x.record ++ (f e).record, (f e).result⟩

end Upshot

namespace RetryPolicy

/-- What comes of the wait after a failed attempt. -/
def paused (p : RetryPolicy) (attempt : Nat) : Upshot Unit :=
  match p.wait attempt with
  | .error e => .silent (.error (.fault e))
  | .ok v =>
    match Value.ordered .gt v (.int 0) with
    | .error e => .silent (.error (.fault e))
    | .ok false => .silent (.ok ())
    | .ok true =>
      match v.magnitude? with
      | none => .silent (.ok ())
      | some n =>
        match n.toBinary with
        | .error e => .silent (.error (.fault e))
        | .ok seconds => ⟨[.wait seconds], .ok ()⟩

theorem pause_eq (p : RetryPolicy) (attempt : Nat) (w : World) :
    p.pause attempt w =
      ((p.paused attempt).result, { w with journal := (p.paused attempt).record.reverse ++ w.journal }) := by
  unfold pause paused
  simp only [Bind.bind, Act.bind, Act.ofFault]
  cases p.wait attempt with
  | error e => rfl
  | ok v =>
    simp only [Except.mapError]
    cases Value.ordered .gt v (.int 0) with
    | error e => rfl
    | ok positive =>
      cases positive with
      | false => rfl
      | true =>
        simp only [if_true]
        cases v.magnitude? with
        | none => rfl
        | some n =>
          dsimp only
          cases n.toBinary <;> rfl

end RetryPolicy

/-- A script of the attempts at an element: what comes of each, counted from one, and of what stands in after
the last; and what has to be owned for each. -/
structure Attempts (μ : Type) where
  attempt : Nat → Upshot Value
  standIn : Failure → Upshot Value
  need : Nat → μ

namespace Attempts

variable {μ : Type}

/-- What comes of so many attempts from one on. -/
def retried (c : Attempts μ) (policy : RetryPolicy) : Nat → Nat → Upshot Value
  | 0, _ => .silent (.ok .null)
  | 1, k => (c.attempt k).tryCatch c.standIn
  | left + 2, k =>
    (c.attempt k).tryCatch fun _ => (policy.paused k).bind fun _ => c.retried policy (left + 1) (k + 1)

/-- What comes of the work under a policy. -/
def worked (c : Attempts μ) (policy : RetryPolicy) : Upshot Value :=
  (Upshot.silent (policy.tries.mapError .fault)).bind fun n => c.retried policy n 1

end Attempts

/-! ## 2. Going by a script -/

section

variable {μ α : Type} [AddCommMonoid μ]

/-- A datum shows a value for as long as something is owned. -/
def Stands (holds : μ → World → Prop) (own : μ) (d : Datum) (v : Value) : Prop :=
  ∀ f w, holds (own + f) w → w.heap.Shows d v

/-- A result is as it is to be: the same failure, or something that stands for the value. -/
def Matches (holds : μ → World → Prop) (own : μ) : Except Failure Datum → Except Failure Value → Prop
  | .ok d, .ok v => Stands holds own d v
  | .error e, .error e' => e = e'
  | _, _ => False

/-- Something ends as it is to, with its record and its result. -/
def Yields (holds : μ → World → Prop) (H : History Event) (u : Upshot Value) : Ending World μ Event Datum :=
  Leaving holds fun H' r own => H' = H.add u.record ∧ Matches holds own r u.result

/-- An attempt ends as it is to; after a failure what the next one needs is there. -/
def Attempted (holds : μ → World → Prop) (H : History Event) (u : Upshot Value) (next : μ) :
    Ending World μ Event Datum :=
  fun H' r w f => Yields holds H u H' r w f ∧ ∀ e, r = .error e → holds (next + f) w

/-- What is owned does not depend on the number of an attempt, nor on the journal; and the node is there. -/
structure Overlooks (holds : μ → World → Prop) (node : Nat) : Prop where
  there : ∀ own w, holds own w → node < w.memory.size
  remember : ∀ own w k, holds own w →
    holds own (World.remember node (fun memory => { memory with attempt := k }) w).2
  journal : ∀ own w es, holds own w → holds own { w with journal := es ++ w.journal }
  alloc : ∀ own w c, holds own w → holds own { w with heap := (w.heap.alloc c).2 }

/-- Work goes by a script: each attempt comes to what the script says if it starts under its number and with
what it needs, and so does what stands in. -/
structure Follows {m : Type → Type u} [Performs World m] (ρ : Type) [Settling World ρ m]
    (holds : μ → World → Prop) (node : Nat) (work : m Datum) (fallback : Failure → m Datum)
    (c : Attempts μ) : Prop where
  attempt : ∀ k H w f, 0 < k → (w.memoryOf node).attempt = k - 1 → holds (c.need k + f) w →
    Settling.Settles ρ World.chronicle holds H w f work (Attempted holds H (c.attempt k) (c.need (k + 1)))
  standIn : ∀ k e H w f, holds (c.need k + f) w →
    Settling.Settles ρ World.chronicle holds H w f (fallback e) (Yields holds H (c.standIn e))

end

section

variable {ρ μ : Type} [AddCommMonoid μ] {m : Type → Type u} [Performs World m] [Settling World ρ m]
  {holds : μ → World → Prop} {node : Nat} {work : m Datum} {fallback : Failure → m Datum} {c : Attempts μ}
  {policy : RetryPolicy} {H : History Event} {w : World} {f : μ}

theorem attempt_remember (hnode : node < w.memory.size) (k : Nat) :
    ((World.remember node (fun memory => { memory with attempt := k }) w).2.memoryOf node).attempt = k := by
  simp [World.remember, Act.modify, World.memoryOf, hnode]

/-- An attempt under its number, as a node makes it. -/
theorem Follows.numbered (h : Follows ρ holds node work fallback c) (hover : Overlooks holds node) {k : Nat}
    (hk : 0 < k) (hown : holds (c.need k + f) w) :
    Settling.Settles ρ World.chronicle holds H w f
      (do
        Performs.perform (World.remember node fun memory => { memory with attempt := k - 1 })
        work : m Datum)
      (Attempted holds H (c.attempt k) (c.need (k + 1))) := by
  have hremembered := hover.remember _ w (k - 1) hown
  have hnumber := attempt_remember (hover.there _ w hown) (k - 1)
  refine Settling.bind (P := fun H' r w' f' => H' = H ∧ r = .ok () ∧ f' = f ∧
    w' = (World.remember node (fun memory => { memory with attempt := k - 1 }) w).2) ?_ ?_ ?_
  · exact settles_silent ρ rfl rfl ⟨rfl, rfl, rfl, rfl⟩
  · rintro H' a w' f' ⟨rfl, -, rfl, rfl⟩
    exact h.attempt k _ _ _ hk hnumber hremembered
  · rintro H' e w' f' ⟨-, hr, -⟩
    cases hr

theorem Yields.tryCatch_ok {H' : History Event} {u : Upshot Value} {d : Datum} {F : Failure → Upshot Value}
    (h : Yields holds H u H' (.ok d) w f) : Yields holds H (u.tryCatch F) H' (.ok d) w f := by
  obtain ⟨own, hown, rfl, hresult⟩ := h
  unfold Upshot.tryCatch
  cases hu : u.result with
  | ok v =>
    rw [hu] at hresult
    exact ⟨own, hown, rfl, hresult⟩
  | error e =>
    rw [hu] at hresult
    exact hresult.elim

theorem Yields.tryCatch_error {H' H'' : History Event} {u : Upshot Value} {e : Failure}
    {F : Failure → Upshot Value} {r : Except Failure Datum} {w' : World} {f' : μ}
    (h : Yields holds H u H' (.error e) w f) (h' : Yields holds H' (F e) H'' r w' f') :
    Yields holds H (u.tryCatch F) H'' r w' f' := by
  obtain ⟨_, _, rfl, hresult⟩ := h
  obtain ⟨own, hown, rfl, hresult'⟩ := h'
  unfold Upshot.tryCatch
  cases hu : u.result with
  | ok v =>
    rw [hu] at hresult
    exact hresult.elim
  | error e' =>
    rw [hu] at hresult
    obtain rfl : e = e' := hresult
    exact ⟨own, hown, History.add_add _ _ _, hresult'⟩

/-- The wait after a failed attempt, during which what the next one needs stays owned. -/
theorem settles_pause (hover : Overlooks holds node) {own : μ} (k : Nat) (hown : holds (own + f) w) :
    Settling.Settles ρ World.chronicle holds H w f (Performs.perform (policy.pause k) : m Unit)
      fun H' r w' f' => H' = H.add (policy.paused k).record ∧ r = (policy.paused k).result ∧
        holds (own + f') w' := by
  have hkept := hover.journal _ w (policy.paused k).record.reverse hown
  refine settles_performed ρ (policy.pause_eq k w) rfl ⟨rfl, rfl, hkept⟩ fun _ _ => ⟨own, hkept, ?_⟩
  intro u g hu
  exact ⟨rfl, rfl, hu⟩

/-- So many attempts from one on come to what the script and the policy say. -/
theorem Follows.settles_retrying (h : Follows ρ holds node work fallback c) (hover : Overlooks holds node)
    (left k : Nat) (hk : 0 < k) (hown : holds (c.need k + f) w) :
    Settling.Settles ρ World.chronicle holds H w f
      (retrying policy .null (fun k => do
        Performs.perform (World.remember node fun memory => { memory with attempt := k - 1 })
        work) fallback left k)
      (Yields holds H (c.retried policy left k)) := by
  induction left using Nat.strong_induction_on generalizing k H w f with
  | _ left ih =>
    match left with
    | 0 =>
      refine Settling.pure (ρ := ρ) ⟨c.need k, hown, (History.add_nil H).symm, fun f w _ => ?_⟩
      exact w.heap.shows_null
    | 1 =>
      refine Settling.tryCatch (h.numbered hover hk hown) (fun H' d w' f' hd => hd.1.tryCatch_ok) ?_
      rintro H' e w' f' ⟨hyields, hnext⟩
      exact Settling.mono (h.standIn (k + 1) e H' w' f' (hnext e rfl)) fun _ _ _ _ hy =>
        hyields.tryCatch_error hy
    | left + 2 =>
      refine Settling.tryCatch (h.numbered hover hk hown) (fun H' d w' f' hd => hd.1.tryCatch_ok) ?_
      rintro H' e w' f' ⟨hyields, hnext⟩
      refine Settling.mono (Settling.bind (settles_pause hover k (hnext e rfl)) ?_ ?_)
        fun _ _ _ _ hy => hyields.tryCatch_error hy
      · rintro H'' u w'' f'' ⟨rfl, hpaused, hown'⟩
        refine Settling.mono (ih (left + 1) (by omega) (k + 1) (Nat.succ_pos k) hown') ?_
        rintro H r w f ⟨own, hown, rfl, hr⟩
        unfold Upshot.bind
        rw [← hpaused]
        exact ⟨own, hown, History.add_add _ _ _, hr⟩
      · rintro H'' e' w'' f'' ⟨rfl, hpaused, hown'⟩
        unfold Upshot.bind
        rw [← hpaused]
        exact ⟨_, hown', rfl, rfl⟩

/-- **Work that goes by a script comes to what the script and the policy say.** -/
theorem Follows.settles_working (h : Follows ρ holds node work fallback c) (hover : Overlooks holds node)
    (hown : holds (c.need 1 + f) w) :
    Settling.Settles ρ World.chronicle holds H w f (working policy node .null work fallback)
      (Yields holds H (c.worked policy)) := by
  refine Settling.bind (P := fun H' r w' f' => H' = H ∧ r = policy.tries.mapError .fault ∧ f' = f ∧ w' = w)
    (settles_silent ρ rfl rfl ⟨rfl, rfl, rfl, rfl⟩) ?_ ?_
  · rintro H' n w' f' ⟨rfl, hn, rfl, rfl⟩
    refine Settling.mono (h.settles_retrying hover n 1 Nat.one_pos hown) ?_
    rintro H'' r w'' f'' ⟨own, hown', rfl, hr⟩
    unfold Attempts.worked Upshot.bind
    rw [← hn]
    exact ⟨own, hown', rfl, hr⟩
  · rintro H' e w' f' ⟨rfl, hn, rfl, rfl⟩
    unfold Attempts.worked Upshot.bind
    rw [← hn]
    exact ⟨_, hown, (History.add_nil _).symm, rfl⟩

end

end NodeFlow
