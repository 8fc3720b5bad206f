import NodeFlow.Proofs.Run.Logic
import NodeFlow.Run.Stages
/-!
# The duties of a visit

A visit prepares something, works on it, perhaps several times, and finishes. Whatever its parts are held
to the whole visit is held to, and why does not depend on what that is. A duty says so once: it is a regime
with the failures that are allowed and with what the results of work have to be, and the few steps that a
visit makes on its own account are allowed by it.
-/

set_option autoImplicit false

universe u

namespace NodeFlow

/-- A result as it has to be, or an allowed failure. -/
def Ends {α : Type} (fails : Failure → Prop) (P : α → Prop) : Except Failure α → Prop
  | .ok a => P a
  | .error e => fails e

section

variable {τ : Type} {α β : Type} {m : Type → Type u} [Performs World m] [Reasoned World Datum m]
  {R : Regime World Datum τ} {fails : Failure → Prop} {P : α → Prop} {Q : β → Prop}

theorem Ends.mono {r : Except Failure α} {P' : α → Prop} (h : Ends fails P r) (himp : ∀ a, P a → P' a) :
    Ends fails P' r := by
  cases r with
  | ok a => exact himp a h
  | error e => exact h

theorem Reasoned.bind_ends {x : m α} {f : α → m β}
    (hx : Reasoned.Meets R none x fun r _ => Ends fails P r)
    (hf : ∀ a, P a → Reasoned.Meets R none (f a) fun r _ => Ends fails Q r) :
    Reasoned.Meets R none (x >>= f) fun r _ => Ends fails Q r :=
  Reasoned.bind (P := fun r k => k = none ∧ Ends fails P r) (Reasoned.frame hx none)
    (fun a _ h => h.1 ▸ hf a h.2) fun _ _ h => h.2

theorem Reasoned.tryCatch_ends {x : m α} {f : Failure → m α}
    (hx : Reasoned.Meets R none x fun r _ => Ends fails P r)
    (hf : ∀ e, fails e → Reasoned.Meets R none (f e) fun r _ => Ends fails P r) :
    Reasoned.Meets R none (MonadExcept.tryCatch x f) fun r _ => Ends fails P r :=
  Reasoned.tryCatch (P := fun r k => k = none ∧ Ends fails P r) (Reasoned.frame hx none)
    (fun _ _ h => h.2) fun e _ h => h.1 ▸ hf e h.2

end

/-- What the visits of nodes are held to. Waiting, remembering an attempt and collecting results are the
steps that no node is asked about. -/
structure Duty (τ : Type) where
  regime : Regime World Datum τ
  fails : Failure → Prop
  result : Datum → Prop
  part : ∀ r, regime.part r ↔ Ends fails result r
  fault : ∀ f, fails (.fault f)
  null : result .null
  wait : ∀ seconds, Act.Meets regime none (World.log (.wait seconds)) fun r _ => r = .ok ()
  remember : ∀ node f, Act.Meets regime none (World.remember node f) fun r _ => r = .ok ()
  collect : ∀ ds, (∀ d ∈ ds, result d) →
    Act.Meets regime none (World.alloc (.list ds)) fun r _ => ∃ d, r = .ok d ∧ result d

namespace Duty

variable {τ : Type} {α β : Type}

/-- Work that does its duty, whatever goes on beside it, and has a result as it has to be. -/
def Keeps (D : Duty τ) {m : Type → Type u} [Performs World m] [Reasoned World Datum m] (x : m α)
    (P : α → Prop) : Prop :=
  Reasoned.Meets D.regime none x fun r _ => Ends D.fails P r

variable {D : Duty τ} {P : α → Prop} {Q : β → Prop}

section

variable {m : Type → Type u} [Performs World m] [Reasoned World Datum m]

/-! ## 1. The rules -/

theorem Keeps.pure {a : α} (ha : P a) : D.Keeps (pure a : m α) P := Reasoned.pure ha

theorem Keeps.throw {e : Failure} (he : D.fails e) : D.Keeps (MonadExcept.throw e : m α) P :=
  Reasoned.throw he

theorem Keeps.bind {x : m α} {f : α → m β} (hx : D.Keeps x P) (hf : ∀ a, P a → D.Keeps (f a) Q) :
    D.Keeps (x >>= f) Q :=
  Reasoned.bind_ends hx hf

theorem Keeps.tryCatch {x : m α} {f : Failure → m α} (hx : D.Keeps x P)
    (hf : ∀ e, D.fails e → D.Keeps (f e) P) : D.Keeps (MonadExcept.tryCatch x f) P :=
  Reasoned.tryCatch_ends hx hf

theorem Keeps.perform {x : Act World α} (hx : D.Keeps x P) : D.Keeps (Performs.perform x : m α) P :=
  Reasoned.perform hx

/-- A step that cannot fail. -/
theorem keeps_of_meets {x : Act World α} (hx : Act.Meets D.regime none x fun r _ => ∃ a, r = .ok a ∧ P a) :
    D.Keeps x P := by
  have hends : Act.Meets D.regime none x fun r _ => Ends D.fails P r := by
    refine Act.Meets.mono hx ?_
    rintro r - ⟨a, rfl, ha⟩
    exact ha
  exact hends

/-- A step that changes nothing. -/
theorem keeps_of_still {x : Act World α} (hx : ∀ w, (x w).2 = w ∧ Ends D.fails P (x w).1) :
    D.Keeps x P := by
  intro w hw
  obtain ⟨hstill, hends⟩ := hx w
  rw [hstill]
  exact ⟨hw.refl, hends⟩

theorem keeps_fault {f : Fault} : D.Keeps (Act.fail (.fault f) : Act World α) P :=
  keeps_of_still fun _ => ⟨rfl, D.fault f⟩

theorem keeps_ofFault {x : Except Fault α} (hx : ∀ a, x = .ok a → P a) :
    D.Keeps (Act.ofFault x : Act World α) P := by
  refine keeps_of_still fun w => ⟨rfl, ?_⟩
  cases x with
  | ok a => exact hx a rfl
  | error f => exact D.fault f

theorem keeps_faultable (x : Except Fault α) : D.Keeps (Act.ofFault x : Act World α) fun _ => True :=
  keeps_ofFault fun _ _ => trivial

/-! ## 2. Work on elements, and retries -/

theorem keeps_eachOf {xs : List α} {work : α → m β} (hwork : ∀ x ∈ xs, D.Keeps (work x) Q) :
    D.Keeps (eachOf xs work) fun ys => ∀ y ∈ ys, Q y := by
  induction xs with
  | nil => exact .pure fun y hy => absurd hy List.not_mem_nil
  | cons x xs ih =>
    rw [List.forall_mem_cons] at hwork
    refine .bind hwork.1 fun y hy => .bind (ih hwork.2) ?_
    intro ys hys
    exact .pure (List.forall_mem_cons.2 ⟨hy, hys⟩)

theorem keeps_pause (policy : RetryPolicy) (attempt : Nat) :
    D.Keeps (policy.pause attempt) fun _ => True := by
  refine .bind (keeps_faultable _) ?_
  intro w _
  refine .bind (keeps_faultable _) ?_
  intro positive _
  split
  · split
    · refine .bind (keeps_faultable _) ?_
      intro x _
      exact keeps_of_meets ((D.wait x).mono fun _ _ hr => ⟨(), hr, trivial⟩)
    · exact .pure trivial
  · exact .pure trivial

/-- Work that is tried again does its duty if each try and the fallback do. -/
theorem keeps_retrying {policy : RetryPolicy} {idle : α} {work : Nat → m α} {fallback : Failure → m α}
    (hidle : P idle) (hwork : ∀ k, D.Keeps (work k) P)
    (hfallback : ∀ e, D.fails e → D.Keeps (fallback e) P) (left attempt : Nat) :
    D.Keeps (retrying policy idle work fallback left attempt) P := by
  induction left generalizing attempt with
  | zero => exact .pure hidle
  | succ left ih =>
    cases left with
    | zero => exact .tryCatch (hwork attempt) hfallback
    | succ left =>
      refine .tryCatch (hwork attempt) ?_
      intro e _
      exact .bind (Keeps.perform (keeps_pause policy attempt)) fun _ _ => ih (attempt + 1)

theorem keeps_working {policy : RetryPolicy} {node : Nat} {idle : α} {work : m α}
    {fallback : Failure → m α} (hidle : P idle) (hwork : D.Keeps work P)
    (hfallback : ∀ e, D.fails e → D.Keeps (fallback e) P) :
    D.Keeps (working policy node idle work fallback) P := by
  refine .bind (Keeps.perform (keeps_faultable _)) ?_
  intro n _
  refine keeps_retrying hidle (fun k => ?_) hfallback n 1
  have hremember : D.Keeps (World.remember node fun memory => { memory with attempt := k - 1 })
      fun _ => True := keeps_of_meets ((D.remember node _).mono fun _ _ hr => ⟨(), hr, trivial⟩)
  exact .bind (Keeps.perform hremember) fun _ _ => hwork

/-! ## 3. Stages -/

/-- Whatever is known when the work of a visit has ended is known when it finishes; before that the visit
does its duty. -/
theorem meets_course {γ : Type} {R : γ → Prop} {known : Option τ} {prep : m α} {work : α → m γ}
    {post : α → γ → m Datum} {E : Except Failure Datum → Option τ → Prop} (hprep : D.Keeps prep P)
    (hwork : ∀ a, P a → D.Keeps (work a) R)
    (hpost : ∀ a r, P a → R r → Reasoned.Meets D.regime known (post a r) E)
    (hfail : ∀ e, D.fails e → E (.error e) known) :
    Reasoned.Meets D.regime known (course prep work post) E := by
  refine Reasoned.bind (Reasoned.frame hprep known) ?_ fun e k h => h.1 ▸ hfail e h.2
  rintro a k ⟨rfl, ha⟩
  refine Reasoned.bind (Reasoned.frame (hwork a ha) k) ?_ fun e k h => h.1 ▸ hfail e h.2
  rintro r k ⟨rfl, hr⟩
  exact hpost a r ha hr

/-- Stages that do their duty until they finish: what is prepared is as it has to be, and what is worked on
too. -/
structure Prepares (D : Duty τ) (s : Stages m α β) (P : α → Prop) (Q : β → Prop) : Prop where
  prep : D.Keeps s.prep P
  exec : ∀ b, Q b → D.Keeps (s.exec b) D.result
  fallback : ∀ b e, Q b → D.fails e → D.Keeps (s.fallback b e) D.result

variable {policy : RetryPolicy} {node : Nat} {known : Option τ}
  {E : Except Failure Datum → Option τ → Prop}

theorem Prepares.work {s : Stages m α β} (h : D.Prepares s P Q) {b : β} (hb : Q b) :
    D.Keeps (s.work policy node b) D.result :=
  keeps_working D.null (h.exec b hb) fun e he => h.fallback b e hb he

theorem Prepares.once {s : Stages m α α} (h : D.Prepares s P P)
    (hpost : ∀ a r, P a → D.result r → Reasoned.Meets D.regime known (s.post a r) E)
    (hfail : ∀ e, D.fails e → E (.error e) known) :
    Reasoned.Meets D.regime known (s.once policy node) E :=
  meets_course h.prep (fun _ ha => h.work ha) hpost hfail

theorem Prepares.inOrder {s : Stages m α β} (h : D.Prepares s P Q) {elements : α → Act World (List β)}
    (helements : ∀ a, P a → D.Keeps (elements a) fun bs => ∀ b ∈ bs, Q b)
    (hpost : ∀ a r, P a → D.result r → Reasoned.Meets D.regime known (s.post a r) E)
    (hfail : ∀ e, D.fails e → E (.error e) known) :
    Reasoned.Meets D.regime known (s.inOrder policy node elements) E := by
  refine meets_course (R := D.result) h.prep (fun a ha => ?_) hpost hfail
  refine .bind (Keeps.perform (helements a ha)) ?_
  intro bs hbs
  refine .bind (keeps_eachOf fun b hb => h.work (hbs b hb)) ?_
  intro ds hds
  exact .perform (keeps_of_meets (D.collect ds hds))

end

/-- Computations that are started together do their duty if each of them does. -/
theorem keeps_together {parts : List (Coop World Datum Datum)}
    (hparts : ∀ p ∈ parts, D.Keeps p D.result) :
    D.Keeps (Coop.together parts) fun ds => ∀ d ∈ ds, D.result d := by
  refine Coop.meets_together (fun p hp => ?_) fun r hr => ?_
  · exact Coop.Meets.mono (hparts p hp) fun r _ h => (D.part r).2 h
  · cases r with
    | ok ds => exact fun d hd => (D.part (.ok d)).1 (hr d hd)
    | error e => exact (D.part (.error e)).1 hr

theorem Prepares.together {s : Stages (Coop World Datum) α β} (h : D.Prepares s P Q)
    {policy : RetryPolicy} {node : Nat} {known : Option τ} {E : Except Failure Datum → Option τ → Prop}
    {elements : α → Act World (List β)}
    (helements : ∀ a, P a → D.Keeps (elements a) fun bs => ∀ b ∈ bs, Q b)
    (hpost : ∀ a r, P a → D.result r → Coop.Meets D.regime known (s.post a r) E)
    (hfail : ∀ e, D.fails e → E (.error e) known) :
    Coop.Meets D.regime known (s.together policy node elements) E := by
  refine meets_course (D := D) (m := Coop World Datum) (R := D.result) h.prep (fun a ha => ?_) hpost hfail
  refine .bind (Keeps.perform (helements a ha)) ?_
  intro bs hbs
  refine .bind (keeps_together (List.forall_mem_map.2 fun b hb => h.work (hbs b hb))) ?_
  intro ds hds
  exact .perform (keeps_of_meets (D.collect ds hds))

end Duty

end NodeFlow
