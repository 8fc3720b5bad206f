import NodeFlow.Proofs.Memory.Seal
import NodeFlow.Proofs.Run.Duty
import NodeFlow.Run.World
/-!
# Terms

What the work of nodes is held to, whatever the property of runs at hand: sealed memory stays as it is,
nothing is told to the listeners, and a failure is one of those that are allowed. A property of runs
comes as terms, which say what is sealed, what may have been told, what of it counts as the mark, and
which failures are allowed.

Nodes work among others that work at the same time, so nothing is known of the mark while they do.
-/

set_option autoImplicit false

universe u

namespace NodeFlow

/-- What listeners have been told, newest first. -/
def heard (journal : List Event) : List HookCall :=
  journal.filterMap fun
    | .told _ call => some call
    | _ => none

/-- The terms of runs. The failure of a cooperative node that was to run without giving way is the only
one that they can rule out. -/
structure Terms (τ : Type) where
  sealed : Seal
  told : List HookCall → Prop
  mark : List HookCall → τ
  fails : Failure → Prop
  fails_of_ne : ∀ e, e ≠ .onlyCooperative → fails e

namespace Terms

variable {τ : Type} {α β : Type}

/-- A result as it has to be, or an allowed failure. -/
def Ends (T : Terms τ) (P : α → Prop) : Except Failure α → Prop := NodeFlow.Ends T.fails P

/-- What the terms say about the state of a run. -/
def regime (T : Terms τ) : Regime World Datum τ where
  inv w := w.heap.Obeys T.sealed ∧ T.told (heard w.journal)
  mark w := T.mark (heard w.journal)
  part := T.Ends (Datum.Free T.sealed)

/-- Work that keeps the terms, whatever goes on beside it, and has a result as it has to be. -/
def Keeps (T : Terms τ) {m : Type → Type u} [Performs World m] [Reasoned World Datum m]
    (x : m α) (P : α → Prop) : Prop :=
  Reasoned.Meets T.regime none x fun r _ => T.Ends P r

variable {T : Terms τ} {P : α → Prop} {Q : β → Prop}

/-! ## 1. The rules -/

section

variable {m : Type → Type u} [Performs World m] [Reasoned World Datum m]

theorem Keeps.mono {x : m α} {P' : α → Prop} (hx : T.Keeps x P) (himp : ∀ a, P a → P' a) :
    T.Keeps x P' :=
  Reasoned.mono hx fun _ _ hr => Ends.mono hr himp

theorem Keeps.pure {a : α} (ha : P a) : T.Keeps (pure a : m α) P := Reasoned.pure ha

theorem Keeps.bind {x : m α} {f : α → m β} (hx : T.Keeps x P) (hf : ∀ a, P a → T.Keeps (f a) Q) :
    T.Keeps (x >>= f) Q :=
  Reasoned.bind_ends hx hf

theorem Keeps.perform {x : Act World α} (hx : T.Keeps x P) :
    T.Keeps (Performs.perform x : m α) P :=
  Reasoned.perform hx

end

/-! ## 2. Actions -/

/-- An action of which nothing is told keeps the terms if it does so in memory. -/
theorem Keeps.of_forall {x : Act World α}
    (hx : ∀ w : World, w.heap.Obeys T.sealed → (x w).2.heap.Obeys T.sealed ∧
      heard (x w).2.journal = heard w.journal ∧ T.Ends P (x w).1) : T.Keeps x P := by
  intro w hw
  obtain ⟨hheap, hheard, hend⟩ := hx w hw.inv.1
  refine ⟨⟨⟨hheap, ?_⟩, fun _ => ?_⟩, hend⟩
  · rw [hheard]
    exact hw.inv.2
  · exact congrArg T.mark hheard

theorem keeps_fail {e : Failure} (he : e ≠ .onlyCooperative) :
    T.Keeps (Act.fail e : Act World α) P :=
  .of_forall fun _ hw => ⟨hw, rfl, T.fails_of_ne e he⟩

theorem keeps_fault {f : Fault} : T.Keeps (Act.fail (.fault f) : Act World α) P :=
  keeps_fail nofun

theorem keeps_reads {f : World → α} (hf : ∀ w : World, w.heap.Obeys T.sealed → P (f w)) :
    T.Keeps (Act.reads f) P :=
  .of_forall fun w hw => ⟨hw, rfl, hf w hw⟩

theorem keeps_ofExcept {x : Except Failure α} (hx : T.Ends P x) :
    T.Keeps (Act.ofExcept x : Act World α) P :=
  .of_forall fun _ hw => ⟨hw, rfl, hx⟩

theorem keeps_ofFault {x : Except Fault α} (hx : ∀ a, x = .ok a → P a) :
    T.Keeps (Act.ofFault x : Act World α) P := by
  refine .of_forall fun _ hw => ⟨hw, rfl, ?_⟩
  cases x with
  | ok a => exact hx a rfl
  | error f => exact T.fails_of_ne _ nofun

theorem keeps_faultable (x : Except Fault α) :
    T.Keeps (Act.ofFault x : Act World α) fun _ => True :=
  keeps_ofFault fun _ _ => trivial

theorem keeps_ofOperands {x : Except OperandFault α} (hx : ∀ a, x = .ok a → P a) :
    T.Keeps (Act.ofOperands x : Act World α) P := by
  refine .of_forall fun _ hw => ⟨hw, rfl, ?_⟩
  cases x with
  | ok a => exact hx a rfl
  | error f => exact T.fails_of_ne _ nofun

theorem heard_append {events journal : List Event} (h : ∀ e ∈ events, ∀ tag call, e ≠ .told tag call) :
    heard (events ++ journal) = heard journal := by
  induction events with
  | nil => rfl
  | cons e events ih =>
    rw [List.forall_mem_cons] at h
    cases e with
    | told tag call => exact absurd rfl (h.1 tag call)
    | _ => exact ih h.2

theorem keeps_log {e : Event} (he : ∀ tag call, e ≠ .told tag call) :
    T.Keeps (World.log e) fun _ => True :=
  .of_forall fun _ hw => ⟨hw, heard_append (List.forall_mem_singleton.2 he), trivial⟩

theorem heard_map {γ : Type} {f : γ → Event} {xs : List γ} {journal : List Event}
    (h : ∀ x tag call, f x ≠ .told tag call) :
    heard ((xs.map f).reverse ++ journal) = heard journal :=
  heard_append fun e he tag call => by
    obtain ⟨x, -, rfl⟩ := List.mem_map.1 (List.mem_reverse.1 he)
    exact h x tag call

theorem keeps_note (d : Diagnostic) : T.Keeps (World.note d) fun _ => True :=
  .of_forall fun _ hw => ⟨hw, heard_map nofun, trivial⟩

theorem keeps_noteAll (ds : List Diagnostic) : T.Keeps (World.noteAll ds) fun _ => True := by
  induction ds with
  | nil => exact .pure trivial
  | cons d ds ih => exact .bind (keeps_note d) fun _ _ => ih

theorem keeps_settle {x : Noted α} (hx : ∀ a, x.result = .ok a → P a) :
    T.Keeps (World.settle x) P :=
  .bind (keeps_noteAll x.notes) fun _ _ => keeps_ofFault hx

theorem keeps_view {d : Datum} (hd : d.Free T.sealed) :
    T.Keeps (World.view d) (Value.Free T.sealed) :=
  keeps_reads fun _ hw => hw.view hd

theorem keeps_keep {v : Value} (hv : v.Free T.sealed) :
    T.Keeps (World.keep v) (Datum.Free T.sealed) :=
  .of_forall fun _ hw => ⟨(hw.keep hv).2, rfl, (hw.keep hv).1⟩

theorem keeps_alloc {c : Cell} (hc : c.Free T.sealed) :
    T.Keeps (World.alloc c) (Datum.Free T.sealed) :=
  .of_forall fun _ hw => ⟨hw.alloc hc, rfl, Datum.free_ref.2 hw.fresh⟩

theorem keeps_onShared {x : Act Ledger Unit}
    (hx : ∀ l : Ledger, l.heap.Obeys T.sealed → Shared.Obeys T.sealed (x l)) :
    T.Keeps (World.onShared x) fun _ => True := by
  refine .of_forall ?_
  intro w hw
  have hr := hx ⟨w.heap, []⟩ hw
  refine ⟨hr.heap, heard_map nofun, ?_⟩
  rw [World.onShared]
  cases hend : (x ⟨w.heap, []⟩).1 with
  | ok a => trivial
  | error e => exact T.fails_of_ne e (hr.failure e hend)

theorem keeps_remember (node : Nat) (f : NodeMemory → NodeMemory) :
    T.Keeps (World.remember node f) fun _ => True :=
  .of_forall fun _ hw => ⟨hw, rfl, trivial⟩

theorem keeps_countCall (line : Line) : T.Keeps (World.countCall line) fun _ => True :=
  .of_forall fun _ hw => ⟨hw, rfl, trivial⟩

end Terms

end NodeFlow
