import NodeFlow.Proofs.Memory.Growth
import NodeFlow.Proofs.Run.Bounds
import NodeFlow.Proofs.Run.Manners
import NodeFlow.Proofs.Run.Stages
import NodeFlow.Run.Flow
/-!
# Quiet work

Whatever happens in a run memory grows and stays closed. Quiet work leaves more than that as it is: no cell that
was there is changed, and no listener is shown a context. What it computes with is there in memory, and it is
so still whenever it goes on.

This is said for work on memory with at least so many cells. What a computation has found out about data that are
there holds on, since memory never gets smaller.
-/

set_option autoImplicit false

universe u

namespace NodeFlow

/-- The contexts that the listeners under a tag have been shown at the ends of visits, newest first. -/
def contextsShown (tag : String) (journal : List Event) : List Value :=
  journal.filterMap fun
    | .told t (.nodeEnd _ _ context) => if t = tag then some context else none
    | _ => none

/-- What those who share the state of a run may do to it: memory stays closed and grows, and listeners are shown
contexts. What is quiet changes no older cell and shows no context. -/
def Manners.growing (tag : String) : Manners World Datum where
  step w w' := w.heap.Closed → w'.heap.Closed ∧ w.heap.cells.size ≤ w'.heap.cells.size ∧
    contextsShown tag w.journal <:+ contextsShown tag w'.journal
  quiet w w' := w.heap.Closed → w'.heap.Closed ∧ w'.heap.Extends w.heap ∧
    contextsShown tag w'.journal = contextsShown tag w.journal
  part r w := w.heap.Closed ∧ ∀ d, r = .ok d → d.Free (.beyond w.heap.cells.size)
  step_trans h h' hw := by
    obtain ⟨hclosed, hsize, hshown⟩ := h hw
    obtain ⟨hclosed', hsize', hshown'⟩ := h' hclosed
    exact ⟨hclosed', Nat.le_trans hsize hsize', hshown.trans hshown'⟩
  quiet_refl _ hw := ⟨hw, .refl _, rfl⟩
  quiet_trans h h' hw := by
    obtain ⟨hclosed, hext, hshown⟩ := h hw
    obtain ⟨hclosed', hext', hshown'⟩ := h' hclosed
    exact ⟨hclosed', hext.trans hext', hshown'.trans hshown⟩
  step_of_quiet h hw := by
    obtain ⟨hclosed, hext, hshown⟩ := h hw
    exact ⟨hclosed, hext.size, hshown ▸ List.suffix_rfl⟩
  part_of_step h hstep := by
    obtain ⟨hclosed, hsize, -⟩ := hstep h.1
    exact ⟨hclosed, fun d hd => (h.2 d hd).later hsize⟩

namespace Growth

variable {tag : String} {n : Nat} {α β : Type}

open Manners

/-! ## 1. The rules -/

/-- Quiet work on memory with at least so many cells. -/
def Quietly (tag : String) (n : Nat) {m : Type → Type u} [Performs World m] [Mannerly World Datum m] (x : m α)
    (P : α → Nat → Prop) : Prop :=
  ∀ (role : Role) (w : World), n ≤ w.heap.cells.size → w.heap.Closed →
    Mannerly.Minds (growing tag) role w x fun r w' =>
      (growing tag).Bears role w w' ∧ ∀ a, r = .ok a → P a w'.heap.cells.size

theorem stays_of_bears {role : Role} {w w' : World} (h : (growing tag).Bears role w w') (hw : w.heap.Closed) :
    w'.heap.Closed ∧ w.heap.cells.size ≤ w'.heap.cells.size := by
  obtain ⟨hclosed, hsize, -⟩ := step_of_bears h hw
  exact ⟨hclosed, hsize⟩

section

variable {m : Type → Type u} [Performs World m] [Mannerly World Datum m] {P : α → Nat → Prop} {Q : β → Nat → Prop}

theorem Quietly.later {x : m α} {n' : Nat} (hx : Quietly tag n x P) (h : n ≤ n') : Quietly tag n' x P :=
  fun role w hn hw => hx role w (Nat.le_trans h hn) hw

theorem Quietly.pure {a : α} (ha : ∀ k, n ≤ k → P a k) : Quietly tag n (pure a : m α) P :=
  fun _ _ hn _ => Mannerly.pure ⟨bears_refl _ _ _, fun _ h => Except.ok.inj h ▸ ha _ hn⟩

theorem Quietly.throw (e : Failure) : Quietly tag n (MonadExcept.throw e : m α) P :=
  fun _ _ _ _ => Mannerly.throw ⟨bears_refl _ _ _, nofun⟩

theorem Quietly.bind {x : m α} {f : α → m β} (hx : Quietly tag n x P)
    (hf : ∀ a k, n ≤ k → P a k → Quietly tag k (f a) Q) : Quietly tag n (x >>= f) Q := by
  intro role w hn hw
  refine Mannerly.bind (hx role w hn hw) ?_ fun e w' h => ⟨h.1, nofun⟩
  rintro a w' ⟨hbears, ha⟩
  obtain ⟨hclosed, hsize⟩ := stays_of_bears hbears hw
  refine Mannerly.mono (hf a _ (Nat.le_trans hn hsize) (ha a rfl) role w' (Nat.le_refl _) hclosed) ?_
  exact fun r w'' h => ⟨hbears.trans h.1, h.2⟩

theorem Quietly.tryCatch {x : m α} {f : Failure → m α} (hx : Quietly tag n x P)
    (hf : ∀ e, Quietly tag n (f e) P) : Quietly tag n (MonadExcept.tryCatch x f) P := by
  intro role w hn hw
  refine Mannerly.tryCatch (hx role w hn hw) (fun a w' h => h) ?_
  rintro e w' ⟨hbears, -⟩
  obtain ⟨hclosed, hsize⟩ := stays_of_bears hbears hw
  refine Mannerly.mono (hf e role w' (Nat.le_trans hn hsize) hclosed) ?_
  exact fun r w'' h => ⟨hbears.trans h.1, h.2⟩

/-- A quiet action. -/
theorem Quietly.of_forall {x : Act World α}
    (hx : ∀ w : World, n ≤ w.heap.cells.size → w.heap.Closed → (growing tag).quiet w (x w).2 ∧
      ∀ a, (x w).1 = .ok a → P a (x w).2.heap.cells.size) : Quietly tag n x P := by
  intro role w hn hw
  obtain ⟨hquiet, ha⟩ := hx w hn hw
  exact ⟨may_of_quiet hquiet, bears_of_quiet hquiet, ha⟩

theorem Quietly.perform {x : Act World α} (hx : Quietly tag n x P) :
    Quietly tag n (Performs.perform x : m α) P :=
  fun role w hn hw => Mannerly.perform (hx role w hn hw)

end

/-! ## 2. Actions -/

section

variable {P : α → Nat → Prop}

/-- An action that changes nothing. -/
theorem quietly_still {x : Act World α} (hx : ∀ w : World, n ≤ w.heap.cells.size → w.heap.Closed → (x w).2 = w ∧
    ∀ a, (x w).1 = .ok a → P a w.heap.cells.size) : Quietly tag n x P :=
  .of_forall fun w hn hw => by
    obtain ⟨hstill, ha⟩ := hx w hn hw
    rw [hstill]
    exact ⟨quiet_refl _ w, ha⟩

theorem quietly_reads {f : World → α}
    (hf : ∀ w : World, n ≤ w.heap.cells.size → w.heap.Closed → P (f w) w.heap.cells.size) :
    Quietly tag n (Act.reads f) P :=
  quietly_still fun w hn hw => ⟨rfl, fun _ h => Except.ok.inj h ▸ hf w hn hw⟩

theorem quietly_fail (e : Failure) : Quietly tag n (Act.fail e : Act World α) P :=
  quietly_still fun _ _ _ => ⟨rfl, nofun⟩

theorem quietly_ofExcept {x : Except Failure α} (hx : ∀ a, x = .ok a → ∀ k, n ≤ k → P a k) :
    Quietly tag n (Act.ofExcept x : Act World α) P :=
  quietly_still fun _ hn _ => ⟨rfl, fun a ha => hx a ha _ hn⟩

theorem quietly_ofFault {x : Except Fault α} (hx : ∀ a, x = .ok a → ∀ k, n ≤ k → P a k) :
    Quietly tag n (Act.ofFault x : Act World α) P := by
  refine quietly_still fun _ hn _ => ⟨rfl, fun a ha => ?_⟩
  cases x with
  | ok b => exact Except.ok.inj ha ▸ hx b rfl _ hn
  | error f => cases ha

theorem quietly_faultable (x : Except Fault α) : Quietly tag n (Act.ofFault x : Act World α) fun _ _ => True :=
  quietly_ofFault fun _ _ _ _ => trivial

theorem contextsShown_append {events journal : List Event}
    (h : ∀ e ∈ events, ∀ t node label context, e ≠ .told t (.nodeEnd node label context)) :
    contextsShown tag (events ++ journal) = contextsShown tag journal := by
  rw [contextsShown, List.filterMap_append, List.filterMap_eq_nil_iff.2, List.nil_append, contextsShown]
  intro e he
  cases e with
  | told t call =>
    cases call with
    | nodeEnd node label context => exact absurd rfl (h _ he t node label context)
    | _ => rfl
  | _ => rfl

theorem contextsShown_map {γ : Type} {f : γ → Event} {xs : List γ} {journal : List Event}
    (h : ∀ x t call, f x ≠ .told t call) :
    contextsShown tag ((xs.map f).reverse ++ journal) = contextsShown tag journal :=
  contextsShown_append fun e he t node label context => by
    obtain ⟨x, -, rfl⟩ := List.mem_map.1 (List.mem_reverse.1 he)
    exact h x t _

theorem quietly_log {e : Event} (he : ∀ t call, e ≠ .told t call) :
    Quietly tag n (World.log e) fun _ _ => True :=
  .of_forall fun _ _ _ => ⟨fun hw => ⟨hw, .refl _,
    contextsShown_append (List.forall_mem_singleton.2 fun t _ _ _ => he t _)⟩, fun _ _ => trivial⟩

theorem quietly_note (d : Diagnostic) : Quietly tag n (World.note d) fun _ _ => True :=
  .of_forall fun _ _ _ => ⟨fun hw => ⟨hw, .refl _, contextsShown_map nofun⟩, fun _ _ => trivial⟩

theorem quietly_noteAll (ds : List Diagnostic) : Quietly tag n (World.noteAll ds) fun _ _ => True := by
  induction ds with
  | nil => exact .pure fun _ _ => trivial
  | cons d ds ih => exact .bind (quietly_note d) fun _ _ hk _ => ih.later hk

theorem quietly_settle {x : Noted α} (hx : ∀ a, x.result = .ok a → ∀ k, n ≤ k → P a k) :
    Quietly tag n (World.settle x) P :=
  .bind (quietly_noteAll x.notes) fun _ _ hk _ =>
    quietly_ofFault fun a ha k hk' => hx a ha k (Nat.le_trans hk hk')

theorem quietly_view {d : Datum} (hd : d.Free (.beyond n)) :
    Quietly tag n (World.view d) fun v k => v.Free (.beyond k) :=
  quietly_reads fun _ hn hw => hw.apart.view (hd.later hn)

theorem quietly_keep {v : Value} (hv : v.Free (.beyond n)) :
    Quietly tag n (World.keep v) fun d k => d.Free (.beyond k) := by
  refine .of_forall fun w hn hw => ?_
  obtain ⟨hclosed, hfree⟩ := Heap.keepsClosed v w.heap hw (hv.later hn)
  exact ⟨fun _ => ⟨hclosed, Heap.extends_keep w.heap v, rfl⟩, fun _ h => Except.ok.inj h ▸ hfree⟩

theorem quietly_alloc {c : Cell} (hc : c.Free (.beyond n)) :
    Quietly tag n (World.alloc c) fun d k => d.Free (.beyond k) :=
  .of_forall fun w hn hw => ⟨fun _ => ⟨hw.alloc (hc.later hn), Heap.extends_alloc w.heap c, rfl⟩,
    fun _ h => Except.ok.inj h ▸ Heap.free_alloc w.heap c⟩

theorem quietly_remember (node : Nat) (f : NodeMemory → NodeMemory) :
    Quietly tag n (World.remember node f) fun _ _ => True :=
  .of_forall fun _ _ _ => ⟨fun hw => ⟨hw, .refl _, rfl⟩, fun _ _ => trivial⟩

theorem quietly_countCall (line : Line) : Quietly tag n (World.countCall line) fun _ _ => True :=
  .of_forall fun _ _ _ => ⟨fun hw => ⟨hw, .refl _, rfl⟩, fun _ _ => trivial⟩

theorem quietly_pause (policy : RetryPolicy) (attempt : Nat) :
    Quietly tag n (policy.pause attempt) fun _ _ => True := by
  refine .bind (quietly_faultable _) fun w _ _ _ => .bind (quietly_faultable _) fun positive _ _ _ => ?_
  split
  · split
    · exact .bind (quietly_faultable _) fun _ _ _ _ => quietly_log (by simp)
    · exact .pure fun _ _ => trivial
  · exact .pure fun _ _ => trivial

end

/-! ## 3. Work on elements, and retries -/

section

variable {m : Type → Type u} [Performs World m] [Mannerly World Datum m] {P : α → Nat → Prop} {Q : β → Nat → Prop}

theorem quietly_eachOf (hQ : ∀ b k k', k ≤ k' → Q b k → Q b k') {xs : List α} {work : α → m β}
    (hwork : ∀ x ∈ xs, Quietly tag n (work x) Q) :
    Quietly tag n (eachOf xs work) fun ys k => ∀ y ∈ ys, Q y k := by
  induction xs generalizing n with
  | nil => exact .pure fun _ _ y hy => absurd hy List.not_mem_nil
  | cons x xs ih =>
    rw [List.forall_mem_cons] at hwork
    refine .bind hwork.1 fun y k hk hy => .bind (ih fun x hx => (hwork.2 x hx).later hk) fun ys k' _ hys => ?_
    refine Quietly.pure fun k'' hk'' => List.forall_mem_cons.2 ⟨hQ y k k'' (by omega) hy, fun z hz => ?_⟩
    exact hQ z k' k'' hk'' (hys z hz)

theorem quietly_retrying {policy : RetryPolicy} {idle : α} {work : Nat → m α} {fallback : Failure → m α}
    (hidle : ∀ k, n ≤ k → P idle k) (hwork : ∀ i, Quietly tag n (work i) P)
    (hfallback : ∀ e, Quietly tag n (fallback e) P) (left attempt : Nat) :
    Quietly tag n (retrying policy idle work fallback left attempt) P := by
  induction left generalizing attempt with
  | zero => exact .pure hidle
  | succ left ih =>
    cases left with
    | zero => exact .tryCatch (hwork attempt) hfallback
    | succ left =>
      refine .tryCatch (hwork attempt) fun e => .bind (.perform (quietly_pause policy attempt)) fun _ _ hk _ => ?_
      exact (ih (attempt + 1)).later hk

theorem quietly_working {policy : RetryPolicy} {node : Nat} {idle : α} {work : m α} {fallback : Failure → m α}
    (hidle : ∀ k, n ≤ k → P idle k) (hwork : Quietly tag n work P)
    (hfallback : ∀ e, Quietly tag n (fallback e) P) :
    Quietly tag n (working policy node idle work fallback) P := by
  refine .bind (.perform (quietly_faultable _)) fun tries k hk _ => ?_
  refine (quietly_retrying hidle (fun i => ?_) hfallback tries 1).later hk
  exact .bind (.perform (quietly_remember node _)) fun _ k hk _ => hwork.later hk

end

/-! ## 4. Objects -/

theorem free_names {γ : Type} {S : Seal} {f : γ → String} (xs : List γ) :
    ∀ d ∈ xs.map fun x => Datum.str (f x), d.Free S :=
  List.forall_mem_map.2 fun _ _ => Datum.free_str _

theorem quietly_elements {d : Datum} (hd : d.Free (.beyond n)) :
    Quietly tag n (Elements.of d) fun e k => e.Free (.beyond k) := by
  refine .bind (quietly_view hd) fun v k hk _ => ?_
  split
  · exact .pure fun _ _ x hx => absurd hx List.not_mem_nil
  · split
    · exact .pure fun l hl => Datum.free_ref.1 (hd.later (Nat.le_trans hk hl))
    · exact .pure fun _ _ => free_names _
    · exact .pure fun _ _ => free_names _
    · exact .pure fun _ _ => free_names _
    · exact quietly_fail _

theorem quietly_all {e : Elements} (he : e.Free (.beyond n)) :
    Quietly tag n e.all fun ds k => ∀ d ∈ ds, d.Free (.beyond k) := by
  cases e with
  | live a => exact quietly_reads fun _ hn hw => hw.apart.itemsAt (Seal.beyond_mono hn he)
  | fixed ds => exact .pure fun _ hk d hd => (he d hd).later hk

/-- A list of a key and a part is a pair. -/
theorem quietly_pair (ds : List Datum) : (∀ d ∈ ds, d.Free (.beyond n)) → Quietly tag n
    (match ds with
      | [.str key, part] => pure (key, part)
      | [_, _] => Act.fail (.fault .type)
      | _ => Act.fail (.fault .value) : Act World (String × Datum))
    fun p k => p.2.Free (.beyond k) := by
  intro hds
  split
  · exact .pure fun _ hk => (hds _ (List.mem_cons_of_mem _ List.mem_cons_self)).later hk
  · exact quietly_fail _
  · exact quietly_fail _

theorem quietly_pairOf {d : Datum} (hd : d.Free (.beyond n)) :
    Quietly tag n (pairOf d) fun p k => p.2.Free (.beyond k) := by
  refine .bind (quietly_view hd) fun v k hk _ => ?_
  dsimp only
  split
  · exact .bind (quietly_reads fun _ hn hw => hw.apart.itemsAt (Datum.free_ref.1 (hd.later (Nat.le_trans hk hn))))
      fun ds _ _ hds => quietly_pair ds hds
  · exact quietly_pair _ (free_names _)
  · exact quietly_pair _ (free_names _)
  · exact quietly_pair _ (free_names _)
  · exact .bind (P := fun _ _ => False) (quietly_fail _) fun _ _ _ h => h.elim

theorem quietly_pairsOf {ds : List Datum} (hds : ∀ d ∈ ds, d.Free (.beyond n)) :
    Quietly tag n (pairsOf ds) fun ps k => ∀ p ∈ ps, p.2.Free (.beyond k) := by
  induction ds generalizing n with
  | nil => exact .pure fun _ _ p hp => absurd hp List.not_mem_nil
  | cons d ds ih =>
    rw [List.forall_mem_cons] at hds
    refine .bind (quietly_pairOf hds.1) fun p k hk hp => ?_
    refine .bind (ih fun d hd => (hds.2 d hd).later hk) fun ps k' hk' hps => ?_
    exact .pure fun l hl => List.forall_mem_cons.2 ⟨hp.later (Nat.le_trans hk' hl), fun q hq => (hps q hq).later hl⟩

/-- An object that is made of something that is there has members that are there. -/
theorem quietly_membersOf {d : Datum} (hd : d.Free (.beyond n)) :
    Quietly tag n (membersOf d) fun ms k => ∀ m ∈ ms, m.2.Free (.beyond k) := by
  refine .bind (quietly_view hd) fun v k hk hv => ?_
  split
  · exact quietly_reads fun _ hn hw =>
      hw.apart.membersAt ((Value.free_dict.1 (Value.Free.later hv hn)).1 _ rfl)
  · exact quietly_reads fun _ hn hw => hw.apart.membersAt (Value.free_store.1 (Value.Free.later hv hn)).1
  · refine .bind (quietly_elements (hd.later hk)) fun e _ _ he => .bind (quietly_all he) fun ds _ _ hds => ?_
    refine .bind (quietly_pairsOf hds) fun ps _ _ hps => .pure fun l hl => ?_
    exact Members.forall_putAll (fun m hm => absurd hm List.not_mem_nil) fun p hp => (hps p hp).later hl

/-- Computations that are started together are quiet if each of them is. -/
theorem quietly_together {parts : List (Coop World Datum Datum)}
    (hparts : ∀ p ∈ parts, Quietly tag n p fun d k => d.Free (.beyond k)) :
    Quietly tag n (Coop.together parts) fun ds k => ∀ d ∈ ds, d.Free (.beyond k) := by
  intro role w hn hw
  refine Coop.Minds.gather (fun p hp w' hstep => ?_) fun w' r hbears hr => .done ⟨hbears, fun ds hds d hd => ?_⟩
  · obtain ⟨hclosed, hsize, -⟩ := hstep hw
    refine Coop.Minds.mono (hparts p hp .part w' (Nat.le_trans hn hsize) hclosed) fun r w'' h => ?_
    exact ⟨(stays_of_bears h.1 hclosed).1, fun d hd => h.2 d hd⟩
  · subst hds
    exact (hr d hd).2 d rfl

/-! ## 5. Changes -/

/-- An action on memory with at least so many cells that may change any of them. No context is shown. -/
def Grows (tag : String) (n : Nat) (x : Act World α) (P : α → Nat → Prop) : Prop :=
  ∀ w : World, n ≤ w.heap.cells.size → w.heap.Closed →
    (x w).2.heap.Closed ∧ w.heap.cells.size ≤ (x w).2.heap.cells.size ∧
    contextsShown tag (x w).2.journal = contextsShown tag w.journal ∧
    ∀ a, (x w).1 = .ok a → P a (x w).2.heap.cells.size

section

variable {P : α → Nat → Prop} {Q : β → Nat → Prop}

theorem Quietly.grows {x : Act World α} (hx : Quietly tag n x P) : Grows tag n x P := by
  intro w hn hw
  obtain ⟨-, hquiet, ha⟩ := hx .root w hn hw
  obtain ⟨hclosed, hext, hshown⟩ := hquiet hw
  exact ⟨hclosed, hext.size, hshown, ha⟩

theorem Grows.bind {x : Act World α} {f : α → Act World β} (hx : Grows tag n x P)
    (hf : ∀ a k, n ≤ k → P a k → Grows tag k (f a) Q) : Grows tag n (x >>= f) Q := by
  intro w hn hw
  obtain ⟨hclosed, hsize, hshown, ha⟩ := hx w hn hw
  rcases hxw : x w with ⟨r, w'⟩
  rw [hxw] at hclosed hsize hshown ha
  cases r with
  | error e =>
    rw [Act.bind_error hxw]
    exact ⟨hclosed, hsize, hshown, nofun⟩
  | ok a =>
    obtain ⟨hclosed', hsize', hshown', hb⟩ := hf a _ (Nat.le_trans hn hsize) (ha a rfl) w' (Nat.le_refl _) hclosed
    rw [Act.bind_ok hxw]
    exact ⟨hclosed', Nat.le_trans hsize hsize', hshown'.trans hshown, hb⟩

theorem grows_onShared {x : Act Ledger Unit}
    (hx : ∀ l : Ledger, n ≤ l.heap.cells.size → l.heap.Closed →
      (x l).2.heap.Closed ∧ l.heap.cells.size ≤ (x l).2.heap.cells.size) :
    Grows tag n (World.onShared x) fun _ _ => True := by
  intro w hn hw
  obtain ⟨hclosed, hsize⟩ := hx ⟨w.heap, []⟩ hn hw
  exact ⟨hclosed, hsize, contextsShown_map nofun, fun _ _ => trivial⟩

end

end Growth

end NodeFlow
