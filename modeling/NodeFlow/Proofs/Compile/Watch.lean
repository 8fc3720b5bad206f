import NodeFlow.Proofs.Description.Marks
import NodeFlow.Proofs.Memory.Counts
import NodeFlow.Proofs.Run.Duty
import NodeFlow.Proofs.Run.Listening
/-!
# Watching the guards

The two moments at which a guard acts, computed exactly in a context with counts: before a visit it looks
its count up, and lets the node run or tells why not; after the work of a visit it adds one.

What can be seen of loop guards from outside is what a listener of the flow is told and the diagnostics of
guards that reach a subscriber. A watch looks at this and at the counts of one shared context, and says what
of both together may ever be the case. It knows its listeners by a tag, since others may listen too.

Almost everything that nodes do is calm: nothing of it can be seen, and it leaves the counts alone. This
holds whatever is prepared, called and saved, as long as nothing is saved over the counts or below them.
-/

set_option autoImplicit false

universe u

namespace NodeFlow

/-! ## 1. What a guard does -/

/-- What is seen when a guard keeps its node from running: every subscriber is handed one diagnostic. -/
def Declared.warnings (d : Declared) (g : Guard) (subscribers : List Listener) : List Event :=
  (subscribers.map fun l => Event.delivered ⟨l.tag, d.guardNote g⟩).reverse

theorem Declared.mem_warnings {d : Declared} {g : Guard} {subscribers : List Listener} {e : Event}
    (h : e ∈ d.warnings g subscribers) : ∃ l ∈ subscribers, e = .delivered ⟨l.tag, d.guardNote g⟩ := by
  obtain ⟨l, hl, rfl⟩ := List.mem_map.1 (List.mem_reverse.1 h)
  exact ⟨l, hl, rfl⟩

/-- The world after that: the channel has taken the diagnostic in, and nothing else has changed. -/
def World.warned (d : Declared) (g : Guard) (w : World) : World :=
  { w with
    channel := (w.channel.emit (d.guardNote g)).1
    journal := d.warnings g w.channel.subscribers ++ w.journal }

namespace Declared

variable {d : Declared} {scene : Scene} {w : World}

theorem held_visits (hw : scene.shared.Tallied w.heap) :
    (scene.shared.get? w.heap visitsKey = none ∧
        held scene visitsKey w = (.ok .null, w) ∧ scene.shared.counts w.heap = []) ∨
      ∃ a ms, held scene visitsKey w = (.ok (.ref a), w) ∧ w.heap.cell? a = some (.dict ms) ∧
        scene.shared.counts w.heap = ms := by
  rcases hw.counts with hnone | ⟨a, ms, hget, hcell, -⟩
  · refine Or.inl ⟨hnone, ?_, ?_⟩
    · rw [held, Act.reads, hnone]
      rfl
    · rw [Shared.counts, hnone]
  · refine Or.inr ⟨a, ms, ?_, hcell, ?_⟩
    · rw [held, Act.reads, hget]
      rfl
    · rw [Shared.counts, hget]
      dsimp only
      rw [Heap.membersAt, hcell]

/-- What a guard looks up is the count of its node. -/
theorem visits_eq (hw : scene.shared.Tallied w.heap) :
    d.visits scene w = (.ok (.int (scene.shared.visitsOf w.heap d.id)), w) := by
  obtain ⟨k, hk, hvisits⟩ := hw.get?_counts d.id
  rw [hvisits]
  rcases held_visits hw with ⟨-, hheld, hcounts⟩ | ⟨a, ms, hheld, hcell, hcounts⟩
  · rw [hcounts] at hk
    rw [← Datum.int.inj hk]
    simp only [visits, bind, Act.bind, hheld, World.view, Act.reads, Heap.view, Heap.viewWithin]
    rfl
  · rw [hcounts] at hk
    simp only [visits, bind, Act.bind, hheld, World.view, Act.reads, Heap.view_dict hcell]
    -- the view of a count is the number itself
    have hview : (Members.get? (ms.map fun m => (m.1, w.heap.viewWithin w.heap.cells.size [a] m.2))
        d.id).getD (.int 0) = .int k := by
      have hmap := Members.get?_map (w.heap.viewWithin w.heap.cells.size [a]) ms d.id
      rw [hmap]
      cases hget : Members.get? ms d.id with
      | none =>
        rw [hget] at hk
        rw [← Datum.int.inj hk]
        rfl
      | some x =>
        rw [hget] at hk
        obtain rfl : x = .int k := hk
        exact Heap.viewWithin_int _ _ _ _
    rw [hview]
    rfl

variable {g : Guard}

/-- As long as a node has not been visited as often as it may be, its guard lets it run. -/
theorem guardExit?_of_lt (hg : d.guard = some g) (hw : scene.shared.Tallied w.heap)
    (hlt : scene.shared.visitsOf w.heap d.id < g.limit) : d.guardExit? scene w = (.ok none, w) := by
  simp only [guardExit?, hg, bind, Act.bind, visits_eq hw, Description.ordered_lt_int, hlt, Act.ofFault, Except.mapError,
    decide_true]
  rfl

/-- After that it does not, and says so. -/
theorem guardExit?_of_le (hg : d.guard = some g) (hw : scene.shared.Tallied w.heap)
    (hle : g.limit ≤ scene.shared.visitsOf w.heap d.id) :
    d.guardExit? scene w = (.ok (some g.exit), w.warned d g) := by
  have hnote : (World.note (d.guardNote g) w).2 = w.warned d g :=
    congrArg (fun events => ({ w with
      channel := (w.channel.emit (d.guardNote g)).1
      journal := List.reverse events ++ w.journal } : World))
      ((congrArg _ (Channel.emit_snd _ _)).trans List.map_map)
  rw [← hnote]
  simp only [guardExit?, hg, bind, Act.bind, visits_eq hw, Description.ordered_lt_int, Int.not_lt.2 hle, Act.ofFault,
    Except.mapError, decide_false]
  rfl

/-- What a guard starts from when it counts are the counts as members. -/
theorem membersOf_counts (hw : scene.shared.Tallied w.heap) :
    ∃ x, held scene visitsKey w = (.ok x, w) ∧
      membersOf x w = (.ok (scene.shared.counts w.heap), w) := by
  rcases held_visits hw with ⟨-, hheld, hcounts⟩ | ⟨a, ms, hheld, hcell, hcounts⟩
  · rw [hcounts]
    exact ⟨_, hheld, rfl⟩
  · refine ⟨_, hheld, ?_⟩
    rw [hcounts]
    simp only [bind, Act.bind, membersOf, World.view, Act.reads, Heap.view_dict hcell, Heap.membersAt, hcell]

/-- A write to a context is refused and changes nothing, or it is a write to memory. -/
theorem onShared_set (s : Shared) (key : String) (x : Datum) (w : World) :
    (∃ e, e ≠ .exhausted ∧ World.onShared (s.set key x) w = (.error e, w)) ∨
    World.onShared (s.set key x) w = (.ok (), { w with
      heap := w.heap.putMember s.data key x
      journal := ((s.reports (w.heap.putMember s.data key x) key ((s.get? w.heap key).getD .null) x).map
        Event.written).reverse ++ w.journal }) := by
  rw [World.onShared, Shared.set]
  cases hrefusal : s.refusal? key (w.heap.view x) with
  | none => exact Or.inr rfl
  | some e =>
    refine Or.inl ⟨e, ?_, rfl⟩
    -- a value is refused only because its type is not the demanded one
    rw [Shared.refusal?] at hrefusal
    split at hrefusal
    · cases hrefusal
    · split at hrefusal
      · cases hrefusal
      · split at hrefusal
        · cases hrefusal
        · obtain rfl := Option.some.inj hrefusal
          exact fun h => by cases h

/-- Counting a visit puts new counts into the context, and the observers of the context are told; or the
context refuses them, and all that has changed is that memory has grown. -/
theorem recordVisit_cases (hg : d.guard = some g) (hw : scene.shared.Tallied w.heap) {k : Nat}
    (hk : scene.shared.visitsOf w.heap d.id = k) :
    (∃ heap e, heap.Extends w.heap ∧ e ≠ .exhausted ∧
      d.recordVisit scene w = (.error e, { w with heap })) ∨
    ∃ written : List Write, d.recordVisit scene w = (.ok (), { w with
      heap := scene.shared.counted d.id k w.heap
      journal := (written.map Event.written).reverse ++ w.journal }) := by
  obtain ⟨k', hcount, hk'⟩ := hw.get?_counts d.id
  obtain rfl : k' = k := Int.ofNat.inj (hk'.symm.trans hk)
  obtain ⟨x, hheld, hmembers⟩ := membersOf_counts hw
  have hview : World.view ((Members.get? (scene.shared.counts w.heap) d.id).getD (.int 0)) w =
      (.ok (.int k'), w) := by
    rw [hcount, World.view, Act.reads, Heap.view, Heap.viewWithin_int]
  have hplus : (Value.int k').plus (.int 1) = .ok (.int (k' + 1 : Nat)) := rfl
  -- the sum is kept as the number that it is, the new counts in a cell behind all others
  have hrecord : d.recordVisit scene w = World.onShared (scene.shared.set visitsKey (.ref w.heap.cells.size))
      { w with heap := (w.heap.alloc (.dict (Members.put d.id (.int (k' + 1 : Nat))
        (scene.shared.counts w.heap)))).2 } := by
    simp only [recordVisit, hg, bind, Act.bind, hheld, hmembers, hview, hplus, Act.ofOperands,
      Except.mapError, World.keep, Act.update, Heap.keep, World.alloc, Heap.alloc]
  rw [hrecord]
  rcases onShared_set scene.shared visitsKey (.ref w.heap.cells.size) _ with ⟨e, he, hset⟩ | hset
  · exact Or.inl ⟨_, e, Heap.extends_alloc _ _, he, hset⟩
  · exact Or.inr ⟨_, hset⟩

end Declared

/-! ## 2. What is seen -/

/-- Is an event something that a listener under a tag is told, or the diagnostic of a guard? -/
def Event.isSight (tag : String) : Event → Bool
  | .told listener _ => listener = tag
  | .delivered d => d.record.code = Diagnostic.loopGuard
  | _ => false

/-- What is seen of guards and walks, newest first. -/
def sights (tag : String) (journal : List Event) : List Event := journal.filter (Event.isSight tag)

section

variable {tag : String} {journal : List Event}

theorem sights_append {events : List Event} (h : ∀ e ∈ events, e.isSight tag = false) :
    sights tag (events ++ journal) = sights tag journal := by
  rw [sights, List.filter_append, List.filter_eq_nil_iff.2 fun e he => by simp [h e he]]
  rfl

theorem sights_map {γ : Type} {f : γ → Event} {xs : List γ} (h : ∀ x, (f x).isSight tag = false) :
    sights tag ((xs.map f).reverse ++ journal) = sights tag journal :=
  sights_append fun e he => by
    obtain ⟨x, -, rfl⟩ := List.mem_map.1 (List.mem_reverse.1 he)
    exact h x

end

/-- What is seen, and the counts that a context has meanwhile. -/
structure Sight where
  seen : List Event
  counts : String → Int

/-- A step of which nothing is seen and of which the counts know nothing. -/
structure World.Steady (tag : String) (s : Shared) (w w' : World) : Prop where
  heap : s.Spares w.heap w'.heap
  subscribers : w'.channel.subscribers = w.channel.subscribers
  sights : sights tag w'.journal = sights tag w.journal

namespace World.Steady

variable {tag : String} {s : Shared} {w w' w'' : World}

theorem refl (tag : String) (s : Shared) (w : World) : Steady tag s w w := ⟨.refl _ _, rfl, rfl⟩

theorem of_extends {heap : Heap} (h : heap.Extends w.heap) : Steady tag s w { w with heap } :=
  ⟨Shared.spares_of_extends h, rfl, rfl⟩

theorem note {d : Diagnostic} (hd : d.code ≠ Diagnostic.loopGuard) (w : World) :
    Steady tag s w (World.note d w).2 where
  heap := .refl _ _
  subscribers := rfl
  sights := by
    refine sights_append fun e he => ?_
    obtain ⟨x, hx, rfl⟩ := List.mem_map.1 (List.mem_reverse.1 he)
    rw [Channel.emit_snd] at hx
    obtain ⟨l, -, rfl⟩ := List.mem_map.1 hx
    exact decide_eq_false hd

end World.Steady

/-! ## 3. Watches -/

/-- A watch over one shared context: the tag of its listeners and how many they are, what memory was like
when it began, who is subscribed to diagnostics, what may be seen, and which failures there can be. -/
structure Watch where
  tag : String
  ears : Nat
  base : Heap
  shared : Shared
  subscribers : List Listener
  allowed : Sight → Prop
  fails : Failure → Prop
  fails_of_ne : ∀ e, e ≠ .exhausted → fails e

namespace Watch

/-- What is seen in a world, and its counts. -/
def sight (W : Watch) (w : World) : Sight := ⟨sights W.tag w.journal, W.shared.visitsOf w.heap⟩

/-- What holds of the state of a run all the time. -/
structure Inv (W : Watch) (w : World) : Prop where
  beside : W.base.Beside W.shared.data w.heap
  tallied : W.shared.Tallied w.heap
  subscribers : w.channel.subscribers = W.subscribers
  allowed : W.allowed (W.sight w)

/-- What a watch says about the state of a run. Its mark is what is seen. -/
def regime (W : Watch) : Regime World Datum Sight where
  inv := W.Inv
  mark := W.sight
  part := Ends W.fails fun _ => True

variable {W : Watch} {α : Type} {P : α → Prop}

theorem sight_of_steady {w w' : World} (hw : W.Inv w) (h : w.Steady W.tag W.shared w') :
    W.sight w' = W.sight w := by
  rw [sight, sight, h.sights, h.heap.visitsOf_eq hw.tallied]

theorem Inv.steady {w w' : World} (hw : W.Inv w) (h : w.Steady W.tag W.shared w') : W.Inv w' where
  beside := hw.beside.trans h.heap.beside
  tallied := h.heap.tallied hw.tallied
  subscribers := h.subscribers.trans hw.subscribers
  allowed := by
    rw [sight_of_steady hw h]
    exact hw.allowed

/-- A steady action leaves what is known as it is. -/
theorem meets_of_steady {x : Act World α} {Q : Except Failure α → Prop}
    (hx : ∀ w, W.Inv w → w.Steady W.tag W.shared (x w).2 ∧ Q (x w).1) (known : Option Sight) :
    x.Meets W.regime known fun r k => Q r ∧ k = known := by
  intro w hw
  obtain ⟨hsteady, hQ⟩ := hx w hw.inv
  have hmark : W.regime.mark (x w).2 = W.regime.mark w := sight_of_steady hw.inv hsteady
  refine ⟨⟨hw.inv.steady hsteady, fun _ => hmark⟩, hQ, ?_⟩
  rw [Regime.after, hmark]
  exact hw.after_eq

/-- What a watch asks of the work of nodes: that it is calm. -/
def duty (W : Watch) : Duty Sight where
  regime := W.regime
  fails := W.fails
  result _ := True
  part _ := Iff.rfl
  fault _ := W.fails_of_ne _ nofun
  null := trivial
  wait seconds :=
    (meets_of_steady (x := World.log (.wait seconds))
      (fun _ _ => ⟨⟨.refl _ _, rfl, sights_append (List.forall_mem_singleton.2 rfl)⟩, rfl⟩) none).mono fun _ _ h => h.1
  remember node f :=
    (meets_of_steady (x := World.remember node f) (fun _ _ => ⟨⟨.refl _ _, rfl, rfl⟩, rfl⟩) none).mono
      fun _ _ h => h.1
  collect ds _ :=
    (meets_of_steady (x := World.alloc (.list ds)) (Q := fun r => ∃ d, r = .ok d ∧ True)
      (fun _ _ => ⟨.of_extends (Heap.extends_alloc _ _), _, rfl, trivial⟩) none).mono fun _ _ h => h.1

/-- Calm work, with a result as it has to be. -/
abbrev Calm (W : Watch) {m : Type → Type u} [Performs World m] [Reasoned World Datum m] (x : m α)
    (P : α → Prop) : Prop :=
  W.duty.Keeps x P

/-! ## 4. Calm steps -/

theorem calm_of_steady {x : Act World α}
    (hx : ∀ w, W.Inv w → w.Steady W.tag W.shared (x w).2 ∧ Ends W.fails P (x w).1) : W.Calm x P :=
  fun w hw => by
    obtain ⟨hallows, hends, -⟩ := meets_of_steady hx none w hw
    exact ⟨hallows, hends⟩

theorem calm_of_still {x : Act World α} (hx : ∀ w, (x w).2 = w ∧ Ends W.fails P (x w).1) : W.Calm x P :=
  Duty.keeps_of_still (D := W.duty) hx

theorem calm_reads {f : World → α} (hf : ∀ w, W.Inv w → P (f w)) : W.Calm (Act.reads f) P :=
  calm_of_steady fun w hw => ⟨.refl _ _ _, hf w hw⟩

theorem calm_view (d : Datum) : W.Calm (World.view d) fun _ => True := calm_reads fun _ _ => trivial

theorem calm_fail {e : Failure} (he : e ≠ .exhausted) : W.Calm (Act.fail e : Act World α) P :=
  calm_of_still fun _ => ⟨rfl, W.fails_of_ne e he⟩

theorem calm_ofExcept {x : Except Failure α} (hx : Ends W.fails P x) :
    W.Calm (Act.ofExcept x : Act World α) P :=
  calm_of_still fun _ => ⟨rfl, hx⟩

theorem calm_log {e : Event} (he : e.isSight W.tag = false) : W.Calm (World.log e) fun _ => True :=
  calm_of_steady fun _ _ => ⟨⟨.refl _ _, rfl, sights_append (List.forall_mem_singleton.2 he)⟩, trivial⟩

theorem calm_countCall (line : Line) : W.Calm (World.countCall line) fun _ => True :=
  calm_of_steady fun _ _ => ⟨⟨.refl _ _, rfl, rfl⟩, trivial⟩

theorem calm_keep (v : Value) : W.Calm (World.keep v) fun _ => True :=
  calm_of_steady fun w _ => ⟨.of_extends (Heap.extends_keep w.heap v), trivial⟩

theorem calm_noteAll {ds : List Diagnostic} (hds : ∀ d ∈ ds, d.code ≠ Diagnostic.loopGuard) :
    W.Calm (World.noteAll ds) fun _ => True := by
  induction ds with
  | nil => exact .pure trivial
  | cons d ds ih =>
    rw [List.forall_mem_cons] at hds
    refine .bind (P := fun _ => True) (calm_of_steady fun w _ => ⟨.note hds.1 w, trivial⟩) ?_
    intro _ _
    exact ih hds.2

theorem calm_settle {x : Noted α} (hx : ∀ d ∈ x.notes, d.code ≠ Diagnostic.loopGuard) :
    W.Calm (World.settle x) fun _ => True :=
  .bind (calm_noteAll hx) fun _ _ => Duty.keeps_faultable _

/-- A write to the watched context is calm unless it is one to the counts. -/
theorem calm_set {key : String} (hkey : key ≠ Declared.visitsKey) (d : Datum) :
    W.Calm (World.onShared (W.shared.set key d)) fun _ => True := by
  refine calm_of_steady fun w _ => ?_
  rcases Declared.onShared_set W.shared key d w with ⟨e, he, hset⟩ | hset
  · rw [hset]
    exact ⟨.refl _ _ _, W.fails_of_ne e he⟩
  · rw [hset]
    exact ⟨⟨Shared.spares_putMember hkey d, rfl, sights_map fun _ => rfl⟩, trivial⟩

end Watch

end NodeFlow
