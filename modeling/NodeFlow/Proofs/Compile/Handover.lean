import NodeFlow.Proofs.Compile.Recall
import NodeFlow.Proofs.Compile.Untouched
import NodeFlow.Proofs.Run.Agree
/-!
# Visits that hand the last result on

A visit does the same whether it looks the last result up in the shared context or has it handed over, and behind
it the context holds what is handed on: the result of its work, or what was there if its guard has tripped or it
is that of a router.

What is known between two visits is that sealed memory is as it was and that the context holds the last result in
its place. Whatever a node prepares and works on is quiet, so this is known until it finishes, even if others go
on meanwhile; and then its result is put in its place.
-/

set_option autoImplicit false

universe u

namespace NodeFlow

/-- Terms on which nothing is asked but that sealed memory stays as it is. -/
def Terms.sealing (S : Seal) : Terms Unit where
  sealed := S
  told _ := True
  mark _ := ()
  fails _ := True
  fails_of_ne _ _ := trivial

namespace Handing

open Growth

/-- Manners by which sealed memory stays as it is, and all memory stays closed and grows. -/
def manners (S : Seal) : Manners World Datum := (Terms.sealing S).regime.manners.both (.growing "")

variable {S : Seal} {n : Nat} {shared : Shared} {last : Datum} {w w' : World} {α β : Type}

/-! ## 1. Between two visits -/

/-- What is known between two visits: sealed memory is as it was, and the context holds the last result in its
place. -/
structure Holding (S : Seal) (n : Nat) (shared : Shared) (last : Datum) (w : World) : Prop where
  obeys : w.heap.Obeys S
  closed : w.heap.Closed
  size : n ≤ w.heap.cells.size
  recalls : shared.Recalls last w

theorem Holding.now (h : Holding S n shared last w) : Holding S w.heap.cells.size shared last w :=
  { h with size := Nat.le_refl _ }

theorem Holding.sooner {n' : Nat} (h : Holding S n' shared last w) (hn : n ≤ n') : Holding S n shared last w :=
  { h with size := Nat.le_trans hn h.size }

theorem Holding.of_heap (h : Holding S n shared last w) (hheap : w'.heap = w.heap) : Holding S n shared last w' :=
  ⟨hheap ▸ h.obeys, hheap ▸ h.closed, hheap ▸ h.size, hheap ▸ h.recalls.lt, hheap ▸ h.recalls.eq⟩

/-- It is known still when others have gone on quietly. -/
theorem Holding.of_quiet (h : Holding S n shared last w) (hquiet : (manners S).quiet w w') :
    Holding S n shared last w' := by
  obtain ⟨hclosed, hext, -⟩ := hquiet.2 h.closed
  refine ⟨(hquiet.1.1 ⟨h.obeys, trivial⟩).1, hclosed, Nat.le_trans h.size hext.size, ?_⟩
  exact h.recalls.of_leaves (hext.leaves _)

/-- A step is one that keeps sealed memory and makes memory grow. -/
theorem step_of {w w' : World} (hobeys : w.heap.Obeys S → w'.heap.Obeys S)
    (hgrows : (Manners.growing "").step w w') : (manners S).step w w' :=
  ⟨fun h => ⟨hobeys h.1, trivial⟩, hgrows⟩

theorem step_of_heap {w w' : World} (hheap : w'.heap = w.heap)
    (hshown : contextsShown "" w.journal <:+ contextsShown "" w'.journal) : (manners S).step w w' :=
  step_of (fun h => hheap ▸ h) fun hclosed => ⟨hheap ▸ hclosed, hheap ▸ Nat.le_refl _, hshown⟩

section

variable {m : Type → Type u} [Performs World m] [Reasoned World Datum m] [Mannerly World Datum m]
  [Heeding World Datum m] [Agreeing World Datum m]

/-- Quiet work that keeps sealed memory does what it does, and what was known is known behind it. -/
theorem agrees_self {x : m α} {P : α → Nat → Prop} {Q : α → Prop} (hkeeps : (Terms.sealing S).Keeps x Q)
    (hquiet : Quietly "" n x P) (hw : Holding S n shared last w) :
    Agreeing.Agrees (manners S) w x x fun a b w' =>
      a = b ∧ Q a ∧ P a w'.heap.cells.size ∧ Holding S n shared last w' := by
  have hadmits : (Terms.sealing S).regime.Admits (some ()) w := ⟨⟨hw.obeys, trivial⟩, fun _ _ => rfl⟩
  have hkept := Heeding.minds (Reasoned.frame hkeeps (some ())) hadmits
  have hminds := Mannerly.both hkept (hquiet .root w hw.size hw.closed)
  refine Agreeing.mono (Agreeing.refl hminds) ?_
  rintro a _ w' ⟨rfl, ⟨hinv, -, ha⟩, hgrows, hafter⟩
  obtain ⟨hclosed, hext, -⟩ := hgrows hw.closed
  exact ⟨rfl, ha, hafter a rfl, hinv.1, hclosed, Nat.le_trans hw.size hext.size, hw.recalls.of_leaves (hext.leaves _)⟩

omit [Reasoned World Datum m] [Heeding World Datum m] in
/-- An action that leaves memory alone does what it does. -/
theorem agrees_of_heap {x : Act World α} (hheap : (x w).2.heap = w.heap)
    (hshown : contextsShown "" w.journal <:+ contextsShown "" (x w).2.journal) :
    Agreeing.Agrees (manners S) w (Performs.perform x : m α) (Performs.perform x) fun a b w' =>
      a = b ∧ (x w).1 = .ok a ∧ w'.heap = w.heap :=
  Agreeing.perform (Act.agrees_of_step (step_of_heap hheap hshown) fun _ ha => ⟨rfl, ha, hheap⟩)

/-! ## 2. Visits -/

/-- How a visit that looks the last result up and one that has it handed over end alike: with the same label, and
the context holds what is handed on. -/
def Visited (S : Seal) (n : Nat) (shared : Shared) (label : Datum) (ended : Datum × Datum) (w : World) : Prop :=
  ended.1 = label ∧ Holding S n shared ended.2 w

variable {d : Declared} {scene : Scene} {P : α → Nat → Prop} {Q : α → Prop}

/-- An errand of a visit in which the last result is looked up where it is: while the visit prepares, and before a
router chooses. Behind the visit its result is there. -/
structure Fits (S : Seal) (n : Nat) (scene : Scene) (c : Errand m α) (P : α → Nat → Prop) (Q : α → Prop) : Prop where
  prep_keeps : (Terms.sealing S).Keeps (c.prep (Declared.priorScope scene)) Q
  prep_quiet : Quietly "" n (c.prep (Declared.priorScope scene)) P
  prep_alike : ∀ last, Declared.Alike scene.shared last (c.prep (Declared.priorScope scene))
    (c.prep (Declared.handedScope scene last))
  work_keeps : ∀ a, Q a → (Terms.sealing S).Keeps (c.work a) (Datum.Free S)
  work_quiet : ∀ a k, n ≤ k → P a k → Quietly "" k (c.work a) fun d k => d.Free (.beyond k)
  post_keeps : ∀ r : Datum, r.Free S → (Terms.sealing S).Keeps (c.post (Declared.priorScope scene) r) fun _ => True
  post_grows : ∀ (r : Datum) (k : Nat), n ≤ k → r.Free (.beyond k) →
    Grows "" k (c.post (Declared.priorScope scene) r) fun d k => d.Free (.beyond k)
  post_alike : ∀ last r, Declared.Alike scene.shared last (c.post (Declared.priorScope scene) r)
    (c.post (Declared.handedScope scene last) r)
  post_recalls : ∀ (last r : Datum) (w w' : World) (label : Datum), r.Free S → w.heap.Obeys S →
    scene.shared.Recalls last w → c.post (Declared.priorScope scene) r w = (.ok label, w') →
    scene.shared.Recalls (if c.routes then last else r) w'

omit [Heeding World Datum m] [Agreeing World Datum m] in
/-- The end of a visit, with what it hands on. -/
theorem Fits.agrees_post {c : Errand m α} (h : Fits S n scene c P Q) {r : Datum} (hr : r.Free S)
    (hr' : r.Free (.beyond w.heap.cells.size)) (hw : Holding S n scene.shared last w) :
    Act.Agrees (manners S) w (c.post (Declared.priorScope scene) r)
      (do
        let label ← c.post (Declared.handedScope scene last) r
        pure (label, if c.routes then last else r))
      (Visited S n scene.shared) := by
  have hsame := h.post_alike last r w hw.recalls
  have hallows := (h.post_keeps r hr w ⟨⟨hw.obeys, trivial⟩, fun _ h => by cases h⟩).1
  obtain ⟨hclosed, hsize, hshown, -⟩ := h.post_grows r _ hw.size hr' w (Nat.le_refl _) hw.closed
  have hstep : (manners S).step w (c.post (Declared.priorScope scene) r w).2 :=
    ⟨fun _ => hallows.inv, fun _ => ⟨hclosed, hsize, hshown ▸ List.suffix_rfl⟩⟩
  have hobeys := hallows.inv.1
  rw [Act.Agrees]
  rcases hpost : c.post (Declared.priorScope scene) r w with ⟨res, w'⟩
  rw [hpost] at hsame hstep hobeys hclosed hsize
  cases res with
  | ok label =>
    rw [Act.bind_ok hsame]
    exact ⟨hstep, rfl, .ok ⟨rfl, hobeys, hclosed, Nat.le_trans hw.size hsize,
      h.post_recalls last r w w' label hr hw.obeys hw.recalls hpost⟩⟩
  | error e =>
    rw [Act.bind_error hsame]
    exact ⟨hstep, rfl, .error e⟩

/-- **A visit does the same whether it looks the last result up or has it handed over.** -/
theorem Fits.agrees {c : Errand m α} (h : Fits S n scene c P Q) (hs : scene.Free S) (hs' : scene.Free (.beyond n))
    (hw : Holding S n scene.shared last w) :
    Agreeing.Agrees (manners S) w (c.lookingUp d scene) (c.handed d scene last) (Visited S n scene.shared) := by
  rw [Errand.lookingUp, Declared.guarded, Errand.handed]
  have hguard := agrees_self (m := m) (Terms.Keeps.perform (Terms.keeps_guardExit? hs))
    (Quietly.perform (quietly_guardExit? (d := d) hs')) hw
  refine Agreeing.bind hguard ?_
  rintro o _ w₁ ⟨rfl, -, -, hw₁⟩
  cases o with
  | some label => exact Agreeing.pure ⟨rfl, hw₁⟩
  | none =>
    have hprep := agrees_self (m := Act World) h.prep_keeps h.prep_quiet hw₁
    have hlooks : Agreeing.Agrees (manners S) w₁ (Performs.perform (c.prep (Declared.priorScope scene)) : m α)
        (Performs.perform (c.prep (Declared.handedScope scene last))) _ :=
      Agreeing.perform (Act.agrees_of_eq (h.prep_alike last w₁ hw₁.recalls) hprep)
    refine Agreeing.bind hlooks ?_
    rintro a _ w₂ ⟨rfl, ha, ha', hw₂⟩
    refine Agreeing.bind (agrees_self (h.work_keeps a ha) (h.work_quiet a _ hw₂.size ha') hw₂.now) ?_
    rintro r _ w₃ ⟨rfl, hr, hr', hw₃⟩
    exact Agreeing.perform (h.agrees_post hr hr' (hw₃.sooner hw₂.size))

end

/-! ## 3. The built-in kinds -/

/-- A conduct that is no walk does the same in a scene as a node that is handed the last result. -/
def AgreesConduct (S : Seal) (n : Nat) (scene : Scene) (last : Datum) (w : World) : Conduct → Relay → Prop
  | .blocking visit, .blocking visit' =>
    Act.Agrees (manners S) w (visit scene) (visit' scene last) (Visited S n scene.shared)
  | .cooperative visit, .cooperative visit' =>
    Coop.Agrees (manners S) w (visit scene) (visit' scene last) (Visited S n scene.shared)
  | _, _ => False

section

variable {m : Type → Type u} [Performs World m] [Reasoned World Datum m] {policy : RetryPolicy} {node : Nat}

theorem keeps_workOn {exec : α → m Datum} {a : α} (h : (Terms.sealing S).Keeps (exec a) (Datum.Free S)) :
    (Terms.sealing S).Keeps (Errand.workOn exec policy node a) (Datum.Free S) :=
  Duty.keeps_working (D := (Terms.sealing S).duty) Datum.free_null h fun _ _ => .throw trivial

theorem keeps_workInOrder {exec : WorkOrder → m Datum} {os : List WorkOrder}
    (h : ∀ o ∈ os, (Terms.sealing S).Keeps (exec o) (Datum.Free S)) :
    (Terms.sealing S).Keeps (Errand.workInOrder exec policy node os) (Datum.Free S) := by
  refine .bind (P := fun items => items = os) (.perform (.pure rfl)) ?_
  rintro _ rfl
  refine .bind (Duty.keeps_eachOf (D := (Terms.sealing S).duty) fun o ho => keeps_workOn (h o ho)) fun ds hds => ?_
  exact .perform (Terms.keeps_alloc (Cell.free_list.2 hds))

omit [Performs World m] [Reasoned World Datum m] in
theorem keeps_workTogether {exec : WorkOrder → Coop World Datum Datum} {os : List WorkOrder}
    (h : ∀ o ∈ os, (Terms.sealing S).Keeps (exec o) (Datum.Free S)) :
    (Terms.sealing S).Keeps (Errand.workTogether exec policy node os) (Datum.Free S) := by
  refine .bind (P := fun items => items = os) (.perform (.pure rfl)) ?_
  rintro _ rfl
  refine .bind (Duty.keeps_together (D := (Terms.sealing S).duty)
    (List.forall_mem_map.2 fun o ho => keeps_workOn (h o ho))) fun ds hds => ?_
  exact .perform (Terms.keeps_alloc (Cell.free_list.2 hds))

end

section

variable {m : Type → Type u} [Performs World m] [Mannerly World Datum m] {policy : RetryPolicy} {node : Nat}

theorem quietly_workOn {exec : α → m Datum} {a : α} (h : Quietly "" n (exec a) fun d k => d.Free (.beyond k)) :
    Quietly "" n (Errand.workOn exec policy node a) fun d k => d.Free (.beyond k) :=
  quietly_working (fun _ _ => Datum.free_null) h fun e => .throw e

theorem quietly_workInOrder {exec : WorkOrder → m Datum} {os : List WorkOrder}
    (h : ∀ o ∈ os, Quietly "" n (exec o) fun d k => d.Free (.beyond k)) :
    Quietly "" n (Errand.workInOrder exec policy node os) fun d k => d.Free (.beyond k) := by
  refine .bind (P := fun items _ => items = os) (.perform (.pure fun _ _ => rfl)) ?_
  rintro _ k hk rfl
  refine .bind (quietly_eachOf (Q := fun d k => d.Free (.beyond k)) (fun _ _ _ h hd => hd.later h)
    fun o ho => (quietly_workOn (h o ho)).later hk) fun ds _ _ hds => quietly_collect hds

omit [Performs World m] [Mannerly World Datum m] in
theorem quietly_workTogether {exec : WorkOrder → Coop World Datum Datum} {os : List WorkOrder}
    (h : ∀ o ∈ os, Quietly "" n (exec o) fun d k => d.Free (.beyond k)) :
    Quietly "" n (Errand.workTogether exec policy node os) fun d k => d.Free (.beyond k) := by
  refine .bind (P := fun items _ => items = os) (.perform (.pure fun _ _ => rfl)) ?_
  rintro _ k hk rfl
  refine .bind (quietly_together (List.forall_mem_map.2 fun o ho => (quietly_workOn (h o ho)).later hk))
    fun ds _ _ hds => quietly_collect hds

end

section

variable {m : Type → Type u} [Performs World m] [Reasoned World Datum m] [Mannerly World Datum m]
  {env : Environment} {d : Declared} {scene : Scene} {L : Datum → Prop} {policy : RetryPolicy} {node : Nat}

/-- An errand that finishes as all do that are no router's. -/
theorem fits_finish {c : Errand m α} {P : α → Nat → Prop} {Q : α → Prop} (hd : d.Honors S L false)
    (hreserves : d.Reserves S) (hcontent : (Datum.ref d.content).Free (.beyond n)) (hs : scene.Free S)
    (hs' : scene.Free (.beyond n)) (hpost : c.post = fun _ r => d.finish scene r) (hroutes : c.routes = false)
    (hprep : (Terms.sealing S).Keeps (c.prep (Declared.priorScope scene)) Q)
    (hprep' : Quietly "" n (c.prep (Declared.priorScope scene)) P)
    (halike : ∀ last, Declared.Alike scene.shared last (c.prep (Declared.priorScope scene))
      (c.prep (Declared.handedScope scene last)))
    (hwork : ∀ a, Q a → (Terms.sealing S).Keeps (c.work a) (Datum.Free S))
    (hwork' : ∀ a k, n ≤ k → P a k → Quietly "" k (c.work a) fun d k => d.Free (.beyond k)) :
    Fits S n scene c P Q where
  prep_keeps := hprep
  prep_quiet := hprep'
  prep_alike := halike
  work_keeps := hwork
  work_quiet := hwork'
  post_keeps r hr := by
    rw [hpost]
    exact (Terms.keeps_finish hd hs hr).mono fun _ _ => trivial
  post_grows r k hk hr := by
    rw [hpost]
    exact grows_finish (hcontent.later hk) (hs'.later hk) hr
  post_alike last r := by
    rw [hpost]
    exact .refl _
  post_recalls last r w w' label hr hw hrecalls h := by
    rw [hpost] at h
    rw [hroutes, if_neg Bool.false_ne_true]
    exact Declared.recalls_finish hreserves hs hr hw hrecalls.lt h

variable (henv : (Terms.sealing S).SuitsAll env) (hgrounded : env.Grounded n) (hreserves : d.Reserves S)
  (hcontent : (Datum.ref d.content).Free (.beyond n)) (hs : scene.Free S) (hs' : scene.Free (.beyond n))

include henv hgrounded hreserves hcontent hs hs'

theorem fits_asks (hd : d.Honors S L false) {exec : Prompted → m Datum}
    (hexec : ∀ p, (Terms.sealing S).SuitsPrompted p → (Terms.sealing S).Keeps (exec p) (Datum.Free S))
    (hexec' : ∀ p k, Growth.Ready k p → Quietly "" k (exec p) fun d k => d.Free (.beyond k)) :
    Fits S n scene (Errand.asks env d policy node scene exec) (fun p k => Growth.Ready k p)
      (Terms.sealing S).SuitsPrompted :=
  fits_finish hd hreserves hcontent hs hs' rfl rfl (Terms.keeps_preparePrompt henv hd hs)
    (quietly_preparePrompt hgrounded hcontent hs') (fun _ => Declared.alike_preparePrompt)
    (fun p hp => keeps_workOn (hexec p hp)) fun p k _ hp => quietly_workOn (hexec' p k hp)

omit henv hgrounded hreserves hcontent hs hs' [Reasoned World Datum m] [Mannerly World Datum m] in
theorem lookingUp_batches (work : List WorkOrder → m Datum) : (Errand.batches env d scene work).lookingUp d scene =
    d.guarded scene (course (Performs.perform (d.workOrders env scene)) work fun _ result =>
      Performs.perform (d.finish scene result)) := by
  rw [← d.workOrdersFrom_priorScope]
  rfl

theorem fits_batches (hd : d.Honors S L false) (work : List WorkOrder → m Datum)
    (hwork : ∀ os, (∀ o ∈ os, (Terms.sealing S).SuitsOrder o) → (Terms.sealing S).Keeps (work os) (Datum.Free S))
    (hwork' : ∀ os k, (∀ o ∈ os, Ordered k o) → Quietly "" k (work os) fun d k => d.Free (.beyond k)) :
    Fits S n scene (Errand.batches env d scene work) (fun os k => ∀ o ∈ os, Ordered k o)
      fun os => ∀ o ∈ os, (Terms.sealing S).SuitsOrder o := by
  have hprep : (Errand.batches env d scene work).prep (Declared.priorScope scene) = d.workOrders env scene :=
    d.workOrdersFrom_priorScope env scene
  refine fits_finish hd hreserves hcontent hs hs' rfl rfl ?_ ?_ (fun _ => Declared.alike_workOrders) hwork
    fun os k _ hos => hwork' os k hos
  · rw [hprep]
    exact Terms.keeps_workOrders henv hd hs
  · rw [hprep]
    exact quietly_workOrders hgrounded hcontent hs'

end

section

variable {env : Environment} {d : Declared} {scene : Scene} {L : Datum → Prop} {policy : RetryPolicy} {node : Nat}

/-- A router has no result, and chooses when its visit has been counted. -/
theorem fits_chooses (hd : d.Honors S L true) (hcontent : (Datum.ref d.content).Free (.beyond n))
    (hs : scene.Free S) (hs' : scene.Free (.beyond n)) :
    Fits S n scene (Errand.chooses d policy node scene) (fun _ _ => True) fun _ => True where
  prep_keeps := .pure trivial
  prep_quiet := .pure fun _ _ => trivial
  prep_alike _ := .refl _
  work_keeps _ _ := keeps_workOn (.pure Datum.free_null)
  work_quiet _ _ _ _ := quietly_workOn (.pure fun _ _ => Datum.free_null)
  post_keeps _ _ := (Terms.keeps_route hd hs).mono fun _ _ => trivial
  post_grows _ _ hk _ := grows_route (hcontent.later hk) (hs'.later hk)
  post_alike _ _ := Declared.alike_route
  post_recalls last r w w' label _ _ hrecalls h := by
    have hleaves : w.heap.Leaves Declared.lastResultKey (d.routeFrom scene (Declared.priorScope scene) w).2.heap :=
      Declared.leaves_route (Declared.priorScope scene) (fun item => Declared.leaves_priorScope item) w
    have hpost : d.routeFrom scene (Declared.priorScope scene) w = (.ok label, w') := h
    rw [hpost] at hleaves
    exact hrecalls.of_leaves hleaves

theorem fits_fetches (henv : (Terms.sealing S).SuitsAll env) (hgrounded : env.Grounded n) (hreserves : d.Reserves S)
    (hcontent : (Datum.ref d.content).Free (.beyond n)) (hs : scene.Free S) (hs' : scene.Free (.beyond n))
    (hd : d.Honors S L false) :
    Fits S n scene (Errand.fetches env d policy node scene) (fun r k => Growth.Fetches k r.client)
      fun r => (Terms.sealing S).SuitsClient r.client :=
  fits_finish hd hreserves hcontent hs hs' rfl rfl (Terms.keeps_prepareRequest henv hd hs)
    (quietly_prepareRequest hgrounded hcontent hs') (fun _ => Declared.alike_prepareRequest)
    (fun _ hr => keeps_workOn (Terms.keeps_send hr)) fun _ _ _ hr => quietly_workOn (quietly_send hr)

theorem fits_copies (hreserves : d.Reserves S) (hcontent : (Datum.ref d.content).Free (.beyond n)) (hs : scene.Free S)
    (hs' : scene.Free (.beyond n)) (hd : d.Honors S L false) :
    Fits S n scene (Errand.copies d policy node scene) (fun _ _ => True) fun _ => True :=
  fits_finish hd hreserves hcontent hs hs' rfl rfl (.pure trivial) (.pure fun _ _ => trivial) (fun _ => .refl _)
    (fun _ _ => keeps_workOn (Terms.keeps_copyData hd))
    fun _ _ hk _ => quietly_workOn (quietly_copyData (hcontent.later hk))

variable {kind : Kind}

/-- A batch does the same, in whatever way it works on its elements. -/
theorem agrees_batches {m : Type → Type u} [Performs World m] [Reasoned World Datum m] [Mannerly World Datum m]
    [Heeding World Datum m] [Agreeing World Datum m] (henv : (Terms.sealing S).SuitsAll env)
    (hgrounded : env.Grounded n) (hd : d.Honors S L false) (hreserves : d.Reserves S)
    (hcontent : (Datum.ref d.content).Free (.beyond n)) (hs : scene.Free S) (hs' : scene.Free (.beyond n))
    (hw : Holding S n scene.shared last w)
    {work : List WorkOrder → m Datum}
    (hwork : ∀ os, (∀ o ∈ os, (Terms.sealing S).SuitsOrder o) → (Terms.sealing S).Keeps (work os) (Datum.Free S))
    (hwork' : ∀ os k, (∀ o ∈ os, Ordered k o) → Quietly "" k (work os) fun d k => d.Free (.beyond k)) :
    Agreeing.Agrees (manners S) w
      (d.guarded scene (course (Performs.perform (d.workOrders env scene)) work fun _ result =>
        Performs.perform (d.finish scene result)))
      ((Errand.batches env d scene work).handed d scene last) (Visited S n scene.shared) := by
  rw [← lookingUp_batches]
  exact (fits_batches henv hgrounded hreserves hcontent hs hs' hd work hwork hwork').agrees hs hs' hw

/-- **A node of a built-in kind does the same whether it looks the last result up or has it handed over.** -/
theorem agrees_ofKind (henv : (Terms.sealing S).SuitsAll env) (hgrounded : env.Grounded n)
    (hd : d.Honors S L (kind == .router)) (hreserves : d.Reserves S)
    (hcontent : (Datum.ref d.content).Free (.beyond n)) (hs : scene.Free S) (hs' : scene.Free (.beyond n))
    (hw : Holding S n scene.shared last w) (waits : Bool) :
    AgreesConduct S n scene last w ((Make.ofKind waits kind).conduct env d policy node)
      (Relay.ofKind env d policy node waits kind) := by
  have hasks : ∀ _ : d.Honors S L false, AgreesConduct S n scene last w
      (Make.cooperative.conduct env d policy node)
      (.cooperative fun s => (Errand.asks env d policy node s Prompted.callWaiting).handed d s) := fun hd =>
    (fits_asks (m := Coop World Datum) henv hgrounded hreserves hcontent hs hs' hd (fun _ hp => hp.callWaiting)
      fun _ _ hp => hp.callWaiting).agrees hs hs' hw
  cases kind with
  | router => exact (fits_chooses hd hcontent hs hs').agrees (m := Act World) hs hs' hw
  | httpCall => exact (fits_fetches henv hgrounded hreserves hcontent hs hs' hd).agrees (m := Act World) hs hs' hw
  | staticData => exact (fits_copies hreserves hcontent hs hs' hd).agrees (m := Act World) hs hs' hw
  | llmCall =>
    cases waits with
    | true => exact hasks hd
    | false =>
      exact (fits_asks (m := Act World) henv hgrounded hreserves hcontent hs hs' hd (fun _ hp => hp.call)
        fun _ _ hp => hp.call).agrees hs hs' hw
  | cooperative => exact hasks hd
  | batch =>
    cases waits with
    | true =>
      exact agrees_batches (m := Coop World Datum) henv hgrounded hd hreserves hcontent hs hs' hw
        (fun _ hos => keeps_workInOrder fun o ho => (hos o ho).carryOutWaiting)
        fun _ _ hos => quietly_workInOrder fun o ho => (hos o ho).carryOutWaiting
    | false =>
      exact agrees_batches (m := Act World) henv hgrounded hd hreserves hcontent hs hs' hw
        (fun _ hos => keeps_workInOrder fun o ho => (hos o ho).carryOut)
        fun _ _ hos => quietly_workInOrder fun o ho => (hos o ho).carryOut
  | cooperativeParallel =>
    exact agrees_batches (m := Coop World Datum) henv hgrounded hd hreserves hcontent hs hs' hw
      (fun _ hos => keeps_workTogether fun o ho => (hos o ho).carryOutWaiting)
      fun _ _ hos => quietly_workTogether fun o ho => (hos o ho).carryOutWaiting

end

end Handing

end NodeFlow
