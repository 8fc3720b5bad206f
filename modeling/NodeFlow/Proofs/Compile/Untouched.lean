import NodeFlow.Proofs.Compile.Reporting
import NodeFlow.Proofs.Json.Decoded
/-!
# Failed visits leave the context untouched

A visit that fails before it begins to finish has written nothing: what the shared context shows is what it
showed when the visit began, and no guard has counted the visit. However many attempts were made, and however
many elements of a batch had been worked on, all that is left of them are new cells that the context does not
lead to.
-/

set_option autoImplicit false

universe u

namespace NodeFlow

/-! ## 1. Visits -/

namespace Growth

open Manners

variable {tag : String} {blamed : Failure → Prop} {n : Nat} {α β : Type}

/-- A visit that shows no context. If it fails, then quietly, unless the failure is blamed on something else. -/
def Spares (tag : String) (blamed : Failure → Prop) (n : Nat) {m : Type → Type u} [Performs World m]
    [Mannerly World Datum m] (x : m Datum) : Prop :=
  ∀ w : World, n ≤ w.heap.cells.size → w.heap.Closed → Mannerly.Minds (growing tag) .root w x fun r w' =>
    w'.heap.Closed ∧ w.heap.cells.size ≤ w'.heap.cells.size ∧
    contextsShown tag w'.journal = contextsShown tag w.journal ∧
    (∀ d, r = .ok d → d.Free (.beyond w'.heap.cells.size)) ∧
    ∀ e, r = .error e → (growing tag).quiet w w' ∨ blamed e

section

variable {m : Type → Type u} [Performs World m] [Mannerly World Datum m] {P : α → Nat → Prop}

theorem Quietly.spares {x : m Datum} (hx : Quietly tag n x fun d k => d.Free (.beyond k)) :
    Spares tag blamed n x := by
  intro w hn hw
  refine Mannerly.mono (hx .root w hn hw) fun r w' h => ?_
  obtain ⟨hclosed, hext, hshown⟩ := h.1 hw
  exact ⟨hclosed, hext.size, hshown, h.2, fun _ _ => Or.inl h.1⟩

theorem Quietly.then_spares {x : m α} {f : α → m Datum} (hx : Quietly tag n x P)
    (hf : ∀ a k, n ≤ k → P a k → Spares tag blamed k (f a)) : Spares tag blamed n (x >>= f) := by
  intro w hn hw
  refine Mannerly.bind (hx .root w hn hw) ?_ ?_
  · rintro a w' ⟨hquiet, ha⟩
    obtain ⟨hclosed, hext, hshown⟩ := hquiet hw
    refine Mannerly.mono (hf a _ (Nat.le_trans hn hext.size) (ha a rfl) w' (Nat.le_refl _) hclosed) ?_
    rintro r w'' ⟨hclosed', hsize, hshown', hd, he⟩
    refine ⟨hclosed', Nat.le_trans hext.size hsize, hshown'.trans hshown, hd, fun e h => ?_⟩
    exact (he e h).imp_left fun hquiet' => (growing tag).quiet_trans hquiet hquiet'
  · rintro e w' ⟨hquiet, -⟩
    obtain ⟨hclosed, hext, hshown⟩ := hquiet hw
    exact ⟨hclosed, hext.size, hshown, nofun, fun _ _ => Or.inl hquiet⟩

theorem Spares.later {x : m Datum} {n' : Nat} (hx : Spares tag blamed n x) (h : n ≤ n') :
    Spares tag blamed n' x :=
  fun w hn hw => hx w (Nat.le_trans h hn) hw

/-- What grows memory and reports its failures under other names is blamed for them. -/
theorem spares_reporting {x : Act World Datum} (rename : Failure → Failure)
    (hx : Grows tag n x fun d k => d.Free (.beyond k)) :
    Spares tag (fun e => ∃ f, e = rename f) n (Performs.perform (x.reporting rename) : m Datum) := by
  intro w hn hw
  obtain ⟨hclosed, hsize, hshown, hd⟩ := hx w hn hw
  refine Mannerly.perform ?_
  unfold Act.Minds
  rcases hxw : x w with ⟨r, w'⟩
  rw [hxw] at hclosed hsize hshown hd
  have hstep : (growing tag).step w w' := fun _ => ⟨hclosed, hsize, hshown ▸ List.suffix_rfl⟩
  cases r with
  | ok d =>
    rw [Act.reporting, Act.tryCatch_ok hxw]
    exact ⟨hstep, hclosed, hsize, hshown, hd, nofun⟩
  | error e =>
    rw [Act.reporting, Act.tryCatch_error hxw]
    exact ⟨hstep, hclosed, hsize, hshown, nofun, fun e' h => Or.inr ⟨e, (Except.error.inj h).symm⟩⟩

theorem spares_guarded {d : Declared} {scene : Scene} (hs : scene.Free (.beyond n)) {visit : m Datum}
    (hvisit : Spares tag blamed n visit) : Spares tag blamed n (d.guarded scene visit) := by
  refine (Quietly.perform (quietly_guardExit? hs)).then_spares fun o k hk _ => ?_
  cases o with
  | none => exact hvisit.later hk
  | some label => exact Quietly.spares (.pure fun _ _ => Datum.free_str label)

/-- A course of three stages, of which the last one is to blame for what it does. -/
theorem spares_course {prep : m α} {work : α → m Datum} {post : α → Datum → m Datum} (hprep : Quietly tag n prep P)
    (hwork : ∀ a k, n ≤ k → P a k → Quietly tag k (work a) fun d k => d.Free (.beyond k))
    (hpost : ∀ a d k, n ≤ k → d.Free (.beyond k) → Spares tag blamed k (post a d)) :
    Spares tag blamed n (course prep work post) :=
  hprep.then_spares fun a k hk ha => (hwork a k hk ha).then_spares fun d k' hk' hd =>
    hpost a d k' (Nat.le_trans hk hk') hd

variable {policy : RetryPolicy} {node : Nat}

theorem quietly_work {prep : Act World α} {exec : β → m Datum} {post : Datum → Act World Datum} {b : β}
    (hexec : Quietly tag n (exec b) fun d k => d.Free (.beyond k)) :
    Quietly tag n ((Declared.stages prep exec post : Stages m α β).work policy node b)
      fun d k => d.Free (.beyond k) :=
  quietly_working (fun _ _ => Datum.free_null) hexec fun e => .throw e

theorem spares_once {prep : Act World α} {exec : α → m Datum} {post : Datum → Act World Datum}
    (hprep : Quietly tag n prep P)
    (hexec : ∀ a k, n ≤ k → P a k → Quietly tag k (exec a) fun d k => d.Free (.beyond k))
    (hpost : ∀ d k, n ≤ k → d.Free (.beyond k) → Spares tag blamed k (Performs.perform (post d) : m Datum)) :
    Spares tag blamed n ((Declared.stages prep exec post : Stages m α α).once policy node) :=
  spares_course (.perform hprep) (fun a k hk ha => quietly_work (hexec a k hk ha)) fun _ d k hk hd => hpost d k hk hd

theorem quietly_collect {ds : List Datum} (hds : ∀ d ∈ ds, d.Free (.beyond n)) :
    Quietly tag n (Performs.perform (World.alloc (.list ds)) : m Datum) fun d k => d.Free (.beyond k) :=
  .perform (quietly_alloc (Cell.free_list.2 hds))

theorem spares_inOrder {prep : Act World (List WorkOrder)} {exec : WorkOrder → m Datum}
    {post : Datum → Act World Datum} (hprep : Quietly tag n prep fun os k => ∀ o ∈ os, Ordered k o)
    (hexec : ∀ o k, Ordered k o → Quietly tag k (exec o) fun d k => d.Free (.beyond k))
    (hpost : ∀ d k, n ≤ k → d.Free (.beyond k) → Spares tag blamed k (Performs.perform (post d) : m Datum)) :
    Spares tag blamed n ((Declared.stages prep exec post : Stages m (List WorkOrder) WorkOrder).inOrder policy
      node pure) := by
  refine spares_course (.perform hprep) (fun os k hk hos => ?_) fun _ d k hk hd => hpost d k hk hd
  refine .bind (P := fun os k => ∀ o ∈ os, Ordered k o)
    (.perform (.pure fun l hl o ho => (hos o ho).later hl)) fun items k₁ hk₁ hitems => ?_
  refine .bind (quietly_eachOf (Q := fun d k => d.Free (.beyond k)) (fun _ _ _ h hd => hd.later h)
    fun o ho => quietly_work (hexec o k₁ (hitems o ho))) fun ds k₂ hk₂ hds => ?_
  exact quietly_collect hds

end

theorem spares_together {prep : Act World (List WorkOrder)} {exec : WorkOrder → Coop World Datum Datum}
    {post : Datum → Act World Datum} {policy : RetryPolicy} {node : Nat}
    (hprep : Quietly tag n prep fun os k => ∀ o ∈ os, Ordered k o)
    (hexec : ∀ o k, Ordered k o → Quietly tag k (exec o) fun d k => d.Free (.beyond k))
    (hpost : ∀ d k, n ≤ k → d.Free (.beyond k) →
      Spares tag blamed k (Performs.perform (post d) : Coop World Datum Datum)) :
    Spares tag blamed n ((Declared.stages prep exec post :
      Stages (Coop World Datum) (List WorkOrder) WorkOrder).together policy node pure) := by
  refine spares_course (.perform hprep) (fun os k hk hos => ?_) fun _ d k hk hd => hpost d k hk hd
  refine .bind (P := fun os k => ∀ o ∈ os, Ordered k o)
    (.perform (.pure fun l hl o ho => (hos o ho).later hl)) fun items k₁ hk₁ hitems => ?_
  refine .bind (quietly_together (List.forall_mem_map.2 fun o ho => quietly_work (hexec o k₁ (hitems o ho))))
    fun ds k₂ hk₂ hds => ?_
  exact quietly_collect hds

theorem spares_finish {m : Type → Type u} [Performs World m] [Mannerly World Datum m] {d : Declared} {scene : Scene}
    (hd : (Datum.ref d.content).Free (.beyond n)) (hs : scene.Free (.beyond n)) (rename : Failure → Failure)
    (r : Datum) (k : Nat) (hk : n ≤ k) (hr : r.Free (.beyond k)) :
    Spares tag (fun e => ∃ f, e = rename f) k (Performs.perform ((d.finish scene r).reporting rename) : m Datum) :=
  spares_reporting rename (grows_finish (hd.later hk) (hs.later hk) hr)

/-- A conduct that is no walk and spares what was there. -/
def SparesConduct (tag : String) (blamed : Failure → Prop) (n : Nat) (scene : Scene) : Conduct → Prop
  | .blocking visit => Spares tag blamed n (visit scene)
  | .cooperative visit => Spares tag blamed n (visit scene)
  | .flow _ _ | .cooperativeFlow _ _ => False

/-- A node of a built-in kind that reports the failures of its last stage under other names spares what was
there, unless it reports one. -/
theorem sparesConduct_reportingMake {env : Environment} {d : Declared} {scene : Scene} (henv : env.Grounded n)
    (hd : d.content < n) (hs : scene.Free (.beyond n)) (rename : Failure → Failure) (k : Kind)
    (policy : RetryPolicy) (node : Nat) :
    SparesConduct tag (fun e => ∃ f, e = rename f) n scene
      ((Compiler.reportingMake env rename k).conduct env d policy node) := by
  have hcontent : (Datum.ref d.content).Free (.beyond n) := Datum.free_ref.2 (Seal.beyond_eq_none.2 hd)
  have horders := @quietly_workOrders tag n env d scene henv hcontent hs
  have hasking : SparesConduct tag (fun e => ∃ f, e = rename f) n scene
      ((Make.askingWith fun d scene r => (d.finish scene r).reporting rename).conduct env d policy node) :=
    spares_guarded hs (spares_once (quietly_preparePrompt henv hcontent hs) (fun _ _ _ hp => hp.callWaiting)
      (spares_finish hcontent hs rename))
  cases k with
  | router =>
    refine spares_guarded hs (spares_once (P := fun _ _ => True) (.pure fun _ _ => trivial) ?_ fun d k hk _ => ?_)
    · exact fun _ _ _ _ => .pure fun _ _ => Datum.free_null
    · exact spares_reporting rename (grows_route (hcontent.later hk) (hs.later hk))
  | httpCall =>
    exact spares_guarded hs (spares_once (quietly_prepareRequest henv hcontent hs) (fun _ _ _ hr => quietly_send hr)
      (spares_finish hcontent hs rename))
  | staticData =>
    exact spares_guarded hs (spares_once (P := fun _ _ => True) (.pure fun _ _ => trivial)
      (fun _ _ hk _ => quietly_copyData (hcontent.later hk)) (spares_finish hcontent hs rename))
  | llmCall =>
    rw [Compiler.reportingMake, Make.ending]
    split
    · exact hasking
    · exact spares_guarded hs (spares_once (quietly_preparePrompt henv hcontent hs) (fun _ _ _ hp => hp.call)
        (spares_finish hcontent hs rename))
  | cooperative => exact hasking
  | batch =>
    rw [Compiler.reportingMake, Make.ending]
    split
    · exact spares_guarded hs (spares_inOrder horders (fun _ _ ho => ho.carryOutWaiting)
        (spares_finish hcontent hs rename))
    · exact spares_guarded hs (spares_inOrder horders (fun _ _ ho => ho.carryOut)
        (spares_finish hcontent hs rename))
  | cooperativeParallel =>
    exact spares_guarded hs (spares_together horders (fun _ _ ho => ho.carryOutWaiting)
      (spares_finish hcontent hs rename))

/-! ## 2. Walks -/

/-- Since a world, memory has grown, and the context shows what the listeners under a tag have been shown last, or
what it showed then. -/
structure ShowsLast (tag : String) (shared : Shared) (u w : World) : Prop where
  closed : w.heap.Closed
  size : u.heap.cells.size ≤ w.heap.cells.size
  shown : ∃ new, contextsShown tag w.journal = new ++ contextsShown tag u.journal ∧
    shared.view w.heap = new.head?.getD (shared.view u.heap)

variable {shared : Shared} {u w w' : World}

theorem ShowsLast.refl (hu : u.heap.Closed) : ShowsLast tag shared u u :=
  ⟨hu, Nat.le_refl _, [], rfl, rfl⟩

theorem ShowsLast.of_quiet (h : ShowsLast tag shared u w) (hshared : shared.data < u.heap.cells.size)
    (hquiet : (growing tag).quiet w w') : ShowsLast tag shared u w' := by
  obtain ⟨hclosed, hext, hsame⟩ := hquiet h.closed
  obtain ⟨new, hnew, hview⟩ := h.shown
  refine ⟨hclosed, Nat.le_trans h.size hext.size, new, hsame.trans hnew, ?_⟩
  have hsameView : shared.view w'.heap = shared.view w.heap :=
    hext.view_eq h.closed (Shared.free_datum (Seal.beyond_eq_none.2 (Nat.lt_of_lt_of_le hshared h.size)))
  rw [hsameView, hview]

theorem ShowsLast.trans (h : ShowsLast tag shared u w) (h' : ShowsLast tag shared w w') :
    ShowsLast tag shared u w' := by
  obtain ⟨new, hnew, hview⟩ := h.shown
  obtain ⟨new', hnew', hview'⟩ := h'.shown
  refine ⟨h'.closed, Nat.le_trans h.size h'.size, new' ++ new, ?_, ?_⟩
  · rw [hnew', hnew, List.append_assoc]
  · rw [hview', hview, List.head?_append]
    cases new'.head? <;> rfl

section

variable {m : Type → Type u} [Performs World m] [Mannerly World Datum m] {f : Flow m}

omit [Performs World m] [Mannerly World Datum m] in
theorem contextsShown_tell (call : HookCall) (w : World) : contextsShown tag (f.tell call w).2.journal =
    contextsShown tag ((f.listeners.filter fun l => l.1 = call.hook).map fun l => Event.told l.2.tag call).reverse ++
      contextsShown tag w.journal := by
  rw [Flow.tell_eq_modify, Act.modify, contextsShown, List.filterMap_append]
  rfl

omit [Performs World m] [Mannerly World Datum m] in
/-- Only the end of a visit shows a context. -/
theorem quiet_tell {call : HookCall} (hcall : call.hook ≠ .nodeEnd) (w : World) :
    (growing tag).quiet w (f.tell call w).2 := by
  refine fun hw => ⟨hw, .refl _, ?_⟩
  rw [contextsShown_tell, contextsShown, List.filterMap_eq_nil_iff.2, List.nil_append]
  intro e he
  obtain ⟨l, -, rfl⟩ := List.mem_map.1 (List.mem_reverse.1 he)
  cases call with
  | nodeEnd node label context => exact absurd rfl hcall
  | _ => rfl

theorem minds_tell {call : HookCall} (hcall : call.hook ≠ .nodeEnd) (w : World) :
    Mannerly.Minds (growing tag) .root w (Performs.perform (f.tell call) : m Unit) fun r w' =>
      r = .ok () ∧ (growing tag).quiet w w' :=
  Mannerly.perform ⟨may_of_quiet (quiet_tell hcall w), rfl, quiet_tell hcall w⟩

omit [Performs World m] [Mannerly World Datum m] in
/-- A listener that is told of the end of a visit is shown the context. -/
theorem head?_tell {l : Hook × Listener} (hl : l ∈ f.listeners) (hhook : l.1 = .nodeEnd) (htag : l.2.tag = tag)
    (node : String) (label context : Value) (w : World) :
    ∃ new, contextsShown tag (f.tell (.nodeEnd node label context) w).2.journal =
      new ++ contextsShown tag w.journal ∧ new.head? = some context := by
  refine ⟨_, contextsShown_tell _ w, ?_⟩
  have hall : ∀ c ∈ contextsShown tag ((f.listeners.filter fun l =>
      l.1 = (HookCall.nodeEnd node label context).hook).map fun l =>
        Event.told l.2.tag (.nodeEnd node label context)).reverse, c = context := by
    intro c hc
    obtain ⟨e, he, hshown⟩ := List.mem_filterMap.1 hc
    obtain ⟨l', -, rfl⟩ := List.mem_map.1 (List.mem_reverse.1 he)
    dsimp only at hshown
    split at hshown
    · exact (Option.some.inj hshown).symm
    · cases hshown
  have hmem : context ∈ contextsShown tag ((f.listeners.filter fun l =>
      l.1 = (HookCall.nodeEnd node label context).hook).map fun l =>
        Event.told l.2.tag (.nodeEnd node label context)).reverse := by
    refine List.mem_filterMap.2 ⟨.told l.2.tag (.nodeEnd node label context), ?_, if_pos htag⟩
    refine List.mem_reverse.2 (List.mem_map.2 ⟨l, List.mem_filter.2 ⟨hl, ?_⟩, rfl⟩)
    exact decide_eq_true hhook
  obtain ⟨first, rest, hcons⟩ := List.exists_cons_of_ne_nil (List.ne_nil_of_mem hmem)
  rw [hcons] at hall ⊢
  exact congrArg some (hall first List.mem_cons_self)

omit [Performs World m] [Mannerly World Datum m] in
theorem quietly_checkSteps (step : Nat) : Quietly tag n (f.checkSteps step) fun _ _ => True := by
  rw [Flow.checkSteps]
  split
  · exact .pure fun _ _ => trivial
  · refine .bind (quietly_faultable _) fun beyond _ _ _ => ?_
    split
    · exact quietly_fail _
    · exact .pure fun _ _ => trivial

theorem quietly_follow (node : Node) (label : Value) : Quietly tag n (node.follow label) fun o _ =>
    ∀ j, o = some j → ∃ l, Members.get? node.wiring l = some j := by
  refine .bind (P := fun o _ => ∀ j, o = some j → ∃ l, Members.get? node.wiring l = some j)
    (quietly_ofFault fun o ho _ _ j hj => Node.get?_of_next? (hj ▸ ho)) fun o k hk ho => ?_
  cases o with
  | some j => exact .pure fun _ _ => ho
  | none =>
    dsimp only
    split
    · exact .bind (quietly_note _) fun _ _ _ _ => .pure fun _ _ => nofun
    · exact .pure fun _ _ => nofun

/-- What quiet work is followed by begins where it began. -/
theorem ShowsLast.after {x : m α} {next : α → m β} {P : α → Nat → Prop} {Q : Except Failure β → World → Prop}
    (h : ShowsLast tag shared u w) (hshared : shared.data < u.heap.cells.size)
    (hx : Quietly tag u.heap.cells.size x P)
    (hok : ∀ a w', ShowsLast tag shared u w' → P a w'.heap.cells.size →
      Mannerly.Minds (growing tag) .root w' (next a) Q)
    (herror : ∀ e w', ShowsLast tag shared u w' → Q (.error e) w') :
    Mannerly.Minds (growing tag) .root w (x >>= next) Q :=
  Mannerly.bind (hx .root w h.size h.closed)
    (fun a w' hquiet => hok a w' (h.of_quiet hshared hquiet.1) (hquiet.2 a rfl))
    fun e w' hquiet => herror e w' (h.of_quiet hshared hquiet.1)

/-- How a walk ends: the context shows what was shown last, or the failure is blamed on something else. -/
def Untouched (tag : String) (blamed : Failure → Prop) (shared : Shared) (u : World) (r : Except Failure Datum)
    (w : World) : Prop :=
  ShowsLast tag shared u w ∨ ∃ e, r = .error e ∧ blamed e

/-- A visit that fails is told of, and then either the context is as it was or something else is to blame. -/
theorem minds_visited {visit : m Datum} (node : Node) (hw : ShowsLast tag shared u w)
    (hshared : shared.data < u.heap.cells.size) (hvisit : Spares tag blamed u.heap.cells.size visit) :
    Mannerly.Minds (growing tag) .root w (tryCatch visit fun e => do
        Performs.perform (f.tell (.nodeError node.name e))
        throw e : m Datum) fun r w' =>
      (∀ d, r = .ok d → w'.heap.Closed ∧ w.heap.cells.size ≤ w'.heap.cells.size ∧
        contextsShown tag w'.journal = contextsShown tag w.journal ∧ d.Free (.beyond w'.heap.cells.size)) ∧
      ∀ e, r = .error e → Untouched tag blamed shared u r w' := by
  refine Mannerly.tryCatch (hvisit w hw.size hw.closed) ?_ ?_
  · rintro d w' ⟨hclosed, hsize, hshown, hd, -⟩
    exact ⟨fun d' hd' => ⟨hclosed, hsize, hshown, hd d' hd'⟩, nofun⟩
  · rintro e w' ⟨hclosed, hsize, -, -, he⟩
    have hlater : ∀ w'', (growing tag).quiet w' w'' → Untouched tag blamed shared u (.error e) w'' := by
      intro w'' hquiet'
      rcases he e rfl with hquiet | hblamed
      · exact Or.inl ((hw.of_quiet hshared hquiet).of_quiet hshared hquiet')
      · exact Or.inr ⟨e, rfl, hblamed⟩
    have herror : (HookCall.nodeError node.name e).hook ≠ .nodeEnd := nofun
    refine Mannerly.bind (minds_tell herror w') ?_ fun _ _ h => nomatch h.1
    rintro _ w'' ⟨-, hquiet⟩
    exact Mannerly.throw ⟨nofun, fun _ _ => hlater w'' hquiet⟩

/-- Behind a visit the context is shown, and it shows what was shown. -/
theorem minds_shown {l : Hook × Listener} (hl : l ∈ f.listeners) (hhook : l.1 = .nodeEnd) (htag : l.2.tag = tag)
    (node : String) (label : Value) (hw : ShowsLast tag shared u w) (hclosed : w'.heap.Closed)
    (hsize : w.heap.cells.size ≤ w'.heap.cells.size)
    (hsame : contextsShown tag w'.journal = contextsShown tag w.journal) {next : m β}
    {Q : Except Failure β → World → Prop}
    (hnext : ∀ w'', ShowsLast tag shared u w'' → Mannerly.Minds (growing tag) .root w'' next Q) :
    Mannerly.Minds (growing tag) .root w' (do
      let context ← Performs.perform (Act.reads fun (w : World) => shared.view w.heap)
      Performs.perform (f.tell (.nodeEnd node label context))
      next : m β) Q := by
  refine Mannerly.bind (P := fun r w'' => r = .ok (shared.view w'.heap) ∧ w'' = w')
    (Mannerly.perform ⟨may_refl _ _ _, rfl, rfl⟩) ?_ fun _ _ h => nomatch h.1
  rintro context w'' ⟨hcontext, rfl⟩
  obtain rfl := Except.ok.inj hcontext
  obtain ⟨new, hnew, hhead⟩ := head?_tell hl hhook htag node label (shared.view w''.heap) w''
  obtain ⟨old, hold, -⟩ := hw.shown
  have hshown : ShowsLast tag shared u (f.tell (.nodeEnd node label (shared.view w''.heap)) w'').2 := by
    refine ⟨hclosed, Nat.le_trans hw.size hsize, new ++ old, ?_, ?_⟩
    · rw [hnew, hsame, hold, List.append_assoc]
    · rw [List.head?_append, hhead]
      rfl
  refine Mannerly.bind (P := fun r w₁ => r = .ok () ∧ ShowsLast tag shared u w₁)
    (Mannerly.perform ⟨fun _ => ⟨hclosed, Nat.le_refl _, ?_⟩, rfl, hshown⟩) ?_ fun _ _ h => nomatch h.1
  · exact ⟨new, hnew.symm⟩
  · rintro _ w₁ ⟨-, hw₁⟩
    exact hnext w₁ hw₁

/-- A walk whose visits spare what was there. By induction on how many visits are left: before each of them the
context shows what was shown last. -/
theorem minds_walk {g : Graph} {visit : Nat → m Datum} {count : Nat} {l : Hook × Listener}
    (hl : l ∈ f.listeners) (hhook : l.1 = .nodeEnd) (htag : l.2.tag = tag)
    (hshared : shared.data < u.heap.cells.size)
    (hnodes : ∀ i < count, ∀ node, g[i]? = some node → ∀ l j, Members.get? node.wiring l = some j → j < count)
    (hvisit : ∀ i < count, Spares tag blamed u.heap.cells.size (visit i)) (fuel step i : Nat) (hi : i < count)
    {w : World} (hw : ShowsLast tag shared u w) :
    Mannerly.Minds (growing tag) .root w (f.walk g shared visit fuel step i) (Untouched tag blamed shared u) := by
  induction fuel generalizing step i w with
  | zero => exact Mannerly.throw (Or.inl hw)
  | succ fuel ih =>
    rw [Flow.walk]
    cases hnode : g[i]? with
    | none => exact Mannerly.throw (Or.inl hw)
    | some node =>
      dsimp only
      refine hw.after hshared (.perform (quietly_checkSteps step)) (fun _ w₁ hw₁ _ => ?_) fun _ _ h => Or.inl h
      have hstart : (HookCall.nodeStart node.name).hook ≠ .nodeEnd := by simp [HookCall.hook]
      refine Mannerly.bind (minds_tell hstart w₁) ?_ fun _ _ h => by cases h.1
      rintro _ w₂ ⟨-, hquiet⟩
      have hw₂ := hw₁.of_quiet hshared hquiet
      refine Mannerly.bind (minds_visited node hw₂ hshared (hvisit i hi)) ?_ fun e w₃ h => h.2 e rfl
      rintro label w₃ ⟨hok, -⟩
      obtain ⟨hclosed, hsize, hsame, -⟩ := hok label rfl
      refine Mannerly.bind (P := fun r w₄ => r = .ok (w₃.heap.view label) ∧ w₄ = w₃)
        (Mannerly.perform ⟨may_refl _ _ _, rfl, rfl⟩) ?_ fun _ _ h => by cases h.1
      rintro shown _ ⟨-, rfl⟩
      refine minds_shown hl hhook htag node.name shown hw₂ hclosed hsize hsame fun w₅ hw₅ => ?_
      refine hw₅.after hshared (.perform (quietly_follow node shown)) (fun o w₆ hw₆ ho => ?_) fun _ _ h => Or.inl h
      cases o with
      | some j =>
        obtain ⟨l, hj⟩ := ho j rfl
        exact ih (step + 1) j (hnodes i hi node hnode l j hj) hw₆
      | none =>
        have hflow : (HookCall.flowEnd (step + 1)).hook ≠ .nodeEnd := by simp [HookCall.hook]
        refine Mannerly.bind (minds_tell hflow w₆) ?_ fun _ _ h => by cases h.1
        rintro _ w₇ ⟨-, hquiet₇⟩
        exact Mannerly.pure (Or.inl (hw₆.of_quiet hshared hquiet₇))

/-- A flow that does nothing but walk leaves the context as its walk does. -/
theorem minds_runOnce {g : Graph} {plan : FlowPlan} {visit : Scene → Nat → m Datum} {count first fuel : Nat}
    {scene : Scene} {l : Hook × Listener} (hl : l ∈ plan.listeners) (hhook : l.1 = .nodeEnd) (htag : l.2.tag = tag)
    (hstart : plan.start = some first) (hfirst : first < count) (hu : u.heap.Closed)
    (hs : scene.Free (.beyond u.heap.cells.size))
    (hnodes : ∀ i < count, ∀ node, g[i]? = some node → ∀ l j, Members.get? node.wiring l = some j → j < count)
    (hvisit : ∀ s k, u.heap.cells.size ≤ k → s.Free (.beyond k) → ∀ i < count, Spares tag blamed k (visit s i)) :
    Mannerly.Minds (growing tag) .root u ((Flow.plain plan).runOnce g visit fuel scene)
      (Untouched tag blamed scene.shared u) := by
  have hshared : scene.shared.data < u.heap.cells.size := Seal.beyond_eq_none.1 hs.data
  refine Mannerly.bind (P := fun r w => r = .ok .null ∧ w = u) (Mannerly.pure ⟨rfl, rfl⟩) ?_ fun _ _ h => by cases h.1
  rintro _ _ ⟨-, rfl⟩
  refine Mannerly.bind (P := Untouched tag blamed scene.shared _) ?_ (fun d w h => Mannerly.pure h) fun _ _ h => h
  refine (ShowsLast.refl hu).after hshared (P := fun ms k => ∀ m ∈ ms, m.2.Free (.beyond k))
    (.perform (quietly_reads fun w hn hw => hw.apart.membersAt (hs.later hn).params)) (fun params w hw hparams => ?_)
    fun _ _ h => Or.inl h
  have hplan : (Flow.plain plan : Flow m).start = some first := hstart
  rw [Flow.traverse, hplan]
  -- the walk has parameters of its own, in a new cell; what was shown before is shown behind it
  have hcell : Cell.Free (.beyond w.heap.cells.size) (.dict params) := Cell.free_dict.2 hparams
  refine Mannerly.bind (P := fun r w' => r = .ok w.heap.cells.size ∧ w'.heap = (w.heap.alloc (.dict params)).2 ∧
      (growing tag).quiet w w') (Mannerly.perform ?_) ?_ fun _ _ h => by cases h.1
  · have hquiet : (growing tag).quiet w { w with heap := (w.heap.alloc (.dict params)).2 } :=
      fun hclosed => ⟨hclosed.alloc hcell, Heap.extends_alloc _ _, rfl⟩
    exact ⟨may_of_quiet hquiet, rfl, rfl, hquiet⟩
  · rintro cell w' ⟨hcell, hheap, hquiet⟩
    obtain rfl := Except.ok.inj hcell
    have hw' := hw.of_quiet hshared hquiet
    have hlt : w.heap.cells.size < w'.heap.cells.size := by
      rw [hheap, Heap.size_alloc]
      exact Nat.lt_succ_self _
    have hscene : Scene.Free (.beyond w'.heap.cells.size) ⟨scene.shared, w.heap.cells.size⟩ :=
      ⟨(hs.later hw'.size).data, Seal.beyond_eq_none.2 hlt⟩
    refine Mannerly.mono (minds_walk (f := Flow.plain plan) hl hhook htag (Nat.lt_of_lt_of_le hshared hw'.size) hnodes
      (hvisit _ _ hw'.size hscene) fuel 0 first hfirst (.refl hw'.closed)) fun r v h => ?_
    exact h.imp_left hw'.trans

end

/-! ## 3. Runs -/

theorem spares_perform {m : Type → Type u} [Performs World m] [Mannerly World Datum m] {x : Act World Datum}
    (hx : Spares tag blamed n x) : Spares tag blamed n (Performs.perform x : m Datum) :=
  fun w hn hw => Mannerly.perform (hx w hn hw)

variable {g : Graph} {i : Nat} {scene : Scene}

/-- A visit at once spares what was there, as the conduct of its node does. -/
theorem spares_visit (hconduct : ∀ node, g[i]? = some node → SparesConduct tag blamed n scene node.conduct)
    (fuel : Nat) : Spares tag blamed n (g.visit fuel scene i) := by
  cases fuel with
  | zero => exact Quietly.spares (quietly_fail _)
  | succ fuel =>
    rw [Graph.visit]
    cases hnode : g[i]? with
    | none => exact Quietly.spares (quietly_fail _)
    | some node =>
      have hspares := hconduct node hnode
      rw [Option.map_some]
      cases hc : node.conduct with
      | blocking visit =>
        rw [hc] at hspares
        exact hspares
      | cooperative visit => exact Quietly.spares (quietly_fail _)
      | flow each f =>
        rw [hc] at hspares
        exact hspares.elim
      | cooperativeFlow fan f => exact Quietly.spares (quietly_fail _)

theorem spares_visitWaiting (hconduct : ∀ node, g[i]? = some node → SparesConduct tag blamed n scene node.conduct)
    (fuel : Nat) : Spares tag blamed n (g.visitWaiting fuel scene i) := by
  cases fuel with
  | zero => exact Quietly.spares (.throw _)
  | succ fuel =>
    have hat := spares_perform (m := Coop World Datum) (spares_visit hconduct (fuel + 1))
    rw [Graph.visitWaiting]
    cases hnode : g[i]? with
    | none => exact hat
    | some node =>
      have hspares := hconduct node hnode
      rw [Option.map_some]
      cases hc : node.conduct with
      | blocking visit => exact hat
      | cooperative visit =>
        rw [hc] at hspares
        exact hspares
      | flow each f => exact hat
      | cooperativeFlow fan f =>
        rw [hc] at hspares
        exact hspares.elim

variable {c : Compiled} {plan : FlowPlan} {params : Addr} {first : Nat} {l : Hook × Listener} {b : Graph.Bounds}

/-- A compiled graph whose nodes spare what was there leaves the context as it was shown last, unless it fails with
a failure that is blamed on something else, or meets a bound. -/
theorem untouched_run (hwalks : c.Walks plan params) (hstart : plan.start = some first) (hfirst : first < c.flow)
    (hl : l ∈ plan.listeners) (hhook : l.1 = .nodeEnd) (htag : l.2.tag = tag) (hu : u.heap.Closed)
    (hs : Scene.Free (.beyond u.heap.cells.size) ⟨shared, params⟩)
    (hwiring : ∀ (i : Nat) (node : Node), c.nodes[i]? = some node → ∀ l j,
      Members.get? node.wiring l = some j → j < c.flow)
    (hconduct : ∀ s k, u.heap.cells.size ≤ k → s.Free (.beyond k) → ∀ (i : Nat) (node : Node),
      c.nodes[i]? = some node → SparesConduct tag blamed k s node.conduct) :
    (c.runWithin b shared u).1 = .error .exhausted ∨
      Untouched tag blamed shared u (c.runWithin b shared u).1 (c.runWithin b shared u).2 := by
  have hget : ∀ i < c.flow, ∀ node, c.graph[i]? = some node → c.nodes[i]? = some node := fun i hi node h =>
    (hwalks.node hi).symm.trans h
  have hnodes : ∀ i < c.flow, ∀ node, c.graph[i]? = some node →
      ∀ l j, Members.get? node.wiring l = some j → j < c.flow :=
    fun i hi node h => hwiring i node (hget i hi node h)
  have hshared : shared.data < u.heap.cells.size := Seal.beyond_eq_none.1 hs.data
  cases hcooperative : c.nodes.any Node.isCooperative with
  | false =>
    rw [hwalks.runWithin_blocking hcooperative]
    cases b.visits with
    | zero => exact Or.inl rfl
    | succ fuel =>
      refine Or.inr (minds_runOnce (m := Act World) hl hhook htag hstart hfirst hu hs hnodes ?_).2
      intro s k hk hs i hi
      exact spares_visit (fun node hnode => hconduct s k hk hs i node (hget i hi node hnode)) fuel
  | true =>
    rw [hwalks.runWithin_waiting hcooperative]
    -- when the run begins others may have gone on, and when it has ended they may go on still
    have hminds : ∀ u', (growing tag).quiet u u' → Coop.Minds (growing tag) .root u'
        (c.graph.startWithin b c.flow shared) (Untouched tag blamed shared u) := by
      intro u' hquiet
      have hu' : ShowsLast tag shared u u' := (ShowsLast.refl hu).of_quiet hshared hquiet
      have hs' := hs.later hu'.size
      rw [hwalks.startWithin_eq hcooperative]
      refine Coop.Minds.bind (P := fun r w => r = .ok () ∧ w = u') (.ofAct ⟨may_refl _ _ _, rfl, rfl⟩) ?_
        fun _ _ h => nomatch h.1
      rintro _ _ ⟨-, rfl⟩
      cases b.visits with
      | zero => exact .done (Or.inl hu')
      | succ fuel =>
        refine Coop.Minds.mono (minds_runOnce (m := Coop World Datum) hl hhook htag hstart hfirst hu'.closed hs' hnodes
          fun s k hk hs i hi => ?_) fun r v h => h.imp_left hu'.trans
        exact spares_visitWaiting (fun node hnode =>
          hconduct s k (Nat.le_trans hu'.size hk) hs i node (hget i hi node hnode)) fuel
    obtain ⟨-, hend⟩ := Coop.Minds.run hminds b.rounds
    refine hend.imp_right ?_
    rintro ⟨v, huntouched, hquiet⟩
    exact huntouched.imp_left fun h => h.of_quiet hshared hquiet

end Growth

namespace Compiler

open Growth

/-- **A visit that fails before its end leaves the context untouched.** What the shared context shows after such a
run is what it showed when the visit before the failed one had ended, as a listener has been shown it, or what it
showed at the start, if the first visit has failed. -/
theorem context_of_failsBeforeEnd {env : Environment} {d : Value} {w w' u v : World} {limit : Value}
    {ls : List Listener} {b : Graph.Bounds} {shared : Shared} {e : Failure} (hw : w.heap.Closed)
    (hd : d.Free (.beyond w.heap.cells.size)) (hu : u.heap.Closed)
    (hlater : w'.heap.cells.size ≤ u.heap.cells.size) (henv : env.Grounded u.heap.cells.size)
    (hshared : shared.data < u.heap.cells.size) (hbound : e ≠ .exhausted)
    (hfails : FailsBeforeEnd env d w w' (fun c => (c.configured limit ls).runWithin b shared) u e v)
    {l : Listener} (hl : l ∈ ls) :
    (∃ c, (ofEnvironment env).compile d w = (.ok c, w') ∧
      (c.configured limit ls).runWithin b shared u = (.error e, v)) ∧
    ∃ new, contextsShown l.tag v.journal = new ++ contextsShown l.tag u.journal ∧
      shared.view v.heap = new.head?.getD (shared.view u.heap) := by
  refine ⟨hfails.run, ?_⟩
  -- under another name the failure would not be what it is
  obtain ⟨name, hname⟩ : ∃ name, name ≠ e := by
    by_cases he : e = .emptyKind
    · exact ⟨.undecodable, he ▸ nofun⟩
    · exact ⟨.emptyKind, Ne.symm he⟩
  obtain ⟨c, hcompile, hrun⟩ := hfails fun _ => name
  obtain ⟨flow, first, params, hc⟩ := reporting_of_compile hw hd hcompile
  obtain ⟨hwalks, hlike⟩ := hc.walks.configured limit ls
  have hlistener : (Hook.nodeEnd, l) ∈ (FlowPlan.configured ⟨flow, some first, .null, []⟩ limit ls).listeners := by
    rw [FlowPlan.configured, FlowPlan.foldl_listened]
    refine List.mem_append_right _ (List.mem_flatMap.2 ⟨l, hl, List.mem_map.2 ⟨.nodeEnd, by decide, rfl⟩⟩)
  have hparams : Seal.beyond u.heap.cells.size params = none :=
    Seal.beyond_eq_none.2 (Nat.lt_of_lt_of_le hc.params_lt hlater)
  have huntouched : ((c.configured limit ls).runWithin b shared u).1 = .error .exhausted ∨
      Untouched l.tag (fun e => ∃ _ : Failure, e = name) shared u _ _ := untouched_run hwalks
    (FlowPlan.start_configured _ _ _) (hlike.flow ▸ hc.first_lt) hlistener rfl rfl hu
    ⟨Seal.beyond_eq_none.2 hshared, hparams⟩
    (fun i node hnode l j hj => hlike.flow ▸ hc.wiring i node (hlike.nodes ▸ hnode) l j hj)
    fun s k hk hs i node hnode => by
      obtain ⟨kind, declared, policy, hcontent, hconduct⟩ := hc.conduct i node (hlike.nodes ▸ hnode)
      rw [hconduct]
      exact sparesConduct_reportingMake (henv.later hk) (Nat.lt_of_lt_of_le hcontent (Nat.le_trans hlater hk)) hs
        (fun _ => name) kind policy i
  have hrun' : (c.configured limit ls).runWithin b shared u = (.error e, v) := hrun
  rw [hrun'] at huntouched
  rcases huntouched with hexhausted | hshows | ⟨e', he', -, rfl⟩
  · exact absurd (Except.error.inj hexhausted) hbound
  · exact hshows.shown
  · exact absurd (Except.error.inj he').symm hname

/-- A router without cases leads on to a node that asks a model, and there is none. -/
def strandedPair : Value :=
  .ofMembers [("version", .str "pf-js/1.0"), ("entry", .str "a"),
    ("nodes", .ofList [
      .ofMembers [("id", .str "a"), ("kind", .str "router"), ("exec", .ofMembers [("cases", .ofList [])])],
      .ofMembers [("id", .str "b"), ("kind", .str "llm-call")]]),
    ("edges", .ofList [.ofMembers [("from", .str "a"), ("to", .str "b")]])]

theorem isJson_strandedPair : strandedPair.IsJson := by
  simp [strandedPair, Value.IsJson.str]

/-- The world behind the graph of the pair, with a new object as a context. -/
def strandedWorld : World :=
  let w' := ((ofEnvironment .bare).compile strandedPair .blank).2
  { w' with heap := (w'.heap.alloc (.dict [])).2 }

/-- The run of the pair in the new context, with a listener. -/
def strandedRun (c : Compiled) : Act World Datum :=
  (c.configured .null [⟨0, "ear", false⟩]).runWithin ⟨5, 5⟩ ⟨strandedWorld.heap.cells.size - 1, none⟩

set_option maxRecDepth 10000 in
/-- The second visit of the pair fails, and the context shows what was shown behind the first. -/
theorem context_of_failsBeforeEnd_strandedPair :
    ∃ c w' v new, (ofEnvironment .bare).compile strandedPair .blank = (.ok c, w') ∧
      strandedRun c strandedWorld = (.error (.missingCollaborator "llm" "b"), v) ∧
      contextsShown "ear" v.journal = new ++ contextsShown "ear" strandedWorld.journal ∧
      Shared.view ⟨strandedWorld.heap.cells.size - 1, none⟩ v.heap =
        new.head?.getD (Shared.view ⟨strandedWorld.heap.cells.size - 1, none⟩ strandedWorld.heap) := by
  let w' := ((ofEnvironment .bare).compile strandedPair .blank).2
  have hblank : World.blank.heap.Closed := fun a c h => by cases h
  have hd : strandedPair.Free (.beyond 0) := isJson_strandedPair.free _
  have hclosed : w'.heap.Closed := closed_compile _ hblank hd Datum.free_null
  -- none of the nodes reports anything, so the run is the same under all names
  let v : World := match ((ofEnvironment .bare).compile strandedPair .blank).1 with
    | .ok c => (strandedRun c strandedWorld).2
    | .error _ => strandedWorld
  have hfails : FailsBeforeEnd .bare strandedPair .blank w' strandedRun strandedWorld
      (.missingCollaborator "llm" "b") v := fun _ => ⟨_, rfl, rfl⟩
  have hlater : w'.heap.cells.size < strandedWorld.heap.cells.size := Nat.lt_succ_self _
  have hgrounded : Environment.bare.Grounded strandedWorld.heap.cells.size :=
    Environment.Discreet.grounded ⟨nofun, nofun, nofun, nofun⟩ fun a ha => absurd ha List.not_mem_nil
  have hbound : Failure.missingCollaborator "llm" "b" ≠ .exhausted := nofun
  obtain ⟨⟨c, hcompile, hrun⟩, new, hnew, hview⟩ := @context_of_failsBeforeEnd .bare strandedPair .blank w'
    strandedWorld v .null [⟨0, "ear", false⟩] ⟨5, 5⟩ ⟨strandedWorld.heap.cells.size - 1, none⟩ _ hblank hd
    (hclosed.alloc Cell.free_empty) (Nat.le_of_lt hlater) hgrounded hlater hbound hfails _
    (List.mem_singleton_self _)
  exact ⟨c, w', _, new, hcompile, hrun, hnew, hview⟩

end Compiler

end NodeFlow
