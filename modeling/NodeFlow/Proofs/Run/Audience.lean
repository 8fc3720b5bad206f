import NodeFlow.Proofs.Run.Listening
import NodeFlow.Proofs.Run.Lockstep
import NodeFlow.Run.Graph
import NodeFlow.Run.Stages
/-!
# Runs before another audience

Listeners come and go: those of flows, the observers of stores, the subscribers of the channel. Two runs that differ
in who listens do the same, step by step. What differs is only what those are told who listen to one of them.

Listeners are known by their tags here, since this is what the journal knows of them. A set of tags is kept: whoever
has one of them listens to both runs, in the same order. Nothing is known of the others, nor of who fails.

The awkward thing up front: the stages of a node are any actions, and an action could look at the journal or at the
subscribers. Those that do not are deaf, and a graph of deaf nodes cannot tell its audiences apart.
-/

set_option autoImplicit false

universe u

namespace NodeFlow

/-! ## 1. Who listens -/

/-- Whom an event reaches, if anybody. -/
def Event.recipient? : Event → Option String
  | .delivered d => some d.tag
  | .written w => some w.tag
  | .told tag _ => some tag
  | _ => none

/-- Does an event reach somebody whose tag is kept, or nobody in particular? -/
def Event.stays (keep : String → Bool) (e : Event) : Bool := e.recipient?.all keep

/-- The tags that are kept of some listeners, in their order. -/
def Listener.kept (keep : String → Bool) (ls : List Listener) : List String := (ls.map Listener.tag).filter keep

/-- The moments at which listeners whose tags are kept are told something. -/
def FlowPlan.kept (keep : String → Bool) (p : FlowPlan) : List (Hook × String) :=
  (p.listeners.map fun l => (l.1, l.2.tag)).filter fun l => keep l.2

/-- Two states of runs before two audiences. -/
structure World.Beside (keep : String → Bool) (w w' : World) : Prop where
  heap : w'.heap = w.heap
  limit : w'.channel.limit = w.channel.limit
  records : w'.channel.records = w.channel.records
  subscribers : Listener.kept keep w'.channel.subscribers = Listener.kept keep w.channel.subscribers
  memory : w'.memory = w.memory
  calls : w'.calls = w.calls
  journal : w'.journal.filter (Event.stays keep) = w.journal.filter (Event.stays keep)

/-- The same store before two audiences. -/
structure StoreInfo.Beside (keep : String → Bool) (info info' : StoreInfo) : Prop where
  name : info'.name = info.name
  schema : info'.schema = info.schema
  observers : Listener.kept keep info'.observers = Listener.kept keep info.observers

/-- The same context before two audiences. -/
structure Shared.Beside (keep : String → Bool) (s s' : Shared) : Prop where
  data : s'.data = s.data
  store : Option.Rel (StoreInfo.Beside keep) s.store s'.store

/-- The same scene before two audiences. -/
structure Scene.Beside (keep : String → Bool) (s s' : Scene) : Prop where
  shared : s.shared.Beside keep s'.shared
  params : s'.params = s.params

/-- The same plan of a flow before two audiences. -/
structure FlowPlan.Beside (keep : String → Bool) (p p' : FlowPlan) : Prop where
  name : p'.name = p.name
  start : p'.start = p.start
  limit : p'.limit = p.limit
  listeners : p'.kept keep = p.kept keep

section

variable {keep : String → Bool} {p : FlowPlan} {s : Shared} {w : World}

theorem FlowPlan.Beside.refl (keep : String → Bool) (p : FlowPlan) : p.Beside keep p := ⟨rfl, rfl, rfl, rfl⟩

theorem Listener.kept_newcomer {l : Listener} (hl : keep l.tag = false) (ls : List Listener) :
    Listener.kept keep (ls ++ [l]) = Listener.kept keep ls := by
  rw [Listener.kept, Listener.kept, List.map_append, List.filter_append]
  simp [hl]

/-- A subscriber comes whose tag is not kept. -/
theorem World.Beside.subscribe {l : Listener} (hl : keep l.tag = false) (w : World) :
    w.Beside keep { w with channel := w.channel.subscribe l } :=
  ⟨rfl, rfl, rfl, Listener.kept_newcomer hl _, rfl, rfl, rfl⟩

/-- An observer comes whose tag is not kept. -/
theorem Shared.Beside.observe {l : Listener} (hl : keep l.tag = false) (s : Shared) : s.Beside keep (s.observe l) := by
  obtain ⟨data, store⟩ := s
  refine ⟨rfl, ?_⟩
  cases store with
  | none => exact .none
  | some info => exact .some ⟨rfl, rfl, Listener.kept_newcomer hl _⟩

/-- Listeners come to a flow whose tags are not kept. -/
theorem FlowPlan.Beside.newcomers {ls : List (Hook × Listener)} (hls : ∀ l ∈ ls, keep l.2.tag = false) (p : FlowPlan) :
    p.Beside keep { p with listeners := p.listeners ++ ls } := by
  refine ⟨rfl, rfl, rfl, ?_⟩
  rw [FlowPlan.kept, FlowPlan.kept, List.map_append, List.filter_append, List.append_right_eq_self,
    List.filter_eq_nil_iff, List.forall_mem_map]
  exact fun l hl => Bool.eq_false_iff.1 (hls l hl)

end

/-- What runs before two audiences have in common: everything but what others are told. -/
def audiences (keep : String → Bool) : Pairing World Datum where
  state := World.Beside keep
  part := Eq
  root := Eq

section

variable {keep : String → Bool} {m : Type → Type u} [Performs World m] [Lockstep World Datum m] {α β : Type}

/-- The one computation does before one audience what the other does before another. -/
def Deaf (keep : String → Bool) (x y : m α) : Prop := Lockstep.Tracks (audiences keep) x y Eq

namespace Deaf

/-! ## 2. The rules -/

theorem pure (a : α) : Deaf keep (pure a : m α) (pure a) := Lockstep.pure rfl

theorem throw (e : Failure) : Deaf keep (throw e : m α) (throw e) := Lockstep.throw e

theorem bind {x y : m α} {f g : α → m β} (h : Deaf keep x y) (hfg : ∀ a, Deaf keep (f a) (g a)) :
    Deaf keep (x >>= f) (y >>= g) :=
  Lockstep.bind h fun a b hab => by
    cases hab
    exact hfg a

theorem tryCatch {x y : m α} {f g : Failure → m α} (h : Deaf keep x y) (hfg : ∀ e, Deaf keep (f e) (g e)) :
    Deaf keep (MonadExcept.tryCatch x f) (MonadExcept.tryCatch y g) :=
  Lockstep.tryCatch h hfg

theorem perform {x y : Act World α} (h : Deaf keep x y) :
    Deaf keep (Performs.perform x : m α) (Performs.perform y) :=
  Lockstep.perform h

end Deaf

end

theorem endsAlike_eq {ε α : Type} {r s : Except ε α} : EndsAlike Eq r s ↔ s = r := by
  constructor
  · intro h
    cases h with
    | ok h => rw [h]
    | error e => rfl
  · rintro rfl
    cases s with
    | ok a => exact .ok rfl
    | error e => exact .error e

namespace Deaf

variable {keep : String → Bool} {α β γ : Type}

theorem of_forall {x y : Act World α}
    (h : ∀ w w', w.Beside keep w' → (x w).2.Beside keep (y w').2 ∧ (y w').1 = (x w).1) : Deaf keep x y :=
  fun w w' hw => ⟨(h w w' hw).1, endsAlike_eq.2 (h w w' hw).2⟩

theorem apply {x y : Act World α} (h : Deaf keep x y) {w w' : World} (hw : w.Beside keep w') :
    (x w).2.Beside keep (y w').2 ∧ (y w').1 = (x w).1 :=
  ⟨(h w w' hw).1, endsAlike_eq.1 (h w w' hw).2⟩

/-! ## 3. Actions -/

theorem ends (r : Except Failure α) : Deaf keep (Act.ofExcept r : Act World α) (Act.ofExcept r) :=
  .of_forall fun _ _ hw => ⟨hw, rfl⟩

theorem fail (e : Failure) : Deaf keep (Act.fail e : Act World α) (Act.fail e) := ends (.error e)

theorem fault (r : Except Fault α) : Deaf keep (Act.ofFault r : Act World α) (Act.ofFault r) := ends _

theorem operands (r : Except OperandFault α) : Deaf keep (Act.ofOperands r : Act World α) (Act.ofOperands r) := ends _

theorem reads {f g : World → α} (h : ∀ w w', w.Beside keep w' → g w' = f w) : Deaf keep (Act.reads f) (Act.reads g) :=
  .of_forall fun w w' hw => ⟨hw, congrArg Except.ok (h w w' hw)⟩

/-- Whoever looks at nothing but memory is deaf. -/
theorem looks (f : Heap → α) : Deaf keep (Act.reads fun w : World => f w.heap) (Act.reads fun w => f w.heap) :=
  reads fun _ _ hw => congrArg f hw.heap

theorem view (d : Datum) : Deaf keep (World.view d) (World.view d) := looks fun h => h.view d

/-- So is whoever changes nothing but memory. -/
theorem changes (f : Heap → α × Heap) :
    Deaf keep (Act.update fun w : World => ((f w.heap).1, { w with heap := (f w.heap).2 }))
      (Act.update fun w => ((f w.heap).1, { w with heap := (f w.heap).2 })) :=
  .of_forall fun _ _ hw => ⟨{ hw with heap := congrArg (fun h => (f h).2) hw.heap },
    congrArg (fun h => Except.ok (f h).1) hw.heap⟩

theorem keeps (v : Value) : Deaf keep (World.keep v) (World.keep v) := changes fun h => h.keep v

theorem alloc (c : Cell) : Deaf keep (World.alloc c) (World.alloc c) :=
  changes fun h => (Datum.ref (h.alloc c).1, (h.alloc c).2)

theorem log (e : Event) : Deaf keep (World.log e) (World.log e) := by
  refine .of_forall fun w w' hw => ⟨{ hw with journal := ?_ }, rfl⟩
  show (e :: w'.journal).filter _ = (e :: w.journal).filter _
  rw [List.filter_cons, List.filter_cons, hw.journal]

theorem remember (node : Nat) (f : NodeMemory → NodeMemory) :
    Deaf keep (World.remember node f) (World.remember node f) :=
  .of_forall fun _ _ hw => ⟨{ hw with memory := congrArg (fun memory : Array NodeMemory =>
    memory.setIfInBounds node (f (memory.getD node .blank))) hw.memory }, rfl⟩

theorem memoryOf (node : Nat) :
    Deaf keep (Act.reads fun w : World => w.memoryOf node) (Act.reads fun w => w.memoryOf node) :=
  reads fun _ _ hw => congrArg (fun memory : Array NodeMemory => memory.getD node .blank) hw.memory

theorem countCall (line : Line) : Deaf keep (World.countCall line) (World.countCall line) :=
  .of_forall fun _ _ hw => ⟨{ hw with calls := congrArg (fun c : Calls => c.add line) hw.calls },
    congrArg (fun c : Calls => Except.ok (c.count line)) hw.calls⟩

/-- What is told to all listeners is told to those that are kept. -/
theorem filter_map_tag {f : String → Event} (hf : ∀ tag, (f tag).stays keep = keep tag) (ls : List Listener) :
    (ls.map fun l => f l.tag).filter (Event.stays keep) = (Listener.kept keep ls).map f := by
  rw [Listener.kept, List.filter_map, List.filter_map, List.map_map]
  exact congrArg (List.map _) (List.filter_congr fun l _ => hf l.tag)

theorem note (d : Diagnostic) : Deaf keep (World.note d) (World.note d) := by
  refine .of_forall fun w w' hw => ⟨⟨hw.heap, hw.limit, ?_, hw.subscribers, hw.memory, hw.calls, ?_⟩, rfl⟩
  · show Channel.newest w'.channel.limit _ = Channel.newest w.channel.limit _
    rw [hw.limit, hw.records]
  · have htold : ∀ c : Channel, ((c.emit d).2.map Event.delivered).filter (Event.stays keep) =
        (Listener.kept keep c.subscribers).map fun tag => Event.delivered ⟨tag, d⟩ := by
      intro c
      rw [Channel.emit_snd, List.map_map]
      exact filter_map_tag (f := fun tag => .delivered ⟨tag, d⟩) (fun _ => rfl) c.subscribers
    show List.filter _ (((w'.channel.emit d).2.map _).reverse ++ _) =
      List.filter _ (((w.channel.emit d).2.map _).reverse ++ _)
    rw [List.filter_append, List.filter_append, List.filter_reverse, List.filter_reverse, htold, htold, hw.subscribers,
      hw.journal]

theorem noteAll (ds : List Diagnostic) : Deaf keep (World.noteAll ds) (World.noteAll ds) := by
  induction ds with
  | nil => exact .pure ()
  | cons d ds ih => exact .bind (note d) fun _ => ih

theorem settle (x : Noted α) : Deaf keep (World.settle x) (World.settle x) :=
  .bind (noteAll x.notes) fun _ => fault x.result

end Deaf

/-! ## 4. Writes to the shared context -/

/-- The writes whose observers are kept. -/
def Ledger.kept (keep : String → Bool) (l : Ledger) : List Write := l.writes.filter fun w => keep w.tag

/-- The same ledger before two audiences. -/
structure Ledger.Beside (keep : String → Bool) (l l' : Ledger) : Prop where
  heap : l'.heap = l.heap
  writes : l'.kept keep = l.kept keep

namespace Shared.Beside

variable {keep : String → Bool} {s s' : Shared} {l l' : Ledger} {α : Type}

theorem datum (h : s.Beside keep s') : s'.datum = s.datum := by
  obtain ⟨data, store⟩ := s
  obtain ⟨data', store'⟩ := s'
  obtain ⟨rfl, hstore⟩ := h
  cases hstore with
  | none => rfl
  | some hinfo => exact congrArg (Datum.store _) hinfo.name

theorem view (h : s.Beside keep s') : s'.view = s.view := by
  funext g
  rw [Shared.view, Shared.view, h.datum]

theorem get? (h : s.Beside keep s') : s'.get? = s.get? := by
  funext g key
  rw [Shared.get?, Shared.get?, h.data]

theorem getPath? (h : s.Beside keep s') : s'.getPath? = s.getPath? := by
  funext g path
  rw [Shared.getPath?, Shared.getPath?, Shared.content, Shared.content, h.data]

theorem refusal? (h : s.Beside keep s') (key : String) (v : Value) : s'.refusal? key v = s.refusal? key v := by
  obtain ⟨data, store⟩ := s
  obtain ⟨data', store'⟩ := s'
  obtain ⟨rfl, hstore⟩ := h
  cases hstore with
  | none => rfl
  | some hinfo =>
    rw [Shared.refusal?, Shared.refusal?]
    dsimp only
    rw [hinfo.name, hinfo.schema]

theorem reports (h : s.Beside keep s') (g : Heap) (key : String) (old new : Datum) :
    (s'.reports g key old new).filter (fun w => keep w.tag) =
      (s.reports g key old new).filter fun w => keep w.tag := by
  obtain ⟨data, store⟩ := s
  obtain ⟨data', store'⟩ := s'
  obtain ⟨rfl, hstore⟩ := h
  cases hstore with
  | none => rfl
  | @some info info' hinfo =>
    have htold : ∀ info : StoreInfo,
        ((Shared.mk data' (some info)).reports g key old new).filter (fun w => keep w.tag) =
          (Listener.kept keep info.observers).map fun tag => ⟨tag, key, g.view old, g.view new⟩ := by
      intro info
      rw [Shared.reports_some, Listener.kept, List.filter_map, List.filter_map, List.map_map]
      rfl
    rw [htold, htold, hinfo.observers]

/-- Writing a key does the same before both audiences. -/
theorem set (h : s.Beside keep s') (hl : l.Beside keep l') (key : String) (d : Datum) :
    (s.set key d l).2.Beside keep (s'.set key d l').2 ∧ (s'.set key d l').1 = (s.set key d l).1 := by
  obtain ⟨g, ws⟩ := l
  obtain ⟨g', ws'⟩ := l'
  obtain ⟨rfl, hwrites⟩ := hl
  rw [Shared.set, Shared.set, h.refusal? key]
  cases s.refusal? key (Heap.view g' d) with
  | some e => exact ⟨⟨rfl, hwrites⟩, rfl⟩
  | none =>
    dsimp only
    rw [h.data, h.get?]
    refine ⟨⟨rfl, ?_⟩, rfl⟩
    rw [Ledger.kept, Ledger.kept] at hwrites ⊢
    dsimp only at hwrites ⊢
    rw [List.filter_append, List.filter_append, h.reports, hwrites]

theorem setPath (h : s.Beside keep s') (hl : l.Beside keep l') (path : String) (d : Datum) :
    (s.setPath path d l).2.Beside keep (s'.setPath path d l').2 ∧
      (s'.setPath path d l').1 = (s.setPath path d l).1 := by
  rw [Shared.setPath, Shared.setPath]
  match Path.segments path with
  | [] => exact ⟨hl, rfl⟩
  | [key] => exact h.set hl key d
  | key :: first :: rest =>
    have hlater : ∀ g : Heap, Ledger.Beside keep { l with heap := g } { l' with heap := g } :=
      fun _ => ⟨rfl, hl.writes⟩
    dsimp only
    rw [h.data, hl.heap]
    exact h.set (hlater _) _ _

end Shared.Beside

namespace Deaf

variable {keep : String → Bool} {α β γ : Type} {s s' : Scene}

theorem onShared {x y : Act Ledger α}
    (h : ∀ l l', l.Beside keep l' → (x l).2.Beside keep (y l').2 ∧ (y l').1 = (x l).1) :
    Deaf keep (World.onShared x) (World.onShared y) := by
  refine .of_forall fun w w' hw => ?_
  obtain ⟨hledger, hresult⟩ := h ⟨w.heap, []⟩ ⟨w'.heap, []⟩ ⟨hw.heap, rfl⟩
  have hkept : ∀ l : Ledger, (l.writes.map Event.written).filter (Event.stays keep) =
      (l.kept keep).map Event.written := fun l => List.filter_map
  refine ⟨{ hw with heap := hledger.heap, journal := ?_ }, hresult⟩
  show List.filter _ (((y ⟨w'.heap, []⟩).2.writes.map _).reverse ++ _) =
    List.filter _ (((x ⟨w.heap, []⟩).2.writes.map _).reverse ++ _)
  rw [List.filter_append, List.filter_append, List.filter_reverse, List.filter_reverse, hkept, hkept, hledger.writes,
    hw.journal]

theorem set (hs : s.Beside keep s') (key : String) (d : Datum) :
    Deaf keep (World.onShared (s.shared.set key d)) (World.onShared (s'.shared.set key d)) :=
  onShared fun _ _ hl => hs.shared.set hl key d

theorem setPath (hs : s.Beside keep s') (path : String) (d : Datum) :
    Deaf keep (World.onShared (s.shared.setPath path d)) (World.onShared (s'.shared.setPath path d)) :=
  onShared fun _ _ hl => hs.shared.setPath hl path d

/-! ## 5. Elements and objects -/

theorem elements (d : Datum) : Deaf keep (Elements.of d) (Elements.of d) := by
  refine .bind (view d) fun v => ?_
  split
  · exact .pure _
  · split <;> first | exact .pure _ | exact fail _

theorem at? (e : Elements) (i : Nat) : Deaf keep (e.at? i) (e.at? i) := by
  cases e with
  | live a => exact looks fun h => (h.itemsAt a)[i]?
  | fixed xs => exact .pure _

theorem all (e : Elements) : Deaf keep e.all e.all := by
  cases e with
  | live a => exact looks fun h => h.itemsAt a
  | fixed xs => exact .pure _

theorem pairOf (d : Datum) : Deaf keep (pairOf d) (pairOf d) := by
  refine .bind (view d) fun v => ?_
  dsimp only
  split <;> refine .bind ?_ fun parts => ?_
  -- some give parts, the others fail; a pair is made of two parts
  all_goals first
    | exact looks fun h => h.itemsAt _
    | exact .pure _
    | exact fail _
    | split <;> first | exact .pure _ | exact fail _

theorem pairsOf (ds : List Datum) : Deaf keep (pairsOf ds) (pairsOf ds) := by
  induction ds with
  | nil => exact .pure []
  | cons d ds ih => exact .bind (pairOf d) fun _ => .bind ih fun _ => .pure _

theorem membersOf (d : Datum) : Deaf keep (membersOf d) (membersOf d) := by
  refine .bind (view d) fun v => ?_
  split
  · exact looks fun h => h.membersAt _
  · exact looks fun h => h.membersAt _
  · exact .bind (elements d) fun e => .bind (all e) fun ds => .bind (pairsOf ds) fun _ => .pure _

/-! ## 6. Work -/

theorem pause (policy : RetryPolicy) (attempt : Nat) : Deaf keep (policy.pause attempt) (policy.pause attempt) := by
  refine .bind (fault _) fun v => .bind (fault _) fun positive => ?_
  split
  · split
    · exact .bind (fault _) fun seconds => log (.wait seconds)
    · exact .pure ()
  · exact .pure ()

section

variable {m : Type → Type u} [Performs World m] [Lockstep World Datum m]

theorem eachFrom {next : Nat → Act World (Option α)} (hnext : ∀ i, Deaf keep (next i) (next i)) {work work' : α → m β}
    (hwork : ∀ a, Deaf keep (work a) (work' a)) (fuel i : Nat) :
    Deaf keep (eachFrom next work fuel i) (eachFrom next work' fuel i) := by
  induction fuel generalizing i with
  | zero => exact .throw _
  | succ fuel ih =>
    refine .bind (.perform (hnext i)) fun found => ?_
    cases found with
    | none => exact .pure []
    | some a => exact .bind (hwork a) fun _ => .bind (ih (i + 1)) fun _ => .pure _

theorem eachOf (items : List α) {work work' : α → m β} (hwork : ∀ a, Deaf keep (work a) (work' a)) :
    Deaf keep (eachOf items work) (eachOf items work') := by
  induction items with
  | nil => exact .pure []
  | cons a items ih => exact .bind (hwork a) fun _ => .bind ih fun _ => .pure _

theorem retrying (policy : RetryPolicy) (idle : α) {work work' : Nat → m α} (hwork : ∀ k, Deaf keep (work k) (work' k))
    {fallback fallback' : Failure → m α} (hfallback : ∀ e, Deaf keep (fallback e) (fallback' e)) (left attempt : Nat) :
    Deaf keep (retrying policy idle work fallback left attempt)
      (retrying policy idle work' fallback' left attempt) := by
  -- the induction is on the tries that are left
  fun_induction NodeFlow.retrying policy idle work fallback left attempt with
  | case1 => exact .pure idle
  | case2 attempt => exact .tryCatch (hwork attempt) hfallback
  | case3 left attempt ih =>
    exact .tryCatch (hwork attempt) fun _ => .bind (.perform (pause policy attempt)) fun _ => ih

theorem working (policy : RetryPolicy) (node : Nat) (idle : α) {work work' : m α} (hwork : Deaf keep work work')
    {fallback fallback' : Failure → m α} (hfallback : ∀ e, Deaf keep (fallback e) (fallback' e)) :
    Deaf keep (working policy node idle work fallback) (working policy node idle work' fallback') :=
  .bind (.perform (fault _)) fun n =>
    retrying policy idle (fun _ => .bind (.perform (remember node _)) fun _ => hwork) hfallback n 1

theorem course {prep prep' : m α} {work work' : α → m β} {post post' : α → β → m Datum} (hprep : Deaf keep prep prep')
    (hwork : ∀ a, Deaf keep (work a) (work' a)) (hpost : ∀ a b, Deaf keep (post a b) (post' a b)) :
    Deaf keep (course prep work post) (course prep' work' post') :=
  .bind hprep fun a => .bind (hwork a) fun b => hpost a b

end

/-- Parts that are started together before two audiences. -/
theorem together {xs ys : List (Coop World Datum Datum)} (h : List.Forall₂ (Deaf keep) xs ys) :
    Deaf keep (Coop.together xs) (Coop.together ys) := by
  refine Coop.Tracks.gather h.length_eq (fun i x y hx hy => ?_) fun r s hrs => .done ?_
  · obtain ⟨hi, rfl⟩ := List.getElem?_eq_some_iff.1 hx
    obtain ⟨hi', rfl⟩ := List.getElem?_eq_some_iff.1 hy
    exact List.Forall₂.get h hi hi'
  · exact hrs.mono fun as bs has => List.forall₂_eq_eq_eq ▸ has

end Deaf

/-! ## 7. Stages -/

/-- The same stages of a visit before two audiences. -/
structure Stages.Beside (keep : String → Bool) {m : Type → Type u} [Performs World m] [Lockstep World Datum m]
    {α β : Type} (s s' : Stages m α β) : Prop where
  prep : Deaf keep s.prep s'.prep
  exec : ∀ b, Deaf keep (s.exec b) (s'.exec b)
  fallback : ∀ b e, Deaf keep (s.fallback b e) (s'.fallback b e)
  post : ∀ a d, Deaf keep (s.post a d) (s'.post a d)

namespace Stages.Beside

variable {keep : String → Bool} {α β : Type} {policy : RetryPolicy} {node : Nat}

section

variable {m : Type → Type u} [Performs World m] [Lockstep World Datum m] {s s' : Stages m α β}

theorem work (h : s.Beside keep s') (b : β) : Deaf keep (s.work policy node b) (s'.work policy node b) :=
  .working policy node Datum.null (h.exec b) (h.fallback b)

theorem once {s s' : Stages m α α} (h : s.Beside keep s') : Deaf keep (s.once policy node) (s'.once policy node) :=
  .course h.prep h.work h.post

theorem inOrder (h : s.Beside keep s') {elements : α → Act World (List β)}
    (helements : ∀ a, Deaf keep (elements a) (elements a)) :
    Deaf keep (s.inOrder policy node elements) (s'.inOrder policy node elements) :=
  .course h.prep (fun a => .bind (.perform (helements a)) fun items => .bind (.eachOf items h.work) fun _ =>
    .perform (.alloc _)) h.post

theorem inTurn (h : s.Beside keep s') {bound : Nat} {elements : α → Act World (Nat → Act World (Option β))}
    (helements : ∀ a, Lockstep.Tracks (audiences keep) (elements a) (elements a)
      fun f g => f = g ∧ ∀ i, Deaf keep (f i) (f i)) :
    Deaf keep (s.inTurn policy node bound elements) (s'.inTurn policy node bound elements) := by
  refine .course h.prep (fun a => ?_) h.post
  refine Lockstep.bind (Lockstep.perform (helements a)) ?_
  rintro next _ ⟨rfl, hnext⟩
  exact Deaf.bind (.eachFrom hnext h.work bound 0) fun _ => .perform (.alloc _)

end

theorem together {s s' : Stages (Coop World Datum) α β} (h : s.Beside keep s') {elements : α → Act World (List β)}
    (helements : ∀ a, Deaf keep (elements a) (elements a)) :
    Deaf keep (s.together policy node elements) (s'.together policy node elements) := by
  refine .course h.prep (fun a => .bind (.perform (helements a)) fun items => .bind (.together ?_) fun _ =>
    .perform (.alloc _)) h.post
  rw [List.forall₂_map_left_iff, List.forall₂_map_right_iff, List.forall₂_same]
  exact fun b _ => h.work b

end Stages.Beside

/-! ## 8. Graphs -/

/-- The same flow before two audiences: nobody else notices. -/
structure Flow.Beside (keep : String → Bool) {m : Type → Type u} [Performs World m] [Lockstep World Datum m]
    (f f' : Flow m) : Prop where
  plan : f.toFlowPlan.Beside keep f'.toFlowPlan
  prep : ∀ s s', s.Beside keep s' → Deaf keep (f.prep s) (f'.prep s')
  post : ∀ s s' a d, s.Beside keep s' → Deaf keep (f.post s a d) (f'.post s' a d)

/-- The same conduct before two audiences. -/
inductive Conduct.Beside (keep : String → Bool) : Conduct → Conduct → Prop
  | blocking {visit visit' : Scene → Act World Datum} :
    (∀ s s', s.Beside keep s' → Deaf keep (visit s) (visit' s')) → Beside keep (.blocking visit) (.blocking visit')
  | cooperative {visit visit' : Scene → Coop World Datum Datum} :
    (∀ s s', s.Beside keep s' → Deaf keep (visit s) (visit' s')) →
    Beside keep (.cooperative visit) (.cooperative visit')
  | flow (each : Bool) {f f' : Flow (Act World)} : f.Beside keep f' → Beside keep (.flow each f) (.flow each f')
  | cooperativeFlow (fan : Fan) {f f' : Flow (Coop World Datum)} : f.Beside keep f' →
    Beside keep (.cooperativeFlow fan f) (.cooperativeFlow fan f')

/-- The same node before two audiences. -/
structure Node.Beside (keep : String → Bool) (n n' : Node) : Prop where
  name : n'.name = n.name
  wiring : n'.wiring = n.wiring
  params : n'.params = n.params
  conduct : n.conduct.Beside keep n'.conduct

/-- The same graph before two audiences. -/
def Graph.Beside (keep : String → Bool) (g g' : Graph) : Prop := List.Forall₂ (Node.Beside keep) g g'

theorem Graph.Beside.node {keep : String → Bool} {g g' : Graph} (h : g.Beside keep g') (i : Nat) :
    Option.Rel (Node.Beside keep) g[i]? g'[i]? := by
  induction h generalizing i with
  | nil => exact .none
  | cons hn _ ih =>
    cases i with
    | zero => exact .some hn
    | succ i => exact ih i

theorem Node.Beside.follow {keep : String → Bool} {n n' : Node} (h : n.Beside keep n') (label : Value) :
    Deaf keep (n.follow label) (n'.follow label) := by
  have hnext : n'.next? label = n.next? label := by rw [Node.next?, Node.next?, h.wiring]
  have hnote : n'.endNote label = n.endNote label := by rw [Node.endNote, Node.endNote, h.name, h.wiring]
  rw [Node.follow, Node.follow, hnext, hnote, h.wiring]
  refine .bind (.fault _) fun found => ?_
  split
  · exact .pure _
  · split
    · exact .bind (.note _) fun _ => .pure _
    · exact .pure _

/-- Those that are kept are told the same of a flow. -/
theorem FlowPlan.Beside.told {keep : String → Bool} {p p' : FlowPlan} (h : p.Beside keep p') (call : HookCall) :
    ((p'.listeners.filter fun l => l.1 = call.hook).map fun l => Event.told l.2.tag call).filter (Event.stays keep) =
      ((p.listeners.filter fun l => l.1 = call.hook).map fun l =>
        Event.told l.2.tag call).filter (Event.stays keep) := by
  have htold : ∀ p : FlowPlan, ((p.listeners.filter fun l => l.1 = call.hook).map fun l =>
      Event.told l.2.tag call).filter (Event.stays keep) =
        ((p.kept keep).filter fun l => l.1 = call.hook).map fun l => Event.told l.2 call := by
    intro p
    rw [FlowPlan.kept, List.filter_map, List.filter_map, List.filter_map, List.map_map, List.filter_filter,
      List.filter_filter]
    refine congrArg _ (List.filter_congr fun l _ => ?_)
    exact Bool.and_comm _ _
  rw [htold, htold, h.listeners]

namespace Node.Beside

variable {keep : String → Bool} {n n' : Node}

theorem isCooperative (h : n.Beside keep n') : n'.isCooperative = n.isCooperative := by
  obtain ⟨-, -, -, hconduct⟩ := h
  rw [Node.isCooperative, Node.isCooperative]
  generalize n.conduct = v at hconduct
  generalize n'.conduct = v' at hconduct
  cases hconduct <;> rfl

theorem isFlow (h : n.Beside keep n') : n'.isFlow = n.isFlow := by
  obtain ⟨-, -, -, hconduct⟩ := h
  rw [Node.isFlow, Node.isFlow]
  generalize n.conduct = v at hconduct
  generalize n'.conduct = v' at hconduct
  cases hconduct <;> rfl

theorem noteIgnored (h : n.Beside keep n') (advice : String) :
    Deaf keep (Graph.noteIgnored n advice) (Graph.noteIgnored n' advice) := by
  have hnote : n'.ignoredNote advice = n.ignoredNote advice := by rw [Node.ignoredNote, Node.ignoredNote, h.name]
  rw [Graph.noteIgnored, Graph.noteIgnored, h.isFlow, h.wiring, hnote]
  split
  · exact .note _
  · exact .pure ()

end Node.Beside

section

variable {keep : String → Bool} {g g' : Graph} {m : Type → Type u} [Performs World m] [Lockstep World Datum m]
  {f f' : Flow m} {s s' : Scene}

namespace Flow.Beside

theorem tell (h : f.Beside keep f') (call : HookCall) : Deaf keep (f.tell call) (f'.tell call) := by
  rw [Flow.tell_eq_modify, Flow.tell_eq_modify]
  refine .of_forall fun w w' hw => ⟨{ hw with journal := ?_ }, rfl⟩
  show List.filter _ (List.reverse _ ++ _) = List.filter _ (List.reverse _ ++ _)
  rw [List.filter_append, List.filter_append, List.filter_reverse, List.filter_reverse, h.plan.told, hw.journal]

theorem checkSteps (h : f.Beside keep f') (step : Nat) : Deaf keep (f.checkSteps step) (f'.checkSteps step) := by
  rw [Flow.checkSteps, Flow.checkSteps, h.plan.limit]
  split
  · exact .pure ()
  · refine .bind (.fault _) fun beyond => ?_
    split
    · exact .fail _
    · exact .pure ()

theorem walk (h : f.Beside keep f') (hg : g.Beside keep g') {shared shared' : Shared} (hs : shared.Beside keep shared')
    {visit visit' : Nat → m Datum} (hvisit : ∀ i, Deaf keep (visit i) (visit' i)) (fuel step i : Nat) :
    Deaf keep (f.walk g shared visit fuel step i) (f'.walk g' shared' visit' fuel step i) := by
  induction fuel generalizing step i with
  | zero => exact .throw _
  | succ fuel ih =>
    have hnode := hg.node i
    rw [Flow.walk, Flow.walk]
    generalize g[i]? = n at hnode
    generalize g'[i]? = n' at hnode
    cases hnode with
    | none => exact .throw _
    | @some n n' hn =>
      dsimp only
      rw [hn.name, hs.view]
      refine .bind (.perform (h.checkSteps step)) fun _ => .bind (.perform (h.tell _)) fun _ => ?_
      refine .bind (.tryCatch (hvisit i) fun e => .bind (.perform (h.tell _)) fun _ => .throw e) fun label => ?_
      refine .bind (.perform (.view label)) fun shown => .bind (.perform (.looks _)) fun context => ?_
      refine .bind (.perform (h.tell _)) fun _ => .bind (.perform (hn.follow shown)) fun next => ?_
      cases next with
      | none => exact .bind (.perform (h.tell _)) fun _ => .pure label
      | some next => exact ih (step + 1) next

theorem traverse (h : f.Beside keep f') (hg : g.Beside keep g') {shared shared' : Shared}
    (hs : shared.Beside keep shared') {visit visit' : Scene → Nat → m Datum}
    (hvisit : ∀ s s' i, s.Beside keep s' → Deaf keep (visit s i) (visit' s' i)) (fuel : Nat) (params : Members Datum) :
    Deaf keep (f.traverse g shared visit fuel params) (f'.traverse g' shared' visit' fuel params) := by
  rw [Flow.traverse, Flow.traverse, h.plan.start, h.plan.name]
  cases f.start with
  | none => exact .throw _
  | some first =>
    refine .bind (.perform (.changes fun heap => heap.alloc (.dict params))) fun cell => ?_
    exact h.walk hg hs (fun i => hvisit ⟨shared, cell⟩ ⟨shared', cell⟩ i ⟨hs, rfl⟩) fuel 0 first

theorem runOnce (h : f.Beside keep f') (hg : g.Beside keep g') {visit visit' : Scene → Nat → m Datum}
    (hvisit : ∀ s s' i, s.Beside keep s' → Deaf keep (visit s i) (visit' s' i)) (fuel : Nat) (hs : s.Beside keep s') :
    Deaf keep (f.runOnce g visit fuel s) (f'.runOnce g' visit' fuel s') := by
  refine .course (h.prep _ _ hs) (fun _ => ?_) fun a d => h.post _ _ a d hs
  rw [Flow.paramsOf, Flow.paramsOf, hs.params]
  exact .bind (.perform (.looks fun heap => heap.membersAt s.params)) fun params =>
    h.traverse hg hs.shared hvisit fuel params

theorem batchOf (d : Datum) : Deaf keep (Flow.batchOf d) (Flow.batchOf d) := by
  refine .bind (.view d) fun v => ?_
  split
  · exact .pure d
  · exact .alloc _

theorem overlaid (hs : s.Beside keep s') (d : Datum) : Deaf keep (Flow.overlaid s d) (Flow.overlaid s' d) := by
  refine .of_forall fun w w' hw => ?_
  rw [Flow.overlaid, Flow.overlaid, hs.params, hw.heap]
  generalize w.heap.view d = v
  cases v with
  | dict cell ms => cases cell <;> exact ⟨hw, rfl⟩
  | _ => exact ⟨hw, rfl⟩

theorem runEach (h : f.Beside keep f') (hg : g.Beside keep g') {visit visit' : Scene → Nat → m Datum}
    (hvisit : ∀ s s' i, s.Beside keep s' → Deaf keep (visit s i) (visit' s' i)) (fuel : Nat) (hs : s.Beside keep s') :
    Deaf keep (f.runEach g visit fuel s) (f'.runEach g' visit' fuel s') := by
  refine .course (.bind (h.prep _ _ hs) fun d => .perform (batchOf d)) (fun batch => ?_) fun a d => h.post _ _ a d hs
  refine .bind (.perform (.elements batch)) fun elements => ?_
  refine .bind (.eachFrom (.at? elements) (fun d => ?_) fuel 0) fun _ => .pure _
  exact .bind (.perform (overlaid hs d)) fun params => h.traverse hg hs.shared hvisit fuel params

theorem runTogether {f f' : Flow (Coop World Datum)} (h : f.Beside keep f') (hg : g.Beside keep g')
    {visit visit' : Scene → Nat → Coop World Datum Datum}
    (hvisit : ∀ s s' i, s.Beside keep s' → Deaf keep (visit s i) (visit' s' i)) (fuel : Nat) (hs : s.Beside keep s') :
    Deaf keep (f.runTogether g visit fuel s) (f'.runTogether g' visit' fuel s') := by
  refine .course (.bind (h.prep _ _ hs) fun d => .perform (batchOf d)) (fun batch => ?_) fun a d => h.post _ _ a d hs
  refine .bind (.perform (.bind (.elements batch) .all)) fun items => ?_
  refine .bind (.perform (.eachOf items (overlaid hs))) fun overlays => .bind (.together ?_) fun _ => .pure _
  rw [List.forall₂_map_left_iff, List.forall₂_map_right_iff, List.forall₂_same]
  exact fun params _ => h.traverse hg hs.shared hvisit fuel params

end Flow.Beside

/-- What is started in several contexts is run together before two audiences. -/
theorem Deaf.runAll {start start' : Shared → Coop World Datum Datum}
    (hstart : ∀ s s', s.Beside keep s' → Deaf keep (start s) (start' s')) {contexts contexts' : List Shared}
    (hs : List.Forall₂ (Shared.Beside keep) contexts contexts') (rounds : Nat) :
    Deaf keep
      ((Coop.together (contexts.map start) >>= fun labels => Coop.ofAct (World.alloc (.list labels)) :
        Coop World Datum Datum).run rounds)
      ((Coop.together (contexts'.map start') >>= fun labels => Coop.ofAct (World.alloc (.list labels)) :
        Coop World Datum Datum).run rounds) := by
  have htogether : Deaf keep (Coop.together (contexts.map start)) (Coop.together (contexts'.map start')) := by
    refine .together ?_
    rw [List.forall₂_map_left_iff, List.forall₂_map_right_iff]
    exact hs.imp fun s s' hs => hstart s s' hs
  exact Coop.Tracks.run (Deaf.bind (m := Coop World Datum) htogether fun labels => .perform (.alloc _)) rounds

namespace Graph.Beside

/-- A node is visited before two audiences. -/
theorem visit (h : g.Beside keep g') (fuel : Nat) (s s' : Scene) (i : Nat) (hs : s.Beside keep s') :
    Deaf keep (g.visit fuel s i) (g'.visit fuel s' i) := by
  induction fuel generalizing s s' i with
  | zero => exact .fail _
  | succ fuel ih =>
    have hnode := h.node i
    rw [Graph.visit, Graph.visit]
    generalize g[i]? = n at hnode
    generalize g'[i]? = n' at hnode
    cases hnode with
    | none => exact .fail _
    | @some n n' hn =>
      obtain ⟨-, -, -, hconduct⟩ := hn
      rw [Option.map_some, Option.map_some]
      generalize n.conduct = v at hconduct
      generalize n'.conduct = v' at hconduct
      cases hconduct with
      | blocking hvisit => exact hvisit s s' hs
      | cooperative | cooperativeFlow => exact .fail _
      | flow each hf =>
        cases each with
        | false => exact hf.runOnce h ih fuel hs
        | true => exact hf.runEach h ih fuel hs

theorem visitWaiting (h : g.Beside keep g') (fuel : Nat) (s s' : Scene) (i : Nat) (hs : s.Beside keep s') :
    Deaf keep (g.visitWaiting fuel s i) (g'.visitWaiting fuel s' i) := by
  induction fuel generalizing s s' i with
  | zero => exact .throw _
  | succ fuel ih =>
    have hatOnce : Deaf keep (Coop.ofAct (g.visit (fuel + 1) s i) : Coop World Datum Datum)
        (Coop.ofAct (g'.visit (fuel + 1) s' i)) := .perform (h.visit (fuel + 1) s s' i hs)
    have hnode := h.node i
    rw [Graph.visitWaiting, Graph.visitWaiting]
    generalize g[i]? = n at hnode
    generalize g'[i]? = n' at hnode
    cases hnode with
    | none => exact hatOnce
    | @some n n' hn =>
      obtain ⟨-, -, -, hconduct⟩ := hn
      rw [Option.map_some, Option.map_some]
      generalize n.conduct = v at hconduct
      generalize n'.conduct = v' at hconduct
      cases hconduct with
      | blocking | flow => exact hatOnce
      | cooperative hvisit => exact hvisit s s' hs
      | cooperativeFlow fan hf =>
        cases fan with
        | once => exact hf.runOnce h ih fuel hs
        | inTurn => exact hf.runEach h ih fuel hs
        | together => exact hf.runTogether h ih fuel hs

/-! ## 9. Runs -/

theorem startWithin (h : g.Beside keep g') (b : Graph.Bounds) (i : Nat) {s s' : Shared} (hs : s.Beside keep s') :
    Deaf keep (g.startWithin b i s) (g'.startWithin b i s') := by
  have hnode := h.node i
  rw [Graph.startWithin, Graph.startWithin]
  generalize g[i]? = n at hnode
  generalize g'[i]? = n' at hnode
  cases hnode with
  | none => exact .throw _
  | @some n n' hn =>
    dsimp only
    rw [hn.isCooperative]
    split
    · exact .bind (.perform (hn.noteIgnored _)) fun _ => h.visitWaiting _ _ _ i ⟨hs, hn.params⟩
    · exact .throw _

theorem runWaitingWithin (h : g.Beside keep g') (b : Graph.Bounds) (i : Nat) {s s' : Shared} (hs : s.Beside keep s') :
    Deaf keep (g.runWaitingWithin b i s) (g'.runWaitingWithin b i s') :=
  Coop.Tracks.run (h.startWithin b i hs) b.rounds

theorem runWithin (h : g.Beside keep g') (b : Graph.Bounds) (i : Nat) {s s' : Shared} (hs : s.Beside keep s') :
    Deaf keep (g.runWithin b i s) (g'.runWithin b i s') := by
  have hnode := h.node i
  rw [Graph.runWithin, Graph.runWithin]
  generalize g[i]? = n at hnode
  generalize g'[i]? = n' at hnode
  cases hnode with
  | none => exact .fail _
  | @some n n' hn =>
    dsimp only
    rw [hn.isFlow, hn.isCooperative]
    split
    · exact h.runWaitingWithin b i hs
    · exact .bind (hn.noteIgnored _) fun _ => h.visit _ _ _ i ⟨hs, hn.params⟩

theorem any_isCooperative (h : g.Beside keep g') (i : Nat) :
    g'[i]?.any Node.isCooperative = g[i]?.any Node.isCooperative := by
  have hnode := h.node i
  generalize g[i]? = n at hnode
  generalize g'[i]? = n' at hnode
  cases hnode with
  | none => rfl
  | some hn => exact hn.isCooperative

theorem runTogetherWithin (h : g.Beside keep g') (b : Graph.Bounds) (i : Nat) {contexts contexts' : List Shared}
    (hs : List.Forall₂ (Shared.Beside keep) contexts contexts') :
    Deaf keep (g.runTogetherWithin b i contexts) (g'.runTogetherWithin b i contexts') := by
  have hempty : contexts'.isEmpty = contexts.isEmpty := by cases hs <;> rfl
  rw [Graph.runTogetherWithin, Graph.runTogetherWithin, h.any_isCooperative, hempty]
  split
  · exact Deaf.runAll (fun s s' hs => h.startWithin b i hs) hs b.rounds
  · exact .fail _

end Graph.Beside

end

/-! ## 10. Other listeners -/

/-- What two runs before two audiences come to: the same label or failure, and states that differ only in who
listens. -/
structure EndsBeside (keep : String → Bool) (x y : Except Failure Datum × World) : Prop where
  label : y.1 = x.1
  state : x.2.Beside keep y.2

/-- A node that cannot tell its audiences apart. -/
def Node.IsDeaf (keep : String → Bool) (n : Node) : Prop := n.conduct.Beside keep n.conduct

/-- The same node; if it is a flow it may have other listeners, but those that are kept stay. -/
def Node.Relistened (keep : String → Bool) (n n' : Node) : Prop :=
  ∃ change : FlowPlan → FlowPlan, (∀ p, n.plan? = some p → p.Beside keep (change p)) ∧ n' = n.modifyPlan change

/-- The same graph with other listeners at any of its flows. -/
def Graph.Relistened (keep : String → Bool) (g g' : Graph) : Prop := List.Forall₂ (Node.Relistened keep) g g'

variable {keep : String → Bool}

theorem Node.IsDeaf.beside {n n' : Node} (h : n.IsDeaf keep) (hlisteners : n.Relistened keep n') :
    n.Beside keep n' := by
  obtain ⟨change, hchange, rfl⟩ := hlisteners
  obtain ⟨name, title, lineage, kind, wiring, params, policy, conduct⟩ := n
  -- a flow keeps its stages; only its plan is another
  cases conduct with
  | blocking visit => exact ⟨rfl, rfl, rfl, h⟩
  | cooperative visit => exact ⟨rfl, rfl, rfl, h⟩
  | flow each f =>
    refine ⟨rfl, rfl, rfl, ?_⟩
    cases h with
    | flow _ hf => exact .flow each ⟨hchange _ rfl, hf.prep, hf.post⟩
  | cooperativeFlow fan f =>
    refine ⟨rfl, rfl, rfl, ?_⟩
    cases h with
    | cooperativeFlow _ hf => exact .cooperativeFlow fan ⟨hchange _ rfl, hf.prep, hf.post⟩

theorem Node.Relistened.refl (keep : String → Bool) (n : Node) : n.Relistened keep n := by
  refine ⟨id, fun p _ => .refl keep p, ?_⟩
  obtain ⟨name, title, lineage, kind, wiring, params, policy, conduct⟩ := n
  cases conduct <;> rfl

/-- Listeners come or go at one flow. -/
theorem Graph.relistened_replan {g g' : Graph} {i : Nat} {change : FlowPlan → FlowPlan}
    (hchange : ∀ p : FlowPlan, p.Beside keep (change p)) (h : g.replan i change = .ok g') : g.Relistened keep g' := by
  rw [Graph.replan] at h
  split at h
  · obtain rfl := Except.ok.inj h
    rw [Graph.Relistened, Graph.modifyNode, List.forall₂_iff_get]
    refine ⟨(List.length_modify ..).symm, fun j hj hj' => ?_⟩
    rw [List.get_eq_getElem, List.get_eq_getElem, List.getElem_modify]
    split
    · exact ⟨change, fun p _ => hchange p, rfl⟩
    · exact .refl keep _
  · cases h

theorem Graph.Relistened.beside {g g' : Graph} (hlisteners : g.Relistened keep g') (h : ∀ n ∈ g, n.IsDeaf keep) :
    g.Beside keep g' := by
  induction hlisteners with
  | nil => exact .nil
  | cons hn _ ih =>
    rw [List.forall_mem_cons] at h
    exact .cons (h.1.beside hn) (ih h.2)

end NodeFlow
