import NodeFlow.Proofs.Compile.Interchange
import NodeFlow.Proofs.Compile.Reporting
import NodeFlow.Proofs.Memory.Usage
import NodeFlow.Proofs.Run.Audience
import NodeFlow.Script.Node
/-!
# Nodes that do not look at who listens

Declared nodes are deaf, whatever their kind, and so are nodes that follow a script. They read memory, call their
collaborators, and write to the shared context, and none of this depends on who is told of it.

So neither the graphs that are compiled of descriptions nor those that are built of scripts can tell their audiences
apart. This is said of all graphs of deaf nodes at the end.
-/

set_option autoImplicit false

universe u

namespace NodeFlow

namespace Deaf

variable {keep : String → Bool} {s s' : Scene} {d : Declared} {env : Environment}

/-! ## 1. Collaborators -/

theorem respond (m : Model) (prompt model : Value) : Deaf keep (m.respond prompt model) (m.respond prompt model) :=
  .bind (log _) fun _ => .bind (countCall _) fun _ => .bind (ends _) fun _ => ends _

theorem modelCall (m : Model) (prompt model : Value) : Deaf keep (m.call prompt model) (m.call prompt model) := by
  rw [Model.call]
  split
  · exact respond m prompt model
  · exact fail _

theorem turns (n : Nat) : Deaf keep (Coop.turns n : Coop World Datum Unit) (Coop.turns n) :=
  (Coop.tracks_turns n).mono fun _ _ _ => rfl

theorem modelCallWaiting (m : Model) (prompt model : Value) :
    Deaf keep (m.callWaiting prompt model : Coop World Datum Value) (m.callWaiting prompt model) :=
  .bind (turns _) fun _ => .perform (respond m prompt model)

theorem fetch (client : HttpClient) (url method headers body : Value) :
    Deaf keep (client.fetch url method headers body) (client.fetch url method headers body) := by
  cases client with
  | given answer => exact .bind (log _) fun _ => .bind (countCall _) fun _ => ends _
  | session client =>
    refine .bind (fault _) fun name => .bind (log _) fun _ => .bind (countCall _) fun n => ?_
    split
    · exact fail _
    · exact .pure _

/-! ## 2. What declared nodes have in common -/

theorem part (d : Declared) (name : String) : Deaf keep (d.part name) (d.part name) := .bind (view _) fun _ => .pure _

theorem scopeWith (hs : s.Beside keep s') (result : Value) (exec item : Option Value) :
    Deaf keep (Declared.scopeWith s result exec item) (Declared.scopeWith s' result exec item) := by
  rw [Declared.scopeWith, Declared.scopeWith, hs.shared.view, hs.params]
  exact looks fun h => Scope.mk (s.shared.view h) result exec item (h.view (.ref s.params))

theorem held (hs : s.Beside keep s') (key : String) : Deaf keep (Declared.held s key) (Declared.held s' key) := by
  rw [Declared.held, Declared.held, hs.shared.get?]
  exact looks fun h => (s.shared.get? h key).getD .null

theorem priorScope (hs : s.Beside keep s') (item : Option Value) :
    Deaf keep (Declared.priorScope s item) (Declared.priorScope s' item) :=
  .bind (held hs _) fun _ => .bind (view _) fun _ => scopeWith hs _ _ _

theorem resultScope (hs : s.Beside keep s') (r : Datum) :
    Deaf keep (Declared.resultScope s r) (Declared.resultScope s' r) :=
  .bind (view r) fun _ => scopeWith hs _ _ _

theorem fill (d : Declared) (scope : Scope) (t : Value) : Deaf keep (d.fill scope t) (d.fill scope t) := settle _

theorem render (d : Declared) (scope : Scope) (t : Value) : Deaf keep (d.render scope t) (d.render scope t) := settle _

theorem visits (hs : s.Beside keep s') : Deaf keep (d.visits s) (d.visits s') := by
  refine .bind (held hs _) fun _ => .bind (view _) fun counts => ?_
  split
  · exact .pure _
  · exact .pure _
  · split
    · exact fail _
    · exact .pure _

theorem guardExit? (hs : s.Beside keep s') : Deaf keep (d.guardExit? s) (d.guardExit? s') := by
  rw [Declared.guardExit?, Declared.guardExit?]
  cases d.guard with
  | none => exact .pure none
  | some guard =>
    refine .bind (visits hs) fun _ => .bind (fault _) fun run => ?_
    split
    · exact .pure none
    · exact .bind (note _) fun _ => .pure _

theorem recordVisit (hs : s.Beside keep s') : Deaf keep (d.recordVisit s) (d.recordVisit s') := by
  rw [Declared.recordVisit, Declared.recordVisit]
  cases d.guard with
  | none => exact .pure ()
  | some guard =>
    refine .bind (held hs _) fun _ => .bind (membersOf _) fun counts => .bind (view _) fun _ => ?_
    exact .bind (operands _) fun _ => .bind (keeps _) fun _ => .bind (alloc _) fun _ => set hs _ _

theorem saveAll (hs : s.Beside keep s') (r : Datum) (saves : List Value) :
    Deaf keep (d.saveAll s r saves) (d.saveAll s' r saves) := by
  induction saves with
  | nil => exact .pure ()
  | cons save rest ih =>
    refine .bind (resultScope hs r) fun scope => .bind (render d scope _) fun _ => .bind (keeps _) fun kept => ?_
    dsimp only
    split
    · exact .bind (setPath hs _ kept) fun _ => ih
    · exact .bind (fail _) fun _ => ih

theorem finish (hs : s.Beside keep s') (r : Datum) : Deaf keep (d.finish s r) (d.finish s' r) :=
  .bind (set hs _ r) fun _ => .bind (part d _) fun _ => .bind (saveAll hs r _) fun _ =>
    .bind (recordVisit hs) fun _ => keeps _

theorem guarded {m : Type → Type u} [Performs World m] [Lockstep World Datum m] (hs : s.Beside keep s')
    {visit visit' : m Datum} (hvisit : Deaf keep visit visit') :
    Deaf keep (d.guarded s visit) (d.guarded s' visit') := by
  refine .bind (.perform (guardExit? hs)) fun exit => ?_
  cases exit with
  | none => exact hvisit
  | some label => exact .pure _

theorem stages {m : Type → Type u} [Performs World m] [Lockstep World Datum m] {α β : Type}
    {prep prep' : Act World α} {exec : β → m Datum} {post post' : Datum → Act World Datum}
    (hprep : Deaf keep prep prep') (hexec : ∀ b, Deaf keep (exec b) (exec b))
    (hpost : ∀ r, Deaf keep (post r) (post' r)) :
    Stages.Beside keep (Declared.stages prep exec post) (Declared.stages prep' exec post') where
  prep := .perform hprep
  exec := hexec
  fallback _ e := .throw e
  post _ r := .perform (hpost r)

/-! ## 3. What the kinds do -/

theorem modelName (hs : s.Beside keep s') : Deaf keep (d.modelName env s) (d.modelName env s') := by
  rw [Declared.modelName, Declared.modelName, hs.params]
  refine .bind (part d _) fun _ => .bind (view _) fun _ => ?_
  rw [Environment.modelName]
  have hcommon : Deaf keep env.commonModelName env.commonModelName := by
    refine .bind (looks fun h => env.commonMembers? h) fun common => ?_
    cases common with
    | none => exact fail _
    | some ms => exact view _
  split
  · exact .pure _
  · refine .bind hcommon fun _ => ?_
    split
    · exact .pure _
    · exact .bind (fault _) fun _ => .pure _

theorem preparePrompt (hs : s.Beside keep s') : Deaf keep (d.preparePrompt env s) (d.preparePrompt env s') :=
  .bind (ends _) fun _ => .bind (part d _) fun _ => .bind (priorScope hs _) fun scope =>
    .bind (fill d scope _) fun _ => .bind (modelName hs) fun _ => .pure _

theorem call (p : Prompted) : Deaf keep p.call p.call := .bind (modelCall _ _ _) fun _ => keeps _

theorem callWaiting (p : Prompted) : Deaf keep (p.callWaiting : Coop World Datum Datum) p.callWaiting :=
  .bind (modelCallWaiting _ _ _) fun _ => .perform (keeps _)

theorem carryOut (o : WorkOrder) : Deaf keep o.carryOut o.carryOut := by
  rw [WorkOrder.carryOut]
  split
  · exact .pure _
  · exact call _

theorem carryOutWaiting (o : WorkOrder) :
    Deaf keep (o.carryOutWaiting : Coop World Datum Datum) o.carryOutWaiting := by
  rw [WorkOrder.carryOutWaiting]
  split
  · exact .pure _
  · exact callWaiting _

theorem prepareRequest (hs : s.Beside keep s') : Deaf keep (d.prepareRequest env s) (d.prepareRequest env s') :=
  .bind (ends _) fun _ => .bind (priorScope hs _) fun scope => .bind (part d _) fun _ =>
    .bind (fill d scope _) fun _ => .bind (render d scope _) fun _ => .bind (render d scope _) fun _ => .pure _

theorem send (r : Request) : Deaf keep r.send r.send := .bind (fetch _ _ _ _ _) fun _ => keeps _

theorem copyData (d : Declared) : Deaf keep d.copyData d.copyData := .bind (part d _) fun _ => keeps _

theorem inputPath (d : Declared) : Deaf keep d.inputPath d.inputPath := by
  refine .bind (part d _) fun prep => ?_
  split <;> exact .pure _

theorem ordersFor (hs : s.Beside keep s') (model : Model) (name template : Value) (items : List Value) :
    Deaf keep (d.ordersFor s model name template items) (d.ordersFor s' model name template items) := by
  induction items with
  | nil => exact .pure []
  | cons item rest ih =>
    exact .bind (priorScope hs _) fun scope => .bind (fill d scope _) fun _ => .bind (keeps _) fun _ =>
      .bind ih fun _ => .pure _

theorem workOrders (hs : s.Beside keep s') : Deaf keep (d.workOrders env s) (d.workOrders env s') := by
  refine .bind (inputPath d) fun path => ?_
  rw [hs.shared.getPath?]
  refine .bind (looks fun h => Declared.batchItems (s.shared.getPath? h path)) fun items => ?_
  refine .bind (part d _) fun work => ?_
  split
  · exact .bind (.eachOf items keeps) fun _ => .pure _
  · exact .bind (ends _) fun model => .bind (modelName hs) fun name => ordersFor hs model name _ items

theorem firstCase (d : Declared) (scope : Scope) (cases : List Value) :
    Deaf keep (d.firstCase scope cases) (d.firstCase scope cases) := by
  induction cases with
  | nil => exact .pure _
  | cons case rest ih =>
    rw [Declared.firstCase]
    split
    · exact fail _
    · split
      · exact .pure _
      · refine .bind (settle _) fun holds => ?_
        split
        · exact .pure _
        · exact ih

theorem route (hs : s.Beside keep s') : Deaf keep (d.route s) (d.route s') :=
  .bind (recordVisit hs) fun _ => .bind (priorScope hs _) fun scope => .bind (part d _) fun _ =>
    .bind (fault _) fun cases => .bind (firstCase d scope cases) fun _ => keeps _

end Deaf

/-! ## 4. Ways to make nodes -/

/-- A way that makes deaf nodes of all declarations. -/
def Make.IsDeaf (keep : String → Bool) (make : Make) : Prop :=
  ∀ env d policy node, (make.conduct env d policy node).Beside keep (make.conduct env d policy node)

namespace Make

variable {keep : String → Bool}

theorem isDeaf_single {α : Type} {title kind : String} {prep : Environment → Declared → Scene → Act World α}
    {exec : Environment → Declared → α → Act World Datum} {post : Declared → Scene → Datum → Act World Datum}
    (hprep : ∀ env d s s', s.Beside keep s' → Deaf keep (prep env d s) (prep env d s'))
    (hexec : ∀ env d a, Deaf keep (exec env d a) (exec env d a))
    (hpost : ∀ d s s' r, s.Beside keep s' → Deaf keep (post d s r) (post d s' r)) :
    (single title kind prep exec post).IsDeaf keep :=
  fun env d _ _ => .blocking fun s s' hs => .guarded hs
    (Deaf.stages (hprep env d s s' hs) (hexec env d) fun r => hpost d s s' r hs).once

theorem isDeaf_cooperative : cooperative.IsDeaf keep := fun _ _ _ _ => .cooperative fun _ _ hs => .guarded hs
  (Deaf.stages (m := Coop World Datum) (.preparePrompt hs) Deaf.callWaiting fun r => .finish hs r).once

/-- The built-in kinds make deaf nodes. -/
theorem isDeaf_ofKind (modelWaits : Bool) (k : Kind) : (ofKind modelWaits k).IsDeaf keep := by
  have hfinish : ∀ (d : Declared) s s' r, s.Beside keep s' → Deaf keep (d.finish s r) (d.finish s' r) :=
    fun _ _ _ r hs => .finish hs r
  cases k with
  | llmCall =>
    cases modelWaits with
    | true => exact isDeaf_cooperative
    | false => exact isDeaf_single (fun _ _ _ _ hs => .preparePrompt hs) (fun _ _ p => .call p) hfinish
  | httpCall => exact isDeaf_single (fun _ _ _ _ hs => .prepareRequest hs) (fun _ _ r => .send r) hfinish
  | router =>
    exact isDeaf_single (fun _ _ _ _ _ => .pure ()) (fun _ _ _ => .pure _) fun _ _ _ _ hs => .route hs
  | staticData => exact isDeaf_single (fun _ _ _ _ _ => .pure ()) (fun _ d _ => .copyData d) hfinish
  | batch =>
    cases modelWaits with
    | true =>
      refine fun _ _ _ _ => .cooperative fun _ _ hs => .guarded hs ?_
      exact (Deaf.stages (m := Coop World Datum) (.workOrders hs) Deaf.carryOutWaiting fun r => .finish hs r).inOrder
        fun _ => .pure _
    | false =>
      refine fun _ _ _ _ => .blocking fun _ _ hs => .guarded hs ?_
      exact (Deaf.stages (m := Act World) (.workOrders hs) Deaf.carryOut fun r => .finish hs r).inOrder fun _ => .pure _
  | cooperative => exact isDeaf_cooperative
  | cooperativeParallel =>
    refine fun _ _ _ _ => .cooperative fun _ _ hs => .guarded hs ?_
    exact (Deaf.stages (m := Coop World Datum) (.workOrders hs) Deaf.carryOutWaiting fun r => .finish hs r).together
      fun _ => .pure _

end Make

/-! ## 5. Scripts -/

namespace Deaf

variable {keep : String → Bool} {s s' : Scene}

theorem copyParams (hs : s.Beside keep s') : Deaf keep s.copyParams s'.copyParams := by
  rw [Scene.copyParams, Scene.copyParams, hs.params]
  exact .bind (looks fun h => h.membersAt s.params) fun _ => alloc _

theorem param (hs : s.Beside keep s') (key : String) : Deaf keep (s.param key) (s'.param key) := by
  rw [Scene.param, Scene.param, hs.params]
  exact looks fun h => (Members.get? (h.membersAt s.params) key).getD .null

theorem lookup (hs : s.Beside keep s') (key : String) : Deaf keep (s.shared.lookup key) (s'.shared.lookup key) := by
  rw [Shared.lookup, Shared.lookup, hs.shared.get?]
  exact looks fun h => s.shared.get? h key

theorem setDefault (hs : s.Beside keep s') (key : String) (d : Datum) :
    Deaf keep (World.onShared (s.shared.setDefault key d)) (World.onShared (s'.shared.setDefault key d)) := by
  -- what writes a key and what reads it do the same, so both do one after the other
  have hget : ∀ l l', l.Beside keep l' →
      (s.shared.getItem key l).2.Beside keep (s'.shared.getItem key l').2 ∧
        (s'.shared.getItem key l').1 = (s.shared.getItem key l).1 := by
    intro l l' hl
    rw [Shared.getItem, Shared.getItem, hs.shared.get?, hl.heap]
    split <;> exact ⟨hl, rfl⟩
  refine onShared fun l l' hl => ?_
  rw [Shared.setDefault_eq, Shared.setDefault_eq, hs.shared.get?, hl.heap]
  split
  · obtain ⟨hledger, hresult⟩ := hs.shared.set hl key d
    rw [Act.bind, Act.bind]
    generalize s.shared.set key d l = x at hledger hresult ⊢
    generalize s'.shared.set key d l' = y at hledger hresult ⊢
    obtain ⟨r, l₁⟩ := x
    obtain ⟨r', l₁'⟩ := y
    obtain rfl : r' = r := hresult
    cases r' with
    | ok _ => exact hget _ _ hledger
    | error e => exact ⟨hledger, rfl⟩
  · exact hget _ _ hl

theorem prepare (source : Option Script.Source) (name : String) (hs : s.Beside keep s') :
    Deaf keep (Script.prepare source name s) (Script.prepare source name s') := by
  have hfound : ∀ {x y : Act World Datum}, Deaf keep x y → Deaf keep
      (x >>= fun d => World.view d >>= fun v => World.log (.prepared name v) >>= fun _ => Pure.pure d)
      (y >>= fun d => World.view d >>= fun v => World.log (.prepared name v) >>= fun _ => Pure.pure d) :=
    fun h => .bind h fun _ => .bind (view _) fun _ => .bind (log _) fun _ => .pure _
  cases source with
  | none => exact .pure _
  | some source =>
    cases source with
    | failing e => exact fail e
    | path path =>
      refine hfound ?_
      rw [hs.shared.getPath?]
      exact .bind (looks fun h => (s.shared.getPath? h path).getD .null) fun _ => keeps _
    | params => exact hfound (copyParams hs)
    | param key => exact hfound (param hs key)
    | value v => exact hfound (keeps v)

theorem begin (work : Script.Work) (name : String) (node : Nat) (input : Datum) :
    Deaf keep (Script.begin work name node input) (Script.begin work name node input) := by
  refine .bind (view _) fun _ => .bind (memoryOf node) fun _ => .bind (log _) fun _ => ?_
  refine .bind (remember node _) fun _ => .bind (operands _) fun first => ?_
  split
  · exact fail _
  · split
    · exact .bind (remember node _) fun _ => fail _
    · exact .pure ()

theorem outcome (work : Script.Work) (hs : s.Beside keep s') (input : Datum) :
    Deaf keep (Script.outcome work s input) (Script.outcome work s' input) := by
  have hcombined : ∀ f v, Deaf keep (Script.combined f input v) (Script.combined f input v) := fun f v =>
    .bind (keeps v) fun _ => .bind (view _) fun _ => .bind (view _) fun _ => .bind (operands _) fun _ => keeps _
  rw [Script.outcome, Script.outcome]
  cases work.outcome with
  | value v => exact keeps v
  | plus n => exact hcombined _ n
  | times n => exact hcombined _ n
  | under key => exact alloc _
  | param key => exact param hs key
  | input => exact .pure _

theorem execute (work : Option Script.Work) (name : String) (node : Nat) (hs : s.Beside keep s') (input : Datum) :
    Deaf keep (Script.execute work name node s input) (Script.execute work name node s' input) := by
  cases work with
  | none => exact .pure _
  | some work => exact .bind (begin work name node input) fun _ => outcome work hs input

theorem executeWaiting (work : Option Script.Work) (name : String) (node : Nat) (hs : s.Beside keep s')
    (input : Datum) :
    Deaf keep (Script.executeWaiting work name node s input) (Script.executeWaiting work name node s' input) := by
  cases work with
  | none => exact .pure _
  | some work =>
    refine .bind (.perform (begin work name node input)) fun _ => ?_
    refine .bind (.perform (.bind (view input) fun v => operands _)) fun n => .bind (turns n) fun _ => ?_
    exact .perform (outcome work hs input)

theorem standIn (fallback : Option Script.Fallback) (name : String) (input : Datum) (e : Failure) :
    Deaf keep (Script.standIn fallback name input e) (Script.standIn fallback name input e) := by
  cases fallback with
  | none => exact fail e
  | some f =>
    refine .bind (view _) fun _ => .bind (log _) fun _ => ?_
    cases f with
    | value v => exact keeps v
    | wording start => exact .pure _

/-- Appending to a list that is there changes memory alone. -/
theorem appendUnder (hs : s.Beside keep s') (key : String) (d : Datum) :
    Deaf keep (Script.appendUnder s key d) (Script.appendUnder s' key d) := by
  refine .bind (alloc _) fun fresh => .bind (setDefault hs key fresh) fun list => ?_
  split
  · next a =>
    refine .bind (looks fun h => h.cell? a) fun cell => ?_
    split
    · next xs => exact changes fun h => ((), h.write a (.list (xs ++ [d])))
    · exact fail _
  · exact fail _

theorem countUnder (hs : s.Beside keep s') (key : String) :
    Deaf keep (Script.countUnder s key) (Script.countUnder s' key) :=
  .bind (lookup hs key) fun _ => .bind (view _) fun _ => .bind (operands _) fun _ => .bind (keeps _) fun d =>
    set hs key d

theorem labelAt (label : Script.Label) (result : Datum) (before : Nat) :
    Deaf keep (label.at result before) (label.at result before) := by
  cases label with
  | value v => exact keeps v
  | series labels =>
    rw [Script.Label.at]
    split
    · exact keeps _
    · exact fail _
  | result => exact .pure _

theorem scriptFinish (ending : Script.Ending) (name : String) (node : Nat) (hs : s.Beside keep s') (r : Datum) :
    Deaf keep (Script.finish ending name node s r) (Script.finish ending name node s' r) := by
  rw [Script.finish, Script.finish]
  cases ending.failure with
  | some e => exact fail e
  | none =>
    -- each of the four things to do is there or not
    cases ending.save <;> cases ending.append <;> cases ending.appendParams <;> cases ending.count
    all_goals
      repeat first
        | refine .bind (set hs _ _) fun _ => ?_
        | refine .bind (appendUnder hs _ _) fun _ => ?_
        | refine .bind (copyParams hs) fun _ => ?_
        | refine .bind (countUnder hs _) fun _ => ?_
        | exact .bind (memoryOf node) fun _ => .bind (remember node _) fun _ => .bind (labelAt _ _ _) fun _ =>
            .bind (view _) fun _ => .bind (log _) fun _ => .pure _

end Deaf

namespace Script

variable {keep : String → Bool} (p : Part) (policy : RetryPolicy) (name : String) (node : Nat) {s s' : Scene}

theorem beside_stages (script : Script) (hs : s.Beside keep s') :
    Stages.Beside keep (stages script name node s) (stages script name node s') where
  prep := .prepare _ name hs
  exec := .execute _ name node hs
  fallback := .standIn _ name
  post _ r := by
    rw [stages, stages]
    cases script.post with
    | none => exact .pure _
    | some ending => exact .scriptFinish ending name node hs r

theorem beside_stagesWaiting (script : Script) (hs : s.Beside keep s') :
    Stages.Beside keep (stagesWaiting script name node s) (stagesWaiting script name node s') where
  prep := .perform (.prepare _ name hs)
  exec := .executeWaiting _ name node hs
  fallback input e := .perform (.standIn _ name input e)
  post _ r := by
    rw [stagesWaiting, stagesWaiting]
    cases script.post with
    | none => exact .pure _
    | some ending => exact .perform (.scriptFinish ending name node hs r)

theorem beside_flow {m : Type → Type u} [Performs World m] [Lockstep World Datum m] :
    Flow.Beside keep (flow p name node : Flow m) (flow p name node) where
  plan := .refl keep _
  prep _ _ hs := .perform (.prepare _ name hs)
  post _ _ _ r hs := by
    rw [flow]
    cases p.script.post with
    | none => exact .pure _
    | some ending => exact .perform (.scriptFinish ending name node hs r)

/-- A node of any type that follows a script is deaf. -/
theorem beside_conduct : (conduct p policy name node).Beside keep (conduct p policy name node) := by
  have hnext : ∀ d, Lockstep.Tracks (audiences keep)
      (Elements.of d >>= fun e => pure e.at? : Act World (Nat → Act World (Option Datum)))
      (Elements.of d >>= fun e => pure e.at?) fun f g => f = g ∧ ∀ i, Deaf keep (f i) (f i) := by
    refine fun d => Lockstep.bind (Deaf.elements d) ?_
    rintro e _ rfl
    exact Lockstep.pure ⟨rfl, Deaf.at? e⟩
  rw [conduct]
  cases p.type with
  | single => exact .blocking fun s s' hs => (beside_stages name node p.script hs).once
  | batch => exact .blocking fun s s' hs => (beside_stages name node p.script hs).inTurn hnext
  | waiting => exact .cooperative fun s s' hs => (beside_stagesWaiting name node p.script hs).once
  | waitingBatch => exact .cooperative fun s s' hs => (beside_stagesWaiting name node p.script hs).inTurn hnext
  | waitingParallel =>
    exact .cooperative fun s s' hs => (beside_stagesWaiting name node p.script hs).together fun d =>
      .bind (.elements d) .all
  | flow => exact .flow false (beside_flow p name node)
  | batchFlow => exact .flow true (beside_flow p name node)
  | waitingFlow => exact .cooperativeFlow .once (beside_flow p name node)
  | waitingBatchFlow => exact .cooperativeFlow .inTurn (beside_flow p name node)
  | waitingParallelFlow => exact .cooperativeFlow .together (beside_flow p name node)

/-- A part is added to a graph of deaf nodes as a deaf node. -/
theorem isDeaf_of_addTo {g g' : Graph} {params : Addr} (hg : ∀ n ∈ g, n.IsDeaf keep) (h : p.addTo g params = .ok g') :
    ∀ n ∈ g', n.IsDeaf keep := by
  rw [Part.addTo] at h
  split at h
  · cases h
  · obtain rfl := Except.ok.inj h
    rw [List.forall_mem_append, List.forall_mem_singleton]
    exact ⟨hg, beside_conduct p _ _ _⟩

end Script

/-! ## 6. Compiled graphs -/

namespace Compiler

variable {keep : String → Bool} {c : Compiler} {d : Value} {w : World} {compiled : Compiled}

/-- A compiler that makes deaf nodes, whatever is registered beside the built-in kinds. -/
def IsDeaf (keep : String → Bool) (c : Compiler) : Prop :=
  ∀ kind make, (kind, Factory.custom make) ∈ c.registry → make.IsDeaf keep

theorem isDeaf_ofEnvironment (keep : String → Bool) (env : Environment) : (ofEnvironment env).IsDeaf keep := by
  intro kind make hmem
  obtain ⟨entry, -, hentry⟩ := List.mem_map.1 hmem
  cases hentry

theorem mem_registry_of_factoryOf {id kind : String} {v : Value} {f : Factory} (h : c.factoryOf id v = .ok (kind, f)) :
    (kind, f) ∈ c.registry := by
  cases v with
  | str name =>
    rw [factoryOf] at h
    split at h
    · next hget =>
      obtain ⟨rfl, rfl⟩ := Prod.mk.inj (Except.ok.inj h)
      exact Members.mem_of_get? hget
    · cases h
  | _ => cases h

theorem isDeaf_node (hc : c.IsDeaf keep) {own : Addr} {number : Nat} {n : Node} (h : c.node own number d = .ok n) :
    n.IsDeaf keep := by
  rw [node] at h
  cases hfactory : c.factoryOf (d.field "id").plain (d.field "kind") with
  | error e =>
    rw [hfactory] at h
    cases h
  | ok found =>
    obtain ⟨kind, factory⟩ := found
    have hmem := mem_registry_of_factoryOf hfactory
    rw [hfactory] at h
    cases hpolicy : policyOf d with
    | error e =>
      rw [hpolicy] at h
      cases factory <;> cases h
    | ok policy =>
      rw [hpolicy] at h
      cases factory with
      | kind k =>
        obtain rfl := Except.ok.inj h
        exact Make.isDeaf_ofKind _ k _ _ _ _
      | custom make =>
        obtain rfl := Except.ok.inj h
        exact hc kind make hmem _ _ _ _
      | foreign typeName => cases h

theorem isDeaf_makeNodes (hc : c.IsDeaf keep) {own : Addr} {number : Nat} {ms : List Value} {nodes : List Node}
    (h : c.makeNodes own number ms = .ok nodes) : ∀ n ∈ nodes, n.IsDeaf keep := by
  induction ms generalizing number nodes with
  | nil =>
    obtain rfl := Except.ok.inj h
    exact fun n hn => absurd hn List.not_mem_nil
  | cons m ms ih =>
    obtain ⟨first, more, hfirst, hmore, rfl⟩ := exists_of_makeNodes_cons h
    exact List.forall_mem_cons.2 ⟨isDeaf_node hc hfirst, ih hmore⟩

/-- Wiring changes nothing but edges. -/
theorem isDeaf_wireAll (es : List Edge) {g : Graph} (hg : ∀ n ∈ g, n.IsDeaf keep) :
    ∀ n ∈ (wireAll es g).1, n.IsDeaf keep := by
  induction es generalizing g with
  | nil => exact hg
  | cons e rest ih =>
    refine ih fun n hn => ?_
    rw [Graph.link] at hn
    split at hn
    · exact hg n hn
    · next source hsource =>
      rw [Graph.modifyNode] at hn
      obtain ⟨i, hi, rfl⟩ := List.getElem_of_mem hn
      have hold := hg _ (List.getElem_mem (List.length_modify .. ▸ hi))
      rw [List.getElem_modify]
      split <;> exact hold

/-- What is compiled is deaf, if nothing that is registered listens. -/
theorem isDeaf_compile (hc : c.IsDeaf keep) (h : (c.compile d w).1 = .ok compiled) :
    ∀ n ∈ compiled.graph, n.IsDeaf keep := by
  obtain ⟨notes, -, hassemble, -⟩ := compile_eq_ok (Prod.ext h rfl)
  obtain ⟨nodes, edges, start, hnodes, -, rfl⟩ := exists_of_assemble hassemble
  rw [List.forall_mem_append, List.forall_mem_singleton]
  refine ⟨isDeaf_wireAll edges (isDeaf_makeNodes hc hnodes), ?_⟩
  cases nodes.any Node.isCooperative with
  | true => exact .cooperativeFlow .once ⟨.refl keep _, fun _ _ _ => .pure _, fun _ _ _ _ _ => .pure _⟩
  | false => exact .flow false ⟨.refl keep _, fun _ _ _ => .pure _, fun _ _ _ _ _ => .pure _⟩

end Compiler

/-- Compiled graphs are run together before two audiences. -/
theorem Compiled.deaf_runTogetherWithin {keep : String → Bool} {c c' : Compiled} (h : c.graph.Beside keep c'.graph)
    (hflow : c'.flow = c.flow) (b : Graph.Bounds) {contexts contexts' : List Shared}
    (hs : List.Forall₂ (Shared.Beside keep) contexts contexts') :
    Deaf keep (c.runTogetherWithin b contexts) (c'.runTogetherWithin b contexts') := by
  have hcooperative : c'.isCooperative = c.isCooperative := by
    rw [Compiled.isCooperative, Compiled.isCooperative, Compiled.flowNode?, Compiled.flowNode?, hflow]
    exact h.any_isCooperative c.flow
  have hstart : ∀ s s', s.Beside keep s' → Deaf keep (c.startWithin b s) (c'.startWithin b s') := by
    intro s s' hs
    rw [Compiled.startWithin, Compiled.startWithin, hcooperative, hflow]
    split
    · exact h.startWithin b c.flow hs
    · refine .perform ?_
      rw [Compiled.runWithin, Compiled.runWithin, hflow]
      exact h.runWithin b c.flow hs
  exact .runAll hstart hs b.rounds

/-! ## 7. Observation never interferes -/

theorem Deaf.endsBeside {keep : String → Bool} {x y : Act World Datum} (h : Deaf keep x y) {w w' : World}
    (hw : w.Beside keep w') : EndsBeside keep (x w) (y w') :=
  ⟨(h.apply hw).2, (h.apply hw).1⟩

/-- **Observation never interferes.** Whoever listens to the flows of a graph, observes its stores or subscribes to the
channel, and whoever of them fails: a graph of deaf nodes runs to the same label or failure, and leaves the same memory,
the same records and the same calls behind. All that is told to those who listen in both cases is told alike, in one
order. Compiled graphs consist of deaf nodes, and so do those that are built of scripts; who fails may depend on all
that was told before. -/
theorem observation_never_interferes (keep : String → Bool) :
    (∀ g g' : Graph, (∀ n ∈ g, n.IsDeaf keep) → g.Relistened keep g' → ∀ (b : Graph.Bounds) (i : Nat) w w',
      w.Beside keep w' →
        (∀ s s', s.Beside keep s' → EndsBeside keep (g.runWithin b i s w) (g'.runWithin b i s' w') ∧
          EndsBeside keep (g.runWaitingWithin b i s w) (g'.runWaitingWithin b i s' w')) ∧
        ∀ contexts contexts', List.Forall₂ (Shared.Beside keep) contexts contexts' →
          EndsBeside keep (g.runTogetherWithin b i contexts w) (g'.runTogetherWithin b i contexts' w')) ∧
    (∀ (compiler : Compiler) d w₀ c, compiler.IsDeaf keep → (compiler.compile d w₀).1 = .ok c →
      (∀ n ∈ c.graph, n.IsDeaf keep) ∧ ∀ c' : Compiled, c.graph.Relistened keep c'.graph → c'.flow = c.flow →
        ∀ (b : Graph.Bounds) w w', w.Beside keep w' →
          (∀ s s', s.Beside keep s' → EndsBeside keep (c.runWithin b s w) (c'.runWithin b s' w')) ∧
          ∀ contexts contexts', List.Forall₂ (Shared.Beside keep) contexts contexts' →
            EndsBeside keep (c.runTogetherWithin b contexts w) (c'.runTogetherWithin b contexts' w')) ∧
    (∀ (p : Script.Part) g g' params, (∀ n ∈ g, n.IsDeaf keep) → p.addTo g params = .ok g' →
      ∀ n ∈ g', n.IsDeaf keep) ∧
    ∀ {ε : Type} (fails fails' : List ε → Listener → Bool) entry ls told,
      Listener.tellEach fails' entry ls told = Listener.tellEach fails entry ls told := by
  refine ⟨fun g g' hdeaf hlisteners b i w w' hw => ?_, fun compiler d w₀ c hcompiler hcompile => ?_,
    fun p g g' params hg h => Script.isDeaf_of_addTo p hg h, fun fails fails' entry ls told => ?_⟩
  · have hbeside := hlisteners.beside hdeaf
    exact ⟨fun s s' hs => ⟨(hbeside.runWithin b i hs).endsBeside hw, (hbeside.runWaitingWithin b i hs).endsBeside hw⟩,
      fun contexts contexts' hs => (hbeside.runTogetherWithin b i hs).endsBeside hw⟩
  · have hdeaf := Compiler.isDeaf_compile hcompiler hcompile
    refine ⟨hdeaf, fun c' hlisteners hflow b w w' hw => ⟨fun s s' hs => ?_, fun contexts contexts' hs => ?_⟩⟩
    · rw [Compiled.runWithin, Compiled.runWithin, hflow]
      exact ((hlisteners.beside hdeaf).runWithin b c.flow hs).endsBeside hw
    · exact (Compiled.deaf_runTogetherWithin (hlisteners.beside hdeaf) hflow b hs).endsBeside hw
  · rw [Listener.tellEach_eq, Listener.tellEach_eq]

/-- A listener whose tag is not kept comes to the flow of a compiled graph. -/
theorem Compiled.relistened_listened (keep : String → Bool) {l : Listener} (hl : keep l.tag = false) (c : Compiled) :
    c.graph.Relistened keep (c.listened l).graph ∧ (c.listened l).flow = c.flow := by
  rw [Compiled.listened]
  split
  · next g hg => exact ⟨Graph.relistened_replan (.newcomers (List.forall_mem_map.2 fun _ _ => hl)) hg, rfl⟩
  · exact ⟨List.forall₂_same.2 fun n _ => .refl keep n, rfl⟩

/-- Someone who fails whenever he is told something. -/
def Listener.noisy : Listener := ⟨0, "noisy", true⟩

/-- A router that is listened to, a store that is observed and a channel that is subscribed to by one who always fails:
nobody else notices. -/
theorem observation_never_interferes_noisy : ∃ c w',
    (Compiler.ofEnvironment .bare).compile (Compiler.caseRouter "ctx.a") (Compiler.worldOf [("a", .int 1)]) =
      (.ok c, w') ∧
      ∀ s, EndsBeside (· != "noisy") (c.runWithin ⟨5, 5⟩ s w')
        ((c.listened .noisy).runWithin ⟨5, 5⟩ (s.observe .noisy)
          { w' with channel := w'.channel.subscribe .noisy }) := by
  obtain ⟨_, _, _, _, _, _, c, -, -, -, -, hcompile⟩ := Compiler.compile_ok (Compiler.isJson_caseRouter "ctx.a")
    (Compiler.problems_caseRouter .bare "ctx.a") (w := Compiler.worldOf [("a", .int 1)]) (Or.inl rfl)
  obtain ⟨-, hcompiled, -⟩ := observation_never_interferes (· != "noisy")
  obtain ⟨-, hruns⟩ := hcompiled _ _ _ c (Compiler.isDeaf_ofEnvironment _ .bare) (congrArg Prod.fst hcompile)
  obtain ⟨hlistened, hflow⟩ := Compiled.relistened_listened (· != "noisy") (l := .noisy) rfl c
  refine ⟨c, _, hcompile, fun s => ?_⟩
  exact (hruns _ hlistened hflow ⟨5, 5⟩ _ _ (World.Beside.subscribe rfl _)).1 _ _ (Shared.Beside.observe rfl s)

end NodeFlow
