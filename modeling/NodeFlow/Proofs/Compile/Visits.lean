import NodeFlow.Proofs.Compile.Calm
import NodeFlow.Proofs.Compile.Runs
/-!
# Visits under a watch

Every visit of a declared node comes to one of three outcomes. Its guard may keep it from running: then the
diagnostic of the guard is seen and nothing else has changed. Otherwise the node runs, and its visit is
counted once it has finished; a visit that fails may have been counted or not, since a router counts before
it chooses. This is so for every built-in kind, however it is made.

What a visit saves depends on its declaration as memory has it, so the declaration is asked about in every
memory that the watch allows.
-/

set_option autoImplicit false

universe u

namespace NodeFlow

/-- The counts after a visit has been counted; a node without a guard is not counted. -/
def Declared.bump (d : Declared) (counts : String → Int) : String → Int :=
  match d.guard with
  | none => counts
  | some _ => Function.update counts d.id (counts d.id + 1)

namespace Watch

variable {W : Watch} {d : Declared} {scene : Scene} {s : Sight}

/-! ## 1. Outcomes -/

/-- What is seen after a guard has kept its node from running. -/
def tripped (W : Watch) (d : Declared) (g : Guard) (s : Sight) : Sight :=
  ⟨d.warnings g W.subscribers ++ s.seen, s.counts⟩

/-- What is seen after a visit has been counted. -/
def counted (d : Declared) (s : Sight) : Sight := ⟨s.seen, d.bump s.counts⟩

/-- How a visit that runs may end. -/
inductive Finishes (W : Watch) (d : Declared) (s : Sight) : Except Failure Datum → Option Sight → Prop
  | ends {x : Datum} : Finishes W d s (.ok x) (some (counted d s))
  | fails {e : Failure} : W.fails e → Finishes W d s (.error e) (some s)
  | failsLate {e : Failure} : W.fails e → Finishes W d s (.error e) (some (counted d s))

/-- How a visit may end, given what was seen before it. -/
inductive Outcome (W : Watch) (d : Declared) (s : Sight) : Except Failure Datum → Option Sight → Prop
  | trips {g : Guard} : d.guard = some g → g.limit ≤ s.counts d.id →
    Outcome W d s (.ok (.str g.exit)) (some (tripped W d g s))
  | runs {r : Except Failure Datum} {k : Option Sight} :
    (∀ g, d.guard = some g → s.counts d.id < g.limit) → Finishes W d s r k → Outcome W d s r k

/-- What is asked of a declaration: it saves nothing over the counts or below a key, and what may be seen
before a visit may be seen after it. -/
structure Minds (W : Watch) (d : Declared) : Prop where
  saves : ∀ h, W.base.Beside W.shared.data h →
    ∀ save ∈ ((((d.contentIn h).field "post").field "outputs").field "save").items, ∀ path,
      save.field "path" = .str path → ∃ key, Path.segments path = [key] ∧ key ≠ Declared.visitsKey
  counts : ∀ s, W.allowed s → (∀ g, d.guard = some g → s.counts d.id < g.limit) →
    W.allowed (counted d s)
  trips : ∀ s g, W.allowed s → d.guard = some g → g.limit ≤ s.counts d.id →
    W.allowed (W.tripped d g s)

/-! ## 2. Finishing -/

theorem calm_setPath {path key : String} (hpath : Path.segments path = [key])
    (hkey : key ≠ Declared.visitsKey) (x : Datum) :
    W.Calm (World.onShared (W.shared.setPath path x)) fun _ => True := by
  rw [Shared.setPath, hpath]
  exact calm_set hkey x

theorem calm_saveAll (hs : scene.shared = W.shared) (result : Datum) {saves : List Value}
    (hsaves : ∀ save ∈ saves, ∀ path, save.field "path" = .str path →
      ∃ key, Path.segments path = [key] ∧ key ≠ Declared.visitsKey) :
    W.Calm (d.saveAll scene result saves) fun _ => True := by
  induction saves with
  | nil => exact .pure trivial
  | cons save rest ih =>
    rw [List.forall_mem_cons] at hsaves
    refine .bind (calm_resultScope scene result) fun scope _ => .bind (calm_render d scope _) ?_
    intro v _
    refine .bind (calm_keep v) ?_
    intro kept _
    dsimp only
    split
    · next path hpath =>
      obtain ⟨key, hsegments, hkey⟩ := hsaves.1 path hpath
      rw [hs]
      exact .bind (calm_setPath hsegments hkey kept) fun _ _ => ih hsaves.2
    · exact .bind (P := fun _ => False) Duty.keeps_fault fun _ h => h.elim

theorem calm_post : W.Calm (d.part "post") fun v =>
    ∃ h, W.base.Beside W.shared.data h ∧ v = (d.contentIn h).field "post" := by
  refine .bind (P := fun v => ∃ h, W.base.Beside W.shared.data h ∧ v = d.contentIn h)
    (calm_reads fun w hw => ⟨w.heap, hw.beside, rfl⟩) fun v hv => ?_
  obtain ⟨h, hh, rfl⟩ := hv
  exact .pure ⟨h, hh, rfl⟩

/-- After calm work everything that was known is known. -/
theorem calm_then {m : Type → Type u} [Performs World m] [Reasoned World Datum m] {α β : Type}
    {P : α → Prop} {x : m α} {f : α → m β} {k : Option Sight} {E : Except Failure β → Option Sight → Prop}
    (hx : W.Calm x P) (hf : ∀ a, P a → Reasoned.Meets W.regime k (f a) E)
    (hfail : ∀ e, W.fails e → E (.error e) k) : Reasoned.Meets W.regime k (x >>= f) E :=
  Reasoned.bind (Reasoned.frame hx k) (fun a _ h => h.1 ▸ hf a h.2) fun e _ h => h.1 ▸ hfail e h.2

/-- Counting a visit adds one to the count of its node, if it has a guard; or it fails and counts nothing. -/
theorem meets_recordVisit (hs : scene.shared = W.shared)
    (hallowed : W.allowed s → W.allowed (counted d s)) :
    Act.Meets W.regime (some s) (d.recordVisit scene) fun r k =>
      (r = .ok () ∧ k = some (counted d s)) ∨ ∃ e, r = .error e ∧ W.fails e ∧ k = some s := by
  intro w hw
  have hsight : W.sight w = s := hw.mark s rfl
  cases hg : d.guard with
  | none =>
    -- nothing is counted
    have hcounted : counted d s = s := by
      rw [counted, Declared.bump, hg]
    rw [Declared.recordVisit, hg, hcounted]
    exact ⟨hw.refl, Or.inl ⟨rfl, hw.after_eq⟩⟩
  | some g =>
    have htallied : scene.shared.Tallied w.heap := hs ▸ hw.inv.tallied
    obtain ⟨k, -, hk⟩ := htallied.get?_counts d.id
    rcases Declared.recordVisit_cases hg htallied hk with ⟨heap, e, hextends, he, heq⟩ | ⟨written, heq⟩
    · have hsteady : w.Steady W.tag W.shared (d.recordVisit scene w).2 := by
        rw [heq]
        exact .of_extends hextends
      refine ⟨⟨hw.inv.steady hsteady, (by simp)⟩, Or.inr ⟨e, by rw [heq], W.fails_of_ne e he, ?_⟩⟩
      exact congrArg some ((sight_of_steady hw.inv hsteady).trans hsight)
    · have hafter : W.sight (d.recordVisit scene w).2 = counted d s := by
        rw [heq, sight, sights_map fun _ => rfl, ← hs, Shared.visitsOf_counted htallied hk, counted,
          ← hsight, Declared.bump, hg, sight, ← hs]
      refine ⟨⟨⟨?_, ?_, ?_, ?_⟩, (by simp)⟩, Or.inl ⟨?_, ?_⟩⟩
      · rw [heq]
        exact hw.inv.beside.trans (hs ▸ Shared.beside_counted)
      · rw [heq]
        exact hs ▸ Shared.tallied_counted htallied
      · rw [heq]
        exact hw.inv.subscribers
      · rw [hafter]
        exact hallowed (hsight ▸ hw.inv.allowed)
      · rw [heq]
      · exact congrArg some hafter

/-- What comes after a visit has been counted. -/
theorem meets_recordVisit_then (hs : scene.shared = W.shared)
    (hallowed : W.allowed s → W.allowed (counted d s)) {next : Unit → Act World Datum}
    (hnext : Act.Meets W.regime (some (counted d s)) (next ()) (Finishes W d s)) :
    Act.Meets W.regime (some s) (d.recordVisit scene >>= next) (Finishes W d s) := by
  refine Act.Meets.bind (meets_recordVisit hs hallowed) ?_ ?_
  · rintro _ k (⟨-, rfl⟩ | ⟨e, he, -⟩)
    · exact hnext
    · cases he
  · rintro e k (⟨he, -⟩ | ⟨e', he', hfails, rfl⟩)
    · cases he
    · exact Except.error.inj he' ▸ .fails hfails

/-- The label of a visit is kept, which does not fail. -/
theorem meets_keep_label (v : Value) :
    Act.Meets W.regime (some (counted d s)) (World.keep v) (Finishes W d s) := by
  refine (meets_of_steady (Q := fun r => ∃ x, r = .ok x) (fun w _ => ?_) _).mono ?_
  · exact ⟨.of_extends (Heap.extends_keep w.heap _), _, rfl⟩
  · rintro r k ⟨⟨x, rfl⟩, rfl⟩
    exact .ends

theorem meets_finish (hd : W.Minds d) (hs : scene.shared = W.shared)
    (hallowed : W.allowed s → W.allowed (counted d s)) (result : Datum) :
    Act.Meets W.regime (some s) (d.finish scene result) (Finishes W d s) := by
  have hfail : ∀ e, W.fails e → Finishes W d s (.error e) (some s) := fun _ he => .fails he
  refine calm_then (m := Act World) (P := fun _ => True) ?_ ?_ hfail
  · rw [hs]
    exact calm_set (by decide) result
  intro _ _
  refine calm_then (m := Act World) calm_post ?_ hfail
  rintro post ⟨h, hh, rfl⟩
  refine calm_then (m := Act World) (calm_saveAll hs result (hd.saves h hh)) ?_ hfail
  intro _ _
  exact meets_recordVisit_then hs hallowed (meets_keep_label _)

/-- A router counts its visit before it chooses. -/
theorem meets_route (hs : scene.shared = W.shared) (hallowed : W.allowed s → W.allowed (counted d s)) :
    Act.Meets W.regime (some s) (d.route scene) (Finishes W d s) := by
  have hfail : ∀ e, W.fails e → Finishes W d s (.error e) (some (counted d s)) :=
    fun _ he => .failsLate he
  refine meets_recordVisit_then hs hallowed ?_
  refine calm_then (m := Act World) (calm_priorScope scene none) (fun scope _ => ?_) hfail
  refine calm_then (m := Act World) (calm_part d "exec") (fun work _ => ?_) hfail
  refine calm_then (m := Act World) (Duty.keeps_faultable _) (fun cases _ => ?_) hfail
  refine calm_then (m := Act World) (calm_firstCase scope cases) (fun label _ => ?_) hfail
  exact meets_keep_label _

/-! ## 3. Visits -/

theorem sights_warned (g : Guard) (w : World) : sights W.tag (w.warned d g).journal =
    d.warnings g w.channel.subscribers ++ sights W.tag w.journal := by
  have hall : ∀ e ∈ d.warnings g w.channel.subscribers, e.isSight W.tag = true := by
    intro e he
    obtain ⟨l, -, rfl⟩ := d.mem_warnings he
    rfl
  rw [World.warned, sights, List.filter_append, List.filter_eq_self.2 hall, sights]

/-- A guard lets its node run, or what it says is seen. -/
theorem meets_guardExit? (hd : W.Minds d) (hs : scene.shared = W.shared) :
    Act.Meets W.regime (some s) (d.guardExit? scene) fun r k =>
      (r = .ok none ∧ k = some s ∧ ∀ g, d.guard = some g → s.counts d.id < g.limit) ∨
      ∃ g, d.guard = some g ∧ g.limit ≤ s.counts d.id ∧ r = .ok (some g.exit) ∧
        k = some (W.tripped d g s) := by
  intro w hw
  have hsight : W.sight w = s := hw.mark s rfl
  have hcounts : scene.shared.visitsOf w.heap = s.counts := by
    rw [← hsight, hs]
    rfl
  cases hg : d.guard with
  | none =>
    rw [Declared.guardExit?, hg]
    exact ⟨hw.refl, Or.inl ⟨rfl, hw.after_eq, (by simp)⟩⟩
  | some g =>
    have htallied : scene.shared.Tallied w.heap := hs ▸ hw.inv.tallied
    rcases Int.lt_or_le (s.counts d.id) g.limit with hlt | hle
    · rw [Declared.guardExit?_of_lt hg htallied (hcounts ▸ hlt)]
      exact ⟨hw.refl, Or.inl ⟨rfl, hw.after_eq, fun g' hg' => Option.some.inj hg' ▸ hlt⟩⟩
    · rw [Declared.guardExit?_of_le hg htallied (hcounts ▸ hle)]
      -- every subscriber is handed the diagnostic, and all else stays
      have hafter : W.sight (w.warned d g) = W.tripped d g s := by
        rw [← hsight, sight, sights_warned, tripped, ← hw.inv.subscribers]
        rfl
      refine ⟨⟨⟨hw.inv.beside, hw.inv.tallied, hw.inv.subscribers, ?_⟩, (by simp)⟩,
        Or.inr ⟨g, rfl, hle, rfl, congrArg some hafter⟩⟩
      rw [hafter]
      exact hd.trips s g (hsight ▸ hw.inv.allowed) hg hle

section

variable {m : Type → Type u} [Performs World m] [Reasoned World Datum m]

/-- A visit is as its guard and its course have it. -/
theorem meets_guarded (hd : W.Minds d) (hs : scene.shared = W.shared) {visit : m Datum}
    (hvisit : (W.allowed s → W.allowed (counted d s)) →
      Reasoned.Meets W.regime (some s) visit (Finishes W d s)) :
    Reasoned.Meets W.regime (some s) (d.guarded scene visit) (Outcome W d s) := by
  refine Reasoned.bind (Reasoned.perform (meets_guardExit? hd hs)) ?_ ?_
  · rintro o k (⟨ho, rfl, hlt⟩ | ⟨g, hg, hle, ho, rfl⟩)
    · obtain rfl := Except.ok.inj ho
      exact Reasoned.mono (hvisit fun h => hd.counts s h hlt) fun r k h => .runs hlt h
    · obtain rfl := Except.ok.inj ho
      exact Reasoned.pure (.trips hg hle)
  · rintro e k (⟨ho, -⟩ | ⟨g, -, -, ho, -⟩)
    · cases ho
    · cases ho

theorem prepares_stages {α β : Type} {P : α → Prop} {Q : β → Prop} {prep : Act World α}
    {exec : β → m Datum} (post : Datum → Act World Datum) (hprep : W.Calm prep P)
    (hexec : ∀ b, Q b → W.Calm (exec b) fun _ => True) :
    W.duty.Prepares (Declared.stages prep exec post : Stages m α β) P Q where
  prep := .perform hprep
  exec := hexec
  fallback _ _ _ he := .throw he

end

variable {env : Environment}

theorem meets_single {α : Type} {P : α → Prop} {title kind : String}
    {prep : Environment → Declared → Scene → Act World α}
    {exec : Environment → Declared → α → Act World Datum}
    {post : Declared → Scene → Datum → Act World Datum} (hd : W.Minds d) (hs : scene.shared = W.shared)
    (hprep : W.Calm (prep env d scene) P) (hexec : ∀ a, P a → W.Calm (exec env d a) fun _ => True)
    (hpost : (W.allowed s → W.allowed (counted d s)) → ∀ r,
      Act.Meets W.regime (some s) (post d scene r) (Finishes W d s))
    (policy : RetryPolicy) (number : Nat) :
    ((Make.single title kind prep exec post).conduct env d policy number).Meets W.regime (some s) scene
      (Outcome W d s) := by
  refine meets_guarded (m := Act World) hd hs fun hallowed => ?_
  exact (prepares_stages _ hprep hexec).once (fun _ r _ _ => hpost hallowed r) fun _ he => .fails he

/-- Whatever way a node of a built-in kind is made, its visits have one of the outcomes. -/
theorem meets_ofKind (henv : W.SuitsAll env) (modelWaits : Bool) (k : Kind) (hd : W.Minds d)
    (hs : scene.shared = W.shared) (s : Sight) (policy : RetryPolicy) (number : Nat) :
    ((Make.ofKind modelWaits k).conduct env d policy number).Meets W.regime (some s) scene
      (Outcome W d s) := by
  have hfail : ∀ e, W.fails e → Finishes W d s (.error e) (some s) := fun _ he => .fails he
  -- two kinds make it: the cooperative one, and the other that calls a model if the model waits
  have hcooperative : (Make.cooperative.conduct env d policy number).Meets W.regime (some s) scene
      (Outcome W d s) := by
    refine meets_guarded (m := Coop World Datum) hd hs fun hallowed => ?_
    refine (prepares_stages _ (calm_preparePrompt henv) fun _ hp => calm_promptedCallWaiting hp).once
      (fun _ r _ _ => ?_) hfail
    exact Reasoned.perform (meets_finish hd hs hallowed r)
  cases k with
  | router =>
    exact meets_single (P := fun _ => True) hd hs (.pure trivial) (fun _ _ => .pure trivial)
      (fun hallowed _ => meets_route hs hallowed) policy number
  | httpCall =>
    exact meets_single hd hs (calm_prepareRequest henv) (fun _ hr => calm_send hr)
      (fun hallowed r => meets_finish hd hs hallowed r) policy number
  | staticData =>
    exact meets_single (P := fun _ => True) hd hs (.pure trivial) (fun _ _ => calm_copyData)
      (fun hallowed r => meets_finish hd hs hallowed r) policy number
  | llmCall =>
    cases modelWaits with
    | true => exact hcooperative
    | false =>
      exact meets_single hd hs (calm_preparePrompt henv) (fun _ hp => calm_promptedCall hp)
        (fun hallowed r => meets_finish hd hs hallowed r) policy number
  | cooperative => exact hcooperative
  | batch =>
    cases modelWaits with
    | true =>
      refine meets_guarded (m := Coop World Datum) hd hs fun hallowed => ?_
      refine (prepares_stages _ (calm_workOrders henv) fun _ ho => calm_carryOutWaiting ho).inOrder
        (fun _ ho => .pure ho) (fun _ r _ _ => ?_) hfail
      exact Reasoned.perform (meets_finish hd hs hallowed r)
    | false =>
      refine meets_guarded (m := Act World) hd hs fun hallowed => ?_
      refine (prepares_stages _ (calm_workOrders henv) fun _ ho => calm_carryOut ho).inOrder
        (fun _ ho => .pure ho) (fun _ r _ _ => ?_) hfail
      exact meets_finish hd hs hallowed r
  | cooperativeParallel =>
    refine meets_guarded (m := Coop World Datum) hd hs fun hallowed => ?_
    refine (prepares_stages _ (calm_workOrders henv) fun _ ho => calm_carryOutWaiting ho).together
      (fun _ ho => .pure ho) (fun _ r _ _ => ?_) hfail
    exact Coop.Meets.ofAct (meets_finish hd hs hallowed r)

end Watch

end NodeFlow
