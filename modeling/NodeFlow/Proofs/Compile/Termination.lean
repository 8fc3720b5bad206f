import NodeFlow.Proofs.Compile.LoopGuard
import NodeFlow.Proofs.Compile.Trails
import NodeFlow.Proofs.Description.Cycles
import NodeFlow.Proofs.Run.Progress
/-!
# Guarded cycles terminate

A walk keeps no list of where it has been and needs no limit. If every cycle goes through a guarded node, and
a guard that trips leads nowhere, it comes to an end nevertheless: every node that it goes on from lowers the
potential of the counts and the place.

That the walk is over after so many visits says nothing about the rounds that a cooperative run takes, since a
collaborator may give up control as often as it likes. There are enough rounds, but their number depends on
the run.
-/

set_option autoImplicit false

namespace NodeFlow

open Description

/-! ## 1. Starts -/

/-- Is an event the news that a visit starts? -/
def Event.isStart : Event → Bool
  | .told _ (.nodeStart _) => true
  | _ => false

/-- How often listeners have been told that a visit starts. -/
def starts (events : List Event) : Nat := events.countP Event.isStart

theorem starts_append (new old : List Event) : starts (new ++ old) = starts new + starts old :=
  List.countP_append

theorem starts_replicate_start (n : Nat) (tag name : String) :
    starts (List.replicate n (.told tag (.nodeStart name))) = n := by
  rw [starts, List.countP_replicate]
  rfl

theorem starts_eq_zero {events : List Event} (h : ∀ e ∈ events, e.isStart = false) : starts events = 0 := by
  rw [starts, List.countP_eq_zero]
  exact fun e he => Bool.eq_false_iff.1 (h e he)

theorem starts_replicate (n : Nat) (tag : String) (call : HookCall) (h : ∀ name, call ≠ .nodeStart name) :
    starts (List.replicate n (.told tag call)) = 0 := by
  refine starts_eq_zero fun e he => ?_
  obtain rfl := List.eq_of_mem_replicate he
  cases call with
  | nodeStart name => exact absurd rfl (h name)
  | _ => rfl

theorem starts_warnings (d : Declared) (g : Guard) (ls : List Listener) : starts (d.warnings g ls) = 0 := by
  refine starts_eq_zero fun e he => ?_
  obtain ⟨l, -, rfl⟩ := d.mem_warnings he
  rfl

/-! ## 2. The watch over a walk -/

/-- Collaborators give an answer or raise something. -/
structure Environment.Returns (env : Environment) : Prop where
  model : ∀ m, env.model = some m → ∀ n prompt name, m.answer n prompt name ≠ .error .exhausted
  http : ∀ answer, env.http = some (.given answer) → ∀ n, answer n ≠ .error .exhausted

namespace Watch

/-- The watch over a walk with so many visits at most. -/
def limiting (tag : String) (ears : Nat) (u : World) (shared : Shared) (total : Nat) (fails : Failure → Prop)
    (hfails : ∀ e, e ≠ .exhausted → fails e) : Watch :=
  since tag ears u shared (fun new _ => starts new ≤ ears * total) fails hfails

theorem suitsAll_of_returns {tag : String} {ears : Nat} {u : World} {shared : Shared} {total : Nat}
    {env : Environment} (henv : env.Returns) :
    (limiting tag ears u shared total (· ≠ .exhausted) fun _ h => h).SuitsAll env where
  model m hm n prompt name e he hcut := henv.model m hm n prompt name (hcut ▸ he)
  http client hclient := by
    cases client with
    | given answer => exact fun n e he hcut => henv.http answer hclient n (hcut ▸ he)
    | session client => trivial

/-- Before a node of a description whoever listens has been told of so many starts, and there are more visits
than these and what is before the walk. -/
def Paced (tag : String) (ears : Nat) (u : World) (total : Nat) (d : Value) (step i : Nat) (s : Sight) : Prop :=
  ∃ m new, (nodesOf d)[i]? = some m ∧ s.seen = new ++ sights tag u.journal ∧ starts new = ears * step ∧
    step + potential d s.counts (idOf m) < total

variable {tag : String} {ears : Nat} {u : World} {shared : Shared} {total : Nat} {fails : Failure → Prop}
  {hfails : ∀ e, e ≠ .exhausted → fails e} {s : Sight}

/-- Whatever is told but the start of a visit may be told. -/
theorem allowed_told_of_ne {call : HookCall} (hcall : ∀ name, call ≠ .nodeStart name)
    (h : (limiting tag ears u shared total fails hfails).allowed s) :
    (limiting tag ears u shared total fails hfails).allowed
      ((limiting tag ears u shared total fails hfails).told call s) := by
  obtain ⟨new, hseen, hstarts⟩ := h
  refine since_told hseen ?_
  rwa [starts_append, starts_replicate ears tag call hcall, Nat.zero_add]

end Watch

/-! ## 3. Every step lowers the potential -/

namespace Description

variable {d m : Value} {g : Guard}

theorem exit_ne (hg : Declared.guardOf m = some g) : g.exit ≠ "" := by
  rw [Declared.guardOf] at hg
  split at hg
  · obtain rfl := Option.some.inj hg
    dsimp only
    cases hexit : ((m.field "loop_guard").field "exit").name? with
    | none => decide
    | some exit => exact ((name?_eq_some_iff _ _).1 hexit).2
  · cases hg

/-- Without edges under the wildcard a visit goes on where an edge under its own label leads. -/
theorem ExitsEnd.routesTo {node : String} {shown : Value} {t : String} (h : ExitsEnd d)
    (ht : Continues d node shown t) : RoutesTo d node shown t := by
  rcases ht with ht | ⟨-, l, hl, e, he, hlead⟩
  · exact ht
  · obtain rfl : wildcardLabel = l := Value.str.inj hl
    exact absurd hlead (h.wildcard e he node t)

/-- A visit that has tripped goes on nowhere. -/
theorem ExitsEnd.not_continues (h : ExitsEnd d) (hm : m ∈ nodesOf d) (hg : Declared.guardOf m = some g)
    (t : String) : ¬ Continues d (idOf m) (.str g.exit) t := by
  intro ht
  obtain ⟨l, hl, e, he, hlead⟩ := h.routesTo ht
  have htruthy : (Value.str g.exit).truthy = true := by
    simp [Value.truthy, exit_ne hg]
  rw [Value.orElse, if_pos htruthy] at hl
  obtain rfl := Value.str.inj hl
  exact h.exit m hm g hg e he t hlead

end Description

namespace Compiler

variable {tag : String} {ears : Nat} {u : World} {shared : Shared} {total : Nat} {fails : Failure → Prop}
  {hfails : ∀ e, e ≠ .exhausted → fails e} {d m : Value} {c : Compiled} {W : Watch}

/-- A visit that goes on has run, and it has lowered the potential. -/
theorem goes_on {m' : Value} {s s' : Sight} {x : Datum} {h : Heap} (hf : Faithful d c)
    (hcycles : CyclesGuarded d) (hexits : ExitsEnd d) (hm : m ∈ nodesOf d)
    (hpasses : W.Passes m s x s') (hnext : Continues d (idOf m) (h.view x) (idOf m')) :
    s'.seen = (W.told (.nodeStart (idOf m)) s).seen ∧
      potential d s'.counts (idOf m') < potential d s.counts (idOf m) := by
  rcases hpasses.cases with ⟨rfl, hlt⟩ | ⟨g, hg, -, rfl, -⟩
  · refine ⟨rfl, ?_⟩
    cases hg : Declared.guardOf m with
    | some g =>
      have hcounts : (Watch.counted (Terms.declaredOf m) (W.told (.nodeStart (idOf m)) s)).counts =
          Function.update s.counts (idOf m) (s.counts (idOf m) + 1) := by
        rw [Watch.counted, Declared.bump, Terms.declaredOf, hg]
        rfl
      rw [hcounts]
      exact potential_lt_of_guarded hm hg (hlt g hg) _
    | none =>
      have hcounts : (Watch.counted (Terms.declaredOf m) (W.told (.nodeStart (idOf m)) s)).counts =
          s.counts := by
        rw [Watch.counted, Declared.bump, Terms.declaredOf, hg]
        rfl
      obtain ⟨l, -, e, he, hlead⟩ := hexits.routesTo hnext
      rw [hcounts]
      refine potential_lt_of_unguarded hcycles hm hg ⟨⟨e, he, l, hlead⟩, ?_⟩
      rintro ⟨other, hother, hid, hsome⟩
      rw [hf.eq_of_idOf hother hm hid, hg] at hsome
      cases hsome
  · exact absurd hnext (hexits.not_continues hm hg _)

/-- What is known before the nodes of a walk carries over from node to node. -/
theorem carries_limiting (hf : Faithful d c) (hwell : WellFormed Kind.names Kind.routerNames d)
    (hcycles : CyclesGuarded d) (hexits : ExitsEnd d) :
    (Watch.limiting tag ears u shared total fails hfails).Carries d c (Watch.Paced tag ears u total d) where
  counts _ _ _ hallowed _ := hallowed
  trips m _ s g hallowed _ _ := by
    obtain ⟨new, hseen, hstarts⟩ := hallowed
    refine Watch.since_tripped hseen ?_
    rwa [starts_append, starts_warnings, Nat.zero_add]
  starts step i m s hbefore hm _ := by
    obtain ⟨_, new, _, hseen, hstarts, hlt⟩ := hbefore
    refine Watch.since_told hseen ?_
    have hstep : ears * (step + 1) ≤ ears * total := Nat.mul_le_mul_left ears (by omega)
    rw [Nat.mul_succ] at hstep
    rw [starts_append, starts_replicate_start, hstarts]
    omega
  fails _ _ _ := Watch.allowed_told_of_ne nofun
  ends _ _ _ _ _ _ _ _ _ _ _ _ := Watch.allowed_told_of_ne nofun
  stops _ _ := Watch.allowed_told_of_ne nofun
  follows := by
    intro step i m s x s' h context n j hbefore hm hpasses _ _ hn hnext
    obtain ⟨m₀, new, hm₀, hseen, hstarts, hlt⟩ := hbefore
    obtain rfl : m = m₀ := Option.some.inj (hm.symm.trans hm₀)
    -- the number that follows is that of a declared node
    obtain ⟨t, hcontinues, hj⟩ := (hf.next?_eq hwell hn hnext).1 j rfl
    rw [hf.ids, List.getElem?_map, Option.map_eq_some_iff] at hj
    obtain ⟨m', hm', rfl⟩ := hj
    have hname : n.name = idOf m := by
      have hids := congrArg (·[i]?) (hf.names.trans hf.ids)
      simp only [List.getElem?_map, hn, hm, Option.map_some] at hids
      exact Option.some.inj hids
    obtain ⟨hseen', hlower⟩ := goes_on hf hcycles hexits (List.mem_of_getElem? hm) hpasses
      (hname ▸ hcontinues)
    refine ⟨m', List.replicate ears (.told tag (.nodeEnd (idOf m) (h.view x) context)) ++
      (List.replicate ears (.told tag (.nodeStart (idOf m))) ++ new), hm', ?_, ?_, ?_⟩
    · rw [List.append_assoc, List.append_assoc, ← hseen]
      exact congrArg _ hseen'
    · rw [starts_append, starts_append, starts_replicate_start, starts_replicate _ _ (.nodeEnd _ _ _) nofun, hstarts,
        Nat.zero_add, Nat.mul_succ, Nat.add_comm]
    · exact lt_of_le_of_lt (by change _ + potential d s'.counts _ ≤ _; omega) hlt

end Compiler

/-! ## 4. Runs -/

/-- With enough rounds a run is as the journey has it. -/
theorem Regime.Guides.exists_run {τ : Type} {R : Regime World Datum τ} {Good : Scene → Prop} {c : Compiled}
    {plan : FlowPlan} {params : Addr} {first : Nat} {J : Journey τ}
    (h : R.Guides Good c plan params first J) {shared : Shared} (hgood : Good ⟨shared, params⟩) {t : τ}
    (hbefore : J.before 0 first (some t)) (visits : Nat)
    (hout : ∀ step i k, visits ≤ step + 1 → J.before step i k → J.ends (.error .exhausted) k) {w : World}
    (hw : R.Admits (some t) w) :
    ∃ enough, ∀ rounds ≥ enough, ∃ k, J.ends (c.runWithin ⟨visits, rounds⟩ shared w).1 k := by
  cases hcooperative : c.nodes.any Node.isCooperative with
  | false =>
    refine ⟨0, fun rounds _ => ?_⟩
    exact ⟨_, (h.run_blocking (b := ⟨visits, rounds⟩) hcooperative hgood hbefore hout w hw).2⟩
  | true =>
    have hmeets := h.run_waiting (b := ⟨visits, 0⟩) hcooperative hgood hbefore hout
    obtain ⟨enough, henough⟩ := hmeets.exists_run hw
    refine ⟨enough, fun rounds hrounds => ?_⟩
    rw [h.walks.runWithin_waiting hcooperative]
    exact ⟨_, henough rounds hrounds⟩

namespace Compiler

section

variable {env : Environment} {own params : Addr} {nodes : List Node} {edges : List Edge} {start : Nat}
  {tag : String} {ears : Nat} {u : World} {shared : Shared} {d : Value} {c : Compiled}

/-- Before the first node everything is still to come, and that is less than the bound. -/
theorem Assembles.paced_start (h : Assembles env d own params nodes edges start c) (hf : Faithful d c)
    (hu : shared.Tallied u.heap) :
    Watch.Paced tag ears u ((totalLimit d + 2) * (unguarded d + 1)) d 0 start
      ⟨sights tag u.journal, shared.visitsOf u.heap⟩ := by
  have hstart : start < (nodesOf d).length := by
    rw [← List.length_map idOf, ← hf.ids]
    exact h.start_lt
  refine ⟨_, [], List.getElem?_eq_getElem hstart, rfl, rfl, ?_⟩
  rw [Nat.zero_add]
  refine potential_lt (fun id => ?_) _
  obtain ⟨k, -, hk⟩ := hu.get?_counts id
  exact le_of_le_of_eq (Int.natCast_nonneg k) hk.symm

/-- However a run is bounded, no more visits start. -/
theorem Assembles.starts_le (h : Assembles env d own params nodes edges start c)
    (hwell : WellFormed Kind.names Kind.routerNames d) (hcycles : CyclesGuarded d) (hexits : ExitsEnd d)
    (hreads : ∀ W : Watch, W.base = u.heap → W.shared = shared → W.Reads d) (hu : shared.Tallied u.heap)
    (limit : Value) (ls : List Listener) (tag : String) (b : Graph.Bounds) :
    ∃ new, sights tag ((c.configured limit ls).runWithin b shared u).2.journal =
        new ++ sights tag u.journal ∧
      starts new ≤ (ls.filter fun l => l.tag = tag).length * ((totalLimit d + 2) * (unguarded d + 1)) := by
  have hf := h.faithful (distinct_ids hwell)
  let W := Watch.limiting tag (ls.filter fun l => l.tag = tag).length u shared
    ((totalLimit d + 2) * (unguarded d + 1)) (fun _ => True) fun _ _ => trivial
  obtain ⟨plan, hguides⟩ := h.guides (W := W) hf (.of_all fun _ => trivial) (hreads _ rfl rfl)
    (carries_limiting hf hwell hcycles hexits) limit rfl
  have hmeets := hguides.run (b := b) rfl ⟨_, rfl, h.paced_start hf hu⟩ fun _ _ _ _ _ _ _ => trivial
  exact (hmeets u ⟨Watch.since_inv hu (Nat.zero_le _), fun _ h => Option.some.inj h⟩).1.inv.allowed

/-- With room for so many visits and enough rounds, the walk is not cut short. -/
theorem Assembles.exists_rounds (h : Assembles env d own params nodes edges start c)
    (hwell : WellFormed Kind.names Kind.routerNames d) (hcycles : CyclesGuarded d) (hexits : ExitsEnd d)
    (henv : env.Returns)
    (hreads : ∀ W : Watch, W.base = u.heap → W.shared = shared → W.Reads d) (hu : shared.Tallied u.heap)
    (limit : Value) (ls : List Listener) {visits : Nat}
    (hvisits : (totalLimit d + 2) * (unguarded d + 1) < visits) : ∃ enough, ∀ rounds ≥ enough,
      ((c.configured limit ls).runWithin ⟨visits, rounds⟩ shared u).1 ≠ .error .exhausted := by
  have hf := h.faithful (distinct_ids hwell)
  -- which listeners are watched makes no difference
  let W := Watch.limiting "" (ls.filter fun l => l.tag = "").length u shared
    ((totalLimit d + 2) * (unguarded d + 1)) (· ≠ .exhausted) fun _ h => h
  obtain ⟨plan, hguides⟩ := h.guides (W := W) hf (Watch.suitsAll_of_returns henv) (hreads _ rfl rfl)
    (carries_limiting hf hwell hcycles hexits) limit rfl
  have hrun := hguides.exists_run rfl ⟨_, rfl, h.paced_start hf hu⟩ visits ?room
    ⟨Watch.since_inv hu (Nat.zero_le _), fun _ h => Option.some.inj h⟩
  case room =>
    -- so many visits are never made
    rintro step i k hout ⟨s, -, m, new, -, -, -, hlt⟩
    omega
  obtain ⟨enough, henough⟩ := hrun
  refine ⟨enough, fun rounds hrounds hcut => ?_⟩
  obtain ⟨k, hends⟩ := henough rounds hrounds
  exact hends .exhausted hcut rfl

end

/-- **Guarded cycles terminate.** An accepted description whose cycles all go through guarded nodes, whose
guards lead nowhere when they trip, and whose outputs are saved apart from the counts is compiled. With
collaborators that give an answer or raise something every run of the graph ends with a label or a failure, in
any context with counts or without, whatever its limit and whoever listens: it makes no more visits than the
limits of the guards and the nodes without a guard allow. If it is given room for so many visits it is not cut
short, and however it is bounded, no listener is told of more starts than that. -/
theorem guarded_cycles_terminate {env : Environment} {d : Value} {w : World} (hjson : d.IsJson)
    (haccepted : (ofEnvironment env).problems d = .ok []) (hglobals : env.HasGlobals w.heap)
    (henv : env.Returns) (hcycles : CyclesGuarded d) (hexits : ExitsEnd d) (hapart : SavesApart d) :
    ∃ c w', (ofEnvironment env).compile d w = (.ok c, w') ∧
      ∀ u shared, Intact w w' u → Outside w w' shared.data → shared.Tallied u.heap → ∀ limit ls,
        (∀ visits, (totalLimit d + 2) * (unguarded d + 1) < visits → ∃ enough, ∀ rounds ≥ enough,
          ((c.configured limit ls).runWithin ⟨visits, rounds⟩ shared u).1 ≠ .error .exhausted) ∧
        ∀ tag b, ∃ new, sights tag ((c.configured limit ls).runWithin b shared u).2.journal =
            new ++ sights tag u.journal ∧
          starts new ≤ (ls.filter fun l => l.tag = tag).length *
            ((totalLimit d + 2) * (unguarded d + 1)) := by
  obtain ⟨d', kept, common, nodes, edges, start, c, hkept, hwell, -, h, hcompile⟩ :=
    compile_ok hjson haccepted hglobals
  refine ⟨c, _, hcompile, ?_⟩
  intro u shared hintact houtside hu limit ls
  -- what is asked of the description is asked of the one that was kept, and marks make no difference
  rw [← hkept.fresh, totalLimit_fresh, unguarded_fresh]
  rw [← hkept.fresh] at hcycles hexits hapart
  rw [cyclesGuarded_fresh] at hcycles
  rw [savesApart_fresh] at hapart
  have hexits := hexits.of_fresh
  have hafter := (Heap.extends_alloc kept (.dict [])).trans
    (Heap.extends_alloc _ (.dict (paramsFor common kept d')))
  have hreads : ∀ W : Watch, W.base = u.heap → W.shared = shared → W.Reads d' := fun W hbase hshared =>
    reads_of_intact hkept hwell hafter hintact hbase (hshared ▸ houtside) hapart
  refine ⟨fun visits hvisits => ?_, fun tag b => ?_⟩
  · exact h.exists_rounds hwell hcycles hexits henv hreads hu limit ls hvisits
  · exact h.starts_le hwell hcycles hexits hreads hu limit ls tag b

theorem mem_edgesOf_reviewLoop {e : Value} (h : e ∈ edgesOf reviewLoop) :
    e = .ofMembers [("from", .str "draft"), ("to", .str "review")] ∨
      e = .ofMembers [("from", .str "review"), ("to", .str "draft")] := by
  rcases List.mem_cons.1 h with rfl | h
  · exact Or.inl rfl
  · exact Or.inr (List.mem_singleton.1 h)

/-- Every way round the loop goes through the draft. -/
theorem cyclesGuarded_reviewLoop : CyclesGuarded reviewLoop := by
  intro first rest _ hback
  have hdraft : Guarded reviewLoop "draft" := ⟨_, List.mem_cons_self, rfl, rfl⟩
  obtain ⟨e, he, l, hlead⟩ := hback
  rcases mem_edgesOf_reviewLoop he with rfl | rfl
  · have hsource := Value.str.inj hlead.source
    exact ⟨_, List.getLast_mem (List.cons_ne_nil first rest), hsource ▸ hdraft⟩
  · have htarget := Value.str.inj hlead.target
    exact ⟨first, List.mem_cons_self, htarget ▸ hdraft⟩

theorem exitsEnd_reviewLoop : ExitsEnd reviewLoop := by
  -- all edges have the default label
  have hlabel : ∀ e ∈ edgesOf reviewLoop, ∀ s l t, Leads e s l t → l = defaultLabel := by
    intro e he s l t hlead
    rcases mem_edgesOf_reviewLoop he with rfl | rfl
    · exact (Value.str.inj hlead.label).symm
    · exact (Value.str.inj hlead.label).symm
  refine ⟨fun m hm g hg e he t hlead => ?_, fun e he s t hlead => ?_⟩
  · have hexit := hlabel e he _ _ t hlead
    rcases List.mem_cons.1 hm with rfl | hm
    · obtain rfl := Option.some.inj hg
      exact absurd hexit (by decide)
    · obtain rfl := List.mem_singleton.1 hm
      cases hg
  · exact absurd (hlabel e he s _ t hlead) (by decide)

/-- The loop of a draft and its review ends after eight visits at most, whatever comes of a review. -/
theorem guarded_cycles_terminate_reviewLoop : ∃ c w',
    (ofEnvironment .bare).compile reviewLoop .blank = (.ok c, w') ∧ ∀ limit l, ∀ u : World,
      u = { w' with heap := (w'.heap.alloc (.dict [])).2 } → ∃ enough, ∀ rounds ≥ enough,
        ((c.configured limit [l]).runWithin ⟨9, rounds⟩ ⟨w'.heap.cells.size, none⟩ u).1 ≠ .error .exhausted ∧
        ∃ new, sights l.tag ((c.configured limit [l]).runWithin ⟨9, rounds⟩
            ⟨w'.heap.cells.size, none⟩ u).2.journal = new ++ sights l.tag w'.journal ∧ starts new ≤ 8 := by
  obtain ⟨c, w', hcompile, hruns⟩ := @guarded_cycles_terminate .bare reviewLoop .blank isJson_reviewLoop
    (problems_reviewLoop .bare) (Or.inl rfl) ⟨nofun, nofun⟩ cyclesGuarded_reviewLoop exitsEnd_reviewLoop
    savesApart_reviewLoop
  refine ⟨c, w', hcompile, ?_⟩
  rintro limit l u rfl
  have hintact : Intact .blank w' { w' with heap := (w'.heap.alloc (.dict [])).2 } :=
    Intact.alloc (fun _ _ => rfl) (Nat.le_refl _) (.dict [])
  obtain ⟨hends, hstarts⟩ := hruns _ ⟨w'.heap.cells.size, none⟩ hintact (Or.inr (Nat.le_refl _))
    (Shared.tallied_new w'.heap) limit [l]
  have hbound : (totalLimit reviewLoop + 2) * (unguarded reviewLoop + 1) = 8 := rfl
  have hone : ([l].filter fun l' => l'.tag = l.tag).length = 1 := by simp
  rw [hbound] at hends
  obtain ⟨enough, henough⟩ := hends 9 (by decide)
  refine ⟨enough, fun rounds hrounds => ⟨henough rounds hrounds, ?_⟩⟩
  have hcount := hstarts l.tag ⟨9, rounds⟩
  rwa [hbound, hone, Nat.one_mul] at hcount

end Compiler

end NodeFlow
