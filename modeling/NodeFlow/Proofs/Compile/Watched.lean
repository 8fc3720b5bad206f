import NodeFlow.Proofs.Compile.Sessions
import NodeFlow.Proofs.Compile.Visits
import NodeFlow.Proofs.Description.Cycles
import NodeFlow.Proofs.Memory.Parts
/-!
# Compiled graphs under a watch

A walk of a compiled graph under a watch goes from node to node: the start of a visit is told, the visit
comes to one of its outcomes, its end is told, and an edge is followed. Whoever has something to say about
all such walks says what is known before a node, and has to show that it carries over to the next one.

The declarations are read from memory at every visit, and they are there as long as nothing but the watched
context changes.
-/

set_option autoImplicit false

universe u

namespace NodeFlow

open Description

/-! ## 1. Telling -/

theorem FlowPlan.audience_configured (name : String) (start : Option Nat) (limit : Value)
    (ls : List Listener) (call : HookCall) :
    Terms.audience (FlowPlan.configured ⟨name, start, .null, []⟩ limit ls) call =
      ls.map fun l => (call.hook, l) := by
  rw [FlowPlan.configured, FlowPlan.foldl_listened, Terms.audience]
  induction ls with
  | nil => rfl
  | cons l ls ih =>
    rw [List.flatMap_cons, List.nil_append, List.filter_append, List.map_cons]
    rw [List.nil_append] at ih
    -- one of the moments is that of the call
    have hone : (Hook.all.map fun h => (h, l)).filter (fun p => p.1 = call.hook) = [(call.hook, l)] := by
      cases call <;> rfl
    rw [hone, ih, List.singleton_append]

namespace Watch

variable {W : Watch} {s : Sight}

/-- What is seen after the listeners have been told of something. -/
def told (W : Watch) (call : HookCall) (s : Sight) : Sight :=
  ⟨List.replicate W.ears (.told W.tag call) ++ s.seen, s.counts⟩

/-- Whatever is told under a plan, so many listeners are told of it under the tag. -/
def Hears (W : Watch) (plan : FlowPlan) : Prop :=
  ∀ call, ((Terms.audience plan call).filter fun l => l.2.tag = W.tag).length = W.ears

theorem hears_configured {name : String} {start : Option Nat} (limit : Value) {ls : List Listener}
    (hears : (ls.filter fun l => l.tag = W.tag).length = W.ears) :
    W.Hears (FlowPlan.configured ⟨name, start, .null, []⟩ limit ls) := by
  intro call
  rw [FlowPlan.audience_configured, List.filter_map, List.length_map]
  exact hears

theorem sights_told (ls : List (Hook × Listener)) (call : HookCall) (tag : String) (journal : List Event) :
    sights tag ((ls.map fun l => Event.told l.2.tag call).reverse ++ journal) =
      List.replicate (ls.filter fun l => l.2.tag = tag).length (.told tag call) ++ sights tag journal := by
  have hcomp : Event.isSight tag ∘ (fun l : Hook × Listener => Event.told l.2.tag call) =
      fun l => decide (l.2.tag = tag) := rfl
  have htold : (ls.filter fun l => l.2.tag = tag).map (fun l => Event.told l.2.tag call) =
      List.replicate (ls.filter fun l => l.2.tag = tag).length (.told tag call) := by
    rw [List.eq_replicate_iff, List.length_map]
    refine ⟨rfl, List.forall_mem_map.2 fun l hl => ?_⟩
    rw [of_decide_eq_true (List.mem_filter.1 hl).2]
  rw [sights, List.filter_append, List.filter_reverse, List.filter_map, hcomp, htold, List.reverse_replicate,
    sights]

theorem tells {plan : FlowPlan} (hears : W.Hears plan) {call : HookCall}
    (hallowed : W.allowed s → W.allowed (W.told call s)) :
    W.regime.Tells plan (some s) call fun k => k = some (W.told call s) ∧ W.allowed (W.told call s) := by
  intro w hw
  have hsight : W.sight w = s := hw.mark s rfl
  have hafter : W.sight ((Flow.plain plan : Flow (Act World)).tell call w).2 = W.told call s := by
    rw [← hsight]
    rw [told, ← hears call]
    rw [Flow.tell_eq_modify]
    exact congrArg (Sight.mk · _) (sights_told _ _ _ _)
  have hthen : W.allowed (W.told call s) := hallowed (hsight ▸ hw.inv.allowed)
  refine ⟨⟨⟨hw.inv.beside, hw.inv.tallied, hw.inv.subscribers, ?_⟩, nofun⟩, rfl, ?_, hthen⟩
  · rw [hafter]
    exact hthen
  · exact congrArg some hafter

/-! ## 2. What has been seen since -/

/-- A watch that begins in a world, with what may have been seen since and what the counts may be then. -/
def since (tag : String) (ears : Nat) (u : World) (shared : Shared)
    (allowed : List Event → (String → Int) → Prop) (fails : Failure → Prop)
    (hfails : ∀ e, e ≠ .exhausted → fails e) : Watch where
  tag := tag
  ears := ears
  base := u.heap
  shared := shared
  subscribers := u.channel.subscribers
  allowed s := ∃ new, s.seen = new ++ sights tag u.journal ∧ allowed new s.counts
  fails := fails
  fails_of_ne := hfails

section

variable {tag : String} {ears : Nat} {u : World} {shared : Shared}
  {allowed : List Event → (String → Int) → Prop} {fails : Failure → Prop}
  {hfails : ∀ e, e ≠ .exhausted → fails e}

theorem since_inv (hu : shared.Tallied u.heap) (hallowed : allowed [] (shared.visitsOf u.heap)) :
    (since tag ears u shared allowed fails hfails).Inv u :=
  ⟨.refl _ _, hu, rfl, [], rfl, hallowed⟩

variable {new : List Event}

theorem since_told {call : HookCall} (hseen : s.seen = new ++ sights tag u.journal)
    (hnew : allowed (List.replicate ears (.told tag call) ++ new) s.counts) :
    (since tag ears u shared allowed fails hfails).allowed
      ((since tag ears u shared allowed fails hfails).told call s) := by
  refine ⟨_, ?_, hnew⟩
  rw [List.append_assoc, ← hseen]
  rfl

theorem since_tripped {d : Declared} {g : Guard} (hseen : s.seen = new ++ sights tag u.journal)
    (hnew : allowed (d.warnings g u.channel.subscribers ++ new) s.counts) :
    (since tag ears u shared allowed fails hfails).allowed
      ((since tag ears u shared allowed fails hfails).tripped d g s) := by
  refine ⟨_, ?_, hnew⟩
  rw [List.append_assoc, ← hseen]
  rfl

end

/-! ## 3. Declarations in memory -/

/-- A declaration that is held is read as it was declared. -/
theorem contentIn_eq {m : Value} (hobject : IsObject m) (hheld : W.base.Holds m)
    (hdata : W.shared.data ∉ m.marks) {h : Heap} (hh : W.base.Beside W.shared.data h) :
    (Terms.declaredOf m).contentIn h = m := by
  have hheld' : h.Holds m := hheld.congr fun a ha =>
    hh.cell a (hheld.mark_lt a ha) fun hdatum => hdata (hdatum ▸ ha)
  obtain ⟨cell, ms, rfl⟩ := hobject
  cases hheld with
  | plain hp => cases hp
  | dict _ _ _ => exact hheld'.view_datum

/-- A description that is held, outside of the watched context, and all of whose outputs are saved apart. -/
structure Reads (W : Watch) (d : Value) : Prop where
  isObject : ∀ m ∈ nodesOf d, IsObject m
  holds : W.base.Holds d
  data : W.shared.data ∉ d.marks
  saves : SavesApart d

theorem Reads.contentIn_eq {d : Value} (h : W.Reads d) {m : Value} (hm : m ∈ nodesOf d) {h' : Heap}
    (hh : W.base.Beside W.shared.data h') : (Terms.declaredOf m).contentIn h' = m := by
  refine Watch.contentIn_eq (h.isObject m hm) ((h.holds.field "nodes").item hm) ?_ hh
  intro hdata
  exact h.data (Value.marks_field_subset d "nodes" _ (Value.marks_item_subset hm _ hdata))

/-- So it is for a watch over the same context that begins later. -/
theorem Reads.later {W' : Watch} {d : Value} (h : W.Reads d) (hshared : W'.shared = W.shared)
    (hbase : W.base.Beside W.shared.data W'.base) : W'.Reads d where
  isObject := h.isObject
  holds := h.holds.congr fun a ha =>
    hbase.cell a (h.holds.mark_lt a ha) fun hdata => h.data (hdata ▸ ha)
  data := hshared ▸ h.data
  saves := h.saves

end Watch

/-- Everything that compiling between two worlds took into use is as it was. -/
def Intact (w w' u : World) : Prop := ∀ a, ¬ Outside w w' a → u.heap.cell? a = w'.heap.cell? a

/-- A new object leaves it so. -/
theorem Intact.alloc {w w' u : World} (h : Intact w w' u) (hsize : w'.heap.cells.size ≤ u.heap.cells.size)
    (cell : Cell) : Intact w w' { u with heap := (u.heap.alloc cell).2 } := fun a ha => by
  have hlt : a < u.heap.cells.size :=
    Nat.lt_of_lt_of_le (Nat.not_le.1 fun hle => ha (Or.inr hle)) hsize
  exact (Heap.cell?_alloc_of_lt hlt cell).trans (h a ha)

namespace Compiler

/-- A description that was compiled can be read as long as it is intact. -/
theorem reads_of_intact {W : Watch} {w w' : World} {d₀ d : Value} {kept : Heap}
    (hkept : Heap.Kept w.heap d₀ d kept) (hwell : WellFormed Kind.names Kind.routerNames d)
    (hafter : w'.heap.Extends kept) {u : World} (hintact : Intact w w' u) (hbase : W.base = u.heap)
    (hdata : Outside w w' W.shared.data) (hsaves : SavesApart d) : W.Reads d where
  isObject m hm := (hwell.isNode m hm).isObject
  holds := by
    rw [hbase]
    refine hkept.holds.congr fun a ha => ?_
    have hlt := hkept.holds.mark_lt a ha
    have hinside : ¬ Outside w w' a := by
      rintro (hold | hnew)
      · exact Nat.not_lt.2 (hkept.new a ha) hold
      · exact Nat.not_lt.2 hnew (Nat.lt_of_lt_of_le hlt hafter.size)
    rw [hintact a hinside, hafter.cell a hlt]
  data hmem := by
    rcases hdata with hold | hnew
    · exact Nat.not_lt.2 (hkept.new _ hmem) hold
    · exact Nat.not_lt.2 hnew (Nat.lt_of_lt_of_le (hkept.holds.mark_lt _ hmem) hafter.size)
  saves := hsaves

end Compiler

/-! ## 4. Journeys -/

namespace Watch

variable {W : Watch} {s : Sight}

/-- A visit of a declared node passes: its start is told, and it ends with a label. -/
def Passes (W : Watch) (m : Value) (s : Sight) (x : Datum) (s' : Sight) : Prop :=
  W.Outcome (Terms.declaredOf m) (W.told (.nodeStart (idOf m)) s) (.ok x) (some s')

/-- Either the node has run and its visit is counted, or its guard has kept it from running. -/
theorem Passes.cases {m : Value} {x : Datum} {s' : Sight} (h : W.Passes m s x s') :
    (s' = counted (Terms.declaredOf m) (W.told (.nodeStart (idOf m)) s) ∧
      ∀ g, Declared.guardOf m = some g → s.counts (idOf m) < g.limit) ∨
    ∃ g, Declared.guardOf m = some g ∧ g.limit ≤ s.counts (idOf m) ∧ x = .str g.exit ∧
      s' = W.tripped (Terms.declaredOf m) g (W.told (.nodeStart (idOf m)) s) := by
  cases h with
  | trips hg hle => exact Or.inr ⟨_, hg, hle, rfl, rfl⟩
  | runs hlt hfinishes =>
    cases hfinishes with
    | ends => exact Or.inl ⟨rfl, hlt⟩

/-- What a visit has seen comes after what was seen before it. -/
theorem Passes.seen {m : Value} {x : Datum} {s' : Sight} (h : W.Passes m s x s') :
    ∃ between, s'.seen = between ++ (W.told (.nodeStart (idOf m)) s).seen := by
  rcases h.cases with ⟨rfl, -⟩ | ⟨g, -, -, -, rfl⟩
  · exact ⟨[], rfl⟩
  · exact ⟨_, rfl⟩

/-- What is known before a node, when so many nodes have run, carries over to the node that follows, and what
is told on the way may be told. At the end of a visit the context is told, which shows the counts. -/
structure Carries (W : Watch) (d : Value) (c : Compiled) (before : Nat → Nat → Sight → Prop) : Prop where
  counts : ∀ m ∈ nodesOf d, ∀ s, W.allowed s →
    (∀ g, Declared.guardOf m = some g → s.counts (idOf m) < g.limit) →
    W.allowed (counted (Terms.declaredOf m) s)
  trips : ∀ m ∈ nodesOf d, ∀ s g, W.allowed s → Declared.guardOf m = some g →
    g.limit ≤ s.counts (idOf m) → W.allowed (W.tripped (Terms.declaredOf m) g s)
  starts : ∀ step i m s, before step i s → (nodesOf d)[i]? = some m → W.allowed s →
    W.allowed (W.told (.nodeStart (idOf m)) s)
  fails : ∀ name e s, W.allowed s → W.allowed (W.told (.nodeError name e) s)
  ends : ∀ step i m s x s' (h : Heap) context, before step i s → (nodesOf d)[i]? = some m →
    W.Passes m s x s' → context.visitsOf = s'.counts → W.allowed s' →
    W.allowed (W.told (.nodeEnd (idOf m) (h.view x) context) s')
  follows : ∀ step i m s x s' (h : Heap) context n j, before step i s → (nodesOf d)[i]? = some m →
    W.Passes m s x s' → context.visitsOf = s'.counts →
    W.allowed (W.told (.nodeEnd (idOf m) (h.view x) context) s') → c.nodes[i]? = some n →
    n.next? (h.view x) = .ok (some j) →
    before (step + 1) j (W.told (.nodeEnd (idOf m) (h.view x) context) s')
  stops : ∀ steps s, W.allowed s → W.allowed (W.told (.flowEnd steps) s)

/-- The journey of a walk under a watch, given what is known before a node. -/
def journey (W : Watch) (d : Value) (before : Nat → Nat → Sight → Prop) : Journey Sight where
  before step i k := ∃ s, k = some s ∧ before step i s
  within step i k := ∃ m s, (nodesOf d)[i]? = some m ∧ before step i s ∧
    k = some (W.told (.nodeStart (idOf m)) s)
  visited step i r k := ∃ m s, (nodesOf d)[i]? = some m ∧ before step i s ∧
    W.Outcome (Terms.declaredOf m) (W.told (.nodeStart (idOf m)) s) r k
  behind step i x shown k := ∃ m s s' context, ∃ h : Heap, (nodesOf d)[i]? = some m ∧ before step i s ∧
    W.Passes m s x s' ∧ context.visitsOf = s'.counts ∧ shown = h.view x ∧
    k = some (W.told (.nodeEnd (idOf m) shown context) s') ∧
    W.allowed (W.told (.nodeEnd (idOf m) shown context) s')
  ends r _ := ∀ e, r = .error e → W.fails e

theorem Outcome.ok {d : Declared} {x : Datum} {k : Option Sight} (h : W.Outcome d s (.ok x) k) :
    ∃ s', k = some s' := by
  cases h with
  | trips _ _ => exact ⟨_, rfl⟩
  | runs _ h =>
    cases h with
    | ends => exact ⟨_, rfl⟩

theorem Outcome.error {d : Declared} {e : Failure} {k : Option Sight} (h : W.Outcome d s (.error e) k) :
    W.fails e ∧ ∃ s', k = some s' := by
  cases h with
  | runs _ h =>
    cases h with
    | fails he => exact ⟨he, _, rfl⟩
    | failsLate he => exact ⟨he, _, rfl⟩

/-- A context that is told shows the counts that are known. -/
theorem visitsOf_told {scene : Scene} (hscene : scene.shared = W.shared) {w : World}
    (hw : W.regime.Admits (some s) w) : (scene.shared.view w.heap).visitsOf = s.counts := by
  have hsight : W.sight w = s := hw.mark s rfl
  funext id
  rw [hscene, Shared.visitsOf_view hw.inv.tallied, ← hsight]
  rfl

/-- Parameters of its own leave a walk in the watched context. -/
theorem hosts_shared : W.regime.Hosts fun s => s.shared = W.shared := by
  intro scene hscene w _
  refine (meets_of_steady (Q := fun r => ∃ cell, r = .ok cell) (fun u _ => ?_) none).mono ?_
  · exact ⟨.of_extends (Heap.extends_alloc _ _), _, rfl⟩
  · rintro r k ⟨⟨cell, rfl⟩, -⟩
    exact ⟨cell, rfl, hscene⟩

end Watch

namespace Compiler

variable {env : Environment} {d : Value} {own params : Addr} {nodes : List Node} {edges : List Edge}
  {start : Nat} {c c' : Compiled} {W : Watch} {before : Nat → Nat → Sight → Prop}

/-- A walk under a watch is a journey if what is known before its nodes carries over. -/
theorem Assembles.travels (h : Assembles env d own params nodes edges start c) (hf : Faithful d c)
    (hbefore : W.Carries d c before) {plan : FlowPlan} (hwalks : c'.Walks plan params)
    (hlike : c'.Like c) (hears : W.Hears plan) :
    W.regime.Travels c'.graph plan c'.flow (fun s => s.shared = W.shared) (W.journey d before) := by
  -- what stands before the flow are the nodes that are declared, each under its id
  have hnode : ∀ i < c'.flow, ∀ node, c'.graph[i]? = some node →
      c.nodes[i]? = some node ∧ ∃ m, (nodesOf d)[i]? = some m ∧ node.name = idOf m := by
    intro i hi node hnode
    rw [hwalks.node hi, hlike.nodes] at hnode
    obtain ⟨m, n, hm, -, hmade, rfl⟩ := h.node hnode
    exact ⟨hnode, m, hm, hmade.name⟩
  refine { enters := ?enters, fails := ?fails, leaves := ?leaves, follows := ?follows,
           stops := ?stops, lost := ?lost, limited := ?limited, notes := ?notes }
  case enters =>
    rintro step i hi node hget k ⟨s, rfl, hs⟩
    obtain ⟨-, m, hm, hname⟩ := hnode i hi node hget
    rw [hname]
    exact (Watch.tells hears (hbefore.starts step i m s hs hm)).mono fun r k hk =>
      ⟨hk.1, m, s, hm, hs, hk.2.1⟩
  case fails =>
    rintro step i hi node hget k e ⟨m, s, hm, hs, hvisit⟩
    obtain ⟨he, s', rfl⟩ := hvisit.error
    refine (Watch.tells hears (hbefore.fails node.name e s')).mono fun r k hk => ⟨hk.1, ?_⟩
    intro e' he'
    exact Except.error.inj he' ▸ he
  case leaves =>
    rintro step i hi node hget k x view scene w hscene hw ⟨m, s, hm, hs, hvisit⟩
    obtain ⟨-, m', hm', hname⟩ := hnode i hi node hget
    obtain rfl : m = m' := Option.some.inj (hm.symm.trans hm')
    obtain ⟨s', rfl⟩ := hvisit.ok
    have hshows := Watch.visitsOf_told hscene hw
    rw [hname]
    exact (Watch.tells hears (hbefore.ends step i m s x s' view _ hs hm hvisit hshows)).mono fun r k hk =>
      ⟨hk.1, m, s, s', _, view, hm, hs, hvisit, hshows, rfl, hk.2⟩
  case follows =>
    rintro step i hi node hget k x shown j
      ⟨m, s, s', context, view, hm, hs, hvisit, hshows, rfl, rfl, hthen⟩ hnext
    obtain ⟨hc, -⟩ := hnode i hi node hget
    refine ⟨?_, _, rfl, hbefore.follows step i m s x s' view context node j hs hm hvisit hshows
      hthen hc hnext⟩
    obtain ⟨l, hl⟩ := Node.get?_of_next? hnext
    rw [← hwalks.size, hlike.ids]
    exact hf.target_lt hc hl
  case stops =>
    rintro step i hi node hget k x shown ⟨m, s, s', context, view, hm, hs, -, -, rfl, rfl, hthen⟩ hnext
    exact (Watch.tells hears (hbefore.stops (step + 1) _)).mono fun r k hk => ⟨hk.1, fun e he => by cases he⟩
  case lost =>
    rintro step i hi node hget k x shown f hbehind hnext e he
    obtain rfl := Except.error.inj he
    exact W.fails_of_ne _ (by simp)
  case limited =>
    rintro step i hi k e hs hlimit (⟨f, rfl⟩ | rfl) e' he'
    · obtain rfl := Except.error.inj he'
      exact W.fails_of_ne _ (by simp)
    · obtain rfl := Except.error.inj he'
      exact W.fails_of_ne _ (by simp)
  case notes =>
    intro node shown k
    have hcode : (node.endNote shown).code ≠ Diagnostic.loopGuard := by
      show Diagnostic.flowEnds ≠ Diagnostic.loopGuard
      decide
    exact Watch.meets_of_steady (fun w _ => ⟨.note hcode w, rfl⟩) k

/-- And its visits come to their outcomes, so it is guided. -/
theorem Assembles.guides (h : Assembles env d own params nodes edges start c) (hf : Faithful d c)
    (henv : W.SuitsAll env) (hreads : W.Reads d) (hbefore : W.Carries d c before) (limit : Value)
    {ls : List Listener} (hears : (ls.filter fun l => l.tag = W.tag).length = W.ears) :
    ∃ plan, W.regime.Guides (fun s => s.shared = W.shared) (c.configured limit ls) plan params start
      (W.journey d before) := by
  obtain ⟨name, hwalks⟩ := Compiled.walks_of_assembles h
  obtain ⟨hwalks, hlike⟩ := hwalks.configured limit ls
  refine ⟨_, hwalks, h.travels hf hbefore hwalks hlike (Watch.hears_configured limit hears),
    Watch.hosts_shared, ?_, FlowPlan.start_configured _ _ _, ?_⟩
  · rintro step i - node hnode k ⟨m, s, hm, hs, rfl⟩ scene hscene
    rw [hlike.nodes] at hnode
    obtain ⟨m', n, hm', -, ⟨kname, kind, policy, -, -, -, rfl⟩, rfl⟩ := h.node hnode
    obtain rfl : m = m' := Option.some.inj (hm.symm.trans hm')
    have hmem := List.mem_of_getElem? hm
    have hminds : W.Minds (Terms.declaredOf m) := by
      refine ⟨fun h' hh => ?_, hbefore.counts m hmem, fun s g => hbefore.trips m hmem s g⟩
      rw [hreads.contentIn_eq hmem hh]
      exact hreads.saves m hmem
    refine Conduct.Meets.mono (Watch.meets_ofKind henv env.modelWaits kind hminds hscene _ policy i) ?_
    intro r k' hvisit
    exact ⟨m, s, hm, hs, hvisit⟩
  · rw [← hwalks.size, hlike.ids]
    exact h.start_lt

end Compiler

end NodeFlow
