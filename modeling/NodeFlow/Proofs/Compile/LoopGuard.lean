import NodeFlow.Proofs.Compile.Watched
/-!
# Loop guards bound the work of a node

A guarded node completes at most as many visits in a shared context as its guard has left for it, over any
number of runs. Every visit beyond that ends with the exit label of the guard and one diagnostic, and does
nothing else.

The awkward thing up front: a count is state that anyone can see and write, so the account needs all nodes
to save apart from it. A visit that fails may have been counted, so completed visits may be fewer than the
count says, and never more.

Whether a visit has completed cannot be told from its label, since an edge may bear the exit of a guard, nor
from a diagnostic, since nobody may be subscribed. It is told from the count before it. This is the one that
the context showed when the last visit of the run ended, whichever node it was of.
-/

set_option autoImplicit false

namespace NodeFlow

open Description

/-! ## 1. Visits that are seen -/

/-- Is an event something that a listener is told? -/
def Event.isTold : Event → Bool
  | .told _ _ => true
  | _ => false

/-- A visit that has ended with a label: how often its node had been visited before, what was seen between
its start and its end, and the label. -/
structure EndedVisit where
  count : Int
  between : List Event
  label : Value

/-- The count of a node that was shown last in a run, given what has been seen of the run, newest first: the
one in the context that was told at the end of the last visit, or the first one if none has ended yet. -/
def lastCount (id : String) (first : Int) : List Event → Int
  | [] => first
  | .told _ (.nodeEnd _ _ context) :: _ => context.visitsOf id
  | _ :: rest => lastCount id first rest

/-- The visits of a node that have ended with a label in a run, newest first, read off its events. -/
def endedVisits (id : String) (first : Int) : List Event → List EndedVisit
  | [] => []
  | .told _ (.nodeEnd node label _) :: rest =>
    if node = id then
      ⟨lastCount id first rest, rest.takeWhile fun e => !e.isTold, label⟩ :: endedVisits id first rest
    else endedVisits id first rest
  | _ :: rest => endedVisits id first rest

/-- How many of them have completed: those before which the guard had not been reached. -/
def completed (g : Guard) (visits : List EndedVisit) : Nat :=
  visits.countP fun visit => visit.count < g.limit

/-- A visit is as its guard has it: within the limit the guard says nothing, and beyond it all that is seen is
the warnings, and the label is the exit. -/
structure EndedVisit.Minds (g : Guard) (warnings : List Event) (visit : EndedVisit) : Prop where
  within : visit.count < g.limit → visit.between = []
  beyond : g.limit ≤ visit.count → visit.between = warnings ∧ visit.label = .str g.exit

section

variable {id : String} {first : Int} {d : Declared} {g : Guard} {ls : List Listener} {rest : List Event}

theorem endedVisits_append {events : List Event} (h : ∀ e ∈ events, e.isTold = false) :
    endedVisits id first (events ++ rest) = endedVisits id first rest := by
  induction events with
  | nil => rfl
  | cons e events ih =>
    rw [List.forall_mem_cons] at h
    cases e with
    | told tag call => cases h.1
    | _ => exact ih h.2

theorem lastCount_append {events : List Event} (h : ∀ e ∈ events, e.isTold = false) :
    lastCount id first (events ++ rest) = lastCount id first rest := by
  induction events with
  | nil => rfl
  | cons e events ih =>
    rw [List.forall_mem_cons] at h
    cases e with
    | told tag call => cases h.1
    | _ => exact ih h.2

theorem takeWhile_append {events : List Event} (h : ∀ e ∈ events, e.isTold = false) {tag : String}
    {call : HookCall} :
    (events ++ Event.told tag call :: rest).takeWhile (fun e => !e.isTold) = events := by
  induction events with
  | nil => rfl
  | cons e events ih =>
    rw [List.forall_mem_cons] at h
    rw [List.cons_append, List.takeWhile_cons_of_pos (by rw [h.1]; rfl), ih h.2]

/-- A visit that is seen from its start to its end. -/
theorem endedVisits_visit {count : Int} (hlast : lastCount id first rest = count) {between : List Event}
    (h : ∀ e ∈ between, e.isTold = false) (tag name : String) (label context : Value) :
    endedVisits id first (.told tag (.nodeEnd id label context) ::
        (between ++ .told tag (.nodeStart name) :: rest)) =
      ⟨count, between, label⟩ :: endedVisits id first rest := by
  rw [endedVisits, if_pos rfl, takeWhile_append h, endedVisits_append h, lastCount_append h, ← hlast]
  rfl

theorem isTold_warnings : ∀ e ∈ d.warnings g ls, e.isTold = false := by
  intro e he
  obtain ⟨l, -, rfl⟩ := d.mem_warnings he
  rfl

theorem completed_append (newer older : List EndedVisit) :
    completed g (newer ++ older) = completed g newer + completed g older :=
  List.countP_append

end

/-! ## 2. The account of one guard -/

/-- What is kept of the visits of a guarded node between two counts: they are as the guard has it, those that
have completed are within what was counted, and what was counted is within the limit. -/
structure Accounts (g : Guard) (warnings : List Event) (first : Int) (visits : List EndedVisit) (count : Int) :
    Prop where
  minds : ∀ visit ∈ visits, visit.Minds g warnings
  counted : first + completed g visits ≤ count
  bounded : count ≤ max first g.limit

namespace Accounts

variable {g : Guard} {warnings : List Event} {first count : Int} {visits : List EndedVisit}

theorem start (g : Guard) (warnings : List Event) (first : Int) : Accounts g warnings first [] first where
  minds _ h := absurd h List.not_mem_nil
  counted := Int.le_of_eq (Int.add_zero first)
  bounded := le_max_left _ _

theorem completed_le (h : Accounts g warnings first visits count) :
    completed g visits ≤ (g.limit - first).toNat := by
  have hcounted := h.counted
  have hbounded := h.bounded
  omega

/-- What is kept of two stretches, one after the other, is kept of both together. -/
theorem append {last : Int} {newer : List EndedVisit} (h : Accounts g warnings first visits count)
    (h' : Accounts g warnings count newer last) : Accounts g warnings first (newer ++ visits) last where
  minds := List.forall_mem_append.2 ⟨h'.minds, h.minds⟩
  counted := by
    have hcounted := h.counted
    have hcounted' := h'.counted
    rw [completed_append]
    omega
  bounded := by
    have hbounded := h.bounded
    have hbounded' := h'.bounded
    omega

/-- A visit that fails may have been counted. -/
theorem count_succ (h : Accounts g warnings first visits count) (hlt : count < g.limit) :
    Accounts g warnings first visits (count + 1) where
  minds := h.minds
  counted := by
    have hcounted := h.counted
    omega
  bounded := by
    have hbounded := h.bounded
    omega

/-- A visit that has completed has been counted. -/
theorem complete (h : Accounts g warnings first visits count) (hlt : count < g.limit) (label : Value) :
    Accounts g warnings first (⟨count, [], label⟩ :: visits) (count + 1) where
  minds := List.forall_mem_cons.2 ⟨⟨fun _ => rfl, fun hle => absurd hlt (Int.not_lt.2 hle)⟩, h.minds⟩
  counted := by
    have hcounted := h.counted
    have hsucc : completed g (⟨count, [], label⟩ :: visits) = completed g visits + 1 :=
      List.countP_cons_of_pos (decide_eq_true hlt)
    omega
  bounded := (h.count_succ hlt).bounded

/-- A visit that has tripped has not. -/
theorem trip (h : Accounts g warnings first visits count) (hle : g.limit ≤ count) :
    Accounts g warnings first (⟨count, warnings, .str g.exit⟩ :: visits) count where
  minds := List.forall_mem_cons.2 ⟨⟨fun hlt => absurd hlt (Int.not_lt.2 hle), fun _ => ⟨rfl, rfl⟩⟩, h.minds⟩
  counted := by
    have hcounted := h.counted
    have hsame : completed g (⟨count, warnings, .str g.exit⟩ :: visits) = completed g visits :=
      List.countP_cons_of_neg (by simpa using hle)
    rwa [hsame]
  bounded := h.bounded

end Accounts

namespace Watch

/-- The watch over a guarded node during a run. -/
def guarding (tag : String) (u : World) (shared : Shared) (d : Declared) (g : Guard) : Watch :=
  since tag 1 u shared
    (fun new counts => Accounts g (d.warnings g u.channel.subscribers) (shared.visitsOf u.heap d.id)
      (endedVisits d.id (shared.visitsOf u.heap d.id) new) (counts d.id))
    (fun _ => True) fun _ _ => trivial

/-- Before a node the count is the one that was shown last. -/
def Settled (tag : String) (u : World) (shared : Shared) (id : String) (s : Sight) : Prop :=
  ∃ new, s.seen = new ++ sights tag u.journal ∧
    lastCount id (shared.visitsOf u.heap id) new = s.counts id

/-! ## 3. A walk keeps the account -/

section

variable {tag : String} {u : World} {shared : Shared} {d : Declared} {g : Guard}
  {s : Sight}

theorem counts_counted (hg : d.guard = some g) : (counted d s).counts d.id = s.counts d.id + 1 := by
  rw [counted, Declared.bump, hg]
  exact Function.update_self ..

/-- Whatever is told but the end of a visit of the node leaves the account as it is. -/
theorem allowed_told {call : HookCall} (hcall : ∀ label context, call ≠ .nodeEnd d.id label context)
    (h : (guarding tag u shared d g).allowed s) :
    (guarding tag u shared d g).allowed ((guarding tag u shared d g).told call s) := by
  obtain ⟨new, hseen, haccounts⟩ := h
  refine since_told hseen ?_
  have hsame : endedVisits d.id (shared.visitsOf u.heap d.id) (.told tag call :: new) =
      endedVisits d.id (shared.visitsOf u.heap d.id) new := by
    cases call with
    | nodeEnd node label context =>
      rw [endedVisits, if_neg]
      rintro rfl
      exact hcall label context rfl
    | _ => rfl
  change Accounts _ _ _ (endedVisits _ _ (.told tag call :: new)) _
  rwa [hsame]

/-- So do the warnings of any guard. -/
theorem allowed_tripped (d' : Declared) (g' : Guard) (h : (guarding tag u shared d g).allowed s) :
    (guarding tag u shared d g).allowed ((guarding tag u shared d g).tripped d' g' s) := by
  obtain ⟨new, hseen, haccounts⟩ := h
  refine since_tripped hseen ?_
  rwa [endedVisits_append isTold_warnings]

/-- A visit that is counted leaves the count within the limit. -/
theorem allowed_counted {d' : Declared} (hsame : d'.id = d.id → d'.guard = some g)
    (hlt : ∀ g', d'.guard = some g' → s.counts d'.id < g'.limit) (h : (guarding tag u shared d g).allowed s) :
    (guarding tag u shared d g).allowed (counted d' s) := by
  obtain ⟨new, hseen, haccounts⟩ := h
  refine ⟨new, hseen, ?_⟩
  cases hd' : d'.guard with
  | none =>
    rw [counted, Declared.bump, hd']
    exact haccounts
  | some g' =>
    rw [counted, Declared.bump, hd']
    by_cases hid : d.id = d'.id
    · -- ids are distinct, so the guard is that of the node itself
      obtain rfl : g' = g := Option.some.inj (hd'.symm.trans (hsame hid.symm))
      have hcount := hlt g' hd'
      rw [← hid] at hcount ⊢
      dsimp only
      rw [Function.update_self]
      exact haccounts.count_succ hcount
    · dsimp only
      rwa [Function.update_of_ne hid]

end

end Watch

namespace Compiler

variable {tag : String} {u : World} {shared : Shared} {d m : Value} {g : Guard}
  {c : Compiled}

/-- The account of a guarded node carries over from node to node: every visit of it that ends has either
been counted or has tripped. -/
theorem carries_guarding (hf : Faithful d c) (hm : m ∈ nodesOf d) (hg : Declared.guardOf m = some g) :
    (Watch.guarding tag u shared (Terms.declaredOf m) g).Carries d c fun _ _ s =>
      (Watch.guarding tag u shared (Terms.declaredOf m) g).allowed s ∧
        Watch.Settled tag u shared (idOf m) s where
  counts m' hm' s hallowed hlt :=
    Watch.allowed_counted (fun hid => hf.eq_of_idOf hm' hm hid ▸ hg) hlt hallowed
  trips m' _ s g' hallowed _ _ := Watch.allowed_tripped _ _ hallowed
  starts _ _ _ s _ _ hallowed := Watch.allowed_told nofun hallowed
  fails _ _ s := Watch.allowed_told nofun
  stops _ s := Watch.allowed_told nofun
  follows := by
    rintro step i m' s x s' h context n j ⟨-, new, hseen, -⟩ hm' hpasses hshows hallowed - -
    refine ⟨hallowed, ?_⟩
    obtain ⟨between, hbetween⟩ := hpasses.seen
    refine ⟨.told tag (.nodeEnd (idOf m') (h.view x) context) ::
      (between ++ .told tag (.nodeStart (idOf m')) :: new), ?_, congrFun hshows (idOf m)⟩
    rw [List.cons_append, List.append_assoc, List.cons_append, ← hseen]
    exact congrArg (_ :: ·) hbetween
  ends := by
    rintro step i m' s x s' h context ⟨⟨new, hseen, haccounts⟩, new', hseen', hlast⟩ hm' hpasses - hallowed
    by_cases hid : idOf m' = idOf m
    · obtain rfl := hf.eq_of_idOf (List.mem_of_getElem? hm') hm hid
      obtain rfl : new = new' := List.append_cancel_right (hseen.symm.trans hseen')
      rcases hpasses.cases with ⟨rfl, hlt⟩ | ⟨g', hg', hle, rfl, rfl⟩
      · -- nothing was seen between its start and its end, and it is counted
        have hended := haccounts.complete (hlt g hg) (h.view x)
        have hvisit := endedVisits_visit hlast (List.forall_mem_nil _) tag (idOf m') (h.view x) context
        refine ⟨_, ?_, hvisit ▸ Watch.counts_counted (d := Terms.declaredOf m') (s := s) hg ▸ hended⟩
        rw [List.cons_append, List.nil_append, List.cons_append, ← hseen]
        rfl
      · -- only the warnings were seen
        obtain rfl : g' = g := Option.some.inj (hg'.symm.trans hg)
        have hended := haccounts.trip hle
        have hsilent : ∀ e ∈ (Terms.declaredOf m').warnings g' u.channel.subscribers, e.isTold = false :=
          isTold_warnings
        have hvisit := endedVisits_visit hlast hsilent tag (idOf m') (.str g'.exit) context
        refine ⟨_, ?_, hvisit ▸ hended⟩
        rw [List.cons_append, List.append_assoc, List.cons_append, ← hseen]
        rfl
    · refine Watch.allowed_told ?_ hallowed
      rintro label context' heq
      exact hid (HookCall.nodeEnd.inj heq).1

/-! ## 4. Visits beyond the limit -/

section

variable {env : Environment} {own params : Addr} {nodes : List Node} {edges : List Edge} {start : Nat}

/-- Nodes of all built-in kinds are guarded, however they are made. -/
theorem conduct_ofKind (env : Environment) (modelWaits : Bool) (k : Kind) (d : Declared)
    (policy : RetryPolicy) (number : Nat) :
    (∃ visit : Scene → Act World Datum, (Make.ofKind modelWaits k).conduct env d policy number =
      .blocking fun scene => d.guarded scene (visit scene)) ∨
    ∃ visit : Scene → Coop World Datum Datum, (Make.ofKind modelWaits k).conduct env d policy number =
      .cooperative fun scene => d.guarded scene (visit scene) := by
  cases k with
  | llmCall | batch => cases modelWaits <;> first | exact Or.inl ⟨_, rfl⟩ | exact Or.inr ⟨_, rfl⟩
  | cooperative | cooperativeParallel => exact Or.inr ⟨_, rfl⟩
  | httpCall | router | staticData => exact Or.inl ⟨_, rfl⟩

/-- The visit of a node whose guard trips ends with the exit label, and a diagnostic is all that is seen of
it: by those who do not wait, in a graph that works at once, and by those who do. -/
structure Trips (c : Compiled) (i : Nat) (d : Declared) (g : Guard) (scene : Scene) (v : World) : Prop where
  visit : c.isCooperative = false → ∀ fuel,
    c.graph.visit (fuel + 1) scene i v = (.ok (.str g.exit), v.warned d g)
  visitWaiting : ∀ fuel, (c.graph.visitWaiting (fuel + 1) scene i).advance v =
    (.done (.ok (.str g.exit)), v.warned d g)

/-- A guarded declaration has a guarded node in its place, of the one kind or the other. -/
theorem Assembles.exists_guarded (h : Assembles env d own params nodes edges start c) {i : Nat}
    (hm : (nodesOf d)[i]? = some m) : ∃ n ∈ c.nodes, c.nodes[i]? = some n ∧
      ((∃ visit : Scene → Act World Datum, n.conduct =
        .blocking fun scene => (Terms.declaredOf m).guarded scene (visit scene)) ∨
      ∃ visit : Scene → Coop World Datum Datum, n.conduct =
        .cooperative fun scene => (Terms.declaredOf m).guarded scene (visit scene)) := by
  have hi : i < c.nodes.length := by
    rw [← List.length_map Node.name, h.names, h.ids, List.length_map]
    exact (List.getElem?_eq_some_iff.1 hm).1
  have hnode := List.getElem?_eq_getElem hi
  refine ⟨_, List.getElem_mem hi, hnode, ?_⟩
  obtain ⟨m', n, hm', -, ⟨kname, kind, policy, -, -, -, rfl⟩, hn⟩ := h.node hnode
  obtain rfl : m = m' := Option.some.inj (hm.symm.trans hm')
  rw [hn]
  exact conduct_ofKind env env.modelWaits kind (Terms.declaredOf m) policy i

theorem Assembles.trips (h : Assembles env d own params nodes edges start c) {i : Nat}
    (hm : (nodesOf d)[i]? = some m) (hg : Declared.guardOf m = some g) (limit : Value)
    (ls : List Listener) (scene : Scene) {v : World} (hv : scene.shared.Tallied v.heap)
    (hle : g.limit ≤ scene.shared.visitsOf v.heap (idOf m)) :
    Trips (c.configured limit ls) i (Terms.declaredOf m) g scene v := by
  have hexit := Declared.guardExit?_of_le (d := Terms.declaredOf m) hg hv hle
  obtain ⟨name, hwalks⟩ := Compiled.walks_of_assembles h
  obtain ⟨hwalks, hlike⟩ := hwalks.configured limit ls
  obtain ⟨n, hmem, hnode, hguarded⟩ := h.exists_guarded hm
  have hi : i < (c.configured limit ls).flow := by
    rw [← hwalks.size, hlike.ids, h.ids, List.length_map]
    exact (List.getElem?_eq_some_iff.1 hm).1
  have hget : (c.configured limit ls).graph[i]? = some n := by
    rw [hwalks.node hi, hlike.nodes, hnode]
  rcases hguarded with ⟨visit, hconduct⟩ | ⟨visit, hconduct⟩
  · have htrips : ∀ fuel, (c.configured limit ls).graph.visit (fuel + 1) scene i v =
        (.ok (.str g.exit), v.warned (Terms.declaredOf m) g) := by
      intro fuel
      rw [Graph.visit, hget, Option.map_some, hconduct]
      simp only [Declared.guarded, bind, Act.bind, Performs.perform, hexit]
      rfl
    refine ⟨fun _ => htrips, fun fuel => ?_⟩
    rw [Graph.visitWaiting, hget, Option.map_some, hconduct]
    simp only [Coop.ofAct, Coop.advance, htrips]
  · refine ⟨fun hblocking => ?_, fun fuel => ?_⟩
    · -- a graph with this node does not work at once
      rw [hwalks.isCooperative_eq, hlike.nodes, List.any_eq_false] at hblocking
      refine absurd ?_ (hblocking n hmem)
      rw [Node.isCooperative, hconduct]
    · rw [Graph.visitWaiting, hget, Option.map_some, hconduct]
      simp only [Declared.guarded, bind, Coop.bind, Performs.perform, Coop.ofAct, Coop.advance, hexit]
      rfl

end

end Compiler

/-! ## 5. Runs one after another -/

/-- What was seen between two worlds. -/
def sightsSince (tag : String) (u v : World) : List Event :=
  (sights tag v.journal).take ((sights tag v.journal).length - (sights tag u.journal).length)

theorem sightsSince_eq {tag : String} {u v : World} {new : List Event}
    (h : sights tag v.journal = new ++ sights tag u.journal) : sightsSince tag u v = new := by
  rw [sightsSince, h, List.length_append, Nat.add_sub_cancel, List.take_left]

/-- What a run is given: a limit of steps, its listeners, and the bounds that may cut it short. -/
structure Order where
  limit : Value
  listeners : List Listener
  bounds : Graph.Bounds

namespace Compiled

/-- The world after a run of a graph in a context. -/
def after (c : Compiled) (shared : Shared) (o : Order) (v : World) : World :=
  ((c.configured o.limit o.listeners).runWithin o.bounds shared v).2

/-- The world after runs one after another. -/
def afterAll (c : Compiled) (shared : Shared) (orders : List Order) (v : World) : World :=
  orders.foldl (fun v o => c.after shared o v) v

/-- The visits of a node that have ended with a label in runs one after another, newest first, as listeners
under a tag have seen them. -/
def visitsOver (c : Compiled) (tag : String) (shared : Shared) (id : String) :
    List Order → World → List EndedVisit
  | [], _ => []
  | o :: orders, v =>
    c.visitsOver tag shared id orders (c.after shared o v) ++
      endedVisits id (shared.visitsOf v.heap id) (sightsSince tag v (c.after shared o v))

end Compiled

namespace Compiler

variable {tag : String} {u : World} {shared : Shared} {d m : Value} {g : Guard}
  {c : Compiled}

section

variable {env : Environment} {own params : Addr} {nodes : List Node} {edges : List Edge} {start : Nat}

/-- The account of a guarded node over one run. -/
theorem Assembles.accounts_run (h : Assembles env d own params nodes edges start c) (hf : Faithful d c)
    (hm : m ∈ nodesOf d) (hg : Declared.guardOf m = some g)
    (hreads : (Watch.guarding tag u shared (Terms.declaredOf m) g).Reads d) (hu : shared.Tallied u.heap)
    {o : Order} (hone : (o.listeners.filter fun l => l.tag = tag).length = 1) :
    u.heap.Beside shared.data (c.after shared o u).heap ∧ shared.Tallied (c.after shared o u).heap ∧
      (c.after shared o u).channel.subscribers = u.channel.subscribers ∧
      Accounts g ((Terms.declaredOf m).warnings g u.channel.subscribers) (shared.visitsOf u.heap (idOf m))
        (endedVisits (idOf m) (shared.visitsOf u.heap (idOf m)) (sightsSince tag u (c.after shared o u)))
        (shared.visitsOf (c.after shared o u).heap (idOf m)) := by
  have hstart : (Watch.guarding tag u shared (Terms.declaredOf m) g).Inv u :=
    Watch.since_inv hu (Accounts.start _ _ _)
  obtain ⟨plan, hguides⟩ := h.guides (W := Watch.guarding tag u shared (Terms.declaredOf m) g) hf
    (.of_all fun _ => trivial) hreads (carries_guarding hf hm hg) o.limit hone
  have hmeets := hguides.run (b := o.bounds) rfl ⟨_, rfl, hstart.allowed, [], rfl, rfl⟩
    fun _ _ _ _ _ _ _ => trivial
  have hinv := (hmeets u ⟨hstart, fun _ h => Option.some.inj h⟩).1.inv
  obtain ⟨new, hnew, haccounts⟩ := hinv.allowed
  have hsince : sightsSince tag u (c.after shared o u) = new := sightsSince_eq hnew
  refine ⟨hinv.beside, hinv.tallied, hinv.subscribers, ?_⟩
  rw [hsince]
  exact haccounts

/-- The account of a guarded node over runs one after another: induction on the runs. -/
theorem Assembles.accounts (h : Assembles env d own params nodes edges start c) (hf : Faithful d c)
    (hm : m ∈ nodesOf d) (hg : Declared.guardOf m = some g)
    (hreads : (Watch.guarding tag u shared (Terms.declaredOf m) g).Reads d) (hu : shared.Tallied u.heap)
    {orders : List Order} (hone : ∀ o ∈ orders, (o.listeners.filter fun l => l.tag = tag).length = 1) :
    shared.Tallied (c.afterAll shared orders u).heap ∧
      Accounts g ((Terms.declaredOf m).warnings g u.channel.subscribers) (shared.visitsOf u.heap (idOf m))
        (c.visitsOver tag shared (idOf m) orders u)
        (shared.visitsOf (c.afterAll shared orders u).heap (idOf m)) := by
  induction orders generalizing u with
  | nil => exact ⟨hu, Accounts.start _ _ _⟩
  | cons o orders ih =>
    rw [List.forall_mem_cons] at hone
    obtain ⟨hbeside, htallied, hsubscribers, haccounts⟩ := h.accounts_run hf hm hg hreads hu hone.1
    obtain ⟨hafter, hrest⟩ := ih (u := c.after shared o u) (hreads.later rfl hbeside) htallied hone.2
    rw [hsubscribers] at hrest
    exact ⟨hafter, haccounts.append hrest⟩

end

theorem guardNote_fresh (m : Value) (g : Guard) :
    (Terms.declaredOf m.fresh).guardNote g = (Terms.declaredOf m).guardNote g := by
  rw [Declared.guardNote, Declared.guardNote, Terms.declaredOf, idOf_fresh, Terms.declaredOf]

theorem warnings_fresh (m : Value) (g : Guard) (ls : List Listener) :
    (Terms.declaredOf m.fresh).warnings g ls = (Terms.declaredOf m).warnings g ls := by
  rw [Declared.warnings, Declared.warnings, guardNote_fresh]

theorem warned_fresh (m : Value) (g : Guard) (v : World) :
    v.warned (Terms.declaredOf m.fresh) g = v.warned (Terms.declaredOf m) g := by
  rw [World.warned, World.warned, guardNote_fresh, warnings_fresh]

/-- **Loop guards bound the work of their nodes.** An accepted description whose outputs are saved apart from
the counts is compiled. Over any runs of the graph in one shared context, one after another, each of its
guarded nodes completes no more visits than the guard has left for it, and the count stays within the limit.
All its other visits show the exit of the guard as their label, and nothing is seen of them but one diagnostic
for each subscriber. So it is with the visit of the node in any world in which the limit is reached: memory
and the collaborators' calls are as before. -/
theorem guards_bound_visits {env : Environment} {d : Value} {w : World} (hjson : d.IsJson)
    (haccepted : (ofEnvironment env).problems d = .ok []) (hglobals : env.HasGlobals w.heap)
    (hapart : SavesApart d) :
    ∃ c w', (ofEnvironment env).compile d w = (.ok c, w') ∧
      ∀ i m g, (nodesOf d)[i]? = some m → Declared.guardOf m = some g → ∀ shared : Shared,
        (∀ u tag orders, Intact w w' u → Outside w w' shared.data → shared.Tallied u.heap →
          (∀ o ∈ orders, (o.listeners.filter fun l => l.tag = tag).length = 1) →
          shared.Tallied (c.afterAll shared orders u).heap ∧
            shared.visitsOf (c.afterAll shared orders u).heap (idOf m) ≤
              max (shared.visitsOf u.heap (idOf m)) g.limit ∧
            completed g (c.visitsOver tag shared (idOf m) orders u) ≤
              (g.limit - shared.visitsOf u.heap (idOf m)).toNat ∧
            ∀ visit ∈ c.visitsOver tag shared (idOf m) orders u,
              visit.Minds g ((Terms.declaredOf m).warnings g u.channel.subscribers)) ∧
        ∀ v params limit ls, shared.Tallied v.heap → g.limit ≤ shared.visitsOf v.heap (idOf m) →
          Trips (c.configured limit ls) i (Terms.declaredOf m) g ⟨shared, params⟩ v := by
  obtain ⟨d', kept, common, nodes, edges, start, c, hkept, hwell, -, h, hcompile⟩ :=
    compile_ok hjson haccepted hglobals
  have hf : Faithful d' c := h.faithful (distinct_ids hwell)
  refine ⟨c, _, hcompile, ?_⟩
  intro i m g hm hg shared
  -- the declaration is that of the description which was kept, without its marks
  rw [← hkept.fresh, nodesOf_fresh, List.getElem?_map, Option.map_eq_some_iff] at hm
  obtain ⟨m', hm', rfl⟩ := hm
  rw [Declared.guardOf_fresh] at hg
  rw [idOf_fresh]
  refine ⟨fun u tag orders hintact houtside hu hone => ?_, fun v params limit ls hv hle => ?_⟩
  · have hafter := (Heap.extends_alloc kept (.dict [])).trans
      (Heap.extends_alloc _ (.dict (paramsFor common kept d')))
    have hsaves : SavesApart d' := by
      rwa [← savesApart_fresh, hkept.fresh]
    have hreads : (Watch.guarding tag u shared (Terms.declaredOf m') g).Reads d' :=
      reads_of_intact hkept hwell hafter hintact rfl houtside hsaves
    obtain ⟨htallied, haccounts⟩ := h.accounts hf (List.mem_of_getElem? hm') hg hreads hu hone
    rw [warnings_fresh]
    exact ⟨htallied, haccounts.bounded, haccounts.completed_le, haccounts.minds⟩
  · obtain ⟨hvisit, hwaiting⟩ := h.trips hm' hg limit ls ⟨shared, params⟩ hv hle
    rw [← warned_fresh] at hvisit hwaiting
    exact ⟨hvisit, hwaiting⟩

/-- A draft and its review in a loop that the guard of the draft ends after two rounds. -/
def reviewLoop : Value :=
  .ofMembers [("version", .str "pf-js/1.0"), ("entry", .str "draft"),
    ("nodes", .ofList [
      .ofMembers [("id", .str "draft"), ("kind", .str "static-data"),
        ("post", .ofMembers [("outputs", .ofMembers [("save", .ofList [
          .ofMembers [("path", .str "text"), ("value", .str "a draft")]])])]),
        ("loop_guard", .ofMembers [("max_iterations", .int 2)])],
      .ofMembers [("id", .str "review"), ("kind", .str "static-data")]]),
    ("edges", .ofList [
      .ofMembers [("from", .str "draft"), ("to", .str "review")],
      .ofMembers [("from", .str "review"), ("to", .str "draft")]])]

theorem isJson_reviewLoop : reviewLoop.IsJson := by
  simp [reviewLoop, Value.IsJson.str, Value.IsJson.int]

set_option maxRecDepth 10000 in
theorem problems_reviewLoop (env : Environment) :
    (ofEnvironment env).problems reviewLoop = .ok [] := by rfl

theorem savesApart_reviewLoop : SavesApart reviewLoop := by
  intro m hm save hsave path hpath
  -- only the draft saves something, under one key
  have hsaves : save ∈ (nodesOf reviewLoop).flatMap savesOf := List.mem_flatMap.2 ⟨m, hm, hsave⟩
  obtain rfl := List.mem_singleton.1 hsaves
  obtain rfl : "text" = path := Value.str.inj hpath
  exact ⟨"text", by decide, by decide⟩

/-- In a new context the draft is written at most twice, however often the loop is run. -/
theorem guards_bound_visits_reviewLoop : ∃ c w',
    (ofEnvironment .bare).compile reviewLoop .blank = (.ok c, w') ∧
      ∀ tag orders, (∀ o ∈ orders, (o.listeners.filter fun l => l.tag = tag).length = 1) →
        completed ⟨2, loopExitLabel⟩ (c.visitsOver tag ⟨w'.heap.cells.size, none⟩ "draft" orders
          { w' with heap := (w'.heap.alloc (.dict [])).2 }) ≤ 2 := by
  obtain ⟨c, w', hcompile, hguards⟩ := @guards_bound_visits .bare reviewLoop .blank isJson_reviewLoop
    (problems_reviewLoop .bare) (Or.inl rfl) savesApart_reviewLoop
  refine ⟨c, w', hcompile, fun tag orders hone => ?_⟩
  let context : Shared := ⟨w'.heap.cells.size, none⟩
  let u : World := { w' with heap := (w'.heap.alloc (.dict [])).2 }
  have hintact : Intact .blank w' u := Intact.alloc (fun _ _ => rfl) (Nat.le_refl _) (.dict [])
  obtain ⟨-, -, hcompleted, -⟩ := (hguards 0 _ ⟨2, loopExitLabel⟩ rfl rfl context).1 u tag orders
    hintact (Or.inr (Nat.le_refl _)) (Shared.tallied_new w'.heap) hone
  -- the context is new, so nothing has been counted in it
  have hget : context.get? u.heap Declared.visitsKey = none := Shared.get?_new w'.heap _
  rwa [Shared.visitsOf, Shared.counts, hget] at hcompleted

end Compiler

end NodeFlow
