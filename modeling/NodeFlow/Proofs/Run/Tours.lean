import NodeFlow.Proofs.Memory.Kept
import NodeFlow.Proofs.Run.Journal
import NodeFlow.Proofs.Run.Paths
/-!
# Tours

Where visits are known by what they do to some keys of the shared context, so is a whole walk: it comes to the
nodes of its tour one after another, with the labels and what is under the keys after each.

What a sub-run owns is told from outside, by what it knows of every state beside any frame. Nothing is asked of how
a visit does what it does, whether it changes containers in place or stops on the way.
-/

set_option autoImplicit false

universe u

namespace NodeFlow

/-! ## 1. What can be told of a sub-run -/

/-- What is under the keys of a shared context, as far as values can be told from each other. -/
abbrev Content := String → Option Value

/-- What is under the keys of a context. -/
def Shared.contentIn (s : Shared) (w : World) : Content :=
  fun key => (s.get? w.heap key).map fun d => (w.heap.view d).bare

/-- That a node has ended with a label, as a listener under a tag is told. -/
structure Ended where
  tag : String
  node : String
  label : Value

/-- That a node has ended, if an event tells of it. -/
def Event.ended? : Event → Option Ended
  | .told tag (.nodeEnd node label _) => some ⟨tag, node, label.bare⟩
  | _ => none

/-- The nodes that have ended, with their labels. -/
def trailOf (es : List Event) : List Ended := es.filterMap Event.ended?

theorem trailOf_append (es es' : List Event) : trailOf (es ++ es') = trailOf es ++ trailOf es' :=
  List.filterMap_append

/-- What the listeners of a plan are told when a node has ended. -/
def FlowPlan.endings (p : FlowPlan) (name : String) (label : Value) : List Ended :=
  (p.listeners.filter fun l => l.1 = .nodeEnd).map fun l => ⟨l.2.tag, name, label⟩

/-- What a visit comes to: its label, what is then under the keys, and which nodes have ended within it. -/
structure Deed where
  label : Value
  content : Content
  within : List Ended

namespace Graph

/-- The tour of a sub-run, whose visits come to deeds that depend on what is under its keys: so many nodes, from
one on, end as listed, and something else is under the keys then. -/
inductive Tour (g : Graph) (p : FlowPlan) (limit : Option Int) (does : Nat → Content → Deed → Prop) :
    Nat → Nat → Content → Nat → List Ended → Content → Prop
  | stops {step i : Nat} {node : Node} {content : Content} {deed : Deed} : g[i]? = some node →
    Allows limit step → does i content deed → node.next? deed.label = .ok none →
    Tour g p limit does step i content 1 (deed.within ++ p.endings node.name deed.label) deed.content
  | goes {step i j n : Nat} {node : Node} {content content' : Content} {deed : Deed} {trail : List Ended} :
    g[i]? = some node → Allows limit step → does i content deed → node.next? deed.label = .ok (some j) →
    Tour g p limit does (step + 1) j deed.content n trail content' →
    Tour g p limit does step i content (n + 1) (deed.within ++ p.endings node.name deed.label ++ trail) content'

end Graph

theorem Value.truthy_bare (v : Value) : v.bare.truthy = v.truthy := by
  cases v with
  | float x => cases x <;> rfl
  | list cell xs => cases xs <;> simp [truthy]
  | dict cell ms => cases ms <;> simp [truthy]
  | store cell name ms => cases ms <;> simp [truthy, bare, bareMembers]
  | _ => rfl

/-- Where a label leads does not depend on the identity of what it shows. -/
theorem Node.next?_bare (n : Node) (label : Value) : n.next? label.bare = n.next? label := by
  have horElse : label.bare.orElse (.str defaultLabel) =
      if label.truthy then label.bare else .str defaultLabel := by
    rw [Value.orElse, Value.truthy_bare]
  rw [next?, next?, horElse, Value.orElse]
  split
  · cases label <;> rfl
  · rfl

/-! ## 2. A walk -/

section

variable {ρ μ : Type} [AddCommMonoid μ] {m : Type → Type u} [Performs World m] [Settling World ρ m]
  {holds : μ → World → Prop} {H : History Event} {w : World} {f : μ} {g : Graph} {flow : Flow m}
  {shared : Shared} {limit : Option Int} {does : Nat → Content → Deed → Prop} {own : Content → μ}
  {visit : Nat → m Datum}

/-- What is owned depends neither on the journal nor on the diagnostics. -/
def OverlooksJournal (holds : μ → World → Prop) : Prop :=
  ∀ own w channel es, holds own w → holds own { w with channel := channel, journal := es ++ w.journal }

/-- A visit of a node comes to a deed. -/
def Does (holds : μ → World → Prop) (own : Content → μ) (deed : Deed) (H : History Event) :
    Ending World μ Event Datum := fun H' r w f =>
  ∃ d es, r = .ok d ∧ H' = H.add es ∧ (w.heap.view d).bare = deed.label ∧ trailOf es = deed.within ∧
    holds (own deed.content + f) w

/-- A walk comes to the end of its tour. -/
def Tours (holds : μ → World → Prop) (own : Content → μ) (trail : List Ended) (content : Content)
    (H : History Event) : Ending World μ Event Datum := fun H' r w f =>
  ∃ d es, r = .ok d ∧ H' = H.add es ∧ trailOf es = trail ∧ holds (own content + f) w

/-- What a plan tells its listeners, oldest first. -/
def FlowPlan.tellings (p : FlowPlan) (call : HookCall) : List Event :=
  (Terms.audience p call).map fun l => .told l.2.tag call

theorem trailOf_tellings_nodeEnd (p : FlowPlan) (name : String) (label context : Value) :
    trailOf (p.tellings (.nodeEnd name label context)) = p.endings name label.bare := by
  unfold trailOf FlowPlan.tellings
  rw [List.filterMap_map, FlowPlan.endings]
  exact List.filterMap_eq_map_iff_forall_eq_some.2 fun _ _ => rfl

theorem trailOf_tellings_of_ne {p : FlowPlan} {call : HookCall}
    (h : ∀ name label context, call ≠ .nodeEnd name label context) : trailOf (p.tellings call) = [] := by
  unfold trailOf FlowPlan.tellings
  rw [List.filterMap_map, List.filterMap_eq_nil_iff]
  intro l _
  cases call with
  | nodeEnd name label context => exact absurd rfl (h name label context)
  | _ => rfl

theorem ne_wait_of_told {es : List Event} (h : ∀ e ∈ es, ∃ tag call, e = .told tag call) (seconds : Binary64) :
    es ≠ [.wait seconds] := by
  rintro rfl
  obtain ⟨tag, call, he⟩ := h _ (List.mem_singleton_self _)
  cases he

/-- The listeners are told of something, and then it goes on. -/
theorem settles_told (hover : OverlooksJournal holds) {o : μ} {β : Type} {call : HookCall} {F : Unit → m β}
    {Q : Ending World μ Event β} (hown : holds o w)
    (hF : holds o (flow.told call w) →
      Settling.Settles ρ World.chronicle holds (H.add (flow.tellings call)) (flow.told call w) f (F ()) Q) :
    Settling.Settles ρ World.chronicle holds H w f (Performs.perform (flow.tell call) >>= F) Q := by
  have htold : ∀ e ∈ flow.tellings call, ∃ tag call, e = .told tag call := by
    intro e he
    obtain ⟨l, -, rfl⟩ := List.mem_map.1 he
    exact ⟨_, _, rfl⟩
  rw [Flow.tell_eq_modify]
  exact settles_after ρ rfl rfl (ne_wait_of_told htold) (hF (hover o w w.channel _ hown))

omit [Performs World m] in
theorem checkSteps_of_allows (hlimit : flow.limit = limitValue limit) {step : Nat}
    (h : Graph.Allows limit step) : flow.checkSteps step w = (.ok (), w) :=
  Flow.checkSteps_of_allows (f := (Flow.plain flow.toFlowPlan : Flow (Act World))) hlimit h

/-- What has been noted where a walk ends. -/
theorem exists_noted (node : Node) (shown : Value) (w : World) : ∃ channel, ∃ es : List Event,
    node.noted shown w = { w with channel := channel, journal := es.reverse ++ w.journal } ∧
      (∀ seconds, es ≠ [.wait seconds]) ∧ trailOf es = [] := by
  unfold Node.noted
  split
  · exact ⟨w.channel, [], rfl, nofun, rfl⟩
  · let deliveries := (w.channel.emit (node.endNote shown)).2
    refine ⟨(w.channel.emit (node.endNote shown)).1, deliveries.map Event.delivered, rfl, fun seconds h => ?_, ?_⟩
    · have hmem : Event.wait seconds ∈ deliveries.map Event.delivered := h ▸ List.mem_singleton_self _
      obtain ⟨d, -, hd⟩ := List.mem_map.1 hmem
      cases hd
    · unfold trailOf
      rw [List.filterMap_map, List.filterMap_eq_nil_iff]
      exact fun _ _ => rfl

/-- How a walk goes on behind a visit. -/
def Flow.onward (g : Graph) (flow : Flow m) (shared : Shared) (visit : Nat → m Datum) (fuel step : Nat)
    (node : Node) (shown : Value) (label : Datum) : m Datum := do
  match ← Performs.perform (node.follow shown) with
  | some next => flow.walk g shared visit fuel (step + 1) next
  | none =>
    Performs.perform (flow.tell (.flowEnd (step + 1)))
    pure label

/-- A walk visits a node, between what is told before it and what is told after it, and then goes on. -/
theorem settles_leg (hover : OverlooksJournal holds) (hlimit : flow.limit = limitValue limit) {step i fuel : Nat}
    {node : Node} {content : Content} {deed : Deed} {Q : Ending World μ Event Datum} (hnode : g[i]? = some node)
    (hallows : Graph.Allows limit step) (hown : holds (own content + f) w)
    (hvisit : ∀ H w, holds (own content + f) w →
      Settling.Settles ρ World.chronicle holds H w f (visit i) (Does holds own deed H))
    (honward : ∀ d shown es w f, shown.bare = deed.label →
      trailOf es = deed.within ++ flow.endings node.name deed.label → holds (own deed.content + f) w →
      Settling.Settles ρ World.chronicle holds (H.add es) w f (flow.onward g shared visit fuel step node shown d) Q) :
    Settling.Settles ρ World.chronicle holds H w f (flow.walk g shared visit (fuel + 1) step i) Q := by
  rw [Flow.walk, hnode]
  refine settles_after_silent ρ (checkSteps_of_allows hlimit hallows) rfl ?_
  refine settles_told hover hown fun hown => ?_
  refine Settling.bind (Settling.tryCatch (hvisit _ _ hown) (fun H' d w' f' hd => hd) ?_) ?_ ?_
  · rintro H' e w' f' ⟨d, es, hd, -⟩
    cases hd
  · rintro H' d w' f' ⟨d', es, hd, rfl, hlabel, htrail, hown⟩
    obtain rfl := Except.ok.inj hd
    -- what the listeners are shown is looked up first, and changes nothing
    refine settles_after_silent ρ rfl rfl ?_
    refine settles_after_silent ρ rfl rfl ?_
    refine settles_told hover hown fun hown => ?_
    rw [History.add_add, History.add_add]
    refine honward d _ _ _ f' hlabel ?_ hown
    rw [trailOf_append, trailOf_append, trailOf_tellings_nodeEnd, htrail, hlabel,
      trailOf_tellings_of_ne (by intro _ _ _ h; cases h), List.nil_append]
  · rintro H' e w' f' ⟨d, es, hd, -⟩
    cases hd

/-- Where a label leads nowhere, that is noted and told, and the label is the result. -/
theorem settles_stop (hover : OverlooksJournal holds) {step fuel : Nat} {node : Node} {shown : Value} {d : Datum} {o : μ}
    {Q : Ending World μ Event Datum} (hnext : node.next? shown = .ok none) (hown : holds o w)
    (hQ : ∀ es w, trailOf es = [] → holds o w → Q (H.add es) (.ok d) w f) :
    Settling.Settles ρ World.chronicle holds H w f (flow.onward g shared visit fuel step node shown d) Q := by
  obtain ⟨channel, es, hnoted, hwait, hnone⟩ := exists_noted node shown w
  have hfollow : node.follow shown w = (.ok none, node.noted shown w) := by
    rw [Node.follow_eq, hnext]
  rw [hnoted] at hfollow
  refine settles_after ρ hfollow rfl hwait ?_
  refine settles_told hover (hover _ w channel es.reverse hown) fun hown => ?_
  rw [History.add_add]
  refine Settling.pure (ρ := ρ) (hQ _ _ ?_ hown)
  rw [trailOf_append, hnone, trailOf_tellings_of_ne (by intro _ _ _ h; cases h), List.nil_append]

/-- A walk makes its tour. -/
theorem settles_walk (hover : OverlooksJournal holds) (hlimit : flow.limit = limitValue limit)
    (hvisit : ∀ i content deed H w f, does i content deed → holds (own content + f) w →
      Settling.Settles ρ World.chronicle holds H w f (visit i) (Does holds own deed H))
    {step i n : Nat} {content content' : Content} {trail : List Ended}
    (htour : g.Tour flow.toFlowPlan limit does step i content n trail content') {fuel : Nat} (hfuel : n ≤ fuel)
    (hown : holds (own content + f) w) :
    Settling.Settles ρ World.chronicle holds H w f (flow.walk g shared visit fuel step i)
      (Tours holds own trail content' H) := by
  induction htour generalizing fuel H w f with
  | @stops step i node content deed hnode hallows hdoes hnext =>
    obtain ⟨fuel, rfl⟩ := Nat.exists_eq_add_one_of_ne_zero (Nat.ne_of_gt hfuel)
    refine settles_leg hover hlimit hnode hallows hown (fun H w => hvisit i content deed H w f hdoes)
      fun d shown es w f hlabel htrail hown => ?_
    rw [← hlabel, Node.next?_bare] at hnext
    refine settles_stop hover hnext hown fun es' w' hnone hown => ⟨d, es ++ es', rfl, History.add_add _ _ _, ?_, hown⟩
    rw [trailOf_append, htrail, hnone, List.append_nil]
  | @goes step i j n node content content' deed trail hnode hallows hdoes hnext _ ih =>
    obtain ⟨fuel, rfl⟩ := Nat.exists_eq_add_one_of_ne_zero (Nat.ne_of_gt (Nat.zero_lt_of_lt hfuel))
    refine settles_leg hover hlimit hnode hallows hown (fun H w => hvisit i content deed H w f hdoes)
      fun d shown es w f hlabel htrail hown => ?_
    rw [← hlabel, Node.next?_bare] at hnext
    have hfollow : node.follow shown w = (.ok (some j), w) := by
      rw [Node.follow_eq, hnext]
    refine settles_after_silent ρ hfollow rfl ?_
    refine Settling.mono (ih (Nat.le_of_succ_le_succ hfuel) hown) ?_
    rintro H' r w' f' ⟨d', es', rfl, rfl, htrail', hown'⟩
    refine ⟨d', es ++ es', rfl, History.add_add _ _ _, ?_, hown'⟩
    rw [trailOf_append, htrail, htrail']

end

end NodeFlow
