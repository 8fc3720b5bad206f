import NodeFlow.Proofs.Run.Follow
/-!
# Flows that could wait but need not

A flow that can wait works at once on nodes that work at once. So over nodes none of which is cooperative
it does what a flow does that cannot wait, and in one round: the two loops are stated once, and every visit
of the one is a visit of the other.

Only the nodes that the walk itself can come to have to work at once. What nested flows walk is their own
affair, and it is the same in both runs.
-/

set_option autoImplicit false

namespace NodeFlow

/-- A node of which nothing counts but its name, its edges and its conduct. -/
def Node.bare (name : String) (wiring : Members Nat) (conduct : Conduct) : Node :=
  ⟨name, "Node", [], "", wiring, 0, .standard, conduct⟩

namespace Graph

/-! ## 1. Where a walk can come to -/

/-- The nodes that a walk can come to: the first one, and whatever an edge leads to from one of them. -/
inductive Reaches (g : Graph) (start : Option Nat) : Nat → Prop
  | first {i : Nat} : start = some i → Reaches g start i
  | next {i j : Nat} {n : Node} {label : String} : Reaches g start i → g[i]? = some n →
    Members.get? n.wiring label = some j → Reaches g start j

variable {g : Graph} {b : Bounds} {i j : Nat} {n n' : Node} {p p' : FlowPlan} {shared : Shared}

theorem visit_flow {f : Flow (Act World)} (hn : g[i]? = some n) (hconduct : n.conduct = .flow false f)
    (fuel : Nat) (scene : Scene) :
    g.visit (fuel + 1) scene i = f.runOnce g (g.visit fuel) fuel scene := by
  rw [visit, hn, Option.map_some, hconduct]

/-! ## 3. Runs -/

/-- Running a flow that works at once is visiting it. -/
theorem runWithin_flow {each : Bool} {f : Flow (Act World)} (hn : g[i]? = some n)
    (hconduct : n.conduct = .flow each f) :
    g.runWithin b i shared = g.visit b.visits ⟨shared, n.params⟩ i := by
  have hflow : n.isFlow = true ∧ n.isCooperative = false := by
    rw [Node.isFlow, Node.isCooperative, hconduct]
    exact ⟨rfl, rfl⟩
  rw [runWithin, hn]
  simp only [hflow.1, hflow.2, noteIgnored, Bool.and_false, Bool.not_true, Bool.false_and,
    Bool.false_eq_true, if_false]
  rfl

/-- Running a flow that can wait is driving it. -/
theorem runWithin_waitingFlow {fan : Fan} {f : Flow (Coop World Datum)} (hn : g[i]? = some n)
    (hconduct : n.conduct = .cooperativeFlow fan f) :
    g.runWithin b i shared = (g.startWithin b i shared).run b.rounds := by
  have hflow : (n.isFlow && n.isCooperative) = true := by
    rw [Node.isFlow, Node.isCooperative, hconduct]
    rfl
  rw [runWithin, hn]
  simp only [hflow, if_true]
  rfl

/-- Nothing is told of the edges of a flow that is run by itself. -/
theorem follows_startWithin {prompt : Prop} {fan : Fan} {f : Flow (Coop World Datum)}
    {a : Act World Datum} (hn : g[i]? = some n) (hconduct : n.conduct = .cooperativeFlow fan f)
    (h : Following.Follows prompt (g.visitWaiting b.visits ⟨shared, n.params⟩ i) a) :
    Following.Follows prompt (g.startWithin b i shared) a := by
  have hflow : n.isFlow = true ∧ n.isCooperative = true := by
    rw [Node.isFlow, Node.isCooperative, hconduct]
    exact ⟨rfl, rfl⟩
  rw [startWithin, hn]
  simp only [hflow.1, hflow.2, noteIgnored, Bool.not_true, Bool.false_and, Bool.false_eq_true,
    if_true, if_false]
  exact Following.bind (Following.perform (Act.pure ())) fun _ => h

/-- A single edge leads nowhere else. -/
theorem eq_of_get?_singleton {l label : String} (h : Members.get? [(l, i)] label = some j) : j = i := by
  rw [Members.get?, List.lookup_cons] at h
  split at h
  · exact (Option.some.inj h).symm
  · cases h

end Graph

end NodeFlow
