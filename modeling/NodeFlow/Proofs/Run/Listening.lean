import NodeFlow.Run.Flow
/-!
# Telling listeners

However many of the listeners fail, and whenever they do, each of them is told once, in their order, and whoever
tells them goes on. So what is told of a record, of a write or of a moment of a flow has one entry for each listener.
-/

set_option autoImplicit false

universe u

namespace NodeFlow

namespace Listener

variable {ε : Type}

/-- Whoever fails, all are told, and nobody notices. -/
theorem tellEach_eq (fails : List ε → Listener → Bool) (entry : Listener → ε) (ls : List Listener) (told : List ε) :
    tellEach fails entry ls told = (.ok (), told ++ ls.map entry) := by
  induction ls generalizing told with
  | nil => exact congrArg (Prod.mk _) (List.append_nil told).symm
  | cons l ls ih =>
    have hrest := ih (told ++ [entry l])
    rw [List.append_assoc, List.singleton_append] at hrest
    rw [List.map_cons, ← hrest, tellEach]
    -- the first one fails or not, and the others are told either way
    cases l.hear fails told <;> rfl

@[simp]
theorem told_eq (entry : Listener → ε) (ls : List Listener) : told entry ls = ls.map entry := by
  rw [told, tellEach_eq, List.nil_append]

end Listener

/-! ## What they are told of -/

theorem Flow.tell_eq_modify {m : Type → Type u} (f : Flow m) (call : HookCall) : f.tell call = .modify fun w =>
    { w with journal := ((f.listeners.filter fun l => l.1 = call.hook).map fun l =>
        Event.told l.2.tag call).reverse ++ w.journal } := by
  rw [Flow.tell]
  simp only [Listener.told_eq, List.map_map]
  rfl

theorem Channel.emit_snd (c : Channel) (d : Diagnostic) : (c.emit d).2 = c.subscribers.map fun s => ⟨s.tag, d⟩ :=
  Listener.told_eq _ _

theorem Shared.reports_some (a : Addr) (info : StoreInfo) (h : Heap) (key : String) (old new : Datum) :
    (Shared.mk a (some info)).reports h key old new =
      info.observers.map fun o => ⟨o.tag, key, h.view old, h.view new⟩ :=
  Listener.told_eq _ _

end NodeFlow
