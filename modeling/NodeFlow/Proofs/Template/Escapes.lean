import NodeFlow.Proofs.Expr.Escapes
import NodeFlow.Proofs.Memory.Seal
import NodeFlow.Proofs.Template.Parts
import NodeFlow.Template.Render
/-!
# What ends the work of templates

Filling a template, asking for the value that it stands for and deciding a condition all evaluate expressions
one after another. What should become of an expression that has no value is the same everywhere: its text
stays, or the condition is false, and one diagnostic tells of it. That is what becomes of it if it is
refused. If a fault passes through it the work ends there, and the only such fault is an overflow.

So what the work comes to is stated twice over: what it should come to, whatever goes wrong within the
expressions, and that it comes to that unless an expression overflows.
-/

set_option autoImplicit false

namespace NodeFlow

/-- Why a text has no value. -/
def EvalError.reason : EvalError → Reason
  | .refused r => r.reason
  | .escaped f => .fault f

/-- An expression that has to be evaluated, and what is told if it has no value. -/
structure Slot where
  expr : List Char
  told : Reason → Diagnostic

namespace Slot

/-- What is told of an expression: one diagnostic if it has no value. -/
def notes (scope : Scope) (s : Slot) : List Diagnostic :=
  match Template.evaluateIn scope s.expr with
  | .ok _ => []
  | .error e => [s.told e.reason]

/-- What becomes of an expression: something that is made of its value, or something else if it has none. -/
def outcome {α : Type} (scope : Scope) (s : Slot) (value : Value → α) (instead : α) : α :=
  match Template.evaluateIn scope s.expr with
  | .ok v => value v
  | .error _ => instead

/-- Does a fault pass through the expression? -/
def escapes (scope : Scope) (s : Slot) : Bool :=
  match Template.evaluateIn scope s.expr with
  | .error (.escaped _) => true
  | _ => false

end Slot

/-! ## 1. Work on expressions -/

/-- Work that evaluates some expressions in order and tells of each that has no value, by diagnostics of one
code. If no fault passes through any of them it comes to a result, with the diagnostics of all; else it ends
at the first one that a fault passes through, with an overflow and the diagnostics of those before. -/
structure Noted.Evaluates {α : Type} (x : Noted α) (scope : Scope) (code : String) (slots : List Slot) (a : α) :
    Prop where
  code_eq : ∀ s ∈ slots, ∀ r, (s.told r).code = code
  comes : (∀ s ∈ slots, s.escapes scope = false) → x = ⟨.ok a, slots.flatMap (Slot.notes scope)⟩
  ends : (∃ s ∈ slots, s.escapes scope = true) →
    x = ⟨.error .overflow, (slots.takeWhile fun s => !s.escapes scope).flatMap (Slot.notes scope)⟩

/-- What follows an element that a predicate does not hold of does not count. -/
theorem takeWhile_append_of_exists {α : Type} {p : α → Bool} {as : List α} (h : ∃ a ∈ as, p a = false)
    (bs : List α) : (as ++ bs).takeWhile p = as.takeWhile p := by
  induction as with
  | nil => exact absurd h fun ⟨_, ha, _⟩ => absurd ha List.not_mem_nil
  | cons a as ih =>
    rw [List.cons_append, List.takeWhile_cons, List.takeWhile_cons]
    cases hp : p a with
    | false => rfl
    | true =>
      have hlater : ∃ a ∈ as, p a = false := by
        obtain ⟨a', ha', hp'⟩ := h
        rcases List.mem_cons.1 ha' with rfl | hmem
        · exact absurd (hp.symm.trans hp') nofun
        · exact ⟨a', hmem, hp'⟩
      rw [if_pos rfl, if_pos rfl, ih hlater]

namespace Noted.Evaluates

variable {α β : Type} {scope : Scope} {code : String} {slots slots' : List Slot} {a : α} {b : β} {x : Noted α}
  {f : α → Noted β}

theorem pure (scope : Scope) (code : String) (a : α) : (Noted.pure a).Evaluates scope code [] a where
  code_eq _ hs := absurd hs List.not_mem_nil
  comes _ := rfl
  ends := fun ⟨_, hs, _⟩ => absurd hs List.not_mem_nil

theorem map (h : x.Evaluates scope code slots a) (g : α → β) :
    (x.map g).Evaluates scope code slots (g a) where
  code_eq := h.code_eq
  comes hcalm := by rw [h.comes hcalm]; rfl
  ends hescapes := by rw [h.ends hescapes]; rfl

/-- One work after another evaluates the expressions of the one and then those of the other. -/
theorem bind (hx : x.Evaluates scope code slots a) (hf : (f a).Evaluates scope code slots' b) :
    (x.bind f).Evaluates scope code (slots ++ slots') b where
  code_eq := List.forall_mem_append.2 ⟨hx.code_eq, hf.code_eq⟩
  comes hcalm := by
    obtain ⟨hfirst, hsecond⟩ := List.forall_mem_append.1 hcalm
    rw [hx.comes hfirst, Noted.bind, List.flatMap_append]
    dsimp only
    rw [hf.comes hsecond]
  ends hescapes := by
    by_cases hfirst : ∃ s ∈ slots, s.escapes scope = true
    · obtain ⟨s, hs, hescape⟩ := hfirst
      rw [hx.ends ⟨s, hs, hescape⟩, takeWhile_append_of_exists ⟨s, hs, by rw [hescape]; rfl⟩]
      rfl
    · have hcalm : ∀ s ∈ slots, s.escapes scope = false := fun s hs =>
        Bool.eq_false_iff.2 fun hescape => hfirst ⟨s, hs, hescape⟩
      have hsecond : ∃ s ∈ slots', s.escapes scope = true := by
        obtain ⟨s, hs, hescape⟩ := hescapes
        exact ⟨s, (List.mem_append.1 hs).resolve_left fun hs => hfirst ⟨s, hs, hescape⟩, hescape⟩
      rw [hx.comes hcalm, Noted.bind, List.takeWhile_append_of_pos fun s hs => by rw [hcalm s hs]; rfl,
        List.flatMap_append]
      dsimp only
      rw [hf.ends hsecond]

/-- Work on one expression. -/
theorem of_slot {s : Slot} {value : Value → α} {instead : α} (hcode : ∀ r, (s.told r).code = code)
    (hok : ∀ v, Template.evaluateIn scope s.expr = .ok v → x = .pure (value v))
    (hrefused : ∀ r, Template.evaluateIn scope s.expr = .error (.refused r) →
      x = ⟨.ok instead, [s.told r.reason]⟩)
    (hescaped : ∀ f, Template.evaluateIn scope s.expr = .error (.escaped f) → x = ⟨.error f, []⟩) :
    x.Evaluates scope code [s] (s.outcome scope value instead) where
  code_eq := List.forall_mem_singleton.2 hcode
  comes hcalm := by
    rw [List.forall_mem_singleton, Slot.escapes] at hcalm
    rw [List.flatMap_singleton, Slot.notes, Slot.outcome]
    cases heval : Template.evaluateIn scope s.expr with
    | ok v => exact hok v heval
    | error e =>
      cases e with
      | refused r => exact hrefused r heval
      | escaped f =>
        rw [heval] at hcalm
        cases hcalm
  ends hescapes := by
    obtain ⟨s', hs', hescape⟩ := hescapes
    obtain rfl := List.mem_singleton.1 hs'
    have hnone : [s'].takeWhile (fun s => !s.escapes scope) = [] := by
      rw [List.takeWhile_cons, hescape]
      rfl
    rw [hnone]
    rw [Slot.escapes] at hescape
    split at hescape
    · next f heval => rw [hescaped f heval, eq_overflow_of_evaluate heval]; rfl
    · cases hescape

end Noted.Evaluates

namespace Template

variable (scope : Scope) (node : String)

/-! ## 2. Texts -/

/-- The expression of a placeholder. The text that stays is shown if it has no value. -/
def slotOf (shown body : List Char) : Slot := ⟨expressionOf body, failure node shown (expressionOf body)⟩

/-- The expressions in a part of a text. -/
def Piece.slots : Piece → List Slot
  | .plain _ => []
  | .hole body => [slotOf node (Piece.hole body).text body]

/-- What a part of a text should become: a placeholder without a value stays. -/
def Piece.filled : Piece → List Char
  | .plain c => [c]
  | .hole body =>
    (slotOf node (Piece.hole body).text body).outcome scope (·.display.toList) (Piece.hole body).text

/-- The expressions in a text. -/
def textSlots (s : String) : List Slot := (pieces s.toList).flatMap (Piece.slots node)

/-- What a text should become. -/
def filledText (s : String) : String := .ofList ((pieces s.toList).flatMap (Piece.filled scope node))

theorem evaluates_fill (p : Piece) :
    (fill scope node p).Evaluates scope Diagnostic.evaluationFailed (p.slots node) (p.filled scope node) := by
  cases p with
  | plain c => exact .pure ..
  | hole body =>
    rw [Piece.slots, Piece.filled, fill]
    refine .of_slot (fun _ => rfl) (fun v heval => ?_) (fun r heval => ?_) fun f heval => ?_ <;>
      · rw [slotOf] at heval
        simp only [heval, slotOf]

theorem evaluates_fillText (s : String) :
    (fillText scope node s).Evaluates scope Diagnostic.evaluationFailed (textSlots node s)
      (filledText scope node s) := by
  refine Noted.Evaluates.map ?_ _
  rw [textSlots]
  induction pieces s.toList with
  | nil => exact .pure ..
  | cons p ps ih => exact (evaluates_fill scope node p).bind (ih.map _)

/-! ## 3. Values -/

/-- The expressions in a template text that stands for a value: a lone placeholder has one, and what is shown
then is the whole text. -/
def loneSlots (s : String) : List Slot :=
  match pieces (Text.strip s.toList) with
  | [.hole body] => [slotOf node s.toList body]
  | _ => textSlots node s

/-- The value that a template text should stand for. -/
def standsFor (s : String) : Value :=
  match pieces (Text.strip s.toList) with
  | [.hole body] =>
    (slotOf node s.toList body).outcome scope (fun v => match v with | .undefined => .null | v => v) (.str s)
  | _ => .str (filledText scope node s)

theorem evaluates_renderText (s : String) :
    (renderText scope node s).Evaluates scope Diagnostic.evaluationFailed (loneSlots node s)
      (standsFor scope node s) := by
  have hfilled := (evaluates_fillText scope node s).map Value.str
  rw [renderText, loneSlots, standsFor]
  generalize pieces (Text.strip s.toList) = ps
  match ps with
  | [.hole body] =>
    refine .of_slot (fun _ => rfl) (fun v heval => ?_) (fun r heval => ?_) fun f heval => ?_
    all_goals
      rw [slotOf] at heval
      simp only [heval, slotOf]
    cases v <;> rfl
  | [] | [.plain _] | .plain _ :: _ :: _ | .hole _ :: _ :: _ => exact hfilled

mutual

/-- The expressions in a template. -/
def slots : Value → List Slot
  | .str s => loneSlots node s
  | .list _ items => itemSlots items
  | .dict _ members => memberSlots members
  | _ => []
termination_by structural v => v

/-- The expressions in the elements of a list. -/
def itemSlots : List Value → List Slot
  | [] => []
  | x :: xs => slots x ++ itemSlots xs
termination_by structural xs => xs

/-- The expressions in the members of an object. -/
def memberSlots : List (String × Value) → List Slot
  | [] => []
  | (_, x) :: ms => slots x ++ memberSlots ms
termination_by structural ms => ms

end

mutual

/-- The value that a template should stand for. -/
def rendered : Value → Value
  | .str s => standsFor scope node s
  | .list _ items => .ofList (renderedItems items)
  | .dict _ members => .ofMembers (renderedMembers members)
  | v => v
termination_by structural v => v

/-- The values that the elements of a list should stand for. -/
def renderedItems : List Value → List Value
  | [] => []
  | x :: xs => rendered x :: renderedItems xs
termination_by structural xs => xs

/-- The values that the members of an object should stand for. -/
def renderedMembers : List (String × Value) → List (String × Value)
  | [] => []
  | (k, x) :: ms => (k, rendered x) :: renderedMembers ms
termination_by structural ms => ms

end

mutual

/-- Asking for the value of a template evaluates its expressions: recursion on the template. -/
theorem evaluates_render : ∀ t : Value,
    (render scope node t).Evaluates scope Diagnostic.evaluationFailed (slots node t) (rendered scope node t)
  | .str s => evaluates_renderText scope node s
  | .list _ items => (evaluates_renderItems items).map _
  | .dict _ members => (evaluates_renderMembers members).map _
  | .null | .undefined | .bool _ | .int _ | .float _ | .store _ _ _ => .pure ..
termination_by structural t => t

theorem evaluates_renderItems : ∀ xs : List Value,
    (renderItems scope node xs).Evaluates scope Diagnostic.evaluationFailed (itemSlots node xs)
      (renderedItems scope node xs)
  | [] => .pure ..
  | x :: xs => (evaluates_render x).bind ((evaluates_renderItems xs).map _)
termination_by structural xs => xs

theorem evaluates_renderMembers : ∀ ms : List (String × Value),
    (renderMembers scope node ms).Evaluates scope Diagnostic.evaluationFailed (memberSlots node ms)
      (renderedMembers scope node ms)
  | [] => .pure ..
  | (_, x) :: ms => (evaluates_render x).bind ((evaluates_renderMembers ms).map _)
termination_by structural ms => ms

end

/-! ## 4. Templates and conditions -/

/-- The expressions in a template that is only to be filled. -/
def fillSlots : Value → List Slot
  | .str s => textSlots node s
  | _ => []

/-- What a template should be filled to. -/
def filled : Value → Value
  | .str s => .str (filledText scope node s)
  | v => v

theorem evaluates_interpolate (t : Value) :
    (interpolate scope node t).Evaluates scope Diagnostic.evaluationFailed (fillSlots node t)
      (filled scope node t) := by
  cases t with
  | str s => exact (evaluates_fillText scope node s).map _
  | _ => exact .pure ..

/-- The expression of a condition that is to be evaluated. -/
def conditionSlot (t : Value) : Slot where
  expr := t.plain.toList
  told reason := {
    code := Diagnostic.conditionFailed
    message := "Condition evaluation failed: " ++ t.notate ++ ": " ++ reason.message
    node := .str node
    data := [("expr", .str t.plain)] }

/-- The expressions in a condition. -/
def conditionSlots : Value → List Slot
  | .bool _ => []
  | t => [conditionSlot node t]

/-- Should a condition hold? -/
def holds : Value → Bool
  | .bool b => b
  | t => (conditionSlot node t).outcome scope Value.truthy false

theorem evaluates_condition (t : Value) :
    (condition scope node t).Evaluates scope Diagnostic.conditionFailed (conditionSlots node t)
      (holds scope node t) := by
  cases t with
  | bool b => exact .pure ..
  | _ =>
    rw [condition.eq_def, conditionSlots.eq_def, holds.eq_def]
    refine .of_slot (fun _ => rfl) (fun v heval => ?_) (fun r heval => ?_) fun f heval => ?_
    all_goals
      rw [conditionSlot] at heval
      simp only [heval, conditionSlot]

/-- **Only an overflow ends the work.** Filling a template, asking for its value and deciding a condition
evaluate the expressions in it in order. As long as none of them overflows, there is a result: every
placeholder that has no value stays as it stands in the text, of which the placeholders and the plain
characters are all parts, a condition that has no value is false, and of each of them exactly one diagnostic
tells. The first one that overflows ends the work. -/
theorem only_overflow_ends (t : Value) :
    (interpolate scope node t).Evaluates scope Diagnostic.evaluationFailed (fillSlots node t)
        (filled scope node t) ∧
      (render scope node t).Evaluates scope Diagnostic.evaluationFailed (slots node t)
        (rendered scope node t) ∧
      (condition scope node t).Evaluates scope Diagnostic.conditionFailed (conditionSlots node t)
        (holds scope node t) ∧
      ∀ s : String, (pieces s.toList).flatMap Piece.text = s.toList :=
  ⟨evaluates_interpolate scope node t, evaluates_render scope node t, evaluates_condition scope node t,
    fun s => flatMap_text_pieces s.toList⟩

/-- A text that writes a number beyond all floating-point numbers is no whole number, and asking for one
overflows. -/
theorem huge_number_ends :
    let scope : Scope := ⟨.null, .null, none, none, .null⟩
    (interpolate scope "" (.str "\x7b\x7bint('1e400')\x7d\x7d")).result = .error .overflow ∧
      (render scope "" (.ofList [.str "\x7b\x7bint('1e400')\x7d\x7d"])).result = .error .overflow ∧
      (condition scope "" (.str "int('1e400')")).result = .error .overflow := by
  intro scope
  have hends : ∀ {α : Type} {x : Noted α} {code : String} {slots : List Slot} {a : α},
      x.Evaluates scope code slots a → slots.any (Slot.escapes scope) = true →
        x.result = .error .overflow :=
    fun h hany => by rw [h.ends (List.any_eq_true.1 hany)]
  exact ⟨hends (evaluates_interpolate scope "" _) (by decide +kernel),
    hends (evaluates_render scope "" _) (by decide +kernel),
    hends (evaluates_condition scope "" _) (by decide +kernel)⟩

end Template

end NodeFlow
