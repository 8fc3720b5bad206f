import NodeFlow.Diagnostic.Basic
import NodeFlow.Expr.Eval
import NodeFlow.Template.Placeholder
/-!
# Filling templates

Placeholders are filled from left to right in one pass: what a value brings into the text is not read
again. A placeholder that is refused stays as it stands, and a condition that is refused is false;
either way a diagnostic tells of it and the work goes on. A fault that passes through an expression
stops the work, so a result is a value or a fault, with the diagnostics up to there.

A template that is one placeholder and blanks around it can also be asked for the value itself; lists
and objects of templates are asked part by part.
-/

set_option autoImplicit false

namespace NodeFlow

/-! ## 1. Results with diagnostics -/

/-- A result or a fault, and the diagnostics on the way to it, oldest first. -/
structure Noted (α : Type) where
  result : Except Fault α
  notes : List Diagnostic

namespace Noted

variable {α β : Type}

/-- A result without diagnostics. -/
def pure (a : α) : Noted α := ⟨.ok a, []⟩

/-- One computation after another; a fault ends them. -/
def bind (x : Noted α) (f : α → Noted β) : Noted β :=
  match x.result with
  | .ok a => let y := f a; ⟨y.result, x.notes ++ y.notes⟩
  | .error e => ⟨.error e, x.notes⟩

/-- A function of a result. -/
def map (f : α → β) (x : Noted α) : Noted β := ⟨x.result.map f, x.notes⟩

end Noted

/-! ## 2. What templates see -/

/-- The values that templates see. -/
structure Scope where
  ctx : Value
  result : Value
  /-- the node's own result, if it differs from `result` -/
  exec : Option Value
  /-- the element at hand within a batch -/
  item : Option Value
  params : Value

namespace Scope

/-- The five names. Without a context `ctx` is empty, and so is `params` without parameters. -/
def names (s : Scope) : Names :=
  [ ("ctx", if s.ctx.isNull then .ofMembers [] else s.ctx),
    ("result", s.result),
    ("exec", s.exec.getD s.result),
    ("item", s.item.getD .undefined),
    ("params", s.params.orElse (.ofMembers [])) ]

end Scope

namespace Template

/-! ## 3. Placeholders -/

/-- The value of an expression between blanks. -/
def evaluateIn (scope : Scope) (expr : List Char) : Except EvalError Value :=
  evaluate (String.ofList (Text.strip expr)) scope.names

/-- The diagnostic of a placeholder that was refused; `shown` is the text that stays. -/
def failure (node : String) (shown : List Char) (expr : List Char) (reason : Reason) : Diagnostic where
  code := Diagnostic.evaluationFailed
  message := "Template interpolation failed for " ++ Text.quoted (String.ofList shown) ++ ": " ++
    reason.message
  node := .str node
  data := [("expr", .str (String.ofList expr))]

/-- What a part of a template becomes. -/
def fill (scope : Scope) (node : String) : Piece → Noted (List Char)
  | .plain c => .pure [c]
  | .hole body =>
    let expr := expressionOf body
    match evaluateIn scope expr with
    | .ok v => .pure v.display.toList
    | .error (.escaped f) => ⟨.error f, []⟩
    | .error (.refused r) =>
      let shown := (Piece.hole body).text
      ⟨.ok shown, [failure node shown expr r.reason]⟩

/-- What the parts of a template become, joined. -/
def fillAll (scope : Scope) (node : String) : List Piece → Noted (List Char)
  | [] => .pure []
  | p :: ps => (fill scope node p).bind fun cs => (fillAll scope node ps).map (cs ++ ·)

/-- The text that a template text becomes. -/
def fillText (scope : Scope) (node : String) (s : String) : Noted String :=
  (fillAll scope node (pieces s.toList)).map String.ofList

/-- Fills a template. What is no text is no template and stays. -/
def interpolate (scope : Scope) (node : String) : Value → Noted Value
  | .str s => (fillText scope node s).map .str
  | v => .pure v

/-! ## 4. Values -/

/-- The value that a template text stands for: that of a lone placeholder, else the filled text. -/
def renderText (scope : Scope) (node : String) (s : String) : Noted Value :=
  match pieces (Text.strip s.toList) with
  | [.hole body] =>
    let expr := expressionOf body
    match evaluateIn scope expr with
    | .ok .undefined => .pure .null
    | .ok v => .pure v
    | .error (.escaped f) => ⟨.error f, []⟩
    | .error (.refused r) => ⟨.ok (.str s), [failure node s.toList expr r.reason]⟩
  | _ => (fillText scope node s).map .str

mutual

/-- The value that a template stands for. Lists and objects are new ones. -/
def render (scope : Scope) (node : String) : Value → Noted Value
  | .str s => renderText scope node s
  | .list _ items => (renderItems scope node items).map .ofList
  | .dict _ members => (renderMembers scope node members).map .ofMembers
  | v => .pure v
termination_by structural v => v

/-- The values that the elements of a list stand for. -/
def renderItems (scope : Scope) (node : String) : List Value → Noted (List Value)
  | [] => .pure []
  | x :: xs => (render scope node x).bind fun v => (renderItems scope node xs).map (v :: ·)
termination_by structural xs => xs

/-- The values that the members of an object stand for. -/
def renderMembers (scope : Scope) (node : String) :
    List (String × Value) → Noted (List (String × Value))
  | [] => .pure []
  | (k, x) :: ms =>
    (render scope node x).bind fun v => (renderMembers scope node ms).map ((k, v) :: ·)
termination_by structural ms => ms

end

/-! ## 5. Conditions -/

/-- Does a condition hold? What is neither a boolean nor a text is read as its notation. -/
def condition (scope : Scope) (node : String) : Value → Noted Bool
  | .bool b => .pure b
  | v =>
    match evaluateIn scope v.plain.toList with
    | .ok x => .pure x.truthy
    | .error (.escaped f) => ⟨.error f, []⟩
    | .error (.refused r) =>
      ⟨.ok false, [{
        code := Diagnostic.conditionFailed
        message := "Condition evaluation failed: " ++ v.notate ++ ": " ++ r.reason.message
        node := .str node
        data := [("expr", .str v.plain)] }]⟩

end Template

end NodeFlow
