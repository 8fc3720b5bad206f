import NodeFlow.Expr.Function
import NodeFlow.Expr.Parse
import NodeFlow.Expr.Property
/-!
# Evaluating expressions

The value of a tree over a few names; nothing else is in reach. Operands are evaluated from left to
right; `and` and `or` give one of their operands and leave the right one alone if the left one
decides. A function or method that does not exist is reported before its arguments are looked at.

A text is refused if it is no expression, if a name or function does not exist, or if a fault of the
expression's own arises. Faults that are not its own, such as a number out of range, pass through.
-/

set_option autoImplicit false

namespace NodeFlow

/-- The values that an expression may name. -/
abbrev Names := List (String × Value)

namespace Expr

/-! ## 1. Operators -/

/-- Equal, and both numbers or both of one type. -/
def strictEqual (l r : Value) : Bool :=
  if l.isNumber && r.isNumber then l.equal r else l.typeName = r.typeName && l.equal r

/-- Is the value undefined or null? -/
def isMissing : Value → Bool
  | .null | .undefined => true
  | _ => false

/-- What a comparison gives. A missing value is in no order with anything. -/
def compareValues (op : CompareOp) (l r : Value) : Except Fault Bool :=
  match op with
  | .same => .ok (strictEqual l r)
  | .notSame => .ok (!strictEqual l r)
  | .isIn => r.includes l
  | .eq => let p := Value.coerced l r; .ok (p.1.equal p.2)
  | .ne => let p := Value.coerced l r; .ok (!p.1.equal p.2)
  | .order c =>
    let p := Value.coerced l r
    if isMissing p.1 || isMissing p.2 then .ok false else Value.ordered c p.1 p.2

/-- The operation on numbers of an operator. -/
def onNumbers : ArithOp → Number → Number → Except Fault Number
  | .add => Number.add
  | .sub => Number.sub
  | .mul => Number.mul
  | .div => Number.div
  | .mod => Number.mod

/-- What an arithmetic operator gives. A sum with a text joins what the operands show; otherwise both
have to be numbers, or texts that write them. -/
def arithValues (op : ArithOp) (l r : Value) : Except Reason Value :=
  if op = .add && (l.isText || r.isText) then .ok (.str (l.display ++ r.display))
  else
    match l.numeric.number?, r.numeric.number? with
    | some x, some y =>
      match onNumbers op x y with
      | .ok n => .ok n.value
      | .error f => .error (.fault f)
    | _, _ => .error (.needsNumbers op.text l.numeric r.numeric)

/-- The value with the other sign. -/
def negValue (v : Value) : Except Reason Value :=
  match v.numeric.number? with
  | some x => .ok x.neg.value
  | none => .error (.cannotNegate v.numeric)

/-- A result of a function, with a fault as the reason of a failure. -/
def refused {α : Type} : Except Fault α → Except Reason α
  | .ok a => .ok a
  | .error f => .error (.fault f)

/-! ## 2. Trees -/

mutual

/-- The value of a tree. -/
def eval (names : Names) : Expr → Except Reason Value
  | .lit l => .ok l.value
  | .name n =>
    match names.lookup n with
    | some v => .ok v
    | none => .error (.unknownName n)
  | .get base key =>
    match eval names base with
    | .error e => .error e
    | .ok b =>
      match eval names key with
      | .error e => .error e
      | .ok k => refused (b.property k)
  | .list items => (evalAll names items).map .ofList
  | .or l r =>
    match eval names l with
    | .error e => .error e
    | .ok a => if a.truthy then .ok a else eval names r
  | .and l r =>
    match eval names l with
    | .error e => .error e
    | .ok a => if a.truthy then eval names r else .ok a
  | .not e => (eval names e).map fun v => .bool (!v.truthy)
  | .neg e =>
    match eval names e with
    | .error e => .error e
    | .ok v => negValue v
  | .compare op l r =>
    match eval names l with
    | .error e => .error e
    | .ok a =>
      match eval names r with
      | .error e => .error e
      | .ok b => (refused (compareValues op a b)).map .bool
  | .arith op l r =>
    match eval names l with
    | .error e => .error e
    | .ok a =>
      match eval names r with
      | .error e => .error e
      | .ok b => arithValues op a b
  | .call f args =>
    match Function.ofName? f with
    | none => .error (.unknownFunction f)
    | some fn =>
      match evalAll names args with
      | .error e => .error e
      | .ok vs => refused (fn.apply vs)
  | .method receiver m args =>
    match Method.ofName? m with
    | none => .error (.unknownMethod m)
    | some known =>
      match eval names receiver with
      | .error e => .error e
      | .ok v =>
        if isMissing v then .error (.cannotCall m v)
        else
          match evalAll names args with
          | .error e => .error e
          | .ok vs => refused (known.apply v vs)
termination_by structural e => e

/-- The values of several trees, in order. -/
def evalAll (names : Names) : List Expr → Except Reason (List Value)
  | [] => .ok []
  | e :: es =>
    match eval names e with
    | .error r => .error r
    | .ok v => (evalAll names es).map (v :: ·)
termination_by structural es => es

end

end Expr

/-! ## 3. Texts -/

/-- Why a text has no value: it was refused, or a fault passed through it. -/
inductive EvalError
  | refused (r : Rejection)
  | escaped (f : Fault)

/-- Says of a reason whether it refuses the text or passes through. -/
def EvalError.of (source : String) : Reason → EvalError
  | .fault f => if f.isRefused then .refused ⟨source, .fault f⟩ else .escaped f
  | r => .refused ⟨source, r⟩

/-- The value of a text over some names. -/
def evaluate (source : String) (names : Names) : Except EvalError Value :=
  match Expr.parse source with
  | .error r => .error (.refused r)
  | .ok e =>
    match e.eval names with
    | .ok v => .ok v
    | .error r => .error (EvalError.of source r)

end NodeFlow
