import NodeFlow.Value.Arithmetic
/-!
# Sums and products of any two values

Numbers add and multiply as numbers, and so do booleans, as one and zero. Beyond that two texts or two
lists have a sum, the one after the other, and a text or list has a product with a whole number, so
many copies of it. Nothing else can be combined, and a product may be too large; the cause says which
operands met, and is worded in one place.
-/

set_option autoImplicit false

namespace NodeFlow

/-! ## 1. Why there is no result -/

/-- Why operands have no result. Types go by the names that messages show. -/
inductive OperandFault
  /-- an operator is not defined between two types -/
  | unsupported (operator left right : String)
  /-- two types have no order -/
  | unordered (operator left right : String)
  /-- something else was to be joined to a text or a list -/
  | notJoinable (own other : String)
  /-- a text or a list was to be copied a number of times that is no whole number -/
  | countNotWhole (typeName : String)
  /-- a whole number was needed -/
  | notWhole (typeName : String)
  /-- a whole number is beyond the floating-point numbers -/
  | beyondBinary
  /-- a number of copies is beyond all places that a list or text can have -/
  | beyondIndex
  /-- the copies of a text are -/
  | textTooLong
  /-- the copies are more than there is room for -/
  | noRoom
  deriving DecidableEq

namespace OperandFault

/-- The fault that a cause is. -/
def fault : OperandFault → Fault
  | .unsupported .. | .unordered .. | .notJoinable .. | .countNotWhole _ | .notWhole _ => .type
  | .beyondBinary | .beyondIndex | .textTooLong => .overflow
  | .noRoom => .memory

/-- The wording of a cause. -/
def message : OperandFault → String
  | .unsupported operator left right =>
    "unsupported operand type(s) for " ++ operator ++ ": '" ++ left ++ "' and '" ++ right ++ "'"
  | .unordered operator left right =>
    "'" ++ operator ++ "' not supported between instances of '" ++ left ++ "' and '" ++ right ++ "'"
  | .notJoinable own other =>
    "can only concatenate " ++ own ++ " (not \"" ++ other ++ "\") to " ++ own
  | .countNotWhole typeName => "can't multiply sequence by non-int of type '" ++ typeName ++ "'"
  | .notWhole typeName => "'" ++ typeName ++ "' object cannot be interpreted as an integer"
  | .beyondBinary => "int too large to convert to float"
  | .beyondIndex => "cannot fit 'int' into an index-sized integer"
  | .textTooLong => "repeated string is too long"
  | .noRoom => ""

end OperandFault

namespace Value

/-! ## 2. Sums -/

/-- A result of arithmetic on numbers. It fails only if a whole number is out of range. -/
def ofNumber : Except Fault Number → Except OperandFault Value
  | .ok n => .ok n.value
  | .error _ => .error .beyondBinary

/-- The sum of two numbers; two texts or two lists one after the other. -/
def plus (l r : Value) : Except OperandFault Value :=
  match l, r with
  | .str s, .str t => .ok (.str (s ++ t))
  | .list _ xs, .list _ ys => .ok (.ofList (xs ++ ys))
  | .str _, r => .error (.notJoinable "str" r.typeName)
  | .list _ _, r => .error (.notJoinable "list" r.typeName)
  | l, r =>
    match l.magnitude?, r.magnitude? with
    | some x, some y => ofNumber (x.add y)
    | _, _ => .error (.unsupported "+" l.typeName r.typeName)

/-! ## 3. Products -/

/-- The places that a list or a text can have are below this. -/
def placesEnd : Nat := 9223372036854775808

/-- As many elements have room in memory. -/
def room : Nat := 2147483648

/-- How many copies of something of a size are made when a number of them is asked for. Fewer than
none are none. -/
def copyCount (n : Int) (size : Nat) (tooLong : OperandFault) : Except OperandFault Nat :=
  if n < -(placesEnd : Int) || (placesEnd : Int) ≤ n then .error .beyondIndex
  else if placesEnd ≤ n.toNat * size then .error tooLong
  else if room < n.toNat * size then .error .noRoom
  else .ok (if size = 0 then 0 else n.toNat)

/-- So many copies of a list, one after the other. -/
def copies {α : Type} (n : Nat) (xs : List α) : List α :=
  (List.replicate n xs).flatten

/-- A text or a list so many times over. -/
def repeated (v : Value) (n : Int) : Except OperandFault Value :=
  match v with
  | .str s => do
    let count ← copyCount n s.length .textTooLong
    pure (.str (String.ofList (copies count s.toList)))
  | .list _ xs => do
    let count ← copyCount n xs.length .noRoom
    pure (.ofList (copies count xs))
  | v => .error (.unsupported "*" v.typeName "int")

/-- Is the value a text or a list? -/
def isSequence (v : Value) : Bool := v.isText || v.isList

/-- The product of two numbers; so many copies of a text or a list. -/
def times (l r : Value) : Except OperandFault Value :=
  match l.magnitude?, r.magnitude? with
  | some x, some y => ofNumber (x.mul y)
  | left, right =>
    if l.isSequence then
      match right with
      | some (.int n) => l.repeated n
      | _ => .error (.countNotWhole r.typeName)
    else if r.isSequence then
      match left with
      | some (.int n) => r.repeated n
      | _ => .error (.countNotWhole l.typeName)
    else .error (.unsupported "*" l.typeName r.typeName)

end Value

end NodeFlow
