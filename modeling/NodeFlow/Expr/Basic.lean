import NodeFlow.Number.Binary64
import NodeFlow.Value.Compare
/-!
# Expressions

The trees that placeholders and conditions are read as, with the operators and literals they are
built from. A tree says nothing about its text: `and` and `&&` give one tree, and so do the two ways
of reading a property.
-/

set_option autoImplicit false

namespace NodeFlow

/-- A literal. A negative number is not one: it is a number under a minus. -/
inductive Literal
  | null
  | undefined
  | bool (b : Bool)
  | int (n : Nat)
  | float (x : Binary64)
  | str (s : String)
  deriving DecidableEq

namespace Literal

/-- The value of a literal. -/
def value : Literal → Value
  | .null => .null
  | .undefined => .undefined
  | .bool b => .bool b
  | .int n => .int n
  | .float x => .float x
  | .str s => .str s

end Literal

/-- The comparison operators. -/
inductive CompareOp
  /-- equal after a text beside a number has been read as a number -/
  | eq
  | ne
  /-- equal and of one type -/
  | same
  | notSame
  | order (op : Comparison)
  | isIn
  deriving DecidableEq

namespace CompareOp

/-- How the operator is written. -/
def text : CompareOp → String
  | .eq => "=="
  | .ne => "!="
  | .same => "==="
  | .notSame => "!=="
  | .order .lt => "<"
  | .order .le => "<="
  | .order .gt => ">"
  | .order .ge => ">="
  | .isIn => "in"

end CompareOp

/-- The arithmetic operators. -/
inductive ArithOp
  | add | sub | mul | div | mod
  deriving DecidableEq

namespace ArithOp

/-- How the operator is written. -/
def text : ArithOp → String
  | .add => "+"
  | .sub => "-"
  | .mul => "*"
  | .div => "/"
  | .mod => "%"

end ArithOp

/-- An expression. -/
inductive Expr
  | lit (l : Literal)
  | name (n : String)
  | get (base key : Expr)
  | list (items : List Expr)
  | or (l r : Expr)
  | and (l r : Expr)
  | not (e : Expr)
  | neg (e : Expr)
  | compare (op : CompareOp) (l r : Expr)
  | arith (op : ArithOp) (l r : Expr)
  | call (function : String) (args : List Expr)
  | method (receiver : Expr) (name : String) (args : List Expr)
  deriving Inhabited

end NodeFlow
