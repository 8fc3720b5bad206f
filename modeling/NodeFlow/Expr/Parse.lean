import NodeFlow.Expr.Basic
import NodeFlow.Expr.Token
import NodeFlow.Number.Numeral
/-!
# Reading expressions

From tokens to trees, one function for each level of the grammar, loosest first:

    expression  := chain of "or" over chain of "and" over negation
    negation    := ("!" | "not") negation | comparison
    comparison  := sum (comparison operator sum)?
    sum         := chain of "+" and "-" over chain of "*", "/" and "%" over signed
    signed      := "-" signed | suffixed
    suffixed    := primary ("." property | "[" expression "]")*
    primary     := number | text | word | name ("(" arguments ")")? | "(" expression ")"
                 | "[" arguments "]"

Chains associate to the left; a comparison does not chain. Behind a point every name is a property,
also a word that is an operator elsewhere; behind a point a number is read as one property for each of
its parts, because `a.0.1` has the tokens `a`, `.` and `0.1`.

The tokens are closed by the end. A function looks at the next token before it takes it, and asking
for a token behind the end is a fault.

The functions go down with a bound on the depth. It is taken from the number of tokens, and a level
goes down at most fifteen times before a token is taken, so the bound is never met.
-/

set_option autoImplicit false

namespace NodeFlow.Expr

/-! ## 1. Literals -/

/-- The text that a quoted token stands for: `\n` and `\t` are a line end and a tab, any other
escaped character is itself. A line end cannot be escaped. -/
def unescape : List Char → List Char
  | [] => []
  | c :: rest =>
    if c = '\\' then
      match rest with
      | [] => [c]
      | e :: more =>
        if e = '\n' then c :: e :: unescape more
        else (if e = 'n' then '\n' else if e = 't' then '\t' else e) :: unescape more
    else c :: unescape rest

/-- The whole number that digits write. -/
def natOfText (s : String) : Nat :=
  Text.natOfDigits (s.toList.filterMap Text.digitValue?)

/-- The literal that a number token writes. -/
def numberLiteral (whole : String) : Option String → Literal
  | none => .int (natOfText whole)
  | some fraction =>
    .float (Numeral.ofDecimal false (natOfText (whole ++ fraction)) (-(fraction.length : Int)))

/-- The names that are literals. -/
def wordLiteral? (n : String) : Option Literal :=
  if n = "true" || n = "True" then some (.bool true)
  else if n = "false" || n = "False" then some (.bool false)
  else if n = "null" || n = "None" then some .null
  else if n = "undefined" then some .undefined
  else none

/-! ## 2. Levels -/

/-- The levels whose operators chain to the left. -/
inductive Tier
  | either | both | sum | product
  deriving DecidableEq

/-- What an operator of the level makes of its operands. -/
def Tier.join? : Tier → Token → Option (Expr → Expr → Expr)
  | .either, .symbol .eitherSign | .either, .symbol .eitherWord => some .or
  | .both, .symbol .bothSign | .both, .symbol .bothWord => some .and
  | .sum, .symbol .plus => some (.arith .add)
  | .sum, .symbol .minus => some (.arith .sub)
  | .product, .symbol .times => some (.arith .mul)
  | .product, .symbol .slash => some (.arith .div)
  | .product, .symbol .percent => some (.arith .mod)
  | _, _ => none

/-- The comparison that a token writes. -/
def compareOp? : Token → Option CompareOp
  | .symbol .eq => some .eq
  | .symbol .ne => some .ne
  | .symbol .same => some .same
  | .symbol .notSame => some .notSame
  | .symbol .lt => some (.order .lt)
  | .symbol .le => some (.order .le)
  | .symbol .gt => some (.order .gt)
  | .symbol .ge => some (.order .ge)
  | .symbol .inWord => some .isIn
  | _ => none

/-- Does the token negate what follows? -/
def isNot (t : Token) : Bool :=
  t = .symbol .bang || t = .symbol .notWord

/-- The property that a token behind a point names. -/
def property? : Token → Option String
  | .name n => some n
  | .symbol s => if s.isWord then some s.text else none
  | _ => none

/-- The properties that a number behind a point names, one for each of its parts. -/
def places (base : Expr) (whole : String) : Option String → Expr
  | none => .get base (.lit (.str whole))
  | some fraction => .get (.get base (.lit (.str whole))) (.lit (.str fraction))

/-- A token was asked for behind the end. -/
def behindEnd : Reason := .fault .index

/-- There is no room to go further down. -/
def tooDeep : Reason := .fault .memory

/-- What a reading step gives: a tree, or several, and the tokens behind it. -/
abbrev Parsed (α : Type) := Except Reason (α × List Token)

/-- The tokens behind an expected symbol. -/
def expect (s : Symbol) : List Token → Except Reason (List Token)
  | [] => .error behindEnd
  | t :: rest => if t = .symbol s then .ok rest else .error (.expected s.text t.text)

mutual

/-- A chain of operands of one level. -/
def chain : Nat → Tier → List Token → Parsed Expr
  | 0, _, _ => .error tooDeep
  | fuel + 1, tier, ts =>
    (operand fuel tier ts).bind fun (e, rest) => chainFrom fuel tier e rest

/-- What goes on with a chain behind its first operands. -/
def chainFrom : Nat → Tier → Expr → List Token → Parsed Expr
  | 0, _, _, _ => .error tooDeep
  | fuel + 1, tier, left, ts =>
    match ts with
    | [] => .error behindEnd
    | t :: rest =>
      match tier.join? t with
      | none => .ok (left, t :: rest)
      | some join =>
        (operand fuel tier rest).bind fun (right, more) => chainFrom fuel tier (join left right) more

/-- An operand of a level: an expression of the next tighter one. -/
def operand : Nat → Tier → List Token → Parsed Expr
  | 0, _, _ => .error tooDeep
  | fuel + 1, tier, ts =>
    match tier with
    | .either => chain fuel .both ts
    | .both => negation fuel ts
    | .sum => chain fuel .product ts
    | .product => signed fuel ts

/-- A negation, or a comparison. -/
def negation : Nat → List Token → Parsed Expr
  | 0, _ => .error tooDeep
  | fuel + 1, ts =>
    match ts with
    | [] => .error behindEnd
    | t :: rest =>
      if isNot t then (negation fuel rest).map fun (e, more) => (.not e, more)
      else comparison fuel (t :: rest)

/-- A comparison, or a sum. -/
def comparison : Nat → List Token → Parsed Expr
  | 0, _ => .error tooDeep
  | fuel + 1, ts =>
    (chain fuel .sum ts).bind fun (left, rest) =>
      match rest with
      | [] => .error behindEnd
      | t :: after =>
        match compareOp? t with
        | none => .ok (left, t :: after)
        | some op => (chain fuel .sum after).map fun (right, more) => (.compare op left right, more)

/-- An expression under any number of minus signs. -/
def signed : Nat → List Token → Parsed Expr
  | 0, _ => .error tooDeep
  | fuel + 1, ts =>
    match ts with
    | [] => .error behindEnd
    | t :: rest =>
      if t = .symbol .minus then (signed fuel rest).map fun (e, more) => (.neg e, more)
      else suffixed fuel (t :: rest)

/-- An expression with the properties, places and method calls behind it. -/
def suffixed : Nat → List Token → Parsed Expr
  | 0, _ => .error tooDeep
  | fuel + 1, ts => (primary fuel ts).bind fun (e, rest) => suffixes fuel e rest

/-- The properties, places and method calls behind an expression. -/
def suffixes : Nat → Expr → List Token → Parsed Expr
  | 0, _, _ => .error tooDeep
  | fuel + 1, base, ts =>
    match ts with
    | [] => .error behindEnd
    | .symbol .point :: rest =>
      match rest with
      | [] => .error behindEnd
      | .number whole fraction :: more => suffixes fuel (places base whole fraction) more
      | t :: more =>
        match property? t with
        | none => .error (.noProperty t.text)
        | some n =>
          match more with
          | [] => .error behindEnd
          | next :: inner =>
            if next = .symbol .openParen then
              (arguments fuel .closeParen inner).bind fun (args, after) =>
                suffixes fuel (.method base n args) after
            else suffixes fuel (.get base (.lit (.str n))) (next :: inner)
    | .symbol .openBracket :: rest =>
      (chain fuel .either rest).bind fun (key, more) =>
        (expect .closeBracket more).bind fun after => suffixes fuel (.get base key) after
    | t :: rest => .ok (base, t :: rest)

/-- Any number of expressions with commas between them, up to a closing symbol. -/
def arguments : Nat → Symbol → List Token → Parsed (List Expr)
  | 0, _, _ => .error tooDeep
  | fuel + 1, closer, ts =>
    match ts with
    | [] => .error behindEnd
    | t :: rest =>
      if t = .symbol closer then .ok ([], rest) else argumentsFrom fuel closer (t :: rest)

/-- At least one expression, up to a closing symbol. -/
def argumentsFrom : Nat → Symbol → List Token → Parsed (List Expr)
  | 0, _, _ => .error tooDeep
  | fuel + 1, closer, ts =>
    (chain fuel .either ts).bind fun (e, rest) =>
      match rest with
      | [] => .error behindEnd
      | t :: more =>
        if t = .symbol closer then .ok ([e], more)
        else
          (expect .comma (t :: more)).bind fun next =>
            (argumentsFrom fuel closer next).map fun (es, after) => (e :: es, after)

/-- A literal, a name, a call, a list or an expression in brackets. -/
def primary : Nat → List Token → Parsed Expr
  | 0, _ => .error tooDeep
  | fuel + 1, ts =>
    match ts with
    | [] => .error behindEnd
    | .ended :: _ => .error .ended
    | .number whole fraction :: rest => .ok (.lit (numberLiteral whole fraction), rest)
    | .quoted _ body :: rest => .ok (.lit (.str (String.ofList (unescape body.toList))), rest)
    | .name n :: rest =>
      match wordLiteral? n with
      | some l => .ok (.lit l, rest)
      | none =>
        match rest with
        | [] => .error behindEnd
        | t :: inner =>
          if t = .symbol .openParen then
            (arguments fuel .closeParen inner).map fun (args, more) => (.call n args, more)
          else .ok (.name n, t :: inner)
    | .symbol .openParen :: rest =>
      (chain fuel .either rest).bind fun (e, more) =>
        (expect .closeParen more).bind fun after => .ok (e, after)
    | .symbol .openBracket :: rest =>
      (arguments fuel .closeBracket rest).map fun (items, more) => (.list items, more)
    | .symbol s :: _ => .error (.unexpected s.text)

end

/-! ## 3. Whole texts -/

/-- The tree that a list of tokens writes, up to the end that closes it. -/
def ofTokens (ts : List Token) : Except Reason Expr :=
  (chain (16 * (ts.length + 1)) .either ts).bind fun (e, rest) =>
    match rest with
    | [] => .error behindEnd
    | t :: _ => if t = .ended then .ok e else .error (.unexpected t.text)

/-- The tree that a text writes. A character that starts no token is reported with the text between
its blanks, anything else with the text as it is. -/
def parse (source : String) : Except Rejection Expr :=
  let inner := Text.strip source.toList
  if inner.isEmpty then .error ⟨source, .empty⟩
  else
    match Token.readAll inner with
    | .error e => .error ⟨String.ofList inner, e⟩
    | .ok ts =>
      match ofTokens ts with
      | .error e => .error ⟨source, e⟩
      | .ok e => .ok e

end NodeFlow.Expr
