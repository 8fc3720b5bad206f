import NodeFlow.Expr.Reason
import NodeFlow.Text.Blank
import NodeFlow.Text.Digit
/-!
# Tokens

The words of an expression: numbers, quoted texts, operators and names. Blanks separate tokens and
mean nothing else. Four words are operators and not names.

A token keeps what it is written as, because messages show it. Digits may be of any script; a name is
made of plain letters, digits, `_` and `$`. Behind the last token of a text stands the end, a token of
its own that nothing is written as.
-/

set_option autoImplicit false

namespace NodeFlow

/-! ## 1. The kinds of tokens -/

/-- The operators, brackets and separators, and the words that are operators. -/
inductive Symbol
  | same | notSame | eq | ne | le | ge | bothSign | eitherSign
  | minus | plus | times | slash | percent | lt | gt | bang
  | openParen | closeParen | point | comma | openBracket | closeBracket
  | bothWord | eitherWord | notWord | inWord
  deriving DecidableEq

namespace Symbol

/-- How the symbol is written. -/
def text : Symbol → String
  | .same => "==="
  | .notSame => "!=="
  | .eq => "=="
  | .ne => "!="
  | .le => "<="
  | .ge => ">="
  | .bothSign => "&&"
  | .eitherSign => "||"
  | .minus => "-"
  | .plus => "+"
  | .times => "*"
  | .slash => "/"
  | .percent => "%"
  | .lt => "<"
  | .gt => ">"
  | .bang => "!"
  | .openParen => "("
  | .closeParen => ")"
  | .point => "."
  | .comma => ","
  | .openBracket => "["
  | .closeBracket => "]"
  | .bothWord => "and"
  | .eitherWord => "or"
  | .notWord => "not"
  | .inWord => "in"

/-- Is the symbol one of the four words? -/
def isWord : Symbol → Bool
  | .bothWord | .eitherWord | .notWord | .inWord => true
  | _ => false

end Symbol

/-- A token. -/
inductive Token
  /-- a whole number, or one with a fraction, by their digits -/
  | number (whole : String) (fraction : Option String)
  /-- a text in one of the two quotes, escapes left as they stand -/
  | quoted (quote : Char) (body : String)
  | symbol (s : Symbol)
  | name (n : String)
  /-- the end of the text -/
  | ended
  deriving DecidableEq

namespace Token

/-- How the token is written. -/
def text : Token → String
  | .number whole none => whole
  | .number whole (some fraction) => whole ++ "." ++ fraction
  | .quoted quote body => String.singleton quote ++ body ++ String.singleton quote
  | .symbol s => s.text
  | .name n => n
  | .ended => ""

/-! ## 2. Reading one token -/

/-- A symbol that is no word, the longest there is, and what follows it. -/
def readSymbol? : List Char → Option (Symbol × List Char)
  | '=' :: '=' :: '=' :: r => some (.same, r)
  | '!' :: '=' :: '=' :: r => some (.notSame, r)
  | '=' :: '=' :: r => some (.eq, r)
  | '!' :: '=' :: r => some (.ne, r)
  | '<' :: '=' :: r => some (.le, r)
  | '>' :: '=' :: r => some (.ge, r)
  | '&' :: '&' :: r => some (.bothSign, r)
  | '|' :: '|' :: r => some (.eitherSign, r)
  | '-' :: r => some (.minus, r)
  | '+' :: r => some (.plus, r)
  | '*' :: r => some (.times, r)
  | '/' :: r => some (.slash, r)
  | '%' :: r => some (.percent, r)
  | '<' :: r => some (.lt, r)
  | '>' :: r => some (.gt, r)
  | '!' :: r => some (.bang, r)
  | '(' :: r => some (.openParen, r)
  | ')' :: r => some (.closeParen, r)
  | '.' :: r => some (.point, r)
  | ',' :: r => some (.comma, r)
  | '[' :: r => some (.openBracket, r)
  | ']' :: r => some (.closeBracket, r)
  | _ => none

/-- The body of a quoted text behind its opening quote, and what follows the closing one. A backslash
takes the next character with it, whatever it is but a line end. -/
def readBody? (quote : Char) : List Char → Option (List Char × List Char)
  | [] => none
  | c :: rest =>
    if c = quote then some ([], rest)
    else if c = '\\' then
      match rest with
      | [] => none
      | e :: more =>
        if e = '\n' then none
        else (readBody? quote more).map fun (body, r) => (c :: e :: body, r)
    else (readBody? quote rest).map fun (body, r) => (c :: body, r)

/-- A character that may start a name. -/
def isNameStart (c : Char) : Bool :=
  ('A' ≤ c && c ≤ 'Z') || ('a' ≤ c && c ≤ 'z') || c = '_' || c = '$'

/-- A character that may go on with a name. -/
def isNameRest (c : Char) : Bool :=
  isNameStart c || ('0' ≤ c && c ≤ '9')

/-- A name, or the operator that it is the word of. -/
def ofWord (w : String) : Token :=
  if w = "and" then .symbol .bothWord
  else if w = "or" then .symbol .eitherWord
  else if w = "not" then .symbol .notWord
  else if w = "in" then .symbol .inWord
  else .name w

/-- A number whose digits before the point have been read. A point belongs to it only with a digit
behind. -/
def readNumber (whole rest : List Char) : Token × List Char :=
  match rest with
  | '.' :: more =>
    match more.span Text.isDigit with
    | ([], _) => (.number (String.ofList whole) none, rest)
    | (fraction, after) => (.number (String.ofList whole) (some (String.ofList fraction)), after)
  | _ => (.number (String.ofList whole) none, rest)

/-- The token at the very start of a text, and what follows it. -/
def readFront? (cs : List Char) : Option (Token × List Char) :=
  match cs with
  | [] => none
  | c :: rest =>
    if Text.isDigit c then
      let whole := cs.span Text.isDigit
      some (readNumber whole.1 whole.2)
    else if c = '\'' || c = '"' then
      (readBody? c rest).map fun (body, r) => (.quoted c (String.ofList body), r)
    else if isNameStart c then
      let word := cs.span isNameRest
      some (ofWord (String.ofList word.1), word.2)
    else (readSymbol? cs).map fun (s, r) => (.symbol s, r)

/-! ## 3. Reading them all -/

/-- The tokens of a text of so many characters, of which the given ones are left, and the end. Where
none starts, the place before the blanks is reported. -/
def readFrom (total : Nat) : Nat → List Char → Except Reason (List Token)
  | 0, _ => .ok [.ended]
  | _ + 1, [] => .ok [.ended]
  | fuel + 1, c :: rest =>
    match readFront? ((c :: rest).dropWhile Text.isBlank) with
    | none => .error (.stray (total - (c :: rest).length) c)
    | some (t, after) => (readFrom total fuel after).map (t :: ·)

/-- The tokens of a text without blanks at its ends, and the end. -/
def readAll (cs : List Char) : Except Reason (List Token) :=
  readFrom cs.length cs.length cs

end Token

end NodeFlow
