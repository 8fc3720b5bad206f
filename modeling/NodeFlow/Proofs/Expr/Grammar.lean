import NodeFlow.Expr.Parse
import Mathlib.Tactic.SplitIfs
/-!
# The grammar of expressions

What the documentation of the language says an expression is, as derivations over lists of tokens: one
rule for each alternative of each production, with the tree that it gives. The tables of operators and
words are spelled out here once more, apart from the ones that the reader of expressions looks up.

The awkward thing up front: the documented grammar is looser in words than in rules. Four rules are
not in it and are in the language all the same: capitalised words are literals, `in` compares, the
operator words are properties behind a point, and a number behind a point is one property for each of
its parts. They are rules below like the others.

A repetition `x (op x)*` is a chain that grows at its right end, so its trees lean to the left. The
lists of arguments are lists of derivations, with commas between their tokens.
-/

set_option autoImplicit false

namespace NodeFlow.Expr

/-! ## 1. Words and operators -/

/-- The operators that chain, by level, and what they make of two operands. -/
inductive Joins : Tier → Symbol → (Expr → Expr → Expr) → Prop
  | eitherSign : Joins .either .eitherSign .or
  | eitherWord : Joins .either .eitherWord .or
  | bothSign : Joins .both .bothSign .and
  | bothWord : Joins .both .bothWord .and
  | plus : Joins .sum .plus (.arith .add)
  | minus : Joins .sum .minus (.arith .sub)
  | times : Joins .product .times (.arith .mul)
  | slash : Joins .product .slash (.arith .div)
  | percent : Joins .product .percent (.arith .mod)

/-- The operators that compare. -/
inductive Compares : Symbol → CompareOp → Prop
  | eq : Compares .eq .eq
  | ne : Compares .ne .ne
  | same : Compares .same .same
  | notSame : Compares .notSame .notSame
  | lt : Compares .lt (.order .lt)
  | le : Compares .le (.order .le)
  | gt : Compares .gt (.order .gt)
  | ge : Compares .ge (.order .ge)
  | inWord : Compares .inWord .isIn

/-- The operators that negate. -/
inductive Negates : Symbol → Prop
  | bang : Negates .bang
  | notWord : Negates .notWord

/-- The tokens that name a property behind a point. -/
inductive Named : Token → String → Prop
  | name (n : String) : Named (.name n) n
  | bothWord : Named (.symbol .bothWord) "and"
  | eitherWord : Named (.symbol .eitherWord) "or"
  | notWord : Named (.symbol .notWord) "not"
  | inWord : Named (.symbol .inWord) "in"

/-- The names that are literals. -/
inductive Word : String → Literal → Prop
  | true : Word "true" (.bool true)
  | capitalTrue : Word "True" (.bool true)
  | false : Word "false" (.bool false)
  | capitalFalse : Word "False" (.bool false)
  | null : Word "null" .null
  | capitalNone : Word "None" .null
  | undefined : Word "undefined" .undefined

/-- A name that is none of the literals. -/
def IsFree (n : String) : Prop := ∀ l, ¬ Word n l

/-! ## 2. Derivations -/

/-- The productions. -/
inductive Level
  | chain (tier : Tier)
  | negation
  | comparison
  | signed
  | suffixed
  | primary
  deriving DecidableEq

/-- The operands of a chain. -/
def Tier.operand : Tier → Level
  | .either => .chain .both
  | .both => .negation
  | .sum => .chain .product
  | .product => .signed

/-- Lists of tokens with a comma between any two. -/
def commas (parts : List (List Token)) : List Token :=
  [Token.symbol .comma].intercalate parts

/-- The tokens are derived from a production, with a tree. -/
inductive Derives : Level → List Token → Expr → Prop
  | operand {tier : Tier} {ts : List Token} {e : Expr} :
      Derives tier.operand ts e → Derives (.chain tier) ts e
  | join {tier : Tier} {s : Symbol} {join : Expr → Expr → Expr} {ls rs : List Token} {l r : Expr} :
      Derives (.chain tier) ls l → Joins tier s join → Derives tier.operand rs r →
      Derives (.chain tier) (ls ++ .symbol s :: rs) (join l r)
  | not {s : Symbol} {ts : List Token} {e : Expr} :
      Negates s → Derives .negation ts e → Derives .negation (.symbol s :: ts) (.not e)
  | unnegated {ts : List Token} {e : Expr} : Derives .comparison ts e → Derives .negation ts e
  | compare {s : Symbol} {op : CompareOp} {ls rs : List Token} {l r : Expr} :
      Derives (.chain .sum) ls l → Compares s op → Derives (.chain .sum) rs r →
      Derives .comparison (ls ++ .symbol s :: rs) (.compare op l r)
  | uncompared {ts : List Token} {e : Expr} : Derives (.chain .sum) ts e → Derives .comparison ts e
  | neg {ts : List Token} {e : Expr} :
      Derives .signed ts e → Derives .signed (.symbol .minus :: ts) (.neg e)
  | unsigned {ts : List Token} {e : Expr} : Derives .suffixed ts e → Derives .signed ts e
  | bare {ts : List Token} {e : Expr} : Derives .primary ts e → Derives .suffixed ts e
  | property {t : Token} {n : String} {ts : List Token} {e : Expr} :
      Derives .suffixed ts e → Named t n →
      Derives .suffixed (ts ++ [.symbol .point, t]) (.get e (.lit (.str n)))
  | place {whole : String} {ts : List Token} {e : Expr} : Derives .suffixed ts e →
      Derives .suffixed (ts ++ [.symbol .point, .number whole none]) (.get e (.lit (.str whole)))
  | twoPlaces {whole fraction : String} {ts : List Token} {e : Expr} : Derives .suffixed ts e →
      Derives .suffixed (ts ++ [.symbol .point, .number whole (some fraction)])
        (.get (.get e (.lit (.str whole))) (.lit (.str fraction)))
  | method {t : Token} {n : String} {ts : List Token} {e : Expr} {args : List (List Token × Expr)} :
      Derives .suffixed ts e → Named t n →
      (∀ arg ∈ args, Derives (.chain .either) arg.1 arg.2) →
      Derives .suffixed
        (ts ++ .symbol .point :: t :: .symbol .openParen ::
          (commas (args.map Prod.fst) ++ [.symbol .closeParen]))
        (.method e n (args.map Prod.snd))
  | item {ts ks : List Token} {e key : Expr} :
      Derives .suffixed ts e → Derives (.chain .either) ks key →
      Derives .suffixed (ts ++ .symbol .openBracket :: (ks ++ [.symbol .closeBracket])) (.get e key)
  | number {whole : String} {fraction : Option String} :
      Derives .primary [.number whole fraction] (.lit (numberLiteral whole fraction))
  | text {quote : Char} {body : String} :
      Derives .primary [.quoted quote body] (.lit (.str (String.ofList (unescape body.toList))))
  | word {n : String} {l : Literal} : Word n l → Derives .primary [.name n] (.lit l)
  | name {n : String} : IsFree n → Derives .primary [.name n] (.name n)
  | call {n : String} {args : List (List Token × Expr)} :
      IsFree n → (∀ arg ∈ args, Derives (.chain .either) arg.1 arg.2) →
      Derives .primary
        (.name n :: .symbol .openParen :: (commas (args.map Prod.fst) ++ [.symbol .closeParen]))
        (.call n (args.map Prod.snd))
  | parens {ts : List Token} {e : Expr} : Derives (.chain .either) ts e →
      Derives .primary (.symbol .openParen :: (ts ++ [.symbol .closeParen])) e
  | list {items : List (List Token × Expr)} :
      (∀ item ∈ items, Derives (.chain .either) item.1 item.2) →
      Derives .primary
        (.symbol .openBracket :: (commas (items.map Prod.fst) ++ [.symbol .closeBracket]))
        (.list (items.map Prod.snd))

/-- The tokens of a whole expression, the end apart. -/
abbrev Writes (ts : List Token) (e : Expr) : Prop := Derives (.chain .either) ts e

/-! ## 3. The tables agree

The reader of expressions looks operators and words up in tables of its own. They say the same. -/

theorem join?_eq_some_iff {tier : Tier} {t : Token} {f : Expr → Expr → Expr} :
    tier.join? t = some f ↔ ∃ s, t = .symbol s ∧ Joins tier s f := by
  constructor
  · intro h
    unfold Tier.join? at h
    split at h
    all_goals first | cases h; exact ⟨_, rfl, by constructor⟩ | cases h
  · rintro ⟨s, rfl, h⟩
    cases h <;> rfl

theorem compareOp?_eq_some_iff {t : Token} {op : CompareOp} :
    compareOp? t = some op ↔ ∃ s, t = .symbol s ∧ Compares s op := by
  constructor
  · intro h
    unfold compareOp? at h
    split at h
    all_goals first | cases h; exact ⟨_, rfl, by constructor⟩ | cases h
  · rintro ⟨s, rfl, h⟩
    cases h <;> rfl

theorem isNot_iff {t : Token} : isNot t ↔ ∃ s, t = .symbol s ∧ Negates s := by
  simp only [isNot, Bool.or_eq_true, decide_eq_true_eq]
  constructor
  · rintro (rfl | rfl)
    · exact ⟨_, rfl, .bang⟩
    · exact ⟨_, rfl, .notWord⟩
  · rintro ⟨s, rfl, hs⟩
    cases hs
    · exact .inl rfl
    · exact .inr rfl

theorem property?_eq_some_iff {t : Token} {n : String} : property? t = some n ↔ Named t n := by
  constructor
  · intro h
    cases t with
    | name _ => cases h; exact .name n
    | symbol s => cases s <;> cases h <;> constructor
    | number _ _ => cases h
    | quoted _ _ => cases h
    | ended => cases h
  · intro h
    cases h <;> rfl

theorem wordLiteral?_eq_some_iff {n : String} {l : Literal} :
    wordLiteral? n = some l ↔ Word n l := by
  constructor
  · intro h
    simp only [wordLiteral?, Bool.or_eq_true, decide_eq_true_eq] at h
    split_ifs at h with hn hn hn hn
    · cases h
      rcases hn with rfl | rfl
      · exact .true
      · exact .capitalTrue
    · cases h
      rcases hn with rfl | rfl
      · exact .false
      · exact .capitalFalse
    · cases h
      rcases hn with rfl | rfl
      · exact .null
      · exact .capitalNone
    · cases h
      subst hn
      exact .undefined
  · intro h
    cases h <;> decide

theorem wordLiteral?_eq_none_iff {n : String} : wordLiteral? n = none ↔ IsFree n := by
  simp only [IsFree, ← wordLiteral?_eq_some_iff, Option.eq_none_iff_forall_ne_some, ne_eq]

end NodeFlow.Expr
