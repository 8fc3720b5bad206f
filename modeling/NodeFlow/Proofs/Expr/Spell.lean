import NodeFlow.Proofs.Expr.Recognize
import NodeFlow.Proofs.Expr.Scan
/-!
# Writing expressions down

A tree that is written down, with brackets only where it would not be read as itself without them, is
read back as that tree.

The awkward thing up front: there is more than one way to write a tree down. Three operators have two
spellings, a literal may be capitalised, a text may stand in either quote. So writing is a relation
between trees and lists of words, and it is shown apart from reading that every tree has at least one
list. The words of a tree are the tokens of a derivation, and a derivation is read back.
-/

set_option autoImplicit false

namespace NodeFlow

open Token (IsIdentifier IsQuote Plain written)

namespace Expr

/-! ## 1. What is written down -/

/-- A name that is no literal and no word of an operator. -/
structure IsVariable (n : String) : Prop where
  identifier : IsIdentifier n
  free : IsFree n
  noOperator : n ≠ "and" ∧ n ≠ "or" ∧ n ≠ "not" ∧ n ≠ "in"

/-- The trees that can be written down: their literals have a text of their own, which numbers with a
fraction have not, and their names are read as names. -/
inductive Writable : Expr → Prop
  | lit {l : Literal} : (∀ x, l ≠ .float x) → Writable (.lit l)
  | name {n : String} : IsVariable n → Writable (.name n)
  | get {base key : Expr} : Writable base → Writable key → Writable (.get base key)
  | list {items : List Expr} : (∀ item ∈ items, Writable item) → Writable (.list items)
  | or {l r : Expr} : Writable l → Writable r → Writable (.or l r)
  | and {l r : Expr} : Writable l → Writable r → Writable (.and l r)
  | not {e : Expr} : Writable e → Writable (.not e)
  | neg {e : Expr} : Writable e → Writable (.neg e)
  | compare {op : CompareOp} {l r : Expr} : Writable l → Writable r → Writable (.compare op l r)
  | arith {op : ArithOp} {l r : Expr} : Writable l → Writable r → Writable (.arith op l r)
  | call {n : String} {args : List Expr} :
      IsVariable n → (∀ arg ∈ args, Writable arg) → Writable (.call n args)
  | method {receiver : Expr} {n : String} {args : List Expr} :
      Writable receiver → IsIdentifier n → (∀ arg ∈ args, Writable arg) →
      Writable (.method receiver n args)

/-! ## 2. How it is written down -/

/-- The production of a tree without brackets around it. -/
def level : Expr → Level
  | .or _ _ => .chain .either
  | .and _ _ => .chain .both
  | .not _ => .negation
  | .compare _ _ _ => .comparison
  | .arith .add _ _ | .arith .sub _ _ => .chain .sum
  | .arith .mul _ _ | .arith .div _ _ | .arith .mod _ _ => .chain .product
  | .neg _ => .signed
  | .get _ _ | .method _ _ _ => .suffixed
  | .lit _ | .name _ | .list _ | .call _ _ => .primary

/-- The words of a tree where an expression of some production stands: in brackets if the tree is
looser than that. -/
def placed (place : Level) (e : Expr) (words : List String) : List String :=
  if e.level.depth ≤ place.depth then words else "(" :: (words ++ [")"])

/-- Lists of words with a comma between any two. -/
def separated (parts : List (List String)) : List String :=
  [","].intercalate parts

/-- The text of a text literal: the quote and the backslash are escaped, and nothing else. -/
def quoted (quote : Char) (s : String) : String :=
  String.singleton quote ++ String.ofList (Token.escape quote s.toList) ++ String.singleton quote

/-- The words that a tree is written with. -/
inductive Spells : Expr → List String → Prop
  | join {tier : Tier} {s : Symbol} {join : Expr → Expr → Expr} {l r : Expr} {ls rs : List String} :
      Joins tier s join → Spells l ls → Spells r rs →
      Spells (join l r) (placed (.chain tier) l ls ++ s.text :: placed tier.operand r rs)
  | not {s : Symbol} {e : Expr} {ws : List String} :
      Negates s → Spells e ws → Spells (.not e) (s.text :: placed .negation e ws)
  | compare {s : Symbol} {op : CompareOp} {l r : Expr} {ls rs : List String} :
      Compares s op → Spells l ls → Spells r rs →
      Spells (.compare op l r) (placed (.chain .sum) l ls ++ s.text :: placed (.chain .sum) r rs)
  | neg {e : Expr} {ws : List String} :
      Spells e ws → Spells (.neg e) ("-" :: placed .signed e ws)
  | get {base key : Expr} {ws ks : List String} :
      Spells base ws → Spells key ks →
      Spells (.get base key) (placed .suffixed base ws ++ "[" :: (ks ++ ["]"]))
  | method {receiver : Expr} {n : String} {ws : List String} {args : List (Expr × List String)} :
      Spells receiver ws → IsIdentifier n → (∀ arg ∈ args, Spells arg.1 arg.2) →
      Spells (.method receiver n (args.map Prod.fst))
        (placed .suffixed receiver ws ++ "." :: n :: "(" :: (separated (args.map Prod.snd) ++ [")"]))
  | int (n : Nat) : Spells (.lit (.int n)) [toString n]
  | text {quote : Char} (s : String) : IsQuote quote → Spells (.lit (.str s)) [quoted quote s]
  | word {w : String} {l : Literal} : Word w l → Spells (.lit l) [w]
  | name {n : String} : IsVariable n → Spells (.name n) [n]
  | call {n : String} {args : List (Expr × List String)} :
      IsVariable n → (∀ arg ∈ args, Spells arg.1 arg.2) →
      Spells (.call n (args.map Prod.fst)) (n :: "(" :: (separated (args.map Prod.snd) ++ [")"]))
  | list {items : List (Expr × List String)} : (∀ item ∈ items, Spells item.1 item.2) →
      Spells (.list (items.map Prod.fst)) ("[" :: (separated (items.map Prod.snd) ++ ["]"]))

/-- Lists of trees that can be written down one by one. -/
theorem exists_spelled {es : List Expr} (hes : ∀ e ∈ es, ∃ ws, Spells e ws) :
    ∃ parts : List (Expr × List String), es = parts.map Prod.fst ∧
      ∀ part ∈ parts, Spells part.1 part.2 := by
  induction es with
  | nil => exact ⟨[], rfl, by simp⟩
  | cons e es ih =>
    obtain ⟨⟨ws, hws⟩, hes⟩ := List.forall_mem_cons.mp hes
    obtain ⟨parts, rfl, hparts⟩ := ih hes
    exact ⟨(e, ws) :: parts, rfl, List.forall_mem_cons.mpr ⟨hws, hparts⟩⟩

/-- Every tree that can be written down has words to be written with. -/
theorem Writable.spells {e : Expr} (h : Writable e) : ∃ ws, Spells e ws := by
  induction h with
  | @lit l hl =>
    cases l with
    | null => exact ⟨_, .word .null⟩
    | undefined => exact ⟨_, .word .undefined⟩
    | bool b =>
      cases b
      · exact ⟨_, .word .false⟩
      · exact ⟨_, .word .true⟩
    | int n => exact ⟨_, .int n⟩
    | float x => exact absurd rfl (hl x)
    | str s => exact ⟨_, .text s (.inl rfl)⟩
  | name hn => exact ⟨_, .name hn⟩
  | get _ _ ihb ihk =>
    obtain ⟨_, hb⟩ := ihb
    obtain ⟨_, hk⟩ := ihk
    exact ⟨_, .get hb hk⟩
  | list _ ih =>
    obtain ⟨items, rfl, hitems⟩ := exists_spelled ih
    exact ⟨_, .list hitems⟩
  | or _ _ ihl ihr =>
    obtain ⟨_, hl⟩ := ihl
    obtain ⟨_, hr⟩ := ihr
    exact ⟨_, .join .eitherSign hl hr⟩
  | and _ _ ihl ihr =>
    obtain ⟨_, hl⟩ := ihl
    obtain ⟨_, hr⟩ := ihr
    exact ⟨_, .join .bothSign hl hr⟩
  | not _ ih =>
    obtain ⟨_, he⟩ := ih
    exact ⟨_, .not .bang he⟩
  | neg _ ih =>
    obtain ⟨_, he⟩ := ih
    exact ⟨_, .neg he⟩
  | @compare op l r _ _ ihl ihr =>
    obtain ⟨_, hl⟩ := ihl
    obtain ⟨_, hr⟩ := ihr
    obtain ⟨s, hs⟩ : ∃ s, Compares s op := by
      rcases op with _ | _ | _ | _ | (_ | _ | _ | _) | _ <;> exact ⟨_, by constructor⟩
    exact ⟨_, .compare hs hl hr⟩
  | @arith op l r _ _ ihl ihr =>
    obtain ⟨_, hl⟩ := ihl
    obtain ⟨_, hr⟩ := ihr
    obtain ⟨tier, s, hs⟩ : ∃ tier s, Joins tier s (.arith op) := by
      cases op <;> exact ⟨_, _, by constructor⟩
    exact ⟨_, .join hs hl hr⟩
  | call hn _ ih =>
    obtain ⟨args, rfl, hargs⟩ := exists_spelled ih
    exact ⟨_, .call hn hargs⟩
  | method _ hn _ ih ihargs =>
    obtain ⟨_, hreceiver⟩ := ih
    obtain ⟨args, rfl, hargs⟩ := exists_spelled ihargs
    exact ⟨_, .method hreceiver hn hargs⟩

/-! ## 3. The words of a tree are derived -/

/-- The production that is just tighter. -/
def Level.tighter : Level → Level
  | .chain tier => tier.operand
  | .negation => .comparison
  | .comparison => .chain .sum
  | .signed => .suffixed
  | .suffixed | .primary => .primary

theorem Derives.ofTighter {level : Level} {ts : List Token} {e : Expr}
    (h : Derives level.tighter ts e) : Derives level ts e := by
  cases level with
  | chain tier => exact .operand h
  | negation => exact .unnegated h
  | comparison => exact .uncompared h
  | signed => exact .unsigned h
  | suffixed => exact .bare h
  | primary => exact h

/-- An expression of a production is one of every looser production. -/
theorem Derives.loosen {level place : Level} {ts : List Token} {e : Expr} (h : Derives level ts e)
    (hle : level.depth ≤ place.depth) : Derives place ts e := by
  by_cases heq : level = place
  · exact heq ▸ h
  · have htighter : level.depth ≤ place.tighter.depth ∧ place.tighter.depth < place.depth := by
      rcases level with (_ | _ | _ | _) | _ | _ | _ | _ | _ <;>
        rcases place with (_ | _ | _ | _) | _ | _ | _ | _ | _ <;>
        first | exact absurd rfl heq | exact absurd hle (by decide) | decide
    exact .ofTighter (h.loosen htighter.1)
termination_by place.depth
decreasing_by exact htighter.2

/-- The words are what plain tokens are written as. -/
structure Scans (ws : List String) (ts : List Token) : Prop where
  words : ws = ts.map Token.text
  plain : ∀ t ∈ ts, Plain t

theorem Scans.nil : Scans [] [] := ⟨rfl, by simp⟩

theorem Scans.cons {w : String} {ws : List String} {t : Token} {ts : List Token} (ht : Plain t)
    (hw : w = t.text) (h : Scans ws ts) : Scans (w :: ws) (t :: ts) :=
  ⟨by rw [hw, h.words, List.map_cons], List.forall_mem_cons.mpr ⟨ht, h.plain⟩⟩

theorem Scans.symbol {ws : List String} {ts : List Token} (s : Symbol) (h : Scans ws ts) :
    Scans (s.text :: ws) (.symbol s :: ts) :=
  h.cons (.symbol s) rfl

theorem Scans.append {ws ws' : List String} {ts ts' : List Token} (h : Scans ws ts)
    (h' : Scans ws' ts') : Scans (ws ++ ws') (ts ++ ts') :=
  ⟨by rw [h.words, h'.words, List.map_append],
    fun t ht => (List.mem_append.mp ht).elim (h.plain t) (h'.plain t)⟩

/-- The words of a tree are those of a derivation from its production. -/
def Derived (level : Level) (e : Expr) (ws : List String) : Prop :=
  ∃ ts, Scans ws ts ∧ Derives level ts e

theorem Derived.placed {e : Expr} {ws : List String} (h : Derived e.level e ws) (place : Level) :
    Derived place e (placed place e ws) := by
  obtain ⟨ts, hscans, hts⟩ := h
  rw [Expr.placed]
  split_ifs with hle
  · exact ⟨ts, hscans, hts.loosen hle⟩
  · have hloosest : e.level.depth ≤ (Level.chain .either).depth := by
      rcases e.level with (_ | _ | _ | _) | _ | _ | _ | _ | _ <;> decide
    have hprimary : Level.primary.depth ≤ place.depth := by
      rcases place with (_ | _ | _ | _) | _ | _ | _ | _ | _ <;> decide
    refine ⟨_, .symbol .openParen (hscans.append (.symbol .closeParen .nil)), ?_⟩
    exact (Derives.parens (hts.loosen hloosest)).loosen hprimary

/-- A whole expression is one of the loosest production. -/
theorem Derived.writes {e : Expr} {ws : List String} (h : Derived e.level e ws) :
    ∃ ts, Scans ws ts ∧ Writes ts e := by
  obtain ⟨ts, hscans, hts⟩ := h
  refine ⟨ts, hscans, hts.loosen ?_⟩
  rcases e.level with (_ | _ | _ | _) | _ | _ | _ | _ | _ <;> decide

/-- The words of several trees with commas between them, up to a symbol that closes them. -/
theorem Derived.separated {args : List (Expr × List String)} (closer : Symbol)
    (hargs : ∀ arg ∈ args, Derived arg.1.level arg.1 arg.2) :
    ∃ parts : List (List Token × Expr), args.map Prod.fst = parts.map Prod.snd ∧
      Scans (separated (args.map Prod.snd) ++ [closer.text])
        (commas (parts.map Prod.fst) ++ [.symbol closer]) ∧
      ∀ part ∈ parts, Writes part.1 part.2 := by
  induction args with
  | nil => exact ⟨[], rfl, .symbol closer .nil, by simp⟩
  | cons arg args ih =>
    obtain ⟨harg, hargs⟩ := List.forall_mem_cons.mp hargs
    obtain ⟨ts, hscans, hts⟩ := harg.writes
    obtain ⟨parts, heq, hrest, hparts⟩ := ih hargs
    refine ⟨(ts, arg.1) :: parts, by rw [List.map_cons, List.map_cons, heq], ?_,
      List.forall_mem_cons.mpr ⟨hts, hparts⟩⟩
    cases args with
    | nil =>
      obtain rfl : parts = [] := List.map_eq_nil_iff.mp heq.symm
      simpa [Expr.separated, commas] using hscans.append (.symbol closer .nil)
    | cons next args =>
      obtain ⟨part, parts, rfl⟩ : ∃ part more, parts = part :: more :=
        List.exists_cons_of_ne_nil (by rintro rfl; cases heq)
      simpa [Expr.separated, commas, Symbol.text] using hscans.append (.symbol .comma hrest)

theorem level_of_joins {tier : Tier} {s : Symbol} {f : Expr → Expr → Expr} (h : Joins tier s f)
    (l r : Expr) : (f l r).level = .chain tier := by
  cases h <;> rfl

/-- A name of the language of tokens is one behind a point, a word of an operator or not. -/
theorem plain_ofWord {n : String} (hn : IsIdentifier n) :
    Plain (Token.ofWord n) ∧ (Token.ofWord n).text = n ∧ Named (Token.ofWord n) n := by
  by_cases hword : Token.ofWord n = .name n
  · rw [hword]
    exact ⟨.name hn hword, rfl, .name n⟩
  · rw [Token.ofWord] at hword ⊢
    split_ifs at hword ⊢ with h h h h
    · exact ⟨.symbol _, h.symm, h ▸ .bothWord⟩
    · exact ⟨.symbol _, h.symm, h ▸ .eitherWord⟩
    · exact ⟨.symbol _, h.symm, h ▸ .notWord⟩
    · exact ⟨.symbol _, h.symm, h ▸ .inWord⟩
    · exact absurd rfl hword

theorem IsVariable.ofWord_eq {n : String} (h : IsVariable n) : Token.ofWord n = .name n := by
  obtain ⟨hand, hor, hnot, hin⟩ := h.noOperator
  rw [Token.ofWord, if_neg hand, if_neg hor, if_neg hnot, if_neg hin]

theorem IsVariable.plain {n : String} (h : IsVariable n) : Plain (.name n) := .name h.identifier h.ofWord_eq

theorem Word.plain {w : String} {l : Literal} (h : Word w l) : Plain (.name w) := by
  cases h <;> exact .name (.of_eq rfl rfl rfl) rfl

/-- The words of a tree are the tokens of a derivation of the tree. -/
theorem Spells.derived {e : Expr} {ws : List String} (h : Spells e ws) : Derived e.level e ws := by
  induction h with
  | @join tier s f l r ls rs hs _ _ ihl ihr =>
    obtain ⟨lts, hlscans, hlts⟩ := ihl.placed (.chain tier)
    obtain ⟨rts, hrscans, hrts⟩ := ihr.placed tier.operand
    rw [level_of_joins hs]
    exact ⟨_, hlscans.append (.symbol s hrscans), .join hlts hs hrts⟩
  | @not s e ws hs _ ih =>
    obtain ⟨ts, hscans, hts⟩ := ih.placed .negation
    exact ⟨_, .symbol s hscans, .not hs hts⟩
  | @compare s op l r ls rs hs _ _ ihl ihr =>
    obtain ⟨lts, hlscans, hlts⟩ := ihl.placed (.chain .sum)
    obtain ⟨rts, hrscans, hrts⟩ := ihr.placed (.chain .sum)
    exact ⟨_, hlscans.append (.symbol s hrscans), .compare hlts hs hrts⟩
  | neg _ ih =>
    obtain ⟨ts, hscans, hts⟩ := ih.placed .signed
    exact ⟨_, .symbol .minus hscans, .neg hts⟩
  | get _ _ ihb ihk =>
    obtain ⟨bts, hbscans, hbts⟩ := ihb.placed .suffixed
    obtain ⟨kts, hkscans, hkts⟩ := ihk.writes
    have hkey := Scans.symbol .openBracket (hkscans.append (.symbol .closeBracket .nil))
    exact ⟨_, hbscans.append hkey, .item hbts hkts⟩
  | method _ hn _ ih ihargs =>
    obtain ⟨ts, hscans, hts⟩ := ih.placed .suffixed
    obtain ⟨parts, heq, hargs, hparts⟩ := Derived.separated .closeParen ihargs
    obtain ⟨hplain, htext, hnamed⟩ := plain_ofWord hn
    rw [heq]
    have hcall := Scans.symbol .point (.cons hplain htext.symm (.symbol .openParen hargs))
    exact ⟨_, hscans.append hcall, .method hts hnamed hparts⟩
  | int n =>
    have hnumber := @Derives.number (toString n) none
    rw [numberLiteral, Token.natOfText_toString] at hnumber
    exact ⟨_, .cons (.number n) rfl .nil, hnumber⟩
  | @text quote s hquote =>
    have htext := @Derives.text quote (String.ofList (Token.escape quote s.toList))
    rw [String.toList_ofList, Token.unescape_escape hquote, String.ofList_toList] at htext
    exact ⟨_, .cons (.quoted s hquote) rfl .nil, htext⟩
  | word hl => exact ⟨_, .cons hl.plain rfl .nil, .word hl⟩
  | name hn => exact ⟨_, .cons hn.plain rfl .nil, .name hn.free⟩
  | call hn _ ih =>
    obtain ⟨parts, heq, hargs, hparts⟩ := Derived.separated .closeParen ih
    rw [heq]
    exact ⟨_, .cons hn.plain rfl (.symbol .openParen hargs), .call hn.free hparts⟩
  | list _ ih =>
    obtain ⟨parts, heq, hitems, hparts⟩ := Derived.separated .closeBracket ih
    rw [heq]
    exact ⟨_, .symbol .openBracket hitems, .list hparts⟩

/-! ## 4. Reading back -/

/-- A text of plain tokens that write a tree is read as that tree. -/
theorem parse_written {ts : List Token} {e : Expr} (hplain : ∀ t ∈ ts, Plain t) (h : Writes ts e) :
    parse (written ts) = .ok e := by
  obtain ⟨hedged, hread⟩ := Token.readAll_written hplain h.ne_nil
  have hnotEmpty : (written ts).toList.isEmpty = false := by
    obtain ⟨⟨c, more, hc, -⟩, -⟩ := hedged
    rw [hc, List.isEmpty_cons]
  simp only [parse, Token.strip_of_edged hedged, hnotEmpty, hread, ofTokens_of_writes h]
  rfl

/-- **Writing a tree down and reading it back gives the tree.** A tree of the operators and literals
that have a text can be written down, and however it is, with a blank between any two words, the text
is read as that tree and no other. -/
theorem parse_spelled (e : Expr) (h : Writable e) :
    (∃ words, Spells e words) ∧
      ∀ words, Spells e words → parse (" ".intercalate words) = .ok e := by
  refine ⟨h.spells, fun words hwords => ?_⟩
  obtain ⟨ts, hscans, hwrites⟩ := hwords.derived.writes
  rw [hscans.words]
  exact parse_written hscans.plain hwrites

/-- A difference within a difference, and a backslash as a key. -/
def keyedDifference : Expr :=
  .arith .mul (.arith .sub (.name "a") (.arith .sub (.name "b") (.lit (.int 10))))
    (.get (.name "c") (.lit (.str "\\")))

/-- The difference on the right keeps its brackets, and so does the one under the product. -/
theorem parse_spelled_keyedDifference :
    Writable keyedDifference ∧
      parse "( a - ( b - 10 ) ) * c [ \"\\\\\" ]" = .ok keyedDifference := by
  have ha : IsVariable "a" :=
    ⟨.of_eq rfl rfl rfl, wordLiteral?_eq_none_iff.mp (by decide), by decide⟩
  have hb : IsVariable "b" :=
    ⟨.of_eq rfl rfl rfl, wordLiteral?_eq_none_iff.mp (by decide), by decide⟩
  have hc : IsVariable "c" :=
    ⟨.of_eq rfl rfl rfl, wordLiteral?_eq_none_iff.mp (by decide), by decide⟩
  have hten : Writable (.lit (.int 10)) := .lit fun x h => by cases h
  have hkey : Writable (.lit (.str "\\")) := .lit fun x h => by cases h
  have hwritable : Writable keyedDifference :=
    .arith (.arith (.name ha) (.arith (.name hb) hten)) (.get (.name hc) hkey)
  refine ⟨hwritable, (parse_spelled keyedDifference hwritable).2
    ["(", "a", "-", "(", "b", "-", "10", ")", ")", "*", "c", "[", "\"\\\\\"", "]"] ?_⟩
  exact .join .times (.join .minus (.name ha) (.join .minus (.name hb) (.int 10)))
    (.get (.name hc) (.text "\\" (.inr rfl)))

end Expr

end NodeFlow
