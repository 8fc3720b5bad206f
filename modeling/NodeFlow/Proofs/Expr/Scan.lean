import NodeFlow.Expr.Parse
import Mathlib.Data.List.TakeDrop
import Mathlib.Data.List.TakeWhile
import Mathlib.Tactic.SplitIfs
/-!
# Scanning what tokens are written as

Tokens that are written with a blank between any two are read back as they are.

The awkward thing up front: the scanner takes the longest token that it can, so what a token is
written as is read back only where the text ends behind it or a blank follows. A quoted text is the
one token that may hold blanks itself, and it is also the one that is not kept as it is meant: its
escapes are undone later, when the tree is built, so scanning and undoing them are two facts.
-/

set_option autoImplicit false

namespace NodeFlow

/-! ## 1. Characters -/

namespace Text

/-- Below the digits of other scripts, digits are the ten of ASCII. -/
theorem digitValue?_of_lt {c : Char} (hc : c.toNat < 1632) :
    digitValue? c = if 48 ≤ c.toNat ∧ c.toNat < 58 then some (c.toNat - 48) else none := by
  have hother : (digitZeros.tail.find? fun z => z ≤ c.toNat && c.toNat < z + 10) = none := by
    have hzeros : ∀ z ∈ digitZeros.tail, 1632 ≤ z := by decide
    refine List.find?_eq_none.mpr fun z hz => ?_
    have := hzeros z hz
    simp only [Bool.and_eq_true, decide_eq_true_eq, not_and]
    omega
  have hsplit : digitZeros = 48 :: digitZeros.tail := rfl
  rw [digitValue?, hsplit, List.find?_cons, ← Bool.decide_and]
  split_ifs with h
  · simp [h]
  · simp [h, hother]

theorem isDigit_of_lt {c : Char} (hc : c.toNat < 1632) :
    isDigit c = decide (48 ≤ c.toNat ∧ c.toNat < 58) := by
  rw [isDigit, digitValue?_of_lt hc]
  split_ifs with h <;> simp [h]

theorem isBlank_of_lt {c : Char} (hc : 32 < c.toNat) (hc' : c.toNat < 133) : isBlank c = false := by
  have hwide : ∀ b ∈ wideBlanks, 133 ≤ b := by decide
  have hnot : c.toNat ∉ wideBlanks := fun hmem => absurd (hwide _ hmem) (by omega)
  simp only [isBlank, Bool.or_eq_false_iff, Bool.and_eq_false_iff, decide_eq_false_iff_not]
  refine ⟨⟨.inr (by omega), .inr (by omega)⟩, ?_⟩
  simpa using hnot

end Text

namespace Token

/-- A character that may start a name is a letter, `_` or `$`. -/
theorem isNameStart_cases {c : Char} (hc : isNameStart c) :
    (65 ≤ c.toNat ∧ c.toNat ≤ 90) ∨ (97 ≤ c.toNat ∧ c.toNat ≤ 122) ∨ c.toNat = 95 ∨ c.toNat = 36 := by
  simp only [isNameStart, Bool.or_eq_true, Bool.and_eq_true, decide_eq_true_eq] at hc
  rcases hc with ((hc | hc) | rfl) | rfl
  · exact .inl hc
  · exact .inr (.inl hc)
  · exact .inr (.inr (.inl rfl))
  · exact .inr (.inr (.inr rfl))

/-! ## 2. What a token ends before -/

/-- The text ends, or a blank follows. -/
def Apart (rest : List Char) : Prop := ∀ c more, rest = c :: more → c = ' '

theorem apart_nil : Apart [] := fun _ _ h => by cases h

theorem apart_blank (rest : List Char) : Apart (' ' :: rest) := fun _ _ h => (List.cons.inj h).1.symm

theorem Apart.cases {rest : List Char} (h : Apart rest) : rest = [] ∨ ∃ more, rest = ' ' :: more := by
  cases rest with
  | nil => exact .inl rfl
  | cons c more =>
    obtain rfl := h c more rfl
    exact .inr ⟨more, rfl⟩

/-- The text ends, or goes on with a character that is not of the class. -/
def Stops (p : Char → Bool) (rest : List Char) : Prop := ∀ c more, rest = c :: more → p c = false

/-- Characters of a class are spanned up to where the text stops being of it. -/
theorem Stops.span_eq {p : Char → Bool} {cs rest : List Char} (hrest : Stops p rest) (hcs : ∀ c ∈ cs, p c) :
    (cs ++ rest).span p = (cs, rest) := by
  have hends : rest.takeWhile p = [] ∧ rest.dropWhile p = rest := by
    cases rest with
    | nil => exact ⟨rfl, rfl⟩
    | cons c more =>
      rw [List.takeWhile_cons, List.dropWhile_cons, hrest c more rfl]
      exact ⟨rfl, rfl⟩
  rw [List.span_eq_takeWhile_dropWhile, List.takeWhile_append_of_pos hcs,
    List.dropWhile_append_of_pos hcs, hends.1, hends.2, List.append_nil]

/-- A class that has no blank stops where the token ends. -/
theorem Apart.stops {p : Char → Bool} (hp : p ' ' = false) {rest : List Char} (h : Apart rest) : Stops p rest := by
  intro c more heq
  rw [h c more heq, hp]

/-! ## 3. The kinds of tokens -/

/-- A name as the grammar of tokens has it. -/
def IsIdentifier (n : String) : Prop :=
  ∃ c cs, n.toList = c :: cs ∧ isNameStart c ∧ ∀ d ∈ cs, isNameRest d

theorem IsIdentifier.of_eq {n : String} {c : Char} {cs : List Char} (hn : n.toList = c :: cs)
    (hc : isNameStart c) (hcs : cs.all isNameRest) : IsIdentifier n :=
  ⟨c, cs, hn, hc, List.all_eq_true.mp hcs⟩

/-- A text with its quotes and backslashes escaped, and nothing else. -/
def escape (quote : Char) : List Char → List Char
  | [] => []
  | c :: cs =>
    if c = quote ∨ c = '\\' then '\\' :: c :: escape quote cs else c :: escape quote cs

/-- One of the two quotes. -/
def IsQuote (c : Char) : Prop := c = '\'' ∨ c = '"'

/-- The tokens that something is written with: numbers in plain decimals, texts with no more escapes
than they need, symbols, and names that are not words of operators. -/
inductive Plain : Token → Prop
  | number (n : Nat) : Plain (.number (toString n) none)
  | quoted {quote : Char} (s : String) : IsQuote quote →
      Plain (.quoted quote (String.ofList (escape quote s.toList)))
  | symbol (s : Symbol) : Plain (.symbol s)
  | name {n : String} : IsIdentifier n → ofWord n = .name n → Plain (.name n)

theorem readBody?_escape {quote : Char} (hquote : IsQuote quote) (cs rest : List Char) :
    readBody? quote (escape quote cs ++ quote :: rest) = some (escape quote cs, rest) := by
  induction cs with
  | nil =>
    rw [escape, List.nil_append, readBody?.eq_def]
    exact if_pos rfl
  | cons c cs ih =>
    have hback : '\\' ≠ quote := by rcases hquote with rfl | rfl <;> decide
    rw [escape]
    split_ifs with hc
    · have hline : c ≠ '\n' := by
        rcases hc with rfl | rfl
        · rcases hquote with rfl | rfl <;> decide
        · decide
      rw [List.cons_append, List.cons_append, readBody?.eq_def]
      simp only [if_neg hback, if_true, if_neg hline, ih]
      rfl
    · obtain ⟨hne, hne'⟩ := not_or.mp hc
      rw [List.cons_append, readBody?.eq_def]
      simp only [if_neg hne, if_neg hne', ih]
      rfl

theorem unescape_escape {quote : Char} (hquote : IsQuote quote) (cs : List Char) :
    Expr.unescape (escape quote cs) = cs := by
  induction cs with
  | nil => rfl
  | cons c cs ih =>
    rw [escape]
    split_ifs with hc
    · have hplain : c ≠ '\n' ∧ c ≠ 'n' ∧ c ≠ 't' := by
        rcases hc with rfl | rfl
        · rcases hquote with rfl | rfl <;> decide
        · decide
      rw [Expr.unescape.eq_def]
      simp only [if_true, if_neg hplain.1, if_neg hplain.2.1, if_neg hplain.2.2, ih]
    · have hne : c ≠ '\\' := fun h => hc (.inr h)
      rw [Expr.unescape.eq_def]
      simp only [if_neg hne, ih]

theorem toNat_of_mem_toString {n : Nat} {c : Char} (hc : c ∈ (toString n).toList) :
    48 ≤ c.toNat ∧ c.toNat < 58 := by
  rw [Nat.toString_eq_repr, Nat.toList_repr] at hc
  have hdigit := Nat.isDigit_of_mem_toDigits (by decide) (by decide) hc
  have hrange := Char.isDigit_iff_toNat.mp hdigit
  exact ⟨hrange.1, Nat.lt_succ_of_le hrange.2⟩

/-- The digits of a decimal make up the number it writes. -/
theorem natOfDigits_toString (n : Nat) : Text.natOfDigits ((toString n).toList.map fun c => c.toNat - 48) = n := by
  rw [Text.natOfDigits, List.foldl_map, Nat.toString_eq_repr, Nat.toList_repr]
  exact Nat.ofDigitChars_ten_toDigits

/-- Decimals are read as the number they write. -/
theorem natOfText_toString (n : Nat) : Expr.natOfText (toString n) = n := by
  have hvalues : ∀ cs : List Char, (∀ c ∈ cs, 48 ≤ c.toNat ∧ c.toNat < 58) →
      cs.filterMap Text.digitValue? = cs.map fun c => c.toNat - 48 := by
    intro cs hcs
    induction cs with
    | nil => rfl
    | cons c cs ih =>
      obtain ⟨hc, hcs⟩ := List.forall_mem_cons.mp hcs
      have hvalue : Text.digitValue? c = some (c.toNat - 48) := by
        rw [Text.digitValue?_of_lt (by omega), if_pos hc]
      rw [List.filterMap_cons_some hvalue, ih hcs, List.map_cons]
  rw [Expr.natOfText, hvalues _ fun c => toNat_of_mem_toString, natOfDigits_toString]

theorem readFront?_number (n : Nat) {rest : List Char} (hrest : Apart rest) :
    readFront? ((toString n).toList ++ rest) = some (.number (toString n) none, rest) := by
  have hdigits : ∀ c ∈ (toString n).toList, Text.isDigit c := by
    intro c hc
    have hrange := toNat_of_mem_toString hc
    rw [Text.isDigit_of_lt (by omega)]
    exact decide_eq_true hrange
  have hspan : ((toString n).toList ++ rest).span Text.isDigit = ((toString n).toList, rest) :=
    (hrest.stops (by decide)).span_eq hdigits
  have hread : readNumber (toString n).toList rest = (.number (toString n) none, rest) := by
    obtain rfl | ⟨more, rfl⟩ := hrest.cases <;> rw [readNumber, String.ofList_toList]
    all_goals simp
  obtain ⟨c, cs, hcs⟩ : ∃ c cs, (toString n).toList = c :: cs :=
    List.exists_cons_of_ne_nil (by simp)
  rw [hcs] at hspan hdigits hread ⊢
  have hc : Text.isDigit c = true := hdigits c List.mem_cons_self
  rw [List.cons_append] at hspan ⊢
  simp only [readFront?, hc, if_true, hspan, hread]

theorem readFront?_quoted {quote : Char} (hquote : IsQuote quote) (cs rest : List Char) :
    readFront? (quote :: (escape quote cs ++ quote :: rest)) =
      some (.quoted quote (String.ofList (escape quote cs)), rest) := by
  have hdigit : ¬ Text.isDigit quote = true := by rcases hquote with rfl | rfl <;> decide
  have hquote' : (decide (quote = '\'') || decide (quote = '"')) = true := by
    simpa [IsQuote] using hquote
  simp only [readFront?, if_neg hdigit, hquote', if_true, readBody?_escape hquote]
  rfl

theorem readFront?_word {w : String} (hw : IsIdentifier w) {rest : List Char} (hrest : Stops isNameRest rest) :
    readFront? (w.toList ++ rest) = some (ofWord w, rest) := by
  obtain ⟨c, cs, hcs, hc, hrestOf⟩ := hw
  have hcases := isNameStart_cases hc
  have hdigit : ¬ Text.isDigit c = true := by
    rw [Text.isDigit_of_lt (by omega), decide_eq_true_eq]
    omega
  have hquote : ¬ (decide (c = '\'') || decide (c = '"')) = true := by
    simp only [Bool.or_eq_true, decide_eq_true_eq]
    rintro (rfl | rfl) <;> exact absurd hc (by decide)
  have hall : ∀ d ∈ w.toList, isNameRest d := by
    rw [hcs]
    refine List.forall_mem_cons.mpr ⟨?_, hrestOf⟩
    rw [isNameRest, hc, Bool.true_or]
  have hspan := hrest.span_eq hall
  have hword : String.ofList (c :: cs) = w := by rw [← hcs, String.ofList_toList]
  rw [hcs, List.cons_append] at hspan ⊢
  simp only [readFront?, if_neg hdigit, if_neg hquote, hc, if_true, hspan, hword]

theorem isIdentifier_word {s : Symbol} (hs : s.isWord) : IsIdentifier s.text := by
  cases s <;> first | exact absurd hs (by decide) | exact .of_eq rfl rfl rfl

theorem readFront?_symbol (s : Symbol) {rest : List Char} (hrest : Apart rest) :
    readFront? (s.text.toList ++ rest) = some (.symbol s, rest) := by
  by_cases hs : s.isWord
  · have hword : ofWord s.text = .symbol s := by
      cases s <;> first | exact absurd hs (by decide) | rfl
    rw [readFront?_word (isIdentifier_word hs) (hrest.stops (by decide)), hword]
  · obtain rfl | ⟨more, rfl⟩ := hrest.cases
    all_goals cases s <;> first | exact absurd rfl hs | rfl

/-- A plain token is read back where it ends. -/
theorem Plain.readFront? {t : Token} (ht : Plain t) {rest : List Char} (hrest : Apart rest) :
    readFront? (t.text.toList ++ rest) = some (t, rest) := by
  cases ht with
  | number n => exact readFront?_number n hrest
  | @quoted quote s hquote =>
    have htext : (text (.quoted quote (String.ofList (escape quote s.toList)))).toList ++ rest =
        quote :: (escape quote s.toList ++ quote :: rest) := by
      simp [text]
    rw [htext]
    exact readFront?_quoted hquote s.toList rest
  | symbol s => exact readFront?_symbol s hrest
  | @name n hn hword => exact (readFront?_word hn (hrest.stops (by decide))).trans (by rw [hword])

/-! ## 4. Whole texts -/

/-- What follows the first of several tokens: each behind a blank. -/
def spaced (ts : List Token) : List Char :=
  ts.flatMap fun t => ' ' :: t.text.toList

theorem apart_spaced (ts : List Token) : Apart (spaced ts) := by
  cases ts with
  | nil => exact apart_nil
  | cons t ts => exact apart_blank _

/-- The characters at both ends of a text are no blanks. -/
def Edged (cs : List Char) : Prop :=
  (∃ c more, cs = c :: more ∧ Text.isBlank c = false) ∧
    ∃ before c, cs = before ++ [c] ∧ Text.isBlank c = false

theorem Edged.of_forall {cs : List Char} (hne : cs ≠ []) (hcs : ∀ c ∈ cs, Text.isBlank c = false) :
    Edged cs := by
  constructor
  · obtain ⟨c, more, rfl⟩ := List.exists_cons_of_ne_nil hne
    exact ⟨c, more, rfl, hcs c List.mem_cons_self⟩
  · refine ⟨cs.dropLast, cs.getLast hne, (List.dropLast_concat_getLast hne).symm, ?_⟩
    exact hcs _ (List.getLast_mem hne)

theorem Plain.edged {t : Token} (ht : Plain t) : Edged t.text.toList := by
  cases ht with
  | number n =>
    refine .of_forall (by simp [text]) fun c hc => ?_
    have hrange := toNat_of_mem_toString hc
    exact Text.isBlank_of_lt (by omega) (by omega)
  | @quoted quote s hquote =>
    have hblank : Text.isBlank quote = false := by rcases hquote with rfl | rfl <;> decide
    refine ⟨⟨quote, escape quote s.toList ++ [quote], by simp [text], hblank⟩, ?_⟩
    exact ⟨quote :: escape quote s.toList, quote, by simp [text], hblank⟩
  | symbol s =>
    have hall : s.text.toList.all (fun c => !Text.isBlank c) = true := by cases s <;> rfl
    refine .of_forall (by cases s <;> decide) fun c hc => ?_
    simpa using List.all_eq_true.mp hall c hc
  | @name n hn _ =>
    obtain ⟨c, cs, hcs, hc, hrest⟩ := hn
    refine .of_forall (by simp [text, hcs]) fun d hd => ?_
    have hd' : isNameStart d ∨ 48 ≤ d.toNat ∧ d.toNat ≤ 57 := by
      rw [text, hcs] at hd
      rcases List.mem_cons.mp hd with rfl | hd
      · exact .inl hc
      · have hrest' := hrest d hd
        simp only [isNameRest, Bool.or_eq_true, Bool.and_eq_true, decide_eq_true_eq] at hrest'
        exact hrest'
    rcases hd' with hd' | hd'
    · have hcases := isNameStart_cases hd'
      exact Text.isBlank_of_lt (by omega) (by omega)
    · exact Text.isBlank_of_lt (by omega) (by omega)

theorem Edged.dropWhile_append {cs : List Char} (h : Edged cs) (rest : List Char) :
    (cs ++ rest).dropWhile Text.isBlank = cs ++ rest := by
  obtain ⟨⟨c, more, rfl, hc⟩, -⟩ := h
  rw [List.cons_append, List.dropWhile_cons, hc]
  rfl

/-- Blanks apart, a plain token is at the front. -/
theorem Plain.readFrom {t : Token} (ht : Plain t) (total fuel : Nat) {c : Char} {cs rest : List Char}
    (hcs : (c :: cs).dropWhile Text.isBlank = t.text.toList ++ rest) (hrest : Apart rest) :
    readFrom total (fuel + 1) (c :: cs) = (readFrom total fuel rest).map (t :: ·) := by
  rw [Token.readFrom, hcs, ht.readFront? hrest]

theorem readFrom_spaced (total : Nat) {fuel : Nat} {ts : List Token} (hts : ∀ t ∈ ts, Plain t)
    (hfuel : (spaced ts).length ≤ fuel) : readFrom total fuel (spaced ts) = .ok (ts ++ [.ended]) := by
  induction ts generalizing fuel with
  | nil => cases fuel <;> rfl
  | cons t ts ih =>
    obtain ⟨ht, hts⟩ := List.forall_mem_cons.mp hts
    have hsplit : spaced (t :: ts) = ' ' :: (t.text.toList ++ spaced ts) := rfl
    rw [hsplit] at hfuel ⊢
    simp only [List.length_cons, List.length_append] at hfuel
    obtain ⟨fuel, rfl⟩ : ∃ fuel', fuel = fuel' + 1 := ⟨fuel - 1, by omega⟩
    have hdrop : (' ' :: (t.text.toList ++ spaced ts)).dropWhile Text.isBlank =
        t.text.toList ++ spaced ts := by
      rw [List.dropWhile_cons, if_pos (by decide), ht.edged.dropWhile_append]
    rw [ht.readFrom total fuel hdrop (apart_spaced ts), ih hts (by omega)]
    rfl

/-- A text of plain tokens with a blank between any two has no blanks at its ends. -/
theorem edged_append_spaced {t : Token} {ts : List Token} (ht : Plain t) (hts : ∀ u ∈ ts, Plain u) :
    Edged (t.text.toList ++ spaced ts) := by
  obtain ⟨⟨c, more, hc, hblank⟩, -⟩ := ht.edged
  refine ⟨⟨c, more ++ spaced ts, by rw [hc, List.cons_append], hblank⟩, ?_⟩
  rcases List.eq_nil_or_concat ts with rfl | ⟨us, u, rfl⟩
  · rw [spaced, List.flatMap_nil, List.append_nil]
    exact ht.edged.2
  · obtain ⟨-, before, d, hd, hblank'⟩ := (hts u (by simp)).edged
    refine ⟨t.text.toList ++ spaced us ++ ' ' :: before, d, ?_, hblank'⟩
    simp [spaced, hd]

theorem strip_of_edged {cs : List Char} (h : Edged cs) : Text.strip cs = cs := by
  have hdrop := h.dropWhile_append []
  rw [List.append_nil] at hdrop
  obtain ⟨-, before, c, rfl, hc⟩ := h
  rw [Text.strip, Text.stripBy, hdrop, List.reverse_append, List.reverse_singleton,
    List.singleton_append, List.dropWhile_cons, hc]
  simp

/-- The text of several tokens: a blank between any two. -/
def written (ts : List Token) : String :=
  " ".intercalate (ts.map text)

theorem toList_written (t : Token) (ts : List Token) :
    (written (t :: ts)).toList = t.text.toList ++ spaced ts := by
  induction ts generalizing t with
  | nil => simp [written, spaced]
  | cons u us ih =>
    have hstep : written (t :: u :: us) = t.text ++ " " ++ written (u :: us) :=
      String.intercalate_cons_cons
    rw [hstep, String.toList_append, String.toList_append, ih u]
    simp [spaced]

/-- **Scanning what tokens are written as.** -/
theorem readAll_written {ts : List Token} (hts : ∀ t ∈ ts, Plain t) (hne : ts ≠ []) :
    Edged (written ts).toList ∧ readAll (written ts).toList = .ok (ts ++ [.ended]) := by
  obtain ⟨t, ts, rfl⟩ := List.exists_cons_of_ne_nil hne
  obtain ⟨ht, hts⟩ := List.forall_mem_cons.mp hts
  have hedged := edged_append_spaced ht hts
  rw [toList_written]
  refine ⟨hedged, ?_⟩
  obtain ⟨⟨c, cs, hcs, -⟩, -⟩ := id hedged
  have hdrop : (c :: cs).dropWhile Text.isBlank = t.text.toList ++ spaced ts := by
    rw [← hcs, ht.edged.dropWhile_append]
  have hlength : (spaced ts).length ≤ cs.length := by
    obtain ⟨⟨d, ds, hd, -⟩, -⟩ := ht.edged
    rw [hd, List.cons_append] at hcs
    rw [← (List.cons.inj hcs).2, List.length_append]
    omega
  rw [hcs, readAll, List.length_cons, ht.readFrom _ _ hdrop (apart_spaced ts),
    readFrom_spaced _ hts hlength]
  rfl

end Token

end NodeFlow
