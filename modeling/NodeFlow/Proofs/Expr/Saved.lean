import NodeFlow.Expr.Eval
import NodeFlow.Proofs.Expr.Scan
/-!
# Saved numbers

A saved value is often text, so a whole number comes back as the decimal that it was shown as. It computes as the number
still: a decimal is read back as the number it writes, and the operators look at a text only through the number that it
writes, as long as a number stands beside it or numbers are all they take.

The awkward thing up front: two readers stand ready for a text, and its characters decide between them. The decimal of a
whole number has neither a point nor an exponent letter, so the reader for whole numbers always gets it and nothing is
rounded, whatever its length.

Main statement: `saved_numbers_compute`. Sums are not in it, since a sum with a text joins the texts.
-/

set_option autoImplicit false

namespace NodeFlow

/-! ## 1. Decimals -/

namespace Text

theorem isNumeralBlank_of_lt {c : Char} (hc : 32 < c.toNat) (hc' : c.toNat < 133) : isNumeralBlank c = false := by
  have hwide : ∀ b ∈ wideBlanks, 133 ≤ b := by decide
  have hnot : c.toNat ∉ wideBlanks := fun hmem => absurd (hwide _ hmem) (by omega)
  simp only [isNumeralBlank, Bool.or_eq_false_iff, Bool.and_eq_false_iff, decide_eq_false_iff_not]
  refine ⟨⟨.inr (by omega), by omega⟩, ?_⟩
  simpa using hnot

/-- A text without characters of a class is not cut. -/
theorem stripBy_of_forall {p : Char → Bool} {cs : List Char} (h : ∀ c ∈ cs, p c = false) : stripBy p cs = cs := by
  have hkeep : ∀ ds : List Char, (∀ c ∈ ds, p c = false) → ds.dropWhile p = ds := by
    intro ds hds
    cases ds with
    | nil => rfl
    | cons c ds => exact List.dropWhile_cons_of_neg (by simp [hds c List.mem_cons_self])
  rw [stripBy, hkeep cs h, hkeep cs.reverse fun c hc => h c (List.mem_reverse.1 hc), List.reverse_reverse]

end Text

namespace Numeral

theorem spanDigitsFrom_of_digits (after : Bool) {cs : List Char} (h : ∀ c ∈ cs, 48 ≤ c.toNat ∧ c.toNat < 58) :
    spanDigitsFrom after cs = (cs.map fun c => c.toNat - 48, []) := by
  induction cs generalizing after with
  | nil => rfl
  | cons c cs ih =>
    obtain ⟨hc, hcs⟩ := List.forall_mem_cons.1 h
    have hvalue : Text.digitValue? c = some (c.toNat - 48) := by
      rw [Text.digitValue?_of_lt (by omega), if_pos hc]
    rw [spanDigitsFrom, hvalue]
    simp only [ih true hcs, List.map_cons]

/-- No digit is a sign. -/
theorem spanSign_of_digits {cs : List Char} (h : ∀ c ∈ cs, 48 ≤ c.toNat ∧ c.toNat < 58) :
    spanSign cs = (false, cs) := by
  unfold spanSign
  split
  · exact absurd (h '-' List.mem_cons_self) (by decide)
  · exact absurd (h '+' List.mem_cons_self) (by decide)
  · rfl

/-- What has the sign and the digits of a number, and nothing else, is read as that number. -/
theorem readInt?_of_sign {negative : Bool} {cs : List Char} {k : Nat}
    (hsign : spanSign cs = (negative, (toString k).toList)) (hblank : ∀ c ∈ cs, Text.isNumeralBlank c = false) :
    readInt? cs = some (Binary64.signed negative k) := by
  have hdigits := spanDigitsFrom_of_digits false fun c => Token.toNat_of_mem_toString (n := k) (c := c)
  obtain ⟨d, ds, hd⟩ : ∃ d ds, ((toString k).toList.map fun c => c.toNat - 48) = d :: ds :=
    List.exists_cons_of_ne_nil (by simp [Nat.toString_eq_repr, Nat.toList_repr])
  rw [readInt?, Text.stripBy_of_forall hblank, hsign]
  simp only [spanDigits, hdigits, hd]
  rw [← hd, Token.natOfDigits_toString]

/-- The characters of a decimal are digits, behind a minus if the number is negative. -/
theorem toNat_of_mem_decimal {n : Int} {c : Char} (hc : c ∈ (toString n).toList) :
    c = '-' ∨ (48 ≤ c.toNat ∧ c.toNat < 58) := by
  cases n with
  | ofNat k => exact .inr (Token.toNat_of_mem_toString hc)
  | negSucc k =>
    have hsign : (toString (Int.negSucc k)).toList = '-' :: (toString (k + 1)).toList := String.toList_append
    rw [hsign, List.mem_cons] at hc
    exact hc.imp_right Token.toNat_of_mem_toString

/-- A decimal is read as the whole number it writes. -/
theorem readInt?_toString (n : Int) : readInt? (toString n).toList = some n := by
  have hblank : ∀ c ∈ (toString n).toList, Text.isNumeralBlank c = false := by
    intro c hc
    rcases toNat_of_mem_decimal hc with rfl | hrange
    · rfl
    · exact Text.isNumeralBlank_of_lt (by omega) (by omega)
  cases n with
  | ofNat k => exact readInt?_of_sign (spanSign_of_digits fun c => Token.toNat_of_mem_toString) hblank
  | negSucc k =>
    have hdecimal : (toString (Int.negSucc k)).toList = '-' :: (toString (k + 1)).toList := String.toList_append
    have hsign : spanSign (toString (Int.negSucc k)).toList = (true, (toString (k + 1)).toList) := by
      rw [hdecimal, spanSign]
    exact readInt?_of_sign hsign hblank

end Numeral

/-! ## 2. Saved numbers -/

namespace Value

/-- A value stands for a whole number: it is the number, or the text that the number is shown as. -/
inductive StandsFor (n : Int) : Value → Prop
  | number : StandsFor n (.int n)
  | shown : StandsFor n (.str (Value.int n).display)

theorem numberOfText?_display (n : Int) : numberOfText? (Value.int n).display = some (.int n) := by
  have hwhole : looksFractional (toString n).toList = false := by
    rw [looksFractional, List.any_eq_false]
    intro c hc
    rcases Numeral.toNat_of_mem_decimal hc with rfl | hrange
    · decide
    · simp only [Bool.or_eq_true, decide_eq_true_eq]
      rintro ((rfl | rfl) | rfl) <;> exact absurd hrange (by decide)
  rw [display, numberOfText?]
  simp only [hwhole, Bool.false_eq_true, if_false, Numeral.readInt?_toString, Option.map_some]

variable {n m : Int} {v w : Value}

/-- Where a number is asked for, either of them is the number. -/
theorem StandsFor.numeric (h : StandsFor n v) : v.numeric = .int n := by
  cases h with
  | number => rfl
  | shown => rw [Value.numeric, numberOfText?_display]; rfl

/-- Beside a number either of them is the number, on both sides. -/
theorem StandsFor.coerced (h : StandsFor n v) (m : Int) :
    Value.coerced v (.int m) = (.int n, .int m) ∧ Value.coerced (.int m) v = (.int m, .int n) := by
  have hnumeric := h.numeric
  cases h with
  | number => exact ⟨rfl, rfl⟩
  | shown => exact ⟨congrArg (·, Value.int m) hnumeric, congrArg (Value.int m, ·) hnumeric⟩

theorem StandsFor.toWhole (h : StandsFor n v) : v.toWhole = .ok (.int n) := by
  rw [Value.toWhole, h.numeric]

end Value

/-! ## 3. Operators -/

/-- Does the operator read a text beside a number as a number? -/
def CompareOp.coerces : CompareOp → Bool
  | .eq | .ne | .order _ => true
  | .same | .notSame | .isIn => false

namespace Expr

theorem compareValues_of_coerced {op : CompareOp} (hop : op.coerces = true) {a b c d : Value}
    (h : Value.coerced a b = Value.coerced c d) : compareValues op a b = compareValues op c d := by
  cases op with
  | same | notSame | isIn => cases hop
  | eq | ne | order _ => simp only [compareValues, h]

theorem arithValues_of_numeric {op : ArithOp} (hop : op ≠ .add) {a b c d : Value} (hleft : a.numeric = c.numeric)
    (hright : b.numeric = d.numeric) : arithValues op a b = arithValues op c d := by
  simp only [arithValues, decide_eq_false hop, Bool.false_and, Bool.false_eq_true, if_false, hleft, hright]

section

variable {n m : Int} {v w : Value}

theorem compareValues_standsFor {op : CompareOp} (hop : op.coerces = true) (h : Value.StandsFor n v) (m : Int) :
    compareValues op v (.int m) = compareValues op (.int n) (.int m) ∧
      compareValues op (.int m) v = compareValues op (.int m) (.int n) :=
  ⟨compareValues_of_coerced hop (h.coerced m).1, compareValues_of_coerced hop (h.coerced m).2⟩

theorem arithValues_standsFor {op : ArithOp} (hop : op ≠ .add) (hv : Value.StandsFor n v) (hw : Value.StandsFor m w) :
    arithValues op v w = arithValues op (.int n) (.int m) :=
  arithValues_of_numeric hop hv.numeric hw.numeric

theorem negValue_standsFor (h : Value.StandsFor n v) : negValue v = negValue (.int n) := by
  rw [negValue, negValue, h.numeric]
  rfl

end

/-- **A whole number that was saved as text computes as the number.** On either side of a comparison with a number, on
either side or both of an operation other than a sum, and under a minus, the text gives what the number gives, the same
fault included; and read as a whole number it is the number. -/
theorem saved_numbers_compute {names : Names} {n m : Int} {l r l' r' : Expr}
    (hl : l.eval names = .ok (.int n)) (hl' : l'.eval names = .ok (.str (Value.int n).display))
    (hr : r.eval names = .ok (.int m)) (hr' : r'.eval names = .ok (.str (Value.int m).display)) :
    (∀ op : CompareOp, op.coerces = true →
      (Expr.compare op l' r).eval names = (Expr.compare op l r).eval names ∧
      (Expr.compare op l r').eval names = (Expr.compare op l r).eval names) ∧
    (∀ op : ArithOp, op ≠ .add →
      (Expr.arith op l' r).eval names = (Expr.arith op l r).eval names ∧
      (Expr.arith op l r').eval names = (Expr.arith op l r).eval names ∧
      (Expr.arith op l' r').eval names = (Expr.arith op l r).eval names) ∧
    (Expr.neg l').eval names = (Expr.neg l).eval names ∧
    (Expr.call "int" [l']).eval names = .ok (.int n) := by
  refine ⟨fun op hop => ⟨?_, ?_⟩, fun op hop => ⟨?_, ?_, ?_⟩, ?_, ?_⟩
  · simp only [eval, hl, hl', hr, (compareValues_standsFor hop .shown m).1]
  · simp only [eval, hl, hr, hr', (compareValues_standsFor hop .shown n).2]
  · simp only [eval, hl, hl', hr, arithValues_standsFor hop .shown .number]
  · simp only [eval, hl, hr, hr', arithValues_standsFor hop .number .shown]
  · simp only [eval, hl, hl', hr, hr', arithValues_standsFor hop .shown .shown]
  · simp only [eval, hl, hl', negValue_standsFor .shown]
  · have hint : Function.ofName? "int" = some .whole := rfl
    simp only [eval, evalAll, hint, hl', Except.map, Function.apply, Value.StandsFor.shown.toWhole, refused]

/-- A negative number of 25 digits and a small one, and beside each of them the text that it is shown as. -/
theorem saved_numbers_compute_long :
    let names : Names := [("n", .int (-9007199254740993000000001)), ("m", .int 7)]
    let saved : String → Expr := fun n => .call "str" [.name n]
    (Expr.compare (.order .lt) (saved "n") (.name "m")).eval names = .ok (.bool true) ∧
    (Expr.arith .mod (saved "n") (saved "m")).eval names = .ok (.int 4) ∧
    (Expr.neg (saved "n")).eval names = .ok (.int 9007199254740993000000001) ∧
    (Expr.call "int" [saved "n"]).eval names = .ok (.int (-9007199254740993000000001)) := by
  intro names saved
  obtain ⟨hcompare, harith, hneg, hint⟩ := @saved_numbers_compute names (-9007199254740993000000001) 7 (.name "n")
    (.name "m") (saved "n") (saved "m") rfl rfl rfl rfl
  exact ⟨(hcompare (.order .lt) rfl).1.trans rfl, (harith .mod nofun).2.2.trans rfl, hneg.trans rfl, hint⟩

end Expr

end NodeFlow
