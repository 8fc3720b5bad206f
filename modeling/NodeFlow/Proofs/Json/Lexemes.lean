import NodeFlow.Json.Read
import Mathlib.Data.List.TakeDrop
import Mathlib.Data.List.TakeWhile
/-!
# Strings and numbers in JSON

How strings and numbers are written, as a grammar says it: without a reader and without a bound on the length. The
reader finds a string or a number in front exactly if one that is so written stands there. Behind a number it matters
what follows, for the reader takes as much for a number as it can.

An escape that is the first half of a pair is a character of its own only if the second half does not follow.
-/

set_option autoImplicit false

namespace NodeFlow.Json

/-! ## 1. Strings -/

/-- Four hexadecimal digits write a unit of 16 bits. -/
def Unit16 (ds : List Char) (n : Nat) : Prop :=
  ∃ a b c d, ds.map hexValue? = [some a, some b, some c, some d] ∧ n = ((a * 16 + b) * 16 + c) * 16 + d

/-- A unit that is the first half of a pair. -/
def IsHigh (n : Nat) : Prop := 0xD800 ≤ n ∧ n < 0xDC00

/-- A unit that is the second half of a pair. -/
def IsLow (n : Nat) : Prop := 0xDC00 ≤ n ∧ n < 0xE000

/-- The character that two units of a pair are together. -/
def pairOf (high low : Nat) : Char :=
  Char.ofNat (0x10000 + (high - 0xD800) * 0x400 + (low - 0xDC00))

/-- Between quotes, these characters write that text. -/
inductive Spells : List Char → List Char → Prop
  | nil : Spells [] []
  | plain {c : Char} {cs t : List Char} : c ≠ '"' → c ≠ '\\' → 32 ≤ c.toNat → Spells cs t → Spells (c :: cs) (c :: t)
  | short {e ch : Char} {cs t : List Char} : shortEscape? e = some ch → Spells cs t →
    Spells ('\\' :: e :: cs) (ch :: t)
  | point {ds cs t : List Char} {n : Nat} : Unit16 ds n → ¬ IsHigh n → Spells cs t →
    Spells ('\\' :: 'u' :: (ds ++ cs)) (Char.ofNat n :: t)
  | pair {ds es cs t : List Char} {high low : Nat} : Unit16 ds high → IsHigh high → Unit16 es low → IsLow low →
    Spells cs t →
    Spells ('\\' :: 'u' :: (ds ++ '\\' :: 'u' :: (es ++ cs)))
      (pairOf high low :: t)
  | lone {ds cs t : List Char} {high : Nat} : Unit16 ds high → IsHigh high →
    (∀ es more low, cs = '\\' :: 'u' :: (es ++ more) → Unit16 es low → ¬ IsLow low) → Spells cs t →
    Spells ('\\' :: 'u' :: (ds ++ cs)) (Char.ofNat high :: t)

theorem readUnit?_of_unit16 {ds : List Char} {n : Nat} (h : Unit16 ds n) (rest : List Char) :
    readUnit? (ds ++ rest) = some (n, rest) := by
  obtain ⟨a, b, c, d, hds, rfl⟩ := h
  simp only [List.map_eq_cons_iff, List.map_eq_nil_iff] at hds
  obtain ⟨x, _, rfl, hx, y, _, rfl, hy, z, _, rfl, hz, t, _, rfl, ht, rfl⟩ := hds
  simp only [List.cons_append, List.nil_append, readUnit?, hx, hy, hz, ht]

theorem exists_unit16 {cs rest : List Char} {n : Nat} (h : readUnit? cs = some (n, rest)) :
    ∃ ds, cs = ds ++ rest ∧ Unit16 ds n := by
  rw [readUnit?.eq_def] at h
  split at h
  next x y z t after =>
    split at h
    next a b c d hx hy hz ht =>
      obtain ⟨rfl, rfl⟩ := Prod.mk.inj (Option.some.inj h)
      exact ⟨[x, y, z, t], rfl, a, b, c, d, by simp only [List.map, hx, hy, hz, ht], rfl⟩
    · cases h
  · cases h

/-- An escape by a unit, in front of a text that goes on as it does. -/
theorem readCodePoint?_of_not_high {ds : List Char} {n : Nat} (h : Unit16 ds n) (hn : ¬ IsHigh n) (rest : List Char) :
    readCodePoint? (ds ++ rest) = some (Char.ofNat n, rest) := by
  have hhigh : (decide (0xD800 ≤ n) && decide (n < 0xDC00)) = false := by simpa [IsHigh] using hn
  simp only [readCodePoint?, readUnit?_of_unit16 h, hhigh, Bool.false_eq_true, if_false]

theorem isHigh_eq {n : Nat} (hn : IsHigh n) : (decide (0xD800 ≤ n) && decide (n < 0xDC00)) = true := by
  simpa [IsHigh] using hn

theorem readCodePoint?_of_pair {ds es : List Char} {high low : Nat} (hds : Unit16 ds high) (hhigh : IsHigh high)
    (hes : Unit16 es low) (hlow : IsLow low) (rest : List Char) :
    readCodePoint? (ds ++ '\\' :: 'u' :: (es ++ rest)) =
      some (pairOf high low, rest) := by
  have hlow' : (decide (0xDC00 ≤ low) && decide (low < 0xE000)) = true := by simpa [IsLow] using hlow
  simp only [readCodePoint?, readUnit?_of_unit16 hds, readUnit?_of_unit16 hes, isHigh_eq hhigh, hlow', if_true,
    pairOf]

theorem readCodePoint?_of_lone {ds : List Char} {high : Nat} (hds : Unit16 ds high) (hhigh : IsHigh high)
    {rest : List Char}
    (hrest : ∀ es more low, rest = '\\' :: 'u' :: (es ++ more) → Unit16 es low → ¬ IsLow low) :
    readCodePoint? (ds ++ rest) = some (Char.ofNat high, rest) := by
  simp only [readCodePoint?, readUnit?_of_unit16 hds, isHigh_eq hhigh, if_true]
  split
  next more =>
    split
    next low after hunit =>
      obtain ⟨es, rfl, hes⟩ := exists_unit16 hunit
      have hlow : (decide (0xDC00 ≤ low) && decide (low < 0xE000)) = false := by
        simpa [IsLow] using hrest es after low rfl hes
      simp only [hlow, Bool.false_eq_true, if_false]
    · rfl
  · rfl

/-- Behind what is spelt and a quote, a pair does not begin that has not begun within. -/
theorem Spells.not_low {cs t : List Char} (h : Spells cs t)
    (hcs : ∀ es more low, cs = '\\' :: 'u' :: (es ++ more) → Unit16 es low → ¬ IsLow low) (rest : List Char) :
    ∀ es more low, cs ++ '"' :: rest = '\\' :: 'u' :: (es ++ more) → Unit16 es low → ¬ IsLow low := by
  have hunit : ∀ (tail : List Char) {ds es more : List Char} {n low : Nat}, Unit16 ds n → ds ++ tail = es ++ more →
      Unit16 es low → low = n := by
    intro tail ds es more n low hds heq hes
    have hread := readUnit?_of_unit16 hds tail
    rw [heq, readUnit?_of_unit16 hes] at hread
    exact (Prod.mk.inj (Option.some.inj hread)).1
  intro es more low heq hes
  cases h with
  | nil => exact absurd (List.cons.inj heq).1 (by decide)
  | plain _ hback => exact absurd (List.cons.inj heq).1 hback
  | short hshort =>
    have hu := (List.cons.inj (List.cons.inj heq).2).1
    rw [hu] at hshort
    cases hshort
  | @point ds cs t n hds _ _ =>
    obtain rfl := hunit (cs ++ '"' :: rest) hds (by simpa using heq) hes
    exact hcs ds cs low rfl hds
  | @pair ds es' cs t high low' hds _ _ _ _ =>
    obtain rfl := hunit ('\\' :: 'u' :: (es' ++ cs) ++ '"' :: rest) hds (by simpa using heq) hes
    exact hcs ds _ low rfl hds
  | @lone ds cs t high hds _ _ _ =>
    obtain rfl := hunit (cs ++ '"' :: rest) hds (by simpa using heq) hes
    exact hcs ds cs low rfl hds

/-- Behind a backslash an escape is read. -/
theorem readText?_escape (fuel : Nat) (e : Char) (more : List Char) :
    readText? (fuel + 1) ('\\' :: e :: more) =
      if e = 'u' then
        (readCodePoint? more).bind fun p => (readText? fuel p.2).map fun r => (p.1 :: r.1, r.2)
      else
        (shortEscape? e).bind fun ch => (readText? fuel more).map fun r => (ch :: r.1, r.2) := by
  rw [readText?.eq_def]
  simp only [show ('\\' = '"') = False by decide, if_false, if_true]

/-- What is spelt is read up to the quote behind it. -/
theorem Spells.readText? {cs t : List Char} (h : Spells cs t) (rest : List Char) {fuel : Nat}
    (hfuel : cs.length < fuel) : readText? fuel (cs ++ '"' :: rest) = some (t, rest) := by
  induction h generalizing fuel with
  | nil =>
    obtain ⟨fuel, rfl⟩ := Nat.exists_eq_add_one_of_ne_zero (Nat.ne_zero_of_lt hfuel)
    rfl
  | plain hquote hback hcontrol _ ih =>
    obtain ⟨fuel, rfl⟩ := Nat.exists_eq_add_one_of_ne_zero (Nat.ne_zero_of_lt hfuel)
    have hread := ih (Nat.lt_of_succ_lt_succ hfuel)
    rw [List.cons_append, Json.readText?.eq_def]
    simp only [hquote, hback, Nat.not_lt.2 hcontrol, if_false, hread, Option.map_some]
  | @short e ch cs t hshort _ ih =>
    obtain ⟨fuel, rfl⟩ := Nat.exists_eq_add_one_of_ne_zero (Nat.ne_zero_of_lt hfuel)
    have hu : e ≠ 'u' := by
      rintro rfl
      cases hshort
    rw [List.length_cons, List.length_cons] at hfuel
    have hread : Json.readText? fuel (cs ++ '"' :: rest) = some (t, rest) := ih (by omega)
    rw [List.cons_append, List.cons_append, readText?_escape, if_neg hu, hshort, Option.bind_some, hread]
    rfl
  | @point ds cs t n hds hn _ ih =>
    obtain ⟨fuel, rfl⟩ := Nat.exists_eq_add_one_of_ne_zero (Nat.ne_zero_of_lt hfuel)
    rw [List.length_cons, List.length_cons, List.length_append] at hfuel
    have hread : Json.readText? fuel (cs ++ '"' :: rest) = some (t, rest) := ih (by omega)
    rw [List.cons_append, List.cons_append, List.append_assoc, readText?_escape, if_pos rfl,
      readCodePoint?_of_not_high hds hn, Option.bind_some, hread]
    rfl
  | @pair ds es cs t high low hds hhigh hes hlow _ ih =>
    obtain ⟨fuel, rfl⟩ := Nat.exists_eq_add_one_of_ne_zero (Nat.ne_zero_of_lt hfuel)
    simp only [List.length_cons, List.length_append] at hfuel
    have hread : Json.readText? fuel (cs ++ '"' :: rest) = some (t, rest) := ih (by omega)
    have hpoint := readCodePoint?_of_pair hds hhigh hes hlow (cs ++ '"' :: rest)
    simp only [List.cons_append, List.append_assoc] at hpoint ⊢
    rw [readText?_escape, if_pos rfl, hpoint, Option.bind_some, hread, Option.map_some]
  | @lone ds cs t high hds hhigh hcs hspells ih =>
    obtain ⟨fuel, rfl⟩ := Nat.exists_eq_add_one_of_ne_zero (Nat.ne_zero_of_lt hfuel)
    simp only [List.length_cons, List.length_append] at hfuel
    have hread : Json.readText? fuel (cs ++ '"' :: rest) = some (t, rest) := ih (by omega)
    have hpoint := readCodePoint?_of_lone hds hhigh (hspells.not_low hcs rest)
    rw [List.cons_append, List.cons_append, List.append_assoc, readText?_escape, if_pos rfl, hpoint,
      Option.bind_some, hread]
    rfl

/-- What an escape by units is read from: a unit of its own, a pair, or a first half that stays alone. -/
theorem escape_of_readCodePoint? {cs after : List Char} {ch : Char} (h : readCodePoint? cs = some (ch, after)) :
    ∃ ds n, Unit16 ds n ∧
      ((¬ IsHigh n ∧ cs = ds ++ after ∧ ch = Char.ofNat n) ∨
       (IsHigh n ∧ ∃ es low, Unit16 es low ∧ IsLow low ∧ cs = ds ++ '\\' :: 'u' :: (es ++ after) ∧
         pairOf n low = ch) ∨
       (IsHigh n ∧ cs = ds ++ after ∧ ch = Char.ofNat n ∧
         ∀ es more low, after = '\\' :: 'u' :: (es ++ more) → Unit16 es low → ¬ IsLow low)) := by
  cases hunit : readUnit? cs with
  | none =>
    rw [readCodePoint?, hunit] at h
    cases h
  | some r =>
    obtain ⟨n, rest⟩ := r
    obtain ⟨ds, rfl, hds⟩ := exists_unit16 hunit
    refine ⟨ds, n, hds, ?_⟩
    by_cases hhigh : IsHigh n
    · right
      by_cases hpair : ∃ es more low, rest = '\\' :: 'u' :: (es ++ more) ∧ Unit16 es low ∧ IsLow low
      · obtain ⟨es, more, low, rfl, hes, hlow⟩ := hpair
        rw [readCodePoint?_of_pair hds hhigh hes hlow] at h
        obtain ⟨rfl, rfl⟩ := Prod.mk.inj (Option.some.inj h)
        exact .inl ⟨hhigh, es, low, hes, hlow, rfl, rfl⟩
      · have hlone : ∀ es more low, rest = '\\' :: 'u' :: (es ++ more) → Unit16 es low → ¬ IsLow low :=
          fun es more low heq hes hlow => hpair ⟨es, more, low, heq, hes, hlow⟩
        rw [readCodePoint?_of_lone hds hhigh hlone] at h
        obtain ⟨rfl, rfl⟩ := Prod.mk.inj (Option.some.inj h)
        exact .inr ⟨hhigh, rfl, rfl, hlone⟩
    · left
      rw [readCodePoint?_of_not_high hds hhigh] at h
      obtain ⟨rfl, rfl⟩ := Prod.mk.inj (Option.some.inj h)
      exact ⟨hhigh, rfl, rfl⟩

/-- What is read up to a quote is spelt in front of it. -/
theorem spells_of_readText? {fuel : Nat} {cs t rest : List Char} (h : readText? fuel cs = some (t, rest)) :
    ∃ src, cs = src ++ '"' :: rest ∧ Spells src t := by
  induction fuel generalizing cs t with
  | zero => rw [readText?] at h; cases h
  | succ fuel ih =>
    -- one character is read, and the rest by the hypothesis
    have hstep : ∀ {after : List Char} {ch : Char}, ((readText? fuel after).map fun r => (ch :: r.1, r.2)) = some (t, rest) →
        ∃ src t', after = src ++ '"' :: rest ∧ Spells src t' ∧ t = ch :: t' := by
      intro after ch hmap
      obtain ⟨⟨t', rest'⟩, hread, heq⟩ := Option.map_eq_some_iff.1 hmap
      obtain ⟨rfl, rfl⟩ := Prod.mk.inj heq
      obtain ⟨src, hsrc, hspells⟩ := ih hread
      exact ⟨src, t', hsrc, hspells, rfl⟩
    match cs with
    | [] => rw [readText?] at h; cases h
    | c :: cs =>
      by_cases hquote : c = '"'
      · subst hquote
        rw [readText?.eq_def] at h
        obtain ⟨rfl, rfl⟩ := Prod.mk.inj (Option.some.inj h)
        exact ⟨[], rfl, .nil⟩
      by_cases hback : c = '\\'
      · subst hback
        match cs with
        | [] => rw [readText?.eq_def] at h; cases h
        | e :: more =>
          rw [readText?_escape] at h
          split at h
          next hu =>
            subst hu
            obtain ⟨⟨ch, after⟩, hpoint, hread⟩ := Option.bind_eq_some_iff.1 h
            dsimp only at hread
            obtain ⟨src, t', rfl, hspells, rfl⟩ := hstep hread
            obtain ⟨ds, n, hds, hcases⟩ := escape_of_readCodePoint? hpoint
            rcases hcases with ⟨hhigh, rfl, rfl⟩ | ⟨hhigh, es, low, hes, hlow, rfl, rfl⟩ | ⟨hhigh, rfl, rfl, hlone⟩
            · exact ⟨'\\' :: 'u' :: (ds ++ src), by simp, .point hds hhigh hspells⟩
            · exact ⟨'\\' :: 'u' :: (ds ++ '\\' :: 'u' :: (es ++ src)), by simp, .pair hds hhigh hes hlow hspells⟩
            · refine ⟨'\\' :: 'u' :: (ds ++ src), by simp, .lone hds hhigh (fun es more low heq => ?_) hspells⟩
              exact hlone es (more ++ '"' :: rest) low (by simp [heq])
          next hu =>
            obtain ⟨ch, hshort, hread⟩ := Option.bind_eq_some_iff.1 h
            obtain ⟨src, t', rfl, hspells, rfl⟩ := hstep hread
            exact ⟨_, rfl, .short hshort hspells⟩
      · rw [readText?.eq_def] at h
        simp only [hquote, hback, if_false] at h
        split at h
        · cases h
        next hcontrol =>
          obtain ⟨src, t', rfl, hspells, rfl⟩ := hstep h
          exact ⟨_, rfl, .plain hquote hback (Nat.not_lt.1 hcontrol) hspells⟩

/-! ## 2. Numbers -/

/-- One digit and more. -/
def Digits (ds : List Char) : Prop := ds ≠ [] ∧ ∀ c ∈ ds, isPlainDigit c = true

/-- The digits before the point: they start with a zero only if there is no other. -/
def Whole (ds : List Char) : Prop := Digits ds ∧ (ds.head? = some '0' → ds = ['0'])

/-- Perhaps a point and digits behind it. -/
inductive Fraction : List Char → Option (List Char) → Prop
  | absent : Fraction [] none
  | present {ds : List Char} : Digits ds → Fraction ('.' :: ds) (some ds)

/-- Perhaps a sign. -/
inductive Signs : List Char → Bool → Prop
  | absent : Signs [] false
  | plus : Signs ['+'] false
  | minus : Signs ['-'] true

/-- Perhaps a letter, and an exponent behind it. -/
inductive Exponent : List Char → Option Int → Prop
  | absent : Exponent [] none
  | present {c : Char} {sign ds : List Char} {negative : Bool} : c = 'e' ∨ c = 'E' → Signs sign negative → Digits ds →
    Exponent (c :: (sign ++ ds)) (some (Binary64.signed negative (natOfPlain ds)))

/-- A number without its sign. With a fraction or an exponent it is a floating-point number. -/
inductive Magnitude (negative : Bool) : List Char → Value → Prop
  | int {ds : List Char} : Whole ds → Magnitude negative ds (.int (Binary64.signed negative (natOfPlain ds)))
  | float {whole f e : List Char} {fraction : Option (List Char)} {exponent : Option Int} : Whole whole →
    Fraction f fraction → Exponent e exponent → fraction.isSome ∨ exponent.isSome →
    Magnitude negative (whole ++ (f ++ e)) (.float (Numeral.ofDecimal negative (natOfPlain (whole ++ fraction.getD []))
      (exponent.getD 0 - (fraction.getD []).length)))

/-- A text that does not go on with a number: what stands in front is no digit and begins neither a
fraction nor an exponent. -/
def EndsNumber (cs : List Char) : Prop :=
  ∀ c ∈ cs.head?, isPlainDigit c = false ∧ c ≠ '.' ∧ c ≠ 'e' ∧ c ≠ 'E'

theorem EndsNumber.nil : EndsNumber [] := by simp [EndsNumber]

theorem EndsNumber.cons {c : Char} (hdigit : isPlainDigit c = false) (hpoint : c ≠ '.') (he : c ≠ 'e')
    (hE : c ≠ 'E') (cs : List Char) : EndsNumber (c :: cs) := by
  rintro d hd
  obtain rfl := Option.some.inj hd
  exact ⟨hdigit, hpoint, he, hE⟩

/-- What stands in front is no digit. -/
def EndsDigits (cs : List Char) : Prop := ∀ c ∈ cs.head?, isPlainDigit c = false

theorem EndsNumber.endsDigits {cs : List Char} (h : EndsNumber cs) : EndsDigits cs := fun c hc => (h c hc).1

theorem Digits.span {ds rest : List Char} (h : Digits ds) (hrest : EndsDigits rest) :
    (ds ++ rest).span isPlainDigit = (ds, rest) := by
  have hends : rest.takeWhile isPlainDigit = [] ∧ rest.dropWhile isPlainDigit = rest := by
    cases rest with
    | nil => exact ⟨rfl, rfl⟩
    | cons c cs =>
      have hc := hrest c rfl
      exact ⟨by simp [hc], by simp [hc]⟩
  rw [List.span_eq_takeWhile_dropWhile, List.takeWhile_append_of_pos h.2, List.dropWhile_append_of_pos h.2, hends.1,
    hends.2, List.append_nil]

/-- What is read as digits are all the digits in front. -/
theorem digits_of_span {cs ds rest : List Char} (h : cs.span isPlainDigit = (ds, rest)) :
    cs = ds ++ rest ∧ (ds ≠ [] → Digits ds) := by
  rw [List.span_eq_takeWhile_dropWhile] at h
  obtain ⟨rfl, rfl⟩ := Prod.mk.inj h
  exact ⟨List.takeWhile_append_dropWhile.symm, fun hne => ⟨hne, fun c => List.mem_takeWhile_imp⟩⟩

theorem Whole.readWhole? {ds rest : List Char} (h : Whole ds) (hrest : EndsDigits rest) :
    readWhole? (ds ++ rest) = some (ds, rest) := by
  obtain ⟨hdigits, hzero⟩ := h
  obtain ⟨c, cs, rfl⟩ := List.exists_cons_of_ne_nil hdigits.1
  by_cases hc : c = '0'
  · subst hc
    obtain ⟨-, rfl⟩ := List.cons.inj (hzero rfl)
    rfl
  · have hspan := hdigits.span hrest
    rw [List.cons_append] at hspan ⊢
    rw [Json.readWhole?.eq_def]
    split
    next heq => exact absurd (List.cons.inj heq).1 hc
    next heq =>
      obtain ⟨rfl, rfl⟩ := List.cons.inj heq
      rw [if_pos (hdigits.2 _ List.mem_cons_self), hspan]
    next heq => cases heq

theorem whole_of_readWhole? {cs ds rest : List Char} (h : readWhole? cs = some (ds, rest)) :
    cs = ds ++ rest ∧ Whole ds := by
  rw [readWhole?.eq_def] at h
  split at h
  · obtain ⟨rfl, rfl⟩ := Prod.mk.inj (Option.some.inj h)
    exact ⟨rfl, ⟨List.cons_ne_nil _ _, List.forall_mem_singleton.2 rfl⟩, fun _ => rfl⟩
  next c after hc =>
    split at h
    next hdigit =>
      obtain ⟨heq, hdigits⟩ := digits_of_span (Option.some.inj h)
      -- the digit in front is no zero, for that was the case before
      have hspan := Option.some.inj h
      rw [List.span_eq_takeWhile_dropWhile, List.takeWhile_cons_of_pos hdigit] at hspan
      obtain ⟨rfl, -⟩ := Prod.mk.inj hspan
      refine ⟨heq, hdigits (List.cons_ne_nil _ _), fun hzero => ?_⟩
      exact absurd (Option.some.inj hzero) hc
    · cases h
  · cases h

theorem Fraction.span {f rest : List Char} {fraction : Option (List Char)} (h : Fraction f fraction)
    (hrest : EndsDigits rest) (hpoint : rest.head? ≠ some '.') : spanPlainFraction (f ++ rest) = (fraction, rest) := by
  cases h with
  | absent =>
    rw [List.nil_append, spanPlainFraction.eq_def]
    split
    next more => exact absurd rfl hpoint
    · rfl
  | @present ds hdigits =>
    rw [List.cons_append, spanPlainFraction, hdigits.span hrest]
    split
    next heq => exact absurd (Prod.mk.inj heq).1 hdigits.1
    next heq =>
      obtain ⟨rfl, rfl⟩ := Prod.mk.inj heq
      rfl

theorem fraction_of_span {cs rest : List Char} {fraction : Option (List Char)}
    (h : spanPlainFraction cs = (fraction, rest)) : ∃ f, cs = f ++ rest ∧ Fraction f fraction := by
  rw [spanPlainFraction.eq_def] at h
  split at h
  next more =>
    split at h
    next => 
      obtain ⟨rfl, rfl⟩ := Prod.mk.inj h
      exact ⟨[], rfl, .absent⟩
    next ds after hne hspan =>
      obtain ⟨rfl, rfl⟩ := Prod.mk.inj h
      obtain ⟨heq, hdigits⟩ := digits_of_span hspan
      exact ⟨'.' :: ds, by rw [List.cons_append, ← heq], .present (hdigits hne)⟩
  · obtain ⟨rfl, rfl⟩ := Prod.mk.inj h
    exact ⟨[], rfl, .absent⟩

theorem Signs.span {sign ds rest : List Char} {negative : Bool} (h : Signs sign negative) (hds : Digits ds) :
    Numeral.spanSign (sign ++ (ds ++ rest)) = (negative, ds ++ rest) := by
  cases h with
  | plus => rfl
  | minus => rfl
  | absent =>
    obtain ⟨c, cs, rfl⟩ := List.exists_cons_of_ne_nil hds.1
    have hc := hds.2 c List.mem_cons_self
    rw [List.nil_append, Numeral.spanSign.eq_def]
    split
    next heq =>
      rw [(List.cons.inj heq).1] at hc
      cases hc
    next heq =>
      rw [(List.cons.inj heq).1] at hc
      cases hc
    · rfl

theorem signs_of_span {cs rest : List Char} {negative : Bool} (h : Numeral.spanSign cs = (negative, rest)) :
    ∃ sign, cs = sign ++ rest ∧ Signs sign negative := by
  rw [Numeral.spanSign.eq_def] at h
  split at h
  · obtain ⟨rfl, rfl⟩ := Prod.mk.inj h
    exact ⟨['-'], rfl, .minus⟩
  · obtain ⟨rfl, rfl⟩ := Prod.mk.inj h
    exact ⟨['+'], rfl, .plus⟩
  · obtain ⟨rfl, rfl⟩ := Prod.mk.inj h
    exact ⟨[], rfl, .absent⟩

theorem Exponent.span {e rest : List Char} {exponent : Option Int} (h : Exponent e exponent)
    (hrest : EndsNumber rest) : spanPlainExponent (e ++ rest) = (exponent, rest) := by
  cases h with
  | absent =>
    rw [List.nil_append, spanPlainExponent.eq_def]
    split
    next c more =>
      have hc := hrest c rfl
      rw [if_neg (by simp [hc.2.2])]
    · rfl
  | @present c sign ds negative hc hsign hdigits =>
    rw [List.cons_append, List.append_assoc, spanPlainExponent.eq_def]
    dsimp only
    rw [if_pos (by simpa using hc), hsign.span hdigits, hdigits.span hrest.endsDigits]
    split
    next heq => exact absurd (Prod.mk.inj heq).1 hdigits.1
    next heq =>
      obtain ⟨rfl, rfl⟩ := Prod.mk.inj heq
      rfl

theorem exponent_of_span {cs rest : List Char} {exponent : Option Int}
    (h : spanPlainExponent cs = (exponent, rest)) : ∃ e, cs = e ++ rest ∧ Exponent e exponent := by
  have hnone : ∀ {cs : List Char}, (none, cs) = (exponent, rest) → ∃ e, cs = e ++ rest ∧ Exponent e exponent := by
    intro cs heq
    obtain ⟨rfl, rfl⟩ := Prod.mk.inj heq
    exact ⟨[], rfl, .absent⟩
  rw [spanPlainExponent.eq_def] at h
  split at h
  next c more =>
    split at h
    next hc =>
      dsimp only at h
      split at h
      · exact hnone h
      next ds after hne hspan =>
        obtain ⟨rfl, rfl⟩ := Prod.mk.inj h
        obtain ⟨heq, hdigits⟩ := digits_of_span hspan
        obtain ⟨sign, hmore, hsign⟩ := signs_of_span (Prod.eta (Numeral.spanSign more)).symm
        refine ⟨c :: (sign ++ ds), ?_, .present (by simpa using hc) hsign (hdigits hne)⟩
        rw [hmore, heq]
        simp
    · exact hnone h
  · exact hnone h

/-- The exponent does not start as a fraction does. -/
theorem Exponent.front {e rest : List Char} {exponent : Option Int} (h : Exponent e exponent)
    (hrest : EndsNumber rest) : EndsDigits (e ++ rest) ∧ (e ++ rest).head? ≠ some '.' := by
  cases h with
  | absent => exact ⟨hrest.endsDigits, fun hpoint => (hrest '.' hpoint).2.1 rfl⟩
  | present hc _ _ =>
    constructor
    · rintro d hd
      obtain rfl := Option.some.inj hd
      rcases hc with rfl | rfl <;> rfl
    · intro hpoint
      have := Option.some.inj hpoint
      subst this
      simp at hc

theorem Magnitude.read {negative : Bool} {cs rest : List Char} {v : Value} (h : Magnitude negative cs v)
    (hrest : EndsNumber rest) : readMagnitude? negative (cs ++ rest) = some (v, rest) := by
  cases h with
  | int hwhole =>
    have hfraction := Fraction.absent.span hrest.endsDigits fun hpoint => (hrest '.' hpoint).2.1 rfl
    have hexponent := Exponent.absent.span hrest
    rw [List.nil_append] at hfraction hexponent
    rw [readMagnitude?, hwhole.readWhole? hrest.endsDigits, Option.map_some]
    simp only [hfraction, hexponent]
  | @float whole f e fraction exponent hwhole hfraction hexponent hsome =>
    obtain ⟨hdigits, hpoint⟩ := hexponent.front hrest
    have hends : EndsDigits (f ++ (e ++ rest)) := by
      cases hfraction with
      | absent => exact hdigits
      | present _ =>
        rintro d hd
        obtain rfl := Option.some.inj hd
        rfl
    rw [List.append_assoc, List.append_assoc, readMagnitude?, hwhole.readWhole? hends, Option.map_some]
    simp only [hfraction.span hdigits hpoint, hexponent.span hrest]
    split
    next => simp at hsome
    · rfl

theorem magnitude_of_read {negative : Bool} {cs rest : List Char} {v : Value}
    (h : readMagnitude? negative cs = some (v, rest)) : ∃ src, cs = src ++ rest ∧ Magnitude negative src v := by
  rw [readMagnitude?, Option.map_eq_some_iff] at h
  obtain ⟨⟨whole, after⟩, hread, h⟩ := h
  obtain ⟨rfl, hwhole⟩ := whole_of_readWhole? hread
  obtain ⟨f, hf, hfraction⟩ := fraction_of_span (Prod.eta (spanPlainFraction after)).symm
  obtain ⟨e, he, hexponent⟩ := exponent_of_span (Prod.eta (spanPlainExponent (spanPlainFraction after).2)).symm
  have hafter := hf.trans (congrArg (f ++ ·) he)
  dsimp only at h hafter
  split at h
  next hnone₁ hnone₂ =>
    obtain ⟨rfl, rfl⟩ := Prod.mk.inj h
    rw [hnone₁] at hfraction
    rw [hnone₂] at hexponent
    cases hfraction
    cases hexponent
    exact ⟨whole, congrArg (whole ++ ·) hafter, .int hwhole⟩
  next hsome =>
    obtain ⟨rfl, rfl⟩ := Prod.mk.inj h
    refine ⟨whole ++ (f ++ e), by simpa using hafter, .float hwhole hfraction hexponent ?_⟩
    by_contra hnone
    rw [not_or, Bool.not_eq_true, Bool.not_eq_true, Option.isSome_eq_false_iff, Option.isSome_eq_false_iff,
      Option.isNone_iff_eq_none, Option.isNone_iff_eq_none] at hnone
    exact hsome hnone.1 hnone.2

end NodeFlow.Json
