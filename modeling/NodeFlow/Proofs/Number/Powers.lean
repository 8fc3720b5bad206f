import Mathlib.Algebra.Order.Group.Nat
import NodeFlow.Value.Arithmetic
/-!
# Powers of two

A power of two is a floating-point number as it stands, up to the greatest one that is within range. So a
number can be doubled so many times whenever its doubling is asked for at all: a whole number stays exact, and
a floating-point number is rounded once.
-/

set_option autoImplicit false

namespace NodeFlow

namespace Binary64

/-- A power of two, with a mantissa of 53 binary digits. -/
def power (k : Nat) : Binary64 := .finite false (Nat.pow 2 52) (k - 52)

/-- In units that it is a multiple of, a power of two is a whole number. -/
theorem scaleRatio_power {k : Nat} {e : Int} (he : e ≤ k) :
    (scaleRatio (Nat.pow 2 k) 1 e).1 = Nat.pow 2 (k - e).toNat * (scaleRatio (Nat.pow 2 k) 1 e).2 ∧
      0 < (scaleRatio (Nat.pow 2 k) 1 e).2 := by
  unfold scaleRatio
  simp only [Nat.pow_eq]
  by_cases hsign : 0 ≤ e
  · obtain ⟨n, rfl⟩ := Int.eq_ofNat_of_zero_le hsign
    have hn : n ≤ k := Int.ofNat_le.1 he
    have hexponent : ((k : Int) - n).toNat = k - n := by omega
    rw [if_pos hsign, hexponent, Int.toNat_natCast, one_mul, ← pow_add, Nat.sub_add_cancel hn]
    exact ⟨rfl, Nat.two_pow_pos n⟩
  · have hexponent : ((k : Int) - e).toNat = k + (-e).toNat := by omega
    rw [if_neg hsign, hexponent, pow_add, mul_one]
    exact ⟨rfl, Nat.one_pos⟩

theorem div_scaleRatio_power {k : Nat} {e : Int} (he : e ≤ k) :
    (scaleRatio (Nat.pow 2 k) 1 e).1 / (scaleRatio (Nat.pow 2 k) 1 e).2 = Nat.pow 2 (k - e).toNat := by
  obtain ⟨hratio, hpos⟩ := scaleRatio_power he
  rw [hratio, Nat.mul_div_cancel _ hpos]

/-- What is whole already is not rounded. -/
theorem nearestEven_mul (n : Nat) {den : Nat} (hden : 0 < den) : nearestEven (n * den) den = n := by
  have hexact : n * den % den = 0 := Nat.mul_mod_left n den
  have htie : 0 ≠ den := Nat.ne_of_lt hden
  simp [nearestEven, hexact, htie, Nat.mul_div_cancel n hden]

theorem targetExponent_power (k : Nat) : targetExponent (Nat.pow 2 k) 1 = k - 52 := by
  have hlog : (Nat.pow 2 k).log2 = k := Nat.log2_two_pow
  have hlog' : (1 : Nat).log2 = 0 := by decide
  have hdigits : ((k : Int) - ((k : Int) - (0 : Nat) - 53)).toNat = 53 := by omega
  unfold targetExponent
  simp only [hlog, hlog']
  rw [div_scaleRatio_power (by omega), hdigits, if_neg (Nat.lt_irrefl _), minExponent]
  omega

/-- Rounded, a power of two is what it was, or infinite. -/
theorem ofRatio_power (k : Nat) :
    ofRatio false (Nat.pow 2 k) 1 = if (k : Int) - 52 > maxExponent then .infinite false else power k := by
  have hne : Nat.pow 2 k ≠ 0 := Nat.ne_of_gt (Nat.two_pow_pos k)
  have hunits : ((k : Int) - ((k : Int) - 52)).toNat = 52 := by omega
  obtain ⟨hratio, hpos⟩ := scaleRatio_power (k := k) (e := (k : Int) - 52) (by omega)
  have hmantissa : nearestEven (scaleRatio (Nat.pow 2 k) 1 (k - 52)).1
      (scaleRatio (Nat.pow 2 k) 1 (k - 52)).2 = Nat.pow 2 52 := by
    rw [hratio, nearestEven_mul _ hpos, hunits]
  have hcarried : ¬ Nat.pow 2 52 = Nat.pow 2 53 := by decide
  simp only [ofRatio, if_neg hne, targetExponent_power, hmantissa, if_neg hcarried, power]

theorem ofInt?_power_eq (k : Nat) :
    ofInt? (Nat.pow 2 k : Nat) = if k < 1024 then some (power k) else none := by
  have hsign : ¬ ((Nat.pow 2 k : Nat) : Int) < 0 := Int.not_lt.2 (Int.natCast_nonneg _)
  have hrange : (k : Int) - 52 > maxExponent ↔ ¬ k < 1024 := by
    rw [maxExponent]
    omega
  rw [ofInt?, Int.natAbs_natCast, decide_eq_false hsign, ofRatio_power]
  simp only [hrange, ite_not]
  by_cases hk : k < 1024
  · rw [if_pos hk, if_pos hk, power]
  · rw [if_neg hk, if_neg hk]

/-- **A power of two within range is a floating-point number as it stands.** -/
theorem ofInt?_power {k : Nat} (hk : k < 1024) : ofInt? (Nat.pow 2 k : Nat) = some (power k) := by
  rw [ofInt?_power_eq, if_pos hk]

/-- One beyond the range is none. -/
theorem ofInt?_power_eq_none {k : Nat} (hk : 1024 ≤ k) : ofInt? (Nat.pow 2 k : Nat) = none := by
  rw [ofInt?_power_eq, if_neg (Nat.not_lt.2 hk)]

end Binary64

namespace Number

/-- A number doubled so many times. -/
def doubled (k : Nat) : Number → Number
  | .int n => .int (n * (Nat.pow 2 k : Nat))
  | .float x => .float (x.mul (.power k))

/-- To multiply with a power of two is to double so many times; with a floating-point number, as long as the
power is within range. -/
theorem mul_power {d : Number} {k : Nat} (h : (∃ n, d = .int n) ∨ k < 1024) :
    d.mul (.int (Nat.pow 2 k : Nat)) = .ok (d.doubled k) := by
  cases d with
  | int n => rfl
  | float x =>
    have hk : k < 1024 := h.resolve_left (by simp)
    simp only [mul, apply, toBinary, Binary64.ofInt?_power hk]
    rfl

/-- A floating-point number cannot be multiplied with a power beyond the range, whatever it is. -/
theorem mul_power_overflow (x : Binary64) {k : Nat} (hk : 1024 ≤ k) :
    (Number.float x).mul (.int (Nat.pow 2 k : Nat)) = .error .overflow := by
  simp only [mul, apply, toBinary, Binary64.ofInt?_power_eq_none hk]

end Number

end NodeFlow
