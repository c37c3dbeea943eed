import Mathlib.Algebra.Order.Field.Rat
import Mathlib.Data.Nat.Basic
import Mathlib.Tactic.Positivity
import Mathlib.Tactic.Ring

/-!
# Magnitudes of binary64 numbers

A finite binary64 number is a whole multiple of the smallest positive one.  The bits of its
magnitude, its exponent in front of its fraction, are in the order of these multiples.

Main results:

- Definition `binary64Units`: the multiple that the bits stand for.
- Theorem `binary64Units_strictMono`: bits and multiples have one order.

Current gaps:

- The bits of infinities and of `NaN` have no meaning here.
-/

namespace QuantumSentinel.Lib

/-- The bits of a magnitude as a multiple of the smallest positive number: the fraction alone
without an exponent, else with its hidden bit. -/
def binary64Units (bits : ℕ) : ℕ :=
  if bits / 2 ^ 52 = 0 then bits % 2 ^ 52
  else (2 ^ 52 + bits % 2 ^ 52) * 2 ^ (bits / 2 ^ 52 - 1)

/-- Numbers with an exponent are at least its power. -/
theorem le_binary64Units {bits e : ℕ} (he : e + 1 ≤ bits / 2 ^ 52) :
    2 ^ 52 * 2 ^ e ≤ binary64Units bits := by
  rw [binary64Units, if_neg (by omega)]
  exact Nat.mul_le_mul (Nat.le_add_right _ _)
    (Nat.pow_le_pow_right (by decide) (Nat.le_sub_one_of_lt he))

/-- Numbers are below the power of the next exponent. -/
theorem binary64Units_lt (bits : ℕ) : binary64Units bits < 2 ^ 52 * 2 ^ (bits / 2 ^ 52) := by
  have hfraction : bits % 2 ^ 52 < 2 ^ 52 := Nat.mod_lt _ (by decide)
  unfold binary64Units
  split
  · rename_i hzero
    rw [hzero, pow_zero, mul_one]
    exact hfraction
  · rename_i hexponent
    obtain ⟨e, he⟩ := Nat.exists_eq_succ_of_ne_zero hexponent
    rw [he, Nat.succ_sub_one, pow_succ 2 e, mul_comm (2 ^ e) 2, ← mul_assoc]
    exact Nat.mul_lt_mul_of_pos_right (by omega) (Nat.two_pow_pos e)

/-- Bits and multiples have one order. -/
theorem binary64Units_strictMono : StrictMono binary64Units := by
  intro bits bits' hlt
  rcases (Nat.div_le_div_right (c := 2 ^ 52) hlt.le).eq_or_lt with hsame | hless
  · have hfraction : bits % 2 ^ 52 < bits' % 2 ^ 52 := by
      have hsplit := Nat.div_add_mod bits (2 ^ 52)
      have hsplit' := Nat.div_add_mod bits' (2 ^ 52)
      rw [hsame] at hsplit
      omega
    unfold binary64Units
    rw [hsame]
    split
    · exact hfraction
    · exact Nat.mul_lt_mul_of_pos_right (by omega) (Nat.two_pow_pos _)
  · exact (binary64Units_lt bits).trans_le (le_binary64Units hless)

/-! ## Values -/

/-- The number of a sign and the bits of a magnitude. -/
def binary64Value (negative : Bool) (bits : ℕ) : ℚ :=
  if negative then -((binary64Units bits : ℚ) / 2 ^ 1074) else (binary64Units bits : ℚ) / 2 ^ 1074

theorem units_div_lt_iff {bits bits' : ℕ} :
    (binary64Units bits : ℚ) / 2 ^ 1074 < (binary64Units bits' : ℚ) / 2 ^ 1074 ↔ bits < bits' := by
  rw [div_lt_div_iff_of_pos_right (by positivity), Nat.cast_lt]
  exact binary64Units_strictMono.lt_iff_lt

/-- Positive numbers are in the order of their bits. -/
theorem binary64Value_pos_lt_iff {bits bits' : ℕ} :
    binary64Value false bits < binary64Value false bits' ↔ bits < bits' :=
  units_div_lt_iff

/-- Negative numbers are in the reverse order of their bits. -/
theorem binary64Value_neg_lt_iff {bits bits' : ℕ} :
    binary64Value true bits < binary64Value true bits' ↔ bits' < bits :=
  neg_lt_neg_iff.trans units_div_lt_iff

/-- A negative number that is not zero is below every positive one. -/
theorem binary64Value_neg_lt_pos {bits bits' : ℕ} (h : bits ≠ 0) :
    binary64Value true bits < binary64Value false bits' := by
  have hpositive : (0 : ℚ) < (binary64Units bits : ℚ) / 2 ^ 1074 := by
    have hunits : 0 < binary64Units bits :=
      binary64Units_strictMono (Nat.pos_of_ne_zero h)
    positivity
  have hnonneg : (0 : ℚ) ≤ (binary64Units bits' : ℚ) / 2 ^ 1074 := by positivity
  exact (neg_neg_of_pos hpositive).trans_le hnonneg

end QuantumSentinel.Lib
