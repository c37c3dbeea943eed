import Mathlib.Algebra.Order.Round
import Mathlib.Data.Rat.Floor
import Mathlib.Tactic.Linarith
import Mathlib.Tactic.FieldSimp
import Mathlib.Tactic.Positivity

/-!
# Rounding of exact rationals

The two rounding modes of the decimal arithmetic the services use, on exact
rationals: to the nearest integer with ties away from zero, and to the nearest
integer with ties to the even neighbour, also to a number of decimal places.

Main results:

- Theorem `abs_sub_roundHalfEven_le`: the error is at most one half.
- Theorem `roundHalfEven_intCast`: integers are fixed points.
- Theorem `roundHalfEven_mono`: rounding is monotone.
- Theorems `roundHalfEven_le_iff` and `le_roundHalfEven_iff`: when rounding crosses a
  bound.
- Theorem `roundDecimals_of_grid`: decimals of the target length are fixed points.
-/

namespace QuantumSentinel.Lib

/-! ## Ties away from zero -/

/-- Nearest integer, ties away from zero. -/
def roundHalfUp (q : ℚ) : ℤ :=
  if 0 ≤ q then ⌊q + 1 / 2⌋ else -⌊-q + 1 / 2⌋

/-- Rounding keeps the sign of a nonnegative number. -/
theorem roundHalfUp_nonneg {q : ℚ} (hq : 0 ≤ q) : 0 ≤ roundHalfUp q := by
  rw [roundHalfUp, if_pos hq]
  exact Int.floor_nonneg.mpr (by linarith)

/-! ## Ties to even -/

/-- Nearest integer, ties to the even neighbour. -/
def roundHalfEven (q : ℚ) : ℤ :=
  let below := ⌊q⌋
  let rest := q - below
  if rest < 1 / 2 then below
  else if 1 / 2 < rest then below + 1
  else if below % 2 = 0 then below
  else below + 1

/-- The result is the floor or its successor, whichever is nearer. -/
theorem roundHalfEven_cases (q : ℚ) :
    (roundHalfEven q = ⌊q⌋ ∧ q - ⌊q⌋ ≤ 1 / 2) ∨
      (roundHalfEven q = ⌊q⌋ + 1 ∧ 1 / 2 ≤ q - ⌊q⌋) := by
  unfold roundHalfEven
  by_cases hlow : q - ⌊q⌋ < 1 / 2
  · exact Or.inl ⟨by simp only [if_pos hlow], hlow.le⟩
  · by_cases hhigh : 1 / 2 < q - ⌊q⌋
    · exact Or.inr ⟨by simp only [if_neg hlow, if_pos hhigh], hhigh.le⟩
    · by_cases heven : ⌊q⌋ % 2 = 0
      · exact Or.inl ⟨by simp only [if_neg hlow, if_neg hhigh, if_pos heven], not_lt.mp hhigh⟩
      · exact Or.inr ⟨by simp only [if_neg hlow, if_neg hhigh, if_neg heven], not_lt.mp hlow⟩

/-- The rounding error is at most one half. -/
theorem abs_sub_roundHalfEven_le (q : ℚ) : |q - roundHalfEven q| ≤ 1 / 2 := by
  have hfloor := Int.floor_le q
  have hlt := Int.lt_floor_add_one q
  rcases roundHalfEven_cases q with ⟨hround, hrest⟩ | ⟨hround, hrest⟩
  · rw [hround, abs_le]
    constructor <;> linarith
  · rw [hround, abs_le]
    push_cast
    constructor <;> linarith

/-- Integers are fixed points. -/
@[simp]
theorem roundHalfEven_intCast (n : ℤ) : roundHalfEven (n : ℚ) = n := by
  simp [roundHalfEven]

@[simp]
theorem roundHalfEven_zero : roundHalfEven 0 = 0 := by
  simpa using roundHalfEven_intCast 0

/-- Rounding is monotone. -/
theorem roundHalfEven_mono {p q : ℚ} (h : p ≤ q) : roundHalfEven p ≤ roundHalfEven q := by
  have hfloor : ⌊p⌋ ≤ ⌊q⌋ := Int.floor_le_floor h
  rcases eq_or_lt_of_le hfloor with heq | hlt
  · unfold roundHalfEven
    simp only [heq]
    have hrest : p - ⌊q⌋ ≤ q - ⌊q⌋ := by linarith
    by_cases hp : p - ⌊q⌋ < 1 / 2
    · rw [if_pos hp]
      split_ifs <;> omega
    · have hq : ¬ q - ⌊q⌋ < 1 / 2 := fun hq => hp (lt_of_le_of_lt hrest hq)
      rw [if_neg hp, if_neg hq]
      by_cases hp' : 1 / 2 < p - ⌊q⌋
      · rw [if_pos hp', if_pos (lt_of_lt_of_le hp' hrest)]
      · rw [if_neg hp']
        split_ifs <;> omega
  · rcases roundHalfEven_cases p with ⟨hp, _⟩ | ⟨hp, _⟩ <;>
      rcases roundHalfEven_cases q with ⟨hq, _⟩ | ⟨hq, _⟩ <;> omega

/-- Rounding keeps the sign of a nonnegative number. -/
theorem roundHalfEven_nonneg {q : ℚ} (hq : 0 ≤ q) : 0 ≤ roundHalfEven q := by
  rw [← roundHalfEven_zero]
  exact roundHalfEven_mono hq

/-- Whether rounding goes down. -/
def RoundsDown (q : ℚ) : Prop :=
  q - ⌊q⌋ < 1 / 2 ∨ (q - ⌊q⌋ = 1 / 2 ∧ ⌊q⌋ % 2 = 0)

theorem roundHalfEven_of_down {q : ℚ} (h : RoundsDown q) : roundHalfEven q = ⌊q⌋ := by
  unfold roundHalfEven
  rcases h with hlow | ⟨hhalf, heven⟩
  · simp only [if_pos hlow]
  · simp only [hhalf, lt_irrefl, if_false, if_pos heven]

theorem roundHalfEven_of_not_down {q : ℚ} (h : ¬RoundsDown q) :
    roundHalfEven q = ⌊q⌋ + 1 := by
  rw [RoundsDown, not_or, not_lt] at h
  rcases h.1.eq_or_lt with hhalf | hhigh
  · unfold roundHalfEven
    simp only [← hhalf, lt_irrefl, if_false]
    exact if_neg fun heven => h.2 ⟨hhalf.symm, heven⟩
  · unfold roundHalfEven
    simp only [if_neg hhigh.le.not_gt, if_pos hhigh]

/-- Rounding stays below a bound unless it goes up across it. -/
theorem roundHalfEven_le_iff {q x : ℚ} (h : q ≤ x) :
    (roundHalfEven q : ℚ) ≤ x ↔ RoundsDown q ∨ (⌊q⌋ : ℚ) + 1 ≤ x := by
  by_cases hdown : RoundsDown q
  · rw [roundHalfEven_of_down hdown]
    exact iff_of_true ((Int.floor_le q).trans h) (Or.inl hdown)
  · rw [roundHalfEven_of_not_down hdown, or_iff_right hdown]
    push_cast
    rfl

/-- Rounding stays above a bound unless it goes down across it. -/
theorem le_roundHalfEven_iff {q x : ℚ} (h : x ≤ q) :
    x ≤ (roundHalfEven q : ℚ) ↔ ¬RoundsDown q ∨ x ≤ (⌊q⌋ : ℚ) := by
  by_cases hdown : RoundsDown q
  · rw [roundHalfEven_of_down hdown, or_iff_right (not_not.mpr hdown)]
  · rw [roundHalfEven_of_not_down hdown]
    refine iff_of_true ?_ (Or.inl hdown)
    push_cast
    exact h.trans (Int.lt_floor_add_one q).le

/-- Rounding gives nothing up to one half. -/
theorem roundHalfEven_pos_iff {q : ℚ} : 0 < roundHalfEven q ↔ 1 / 2 < q := by
  constructor
  · intro hpos
    by_contra hle
    have hmono := roundHalfEven_mono (not_lt.mp hle)
    have hhalf : roundHalfEven (1 / 2) = 0 := by decide +kernel
    omega
  · intro hlt
    have hhalf := abs_sub_roundHalfEven_le q
    have hround : (0 : ℚ) < roundHalfEven q := by linarith [(abs_le.mp hhalf).2]
    exact_mod_cast hround

/-! ## Decimal places -/

/-- `round(q, n)`. -/
def roundDecimals (q : ℚ) (n : ℕ) : ℚ :=
  roundHalfEven (q * 10 ^ n) / 10 ^ n

theorem roundDecimals_nonneg {q : ℚ} (hq : 0 ≤ q) (n : ℕ) : 0 ≤ roundDecimals q n := by
  have hround : 0 ≤ roundHalfEven (q * 10 ^ n) := roundHalfEven_nonneg (by positivity)
  unfold roundDecimals
  positivity

theorem roundDecimals_mono {p q : ℚ} (h : p ≤ q) (n : ℕ) :
    roundDecimals p n ≤ roundDecimals q n := by
  have hscaled : roundHalfEven (p * 10 ^ n) ≤ roundHalfEven (q * 10 ^ n) :=
    roundHalfEven_mono (mul_le_mul_of_nonneg_right h (by positivity))
  exact div_le_div_of_nonneg_right (by exact_mod_cast hscaled) (by positivity)

/-- The error is at most half a unit of the last decimal. -/
theorem abs_roundDecimals_sub_le (q : ℚ) (n : ℕ) : |roundDecimals q n - q| ≤ 1 / 2 / 10 ^ n := by
  have hpow : (0 : ℚ) < 10 ^ n := by positivity
  have hround := abs_sub_roundHalfEven_le (q * 10 ^ n)
  rw [abs_sub_comm] at hround
  rw [roundDecimals, le_div_iff₀ hpow, ← abs_of_pos hpow, ← abs_mul, abs_of_pos hpow, sub_mul,
    div_mul_cancel₀ _ hpow.ne']
  exact hround

/-- A number with at most `n` decimals is a fixed point. -/
theorem roundDecimals_of_grid (k : ℤ) (n : ℕ) :
    roundDecimals ((k : ℚ) / 10 ^ n) n = (k : ℚ) / 10 ^ n := by
  have hpow : (10 : ℚ) ^ n ≠ 0 := by positivity
  unfold roundDecimals
  rw [div_mul_cancel₀ _ hpow, roundHalfEven_intCast]

end QuantumSentinel.Lib
