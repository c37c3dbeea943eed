import Mathlib.Algebra.BigOperators.Group.Finset.Basic
import Mathlib.Algebra.Order.BigOperators.Group.Finset
import Mathlib.Algebra.Order.Field.Basic
import Mathlib.Tactic.FieldSimp
import Mathlib.Tactic.Linarith
import Mathlib.Tactic.Ring
import QuantumSentinel.Lib.Numerals

/-!
# Bisection and clipping

An interval is halved a number of times, and the numbers of a row are clipped to a range.  The sum of
a clipped row falls as the row is shifted down, and not faster than the row does, so bisection finds
the shift that gives the row a sum.

Main results:

- Definition `bisect` and theorem `bisect_width`: the length of what is left.
- Theorem `bisect_ends`: what holds of the two ends all along.
- Theorem `bisect_nested`: what is left after more halvings lies in what is left after fewer.
- Theorem `abs_clippedSum_sub_le`: how far the sum is from its target afterwards.
-/

namespace QuantumSentinel.Lib

variable {F : Type*} [Field F] [LinearOrder F]

/-! ## Bisection -/

/-- An interval after some halvings; the lower half is left where a middle is passed. -/
def bisect (passed : F → Bool) : ℕ → F → F → F × F
  | 0, lo, hi => (lo, hi)
  | n + 1, lo, hi =>
    let mid := (lo + hi) / 2
    if passed mid then bisect passed n mid hi else bisect passed n lo mid

/-- Every halving halves the length. -/
theorem bisect_width [IsStrictOrderedRing F] (passed : F → Bool) (n : ℕ) (lo hi : F) :
    (bisect passed n lo hi).2 - (bisect passed n lo hi).1 = (hi - lo) / 2 ^ n := by
  induction n generalizing lo hi with
  | zero => simp [bisect]
  | succ n ih =>
    rw [bisect]
    split
    · rw [ih, pow_succ]
      field_simp
      ring
    · rw [ih, pow_succ]
      field_simp
      ring

omit [LinearOrder F] in
/-- What holds of the ends, and of every middle that becomes an end, holds of the last ends. -/
theorem bisect_ends (passed : F → Bool) {P Q : F → Prop} (hlower : ∀ x, passed x = true → P x)
    (hupper : ∀ x, passed x = false → Q x) (n : ℕ) {lo hi : F} (hlo : P lo) (hhi : Q hi) :
    P (bisect passed n lo hi).1 ∧ Q (bisect passed n lo hi).2 := by
  induction n generalizing lo hi with
  | zero => exact ⟨hlo, hhi⟩
  | succ n ih =>
    rw [bisect]
    split
    · rename_i hpassed
      exact ih (hlower _ hpassed) hhi
    · rename_i hpassed
      exact ih hlo (hupper _ (Bool.eq_false_of_not_eq_true hpassed))

omit [LinearOrder F] in
/-- Halvings after halvings. -/
theorem bisect_add (passed : F → Bool) (k m : ℕ) (lo hi : F) :
    bisect passed (k + m) lo hi =
      bisect passed m (bisect passed k lo hi).1 (bisect passed k lo hi).2 := by
  induction k generalizing lo hi with
  | zero => rw [Nat.zero_add, bisect]
  | succ k ih =>
    rw [Nat.succ_add_eq_add_succ, Nat.add_succ, bisect, bisect]
    split
    · exact ih _ _
    · exact ih _ _

/-- What is left lies in the interval. -/
theorem bisect_within [IsStrictOrderedRing F] (passed : F → Bool) (n : ℕ) {lo hi : F}
    (h : lo ≤ hi) :
    lo ≤ (bisect passed n lo hi).1 ∧ (bisect passed n lo hi).1 ≤ (bisect passed n lo hi).2 ∧
      (bisect passed n lo hi).2 ≤ hi := by
  induction n generalizing lo hi with
  | zero => exact ⟨le_rfl, h, le_rfl⟩
  | succ n ih =>
    have hlower : lo ≤ (lo + hi) / 2 := by linarith
    have hupper : (lo + hi) / 2 ≤ hi := by linarith
    rw [bisect]
    split
    · obtain ⟨hlo, hends, hhi⟩ := ih hupper
      exact ⟨hlower.trans hlo, hends, hhi⟩
    · obtain ⟨hlo, hends, hhi⟩ := ih hlower
      exact ⟨hlo, hends, hhi.trans hupper⟩

/-- What is left after more halvings lies in what is left after fewer. -/
theorem bisect_nested [IsStrictOrderedRing F] (passed : F → Bool) {k n : ℕ} (hk : k ≤ n) {lo hi : F}
    (h : lo ≤ hi) :
    (bisect passed k lo hi).1 ≤ (bisect passed n lo hi).1 ∧
      (bisect passed n lo hi).2 ≤ (bisect passed k lo hi).2 := by
  obtain ⟨m, rfl⟩ := Nat.exists_eq_add_of_le hk
  rw [bisect_add]
  obtain ⟨hlo, -, hhi⟩ := bisect_within passed m (bisect_within passed k h).2.1
  exact ⟨hlo, hhi⟩

/-! ## Clipping -/

/-- `np.clip(x, lower, upper)` -/
def clipTo (lower upper x : F) : F :=
  min (max x lower) upper

section Clip

variable {lower upper : F}

omit [Field F] in
theorem le_clipTo (h : lower ≤ upper) (x : F) : lower ≤ clipTo lower upper x :=
  le_min (le_max_right _ _) h

omit [Field F] in
theorem clipTo_le (lower upper x : F) : clipTo lower upper x ≤ upper :=
  min_le_right _ _

omit [Field F] in
/-- A number in the range is not changed. -/
theorem clipTo_of_mem {x : F} (hlower : lower ≤ x) (hupper : x ≤ upper) :
    clipTo lower upper x = x := by
  rw [clipTo, max_eq_left hlower, min_eq_left hupper]

omit [Field F] in
theorem clipTo_of_ge {x : F} (hupper : upper ≤ x) : clipTo lower upper x = upper :=
  min_eq_right (hupper.trans (le_max_left x lower))

omit [Field F] in
theorem clipTo_of_le (h : lower ≤ upper) {x : F} (hlower : x ≤ lower) :
    clipTo lower upper x = lower := by
  rw [clipTo, max_eq_right hlower, min_eq_left h]

omit [Field F] in
/-- Clipping keeps the order of numbers. -/
theorem clipTo_mono (lower upper : F) : Monotone (clipTo lower upper) := by
  intro x y h
  exact min_le_min (max_le_max h le_rfl) le_rfl

/-- Clipping between opposite numbers does not prefer a sign. -/
theorem clipTo_neg [IsOrderedAddMonoid F] {bound : F} (h : 0 ≤ bound) (x : F) :
    clipTo (-bound) bound (-x) = -clipTo (-bound) bound x := by
  rcases le_total x (-bound) with hlow | hlow
  · rw [clipTo_of_le (neg_le_self h) hlow, clipTo_of_ge (le_neg.mpr hlow), neg_neg]
  · rcases le_total bound x with hhigh | hhigh
    · rw [clipTo_of_ge hhigh, clipTo_of_le (neg_le_self h) (neg_le_neg hhigh)]
    · rw [clipTo_of_mem hlow hhigh, clipTo_of_mem (neg_le_neg hhigh) (neg_le.mpr hlow)]

/-- A number of the range lies on the side of the clipped number that is not the side of the number
itself. -/
theorem clipTo_variational [IsStrictOrderedRing F] {a x : F} (hlower : lower ≤ x)
    (hupper : x ≤ upper) : 0 ≤ (x - clipTo lower upper a) * (clipTo lower upper a - a) := by
  rcases le_total a lower with hlow | hlow
  · rw [clipTo_of_le (hlower.trans hupper) hlow]
    exact mul_nonneg (sub_nonneg.mpr hlower) (sub_nonneg.mpr hlow)
  · rcases le_total upper a with hhigh | hhigh
    · rw [clipTo_of_ge hhigh]
      exact mul_nonneg_of_nonpos_of_nonpos (sub_nonpos.mpr hupper) (sub_nonpos.mpr hhigh)
    · rw [clipTo_of_mem hlow hhigh, sub_self, mul_zero]

/-- Clipping does not spread numbers. -/
theorem clipTo_sub_le [IsStrictOrderedRing F] (lower upper : F) {x y : F} (h : x ≤ y) :
    clipTo lower upper y - clipTo lower upper x ≤ y - x := by
  have hmax : max y lower ≤ max x lower + (y - x) := by
    refine max_le ?_ ?_
    · linarith [le_max_left x lower]
    · linarith [le_max_right x lower]
  have hmin : clipTo lower upper y ≤ clipTo lower upper x + (y - x) := by
    rcases min_choice (max x lower) upper with hx | hx
    · rw [clipTo, clipTo, hx]
      exact (min_le_left _ _).trans hmax
    · rw [clipTo, clipTo, hx]
      linarith [min_le_right (max y lower) upper]
  linarith

end Clip

/-! ## The sum of a clipped row -/

/-- The sum of a row that is shifted down and clipped. -/
def clippedSum {n : ℕ} (lower upper : F) (w : Fin n → F) (theta : F) : F :=
  ∑ i, clipTo lower upper (w i - theta)

section Sum

variable [IsStrictOrderedRing F] {n : ℕ} {lower upper : F} {w : Fin n → F}

/-- The sum does not fall faster than the row. -/
theorem clippedSum_sub_le {theta theta' : F} (h : theta ≤ theta') :
    clippedSum lower upper w theta - clippedSum lower upper w theta' ≤ n * (theta' - theta) := by
  have hterm : ∀ i ∈ (Finset.univ : Finset (Fin n)),
      clipTo lower upper (w i - theta) - clipTo lower upper (w i - theta') ≤ theta' - theta := by
    intro i _
    refine (clipTo_sub_le lower upper (sub_le_sub_left h (w i))).trans (le_of_eq ?_)
    ring
  have hsum := Finset.sum_le_card_nsmul _ _ _ hterm
  rw [Finset.sum_sub_distrib, Finset.card_univ, Fintype.card_fin, nsmul_eq_mul] at hsum
  exact hsum

/-- Between a shift with too large a sum and one with too small a sum, the sum of the middle is off
by as much as the row is shifted over half of the distance. -/
theorem abs_clippedSum_sub_le {target lo hi : F} (hle : lo ≤ hi)
    (hlo : target ≤ clippedSum lower upper w lo) (hhi : clippedSum lower upper w hi ≤ target) :
    |clippedSum lower upper w ((lo + hi) / 2) - target| ≤ n * ((hi - lo) / 2) := by
  have hbelow : clippedSum lower upper w lo - clippedSum lower upper w ((lo + hi) / 2) ≤
      n * ((lo + hi) / 2 - lo) := clippedSum_sub_le (by linarith)
  have habove : clippedSum lower upper w ((lo + hi) / 2) - clippedSum lower upper w hi ≤
      n * (hi - (lo + hi) / 2) := clippedSum_sub_le (by linarith)
  have hfirst : (n : F) * ((lo + hi) / 2 - lo) = n * ((hi - lo) / 2) := by ring
  have hsecond : (n : F) * (hi - (lo + hi) / 2) = n * ((hi - lo) / 2) := by ring
  rw [abs_le]
  constructor
  · linarith
  · linarith

end Sum

end QuantumSentinel.Lib
