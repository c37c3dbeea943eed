import Mathlib.Algebra.Order.BigOperators.Ring.Finset
import Mathlib.Topology.Algebra.Order.Field
import Mathlib.Topology.Instances.Real.Lemmas
import Mathlib.Topology.Order.IntermediateValue
import QuantumSentinel.Lib.Bisection

/-!
# Nearest points of a box with a given sum

Among the rows whose numbers lie in a range and have a given sum, a row that is shifted and clipped
is nearest to the row it was made of, and no other one is as near.  Over the reals there is always a
shift that gives the sum, between a shift that gives more and one that gives less.

Main results:

- Definition `boxWithSum` and `sqDist`.
- Theorem `sqDist_clipped_lt`: the clipped row is the nearest one.
- Theorem `exists_clippedSum_eq`: the shift exists.
-/

namespace QuantumSentinel.Lib

variable {F : Type*} [Field F] [LinearOrder F] {n : ℕ}

/-- The rows of numbers of a range with a given sum. -/
def boxWithSum (n : ℕ) (lower upper total : F) : Set (Fin n → F) :=
  {x | (∀ i, lower ≤ x i ∧ x i ≤ upper) ∧ ∑ i, x i = total}

omit [LinearOrder F] in
/-- The square of the Euclidean distance. -/
def sqDist (x y : Fin n → F) : F :=
  ∑ i, (x i - y i) ^ 2

/-- A row that is shifted down and clipped. -/
def clippedRow (lower upper : F) (w : Fin n → F) (theta : F) : Fin n → F := fun i =>
  clipTo lower upper (w i - theta)

/-- A clipped row is in the box of its own sum. -/
theorem clippedRow_mem {lower upper : F} (h : lower ≤ upper) (w : Fin n → F) (theta : F) :
    clippedRow lower upper w theta ∈
      boxWithSum n lower upper (clippedSum lower upper w theta) :=
  ⟨fun _ => ⟨le_clipTo h _, clipTo_le _ _ _⟩, rfl⟩

section Ordered

variable [IsStrictOrderedRing F] {lower upper theta : F} {w x : Fin n → F}

/-- The distance of a row of the same box grows at least as in a right triangle. -/
theorem sqDist_triangle (hx : x ∈ boxWithSum n lower upper (clippedSum lower upper w theta)) :
    sqDist (clippedRow lower upper w theta) w + sqDist x (clippedRow lower upper w theta) ≤
      sqDist x w := by
  have hangle : ∀ i, 0 ≤ (x i - clippedRow lower upper w theta i) *
      (clippedRow lower upper w theta i - (w i - theta)) := fun i =>
    clipTo_variational (hx.1 i).1 (hx.1 i).2
  have hsplit : sqDist x w - sqDist (clippedRow lower upper w theta) w -
      sqDist x (clippedRow lower upper w theta) =
        2 * ∑ i, (x i - clippedRow lower upper w theta i) *
          (clippedRow lower upper w theta i - (w i - theta)) -
        2 * theta * (∑ i, x i - ∑ i, clippedRow lower upper w theta i) := by
    rw [sqDist, sqDist, sqDist, ← Finset.sum_sub_distrib, ← Finset.sum_sub_distrib,
      ← Finset.sum_sub_distrib, Finset.mul_sum, Finset.mul_sum, ← Finset.sum_sub_distrib]
    refine Finset.sum_congr rfl fun i _ => ?_
    ring
  have hsums : ∑ i, x i - ∑ i, clippedRow lower upper w theta i = 0 :=
    sub_eq_zero.mpr hx.2
  rw [hsums, mul_zero, sub_zero] at hsplit
  have hnonneg := Finset.sum_nonneg fun i (_ : i ∈ Finset.univ) => hangle i
  linarith

/-- Different rows have a distance. -/
theorem sqDist_pos {y : Fin n → F} (h : x ≠ y) : 0 < sqDist x y := by
  obtain ⟨i, hi⟩ := Function.ne_iff.mp h
  refine Finset.sum_pos' (fun j _ => sq_nonneg _) ⟨i, Finset.mem_univ i, ?_⟩
  exact sq_pos_of_ne_zero (sub_ne_zero.mpr hi)

/-- Every other row of the box is farther away. -/
theorem sqDist_clipped_lt (hx : x ∈ boxWithSum n lower upper (clippedSum lower upper w theta))
    (hne : x ≠ clippedRow lower upper w theta) :
    sqDist (clippedRow lower upper w theta) w < sqDist x w := by
  have htriangle := sqDist_triangle hx
  have hpos := sqDist_pos hne
  linarith

end Ordered

/-- Between a shift with too large a sum and one with too small a sum there is one with the sum. -/
theorem exists_clippedSum_eq {lower upper total lo hi : ℝ} {w : Fin n → ℝ} (hle : lo ≤ hi)
    (hlo : total ≤ clippedSum lower upper w lo) (hhi : clippedSum lower upper w hi ≤ total) :
    ∃ theta, lo ≤ theta ∧ theta ≤ hi ∧ clippedSum lower upper w theta = total := by
  have hcontinuous : Continuous (clippedSum lower upper w) := by
    unfold clippedSum clipTo
    fun_prop
  obtain ⟨theta, ⟨hlow, hhigh⟩, heq⟩ :=
    intermediate_value_Icc' hle hcontinuous.continuousOn ⟨hhi, hlo⟩
  exact ⟨theta, hlow, hhigh, heq⟩

end QuantumSentinel.Lib
