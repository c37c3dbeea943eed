import Mathlib.Data.Finset.Lattice.Fold
import QuantumSentinel.Lib.Bisection

/-!
# Portfolios: constraints and projection

`PortfolioConstraints`, `_project_simplex` and `_project_box` of
`portfolio_optimization.py`: weights are shifted by the same amount and clipped to the box of a
single weight, with the shift at which they sum to one found by bisection.

Main results:

- Definition `PortfolioConstraints.projectSimplex`: the projection, with its refusals.
- Theorem `PortfolioConstraints.Attainable.projectSimplex_eq`: a box that can be attained is
  never refused.
- Theorem `PortfolioConstraints.Attainable.bracket_sums`: the bisection brackets the sum all
  along.
- Theorem `PortfolioConstraints.projected_respects`: the weights are in the box, and their sum is
  one up to the error of the bisection.

Current gaps:

- Arithmetic is exact.
- The leverage and the target volatility, which no optimiser reads, are left out.
-/

namespace QuantumSentinel.Portfolio

open Lib

variable {F : Type*} [Field F] [LinearOrder F] {N : ℕ}

/-- `PortfolioConstraints` -/
structure PortfolioConstraints (F : Type*) where
  longOnly : Bool
  minWeight : F
  maxWeight : F

/-- Weights of some assets. -/
abbrev Weights (F : Type*) (N : ℕ) :=
  Fin N → F

/-- `np.min(w)` -/
def least (hN : 0 < N) (w : Weights F N) : F :=
  Finset.univ.inf' ⟨⟨0, hN⟩, Finset.mem_univ _⟩ w

/-- `np.max(w)` -/
def greatest (hN : 0 < N) (w : Weights F N) : F :=
  Finset.univ.sup' ⟨⟨0, hN⟩, Finset.mem_univ _⟩ w

omit [Field F] in
theorem least_le_greatest (hN : 0 < N) (w : Weights F N) : least hN w ≤ greatest hN w :=
  (Finset.inf'_le w (Finset.mem_univ ⟨0, hN⟩)).trans (Finset.le_sup' w (Finset.mem_univ ⟨0, hN⟩))

namespace PortfolioConstraints

variable (con : PortfolioConstraints F)

/-- `lower` -/
def lower : F :=
  max 0 con.minWeight

/-- The bisection of `_project_simplex`: the ends of what is left after eighty halvings. -/
def shifts (hN : 0 < N) (w : Weights F N) : F × F :=
  bisect (fun theta => 1 < clippedSum con.lower con.maxWeight w theta) 80
    (least hN w - con.maxWeight) (greatest hN w - con.lower)

/-- The clipped weights at the middle of what the bisection leaves. -/
def projected (hN : 0 < N) (w : Weights F N) : Weights F N := fun i =>
  clipTo con.lower con.maxWeight (w i - ((con.shifts hN w).1 + (con.shifts hN w).2) / 2)

/-- `_project_simplex` -/
def projectSimplex (w : Weights F N) : Except String (Weights F N) :=
  if hN : 0 < N then
    if con.longOnly = false then
      .error "short portfolio projection is not implemented; use long_only constraints"
    else if con.maxWeight < con.lower ∨ 1 + 1 / 10 ^ 12 < con.lower * N ∨
        con.maxWeight * N < 1 - 1 / 10 ^ 12 then
      .error "infeasible portfolio box constraints"
    else .ok (con.projected hN w)
  else .error "weights must be a non-empty vector"

/-- `_project_box` -/
def projectBox (w : Weights F N) : Weights F N := fun i =>
  let clipped := clipTo con.minWeight con.maxWeight (w i)
  if con.longOnly then max clipped 0 else clipped

/-! ## Feasible boxes -/

/-- A long-only box that some weights with a sum of one respect. -/
structure Feasible (N : ℕ) : Prop where
  longOnly : con.longOnly = true
  min_nonneg : 0 ≤ con.minWeight
  min_le_max : con.minWeight ≤ con.maxWeight
  max_le_one : con.maxWeight ≤ 1
  sum_min : N * con.minWeight ≤ 1
  sum_max : 1 ≤ N * con.maxWeight

/-- Each weight is between the bounds. -/
def InBox (w : Weights F N) : Prop :=
  ∀ i, con.minWeight ≤ w i ∧ w i ≤ con.maxWeight

/-- What the bisection of `_project_simplex` can miss the sum by. -/
def bisectionError (hN : 0 < N) (w : Weights F N) : F :=
  N * (((greatest hN w - con.lower) - (least hN w - con.maxWeight)) / 2 ^ 80 / 2)

/-- Weights in the box with a sum of one, up to the bisection error of the projection that made
them. -/
def Respects (w : Weights F N) : Prop :=
  con.InBox w ∧
    (∑ i, w i = 1 ∨ ∃ (hN : 0 < N) (v : Weights F N),
      w = con.projected hN v ∧ |∑ i, w i - 1| ≤ con.bisectionError hN v)

/-- A box that some long-only weights with a sum of one respect, whatever its lower end allows. -/
structure Attainable (N : ℕ) : Prop where
  longOnly : con.longOnly = true
  lower_le : con.lower ≤ con.maxWeight
  sum_lower : N * con.lower ≤ 1
  sum_max : 1 ≤ N * con.maxWeight

/-- What is left of the shifts after some halvings. -/
def bracket (hN : 0 < N) (w : Weights F N) (k : ℕ) : F × F :=
  bisect (fun theta => 1 < clippedSum con.lower con.maxWeight w theta) k
    (least hN w - con.maxWeight) (greatest hN w - con.lower)

section Attainable

variable [IsStrictOrderedRing F] {con}

namespace Attainable

variable (h : con.Attainable N) (hN : 0 < N) (w : Weights F N)

include h

/-- A box that can be attained is never refused. -/
theorem projectSimplex_eq : con.projectSimplex w = .ok (con.projected hN w) := by
  have htolerance : (0 : F) ≤ 1 / 10 ^ 12 := by positivity
  have hbox : ¬ (con.maxWeight < con.lower ∨ 1 + 1 / 10 ^ 12 < con.lower * N ∨
      con.maxWeight * N < 1 - 1 / 10 ^ 12) := by
    rw [mul_comm con.lower, mul_comm con.maxWeight]
    rintro (hbox | hbox | hbox)
    · exact not_lt.mpr h.lower_le hbox
    · linarith [h.sum_lower]
    · linarith [h.sum_max]
  rw [projectSimplex, dif_pos hN, if_neg (by rw [h.longOnly]; decide), if_neg hbox]

/-- The shift from which the bisection starts fills every weight. -/
theorem one_le_clippedSum :
    1 ≤ clippedSum con.lower con.maxWeight w (least hN w - con.maxWeight) := by
  have hterm : ∀ i, clipTo con.lower con.maxWeight (w i - (least hN w - con.maxWeight)) =
      con.maxWeight := by
    intro i
    have hleast : least hN w ≤ w i := Finset.inf'_le w (Finset.mem_univ i)
    exact clipTo_of_ge (by linarith)
  rw [clippedSum, Finset.sum_congr rfl fun i _ => hterm i, Finset.sum_const, Finset.card_univ,
    Fintype.card_fin, nsmul_eq_mul]
  exact h.sum_max

/-- The shift at which the bisection ends empties every weight. -/
theorem clippedSum_le_one :
    clippedSum con.lower con.maxWeight w (greatest hN w - con.lower) ≤ 1 := by
  have hterm : ∀ i, clipTo con.lower con.maxWeight (w i - (greatest hN w - con.lower)) =
      con.lower := by
    intro i
    have hgreatest : w i ≤ greatest hN w := Finset.le_sup' w (Finset.mem_univ i)
    exact clipTo_of_le h.lower_le (by linarith)
  rw [clippedSum, Finset.sum_congr rfl fun i _ => hterm i, Finset.sum_const, Finset.card_univ,
    Fintype.card_fin, nsmul_eq_mul]
  exact h.sum_lower

/-- The shifts at which the bisection starts are in order. -/
theorem starts_le : least hN w - con.maxWeight ≤ greatest hN w - con.lower := by
  have hlower := h.lower_le
  have hextent := least_le_greatest hN w
  linarith

/-- The two ends bracket the sum all along. -/
theorem bracket_sums (k : ℕ) :
    1 ≤ clippedSum con.lower con.maxWeight w (con.bracket hN w k).1 ∧
      clippedSum con.lower con.maxWeight w (con.bracket hN w k).2 ≤ 1 :=
  bisect_ends (fun theta => 1 < clippedSum con.lower con.maxWeight w theta)
    (P := fun theta => 1 ≤ clippedSum con.lower con.maxWeight w theta)
    (Q := fun theta => clippedSum con.lower con.maxWeight w theta ≤ 1)
    (fun _ hpassed => (of_decide_eq_true hpassed).le)
    (fun _ hpassed => not_lt.mp (of_decide_eq_false hpassed)) k
    (h.one_le_clippedSum hN w) (h.clippedSum_le_one hN w)

omit [IsStrictOrderedRing F] in
/-- Weights are projected into the box. -/
theorem projected_mem (i : Fin N) :
    con.lower ≤ con.projected hN w i ∧ con.projected hN w i ≤ con.maxWeight :=
  ⟨le_clipTo h.lower_le _, clipTo_le _ _ _⟩

/-- The sum of projected weights is one up to the error of the bisection. -/
theorem abs_sum_projected_le : |∑ i, con.projected hN w i - 1| ≤ con.bisectionError hN w := by
  obtain ⟨hlo, hhi⟩ := h.bracket_sums hN w 80
  have hordered : (con.shifts hN w).1 ≤ (con.shifts hN w).2 :=
    (bisect_within _ 80 (h.starts_le hN w)).2.1
  have herror := abs_clippedSum_sub_le (w := w) hordered hlo hhi
  rw [shifts, bisect_width] at herror
  exact herror

end Attainable

end Attainable

section Feasible

variable [IsStrictOrderedRing F] {con}

omit [IsStrictOrderedRing F] in
theorem Feasible.lower_eq (h : con.Feasible N) : con.lower = con.minWeight :=
  max_eq_right h.min_nonneg

omit [IsStrictOrderedRing F] in
/-- A feasible box can be attained. -/
theorem Feasible.attainable (h : con.Feasible N) : con.Attainable N where
  longOnly := h.longOnly
  lower_le := h.lower_eq.trans_le h.min_le_max
  sum_lower := by
    rw [h.lower_eq]
    exact h.sum_min
  sum_max := h.sum_max

/-- Projected weights respect the constraints. -/
theorem projected_respects (h : con.Feasible N) (hN : 0 < N) (w : Weights F N) :
    con.Respects (con.projected hN w) := by
  refine ⟨fun i => ?_, Or.inr ⟨hN, w, rfl, h.attainable.abs_sum_projected_le hN w⟩⟩
  rw [← h.lower_eq]
  exact h.attainable.projected_mem hN w i

end Feasible

end PortfolioConstraints

end QuantumSentinel.Portfolio
