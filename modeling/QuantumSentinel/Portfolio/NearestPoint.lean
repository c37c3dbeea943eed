import Mathlib.Algebra.BigOperators.Fin
import QuantumSentinel.Lib.NearestPoint
import QuantumSentinel.Portfolio.Projection

/-!
# Portfolios: the projection is one

What `_project_simplex` returns, for every box that can be attained: the weights keep their
order, miss the sum of one by the error of the bisection, and belong to a shift next to an exact one,
whose weights are the nearest point of the box with a sum of one.

Main results:

- Theorem `PortfolioConstraints.Attainable.projected_mono`: the weights keep their order.
- Theorem `PortfolioConstraints.Attainable.exists_exact`: the exact shift that the bisection
  brackets at every step.
- Theorem `PortfolioConstraints.projection_nearest`: all of this.
-/

namespace QuantumSentinel.Portfolio
namespace PortfolioConstraints

open Lib

variable {N : ℕ}

namespace Attainable

section Ordered

variable {F : Type*} [Field F] [LinearOrder F] [IsStrictOrderedRing F] {con : PortfolioConstraints F}

/-- Larger weights stay larger, or are clipped to the same one. -/
theorem projected_mono (hN : 0 < N) {w : Weights F N} {i j : Fin N} (hij : w i ≤ w j) :
    con.projected hN w i ≤ con.projected hN w j :=
  clipTo_mono _ _ (sub_le_sub_right hij _)

/-- The sum misses one by at most the whole extent of the shifts, halved eighty times, for each
weight. -/
theorem abs_sum_projected_le_extent (h : con.Attainable N) (hN : 0 < N) (w : Weights F N) :
    |∑ i, con.projected hN w i - 1| ≤
      N * (greatest hN w - least hN w + con.maxWeight - con.lower) / 2 ^ 80 := by
  refine (h.abs_sum_projected_le hN w).trans ?_
  have hextent : 0 ≤ (N : F) * (greatest hN w - least hN w + con.maxWeight - con.lower) / 2 ^ 80 := by
    have hstarts := h.starts_le hN w
    have hwide : 0 ≤ greatest hN w - least hN w + con.maxWeight - con.lower := by linarith
    positivity
  have hhalf : con.bisectionError hN w =
      (N : F) * (greatest hN w - least hN w + con.maxWeight - con.lower) / 2 ^ 80 / 2 := by
    rw [bisectionError]
    ring
  rw [hhalf]
  linarith

end Ordered

/-- Some exact shift lies between the two ends after each halving. -/
theorem exists_exact {con : PortfolioConstraints ℝ} (h : con.Attainable N) (hN : 0 < N)
    (w : Weights ℝ N) :
    ∃ theta, clippedSum con.lower con.maxWeight w theta = 1 ∧
      ∀ k ≤ 80, (con.bracket hN w k).1 ≤ theta ∧ theta ≤ (con.bracket hN w k).2 := by
  obtain ⟨hlo, hhi⟩ := h.bracket_sums hN w 80
  have hordered : (con.bracket hN w 80).1 ≤ (con.bracket hN w 80).2 :=
    (bisect_within _ 80 (h.starts_le hN w)).2.1
  obtain ⟨theta, hlow, hhigh, hexact⟩ := exists_clippedSum_eq hordered hlo hhi
  refine ⟨theta, hexact, fun k hk => ?_⟩
  obtain ⟨hfirst, hsecond⟩ := bisect_nested
    (fun theta => 1 < clippedSum con.lower con.maxWeight w theta) hk (h.starts_le hN w)
  exact ⟨hfirst.trans hlow, hhigh.trans hsecond⟩

end Attainable

/-- For every long-only box that can be attained and every row of weights, the projection returns
weights in the box, in the order of the row, whose sum is one up to the error of the bisection; some
shift that gives a sum of exactly one lies between the ends of every step, and the weights of every
such shift are the one nearest point. -/
theorem projection_nearest {con : PortfolioConstraints ℝ} (h : con.Attainable N) (hN : 0 < N)
    (w : Weights ℝ N) :
    ∃ v, con.projectSimplex w = .ok v ∧
      (∀ i, con.lower ≤ v i ∧ v i ≤ con.maxWeight) ∧
      |∑ i, v i - 1| ≤ N * (greatest hN w - least hN w + con.maxWeight - con.lower) / 2 ^ 80 ∧
      (∀ i j, w i ≤ w j → v i ≤ v j) ∧
      (∃ theta, clippedSum con.lower con.maxWeight w theta = 1 ∧
        ∀ k ≤ 80, (con.bracket hN w k).1 ≤ theta ∧ theta ≤ (con.bracket hN w k).2) ∧
      ∀ theta, clippedSum con.lower con.maxWeight w theta = 1 →
        clippedRow con.lower con.maxWeight w theta ∈ boxWithSum N con.lower con.maxWeight 1 ∧
          ∀ x ∈ boxWithSum N con.lower con.maxWeight 1,
            x ≠ clippedRow con.lower con.maxWeight w theta →
              sqDist (clippedRow con.lower con.maxWeight w theta) w < sqDist x w := by
  refine ⟨_, h.projectSimplex_eq hN w, h.projected_mem hN w, h.abs_sum_projected_le_extent hN w,
    fun i j hij => Attainable.projected_mono hN hij, h.exists_exact hN w, ?_⟩
  intro theta hexact
  rw [← hexact]
  exact ⟨clippedRow_mem h.lower_le w theta, fun x hx hne => sqDist_clipped_lt hx hne⟩

/-- Three weights of at most a half. -/
noncomputable def halves : PortfolioConstraints ℝ where
  longOnly := true
  minWeight := 0
  maxWeight := 1 / 2

theorem halves_lower : halves.lower = 0 :=
  max_eq_left le_rfl

theorem halves_attainable : halves.Attainable 3 where
  longOnly := rfl
  lower_le := by
    rw [halves_lower]
    norm_num [halves]
  sum_lower := by
    rw [halves_lower]
    norm_num
  sum_max := by norm_num [halves]

/-- The shift at which the first weight is clipped. -/
theorem clippedRow_halves :
    clippedRow halves.lower halves.maxWeight ![1, 0, 0] (-1 / 4) = ![1 / 2, 1 / 4, 1 / 4] := by
  have hmax : halves.maxWeight = 1 / 2 := rfl
  funext i
  rw [halves_lower, hmax]
  fin_cases i <;> norm_num [clippedRow, clipTo]

theorem projection_nearest_halves :
    ∃ v, halves.projectSimplex ![1, 0, 0] = .ok v ∧ v 1 ≤ v 0 ∧
      ∀ x ∈ boxWithSum 3 halves.lower halves.maxWeight 1, x ≠ ![1 / 2, 1 / 4, 1 / 4] →
        sqDist ![1 / 2, 1 / 4, 1 / 4] ![1, 0, 0] < sqDist x ![1, 0, 0] := by
  obtain ⟨v, hv, -, -, hordered, -, hnearest⟩ :=
    projection_nearest halves_attainable (by decide) ![1, 0, 0]
  have hexact : clippedSum halves.lower halves.maxWeight ![1, 0, 0] (-1 / 4) = 1 := by
    have hsum : clippedSum halves.lower halves.maxWeight ![1, 0, 0] (-1 / 4) =
        ∑ i, clippedRow halves.lower halves.maxWeight ![1, 0, 0] (-1 / 4) i := rfl
    rw [hsum, clippedRow_halves, Fin.sum_univ_three]
    show (1 / 2 + 1 / 4 + 1 / 4 : ℝ) = 1
    norm_num
  obtain ⟨-, hfarther⟩ := hnearest (-1 / 4) hexact
  rw [clippedRow_halves] at hfarther
  exact ⟨v, hv, hordered 1 0 (by norm_num), hfarther⟩

end PortfolioConstraints
end QuantumSentinel.Portfolio
