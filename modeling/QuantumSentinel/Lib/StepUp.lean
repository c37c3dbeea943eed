import Mathlib.Data.List.Nodup
import Mathlib.Data.List.Sort
import Mathlib.Order.Bounds.Basic
import Mathlib.Order.MinMax
import Mathlib.Tactic.Tauto

/-!
# Step-up procedures

Lists in ascending order, whose ranks are told by counting, and the running minimum of a list from
its end, which a step-up procedure compares with a level.

Main results:

- Theorem `getElem_le_iff_lt_countP`: which ranks of an ascending list are at most a bound.
- Theorem `foldr_min_le_iff` and `foldr_min_lt_iff`: when a running minimum is at most a
  bound, or below it.
- Theorem `isLeast_foldr_min`: the running minimum is a minimum.
-/

namespace QuantumSentinel.Lib

variable {F : Type*} [LinearOrder F]

/-! ## Ranks -/

/-- In an ascending list the elements up to a bound come first. -/
theorem getElem_le_iff_lt_countP {l : List F} (hsorted : l.Pairwise (· ≤ ·)) {j : ℕ}
    (hj : j < l.length) (y : F) : l[j] ≤ y ↔ j < l.countP (· ≤ y) := by
  induction l generalizing j with
  | nil => cases hj
  | cons a rest ih =>
    obtain ⟨hfirst, hrest⟩ := List.pairwise_cons.mp hsorted
    by_cases ha : a ≤ y
    · rw [List.countP_cons_of_pos (by simpa using ha)]
      cases j with
      | zero => simpa using ha
      | succ j =>
        rw [List.getElem_cons_succ, ih hrest (by simpa using hj), Nat.succ_lt_succ_iff]
    · have hnone : rest.countP (· ≤ y) = 0 := by
        rw [List.countP_eq_zero]
        intro x hx hxy
        exact ha ((hfirst x hx).trans (of_decide_eq_true hxy))
      rw [List.countP_cons_of_neg (by simpa using ha), hnone]
      cases j with
      | zero => simpa using ha
      | succ j =>
        rw [List.getElem_cons_succ]
        exact iff_of_false (fun hle => ha ((hfirst _ (List.getElem_mem _)).trans hle))
          (Nat.not_lt_zero _)

/-- An ascending list holds an element at the last of its ranks. -/
theorem getElem_countP_eq {l : List F} (hsorted : l.Pairwise (· ≤ ·)) {y : F} (hy : y ∈ l) :
    0 < l.countP (· ≤ y) ∧ ∃ hlt : l.countP (· ≤ y) - 1 < l.length,
      l[l.countP (· ≤ y) - 1] = y := by
  obtain ⟨i, hi, rfl⟩ := List.getElem_of_mem hy
  have hbelow := (getElem_le_iff_lt_countP hsorted hi l[i]).mp le_rfl
  have hcount : l.countP (· ≤ l[i]) ≤ l.length := List.countP_le_length
  have hlt : l.countP (· ≤ l[i]) - 1 < l.length := by omega
  refine ⟨by omega, hlt, le_antisymm ?_ ?_⟩
  · exact (getElem_le_iff_lt_countP hsorted hlt l[i]).mpr (by omega)
  · rcases (show i ≤ l.countP (· ≤ l[i]) - 1 by omega).eq_or_lt with heq | hlt'
    · exact le_of_eq (by congr 1)
    · exact List.pairwise_iff_getElem.mp hsorted _ _ hi hlt hlt'

/-! ## Running minima -/

theorem foldr_min_le_iff (l : List F) (cap t : F) :
    l.foldr min cap ≤ t ↔ cap ≤ t ∨ ∃ x ∈ l, x ≤ t := by
  induction l with
  | nil => simp
  | cons a rest ih =>
    rw [List.foldr_cons, min_le_iff, ih]
    simp only [List.mem_cons, exists_eq_or_imp]
    tauto

theorem foldr_min_lt_iff (l : List F) (cap t : F) :
    l.foldr min cap < t ↔ cap < t ∨ ∃ x ∈ l, x < t := by
  induction l with
  | nil => simp
  | cons a rest ih =>
    rw [List.foldr_cons, min_lt_iff, ih]
    simp only [List.mem_cons, exists_eq_or_imp]
    tauto

/-- The running minimum of a list that is not empty is the least of its elements, each of them
capped. -/
theorem isLeast_foldr_min {l : List F} (cap : F) (hl : l ≠ []) :
    IsLeast {b | ∃ x ∈ l, b = min cap x} (l.foldr min cap) := by
  constructor
  · have hreached := (foldr_min_le_iff l cap (l.foldr min cap)).mp le_rfl
    have hcap : l.foldr min cap ≤ cap := (foldr_min_le_iff l cap cap).mpr (Or.inl le_rfl)
    have hbelow : ∀ x ∈ l, l.foldr min cap ≤ x := fun x hx =>
      (foldr_min_le_iff l cap x).mpr (Or.inr ⟨x, hx, le_rfl⟩)
    rcases hreached with hle | ⟨x, hx, hle⟩
    · obtain ⟨x, hx⟩ := List.exists_mem_of_ne_nil l hl
      have heq := le_antisymm hcap hle
      refine ⟨x, hx, ?_⟩
      rw [heq, min_eq_left]
      exact heq ▸ hbelow x hx
    · have heq := le_antisymm (hbelow x hx) hle
      refine ⟨x, hx, ?_⟩
      rw [← heq, min_eq_right hcap]
  · rintro b ⟨x, hx, rfl⟩
    exact le_min ((foldr_min_le_iff l cap cap).mpr (Or.inl le_rfl))
      ((foldr_min_le_iff l cap x).mpr (Or.inr ⟨x, hx, le_rfl⟩))

end QuantumSentinel.Lib
