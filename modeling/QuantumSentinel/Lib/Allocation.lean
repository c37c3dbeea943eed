import Mathlib.Algebra.BigOperators.Group.List.Basic
import Mathlib.Algebra.Order.Group.Abs
import Mathlib.Algebra.Order.BigOperators.Group.List
import Mathlib.Algebra.Order.Ring.Rat
import Mathlib.Tactic.Linarith

/-!
# Handing out a quantity in order

A quantity is handed out to claimants in a fixed order.  Each one gets what it asks for or what
is left, and nobody gets any more once what is left is within a tolerance.

Main results:

- Definition `allot`: the portions of the claimants that get one.
- Theorem `allot_append`: first come, first served.
- Theorem `portion_near`: the portion of one claimant is what those in front of it leave.
- Theorem `sum_allot_near`: all portions together.
-/

namespace QuantumSentinel.Lib

variable {tol quantity size : ℚ} {sizes front : List ℚ}

/-- The portions of the claimants that get one, in order. -/
def allot (tol : ℚ) : ℚ → List ℚ → List ℚ
  | _, [] => []
  | quantity, size :: rest =>
    if quantity ≤ tol then []
    else min quantity size :: allot tol (quantity - min quantity size) rest

@[simp]
theorem allot_nil (tol quantity : ℚ) : allot tol quantity [] = [] :=
  rfl

theorem allot_of_le (h : quantity ≤ tol) (sizes : List ℚ) : allot tol quantity sizes = [] := by
  cases sizes with
  | nil => rfl
  | cons size rest => exact if_pos h

theorem allot_cons_of_lt (h : tol < quantity) (size : ℚ) (rest : List ℚ) :
    allot tol quantity (size :: rest) =
      min quantity size :: allot tol (quantity - min quantity size) rest :=
  if_neg (not_le.mpr h)

/-- First come, first served. -/
theorem allot_append (tol quantity : ℚ) (sizes sizes' : List ℚ) :
    allot tol quantity (sizes ++ sizes') =
      allot tol quantity sizes ++ allot tol (quantity - (allot tol quantity sizes).sum) sizes' := by
  induction sizes generalizing quantity with
  | nil => simp
  | cons size rest ih =>
    by_cases h : quantity ≤ tol
    · rw [allot_of_le h, allot_of_le h, List.sum_nil, sub_zero, allot_of_le h]
      rfl
    · rw [List.cons_append, allot_cons_of_lt (not_le.mp h), allot_cons_of_lt (not_le.mp h), ih,
        List.sum_cons, sub_sub]
      rfl

/-- Nothing is handed out but what there is. -/
theorem sum_allot_le (h : 0 ≤ quantity) (sizes : List ℚ) :
    (allot tol quantity sizes).sum ≤ quantity := by
  induction sizes generalizing quantity with
  | nil => simpa using h
  | cons size rest ih =>
    by_cases hle : quantity ≤ tol
    · rw [allot_of_le hle]
      simpa using h
    · have hrest := ih (sub_nonneg.mpr (min_le_left quantity size))
      rw [allot_cons_of_lt (not_le.mp hle), List.sum_cons]
      linarith

/-- Nobody gets more than it asks for. -/
theorem sum_allot_le_sum (quantity : ℚ) (hsizes : ∀ size ∈ sizes, 0 ≤ size) :
    (allot tol quantity sizes).sum ≤ sizes.sum := by
  induction sizes generalizing quantity with
  | nil => rfl
  | cons size rest ih =>
    have hrest := ih (quantity - min quantity size) fun s hs =>
      hsizes s (List.mem_cons_of_mem size hs)
    by_cases hle : quantity ≤ tol
    · rw [allot_of_le hle]
      exact List.sum_nonneg hsizes
    · rw [allot_cons_of_lt (not_le.mp hle), List.sum_cons, List.sum_cons]
      exact add_le_add (min_le_right _ _) hrest

/-- When enough is left behind a claimant, it got all it asked for. -/
theorem min_eq_of_lt (htol : 0 ≤ tol) (h : tol < quantity - min quantity size) :
    min quantity size = size := by
  by_contra hne
  have hmin : min quantity size = quantity :=
    min_eq_left (le_of_lt (not_le.mp fun hs => hne (min_eq_right hs)))
  rw [hmin, sub_self] at h
  exact absurd h (not_lt.mpr htol)

/-- When enough is left, everybody got all it asked for. -/
theorem allot_eq_of_lt (htol : 0 ≤ tol) (h : tol < quantity - (allot tol quantity sizes).sum) :
    allot tol quantity sizes = sizes := by
  induction sizes generalizing quantity with
  | nil => rfl
  | cons size rest ih =>
    by_cases hle : quantity ≤ tol
    · rw [allot_of_le hle, List.sum_nil, sub_zero] at h
      exact absurd h (not_lt.mpr hle)
    · rw [allot_cons_of_lt (not_le.mp hle)] at h ⊢
      rw [List.sum_cons, ← sub_sub] at h
      by_cases hlast : quantity - min quantity size ≤ tol
      · rw [allot_of_le hlast, List.sum_nil, sub_zero] at h
        exact absurd h (not_lt.mpr hlast)
      · rw [ih h, min_eq_of_lt htol (not_le.mp hlast)]

/-- What is asked for in front of a claimant leaves as much as was handed out there, when
enough is left. -/
theorem sub_sum_allot (htol : 0 ≤ tol) (hfront : ∀ size ∈ front, 0 ≤ size) :
    quantity - (allot tol quantity front).sum ≤ tol ↔ quantity - front.sum ≤ tol := by
  constructor
  · intro h
    have hle : (allot tol quantity front).sum ≤ front.sum := sum_allot_le_sum quantity hfront
    linarith
  · intro h
    by_contra hlt
    rw [allot_eq_of_lt htol (not_le.mp hlt)] at hlt
    exact hlt h

/-- The portion of a claimant behind those that ask for `ahead`. -/
def portion (tol quantity ahead size : ℚ) : ℚ :=
  if quantity - ahead ≤ tol then 0 else min (quantity - ahead) size

theorem portion_nonneg {tol size : ℚ} (htol : 0 ≤ tol) (hsize : 0 ≤ size) (quantity before : ℚ) :
    0 ≤ portion tol quantity before size := by
  unfold portion
  split
  · exact le_rfl
  · rename_i h
    exact le_min (htol.trans (not_le.mp h).le) hsize

/-- A portion is what is left for the claimant, up to the tolerance. -/
theorem portion_near (htol : 0 ≤ tol) (hsize : 0 ≤ size) (quantity ahead : ℚ) :
    portion tol quantity ahead size ≤ min size (max 0 (quantity - ahead)) ∧
      min size (max 0 (quantity - ahead)) ≤ portion tol quantity ahead size + tol := by
  unfold portion
  split
  · rename_i h
    refine ⟨le_min hsize (le_max_left _ _), ?_⟩
    rw [zero_add]
    exact (min_le_right _ _).trans (max_le htol h)
  · rename_i h
    have hpos : 0 ≤ quantity - ahead := htol.trans (not_le.mp h).le
    rw [max_eq_right hpos, min_comm]
    exact ⟨le_rfl, le_add_of_nonneg_right htol⟩

/-- All portions together are the quantity or all that is asked for, up to the tolerance. -/
theorem sum_allot_near (htol : 0 ≤ tol) (h : 0 ≤ quantity) (hsizes : ∀ size ∈ sizes, 0 ≤ size) :
    (allot tol quantity sizes).sum ≤ min quantity sizes.sum ∧
      min quantity sizes.sum ≤ (allot tol quantity sizes).sum + tol := by
  refine ⟨le_min (sum_allot_le h sizes) (sum_allot_le_sum quantity hsizes), ?_⟩
  by_cases hlt : tol < quantity - (allot tol quantity sizes).sum
  · rw [allot_eq_of_lt htol hlt]
    exact (min_le_right _ _).trans (le_add_of_nonneg_right htol)
  · refine (min_le_left _ _).trans ?_
    linarith [not_lt.mp hlt]

end QuantumSentinel.Lib
