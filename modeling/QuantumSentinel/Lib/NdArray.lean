import Mathlib.Algebra.BigOperators.Group.List.Basic
import Mathlib.Data.Int.Order.Basic
import Mathlib.Data.List.GetD
import Mathlib.Tactic.Ring

/-!
# Arrays and integers of fixed width

An array is its shape and its entries in row-major order, one for each index.  A size that is cast to
an `int` of 32 bits keeps its value as long as it fits.

Main results:

- Definition `NdArray`: arrays of every dimension.
- Definition `NdArray.ofEntries`: an array of three dimensions from its entries.
- Theorem `castInt_eq_iff`: which sizes survive the cast.
-/

namespace QuantumSentinel.Lib

/-- An array: its shape, and its entries in row-major order. -/
structure NdArray (α : Type*) where
  shape : List ℕ
  data : List α
  size : data.length = shape.prod

namespace NdArray

variable {α : Type*}

/-- The entry at an offset of the memory of the array. -/
def read [Zero α] (a : NdArray α) (offset : ℕ) : α :=
  a.data.getD offset 0

/-- An array of one dimension. -/
def ofList (data : List α) : NdArray α where
  shape := [data.length]
  data := data
  size := List.prod_singleton.symm

/-- The entries of an array of three dimensions in row-major order. -/
def entries (l m n : ℕ) (entry : ℕ → ℕ → ℕ → α) : List α :=
  (List.range l).flatMap fun t => (List.range m).flatMap fun i => (List.range n).map (entry t i)

theorem length_entries (l m n : ℕ) (entry : ℕ → ℕ → ℕ → α) :
    (entries l m n entry).length = l * (m * n) := by
  simp [entries, List.length_flatMap]

/-- An array of three dimensions from its entries. -/
def ofEntries (l m n : ℕ) (entry : ℕ → ℕ → ℕ → α) : NdArray α where
  shape := [l, m, n]
  data := entries l m n entry
  size := by
    rw [length_entries, List.prod_cons, List.prod_cons, List.prod_singleton]

theorem ofEntries_congr {l m n : ℕ} {entry entry' : ℕ → ℕ → ℕ → α}
    (h : ∀ t < l, ∀ i < m, ∀ j < n, entry t i j = entry' t i j) :
    ofEntries l m n entry = ofEntries l m n entry' := by
  have hdata : entries l m n entry = entries l m n entry' := by
    refine List.flatMap_congr fun t ht => List.flatMap_congr fun i hi =>
      List.map_congr_left fun j hj => ?_
    rw [List.mem_range] at ht hi hj
    exact h t ht i hi j hj
  simp only [ofEntries, hdata]

end NdArray

/-! ## Integers of 32 bits -/

/-- `static_cast<int>` of a size. -/
def castInt (n : ℕ) : ℤ :=
  Int.bmod n (2 ^ 32)

theorem castInt_lt (n : ℕ) : castInt n < 2 ^ 31 := by
  have hlt : castInt n < ((2 ^ 32 : ℕ) + 1) / 2 := Int.bmod_lt (by norm_num)
  norm_num at hlt ⊢
  exact hlt

/-- Sizes that fit survive the cast, and no others. -/
theorem castInt_eq_iff (n : ℕ) : castInt n = n ↔ n < 2 ^ 31 := by
  constructor
  · intro h
    have hlt := castInt_lt n
    rw [h] at hlt
    exact_mod_cast hlt
  · intro h
    have hcast : (n : ℤ) < 2 ^ 31 := by exact_mod_cast h
    exact Int.bmod_eq_of_le (by omega) (by omega)

end QuantumSentinel.Lib
