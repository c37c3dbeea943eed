import Mathlib.Algebra.Order.BigOperators.Group.List
import Mathlib.Algebra.Order.Field.Basic
import Mathlib.Algebra.BigOperators.Ring.List

/-!
# Pools of shares bought at different prices

Shares that are still held, by purchase.  A sale takes the same fraction out of every purchase, and
so out of their cost.

Main results:

- Theorem `Pool.value_keep`: a sale takes its fraction of the cost.
- Theorem `Pool.value_eq`: the cost is the number of shares times their average cost.
-/

namespace QuantumSentinel.Lib

/-- Purchases: how many shares of each are still held, and what one cost. -/
abbrev Pool (K : Type*) := List (K × K)

namespace Pool

variable {K : Type*} [Field K]

/-- The number of shares held. -/
def size (pool : Pool K) : K :=
  (pool.map Prod.fst).sum

/-- What the shares held cost. -/
def value (pool : Pool K) : K :=
  (pool.map fun p => p.1 * p.2).sum

/-- What one of the shares held cost on average. -/
def averageCost (pool : Pool K) : K :=
  pool.value / pool.size

/-- One more purchase. -/
def buy (quantity price : K) (pool : Pool K) : Pool K :=
  (quantity, price) :: pool

/-- A fraction of every purchase. -/
def keep (fraction : K) (pool : Pool K) : Pool K :=
  pool.map fun p => (fraction * p.1, p.2)

@[simp]
theorem size_nil : size ([] : Pool K) = 0 :=
  rfl

@[simp]
theorem value_nil : value ([] : Pool K) = 0 :=
  rfl

@[simp]
theorem size_buy (quantity price : K) (pool : Pool K) :
    (pool.buy quantity price).size = quantity + pool.size := by
  simp [size, buy]

@[simp]
theorem value_buy (quantity price : K) (pool : Pool K) :
    (pool.buy quantity price).value = quantity * price + pool.value := by
  simp [value, buy]

@[simp]
theorem size_keep (fraction : K) (pool : Pool K) :
    (pool.keep fraction).size = fraction * pool.size := by
  unfold size keep
  rw [List.map_map, ← List.sum_map_mul_left]
  rfl

/-- A fraction of the shares cost that fraction. -/
@[simp]
theorem value_keep (fraction : K) (pool : Pool K) :
    (pool.keep fraction).value = fraction * pool.value := by
  unfold value keep
  rw [List.map_map, ← List.sum_map_mul_left]
  exact congrArg List.sum (List.map_congr_left fun p _ => mul_assoc ..)

variable [LinearOrder K]

/-- The shares left when so many of them are sold, or all when there are fewer. -/
def sell (quantity : K) (pool : Pool K) : Pool K :=
  pool.keep (max 0 (pool.size - quantity) / pool.size)

/-- No purchase is held short. -/
def Long (pool : Pool K) : Prop :=
  ∀ p ∈ pool, 0 ≤ p.1

theorem Long.buy {pool : Pool K} (h : pool.Long) {quantity : K} (hquantity : 0 ≤ quantity)
    (price : K) : (pool.buy quantity price).Long := by
  intro p hp
  rcases List.mem_cons.mp hp with rfl | hmem
  · exact hquantity
  · exact h p hmem

section Ordered

variable [IsStrictOrderedRing K]

theorem Long.size_nonneg {pool : Pool K} (h : pool.Long) : 0 ≤ pool.size :=
  List.sum_nonneg fun x hx => by
    obtain ⟨p, hp, rfl⟩ := List.mem_map.mp hx
    exact h p hp

theorem Long.sell {pool : Pool K} (h : pool.Long) (quantity : K) : (pool.sell quantity).Long := by
  intro p hp
  obtain ⟨q, hq, rfl⟩ := List.mem_map.mp hp
  exact mul_nonneg (div_nonneg (le_max_left ..) h.size_nonneg) (h q hq)

/-- What is left after a sale. -/
theorem Long.size_sell {pool : Pool K} (h : pool.Long) {quantity : K} (hquantity : 0 ≤ quantity) :
    (pool.sell quantity).size = max 0 (pool.size - quantity) := by
  rw [Pool.sell, size_keep]
  rcases h.size_nonneg.eq_or_lt with hzero | hpos
  · rw [← hzero, div_zero, zero_mul, max_eq_left (sub_nonpos.mpr hquantity)]
  · exact div_mul_cancel₀ _ hpos.ne'

/-- Shares of which none is left cost nothing. -/
theorem Long.value_of_size {pool : Pool K} (h : pool.Long) (hsize : pool.size = 0) :
    pool.value = 0 := by
  refine List.sum_eq_zero fun x hx => ?_
  obtain ⟨p, hp, rfl⟩ := List.mem_map.mp hx
  have hzero : p.1 = 0 := by
    refine le_antisymm ?_ (h p hp)
    rw [← hsize]
    exact List.single_le_sum (fun y hy => by
      obtain ⟨q, hq, rfl⟩ := List.mem_map.mp hy
      exact h q hq) _ (List.mem_map_of_mem hp)
  rw [hzero, zero_mul]

/-- The cost is the number of shares times their average cost. -/
theorem Long.value_eq {pool : Pool K} (h : pool.Long) :
    pool.value = pool.size * pool.averageCost := by
  by_cases hsize : pool.size = 0
  · rw [h.value_of_size hsize, hsize, zero_mul]
  · rw [averageCost, mul_div_cancel₀ _ hsize]

end Ordered

end Pool

end QuantumSentinel.Lib
