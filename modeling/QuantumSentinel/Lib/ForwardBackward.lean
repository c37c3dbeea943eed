import Mathlib.Algebra.BigOperators.Fin
import Mathlib.Algebra.BigOperators.Ring.Finset
import Mathlib.Algebra.Order.BigOperators.Group.Finset
import Mathlib.Algebra.Order.Ring.Defs
import Mathlib.Data.Fintype.BigOperators
import QuantumSentinel.Lib.Numerals

/-!
# Sums over the paths of a chain

A chain has a weight for starting in a state and a weight for every step; a path weighs the product.
The weight of all paths that are in a state at a time is the product of what comes to the state from
the front and what leaves it to the back.

Main results:

- Theorem `Chain.sum_weight`: the weight of all paths, cut at any time.
- Theorem `Chain.sum_weight_at`: the weight of the paths through a state.
- Theorem `Chain.sum_weight_step`: the weight of the paths through a step.
-/

namespace QuantumSentinel.Lib

variable {K F : Type*}

/-- The weights of a chain: of starting in a state, and of a step into a state at a time. -/
structure Chain (K F : Type*) where
  start : K → F
  step : ℕ → K → K → F

namespace Chain

variable [CommSemiring F]

/-- The weight of a path. -/
def weight (chain : Chain K F) (last : ℕ) (path : Fin (last + 1) → K) : F :=
  chain.start (path 0) *
    ∏ u : Fin last, chain.step (u + 1) (path u.castSucc) (path u.succ)

/-- The chain whose paths are in a state at a time. -/
def through [DecidableEq K] (chain : Chain K F) (t : ℕ) (k : K) : Chain K F where
  start j := if t = 0 ∧ j ≠ k then 0 else chain.start j
  step u i j := if t = u ∧ j ≠ k then 0 else chain.step u i j

variable [Fintype K]

/-- The weight of all paths up to a time that end in a state. -/
def forward (chain : Chain K F) : ℕ → K → F
  | 0 => chain.start
  | t + 1 => fun k => ∑ j, chain.forward t j * chain.step (t + 1) j k

/-- The weight of all paths of so many steps from a state at a time. -/
def backward (chain : Chain K F) : ℕ → ℕ → K → F
  | _, 0 => fun _ => 1
  | t, r + 1 => fun k => ∑ j, chain.step (t + 1) k j * chain.backward (t + 1) r j

variable {chain chain' : Chain K F}

/-- What comes from the front depends on the steps so far. -/
theorem forward_congr (hstart : chain.start = chain'.start) {t : ℕ}
    (hstep : ∀ u ≤ t, chain.step u = chain'.step u) : chain.forward t = chain'.forward t := by
  induction t with
  | zero => exact hstart
  | succ t ih =>
    have hprev := ih fun u hu => hstep u (hu.trans (Nat.le_succ t))
    funext k
    simp only [forward, hprev, hstep (t + 1) le_rfl]

/-- What leaves to the back depends on the steps to come. -/
theorem backward_congr {t r : ℕ} (hstep : ∀ u, t < u → chain.step u = chain'.step u) :
    chain.backward t r = chain'.backward t r := by
  induction r generalizing t with
  | zero => rfl
  | succ r ih =>
    have hnext := ih (t := t + 1) fun u hu => hstep u (by omega)
    funext k
    simp only [backward, hnext, hstep (t + 1) (Nat.lt_succ_self t)]

section Positive

variable [LinearOrder F] [IsStrictOrderedRing F] [Nonempty K]

/-- With positive weights every state is reached from the front. -/
theorem forward_pos (hstart : ∀ k, 0 < chain.start k) (hstep : ∀ t j k, 0 < chain.step t j k)
    (t : ℕ) (k : K) : 0 < chain.forward t k := by
  induction t generalizing k with
  | zero => exact hstart k
  | succ t ih =>
    exact Finset.sum_pos (fun j _ => mul_pos (ih j) (hstep (t + 1) j k)) Finset.univ_nonempty

/-- With positive weights every state is left to the back. -/
theorem backward_pos (hstep : ∀ t j k, 0 < chain.step t j k) (t r : ℕ) (k : K) :
    0 < chain.backward t r k := by
  induction r generalizing t k with
  | zero => exact one_pos
  | succ r ih =>
    exact Finset.sum_pos (fun j _ => mul_pos (hstep (t + 1) k j) (ih (t + 1) j))
      Finset.univ_nonempty

end Positive

/-! ## All paths -/

/-- The weight of all paths of so many steps, when their first states have weights. -/
theorem sum_paths_from (chain : Chain K F) (first : K → F) (t r : ℕ) :
    ∑ path : Fin (r + 1) → K, first (path 0) *
        ∏ u : Fin r, chain.step (t + u + 1) (path u.castSucc) (path u.succ) =
      ∑ k, first k * chain.backward t r k := by
  induction r generalizing first t with
  | zero =>
    rw [← (Equiv.funUnique (Fin 1) K).symm.sum_comp]
    simp [backward]
  | succ r ih =>
    rw [← (Fin.consEquiv fun _ : Fin (r + 2) => K).sum_comp, Fintype.sum_prod_type]
    refine Finset.sum_congr rfl fun k _ => ?_
    have hrest := ih (fun j => first k * chain.step (t + 1) k j) (t + 1)
    calc ∑ path : Fin (r + 1) → K, first k * ∏ u : Fin (r + 1),
          chain.step (t + u + 1) (Fin.cons (α := fun _ => K) k path u.castSucc)
            (Fin.cons (α := fun _ => K) k path u.succ)
        = ∑ path : Fin (r + 1) → K, first k * chain.step (t + 1) k (path 0) *
            ∏ u : Fin r, chain.step (t + 1 + u + 1) (path u.castSucc) (path u.succ) := by
          refine Finset.sum_congr rfl fun path _ => ?_
          rw [Fin.prod_univ_succ, mul_assoc]
          refine congrArg (first k * ·) (congrArg₂ (· * ·) rfl ?_)
          refine Finset.prod_congr rfl fun u _ => ?_
          rw [Fin.castSucc_succ, Fin.cons_succ, Fin.cons_succ, Fin.val_succ,
            show t + (u.1 + 1) + 1 = t + 1 + u.1 + 1 by omega]
      _ = ∑ j, first k * chain.step (t + 1) k j * chain.backward (t + 1) r j := hrest
      _ = first k * chain.backward t (r + 1) k := by
          rw [backward, Finset.mul_sum]
          exact Finset.sum_congr rfl fun j _ => mul_assoc ..

/-- One step from the front to the back. -/
theorem sum_forward_backward_succ (chain : Chain K F) (t r : ℕ) :
    ∑ k, chain.forward (t + 1) k * chain.backward (t + 1) r k =
      ∑ k, chain.forward t k * chain.backward t (r + 1) k := by
  simp only [forward, backward, Finset.sum_mul, Finset.mul_sum]
  rw [Finset.sum_comm]
  exact Finset.sum_congr rfl fun j _ => Finset.sum_congr rfl fun k _ => mul_assoc ..

/-- The weight of all paths, cut at a time. -/
theorem sum_weight (chain : Chain K F) {last t : ℕ} (ht : t ≤ last) :
    ∑ path, chain.weight last path =
      ∑ k, chain.forward t k * chain.backward t (last - t) k := by
  induction t with
  | zero =>
    have hall := chain.sum_paths_from chain.start 0 last
    simp only [Nat.zero_add] at hall
    exact hall
  | succ t ih =>
    have hleft : last - t = last - (t + 1) + 1 := by omega
    rw [ih (by omega), sum_forward_backward_succ, ← hleft]

/-! ## Paths through a state -/

variable [DecidableEq K]

omit [Fintype K] in
/-- Starting elsewhere than asked for weighs nothing. -/
theorem through_start (chain : Chain K F) (t : ℕ) (k j : K) :
    (chain.through t k).start j = if t = 0 ∧ j ≠ k then 0 else chain.start j :=
  rfl

omit [Fintype K] in
/-- A step elsewhere than asked for weighs nothing. -/
theorem through_step (chain : Chain K F) (t u : ℕ) (k i j : K) :
    (chain.through t k).step u i j = if t = u ∧ j ≠ k then 0 else chain.step u i j :=
  rfl

omit [Fintype K] in
/-- Steps of other times are those of the chain. -/
theorem through_step_other (chain : Chain K F) {t u : ℕ} (htime : t ≠ u) (k : K) :
    (chain.through t k).step u = chain.step u := by
  funext i j
  rw [through_step, if_neg fun h => htime h.1]

omit [Fintype K] in
/-- A path weighs what it did when it is in the state at the time, and else nothing. -/
theorem weight_through (chain : Chain K F) {last t : ℕ} (ht : t ≤ last) (k : K)
    (path : Fin (last + 1) → K) :
    (chain.through t k).weight last path =
      if path ⟨t, Nat.lt_succ_of_le ht⟩ = k then chain.weight last path else 0 := by
  split
  · rename_i hat
    have hstart : (chain.through t k).start (path 0) = chain.start (path 0) := by
      rw [through_start, if_neg]
      rintro ⟨rfl, hne⟩
      exact hne hat
    have hstep : ∀ u : Fin last, (chain.through t k).step (u + 1) (path u.castSucc) (path u.succ) =
        chain.step (u + 1) (path u.castSucc) (path u.succ) := by
      intro u
      rw [through_step, if_neg]
      rintro ⟨rfl, hne⟩
      exact hne hat
    rw [weight, weight, hstart]
    exact congrArg (chain.start (path 0) * ·) (Finset.prod_congr rfl fun u _ => hstep u)
  · rename_i hother
    cases t with
    | zero => rw [weight, through_start, if_pos ⟨rfl, hother⟩, zero_mul]
    | succ t =>
      have hstep : (chain.through (t + 1) k).step (t + 1) (path (Fin.castSucc ⟨t, ht⟩))
          (path (Fin.succ ⟨t, ht⟩)) = 0 := by
        rw [through_step, if_pos ⟨rfl, hother⟩]
      rw [weight, Finset.prod_eq_zero (Finset.mem_univ ⟨t, ht⟩) hstep, mul_zero]

/-- What comes before the time is what came. -/
theorem forward_before (chain : Chain K F) (t : ℕ) (k : K) :
    (chain.through (t + 1) k).forward t = chain.forward t := by
  refine forward_congr ?_ fun u hu => chain.through_step_other (by omega) k
  funext i
  rw [through_start, if_neg fun h => Nat.succ_ne_zero t h.1]

/-- Only the state of the time is reached from the front. -/
theorem forward_through (chain : Chain K F) (t : ℕ) (k j : K) :
    (chain.through t k).forward t j = if j = k then chain.forward t j else 0 := by
  cases t with
  | zero =>
    rw [forward, forward, through_start]
    by_cases hj : j = k
    · rw [if_pos hj, if_neg fun h => h.2 hj]
    · rw [if_neg hj, if_pos ⟨rfl, hj⟩]
  | succ t =>
    simp only [forward, forward_before]
    by_cases hj : j = k
    · rw [if_pos hj]
      refine Finset.sum_congr rfl fun i _ => ?_
      rw [through_step, if_neg fun h => h.2 hj]
    · rw [if_neg hj]
      refine Finset.sum_eq_zero fun i _ => ?_
      rw [through_step, if_pos ⟨rfl, hj⟩, mul_zero]

/-- The steps to come are those of the chain. -/
theorem backward_through (chain : Chain K F) (t r : ℕ) (k : K) :
    (chain.through t k).backward t r = chain.backward t r :=
  backward_congr fun _ hu => chain.through_step_other hu.ne k

/-- The weight of the paths through a state. -/
theorem sum_weight_at (chain : Chain K F) {last t : ℕ} (ht : t ≤ last) (k : K) :
    ∑ path with path ⟨t, Nat.lt_succ_of_le ht⟩ = k, chain.weight last path =
      chain.forward t k * chain.backward t (last - t) k := by
  rw [Finset.sum_filter]
  calc ∑ path : Fin (last + 1) → K,
        (if path ⟨t, Nat.lt_succ_of_le ht⟩ = k then chain.weight last path else 0)
      = ∑ path, (chain.through t k).weight last path :=
        Finset.sum_congr rfl fun path _ => (chain.weight_through ht k path).symm
    _ = ∑ j, (if j = k then chain.forward t j else 0) * chain.backward t (last - t) j := by
        rw [(chain.through t k).sum_weight ht, backward_through]
        exact Finset.sum_congr rfl fun j _ => by rw [forward_through]
    _ = chain.forward t k * chain.backward t (last - t) k := by
        rw [Finset.sum_eq_single k (fun j _ hj => by rw [if_neg hj, zero_mul])
          fun hk => absurd (Finset.mem_univ k) hk, if_pos rfl]

/-- The weight of the paths through a step. -/
theorem sum_weight_step (chain : Chain K F) {last t : ℕ} (ht : t < last) (i j : K) :
    ∑ path with path ⟨t, by omega⟩ = i ∧ path ⟨t + 1, by omega⟩ = j,
        chain.weight last path =
      chain.forward t i * chain.step (t + 1) i j * chain.backward (t + 1) (last - (t + 1)) j := by
  have hback : (chain.through (t + 1) j).backward t (last - t) i =
      chain.step (t + 1) i j * chain.backward (t + 1) (last - (t + 1)) j := by
    rw [show last - t = last - (t + 1) + 1 by omega, backward, backward_through]
    refine (Finset.sum_eq_single j ?_ fun hj => absurd (Finset.mem_univ j) hj).trans ?_
    · intro j' _ hj'
      rw [through_step, if_pos ⟨rfl, hj'⟩, zero_mul]
    · rw [through_step, if_neg fun h => h.2 rfl]
  have hat := (chain.through (t + 1) j).sum_weight_at ht.le i
  rw [forward_before, hback, ← mul_assoc] at hat
  rw [← hat, Finset.sum_filter, Finset.sum_filter]
  refine Finset.sum_congr rfl fun path _ => ?_
  rw [weight_through chain ht j path, ← ite_and]

end Chain

end QuantumSentinel.Lib
