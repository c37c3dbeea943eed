import Mathlib.Algebra.BigOperators.Group.Finset.Basic
import Mathlib.Algebra.Order.Monoid.Defs
import Mathlib.Data.Fin.Tuple.Basic
import Mathlib.Data.List.FinRange
import Mathlib.Data.List.MinMax
import Mathlib.Algebra.BigOperators.Intervals
import Mathlib.Tactic.Abel
import QuantumSentinel.Lib.Numerals

/-!
# Best paths through a trellis

A trellis has a layer of states for every time, a gain for starting in a state, and a gain for
every step from a state of one layer to a state of the next.  The best gain of a path that ends in
a state comes from the best gains of the layer before it, and back pointers recover the path.

Main results:

- Theorem `Trellis.gain_le_best`: no path gains more than the table says.
- Theorem `Trellis.decode_optimal`: the path along the back pointers gains the most.
-/

namespace QuantumSentinel.Lib

variable {n : ℕ} {R : Type*} [LinearOrder R]

/-- The first index with the largest value. -/
def argmax (f : Fin (n + 1) → R) : Fin (n + 1) :=
  ((List.finRange (n + 1)).argmax f).getD 0

/-- No value is larger. -/
theorem le_argmax (f : Fin (n + 1) → R) (k : Fin (n + 1)) : f k ≤ f (argmax f) := by
  unfold argmax
  cases hmax : (List.finRange (n + 1)).argmax f with
  | none =>
    rw [List.argmax_eq_none] at hmax
    exact absurd (List.mem_finRange k) (hmax ▸ List.not_mem_nil)
  | some m => exact List.le_of_mem_argmax (List.mem_finRange k) hmax

/-- The gains of a trellis: for starting in a state, and for a step into the layer of a time. -/
structure Trellis (n : ℕ) (R : Type*) where
  start : Fin (n + 1) → R
  step : ℕ → Fin (n + 1) → Fin (n + 1) → R

namespace Trellis

variable [AddCommMonoid R] (trellis : Trellis n R)

/-- What a path gains up to a time. -/
def gain (path : ℕ → Fin (n + 1)) (t : ℕ) : R :=
  trellis.start (path 0) + ∑ u ∈ Finset.range t, trellis.step (u + 1) (path u) (path (u + 1))

/-- The largest gain of a path that is in a state at a time. -/
def best : ℕ → Fin (n + 1) → R
  | 0, k => trellis.start k
  | t + 1, k =>
    let candidates := fun j => best t j + trellis.step (t + 1) j k
    candidates (argmax candidates)

/-- The state before a state at a time, on the best path. -/
def back (t : ℕ) (k : Fin (n + 1)) : Fin (n + 1) :=
  argmax fun j => trellis.best (t - 1) j + trellis.step t j k

/-- The path along the back pointers, from its last state on. -/
def decodeFrom (last : ℕ) : ℕ → Fin (n + 1)
  | 0 => argmax (trellis.best last)
  | r + 1 => trellis.back (last - r) (decodeFrom last r)

/-- The decoded path up to a time. -/
def decode (last t : ℕ) : Fin (n + 1) :=
  trellis.decodeFrom last (last - t)

variable {trellis}

omit [LinearOrder R] in
theorem gain_succ (path : ℕ → Fin (n + 1)) (t : ℕ) :
    trellis.gain path (t + 1) =
      trellis.gain path t + trellis.step (t + 1) (path t) (path (t + 1)) := by
  rw [gain, gain, Finset.sum_range_succ, add_assoc]

omit [LinearOrder R] in
/-- What a path gains depends on its states so far. -/
theorem gain_congr {path path' : ℕ → Fin (n + 1)} {t : ℕ} (h : ∀ u ≤ t, path u = path' u) :
    trellis.gain path t = trellis.gain path' t := by
  rw [gain, gain, h 0 (Nat.zero_le t)]
  refine congrArg (trellis.start (path' 0) + ·) (Finset.sum_congr rfl fun u hu => ?_)
  have hlt := Finset.mem_range.mp hu
  rw [h u hlt.le, h (u + 1) hlt]

/-- The table goes through the back pointers. -/
theorem best_succ (t : ℕ) (k : Fin (n + 1)) :
    trellis.best (t + 1) k =
      trellis.best t (trellis.back (t + 1) k) +
        trellis.step (t + 1) (trellis.back (t + 1) k) k :=
  rfl

/-- The decoded path goes along the back pointers. -/
theorem decode_back {last t : ℕ} (ht : t < last) :
    trellis.decode last t = trellis.back (t + 1) (trellis.decode last (t + 1)) := by
  have hsteps : last - t = (last - (t + 1)) + 1 := by omega
  have htime : last - (last - (t + 1)) = t + 1 := by omega
  rw [decode, hsteps, decodeFrom, htime]
  rfl

/-- Along back pointers a path gains what the table says. -/
theorem gain_of_back {path : ℕ → Fin (n + 1)} {last : ℕ}
    (hback : ∀ t < last, path t = trellis.back (t + 1) (path (t + 1))) {t : ℕ} (ht : t ≤ last) :
    trellis.gain path t = trellis.best t (path t) := by
  induction t with
  | zero => rw [gain, Finset.range_zero, Finset.sum_empty, add_zero, best]
  | succ t ih => rw [gain_succ, ih (by omega), best_succ, ← hback t ht]

variable [IsOrderedAddMonoid R]

/-- No path gains more than the table says. -/
theorem gain_le_best (path : ℕ → Fin (n + 1)) (t : ℕ) :
    trellis.gain path t ≤ trellis.best t (path t) := by
  induction t with
  | zero => rw [gain, Finset.range_zero, Finset.sum_empty, add_zero, best]
  | succ t ih =>
    calc trellis.gain path (t + 1)
        = trellis.gain path t + trellis.step (t + 1) (path t) (path (t + 1)) :=
          gain_succ path t
      _ ≤ trellis.best t (path t) + trellis.step (t + 1) (path t) (path (t + 1)) := by gcongr
      _ ≤ trellis.best (t + 1) (path (t + 1)) :=
          le_argmax (fun j => trellis.best t j + trellis.step (t + 1) j (path (t + 1))) (path t)

/-- The decoded path gains the most. -/
theorem decode_optimal (path : ℕ → Fin (n + 1)) (last : ℕ) :
    trellis.gain path last ≤ trellis.gain (trellis.decode last) last := by
  have hdecoded : trellis.gain (trellis.decode last) last =
      trellis.best last (trellis.decode last last) :=
    gain_of_back (fun _ ht => decode_back ht) le_rfl
  have hlast : trellis.decode last last = argmax (trellis.best last) := by
    rw [decode, Nat.sub_self, decodeFrom]
  rw [hdecoded, hlast]
  exact (gain_le_best path last).trans (le_argmax (trellis.best last) (path last))

end Trellis

end QuantumSentinel.Lib
