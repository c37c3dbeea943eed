import Mathlib.Algebra.BigOperators.Group.List.Basic
import Mathlib.Algebra.Field.Basic
import Mathlib.Analysis.SpecialFunctions.Log.Basic
import Mathlib.Analysis.SpecialFunctions.Trigonometric.Basic
import QuantumSentinel.Lib.Numerals

/-!
# Real functions and statistics

The functions of the math module as a class, so that computations with them can be read over any
field, and the statistics that are computed from sums and square roots.

Main results:

- Definition `RealFunctions`: the functions, and their instance on the reals.
- Definition `mean` and `std`: statistics of a list of numbers.
- Definition `std?`: the same, missing where it divides by zero.
-/

namespace QuantumSentinel.Lib

/-- The functions of the math module. -/
class RealFunctions (F : Type*) where
  exp : F → F
  log : F → F
  sqrt : F → F
  pi : F

/-- The functions of the math module on the reals. -/
noncomputable instance : RealFunctions ℝ where
  exp := Real.exp
  log := Real.log
  sqrt := Real.sqrt
  pi := Real.pi

section Statistics

variable {F : Type*} [Field F]

/-- `np.mean(values)` -/
def mean (values : List F) : F :=
  values.sum / values.length

/-- The sum of the squared distances to the mean, over the degrees of freedom. -/
def variance (values : List F) (ddof : ℕ) : F :=
  (values.map fun x => (x - mean values) ^ 2).sum / (values.length - ddof)

/-- `np.std(values, ddof)` -/
def std [RealFunctions F] (values : List F) (ddof : ℕ) : F :=
  RealFunctions.sqrt (variance values ddof)

/-- `np.std(values, ddof=1)`, missing for fewer than two numbers. -/
def std? [RealFunctions F] (values : List F) : Option F :=
  if values.length ≤ 1 then none else some (std values 1)

end Statistics

end QuantumSentinel.Lib
