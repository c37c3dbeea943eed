import QuantumSentinel.Backtest.Numbers
import QuantumSentinel.Lib.Doubles

/-!
# Backtests: doubles

The instance on doubles.  Operations on one or two numbers are rounded as binary64 is; sums and
what numpy makes of them, whose order of additions is its own, are a class.

Main results:

- Definition `Reductions`: functions of several doubles, and those of the C library.
- Definition `plainReductions`: they add from the left.
-/

namespace QuantumSentinel.Backtest

open Lib

/-- Functions of several doubles, and functions of the C library. -/
class Reductions where
  sum : List Double → Double
  mean : List Double → Double
  std : List Double → ℕ → Double
  sort : List Double → List Double
  total : List Double → Double
  prod : List Double → Double
  percentile : List Double → Double → Double
  log : Double → Double
  square : Double → Option Double

/-- `np.minimum` or `np.maximum`: `NaN` when one of the numbers is. -/
def npPick (left : Bool) (a b : Double) : Double :=
  if !a.beq a then a else if !b.beq b then b else if left then a else b

instance [Reductions] : NpFloat Double where
  lit := .ofRat
  ofNat n := .ofRat n
  toInt a := if 0 ≤ a.value then a.value.floor else a.value.ceil
  nan := .nan
  negInf := .infinite true
  lt := Double.lt
  le a b := a.lt b || a.beq b
  beq := Double.beq
  abs := Double.abs
  sqrt := Double.sqrt
  round a digits := a.rounded fun x => roundDecimals x digits
  sum := Reductions.sum
  mean := Reductions.mean
  std := Reductions.std
  sort := Reductions.sort
  npMin a b := npPick (a.lt b) a b
  npMax a b := npPick (b.lt a) a b
  sign a := if !a.beq a then a else .ofRat (if a.isZero then 0 else if a.negative then -1 else 1)
  isFinite := Double.isFinite
  log := Reductions.log
  square := Reductions.square
  total := Reductions.total
  prod := Reductions.prod
  columnMean := Reductions.mean
  columnStd := Reductions.std
  percentile := Reductions.percentile

/-- The sum of some doubles, added from the left. -/
def plainSum (values : List Double) : Double :=
  values.foldl (· + ·) (.ofRat 0)

/-- The mean of some doubles. -/
def plainMean (values : List Double) : Double :=
  plainSum values / .ofRat values.length

/-- Doubles in their order. -/
def plainSort (values : List Double) : List Double :=
  values.mergeSort fun a b => a.lt b || a.beq b

/-- The number at a place of the sorted doubles, between its neighbours. -/
def plainPercentile (values : List Double) (q : Double) : Double :=
  let sorted := plainSort values
  let place := q / .ofRat 100 * .ofRat (values.length - 1 : ℕ)
  let index := place.value.floor.toNat
  let lower := sorted.getD index .nan
  let upper := sorted.getD (min (index + 1) (values.length - 1)) .nan
  lower + (upper - lower) * (place - .ofRat index)

/-- Sums and products from the left. -/
@[reducible]
def plainReductions (log : Double → Double) : Reductions where
  sum := plainSum
  mean := plainMean
  std values ddof :=
    let mean := plainMean values
    let squares := values.map fun x => (x - mean) * (x - mean)
    (plainSum squares / .ofRat (values.length - ddof : ℕ)).sqrt
  sort := plainSort
  total := plainSum
  prod values := values.foldl (· * ·) (.ofRat 1)
  percentile := plainPercentile
  log := log
  square a := if (a * a).isFinite || !a.isFinite then some (a * a) else none

end QuantumSentinel.Backtest
