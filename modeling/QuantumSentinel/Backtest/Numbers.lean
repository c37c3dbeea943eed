import QuantumSentinel.Lib.Rounding
import QuantumSentinel.Lib.Series

/-!
# Backtests: the numbers they compute with

The backtest engines compute with Python floats and numpy arrays of them.  What they rely on is
kept as a class: the operations, the literals, and the reductions of numpy, each of them a
function of the numbers it is given.  Nothing is assumed about rounding, overflow or `NaN`,
so that a result about every instance is a result about doubles.

Main results:

- Definition `PyFloat`: floats and the reductions over them.
- Definition `pyMin` and `pyMax`: the comparison that decides ties and `NaN`.

Current gaps:

- The instance on exact numbers has one infinity, below every double, and no signed zero.
-/

namespace QuantumSentinel.Backtest

open Lib

/-- Python floats, with the reductions of numpy over lists of them. -/
class PyFloat (F : Type) extends Add F, Sub F, Mul F, Div F, Neg F where
  /-- a literal -/
  lit : ℚ → F
  /-- `float(n)` -/
  ofNat : ℕ → F
  /-- `int(x)` -/
  toInt : F → ℤ
  nan : F
  /-- `-math.inf` -/
  negInf : F
  lt : F → F → Bool
  le : F → F → Bool
  beq : F → F → Bool
  abs : F → F
  sqrt : F → F
  /-- `round(x, digits)` -/
  round : F → ℕ → F
  /-- `sum(values)` -/
  sum : List F → F
  /-- `np.mean(values)` -/
  mean : List F → F
  /-- `np.std(values, ddof)` -/
  std : List F → ℕ → F
  /-- `np.sort(values)` -/
  sort : List F → List F
  /-- `np.minimum(a, b)` -/
  npMin : F → F → F
  /-- `np.maximum(a, b)` -/
  npMax : F → F → F
  /-- `np.sign(a)` -/
  sign : F → F

export PyFloat (lit)

/-- Floats, with what the research features compute besides. -/
class NpFloat (F : Type) extends PyFloat F where
  /-- `np.isfinite(x)` -/
  isFinite : F → Bool
  /-- `np.log(x)` -/
  log : F → F
  /-- `x ** 2`, which raises an error when it overflows -/
  square : F → Option F
  /-- `np.sum(values)` -/
  total : List F → F
  /-- `np.prod(rows, axis=0)` of one column -/
  prod : List F → F
  /-- `np.mean(rows, axis=0)` of one column -/
  columnMean : List F → F
  /-- `np.std(rows, axis=0, ddof)` of one column -/
  columnStd : List F → ℕ → F
  /-- `np.percentile(values, q)` -/
  percentile : List F → F → F

section Python

variable {F : Type} [PyFloat F]

/-- `min(a, b)` -/
def pyMin (a b : F) : F :=
  if PyFloat.lt b a then b else a

/-- `max(a, b)` -/
def pyMax (a b : F) : F :=
  if PyFloat.lt a b then b else a

/-- `np.diff(prices) / np.maximum(prices[:-1], 1e-9)` -/
def simpleReturns (prices : List F) : List F :=
  List.zipWith (fun before price => (price - before) / PyFloat.npMax before (lit 1e-9)) prices
    prices.tail

end Python

/-! ## Exact numbers -/

/-- A number, or `NaN`. -/
abbrev Exact := Option ℚ

namespace Exact

/-- A square root to fifteen decimals, rounded down. -/
def sqrtRat (q : ℚ) : ℚ :=
  mkRat (Nat.sqrt (q * 10 ^ 30).floor.toNat) (10 ^ 15)

/-- The sum, unless one of the numbers is missing. -/
def total (values : List Exact) : Exact :=
  values.foldl (fun sum v => sum.bind fun a => v.map fun b => a + b) (some 0)

/-- The mean of some numbers. -/
def average (values : List Exact) : Exact :=
  if values = [] then none else (total values).map fun sum => sum / values.length

/-- The sum of the squared distances to the mean. -/
def squares (values : List Exact) : Exact :=
  (average values).bind fun mean =>
    total (values.map fun v => v.map fun b => (b - mean) * (b - mean))

/-- The order of `np.sort`: `NaN` comes last. -/
def sorted (values : List Exact) : List Exact :=
  values.mergeSort fun a b =>
    match a, b with
    | some x, some y => decide (x ≤ y)
    | none, some _ => false
    | _, none => true

end Exact

instance : PyFloat Exact where
  add a b := a.bind fun x => b.map fun y => x + y
  sub a b := a.bind fun x => b.map fun y => x - y
  mul a b := a.bind fun x => b.map fun y => x * y
  div a b := a.bind fun x => b.bind fun y => if y = 0 then none else some (x / y)
  neg a := a.map fun x => -x
  lit q := some q
  ofNat n := some n
  toInt a := (a.map fun x => if 0 ≤ x then x.floor else x.ceil).getD 0
  nan := none
  negInf := some (-2 ^ 1024)
  lt a b := (a.bind fun x => b.map fun y => decide (x < y)).getD false
  le a b := (a.bind fun x => b.map fun y => decide (x ≤ y)).getD false
  beq a b := (a.bind fun x => b.map fun y => decide (x = y)).getD false
  abs a := a.map fun x => if x < 0 then -x else x
  sqrt a := a.map Exact.sqrtRat
  round a digits := a.map fun x => roundDecimals x digits
  sum := Exact.total
  mean := Exact.average
  std values ddof := (Exact.squares values).bind fun sum =>
    if values.length ≤ ddof then none
    else some (Exact.sqrtRat (sum / ((values.length - ddof : ℕ) : ℚ)))
  sort := Exact.sorted
  npMin a b := a.bind fun x => b.map fun y => min x y
  npMax a b := a.bind fun x => b.map fun y => max x y
  sign a := a.map fun x => if 0 < x then 1 else if x < 0 then -1 else 0

end QuantumSentinel.Backtest
