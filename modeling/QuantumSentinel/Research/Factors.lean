import Mathlib.Data.List.FinRange
import QuantumSentinel.Backtest.Numbers

/-!
# Research: factor exposures

`compute_factors` of `factor_model.py`: six exposures of every asset in every row, each
from the rows in front of it or from the prices of the row, standardised across the assets of the
row.  A missing number is `NaN`, and a number that overflows is left out of its row.

Main results:

- Definition `computeFactors`: the exposures.
- Theorem `computeFactors_past`: an exposure depends on the rows up to its own.
-/

namespace QuantumSentinel.Research

open Lib Backtest

variable {F : Type} [NpFloat F] {N : ℕ}

/-! ## Windows -/

/-- The numbers of one asset. -/
def column (window : List (Fin N → F)) (i : Fin N) : List F :=
  window.map fun row => row i

/-- `np.prod(1 + window, axis=0) - 1` -/
def cumRet (window : List (Fin N → F)) (i : Fin N) : F :=
  NpFloat.prod ((column window i).map (lit 1 + ·)) - lit 1

/-! ## Exposures -/

/-- The lookback windows, with their defaults. -/
structure Lookbacks where
  momentum : ℕ := 60
  reversal : ℕ := 5
  volatility : ℕ := 21
  quality : ℕ := 60

/-- The keys of the result. -/
inductive FactorName
  | momentum
  | reversal
  | volatility
  | lowVolatility
  | quality
  | size
deriving DecidableEq

/-- A row of exposures. -/
abbrev Exposures (F : Type) (N : ℕ) :=
  Fin N → F

/-- A matrix of exposures from the rows in front of each row; there are none at first. -/
def windowed (lookback : ℕ) (f : List (Fin N → F) → Exposures F N)
    (returns : List (Fin N → F)) : List (Exposures F N) :=
  rolling lookback (fun _ => PyFloat.nan) f returns

/-- `vol` -/
def vol (lookback : ℕ) (returns : List (Fin N → F)) : List (Exposures F N) :=
  windowed lookback
    (fun window i => NpFloat.columnStd (column window i) 1 * PyFloat.sqrt (lit 252)) returns

/-- The inverse of a volatility, unless it is `NaN`. -/
def lowVol (v : F) : F :=
  if PyFloat.beq v v then -v else PyFloat.nan

/-- The quality of a window: its mean over its standard deviation. -/
def qualityOf (window : List (Fin N → F)) : Exposures F N := fun i =>
  let mn := NpFloat.columnMean (column window i)
  let sd := NpFloat.columnStd (column window i) 1 + lit 1e-9
  mn / sd * PyFloat.sqrt (lit 252)

/-- `log_price`, or `cum` when there are no prices. -/
def sizeProxy (returns : List (Fin N → F)) : Option (List (Fin N → F)) → List (Exposures F N)
  | some prices =>
    prices.map fun row i =>
      if PyFloat.lt (lit 0) (row i) then NpFloat.log (row i) else PyFloat.nan
  | none => windowed 252 cumRet returns

/-- An exposure before the standardisation. -/
def rawFactor (lb : Lookbacks) (returns : List (Fin N → F)) (prices : Option (List (Fin N → F))) :
    FactorName → List (Exposures F N)
  | .momentum => windowed lb.momentum cumRet returns
  | .reversal => windowed lb.reversal (fun window i => -cumRet window i) returns
  | .volatility => vol lb.volatility returns
  | .lowVolatility => (vol lb.volatility returns).map fun row i => lowVol (row i)
  | .quality => windowed lb.quality qualityOf returns
  | .size => sizeProxy returns prices

/-- `np.clip(z, -3, 3)` -/
def clip (z : F) : F :=
  PyFloat.npMin (PyFloat.npMax z (lit (-3))) (lit 3)

/-- A row, standardised across its assets. -/
def normed (row : Exposures F N) : Exposures F N :=
  let valid := ((List.finRange N).map row).filter NpFloat.isFinite
  if valid.length < 4 then fun _ => PyFloat.nan
  else
    let mu := PyFloat.mean valid
    let sd := PyFloat.std valid 1
    fun i =>
      if !NpFloat.isFinite (row i) then PyFloat.nan
      else if PyFloat.lt sd (lit 1e-9) then lit 0
      else clip ((row i - mu) / sd)

/-- `compute_factors` -/
def computeFactors (lb : Lookbacks) (returns : List (Fin N → F))
    (prices : Option (List (Fin N → F))) (name : FactorName) : List (Exposures F N) :=
  (rawFactor lb returns prices name).map normed

/-! ## Two runs -/

section Past

variable {n : ℕ} {returns returns' : List (Fin N → F)} {prices prices' : Option (List (Fin N → F))}

theorem windowed_past (h : SamePast n returns returns') (lookback : ℕ)
    (f : List (Fin N → F) → Exposures F N) :
    SamePast n (windowed lookback f returns) (windowed lookback f returns') :=
  h.rolling lookback _ f

theorem vol_past (h : SamePast n returns returns') (lookback : ℕ) :
    SamePast n (vol lookback returns) (vol lookback returns') :=
  windowed_past h lookback _

theorem sizeProxy_past (h : SamePast n returns returns')
    (hp : Option.Rel (SamePast n) prices prices') :
    SamePast n (sizeProxy returns prices) (sizeProxy returns' prices') := by
  cases hp with
  | some hprices => exact hprices.map _
  | none => exact windowed_past h 252 _

/-- No exposure looks ahead before the standardisation. -/
theorem rawFactor_past (lb : Lookbacks) (h : SamePast n returns returns')
    (hp : Option.Rel (SamePast n) prices prices') (name : FactorName) :
    SamePast n (rawFactor lb returns prices name) (rawFactor lb returns' prices' name) := by
  cases name with
  | momentum => exact windowed_past h _ _
  | reversal => exact windowed_past h _ _
  | volatility => exact vol_past h lb.volatility
  | lowVolatility => exact (vol_past h lb.volatility).map _
  | quality => exact windowed_past h _ _
  | size => exact sizeProxy_past h hp

/-- The standardisation stays in its row. -/
theorem computeFactors_past (lb : Lookbacks) (h : SamePast n returns returns')
    (hp : Option.Rel (SamePast n) prices prices') (name : FactorName) :
    SamePast n (computeFactors lb returns prices name) (computeFactors lb returns' prices' name) :=
  (rawFactor_past lb h hp name).map normed

end Past

end QuantumSentinel.Research
