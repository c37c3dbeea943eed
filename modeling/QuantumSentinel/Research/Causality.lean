import QuantumSentinel.Backtest.Doubles
import QuantumSentinel.Regime.Detectors
import QuantumSentinel.Research.Factors
import QuantumSentinel.Research.InformationCoefficients
import QuantumSentinel.Strategies.KalmanHedge

/-!
# Research: features do not look ahead

Two inputs that agree on some rows are given to every feature.  What is computed for these rows is
the same on both, whatever the later rows are, with two exceptions on floats: later returns decide
whether there are enough volatilities for any label, and a later price whose square overflows is an
error of the whole series of hedge ratios.

Main results:

- Theorem `features_causal_iff`: all features, and the rows that a coefficient pairs.
- Theorem `later_rows_refuse`: the two exceptions, on doubles.
-/

namespace QuantumSentinel.Research

open Lib Backtest

section Floats

variable {F : Type} [NpFloat F] {N : ℕ}

/-- Exposures, regime labels and prior hedge ratios up to a row depend on the inputs up to that row,
and a coefficient pairs the signals of a row with the returns of later rows; volatility labels and
hedge ratios exactly when later rows do not decide whether there are any. -/
theorem features_causal_iff (t : ℕ) :
    (∀ (lb : Lookbacks) (returns returns' : List (Fin N → F))
        (prices prices' : Option (List (Fin N → F))) (name : FactorName),
      SamePast (t + 1) returns returns' → Option.Rel (SamePast (t + 1)) prices prices' →
        SamePast (t + 1) (computeFactors lb returns prices name)
          (computeFactors lb returns' prices' name)) ∧
    (∀ (window : ℕ) (percentiles : Regime.Thresholds F) (returns returns' : List F),
      SamePast (t + 1) returns returns' →
        (Regime.AgreeUntil (t + 1) Regime.VolReport.labels
            (Regime.volatilityRegime window percentiles returns)
            (Regime.volatilityRegime window percentiles returns') ↔
          Regime.EnoughAlike window returns returns')) ∧
    (∀ (fast slow slopeWindow : ℕ) (prices prices' : List F), SamePast (t + 1) prices prices' →
        Regime.AgreeUntil (t + 1) Regime.TrendReport.labels
          (Regime.trendRegime fast slow slopeWindow prices)
          (Regime.trendRegime fast slow slopeWindow prices')) ∧
    (∀ (kf : Strategies.KalmanHedgeFilter F) (observations observations' : List (F × F)),
      SamePast (t + 1) observations observations' →
        (Option.Rel (SamePast (t + 1)) (kf.fitPredictive? observations)
            (kf.fitPredictive? observations') ↔
          (Strategies.KalmanHedgeFilter.Overflows observations ↔
            Strategies.KalmanHedgeFilter.Overflows observations'))) ∧
    (∀ (argsort : Argsort F) (horizon : ℕ) (signals returns : List (Fin N → F)),
      ∀ ic ∈ icList argsort horizon signals returns, ∃ row, row + horizon < signals.length ∧
        ∀ signals' returns' : List (Fin N → F), signals[row]? = signals'[row]? →
          (∀ s, row < s → s ≤ row + horizon → returns[s]? = returns'[s]?) →
            icAt argsort horizon signals' returns' row = some ic) := by
  refine ⟨?_, ?_, ?_, ?_, ?_⟩
  · intro lb returns returns' prices prices' name hreturns hprices
    exact computeFactors_past lb hreturns hprices name
  · intro window percentiles returns returns' hreturns
    exact Regime.volatilityRegime_past_iff hreturns window percentiles
  · intro fast slow slopeWindow prices prices' hprices
    exact Regime.trendRegime_past hprices fast slow slopeWindow
  · intro kf observations observations' h
    exact Strategies.KalmanHedgeFilter.fitPredictive?_past_iff h
  · intro argsort horizon signals returns ic hic
    obtain ⟨row, hrow, hvalue⟩ := exists_row_of_mem_icList hic
    refine ⟨row, hrow, ?_⟩
    intro signals' returns' hsignals hreturns
    rw [← icAt_congr hsignals hreturns, hvalue]

end Floats

/-! ## Later rows that refuse -/

local instance : Reductions := plainReductions id

/-- Returns of one percent up and down. -/
def smallReturns : List Double :=
  (List.range 7).map fun t => lit (if t % 2 = 0 then 0.01 else -0.01)

/-- The same returns with a huge one behind row 4. -/
def hugeReturns : List Double :=
  smallReturns.set 5 (lit 1e200)

/-- Prices of a pair. -/
def smallPrices : List (Double × Double) :=
  [(lit 2, lit 1), (lit 2, lit 1)]

/-- The same with a huge last one. -/
def hugePrices : List (Double × Double) :=
  smallPrices.set 1 (lit 2, lit 1e200)

/-- A late return takes the volatility labels of the rows in front of it away, and a late price the
hedge ratios. -/
theorem later_rows_refuse :
    (SamePast 5 smallReturns hugeReturns ∧ (∀ r ∈ hugeReturns, r.isFinite = true) ∧
      ¬Regime.AgreeUntil 5 Regime.VolReport.labels
        (Regime.volatilityRegime 2 ⟨lit 25, lit 75, lit 95⟩ smallReturns)
        (Regime.volatilityRegime 2 ⟨lit 25, lit 75, lit 95⟩ hugeReturns)) ∧
      ¬Option.Rel (SamePast 1)
        ((Strategies.KalmanHedgeFilter.initFloat (lit 1e-4) (lit 1e-3)).fitPredictive? smallPrices)
        ((Strategies.KalmanHedgeFilter.initFloat (lit 1e-4) (lit 1e-3)).fitPredictive?
          hugePrices) := by
  have hpast : SamePast 5 smallReturns hugeReturns := SamePast.set smallReturns (by decide) _
  have hcounts : Regime.finiteVolatilities 2 smallReturns = 5 ∧
      Regime.finiteVolatilities 2 hugeReturns = 4 := by
    decide +kernel
  refine ⟨⟨hpast, by decide +kernel, ?_⟩, ?_⟩
  · rw [Regime.volatilityRegime_past_iff hpast]
    rintro (hshort | halike)
    · exact absurd hshort (by decide)
    · rw [hcounts.1, hcounts.2] at halike
      exact absurd halike (by decide)
  · have hfirst : SamePast 1 smallPrices hugePrices := SamePast.set smallPrices le_rfl _
    rw [Strategies.KalmanHedgeFilter.fitPredictive?_past_iff hfirst]
    decide +kernel

end QuantumSentinel.Research
