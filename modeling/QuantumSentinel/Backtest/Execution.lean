import QuantumSentinel.Backtest.Numbers

/-!
# Backtests: orders and their costs

`execution_model.py`: commissions, slippage, the spread, the cost of borrowing, the size of
a position, and the execution of one order from them.

Main results:

- Definition `PositionSizer.computeShares`: the number of shares to trade.
- Definition `ExecutionConfig.executeOrder`: what an order fills at, and what it costs.

Current gaps:

- The texts that say why an order was not filled.
-/

namespace QuantumSentinel.Backtest

open Lib

/-! ## Costs -/

/-- `CommissionModel` -/
structure CommissionModel (F : Type) where
  perShare : F
  pctOfNotional : F
  minPerTrade : F
  maxPctOfNotional : F

/-- `SlippageModel` -/
structure SlippageModel (F : Type) where
  baseBps : F
  volatilityFactor : F
  volumeParticipationLimit : F

/-- `SpreadModel` -/
structure SpreadModel (F : Type) where
  baseSpreadBps : F
  volMultiplier : F

/-- `BorrowCostModel` -/
structure BorrowCostModel (F : Type) where
  generalAnnualRate : F
  hardToBorrowRate : F
  hardToBorrowTickers : List String

/-- The side of an order. -/
inductive Side
  | buy
  | sell
deriving DecidableEq, Repr

variable {F : Type} [PyFloat F]

/-- `CommissionModel.compute` -/
def CommissionModel.compute (m : CommissionModel F) (shares price : F) : F :=
  let notional := PyFloat.abs shares * price
  let raw := pyMax m.minPerTrade
    (PyFloat.abs shares * m.perShare + notional * m.pctOfNotional)
  pyMin raw (notional * m.maxPctOfNotional)

namespace SlippageModel

variable (m : SlippageModel F)

/-- `SlippageModel.compute` -/
def compute (price shares dailyVol avgVolume : F) : F :=
  let participation :=
    if PyFloat.le avgVolume (lit 0) then lit 1
    else pyMin (PyFloat.abs shares / avgVolume) m.volumeParticipationLimit
  let slippageBps := m.baseBps + m.volatilityFactor * dailyVol * lit 10000 * participation
  price * slippageBps / lit 10000

/-- `can_fill_fully` -/
def canFillFully (shares avgVolume : F) : Bool :=
  if PyFloat.le avgVolume (lit 0) then false
  else PyFloat.le (PyFloat.abs shares) (avgVolume * m.volumeParticipationLimit)

/-- `partial_fill_qty` -/
def partialFillQty (shares avgVolume : F) : F :=
  pyMin (PyFloat.abs shares) (avgVolume * m.volumeParticipationLimit) * PyFloat.sign shares

end SlippageModel

namespace SpreadModel

variable (m : SpreadModel F)

/-- `estimate_spread` -/
def estimateSpread (price dailyVol : F) : F :=
  let spreadBps := m.baseSpreadBps + m.volMultiplier * dailyVol * lit 10000
  -- `2 * 10_000` is an integer
  price * spreadBps / lit 20000

/-- `adjust_fill_price` -/
def adjustFillPrice (price dailyVol : F) : Side → F
  | .buy => price + m.estimateSpread price dailyVol
  | .sell => price - m.estimateSpread price dailyVol

end SpreadModel

/-- `BorrowCostModel.daily_cost` -/
def BorrowCostModel.dailyCost (m : BorrowCostModel F) (ticker : String) (shares price : F) : F :=
  if PyFloat.le (lit 0) shares then lit 0
  else
    let rate :=
      if ticker ∈ m.hardToBorrowTickers then m.hardToBorrowRate else m.generalAnnualRate
    PyFloat.abs shares * price * rate / lit 252

/-! ## Sizes -/

/-- `SizingMethod` -/
inductive SizingMethod
  | fixedFractional
  | volatilityTarget
  | kelly
  | equalWeight
deriving DecidableEq, Repr

/-- `PositionSizer` -/
structure PositionSizer (F : Type) where
  method : SizingMethod
  riskPerTrade : F
  targetVolatility : F
  maxPositionPct : F
  maxLeverage : F

namespace PositionSizer

variable (sizer : PositionSizer F)

/-- The shares before the cap. -/
def uncapped (capital price dailyVol winRate avgWinLossRatio : F) (nAssets : ℕ) : F :=
  match sizer.method with
  | .fixedFractional => capital * sizer.riskPerTrade / price
  | .volatilityTarget =>
    let annual := dailyVol * PyFloat.sqrt (lit 252)
    let annVol := if PyFloat.lt annual (lit 1e-9) then lit 0.2 else annual
    let notional := capital * (sizer.targetVolatility / annVol) / PyFloat.ofNat (max nAssets 1)
    notional / price
  | .kelly =>
    let p := pyMax (lit 0.01) (pyMin (lit 0.99) winRate)
    let b := pyMax (lit 0.01) avgWinLossRatio
    let q := lit 1 - p
    let kelly := pyMax (lit 0) (pyMin ((p * b - q) / b) (lit 0.5))
    capital * kelly * lit 0.5 / price
  | .equalWeight => capital / PyFloat.ofNat (max nAssets 1) / price

/-- `compute_shares` -/
def computeShares (capital price dailyVol winRate avgWinLossRatio : F) (nAssets : ℕ) : F :=
  if PyFloat.le price (lit 0) || PyFloat.le capital (lit 0) then lit 0
  else
    let maxNotional := capital * sizer.maxPositionPct * sizer.maxLeverage
    PyFloat.round (pyMin
      (sizer.uncapped capital price dailyVol winRate avgWinLossRatio nAssets)
      (maxNotional / price)) 6

end PositionSizer

/-! ## Orders -/

/-- `ExecutionConfig`; the leverage limit is read by no engine. -/
structure ExecutionConfig (F : Type) where
  commission : CommissionModel F
  slippage : SlippageModel F
  spread : SpreadModel F
  borrow : BorrowCostModel F
  sizer : PositionSizer F
  executionDelayBars : ℤ
  allowShortSelling : Bool
  cashReservePct : F

/-- `FillResult` -/
structure FillResult (F : Type) where
  filled : Bool
  fillPrice : F
  fillQty : F
  commission : F
  slippageCost : F
  spreadCost : F
  totalCost : F
  isPartial : Bool

/-- An order that is not filled. -/
def FillResult.nothing : FillResult F :=
  ⟨false, lit 0, lit 0, lit 0, lit 0, lit 0, lit 0, false⟩

namespace ExecutionConfig

variable (cfg : ExecutionConfig F)

/-- The shares an order may ask for: without short selling no more than are held. -/
def permittedShares (side : Side) (desired currentPosition : F) : F :=
  if side = .sell && PyFloat.lt (currentPosition - desired) (lit 0) && !cfg.allowShortSelling then
    pyMin desired (pyMax (lit 0) currentPosition)
  else desired

/-- The price of a fill behind the spread and the slippage. -/
def slippedPrice (side : Side) (price dailyVol slippagePerShare : F) : F :=
  match side with
  | .buy => cfg.spread.adjustFillPrice price dailyVol .buy + slippagePerShare
  | .sell =>
    pyMax (cfg.spread.adjustFillPrice price dailyVol .sell - slippagePerShare) (price * lit 0.5)

/-- The shares that the cash buys. -/
def affordable (availableCash fillPrice : F) : F :=
  if PyFloat.lt (lit 0) fillPrice then
    availableCash * (lit 1 - cfg.cashReservePct) / fillPrice
  else lit 0

/-- `execute_order` -/
def executeOrder (side : Side) (desiredShares price dailyVol avgVolume availableCash
    currentPosition : F) : FillResult F :=
  let wanted := PyFloat.abs desiredShares
  if PyFloat.lt wanted (lit 1e-9) || PyFloat.lt price (lit 1e-9) then .nothing
  else
    let desired := cfg.permittedShares side wanted currentPosition
    -- less than this is only left when short selling is disabled
    if side = .sell && PyFloat.lt (currentPosition - wanted) (lit 0) && !cfg.allowShortSelling &&
        PyFloat.lt desired (lit 1e-9) then .nothing
    else
      let fits := cfg.slippage.canFillFully desired avgVolume
      let volumeQty :=
        if fits then desired else PyFloat.abs (cfg.slippage.partialFillQty desired avgVolume)
      let slippagePerShare := cfg.slippage.compute price volumeQty dailyVol avgVolume
      let fillPrice := cfg.slippedPrice side price dailyVol slippagePerShare
      let maxAffordable := cfg.affordable availableCash fillPrice
      let capped := side = .buy && PyFloat.lt maxAffordable volumeQty
      let fillQty := if capped then maxAffordable else volumeQty
      let commission := cfg.commission.compute fillQty fillPrice
      let spreadCost := PyFloat.abs (cfg.spread.estimateSpread price dailyVol) * fillQty
      let slippageCost := slippagePerShare * fillQty
      if PyFloat.lt fillQty (lit 1e-9) then .nothing
      else
        { filled := true
          fillPrice := PyFloat.round fillPrice 6
          fillQty := PyFloat.round fillQty 6
          commission := PyFloat.round commission 4
          slippageCost := PyFloat.round slippageCost 4
          spreadCost := PyFloat.round spreadCost 4
          totalCost := PyFloat.round (commission + spreadCost + slippageCost) 4
          isPartial := !fits || capped }

end ExecutionConfig

/-! ## Presets -/

/-- The sizer of a configuration that names none. -/
def defaultSizer : PositionSizer F :=
  ⟨.fixedFractional, lit 0.02, lit 0.15, lit 0.2, lit 1⟩

/-- `zero_cost_config` -/
def zeroCostConfig : ExecutionConfig F where
  commission := ⟨lit 0, lit 0, lit 0, lit 1⟩
  slippage := ⟨lit 0, lit 0, lit 1⟩
  spread := ⟨lit 0, lit 0⟩
  borrow := ⟨lit 0, lit 0, []⟩
  sizer := defaultSizer
  executionDelayBars := 1
  allowShortSelling := true
  cashReservePct := lit 0

/-- `retail_config` -/
def retailConfig : ExecutionConfig F where
  commission := ⟨lit 0.005, lit 0.001, lit 1, lit 0.005⟩
  slippage := ⟨lit 2, lit 0.15, lit 0.05⟩
  spread := ⟨lit 3, lit 0.6⟩
  borrow := ⟨lit 0.005, lit 0.05, []⟩
  sizer := defaultSizer
  executionDelayBars := 1
  allowShortSelling := true
  cashReservePct := lit 0

/-- `institutional_config` -/
def institutionalConfig : ExecutionConfig F where
  commission := ⟨lit 0.002, lit 0.0005, lit 0.5, lit 0.005⟩
  slippage := ⟨lit 0.5, lit 0.08, lit 0.05⟩
  spread := ⟨lit 1, lit 0.3⟩
  borrow := ⟨lit 0.005, lit 0.05, []⟩
  sizer := defaultSizer
  executionDelayBars := 1
  allowShortSelling := true
  cashReservePct := lit 0

/-- `execution_preset` -/
inductive ExecutionPreset
  | zeroCost
  | retail
  | institutional
deriving DecidableEq, Repr

/-- The configuration of a preset. -/
def ExecutionPreset.config : ExecutionPreset → ExecutionConfig F
  | .zeroCost => zeroCostConfig
  | .retail => retailConfig
  | .institutional => institutionalConfig

end QuantumSentinel.Backtest
