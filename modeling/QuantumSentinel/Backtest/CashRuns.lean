import QuantumSentinel.Backtest.CashCap
import QuantumSentinel.Backtest.WalkForward

/-!
# Backtests: the cash of a run

A run without short selling holds positions that are not negative, so that it pays no borrowing
and every sale is one of shares it holds.  What can make its cash negative is a buy that overspends
or the commission of a sale.

Main results:

- Definition `ExecutionConfig.SaleCovers`: the proceeds of a sale and the cash pay for its
  commission.
- Definition `EngineState.Solvent`: the invariant of the loop.
- Theorem `trade_solvent`: one covered order keeps it.
- Theorem `cash_never_negative`: the whole account.
-/

namespace QuantumSentinel.Backtest

open Lib

section Account

variable [Reductions]

/-! ## One order -/

/-- The proceeds of the shares that are sold, at no less than half the price, and the cash pay for
the commission and an allowance for the roundings.  The position is one of whole millionths, the
costs of the price are numbers, and no amount exceeds 10^300. -/
def ExecutionConfig.SaleCovers (cfg : ExecutionConfig Double)
    (price dailyVol avgVolume cash held : Double) : Prop :=
  let shares := min held.value (avgVolume.value * cfg.slippage.volumeParticipationLimit.value)
  let notional := shares * price.value
  (PyFloat.round held 6).value = held.value ∧
    (cfg.spread.estimateSpread price dailyVol).isFinite = true ∧
    (cfg.slippage.compute price (cfg.volumeQty held avgVolume) dailyVol avgVolume).isFinite = true ∧
    cash.value + notional ≤ 10 ^ 300 ∧
    cfg.fee shares notional * (1 + 1 / 10 ^ 10) + (shares + price.value) / 10 ^ 6 + 1 / 10 ^ 4 ≤
      cash.value + notional / 2 * (1 - 1 / 10 ^ 10)

instance (cfg : ExecutionConfig Double) (price dailyVol avgVolume cash held : Double) :
    Decidable (cfg.SaleCovers price dailyVol avgVolume cash held) :=
  inferInstanceAs (Decidable (_ ∧ _ ∧ _ ∧ _ ∧ _))

section Orders

variable {cfg : ExecutionConfig Double}

/-- A sale is made at half the price at least, and at no more than the price. -/
theorem sellPrice_bounds (hcfg : cfg.Nonnegative) {price dailyVol volume q : Double}
    (hprice : price.Nonneg) (hlarge : 1 / 10 ^ 10 ≤ price.value) (hvol : dailyVol.Nonneg)
    (hvolume : volume.Nonneg) (hpos : 0 < volume.value) (hq : q.Nonneg)
    (hspread : (cfg.spread.estimateSpread price dailyVol).isFinite = true)
    (hslip : (cfg.slippage.compute price q dailyVol volume).isFinite = true) :
    (cfg.priceOf .sell price dailyVol volume q).Nonneg ∧
      price.value / 2 * (1 - 1 / 10 ^ 14) ≤ (cfg.priceOf .sell price dailyVol volume q).value ∧
      (cfg.priceOf .sell price dailyVol volume q).value ≤ price.value := by
  obtain ⟨hspread0, -⟩ := spread_le hcfg hlarge hvol hspread rfl
  obtain ⟨hslip0, -⟩ := slippage_le hcfg hlarge hvol hvolume hpos hq le_rfl hslip rfl
  obtain ⟨hhalf, hhalf'⟩ := lit_spec (q := 1 / 2) (by decide +kernel)
  have htiny := tiny_le
  -- the floor at half the price
  have hfloor : (price * lit 0.5).isFinite = true ∧
      (price * lit 0.5).value = nearest (price.value / 2) := by
    have hlit : (lit 0.5 : Double) = lit (1 / 2) := by norm_num
    have hmul : price * lit 0.5 = .ofRat (price.value / 2) := by
      rw [hlit, Double.mul_eq hprice.finite hhalf, hhalf', mul_one_div]
    have hfinite := Double.finite_ofRat_of_le (half_pos (lt_of_lt_of_le (by norm_num) hlarge)).le
      (half_le_self hprice.nonneg)
    rw [hmul]
    exact ⟨hfinite, Double.value_ofRat hfinite⟩
  have hfloorle : nearest (price.value / 2) ≤ price.value :=
    (nearest_mono (half_le_self hprice.nonneg)).trans_eq price.nearest_value
  have hlow := le_nearest (x := price.value / 2) (by linarith [hprice.nonneg])
  -- the price behind the costs, unless they are past the largest number
  have hspreaded : (price - cfg.spread.estimateSpread price dailyVol).isFinite = true ∧
      (price - cfg.spread.estimateSpread price dailyVol).value ≤ price.value := by
    have hfinite : (Double.ofRat (price.value -
        (cfg.spread.estimateSpread price dailyVol).value)).isFinite = true := by
      have hneg := Double.value_neg hspread
      exact Double.finite_between (a := -(cfg.spread.estimateSpread price dailyVol)) (b := price)
        (by rw [hneg]; linarith [hprice.nonneg]) (by linarith)
    rw [Double.sub_eq hprice.finite hspread, Double.value_ofRat hfinite]
    exact ⟨hfinite, (nearest_mono (sub_le_self _ hspread0)).trans_eq price.nearest_value⟩
  have hcosts := Double.sub_le_or_infinite hspreaded.1 hslip hslip0
  change (pyMax (price - cfg.spread.estimateSpread price dailyVol -
      cfg.slippage.compute price q dailyVol volume) (price * lit 0.5)).Nonneg ∧ _ ≤
    (pyMax (price - cfg.spread.estimateSpread price dailyVol -
      cfg.slippage.compute price q dailyVol volume) (price * lit 0.5)).value ∧
    (pyMax (price - cfg.spread.estimateSpread price dailyVol -
      cfg.slippage.compute price q dailyVol volume) (price * lit 0.5)).value ≤ _
  generalize price - cfg.spread.estimateSpread price dailyVol -
    cfg.slippage.compute price q dailyVol volume = paid at *
  unfold pyMax
  split
  · rw [hfloor.2]
    exact ⟨⟨hfloor.1, hfloor.2.symm ▸ nearest_nonneg (by linarith [hprice.nonneg])⟩,
      by linarith, hfloorle⟩
  · rename_i hnot
    rcases hcosts with rfl | ⟨hfinite, hle⟩
    · obtain ⟨_, heq⟩ := Double.eq_finite hfloor.1
      rw [heq] at hnot
      exact absurd rfl hnot
    · rw [lt_eq hfinite hfloor.1, hfloor.2, decide_eq_true_eq, not_lt] at hnot
      exact ⟨⟨hfinite, (nearest_nonneg (by linarith [hprice.nonneg])).trans hnot⟩, by linarith,
        hle.trans hspreaded.2⟩

/-- A covered sale leaves cash and a position that are not negative. -/
theorem sale_keeps (hcfg : cfg.Nonnegative) {price dailyVol volume cash held : Double}
    (hprice : price.Nonneg) (hvol : dailyVol.Nonneg) (hvolume : volume.Nonneg)
    (hcash : cash.Nonneg) (hheld : held.Nonneg)
    (hcovers : cfg.SaleCovers price dailyVol volume cash held) {fill : FillResult Double}
    (hfill : fill = cfg.executeOrder .sell (PyFloat.abs held) price dailyVol volume cash held)
    (hfilled : fill.filled = true) :
    (cash + (fill.fillQty * fill.fillPrice - fill.commission)).Nonneg ∧
      (held - fill.fillQty).Nonneg := by
  subst hfill
  obtain ⟨hgrid, hspread, hslip, hbound, hcovers⟩ := hcovers
  obtain ⟨hlow, hshares, hqty, hpaid, hcommission⟩ := executeOrder_filled rfl rfl hfilled
  rw [hqty, hpaid, hcommission]
  have hpermitted : cfg.permittedShares .sell (PyFloat.abs (PyFloat.abs held)) held = held := by
    obtain ⟨hzero, hzero'⟩ := lit_spec (q := 0) (by decide +kernel)
    have hnone : held - held = lit 0 := by
      rw [Double.sub_eq hheld.finite hheld.finite, sub_self]
      rfl
    rw [abs_nonneg_eq hheld, abs_nonneg_eq hheld, ExecutionConfig.permittedShares, hnone,
      lt_eq hzero hzero, decide_eq_false (lt_irrefl _)]
    rfl
  rw [hpermitted] at hshares ⊢
  change PyFloat.lt (cfg.volumeQty held volume) (lit 1e-9) = false at hshares
  change (cash + (PyFloat.round (cfg.volumeQty held volume) 6 * PyFloat.round
      (cfg.priceOf .sell price dailyVol volume (cfg.volumeQty held volume)) 6 -
    PyFloat.round (cfg.commission.compute (cfg.volumeQty held volume)
      (cfg.priceOf .sell price dailyVol volume (cfg.volumeQty held volume))) 4)).Nonneg ∧
    (held - PyFloat.round (cfg.volumeQty held volume) 6).Nonneg
  obtain ⟨hq, hqeq⟩ := volumeQty_eq hcfg hheld hvolume
  have hqlarge := (not_minute hq.finite hshares).2
  obtain ⟨hvolumepos, hqlow, hqhigh⟩ := volumeQty_bounds hcfg hheld hvolume hqlarge rfl
  have hpricelow := (not_minute hprice.finite hlow).2
  obtain ⟨hp, hplow, hphigh⟩ := sellPrice_bounds hcfg hprice hpricelow hvol hvolume hvolumepos hq
    hspread hslip
  generalize min held.value (volume.value * _) = X at *
  generalize cfg.priceOf .sell price dailyVol volume (cfg.volumeQty held volume) = p at *
  have hqheld := hqeq.trans_le (min_le_left _ _)
  generalize cfg.volumeQty held volume = q at *
  have hq0 := hq.nonneg
  have hp0 := hp.nonneg
  have hplarge : 1 / 10 ^ 11 ≤ p.value := by linarith
  have hn0 := mul_nonneg hq0 hp0
  have hX0 : 0 ≤ X := by linarith
  have hN0 : 0 ≤ X * price.value := mul_nonneg hX0 hprice.nonneg
  have hcash0 := hcash.nonneg
  have htiny := tiny_le
  obtain ⟨hlarge, hone⟩ : (9 : ℚ) * 10 ^ 300 ≤ largest ∧ (1 : ℚ) ≤ 10 ^ 300 := by
    decide +kernel
  have hfee0 := fee_nonneg hcfg hN0 X
  generalize (10 : ℚ) ^ 300 = most at *
  -- the notional value, from both sides
  have hnhigh : q.value * p.value ≤ X * price.value * (1 + 1 / 10 ^ 11) := by
    have hmul := mul_le_mul hqhigh hphigh hp0 (hq0.trans hqhigh)
    linarith
  have hnlow : X * price.value / 2 * (1 - 3 / 10 ^ 14) ≤ q.value * p.value := by
    have hmul := mul_le_mul hqlow hplow (by linarith [hprice.nonneg]) hq0
    linarith
  obtain ⟨hproductlow, hproducthigh⟩ := notional_bounds hq hp
  obtain ⟨hrq, hrqeq⟩ := round_nonneg hq 6
  obtain ⟨hrp, -⟩ := round_nonneg hp 6
  have hrn0 := mul_nonneg hrq.nonneg hrp.nonneg
  have hpaid := Double.mul_eq hrq.finite hrp.finite
  have hpaidfinite : (PyFloat.round q 6 * PyFloat.round p 6).isFinite = true := by
    rw [hpaid]
    exact Double.finite_ofRat_of_half hrn0 (by linarith)
  have hpaidvalue := Double.value_mul hpaidfinite
  have hround := le_nearest hrn0
  -- the commission
  have hexact : (q * p).isFinite = true := by
    rw [Double.mul_eq hq.finite hp.finite]
    exact Double.finite_ofRat_of_half hn0 (by linarith)
  have hnotional : 1 / 10 ^ 30 ≤ q.value * p.value :=
    le_trans (by norm_num) (mul_le_mul hqlarge hplarge (by norm_num) hq0)
  have hbelow := commission_below hcfg hq hp hnotional hexact
  have hfee := fee_le hcfg (r := 1 + 1 / 10 ^ 11) (by norm_num)
    (by linarith : q.value ≤ X * (1 + 1 / 10 ^ 11)) hnhigh
  obtain ⟨hc, hcle⟩ := hbelow.nonneg (hbelow.finite (by linarith))
  obtain ⟨hrc, -, hrcle⟩ := round_bounds hc (by decide : 4 ≤ 6)
  constructor
  · have hproceeds : (PyFloat.round q 6 * PyFloat.round p 6).Nonneg :=
      ⟨hpaidfinite, hpaidvalue.symm ▸ nearest_nonneg hrn0⟩
    refine hcash.add_sub hproceeds hrc ?_ ?_ <;> rw [hpaidvalue]
    · linarith
    · linarith [nearest_le hrn0]
  · have hsold : (PyFloat.round q 6).value ≤ held.value := by
      rw [hrqeq, ← hgrid, (round_nonneg hheld 6).2]
      exact nearest_mono (roundDecimals_mono hqheld 6)
    have hleft := sub_nonneg.mpr hsold
    rw [Double.sub_eq hheld.finite hrq.finite]
    exact .ofRat hleft (Double.finite_ofRat_of_le hleft (sub_le_self _ hrq.nonneg))

/-- A covered buy, where nothing is held, leaves cash and a position that are not negative. -/
theorem buy_keeps (hcfg : cfg.Nonnegative) {desired price dailyVol volume cash held : Double}
    (hdesired : desired.isFinite = true) (hprice : price.Nonneg) (hvol : dailyVol.Nonneg)
    (hvolume : volume.Nonneg) (hcash : cash.Nonneg) (hheld : held.Nonneg)
    (hnone : PyFloat.le held (lit 0) = true)
    (hcovers : cfg.CashCovers desired price dailyVol volume cash) {fill : FillResult Double}
    (hfill : fill = cfg.executeOrder .buy desired price dailyVol volume cash held)
    (hfilled : fill.filled = true) :
    (cash - (fill.fillQty * fill.fillPrice + fill.commission)).Nonneg ∧
      (held + fill.fillQty).Nonneg := by
  obtain ⟨hqty, hspent, hle⟩ := buy_within_cash hcfg hdesired hprice hvol hvolume hcash hcovers hfill
    hfilled
  obtain ⟨hzero, hzero'⟩ := lit_spec (q := 0) (by decide +kernel)
  rw [le_eq hheld.finite hzero, hzero', decide_eq_true_eq] at hnone
  have hleft := sub_nonneg.mpr hle
  have hcashfinite := Double.finite_ofRat_of_le hleft (sub_le_self _ hspent.nonneg)
  have hsum : held.value + fill.fillQty.value = fill.fillQty.value := by
    rw [le_antisymm hnone hheld.nonneg, zero_add]
  have hqtyfinite := Double.finite_ofRat_of_le (add_nonneg hheld.nonneg hqty.nonneg) hsum.le
  rw [Double.sub_eq hcash.finite hspent.finite, Double.add_eq hheld.finite hqty.finite]
  exact ⟨.ofRat hleft hcashfinite, .ofRat (add_nonneg hheld.nonneg hqty.nonneg) hqtyfinite⟩

end Orders

/-! ## One trade -/

/-- The cash is not negative, and nothing is held short. -/
structure EngineState.Solvent (s : EngineState Double) : Prop where
  capital : s.capital.Nonneg
  held : ∀ ticker, (s.position ticker).Nonneg

/-- The orders without short selling: a buy where nothing is held, a sale of all that is. -/
def EngineState.Offers (s : EngineState Double) (order : Order Double) : Prop :=
  match order.side with
  | .buy => PyFloat.le (s.position order.ticker) (lit 0) = true
  | .sell => order.desired = PyFloat.abs (s.position order.ticker)

/-- The price, the volatility and the volume are numbers that are not negative; the cash pays for a
buy, or the cash and the proceeds for the commission of a sale. -/
def TradeCovers (cfg : ExecutionConfig Double) (view : BarView Double) (s : EngineState Double)
    (price : Double) (order : Order Double) : Prop :=
  price.Nonneg ∧ (view.liquidity order.ticker).1.Nonneg ∧ (view.liquidity order.ticker).2.Nonneg ∧
    match order.side with
    | .buy =>
      order.desired.isFinite = true ∧
        cfg.CashCovers order.desired price (view.liquidity order.ticker).1
          (view.liquidity order.ticker).2 s.capital
    | .sell =>
      cfg.SaleCovers price (view.liquidity order.ticker).1 (view.liquidity order.ticker).2
        s.capital (s.position order.ticker)

instance (cfg : ExecutionConfig Double) (view : BarView Double) (s : EngineState Double)
    (price : Double) (order : Order Double) : Decidable (TradeCovers cfg view s price order) :=
  match order with
  | ⟨_, .buy, _, _⟩ => inferInstanceAs (Decidable (_ ∧ _ ∧ _ ∧ _ ∧ _))
  | ⟨_, .sell, _, _⟩ => inferInstanceAs (Decidable (_ ∧ _ ∧ _ ∧ ExecutionConfig.SaleCovers ..))

section Trades

variable {cfg : BacktestConfig Double} {view : BarView Double} {s : EngineState Double}

/-- The capital and the positions behind a fill. -/
theorem solvent_settle (hs : s.Solvent) {order : Order Double} {fill : FillResult Double}
    (h : fill.filled = true →
      match order.side with
      | .buy => (s.capital - (fill.fillQty * fill.fillPrice + fill.commission)).Nonneg ∧
          (s.position order.ticker + fill.fillQty).Nonneg
      | .sell => (s.capital + (fill.fillQty * fill.fillPrice - fill.commission)).Nonneg ∧
          (s.position order.ticker - fill.fillQty).Nonneg) :
    (s.settle view order fill).Solvent := by
  unfold EngineState.settle
  split
  · rename_i hfilled
    have hfill := h hfilled
    cases hside : order.side with
    | buy =>
      rw [hside] at hfill
      refine ⟨hfill.1, fun ticker => ?_⟩
      simp only [EngineState.position, Dict.get?_set]
      split
      · exact hfill.2
      · exact hs.held ticker
    | sell =>
      rw [hside] at hfill
      refine ⟨hfill.1, fun ticker => ?_⟩
      simp only [EngineState.position, Dict.get?_set]
      split
      · exact hfill.2
      · exact hs.held ticker
  · exact hs

/-- A covered order keeps the account. -/
theorem trade_solvent (hcfg : cfg.execution.Nonnegative) (hs : s.Solvent) {price : Double}
    {order : Order Double} (hoffers : s.Offers order)
    (hcovers : TradeCovers cfg.execution view s price order) :
    (s.trade cfg view price order).Solvent := by
  refine solvent_settle hs fun hfilled => ?_
  obtain ⟨ticker, side, desired, signal⟩ := order
  obtain ⟨hprice, hvol, hvolume, hcovers⟩ := hcovers
  cases side with
  | buy =>
    exact buy_keeps hcfg hcovers.1 hprice hvol hvolume hs.capital (hs.held ticker) hoffers
      hcovers.2 rfl hfilled
  | sell =>
    obtain rfl : desired = PyFloat.abs (s.position ticker) := hoffers
    exact sale_keeps hcfg hprice hvol hvolume hs.capital (hs.held ticker) hcovers rfl hfilled

end Trades

/-! ## One bar -/

/-- The order that is placed for a ticker, and its price, where nothing is sold short. -/
def EngineState.placed (cfg : BacktestConfig Double) (view : BarView Double)
    (sizingEquity : Double) (nAssets : ℕ) (s : EngineState Double) (item : String × Double) :
    Option (Double × Order Double) :=
  match view.close item.1 with
  | none => none
  | some price =>
    let desired := newShares cfg view sizingEquity price nAssets item.1
    if PyFloat.lt (lit 0) item.2 && PyFloat.le (s.position item.1) (lit 0) then
      if PyFloat.lt (lit 0) desired then some (price, ⟨item.1, .buy, desired, item.2⟩) else none
    else if PyFloat.lt item.2 (lit 0) && PyFloat.lt (lit 0) (s.position item.1) then
      some (price, ⟨item.1, .sell, PyFloat.abs (s.position item.1), item.2⟩)
    else none

/-- Every order of a bar is covered. -/
def BarCovered (cfg : BacktestConfig Double) (assets : List String) (view : BarView Double)
    (s : EngineState Double) : Prop :=
  ∀ step ∈ foldSteps (fun state item =>
      state.act cfg view (s.sizingEquity view) assets.length item)
      (s.exits (EngineState.signalled view assets) ++ s.entries (EngineState.signalled view assets))
      s,
    ∀ trade ∈ step.1.placed cfg view (s.sizingEquity view) assets.length step.2,
      TradeCovers cfg.execution view step.1 trade.1 trade.2

instance (cfg : BacktestConfig Double) (assets : List String) (view : BarView Double)
    (s : EngineState Double) : Decidable (BarCovered cfg assets view s) :=
  inferInstanceAs (Decidable (∀ step ∈ foldSteps _ _ _, _))

section Bars

variable {cfg : BacktestConfig Double} {view : BarView Double} {s : EngineState Double}

theorem not_short (hs : s.Solvent) (ticker : String) :
    PyFloat.lt (s.position ticker) (lit 0) = false := by
  obtain ⟨hzero, hzero'⟩ := lit_spec (q := 0) (by decide +kernel)
  rw [lt_eq (hs.held ticker).finite hzero, hzero']
  exact decide_eq_false (hs.held ticker).nonneg.not_gt

/-- What is done about a ticker is the order that is placed for it. -/
theorem act_eq_placed (hshort : cfg.execution.allowShortSelling = false) (hs : s.Solvent)
    (sizingEquity : Double) (nAssets : ℕ) (item : String × Double) :
    s.act cfg view sizingEquity nAssets item =
      match s.placed cfg view sizingEquity nAssets item with
      | some trade => s.trade cfg view trade.1 trade.2
      | none => s := by
  unfold EngineState.act EngineState.placed EngineState.enter EngineState.leave
  cases view.close item.1 with
  | none => rfl
  | some price =>
    simp only [not_short hs, hshort, Bool.false_and, Bool.false_eq_true, if_false]
    split
    · split
      · rfl
      · rfl
    · split
      · rfl
      · rfl

theorem offers_of_placed {sizingEquity : Double} {nAssets : ℕ} {item : String × Double}
    {trade : Double × Order Double}
    (h : s.placed cfg view sizingEquity nAssets item = some trade) : s.Offers trade.2 := by
  unfold EngineState.placed at h
  split at h
  · cases h
  · simp only at h
    split at h
    · rename_i hnone
      split at h
      · cases h
        exact (Bool.and_eq_true_iff.mp hnone).2
      · cases h
    · split at h
      · cases h
        rfl
      · cases h

theorem act_solvent (hcfg : cfg.execution.Nonnegative)
    (hshort : cfg.execution.allowShortSelling = false) (hs : s.Solvent) {sizingEquity : Double}
    {nAssets : ℕ} {item : String × Double}
    (hcovered : ∀ trade ∈ s.placed cfg view sizingEquity nAssets item,
      TradeCovers cfg.execution view s trade.1 trade.2) :
    (s.act cfg view sizingEquity nAssets item).Solvent := by
  rw [act_eq_placed hshort hs]
  cases hplaced : s.placed cfg view sizingEquity nAssets item with
  | none => exact hs
  | some trade => exact trade_solvent hcfg hs (offers_of_placed hplaced) (hcovered trade hplaced)

theorem mark_solvent (hs : s.Solvent) : (s.mark view).Solvent := by
  unfold EngineState.mark EngineState.recordReturns
  simp only
  split
  · split
    · exact ⟨hs.capital, hs.held⟩
    · exact ⟨hs.capital, hs.held⟩
  · exact ⟨hs.capital, hs.held⟩

/-- A bar whose orders are all covered keeps the account. -/
theorem runBar_solvent (hcfg : cfg.execution.Nonnegative)
    (hshort : cfg.execution.allowShortSelling = false) (hs : s.Solvent) {assets : List String}
    (hcovered : BarCovered cfg assets view s) : (runBar cfg assets s view).Solvent := by
  unfold runBar
  extract_lets equity items traded borrowed
  have htraded : traded.Solvent :=
    (foldSteps_induction (P := EngineState.Solvent)
      (fun step hstep hstate => act_solvent hcfg hshort hstate (hcovered step hstep)) hs).2
  have hborrowed : borrowed = traded := by
    refine foldl_induction (P := fun state => state = traded) (fun state item hitem hstate => ?_) rfl
    rw [hstate]
    have hposition : item.2 = traded.position item.1 := by
      rw [EngineState.position, Dict.get?_eq_some_iff.mpr hitem, Option.getD_some]
    unfold EngineState.borrow
    split
    · rfl
    · rw [hposition, not_short htraded]
      rfl
  rw [hborrowed]
  exact mark_solvent htraded

end Bars

/-! ## A run -/

/-- Every order of a run is covered. -/
def RunCovered (cfg : BacktestConfig Double) (assets : List String) (view : ℕ → BarView Double)
    (bars : List ℕ) (s : EngineState Double) : Prop :=
  ∀ step ∈ foldSteps (fun state bar => runBar cfg assets state (view bar)) bars s,
    BarCovered cfg assets (view step.2) step.1

instance (cfg : BacktestConfig Double) (assets : List String) (view : ℕ → BarView Double)
    (bars : List ℕ) (s : EngineState Double) : Decidable (RunCovered cfg assets view bars s) :=
  inferInstanceAs (Decidable (∀ step ∈ foldSteps _ _ _, _))

/-- The account at every bar. -/
theorem runBars_solvent {cfg : BacktestConfig Double} (hcfg : cfg.execution.Nonnegative)
    (hshort : cfg.execution.allowShortSelling = false) {view : ℕ → BarView Double}
    {assets : List String} {bars : List ℕ} {s : EngineState Double} (hs : s.Solvent)
    (hcovered : RunCovered cfg assets view bars s) :
    (∀ step ∈ foldSteps (fun state bar => runBar cfg assets state (view bar)) bars s,
      step.1.Solvent) ∧ (runBars cfg assets view bars s).Solvent :=
  foldSteps_induction (P := EngineState.Solvent)
    (fun step hstep hstate => runBar_solvent hcfg hshort hstate (hcovered step hstep)) hs

/-- A filled buy order that the cash covers costs no more than the cash; and the cash of a run
without short selling, whose orders are all covered, is negative at no bar. -/
theorem cash_never_negative {cfg : ExecutionConfig Double} (hcfg : cfg.Nonnegative) :
    (∀ desiredShares price dailyVol avgVolume cash position : Double,
      desiredShares.isFinite = true → price.Nonneg → dailyVol.Nonneg → avgVolume.Nonneg →
      cash.Nonneg → cfg.CashCovers desiredShares price dailyVol avgVolume cash →
      ∀ fill, fill = cfg.executeOrder .buy desiredShares price dailyVol avgVolume cash position →
        fill.filled = true →
          PyFloat.le (fill.fillQty * fill.fillPrice + fill.commission) cash = true) ∧
      ∀ (backtest : BacktestConfig Double) (panel : Panel Double)
        (signals : Dict String (List Double)) (dates : Option (List String)) (delay : ℕ)
        (assets : List String) (bars : List ℕ),
        backtest.execution = cfg → cfg.allowShortSelling = false →
        backtest.initialCapital.Nonneg →
        RunCovered backtest assets (viewAt panel signals dates delay) bars
          (EngineState.initial backtest.initialCapital) →
        (∀ step ∈ foldSteps
            (fun state bar =>
              runBar backtest assets state (viewAt panel signals dates delay bar)) bars
            (EngineState.initial backtest.initialCapital), step.1.capital.Nonneg) ∧
          (runBars backtest assets (viewAt panel signals dates delay) bars
            (EngineState.initial backtest.initialCapital)).capital.Nonneg := by
  constructor
  · rintro desiredShares price dailyVol avgVolume cash position hdesired hprice hvol hvolume hcash
      hcovers fill hfill hfilled
    obtain ⟨-, hspent, hle⟩ := buy_within_cash hcfg hdesired hprice hvol hvolume hcash hcovers hfill
      hfilled
    rw [le_eq hspent.finite hcash.finite]
    exact decide_eq_true hle
  · rintro backtest panel signals dates delay assets bars rfl hshort hcapital hcovered
    obtain ⟨hzero, hzero'⟩ := lit_spec (q := 0) (by decide +kernel)
    have hinitial : (EngineState.initial backtest.initialCapital).Solvent :=
      ⟨hcapital, fun _ => ⟨hzero, hzero'.ge⟩⟩
    obtain ⟨hbars, hlast⟩ := runBars_solvent hcfg hshort hinitial hcovered
    exact ⟨fun step hstep => (hbars step hstep).capital, hlast.capital⟩

/-- A walk-forward validation of a crossover, at the costs of a retail account and with a reserve. -/
def retailWalkForward (reserve : ℚ) : WalkForwardConfig Double where
  windowType := .rolling
  trainYears := 2
  testYears := 1
  stepYears := 1
  step_pos := by decide
  strategy := ⟨.maCrossover, 1, 2, lit 0.15, lit (-0.15), 1, lit 0.05, lit (-0.02), 20, lit (-2),
    lit 0⟩
  execution := { retailConfig with cashReservePct := lit reserve }
  fastWindowRange := [1]
  slowWindowRange := [2]
  optimizeParameters := false
  sizer := none

/-- The backtest of one of its windows. -/
def walkForwardWindow (reserve : ℚ) : BacktestConfig Double where
  assets := ["SPY"]
  initialCapital := lit 100000
  strategy := (retailWalkForward reserve).strategy
  execution := (retailWalkForward reserve).longOnly

/-- The price falls and rises again, then falls. -/
def crossingPanel : Panel Double :=
  Dict.empty.set "SPY" ⟨[lit 100, lit 90, lit 110, lit 110, lit 100, lit 90], none⟩

/-- A buy order of the whole account. -/
def wholeAccountBuy (reserve : ℚ) : FillResult Double :=
  (retailWalkForward reserve).longOnly.executeOrder .buy (lit 1000) (lit 100) (lit 0.02) (lit 1e6)
    (lit 100000) (lit 0)

/-- A buy order without costs, whose product is rounded up past the cash. -/
def roundedBuy : FillResult Double :=
  zeroCostConfig.executeOrder .buy (lit 15) (lit 16.6) (lit 0) (lit 1e6) (lit 249) (lit 0)

end Account

local instance : Reductions := plainReductions id

theorem retailWalkForward_nonnegative : (retailWalkForward 0.01).longOnly.Nonnegative where
  perShare := by decide +kernel
  pctOfNotional := by decide +kernel
  minPerTrade := by decide +kernel
  maxPctOfNotional := by decide +kernel
  baseBps := by decide +kernel
  volatilityFactor := by decide +kernel
  volumeParticipationLimit := by decide +kernel
  baseSpreadBps := by decide +kernel
  volMultiplier := by decide +kernel
  cashReservePct := by decide +kernel

/-- A reserve of one percent pays for the commissions, of an order and of a window. -/
theorem cash_never_negative_reserve :
    PyFloat.le ((wholeAccountBuy 0.01).fillQty * (wholeAccountBuy 0.01).fillPrice +
        (wholeAccountBuy 0.01).commission) (lit 100000) = true ∧
      ∃ signals, allSignals ⟨fun _ => lit 0, id⟩ (walkForwardWindow 0.01) crossingPanel 0 6 ["SPY"] =
          .ok signals ∧
        (runBars (walkForwardWindow 0.01) ["SPY"] (viewAt crossingPanel signals none 1)
          (List.range' 1 5) (EngineState.initial (lit 100000))).capital.Nonneg := by
  have hcovered : (fun signals => decide (RunCovered (walkForwardWindow 0.01) ["SPY"]
      (viewAt crossingPanel signals none 1) (List.range' 1 5)
        (EngineState.initial (lit 100000)))) <$>
      allSignals ⟨fun _ => lit 0, id⟩ (walkForwardWindow 0.01) crossingPanel 0 6 ["SPY"] =
        .ok true := by
    decide +kernel
  constructor
  · exact (cash_never_negative retailWalkForward_nonnegative).1 _ _ _ _ _ (lit 0) (by decide +kernel)
      (by decide +kernel) (by decide +kernel) (by decide +kernel) (by decide +kernel)
      (by decide +kernel) (wholeAccountBuy 0.01) rfl (by decide +kernel)
  · obtain ⟨signals, hsignals, hdecided⟩ := map_eq_ok_iff.mp hcovered
    exact ⟨signals, hsignals, ((cash_never_negative retailWalkForward_nonnegative).2
      (walkForwardWindow 0.01) crossingPanel signals none 1 ["SPY"] (List.range' 1 5) rfl rfl
      (by decide +kernel) (of_decide_eq_true hdecided)).2⟩

/-- Without a reserve a buy takes more than the cash, by its commission or only by its rounding, and a
walk-forward window ends with negative cash. -/
theorem walk_forward_overspends :
    ((wholeAccountBuy 0).filled = true ∧
      PyFloat.lt (lit 100000) ((wholeAccountBuy 0).fillQty * (wholeAccountBuy 0).fillPrice +
        (wholeAccountBuy 0).commission) = true) ∧
      (roundedBuy.filled = true ∧ PyFloat.lt (lit 249) (roundedBuy.fillQty * roundedBuy.fillPrice +
        roundedBuy.commission) = true) ∧
      ∃ signals, allSignals ⟨fun _ => lit 0, id⟩ (walkForwardWindow 0) crossingPanel 0 6 ["SPY"] =
          .ok signals ∧
        PyFloat.lt (runBars (walkForwardWindow 0) ["SPY"] (viewAt crossingPanel signals none 1)
          (List.range' 1 3) (EngineState.initial (lit 100000))).capital (lit 0) = true := by
  have hnegative : (fun signals => PyFloat.lt (runBars (walkForwardWindow 0) ["SPY"]
      (viewAt crossingPanel signals none 1) (List.range' 1 3)
        (EngineState.initial (lit 100000))).capital (lit 0)) <$>
      allSignals ⟨fun _ => lit 0, id⟩ (walkForwardWindow 0) crossingPanel 0 6 ["SPY"] =
        .ok true := by
    decide +kernel
  exact ⟨by decide +kernel, by decide +kernel, map_eq_ok_iff.mp hnegative⟩

end QuantumSentinel.Backtest
