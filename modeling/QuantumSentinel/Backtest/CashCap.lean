import QuantumSentinel.Backtest.Doubles
import QuantumSentinel.Backtest.Engine

/-!
# Backtests: the cap of a buy order

A buy order is capped at the shares that the cash behind the reserve pays for at the price of the
fill.  The commission comes on top, computed from the capped quantity.  Numbers are doubles, so that
every quantity, price and product is also rounded.

Main results:

- Theorem `executeOrder_filled`: what an order fills at.
- Definition `ExecutionConfig.CashCovers`: the cash pays for the order, or the reserve for the
  commission of what the rest of the cash buys.
- Theorem `buyPrice_le`: the price of a fill is the one without roundings, up to one part in
  10^12.
- Theorem `buy_within_cash`: a covered buy does not overspend.

Current gaps:

- Orders with a field that is infinite or `NaN`.
-/

namespace QuantumSentinel.Backtest

open Lib

/-! ## What an order fills at -/

section Fills

variable {F : Type} [PyFloat F]

namespace ExecutionConfig

variable (cfg : ExecutionConfig F)

/-- The shares that the volume allows. -/
def volumeQty (desired avgVolume : F) : F :=
  if cfg.slippage.canFillFully desired avgVolume then desired
  else PyFloat.abs (cfg.slippage.partialFillQty desired avgVolume)

/-- The price of a fill of some shares. -/
def priceOf (side : Side) (price dailyVol avgVolume shares : F) : F :=
  cfg.slippedPrice side price dailyVol (cfg.slippage.compute price shares dailyVol avgVolume)

/-- The shares of a fill at a price: of a buy, no more than the cash pays for. -/
def cappedShares (side : Side) (shares availableCash fillPrice : F) : F :=
  if side = .buy && PyFloat.lt (cfg.affordable availableCash fillPrice) shares then
    cfg.affordable availableCash fillPrice
  else shares

end ExecutionConfig

/-- The quantity, the price and the commission of an order that is filled. -/
theorem executeOrder_filled {cfg : ExecutionConfig F} {side : Side}
    {desiredShares price dailyVol avgVolume availableCash currentPosition shares fillPrice : F}
    (hshares : shares = cfg.volumeQty
      (cfg.permittedShares side (PyFloat.abs desiredShares) currentPosition) avgVolume)
    (hprice : fillPrice = cfg.priceOf side price dailyVol avgVolume shares)
    (h : (cfg.executeOrder side desiredShares price dailyVol avgVolume availableCash
      currentPosition).filled = true) :
    PyFloat.lt price (lit 1e-9) = false ∧
      PyFloat.lt (cfg.cappedShares side shares availableCash fillPrice) (lit 1e-9) = false ∧
      (cfg.executeOrder side desiredShares price dailyVol avgVolume availableCash
        currentPosition).fillQty =
          PyFloat.round (cfg.cappedShares side shares availableCash fillPrice) 6 ∧
      (cfg.executeOrder side desiredShares price dailyVol avgVolume availableCash
        currentPosition).fillPrice = PyFloat.round fillPrice 6 ∧
      (cfg.executeOrder side desiredShares price dailyVol avgVolume availableCash
        currentPosition).commission = PyFloat.round (cfg.commission.compute
          (cfg.cappedShares side shares availableCash fillPrice) fillPrice) 4 := by
  subst hprice
  subst hshares
  unfold ExecutionConfig.executeOrder at h ⊢
  extract_lets at h ⊢
  split at h
  · cases h
  · rename_i hzero
    split at h
    · cases h
    · rename_i hshort
      split at h
      · cases h
      · rename_i hsmall
        rw [if_neg hzero, if_neg hshort, if_neg hsmall]
        rw [Bool.or_eq_true, not_or] at hzero
        exact ⟨eq_false_of_ne_true hzero.2, eq_false_of_ne_true hsmall, rfl, rfl, rfl⟩

end Fills

/-! ## Rounded products -/

/-- A part of the price in basis points. -/
theorem nearest_bps {y b e E c : ℚ} (hy : 1 / 10 ^ 10 ≤ y) (hb : 0 ≤ b) (he : 0 ≤ e)
    (heE : e ≤ E + E / 10 ^ 14 + 1 / 10 ^ 10) (hE : 0 ≤ E) (hc : 10000 ≤ c) :
    nearest (nearest (y * nearest (b + e)) / c) ≤
      y * (b + E) / c + (y * (b + E) / c + y) / 10 ^ 13 := by
  have htiny := tiny_le
  have hy0 : 0 ≤ y := le_trans (by norm_num) hy
  have hc0 : 0 < c := by linarith
  have hZ : 0 ≤ y * (b + E) := mul_nonneg hy0 (add_nonneg hb hE)
  have hs : nearest (b + e) ≤ (b + E) * (1 + 2 / 10 ^ 14) + 2 / 10 ^ 10 := by
    have hround := nearest_le (add_nonneg hb he)
    linarith
  have hw : nearest (y * nearest (b + e)) ≤ y * (b + E) * (1 + 3 / 10 ^ 14) + y * (3 / 10 ^ 10) := by
    have hround := nearest_le (mul_nonneg hy0 (nearest_nonneg (add_nonneg hb he)))
    have hmul := mul_le_mul_of_nonneg_left hs hy0
    linarith
  have hdiv : nearest (y * nearest (b + e)) / c ≤
      y * (b + E) / c * (1 + 3 / 10 ^ 14) + y * (3 / 10 ^ 14) := by
    rw [div_le_iff₀ hc0, add_mul, mul_right_comm, div_mul_cancel₀ _ hc0.ne']
    have hpart : y * (3 / 10 ^ 10) ≤ y * (3 / 10 ^ 14) * c := by
      rw [mul_assoc]
      exact mul_le_mul_of_nonneg_left (by linarith) hy0
    linarith
  have hround := nearest_le (div_nonneg (nearest_nonneg (mul_nonneg hy0
    (nearest_nonneg (add_nonneg hb he)))) hc0.le)
  have hQ : 0 ≤ y * (b + E) / c := div_nonneg hZ hc0.le
  linarith

/-- A rate times a volatility in basis points. -/
theorem nearest_rate {a v : ℚ} (ha : 0 ≤ a) (hv : 0 ≤ v) :
    nearest (nearest (a * v) * 10000) ≤
      a * v * 10000 * (1 + 3 / 10 ^ 15) + 20000 * tiny := by
  have hav := mul_nonneg ha hv
  have hround := nearest_le hav
  have hround' := nearest_le (mul_nonneg (nearest_nonneg hav) (by norm_num : (0 : ℚ) ≤ 10000))
  have htiny := tiny_pos
  linarith

/-! ## Doubles that are not negative -/

section Doubles

variable [Reductions]

theorem below_pyMin {a b : Double} {p q : ℚ} (ha : a.Below p) (hb : b.Below q) :
    (pyMin a b).Below (min p q) := by
  unfold pyMin
  cases a with
  | nan => cases ha
  | infinite s =>
    obtain ⟨rfl, hp⟩ := ha
    cases b with
    | nan => cases hb
    | infinite t =>
      obtain ⟨rfl, hq⟩ := hb
      exact ⟨rfl, lt_min hp hq⟩
    | finite y hy =>
      exact ⟨hb.1, le_min ((le_abs_self y).trans (hy.2.trans hp.le)) hb.2⟩
  | finite x hx =>
    cases b with
    | nan => cases hb
    | infinite t =>
      obtain ⟨rfl, hq⟩ := hb
      exact ⟨ha.1, le_min ha.2 ((le_abs_self x).trans (hx.2.trans hq.le))⟩
    | finite y hy =>
      split
      · rename_i hlt
        exact ⟨hb.1, le_min ((of_decide_eq_true hlt).le.trans ha.2) hb.2⟩
      · rename_i hlt
        have hle : x ≤ y := not_lt.mp fun h => hlt (decide_eq_true h)
        exact ⟨ha.1, le_min ha.2 (hle.trans hb.2)⟩

theorem below_pyMax {a b : Double} {p q : ℚ} (ha : a.Below p) (hb : b.Below q) :
    (pyMax a b).Below (max p q) := by
  unfold pyMax
  split
  · exact hb.mono (le_max_right p q)
  · exact ha.mono (le_max_left p q)

theorem abs_nonneg_eq {a : Double} (h : a.Nonneg) : PyFloat.abs a = a := by
  obtain ⟨_, ha⟩ := Double.eq_finite h.finite
  have hnonneg := h.nonneg
  change Double.abs a = a
  rw [Double.abs, ha, Double.negative, decide_eq_false hnonneg.not_gt]
  rfl

theorem abs_finite {a : Double} (h : a.isFinite = true) :
    (PyFloat.abs a).Nonneg ∧ (PyFloat.abs a).value = |a.value| := by
  cases a with
  | finite x hx =>
    change (if decide (x < 0) then Double.finite (-x) _ else Double.finite x hx).Nonneg ∧
      (if decide (x < 0) then Double.finite (-x) _ else Double.finite x hx).value = |x|
    by_cases hneg : x < 0
    · rw [if_pos (decide_eq_true hneg), abs_of_neg hneg]
      exact ⟨⟨rfl, (neg_pos.mpr hneg).le⟩, rfl⟩
    · rw [if_neg (by simpa using hneg), abs_of_nonneg (not_lt.mp hneg)]
      exact ⟨⟨rfl, not_lt.mp hneg⟩, rfl⟩
  | infinite s => cases h
  | nan => cases h

theorem lt_eq {a b : Double} (ha : a.isFinite = true) (hb : b.isFinite = true) :
    PyFloat.lt a b = decide (a.value < b.value) := by
  obtain ⟨_, ha⟩ := Double.eq_finite ha
  obtain ⟨_, hb⟩ := Double.eq_finite hb
  rw [ha, hb]
  rfl

theorem le_eq {a b : Double} (ha : a.isFinite = true) (hb : b.isFinite = true) :
    PyFloat.le a b = decide (a.value ≤ b.value) := by
  obtain ⟨_, ha⟩ := Double.eq_finite ha
  obtain ⟨_, hb⟩ := Double.eq_finite hb
  rw [ha, hb, Bool.eq_iff_iff, decide_eq_true_iff, le_iff_lt_or_eq]
  change (decide _ || decide _) = true ↔ _
  rw [Bool.or_eq_true, decide_eq_true_iff, decide_eq_true_iff]
  rfl

/-- A rounded number is a number. -/
theorem round_nonneg {a : Double} (h : a.Nonneg) (digits : ℕ) :
    (PyFloat.round a digits).Nonneg ∧
      (PyFloat.round a digits).value = nearest (roundDecimals a.value digits) := by
  obtain ⟨_, ha⟩ := Double.eq_finite h.finite
  have hround : PyFloat.round a digits = .ofRat (roundDecimals a.value digits) := by
    change a.rounded _ = _
    rw [ha]
    rfl
  have hnonneg := roundDecimals_nonneg h.nonneg digits
  have hfinite : (Double.ofRat (roundDecimals a.value digits)).isFinite = true := by
    apply Double.finite_ofRat
    rw [abs_of_nonneg (nearest_nonneg hnonneg)]
    have hmono := nearest_mono (roundDecimals_mono a.value_le digits)
    rw [roundDecimals_largest] at hmono
    exact hmono.trans (by decide +kernel)
  rw [hround]
  exact ⟨⟨hfinite, by rw [Double.value_ofRat hfinite]; exact nearest_nonneg hnonneg⟩,
    Double.value_ofRat hfinite⟩

/-- What rounding to some decimals adds or takes. -/
theorem round_bounds {a : Double} (h : a.Nonneg) {digits : ℕ} (hdigits : digits ≤ 6) :
    (PyFloat.round a digits).Nonneg ∧
      a.value * (1 - 1 / 10 ^ 15) - 6 / 10 ^ (digits + 1) ≤ (PyFloat.round a digits).value ∧
      (PyFloat.round a digits).value ≤ a.value * (1 + 1 / 10 ^ 15) + 6 / 10 ^ (digits + 1) := by
  obtain ⟨hround, hvalue⟩ := round_nonneg h digits
  have hnonneg := roundDecimals_nonneg h.nonneg digits
  have herror := abs_le.mp (abs_roundDecimals_sub_le a.value digits)
  have hsmall : (1 : ℚ) / 10 ^ 6 ≤ 1 / 10 ^ digits :=
    one_div_le_one_div_of_le (by positivity) (pow_le_pow_right₀ (by norm_num) hdigits)
  have htiny := tiny_le
  have hunit : (6 : ℚ) / 10 ^ (digits + 1) = 6 / 10 * (1 / 10 ^ digits) := by
    rw [pow_succ]
    field_simp
  have hhalf : (1 : ℚ) / 2 / 10 ^ digits = 1 / 2 * (1 / 10 ^ digits) := by
    ring
  rw [hhalf] at herror
  rw [hvalue, hunit]
  refine ⟨hround, ?_, ?_⟩
  · linarith [le_nearest hnonneg]
  · linarith [nearest_le hnonneg]

/-- A quantity at a price, both rounded to millionths. -/
theorem notional_bounds {x p : Double} (hx : x.Nonneg) (hp : p.Nonneg) :
    x.value * p.value * (1 - 3 / 10 ^ 15) - (x.value + p.value) * (7 / 10 ^ 7) - 1 / 10 ^ 12 ≤
        (PyFloat.round x 6).value * (PyFloat.round p 6).value ∧
      (PyFloat.round x 6).value * (PyFloat.round p 6).value ≤
        x.value * p.value * (1 + 3 / 10 ^ 15) + (x.value + p.value) * (7 / 10 ^ 7) +
          1 / 10 ^ 12 := by
  have hx0 := hx.nonneg
  have hp0 := hp.nonneg
  have hn0 := mul_nonneg hx0 hp0
  obtain ⟨hrx, hrxlow, hrxhigh⟩ := round_bounds hx (le_refl 6)
  obtain ⟨hrp, hrplow, hrphigh⟩ := round_bounds hp (le_refl 6)
  constructor
  · have hfirst := mul_le_mul_of_nonneg_right hrxlow hrp.nonneg
    have hsecond := mul_le_mul_of_nonneg_left hrplow hx0
    linarith
  · refine (mul_le_mul hrxhigh hrphigh hrp.nonneg (by positivity)).trans ?_
    linarith

end Doubles

/-! ## Costs without roundings -/

/-- The fields of a configuration are numbers, and none is negative but perhaps the reserve. -/
structure ExecutionConfig.Nonnegative (cfg : ExecutionConfig Double) : Prop where
  perShare : cfg.commission.perShare.Nonneg
  pctOfNotional : cfg.commission.pctOfNotional.Nonneg
  minPerTrade : cfg.commission.minPerTrade.Nonneg
  maxPctOfNotional : cfg.commission.maxPctOfNotional.Nonneg
  baseBps : cfg.slippage.baseBps.Nonneg
  volatilityFactor : cfg.slippage.volatilityFactor.Nonneg
  volumeParticipationLimit : cfg.slippage.volumeParticipationLimit.Nonneg
  baseSpreadBps : cfg.spread.baseSpreadBps.Nonneg
  volMultiplier : cfg.spread.volMultiplier.Nonneg
  cashReservePct : cfg.cashReservePct.isFinite = true

namespace ExecutionConfig

variable (cfg : ExecutionConfig Double)

/-- The commission on some shares with a notional value. -/
def fee (shares notional : ℚ) : ℚ :=
  min (max cfg.commission.minPerTrade.value
      (shares * cfg.commission.perShare.value + notional * cfg.commission.pctOfNotional.value))
    (notional * cfg.commission.maxPctOfNotional.value)

/-- The spread and the slippage of a buy of some shares, in front of the price. -/
def buyPrice (shares price dailyVol avgVolume : ℚ) : ℚ :=
  price +
    price * (cfg.spread.baseSpreadBps.value + cfg.spread.volMultiplier.value * dailyVol * 10000) /
      20000 +
    price * (cfg.slippage.baseBps.value + cfg.slippage.volatilityFactor.value * dailyVol * 10000 *
      min (shares / avgVolume) cfg.slippage.volumeParticipationLimit.value) / 10000

/-- What some shares cost at most behind all roundings: those of the quantity and the price to
millionths and of the commission to hundredths of a cent, and one part in 10^10 for the others. -/
def spend (shares notional fillPrice : ℚ) : ℚ :=
  (notional + cfg.fee shares notional) * (1 + 1 / 10 ^ 10) + (shares + fillPrice) / 10 ^ 6 +
    1 / 10 ^ 4

end ExecutionConfig

/-- More shares have no smaller commission, and the commission of a part more is no more than a
part more. -/
theorem fee_le {cfg : ExecutionConfig Double} (hcfg : cfg.Nonnegative) {x n X N r : ℚ}
    (hr : 1 ≤ r) (hx : x ≤ X * r) (hn : n ≤ N * r) : cfg.fee x n ≤ cfg.fee X N * r := by
  have hr0 : 0 ≤ r := zero_le_one.trans hr
  unfold ExecutionConfig.fee
  rw [min_mul_of_nonneg _ _ hr0, max_mul_of_nonneg _ _ hr0]
  refine min_le_min (max_le_max (le_mul_of_one_le_right hcfg.minPerTrade.nonneg hr) ?_) ?_
  · have hshare := mul_le_mul_of_nonneg_right hx hcfg.perShare.nonneg
    have hpct := mul_le_mul_of_nonneg_right hn hcfg.pctOfNotional.nonneg
    linarith
  · have hmost := mul_le_mul_of_nonneg_right hn hcfg.maxPctOfNotional.nonneg
    linarith

theorem fee_nonneg {cfg : ExecutionConfig Double} (hcfg : cfg.Nonnegative) {n : ℚ} (hn : 0 ≤ n)
    (x : ℚ) : 0 ≤ cfg.fee x n :=
  le_min (le_max_of_le_left hcfg.minPerTrade.nonneg) (mul_nonneg hn hcfg.maxPctOfNotional.nonneg)

/-- A finite part of the price in basis points. -/
theorem bps_le {price base extra divisor : Double} {E c : ℚ} (hprice : 1 / 10 ^ 10 ≤ price.value)
    (hbase : base.Nonneg) (hextra : 0 ≤ extra.value)
    (hE : extra.value ≤ E + E / 10 ^ 14 + 1 / 10 ^ 10) (hE0 : 0 ≤ E)
    (hdivisor : divisor.isFinite = true ∧ divisor.value = c) (hc : 10000 ≤ c)
    (h : (price * (base + extra) / divisor).isFinite = true) :
    0 ≤ (price * (base + extra) / divisor).value ∧
      (price * (base + extra) / divisor).value ≤ price.value * (base.value + E) / c +
        (price.value * (base.value + E) / c + price.value) / 10 ^ 13 := by
  have hc0 : 0 < c := by linarith
  have hproduct := Double.finite_div h hdivisor.1
  have hsum := (Double.finite_mul hproduct).2
  have hprice0 : 0 ≤ price.value := le_trans (by norm_num) hprice
  rw [Double.value_div h hdivisor.1 (by rw [hdivisor.2]; exact hc0.ne'), Double.value_mul hproduct,
    Double.value_add hsum, hdivisor.2]
  refine ⟨nearest_nonneg (div_nonneg (nearest_nonneg (mul_nonneg hprice0 (nearest_nonneg
    (add_nonneg hbase.nonneg hextra)))) hc0.le), ?_⟩
  exact nearest_bps hprice hbase.nonneg hextra hE hE0 hc

section Costs

variable [Reductions] {cfg : ExecutionConfig Double}

/-- The commission behind its roundings. -/
theorem commission_below (hcfg : cfg.Nonnegative) {x p : Double} (hx : x.Nonneg) (hp : p.Nonneg)
    (hlarge : 1 / 10 ^ 30 ≤ x.value * p.value) (hnotional : (x * p).isFinite = true) :
    (cfg.commission.compute x p).Below
      (cfg.fee x.value (x.value * p.value) * (1 + 1 / 10 ^ 14) + 1 / 10 ^ 50) := by
  have htiny := tiny_le
  have hn0 := mul_nonneg hx.nonneg hp.nonneg
  obtain ⟨hn, -⟩ := (hx.mul hp).nonneg hnotional
  have hnle : (x * p).value ≤ x.value * p.value * (1 + 2 / 10 ^ 15) := by
    rw [Double.value_mul hnotional]
    exact (nearest_le_of_le hlarge).trans_eq (by ring)
  -- a product with a rate is a part more, and half the smallest number
  have hrate : ∀ {a b : Double} {q : ℚ}, a.Nonneg → b.Nonneg → a.value ≤ q * (1 + 2 / 10 ^ 15) →
      0 ≤ q → (a * b).Below (q * b.value * (1 + 4 / 10 ^ 15) + 1 / 10 ^ 90) := by
    intro a b q ha hb hq hq0
    refine (ha.mul hb).mono ((nearest_le (mul_nonneg ha.nonneg hb.nonneg)).trans ?_)
    have hmul := mul_le_mul_of_nonneg_right hq hb.nonneg
    have hqb := mul_nonneg hq0 hb.nonneg
    linarith
  have hshare := hrate hx hcfg.perShare (by linarith [hx.nonneg]) hx.nonneg
  have hpct := hrate hn hcfg.pctOfNotional hnle hn0
  have hmost := hrate hn hcfg.maxPctOfNotional hnle hn0
  have hleast : cfg.commission.minPerTrade.Below
      (cfg.commission.minPerTrade.value * (1 + 1 / 10 ^ 14) + 1 / 10 ^ 50) :=
    hcfg.minPerTrade.below.mono (by linarith [hcfg.minPerTrade.nonneg])
  have hsum := (hshare.add hpct).mono (q := (x.value * cfg.commission.perShare.value +
      x.value * p.value * cfg.commission.pctOfNotional.value) * (1 + 1 / 10 ^ 14) + 1 / 10 ^ 50) (by
    have hshare0 := mul_nonneg hx.nonneg hcfg.perShare.nonneg
    have hpct0 := mul_nonneg hn0 hcfg.pctOfNotional.nonneg
    linarith)
  have hcommission := below_pyMin (below_pyMax hleast hsum) (hmost.mono (q :=
      x.value * p.value * cfg.commission.maxPctOfNotional.value * (1 + 1 / 10 ^ 14) + 1 / 10 ^ 50)
    (by linarith [mul_nonneg hn0 hcfg.maxPctOfNotional.nonneg]))
  have hscale : (0 : ℚ) ≤ 1 + 1 / 10 ^ 14 := by norm_num
  rw [max_add_add_right, min_add_add_right, ← max_mul_of_nonneg _ _ hscale,
    ← min_mul_of_nonneg _ _ hscale] at hcommission
  unfold CommissionModel.compute
  rw [abs_nonneg_eq hx]
  exact hcommission

/-- Shares at a price, both rounded to millionths, cost no more than the cash, with the commission,
when the bound on what they can cost is no more. -/
theorem outlay_le (hcfg : cfg.Nonnegative) {x p cash : Double} (hx : x.Nonneg) (hp : p.Nonneg)
    (hlarge : 1 / 10 ^ 30 ≤ x.value * p.value) {X N T : ℚ}
    (hX : x.value ≤ X * (1 + 1 / 10 ^ 11)) (hN : x.value * p.value ≤ N * (1 + 1 / 10 ^ 11))
    (hT : p.value ≤ T * (1 + 1 / 10 ^ 11)) (hspend : cfg.spend X N T ≤ cash.value) :
    (PyFloat.round x 6 * PyFloat.round p 6 +
        PyFloat.round (cfg.commission.compute x p) 4).Nonneg ∧
      (PyFloat.round x 6 * PyFloat.round p 6 +
        PyFloat.round (cfg.commission.compute x p) 4).value ≤ cash.value := by
  have hx0 := hx.nonneg
  have hp0 := hp.nonneg
  have hn0 := mul_nonneg hx0 hp0
  have hX0 : 0 ≤ X := by linarith
  have hN0 : 0 ≤ N := by linarith
  have hT0 : 0 ≤ T := by linarith
  have hfee0 := fee_nonneg hcfg hN0 X
  unfold ExecutionConfig.spend at hspend
  -- the notional value
  obtain ⟨hrx, -⟩ := round_nonneg hx 6
  obtain ⟨hrp, -⟩ := round_nonneg hp 6
  have hproduct := (notional_bounds hx hp).2
  have hround := nearest_le (mul_nonneg hrx.nonneg hrp.nonneg)
  have htiny := tiny_le
  have hnotional : (PyFloat.round x 6 * PyFloat.round p 6).isFinite = true := by
    rw [Double.mul_eq hrx.finite hrp.finite]
    exact Double.finite_ofRat_of_le (mul_nonneg hrx.nonneg hrp.nonneg) (b := cash) (by linarith)
  have hpaid := Double.value_mul hnotional
  -- the commission
  have hexact : (x * p).isFinite = true := by
    rw [Double.mul_eq hx.finite hp.finite]
    exact Double.finite_ofRat_of_le hn0 (b := cash) (by linarith)
  have hbelow := commission_below hcfg hx hp hlarge hexact
  have hfee := fee_le hcfg (r := 1 + 1 / 10 ^ 11) (by norm_num) hX hN
  obtain ⟨hc, hcle⟩ := hbelow.nonneg (hbelow.finite (by linarith [cash.value_le]))
  obtain ⟨hrc, -, hrcle⟩ := round_bounds hc (by decide : 4 ≤ 6)
  -- their sum
  have htotal : (PyFloat.round x 6 * PyFloat.round p 6).value +
      (PyFloat.round (cfg.commission.compute x p) 4).value ≤ cash.value := by
    rw [hpaid]
    linarith
  have hpaid0 : 0 ≤ (PyFloat.round x 6 * PyFloat.round p 6).value := by
    rw [hpaid]
    exact nearest_nonneg (mul_nonneg hrx.nonneg hrp.nonneg)
  have hfinite : (PyFloat.round x 6 * PyFloat.round p 6 +
      PyFloat.round (cfg.commission.compute x p) 4).isFinite = true := by
    rw [Double.add_eq hnotional hrc.finite]
    exact Double.finite_ofRat_of_le (add_nonneg hpaid0 hrc.nonneg) htotal
  have hvalue := Double.value_add hfinite
  refine ⟨⟨hfinite, ?_⟩, ?_⟩
  · rw [hvalue]
    exact nearest_nonneg (add_nonneg hpaid0 hrc.nonneg)
  · rw [hvalue, ← cash.nearest_value]
    exact nearest_mono htotal

/-! ## The price of a buy -/

/-- A literal that is a double. -/
theorem lit_spec {q : ℚ} (h : nearest q = q ∧ |q| ≤ largest) :
    (lit q : Double).isFinite = true ∧ (lit q : Double).value = q := by
  have hfinite : (Double.ofRat q).isFinite = true := Double.finite_ofRat (h.1.symm ▸ h.2)
  exact ⟨hfinite, (Double.value_ofRat hfinite).trans h.1⟩

/-- A finite rate times a volatility in basis points. -/
theorem value_rate {a v : Double} (ha : a.Nonneg) (hv : v.Nonneg)
    (h : (a * v * lit 10000).isFinite = true) :
    0 ≤ (a * v * lit 10000).value ∧ (a * v * lit 10000).value ≤
      a.value * v.value * 10000 * (1 + 3 / 10 ^ 15) + 20000 * tiny := by
  obtain ⟨-, hten⟩ := lit_spec (q := 10000) (by decide +kernel)
  rw [Double.value_mul h, Double.value_mul (Double.finite_mul h).1, hten]
  exact ⟨nearest_nonneg (mul_nonneg (nearest_nonneg (mul_nonneg ha.nonneg hv.nonneg))
    (by norm_num)), nearest_rate ha.nonneg hv.nonneg⟩

/-- The volume that a number of shares takes part in. -/
theorem participation_le {q volume limit : Double} (hq : q.Nonneg) (hvolume : volume.Nonneg)
    (hpos : 0 < volume.value) (hlimit : limit.Nonneg) {D : ℚ} (hD : q.value ≤ D) :
    0 ≤ (pyMin (PyFloat.abs q / volume) limit).value ∧
      (pyMin (PyFloat.abs q / volume) limit).value ≤
        min (D / volume.value) limit.value * (1 + 1 / 10 ^ 15) + tiny := by
  have hratio : q.value / volume.value ≤ D / volume.value := div_le_div_of_nonneg_right hD hpos.le
  have hratio0 : 0 ≤ q.value / volume.value := div_nonneg hq.nonneg hpos.le
  rw [abs_nonneg_eq hq]
  have hbelow := below_pyMin (hq.div hvolume hpos) hlimit.below
  obtain ⟨hpart, hpartle⟩ := hbelow.nonneg (hbelow.finite ((min_le_right _ _).trans limit.value_le))
  refine ⟨hpart.nonneg, hpartle.trans ?_⟩
  rw [min_mul_of_nonneg _ _ (by norm_num), ← min_add_add_right]
  refine min_le_min ((nearest_mono hratio).trans ?_) ?_
  · linarith [nearest_le (hratio0.trans hratio)]
  · linarith [hlimit.nonneg, tiny_pos]

/-- A finite spread of a buy, no more than the one without roundings and a part of the price. -/
theorem spread_le (hcfg : cfg.Nonnegative) {price dailyVol : Double}
    (hprice : 1 / 10 ^ 10 ≤ price.value) (hvol : dailyVol.Nonneg)
    (h : (cfg.spread.estimateSpread price dailyVol).isFinite = true) {spread : ℚ}
    (hspread : spread = price.value * (cfg.spread.baseSpreadBps.value +
      cfg.spread.volMultiplier.value * dailyVol.value * 10000) / 20000) :
    0 ≤ (cfg.spread.estimateSpread price dailyVol).value ∧
      (cfg.spread.estimateSpread price dailyVol).value ≤
        spread + (spread + price.value) / 10 ^ 13 := by
  subst hspread
  have htwenty := lit_spec (q := 20000) (by decide +kernel)
  have hextra := (Double.finite_add (Double.finite_mul (Double.finite_div h htwenty.1)).2).2
  obtain ⟨hrate0, hrate⟩ := value_rate hcfg.volMultiplier hvol hextra
  have hproduct := mul_nonneg hcfg.volMultiplier.nonneg hvol.nonneg
  exact bps_le hprice hcfg.baseSpreadBps hrate0 (by linarith [tiny_le])
    (mul_nonneg hproduct (by norm_num)) htwenty (by norm_num) h

/-- A finite slippage of some shares. -/
theorem slippage_le (hcfg : cfg.Nonnegative) {price dailyVol volume q : Double}
    (hprice : 1 / 10 ^ 10 ≤ price.value) (hvol : dailyVol.Nonneg) (hvolume : volume.Nonneg)
    (hpos : 0 < volume.value) (hq : q.Nonneg) {D : ℚ} (hD : q.value ≤ D)
    (h : (cfg.slippage.compute price q dailyVol volume).isFinite = true) {slippage : ℚ}
    (hslippage : slippage = price.value * (cfg.slippage.baseBps.value +
      cfg.slippage.volatilityFactor.value * dailyVol.value * 10000 *
        min (D / volume.value) cfg.slippage.volumeParticipationLimit.value) / 10000) :
    0 ≤ (cfg.slippage.compute price q dailyVol volume).value ∧
      (cfg.slippage.compute price q dailyVol volume).value ≤
        slippage + (slippage + price.value) / 10 ^ 13 := by
  subst hslippage
  have hten := lit_spec (q := 10000) (by decide +kernel)
  have hnone : PyFloat.le volume (lit 0) = false := by
    obtain ⟨hzero, hzero'⟩ := lit_spec (q := 0) (by decide +kernel)
    rw [le_eq hvolume.finite hzero, hzero']
    exact decide_eq_false hpos.not_ge
  unfold SlippageModel.compute at h ⊢
  simp only [hnone, Bool.false_eq_true, if_false] at h ⊢
  have hextra := (Double.finite_add (Double.finite_mul (Double.finite_div h hten.1)).2).2
  obtain ⟨hrate0, hrate⟩ := value_rate hcfg.volatilityFactor hvol (Double.finite_mul hextra).1
  obtain ⟨hpart0, hpart⟩ := participation_le hq hvolume hpos hcfg.volumeParticipationLimit hD
  have hvalue := Double.value_mul hextra
  have hround := nearest_le (mul_nonneg hrate0 hpart0)
  rw [← hvalue] at hround
  have hfactor := mul_nonneg (mul_nonneg hcfg.volatilityFactor.nonneg hvol.nonneg)
    (by norm_num : (0 : ℚ) ≤ 10000)
  have hM : 0 ≤ min (D / volume.value) cfg.slippage.volumeParticipationLimit.value :=
    le_min (div_nonneg (hq.nonneg.trans hD) hpos.le) hcfg.volumeParticipationLimit.nonneg
  -- what is lost below the smallest number stays small behind a product with a double
  have hlost := (cfg.slippage.volatilityFactor * dailyVol * lit 10000).tiny_mul_value_le
  have hlost' := (mul_le_mul_of_nonneg_left (min_le_right (D / volume.value) _) tiny_pos.le).trans
    cfg.slippage.volumeParticipationLimit.tiny_mul_value_le
  have hfirst := mul_le_mul_of_nonneg_left hpart hrate0
  have hsecond := mul_le_mul_of_nonneg_right hrate hM
  have hproduct := mul_nonneg hfactor hM
  refine bps_le hprice hcfg.baseBps ?_ ?_ hproduct hten le_rfl h
  · rw [hvalue]
    exact nearest_nonneg (mul_nonneg hrate0 hpart0)
  · linarith [tiny_le]

/-- A finite price of a buy is no less than the price of the bar, and no more than the price without
roundings, up to one part in 10^12. -/
theorem buyPrice_le (hcfg : cfg.Nonnegative) {price dailyVol volume q : Double}
    (hprice : 1 / 10 ^ 10 ≤ price.value) (hvol : dailyVol.Nonneg) (hvolume : volume.Nonneg)
    (hpos : 0 < volume.value) (hq : q.Nonneg) {D : ℚ} (hD : q.value ≤ D)
    (h : (cfg.priceOf .buy price dailyVol volume q).isFinite = true) :
    price.value ≤ (cfg.priceOf .buy price dailyVol volume q).value ∧
      (cfg.priceOf .buy price dailyVol volume q).value ≤
        cfg.buyPrice D price.value dailyVol.value volume.value * (1 + 1 / 10 ^ 12) := by
  obtain ⟨hspreaded, hslip⟩ := Double.finite_add h
  obtain ⟨hspread0, hspread⟩ := spread_le hcfg hprice hvol (Double.finite_add hspreaded).2 rfl
  obtain ⟨hslip0, hslip⟩ := slippage_le hcfg hprice hvol hvolume hpos hq hD hslip rfl
  have hvalue : (cfg.priceOf .buy price dailyVol volume q).value =
      nearest (nearest (price.value + (cfg.spread.estimateSpread price dailyVol).value) +
        (cfg.slippage.compute price q dailyVol volume).value) :=
    (Double.value_add h).trans (congrArg
      (fun x => nearest (x + (cfg.slippage.compute price q dailyVol volume).value))
      (Double.value_add hspreaded))
  have hprice0 : 0 ≤ price.value := le_trans (by norm_num) hprice
  have hsum := add_nonneg hprice0 hspread0
  rw [hvalue]
  constructor
  · calc price.value = nearest (nearest price.value) := by
          rw [nearest_nearest, price.nearest_value]
      _ ≤ _ := nearest_mono ((nearest_mono (le_add_of_nonneg_right hspread0)).trans
          (le_add_of_nonneg_right hslip0))
  · have hround := nearest_le hsum
    have hround' := nearest_le (add_nonneg (nearest_nonneg hsum) hslip0)
    have htiny := tiny_le
    unfold ExecutionConfig.buyPrice
    linarith

/-! ## Quantities -/

theorem sign_eq {a : Double} (h : a.Nonneg) :
    PyFloat.sign a = lit (if a.value = 0 then 0 else 1) := by
  cases a with
  | finite x hx =>
    have hnonneg : decide (x < 0) = false := decide_eq_false h.nonneg.not_gt
    change (if !(decide (x = x)) then _ else
      Double.ofRat (if decide (x = 0) then 0 else if decide (x < 0) then -1 else 1)) = _
    rw [decide_eq_true rfl, hnonneg]
    simp only [Bool.not_true, Bool.false_eq_true, if_false, decide_eq_true_eq]
    rfl
  | infinite s => cases h.finite
  | nan => cases h.finite

/-- The smaller of a number and a rounded one. -/
theorem pyMin_lit {q : Double} (hq : q.isFinite = true) {y : ℚ} (hy : 0 ≤ y) :
    (pyMin q (lit y)).isFinite = true ∧ (pyMin q (lit y)).value = min q.value (nearest y) := by
  unfold pyMin
  by_cases hfinite : |nearest y| ≤ largest
  · have hlit : (lit y : Double).isFinite = true := Double.finite_ofRat hfinite
    have hvalue : (lit y : Double).value = nearest y := Double.value_ofRat hlit
    rw [lt_eq hlit hq, hvalue]
    split
    · rename_i hlt
      exact ⟨hlit, hvalue.trans (min_eq_right (of_decide_eq_true hlt).le).symm⟩
    · rename_i hlt
      exact ⟨hq, (min_eq_left (not_lt.mp fun h => hlt (decide_eq_true h))).symm⟩
  · have hlit : (lit y : Double) = .infinite (decide (y < 0)) := dif_neg hfinite
    obtain ⟨_, hq'⟩ := Double.eq_finite hq
    rw [abs_of_nonneg (nearest_nonneg hy), not_le] at hfinite
    rw [hlit, decide_eq_false hy.not_gt, hq']
    exact ⟨rfl, (min_eq_left (q.value_le.trans hfinite.le)).symm⟩

/-- As many shares are bought as are asked for, and as the volume allows. -/
theorem volumeQty_eq (hcfg : cfg.Nonnegative) {desired volume : Double} (hdesired : desired.Nonneg)
    (hvolume : volume.Nonneg) :
    (cfg.volumeQty desired volume).Nonneg ∧
      (cfg.volumeQty desired volume).value = min desired.value
        (nearest (volume.value * cfg.slippage.volumeParticipationLimit.value)) := by
  have hallowed := mul_nonneg hvolume.nonneg hcfg.volumeParticipationLimit.nonneg
  have hlit : volume * cfg.slippage.volumeParticipationLimit =
      lit (volume.value * cfg.slippage.volumeParticipationLimit.value) :=
    Double.mul_eq hvolume.finite hcfg.volumeParticipationLimit.finite
  obtain ⟨hleast, hleast'⟩ := pyMin_lit hdesired.finite hallowed
  have hleast0 := le_min hdesired.nonneg (nearest_nonneg hallowed)
  unfold ExecutionConfig.volumeQty
  cases hfits : cfg.slippage.canFillFully desired volume with
  | true =>
    refine ⟨hdesired, (min_eq_left ?_).symm⟩
    unfold SlippageModel.canFillFully at hfits
    split at hfits
    · cases hfits
    · rw [abs_nonneg_eq hdesired, hlit] at hfits
      by_contra hlarge
      have hfinite := (Double.below_ofRat hallowed).finite ((not_le.mp hlarge).le.trans desired.value_le)
      have hle := (le_eq hdesired.finite hfinite).symm.trans hfits
      rw [Double.value_ofRat hfinite] at hle
      exact hlarge (of_decide_eq_true hle)
  | false =>
    unfold SlippageModel.partialFillQty
    rw [if_neg Bool.false_ne_true, abs_nonneg_eq hdesired, sign_eq hdesired, hlit]
    rw [← hleast'] at hleast0 ⊢
    generalize pyMin desired _ = least at *
    obtain ⟨hsign, hsign'⟩ := lit_spec (q := if desired.value = 0 then 0 else 1) (by
      split
      · decide +kernel
      · decide +kernel)
    have hsame : least.value * (if desired.value = 0 then 0 else 1) = least.value := by
      split
      · rename_i hzero
        rw [hzero] at hleast'
        rw [le_antisymm (hleast'.trans_le (min_le_left _ _)) hleast0, mul_zero]
      · exact mul_one _
    have hproduct : least * lit (if desired.value = 0 then 0 else 1) = .ofRat least.value := by
      rw [Double.mul_eq hleast hsign, hsign', hsame]
    have hfinite := Double.finite_ofRat_of_le hleast0 le_rfl
    have hvalue := (Double.value_ofRat hfinite).trans least.nearest_value
    have hnonneg : (Double.ofRat least.value).Nonneg := ⟨hfinite, hvalue.symm ▸ hleast0⟩
    rw [hproduct, abs_nonneg_eq hnonneg]
    exact ⟨hnonneg, hvalue⟩

/-- The shares of an order, up to one part in 10^14. -/
theorem volumeQty_bounds (hcfg : cfg.Nonnegative) {desired volume : Double}
    (hdesired : desired.Nonneg) (hvolume : volume.Nonneg)
    (hlarge : 1 / 10 ^ 10 ≤ (cfg.volumeQty desired volume).value) {shares : ℚ}
    (hshares : shares = min desired.value
      (volume.value * cfg.slippage.volumeParticipationLimit.value)) :
    0 < volume.value ∧ shares * (1 - 1 / 10 ^ 14) ≤ (cfg.volumeQty desired volume).value ∧
      (cfg.volumeQty desired volume).value ≤ shares * (1 + 1 / 10 ^ 14) := by
  subst hshares
  have hallowed := mul_nonneg hvolume.nonneg hcfg.volumeParticipationLimit.nonneg
  have hlow := le_nearest hallowed
  have hhigh := nearest_le hallowed
  have htiny := tiny_le
  rw [(volumeQty_eq hcfg hdesired hvolume).2] at hlarge ⊢
  obtain ⟨hdesiredle, hallowedle⟩ := le_min_iff.mp hlarge
  refine ⟨?_, ?_, ?_⟩
  · by_contra hnone
    rw [le_antisymm (not_lt.mp hnone) hvolume.nonneg, zero_mul, nearest_zero] at hallowedle
    exact absurd hallowedle (by norm_num)
  · rw [min_mul_of_nonneg _ _ (by norm_num)]
    exact min_le_min (by linarith) (by linarith)
  · rw [min_mul_of_nonneg _ _ (by norm_num)]
    exact min_le_min (by linarith) (by linarith)

/-! ## The cash of a buy -/

/-- The price of a fill that costs something, or nothing is affordable. -/
theorem affordable_cases {cash p : Double}
    (hbudget : (cash * (lit 1 - cfg.cashReservePct)).isFinite = true) :
    cfg.affordable cash p = lit 0 ∨ p.isFinite = true ∧ 0 < p.value ∧
      cfg.affordable cash p = lit ((cash * (lit 1 - cfg.cashReservePct)).value / p.value) := by
  obtain ⟨hzero, hzero'⟩ := lit_spec (q := 0) (by decide +kernel)
  unfold ExecutionConfig.affordable
  split
  · rename_i hpos
    cases p with
    | finite x hx =>
      rw [lt_eq hzero rfl, hzero'] at hpos
      have hx0 : 0 < x := of_decide_eq_true hpos
      exact Or.inr ⟨rfl, hx0, Double.div_eq hbudget rfl hx0.ne'⟩
    | infinite s =>
      obtain ⟨_, hbudget⟩ := Double.eq_finite hbudget
      left
      rw [hbudget]
      rfl
    | nan =>
      obtain ⟨_, hzero⟩ := Double.eq_finite hzero
      rw [hzero] at hpos
      cases hpos
  · exact Or.inl rfl

theorem lit_minute : (lit 1e-9 : Double).isFinite = true ∧
    1 / 10 ^ 10 ≤ (lit 1e-9 : Double).value := by
  change (Double.ofRat 1e-9).isFinite = true ∧ 1 / 10 ^ 10 ≤ (Double.ofRat 1e-9).value
  decide +kernel

/-- What is not refused for being minute. -/
theorem not_minute {a : Double} (hfinite : a.isFinite = true)
    (ha : PyFloat.lt a (lit 1e-9) = false) : a.Nonneg ∧ 1 / 10 ^ 10 ≤ a.value := by
  rw [lt_eq hfinite lit_minute.1, decide_eq_false_iff_not, not_lt] at ha
  exact ⟨⟨hfinite, le_trans (by norm_num) (lit_minute.2.trans ha)⟩, lit_minute.2.trans ha⟩

theorem lit_neg_lt {y : ℚ} (hy : y < 0) {a : Double} (ha : a.isFinite = true)
    (hpos : 0 < a.value) : PyFloat.lt (lit y) a = true := by
  by_cases hfinite : |nearest y| ≤ largest
  · have hlit : (lit y : Double).isFinite = true := Double.finite_ofRat hfinite
    have hvalue : (lit y : Double).value = nearest y := Double.value_ofRat hlit
    have hmono := nearest_mono hy.le
    rw [nearest_zero] at hmono
    rw [lt_eq hlit ha, hvalue]
    exact decide_eq_true (hmono.trans_lt hpos)
  · have hlit : (lit y : Double) = .infinite (decide (y < 0)) := dif_neg hfinite
    obtain ⟨_, ha⟩ := Double.eq_finite ha
    rw [hlit, decide_eq_true hy, ha]
    rfl

/-- The smaller of an exact number and the shares that are wanted, when it is not minute. -/
theorem capped_bounds {y : ℚ} {q x : Double} (hq : q.isFinite = true) (hx : x = pyMin q (lit y))
    (hlarge : PyFloat.lt x (lit 1e-9) = false) :
    x.Nonneg ∧ 1 / 10 ^ 10 ≤ x.value ∧ x.value ≤ q.value ∧ x.value ≤ nearest y := by
  subst hx
  rcases le_or_gt 0 y with hy | hy
  · obtain ⟨hfinite, hvalue⟩ := pyMin_lit hq hy
    obtain ⟨hnonneg, hbound⟩ := not_minute hfinite hlarge
    exact ⟨hnonneg, hbound, hvalue.trans_le (min_le_left _ _), hvalue.trans_le (min_le_right _ _)⟩
  · exfalso
    unfold pyMin at hlarge
    split at hlarge
    · rw [lit_neg_lt hy lit_minute.1 (lt_of_lt_of_le (by norm_num) lit_minute.2)] at hlarge
      cases hlarge
    · rename_i hnot
      have hbound := (not_minute hq hlarge).2
      exact hnot (lit_neg_lt hy hq (lt_of_lt_of_le (by norm_num) hbound))

/-- The cash behind the reserve is a number, when it does not exceed 10^300. -/
theorem finite_budget {cash reserve : Double} (hcash : cash.Nonneg)
    (hreserve : reserve.isFinite = true) (h : cash.value * |1 - reserve.value| ≤ 10 ^ 300) :
    (lit 1 - reserve).isFinite = true ∧ (lit 1 - reserve).value = nearest (1 - reserve.value) ∧
      (cash * (lit 1 - reserve)).isFinite = true := by
  obtain ⟨hone, hone'⟩ := lit_spec (q := 1) (by decide +kernel)
  have hrest : (lit 1 - reserve).isFinite = true ∧
      (lit 1 - reserve).value = nearest (1 - reserve.value) := by
    obtain ⟨hlow, hhigh⟩ := abs_le.mp reserve.abs_value_le
    have hends : nearest (1 + largest) ≤ largest ∧ -largest ≤ nearest (1 - largest) := by
      decide +kernel
    have hfinite : (Double.ofRat (1 - reserve.value)).isFinite = true :=
      Double.finite_ofRat (abs_le.mpr ⟨hends.2.trans (nearest_mono (by linarith)),
        (nearest_mono (by linarith)).trans hends.1⟩)
    rw [Double.sub_eq hone hreserve, hone']
    exact ⟨hfinite, Double.value_ofRat hfinite⟩
  refine ⟨hrest.1, hrest.2, ?_⟩
  rw [Double.mul_eq hcash.finite hrest.1, hrest.2]
  apply Double.finite_ofRat
  have hround := mul_le_mul_of_nonneg_left (abs_nearest_le (1 - reserve.value)) hcash.nonneg
  have hround' := abs_nearest_le (cash.value * nearest (1 - reserve.value))
  rw [abs_mul, abs_of_nonneg hcash.nonneg] at hround'
  have hlost := cash.tiny_mul_value_le
  have htiny := tiny_le
  have hlarge : (2 : ℚ) * 10 ^ 300 ≤ largest := by
    decide +kernel
  have hone : (1 : ℚ) ≤ 10 ^ 300 := one_le_pow₀ (by norm_num)
  generalize (10 : ℚ) ^ 300 = bound at *
  linarith

/-- Shares that the cash behind the reserve buys are worth no more than this cash, up to one part in
10^14. -/
theorem affordable_le {cash reserve p x : Double} (hcash : cash.Nonneg)
    (hrest : (lit 1 - reserve).value = nearest (1 - reserve.value))
    (hbudget : (cash * (lit 1 - reserve)).isFinite = true) (hp : 1 / 10 ^ 10 ≤ p.value)
    (hx : 1 / 10 ^ 10 ≤ x.value)
    (hle : x.value ≤ nearest ((cash * (lit 1 - reserve)).value / p.value)) :
    x.value * p.value ≤ cash.value * (1 - reserve.value) * (1 + 1 / 10 ^ 14) := by
  have hp0 : 0 < p.value := lt_of_lt_of_le (by norm_num) hp
  have hvalue := Double.value_mul hbudget
  rw [hrest] at hvalue
  generalize (cash * (lit 1 - reserve)).value = w at *
  -- nothing that is rounded is minute, or else the shares would be
  have hlarge : ∀ {y : ℚ}, 1 / 10 ^ 25 ≤ nearest y → nearest y ≤ y * (1 + 2 / 10 ^ 15) := by
    intro y hy
    by_contra hcontra
    have hsmall : y < 1 / 10 ^ 30 := by
      by_contra hle
      have := nearest_le_of_le (not_lt.mp hle)
      linarith
    have hmono := nearest_mono hsmall.le
    have hminute := nearest_le (x := 1 / 10 ^ 30) (by norm_num)
    linarith [tiny_le]
  have hratio := hle.trans (hlarge (le_trans (by norm_num) (hx.trans hle)))
  have hnotional : x.value * p.value ≤ w * (1 + 2 / 10 ^ 15) := by
    have hmul := mul_le_mul_of_nonneg_right hratio hp0.le
    rwa [mul_right_comm, div_mul_cancel₀ _ hp0.ne'] at hmul
  have hproduct : 1 / 10 ^ 20 ≤ x.value * p.value :=
    le_trans (by norm_num) (mul_le_mul hx hp (by norm_num) (le_trans (by norm_num) hx))
  have hw : 1 / 10 ^ 21 ≤ w := by linarith
  rw [hvalue] at hw hnotional
  have hspent := hlarge (le_trans (by norm_num) hw)
  -- the reserve is below one, hence by more than its rounding
  have hreserve : reserve.value < 1 := by
    by_contra hge
    have hnone : nearest (1 - reserve.value) ≤ 0 :=
      (nearest_mono (by linarith)).trans_eq nearest_zero
    have hmul := mul_nonpos_of_nonneg_of_nonpos hcash.nonneg hnone
    have hmono := nearest_mono hmul
    rw [nearest_zero] at hmono
    linarith
  have hgap := Double.value_le_of_lt_one hreserve
  have hround := mul_le_mul_of_nonneg_left (nearest_le_of_le (x := 1 - reserve.value)
    (le_trans (by norm_num) (sub_le_sub_left hgap 1))) hcash.nonneg
  have hbudget0 := mul_nonneg hcash.nonneg (sub_nonneg.mpr hreserve.le)
  linarith

/-! ## One buy order -/

/-- The cash pays for the order: for all the shares that the volume allows, or, behind the reserve,
for the shares that the rest of the cash buys, each with their commission and an allowance for the
roundings. -/
def ExecutionConfig.CashCovers (cfg : ExecutionConfig Double)
    (desired price dailyVol avgVolume cash : Double) : Prop :=
  let shares := min |desired.value|
    (avgVolume.value * cfg.slippage.volumeParticipationLimit.value)
  let fillPrice := cfg.buyPrice |desired.value| price.value dailyVol.value avgVolume.value
  let budget := cash.value * (1 - cfg.cashReservePct.value)
  |budget| ≤ 10 ^ 300 ∧
    (cfg.spend shares (shares * fillPrice) fillPrice ≤ cash.value ∨
      cfg.spend (budget / price.value) budget fillPrice ≤ cash.value)

instance (cfg : ExecutionConfig Double) (desired price dailyVol avgVolume cash : Double) :
    Decidable (cfg.CashCovers desired price dailyVol avgVolume cash) :=
  inferInstanceAs (Decidable (_ ∧ (_ ∨ _)))

/-- A filled buy order that the cash covers costs no more than the cash. -/
theorem buy_within_cash (hcfg : cfg.Nonnegative)
    {desired price dailyVol avgVolume cash position : Double} (hdesired : desired.isFinite = true)
    (hprice : price.Nonneg) (hvol : dailyVol.Nonneg) (hvolume : avgVolume.Nonneg)
    (hcash : cash.Nonneg) (hcovers : cfg.CashCovers desired price dailyVol avgVolume cash)
    {fill : FillResult Double}
    (hfill : fill = cfg.executeOrder .buy desired price dailyVol avgVolume cash position)
    (hfilled : fill.filled = true) :
    fill.fillQty.Nonneg ∧ (fill.fillQty * fill.fillPrice + fill.commission).Nonneg ∧
      (fill.fillQty * fill.fillPrice + fill.commission).value ≤ cash.value := by
  subst hfill
  obtain ⟨hbound, hcovers⟩ := hcovers
  obtain ⟨hlow, hshares, hqty, hpaid, hcommission⟩ := executeOrder_filled rfl rfl hfilled
  rw [hqty, hpaid, hcommission]
  obtain ⟨hwanted, hwanted'⟩ := abs_finite hdesired
  have hpermitted : cfg.permittedShares .buy (PyFloat.abs desired) position = PyFloat.abs desired :=
    rfl
  rw [hpermitted] at hshares ⊢
  obtain ⟨hq, hqeq⟩ := volumeQty_eq hcfg hwanted hvolume
  have hqwanted := hqeq.trans_le (min_le_left _ _)
  have hqbounds := fun hlarge => volumeQty_bounds hcfg hwanted hvolume hlarge rfl
  rw [hwanted'] at hqwanted hqbounds
  generalize cfg.volumeQty (PyFloat.abs desired) avgVolume = q at *
  rw [abs_mul, abs_of_nonneg hcash.nonneg] at hbound
  obtain ⟨-, hrest, hbudget⟩ := finite_budget hcash hcfg.cashReservePct hbound
  have hcap : cfg.cappedShares .buy q cash (cfg.priceOf .buy price dailyVol avgVolume q) =
      pyMin q (cfg.affordable cash (cfg.priceOf .buy price dailyVol avgVolume q)) := by
    simp [ExecutionConfig.cappedShares, pyMin]
  generalize cfg.cappedShares .buy q cash (cfg.priceOf .buy price dailyVol avgVolume q) = x at *
  rcases affordable_cases hbudget with hnone | ⟨hp, hp0, hafford⟩
  · -- nothing is affordable at a price that is no number
    rw [hnone] at hcap
    obtain ⟨-, hlarge, -, hle⟩ := capped_bounds hq.finite hcap hshares
    rw [nearest_zero] at hle
    exact absurd (hlarge.trans hle) (by norm_num)
  · rw [hafford] at hcap
    obtain ⟨hx, hxlarge, hxq, hxafford⟩ := capped_bounds hq.finite hcap hshares
    have hpricelow := (not_minute hprice.finite hlow).2
    obtain ⟨hvolumepos, -, hqall⟩ := hqbounds (hxlarge.trans hxq)
    obtain ⟨hplow, hphigh⟩ := buyPrice_le hcfg hpricelow hvol hvolume hvolumepos hq hqwanted hp
    generalize cfg.priceOf .buy price dailyVol avgVolume q = p at *
    have hplarge := hpricelow.trans hplow
    have hnotional : 1 / 10 ^ 30 ≤ x.value * p.value :=
      le_trans (by norm_num) (mul_le_mul hxlarge hplarge (by norm_num) hx.nonneg)
    refine ⟨(round_nonneg hx 6).1, ?_⟩
    generalize cfg.buyPrice |desired.value| price.value dailyVol.value avgVolume.value = top at *
    have htop : p.value ≤ top * (1 + 1 / 10 ^ 11) := by linarith
    rcases hcovers with hall | hreserve
    · have hxall := hxq.trans hqall
      refine outlay_le hcfg hx ⟨hp, hp0.le⟩ hnotional (by linarith [hx.nonneg]) ?_ htop
        hall
      have hproduct := mul_le_mul hxall hphigh hp0.le (hx.nonneg.trans hxall)
      have hnonneg := mul_nonneg hx.nonneg hp0.le
      linarith
    · have hspent := affordable_le hcash hrest hbudget hplarge hxlarge hxafford
      refine outlay_le hcfg hx ⟨hp, hp0.le⟩ hnotional ?_ (by
        linarith [mul_nonneg hx.nonneg hp0.le]) htop hreserve
      have hpricepos : 0 < price.value := lt_of_lt_of_le (by norm_num) hpricelow
      rw [div_mul_eq_mul_div, le_div_iff₀ hpricepos]
      have hmul := mul_le_mul_of_nonneg_left hplow hx.nonneg
      linarith [mul_nonneg hx.nonneg hp0.le]

end Costs

end QuantumSentinel.Backtest
