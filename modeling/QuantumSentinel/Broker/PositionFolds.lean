import QuantumSentinel.Broker.Positions
import QuantumSentinel.Lib.CostPool

/-!
# Paper broker: four folds of the filled trades

Four functions rebuild what a user holds from the filled trades: `held_quantity`, the
positions rebuild, `equity_curve_from_trades` and the win count of `risk_metrics`.  Each
cuts an oversell in its own way.  All are compared with one pool of shares, out of which a sell
takes the same fraction of every purchase.

Main results:

- Theorem `position_folds_agree`: after every prefix the four hold the same of every asset,
  never less than nothing, at the average cost of the shares still held.
-/

namespace QuantumSentinel.Broker

open Lib

/-! ## The equity curve -/

/-- `last_fill`: the last fill price of every asset. -/
def lastFill (rows : List Trade) : Dict String ℚ :=
  rows.foldl (fun prices t => prices.set t.asset (t.filledPrice.getD 0)) Dict.empty

/-- `current_prices`: the mark of every asset, or else its last fill price. -/
def currentPrices (marks : String → Option ℚ) (rows : List Trade) : Dict String ℚ :=
  (lastFill rows).mapValues fun asset price => (marks asset).getD price

/-- The local variables of `equity_curve_from_trades`. -/
structure EquityFold where
  equity : ℚ
  curve : List ℚ
  book : Dict String ℚ

/-- The value of the open positions. -/
def openValue (prices book : Dict String ℚ) : ℚ :=
  ((book.items.filter fun p => 0 < p.2).map fun p => p.2 * (prices.get? p.1).getD 0).sum

/-- One pass through the loop of `equity_curve_from_trades`. -/
def equityStep (prices : Dict String ℚ) (s : EquityFold) (t : Trade) : EquityFold :=
  let price := t.filledPrice.getD 0
  let heldQty := (s.book.get? t.asset).getD 0
  match t.side with
  | .buy =>
    let equity := s.equity - t.quantity * price
    let book := s.book.set t.asset (heldQty + t.quantity)
    ⟨equity, s.curve ++ [equity + openValue prices book], book⟩
  | .sell =>
    let sellQty := min t.quantity heldQty
    let equity := s.equity + sellQty * price
    let book := s.book.set t.asset (heldQty - sellQty)
    ⟨equity, s.curve ++ [equity + openValue prices book], book⟩

/-- The loop of `equity_curve_from_trades`. -/
def equityFold (startingCapital : ℚ) (prices : Dict String ℚ) (rows : List Trade) : EquityFold :=
  rows.foldl (equityStep prices) ⟨startingCapital, [startingCapital], Dict.empty⟩

/-- `equity_curve_from_trades`. -/
def equityCurveFromTrades (startingCapital : ℚ) (marks : String → Option ℚ) (rows : List Trade) :
    List ℚ :=
  (equityFold startingCapital (currentPrices marks rows) rows).curve

/-! ## The win count -/

/-- The local variables of `closed_trade_results`. -/
structure ClosedFold where
  book : Dict String (ℚ × ℚ)
  wins : ℕ
  closed : ℕ

/-- One pass through the loop of `closed_trade_results`. -/
def closedStep (s : ClosedFold) (t : Trade) : ClosedFold :=
  let price := t.filledPrice.getD 0
  let current := (s.book.get? t.asset).getD (0, 0)
  match t.side with
  | .buy =>
    { s with book := s.book.set t.asset (current.1 + t.quantity, current.2 + t.quantity * price) }
  | .sell =>
    if 0 < current.1 then
      let avg := current.2 / current.1
      let remaining := max 0 (current.1 - t.quantity)
      { book := s.book.set t.asset (remaining, avg * remaining)
        wins := s.wins + if avg < price then 1 else 0
        closed := s.closed + 1 }
    else
      s

/-- The loop of `closed_trade_results`. -/
def closedFold (rows : List Trade) : ClosedFold :=
  rows.foldl closedStep ⟨Dict.empty, 0, 0⟩

/-- `closed_trade_results`: the wins, and the trades that closed something. -/
def closedTradeResults (rows : List Trade) : ℕ × ℕ :=
  ((closedFold rows).wins, (closedFold rows).closed)

/-! ## One asset at a time -/

/-- What the win count does to the entry of one asset. -/
def closedEntry (entry : ℚ × ℚ) (t : Trade) : ℚ × ℚ :=
  match t.side with
  | .buy => (entry.1 + t.quantity, entry.2 + t.quantity * t.filledPrice.getD 0)
  | .sell =>
    if 0 < entry.1 then
      (max 0 (entry.1 - t.quantity), entry.2 / entry.1 * max 0 (entry.1 - t.quantity))
    else
      entry

/-- The equity curve holds of an asset what `held_quantity` counts. -/
theorem equityFold_get? (startingCapital : ℚ) (prices : Dict String ℚ) (rows : List Trade)
    (asset : String) :
    ((equityFold startingCapital prices rows).book.get? asset).getD 0 =
      (ofAsset asset rows).foldl foldHolding 0 := by
  refine foldl_of_key (fun s asset => (EquityFold.book s |>.get? asset).getD 0)
    Trade.asset (fun s t => ?_) (fun s t asset hne => ?_) rows _ asset
  · cases hside : t.side with
    | buy => simp only [equityStep, foldHolding, hside, Dict.get?_set_self, Option.getD_some]
    | sell =>
      simp only [equityStep, foldHolding, hside, Dict.get?_set_self, Option.getD_some]
      rcases le_total t.quantity ((s.book.get? t.asset).getD 0) with hle | hle
      · rw [min_eq_left hle, max_eq_right (sub_nonneg.mpr hle)]
      · rw [min_eq_right hle, max_eq_left (sub_nonpos.mpr hle), sub_self]
  · cases hside : t.side <;> simp only [equityStep, hside, Dict.get?_set_ne _ _ hne]

theorem closedFold_get? (rows : List Trade) (asset : String) :
    ((closedFold rows).book.get? asset).getD (0, 0) =
      (ofAsset asset rows).foldl closedEntry (0, 0) := by
  refine foldl_of_key (fun s asset => (ClosedFold.book s |>.get? asset).getD (0, 0))
    Trade.asset (fun s t => ?_) (fun s t asset hne => ?_) rows _ asset
  · cases hside : t.side with
    | buy => simp only [closedStep, closedEntry, hside, Dict.get?_set_self, Option.getD_some]
    | sell =>
      simp only [closedStep, closedEntry, hside]
      split
      · simp only [Dict.get?_set_self, Option.getD_some]
      · rfl
  · cases hside : t.side with
    | buy => simp only [closedStep, hside, Dict.get?_set_ne _ _ hne]
    | sell =>
      simp only [closedStep, hside]
      split
      · simp only [Dict.get?_set_ne _ _ hne]
      · rfl

/-! ## The pool -/

/-- The shares held of one asset, by purchase. -/
def poolStep (pool : Pool ℚ) (t : Trade) : Pool ℚ :=
  match t.side with
  | .buy => pool.buy t.quantity (t.filledPrice.getD 0)
  | .sell => pool.sell t.quantity

/-- The shares still held after some trades of one asset. -/
def sharesHeld (rows : List Trade) : Pool ℚ :=
  rows.foldl poolStep []

/-- The books of one asset hold the pool, at its cost. -/
structure HoldsPool (book : Book) (entry : ℚ × ℚ) (pool : Pool ℚ) : Prop where
  long : pool.Long
  quantity : book.quantity = pool.size
  cost : book.cost = pool.value
  entry : entry = (pool.size, pool.value)

/-- A trade keeps the books at the pool. -/
theorem HoldsPool.step {book : Book} {entry : ℚ × ℚ} {pool : Pool ℚ}
    (h : HoldsPool book entry pool) {t : Trade} (hquantity : 0 ≤ t.quantity) :
    HoldsPool (rebuildStep book t) (closedEntry entry t) (poolStep pool t) := by
  obtain ⟨hlong, hsize, hcost, rfl⟩ := h
  cases hside : t.side with
  | buy =>
    simp only [rebuildStep, closedEntry, poolStep, hside]
    refine ⟨hlong.buy hquantity _, ?_, ?_, ?_⟩
    · rw [Pool.size_buy, ← hsize]
      exact add_comm ..
    · rw [Pool.value_buy, ← hcost]
      exact add_comm ..
    · rw [Pool.size_buy, Pool.value_buy, add_comm, add_comm pool.value]
  | sell =>
    have hleft : book.quantity - min t.quantity book.quantity =
        max 0 (pool.size - t.quantity) := by
      rw [hsize]
      rcases le_total t.quantity pool.size with hle | hle
      · rw [min_eq_left hle, max_eq_right (sub_nonneg.mpr hle)]
      · rw [min_eq_right hle, max_eq_left (sub_nonpos.mpr hle), sub_self]
    have hvalue : (pool.sell t.quantity).value =
        pool.value / pool.size * max 0 (pool.size - t.quantity) := by
      rw [Pool.sell, Pool.value_keep]
      ring
    simp only [rebuildStep, closedEntry, poolStep, hside, hleft]
    refine ⟨hlong.sell _, (hlong.size_sell hquantity).symm, ?_, ?_⟩
    · rw [hvalue, max_eq_right (le_max_left ..), hcost, hsize]
      by_cases hzero : pool.size = 0
      · rw [if_pos hzero, hlong.value_of_size hzero, zero_div]
      · rw [if_neg hzero]
    · rw [hvalue, hlong.size_sell hquantity]
      by_cases hpos : 0 < pool.size
      · rw [if_pos hpos]
      · -- nothing is held, and nothing is sold
        have hzero : pool.size = 0 := le_antisymm (not_lt.mp hpos) hlong.size_nonneg
        rw [if_neg hpos, hzero, hlong.value_of_size hzero, max_eq_left (by linarith), mul_zero]

theorem HoldsPool.run {book : Book} {entry : ℚ × ℚ} {pool : Pool ℚ}
    (h : HoldsPool book entry pool) {rows : List Trade} (hrows : ∀ t ∈ rows, 0 ≤ t.quantity) :
    HoldsPool (rows.foldl rebuildStep book) (rows.foldl closedEntry entry)
      (rows.foldl poolStep pool) := by
  induction rows generalizing book entry pool with
  | nil => exact h
  | cons t rest ih =>
    exact ih (h.step (hrows t (List.mem_cons_self ..))) fun t' ht' =>
      hrows t' (List.mem_cons_of_mem t ht')

/-! ## The four folds -/

/-- Rows as the queries return them: filled trades, in the order of their fills. -/
structure FillSequence (rows : List Trade) : Prop where
  filled : ∀ t ∈ rows, t.status = .filled
  ordered : rows.Pairwise fun t t' => t.filledAt.getD 0 ≤ t'.filledAt.getD 0
  positive : ∀ t ∈ rows, 0 < t.quantity

theorem FillSequence.take {rows : List Trade} (h : FillSequence rows) (n : ℕ) :
    FillSequence (rows.take n) where
  filled := fun t ht => h.filled t (List.mem_of_mem_take ht)
  ordered := h.ordered.sublist (List.take_sublist n rows)
  positive := fun t ht => h.positive t (List.mem_of_mem_take ht)

/-- The query of `held_quantity` on such rows. -/
theorem FillSequence.filledTrades {rows : List Trade} (h : FillSequence rows) (asset : String) :
    filledTrades rows asset = ofAsset asset rows := by
  have hfilter : (rows.filter fun t => t.asset = asset && decide (t.status = .filled)) =
      ofAsset asset rows :=
    List.filter_congr fun t ht => by simp [h.filled t ht]
  rw [Broker.filledTrades, hfilter]
  exact (h.ordered.sublist List.filter_sublist).insertionSort_eq

/-- What the four folds hold of an asset. -/
structure FoldsAgree (startingCapital : ℚ) (prices : Dict String ℚ) (rows : List Trade)
    (asset : String) : Prop where
  rebuild : (((rebuildBooks rows).get? asset).getD Book.flat).quantity = heldQuantity rows asset
  equity : ((equityFold startingCapital prices rows).book.get? asset).getD 0 =
    heldQuantity rows asset
  closed : (((closedFold rows).book.get? asset).getD (0, 0)).1 = heldQuantity rows asset
  nonneg : 0 ≤ heldQuantity rows asset
  shares : (sharesHeld (ofAsset asset rows)).size = heldQuantity rows asset
  /-- the cost is the quantity times the average cost of the shares still held -/
  cost : (((rebuildBooks rows).get? asset).getD Book.flat).cost =
    (((rebuildBooks rows).get? asset).getD Book.flat).quantity *
      (sharesHeld (ofAsset asset rows)).averageCost
  closedCost : (((closedFold rows).book.get? asset).getD (0, 0)).2 =
    (((rebuildBooks rows).get? asset).getD Book.flat).cost

theorem FillSequence.agree {rows : List Trade} (h : FillSequence rows) (startingCapital : ℚ)
    (prices : Dict String ℚ) (asset : String) : FoldsAgree startingCapital prices rows asset := by
  have hheld : heldQuantity rows asset = (ofAsset asset rows).foldl foldHolding 0 := by
    rw [heldQuantity, h.filledTrades]
  have hrun : HoldsPool ((ofAsset asset rows).foldl rebuildStep Book.flat)
      ((ofAsset asset rows).foldl closedEntry (0, 0)) (sharesHeld (ofAsset asset rows)) :=
    HoldsPool.run ⟨fun p hp => absurd hp List.not_mem_nil, rfl, rfl, rfl⟩ fun t ht =>
      (h.positive t (List.mem_filter.mp ht).1).le
  have hquantity := foldl_rebuildStep_quantity (ofAsset asset rows) Book.flat
  have hsize : (sharesHeld (ofAsset asset rows)).size = heldQuantity rows asset := by
    rw [hheld, ← hrun.quantity, hquantity]
    rfl
  exact
    { rebuild := by rw [rebuildBooks_get?, hrun.quantity, hsize]
      equity := by rw [equityFold_get?, hheld]
      closed := by rw [closedFold_get?, hrun.entry, hsize]
      nonneg := hsize ▸ hrun.long.size_nonneg
      shares := hsize
      cost := by rw [rebuildBooks_get?, hrun.cost, hrun.quantity, hrun.long.value_eq]
      closedCost := by rw [closedFold_get?, rebuildBooks_get?, hrun.entry, hrun.cost] }

/-- After every prefix of the filled trades the four folds hold the same of every asset, never less
than nothing, at the average cost of the shares still held. -/
theorem position_folds_agree {rows : List Trade} (hrows : FillSequence rows)
    (startingCapital : ℚ) (prices : Dict String ℚ) (n : ℕ) (asset : String) :
    FoldsAgree startingCapital prices (rows.take n) asset :=
  (hrows.take n).agree startingCapital prices asset

/-- A filled trade of one asset. -/
def filledTrade (side : Side) (quantity price : ℚ) (now : Time) : Trade where
  asset := "X"
  side := side
  quantity := quantity
  orderType := .market
  limitPrice := none
  stopPrice := none
  timeInForce := .day
  status := .filled
  filledPrice := some price
  submittedAt := now
  filledAt := some now

/-- A sell larger than the holding, and a new position after it. -/
def oversold : List Trade :=
  [filledTrade .sell 5 90 1, filledTrade .buy 10 100 2, filledTrade .sell 15 110 3,
    filledTrade .buy 4 50 4, filledTrade .sell 1 60 5]

/-- Three shares are held, at their cost of 50. -/
theorem position_folds_agree_oversold :
    heldQuantity oversold "X" = 3 ∧ (sharesHeld (ofAsset "X" oversold)).averageCost = 50 ∧
      FoldsAgree 100000 Dict.empty (oversold.take 5) "X" := by
  refine ⟨by decide +kernel, by decide +kernel, position_folds_agree ⟨?_, ?_, ?_⟩ _ _ 5 "X"⟩
  · decide
  · decide
  · decide +kernel

end QuantumSentinel.Broker
