import QuantumSentinel.Exchange.PaperExchange

/-!
# Paper exchange: profit and loss

What `apply_fill` does to the basis of a position, the marking of positions, and the summary
of `portfolio_summary`.  Every fill moves its price between the cash and the basis of the
position, and what a closing fill takes out of the basis is realized.  Only the snap of a closed
position to flat drops something: its rest of less than `1e-10` shares, at the average price.

Main results:

- Theorem `PaperPosition.basis_applyFill`: the basis after a fill, net of what is realized.
- Theorem `PaperExchange.pnl_identity`: cash and basis are the initial cash and what was
  realized, and the total profit is realized or unrealized.
-/

namespace QuantumSentinel.Exchange

open Lib

/-! ## Positions -/

namespace PaperPosition

/-- `mark_to_market`. -/
def markToMarket (p : PaperPosition) (currentPrice : ℚ) : PaperPosition :=
  if p.quantity = 0 then
    { p with unrealizedPnl := 0 }
  else
    let pnlPerUnit :=
      if p.quantity < 0 then -(currentPrice - p.avgEntryPrice)
      else currentPrice - p.avgEntryPrice
    { p with unrealizedPnl := |p.quantity| * pnlPerUnit }

/-- `to_dict`. -/
def toDict (p : PaperPosition) : PaperPosition where
  symbol := p.symbol
  quantity := roundDecimals p.quantity 8
  avgEntryPrice := roundDecimals p.avgEntryPrice 8
  realizedPnl := roundDecimals p.realizedPnl 4
  unrealizedPnl := roundDecimals p.unrealizedPnl 4

/-- The signed cost of the shares held. -/
def basis (p : PaperPosition) : ℚ :=
  p.quantity * p.avgEntryPrice

/-- Whether a signed quantity goes against the position. -/
def Against (p : PaperPosition) (signedQty : ℚ) : Prop :=
  (0 < p.quantity ∧ signedQty < 0) ∨ (p.quantity < 0 ∧ 0 < signedQty)

instance (p : PaperPosition) (signedQty : ℚ) : Decidable (p.Against signedQty) :=
  inferInstanceAs (Decidable (_ ∨ _))

/-- What the snap to flat drops at a fill: the quantity and its average price. -/
def snapped (p : PaperPosition) (fillQty : ℚ) (side : TradeSide) : List (ℚ × ℚ) :=
  let signedQty := signed side fillQty
  if p.Against signedQty ∧ |signedQty| ≤ |p.quantity| ∧ |p.quantity + signedQty| < flatBelow then
    [(p.quantity + signedQty, p.avgEntryPrice)]
  else
    []

/-- The value of what was dropped. -/
def droppedValue (snaps : List (ℚ × ℚ)) : ℚ :=
  (snaps.map fun s => s.1 * s.2).sum

/-- What is dropped is less than the tolerance of the snap. -/
theorem snapped_small {p : PaperPosition} {fillQty : ℚ} {side : TradeSide} {s : ℚ × ℚ}
    (h : s ∈ p.snapped fillQty side) : |s.1| < flatBelow := by
  simp only [snapped] at h
  split at h
  · rename_i hsnap
    rw [List.mem_singleton.mp h]
    exact hsnap.2.2
  · cases h

/-- Marking values the position at the price and takes its basis off. -/
theorem unrealized_markToMarket (p : PaperPosition) (currentPrice : ℚ) :
    (p.markToMarket currentPrice).unrealizedPnl = p.quantity * currentPrice - p.basis := by
  unfold markToMarket basis
  split
  · rename_i hzero
    rw [hzero]
    ring
  · by_cases hneg : p.quantity < 0
    · simp only [if_pos hneg, abs_of_neg hneg]
      ring
    · simp only [if_neg hneg, abs_of_nonneg (not_lt.mp hneg)]
      ring

theorem realized_markToMarket (p : PaperPosition) (currentPrice : ℚ) :
    (p.markToMarket currentPrice).realizedPnl = p.realizedPnl := by
  unfold markToMarket
  split <;> rfl

/-- An opening or adding fill pays its price into the basis. -/
theorem basis_openFill {p : PaperPosition} {side : TradeSide} (fillPrice : ℚ) {fillQty : ℚ}
    (hpos : 0 < fillQty) (hsame : ¬p.Against (signed side fillQty)) :
    (p.openFill fillPrice fillQty (signed side fillQty)).basis =
        p.basis + signed side fillQty * fillPrice ∧
      (p.openFill fillPrice fillQty (signed side fillQty)).realizedPnl = p.realizedPnl := by
  have hreal : (p.openFill fillPrice fillQty (signed side fillQty)).realizedPnl =
      p.realizedPnl := by
    simp only [openFill]
    split <;> rfl
  refine ⟨?_, hreal⟩
  cases side with
  | buy =>
    have hq : 0 ≤ p.quantity := not_lt.mp fun hneg => hsame (Or.inr ⟨hneg, hpos⟩)
    have hsum : 0 < p.quantity + fillQty := add_pos_of_nonneg_of_pos hq hpos
    simp only [openFill, signed, basis, abs_of_nonneg hq, abs_of_pos hsum, if_pos hsum]
    rw [mul_div_cancel₀ _ hsum.ne']
  | sell =>
    have hq : p.quantity ≤ 0 :=
      not_lt.mp fun hlt => hsame (Or.inl ⟨hlt, neg_lt_zero.mpr hpos⟩)
    have hsum : p.quantity + -fillQty < 0 := by linarith
    simp only [openFill, signed, basis, abs_of_nonpos hq, abs_of_neg hsum,
      if_pos (neg_pos.mpr hsum)]
    rw [div_neg, mul_neg, mul_div_cancel₀ _ hsum.ne]
    ring

/-- A fill that goes beyond the position closes it and opens the other side at its price. -/
theorem basis_closeFill_beyond {p : PaperPosition} {signedQty : ℚ} (h : p.Against signedQty)
    (hbeyond : |p.quantity| < |signedQty|) (fillPrice : ℚ) :
    (p.closeFill fillPrice signedQty).basis - (p.closeFill fillPrice signedQty).realizedPnl =
      p.basis - p.realizedPnl + signedQty * fillPrice := by
  simp only [closeFill, min_eq_right hbeyond.le, if_pos (sub_pos.mpr hbeyond), basis]
  rcases h with ⟨hq, hs⟩ | ⟨hq, hs⟩
  · rw [if_neg hs.le.not_gt, if_neg hq.le.not_gt, abs_of_pos hq, abs_of_neg hs]
    ring
  · rw [if_pos hs, if_pos hq, abs_of_neg hq, abs_of_pos hs]
    ring

/-- A fill within the position takes its share of the basis out. -/
theorem basis_closeFill_within {p : PaperPosition} {signedQty : ℚ} (h : p.Against signedQty)
    (hwithin : |signedQty| ≤ |p.quantity|) (fillPrice : ℚ) :
    (p.closeFill fillPrice signedQty).basis - (p.closeFill fillPrice signedQty).realizedPnl =
      p.basis - p.realizedPnl + signedQty * fillPrice -
        if |p.quantity + signedQty| < flatBelow then
          (p.quantity + signedQty) * p.avgEntryPrice
        else 0 := by
  have hremaining : ¬0 < |signedQty| - |signedQty| := by
    rw [sub_self]
    exact lt_irrefl 0
  -- what is realized
  have hclosed : |signedQty| * (if p.quantity < 0 then -(fillPrice - p.avgEntryPrice)
      else fillPrice - p.avgEntryPrice) = -signedQty * (fillPrice - p.avgEntryPrice) := by
    rcases h with ⟨hq, hs⟩ | ⟨hq, hs⟩
    · rw [if_neg hq.le.not_gt, abs_of_neg hs]
    · rw [if_pos hq, abs_of_pos hs]
      ring
  simp only [closeFill, min_eq_left hwithin, if_neg hremaining, hclosed]
  split
  · simp only [basis]
    ring
  · simp only [basis]
    ring

/-- A fill pays its price into the basis net of what is realized, but for what a snap drops. -/
theorem basis_applyFill (p : PaperPosition) (fillPrice : ℚ) {fillQty : ℚ} (hpos : 0 < fillQty)
    (side : TradeSide) :
    (p.applyFill fillPrice fillQty side).basis - (p.applyFill fillPrice fillQty side).realizedPnl =
      p.basis - p.realizedPnl + signed side fillQty * fillPrice -
        droppedValue (p.snapped fillQty side) := by
  by_cases hagainst : p.Against (signed side fillQty)
  · have hfill : p.applyFill fillPrice fillQty side =
        p.closeFill fillPrice (signed side fillQty) := if_pos hagainst
    rw [hfill]
    by_cases hwithin : |signed side fillQty| ≤ |p.quantity|
    · rw [basis_closeFill_within hagainst hwithin]
      by_cases hsnap : |p.quantity + signed side fillQty| < flatBelow
      · simp [snapped, droppedValue, hagainst, hwithin, hsnap]
      · simp [snapped, droppedValue, hsnap]
    · rw [basis_closeFill_beyond hagainst (not_le.mp hwithin)]
      simp [snapped, droppedValue, hwithin]
  · have hfill : p.applyFill fillPrice fillQty side =
        p.openFill fillPrice fillQty (signed side fillQty) := if_neg hagainst
    obtain ⟨hbasis, hrealized⟩ := basis_openFill fillPrice hpos hagainst
    rw [hfill, hbasis, hrealized]
    simp only [snapped, droppedValue, hagainst, false_and, if_false, List.map_nil, List.sum_nil]
    ring

end PaperPosition

/-! ## The exchange -/

/-- The arguments of `_apply_fill`. -/
structure FillCall where
  orderId : String
  price : ℚ
  quantity : ℚ
  side : TradeSide
  timestamp : ℚ
  aggressor : Bool
deriving DecidableEq, Repr

/-- `portfolio_summary`, its numbers rounded. -/
structure PortfolioSummary where
  tradingMode : String
  initialCash : ℚ
  cash : ℚ
  committedCash : ℚ
  markPrice : Option ℚ
  totalRealizedPnl : ℚ
  totalUnrealizedPnl : ℚ
  totalPnl : ℚ
  equity : ℚ
  positions : List (String × PaperPosition)
  totalOrders : ℕ
  totalFills : ℕ
  eventsProcessed : ℕ
deriving DecidableEq, Repr

namespace PaperExchange

/-- One call of `_apply_fill`. -/
def applyCall (x : PaperExchange) (c : FillCall) : PaperExchange :=
  x.applyFill c.orderId c.price c.quantity c.side c.timestamp c.aggressor

variable (x : PaperExchange)

/-- The price positions are marked at: a price of zero counts as none, but for the last trade. -/
def markPrice (currentPrices : Dict String ℚ) : Option ℚ :=
  ((currentPrices.get? x.config.symbol).filter fun price => price ≠ 0).or
    ((x.book.midPrice.filter fun price => price ≠ 0).or x.book.lastTradePrice)

/-- The exchange with its positions marked. -/
def marked (mark : Option ℚ) : PaperExchange :=
  match mark with
  | none => x
  | some price =>
    { x with positions := x.positions.mapValues fun _ p => p.markToMarket price }

/-- The value of the positions; without a mark, what they cost. -/
def positionsValue (mark : Option ℚ) : ℚ :=
  (x.positions.values.map fun p => p.quantity * mark.getD p.avgEntryPrice).sum

/-- `total_realized`. -/
def totalRealized : ℚ :=
  (x.positions.values.map PaperPosition.realizedPnl).sum

/-- `total_unrealized`. -/
def totalUnrealized : ℚ :=
  (x.positions.values.map PaperPosition.unrealizedPnl).sum

/-- `portfolio_summary`: the exchange with its positions marked, and the report. -/
def portfolioSummary (currentPrices : Dict String ℚ) : PaperExchange × PortfolioSummary :=
  let mark := x.markPrice currentPrices
  let y := x.marked mark
  let equity := x.cash + x.positionsValue mark
  (y,
    { tradingMode := "paper"
      initialCash := x.config.initialCash
      cash := roundDecimals x.cash 4
      committedCash := roundDecimals x.committedCash 4
      markPrice := mark
      totalRealizedPnl := roundDecimals y.totalRealized 4
      totalUnrealizedPnl := roundDecimals y.totalUnrealized 4
      totalPnl := roundDecimals (equity - x.config.initialCash) 4
      equity := roundDecimals equity 4
      positions := (y.positions.items.filter fun p => p.2.quantity ≠ 0).map fun p =>
        (p.1, p.2.toDict)
      totalOrders := x.orderHistory.length
      totalFills := x.fillHistory.length
      eventsProcessed := x.eventCount })

/-! ## The identity -/

/-- The position of the symbol, which is flat before the first fill. -/
def position : PaperPosition :=
  (x.positions.get? x.config.symbol).getD (PaperPosition.flat x.config.symbol)

/-- What snaps to flat drop during some fills. -/
def snaps (x : PaperExchange) : List FillCall → List (ℚ × ℚ)
  | [] => []
  | c :: rest => x.position.snapped c.quantity c.side ++ (x.applyCall c).snaps rest

/-- There is no position but that of the symbol. -/
def Single : Prop :=
  x.positions.items = [] ∨ ∃ p, x.positions.items = [(x.config.symbol, p)]

variable {x}

theorem Single.position_of_nil (hitems : x.positions.items = []) :
    x.position = PaperPosition.flat x.config.symbol := by
  simp [position, Dict.get?, hitems]

theorem Single.position_of_cons {p : PaperPosition}
    (hitems : x.positions.items = [(x.config.symbol, p)]) : x.position = p := by
  simp [position, Dict.get?, hitems, Dict.lookup]

/-- A sum over the positions is the part of the one position. -/
theorem Single.sum_values (h : x.Single) (f : PaperPosition → ℚ)
    (hflat : f (PaperPosition.flat x.config.symbol) = 0) :
    (x.positions.values.map f).sum = f x.position := by
  rcases h with hitems | ⟨p, hitems⟩
  · rw [position_of_nil hitems, hflat, Dict.values, hitems]
    rfl
  · rw [position_of_cons hitems, Dict.values, hitems]
    simp

theorem Single.totalRealized_eq (h : x.Single) : x.totalRealized = x.position.realizedPnl :=
  h.sum_values PaperPosition.realizedPnl rfl

theorem Single.positionsValue_eq (h : x.Single) (mark : ℚ) :
    x.positionsValue (some mark) = x.position.quantity * mark :=
  h.sum_values (fun p => p.quantity * mark) (zero_mul mark)

theorem values_marked (mark : ℚ) : (x.marked (some mark)).positions.values =
    x.positions.values.map fun p => p.markToMarket mark := by
  simp [marked, Dict.values, Dict.mapValues]

theorem totalRealized_marked (mark : ℚ) :
    (x.marked (some mark)).totalRealized = x.totalRealized := by
  rw [totalRealized, totalRealized, values_marked, List.map_map]
  exact congrArg List.sum (List.map_congr_left fun p _ => p.realized_markToMarket mark)

theorem Single.totalUnrealized_marked (h : x.Single) (mark : ℚ) :
    (x.marked (some mark)).totalUnrealized = x.position.quantity * mark - x.position.basis := by
  rw [totalUnrealized, values_marked, List.map_map, ← x.position.unrealized_markToMarket mark]
  exact h.sum_values (fun p => (p.markToMarket mark).unrealizedPnl) rfl

theorem position_applyCall (c : FillCall) :
    (x.applyCall c).position = x.position.applyFill c.price c.quantity c.side := by
  simp [position, applyCall, applyFill]

theorem cash_applyCall (c : FillCall) :
    (x.applyCall c).cash = x.cash - PaperPosition.signed c.side c.quantity * c.price := by
  cases hside : c.side <;> simp only [applyCall, applyFill, hside, PaperPosition.signed] <;> ring

theorem Single.applyCall (h : x.Single) (c : FillCall) : (x.applyCall c).Single := by
  refine Or.inr ⟨x.position.applyFill c.price c.quantity c.side, ?_⟩
  rcases h with hitems | ⟨p, hitems⟩
  · simp [PaperExchange.applyCall, applyFill, Dict.set, hitems, position, Dict.get?]
  · simp [PaperExchange.applyCall, applyFill, Dict.set, hitems, position, Dict.get?, Dict.lookup,
      Dict.replace]

/-- Cash and basis are the initial cash and what was realized, but for what snaps dropped. -/
structure Accounts (x : PaperExchange) (dropped : ℚ) : Prop where
  single : x.Single
  balance : x.config.initialCash + x.position.realizedPnl =
    x.cash + x.position.basis + dropped

theorem accounts_empty (config : ExchangeConfig) : (empty config).Accounts 0 where
  single := Or.inl rfl
  balance := by
    rw [Single.position_of_nil rfl]
    simp [empty, PaperPosition.flat, PaperPosition.basis]

/-- A fill keeps the accounts. -/
theorem Accounts.applyCall {dropped : ℚ} (h : x.Accounts dropped) {c : FillCall}
    (hpos : 0 < c.quantity) : (x.applyCall c).Accounts
      (dropped + PaperPosition.droppedValue (x.position.snapped c.quantity c.side)) where
  single := h.single.applyCall c
  balance := by
    have hbasis := x.position.basis_applyFill c.price hpos c.side
    have hbalance := h.balance
    have hconfig : (x.applyCall c).config = x.config := rfl
    rw [hconfig, position_applyCall, cash_applyCall]
    linarith

theorem droppedValue_append (snaps snaps' : List (ℚ × ℚ)) :
    PaperPosition.droppedValue (snaps ++ snaps') =
      PaperPosition.droppedValue snaps + PaperPosition.droppedValue snaps' := by
  simp [PaperPosition.droppedValue]

/-- Fills keep the accounts. -/
theorem Accounts.applyCalls {dropped : ℚ} (h : x.Accounts dropped) {calls : List FillCall}
    (hcalls : ∀ c ∈ calls, 0 < c.quantity) : (calls.foldl PaperExchange.applyCall x).Accounts
      (dropped + PaperPosition.droppedValue (x.snaps calls)) := by
  induction calls generalizing x dropped with
  | nil =>
    rw [snaps, PaperPosition.droppedValue, List.map_nil, List.sum_nil, add_zero]
    exact h
  | cons c rest ih =>
    have hnext := ih (h.applyCall (hcalls c (List.mem_cons_self ..))) fun d hd =>
      hcalls d (List.mem_cons_of_mem c hd)
    rw [snaps, droppedValue_append, ← add_assoc]
    exact hnext

theorem snaps_small {calls : List FillCall} {s : ℚ × ℚ} (h : s ∈ x.snaps calls) :
    |s.1| < PaperPosition.flatBelow := by
  induction calls generalizing x with
  | nil => cases h
  | cons c rest ih =>
    rcases List.mem_append.mp h with hhere | hlater
    · exact PaperPosition.snapped_small hhere
    · exact ih hlater

/-- What the accounts say of the report, at any mark. -/
structure ReportsPnl (x : PaperExchange) (dropped : ℚ) : Prop where
  balance : x.config.initialCash + x.position.realizedPnl =
    x.cash + x.position.quantity * x.position.avgEntryPrice + dropped
  /-- the total is realized or unrealized -/
  total : ∀ mark, x.cash + x.positionsValue (some mark) - x.config.initialCash =
    (x.marked (some mark)).totalRealized + (x.marked (some mark)).totalUnrealized - dropped
  /-- the report rounds it -/
  reported : ∀ currentPrices mark, x.markPrice currentPrices = some mark →
    (x.portfolioSummary currentPrices).2.totalPnl = roundDecimals
      ((x.portfolioSummary currentPrices).1.totalRealized +
        (x.portfolioSummary currentPrices).1.totalUnrealized - dropped) 4

theorem Accounts.reportsPnl {dropped : ℚ} (h : x.Accounts dropped) : x.ReportsPnl dropped := by
  have htotal : ∀ mark, x.cash + x.positionsValue (some mark) - x.config.initialCash =
      (x.marked (some mark)).totalRealized + (x.marked (some mark)).totalUnrealized -
        dropped := by
    intro mark
    have hbalance := h.balance
    rw [totalRealized_marked, h.single.totalRealized_eq, h.single.totalUnrealized_marked,
      h.single.positionsValue_eq]
    linarith
  refine ⟨h.balance, htotal, fun currentPrices mark hmark => ?_⟩
  simp only [portfolioSummary, hmark]
  rw [htotal mark]

/-- After every fill, cash and cost of the position are the initial cash and what was realized, and
the total profit at any mark is what was realized and what is not, but for what snaps to flat
dropped. -/
theorem pnl_identity (config : ExchangeConfig) {calls : List FillCall}
    (hcalls : ∀ c ∈ calls, 0 < c.quantity) :
    (calls.foldl applyCall (empty config)).ReportsPnl
        (PaperPosition.droppedValue ((empty config).snaps calls)) ∧
      ∀ s ∈ (empty config).snaps calls, |s.1| < PaperPosition.flatBelow := by
  have haccounts := (accounts_empty config).applyCalls hcalls
  rw [zero_add] at haccounts
  exact ⟨haccounts.reportsPnl, fun s hs => snaps_small hs⟩

/-- A long position that crosses to short and is closed. -/
def crossing : List FillCall :=
  [⟨"P00000001", 100, 10, .buy, 1, true⟩, ⟨"P00000002", 110, 15, .sell, 2, true⟩,
    ⟨"P00000003", 90, 5, .buy, 3, true⟩]

/-- An exchange with 10000 in cash. -/
def tenThousand : ExchangeConfig where
  symbol := "X"
  latencyMs := 0
  initialCash := 10000
  grid := ⟨1, 2, Nat.one_pos⟩
  latency_nonneg := le_rfl

/-- The crossing earns 100 on each side. -/
theorem pnl_identity_crossing :
    (crossing.foldl applyCall (empty tenThousand)).position.realizedPnl = 200 ∧
      (crossing.foldl applyCall (empty tenThousand)).cash = 10200 ∧
        (crossing.foldl applyCall (empty tenThousand)).ReportsPnl
          (PaperPosition.droppedValue ((empty tenThousand).snaps crossing)) := by
  refine ⟨by decide +kernel, by decide +kernel, (pnl_identity tenThousand ?_).1⟩
  decide +kernel

end PaperExchange

end QuantumSentinel.Exchange
