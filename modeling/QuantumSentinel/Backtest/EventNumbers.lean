import QuantumSentinel.Backtest.EventSimulator
import QuantumSentinel.Backtest.Exactness

/-!
# Backtests: the numbers of an event run

When the prices and the parameters of a run are numbers, so are its cash, its positions, its
equity and the sizes of its orders: no operation of the loop divides by zero or reduces too few
values.

Main results:

- Definition `NumericRun`: the prices and parameters are numbers.
- Definition `EventState.Numeric`: the invariant of the loop.
- Theorem `eventBars_numeric`: it holds at every bar.
-/

namespace QuantumSentinel.Backtest

open Lib Exact

/-! ## Numeric inputs and states -/

/-- The parameters of a sizer are numbers. -/
def EventSizer.Numeric : EventSizer Exact → Prop
  | .fixedFractional fraction => IsNumber fraction
  | .volatilityTarget targetVol lookback => IsNumber targetVol ∧ 2 ≤ lookback

/-- The prices of a bar are numbers. -/
def EventView.Numeric (view : EventView Exact) : Prop :=
  ∀ ticker price, view.prices.get? ticker = some price → IsNumber price

/-- The histories hold numbers. -/
def NumericHistory (history : History Exact) : Prop :=
  ∀ ticker values, history.get? ticker = some values → ∀ v ∈ values, IsNumber v

/-- What the loop computes with. -/
structure Portfolio.Numeric (p : Portfolio Exact) : Prop where
  cash : IsNumber p.cash
  positions : ∀ ticker, IsNumber (p.position ticker)
  equity : ∀ v ∈ p.equityCurve, IsNumber v
  started : p.equityCurve ≠ []
  borrow : IsNumber p.totalBorrow

/-- The invariant of the loop. -/
structure EventState.Numeric (s : EventState Exact) : Prop where
  portfolio : s.portfolio.Numeric
  history : NumericHistory s.history
  orders : ∀ order ∈ s.pendingOrders, IsNumber order.quantity

/-- The numbers of a fill. -/
structure FillEvent.Numeric (fill : FillEvent Exact) : Prop where
  quantity : IsNumber fill.quantity
  price : IsNumber fill.fillPrice
  commission : IsNumber fill.commission
  borrow : IsNumber fill.borrowCost

theorem EventView.Numeric.price {view : EventView Exact} (h : view.Numeric) (ticker : String) :
    IsNumber ((view.prices.get? ticker).getD (lit 0)) := by
  cases hprice : view.prices.get? ticker with
  | none => exact isNumber_lit 0
  | some price => exact h ticker price hprice

theorem NumericHistory.values {history : History Exact} (h : NumericHistory history)
    (ticker : String) : ∀ v ∈ (history.get? ticker).getD [], IsNumber v := by
  cases hvalues : history.get? ticker with
  | none => exact List.forall_mem_nil _
  | some values => exact h ticker values hvalues

theorem Portfolio.Numeric.lastEquity {p : Portfolio Exact} (h : p.Numeric) :
    IsNumber p.lastEquity := by
  unfold Portfolio.lastEquity
  rw [List.getLast?_eq_getLast_of_ne_nil h.started, Option.getD_some]
  exact h.equity _ (List.getLast_mem h.started)

/-! ## Fills -/

section Fills

variable {p : Portfolio Exact} {cfg : EventConfig Exact} {view : EventView Exact}
  {history : History Exact}

theorem isNumber_fillVolatility {values : List Exact} (h : ∀ v ∈ values, IsNumber v) :
    IsNumber (EventConfig.fillVolatility values) := by
  unfold EventConfig.fillVolatility
  split
  · rename_i hlength
    refine IsNumber.pyMax (IsNumber.std ?_ ?_) (isNumber_lit _)
    · exact isNumber_simpleReturns fun v hv => h v (List.mem_of_mem_drop hv)
    · have hbound : sliceBound values.length (-12) = values.length - 12 := by
        rw [sliceBound, if_pos (by omega)]
        omega
      rw [simpleReturns, List.length_zipWith, List.length_tail, sliceFrom, hbound,
        List.length_drop]
      omega
  · exact isNumber_lit _

/-- The quantity of an order that may sell no more than is held, unless shares may be sold
short. -/
def Portfolio.finalQuantity (p : Portfolio Exact) (order : OrderEvent Exact) : Exact :=
  if PyFloat.lt order.quantity (lit 0) && !p.allowShort &&
      PyFloat.lt (p.position order.ticker + order.quantity) (lit 0) then
    -p.position order.ticker
  else order.quantity

/-- What is executed of an order. -/
theorem executed_eq {order : OrderEvent Exact} {fill : FillEvent Exact}
    (h : cfg.executed view history p order = some fill) :
    fill = cfg.costModel.computeFill { order with quantity := p.finalQuantity order }
        ((view.prices.get? order.ticker).getD (lit 0))
        (EventConfig.fillVolatility ((history.get? order.ticker).getD [])) ∧
      PyFloat.lt (lit 1e-6) (PyFloat.abs (p.finalQuantity order)) = true := by
  unfold Portfolio.finalQuantity
  unfold EventConfig.executed at h
  extract_lets openPrice dailyVol ordered projected held final at h
  have hfinal : cfg.costModel.computeFill
      { order with
        quantity :=
          if PyFloat.lt order.quantity (lit 0) && !p.allowShort &&
              PyFloat.lt (p.position order.ticker + order.quantity) (lit 0) then
            -p.position order.ticker
          else order.quantity }
      openPrice dailyVol = final :=
    apply_ite (fun quantity => cfg.costModel.computeFill { order with quantity := quantity }
      openPrice dailyVol) _ _ _
  split at h
  · cases h
  · split at h
    · cases h
    · split at h
      · rename_i hsize
        rw [← hfinal] at h hsize
        exact ⟨(Option.some.inj h).symm, hsize⟩
      · cases h

/-- The presets are numbers. -/
theorem costModel_numeric (cfg : EventConfig Exact) :
    IsNumber cfg.costModel.commissionPct ∧ IsNumber cfg.costModel.spreadBps ∧
      IsNumber cfg.costModel.marketImpactBps ∧ IsNumber cfg.costModel.borrowRateAnnual ∧
        IsNumber cfg.costModel.minCommission := by
  unfold EventConfig.costModel costPreset
  split
  · exact ⟨⟨_, rfl⟩, ⟨_, rfl⟩, ⟨_, rfl⟩, ⟨_, rfl⟩, ⟨_, rfl⟩⟩
  · split
    · exact ⟨⟨_, rfl⟩, ⟨_, rfl⟩, ⟨_, rfl⟩, ⟨_, rfl⟩, ⟨_, rfl⟩⟩
    · exact ⟨⟨_, rfl⟩, ⟨_, rfl⟩, ⟨_, rfl⟩, ⟨_, rfl⟩, ⟨_, rfl⟩⟩

theorem computeFill_numeric {order : OrderEvent Exact} (horder : IsNumber order.quantity)
    {price vol : Exact} (hprice : IsNumber price) (hvol : IsNumber vol) :
    (cfg.costModel.computeFill order price vol).Numeric := by
  obtain ⟨hcommission, hspread, himpact, hborrow, hmin⟩ := costModel_numeric cfg
  have hbps : PyFloat.lt (lit 0 : Exact) (lit 1e4) = true := lit_pos (by norm_num)
  have hhundredth : PyFloat.lt (lit 0 : Exact) (lit 0.01) = true := lit_pos (by norm_num)
  have hdays : PyFloat.lt (lit 0 : Exact) (lit 252) = true := lit_pos (by norm_num)
  have hcosts : IsNumber (price * (cfg.costModel.spreadBps / lit 1e4) +
      price * (cfg.costModel.marketImpactBps / lit 1e4) * (vol / lit 0.01)) :=
    (hprice.mul (hspread.div hbps)).add
      ((hprice.mul (himpact.div hbps)).mul (hvol.div hhundredth))
  have hfill : IsNumber (cfg.costModel.computeFill order price vol).fillPrice := by
    refine hprice.add (IsNumber.mul ?_ hcosts)
    split
    · exact isNumber_lit _
    · exact isNumber_lit _
  refine ⟨horder, hfill, ?_, ?_⟩
  · exact ((horder.abs.mul hfill).mul hcommission).pyMax hmin
  · simp only [TransactionCostModel.computeFill]
    split
    · exact (horder.abs.mul hfill).mul (hborrow.div hdays)
    · exact isNumber_lit _

theorem executed_numeric (hp : p.Numeric) (hview : view.Numeric) (hhistory : NumericHistory history)
    {order : OrderEvent Exact} (horder : IsNumber order.quantity) {fill : FillEvent Exact}
    (h : cfg.executed view history p order = some fill) : fill.Numeric := by
  obtain ⟨rfl, -⟩ := executed_eq h
  refine computeFill_numeric ?_ (hview.price order.ticker)
    (isNumber_fillVolatility (hhistory.values order.ticker))
  change IsNumber (p.finalQuantity order)
  unfold Portfolio.finalQuantity
  split
  · exact (hp.positions order.ticker).neg
  · exact horder

theorem position_set {positions : Dict String Exact} {ticker other : String} {q : Exact} :
    ((positions.set ticker q).get? other).getD (lit 0) =
      if other = ticker then q else (positions.get? other).getD (lit 0) := by
  rw [Dict.get?_set]
  split
  · rfl
  · rfl

/-- The position behind a fill. -/
theorem position_processFill (p : Portfolio Exact) (bar : ℕ) (fill : FillEvent Exact)
    (ticker : String) :
    (p.processFill bar fill).position ticker =
      if ticker = fill.ticker then p.position fill.ticker + fill.quantity
      else p.position ticker :=
  position_set

theorem processFill_numeric (hp : p.Numeric) {fill : FillEvent Exact} (hfill : fill.Numeric)
    (bar : ℕ) : (p.processFill bar fill).Numeric where
  cash := hp.cash.sub (((hfill.quantity.mul hfill.price).add hfill.commission).add hfill.borrow)
  positions ticker := by
    rw [position_processFill]
    split
    · exact (hp.positions fill.ticker).add hfill.quantity
    · exact hp.positions ticker
  equity := hp.equity
  started := hp.started
  borrow := hp.borrow.add hfill.borrow

theorem fillOrder_numeric (hp : p.Numeric) (hview : view.Numeric)
    (hhistory : NumericHistory history) {order : OrderEvent Exact}
    (horder : IsNumber order.quantity) : (cfg.fillOrder view history p order).Numeric := by
  unfold EventConfig.fillOrder
  cases hfill : cfg.executed view history p order with
  | none => exact hp
  | some fill => exact processFill_numeric hp (executed_numeric hp hview hhistory horder hfill) _

theorem position_of_mem {item : String × Exact} (h : item ∈ p.positions.items) :
    p.position item.1 = item.2 := by
  rw [Portfolio.position, Dict.get?_eq_some_iff.mpr h, Option.getD_some]

theorem accrueBorrow_numeric (hp : p.Numeric) (hview : view.Numeric) {rate : Exact}
    (hrate : IsNumber rate) : (p.accrueBorrow view.prices rate).Numeric := by
  have hdays : PyFloat.lt (lit 0 : Exact) (lit 252) = true := lit_pos (by norm_num)
  have hcost : IsNumber (PyFloat.sum ((p.positions.items.filter fun item =>
      PyFloat.lt item.2 (lit 0)).map fun item =>
        PyFloat.abs item.2 * (view.prices.get? item.1).getD (lit 0) * rate / lit 252)) := by
    refine IsNumber.sum fun v hv => ?_
    obtain ⟨item, hitem, rfl⟩ := List.mem_map.mp hv
    have hposition := hp.positions item.1
    rw [position_of_mem (List.mem_filter.mp hitem).1] at hposition
    exact ((hposition.abs.mul (hview.price item.1)).mul hrate).div hdays
  exact ⟨hp.cash.sub hcost, hp.positions, hp.equity, hp.started, hp.borrow.add hcost⟩

theorem updateEquity_numeric (hp : p.Numeric) (hview : view.Numeric)
    (setOrder : List String → List String) : (p.updateEquity setOrder view.prices).Numeric := by
  have hvalue : IsNumber (p.cash + PyFloat.sum ((setOrder (p.positions.keys ++
      view.prices.keys)).map fun ticker =>
        p.position ticker * (view.prices.get? ticker).getD (lit 0))) := by
    refine hp.cash.add (IsNumber.sum fun v hv => ?_)
    obtain ⟨ticker, -, rfl⟩ := List.mem_map.mp hv
    exact (hp.positions ticker).mul (hview.price ticker)
  refine ⟨hp.cash, hp.positions, fun v hv => ?_, List.append_ne_nil_of_right_ne_nil _
    (List.cons_ne_nil _ _), hp.borrow⟩
  rcases List.mem_append.mp hv with hv | hv
  · exact hp.equity v hv
  · rw [List.mem_singleton.mp hv]
    exact hvalue

/-- The loop over the pending orders. -/
theorem openBar_numeric {s : EventState Exact} (hs : s.Numeric) (hview : view.Numeric) :
    (cfg.openBar view s).Numeric := by
  have haccrued := accrueBorrow_numeric hs.portfolio hview (costModel_numeric cfg).2.2.2.1
  unfold EventConfig.openBar EventConfig.fillPending
  split
  · refine ⟨?_, hs.history, List.forall_mem_nil _⟩
    exact foldl_induction (P := Portfolio.Numeric)
      (fun p order horder hp => fillOrder_numeric hp hview hs.history (hs.orders order horder))
      haccrued
  · exact ⟨haccrued, hs.history, hs.orders⟩

end Fills

/-! ## Signals and orders -/

section Signals

variable {cfg : EventConfig Exact} {view : EventView Exact} {history : History Exact}

theorem record_numeric (hview : view.Numeric) (h : NumericHistory history) (ticker : String) :
    NumericHistory (EventConfig.record view history ticker) := by
  unfold EventConfig.record
  cases hprice : view.prices.get? ticker with
  | none => exact h
  | some price =>
    intro other values hvalues v hv
    rw [Dict.get?_set] at hvalues
    split at hvalues
    · cases hvalues
      rcases List.mem_append.mp hv with hv | hv
      · exact h.values ticker v hv
      · rw [List.mem_singleton.mp hv]
        exact hview ticker price hprice
    · exact h other values hvalues v hv

/-- The history behind a bar. -/
theorem records_numeric (hview : view.Numeric) (tickers : List String) (h : NumericHistory history) :
    NumericHistory (tickers.foldl (EventConfig.record view) history) :=
  foldl_induction (P := NumericHistory) (fun _ ticker _ hd => record_numeric hview hd ticker) h

theorem momentumScore_numeric (h : NumericHistory history) {lookback : ℤ}
    {item : String × List Exact} (hitem : item ∈ history.items) {score : String × Exact}
    (hscore : momentumScore lookback item = .ok (some score)) :
    score.1 = item.1 ∧ IsNumber score.2 := by
  have hvalues := h item.1 item.2 (Dict.get?_eq_some_iff.mpr hitem)
  unfold momentumScore at hscore
  split at hscore
  · split at hscore
    · rename_i last before hlast hbefore
      cases hscore
      have hpositive := lt_pyMax (hvalues before (mem_of_pyGet? hbefore))
        (show (0 : ℚ) < 1e-9 by norm_num)
      exact ⟨rfl, ((hvalues last (mem_of_pyGet? hlast)).div hpositive).sub (isNumber_lit 1)⟩
    · cases hscore
  · cases hscore

/-- A ranked signal is about one of the scores. -/
theorem exists_score {nLong nShort : ℤ} {bar : ℕ} {scores : List (String × Exact)}
    {signal : SignalEvent Exact} (h : signal ∈ rankedSignals nLong nShort bar scores) :
    ∃ score ∈ scores, signal.ticker = score.1 ∧
      (signal.signalStrength = score.2 ∨ signal.signalStrength = lit 0) := by
  obtain ⟨entry, hentry, rfl⟩ := List.mem_map.mp h
  refine ⟨entry.1, (List.mergeSort_perm _ _).mem_iff.mp (List.fst_mem_of_mem_zipIdx hentry), ?_⟩
  split
  · exact ⟨rfl, Or.inl rfl⟩
  · split
    · exact ⟨rfl, Or.inl rfl⟩
    · exact ⟨rfl, Or.inr rfl⟩

/-- The strength of a signal is a number. -/
theorem onMarket_numeric (h : NumericHistory history) {calls : ℕ} {ticker : String}
    {signals : List (SignalEvent Exact)}
    (hsignals : onMarket cfg.strategy view history calls ticker = .ok signals) :
    ∀ signal ∈ signals, IsNumber signal.signalStrength := by
  intro signal hsignal
  unfold onMarket at hsignals
  split at hsignals
  · obtain ⟨value, -, rfl⟩ := map_eq_ok_iff.mp hsignals
    unfold maCrossoverOnMarket at hsignal
    split at hsignal
    · rw [List.mem_singleton.mp hsignal]
      exact isNumber_lit 1
    · split at hsignal
      · rw [List.mem_singleton.mp hsignal]
        exact isNumber_lit (-1)
      · cases hsignal
  · unfold momentumOnMarket at hsignals
    split at hsignals
    · cases hsignals
      cases hsignal
    · obtain ⟨scores, hscores, hranked⟩ := bind_eq_ok_iff.mp hsignals
      cases hranked
      obtain ⟨score, hscore, -, hstrength⟩ := exists_score hsignal
      obtain ⟨some_score, hmem, hsome⟩ := List.mem_filterMap.mp hscore
      cases hsome
      obtain ⟨item, hitem, hok⟩ := exists_of_forall₂ (mapM_eq_ok_iff.mp hscores) hmem
      rcases hstrength with hstrength | hstrength
      · rw [hstrength]
        exact (momentumScore_numeric h hitem hok).2
      · rw [hstrength]
        exact isNumber_lit 0
  · cases hsignals
    unfold meanReversionOnMarket at hsignal
    simp only at hsignal
    split at hsignal
    · cases hsignal
    · split at hsignal
      · cases hsignal
      · split at hsignal
        · cases hsignal
        · split at hsignal
          · rename_i hlow
            rw [List.mem_singleton.mp hsignal]
            obtain ⟨z, _, hz, -, -⟩ := lt_iff.mp hlow
            exact IsNumber.neg ⟨z, hz⟩
          · split at hsignal
            · rename_i hhigh
              rw [List.mem_singleton.mp hsignal]
              obtain ⟨_, z, -, hz, -⟩ := lt_iff.mp hhigh
              exact ⟨z, hz⟩
            · split at hsignal
              · rw [List.mem_singleton.mp hsignal]
                exact isNumber_lit 0
              · cases hsignal

theorem signals_numeric (h : NumericHistory history) {calls : ℕ}
    {signals : List (SignalEvent Exact)} (hsignals : cfg.signals view history calls = .ok signals) :
    ∀ signal ∈ signals, IsNumber signal.signalStrength := by
  intro signal hsignal
  obtain ⟨lists, hlists, rfl⟩ := map_eq_ok_iff.mp hsignals
  obtain ⟨list, hlist, hmem⟩ := List.mem_flatten.mp hsignal
  obtain ⟨entry, -, hok⟩ := exists_of_forall₂ (mapM_eq_ok_iff.mp hlists) hlist
  exact onMarket_numeric h hok signal hmem

/-- A size is nothing, or the direction times a number, at a positive price. -/
theorem size_cases {sizer : EventSizer Exact} (hsizer : sizer.Numeric)
    {signal : SignalEvent Exact} (hsignal : IsNumber signal.signalStrength) {price equity : Exact}
    (hprice : IsNumber price) (hequity : IsNumber equity) {values : List Exact}
    (hvalues : ∀ v ∈ values, IsNumber v) :
    sizer.size signal price equity values = lit 0 ∨
      ∃ x, IsNumber x ∧ PyFloat.lt (lit 0) price = true ∧
        sizer.size signal price equity values = lit signal.suggestedDirection * x / price := by
  cases sizer with
  | fixedFractional fraction =>
    simp only [EventSizer.size]
    split
    · exact Or.inl rfl
    · rename_i hpositive
      exact Or.inr ⟨_, (hequity.mul hsizer).mul hsignal.abs,
        lt_of_not_le hprice (by simpa using hpositive), rfl⟩
  | volatilityTarget targetVol lookback =>
    obtain ⟨htarget, hlookback⟩ := hsizer
    have hreturns : ∀ r ∈ (if 2 < values.length then simpleReturns values else []),
        IsNumber r := by
      split
      · exact isNumber_simpleReturns hvalues
      · exact List.forall_mem_nil _
    simp only [EventSizer.size]
    generalize (if 2 < values.length then simpleReturns values else []) = returns at hreturns ⊢
    split
    · exact Or.inl rfl
    · rename_i hguard
      rw [Bool.or_eq_true, not_or, decide_eq_true_eq] at hguard
      have hvol : IsNumber (PyFloat.std (sliceFrom returns (-lookback)) 1 *
          PyFloat.sqrt (lit 252)) := by
        refine (IsNumber.std (fun r hr => hreturns r (List.mem_of_mem_drop hr)) ?_).mul
          (isNumber_lit 252).sqrt
        have hbound : sliceBound returns.length (-lookback) =
            (-lookback + returns.length).toNat := if_pos (by omega)
        rw [List.length_drop, hbound]
        omega
      split
      · exact Or.inl rfl
      · rename_i hsmall
        obtain ⟨vol, hvolume⟩ := hvol
        have hpositive : PyFloat.lt (lit 0) (some vol : Exact) = true := by
          rw [hvolume, lit_eq, lt_some, decide_eq_true_eq, not_lt] at hsmall
          rw [lit_eq, lt_some, decide_eq_true_eq]
          exact lt_of_lt_of_le (by norm_num) hsmall
        rw [hvolume]
        exact Or.inr ⟨_, (hequity.mul ((htarget.div hpositive).pyMin (isNumber_lit 5))).pyMin
          (hequity.mul (isNumber_lit 0.25)), lt_of_not_le hprice (by simpa using hguard.1), rfl⟩

/-- The size of an order is a number. -/
theorem size_numeric {sizer : EventSizer Exact} (hsizer : sizer.Numeric)
    {signal : SignalEvent Exact} (hsignal : IsNumber signal.signalStrength) {price equity : Exact}
    (hprice : IsNumber price) (hequity : IsNumber equity) {values : List Exact}
    (hvalues : ∀ v ∈ values, IsNumber v) : IsNumber (sizer.size signal price equity values) := by
  rcases size_cases hsizer hsignal hprice hequity hvalues with hzero | ⟨x, hx, hpositive, hsize⟩
  · rw [hzero]
    exact isNumber_lit 0
  · rw [hsize]
    exact ((isNumber_lit _).mul hx).div hpositive

theorem orderOf_numeric {p : Portfolio Exact} (hp : p.Numeric) (hsizer : cfg.sizer.Numeric)
    (hview : view.Numeric) (hhistory : NumericHistory history) {signal : SignalEvent Exact}
    (hsignal : IsNumber signal.signalStrength) {order : OrderEvent Exact}
    (h : cfg.orderOf view history p signal = some order) : IsNumber order.quantity := by
  simp only [EventConfig.orderOf] at h
  split at h
  · cases h
  · split at h
    · cases h
    · split at h
      · split at h
        · cases h
        · cases h
          exact (hp.positions signal.ticker).neg
      · cases h
        exact size_numeric hsizer hsignal (hview.price signal.ticker) hp.lastEquity
          (hhistory.values signal.ticker)

end Signals

/-! ## Bars and runs -/

/-- The prices and parameters of a run are numbers. -/
structure NumericRun (cfg : EventConfig Exact) (priceData : Dict String (List Exact)) : Prop where
  capital : IsNumber cfg.initialCapital
  sizer : cfg.sizer.Numeric
  prices : ∀ ticker values, priceData.get? ticker = some values → ∀ v ∈ values, IsNumber v

/-- One bar keeps the numbers. -/
theorem eventBar_numeric {cfg : EventConfig Exact} (hsizer : cfg.sizer.Numeric)
    {view : EventView Exact} (hview : view.Numeric) {s s' : EventState Exact} (hs : s.Numeric)
    (h : eventBar cfg s view = .ok s') : s'.Numeric := by
  have hopened : (cfg.openBar view s).Numeric := openBar_numeric hs hview
  have hhistory := records_numeric hview cfg.tickers hopened.history
  obtain ⟨signals, hsignals, rfl⟩ := map_eq_ok_iff.mp h
  refine ⟨updateEquity_numeric hopened.portfolio hview cfg.setOrder, hhistory, fun order horder => ?_⟩
  rcases List.mem_append.mp horder with horder | horder
  · exact hopened.orders order horder
  · obtain ⟨signal, hsignal, hok⟩ := List.mem_filterMap.mp horder
    exact orderOf_numeric hopened.portfolio hsizer hview hhistory
      (signals_numeric hhistory hsignals signal hsignal) hok

theorem currentPrices_numeric {priceData : Dict String (List Exact)}
    (h : ∀ ticker values, priceData.get? ticker = some values → ∀ v ∈ values, IsNumber v)
    (tickers : List String) (bar : ℕ) :
    ∀ ticker price, (currentPrices priceData tickers bar).get? ticker = some price →
      IsNumber price := by
  refine foldl_induction (P := fun d : Dict String Exact =>
    ∀ ticker price, d.get? ticker = some price → IsNumber price) (fun d name _ hd => ?_) ?_
  · intro ticker price hprice
    split at hprice
    · rename_i value hvalue
      rw [Dict.get?_set] at hprice
      split at hprice
      · cases hprice
        obtain ⟨values, hvalues, hget⟩ := Option.bind_eq_some_iff.mp hvalue
        exact h name values hvalues price (List.mem_of_getElem? hget)
      · exact hd ticker price hprice
    · exact hd ticker price hprice
  · intro ticker price hprice
    rw [Dict.get?_empty] at hprice
    cases hprice

theorem initial_numeric {cfg : EventConfig Exact} (h : IsNumber cfg.initialCapital) :
    (EventState.initial cfg).Numeric where
  portfolio := ⟨h, fun _ => isNumber_lit 0, fun v hv => List.mem_singleton.mp hv ▸ h,
    List.cons_ne_nil _ _, isNumber_lit 0⟩
  history := by
    refine foldl_induction (P := NumericHistory) (fun d name _ hd => ?_) ?_
    · intro ticker values hvalues v hv
      rw [Dict.get?_set] at hvalues
      split at hvalues
      · cases hvalues
        cases hv
      · exact hd ticker values hvalues v hv
    · intro ticker values hvalues
      rw [Dict.get?_empty] at hvalues
      cases hvalues
  orders := List.forall_mem_nil _

/-- The numbers of every bar. -/
theorem eventBars_numeric {cfg : EventConfig Exact} {priceData series : Dict String (List Exact)}
    (h : NumericRun cfg priceData) {bars : List ℕ} {s : EventState Exact}
    (hs : eventBars cfg (eventViewAt cfg priceData series) bars (EventState.initial cfg) = .ok s) :
    s.Numeric := by
  have hstep : ∀ bars s₀ s, s₀.Numeric →
      eventBars cfg (eventViewAt cfg priceData series) bars s₀ = .ok s → s.Numeric := by
    intro bars
    induction bars with
    | nil =>
      intro s₀ s hs₀ hs
      cases hs
      exact hs₀
    | cons bar rest ih =>
      intro s₀ s hs₀ hs
      rw [eventBars, List.foldlM_cons] at hs
      obtain ⟨s₁, hbar, hrest⟩ := bind_eq_ok_iff.mp hs
      have hview : (eventViewAt cfg priceData series bar).Numeric :=
        currentPrices_numeric h.prices cfg.tickers bar
      exact ih s₁ s (eventBar_numeric h.sizer hview hs₀ hbar) hrest
  exact hstep bars _ s (initial_numeric h.capital) hs

end QuantumSentinel.Backtest
