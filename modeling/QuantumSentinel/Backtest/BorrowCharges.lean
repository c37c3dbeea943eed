import QuantumSentinel.Backtest.EventNumbers

/-!
# Backtests: the cost of borrowing shares

A short position pays a day's rate at the open of every bar, and a short sale pays its first day
with its fill.  The fill charges all of the shares that it sells, those of a long position that it
closes among them.

Main results:

- Definition `EventConfig.borrowDue`: what the shares that are short cost at a bar.
- Theorem `borrowCost_eq_iff`: when a fill charges no more than that.
- Theorem `borrow_on_short_shares`: no more is charged in a run that sells no long position.
-/

namespace QuantumSentinel.Backtest

open Lib Exact

/-! ## What is due -/

/-- The shares that a fill newly sells short. -/
def newlyShort (held quantity : Exact) : Exact :=
  if PyFloat.lt quantity (lit 0) then pyMax (lit 0) (-(held + quantity)) - pyMax (lit 0) (-held)
  else lit 0

/-- A day's rate on the positions that are short. -/
def Portfolio.shortBorrow (p : Portfolio Exact) (prices : Dict String Exact) (rate : Exact) :
    Exact :=
  PyFloat.sum ((p.positions.items.filter fun item => PyFloat.lt item.2 (lit 0)).map fun item =>
    PyFloat.abs item.2 * (prices.get? item.1).getD (lit 0) * rate / lit 252)

namespace EventConfig

variable (cfg : EventConfig Exact) (view : EventView Exact) (history : History Exact)

/-- A day's rate on the shares that an order newly sells short. -/
def saleBorrow (step : Portfolio Exact × OrderEvent Exact) : Exact :=
  match cfg.executed view history step.1 step.2 with
  | some fill =>
    newlyShort (step.1.position fill.ticker) fill.quantity * fill.fillPrice *
      (cfg.costModel.borrowRateAnnual / lit 252)
  | none => lit 0

/-- The orders that a bar fills, each with the portfolio in front of it. -/
def barSteps (s : EventState Exact) : List (Portfolio Exact × OrderEvent Exact) :=
  if 0 < view.bar then
    foldSteps (cfg.fillOrder view s.history) s.pendingOrders
      (s.portfolio.accrueBorrow view.prices cfg.costModel.borrowRateAnnual)
  else []

/-- What borrowing costs at a bar: the positions that are short in front of its fills, and the
shares that its fills newly sell short. -/
def borrowDue (s : EventState Exact) : Exact :=
  s.portfolio.shortBorrow view.prices cfg.costModel.borrowRateAnnual +
    PyFloat.sum ((cfg.barSteps view s).map (cfg.saleBorrow view s.history))

/-- An order that is executed sells no share of a long position, or borrowing is free. -/
def SellsNoLong (step : Portfolio Exact × OrderEvent Exact) : Prop :=
  cfg.costModel.borrowRateAnnual = lit 0 ∨ (cfg.executed view history step.1 step.2).isNone ∨
    PyFloat.lt step.2.quantity (lit 0) = false ∨
      PyFloat.lt (lit 0) (step.1.position step.2.ticker) = false

instance (step : Portfolio Exact × OrderEvent Exact) :
    Decidable (cfg.SellsNoLong view history step) :=
  inferInstanceAs (Decidable (_ ∨ _))

end EventConfig

/-! ## One fill -/

theorem newlyShort_some (held quantity : ℚ) :
    newlyShort (some held) (some quantity) =
      some (if quantity < 0 then max 0 (-(held + quantity)) - max 0 (-held) else 0) := by
  rw [newlyShort, lit_eq, lt_some, add_some, neg_some, neg_some, pyMax_some, pyMax_some, sub_some]
  by_cases h : quantity < 0
  · rw [if_pos (decide_eq_true h), if_pos h]
  · rw [if_neg (by simpa using h), if_neg h]

/-- All shares of a sale are newly short if and only if none of a long position was sold. -/
theorem newly_short_all_iff {held quantity : ℚ} (h : quantity < 0) :
    max 0 (-(held + quantity)) - max 0 (-held) = |quantity| ↔ held ≤ 0 := by
  rw [abs_of_neg h]
  constructor
  · intro hall
    by_contra hlong
    rw [not_le] at hlong
    rw [max_eq_left (show -held ≤ 0 by linarith), sub_zero] at hall
    rcases max_cases 0 (-(held + quantity)) with ⟨hmax, -⟩ | ⟨hmax, -⟩
    · linarith
    · linarith
  · intro hshort
    rw [max_eq_right (show 0 ≤ -(held + quantity) by linarith),
      max_eq_right (show 0 ≤ -held by linarith)]
    ring

/-- The charge of a fill is the one of the shares that it newly sells short if and only if it
is nothing for any share, it buys, or the position in front of it is not long. -/
theorem borrowCost_eq_iff {m : TransactionCostModel Exact} {order : OrderEvent Exact}
    {price vol : Exact} (held : ℚ) {quantity fillPrice rate : ℚ}
    (hrate : m.borrowRateAnnual = some rate) (hquantity : order.quantity = some quantity)
    (hprice : (m.computeFill order price vol).fillPrice = some fillPrice) :
    (m.computeFill order price vol).borrowCost =
        newlyShort (some held) order.quantity * (m.computeFill order price vol).fillPrice *
          (m.borrowRateAnnual / lit 252) ↔
      rate = 0 ∨ fillPrice = 0 ∨ 0 ≤ quantity ∨ held ≤ 0 := by
  have hcost : (m.computeFill order price vol).borrowCost =
      if PyFloat.lt order.quantity (lit 0) then
        PyFloat.abs order.quantity * (m.computeFill order price vol).fillPrice *
          (m.borrowRateAnnual / lit 252)
      else lit 0 := rfl
  rw [hcost, hprice, hquantity, hrate, newlyShort_some, lit_eq, lit_eq, lt_some,
    div_some _ (by norm_num), abs_some]
  by_cases hsale : quantity < 0
  · rw [if_pos (decide_eq_true hsale), if_pos hsale, mul_some, mul_some, mul_some, mul_some,
      Option.some_inj, eq_comm, ← newly_short_all_iff hsale, mul_assoc, mul_assoc,
      mul_eq_mul_right_iff, mul_eq_zero, div_eq_zero_iff]
    have hdays : ¬ (252 : ℚ) = 0 := by norm_num
    have hbuy : ¬ 0 ≤ quantity := not_le.mpr hsale
    tauto
  · rw [if_neg (by simpa using hsale), if_neg hsale, mul_some, mul_some, zero_mul, zero_mul]
    exact iff_of_true rfl (Or.inr (Or.inr (Or.inl (not_lt.mp hsale))))

section Fills

variable {cfg : EventConfig Exact} {view : EventView Exact} {history : History Exact}
  {p : Portfolio Exact} {order : OrderEvent Exact}

/-- An executed sale is one of a sell order. -/
theorem lt_of_finalQuantity (h : PyFloat.lt (p.finalQuantity order) (lit 0) = true) :
    PyFloat.lt order.quantity (lit 0) = true := by
  unfold Portfolio.finalQuantity at h
  split at h
  · rename_i hcapped
    rw [Bool.and_eq_true, Bool.and_eq_true] at hcapped
    exact hcapped.1.1
  · exact h

/-- One pending order. -/
theorem fillOrder_totalBorrow (hp : p.Numeric) (hview : view.Numeric)
    (hhistory : NumericHistory history) (horder : IsNumber order.quantity)
    (hsells : cfg.SellsNoLong view history (p, order)) :
    (cfg.fillOrder view history p order).totalBorrow =
      p.totalBorrow + cfg.saleBorrow view history (p, order) := by
  unfold EventConfig.fillOrder EventConfig.saleBorrow
  cases hfill : cfg.executed view history p order with
  | none => exact (add_zero _).symm
  | some fill =>
    have hnumeric := executed_numeric hp hview hhistory horder hfill
    obtain ⟨rfl, -⟩ := executed_eq hfill
    obtain ⟨quantity, hquantity⟩ : IsNumber (p.finalQuantity order) := hnumeric.quantity
    obtain ⟨fillPrice, hprice⟩ := hnumeric.price
    obtain ⟨rate, hrate⟩ := (costModel_numeric cfg).2.2.2.1
    obtain ⟨held, hheld⟩ := hp.positions order.ticker
    have hdue := (borrowCost_eq_iff held hrate hquantity hprice).mpr ?_
    · rw [← hheld] at hdue
      exact congrArg (p.totalBorrow + ·) hdue
    · rcases hsells with hfree | hnone | hbuy | hshort
      · rw [hfree] at hrate
        exact Or.inl (Option.some.inj hrate).symm
      · rw [hfill] at hnone
        cases hnone
      · refine Or.inr (Or.inr (Or.inl (not_lt.mp fun hsale => ?_)))
        have hsell : PyFloat.lt (p.finalQuantity order) (lit 0) = true := by
          rw [hquantity]
          exact decide_eq_true hsale
        rw [lt_of_finalQuantity hsell] at hbuy
        cases hbuy
      · rw [hheld, lit_eq, lt_some, decide_eq_false_iff_not, not_lt] at hshort
        exact Or.inr (Or.inr (Or.inr hshort))

/-! ## The fills of a bar -/

/-- The loop over the pending orders charges the shares that they newly sell short. -/
theorem fillOrders_totalBorrow (hview : view.Numeric) (hhistory : NumericHistory history)
    {orders : List (OrderEvent Exact)} (horders : ∀ order ∈ orders, IsNumber order.quantity)
    (hp : p.Numeric)
    (hsells : ∀ step ∈ foldSteps (cfg.fillOrder view history) orders p,
      cfg.SellsNoLong view history step) :
    (orders.foldl (cfg.fillOrder view history) p).totalBorrow =
      p.totalBorrow +
        PyFloat.sum ((foldSteps (cfg.fillOrder view history) orders p).map
          (cfg.saleBorrow view history)) := by
  induction orders generalizing p with
  | nil => exact (add_zero _).symm
  | cons order rest ih =>
    have horder := horders order List.mem_cons_self
    rw [List.foldl_cons, ih (fun other hother => horders other (List.mem_cons_of_mem _ hother))
      (fillOrder_numeric hp hview hhistory horder)
      (fun step hstep => hsells step (List.mem_cons_of_mem _ hstep)),
      fillOrder_totalBorrow hp hview hhistory horder (hsells _ List.mem_cons_self), add_assoc,
      foldSteps, List.map_cons, sum_cons]

/-- The charge of a bar is the one that is due. -/
theorem eventBar_totalBorrow {s s' : EventState Exact} (hs : s.Numeric) (hview : view.Numeric)
    (hbar : eventBar cfg s view = .ok s')
    (hsells : ∀ step ∈ cfg.barSteps view s, cfg.SellsNoLong view s.history step) :
    s'.portfolio.totalBorrow = s.portfolio.totalBorrow + cfg.borrowDue view s := by
  obtain ⟨signals, -, rfl⟩ := map_eq_ok_iff.mp hbar
  have haccrued := accrueBorrow_numeric hs.portfolio hview (costModel_numeric cfg).2.2.2.1
  change (cfg.openBar view s).portfolio.totalBorrow = _
  unfold EventConfig.openBar EventConfig.fillPending EventConfig.borrowDue
  unfold EventConfig.barSteps at hsells ⊢
  by_cases hopen : 0 < view.bar
  · rw [if_pos hopen] at hsells
    rw [if_pos hopen, if_pos hopen]
    exact (fillOrders_totalBorrow hview hs.history hs.orders haccrued hsells).trans
      (add_assoc _ _ _)
  · rw [if_neg hopen, if_neg hopen]
    exact congrArg (s.portfolio.totalBorrow + ·) (add_zero _).symm

/-! ## Without short selling -/

/-- Nothing is sold short. -/
structure Portfolio.LongOnly (p : Portfolio Exact) : Prop where
  numeric : p.Numeric
  allowShort : p.allowShort = false
  held : ∀ ticker, PyFloat.lt (p.position ticker) (lit 0) = false

/-- A sale is capped at what is held. -/
theorem held_finalQuantity (hp : p.LongOnly) (horder : IsNumber order.quantity) :
    PyFloat.lt (p.position order.ticker + p.finalQuantity order) (lit 0) = false := by
  obtain ⟨held, hheld⟩ := hp.numeric.positions order.ticker
  obtain ⟨quantity, hquantity⟩ := horder
  have hlong := hp.held order.ticker
  rw [hheld, lit_eq, lt_some, decide_eq_false_iff_not, not_lt] at hlong
  unfold Portfolio.finalQuantity
  rw [hp.allowShort, hheld, hquantity, lit_eq, Bool.not_false, Bool.and_true, lt_some, add_some,
    lt_some]
  split
  · rw [neg_some, add_some, add_neg_cancel, lt_some]
    exact decide_eq_false (lt_irrefl 0)
  · rename_i hkept
    rw [Bool.and_eq_true, decide_eq_true_eq, decide_eq_true_eq, not_and, not_lt] at hkept
    rw [add_some, lt_some, decide_eq_false_iff_not, not_lt]
    rcases lt_or_ge quantity 0 with hsale | hbuy
    · exact hkept hsale
    · exact add_nonneg hlong hbuy

theorem fillOrder_longOnly (hp : p.LongOnly) (hview : view.Numeric)
    (hhistory : NumericHistory history) (horder : IsNumber order.quantity) :
    (cfg.fillOrder view history p order).LongOnly := by
  have hnumeric : (cfg.fillOrder view history p order).Numeric :=
    fillOrder_numeric hp.numeric hview hhistory horder
  unfold EventConfig.fillOrder at hnumeric ⊢
  cases hfill : cfg.executed view history p order with
  | none => exact hp
  | some fill =>
    rw [hfill] at hnumeric
    refine ⟨hnumeric, hp.allowShort, fun ticker => ?_⟩
    obtain ⟨rfl, -⟩ := executed_eq hfill
    rw [position_processFill]
    split
    · exact held_finalQuantity hp horder
    · exact hp.held ticker

theorem accrueBorrow_longOnly (hp : p.LongOnly) (hview : view.Numeric) {rate : Exact}
    (hrate : IsNumber rate) : (p.accrueBorrow view.prices rate).LongOnly :=
  ⟨accrueBorrow_numeric hp.numeric hview hrate, hp.allowShort, hp.held⟩

/-- A sale of what is held sells nothing short. -/
theorem saleBorrow_longOnly (hp : p.LongOnly) (hview : view.Numeric)
    (hhistory : NumericHistory history) (horder : IsNumber order.quantity) :
    cfg.saleBorrow view history (p, order) = lit 0 := by
  unfold EventConfig.saleBorrow
  cases hfill : cfg.executed view history p order with
  | none => rfl
  | some fill =>
    have hnumeric := executed_numeric hp.numeric hview hhistory horder hfill
    obtain ⟨rfl, -⟩ := executed_eq hfill
    obtain ⟨quantity, hquantity⟩ : IsNumber (p.finalQuantity order) := hnumeric.quantity
    obtain ⟨fillPrice, hprice⟩ := hnumeric.price
    obtain ⟨rate, hrate⟩ := (costModel_numeric cfg).2.2.2.1
    obtain ⟨held, hheld⟩ := hp.numeric.positions order.ticker
    have hlong := hp.held order.ticker
    have hleft := held_finalQuantity hp horder
    rw [hheld, lit_eq, lt_some, decide_eq_false_iff_not, not_lt] at hlong
    rw [hheld, hquantity, add_some, lit_eq, lt_some, decide_eq_false_iff_not, not_lt] at hleft
    have hnone : newlyShort (p.position order.ticker) (p.finalQuantity order) = lit 0 := by
      rw [hheld, hquantity, newlyShort_some, max_eq_left (neg_nonpos.mpr hleft),
        max_eq_left (neg_nonpos.mpr hlong), sub_zero, ite_self]
      rfl
    change newlyShort (p.position order.ticker) (p.finalQuantity order) * _ * _ = lit 0
    rw [hnone, hprice, hrate, lit_eq, mul_some, zero_mul, lit_eq, div_some _ (by norm_num),
      mul_some, zero_mul]

/-- Without short selling no borrowing is ever due. -/
theorem borrowDue_longOnly {s : EventState Exact} (hs : s.Numeric) (hview : view.Numeric)
    (hp : s.portfolio.LongOnly) : cfg.borrowDue view s = lit 0 := by
  have hshort : s.portfolio.shortBorrow view.prices cfg.costModel.borrowRateAnnual = lit 0 := by
    unfold Portfolio.shortBorrow
    rw [List.filter_eq_nil_iff.mpr fun item hitem => ?_]
    · rfl
    · rw [← position_of_mem hitem, hp.held item.1]
      exact Bool.false_ne_true
  have hsales : ∀ step ∈ cfg.barSteps view s, cfg.saleBorrow view s.history step = lit 0 := by
    unfold EventConfig.barSteps
    split
    · intro step hstep
      have haccrued := accrueBorrow_longOnly hp hview (costModel_numeric cfg).2.2.2.1
      have hlong := (foldSteps_induction (P := Portfolio.LongOnly)
        (fun step hstep hp => fillOrder_longOnly hp hview hs.history
          (hs.orders _ (mem_of_mem_foldSteps hstep))) haccrued).1 step hstep
      exact saleBorrow_longOnly hlong hview hs.history (hs.orders _ (mem_of_mem_foldSteps hstep))
    · exact List.forall_mem_nil _
  rw [EventConfig.borrowDue, hshort, sum_eq_zero fun v hv => ?_]
  · exact add_zero _
  · obtain ⟨step, hstep, rfl⟩ := List.mem_map.mp hv
    exact hsales step hstep

theorem eventBar_longOnly {s s' : EventState Exact} (hs : s.Numeric) (hview : view.Numeric)
    (hp : s.portfolio.LongOnly) (hbar : eventBar cfg s view = .ok s') : s'.portfolio.LongOnly := by
  obtain ⟨signals, -, rfl⟩ := map_eq_ok_iff.mp hbar
  have hopened : (cfg.openBar view s).portfolio.LongOnly := by
    have haccrued := accrueBorrow_longOnly hp hview (costModel_numeric cfg).2.2.2.1
    unfold EventConfig.openBar EventConfig.fillPending
    split
    · exact foldl_induction (P := Portfolio.LongOnly)
        (fun p order horder hp => fillOrder_longOnly hp hview hs.history (hs.orders order horder))
        haccrued
    · exact haccrued
  exact ⟨updateEquity_numeric hopened.numeric hview cfg.setOrder, hopened.allowShort, hopened.held⟩

end Fills

/-! ## A run -/

section Runs

variable {cfg : EventConfig Exact} {priceData series : Dict String (List Exact)}

/-- The first bars of a run. -/
theorem eventBars_succ {view : ℕ → EventView Exact} {t : ℕ} {s₀ s : EventState Exact} :
    eventBars cfg view (List.range (t + 1)) s₀ = .ok s ↔
      ∃ before, eventBars cfg view (List.range t) s₀ = .ok before ∧
        eventBar cfg before (view t) = .ok s := by
  rw [eventBars, List.range_succ, List.foldlM_append]
  constructor
  · intro h
    obtain ⟨before, hbefore, hlast⟩ := bind_eq_ok_iff.mp h
    obtain ⟨after, hafter, hnil⟩ := bind_eq_ok_iff.mp hlast
    cases hnil
    exact ⟨before, hbefore, hafter⟩
  · rintro ⟨before, hbefore, hlast⟩
    refine bind_eq_ok_iff.mpr ⟨before, hbefore, bind_eq_ok_iff.mpr ⟨s, hlast, rfl⟩⟩

/-- In every run on numbers in which no executed order sells a share of a long position, every
bar charges a day's rate on the positions that are short and on the shares that its fills newly
sell short, and a run without short selling is charged nothing. -/
theorem borrow_on_short_shares (hrun : NumericRun cfg priceData) {t : ℕ} {s : EventState Exact}
    (hs : eventBars cfg (eventViewAt cfg priceData series) (List.range t)
      (EventState.initial cfg) = .ok s)
    (hsells : ∀ bar < t, ∀ before,
      eventBars cfg (eventViewAt cfg priceData series) (List.range bar)
        (EventState.initial cfg) = .ok before →
      ∀ step ∈ cfg.barSteps (eventViewAt cfg priceData series bar) before,
        cfg.SellsNoLong (eventViewAt cfg priceData series bar) before.history step) :
    (∀ bar < t, ∀ before after,
      eventBars cfg (eventViewAt cfg priceData series) (List.range bar)
        (EventState.initial cfg) = .ok before →
      eventBar cfg before (eventViewAt cfg priceData series bar) = .ok after →
        after.portfolio.totalBorrow = before.portfolio.totalBorrow +
          cfg.borrowDue (eventViewAt cfg priceData series bar) before) ∧
      (cfg.allowShort = false → s.portfolio.totalBorrow = lit 0) := by
  have hview : ∀ bar, (eventViewAt cfg priceData series bar).Numeric := fun bar =>
    currentPrices_numeric hrun.prices cfg.tickers bar
  have hcharge : ∀ bar < t, ∀ before after,
      eventBars cfg (eventViewAt cfg priceData series) (List.range bar)
        (EventState.initial cfg) = .ok before →
      eventBar cfg before (eventViewAt cfg priceData series bar) = .ok after →
        after.portfolio.totalBorrow = before.portfolio.totalBorrow +
          cfg.borrowDue (eventViewAt cfg priceData series bar) before :=
    fun bar hbar before after hbefore hafter =>
      eventBar_totalBorrow (eventBars_numeric hrun hbefore) (hview bar) hafter
        (hsells bar hbar before hbefore)
  refine ⟨hcharge, fun hshort => ?_⟩
  have hnothing : ∀ n ≤ t, ∀ s, eventBars cfg (eventViewAt cfg priceData series) (List.range n)
      (EventState.initial cfg) = .ok s →
        s.portfolio.LongOnly ∧ s.portfolio.totalBorrow = lit 0 := by
    intro n
    induction n with
    | zero =>
      intro _ s hs
      cases hs
      exact ⟨⟨(initial_numeric hrun.capital).portfolio, hshort, fun _ => rfl⟩, rfl⟩
    | succ n ih =>
      intro hn s hs
      obtain ⟨before, hbefore, hlast⟩ := eventBars_succ.mp hs
      obtain ⟨hlong, hzero⟩ := ih (Nat.le_of_succ_le hn) before hbefore
      have hnumeric := eventBars_numeric hrun hbefore
      refine ⟨eventBar_longOnly hnumeric (hview n) hlong hlast, ?_⟩
      rw [hcharge n hn before s hbefore hlast, hzero,
        borrowDue_longOnly hnumeric (hview n) hlong]
      exact add_zero _
  exact (hnothing t le_rfl s hs).2

end Runs

/-- Bollinger bands over three bars, at the costs of a retail account. -/
def retailBands (allowShort : Bool) : EventConfig Exact where
  tickers := ["SPY"]
  strategy := .meanReversion 3 (lit 1)
  initialCapital := lit 100000
  costModelName := "retail"
  allowShort := allowShort
  sizer := .fixedFractional (lit 0.02)
  leverageLimit := none
  setOrder := List.dedup

/-- The price rises, which is sold short. -/
def risingPrices : List Exact :=
  [lit 10, lit 10, lit 11, lit 10.5, lit 10.5]

/-- The views of the rise. -/
def risingView : ℕ → EventView Exact :=
  eventViewAt (retailBands true) (Dict.empty.set "SPY" risingPrices) Dict.empty

/-- The price falls, which is bought, and rises, which is sold again. -/
def swingPrices : List Exact :=
  [lit 10, lit 10, lit 9, lit 9.5, lit 12, lit 12]

/-- The prices of one ticker are numbers. -/
theorem numericRun_retailBands {allowShort : Bool} {prices : List Exact}
    (h : ∀ v ∈ prices, v.isSome) :
    NumericRun (retailBands allowShort) (Dict.empty.set "SPY" prices) := by
  refine ⟨isNumber_lit _, isNumber_lit _, fun ticker values hvalues v hv => ?_⟩
  rw [Dict.get?_set] at hvalues
  split at hvalues
  · cases hvalues
    exact Option.isSome_iff_exists.mp (h v hv)
  · rw [Dict.get?_empty] at hvalues
    cases hvalues

/-- A short sale is charged its first day with its fill. -/
theorem borrow_on_short_sale : ∃ before after,
    eventBars (retailBands true) risingView (List.range 3)
        (EventState.initial (retailBands true)) = .ok before ∧
      eventBar (retailBands true) before (risingView 3) = .ok after ∧
      after.portfolio.totalBorrow =
        before.portfolio.totalBorrow + (retailBands true).borrowDue (risingView 3) before ∧
      PyFloat.lt (lit 0) after.portfolio.totalBorrow = true := by
  have hsells : ∀ bar < 4, (fun before => decide (∀ step ∈ (retailBands true).barSteps
      (risingView bar) before, (retailBands true).SellsNoLong (risingView bar) before.history
        step)) <$> eventBars (retailBands true) risingView (List.range bar)
          (EventState.initial (retailBands true)) = .ok true := by
    decide +kernel
  have hcharged : (fun after => PyFloat.lt (lit 0) after.portfolio.totalBorrow) <$>
      eventBars (retailBands true) risingView (List.range 4)
        (EventState.initial (retailBands true)) = .ok true := by
    decide +kernel
  obtain ⟨after, hafter, hpositive⟩ := map_eq_ok_iff.mp hcharged
  obtain ⟨before, hbefore, hlast⟩ := eventBars_succ.mp hafter
  have hrun : NumericRun (retailBands true) (Dict.empty.set "SPY" risingPrices) :=
    numericRun_retailBands (by decide)
  have hcharge := (borrow_on_short_shares hrun hafter fun bar hbar state hstate => by
    obtain ⟨state', hstate', hdecided⟩ := map_eq_ok_iff.mp (hsells bar hbar)
    cases Except.ok.inj (hstate.symm.trans hstate')
    exact of_decide_eq_true hdecided).1 3 (by decide) before after hbefore hlast
  exact ⟨before, after, hbefore, hlast, hcharge, hpositive⟩

/-- Without short selling, the sale of what was bought is charged for borrowing. -/
theorem borrow_without_shorts : ∃ p,
    runEventBacktest (retailBands false) (Dict.empty.set "SPY" swingPrices) = .ok p ∧
      PyFloat.lt (lit 0) p.totalBorrow = true := by
  have hcharged : (fun p => PyFloat.lt (lit 0) p.totalBorrow) <$>
      runEventBacktest (retailBands false) (Dict.empty.set "SPY" swingPrices) = .ok true := by
    decide +kernel
  exact map_eq_ok_iff.mp hcharged

end QuantumSentinel.Backtest
