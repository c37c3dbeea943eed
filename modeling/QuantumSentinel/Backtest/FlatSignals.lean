import QuantumSentinel.Backtest.EventNumbers

/-!
# Backtests: flat signals

A signal of direction zero asks for the liquidation of a position.  The size of its order is
computed first, like that of any other signal; it is zero, and an order of no size is skipped
before the branch that would liquidate.

Main results:

- Theorem `orderOf_flat`: a flat signal has no order.
- Theorem `direction_unique`: nor has its ticker another signal on the bar.
- Theorem `flat_signal_never_liquidates`: the position stays.
-/

namespace QuantumSentinel.Backtest

open Lib Exact

/-! ## The size of a flat signal -/

/-- A sizer gives nothing for a direction of zero. -/
theorem size_flat {sizer : EventSizer Exact} (hsizer : sizer.Numeric) {signal : SignalEvent Exact}
    (hflat : signal.suggestedDirection = 0) (hsignal : IsNumber signal.signalStrength)
    {price equity : Exact} (hprice : IsNumber price) (hequity : IsNumber equity)
    {values : List Exact} (hvalues : ∀ v ∈ values, IsNumber v) :
    sizer.size signal price equity values = some 0 := by
  rcases size_cases hsizer hsignal hprice hequity hvalues with hzero | ⟨_, ⟨x, rfl⟩, hpositive, hsize⟩
  · exact hzero
  · obtain ⟨_, p, hlit, rfl, hp⟩ := lt_iff.mp hpositive
    cases hlit
    rw [hsize, hflat, lit_eq, mul_some, div_some _ hp.ne', Int.cast_zero, zero_mul, zero_div]

/-- A flat signal has no order. -/
theorem orderOf_flat {cfg : EventConfig Exact} {view : EventView Exact} {history : History Exact}
    {p : Portfolio Exact} (hp : p.Numeric) (hsizer : cfg.sizer.Numeric) (hview : view.Numeric)
    (hhistory : NumericHistory history) {signal : SignalEvent Exact}
    (hsignal : IsNumber signal.signalStrength) (hflat : signal.suggestedDirection = 0) :
    cfg.orderOf view history p signal = none := by
  have hsize := size_flat hsizer hflat hsignal (hview.price signal.ticker) hp.lastEquity
    (hhistory.values signal.ticker)
  have hsmall : PyFloat.lt (PyFloat.abs (some 0 : Exact)) (lit 1e-4) = true := by
    rw [abs_some, abs_zero]
    exact lit_pos (by norm_num)
  simp only [EventConfig.orderOf, hsize, hsmall, if_true, ite_self]

theorem orderOf_ticker {cfg : EventConfig Exact} {view : EventView Exact} {history : History Exact}
    {p : Portfolio Exact} {signal : SignalEvent Exact} {order : OrderEvent Exact}
    (h : cfg.orderOf view history p signal = some order) : order.ticker = signal.ticker := by
  simp only [EventConfig.orderOf] at h
  split at h
  · cases h
  · split at h
    · cases h
    · split at h
      · split at h
        · cases h
        · cases h
          rfl
      · cases h
        rfl

/-! ## One signal for a ticker -/

section Directions

variable {F : Type} [PyFloat F]

theorem momentumScore_ticker {lookback : ℤ} {item : String × List F} {score : String × F}
    (h : momentumScore lookback item = .ok (some score)) : score.1 = item.1 := by
  unfold momentumScore at h
  split at h
  · split at h
    · cases h
      rfl
    · cases h
  · cases h

/-- The tickers of the scores are those of the history, without some. -/
theorem scores_sublist {lookback : ℤ} {items : List (String × List F)}
    {scores : List (Option (String × F))}
    (h : List.Forall₂ (fun item score => momentumScore lookback item = .ok score) items scores) :
    ((scores.filterMap id).map Prod.fst).Sublist (items.map Prod.fst) := by
  induction h with
  | nil => exact List.Sublist.refl _
  | @cons item score items scores hscore _ ih =>
    cases score with
    | none => exact ih.cons item.1
    | some score =>
      have hcons : ((some score :: scores).filterMap id).map Prod.fst =
          score.1 :: (scores.filterMap id).map Prod.fst := rfl
      rw [hcons, List.map_cons, momentumScore_ticker hscore]
      exact ih.cons_cons item.1

/-- A ranking has one signal for each ticker. -/
theorem rankedSignals_tickers (nLong nShort : ℤ) (bar : ℕ) (scores : List (String × F)) :
    ((rankedSignals nLong nShort bar scores).map SignalEvent.ticker).Perm
      (scores.map Prod.fst) := by
  have htickers : (rankedSignals nLong nShort bar scores).map SignalEvent.ticker =
      (scores.mergeSort fun a b => !PyFloat.lt a.2 b.2).map Prod.fst := by
    rw [rankedSignals, List.map_map]
    have hpointwise : ∀ entry ∈ (scores.mergeSort fun a b => !PyFloat.lt a.2 b.2).zipIdx,
        (SignalEvent.ticker ∘ fun entry : (String × F) × ℕ =>
          if (entry.2 : ℤ) < min nLong
              (((scores.mergeSort fun a b => !PyFloat.lt a.2 b.2).length / 3 : ℕ) : ℤ) then
            (⟨bar, entry.1.1, entry.1.2, 1⟩ : SignalEvent F)
          else if ((scores.mergeSort fun a b => !PyFloat.lt a.2 b.2).length : ℤ) - min nShort
              (((scores.mergeSort fun a b => !PyFloat.lt a.2 b.2).length / 3 : ℕ) : ℤ) ≤ entry.2 then
            ⟨bar, entry.1.1, entry.1.2, -1⟩
          else ⟨bar, entry.1.1, lit 0, 0⟩) entry = entry.1.1 := by
      intro entry _
      simp only [Function.comp_apply]
      split
      · rfl
      · split
        · rfl
        · rfl
    rw [List.map_congr_left hpointwise]
    conv_rhs => rw [← List.zipIdx_map_fst 0 (scores.mergeSort fun a b => !PyFloat.lt a.2 b.2)]
    rw [List.map_map]
    rfl
  rw [htickers]
  exact (List.mergeSort_perm _ _).map Prod.fst

/-- The momentum ranks a ticker once. -/
theorem momentum_unique {lookback nLong nShort : ℤ} {bar calls calls' : ℕ} {history : History F}
    {list list' : List (SignalEvent F)}
    (h : momentumOnMarket lookback nLong nShort bar calls history = .ok list)
    (h' : momentumOnMarket lookback nLong nShort bar calls' history = .ok list')
    {a b : SignalEvent F} (ha : a ∈ list) (hb : b ∈ list') (hticker : a.ticker = b.ticker) :
    a = b := by
  unfold momentumOnMarket at h h'
  split at h
  · cases h
    cases ha
  · split at h'
    · cases h'
      cases hb
    · obtain ⟨scores, hscores, hranked⟩ := bind_eq_ok_iff.mp h
      obtain ⟨scores', hscores', hranked'⟩ := bind_eq_ok_iff.mp h'
      cases Except.ok.inj (hscores.symm.trans hscores')
      cases hranked
      cases hranked'
      have hnodup : ((rankedSignals nLong nShort bar (scores.filterMap id)).map
          SignalEvent.ticker).Nodup :=
        (rankedSignals_tickers nLong nShort bar _).nodup_iff.mpr
          ((scores_sublist (mapM_eq_ok_iff.mp hscores)).nodup history.nodup)
      exact List.inj_on_of_nodup_map hnodup ha hb hticker

/-- The mean reversion has one signal at most, for the ticker of the event. -/
theorem meanReversion_single {window : ℤ} {nStd : F} {bar : ℕ} {ticker : String}
    {history : History F} {signal : SignalEvent F}
    (h : signal ∈ meanReversionOnMarket window nStd bar ticker history) :
    signal.ticker = ticker ∧ meanReversionOnMarket window nStd bar ticker history = [signal] := by
  unfold meanReversionOnMarket at h ⊢
  simp only at h ⊢
  split at h
  · cases h
  · split at h
    · cases h
    · split at h
      · cases h
      · split at h
        · cases List.mem_singleton.mp h
          simp_all
        · split at h
          · cases List.mem_singleton.mp h
            simp_all
          · split at h
            · cases List.mem_singleton.mp h
              simp_all
            · cases h

/-- The crossover has no flat signal. -/
theorem maCrossover_not_flat {bar : ℕ} {ticker : String} {value : F} {signal : SignalEvent F}
    (h : signal ∈ maCrossoverOnMarket bar ticker value) : signal.suggestedDirection ≠ 0 := by
  unfold maCrossoverOnMarket at h
  split at h
  · rw [List.mem_singleton.mp h]
    exact one_ne_zero
  · split at h
    · rw [List.mem_singleton.mp h]
      exact neg_ne_zero.mpr one_ne_zero
    · cases h

/-- The signals that a bar has for the ticker of a flat one are flat. -/
theorem direction_unique {cfg : EventConfig F} {view : EventView F} {history : History F}
    {calls : ℕ} {signals : List (SignalEvent F)}
    (h : cfg.signals view history calls = .ok signals) {a b : SignalEvent F}
    (ha : a ∈ signals) (hb : b ∈ signals) (hticker : b.ticker = a.ticker)
    (hflat : a.suggestedDirection = 0) : b.suggestedDirection = 0 := by
  obtain ⟨lists, hlists, rfl⟩ := map_eq_ok_iff.mp h
  obtain ⟨list, hlist, ha⟩ := List.mem_flatten.mp ha
  obtain ⟨list', hlist', hb⟩ := List.mem_flatten.mp hb
  obtain ⟨entry, -, hok⟩ := exists_of_forall₂ (mapM_eq_ok_iff.mp hlists) hlist
  obtain ⟨entry', -, hok'⟩ := exists_of_forall₂ (mapM_eq_ok_iff.mp hlists) hlist'
  unfold onMarket at hok hok'
  cases hstrategy : cfg.strategy with
  | maCrossover fast slow =>
    rw [hstrategy] at hok
    obtain ⟨value, -, rfl⟩ := map_eq_ok_iff.mp hok
    exact absurd hflat (maCrossover_not_flat ha)
  | momentum lookback nLong nShort =>
    rw [hstrategy] at hok hok'
    rw [← momentum_unique hok hok' ha hb hticker.symm]
    exact hflat
  | meanReversion window nStd =>
    rw [hstrategy] at hok hok'
    cases hok
    cases hok'
    obtain ⟨hentry, hlist⟩ := meanReversion_single ha
    obtain ⟨hentry', -⟩ := meanReversion_single hb
    rw [← hentry', hticker, hentry, hlist] at hb
    rw [List.mem_singleton.mp hb]
    exact hflat

end Directions

/-! ## Positions of a ticker without orders -/

section Positions

variable {cfg : EventConfig Exact} {view : EventView Exact} {history : History Exact}
  {ticker : String}

theorem fillOrder_position_other {p : Portfolio Exact} {order : OrderEvent Exact}
    (h : order.ticker ≠ ticker) :
    (cfg.fillOrder view history p order).position ticker = p.position ticker := by
  unfold EventConfig.fillOrder
  cases hfill : cfg.executed view history p order with
  | none => rfl
  | some fill =>
    obtain ⟨rfl, -⟩ := executed_eq hfill
    exact (position_processFill _ _ _ _).trans (if_neg h.symm)

/-- The open of a bar leaves the position of a ticker that no order is pending for. -/
theorem openBar_position {s : EventState Exact}
    (h : ∀ order ∈ s.pendingOrders, order.ticker ≠ ticker) :
    (cfg.openBar view s).portfolio.position ticker = s.portfolio.position ticker := by
  unfold EventConfig.openBar EventConfig.fillPending
  split
  · exact foldl_induction
      (P := fun p : Portfolio Exact => p.position ticker = s.portfolio.position ticker)
      (fun p order horder hp => (fillOrder_position_other (h order horder)).trans hp) rfl
  · rfl

/-- No order is left pending behind the open. -/
theorem openBar_pendingOrders {s : EventState Exact} (h : 0 < view.bar ∨ s.pendingOrders = []) :
    (cfg.openBar view s).pendingOrders = [] := by
  unfold EventConfig.openBar EventConfig.fillPending
  split
  · rfl
  · rename_i hbar
    exact h.resolve_left hbar

end Positions

/-! ## A run -/

/-- The strategy emits the signal at the bar. -/
def EmittedAt (cfg : EventConfig Exact) (view : EventView Exact) (s : EventState Exact)
    (signal : SignalEvent Exact) : Prop :=
  ∃ signals, cfg.signals view
      (cfg.tickers.foldl (EventConfig.record view) (cfg.openBar view s).history)
      (cfg.openBar view s).calls = .ok signals ∧ signal ∈ signals

/-- The orders of a bar with a flat signal leave its ticker out. -/
theorem eventBar_flat {cfg : EventConfig Exact} (hsizer : cfg.sizer.Numeric)
    {view : EventView Exact} (hview : view.Numeric) {s s' : EventState Exact} (hs : s.Numeric)
    (hpending : 0 < view.bar ∨ s.pendingOrders = []) (hbar : eventBar cfg s view = .ok s')
    {signal : SignalEvent Exact} (hsignal : EmittedAt cfg view s signal)
    (hflat : signal.suggestedDirection = 0) :
    (∀ order ∈ s'.pendingOrders, order.ticker ≠ signal.ticker) ∧
      s'.portfolio.position signal.ticker =
        (cfg.openBar view s).portfolio.position signal.ticker := by
  have hopened : (cfg.openBar view s).Numeric := openBar_numeric hs hview
  obtain ⟨signals, hsignals, hmem⟩ := hsignal
  obtain ⟨signals', hsignals', rfl⟩ := map_eq_ok_iff.mp hbar
  cases Except.ok.inj (hsignals.symm.trans hsignals')
  have hhistory := records_numeric hview cfg.tickers hopened.history
  refine ⟨fun order horder hticker => ?_, rfl⟩
  rcases List.mem_append.mp horder with horder | horder
  · rw [openBar_pendingOrders hpending] at horder
    cases horder
  · obtain ⟨other, hother, hsome⟩ := List.mem_filterMap.mp horder
    have hsame : other.ticker = signal.ticker := (orderOf_ticker hsome).symm.trans hticker
    rw [orderOf_flat hopened.portfolio hsizer hview hhistory
      (signals_numeric hhistory hsignals other hother)
      (direction_unique hsignals hmem hother hsame hflat)] at hsome
    cases hsome

/-- In no run on numbers is a position liquidated by a flat signal: no order is staged for its
ticker, and the next bar opens with the position that was held. -/
theorem flat_signal_never_liquidates {cfg : EventConfig Exact}
    {priceData series : Dict String (List Exact)} (hrun : NumericRun cfg priceData) {t : ℕ}
    {s s' : EventState Exact}
    (hs : eventBars cfg (eventViewAt cfg priceData series) (List.range t)
      (EventState.initial cfg) = .ok s)
    (hbar : eventBar cfg s (eventViewAt cfg priceData series t) = .ok s')
    {signal : SignalEvent Exact}
    (hsignal : EmittedAt cfg (eventViewAt cfg priceData series t) s signal)
    (hflat : signal.suggestedDirection = 0)
    (hheld : PyFloat.le (lit 1e-4) (PyFloat.abs
      ((cfg.openBar (eventViewAt cfg priceData series t) s).portfolio.position signal.ticker)) =
        true) :
    (∀ order ∈ s'.pendingOrders, order.ticker ≠ signal.ticker) ∧
      (cfg.openBar (eventViewAt cfg priceData series (t + 1)) s').portfolio.position
          signal.ticker =
        (cfg.openBar (eventViewAt cfg priceData series t) s).portfolio.position signal.ticker ∧
      (cfg.openBar (eventViewAt cfg priceData series (t + 1)) s').portfolio.position
          signal.ticker ≠ lit 0 := by
  have hview : (eventViewAt cfg priceData series t).Numeric :=
    currentPrices_numeric hrun.prices cfg.tickers t
  have hpending : 0 < (eventViewAt cfg priceData series t).bar ∨ s.pendingOrders = [] := by
    cases t with
    | zero =>
      cases hs
      exact Or.inr rfl
    | succ t => exact Or.inl (Nat.succ_pos t)
  obtain ⟨hnone, hkept⟩ := eventBar_flat hrun.sizer hview (eventBars_numeric hrun hs) hpending hbar
    hsignal hflat
  have hposition : (cfg.openBar (eventViewAt cfg priceData series (t + 1)) s').portfolio.position
      signal.ticker =
        (cfg.openBar (eventViewAt cfg priceData series t) s).portfolio.position signal.ticker :=
    (openBar_position hnone).trans hkept
  refine ⟨hnone, hposition, fun hzero => ?_⟩
  rw [← hposition, hzero, lit_eq, lit_eq, abs_some, abs_zero, le_some, decide_eq_true_eq] at hheld
  norm_num at hheld

/-- Bollinger bands over three bars. -/
def threeBarBands : EventConfig Exact where
  tickers := ["SPY"]
  strategy := .meanReversion 3 (lit 1)
  initialCapital := lit 100000
  costModelName := "zero_cost"
  allowShort := false
  sizer := .fixedFractional (lit 0.02)
  leverageLimit := none
  setOrder := List.dedup

/-- The price falls, which is bought, and recovers to its mean. -/
def recovery : Dict String (List Exact) :=
  Dict.empty.set "SPY" [lit 10, lit 10, lit 9, lit 9.5, lit 9.5]

/-- A bar of a run: the state in front of it, the state behind it, and its signals. -/
def barOf (cfg : EventConfig Exact) (view : ℕ → EventView Exact) (bar : ℕ) :
    Except Raised (EventState Exact × EventState Exact × List (SignalEvent Exact)) := do
  let s ← eventBars cfg view (List.range bar) (EventState.initial cfg)
  let s' ← eventBar cfg s (view bar)
  let signals ← cfg.signals (view bar)
    (cfg.tickers.foldl (EventConfig.record (view bar)) (cfg.openBar (view bar) s).history)
    (cfg.openBar (view bar) s).calls
  .ok (s, s', signals)

theorem barOf_eq_ok {cfg : EventConfig Exact} {view : ℕ → EventView Exact} {bar : ℕ}
    {s s' : EventState Exact} {signals : List (SignalEvent Exact)}
    (h : barOf cfg view bar = .ok (s, s', signals)) :
    eventBars cfg view (List.range bar) (EventState.initial cfg) = .ok s ∧
      eventBar cfg s (view bar) = .ok s' ∧
        ∀ signal ∈ signals, EmittedAt cfg (view bar) s signal := by
  obtain ⟨s, hs, h⟩ := bind_eq_ok_iff.mp h
  obtain ⟨s', hs', h⟩ := bind_eq_ok_iff.mp h
  obtain ⟨signals, hsignals, h⟩ := bind_eq_ok_iff.mp h
  cases h
  exact ⟨hs, hs', fun signal hsignal => ⟨signals, hsignals, hsignal⟩⟩

/-- The views of the recovery. -/
def recoveryView : ℕ → EventView Exact :=
  eventViewAt threeBarBands recovery Dict.empty

/-- A flat signal meets a position of more than three hundred shares. -/
theorem recovery_bar : ∃ s s' signal,
    eventBars threeBarBands recoveryView (List.range 3) (EventState.initial threeBarBands) = .ok s ∧
      eventBar threeBarBands s (recoveryView 3) = .ok s' ∧
      EmittedAt threeBarBands (recoveryView 3) s signal ∧
      signal.ticker = "SPY" ∧ signal.suggestedDirection = 0 ∧
      PyFloat.le (lit 300)
        ((threeBarBands.openBar (recoveryView 3) s).portfolio.position "SPY") = true ∧
      s'.pendingOrders = [] ∧
      PyFloat.le (lit 300)
        ((threeBarBands.openBar (recoveryView 4) s').portfolio.position "SPY") = true := by
  have hbar : (fun out : EventState Exact × EventState Exact × List (SignalEvent Exact) =>
      (out.2.2.map fun signal => (signal.ticker, signal.suggestedDirection),
        PyFloat.le (lit 300)
          ((threeBarBands.openBar (recoveryView 3) out.1).portfolio.position "SPY"),
        out.2.1.pendingOrders.length,
        PyFloat.le (lit 300)
          ((threeBarBands.openBar (recoveryView 4) out.2.1).portfolio.position "SPY"))) <$>
        barOf threeBarBands recoveryView 3 = .ok ([("SPY", 0)], true, 0, true) := by
    decide +kernel
  obtain ⟨⟨s, s', signals⟩, hok, hout⟩ := map_eq_ok_iff.mp hbar
  obtain ⟨hs, hs', hemitted⟩ := barOf_eq_ok hok
  obtain ⟨hsignals, hheld, hpending, hnext⟩ := Prod.mk.inj hout |>.imp_right fun h =>
    (Prod.mk.inj h).imp_right Prod.mk.inj
  obtain ⟨signal, rfl, hsignal⟩ := List.map_eq_singleton_iff.mp hsignals
  obtain ⟨hticker, hflat⟩ := Prod.mk.inj hsignal
  exact ⟨s, s', signal, hs, hs', hemitted signal (List.mem_singleton_self signal), hticker, hflat,
    hheld, List.length_eq_zero_iff.mp hpending, hnext⟩

theorem recovery_numeric : NumericRun threeBarBands recovery := by
  refine ⟨isNumber_lit _, isNumber_lit _, fun ticker values hvalues v hv => ?_⟩
  rw [recovery, Dict.get?_set] at hvalues
  split at hvalues
  · cases hvalues
    have hnumbers : ∀ v ∈ ([lit 10, lit 10, lit 9, lit 9.5, lit 9.5] : List Exact),
        v.isSome := by
      decide
    exact Option.isSome_iff_exists.mp (hnumbers v hv)
  · rw [Dict.get?_empty] at hvalues
    cases hvalues

/-- The recovery with a flat signal: the position is held on. -/
theorem flat_signal_recovery : ∃ s s',
    eventBars threeBarBands recoveryView (List.range 3) (EventState.initial threeBarBands) = .ok s ∧
      eventBar threeBarBands s (recoveryView 3) = .ok s' ∧
      (∀ order ∈ s'.pendingOrders, order.ticker ≠ "SPY") ∧
      (threeBarBands.openBar (recoveryView 4) s').portfolio.position "SPY" =
        (threeBarBands.openBar (recoveryView 3) s).portfolio.position "SPY" := by
  obtain ⟨s, s', signal, hs, hs', hemitted, hticker, hflat, hheld, -⟩ := recovery_bar
  have hsome : PyFloat.le (lit 1e-4) (PyFloat.abs
      ((threeBarBands.openBar (recoveryView 3) s).portfolio.position signal.ticker)) = true := by
    rw [hticker]
    obtain ⟨x, y, hx, hy, hxy⟩ := le_iff.mp hheld
    cases hx
    rw [hy, abs_some, lit_eq, le_some, decide_eq_true_eq]
    exact le_trans (by norm_num) (hxy.trans (le_abs_self y))
  obtain ⟨hnone, hposition, -⟩ :=
    flat_signal_never_liquidates recovery_numeric hs hs' hemitted hflat hsome
  rw [hticker] at hnone hposition
  exact ⟨s, s', hs, hs', hnone, hposition⟩

/-- At a bar of the recovery, at positive prices, a flat signal finds more than three hundred
shares, no order is staged, and they are held behind the next open. -/
theorem flat_signal_ignored : ∃ s s' signal,
    eventBars threeBarBands recoveryView (List.range 3) (EventState.initial threeBarBands) = .ok s ∧
      eventBar threeBarBands s (recoveryView 3) = .ok s' ∧
      EmittedAt threeBarBands (recoveryView 3) s signal ∧
      signal.ticker = "SPY" ∧ signal.suggestedDirection = 0 ∧
      PyFloat.le (lit 300)
        ((threeBarBands.openBar (recoveryView 3) s).portfolio.position "SPY") = true ∧
      (recoveryView 3).prices.get? "SPY" = some (lit 9.5) ∧
      (recoveryView 4).prices.get? "SPY" = some (lit 9.5) ∧
      s'.pendingOrders = [] ∧
      PyFloat.le (lit 300)
        ((threeBarBands.openBar (recoveryView 4) s').portfolio.position "SPY") = true := by
  obtain ⟨s, s', signal, hs, hs', hemitted, hticker, hflat, hheld, hpending, hnext⟩ := recovery_bar
  exact ⟨s, s', signal, hs, hs', hemitted, hticker, hflat, hheld, by decide +kernel,
    by decide +kernel, hpending, hnext⟩

end QuantumSentinel.Backtest
