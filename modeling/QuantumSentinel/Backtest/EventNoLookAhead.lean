import QuantumSentinel.Backtest.EventSimulator
import QuantumSentinel.Backtest.NoLookAhead

/-!
# Backtests: the event simulator does not look ahead

Up to a bar, two runs on prices that agree up to it are in the same state.  Behind it they go
apart, but they read histories of one length, so that they fail on the same bar or not at all, and
all they add to the log and to the curve is later.

Main results:

- Theorem `eventView_agree`: what is read at a bar depends on the bars up to it.
- Theorem `eventBar_later`: a bar of two runs that have gone apart.
- Theorem `runEventBacktest_past`: the trades and the equity up to a bar.
- Theorem `no_look_ahead`: both engines.
-/

namespace QuantumSentinel.Backtest

open Lib

variable {F : Type}

/-! ## What a bar reads -/

section Agree

variable {n : ℕ} {data data' : Dict String (List F)}

/-- A bar before the index is the same. -/
theorem SeriesAgree.at_bar (h : SeriesAgree n data data') {bar : ℕ} (hbar : bar < n)
    (ticker : String) :
    ((data.get? ticker).bind fun values => values[bar]?) =
      (data'.get? ticker).bind fun values => values[bar]? := by
  rcases h.cases ticker with ⟨hfirst, hsecond⟩ | ⟨values, values', hfirst, hsecond, hvalues⟩
  · rw [hfirst, hsecond]
  · rw [hfirst, hsecond, Option.bind_some, Option.bind_some, hvalues.past bar hbar]

/-- A bar is there on both sides, or on neither. -/
theorem SeriesAgree.isSome_at (h : SeriesAgree n data data') (bar : ℕ) (ticker : String) :
    ((data.get? ticker).bind fun values => values[bar]?).isSome =
      ((data'.get? ticker).bind fun values => values[bar]?).isSome := by
  rcases h.cases ticker with ⟨hfirst, hsecond⟩ | ⟨values, values', hfirst, hsecond, hvalues⟩
  · rw [hfirst, hsecond]
  · rw [hfirst, hsecond, Option.bind_some, Option.bind_some]
    exact getElem?_isSome_congr hvalues.length bar

/-- Two views with the same bar and the same tickers. -/
structure ViewsAlike (view view' : EventView F) : Prop where
  bar : view.bar = view'.bar
  prices : view.prices.map (fun _ => ()) = view'.prices.map fun _ => ()
  series : ∀ ticker, (view.series ticker).isSome = (view'.series ticker).isSome

/-- What is read at a bar depends on the bars up to it. -/
theorem eventView_agree (h : SeriesAgree n data data') {series series' : Dict String (List F)}
    (hseries : SeriesAgree n series series') (cfg : EventConfig F) {bar : ℕ} (hbar : bar < n) :
    eventViewAt cfg data series bar = eventViewAt cfg data' series' bar := by
  have hprices : currentPrices data cfg.tickers bar = currentPrices data' cfg.tickers bar := by
    apply foldl_congr_mem
    intro prices ticker _
    rw [h.at_bar hbar ticker]
  simp only [eventViewAt, hprices, hseries.at_bar hbar]

/-- Prices of one length give views of the same tickers. -/
theorem eventView_alike (h : SeriesAgree n data data') {series series' : Dict String (List F)}
    (hseries : SeriesAgree n series series') (cfg : EventConfig F) (bar : ℕ) :
    ViewsAlike (eventViewAt cfg data series bar) (eventViewAt cfg data' series' bar) := by
  refine ⟨rfl, ?_, fun ticker => hseries.isSome_at bar ticker⟩
  apply foldl_related (R := fun a b : Dict String F => a.map (fun _ => ()) = b.map fun _ => ())
  · intro prices prices' ticker _ hunits
    have hsome := h.isSome_at bar ticker
    generalize ((data.get? ticker).bind fun values => values[bar]?) = price at hsome
    generalize ((data'.get? ticker).bind fun values => values[bar]?) = price' at hsome
    cases price with
    | none =>
      cases price' with
      | none => exact hunits
      | some value' => cases hsome
    | some value =>
      cases price' with
      | none => cases hsome
      | some value' => rw [Dict.map_set, Dict.map_set, hunits]
  · rfl

variable [PyFloat F]

/-- The prepared series do not look ahead. -/
theorem prepare_agree (h : SeriesAgree n data data') (cfg : EventConfig F) :
    Both (SeriesAgree n) (prepare cfg data) (prepare cfg data') := by
  unfold prepare
  cases cfg.strategy with
  | maCrossover fast slow =>
    refine (Both.mapM (R := fun a b : String × List F => a.1 = b.1 ∧ SamePast n a.2 b.2)
      fun ticker _ => ?_).map fun items items' hitems =>
        seriesAgree_foldl hitems (SeriesAgree.refl n _)
    rcases h.cases ticker with ⟨hfirst, hsecond⟩ | ⟨values, values', hfirst, hsecond, hvalues⟩
    · rw [hfirst, hsecond]
      exact rfl
    · rw [hfirst, hsecond]
      refine ((maCrossoverSeries_samePast hvalues fast slow).mapError Raised.shape).map ?_
      intro series series' hseries
      exact ⟨rfl, hseries⟩
  | momentum lookback nLong nShort => exact SeriesAgree.refl n _
  | meanReversion window nStd => exact SeriesAgree.refl n _

omit [PyFloat F] in
/-- The lengths are the same. -/
theorem commonLength_agree (h : SeriesAgree n data data') (cfg : EventConfig F) :
    commonLength cfg data = commonLength cfg data' := by
  unfold commonLength
  congr 1
  apply mapM_congr
  intro ticker _
  rcases h.cases ticker with ⟨hfirst, hsecond⟩ | ⟨values, values', hfirst, hsecond, hvalues⟩
  · rw [hfirst, hsecond]
  · rw [hfirst, hsecond]
    exact congrArg Except.ok hvalues.length

end Agree

/-! ## Histories of one length -/

section Alike

variable [PyFloat F] {view view' : EventView F} {history history' : History F}

omit [PyFloat F] in
/-- The histories of a ticker are of one length. -/
theorem length_history (hhistory : history.map List.length = history'.map List.length)
    (ticker : String) :
    ((history.get? ticker).getD []).length = ((history'.get? ticker).getD []).length := by
  have hseen : ∀ h : History F,
      ((h.get? ticker).getD []).length = ((h.map List.length).get? ticker).getD 0 := by
    intro h
    rw [Dict.get?_map]
    cases h.get? ticker with
    | none => rfl
    | some values => rfl
  rw [hseen history, hseen history', hhistory]

omit [PyFloat F] in
/-- The next prices keep the lengths in step. -/
theorem record_alike (hview : ViewsAlike view view')
    (hhistory : history.map List.length = history'.map List.length) (ticker : String) :
    (EventConfig.record view history ticker).map List.length =
      (EventConfig.record view' history' ticker).map List.length := by
  have hprice : ((view.prices.get? ticker).map fun _ => ()) =
      (view'.prices.get? ticker).map fun _ => () := by
    rw [← Dict.get?_map, ← Dict.get?_map, hview.prices]
  have hlength := length_history hhistory ticker
  unfold EventConfig.record
  cases hfirst : view.prices.get? ticker with
  | none =>
    cases hsecond : view'.prices.get? ticker with
    | none => exact hhistory
    | some price' =>
      rw [hfirst, hsecond] at hprice
      cases hprice
  | some price =>
    cases hsecond : view'.prices.get? ticker with
    | none =>
      rw [hfirst, hsecond] at hprice
      cases hprice
    | some price' =>
      simp only
      rw [Dict.map_set, Dict.map_set, hhistory, List.length_append, List.length_append,
        hlength]
      rfl

/-- The crossover fails for the length of a history, not for what is in it. -/
theorem maCrossoverSignal_alike (hview : ViewsAlike view view')
    (hhistory : history.map List.length = history'.map List.length) (fast slow : ℤ)
    (ticker : String) :
    Both (fun _ _ => True) (maCrossoverSignal fast slow (view.series ticker) history ticker)
      (maCrossoverSignal fast slow (view'.series ticker) history' ticker) := by
  have hseries := hview.series ticker
  generalize view.series ticker = series at hseries
  generalize view'.series ticker = series' at hseries
  cases series with
  | some signal =>
    cases series' with
    | some signal' => trivial
    | none => cases hseries
  | none =>
    cases series' with
    | some signal' => cases hseries
    | none =>
      have htail := (SamePast.of_length (length_history hhistory ticker)).sliceFrom
        (-(max fast slow + 1))
      simp only [maCrossoverSignal]
      generalize sliceFrom ((history.get? ticker).getD []) (-(max fast slow + 1)) = tail at *
      generalize sliceFrom ((history'.get? ticker).getD []) (-(max fast slow + 1)) = tail' at *
      have hempty : tail = [] ↔ tail' = [] := by
        rw [← List.length_eq_zero_iff, ← List.length_eq_zero_iff, htail.length]
      by_cases htailEmpty : tail = []
      · rw [if_pos htailEmpty, if_pos (hempty.mp htailEmpty)]
        trivial
      · rw [if_neg htailEmpty, if_neg fun h => htailEmpty (hempty.mpr h)]
        refine ((maCrossoverSeries_samePast htail fast slow).mapError Raised.shape).bind ?_
        intro signals signals' hsignals
        have hlast : signals.getLast?.isSome = signals'.getLast?.isSome := by
          rw [List.getLast?_eq_getElem?, List.getLast?_eq_getElem?, hsignals.length]
          exact getElem?_isSome_congr hsignals.length _
        generalize signals.getLast? = last at hlast
        generalize signals'.getLast? = last' at hlast
        cases last with
        | none =>
          cases last' with
          | none => exact rfl
          | some signal' => cases hlast
        | some signal =>
          cases last' with
          | none => cases hlast
          | some signal' => trivial

/-- So does the momentum of a ticker. -/
theorem momentumScore_alike (lookback : ℤ) {item item' : String × List F}
    (h : (item.1, item.2.length) = (item'.1, item'.2.length)) :
    Both (fun _ _ => True) (momentumScore lookback item) (momentumScore lookback item') := by
  have hlength : item.2.length = item'.2.length := congrArg Prod.snd h
  have hlast := pyGet?_isSome_congr hlength (-1)
  have hbefore := pyGet?_isSome_congr hlength (-lookback)
  unfold momentumScore
  rw [← hlength]
  split
  · cases hfirst : pyGet? item.2 (-1) <;> cases hfirst' : pyGet? item'.2 (-1) <;>
      cases hsecond : pyGet? item.2 (-lookback) <;>
      cases hsecond' : pyGet? item'.2 (-lookback) <;>
      simp_all [Both]
  · trivial

/-- A strategy fails for the lengths of the histories, not for what is in them. -/
theorem onMarket_alike (strategy : EventStrategy F) (hview : ViewsAlike view view')
    (hhistory : history.map List.length = history'.map List.length) (calls : ℕ)
    (ticker : String) :
    Both (fun _ _ => True) (onMarket strategy view history calls ticker)
      (onMarket strategy view' history' calls ticker) := by
  cases strategy with
  | maCrossover fast slow =>
    exact (maCrossoverSignal_alike hview hhistory fast slow ticker).map fun _ _ _ => trivial
  | momentum lookback nLong nShort =>
    have hitems : List.Forall₂ (fun a b : String × List F =>
        (a.1, a.2.length) = (b.1, b.2.length)) history.items history'.items := by
      have hmaps := congrArg Dict.items hhistory
      rw [← List.forall₂_eq_eq_eq] at hmaps
      exact List.forall₂_map_left_iff.mp (List.forall₂_map_right_iff.mp hmaps)
    simp only [onMarket, momentumOnMarket]
    split
    · trivial
    · exact (Both.mapM_related hitems fun a b hab => momentumScore_alike lookback hab).bind
        fun _ _ _ => trivial
  | meanReversion window nStd => trivial

end Alike

/-! ## What a bar adds -/

/-- A portfolio with more trades of one bar. -/
structure Portfolio.Grows (bar : ℕ) (p p' : Portfolio F) : Prop where
  trades : ∃ more, p'.tradeLog = p.tradeLog ++ more ∧ ∀ trade ∈ more, trade.bar = bar
  curve : p'.equityCurve = p.equityCurve

/-- The trades up to a bar. -/
def eventTradesUpTo (t : ℕ) (log : List (EventTrade F)) : List (EventTrade F) :=
  log.filter fun trade => decide (trade.bar ≤ t)

namespace Portfolio.Grows

variable {bar t : ℕ} {p p' p'' : Portfolio F}

theorem refl (bar : ℕ) (p : Portfolio F) : Grows bar p p :=
  ⟨⟨[], (List.append_nil _).symm, fun _ h => by cases h⟩, rfl⟩

theorem trans (h : Grows bar p p') (h' : Grows bar p' p'') : Grows bar p p'' := by
  rcases h.trades with ⟨more, hmore, hall⟩
  rcases h'.trades with ⟨more', hmore', hall'⟩
  refine ⟨⟨more ++ more', ?_, ?_⟩, h'.curve.trans h.curve⟩
  · rw [hmore', hmore, List.append_assoc]
  · intro trade htrade
    rcases List.mem_append.mp htrade with hold | hnew
    · exact hall trade hold
    · exact hall' trade hnew

/-- Trades of a later bar leave the past alone. -/
theorem past (h : Grows bar p p') (ht : t < bar) :
    eventTradesUpTo t p'.tradeLog = eventTradesUpTo t p.tradeLog := by
  rcases h.trades with ⟨more, hmore, hall⟩
  have hlate : eventTradesUpTo t more = [] := by
    refine List.filter_eq_nil_iff.mpr fun trade htrade => ?_
    rw [decide_eq_true_eq, hall trade htrade]
    omega
  rw [hmore, eventTradesUpTo, List.filter_append]
  change eventTradesUpTo t p.tradeLog ++ eventTradesUpTo t more = _
  rw [hlate, List.append_nil]

end Portfolio.Grows

section Bars

variable [PyFloat F]

/-- An order adds at most one trade, of the bar. -/
theorem fillOrder_grows (cfg : EventConfig F) (view : EventView F) (history : History F)
    (p : Portfolio F) (order : OrderEvent F) :
    Portfolio.Grows view.bar p (cfg.fillOrder view history p order) := by
  unfold EventConfig.fillOrder
  split
  · refine ⟨⟨_, rfl, ?_⟩, rfl⟩
    intro trade htrade
    rw [List.mem_singleton.mp htrade]
  · exact Portfolio.Grows.refl _ p

/-- The front of a bar adds trades of the bar, and leaves histories and calls alone. -/
theorem openBar_grows (cfg : EventConfig F) (view : EventView F) (s : EventState F) :
    Portfolio.Grows view.bar s.portfolio (cfg.openBar view s).portfolio ∧
      (cfg.openBar view s).history = s.history ∧ (cfg.openBar view s).calls = s.calls := by
  have haccrued : Portfolio.Grows view.bar s.portfolio
      (s.portfolio.accrueBorrow view.prices cfg.costModel.borrowRateAnnual) :=
    ⟨⟨[], (List.append_nil _).symm, fun _ h => by cases h⟩, rfl⟩
  unfold EventConfig.openBar EventConfig.fillPending
  split
  · refine ⟨?_, rfl, rfl⟩
    exact foldl_induction (P := fun p => Portfolio.Grows view.bar s.portfolio p)
      (fun p order _ hp => hp.trans (fillOrder_grows cfg view s.history p order)) haccrued
  · exact ⟨haccrued, rfl, rfl⟩

/-- Two runs with the same past, which read histories of one length. -/
structure PastAlike (t : ℕ) (s s' : EventState F) : Prop where
  history : s.history.map List.length = s'.history.map List.length
  calls : s.calls = s'.calls
  trades : eventTradesUpTo t s.portfolio.tradeLog = eventTradesUpTo t s'.portfolio.tradeLog
  curve : s.portfolio.equityCurve.take (t + 2) = s'.portfolio.equityCurve.take (t + 2)
  long : t + 2 ≤ s.portfolio.equityCurve.length
  long' : t + 2 ≤ s'.portfolio.equityCurve.length

/-- A bar of two runs that have gone apart. -/
theorem eventBar_later (cfg : EventConfig F) {t : ℕ} {s s' : EventState F}
    (h : PastAlike t s s') {view view' : EventView F} (hview : ViewsAlike view view')
    (ht : t < view.bar) : Both (PastAlike t) (eventBar cfg s view) (eventBar cfg s' view') := by
  have ht' : t < view'.bar := hview.bar ▸ ht
  rcases openBar_grows cfg view s with ⟨hgrows, hhistory, hcalls⟩
  rcases openBar_grows cfg view' s' with ⟨hgrows', hhistory', hcalls'⟩
  unfold eventBar
  simp only
  generalize cfg.openBar view s = filled at *
  generalize cfg.openBar view' s' = filled' at *
  have hsame : filled.calls = filled'.calls := by rw [hcalls, hcalls', h.calls]
  have hrecorded : (cfg.tickers.foldl (EventConfig.record view) filled.history).map List.length =
      (cfg.tickers.foldl (EventConfig.record view') filled'.history).map List.length := by
    refine foldl_related (R := fun a b : History F => a.map List.length = b.map List.length)
      (fun a b ticker _ hab => record_alike hview hab ticker) ?_
    rw [hhistory, hhistory']
    exact h.history
  have hsignals : Both (fun _ _ => True)
      (cfg.signals view (cfg.tickers.foldl (EventConfig.record view) filled.history) filled.calls)
      (cfg.signals view' (cfg.tickers.foldl (EventConfig.record view') filled'.history)
        filled'.calls) := by
    rw [hsame]
    refine (Both.mapM (R := fun _ _ => True) fun entry _ => ?_).map fun _ _ _ => trivial
    exact onMarket_alike cfg.strategy hview hrecorded _ entry.1
  refine hsignals.map fun signals signals' _ => ⟨hrecorded, ?_, ?_, ?_, ?_, ?_⟩
  · rw [hsame]
  · exact (hgrows.past ht).trans (h.trades.trans (hgrows'.past ht').symm)
  · rw [Portfolio.updateEquity, Portfolio.updateEquity, hgrows.curve, hgrows'.curve,
      List.take_append_of_le_length h.long, List.take_append_of_le_length h.long', h.curve]
  · have hlong := h.long
    rw [Portfolio.updateEquity, hgrows.curve, List.length_append]
    omega
  · have hlong' := h.long'
    rw [Portfolio.updateEquity, hgrows'.curve, List.length_append]
    omega

/-- A bar adds one value to the curve. -/
theorem eventBar_length {cfg : EventConfig F} {s s' : EventState F} {view : EventView F}
    (h : eventBar cfg s view = .ok s') :
    s'.portfolio.equityCurve.length = s.portfolio.equityCurve.length + 1 := by
  rcases map_eq_ok_iff.mp h with ⟨signals, -, rfl⟩
  rw [Portfolio.updateEquity, (openBar_grows cfg view s).1.curve, List.length_append,
    List.length_singleton]

/-! ## Runs -/

/-- Every bar of a run adds one value to the curve. -/
theorem eventBars_length {cfg : EventConfig F} {view : ℕ → EventView F} {bars : List ℕ}
    {s s' : EventState F} (h : eventBars cfg view bars s = .ok s') :
    s'.portfolio.equityCurve.length = s.portfolio.equityCurve.length + bars.length := by
  induction bars generalizing s with
  | nil =>
    cases h
    rfl
  | cons bar rest ih =>
    rw [eventBars, List.foldlM_cons] at h
    rcases bind_eq_ok_iff.mp h with ⟨middle, hbar, hrest⟩
    rw [ih hrest, eventBar_length hbar, List.length_cons]
    omega

/-- Bars that are seen alike lead to the same state. -/
theorem eventBars_congr (cfg : EventConfig F) {view view' : ℕ → EventView F} (bars : List ℕ)
    (h : ∀ bar ∈ bars, view bar = view' bar) (s : EventState F) :
    eventBars cfg view bars s = eventBars cfg view' bars s := by
  apply Both.eq
  refine Both.foldlM (R := fun a b => a = b) (fun a b hab bar hbar => ?_) rfl
  rw [hab, h bar hbar]
  exact Both.refl (fun _ => rfl) _

/-- Two runs of the event simulator with the same past. -/
structure SameEventsUpTo (t : ℕ) (p p' : Portfolio F) : Prop where
  trades : eventTradesUpTo t p.tradeLog = eventTradesUpTo t p'.tradeLog
  /-- the curve starts with the initial capital, in front of the first bar -/
  curve : p.equityCurve.take (t + 2) = p'.equityCurve.take (t + 2)

/-- Runs whose views agree up to a bar have the same past. -/
theorem eventBars_past (cfg : EventConfig F) {view view' : ℕ → EventView F}
    (hbar : ∀ bar, (view bar).bar = bar) (halike : ∀ bar, ViewsAlike (view bar) (view' bar))
    {t : ℕ} (h : ∀ bar ≤ t, view bar = view' bar) (length : ℕ) :
    Both (fun s s' : EventState F => SameEventsUpTo t s.portfolio s'.portfolio)
      (eventBars cfg view (List.range length) (EventState.initial cfg))
      (eventBars cfg view' (List.range length) (EventState.initial cfg)) := by
  by_cases hend : length ≤ t + 1
  · -- the prices agree on all bars
    rw [eventBars_congr cfg (List.range length) fun bar hbar => h bar (by
      rw [List.mem_range] at hbar
      omega)]
    exact Both.refl (fun _ => ⟨rfl, rfl⟩) _
  · -- the bars up to `t`, and the bars behind it
    have hsplit : List.range length =
        List.range (t + 1) ++ (List.range (length - (t + 1))).map fun i => t + 1 + i := by
      rw [← List.range_add]
      congr 1
      omega
    have hrun : ∀ view : ℕ → EventView F,
        eventBars cfg view (List.range length) (EventState.initial cfg) =
          eventBars cfg view (List.range (t + 1)) (EventState.initial cfg) >>=
            eventBars cfg view ((List.range (length - (t + 1))).map fun i => t + 1 + i) := by
      intro view
      rw [hsplit, eventBars, List.foldlM_append]
      rfl
    rw [hrun view, hrun view', eventBars_congr cfg (List.range (t + 1)) fun bar hbar => h bar (by
        rw [List.mem_range] at hbar
        omega)]
    cases hfirst : eventBars cfg view' (List.range (t + 1)) (EventState.initial cfg) with
    | error e => exact rfl
    | ok s =>
      have hlong : t + 2 ≤ s.portfolio.equityCurve.length := by
        rw [eventBars_length hfirst, List.length_range]
        change t + 2 ≤ 1 + (t + 1)
        omega
      refine (Both.foldlM (R := PastAlike t) (fun a b hab bar hmem => ?_)
        (⟨rfl, rfl, rfl, rfl, hlong, hlong⟩ : PastAlike t s s)).mono
          fun a b hab => ⟨hab.trades, hab.curve⟩
      refine eventBar_later cfg hab (halike bar) ?_
      rcases List.mem_map.mp hmem with ⟨i, -, rfl⟩
      rw [hbar]
      omega

/-- The trades and the equity up to a bar depend on the bars up to it. -/
theorem runEventBacktest_past {t : ℕ} {data data' : Dict String (List F)}
    (h : SeriesAgree (t + 1) data data') (cfg : EventConfig F) :
    Both (SameEventsUpTo t) (runEventBacktest cfg data) (runEventBacktest cfg data') := by
  unfold runEventBacktest
  rw [commonLength_agree h cfg]
  cases commonLength cfg data' with
  | error e => exact rfl
  | ok length =>
    refine (prepare_agree h cfg).bind fun series series' hseries => ?_
    refine (eventBars_past cfg (fun _ => rfl) (fun bar => eventView_alike h hseries cfg bar)
      (fun bar hbar => eventView_agree h hseries cfg (Nat.lt_succ_of_le hbar)) length).bind ?_
    intro s s' hsame
    exact hsame

end Bars

/-! ## Both engines -/

/-- The trades executed up to a bar and the equity up to it depend on the bars up to it, in the
portfolio engine and in the event simulator. -/
theorem no_look_ahead (F : Type) [PyFloat F] (t : ℕ) :
    (∀ (features : Features F) (cfg : BacktestConfig F) (panel panel' : Panel F) (startBar : ℤ)
        (nBars : ℕ) (dates : Option (List String)), AgreeBefore (t + 1) panel panel' →
      Both (SameUpTo t (t + 1 - firstBar startBar cfg.execution.executionDelayBars.toNat))
        (runStrategy features cfg panel startBar nBars dates)
        (runStrategy features cfg panel' startBar nBars dates)) ∧
      ∀ (cfg : EventConfig F) (data data' : Dict String (List F)),
        SeriesAgree (t + 1) data data' →
        Both (SameEventsUpTo t) (runEventBacktest cfg data) (runEventBacktest cfg data') :=
  ⟨fun features cfg _ _ startBar nBars dates h =>
    runStrategy_past h features cfg startBar nBars dates,
    fun cfg _ _ h => runEventBacktest_past h cfg⟩

/-- The prices of one ticker. -/
def onePrice (last : ℚ) : Dict String (List Exact) :=
  Dict.empty.set "SPY" [some 100, some 110, some 121, some last]

/-- The panel of one ticker. -/
def onePanel (last : ℚ) : Panel Exact :=
  (onePrice last).map fun close => ⟨close, none⟩

/-- A momentum strategy without costs. -/
def momentumConfig : BacktestConfig Exact where
  assets := ["SPY"]
  initialCapital := some 1000
  strategy := ⟨.momentum, 20, 50, lit 0.15, lit (-0.15), 1, lit 0.05, lit (-0.02), 20, lit (-2),
    lit 0⟩
  execution := zeroCostConfig

/-- Bollinger bands over two bars. -/
def bandsConfig : EventConfig Exact where
  tickers := ["SPY"]
  strategy := .meanReversion 2 (lit 0.9)
  initialCapital := some 1000
  costModelName := "retail"
  allowShort := true
  sizer := .fixedFractional (lit 0.02)
  leverageLimit := none
  setOrder := List.dedup

/-- Two prices of the last bar, and the same runs in front of it. -/
theorem no_look_ahead_last_bar :
    onePrice 120 ≠ onePrice 80 ∧
      Both (SameUpTo 2 2)
        (runStrategy ⟨fun _ => lit 0, fun x => x⟩ momentumConfig (onePanel 120) 0 4 none)
        (runStrategy ⟨fun _ => lit 0, fun x => x⟩ momentumConfig (onePanel 80) 0 4 none) ∧
      Both (SameEventsUpTo 2) (runEventBacktest bandsConfig (onePrice 120))
        (runEventBacktest bandsConfig (onePrice 80)) := by
  have hpast : SamePast 3 ([some 100, some 110, some 121, some 120] : List Exact)
      [some 100, some 110, some 121, some 80] :=
    ⟨rfl, by decide⟩
  have hprices : SeriesAgree 3 (onePrice 120) (onePrice 80) :=
    (SeriesAgree.refl 3 Dict.empty).set "SPY" hpast
  have hpanels : AgreeBefore 3 (onePanel 120) (onePanel 80) := by
    refine ⟨rfl, fun ticker ad ad' had had' => ?_⟩
    rw [onePanel, Dict.get?_map] at had had'
    rcases hprices.cases ticker with ⟨hfirst, -⟩ | ⟨values, values', hfirst, hsecond, hvalues⟩
    · rw [hfirst] at had
      cases had
    · rw [hfirst] at had
      rw [hsecond] at had'
      cases had
      cases had'
      exact ⟨hvalues, trivial⟩
  refine ⟨?_, (no_look_ahead Exact 2).1 _ momentumConfig _ _ 0 4 none hpanels,
    (no_look_ahead Exact 2).2 bandsConfig _ _ hprices⟩
  intro h
  have hlast := congrArg (fun d : Dict String (List Exact) => (d.get? "SPY").map List.getLast?) h
  revert hlast
  decide

end QuantumSentinel.Backtest
