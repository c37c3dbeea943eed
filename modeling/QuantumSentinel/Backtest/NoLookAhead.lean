import Mathlib.Data.Option.Basic
import QuantumSentinel.Backtest.Engine

/-!
# Backtests: the portfolio engine does not look ahead

Two panels that agree on some bars are run side by side.  What the engine reads at one of these
bars is the same on both, so the states behind them are the same; later bars only add to the log
and to the curves.

Main results:

- Definition `AgreeBefore`: panels that agree before a bar.
- Theorem `viewAt_agree`: what is read at a bar depends on the bars up to it.
- Theorem `runStrategy_past`: the trades and the equity up to a bar.
- Theorem `runStrategy_congr`: the whole run, when the panels agree up to its end.
-/

namespace QuantumSentinel.Backtest

open Lib

variable {F : Type}

/-! ## Series by name -/

/-- Series of the same names and lengths that agree before a bar. -/
def SeriesAgree (n : ℕ) (series series' : Dict String (List F)) : Prop :=
  ∀ name, Option.Rel (SamePast n) (series.get? name) (series'.get? name)

section Series

variable {n : ℕ} {series series' : Dict String (List F)}

theorem SeriesAgree.refl (n : ℕ) (series : Dict String (List F)) :
    SeriesAgree n series series := by
  intro name
  cases series.get? name with
  | none => exact Option.Rel.none
  | some values => exact Option.Rel.some (SamePast.refl n values)

/-- Assignments in step keep the agreement. -/
theorem SeriesAgree.set (h : SeriesAgree n series series') (name : String)
    {values values' : List F} (hvalues : SamePast n values values') :
    SeriesAgree n (series.set name values) (series'.set name values') := by
  intro name'
  rw [Dict.get?_set, Dict.get?_set]
  split
  · exact Option.Rel.some hvalues
  · exact h name'

/-- A name has a series on both sides, or on neither. -/
theorem SeriesAgree.cases (h : SeriesAgree n series series') (name : String) :
    (series.get? name = none ∧ series'.get? name = none) ∨
      ∃ values values', series.get? name = some values ∧ series'.get? name = some values' ∧
        SamePast n values values' := by
  have hname := h name
  generalize series.get? name = a at hname
  generalize series'.get? name = b at hname
  cases hname with
  | none => exact Or.inl ⟨rfl, rfl⟩
  | some hvalues => exact Or.inr ⟨_, _, rfl, rfl, hvalues⟩

theorem SeriesAgree.getD (h : SeriesAgree n series series') (name : String) :
    SamePast n ((series.get? name).getD []) ((series'.get? name).getD []) := by
  rcases h.cases name with ⟨hfirst, hsecond⟩ | ⟨values, values', hfirst, hsecond, hvalues⟩
  · rw [hfirst, hsecond]
    exact SamePast.refl n _
  · rw [hfirst, hsecond]
    exact hvalues

/-- Series that are collected in step agree. -/
theorem seriesAgree_foldl {items items' : List (String × List F)}
    (h : List.Forall₂ (fun a b : String × List F => a.1 = b.1 ∧ SamePast n a.2 b.2) items items')
    (hd : SeriesAgree n series series') :
    SeriesAgree n (items.foldl (fun d item => d.set item.1 item.2) series)
      (items'.foldl (fun d item => d.set item.1 item.2) series') := by
  induction h generalizing series series' with
  | nil => exact hd
  | @cons a b _ _ hitem _ ih =>
    have hset := hd.set b.1 hitem.2
    rw [← hitem.1] at hset
    rw [List.foldl_cons, List.foldl_cons, ← hitem.1]
    exact ih hset

end Series

/-! ## Panels -/

/-- Volumes that agree before a bar, or are missing on both sides. -/
def VolumesAgree (n : ℕ) : Option (List F) → Option (List F) → Prop
  | some values, some values' => SamePast n values values'
  | none, none => True
  | _, _ => False

/-- The data of an asset that agree before a bar. -/
structure AssetData.AgreeBefore (n : ℕ) (ad ad' : AssetData F) : Prop where
  close : SamePast n ad.close ad'.close
  volume : VolumesAgree n ad.volume ad'.volume

/-- Panels of the same assets and lengths that agree before a bar. -/
structure AgreeBefore (n : ℕ) (panel panel' : Panel F) : Prop where
  keys : panel.keys = panel'.keys
  assets : ∀ ticker ad ad', panel.get? ticker = some ad → panel'.get? ticker = some ad' →
    ad.AgreeBefore n ad'

section Agree

variable {n : ℕ} {panel panel' : Panel F}

/-- An asset is in both panels, with data that agree, or in neither. -/
theorem AgreeBefore.get? (h : AgreeBefore n panel panel') (ticker : String) :
    (panel.get? ticker = none ∧ panel'.get? ticker = none) ∨
      ∃ ad ad', panel.get? ticker = some ad ∧ panel'.get? ticker = some ad' ∧
        ad.AgreeBefore n ad' := by
  cases hfirst : panel.get? ticker with
  | none =>
    left
    rw [Dict.get?_eq_none_iff, h.keys, ← Dict.get?_eq_none_iff] at hfirst
    exact ⟨rfl, hfirst⟩
  | some ad =>
    cases hsecond : panel'.get? ticker with
    | none =>
      rw [Dict.get?_eq_none_iff, ← h.keys, ← Dict.get?_eq_none_iff, hfirst] at hsecond
      cases hsecond
    | some ad' => exact Or.inr ⟨ad, ad', rfl, rfl, h.assets ticker ad ad' hfirst hsecond⟩

/-- The closes before a bar are the same. -/
theorem closeAt_agree (h : AgreeBefore n panel panel') {i : ℕ} (hi : i < n) :
    panel.closeAt i = panel'.closeAt i := by
  funext ticker
  rcases h.get? ticker with ⟨hfirst, hsecond⟩ | ⟨ad, ad', hfirst, hsecond, hagree⟩
  · rw [Panel.closeAt, Panel.closeAt, hfirst, hsecond]
  · rw [Panel.closeAt, Panel.closeAt, hfirst, hsecond, Option.bind_some, Option.bind_some,
      hagree.close.past i hi]

variable [PyFloat F]

/-- Liquidity is known at the decision bar. -/
theorem preTradeLiquidity_agree {ad ad' : AssetData F} (h : ad.AgreeBefore n ad')
    {decisionBar : ℕ} (hbar : decisionBar < n) :
    preTradeLiquidity ad decisionBar = preTradeLiquidity ad' decisionBar := by
  have hvolatility : tradeVolatility ad.close decisionBar =
      tradeVolatility ad'.close decisionBar := by
    rw [tradeVolatility, tradeVolatility, h.close.cut (Nat.succ_le_of_lt hbar)]
  have hvolume : tradeVolume ad.volume decisionBar = tradeVolume ad'.volume decisionBar := by
    have hagree := h.volume
    cases hfirst : ad.volume with
    | none =>
      cases hsecond : ad'.volume with
      | none => rfl
      | some values' =>
        rw [hfirst, hsecond] at hagree
        exact hagree.elim
    | some values =>
      cases hsecond : ad'.volume with
      | none =>
        rw [hfirst, hsecond] at hagree
        exact hagree.elim
      | some values' =>
        rw [hfirst, hsecond] at hagree
        have hvalues : SamePast n values values' := hagree
        simp only [tradeVolume, hvalues.cut (Nat.succ_le_of_lt hbar)]
  rw [preTradeLiquidity, preTradeLiquidity, hvolatility, hvolume]

/-! ## Signals -/

/-- The signals of an asset do not look ahead. -/
theorem assetSignals_agree (h : AgreeBefore n panel panel') (features : Features F)
    (cfg : BacktestConfig F) (start : ℤ) (nBars : ℕ) (ticker : String) :
    Both (fun a b : String × List F => a.1 = b.1 ∧ SamePast n a.2 b.2)
      (assetSignals features cfg panel start nBars ticker)
      (assetSignals features cfg panel' start nBars ticker) := by
  rcases h.get? ticker with ⟨hfirst, hsecond⟩ | ⟨ad, ad', hfirst, hsecond, hagree⟩
  · rw [assetSignals, assetSignals, hfirst, hsecond]
    exact rfl
  · simp only [assetSignals, hfirst, hsecond]
    refine ((signalSeries_samePast (hagree.close.take nBars) features cfg.strategy
      start).mapError Raised.shape).map ?_
    intro series series' hseries
    exact ⟨rfl, hseries⟩

/-- The signals of all assets do not look ahead. -/
theorem allSignals_agree (h : AgreeBefore n panel panel') (features : Features F)
    (cfg : BacktestConfig F) (start : ℤ) (nBars : ℕ) (assets : List String) :
    Both (SeriesAgree n) (allSignals features cfg panel start nBars assets)
      (allSignals features cfg panel' start nBars assets) := by
  refine (Both.mapM fun ticker _ => assetSignals_agree h features cfg start nBars ticker).map ?_
  intro series series' hseries
  exact seriesAgree_foldl hseries (SeriesAgree.refl n _)

/-- What is read at a bar depends on the bars up to it. -/
theorem viewAt_agree (h : AgreeBefore n panel panel') {signals signals' : Dict String (List F)}
    (hsignals : SeriesAgree n signals signals') (dates : Option (List String)) (delay : ℕ)
    {bar : ℕ} (hbar : bar < n) :
    viewAt panel signals dates delay bar = viewAt panel' signals' dates delay bar := by
  have hdecision : bar - delay < n := lt_of_le_of_lt (Nat.sub_le bar delay) hbar
  have hliquidity : ∀ ticker,
      (panel.get? ticker).map (fun ad => preTradeLiquidity ad (bar - delay)) =
        (panel'.get? ticker).map fun ad => preTradeLiquidity ad (bar - delay) := by
    intro ticker
    rcases h.get? ticker with ⟨hfirst, hsecond⟩ | ⟨ad, ad', hfirst, hsecond, hagree⟩
    · rw [hfirst, hsecond]
    · rw [hfirst, hsecond, Option.map_some, Option.map_some,
        preTradeLiquidity_agree hagree hdecision]
  simp only [viewAt, closeAt_agree h hbar, closeAt_agree h hdecision, hliquidity,
    (hsignals.getD _).getD hdecision]

/-! ## What later bars leave alone -/

/-- The log with more trades of one bar. -/
structure LogGrows (bar : ℕ) (s s' : EngineState F) : Prop where
  trades : ∃ more, s'.tradeLog = s.tradeLog ++ more ∧ ∀ trade ∈ more, trade.bar = bar
  net : s'.equityNet = s.equityNet
  gross : s'.equityGross = s.equityGross

namespace LogGrows

variable {bar : ℕ} {s s' s'' : EngineState F}

omit [PyFloat F] in
theorem refl (bar : ℕ) (s : EngineState F) : LogGrows bar s s :=
  ⟨⟨[], (List.append_nil _).symm, fun _ h => by cases h⟩, rfl, rfl⟩

omit [PyFloat F] in
theorem trans (h : LogGrows bar s s') (h' : LogGrows bar s' s'') : LogGrows bar s s'' := by
  rcases h.trades with ⟨more, hmore, hall⟩
  rcases h'.trades with ⟨more', hmore', hall'⟩
  refine ⟨⟨more ++ more', ?_, ?_⟩, h'.net.trans h.net, h'.gross.trans h.gross⟩
  · rw [hmore', hmore, List.append_assoc]
  · intro trade htrade
    rcases List.mem_append.mp htrade with hold | hnew
    · exact hall trade hold
    · exact hall' trade hnew

theorem settle (view : BarView F) (order : Order F) (fill : FillResult F) (s : EngineState F) :
    LogGrows view.bar s (s.settle view order fill) := by
  unfold EngineState.settle
  split
  · refine ⟨⟨_, rfl, ?_⟩, rfl, rfl⟩
    intro trade htrade
    rw [List.mem_singleton.mp htrade]
  · exact refl _ s

theorem trade (cfg : BacktestConfig F) (view : BarView F) (price : F) (order : Order F)
    (s : EngineState F) : LogGrows view.bar s (s.trade cfg view price order) :=
  settle view order _ s

theorem enter (cfg : BacktestConfig F) (view : BarView F) (equity : F) (nAssets : ℕ)
    (ticker : String) (signal price : F) (s : EngineState F) :
    LogGrows view.bar s (s.enter cfg view equity nAssets ticker signal price) := by
  have hcovered : LogGrows view.bar s (if PyFloat.lt (s.position ticker) (lit 0) then
      s.trade cfg view price ⟨ticker, .buy, PyFloat.abs (s.position ticker), signal⟩ else s) := by
    split
    · exact trade cfg view price _ s
    · exact refl _ s
  unfold EngineState.enter
  simp only
  split
  · exact hcovered.trans (trade cfg view price _ _)
  · exact hcovered

theorem leave (cfg : BacktestConfig F) (view : BarView F) (equity : F) (nAssets : ℕ)
    (ticker : String) (signal price : F) (s : EngineState F) :
    LogGrows view.bar s (s.leave cfg view equity nAssets ticker signal price) := by
  have hclosed := trade cfg view price
    ⟨ticker, .sell, PyFloat.abs (s.position ticker), signal⟩ s
  unfold EngineState.leave
  simp only
  split
  · split
    · exact hclosed.trans (trade cfg view price _ _)
    · exact hclosed
  · exact hclosed

theorem act (cfg : BacktestConfig F) (view : BarView F) (equity : F) (nAssets : ℕ)
    (item : String × F) (s : EngineState F) :
    LogGrows view.bar s (s.act cfg view equity nAssets item) := by
  unfold EngineState.act
  split
  · exact refl _ s
  · split
    · exact enter cfg view equity nAssets _ _ _ s
    · split
      · exact leave cfg view equity nAssets _ _ _ s
      · exact refl _ s

theorem borrow (cfg : BacktestConfig F) (view : BarView F) (item : String × F)
    (s : EngineState F) : LogGrows view.bar s (s.borrow cfg view item) := by
  unfold EngineState.borrow
  split
  · exact refl _ s
  · split
    · exact ⟨⟨[], (List.append_nil _).symm, fun _ h => by cases h⟩, rfl, rfl⟩
    · exact refl _ s

omit [PyFloat F] in
/-- Many steps that each add trades of one bar. -/
theorem foldl {α : Type} {f : EngineState F → α → EngineState F} (items : List α)
    (h : ∀ state item, LogGrows bar state (f state item)) (s : EngineState F) :
    LogGrows bar s (items.foldl f s) :=
  foldl_induction (P := fun state => LogGrows bar s state)
    (fun _ item _ hstate => hstate.trans (h _ item)) (refl bar s)

end LogGrows

/-- A bar adds its own trades and one value to each curve. -/
theorem runBar_grows (cfg : BacktestConfig F) (assets : List String) (s : EngineState F)
    (view : BarView F) : ∃ more value gross,
      (runBar cfg assets s view).tradeLog = s.tradeLog ++ more ∧
      (∀ trade ∈ more, trade.bar = view.bar) ∧
      (runBar cfg assets s view).equityNet = s.equityNet ++ [value] ∧
      (runBar cfg assets s view).equityGross = s.equityGross ++ [gross] := by
  have hgrows : LogGrows view.bar s (((s.exits (EngineState.signalled view assets) ++
      s.entries (EngineState.signalled view assets)).foldl (fun state item =>
        state.act cfg view (s.sizingEquity view) assets.length item) s)) :=
    LogGrows.foldl _ (fun state item => LogGrows.act cfg view _ _ item state) s
  generalize htraded : (s.exits (EngineState.signalled view assets) ++
      s.entries (EngineState.signalled view assets)).foldl (fun state item =>
        state.act cfg view (s.sizingEquity view) assets.length item) s = traded at hgrows
  have hborrowed := hgrows.trans (LogGrows.foldl traded.positions.items
    (fun state item => LogGrows.borrow cfg view item state) traded)
  generalize hborrow : traded.positions.items.foldl
    (fun state item => state.borrow cfg view item) traded = borrowed at hborrowed
  have hrun : runBar cfg assets s view = borrowed.mark view := by
    rw [← hborrow, ← htraded]
    rfl
  have hlog : (borrowed.mark view).tradeLog = borrowed.tradeLog := by
    simp only [EngineState.mark, EngineState.recordReturns]
    split
    · split
      · rfl
      · rfl
    · rfl
  obtain ⟨value, hvalue⟩ : ∃ value, (borrowed.mark view).equityNet =
      borrowed.equityNet ++ [value] := ⟨_, rfl⟩
  obtain ⟨gross, hgross⟩ : ∃ gross, (borrowed.mark view).equityGross =
      borrowed.equityGross ++ [gross] := ⟨_, rfl⟩
  rcases hborrowed.trades with ⟨more, hmore, hall⟩
  refine ⟨more, value, gross, ?_, hall, ?_, ?_⟩
  · rw [hrun, hlog, hmore]
  · rw [hrun, hvalue, hborrowed.net]
  · rw [hrun, hgross, hborrowed.gross]

/-! ## Runs -/

/-- Bars that are seen alike lead to the same state. -/
theorem runBars_congr (cfg : BacktestConfig F) (assets : List String) {view view' : ℕ → BarView F}
    (bars : List ℕ) (h : ∀ bar ∈ bars, view bar = view' bar) (s : EngineState F) :
    runBars cfg assets view bars s = runBars cfg assets view' bars s :=
  foldl_congr_mem (fun state bar hbar => by rw [h bar hbar]) s

/-- Every bar adds a value to both curves. -/
theorem length_runBars (cfg : BacktestConfig F) (assets : List String) (view : ℕ → BarView F)
    (bars : List ℕ) (s : EngineState F) :
    (runBars cfg assets view bars s).equityNet.length = s.equityNet.length + bars.length ∧
      (runBars cfg assets view bars s).equityGross.length =
        s.equityGross.length + bars.length := by
  induction bars generalizing s with
  | nil => exact ⟨rfl, rfl⟩
  | cons bar rest ih =>
    rcases runBar_grows cfg assets s (view bar) with ⟨-, value, gross, -, -, hnet, hgross⟩
    rcases ih (runBar cfg assets s (view bar)) with ⟨hrestNet, hrestGross⟩
    rw [hnet, List.length_append, List.length_singleton] at hrestNet
    rw [hgross, List.length_append, List.length_singleton] at hrestGross
    rw [runBars, List.foldl_cons, List.length_cons]
    exact ⟨hrestNet.trans (by omega), hrestGross.trans (by omega)⟩

/-- The trades up to a bar. -/
def tradesUpTo (t : ℕ) (log : List (TradeRecord F)) : List (TradeRecord F) :=
  log.filter fun trade => decide (trade.bar ≤ t)

/-- Later bars leave the past of a run alone. -/
theorem runBars_later (cfg : BacktestConfig F) (assets : List String) {view : ℕ → BarView F}
    (hview : ∀ bar, (view bar).bar = bar) {t : ℕ} {bars : List ℕ} (h : ∀ bar ∈ bars, t < bar)
    (s : EngineState F) (count : ℕ) (hnet : count ≤ s.equityNet.length)
    (hgross : count ≤ s.equityGross.length) :
    tradesUpTo t (runBars cfg assets view bars s).tradeLog = tradesUpTo t s.tradeLog ∧
      (runBars cfg assets view bars s).equityNet.take count = s.equityNet.take count ∧
      (runBars cfg assets view bars s).equityGross.take count = s.equityGross.take count := by
  induction bars generalizing s with
  | nil => exact ⟨rfl, rfl, rfl⟩
  | cons bar rest ih =>
    rcases runBar_grows cfg assets s (view bar) with
      ⟨more, value, gross, hlog, hmore, hnetBar, hgrossBar⟩
    have hlate : tradesUpTo t more = [] := by
      refine List.filter_eq_nil_iff.mpr fun trade htrade => ?_
      have hbar : trade.bar = bar := (hmore trade htrade).trans (hview bar)
      have hlater := h bar List.mem_cons_self
      rw [decide_eq_true_eq, hbar]
      omega
    have hstep := ih (fun bar' hbar' => h bar' (List.mem_cons_of_mem _ hbar'))
      (runBar cfg assets s (view bar))
      (by rw [hnetBar, List.length_append]; omega) (by rw [hgrossBar, List.length_append]; omega)
    rw [runBars, List.foldl_cons]
    rw [hlog, hnetBar, hgrossBar, List.take_append_of_le_length hnet,
      List.take_append_of_le_length hgross] at hstep
    have htrades : tradesUpTo t (s.tradeLog ++ more) = tradesUpTo t s.tradeLog := by
      rw [tradesUpTo, List.filter_append]
      change tradesUpTo t s.tradeLog ++ tradesUpTo t more = _
      rw [hlate, List.append_nil]
    rw [htrades] at hstep
    exact hstep

/-- Two runs with the same trades up to a bar and the same front of their equity curves. -/
structure SameUpTo (t count : ℕ) (r r' : StrategyResult F) : Prop where
  trades : tradesUpTo t r.tradeLog = tradesUpTo t r'.tradeLog
  net : r.equityCurveNet.take count = r'.equityCurveNet.take count
  gross : r.equityCurveGross.take count = r'.equityCurveGross.take count

/-- Runs whose views agree up to a bar are the same up to it. -/
theorem runBars_past (cfg : BacktestConfig F) (assets : List String) {view view' : ℕ → BarView F}
    (hview : ∀ bar, (view bar).bar = bar) (hview' : ∀ bar, (view' bar).bar = bar) {t : ℕ}
    (h : ∀ bar ≤ t, view bar = view' bar) (first nBars : ℕ) :
    SameUpTo t (t + 1 - first)
      ((runBars cfg assets view (List.range' first (nBars - first))
        (EngineState.initial cfg.initialCapital)).result cfg)
      ((runBars cfg assets view' (List.range' first (nBars - first))
        (EngineState.initial cfg.initialCapital)).result cfg) := by
  by_cases hend : nBars ≤ t + 1
  · -- the panels agree on all bars of the run
    have hsame := runBars_congr cfg assets (List.range' first (nBars - first)) (fun bar hbar => h bar (by
        rw [List.mem_range'_1] at hbar
        omega)) (EngineState.initial cfg.initialCapital)
    rw [hsame]
    exact ⟨rfl, rfl, rfl⟩
  · -- the bars up to `t`, and the bars behind it
    have hsplit : List.range' first (nBars - first) =
        List.range' first (t + 1 - first) ++
          List.range' (first + (t + 1 - first)) (nBars - first - (t + 1 - first)) := by
      rw [List.range'_append_1]
      congr 1
      omega
    have hearly := runBars_congr cfg assets (List.range' first (t + 1 - first)) (fun bar hbar => h bar (by
        rw [List.mem_range'_1] at hbar
        omega)) (EngineState.initial cfg.initialCapital)
    have hlate : ∀ bar ∈ List.range' (first + (t + 1 - first)) (nBars - first - (t + 1 - first)),
        t < bar := by
      intro bar hbar
      rw [List.mem_range'_1] at hbar
      omega
    rcases length_runBars cfg assets view' (List.range' first (t + 1 - first))
      (EngineState.initial cfg.initialCapital) with ⟨hnet, hgross⟩
    rw [List.length_range'] at hnet hgross
    have hrun : ∀ view : ℕ → BarView F, runBars cfg assets view
        (List.range' first (nBars - first)) (EngineState.initial cfg.initialCapital) =
          runBars cfg assets view
            (List.range' (first + (t + 1 - first)) (nBars - first - (t + 1 - first)))
            (runBars cfg assets view (List.range' first (t + 1 - first))
              (EngineState.initial cfg.initialCapital)) := by
      intro view
      rw [hsplit, runBars, List.foldl_append]
      rfl
    rw [hrun view, hrun view', hearly]
    have hfirst := runBars_later cfg assets hview hlate (runBars cfg assets view'
      (List.range' first (t + 1 - first)) (EngineState.initial cfg.initialCapital))
      (t + 1 - first) (by omega) (by omega)
    have hsecond := runBars_later cfg assets hview' hlate (runBars cfg assets view'
      (List.range' first (t + 1 - first)) (EngineState.initial cfg.initialCapital))
      (t + 1 - first) (by omega) (by omega)
    exact ⟨hfirst.1.trans hsecond.1.symm, hfirst.2.1.trans hsecond.2.1.symm,
      hfirst.2.2.trans hsecond.2.2.symm⟩

/-- Runs on panels that agree before a bar, reduced to their views. -/
theorem runStrategy_both {R : StrategyResult F → StrategyResult F → Prop} {cfg : BacktestConfig F}
    {startBar : ℤ} {nBars : ℕ} {dates : Option (List String)} (h : AgreeBefore n panel panel')
    (features : Features F)
    (hruns : ∀ delay assets, engineDelay cfg = .ok delay → ∀ view view' : ℕ → BarView F,
      (∀ bar, (view bar).bar = bar) → (∀ bar, (view' bar).bar = bar) →
      (∀ bar < n, view bar = view' bar) →
      R ((runBars cfg assets view
          (List.range' (firstBar startBar delay) (nBars - firstBar startBar delay))
          (EngineState.initial cfg.initialCapital)).result cfg)
        ((runBars cfg assets view'
          (List.range' (firstBar startBar delay) (nBars - firstBar startBar delay))
          (EngineState.initial cfg.initialCapital)).result cfg)) :
    Both R (runStrategy features cfg panel startBar nBars dates)
      (runStrategy features cfg panel' startBar nBars dates) := by
  unfold runStrategy
  cases hdelay : engineDelay cfg with
  | error e => exact rfl
  | ok delay =>
    simp only [← h.keys]
    refine (allSignals_agree h features cfg _ nBars _).bind ?_
    intro signals signals' hsignals
    split
    · exact rfl
    · exact hruns delay _ hdelay _ _ (fun _ => rfl) (fun _ => rfl)
        fun bar hbar => viewAt_agree h hsignals dates delay hbar

/-- The trades and the equity up to a bar depend on the bars up to it. -/
theorem runStrategy_past {t : ℕ} (h : AgreeBefore (t + 1) panel panel') (features : Features F)
    (cfg : BacktestConfig F) (startBar : ℤ) (nBars : ℕ) (dates : Option (List String)) :
    Both (SameUpTo t (t + 1 - firstBar startBar cfg.execution.executionDelayBars.toNat))
      (runStrategy features cfg panel startBar nBars dates)
      (runStrategy features cfg panel' startBar nBars dates) := by
  apply runStrategy_both h features
  intro delay assets hdelay view view' hview hview' hviews
  have hvalue : cfg.execution.executionDelayBars.toNat = delay := by
    unfold engineDelay at hdelay
    split at hdelay
    · cases hdelay
    · cases hdelay
      rfl
  rw [hvalue]
  exact runBars_past cfg assets hview hview' (fun bar hbar => hviews bar (Nat.lt_succ_of_le hbar))
    _ _

/-- A run depends on the bars before its end. -/
theorem runStrategy_congr {nBars : ℕ} (h : AgreeBefore nBars panel panel') (features : Features F)
    (cfg : BacktestConfig F) (startBar : ℤ) (dates : Option (List String)) :
    runStrategy features cfg panel startBar nBars dates =
      runStrategy features cfg panel' startBar nBars dates := by
  apply Both.eq
  apply runStrategy_both h features
  intro delay assets _ view view' _ _ hviews
  rw [runBars_congr cfg assets _ fun bar hbar => hviews bar (by
    rw [List.mem_range'_1] at hbar
    omega)]

end Agree

end QuantumSentinel.Backtest
