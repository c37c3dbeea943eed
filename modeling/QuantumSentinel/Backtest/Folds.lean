import Mathlib.Data.List.Nodup
import QuantumSentinel.Backtest.NoLookAhead
import QuantumSentinel.Backtest.WalkForward

/-!
# Backtests: the folds of a walk-forward run

The test windows of a run follow each other exactly when the step between them is not shorter than
they are, or when there is room for one of them only.  A request cannot set the step: it is one
year, and a test window of two or three years is counted in part a second time.

Main results:

- Theorem `foldsInOrder_iff`: when the test windows follow each other.
- Theorem `evaluate_bars`: every bar of a window gives one return.
- Theorem `runWalkForward_nodup`: windows that follow each other count no bar twice.
- Theorem `request_folds_iff`: the requests whose test windows are kept apart.
-/

namespace QuantumSentinel.Backtest

open Lib

variable {F : Type} [PyFloat F]

/-! ## Test windows -/

/-- The test windows follow each other, each behind its own training window and inside the data. -/
structure FoldsInOrder (folds : List Fold) (nBars : ℕ) : Prop where
  order : folds.Pairwise fun f g => f.testEnd ≤ g.testStart
  adjacent : ∀ f ∈ folds, f.testStart = f.trainEnd
  inside : ∀ f ∈ folds, f.testEnd ≤ nBars

namespace WalkForwardConfig

variable (cfg : WalkForwardConfig F)

/-- The bars of a test window. -/
def testBars : ℕ :=
  cfg.testYears * barsPerYear

/-- The bars in front of the first test window. -/
def trainBars : ℕ :=
  cfg.trainYears * barsPerYear

/-- The bars from one test window to the next. -/
def stepBars : ℕ :=
  cfg.stepYears * barsPerYear

/-- A fold whose test window starts at a bar or later. -/
structure PlacedFrom (nBars first : ℕ) (f : Fold) : Prop where
  from_first : first ≤ f.testStart
  adjacent : f.testStart = f.trainEnd
  before : f.trainStart ≤ f.trainEnd
  width : f.testEnd = f.testStart + cfg.testBars
  inside : f.testEnd ≤ nBars

omit [PyFloat F] in
theorem PlacedFrom.mono {nBars first first' : ℕ} {f : Fold} (h : cfg.PlacedFrom nBars first f)
    (hfirst : first' ≤ first) : cfg.PlacedFrom nBars first' f :=
  ⟨hfirst.trans h.from_first, h.adjacent, h.before, h.width, h.inside⟩

omit [PyFloat F] in
/-- The folds of a rolling window lie behind its start. -/
theorem placed_of_mem_rollingFolds (nBars index start : ℕ) :
    ∀ f ∈ cfg.rollingFolds nBars index start, cfg.PlacedFrom nBars (start + cfg.trainBars) f := by
  induction index, start using WalkForwardConfig.rollingFolds.induct cfg nBars with
  | case1 index start train test hfits ih =>
    intro f hf
    rw [rollingFolds, if_pos hfits] at hf
    rcases List.mem_cons.mp hf with rfl | hrest
    · have hinside : start + cfg.trainBars + cfg.testBars ≤ nBars := hfits
      exact ⟨le_rfl, rfl, Nat.le_add_right _ _, min_eq_left hinside, min_le_right _ _⟩
    · exact (ih f hrest).mono cfg (by omega)
  | case2 index start train test hfull =>
    intro f hf
    rw [rollingFolds, if_neg hfull] at hf
    cases hf

omit [PyFloat F] in
/-- The folds of an expanding window lie behind its first test bar. -/
theorem placed_of_mem_expandingFolds (nBars index testStart : ℕ) :
    ∀ f ∈ cfg.expandingFolds nBars index testStart, cfg.PlacedFrom nBars testStart f := by
  induction index, testStart using WalkForwardConfig.expandingFolds.induct cfg nBars with
  | case1 index testStart test hfits ih =>
    intro f hf
    rw [expandingFolds, if_pos hfits] at hf
    rcases List.mem_cons.mp hf with rfl | hrest
    · exact ⟨le_rfl, rfl, Nat.zero_le _, min_eq_left hfits, min_le_right _ _⟩
    · exact (ih f hrest).mono cfg (by omega)
  | case2 index testStart test hfull =>
    intro f hf
    rw [expandingFolds, if_neg hfull] at hf
    cases hf

omit [PyFloat F] in
/-- Where the folds of a panel lie. -/
theorem placed_of_mem {nBars : ℕ} {f : Fold} (hf : f ∈ cfg.foldsOf nBars) :
    cfg.PlacedFrom nBars cfg.trainBars f := by
  unfold foldsOf at hf
  split at hf
  · exact (cfg.placed_of_mem_rollingFolds nBars 0 0 f hf).mono cfg (Nat.le_add_left _ _)
  · exact cfg.placed_of_mem_expandingFolds nBars 0 _ f hf

end WalkForwardConfig

/-! ## The order of the test windows -/

/-- The bars of the test window of a fold. -/
def Fold.testWindow (f : Fold) : ℕ × ℕ :=
  (f.testStart, f.testEnd)

namespace WalkForwardConfig

variable (cfg : WalkForwardConfig F)

omit [PyFloat F] in
/-- Both kinds of windows are tested on the same bars. -/
theorem rollingFolds_testWindows (nBars index start : ℕ) :
    (cfg.rollingFolds nBars index start).map Fold.testWindow =
      (cfg.expandingFolds nBars index (start + cfg.trainBars)).map Fold.testWindow := by
  induction index, start using WalkForwardConfig.rollingFolds.induct cfg nBars with
  | case1 index start train test hfits ih =>
    have hnext : start + cfg.stepYears * barsPerYear + cfg.trainBars =
        start + cfg.trainBars + cfg.stepYears * barsPerYear := by omega
    have hfits' : start + cfg.trainBars + cfg.testYears * barsPerYear ≤ nBars := hfits
    rw [rollingFolds, if_pos hfits, expandingFolds, if_pos hfits', List.map_cons, List.map_cons,
      ih, hnext]
    rfl
  | case2 index start train test hfull =>
    have hfull' : ¬start + cfg.trainBars + cfg.testYears * barsPerYear ≤ nBars := hfull
    rw [rollingFolds, if_neg hfull, expandingFolds, if_neg hfull']

omit [PyFloat F] in
theorem foldsOf_testWindows (nBars : ℕ) :
    (cfg.foldsOf nBars).map Fold.testWindow =
      (cfg.expandingFolds nBars 0 cfg.trainBars).map Fold.testWindow := by
  unfold foldsOf
  split
  · rw [cfg.rollingFolds_testWindows nBars 0 0, Nat.zero_add]
  · rfl

omit [PyFloat F] in
/-- Test windows no longer than the step follow each other. -/
theorem pairwise_expandingFolds (h : cfg.testYears ≤ cfg.stepYears) (nBars index testStart : ℕ) :
    (cfg.expandingFolds nBars index testStart).Pairwise fun f g => f.testEnd ≤ g.testStart := by
  induction index, testStart using WalkForwardConfig.expandingFolds.induct cfg nBars with
  | case1 index testStart test hfits ih =>
    rw [expandingFolds, if_pos hfits]
    refine List.Pairwise.cons (fun g hg => ?_) ih
    have hplaced := (cfg.placed_of_mem_expandingFolds nBars _ _ g hg).from_first
    have hstep : cfg.testYears * barsPerYear ≤ cfg.stepYears * barsPerYear :=
      Nat.mul_le_mul_right _ h
    change min (testStart + cfg.testYears * barsPerYear) nBars ≤ g.testStart
    omega
  | case2 index testStart test hfull =>
    rw [expandingFolds, if_neg hfull]
    exact List.Pairwise.nil

omit [PyFloat F] in
/-- Without room for a second window there is at most one. -/
theorem expandingFolds_short {nBars testStart : ℕ}
    (h : nBars < testStart + cfg.stepBars + cfg.testBars) (index : ℕ) :
    (cfg.expandingFolds nBars index testStart).Pairwise fun f g => f.testEnd ≤ g.testStart := by
  have hfull : ¬testStart + cfg.stepYears * barsPerYear + cfg.testYears * barsPerYear ≤ nBars :=
    Nat.not_le.mpr h
  rw [expandingFolds]
  split
  · rw [expandingFolds, if_neg hfull]
    exact List.pairwise_singleton _ _
  · exact List.Pairwise.nil

omit [PyFloat F] in
/-- With room for a second window there are two. -/
theorem expandingFolds_two {nBars testStart : ℕ}
    (h : testStart + cfg.stepBars + cfg.testBars ≤ nBars) (index : ℕ) :
    ∃ f g rest, cfg.expandingFolds nBars index testStart = f :: g :: rest ∧
      f.testEnd = testStart + cfg.testBars ∧ g.testStart = testStart + cfg.stepBars := by
  have hsecond : testStart + cfg.stepYears * barsPerYear + cfg.testYears * barsPerYear ≤ nBars := h
  have hfirst : testStart + cfg.testYears * barsPerYear ≤ nBars := by omega
  rw [expandingFolds, if_pos hfirst, expandingFolds, if_pos hsecond]
  exact ⟨_, _, _, rfl, min_eq_left hfirst, rfl⟩

end WalkForwardConfig

omit [PyFloat F] in
/-- The test windows follow each other when the step is long enough, or when there is room for one
of them only. -/
theorem foldsInOrder_iff (cfg : WalkForwardConfig F) (nBars : ℕ) :
    FoldsInOrder (cfg.foldsOf nBars) nBars ↔ cfg.testYears ≤ cfg.stepYears ∨
      nBars < (cfg.trainYears + cfg.testYears + cfg.stepYears) * barsPerYear := by
  have hwindows : ∀ folds : List Fold, (folds.Pairwise fun f g => f.testEnd ≤ g.testStart) ↔
      (folds.map Fold.testWindow).Pairwise fun a b => a.2 ≤ b.1 := by
    intro folds
    rw [List.pairwise_map]
    rfl
  have horder : ((cfg.foldsOf nBars).Pairwise fun f g => f.testEnd ≤ g.testStart) ↔
      (cfg.expandingFolds nBars 0 cfg.trainBars).Pairwise fun f g => f.testEnd ≤ g.testStart := by
    rw [hwindows, hwindows, cfg.foldsOf_testWindows]
  have hbars : (cfg.trainYears + cfg.testYears + cfg.stepYears) * barsPerYear =
      cfg.trainBars + cfg.stepBars + cfg.testBars := by
    rw [WalkForwardConfig.trainBars, WalkForwardConfig.stepBars, WalkForwardConfig.testBars,
      Nat.add_mul, Nat.add_mul]
    omega
  rw [hbars]
  constructor
  · intro h
    by_contra hroom
    rw [not_or, Nat.not_le, Nat.not_lt] at hroom
    rcases cfg.expandingFolds_two hroom.2 0 with ⟨f, g, rest, hfolds, hend, hstart⟩
    have hpairs := horder.mp h.order
    rw [hfolds] at hpairs
    have hfirst := List.rel_of_pairwise_cons hpairs List.mem_cons_self
    rw [hend, hstart, WalkForwardConfig.testBars, WalkForwardConfig.stepBars] at hfirst
    have hlonger := Nat.mul_lt_mul_of_pos_right hroom.1 (show 0 < barsPerYear by decide)
    omega
  · intro h
    refine ⟨horder.mpr ?_, fun f hf => (cfg.placed_of_mem hf).adjacent,
      fun f hf => (cfg.placed_of_mem hf).inside⟩
    rcases h with hstep | hshort
    · exact cfg.pairwise_expandingFolds hstep nBars 0 _
    · exact cfg.expandingFolds_short hshort 0

/-! ## The bars of the returns -/

/-- Every bar of a run has a value on the curve. -/
theorem length_runStrategy {features : Features F} {cfg : BacktestConfig F} {panel : Panel F}
    {startBar : ℤ} {nBars delay : ℕ} {dates : Option (List String)} {res : StrategyResult F}
    (hdelay : engineDelay cfg = .ok delay)
    (h : runStrategy features cfg panel startBar nBars dates = .ok res) :
    res.equityCurveNet.length = nBars - firstBar startBar delay := by
  rw [runStrategy, hdelay] at h
  rcases bind_eq_ok_iff.mp h with ⟨delay', hdelay', hrest⟩
  cases hdelay'
  rcases bind_eq_ok_iff.mp hrest with ⟨signals, -, hrun⟩
  simp only at hrun
  split at hrun
  · cases hrun
  · cases hrun
    change (runBars _ _ _ _ _).equityNet.length = _
    rw [(length_runBars ..).1, List.length_range']
    exact Nat.zero_add _

/-- A curve of values gives one return less than it has points. -/
theorem length_equityReturns (first : F) (rest : List F) :
    (equityReturns (first :: rest)).length = rest.length := by
  rw [equityReturns, List.length_zipWith, List.length_cons, List.tail_cons]
  omega

/-- The returns of a run are those of its bars. -/
theorem windowMetrics_bars (res : StrategyResult F) {bars : List ℕ}
    (h : res.equityCurveNet.length = bars.length) :
    (windowMetrics res bars).returns.map BarReturn.bar = bars := by
  have hlength : (equityReturns (wfCapital :: res.equityCurveNet)).length = bars.length := by
    rw [length_equityReturns, h]
  change ((bars.zip _).map fun r => (⟨r.1, r.2⟩ : BarReturn F)).map BarReturn.bar = bars
  rw [List.map_map]
  exact List.map_fst_zip hlength.ge

omit [PyFloat F] in
theorem windowEnd_le (panel : Panel F) (assets : List String) (stop : ℕ) :
    WalkForwardConfig.windowEnd panel assets stop ≤ stop :=
  foldl_induction (P := fun n => n ≤ stop) (fun _ _ _ hn => (min_le_left _ _).trans hn) le_rfl

/-- Every bar of a window gives one return. -/
theorem evaluate_bars {cfg : WalkForwardConfig F} {features : Features F} {panel : Panel F}
    {assets : List String} {start stop : ℕ} {fast slow : ℤ} {m : WindowMetrics F}
    (h : cfg.evaluate features panel assets start stop fast slow = .ok m) :
    ∃ first last, start ≤ first ∧ last ≤ stop ∧
      m.returns.map BarReturn.bar = List.range' first (last - first) := by
  unfold WalkForwardConfig.evaluate at h
  simp only at h
  have hstop := windowEnd_le panel (assets.filter fun a => decide (a ∈ panel.keys)) stop
  generalize WalkForwardConfig.windowEnd panel
    (assets.filter fun a => decide (a ∈ panel.keys)) stop = last at h hstop
  split at h
  · cases h
    exact ⟨start, 0, le_rfl, Nat.zero_le _, by rw [Nat.zero_sub]; rfl⟩
  · rcases bind_eq_ok_iff.mp h with ⟨delay, hdelay, hrest⟩
    split at hrest
    · cases hrest
      exact ⟨start, 0, le_rfl, Nat.zero_le _, by rw [Nat.zero_sub]; rfl⟩
    · rcases map_eq_ok_iff.mp hrest with ⟨res, hres, rfl⟩
      have hlength := length_runStrategy hdelay hres
      refine ⟨_, last, ?_, hstop, windowMetrics_bars res (by rw [hlength, List.length_range'])⟩
      unfold firstBar
      omega

/-! ## Counting no bar twice -/

/-- The bars of the returns of a run. -/
def oosBars (results : List (FoldResult F)) : List ℕ :=
  (results.flatMap fun r => r.oos.returns).map BarReturn.bar

/-- The returns of a fold are those of its test window, once each. -/
theorem runFold_bars {cfg : WalkForwardConfig F} {features : Features F} {panel : Panel F}
    {assets : List String} {fold : Fold} {r : FoldResult F}
    (h : cfg.runFold features panel assets fold = .ok r) :
    r.fold = fold ∧ ∃ first last, fold.testStart ≤ first ∧ last ≤ fold.testEnd ∧
      r.oos.returns.map BarReturn.bar = List.range' first (last - first) := by
  rcases bind_eq_ok_iff.mp h with ⟨best, -, hbest⟩
  rcases bind_eq_ok_iff.mp hbest with ⟨oos, hoos, hrest⟩
  rcases bind_eq_ok_iff.mp hrest with ⟨train, -, hresult⟩
  cases hresult
  exact ⟨rfl, evaluate_bars hoos⟩

/-- Windows that follow each other count no bar twice. -/
theorem runWalkForward_nodup {cfg : WalkForwardConfig F} {nBars : ℕ}
    (horder : FoldsInOrder (cfg.foldsOf nBars) nBars) {features : Features F} {panel : Panel F}
    {assets : List String} {result : WalkForwardResult F}
    (h : cfg.runWalkForward features panel assets nBars = .ok result) :
    (oosBars result.folds).Nodup := by
  have hruns : ∃ results, (cfg.foldsOf nBars).mapM (cfg.runFold features panel assets) =
      .ok results ∧ results = result.folds := by
    unfold WalkForwardConfig.runWalkForward at h
    simp only at h
    split at h
    · cases h
    · rcases map_eq_ok_iff.mp h with ⟨results, hresults, rfl⟩
      exact ⟨results, hresults, rfl⟩
  rcases hruns with ⟨results, hresults, hsame⟩
  rw [← hsame]
  have hpairs := (mapM_eq_ok_iff.mp hresults).imp fun fold r hr => runFold_bars hr
  have hfolds : results.map FoldResult.fold = cfg.foldsOf nBars := by
    have heq : List.Forall₂ (fun (fold : Fold) (r : FoldResult F) => fold = r.fold)
        (cfg.foldsOf nBars) results := hpairs.imp fun fold r hr => hr.1.symm
    rw [← List.forall₂_eq_eq_eq, List.forall₂_map_left_iff]
    exact heq.flip.imp fun r fold hr => hr.symm
  have hplaced : ∀ r ∈ results, ∃ first last, r.fold.testStart ≤ first ∧ last ≤ r.fold.testEnd ∧
      r.oos.returns.map BarReturn.bar = List.range' first (last - first) := by
    intro r hr
    rcases exists_of_forall₂ hpairs hr with ⟨fold, -, rfl, hbars⟩
    exact hbars
  have horder' : results.Pairwise fun r s => r.fold.testEnd ≤ s.fold.testStart := by
    rw [← List.pairwise_map (f := FoldResult.fold) (R := fun f g => f.testEnd ≤ g.testStart),
      hfolds]
    exact horder.order
  rw [oosBars, List.map_flatMap, List.nodup_flatMap]
  constructor
  · intro r hr
    rcases hplaced r hr with ⟨first, last, -, -, hbars⟩
    rw [hbars]
    exact List.nodup_range'
  · refine horder'.imp_of_mem fun hr hs hrs => ?_
    rcases hplaced _ hr with ⟨first, last, hfirst, hlast, hbars⟩
    rcases hplaced _ hs with ⟨first', last', hfirst', hlast', hbars'⟩
    rw [Function.onFun, hbars, hbars']
    intro bar hbar hbar'
    rw [List.mem_range'_1] at hbar hbar'
    omega

/-! ## No leak between the windows -/

section Leaks

variable {n : ℕ} {panel panel' : Panel F}

omit [PyFloat F] in
theorem AgreeBefore.mono (h : AgreeBefore n panel panel') {m : ℕ} (hm : m ≤ n) :
    AgreeBefore m panel panel' := by
  refine ⟨h.keys, fun ticker ad ad' had had' => ?_⟩
  have hagree := h.assets ticker ad ad' had had'
  refine ⟨hagree.close.mono hm, ?_⟩
  have hvolume := hagree.volume
  cases hfirst : ad.volume with
  | none =>
    cases hsecond : ad'.volume with
    | none => trivial
    | some values' =>
      rw [hfirst, hsecond] at hvolume
      exact hvolume.elim
  | some values =>
    cases hsecond : ad'.volume with
    | none =>
      rw [hfirst, hsecond] at hvolume
      exact hvolume.elim
    | some values' =>
      rw [hfirst, hsecond] at hvolume
      exact SamePast.mono hvolume hm

omit [PyFloat F] in
/-- The end of a window depends on the lengths. -/
theorem windowEnd_agree (h : AgreeBefore n panel panel') (assets : List String) (stop : ℕ) :
    WalkForwardConfig.windowEnd panel assets stop =
      WalkForwardConfig.windowEnd panel' assets stop := by
  have hlengths : (fun a => (panel.get? a).map fun ad => ad.close.length) =
      fun a => (panel'.get? a).map fun ad => ad.close.length := by
    funext a
    rcases h.get? a with ⟨hfirst, hsecond⟩ | ⟨ad, ad', hfirst, hsecond, hagree⟩
    · rw [hfirst, hsecond]
    · rw [hfirst, hsecond, Option.map_some, Option.map_some, hagree.close.length]
  rw [WalkForwardConfig.windowEnd, WalkForwardConfig.windowEnd, hlengths]

/-- Evaluations of a window on two panels, reduced to their runs. -/
theorem evaluate_both {R : WindowMetrics F → WindowMetrics F → Prop}
    (h : AgreeBefore n panel panel') (cfg : WalkForwardConfig F) (features : Features F)
    (assets : List String) (start stop : ℕ) (fast slow : ℤ) (hempty : ∀ m, R m m)
    (hrun : ∀ (backtest : BacktestConfig F) (first : ℤ), ∀ last ≤ stop, ∀ bars,
      Both (fun res res' => R (windowMetrics res bars) (windowMetrics res' bars))
        (runStrategy features backtest panel first last none)
        (runStrategy features backtest panel' first last none)) :
    Both R (cfg.evaluate features panel assets start stop fast slow)
      (cfg.evaluate features panel' assets start stop fast slow) := by
  unfold WalkForwardConfig.evaluate
  simp only [← h.keys, ← windowEnd_agree h]
  split
  · exact hempty _
  · refine (Both.refl (R := fun a b => a = b) (fun _ => rfl) _).bind ?_
    rintro delay _ rfl
    split
    · exact hempty _
    · exact (hrun _ _ _ (windowEnd_le ..) _).map fun _ _ hres => hres

/-- A window depends on the bars before its end. -/
theorem evaluate_congr {stop : ℕ} (h : AgreeBefore stop panel panel') (cfg : WalkForwardConfig F)
    (features : Features F) (assets : List String) (start : ℕ) (fast slow : ℤ) :
    cfg.evaluate features panel assets start stop fast slow =
      cfg.evaluate features panel' assets start stop fast slow := by
  refine Both.eq (evaluate_both h cfg features assets start stop fast slow (fun _ => rfl) ?_)
  intro backtest first last hlast bars
  rw [runStrategy_congr (h.mono hlast)]
  cases runStrategy features backtest panel' first last none with
  | error e => exact rfl
  | ok res => exact rfl

/-- Whether a window can be evaluated depends on the lengths of the panel. -/
theorem evaluate_alike (h : AgreeBefore n panel panel') (cfg : WalkForwardConfig F)
    (features : Features F) (assets : List String) (start stop : ℕ) (fast slow : ℤ) :
    Both (fun _ _ => True) (cfg.evaluate features panel assets start stop fast slow)
      (cfg.evaluate features panel' assets start stop fast slow) :=
  evaluate_both h cfg features assets start stop fast slow (fun _ => trivial)
    fun _ _ _ _ _ => runStrategy_both h features fun _ _ _ _ _ _ _ _ => trivial

/-- The search of a fold depends on the bars before the end of its training window. -/
theorem select_congr {fold : Fold} (h : AgreeBefore fold.trainEnd panel panel')
    (cfg : WalkForwardConfig F) (features : Features F) (assets : List String) :
    cfg.select features panel assets fold = cfg.select features panel' assets fold := by
  have htrial : cfg.trial features panel assets fold = cfg.trial features panel' assets fold := by
    funext best windows
    rw [WalkForwardConfig.trial, WalkForwardConfig.trial, evaluate_congr h]
  rw [WalkForwardConfig.select, WalkForwardConfig.select, htrial]

/-- Two results of a fold with the same parameters and training figures. -/
structure SameTraining (r r' : FoldResult F) : Prop where
  fast : r.bestFastWindow = r'.bestFastWindow
  slow : r.bestSlowWindow = r'.bestSlowWindow
  train : r.train = r'.train

end Leaks

/-! ## Requests -/

/-- `WalkForwardRequest` -/
structure WalkForwardRequest where
  assets : List String
  windowType : WindowType
  trainYears : ℕ
  testYears : ℕ
  totalYears : ℕ
  fastWindow : ℕ
  slowWindow : ℕ
  optimizeParameters : Bool
  executionPreset : ExecutionPreset
  assets_length : 1 ≤ assets.length ∧ assets.length ≤ 5
  train_range : 1 ≤ trainYears ∧ trainYears ≤ 5
  test_range : 1 ≤ testYears ∧ testYears ≤ 3
  total_range : 3 ≤ totalYears ∧ totalYears ≤ 10
  fast_range : 2 ≤ fastWindow ∧ fastWindow ≤ 100
  slow_range : 5 ≤ slowWindow ∧ slowWindow ≤ 250

/-- The configuration of a request; its step is the default of one year. -/
def WalkForwardRequest.config (request : WalkForwardRequest) : WalkForwardConfig F where
  windowType := request.windowType
  trainYears := request.trainYears
  testYears := request.testYears
  stepYears := 1
  step_pos := Nat.one_pos
  strategy := ⟨.maCrossover, request.fastWindow, request.slowWindow, lit 0.15, lit (-0.15), 20,
    lit 0.05, lit (-0.02), 20, lit (-2), lit 0⟩
  execution := request.executionPreset.config
  fastWindowRange := [10, 15, 20, 25, 30]
  slowWindowRange := [40, 50, 60, 75, 100]
  optimizeParameters := request.optimizeParameters
  sizer := none

/-- The test windows of a request follow each other, and no run counts a bar twice, when they are
one year long, or when there is room for one of them only. -/
theorem request_folds_iff (F : Type) [PyFloat F] (request : WalkForwardRequest) (nBars : ℕ) :
    (FoldsInOrder ((request.config : WalkForwardConfig F).foldsOf nBars) nBars ∧
      ∀ (features : Features F) (panel : Panel F) (assets : List String)
        (result : WalkForwardResult F),
        request.config.runWalkForward features panel assets nBars = .ok result →
        (oosBars result.folds).Nodup) ↔
      request.testYears = 1 ∨
        nBars < (request.trainYears + request.testYears + 1) * barsPerYear := by
  have horder := foldsInOrder_iff (request.config : WalkForwardConfig F) nBars
  have htest := request.test_range.1
  have hstep : (request.config : WalkForwardConfig F).testYears ≤
      (request.config : WalkForwardConfig F).stepYears ↔ request.testYears = 1 := by
    change request.testYears ≤ 1 ↔ request.testYears = 1
    omega
  rw [hstep] at horder
  rw [← show _ ↔ request.testYears = 1 ∨
    nBars < (request.trainYears + request.testYears + 1) * barsPerYear from horder]
  constructor
  · intro h
    exact h.1
  · intro h
    exact ⟨h, fun features panel assets result hresult => runWalkForward_nodup h hresult⟩

/-- A request for test windows of two years. -/
def twoYearTests : WalkForwardRequest where
  assets := ["AAPL"]
  windowType := .rolling
  trainYears := 1
  testYears := 2
  totalYears := 5
  fastWindow := 20
  slowWindow := 50
  optimizeParameters := true
  executionPreset := .retail
  assets_length := by decide
  train_range := by decide
  test_range := by decide
  total_range := by decide
  fast_range := by decide
  slow_range := by decide

/-- The test windows of the request on five years of data. -/
theorem twoYearTests_folds : (twoYearTests.config : WalkForwardConfig Exact).foldsOf 1257 =
    [⟨0, 0, 252, 252, 756⟩, ⟨1, 252, 504, 504, 1008⟩] := by
  change WalkForwardConfig.rollingFolds _ 1257 0 0 = _
  rw [WalkForwardConfig.rollingFolds, if_pos (by decide), WalkForwardConfig.rollingFolds,
    if_pos (by decide), WalkForwardConfig.rollingFolds, if_neg (by decide)]
  simp [twoYearTests, WalkForwardRequest.config, barsPerYear]

/-- On five years of data its second test window starts a year before the first one ends. -/
theorem twoYearTests_overlap :
    (twoYearTests.config : WalkForwardConfig Exact).foldsOf 1257 =
        [⟨0, 0, 252, 252, 756⟩, ⟨1, 252, 504, 504, 1008⟩] ∧
      ¬FoldsInOrder ((twoYearTests.config : WalkForwardConfig Exact).foldsOf 1257) 1257 := by
  refine ⟨twoYearTests_folds, fun h => ?_⟩
  have horder := h.order
  rw [twoYearTests_folds] at horder
  exact absurd (List.rel_of_pairwise_cons horder List.mem_cons_self) (by decide)

/-! ## What a fold sees -/

/-- The parameters and the training figures of a fold depend on the bars before the end of its
training window, and its test figures on the bars before the end of its test window. -/
theorem fold_no_leak (F : Type) [PyFloat F] (cfg : WalkForwardConfig F) (features : Features F)
    (assets : List String) (nBars : ℕ) (fold : Fold) (hfold : fold ∈ cfg.foldsOf nBars)
    (panel panel' : Panel F) :
    (AgreeBefore fold.trainEnd panel panel' →
      Both SameTraining (cfg.runFold features panel assets fold)
        (cfg.runFold features panel' assets fold)) ∧
      (AgreeBefore fold.testEnd panel panel' →
        cfg.runFold features panel assets fold = cfg.runFold features panel' assets fold) := by
  constructor
  · intro h
    unfold WalkForwardConfig.runFold
    rw [select_congr h]
    refine (Both.refl (R := fun a b => a = b) (fun _ => rfl) _).bind ?_
    rintro best _ rfl
    refine (evaluate_alike h cfg features assets fold.testStart fold.testEnd best.fast
      best.slow).bind fun oos oos' _ => ?_
    rw [evaluate_congr h]
    refine (Both.refl (R := fun a b => a = b) (fun _ => rfl) _).bind ?_
    rintro train _ rfl
    exact ⟨rfl, rfl, rfl⟩
  · intro h
    have hplaced := cfg.placed_of_mem hfold
    have htrain : AgreeBefore fold.trainEnd panel panel' :=
      h.mono (by rw [← hplaced.adjacent, hplaced.width]; exact Nat.le_add_right _ _)
    simp only [WalkForwardConfig.runFold, select_congr htrain, evaluate_congr htrain,
      evaluate_congr h]

/-- A price that climbs from 100 to 130 and falls back, every 60 bars; the averages of the
strategy cross each time. -/
def wavePrice (bar : ℕ) : Exact :=
  some (130 - |(bar % 60 : ℕ) - (30 : ℚ)|)

/-- Some prices, and a last one behind them. -/
def lastPanel (early : List Exact) (last : ℚ) : Panel Exact :=
  Dict.empty.set "AAPL" ⟨early ++ [some last], none⟩

theorem lastPanel_agree (early : List Exact) (last last' : ℚ) :
    AgreeBefore early.length (lastPanel early last) (lastPanel early last') := by
  have hlast : SamePast 0 ([some last] : List Exact) [some last'] := SamePast.of_length rfl
  have hkeys : ∀ last, (lastPanel early last).keys = ["AAPL"] :=
    fun last => Dict.keys_set_of_notMem _ List.not_mem_nil
  refine ⟨(hkeys last).trans (hkeys last').symm, fun ticker ad ad' had had' => ?_⟩
  rw [lastPanel, Dict.get?_set] at had had'
  split at had
  · rename_i hticker
    rw [if_pos hticker] at had'
    cases had
    cases had'
    exact ⟨hlast.append early, trivial⟩
  · cases had

/-- Three years of the wave. -/
def wave : List Exact :=
  (List.range 756).map wavePrice

/-- A price behind the test window changes nothing. -/
theorem fold_no_leak_behind :
    Both SameTraining
        (twoYearTests.config.runFold ⟨fun _ => lit 0, fun x => x⟩ (lastPanel wave 120) ["AAPL"]
          ⟨0, 0, 252, 252, 756⟩)
        (twoYearTests.config.runFold ⟨fun _ => lit 0, fun x => x⟩ (lastPanel wave 80) ["AAPL"]
          ⟨0, 0, 252, 252, 756⟩) ∧
      twoYearTests.config.runFold ⟨fun _ => lit 0, fun x => x⟩ (lastPanel wave 120) ["AAPL"]
          ⟨0, 0, 252, 252, 756⟩ =
        twoYearTests.config.runFold ⟨fun _ => lit 0, fun x => x⟩ (lastPanel wave 80) ["AAPL"]
          ⟨0, 0, 252, 252, 756⟩ := by
  have hfold : (⟨0, 0, 252, 252, 756⟩ : Fold) ∈
      (twoYearTests.config : WalkForwardConfig Exact).foldsOf 1257 := by
    rw [twoYearTests_folds]
    exact List.mem_cons_self
  have hwave : wave.length = 756 := by rw [wave, List.length_map, List.length_range]
  have hagree : AgreeBefore 756 (lastPanel wave 120) (lastPanel wave 80) :=
    hwave ▸ lastPanel_agree wave 120 80
  -- the panels stay variables: nothing is to be evaluated
  generalize lastPanel wave 120 = panel at hagree ⊢
  generalize lastPanel wave 80 = panel' at hagree ⊢
  have hleak := fold_no_leak Exact twoYearTests.config ⟨fun _ => lit 0, fun x => x⟩ ["AAPL"]
    1257 ⟨0, 0, 252, 252, 756⟩ hfold panel panel'
  exact ⟨hleak.1 (hagree.mono (show 252 ≤ 756 by decide)), hleak.2 hagree⟩

end QuantumSentinel.Backtest
