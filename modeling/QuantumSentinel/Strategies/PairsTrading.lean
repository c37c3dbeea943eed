import Mathlib.Algebra.Order.Field.Basic
import Mathlib.Data.List.ReduceOption
import Mathlib.Data.Option.NAry
import Mathlib.Tactic.FieldSimp
import Mathlib.Tactic.Linarith
import QuantumSentinel.Lib.RealFunctions
import QuantumSentinel.Strategies.KalmanHedge

/-!
# Strategies: pairs trading

`pairs_trading_signals` of `neutral_strategies.py`: the spread of a pair over a hedge ratio,
its score against a window of earlier spreads, a position that is entered and left by the score, and
the returns of the position.  `lstsq` is a parameter: the slope of a window, if there is one.  A
missing number is `none`.

Main results:

- Definition `PairsSetup.pairsTradingSignals`: the report.
- Theorem `PairsSetup.hedgeRatios_succ` and `PairsSetup.scales_succ`: the hedge ratio and
  the window of a bar depend on earlier bars only.
- Theorem `PairsSetup.noLookAhead_iff`: the position that is credited with a change of the
  spread depends on the bar at the end of the change whenever that bar has a score.

Current gaps:

- Arithmetic is exact, and reported numbers are not rounded.
- The cointegration test, which no signal depends on, is left out.
-/

namespace QuantumSentinel.Strategies

open Lib

variable {F : Type*} [Field F] [LinearOrder F]

/-! ## Positions -/

/-- A position in the spread. -/
inductive Position
  | flat
  | long
  | short
deriving DecidableEq

/-- The number that stands for a position. -/
def Position.value : Position → ℤ
  | flat => 0
  | long => 1
  | short => -1

/-- The parameters of `pairs_trading_signals`. -/
structure PairsSetup (F : Type*) where
  entryZ : F
  exitZ : F
  useKalman : Bool
  window : ℕ

/-- What `pairs_trading_signals` reports. -/
structure PairsReport (F : Type*) where
  signals : List ℤ
  zSpread : List (Option F)
  hedgeRatios : List (Option F)
  nTrades : ℕ
  strategySharpe : F

namespace PairsSetup

variable (p : PairsSetup F)

/-- The position after a score. -/
def trade (z : F) : Position → Position
  | .flat => if z < -p.entryZ then .long else if p.entryZ < z then .short else .flat
  | .long => if -p.exitZ < z then .flat else .long
  | .short => if z < p.exitZ then .flat else .short

/-- The position after a bar; without a score nothing happens. -/
def follow (position : Position) (z : Option F) : Position :=
  z.elim position fun z => p.trade z position

/-- The signals of some scores; a bar without a score has none. -/
def signalsOf (zs : List (Option F)) : List ℤ :=
  (foldSteps p.follow zs .flat).map fun step =>
    step.2.elim 0 fun z => (p.trade z step.1).value

/-- The position in front of a bar. -/
def positionBefore (zs : List (Option F)) (n : ℕ) : Position :=
  (zs.take n).foldl p.follow .flat

/-! ## Spreads and scores -/

variable (lstsq : List F → List F → Option F)

/-- `hedge_ratios` -/
def hedgeRatios (ys xs : List F) : List (Option F) :=
  if p.useKalman then
    ((KalmanHedgeFilter.init (1 / 10 ^ 4) (1 / 10 ^ 3)).fitPredictive ys xs).map some
  else
    rolling p.window none (fun obs => lstsq (obs.map Prod.snd) (obs.map Prod.fst)) (ys.zip xs)

/-- `spread` -/
def spread (ys xs : List F) : List (Option F) :=
  List.zipWith (fun h (obs : F × F) => h.map fun h => obs.1 - h * obs.2) (p.hedgeRatios lstsq ys xs)
    (ys.zip xs)

/-- `spread_returns` -/
def spreadReturns (spread : List (Option F)) : List (Option F) :=
  List.zipWith (Option.map₂ fun before now => (now - before) / max |before| (1 / 10 ^ 9)) spread
    spread.tail

variable [RealFunctions F]

/-- The mean and the standard deviation of a window of spreads, if they can score a spread. -/
def scaleOf (w : List (Option F)) : Option (F × F) :=
  (w.mapM id).bind fun values =>
    ((std? values).filter fun sd => 1 / 10 ^ 9 < sd).map fun sd => (mean values, sd)

/-- The windows in front of each spread. -/
def scales (ys xs : List F) : List (Option (F × F)) :=
  rolling p.window none scaleOf (p.spread lstsq ys xs)

/-- `z_spread` -/
def zSpread (ys xs : List F) : List (Option F) :=
  List.zipWith (Option.map₂ fun (scale : F × F) s => (s - scale.1) / scale.2)
    (p.scales lstsq ys xs) (p.spread lstsq ys xs)

/-- `signals` -/
def signals (ys xs : List F) : List ℤ :=
  p.signalsOf (p.zSpread lstsq ys xs)

/-- `signals[1:]`: the positions that are credited with the changes of the spread. -/
def credited (ys xs : List F) : List ℤ :=
  (p.signals lstsq ys xs).tail

/-- `strategy_returns` -/
def strategyReturns (ys xs : List F) : List (Option F) :=
  List.zipWith (fun (position : ℤ) r => r.map (position * ·)) (p.credited lstsq ys xs)
    (spreadReturns (p.spread lstsq ys xs))

/-- `strategy_sharpe` -/
def strategySharpe (ys xs : List F) : F :=
  let validR := (p.strategyReturns lstsq ys xs).reduceOption
  if 5 < validR.length ∧ 1 / 10 ^ 9 < std validR 1 then
    mean validR / std validR 1 * RealFunctions.sqrt 252
  else 0

/-- `pairs_trading_signals` -/
def pairsTradingSignals (ys xs : List F) : Except String (PairsReport F) :=
  if ys.length < p.window + 10 then .error "Insufficient data for pairs trading"
  else
    let signals := p.signals lstsq ys xs
    .ok
      { signals := signals
        zSpread := p.zSpread lstsq ys xs
        hedgeRatios := p.hedgeRatios lstsq ys xs
        nTrades := (signals.zip signals.tail).countP fun pair => pair.1 ≠ pair.2
        strategySharpe := p.strategySharpe lstsq ys xs }

/-! ## Two runs -/

section Past

variable {n : ℕ} {ys xs ys' xs' : List F}

omit [RealFunctions F] in
/-- The hedge ratio of a bar depends on earlier bars only. -/
theorem hedgeRatios_succ (hy : SamePast n ys ys') (hx : SamePast n xs xs') :
    SamePast (n + 1) (p.hedgeRatios lstsq ys xs) (p.hedgeRatios lstsq ys' xs') := by
  unfold hedgeRatios
  split
  · exact (KalmanHedgeFilter.fitPredictive_succ hy hx).map some
  · rw [List.zip_eq_zipWith, List.zip_eq_zipWith]
    exact (hy.zipWith hx Prod.mk).rolling_succ p.window none _

omit [RealFunctions F] in
theorem spread_past (hy : SamePast n ys ys') (hx : SamePast n xs xs') :
    SamePast n (p.spread lstsq ys xs) (p.spread lstsq ys' xs') := by
  unfold spread
  rw [List.zip_eq_zipWith, List.zip_eq_zipWith]
  exact ((p.hedgeRatios_succ lstsq hy hx).mono (Nat.le_succ n)).zipWith (hy.zipWith hx Prod.mk) _

/-- The window that scores a bar depends on earlier bars only. -/
theorem scales_succ (hy : SamePast n ys ys') (hx : SamePast n xs xs') :
    SamePast (n + 1) (p.scales lstsq ys xs) (p.scales lstsq ys' xs') :=
  (p.spread_past lstsq hy hx).rolling_succ p.window none scaleOf

theorem zSpread_past (hy : SamePast n ys ys') (hx : SamePast n xs xs') :
    SamePast n (p.zSpread lstsq ys xs) (p.zSpread lstsq ys' xs') :=
  ((p.scales_succ lstsq hy hx).mono (Nat.le_succ n)).zipWith (p.spread_past lstsq hy hx) _

end Past

/-! ## The credited position -/

/-- The position that is credited with the change of the spread behind a bar. -/
def creditedAt (report : Except String (PairsReport F)) (t : ℕ) : Option ℤ :=
  match report with
  | .error _ => none
  | .ok r => r.signals.tail[t]?

/-- The position credited with the change behind a bar does not depend on later bars. -/
def NoLookAhead (ys xs : List F) (t : ℕ) : Prop :=
  ∀ ys' xs', SamePast (t + 1) ys ys' → SamePast (t + 1) xs xs' →
    creditedAt (p.pairsTradingSignals lstsq ys' xs') t =
      creditedAt (p.pairsTradingSignals lstsq ys xs) t

/-- There is enough data, and a bar has a hedge ratio and a window that scores its spread. -/
def Scored (ys xs : List F) (t : ℕ) : Prop :=
  p.window + 10 ≤ ys.length ∧ (∃ scale, (p.scales lstsq ys xs)[t]? = some (some scale)) ∧
    ∃ h, (p.hedgeRatios lstsq ys xs)[t]? = some (some h)

section Credited

variable {p lstsq} {n : ℕ} {ys xs ys' xs' : List F}

omit [RealFunctions F] in
theorem getElem?_signalsOf (zs : List (Option F)) (n : ℕ) :
    (p.signalsOf zs)[n]? =
      zs[n]?.map fun z => z.elim 0 fun z => (p.trade z (p.positionBefore zs n)).value := by
  rw [signalsOf, List.getElem?_map, getElem?_foldSteps, Option.map_map]
  rfl

/-- The credited position is the signal of the bar at the end of the change. -/
theorem creditedAt_eq (ys xs : List F) (t : ℕ) :
    creditedAt (p.pairsTradingSignals lstsq ys xs) t =
      if ys.length < p.window + 10 then none else (p.signals lstsq ys xs)[t + 1]? := by
  unfold pairsTradingSignals
  split
  · rfl
  · exact List.getElem?_tail

/-- Scores in common until a bar, and the same score there, give the same signal there. -/
theorem signals_congr (hy : SamePast n ys ys') (hx : SamePast n xs xs')
    (hz : (p.zSpread lstsq ys xs)[n]? = (p.zSpread lstsq ys' xs')[n]?) :
    (p.signals lstsq ys xs)[n]? = (p.signals lstsq ys' xs')[n]? := by
  have htake := (p.zSpread_past lstsq hy hx).take_eq le_rfl
  rw [signals, signals, getElem?_signalsOf, getElem?_signalsOf, hz, positionBefore, positionBefore,
    htake]

theorem length_scales (ys xs : List F) :
    (p.scales lstsq ys xs).length = (p.spread lstsq ys xs).length :=
  length_rolling _ _ _ _

omit [RealFunctions F] in
theorem getElem?_spread (ys xs : List F) (n : ℕ) (hn : n < (p.spread lstsq ys xs).length) :
    ∃ h y x, (p.hedgeRatios lstsq ys xs)[n]? = some h ∧ ys[n]? = some y ∧ xs[n]? = some x ∧
      (p.spread lstsq ys xs)[n]? = some (h.map fun h => y - h * x) := by
  have hlength := hn
  rw [spread, List.length_zipWith, List.length_zip] at hlength
  have hh : n < (p.hedgeRatios lstsq ys xs).length := by omega
  have hy : n < ys.length := by omega
  have hx : n < xs.length := by omega
  refine ⟨(p.hedgeRatios lstsq ys xs)[n], ys[n], xs[n], List.getElem?_eq_getElem hh,
    List.getElem?_eq_getElem hy, List.getElem?_eq_getElem hx, ?_⟩
  rw [List.getElem?_eq_getElem hn]
  simp only [spread, List.getElem_zipWith, List.getElem_zip]

/-- A bar without a hedge ratio, or without a window that scores its spread, has no score. -/
theorem zSpread_of_not_scored (hlength : p.window + 10 ≤ ys.length)
    (h : ¬ p.Scored lstsq ys xs n) :
    (p.zSpread lstsq ys xs)[n]? = (p.spread lstsq ys xs)[n]?.map fun _ => none := by
  by_cases hn : n < (p.spread lstsq ys xs).length
  · have hscales : n < (p.scales lstsq ys xs).length := by rwa [length_scales]
    obtain ⟨hedge, y, x, hhedge, -, -, hspread⟩ := getElem?_spread ys xs n hn
    rw [zSpread, List.getElem?_zipWith, hspread, List.getElem?_eq_getElem hscales]
    cases hscale : (p.scales lstsq ys xs)[n] with
    | none => rfl
    | some scale =>
      cases hedge with
      | none => rfl
      | some ratio =>
        refine absurd ⟨hlength, ⟨scale, ?_⟩, ratio, hhedge⟩ h
        rw [List.getElem?_eq_getElem hscales, hscale]
  · rw [zSpread, List.getElem?_zipWith, List.getElem?_eq_none (not_lt.mp hn)]
    split
    · rename_i hnone
      cases hnone
    · rfl

/-- Whether a bar is scored depends on earlier bars only. -/
theorem scored_congr (hy : SamePast n ys ys') (hx : SamePast n xs xs') :
    p.Scored lstsq ys xs n ↔ p.Scored lstsq ys' xs' n := by
  rw [Scored, Scored, hy.length, (p.scales_succ lstsq hy hx).past n (Nat.lt_succ_self n),
    (p.hedgeRatios_succ lstsq hy hx).past n (Nat.lt_succ_self n)]

/-- The position credited with a change does not depend on the bar at its end, if that bar has no
score. -/
theorem noLookAhead_of_not_scored {t : ℕ} (h : ¬ p.Scored lstsq ys xs (t + 1)) :
    p.NoLookAhead lstsq ys xs t := by
  intro ys' xs' hy hx
  rw [creditedAt_eq, creditedAt_eq, ← hy.length]
  split
  · rfl
  · rename_i hlength
    refine (signals_congr hy hx ?_).symm
    have hspread := p.spread_past lstsq hy hx
    have hsome := getElem?_isSome_congr hspread.length (t + 1)
    rw [zSpread_of_not_scored (by omega) h,
      zSpread_of_not_scored (by rw [← hy.length]; omega) ((scored_congr hy hx).not.mp h)]
    cases hfirst : (p.spread lstsq ys xs)[t + 1]? with
    | none =>
      rw [hfirst] at hsome
      have hsecond := Option.isNone_iff_eq_none.mp (Option.isSome_eq_false_iff.mp hsome.symm)
      rw [hsecond]
    | some value =>
      rw [hfirst] at hsome
      obtain ⟨value', hsecond⟩ := Option.isSome_iff_exists.mp hsome.symm
      rw [hsecond]
      rfl

variable [IsStrictOrderedRing F]

omit [RealFunctions F] in
/-- Whatever the position, two scores lead to different positions. -/
theorem exists_trades (position : Position) :
    ∃ z z', (p.trade z position).value ≠ (p.trade z' position).value := by
  cases position with
  | flat =>
    refine ⟨-p.entryZ - 1, max p.entryZ (-p.entryZ) + 1, ?_⟩
    have hentry : p.entryZ < max p.entryZ (-p.entryZ) + 1 :=
      lt_of_le_of_lt (le_max_left _ _) (lt_add_one _)
    have hother : ¬ max p.entryZ (-p.entryZ) + 1 < -p.entryZ :=
      not_lt.mpr ((le_max_right _ _).trans (lt_add_one _).le)
    rw [trade, if_pos (sub_one_lt _), trade, if_neg hother, if_pos hentry]
    decide
  | long =>
    refine ⟨-p.exitZ + 1, -p.exitZ, ?_⟩
    rw [trade, if_pos (lt_add_one _), trade, if_neg (lt_irrefl _)]
    decide
  | short =>
    refine ⟨p.exitZ - 1, p.exitZ, ?_⟩
    rw [trade, if_pos (sub_one_lt _), trade, if_neg (lt_irrefl _)]
    decide

/-- A window that scores a spread has a standard deviation. -/
theorem scale_pos {w : List (Option F)} {scale : F × F} (h : scaleOf w = some scale) :
    0 < scale.2 := by
  obtain ⟨values, -, hvalues⟩ := Option.bind_eq_some_iff.mp h
  obtain ⟨sd, hsd, rfl⟩ := Option.map_eq_some_iff.mp hvalues
  have hlarge := (Option.filter_eq_some_iff.mp hsd).2
  exact lt_trans (by positivity) (of_decide_eq_true hlarge)

/-- The price at a scored bar can give that bar any score. -/
theorem exists_score (h : p.Scored lstsq ys xs n) (z : F) :
    ∃ ys', SamePast n ys ys' ∧ (p.zSpread lstsq ys' xs)[n]? = some (some z) := by
  obtain ⟨-, ⟨scale, hscale⟩, ratio, hratio⟩ := h
  have hn : n < (p.spread lstsq ys xs).length := by
    rw [← length_scales]
    exact (List.getElem?_eq_some_iff.mp hscale).1
  obtain ⟨hedge, y, x, hhedge, hy, hx, -⟩ := getElem?_spread ys xs n hn
  have hsd : 0 < scale.2 := by
    obtain ⟨t, -, ht⟩ := List.mem_map.mp (List.mem_of_getElem? hscale)
    split at ht
    · exact scale_pos ht
    · cases ht
  -- The price at which the spread is the score times the deviation away from the mean.
  let price := z * scale.2 + scale.1 + ratio * x
  have hset : SamePast n ys (ys.set n price) := SamePast.set ys le_rfl price
  have hxs : SamePast n xs xs := SamePast.refl n xs
  have hscale' := (p.scales_succ lstsq hset hxs).past n (Nat.lt_succ_self n)
  have hhedge' := (p.hedgeRatios_succ lstsq hset hxs).past n (Nat.lt_succ_self n)
  have hn' : n < (p.spread lstsq (ys.set n price) xs).length := by
    rwa [← (p.spread_past lstsq hset hxs).length]
  obtain ⟨hedge', y', x', hhedge'', hy', hx', hspread⟩ := getElem?_spread _ _ n hn'
  rw [← hhedge', hratio] at hhedge''
  rw [List.getElem?_set_self (List.getElem?_eq_some_iff.mp hy).1] at hy'
  rw [hx] at hx'
  obtain rfl := Option.some.inj hhedge''
  obtain rfl := Option.some.inj hy'
  obtain rfl := Option.some.inj hx'
  refine ⟨ys.set n price, hset, ?_⟩
  rw [zSpread, List.getElem?_zipWith, ← hscale', hscale, hspread]
  have hvalue : (price - ratio * x - scale.1) / scale.2 = z := by
    simp only [price, add_sub_cancel_right]
    exact mul_div_cancel_right₀ z hsd.ne'
  simp only [Option.map_some, Option.map₂_some_some, hvalue]

/-- The position credited with a change depends on the bar at its end, if that bar has a score. -/
theorem not_noLookAhead_of_scored {t : ℕ} (h : p.Scored lstsq ys xs (t + 1)) :
    ¬ p.NoLookAhead lstsq ys xs t := by
  intro hno
  have hxs : SamePast (t + 1) xs xs := SamePast.refl (t + 1) xs
  have hsignal : ∀ z, creditedAt (p.pairsTradingSignals lstsq ys xs) t =
      some (p.trade z (p.positionBefore (p.zSpread lstsq ys xs) (t + 1))).value := by
    intro z
    obtain ⟨ys', hys, hz⟩ := exists_score h z
    have htake := (p.zSpread_past lstsq hys hxs).take_eq le_rfl
    rw [← hno ys' xs hys hxs, creditedAt_eq, if_neg (by rw [← hys.length]; exact not_lt.mpr h.1),
      signals, getElem?_signalsOf, hz, positionBefore, positionBefore, htake]
    rfl
  obtain ⟨z, z', hne⟩ := p.exists_trades (p.positionBefore (p.zSpread lstsq ys xs) (t + 1))
  exact hne (Option.some.inj ((hsignal z).symm.trans (hsignal z')))

/-- The position credited with the change behind a bar is chosen without later bars exactly when the
bar at the end of the change has no score. -/
theorem noLookAhead_iff (ys xs : List F) (t : ℕ) :
    p.NoLookAhead lstsq ys xs t ↔ ¬ p.Scored lstsq ys xs (t + 1) :=
  ⟨fun h hscored => not_noLookAhead_of_scored hscored h, noLookAhead_of_not_scored⟩

end Credited

/-! ## A pair with a flat second leg -/

omit [RealFunctions F] in
theorem hedgeRatios_flat (hkalman : p.useKalman = true) (ys : List F) :
    p.hedgeRatios lstsq ys (List.replicate ys.length 0) = List.replicate ys.length (some 0) := by
  rw [hedgeRatios, if_pos hkalman, KalmanHedgeFilter.fitPredictive_zero, List.map_replicate]
  rfl

omit [RealFunctions F] in
/-- Over a second price of zero, the spread is the first price. -/
theorem spread_flat (hkalman : p.useKalman = true) (ys : List F) :
    p.spread lstsq ys (List.replicate ys.length 0) = ys.map some := by
  rw [spread, p.hedgeRatios_flat lstsq hkalman]
  induction ys with
  | nil => rfl
  | cons y rest ih =>
    rw [List.length_cons, List.replicate_succ, List.replicate_succ, List.zip_cons_cons,
      List.zipWith_cons_cons, ih, List.map_cons, Option.map_some, zero_mul, sub_zero]

/-- The default thresholds, with the Kalman filter and a window of two bars. -/
noncomputable def shortWindow : PairsSetup ℝ where
  entryZ := 2
  exitZ := 1 / 2
  useKalman := true
  window := 2

/-- Prices of the first leg; the second leg costs nothing. -/
def firstLeg : List ℝ :=
  [0, 1, 0, 0, 0, 0, 0, 0, 0, 0, 0, 0]

/-- The third bar is scored against the first two. -/
theorem scored_firstLeg (lstsq : List ℝ → List ℝ → Option ℝ) :
    shortWindow.Scored lstsq firstLeg (List.replicate firstLeg.length 0) 2 := by
  have hspread : shortWindow.spread lstsq firstLeg (List.replicate firstLeg.length 0) =
      firstLeg.map some := shortWindow.spread_flat lstsq rfl firstLeg
  have hvariance : variance [(0 : ℝ), 1] 1 = 1 / 2 := by
    norm_num [variance, mean]
  have hstd : 1 / 10 ^ 9 < std [(0 : ℝ), 1] 1 := by
    rw [std, hvariance]
    refine Real.lt_sqrt_of_sq_lt ?_
    norm_num
  refine ⟨by decide, ⟨(mean [(0 : ℝ), 1], std [(0 : ℝ), 1] 1), ?_⟩, 0, ?_⟩
  · have hscale : scaleOf [some (0 : ℝ), some 1] =
        some (mean [(0 : ℝ), 1], std [(0 : ℝ), 1] 1) := by
      have hstd? : std? [(0 : ℝ), 1] = some (std [(0 : ℝ), 1] 1) := rfl
      rw [scaleOf, show [some (0 : ℝ), some 1].mapM id = some [0, 1] from rfl, Option.bind_some,
        hstd?, Option.filter_some, if_pos (decide_eq_true hstd), Option.map_some]
    rw [scales, hspread, ← hscale]
    rfl
  · rw [shortWindow.hedgeRatios_flat lstsq rfl]
    rfl

/-- The second bar is not scored: the window in front of it is not full. -/
theorem not_scored_firstLeg (lstsq : List ℝ → List ℝ → Option ℝ) :
    ¬ shortWindow.Scored lstsq firstLeg (List.replicate firstLeg.length 0) 1 := by
  rintro ⟨-, ⟨scale, hscale⟩, -⟩
  have hnone : (shortWindow.scales lstsq firstLeg (List.replicate firstLeg.length 0))[1]? =
      some none := by
    rw [scales, shortWindow.spread_flat lstsq rfl]
    rfl
  rw [hnone] at hscale
  cases hscale

/-- The price of the second bar does not matter for the position credited with the change up to
it. -/
theorem noLookAhead_iff_firstLeg :
    shortWindow.NoLookAhead (fun _ _ => none) firstLeg (List.replicate firstLeg.length 0) 0 :=
  (noLookAhead_iff firstLeg (List.replicate firstLeg.length 0) 0).mpr (not_scored_firstLeg _)

/-- The price of the third bar decides the position that is credited with the change up to it. -/
theorem third_bar_credited :
    ¬ shortWindow.NoLookAhead (fun _ _ => none) firstLeg (List.replicate firstLeg.length 0) 1 :=
  not_noLookAhead_of_scored (scored_firstLeg _)

end PairsSetup

end QuantumSentinel.Strategies
