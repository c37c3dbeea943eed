import Mathlib.Algebra.Order.Field.Basic
import Mathlib.Tactic.Positivity
import QuantumSentinel.Backtest.Numbers
import QuantumSentinel.Lib.Numerals
import QuantumSentinel.Lib.Series

/-!
# Strategies: the hedge ratio of a pair

`KalmanHedgeFilter` of `neutral_strategies.py`: a random walk for the hedge ratio, updated
with one observation of both prices after another.

Main results:

- Definition `KalmanHedgeFilter.fitPredictive`: the ratio in front of every observation.
- Theorem `KalmanHedgeFilter.fitPredictive_succ`: it depends on the observations in front of it.
- Definition `KalmanHedgeFilter.fitPredictive?`: the same on floats, where the square of a price
  raises an error when it overflows.
- Theorem `KalmanHedgeFilter.fitPredictive?_past_iff`: the ratios of floats.
-/

namespace QuantumSentinel.Strategies

open Lib

variable {F : Type*} [Field F] [LinearOrder F]

/-- `KalmanHedgeFilter` -/
structure KalmanHedgeFilter (F : Type*) where
  delta : F
  R : F
  beta : F
  P : F

namespace KalmanHedgeFilter

/-- `__init__` -/
def init (delta R : F) : KalmanHedgeFilter F where
  delta := delta
  R := R
  beta := 0
  P := 1

variable (kf : KalmanHedgeFilter F)

/-- `P_pred` -/
def pPred : F :=
  kf.P + kf.delta

/-- `innov_var` -/
def innovVar (x : F) : F :=
  x ^ 2 * kf.pPred + kf.R

/-- `K` -/
def gain (x : F) : F :=
  kf.pPred * x / max (kf.innovVar x) (1 / 10 ^ 12)

/-- `update` -/
def update (y x : F) : KalmanHedgeFilter F :=
  { kf with
    beta := kf.beta + kf.gain x * (y - kf.beta * x)
    P := (1 - kf.gain x * x) * kf.pPred }

/-- `fit` -/
def fit (ys xs : List F) : List F :=
  (foldSteps (fun kf obs => kf.update obs.1 obs.2) (ys.zip xs) kf).map fun step =>
    (step.1.update step.2.1 step.2.2).beta

/-- `fit_predictive` -/
def fitPredictive (ys xs : List F) : List F :=
  (foldSteps (fun kf obs => kf.update obs.1 obs.2) (ys.zip xs) kf).map fun step => step.1.beta

variable {kf} {ys xs ys' xs' : List F} {n : ℕ}

/-- The ratio in front of an observation depends on the earlier ones only. -/
theorem fitPredictive_succ (hy : SamePast n ys ys') (hx : SamePast n xs xs') :
    SamePast (n + 1) (kf.fitPredictive ys xs) (kf.fitPredictive ys' xs') := by
  have hsteps := (hy.zipWith hx Prod.mk).foldSteps_succ (fun kf obs => kf.update obs.1 obs.2) kf
  have hbetas := hsteps.map beta
  rwa [List.map_map, List.map_map, ← List.zip_eq_zipWith, ← List.zip_eq_zipWith] at hbetas

/-- Observations at which the second price is zero say nothing about the ratio. -/
theorem fitPredictive_zero (kf : KalmanHedgeFilter F) (ys : List F) :
    kf.fitPredictive ys (List.replicate ys.length 0) = List.replicate ys.length kf.beta := by
  induction ys generalizing kf with
  | nil => rfl
  | cons y rest ih =>
    have hbeta : (kf.update y 0).beta = kf.beta := by
      simp [update, gain]
    have hrest := ih (kf.update y 0)
    rw [hbeta] at hrest
    rw [List.length_cons, List.replicate_succ, List.replicate_succ]
    exact congrArg (kf.beta :: ·) hrest

/-! ## On floats -/

section Floats

open Backtest

variable {F : Type} [NpFloat F]

/-- `__init__` of floats -/
def initFloat (delta R : F) : KalmanHedgeFilter F where
  delta := delta
  R := R
  beta := lit 0
  P := lit 1

/-- `update` of floats -/
def update? (kf : KalmanHedgeFilter F) (y x : F) : Option (KalmanHedgeFilter F) :=
  let pPred := kf.P + kf.delta
  let innovation := y - kf.beta * x
  (NpFloat.square x).map fun xSquared =>
    let innovVar := xSquared * pPred + kf.R
    let gain := pPred * x / pyMax innovVar (lit 1e-12)
    { kf with
      beta := kf.beta + gain * innovation
      P := (lit 1 - gain * x) * pPred }

/-- `fit_predictive` of floats -/
def fitPredictive? (kf : KalmanHedgeFilter F) : List (F × F) → Option (List F)
  | [] => some []
  | obs :: rest =>
    (kf.update? obs.1 obs.2).bind fun next => (next.fitPredictive? rest).map (kf.beta :: ·)

/-- The square of a second price overflows. -/
def Overflows (observations : List (F × F)) : Prop :=
  ∃ obs ∈ observations, NpFloat.square obs.2 = none

instance (observations : List (F × F)) : Decidable (Overflows observations) :=
  inferInstanceAs (Decidable (∃ obs ∈ observations, NpFloat.square obs.2 = none))

theorem update?_eq_none_iff {kf : KalmanHedgeFilter F} {y x : F} :
    kf.update? y x = none ↔ NpFloat.square x = none :=
  Option.map_eq_none_iff

/-- An error of one observation is the error of the series. -/
theorem fitPredictive?_eq_none_iff (kf : KalmanHedgeFilter F) {observations : List (F × F)} :
    kf.fitPredictive? observations = none ↔ Overflows observations := by
  induction observations generalizing kf with
  | nil => simp [fitPredictive?, Overflows]
  | cons obs rest ih =>
    unfold Overflows
    rw [List.exists_mem_cons_iff, fitPredictive?]
    cases hupdate : kf.update? obs.1 obs.2 with
    | none => simp [update?_eq_none_iff.mp hupdate]
    | some next =>
      have hsquare : NpFloat.square obs.2 ≠ none := fun hnone => by
        rw [update?_eq_none_iff.mpr hnone] at hupdate
        cases hupdate
      rw [Option.bind_some, Option.map_eq_none_iff, ih, or_iff_right hsquare]
      rfl

/-- Without an error, the ratios are those in front of the steps. -/
theorem fitPredictive?_eq {kf : KalmanHedgeFilter F} {observations : List (F × F)} {betas : List F}
    (h : kf.fitPredictive? observations = some betas) :
    betas = (foldSteps (fun kf obs => (kf.update? obs.1 obs.2).getD kf) observations kf).map
      fun step => step.1.beta := by
  induction observations generalizing kf betas with
  | nil => exact (Option.some.inj h).symm
  | cons obs rest ih =>
    obtain ⟨next, hnext, hrest⟩ := Option.bind_eq_some_iff.mp h
    obtain ⟨later, hlater, rfl⟩ := Option.map_eq_some_iff.mp hrest
    rw [foldSteps, List.map_cons, hnext, Option.getD_some, ih hlater]

/-- The ratio in front of an observation of floats depends on the earlier ones only. -/
theorem fitPredictive?_past {kf : KalmanHedgeFilter F} {observations observations' : List (F × F)}
    (h : SamePast n observations observations') {betas betas' : List F}
    (hbetas : kf.fitPredictive? observations = some betas)
    (hbetas' : kf.fitPredictive? observations' = some betas') : SamePast n betas betas' := by
  have hsteps := h.foldSteps_succ (fun kf obs => (kf.update? obs.1 obs.2).getD kf) kf
  have hratios := (hsteps.mono (Nat.le_succ n)).map beta
  rw [List.map_map, List.map_map] at hratios
  rw [fitPredictive?_eq hbetas, fitPredictive?_eq hbetas']
  exact hratios

/-- Prior ratios on floats agree exactly when later prices do not decide whether there is an
error. -/
theorem fitPredictive?_past_iff {kf : KalmanHedgeFilter F}
    {observations observations' : List (F × F)} (h : SamePast n observations observations') :
    Option.Rel (SamePast n) (kf.fitPredictive? observations) (kf.fitPredictive? observations') ↔
      (Overflows observations ↔ Overflows observations') := by
  rw [← fitPredictive?_eq_none_iff kf, ← fitPredictive?_eq_none_iff kf]
  cases hbetas : kf.fitPredictive? observations with
  | none =>
    cases hbetas' : kf.fitPredictive? observations' with
    | none => exact iff_of_true .none Iff.rfl
    | some betas' => exact iff_of_false nofun (by simp)
  | some betas =>
    cases hbetas' : kf.fitPredictive? observations' with
    | none => exact iff_of_false nofun (by simp)
    | some betas' =>
      exact iff_of_true (.some (fitPredictive?_past h hbetas hbetas')) (by simp)

end Floats

end KalmanHedgeFilter

end QuantumSentinel.Strategies
