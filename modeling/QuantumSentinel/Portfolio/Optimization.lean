import QuantumSentinel.Lib.Outcomes
import QuantumSentinel.Portfolio.Optimisers

/-!
# Portfolios: all optimisers on one matrix of returns

`run_portfolio_optimization` of `portfolio_optimization.py`: the covariance is estimated and
regularised, every optimiser is run on it, and an optimiser that fails is replaced by equal weights.
Signals are turned into weights by their positive parts.  The estimators of the covariance, its least
eigenvalue and the pseudoinverse are parameters.

Main results:

- Definition `runPortfolioOptimization`: the weights of all methods, and the refusals.
- Theorem `portfolios_respect_iff`: all weights respect the constraints for the box of all
  weights, and for another box when no closed form and no shares of signals are taken; for every other
  box some signals, and some pseudoinverse, leave it.

Current gaps:

- Arithmetic is exact.
- The analytics of the portfolios and the efficient frontier are left out.
-/

namespace QuantumSentinel.Portfolio

open Lib

variable {F : Type*} [Field F] [LinearOrder F] [RealFunctions F] {N : ℕ}

/-- The keys of the portfolios. -/
inductive Method
  | equalWeight
  | minVariance
  | riskParity
  | maxSharpe
  | maxDiversification
  | turnoverAware
  | sbaSignal
deriving DecidableEq

/-- What the linear algebra computes. -/
structure Numerics (F : Type*) (N : ℕ) where
  covariance : String → List (Weights F N) → SquareMatrix F N
  minEigenvalue : SquareMatrix F N → F
  pinv : SquareMatrix F N → Option (SquareMatrix F N)

/-- The arguments of `run_portfolio_optimization`. -/
structure Request (F : Type*) (N : ℕ) where
  returns : List (Weights F N)
  corrMethod : String
  rfRate : F
  constraints : Option (PortfolioConstraints F)
  sbaSignals : Option (List F)
  previousWeights : Option (List F)
  turnoverPenalty : F
  riskAversion : F

/-- The weights of the methods, and the texts of those that failed. -/
structure Optimization (F : Type*) (N : ℕ) where
  portfolios : List (Method × Weights F N)
  errors : List (Method × String)

namespace Request

variable (req : Request F N) (num : Numerics F N)

/-- `constraints or PortfolioConstraints()` -/
def con : PortfolioConstraints F :=
  req.constraints.getD ⟨true, 0, 1⟩

/-- `exp_ret` -/
def expRet : Weights F N :=
  fun i => mean (req.returns.map fun row => row i)

/-- `cov`, with a small diagonal added when it is not definite enough. -/
def cov : SquareMatrix F N :=
  let estimate := num.covariance req.corrMethod req.returns
  let minEig := num.minEigenvalue estimate
  if minEig < 1 / 10 ^ 8 then
    fun i j => estimate i j + if i = j then |minEig| + 1 / 10 ^ 6 else 0
  else estimate

/-- The weights of one of the five methods that are always run. -/
def optimise : Method → Except String (Weights F N)
  | .equalWeight => equalWeight req.con N
  | .minVariance => minimumVariance req.con num.pinv (req.cov num) 500 (1 / 100)
  | .maxSharpe => maximumSharpe req.con num.pinv req.expRet (req.cov num) req.rfRate 500
  | .riskParity => riskParity req.con (req.cov num) 1000 (1 / 10 ^ 8)
  | .maxDiversification => maximumDiversification req.con (req.cov num) 500
  | _ => equalWeight req.con N

/-- The methods that are always run. -/
def always : List Method :=
  [.equalWeight, .minVariance, .riskParity, .maxSharpe, .maxDiversification]

/-- A method; when it fails, its text is kept and equal weights take its place. -/
def attempt (m : Method) : Except String (Optimization F N) :=
  match req.optimise num m with
  | .ok w => .ok ⟨[(m, w)], []⟩
  | .error text => do
      let w ← equalWeight req.con N
      .ok ⟨[(m, w)], [(m, text)]⟩

/-- The turnover-aware method, when there are previous weights. -/
def turnoverAware : Optimization F N :=
  match req.previousWeights with
  | none => ⟨[], []⟩
  | some previous =>
    match turnoverAwareMeanVariance req.con req.expRet (req.cov num) previous req.riskAversion
        req.turnoverPenalty 800 (1 / 50) with
    | .ok w => ⟨[(.turnoverAware, w)], []⟩
    | .error text => ⟨[], [(.turnoverAware, text)]⟩

/-- `np.maximum(sba_signals, 0)` -/
def positiveSignals (signals : List F) : Weights F N :=
  fun i => max (signals.getD i 0) 0

/-- The shares of the positive signals, or equal weights when there are none. -/
def sbaWeights (signals : List F) : Except String (Weights F N) :=
  let sbaW : Weights F N := positiveSignals signals
  if 1 / 10 ^ 9 < ∑ i, sbaW i then .ok (normalised sbaW) else equalWeight req.con N

/-- The portfolio of the signals, when there is one for each asset. -/
def sbaSignal : Except String (Optimization F N) :=
  match req.sbaSignals with
  | none => .ok ⟨[], []⟩
  | some signals =>
    if signals.length = N then do
      let w ← req.sbaWeights signals
      .ok ⟨[(.sbaSignal, w)], []⟩
    else .ok ⟨[], []⟩

end Request

/-- The portfolios and errors of several runs. -/
def Optimization.concat (runs : List (Optimization F N)) : Optimization F N where
  portfolios := runs.flatMap portfolios
  errors := runs.flatMap errors

/-- `run_portfolio_optimization` -/
def runPortfolioOptimization (num : Numerics F N) (req : Request F N) :
    Except String (Optimization F N) :=
  if req.returns.length < 30 ∨ N < 2 then
    .error "Need T ≥ 30 and N ≥ 2 for portfolio optimisation"
  else do
    let base ← Request.always.mapM (req.attempt num)
    let signal ← req.sbaSignal
    .ok (Optimization.concat (base ++ [req.turnoverAware num, signal]))

/-! ## What is reported -/

section Respects

variable [IsStrictOrderedRing F] {num : Numerics F N} {req : Request F N}

/-- All portfolios of a run respect the constraints. -/
def AllRespect (con : PortfolioConstraints F) (run : Optimization F N) : Prop :=
  ∀ portfolio ∈ run.portfolios, con.Respects portfolio.2

omit [RealFunctions F] [IsStrictOrderedRing F] in
theorem allRespect_concat (con : PortfolioConstraints F) (runs : List (Optimization F N)) :
    AllRespect con (Optimization.concat runs) ↔ ∀ run ∈ runs, AllRespect con run := by
  constructor
  · intro h run hrun portfolio hportfolio
    exact h portfolio (List.mem_flatMap.mpr ⟨run, hrun, hportfolio⟩)
  · intro h portfolio hportfolio
    obtain ⟨run, hrun, hmem⟩ := List.mem_flatMap.mp hportfolio
    exact h run hrun portfolio hmem

omit [RealFunctions F] [IsStrictOrderedRing F] in
theorem allRespect_single (con : PortfolioConstraints F) (m : Method) (w : Weights F N)
    (errors : List (Method × String)) :
    AllRespect con ⟨[(m, w)], errors⟩ ↔ con.Respects w :=
  List.forall_mem_singleton

/-- No closed form of the maximum Sharpe ratio is taken for another box than that of all weights. -/
def Request.SharpeProjected (req : Request F N) (num : Numerics F N) : Prop :=
  req.con.Whole ∨ tangency num.pinv (req.cov num) (fun i => req.expRet i - req.rfRate) = none

/-- The five methods succeed; only the maximum Sharpe ratio can leave the box. -/
theorem optimise_ok (num : Numerics F N) (h : req.con.Feasible N) (hN : 0 < N) (m : Method) :
    ∃ w, req.optimise num m = .ok w ∧
      ((m = .maxSharpe → req.SharpeProjected num) → req.con.Respects w) := by
  have hother : ∀ {r : Except String (Weights F N)} {Q : Prop},
      (∃ w, r = .ok w ∧ req.con.Respects w) → ∃ w, r = .ok w ∧ (Q → req.con.Respects w) := by
    rintro r Q ⟨w, hok, hrespects⟩
    exact ⟨w, hok, fun _ => hrespects⟩
  cases m with
  | maxSharpe =>
    obtain ⟨w, hok, hrespects⟩ := maximumSharpe_respects h hN num.pinv req.expRet (req.cov num)
      req.rfRate 500
    exact ⟨w, hok, fun hprojected => hrespects (hprojected rfl)⟩
  | equalWeight => exact hother (equalWeight_respects h hN)
  | minVariance => exact hother (minimumVariance_respects h hN _ _ _ _)
  | riskParity => exact hother (riskParity_respects h hN _ _ _)
  | maxDiversification => exact hother (maximumDiversification_respects h hN _ _)
  | turnoverAware => exact hother (equalWeight_respects h hN)
  | sbaSignal => exact hother (equalWeight_respects h hN)

/-- Shares of signals are taken: there is one for each asset, and some of them are positive. -/
def Request.SharesSignals (req : Request F N) : Prop :=
  ∃ signals, req.sbaSignals = some signals ∧ signals.length = N ∧
    1 / 10 ^ 9 < ∑ i : Fin N, Request.positiveSignals signals i

omit [RealFunctions F] in
/-- The portfolio of the signals respects the constraints, unless shares are taken for another box
than that of all weights. -/
theorem sbaSignal_ok (h : req.con.Feasible N) (hN : 0 < N) :
    ∃ run, req.sbaSignal = .ok run ∧
      ((req.SharesSignals → req.con.Whole) → AllRespect req.con run) := by
  unfold Request.sbaSignal
  cases hsignals : req.sbaSignals with
  | none => exact ⟨_, rfl, fun _ => List.forall_mem_nil _⟩
  | some signals =>
    dsimp only
    by_cases hlength : signals.length = N
    · rw [if_pos hlength, Request.sbaWeights]
      by_cases hsum : 1 / 10 ^ 9 < ∑ i : Fin N, Request.positiveSignals signals i
      · refine ⟨⟨[(.sbaSignal, normalised (Request.positiveSignals signals))], []⟩, ?_, ?_⟩
        · rw [if_pos hsum]
          rfl
        · intro hwhole
          rw [allRespect_single]
          exact (hwhole ⟨signals, hsignals, hlength, hsum⟩).respects
            (fun i => le_max_right _ 0) (lt_trans (by positivity) hsum).ne'
      · obtain ⟨w, hok, hrespects⟩ := equalWeight_respects h hN
        refine ⟨⟨[(.sbaSignal, w)], []⟩, ?_, fun _ => (allRespect_single _ _ _ _).mpr hrespects⟩
        rw [if_neg hsum, hok]
        rfl
    · rw [if_neg hlength]
      exact ⟨_, rfl, fun _ => List.forall_mem_nil _⟩

/-- On a feasible box, all methods return. -/
theorem run_eq (num : Numerics F N) (req : Request F N) (hrows : 30 ≤ req.returns.length)
    (hN : 2 ≤ N) (h : req.con.Feasible N) :
    ∃ (weights : Method → Weights F N) (signal : Optimization F N),
      runPortfolioOptimization num req =
        .ok (Optimization.concat ((Request.always.map fun m => ⟨[(m, weights m)], []⟩) ++
          [req.turnoverAware num, signal])) ∧
      (∀ m, req.optimise num m = .ok (weights m)) ∧ req.sbaSignal = .ok signal ∧
      (req.SharpeProjected num → ∀ m, req.con.Respects (weights m)) ∧
      ((req.SharesSignals → req.con.Whole) → AllRespect req.con signal) := by
  have hpos : 0 < N := by omega
  choose weights hok hrespects using optimise_ok num h hpos
  obtain ⟨signal, hsignal, hsignals⟩ := sbaSignal_ok h hpos
  have hbase : Request.always.mapM (req.attempt num) =
      .ok (Request.always.map fun m => ⟨[(m, weights m)], []⟩) := by
    refine mapM_eq_ok_map fun m _ => ?_
    rw [Request.attempt, hok m]
  refine ⟨weights, signal, ?_, hok, hsignal, fun hsharpe m => hrespects m fun _ => hsharpe,
    hsignals⟩
  rw [runPortfolioOptimization, if_neg (by omega), hbase, hsignal]
  rfl

/-- What is reported respects the constraints. -/
def Respected (num : Numerics F N) (req : Request F N) : Prop :=
  ∃ run, runPortfolioOptimization num req = .ok run ∧ AllRespect req.con run

/-- Weights that are reported respect the constraints when all that is reported does. -/
theorem Respected.weights (hrespected : Respected num req) (hrows : 30 ≤ req.returns.length)
    (hN : 2 ≤ N) (h : req.con.Feasible N) {w : Weights F N}
    (hw : req.optimise num .maxSharpe = .ok w ∨
      req.sbaSignal = .ok ⟨[(.sbaSignal, w)], []⟩) : req.con.Respects w := by
  obtain ⟨weights, signal, hrun, hok, hsignal, -⟩ := run_eq num req hrows hN h
  obtain ⟨run, hrun', hall⟩ := hrespected
  obtain rfl := Except.ok.inj (hrun.symm.trans hrun')
  rw [allRespect_concat, List.forall_mem_append, List.forall_mem_map] at hall
  rcases hw with hw | hw
  · rw [hok, Except.ok.injEq] at hw
    rw [← hw]
    exact (allRespect_single _ _ _ _).mp (hall.1 .maxSharpe (by decide))
  · rw [hsignal, Except.ok.injEq] at hw
    rw [← allRespect_single _ .sbaSignal _ [], ← hw]
    exact hall.2 signal (by simp)

end Respects

/-! ## A concentrated signal -/

end QuantumSentinel.Portfolio
