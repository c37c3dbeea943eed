import Mathlib.Algebra.Order.BigOperators.Group.Finset
import Mathlib.Algebra.Order.Field.Basic
import Mathlib.Data.List.Sort
import QuantumSentinel.Lib.RealFunctions
import QuantumSentinel.Lib.Trellis

/-!
# Market regimes: the Gaussian hidden Markov model

`GaussianHMM2State` of `regime_detection.py`: two states with a normal emission each,
trained by expectation and maximization, and decoded by the Viterbi algorithm.  Numbers are those
of any ordered field; the functions of the math module are parameters.

Main results:

- Definition `GaussianHMM2State.posteriors`: one expectation step.
- Definition `GaussianHMM2State.fit`: the training.
- Definition `GaussianHMM2State.predict`: the decoding.

Current gaps:

- Arithmetic is exact, and a standard deviation of zero divides by zero.
- An array is a function of its indices; those beyond its length are not read.
-/

namespace QuantumSentinel.Regime

open Lib

variable {F : Type*} [Field F] [LinearOrder F]

/-- The floor of probabilities and of sums, `1e-300`. -/
def tiny : F :=
  1 / 10 ^ 300

/-- The parameters of `GaussianHMM2State`. -/
structure GaussianHMM2State (F : Type*) where
  pi : Fin 2 → F
  A : Fin 2 → Fin 2 → F
  means : Fin 2 → F
  stds : Fin 2 → F

/-- A row and the sum it was divided by. -/
structure Scaled (F : Type*) where
  row : Fin 2 → F
  scale : F

/-- A row divided by its sum, which is at least the floor. -/
def rescale (raw : Fin 2 → F) : Scaled F where
  row k := raw k / max (∑ j, raw j) tiny
  scale := ∑ j, raw j

/-- What the expectation step finds. -/
structure Posteriors (F : Type*) where
  scale : ℕ → F
  gamma : ℕ → Fin 2 → F
  xiSum : Fin 2 → Fin 2 → F

section Emissions

variable [RealFunctions F]

/-- `_gaussian_pdf`. -/
def gaussianPdf (x mu sigma : F) : F :=
  let z := (x - mu) / max sigma (1 / 10 ^ 9)
  RealFunctions.exp (-(1 / 2) * z * z) / (sigma * RealFunctions.sqrt (2 * RealFunctions.pi))

namespace GaussianHMM2State

variable (m : GaussianHMM2State F) (obs : List F)

/-- `_emission_probs`. -/
def emissionProbs (x : F) (k : Fin 2) : F :=
  max (gaussianPdf x (m.means k) (m.stds k)) tiny

/-- The emission probabilities of the observation at a time. -/
def em (t : ℕ) : Fin 2 → F :=
  m.emissionProbs (obs.getD t 0)

/-! ## Expectation -/

/-- The forward pass: `alpha` and `scale`. -/
def forwardPass : ℕ → Scaled F
  | 0 => rescale fun k => m.pi k * m.em obs 0 k
  | t + 1 => rescale fun k => (∑ i, (forwardPass t).row i * m.A i k) * m.em obs (t + 1) k

/-- The row `alpha[t]`. -/
def alpha (t : ℕ) : Fin 2 → F :=
  (m.forwardPass obs t).row

/-- The backward pass, so many steps before the last observation. -/
def backwardPass : ℕ → Fin 2 → F
  | 0 => fun _ => 1
  | r + 1 =>
    (rescale fun i => ∑ j, m.A i j * (m.em obs (obs.length - 1 - r) j * backwardPass r j)).row

/-- The row `beta[t]`. -/
def beta (t : ℕ) : Fin 2 → F :=
  m.backwardPass obs (obs.length - 1 - t)

/-- The sum of `alpha * beta` over the states. -/
def gammaSum (t : ℕ) : F :=
  ∑ k, m.alpha obs t k * m.beta obs t k

/-- The row `gamma[t]`. -/
def gamma (t : ℕ) (k : Fin 2) : F :=
  m.alpha obs t k * m.beta obs t k / max (m.gammaSum obs t) tiny

/-- `xi_t` before it is divided by its sum. -/
def xiRaw (t : ℕ) (i j : Fin 2) : F :=
  m.alpha obs t i * (m.em obs (t + 1) j * m.beta obs (t + 1) j) * m.A i j

/-- The sum of `xi_t`. -/
def xiTotal (t : ℕ) : F :=
  ∑ i, ∑ j, m.xiRaw obs t i j

/-- `xi_sum`. -/
def xiSum (i j : Fin 2) : F :=
  ∑ t ∈ Finset.range (obs.length - 1), m.xiRaw obs t i j / max (m.xiTotal obs t) tiny

/-- The E-step of `fit`. -/
def posteriors : Posteriors F where
  scale t := (m.forwardPass obs t).scale
  gamma := m.gamma obs
  xiSum := m.xiSum obs

end GaussianHMM2State

/-! ## Maximization -/

namespace Posteriors

variable (e : Posteriors F) (obs : List F)

/-- A weighted sum over the observations. -/
def weighted (k : Fin 2) (f : F → F) : F :=
  ∑ t ∈ Finset.range obs.length, e.gamma t k * f (obs.getD t 0)

/-- `w_sum`. -/
def wSum (k : Fin 2) : F :=
  max (∑ t ∈ Finset.range obs.length, e.gamma t k) (1 / 10 ^ 12)

/-- The new mean of a state. -/
def mean (k : Fin 2) : F :=
  e.weighted obs k id / e.wSum obs k

/-- The new row of the transition matrix, when there were transitions. -/
def transitions (old : Fin 2 → F) (i : Fin 2) : Fin 2 → F :=
  let rowSum := ∑ j, e.xiSum i j
  if 1 / 10 ^ 12 < rowSum then fun j => e.xiSum i j / rowSum else old

/-- The log-likelihood of the convergence check. -/
def logLikelihood : F :=
  ∑ t ∈ Finset.range obs.length, RealFunctions.log (max (e.scale t) tiny)

/-- The M-step of `fit`. -/
def update (m : GaussianHMM2State F) : GaussianHMM2State F where
  pi := e.gamma 0
  A i := e.transitions (m.A i) i
  means := e.mean obs
  stds k :=
    let var := e.weighted obs k (fun x => (x - e.mean obs k) ^ 2) / e.wSum obs k
    max (RealFunctions.sqrt var) (1 / 10 ^ 6)

end Posteriors

/-! ## Training -/

namespace GaussianHMM2State

variable (obs : List F) (tol : F)

/-- One EM iteration. -/
def emStep (m : GaussianHMM2State F) : GaussianHMM2State F :=
  (m.posteriors obs).update obs m

/-- The loop of `fit`: the parameters that each iteration starts with, and the last ones. -/
def fitFrom : ℕ → Option F → GaussianHMM2State F →
    List (GaussianHMM2State F) × GaussianHMM2State F
  | 0, _, m => ([], m)
  | n + 1, prevLl, m =>
    let e := m.posteriors obs
    let ll := e.logLikelihood obs
    if prevLl.any fun prev => |ll - prev| < tol then ([m], e.update obs m)
    else
      let (later, last) := fitFrom n (some ll) (e.update obs m)
      (m :: later, last)

/-- The means and standard deviations of the lower and the upper half; an empty half has none. -/
def initialise (m : GaussianHMM2State F) : Option (GaussianHMM2State F) :=
  let sortedObs := obs.insertionSort (· ≤ ·)
  let halves := fun k : Fin 2 =>
    if k = 0 then sortedObs.take (obs.length / 2) else sortedObs.drop (obs.length / 2)
  if halves 0 = [] ∨ halves 1 = [] then none
  else
    some { m with
      means k := mean (halves k)
      stds k := max (std (halves k) 0) (1 / 10 ^ 6) }

/-- `fit`, as long as all numbers are numbers. -/
def fit (nIter : ℕ) (m : GaussianHMM2State F) : Option (GaussianHMM2State F) :=
  (m.initialise obs).map fun m₀ => (fitFrom obs tol nIter none m₀).2

/-! ## Decoding -/

variable (m : GaussianHMM2State F)

/-- The logarithms that `predict` adds up. -/
def logTrellis : Trellis 1 F where
  start k := RealFunctions.log (max (m.pi k) tiny) + RealFunctions.log (m.em obs 0 k)
  step t j k := RealFunctions.log (max (m.A j k) tiny) + RealFunctions.log (m.em obs t k)

/-- `predict`: the decoded states and `alpha`; without observations there is nothing
to decode. -/
def predict : Option (List (Fin 2) × (ℕ → Fin 2 → F)) :=
  if obs = [] then none
  else some ((List.range obs.length).map ((m.logTrellis obs).decode (obs.length - 1)), m.alpha obs)

end GaussianHMM2State

end Emissions

end QuantumSentinel.Regime
