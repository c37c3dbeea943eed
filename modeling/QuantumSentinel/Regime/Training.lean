import Mathlib.Algebra.BigOperators.Field
import Mathlib.Tactic.Positivity
import Mathlib.Tactic.Ring
import QuantumSentinel.Lib.ForwardBackward
import QuantumSentinel.Regime.GaussianHmm

/-!
# Market regimes: training

The forward and the backward pass of `fit` rescale their rows at every time, each by a factor
of its own.  The factors cancel when `gamma` and `xi` are normalized, so that these are
the posterior probabilities of states and of pairs of states, as long as no floor is in the way.

Main results:

- Definition `GaussianHMM2State.posterior` and `GaussianHMM2State.pairPosterior`: the
  posterior probabilities, from the joint probabilities of all state sequences.
- Theorem `GaussianHMM2State.gamma_eq_posterior` and
  `GaussianHMM2State.xiSum_eq_posterior`: what one expectation step finds.
- Theorem `GaussianHMM2State.fit_posteriors`: all iterations of `fit`.
-/

namespace QuantumSentinel.Regime

open Lib

variable {F : Type*} [Field F] [LinearOrder F]

/-- A probability distribution over the states. -/
def IsDistribution (p : Fin 2 → F) : Prop :=
  (∀ k, 0 ≤ p k) ∧ ∑ k, p k = 1

/-! ## Rescaling -/

/-- A quotient of scaled numbers. -/
theorem div_floor_of_scaled {c a s : F} (hc : 0 < c) (hfloor : tiny ≤ c * s) :
    c * a / max (c * s) tiny = a / s := by
  rw [max_eq_left hfloor, mul_div_mul_left _ _ hc.ne']

section Floors

variable [IsStrictOrderedRing F]

theorem tiny_pos : (0 : F) < tiny := by
  unfold tiny
  positivity

/-- Rescaling multiplies by a positive factor. -/
theorem rescale_row (raw : Fin 2 → F) : ∃ c > 0, ∀ k, (rescale raw).row k = c * raw k := by
  have hpos : 0 < max (∑ j, raw j) tiny := tiny_pos.trans_le (le_max_right _ _)
  exact ⟨1 / max (∑ j, raw j) tiny, one_div_pos.mpr hpos, fun k => by
    rw [rescale, one_div, inv_mul_eq_div]⟩

/-- A row that is not below the floor is rescaled to sum up to one. -/
theorem sum_rescale_row {raw : Fin 2 → F} (h : tiny ≤ ∑ k, raw k) :
    ∑ k, (rescale raw).row k = 1 := by
  simp only [rescale, max_eq_left h]
  rw [← Finset.sum_div]
  exact div_self (tiny_pos.trans_le h).ne'

/-- A mean of numbers above a bound, weighted by a distribution. -/
theorem le_sum_mul {p f : Fin 2 → F} (hp : IsDistribution p) {c : F} (hf : ∀ k, c ≤ f k) :
    c ≤ ∑ k, p k * f k := by
  calc c = ∑ k, p k * c := by rw [← Finset.sum_mul, hp.2, one_mul]
    _ ≤ ∑ k, p k * f k :=
      Finset.sum_le_sum fun k _ => mul_le_mul_of_nonneg_left (hf k) (hp.1 k)

end Floors

namespace GaussianHMM2State

/-- The initial and the transition probabilities are positive distributions. -/
structure Stochastic (m : GaussianHMM2State F) : Prop where
  pi_pos : ∀ k, 0 < m.pi k
  A_pos : ∀ i j, 0 < m.A i j
  pi_sum : ∑ k, m.pi k = 1
  A_sum : ∀ i, ∑ j, m.A i j = 1

variable [RealFunctions F] (m : GaussianHMM2State F) (obs : List F)

/-- No floor on a sum that normalizes a posterior is active. -/
structure Unfloored : Prop where
  gamma : ∀ t < obs.length, tiny ≤ m.gammaSum obs t
  xi : ∀ t, t + 1 < obs.length → tiny ≤ m.xiTotal obs t

/-! ## Posterior probabilities -/

/-- The joint probability of a state sequence and the observations. -/
def joint {last : ℕ} (states : Fin (last + 1) → Fin 2) : F :=
  m.pi (states 0) * (∏ u : Fin last, m.A (states u.castSucc) (states u.succ)) *
    ∏ t : Fin (last + 1), m.emissionProbs (obs.getD t 0) (states t)

/-- The posterior probability of a state at a time. -/
def posterior {last : ℕ} (t : Fin (last + 1)) (k : Fin 2) : F :=
  (∑ states with states t = k, m.joint obs states) /
    ∑ states : Fin (last + 1) → Fin 2, m.joint obs states

/-- The posterior probability of a pair of states, at a time and the next. -/
def pairPosterior {last : ℕ} (t : Fin last) (i j : Fin 2) : F :=
  (∑ states with states t.castSucc = i ∧ states t.succ = j, m.joint obs states) /
    ∑ states : Fin (last + 1) → Fin 2, m.joint obs states

/-- The chain of the model: starting and stepping pay for the observation. -/
def chain : Chain (Fin 2) F where
  start k := m.pi k * m.em obs 0 k
  step t j k := m.A j k * m.em obs t k

@[simp]
theorem chain_step (t : ℕ) (j k : Fin 2) :
    (m.chain obs).step t j k = m.A j k * m.em obs t k :=
  rfl

variable {m obs}

/-- The joint probability is the weight of the path. -/
theorem joint_eq_weight {last : ℕ} (states : Fin (last + 1) → Fin 2) :
    m.joint obs states = (m.chain obs).weight last states := by
  rw [joint, Fin.prod_univ_succ, Chain.weight]
  simp only [chain, Finset.prod_mul_distrib, em, Fin.val_zero, Fin.val_succ]
  ring

/-! ## Positive weights -/

section Ordered

variable [IsStrictOrderedRing F]

omit [IsStrictOrderedRing F] in
theorem tiny_le_em (t : ℕ) (k : Fin 2) : tiny ≤ m.em obs t k :=
  le_max_right _ _

theorem em_pos (t : ℕ) (k : Fin 2) : 0 < m.em obs t k :=
  tiny_pos.trans_le (tiny_le_em t k)

theorem Stochastic.start_pos (hm : m.Stochastic) (k : Fin 2) : 0 < (m.chain obs).start k :=
  mul_pos (hm.pi_pos k) (em_pos 0 k)

theorem Stochastic.step_pos (hm : m.Stochastic) (t : ℕ) (j k : Fin 2) :
    0 < (m.chain obs).step t j k :=
  mul_pos (hm.A_pos j k) (em_pos t k)

/-! ## The passes -/

variable (m obs)

/-- The forward pass finds what comes from the front, up to a factor. -/
theorem alpha_scaled (t : ℕ) : ∃ c > 0, ∀ k, m.alpha obs t k = c * (m.chain obs).forward t k := by
  induction t with
  | zero => exact rescale_row _
  | succ t ih =>
    obtain ⟨c, hc, halpha⟩ := ih
    obtain ⟨c', hc', hrow⟩ :=
      rescale_row fun k => (∑ i, m.alpha obs t i * m.A i k) * m.em obs (t + 1) k
    refine ⟨c' * c, mul_pos hc' hc, fun k => (hrow k).trans ?_⟩
    simp only [halpha, Chain.forward, chain_step, Finset.sum_mul, Finset.mul_sum]
    exact Finset.sum_congr rfl fun i _ => by ring

/-- The backward pass finds what leaves to the back, up to a factor. -/
theorem backwardPass_scaled {r : ℕ} (hr : r ≤ obs.length - 1) :
    ∃ d > 0, ∀ k, m.backwardPass obs r k =
      d * (m.chain obs).backward (obs.length - 1 - r) r k := by
  induction r with
  | zero => exact ⟨1, one_pos, fun k => (mul_one _).symm⟩
  | succ r ih =>
    obtain ⟨d, hd, hbeta⟩ := ih (Nat.le_of_succ_le hr)
    obtain ⟨d', hd', hrow⟩ := rescale_row fun i => ∑ j, m.A i j *
      (m.em obs (obs.length - 1 - r) j * m.backwardPass obs r j)
    refine ⟨d' * d, mul_pos hd' hd, fun k => (hrow k).trans ?_⟩
    have htime : obs.length - 1 - (r + 1) + 1 = obs.length - 1 - r := by omega
    simp only [hbeta, Chain.backward, chain_step, htime, Finset.mul_sum]
    exact Finset.sum_congr rfl fun j _ => by ring

theorem beta_scaled {t : ℕ} (ht : t ≤ obs.length - 1) :
    ∃ d > 0, ∀ k, m.beta obs t k =
      d * (m.chain obs).backward t (obs.length - 1 - t) k := by
  obtain ⟨d, hd, hbeta⟩ := m.backwardPass_scaled obs (r := obs.length - 1 - t) (Nat.sub_le _ _)
  rw [Nat.sub_sub_self ht] at hbeta
  exact ⟨d, hd, hbeta⟩

variable {m obs}

/-! ## Posteriors -/

/-- `gamma` is the posterior probability of a state. -/
theorem gamma_eq_posterior {last : ℕ} (hobs : obs.length = last + 1) (h : m.Unfloored obs)
    (t : Fin (last + 1)) (k : Fin 2) : m.gamma obs t k = m.posterior obs t k := by
  have hlast : obs.length - 1 = last := by omega
  have ht : t.1 ≤ last := Nat.le_of_lt_succ t.2
  obtain ⟨c, hc, halpha⟩ := m.alpha_scaled obs t
  obtain ⟨d, hd, hbeta⟩ := m.beta_scaled obs (t := t) (by omega)
  rw [hlast] at hbeta
  have hterm : ∀ k, m.alpha obs t k * m.beta obs t k =
      c * d * ((m.chain obs).forward t k * (m.chain obs).backward t (last - t) k) := fun k => by
    rw [halpha, hbeta]
    ring
  have hsum : m.gammaSum obs t = c * d *
      ∑ k, (m.chain obs).forward t k * (m.chain obs).backward t (last - t) k := by
    rw [gammaSum, Finset.mul_sum]
    exact Finset.sum_congr rfl fun k _ => hterm k
  have hfloor := h.gamma t (by omega)
  rw [hsum] at hfloor
  rw [gamma, hterm, hsum, div_floor_of_scaled (mul_pos hc hd) hfloor, posterior]
  simp only [joint_eq_weight]
  rw [(m.chain obs).sum_weight_at ht k, (m.chain obs).sum_weight ht]

/-- One term of `xi_sum` is the posterior probability of a pair of states. -/
theorem xi_eq_posterior {last : ℕ} (hobs : obs.length = last + 1) (h : m.Unfloored obs)
    (t : Fin last) (i j : Fin 2) :
    m.xiRaw obs t i j / max (m.xiTotal obs t) tiny = m.pairPosterior obs t i j := by
  have hlast : obs.length - 1 = last := by omega
  obtain ⟨c, hc, halpha⟩ := m.alpha_scaled obs t
  obtain ⟨d, hd, hbeta⟩ := m.beta_scaled obs (t := t + 1) (by omega)
  rw [hlast] at hbeta
  have hterm : ∀ i j, m.xiRaw obs t i j = c * d * ((m.chain obs).forward t i *
      (m.chain obs).step (t + 1) i j * (m.chain obs).backward (t + 1) (last - (t + 1)) j) := by
    intro i j
    rw [xiRaw, halpha, hbeta, chain_step]
    ring
  have hsum : m.xiTotal obs t = c * d *
      ∑ i, (m.chain obs).forward t i * (m.chain obs).backward t (last - t) i := by
    have hsteps : last - t = last - (t + 1) + 1 := by omega
    rw [xiTotal, hsteps, Finset.mul_sum]
    refine Finset.sum_congr rfl fun i _ => ?_
    simp only [hterm, Chain.backward, Finset.mul_sum]
    exact Finset.sum_congr rfl fun j _ => by ring
  have hfloor := h.xi t (by omega)
  rw [hsum] at hfloor
  rw [hterm, hsum, div_floor_of_scaled (mul_pos hc hd) hfloor, pairPosterior]
  simp only [joint_eq_weight]
  rw [(m.chain obs).sum_weight (t := t) t.2.le]
  exact congrArg (· / _) ((m.chain obs).sum_weight_step t.2 i j).symm

/-- `xi_sum` sums up the posterior probabilities of consecutive pairs of states. -/
theorem xiSum_eq_posterior {last : ℕ} (hobs : obs.length = last + 1) (h : m.Unfloored obs)
    (i j : Fin 2) : m.xiSum obs i j = ∑ t : Fin last, m.pairPosterior obs t i j := by
  have hlast : obs.length - 1 = last := by omega
  rw [xiSum, hlast, Finset.sum_range]
  exact Finset.sum_congr rfl fun t _ => xi_eq_posterior hobs h t i j

/-! ## Iterations -/

/-- The rescaled passes are positive. -/
theorem Stochastic.alpha_beta_pos (hm : m.Stochastic) {t : ℕ} (ht : t ≤ obs.length - 1)
    (k : Fin 2) : 0 < m.alpha obs t k ∧ 0 < m.beta obs t k := by
  obtain ⟨c, hc, halpha⟩ := m.alpha_scaled obs t
  obtain ⟨d, hd, hbeta⟩ := m.beta_scaled obs ht
  rw [halpha, hbeta]
  exact ⟨mul_pos hc (Chain.forward_pos hm.start_pos hm.step_pos t k),
    mul_pos hd (Chain.backward_pos hm.step_pos t _ k)⟩

/-- The new initial distribution. -/
theorem Stochastic.gamma_zero (hm : m.Stochastic) (h : m.Unfloored obs) (hobs : obs ≠ []) :
    (∀ k, 0 < m.gamma obs 0 k) ∧ ∑ k, m.gamma obs 0 k = 1 := by
  have hfloor := h.gamma 0 (List.length_pos_iff.mpr hobs)
  have hsum : 0 < m.gammaSum obs 0 := tiny_pos.trans_le hfloor
  have hgamma : ∀ k, m.gamma obs 0 k =
      m.alpha obs 0 k * m.beta obs 0 k / m.gammaSum obs 0 := fun k => by
    rw [gamma, max_eq_left hfloor]
  refine ⟨fun k => ?_, ?_⟩
  · obtain ⟨halpha, hbeta⟩ := hm.alpha_beta_pos (Nat.zero_le (obs.length - 1)) k
    rw [hgamma]
    exact div_pos (mul_pos halpha hbeta) hsum
  · simp only [hgamma]
    rw [← Finset.sum_div]
    exact div_self hsum.ne'

/-- Every sum of transitions is positive, when there are any. -/
theorem Stochastic.xiSum_pos (hm : m.Stochastic) (hlong : 1 < obs.length) (i j : Fin 2) :
    0 < m.xiSum obs i j := by
  refine Finset.sum_pos (fun t ht => ?_) (Finset.nonempty_range_iff.mpr (by omega))
  have hlt := Finset.mem_range.mp ht
  have halpha := (hm.alpha_beta_pos (t := t) hlt.le i).1
  have hbeta := (hm.alpha_beta_pos (t := t + 1) hlt j).2
  exact div_pos (mul_pos (mul_pos halpha (mul_pos (em_pos (t + 1) j) hbeta)) (hm.A_pos i j))
    (tiny_pos.trans_le (le_max_right _ _))

/-- The new row of the transition matrix. -/
theorem Stochastic.transitions (hm : m.Stochastic) (i : Fin 2) :
    (∀ j, 0 < (m.posteriors obs).transitions (m.A i) i j) ∧
      ∑ j, (m.posteriors obs).transitions (m.A i) i j = 1 := by
  unfold Posteriors.transitions
  split
  · rename_i hrow
    have hpos : 0 < ∑ j, (m.posteriors obs).xiSum i j :=
      lt_trans (by positivity) hrow
    have hlong : 1 < obs.length := by
      by_contra hshort
      have hzero : ∑ j, (m.posteriors obs).xiSum i j = 0 :=
        Finset.sum_eq_zero fun j _ => by
          show m.xiSum obs i j = 0
          rw [xiSum, show obs.length - 1 = 0 by omega, Finset.range_zero, Finset.sum_empty]
      exact absurd hzero hpos.ne'
    refine ⟨fun j => div_pos (hm.xiSum_pos hlong i j) hpos, ?_⟩
    rw [← Finset.sum_div]
    exact div_self hpos.ne'
  · exact ⟨hm.A_pos i, hm.A_sum i⟩

/-- An iteration leaves positive distributions. -/
theorem Stochastic.emStep (hm : m.Stochastic) (h : m.Unfloored obs) (hobs : obs ≠ []) :
    (m.emStep obs).Stochastic where
  pi_pos := (hm.gamma_zero h hobs).1
  A_pos := fun i => (hm.transitions i).1
  pi_sum := (hm.gamma_zero h hobs).2
  A_sum := fun i => (hm.transitions i).2

omit [RealFunctions F] [IsStrictOrderedRing F] in
theorem Stochastic.distributions (hm : m.Stochastic) :
    IsDistribution m.pi ∧ ∀ i, IsDistribution (m.A i) :=
  ⟨⟨fun k => (hm.pi_pos k).le, hm.pi_sum⟩, fun i => ⟨fun j => (hm.A_pos i j).le, hm.A_sum i⟩⟩

/-- What holds of an iteration that starts with positive distributions holds of all. -/
theorem Stochastic.iterations (hm : m.Stochastic) (hobs : obs ≠ []) (tol : F) (nIter : ℕ)
    (prevLl : Option F)
    (hfloors : ∀ m' ∈ (fitFrom obs tol nIter prevLl m).1, m'.Unfloored obs) :
    ∀ m' ∈ (fitFrom obs tol nIter prevLl m).1, m'.Stochastic := by
  induction nIter generalizing prevLl m with
  | zero => exact fun m' hmem => (by cases hmem)
  | succ n ih =>
    rw [fitFrom] at hfloors ⊢
    split
    · rename_i hstop
      intro m' hmem
      rw [List.mem_singleton.mp hmem]
      exact hm
    · rename_i hgo
      rw [if_neg hgo] at hfloors
      have hstep := hm.emStep (hfloors m (List.mem_cons_self ..)) hobs
      intro m' hmem
      rcases List.mem_cons.mp hmem with rfl | hlater
      · exact hm
      · exact ih hstep _ (fun m'' hmem' => hfloors m'' (List.mem_cons_of_mem _ hmem')) m' hlater

/-- In every iteration of `fit` the expectation step finds the posterior probabilities, and
after it the initial and the transition probabilities are distributions. -/
theorem fit_posteriors (hm : m.Stochastic) (x : F) (rest : List F) (tol : F) (nIter : ℕ)
    (prevLl : Option F)
    (hfloors : ∀ m' ∈ (fitFrom (x :: rest) tol nIter prevLl m).1, m'.Unfloored (x :: rest)) :
    ∀ m' ∈ (fitFrom (x :: rest) tol nIter prevLl m).1,
      (∀ (t : Fin (rest.length + 1)) k, (m'.posteriors (x :: rest)).gamma t k =
        m'.posterior (x :: rest) t k) ∧
      (∀ i j, (m'.posteriors (x :: rest)).xiSum i j =
        ∑ t : Fin rest.length, m'.pairPosterior (x :: rest) t i j) ∧
      IsDistribution (m'.emStep (x :: rest)).pi ∧
      ∀ i, IsDistribution ((m'.emStep (x :: rest)).A i) := by
  intro m' hmem
  have hne := List.cons_ne_nil x rest
  have hfloor := hfloors m' hmem
  have hstochastic := hm.iterations hne tol nIter prevLl hfloors m' hmem
  obtain ⟨hpi, hA⟩ := (hstochastic.emStep hfloor hne).distributions
  exact ⟨fun t k => gamma_eq_posterior (List.length_cons ..) hfloor t k,
    fun i j => xiSum_eq_posterior (List.length_cons ..) hfloor i j, hpi, hA⟩

/-! ## Floors out of reach -/

/-- The forward pass keeps distributions: no emission is below the floor. -/
theorem Stochastic.alpha_distribution (hm : m.Stochastic) (obs : List F) (t : ℕ) :
    IsDistribution (m.alpha obs t) := by
  have hnonneg : ∀ t k, 0 ≤ m.alpha obs t k := fun t k => by
    obtain ⟨c, hc, halpha⟩ := m.alpha_scaled obs t
    rw [halpha]
    exact (mul_pos hc (Chain.forward_pos hm.start_pos hm.step_pos t k)).le
  refine ⟨hnonneg t, ?_⟩
  induction t with
  | zero => exact sum_rescale_row (le_sum_mul hm.distributions.1 (tiny_le_em 0))
  | succ t ih =>
    refine sum_rescale_row (le_sum_mul ⟨fun k => ?_, ?_⟩ (tiny_le_em (t + 1)))
    · exact Finset.sum_nonneg fun i _ => mul_nonneg (hnonneg t i) (hm.A_pos i k).le
    · rw [Finset.sum_comm]
      simp only [← Finset.mul_sum, hm.A_sum, mul_one]
      exact ih

/-- Two observations whose emissions are all between a bound and one. -/
theorem Stochastic.unfloored_pair (hm : m.Stochastic) {x y c : F} (hc : 2 * tiny ≤ c)
    (hem : ∀ k, c ≤ m.em [x, y] 1 k ∧ m.em [x, y] 1 k ≤ 1) : m.Unfloored [x, y] := by
  have htiny : (0 : F) < tiny := tiny_pos
  have hbeta' : ∀ k, m.beta [x, y] 1 k = 1 := fun _ => rfl
  let raw : Fin 2 → F := fun i => ∑ j, m.A i j * (m.em [x, y] 1 j * 1)
  have hraw : ∀ i, c ≤ raw i ∧ raw i ≤ 1 := by
    intro i
    refine ⟨le_sum_mul (hm.distributions.2 i) fun j => by rw [mul_one]; exact (hem j).1, ?_⟩
    calc raw i ≤ ∑ j, m.A i j * 1 :=
          Finset.sum_le_sum fun j _ =>
            mul_le_mul_of_nonneg_left (by rw [mul_one]; exact (hem j).2) (hm.A_pos i j).le
      _ = 1 := by simp only [mul_one, hm.A_sum]
  have hc1 : c ≤ 1 := (hraw 0).1.trans (hraw 0).2
  have hbeta : ∀ k, c / 2 ≤ m.beta [x, y] 0 k := by
    intro k
    have hsum : ∑ j, raw j ≤ 2 := by
      rw [Fin.sum_univ_two]
      linarith [(hraw 0).2, (hraw 1).2]
    have hnonneg : 0 ≤ raw k := by linarith [(hraw k).1]
    exact div_le_div₀ hnonneg (hraw k).1
      (htiny.trans_le (le_max_right _ _)) (max_le hsum (by linarith))
  refine ⟨fun t ht => ?_, fun t ht => ?_⟩
  · rw [List.length_cons, List.length_singleton] at ht
    obtain rfl | rfl : t = 0 ∨ t = 1 := by omega
    · exact (by linarith : tiny ≤ c / 2).trans (le_sum_mul (hm.alpha_distribution _ 0) hbeta)
    · exact (by linarith : (tiny : F) ≤ 1).trans
        (le_sum_mul (hm.alpha_distribution _ 1) fun k => (hbeta' k).ge)
  · rw [List.length_cons, List.length_singleton] at ht
    obtain rfl : t = 0 := by omega
    have hrow : ∀ i, ∑ j, m.xiRaw [x, y] 0 i j = m.alpha [x, y] 0 i * raw i := by
      intro i
      rw [Finset.mul_sum]
      exact Finset.sum_congr rfl fun j _ => by rw [xiRaw, hbeta', mul_assoc, mul_comm (m.A i j)]
    simp only [xiTotal, hrow]
    exact (by linarith : tiny ≤ c).trans
      (le_sum_mul (hm.alpha_distribution _ 0) fun i => (hraw i).1)

end Ordered

/-! ## A calm and a turbulent state -/

/-- A standard deviation between one and two, and an observation that is no more than one off. -/
theorem gaussianPdf_bounds {x mu sigma : ℝ} (hx : |x - mu| ≤ 1) (hsigma : 1 ≤ sigma)
    (hsigma' : sigma ≤ 2) : 1 / 12 ≤ gaussianPdf x mu sigma ∧ gaussianPdf x mu sigma ≤ 1 := by
  have hmax : max sigma (1 / 10 ^ 9) = sigma := max_eq_left (by norm_num; linarith)
  have hsquare : (x - mu) / sigma * ((x - mu) / sigma) ≤ 1 := by
    rw [← abs_le_one_iff_mul_self_le_one, abs_div, abs_of_pos (by linarith : 0 < sigma)]
    exact div_le_one_of_le₀ (hx.trans hsigma) (by linarith)
  have hroot : 1 ≤ Real.sqrt (2 * Real.pi) ∧ Real.sqrt (2 * Real.pi) ≤ 3 := by
    refine ⟨Real.one_le_sqrt.mpr (by linarith [Real.two_le_pi]), Real.sqrt_le_iff.mpr ?_⟩
    exact ⟨by norm_num, by linarith [Real.pi_le_four]⟩
  have hscale : 1 ≤ sigma * Real.sqrt (2 * Real.pi) ∧ sigma * Real.sqrt (2 * Real.pi) ≤ 6 :=
    ⟨one_le_mul_of_one_le_of_one_le hsigma hroot.1, by nlinarith [hroot.1, hroot.2]⟩
  show 1 / 12 ≤ Real.exp _ / (sigma * Real.sqrt (2 * Real.pi)) ∧
    Real.exp _ / (sigma * Real.sqrt (2 * Real.pi)) ≤ 1
  rw [hmax]
  generalize (x - mu) / sigma = z at hsquare
  have hexp : 1 / 2 ≤ Real.exp (-(1 / 2) * z * z) := by
    linarith [Real.add_one_le_exp (-(1 / 2) * z * z)]
  have hexp' : Real.exp (-(1 / 2) * z * z) ≤ 1 :=
    Real.exp_le_one_iff.mpr (by linarith [mul_self_nonneg z])
  constructor
  · rw [le_div_iff₀ (by linarith [hscale.1])]
    linarith [hscale.2]
  · exact div_le_one_of_le₀ (hexp'.trans hscale.1) (by linarith [hscale.1])

/-- The turbulent state is rarer, twice as wide and centred elsewhere. -/
noncomputable def twoRegimes : GaussianHMM2State ℝ where
  pi k := if k = 0 then 3 / 4 else 1 / 4
  A i j := if i = 0 then (if j = 0 then 9 / 10 else 1 / 10) else (if j = 0 then 1 / 5 else 4 / 5)
  means k := if k = 0 then 0 else 1 / 2
  stds k := if k = 0 then 1 else 2

theorem twoRegimes_stochastic : twoRegimes.Stochastic where
  pi_pos := Fin.forall_fin_two.mpr (by norm_num [twoRegimes])
  A_pos := Fin.forall_fin_two.mpr (by simp only [Fin.forall_fin_two]; norm_num [twoRegimes])
  pi_sum := by norm_num [twoRegimes, Fin.sum_univ_two]
  A_sum := Fin.forall_fin_two.mpr (by norm_num [twoRegimes, Fin.sum_univ_two])

theorem twoRegimes_unfloored : twoRegimes.Unfloored [0, 1] := by
  have hpow : (tiny : ℝ) ≤ 1 / 24 :=
    one_div_le_one_div_of_le (by norm_num)
      ((by norm_num : (24 : ℝ) ≤ 10 ^ 2).trans (pow_le_pow_right₀ (by norm_num) (by norm_num)))
  refine twoRegimes_stochastic.unfloored_pair (c := 1 / 12) (by linarith) fun k => ?_
  have hpdf : 1 / 12 ≤ gaussianPdf 1 (twoRegimes.means k) (twoRegimes.stds k) ∧
      gaussianPdf 1 (twoRegimes.means k) (twoRegimes.stds k) ≤ 1 := by
    refine gaussianPdf_bounds ?_ ?_ ?_ <;> fin_cases k <;> norm_num [twoRegimes, abs_le]
  exact ⟨hpdf.1.trans (le_max_left _ _), max_le hpdf.2 (by linarith)⟩

theorem fit_posteriors_two :
    (∀ (t : Fin 2) k, (twoRegimes.posteriors [0, 1]).gamma t k =
        twoRegimes.posterior [0, 1] t k) ∧
      (∀ i j, (twoRegimes.posteriors [0, 1]).xiSum i j =
        ∑ t : Fin 1, twoRegimes.pairPosterior [0, 1] t i j) ∧
      IsDistribution (twoRegimes.emStep [0, 1]).pi ∧
      ∀ i, IsDistribution ((twoRegimes.emStep [0, 1]).A i) := by
  have hiterations : (fitFrom [0, 1] 0 1 none twoRegimes).1 = [twoRegimes] := rfl
  exact fit_posteriors twoRegimes_stochastic 0 [1] 0 1 none
    (by
      rw [hiterations]
      exact fun m' hmem => List.mem_singleton.mp hmem ▸ twoRegimes_unfloored)
    twoRegimes (by rw [hiterations]; exact List.mem_singleton_self _)

end GaussianHMM2State

end QuantumSentinel.Regime
