import QuantumSentinel.Regime.GaussianHmm

/-!
# Market regimes: decoding

The states that `predict` decodes have the largest sum of log initial, log transition and log
emission terms of all state sequences.  The sum is what a path gains in a trellis.

Main results:

- Theorem `GaussianHMM2State.logScore_eq_gain`: the sum is the gain of the path.
- Theorem `GaussianHMM2State.predict_optimal`: no state sequence has a larger sum, over the
  reals.
-/

namespace QuantumSentinel.Regime

open Lib

namespace GaussianHMM2State

section Score

variable {F : Type*} [Field F] [LinearOrder F] [RealFunctions F] (m : GaussianHMM2State F)

/-- The sum of the log initial, log transition and log emission terms of a state sequence. -/
def logScore (obs : List F) (states : List (Fin 2)) : F :=
  RealFunctions.log (max (m.pi (states.getD 0 0)) tiny) +
    ∑ t ∈ Finset.range (obs.length - 1),
      RealFunctions.log (max (m.A (states.getD t 0) (states.getD (t + 1) 0)) tiny) +
    ∑ t ∈ Finset.range obs.length,
      RealFunctions.log (m.emissionProbs (obs.getD t 0) (states.getD t 0))

/-- The sum is what the sequence gains in the trellis. -/
theorem logScore_eq_gain (x : F) (rest : List F) (states : List (Fin 2)) :
    m.logScore (x :: rest) states =
      (m.logTrellis (x :: rest)).gain (fun t => states.getD t 0) rest.length := by
  have hemissions : ∑ t ∈ Finset.range (x :: rest).length,
      RealFunctions.log (m.emissionProbs ((x :: rest).getD t 0) (states.getD t 0)) =
        ∑ t ∈ Finset.range rest.length,
            RealFunctions.log (m.em (x :: rest) (t + 1) (states.getD (t + 1) 0)) +
          RealFunctions.log (m.em (x :: rest) 0 (states.getD 0 0)) :=
    Finset.sum_range_succ' (fun t =>
      RealFunctions.log (m.em (x :: rest) t (states.getD t 0))) rest.length
  rw [logScore, hemissions, Trellis.gain]
  simp only [logTrellis, Finset.sum_add_distrib, List.length_cons, Nat.add_sub_cancel]
  ring

/-- The decoded states are those along the back pointers. -/
theorem decoded_getD (obs : List F) {t : ℕ} (ht : t < obs.length) (last : ℕ) :
    ((List.range obs.length).map ((m.logTrellis obs).decode last)).getD t 0 =
      (m.logTrellis obs).decode last t := by
  rw [List.getD_eq_getElem?_getD, List.getElem?_map, List.getElem?_range ht]
  rfl

/-- Over any ordered field no state sequence has a larger sum than the decoded one. -/
theorem logScore_le_decoded [IsStrictOrderedRing F] (x : F) (rest : List F)
    (states : List (Fin 2)) :
    m.logScore (x :: rest) states ≤ m.logScore (x :: rest)
      ((List.range (x :: rest).length).map
        ((m.logTrellis (x :: rest)).decode rest.length)) := by
  have hdecoded : (m.logTrellis (x :: rest)).gain (fun t => ((List.range (x :: rest).length).map
      ((m.logTrellis (x :: rest)).decode rest.length)).getD t 0) rest.length =
        (m.logTrellis (x :: rest)).gain ((m.logTrellis (x :: rest)).decode rest.length)
          rest.length :=
    Trellis.gain_congr fun u hu => m.decoded_getD (x :: rest) (Nat.lt_succ_of_le hu) rest.length
  rw [logScore_eq_gain, logScore_eq_gain, hdecoded]
  exact Trellis.decode_optimal _ rest.length

end Score

/-- The decoded states have the largest sum of all state sequences. -/
theorem predict_optimal (m : GaussianHMM2State ℝ) (x : ℝ) (rest : List ℝ) :
    ∃ states alpha, m.predict (x :: rest) = some (states, alpha) ∧
      states.length = (x :: rest).length ∧
      ∀ others : Fin (x :: rest).length → Fin 2,
        m.logScore (x :: rest) (List.ofFn others) ≤ m.logScore (x :: rest) states := by
  refine ⟨_, _, if_neg (List.cons_ne_nil x rest), ?_, fun others => ?_⟩
  · rw [List.length_map, List.length_range]
  · exact m.logScore_le_decoded x rest (List.ofFn others)

end GaussianHMM2State

end QuantumSentinel.Regime
