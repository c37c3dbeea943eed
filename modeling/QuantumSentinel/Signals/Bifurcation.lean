import Mathlib.Algebra.Order.Field.Rat
import QuantumSentinel.Lib.Bisection
import QuantumSentinel.Lib.Correlation

/-!
# Signals: simulated bifurcation

`build_coupling_matrix`, `run_sba` and `score_signal` of `signal_engine.py`, and
the fields `generate_signals` hands to them.  Positions and momenta of the assets are integrated
step by step, and the positions are clipped after each step.

Main results:

- Definition `runSba`: the integration.
- Theorem `runSba_permuted` and `runSba_neg`: renamed assets and negated fields.
- Theorem `sba_unbiased`: which assets are bought or sold depends on neither.
- Theorem `spins_permuted`: the same for the spins of `generate_signals`.

Current gaps:

- Arithmetic is exact, and a correlation with a constant row is the NaN that becomes zero.
- What a signal carries besides its type and confidence is not modelled.
-/

namespace QuantumSentinel.Signals

open Lib

variable {F : Type*} [Field F] [LinearOrder F] {n : ℕ}

/-! ## Integration -/

/-- The arrays `x` and `y` of the integration. -/
@[ext]
structure Oscillators (F : Type*) (n : ℕ) where
  x : Fin n → F
  y : Fin n → F

/-- The state the local fields give. -/
def seeded (localFields : Fin n → F) : Oscillators F n where
  x i := clipTo (-(1 / 20)) (1 / 20) (localFields i * (1 / 20))
  y _ := 0

section Step

variable (couplingMatrix : Fin n → Fin n → F) (localFields : Fin n → F) (nSteps : ℤ)
  (dt coupling : F)

/-- The array `dy` of a step. -/
def force (step : ℕ) (x : Fin n → F) (i : Fin n) : F :=
  let a : F := step / nSteps
  let couplingSum := ∑ j, couplingMatrix i j * x j
  (a - 1) * x i - x i ^ 3 + coupling * couplingSum + localFields i

/-- One turn of the loop. -/
def sbaStep (s : Oscillators F n) (step : ℕ) : Oscillators F n :=
  let y := fun i => s.y i + force couplingMatrix localFields nSteps coupling step s.x i * dt
  { x := fun i => clipTo (-1) 1 (s.x i + y i * dt)
    y := y }

/-- `run_sba` -/
def runSba : Fin n → F :=
  ((List.range nSteps.toNat).foldl (sbaStep couplingMatrix localFields nSteps dt coupling)
    (seeded localFields)).x

end Step

/-! ## Renamed assets -/

/-- The state of renamed assets. -/
def Oscillators.permuted (p : Equiv.Perm (Fin n)) (s : Oscillators F n) : Oscillators F n where
  x := s.x ∘ p
  y := s.y ∘ p

section Permuted

variable (p : Equiv.Perm (Fin n)) (J : Fin n → Fin n → F) (h : Fin n → F) (nSteps : ℤ)
  (dt coupling : F)

omit [LinearOrder F] in
theorem force_permuted (step : ℕ) (x : Fin n → F) (i : Fin n) :
    force (fun i j => J (p i) (p j)) (h ∘ p) nSteps coupling step (x ∘ p) i =
      force J h nSteps coupling step x (p i) := by
  have hsum : ∑ j, J (p i) (p j) * (x ∘ p) j = ∑ j, J (p i) j * x j :=
    Equiv.sum_comp p fun j => J (p i) j * x j
  rw [force, force, hsum]
  rfl

/-- A step of renamed assets is the renamed step. -/
theorem sbaStep_permuted (s : Oscillators F n) (step : ℕ) :
    sbaStep (fun i j => J (p i) (p j)) (h ∘ p) nSteps dt coupling (s.permuted p) step =
      (sbaStep J h nSteps dt coupling s step).permuted p := by
  have hforce := force_permuted p J h nSteps coupling step s.x
  ext i
  · simp only [sbaStep, Oscillators.permuted, Function.comp_apply, hforce]
  · simp only [sbaStep, Oscillators.permuted, Function.comp_apply, hforce]

/-- Renaming the assets renames the spins. -/
theorem runSba_permuted :
    runSba (fun i j => J (p i) (p j)) (h ∘ p) nSteps dt coupling =
      runSba J h nSteps dt coupling ∘ p := by
  have hrun : (List.range nSteps.toNat).foldl
      (sbaStep (fun i j => J (p i) (p j)) (h ∘ p) nSteps dt coupling) ((seeded h).permuted p) =
      ((List.range nSteps.toNat).foldl (sbaStep J h nSteps dt coupling) (seeded h)).permuted p :=
    List.foldl_hom _ fun s step => sbaStep_permuted p J h nSteps dt coupling s step
  exact congrArg Oscillators.x hrun

end Permuted

/-! ## Negated fields -/

/-- The state on the other side of the origin. -/
def Oscillators.negated (s : Oscillators F n) : Oscillators F n where
  x := -s.x
  y := -s.y

section Negated

variable (J : Fin n → Fin n → F) (h : Fin n → F) (nSteps : ℤ) (dt coupling : F)

omit [LinearOrder F] in
/-- The force is odd: so is the cube of a position. -/
theorem force_neg (step : ℕ) (x : Fin n → F) (i : Fin n) :
    force J (-h) nSteps coupling step (-x) i = -force J h nSteps coupling step x i := by
  have hsum : ∑ j, J i j * (-x) j = -∑ j, J i j * x j := by
    rw [← Finset.sum_neg_distrib]
    exact Finset.sum_congr rfl fun j _ => mul_neg _ _
  rw [force, force, hsum, Pi.neg_apply, Pi.neg_apply]
  ring

variable [IsStrictOrderedRing F]

omit nSteps dt coupling J in
theorem seeded_neg : seeded (-h) = (seeded h).negated := by
  ext i
  · simp only [seeded, Oscillators.negated, Pi.neg_apply, neg_mul]
    exact clipTo_neg (by positivity) _
  · simp only [seeded, Oscillators.negated, Pi.neg_apply, neg_zero]

/-- A step on the other side of the origin, under the negated fields. -/
theorem sbaStep_neg (s : Oscillators F n) (step : ℕ) :
    sbaStep J (-h) nSteps dt coupling s.negated step =
      (sbaStep J h nSteps dt coupling s step).negated := by
  have hforce := force_neg J h nSteps coupling step s.x
  have hy : ∀ i, -s.y i + -force J h nSteps coupling step s.x i * dt =
      -(s.y i + force J h nSteps coupling step s.x i * dt) := by
    intro i
    ring
  ext i
  · have hx : -s.x i + -(s.y i + force J h nSteps coupling step s.x i * dt) * dt =
        -(s.x i + (s.y i + force J h nSteps coupling step s.x i * dt) * dt) := by
      ring
    simp only [sbaStep, Oscillators.negated, Pi.neg_apply, hforce, hy, hx]
    exact clipTo_neg zero_le_one _
  · simp only [sbaStep, Oscillators.negated, Pi.neg_apply, hforce, hy]

/-- Negated fields negate the spins. -/
theorem runSba_neg :
    runSba J (-h) nSteps dt coupling = -runSba J h nSteps dt coupling := by
  have hrun : (List.range nSteps.toNat).foldl (sbaStep J (-h) nSteps dt coupling)
      (seeded h).negated =
      ((List.range nSteps.toNat).foldl (sbaStep J h nSteps dt coupling) (seeded h)).negated :=
    List.foldl_hom _ fun s step => sbaStep_neg J h nSteps dt coupling s step
  rw [runSba, seeded_neg, hrun]
  rfl

end Negated

/-! ## Signals -/

/-- The types of a signal. -/
inductive SignalType
  | buy
  | sell
  | hold
deriving DecidableEq, Repr

/-- The type under the opposite sign convention. -/
def SignalType.opposite : SignalType → SignalType
  | .buy => .sell
  | .sell => .buy
  | .hold => .hold

/-- `score_signal` -/
def scoreSignal (spin rsi : F) : SignalType × F :=
  let rawConfidence := |spin|
  let rsiPenalty := if (0 < spin ∧ 70 < rsi) ∨ (spin < 0 ∧ rsi < 30) then 1 / 4 else 0
  let confidence := max 0 (min 1 (rawConfidence - rsiPenalty))
  if 15 / 100 < spin then (.buy, confidence)
  else if spin < -(15 / 100) then (.sell, confidence)
  else (.hold, confidence)

/-- A negated spin means the opposite. -/
theorem scoreSignal_neg [IsStrictOrderedRing F] (spin rsi : F) :
    (scoreSignal (-spin) rsi).1 = (scoreSignal spin rsi).1.opposite := by
  have hthreshold : (0 : F) < 15 / 100 := by positivity
  rcases lt_or_ge (15 / 100) spin with hhigh | hhigh
  · have hnotBuy : ¬ (15 / 100 : F) < -spin := by linarith
    have hsell : -spin < -(15 / 100 : F) := neg_lt_neg hhigh
    simp only [scoreSignal, if_pos hhigh, if_neg hnotBuy, if_pos hsell, SignalType.opposite]
  · rcases lt_or_ge spin (-(15 / 100)) with hlow | hlow
    · have hbuy : (15 / 100 : F) < -spin := lt_neg.mp hlow
      simp only [scoreSignal, if_pos hbuy, if_neg (not_lt.mpr hhigh), if_pos hlow,
        SignalType.opposite]
    · have hnotBuy : ¬ (15 / 100 : F) < -spin := not_lt.mpr (neg_le.mp hlow)
      have hnotSell : ¬ -spin < -(15 / 100 : F) := not_lt.mpr (neg_le_neg hhigh)
      simp only [scoreSignal, if_neg hnotBuy, if_neg hnotSell, if_neg (not_lt.mpr hhigh),
        if_neg (not_lt.mpr hlow), SignalType.opposite]

/-- Renamed assets have the renamed spins and are bought or sold under their new names; negated
fields have the negated spins, and the same assets are traded the other way round. -/
theorem sba_unbiased [IsStrictOrderedRing F] (J : Fin n → Fin n → F) (h : Fin n → F) (nSteps : ℤ)
    (dt coupling : F) :
    (∀ p : Equiv.Perm (Fin n),
      runSba (fun i j => J (p i) (p j)) (h ∘ p) nSteps dt coupling =
          runSba J h nSteps dt coupling ∘ p ∧
        ∀ i (rsi : Fin n → F),
          scoreSignal (runSba (fun i j => J (p i) (p j)) (h ∘ p) nSteps dt coupling i)
              ((rsi ∘ p) i) =
            scoreSignal (runSba J h nSteps dt coupling (p i)) (rsi (p i))) ∧
      runSba J (-h) nSteps dt coupling = -runSba J h nSteps dt coupling ∧
      ∀ i (rsi : Fin n → F),
        (scoreSignal (runSba J (-h) nSteps dt coupling i) (rsi i)).1 =
          (scoreSignal (runSba J h nSteps dt coupling i) (rsi i)).1.opposite := by
  refine ⟨fun p => ⟨runSba_permuted p J h nSteps dt coupling, fun i rsi => ?_⟩,
    runSba_neg J h nSteps dt coupling, fun i rsi => ?_⟩
  · rw [runSba_permuted]
    rfl
  · rw [runSba_neg, Pi.neg_apply]
    exact scoreSignal_neg _ _

theorem sba_unbiased_pair :
    runSba (F := ℚ) (fun i j => if i = j then 0 else 1 / 4) (-![1 / 5, -1 / 10]) 200 (1 / 20)
        (1 / 2) =
      -runSba (fun i j => if i = j then 0 else 1 / 4) ![1 / 5, -1 / 10] 200 (1 / 20) (1 / 2) :=
  (sba_unbiased (fun i j => if i = j then 0 else 1 / 4) ![1 / 5, -1 / 10] 200 (1 / 20)
    (1 / 2)).2.1

/-! ## The fields of a basket -/

section Basket

variable [RealFunctions F] {T : ℕ}

/-- An entry of `np.corrcoef`, with zero in place of the NaN of a row without variance. -/
def correlationOrZero (a b : Fin T → F) : F :=
  if RealFunctions.sqrt (cov a a) = 0 ∨ RealFunctions.sqrt (cov b b) = 0 then 0 else corrcoef a b

/-- `build_coupling_matrix` -/
def buildCouplingMatrix (returns : Fin n → Fin T → F) (i j : Fin n) : F :=
  if n < 2 then 0
  else (if i = j then 0 else correlationOrZero (returns i) (returns j)) / n

/-- The fields `h` of `generate_signals`: momenta as scores across the assets. -/
def localFields (momentum : Fin n → F) (i : Fin n) : F :=
  let sigma := if 1 < n then RealFunctions.sqrt (cov momentum momentum) else 1 / 10 ^ 9
  let mu := average momentum
  clipTo (-3) 3 ((momentum i - mu) / max sigma (1 / 10 ^ 9)) * (35 / 100)

/-- The array `spins` of `generate_signals`. -/
def spins (returns : Fin n → Fin T → F) (momentum : Fin n → F) : Fin n → F :=
  runSba (buildCouplingMatrix returns) (localFields momentum) 200 (1 / 20) (1 / 2)

/-- The order of the tickers does not matter to their spins. -/
theorem spins_permuted (p : Equiv.Perm (Fin n)) (returns : Fin n → Fin T → F)
    (momentum : Fin n → F) : spins (returns ∘ p) (momentum ∘ p) = spins returns momentum ∘ p := by
  have hcoupling : buildCouplingMatrix (returns ∘ p) =
      fun i j => buildCouplingMatrix returns (p i) (p j) := by
    funext i j
    simp only [buildCouplingMatrix, Function.comp_apply, p.injective.eq_iff]
  have hfields : localFields (momentum ∘ p) = localFields momentum ∘ p := by
    funext i
    simp only [localFields, cov, deviations_comp, average_comp, Function.comp_apply]
  rw [spins, hcoupling, hfields]
  exact runSba_permuted p (buildCouplingMatrix returns) (localFields momentum) 200 (1 / 20) (1 / 2)

end Basket

end QuantumSentinel.Signals
