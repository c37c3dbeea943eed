import Mathlib.Data.Finset.Sort
import QuantumSentinel.Lib.Correlation
import QuantumSentinel.Lib.Ranking

/-!
# Research: rank correlation

`spearman_correlation` of `correlation_engine.py` correlates the positions of the returns
in an `argsort`, `spearman_ic` of `alpha_research.py` the average ranks.
`argsort` is a parameter: an order of the indices in which the numbers ascend, equal numbers
in any order.

Main results:

- Theorem `rank_eq`: `_rank` computes average ranks, whatever `argsort` does.
- Theorem `rank_correlations_agree`: both correlations agree, and do not depend on the order of
  the rows or on the scale of a column, when neither column has equal numbers.
-/

namespace QuantumSentinel.Research

open Lib

variable {F : Type*} [Field F] [LinearOrder F] {n T N : ℕ}

/-! ## The two implementations -/

/-- `ranks[temp] = np.arange(1, n + 1)` -/
def positionalRanks (temp : List (Fin n)) (i : Fin n) : F :=
  position temp i + 1

/-- The ranks of the numbers that equal a value are replaced by their mean, if there are several. -/
def averageTies (arr : Fin n → F) (ranks : Fin n → F) (v : F) : Fin n → F :=
  let mask := Finset.univ.filter fun i => arr i = v
  if 1 < mask.card then
    fun i => if i ∈ mask then (∑ j ∈ mask, ranks j) / mask.card else ranks i
  else ranks

/-- `np.unique(arr)` -/
def uniqueVals (arr : Fin n → F) : List F :=
  (Finset.univ.image arr).sort

/-- `_rank` -/
def rank (argsort : (Fin n → F) → List (Fin n)) (arr : Fin n → F) : Fin n → F :=
  (uniqueVals arr).foldl (averageTies arr) (positionalRanks (argsort arr))

section Correlations

variable [RealFunctions F]

/-- `spearman_ic` -/
def spearmanIc (argsort : (Fin n → F) → List (Fin n)) (signals forwardReturns : Fin n → F) : F :=
  if n < 4 then 0
  else
    let r1 := rank argsort signals
    let r2 := rank argsort forwardReturns
    let den := RealFunctions.sqrt (deviations r1 r1 * deviations r2 r2)
    if den < 1 / 10 ^ 12 then 0 else deviations r1 r2 / den

/-- `spearman_correlation` -/
def spearmanCorrelation (argsort : (Fin T → F) → List (Fin T)) (returns : Fin T → Fin N → F) :
    Fin N → Fin N → F :=
  if T < 3 then fun j k => if j = k then 1 else 0
  else
    let ranked : Fin N → Fin T → F := fun j => positionalRanks (argsort fun t => returns t j)
    fun j k => corrcoef (ranked j) (ranked k)

end Correlations

/-! ## Average ranks -/

theorem averageTies_apply (arr ranks : Fin n → F) (v : F) (i : Fin n) :
    averageTies arr ranks v i =
      if arr i = v then (∑ j ∈ ties arr i, ranks j) / (ties arr i).card else ranks i := by
  by_cases hv : arr i = v
  · have hmask : (Finset.univ.filter fun j => arr j = v) = ties arr i := by rw [ties, hv]
    have hi : i ∈ ties arr i := self_mem_ties i
    rw [if_pos hv, averageTies, hmask]
    split
    · exact if_pos hi
    · rename_i hcard
      have hpos := Finset.card_pos.mpr ⟨i, hi⟩
      have hone : (ties arr i).card = 1 := by omega
      obtain ⟨k, hk⟩ := Finset.card_eq_one.mp hone
      rw [hk, Finset.mem_singleton] at hi
      rw [hk, hi, Finset.sum_singleton, Finset.card_singleton, Nat.cast_one, div_one]
  · rw [if_neg hv, averageTies]
    split
    · exact if_neg (by simpa using hv)
    · rfl

/-- The loop over the values averages the ranks of each class of equal numbers once. -/
theorem foldl_averageTies (arr : Fin n → F) {vs : List F} (hnodup : vs.Nodup) (ranks : Fin n → F)
    (i : Fin n) :
    vs.foldl (averageTies arr) ranks i =
      if arr i ∈ vs then (∑ j ∈ ties arr i, ranks j) / (ties arr i).card else ranks i := by
  induction vs generalizing ranks with
  | nil => simp
  | cons v rest ih =>
    obtain ⟨hv, hrest⟩ := List.nodup_cons.mp hnodup
    rw [List.foldl_cons, ih hrest]
    by_cases hi : arr i ∈ rest
    · have hne : arr i ≠ v := fun h => hv (h ▸ hi)
      have hsame : ∀ j ∈ ties arr i, averageTies arr ranks v j = ranks j := by
        intro j hj
        rw [averageTies_apply, if_neg (mem_ties.mp hj ▸ hne)]
      rw [if_pos hi, if_pos (List.mem_cons_of_mem v hi), Finset.sum_congr rfl hsame]
    · simp only [hi, if_false, averageTies_apply, List.mem_cons, or_false]

/-- `_rank` computes average ranks, whatever the order of equal numbers. -/
theorem rank_eq [CharZero F] {argsort : (Fin n → F) → List (Fin n)} {arr : Fin n → F}
    (h : IsArgsort (· ≤ ·) arr (argsort arr)) : rank argsort arr = averageRank arr := by
  funext i
  have hmem : arr i ∈ uniqueVals arr := by
    rw [uniqueVals, Finset.mem_sort]
    exact Finset.mem_image_of_mem arr (Finset.mem_univ i)
  have hnodup : (uniqueVals arr).Nodup := Finset.sort_nodup _ _
  rw [rank, foldl_averageTies arr hnodup, if_pos hmem]
  exact h.mean_position i

/-! ## Two columns of a matrix -/

/-- A function applied to one column. -/
def rescaled (returns : Fin T → Fin N → F) (l : Fin N) (f : F → F) : Fin T → Fin N → F :=
  fun t m => if m = l then f (returns t m) else returns t m

/-- Both correlations of two columns are the same, and do not change when rows are permuted or a
column is rescaled. -/
structure Agreement [RealFunctions F] (argsort : (Fin T → F) → List (Fin T))
    (returns : Fin T → Fin N → F) (j k : Fin N) : Prop where
  same : spearmanCorrelation argsort returns j k =
    spearmanIc argsort (fun t => returns t j) (fun t => returns t k)
  rows : ∀ σ : Equiv.Perm (Fin T), spearmanCorrelation argsort (returns ∘ σ) j k =
    spearmanCorrelation argsort returns j k
  rows_ic : ∀ σ : Equiv.Perm (Fin T),
    spearmanIc argsort (fun t => returns (σ t) j) (fun t => returns (σ t) k) =
      spearmanIc argsort (fun t => returns t j) (fun t => returns t k)
  scale : ∀ l f, StrictMono f →
    spearmanCorrelation argsort (rescaled returns l f) j k = spearmanCorrelation argsort returns j k
  scale_ic : ∀ l f, StrictMono f →
    spearmanIc argsort (fun t => rescaled returns l f t j) (fun t => rescaled returns l f t k) =
      spearmanIc argsort (fun t => returns t j) (fun t => returns t k)

/-- What `argsort` promises: an order in which the numbers ascend. -/
def Sorts (argsort : (Fin T → F) → List (Fin T)) : Prop :=
  ∀ v, IsArgsort (· ≤ ·) v (argsort v)

/-- Rescaling a column keeps average ranks. -/
theorem averageRank_rescaled [CharZero F] (returns : Fin T → Fin N → F) (l m : Fin N) {f : F → F}
    (hf : StrictMono f) :
    averageRank (F := F) (fun t => rescaled returns l f t m) =
      averageRank fun t => returns t m := by
  by_cases hm : m = l
  · simp only [rescaled, if_pos hm]
    exact averageRank_strictMono hf fun t => returns t m
  · simp only [rescaled, if_neg hm]

omit [Field F] in
/-- Rescaling a column makes no numbers equal. -/
theorem injective_rescaled (returns : Fin T → Fin N → F) (l m : Fin N) {f : F → F}
    (hf : StrictMono f) (hinj : Function.Injective fun t => returns t m) :
    Function.Injective fun t => rescaled returns l f t m := by
  by_cases hm : m = l
  · simp only [rescaled, if_pos hm]
    exact hf.injective.comp hinj
  · simpa only [rescaled, if_neg hm] using hinj

section Real

variable {argsort : (Fin T → ℝ) → List (Fin T)}

/-! ## The correlation of average ranks -/

/-- The coefficient of two rows of average ranks. -/
noncomputable def rankCoefficient (r1 r2 : Fin T → ℝ) : ℝ :=
  let den := Real.sqrt (deviations r1 r1 * deviations r2 r2)
  if den < 1 / 10 ^ 12 then 0 else deviations r1 r2 / den

theorem spearmanIc_eq (hT : 4 ≤ T) (hsort : Sorts argsort) (x y : Fin T → ℝ) :
    spearmanIc argsort x y = rankCoefficient (averageRank x) (averageRank y) := by
  rw [spearmanIc, if_neg (by omega), rank_eq (hsort x), rank_eq (hsort y)]
  rfl

theorem spearmanCorrelation_eq (hT : 4 ≤ T) (returns : Fin T → Fin N → ℝ) (j k : Fin N) :
    spearmanCorrelation argsort returns j k =
      corrcoef (positionalRanks (argsort fun t => returns t j))
        (positionalRanks (argsort fun t => returns t k)) := by
  rw [spearmanCorrelation, if_neg (by omega)]

/-- Without equal numbers, the positions are the average ranks. -/
theorem positionalRanks_eq (hsort : Sorts argsort) {x : Fin T → ℝ} (hx : Function.Injective x) :
    positionalRanks (argsort x) = averageRank (F := ℝ) x := by
  funext i
  exact (hsort x).position_add_one hx i

/-- Different positions are at least one apart. -/
theorem deviations_positionalRanks {keys : Fin T → ℝ} {temp : List (Fin T)} (hT : 4 ≤ T)
    (h : IsArgsort (· ≤ ·) keys temp) :
    1 / 2 ≤ deviations (positionalRanks (F := ℝ) temp) (positionalRanks temp) := by
  obtain ⟨i, j, hij⟩ : ∃ i j : Fin T, i ≠ j :=
    ⟨⟨0, by omega⟩, ⟨1, by omega⟩, by simp⟩
  have hne : (position temp i : ℤ) - position temp j ≠ 0 := by
    have hpos := h.position_injective.ne hij
    omega
  have hsquare : (1 : ℤ) ≤ ((position temp i : ℤ) - position temp j) ^ 2 := by
    have hpos : 0 < ((position temp i : ℤ) - position temp j) ^ 2 := by positivity
    omega
  have hreal : (1 : ℝ) ≤ (positionalRanks temp i - positionalRanks temp j) ^ 2 := by
    have hcast : ((1 : ℤ) : ℝ) ≤ (((position temp i : ℤ) - position temp j) ^ 2 : ℤ) := by
      exact_mod_cast hsquare
    push_cast at hcast
    simpa [positionalRanks] using hcast
  have hge := deviations_ge (positionalRanks (F := ℝ) temp) hij
  linarith

/-- The floor of the denominator is not reached. -/
theorem corrcoef_eq_rankCoefficient (hT : 4 ≤ T) {r1 r2 : Fin T → ℝ}
    (h1 : 1 / 2 ≤ deviations r1 r1) (h2 : 1 / 2 ≤ deviations r2 r2) :
    corrcoef r1 r2 = rankCoefficient r1 r2 := by
  have hproduct : (1 / 10 ^ 12 : ℝ) ^ 2 ≤ deviations r1 r1 * deviations r2 r2 := by
    have hquarter : (1 / 2 : ℝ) * (1 / 2) ≤ deviations r1 r1 * deviations r2 r2 := by gcongr
    refine le_trans ?_ hquarter
    norm_num
  have hfloor := Real.le_sqrt_of_sq_le hproduct
  rw [corrcoef_eq _ _ (by omega), rankCoefficient, if_neg (not_lt.mpr hfloor),
    Real.sqrt_mul (deviations_self_nonneg r1)]

/-- The order of the rows does not matter for average ranks. -/
theorem rankCoefficient_comp (x y : Fin T → ℝ) (σ : Equiv.Perm (Fin T)) :
    rankCoefficient (averageRank (x ∘ σ)) (averageRank (y ∘ σ)) =
      rankCoefficient (averageRank x) (averageRank y) := by
  simp only [averageRank_comp, rankCoefficient, deviations_comp]

/-- Without equal numbers, the entry of the matrix is the coefficient of the average ranks. -/
theorem spearmanCorrelation_of_injective (hT : 4 ≤ T) (hsort : Sorts argsort)
    (returns : Fin T → Fin N → ℝ) {j k : Fin N} (hj : Function.Injective fun t => returns t j)
    (hk : Function.Injective fun t => returns t k) :
    spearmanCorrelation argsort returns j k =
      rankCoefficient (averageRank fun t => returns t j) (averageRank fun t => returns t k) := by
  rw [spearmanCorrelation_eq hT, corrcoef_eq_rankCoefficient hT
    (deviations_positionalRanks hT (hsort _)) (deviations_positionalRanks hT (hsort _)),
    positionalRanks_eq hsort hj, positionalRanks_eq hsort hk]

/-- Without equal numbers, both correlations agree, and permuting rows or rescaling columns does not
change them. -/
theorem agreement_of_injective (hT : 4 ≤ T) (hsort : Sorts argsort) (returns : Fin T → Fin N → ℝ)
    {j k : Fin N} (hj : Function.Injective fun t => returns t j)
    (hk : Function.Injective fun t => returns t k) : Agreement argsort returns j k where
  same := by
    rw [spearmanCorrelation_of_injective hT hsort returns hj hk, spearmanIc_eq hT hsort]
  rows σ := by
    rw [spearmanCorrelation_of_injective hT hsort returns hj hk,
      spearmanCorrelation_of_injective hT hsort (returns ∘ σ) (hj.comp σ.injective)
        (hk.comp σ.injective)]
    exact rankCoefficient_comp (fun t => returns t j) (fun t => returns t k) σ
  rows_ic σ := by
    rw [spearmanIc_eq hT hsort, spearmanIc_eq hT hsort]
    exact rankCoefficient_comp (fun t => returns t j) (fun t => returns t k) σ
  scale l f hf := by
    rw [spearmanCorrelation_of_injective hT hsort returns hj hk,
      spearmanCorrelation_of_injective hT hsort _ (injective_rescaled returns l j hf hj)
        (injective_rescaled returns l k hf hk), averageRank_rescaled returns l j hf,
      averageRank_rescaled returns l k hf]
  scale_ic l f hf := by
    rw [spearmanIc_eq hT hsort, spearmanIc_eq hT hsort, averageRank_rescaled returns l j hf,
      averageRank_rescaled returns l k hf]

/-! ## Equal numbers -/

/-- Exchanging equal numbers in an order is another order of the numbers. -/
theorem exchanged_isArgsort {x : Fin T → ℝ} {temp : List (Fin T)} (h : IsArgsort (· ≤ ·) x temp)
    {a b : Fin T} (hab : x a = x b) : IsArgsort (· ≤ ·) x (temp.map (Equiv.swap a b)) := by
  have hmap := h.map_perm (Equiv.swap a b)
  have hkeys : x ∘ (Equiv.swap a b).symm = x := by
    funext i
    rw [Equiv.symm_swap, Function.comp_apply, Equiv.swap_apply_def]
    split
    · rename_i hi
      rw [hi, hab]
    · split
      · rename_i hi
        rw [hi, hab]
      · rfl
  rwa [hkeys] at hmap

/-- Exchanging two numbers in an order exchanges their positions. -/
theorem positionalRanks_exchanged (temp : List (Fin T)) (a b : Fin T) :
    positionalRanks (F := ℝ) (temp.map (Equiv.swap a b)) =
      positionalRanks temp ∘ Equiv.swap a b := by
  funext i
  have hmove := position_map temp (Equiv.swap a b) (Equiv.swap a b i)
  rw [Equiv.swap_apply_self] at hmove
  rw [positionalRanks, hmove, Function.comp_apply, positionalRanks]

/-- The order of two equal numbers of a column matters. -/
theorem corrcoef_exchanged_ne (hT : 4 ≤ T) {x y : Fin T → ℝ} {tempX tempY : List (Fin T)}
    (hx : IsArgsort (· ≤ ·) x tempX) (hy : IsArgsort (· ≤ ·) y tempY) {a b : Fin T} (hab : a ≠ b) :
    corrcoef (positionalRanks (F := ℝ) (tempX.map (Equiv.swap a b))) (positionalRanks tempY) ≠
      corrcoef (positionalRanks tempX) (positionalRanks tempY) := by
  intro heq
  have hdx := deviations_positionalRanks hT hx
  have hdy := deviations_positionalRanks hT hy
  have hpos : 0 < Real.sqrt (deviations (positionalRanks (F := ℝ) tempX) (positionalRanks tempX)) *
      Real.sqrt (deviations (positionalRanks (F := ℝ) tempY) (positionalRanks tempY)) :=
    mul_pos (Real.sqrt_pos.mpr (by linarith)) (Real.sqrt_pos.mpr (by linarith))
  rw [positionalRanks_exchanged, corrcoef_eq _ _ (by omega), corrcoef_eq _ _ (by omega),
    deviations_comp, div_left_inj' hpos.ne', deviations_comp_swap _ _ hab, add_eq_left] at heq
  have hranks : ∀ {z : Fin T → ℝ} {temp : List (Fin T)}, IsArgsort (· ≤ ·) z temp →
      ∀ {c d : Fin T}, c ≠ d → positionalRanks (F := ℝ) temp c - positionalRanks temp d ≠ 0 := by
    intro z temp h c d hcd hzero
    have hcast : (position temp c : ℝ) = position temp d := by
      simpa [positionalRanks, sub_eq_zero] using hzero
    exact hcd (h.position_injective (by exact_mod_cast hcast))
  exact mul_ne_zero (hranks hx hab.symm) (hranks hy hab) heq

/-- An `argsort` with another order for one row of numbers. -/
theorem sorts_update (hsort : Sorts argsort) {z : Fin T → ℝ} {temp : List (Fin T)}
    (h : IsArgsort (· ≤ ·) z temp) : Sorts (Function.update argsort z temp) := by
  intro v
  by_cases hv : v = z
  · subst hv
    rwa [Function.update_self]
  · rw [Function.update_of_ne hv]
    exact hsort v

/-- `argsort` that keeps equal numbers in place. -/
noncomputable def stable (v : Fin T → ℝ) : List (Fin T) :=
  stableArgsort (· ≤ ·) v

theorem stable_sorts : Sorts (stable (T := T)) :=
  fun v => stableArgsort_isArgsort (· ≤ ·) le_total (fun _ _ _ => le_trans) v

/-- A shift of a column that makes it differ from two others. -/
theorem exists_shift (x y : Fin T → ℝ) (i : Fin T) :
    ∃ c : ℝ, (fun t => x t + c) ≠ x ∧ (fun t => x t + c) ≠ y := by
  have hself : ∀ c : ℝ, c ≠ 0 → (fun t => x t + c) ≠ x := by
    intro c hc h
    exact hc (add_eq_left.mp (congrFun h i))
  by_cases hy : (fun t => x t + 1) = y
  · refine ⟨2, hself 2 two_ne_zero, ?_⟩
    rw [← hy]
    intro h
    have hi := congrFun h i
    norm_num at hi
  · exact ⟨1, hself 1 one_ne_zero, hy⟩

/-- With equal numbers in a column, some `argsort` makes the entry depend on the scale of that
column. -/
theorem not_scale_of_tie (hT : 4 ≤ T) (returns : Fin T → Fin N → ℝ) {j k : Fin N} (hjk : j ≠ k)
    {a b : Fin T} (hab : a ≠ b) (htie : returns a j = returns b j) :
    ∃ argsort, Sorts argsort ∧ ∃ f, StrictMono f ∧
      spearmanCorrelation argsort (rescaled returns j f) j k ≠
        spearmanCorrelation argsort returns j k := by
  obtain ⟨c, hx, hy⟩ := exists_shift (fun t => returns t j) (fun t => returns t k) a
  have hmono : StrictMono fun v : ℝ => v + c := fun _ _ h => by linarith
  let z : Fin T → ℝ := fun t => returns t j + c
  have hz := exchanged_isArgsort (stable_sorts z) (show z a = z b by simp only [z, htie])
  have hentry : ∀ argsort : (Fin T → ℝ) → List (Fin T),
      spearmanCorrelation argsort (rescaled returns j fun v => v + c) j k =
        corrcoef (positionalRanks (argsort z)) (positionalRanks (argsort fun t => returns t k)) := by
    intro argsort
    rw [spearmanCorrelation_eq hT]
    simp only [rescaled, if_true, if_neg hjk.symm]
    rfl
  by_cases hsame : spearmanCorrelation stable (rescaled returns j fun v => v + c) j k =
      spearmanCorrelation stable returns j k
  · -- The other order of the two equal numbers, for the shifted column only.
    refine ⟨Function.update stable z ((stable z).map (Equiv.swap a b)), sorts_update stable_sorts hz,
      fun v => v + c, hmono, ?_⟩
    rw [hentry, spearmanCorrelation_eq hT] at hsame
    rw [hentry, spearmanCorrelation_eq hT, Function.update_self, Function.update_of_ne hy.symm,
      Function.update_of_ne hx.symm, ← hsame]
    exact corrcoef_exchanged_ne hT (stable_sorts z) (stable_sorts _) hab
  · exact ⟨stable, stable_sorts, fun v => v + c, hmono, hsame⟩

theorem spearmanCorrelation_comm (hT : 4 ≤ T) (returns : Fin T → Fin N → ℝ) (j k : Fin N) :
    spearmanCorrelation argsort returns j k = spearmanCorrelation argsort returns k j := by
  rw [spearmanCorrelation_eq hT, spearmanCorrelation_eq hT, corrcoef_comm]

/-- For every `argsort`, both correlations of two columns agree and do not depend on the order
of the rows or on the scale of a column, exactly when neither column has equal numbers. -/
theorem rank_correlations_agree (hT : 4 ≤ T) (returns : Fin T → Fin N → ℝ) {j k : Fin N}
    (hjk : j ≠ k) :
    (∀ argsort : (Fin T → ℝ) → List (Fin T), Sorts argsort → Agreement argsort returns j k) ↔
      (Function.Injective fun t => returns t j) ∧ Function.Injective fun t => returns t k := by
  constructor
  · intro h
    refine ⟨fun a b htie => ?_, fun a b htie => ?_⟩
    · by_contra hab
      obtain ⟨argsort, hsort, f, hf, hne⟩ := not_scale_of_tie hT returns hjk hab htie
      exact hne ((h argsort hsort).scale j f hf)
    · by_contra hab
      obtain ⟨argsort, hsort, f, hf, hne⟩ := not_scale_of_tie hT returns hjk.symm hab htie
      refine hne ?_
      rw [spearmanCorrelation_comm hT, spearmanCorrelation_comm hT returns k j]
      exact (h argsort hsort).scale k f hf
  · rintro ⟨hj, hk⟩ argsort hsort
    exact agreement_of_injective hT hsort returns hj hk

/-! ## A column with equal numbers -/

/-- Four rows of two columns; the first column has two pairs of equal numbers. -/
def tiedRows : Fin 2 → Fin 4 → ℕ :=
  ![![0, 0, 1, 1], ![0, 3, 1, 2]]

/-- The rows as a return matrix. -/
def tiedReturns (t : Fin 4) (m : Fin 2) : ℝ :=
  tiedRows m t

theorem averageRank_tied (m : Fin 2) (i : Fin 4) :
    averageRank (F := ℝ) (fun t => tiedReturns t m) i =
      below (tiedRows m) i + ((ties (tiedRows m) i).card + 1) / 2 := by
  have hmono : StrictMono (Nat.cast : ℕ → ℝ) := Nat.strictMono_cast
  exact congrFun (averageRank_strictMono hmono (tiedRows m)) i

/-- The average ranks of the first column. -/
theorem averageRank_tied_zero :
    averageRank (F := ℝ) (fun t => tiedReturns t 0) = ![3 / 2, 3 / 2, 7 / 2, 7 / 2] := by
  have hbelow : below (tiedRows 0) = ![0, 0, 2, 2] := by decide
  have hties : (fun i => (ties (tiedRows 0) i).card) = ![2, 2, 2, 2] := by decide
  funext i
  rw [averageRank_tied, hbelow, congrFun hties i]
  fin_cases i <;> norm_num

/-- The average ranks of the second column. -/
theorem averageRank_tied_one :
    averageRank (F := ℝ) (fun t => tiedReturns t 1) = ![1, 4, 2, 3] := by
  have hbelow : below (tiedRows 1) = ![0, 3, 1, 2] := by decide
  have hties : (fun i => (ties (tiedRows 1) i).card) = ![1, 1, 1, 1] := by decide
  funext i
  rw [averageRank_tied, hbelow, congrFun hties i]
  fin_cases i <;> norm_num

/-- The average ranks of the two columns are not correlated. -/
theorem spearmanIc_tied {argsort : (Fin 4 → ℝ) → List (Fin 4)} (hsort : Sorts argsort) :
    spearmanIc argsort (fun t => tiedReturns t 0) (fun t => tiedReturns t 1) = 0 := by
  have hzero : deviations ![3 / 2, 3 / 2, 7 / 2, 7 / 2] ![(1 : ℝ), 4, 2, 3] = 0 := by
    norm_num [deviations, average, Fin.sum_univ_succ]
  rw [spearmanIc_eq le_rfl hsort, averageRank_tied_zero, averageRank_tied_one, rankCoefficient,
    hzero, zero_div, ite_self]

/-- The positions of two pairs of equal numbers. -/
theorem position_tied {temp : List (Fin 4)}
    (h : IsArgsort (· ≤ ·) (fun t => tiedReturns t 0) temp) :
    (position temp 0 = 0 ∧ position temp 1 = 1 ∨ position temp 0 = 1 ∧ position temp 1 = 0) ∧
      (position temp 2 = 2 ∧ position temp 3 = 3 ∨ position temp 2 = 3 ∧ position temp 3 = 2) := by
  have hmono : StrictMono (Nat.cast : ℕ → ℝ) := Nat.strictMono_cast
  have hbelow : ∀ i, ![0, 0, 2, 2] i ≤ position temp i := by
    intro i
    have hvalues : below (tiedRows 0) = ![0, 0, 2, 2] := by decide
    rw [← hvalues, ← below_strictMono hmono]
    exact h.below_le_position i
  have habove : ∀ i, position temp i + ![2, 2, 0, 0] i < 4 := by
    intro i
    have hvalues : above (tiedRows 0) = ![2, 2, 0, 0] := by decide
    rw [← hvalues, ← above_strictMono hmono]
    exact h.above_lt i
  have h01 := h.position_injective.ne (show (0 : Fin 4) ≠ 1 by decide)
  have h23 := h.position_injective.ne (show (2 : Fin 4) ≠ 3 by decide)
  have h0 := habove 0
  have h1 := habove 1
  have h2 := hbelow 2
  have h2' := habove 2
  have h3 := hbelow 3
  have h3' := habove 3
  simp at h0 h1 h2 h2' h3 h3'
  omega

/-- The positions in the two columns are correlated in every order. -/
theorem spearmanCorrelation_tied_ne {argsort : (Fin 4 → ℝ) → List (Fin 4)}
    (hsort : Sorts argsort) : spearmanCorrelation argsort tiedReturns 0 1 ≠ 0 := by
  have hx := hsort fun t => tiedReturns t 0
  have hinj : Function.Injective fun t => tiedReturns t 1 := by
    refine Nat.cast_injective.comp (f := tiedRows 1) ?_
    decide
  have hdx := deviations_positionalRanks le_rfl hx
  have hdy := deviations_positionalRanks le_rfl (hsort fun t => tiedReturns t 1)
  rw [spearmanCorrelation_eq le_rfl, corrcoef_eq _ _ (by norm_num)]
  refine div_ne_zero ?_ (mul_ne_zero (Real.sqrt_ne_zero'.mpr (by linarith))
    (Real.sqrt_ne_zero'.mpr (by linarith)))
  rw [positionalRanks_eq hsort hinj, averageRank_tied_one]
  have hrank2 : (![1, 4, 2, 3] : Fin 4 → ℝ) 2 = 2 := rfl
  have hrank3 : (![1, 4, 2, 3] : Fin 4 → ℝ) 3 = 3 := rfl
  obtain ⟨⟨h0, h1⟩ | ⟨h0, h1⟩, ⟨h2, h3⟩ | ⟨h2, h3⟩⟩ := position_tied hx
  all_goals
    norm_num [deviations, average, positionalRanks, Fin.sum_univ_four, h0, h1, h2, h3, hrank2,
      hrank3]

/-- With two pairs of equal numbers, the two implementations differ. -/
theorem tied_disagreement :
    spearmanCorrelation stable tiedReturns 0 1 ≠
      spearmanIc stable (fun t => tiedReturns t 0) (fun t => tiedReturns t 1) := by
  rw [spearmanIc_tied stable_sorts]
  exact spearmanCorrelation_tied_ne stable_sorts

/-- Four rows of two columns without equal numbers. -/
def distinctReturns (t : Fin 4) (_ : Fin 2) : ℝ :=
  t.val

/-- Four rows without equal numbers. -/
theorem rank_correlations_agree_distinct :
    (∀ argsort, Sorts argsort → Agreement argsort distinctReturns 0 1) ↔
      (Function.Injective fun t => distinctReturns t 0) ∧
        Function.Injective fun t => distinctReturns t 1 :=
  rank_correlations_agree le_rfl distinctReturns (by decide)

end Real

end QuantumSentinel.Research
