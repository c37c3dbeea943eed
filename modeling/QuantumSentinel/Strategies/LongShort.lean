import Mathlib.Algebra.BigOperators.Field
import Mathlib.Algebra.Order.BigOperators.Group.Finset
import Mathlib.Tactic.FieldSimp
import Mathlib.Tactic.Linarith
import Mathlib.Tactic.Ring
import QuantumSentinel.Lib.Ranking
import QuantumSentinel.Lib.RealFunctions

/-!
# Strategies: long/short equity

`long_short_equity` of `neutral_strategies.py` ranks the assets of a row of signals, holds
the top of the ranking long and the bottom short, and scales the weights to a target volatility.
`argsort` is a parameter: an order of the indices in which the signals ascend, missing signals
last.

Main results:

- Definition `Setup.rebalance`: the weights of one period.
- Definition `Setup.longShortEquity`: all periods, and the figures of the report.
- Theorem `Setup.selection_iff`: the selection is the intended one in those periods whose
  signals are all there.

Current gaps:

- Returns and weights are exact; the figures of the report are not rounded.
- A count of zero positions, which divides by zero, is not modeled.
-/

namespace QuantumSentinel.Strategies

open Lib

variable {F : Type*}

/-! ## Signals -/

/-- A float of a row of signals. -/
inductive Entry (F : Type*)
  | nan
  | negInf
  | finite (x : F)
  | posInf
deriving DecidableEq

namespace Entry

/-- `np.isfinite` -/
def isFinite : Entry F → Bool
  | finite _ => true
  | _ => false

/-- The order of `argsort`: missing signals come last. -/
def le [LE F] : Entry F → Entry F → Prop
  | _, nan => True
  | nan, _ => False
  | negInf, _ => True
  | _, negInf => False
  | _, posInf => True
  | posInf, _ => False
  | finite x, finite y => x ≤ y

instance [LE F] [DecidableLE F] : DecidableRel (le : Entry F → Entry F → Prop) := fun a b =>
  match a, b with
  | nan, nan | negInf, nan | finite _, nan | posInf, nan => inferInstanceAs (Decidable True)
  | nan, negInf | nan, finite _ | nan, posInf => inferInstanceAs (Decidable False)
  | negInf, negInf | negInf, finite _ | negInf, posInf => inferInstanceAs (Decidable True)
  | finite _, negInf | posInf, negInf => inferInstanceAs (Decidable False)
  | finite _, posInf | posInf, posInf => inferInstanceAs (Decidable True)
  | posInf, finite _ => inferInstanceAs (Decidable False)
  | finite x, finite y => inferInstanceAs (Decidable (x ≤ y))

@[simp]
theorem finite_le_finite [LE F] {x y : F} : le (finite x) (finite y) ↔ x ≤ y :=
  Iff.rfl

theorem le_refl [Preorder F] (a : Entry F) : le a a := by
  cases a <;> simp [le]

theorem le_total [LinearOrder F] (a b : Entry F) : le a b ∨ le b a := by
  cases a <;> cases b <;> simp [le, LinearOrder.le_total]

theorem le_trans [Preorder F] {a b c : Entry F} (hab : le a b) (hbc : le b c) : le a c := by
  cases a <;> cases b <;> cases c <;> simp_all [le]
  exact hab.trans hbc

/-- What lies between two signals that are there is there. -/
theorem isFinite_of_between [LE F] {a b c : Entry F} (hab : le a b) (hbc : le b c)
    (ha : a.isFinite = true) (hc : c.isFinite = true) : b.isFinite = true := by
  cases a <;> cases b <;> cases c <;> simp_all [le, isFinite]

end Entry

/-! ## Lists of numbers -/

section Lists

variable [Field F] [LinearOrder F]

/-- `np.cumprod` -/
def cumprod (xs : List F) : List F :=
  (xs.scanl (· * ·) 1).tail

/-- `np.maximum.accumulate` -/
def runningMax : List F → List F
  | [] => []
  | x :: xs => xs.scanl max x

/-- `xs.min()` of a list that is not empty. -/
def minimum : List F → F
  | [] => 0
  | x :: xs => xs.foldl min x

end Lists

/-! ## The strategy -/

/-- The parameters of `long_short_equity`. -/
structure Setup (F : Type*) where
  nLong : ℕ
  nShort : ℕ
  volScale : Bool
  targetVol : F

/-- What the loop over the periods carries. -/
structure LongShort (F : Type*) (N : ℕ) where
  portfolioReturns : List F
  turnover : List F
  prevWeights : Fin N → F

/-- What `long_short_equity` reports. -/
structure Report (F : Type*) where
  annualReturn : F
  annualVolatility : F
  sharpeRatio : F
  maxDrawdown : F
  avgDailyTurnover : F
  nPeriods : ℕ
  portfolioReturns : List F
  monthlyReturns : List F

/-- How many signals of a row are there. -/
def validCount {N : ℕ} (sig : Fin N → Entry F) : ℕ :=
  (Finset.univ.filter fun i => (sig i).isFinite = true).card

section Strategy

variable [Field F] [LinearOrder F] {N : ℕ}

/-- `weights[idx] = value` -/
def assign (weights : Fin N → F) (idx : List (Fin N)) (value : F) : Fin N → F :=
  fun i => if i ∈ idx then value else weights i

/-- `np.abs(weights).sum()` -/
def grossExposure (weights : Fin N → F) : F :=
  ∑ i, |weights i|

/-- The weights over their gross exposure. -/
def normalised (weights : Fin N → F) : Fin N → F :=
  if 1 / 10 ^ 9 < grossExposure weights then fun i => weights i / grossExposure weights else weights

/-- The returns that some weights would have had in the periods from one to another. -/
def histRets (returns : ℕ → Fin N → F) (prevWeights : Fin N → F) (lo hi : ℕ) : List F :=
  (List.range' lo (hi - lo)).map fun s => ∑ i, returns s i * prevWeights i

namespace Setup

variable (p : Setup F)

/-- `ranked_idx[:n_short]` -/
def shortIdx (rankedIdx : List (Fin N)) : List (Fin N) :=
  rankedIdx.take p.nShort

/-- `ranked_idx[-n_long:]` -/
def longIdx (rankedIdx : List (Fin N)) : List (Fin N) :=
  rankedIdx.drop (rankedIdx.length - p.nLong)

/-- The weights before any scaling. -/
def rawWeights (rankedIdx : List (Fin N)) : Fin N → F :=
  assign (assign (fun _ => 0) (p.longIdx rankedIdx) (1 / p.nLong)) (p.shortIdx rankedIdx)
    (-1 / p.nShort)

/-- The factor of the volatility scaling in a period. -/
def volFactor [RealFunctions F] (returns : ℕ → Fin N → F) (prevWeights : Fin N → F) (t : ℕ) : F :=
  if p.volScale = true ∧ 22 ≤ t then
    let histVol := std (histRets returns prevWeights (t - 21) t) 1 * RealFunctions.sqrt 252
    if 1 / 10 ^ 9 < histVol then min (p.targetVol / histVol) 3 else 1
  else 1

/-- The weights of a period, when there are enough signals to invest. -/
def rebalance [RealFunctions F] (argsort : (Fin N → Entry F) → List (Fin N))
    (sig : Fin N → Entry F) (returns : ℕ → Fin N → F) (prevWeights : Fin N → F) (t : ℕ) :
    Option (Fin N → F) :=
  if validCount sig < p.nLong + p.nShort + 2 then none
  else
    some fun i =>
      normalised (p.rawWeights (argsort sig)) i * p.volFactor returns prevWeights t

variable [RealFunctions F] (argsort : (Fin N → Entry F) → List (Fin N))
  (signals : ℕ → Fin N → Entry F) (returns : ℕ → Fin N → F)

/-- One period of the loop. -/
def step (s : LongShort F N) (t : ℕ) : LongShort F N :=
  match p.rebalance argsort (signals (t - 1)) returns s.prevWeights t with
  | none =>
    { s with
      portfolioReturns := s.portfolioReturns ++ [0]
      turnover := s.turnover ++ [0] }
  | some weights =>
    { portfolioReturns := s.portfolioReturns ++ [∑ i, returns t i * weights i]
      turnover := s.turnover ++ [(∑ i, |weights i - s.prevWeights i|) / 2]
      prevWeights := weights }

/-- The periods from the first up to one. -/
def periods (t : ℕ) : LongShort F N :=
  (List.range' 1 (t - 1)).foldl (p.step argsort signals returns) ⟨[], [], fun _ => 0⟩

/-- The weights of a period in which the strategy invests. -/
def weightsAt (t : ℕ) : Option (Fin N → F) :=
  p.rebalance argsort (signals (t - 1)) returns (p.periods argsort signals returns t).prevWeights t

/-- The figures of `long_short_equity` from the returns and the turnover of all periods. -/
def report (s : LongShort F N) : Option (Report F) :=
  let validPr := s.portfolioReturns
  if validPr.length < 10 then none
  else
    let annRet := mean validPr * 252
    let annVol := std validPr 1 * RealFunctions.sqrt 252
    let cum := cumprod (validPr.map (1 + ·))
    let dd := List.zipWith (fun c m => (c - m) / max m (1 / 10 ^ 9)) cum (runningMax cum)
    some
      { annualReturn := annRet
        annualVolatility := annVol
        sharpeRatio := annRet / max annVol (1 / 10 ^ 9)
        maxDrawdown := minimum dd
        avgDailyTurnover := mean s.turnover
        nPeriods := validPr.length
        portfolioReturns := validPr.drop (validPr.length - 252)
        monthlyReturns := (List.range (validPr.length / 21)).map fun i =>
          (((validPr.drop (i * 21)).take 21).map (1 + ·)).prod - 1 }

/-- `long_short_equity` of matrices with a number of rows. -/
def longShortEquity (T : ℕ) : Option (Report F) :=
  report (p.periods argsort signals returns T)

end Setup

end Strategy

/-! ## The weights of a ranking -/

/-- A sum over assets with one value on some of them, another on others, and zero elsewhere. -/
theorem sum_two_sided [Field F] {N : ℕ} (S L : Finset (Fin N)) (hdisjoint : Disjoint S L)
    (a b : F) :
    (∑ i, if i ∈ S then a else if i ∈ L then b else 0) = S.card * a + L.card * b := by
  have hsplit : ∀ i, (if i ∈ S then a else if i ∈ L then b else 0) =
      (if i ∈ S then a else 0) + if i ∈ L then b else 0 := by
    intro i
    by_cases hS : i ∈ S
    · have hL : i ∉ L := Finset.disjoint_left.mp hdisjoint hS
      simp [hS, hL]
    · simp [hS]
  rw [Finset.sum_congr rfl fun i _ => hsplit i, Finset.sum_add_distrib]
  simp

namespace Setup

/-- A portfolio of a gross exposure, half of it on each end of a ranking. -/
def sided [Field F] (p : Setup F) {N : ℕ} (rankedIdx : List (Fin N)) (size : F) : Fin N → F :=
  fun i =>
    if i ∈ (p.shortIdx rankedIdx).toFinset then -(size / (2 * p.nShort))
    else if i ∈ (p.longIdx rankedIdx).toFinset then size / (2 * p.nLong)
    else 0

section Sided

variable [Field F] [LinearOrder F] {N : ℕ} (p : Setup F) {key : Fin N → Entry F}
  {rankedIdx : List (Fin N)}

omit [Field F] in
theorem disjoint_idx (h : IsArgsort Entry.le key rankedIdx) (hN : p.nShort + p.nLong ≤ N) :
    Disjoint (p.shortIdx rankedIdx).toFinset (p.longIdx rankedIdx).toFinset := by
  rw [List.disjoint_toFinset_iff_disjoint]
  refine h.disjoint_take_drop ?_
  rw [h.length_eq]
  omega

omit [Field F] in
theorem card_shortIdx (h : IsArgsort Entry.le key rankedIdx) (hN : p.nShort ≤ N) :
    (p.shortIdx rankedIdx).toFinset.card = p.nShort :=
  h.card_take hN

omit [Field F] in
theorem card_longIdx (h : IsArgsort Entry.le key rankedIdx) (hN : p.nLong ≤ N) :
    (p.longIdx rankedIdx).toFinset.card = p.nLong := by
  rw [longIdx, h.card_drop, h.length_eq]
  omega

omit [LinearOrder F] in
/-- A portfolio times a number has a gross exposure times that number. -/
theorem sided_mul (size c : F) (i : Fin N) :
    p.sided rankedIdx size i * c = p.sided rankedIdx (size * c) i := by
  unfold sided
  split
  · ring
  · split
    · ring
    · ring

variable [IsStrictOrderedRing F] (hlong : 1 ≤ p.nLong) (hshort : 1 ≤ p.nShort)
  (hN : p.nShort + p.nLong ≤ N) (h : IsArgsort Entry.le key rankedIdx)

include hlong hshort

/-- The assets with a negative weight are those at the start of the ranking. -/
theorem sided_neg_iff {size : F} (hsize : 0 < size) (i : Fin N) :
    p.sided rankedIdx size i < 0 ↔ i ∈ p.shortIdx rankedIdx := by
  have hL : (0 : F) < p.nLong := by exact_mod_cast hlong
  have hS : (0 : F) < p.nShort := by exact_mod_cast hshort
  have hdown : -(size / (2 * (p.nShort : F))) < 0 := by
    rw [neg_lt_zero]
    positivity
  have hup : ¬ size / (2 * (p.nLong : F)) < 0 := by
    rw [not_lt]
    positivity
  unfold sided
  simp only [List.mem_toFinset]
  split
  · rename_i hi
    exact iff_of_true hdown hi
  · rename_i hi
    split
    · exact iff_of_false hup hi
    · exact iff_of_false (lt_irrefl 0) hi

include hN h

/-- The two sides of the portfolio balance. -/
theorem sum_sided (size : F) : ∑ i, p.sided rankedIdx size i = 0 := by
  have hL : (p.nLong : F) ≠ 0 := by positivity
  have hS : (p.nShort : F) ≠ 0 := by positivity
  unfold sided
  rw [sum_two_sided _ _ (p.disjoint_idx h hN), p.card_shortIdx h (by omega),
    p.card_longIdx h (by omega)]
  field_simp
  ring

/-- The gross exposure of the portfolio. -/
theorem grossExposure_sided {size : F} (hsize : 0 ≤ size) :
    grossExposure (p.sided rankedIdx size) = size := by
  have hL : (p.nLong : F) ≠ 0 := by positivity
  have hS : (p.nShort : F) ≠ 0 := by positivity
  have habs : ∀ i, |p.sided rankedIdx size i| =
      if i ∈ (p.shortIdx rankedIdx).toFinset then size / (2 * p.nShort)
      else if i ∈ (p.longIdx rankedIdx).toFinset then size / (2 * p.nLong) else 0 := by
    intro i
    unfold sided
    split
    · rw [abs_neg, abs_of_nonneg (by positivity)]
    · split
      · rw [abs_of_nonneg (by positivity)]
      · rw [abs_zero]
  rw [grossExposure, Finset.sum_congr rfl fun i _ => habs i,
    sum_two_sided _ _ (p.disjoint_idx h hN), p.card_shortIdx h (by omega),
    p.card_longIdx h (by omega)]
  field_simp
  ring

/-- The assets with a positive weight are those at the end of the ranking. -/
theorem sided_pos_iff {size : F} (hsize : 0 < size) (i : Fin N) :
    0 < p.sided rankedIdx size i ↔ i ∈ p.longIdx rankedIdx := by
  have hL : (0 : F) < p.nLong := by exact_mod_cast hlong
  have hS : (0 : F) < p.nShort := by exact_mod_cast hshort
  have hdisjoint : i ∈ (p.shortIdx rankedIdx).toFinset → i ∉ (p.longIdx rankedIdx).toFinset :=
    fun hi => Finset.disjoint_left.mp (p.disjoint_idx h hN) hi
  have hdown : ¬ 0 < -(size / (2 * (p.nShort : F))) := by
    rw [not_lt, neg_nonpos]
    positivity
  have hup : 0 < size / (2 * (p.nLong : F)) := by positivity
  unfold sided
  simp only [List.mem_toFinset] at hdisjoint ⊢
  split
  · rename_i hi
    exact iff_of_false hdown (hdisjoint hi)
  · split
    · rename_i hi
      exact iff_of_true hup hi
    · rename_i hi
      exact iff_of_false (lt_irrefl 0) hi

end Sided

/-! ## What a period invests -/

section Invested

variable [Field F] [LinearOrder F] [IsStrictOrderedRing F] {N : ℕ} (p : Setup F)

/-- The long and short positions are those that the strategy is meant to take. -/
structure Selected (sig : Fin N → Entry F) (weights : Fin N → F) : Prop where
  n_long : (Finset.univ.filter fun i => 0 < weights i).card = p.nLong
  n_short : (Finset.univ.filter fun i => weights i < 0).card = p.nShort
  missing : ∀ i, (sig i).isFinite = false → weights i = 0
  top : ∀ i j x y, 0 < weights i → ¬ 0 < weights j → sig i = .finite x → sig j = .finite y → y ≤ x
  bottom : ∀ i j x y, weights i < 0 → ¬ weights j < 0 → sig i = .finite x → sig j = .finite y →
    x ≤ y
  neutral : ∑ i, weights i = 0
  gross : if p.volScale then grossExposure weights ≤ 3 else grossExposure weights = 1

omit [LinearOrder F] [IsStrictOrderedRing F] in
/-- The raw weights, as a portfolio of a gross exposure of two. -/
theorem rawWeights_eq [CharZero F] (rankedIdx : List (Fin N)) :
    p.rawWeights rankedIdx = p.sided rankedIdx 2 := by
  funext i
  simp only [rawWeights, sided, assign, List.mem_toFinset, mul_comm (2 : F)]
  have htwo : ∀ n : ℕ, (2 : F) / (n * 2) = 1 / n := by
    intro n
    simpa using mul_div_mul_right (1 : F) (n : F) two_ne_zero
  simp only [htwo, neg_div]

omit [Field F] [LinearOrder F] [IsStrictOrderedRing F] in
/-- The signals that are there are at most as many as the assets. -/
theorem validCount_le (sig : Fin N → Entry F) : validCount sig ≤ N := by
  refine (Finset.card_filter_le _ _).trans ?_
  rw [Finset.card_univ, Fintype.card_fin]

omit [IsStrictOrderedRing F] in
/-- A period that invests has enough assets for both sides. -/
theorem enough_of_rebalance [RealFunctions F] {argsort : (Fin N → Entry F) → List (Fin N)}
    {sig : Fin N → Entry F} {returns : ℕ → Fin N → F} {prevWeights weights : Fin N → F} {t : ℕ}
    (hinvest : p.rebalance argsort sig returns prevWeights t = some weights) :
    p.nShort + p.nLong ≤ N := by
  rw [rebalance] at hinvest
  split at hinvest
  · cases hinvest
  · have hcount := validCount_le sig
    omega

/-- The volatility scaling keeps the sides of the portfolio, and triples it at most. -/
theorem volFactor_bounds [RealFunctions F] (htarget : 0 < p.targetVol)
    (returns : ℕ → Fin N → F) (prevWeights : Fin N → F) (t : ℕ) :
    0 < p.volFactor returns prevWeights t ∧ p.volFactor returns prevWeights t ≤ 3 := by
  unfold volFactor
  split
  · dsimp only
    split
    · rename_i hvol
      have hpos := lt_trans (by positivity) hvol
      exact ⟨lt_min (div_pos htarget hpos) (by norm_num), min_le_right _ _⟩
    · exact ⟨one_pos, by norm_num⟩
  · exact ⟨one_pos, by norm_num⟩

/-- An invested portfolio: its gross exposure is one without volatility scaling, and at most three
with it. -/
theorem rebalance_eq [RealFunctions F] (hlong : 1 ≤ p.nLong) (hshort : 1 ≤ p.nShort)
    (htarget : 0 < p.targetVol) {argsort : (Fin N → Entry F) → List (Fin N)}
    {sig : Fin N → Entry F} (h : IsArgsort Entry.le sig (argsort sig))
    {returns : ℕ → Fin N → F} {prevWeights weights : Fin N → F} {t : ℕ}
    (hinvest : p.rebalance argsort sig returns prevWeights t = some weights) :
    ∃ size, 0 < size ∧ (if p.volScale then size ≤ 3 else size = 1) ∧
      weights = p.sided (argsort sig) size := by
  have hN : p.nShort + p.nLong ≤ N := p.enough_of_rebalance hinvest
  have hgross : grossExposure (p.sided (argsort sig) (2 : F)) = 2 :=
    p.grossExposure_sided hlong hshort hN h (by norm_num)
  have hnormalised : normalised (p.rawWeights (argsort sig)) = p.sided (argsort sig) (1 : F) := by
    have hlarge : (1 : F) / 10 ^ 9 < 2 := by norm_num
    rw [p.rawWeights_eq, normalised, hgross, if_pos hlarge]
    funext i
    rw [div_eq_mul_inv, p.sided_mul]
    norm_num
  obtain ⟨hpos, hle⟩ := p.volFactor_bounds htarget returns prevWeights t
  refine ⟨p.volFactor returns prevWeights t, hpos, ?_, ?_⟩
  · split
    · exact hle
    · rename_i hscale
      rw [volFactor, if_neg (by simp [hscale])]
  · rw [rebalance] at hinvest
    split at hinvest
    · cases hinvest
    · have hweights := (Option.some.inj hinvest).symm
      rw [hweights, hnormalised]
      funext i
      rw [p.sided_mul, one_mul]

/-- When all signals are there, the ends of the ranking are the intended positions. -/
theorem selected_of_finite (hlong : 1 ≤ p.nLong) (hshort : 1 ≤ p.nShort)
    (hN : p.nShort + p.nLong ≤ N) {sig : Fin N → Entry F} {rankedIdx : List (Fin N)}
    (h : IsArgsort Entry.le sig rankedIdx) {size : F} (hsize : 0 < size)
    (hbound : if p.volScale then size ≤ 3 else size = 1) (hfinite : ∀ i, (sig i).isFinite = true) :
    p.Selected sig (p.sided rankedIdx size) := by
  have hpos := p.sided_pos_iff hlong hshort hN h hsize
  have hneg : ∀ i, p.sided rankedIdx size i < 0 ↔ i ∈ p.shortIdx rankedIdx :=
    p.sided_neg_iff hlong hshort hsize
  constructor
  case n_long =>
    rw [← p.card_longIdx h (by omega)]
    congr 1
    ext i
    simp [hpos i]
  case n_short =>
    rw [← p.card_shortIdx h (by omega)]
    congr 1
    ext i
    simp [hneg i]
  case missing =>
    intro i hi
    rw [hfinite i] at hi
    cases hi
  case top =>
    intro i j x y hi hj hx hy
    rw [hpos] at hi hj
    have hle := h.le_of_mem_drop hi hj
    rw [hx, hy] at hle
    exact hle
  case bottom =>
    intro i j x y hi hj hx hy
    rw [hneg] at hi hj
    have hle := h.le_of_mem_take hi hj
    rw [hx, hy] at hle
    exact hle
  case neutral => exact p.sum_sided hlong hshort hN h size
  case gross =>
    rw [p.grossExposure_sided hlong hshort hN h hsize.le]
    exact hbound

/-- A missing signal pushes an asset without a signal to an end of the ranking. -/
theorem finite_of_selected (hlong : 1 ≤ p.nLong) (hshort : 1 ≤ p.nShort)
    (hN : p.nShort + p.nLong ≤ N) {sig : Fin N → Entry F} {rankedIdx : List (Fin N)}
    (h : IsArgsort Entry.le sig rankedIdx) {size : F} (hsize : 0 < size)
    (hselected : p.Selected sig (p.sided rankedIdx size)) (i : Fin N) :
    (sig i).isFinite = true := by
  have hlast : ∃ j ∈ p.longIdx rankedIdx, Entry.le (sig i) (sig j) := by
    refine h.exists_drop_ge Entry.le_refl ?_ i
    rw [h.length_eq]
    omega
  have hfirst : ∃ j ∈ p.shortIdx rankedIdx, Entry.le (sig j) (sig i) :=
    h.exists_take_le Entry.le_refl hshort i
  have hheld : ∀ j, p.sided rankedIdx size j ≠ 0 → (sig j).isFinite = true := by
    intro j hj
    by_contra hmissing
    exact hj (hselected.missing j (Bool.eq_false_of_not_eq_true hmissing))
  obtain ⟨j, hj, hle⟩ := hlast
  obtain ⟨k, hk, hge⟩ := hfirst
  have hjfinite := hheld j ((p.sided_pos_iff hlong hshort hN h hsize j).mpr hj).ne'
  have hkfinite := hheld k ((p.sided_neg_iff hlong hshort hsize k).mpr hk).ne
  exact Entry.isFinite_of_between hge hle hkfinite hjfinite

/-- In a period that invests, the positions are the intended ones exactly when every asset has a
signal. -/
theorem selection_iff [RealFunctions F] (argsort : (Fin N → Entry F) → List (Fin N))
    (hargsort : ∀ row, IsArgsort Entry.le row (argsort row)) (hlong : 1 ≤ p.nLong)
    (hshort : 1 ≤ p.nShort) (htarget : 0 < p.targetVol) (signals : ℕ → Fin N → Entry F)
    (returns : ℕ → Fin N → F) (t : ℕ) {weights : Fin N → F}
    (hinvest : p.weightsAt argsort signals returns t = some weights) :
    p.Selected (signals (t - 1)) weights ↔ ∀ i, (signals (t - 1) i).isFinite = true := by
  have h := hargsort (signals (t - 1))
  have hN := p.enough_of_rebalance hinvest
  obtain ⟨size, hsize, hbound, rfl⟩ := p.rebalance_eq hlong hshort htarget h hinvest
  constructor
  · intro hselected
    exact p.finite_of_selected hlong hshort hN h hsize hselected
  · intro hfinite
    exact p.selected_of_finite hlong hshort hN h hsize hbound hfinite

end Invested

/-! ## A row with a missing signal -/

/-- One position on each side, without volatility scaling. -/
noncomputable def onePair : Setup ℝ where
  nLong := 1
  nShort := 1
  volScale := false
  targetVol := 1 / 10

/-- The ranking of `argsort` that keeps equal signals in place. -/
noncomputable def stable {N : ℕ} (sig : Fin N → Entry ℝ) : List (Fin N) :=
  stableArgsort Entry.le sig

theorem stable_isArgsort {N : ℕ} (sig : Fin N → Entry ℝ) : IsArgsort Entry.le sig (stable sig) :=
  stableArgsort_isArgsort Entry.le Entry.le_total (fun _ _ _ => Entry.le_trans) sig

/-- Signals of some assets; the others have none. -/
def signalsBelow (N count : ℕ) (_ : ℕ) (i : Fin N) : Entry ℝ :=
  if i.val < count then .finite i.val else .nan

/-- Returns of zero. -/
def flatReturns (N : ℕ) (_ : ℕ) (_ : Fin N) : ℝ :=
  0

theorem validCount_signalsBelow (N count t : ℕ) :
    validCount (signalsBelow N count t) =
      (Finset.univ.filter fun i : Fin N => i.val < count).card := by
  rw [validCount]
  refine congrArg Finset.card (Finset.filter_congr fun i _ => ?_)
  by_cases hi : i.val < count
  · simp [signalsBelow, Entry.isFinite, hi]
  · simp [signalsBelow, Entry.isFinite, hi]

/-- With four signals, one position on each side is taken. -/
theorem onePair_invests (N t : ℕ) (prevWeights : Fin N → ℝ)
    (hcount : 4 ≤ (Finset.univ.filter fun i : Fin N => i.val < 4).card) :
    ∃ weights, onePair.rebalance stable (signalsBelow N 4 (t - 1)) (flatReturns N) prevWeights t =
      some weights := by
  rw [rebalance, if_neg]
  · exact ⟨_, rfl⟩
  · rw [validCount_signalsBelow]
    simp only [onePair]
    omega

/-- Four assets with a signal. -/
theorem selection_iff_onePair :
    ∃ weights, onePair.weightsAt stable (signalsBelow 4 4) (flatReturns 4) 1 = some weights ∧
      (onePair.Selected (signalsBelow 4 4 0) weights ↔
        ∀ i, (signalsBelow 4 4 0 i).isFinite = true) := by
  obtain ⟨weights, hinvest⟩ := onePair_invests 4 1 (fun _ => 0) (by decide)
  refine ⟨weights, hinvest, ?_⟩
  exact onePair.selection_iff stable stable_isArgsort le_rfl le_rfl (by norm_num [onePair])
    (signalsBelow 4 4) (flatReturns 4) 1 hinvest

/-- A fifth asset without a signal is bought. -/
theorem missing_signal_bought :
    ∃ weights, onePair.weightsAt stable (signalsBelow 5 4) (flatReturns 5) 1 = some weights ∧
      ¬ onePair.Selected (signalsBelow 5 4 0) weights := by
  obtain ⟨weights, hinvest⟩ := onePair_invests 5 1 (fun _ => 0) (by decide)
  refine ⟨weights, hinvest, ?_⟩
  intro hselected
  have h := stable_isArgsort (signalsBelow 5 4 0)
  obtain ⟨size, hsize, -, hweights⟩ :=
    onePair.rebalance_eq le_rfl le_rfl (by norm_num [onePair]) h hinvest
  rw [hweights] at hselected
  have hfinite := onePair.finite_of_selected le_rfl le_rfl (by decide) h hsize hselected 4
  simp [signalsBelow, Entry.isFinite] at hfinite

end Setup

end QuantumSentinel.Strategies
