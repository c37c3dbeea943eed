import Mathlib.Algebra.Order.Field.Rat
import Mathlib.Data.List.FinRange
import Mathlib.Data.List.GetD
import Mathlib.Order.Lattice.Nat
import QuantumSentinel.Lib.Numerals
import QuantumSentinel.Lib.StepUp

/-!
# Statistics: corrections for multiple tests

`bonferroni_correction` and `benjamini_hochberg` of `stat_tests.py`.  The second walks
the sorted values from the largest rank downwards and keeps a running minimum.

Main results:

- Definition `benjaminiHochberg`: the walk.
- Theorem `adjusted_le_iff`: an adjusted value depends on the value and on the values from it on,
  however ties are ordered.
- Theorem `benjamini_hochberg_step_up`: the walk is the step-up procedure.

Current gaps:

- Values are reported before they are rounded to six decimals.
-/

namespace QuantumSentinel.Statistics

open Lib

variable {F : Type*} [Field F] [LinearOrder F]

/-! ## The corrections -/

/-- What a correction reports; `adjusted_alpha` is a key of the Bonferroni correction only. -/
inductive Correction (F : Type*)
  /-- `{"adjusted_alpha": alpha, "significant": [], "n_tests": 0}` -/
  | noTests (adjustedAlpha : Option F)
  | tests (alpha : F) (adjustedAlpha : Option F) (nTests nSignificant : ℕ)
      (significantIndices : List ℕ) (adjustedPValues : List F)

/-- The significant indices of a report. -/
def Correction.significant : Correction F → List ℕ
  | .noTests _ => []
  | .tests _ _ _ _ significantIndices _ => significantIndices

/-- The adjusted values of a report. -/
def Correction.adjusted : Correction F → List F
  | .noTests _ => []
  | .tests _ _ _ _ _ adjustedPValues => adjustedPValues

/-- `bonferroni_correction` -/
def bonferroniCorrection (pValues : List F) (alpha : F) : Correction F :=
  let m := pValues.length
  if m = 0 then .noTests (some alpha)
  else
    let adjustedAlpha := alpha / m
    let significant := pValues.zipIdx.filterMap fun entry =>
      if entry.1 < adjustedAlpha then some entry.2 else none
    .tests alpha (some adjustedAlpha) m significant.length significant
      (pValues.map fun p => min (p * m) 1)

/-- The list `indexed`: the values in ascending order, each with its index. -/
def indexed (pValues : List F) : List (F × ℕ) :=
  pValues.zipIdx.insertionSort fun a b => a.1 ≤ b.1

/-- The variables of the walk. -/
structure Walk (F : Type*) where
  adjusted : List F
  significant : List ℕ
  prevAdj : F

/-- `p * m / rank` of an entry and its place, which is its rank less one. -/
def scaled (m : ℕ) (entry : (F × ℕ) × ℕ) : F :=
  entry.1.1 * m / (entry.2 + 1)

/-- One turn of the walk. -/
def walkTurn (m : ℕ) (alpha : F) (entry : (F × ℕ) × ℕ) (walk : Walk F) : Walk F :=
  let adjP := min walk.prevAdj (scaled m entry)
  { adjusted := walk.adjusted.set entry.1.2 adjP
    significant := if adjP < alpha then walk.significant ++ [entry.1.2] else walk.significant
    prevAdj := adjP }

/-- The walk over entries whose first one has a place, the last entry first. -/
def walkDown (m : ℕ) (alpha : F) (entries : List (F × ℕ)) (place : ℕ) : Walk F :=
  (entries.zipIdx place).foldr (walkTurn m alpha) ⟨List.replicate m 0, [], 1⟩

/-- `benjamini_hochberg` -/
def benjaminiHochberg (pValues : List F) (alpha : F) : Correction F :=
  let m := pValues.length
  if m = 0 then .noTests none
  else
    let walk := walkDown m alpha (indexed pValues) 0
    .tests alpha none m walk.significant.length (walk.significant.insertionSort (· ≤ ·))
      walk.adjusted

/-! ## The walk -/

/-- The running minimum over some entries. -/
def runningMin (m : ℕ) (entries : List (F × ℕ)) (place : ℕ) : F :=
  ((entries.zipIdx place).map (scaled m)).foldr min 1

section Walk

variable (m : ℕ) (alpha : F)

theorem prevAdj_walkDown (entries : List (F × ℕ)) (place : ℕ) :
    (walkDown m alpha entries place).prevAdj = runningMin m entries place := by
  induction entries generalizing place with
  | nil => rfl
  | cons e rest ih =>
    have hrest := ih (place + 1)
    rw [walkDown, runningMin] at hrest
    rw [walkDown, runningMin, List.zipIdx_cons, List.foldr_cons, List.map_cons, List.foldr_cons,
      walkTurn, hrest, min_comm]

theorem length_adjusted_walkDown (entries : List (F × ℕ)) (place : ℕ) :
    (walkDown m alpha entries place).adjusted.length = m := by
  induction entries generalizing place with
  | nil => exact List.length_replicate
  | cons e rest ih =>
    rw [walkDown, List.zipIdx_cons, List.foldr_cons, walkTurn, List.length_set]
    exact ih (place + 1)

/-- One more entry in front. -/
theorem walkDown_cons (e : F × ℕ) (rest : List (F × ℕ)) (place : ℕ) :
    walkDown m alpha (e :: rest) place =
      { adjusted := (walkDown m alpha rest (place + 1)).adjusted.set e.2
          (runningMin m (e :: rest) place)
        significant := if runningMin m (e :: rest) place < alpha
          then (walkDown m alpha rest (place + 1)).significant ++ [e.2]
          else (walkDown m alpha rest (place + 1)).significant
        prevAdj := runningMin m (e :: rest) place } := by
  have hprev := prevAdj_walkDown m alpha (e :: rest) place
  rw [walkDown, List.zipIdx_cons, List.foldr_cons, walkTurn] at hprev ⊢
  simp only at hprev ⊢
  rw [hprev]
  rfl

/-- Each entry is given the running minimum from it on. -/
theorem adjusted_walkDown {entries : List (F × ℕ)} (hnodup : (entries.map Prod.snd).Nodup)
    (hbound : ∀ e ∈ entries, e.2 < m) (place : ℕ) {r : ℕ} {e : F × ℕ} (he : entries[r]? = some e) :
    (walkDown m alpha entries place).adjusted[e.2]? =
      some (runningMin m (entries.drop r) (place + r)) := by
  induction entries generalizing place r with
  | nil => cases he
  | cons first rest ih =>
    obtain ⟨hnew, hrest⟩ := List.nodup_cons.mp hnodup
    rw [walkDown_cons]
    cases r with
    | zero =>
      cases he
      rw [List.getElem?_set_self, List.drop_zero, Nat.add_zero]
      rw [length_adjusted_walkDown]
      exact hbound _ List.mem_cons_self
    | succ r =>
      have hmem : e ∈ rest := List.mem_of_getElem? he
      have hne : first.2 ≠ e.2 := fun heq =>
        hnew (heq ▸ List.mem_map_of_mem hmem)
      rw [List.getElem?_set_ne hne, List.drop_succ_cons,
        show place + (r + 1) = place + 1 + r by omega]
      exact ih hrest (fun e he => hbound e (List.mem_cons_of_mem _ he)) (place + 1) he

/-- The indices whose running minimum is below the level. -/
theorem mem_significant_walkDown (entries : List (F × ℕ)) (place i : ℕ) :
    i ∈ (walkDown m alpha entries place).significant ↔
      ∃ r e, entries[r]? = some e ∧ e.2 = i ∧
        runningMin m (entries.drop r) (place + r) < alpha := by
  induction entries generalizing place with
  | nil => simp [walkDown]
  | cons first rest ih =>
    have hlater : (∃ r e, (first :: rest)[r]? = some e ∧ e.2 = i ∧
        runningMin m ((first :: rest).drop r) (place + r) < alpha) ↔
        (first.2 = i ∧ runningMin m (first :: rest) place < alpha) ∨
          i ∈ (walkDown m alpha rest (place + 1)).significant := by
      rw [ih]
      constructor
      · rintro ⟨r, e, he, hi, hlt⟩
        cases r with
        | zero =>
          cases he
          exact Or.inl ⟨hi, hlt⟩
        | succ r =>
          refine Or.inr ⟨r, e, he, hi, ?_⟩
          rwa [show place + 1 + r = place + (r + 1) by omega]
      · rintro (⟨hi, hlt⟩ | ⟨r, e, he, hi, hlt⟩)
        · exact ⟨0, first, rfl, hi, hlt⟩
        · refine ⟨r + 1, e, he, hi, ?_⟩
          rwa [show place + (r + 1) = place + 1 + r by omega]
    rw [hlater, walkDown_cons]
    by_cases hlt : runningMin m (first :: rest) place < alpha
    · rw [if_pos hlt, List.mem_append, List.mem_singleton]
      simp only [hlt, and_true]
      rw [or_comm, eq_comm]
    · rw [if_neg hlt]
      simp only [hlt, and_false, false_or]

/-- No index is significant twice. -/
theorem nodup_significant_walkDown {entries : List (F × ℕ)}
    (hnodup : (entries.map Prod.snd).Nodup) (place : ℕ) :
    (walkDown m alpha entries place).significant.Nodup := by
  induction entries generalizing place with
  | nil => exact List.nodup_nil
  | cons first rest ih =>
    obtain ⟨hnew, hrest⟩ := List.nodup_cons.mp hnodup
    have hlater := ih hrest (place + 1)
    rw [walkDown_cons]
    simp only
    split
    · refine List.nodup_append.mpr ⟨hlater, List.nodup_singleton _, ?_⟩
      intro a ha b hb heq
      obtain ⟨r, e, he, hi, -⟩ := (mem_significant_walkDown m alpha rest (place + 1) a).mp ha
      rw [List.mem_singleton] at hb
      refine hnew (hb ▸ heq ▸ hi ▸ List.mem_map_of_mem (List.mem_of_getElem? he))
    · exact hlater

end Walk

/-! ## Ranks -/

/-- The order statistic `p_(k)`, counted from one. -/
def orderStatistic (pValues : List F) (k : ℕ) : F :=
  (pValues.insertionSort (· ≤ ·)).getD (k - 1) 0

/-- The rank of an index in the sorted list, counted from one. -/
def rank (pValues : List F) (i : ℕ) : ℕ :=
  ((indexed pValues).map Prod.snd).idxOf i + 1

/-- A rank that the step-up procedure accepts. -/
def Qualifies (pValues : List F) (alpha : F) (k : ℕ) : Prop :=
  1 ≤ k ∧ k ≤ pValues.length ∧ orderStatistic pValues k * pValues.length / k < alpha

section Indexed

omit [Field F]

theorem indexed_perm (p : List F) : (indexed p).Perm p.zipIdx :=
  List.perm_insertionSort _ _

theorem length_indexed (p : List F) : (indexed p).length = p.length := by
  rw [(indexed_perm p).length_eq, List.length_zipIdx]

/-- The indices are those of the list, each once. -/
theorem nodup_indexed (p : List F) : ((indexed p).map Prod.snd).Nodup := by
  rw [((indexed_perm p).map Prod.snd).nodup_iff, List.zipIdx_map_snd]
  exact List.nodup_range'

theorem mem_indexed {p : List F} {e : F × ℕ} : e ∈ indexed p ↔ p[e.2]? = some e.1 := by
  rw [(indexed_perm p).mem_iff, List.mem_zipIdx_iff_getElem?]

/-- The values of the entries are the sorted values. -/
theorem map_fst_indexed (p : List F) :
    (indexed p).map Prod.fst = p.insertionSort (· ≤ ·) := by
  have hperm : ((indexed p).map Prod.fst).Perm (p.insertionSort (· ≤ ·)) := by
    refine ((indexed_perm p).map Prod.fst).trans ?_
    rw [List.zipIdx_map_fst]
    exact (List.perm_insertionSort _ _).symm
  have : Std.Total fun a b : F × ℕ => a.1 ≤ b.1 := ⟨fun a b => le_total a.1 b.1⟩
  have : IsTrans (F × ℕ) fun a b => a.1 ≤ b.1 := ⟨fun _ _ _ => le_trans⟩
  have hascending : ((indexed p).map Prod.fst).Pairwise (· ≤ ·) := by
    rw [List.pairwise_map]
    exact List.pairwise_insertionSort _ _
  exact hperm.eq_of_pairwise' hascending (List.pairwise_insertionSort _ _)

/-- Every index has an entry. -/
theorem exists_indexed {p : List F} {i : ℕ} {x : F} (h : p[i]? = some x) :
    ∃ r : ℕ, (indexed p)[r]? = some (x, i) := by
  have hmem : (x, i) ∈ indexed p := mem_indexed.mpr h
  exact List.mem_iff_getElem?.mp hmem

/-- The place of an entry is its rank less one. -/
theorem rank_of_indexed {p : List F} {r : ℕ} {e : F × ℕ} (h : (indexed p)[r]? = some e) :
    rank p e.2 = r + 1 := by
  obtain ⟨hr, he⟩ := List.getElem?_eq_some_iff.mp h
  have hmap : r < ((indexed p).map Prod.snd).length := by rwa [List.length_map]
  have hget : ((indexed p).map Prod.snd)[r] = e.2 := by
    rw [List.getElem_map, he]
  rw [rank, ← hget, (nodup_indexed p).idxOf_getElem]

end Indexed

omit [Field F] in
/-- The sorted values in ascending order. -/
theorem pairwise_sorted (p : List F) : (p.insertionSort (· ≤ ·)).Pairwise (· ≤ ·) :=
  List.pairwise_insertionSort _ _

/-- The value of an entry is the order statistic of its rank. -/
theorem orderStatistic_succ {p : List F} {r : ℕ} {e : F × ℕ} (h : (indexed p)[r]? = some e) :
    orderStatistic p (r + 1) = e.1 := by
  rw [orderStatistic, ← map_fst_indexed, Nat.add_sub_cancel, List.getD_eq_getElem?_getD,
    List.getElem?_map, h]
  rfl

omit [LinearOrder F] in
/-- The scaled values of the entries from a place on. -/
theorem mem_scaled_drop (m r : ℕ) (entries : List (F × ℕ)) (b : F) :
    b ∈ ((entries.drop r).zipIdx r).map (scaled m) ↔
      ∃ j e, r ≤ j ∧ entries[j]? = some e ∧ b = e.1 * m / (j + 1) := by
  rw [List.mem_map]
  constructor
  · rintro ⟨⟨e, j⟩, hmem, rfl⟩
    obtain ⟨hle, hget⟩ := List.mem_zipIdx_iff_le_and_getElem?_sub.mp hmem
    rw [List.getElem?_drop, Nat.add_sub_cancel' hle] at hget
    exact ⟨j, e, hle, hget, rfl⟩
  · rintro ⟨j, e, hle, hget, rfl⟩
    refine ⟨(e, j), List.mem_zipIdx_iff_le_and_getElem?_sub.mpr ⟨hle, ?_⟩, rfl⟩
    rw [List.getElem?_drop, Nat.add_sub_cancel' hle]
    exact hget

/-- How many values are at most a bound. -/
def atMost (pValues : List F) (y : F) : ℕ :=
  pValues.countP (· ≤ y)

/-- A rank is among the values up to a bound when its order statistic is. -/
theorem orderStatistic_le_iff {p : List F} {k : ℕ} (hk : 1 ≤ k) (hle : k ≤ p.length) (y : F) :
    orderStatistic p k ≤ y ↔ k ≤ atMost p y := by
  have hlength : (p.insertionSort (· ≤ ·)).length = p.length := List.length_insertionSort _ _
  have hlt : k - 1 < (p.insertionSort (· ≤ ·)).length := by omega
  rw [orderStatistic, List.getD_eq_getElem _ _ hlt,
    getElem_le_iff_lt_countP (pairwise_sorted p) hlt, atMost,
    (List.perm_insertionSort (· ≤ ·) p).countP_eq]
  omega

/-- An order statistic is one of the values. -/
theorem orderStatistic_mem {p : List F} {k : ℕ} (hk : 1 ≤ k) (hle : k ≤ p.length) :
    orderStatistic p k ∈ p := by
  have hlength : (p.insertionSort (· ≤ ·)).length = p.length := List.length_insertionSort _ _
  rw [orderStatistic, List.getD_eq_getElem _ _ (by omega),
    ← (List.perm_insertionSort (· ≤ ·) p).mem_iff]
  exact List.getElem_mem _

/-- A value stands at the last of its ranks. -/
theorem orderStatistic_atMost {p : List F} {y : F} (hy : y ∈ p) :
    1 ≤ atMost p y ∧ atMost p y ≤ p.length ∧ orderStatistic p (atMost p y) = y := by
  have hmem : y ∈ p.insertionSort (· ≤ ·) := (List.perm_insertionSort _ p).mem_iff.mpr hy
  have hcount : (p.insertionSort (· ≤ ·)).countP (· ≤ y) = atMost p y :=
    (List.perm_insertionSort (· ≤ ·) p).countP_eq _
  obtain ⟨hpos, hlt, heq⟩ := getElem_countP_eq (pairwise_sorted p) hmem
  simp only [hcount] at hpos hlt heq
  refine ⟨hpos, List.countP_le_length, ?_⟩
  rw [orderStatistic, List.getD_eq_getElem _ _ hlt, heq]

/-- When a rank qualifies there is a largest one. -/
theorem exists_isGreatest_qualifies {p : List F} {alpha : F} {j : ℕ} (h : Qualifies p alpha j) :
    ∃ k, IsGreatest {k | Qualifies p alpha k} k :=
  have hbounded : BddAbove {k | Qualifies p alpha k} := ⟨p.length, fun _ hk => hk.2.1⟩
  ⟨_, Nat.sSup_mem ⟨j, h⟩ hbounded, fun _ hk => le_csSup hbounded hk⟩

/-! ## Adjusted values -/

/-- The running minimum that an index is given. -/
def adjustedValue (pValues : List F) (i : ℕ) : F :=
  runningMin pValues.length ((indexed pValues).drop (rank pValues i - 1)) (rank pValues i - 1)

section Adjusted

variable {p : List F} {alpha : F} {i : ℕ} {x : F}

/-- What the running minimum of an index runs over. -/
theorem mem_scaled_iff (h : p[i]? = some x) (b : F) :
    b ∈ (((indexed p).drop (rank p i - 1)).zipIdx (rank p i - 1)).map (scaled p.length) ↔
      ∃ k, rank p i ≤ k ∧ k ≤ p.length ∧ b = orderStatistic p k * p.length / k := by
  obtain ⟨r, hr⟩ := exists_indexed h
  have hrank : rank p i = r + 1 := rank_of_indexed hr
  rw [mem_scaled_drop, hrank, Nat.add_sub_cancel]
  constructor
  · rintro ⟨j, e, hj, he, rfl⟩
    have hlt : j < (indexed p).length := (List.getElem?_eq_some_iff.mp he).1
    rw [length_indexed] at hlt
    refine ⟨j + 1, by omega, hlt, ?_⟩
    rw [orderStatistic_succ he]
    push_cast
    rfl
  · rintro ⟨k, hk, hle, rfl⟩
    obtain ⟨j, rfl⟩ := Nat.exists_eq_add_of_le' (show 1 ≤ k by omega)
    have hlt : j < (indexed p).length := by
      rw [length_indexed]
      omega
    refine ⟨j, (indexed p)[j], by omega, List.getElem?_eq_getElem hlt, ?_⟩
    rw [orderStatistic_succ (List.getElem?_eq_getElem hlt)]
    push_cast
    rfl

theorem adjusted_getElem? (h : p[i]? = some x) :
    (benjaminiHochberg p alpha).adjusted[i]? = some (adjustedValue p i) := by
  obtain ⟨r, hr⟩ := exists_indexed h
  have hrank : rank p i = r + 1 := rank_of_indexed hr
  have hlength : p.length ≠ 0 := by
    have hlt := (List.getElem?_eq_some_iff.mp h).1
    omega
  have hbound : ∀ e ∈ indexed p, e.2 < p.length := fun e he =>
    (List.getElem?_eq_some_iff.mp (mem_indexed.mp he)).1
  have hwalk := adjusted_walkDown p.length alpha (nodup_indexed p) hbound 0 hr
  rw [benjaminiHochberg]
  simp only [if_neg hlength, Correction.adjusted]
  rw [hwalk, adjustedValue, hrank, Nat.zero_add, Nat.add_sub_cancel]

theorem mem_significant_iff :
    i ∈ (benjaminiHochberg p alpha).significant ↔
      ∃ x, p[i]? = some x ∧ adjustedValue p i < alpha := by
  rw [benjaminiHochberg]
  by_cases hlength : p.length = 0
  · simp only [if_pos hlength, Correction.significant, List.not_mem_nil, false_iff]
    rintro ⟨x, hx, -⟩
    rw [List.length_eq_zero_iff.mp hlength] at hx
    cases hx
  · simp only [if_neg hlength, Correction.significant]
    rw [(List.perm_insertionSort _ _).mem_iff, mem_significant_walkDown]
    constructor
    · rintro ⟨r, e, he, rfl, hlt⟩
      rw [Nat.zero_add] at hlt
      refine ⟨e.1, mem_indexed.mp (List.mem_of_getElem? he), ?_⟩
      rwa [adjustedValue, rank_of_indexed he, Nat.add_sub_cancel]
    · rintro ⟨x, hx, hlt⟩
      obtain ⟨r, hr⟩ := exists_indexed hx
      have hrank : rank p i = r + 1 := rank_of_indexed hr
      rw [adjustedValue, hrank, Nat.add_sub_cancel] at hlt
      refine ⟨r, (x, i), hr, rfl, ?_⟩
      rwa [Nat.zero_add]

/-- Each adjusted value is the minimum over the ranks from its own on. -/
theorem isLeast_adjustedValue (h : p[i]? = some x) :
    IsLeast {b | ∃ k, rank p i ≤ k ∧ k ≤ p.length ∧
      b = min 1 (orderStatistic p k * p.length / k)} (adjustedValue p i) := by
  obtain ⟨r, hr⟩ := exists_indexed h
  have hlt : r < (indexed p).length := (List.getElem?_eq_some_iff.mp hr).1
  rw [length_indexed] at hlt
  have hrank : rank p i = r + 1 := rank_of_indexed hr
  have hself := (mem_scaled_iff h _).mpr ⟨rank p i, le_rfl, by omega, rfl⟩
  have hleast := isLeast_foldr_min (1 : F) (List.ne_nil_of_mem hself)
  have hsets : {b | ∃ k, rank p i ≤ k ∧ k ≤ p.length ∧
      b = min 1 (orderStatistic p k * p.length / k)} =
      {b | ∃ y ∈ (((indexed p).drop (rank p i - 1)).zipIdx (rank p i - 1)).map (scaled p.length),
        b = min 1 y} := by
    ext b
    constructor
    · rintro ⟨k, hk, hle, rfl⟩
      exact ⟨_, (mem_scaled_iff h _).mpr ⟨k, hk, hle, rfl⟩, rfl⟩
    · rintro ⟨y, hy, rfl⟩
      obtain ⟨k, hk, hle, rfl⟩ := (mem_scaled_iff h y).mp hy
      exact ⟨k, hk, hle, rfl⟩
  rw [hsets]
  exact hleast

/-- An adjusted value is below a level when some rank from its own on is. -/
theorem adjustedValue_lt_iff (h : p[i]? = some x) (t : F) :
    adjustedValue p i < t ↔ 1 < t ∨
      ∃ k, rank p i ≤ k ∧ k ≤ p.length ∧ orderStatistic p k * p.length / k < t := by
  rw [adjustedValue, runningMin, foldr_min_lt_iff]
  refine or_congr Iff.rfl ?_
  constructor
  · rintro ⟨b, hb, hlt⟩
    obtain ⟨k, hk, hle, rfl⟩ := (mem_scaled_iff h b).mp hb
    exact ⟨k, hk, hle, hlt⟩
  · rintro ⟨k, hk, hle, hlt⟩
    exact ⟨_, (mem_scaled_iff h _).mpr ⟨k, hk, hle, rfl⟩, hlt⟩

theorem adjustedValue_le_iff_rank (h : p[i]? = some x) (t : F) :
    adjustedValue p i ≤ t ↔ 1 ≤ t ∨
      ∃ k, rank p i ≤ k ∧ k ≤ p.length ∧ orderStatistic p k * p.length / k ≤ t := by
  rw [adjustedValue, runningMin, foldr_min_le_iff]
  refine or_congr Iff.rfl ?_
  constructor
  · rintro ⟨b, hb, hle⟩
    obtain ⟨k, hk, hlength, rfl⟩ := (mem_scaled_iff h b).mp hb
    exact ⟨k, hk, hlength, hle⟩
  · rintro ⟨k, hk, hlength, hle⟩
    exact ⟨_, (mem_scaled_iff h _).mpr ⟨k, hk, hlength, rfl⟩, hle⟩

/-- The order statistic of the rank of an index is its value. -/
theorem orderStatistic_rank (h : p[i]? = some x) :
    1 ≤ rank p i ∧ rank p i ≤ p.length ∧ orderStatistic p (rank p i) = x := by
  obtain ⟨r, hr⟩ := exists_indexed h
  have hlt : r < (indexed p).length := (List.getElem?_eq_some_iff.mp hr).1
  rw [length_indexed] at hlt
  have hrank : rank p i = r + 1 := rank_of_indexed hr
  rw [hrank]
  exact ⟨by omega, hlt, orderStatistic_succ hr⟩

section Ordered

variable [IsStrictOrderedRing F]

/-- The scaled value falls as its rank rises. -/
theorem scaled_antitone {y : F} (hy : 0 ≤ y) (m : ℕ) {k k' : ℕ} (hk : 1 ≤ k) (hle : k ≤ k') :
    y * m / k' ≤ y * m / k := by
  have hpos : (0 : F) < k := by exact_mod_cast hk
  have hcast : (k : F) ≤ k' := by exact_mod_cast hle
  have hnonneg : 0 ≤ y * m := mul_nonneg hy (Nat.cast_nonneg m)
  exact div_le_div_of_nonneg_left hnonneg hpos hcast

/-- An adjusted value depends on the value and on the values from it on, each at the last of its
ranks. -/
theorem adjusted_le_iff (hp : ∀ y ∈ p, 0 ≤ y) (h : p[i]? = some x) (t : F) :
    adjustedValue p i ≤ t ↔ 1 ≤ t ∨ ∃ y ∈ p, x ≤ y ∧ y * p.length / atMost p y ≤ t := by
  obtain ⟨hfirst, hlength, hvalue⟩ := orderStatistic_rank h
  rw [adjustedValue_le_iff_rank h]
  refine or_congr Iff.rfl ?_
  constructor
  · rintro ⟨k, hk, hkp, hle⟩
    have hmem := orderStatistic_mem (hfirst.trans hk) hkp
    have hatMost : k ≤ atMost p (orderStatistic p k) :=
      (orderStatistic_le_iff (hfirst.trans hk) hkp _).mp le_rfl
    refine ⟨_, hmem, ?_, ?_⟩
    · rw [← hvalue, orderStatistic_le_iff hfirst hlength]
      exact hk.trans hatMost
    · exact (scaled_antitone (hp _ hmem) _ (hfirst.trans hk) hatMost).trans hle
  · rintro ⟨y, hy, hxy, hle⟩
    obtain ⟨-, hcount, hlast⟩ := orderStatistic_atMost hy
    refine ⟨atMost p y, ?_, hcount, ?_⟩
    · rw [← orderStatistic_le_iff hfirst hlength, hvalue]
      exact hxy
    · rwa [hlast]

/-- An adjusted value is at least the value. -/
theorem le_adjustedValue (hp : ∀ y ∈ p, 0 ≤ y ∧ y ≤ 1) (h : p[i]? = some x) :
    x ≤ adjustedValue p i := by
  have hx : x ∈ p := List.mem_of_getElem? h
  rcases (adjusted_le_iff (fun y hy => (hp y hy).1) h (adjustedValue p i)).mp le_rfl with
    hone | ⟨y, hy, hxy, hle⟩
  · exact (hp x hx).2.trans hone
  · obtain ⟨hpos, hcount, -⟩ := orderStatistic_atMost hy
    have hscaled := scaled_antitone (hp y hy).1 p.length hpos hcount
    have hlength : (p.length : F) ≠ 0 := by
      have hne : p.length ≠ 0 := by omega
      exact_mod_cast hne
    rw [mul_div_assoc, div_self hlength, mul_one] at hscaled
    exact hxy.trans (hscaled.trans hle)

/-- Larger values have larger adjusted values. -/
theorem adjustedValue_mono (hp : ∀ y ∈ p, 0 ≤ y) {j : ℕ} {y : F} (hx : p[i]? = some x)
    (hy : p[j]? = some y) (hxy : x ≤ y) : adjustedValue p i ≤ adjustedValue p j := by
  rw [adjusted_le_iff hp hx]
  rcases (adjusted_le_iff hp hy (adjustedValue p j)).mp le_rfl with hone | ⟨z, hz, hyz, hle⟩
  · exact Or.inl hone
  · exact Or.inr ⟨z, hz, hxy.trans hyz, hle⟩

/-- The order of the values does not matter. -/
theorem adjustedValue_perm {q : List F} (hperm : q.Perm p) (hp : ∀ y ∈ p, 0 ≤ y) {j : ℕ}
    (hi : q[i]? = some x) (hj : p[j]? = some x) : adjustedValue q i = adjustedValue p j := by
  have hq : ∀ y ∈ q, 0 ≤ y := fun y hy => hp y (hperm.mem_iff.mp hy)
  have hsame : ∀ t, adjustedValue q i ≤ t ↔ adjustedValue p j ≤ t := by
    intro t
    have hcount : ∀ y, atMost q y = atMost p y := fun y => hperm.countP_eq _
    rw [adjusted_le_iff hq hi, adjusted_le_iff hp hj, hperm.length_eq]
    simp only [hperm.mem_iff, hcount]
  exact le_antisymm ((hsame _).mpr le_rfl) ((hsame _).mp le_rfl)

/-- An adjusted value is below the level exactly for the values up to the order statistic of the
largest rank that qualifies. -/
theorem adjustedValue_lt_iff_qualifies (hp : ∀ y ∈ p, 0 ≤ y) (halpha : alpha ≤ 1)
    (h : p[i]? = some x) :
    adjustedValue p i < alpha ↔
      ∃ k, IsGreatest {k | Qualifies p alpha k} k ∧ x ≤ orderStatistic p k := by
  obtain ⟨hfirst, hlength, hvalue⟩ := orderStatistic_rank h
  have hlevel : ¬ 1 < alpha := not_lt.mpr halpha
  rw [adjustedValue_lt_iff h, or_iff_right hlevel]
  constructor
  · rintro ⟨j, hj, hjp, hlt⟩
    have hqualifies : Qualifies p alpha j := ⟨hfirst.trans hj, hjp, hlt⟩
    obtain ⟨k, hk, hmax⟩ := exists_isGreatest_qualifies hqualifies
    refine ⟨k, ⟨hk, hmax⟩, ?_⟩
    rw [← hvalue, orderStatistic_le_iff hfirst hlength]
    exact (hj.trans (hmax hqualifies)).trans ((orderStatistic_le_iff hk.1 hk.2.1 _).mp le_rfl)
  · rintro ⟨k, ⟨hk, hmax⟩, hxk⟩
    rcases le_or_gt (rank p i) k with hle | hlt
    · exact ⟨k, hle, hk.2.1, hk.2.2⟩
    · -- a tie beyond the largest rank would qualify itself
      have hkx : orderStatistic p k ≤ x := by
        rw [orderStatistic_le_iff hk.1 hk.2.1]
        exact hlt.le.trans ((orderStatistic_le_iff hfirst hlength x).mp hvalue.le)
      have hx : x ∈ p := List.mem_of_getElem? h
      have hscaled := scaled_antitone (hp x hx) p.length hk.1 hlt.le
      have heq : orderStatistic p k = x := le_antisymm hkx hxk
      have hlast := hk.2.2
      rw [heq] at hlast
      have hqualifies : Qualifies p alpha (rank p i) :=
        ⟨hfirst, hlength, by rw [hvalue]; exact hscaled.trans_lt hlast⟩
      exact absurd (hmax hqualifies) (not_le.mpr hlt)

/-- Whatever the Bonferroni correction finds is found. -/
theorem adjustedValue_lt_of_bonferroni (hp : ∀ y ∈ p, 0 ≤ y) (h : p[i]? = some x)
    (hlt : x < alpha / p.length) : adjustedValue p i < alpha := by
  have hx : x ∈ p := List.mem_of_getElem? h
  have hpos : (0 : F) < p.length := by exact_mod_cast List.length_pos_of_mem hx
  obtain ⟨hcount, -, -⟩ := orderStatistic_atMost hx
  have hscaled := scaled_antitone (hp x hx) p.length le_rfl hcount
  rw [Nat.cast_one, div_one] at hscaled
  have hadjusted : adjustedValue p i ≤ x * p.length :=
    (adjusted_le_iff hp h _).mpr (Or.inr ⟨x, hx, le_rfl, hscaled⟩)
  exact hadjusted.trans_lt ((lt_div_iff₀ hpos).mp hlt)

end Ordered

end Adjusted

theorem mem_bonferroni {p : List F} {alpha : F} {i : ℕ}
    (h : i ∈ (bonferroniCorrection p alpha).significant) :
    ∃ x, p[i]? = some x ∧ x < alpha / p.length := by
  rw [bonferroniCorrection] at h
  by_cases hlength : p.length = 0
  · simp only [if_pos hlength, Correction.significant] at h
    cases h
  · simp only [if_neg hlength, Correction.significant] at h
    obtain ⟨e, he, hi⟩ := List.mem_filterMap.mp h
    split at hi
    · rename_i hlt
      cases hi
      exact ⟨e.1, List.mem_zipIdx_iff_getElem?.mp he, hlt⟩
    · cases hi

/-- The significant indices are reported once, in ascending order. -/
theorem pairwise_significant (p : List F) (alpha : F) :
    (benjaminiHochberg p alpha).significant.Pairwise (· < ·) := by
  rw [benjaminiHochberg]
  by_cases hlength : p.length = 0
  · simp only [if_pos hlength, Correction.significant]
    exact List.Pairwise.nil
  · simp only [if_neg hlength, Correction.significant]
    have hnodup := nodup_significant_walkDown p.length alpha (nodup_indexed p) 0
    have hperm := List.perm_insertionSort (· ≤ ·)
      (walkDown p.length alpha (indexed p) 0).significant
    have hsorted := List.pairwise_insertionSort (· ≤ ·)
      (walkDown p.length alpha (indexed p) 0).significant
    exact (hsorted.and (hperm.nodup_iff.mpr hnodup)).imp fun h => lt_of_le_of_ne h.1 h.2

/-- For values between zero and one, in any order and with any ties, and a level up to one: the
significant indices are those of the values up to the order statistic of the largest rank that
qualifies; an adjusted value is the minimum over the ranks from its own on, between the value and
one; it grows with the value and does not depend on the order of the values; and what the Bonferroni
correction finds is found. -/
theorem benjamini_hochberg_step_up [IsStrictOrderedRing F] {p : List F}
    (hp : ∀ x ∈ p, 0 ≤ x ∧ x ≤ 1) {alpha : F} (halpha : 0 < alpha ∧ alpha ≤ 1) :
    ((benjaminiHochberg p alpha).significant.Pairwise (· < ·) ∧
      ∀ i : ℕ, i ∈ (benjaminiHochberg p alpha).significant ↔
        ∃ k, IsGreatest {k | Qualifies p alpha k} k ∧
          ∃ x, p[i]? = some x ∧ x ≤ orderStatistic p k) ∧
    (∀ (i : ℕ) (x : F), p[i]? = some x → ∃ a, (benjaminiHochberg p alpha).adjusted[i]? = some a ∧
      IsLeast {b | ∃ j, rank p i ≤ j ∧ j ≤ p.length ∧
        b = min 1 (orderStatistic p j * p.length / j)} a ∧ x ≤ a ∧ a ≤ 1) ∧
    (∀ (i j : ℕ) (x y a b : F), p[i]? = some x → p[j]? = some y →
      (benjaminiHochberg p alpha).adjusted[i]? = some a →
      (benjaminiHochberg p alpha).adjusted[j]? = some b →
        (x ≤ y → a ≤ b) ∧ (x = y → a = b)) ∧
    (∀ (σ : Equiv.Perm (Fin p.length)) (i : Fin p.length),
      (benjaminiHochberg (List.ofFn (p.get ∘ σ)) alpha).adjusted[(i : ℕ)]? =
          (benjaminiHochberg p alpha).adjusted[(σ i : ℕ)]? ∧
        ((i : ℕ) ∈ (benjaminiHochberg (List.ofFn (p.get ∘ σ)) alpha).significant ↔
          (σ i : ℕ) ∈ (benjaminiHochberg p alpha).significant)) ∧
    ∀ i ∈ (bonferroniCorrection p alpha).significant,
      i ∈ (benjaminiHochberg p alpha).significant := by
  have hnonneg : ∀ x ∈ p, 0 ≤ x := fun x hx => (hp x hx).1
  refine ⟨⟨pairwise_significant p alpha, fun i => ?_⟩, fun i x h => ?_, ?_, fun σ i => ?_,
    fun i hi => ?_⟩
  · rw [mem_significant_iff]
    constructor
    · rintro ⟨x, hx, hlt⟩
      obtain ⟨k, hk, hxk⟩ := (adjustedValue_lt_iff_qualifies hnonneg halpha.2 hx).mp hlt
      exact ⟨k, hk, x, hx, hxk⟩
    · rintro ⟨k, hk, x, hx, hxk⟩
      exact ⟨x, hx, (adjustedValue_lt_iff_qualifies hnonneg halpha.2 hx).mpr ⟨k, hk, hxk⟩⟩
  · exact ⟨_, adjusted_getElem? h, isLeast_adjustedValue h, le_adjustedValue hp h,
      (adjusted_le_iff hnonneg h 1).mpr (Or.inl le_rfl)⟩
  · intro i j x y a b hx hy ha hb
    rw [adjusted_getElem? hx, Option.some.injEq] at ha
    rw [adjusted_getElem? hy, Option.some.injEq] at hb
    subst ha hb
    refine ⟨adjustedValue_mono hnonneg hx hy, fun hxy => le_antisymm ?_ ?_⟩
    · exact adjustedValue_mono hnonneg hx hy hxy.le
    · exact adjustedValue_mono hnonneg hy hx hxy.ge
  · have hperm : (List.ofFn (p.get ∘ σ)).Perm p := by
      have hofFn := σ.ofFn_comp_perm p.get
      rwa [List.ofFn_get] at hofFn
    have hi : (List.ofFn (p.get ∘ σ))[(i : ℕ)]? = some (p.get (σ i)) := by
      rw [List.getElem?_ofFn, dif_pos i.isLt]
      rfl
    have hσ : p[(σ i : ℕ)]? = some (p.get (σ i)) := List.getElem?_eq_getElem (σ i).isLt
    have hsame := adjustedValue_perm hperm hnonneg hi hσ
    rw [adjusted_getElem? hi, adjusted_getElem? hσ, hsame, mem_significant_iff,
      mem_significant_iff, hsame]
    refine ⟨rfl, fun ⟨_, _, hlt⟩ => ⟨_, hσ, hlt⟩, fun ⟨_, _, hlt⟩ => ⟨_, hi, hlt⟩⟩
  · obtain ⟨x, hx, hlt⟩ := mem_bonferroni hi
    exact mem_significant_iff.mpr ⟨x, hx, adjustedValue_lt_of_bonferroni hnonneg hx hlt⟩

/-- Four values with a tie, of which the first and the tied ones are significant. -/
theorem benjamini_hochberg_step_up_ties :
    (benjaminiHochberg [1 / 100, 3 / 100, 3 / 100, (1 : ℚ)] (1 / 20)).significant.Pairwise
        (· < ·) ∧
      ∀ i ∈ (bonferroniCorrection [1 / 100, 3 / 100, 3 / 100, (1 : ℚ)] (1 / 20)).significant,
        i ∈ (benjaminiHochberg [1 / 100, 3 / 100, 3 / 100, (1 : ℚ)] (1 / 20)).significant := by
  have hlaws := benjamini_hochberg_step_up (p := [1 / 100, 3 / 100, 3 / 100, (1 : ℚ)])
    (by decide +kernel) (by decide +kernel : (0 : ℚ) < 1 / 20 ∧ (1 / 20 : ℚ) ≤ 1)
  exact ⟨hlaws.1.1, hlaws.2.2.2.2⟩

example :
    (benjaminiHochberg [1 / 100, 3 / 100, 3 / 100, (1 : ℚ)] (1 / 20)).significant = [0, 1, 2] := by
  decide +kernel

end QuantumSentinel.Statistics
