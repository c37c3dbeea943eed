import Mathlib.Algebra.Order.BigOperators.Group.List
import Mathlib.Algebra.Order.Ring.Rat
import Mathlib.Tactic.Linarith
import Mathlib.Tactic.FieldSimp
import QuantumSentinel.MarketData.Series

/-!
# Market data: total return

`total_return_factor` goes through the dividends in the order of their ex-dates and scales a
prefix of the factors for each of them; `_adjusted` multiplies the prices of a series by it.

Main results:

- Definition `totalReturnFactor`: the loop over the dividends.
- Theorem `totalReturnFactor_spec`: the factor in closed form.
- Theorem `total_return_factor`: its bounds, its order, and the returns across an ex-date.
- Theorem `adjusted_eq`: the adjusted bars of a series.

Current gaps:

- The products are those of exact numbers.
-/

namespace QuantumSentinel.MarketData

open Lib

/-! ## The factor -/

/-- `np.searchsorted` in a sorted array: the number of elements below a value. -/
def searchsorted (sessions : List ℤ) (exDate : ℤ) : ℕ :=
  sessions.countP fun session => decide (session < exDate)

/-- `factor[:first] *= c` -/
def scalePrefix (first : ℕ) (c : ℚ) (factor : List ℚ) : List ℚ :=
  (factor.take first).map (fun x => x * c) ++ factor.drop first

/-- One dividend. -/
def applyDividend (sessions : List ℤ) (close : List ℚ) (symbol : String) (factor : List ℚ)
    (dividend : ℤ × ℚ) : Except Raised (List ℚ) :=
  let first := searchsorted sessions dividend.1
  if first = 0 then .ok factor
  else
    match close[first - 1]? with
    | none => .error .indexError
    | some previous =>
      if 0 < dividend.2 ∧ dividend.2 < previous then
        .ok (scalePrefix first (1 - dividend.2 / previous) factor)
      else .error (.dividend symbol dividend.2 dividend.1 previous)

/-- The order of pairs. -/
def pairLe (d d' : ℤ × ℚ) : Bool :=
  decide (d.1 < d'.1) || (decide (d.1 = d'.1) && decide (d.2 ≤ d'.2))

/-- `total_return_factor` -/
def totalReturnFactor (sessions : List ℤ) (close : List ℚ) (exDates : List ℤ) (amounts : List ℚ)
    (symbol : String) : Except Raised (List ℚ) :=
  ((exDates.zip amounts).mergeSort pairLe).foldlM (applyDividend sessions close symbol)
    (List.replicate close.length 1)

/-! ## What a dividend is worth -/

/-- The close of the last session before a day. -/
def previousClose (sessions : List ℤ) (close : List ℚ) (exDate : ℤ) : ℚ :=
  ((((sessions.zip close).filter fun bar => decide (bar.1 < exDate)).getLast?).map Prod.snd).getD 0

/-- What is left of a price behind a dividend. -/
def remainder (sessions : List ℤ) (close : List ℚ) (dividend : ℤ × ℚ) : ℚ :=
  1 - dividend.2 / previousClose sessions close dividend.1

/-- The product over the dividends whose ex-date is after a session. -/
def laterRemainders (sessions : List ℤ) (close : List ℚ) (dividends : List (ℤ × ℚ))
    (session : ℤ) : ℚ :=
  ((dividends.filter fun d => decide (session < d.1)).map (remainder sessions close)).prod

section Sorted

variable {sessions : List ℤ} {close : List ℚ} {symbol : String}

theorem searchsorted_cons (s : ℤ) (rest : List ℤ) (exDate : ℤ) :
    searchsorted (s :: rest) exDate =
      searchsorted rest exDate + if s < exDate then 1 else 0 := by
  rw [searchsorted, searchsorted, List.countP_cons]
  simp only [decide_eq_true_eq]

/-- Nothing precedes the ex-date exactly when its position is zero. -/
theorem searchsorted_eq_zero_iff {exDate : ℤ} :
    searchsorted sessions exDate = 0 ↔ ∀ s ∈ sessions, exDate ≤ s := by
  rw [searchsorted, List.countP_eq_zero]
  simp only [decide_eq_true_eq, not_lt]

/-- The prefix in front of an ex-date holds the sessions before it. -/
theorem scalePrefix_map (hsorted : sessions.Pairwise (· < ·)) (exDate : ℤ) (c : ℚ) (g : ℤ → ℚ) :
    scalePrefix (searchsorted sessions exDate) c (sessions.map g) =
      sessions.map fun s => g s * if s < exDate then c else 1 := by
  induction sessions with
  | nil => rfl
  | cons s rest ih =>
    rw [List.pairwise_cons] at hsorted
    by_cases hs : s < exDate
    · rw [searchsorted_cons, if_pos hs, List.map_cons, List.map_cons, if_pos hs,
        ← ih hsorted.2]
      rfl
    · have hnone : ∀ s' ∈ s :: rest, exDate ≤ s' := by
        intro s' hs'
        rcases List.mem_cons.mp hs' with rfl | hs'
        · exact not_lt.mp hs
        · exact (not_lt.mp hs).trans (hsorted.1 s' hs').le
      rw [searchsorted_eq_zero_iff.mpr hnone, scalePrefix, List.take_zero, List.map_nil,
        List.nil_append, List.drop_zero]
      apply List.map_congr_left
      intro s' hs'
      rw [if_neg (not_lt.mpr (hnone s' hs')), mul_one]

/-- The bars before an ex-date are the first ones. -/
theorem filter_lt_eq_take (hsorted : sessions.Pairwise (· < ·))
    (hlength : sessions.length = close.length) (exDate : ℤ) :
    (sessions.zip close).filter (fun bar => decide (bar.1 < exDate)) =
      (sessions.zip close).take (searchsorted sessions exDate) := by
  induction sessions generalizing close with
  | nil => rfl
  | cons s rest ih =>
    rw [List.pairwise_cons] at hsorted
    cases close with
    | nil => cases hlength
    | cons c close =>
      by_cases hs : s < exDate
      · rw [searchsorted_cons, if_pos hs, List.zip_cons_cons, List.take_succ_cons,
          List.filter_cons_of_pos (by simpa using hs), ih hsorted.2 (Nat.succ.inj hlength)]
      · have hnone : ∀ s' ∈ s :: rest, exDate ≤ s' := by
          intro s' hs'
          rcases List.mem_cons.mp hs' with rfl | hs'
          · exact not_lt.mp hs
          · exact (not_lt.mp hs).trans (hsorted.1 s' hs').le
        rw [searchsorted_eq_zero_iff.mpr hnone, List.take_zero, List.filter_eq_nil_iff]
        intro bar hbar
        have hmem := (List.of_mem_zip hbar).1
        simpa using hnone bar.1 hmem

/-- The close that the loop looks at. -/
theorem getElem?_previousClose (hsorted : sessions.Pairwise (· < ·))
    (hlength : sessions.length = close.length) {exDate : ℤ}
    (hfirst : searchsorted sessions exDate ≠ 0) :
    close[searchsorted sessions exDate - 1]? = some (previousClose sessions close exDate) := by
  have hle : searchsorted sessions exDate ≤ sessions.length := List.countP_le_length
  have hzip : (sessions.zip close).length = close.length := by
    rw [List.length_zip, hlength, min_self]
  have hbar : (sessions.zip close)[searchsorted sessions exDate - 1]? =
      some (sessions[searchsorted sessions exDate - 1], close[searchsorted sessions exDate - 1]) := by
    rw [List.getElem?_eq_getElem (by omega), List.getElem_zip]
  rw [previousClose, filter_lt_eq_take hsorted hlength, List.getLast?_eq_getElem?,
    List.length_take, hzip, List.getElem?_take, min_eq_left (by omega), if_pos (by omega), hbar,
    List.getElem?_eq_getElem (by omega)]
  rfl

/-- What one dividend does, when it is not refused. -/
theorem applyDividend_ok (hsorted : sessions.Pairwise (· < ·))
    (hlength : sessions.length = close.length) {g : ℤ → ℚ} {d : ℤ × ℚ} {factor : List ℚ}
    (h : applyDividend sessions close symbol (sessions.map g) d = .ok factor) :
    (factor = sessions.map fun s => g s * if s < d.1 then remainder sessions close d else 1) ∧
      ((∃ s ∈ sessions, s < d.1) →
        0 < d.2 ∧ d.2 < previousClose sessions close d.1) := by
  rw [applyDividend] at h
  by_cases hfirst : searchsorted sessions d.1 = 0
  · simp only [if_pos hfirst] at h
    cases h
    have hnone := searchsorted_eq_zero_iff.mp hfirst
    refine ⟨List.map_congr_left fun s hs => ?_, fun ⟨s, hs, hlt⟩ => ?_⟩
    · rw [if_neg (not_lt.mpr (hnone s hs)), mul_one]
    · exact absurd hlt (not_lt.mpr (hnone s hs))
  · simp only [if_neg hfirst, getElem?_previousClose hsorted hlength hfirst] at h
    split at h
    · rename_i hamount
      cases h
      exact ⟨scalePrefix_map hsorted d.1 _ g, fun _ => hamount⟩
    · cases h

/-- What all of them do. -/
theorem foldlM_applyDividend (hsorted : sessions.Pairwise (· < ·))
    (hlength : sessions.length = close.length) {dividends : List (ℤ × ℚ)} {g : ℤ → ℚ}
    {factor : List ℚ}
    (h : dividends.foldlM (applyDividend sessions close symbol) (sessions.map g) = .ok factor) :
    (factor = sessions.map fun s => g s * laterRemainders sessions close dividends s) ∧
      ∀ d ∈ dividends, (∃ s ∈ sessions, s < d.1) →
        0 < d.2 ∧ d.2 < previousClose sessions close d.1 := by
  induction dividends generalizing g with
  | nil =>
    cases h
    refine ⟨List.map_congr_left fun s _ => ?_, List.forall_mem_nil _⟩
    exact (mul_one (g s)).symm
  | cons d rest ih =>
    rw [List.foldlM_cons] at h
    obtain ⟨scaled, hscaled, hrest⟩ := bind_eq_ok_iff.mp h
    obtain ⟨rfl, hd⟩ := applyDividend_ok hsorted hlength hscaled
    obtain ⟨hfactor, hamounts⟩ := ih hrest
    refine ⟨hfactor.trans (List.map_congr_left fun s _ => ?_),
      List.forall_mem_cons.mpr ⟨hd, hamounts⟩⟩
    by_cases hs : s < d.1
    · rw [if_pos hs, laterRemainders, laterRemainders,
        List.filter_cons_of_pos (by simpa using hs), List.map_cons, List.prod_cons, mul_assoc]
    · rw [if_neg hs, mul_one, laterRemainders, laterRemainders,
        List.filter_cons_of_neg (by simpa using hs)]

end Sorted

/-! ## The order of the dividends -/

theorem pairLe_trans (a b c : ℤ × ℚ) : pairLe a b → pairLe b c → pairLe a c := by
  simp only [pairLe, Bool.or_eq_true, Bool.and_eq_true, decide_eq_true_eq]
  rintro (hab | ⟨hab, hab'⟩) (hbc | ⟨hbc, hbc'⟩)
  · exact Or.inl (hab.trans hbc)
  · exact Or.inl (hbc ▸ hab)
  · exact Or.inl (hab ▸ hbc)
  · exact Or.inr ⟨hab.trans hbc, hab'.trans hbc'⟩

theorem pairLe_total (a b : ℤ × ℚ) : (pairLe a b || pairLe b a) = true := by
  simp only [pairLe, Bool.or_eq_true, Bool.and_eq_true, decide_eq_true_eq]
  rcases lt_trichotomy a.1 b.1 with hlt | heq | hgt
  · exact Or.inl (Or.inl hlt)
  · rcases le_total a.2 b.2 with hle | hle
    · exact Or.inl (Or.inr ⟨heq, hle⟩)
    · exact Or.inr (Or.inr ⟨heq.symm, hle⟩)
  · exact Or.inr (Or.inl hgt)

theorem pairLe_antisymm {a b : ℤ × ℚ} (hab : pairLe a b) (hba : pairLe b a) : a = b := by
  simp only [pairLe, Bool.or_eq_true, Bool.and_eq_true, decide_eq_true_eq] at hab hba
  rcases hab with hab | ⟨hday, hab⟩
  · rcases hba with hba | ⟨hday, -⟩
    · exact absurd hab (not_lt.mpr hba.le)
    · exact absurd hday.symm hab.ne
  · rcases hba with hba | ⟨-, hba⟩
    · exact absurd hday.symm hba.ne
    · exact Prod.ext hday (le_antisymm hab hba)

/-- Dividends in another order are sorted to the same list. -/
theorem mergeSort_pairLe {dividends dividends' : List (ℤ × ℚ)} (h : dividends.Perm dividends') :
    dividends.mergeSort pairLe = dividends'.mergeSort pairLe := by
  refine List.Perm.eq_of_pairwise (fun a b _ _ => pairLe_antisymm)
    (List.pairwise_mergeSort pairLe_trans pairLe_total _)
    (List.pairwise_mergeSort pairLe_trans pairLe_total _) ?_
  exact (List.mergeSort_perm _ _).trans (h.trans (List.mergeSort_perm _ _).symm)

/-- The factor does not depend on the order of the dividends. -/
theorem totalReturnFactor_perm (sessions : List ℤ) (close : List ℚ) (symbol : String)
    {exDates exDates' : List ℤ} {amounts amounts' : List ℚ}
    (h : (exDates.zip amounts).Perm (exDates'.zip amounts')) :
    totalReturnFactor sessions close exDates amounts symbol =
      totalReturnFactor sessions close exDates' amounts' symbol := by
  rw [totalReturnFactor, totalReturnFactor, mergeSort_pairLe h]

/-! ## Products of remainders -/

/-- The order of the dividends does not matter to the factor. -/
theorem laterRemainders_perm (sessions : List ℤ) (close : List ℚ)
    {dividends dividends' : List (ℤ × ℚ)} (h : dividends.Perm dividends') (session : ℤ) :
    laterRemainders sessions close dividends session =
      laterRemainders sessions close dividends' session :=
  ((h.filter _).map _).prod_eq

/-- The product over the dividends between two sessions. -/
def remaindersBetween (sessions : List ℤ) (close : List ℚ) (dividends : List (ℤ × ℚ))
    (session next : ℤ) : ℚ :=
  ((dividends.filter fun d => decide (session < d.1 ∧ d.1 ≤ next)).map
    (remainder sessions close)).prod

/-- The dividends after a session are those up to a later one, and those after that. -/
theorem laterRemainders_split (sessions : List ℤ) (close : List ℚ) (dividends : List (ℤ × ℚ))
    {session next : ℤ} (h : session < next) :
    laterRemainders sessions close dividends session =
      remaindersBetween sessions close dividends session next *
        laterRemainders sessions close dividends next := by
  induction dividends with
  | nil => exact (one_mul _).symm
  | cons d rest ih =>
    rw [laterRemainders, remaindersBetween, laterRemainders] at ih ⊢
    by_cases hnext : next < d.1
    · rw [List.filter_cons_of_pos (by simpa using h.trans hnext),
        List.filter_cons_of_neg (by simp only [decide_eq_true_eq]; omega),
        List.filter_cons_of_pos (by simpa using hnext), List.map_cons, List.map_cons,
        List.prod_cons, List.prod_cons, ih]
      ring
    · by_cases hsession : session < d.1
      · rw [List.filter_cons_of_pos (by simpa using hsession),
          List.filter_cons_of_pos (by simp only [decide_eq_true_eq]; omega),
          List.filter_cons_of_neg (by simpa using hnext), List.map_cons, List.map_cons,
          List.prod_cons, List.prod_cons, ih, mul_assoc]
      · rw [List.filter_cons_of_neg (by simpa using hsession),
          List.filter_cons_of_neg (by simp only [decide_eq_true_eq]; omega),
          List.filter_cons_of_neg (by simpa using hnext), ih]

/-- A product of factors above zero and up to one is one of them. -/
theorem prod_mem_Ioc {l : List ℚ} (h : ∀ x ∈ l, 0 < x ∧ x ≤ 1) : 0 < l.prod ∧ l.prod ≤ 1 := by
  induction l with
  | nil => exact ⟨one_pos, le_rfl⟩
  | cons x rest ih =>
    obtain ⟨hx, hrest⟩ := List.forall_mem_cons.mp h
    obtain ⟨hpos, hle⟩ := ih hrest
    rw [List.prod_cons]
    exact ⟨mul_pos hx.1 hpos, mul_le_one₀ hx.2 hpos.le hle⟩

/-- The remainder of a dividend that was not refused. -/
theorem remainder_mem_Ioo {sessions : List ℤ} {close : List ℚ} {d : ℤ × ℚ} (hpos : 0 < d.2)
    (hlt : d.2 < previousClose sessions close d.1) :
    0 < remainder sessions close d ∧ remainder sessions close d ≤ 1 := by
  have hprevious := hpos.trans hlt
  have hshare : d.2 / previousClose sessions close d.1 < 1 := (div_lt_one hprevious).mpr hlt
  have hnonneg : 0 < d.2 / previousClose sessions close d.1 := div_pos hpos hprevious
  rw [remainder]
  constructor
  · linarith
  · linarith

/-! ## Neighbours -/

section Neighbours

variable {sessions : List ℤ} {close : List ℚ}

/-- An ex-date behind one session and no later than the next. -/
theorem searchsorted_between (hsorted : sessions.Pairwise (· < ·)) {i : ℕ} {s s' exDate : ℤ}
    (hs : sessions[i]? = some s) (hs' : sessions[i + 1]? = some s') (hlt : s < exDate)
    (hle : exDate ≤ s') : searchsorted sessions exDate = i + 1 := by
  obtain ⟨hi, rfl⟩ := List.getElem?_eq_some_iff.mp hs
  obtain ⟨hi', rfl⟩ := List.getElem?_eq_some_iff.mp hs'
  have hmono := List.pairwise_iff_getElem.mp hsorted
  have hfront : (sessions.take (i + 1)).countP (fun s => decide (s < exDate)) = i + 1 := by
    have hall : (sessions.take (i + 1)).countP (fun s => decide (s < exDate)) =
        (sessions.take (i + 1)).length := by
      rw [List.countP_eq_length]
      intro s hs
      obtain ⟨j, hj, rfl⟩ := List.mem_iff_getElem.mp hs
      rw [List.length_take] at hj
      rw [List.getElem_take, decide_eq_true_eq]
      rcases (show j ≤ i by omega).lt_or_eq with hji | rfl
      · exact (hmono j i (by omega) hi hji).trans hlt
      · exact hlt
    rw [hall, List.length_take]
    omega
  have hback : (sessions.drop (i + 1)).countP (fun s => decide (s < exDate)) = 0 := by
    rw [List.countP_eq_zero]
    intro s hs
    obtain ⟨j, hj, rfl⟩ := List.mem_iff_getElem.mp hs
    rw [List.length_drop] at hj
    rw [List.getElem_drop, decide_eq_true_eq, not_lt]
    rcases Nat.eq_zero_or_pos j with rfl | hpos
    · exact hle
    · exact hle.trans (hmono (i + 1) (i + 1 + j) hi' (by omega) (by omega)).le
  rw [searchsorted, ← List.take_append_drop (i + 1) sessions, List.countP_append,
    hfront, hback]

/-- The close in front of such an ex-date. -/
theorem previousClose_between (hsorted : sessions.Pairwise (· < ·))
    (hlength : sessions.length = close.length) {i : ℕ} {s s' exDate : ℤ} {c : ℚ}
    (hs : sessions[i]? = some s) (hs' : sessions[i + 1]? = some s') (hc : close[i]? = some c)
    (hlt : s < exDate) (hle : exDate ≤ s') : previousClose sessions close exDate = c := by
  have hfirst := searchsorted_between hsorted hs hs' hlt hle
  have hclose : close[searchsorted sessions exDate - 1]? =
      some (previousClose sessions close exDate) :=
    getElem?_previousClose hsorted hlength (by omega)
  rw [hfirst, Nat.add_sub_cancel, hc] at hclose
  exact (Option.some.inj hclose).symm

end Neighbours

/-! ## The factor and the returns -/

/-- The factor in closed form, and what follows from it. -/
theorem totalReturnFactor_spec {sessions : List ℤ} {close : List ℚ} {exDates : List ℤ}
    {amounts : List ℚ} {symbol : String} {factor : List ℚ} (hsorted : sessions.Pairwise (· < ·))
    (hlength : sessions.length = close.length)
    (h : totalReturnFactor sessions close exDates amounts symbol = .ok factor) :
    factor = sessions.map (laterRemainders sessions close (exDates.zip amounts)) ∧
      ∀ d ∈ exDates.zip amounts, (∃ s ∈ sessions, s < d.1) →
        0 < d.2 ∧ d.2 < previousClose sessions close d.1 := by
  have hones : List.replicate close.length (1 : ℚ) = sessions.map fun _ => 1 := by
    rw [List.map_const', hlength]
  rw [totalReturnFactor, hones] at h
  obtain ⟨hfactor, hamounts⟩ := foldlM_applyDividend hsorted hlength h
  have hperm := List.mergeSort_perm (exDates.zip amounts) pairLe
  refine ⟨hfactor.trans (List.map_congr_left fun s _ => ?_),
    fun d hd => hamounts d (hperm.mem_iff.mpr hd)⟩
  rw [one_mul, laterRemainders_perm sessions close hperm]

/-- The factors lie between 0 and 1 and ascend with the sessions. -/
theorem laterRemainders_mem {sessions : List ℤ} {close : List ℚ} {dividends : List (ℤ × ℚ)}
    (hamounts : ∀ d ∈ dividends, (∃ s ∈ sessions, s < d.1) →
      0 < d.2 ∧ d.2 < previousClose sessions close d.1) {session : ℤ} (hs : session ∈ sessions) :
    0 < laterRemainders sessions close dividends session ∧
      laterRemainders sessions close dividends session ≤ 1 := by
  refine prod_mem_Ioc fun x hx => ?_
  obtain ⟨d, hd, rfl⟩ := List.mem_map.mp hx
  rw [List.mem_filter, decide_eq_true_eq] at hd
  obtain ⟨hpos, hlt⟩ := hamounts d hd.1 ⟨session, hs, hd.2⟩
  exact remainder_mem_Ioo hpos hlt

/-- A later session has a factor at least as large. -/
theorem laterRemainders_mono {sessions : List ℤ} {close : List ℚ} {dividends : List (ℤ × ℚ)}
    (hamounts : ∀ d ∈ dividends, (∃ s ∈ sessions, s < d.1) →
      0 < d.2 ∧ d.2 < previousClose sessions close d.1) {session next : ℤ}
    (hs : session ∈ sessions) (hnext : next ∈ sessions) (h : session < next) :
    laterRemainders sessions close dividends session ≤
      laterRemainders sessions close dividends next := by
  have hbetween : remaindersBetween sessions close dividends session next ≤ 1 := by
    refine (prod_mem_Ioc fun x hx => ?_).2
    obtain ⟨d, hd, rfl⟩ := List.mem_map.mp hx
    rw [List.mem_filter, decide_eq_true_eq] at hd
    obtain ⟨hpos, hlt⟩ := hamounts d hd.1 ⟨session, hs, hd.2.1⟩
    exact remainder_mem_Ioo hpos hlt
  rw [laterRemainders_split sessions close dividends h]
  exact mul_le_of_le_one_left (laterRemainders_mem hamounts hnext).1.le hbetween

/-- Across the only ex-date between two neighbours the dividend is added back. -/
theorem adjusted_return {sessions : List ℤ} {close : List ℚ} {dividends : List (ℤ × ℚ)}
    (hsorted : sessions.Pairwise (· < ·)) (hlength : sessions.length = close.length)
    (hamounts : ∀ d ∈ dividends, (∃ s ∈ sessions, s < d.1) →
      0 < d.2 ∧ d.2 < previousClose sessions close d.1) {i : ℕ} {s s' : ℤ} {c c' : ℚ} {d : ℤ × ℚ}
    (hs : sessions[i]? = some s) (hs' : sessions[i + 1]? = some s') (hc : close[i]? = some c)
    (honly : dividends.filter (fun d => decide (s < d.1 ∧ d.1 ≤ s')) = [d]) :
    c' * laterRemainders sessions close dividends s' /
        (c * laterRemainders sessions close dividends s) = c' / (c - d.2) := by
  have hd : d ∈ dividends ∧ s < d.1 ∧ d.1 ≤ s' := by
    have hmem : d ∈ dividends.filter (fun d => decide (s < d.1 ∧ d.1 ≤ s')) :=
      honly ▸ List.mem_singleton_self d
    rwa [List.mem_filter, decide_eq_true_eq] at hmem
  have hmem := List.mem_of_getElem? hs
  have hlater := (laterRemainders_mem hamounts (List.mem_of_getElem? hs')).1
  obtain ⟨hpos, hlt⟩ := hamounts d hd.1 ⟨s, hmem, hd.2.1⟩
  have hprevious := previousClose_between hsorted hlength hs hs' hc hd.2.1 hd.2.2
  rw [hprevious] at hlt
  have hc₀ : c ≠ 0 := (hpos.trans hlt).ne'
  have hrest : c - d.2 ≠ 0 := (sub_pos.mpr hlt).ne'
  rw [laterRemainders_split sessions close dividends (hd.2.1.trans_le hd.2.2), remaindersBetween,
    honly, List.map_singleton, List.prod_singleton, remainder, hprevious]
  field_simp

/-- The total-return factor. -/
theorem total_return_factor {sessions : List ℤ} {close : List ℚ} {exDates : List ℤ}
    {amounts : List ℚ} {symbol : String} {factor : List ℚ} (hsorted : sessions.Pairwise (· < ·))
    (hlength : sessions.length = close.length)
    (h : totalReturnFactor sessions close exDates amounts symbol = .ok factor) :
    factor = sessions.map (laterRemainders sessions close (exDates.zip amounts)) ∧
      (∀ x ∈ factor, 0 < x ∧ x ≤ 1) ∧
      factor.Pairwise (· ≤ ·) ∧
      (∀ exDates' amounts', (exDates.zip amounts).Perm (exDates'.zip amounts') →
        totalReturnFactor sessions close exDates' amounts' symbol = .ok factor) ∧
      ∀ i s s' c c' f f' d, sessions[i]? = some s → sessions[i + 1]? = some s' →
        close[i]? = some c → close[i + 1]? = some c' →
        factor[i]? = some f → factor[i + 1]? = some f' →
        (exDates.zip amounts).filter (fun d => decide (s < d.1 ∧ d.1 ≤ s')) = [d] →
          c' * f' / (c * f) = c' / (c - d.2) := by
  obtain ⟨hfactor, hamounts⟩ := totalReturnFactor_spec hsorted hlength h
  refine ⟨hfactor, ?_, ?_, ?_, ?_⟩
  · intro x hx
    rw [hfactor] at hx
    obtain ⟨s, hs, rfl⟩ := List.mem_map.mp hx
    exact laterRemainders_mem hamounts hs
  · rw [hfactor, List.pairwise_map]
    exact hsorted.imp_of_mem fun hs hs' hlt => laterRemainders_mono hamounts hs hs' hlt
  · intro exDates' amounts' hperm
    rw [← totalReturnFactor_perm sessions close symbol hperm, h]
  · intro i s s' c c' f f' d hs hs' hc hc' hf hf' honly
    rw [hfactor, List.getElem?_map, hs] at hf
    rw [hfactor, List.getElem?_map, hs'] at hf'
    cases hf
    cases hf'
    exact adjusted_return hsorted hlength hamounts hs hs' hc honly

/-- Two dividends, one on a session and one between sessions. -/
theorem total_return_factor_two :
    totalReturnFactor [1, 2, 4] [10, 8, 16] [2, 3] [1, 4] "A" = .ok [9 / 20, 1 / 2, 1] ∧
      totalReturnFactor [1, 2, 4] [10, 8, 16] [3, 2] [4, 1] "A" = .ok [9 / 20, 1 / 2, 1] ∧
        (16 * 1 / (8 * (1 / 2)) : ℚ) = 16 / (8 - 4) := by
  have hfactor : totalReturnFactor [1, 2, 4] [10, 8, 16] [2, 3] [1, 4] "A" =
      .ok [9 / 20, 1 / 2, 1] := by
    rw [totalReturnFactor, List.mergeSort_of_pairwise (by decide +kernel)]
    decide +kernel
  obtain ⟨-, -, -, hperm, hreturn⟩ := total_return_factor (by decide) rfl hfactor
  exact ⟨hfactor, hperm [3, 2] [4, 1] (by decide +kernel),
    hreturn 1 2 4 8 16 (1 / 2) 1 (3, 4) rfl rfl rfl rfl rfl rfl (by decide +kernel)⟩

/-! ## Adjusted bars -/

/-- The prices of a bar times a factor; the volume stays. -/
def Bar.scale (b : Bar) (factor : ℚ) : Bar :=
  { b with
    openPrice := b.openPrice.map fun x => x * factor
    high := b.high.map fun x => x * factor
    low := b.low.map fun x => x * factor
    close := b.close * factor }

/-- `_adjusted` -/
def adjusted (symbol : String) (series : Series) : Except Raised (List Bar) :=
  let adjustment := series.identity.adjustment
  if adjustment ∉ ["split", "split_dividend"] then .error (.adjustment symbol adjustment)
  else
    (fun factor => List.zipWith Bar.scale series.bars factor) <$>
      if adjustment = "split" ∧ series.dividends.items ≠ [] then
        totalReturnFactor (series.bars.map Bar.session) (series.bars.map Bar.close)
          series.dividends.keys series.dividends.values symbol
      else .ok (List.replicate series.bars.length 1)

theorem zipWith_scale_map (bars : List Bar) (g : ℤ → ℚ) :
    List.zipWith Bar.scale bars ((bars.map Bar.session).map g) =
      bars.map fun b => b.scale (g b.session) := by
  induction bars with
  | nil => rfl
  | cons b rest ih =>
    rw [List.map_cons, List.map_cons, List.zipWith_cons_cons, ih, List.map_cons]

namespace Series

variable (s : Series)

theorem sessions_sorted : (s.bars.map Bar.session).Pairwise (· < ·) :=
  List.pairwise_map.mpr s.ascending

theorem sessions_length : (s.bars.map Bar.session).length = (s.bars.map Bar.close).length := by
  rw [List.length_map, List.length_map]

theorem zip_dividends : s.dividends.keys.zip s.dividends.values = s.dividends.items := by
  rw [Dict.keys, Dict.values, List.zip_map']
  exact List.map_id _

/-- What a bar is scaled by: the dividends behind it, if splits only are behind the series. -/
def laterFactor (session : ℤ) : ℚ :=
  if s.identity.adjustment = "split" then
    laterRemainders (s.bars.map Bar.session) (s.bars.map Bar.close) s.dividends.items session
  else 1

end Series

/-- Split-adjusted bars are completed with the dividends behind them, others are as they were. -/
theorem adjusted_eq {symbol : String} {series : Series} {bars : List Bar}
    (h : adjusted symbol series = .ok bars) :
    bars = series.bars.map fun b => b.scale (series.laterFactor b.session) := by
  unfold adjusted at h
  simp only at h
  split at h
  · cases h
  obtain ⟨factor, hfactor, rfl⟩ := map_eq_ok_iff.mp h
  refine Eq.trans (congrArg (List.zipWith Bar.scale series.bars) ?_)
    (zipWith_scale_map series.bars series.laterFactor)
  by_cases hdividends : series.identity.adjustment = "split" ∧ series.dividends.items ≠ []
  · rw [if_pos hdividends] at hfactor
    have hspec := totalReturnFactor_spec series.sessions_sorted series.sessions_length hfactor
    rw [hspec.1, series.zip_dividends]
    exact List.map_congr_left fun session _ => (if_pos hdividends.1).symm
  · rw [if_neg hdividends] at hfactor
    cases hfactor
    have hone : ∀ session, series.laterFactor session = 1 := by
      intro session
      unfold Series.laterFactor
      split
      · rename_i hsplit
        have hnil : series.dividends.items = [] := by
          by_contra hne
          exact hdividends ⟨hsplit, hne⟩
        rw [hnil]
        rfl
      · rfl
    rw [List.map_congr_left fun session _ => hone session, List.map_const', List.length_map]

end QuantumSentinel.MarketData
