import Mathlib.Algebra.Order.Ring.Int
import QuantumSentinel.Datasets.Values
import QuantumSentinel.MarketData.Series

/-!
# Market data: trailing windows

A period is a number of months that end before a day, and starts on the same day of an earlier
month, or on the last day of it.  A snapshot requests a period that ends tomorrow and a week more;
what it returns is cut to a period that ends with the data.

Main results:

- Definitions `fetchStart` and `windowStart`: the two first days.
- Theorem `Date.month_of_earlier`: what a few days change of the month and the day.
- Theorem `fetch_covers`: when the fetch covers the window.

Current gaps:

- The last session is a day, whatever the calendar of the exchange.
-/

namespace QuantumSentinel.MarketData

open Lib Datasets

/-! ## Dates -/

/-- `datetime.date` -/
structure Date where
  year : ℕ
  month : ℕ
  day : ℕ
  inRange : (1 ≤ year ∧ year ≤ 9999) ∧ (1 ≤ month ∧ month ≤ 12) ∧
    1 ≤ day ∧ day ≤ daysInMonth year month
deriving DecidableEq

namespace Date

/-- `datetime.date(year, month, day)` -/
def ofParts (year month day : ℕ) : Except Raised Date :=
  if h : (1 ≤ year ∧ year ≤ 9999) ∧ (1 ≤ month ∧ month ≤ 12) ∧
      1 ≤ day ∧ day ≤ daysInMonth year month then .ok ⟨year, month, day, h⟩
  else .error .dateRange

/-- Days since 1970-01-01. -/
def ordinal (d : Date) : ℤ :=
  daysSinceEpoch d.year d.month d.day

/-- The day after. -/
def next (d : Date) : Except Raised Date :=
  if d.day < daysInMonth d.year d.month then ofParts d.year d.month (d.day + 1)
  else if d.month < 12 then ofParts d.year (d.month + 1) 1
  else ofParts (d.year + 1) 1 1

/-- The day before. -/
def previous (d : Date) : Except Raised Date :=
  if 1 < d.day then ofParts d.year d.month (d.day - 1)
  else if 1 < d.month then ofParts d.year (d.month - 1) (daysInMonth d.year (d.month - 1))
  else ofParts (d.year - 1) 12 31

/-- A day a number of days before. -/
def earlier (d : Date) : ℕ → Except Raised Date
  | 0 => .ok d
  | n + 1 => do
      let later ← d.earlier n
      later.previous

/-- The months since year 0. -/
def monthIndex (d : Date) : ℤ :=
  d.year * 12 + d.month - 1

end Date

/-! ## Months -/

/-- The length of a month. -/
def monthLength (index : ℤ) : ℕ :=
  daysInMonth (index / 12).toNat (index % 12 + 1).toNat

/-- The first day of a month, in days since 1970-01-01. -/
def monthStart (index : ℤ) : ℤ :=
  daysSinceEpoch (index / 12).toNat (index % 12 + 1).toNat 1

/-- A month has 28 to 31 days. -/
theorem daysInMonth_bounds (year month : ℕ) :
    28 ≤ daysInMonth year month ∧ daysInMonth year month ≤ 31 := by
  unfold daysInMonth
  split
  · split
    · omega
    · omega
  · split
    · omega
    · omega

/-- Days of a month are counted from its first. -/
theorem daysSinceEpoch_day (year month day : ℕ) :
    daysSinceEpoch year month day = daysSinceEpoch year month 1 + day - 1 := by
  simp only [daysSinceEpoch]
  push_cast
  ring

/-- A month ends where the next one starts. -/
theorem daysSinceEpoch_month (year : ℕ) {month : ℕ} (h : 1 ≤ month) :
    daysSinceEpoch year (month + 1) 1 = daysSinceEpoch year month 1 + daysInMonth year month := by
  obtain ⟨m, rfl⟩ := Nat.exists_eq_add_of_le' h
  simp only [daysSinceEpoch, Nat.add_sub_cancel, List.range_succ, List.map_append, List.sum_append,
    List.map_cons, List.map_nil, List.sum_cons, List.sum_nil]
  push_cast
  ring

/-- The days of a year before December. -/
theorem sum_daysInMonth (year : ℕ) :
    ((List.range 11).map fun m => daysInMonth year (m + 1)).sum =
      if isLeap year then 335 else 334 := by
  cases hleap : isLeap year with
  | false => simp [List.range_succ, daysInMonth, hleap]
  | true => simp [List.range_succ, daysInMonth, hleap]

/-- December ends where the next year starts. -/
theorem daysSinceEpoch_year {year : ℕ} (h : 1 ≤ year) :
    daysSinceEpoch (year + 1) 1 1 = daysSinceEpoch year 12 1 + 31 := by
  obtain ⟨y, rfl⟩ := Nat.exists_eq_add_of_le' h
  have hsum := sum_daysInMonth (y + 1)
  have hleap : isLeap (y + 1) = true ↔
      (y + 1) % 4 = 0 ∧ ((y + 1) % 100 ≠ 0 ∨ (y + 1) % 400 = 0) := by
    simp only [isLeap, Bool.and_eq_true, Bool.or_eq_true, decide_eq_true_eq]
  simp only [daysSinceEpoch, Nat.add_sub_cancel]
  simp only [show 12 - 1 = 11 from rfl, show 1 - 1 = 0 from rfl, hsum, List.range_zero,
    List.map_nil, List.sum_nil]
  by_cases hyear : isLeap (y + 1) = true
  · have hparts := hleap.mp hyear
    rw [if_pos hyear]
    omega
  · have hparts := mt hleap.mpr hyear
    rw [if_neg hyear]
    omega

/-- A month starts when the one before it is over. -/
theorem monthStart_succ {index : ℤ} (h : 12 ≤ index) :
    monthStart (index + 1) = monthStart index + monthLength index := by
  unfold monthStart monthLength
  by_cases hmonth : index % 12 = 11
  · have hyear : ((index + 1) / 12).toNat = (index / 12).toNat + 1 := by omega
    have hfirst : ((index + 1) % 12 + 1).toNat = 1 := by omega
    have hlast : (index % 12 + 1).toNat = 12 := by omega
    rw [hyear, hfirst, hlast, daysSinceEpoch_year (by omega)]
    rfl
  · have hyear : ((index + 1) / 12).toNat = (index / 12).toNat := by omega
    have hnext : ((index + 1) % 12 + 1).toNat = (index % 12 + 1).toNat + 1 := by omega
    rw [hyear, hnext, daysSinceEpoch_month _ (by omega)]

theorem monthLength_bounds (index : ℤ) : 28 ≤ monthLength index ∧ monthLength index ≤ 31 :=
  daysInMonth_bounds _ _

/-- Months follow one another, none of them shorter than four weeks. -/
theorem monthStart_le {a b : ℤ} (ha : 12 ≤ a) (h : a ≤ b) :
    monthStart a + 28 * (b - a) ≤ monthStart b := by
  induction b, h using Int.leInduction with
  | base => omega
  | succ b hab ih =>
    have hlength := (monthLength_bounds b).1
    rw [monthStart_succ (ha.trans hab)]
    omega

/-! ## Dates and months -/

namespace Date

variable {d d' : Date}

theorem month_bounds (d : Date) : 12 ≤ d.monthIndex := by
  have hrange := d.inRange
  unfold monthIndex
  omega

theorem monthIndex_div (d : Date) : (d.monthIndex / 12).toNat = d.year := by
  have hrange := d.inRange
  unfold monthIndex
  omega

theorem monthIndex_mod (d : Date) : (d.monthIndex % 12 + 1).toNat = d.month := by
  have hrange := d.inRange
  unfold monthIndex
  omega

theorem day_bounds (d : Date) : 1 ≤ d.day ∧ d.day ≤ monthLength d.monthIndex := by
  rw [monthLength, monthIndex_div, monthIndex_mod]
  exact d.inRange.2.2

/-- The ordinal of a date, from the start of its month. -/
theorem ordinal_eq (d : Date) : d.ordinal = monthStart d.monthIndex + d.day - 1 := by
  rw [ordinal, daysSinceEpoch_day, monthStart, monthIndex_div, monthIndex_mod]

/-- A date that is built has the parts it is built from. -/
theorem ofParts_ok {year month day : ℕ} (h : ofParts year month day = .ok d) :
    d.year = year ∧ d.month = month ∧ d.day = day := by
  unfold ofParts at h
  split at h
  · cases h
    exact ⟨rfl, rfl, rfl⟩
  · cases h

/-- The day after is one day later. -/
theorem ordinal_next (h : d.next = .ok d') : d'.ordinal = d.ordinal + 1 := by
  have hrange := d.inRange
  unfold next at h
  split at h
  · obtain ⟨hyear, hmonth, hday⟩ := ofParts_ok h
    rw [ordinal, ordinal, hyear, hmonth, hday, daysSinceEpoch_day, daysSinceEpoch_day _ _ d.day]
    push_cast
    ring
  · have hlast : d.day = daysInMonth d.year d.month := by omega
    split at h
    · obtain ⟨hyear, hmonth, hday⟩ := ofParts_ok h
      rw [ordinal, ordinal, hyear, hmonth, hday, daysSinceEpoch_month _ hrange.2.1.1,
        daysSinceEpoch_day _ _ d.day, hlast]
      ring
    · have hdecember : d.month = 12 := by omega
      obtain ⟨hyear, hmonth, hday⟩ := ofParts_ok h
      rw [hdecember] at hlast
      rw [ordinal, ordinal, hyear, hmonth, hday, daysSinceEpoch_year hrange.1.1,
        daysSinceEpoch_day _ _ d.day, hlast, hdecember, show daysInMonth d.year 12 = 31 from rfl]
      push_cast
      ring

/-- The day before is one day earlier. -/
theorem ordinal_previous (h : d.previous = .ok d') : d'.ordinal + 1 = d.ordinal := by
  have hrange := d.inRange
  unfold previous at h
  split at h
  · obtain ⟨hyear, hmonth, hday⟩ := ofParts_ok h
    rw [ordinal, ordinal, hyear, hmonth, hday, daysSinceEpoch_day, daysSinceEpoch_day _ _ d.day]
    omega
  · have hfirst : d.day = 1 := by omega
    split at h
    · obtain ⟨hyear, hmonth, hday⟩ := ofParts_ok h
      have hnext := daysSinceEpoch_month d.year (show 1 ≤ d.month - 1 by omega)
      rw [Nat.sub_add_cancel hrange.2.1.1] at hnext
      rw [ordinal, ordinal, hyear, hmonth, hday, hfirst, hnext, daysSinceEpoch_day]
      ring
    · have hjanuary : d.month = 1 := by omega
      obtain ⟨hyear, hmonth, hday⟩ := ofParts_ok h
      have hpositive : 1 ≤ d'.year := d'.inRange.1.1
      have hnext := daysSinceEpoch_year (show 1 ≤ d.year - 1 by omega)
      rw [Nat.sub_add_cancel hrange.1.1] at hnext
      rw [ordinal, ordinal, hyear, hmonth, hday, hfirst, hjanuary, hnext, daysSinceEpoch_day]
      norm_num

/-- An earlier date is so many days earlier. -/
theorem ordinal_earlier {n : ℕ} (h : d.earlier n = .ok d') : d'.ordinal + n = d.ordinal := by
  induction n generalizing d' with
  | zero =>
    cases h
    exact add_zero _
  | succ n ih =>
    obtain ⟨later, hlater, hprevious⟩ := bind_eq_ok_iff.mp h
    have hstep := ordinal_previous hprevious
    have hrest := ih hlater
    push_cast
    omega

/-- Within four weeks a date is in the same month or in the month before. -/
theorem month_of_earlier {n : ℕ} (hn : n ≤ 28) (h : d'.ordinal + n = d.ordinal) :
    (d'.monthIndex = d.monthIndex ∧ d'.day + n = d.day) ∨
      (d'.monthIndex + 1 = d.monthIndex ∧ d'.day + n = d.day + monthLength d'.monthIndex) := by
  have hday := d.day_bounds
  have hday' := d'.day_bounds
  have hfirst := d.month_bounds
  have hfirst' := d'.month_bounds
  rw [ordinal_eq, ordinal_eq] at h
  rcases lt_trichotomy d'.monthIndex d.monthIndex with hlt | heq | hgt
  · have hsucc := monthStart_succ hfirst'
    by_cases hnext : d'.monthIndex + 1 = d.monthIndex
    · rw [← hnext, hsucc] at h
      exact Or.inr ⟨hnext, by omega⟩
    · -- a whole month would lie between them
      have hstart := monthStart_le (by omega) (show d'.monthIndex + 1 ≤ d.monthIndex by omega)
      omega
  · rw [heq] at h
    exact Or.inl ⟨heq, by omega⟩
  · have hstart := monthStart_le (by omega) (show d.monthIndex + 1 ≤ d'.monthIndex by omega)
    have hsucc := monthStart_succ hfirst
    omega

end Date

/-! ## Periods -/

/-- The months of a period that `PERIOD` matches. -/
def periodMonths (period : String) : Option ℕ :=
  match period.toList with
  | [a, 'y'] => if '1' ≤ a ∧ a ≤ '9' then some (digitsValue [a] * 12) else none
  | [a, b, 'y'] =>
    if ('1' ≤ a ∧ a ≤ '9') ∧ '0' ≤ b ∧ b ≤ '9' then some (digitsValue [a, b] * 12) else none
  | [a, 'm', 'o'] => if '1' ≤ a ∧ a ≤ '9' then some (digitsValue [a]) else none
  | [a, b, 'm', 'o'] =>
    if ('1' ≤ a ∧ a ≤ '9') ∧ '0' ≤ b ∧ b ≤ '9' then some (digitsValue [a, b]) else none
  | _ => none

/-- `period_start` -/
def periodStart (last : Date) (period : String) : Except Raised Date :=
  match periodMonths period with
  | none => .error (.period period)
  | some months =>
    let index := (last.year : ℤ) * 12 + last.month - 1 - months
    let year := index / 12
    let month := (index % 12 + 1).toNat
    if year < 1 then .error .dateRange
    else Date.ofParts year.toNat month (min last.day (daysInMonth year.toNat month))

/-- The month of a start, and its day. -/
theorem periodStart_ok {last start : Date} {period : String}
    (h : periodStart last period = .ok start) :
    ∃ months : ℕ, periodMonths period = some months ∧
      start.monthIndex = last.monthIndex - months ∧
      start.day = min last.day (monthLength start.monthIndex) := by
  unfold periodStart at h
  split at h
  · cases h
  · rename_i months hmonths
    simp only at h
    split at h
    · cases h
    · obtain ⟨hyear, hmonth, hday⟩ := Date.ofParts_ok h
      refine ⟨months, hmonths, ?_, ?_⟩
      · rw [Date.monthIndex, Date.monthIndex, hyear, hmonth]
        omega
      · rw [monthLength, Date.monthIndex_div, Date.monthIndex_mod, hday, hyear, hmonth]

/-! ## The fetch and the window -/

/-- The first day that `_snapshot` requests. -/
def fetchStart (today : Date) (period : String) : Except Raised Date := do
  let tomorrow ← today.next
  let start ← periodStart tomorrow period
  start.earlier 7

/-- The first day of the window of `frame_from`. -/
def windowStart (last : Date) (period : String) : Except Raised Date := do
  let anchor ← last.next
  periodStart anchor period

/-- The day after the data and tomorrow are in one month, or the month that the window starts in
is longer than the month of that day by no more than the margin leaves. -/
def MarginSuffices (today last : Date) (days months : ℕ) : Prop :=
  ∀ tomorrow anchor, today.next = .ok tomorrow → last.next = .ok anchor →
    anchor.monthIndex = tomorrow.monthIndex ∨
      days + monthLength (anchor.monthIndex - months) ≤ 7 + monthLength anchor.monthIndex

/-- When the fetch covers the window. -/
theorem fetch_covers {today last start window : Date} {period : String} {days months : ℕ}
    (hdays : 1 ≤ days ∧ days ≤ 7) (hlast : today.earlier days = .ok last)
    (hmonths : periodMonths period = some months)
    (hfetch : fetchStart today period = .ok start)
    (hwindow : windowStart last period = .ok window) :
    start.ordinal ≤ window.ordinal ↔ MarginSuffices today last days months := by
  obtain ⟨tomorrow, htomorrow, hrest⟩ := bind_eq_ok_iff.mp hfetch
  obtain ⟨first, hfirst, hearlier⟩ := bind_eq_ok_iff.mp hrest
  obtain ⟨anchor, hanchor, hstart⟩ := bind_eq_ok_iff.mp hwindow
  obtain ⟨_, hsome, hmonth, hday⟩ := periodStart_ok hfirst
  obtain ⟨_, hsome', hmonth', hday'⟩ := periodStart_ok hstart
  cases Option.some.inj (hsome.symm.trans hmonths)
  cases Option.some.inj (hsome'.symm.trans hmonths)
  have hback := Date.ordinal_earlier hearlier
  have hgap : anchor.ordinal + days = tomorrow.ordinal := by
    have hnext := Date.ordinal_next htomorrow
    have hnext' := Date.ordinal_next hanchor
    have hearly := Date.ordinal_earlier hlast
    omega
  have hlength := monthLength_bounds first.monthIndex
  have hlength' := monthLength_bounds anchor.monthIndex
  have hanchorDay := anchor.day_bounds
  have htomorrowDay := tomorrow.day_bounds
  have hmargin : MarginSuffices today last days months ↔
      anchor.monthIndex = tomorrow.monthIndex ∨
        days + monthLength window.monthIndex ≤ 7 + monthLength anchor.monthIndex := by
    rw [hmonth', MarginSuffices]
    constructor
    · exact fun h => h tomorrow anchor htomorrow hanchor
    · intro h tomorrow' anchor' ht ha
      cases Except.ok.inj (ht.symm.trans htomorrow)
      cases Except.ok.inj (ha.symm.trans hanchor)
      exact h
  rw [hmargin]
  have horder : start.ordinal ≤ window.ordinal ↔
      monthStart first.monthIndex + first.day ≤ monthStart window.monthIndex + window.day + 7 := by
    have hfirstDay := first.ordinal_eq
    have hwindowDay := window.ordinal_eq
    omega
  rw [horder, hday, hday']
  rcases Date.month_of_earlier (by omega) hgap with ⟨hmonths, hdayGap⟩ | ⟨hmonths, hdayGap⟩
  · -- one month: clamping both days to one length brings them no further apart
    have hequal : first.monthIndex = window.monthIndex := by omega
    rw [hequal]
    exact iff_of_true (by omega) (Or.inl hmonths)
  · -- the window starts a month earlier than the fetch without its margin
    have hindex : first.monthIndex = window.monthIndex + 1 := by omega
    have hsucc := monthStart_succ window.month_bounds
    rw [hindex] at hlength ⊢
    rw [hsucc]
    constructor
    · intro h
      exact Or.inr (by omega)
    · rintro (h | h)
      · omega
      · omega

/-- A long weekend in the middle of a month. -/
theorem fetch_covers_june :
    ∃ start window, fetchStart ⟨2025, 6, 16, by decide⟩ "1y" = .ok start ∧
      windowStart ⟨2025, 6, 12, by decide⟩ "1y" = .ok window ∧ start.ordinal ≤ window.ordinal := by
  have hmonth : MarginSuffices ⟨2025, 6, 16, by decide⟩ ⟨2025, 6, 12, by decide⟩ 4 12 := by
    intro tomorrow anchor htomorrow hanchor
    cases htomorrow
    cases hanchor
    exact Or.inl rfl
  have hfetch : fetchStart ⟨2025, 6, 16, by decide⟩ "1y" = .ok ⟨2024, 6, 10, by decide⟩ := rfl
  have hwindow : windowStart ⟨2025, 6, 12, by decide⟩ "1y" = .ok ⟨2024, 6, 13, by decide⟩ := rfl
  have hmonths : periodMonths "1y" = some 12 := rfl
  exact ⟨_, _, hfetch, hwindow,
    (fetch_covers (show 1 ≤ 4 ∧ 4 ≤ 7 by decide) rfl hmonths hfetch hwindow).mpr hmonth⟩

/-- The end of February: the fetch starts on 25 January, and the window on the 22nd. -/
theorem fetch_misses_january :
    ∃ last start window, Date.earlier ⟨2025, 2, 28, by decide⟩ 7 = .ok last ∧
      fetchStart ⟨2025, 2, 28, by decide⟩ "1mo" = .ok start ∧
      windowStart last "1mo" = .ok window ∧ ¬start.ordinal ≤ window.ordinal :=
  ⟨⟨2025, 2, 21, by decide⟩, ⟨2025, 1, 25, by decide⟩, ⟨2025, 1, 22, by decide⟩, rfl, rfl, rfl,
    by decide⟩

end QuantumSentinel.MarketData
