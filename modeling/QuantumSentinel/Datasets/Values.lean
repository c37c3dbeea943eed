import Mathlib.Data.Int.Basic
import QuantumSentinel.Datasets.Schema
import QuantumSentinel.Lib.Outcomes

/-!
# Datasets: values

The values of a column as the callers of `Table.build` pass them, and the functions that
bring them to the column's type.  A normalised value is a cell; `None`, a `NaN` and
a `NaT` are all the null cell.

Main results:

- Definition `normalise`: the four functions of `_NORMALISE`.
- Theorem `normalise_fits`: a normalised cell is null or one its column admits.
- Theorem `normalise_error`: an error names the column.

Current gaps:

- NumPy units that are no fixed part of a day, and conversions of other number types to
  binary64, which NumPy makes before these functions look at the values.
- The text of the value in the error of `_one_date`.
-/

namespace QuantumSentinel.Datasets

open Lib

/-! ## Cells -/

/-- A binary64 number, by its bits. -/
structure Float64 where
  bits : UInt64
deriving DecidableEq, Repr

namespace Float64

/-- The bits without the sign. -/
def magnitude (x : Float64) : ℕ :=
  x.bits.toNat % 2 ^ 63

def isNaN (x : Float64) : Bool :=
  decide (0x7ff * 2 ^ 52 < x.magnitude)

def isInf (x : Float64) : Bool :=
  decide (x.magnitude = 0x7ff * 2 ^ 52)

/-- `np.where(x == 0.0, 0.0, x)` -/
def unsignedZero (x : Float64) : Float64 :=
  if x.magnitude = 0 then ⟨0⟩ else x

/-- A number as a column holds it: finite, and its zero has no sign. -/
def isPlain (x : Float64) : Bool :=
  !x.isNaN && !x.isInf && decide (x.unsignedZero = x)

/-- `np.nan` -/
def nan : Float64 :=
  ⟨0x7ff8000000000000⟩

theorem unsignedZero_idem (x : Float64) : x.unsignedZero.unsignedZero = x.unsignedZero := by
  by_cases h : x.magnitude = 0
  · rw [unsignedZero, unsignedZero, if_pos h]
    rfl
  · have hsame : x.unsignedZero = x := if_neg h
    rw [hsame, hsame]

theorem magnitude_unsignedZero (x : Float64) : x.unsignedZero.magnitude = x.magnitude := by
  unfold unsignedZero
  split
  · rename_i h
    rw [h]
    rfl
  · rfl

end Float64

/-- One normalised value. -/
inductive Cell
  | null
  | text (s : String)
  /-- days or nanoseconds since 1970-01-01 -/
  | int (n : ℤ)
  | float (x : Float64)
deriving DecidableEq, Repr

/-- Whether a cell can stand in a column. -/
def Column.admits (c : Column) : Cell → Bool
  | .null => c.nullable
  | .text _ => c.type = .utf8
  | .int n =>
    (c.type = .date32 && decide (-2 ^ 31 ≤ n) && decide (n ≤ 2 ^ 31 - 1)) ||
      (c.type = .timestampNs && decide (-2 ^ 63 < n) && decide (n < 2 ^ 63))
  | .float x => c.type = .float64 && x.isPlain

/-! ## What callers pass -/

/-- A Python object in a sequence of values. -/
inductive PyValue
  | none
  /-- a number and the binary64 number it is converted to, unless it is too large -/
  | number (value : Option Float64)
  /-- a string; one with a lone surrogate is no text -/
  | str (text : Option String)
  /-- `datetime.date`, in days since 1970-01-01 -/
  | date (days : ℤ)
  /-- `datetime.datetime`: nanoseconds since 1970-01-01 UTC if it has a timezone -/
  | datetime (ns : Option ℤ)
  /-- anything else, a `bool` too -/
  | other
deriving DecidableEq, Repr

/-- The values of a column, as `np.asarray` sees them. -/
inductive Values
  /-- a sequence or an array of objects -/
  | objects (items : List PyValue)
  /-- an array of numbers, as binary64 -/
  | floats (items : List Float64)
  /-- an array of `datetime64`, with the ticks of its unit in a day -/
  | datetimes (ticksPerDay : ℕ) (items : List (Option ℤ))
  /-- an array of strings -/
  | texts (items : List String)
  /-- an array of another type -/
  | other (size : ℕ)

namespace Values

/-- The length of the array. -/
def size : Values → ℕ
  | objects items => items.length
  | floats items => items.length
  | datetimes _ items => items.length
  | texts items => items.length
  | other size => size

/-- `np.asarray(values, dtype=object)` -/
def asObjects : Values → List PyValue
  | objects items => items
  | floats items => items.map fun x => .number (some x)
  | datetimes _ items => items.map fun
      | some _ => .other
      | none => .none
  | texts items => items.map fun s => .str (some s)
  | other size => List.replicate size .other

end Values

/-- `DatasetError` about a column. -/
def columnError (c : Column) (text : String) : Raised :=
  .dataset (c.name ++ ": " ++ text)

/-! ## Numbers -/

/-- The binary64 number of one object; `None` becomes a `NaN`. -/
def PyValue.toFloat (c : Column) : PyValue → Except Raised Float64
  | .none => .ok Float64.nan
  | .number (some x) => .ok x
  | _ => .error (columnError c "values must be numbers")

/-- The cell of a number. -/
def floatCell (x : Float64) : Cell :=
  if x.isNaN then .null else .float x.unsignedZero

/-- The array of numbers in `_float64`. -/
def floatArray (c : Column) : Values → Except Raised (List Float64)
  | .objects items => items.mapM (PyValue.toFloat c)
  | .floats items => .ok items
  | _ => .error (columnError c "values must be numbers")

/-- `_float64` -/
def float64 (c : Column) (values : Values) : Except Raised (List Cell) := do
  let array ← floatArray c values
  if array.any Float64.isInf then .error (columnError c "values must be finite")
  else if !c.nullable && array.any Float64.isNaN then
    .error (columnError c "missing values in a non-nullable column")
  else .ok (array.map floatCell)

/-! ## Dates -/

/-- Whether a year of the Gregorian calendar has a 29 February. -/
def isLeap (year : ℕ) : Bool :=
  year % 4 = 0 && (year % 100 ≠ 0 || year % 400 = 0)

/-- The length of a month. -/
def daysInMonth (year month : ℕ) : ℕ :=
  if month = 2 then if isLeap year then 29 else 28
  else if month ∈ [4, 6, 9, 11] then 30
  else 31

/-- `date.toordinal`, less the one of 1970-01-01. -/
def daysSinceEpoch (year month day : ℕ) : ℤ :=
  let before := year - 1
  let months := ((List.range (month - 1)).map fun m => daysInMonth year (m + 1)).sum
  (before * 365 + before / 4 - before / 100 + before / 400 + months + day : ℤ) - 719163

/-- The number some digits stand for. -/
def digitsValue (digits : List Char) : ℕ :=
  digits.foldl (fun n c => 10 * n + (c.toNat - 48)) 0

/-- `date.fromisoformat` of a text that `_ISO_DATE` matches. -/
def isoDate? (s : String) : Option ℤ :=
  match s.toList with
  | [y₁, y₂, y₃, y₄, '-', m₁, m₂, '-', d₁, d₂] =>
    if [y₁, y₂, y₃, y₄, m₁, m₂, d₁, d₂].all Char.isDigit then
      let year := digitsValue [y₁, y₂, y₃, y₄]
      let month := digitsValue [m₁, m₂]
      let day := digitsValue [d₁, d₂]
      if 1 ≤ year ∧ 1 ≤ month ∧ month ≤ 12 ∧ 1 ≤ day ∧ day ≤ daysInMonth year month then
        some (daysSinceEpoch year month day)
      else none
    else none
  | _ => none

/-- `_one_date` -/
def oneDate (c : Column) : PyValue → Except Raised (Option ℤ)
  | .none => .ok none
  | .datetime _ => .error (columnError c "pass a date, not a datetime")
  | .date days => .ok (some days)
  | .str (some s) =>
    match isoDate? s with
    | some days => .ok (some days)
    | none => .error (columnError c "not a date")
  | _ => .error (columnError c "not a date")

/-- Whole days of a tick count. -/
def wholeDays (c : Column) (ticksPerDay : ℕ) : Option ℤ → Except Raised (Option ℤ)
  | none => .ok none
  | some n =>
    if n % ticksPerDay = 0 then .ok (some (n / ticksPerDay))
    else .error (columnError c "dates must be whole days, not times")

/-- The cell of an integer column. -/
def intCell : Option ℤ → Cell
  | some n => .int n
  | none => .null

/-- The array of days in `_date32`. -/
def dayArray (c : Column) (values : Values) : Except Raised (List (Option ℤ)) :=
  match values with
  | .datetimes ticksPerDay items => items.mapM (wholeDays c ticksPerDay)
  | .objects items => items.mapM (oneDate c)
  | .texts items => items.mapM fun s => oneDate c (.str (some s))
  | _ =>
    if values.size = 0 then .ok []
    else .error (columnError c "dates must be datetime64, datetime.date or YYYY-MM-DD")

/-- `_date32` -/
def date32 (c : Column) (values : Values) : Except Raised (List Cell) := do
  let days ← dayArray c values
  if days.any fun d => d.any fun n => decide (n < -2 ^ 31) || decide (2 ^ 31 - 1 < n) then
    .error (columnError c "date out of range")
  else .ok (days.map intCell)

/-! ## Timestamps -/

/-- The nanoseconds of a day. -/
def nsPerDay : ℕ :=
  86400 * 10 ^ 9

/-- Nanoseconds of a tick count, when it is a whole number of them and fits. -/
def wholeNanoseconds (c : Column) (ticksPerDay : ℕ) : Option ℤ → Except Raised (Option ℤ)
  | none => .ok none
  | some n =>
    let ns := n * nsPerDay / ticksPerDay
    if n * nsPerDay % ticksPerDay = 0 ∧ -2 ^ 63 < ns ∧ ns < 2 ^ 63 then .ok (some ns)
    else .error (columnError c "timestamp out of range")

/-- `_one_timestamp` -/
def oneTimestamp (c : Column) : PyValue → Except Raised (Option ℤ)
  | .none => .ok none
  | .datetime (some ns) =>
    if -2 ^ 63 < ns ∧ ns < 2 ^ 63 then .ok (some ns)
    else .error (columnError c "timestamp out of range")
  | _ => .error (columnError c "timestamps must be timezone-aware datetimes")

/-- The array of timestamps in `_timestamp_ns`. -/
def stampArray (c : Column) (values : Values) : Except Raised (List (Option ℤ)) :=
  match values with
  | .datetimes ticksPerDay items => items.mapM (wholeNanoseconds c ticksPerDay)
  | .objects items => items.mapM (oneTimestamp c)
  | _ =>
    if values.size = 0 then .ok []
    else .error (columnError c "timestamps must be datetime64 or timezone-aware datetimes")

/-- `_timestamp_ns` -/
def timestampNs (c : Column) (values : Values) : Except Raised (List Cell) := do
  let stamps ← stampArray c values
  .ok (stamps.map intCell)

/-! ## Text -/

/-- The check of one string. -/
def oneText (c : Column) : PyValue → Except Raised Cell
  | .none =>
    if c.nullable then .ok .null else .error (columnError c "values must be strings")
  | .str (some s) => .ok (.text s)
  | .str none => .error (columnError c "strings must be valid Unicode")
  | _ => .error (columnError c "values must be strings")

/-- `_utf8` -/
def utf8Cells (c : Column) (values : Values) : Except Raised (List Cell) :=
  values.asObjects.mapM (oneText c)

/-- `_NORMALISE` -/
def normalise (c : Column) (values : Values) : Except Raised (List Cell) :=
  match c.type with
  | .float64 => float64 c values
  | .date32 => date32 c values
  | .timestampNs => timestampNs c values
  | .utf8 => utf8Cells c values

/-! ## Normalised cells fit their column -/

/-- What a normalised cell is: null, or a value the column admits. -/
def Column.Fits (c : Column) (cell : Cell) : Prop :=
  cell = .null ∨ c.admits cell = true

theorem fits_floatCell {c : Column} (htype : c.type = .float64) {x : Float64}
    (hinf : x.isInf = false) : c.Fits (floatCell x) := by
  unfold floatCell
  split
  · exact Or.inl rfl
  · rename_i hnan
    refine Or.inr ?_
    have hplain : x.unsignedZero.isPlain = true := by
      rw [Float64.isNaN] at hnan
      rw [Float64.isInf] at hinf
      simp only [Float64.isPlain, Float64.isNaN, Float64.isInf, Float64.magnitude_unsignedZero,
        Float64.unsignedZero_idem, hnan, hinf, decide_true, Bool.not_false, Bool.and_self]
    simp only [Column.admits, htype, hplain, decide_true, Bool.and_self]

theorem fits_text {c : Column} (htype : c.type = .utf8) {value : PyValue} {cell : Cell}
    (h : oneText c value = .ok cell) : c.Fits cell := by
  unfold oneText at h
  split at h
  · split at h
    · cases h
      exact Or.inl rfl
    · cases h
  · cases h
    exact Or.inr (by simp [Column.admits, htype])
  · cases h
  · cases h

/-- A timestamp that was accepted fits into 64 bits and is no `NaT`. -/
theorem timestamp_range {c : Column} {ticksPerDay : ℕ} {n : Option ℤ} {ns : ℤ}
    (h : wholeNanoseconds c ticksPerDay n = .ok (some ns)) : -2 ^ 63 < ns ∧ ns < 2 ^ 63 := by
  cases n with
  | none => cases h
  | some n =>
    simp only [wholeNanoseconds] at h
    split at h
    · rename_i hrange
      cases h
      exact hrange.2
    · cases h

theorem oneTimestamp_range {c : Column} {value : PyValue} {ns : ℤ}
    (h : oneTimestamp c value = .ok (some ns)) : -2 ^ 63 < ns ∧ ns < 2 ^ 63 := by
  unfold oneTimestamp at h
  split at h
  · cases h
  · split at h
    · rename_i hrange
      cases h
      exact hrange
    · cases h
  · cases h

theorem fits_timestamp {c : Column} (htype : c.type = .timestampNs) {n : Option ℤ}
    (h : ∀ ns, n = some ns → -2 ^ 63 < ns ∧ ns < 2 ^ 63) : c.Fits (intCell n) := by
  cases n with
  | none => exact Or.inl rfl
  | some ns =>
    have hrange := h ns rfl
    exact Or.inr (by simpa [intCell, Column.admits, htype] using hrange)

theorem fits_date {c : Column} (htype : c.type = .date32) {n : Option ℤ}
    (h : ∀ days, n = some days → -2 ^ 31 ≤ days ∧ days ≤ 2 ^ 31 - 1) : c.Fits (intCell n) := by
  cases n with
  | none => exact Or.inl rfl
  | some days =>
    have hrange := h days rfl
    exact Or.inr (by simpa [intCell, Column.admits, htype] using hrange)

/-- Normalised cells are null or admitted by their column. -/
theorem normalise_fits {c : Column} {values : Values} {cells : List Cell}
    (h : normalise c values = .ok cells) : ∀ cell ∈ cells, c.Fits cell := by
  intro cell hcell
  unfold normalise at h
  split at h
  · rename_i htype
    rw [float64] at h
    rcases bind_eq_ok_iff.mp h with ⟨array, -, hrest⟩
    split at hrest
    · cases hrest
    · rename_i hinf
      split at hrest
      · cases hrest
      · cases hrest
        rcases List.mem_map.mp hcell with ⟨x, hx, rfl⟩
        rw [Bool.not_eq_true, List.any_eq_false] at hinf
        exact fits_floatCell htype (by simpa using hinf x hx)
  · rename_i htype
    rw [date32] at h
    rcases bind_eq_ok_iff.mp h with ⟨days, -, hrest⟩
    split at hrest
    · cases hrest
    · rename_i hrange
      cases hrest
      rcases List.mem_map.mp hcell with ⟨d, hd, rfl⟩
      refine fits_date htype fun n hn => ?_
      rw [Bool.not_eq_true, List.any_eq_false] at hrange
      have hcell := hrange d hd
      rw [hn] at hcell
      simp only [Option.any_some, Bool.or_eq_true, decide_eq_true_eq, not_or, not_lt] at hcell
      exact hcell
  · rename_i htype
    rw [timestampNs] at h
    rcases bind_eq_ok_iff.mp h with ⟨stamps, hstamps, hrest⟩
    cases hrest
    rcases List.mem_map.mp hcell with ⟨n, hn, rfl⟩
    refine fits_timestamp htype fun ns hns => ?_
    subst hns
    unfold stampArray at hstamps
    split at hstamps
    · rcases exists_of_forall₂ (mapM_eq_ok_iff.mp hstamps) hn with ⟨a, -, ha⟩
      exact timestamp_range ha
    · rcases exists_of_forall₂ (mapM_eq_ok_iff.mp hstamps) hn with ⟨a, -, ha⟩
      exact oneTimestamp_range ha
    · split at hstamps
      · cases hstamps
        cases hn
      · cases hstamps
  · rename_i htype
    rcases exists_of_forall₂ (mapM_eq_ok_iff.mp h) hcell with ⟨value, -, hvalue⟩
    exact fits_text htype hvalue

/-! ## Errors name their column -/

/-- An error about a column. -/
def Column.IsError (c : Column) (e : Raised) : Prop :=
  ∃ text, e = columnError c text

namespace Column.IsError

variable {c : Column} {e : Raised}

theorem of_columnError {α : Type} {text : String}
    (h : (Except.error (columnError c text) : Except Raised α) = .error e) : c.IsError e := by
  cases h
  exact ⟨text, rfl⟩

/-- A loop whose turns raise errors about the column. -/
theorem of_mapM {α β : Type} {f : α → Except Raised β} {items : List α}
    (hf : ∀ a, f a = .error e → c.IsError e) (h : items.mapM f = .error e) : c.IsError e := by
  obtain ⟨a, -, ha⟩ := exists_of_mapM_error h
  exact hf a ha

/-- An array of another type that is not empty. -/
theorem of_empty {α : Type} {size : ℕ} {text : String}
    (h : (if size = 0 then .ok [] else .error (columnError c text) : Except Raised (List α)) =
      .error e) : c.IsError e := by
  split at h
  · cases h
  · exact of_columnError h

theorem of_toFloat {value : PyValue} (h : value.toFloat c = .error e) : c.IsError e := by
  unfold PyValue.toFloat at h
  split at h
  · cases h
  · cases h
  · exact of_columnError h

theorem of_oneDate {value : PyValue} (h : oneDate c value = .error e) : c.IsError e := by
  unfold oneDate at h
  split at h
  · cases h
  · exact of_columnError h
  · cases h
  · split at h
    · cases h
    · exact of_columnError h
  · exact of_columnError h

theorem of_wholeDays {ticksPerDay : ℕ} {n : Option ℤ} (h : wholeDays c ticksPerDay n = .error e) :
    c.IsError e := by
  unfold wholeDays at h
  split at h
  · cases h
  · split at h
    · cases h
    · exact of_columnError h

theorem of_wholeNanoseconds {ticksPerDay : ℕ} {n : Option ℤ}
    (h : wholeNanoseconds c ticksPerDay n = .error e) : c.IsError e := by
  unfold wholeNanoseconds at h
  split at h
  · cases h
  · simp only at h
    split at h
    · cases h
    · exact of_columnError h

theorem of_oneTimestamp {value : PyValue} (h : oneTimestamp c value = .error e) :
    c.IsError e := by
  unfold oneTimestamp at h
  split at h
  · cases h
  · split at h
    · cases h
    · exact of_columnError h
  · exact of_columnError h

theorem of_oneText {value : PyValue} (h : oneText c value = .error e) : c.IsError e := by
  unfold oneText at h
  split at h
  · split at h
    · cases h
    · exact of_columnError h
  · cases h
  · exact of_columnError h
  · exact of_columnError h

theorem of_floatArray {values : Values} (h : floatArray c values = .error e) : c.IsError e := by
  unfold floatArray at h
  split at h
  · exact of_mapM (fun _ => of_toFloat) h
  · cases h
  · exact of_columnError h

theorem of_dayArray {values : Values} (h : dayArray c values = .error e) : c.IsError e := by
  unfold dayArray at h
  split at h
  · exact of_mapM (fun _ => of_wholeDays) h
  · exact of_mapM (fun _ => of_oneDate) h
  · exact of_mapM (fun _ => of_oneDate) h
  · exact of_empty h

theorem of_stampArray {values : Values} (h : stampArray c values = .error e) : c.IsError e := by
  unfold stampArray at h
  split at h
  · exact of_mapM (fun _ => of_wholeNanoseconds) h
  · exact of_mapM (fun _ => of_oneTimestamp) h
  · exact of_empty h

end Column.IsError

/-- Whatever a column's values are refused for, the error names the column. -/
theorem normalise_error {c : Column} {values : Values} {e : Raised}
    (h : normalise c values = .error e) : c.IsError e := by
  unfold normalise at h
  split at h
  · rcases bind_eq_error_iff.mp h with harray | ⟨array, -, hrest⟩
    · exact .of_floatArray harray
    · split at hrest
      · exact .of_columnError hrest
      · split at hrest
        · exact .of_columnError hrest
        · cases hrest
  · rcases bind_eq_error_iff.mp h with hdays | ⟨days, -, hrest⟩
    · exact .of_dayArray hdays
    · split at hrest
      · exact .of_columnError hrest
      · cases hrest
  · rcases bind_eq_error_iff.mp h with hstamps | ⟨stamps, -, hrest⟩
    · exact .of_stampArray hstamps
    · cases hrest
  · exact .of_mapM (fun _ => .of_oneText) h

end QuantumSentinel.Datasets
