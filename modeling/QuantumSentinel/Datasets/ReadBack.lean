import QuantumSentinel.Datasets.Blob
import QuantumSentinel.Datasets.ContentId

/-!
# Datasets: columns are read back

The parser of a column undoes its encoding: the records of a column of fixed width are cut
out again, rows of text are split at their lengths, and the values it reads are normalised to
the cells that were written.

Main results:

- Theorem `cut_flatten`: pieces of one size are cut out again.
- Theorem `parseUtf8_encodeCells`: rows of text are read back.
- Theorem `parse_encodeCells`: a column is read back.
-/

namespace QuantumSentinel.Datasets

open Lib

/-! ## Records of one size -/

/-- Pieces of one size are cut out again. -/
theorem cut_flatten {size : ℕ} {pieces : List Bytes} (h : ∀ r ∈ pieces, r.length = size) :
    ((List.range pieces.length).map fun i => (pieces.flatten.drop (i * size)).take size) =
      pieces := by
  induction pieces with
  | nil => rfl
  | cons r rest ih =>
    have hr : r.length = size := h r List.mem_cons_self
    have hrest := ih fun q hq => h q (List.mem_cons_of_mem _ hq)
    rw [List.length_cons, List.range_succ_eq_map, List.map_cons, List.map_map,
      List.flatten_cons, Nat.zero_mul, List.drop_zero, List.take_left' hr]
    congr 1
    conv_rhs => rw [← hrest]
    apply List.map_congr_left
    intro i _
    have hskip : (r ++ rest.flatten).drop (size + i * size) = rest.flatten.drop (i * size) := by
      rw [← List.drop_drop, List.drop_left' hr]
    rw [Function.comp_apply, Nat.succ_mul, Nat.add_comm, hskip]

/-! ## Columns of fixed width -/

/-- The encoding of a row of fixed width. -/
theorem encodeCell_fixed {c : Column} (htype : c.type ≠ .utf8) (cell : Cell) :
    encodeCell c cell =
      if c.nullable then (if cell = .null then 0 else 1) :: valueBytes c.type cell
      else valueBytes c.type cell := by
  unfold encodeCell
  split
  · rename_i hc
    exact absurd hc htype
  · rfl

section Fixed

variable {c : Column} (htype : c.type ≠ .utf8) {cell : Cell} (hadmits : c.admits cell = true)

include htype

theorem length_encodeCell : (encodeCell c cell).length = itemSize c := by
  rw [encodeCell_fixed htype, itemSize]
  split
  · rw [List.length_cons, length_valueBytes, Nat.add_comm]
  · rw [length_valueBytes, Nat.zero_add]

theorem valueOf_encodeCell : valueOf c (encodeCell c cell) = valueBytes c.type cell := by
  rw [encodeCell_fixed htype, valueOf]
  split
  · rw [List.tail_cons]
  · rfl

theorem flag_encodeCell (hnullable : c.nullable = true) :
    (encodeCell c cell).headD 0 = if cell = .null then 0 else 1 := by
  rw [encodeCell_fixed htype, if_pos hnullable, List.headD_cons]

include hadmits

theorem isMissing_encodeCell : isMissing c (encodeCell c cell) = decide (cell = .null) := by
  cases hnullable : c.nullable with
  | true =>
    rw [isMissing, hnullable, Bool.true_and, flag_encodeCell htype hnullable]
    by_cases hnull : cell = .null
    · rw [if_pos hnull, decide_eq_true hnull]
      rfl
    · rw [if_neg hnull, decide_eq_false hnull]
      rfl
  | false =>
    rw [isMissing, hnullable, Bool.false_and]
    cases cell with
    | null =>
      rw [Column.admits, hnullable] at hadmits
      cases hadmits
    | text s => rfl
    | int n => rfl
    | float x => rfl

end Fixed

/-- The records of an encoded array are the encodings of its cells. -/
theorem records_encodeCells {c : Column} (htype : c.type ≠ .utf8) (array : List Cell) :
    records c (array.flatMap (encodeCell c)) array.length = array.map (encodeCell c) := by
  have hcut := @cut_flatten (itemSize c) (array.map (encodeCell c)) (by
    intro r hr
    rcases List.mem_map.mp hr with ⟨cell, -, rfl⟩
    exact length_encodeCell htype)
  rw [List.length_map] at hcut
  exact hcut

theorem length_encodeCells {c : Column} (htype : c.type ≠ .utf8) (array : List Cell) :
    (array.flatMap (encodeCell c)).length = array.length * itemSize c := by
  induction array with
  | nil => rw [List.length_nil, Nat.zero_mul, List.flatMap_nil, List.length_nil]
  | cons cell rest ih =>
    rw [List.flatMap_cons, List.length_append, ih, length_encodeCell htype, List.length_cons,
      Nat.succ_mul, Nat.add_comm]

/-- The values of the records of an encoded array. -/
theorem parseFixed_encodeCells {c : Column} (htype : c.type ≠ .utf8) (array : List Cell) :
    parseFixed c (array.flatMap (encodeCell c)) array.length =
      .ok (fixedValues c (array.map (encodeCell c))) := by
  have hflags : ¬(c.nullable && (array.map (encodeCell c)).any fun r =>
      decide (1 < r.headD 0)) = true := by
    rw [Bool.not_eq_true, Bool.and_eq_false_iff]
    cases hnullable : c.nullable with
    | false => exact Or.inl rfl
    | true =>
      refine Or.inr (List.any_eq_false.mpr fun r hr => ?_)
      rcases List.mem_map.mp hr with ⟨cell, -, rfl⟩
      rw [flag_encodeCell htype hnullable]
      split <;> decide
  rw [parseFixed, if_neg (not_not.mpr (length_encodeCells htype array)),
    records_encodeCells htype, if_neg hflags]

/-! ## Numbers -/

/-- The number a record of a column of numbers holds. -/
def Cell.number : Cell → Float64
  | .float x => x
  | _ => Float64.nan

theorem floatCell_number {c : Column} (htype : c.type = .float64) {cell : Cell}
    (hadmits : c.admits cell = true) : floatCell cell.number = cell := by
  cases cell with
  | null => rfl
  | text s => simp [Column.admits, htype] at hadmits
  | int n => simp [Column.admits, htype] at hadmits
  | float x =>
    simp only [Column.admits, Float64.isPlain, Bool.and_eq_true, Bool.not_eq_true',
      decide_eq_true_eq] at hadmits
    rw [Cell.number, floatCell, hadmits.2.1.1, hadmits.2.2]
    rfl

theorem record_number {c : Column} (htype : c.type = .float64) {cell : Cell}
    (hadmits : c.admits cell = true) :
    (if isMissing c (encodeCell c cell) then Float64.nan
      else ⟨UInt64.ofNat (ofLeBytes (valueOf c (encodeCell c cell)))⟩) = cell.number := by
  have hfixed : c.type ≠ .utf8 := by
    rw [htype]
    exact fun h => by cases h
  rw [isMissing_encodeCell hfixed hadmits, valueOf_encodeCell hfixed]
  cases cell with
  | null => rfl
  | text s => simp [Column.admits, htype] at hadmits
  | int n => simp [Column.admits, htype] at hadmits
  | float x =>
    have hlt : x.bits.toNat < 256 ^ 8 := x.bits.toNat_lt
    rw [valueBytes, htype, width, ofLeBytes_leBytes hlt, UInt64.ofNat_toNat]
    · rfl
    · exact fun hdate => by cases hdate

/-- A column of numbers is normalised to the cells that were written. -/
theorem normalise_numbers {c : Column} (htype : c.type = .float64) {array : List Cell}
    (hadmits : ∀ cell ∈ array, c.admits cell = true) :
    normalise c (fixedValues c (array.map (encodeCell c))) = .ok array := by
  have hvalues : fixedValues c (array.map (encodeCell c)) = .floats (array.map Cell.number) := by
    simp only [fixedValues, htype]
    rw [List.map_map]
    congr 1
    apply List.map_congr_left
    intro cell hcell
    exact record_number htype (hadmits cell hcell)
  have hinf : (array.map Cell.number).any Float64.isInf = false := by
    refine List.any_eq_false.mpr fun x hx => ?_
    rcases List.mem_map.mp hx with ⟨cell, hcell, rfl⟩
    have hfit := hadmits cell hcell
    cases cell with
    | null => decide
    | text s => simp [Column.admits, htype] at hfit
    | int n => simp [Column.admits, htype] at hfit
    | float y =>
      simp only [Column.admits, Float64.isPlain, Bool.and_eq_true, Bool.not_eq_true'] at hfit
      rw [Cell.number, hfit.2.1.2]
      exact Bool.false_ne_true
  have hnan : ¬(!c.nullable && (array.map Cell.number).any Float64.isNaN) = true := by
    rw [Bool.and_eq_true, Bool.not_eq_true', List.any_eq_true]
    rintro ⟨hnullable, x, hx, hxnan⟩
    rcases List.mem_map.mp hx with ⟨cell, hcell, rfl⟩
    have hfit := hadmits cell hcell
    have hcellnull := floatCell_number htype hfit
    rw [floatCell, if_pos hxnan] at hcellnull
    rw [← hcellnull, Column.admits, hnullable] at hfit
    cases hfit
  have hcells : (array.map Cell.number).map floatCell = array := by
    rw [List.map_map]
    conv_rhs => rw [← List.map_id array]
    apply List.map_congr_left
    intro cell hcell
    exact floatCell_number htype (hadmits cell hcell)
  rw [hvalues, normalise, htype]
  change float64 c (.floats (array.map Cell.number)) = .ok array
  rw [float64]
  change (if (array.map Cell.number).any Float64.isInf then _
    else if !c.nullable && (array.map Cell.number).any Float64.isNaN then _
    else Except.ok ((array.map Cell.number).map floatCell)) = .ok array
  rw [hinf, if_neg Bool.false_ne_true, if_neg hnan, hcells]

/-! ## Dates and timestamps -/

/-- The stamp a record of a column of dates or timestamps holds. -/
def Cell.stamp : Cell → Option ℤ
  | .int n => some n
  | _ => none

/-- What a column of dates or timestamps holds. -/
theorem stamp_shape {c : Column} (htype : c.type = .date32 ∨ c.type = .timestampNs) {cell : Cell}
    (hadmits : c.admits cell = true) :
    cell = .null ∨ ∃ n, cell = .int n ∧ -256 ^ width c.type ≤ 2 * n ∧
      2 * n < 256 ^ width c.type ∧ -2 ^ 63 < n ∧ n < 2 ^ 63 := by
  cases cell with
  | null => exact Or.inl rfl
  | text s => rcases htype with htype | htype <;> simp [Column.admits, htype] at hadmits
  | float x => rcases htype with htype | htype <;> simp [Column.admits, htype] at hadmits
  | int n =>
    refine Or.inr ⟨n, rfl, ?_⟩
    rcases htype with htype | htype
    · simp only [Column.admits, htype, decide_true, Bool.true_and, reduceCtorEq, decide_false,
        Bool.false_and, Bool.or_false, Bool.and_eq_true, decide_eq_true_eq] at hadmits
      rw [htype, width]
      omega
    · simp only [Column.admits, htype, decide_true, Bool.true_and, reduceCtorEq, decide_false,
        Bool.false_and, Bool.false_or, Bool.and_eq_true, decide_eq_true_eq] at hadmits
      rw [htype, width]
      · omega
      · exact fun hdate => by cases hdate

section Stamps

variable {c : Column} (htype : c.type = .date32 ∨ c.type = .timestampNs)

include htype

theorem intCell_stamp {cell : Cell} (hadmits : c.admits cell = true) :
    intCell cell.stamp = cell := by
  rcases stamp_shape htype hadmits with rfl | ⟨n, rfl, -⟩
  · rfl
  · rfl

theorem record_stamp {cell : Cell} (hadmits : c.admits cell = true) :
    (if isMissing c (encodeCell c cell) then none
      else stampOf (ofLeInt (valueOf c (encodeCell c cell)))) = cell.stamp := by
  have hfixed : c.type ≠ .utf8 := by
    rcases htype with htype | htype
    · rw [htype]
      exact fun h => by cases h
    · rw [htype]
      exact fun h => by cases h
  rw [isMissing_encodeCell hfixed hadmits, valueOf_encodeCell hfixed]
  rcases stamp_shape htype hadmits with rfl | ⟨n, rfl, hlow, hhigh, hmin, -⟩
  · rfl
  · have hread : ofLeInt (leInt (width c.type) n) = n := ofLeInt_leInt hlow hhigh
    have hvalid : stampOf n = some n := if_neg (by omega)
    rw [valueBytes, hread, hvalid]
    rfl

theorem stamps_of_records {array : List Cell} (hadmits : ∀ cell ∈ array, c.admits cell = true) :
    ((array.map (encodeCell c)).map fun r =>
      if isMissing c r then none else stampOf (ofLeInt (valueOf c r))) =
        array.map Cell.stamp := by
  rw [List.map_map]
  apply List.map_congr_left
  intro cell hcell
  exact record_stamp htype (hadmits cell hcell)

theorem cells_of_stamps {array : List Cell} (hadmits : ∀ cell ∈ array, c.admits cell = true) :
    (array.map Cell.stamp).map intCell = array := by
  rw [List.map_map]
  conv_rhs => rw [← List.map_id array]
  apply List.map_congr_left
  intro cell hcell
  exact intCell_stamp htype (hadmits cell hcell)

end Stamps

/-- A column of dates is normalised to the cells that were written. -/
theorem normalise_dates {c : Column} (htype : c.type = .date32) {array : List Cell}
    (hadmits : ∀ cell ∈ array, c.admits cell = true) :
    normalise c (fixedValues c (array.map (encodeCell c))) = .ok array := by
  have hvalues : fixedValues c (array.map (encodeCell c)) =
      .datetimes 1 (array.map Cell.stamp) := by
    simp only [fixedValues, htype]
    rw [stamps_of_records (Or.inl htype) hadmits]
  have hwhole : (array.map Cell.stamp).mapM (wholeDays c 1) = .ok (array.map Cell.stamp) := by
    have hsame := mapM_eq_ok_map (f := wholeDays c 1) (g := id) (l := array.map Cell.stamp) (by
      intro stamp _
      cases stamp with
      | none => rfl
      | some n => simp [wholeDays])
    rwa [List.map_id] at hsame
  have hrange : ¬((array.map Cell.stamp).any fun d =>
      d.any fun n => decide (n < -2 ^ 31) || decide (2 ^ 31 - 1 < n)) = true := by
    rw [Bool.not_eq_true, List.any_eq_false]
    intro stamp hstamp
    rcases List.mem_map.mp hstamp with ⟨cell, hcell, rfl⟩
    rcases stamp_shape (Or.inl htype) (hadmits cell hcell) with rfl | ⟨n, rfl, hlow, hhigh, -⟩
    · exact Bool.false_ne_true
    · rw [htype, width] at hlow hhigh
      simp only [Cell.stamp, Option.any_some, Bool.or_eq_true, decide_eq_true_eq, not_or, not_lt]
      omega
  rw [hvalues, normalise, htype]
  change (dayArray c (.datetimes 1 (array.map Cell.stamp)) >>= fun days =>
    if days.any fun d => d.any fun n => decide (n < -2 ^ 31) || decide (2 ^ 31 - 1 < n) then
      Except.error (columnError c "date out of range")
    else .ok (days.map intCell)) = .ok array
  rw [dayArray, hwhole]
  change (if (array.map Cell.stamp).any fun d =>
      d.any fun n => decide (n < -2 ^ 31) || decide (2 ^ 31 - 1 < n) then
      Except.error (columnError c "date out of range")
    else .ok ((array.map Cell.stamp).map intCell)) = .ok array
  rw [if_neg hrange, cells_of_stamps (Or.inl htype) hadmits]

/-- A column of timestamps is normalised to the cells that were written. -/
theorem normalise_timestamps {c : Column} (htype : c.type = .timestampNs) {array : List Cell}
    (hadmits : ∀ cell ∈ array, c.admits cell = true) :
    normalise c (fixedValues c (array.map (encodeCell c))) = .ok array := by
  have hvalues : fixedValues c (array.map (encodeCell c)) =
      .datetimes nsPerDay (array.map Cell.stamp) := by
    simp only [fixedValues, htype]
    rw [stamps_of_records (Or.inr htype) hadmits]
  have hwhole : (array.map Cell.stamp).mapM (wholeNanoseconds c nsPerDay) =
      .ok (array.map Cell.stamp) := by
    have hsame := mapM_eq_ok_map (f := wholeNanoseconds c nsPerDay) (g := id)
      (l := array.map Cell.stamp) (by
        intro stamp hstamp
        rcases List.mem_map.mp hstamp with ⟨cell, hcell, rfl⟩
        rcases stamp_shape (Or.inr htype) (hadmits cell hcell) with
          rfl | ⟨n, rfl, -, -, hmin, hmax⟩
        · rfl
        · have hday : (nsPerDay : ℤ) ≠ 0 := by decide
          have hdiv : n * nsPerDay / nsPerDay = n := Int.mul_ediv_cancel n hday
          rw [Cell.stamp, wholeNanoseconds]
          simp only [hdiv, Int.mul_emod_left, true_and]
          rw [if_pos ⟨hmin, hmax⟩]
          rfl)
    rwa [List.map_id] at hsame
  rw [hvalues, normalise, htype]
  change (stampArray c (.datetimes nsPerDay (array.map Cell.stamp)) >>= fun stamps =>
    Except.ok (stamps.map intCell)) = .ok array
  rw [stampArray, hwhole]
  change Except.ok ((array.map Cell.stamp).map intCell) = Except.ok array
  rw [cells_of_stamps (Or.inr htype) hadmits]

/-! ## Text -/

/-- The object a row of text is read as. -/
def Cell.object : Cell → PyValue
  | .text s => .str (some s)
  | _ => .none

/-- A row of text is read back, with the rows behind it. -/
theorem parseUtf8_cons {c : Column} (htype : c.type = .utf8) {cell : Cell}
    (hadmits : c.admits cell = true) (hpacks : cell.packs = true) (rows : ℕ) (raw : Bytes) :
    parseUtf8 c (rows + 1) (encodeCell c cell ++ raw) =
      (fun values => cell.object :: values) <$> parseUtf8 c rows raw := by
  have htake : ∀ length : ℕ, length < 2 ^ 64 → ∀ text rest : Bytes, text.length = length →
      takeText c (leBytes 8 length ++ (text ++ rest)) = .ok (text, rest) := by
    intro length hlength text rest htext
    have h8 : (leBytes 8 length).length = 8 := length_leBytes 8 length
    have hfront : (leBytes 8 length ++ (text ++ rest)).take 8 = leBytes 8 length :=
      List.take_left' h8
    have hback : (leBytes 8 length ++ (text ++ rest)).drop 8 = text ++ rest :=
      List.drop_left' h8
    have hread : ofLeBytes (leBytes 8 length) = length := ofLeBytes_leBytes (by omega)
    rw [takeText, if_neg (by rw [List.length_append, h8]; omega), hfront, hback, hread,
      if_neg (by rw [List.length_append]; omega), List.take_left' htext, List.drop_left' htext]
  have hstep : ∀ {valid : Bool} {flagged text rest : Bytes} {value : PyValue},
      takeValid c (encodeCell c cell ++ raw) = .ok (valid, flagged) →
      takeText c flagged = .ok (text, rest) → textValue valid text = .ok value →
      parseUtf8 c (rows + 1) (encodeCell c cell ++ raw) =
        (fun values => value :: values) <$> parseUtf8 c rows rest := by
    intro valid flagged text rest value hvalid htext hvalue
    rw [parseUtf8, hvalid]
    change (takeText c flagged >>= fun text => textValue valid text.1 >>= fun value =>
      parseUtf8 c rows text.2 >>= fun values => Except.ok (value :: values)) = _
    rw [htext]
    change (textValue valid text >>= fun value =>
      parseUtf8 c rows rest >>= fun values => Except.ok (value :: values)) = _
    rw [hvalue]
    cases parseUtf8 c rows rest <;> rfl
  have hdecode : ∀ s : String, textValue true (utf8 s) = .ok (.str (some s)) := by
    intro s
    rw [textValue, if_pos rfl, decodeUtf8_utf8]
  cases cell with
  | int n => simp [Column.admits, htype] at hadmits
  | float x => simp [Column.admits, htype] at hadmits
  | null =>
    have hnullable : c.nullable = true := hadmits
    have hcell : encodeCell c .null ++ raw = 0 :: (leBytes 8 0 ++ ([] ++ raw)) := by
      simp only [encodeCell, htype, List.cons_append, List.nil_append]
    refine @hstep false _ [] _ _ ?_ (htake 0 (by omega) [] raw rfl) rfl
    rw [hcell, takeValid, if_pos hnullable]
    rfl
  | text s =>
    have hlength : (utf8 s).length < 2 ^ 64 := by simpa [Cell.packs] using hpacks
    have hcell : encodeCell c (.text s) ++ raw =
        (if c.nullable then [1] else []) ++
          (leBytes 8 (utf8 s).length ++ (utf8 s ++ raw)) := by
      simp only [encodeCell, htype, List.append_assoc]
    refine @hstep true _ (utf8 s) _ _ ?_ (htake _ hlength (utf8 s) raw rfl) (hdecode s)
    rw [hcell]
    cases hnullable : c.nullable with
    | true => rw [takeValid.eq_def, if_pos hnullable, if_pos rfl]; rfl
    | false => rw [takeValid.eq_def, hnullable]; rfl

/-- A column of text is read back. -/
theorem parseUtf8_encodeCells {c : Column} (htype : c.type = .utf8) {array : List Cell}
    (hadmits : ∀ cell ∈ array, c.admits cell = true)
    (hpacks : ∀ cell ∈ array, cell.packs = true) :
    parseUtf8 c array.length (array.flatMap (encodeCell c)) = .ok (array.map Cell.object) := by
  induction array with
  | nil => rfl
  | cons cell rest ih =>
    have hrest := ih (fun d hd => hadmits d (List.mem_cons_of_mem _ hd))
      (fun d hd => hpacks d (List.mem_cons_of_mem _ hd))
    rw [List.flatMap_cons, List.length_cons,
      parseUtf8_cons htype (hadmits cell List.mem_cons_self) (hpacks cell List.mem_cons_self),
      hrest]
    rfl

/-- A column of text is normalised to the cells that were written. -/
theorem normalise_texts {c : Column} (htype : c.type = .utf8) {array : List Cell}
    (hadmits : ∀ cell ∈ array, c.admits cell = true) :
    normalise c (.objects (array.map Cell.object)) = .ok array := by
  have hcell : ∀ cell ∈ array, oneText c cell.object = .ok cell := by
    intro cell hcell
    have hfit := hadmits cell hcell
    cases cell with
    | null => exact if_pos hfit
    | text s => rfl
    | int n => simp [Column.admits, htype] at hfit
    | float x => simp [Column.admits, htype] at hfit
  simp only [normalise, htype]
  change (array.map Cell.object).mapM (oneText c) = .ok array
  rw [mapM_eq_ok_iff, List.forall₂_map_left_iff, List.forall₂_same]
  exact hcell

/-! ## Columns -/

/-- A column is read back: its values are normalised to the cells that were written. -/
theorem parse_encodeCells {c : Column} {array : List Cell}
    (hadmits : ∀ cell ∈ array, c.admits cell = true)
    (hpacks : ∀ cell ∈ array, cell.packs = true) :
    ∃ values, parse c (array.flatMap (encodeCell c)) (.int array.length) = .ok values ∧
      normalise c values = .ok array := by
  have hnonneg : ¬(array.length : ℤ) < 0 := by omega
  have hfixed : c.type ≠ .utf8 →
      parse c (array.flatMap (encodeCell c)) (.int array.length) =
        parseFixed c (array.flatMap (encodeCell c)) array.length := by
    intro hne
    simp only [parse, pyInt?, if_neg hnonneg, Int.toNat_natCast]
  cases htype : c.type with
  | utf8 =>
    refine ⟨.objects (array.map Cell.object), ?_, normalise_texts htype hadmits⟩
    simp only [parse, pyInt?, if_neg hnonneg, htype, Int.toNat_natCast]
    rw [parseUtf8_encodeCells htype hadmits hpacks]
    rfl
  | float64 =>
    have hne : c.type ≠ .utf8 := by
      rw [htype]
      exact fun h => by cases h
    exact ⟨_, (hfixed hne).trans (parseFixed_encodeCells hne array),
      normalise_numbers htype hadmits⟩
  | date32 =>
    have hne : c.type ≠ .utf8 := by
      rw [htype]
      exact fun h => by cases h
    exact ⟨_, (hfixed hne).trans (parseFixed_encodeCells hne array),
      normalise_dates htype hadmits⟩
  | timestampNs =>
    have hne : c.type ≠ .utf8 := by
      rw [htype]
      exact fun h => by cases h
    exact ⟨_, (hfixed hne).trans (parseFixed_encodeCells hne array),
      normalise_timestamps htype hadmits⟩

end QuantumSentinel.Datasets
