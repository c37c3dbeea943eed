import QuantumSentinel.Datasets.RoundTrip

/-!
# Datasets: columns that hide nothing

The parser of a column accepts bytes that no encoder writes: a value under a null, a negative
zero, a `NaN` or `NaT` marked as present.  A column without them is the encoding of
the cells it is read as, and only such a column is.

Main results:

- Definition `tidyColumn`: the bytes of a column hide nothing.
- Theorem `Shaped.tidy_iff`: a record that hides nothing is the encoding of its cell.
- Theorem `column_canonical`: a column that hides nothing is the encoding of its cells.
-/

namespace QuantumSentinel.Datasets

open Lib

/-! ## Bytes that hide nothing -/

/-- The number in a record of a column of numbers. -/
def recordNumber (c : Column) (record : Bytes) : Float64 :=
  ⟨UInt64.ofNat (ofLeBytes (valueOf c record))⟩

/-- A record of a column of fixed width hides nothing: a null has the zero value, and a value
is no `NaN`, no negative zero and no `NaT`. -/
def tidyRecord (c : Column) (record : Bytes) : Bool :=
  if isMissing c record then decide (ofLeBytes (valueOf c record) = 0)
  else
    match c.type with
    | .float64 =>
      !(recordNumber c record).isNaN &&
        decide ((recordNumber c record).unsignedZero = recordNumber c record)
    | _ => decide (ofLeInt (valueOf c record) ≠ -2 ^ 63)

/-- Rows of text hide nothing: a null has no text. -/
def tidyTexts (c : Column) : ℕ → Bytes → Bool
  | 0, _ => true
  | rows + 1, raw =>
    match takeValid c raw with
    | .error _ => true
    | .ok (valid, flagged) =>
      match takeText c flagged with
      | .error _ => true
      | .ok (text, rest) => (valid || decide (text = [])) && tidyTexts c rows rest

/-- The bytes of a column hide nothing. -/
def tidyColumn (c : Column) (rows : ℕ) (raw : Bytes) : Bool :=
  match c.type with
  | .utf8 => tidyTexts c rows raw
  | _ => (records c raw rows).all (tidyRecord c)

/-! ## Columns of fixed width -/

/-- The cell a record is read as. -/
def recordCell (c : Column) (record : Bytes) : Cell :=
  if isMissing c record then .null
  else
    match c.type with
    | .float64 => floatCell (recordNumber c record)
    | _ => intCell (stampOf (ofLeInt (valueOf c record)))

/-- Whole days are days. -/
theorem wholeDays_one {c : Column} {n m : Option ℤ} (h : wholeDays c 1 n = .ok m) : m = n := by
  cases n with
  | none =>
    cases h
    rfl
  | some n =>
    rw [wholeDays] at h
    split at h
    · cases h
      simp
    · cases h

/-- Nanoseconds are nanoseconds. -/
theorem wholeNanoseconds_self {c : Column} {n m : Option ℤ}
    (h : wholeNanoseconds c nsPerDay n = .ok m) : m = n := by
  cases n with
  | none =>
    cases h
    rfl
  | some n =>
    have hday : (nsPerDay : ℤ) ≠ 0 := by decide
    simp only [wholeNanoseconds, Int.mul_ediv_cancel n hday] at h
    split at h
    · cases h
      rfl
    · cases h

/-- A loop that gives back its items. -/
theorem mapM_self {α : Type} {f : α → Except Raised α} (hf : ∀ a b, f a = .ok b → b = a)
    {l r : List α} (h : l.mapM f = .ok r) : r = l := by
  have hrelated := mapM_eq_ok_iff.mp h
  clear h
  induction hrelated with
  | nil => rfl
  | cons hfirst _ ih => rw [ih, hf _ _ hfirst]

/-- The values of records are normalised one by one. -/
theorem normalise_fixedValues {c : Column} (htype : c.type ≠ .utf8) {items : List Bytes}
    {array : List Cell} (h : normalise c (fixedValues c items) = .ok array) :
    array = items.map (recordCell c) := by
  have hstamps : ∀ stamps : List (Option ℤ), c.type ≠ .float64 →
      stamps = items.map (fun r =>
        if isMissing c r then none else stampOf (ofLeInt (valueOf c r))) →
      stamps.map intCell = items.map (recordCell c) := by
    rintro _ hfloat rfl
    rw [List.map_map]
    apply List.map_congr_left
    intro r _
    rw [Function.comp_apply, recordCell]
    split
    · rfl
    · split
      · rename_i hc
        exact absurd hc hfloat
      · rfl
  cases hc : c.type with
  | utf8 => exact absurd hc htype
  | float64 =>
    simp only [normalise, fixedValues, hc] at h
    rcases bind_eq_ok_iff.mp h with ⟨floats, hfloats, hrest⟩
    cases hfloats
    split at hrest
    · cases hrest
    · split at hrest
      · cases hrest
      · cases hrest
        rw [List.map_map]
        apply List.map_congr_left
        intro r _
        simp only [Function.comp_apply, recordCell, hc]
        split
        · rfl
        · rfl
  | date32 =>
    simp only [normalise, fixedValues, hc] at h
    rcases bind_eq_ok_iff.mp h with ⟨days, hdays, hrest⟩
    split at hrest
    · cases hrest
    · cases hrest
      apply hstamps days
      · rw [hc]
        exact fun h => by cases h
      · exact mapM_self (fun _ _ => wholeDays_one) hdays
  | timestampNs =>
    simp only [normalise, fixedValues, hc] at h
    rcases bind_eq_ok_iff.mp h with ⟨stamps, hstamped, hrest⟩
    cases hrest
    apply hstamps stamps
    · rw [hc]
      exact fun h => by cases h
    · exact mapM_self (fun _ _ => wholeNanoseconds_self) hstamped

/-- A number is written with the bits that were read when it is a plain one. -/
theorem encode_floatCell {value : Bytes} (hlength : value.length = 8) {x : Float64}
    (hx : x = ⟨UInt64.ofNat (ofLeBytes value)⟩) (hnan : x.isNaN = false) :
    value = valueBytes .float64 (floatCell x) ↔ x.unsignedZero = x := by
  have hlt : ofLeBytes value < 2 ^ 64 := by
    have hbytes := ofLeBytes_lt value
    rw [hlength] at hbytes
    omega
  have hbits : leBytes 8 x.bits.toNat = value := by
    rw [hx, UInt64.toNat_ofNat_of_lt' hlt, ← hlength, leBytes_ofLeBytes]
  rw [floatCell, hnan, if_neg Bool.false_ne_true]
  change value = leBytes 8 x.unsignedZero.bits.toNat ↔ _
  constructor
  · intro h
    have hread := congrArg ofLeBytes (hbits.trans h)
    rw [ofLeBytes_leBytes x.bits.toNat_lt, ofLeBytes_leBytes x.unsignedZero.bits.toNat_lt] at hread
    have hsame : x.unsignedZero.bits = x.bits := UInt64.toNat_inj.mp hread.symm
    cases hz : x.unsignedZero
    cases x
    rw [hz] at hsame
    cases hsame
    rfl
  · intro h
    rw [h, hbits]

/-- What the parser checks of a record. -/
structure Shaped (c : Column) (record : Bytes) : Prop where
  length : record.length = itemSize c
  flag : c.nullable = true → ¬(1 : UInt8) < record.headD 0

namespace Shaped

variable {c : Column} {record : Bytes}

/-- A record of a nullable column is a validity byte and a value. -/
theorem flagged (h : Shaped c record) (hnullable : c.nullable = true) :
    ∃ b value, record = b :: value ∧ (b = 0 ∨ b = 1) ∧ value.length = width c.type := by
  have hlength := h.length
  have hflag := h.flag hnullable
  rw [itemSize, if_pos hnullable] at hlength
  cases record with
  | nil =>
    rw [List.length_nil] at hlength
    omega
  | cons b value =>
    refine ⟨b, value, rfl, ?_, ?_⟩
    · have hle : ¬(1 : UInt8).toNat < b.toNat := hflag
      have hone : (1 : UInt8).toNat = 1 := rfl
      rcases Nat.lt_or_ge b.toNat 1 with hzero | hpos
      · exact Or.inl (UInt8.toNat_inj.mp (by simpa using hzero))
      · exact Or.inr (UInt8.toNat_inj.mp (by omega))
    · rw [List.length_cons] at hlength
      omega

theorem length_valueOf (h : Shaped c record) : (valueOf c record).length = width c.type := by
  cases hnullable : c.nullable with
  | true =>
    rcases h.flagged hnullable with ⟨b, value, rfl, -, hvalue⟩
    rw [valueOf, if_pos hnullable, List.tail_cons]
    exact hvalue
  | false =>
    have hlength := h.length
    rw [itemSize, hnullable] at hlength
    rw [valueOf, hnullable, if_neg Bool.false_ne_true, hlength, if_neg Bool.false_ne_true,
      Nat.zero_add]

/-- A value that is present is written behind the validity byte of a value. -/
theorem eq_present (h : Shaped c record) (htype : c.type ≠ .utf8)
    (hmissing : isMissing c record = false) {cell : Cell} (hcell : cell ≠ .null) :
    record = encodeCell c cell ↔ valueOf c record = valueBytes c.type cell := by
  rw [encodeCell_fixed htype, valueOf]
  cases hnullable : c.nullable with
  | false => rfl
  | true =>
    rcases h.flagged hnullable with ⟨b, value, rfl, rfl | rfl, -⟩
    · rw [isMissing, hnullable] at hmissing
      cases hmissing
    · rw [if_pos rfl, if_pos rfl, if_neg hcell, List.cons.injEq, List.tail_cons]
      exact and_iff_right rfl

/-- A value that is present is not written as a null. -/
theorem ne_null (h : Shaped c record) (htype : c.type ≠ .utf8) (hnullable : c.nullable = true)
    (hmissing : isMissing c record = false) : record ≠ encodeCell c .null := by
  rw [encodeCell_fixed htype, if_pos hnullable, if_pos rfl]
  rcases h.flagged hnullable with ⟨b, value, rfl, rfl | rfl, -⟩
  · rw [isMissing, hnullable] at hmissing
    cases hmissing
  · intro heq
    cases (List.cons.inj heq).1

/-- A null is written with the zero value. -/
theorem eq_null (h : Shaped c record) (htype : c.type ≠ .utf8)
    (hmissing : isMissing c record = true) :
    record = encodeCell c .null ↔ ofLeBytes (valueOf c record) = 0 := by
  cases hnullable : c.nullable with
  | false =>
    rw [isMissing, hnullable] at hmissing
    cases hmissing
  | true =>
    rw [encodeCell_fixed htype, if_pos hnullable, if_pos rfl, valueOf, if_pos hnullable]
    rcases h.flagged hnullable with ⟨b, value, rfl, rfl | rfl, hvalue⟩
    · rw [List.cons.injEq, and_iff_right rfl, List.tail_cons]
      change value = leBytes (width c.type) 0 ↔ _
      constructor
      · rintro rfl
        exact ofLeBytes_leBytes (Nat.pow_pos (by decide))
      · intro hzero
        rw [← hzero, ← hvalue, leBytes_ofLeBytes]
    · rw [isMissing, hnullable] at hmissing
      cases hmissing

/-- A stamp that is present hides nothing unless it is `NaT`. -/
theorem tidy_stamp (h : Shaped c record) (htype : c.type ≠ .utf8) (hfloat : c.type ≠ .float64)
    (hmissing : isMissing c record = false)
    (hlost : recordCell c record = .null → record ≠ encodeCell c (recordCell c record)) :
    tidyRecord c record = true ↔ record = encodeCell c (recordCell c record) := by
  have htidy : tidyRecord c record = decide (ofLeInt (valueOf c record) ≠ -2 ^ 63) := by
    rw [tidyRecord, hmissing, if_neg Bool.false_ne_true]
    split
    · rename_i hc
      exact absurd hc hfloat
    · rfl
  have hcell : recordCell c record = intCell (stampOf (ofLeInt (valueOf c record))) := by
    rw [recordCell, hmissing, if_neg Bool.false_ne_true]
    split
    · rename_i hc
      exact absurd hc hfloat
    · rfl
  rw [htidy, decide_eq_true_eq]
  by_cases hmin : ofLeInt (valueOf c record) = -2 ^ 63
  · rw [stampOf, if_pos hmin] at hcell
    exact iff_of_false (not_not.mpr hmin) (hlost hcell)
  · have hint : recordCell c record = .int (ofLeInt (valueOf c record)) := by
      rw [hcell, stampOf, if_neg hmin]
      rfl
    have hvalue : valueBytes c.type (.int (ofLeInt (valueOf c record))) = valueOf c record := by
      rw [valueBytes, ← h.length_valueOf, leInt_ofLeInt]
    have hne : Cell.int (ofLeInt (valueOf c record)) ≠ .null := by
      intro hnull
      cases hnull
    rw [hint, h.eq_present htype hmissing hne, hvalue]
    exact iff_of_true hmin rfl

/-- A number that is present hides nothing if it is a plain one. -/
theorem tidy_number (h : Shaped c record) (hfloat : c.type = .float64)
    (hmissing : isMissing c record = false)
    (hlost : recordCell c record = .null → record ≠ encodeCell c (recordCell c record)) :
    tidyRecord c record = true ↔ record = encodeCell c (recordCell c record) := by
  have htype : c.type ≠ .utf8 := by
    rw [hfloat]
    exact fun h => by cases h
  have hcell : recordCell c record = floatCell (recordNumber c record) := by
    simp only [recordCell, hmissing, hfloat, Bool.false_eq_true, if_false]
  simp only [tidyRecord, hmissing, hfloat, Bool.false_eq_true, if_false, Bool.and_eq_true,
    Bool.not_eq_true', decide_eq_true_eq]
  cases hnan : (recordNumber c record).isNaN with
  | true =>
    rw [floatCell, if_pos hnan] at hcell
    exact iff_of_false (fun htidy => by cases htidy.1) (hlost hcell)
  | false =>
    have hlength : (valueOf c record).length = 8 := by
      rw [h.length_valueOf, hfloat]
      rfl
    have hne : floatCell (recordNumber c record) ≠ .null := by
      rw [floatCell, hnan, if_neg Bool.false_ne_true]
      exact fun h => by cases h
    have hwritten : valueOf c record = valueBytes .float64 (floatCell (recordNumber c record)) ↔
        (recordNumber c record).unsignedZero = recordNumber c record :=
      encode_floatCell hlength rfl hnan
    rw [hcell, h.eq_present htype hmissing hne, hfloat, hwritten]
    exact and_iff_right rfl

/-- A record that hides nothing is the encoding of its cell. -/
theorem tidy_iff (h : Shaped c record) (htype : c.type ≠ .utf8)
    (hnull : c.nullable = false → recordCell c record ≠ .null) :
    tidyRecord c record = true ↔ record = encodeCell c (recordCell c record) := by
  cases hmissing : isMissing c record with
  | true =>
    have hcell : recordCell c record = .null := by
      rw [recordCell, hmissing, if_pos rfl]
    rw [hcell, h.eq_null htype hmissing, tidyRecord, hmissing, if_pos rfl, decide_eq_true_eq]
  | false =>
    have hlost : recordCell c record = .null → record ≠ encodeCell c (recordCell c record) := by
      intro hcell
      cases hnullable : c.nullable with
      | true =>
        rw [hcell]
        exact h.ne_null htype hnullable hmissing
      | false => exact absurd hcell (hnull hnullable)
    by_cases hfloat : c.type = .float64
    · exact h.tidy_number hfloat hmissing hlost
    · exact h.tidy_stamp htype hfloat hmissing hlost

end Shaped

/-! ## Reading a column -/

/-- What reading a column says about its bytes and its cells. -/
structure ReadsColumn (c : Column) (rows : ℕ) (raw : Bytes) (array : List Cell) : Prop where
  length : array.length = rows
  /-- the encoding of the cells takes no more bytes than were read -/
  shorter : (array.flatMap (encodeCell c)).length ≤ raw.length
  packs : ∀ cell ∈ array, cell.packs = true
  tidy_iff : tidyColumn c rows raw = true ↔ raw = array.flatMap (encodeCell c)

/-- The records make up the bytes. -/
theorem flatten_records {c : Column} {raw : Bytes} {rows : ℕ}
    (h : raw.length = rows * itemSize c) : (records c raw rows).flatten = raw := by
  have hprefix : ∀ n, n ≤ rows → ((List.range n).map fun i =>
      (raw.drop (i * itemSize c)).take (itemSize c)).flatten = raw.take (n * itemSize c) := by
    intro n hn
    induction n with
    | zero => simp
    | succ n ih =>
      rw [List.range_succ, List.map_append, List.flatten_append, ih (by omega), Nat.succ_mul,
        List.take_add]
      simp
  rw [records, hprefix rows le_rfl, ← h, List.take_length]

theorem length_record {c : Column} {raw : Bytes} {rows : ℕ} (h : raw.length = rows * itemSize c)
    {record : Bytes} (hrecord : record ∈ records c raw rows) : record.length = itemSize c := by
  rcases List.mem_map.mp hrecord with ⟨i, hi, rfl⟩
  have hend : (i + 1) * itemSize c ≤ rows * itemSize c :=
    Nat.mul_le_mul_right _ (List.mem_range.mp hi)
  rw [List.length_take, List.length_drop, h]
  rw [Nat.succ_mul] at hend
  omega

/-- A column of fixed width is read. -/
theorem readsColumn_fixed {c : Column} (htype : c.type ≠ .utf8) {rows : ℕ} {raw : Bytes}
    {values : Values} (hparse : parseFixed c raw rows = .ok values) {array : List Cell}
    (hnormal : normalise c values = .ok array)
    (hnull : c.nullable = false → Cell.null ∉ array) : ReadsColumn c rows raw array := by
  unfold parseFixed at hparse
  split at hparse
  · cases hparse
  rename_i hlength
  rw [not_not] at hlength
  split at hparse
  · cases hparse
  rename_i hflags
  cases hparse
  have harray := normalise_fixedValues htype hnormal
  subst harray
  have hshaped : ∀ r ∈ records c raw rows, Shaped c r := by
    intro r hr
    refine ⟨length_record hlength hr, fun hnullable hflag => hflags ?_⟩
    rw [hnullable, Bool.true_and, List.any_eq_true]
    exact ⟨r, hr, decide_eq_true hflag⟩
  have htidy : ∀ r ∈ records c raw rows,
      (tidyRecord c r = true ↔ r = encodeCell c (recordCell c r)) := by
    intro r hr
    refine (hshaped r hr).tidy_iff htype fun hnullable hcell => hnull hnullable ?_
    rw [← hcell]
    exact List.mem_map_of_mem hr
  have hcount : ((records c raw rows).map (recordCell c)).length = rows := by
    rw [List.length_map, records, List.length_map, List.length_range]
  refine ⟨hcount, ?_, ?_, ?_⟩
  · rw [length_encodeCells htype, hcount, hlength]
  · intro cell hcell
    rcases List.mem_map.mp hcell with ⟨r, -, rfl⟩
    unfold recordCell floatCell
    split
    · rfl
    · split
      · split
        · rfl
        · rfl
      · cases stampOf (ofLeInt (valueOf c r)) with
        | none => rfl
        | some n => rfl
  · have hcolumn : tidyColumn c rows raw = (records c raw rows).all (tidyRecord c) := by
      unfold tidyColumn
      split
      · rename_i hc
        exact absurd hc htype
      · rfl
    rw [hcolumn, List.all_eq_true]
    constructor
    · intro hall
      conv_lhs => rw [← flatten_records hlength]
      rw [List.flatMap_map, List.flatMap_def]
      congr 1
      conv_lhs => rw [← List.map_id (records c raw rows)]
      apply List.map_congr_left
      intro r hr
      exact (htidy r hr).mp (hall r hr)
    · intro heq
      have hpieces : records c raw rows =
          (records c raw rows).map fun r => encodeCell c (recordCell c r) := by
        apply eq_of_flatten_eq
        · rw [List.forall₂_map_right_iff, List.forall₂_same]
          intro r hr
          rw [length_encodeCell htype, length_record hlength hr]
        · rw [flatten_records hlength]
          conv_lhs => rw [heq]
          rw [List.flatMap_map, List.flatMap_def]
      intro r hr
      refine (htidy r hr).mpr ?_
      have hsame := List.map_inj_left.mp ((List.map_id _).trans hpieces) r hr
      exact hsame

/-! ## Columns of text -/

/-- A validity byte that was taken. -/
theorem takeValid_eq_ok {c : Column} {raw flagged : Bytes} {valid : Bool}
    (h : takeValid c raw = .ok (valid, flagged)) :
    raw = (if c.nullable then [if valid then 1 else 0] else []) ++ flagged ∧
      (c.nullable = false → valid = true) := by
  unfold takeValid at h
  split at h
  · rename_i hnullable
    split at h
    · cases h
    · rename_i b rest
      split at h
      · cases h
      · rename_i hle
        cases h
        refine ⟨?_, fun hfalse => ?_⟩
        · have hone : (1 : UInt8).toNat = 1 := rfl
          have hb : ¬(1 : UInt8).toNat < b.toNat := hle
          rw [if_pos hnullable, List.singleton_append, List.cons.injEq, and_iff_left rfl]
          by_cases h1 : b = 1
          · rw [h1]
            rfl
          · have hne : b.toNat ≠ 1 := fun h => h1 (UInt8.toNat_inj.mp h)
            rw [decide_eq_false h1, if_neg Bool.false_ne_true]
            exact UInt8.toNat_inj.mp (by rw [UInt8.toNat_zero]; omega)
        · rw [hnullable] at hfalse
          cases hfalse
  · rename_i hnullable
    cases h
    rw [if_neg hnullable, List.nil_append]
    exact ⟨rfl, fun _ => rfl⟩

/-- A text that was taken. -/
theorem takeText_eq_ok {c : Column} {raw text rest : Bytes}
    (h : takeText c raw = .ok (text, rest)) :
    raw = leBytes 8 text.length ++ (text ++ rest) ∧ text.length < 2 ^ 64 := by
  unfold takeText at h
  split at h
  · cases h
  rename_i hlong
  split at h
  · cases h
  rename_i hfits
  cases h
  have h8 : (raw.take 8).length = 8 := by
    rw [List.length_take]
    omega
  have hlength : ((raw.drop 8).take (ofLeBytes (raw.take 8))).length = ofLeBytes (raw.take 8) := by
    rw [List.length_take]
    omega
  have hnumber : leBytes 8 (ofLeBytes (raw.take 8)) = raw.take 8 := by
    have hback := leBytes_ofLeBytes (raw.take 8)
    rwa [h8] at hback
  have hlt := ofLeBytes_lt (raw.take 8)
  rw [h8] at hlt
  rw [hlength, hnumber, List.take_append_drop, List.take_append_drop]
  exact ⟨rfl, by omega⟩

/-- The cell of a row of text. -/
theorem cell_of_textValue {c : Column} {valid : Bool} {text : Bytes} {value : PyValue}
    {cell : Cell} (hvalue : textValue valid text = .ok value) (hcell : oneText c value = .ok cell) :
    (valid = true ∧ ∃ s, utf8 s = text ∧ cell = .text s) ∨
      (valid = false ∧ c.nullable = true ∧ cell = .null) := by
  unfold textValue at hvalue
  split at hvalue
  · rename_i hvalid
    split at hvalue
    · rename_i s hs
      cases hvalue
      cases hcell
      exact Or.inl ⟨hvalid, s, utf8_of_decodeUtf8 hs, rfl⟩
    · cases hvalue
  · rename_i hvalid
    cases hvalue
    rw [oneText] at hcell
    split at hcell
    · rename_i hnullable
      cases hcell
      exact Or.inr ⟨by simpa using hvalid, hnullable, rfl⟩
    · cases hcell

/-- A row of text in front of others. -/
theorem readsColumn_cons {c : Column} (htype : c.type = .utf8) {rows : ℕ} {valid : Bool}
    {raw flagged text rest : Bytes} (hflag : takeValid c raw = .ok (valid, flagged))
    (htext : takeText c flagged = .ok (text, rest)) {value : PyValue} {cell : Cell}
    (hvalue : textValue valid text = .ok value) (hcell : oneText c value = .ok cell)
    {array : List Cell} (hrest : ReadsColumn c rows rest array) :
    ReadsColumn c (rows + 1) raw (cell :: array) := by
  rcases takeValid_eq_ok hflag with ⟨hraw, hvalid⟩
  rcases takeText_eq_ok htext with ⟨hflagged, hsmall⟩
  have htidy : tidyColumn c (rows + 1) raw =
      ((valid || decide (text = [])) && tidyColumn c rows rest) := by
    simp only [tidyColumn, htype, tidyTexts, hflag, htext]
  have hcolumn := hrest.tidy_iff
  have hshorter := hrest.shorter
  rcases cell_of_textValue hvalue hcell with ⟨rfl, s, rfl, rfl⟩ | ⟨rfl, hnullable, rfl⟩
  · have hbytes : raw = encodeCell c (.text s) ++ rest := by
      rw [hraw, hflagged]
      simp only [encodeCell, htype, if_true, List.append_assoc]
    refine ⟨?_, ?_, ?_, ?_⟩
    · rw [List.length_cons, hrest.length]
    · rw [List.flatMap_cons, hbytes, List.length_append, List.length_append]
      omega
    · intro d hd
      rcases List.mem_cons.mp hd with rfl | hmem
      · exact decide_eq_true hsmall
      · exact hrest.packs d hmem
    · rw [htidy, Bool.true_or, Bool.true_and, hcolumn, List.flatMap_cons, hbytes,
        List.append_cancel_left_eq]
  · have hbytes : raw = 0 :: (leBytes 8 text.length ++ (text ++ rest)) := by
      rw [hraw, hflagged, if_pos hnullable]
      rfl
    have hnull : encodeCell c .null = 0 :: leBytes 8 0 := by
      simp only [encodeCell, htype]
    refine ⟨?_, ?_, ?_, ?_⟩
    · rw [List.length_cons, hrest.length]
    · rw [List.flatMap_cons, hbytes, hnull]
      simp only [List.length_append, List.length_cons, length_leBytes]
      omega
    · intro d hd
      rcases List.mem_cons.mp hd with rfl | hmem
      · rfl
      · exact hrest.packs d hmem
    · rw [htidy, Bool.false_or, Bool.and_eq_true, decide_eq_true_eq, hcolumn, List.flatMap_cons,
        hbytes, hnull, List.cons_append, List.cons.injEq, and_iff_right rfl]
      constructor
      · rintro ⟨rfl, hsame⟩
        rw [List.nil_append, ← hsame]
        rfl
      · intro heq
        rcases leBytes_prefixFree 8 (by omega) (by omega) heq with ⟨hzero, htail⟩
        have hempty : text = [] := List.length_eq_zero_iff.mp hzero
        subst hempty
        exact ⟨rfl, htail⟩

/-- A column of text is read. -/
theorem readsColumn_text {c : Column} (htype : c.type = .utf8) {rows : ℕ} {raw : Bytes}
    {values : List PyValue} (hparse : parseUtf8 c rows raw = .ok values) {array : List Cell}
    (hnormal : values.mapM (oneText c) = .ok array) : ReadsColumn c rows raw array := by
  induction rows generalizing raw values array with
  | zero =>
    rw [parseUtf8] at hparse
    split at hparse
    · rename_i hempty
      cases hparse
      cases hnormal
      subst hempty
      refine ⟨rfl, le_rfl, (fun _ h => by cases h), ?_⟩
      simp only [tidyColumn, htype, tidyTexts]
      exact iff_of_true trivial rfl
    · cases hparse
  | succ rows ih =>
    rw [parseUtf8] at hparse
    rcases bind_eq_ok_iff.mp hparse with ⟨⟨valid, flagged⟩, hflag, hparse⟩
    rcases bind_eq_ok_iff.mp hparse with ⟨⟨text, rest⟩, htext, hparse⟩
    rcases bind_eq_ok_iff.mp hparse with ⟨value, hvalue, hparse⟩
    rcases bind_eq_ok_iff.mp hparse with ⟨others, hothers, hparse⟩
    cases hparse
    have hrelated := mapM_eq_ok_iff.mp hnormal
    cases hrelated with
    | cons hcell hcells =>
      exact readsColumn_cons htype hflag htext hvalue hcell
        (ih hothers (mapM_eq_ok_iff.mpr hcells))

/-- A row count that was accepted. -/
theorem parse_eq_ok {c : Column} {raw : Bytes} {rows : Json} {values : Values}
    (h : parse c raw rows = .ok values) : ∃ n, pyInt? rows = some n ∧ 0 ≤ n ∧
      ((c.type = .utf8 ∧ ∃ items, parseUtf8 c n.toNat raw = .ok items ∧ values = .objects items) ∨
        (c.type ≠ .utf8 ∧ parseFixed c raw n.toNat = .ok values)) := by
  unfold parse at h
  split at h
  · cases h
  rename_i n hn
  split at h
  · cases h
  rename_i hnonneg
  refine ⟨n, hn, by omega, ?_⟩
  split at h
  · rename_i htype
    rcases map_eq_ok_iff.mp h with ⟨items, hitems, rfl⟩
    exact Or.inl ⟨htype, items, hitems, rfl⟩
  · rename_i htype
    exact Or.inr ⟨htype, h⟩

/-- A column that hides nothing is the encoding of its cells. -/
theorem column_canonical {c : Column} {raw : Bytes} {rows : Json} {values : Values}
    (hparse : parse c raw rows = .ok values) {array : List Cell}
    (hnormal : normalise c values = .ok array) (hnull : c.nullable = false → Cell.null ∉ array) :
    ReadsColumn c (((pyInt? rows).map Int.toNat).getD 0) raw array := by
  rcases parse_eq_ok hparse with ⟨n, hn, -, ⟨htype, items, hitems, rfl⟩ | ⟨htype, hfixed⟩⟩
  · rw [hn]
    simp only [normalise, htype] at hnormal
    exact readsColumn_text htype hitems hnormal
  · rw [hn]
    exact readsColumn_fixed htype hfixed hnormal hnull

end QuantumSentinel.Datasets
