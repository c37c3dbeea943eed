import QuantumSentinel.Datasets.DuplicateKeys
import QuantumSentinel.Lib.Binary64

/-!
# Datasets: the order of the rows

The codes that the rows are sorted by are in the order of the values, but for two negative numbers:
the integers of their bits are in the reverse order.

Main results:

- Definition `Cell.below`: the order of the values of a column.
- Theorem `sortCodes_lt_iff`: the order of their codes.
- Theorem `Table.key_order_iff`: when the rows of a table are in key order.
-/

namespace QuantumSentinel.Datasets

open Lib

/-! ## The order of values -/

namespace Float64

/-- The sign bit. -/
def isNegative (x : Float64) : Bool :=
  decide (2 ^ 63 ≤ x.bits.toNat)

/-- The number that a finite one stands for. -/
def value (x : Float64) : ℚ :=
  binary64Value x.isNegative x.magnitude

end Float64

/-- A value is below another one of its type: text by code point, dates and timestamps by time,
numbers by value. -/
def Cell.below : Cell → Cell → Prop
  | .text s, .text s' => s < s'
  | .int n, .int n' => n < n'
  | .float x, .float x' => x.value < x'.value
  | _, _ => False

/-- A negative number. -/
def Cell.isNegative : Cell → Bool
  | .float x => x.isNegative
  | _ => false

theorem Cell.below_irrefl (cell : Cell) : ¬cell.below cell := by
  cases cell with
  | null => exact id
  | text s => exact lt_irrefl s
  | int n => exact lt_irrefl n
  | float x => exact lt_irrefl x.value

theorem Cell.below_asymm {cell cell' : Cell} (h : cell.below cell') : ¬cell'.below cell := by
  cases cell with
  | null => exact h.elim
  | text s =>
    cases cell' with
    | text s' => exact lt_asymm h
    | null => exact h.elim
    | int n => exact h.elim
    | float x => exact h.elim
  | int n =>
    cases cell' with
    | int n' => exact lt_asymm h
    | null => exact h.elim
    | text s => exact h.elim
    | float x => exact h.elim
  | float x =>
    cases cell' with
    | float x' => exact lt_asymm h
    | null => exact h.elim
    | text s => exact h.elim
    | int n => exact h.elim

/-! ## The order of codes -/

/-- The ranks of texts are in the order of the texts. -/
theorem rank_lt_iff {array : List String} {s s' : String} (hs : s ∈ array) (hs' : s' ∈ array) :
    (array.dedup.insertionSort (· ≤ ·)).idxOf s < (array.dedup.insertionSort (· ≤ ·)).idxOf s' ↔
      s < s' := by
  have hperm := List.perm_insertionSort (· ≤ ·) array.dedup
  have hsorted : (array.dedup.insertionSort (· ≤ ·)).Pairwise (· < ·) :=
    (List.pairwise_insertionSort (· ≤ ·) array.dedup).imp₂ (fun a b hle hne => lt_of_le_of_ne hle hne)
      (hperm.nodup_iff.mpr (List.nodup_dedup array))
  have hmem := hperm.mem_iff.mpr (List.mem_dedup.mpr hs)
  have hmem' := hperm.mem_iff.mpr (List.mem_dedup.mpr hs')
  generalize array.dedup.insertionSort (· ≤ ·) = ranked at hsorted hmem hmem' ⊢
  have hbelow : ∀ {a b : String}, a ∈ ranked → b ∈ ranked → ranked.idxOf a < ranked.idxOf b →
      a < b := by
    intro a b ha hb hlt
    have hget := List.pairwise_iff_getElem.mp hsorted _ _ (List.idxOf_lt_length_of_mem ha)
      (List.idxOf_lt_length_of_mem hb) hlt
    rwa [List.getElem_idxOf, List.getElem_idxOf] at hget
  constructor
  · exact hbelow hmem hmem'
  · intro hlt
    rcases lt_trichotomy (ranked.idxOf s) (ranked.idxOf s') with h | h | h
    · exact h
    · exact absurd ((List.idxOf_inj hmem).mp h) hlt.ne
    · exact absurd (hbelow hmem' hmem h) hlt.asymm

/-- A negative number of a column is not zero. -/
theorem magnitude_ne_zero {x : Float64} (hx : x.isPlain = true) (hneg : x.isNegative = true) :
    x.magnitude ≠ 0 := by
  intro hzero
  rw [Float64.isPlain, Bool.and_eq_true, decide_eq_true_eq, Float64.unsignedZero,
    if_pos hzero] at hx
  rw [← hx.2] at hneg
  cases hneg

/-- The integer of a number without a sign. -/
theorem int64_of_pos {x : Float64} (h : x.isNegative = false) :
    (Cell.float x).int64 = x.magnitude := by
  have hsmall := decide_eq_false_iff_not.mp h
  have hcode : (Cell.float x).int64 = if 2 * x.bits.toNat < 2 ^ 64 then (x.bits.toNat : ℤ)
      else (x.bits.toNat : ℤ) - 2 ^ 64 := rfl
  rw [hcode, if_pos (by omega), Float64.magnitude, Nat.mod_eq_of_lt (by omega)]

/-- The integer of a number with a sign. -/
theorem int64_of_neg {x : Float64} (h : x.isNegative = true) :
    (Cell.float x).int64 = (x.magnitude : ℤ) - 2 ^ 63 := by
  have hlarge := decide_eq_true_iff.mp h
  have hbits := x.bits.toNat_lt
  have hcode : (Cell.float x).int64 = if 2 * x.bits.toNat < 2 ^ 64 then (x.bits.toNat : ℤ)
      else (x.bits.toNat : ℤ) - 2 ^ 64 := rfl
  rw [hcode, if_neg (by omega), Float64.magnitude]
  omega

/-- The integers of bits are in the order of the numbers, but for two negative ones. -/
theorem int64_float_lt_iff {x x' : Float64} (hx : x.isPlain = true) (hx' : x'.isPlain = true) :
    (Cell.float x).int64 < (Cell.float x').int64 ↔
      if x.isNegative && x'.isNegative then x'.value < x.value else x.value < x'.value := by
  have hmagnitude : x.magnitude < 2 ^ 63 := Nat.mod_lt _ (by decide)
  have hmagnitude' : x'.magnitude < 2 ^ 63 := Nat.mod_lt _ (by decide)
  unfold Float64.value
  cases hneg : x.isNegative with
  | false =>
    rw [Bool.false_and, if_neg Bool.false_ne_true, int64_of_pos hneg]
    cases hneg' : x'.isNegative with
    | false => rw [int64_of_pos hneg', binary64Value_pos_lt_iff, Nat.cast_lt]
    | true =>
      rw [int64_of_neg hneg']
      exact iff_of_false (by omega)
        (lt_asymm (binary64Value_neg_lt_pos (magnitude_ne_zero hx' hneg')))
  | true =>
    rw [Bool.true_and, int64_of_neg hneg]
    cases hneg' : x'.isNegative with
    | false =>
      rw [int64_of_pos hneg', if_neg Bool.false_ne_true]
      exact iff_of_true (by omega) (binary64Value_neg_lt_pos (magnitude_ne_zero hx hneg))
    | true =>
      rw [int64_of_neg hneg', if_pos rfl, binary64Value_neg_lt_iff, sub_lt_sub_iff_right,
        Nat.cast_lt]

/-- The order that the codes of two values are in. -/
def Cell.coded (cell cell' : Cell) : Prop :=
  if cell.isNegative && cell'.isNegative then cell'.below cell else cell.below cell'

/-- What the values of a column are. -/
theorem cell_of_admits {c : Column} {cell : Cell} (h : cell ≠ .null ∧ c.admits cell = true) :
    (c.type = .utf8 ∧ ∃ s, cell = .text s) ∨
      ((c.type = .date32 ∨ c.type = .timestampNs) ∧ ∃ n, cell = .int n) ∨
        c.type = .float64 ∧ ∃ x, cell = .float x ∧ x.isPlain = true := by
  obtain ⟨hnull, hfits⟩ := h
  cases cell with
  | null => exact absurd rfl hnull
  | text s =>
    rw [Column.admits, decide_eq_true_eq] at hfits
    exact Or.inl ⟨hfits, s, rfl⟩
  | int n =>
    have htype : c.type = .date32 ∨ c.type = .timestampNs := by
      simp only [Column.admits, Bool.or_eq_true, Bool.and_eq_true, decide_eq_true_eq] at hfits
      exact hfits.imp (fun h => h.1.1) fun h => h.1.1
    exact Or.inr (Or.inl ⟨htype, n, rfl⟩)
  | float x =>
    rw [Column.admits, Bool.and_eq_true, decide_eq_true_eq] at hfits
    exact Or.inr (Or.inr ⟨hfits.1, x, rfl, hfits.2⟩)

/-- The codes of a column of the key are in the order of its values, but for two negative
numbers. -/
theorem sortCodes_lt_iff {c : Column} {array : List Cell}
    (hadmits : ∀ cell ∈ array, cell ≠ .null ∧ c.admits cell = true) {i j : ℕ}
    (hi : i < array.length) (hj : j < array.length) :
    (sortCodes c array).getD i 0 < (sortCodes c array).getD j 0 ↔
      (array.getD i .null).coded (array.getD j .null) := by
  have hget : ∀ (code : Cell → ℤ) (k : ℕ), k < array.length →
      (array.map code).getD k 0 = code (array.getD k .null) := by
    intro code k hk
    rw [List.getD_eq_getElem _ _ (by rwa [List.length_map]), List.getElem_map,
      List.getD_eq_getElem _ _ hk]
  have hmem : ∀ k, k < array.length → array.getD k .null ∈ array := by
    intro k hk
    rw [List.getD_eq_getElem _ _ hk]
    exact List.getElem_mem hk
  have hcell := cell_of_admits (hadmits _ (hmem i hi))
  have hcell' := cell_of_admits (hadmits _ (hmem j hj))
  have hmemi := hmem i hi
  have hmemj := hmem j hj
  cases htype : c.type with
  | utf8 =>
    have hcodes : sortCodes c array = array.map fun cell => Int.ofNat
        (((array.map Cell.text?).dedup.insertionSort (· ≤ ·)).idxOf cell.text?) := by
      simp only [sortCodes, htype, uniqueInverse, List.map_map]
      rfl
    rw [hcodes, hget _ i hi, hget _ j hj]
    obtain ⟨s, hs⟩ : ∃ s, array.getD i .null = .text s := by
      simpa [htype] using hcell
    obtain ⟨s', hs'⟩ : ∃ s, array.getD j .null = .text s := by
      simpa [htype] using hcell'
    rw [hs] at hmemi ⊢
    rw [hs'] at hmemj ⊢
    exact Int.ofNat_lt.trans
      (rank_lt_iff (List.mem_map_of_mem hmemi) (List.mem_map_of_mem hmemj))
  | float64 =>
    have hcodes : sortCodes c array = array.map Cell.int64 := by simp only [sortCodes, htype]
    rw [hcodes, hget _ i hi, hget _ j hj]
    obtain ⟨x, hx, hplain⟩ : ∃ x, array.getD i .null = .float x ∧ x.isPlain = true := by
      simpa [htype] using hcell
    obtain ⟨x', hx', hplain'⟩ : ∃ x, array.getD j .null = .float x ∧ x.isPlain = true := by
      simpa [htype] using hcell'
    rw [hx, hx']
    exact int64_float_lt_iff hplain hplain'
  | date32 =>
    have hcodes : sortCodes c array = array.map Cell.int64 := by simp only [sortCodes, htype]
    rw [hcodes, hget _ i hi, hget _ j hj]
    obtain ⟨n, hn⟩ : ∃ n, array.getD i .null = .int n := by simpa [htype] using hcell
    obtain ⟨n', hn'⟩ : ∃ n, array.getD j .null = .int n := by simpa [htype] using hcell'
    rw [hn, hn']
    exact Iff.rfl
  | timestampNs =>
    have hcodes : sortCodes c array = array.map Cell.int64 := by simp only [sortCodes, htype]
    rw [hcodes, hget _ i hi, hget _ j hj]
    obtain ⟨n, hn⟩ : ∃ n, array.getD i .null = .int n := by simpa [htype] using hcell
    obtain ⟨n', hn'⟩ : ∃ n, array.getD j .null = .int n := by simpa [htype] using hcell'
    rw [hn, hn']
    exact Iff.rfl

/-! ## The order of rows -/

/-- Two rows differ first in a column where both have a negative number. -/
def clash : List Cell → List Cell → Bool
  | a :: as, b :: bs => if a = b then clash as bs else a.isNegative && b.isNegative
  | _, _ => false

theorem clash_self (row : List Cell) : clash row row = false := by
  induction row with
  | nil => rfl
  | cons a rest ih => rw [clash, if_pos rfl, ih]

theorem clash_comm (row row' : List Cell) : clash row row' = clash row' row := by
  induction row generalizing row' with
  | nil =>
    cases row' with
    | nil => rfl
    | cons b rest' => rfl
  | cons a rest ih =>
    cases row' with
    | nil => rfl
    | cons b rest' =>
      rw [clash, clash]
      by_cases hsame : a = b
      · rw [if_pos hsame, if_pos hsame.symm, ih]
      · rw [if_neg hsame, if_neg (Ne.symm hsame), Bool.and_comm]

/-- Rows whose codes ascend are in the order of their values exactly when they do not clash. -/
theorem lex_of_codes {keys : List String} {code code' : String → ℤ} {cell cell' : String → Cell}
    (hsame : ∀ k ∈ keys, code k = code' k ↔ cell k = cell' k)
    (hbelow : ∀ k ∈ keys, code k < code' k ↔ (cell k).coded (cell' k))
    (hlt : keys.map code < keys.map code') :
    List.Lex Cell.below (keys.map cell) (keys.map cell') ↔
      clash (keys.map cell) (keys.map cell') = false := by
  induction keys with
  | nil => cases hlt
  | cons k rest ih =>
    have hk := List.mem_cons_self (a := k) (l := rest)
    simp only [List.map_cons] at hlt ⊢
    rw [List.cons_lt_cons_iff, hbelow k hk, hsame k hk] at hlt
    rw [clash, List.cons_lex_cons_iff]
    by_cases hcell : cell k = cell' k
    · have hrest : rest.map code < rest.map code' := by
        rcases hlt with hcoded | ⟨-, hrest⟩
        · rw [hcell, Cell.coded, ite_self] at hcoded
          exact absurd hcoded (Cell.below_irrefl _)
        · exact hrest
      rw [if_pos hcell, ← ih (fun m hm => hsame m (List.mem_cons_of_mem k hm))
        (fun m hm => hbelow m (List.mem_cons_of_mem k hm)) hrest, hcell]
      exact ⟨fun h => h.elim (fun h => absurd h (Cell.below_irrefl _)) And.right,
        fun h => Or.inr ⟨rfl, h⟩⟩
    · have hcoded := hlt.resolve_right fun h => hcell h.1
      rw [if_neg hcell]
      unfold Cell.coded at hcoded
      split at hcoded
      · rename_i hnegative
        rw [hnegative]
        exact iff_of_false (fun h => h.elim (Cell.below_asymm hcoded) fun h => hcell h.1)
          Bool.false_ne_true.symm
      · rename_i hnegative
        exact iff_of_true (Or.inl hcoded) (eq_false_of_ne_true hnegative)

namespace Table

variable {schema : TableSchema} {data : Dict String Values} {arrays : List (String × List Cell)}

/-- The values of a row in the columns of the key. -/
def keyCells (schema : TableSchema) (arrays : List (String × List Cell)) (i : ℕ) : List Cell :=
  schema.key.map fun k => (arrayOf arrays k).getD i .null

/-- The rows of a table, in the columns of the key. -/
def keyRows (t : Table) : List (List Cell) :=
  (List.range t.rows).map (keyCells t.schema t.columns)

/-- A table that is built has passed the checks, and its rows are those of the data in the order
of their codes. -/
theorem checked_of_build {t : Table} (h : build schema data = .ok t) :
    ∃ arrays keys order, Checked schema data arrays ∧
      schema.key.mapM (keyCodes schema arrays) = .ok keys ∧
      order.Perm (List.range (sizeOf arrays)) ∧ (order.map (rowOf keys)).Pairwise (· < ·) ∧
      t = ⟨schema, arrays.map fun item => (item.1, gather item.2 order)⟩ := by
  unfold build at h
  split at h
  · rename_i hnames
    obtain ⟨arrays, harrays, hbuild⟩ := bind_eq_ok_iff.mp h
    unfold buildArrays at hbuild
    split at hbuild
    · cases hbuild
    · rename_i hlengths
      push Not at hlengths
      split at hbuild
      · cases hbuild
      · rename_i hpresent
        obtain ⟨keys, hkeys, hsort⟩ := bind_eq_ok_iff.mp hbuild
        simp only [sortRows] at hsort
        split at hsort
        · cases hsort
        · rename_i hrepeat
          cases hsort
          exact ⟨arrays, keys, _, ⟨hnames, harrays, hlengths, hpresent⟩, hkeys,
            lexsort_perm keys.reverse (sizeOf arrays),
            ascending_of_sorted (lexsort_sorted keys _) (eq_false_of_ne_true hrepeat), rfl⟩
  · cases h

/-- The rows of the gathered arrays. -/
theorem keyRows_gather (hn : Normalised schema arrays) (hne : arrays ≠ []) (order : List ℕ) :
    keyRows ⟨schema, arrays.map fun item => (item.1, gather item.2 order)⟩ =
      order.map (keyCells schema arrays) := by
  have hrows : rows ⟨schema, arrays.map fun item => (item.1, gather item.2 order)⟩ =
      order.length := sizeOf_gather hne
  apply List.ext_getElem
  · rw [keyRows, List.length_map, List.length_map, List.length_range, hrows]
  · intro i hi hi'
    rw [List.length_map] at hi'
    simp only [keyRows, List.getElem_map, List.getElem_range, keyCells]
    refine List.map_congr_left fun k hk => ?_
    obtain ⟨c, hc, rfl, -⟩ := schema.checked.2.2.2.2.2.2 k hk
    rw [arrayOf_gather _ _ (List.mem_map_of_mem (hn.mem hc)), gather,
      List.getD_eq_getElem _ _ (by rwa [List.length_map]), List.getElem_map]

/-- Rows whose codes ascend are in key order exactly when they do not clash. -/
theorem Checked.lex_iff (h : Checked schema data arrays) {keys : List (List ℤ)}
    (hkeys : schema.key.mapM (keyCodes schema arrays) = .ok keys) {i j : ℕ}
    (hi : i < sizeOf arrays) (hj : j < sizeOf arrays) (hlt : rowOf keys i < rowOf keys j) :
    List.Lex Cell.below (keyCells schema arrays i) (keyCells schema arrays j) ↔
      clash (keyCells schema arrays i) (keyCells schema arrays j) = false := by
  have hcodes : ∀ k ∈ schema.key, keyCodes schema arrays k =
      .ok ((keyCodes schema arrays k).toOption.getD []) := by
    intro k hk
    obtain ⟨c, hc, hname, -⟩ := schema.checked.2.2.2.2.2.2 k hk
    rw [keyCodes_eq_ok.mpr ⟨c, hc, hname, rfl⟩]
    rfl
  obtain rfl := Except.ok.inj (hkeys.symm.trans (mapM_eq_ok_map hcodes))
  rw [rowOf, rowOf, List.map_map, List.map_map] at hlt
  have hcolumn : ∀ k ∈ schema.key, ∃ c,
      (∀ cell ∈ arrayOf arrays k, cell ≠ .null ∧ c.admits cell = true) ∧
        (keyCodes schema arrays k).toOption.getD [] = sortCodes c (arrayOf arrays k) ∧
          (arrayOf arrays k).length = sizeOf arrays := by
    intro k hk
    obtain ⟨c, hc, rfl, hsort⟩ := keyCodes_eq_ok.mp (hcodes k hk)
    exact ⟨c, h.admits hc hk, hsort.symm, h.lengths _ ((normalised_of_mapM h.normalised).mem hc)⟩
  refine lex_of_codes (fun k hk => ?_) (fun k hk => ?_) hlt
  · obtain ⟨c, hadmits, hsort, hlength⟩ := hcolumn k hk
    rw [Function.comp_apply, Function.comp_apply, hsort]
    exact sortCodes_inj hadmits (hlength.symm ▸ hi) (hlength.symm ▸ hj)
  · obtain ⟨c, hadmits, hsort, hlength⟩ := hcolumn k hk
    rw [Function.comp_apply, Function.comp_apply, hsort]
    exact sortCodes_lt_iff hadmits (hlength.symm ▸ hi) (hlength.symm ▸ hj)

/-- The rows of a table that is built are strictly ascending in the order of the values of the key
exactly when no two rows of the data differ first in a column where both have a negative
number. -/
theorem key_order_iff {t : Table} (h : build schema data = .ok t) :
    ∃ arrays, schema.columns.mapM (normaliseColumn data) = .ok arrays ∧
      (t.keyRows.Pairwise (List.Lex Cell.below) ↔
        ∀ i < sizeOf arrays, ∀ j < sizeOf arrays,
          clash (keyCells schema arrays i) (keyCells schema arrays j) = false) := by
  obtain ⟨arrays, keys, order, hchecked, hkeys, horder, hascending, rfl⟩ := checked_of_build h
  have hn := normalised_of_mapM hchecked.normalised
  have hne : arrays ≠ [] := by
    rintro rfl
    apply schema.checked.2.2.2.1
    exact List.map_eq_nil_iff.mp hn.names.symm
  have hlt : ∀ {i}, i ∈ order ↔ i < sizeOf arrays := fun {i} =>
    horder.mem_iff.trans List.mem_range
  refine ⟨arrays, hchecked.normalised, ?_⟩
  rw [keyRows_gather hn hne, List.pairwise_map]
  rw [List.pairwise_map] at hascending
  constructor
  · intro hrows i hi j hj
    have hclash : order.Pairwise fun i j =>
        clash (keyCells schema arrays i) (keyCells schema arrays j) = false :=
      (hascending.and hrows).imp_of_mem fun hi hj hboth =>
        (hchecked.lex_iff hkeys (hlt.mp hi) (hlt.mp hj) hboth.1).mp hboth.2
    have hsymm : Std.Symm fun i j =>
        clash (keyCells schema arrays i) (keyCells schema arrays j) = false :=
      ⟨fun i j hij => (clash_comm _ _).trans hij⟩
    exact hclash.forall_of_forall (fun i _ => clash_self _) (hlt.mpr hi) (hlt.mpr hj)
  · intro hclash
    exact hascending.imp_of_mem fun hi hj hcodes =>
      (hchecked.lex_iff hkeys (hlt.mp hi) (hlt.mp hj) hcodes).mpr
        (hclash _ (hlt.mp hi) _ (hlt.mp hj))

/-- A table of levels, keyed by their numbers. -/
def levels : TableSchema where
  name := "levels"
  columns := [⟨"level", .float64, false⟩]
  key := ["level"]
  valid := by decide

/-- The levels two and minus one. -/
def mixedLevels : Dict String Values :=
  Dict.empty.set "level" (.floats [⟨0x4000000000000000⟩, ⟨0xBFF0000000000000⟩])

/-- Minus one stands in front of two. -/
theorem key_order_mixed : ∃ t, build levels mixedLevels = .ok t ∧
    t.keyRows.Pairwise (List.Lex Cell.below) := by
  have hrows : keyRows <$> build levels mixedLevels =
      .ok [[.float ⟨0xBFF0000000000000⟩], [.float ⟨0x4000000000000000⟩]] := by
    decide
  obtain ⟨t, ht, -⟩ := map_eq_ok_iff.mp hrows
  obtain ⟨arrays, harrays, hiff⟩ := key_order_iff ht
  have hnormalised : levels.columns.mapM (normaliseColumn mixedLevels) =
      .ok [("level", [.float ⟨0x4000000000000000⟩, .float ⟨0xBFF0000000000000⟩])] := by
    decide
  obtain rfl := Except.ok.inj (harrays.symm.trans hnormalised)
  exact ⟨t, ht, hiff.mpr (by decide)⟩

/-- The levels minus one and minus two. -/
def negativeLevels : Dict String Values :=
  Dict.empty.set "level" (.floats [⟨0xBFF0000000000000⟩, ⟨0xC000000000000000⟩])

/-- Minus one stands in front of minus two. -/
theorem negative_levels_descend : ∃ t, build levels negativeLevels = .ok t ∧
    ¬t.keyRows.Pairwise (List.Lex Cell.below) := by
  have hrows : keyRows <$> build levels negativeLevels =
      .ok [[.float ⟨0xBFF0000000000000⟩], [.float ⟨0xC000000000000000⟩]] := by
    decide
  obtain ⟨t, ht, hkeys⟩ := map_eq_ok_iff.mp hrows
  refine ⟨t, ht, fun hascending => ?_⟩
  rw [hkeys, List.pairwise_pair, List.cons_lex_cons_iff] at hascending
  have hbelow := hascending.resolve_right fun h => absurd h.1 (by decide)
  exact absurd (binary64Value_neg_lt_iff.mp hbelow) (by decide)

end Table

end QuantumSentinel.Datasets
