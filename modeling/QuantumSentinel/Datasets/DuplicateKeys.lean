import QuantumSentinel.Datasets.RowOrder
import QuantumSentinel.Datasets.ContentId

/-!
# Datasets: duplicate keys

`Table.build` compares each sorted row with the one before it.  A table that passes the other
checks is reported exactly when two of its rows have the same values in every column of the key,
wherever these rows stand.  No other check raises the same error.

Main results:

- Theorem `Table.build_duplicate_iff`: the report of duplicate keys.
- Theorem `Table.build_independent`: the order of the rows makes no difference.
-/

namespace QuantumSentinel.Datasets

open Lib

/-! ## The errors of a table -/

/-- What `Table.build` raises for a duplicate key. -/
def duplicateKeyError (schema : TableSchema) : Raised :=
  tableError schema (": duplicate key " ++ showNames schema.key)

section Errors

variable {schema : TableSchema}

theorem tableError_injective {text text' : String}
    (h : tableError schema text = tableError schema text') : text = text' := by
  rw [tableError, tableError, Raised.dataset.injEq] at h
  exact (String.append_right_inj _).mp h

theorem columnsError_ne : tableError schema (" needs exactly the columns " ++
    showNames schema.names) ≠ duplicateKeyError schema := by
  intro h
  have hfirst := congrArg (fun s : String => s.toList.head?) (tableError_injective h)
  simp only [String.toList_append] at hfirst
  revert hfirst
  exact (by decide : some ' ' ≠ some ':')

theorem lengthsError_ne :
    tableError schema ": columns have different lengths" ≠ duplicateKeyError schema := by
  intro h
  have hthird := congrArg (fun s : String => s.toList[2]?) (tableError_injective h)
  simp only [String.toList_append] at hthird
  revert hthird
  exact (by decide : some 'c' ≠ some 'd')

/-- The name of a column has no blank. -/
theorem notMem_of_isName {name : String} (h : isName name = true) : ' ' ∉ name.toList := by
  unfold isName at h
  split at h
  · cases h
  · rename_i first rest heq
    rw [heq]
    simp only [Bool.and_eq_true, List.all_eq_true] at h
    intro hmem
    rcases List.mem_cons.mp hmem with rfl | hrest
    · exact absurd h.1.1 (by decide)
    · exact absurd (h.2 ' ' hrest) (by decide)

/-- An error about a column stands before its first blank with a colon. -/
theorem columnError_ne {c : Column} (hc : c ∈ schema.columns) {e : Raised} (h : c.IsError e) :
    e ≠ duplicateKeyError schema := by
  obtain ⟨text, rfl⟩ := h
  intro heq
  have hblank : ' ' ∉ c.name.toList :=
    notMem_of_isName (List.all_eq_true.mp schema.checked.2.1 _ (List.mem_map_of_mem hc))
  rw [duplicateKeyError, columnError, tableError, Raised.dataset.injEq] at heq
  have hchars := congrArg (fun s : String => s.toList.takeWhile (· ≠ ' ')) heq
  simp only [String.toList_append, List.append_assoc] at hchars
  rw [List.takeWhile_append_of_pos fun d hd => by
    rw [decide_eq_true_eq]
    exact fun hsame => hblank (hsame ▸ hd)] at hchars
  have hlast := congrArg List.getLast? hchars
  change (c.name.toList ++ [':']).getLast? = some 'e' at hlast
  rw [List.getLast?_append] at hlast
  cases hlast

end Errors

/-! ## The other checks -/

namespace Table

variable {schema : TableSchema} {data : Dict String Values} {arrays : List (String × List Cell)}

/-- The data pass every check but the one for duplicate keys. -/
structure Checked (schema : TableSchema) (data : Dict String Values)
    (arrays : List (String × List Cell)) : Prop where
  names : data.keys ⊆ schema.names ∧ schema.names ⊆ data.keys
  normalised : schema.columns.mapM (normaliseColumn data) = .ok arrays
  lengths : ∀ item ∈ arrays, item.2.length = sizeOf arrays
  present : missingColumn? schema arrays = none

/-- Two rows have the same normalised values in every column of the key. -/
def RowsAgree (schema : TableSchema) (arrays : List (String × List Cell)) (i j : ℕ) : Prop :=
  ∀ k ∈ schema.key, (arrayOf arrays k).getD i .null = (arrayOf arrays k).getD j .null

/-- The codes of the key columns are always found. -/
theorem exists_keyCodes (schema : TableSchema) (arrays : List (String × List Cell)) :
    ∃ keys, schema.key.mapM (keyCodes schema arrays) = .ok keys := by
  have hcodes : ∀ k ∈ schema.key, ∃ codes, keyCodes schema arrays k = .ok codes := by
    intro k hk
    obtain ⟨c, hc, hname, -⟩ := schema.checked.2.2.2.2.2.2 k hk
    exact ⟨_, keyCodes_eq_ok.mpr ⟨c, hc, hname, rfl⟩⟩
  obtain ⟨keys, hkeys⟩ := exists_forall₂ hcodes
  exact ⟨keys, mapM_eq_ok_iff.mpr hkeys⟩

/-- After the other checks the rows are sorted. -/
theorem Checked.build_eq (h : Checked schema data arrays) {keys : List (List ℤ)}
    (hkeys : schema.key.mapM (keyCodes schema arrays) = .ok keys) :
    build schema data = sortRows schema arrays (sizeOf arrays) keys := by
  have hlengths : ¬∃ item ∈ arrays, item.2.length ≠ sizeOf arrays := by
    push Not
    exact h.lengths
  rw [build, if_pos h.names, h.normalised]
  change buildArrays schema arrays = _
  rw [buildArrays, if_neg hlengths, h.present]
  simp only [hkeys]
  rfl

/-- The cells of a column of the key are values of the column. -/
theorem Checked.admits (h : Checked schema data arrays) {c : Column} (hc : c ∈ schema.columns)
    (hkey : c.name ∈ schema.key) :
    ∀ cell ∈ arrayOf arrays c.name, cell ≠ .null ∧ c.admits cell = true := by
  have hnullable : c.nullable = false := by
    obtain ⟨d, hd, hname, hnullable⟩ := schema.checked.2.2.2.2.2.2 _ hkey
    have hsame := schema.column_of_mem hc
    rw [← hname, schema.column_of_mem hd] at hsame
    cases hsame
    exact hnullable
  have hnone := List.find?_eq_none.mp h.present c hc
  rw [hnullable] at hnone
  simp only [Bool.not_false, Bool.true_and, decide_eq_true_eq] at hnone
  intro cell hcell
  have hnull : cell ≠ .null := fun heq => hnone (heq ▸ hcell)
  exact ⟨hnull, ((normalised_of_mapM h.normalised).fits c hc cell hcell).resolve_left hnull⟩

/-- Rows agree when their codes do. -/
theorem Checked.rowOf_eq_iff (h : Checked schema data arrays) {keys : List (List ℤ)}
    (hkeys : schema.key.mapM (keyCodes schema arrays) = .ok keys) {i j : ℕ}
    (hi : i < sizeOf arrays) (hj : j < sizeOf arrays) :
    rowOf keys i = rowOf keys j ↔ RowsAgree schema arrays i j := by
  have hcodes : ∀ k ∈ schema.key, ∀ codes, keyCodes schema arrays k = .ok codes →
      (codes.getD i 0 = codes.getD j 0 ↔
        (arrayOf arrays k).getD i .null = (arrayOf arrays k).getD j .null) := by
    intro k hk codes hcodes
    obtain ⟨c, hc, rfl, rfl⟩ := keyCodes_eq_ok.mp hcodes
    have hlength := h.lengths _ ((normalised_of_mapM h.normalised).mem hc)
    exact sortCodes_inj (h.admits hc hk) (hlength.symm ▸ hi) (hlength.symm ▸ hj)
  rw [rowOf, rowOf, List.map_inj_left]
  constructor
  · intro hsame k hk
    obtain ⟨codes, hmem, hcode⟩ := exists_right_of_forall₂ (mapM_eq_ok_iff.mp hkeys) hk
    exact (hcodes k hk codes hcode).mp (hsame codes hmem)
  · intro hagree codes hmem
    obtain ⟨k, hk, hcode⟩ := exists_of_forall₂ (mapM_eq_ok_iff.mp hkeys) hmem
    exact (hcodes k hk codes hcode).mpr (hagree k hk)

/-! ## The report -/

/-- Checked data are refused for a duplicate key when two rows agree. -/
theorem Checked.build_duplicate_iff (h : Checked schema data arrays) :
    build schema data = .error (duplicateKeyError schema) ↔
      ∃ i j, i < j ∧ j < sizeOf arrays ∧ RowsAgree schema arrays i j := by
  obtain ⟨keys, hkeys⟩ := exists_keyCodes schema arrays
  have hrows : hasRepeat ((lexsort keys.reverse (sizeOf arrays)).map (rowOf keys)) = true ↔
      ∃ i j, i < j ∧ j < sizeOf arrays ∧ RowsAgree schema arrays i j := by
    rw [hasRepeat_iff]
    refine exists_congr fun i => exists_congr fun j => and_congr_right fun hij => ?_
    exact and_congr_right fun hj => h.rowOf_eq_iff hkeys (hij.trans hj) hj
  rw [← hrows, h.build_eq hkeys, sortRows]
  constructor
  · intro herror
    split at herror
    · assumption
    · cases herror
  · intro hrepeat
    exact if_pos hrepeat

/-- Data that are refused for a duplicate key have passed the other checks. -/
theorem checked_of_duplicate (h : build schema data = .error (duplicateKeyError schema)) :
    ∃ arrays, Checked schema data arrays := by
  unfold build at h
  split at h
  · rename_i hnames
    rcases bind_eq_error_iff.mp h with hcolumns | ⟨arrays, harrays, hbuild⟩
    · obtain ⟨c, hc, hcolumn⟩ := exists_of_mapM_error hcolumns
      unfold normaliseColumn at hcolumn
      split at hcolumn
      · cases hcolumn
      · rename_i values hvalues
        cases hresult : normalise c values with
        | ok cells =>
          rw [hresult] at hcolumn
          cases hcolumn
        | error e =>
          rw [hresult] at hcolumn
          cases hcolumn
          exact absurd rfl (columnError_ne hc (normalise_error hresult))
    · unfold buildArrays at hbuild
      split at hbuild
      · exact absurd (Except.error.inj hbuild) lengthsError_ne
      · rename_i hlengths
        push Not at hlengths
        split at hbuild
        · rename_i c hmissing
          have hc := List.mem_of_find?_eq_some hmissing
          exact absurd (Except.error.inj hbuild) (columnError_ne hc ⟨_, rfl⟩)
        · rename_i hpresent
          exact ⟨arrays, hnames, harrays, hlengths, hpresent⟩
  · exact absurd (Except.error.inj h) columnsError_ne

/-- A duplicate key is reported when the other checks pass and two rows agree. -/
theorem build_duplicate_iff : build schema data = .error (duplicateKeyError schema) ↔
    ∃ arrays, Checked schema data arrays ∧
      ∃ i j, i < j ∧ j < sizeOf arrays ∧ RowsAgree schema arrays i j := by
  constructor
  · intro h
    obtain ⟨arrays, hchecked⟩ := checked_of_duplicate h
    exact ⟨arrays, hchecked, hchecked.build_duplicate_iff.mp h⟩
  · rintro ⟨arrays, hchecked, hrows⟩
    exact hchecked.build_duplicate_iff.mpr hrows

/-- A zero keeps no sign, so two rows that differ in it agree. -/
example : floatCell ⟨0x8000000000000000⟩ = floatCell ⟨0⟩ := by decide

/-- The order of the rows makes no difference: rearranged data are refused too, or give a table
with the same encoded columns and the same hash; and a duplicate key is reported when the other
checks pass and two rows agree. -/
theorem build_independent (sha256 : Bytes → String) (schema : TableSchema)
    {data : Dict String Values} {size : ℕ} (hrows : HasRows data size) {order : List ℕ}
    (horder : order.Perm (List.range size)) :
    ((∃ e e', build schema data = .error e ∧ build schema (rearranged data order) = .error e') ∨
      ∃ t t', build schema data = .ok t ∧ build schema (rearranged data order) = .ok t' ∧
        (∀ name, t'.encoded name = t.encoded name) ∧ t'.tableHash sha256 = t.tableHash sha256) ∧
    (build schema data = .error (duplicateKeyError schema) ↔
      ∃ arrays, Checked schema data arrays ∧
        ∃ i j, i < j ∧ j < sizeOf arrays ∧ RowsAgree schema arrays i j) := by
  refine ⟨?_, build_duplicate_iff⟩
  have hsame : ∀ t, build schema (rearranged data order) = .ok t ↔ build schema data = .ok t :=
    build_rearranged hrows horder
  cases hbuild : build schema data with
  | ok t => exact Or.inr ⟨t, t, rfl, (hsame t).mpr hbuild, fun _ => rfl, rfl⟩
  | error e =>
    cases hbuild' : build schema (rearranged data order) with
    | error e' => exact Or.inl ⟨e, e', rfl, rfl⟩
    | ok t =>
      have hok := (hsame t).mp hbuild'
      rw [hbuild] at hok
      cases hok

/-- Two days, in both orders. -/
theorem build_independent_swapped :
    ((∃ e e', build sampleBars sampleBarsData = .error e ∧
        build sampleBars (rearranged sampleBarsData [1, 0]) = .error e') ∨
      ∃ t t', build sampleBars sampleBarsData = .ok t ∧
        build sampleBars (rearranged sampleBarsData [1, 0]) = .ok t' ∧
        (∀ name, t'.encoded name = t.encoded name) ∧
          t'.tableHash sampleSha256 = t.tableHash sampleSha256) ∧
    (build sampleBars sampleBarsData = .error (duplicateKeyError sampleBars) ↔
      ∃ arrays, Checked sampleBars sampleBarsData arrays ∧
        ∃ i j, i < j ∧ j < sizeOf arrays ∧ RowsAgree sampleBars arrays i j) := by
  have hrows : HasRows sampleBarsData 2 := by
    unfold HasRows
    decide
  have horder : [1, 0].Perm (List.range 2) := by decide
  exact build_independent sampleSha256 sampleBars hrows horder

end Table

end QuantumSentinel.Datasets
