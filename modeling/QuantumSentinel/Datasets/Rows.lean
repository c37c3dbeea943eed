import QuantumSentinel.Datasets.Tables

/-!
# Datasets: what a built table is

A table that `Table.build` returns has the arrays of its schema, all of one length, with
cells their columns admit and with rows strictly ascending in the codes of the key.  Such a
table is built again from its own arrays.

Main results:

- Theorem `Table.built_of_build`: what `Table.build` guarantees.
- Theorem `Table.Built.buildArrays_self`: sorting a built table changes nothing.
-/

namespace QuantumSentinel.Datasets

open Lib

/-! ## Sorting and gathering -/

/-- The order is a rearrangement of the row numbers. -/
theorem lexsort_perm (keys : List (List ℤ)) (size : ℕ) :
    (lexsort keys size).Perm (List.range size) :=
  List.perm_insertionSort ..

theorem length_lexsort (keys : List (List ℤ)) (size : ℕ) : (lexsort keys size).length = size := by
  rw [(lexsort_perm keys size).length_eq, List.length_range]

theorem lt_of_mem_lexsort {keys : List (List ℤ)} {size i : ℕ} (hi : i ∈ lexsort keys size) :
    i < size :=
  List.mem_range.mp ((lexsort_perm keys size).mem_iff.mp hi)

/-- The rows stand in the order of their codes. -/
theorem lexsort_sorted (keys : List (List ℤ)) (size : ℕ) :
    ((lexsort keys.reverse size).map (rowOf keys)).Pairwise (· ≤ ·) := by
  have htotal : Std.Total fun i j : ℕ => rowOf keys i ≤ rowOf keys j :=
    ⟨fun i j => le_total (rowOf keys i) (rowOf keys j)⟩
  have htrans : IsTrans ℕ fun i j : ℕ => rowOf keys i ≤ rowOf keys j :=
    ⟨fun i j k => le_trans⟩
  rw [List.pairwise_map, lexsort, List.reverse_reverse]
  exact List.pairwise_insertionSort (fun i j => rowOf keys i ≤ rowOf keys j) (List.range size)

/-- Rows that already stand in order stay where they are. -/
theorem lexsort_of_sorted {keys : List (List ℤ)} {size : ℕ}
    (h : ((List.range size).map (rowOf keys)).Pairwise (· ≤ ·)) :
    lexsort keys.reverse size = List.range size := by
  rw [lexsort, List.reverse_reverse]
  exact (List.pairwise_map.mp h).insertionSort_eq

/-- Rows in order without two equal neighbours ascend strictly. -/
theorem ascending_of_sorted {rows : List (List ℤ)} (hsorted : rows.Pairwise (· ≤ ·))
    (hrepeat : hasRepeat rows = false) : rows.Pairwise (· < ·) := by
  have hchain : rows.IsChain (· < ·) := by
    induction rows with
    | nil => exact List.isChain_nil
    | cons a rest ih =>
      cases rest with
      | nil => exact List.isChain_singleton a
      | cons b rest =>
        rw [hasRepeat, Bool.or_eq_false_iff, decide_eq_false_iff_not] at hrepeat
        rw [List.pairwise_cons] at hsorted
        have hle : a ≤ b := hsorted.1 b List.mem_cons_self
        exact List.isChain_cons_cons.mpr
          ⟨lt_of_le_of_ne hle hrepeat.1, ih hsorted.2 hrepeat.2⟩
  exact hchain.pairwise

/-- Strictly ascending rows have no equal neighbours. -/
theorem hasRepeat_of_ascending {rows : List (List ℤ)} (h : rows.Pairwise (· < ·)) :
    hasRepeat rows = false := by
  induction rows with
  | nil => rfl
  | cons a rest ih =>
    cases rest with
    | nil => rfl
    | cons b rest =>
      rw [List.pairwise_cons] at h
      have hlt : a < b := h.1 b List.mem_cons_self
      rw [hasRepeat, ih h.2, Bool.or_false, decide_eq_false_iff_not]
      exact hlt.ne

theorem length_gather (array : List Cell) (order : List ℕ) :
    (gather array order).length = order.length :=
  List.length_map _

theorem mem_of_mem_gather {array : List Cell} {order : List ℕ} {cell : Cell}
    (horder : ∀ i ∈ order, i < array.length) (h : cell ∈ gather array order) :
    cell ∈ array := by
  rcases List.mem_map.mp h with ⟨i, hi, rfl⟩
  rw [List.getD_eq_getElem _ _ (horder i hi)]
  exact List.getElem_mem _

/-- All rows in their own order. -/
theorem gather_range (array : List Cell) : gather array (List.range array.length) = array := by
  apply List.ext_getElem
  · rw [length_gather, List.length_range]
  · intro i hi hi'
    simp only [gather, List.getElem_map, List.getElem_range]
    exact List.getD_eq_getElem _ _ hi'

theorem gather_perm {array : List Cell} {order : List ℕ}
    (h : order.Perm (List.range array.length)) : (gather array order).Perm array := by
  have hperm := h.map fun i => array.getD i Cell.null
  rw [← gather, ← gather, gather_range] at hperm
  exact hperm

/-! ## Codes of rearranged arrays -/

/-- Texts are ranked among the same texts after a rearrangement. -/
theorem unique_of_perm {l l' : List String} (h : l.Perm l') :
    l.dedup.insertionSort (· ≤ ·) = l'.dedup.insertionSort (· ≤ ·) := by
  have hperm : (l.dedup.insertionSort (· ≤ ·)).Perm (l'.dedup.insertionSort (· ≤ ·)) :=
    (List.perm_insertionSort _ _).trans (h.dedup.trans (List.perm_insertionSort _ _).symm)
  refine List.Perm.eq_of_pairwise (fun a b _ _ hab hba => le_antisymm hab hba) ?_ ?_ hperm
  · exact List.pairwise_insertionSort (· ≤ ·) _
  · exact List.pairwise_insertionSort (· ≤ ·) _

/-- The codes of a rearranged array are its codes, rearranged. -/
theorem sortCodes_gather (c : Column) {array : List Cell} {order : List ℕ}
    (h : order.Perm (List.range array.length)) :
    sortCodes c (gather array order) = order.map fun i => (sortCodes c array).getD i 0 := by
  have hlt : ∀ i ∈ order, i < array.length := fun i hi => List.mem_range.mp (h.mem_iff.mp hi)
  have hmap : ∀ f : Cell → ℤ, (gather array order).map f =
      order.map fun i => (array.map f).getD i 0 := by
    intro f
    rw [gather, List.map_map]
    apply List.map_congr_left
    intro i hi
    have hi' : i < (array.map f).length := by
      rw [List.length_map]
      exact hlt i hi
    rw [Function.comp_apply, List.getD_eq_getElem _ _ (hlt i hi), List.getD_eq_getElem _ _ hi',
      List.getElem_map]
  unfold sortCodes
  split
  · have hunique := unique_of_perm ((gather_perm h).map Cell.text?)
    simp only [uniqueInverse, List.map_map, hunique]
    exact hmap _
  · exact hmap _

/-! ## Built tables -/

namespace Table

/-- What `Table.build` guarantees. -/
structure Built (t : Table) : Prop where
  names : t.columns.map Prod.fst = t.schema.names
  lengths : ∀ item ∈ t.columns, item.2.length = t.rows
  admits : ∀ c ∈ t.schema.columns, ∀ cell ∈ t.array c.name, c.admits cell = true
  /-- the rows ascend strictly in the codes of the key -/
  ascending : ∃ keys, t.schema.key.mapM (keyCodes t.schema t.columns) = .ok keys ∧
    ((List.range t.rows).map (rowOf keys)).Pairwise (· < ·)

/-- The array of each item. -/
theorem arrayOf_mem {arrays : List (String × List Cell)} (hnodup : (arrays.map Prod.fst).Nodup)
    {item : String × List Cell} (h : item ∈ arrays) : arrayOf arrays item.1 = item.2 := by
  rw [arrayOf, Dict.lookup_of_mem hnodup h, Option.getD_some]

theorem arrayOf_gather (arrays : List (String × List Cell)) (order : List ℕ) {name : String}
    (h : name ∈ arrays.map Prod.fst) :
    arrayOf (arrays.map fun item => (item.1, gather item.2 order)) name =
      gather (arrayOf arrays name) order := by
  rw [arrayOf, arrayOf, Dict.lookup_map (fun _ array => gather array order)]
  cases hl : Dict.lookup name arrays with
  | none => exact absurd h (Dict.lookup_eq_none_iff.mp hl)
  | some array => rfl

/-- The items of the arrays, one for each column. -/
theorem items_of_names {schema : TableSchema} {arrays : List (String × List Cell)}
    (h : arrays.map Prod.fst = schema.names) :
    arrays = schema.columns.map fun c => (c.name, arrayOf arrays c.name) := by
  have hnodup : (arrays.map Prod.fst).Nodup := by
    rw [h]
    exact schema.checked.2.2.1
  have hself : arrays.map (fun item => (item.1, arrayOf arrays item.1)) = arrays := by
    conv_rhs => rw [← List.map_id arrays]
    apply List.map_congr_left
    intro item hitem
    rw [arrayOf_mem hnodup hitem]
    rfl
  have hnames : (arrays.map Prod.fst).map (fun name => (name, arrayOf arrays name)) =
      (schema.columns.map Column.name).map fun name => (name, arrayOf arrays name) := by
    rw [h, TableSchema.names]
  rw [List.map_map, List.map_map] at hnames
  exact hself.symm.trans hnames

/-- Building an array after another: what the first half leaves. -/
structure Normalised (schema : TableSchema) (arrays : List (String × List Cell)) : Prop where
  names : arrays.map Prod.fst = schema.names
  fits : ∀ c ∈ schema.columns, ∀ cell ∈ arrayOf arrays c.name, c.Fits cell

theorem normalised_of_mapM {schema : TableSchema} {data : Dict String Values}
    {arrays : List (String × List Cell)}
    (h : schema.columns.mapM (normaliseColumn data) = .ok arrays) : Normalised schema arrays := by
  have hitems : ∀ c item, normaliseColumn data c = .ok item →
      item.1 = c.name ∧ ∀ cell ∈ item.2, c.Fits cell := by
    intro c item hitem
    unfold normaliseColumn at hitem
    split at hitem
    · cases hitem
    · rcases map_eq_ok_iff.mp hitem with ⟨array, harray, rfl⟩
      exact ⟨rfl, normalise_fits harray⟩
  have hrelated := (mapM_eq_ok_iff.mp h).imp hitems
  have hnames : arrays.map Prod.fst = schema.names := by
    rw [TableSchema.names]
    clear h
    generalize schema.columns = columns at hrelated ⊢
    induction hrelated with
    | nil => rfl
    | cons hitem _ ih => rw [List.map_cons, List.map_cons, ih, hitem.1]
  refine ⟨hnames, fun c hc => ?_⟩
  have hnodup : (arrays.map Prod.fst).Nodup := by
    rw [hnames]
    exact schema.checked.2.2.1
  have hmem : ∃ item ∈ arrays, item.1 = c.name ∧ ∀ cell ∈ item.2, c.Fits cell := by
    clear h hnames hnodup
    generalize schema.columns = columns at hrelated hc
    induction hrelated with
    | nil => cases hc
    | cons hitem _ ih =>
      rcases List.mem_cons.mp hc with rfl | hrest
      · exact ⟨_, List.mem_cons_self, hitem⟩
      · rcases ih hrest with ⟨item, hin, hspec⟩
        exact ⟨item, List.mem_cons_of_mem _ hin, hspec⟩
  rcases hmem with ⟨item, hitem, hname, hfits⟩
  rw [← hname, arrayOf_mem hnodup hitem]
  exact hfits

/-- Every column has its array. -/
theorem Normalised.mem {schema : TableSchema} {arrays : List (String × List Cell)}
    (h : Normalised schema arrays) {c : Column} (hc : c ∈ schema.columns) :
    (c.name, arrayOf arrays c.name) ∈ arrays := by
  have hmem : (c.name, arrayOf arrays c.name) ∈
      schema.columns.map fun c => (c.name, arrayOf arrays c.name) :=
    List.mem_map.mpr ⟨c, hc, rfl⟩
  exact (congrArg ((c.name, arrayOf arrays c.name) ∈ ·) (items_of_names h.names)).mpr hmem

/-- The codes of a key column, as they are found. -/
theorem keyCodes_eq_ok {schema : TableSchema} {arrays : List (String × List Cell)} {k : String}
    {codes : List ℤ} :
    keyCodes schema arrays k = .ok codes ↔
      ∃ c ∈ schema.columns, c.name = k ∧ sortCodes c (arrayOf arrays k) = codes := by
  rw [keyCodes, map_eq_ok_iff]
  constructor
  · rintro ⟨c, hc, rfl⟩
    unfold TableSchema.column at hc
    split at hc
    · rename_i d hfound
      cases hc
      refine ⟨c, List.mem_of_find?_eq_some hfound, ?_, rfl⟩
      simpa using List.find?_some hfound
    · cases hc
  · rintro ⟨c, hc, rfl, rfl⟩
    exact ⟨c, schema.column_of_mem hc, rfl⟩

/-- The codes of the rearranged arrays. -/
theorem keyCodes_gather {schema : TableSchema} {arrays : List (String × List Cell)}
    {order : List ℕ} {size : ℕ} (hn : Normalised schema arrays)
    (hlengths : ∀ item ∈ arrays, item.2.length = size) (horder : order.Perm (List.range size))
    {k : String} {codes : List ℤ} (h : keyCodes schema arrays k = .ok codes) :
    keyCodes schema (arrays.map fun item => (item.1, gather item.2 order)) k =
      .ok (order.map fun i => codes.getD i 0) := by
  rcases keyCodes_eq_ok.mp h with ⟨c, hc, rfl, rfl⟩
  have hitem := hn.mem hc
  have hlength : (arrayOf arrays c.name).length = size := hlengths _ hitem
  rw [keyCodes_eq_ok]
  refine ⟨c, hc, rfl, ?_⟩
  rw [arrayOf_gather _ _ (List.mem_map_of_mem hitem)]
  exact sortCodes_gather c (hlength.symm ▸ horder)

/-- The rows of rearranged codes are the rearranged rows. -/
theorem rowOf_rearranged {keys : List (List ℤ)} {order : List ℕ} {size : ℕ}
    (hlength : order.length = size) :
    (List.range size).map (rowOf (keys.map fun codes => order.map fun i => codes.getD i 0)) =
      order.map (rowOf keys) := by
  apply List.ext_getElem
  · rw [List.length_map, List.length_map, List.length_range, hlength]
  · intro i hi hi'
    rw [List.length_map] at hi'
    simp only [List.getElem_map, List.getElem_range, rowOf, List.map_map]
    apply List.map_congr_left
    intro codes _
    rw [Function.comp_apply, List.getD_eq_getElem _ _ (by rwa [List.length_map]),
      List.getElem_map]

theorem sizeOf_gather {arrays : List (String × List Cell)} {order : List ℕ}
    (hne : arrays ≠ []) :
    sizeOf (arrays.map fun item => (item.1, gather item.2 order)) = order.length := by
  cases arrays with
  | nil => exact absurd rfl hne
  | cons item rest => exact length_gather item.2 order

/-- What the second half of `Table.build` guarantees. -/
theorem built_of_buildArrays {schema : TableSchema} {arrays : List (String × List Cell)}
    {t : Table} (hn : Normalised schema arrays) (h : buildArrays schema arrays = .ok t) :
    t.Built ∧ t.schema = schema := by
  unfold buildArrays at h
  split at h
  · cases h
  rename_i hlengths
  push Not at hlengths
  split at h
  · cases h
  rename_i hmissing
  rcases bind_eq_ok_iff.mp h with ⟨keys, hkeys, hsort⟩
  simp only [sortRows] at hsort
  split at hsort
  · cases hsort
  rename_i hrepeat
  cases hsort
  rw [Bool.not_eq_true] at hrepeat
  have hperm := lexsort_perm keys.reverse (sizeOf arrays)
  have horder := length_lexsort keys.reverse (sizeOf arrays)
  set order := lexsort keys.reverse (sizeOf arrays) with hdef
  have hne : arrays ≠ [] := by
    rintro rfl
    apply schema.checked.2.2.2.1
    exact List.map_eq_nil_iff.mp hn.names.symm
  have hsize : sizeOf (arrays.map fun item => (item.1, gather item.2 order)) = sizeOf arrays :=
    (sizeOf_gather hne).trans horder
  refine ⟨⟨?_, ?_, ?_, ?_⟩, rfl⟩
  · rw [Dict.mapValues_keys fun _ array => gather array order]
    exact hn.names
  · intro item hitem
    rcases List.mem_map.mp hitem with ⟨old, -, rfl⟩
    rw [rows, hsize, length_gather, horder]
  · intro c hc cell hcell
    have hitem := hn.mem hc
    have hlength : (arrayOf arrays c.name).length = sizeOf arrays := hlengths _ hitem
    rw [array, arrayOf_gather _ _ (List.mem_map_of_mem hitem)] at hcell
    have hmem : cell ∈ arrayOf arrays c.name := by
      refine mem_of_mem_gather (fun i hi => ?_) hcell
      rw [hlength]
      exact lt_of_mem_lexsort hi
    rcases hn.fits c hc cell hmem with rfl | hadmits
    · have hnone := List.find?_eq_none.mp hmissing c hc
      simp only [Bool.and_eq_true, Bool.not_eq_true', decide_eq_true_eq, not_and] at hnone
      by_contra hnullable
      exact hnone (by simpa [Column.admits] using hnullable) hmem
    · exact hadmits
  · refine ⟨keys.map fun codes => order.map fun i => codes.getD i 0, ?_, ?_⟩
    · rw [mapM_eq_ok_iff, List.forall₂_map_right_iff]
      exact (mapM_eq_ok_iff.mp hkeys).imp fun k codes hcodes =>
        keyCodes_gather hn hlengths hperm hcodes
    · rw [rows, hsize, rowOf_rearranged horder]
      exact ascending_of_sorted (lexsort_sorted keys (sizeOf arrays)) hrepeat

/-- What `Table.build` guarantees. -/
theorem built_of_build {schema : TableSchema} {data : Dict String Values} {t : Table}
    (h : build schema data = .ok t) : t.Built ∧ t.schema = schema := by
  unfold build at h
  split at h
  · rcases bind_eq_ok_iff.mp h with ⟨arrays, harrays, hbuild⟩
    exact built_of_buildArrays (normalised_of_mapM harrays) hbuild
  · cases h

namespace Built

variable {t : Table}

/-- The items of a built table. -/
theorem items (h : t.Built) :
    t.columns = t.schema.columns.map fun c => (c.name, t.array c.name) :=
  items_of_names h.names

theorem length_array (h : t.Built) {c : Column} (hc : c ∈ t.schema.columns) :
    (t.array c.name).length = t.rows := by
  refine h.lengths (c.name, t.array c.name) ?_
  rw [h.items]
  exact List.mem_map.mpr ⟨c, hc, rfl⟩

/-- Sorting a built table changes nothing. -/
theorem buildArrays_self (h : t.Built) : buildArrays t.schema t.columns = .ok t := by
  rcases h.ascending with ⟨keys, hkeys, hascending⟩
  have hlengths : ¬∃ item ∈ t.columns, item.2.length ≠ sizeOf t.columns := by
    push Not
    exact h.lengths
  have hmissing : missingColumn? t.schema t.columns = none := by
    refine List.find?_eq_none.mpr fun c hc => ?_
    simp only [Bool.and_eq_true, Bool.not_eq_true', decide_eq_true_eq, not_and]
    intro hnullable hnull
    have hadmits := h.admits c hc .null hnull
    rw [Column.admits, hnullable] at hadmits
    cases hadmits
  have horder : lexsort keys.reverse (sizeOf t.columns) = List.range (sizeOf t.columns) :=
    lexsort_of_sorted (hascending.imp le_of_lt)
  have hgather : t.columns.map (fun item =>
      (item.1, gather item.2 (List.range (sizeOf t.columns)))) = t.columns := by
    conv_rhs => rw [← List.map_id t.columns]
    apply List.map_congr_left
    intro item hitem
    have hlength : item.2.length = sizeOf t.columns := h.lengths item hitem
    rw [← hlength, gather_range]
    rfl
  rw [buildArrays, if_neg hlengths, hmissing]
  simp only [hkeys]
  change sortRows t.schema t.columns (sizeOf t.columns) keys = .ok t
  simp only [sortRows, horder, hgather]
  rw [if_neg]
  have hrepeat : hasRepeat ((List.range (sizeOf t.columns)).map (rowOf keys)) = false :=
    hasRepeat_of_ascending hascending
  rw [hrepeat]
  exact Bool.false_ne_true

/-- A built table is built again from values that normalise to its arrays. -/
theorem build_self (h : t.Built) {data : Dict String Values}
    (hkeys : data.keys = t.schema.names)
    (hdata : ∀ c ∈ t.schema.columns, ∃ values, data.get? c.name = some values ∧
      normalise c values = .ok (t.array c.name)) :
    build t.schema data = .ok t := by
  have hset : data.keys ⊆ t.schema.names ∧ t.schema.names ⊆ data.keys := by
    rw [hkeys]
    exact ⟨List.Subset.refl _, List.Subset.refl _⟩
  have harrays : t.schema.columns.mapM (normaliseColumn data) = .ok t.columns := by
    rw [h.items]
    apply mapM_eq_ok_map
    intro c hc
    rcases hdata c hc with ⟨values, hvalues, hnormalise⟩
    rw [normaliseColumn, hvalues]
    simp only [hnormalise]
    rfl
  rw [build, if_pos hset, harrays]
  exact h.buildArrays_self

end Built

end Table

end QuantumSentinel.Datasets
