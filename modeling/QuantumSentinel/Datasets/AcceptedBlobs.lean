import QuantumSentinel.Datasets.Canonical

/-!
# Datasets: which accepted blobs are canonical

The decoder compares the id of what it has built, not the bytes it has read.  A blob that it
accepts holds exactly the bytes its id covers when the header names that id, no column hides
bytes, and the rows of every table stand in the order of the key.

Main results:

- Definition `StoredTable.Tidy`: a stored table in which nothing is hidden.
- Theorem `readTables_reads`: the tables that were read, beside the bytes they were cut from.
- Theorem `accepted_canonical`: which accepted blobs are canonical.
-/

namespace QuantumSentinel.Datasets

open Lib

/-! ## The tables of a header -/

/-- A table as a blob stores it: its schema, its row count and the bytes of its columns. -/
structure StoredTable where
  schema : TableSchema
  rows : Json
  columns : List (Column × Bytes)

/-- The bytes of some columns from an offset of the payload on. -/
def cutColumns (payload : Bytes) :
    List (Json × Column) → ℕ → Except Raised (ℕ × List (Column × Bytes))
  | [], offset => .ok (offset, [])
  | (c, column) :: rest, offset => do
      let length ← readLength payload.length offset c
      let others ← cutColumns payload rest (offset + length)
      .ok (others.1, (column, (payload.drop offset).take length) :: others.2)

/-- One stored table. -/
def cutTable (payload : Bytes) (offset : ℕ) (spec : Json) :
    Except Raised (ℕ × StoredTable) := do
  let schema ← readSchema spec
  let rows ← item "rows" spec
  let columns ← item "columns" spec >>= iterate
  let cut ← cutColumns payload (columns.zip schema.columns) offset
  .ok (cut.1, ⟨schema, rows, cut.2⟩)

/-- All stored tables, and the offset behind them. -/
def cutTables (payload : Bytes) : ℕ → List Json → Except Raised (ℕ × List StoredTable)
  | offset, [] => .ok (offset, [])
  | offset, spec :: rest => do
      let cut ← cutTable payload offset spec
      let others ← cutTables payload cut.1 rest
      .ok (others.1, cut.2 :: others.2)

/-- The tables that a header finds in a payload. -/
def storedTables (header : Json) (payload : Bytes) : Except Raised (List StoredTable) := do
  let specs ← item "tables" header >>= iterate
  Prod.snd <$> cutTables payload 0 specs

namespace StoredTable

variable (s : StoredTable)

/-- The normalised arrays of the columns, in the order of the stored rows. -/
def arrays : Except Raised (List (String × List Cell)) :=
  s.columns.mapM fun item =>
    (fun cells => (item.1.name, cells)) <$> (parse item.1 item.2 s.rows >>= normalise item.1)

/-- The codes of the key, in the order of the stored rows. -/
def keyRows : Except Raised (List (List ℤ)) := do
  let arrays ← s.arrays
  let keys ← s.schema.key.mapM (Table.keyCodes s.schema arrays)
  .ok ((List.range (Table.sizeOf arrays)).map (rowOf keys))

/-- The number of rows. -/
def rowCount : ℕ :=
  ((pyInt? s.rows).map Int.toNat).getD 0

/-- A stored table in which nothing is hidden. -/
structure Tidy : Prop where
  columns : ∀ item ∈ s.columns, tidyColumn item.1 s.rowCount item.2 = true
  /-- the rows stand in the order of the key -/
  sorted : ∀ rows, s.keyRows = .ok rows → rows.Pairwise (· ≤ ·)

end StoredTable

/-! ## Cutting beside reading -/

/-- The bytes of the columns. -/
def StoredTable.bytes (s : StoredTable) : Bytes :=
  s.columns.flatMap Prod.snd

/-- The columns that were read, beside the bytes they were cut from. -/
structure CutColumns (rows : Json) (items : List (Json × Column)) (columns : List (Column × Bytes))
    (data data' : Dict String Values) : Prop where
  names : columns.map Prod.fst = items.map Prod.snd
  keys : data'.keys = data.keys ++ items.map fun item => item.2.name
  others : ∀ name, (name ∉ items.map fun item => item.2.name) → data'.get? name = data.get? name
  values : ∀ item ∈ columns, ∃ values, parse item.1 item.2 rows = .ok values ∧
    data'.get? item.1.name = some values

/-- A length that was read stays inside the payload. -/
theorem readLength_le {total offset n : ℕ} {c : Json} (h : readLength total offset c = .ok n) :
    offset + n ≤ total := by
  rcases bind_eq_ok_iff.mp h with ⟨length, -, hlength⟩
  split at hlength
  · cases hlength
  · split at hlength
    · cases hlength
    · rename_i hfits
      cases hlength
      omega

/-- Columns are cut where they are read. -/
theorem cut_of_readData {payload : Bytes} {rows : Json} {items : List (Json × Column)}
    (before behind : Bytes) (hpayload : payload = before ++ behind) {data data' : Dict String Values}
    {offset : ℕ} (h : readData payload rows items before.length data = .ok (offset, data'))
    (hnodup : (items.map fun item => item.2.name).Nodup)
    (hfresh : ∀ item ∈ items, item.2.name ∉ data.keys) :
    ∃ columns behind', cutColumns payload items before.length = .ok (offset, columns) ∧
      CutColumns rows items columns data data' ∧ behind = columns.flatMap Prod.snd ++ behind' ∧
        offset = before.length + (columns.flatMap Prod.snd).length := by
  induction items generalizing before behind data with
  | nil =>
    cases h
    exact ⟨[], behind, rfl,
      ⟨rfl, (List.append_nil _).symm, fun _ _ => rfl, fun _ h => by cases h⟩, rfl, rfl⟩
  | cons item rest ih =>
    rcases item with ⟨c, column⟩
    rw [readData] at h
    rcases bind_eq_ok_iff.mp h with ⟨n, hn, h⟩
    rcases bind_eq_ok_iff.mp h with ⟨values, hvalues, h⟩
    rw [List.map_cons, List.nodup_cons] at hnodup
    have hfirst := hfresh _ List.mem_cons_self
    have hle := readLength_le hn
    have hcut : (payload.drop before.length).take n = behind.take n := by
      rw [hpayload, List.drop_left]
    have hpiece : (behind.take n).length = n := by
      rw [hpayload, List.length_append] at hle
      rw [List.length_take]
      omega
    have hoffset : before.length + n = (before ++ behind.take n).length := by
      rw [List.length_append, hpiece]
    have hbytes : payload = (before ++ behind.take n) ++ behind.drop n := by
      rw [hpayload, List.append_assoc, List.take_append_drop]
    rw [hoffset] at h
    rcases ih _ _ hbytes h hnodup.2 (by
      intro d hd hmem
      rw [Dict.keys_set_of_notMem values hfirst, List.mem_append, List.mem_singleton] at hmem
      rcases hmem with hold | hname
      · exact hfresh d (List.mem_cons_of_mem _ hd) hold
      · exact hnodup.1 (hname ▸ List.mem_map_of_mem hd)) with
      ⟨columns, behind', hcolumns, hspec, hbehind, hend⟩
    refine ⟨(column, behind.take n) :: columns, behind', ?_, ⟨?_, ?_, ?_, ?_⟩, ?_, ?_⟩
    · refine bind_eq_ok_iff.mpr ⟨n, hn, bind_eq_ok_iff.mpr ⟨(offset, columns), ?_, ?_⟩⟩
      · rw [hoffset]
        exact hcolumns
      · rw [hcut]
    · rw [List.map_cons, List.map_cons, hspec.names]
    · rw [hspec.keys, Dict.keys_set_of_notMem values hfirst, List.map_cons, List.append_assoc]
      rfl
    · intro name hname
      rw [List.map_cons, List.mem_cons, not_or] at hname
      rw [hspec.others name hname.2, Dict.get?_set_ne data values hname.1]
    · intro d hd
      rcases List.mem_cons.mp hd with rfl | hrest
      · refine ⟨values, ?_, ?_⟩
        · rw [← hcut]
          exact hvalues
        · rw [hspec.others _ hnodup.1, Dict.get?_set_self]
      · exact hspec.values d hrest
    · rw [List.flatMap_cons, List.append_assoc, ← hbehind, List.take_append_drop]
    · rw [hend, List.flatMap_cons, List.length_append, List.length_append, Nat.add_assoc]

/-- A stored table and the table it was read as. -/
structure StoredTable.Reads (s : StoredTable) (t : Table) : Prop where
  schema : s.schema = t.schema
  columns : s.columns.map Prod.fst = t.schema.columns
  built : ∃ arrays, s.arrays = .ok arrays ∧ Table.Normalised t.schema arrays ∧
    Table.buildArrays t.schema arrays = .ok t

/-- An accepted schema has the columns it was made with. -/
theorem TableSchema.columns_of_make {name : String} {columns : List Column} {key : List String}
    {schema : TableSchema} (h : TableSchema.make name columns key = .ok schema) :
    schema.columns = columns := by
  unfold TableSchema.make at h
  split at h
  · cases h
  · cases h
    rfl

/-- A table is cut where it is read. -/
theorem cut_of_readTable {payload : Bytes} (before behind : Bytes)
    (hpayload : payload = before ++ behind) {spec : Json} {offset : ℕ} {t : Table}
    (h : readTable payload before.length spec = .ok (offset, t)) :
    ∃ s behind', cutTable payload before.length spec = .ok (offset, s) ∧ s.Reads t ∧
      behind = s.bytes ++ behind' ∧ offset = before.length + s.bytes.length := by
  rcases bind_eq_ok_iff.mp h with ⟨schema, hschema, h⟩
  rcases bind_eq_ok_iff.mp h with ⟨rows, hrows, h⟩
  rcases bind_eq_ok_iff.mp h with ⟨specs, hspecs, h⟩
  rcases bind_eq_ok_iff.mp h with ⟨⟨offset', data⟩, hread, h⟩
  rcases map_eq_ok_iff.mp h with ⟨t', hbuild, hresult⟩
  cases hresult
  have hcolumns : (specs.zip schema.columns).map Prod.snd = schema.columns := by
    rcases bind_eq_ok_iff.mp hschema with ⟨name, -, hrest⟩
    rcases bind_eq_ok_iff.mp hrest with ⟨columns, hcolumns, hrest⟩
    rcases bind_eq_ok_iff.mp hrest with ⟨key, -, hmake⟩
    rcases bind_eq_ok_iff.mp hcolumns with ⟨specs', hspecs', hmap⟩
    rw [hspecs, Except.ok.injEq] at hspecs'
    subst hspecs'
    have hlength := (mapM_eq_ok_iff.mp hmap).length_eq
    rw [TableSchema.columns_of_make hmake]
    exact List.map_snd_zip hlength.ge
  have hnames : ((specs.zip schema.columns).map fun item => item.2.name) = schema.names := by
    have hmap := congrArg (List.map Column.name) hcolumns
    rwa [List.map_map] at hmap
  rcases cut_of_readData before behind hpayload hread (by
    rw [hnames]
    exact schema.checked.2.2.1) (fun _ _ => List.not_mem_nil) with
    ⟨columns, behind', hcut, hspec, hbehind, hoffset⟩
  have hschemaSame := (Table.built_of_build hbuild).2
  have hfirst : columns.map Prod.fst = schema.columns := hspec.names.trans hcolumns
  unfold Table.build at hbuild
  split at hbuild
  · rcases bind_eq_ok_iff.mp hbuild with ⟨arrays, harrays, hbuild⟩
    refine ⟨⟨schema, rows, columns⟩, behind', ?_, ⟨hschemaSame.symm, ?_, arrays, ?_, ?_, ?_⟩,
      hbehind, hoffset⟩
    · exact bind_eq_ok_iff.mpr ⟨schema, hschema, bind_eq_ok_iff.mpr ⟨rows, hrows,
        bind_eq_ok_iff.mpr ⟨specs, hspecs, bind_eq_ok_iff.mpr ⟨_, hcut, rfl⟩⟩⟩⟩
    · rw [hschemaSame]
      exact hfirst
    · rw [← harrays, ← hfirst, List.mapM_map]
      apply mapM_congr
      intro item hitem
      rcases hspec.values item hitem with ⟨values, hparse, hget⟩
      rw [Function.comp_apply, Table.normaliseColumn, hget, hparse]
      rfl
    · rw [hschemaSame]
      exact Table.normalised_of_mapM harrays
    · rw [hschemaSame]
      exact hbuild
  · cases hbuild

/-! ## One table -/

namespace StoredTable

variable {s : StoredTable} {t : Table}

/-- The arrays of the rows as they are stored, with what reading says about each column. -/
theorem Reads.exists_arrays (h : s.Reads t) : ∃ arrays, s.arrays = .ok arrays ∧
    Table.Normalised t.schema arrays ∧ Table.buildArrays t.schema arrays = .ok t ∧
      ∀ item ∈ s.columns, ∃ values, parse item.1 item.2 s.rows = .ok values ∧
        normalise item.1 values = .ok (Table.arrayOf arrays item.1.name) ∧
          ReadsColumn item.1 s.rowCount item.2 (Table.arrayOf arrays item.1.name) := by
  rcases h.built with ⟨arrays, harrays, hnormal, hbuild⟩
  refine ⟨arrays, harrays, hnormal, hbuild, fun item hitem => ?_⟩
  rcases exists_right_of_forall₂ (mapM_eq_ok_iff.mp harrays) hitem with ⟨entry, hentry, hread⟩
  rcases map_eq_ok_iff.mp hread with ⟨cells, hcells, rfl⟩
  rcases bind_eq_ok_iff.mp hcells with ⟨values, hparse, hnormalise⟩
  have hnodup : (arrays.map Prod.fst).Nodup := by
    rw [hnormal.names]
    exact t.schema.checked.2.2.1
  have harray : Table.arrayOf arrays item.1.name = cells := Table.arrayOf_mem hnodup hentry
  have hcolumn : item.1 ∈ t.schema.columns := by
    rw [← h.columns]
    exact List.mem_map_of_mem hitem
  refine ⟨values, hparse, harray.symm ▸ hnormalise, ?_⟩
  rw [harray]
  refine column_canonical hparse hnormalise fun hnullable hnull => ?_
  unfold Table.buildArrays at hbuild
  split at hbuild
  · cases hbuild
  · split at hbuild
    · cases hbuild
    · rename_i hmissing
      have hnone := List.find?_eq_none.mp hmissing item.1 hcolumn
      rw [hnullable, harray] at hnone
      exact hnone (by simpa using hnull)

/-- Sorting rearranges the rows, or leaves them where their keys already stand in order. -/
theorem order_of_buildArrays {schema : TableSchema} {arrays : List (String × List Cell)}
    (hbuild : Table.buildArrays schema arrays = .ok t) : ∃ keys order,
      schema.key.mapM (Table.keyCodes schema arrays) = .ok keys ∧
      (∀ item ∈ arrays, item.2.length = Table.sizeOf arrays) ∧
      order.Perm (List.range (Table.sizeOf arrays)) ∧
      t = ⟨schema, arrays.map fun item => (item.1, gather item.2 order)⟩ ∧
      (((List.range (Table.sizeOf arrays)).map (rowOf keys)).Pairwise (· ≤ ·) →
        order = List.range (Table.sizeOf arrays)) := by
  unfold Table.buildArrays at hbuild
  split at hbuild
  · cases hbuild
  rename_i hlengths
  push Not at hlengths
  split at hbuild
  · cases hbuild
  rcases bind_eq_ok_iff.mp hbuild with ⟨keys, hkeys, hsort⟩
  simp only [Table.sortRows] at hsort
  split at hsort
  · cases hsort
  · cases hsort
    exact ⟨keys, _, hkeys, hlengths, lexsort_perm _ _, rfl, lexsort_of_sorted⟩

/-- No column is written with more bytes than it was read from. -/
theorem Reads.shorter (h : s.Reads t) : List.Forall₂ (fun raw written : Bytes =>
    written.length ≤ raw.length) (s.columns.map Prod.snd)
      (s.columns.map fun item => t.columnBytes item.1) := by
  rcases h.exists_arrays with ⟨arrays, -, hnormal, hbuild, hreads⟩
  rcases order_of_buildArrays hbuild with ⟨keys, order, -, hlengths, hperm, ht, -⟩
  rw [List.forall₂_map_left_iff, List.forall₂_map_right_iff, List.forall₂_same]
  intro item hitem
  rcases hreads item hitem with ⟨values, -, -, hcolumn⟩
  have hmem := hnormal.mem (c := item.1) (by
    rw [← h.columns]
    exact List.mem_map_of_mem hitem)
  have hrows : (t.array item.1.name).Perm (Table.arrayOf arrays item.1.name) := by
    rw [ht, Table.array, Table.arrayOf_gather _ _ (List.mem_map_of_mem hmem)]
    apply gather_perm
    rw [hlengths _ hmem]
    exact hperm
  have hlength := (hrows.flatMap_right (encodeCell item.1)).length_eq
  rw [Table.columnBytes, hlength]
  exact hcolumn.shorter

/-- The count of rows decides how a column is parsed. -/
theorem parse_congr {c : Column} {raw : Bytes} {rows rows' : Json}
    (h : pyInt? rows = pyInt? rows') : parse c raw rows = parse c raw rows' := by
  rw [parse, parse, h]

/-- Columns that were read from their own encoding were stored in order, and hide nothing. -/
theorem Reads.tidy_of_bytes (h : s.Reads t) (hpacks : t.Packs)
    (hbytes : ∀ item ∈ s.columns, item.2 = t.columnBytes item.1) : s.Tidy := by
  rcases h.exists_arrays with ⟨arrays, harrays, hnormal, hbuild, hreads⟩
  have hbuilt : t.Built := (Table.built_of_buildArrays hnormal hbuild).1
  have hsame : ∀ item ∈ s.columns,
      Table.arrayOf arrays item.1.name = t.array item.1.name := by
    intro item hitem
    rcases hreads item hitem with ⟨values, hparse, hnormalise, hcolumn⟩
    have hc : item.1 ∈ t.schema.columns := by
      rw [← h.columns]
      exact List.mem_map_of_mem hitem
    rcases parse_encodeCells (hbuilt.admits _ hc) (hpacks _ hc) with ⟨values', hparse', hback⟩
    rcases parse_eq_ok hparse with ⟨n, hn, hnonneg, -⟩
    have hmem := hnormal.mem hc
    rcases order_of_buildArrays hbuild with ⟨keys, order, -, hlengths, hperm, ht, -⟩
    have hrows : (t.array item.1.name).length = n.toNat := by
      have hcount := hcolumn.length
      rw [rowCount, hn] at hcount
      rw [ht, Table.array, Table.arrayOf_gather _ _ (List.mem_map_of_mem hmem), length_gather,
        hperm.length_eq, List.length_range, ← hlengths _ hmem]
      exact hcount
    have hint : pyInt? (.int (t.array item.1.name).length) = pyInt? s.rows := by
      rw [hn, hrows, Int.toNat_of_nonneg hnonneg]
      rfl
    have hsource : item.2 = (t.array item.1.name).flatMap (encodeCell item.1) := hbytes item hitem
    rw [← hsource, parse_congr hint, hparse, Except.ok.injEq] at hparse'
    subst hparse'
    rw [hnormalise, Except.ok.injEq] at hback
    exact hback
  constructor
  · intro item hitem
    rcases hreads item hitem with ⟨values, -, -, hcolumn⟩
    rw [hcolumn.tidy_iff, hsame item hitem]
    exact hbytes item hitem
  · intro rows hrows
    have htable : arrays = t.columns := by
      rw [Table.items_of_names hnormal.names, hbuilt.items, ← h.columns]
      apply List.map_congr_left
      intro c hc
      rcases List.mem_map.mp hc with ⟨item, hitem, rfl⟩
      rw [hsame item hitem]
    rcases bind_eq_ok_iff.mp hrows with ⟨arrays', harrays', hrows⟩
    rw [harrays, Except.ok.injEq] at harrays'
    subst harrays'
    rcases bind_eq_ok_iff.mp hrows with ⟨keys, hkeys, hrows⟩
    cases hrows
    rcases hbuilt.ascending with ⟨keys', hkeys', hascending⟩
    rw [h.schema, htable, hkeys', Except.ok.injEq] at hkeys
    subst hkeys
    rw [htable]
    exact hascending.imp le_of_lt

/-- Columns that hide nothing, with their rows in order, are their own encoding. -/
theorem Reads.bytes_of_tidy (h : s.Reads t) (htidy : s.Tidy) :
    ∀ item ∈ s.columns, item.2 = t.columnBytes item.1 := by
  rcases h.exists_arrays with ⟨arrays, harrays, hnormal, hbuild, hreads⟩
  rcases order_of_buildArrays hbuild with ⟨keys, order, hkeys, hlengths, -, ht, horder⟩
  have hsorted : ((List.range (Table.sizeOf arrays)).map (rowOf keys)).Pairwise (· ≤ ·) := by
    apply htidy.sorted
    refine bind_eq_ok_iff.mpr ⟨arrays, harrays, bind_eq_ok_iff.mpr ⟨keys, ?_, rfl⟩⟩
    rw [h.schema]
    exact hkeys
  intro item hitem
  rcases hreads item hitem with ⟨values, -, -, hcolumn⟩
  have hmem := hnormal.mem (c := item.1) (by
    rw [← h.columns]
    exact List.mem_map_of_mem hitem)
  have harray : t.array item.1.name = Table.arrayOf arrays item.1.name := by
    rw [ht, Table.array, Table.arrayOf_gather _ _ (List.mem_map_of_mem hmem), horder hsorted,
      ← hlengths _ hmem, gather_range]
  rw [Table.columnBytes, harray]
  exact hcolumn.tidy_iff.mp (htidy.columns item hitem)

/-- The columns of a table, written again. -/
theorem Reads.payload_eq (h : s.Reads t) :
    t.payload = (s.columns.map fun item => t.columnBytes item.1).flatten := by
  rw [Table.payload, ← h.columns, List.flatMap_map, List.flatMap_def]

/-- A stored table is its own encoding when nothing is hidden in it. -/
theorem Reads.payload_iff (h : s.Reads t) (hpacks : t.Packs) : s.bytes = t.payload ↔ s.Tidy := by
  rw [h.payload_eq, bytes, List.flatMap_def]
  constructor
  · intro heq
    have hpieces := eq_of_flatten_eq h.shorter heq
    exact h.tidy_of_bytes hpacks (List.map_inj_left.mp hpieces)
  · intro htidy
    congr 1
    exact List.map_inj_left.mpr (h.bytes_of_tidy htidy)

theorem Reads.length_payload_le (h : s.Reads t) : t.payload.length ≤ s.bytes.length := by
  have hle : ∀ {raws written : List Bytes}, List.Forall₂ (fun raw written : Bytes =>
      written.length ≤ raw.length) raws written →
        written.flatten.length ≤ raws.flatten.length := by
    intro raws written hpieces
    induction hpieces with
    | nil => exact le_rfl
    | cons hfirst _ ih =>
      rw [List.flatten_cons, List.flatten_cons, List.length_append, List.length_append]
      omega
  rw [h.payload_eq, bytes, List.flatMap_def]
  exact hle h.shorter

end StoredTable

/-! ## All tables -/

/-- Tables are cut where they are read. -/
theorem readTables_reads {payload : Bytes} (before behind : Bytes)
    (hpayload : payload = before ++ behind) {specs : List Json} {offset : ℕ} {tables : List Table}
    (h : readTables payload before.length specs = .ok (offset, tables)) :
    ∃ stored behind', cutTables payload before.length specs = .ok (offset, stored) ∧
      List.Forall₂ StoredTable.Reads stored tables ∧
      behind = stored.flatMap StoredTable.bytes ++ behind' ∧
      offset = before.length + (stored.flatMap StoredTable.bytes).length := by
  induction specs generalizing before behind tables with
  | nil =>
    cases h
    exact ⟨[], behind, rfl, List.Forall₂.nil, rfl, rfl⟩
  | cons spec rest ih =>
    rw [readTables] at h
    rcases bind_eq_ok_iff.mp h with ⟨⟨offset', t⟩, hfirst, h⟩
    rcases bind_eq_ok_iff.mp h with ⟨⟨offset'', others⟩, hothers, hresult⟩
    cases hresult
    rcases cut_of_readTable before behind hpayload hfirst with ⟨s, middle, hcut, hs, rfl, hend⟩
    have hmiddle : payload = (before ++ s.bytes) ++ middle := by
      rw [hpayload, List.append_assoc]
    have hoffset : offset' = (before ++ s.bytes).length := by
      rw [hend, List.length_append]
    subst hoffset
    rcases ih _ _ hmiddle hothers with ⟨stored, behind', hstored, hreads, rfl, rfl⟩
    refine ⟨s :: stored, behind', ?_, List.Forall₂.cons hs hreads, ?_, ?_⟩
    · exact bind_eq_ok_iff.mpr ⟨_, hcut, bind_eq_ok_iff.mpr ⟨_, hstored, rfl⟩⟩
    · rw [List.flatMap_cons, List.append_assoc]
    · rw [List.flatMap_cons, List.length_append, List.length_append, Nat.add_assoc]

/-- The stored tables of a dataset that was read make up the payload. -/
theorem storedTables_of_readDataset {header : Json} {payload : Bytes} {d : Dataset}
    (h : readDataset header payload = .ok d) : ∃ stored,
      storedTables header payload = .ok stored ∧ List.Forall₂ StoredTable.Reads stored d.tables ∧
        payload = stored.flatMap StoredTable.bytes := by
  rcases bind_eq_ok_iff.mp h with ⟨specs, hspecs, h⟩
  rcases bind_eq_ok_iff.mp h with ⟨⟨offset, tables⟩, htables, h⟩
  split at h
  · cases h
  rename_i hlength
  rcases bind_eq_ok_iff.mp h with ⟨identity, -, hmake⟩
  have hd : d.tables = tables := by
    unfold Dataset.make at hmake
    split at hmake
    · cases hmake
      rfl
    · cases hmake
  have htotal : offset = payload.length := not_not.mp hlength
  rcases readTables_reads [] payload rfl htables with ⟨stored, behind, hcut, hreads, hbytes, hend⟩
  refine ⟨stored, ?_, ?_, ?_⟩
  · exact bind_eq_ok_iff.mpr ⟨specs, hspecs, map_eq_ok_iff.mpr ⟨_, hcut, rfl⟩⟩
  · rw [hd]
    exact hreads
  · have hnone : behind = [] := by
      have hsize := congrArg List.length hbytes
      rw [List.length_append, ← htotal, hend, List.length_nil] at hsize
      exact List.eq_nil_of_length_eq_zero (by omega)
    rw [hnone, List.append_nil] at hbytes
    exact hbytes

/-- Some stored tables are the encoding of the tables they are read as when nothing is hidden
in any of them. -/
theorem bytes_eq_payload_iff {stored : List StoredTable} {tables : List Table}
    (h : List.Forall₂ StoredTable.Reads stored tables) (hpacks : ∀ t ∈ tables, t.Packs) :
    stored.flatMap StoredTable.bytes = tables.flatMap Table.payload ↔
      ∀ s ∈ stored, s.Tidy := by
  have hshorter : List.Forall₂ (fun raw written : Bytes => written.length ≤ raw.length)
      (stored.map StoredTable.bytes) (tables.map Table.payload) := by
    rw [List.forall₂_map_left_iff, List.forall₂_map_right_iff]
    exact h.imp fun _ _ hreads => hreads.length_payload_le
  have hpieces : stored.map StoredTable.bytes = tables.map Table.payload ↔
      ∀ s ∈ stored, s.Tidy := by
    clear hshorter
    induction h with
    | nil => simp
    | cons hs _ ih =>
      have hrest := ih fun t ht => hpacks t (List.mem_cons_of_mem _ ht)
      rw [List.map_cons, List.map_cons, List.cons.injEq, List.forall_mem_cons, hrest,
        hs.payload_iff (hpacks _ List.mem_cons_self)]
  rw [List.flatMap_def, List.flatMap_def, ← hpieces]
  constructor
  · intro heq
    exact eq_of_flatten_eq hshorter heq
  · intro heq
    rw [heq]

/-! ## Blobs -/

section Accepted

variable {sha256 : Bytes → String} {inflate : Bytes → ℕ → Except Builtin Inflated}
variable {loads : Bytes → Except Builtin Json}

/-- The length of the header, as a blob gives it. -/
def headerLength (blob : Bytes) : ℕ :=
  ofLeBytes ((blob.drop 8).take 8)

/-- The header of a blob and its decompressed payload. -/
structure BlobParts (inflate : Bytes → ℕ → Except Builtin Inflated)
    (loads : Bytes → Except Builtin Json) (maxBytes : ℕ) (blob : Bytes) (header : Json)
    (payload : Bytes) : Prop where
  reads : readHeader loads ((blob.drop 16).take (headerLength blob)) = .ok header
  inflates : readTotal maxBytes header >>=
    readPayload inflate (blob.drop (16 + headerLength blob)) = .ok payload

/-- A decoded blob was taken apart and read. -/
theorem parts_of_decode {blob : Bytes} {maxBytes : ℕ} {d : Dataset}
    {flags : String → Column → Json} (h : decode inflate loads blob maxBytes = .ok (d, flags)) :
    ∃ header payload found, BlobParts inflate loads maxBytes blob header payload ∧
      readDataset header payload = .ok d ∧ headerFlags header = .ok found ∧
        flags = flagIn found := by
  simp only [decode] at h
  split at h
  · cases h
  split at h
  · cases h
  rcases bind_eq_ok_iff.mp h with ⟨header, hheader, h⟩
  rcases bind_eq_ok_iff.mp h with ⟨total, htotal, h⟩
  rcases bind_eq_ok_iff.mp h with ⟨payload, hpayload, h⟩
  rcases bind_eq_ok_iff.mp h with ⟨d', hread, h⟩
  rcases bind_eq_ok_iff.mp h with ⟨found, hfound, h⟩
  cases h
  exact ⟨header, payload, found, ⟨hheader, bind_eq_ok_iff.mpr ⟨total, htotal, hpayload⟩⟩, hread,
    hfound, rfl⟩

/-- The content of a blob is what its id covers: the payload is the encoded columns, and the
header gives the id. -/
structure CanonicalBlob (header : Json) (payload : Bytes) (id : String) (d : Dataset) : Prop where
  payload : ∃ tables, d.chunked = .ok tables ∧ (allChunks tables).flatten = payload
  id : item "dataset_id" header = .ok (.str id)

/-- The encoded columns of a dataset that has an id. -/
theorem Dataset.payload_of_datasetId {d : Dataset} {flags : String → Column → Json} {id : String}
    (h : d.datasetId sha256 flags = .ok id) (payload : Bytes) :
    (∃ tables, d.chunked = .ok tables ∧ (allChunks tables).flatten = payload) ↔
      payload = d.payload := by
  have hchunked := Dataset.chunked_eq (Dataset.packs_of_datasetId h)
  constructor
  · rintro ⟨tables, htables, rfl⟩
    rw [hchunked, Except.ok.injEq] at htables
    rw [← htables, Dataset.flatten_allChunks]
  · rintro rfl
    exact ⟨_, hchunked, Dataset.flatten_allChunks d⟩

/-- An accepted blob is canonical when its header gives the id and no table hides bytes. -/
theorem accepted_canonical {blob : Bytes} {id : String} {maxBytes : ℕ} {d : Dataset}
    (h : decodeBlob sha256 inflate loads blob id maxBytes = .ok d) :
    ∃ header payload stored, BlobParts inflate loads maxBytes blob header payload ∧
      storedTables header payload = .ok stored ∧
      (CanonicalBlob header payload id d ↔
        item "dataset_id" header = .ok (.str id) ∧ ∀ s ∈ stored, s.Tidy) := by
  rcases bind_eq_ok_iff.mp h with ⟨⟨d', flags⟩, hdecode, h⟩
  rcases bind_eq_ok_iff.mp h with ⟨found, hid, h⟩
  split at h
  · cases h
    rcases parts_of_decode (mapError_eq_ok_iff.mp hdecode) with
      ⟨header, payload, -, hparts, hread, -⟩
    rcases storedTables_of_readDataset hread with ⟨stored, hstored, hreads, hbytes⟩
    refine ⟨header, payload, stored, hparts, hstored, ?_⟩
    have htidy := bytes_eq_payload_iff hreads (Dataset.packs_of_datasetId hid)
    rw [← hbytes] at htidy
    constructor
    · intro hcanonical
      exact ⟨hcanonical.id, htidy.mp
        ((Dataset.payload_of_datasetId hid payload).mp hcanonical.payload)⟩
    · rintro ⟨hname, hall⟩
      exact ⟨(Dataset.payload_of_datasetId hid payload).mpr (htidy.mpr hall), hname⟩
  · cases h

end Accepted

/-! ## A byte under a null -/

/-- The payload of the two tables with a byte in the value of a missing closing price. -/
def hiddenPayload : Bytes :=
  [1, 0, 0, 0, 2, 0, 0, 0, 1, 0, 0, 0, 0, 0, 0, 248, 63, 0, 7, 0, 0, 0, 0, 0, 0, 0,
    2, 0, 0, 0, 0, 0, 0, 0, 65, 66, 1, 2, 0, 0, 0, 0, 0, 0, 0, 195, 169]

/-- The payload as zlib compresses it. -/
def hiddenZlib : Bytes :=
  [120, 156, 99, 100, 96, 96, 96, 2, 98, 70, 6, 48, 248, 97, 207, 192, 14, 97, 129, 69, 65, 192,
    209, 137, 17, 198, 60, 188, 18, 0, 49, 36, 3, 55]

/-- The blob with the byte. -/
def hiddenBlob : Bytes :=
  blobMagic ++ (leBytes 8 sampleHeaderText.length ++ (sampleHeaderText ++ hiddenZlib))

/-- zlib on this payload. -/
def hiddenInflate (compressed : Bytes) (maxLength : ℕ) : Except Builtin Inflated :=
  if compressed = hiddenZlib ∧ hiddenPayload.length < maxLength then
    .ok ⟨hiddenPayload, true, [], []⟩
  else .error .zlibError

/-- `json.loads` on the header of the two tables. -/
abbrev sampleLoads : Bytes → Except Builtin Json :=
  knownLoads sampleHeaderText sampleHeader

/-- The parts of the blob with the byte. -/
theorem hiddenBlob_parts :
    BlobParts hiddenInflate sampleLoads defaultMaxBytes hiddenBlob sampleHeader hiddenPayload := by
  have hsmall : sampleHeaderText.length < 2 ^ 64 := by
    rw [length_sampleHeaderText]
    decide
  have hblob : hiddenBlob = blobMagic ++ (leBytes 8 sampleHeaderText.length ++ (sampleHeaderText ++
    hiddenZlib)) := rfl
  rcases blob_places hsmall hblob with ⟨-, hplace, hrest, -⟩
  have hlength : headerLength hiddenBlob = sampleHeaderText.length := hplace
  constructor
  · rw [hlength, hrest, List.take_left, readHeader, sampleLoads, knownLoads, if_pos rfl]
    rfl
  · rw [hlength, ← List.drop_drop, hrest, List.drop_left]
    decide +kernel

/-- The blob with the byte is accepted. -/
theorem decodeBlob_hiddenBlob :
    decodeBlob sampleSha256 hiddenInflate sampleLoads hiddenBlob sampleId defaultMaxBytes =
      .ok sampleDataset := by
  have hshort : sampleHeaderText.length ≤ maxHeader := by
    rw [length_sampleHeaderText]
    decide
  have hread : readHeader sampleLoads sampleHeaderText = .ok sampleHeader := by
    rw [readHeader, sampleLoads, knownLoads, if_pos rfl]
    rfl
  have htotal : readTotal defaultMaxBytes sampleHeader = .ok 47 := by decide +kernel
  have hpayload : readPayload hiddenInflate hiddenZlib 47 = .ok hiddenPayload := by decide +kernel
  have hdataset : readDataset sampleHeader hiddenPayload = .ok sampleDataset := by decide +kernel
  rcases headerFlags_blobHeader sampleDataset sampleId with ⟨flags, hflags, hin⟩
  have hdecode : decode hiddenInflate sampleLoads hiddenBlob defaultMaxBytes =
      .ok (sampleDataset, fun _ c => .bool c.nullable) := by
    rw [hiddenBlob, decode_parts hshort, ← hin]
    exact bind_eq_ok_iff.mpr ⟨_, hread, bind_eq_ok_iff.mpr ⟨_, htotal,
      bind_eq_ok_iff.mpr ⟨_, hpayload, bind_eq_ok_iff.mpr ⟨_, hdataset,
        bind_eq_ok_iff.mpr ⟨flags, hflags, rfl⟩⟩⟩⟩⟩
  rw [decodeBlob, hdecode]
  exact bind_eq_ok_iff.mpr ⟨_, rfl, bind_eq_ok_iff.mpr ⟨sampleId, sample_datasetId, if_pos rfl⟩⟩

/-- The payload of the accepted blob is not what its id covers. -/
theorem hidden_byte_accepted :
    decodeBlob sampleSha256 hiddenInflate sampleLoads hiddenBlob sampleId defaultMaxBytes =
        .ok sampleDataset ∧
      BlobParts hiddenInflate sampleLoads defaultMaxBytes hiddenBlob sampleHeader hiddenPayload ∧
        ¬CanonicalBlob sampleHeader hiddenPayload sampleId sampleDataset := by
  refine ⟨decodeBlob_hiddenBlob, hiddenBlob_parts, fun hcanonical => ?_⟩
  have hsame := (Dataset.payload_of_datasetId sample_datasetId hiddenPayload).mp
    hcanonical.payload
  have hother : hiddenPayload ≠ sampleDataset.payload := by decide +kernel
  exact hother hsame

/-- The accepted blob with the byte. -/
theorem accepted_canonical_hidden : ∃ header payload stored,
    BlobParts hiddenInflate sampleLoads defaultMaxBytes hiddenBlob header payload ∧
      storedTables header payload = .ok stored ∧
      (CanonicalBlob header payload sampleId sampleDataset ↔
        item "dataset_id" header = .ok (.str sampleId) ∧ ∀ s ∈ stored, s.Tidy) :=
  accepted_canonical decodeBlob_hiddenBlob

end QuantumSentinel.Datasets
