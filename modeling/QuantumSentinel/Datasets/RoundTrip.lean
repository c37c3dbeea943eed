import QuantumSentinel.Datasets.Blob
import QuantumSentinel.Datasets.ReadBack

/-!
# Datasets: what was encoded is decoded

The decoder reads back what the encoder wrote: the columns of a table one behind the other in
the payload, the tables, and the header.  The tables it builds are the tables that were
written, since sorting built rows changes nothing.

Main results:

- Theorem `readTable_tableSpec`: a table is read back from its place in the payload.
- Theorem `encodeBlob_eq`: a dataset within the limits is encoded.
- Theorem `decode_encode`: a dataset is read back from its blob.
-/

namespace QuantumSentinel.Datasets

open Lib

/-! ## Payloads -/

/-- The encoding of a column of a table. -/
def Table.columnBytes (t : Table) (c : Column) : Bytes :=
  (t.array c.name).flatMap (encodeCell c)

/-- The encodings of all columns of a table. -/
def Table.payload (t : Table) : Bytes :=
  t.schema.columns.flatMap t.columnBytes

/-- The payload of a dataset. -/
def Dataset.payload (d : Dataset) : Bytes :=
  d.tables.flatMap Table.payload

/-- The chunks of the columns of a table. -/
def Table.chunks (t : Table) : List (Column × List Bytes) :=
  t.schema.columns.map fun c => (c, encodeChunks c (t.array c.name))

/-- All texts of a table are short enough to be written. -/
def Table.Packs (t : Table) : Prop :=
  ∀ c ∈ t.schema.columns, ∀ cell ∈ t.array c.name, cell.packs = true

theorem lengthOf_eq (chunks : List Bytes) : lengthOf chunks = chunks.flatten.length := by
  rw [lengthOf, List.length_flatten]

theorem lengthOf_encodeChunks (t : Table) (c : Column) :
    lengthOf (encodeChunks c (t.array c.name)) = (t.columnBytes c).length := by
  rw [lengthOf_eq, flatten_encodeChunks, Table.columnBytes]

theorem Table.encoded_eq {t : Table} (hpacks : t.Packs) {c : Column}
    (hc : c ∈ t.schema.columns) :
    t.encoded c.name = .ok (encodeChunks c (t.array c.name)) := by
  have hall : (t.array c.name).all Cell.packs = true := List.all_eq_true.mpr (hpacks c hc)
  rw [Table.encoded, t.schema.column_of_mem hc]
  exact if_pos hall

theorem Table.chunked_eq {t : Table} (hpacks : t.Packs) : t.chunked = .ok t.chunks := by
  apply mapM_eq_ok_map
  intro c hc
  rw [Table.encoded_eq hpacks hc]
  rfl

theorem Dataset.chunked_eq {d : Dataset} (hpacks : ∀ t ∈ d.tables, t.Packs) :
    d.chunked = .ok (d.tables.map fun t => (t, t.chunks)) := by
  apply mapM_eq_ok_map
  intro t ht
  rw [Table.chunked_eq (hpacks t ht)]
  rfl

/-- A dataset with an id has texts that can be written. -/
theorem Dataset.packs_of_datasetId {sha256 : Bytes → String} {d : Dataset}
    {flags : String → Column → Json} {id : String} (h : d.datasetId sha256 flags = .ok id) :
    ∀ t ∈ d.tables, t.Packs := by
  intro t ht c hc
  rcases bind_eq_ok_iff.mp h with ⟨m, hm, -⟩
  rcases bind_eq_ok_iff.mp hm with ⟨entries, hentries, -⟩
  rcases exists_right_of_forall₂ (mapM_eq_ok_iff.mp hentries) ht with ⟨entry, -, hentry⟩
  rcases map_eq_ok_iff.mp hentry with ⟨hash, hhash, -⟩
  rcases bind_eq_ok_iff.mp hhash with ⟨manifest, hmanifest, -⟩
  rcases manifest_eq_ok hmanifest with ⟨columns, hcolumns, -⟩
  rcases exists_right_of_forall₂ hcolumns hc with ⟨j, -, digest, hdigest, -⟩
  exact (columnDigest_eq_ok hc hdigest).1

/-- The chunks of all columns make up the payload. -/
theorem Dataset.flatten_allChunks (d : Dataset) :
    (allChunks (d.tables.map fun t => (t, t.chunks))).flatten = d.payload := by
  have htable : ∀ t : Table, (t.chunks.flatMap Prod.snd).flatten = t.payload := by
    intro t
    rw [Table.chunks, Table.payload, List.flatMap_map]
    induction t.schema.columns with
    | nil => rfl
    | cons c rest ih =>
      rw [List.flatMap_cons, List.flatten_append, ih, flatten_encodeChunks, List.flatMap_cons]
      rfl
  rw [allChunks, Dataset.payload, List.flatMap_map]
  induction d.tables with
  | nil => rfl
  | cons t rest ih =>
    rw [List.flatMap_cons, List.flatten_append, ih, htable, List.flatMap_cons]

/-! ## Specifications in the header -/

/-- The columns of a table are in the header as they stand in its schema. -/
theorem tableSpec_chunks (t : Table) : tableSpec t t.chunks =
    .obj [("columns", .arr (t.schema.columns.map fun c =>
        columnSpec c (t.columnBytes c).length)),
      ("key", .arr (t.schema.key.map .str)), ("name", .str t.schema.name),
      ("rows", .int t.rows)] := by
  have hcolumns : (t.chunks.map fun item => columnSpec item.1 (lengthOf item.2)) =
      t.schema.columns.map fun c => columnSpec c (t.columnBytes c).length := by
    rw [Table.chunks, List.map_map]
    apply List.map_congr_left
    intro c _
    rw [Function.comp_apply, lengthOf_encodeChunks]
  rw [tableSpec, hcolumns]

/-- The members of a column stand in order. -/
theorem sorted_columnSpec (c : Column) (length : ℕ) :
    (columnSpec c length).sorted = columnSpec c length := by
  have hnames : ["length", "name", "nullable", "type"].Pairwise (· ≤ ·) := by decide
  rw [columnSpec, Json.sorted_obj_of_pairwise]
  · rfl
  · exact hnames

/-- The members of a table stand in order. -/
theorem sorted_tableSpec (t : Table) : (tableSpec t t.chunks).sorted = tableSpec t t.chunks := by
  have hcolumns : ((t.schema.columns.map fun c =>
      columnSpec c (t.columnBytes c).length).map Json.sorted) =
        t.schema.columns.map fun c => columnSpec c (t.columnBytes c).length := by
    rw [List.map_map]
    apply List.map_congr_left
    intro c _
    exact sorted_columnSpec c _
  have hkey : ((t.schema.key.map Json.str).map Json.sorted) = t.schema.key.map Json.str := by
    rw [List.map_map]
    rfl
  have hnames : ["columns", "key", "name", "rows"].Pairwise (· ≤ ·) := by decide
  rw [tableSpec_chunks, Json.sorted_obj_of_pairwise]
  · simp only [List.map_cons, List.map_nil, Json.sorted, Json.sortedItems_eq, hcolumns, hkey]
  · exact hnames

/-- A column is read from the header. -/
theorem readColumn_columnSpec (c : Column) (length : ℕ) :
    readColumn (columnSpec c length) = .ok c := by
  have htype : typeOf (.str c.type.text) = .ok c.type := by
    rw [typeOf, ColumnType.ofText?_text]
  change ((typeOf (.str c.type.text)) >>= fun type => _) = _
  rw [htype]
  rfl

/-- The schema of a table is read from the header. -/
theorem readSchema_tableSpec (t : Table) : readSchema (tableSpec t t.chunks) = .ok t.schema := by
  have hcolumns : (t.schema.columns.map fun c =>
      columnSpec c (t.columnBytes c).length).mapM readColumn = .ok t.schema.columns := by
    rw [mapM_eq_ok_iff, List.forall₂_map_left_iff, List.forall₂_same]
    intro c _
    exact readColumn_columnSpec c _
  have hkey : (t.schema.key.map Json.str).mapM textOf = .ok t.schema.key := by
    rw [mapM_eq_ok_iff, List.forall₂_map_left_iff, List.forall₂_same]
    intro k _
    rfl
  rw [tableSpec_chunks]
  change ((t.schema.columns.map fun c =>
      columnSpec c (t.columnBytes c).length).mapM readColumn >>= fun columns =>
    (t.schema.key.map Json.str).mapM textOf >>= fun key =>
      TableSchema.make t.schema.name columns key) = _
  rw [hcolumns, hkey]
  exact t.schema.make_self

/-- The length of a column is read from the header. -/
theorem readLength_columnSpec {total offset length : ℕ} (c : Column)
    (h : offset + length ≤ total) : readLength total offset (columnSpec c length) = .ok length := by
  have hfits : ¬((length : ℤ) < 0 ∨ (total : ℤ) < offset + length) := by omega
  change (if (length : ℤ) < 0 ∨ (total : ℤ) < offset + length then _
    else Except.ok (length : ℤ).toNat) = _
  rw [if_neg hfits, Int.toNat_natCast]

/-! ## Columns one behind the other -/

/-- What reading some columns adds to the data of a table. -/
structure ReadsBack (t : Table) (cs : List Column) (data data' : Dict String Values) : Prop where
  keys : data'.keys = data.keys ++ cs.map Column.name
  others : ∀ name, name ∉ cs.map Column.name → data'.get? name = data.get? name
  values : ∀ c ∈ cs, ∃ values, data'.get? c.name = some values ∧
    normalise c values = .ok (t.array c.name)

/-- The columns of a table are read back from their place in the payload. -/
theorem readData_columns {t : Table} (hbuilt : t.Built) (hpacks : t.Packs) {cs : List Column}
    (hcs : cs ⊆ t.schema.columns) (hnodup : (cs.map Column.name).Nodup) {payload : Bytes}
    (before behind : Bytes) (hpayload : payload = before ++ (cs.flatMap t.columnBytes ++ behind))
    (data : Dict String Values) (hfresh : ∀ c ∈ cs, c.name ∉ data.keys) :
    ∃ data', readData payload (.int t.rows)
        (cs.map fun c => (columnSpec c (t.columnBytes c).length, c)) before.length data =
          .ok (before.length + (cs.flatMap t.columnBytes).length, data') ∧
      ReadsBack t cs data data' := by
  induction cs generalizing before data with
  | nil =>
    exact ⟨data, rfl, by rw [List.map_nil, List.append_nil], fun _ _ => rfl,
      fun _ h => by cases h⟩
  | cons c rest ih =>
    have hc : c ∈ t.schema.columns := hcs List.mem_cons_self
    rw [List.map_cons, List.nodup_cons] at hnodup
    have hbytes : payload =
        (before ++ t.columnBytes c) ++ (rest.flatMap t.columnBytes ++ behind) := by
      rw [hpayload, List.flatMap_cons, List.append_assoc, List.append_assoc]
    have hlength : readLength payload.length before.length
        (columnSpec c (t.columnBytes c).length) = .ok (t.columnBytes c).length := by
      apply readLength_columnSpec
      rw [hbytes, List.length_append, List.length_append]
      omega
    have hcut : (payload.drop before.length).take (t.columnBytes c).length =
        t.columnBytes c := by
      rw [hbytes, List.append_assoc, List.drop_left, List.take_left]
    rcases parse_encodeCells (hbuilt.admits c hc) (hpacks c hc) with ⟨values, hparse, hnormal⟩
    rw [hbuilt.length_array hc] at hparse
    have hfreshRest : ∀ d ∈ rest, d.name ∉ (data.set c.name values).keys := by
      intro d hd hmem
      rw [Dict.keys_set_of_notMem values (hfresh c List.mem_cons_self), List.mem_append,
        List.mem_singleton] at hmem
      rcases hmem with hold | hname
      · exact hfresh d (List.mem_cons_of_mem _ hd) hold
      · exact hnodup.1 (hname ▸ List.mem_map_of_mem hd)
    rcases ih (fun d hd => hcs (List.mem_cons_of_mem _ hd)) hnodup.2
      (before ++ t.columnBytes c) hbytes (data.set c.name values) hfreshRest with
      ⟨data', hread, hback⟩
    refine ⟨data', ?_, ?_, ?_, ?_⟩
    · rw [List.map_cons, readData, hlength]
      change (parse c ((payload.drop before.length).take (t.columnBytes c).length)
          (.int t.rows) >>= fun values => readData payload (.int t.rows) _
            (before.length + (t.columnBytes c).length) (data.set c.name values)) = _
      rw [hcut]
      change (parse c ((t.array c.name).flatMap (encodeCell c)) (.int t.rows) >>= _) = _
      rw [hparse]
      rw [List.length_append] at hread
      refine hread.trans ?_
      rw [List.flatMap_cons, List.length_append, Nat.add_assoc]
    · rw [hback.keys, Dict.keys_set_of_notMem values (hfresh c List.mem_cons_self), List.map_cons,
        List.append_assoc]
      rfl
    · intro name hname
      rw [List.map_cons, List.mem_cons, not_or] at hname
      rw [hback.others name hname.2, Dict.get?_set_ne data values hname.1]
    · intro d hd
      rcases List.mem_cons.mp hd with rfl | hrest
      · refine ⟨values, ?_, hnormal⟩
        rw [hback.others d.name hnodup.1, Dict.get?_set_self]
      · exact hback.values d hrest

/-- A table is read back from its place in the payload. -/
theorem readTable_tableSpec {t : Table} (hbuilt : t.Built) (hpacks : t.Packs) {payload : Bytes}
    (before behind : Bytes) (hpayload : payload = before ++ (t.payload ++ behind)) :
    readTable payload before.length (tableSpec t t.chunks) =
      .ok (before.length + t.payload.length, t) := by
  rcases readData_columns hbuilt hpacks (List.Subset.refl _) t.schema.checked.2.2.1 before behind
    hpayload Dict.empty (fun _ _ => List.not_mem_nil) with ⟨data, hread, hback⟩
  have hzip : (t.schema.columns.map fun c => columnSpec c (t.columnBytes c).length).zip
      t.schema.columns =
        t.schema.columns.map fun c => (columnSpec c (t.columnBytes c).length, c) := by
    conv_lhs => rw [← List.map_id t.schema.columns]
    rw [List.map_map, List.zip_map']
    rfl
  have hbuild : Table.build t.schema data = .ok t :=
    hbuilt.build_self (by rw [hback.keys]; rfl) hback.values
  rw [readTable, readSchema_tableSpec]
  change (item "rows" (tableSpec t t.chunks) >>= fun rows =>
    item "columns" (tableSpec t t.chunks) >>= iterate >>= fun columns =>
      readData payload rows (columns.zip t.schema.columns) before.length Dict.empty >>= fun read =>
        (fun t => (read.1, t)) <$> Table.build t.schema read.2) = _
  rw [tableSpec_chunks]
  change (readData payload (.int t.rows) ((t.schema.columns.map fun c =>
    columnSpec c (t.columnBytes c).length).zip t.schema.columns) before.length Dict.empty >>=
      fun read => (fun t => (read.1, t)) <$> Table.build t.schema read.2) = _
  rw [hzip, hread]
  change (fun table => (before.length + t.payload.length, table)) <$>
    Table.build t.schema data = _
  rw [hbuild]
  rfl

/-- All tables are read back. -/
theorem readTables_specs {tables : List Table} (hbuilt : ∀ t ∈ tables, t.Built)
    (hpacks : ∀ t ∈ tables, t.Packs) {payload : Bytes} (before : Bytes)
    (hpayload : payload = before ++ tables.flatMap Table.payload) :
    readTables payload before.length (tables.map fun t => tableSpec t t.chunks) =
      .ok (payload.length, tables) := by
  induction tables generalizing before with
  | nil =>
    rw [hpayload, List.flatMap_nil, List.append_nil]
    rfl
  | cons t rest ih =>
    have hfirst := readTable_tableSpec (hbuilt t List.mem_cons_self)
      (hpacks t List.mem_cons_self) before (rest.flatMap Table.payload) hpayload
    have hrest := ih (fun u hu => hbuilt u (List.mem_cons_of_mem _ hu))
      (fun u hu => hpacks u (List.mem_cons_of_mem _ hu)) (before ++ t.payload) (by
        rw [hpayload, List.flatMap_cons, List.append_assoc])
    rw [List.length_append] at hrest
    rw [List.map_cons, readTables, hfirst]
    change (readTables payload (before.length + t.payload.length)
      (rest.map fun t => tableSpec t t.chunks) >>= fun others =>
        Except.ok (others.1, t :: others.2)) = _
    rw [hrest]
    rfl

/-! ## The identity -/

/-- An identity is read back from its sorted members. -/
theorem readIdentity_asDict (identity : DatasetIdentity) :
    readIdentity identity.asDict.sorted = .ok identity := by
  have hnodup : ((identity.fields.items.map fun item =>
      (item.1, Json.str item.2)).map Prod.fst).Nodup := by
    simp [IdentityFields.items]
  obtain ⟨members, hmembers⟩ : ∃ members, identity.asDict.sorted = .obj members := ⟨_, rfl⟩
  have hfield : ∀ {name value}, Dict.lookup name identity.fields.items = some value →
      fieldText members name = .ok value := by
    intro name value hlookup
    have hget := Json.get?_sorted hnodup name
    change identity.asDict.sorted.get? name = _ at hget
    rw [hmembers, Json.get?, Json.get?, Dict.lookup_map fun _ s => Json.str s, hlookup] at hget
    rw [fieldText, hget]
    rfl
  have hnames : (members.all fun m => decide (m.1 ∈ identityNames)) = true := by
    have hperm : members.Perm (Json.sortedMembers
        (identity.fields.items.map fun item => (item.1, Json.str item.2))) := by
      rw [← Json.obj.inj hmembers]
      exact List.perm_insertionSort _ _
    refine List.all_eq_true.mpr fun m hm => decide_eq_true ?_
    have hkeys := (hperm.map Prod.fst).mem_iff.mp (List.mem_map_of_mem hm)
    rw [Json.sortedMembers_eq, List.map_map, List.map_map] at hkeys
    exact hkeys
  rcases identity.fields.lookup_items with ⟨h1, h2, h3, h4, h5, h6, h7⟩
  have hfields : identityFields members = .ok identity.fields := by
    rw [identityFields, hfield h1, hfield h2, hfield h3, hfield h4, hfield h5, hfield h6,
      hfield h7]
    rfl
  rw [hmembers, readIdentity, hnames, if_pos rfl, hfields]
  exact dif_pos identity.valid

/-! ## What canonical JSON admits -/

theorem itemsError_eq_none {items : List Json} (h : ∀ v ∈ items, canonicalError v = none) :
    itemsError items = none := by
  induction items with
  | nil => rfl
  | cons v rest ih =>
    rw [itemsError, h v List.mem_cons_self, Option.none_or]
    exact ih fun w hw => h w (List.mem_cons_of_mem _ hw)

/-- What is admitted is written. -/
theorem canonicalJson_ok {v : Json} (h : canonicalError v = none) :
    ∃ bytes, canonicalJson v = .ok bytes := by
  rw [canonicalJson, h]
  exact ⟨_, rfl⟩

/-- An object is admitted when its names are ASCII and its values are admitted. -/
theorem canonicalError_obj {members : List (String × Json)}
    (hnames : ∀ name ∈ members.map Prod.fst, isAscii name = true)
    (hvalues : ∀ v ∈ members.map Prod.snd, canonicalError v = none) :
    canonicalError (.obj members) = none := by
  have hmembers : membersError members = none := by
    induction members with
    | nil => rfl
    | cons m rest ih =>
      rcases m with ⟨name, v⟩
      rw [membersError, if_pos (hnames name List.mem_cons_self),
        hvalues v List.mem_cons_self, Option.none_or]
      exact ih (fun n hn => hnames n (List.mem_cons_of_mem _ hn))
        fun w hw => hvalues w (List.mem_cons_of_mem _ hw)
  rw [canonicalError, hmembers]

theorem canonicalError_arr {items : List Json} (h : ∀ v ∈ items, canonicalError v = none) :
    canonicalError (.arr items) = none := by
  rw [canonicalError, itemsError_eq_none h]

theorem canonicalError_str (s : String) : canonicalError (.str s) = none := by
  rw [canonicalError]

theorem canonicalError_nat {n : ℕ} (h : n ≤ defaultMaxBytes) :
    canonicalError (.int n) = none := by
  rw [canonicalError, if_pos]
  rw [Int.natAbs_natCast]
  exact h.trans (by decide)

theorem canonicalError_texts (texts : List String) :
    canonicalError (.arr (texts.map .str)) = none := by
  apply canonicalError_arr
  intro v hv
  rcases List.mem_map.mp hv with ⟨s, -, rfl⟩
  exact canonicalError_str s

/-- The members of an identity are admitted. -/
theorem canonicalError_asDict (identity : DatasetIdentity) :
    canonicalError identity.asDict = none := by
  have hnames : ∀ name ∈ identityNames, isAscii name = true := by decide
  apply canonicalError_obj
  · intro name hname
    rw [List.map_map] at hname
    exact hnames name hname
  · intro v hv
    rw [List.map_map] at hv
    rcases List.mem_map.mp hv with ⟨item, -, rfl⟩
    exact canonicalError_str item.2

/-- The characters of a name are ASCII characters. -/
theorem isAscii_of_isName {s : String} (h : isName s = true) : isAscii s = true := by
  have hlower : ∀ {c : Char}, isLowerLetter c = true → c.toNat < 128 := by
    intro c hc
    rw [isLowerLetter, Bool.and_eq_true, decide_eq_true_eq, decide_eq_true_eq] at hc
    have hz : c.toNat ≤ 'z'.toNat := hc.2
    have hcode : 'z'.toNat = 122 := rfl
    omega
  have hrest : ∀ {c : Char}, (isLowerLetter c || c.isDigit || decide (c = '_')) = true →
      c.toNat < 128 := by
    intro c hc
    rw [Bool.or_eq_true, Bool.or_eq_true, decide_eq_true_eq] at hc
    rcases hc with (hc | hc) | rfl
    · exact hlower hc
    · rw [Char.isDigit, Bool.and_eq_true, decide_eq_true_eq, decide_eq_true_eq] at hc
      have hnine : c.toNat ≤ '9'.toNat := hc.2
      have hcode : '9'.toNat = 57 := rfl
      omega
    · decide
  unfold isName at h
  refine List.all_eq_true.mpr fun c hc => decide_eq_true ?_
  split at h
  · cases h
  · rename_i first rest heq
    rw [heq] at hc
    rw [Bool.and_eq_true, Bool.and_eq_true] at h
    rcases List.mem_cons.mp hc with rfl | hmem
    · exact hlower h.1.1
    · exact hrest (List.all_eq_true.mp h.2 c hmem)

/-! ## Lengths -/

theorem one_le_length_encodeCell (c : Column) (cell : Cell) :
    1 ≤ (encodeCell c cell).length := by
  by_cases htype : c.type = .utf8
  · cases cell with
    | text s =>
      simp only [encodeCell, htype, List.length_append, length_leBytes]
      omega
    | null => simp only [encodeCell, htype, List.length_cons, length_leBytes]; omega
    | int n => simp only [encodeCell, htype, List.length_cons, length_leBytes]; omega
    | float x => simp only [encodeCell, htype, List.length_cons, length_leBytes]; omega
  · have hwidth : 1 ≤ width c.type := by
      cases c.type <;> decide
    rw [length_encodeCell htype, itemSize]
    omega

theorem length_le_flatMap {α : Type} {f : α → Bytes} {l : List α} {a : α} (ha : a ∈ l) :
    (f a).length ≤ (l.flatMap f).length := by
  rw [List.flatMap_def]
  exact (List.sublist_flatten_of_mem (List.mem_map_of_mem ha)).length_le

theorem length_le_columnBytes (t : Table) (c : Column) :
    (t.array c.name).length ≤ (t.columnBytes c).length := by
  rw [Table.columnBytes]
  induction t.array c.name with
  | nil => exact Nat.zero_le _
  | cons cell rest ih =>
    have hcell := one_le_length_encodeCell c cell
    rw [List.flatMap_cons, List.length_append, List.length_cons]
    omega

/-- Every row of a built table takes a byte of the payload. -/
theorem Table.Built.rows_le_payload {t : Table} (h : t.Built) : t.rows ≤ t.payload.length := by
  rcases List.exists_mem_of_ne_nil _ t.schema.checked.2.2.2.1 with ⟨c, hc⟩
  calc t.rows = (t.array c.name).length := (h.length_array hc).symm
    _ ≤ (t.columnBytes c).length := length_le_columnBytes t c
    _ ≤ t.payload.length := length_le_flatMap hc

/-- The texts of a small payload are short enough to be written. -/
theorem Table.Built.packs {t : Table} (h : t.Built) (hlimit : t.payload.length < 2 ^ 64) :
    t.Packs := by
  intro c hc cell hcell
  cases cell with
  | null => rfl
  | int n => rfl
  | float x => rfl
  | text s =>
    have htype : c.type = .utf8 := by
      simpa [Column.admits] using h.admits c hc (.text s) hcell
    have hcode : (utf8 s).length ≤ (encodeCell c (.text s)).length := by
      simp only [encodeCell, htype, List.length_append]
      omega
    have hcolumn : (encodeCell c (.text s)).length ≤ (t.columnBytes c).length :=
      length_le_flatMap hcell
    have htable : (t.columnBytes c).length ≤ t.payload.length := length_le_flatMap hc
    exact decide_eq_true (by omega)

/-! ## A dataset within the limits is encoded -/

theorem canonicalError_columnJson (c : Column) (digest : String) :
    canonicalError (columnJson c digest) = none := by
  have hnames : ∀ name ∈ ["name", "nullable", "sha256", "type"], isAscii name = true := by decide
  apply canonicalError_obj
  · exact hnames
  · simp only [List.map_cons, List.map_nil, List.forall_mem_cons, List.not_mem_nil,
      IsEmpty.forall_iff, implies_true, canonicalError, and_self]

theorem canonicalError_columnSpec (c : Column) {length : ℕ} (h : length ≤ defaultMaxBytes) :
    canonicalError (columnSpec c length) = none := by
  have hnames : ∀ name ∈ ["length", "name", "nullable", "type"], isAscii name = true := by decide
  apply canonicalError_obj
  · exact hnames
  · intro v hv
    simp only [List.map_cons, List.map_nil, List.mem_cons, List.not_mem_nil, or_false] at hv
    rcases hv with rfl | rfl | rfl | rfl
    · exact canonicalError_nat h
    · exact canonicalError_str c.name
    · rw [canonicalError]
    · exact canonicalError_str c.type.text

/-- The specification of a small table is admitted. -/
theorem canonicalError_tableSpec {t : Table} (hbuilt : t.Built)
    (hlimit : t.payload.length ≤ defaultMaxBytes) : canonicalError (tableSpec t t.chunks) = none := by
  have hnames : ∀ name ∈ ["columns", "key", "name", "rows"], isAscii name = true := by decide
  rw [tableSpec_chunks]
  apply canonicalError_obj
  · exact hnames
  · intro v hv
    simp only [List.map_cons, List.map_nil, List.mem_cons, List.not_mem_nil, or_false] at hv
    rcases hv with rfl | rfl | rfl | rfl
    · apply canonicalError_arr
      intro v hv
      rcases List.mem_map.mp hv with ⟨c, hc, rfl⟩
      have hcolumn : (t.columnBytes c).length ≤ t.payload.length := length_le_flatMap hc
      exact canonicalError_columnSpec c (hcolumn.trans hlimit)
    · exact canonicalError_texts t.schema.key
    · exact canonicalError_str t.schema.name
    · exact canonicalError_nat (hbuilt.rows_le_payload.trans hlimit)

section Encode

variable {sha256 : Bytes → String}

/-- A small table has a hash. -/
theorem Table.Built.tableHash_ok {t : Table} (h : t.Built)
    (hlimit : t.payload.length ≤ defaultMaxBytes) : ∃ hash, t.tableHash sha256 = .ok hash := by
  have hpacks : t.Packs := h.packs (lt_of_le_of_lt hlimit (by decide))
  have hcolumns : (t.schema.columns.mapM fun c =>
      (fun digest => columnJson c digest) <$> t.columnDigest sha256 c.name) =
      .ok (t.schema.columns.map fun c =>
        columnJson c (sha256 (encodeChunks c (t.array c.name)).flatten)) := by
    apply mapM_eq_ok_map
    intro c hc
    rw [Table.columnDigest, Table.encoded_eq hpacks hc]
    rfl
  have hnames : ∀ name ∈ ["columns", "key", "rows", "scheme"], isAscii name = true := by decide
  have hcanonical : canonicalError (.obj [("columns", .arr (t.schema.columns.map fun c =>
        columnJson c (sha256 (encodeChunks c (t.array c.name)).flatten))),
      ("key", .arr (t.schema.key.map .str)), ("rows", .int t.rows),
      ("scheme", .str tableScheme)]) = none := by
    apply canonicalError_obj
    · exact hnames
    · intro v hv
      simp only [List.map_cons, List.map_nil, List.mem_cons, List.not_mem_nil, or_false] at hv
      rcases hv with rfl | rfl | rfl | rfl
      · apply canonicalError_arr
        intro v hv
        rcases List.mem_map.mp hv with ⟨c, -, rfl⟩
        exact canonicalError_columnJson c _
      · exact canonicalError_texts t.schema.key
      · exact canonicalError_nat (h.rows_le_payload.trans hlimit)
      · exact canonicalError_str tableScheme
  have hmanifest : t.manifest sha256 = .ok (.obj [("columns", .arr (t.schema.columns.map fun c =>
        columnJson c (sha256 (encodeChunks c (t.array c.name)).flatten))),
      ("key", .arr (t.schema.key.map .str)), ("rows", .int t.rows),
      ("scheme", .str tableScheme)]) := by
    rw [Table.manifest, hcolumns]
    rfl
  rcases canonicalJson_ok hcanonical with ⟨bytes, hbytes⟩
  exact ⟨_, bind_eq_ok_iff.mpr ⟨_, hmanifest, map_eq_ok_iff.mpr ⟨bytes, hbytes, rfl⟩⟩⟩

/-- A small dataset has an id. -/
theorem Dataset.datasetId_ok {d : Dataset} (hbuilt : ∀ t ∈ d.tables, t.Built)
    (hlimit : d.payload.length ≤ defaultMaxBytes) : ∃ id, d.datasetId sha256 = .ok id := by
  have hhash : ∀ t ∈ d.tables, ∃ entry, Dataset.tableEntry sha256 t = .ok entry := by
    intro t ht
    have htable : t.payload.length ≤ d.payload.length := length_le_flatMap ht
    obtain ⟨hash, hhash⟩ : ∃ hash, t.tableHash sha256 = .ok hash :=
      (hbuilt t ht).tableHash_ok (htable.trans hlimit)
    exact ⟨_, map_eq_ok_iff.mpr ⟨hash, hhash, rfl⟩⟩
  rcases exists_forall₂ hhash with ⟨entries, hentries⟩
  have htables : canonicalError (.obj entries) = none := by
    have hentry : ∀ m ∈ entries, isAscii m.1 = true ∧ canonicalError m.2 = none := by
      intro m hm
      rcases exists_of_forall₂ hentries hm with ⟨t, -, hentry⟩
      rcases map_eq_ok_iff.mp hentry with ⟨hash, -, rfl⟩
      exact ⟨isAscii_of_isName t.schema.checked.1, canonicalError_str hash⟩
    apply canonicalError_obj
    · intro name hname
      rcases List.mem_map.mp hname with ⟨m, hm, rfl⟩
      exact (hentry m hm).1
    · intro v hv
      rcases List.mem_map.mp hv with ⟨m, hm, rfl⟩
      exact (hentry m hm).2
  have hnames : ∀ name ∈ ["identity", "scheme", "tables"], isAscii name = true := by decide
  have hcanonical : canonicalError (.obj [("identity", d.identity.asDict),
      ("scheme", .str datasetScheme), ("tables", .obj entries)]) = none := by
    apply canonicalError_obj
    · exact hnames
    · intro v hv
      simp only [List.map_cons, List.map_nil, List.mem_cons, List.not_mem_nil, or_false] at hv
      rcases hv with rfl | rfl | rfl
      · exact canonicalError_asDict d.identity
      · exact canonicalError_str datasetScheme
      · exact htables
  refine ⟨_, datasetId_of_manifest ?_ hcanonical⟩
  rw [Dataset.manifest, mapM_eq_ok_iff.mpr hentries]
  rfl

/-- The header of a small dataset is canonical. -/
theorem canonicalError_blobHeader {d : Dataset} (hbuilt : ∀ t ∈ d.tables, t.Built)
    (hlimit : d.payload.length ≤ defaultMaxBytes) (id : String) :
    canonicalError (blobHeader d.identity id (d.tables.map fun t => (t, t.chunks))) = none := by
  have hnames : ∀ name ∈ ["dataset_id", "format", "identity", "payload_length", "tables"],
      isAscii name = true := by decide
  apply canonicalError_obj
  · exact hnames
  · intro v hv
    simp only [List.map_cons, List.map_nil, List.mem_cons, List.not_mem_nil, or_false] at hv
    rcases hv with rfl | rfl | rfl | rfl | rfl
    · exact canonicalError_str id
    · exact canonicalError_str blobFormat
    · exact canonicalError_asDict d.identity
    · apply canonicalError_nat
      rw [lengthOf_eq, Dataset.flatten_allChunks]
      exact hlimit
    · apply canonicalError_arr
      intro v hv
      rw [List.map_map] at hv
      rcases List.mem_map.mp hv with ⟨t, ht, rfl⟩
      have htable : t.payload.length ≤ d.payload.length := length_le_flatMap ht
      exact canonicalError_tableSpec (hbuilt t ht) (htable.trans hlimit)

end Encode

/-! ## The header -/

/-- The header of a dataset and its text. -/
structure Dataset.HasHeader (sha256 : Bytes → String) (d : Dataset) (header : Json)
    (text : Bytes) : Prop where
  json : d.chunked >>= d.header sha256 = .ok header
  text : canonicalJson header = .ok text

/-- What the parser of the header makes of it. -/
theorem sorted_blobHeader (d : Dataset) (id : String) :
    (blobHeader d.identity id (d.tables.map fun t => (t, t.chunks))).sorted =
      .obj [("dataset_id", .str id), ("format", .str blobFormat),
        ("identity", d.identity.asDict.sorted), ("payload_length", .int d.payload.length),
        ("tables", .arr (d.tables.map fun t => tableSpec t t.chunks))] := by
  have hnames : ["dataset_id", "format", "identity", "payload_length", "tables"].Pairwise
      (· ≤ ·) := by decide
  have hspecs : ((d.tables.map fun t => (t, t.chunks)).map fun item =>
      tableSpec item.1 item.2).map Json.sorted =
        d.tables.map fun t => tableSpec t t.chunks := by
    rw [List.map_map, List.map_map]
    apply List.map_congr_left
    intro t _
    exact sorted_tableSpec t
  rw [blobHeader, Json.sorted_obj_of_pairwise]
  · simp only [List.map_cons, List.map_nil, Json.sorted, Json.sortedItems_eq, hspecs, lengthOf_eq,
      Dataset.flatten_allChunks]
  · exact hnames

/-- A small dataset has a header, and its header is one of this format. -/
theorem Dataset.exists_header {sha256 : Bytes → String} {d : Dataset}
    (hbuilt : ∀ t ∈ d.tables, t.Built) (hlimit : d.payload.length ≤ defaultMaxBytes) {id : String}
    (hid : d.datasetId sha256 = .ok id) : ∃ text, d.HasHeader sha256
      (blobHeader d.identity id (d.tables.map fun t => (t, t.chunks))) text := by
  have hpacks : ∀ t ∈ d.tables, t.Packs := by
    intro t ht
    have htable : t.payload.length ≤ d.payload.length := length_le_flatMap ht
    exact (hbuilt t ht).packs (lt_of_le_of_lt (htable.trans hlimit) (by decide))
  rcases canonicalJson_ok (canonicalError_blobHeader hbuilt hlimit id) with ⟨text, htext⟩
  exact ⟨text, bind_eq_ok_iff.mpr ⟨_, Dataset.chunked_eq hpacks, by rw [Dataset.header, hid]; rfl⟩,
    htext⟩

/-- What the encoder writes. -/
theorem encodeBlob_eq {sha256 : Bytes → String} (compress : List Bytes → Bytes) {d : Dataset}
    {header : Json} {text : Bytes} (hheader : d.HasHeader sha256 header text)
    (hlength : text.length ≤ maxHeader) : ∃ tables, d.chunked = .ok tables ∧
      encodeBlob sha256 compress d =
        .ok (blobMagic ++ (leBytes 8 text.length ++ (text ++ compress (allChunks tables)))) := by
  rcases bind_eq_ok_iff.mp hheader.json with ⟨tables, htables, hjson⟩
  have hpack : packU64 text.length = .ok (leBytes 8 text.length) :=
    if_pos (lt_of_le_of_lt hlength (by decide))
  refine ⟨tables, htables, ?_⟩
  rw [encodeBlob, htables]
  change (d.header sha256 tables >>= canonicalJson >>= fun header => packU64 header.length >>=
    fun length => Except.ok (blobMagic ++ length ++ header ++ compress (allChunks tables))) = _
  rw [hjson]
  change (canonicalJson header >>= fun header => packU64 header.length >>=
    fun length => Except.ok (blobMagic ++ length ++ header ++ compress (allChunks tables))) = _
  rw [hheader.text]
  change (packU64 text.length >>= fun length =>
    Except.ok (blobMagic ++ length ++ text ++ compress (allChunks tables))) = _
  rw [hpack]
  change Except.ok (blobMagic ++ leBytes 8 text.length ++ text ++ compress (allChunks tables)) = _
  rw [List.append_assoc, List.append_assoc]

/-- What was written by the encoder. -/
theorem encodeBlob_eq_ok {sha256 : Bytes → String} {compress : List Bytes → Bytes} {d : Dataset}
    {blob : Bytes} (h : encodeBlob sha256 compress d = .ok blob) : ∃ id text,
      d.datasetId sha256 = .ok id ∧
      d.HasHeader sha256 (blobHeader d.identity id (d.tables.map fun t => (t, t.chunks))) text ∧
      text.length < 2 ^ 64 ∧
      blob = blobMagic ++ (leBytes 8 text.length ++
        (text ++ compress (allChunks (d.tables.map fun t => (t, t.chunks))))) := by
  rcases bind_eq_ok_iff.mp h with ⟨tables, htables, h⟩
  rcases bind_eq_ok_iff.mp h with ⟨text, htext, h⟩
  rcases bind_eq_ok_iff.mp h with ⟨length, hlength, h⟩
  rcases bind_eq_ok_iff.mp htext with ⟨header, hheader, htext⟩
  rcases map_eq_ok_iff.mp hheader with ⟨id, hid, rfl⟩
  have hsame := htables
  rw [Dataset.chunked_eq (Dataset.packs_of_datasetId hid), Except.ok.injEq] at hsame
  subst hsame
  refine ⟨id, text, hid, ⟨bind_eq_ok_iff.mpr ⟨_, htables, hheader⟩, htext⟩, ?_⟩
  unfold packU64 at hlength
  split at hlength
  · cases hlength
    cases h
    refine ⟨by assumption, ?_⟩
    rw [List.append_assoc, List.append_assoc]
  · cases hlength

/-! ## Decoding what was encoded -/

section Decode

variable {inflate : Bytes → ℕ → Except Builtin Inflated} {loads : Bytes → Except Builtin Json}

/-- The places of the parts of a blob. -/
theorem blob_places {text compressed blob : Bytes} (hsmall : text.length < 2 ^ 64)
    (hblob : blob = blobMagic ++ (leBytes 8 text.length ++ (text ++ compressed))) :
    blob.take 8 = blobMagic ∧ ofLeBytes ((blob.drop 8).take 8) = text.length ∧
      blob.drop 16 = text ++ compressed ∧ blob.length = 16 + text.length + compressed.length := by
  have h8 : (leBytes 8 text.length).length = 8 := length_leBytes 8 text.length
  have hmagic : blobMagic.length = 8 := rfl
  have hdrop : blob.drop 8 = leBytes 8 text.length ++ (text ++ compressed) := by
    rw [hblob, List.drop_left' hmagic]
  refine ⟨?_, ?_, ?_, ?_⟩
  · rw [hblob, List.take_left' hmagic]
  · rw [hdrop, List.take_left' h8, ofLeBytes_leBytes (by omega)]
  · have hsplit : blob.drop 16 = (blob.drop 8).drop 8 := by rw [List.drop_drop]
    rw [hsplit, hdrop, List.drop_left' h8]
  · rw [hblob, List.length_append, List.length_append, List.length_append, h8, hmagic]
    omega

/-- The parts of a blob are found in their places. -/
theorem decode_parts {text compressed : Bytes} (hlength : text.length ≤ maxHeader)
    (maxBytes : ℕ) :
    decode inflate loads (blobMagic ++ (leBytes 8 text.length ++ (text ++ compressed))) maxBytes =
      (readHeader loads text >>= fun header => readTotal maxBytes header >>= fun total =>
        readPayload inflate compressed total >>= fun payload =>
          readDataset header payload >>= fun d => headerFlags header >>= fun flags =>
            .ok (d, flagIn flags)) := by
  have hsmall : text.length < 2 ^ 64 := lt_of_le_of_lt hlength (by decide)
  generalize hblob : blobMagic ++ (leBytes 8 text.length ++ (text ++ compressed)) = blob
  rcases blob_places hsmall hblob.symm with ⟨htake, hheaderLength, hrest, hsize⟩
  have htail : blob.drop (16 + text.length) = compressed := by
    rw [← List.drop_drop, hrest, List.drop_left]
  have hformat : ¬(blob.take 8 ≠ blobMagic ∨ blob.length < 16) := by
    rintro (hother | hshort)
    · exact hother htake
    · omega
  have hfits : ¬(maxHeader < text.length ∨ blob.length < 16 + text.length) := by
    rw [hsize]
    omega
  simp only [decode, if_neg hformat, hheaderLength, if_neg hfits, hrest, htail, List.take_left]

/-- A long header is refused. -/
theorem decode_long_header {text compressed : Bytes} (hlong : maxHeader < text.length)
    (hsmall : text.length < 2 ^ 64) (maxBytes : ℕ) :
    decode inflate loads (blobMagic ++ (leBytes 8 text.length ++ (text ++ compressed))) maxBytes =
      .error (.integrity "dataset blob header is truncated or too large") := by
  generalize hblob : blobMagic ++ (leBytes 8 text.length ++ (text ++ compressed)) = blob
  rcases blob_places hsmall hblob.symm with ⟨htake, hheaderLength, -, hsize⟩
  have hformat : ¬(blob.take 8 ≠ blobMagic ∨ blob.length < 16) := by
    rintro (hother | hshort)
    · exact hother htake
    · omega
  simp only [decode, if_neg hformat, hheaderLength]
  exact if_pos (Or.inl hlong)

/-- A dataset is read from its header and its payload. -/
theorem readDataset_blobHeader {d : Dataset} (hbuilt : ∀ t ∈ d.tables, t.Built)
    (hpacks : ∀ t ∈ d.tables, t.Packs) (id : String) :
    readDataset (blobHeader d.identity id (d.tables.map fun t => (t, t.chunks))).sorted d.payload =
      .ok d := by
  have htables : readTables d.payload 0 (d.tables.map fun t => tableSpec t t.chunks) =
      .ok (d.payload.length, d.tables) := readTables_specs hbuilt hpacks [] rfl
  have hmake : Dataset.make d.identity d.tables = .ok d := dif_pos d.valid
  rw [sorted_blobHeader]
  refine bind_eq_ok_iff.mpr ⟨d.tables.map fun t => tableSpec t t.chunks, rfl,
    bind_eq_ok_iff.mpr ⟨(d.payload.length, d.tables), htables, ?_⟩⟩
  rw [if_neg (not_not.mpr rfl)]
  refine bind_eq_ok_iff.mpr ⟨d.identity, ?_, hmake⟩
  exact bind_eq_ok_iff.mpr ⟨d.identity.asDict.sorted, rfl, readIdentity_asDict d.identity⟩

/-- The flags of a written header are the truth values of its columns. -/
theorem headerFlags_blobHeader (d : Dataset) (id : String) : ∃ flags,
    headerFlags (blobHeader d.identity id (d.tables.map fun t => (t, t.chunks))).sorted =
        .ok flags ∧ flagIn flags = fun _ c => .bool c.nullable := by
  have htable : ∀ t : Table, tableFlags (tableSpec t t.chunks) =
      .ok (t.schema.columns.map fun c => ((t.schema.name, c), .bool c.nullable)) := by
    intro t
    rw [tableSpec_chunks]
    refine mapM_eq_ok_iff.mpr ?_
    rw [List.forall₂_map_left_iff, List.forall₂_map_right_iff, List.forall₂_same]
    intro c _
    exact bind_eq_ok_iff.mpr ⟨c, readColumn_columnSpec c _, rfl⟩
  have htables : (d.tables.map fun t => tableSpec t t.chunks).mapM tableFlags =
      .ok (d.tables.map fun t =>
        t.schema.columns.map fun c => ((t.schema.name, c), .bool c.nullable)) := by
    rw [mapM_eq_ok_iff, List.forall₂_map_left_iff, List.forall₂_map_right_iff, List.forall₂_same]
    exact fun t _ => htable t
  rw [sorted_blobHeader]
  refine ⟨_, bind_eq_ok_iff.mpr ⟨d.tables.map fun t => tableSpec t t.chunks, rfl,
    map_eq_ok_iff.mpr ⟨_, htables, rfl⟩⟩, ?_⟩
  funext table c
  cases hlookup : Dict.lookup (table, c) (d.tables.map fun t => t.schema.columns.map fun c =>
      ((t.schema.name, c), (Json.bool c.nullable : Json))).flatten with
  | none => rw [flagIn, hlookup, Option.getD_none]
  | some flag =>
    rcases List.mem_flatten.mp (Dict.mem_of_lookup hlookup) with ⟨entries, hentries, hmem⟩
    rcases List.mem_map.mp hentries with ⟨t, -, rfl⟩
    rcases List.mem_map.mp hmem with ⟨c', -, hentry⟩
    cases hentry
    rw [flagIn, hlookup, Option.getD_some]

/-- The header of a dataset is one of this format. -/
theorem readHeader_blobHeader {d : Dataset} {id : String} {text : Bytes}
    (hloads : loads text =
      .ok (blobHeader d.identity id (d.tables.map fun t => (t, t.chunks))).sorted) :
    readHeader loads text =
      .ok (blobHeader d.identity id (d.tables.map fun t => (t, t.chunks))).sorted := by
  rw [readHeader, hloads, sorted_blobHeader]
  rfl

/-- The length of the payload is read from the header, when the limit admits it. -/
theorem readTotal_blobHeader (d : Dataset) (id : String) (maxBytes : ℕ) :
    readTotal maxBytes (blobHeader d.identity id (d.tables.map fun t => (t, t.chunks))).sorted =
      if d.payload.length ≤ maxBytes then .ok d.payload.length
      else .error (.integrity "dataset payload is larger than the read limit") := by
  have hrange : (0 ≤ (d.payload.length : ℤ) ∧ (d.payload.length : ℤ) ≤ maxBytes) ↔
      d.payload.length ≤ maxBytes := by
    omega
  rw [sorted_blobHeader]
  change (if 0 ≤ (d.payload.length : ℤ) ∧ (d.payload.length : ℤ) ≤ maxBytes then
    Except.ok (d.payload.length : ℤ).toNat else _) = _
  simp only [hrange, Int.toNat_natCast]

/-- A dataset is read back from the parts of its blob. -/
theorem decode_written {compress : List Bytes → Bytes}
    (hinflate : ∀ chunks n, chunks.flatten.length < n →
      inflate (compress chunks) n = .ok ⟨chunks.flatten, true, [], []⟩)
    {d : Dataset} (hbuilt : ∀ t ∈ d.tables, t.Built) (hpacks : ∀ t ∈ d.tables, t.Packs)
    {id : String} {text : Bytes} (hlength : text.length ≤ maxHeader)
    (hloads : loads text =
      .ok (blobHeader d.identity id (d.tables.map fun t => (t, t.chunks))).sorted)
    {maxBytes : ℕ} (hpayload : d.payload.length ≤ maxBytes) :
    decode inflate loads (blobMagic ++ (leBytes 8 text.length ++
      (text ++ compress (allChunks (d.tables.map fun t => (t, t.chunks)))))) maxBytes =
        .ok (d, fun _ c => .bool c.nullable) := by
  have htotal := readTotal_blobHeader d id maxBytes
  rw [if_pos hpayload] at htotal
  have hflatten := Dataset.flatten_allChunks d
  have hinflated := hinflate (allChunks (d.tables.map fun t => (t, t.chunks)))
    (d.payload.length + 1) (by rw [hflatten]; omega)
  rw [hflatten] at hinflated
  have hread : readPayload inflate
      (compress (allChunks (d.tables.map fun t => (t, t.chunks)))) d.payload.length =
        .ok d.payload := by
    rw [readPayload, hinflated]
    exact if_pos ⟨rfl, rfl, rfl, rfl⟩
  rcases headerFlags_blobHeader d id with ⟨flags, hflags, hin⟩
  rw [decode_parts hlength, ← hin]
  exact bind_eq_ok_iff.mpr ⟨_, readHeader_blobHeader hloads, bind_eq_ok_iff.mpr ⟨_, htotal,
    bind_eq_ok_iff.mpr ⟨_, hread, bind_eq_ok_iff.mpr ⟨d, readDataset_blobHeader hbuilt hpacks id,
      bind_eq_ok_iff.mpr ⟨flags, hflags, rfl⟩⟩⟩⟩⟩

/-- A dataset is read back from its blob. -/
theorem decode_encode {sha256 : Bytes → String} {compress : List Bytes → Bytes}
    (hinflate : ∀ chunks n, chunks.flatten.length < n →
      inflate (compress chunks) n = .ok ⟨chunks.flatten, true, [], []⟩)
    {d : Dataset} (hd : d.FromBuild) (hpayload : d.payload.length ≤ defaultMaxBytes)
    (hheader : ∀ header text, d.HasHeader sha256 header text → text.length ≤ maxHeader)
    (hloads : ∀ header text, d.HasHeader sha256 header text → loads text = .ok header.sorted) :
    ∃ id blob, d.datasetId sha256 = .ok id ∧ encodeBlob sha256 compress d = .ok blob ∧
      decodeBlob sha256 inflate loads blob id defaultMaxBytes = .ok d := by
  have hbuilt := hd.built
  obtain ⟨id, hid⟩ : ∃ id, d.datasetId sha256 = .ok id := Dataset.datasetId_ok hbuilt hpayload
  have hpacks := Dataset.packs_of_datasetId hid
  rcases Dataset.exists_header hbuilt hpayload hid with ⟨text, hhas⟩
  have hlength := hheader _ _ hhas
  obtain ⟨tables, htables, hencode⟩ : ∃ tables, d.chunked = .ok tables ∧
      encodeBlob sha256 compress d =
        .ok (blobMagic ++ (leBytes 8 text.length ++ (text ++ compress (allChunks tables)))) :=
    encodeBlob_eq compress hhas hlength
  rw [Dataset.chunked_eq hpacks, Except.ok.injEq] at htables
  subst htables
  have hdecode := decode_written hinflate hbuilt hpacks hlength (hloads _ _ hhas) hpayload
  refine ⟨id, _, hid, hencode, ?_⟩
  rw [decodeBlob, hdecode]
  exact bind_eq_ok_iff.mpr ⟨_, rfl, bind_eq_ok_iff.mpr ⟨id, hid, if_pos rfl⟩⟩

end Decode

/-! ## The two tables again -/

/-- A compression that is zlib's on one payload. -/
def knownCompress (payload compressed : Bytes) (chunks : List Bytes) : Bytes :=
  if chunks.flatten = payload then compressed else 0 :: chunks.flatten

/-- Its inverse. -/
def knownInflate (payload compressed bytes : Bytes) (maxLength : ℕ) : Except Builtin Inflated :=
  let inflated := if bytes = compressed then payload else bytes.tail
  if inflated.length < maxLength then .ok ⟨inflated, true, [], []⟩
  else .ok ⟨inflated.take maxLength, false, bytes, []⟩

theorem knownInflate_compress {payload compressed : Bytes} (hhead : compressed.head? ≠ some 0)
    (chunks : List Bytes) (n : ℕ) (h : chunks.flatten.length < n) :
    knownInflate payload compressed (knownCompress payload compressed chunks) n =
      .ok ⟨chunks.flatten, true, [], []⟩ := by
  have hpayload : (if knownCompress payload compressed chunks = compressed then payload
      else (knownCompress payload compressed chunks).tail) = chunks.flatten := by
    by_cases hsame : chunks.flatten = payload
    · rw [knownCompress, if_pos hsame, if_pos rfl, hsame]
    · have hother : (0 :: chunks.flatten : Bytes) ≠ compressed := by
        intro heq
        rw [← heq] at hhead
        exact hhead rfl
      rw [knownCompress, if_neg hsame, if_neg hother, List.tail_cons]
  simp only [knownInflate, hpayload, if_pos h]

/-- `json.loads` on one header. -/
def knownLoads (text : Bytes) (header : Json) (bytes : Bytes) : Except Builtin Json :=
  if bytes = text then .ok header else .error .valueError

/-- The header of a dataset with an id, and its text. -/
theorem Dataset.hasHeader_of_id {sha256 : Bytes → String} {d : Dataset} {id : String}
    (hid : d.datasetId sha256 = .ok id) {header : Json}
    (hheader : blobHeader d.identity id (d.tables.map fun t => (t, t.chunks)) = header)
    (hcanonical : canonicalError header = none) :
    d.HasHeader sha256 header (encodeChars (canonicalStyle.render header.sorted)) := by
  constructor
  · refine bind_eq_ok_iff.mpr ⟨_, Dataset.chunked_eq (Dataset.packs_of_datasetId hid), ?_⟩
    rw [Dataset.header, hid, ← hheader]
    rfl
  · rw [canonicalJson_eq, hcanonical]

/-- A dataset has one header. -/
theorem Dataset.HasHeader.unique {sha256 : Bytes → String} {d : Dataset} {header header' : Json}
    {text text' : Bytes} (h : d.HasHeader sha256 header text)
    (h' : d.HasHeader sha256 header' text') : header = header' ∧ text = text' := by
  have hjson := h'.json
  rw [h.json, Except.ok.injEq] at hjson
  subst hjson
  have htext := h'.text
  rw [h.text, Except.ok.injEq] at htext
  exact ⟨rfl, htext⟩

/-- The header is read back. -/
theorem knownLoads_header {sha256 : Bytes → String} {d : Dataset} {header : Json} {text : Bytes}
    (h : d.HasHeader sha256 header text) (header' : Json) (text' : Bytes)
    (h' : d.HasHeader sha256 header' text') :
    knownLoads text header.sorted text' = .ok header'.sorted := by
  obtain ⟨rfl, rfl⟩ := h.unique h'
  exact if_pos rfl

/-- The payload of the two tables. -/
def samplePayload : Bytes :=
  [1, 0, 0, 0, 2, 0, 0, 0, 1, 0, 0, 0, 0, 0, 0, 248, 63, 0, 0, 0, 0, 0, 0, 0, 0, 0,
    2, 0, 0, 0, 0, 0, 0, 0, 65, 66, 1, 2, 0, 0, 0, 0, 0, 0, 0, 195, 169]

/-- The payload as zlib compresses it. -/
def sampleZlib : Bytes :=
  [120, 156, 99, 100, 96, 96, 96, 2, 98, 70, 6, 48, 248, 97, 207, 0, 3, 76, 80, 218, 209, 137,
    17, 198, 60, 188, 18, 0, 48, 89, 3, 48]

/-- The id of the two tables. -/
def sampleId : String :=
  "qs-ds-sha256-v1:7a098b4fc91cd86aa4e941c6ce4539fc1197ada31187ab8c1c28d5ff044be4c8"

/-- The header of the two tables. -/
def sampleHeader : Json :=
  (blobHeader sampleIdentity sampleId (sampleDataset.tables.map fun t => (t, t.chunks))).sorted

/-- The header as it is written. -/
def sampleHeaderText : Bytes :=
  encodeChars (canonicalStyle.render sampleHeader)

/-- The hashes of the two tables. -/
theorem sample_tableHashes :
    sampleBarsTable.tableHash sampleSha256 =
        .ok "e3f2e3de6d5a24ab1fa27614051a5ffa08b0115b69bd796485056d8a0484ffb1" ∧
      sampleNamesTable.tableHash sampleSha256 =
        .ok "7dd4da91fac352016258883d24a0ddaaab4010419f26b22b8fd83574b487e864" := by
  simp only [Table.tableHash, Table.manifest, canonicalJson_eq, Table.columnDigest, sampleSha256,
    Digests.hash, sampleDigests, utf8_append]
  decide +kernel

/-- The two tables have this id. -/
theorem sample_datasetId : sampleDataset.datasetId sampleSha256 = .ok sampleId := by
  rcases sample_tableHashes with ⟨hbars, hnames⟩
  have hentries : sampleDataset.tables.mapM (fun t => Dataset.tableEntry sampleSha256 t) =
      .ok [("bars", .str "e3f2e3de6d5a24ab1fa27614051a5ffa08b0115b69bd796485056d8a0484ffb1"),
        ("names", .str "7dd4da91fac352016258883d24a0ddaaab4010419f26b22b8fd83574b487e864")] := by
    refine mapM_eq_ok_iff.mpr (List.Forall₂.cons ?_ (List.Forall₂.cons ?_ List.Forall₂.nil))
    · rw [Dataset.tableEntry, hbars]
      rfl
    · rw [Dataset.tableEntry, hnames]
      rfl
  rw [Dataset.datasetId, Dataset.manifest, hentries]
  simp only [canonicalJson_eq, sampleSha256, Digests.hash, sampleDigests, utf8_append]
  decide +kernel

theorem length_sampleHeaderText : sampleHeaderText.length = 640 := by
  decide +kernel

/-- The header of the two tables, with its text. -/
theorem sample_hasHeader : sampleDataset.HasHeader sampleSha256
    (blobHeader sampleIdentity sampleId (sampleDataset.tables.map fun t => (t, t.chunks)))
      sampleHeaderText :=
  Dataset.hasHeader_of_id sample_datasetId rfl (by decide +kernel)

/-- The two tables are read back. -/
theorem decode_encode_sample : ∃ id blob, sampleDataset.datasetId sampleSha256 = .ok id ∧
    encodeBlob sampleSha256 (knownCompress samplePayload sampleZlib) sampleDataset = .ok blob ∧
      decodeBlob sampleSha256 (knownInflate samplePayload sampleZlib)
        (knownLoads sampleHeaderText sampleHeader) blob id defaultMaxBytes =
          .ok sampleDataset := by
  have hpayload : sampleDataset.payload.length ≤ defaultMaxBytes := by decide +kernel
  have hhead : sampleZlib.head? ≠ some 0 := by decide
  have hshort : ∀ header text, sampleDataset.HasHeader sampleSha256 header text →
      text.length ≤ maxHeader := by
    intro header text h
    rw [← (sample_hasHeader.unique h).2, length_sampleHeaderText]
    decide
  exact decode_encode (knownInflate_compress hhead) sample_fromBuild.1 hpayload hshort
    (knownLoads_header sample_hasHeader)

end QuantumSentinel.Datasets
