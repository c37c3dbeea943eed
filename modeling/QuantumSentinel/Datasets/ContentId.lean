import QuantumSentinel.Datasets.Rows
import QuantumSentinel.Lib.Digests
import QuantumSentinel.Lib.JsonValues

/-!
# Datasets: the id names the content

Every layer under the id of a dataset is injective: the encoding of a cell is prefix free in
its column, the digest of a column names its cells, the hash of a table names the table, and
the manifest of a dataset names its identity and its tables.

Main results:

- Theorem `encodeCell_prefixFree`: rows of a column can be told apart.
- Theorem `tableHash_injective`: tables of one name with one hash are the same.
- Theorem `dataset_id_names_content`: datasets with one id have the same content.

Current gaps:

- The hash function is a parameter, assumed to have no collisions.
-/

namespace QuantumSentinel.Datasets

open Lib

/-! ## Cells -/

/-- The value of a column of fixed width, as the number that is written. -/
theorem valueBytes_injective {c : Column} (htype : c.type ≠ .utf8) {a b : Cell}
    (ha : c.admits a = true) (hb : c.admits b = true) (hna : a ≠ .null) (hnb : b ≠ .null)
    (h : valueBytes c.type a = valueBytes c.type b) : a = b := by
  have hints : ∀ m n, c.admits (.int m) = true → c.admits (.int n) = true →
      leInt (width c.type) m = leInt (width c.type) n → m = n := by
    intro m n hm hn heq
    have hread := congrArg ofLeInt heq
    cases hc : c.type with
    | utf8 => exact absurd hc htype
    | float64 => simp [Column.admits, hc] at hm
    | date32 =>
      simp only [Column.admits, hc, decide_true, Bool.true_and, reduceCtorEq, decide_false,
        Bool.false_and, Bool.or_false, Bool.and_eq_true, decide_eq_true_eq] at hm hn
      rw [hc, width, ofLeInt_leInt (by omega) (by omega),
        ofLeInt_leInt (by omega) (by omega)] at hread
      exact hread
    | timestampNs =>
      simp only [Column.admits, hc, decide_true, Bool.true_and, reduceCtorEq, decide_false,
        Bool.false_and, Bool.false_or, Bool.and_eq_true, decide_eq_true_eq] at hm hn
      rw [hc, width, ofLeInt_leInt (by omega) (by omega),
        ofLeInt_leInt (by omega) (by omega)] at hread
      · exact hread
      · exact fun hdate => by cases hdate
  have hfloats : ∀ x y, c.admits (.float x) = true →
      leBytes (width c.type) x.bits.toNat = leBytes (width c.type) y.bits.toNat → x = y := by
    intro x y hx heq
    have hc : c.type = .float64 := by
      rw [Column.admits, Bool.and_eq_true, decide_eq_true_eq] at hx
      exact hx.1
    have hread := congrArg ofLeBytes heq
    have hlt : ∀ z : Float64, z.bits.toNat < 256 ^ 8 := fun z => z.bits.toNat_lt
    rw [hc, width, ofLeBytes_leBytes (hlt x), ofLeBytes_leBytes (hlt y)] at hread
    · have hbits : x.bits = y.bits := UInt64.toNat_inj.mp hread
      cases x
      cases y
      cases hbits
      rfl
    · exact fun hdate => by cases hdate
  cases a with
  | null => exact absurd rfl hna
  | text s => simp [Column.admits, htype] at ha
  | int m =>
    cases b with
    | null => exact absurd rfl hnb
    | text s => simp [Column.admits, htype] at hb
    | int n => rw [hints m n ha hb h]
    | float y =>
      rw [Column.admits, Bool.and_eq_true, decide_eq_true_eq] at hb
      simp [Column.admits, hb.1] at ha
  | float x =>
    cases b with
    | null => exact absurd rfl hnb
    | text s => simp [Column.admits, htype] at hb
    | int n =>
      rw [Column.admits, Bool.and_eq_true, decide_eq_true_eq] at ha
      simp [Column.admits, ha.1] at hb
    | float y => rw [hfloats x y ha h]

theorem length_valueBytes (type : ColumnType) (cell : Cell) :
    (valueBytes type cell).length = width type := by
  unfold valueBytes
  split
  · exact length_leInt ..
  · exact length_leBytes ..
  · exact length_leBytes ..

/-- Rows of a column of fixed width. -/
theorem encodeCell_prefixFree_fixed {c : Column} (htype : c.type ≠ .utf8) :
    PrefixFree (fun cell => c.admits cell = true) (encodeCell c) := by
  have hencode : ∀ cell, encodeCell c cell =
      if c.nullable then (if cell = .null then 0 else 1) :: valueBytes c.type cell
      else valueBytes c.type cell := by
    intro cell
    unfold encodeCell
    split
    · rename_i hc
      exact absurd hc htype
    · rfl
  have hnull : ∀ cell, c.nullable = false → c.admits cell = true → cell ≠ .null := by
    rintro cell hnullable hadmits rfl
    rw [Column.admits, hnullable] at hadmits
    cases hadmits
  refine PrefixFree.of_length ((if c.nullable then 1 else 0) + width c.type) ?_ ?_
  · intro cell _
    rw [hencode]
    split
    · rw [List.length_cons, length_valueBytes, add_comm]
    · rw [length_valueBytes, zero_add]
  · intro a b ha hb heq
    rw [hencode, hencode] at heq
    split at heq
    · rw [List.cons.injEq] at heq
      by_cases hna : a = .null
      · by_cases hnb : b = .null
        · rw [hna, hnb]
        · rw [if_pos hna, if_neg hnb] at heq
          cases heq.1
      · by_cases hnb : b = .null
        · rw [if_neg hna, if_pos hnb] at heq
          cases heq.1
        · exact valueBytes_injective htype ha hb hna hnb heq.2
    · rename_i hnullable
      rw [Bool.not_eq_true] at hnullable
      exact valueBytes_injective htype ha hb (hnull a hnullable ha) (hnull b hnullable hb) heq

/-- A text behind its length. -/
theorem lengthPrefixed_prefixFree :
    PrefixFree (fun s : String => (utf8 s).length < 2 ^ 64)
      fun s => leBytes 8 (utf8 s).length ++ utf8 s := by
  intro s t x y hs ht heq
  rw [List.append_assoc, List.append_assoc] at heq
  rcases leBytes_prefixFree 8 (by omega) (by omega) heq with ⟨hlength, hrest⟩
  rcases List.append_inj hrest hlength with ⟨htext, hend⟩
  exact ⟨utf8_injective htext, hend⟩

/-- Rows of a text column. -/
theorem encodeCell_prefixFree_text {c : Column} (htype : c.type = .utf8) :
    PrefixFree (fun cell => c.admits cell = true ∧ cell.packs = true) (encodeCell c) := by
  have hshape : ∀ cell, c.admits cell = true → cell.packs = true →
      (cell = .null ∧ c.nullable = true) ∨
        ∃ s, cell = .text s ∧ (utf8 s).length < 2 ^ 64 := by
    intro cell hadmits hpacks
    cases cell with
    | null => exact Or.inl ⟨rfl, hadmits⟩
    | text s => exact Or.inr ⟨s, rfl, by simpa [Cell.packs] using hpacks⟩
    | int n => simp [Column.admits, htype] at hadmits
    | float x => simp [Column.admits, htype] at hadmits
  have hnull : encodeCell c .null = 0 :: leBytes 8 0 := by
    simp only [encodeCell, htype]
  have htext : ∀ s, encodeCell c (.text s) =
      (if c.nullable then [1] else []) ++ (leBytes 8 (utf8 s).length ++ utf8 s) := by
    intro s
    simp only [encodeCell, htype]
  rintro a b x y ⟨ha, hpa⟩ ⟨hb, hpb⟩ heq
  rcases hshape a ha hpa with ⟨rfl, hnullable⟩ | ⟨s, rfl, hs⟩
  · rcases hshape b hb hpb with ⟨rfl, -⟩ | ⟨t, rfl, ht⟩
    · exact ⟨rfl, List.append_cancel_left heq⟩
    · rw [hnull, htext, if_pos hnullable] at heq
      cases (List.cons.inj heq).1
  · rcases hshape b hb hpb with ⟨rfl, hnullable⟩ | ⟨t, rfl, ht⟩
    · rw [hnull, htext, if_pos hnullable] at heq
      cases (List.cons.inj heq).1
    · have hcut : ∀ u (z : Bytes), encodeCell c (.text u) ++ z =
          (if c.nullable then [1] else []) ++ ((leBytes 8 (utf8 u).length ++ utf8 u) ++ z) := by
        intro u z
        rw [htext, List.append_assoc]
      rw [hcut, hcut] at heq
      rcases lengthPrefixed_prefixFree hs ht (List.append_cancel_left heq) with ⟨rfl, hend⟩
      exact ⟨rfl, hend⟩

/-- Rows of a column can be told apart. -/
theorem encodeCell_prefixFree (c : Column) :
    PrefixFree (fun cell => c.admits cell = true ∧ cell.packs = true) (encodeCell c) := by
  by_cases htype : c.type = .utf8
  · exact encodeCell_prefixFree_text htype
  · exact (encodeCell_prefixFree_fixed htype).mono fun _ h => h.1

/-! ## Columns and tables -/

/-- Canonical JSON without the string it is made as. -/
theorem canonicalJson_eq (v : Json) : canonicalJson v =
    match canonicalError v with
    | some text => .error (.dataset text)
    | none => .ok (encodeChars (canonicalStyle.render v.sorted)) := by
  rw [← utf8_ofList]
  rfl

/-- Canonical JSON of the same bytes is the same up to the order of members. -/
theorem canonicalJson_injective {v w : Json} {bytes : Bytes}
    (hv : canonicalJson v = .ok bytes) (hw : canonicalJson w = .ok bytes) :
    v.sorted = w.sorted := by
  have hbytes : ∀ u, canonicalJson u = .ok bytes →
      utf8 (String.ofList (Json.dumps canonicalStyle u)) = bytes := by
    intro u hu
    unfold canonicalJson at hu
    split at hu
    · cases hu
    · cases hu
      rfl
  have hsame := utf8_injective ((hbytes v hv).trans (hbytes w hw).symm)
  exact Json.dumps_injective (String.ofList_injective hsame)

/-- The entry of a column names the column, up to the spelling of its flag, and its digest. -/
theorem columnJson_injective {c c' : Column} {digest digest' : String} {flag flag' : Json}
    (hflag : c.nullable = flag.truthy) (hflag' : c'.nullable = flag'.truthy)
    (h : (columnJson c digest flag).sorted = (columnJson c' digest' flag').sorted) :
    c = c' ∧ digest = digest' := by
  have hget := Json.get?_of_sorted_eq (by simp) (by simp) h
  have hname := hget "name"
  have hnullable := hget "nullable"
  have hsha := hget "sha256"
  have htype := hget "type"
  simp only [Dict.lookup, String.reduceEq, if_true, if_false, Option.map_some, Json.sorted,
    Option.some.injEq, Json.str.injEq] at hname hnullable hsha htype
  have hsame : c.nullable = c'.nullable := by
    rw [hflag, hflag', ← Json.truthy_sorted flag, hnullable, Json.truthy_sorted]
  cases c
  cases c'
  cases hname
  cases hsame
  cases ColumnType.text_injective htype
  exact ⟨rfl, hsha⟩

/-- The fields of an identity are told by their names. -/
theorem IdentityFields.lookup_items (f : IdentityFields) :
    Dict.lookup "family" f.items = some f.family ∧
      Dict.lookup "provider" f.items = some f.provider ∧
      Dict.lookup "licence_id" f.items = some f.licenceId ∧
      Dict.lookup "frequency" f.items = some f.frequency ∧
      Dict.lookup "session_boundary" f.items = some f.sessionBoundary ∧
      Dict.lookup "adjustment" f.items = some f.adjustment ∧
      Dict.lookup "survivorship" f.items = some f.survivorship :=
  ⟨rfl, rfl, rfl, rfl, rfl, rfl, rfl⟩

theorem IdentityFields.eq_of_lookup {f g : IdentityFields}
    (h : ∀ name, Dict.lookup name f.items = Dict.lookup name g.items) : f = g := by
  rcases f.lookup_items with ⟨h1, h2, h3, h4, h5, h6, h7⟩
  rcases g.lookup_items with ⟨k1, k2, k3, k4, k5, k6, k7⟩
  have hfield : ∀ {name a b}, Dict.lookup name f.items = some a →
      Dict.lookup name g.items = some b → a = b := by
    intro name a b ha hb
    rw [h name, hb] at ha
    exact (Option.some.inj ha).symm
  rw [IdentityFields.mk.injEq]
  exact ⟨hfield h1 k1, hfield h2 k2, hfield h3 k3, hfield h4 k4, hfield h5 k5, hfield h6 k6,
    hfield h7 k7⟩

/-- An identity is named by its fields. -/
theorem identity_of_sorted {identity identity' : DatasetIdentity}
    (h : identity.asDict.sorted = identity'.asDict.sorted) : identity = identity' := by
  have hnodup : ∀ i : DatasetIdentity,
      ((i.fields.items.map fun item => (item.1, Json.str item.2)).map Prod.fst).Nodup := by
    intro i
    simp [IdentityFields.items]
  have hget := Json.get?_of_sorted_eq (hnodup identity) (hnodup identity') h
  have hinj : Function.Injective (Option.map fun s : String => (Json.str s).sorted) := by
    apply Option.map_injective
    intro a b hab
    simpa [Json.sorted] using hab
  have hfields : identity.fields = identity'.fields := by
    apply IdentityFields.eq_of_lookup
    intro name
    have hname := hget name
    rw [Dict.lookup_map fun _ s => Json.str s, Dict.lookup_map fun _ s => Json.str s,
      Option.map_map, Option.map_map] at hname
    exact hinj hname
  cases identity
  cases identity'
  cases hfields
  rfl

section Hash

variable {sha256 : Bytes → String}

/-- The digest of a column is the hash of its encoded cells. -/
theorem columnDigest_eq_ok {t : Table} {c : Column} (hc : c ∈ t.schema.columns)
    {digest : String} (h : t.columnDigest sha256 c.name = .ok digest) :
    (∀ cell ∈ t.array c.name, cell.packs = true) ∧
      sha256 ((t.array c.name).flatMap (encodeCell c)) = digest := by
  rcases map_eq_ok_iff.mp h with ⟨chunks, hchunks, rfl⟩
  rcases bind_eq_ok_iff.mp hchunks with ⟨d, hd, hrest⟩
  rw [t.schema.column_of_mem hc] at hd
  cases hd
  split at hrest
  · rename_i hpacks
    cases hrest
    exact ⟨List.all_eq_true.mp hpacks, by rw [flatten_encodeChunks]⟩
  · cases hrest

/-- Flags that the schemas of decoded tables may keep: their tests see the column's own. -/
def SpellsFlags (flags : String → Column → Json) : Prop :=
  ∀ table c, c.nullable = (flags table c).truthy

/-- The manifest of a table, as it is made. -/
theorem manifest_eq_ok {t : Table} {flags : Column → Json} {m : Json}
    (h : t.manifest sha256 flags = .ok m) :
    ∃ columns, List.Forall₂ (fun c j => ∃ digest, t.columnDigest sha256 c.name = .ok digest ∧
        columnJson c digest (flags c) = j) t.schema.columns columns ∧
      m = .obj [("columns", .arr columns), ("key", .arr (t.schema.key.map .str)),
        ("rows", .int t.rows), ("scheme", .str tableScheme)] := by
  rcases bind_eq_ok_iff.mp h with ⟨columns, hcolumns, hm⟩
  cases hm
  exact ⟨columns, (mapM_eq_ok_iff.mp hcolumns).imp fun _ _ hj => map_eq_ok_iff.mp hj, rfl⟩

variable (hsha : ∀ a b, sha256 a = sha256 b → a = b)

include hsha

/-- Columns of one length with one digest have the same cells. -/
theorem array_of_digest {t t' : Table} (ht : t.Built) (ht' : t'.Built) {c : Column}
    (hc : c ∈ t.schema.columns) (hc' : c ∈ t'.schema.columns) (hrows : t.rows = t'.rows)
    {digest : String} (h : t.columnDigest sha256 c.name = .ok digest)
    (h' : t'.columnDigest sha256 c.name = .ok digest) : t.array c.name = t'.array c.name := by
  rcases columnDigest_eq_ok hc h with ⟨hpacks, hhash⟩
  rcases columnDigest_eq_ok hc' h' with ⟨hpacks', hhash'⟩
  have hbytes := hsha _ _ (hhash.trans hhash'.symm)
  have hlength : (t.array c.name).length = (t'.array c.name).length := by
    rw [ht.length_array hc, ht'.length_array hc', hrows]
  have happend : (t.array c.name).flatMap (encodeCell c) ++ [] =
      (t'.array c.name).flatMap (encodeCell c) ++ [] := by rw [hbytes]
  exact ((encodeCell_prefixFree c).flatMap
    (fun cell hcell => ⟨ht.admits c hc cell hcell, hpacks cell hcell⟩)
    (fun cell hcell => ⟨ht'.admits c hc' cell hcell, hpacks' cell hcell⟩) hlength happend).1

/-- Tables of one name with one manifest are the same. -/
theorem manifest_injective {t t' : Table} (ht : t.Built) (ht' : t'.Built)
    (hname : t.schema.name = t'.schema.name) {flags flags' : Column → Json}
    (hflags : ∀ c, c.nullable = (flags c).truthy) (hflags' : ∀ c, c.nullable = (flags' c).truthy)
    {m m' : Json} (h : t.manifest sha256 flags = .ok m) (h' : t'.manifest sha256 flags' = .ok m')
    (hsorted : m.sorted = m'.sorted) : t = t' := by
  rcases manifest_eq_ok h with ⟨columns, hcolumns, rfl⟩
  rcases manifest_eq_ok h' with ⟨columns', hcolumns', rfl⟩
  have hget := Json.get?_of_sorted_eq (by simp) (by simp) hsorted
  have hcols := hget "columns"
  have hkey := hget "key"
  have hrows := hget "rows"
  simp only [Dict.lookup, String.reduceEq, if_true, if_false, Option.map_some, Json.sorted,
    Option.some.injEq, Json.arr.injEq, Json.int.injEq, Json.sortedItems_eq,
    Nat.cast_inj] at hcols hkey hrows
  have hkeys : t.schema.key = t'.schema.key := by
    rw [List.map_map, List.map_map] at hkey
    have hinj : Function.Injective fun k : String => (Json.str k).sorted := by
      intro a b hab
      simpa [Json.sorted] using hab
    exact List.map_injective_iff.mpr hinj hkey
  have hjoin := forall₂_join hcolumns hcolumns' hcols
    (P := fun c => ∃ digest, t.columnDigest sha256 c.name = .ok digest ∧
      t'.columnDigest sha256 c.name = .ok digest) (by
    rintro c j c' j' ⟨digest, hdigest, rfl⟩ ⟨digest', hdigest', rfl⟩ heq
    rcases columnJson_injective (hflags c) (hflags' c') heq with ⟨rfl, rfl⟩
    exact ⟨rfl, digest, hdigest, hdigest'⟩)
  rcases hjoin with ⟨hcolumnsSame, hdigests⟩
  have hschema : t.schema = t'.schema := by
    cases hs : t.schema
    cases hs' : t'.schema
    simp only [hs, hs'] at hname hkeys hcolumnsSame
    cases hname
    cases hkeys
    cases hcolumnsSame
    rfl
  have harrays : t.columns = t'.columns := by
    rw [ht.items, ht'.items, ← hschema]
    apply List.map_congr_left
    intro c hc
    rcases hdigests c hc with ⟨digest, hdigest, hdigest'⟩
    rw [array_of_digest hsha ht ht' hc (hschema ▸ hc) hrows hdigest hdigest']
  cases t
  cases t'
  cases hschema
  cases harrays
  rfl

/-- Tables of one name with one hash are the same. -/
theorem tableHash_injective {t t' : Table} (ht : t.Built) (ht' : t'.Built)
    (hname : t.schema.name = t'.schema.name) {flags flags' : Column → Json}
    (hflags : ∀ c, c.nullable = (flags c).truthy) (hflags' : ∀ c, c.nullable = (flags' c).truthy)
    {hash : String} (h : t.tableHash sha256 flags = .ok hash)
    (h' : t'.tableHash sha256 flags' = .ok hash) : t = t' := by
  rcases bind_eq_ok_iff.mp h with ⟨m, hm, hhash⟩
  rcases bind_eq_ok_iff.mp h' with ⟨m', hm', hhash'⟩
  rcases map_eq_ok_iff.mp hhash with ⟨bytes, hbytes, rfl⟩
  rcases map_eq_ok_iff.mp hhash' with ⟨bytes', hbytes', hsame⟩
  cases hsha _ _ hsame
  exact manifest_injective hsha ht ht' hname hflags hflags' hm hm'
    (canonicalJson_injective hbytes hbytes')

omit hsha in
/-- An entry of the manifest of a dataset stands for one of its tables. -/
theorem mem_of_entry {tables : List Table} {flags : String → Column → Json}
    {entries : List (String × Json)}
    (h : tables.mapM (fun t => Dataset.tableEntry sha256 t flags) = .ok entries) {name : String}
    {j : Json} :
    (name, j) ∈ Json.sortedMembers entries ↔ ∃ t ∈ tables, ∃ hash,
      t.tableHash sha256 (flags t.schema.name) = .ok hash ∧ name = t.schema.name ∧
        j = .str hash := by
  have hrelated := mapM_eq_ok_iff.mp h
  rw [Json.sortedMembers_eq]
  clear h
  induction hrelated with
  | nil => simp
  | cons hentry _ ih =>
    rcases map_eq_ok_iff.mp hentry with ⟨hash, hhash, rfl⟩
    rw [List.map_cons]
    refine List.mem_cons.trans ((or_congr ?_ ih).trans (List.exists_mem_cons_iff _ _ _).symm)
    rw [Prod.mk.injEq, Json.sorted]
    constructor
    · rintro ⟨hname, hj⟩
      exact ⟨hash, hhash, hname, hj⟩
    · rintro ⟨hash', hhash', hname, hj⟩
      rw [hhash, Except.ok.injEq] at hhash'
      exact ⟨hname, hhash' ▸ hj⟩

/-- The tables of one manifest are among those of another with the same entries. -/
theorem mem_tables_of_sorted {d d' : Dataset} (hbuilt : ∀ t ∈ d.tables, t.Built)
    (hbuilt' : ∀ t ∈ d'.tables, t.Built) {flags flags' : String → Column → Json}
    (hflags : SpellsFlags flags) (hflags' : SpellsFlags flags')
    {entries entries' : List (String × Json)}
    (h : d.tables.mapM (fun t => Dataset.tableEntry sha256 t flags) = .ok entries)
    (h' : d'.tables.mapM (fun t => Dataset.tableEntry sha256 t flags') = .ok entries')
    (hperm : (Json.sortedMembers entries).Perm (Json.sortedMembers entries')) {t : Table}
    (ht : t ∈ d.tables) : t ∈ d'.tables := by
  have hentry : ∃ hash, t.tableHash sha256 (flags t.schema.name) = .ok hash := by
    rcases exists_right_of_forall₂ (mapM_eq_ok_iff.mp h) ht with ⟨entry, -, hentry⟩
    rcases map_eq_ok_iff.mp hentry with ⟨hash, hhash, -⟩
    exact ⟨hash, hhash⟩
  rcases hentry with ⟨hash, hhash⟩
  have hmem : (t.schema.name, Json.str hash) ∈ Json.sortedMembers entries :=
    (mem_of_entry h).mpr ⟨t, ht, hash, hhash, rfl, rfl⟩
  rcases (mem_of_entry h').mp (hperm.mem_iff.mp hmem) with ⟨t', ht', hash', hhash', hname, hj⟩
  cases hj
  rw [tableHash_injective hsha (hbuilt t ht) (hbuilt' t' ht') hname (hflags _) (hflags' _) hhash
    hhash']
  exact ht'

/-- What two datasets with one id have in common: identity and tables. -/
theorem content_of_datasetId {d d' : Dataset} (hbuilt : ∀ t ∈ d.tables, t.Built)
    (hbuilt' : ∀ t ∈ d'.tables, t.Built) {flags flags' : String → Column → Json}
    (hflags : SpellsFlags flags) (hflags' : SpellsFlags flags') {id : String}
    (h : d.datasetId sha256 flags = .ok id) (h' : d'.datasetId sha256 flags' = .ok id) :
    d.identity = d'.identity ∧ ∀ t, t ∈ d.tables ↔ t ∈ d'.tables := by
  rcases bind_eq_ok_iff.mp h with ⟨m, hm, hid⟩
  rcases bind_eq_ok_iff.mp h' with ⟨m', hm', hid'⟩
  rcases map_eq_ok_iff.mp hid with ⟨bytes, hbytes, hname⟩
  rcases map_eq_ok_iff.mp hid' with ⟨bytes', hbytes', hname'⟩
  have hhash : sha256 bytes = sha256 bytes' :=
    (String.append_right_inj _).mp (hname.trans hname'.symm)
  cases hsha _ _ hhash
  have hsorted := canonicalJson_injective hbytes hbytes'
  rcases bind_eq_ok_iff.mp hm with ⟨entries, hentries, hobj⟩
  rcases bind_eq_ok_iff.mp hm' with ⟨entries', hentries', hobj'⟩
  cases hobj
  cases hobj'
  have hget := Json.get?_of_sorted_eq (by simp) (by simp) hsorted
  have hidentity := hget "identity"
  have htables := hget "tables"
  simp only [Dict.lookup, String.reduceEq, if_true, if_false, Option.map_some,
    Option.some.injEq] at hidentity htables
  have hperm := Json.perm_of_sorted_eq htables
  refine ⟨identity_of_sorted hidentity, fun t => ⟨?_, ?_⟩⟩
  · exact mem_tables_of_sorted hsha hbuilt hbuilt' hflags hflags' hentries hentries' hperm
  · exact mem_tables_of_sorted hsha hbuilt' hbuilt hflags' hflags hentries' hentries hperm.symm

end Hash

/-! ## Datasets with one id -/

/-- A dataset whose tables all come from `Table.build`. -/
def Dataset.FromBuild (d : Dataset) : Prop :=
  ∀ t ∈ d.tables, ∃ schema data, Table.build schema data = .ok t

theorem Dataset.FromBuild.built {d : Dataset} (h : d.FromBuild) : ∀ t ∈ d.tables, t.Built := by
  intro t ht
  rcases h t ht with ⟨schema, data, hbuild⟩
  exact (Table.built_of_build hbuild).1

/-- The same identity and the same named tables: schema, key and rows in key order. -/
structure Dataset.SameContent (d d' : Dataset) : Prop where
  identity : d.identity = d'.identity
  tables : ∀ t, t ∈ d.tables ↔ t ∈ d'.tables

/-- Two datasets with one id have the same content. -/
theorem dataset_id_names_content {sha256 : Bytes → String}
    (hsha : ∀ a b, sha256 a = sha256 b → a = b) {d d' : Dataset} (hd : d.FromBuild)
    (hd' : d'.FromBuild) {id : String} (h : d.datasetId sha256 = .ok id)
    (h' : d'.datasetId sha256 = .ok id) : d.SameContent d' := by
  rcases content_of_datasetId hsha hd.built hd'.built (fun _ _ => rfl) (fun _ _ => rfl) h h' with
    ⟨hidentity, htables⟩
  exact ⟨hidentity, htables⟩

/-! ## A dataset of two tables -/

/-- The two columns of the closing prices. -/
def sampleBars : TableSchema where
  name := "bars"
  columns := [⟨"day", .date32, false⟩, ⟨"close", .float64, true⟩]
  key := ["day"]
  valid := by decide

/-- The two columns of the names. -/
def sampleNames : TableSchema where
  name := "names"
  columns := [⟨"symbol", .utf8, false⟩, ⟨"note", .utf8, true⟩]
  key := ["symbol"]
  valid := by decide

/-- Closing prices of two days, the later day first. -/
def sampleBarsData : Dict String Values where
  items := [("day", .objects [.date 2, .date 1]),
    ("close", .objects [.none, .number (some ⟨0x3ff8000000000000⟩)])]
  nodup := by decide

/-- One symbol with its note. -/
def sampleNamesData : Dict String Values where
  items := [("note", .texts ["é"]), ("symbol", .objects [.str (some "AB")])]
  nodup := by decide

/-- The closing prices in the order of their days. -/
def sampleBarsTable : Table where
  schema := sampleBars
  columns := [("day", [.int 1, .int 2]), ("close", [.float ⟨0x3ff8000000000000⟩, .null])]

def sampleNamesTable : Table where
  schema := sampleNames
  columns := [("symbol", [.text "AB"]), ("note", [.text "é"])]

/-- An identity. -/
def sampleIdentity : DatasetIdentity where
  fields := ⟨"daily", "p", "l", "1d", "utc", "raw", "all"⟩
  valid := by decide

/-- The two tables in one order. -/
def sampleDataset : Dataset where
  identity := sampleIdentity
  tables := [sampleBarsTable, sampleNamesTable]
  valid := by decide

/-- The two tables in the other order. -/
def sampleReordered : Dataset where
  identity := sampleIdentity
  tables := [sampleNamesTable, sampleBarsTable]
  valid := by decide

/-- SHA-256 of the encodings and manifests of the two tables and of their dataset. -/
def sampleDigests : List (Bytes × ℕ) :=
  [([1, 0, 0, 0, 2, 0, 0, 0],
      0x34fb5c825de7ca4aea6e712f19d439c1da0c92c37b423936c5f618545ca4fa1f),
    ([1, 0, 0, 0, 0, 0, 0, 248, 63, 0, 0, 0, 0, 0, 0, 0, 0, 0],
      0xeb7f4ecfe6143d0b3a405d897c93be3ce2f5310eed4beb77181a76b417950a34),
    (utf8 ("\x7b\"columns\":[\x7b\"name\":\"day\",\"nullable\":false,\"sha256\":" ++
        "\"34fb5c825de7ca4aea6e712f19d439c1da0c92c37b423936c5f618545ca4fa1f\"," ++
        "\"type\":\"date32\"\x7d,\x7b\"name\":\"close\",\"nullable\":true,\"sha256\":" ++
        "\"eb7f4ecfe6143d0b3a405d897c93be3ce2f5310eed4beb77181a76b417950a34\"," ++
        "\"type\":\"float64\"\x7d],\"key\":[\"day\"],\"rows\":2," ++
        "\"scheme\":\"qs-col-sha256-v1\"\x7d"),
      0xe3f2e3de6d5a24ab1fa27614051a5ffa08b0115b69bd796485056d8a0484ffb1),
    ([2, 0, 0, 0, 0, 0, 0, 0, 65, 66],
      0xab97f2664a93bf38259541960c9125d1ecb6eec39e4dd2d14b5ca010c4971898),
    ([1, 2, 0, 0, 0, 0, 0, 0, 0, 195, 169],
      0xe07ee529256e6b82f5af80e717b656ab95727a9764bc28b0615de4b27fa4cb2f),
    (utf8 ("\x7b\"columns\":[\x7b\"name\":\"symbol\",\"nullable\":false,\"sha256\":" ++
        "\"ab97f2664a93bf38259541960c9125d1ecb6eec39e4dd2d14b5ca010c4971898\"," ++
        "\"type\":\"utf8\"\x7d,\x7b\"name\":\"note\",\"nullable\":true,\"sha256\":" ++
        "\"e07ee529256e6b82f5af80e717b656ab95727a9764bc28b0615de4b27fa4cb2f\"," ++
        "\"type\":\"utf8\"\x7d],\"key\":[\"symbol\"],\"rows\":1," ++
        "\"scheme\":\"qs-col-sha256-v1\"\x7d"),
      0x7dd4da91fac352016258883d24a0ddaaab4010419f26b22b8fd83574b487e864),
    (utf8 ("\x7b\"identity\":\x7b\"adjustment\":\"raw\",\"family\":\"daily\"," ++
        "\"frequency\":\"1d\",\"licence_id\":\"l\",\"provider\":\"p\"," ++
        "\"session_boundary\":\"utc\",\"survivorship\":\"all\"\x7d," ++
        "\"scheme\":\"qs-ds-sha256-v1\",\"tables\":\x7b\"bars\":" ++
        "\"e3f2e3de6d5a24ab1fa27614051a5ffa08b0115b69bd796485056d8a0484ffb1\",\"names\":" ++
        "\"7dd4da91fac352016258883d24a0ddaaab4010419f26b22b8fd83574b487e864\"\x7d\x7d"),
      0x7a098b4fc91cd86aa4e941c6ce4539fc1197ada31187ab8c1c28d5ff044be4c8)]

/-- A hash without collisions that is SHA-256 on these bytes. -/
def sampleSha256 : Bytes → String :=
  Digests.hash ⟨sampleDigests, by decide, by decide⟩

/-- The id of a dataset from the members of its manifest. -/
theorem datasetId_of_manifest {sha256 : Bytes → String} {d : Dataset} {m : Json}
    (hm : d.manifest sha256 = .ok m) (hcanonical : canonicalError m = none) :
    d.datasetId sha256 = .ok (datasetScheme ++ ":" ++
      sha256 (utf8 (String.ofList (canonicalStyle.render m.sorted)))) := by
  rw [Dataset.datasetId, hm]
  change (fun bytes => datasetScheme ++ ":" ++ sha256 bytes) <$> canonicalJson m = _
  rw [canonicalJson, hcanonical]
  rfl

/-- The two orders of the tables have one id. -/
theorem sample_ids (sha256 : Bytes → String) : ∃ id,
    sampleDataset.datasetId sha256 = .ok id ∧ sampleReordered.datasetId sha256 = .ok id := by
  obtain ⟨bars, hbars⟩ : ∃ hash, sampleBarsTable.tableHash sha256 = .ok hash := ⟨_, rfl⟩
  obtain ⟨names, hnames⟩ : ∃ hash, sampleNamesTable.tableHash sha256 = .ok hash := ⟨_, rfl⟩
  have hentries : ∀ d : Dataset, d.identity = sampleIdentity → ∀ entries,
      d.tables.mapM (fun t => Dataset.tableEntry sha256 t) = .ok entries →
        d.manifest sha256 = .ok (.obj [("identity", sampleIdentity.asDict),
          ("scheme", .str datasetScheme), ("tables", .obj entries)]) := by
    intro d hidentity entries hentries
    rw [Dataset.manifest, hentries, hidentity]
    rfl
  have hfirst : [sampleBarsTable, sampleNamesTable].mapM (fun t => Dataset.tableEntry sha256 t) =
      .ok [("bars", .str bars), ("names", .str names)] := by
    rw [List.mapM_cons, List.mapM_cons, Dataset.tableEntry, Dataset.tableEntry, hbars, hnames]
    rfl
  have hsecond : [sampleNamesTable, sampleBarsTable].mapM (fun t => Dataset.tableEntry sha256 t) =
      .ok [("names", .str names), ("bars", .str bars)] := by
    rw [List.mapM_cons, List.mapM_cons, Dataset.tableEntry, Dataset.tableEntry, hbars, hnames]
    rfl
  refine ⟨_, datasetId_of_manifest (hentries sampleDataset rfl _ hfirst) rfl, ?_⟩
  have hsorted : (Json.obj [("names", .str names), ("bars", .str bars)]).sorted =
      (Json.obj [("bars", .str bars), ("names", .str names)]).sorted := by
    have hbehind : ¬"names" ≤ "bars" := by decide
    have hahead : "bars" ≤ "names" := by decide
    simp [Json.sorted, Json.sortedMembers, List.insertionSort, List.orderedInsert, Json.byName,
      hbehind, hahead]
  rw [datasetId_of_manifest (hentries sampleReordered rfl _ hsecond) rfl]
  simp only [Json.sorted, Json.sortedMembers] at hsorted ⊢
  rw [hsorted]

/-- Tables of `Table.build`. -/
theorem sample_fromBuild : sampleDataset.FromBuild ∧ sampleReordered.FromBuild := by
  have hbars : Table.build sampleBars sampleBarsData = .ok sampleBarsTable := by decide +kernel
  have hnames : Table.build sampleNames sampleNamesData = .ok sampleNamesTable := by
    decide +kernel
  constructor
  · intro t ht
    rcases List.mem_pair.mp ht with rfl | rfl
    · exact ⟨_, _, hbars⟩
    · exact ⟨_, _, hnames⟩
  · intro t ht
    rcases List.mem_pair.mp ht with rfl | rfl
    · exact ⟨_, _, hnames⟩
    · exact ⟨_, _, hbars⟩

/-- Two orders of two tables. -/
theorem dataset_id_names_content_reordered : sampleDataset.SameContent sampleReordered := by
  rcases sample_ids sampleSha256 with ⟨id, hid, hid'⟩
  rcases sample_fromBuild with ⟨hbuild, hbuild'⟩
  exact dataset_id_names_content (Digests.hash_injective _) hbuild hbuild' hid hid'

end QuantumSentinel.Datasets
