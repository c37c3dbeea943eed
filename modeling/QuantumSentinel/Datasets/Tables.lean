import Mathlib.Data.List.GetD
import Mathlib.Data.List.Sort
import Mathlib.Data.List.Lex
import Mathlib.Data.String.Basic
import QuantumSentinel.Datasets.Values
import QuantumSentinel.Lib.Bytes

/-!
# Datasets: tables and their hash

`Table.build` sorts normalised columns by the key; `Table.encoded` writes a column
as bytes; a table is named by the hash of its manifest and a dataset by the hash of its
identity and its tables.

Main results:

- Definition `Table.build`: the tables.
- Theorem `flatten_encodeChunks`: the chunks of a column are the encodings of its cells.
- Definition `Dataset.datasetId`: the id of a dataset.

Current gaps:

- The write protection of the arrays.
-/

namespace QuantumSentinel.Datasets

open Lib

/-! ## Sorting -/

/-- A text cell as it is compared. -/
def Cell.text? : Cell → String
  | .text s => s
  | _ => ""

/-- The `int64` view of a cell. -/
def Cell.int64 : Cell → ℤ
  | .int n => n
  | .float x => if 2 * x.bits.toNat < 2 ^ 64 then x.bits.toNat else (x.bits.toNat : ℤ) - 2 ^ 64
  | .null => -2 ^ 63
  | .text _ => 0

/-- `np.unique(array, return_inverse=True)[1]` -/
def uniqueInverse (array : List String) : List ℕ :=
  let unique := array.dedup.insertionSort (· ≤ ·)
  array.map fun s => unique.idxOf s

/-- `_sort_codes` -/
def sortCodes (c : Column) (array : List Cell) : List ℤ :=
  match c.type with
  | .utf8 => (uniqueInverse (array.map Cell.text?)).map Int.ofNat
  | _ => array.map Cell.int64

/-- One row of several arrays. -/
def rowOf (keys : List (List ℤ)) (i : ℕ) : List ℤ :=
  keys.map fun k => k.getD i 0

/-- `np.lexsort`: a stable indirect sort in which the last key is the primary one. -/
def lexsort (keys : List (List ℤ)) (size : ℕ) : List ℕ :=
  (List.range size).insertionSort fun i j => rowOf keys.reverse i ≤ rowOf keys.reverse j

/-- `array[order]` -/
def gather (array : List Cell) (order : List ℕ) : List Cell :=
  order.map fun i => array.getD i .null

/-- Whether two neighbours are the same. -/
def hasRepeat : List (List ℤ) → Bool
  | a :: b :: rest => decide (a = b) || hasRepeat (b :: rest)
  | _ => false

/-! ## Tables -/

/-- `Table`; the arrays in the order of the schema's columns. -/
structure Table where
  schema : TableSchema
  columns : List (String × List Cell)
deriving DecidableEq

/-- A Python list of names, as an f-string shows it. -/
def showNames (names : List String) : String :=
  "[" ++ ", ".intercalate (names.map fun n => "'" ++ n ++ "'") ++ "]"

/-- `DatasetError` about a table. -/
def tableError (schema : TableSchema) (text : String) : Raised :=
  .dataset ("table " ++ schema.name ++ text)

namespace Table

/-- A column's name and its normalised array. -/
def normaliseColumn (data : Dict String Values) (c : Column) :
    Except Raised (String × List Cell) :=
  match data.get? c.name with
  | none => .error (.builtin .keyError)
  | some values => (fun array => (c.name, array)) <$> normalise c values

/-- `arrays[name]` -/
def arrayOf (arrays : List (String × List Cell)) (name : String) : List Cell :=
  (Dict.lookup name arrays).getD []

/-- The codes of a key column. -/
def keyCodes (schema : TableSchema) (arrays : List (String × List Cell)) (k : String) :
    Except Raised (List ℤ) :=
  (fun c => sortCodes c (arrayOf arrays k)) <$> schema.column k

/-- The first non-nullable column with a missing value. -/
def missingColumn? (schema : TableSchema) (arrays : List (String × List Cell)) :
    Option Column :=
  schema.columns.find? fun c => !c.nullable && decide (Cell.null ∈ arrayOf arrays c.name)

/-- The arrays with their rows sorted by the codes of the key, unless two rows share them. -/
def sortRows (schema : TableSchema) (arrays : List (String × List Cell)) (size : ℕ)
    (keys : List (List ℤ)) : Except Raised Table :=
  let order := lexsort keys.reverse size
  if hasRepeat (order.map (rowOf keys)) then
    .error (tableError schema (": duplicate key " ++ showNames schema.key))
  else .ok ⟨schema, arrays.map fun item => (item.1, gather item.2 order)⟩

/-- The length of the first array. -/
def sizeOf (arrays : List (String × List Cell)) : ℕ :=
  (arrays.head?.map fun item => item.2.length).getD 0

/-- `Table.build` from the normalised arrays on. -/
def buildArrays (schema : TableSchema) (arrays : List (String × List Cell)) :
    Except Raised Table :=
  if ∃ item ∈ arrays, item.2.length ≠ sizeOf arrays then
    .error (tableError schema ": columns have different lengths")
  else
    match missingColumn? schema arrays with
    | some c => .error (columnError c "missing values in a non-nullable column")
    | none => schema.key.mapM (keyCodes schema arrays) >>= sortRows schema arrays (sizeOf arrays)

/-- `Table.build` -/
def build (schema : TableSchema) (data : Dict String Values) : Except Raised Table :=
  if data.keys ⊆ schema.names ∧ schema.names ⊆ data.keys then
    schema.columns.mapM (normaliseColumn data) >>= buildArrays schema
  else
    .error (tableError schema (" needs exactly the columns " ++ showNames schema.names))

variable (t : Table)

/-- `self.columns[name]` -/
def array (name : String) : List Cell :=
  arrayOf t.columns name

/-- `len(self)` -/
def rows : ℕ :=
  sizeOf t.columns

end Table

/-! ## Encoding -/

/-- Bytes of a value of a fixed-width type. -/
def width : ColumnType → ℕ
  | .date32 => 4
  | _ => 8

/-- A value of a fixed-width type; a null is the zero value. -/
def valueBytes (type : ColumnType) : Cell → Bytes
  | .int n => leInt (width type) n
  | .float x => leBytes (width type) x.bits.toNat
  | _ => leBytes (width type) 0

/-- The encoding of one row of a column. -/
def encodeCell (c : Column) (cell : Cell) : Bytes :=
  match c.type with
  | .utf8 =>
    match cell with
    | .text s =>
      (if c.nullable then [1] else []) ++ (leBytes 8 (utf8 s).length ++ utf8 s)
    | _ => 0 :: leBytes 8 0
  | type =>
    if c.nullable then (if cell = .null then 0 else 1) :: valueBytes type cell
    else valueBytes type cell

/-- Whether `_U64.pack` takes the length of a text. -/
def Cell.packs : Cell → Bool
  | .text s => decide ((utf8 s).length < 2 ^ 64)
  | _ => true

/-- `_UTF8_BATCH` -/
def utf8Batch : ℕ :=
  65536

/-- `array[start:start + size]` for every start from zero in steps of the size. -/
def batches (size : ℕ) (array : List Cell) : List (List Cell) :=
  (List.range ((array.length + size - 1) / size)).map fun i => (array.drop (i * size)).take size

/-- The encoding of an array, in chunks. -/
def encodeChunks (c : Column) (array : List Cell) : List Bytes :=
  match c.type with
  | .utf8 => (batches utf8Batch array).map fun rows => rows.flatMap (encodeCell c)
  | _ => [array.flatMap (encodeCell c)]

/-- The batches are the array. -/
theorem flatten_batches {size : ℕ} (hsize : 0 < size) (array : List Cell) :
    (batches size array).flatten = array := by
  have hprefix : ∀ n, ((List.range n).map fun i =>
      (array.drop (i * size)).take size).flatten = array.take (n * size) := by
    intro n
    induction n with
    | zero => simp
    | succ n ih =>
      rw [List.range_succ, List.map_append, List.flatten_append, ih, Nat.succ_mul,
        List.take_add]
      simp
  rw [batches, hprefix]
  apply List.take_of_length_le
  have hdiv := Nat.div_add_mod (array.length + size - 1) size
  have hmod := Nat.mod_lt (array.length + size - 1) hsize
  rw [Nat.mul_comm] at hdiv
  omega

/-- The chunks of an array are the encodings of its cells. -/
theorem flatten_encodeChunks (c : Column) (array : List Cell) :
    (encodeChunks c array).flatten = array.flatMap (encodeCell c) := by
  have hrows : ∀ parts : List (List Cell),
      (parts.map fun rows => rows.flatMap (encodeCell c)).flatten =
        parts.flatten.flatMap (encodeCell c) := by
    intro parts
    induction parts with
    | nil => rfl
    | cons rows rest ih =>
      rw [List.map_cons, List.flatten_cons, List.flatten_cons, List.flatMap_append, ih]
  unfold encodeChunks
  split
  · rw [hrows, flatten_batches (show 0 < utf8Batch by decide)]
  · exact List.append_nil _

namespace Table

variable (t : Table)

/-- `Table.encoded` -/
def encoded (name : String) : Except Raised (List Bytes) := do
  let c ← t.schema.column name
  if (t.array name).all Cell.packs then .ok (encodeChunks c (t.array name))
  else .error (.builtin .structError)

end Table

/-! ## Canonical JSON -/

/-- `str.isascii` -/
def isAscii (s : String) : Bool :=
  s.toList.all fun c => decide (c.toNat < 128)

mutual

/-- What `_check_canonical` objects to. -/
def canonicalError : Json → Option String
  | .null | .bool _ | .str _ => none
  | .int n =>
    if n.natAbs ≤ 2 ^ 53 - 1 then none
    else some "canonical JSON integers must be within +/-(2**53 - 1)"
  | .float _ => some "canonical JSON cannot hold float values"
  | .arr items => itemsError items
  | .obj members => membersError members

/-- The first objection to the items of a list. -/
def itemsError : List Json → Option String
  | [] => none
  | v :: rest => (canonicalError v).or (itemsError rest)

/-- The first objection to the items of a dictionary. -/
def membersError : List (String × Json) → Option String
  | [] => none
  | (name, v) :: rest =>
    if isAscii name then (canonicalError v).or (membersError rest)
    else some "canonical JSON keys must be ASCII strings"

end

/-- How canonical JSON is written. -/
def canonicalStyle : JsonStyle where
  ensureAscii := false
  spaced := false

/-- `canonical_json` -/
def canonicalJson (v : Json) : Except Raised Bytes :=
  match canonicalError v with
  | some text => .error (.dataset text)
  | none => .ok (utf8 (String.ofList (Json.dumps canonicalStyle v)))

/-! ## Hashes -/

/-- `TABLE_SCHEME` -/
def tableScheme : String :=
  "qs-col-sha256-v1"

/-- `DATASET_SCHEME` -/
def datasetScheme : String :=
  "qs-ds-sha256-v1"

section Hash

variable (sha256 : Bytes → String)

/-- `Table.column_digest` -/
def Table.columnDigest (t : Table) (name : String) : Except Raised String :=
  (fun chunks => sha256 chunks.flatten) <$> t.encoded name

/-- A column in the manifest of its table, with the flag that its schema keeps. -/
def columnJson (c : Column) (digest : String) (flag : Json := .bool c.nullable) : Json :=
  .obj [("name", .str c.name), ("nullable", flag), ("sha256", .str digest),
    ("type", .str c.type.text)]

/-- `Table.manifest`; the flags are truth values, unless the schema came out of a blob. -/
def Table.manifest (t : Table) (flags : Column → Json := fun c => .bool c.nullable) :
    Except Raised Json := do
  let columns ← t.schema.columns.mapM fun c =>
    (fun digest => columnJson c digest (flags c)) <$> t.columnDigest sha256 c.name
  .ok (.obj [("columns", .arr columns), ("key", .arr (t.schema.key.map .str)),
    ("rows", .int t.rows), ("scheme", .str tableScheme)])

/-- `Table.table_hash` -/
def Table.tableHash (t : Table) (flags : Column → Json := fun c => .bool c.nullable) :
    Except Raised String := do
  let manifest ← t.manifest sha256 flags
  sha256 <$> canonicalJson manifest

end Hash

/-! ## Datasets -/

/-- The fields of an identity: `family`, `provider`, `licence_id`,
`frequency`, `session_boundary`, `adjustment` and `survivorship`. -/
structure IdentityFields where
  family : String
  provider : String
  licenceId : String
  frequency : String
  sessionBoundary : String
  adjustment : String
  survivorship : String
deriving DecidableEq, Repr

/-- The names and values of the fields. -/
def IdentityFields.items (f : IdentityFields) : List (String × String) :=
  [("family", f.family), ("provider", f.provider), ("licence_id", f.licenceId),
    ("frequency", f.frequency), ("session_boundary", f.sessionBoundary),
    ("adjustment", f.adjustment), ("survivorship", f.survivorship)]

/-- `DatasetIdentity` -/
structure DatasetIdentity where
  fields : IdentityFields
  valid : fields.items.all (fun item => isToken item.2) = true
deriving DecidableEq

/-- `DatasetIdentity.as_dict` -/
def DatasetIdentity.asDict (identity : DatasetIdentity) : Json :=
  .obj (identity.fields.items.map fun item => (item.1, .str item.2))

/-- `Dataset` -/
structure Dataset where
  identity : DatasetIdentity
  tables : List Table
  /-- `__post_init__` -/
  valid : tables ≠ [] ∧ (tables.map fun t => t.schema.name).Nodup
deriving DecidableEq

namespace Dataset

/-- The constructor. -/
def make (identity : DatasetIdentity) (tables : List Table) : Except Raised Dataset :=
  if h : tables ≠ [] ∧ (tables.map fun t => t.schema.name).Nodup then .ok ⟨identity, tables, h⟩
  else .error (.dataset "a dataset needs one or more tables with distinct names")

variable (sha256 : Bytes → String) (d : Dataset)
variable (flags : String → Column → Json := fun _ c => .bool c.nullable)

/-- A table's name and hash in the manifest of its dataset. -/
def tableEntry (t : Table) (flags : String → Column → Json := fun _ c => .bool c.nullable) :
    Except Raised (String × Json) :=
  (fun hash => (t.schema.name, .str hash)) <$> t.tableHash sha256 (flags t.schema.name)

/-- `Dataset.manifest` -/
def manifest : Except Raised Json := do
  let tables ← d.tables.mapM fun t => tableEntry sha256 t flags
  .ok (.obj [("identity", d.identity.asDict), ("scheme", .str datasetScheme),
    ("tables", .obj tables)])

/-- `Dataset.dataset_id` -/
def datasetId : Except Raised String := do
  let manifest ← d.manifest sha256 flags
  (fun bytes => datasetScheme ++ ":" ++ sha256 bytes) <$> canonicalJson manifest

end Dataset

end QuantumSentinel.Datasets
