import QuantumSentinel.Datasets.Tables
import QuantumSentinel.Lib.JsonValues

/-!
# Datasets: the blob format

`encode_blob` and `decode_blob`: a magic word, a header in canonical JSON behind its
length, and the encoded columns of all tables, compressed.  The decoder reads a header it knows
nothing about, so every access to it may fail as it does in Python.

Main results:

- Definition `encodeBlob`: what the encoder writes.
- Definition `decodeBlob`: what the decoder accepts, and its errors.

Current gaps:

- The text of an error of Python or of a library is the name of its class, and of several
  faults of one table in a header another one may be reported first.
-/

namespace QuantumSentinel.Datasets

open Lib

/-! ## Encoding -/

/-- `_BLOB_MAGIC` -/
def blobMagic : Bytes :=
  [81, 83, 66, 76, 79, 66, 0, 1]

/-- `BLOB_FORMAT` -/
def blobFormat : String :=
  "qs-blob-v1"

/-- `_MAX_HEADER` -/
def maxHeader : ℕ :=
  2 ^ 20

/-- `DEFAULT_MAX_BYTES` -/
def defaultMaxBytes : ℕ :=
  2 * 2 ^ 30

/-- The length of some chunks. -/
def lengthOf (chunks : List Bytes) : ℕ :=
  (chunks.map List.length).sum

/-- A column in the header, with the length of its encoding. -/
def columnSpec (c : Column) (length : ℕ) : Json :=
  .obj [("length", .int length), ("name", .str c.name), ("nullable", .bool c.nullable),
    ("type", .str c.type.text)]

/-- The columns of a table with their chunks. -/
def Table.chunked (t : Table) : Except Raised (List (Column × List Bytes)) :=
  t.schema.columns.mapM fun c => (fun chunks => (c, chunks)) <$> t.encoded c.name

/-- A table in the header. -/
def tableSpec (t : Table) (columns : List (Column × List Bytes)) : Json :=
  .obj [("columns", .arr (columns.map fun item => columnSpec item.1 (lengthOf item.2))),
    ("key", .arr (t.schema.key.map .str)), ("name", .str t.schema.name), ("rows", .int t.rows)]

/-- The chunks of the columns of all tables. -/
def allChunks (tables : List (Table × List (Column × List Bytes))) : List Bytes :=
  tables.flatMap fun item => item.2.flatMap Prod.snd

/-- The header. -/
def blobHeader (identity : DatasetIdentity) (id : String)
    (tables : List (Table × List (Column × List Bytes))) : Json :=
  .obj [("dataset_id", .str id), ("format", .str blobFormat), ("identity", identity.asDict),
    ("payload_length", .int (lengthOf (allChunks tables))),
    ("tables", .arr (tables.map fun item => tableSpec item.1 item.2))]

/-- `_U64.pack` -/
def packU64 (n : ℕ) : Except Raised Bytes :=
  if n < 2 ^ 64 then .ok (leBytes 8 n) else .error (.builtin .structError)

/-- The tables with the chunks of their columns. -/
def Dataset.chunked (d : Dataset) : Except Raised (List (Table × List (Column × List Bytes))) :=
  d.tables.mapM fun t => (fun columns => (t, columns)) <$> t.chunked

/-- The header of a dataset with these chunks. -/
def Dataset.header (sha256 : Bytes → String) (d : Dataset)
    (tables : List (Table × List (Column × List Bytes))) : Except Raised Json :=
  (fun id => blobHeader d.identity id tables) <$> d.datasetId sha256

/-- `encode_blob`; compression is a function of the chunks. -/
def encodeBlob (sha256 : Bytes → String) (compress : List Bytes → Bytes) (d : Dataset) :
    Except Raised Bytes := do
  let tables ← d.chunked
  let header ← d.header sha256 tables >>= canonicalJson
  let length ← packU64 header.length
  .ok (blobMagic ++ length ++ header ++ compress (allChunks tables))

/-! ## Reading a column -/

/-- `DatasetIntegrityError` about a column. -/
def integrityError (c : Column) (text : String) : Raised :=
  .integrity (c.name ++ text)

/-- The validity byte of a row of text. -/
def takeValid (c : Column) (raw : Bytes) : Except Raised (Bool × Bytes) :=
  if c.nullable then
    match raw with
    | [] => .error (.builtin .indexError)
    | b :: rest =>
      if 1 < b then .error (integrityError c ": validity bytes must be 0 or 1")
      else .ok (decide (b = 1), rest)
  else .ok (true, raw)

/-- The bytes of a row of text behind their length. -/
def takeText (c : Column) (raw : Bytes) : Except Raised (Bytes × Bytes) :=
  if raw.length < 8 then .error (.builtin .structError)
  else if (raw.drop 8).length < ofLeBytes (raw.take 8) then
    .error (integrityError c ": string overruns the column")
  else
    .ok ((raw.drop 8).take (ofLeBytes (raw.take 8)), (raw.drop 8).drop (ofLeBytes (raw.take 8)))

/-- `str(..., "utf-8") if valid else None` -/
def textValue (valid : Bool) (raw : Bytes) : Except Raised PyValue :=
  if valid then
    match decodeUtf8 raw with
    | some s => .ok (.str (some s))
    | none => .error (.builtin .valueError)
  else .ok .none

/-- `_parse_utf8` -/
def parseUtf8 (c : Column) : ℕ → Bytes → Except Raised (List PyValue)
  | 0, raw =>
    if raw = [] then .ok [] else .error (integrityError c ": length does not match its rows")
  | rows + 1, raw => do
      let flagged ← takeValid c raw
      let text ← takeText c flagged.2
      let value ← textValue flagged.1 text.1
      let values ← parseUtf8 c rows text.2
      .ok (value :: values)

/-- The size of a row of a column of fixed width. -/
def itemSize (c : Column) : ℕ :=
  (if c.nullable then 1 else 0) + width c.type

/-- `np.frombuffer` -/
def records (c : Column) (raw : Bytes) (rows : ℕ) : List Bytes :=
  (List.range rows).map fun i => (raw.drop (i * itemSize c)).take (itemSize c)

/-- `records["valid"] == 0` -/
def isMissing (c : Column) (record : Bytes) : Bool :=
  c.nullable && decide (record.headD 0 = 0)

/-- `records["value"]` -/
def valueOf (c : Column) (record : Bytes) : Bytes :=
  if c.nullable then record.tail else record

/-- A stamp; the smallest number is `NaT`. -/
def stampOf (n : ℤ) : Option ℤ :=
  if n = -2 ^ 63 then none else some n

/-- The values of the records of a column of fixed width. -/
def fixedValues (c : Column) (items : List Bytes) : Values :=
  match c.type with
  | .float64 => .floats (items.map fun r =>
    if isMissing c r then Float64.nan else ⟨UInt64.ofNat (ofLeBytes (valueOf c r))⟩)
  | .date32 => .datetimes 1 (items.map fun r =>
    if isMissing c r then none else stampOf (ofLeInt (valueOf c r)))
  | _ => .datetimes nsPerDay (items.map fun r =>
    if isMissing c r then none else stampOf (ofLeInt (valueOf c r)))

/-- `_parse` of a column of fixed width. -/
def parseFixed (c : Column) (raw : Bytes) (rows : ℕ) : Except Raised Values :=
  if raw.length ≠ rows * itemSize c then
    .error (integrityError c ": length does not match its rows")
  else if c.nullable && (records c raw rows).any fun r => decide (1 < r.headD 0) then
    .error (integrityError c ": validity bytes must be 0 or 1")
  else .ok (fixedValues c (records c raw rows))

/-- An `int`, a `bool` among them. -/
def pyInt? : Json → Option ℤ
  | .int n => some n
  | .bool b => some (if b then 1 else 0)
  | _ => none

/-- `_parse` -/
def parse (c : Column) (raw : Bytes) (rows : Json) : Except Raised Values :=
  match pyInt? rows with
  | none => .error (.integrity "bad row count")
  | some n =>
    if n < 0 then .error (.integrity "bad row count")
    else
      match c.type with
      | .utf8 => Values.objects <$> parseUtf8 c n.toNat raw
      | _ => parseFixed c raw n.toNat

/-! ## Reading a header -/

/-- `v[name]` -/
def item (name : String) : Json → Except Raised Json
  | .obj members =>
    match Dict.lookup name members with
    | some v => .ok v
    | none => .error (.builtin .keyError)
  | _ => .error (.builtin .typeError)

/-- `v.get(name)` -/
def getItem (name : String) : Json → Except Raised (Option Json)
  | .obj members => .ok (Dict.lookup name members)
  | _ => .error (.builtin .attributeError)

/-- `for item in v` -/
def iterate : Json → Except Raised (List Json)
  | .arr items => .ok items
  | .obj members => .ok (members.map fun m => .str m.1)
  | .str s => .ok (s.toList.map fun c => .str (String.singleton c))
  | _ => .error (.builtin .typeError)

/-- A string. -/
def textOf : Json → Except Raised String
  | .str s => .ok s
  | _ => .error (.builtin .typeError)

/-- `DatasetError` about the type of a column. -/
def typeError : Raised :=
  .dataset "column types must be one of ('utf8', 'date32', 'timestamp_ns', 'float64')"

/-- The type of a column. -/
def typeOf : Json → Except Raised ColumnType
  | .str s =>
    match ColumnType.ofText? s with
    | some type => .ok type
    | none => .error typeError
  | _ => .error typeError

/-- `Column(c["name"], c["type"], c["nullable"])`; of the flag, what its tests see. -/
def readColumn (c : Json) : Except Raised Column := do
  let name ← item "name" c >>= textOf
  let type ← item "type" c >>= typeOf
  let nullable ← item "nullable" c
  .ok ⟨name, type, nullable.truthy⟩

/-- The schema of a table in the header. -/
def readSchema (spec : Json) : Except Raised TableSchema := do
  let name ← item "name" spec >>= textOf
  let columns ← item "columns" spec >>= iterate >>= List.mapM readColumn
  let key ← item "key" spec >>= iterate >>= List.mapM textOf
  TableSchema.make name columns key

/-- The length of a column, when the payload holds it. -/
def readLength (total offset : ℕ) (c : Json) : Except Raised ℕ := do
  let length ← item "length" c
  match pyInt? length with
  | none => .error (.integrity "dataset column overruns the payload")
  | some n =>
    if n < 0 ∨ (total : ℤ) < offset + n then
      .error (.integrity "dataset column overruns the payload")
    else .ok n.toNat

/-- The columns of a table from an offset of the payload on. -/
def readData (payload : Bytes) (rows : Json) :
    List (Json × Column) → ℕ → Dict String Values → Except Raised (ℕ × Dict String Values)
  | [], offset, data => .ok (offset, data)
  | (c, column) :: rest, offset, data => do
      let length ← readLength payload.length offset c
      let values ← parse column ((payload.drop offset).take length) rows
      readData payload rows rest (offset + length) (data.set column.name values)

/-- One table. -/
def readTable (payload : Bytes) (offset : ℕ) (spec : Json) : Except Raised (ℕ × Table) := do
  let schema ← readSchema spec
  let rows ← item "rows" spec
  let columns ← item "columns" spec >>= iterate
  let read ← readData payload rows (columns.zip schema.columns) offset Dict.empty
  (fun t => (read.1, t)) <$> Table.build schema read.2

/-- All tables, and the offset behind them. -/
def readTables (payload : Bytes) : ℕ → List Json → Except Raised (ℕ × List Table)
  | offset, [] => .ok (offset, [])
  | offset, spec :: rest => do
      let read ← readTable payload offset spec
      let others ← readTables payload read.1 rest
      .ok (others.1, read.2 :: others.2)

/-- The columns of a table with their flags, as the header has them. -/
def tableFlags (spec : Json) : Except Raised (List ((String × Column) × Json)) := do
  let name ← item "name" spec >>= textOf
  let columns ← item "columns" spec >>= iterate
  columns.mapM fun c => do
    let column ← readColumn c
    let flag ← item "nullable" c
    .ok ((name, column), flag)

/-- The flags of all columns. -/
def headerFlags (header : Json) : Except Raised (List ((String × Column) × Json)) := do
  let specs ← item "tables" header >>= iterate
  List.flatten <$> specs.mapM tableFlags

/-- The flag that the schema of a table keeps for a column. -/
def flagIn (flags : List ((String × Column) × Json)) (table : String) (c : Column) : Json :=
  (Dict.lookup (table, c) flags).getD (.bool c.nullable)

/-! ## Identities -/

/-- The names of the fields of an identity. -/
def identityNames : List String :=
  ["family", "provider", "licence_id", "frequency", "session_boundary", "adjustment",
    "survivorship"]

/-- `DatasetError` about a field of an identity. -/
def identityError (name : String) : Raised :=
  .dataset ("identity " ++ name ++ " must match [A-Za-z0-9][A-Za-z0-9._:+-]\x7b0,63\x7d")

/-- The text of a field. -/
def fieldText (members : List (String × Json)) (name : String) : Except Raised String :=
  match Dict.lookup name members with
  | some (.str s) => .ok s
  | some _ => .error (identityError name)
  | none => .error (.builtin .typeError)

/-- The check of the constructor. -/
def checkIdentity (fields : IdentityFields) : Except Raised DatasetIdentity :=
  if h : fields.items.all (fun item => isToken item.2) = true then .ok ⟨fields, h⟩
  else
    match fields.items.find? fun item => !isToken item.2 with
    | some item => .error (identityError item.1)
    | none => .error (.builtin .valueError)

/-- The fields of an identity from keyword arguments. -/
def identityFields (members : List (String × Json)) : Except Raised IdentityFields := do
  let family ← fieldText members "family"
  let provider ← fieldText members "provider"
  let licenceId ← fieldText members "licence_id"
  let frequency ← fieldText members "frequency"
  let sessionBoundary ← fieldText members "session_boundary"
  let adjustment ← fieldText members "adjustment"
  let survivorship ← fieldText members "survivorship"
  .ok ⟨family, provider, licenceId, frequency, sessionBoundary, adjustment, survivorship⟩

/-- `DatasetIdentity(**v)` -/
def readIdentity : Json → Except Raised DatasetIdentity
  | .obj members =>
    if members.all fun m => decide (m.1 ∈ identityNames) then
      identityFields members >>= checkIdentity
    else .error (.builtin .typeError)
  | _ => .error (.builtin .typeError)

/-! ## Decoding -/

/-- What `zlib.decompressobj().decompress` leaves behind. -/
structure Inflated where
  payload : Bytes
  eof : Bool
  unconsumedTail : Bytes
  unusedData : Bytes
deriving DecidableEq, Repr

section Decode

variable (sha256 : Bytes → String) (inflate : Bytes → ℕ → Except Builtin Inflated)
variable (loads : Bytes → Except Builtin Json)

/-- The length of the payload in the header. -/
def readTotal (maxBytes : ℕ) (header : Json) : Except Raised ℕ := do
  let total ← item "payload_length" header
  match pyInt? total with
  | none => .error (.integrity "dataset payload is larger than the read limit")
  | some n =>
    if 0 ≤ n ∧ n ≤ maxBytes then .ok n.toNat
    else .error (.integrity "dataset payload is larger than the read limit")

/-- The payload, when it has the length in the header. -/
def readPayload (compressed : Bytes) (total : ℕ) : Except Raised Bytes := do
  let inflated ← (inflate compressed (total + 1)).mapError .builtin
  if inflated.payload.length = total ∧ inflated.eof = true ∧ inflated.unconsumedTail = [] ∧
      inflated.unusedData = [] then .ok inflated.payload
  else .error (.integrity "dataset payload length does not match its header")

/-- What the header and the payload describe. -/
def readDataset (header : Json) (payload : Bytes) : Except Raised Dataset := do
  let specs ← item "tables" header >>= iterate
  let read ← readTables payload 0 specs
  if read.1 ≠ payload.length then .error (.integrity "dataset payload has trailing bytes")
  else
    item "identity" header >>= readIdentity >>= fun identity => Dataset.make identity read.2

/-- The header, when it is one of this format. -/
def readHeader (raw : Bytes) : Except Raised Json := do
  let header ← (loads raw).mapError .builtin
  let format ← getItem "format" header
  match format with
  | some (.str s) =>
    if s = blobFormat then .ok header else .error (.integrity "not a qs-blob-v1 file")
  | _ => .error (.integrity "not a qs-blob-v1 file")

/-- `_decode`: the dataset, and the flags that its schemas keep. -/
def decode (blob : Bytes) (maxBytes : ℕ) : Except Raised (Dataset × (String → Column → Json)) :=
  if blob.take 8 ≠ blobMagic ∨ blob.length < 16 then .error (.integrity "not a qs-blob-v1 file")
  else
    let headerLength := ofLeBytes ((blob.drop 8).take 8)
    if maxHeader < headerLength ∨ blob.length < 16 + headerLength then
      .error (.integrity "dataset blob header is truncated or too large")
    else do
      let header ← readHeader loads ((blob.drop 16).take headerLength)
      let total ← readTotal maxBytes header
      let payload ← readPayload inflate (blob.drop (16 + headerLength)) total
      let d ← readDataset header payload
      let flags ← headerFlags header
      .ok (d, flagIn flags)

/-- What an exception of `_decode` becomes. -/
def Raised.malformed : Raised → Raised
  | .integrity text => .integrity text
  | .dataset text => .integrity ("malformed dataset blob: " ++ text)
  | .builtin .stopIteration => .builtin .stopIteration
  | .builtin error => .integrity ("malformed dataset blob: " ++ error.name)

/-- `decode_blob` -/
def decodeBlob (blob : Bytes) (expectedId : String) (maxBytes : ℕ) : Except Raised Dataset := do
  let read ← (decode inflate loads blob maxBytes).mapError Raised.malformed
  let id ← read.1.datasetId sha256 read.2
  if id = expectedId then .ok read.1
  else .error (.integrity "dataset blob content does not match its id")

end Decode

end QuantumSentinel.Datasets
