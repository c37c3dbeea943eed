import QuantumSentinel.Datasets.AcceptedBlobs

/-!
# Datasets: the store

`DatasetStore` keeps the blob of a dataset in a file named by its id.  Writing bounds the
size of the file; reading bounds the file, the header and the decompressed payload.  The limits
do not agree: a dataset that compresses well is stored and never read again.

Main results:

- Definition `DatasetStore.put`: what writing checks, and the file it leaves.
- Definition `DatasetStore.get`: what reading checks.
- Theorem `put_then_get`: which stored datasets can be read back.

Current gaps:

- Errors of the operating system other than the refused rename.
- The temporary file, which is gone when `put` returns.
-/

namespace QuantumSentinel.Datasets

open Lib

/-! ## Files -/

/-- `[0-9a-f]` -/
def isHexDigit (c : Char) : Bool :=
  c.isDigit || (decide ('a' ≤ c) && decide (c ≤ 'f'))

/-- The part of a text behind its first colon. -/
def behindColon (s : String) : String :=
  String.ofList ((s.toList.dropWhile (· ≠ ':')).drop 1)

/-- `DATASET_ID.fullmatch` -/
def isDatasetId (s : String) : Bool :=
  decide (s = datasetScheme ++ ":" ++ behindColon s) &&
    decide ((behindColon s).length = 64) && (behindColon s).toList.all isHexDigit

/-- The parts of a path. -/
abbrev FilePath := List String

/-- The files and their bytes. -/
abbrev Files := Dict FilePath Bytes

/-- How `os.replace` ends: Windows refuses to replace a file that another writer has put
there, if it is still there. -/
inductive Rename
  | done
  | refused (theirs : Option Bytes)
deriving DecidableEq, Repr

/-- What `put` raises. -/
inductive StoreError
  | raised (error : Raised)
  | permissionError
deriving DecidableEq, Repr

/-- `StoredDataset` -/
structure StoredDataset where
  datasetId : String
  path : FilePath
  sha256 : String
  size : ℕ
deriving DecidableEq, Repr

/-- `DatasetStore` -/
structure DatasetStore where
  root : String
  maxBytes : ℕ

namespace DatasetStore

variable (store : DatasetStore)

/-- `path_for` -/
def pathFor (id : String) : Except Raised FilePath :=
  if isDatasetId id then
    .ok [store.root, datasetScheme, String.ofList ((behindColon id).toList.take 2), behindColon id]
  else .error (.dataset "not a dataset id")

/-- `_read` -/
def read (files : Files) (path : FilePath) : Except Raised Bytes :=
  match files.get? path with
  | none => .error (.integrity (path.getLastD "" ++ ": no stored blob"))
  | some blob =>
    if store.maxBytes < blob.length then
      .error (.integrity (path.getLastD "" ++ ": blob is larger than the read limit"))
    else .ok blob

section Operations

variable (sha256 : Bytes → String) (compress : List Bytes → Bytes)
variable (inflate : Bytes → ℕ → Except Builtin Inflated) (loads : Bytes → Except Builtin Json)

/-- `_verified` -/
def verifiedFile (files : Files) (id : String) (path : FilePath) :
    Except Raised StoredDataset := do
  let blob ← store.read files path
  let _ ← decodeBlob sha256 inflate loads blob id store.maxBytes
  .ok ⟨id, path, sha256 blob, blob.length⟩

/-- `verified` -/
def verified (files : Files) (id : String) (recorded : Option String) :
    Except Raised (Dataset × StoredDataset) := do
  let path ← store.pathFor id
  let blob ← store.read files path
  if recorded.any fun hash => decide (sha256 blob ≠ hash) then
    .error (.integrity (id ++ ": stored bytes do not match the recorded hash"))
  else
    (fun d => (d, ⟨id, path, sha256 blob, blob.length⟩)) <$>
      decodeBlob sha256 inflate loads blob id store.maxBytes

/-- `get` -/
def get (files : Files) (id : String) (recorded : Option String) : Except Raised Dataset :=
  Prod.fst <$> store.verified sha256 inflate loads files id recorded

/-- The end of `put`, behind the attempt to rename the written file. -/
def keep (files : Files) (id : String) (path : FilePath) (blob : Bytes) :
    Rename → Except StoreError (StoredDataset × Files)
  | .done => .ok (⟨id, path, sha256 blob, blob.length⟩, files.set path blob)
  | .refused none => .error .permissionError
  | .refused (some theirs) =>
    (fun stored => (stored, files.set path theirs)) <$>
      (store.verifiedFile sha256 inflate loads (files.set path theirs) id path).mapError .raised

/-- `encode_blob` within the limit of the store. -/
def limitedBlob (d : Dataset) : Except Raised Bytes := do
  let blob ← encodeBlob sha256 compress d
  if store.maxBytes < blob.length then
    .error (.dataset "dataset blob is larger than the store's limit")
  else .ok blob

/-- `put` -/
def put (files : Files) (rename : Rename) (d : Dataset) :
    Except StoreError (StoredDataset × Files) := do
  let id ← (d.datasetId sha256).mapError .raised
  let path ← (store.pathFor id).mapError .raised
  match files.get? path with
  | some _ =>
    (fun stored => (stored, files)) <$>
      (store.verifiedFile sha256 inflate loads files id path).mapError .raised
  | none => do
      let blob ← (store.limitedBlob sha256 compress d).mapError .raised
      store.keep sha256 inflate loads files id path blob rename

end Operations

end DatasetStore

/-! ## Reading what was written -/

/-- The tables of a decoded dataset are built. -/
theorem Dataset.built_of_decode {inflate : Bytes → ℕ → Except Builtin Inflated}
    {loads : Bytes → Except Builtin Json} {blob : Bytes} {maxBytes : ℕ} {d : Dataset}
    {flags : String → Column → Json} (h : decode inflate loads blob maxBytes = .ok (d, flags)) :
    ∀ t ∈ d.tables, t.Built := by
  intro t ht
  rcases parts_of_decode h with ⟨header, payload, -, -, hread, -⟩
  rcases storedTables_of_readDataset hread with ⟨stored, -, hreads, -⟩
  rcases exists_of_forall₂ hreads ht with ⟨s, -, hs⟩
  rcases hs.built with ⟨arrays, -, hnormal, hbuild⟩
  exact (Table.built_of_buildArrays hnormal hbuild).1

/-- The flags of a decoded dataset are read by their truth values. -/
theorem spellsFlags_of_decode {inflate : Bytes → ℕ → Except Builtin Inflated}
    {loads : Bytes → Except Builtin Json} {blob : Bytes} {maxBytes : ℕ} {d : Dataset}
    {flags : String → Column → Json} (h : decode inflate loads blob maxBytes = .ok (d, flags)) :
    SpellsFlags flags := by
  rcases parts_of_decode h with ⟨header, -, found, -, -, hfound, rfl⟩
  intro table c
  cases hlookup : Dict.lookup (table, c) found with
  | none =>
    rw [flagIn, hlookup]
    rfl
  | some flag =>
    rw [flagIn, hlookup, Option.getD_some]
    rcases bind_eq_ok_iff.mp hfound with ⟨specs, -, hall⟩
    rcases map_eq_ok_iff.mp hall with ⟨tables, htables, rfl⟩
    rcases List.mem_flatten.mp (Dict.mem_of_lookup hlookup) with ⟨entries, hentries, hmem⟩
    rcases exists_of_forall₂ (mapM_eq_ok_iff.mp htables) hentries with ⟨spec, -, hspec⟩
    rcases bind_eq_ok_iff.mp hspec with ⟨name, -, hspec⟩
    rcases bind_eq_ok_iff.mp hspec with ⟨columns, -, hcolumns⟩
    rcases exists_of_forall₂ (mapM_eq_ok_iff.mp hcolumns) hmem with ⟨entry, -, hentry⟩
    rcases bind_eq_ok_iff.mp hentry with ⟨column, hcolumn, hentry⟩
    rcases bind_eq_ok_iff.mp hentry with ⟨raw, hraw, hentry⟩
    cases hentry
    rcases bind_eq_ok_iff.mp hcolumn with ⟨columnName, -, hcolumn⟩
    rcases bind_eq_ok_iff.mp hcolumn with ⟨type, -, hcolumn⟩
    rcases bind_eq_ok_iff.mp hcolumn with ⟨raw', hraw', hcolumn⟩
    rw [hraw, Except.ok.injEq] at hraw'
    cases hraw'
    cases hcolumn
    rfl

section Reading

variable {sha256 : Bytes → String} {compress : List Bytes → Bytes}
variable {inflate : Bytes → ℕ → Except Builtin Inflated} {loads : Bytes → Except Builtin Json}

/-- What is accepted under the id of a dataset has its content. -/
theorem sameContent_of_decodeBlob (hsha : ∀ a b, sha256 a = sha256 b → a = b) {d d' : Dataset}
    (hd : d.FromBuild) {id : String} (hid : d.datasetId sha256 = .ok id) {blob : Bytes}
    {maxBytes : ℕ} (h : decodeBlob sha256 inflate loads blob id maxBytes = .ok d') :
    d.SameContent d' := by
  rcases bind_eq_ok_iff.mp h with ⟨⟨found, flags⟩, hdecode, h⟩
  rcases bind_eq_ok_iff.mp h with ⟨foundId, hfound, h⟩
  split at h
  · rename_i hsame
    cases h
    subst hsame
    have hbuilt := Dataset.built_of_decode (mapError_eq_ok_iff.mp hdecode)
    have hflags := spellsFlags_of_decode (mapError_eq_ok_iff.mp hdecode)
    rcases content_of_datasetId hsha hd.built hbuilt (fun _ _ => rfl) hflags hid hfound with
      ⟨hidentity, htables⟩
    exact ⟨hidentity, htables⟩
  · cases h

/-- The limits that reading enforces on what the encoder wrote. -/
structure Fits (sha256 : Bytes → String) (maxBytes : ℕ) (d : Dataset) : Prop where
  payload : d.payload.length ≤ maxBytes
  header : ∃ header text, d.HasHeader sha256 header text ∧ text.length ≤ maxHeader

/-- A written blob is read back when the limits admit it, and refused otherwise. -/
theorem decodeBlob_written (hinflate : ∀ chunks n, chunks.flatten.length < n →
      inflate (compress chunks) n = .ok ⟨chunks.flatten, true, [], []⟩)
    {d : Dataset} (hd : d.FromBuild)
    (hloads : ∀ header text, d.HasHeader sha256 header text → loads text = .ok header.sorted)
    {blob : Bytes} (hblob : encodeBlob sha256 compress d = .ok blob) {id : String}
    (hid : d.datasetId sha256 = .ok id) (maxBytes : ℕ) :
    (Fits sha256 maxBytes d → decodeBlob sha256 inflate loads blob id maxBytes = .ok d) ∧
      ∀ d', decodeBlob sha256 inflate loads blob id maxBytes = .ok d' →
        Fits sha256 maxBytes d := by
  rcases encodeBlob_eq_ok hblob with ⟨id', text, hid', hhas, hsmall, rfl⟩
  rw [hid, Except.ok.injEq] at hid'
  subst hid'
  constructor
  · rintro ⟨hpayload, header, text', hhas', hlength⟩
    have hjson := hhas'.json
    rw [hhas.json, Except.ok.injEq] at hjson
    subst hjson
    have htext := hhas'.text
    rw [hhas.text, Except.ok.injEq] at htext
    subst htext
    have hdecode := decode_written hinflate hd.built (Dataset.packs_of_datasetId hid) hlength
      (hloads _ _ hhas) hpayload
    rw [decodeBlob, hdecode]
    exact bind_eq_ok_iff.mpr ⟨_, rfl, bind_eq_ok_iff.mpr ⟨id, hid, if_pos rfl⟩⟩
  · intro d' h
    rcases bind_eq_ok_iff.mp h with ⟨found, hfound, -⟩
    have hdecode := mapError_eq_ok_iff.mp hfound
    have hlength : text.length ≤ maxHeader := by
      by_contra hlong
      rw [decode_long_header (not_le.mp hlong) hsmall] at hdecode
      cases hdecode
    refine ⟨?_, _, text, hhas, hlength⟩
    rw [decode_parts hlength] at hdecode
    rcases bind_eq_ok_iff.mp hdecode with ⟨header, hheader, hrest⟩
    rw [readHeader_blobHeader (hloads _ _ hhas), Except.ok.injEq] at hheader
    subst hheader
    rcases bind_eq_ok_iff.mp hrest with ⟨total, htotal, -⟩
    rw [readTotal_blobHeader] at htotal
    split at htotal
    · assumption
    · cases htotal

end Reading

/-! ## The store -/

namespace DatasetStore

variable {store : DatasetStore} {sha256 : Bytes → String} {compress : List Bytes → Bytes}
variable {inflate : Bytes → ℕ → Except Builtin Inflated} {loads : Bytes → Except Builtin Json}
variable {files : Files} {id : String} {path : FilePath}

/-- Reading an id is decoding its file. -/
theorem get_eq_ok_iff (hpath : store.pathFor id = .ok path) {d : Dataset} :
    store.get sha256 inflate loads files id none = .ok d ↔
      ∃ blob, store.read files path = .ok blob ∧
        decodeBlob sha256 inflate loads blob id store.maxBytes = .ok d := by
  constructor
  · intro h
    rcases map_eq_ok_iff.mp h with ⟨⟨found, stored⟩, hverified, rfl⟩
    rcases bind_eq_ok_iff.mp hverified with ⟨path', hpath', hverified⟩
    rw [hpath, Except.ok.injEq] at hpath'
    subst hpath'
    rcases bind_eq_ok_iff.mp hverified with ⟨blob, hread, hverified⟩
    rcases map_eq_ok_iff.mp hverified with ⟨d, hdecode, hresult⟩
    cases hresult
    exact ⟨blob, hread, hdecode⟩
  · rintro ⟨blob, hread, hdecode⟩
    exact map_eq_ok_iff.mpr ⟨_, bind_eq_ok_iff.mpr ⟨path, hpath, bind_eq_ok_iff.mpr ⟨blob, hread,
      map_eq_ok_iff.mpr ⟨d, hdecode, rfl⟩⟩⟩, rfl⟩

/-- A file that was verified can be read. -/
theorem get_of_verifiedFile {stored : StoredDataset} (hpath : store.pathFor id = .ok path)
    (h : store.verifiedFile sha256 inflate loads files id path = .ok stored) :
    stored.datasetId = id ∧ ∃ blob d, store.get sha256 inflate loads files id none = .ok d ∧
      decodeBlob sha256 inflate loads blob id store.maxBytes = .ok d := by
  rcases bind_eq_ok_iff.mp h with ⟨blob, hread, h⟩
  rcases bind_eq_ok_iff.mp h with ⟨d, hdecode, hresult⟩
  cases hresult
  exact ⟨rfl, blob, d, (get_eq_ok_iff hpath).mpr ⟨blob, hread, hdecode⟩, hdecode⟩

/-- The file of a dataset is there already. -/
def Holds (store : DatasetStore) (sha256 : Bytes → String) (files : Files) (d : Dataset) : Prop :=
  ∃ id path, d.datasetId sha256 = .ok id ∧ store.pathFor id = .ok path ∧ files.get? path ≠ none

/-- A new file can be read when the limits of reading admit it. -/
theorem get_of_new (files : Files)
    (hinflate : ∀ chunks n, chunks.flatten.length < n →
      inflate (compress chunks) n = .ok ⟨chunks.flatten, true, [], []⟩)
    {d : Dataset} (hd : d.FromBuild)
    (hloads : ∀ header text, d.HasHeader sha256 header text → loads text = .ok header.sorted)
    (hid : d.datasetId sha256 = .ok id) (hpath : store.pathFor id = .ok path) {blob : Bytes}
    (hblob : store.limitedBlob sha256 compress d = .ok blob) :
    (Fits sha256 store.maxBytes d →
        store.get sha256 inflate loads (files.set path blob) id none = .ok d) ∧
      ∀ d', store.get sha256 inflate loads (files.set path blob) id none = .ok d' →
        Fits sha256 store.maxBytes d := by
  rcases bind_eq_ok_iff.mp hblob with ⟨blob', hencode, hlimit⟩
  split at hlimit
  · cases hlimit
  rename_i hsize
  cases hlimit
  have hread : store.read (files.set path blob) path = .ok blob := by
    rw [read, Dict.get?_set_self]
    exact if_neg hsize
  rcases decodeBlob_written hinflate hd hloads hencode hid store.maxBytes with ⟨hfits, honly⟩
  constructor
  · intro h
    exact (get_eq_ok_iff hpath).mpr ⟨blob, hread, hfits h⟩
  · intro d' h
    rcases (get_eq_ok_iff hpath).mp h with ⟨blob', hread', hdecode⟩
    rw [hread, Except.ok.injEq] at hread'
    subst hread'
    exact honly d' hdecode

/-- What was stored is returned when the file was there already, when the file of another writer
was kept, or when the limits of reading admit what was written. -/
theorem put_then_get (hsha : ∀ a b, sha256 a = sha256 b → a = b)
    (hinflate : ∀ chunks n, chunks.flatten.length < n →
      inflate (compress chunks) n = .ok ⟨chunks.flatten, true, [], []⟩)
    {d : Dataset} (hd : d.FromBuild)
    (hloads : ∀ header text, d.HasHeader sha256 header text → loads text = .ok header.sorted)
    {rename : Rename} {stored : StoredDataset} {files' : Files}
    (h : store.put sha256 compress inflate loads files rename d = .ok (stored, files')) :
    (∃ d', store.get sha256 inflate loads files' stored.datasetId none = .ok d' ∧
        d.SameContent d') ↔
      store.Holds sha256 files d ∨ rename ≠ .done ∨ Fits sha256 store.maxBytes d := by
  rcases bind_eq_ok_iff.mp h with ⟨id, hid, h⟩
  rcases bind_eq_ok_iff.mp h with ⟨path, hpath, h⟩
  have hid := mapError_eq_ok_iff.mp hid
  have hpath := mapError_eq_ok_iff.mp hpath
  have hkept : ∀ {files : Files} {stored : StoredDataset},
      store.verifiedFile sha256 inflate loads files id path = .ok stored →
        ∃ d', store.get sha256 inflate loads files stored.datasetId none = .ok d' ∧
          d.SameContent d' := by
    intro files stored hverified
    rcases get_of_verifiedFile hpath hverified with ⟨hstored, blob, d', hget, hdecode⟩
    rw [hstored]
    exact ⟨d', hget, sameContent_of_decodeBlob hsha hd hid hdecode⟩
  cases hfile : files.get? path with
  | some blob =>
    rw [hfile] at h
    rcases map_eq_ok_iff.mp h with ⟨stored', hverified, hresult⟩
    cases hresult
    have hholds : store.Holds sha256 files d :=
      ⟨id, path, hid, hpath, by rw [hfile]; exact fun h => by cases h⟩
    exact iff_of_true (hkept (mapError_eq_ok_iff.mp hverified)) (Or.inl hholds)
  | none =>
    rw [hfile] at h
    rcases bind_eq_ok_iff.mp h with ⟨blob, hblob, h⟩
    have hblob := mapError_eq_ok_iff.mp hblob
    have hnew : ¬store.Holds sha256 files d := by
      rintro ⟨id', path', hid', hpath', hfile'⟩
      rw [hid, Except.ok.injEq] at hid'
      subst hid'
      rw [hpath, Except.ok.injEq] at hpath'
      subst hpath'
      exact hfile' hfile
    cases rename with
    | done =>
      cases h
      rcases get_of_new files hinflate hd hloads hid hpath hblob with ⟨hfits, honly⟩
      constructor
      · rintro ⟨d', hget, -⟩
        exact Or.inr (Or.inr (honly d' hget))
      · rintro (hholds | hother | hall)
        · exact absurd hholds hnew
        · exact absurd rfl hother
        · exact ⟨d, hfits hall, rfl, fun _ => Iff.rfl⟩
    | refused theirs =>
      cases theirs with
      | none => cases h
      | some theirs =>
        rcases map_eq_ok_iff.mp h with ⟨stored', hverified, hresult⟩
        cases hresult
        exact iff_of_true (hkept (mapError_eq_ok_iff.mp hverified))
          (Or.inr (Or.inl fun h => by cases h))

end DatasetStore

/-! ## Missing prices compress well -/

/-- Eighty days. -/
def quietDays : List Cell :=
  (List.range 80).map fun n => .int n

/-- A table of days without a closing price. -/
def quietTable : Table where
  schema := sampleBars
  columns := [("day", quietDays), ("close", List.replicate 80 .null)]

/-- The values that the table is made of. -/
def quietData : Dict String Values where
  items := [("day", .objects ((List.range 80).map fun n => .date n)),
    ("close", .objects (List.replicate 80 .none))]
  nodup := by decide

/-- A dataset of the days. -/
def quietDataset : Dataset where
  identity := sampleIdentity
  tables := [quietTable]
  valid := by decide

/-- The payload of the days. -/
def quietPayload : Bytes :=
  (List.range 80).flatMap (fun n => leBytes 4 n) ++ List.replicate 720 0

/-- The payload as zlib compresses it. -/
def quietZlib : Bytes :=
  [120, 156, 237, 195, 135, 86, 1, 80, 0, 0, 208, 103, 132, 68, 180, 140, 82, 180, 247, 32, 68,
    42, 35, 37, 161, 254, 255, 111, 186, 223, 209, 113, 207, 185, 33, 132, 16, 49, 106, 204, 184,
    43, 38, 76, 154, 114, 213, 180, 107, 102, 204, 186, 110, 206, 188, 27, 110, 186, 229, 182, 59,
    22, 44, 90, 178, 236, 174, 123, 86, 220, 247, 192, 170, 53, 15, 61, 242, 216, 19, 79, 61, 243,
    220, 11, 47, 189, 242, 218, 27, 111, 189, 243, 222, 7, 235, 54, 124, 180, 105, 203, 182, 79,
    118, 236, 250, 108, 207, 23, 95, 125, 179, 239, 192, 161, 35, 223, 29, 251, 225, 167, 19, 191,
    156, 250, 237, 204, 185, 11, 127, 252, 13, 75, 75, 255, 203, 31, 242, 249, 12, 89]

/-- The id of the days. -/
def quietId : String :=
  "qs-ds-sha256-v1:f6062dacab6eb069c287249268e4925612455725b11cc5888c42584f1c763f76"

/-- The header of the days. -/
def quietHeader : Json :=
  blobHeader sampleIdentity quietId (quietDataset.tables.map fun t => (t, t.chunks))

/-- The header as it is written. -/
def quietHeaderText : Bytes :=
  encodeChars (canonicalStyle.render quietHeader.sorted)

/-- The blob of the days. -/
def quietBlob : Bytes :=
  blobMagic ++ (leBytes 8 quietHeaderText.length ++ (quietHeaderText ++ quietZlib))

/-- SHA-256 of the encodings, of the manifests and of the blob of the days. -/
def quietDigests : List (Bytes × ℕ) :=
  [((List.range 80).flatMap fun n => leBytes 4 n,
      0xbd4afa54cbf5713176c09d62e78f5333953fad6545573a4d0047c5deca6145c8),
    (List.replicate 720 0, 0xfe2f74a1e0b16a66452888eb4d734bc455cf1304481bb495d59afa8cf9cae93b),
    (utf8 ("\x7b\"columns\":[\x7b\"name\":\"day\",\"nullable\":false,\"sha256\":" ++
        "\"bd4afa54cbf5713176c09d62e78f5333953fad6545573a4d0047c5deca6145c8\"," ++
        "\"type\":\"date32\"\x7d,\x7b\"name\":\"close\",\"nullable\":true,\"sha256\":" ++
        "\"fe2f74a1e0b16a66452888eb4d734bc455cf1304481bb495d59afa8cf9cae93b\"," ++
        "\"type\":\"float64\"\x7d],\"key\":[\"day\"],\"rows\":80," ++
        "\"scheme\":\"qs-col-sha256-v1\"\x7d"),
      0x85657747b05d93a12a05c004acba2aef1f1548fdb00324b642e9ceb2dad5f200),
    (utf8 ("\x7b\"identity\":\x7b\"adjustment\":\"raw\",\"family\":\"daily\"," ++
        "\"frequency\":\"1d\",\"licence_id\":\"l\",\"provider\":\"p\"," ++
        "\"session_boundary\":\"utc\",\"survivorship\":\"all\"\x7d," ++
        "\"scheme\":\"qs-ds-sha256-v1\",\"tables\":\x7b\"bars\":" ++
        "\"85657747b05d93a12a05c004acba2aef1f1548fdb00324b642e9ceb2dad5f200\"\x7d\x7d"),
      0xf6062dacab6eb069c287249268e4925612455725b11cc5888c42584f1c763f76),
    (quietBlob, 0xcb1e4aeaa26eb816b24860021ce1a5e65989fa08cfae6edc5197d1b8c5acce31)]

/-- A hash without collisions that is SHA-256 on these bytes. -/
def quietSha256 : Bytes → String :=
  Digests.hash ⟨quietDigests, by decide, by decide⟩

/-- `json.loads` on the header of the days. -/
abbrev quietLoads : Bytes → Except Builtin Json :=
  knownLoads quietHeaderText quietHeader.sorted

/-- A store whose limit is between the blob and the payload. -/
def quietStore : DatasetStore where
  root := "datasets"
  maxBytes := 800

/-- The place of the file. -/
def quietPath : FilePath :=
  ["datasets", "qs-ds-sha256-v1", "f6",
    "f6062dacab6eb069c287249268e4925612455725b11cc5888c42584f1c763f76"]

/-- The parts of the days, evaluated together. -/
theorem quiet_evaluated :
    quietHeaderText.length = 472 ∧ Table.build sampleBars quietData = .ok quietTable ∧
      canonicalError quietHeader = none ∧ quietStore.pathFor quietId = .ok quietPath ∧
        quietDataset.payload = quietPayload ∧ quietZlib.length = 140 ∧
          ¬quietDataset.payload.length ≤ quietStore.maxBytes := by
  decide +kernel

theorem length_quietHeaderText : quietHeaderText.length = 472 :=
  quiet_evaluated.1

theorem quiet_tableHash : quietTable.tableHash quietSha256 =
      .ok "85657747b05d93a12a05c004acba2aef1f1548fdb00324b642e9ceb2dad5f200" := by
  simp only [Table.tableHash, Table.manifest, canonicalJson_eq, Table.columnDigest, quietSha256,
    Digests.hash, quietDigests, utf8_append]
  decide +kernel

/-- The days have this id. -/
theorem quiet_datasetId : quietDataset.datasetId quietSha256 = .ok quietId := by
  have hentries : quietDataset.tables.mapM (fun t => Dataset.tableEntry quietSha256 t) =
      .ok [("bars", .str "85657747b05d93a12a05c004acba2aef1f1548fdb00324b642e9ceb2dad5f200")] := by
    refine mapM_eq_ok_iff.mpr (List.Forall₂.cons ?_ List.Forall₂.nil)
    rw [Dataset.tableEntry, quiet_tableHash]
    rfl
  rw [Dataset.datasetId, Dataset.manifest, hentries]
  simp only [canonicalJson_eq, quietSha256, Digests.hash, quietDigests, utf8_append]
  decide +kernel

theorem quiet_fromBuild : quietDataset.FromBuild := by
  obtain ⟨-, hbuild, -⟩ := quiet_evaluated
  intro t ht
  rw [List.mem_singleton.mp ht]
  exact ⟨_, _, hbuild⟩

/-- The header of the days, with its text. -/
theorem quiet_hasHeader : quietDataset.HasHeader quietSha256 quietHeader quietHeaderText :=
  Dataset.hasHeader_of_id quiet_datasetId rfl quiet_evaluated.2.2.1

theorem quiet_pathFor : quietStore.pathFor quietId = .ok quietPath :=
  quiet_evaluated.2.2.2.1

/-- The blob of the days is within the limit of the store. -/
theorem quiet_limitedBlob : quietStore.limitedBlob quietSha256
    (knownCompress quietPayload quietZlib) quietDataset = .ok quietBlob := by
  have hsmall : quietHeaderText.length ≤ maxHeader := by
    rw [length_quietHeaderText]
    decide
  obtain ⟨tables, htables, hencode⟩ :=
    encodeBlob_eq (knownCompress quietPayload quietZlib) quiet_hasHeader hsmall
  obtain ⟨-, -, -, -, hsame, hzlib, -⟩ := quiet_evaluated
  have hpayload : (allChunks tables).flatten = quietPayload := by
    rw [← hsame]
    exact (Dataset.payload_of_datasetId quiet_datasetId _).mp ⟨tables, htables, rfl⟩
  rw [knownCompress, if_pos hpayload] at hencode
  have hlength : quietBlob.length = 628 := by
    have hmagic : blobMagic.length = 8 := rfl
    rw [quietBlob, List.length_append, List.length_append, List.length_append, length_leBytes,
      length_quietHeaderText, hzlib, hmagic]
  have hfits : ¬quietStore.maxBytes < quietBlob.length := by
    rw [hlength]
    decide
  exact bind_eq_ok_iff.mpr ⟨quietBlob, hencode, if_neg hfits⟩

/-- The days are stored. -/
theorem quiet_put : quietStore.put quietSha256 (knownCompress quietPayload quietZlib)
    (knownInflate quietPayload quietZlib) quietLoads Dict.empty .done quietDataset =
      .ok (⟨quietId, quietPath, quietSha256 quietBlob, quietBlob.length⟩,
        Dict.empty.set quietPath quietBlob) :=
  bind_eq_ok_iff.mpr ⟨quietId, mapError_eq_ok_iff.mpr quiet_datasetId,
    bind_eq_ok_iff.mpr ⟨quietPath, mapError_eq_ok_iff.mpr quiet_pathFor,
      bind_eq_ok_iff.mpr ⟨quietBlob, mapError_eq_ok_iff.mpr quiet_limitedBlob, rfl⟩⟩⟩

/-- The days are stored and never read again. -/
theorem stored_and_refused : quietDataset.FromBuild ∧
    ∃ stored files, quietStore.put quietSha256 (knownCompress quietPayload quietZlib)
      (knownInflate quietPayload quietZlib) quietLoads Dict.empty .done quietDataset =
        .ok (stored, files) ∧
      ∀ d, quietStore.get quietSha256 (knownInflate quietPayload quietZlib) quietLoads files
        stored.datasetId none ≠ .ok d := by
  have hhead : quietZlib.head? ≠ some 0 := by decide
  refine ⟨quiet_fromBuild, _, _, quiet_put, fun d hget => ?_⟩
  obtain ⟨-, -, -, -, -, -, hlong⟩ := quiet_evaluated
  have hfits := (DatasetStore.get_of_new Dict.empty (knownInflate_compress hhead)
    quiet_fromBuild (knownLoads_header quiet_hasHeader) quiet_datasetId quiet_pathFor quiet_limitedBlob).2 d hget
  exact hlong hfits.payload

/-- Storing the days. -/
theorem put_then_get_quiet :
    (∃ d', quietStore.get quietSha256 (knownInflate quietPayload quietZlib) quietLoads
        (Dict.empty.set quietPath quietBlob) quietId none = .ok d' ∧
          quietDataset.SameContent d') ↔
      quietStore.Holds quietSha256 Dict.empty quietDataset ∨ Rename.done ≠ .done ∨
        Fits quietSha256 quietStore.maxBytes quietDataset := by
  have hhead : quietZlib.head? ≠ some 0 := by decide
  have h := DatasetStore.put_then_get (Digests.hash_injective _) (knownInflate_compress hhead)
    quiet_fromBuild (knownLoads_header quiet_hasHeader) quiet_put
  exact h

end QuantumSentinel.Datasets
