import Mathlib.Data.List.MinMax
import QuantumSentinel.Lib.Base64
import QuantumSentinel.Lib.Digests
import QuantumSentinel.Lib.IsoTime
import QuantumSentinel.Lib.Json

/-!
# The audit chain: rows, writer and verifier

The tables `audit_logs` and `audit_chain_links`, the transaction that appends to
them and the pure parts of the check in `security_service.py`.  A link holds the hash
of its event and of the link before it, and a signature of that hash.

Main results:

- Definition `insertChainLinks`: the transaction of the writer.
- Definition `linkFailure`: why a link fails, in the order of the tests.
- Theorem `chainLinks_append`: batches continue one chain.

Current gaps:

- The payload of a pending event is the value `json.loads` reads back from its text.
- A public key of the wrong length, for which `dsa_verify` raises, is up to the
  parameter that stands for it.
-/

namespace QuantumSentinel.Audit

open Lib
open JsonText (wide)

/-- The `id` of an event. -/
abbrev LogId := String

/-! ## Tables -/

instance : DecidableEq WideJson := fun v w =>
  decidable_of_iff (JsonStyle.render ⟨true, false⟩ v = JsonStyle.render ⟨true, false⟩ w)
    ⟨JsonStyle.render_injective, congrArg _⟩

/-- `AuditLog`; a column with the JSON value null reads like one without a value. -/
structure AuditLog where
  id : LogId
  userId : Option String
  action : String
  resourceType : Option String
  resourceId : Option String
  metadataJson : WideJson
  pqcSignature : Option String
  signingKeyId : Option String
  createdAt : Option DateTime
deriving DecidableEq

/-- `AuditChainLink` -/
structure AuditChainLink where
  id : String
  sequence : ℤ
  auditLogId : LogId
  previousHash : String
  entryHash : String
  checkpointSignature : String
  signingKeyId : Option String
  createdAt : Option DateTime
deriving DecidableEq

/-- The rows of the two tables, in the order of their insertion, and the known users. -/
structure Tables where
  users : List String
  logs : List AuditLog
  links : List AuditChainLink

namespace Tables

/-- The unique columns. -/
structure Unique (t : Tables) : Prop where
  logId : (t.logs.map AuditLog.id).Nodup
  linkId : (t.links.map AuditChainLink.id).Nodup
  sequence : (t.links.map AuditChainLink.sequence).Nodup
  auditLogId : (t.links.map AuditChainLink.auditLogId).Nodup
  entryHash : (t.links.map AuditChainLink.entryHash).Nodup

/-- The unique columns and the foreign keys. -/
structure Constrained (t : Tables) : Prop extends Unique t where
  user : ∀ log ∈ t.logs, ∀ user ∈ log.userId, user ∈ t.users
  auditLog : ∀ link ∈ t.links, link.auditLogId ∈ t.logs.map AuditLog.id

instance (t : Tables) : Decidable t.Unique :=
  decidable_of_iff ((t.logs.map AuditLog.id).Nodup ∧ (t.links.map AuditChainLink.id).Nodup ∧
    (t.links.map AuditChainLink.sequence).Nodup ∧
    (t.links.map AuditChainLink.auditLogId).Nodup ∧
    (t.links.map AuditChainLink.entryHash).Nodup)
    ⟨fun ⟨h₁, h₂, h₃, h₄, h₅⟩ => ⟨h₁, h₂, h₃, h₄, h₅⟩,
      fun h => ⟨h.logId, h.linkId, h.sequence, h.auditLogId, h.entryHash⟩⟩

instance (t : Tables) : Decidable t.Constrained :=
  decidable_of_iff (t.Unique ∧ (∀ log ∈ t.logs, ∀ user ∈ log.userId, user ∈ t.users) ∧
    ∀ link ∈ t.links, link.auditLogId ∈ t.logs.map AuditLog.id)
    ⟨fun ⟨h₁, h₂, h₃⟩ => ⟨h₁, h₂, h₃⟩, fun h => ⟨h.toUnique, h.user, h.auditLog⟩⟩

end Tables

/-! ## Hashes -/

/-- The hash and the signature scheme. -/
structure Crypto where
  /-- `hashlib.sha256(...).hexdigest()` -/
  sha256 : Bytes → String
  /-- the signature with a secret key -/
  dsaSign : Bytes → Bytes → Bytes
  /-- whether a signature verifies under a public key, or the exception -/
  dsaVerify : Bytes → Bytes → Bytes → Except String Bool

/-- The hash the first link points at. -/
def genesisHash : String :=
  String.ofList (List.replicate 64 '0')

/-- A text or null. -/
def textJson : Option String → WideJson
  | some s => .str (wide s)
  | none => .null

/-- `x or {}` -/
def orEmpty : WideJson → WideJson
  | .null | .bool false | .int 0 | .str ⟨[]⟩ | .arr [] => .obj []
  | .float value =>
    if value.text ∈ [['0', '.', '0'], ['-', '0', '.', '0']] then .obj [] else .float value
  | v => v

/-- What an event says. -/
def eventPayload (action : String) (userId resourceType resourceId : Option String)
    (metadata : WideJson) : WideJson :=
  .obj [(wide "action", .str (wide action)), (wide "user_id", textJson userId),
    (wide "resource_type", textJson resourceType), (wide "resource_id", textJson resourceId),
    (wide "metadata", metadata)]

/-- `_chain_timestamp` -/
def chainTimestamp : Option DateTime → List Char
  | none => []
  | some t => isoformat t ++ offsetText 0

/-- `_legacy_chain_timestamps` -/
def legacyChainTimestamps (serverTz : Option Zone) : Option DateTime → List (List Char)
  | none => []
  | some t =>
    isoformat t :: match serverTz with
      | none => []
      | some zone => [isoformat (zone.astimezone t).1 ++ offsetText (zone.astimezone t).2]

/-- The record a chain hash is taken of. -/
def chainRecord (auditLogId : LogId) (createdAt : List Char) (payload : WideJson)
    (previousHash : String) : WideJson :=
  .obj [(wide "audit_log_id", .str (wide auditLogId)),
    (wide "created_at", .str (wide (String.ofList createdAt))), (wide "payload", payload),
    (wide "previous_hash", .str (wide previousHash))]

/-- How the record is written: sorted and compact. -/
def compactAscii : JsonStyle where
  ensureAscii := true
  spaced := false

/-- `_chain_hash` -/
def chainHash (crypto : Crypto) (auditLogId : LogId) (createdAt : List Char)
    (payload : WideJson) (previousHash : String) : String :=
  crypto.sha256 (encodeChars
    ((chainRecord auditLogId createdAt payload previousHash).dumps compactAscii))

/-- `pqc.b64` -/
def b64 (data : Bytes) : String :=
  String.ofList (b64encode data)

/-- `pqc.unb64` -/
def unb64 (data : String) : Except String Bytes :=
  match b64decode data.toList with
  | some bytes => .ok bytes
  | none => .error "Incorrect padding"

theorem unb64_b64 (data : Bytes) : unb64 (b64 data) = .ok data := by
  rw [unb64, b64, String.toList_ofList, b64decode_b64encode]

/-! ## Writing -/

/-- `_PendingAudit`, without the two fields that report the outcome. -/
structure PendingAudit where
  logId : LogId
  userId : Option String
  action : String
  resourceType : Option String
  resourceId : Option String
  metadata : WideJson
  payload : WideJson
  signature : String
  signingKeyId : Option String

/-- `ServerIdentity` -/
structure ServerIdentity where
  keyId : Option String
  dsaPk : Bytes
  dsaSk : Bytes
deriving Inhabited

/-- The event `write_audit_log` hands to the appender; its id comes from
`gen_uuid`. -/
def pendingAudit (crypto : Crypto) (server : ServerIdentity) (logId : LogId)
    (userId : Option String) (action : String) (resourceType resourceId : Option String)
    (metadata : WideJson) : PendingAudit :=
  let payload := eventPayload action userId resourceType resourceId (orEmpty metadata)
  let text := encodeChars (payload.dumps ⟨true, true⟩)
  { logId := logId, userId := userId, action := action, resourceType := resourceType
    resourceId := resourceId, metadata := orEmpty metadata, payload := payload.sorted
    signature := b64 (crypto.dsaSign server.dsaSk text), signingKeyId := server.keyId }

/-- What the writer reads for an event: its own identity, the clock and `gen_uuid`. -/
structure Reading where
  server : ServerIdentity
  createdAt : DateTime
  linkId : String
  linkCreatedAt : DateTime
deriving Inhabited

/-- An event with what the writer read for it. -/
structure Written extends Reading where
  pending : PendingAudit

namespace Written

variable (crypto : Crypto)

/-- The hash of the entry behind a link with some hash. -/
def hashAfter (previousHash : String) (w : Written) : String :=
  chainHash crypto w.pending.logId (chainTimestamp (some w.createdAt)) w.pending.payload
    previousHash

/-- The row of the event. -/
def log (w : Written) : AuditLog where
  id := w.pending.logId
  userId := w.pending.userId
  action := w.pending.action
  resourceType := w.pending.resourceType
  resourceId := w.pending.resourceId
  metadataJson := w.pending.metadata
  pqcSignature := some w.pending.signature
  signingKeyId := w.pending.signingKeyId
  createdAt := some w.createdAt

/-- The row of the link. -/
def link (sequence : ℤ) (previousHash : String) (w : Written) : AuditChainLink where
  id := w.linkId
  sequence := sequence
  auditLogId := w.pending.logId
  previousHash := previousHash
  entryHash := w.hashAfter crypto previousHash
  checkpointSignature :=
    b64 (crypto.dsaSign w.server.dsaSk (utf8 (w.hashAfter crypto previousHash)))
  signingKeyId := w.pending.signingKeyId
  createdAt := some w.linkCreatedAt

end Written

/-- The links `_insert_chain_links` builds behind a head. -/
def chainLinks (crypto : Crypto) : ℤ → String → List Written → List AuditChainLink
  | _, _, [] => []
  | sequence, previousHash, w :: rest =>
    w.link crypto (sequence + 1) previousHash ::
      chainLinks crypto (sequence + 1) (w.hashAfter crypto previousHash) rest

/-- The order of the sequence numbers. -/
local instance sequenceOrder : Preorder ℤ :=
  Int.instLinearOrder.toPreorder

/-- The head of the chain: `ORDER BY sequence DESC LIMIT 1`. -/
def chainHead (links : List AuditChainLink) : ℤ × String :=
  match links.argmax AuditChainLink.sequence with
  | some link => (link.sequence, link.entryHash)
  | none => (0, genesisHash)

/-- The tables with the rows of a batch. -/
def Tables.insert (crypto : Crypto) (t : Tables) (batch : List Written) : Tables :=
  let head := chainHead t.links
  { t with
    logs := t.logs ++ batch.map Written.log
    links := t.links ++ chainLinks crypto head.1 head.2 batch }

/-- `_insert_chain_links`: one transaction under the lock of the chain.  A fault is an
exception of the database or the signer, after which everything is rolled back. -/
def insertChainLinks (crypto : Crypto) (fault : Option String) (t : Tables)
    (batch : List Written) : Except String Tables :=
  match fault with
  | some error => .error error
  | none =>
    if (t.insert crypto batch).Constrained then .ok (t.insert crypto batch)
    else .error "IntegrityError"

/-! ## Checking -/

/-- Why a link fails. -/
inductive LinkFailure
  | eventMissing
  | wrongPredecessor
  | noVerificationKey
  | contentMismatch
  | signatureInvalid
deriving DecidableEq, Repr

/-- The text of the reason. -/
def LinkFailure.reason : LinkFailure → String
  | .eventMissing => "audit event missing"
  | .wrongPredecessor => "link does not point at the preceding link"
  | .noVerificationKey => "no verification key"
  | .contentMismatch => "event content does not match its link hash"
  | .signatureInvalid => "checkpoint signature invalid"

/-- The keys of a check: the table `server_signing_keys` as read, and the key of the
process. -/
structure Keyring where
  keys : List (String × Bytes)
  dsaPk : Option Bytes
deriving DecidableEq

/-- `keys.get(signing_key_id) or server_identity.dsa_pk` -/
def Keyring.verificationKey (ring : Keyring) (signingKeyId : Option String) : Option Bytes :=
  match signingKeyId.bind fun id => Dict.lookup id ring.keys with
  | some pk => if pk = [] then ring.dsaPk else some pk
  | none => ring.dsaPk

/-- A link joined with its event. -/
structure LinkRow where
  link : AuditChainLink
  event : Option AuditLog
deriving DecidableEq

/-- The hashes that an event may have behind a predecessor: the timestamp in its present
form, then in the ones of earlier releases. -/
def acceptedHashes (crypto : Crypto) (serverTz : Option Zone) (event : AuditLog)
    (previousHash : String) : List String :=
  let payload := eventPayload event.action event.userId event.resourceType event.resourceId
    (orEmpty event.metadataJson)
  (chainTimestamp event.createdAt :: legacyChainTimestamps serverTz event.createdAt).map
    fun stamp => chainHash crypto event.id stamp payload previousHash

/-- `_link_failure` -/
def linkFailure (crypto : Crypto) (ring : Keyring) (serverTz : Option Zone)
    (previousHash : String) (row : LinkRow) : Except String (Option LinkFailure) :=
  match row.event with
  | none => .ok (some .eventMissing)
  | some event =>
    if row.link.previousHash ≠ previousHash then .ok (some .wrongPredecessor)
    else
      match ring.verificationKey row.link.signingKeyId with
      | none => .ok (some .noVerificationKey)
      | some pk =>
        if row.link.entryHash ∉ acceptedHashes crypto serverTz event previousHash then
          .ok (some .contentMismatch)
        else do
          let signature ← unb64 row.link.checkpointSignature
          let valid ← crypto.dsaVerify pk (utf8 row.link.entryHash) signature
          if valid then .ok none else .ok (some .signatureInvalid)

/-- The links behind a sequence number in their order, each with its event. -/
def Tables.rowsAfter (t : Tables) (after : ℤ) : List LinkRow :=
  ((t.links.filter fun link => after < link.sequence).insertionSort
    fun link link' => link.sequence ≤ link'.sequence).map fun link =>
      ⟨link, t.logs.find? fun log => log.id = link.auditLogId⟩

/-- What the loop over the links ends with: the first failing link and the last one before
it. -/
structure Walked where
  failure : Option (ℤ × LinkFailure)
  last : Option (ℤ × String)
deriving DecidableEq

/-- The loop over the links. -/
def walk (check : String → LinkRow → Except String (Option LinkFailure)) :
    String → Option (ℤ × String) → List LinkRow → Except String Walked
  | _, last, [] => .ok ⟨none, last⟩
  | previousHash, last, row :: rest => do
      match ← check previousHash row with
      | some failure => .ok ⟨some (row.link.sequence, failure), last⟩
      | none =>
        walk check row.link.entryHash (some (row.link.sequence, row.link.entryHash)) rest

/-- The number of links. -/
def Tables.linkCount (t : Tables) : ℕ :=
  t.links.length

/-- The number of events without a link. -/
def Tables.unchainedCount (t : Tables) : ℕ :=
  (t.logs.filter fun log => !t.links.any fun link => link.auditLogId = log.id).length

/-! ## Batches -/

section Batches

variable (crypto : Crypto)

/-- The hash a batch ends with. -/
def lastHash (previousHash : String) (batch : List Written) : String :=
  batch.foldl (fun hash w => w.hashAfter crypto hash) previousHash

@[simp]
theorem length_chainLinks (sequence : ℤ) (previousHash : String) (batch : List Written) :
    (chainLinks crypto sequence previousHash batch).length = batch.length := by
  induction batch generalizing sequence previousHash with
  | nil => rfl
  | cons w rest ih => rw [chainLinks, List.length_cons, ih, List.length_cons]

/-- Batches continue one chain. -/
theorem chainLinks_append (sequence : ℤ) (previousHash : String) (batch batch' : List Written) :
    chainLinks crypto sequence previousHash (batch ++ batch') =
      chainLinks crypto sequence previousHash batch ++
        chainLinks crypto (sequence + batch.length) (lastHash crypto previousHash batch)
          batch' := by
  induction batch generalizing sequence previousHash with
  | nil =>
    rw [List.nil_append, chainLinks, List.nil_append, List.length_nil, Nat.cast_zero, add_zero]
    rfl
  | cons w rest ih =>
    have hlength : sequence + 1 + (rest.length : ℤ) = sequence + ((w :: rest).length : ℕ) := by
      rw [List.length_cons]
      push_cast
      ring
    rw [List.cons_append, chainLinks, chainLinks, ih, List.cons_append, hlength]
    rfl

/-- The sequence numbers of a batch. -/
theorem map_sequence_chainLinks (sequence : ℤ) (previousHash : String) (batch : List Written) :
    (chainLinks crypto sequence previousHash batch).map AuditChainLink.sequence =
      (List.range batch.length).map fun i : ℕ => sequence + 1 + i := by
  induction batch generalizing sequence previousHash with
  | nil => rfl
  | cons w rest ih =>
    rw [chainLinks, List.map_cons, ih, List.length_cons, List.range_succ_eq_map, List.map_cons,
      List.map_map]
    congr 1
    · exact (add_zero _).symm
    · apply List.map_congr_left
      intro i _
      simp only [Function.comp_apply]
      push_cast
      ring

theorem map_auditLogId_chainLinks (sequence : ℤ) (previousHash : String)
    (batch : List Written) :
    (chainLinks crypto sequence previousHash batch).map AuditChainLink.auditLogId =
      batch.map fun w => w.pending.logId := by
  induction batch generalizing sequence previousHash with
  | nil => rfl
  | cons w rest ih =>
    rw [chainLinks, List.map_cons, ih, List.map_cons]
    rfl

/-- Each link holds the hash of the link before it. -/
theorem map_previousHash_chainLinks (sequence : ℤ) (previousHash : String)
    (batch : List Written) :
    (chainLinks crypto sequence previousHash batch).map AuditChainLink.previousHash =
      (previousHash :: (chainLinks crypto sequence previousHash batch).map
        AuditChainLink.entryHash).take batch.length := by
  induction batch generalizing sequence previousHash with
  | nil => rfl
  | cons w rest ih =>
    rw [chainLinks, List.map_cons, ih, List.map_cons, List.length_cons, List.take_succ_cons]
    rfl

/-- The last link of a batch is its head. -/
theorem chainHead_chainLinks (batch : List Written) :
    chainHead (chainLinks crypto 0 genesisHash batch) =
      ((batch.length : ℤ), lastHash crypto genesisHash batch) := by
  induction batch using List.reverseRecOn with
  | nil => rfl
  | append_singleton rest w _ =>
    let last := w.link crypto (0 + (rest.length : ℤ) + 1) (lastHash crypto genesisHash rest)
    have hlinks : chainLinks crypto 0 genesisHash (rest ++ [w]) =
        chainLinks crypto 0 genesisHash rest ++ [last] := by
      rw [chainLinks_append]
      rfl
    have hbefore : ∀ link ∈ chainLinks crypto 0 genesisHash rest,
        link.sequence < last.sequence := by
      intro link hlink
      have hmem := List.mem_map_of_mem (f := AuditChainLink.sequence) hlink
      rw [map_sequence_chainLinks, List.mem_map] at hmem
      rcases hmem with ⟨i, hi, hsequence⟩
      have hi' := List.mem_range.mp hi
      have hlast : last.sequence = 0 + (rest.length : ℤ) + 1 := rfl
      omega
    have hmax : (chainLinks crypto 0 genesisHash (rest ++ [w])).argmax
        AuditChainLink.sequence = some last := by
      rw [hlinks, List.argmax_concat]
      cases hrest : (chainLinks crypto 0 genesisHash rest).argmax AuditChainLink.sequence with
      | none => rfl
      | some top =>
        have htop := hbefore top (List.argmax_mem hrest)
        exact if_pos htop
    rw [chainHead, hmax, List.length_append, List.length_singleton]
    simp only [lastHash, List.foldl_append, List.foldl_cons, List.foldl_nil]
    have hsequence : last.sequence = ((rest.length + 1 : ℕ) : ℤ) := by
      have hlast : last.sequence = 0 + (rest.length : ℤ) + 1 := rfl
      push_cast
      omega
    exact Prod.ext hsequence rfl

/-- The tables an honest history leaves: its events and its links, in order. -/
structure Tables.WrittenBy (written : List Written) (t : Tables) : Prop where
  logs : t.logs = written.map Written.log
  links : t.links = chainLinks crypto 0 genesisHash written

/-- A batch continues the history. -/
theorem Tables.WrittenBy.insert {written : List Written} {t : Tables}
    (h : t.WrittenBy crypto written) (batch : List Written) :
    (t.insert crypto batch).WrittenBy crypto (written ++ batch) := by
  constructor
  case logs => rw [Tables.insert, h.logs, List.map_append]
  case links =>
    rw [Tables.insert, h.links, chainHead_chainLinks, chainLinks_append, zero_add]

/-- What a successful transaction did. -/
theorem insertChainLinks_eq_ok {fault : Option String} {t t' : Tables} {batch : List Written}
    (h : insertChainLinks crypto fault t batch = .ok t') :
    t' = t.insert crypto batch ∧ t'.Constrained := by
  unfold insertChainLinks at h
  split at h
  · cases h
  · split at h
    · rename_i hconstrained
      cases h
      exact ⟨rfl, hconstrained⟩
    · cases h

end Batches

/-! ## Sample events -/

/-- The key of the process. -/
def sampleServer : ServerIdentity where
  keyId := some "k1"
  dsaPk := [1, 2, 3]
  dsaSk := [1, 2, 3]

/-- What the writer reads. -/
def sampleReading (linkId : String) : Reading where
  server := sampleServer
  createdAt := ⟨2026, 1, 1, 0, 0, 0, 0, by decide⟩
  linkId := linkId
  linkCreatedAt := ⟨2026, 1, 1, 0, 0, 0, 1, by decide⟩

/-- The record of the first event. -/
def sampleRecord : WideJson :=
  chainRecord "e1" (chainTimestamp (some (sampleReading "l1").createdAt))
    (eventPayload "login" none none none (.obj [])).sorted genesisHash

/-- SHA-256 of its text. -/
def sampleDigest : ℕ :=
  0x9159e1a588476d00fc29669ec72c674c48d4161a061be8df02347fae259c459a

/-- The record of the second event. -/
def nextRecord : WideJson :=
  chainRecord "e2" (chainTimestamp (some (sampleReading "l2").createdAt))
    (eventPayload "logout" none none none (.obj [])).sorted (hexdigest sampleDigest)

/-- SHA-256 of its text. -/
def nextDigest : ℕ :=
  0x542ef78f42e89f2e7ce22b0d41e2374af93d5adda8df533d9cf5ca7d8ab4c2c7

/-- A hash without collisions that is SHA-256 on the records. -/
def sampleSha256 : Bytes → String :=
  Digests.hash ⟨[(encodeChars (sampleRecord.dumps compactAscii), sampleDigest),
    (encodeChars (nextRecord.dumps compactAscii), nextDigest)], by decide, by decide⟩

end QuantumSentinel.Audit
