import QuantumSentinel.Audit.Status
import QuantumSentinel.Lib.Outcomes

/-!
# Tamper evidence of the audit chain

A chain hash names the event, its time and the link before it.  A link that passes the check
has the hash of an honest entry, since only those are signed, and so stands where the honest
entry stood: the links that are walked are the first ones of the history, with their events.

Main results:

- Theorem `chainHash_injective`: what a chain hash names.
- Theorem `passes_iff`: the walk passes the links of a prefix of the history only.
- Theorem `tamper_evident`: what a full check without findings says about the tables.

Current gaps:

- Entries that were signed and rolled back are taken to be unknown to whoever edits the
  tables.
-/

namespace QuantumSentinel.Audit

open Lib
open JsonText (wide)

/-! ## What a hash names -/

theorem textJson_injective {a b : Option String} (h : (textJson a).sorted = (textJson b).sorted) :
    a = b := by
  cases a with
  | none =>
    cases b with
    | none => rfl
    | some t => cases h
  | some s =>
    cases b with
    | none => cases h
    | some t =>
      rw [textJson, textJson, Json.sorted, Json.sorted, Json.str.injEq, JsonText.wide_inj] at h
      rw [h]

/-- The payload names what an event says, its metadata up to the order of members. -/
theorem eventPayload_injective {action action' : String}
    {userId userId' resourceType resourceType' resourceId resourceId' : Option String}
    {metadata metadata' : WideJson}
    (h : (eventPayload action userId resourceType resourceId metadata).sorted =
      (eventPayload action' userId' resourceType' resourceId' metadata').sorted) :
    action = action' ∧ userId = userId' ∧ resourceType = resourceType' ∧
      resourceId = resourceId' ∧ metadata.sorted = metadata'.sorted := by
  have hget := Json.get?_of_sorted_eq (by simp) (by simp) h
  have haction := hget (wide "action")
  have huser := hget (wide "user_id")
  have htype := hget (wide "resource_type")
  have hid := hget (wide "resource_id")
  have hmetadata := hget (wide "metadata")
  simp only [Dict.lookup, JsonText.wide_inj, String.reduceEq, if_true, if_false, Option.map_some,
    Option.some.injEq] at haction huser htype hid hmetadata
  refine ⟨?_, textJson_injective huser, textJson_injective htype, textJson_injective hid,
    hmetadata⟩
  rw [Json.sorted, Json.sorted, Json.str.injEq, JsonText.wide_inj] at haction
  exact haction

theorem eventPayload_congr {action : String} {userId resourceType resourceId : Option String}
    {metadata metadata' : WideJson} (h : metadata.sorted = metadata'.sorted) :
    (eventPayload action userId resourceType resourceId metadata).sorted =
      (eventPayload action userId resourceType resourceId metadata').sorted := by
  simp only [eventPayload, Json.sorted, Json.sortedMembers, h]

section Hashes

variable {crypto : Crypto}

/-- What a chain hash names. -/
theorem chainHash_injective (hinj : ∀ a b, crypto.sha256 a = crypto.sha256 b → a = b)
    {id id' : LogId} {stamp stamp' : List Char} {payload payload' : WideJson}
    {hash hash' : String}
    (h : chainHash crypto id stamp payload hash = chainHash crypto id' stamp' payload' hash') :
    id = id' ∧ stamp = stamp' ∧ payload.sorted = payload'.sorted ∧ hash = hash' := by
  have hrecords := Json.dumps_injective (encodeChars_injective (hinj _ _ h))
  have hget := Json.get?_of_sorted_eq (by simp) (by simp) hrecords
  have hid := hget (wide "audit_log_id")
  have hstamp := hget (wide "created_at")
  have hpayload := hget (wide "payload")
  have hprevious := hget (wide "previous_hash")
  simp only [Dict.lookup, JsonText.wide_inj, String.reduceEq, if_true, if_false, Option.map_some,
    Json.sorted, Option.some.injEq, Json.str.injEq] at hid hstamp hpayload hprevious
  exact ⟨hid, String.ofList_injective hstamp, hpayload, hprevious⟩

/-- Payloads that differ in the order of members have one hash. -/
theorem chainHash_congr {id : LogId} {stamp : List Char} {payload payload' : WideJson}
    {hash : String} (h : payload.sorted = payload'.sorted) :
    chainHash crypto id stamp payload hash = chainHash crypto id stamp payload' hash := by
  have hmembers : ∀ p : WideJson, (chainRecord id stamp p hash).sorted =
      .obj [(wide "audit_log_id", .str (wide id)),
        (wide "created_at", .str (wide (String.ofList stamp))), (wide "payload", p.sorted),
        (wide "previous_hash", .str (wide hash))] := by
    intro p
    rw [chainRecord, Json.sorted_obj_of_pairwise]
    · simp only [List.map_cons, List.map_nil, Json.sorted]
    · simp only [List.map_cons, List.map_nil]
      decide
  rw [chainHash, chainHash, Json.dumps, Json.dumps, hmembers, hmembers, h]

/-- Only the time an event was written at has its timestamp, in any form. -/
theorem createdAt_of_stamp {serverTz : Option Zone} {createdAt : Option DateTime} {t : DateTime}
    (h : chainTimestamp (some t) ∈
      chainTimestamp createdAt :: legacyChainTimestamps serverTz createdAt) :
    createdAt = some t := by
  cases createdAt with
  | none =>
    rw [legacyChainTimestamps, List.mem_singleton] at h
    have hlength := congrArg List.length h
    simp only [chainTimestamp, offsetText, List.length_append, List.length_cons,
      List.length_nil] at hlength
    omega
  | some t' =>
    have hlegacy : legacyChainTimestamps serverTz (some t') =
        isoformat t' :: (serverTz.toList.map fun zone =>
          isoformat (zone.astimezone t').1 ++ offsetText (zone.astimezone t').2) := by
      cases serverTz <;> rfl
    rw [List.mem_cons, hlegacy, List.mem_cons, List.mem_map] at h
    rcases h with hutc | hnaive | ⟨zone, -, hlocal⟩
    · have hsame := (isoformat_cancel (offsetText_head 0) (offsetText_head 0) hutc).1
      rw [hsame]
    · -- a text without an offset is none with one
      have happend : isoformat t ++ offsetText 0 = isoformat t' ++ [] := by
        rw [List.append_nil]
        exact hnaive
      have hrest := (isoformat_cancel (offsetText_head 0) (by simp) happend).2
      cases hrest
    · rcases isoformat_cancel (offsetText_head _) (offsetText_head 0) hlocal with
        ⟨hsame, hoffset⟩
      have hzero := offsetText_eq_utc (zone.bounded t') hoffset
      rw [← hsame, zone.unmoved t' hzero]

end Hashes

/-! ## Honest histories -/

/-- The entry of a call of `write_audit_log`, written by the server that signed it. -/
def Written.Honest (crypto : Crypto) (w : Written) : Prop :=
  ∃ userId action resourceType resourceId metadata,
    w.pending = pendingAudit crypto w.server w.pending.logId userId action resourceType resourceId
      metadata

/-- An honestly written history: transactions of the writer, from empty tables. -/
inductive History (crypto : Crypto) : List Written → Tables → Prop
  | empty (users : List String) : History crypto [] ⟨users, [], []⟩
  | append {written batch : List Written} {t t' : Tables} (before : History crypto written t)
      (honest : ∀ w ∈ batch, w.Honest crypto)
      (commits : insertChainLinks crypto none t batch = .ok t') :
      History crypto (written ++ batch) t'

theorem orEmpty_cases (v : WideJson) : orEmpty v = .obj [] ∨ orEmpty v = v := by
  unfold orEmpty
  split
  all_goals first
    | exact Or.inl rfl
    | exact Or.inr rfl
    | split
      · exact Or.inl rfl
      · exact Or.inr rfl

theorem orEmpty_orEmpty (v : WideJson) : orEmpty (orEmpty v) = orEmpty v := by
  rcases orEmpty_cases v with hempty | hsame
  · rw [hempty]
    rfl
  · rw [hsame, hsame]

namespace Written

variable {crypto : Crypto} {w : Written}

theorem entryHash_link (sequence : ℤ) (previousHash : String) :
    (w.link crypto sequence previousHash).entryHash = w.hashAfter crypto previousHash :=
  rfl

theorem Honest.signingKeyId (h : w.Honest crypto) :
    w.pending.signingKeyId = w.server.keyId := by
  rcases h with ⟨userId, action, resourceType, resourceId, metadata, heq⟩
  rw [heq]
  rfl

theorem Honest.metadata (h : w.Honest crypto) :
    orEmpty w.pending.metadata = w.pending.metadata := by
  rcases h with ⟨userId, action, resourceType, resourceId, metadata, heq⟩
  rw [heq]
  exact orEmpty_orEmpty metadata

/-- The payload says what the row of the event says. -/
theorem Honest.payload (h : w.Honest crypto) :
    w.pending.payload.sorted = (eventPayload w.pending.action w.pending.userId
      w.pending.resourceType w.pending.resourceId w.pending.metadata).sorted := by
  rcases h with ⟨userId, action, resourceType, resourceId, metadata, heq⟩
  rw [heq]
  exact Json.sorted_sorted _

end Written

section Entries

variable (crypto : Crypto)

/-- The hash of an entry is the one behind the entries before it. -/
theorem mem_entryHashes {sequence : ℤ} {previousHash hash : String} {written : List Written} :
    hash ∈ (chainLinks crypto sequence previousHash written).map AuditChainLink.entryHash ↔
      ∃ before w after, written = before ++ w :: after ∧
        hash = w.hashAfter crypto (lastHash crypto previousHash before) := by
  induction written generalizing sequence previousHash with
  | nil =>
    constructor
    · exact fun h => by cases h
    · rintro ⟨before, w, after, h, -⟩
      exact absurd h.symm (List.append_ne_nil_of_right_ne_nil before (List.cons_ne_nil w after))
  | cons first rest ih =>
    rw [chainLinks, List.map_cons, List.mem_cons, ih]
    constructor
    · rintro (rfl | ⟨before, w, after, rfl, rfl⟩)
      · exact ⟨[], first, rest, rfl, rfl⟩
      · exact ⟨first :: before, w, after, rfl, rfl⟩
    · rintro ⟨before, w, after, heq, rfl⟩
      cases before with
      | nil =>
        cases heq
        exact Or.inl rfl
      | cons b before =>
        cases heq
        exact Or.inr ⟨before, w, after, rfl, rfl⟩

theorem lastHash_concat (previousHash : String) (before : List Written) (w : Written) :
    lastHash crypto previousHash (before ++ [w]) =
      w.hashAfter crypto (lastHash crypto previousHash before) := by
  rw [lastHash, lastHash, List.foldl_append, List.foldl_cons, List.foldl_nil]

variable {crypto}

/-- The place in a history is told by the hash behind it. -/
theorem lastHash_injective (hinj : ∀ a b, crypto.sha256 a = crypto.sha256 b → a = b)
    (hgenesis : ∀ a, crypto.sha256 a ≠ genesisHash) {written before before' : List Written}
    (hbefore : before <+: written) (hbefore' : before' <+: written)
    (h : lastHash crypto genesisHash before = lastHash crypto genesisHash before') :
    before = before' := by
  induction before using List.reverseRecOn generalizing before' with
  | nil =>
    induction before' using List.reverseRecOn with
    | nil => rfl
    | append_singleton rest w _ =>
      rw [lastHash_concat] at h
      exact absurd h.symm (hgenesis _)
  | append_singleton rest w ih =>
    induction before' using List.reverseRecOn with
    | nil =>
      rw [lastHash_concat] at h
      exact absurd h (hgenesis _)
    | append_singleton rest' w' _ =>
      rw [lastHash_concat, lastHash_concat] at h
      have hprevious := (chainHash_injective hinj h).2.2.2
      have hrest := ih ((List.prefix_append rest [w]).trans hbefore)
        ((List.prefix_append rest' [w']).trans hbefore') hprevious
      subst hrest
      have hlength : (rest ++ [w]).length = (rest ++ [w']).length := by
        rw [List.length_append, List.length_append, List.length_singleton,
          List.length_singleton]
      exact (List.prefix_of_prefix_length_le hbefore hbefore' hlength.le).eq_of_length hlength

end Entries

/-! ## Genuine links -/

/-- A row of the table says what an entry said, up to what stands for empty metadata. -/
structure AuditLog.Agrees (log : AuditLog) (w : Written) : Prop where
  id : log.id = w.pending.logId
  createdAt : log.createdAt = some w.createdAt
  action : log.action = w.pending.action
  userId : log.userId = w.pending.userId
  resourceType : log.resourceType = w.pending.resourceType
  resourceId : log.resourceId = w.pending.resourceId
  metadata : (orEmpty log.metadataJson).sorted = w.pending.metadata.sorted

/-- A link stands where an entry stood, with its hashes and a signature that verifies. -/
structure Genuine (crypto : Crypto) (ring : Keyring) (previousHash : String) (w : Written)
    (row : LinkRow) : Prop where
  event : ∃ log, row.event = some log ∧ log.Agrees w
  pointer : row.link.previousHash = previousHash
  hash : row.link.entryHash = w.hashAfter crypto previousHash
  signed : ∃ pk signature, ring.verificationKey row.link.signingKeyId = some pk ∧
    unb64 row.link.checkpointSignature = .ok signature ∧
      crypto.dsaVerify pk (utf8 row.link.entryHash) signature = .ok true

/-- The links stand where the first entries of a history stood. -/
inductive GenuineRows (crypto : Crypto) (ring : Keyring) :
    String → List Written → List LinkRow → Prop
  | nil (previousHash : String) (written : List Written) :
      GenuineRows crypto ring previousHash written []
  | cons {previousHash : String} {w : Written} {written : List Written} {row : LinkRow}
      {rows : List LinkRow} (first : Genuine crypto ring previousHash w row)
      (more : GenuineRows crypto ring (w.hashAfter crypto previousHash) written rows) :
      GenuineRows crypto ring previousHash (w :: written) (row :: rows)

/-- What a signature that verifies under a key of the servers says: of the chain hashes, only
those of the history were signed. -/
def Unforgeable (crypto : Crypto) (ring : Keyring) (written : List Written) : Prop :=
  ∀ signingKeyId pk, ring.verificationKey signingKeyId = some pk →
    ∀ id stamp payload previousHash signature,
      crypto.dsaVerify pk (utf8 (chainHash crypto id stamp payload previousHash)) signature =
          .ok true →
        chainHash crypto id stamp payload previousHash ∈
          (chainLinks crypto 0 genesisHash written).map AuditChainLink.entryHash

section Checks

variable {crypto : Crypto} {ring : Keyring} {serverTz : Option Zone}

theorem checkpoint_eq_none {pk message : Bytes} {text : String} :
    (do
      let signature ← unb64 text
      let valid ← crypto.dsaVerify pk message signature
      if valid then (.ok none : Except String (Option LinkFailure))
      else .ok (some .signatureInvalid)) = .ok none ↔
      ∃ signature, unb64 text = .ok signature ∧
        crypto.dsaVerify pk message signature = .ok true := by
  rw [bind_eq_ok_iff]
  apply exists_congr
  intro signature
  apply and_congr_right
  intro _
  rw [bind_eq_ok_iff]
  constructor
  · rintro ⟨valid, hverify, hvalid⟩
    cases valid with
    | false => cases hvalid
    | true => exact hverify
  · exact fun hverify => ⟨true, hverify, rfl⟩

/-- What a link that passes has. -/
theorem linkFailure_eq_none {previousHash : String} {row : LinkRow} :
    linkFailure crypto ring serverTz previousHash row = .ok none ↔
      ∃ log, row.event = some log ∧ row.link.previousHash = previousHash ∧
        row.link.entryHash ∈ acceptedHashes crypto serverTz log previousHash ∧
        ∃ pk, ring.verificationKey row.link.signingKeyId = some pk ∧
          ∃ signature, unb64 row.link.checkpointSignature = .ok signature ∧
            crypto.dsaVerify pk (utf8 row.link.entryHash) signature = .ok true := by
  unfold linkFailure
  cases row.event with
  | none => simp
  | some log =>
    by_cases hprevious : row.link.previousHash = previousHash
    · cases hkey : ring.verificationKey row.link.signingKeyId with
      | none => simp [hprevious]
      | some pk =>
        by_cases hhash : row.link.entryHash ∈ acceptedHashes crypto serverTz log previousHash
        · simp only [hprevious, hhash, ne_eq, not_true_eq_false, if_false,
            checkpoint_eq_none, Option.some.injEq, exists_eq_left', true_and]
        · simp [hprevious, hhash]
    · simp [hprevious]

/-- A link passes where an entry stood only if it is the entry's, and it is the only entry
it can be. -/
theorem linkFailure_iff (hinj : ∀ a b, crypto.sha256 a = crypto.sha256 b → a = b)
    (hgenesis : ∀ a, crypto.sha256 a ≠ genesisHash) {before after : List Written}
    (hhonest : ∀ w ∈ before ++ after, w.Honest crypto)
    (hforge : Unforgeable crypto ring (before ++ after)) {row : LinkRow} :
    linkFailure crypto ring serverTz (lastHash crypto genesisHash before) row = .ok none ↔
      ∃ w rest, after = w :: rest ∧
        Genuine crypto ring (lastHash crypto genesisHash before) w row := by
  rw [linkFailure_eq_none]
  constructor
  · rintro ⟨log, hevent, hpointer, hhash, pk, hpk, signature, hsignature, hverify⟩
    rcases List.mem_map.mp hhash with ⟨stamp, hstamp, hentry⟩
    have hsigned := hforge _ pk hpk log.id stamp (eventPayload log.action log.userId
      log.resourceType log.resourceId (orEmpty log.metadataJson))
      (lastHash crypto genesisHash before) signature (by rw [hentry]; exact hverify)
    -- the entry that was signed has this hash, so it stood here
    rcases (mem_entryHashes crypto).mp hsigned with ⟨before', w, rest, hwritten, hsame⟩
    rcases chainHash_injective hinj hsame with ⟨hid, htime, hpayload, hprevious⟩
    have hprefix : before' <+: before ++ after := ⟨w :: rest, hwritten.symm⟩
    have hplace := lastHash_injective hinj hgenesis (List.prefix_append before after) hprefix
      hprevious
    subst hplace
    have hafter := List.append_cancel_left hwritten
    have hw : w ∈ before ++ after := by
      rw [hafter]
      exact List.mem_append_right _ (List.mem_cons_self ..)
    rw [(hhonest w hw).payload] at hpayload
    rcases eventPayload_injective hpayload with ⟨haction, huser, htype, hresource, hmetadata⟩
    refine ⟨w, rest, hafter, ?_⟩
    constructor
    case event =>
      refine ⟨log, hevent, hid, ?_, haction, huser, htype, hresource, hmetadata⟩
      exact createdAt_of_stamp (htime ▸ hstamp)
    case pointer => exact hpointer
    case hash => exact hentry.symm.trans hsame
    case signed => exact ⟨pk, signature, hpk, hsignature, hverify⟩
  · rintro ⟨w, rest, rfl, ⟨log, hevent, hlog⟩, hpointer, hhash, pk, signature, hpk, hsignature,
      hverify⟩
    refine ⟨log, hevent, hpointer, ?_, pk, hpk, signature, hsignature, hverify⟩
    have hw : w ∈ before ++ w :: rest := List.mem_append_right _ (List.mem_cons_self ..)
    have hpayload : (eventPayload log.action log.userId log.resourceType log.resourceId
        (orEmpty log.metadataJson)).sorted = w.pending.payload.sorted := by
      rw [(hhonest w hw).payload, hlog.action, hlog.userId, hlog.resourceType, hlog.resourceId]
      exact eventPayload_congr hlog.metadata
    rw [hhash, acceptedHashes, List.map_cons, hlog.createdAt, hlog.id, chainHash_congr hpayload]
    exact List.mem_cons_self ..

/-- The walk passes the links of a prefix of the history only, with their events. -/
theorem passes_iff (hinj : ∀ a b, crypto.sha256 a = crypto.sha256 b → a = b)
    (hgenesis : ∀ a, crypto.sha256 a ≠ genesisHash) {before after : List Written}
    (hhonest : ∀ w ∈ before ++ after, w.Honest crypto)
    (hforge : Unforgeable crypto ring (before ++ after)) (rows : List LinkRow) :
    (∃ hash, Passes (linkFailure crypto ring serverTz) (lastHash crypto genesisHash before) rows
      hash) ↔ GenuineRows crypto ring (lastHash crypto genesisHash before) after rows := by
  induction rows generalizing before after with
  | nil =>
    constructor
    · exact fun _ => .nil _ _
    · exact fun _ => ⟨_, .nil _⟩
  | cons row rows ih =>
    have hstep : ∀ w rest, after = w :: rest →
        ((∃ hash, Passes (linkFailure crypto ring serverTz)
          (w.hashAfter crypto (lastHash crypto genesisHash before)) rows hash) ↔
            GenuineRows crypto ring
              (w.hashAfter crypto (lastHash crypto genesisHash before)) rest rows) := by
      rintro w rest rfl
      have hsplit : before ++ [w] ++ rest = before ++ w :: rest := List.append_assoc ..
      rw [← lastHash_concat]
      exact ih (hsplit ▸ hhonest) (hsplit ▸ hforge)
    constructor
    · rintro ⟨hash, hpasses⟩
      cases hpasses with
      | cons hfirst hmore =>
        rcases (linkFailure_iff hinj hgenesis hhonest hforge).mp hfirst with
          ⟨w, rest, rfl, hgenuine⟩
        rw [hgenuine.hash] at hmore
        exact .cons hgenuine ((hstep w rest rfl).mp ⟨hash, hmore⟩)
    · intro hrows
      cases hrows with
      | cons hgenuine hmore =>
        rename_i w rest
        rcases (hstep w rest rfl).mpr hmore with ⟨hash, hpasses⟩
        have hfirst : linkFailure crypto ring serverTz (lastHash crypto genesisHash before)
            row = .ok none :=
          (linkFailure_iff hinj hgenesis hhonest hforge).mpr ⟨w, rest, rfl, hgenuine⟩
        refine ⟨hash, .cons hfirst ?_⟩
        rw [hgenuine.hash]
        exact hpasses

end Checks

/-! ## What the tables hold -/

/-- What an event says. -/
structure EventContent where
  id : LogId
  createdAt : Option DateTime
  action : String
  userId : Option String
  resourceType : Option String
  resourceId : Option String
  /-- with the members of every object in the order of their names -/
  metadata : WideJson

/-- What a row says. -/
def AuditLog.content (log : AuditLog) : EventContent where
  id := log.id
  createdAt := log.createdAt
  action := log.action
  userId := log.userId
  resourceType := log.resourceType
  resourceId := log.resourceId
  metadata := log.metadataJson.sorted

namespace Tables

/-- The events of the links in the order of their sequence numbers. -/
def storedEvents (t : Tables) : List (Option EventContent) :=
  (t.links.insertionSort fun link link' => link.sequence ≤ link'.sequence).map fun link =>
    (t.logs.find? fun log => log.id = link.auditLogId).map AuditLog.content

/-- The stored links are a prefix of the honestly written list. -/
def StoredPrefix (t : Tables) (written : List Written) : Prop :=
  t.storedEvents <+: written.map fun w => some w.log.content

/-- Every event has a link. -/
def AllChained (t : Tables) : Prop :=
  ∀ log ∈ t.logs, ∃ link ∈ t.links, link.auditLogId = log.id

/-- The tables look like a prefix of the history: the links the walk visits are genuine, and
every event has a link. -/
def Convincing (crypto : Crypto) (ring : Keyring) (written : List Written) (t : Tables) : Prop :=
  GenuineRows crypto ring genesisHash written (t.rowsAfter 0) ∧ t.AllChained

/-- The walk visits every link. -/
def AllWalked (t : Tables) : Prop :=
  ∀ link ∈ t.links, 0 < link.sequence

/-- The walk visits no link. -/
def NoneWalked (t : Tables) : Prop :=
  ∀ link ∈ t.links, link.sequence ≤ 0

/-- No event of a walked link has metadata that only stands for empty metadata: NULL, false,
zero, an empty text or an empty list. -/
def NoneEmptied (t : Tables) : Prop :=
  ∀ row ∈ t.rowsAfter 0, ∀ log ∈ row.event, orEmpty log.metadataJson = log.metadataJson

/-- The links in the order of their sequence numbers name the first events of the history, and
the rows of these events are there as they were. -/
def Renumbered (t : Tables) (written : List Written) : Prop :=
  ∃ n, (t.links.insertionSort fun link link' => link.sequence ≤ link'.sequence).map
      AuditChainLink.auditLogId = (written.take n).map (fun w => w.pending.logId) ∧
    ∀ w ∈ written.take n, ∃ log ∈ t.logs, log.content = w.log.content

/-- When a full check without findings means what it says. -/
def HoldsWhen (crypto : Crypto) (ring : Keyring) (written : List Written) (t : Tables) : Prop :=
  ¬t.Convincing crypto ring written ∨ t.AllWalked ∧ t.NoneEmptied ∨
    t.NoneWalked ∧ t.Renumbered written

end Tables

section Stored

variable {crypto : Crypto} {ring : Keyring} {written : List Written} {t : Tables}

/-- The row of an event is found by its id. -/
theorem find?_log_iff (hunique : t.Unique) {id : LogId} {log : AuditLog} :
    (t.logs.find? fun log => log.id = id) = some log ↔ log ∈ t.logs ∧ log.id = id := by
  constructor
  · intro hfind
    have hfound := List.find?_some hfind
    exact ⟨List.mem_of_find?_eq_some hfind, of_decide_eq_true hfound⟩
  · rintro ⟨hlog, rfl⟩
    cases hfind : t.logs.find? (fun log' => log'.id = log.id) with
    | none => exact absurd (decide_eq_true rfl) (List.find?_eq_none.mp hfind log hlog)
    | some log' =>
      have hfound := List.find?_some hfind
      rw [List.inj_on_of_nodup_map hunique.logId (List.mem_of_find?_eq_some hfind) hlog
        (of_decide_eq_true hfound)]

/-- Links hold given events when they name them and the rows of the events are as they were. -/
theorem contents_eq_iff (hunique : t.Unique) {links : List AuditChainLink} :
    (links.map fun link =>
        (t.logs.find? fun log => log.id = link.auditLogId).map AuditLog.content) =
        (written.map fun w => some w.log.content) ↔
      links.map AuditChainLink.auditLogId = written.map (fun w => w.pending.logId) ∧
        ∀ w ∈ written, ∃ log ∈ t.logs, log.content = w.log.content := by
  induction links generalizing written with
  | nil => cases written <;> simp
  | cons link rest ih =>
    cases written with
    | nil => simp
    | cons w more =>
      have hfirst : (t.logs.find? fun log => log.id = link.auditLogId).map AuditLog.content =
          some w.log.content ↔
            link.auditLogId = w.pending.logId ∧ ∃ log ∈ t.logs, log.content = w.log.content := by
        rw [Option.map_eq_some_iff]
        constructor
        · rintro ⟨log, hfind, hcontent⟩
          rcases (find?_log_iff hunique).mp hfind with ⟨hlog, hid⟩
          exact ⟨hid.symm.trans (congrArg EventContent.id hcontent), log, hlog, hcontent⟩
        · rintro ⟨hid, log, hlog, hcontent⟩
          have hname : log.id = w.pending.logId := congrArg EventContent.id hcontent
          exact ⟨log, (find?_log_iff hunique).mpr ⟨hlog, hname.trans hid.symm⟩, hcontent⟩
      rw [List.map_cons, List.map_cons, List.cons.injEq, hfirst, ih, List.map_cons, List.map_cons,
        List.cons.injEq, List.forall_mem_cons, and_and_and_comm]

/-- The stored links are a prefix of the history when they are renumbered at most. -/
theorem storedPrefix_iff_renumbered (hunique : t.Unique) :
    t.StoredPrefix written ↔ t.Renumbered written := by
  constructor
  · intro hstored
    have htaken := (List.prefix_iff_eq_take.mp hstored).trans List.map_take.symm
    exact ⟨_, (contents_eq_iff hunique).mp htaken⟩
  · rintro ⟨n, hnames⟩
    have hstored : t.storedEvents = _ := (contents_eq_iff hunique).mpr hnames
    rw [Tables.StoredPrefix, hstored, List.map_take]
    exact List.take_prefix _ _

theorem mem_rowsAfter {after : ℤ} {row : LinkRow} (h : row ∈ t.rowsAfter after) :
    row.link ∈ t.links ∧ after < row.link.sequence ∧
      row.event = t.logs.find? fun log => log.id = row.link.auditLogId := by
  rcases List.mem_map.mp h with ⟨link, hlink, rfl⟩
  rw [List.mem_insertionSort, List.mem_filter] at hlink
  exact ⟨hlink.1, of_decide_eq_true hlink.2, rfl⟩

theorem orEmpty_of_sorted {v : WideJson} (h : (orEmpty v).sorted = v.sorted) : orEmpty v = v := by
  rcases orEmpty_cases v with hempty | hsame
  · rw [hempty] at h ⊢
    cases v with
    | obj members =>
      have hlength : members.length = 0 := by
        rw [Json.sorted, Json.sorted, Json.obj.injEq] at h
        have hlengths := congrArg List.length h
        rw [List.length_insertionSort, List.length_insertionSort, Json.sortedMembers_eq,
          Json.sortedMembers_eq, List.length_map, List.length_map] at hlengths
        exact hlengths.symm
      rw [List.length_eq_zero_iff.mp hlength]
    | null => cases h
    | bool b => cases h
    | int n => cases h
    | float value => cases h
    | str s => cases h
    | arr items => cases h
  · exact hsame

/-- An event of a genuine link is the honest one when its metadata does not only stand for
empty metadata. -/
theorem AuditLog.Agrees.content_iff {log : AuditLog} {w : Written} (h : log.Agrees w) :
    log.content = w.log.content ↔ orEmpty log.metadataJson = log.metadataJson := by
  have hmetadata := h.metadata
  constructor
  · intro hcontent
    have hsorted : log.metadataJson.sorted = w.pending.metadata.sorted :=
      congrArg EventContent.metadata hcontent
    exact orEmpty_of_sorted (hmetadata.trans hsorted.symm)
  · intro hkept
    rw [hkept] at hmetadata
    rw [AuditLog.content, AuditLog.content, h.id, h.createdAt, h.action, h.userId,
      h.resourceType, h.resourceId, hmetadata]
    rfl

/-- Genuine links hold a prefix of the history when no metadata was emptied. -/
theorem GenuineRows.prefix_iff {previousHash : String} {rows : List LinkRow}
    (h : GenuineRows crypto ring previousHash written rows) :
    (rows.map fun row => row.event.map AuditLog.content) <+:
        (written.map fun w => some w.log.content) ↔
      ∀ row ∈ rows, ∀ log ∈ row.event, orEmpty log.metadataJson = log.metadataJson := by
  induction h with
  | nil =>
    constructor
    · exact fun _ row hrow => by cases hrow
    · exact fun _ => List.nil_prefix
  | cons hfirst _ ih =>
    rename_i previous w rest row rows _
    rcases hfirst.event with ⟨log, hevent, hlog⟩
    rw [List.map_cons, List.map_cons, List.cons_prefix_cons, ih, hevent, Option.map_some,
      Option.some.injEq, hlog.content_iff]
    constructor
    · rintro ⟨hkept, hmore⟩ row' hrow' log' hlog'
      rcases List.mem_cons.mp hrow' with rfl | hin
      · rw [hevent, Option.mem_some_iff] at hlog'
        rw [← hlog']
        exact hkept
      · exact hmore row' hin log' hlog'
    · intro hall
      refine ⟨hall row (List.mem_cons_self ..) log hevent, ?_⟩
      exact fun row' hrow' => hall row' (List.mem_cons_of_mem row hrow')

/-- When the walk visits every link, it visits them in their order. -/
theorem storedEvents_of_allWalked (h : t.AllWalked) :
    t.storedEvents = (t.rowsAfter 0).map fun row => row.event.map AuditLog.content := by
  have hall : (t.links.filter fun link => 0 < link.sequence) = t.links := by
    rw [List.filter_eq_self]
    exact fun link hlink => decide_eq_true (h link hlink)
  rw [Tables.storedEvents, Tables.rowsAfter, hall, List.map_map]
  rfl

/-- A link in front of the walked ones holds another event than the first. -/
theorem allWalked_of_storedPrefix (hunique : t.Unique)
    (hrows : GenuineRows crypto ring genesisHash written (t.rowsAfter 0))
    (hstored : t.StoredPrefix written) (hsome : ¬t.NoneWalked) : t.AllWalked := by
  by_contra hnotall
  rw [Tables.AllWalked, not_forall] at hnotall
  rcases hnotall with ⟨hidden, hhidden⟩
  rw [Classical.not_imp, not_lt] at hhidden
  rw [Tables.NoneWalked, not_forall] at hsome
  rcases hsome with ⟨seen, hseen⟩
  rw [Classical.not_imp, not_le] at hseen
  -- the first link of all is not walked
  let order : AuditChainLink → AuditChainLink → Prop := fun link link' =>
    link.sequence ≤ link'.sequence
  have htotal : Std.Total order := ⟨fun a b => le_total a.sequence b.sequence⟩
  have htrans : IsTrans AuditChainLink order := ⟨fun _ _ _ h h' => le_trans h h'⟩
  have hsorted := List.pairwise_insertionSort order t.links
  cases hfirst : t.links.insertionSort order with
  | nil =>
    have hin := (List.mem_insertionSort order).mpr hhidden.1
    rw [hfirst] at hin
    cases hin
  | cons first rest =>
    have hfirstIn : first ∈ t.links := by
      apply (List.mem_insertionSort order).mp
      rw [hfirst]
      exact List.mem_cons_self ..
    have hfirstLow : first.sequence ≤ 0 := by
      have hin := (List.mem_insertionSort order).mpr hhidden.1
      rw [hfirst] at hin hsorted
      rcases List.mem_cons.mp hin with rfl | hlater
      · exact hhidden.2
      · exact (List.rel_of_pairwise_cons hsorted hlater).trans hhidden.2
    have hevents : t.storedEvents =
        ((t.logs.find? fun log => log.id = first.auditLogId).map AuditLog.content) ::
          rest.map fun link =>
            (t.logs.find? fun log => log.id = link.auditLogId).map AuditLog.content := by
      rw [Tables.storedEvents]
      change List.map _ (t.links.insertionSort order) = _
      rw [hfirst, List.map_cons]
    -- the first walked link holds the first event of the history
    cases hwalked : t.rowsAfter 0 with
    | nil =>
      have hin : (⟨seen, t.logs.find? fun log => log.id = seen.auditLogId⟩ : LinkRow) ∈
          t.rowsAfter 0 := by
        apply List.mem_map_of_mem
        rw [List.mem_insertionSort, List.mem_filter]
        exact ⟨hseen.1, decide_eq_true hseen.2⟩
      rw [hwalked] at hin
      cases hin
    | cons row rows =>
      rw [hwalked] at hrows
      cases hrows with
      | cons hgenuine _ =>
        rename_i w _ _
        rcases mem_rowsAfter (hwalked ▸ List.mem_cons_self .. : row ∈ t.rowsAfter 0) with
          ⟨hrowIn, hrowPos, hrowEvent⟩
        rcases hgenuine.event with ⟨log, hevent, hlog⟩
        have hrowId : row.link.auditLogId = w.pending.logId := by
          rw [hrowEvent] at hevent
          have hfound := List.find?_some hevent
          rw [← hlog.id]
          exact (of_decide_eq_true hfound).symm
        rw [Tables.StoredPrefix, hevents, List.map_cons, List.cons_prefix_cons] at hstored
        rcases Option.map_eq_some_iff.mp hstored.1 with ⟨log', hfound', hcontent⟩
        have hfirstId : first.auditLogId = w.pending.logId := by
          have hid : log'.id = w.pending.logId := congrArg EventContent.id hcontent
          have hfound := List.find?_some hfound'
          rw [← hid]
          exact (of_decide_eq_true hfound).symm
        have hsame := List.inj_on_of_nodup_map hunique.auditLogId hfirstIn hrowIn
          (hfirstId.trans hrowId.symm)
        rw [hsame] at hfirstLow
        omega

/-- What a convincing edit has kept. -/
theorem storedPrefix_iff (hunique : t.Unique) (h : t.Convincing crypto ring written) :
    t.StoredPrefix written ↔
      t.AllWalked ∧ t.NoneEmptied ∨ t.NoneWalked ∧ t.Renumbered written := by
  have hwalked : t.AllWalked → (t.StoredPrefix written ↔ t.NoneEmptied) := by
    intro hall
    rw [Tables.StoredPrefix, storedEvents_of_allWalked hall]
    exact h.1.prefix_iff
  constructor
  · intro hstored
    by_cases hnone : t.NoneWalked
    · exact Or.inr ⟨hnone, (storedPrefix_iff_renumbered hunique).mp hstored⟩
    · have hall := allWalked_of_storedPrefix hunique h.1 hstored hnone
      exact Or.inl ⟨hall, (hwalked hall).mp hstored⟩
  · rintro (⟨hall, hkept⟩ | ⟨-, hnames⟩)
    · exact (hwalked hall).mpr hkept
    · exact (storedPrefix_iff_renumbered hunique).mpr hnames

end Stored

/-! ## The full check -/

/-- The table of signing keys is as the servers registered them: a checkpoint verifies under
the key its link names. -/
structure KeysIntact (crypto : Crypto) (keys : List (String × String)) (ring : Keyring)
    (written : List Written) : Prop where
  read : readKeys keys = .ok ring.keys
  unique : (keys.map Prod.fst).Nodup
  registered : ∀ w ∈ written, ∃ keyId, w.server.keyId = some keyId ∧
    (keyId, b64 w.server.dsaPk) ∈ keys ∧ w.server.dsaPk ≠ []
  verifies : ∀ before w after, written = before ++ w :: after →
    crypto.dsaVerify w.server.dsaPk
      (utf8 (w.hashAfter crypto (lastHash crypto genesisHash before)))
      (crypto.dsaSign w.server.dsaSk
        (utf8 (w.hashAfter crypto (lastHash crypto genesisHash before)))) = .ok true

section FullCheck

variable {crypto : Crypto} {ring : Keyring} {keys : List (String × String)}
  {written : List Written} {t : Tables} {serverTz : Option Zone}

theorem lookup_of_readKeys {decoded : List (String × Bytes)} (h : readKeys keys = .ok decoded)
    (hunique : (keys.map Prod.fst).Nodup) {keyId : String} {pk : Bytes}
    (hmem : (keyId, b64 pk) ∈ keys) : Dict.lookup keyId decoded = some pk := by
  induction keys generalizing decoded with
  | nil => cases hmem
  | cons row rest ih =>
    rcases row with ⟨id, text⟩
    rw [List.map_cons, List.nodup_cons] at hunique
    rw [readKeys] at h
    rcases bind_eq_ok_iff.mp h with ⟨pk', hpk', h⟩
    rcases bind_eq_ok_iff.mp h with ⟨more, hmore, h⟩
    cases h
    rcases List.mem_cons.mp hmem with hsame | hlater
    · cases hsame
      rw [unb64_b64] at hpk'
      cases hpk'
      exact if_pos rfl
    · have hne : id ≠ keyId := by
        rintro rfl
        exact hunique.1 (List.mem_map.mpr ⟨_, hlater, rfl⟩)
      rw [Dict.lookup, if_neg hne]
      exact ih hmore hunique.2 hlater

/-- The key of a link is the one of the server that wrote it. -/
theorem KeysIntact.verificationKey (h : KeysIntact crypto keys ring written) {w : Written}
    (hw : w ∈ written) : ring.verificationKey w.server.keyId = some w.server.dsaPk := by
  rcases h.registered w hw with ⟨keyId, hkeyId, hmem, hpk⟩
  have hlookup := lookup_of_readKeys h.read h.unique hmem
  rw [Keyring.verificationKey, hkeyId, Option.bind_some, hlookup]
  exact if_neg hpk

theorem History.spec {written : List Written} {t : Tables} (h : History crypto written t) :
    t.WrittenBy crypto written ∧ t.Constrained ∧ ∀ w ∈ written, w.Honest crypto := by
  induction h with
  | empty users =>
    refine ⟨⟨rfl, rfl⟩, ⟨⟨?_, ?_, ?_, ?_, ?_⟩, ?_, ?_⟩, fun w hw => by cases hw⟩
    · exact List.nodup_nil
    · exact List.nodup_nil
    · exact List.nodup_nil
    · exact List.nodup_nil
    · exact List.nodup_nil
    · exact fun log hlog => by cases hlog
    · exact fun link hlink => by cases hlink
  | append _ hhonest hcommits ih =>
    rcases ih with ⟨hwritten, -, hbefore⟩
    rcases insertChainLinks_eq_ok crypto hcommits with ⟨rfl, hconstrained⟩
    refine ⟨hwritten.insert crypto _, hconstrained, ?_⟩
    intro w hw
    rcases List.mem_append.mp hw with hw | hw
    · exact hbefore w hw
    · exact hhonest w hw

/-- The links of an honest history are genuine. -/
theorem genuineRows_chainLinks {before after : List Written}
    (hkeys : KeysIntact crypto keys ring (before ++ after))
    (hhonest : ∀ w ∈ before ++ after, w.Honest crypto) {logs : List AuditLog}
    (hlogs : ∀ w ∈ after, logs.find? (fun log => log.id = w.pending.logId) = some w.log)
    (sequence : ℤ) :
    GenuineRows crypto ring (lastHash crypto genesisHash before) after
      ((chainLinks crypto sequence (lastHash crypto genesisHash before) after).map fun link =>
        ⟨link, logs.find? fun log => log.id = link.auditLogId⟩) := by
  induction after generalizing before sequence with
  | nil => exact .nil _ _
  | cons w rest ih =>
    have hsplit : before ++ [w] ++ rest = before ++ w :: rest := List.append_assoc ..
    have hw : w ∈ before ++ w :: rest := List.mem_append_right _ (List.mem_cons_self ..)
    rw [chainLinks, List.map_cons]
    refine .cons ?_ ?_
    · constructor
      case event =>
        refine ⟨w.log, hlogs w (List.mem_cons_self ..), rfl, rfl, rfl, rfl, rfl, rfl, ?_⟩
        change (orEmpty w.pending.metadata).sorted = w.pending.metadata.sorted
        rw [(hhonest w hw).metadata]
      case pointer => rfl
      case hash => rfl
      case signed =>
        refine ⟨w.server.dsaPk, _, ?_, unb64_b64 _, hkeys.verifies before w rest rfl⟩
        change ring.verificationKey w.pending.signingKeyId = some w.server.dsaPk
        rw [(hhonest w hw).signingKeyId]
        exact hkeys.verificationKey hw
    · rw [← lastHash_concat]
      refine ih (hsplit ▸ hkeys) (hsplit ▸ hhonest) ?_ (sequence + 1)
      exact fun w' hw' => hlogs w' (List.mem_cons_of_mem w hw')

/-- An honest history is convincing. -/
theorem History.convincing (h : History crypto written t)
    (hkeys : KeysIntact crypto keys ring written) : t.Convincing crypto ring written := by
  rcases h.spec with ⟨hwritten, hconstrained, hhonest⟩
  have hsequence := map_sequence_chainLinks crypto 0 genesisHash written
  have hordered : (chainLinks crypto 0 genesisHash written).Pairwise fun link link' =>
      link.sequence ≤ link'.sequence := by
    rw [← List.pairwise_map (f := AuditChainLink.sequence) (R := fun a b : ℤ => a ≤ b), hsequence,
      List.pairwise_map]
    refine List.pairwise_lt_range.imp ?_
    intro i j hij
    omega
  have hpositive : ∀ link ∈ chainLinks crypto 0 genesisHash written, 0 < link.sequence := by
    intro link hlink
    have hmem := List.mem_map_of_mem (f := AuditChainLink.sequence) hlink
    rw [hsequence, List.mem_map] at hmem
    rcases hmem with ⟨i, -, hi⟩
    omega
  have hrows : t.rowsAfter 0 = (chainLinks crypto 0 genesisHash written).map fun link =>
      ⟨link, t.logs.find? fun log => log.id = link.auditLogId⟩ := by
    have hall : (t.links.filter fun link => 0 < link.sequence) = t.links := by
      rw [List.filter_eq_self, hwritten.links]
      exact fun link hlink => decide_eq_true (hpositive link hlink)
    rw [Tables.rowsAfter, hall, hwritten.links, List.Pairwise.insertionSort_eq hordered]
  have hlogs : ∀ w ∈ written,
      t.logs.find? (fun log => log.id = w.pending.logId) = some w.log := by
    intro w hw
    have hin : w.log ∈ t.logs := by
      rw [hwritten.logs]
      exact List.mem_map_of_mem hw
    exact (find?_log_iff hconstrained.toUnique).mpr ⟨hin, rfl⟩
  constructor
  · rw [hrows]
    have hgenuine : GenuineRows crypto ring (lastHash crypto genesisHash []) written _ :=
      genuineRows_chainLinks hkeys hhonest hlogs 0
    exact hgenuine
  · intro log hlog
    rw [hwritten.logs, List.mem_map] at hlog
    rcases hlog with ⟨w, hw, rfl⟩
    have hid : w.pending.logId ∈ t.links.map AuditChainLink.auditLogId := by
      rw [hwritten.links, map_auditLogId_chainLinks]
      exact List.mem_map_of_mem hw
    rcases List.mem_map.mp hid with ⟨link, hlink, hsame⟩
    exact ⟨link, hlink, hsame⟩

theorem unchainedCount_eq_zero : t.unchainedCount = 0 ↔ t.AllChained := by
  rw [Tables.unchainedCount, List.length_eq_zero_iff, List.filter_eq_nil_iff, Tables.AllChained]
  apply forall₂_congr
  intro log _
  simp

/-- A full check finds nothing exactly when the tables are convincing. -/
theorem fullCheck_iff (hinj : ∀ a b, crypto.sha256 a = crypto.sha256 b → a = b)
    (hgenesis : ∀ a, crypto.sha256 a ≠ genesisHash)
    (hhonest : ∀ w ∈ written, w.Honest crypto) (hread : readKeys keys = .ok ring.keys)
    (hforge : Unforgeable crypto ring written) (now : DateTime) (state : VerifiedChain) :
    (∃ status state', auditChainStatus crypto ring.dsaPk serverTz true now state ⟨t, keys⟩ =
      .ok (status, state') ∧ status.valid = true ∧ status.unchainedEvents = 0) ↔
        t.Convincing crypto ring written := by
  have hstart : startOf true state.head t = (0, genesisHash) := by
    unfold startOf
    split
    · rfl
    · exact if_neg fun h => by cases h.1
  have hpasses : (∃ hash, Passes (linkFailure crypto ring serverTz) genesisHash (t.rowsAfter 0)
      hash) ↔ GenuineRows crypto ring genesisHash written (t.rowsAfter 0) :=
    passes_iff hinj hgenesis (List.nil_append written ▸ hhonest) hforge _
  rw [Tables.Convincing, ← unchainedCount_eq_zero]
  constructor
  · rintro ⟨status, state', hstatus, hvalid, hunchained⟩
    rw [auditChainStatus, hstart] at hstatus
    rcases bind_eq_ok_iff.mp hstatus with ⟨decoded, hdecoded, hwalks⟩
    rcases bind_eq_ok_iff.mp hwalks with ⟨walked, hwalked, hresult⟩
    rw [hread] at hdecoded
    cases hdecoded
    cases hresult
    refine ⟨hpasses.mp ?_, hunchained⟩
    rcases walked with ⟨failure, last⟩
    have hnone : failure = none := Option.isNone_iff_eq_none.mp hvalid
    subst hnone
    exact (walk_eq_ok_none hwalked).1
  · rintro ⟨hrows, hunchained⟩
    rcases hpasses.mpr hrows with ⟨hash, hrows'⟩
    have hwalk : walkFrom crypto ring serverTz (0, genesisHash) t =
        .ok ⟨none, lastSeen none (t.rowsAfter 0)⟩ := by
      have happend := walk_append hrows' none []
      rw [List.append_nil] at happend
      exact happend
    let state' := state.finish state.generation now .full ⟨none, lastSeen none (t.rowsAfter 0)⟩
    have hstatus : auditChainStatus crypto ring.dsaPk serverTz true now state ⟨t, keys⟩ =
        .ok (chainStatus 0 t.linkCount t.unchainedCount ⟨none, lastSeen none (t.rowsAfter 0)⟩
          state', state') := by
      rw [auditChainStatus, hstart]
      refine bind_eq_ok_iff.mpr ⟨ring.keys, hread, ?_⟩
      exact bind_eq_ok_iff.mpr ⟨_, hwalk, rfl⟩
    exact ⟨_, _, hstatus, rfl, hunchained⟩

/-- The hash is free of collisions and never the one the first link points at, the history is
honest, its keys are intact, and nobody else has signed a chain hash. -/
structure HonestlyWritten (crypto : Crypto) (keys : List (String × String)) (ring : Keyring)
    (written : List Written) (honest : Tables) : Prop where
  collisionFree : ∀ a b, crypto.sha256 a = crypto.sha256 b → a = b
  genesis : ∀ a, crypto.sha256 a ≠ genesisHash
  history : History crypto written honest
  keys : KeysIntact crypto keys ring written
  unforgeable : Unforgeable crypto ring written

/-- Tamper evidence: a full check finds nothing in an honest history; and when it finds nothing
in edited tables, these hold a prefix of the history, exactly unless a link was put in front of
the ones that are walked or the metadata of an event was exchanged for another empty value. -/
theorem tamper_evident {honest : Tables}
    (h : HonestlyWritten crypto keys ring written honest) (now : DateTime)
    (state : VerifiedChain) :
    (∃ status state', auditChainStatus crypto ring.dsaPk serverTz true now state
      ⟨honest, keys⟩ = .ok (status, state') ∧ status.valid = true ∧
        status.unchainedEvents = 0) ∧
    ∀ t : Tables, t.Unique →
      ((∀ status state', auditChainStatus crypto ring.dsaPk serverTz true now state ⟨t, keys⟩ =
        .ok (status, state') → status.valid = true → status.unchainedEvents = 0 →
          t.StoredPrefix written) ↔ t.HoldsWhen crypto ring written) := by
  rcases h.history.spec with ⟨-, -, hhonest⟩
  have hcheck : ∀ t : Tables, (∃ status state', auditChainStatus crypto ring.dsaPk serverTz true
      now state ⟨t, keys⟩ = .ok (status, state') ∧ status.valid = true ∧
        status.unchainedEvents = 0) ↔ t.Convincing crypto ring written := by
    intro t
    exact fullCheck_iff h.collisionFree h.genesis hhonest h.keys.read h.unforgeable now state
  constructor
  · exact (hcheck honest).mpr (h.history.convincing h.keys)
  · intro t hunique
    rw [Tables.HoldsWhen]
    constructor
    · intro hclaim
      by_cases hconvincing : t.Convincing crypto ring written
      · rcases (hcheck t).mpr hconvincing with ⟨status, state', hstatus, hvalid, hunchained⟩
        have hstored := hclaim status state' hstatus hvalid hunchained
        exact Or.inr ((storedPrefix_iff hunique hconvincing).mp hstored)
      · exact Or.inl hconvincing
    · intro hcondition status state' hstatus hvalid hunchained
      have hconvincing := (hcheck t).mp ⟨status, state', hstatus, hvalid, hunchained⟩
      rcases hcondition with hnot | hkept
      · exact absurd hconvincing hnot
      · exact (storedPrefix_iff hunique hconvincing).mpr hkept

end FullCheck

/-! ## Edited tables -/

/-- Signatures that hold the message; only the two checkpoints of the sample were signed. -/
def evidenceCrypto : Crypto where
  sha256 := sampleSha256
  dsaSign := fun sk message => sk ++ message
  dsaVerify := fun pk message signature =>
    .ok (signature = pk ++ message ∧
      message ∈ [utf8 (hexdigest sampleDigest), utf8 (hexdigest nextDigest)])

/-- The first event of the history. -/
def sampleWritten : Written where
  toReading := sampleReading "l1"
  pending := pendingAudit evidenceCrypto sampleServer "e1" none "login" none none .null

/-- The second one. -/
def nextWritten : Written where
  toReading := sampleReading "l2"
  pending := pendingAudit evidenceCrypto sampleServer "e2" none "logout" none none .null

/-- The rows of `server_signing_keys`. -/
def sampleKeys : List (String × String) :=
  [("k1", b64 [1, 2, 3])]

/-- The keys as a check reads them. -/
def sampleRing : Keyring where
  keys := [("k1", [1, 2, 3])]
  dsaPk := none

/-- The tables after the first event. -/
def firstTables : Tables :=
  Tables.insert evidenceCrypto ⟨[], [], []⟩ [sampleWritten]

/-- The honest tables. -/
def sampleTables : Tables :=
  Tables.insert evidenceCrypto firstTables [nextWritten]

/-- The tables without the second event, and with another sequence number for the first. -/
def prunedTables : Tables :=
  { firstTables with
    links := firstTables.links.map fun link => { link with sequence := 7 } }

/-- An event that was never written. -/
def forgedLog : AuditLog where
  id := "forged"
  userId := none
  action := "approve"
  resourceType := none
  resourceId := none
  metadataJson := .obj []
  pqcSignature := none
  signingKeyId := none
  createdAt := none

/-- A link for it, with the sequence number zero and without any hash or signature. -/
def forgedLink : AuditChainLink where
  id := "l0"
  sequence := 0
  auditLogId := "forged"
  previousHash := ""
  entryHash := genesisHash
  checkpointSignature := ""
  signingKeyId := none
  createdAt := none

/-- The honest tables with the two rows. -/
def forgedTables : Tables :=
  { sampleTables with
    logs := forgedLog :: sampleTables.logs
    links := forgedLink :: sampleTables.links }

theorem sample_ne_genesis (a : Bytes) : sampleSha256 a ≠ genesisHash := by
  intro h
  unfold sampleSha256 Digests.hash at h
  split at h
  · rename_i digest hdigest
    have hmem := List.mem_map_of_mem (f := Prod.snd) (Dict.mem_of_lookup hdigest)
    rw [List.map_cons, List.map_singleton, List.mem_pair] at hmem
    rcases hmem with rfl | rfl
    · revert h
      decide +kernel
    · revert h
      decide +kernel
  · have hchars := String.ofList_injective h
    cases hchars

theorem sample_entryHashes : (chainLinks evidenceCrypto 0 genesisHash
    [sampleWritten, nextWritten]).map AuditChainLink.entryHash =
      [hexdigest sampleDigest, hexdigest nextDigest] := by
  decide +kernel

/-- The history of the two events. -/
theorem sample_history : History evidenceCrypto [sampleWritten, nextWritten] sampleTables := by
  have hfirst : insertChainLinks evidenceCrypto none ⟨[], [], []⟩ [sampleWritten] =
      .ok firstTables := by
    rw [insertChainLinks]
    exact if_pos (by decide +kernel)
  have hnext : insertChainLinks evidenceCrypto none firstTables [nextWritten] =
      .ok sampleTables := by
    rw [insertChainLinks]
    exact if_pos (by decide +kernel)
  have hone : History evidenceCrypto [sampleWritten] firstTables := by
    refine .append (.empty []) (fun w hw => ?_) hfirst
    exact ⟨none, "login", none, none, .null, List.mem_singleton.mp hw ▸ rfl⟩
  refine .append hone (fun w hw => ?_) hnext
  exact ⟨none, "logout", none, none, .null, List.mem_singleton.mp hw ▸ rfl⟩

theorem sample_honestlyWritten : HonestlyWritten evidenceCrypto sampleKeys sampleRing
    [sampleWritten, nextWritten] sampleTables := by
  constructor
  case collisionFree => exact fun a b h => Digests.hash_injective _ a b h
  case genesis => exact sample_ne_genesis
  case history => exact sample_history
  case keys =>
    constructor
    case read =>
      refine bind_eq_ok_iff.mpr ⟨[1, 2, 3], unb64_b64 _, ?_⟩
      exact bind_eq_ok_iff.mpr ⟨[], rfl, rfl⟩
    case unique => exact List.nodup_singleton _
    case registered =>
      intro w hw
      have hserver : w.server = sampleServer := by
        rcases List.mem_pair.mp hw with rfl | rfl <;> rfl
      rw [hserver]
      exact ⟨"k1", rfl, List.mem_singleton.mpr rfl, List.cons_ne_nil _ _⟩
    case verifies =>
      intro before w after h
      have hserver : w.server = sampleServer := by
        have hw : w ∈ [sampleWritten, nextWritten] :=
          h ▸ List.mem_append_right _ (List.mem_cons_self ..)
        rcases List.mem_pair.mp hw with rfl | rfl <;> rfl
      have hhash : w.hashAfter evidenceCrypto (lastHash evidenceCrypto genesisHash before) ∈
          [hexdigest sampleDigest, hexdigest nextDigest] := by
        rw [← sample_entryHashes, mem_entryHashes]
        exact ⟨before, w, after, h, rfl⟩
      rw [hserver]
      exact congrArg Except.ok (decide_eq_true ⟨rfl, List.mem_map_of_mem (f := utf8) hhash⟩)
  case unforgeable =>
    intro signingKeyId pk _ id stamp payload previousHash signature hverify
    have hsigned := (of_decide_eq_true (Except.ok.inj hverify)).2
    rw [sample_entryHashes]
    rcases List.mem_pair.mp hsigned with hfirst | hnext
    · rw [utf8_injective hfirst]
      exact List.mem_cons_self ..
    · rw [utf8_injective hnext]
      exact List.mem_cons_of_mem _ (List.mem_cons_self ..)

/-- A full check finds nothing in some tables. -/
def Unsuspected (t : Tables) : Prop :=
  ∃ status state', auditChainStatus evidenceCrypto none none true (sampleReading "l1").createdAt
    ⟨none, none, 0⟩ ⟨t, sampleKeys⟩ = .ok (status, state') ∧ status.valid = true ∧
      status.unchainedEvents = 0

/-- What the check answers. -/
theorem unsuspected_of_answer {t : Tables}
    (h : (auditChainStatus evidenceCrypto none none true (sampleReading "l1").createdAt
      ⟨none, none, 0⟩ ⟨t, sampleKeys⟩).toOption.map
        (fun answer => (answer.1.valid, answer.1.unchainedEvents)) = some (true, 0)) :
    Unsuspected t := by
  rcases Option.map_eq_some_iff.mp h with ⟨⟨status, state'⟩, hanswer, hfields⟩
  rw [Prod.mk.injEq] at hfields
  refine ⟨status, state', ?_, hfields⟩
  revert hanswer
  cases auditChainStatus evidenceCrypto none none true (sampleReading "l1").createdAt
    ⟨none, none, 0⟩ ⟨t, sampleKeys⟩ with
  | error error => exact fun hanswer => by cases hanswer
  | ok answer => exact fun hanswer => congrArg Except.ok (Option.some.inj hanswer)

/-- The full check of two events, and of tables from which the second was taken. -/
theorem tamper_evident_sample : Unsuspected sampleTables ∧ Unsuspected prunedTables ∧
    prunedTables.StoredPrefix [sampleWritten, nextWritten] := by
  have hevident := @tamper_evident _ _ _ _ none _ sample_honestlyWritten
    (sampleReading "l1").createdAt ⟨none, none, 0⟩
  have hpruned : Unsuspected prunedTables := unsuspected_of_answer (by decide +kernel)
  have hkept : prunedTables.HoldsWhen evidenceCrypto sampleRing [sampleWritten, nextWritten] := by
    refine Or.inr (Or.inl ⟨fun link hlink => ?_, fun row hrow log hlog => ?_⟩)
    · rw [List.mem_singleton.mp hlink]
      decide
    · have hrows : prunedTables.rowsAfter 0 = [⟨_, some sampleWritten.log⟩] := rfl
      rw [hrows, List.mem_singleton] at hrow
      subst hrow
      cases hlog
      rfl
  refine ⟨hevident.1, hpruned, ?_⟩
  rcases hpruned with ⟨status, state', hstatus, hvalid, hunchained⟩
  exact (hevident.2 prunedTables (by decide +kernel)).mpr hkept status state' hstatus hvalid
    hunchained

/-- An inserted event whose link has the sequence number zero is reported by no check. -/
theorem tamper_evident_forged :
    HonestlyWritten evidenceCrypto sampleKeys sampleRing [sampleWritten, nextWritten]
        sampleTables ∧
      forgedTables.Unique ∧ Unsuspected forgedTables ∧
        ¬forgedTables.StoredPrefix [sampleWritten, nextWritten] := by
  refine ⟨sample_honestlyWritten, by decide +kernel, unsuspected_of_answer (by decide +kernel), ?_⟩
  intro h
  have hlength := h.length_le
  rw [Tables.storedEvents, List.length_map, List.length_insertionSort] at hlength
  exact absurd hlength (by decide)

end QuantumSentinel.Audit
