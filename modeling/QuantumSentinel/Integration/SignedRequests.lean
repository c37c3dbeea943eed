import Mathlib.Algebra.Order.Group.Unbundled.Int
import Mathlib.Data.List.DropRight
import QuantumSentinel.Lib.Bytes
import QuantumSentinel.Lib.Dict
import QuantumSentinel.Lib.Transition

/-!
# API keys: requests signed with HMAC

The dependency `require_api_scope` in front of the SDK routes: a request is signed over its
method, path, timestamp, nonce and body, or carries a bearer key.  An accepted signature uses up
its nonce, in Redis or in the store of the process.  Times are microseconds.

Main results:

- Definition `ApiConfig.verifyHmacRequest`: the checks of a signed request.
- Definition `ApiConfig.requireApiScope`: the dependency, with the nonce.
- Definition `apiService`: requests at increasing times, with keys created and revoked.

Current gaps:

- A request is handled at one time, and Redis keeps that time too.
- Decimal digits and blanks outside Latin-1, which a header does not have.
- Other uses of the two key-value stores; they use other keys.
-/

namespace QuantumSentinel.Integration

open Lib

/-! ## Timestamps -/

/-- The blanks of `int`. -/
def isBlank (c : Char) : Bool :=
  c = ' ' || (9 ≤ c.toNat && c.toNat ≤ 13) || (28 ≤ c.toNat && c.toNat ≤ 31) || c.toNat = 133 ||
    c.toNat = 160

/-- The text between leading and trailing blanks. -/
def strip (chars : List Char) : List Char :=
  (chars.dropWhile isBlank).rdropWhile isBlank

/-- The digits behind a digit, with single underscores between them. -/
def digitsValue? : ℕ → List Char → Option ℕ
  | n, [] => some n
  | n, '_' :: c :: rest =>
    if c.isDigit then digitsValue? (10 * n + (c.toNat - 48)) rest else none
  | n, c :: rest => if c.isDigit then digitsValue? (10 * n + (c.toNat - 48)) rest else none

/-- Digits, as many as `int` takes. -/
def natValue? (chars : List Char) : Option ℕ :=
  match chars with
  | c :: rest =>
    if c.isDigit ∧ (chars.filter Char.isDigit).length ≤ 4300 then
      digitsValue? (c.toNat - 48) rest
    else none
  | [] => none

/-- `int` of a text, nothing where it raises. -/
def parseInt? (text : String) : Option ℤ :=
  match strip text.toList with
  | '-' :: rest => (natValue? rest).map fun n : ℕ => -(n : ℤ)
  | '+' :: rest => (natValue? rest).map fun n : ℕ => (n : ℤ)
  | chars => (natValue? chars).map fun n : ℕ => (n : ℤ)

example : parseInt? " +1_700\t" = some 1700 := by decide

/-! ## Keys and requests -/

/-- Microseconds since the epoch. -/
abbrev Time := ℕ

/-- The seconds of `int(now.timestamp())`. -/
def seconds (now : Time) : ℤ :=
  (now / 1000000 : ℕ)

/-- `models.ApiKey` -/
structure ApiKey where
  userId : String
  keyHash : String
  hmacSecretEncrypted : Option String
  scopes : List String
  lastUsedAt : Option Time
  expiresAt : Option Time
  isRevoked : Bool
deriving DecidableEq

namespace ApiKey

variable (key : ApiKey)

/-- The scopes of a key include one, or `admin`. -/
def allows (scope : String) : Bool :=
  key.scopes.contains scope || key.scopes.contains "admin"

/-- The key has expired. -/
def expired (now : Time) : Bool :=
  key.expiresAt.any fun expiry => decide (expiry < now)

/-- The key in use. -/
def used (now : Time) : ApiKey :=
  { key with lastUsedAt := some now }

end ApiKey

/-- What a signature is over. -/
structure SignedRequest where
  method : String
  path : String
  timestamp : String
  nonce : String
  body : Bytes
deriving DecidableEq

/-- A request, with the headers of both ways to sign in. -/
structure HttpRequest where
  method : String
  path : String
  body : Bytes
  /-- `x_qs_api_key` -/
  apiKey : Option String
  /-- `x_qs_key_id` -/
  keyId : Option String
  /-- `x_qs_timestamp` -/
  timestamp : Option String
  /-- `x_qs_nonce` -/
  nonce : Option String
  /-- `x_qs_signature` -/
  signature : Option String

/-- A request as one that is signed. -/
structure Signed where
  keyId : String
  signature : String
  request : SignedRequest
deriving DecidableEq

/-- A header that is there and not empty. -/
def given? (header : Option String) : Option String :=
  header.filter fun text => text ≠ ""

/-- The four headers of a signed request, if none is missing. -/
def HttpRequest.signed? (r : HttpRequest) : Option Signed := do
  let keyId ← given? r.keyId
  let timestamp ← given? r.timestamp
  let nonce ← given? r.nonce
  let signature ← given? r.signature
  return ⟨keyId, signature, ⟨r.method, r.path, timestamp, nonce, r.body⟩⟩

/-- Why a request fails. -/
inductive ApiError
  /-- `HTTPException` -/
  | http (status : ℕ) (detail : String)
  /-- another exception -/
  | raised (name : String)
deriving DecidableEq

/-! ## Checks -/

/-- The library functions and settings the checks use. -/
structure ApiConfig where
  /-- `str.upper` -/
  upper : String → String
  /-- `hashlib.sha256(data).hexdigest()` -/
  sha256 : Bytes → String
  /-- `hmac.new(key, message, hashlib.sha256).hexdigest()` -/
  hmac : Bytes → Bytes → String
  /-- `decrypt_hmac_secret`, nothing where it raises -/
  decryptHmacSecret : String → Option String
  /-- there is a Redis client -/
  redisClient : Bool
  /-- `ENVIRONMENT == "production"` -/
  production : Bool

namespace ApiConfig

variable (cfg : ApiConfig)

/-- `message`, the text that is signed. -/
def message (r : SignedRequest) : String :=
  cfg.upper r.method ++ "||" ++ r.path ++ "||" ++ r.timestamp ++ "||" ++ r.nonce ++ "||" ++
    cfg.sha256 r.body

/-- `expected_sig` -/
def expectedSig (secret : String) (r : SignedRequest) : String :=
  cfg.hmac (utf8 secret) (utf8 (cfg.message r))

/-- `compare_digest` of texts, which takes ASCII only. -/
def compareDigest (a b : String) : Except ApiError Bool :=
  if a.toList.all (fun c => c.toNat < 128) && b.toList.all (fun c => c.toNat < 128) then
    .ok (decide (a = b))
  else .error (.raised "TypeError")

/-- The secret of a key, if it has one that can be decrypted. -/
def secret? (key : ApiKey) : Option String :=
  (given? key.hmacSecretEncrypted).bind cfg.decryptHmacSecret

/-- `verify_hmac_request`: the key with the time of its use. -/
def verifyHmacRequest (keys : Dict String ApiKey) (now : Time) (signed : Signed)
    (scope : String) : Except ApiError (Option ApiKey) :=
  match (keys.get? signed.keyId).filter fun key => !key.isRevoked with
  | none => .ok none
  | some key =>
    if !key.allows scope || key.expired now then .ok none
    else
      match parseInt? signed.request.timestamp with
      | none => .ok none
      | some ts =>
        if 30 < |seconds now - ts| then .ok none
        else
          match cfg.secret? key with
          | none => .ok none
          | some secret =>
            match compareDigest signed.signature (cfg.expectedSig secret signed.request) with
            | .error e => .error e
            | .ok false => .ok none
            | .ok true => .ok (some (key.used now))

/-- `verify_api_key`: the id of the key, and the key with the time of its use. -/
def verifyApiKey (keys : Dict String ApiKey) (now : Time) (rawKey scope : String) :
    Option (String × ApiKey) :=
  match keys.items.find? fun item =>
      item.2.keyHash = cfg.sha256 (utf8 rawKey) && !item.2.isRevoked with
  | none => none
  | some item =>
    if !item.2.allows scope || item.2.expired now then none else some (item.1, item.2.used now)

/-! ## Nonces -/

/-- The entries of the two key-value stores that hold nonces, with the time each is kept to. -/
structure NonceStores where
  redis : Dict String Time
  /-- `_mem_kv` -/
  memKv : Dict String Time

/-- `_cleanup_mem`; an entry without an expiry stays. -/
def cleanupMem (now : Time) (memKv : Dict String Time) : Dict String Time where
  items := memKv.items.filter fun item => item.2 = 0 || now ≤ item.2
  nodup := memKv.nodup.sublist (List.filter_sublist.map Prod.fst)

/-- `SET key 1 NX EX ttl` -/
def redisSetNx (now ttl : Time) (key : String) (redis : Dict String Time) :
    Option (Dict String Time) :=
  if (redis.get? key).any fun expiry => now ≤ expiry then none else some (redis.set key (now + ttl))

/-- `set_nx_ex`: whether the key was set.  Redis may fail; then production raises, and
development goes on with the store of the process. -/
def setNxEx (stores : NonceStores) (now : Time) (redisFails : Bool) (key : String) (ttl : Time) :
    Except ApiError Bool × NonceStores :=
  if cfg.redisClient && !redisFails then
    match redisSetNx now ttl key stores.redis with
    | some redis => (.ok true, { stores with redis := redis })
    | none => (.ok false, stores)
  else if cfg.redisClient && cfg.production then (.error (.raised "RedisError"), stores)
  else
    let memKv := cleanupMem now stores.memKv
    if (memKv.get? key).any fun expiry => now < expiry then
      (.ok false, { stores with memKv := memKv })
    else (.ok true, { stores with memKv := memKv.set key (now + ttl) })

/-- The key of a nonce. -/
def nonceKey (keyId nonce : String) : String :=
  "qs:api:nonce:" ++ cfg.sha256 (utf8 (keyId ++ ":" ++ nonce))

/-- `consume_api_nonce` -/
def consumeApiNonce (stores : NonceStores) (now : Time) (redisFails : Bool)
    (keyId nonce : String) : Except ApiError Bool × NonceStores :=
  cfg.setNxEx stores now redisFails (cfg.nonceKey keyId nonce) (300 * 1000000)

end ApiConfig

/-! ## The service -/

/-- A signature that was accepted, and when. -/
structure Accepted where
  signed : Signed
  time : Time
deriving DecidableEq

/-- The keys, the nonces, the time of the last request, and the accepted signatures, the latest
first. -/
structure ApiState where
  keys : Dict String ApiKey
  stores : ApiConfig.NonceStores
  clock : Time
  accepted : List Accepted

namespace ApiConfig

variable (cfg : ApiConfig)

/-- The dependency of `require_api_scope`: the key or the error, and the state after. -/
def requireApiScope (scope : String) (s : ApiState) (now : Time) (redisFails : Bool)
    (request : HttpRequest) : Except ApiError ApiKey × ApiState :=
  match request.signed? with
  | some signed =>
    match cfg.verifyHmacRequest s.keys now signed scope with
    | .error e => (.error e, s)
    | .ok none =>
      (.error (.http 403 "Invalid HMAC signature or insufficient scope"), s)
    | .ok (some key) =>
      let (answer, stores) :=
        cfg.consumeApiNonce s.stores now redisFails signed.keyId signed.request.nonce
      let s := { s with keys := s.keys.set signed.keyId key, stores := stores }
      match answer with
      | .error e => (.error e, s)
      | .ok false => (.error (.http 409 "API request nonce already used"), s)
      | .ok true => (.ok key, { s with accepted := ⟨signed, now⟩ :: s.accepted })
  | none =>
    match given? request.apiKey with
    | none => (.error (.http 401 "Missing X-QS-API-KEY or HMAC signature headers"), s)
    | some rawKey =>
      match cfg.verifyApiKey s.keys now rawKey scope with
      | none => (.error (.http 403 "Invalid API key or insufficient scope"), s)
      | some (id, key) => (.ok key, { s with keys := s.keys.set id key })

end ApiConfig

/-- What happens to the keys and their requests. -/
inductive ApiAction
  /-- a request for a scope, at a time -/
  | request (now : Time) (redisFails : Bool) (scope : String) (request : HttpRequest)
  /-- `create_api_key` -/
  | create (id : String) (key : ApiKey)
  /-- `revoke_api_key` by a user -/
  | revoke (user id : String)

/-- One action: time does not go back, and the id of a new key is new. -/
def ApiState.step (cfg : ApiConfig) (s : ApiState) : ApiAction → Option ApiState
  | .request now redisFails scope request =>
    if s.clock ≤ now then
      some { (cfg.requireApiScope scope s now redisFails request).2 with clock := now }
    else none
  | .create id key =>
    if s.keys.get? id = none then some { s with keys := s.keys.set id key } else none
  | .revoke user id =>
    match s.keys.get? id with
    | some key =>
      if key.userId = user then
        some { s with keys := s.keys.set id { key with isRevoked := true } }
      else some s
    | none => some s

/-- The service. -/
def apiService (cfg : ApiConfig) : Machine ApiState ApiAction where
  init := ⟨Dict.empty, ⟨Dict.empty, Dict.empty⟩, 0, []⟩
  step := ApiState.step cfg

end QuantumSentinel.Integration
