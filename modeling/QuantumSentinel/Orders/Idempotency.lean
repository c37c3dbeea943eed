import QuantumSentinel.Lib.Bytes
import QuantumSentinel.Lib.Dict
import QuantumSentinel.Lib.Json
import QuantumSentinel.Lib.Transition

/-!
# Orders: submissions under an idempotency key

`place_order` with the functions of `order_security.py` that reserve, release and
complete an idempotency key.  A state holds the committed rows and the calls in progress,
each with the request it was made with; a step is one statement or one commit of one call, so
calls interleave between any two of them, and any call can fail or die where it stands.

Main results:

- Definition `submissions`: the interleaved system.
- Theorem `requestHash_injective`: payloads with one hash are the same.

Current gaps:

- What the checks before the reservation look at, and what the order does to the account: a
  call may pass or fail them at any time.
- A row deleted by hand.
-/

namespace QuantumSentinel.Orders

open Lib

/-! ## Requests and rows -/

/-- A `user_id`. -/
abbrev UserId := String

/-- A `trades.id`. -/
abbrev OrderId := String

/-- What `place_order` was called with. -/
structure Request where
  userId : UserId
  idempotencyKey : Option String
  /-- `req.model_dump(exclude={"signature"})` -/
  payload : Json

/-- The key of a row, by `uq_idempotency_user_key`. -/
abbrev Slot := UserId × String

/-- The row a request is about; an empty key is none. -/
def Request.slot (request : Request) : Option Slot :=
  match request.idempotencyKey with
  | none => none
  | some key => if key = "" then none else some (request.userId, key)

/-- `IdempotencyRecord` -/
structure Record where
  id : ℕ
  requestHash : String
  responseJson : Option Json

/-- The deployment. -/
structure OrderConfig where
  /-- `ENVIRONMENT == "production"` -/
  production : Bool
  /-- `hashlib.sha256(...).hexdigest()` -/
  sha256 : Bytes → String

/-- How `canonical_json` writes. -/
def orderStyle : JsonStyle where
  ensureAscii := false
  spaced := false

/-- `request_hash` -/
def OrderConfig.requestHash (cfg : OrderConfig) (payload : Json) : String :=
  cfg.sha256 (encodeChars (Json.dumps orderStyle payload))

/-- Payloads with one hash are the same up to the order of their members. -/
theorem requestHash_injective {cfg : OrderConfig}
    (hsha : ∀ a b, cfg.sha256 a = cfg.sha256 b → a = b) {p p' : Json}
    (h : cfg.requestHash p = cfg.requestHash p') : p.sorted = p'.sorted :=
  Json.dumps_injective (encodeChars_injective (hsha _ _ h))

/-! ## Calls -/

/-- How a call fails. -/
inductive Failure
  | http (status : ℕ) (detail : String)
  /-- any other exception, or the death of the worker -/
  | exception
deriving DecidableEq, Repr

/-- Where a call stands. -/
inductive Phase
  /-- before `get_completed_idempotency_response` -/
  | submitted
  /-- no stored response; quotes, risk checks and signature come next -/
  | unanswered
  /-- all checks passed; the query of `reserve_idempotency` comes next -/
  | signed (orderId : OrderId)
  /-- the query found no row; the insert comes next -/
  | reserving (orderId : OrderId)
  /-- the key is reserved -/
  | reserved (orderId : OrderId)
  /-- no trade has the order's id -/
  | vacant (orderId : OrderId)
  /-- no trade was created; `release_idempotency` comes next -/
  | releasing (failure : Failure)
  /-- the trade is committed -/
  | ordered
  /-- the order is filled, closed or accepted; `complete_idempotency` comes next -/
  | answering (response : Json)
  /-- its query found a row; the update comes next -/
  | storing (id : ℕ) (response : Json)
  | returned (response : Json)
  | raised (failure : Failure)

namespace Phase

/-- The call is over. -/
def isOver : Phase → Bool
  | returned _ | raised _ => true
  | _ => false

/-- The call has reserved its key and neither released it nor stored a response. -/
def holds : Phase → Bool
  | reserved _ | vacant _ | releasing _ | ordered | answering _ | storing _ _ => true
  | _ => false

/-- The call has committed its trade, if it has not failed. -/
def placed : Phase → Bool
  | ordered | answering _ | storing _ _ | returned _ | raised _ => true
  | _ => false

/-- The call returns a response, or is about to store one. -/
def answers : Phase → Bool
  | storing _ _ | returned _ => true
  | _ => false

end Phase

/-- A call: its request and where it stands. -/
structure Call where
  request : Request
  phase : Phase

/-- The system state. -/
structure OrderState where
  records : Dict Slot Record
  /-- the trades, each with the call that created it -/
  trades : Dict OrderId ℕ
  calls : Dict ℕ Call

/-- One statement, commit or failure of a call. -/
inductive Action
  | submit (call : ℕ) (request : Request)
  /-- `get_completed_idempotency_response` -/
  | lookup (call : ℕ)
  /-- all checks up to the signature pass -/
  | sign (call : ℕ) (orderId : OrderId)
  /-- the query of `reserve_idempotency` -/
  | reserve (call : ℕ)
  /-- its insert, with the row's new id -/
  | insert (call : ℕ) (id : ℕ)
  /-- `db.get(models.Trade, order_id)` -/
  | findTrade (call : ℕ)
  /-- `try_reserve` returns false -/
  | refuse (call : ℕ)
  /-- the trade is committed, unless its id exists -/
  | commitTrade (call : ℕ)
  /-- the commit of the trade fails -/
  | failTrade (call : ℕ) (failure : Failure)
  /-- `release_idempotency` -/
  | release (call : ℕ)
  /-- the order is filled, closed or accepted, and serialised -/
  | settle (call : ℕ) (response : Json)
  /-- the query of `complete_idempotency` -/
  | findRecord (call : ℕ)
  /-- its update -/
  | store (call : ℕ)
  /-- the call fails or dies where it stands -/
  | fail (call : ℕ) (failure : Failure)

/-! ## Steps -/

/-- `[A-Za-z0-9_-]` -/
def isKeyChar (c : Char) : Bool :=
  c.isAlphanum || c = '_' || c = '-'

/-- `_validate_idempotency_key` -/
def keyFailure (cfg : OrderConfig) (request : Request) : Option Failure :=
  match request.slot with
  | none =>
    if cfg.production then
      some (.http 400 "Idempotency-Key is required for order submission")
    else none
  | some (_, key) =>
    if 8 ≤ key.length ∧ key.length ≤ 128 ∧ key.toList.all isKeyChar = true then none
    else some (.http 400 "invalid Idempotency-Key")

/-- What an existing row answers to a request. -/
def answer (cfg : OrderConfig) (request : Request) (record : Record) : Phase :=
  if record.requestHash ≠ cfg.requestHash request.payload then
    .raised (.http 409 "Idempotency-Key was already used with different payload")
  else
    match record.responseJson with
    | some response => .returned response
    | none => .raised (.http 409 "an order with this Idempotency-Key is in progress")

namespace OrderState

variable (s : OrderState)

/-- A call goes on. -/
def stage (call : ℕ) (request : Request) (phase : Phase) : OrderState :=
  { s with calls := s.calls.set call ⟨request, phase⟩ }

/-- The row of a request. -/
def recordOf (request : Request) : Option Record :=
  request.slot.bind s.records.get?

/-- A query that answers from the row, or goes on. -/
def query (cfg : OrderConfig) (call : ℕ) (request : Request) (next : Phase) : OrderState :=
  match keyFailure cfg request with
  | some failure => s.stage call request (.raised failure)
  | none =>
    match s.recordOf request with
    | some record => s.stage call request (answer cfg request record)
    | none => s.stage call request next

/-- The insert of `reserve_idempotency`; a row with the key makes it start again. -/
def insertRecord (cfg : OrderConfig) (call : ℕ) (request : Request) (orderId : OrderId)
    (slot : Slot) (id : ℕ) : OrderState :=
  match s.records.get? slot with
  | some _ => s.stage call request (.signed orderId)
  | none =>
    { s.stage call request (.reserved orderId) with
      records := s.records.set slot ⟨id, cfg.requestHash request.payload, none⟩ }

/-- `release_idempotency`: the row goes if it has no response. -/
def releaseSlot (slot : Slot) : OrderState :=
  match s.records.get? slot with
  | some record =>
    match record.responseJson with
    | none => { s with records := s.records.erase slot }
    | some _ => s
  | none => s

/-- The update of `complete_idempotency`; a row that is gone raises. -/
def storeResponse (call : ℕ) (request : Request) (slot : Slot) (id : ℕ) (response : Json) :
    OrderState :=
  match s.records.get? slot with
  | some record =>
    if record.id = id then
      { s.stage call request (.returned response) with
        records := s.records.set slot { record with responseJson := some response } }
    else s.stage call request (.raised .exception)
  | none => s.stage call request (.raised .exception)

end OrderState

/-- One step of the system. -/
def step (cfg : OrderConfig) (s : OrderState) : Action → Option OrderState
  | .submit call request =>
    match s.calls.get? call with
    | some _ => none
    | none => some (s.stage call request .submitted)
  | .lookup call =>
    match s.calls.get? call with
    | some ⟨request, .submitted⟩ => some (s.query cfg call request .unanswered)
    | _ => none
  | .sign call orderId =>
    match s.calls.get? call with
    | some ⟨request, .unanswered⟩ => some (s.stage call request (.signed orderId))
    | _ => none
  | .reserve call =>
    match s.calls.get? call with
    | some ⟨request, .signed orderId⟩ =>
      match request.slot with
      | none => some (s.query cfg call request (.reserved orderId))
      | some _ => some (s.query cfg call request (.reserving orderId))
    | _ => none
  | .insert call id =>
    match s.calls.get? call with
    | some ⟨request, .reserving orderId⟩ =>
      match request.slot with
      | none => none
      | some slot =>
        -- a `uuid4` is new
        if ∃ item ∈ s.records.items, item.2.id = id then none
        else some (s.insertRecord cfg call request orderId slot id)
    | _ => none
  | .findTrade call =>
    match s.calls.get? call with
    | some ⟨request, .reserved orderId⟩ =>
      match s.trades.get? orderId with
      | some _ =>
        some (s.stage call request (.releasing (.http 409 "order_id was already used")))
      | none => some (s.stage call request (.vacant orderId))
    | _ => none
  | .refuse call =>
    match s.calls.get? call with
    | some ⟨request, .vacant _⟩ =>
      some (s.stage call request
        (.releasing (.http 400 "insufficient available cash for this order")))
    | _ => none
  | .commitTrade call =>
    match s.calls.get? call with
    | some ⟨request, .vacant orderId⟩ =>
      match s.trades.get? orderId with
      -- the primary key
      | some _ => some (s.stage call request (.releasing .exception))
      | none =>
        some { s.stage call request .ordered with trades := s.trades.set orderId call }
    | _ => none
  | .failTrade call failure =>
    match s.calls.get? call with
    | some ⟨request, .vacant _⟩ => some (s.stage call request (.releasing failure))
    | _ => none
  | .release call =>
    match s.calls.get? call with
    | some ⟨request, .releasing failure⟩ =>
      match request.slot with
      | none => some (s.stage call request (.raised failure))
      | some slot => some ((s.releaseSlot slot).stage call request (.raised failure))
    | _ => none
  | .settle call response =>
    match s.calls.get? call with
    | some ⟨request, .ordered⟩ => some (s.stage call request (.answering response))
    | _ => none
  | .findRecord call =>
    match s.calls.get? call with
    | some ⟨request, .answering response⟩ =>
      match s.recordOf request with
      | none => some (s.stage call request (.returned response))
      | some record => some (s.stage call request (.storing record.id response))
    | _ => none
  | .store call =>
    match s.calls.get? call with
    | some ⟨request, .storing id response⟩ =>
      match request.slot with
      | none => none
      | some slot => some (s.storeResponse call request slot id response)
    | _ => none
  | .fail call failure =>
    match s.calls.get? call with
    | some ⟨request, phase⟩ =>
      if phase.isOver then none else some (s.stage call request (.raised failure))
    | none => none

/-- The system, with empty tables. -/
def submissions (cfg : OrderConfig) : Machine OrderState Action where
  init := ⟨Dict.empty, Dict.empty, Dict.empty⟩
  step := step cfg

end QuantumSentinel.Orders
