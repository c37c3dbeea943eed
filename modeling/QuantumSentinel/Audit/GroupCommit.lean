import QuantumSentinel.Lib.Transition
import QuantumSentinel.Audit.Chain

/-!
# The audit appender: one thread commits for others

The class `_AuditAppender` of `security_service.py` and the two functions its writer
calls.  Each process has an appender: a queue, and a flag that a batch is being written, both
under one condition variable.  A state holds the tables, the appenders and the calls of
`append` in progress; an action is one section under the lock of a condition variable,
one transaction, or one mark on a written entry.  The database lock makes a transaction one
step, in whatever order the processes get it.

Main results:

- Definition `auditMachine`: the interleaved system.
- Theorem `AuditState.look_cases`: a call returns, waits or becomes the writer.

Current gaps:

- An interrupt of the writer that is no `Exception`.
- `wait` wakes at `notify_all` only.
-/

namespace QuantumSentinel.Audit

open Lib

/-- A call of `append`. -/
abbrev CallId := ℕ

/-- An `_AuditAppender`, one in each process. -/
abbrev AppenderId := ℕ

/-- Where a call stands. -/
inductive Phase
  /-- about to take the lock of the condition variable -/
  | looking
  /-- in `wait` -/
  | waiting
  /-- about to write its batch in one transaction -/
  | whole (batch : List CallId)
  /-- the batch failed: the entries still to be written alone -/
  | singles (batch rest : List CallId)
  /-- the entries still to be marked as done -/
  | marking (batch rest : List CallId)
  /-- returned, or raised an error -/
  | returned (error : Option String)
deriving DecidableEq

/-- A call with its entry, the two fields of it that report the outcome, and its thread. -/
structure Call where
  appender : AppenderId
  entry : PendingAudit
  done : Bool
  error : Option String
  phase : Phase

/-- The fields of an appender. -/
structure Appender where
  queue : List CallId
  writing : Bool

/-- The system state. -/
structure AuditState where
  tables : Tables
  calls : Dict CallId Call
  appenders : AppenderId → Appender

/-- `_AUDIT_BATCH_MAX` -/
def auditBatchMax : ℕ := 8

/-- One section, transaction or mark. -/
inductive AuditAction
  /-- a call puts its entry into the queue -/
  | append (call : CallId) (appender : AppenderId) (entry : PendingAudit)
  /-- a call looks at its entry and the flag: it waits, returns or becomes the writer -/
  | look (call : CallId)
  /-- the writer writes its batch -/
  | insert (call : CallId) (fault : Option String) (readings : List Reading)
  /-- the writer writes one entry of a failed batch alone -/
  | retry (call : CallId) (fault : Option String) (reading : Reading)
  /-- the writer marks one entry as done -/
  | mark (call : CallId)
  /-- the writer clears the flag and wakes all -/
  | release (call : CallId)

/-- Whether an action starts a call. -/
def AuditAction.isAppend : AuditAction → Bool
  | .append .. => true
  | _ => false

/-- The first entry of a failed batch is written alone next, if there is one. -/
def Phase.ofSingles (batch : List CallId) : List CallId → Phase
  | [] => .marking batch batch
  | p :: rest => .singles batch (p :: rest)

/-- `notify_all` for one call, and the marks on what an interrupt left. -/
def Call.wake (appender : AppenderId) (batch : List CallId) (id : CallId) (call : Call) : Call :=
  let settled :=
    if id ∈ batch ∧ call.done = false then
      { call with done := true, error := some "audit write interrupted" }
    else call
  if call.appender = appender ∧ call.phase = .waiting then { settled with phase := .looking }
  else settled

namespace AuditState

variable (s : AuditState)

/-- Change a call. -/
def modify (c : CallId) (f : Call → Call) : AuditState :=
  { s with calls := s.calls.updateWhere c (fun _ => true) f }

/-- A call goes on. -/
def restage (c : CallId) (phase : Phase) : AuditState :=
  s.modify c fun call => { call with phase := phase }

/-- An entry failed. -/
def fail (c : CallId) (error : String) : AuditState :=
  s.modify c fun call => { call with error := some error }

/-- The first section of `append`. -/
def enqueue (c : CallId) (a : AppenderId) (entry : PendingAudit) : AuditState :=
  { s with
    calls := s.calls.set c ⟨a, entry, false, none, .looking⟩
    appenders := Function.update s.appenders a
      { s.appenders a with queue := (s.appenders a).queue ++ [c] } }

/-- The section in the loop of `append`. -/
def look (c : CallId) (call : Call) : AuditState :=
  let appender := s.appenders call.appender
  if call.done then s.restage c (.returned call.error)
  else if appender.writing then s.restage c .waiting
  else
    { s.restage c (.whole (appender.queue.take auditBatchMax)) with
      appenders := Function.update s.appenders call.appender
        ⟨appender.queue.drop auditBatchMax, true⟩ }

/-- A call returns, waits or becomes the writer. -/
theorem look_cases (c : CallId) (call : Call) :
    (call.done = true ∧ s.look c call = s.restage c (.returned call.error)) ∨
    (call.done = false ∧ (s.appenders call.appender).writing = true ∧
      s.look c call = s.restage c .waiting) ∨
    (call.done = false ∧ (s.appenders call.appender).writing = false ∧
      s.look c call =
        { s.restage c (.whole ((s.appenders call.appender).queue.take auditBatchMax)) with
          appenders := Function.update s.appenders call.appender
            ⟨(s.appenders call.appender).queue.drop auditBatchMax, true⟩ }) := by
  unfold look
  cases call.done with
  | true => exact Or.inl ⟨rfl, rfl⟩
  | false =>
    cases hflag : (s.appenders call.appender).writing with
    | true =>
      refine Or.inr (Or.inl ⟨rfl, rfl, ?_⟩)
      simp only [hflag, Bool.false_eq_true, if_false, if_true]
    | false =>
      refine Or.inr (Or.inr ⟨rfl, rfl, ?_⟩)
      simp only [hflag, Bool.false_eq_true, if_false]

/-- The entries of some calls. -/
def entries (batch : List CallId) : List PendingAudit :=
  batch.filterMap fun c => (s.calls.get? c).map Call.entry

/-- The entries of some calls with what the writer reads for them. -/
def readAs (batch : List CallId) (readings : List Reading) : List Written :=
  List.zipWith (fun entry reading => { reading with pending := entry }) (s.entries batch) readings

/-- `_write_chain_batch` up to the end of its first transaction. -/
def insertBatch (crypto : Crypto) (c : CallId) (batch : List CallId) (fault : Option String)
    (readings : List Reading) : AuditState :=
  match insertChainLinks crypto fault s.tables (s.readAs batch readings) with
  | .ok tables => { s.restage c (.marking batch batch) with tables := tables }
  | .error error =>
    match batch with
    | [single] => (s.fail single error).restage c (.marking batch batch)
    | _ => s.restage c (.ofSingles batch batch)

/-- One entry of a failed batch. -/
def insertSingle (crypto : Crypto) (c : CallId) (batch : List CallId) (p : CallId)
    (rest : List CallId) (fault : Option String) (reading : Reading) : AuditState :=
  match insertChainLinks crypto fault s.tables (s.readAs [p] [reading]) with
  | .ok tables => { s.restage c (.ofSingles batch rest) with tables := tables }
  | .error error => (s.fail p error).restage c (.ofSingles batch rest)

/-- The section that ends the work of a writer. -/
def finish (c : CallId) (batch : List CallId) (a : AppenderId) : AuditState :=
  { (s.restage c .looking) with
    calls := (s.restage c .looking).calls.mapValues (Call.wake a batch)
    appenders := Function.update s.appenders a { s.appenders a with writing := false } }

/-- One step.  The id of an entry comes from `gen_uuid`: no call has it yet. -/
def step (crypto : Crypto) (s : AuditState) : AuditAction → Option AuditState
  | .append c a entry =>
    if c ∉ s.calls.keys ∧ ∀ call ∈ s.calls.values, call.entry.logId ≠ entry.logId then
      some (s.enqueue c a entry)
    else none
  | .look c =>
    match s.calls.get? c with
    | some call => if call.phase = .looking then some (s.look c call) else none
    | none => none
  | .insert c fault readings =>
    match (s.calls.get? c).map Call.phase with
    | some (.whole batch) =>
      if readings.length = batch.length then
        some (s.insertBatch crypto c batch fault readings)
      else none
    | _ => none
  | .retry c fault reading =>
    match (s.calls.get? c).map Call.phase with
    | some (.singles batch (p :: rest)) =>
      some (s.insertSingle crypto c batch p rest fault reading)
    | _ => none
  | .mark c =>
    match (s.calls.get? c).map Call.phase with
    | some (.marking batch (p :: rest)) =>
      some ((s.modify p fun call => { call with done := true }).restage c
        (.marking batch rest))
    | _ => none
  | .release c =>
    match s.calls.get? c with
    | some call =>
      match call.phase with
      | .marking batch [] => some (s.finish c batch call.appender)
      | _ => none
    | none => none

end AuditState

/-- The interleaved system, from an empty chain. -/
def auditMachine (crypto : Crypto) (users : List String) : Machine AuditState AuditAction where
  init := ⟨⟨users, [], []⟩, Dict.empty, fun _ => ⟨[], false⟩⟩
  step := AuditState.step crypto

end QuantumSentinel.Audit
