import Mathlib.Data.List.Sort
import QuantumSentinel.Lib.Dict

/-!
# Research job queue: rows and conditional updates

The table `research_jobs` and the functions of
`backend/services/research_jobs.py` that change it.  Each function is one
transaction; every write is a conditional update of one row, so each definition
here is an instance of `Dict.updateWhere` with the guard of its `WHERE` clause.
The two-transaction functions (`request_cancel`) and the reaper are given by
their statements, so that other transactions can fall between them.

Main results:

- Theorem `owned_iff`: the guard of every worker-side write.
- Theorem `oldestQueued_mem`: a claim only ever selects a queued row.
- Theorem `claimNext_eq_some`: the one row a successful claim rewrites.

Current gaps:

- Columns no modelled function reads (the `updated_at` bookkeeping of other
  tables, the heartbeat table) are left out; parameters and results are carried as
  encoded JSON.
-/

namespace QuantumSentinel.Jobs

open Lib

/-- Microseconds since the epoch, the resolution of a timestamp column. -/
abbrev Time := Int

/-- Primary key of a job. -/
abbrev JobId := String

/-- Worker identifier. -/
abbrev WorkerId := String

/-- An encoded JSON value; equal values have one encoding. -/
abbrev Json := String

/-- A JSON object as its fields with their encoded values. -/
abbrev JsonObject := List (String × Json)

/-- The `status` column. -/
inductive JobStatus
  | queued
  | running
  | succeeded
  | failed
  | cancelled
deriving DecidableEq, Repr

/-- `ACTIVE`: queued or running. -/
def JobStatus.isActive : JobStatus → Bool
  | .queued | .running => true
  | _ => false

/-- `TERMINAL`: succeeded, failed or cancelled. -/
def JobStatus.isTerminal : JobStatus → Bool
  | .succeeded | .failed | .cancelled => true
  | _ => false

/-- One row of `research_jobs`. -/
structure ResearchJob where
  userId : String
  kind : String
  params : JsonObject
  status : JobStatus
  cancelRequested : Bool
  attempts : Int
  maxAttempts : Int
  workerId : Option WorkerId
  leaseExpiresAt : Option Time
  createdAt : Time
  startedAt : Option Time
  finishedAt : Option Time
  resultJson : Option Json
  errorStatus : Option Int
  errorDetail : Option String
deriving DecidableEq, Repr

/-- The table, keyed by job id. -/
abbrev JobTable := Dict JobId ResearchJob

/-- Deployment settings the queue reads. -/
structure JobsConfig where
  maxAttempts : Int
  maxActiveJobsPerUser : Nat

/-- The names in `KINDS`. -/
def kinds : List String :=
  ["ma_backtest", "advanced_backtest", "walk_forward", "event_backtest", "alpha",
    "factor_model", "correlation", "optimize", "regime", "neutral_strategy",
    "pairs_trading", "latency_benchmark", "report", "stat_test", "experiment_run",
    "experiment_validate", "experiment_replay", "dataset_snapshot"]

/-! ## API side -/

/-- Why `enqueue` raises. -/
inductive EnqueueError
  | unknownKind (kind : String)
  | queueFull (active limit : Nat)
deriving DecidableEq, Repr

/-- The text of the exception. -/
def EnqueueError.message : EnqueueError → String
  | .unknownKind kind => "unknown research job kind '" ++ kind ++ "'"
  | .queueFull active limit =>
    "You already have " ++ toString active ++ " research jobs queued or running (limit " ++
      toString limit ++ "). Wait for one to finish or cancel one."

/-- Number of the user's queued or running jobs. -/
def activeJobs (jobs : JobTable) (userId : String) : Nat :=
  (jobs.values.filter fun row => row.userId = userId && row.status.isActive).length

/-- `params.get(field)`; a field that is missing reads like one that is null. -/
def fieldOf (params : JsonObject) (field : String) : Json :=
  (Dict.lookup field params).getD "null"

/-- Whether the parameters of an existing job match on all named fields. -/
def sameParams (sameAs : List String) (existing params : JsonObject) : Bool :=
  sameAs.all fun field => fieldOf existing field = fieldOf params field

/-- The queued or running duplicate with the earliest creation time, if any. -/
def duplicateOf (jobs : JobTable) (userId kind : String) (params : JsonObject)
    (sameAs : List String) : Option JobId :=
  let candidates := jobs.items.filter fun item =>
    item.2.userId = userId && item.2.kind = kind && item.2.status.isActive
  ((candidates.insertionSort fun a b => a.2.createdAt ≤ b.2.createdAt).find? fun item =>
    sameParams sameAs item.2.params params).map Prod.fst

/-- The row `enqueue` inserts. -/
def newJob (cfg : JobsConfig) (userId kind : String) (params : JsonObject) (now : Time) :
    ResearchJob where
  userId := userId
  kind := kind
  params := params
  status := .queued
  cancelRequested := false
  attempts := 0
  maxAttempts := cfg.maxAttempts
  workerId := none
  leaseExpiresAt := none
  createdAt := now
  startedAt := none
  finishedAt := none
  resultJson := none
  errorStatus := none
  errorDetail := none

/-- `enqueue`: the job returned and the table left behind. -/
def enqueue (cfg : JobsConfig) (jobs : JobTable) (newId : JobId) (userId kind : String)
    (params : JsonObject) (sameAs : List String) (now : Time) :
    Except EnqueueError (JobTable × JobId) :=
  if kind ∉ kinds then .error (.unknownKind kind)
  else
    let duplicate :=
      if sameAs = [] then none else duplicateOf jobs userId kind params sameAs
    match duplicate with
    | some existing => .ok (jobs, existing)
    | none =>
      let active := activeJobs jobs userId
      if cfg.maxActiveJobsPerUser ≤ active then
        .error (.queueFull active cfg.maxActiveJobsPerUser)
      else .ok (jobs.set newId (newJob cfg userId kind params now), newId)

/-- `get_for_user`. -/
def getForUser (jobs : JobTable) (userId : String) (job : JobId) : Option ResearchJob :=
  (jobs.get? job).filter fun row => row.userId = userId

/-- The first update of `request_cancel`: cancel a job that is still queued. -/
def cancelQueued (jobs : JobTable) (job : JobId) (now : Time) : JobTable :=
  jobs.updateWhere job (fun row => row.status = .queued)
    fun row => { row with status := .cancelled, finishedAt := some now }

/-- The second update of `request_cancel`: ask the worker of a running job to stop. -/
def flagRunning (jobs : JobTable) (job : JobId) : JobTable :=
  jobs.updateWhere job (fun row => row.status = .running)
    fun row => { row with cancelRequested := true }

/-! ## Worker side -/

/-- The id `claim_next` selects: the queued row created first, among the rows no
other transaction holds locked. -/
def oldestQueued (jobs : JobTable) (locked : JobId → Bool) : Option JobId :=
  let candidates := jobs.items.filter fun item => item.2.status = .queued && !locked item.1
  (candidates.insertionSort fun a b => a.2.createdAt ≤ b.2.createdAt).head?.map Prod.fst

/-- What a claim writes into the row. -/
def claimed (worker : WorkerId) (now lease : Time) (row : ResearchJob) : ResearchJob :=
  { row with
    status := .running
    workerId := some worker
    attempts := row.attempts + 1
    startedAt := some now
    leaseExpiresAt := some (now + lease) }

/-- `claim_next`: the table left behind, the job and its row as returned.  The
selected row is locked to the end of the transaction, so its update always matches. -/
def claimNext (jobs : JobTable) (worker : WorkerId) (now lease : Time)
    (locked : JobId → Bool) : Option (JobTable × JobId × ResearchJob) :=
  (oldestQueued jobs locked).bind fun job =>
    let after := jobs.updateWhere job (fun row => row.status = .queued)
      (claimed worker now lease)
    (after.get? job).map fun row => (after, job, row)

/-- What a worker keeps of the job it claimed: the job, its own id and the attempt
number.  The serial number of the claim is not known to the worker; it names the
claim in statements. -/
structure Handle where
  job : JobId
  worker : WorkerId
  attempt : Int
  serial : Nat
deriving DecidableEq, Repr

/-- `_owned`: the guard of every write a worker makes. -/
def owned (h : Handle) (row : ResearchJob) : Bool :=
  row.workerId = some h.worker && row.attempts = h.attempt && row.status = .running

/-- `renew_lease`, the update. -/
def renewLease (jobs : JobTable) (h : Handle) (now lease : Time) : JobTable :=
  jobs.updateWhere h.job (owned h) fun row => { row with leaseExpiresAt := some (now + lease) }

/-- The answer of `renew_lease`. -/
inductive LeaseAnswer
  | ok
  | cancel
  | lost
deriving DecidableEq, Repr

/-- `renew_lease`, the value it returns. -/
def leaseAnswer (jobs : JobTable) (h : Handle) : LeaseAnswer :=
  if jobs.matchesWhere h.job (owned h) then
    if jobs.matchesWhere h.job (fun row => row.cancelRequested) then .cancel else .ok
  else .lost

/-- `_finish`. -/
def finish (jobs : JobTable) (h : Handle) (now : Time) (set : ResearchJob → ResearchJob) :
    JobTable :=
  jobs.updateWhere h.job (owned h)
    fun row => { set row with finishedAt := some now, leaseExpiresAt := none }

/-- `str(detail)[:2000]`. -/
def truncateDetail (detail : String) : String :=
  String.ofList (detail.toList.take 2000)

/-- `fail`. -/
def fail (jobs : JobTable) (h : Handle) (now : Time) (code : Int) (detail : String) :
    JobTable :=
  finish jobs h now fun row =>
    { row with
      status := .failed
      errorStatus := some code
      errorDetail := some (truncateDetail detail) }

/-- `complete`, its effect on the job: the result, or the failure a refusing
finalizer turns it into. -/
def complete (jobs : JobTable) (h : Handle) (now : Time)
    (outcome : Except (Int × String) Json) : JobTable :=
  match outcome with
  | .ok result =>
    finish jobs h now fun row =>
      { row with status := .succeeded, resultJson := some result }
  | .error (code, detail) => fail jobs h now code detail

/-- `mark_cancelled`. -/
def markCancelled (jobs : JobTable) (h : Handle) (now : Time) : JobTable :=
  finish jobs h now fun row => { row with status := .cancelled }

/-- `release`. -/
def release (jobs : JobTable) (h : Handle) : JobTable :=
  jobs.updateWhere h.job (owned h) fun row =>
    { row with
      status := .queued
      workerId := none
      leaseExpiresAt := none
      attempts := row.attempts - 1 }

/-! ## The reaper -/

/-- A row the reaper read as expired, with the clock reading of that call. -/
structure Expired where
  job : JobId
  seen : ResearchJob
  now : Time
deriving DecidableEq, Repr

/-- Whether a row's lease has lapsed at `now`. -/
def leaseLapsed (now : Time) (row : ResearchJob) : Bool :=
  match row.leaseExpiresAt with
  | none => false
  | some lease => lease < now

/-- The rows `reap_expired` selects. -/
def expiredJobs (jobs : JobTable) (now : Time) : List Expired :=
  (jobs.items.filter fun item => item.2.status = .running && leaseLapsed now item.2).map
    fun item => ⟨item.1, item.2, now⟩

/-- The guard of the reaper's update. -/
def stale (e : Expired) (row : ResearchJob) : Bool :=
  row.status = .running && row.workerId = e.seen.workerId &&
    row.attempts = e.seen.attempts && leaseLapsed e.now row

/-- `WORKER_LOST_DETAIL`. -/
def workerLostDetail : String :=
  "The research worker stopped responding while running this job."

/-- What the reaper writes, decided from the row it read. -/
def reaped (e : Expired) (row : ResearchJob) : ResearchJob :=
  if e.seen.cancelRequested then
    { row with status := .cancelled, finishedAt := some e.now, leaseExpiresAt := none }
  else if e.seen.attempts < e.seen.maxAttempts then
    { row with status := .queued, workerId := none, leaseExpiresAt := none }
  else
    { row with
      status := .failed
      finishedAt := some e.now
      leaseExpiresAt := none
      errorStatus := some 500
      errorDetail := some workerLostDetail }

/-- The reaper's update of one row. -/
def reapOne (jobs : JobTable) (e : Expired) : JobTable :=
  jobs.updateWhere e.job (stale e) (reaped e)

/-- Whether `purge_finished` deletes a row: terminal, and finished before the cutoff. -/
def purgeable (cutoff : Time) (row : ResearchJob) : Bool :=
  row.status.isTerminal &&
    match row.finishedAt with
    | none => false
    | some finished => finished < cutoff

/-- `purge_finished`. -/
def purgeFinished (jobs : JobTable) (cutoff : Time) : JobTable where
  items := jobs.items.filter fun item => !purgeable cutoff item.2
  nodup := jobs.nodup.sublist (List.filter_sublist.map Prod.fst)

/-! ## What the guards say -/

theorem owned_iff {h : Handle} {row : ResearchJob} :
    owned h row = true ↔
      row.workerId = some h.worker ∧ row.attempts = h.attempt ∧ row.status = .running := by
  simp [owned, and_assoc]

theorem stale_iff {e : Expired} {row : ResearchJob} :
    stale e row = true ↔
      row.status = .running ∧ row.workerId = e.seen.workerId ∧
        row.attempts = e.seen.attempts ∧ leaseLapsed e.now row = true := by
  simp [stale, and_assoc]

theorem oldestQueued_mem {jobs : JobTable} {locked : JobId → Bool} {job : JobId}
    (h : oldestQueued jobs locked = some job) :
    ∃ row, jobs.get? job = some row ∧ row.status = .queued := by
  rcases Option.map_eq_some_iff.mp h with ⟨item, hitem, rfl⟩
  have hmem := List.mem_filter.mp ((List.mem_insertionSort _).mp (List.mem_of_head? hitem))
  refine ⟨item.2, Dict.get?_eq_some_iff.mpr hmem.1, ?_⟩
  have hq := hmem.2
  simp only [Bool.and_eq_true, decide_eq_true_eq] at hq
  exact hq.1

/-- The job selected is not locked. -/
theorem oldestQueued_not_locked {jobs : JobTable} {locked : JobId → Bool} {job : JobId}
    (h : oldestQueued jobs locked = some job) : locked job = false := by
  rcases Option.map_eq_some_iff.mp h with ⟨item, hitem, rfl⟩
  have hmem := List.mem_filter.mp
    ((List.mem_insertionSort _).mp (List.mem_of_head? hitem))
  have hfree := hmem.2
  simp only [Bool.and_eq_true, Bool.not_eq_true'] at hfree
  exact hfree.2

/-- When nothing is selected, every queued job is locked. -/
theorem oldestQueued_eq_none {jobs : JobTable} {locked : JobId → Bool}
    (h : oldestQueued jobs locked = none) (item : JobId × ResearchJob)
    (hitem : item ∈ jobs.items) (hq : item.2.status = .queued) : locked item.1 = true := by
  by_contra hlocked
  have hfree : locked item.1 = false := by simpa using hlocked
  have hcandidate : item ∈ jobs.items.filter fun item =>
      item.2.status = .queued && !locked item.1 := by
    simp [hitem, hq, hfree]
  have hsorted := List.head?_eq_none_iff.mp (Option.map_eq_none_iff.mp h)
  have hmem := (List.mem_insertionSort
    fun a b : JobId × ResearchJob => a.2.createdAt ≤ b.2.createdAt).mpr hcandidate
  rw [hsorted] at hmem
  cases hmem

/-- A successful claim rewrites exactly one row, and that row was queued. -/
theorem claimNext_eq_some {jobs jobs' : JobTable} {worker : WorkerId} {now lease : Time}
    {locked : JobId → Bool} {job : JobId} {row' : ResearchJob}
    (h : claimNext jobs worker now lease locked = some (jobs', job, row')) :
    ∃ row, jobs.get? job = some row ∧ row.status = .queued ∧
      row' = claimed worker now lease row ∧ jobs' = jobs.set job row' := by
  rcases Option.bind_eq_some_iff.mp h with ⟨found, hfound, hmap⟩
  rcases Option.map_eq_some_iff.mp hmap with ⟨after, hafter, heq⟩
  cases heq
  rcases oldestQueued_mem hfound with ⟨row, hrow, hqueued⟩
  have hupdate :
      jobs.updateWhere job (fun row => row.status = .queued) (claimed worker now lease) =
        jobs.set job (claimed worker now lease row) :=
    Dict.updateWhere_of_matches _ hrow (by simpa using hqueued)
  rw [hupdate, Dict.get?_set_self, Option.some.injEq] at hafter
  subst hafter
  exact ⟨row, hrow, hqueued, rfl, hupdate⟩

/-- What purging leaves under an id: the old row, unless it was purgeable. -/
theorem get?_purgeFinished (jobs : JobTable) (cutoff : Time) (job : JobId) :
    (purgeFinished jobs cutoff).get? job =
      (jobs.get? job).filter fun row => !purgeable cutoff row := by
  cases hrow : jobs.get? job with
  | none =>
    have hnot := Dict.get?_eq_none_iff.mp hrow
    rw [Dict.get?_eq_none_iff.mpr]
    · rfl
    · intro hmem
      obtain ⟨item, hitem, rfl⟩ := List.mem_map.mp hmem
      exact hnot (List.mem_map_of_mem (List.mem_of_mem_filter hitem))
  | some row =>
    have hmem := Dict.get?_eq_some_iff.mp hrow
    cases hp : purgeable cutoff row with
    | false =>
      have hkept : (job, row) ∈ (purgeFinished jobs cutoff).items :=
        List.mem_filter.mpr ⟨hmem, by simp [hp]⟩
      rw [Dict.get?_eq_some_iff.mpr hkept]
      simp [Option.filter, hp]
    | true =>
      rw [Dict.get?_eq_none_iff.mpr]
      · simp [Option.filter, hp]
      · intro hkey
        obtain ⟨item, hitem, hfst⟩ := List.mem_map.mp hkey
        obtain ⟨hold, hnp⟩ := List.mem_filter.mp hitem
        have hsame : jobs.get? job = some item.2 :=
          Dict.get?_eq_some_iff.mpr (by rw [← hfst]; exact hold)
        rw [hrow] at hsame
        cases hsame
        simp [hp] at hnp

/-- Every id in the snapshot of the reaper named a running row with that content. -/
theorem mem_expiredJobs {jobs : JobTable} {now : Time} {e : Expired}
    (h : e ∈ expiredJobs jobs now) :
    jobs.get? e.job = some e.seen ∧ e.seen.status = .running := by
  obtain ⟨item, hitem, rfl⟩ := List.mem_map.mp h
  obtain ⟨hmem, hcond⟩ := List.mem_filter.mp hitem
  simp only [Bool.and_eq_true, decide_eq_true_eq] at hcond
  exact ⟨Dict.get?_eq_some_iff.mpr hmem, hcond.1⟩

end QuantumSentinel.Jobs
