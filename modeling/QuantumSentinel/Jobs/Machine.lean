import QuantumSentinel.Lib.Transition
import QuantumSentinel.Jobs.Model

/-!
# Research job queue: the interleaved system

Any number of API processes, workers and reapers act on one job table.  A state
holds the table together with what the processes keep between two transactions: the
handles workers got from `claim_next`, the `request_cancel` calls that are
between two of their statements, and the rows a reaper has read but not updated yet.
An action is one committed transaction or, where a function has several statements
other transactions can fall between, one of them.

A worker uses a handle until it has called one of the finishing functions with it
(or has dropped it: crashed, raised, or been told that the lease is lost).  The last
four fields are history; no step reads them.

Main results:

- Definition `queue`: the system, for a given deployment configuration.
- Theorem `step_get?`: what one step can do to the row of a job.
-/

namespace QuantumSentinel.Jobs

open Lib

/-- Where a `request_cancel` call stands. -/
inductive CancelStage
  /-- read the row as queued; the first update comes next -/
  | sawQueued
  /-- the first update matched no row; the refresh comes next -/
  | updateMissed
  /-- read the row as running; the second update comes next -/
  | sawRunning
deriving DecidableEq, Repr

/-- A `request_cancel` call in progress. -/
structure CancelCall where
  user : String
  job : JobId
  stage : CancelStage
deriving DecidableEq, Repr

/-- The system state. -/
structure QueueState where
  jobs : JobTable
  handles : List Handle
  calls : List CancelCall
  expired : List Expired
  /-- every id drawn for a job so far -/
  issued : List JobId
  /-- number of claims so far -/
  claims : Nat
  /-- the serial number of the last claim of a job -/
  lastClaim : JobId → Option Nat
  /-- serial numbers of the claims whose lease was reaped -/
  reapedClaims : List Nat
  /-- jobs some `request_cancel` call has returned to its caller -/
  answered : List JobId

/-- One transaction, or one statement of a longer call. -/
inductive Action
  | enqueue (newId : JobId) (userId kind : String) (params : JsonObject)
      (sameAs : List String) (now : Time)
  | claimNext (worker : WorkerId) (now lease : Time) (locked : JobId → Bool)
  | renewLease (h : Handle) (now lease : Time)
  | complete (h : Handle) (now : Time) (outcome : Except (Int × String) Json)
  | fail (h : Handle) (now : Time) (code : Int) (detail : String)
  | markCancelled (h : Handle) (now : Time)
  | release (h : Handle)
  | drop (h : Handle)
  | cancelRead (user : String) (job : JobId)
  | cancelUpdateQueued (c : CancelCall) (now : Time)
  | cancelRefresh (c : CancelCall)
  | cancelUpdateRunning (c : CancelCall)
  | reapRead (now : Time)
  | reapUpdate (e : Expired)
  | purge (cutoff : Time)

namespace QueueState

variable (s : QueueState)

/-- Forget a handle. -/
def withoutHandle (h : Handle) : QueueState :=
  { s with handles := s.handles.filter fun h' => h' ≠ h }

/-- A finishing call: the table it leaves, and the handle is not used again. -/
def finished (h : Handle) (jobs : JobTable) : QueueState :=
  { s.withoutHandle h with jobs := jobs }

/-- Move a `request_cancel` call to its next stage. -/
def restage (c : CancelCall) (stage : CancelStage) : QueueState :=
  { s with calls := { c with stage := stage } :: s.calls.erase c }

/-- End a `request_cancel` call without a value (the refresh of a deleted row raises). -/
def abandon (c : CancelCall) : QueueState :=
  { s with calls := s.calls.erase c }

/-- End a `request_cancel` call that returns the job. -/
def answer (c : CancelCall) : QueueState :=
  { s.abandon c with answered := c.job :: s.answered }

end QueueState

/-- One step of the system. -/
def step (cfg : JobsConfig) (s : QueueState) : Action → Option QueueState
  | .enqueue newId userId kind params sameAs now =>
    if newId ∈ s.issued then none
    else
      match enqueue cfg s.jobs newId userId kind params sameAs now with
      | .error _ => some s
      | .ok (jobs, _) => some { s with jobs := jobs, issued := newId :: s.issued }
  | .claimNext worker now lease locked =>
    match claimNext s.jobs worker now lease locked with
    | none => some s
    | some (jobs, job, row) =>
      some { s with
        jobs := jobs
        handles := ⟨job, worker, row.attempts, s.claims⟩ :: s.handles
        claims := s.claims + 1
        lastClaim := fun j => if j = job then some s.claims else s.lastClaim j }
  | .renewLease h now lease =>
    if h ∈ s.handles then some { s with jobs := renewLease s.jobs h now lease } else none
  | .complete h now outcome =>
    if h ∈ s.handles then some (s.finished h (complete s.jobs h now outcome)) else none
  | .fail h now code detail =>
    if h ∈ s.handles then some (s.finished h (fail s.jobs h now code detail)) else none
  | .markCancelled h now =>
    if h ∈ s.handles then some (s.finished h (markCancelled s.jobs h now)) else none
  | .release h =>
    if h ∈ s.handles then some (s.finished h (release s.jobs h)) else none
  | .drop h => some (s.withoutHandle h)
  | .cancelRead user job =>
    match getForUser s.jobs user job with
    | none => some s
    | some row =>
      if row.status = .queued then
        some { s with calls := ⟨user, job, .sawQueued⟩ :: s.calls }
      else if row.status = .running then
        some { s with calls := ⟨user, job, .sawRunning⟩ :: s.calls }
      else some { s with answered := job :: s.answered }
  | .cancelUpdateQueued c now =>
    if c ∈ s.calls ∧ c.stage = .sawQueued then
      let t := { s with jobs := cancelQueued s.jobs c.job now }
      if s.jobs.matchesWhere c.job (fun row => row.status = .queued) then some (t.answer c)
      else some (t.restage c .updateMissed)
    else none
  | .cancelRefresh c =>
    if c ∈ s.calls ∧ c.stage = .updateMissed then
      match s.jobs.get? c.job with
      | none => some (s.abandon c)
      | some row =>
        if row.status = .running then some (s.restage c .sawRunning)
        else some (s.answer c)
    else none
  | .cancelUpdateRunning c =>
    if c ∈ s.calls ∧ c.stage = .sawRunning then
      let t := { s with jobs := flagRunning s.jobs c.job }
      match s.jobs.get? c.job with
      | none => some (t.abandon c)
      | some _ => some (t.answer c)
    else none
  | .reapRead now => some { s with expired := s.expired ++ expiredJobs s.jobs now }
  | .reapUpdate e =>
    if e ∈ s.expired then
      some { s with
        jobs := reapOne s.jobs e
        expired := s.expired.erase e
        reapedClaims :=
          if s.jobs.matchesWhere e.job (stale e) then
            (s.lastClaim e.job).toList ++ s.reapedClaims
          else s.reapedClaims }
    else none
  | .purge cutoff => some { s with jobs := purgeFinished s.jobs cutoff }

/-- The empty queue. -/
def emptyQueue : QueueState where
  jobs := Dict.empty
  handles := []
  calls := []
  expired := []
  issued := []
  claims := 0
  lastClaim := fun _ => none
  reapedClaims := []
  answered := []

/-- The queue of one deployment. -/
def queue (cfg : JobsConfig) : Machine QueueState Action where
  init := emptyQueue
  step := step cfg

/-- A handle is stale once its lease was reaped or a later claim took the job. -/
def Stale (s : QueueState) (h : Handle) : Prop :=
  h.serial ∈ s.reapedClaims ∨ s.lastClaim h.job ≠ some h.serial

/-- The handle a worker-side write is made with. -/
def Action.handle? : Action → Option Handle
  | .renewLease h _ _ => some h
  | .complete h _ _ => some h
  | .fail h _ _ _ => some h
  | .markCancelled h _ => some h
  | .release h => some h
  | _ => none

/-! ## What one step does to a row -/

/-- The ways a step rewrites the row of a job. -/
inductive RowStep (s : QueueState) : Action → JobId → ResearchJob → ResearchJob → Prop
  | claim {worker now lease locked job row} (queued : row.status = .queued) :
      RowStep s (.claimNext worker now lease locked) job row (claimed worker now lease row)
  | renew {h now lease row} (mem : h ∈ s.handles) (guard : owned h row = true) :
      RowStep s (.renewLease h now lease) h.job row
        { row with leaseExpiresAt := some (now + lease) }
  | succeed {h now result row} (mem : h ∈ s.handles) (guard : owned h row = true) :
      RowStep s (.complete h now (.ok result)) h.job row
        { row with
          status := .succeeded, resultJson := some result
          finishedAt := some now, leaseExpiresAt := none }
  | fail {a h now code detail row}
      (action : a = .complete h now (.error (code, detail)) ∨ a = .fail h now code detail)
      (mem : h ∈ s.handles) (guard : owned h row = true) :
      RowStep s a h.job row
        { row with
          status := .failed, errorStatus := some code
          errorDetail := some (truncateDetail detail)
          finishedAt := some now, leaseExpiresAt := none }
  | cancelled {h now row} (mem : h ∈ s.handles) (guard : owned h row = true) :
      RowStep s (.markCancelled h now) h.job row
        { row with status := .cancelled, finishedAt := some now, leaseExpiresAt := none }
  | release {h row} (mem : h ∈ s.handles) (guard : owned h row = true) :
      RowStep s (.release h) h.job row
        { row with
          status := .queued, workerId := none, leaseExpiresAt := none
          attempts := row.attempts - 1 }
  | cancelQueued {c now row} (mem : c ∈ s.calls) (queued : row.status = .queued) :
      RowStep s (.cancelUpdateQueued c now) c.job row
        { row with status := .cancelled, finishedAt := some now }
  | flag {c row} (mem : c ∈ s.calls) (running : row.status = .running) :
      RowStep s (.cancelUpdateRunning c) c.job row { row with cancelRequested := true }
  | reap {e row} (mem : e ∈ s.expired) (guard : Jobs.stale e row = true) :
      RowStep s (.reapUpdate e) e.job row (reaped e row)

/-- The four things that can happen to the entry of a job in one step. -/
inductive EntryStep (s : QueueState) (a : Action) (s' : QueueState) (j : JobId)
    (cfg : JobsConfig) : Option ResearchJob → Option ResearchJob → Prop
  | same {entry} : EntryStep s a s' j cfg entry entry
  | created {userId kind params now} (fresh : j ∉ s.issued) (issued : j ∈ s'.issued) :
      EntryStep s a s' j cfg none (some (newJob cfg userId kind params now))
  | purged {row} (terminal : row.status.isTerminal = true) :
      EntryStep s a s' j cfg (some row) none
  | rewritten {row row'} (step : RowStep s a j row row') :
      EntryStep s a s' j cfg (some row) (some row')

/-- A conditional update as an entry step, given what it means when the guard holds. -/
theorem EntryStep.ofUpdate {cfg : JobsConfig} {s s' : QueueState} {a : Action} {k j : JobId}
    {guard : ResearchJob → Bool} {new : ResearchJob → ResearchJob}
    (hrow : ∀ row, guard row = true → RowStep s a k row (new row)) :
    EntryStep s a s' j cfg (s.jobs.get? j) ((s.jobs.updateWhere k guard new).get? j) := by
  rw [Dict.get?_updateWhere]
  by_cases hj : j = k
  · subst hj
    rw [if_pos rfl]
    cases hrow' : s.jobs.get? j with
    | none => exact EntryStep.same
    | some row =>
      cases hg : guard row with
      | false =>
        simp only [Option.map_some, hg]
        exact EntryStep.same
      | true =>
        simp only [Option.map_some, hg, if_true]
        exact EntryStep.rewritten (hrow row hg)
  · rw [if_neg hj]
    exact EntryStep.same

/-- Every step acts on every entry in one of the four ways. -/
theorem step_get? {cfg : JobsConfig} {s s' : QueueState} {a : Action}
    (h : step cfg s a = some s') (hissued : ∀ j row, s.jobs.get? j = some row → j ∈ s.issued)
    (j : JobId) : EntryStep s a s' j cfg (s.jobs.get? j) (s'.jobs.get? j) := by
  cases a with
  | enqueue newId userId kind params sameAs now =>
    simp only [step] at h
    split at h
    · cases h
    rename_i hfresh
    split at h
    · cases h
      exact EntryStep.same
    rename_i jobs found henq
    cases h
    simp only [enqueue] at henq
    split at henq
    · cases henq
    split at henq
    · cases henq
      exact EntryStep.same
    split at henq
    · cases henq
    cases henq
    simp only [Dict.get?_set]
    by_cases hj : j = newId
    · subst hj
      have hnone : s.jobs.get? j = none := by
        cases hrow : s.jobs.get? j with
        | none => rfl
        | some row => exact absurd (hissued j row hrow) hfresh
      rw [if_pos rfl, hnone]
      exact EntryStep.created hfresh (List.mem_cons_self ..)
    · rw [if_neg hj]
      exact EntryStep.same
  | claimNext worker now lease locked =>
    simp only [step] at h
    split at h <;> cases h
    · exact EntryStep.same
    · rename_i hclaim
      rcases claimNext_eq_some hclaim with ⟨row, hrow, hqueued, rfl, rfl⟩
      simp only [Dict.get?_set]
      split
      · rename_i hj
        subst hj
        rw [hrow]
        exact EntryStep.rewritten (RowStep.claim hqueued)
      · exact EntryStep.same
  | renewLease hd now lease =>
    simp only [step] at h
    split at h <;> cases h
    rename_i hmem
    exact EntryStep.ofUpdate fun row hg => RowStep.renew hmem hg
  | complete hd now outcome =>
    simp only [step] at h
    split at h <;> cases h
    rename_i hmem
    cases outcome with
    | ok result => exact EntryStep.ofUpdate fun row hg => RowStep.succeed hmem hg
    | error err =>
      exact EntryStep.ofUpdate fun row hg => RowStep.fail (Or.inl rfl) hmem hg
  | fail hd now code detail =>
    simp only [step] at h
    split at h <;> cases h
    rename_i hmem
    exact EntryStep.ofUpdate fun row hg => RowStep.fail (Or.inr rfl) hmem hg
  | markCancelled hd now =>
    simp only [step] at h
    split at h <;> cases h
    rename_i hmem
    exact EntryStep.ofUpdate fun row hg => RowStep.cancelled hmem hg
  | release hd =>
    simp only [step] at h
    split at h <;> cases h
    rename_i hmem
    exact EntryStep.ofUpdate fun row hg => RowStep.release hmem hg
  | cancelUpdateQueued c now =>
    simp only [step] at h
    split at h
    · rename_i hmem
      split at h <;> cases h <;>
        exact EntryStep.ofUpdate fun row hg =>
          RowStep.cancelQueued hmem.1 (by simpa using hg)
    · cases h
  | cancelUpdateRunning c =>
    simp only [step] at h
    split at h
    · rename_i hmem
      split at h <;> cases h <;>
        exact EntryStep.ofUpdate fun row hg => RowStep.flag hmem.1 (by simpa using hg)
    · cases h
  | reapUpdate e =>
    simp only [step] at h
    split at h <;> cases h
    rename_i hmem
    exact EntryStep.ofUpdate fun row hg => RowStep.reap hmem hg
  | purge cutoff =>
    cases h
    simp only [get?_purgeFinished]
    cases hrow : s.jobs.get? j with
    | none => exact EntryStep.same
    | some row =>
      cases hp : purgeable cutoff row with
      | false =>
        simp only [Option.filter, hp, Bool.not_false, if_true]
        exact EntryStep.same
      | true =>
        simp only [Option.filter, hp, Bool.not_true]
        simp only [purgeable, Bool.and_eq_true] at hp
        exact EntryStep.purged hp.1
  | drop | cancelRead | cancelRefresh | reapRead =>
    -- these steps leave the table alone
    simp only [step] at h
    repeat' split at h
    all_goals cases h
    all_goals exact EntryStep.same

/-! ## What one step does to the other fields -/

/-- Ids are never withdrawn. -/
theorem step_issued {cfg : JobsConfig} {s s' : QueueState} {a : Action}
    (h : step cfg s a = some s') : s.issued ⊆ s'.issued := by
  cases a <;> simp only [step] at h <;> repeat' split at h
  all_goals cases h
  all_goals first
    | exact List.Subset.refl _
    | exact List.subset_cons_self _ _

/-- What the reaper has read after a step: what it had read before, or current rows. -/
theorem step_expired {cfg : JobsConfig} {s s' : QueueState} {a : Action}
    (h : step cfg s a = some s') {e : Expired} (he : e ∈ s'.expired) :
    e ∈ s.expired ∨ (s.jobs.get? e.job = some e.seen ∧ s'.jobs = s.jobs) := by
  cases a with
  | reapRead now =>
    cases h
    rcases List.mem_append.mp he with hold | hnew
    · exact Or.inl hold
    · exact Or.inr ⟨(mem_expiredJobs hnew).1, rfl⟩
  | reapUpdate e' =>
    simp only [step] at h
    split at h <;> cases h
    exact Or.inl (List.mem_of_mem_erase he)
  | _ =>
    simp only [step] at h
    repeat' split at h
    all_goals cases h
    all_goals exact Or.inl he

/-- Whether an action gives up a handle. -/
def Action.finishes (a : Action) (h : Handle) : Prop :=
  (∃ now outcome, a = .complete h now outcome) ∨ (∃ now code detail, a = .fail h now code detail) ∨
    (∃ now, a = .markCancelled h now) ∨ a = .release h

/-- Claims and reaper updates: the actions that move a job to another holder. -/
def Action.takesJobs : Action → Prop
  | .claimNext _ _ _ _ => True
  | .reapUpdate _ => True
  | _ => False

/-- The three things that can happen to the handles and the claim history in one step. -/
inductive HandleStep (s : QueueState) (a : Action) (s' : QueueState) : Prop
  | claimed {job : JobId} {row : ResearchJob} {worker now lease locked}
      (action : a = .claimNext worker now lease locked)
      (found : s.jobs.get? job = some row) (queued : row.status = .queued)
      (table : s'.jobs = s.jobs.set job (Jobs.claimed worker now lease row))
      (handles : s'.handles = ⟨job, worker, row.attempts + 1, s.claims⟩ :: s.handles)
      (claims : s'.claims = s.claims + 1) (reaped : s'.reapedClaims = s.reapedClaims)
      (last : s'.lastClaim = fun j => if j = job then some s.claims else s.lastClaim j)
  | reaped {e : Expired} {row : ResearchJob} (action : a = .reapUpdate e)
      (found : s.jobs.get? e.job = some row) (guard : Jobs.stale e row = true)
      (table : s'.jobs = s.jobs.set e.job (Jobs.reaped e row))
      (handles : s'.handles = s.handles) (claims : s'.claims = s.claims)
      (last : s'.lastClaim = s.lastClaim)
      (reaped : s'.reapedClaims = (s.lastClaim e.job).toList ++ s.reapedClaims)
  | other (handles : ∀ h ∈ s'.handles, h ∈ s.handles ∧ ¬ a.finishes h)
      (claims : s'.claims = s.claims) (last : s'.lastClaim = s.lastClaim)
      (reaped : s'.reapedClaims = s.reapedClaims)
      (quiet : a.takesJobs → s'.jobs = s.jobs)

/-- A finishing call leaves the other handles. -/
theorem mem_withoutHandle {s : QueueState} {h h' : Handle} :
    h' ∈ (s.withoutHandle h).handles ↔ h' ∈ s.handles ∧ h' ≠ h := by
  simp [QueueState.withoutHandle]

/-- A finishing call as a step on the handles. -/
theorem HandleStep.ofFinished {s : QueueState} {a : Action} {h : Handle} (jobs : JobTable)
    (hfin : ∀ h', a.finishes h' → h' = h) (hquiet : ¬ a.takesJobs) :
    HandleStep s a (s.finished h jobs) := by
  refine HandleStep.other (fun h' hh' => ?_) rfl rfl rfl (fun ht => absurd ht hquiet)
  rcases mem_withoutHandle.mp hh' with ⟨hold, hne⟩
  exact ⟨hold, fun hf => hne (hfin h' hf)⟩

/-- Every step acts on the handles in one of the three ways. -/
theorem step_handles {cfg : JobsConfig} {s s' : QueueState} {a : Action}
    (h : step cfg s a = some s') : HandleStep s a s' := by
  cases a with
  | claimNext worker now lease locked =>
    simp only [step] at h
    split at h <;> cases h
    · exact HandleStep.other (fun h' hh' => ⟨hh', by simp [Action.finishes]⟩) rfl rfl rfl
        fun _ => rfl
    · rename_i hclaim
      rcases claimNext_eq_some hclaim with ⟨row, hrow, hqueued, rfl, rfl⟩
      exact HandleStep.claimed rfl hrow hqueued rfl rfl rfl rfl rfl
  | reapUpdate e =>
    simp only [step] at h
    split at h <;> cases h
    cases hmatch : s.jobs.matchesWhere e.job (Jobs.stale e) with
    | true =>
      rcases Dict.matchesWhere_iff.mp hmatch with ⟨row, hrow, hg⟩
      exact HandleStep.reaped rfl hrow hg (Dict.updateWhere_of_matches _ hrow hg) rfl rfl
        rfl (by simp)
    | false =>
      exact HandleStep.other (fun h' hh' => ⟨hh', by simp [Action.finishes]⟩) rfl rfl
        (by simp) fun _ => Dict.updateWhere_of_not_matches _ hmatch
  | complete hd now outcome =>
    simp only [step] at h
    split at h <;> cases h
    exact HandleStep.ofFinished _ (by simp [Action.finishes, eq_comm]) id
  | fail hd now code detail =>
    simp only [step] at h
    split at h <;> cases h
    exact HandleStep.ofFinished _ (by simp [Action.finishes, eq_comm]) id
  | markCancelled hd now =>
    simp only [step] at h
    split at h <;> cases h
    exact HandleStep.ofFinished _ (by simp [Action.finishes, eq_comm]) id
  | release hd =>
    simp only [step] at h
    split at h <;> cases h
    exact HandleStep.ofFinished _ (by simp [Action.finishes, eq_comm]) id
  | drop hd =>
    cases h
    exact HandleStep.ofFinished (a := .drop hd) s.jobs (by simp [Action.finishes]) id
  | _ =>
    simp only [step] at h
    repeat' split at h
    all_goals cases h
    all_goals
      exact HandleStep.other (fun h' hh' => ⟨hh', by simp [Action.finishes]⟩) rfl rfl rfl
        (fun ht => ht.elim)

end QuantumSentinel.Jobs
