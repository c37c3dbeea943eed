import QuantumSentinel.Jobs.Lifecycle

/-!
# Research job queue: the limit of a user

`enqueue` statement by statement.  The call locks the row of the user, looks for a duplicate,
counts the user's active jobs and inserts, each on what is committed by then; other calls change
jobs without that lock.  They can end an active job, but they cannot make a job active that was
not, so what was counted and searched stays an upper bound until the insert.

Main results:

- Theorem `stays_active`: a job that is active after another call was active before it.
- Theorem `Limited.step`: what every statement keeps.
- Theorem `enqueue_limited`: the limit of a user holds, and jobs of a kind with named fields
  are not duplicated.

Current gaps:

- The lock between the threads of one process, which allows fewer runs.
- Calls that wait for the row of the user, and users without a row.
-/

namespace QuantumSentinel.Jobs

open Lib

/-! ## Calls in progress -/

/-- What a call that holds the row of its user has done. -/
inductive EnqueueStage
  /-- the row is locked; the search comes next -/
  | locked
  /-- no duplicate was found; the count comes next -/
  | searched
  /-- the count is below the limit; the insert comes next -/
  | counted
deriving DecidableEq, Repr

/-- A call of `enqueue` that holds the row of its user. -/
structure EnqueueCall where
  kind : String
  params : JsonObject
  sameAs : List String
  stage : EnqueueStage
deriving DecidableEq, Repr

/-- The queue and, for every user, the call that holds the row. -/
structure EnqueueState where
  queue : QueueState
  holder : String → Option EnqueueCall

/-- A statement of `enqueue`, or a step of the rest of the queue. -/
inductive EnqueueAction
  /-- another call of the queue -/
  | other (a : Action)
  /-- the row of the user is locked -/
  | lock (userId kind : String) (params : JsonObject) (sameAs : List String)
  /-- the search for a job with the same fields -/
  | search (userId : String)
  /-- the count of the user's active jobs -/
  | count (userId : String)
  /-- the insert, and the commit -/
  | insert (userId : String) (newId : JobId) (now : Time)
  /-- the call raises -/
  | rollback (userId : String)

/-- Whether an action is a whole call of `enqueue`. -/
def Action.enqueues : Action → Bool
  | .enqueue .. => true
  | _ => false

namespace EnqueueState

variable (cfg : JobsConfig) (s : EnqueueState)

/-- The holder of the row of a user goes on, or ends. -/
def hold (userId : String) (call : Option EnqueueCall) : EnqueueState :=
  { s with holder := Function.update s.holder userId call }

/-- One statement. -/
def step : EnqueueAction → Option EnqueueState
  | .other a =>
    if a.enqueues then none
    else (Jobs.step cfg s.queue a).map fun queue => { s with queue := queue }
  | .lock userId kind params sameAs =>
    if kind ∈ kinds ∧ s.holder userId = none then
      some (s.hold userId (some ⟨kind, params, sameAs, .locked⟩))
    else none
  | .search userId =>
    (s.holder userId).bind fun call =>
      if call.stage = .locked then
        let duplicate :=
          if call.sameAs = [] then none
          else duplicateOf s.queue.jobs userId call.kind call.params call.sameAs
        match duplicate with
        -- the duplicate is returned, and the transaction ends
        | some _ => some (s.hold userId none)
        | none => some (s.hold userId (some { call with stage := .searched }))
      else none
  | .count userId =>
    (s.holder userId).bind fun call =>
      if call.stage = .searched then
        if cfg.maxActiveJobsPerUser ≤ activeJobs s.queue.jobs userId then
          some (s.hold userId none)
        else some (s.hold userId (some { call with stage := .counted }))
      else none
  | .insert userId newId now =>
    (s.holder userId).bind fun call =>
      if call.stage = .counted ∧ newId ∉ s.queue.issued then
        some
          { queue :=
              { s.queue with
                jobs := s.queue.jobs.set newId (newJob cfg userId call.kind call.params now)
                issued := newId :: s.queue.issued }
            holder := Function.update s.holder userId none }
      else none
  | .rollback userId => some (s.hold userId none)

end EnqueueState

/-- The queue of one deployment, with `enqueue` by its statements. -/
def enqueueing (cfg : JobsConfig) : Machine EnqueueState EnqueueAction where
  init := { queue := emptyQueue, holder := fun _ => none }
  step := EnqueueState.step cfg

/-- The calls for a kind name some fields. -/
def NamesFields (kind : String) (fields : List String) (_ : EnqueueState) : EnqueueAction → Prop
  | .lock _ kind' _ sameAs => kind' = kind → sameAs = fields
  | _ => True

/-! ## Active jobs -/

/-- A user's active job. -/
def ActiveJob (jobs : JobTable) (userId : String) (j : JobId) (row : ResearchJob) : Prop :=
  jobs.get? j = some row ∧ row.userId = userId ∧ row.status.isActive = true

/-- No rewrite touches what a job is for. -/
theorem RowStep.purpose {s : QueueState} {a : Action} {j : JobId} {row row' : ResearchJob}
    (h : RowStep s a j row row') :
    row'.userId = row.userId ∧ row'.kind = row.kind ∧ row'.params = row.params := by
  cases h with
  | reap =>
    unfold reaped
    split
    · exact ⟨rfl, rfl, rfl⟩
    · split <;> exact ⟨rfl, rfl, rfl⟩
  | _ => exact ⟨rfl, rfl, rfl⟩

theorem JobStatus.active_of_not_terminal {status : JobStatus} (h : status.isTerminal = false) :
    status.isActive = true := by
  cases status <;> first | rfl | cases h

/-- Only `enqueue` draws ids. -/
theorem step_issued_eq {cfg : JobsConfig} {s s' : QueueState} {a : Action}
    (h : Jobs.step cfg s a = some s') (hother : a.enqueues = false) : s'.issued = s.issued := by
  cases a with
  | enqueue newId userId kind params sameAs now => cases hother
  | _ =>
    simp only [Jobs.step] at h
    repeat' split at h
    all_goals cases h
    all_goals rfl

/-- A job that is active after a call other than `enqueue` was active before it. -/
theorem stays_active {cfg : JobsConfig} {s s' : QueueState} {a : Action}
    (h : Jobs.step cfg s a = some s') (hother : a.enqueues = false)
    (hissued : ∀ j row, s.jobs.get? j = some row → j ∈ s.issued) {userId : String} {j : JobId}
    {row' : ResearchJob} (hactive : ActiveJob s'.jobs userId j row') :
    ∃ row, ActiveJob s.jobs userId j row ∧ row'.kind = row.kind ∧ row'.params = row.params := by
  obtain ⟨hrow', huser, hstatus⟩ := hactive
  have hentry := step_get? h hissued j
  rw [hrow'] at hentry
  generalize hbefore : s.jobs.get? j = before at hentry
  cases hentry with
  | same => exact ⟨row', ⟨hbefore, huser, hstatus⟩, rfl, rfl⟩
  | created hfresh hissued' =>
    rw [step_issued_eq h hother] at hissued'
    exact absurd hissued' hfresh
  | rewritten step =>
    obtain ⟨huser', hkind, hparams⟩ := step.purpose
    exact ⟨_, ⟨hbefore, huser'.symm.trans huser,
      JobStatus.active_of_not_terminal step.not_terminal⟩, hkind, hparams⟩

/-- The ids of a user's active jobs. -/
def activeIds (jobs : JobTable) (userId : String) : List JobId :=
  (jobs.items.filter fun item => item.2.userId = userId && item.2.status.isActive).map Prod.fst

theorem length_activeIds (jobs : JobTable) (userId : String) :
    (activeIds jobs userId).length = activeJobs jobs userId := by
  rw [activeIds, List.length_map, activeJobs, Dict.values, List.filter_map, List.length_map]
  rfl

theorem activeIds_nodup (jobs : JobTable) (userId : String) : (activeIds jobs userId).Nodup :=
  jobs.nodup.sublist (List.filter_sublist.map Prod.fst)

theorem mem_activeIds {jobs : JobTable} {userId : String} {j : JobId} :
    j ∈ activeIds jobs userId ↔ ∃ row, ActiveJob jobs userId j row := by
  simp only [activeIds, List.mem_map, List.mem_filter, Bool.and_eq_true, decide_eq_true_eq,
    Prod.exists, exists_and_right, exists_eq_right, ActiveJob, Dict.get?_eq_some_iff]

/-- A table with no other active jobs has no more of them. -/
theorem activeJobs_mono {jobs jobs' : JobTable} {userId : String}
    (h : ∀ j row', ActiveJob jobs' userId j row' → ∃ row, ActiveJob jobs userId j row) :
    activeJobs jobs' userId ≤ activeJobs jobs userId := by
  rw [← length_activeIds, ← length_activeIds]
  refine (List.subperm_of_subset (activeIds_nodup jobs' userId) ?_).length_le
  intro j hj
  obtain ⟨row', hrow'⟩ := mem_activeIds.mp hj
  exact mem_activeIds.mpr (h j row' hrow')

/-- The active jobs after an insert. -/
theorem activeJob_set {jobs : JobTable} {userId : String} {newId j : JobId}
    {new row : ResearchJob} (h : ActiveJob (jobs.set newId new) userId j row) :
    (j = newId ∧ row = new) ∨ (j ≠ newId ∧ ActiveJob jobs userId j row) := by
  obtain ⟨hrow, huser, hstatus⟩ := h
  rw [Dict.get?_set] at hrow
  split at hrow
  · rename_i hj
    cases hrow
    exact .inl ⟨hj, rfl⟩
  · rename_i hj
    exact .inr ⟨hj, hrow, huser, hstatus⟩

/-- An insert adds at most one active job. -/
theorem activeJobs_set_le (jobs : JobTable) (userId : String) (newId : JobId) (new : ResearchJob) :
    activeJobs (jobs.set newId new) userId ≤ activeJobs jobs userId + 1 := by
  rw [← length_activeIds, ← length_activeIds, ← List.length_cons (a := newId)]
  refine (List.subperm_of_subset (activeIds_nodup _ userId) ?_).length_le
  intro j hj
  obtain ⟨row, hrow⟩ := mem_activeIds.mp hj
  rcases activeJob_set hrow with ⟨rfl, -⟩ | ⟨-, hold⟩
  · exact List.mem_cons_self ..
  · exact List.mem_cons_of_mem _ (mem_activeIds.mpr ⟨row, hold⟩)

/-! ## What the statements keep -/

/-- The limit holds; a call that has searched and counted would find nothing new. -/
structure Limited (cfg : JobsConfig) (s : EnqueueState) : Prop where
  issued : ∀ j row, s.queue.jobs.get? j = some row → j ∈ s.queue.issued
  limit : ∀ userId, activeJobs s.queue.jobs userId ≤ cfg.maxActiveJobsPerUser
  counted : ∀ userId, ∀ call ∈ s.holder userId, call.stage = .counted →
    activeJobs s.queue.jobs userId < cfg.maxActiveJobsPerUser

/-- The calls for a kind name the same fields, and its jobs differ in them. -/
structure Distinct (kind : String) (fields : List String) (s : EnqueueState) : Prop where
  named : ∀ userId, ∀ call ∈ s.holder userId, call.kind = kind → call.sameAs = fields
  searched : ∀ userId, ∀ call ∈ s.holder userId, call.kind = kind → call.stage ≠ .locked →
    ∀ j row, ActiveJob s.queue.jobs userId j row → row.kind = kind →
      sameParams fields row.params call.params = false
  distinct : ∀ userId j j' row row', j ≠ j' → ActiveJob s.queue.jobs userId j row →
    ActiveJob s.queue.jobs userId j' row' → row.kind = kind → row'.kind = kind →
      sameParams fields row.params row'.params = false

namespace EnqueueState

variable {cfg : JobsConfig} {s s' : EnqueueState}

/-- Only the holder of one user's row changes. -/
theorem mem_hold {userId other : String} {call : Option EnqueueCall} {c : EnqueueCall}
    (h : c ∈ (s.hold userId call).holder other) :
    (other = userId ∧ c ∈ call) ∨ (other ≠ userId ∧ c ∈ s.holder other) := by
  simp only [hold] at h
  by_cases hother : other = userId
  · subst hother
    rw [Function.update_self] at h
    exact .inl ⟨rfl, h⟩
  · rw [Function.update_of_ne hother] at h
    exact .inr ⟨hother, h⟩

/-- What a statement does: the rest of the queue moves, the holder of one row changes, or a
counted job is inserted. -/
inductive Moves (cfg : JobsConfig) (s : EnqueueState) : EnqueueAction → EnqueueState → Prop
  | other {a : Action} {queue : QueueState} (mild : a.enqueues = false)
      (step : Jobs.step cfg s.queue a = some queue) :
      Moves cfg s (.other a) { s with queue := queue }
  | ends {a : EnqueueAction} (userId : String) : Moves cfg s a (s.hold userId none)
  | locks {userId kind : String} {params : JsonObject} {sameAs : List String} :
      Moves cfg s (.lock userId kind params sameAs)
        (s.hold userId (some ⟨kind, params, sameAs, .locked⟩))
  | searches {userId : String} {call : EnqueueCall} (held : s.holder userId = some call)
      (none : call.sameAs ≠ [] →
        duplicateOf s.queue.jobs userId call.kind call.params call.sameAs = .none) :
      Moves cfg s (.search userId) (s.hold userId (some { call with stage := .searched }))
  | counts {userId : String} {call : EnqueueCall} (held : s.holder userId = some call)
      (stage : call.stage = .searched)
      (free : activeJobs s.queue.jobs userId < cfg.maxActiveJobsPerUser) :
      Moves cfg s (.count userId) (s.hold userId (some { call with stage := .counted }))
  | inserts {userId : String} {newId : JobId} {now : Time} {call : EnqueueCall}
      (held : s.holder userId = some call) (stage : call.stage = .counted)
      (fresh : newId ∉ s.queue.issued) :
      Moves cfg s (.insert userId newId now)
        { queue :=
            { s.queue with
              jobs := s.queue.jobs.set newId (newJob cfg userId call.kind call.params now)
              issued := newId :: s.queue.issued }
          holder := Function.update s.holder userId .none }

/-- Every step is one of these. -/
theorem moves_of_step {a : EnqueueAction} (h : s.step cfg a = some s') : Moves cfg s a s' := by
  cases a with
  | other a =>
    simp only [step] at h
    split at h
    · cases h
    · rename_i hmild
      obtain ⟨queue, hqueue, rfl⟩ := Option.map_eq_some_iff.mp h
      exact .other (Bool.eq_false_iff.mpr hmild) hqueue
  | lock userId kind params sameAs =>
    simp only [step] at h
    split at h <;> cases h
    exact .locks
  | search userId =>
    obtain ⟨call, hcall, h⟩ := Option.bind_eq_some_iff.mp h
    split at h
    · dsimp only at h
      split at h
      · cases h
        exact .ends userId
      · rename_i hnone
        cases h
        refine .searches hcall fun hnamed => ?_
        rwa [if_neg hnamed] at hnone
    · cases h
  | count userId =>
    obtain ⟨call, hcall, h⟩ := Option.bind_eq_some_iff.mp h
    split at h
    · rename_i hstage
      split at h
      · cases h
        exact .ends userId
      · rename_i hfree
        cases h
        exact .counts hcall hstage (not_le.mp hfree)
    · cases h
  | insert userId newId now =>
    obtain ⟨call, hcall, h⟩ := Option.bind_eq_some_iff.mp h
    split at h
    · rename_i hready
      cases h
      exact .inserts hcall hready.1 hready.2
    · cases h
  | rollback userId =>
    cases h
    exact .ends userId

end EnqueueState

open EnqueueState

variable {cfg : JobsConfig} {s s' : EnqueueState} {a : EnqueueAction}

/-- A search that finds nothing: the user's active jobs of the kind differ in some field. -/
theorem duplicateOf_eq_none {jobs : JobTable} {userId kind : String} {params : JsonObject}
    {sameAs : List String} (h : duplicateOf jobs userId kind params sameAs = none) {j : JobId}
    {row : ResearchJob} (hrow : ActiveJob jobs userId j row) (hkind : row.kind = kind) :
    sameParams sameAs row.params params = false := by
  have hnone := List.find?_eq_none.mp (Option.map_eq_none_iff.mp h)
  obtain ⟨hget, huser, hstatus⟩ := hrow
  have hcandidate : (j, row) ∈ jobs.items.filter fun item =>
      item.2.userId = userId && item.2.kind = kind && item.2.status.isActive :=
    List.mem_filter.mpr ⟨Dict.get?_eq_some_iff.mp hget, by simp [huser, hkind, hstatus]⟩
  simpa using hnone (j, row) ((List.mem_insertionSort _).mpr hcandidate)

theorem sameParams_comm (fields : List String) (p q : JsonObject) :
    sameParams fields p q = sameParams fields q p := by
  simp only [sameParams, eq_comm]

/-- Another user's active jobs are not touched by an insert. -/
theorem activeJob_of_insert {jobs : JobTable} {userId other kind : String} {params : JsonObject}
    {newId j : JobId} {now : Time} {row : ResearchJob} (hother : other ≠ userId)
    (h : ActiveJob (jobs.set newId (newJob cfg userId kind params now)) other j row) :
    ActiveJob jobs other j row := by
  rcases activeJob_set h with ⟨-, rfl⟩ | ⟨-, hold⟩
  · exact absurd h.2.1.symm hother
  · exact hold

/-- The limit is kept by every statement. -/
theorem Limited.step (h : Limited cfg s) (hmoves : Moves cfg s a s') : Limited cfg s' := by
  cases hmoves with
  | other hmild hstep =>
    have hactive : ∀ userId, activeJobs _ userId ≤ activeJobs s.queue.jobs userId := fun userId =>
      activeJobs_mono fun j row' hrow' =>
        (stays_active hstep hmild h.issued hrow').imp fun _ hrow => hrow.1
    refine ⟨?_, fun userId => (hactive userId).trans (h.limit userId),
      fun userId call hcall hstage => (hactive userId).trans_lt (h.counted userId call hcall hstage)⟩
    intro j row' hrow'
    have hentry := step_get? hstep h.issued j
    rw [step_issued_eq hstep hmild]
    rw [hrow'] at hentry
    generalize hbefore : s.queue.jobs.get? j = before at hentry
    cases hentry with
    | same => exact h.issued j _ hbefore
    | created hfresh hissued =>
      rw [step_issued_eq hstep hmild] at hissued
      exact hissued
    | rewritten => exact h.issued j _ hbefore
  | ends userId =>
    refine ⟨h.issued, h.limit, fun other call hcall hstage => ?_⟩
    rcases mem_hold hcall with ⟨-, hnew⟩ | ⟨-, hold⟩
    · cases hnew
    · exact h.counted other call hold hstage
  | locks =>
    refine ⟨h.issued, h.limit, fun other call hcall hstage => ?_⟩
    rcases mem_hold hcall with ⟨-, hnew⟩ | ⟨-, hold⟩
    · cases hnew
      cases hstage
    · exact h.counted other call hold hstage
  | searches hheld hnone =>
    refine ⟨h.issued, h.limit, fun other call hcall hstage => ?_⟩
    rcases mem_hold hcall with ⟨-, hnew⟩ | ⟨-, hold⟩
    · cases hnew
      cases hstage
    · exact h.counted other call hold hstage
  | counts hheld hsearched hfree =>
    refine ⟨h.issued, h.limit, fun other call hcall hstage => ?_⟩
    rcases mem_hold hcall with ⟨rfl, hnew⟩ | ⟨-, hold⟩
    · exact hfree
    · exact h.counted other call hold hstage
  | @inserts userId newId now call hheld hstage hfresh =>
    have hothers : ∀ other, other ≠ userId →
        activeJobs (s.queue.jobs.set newId (newJob cfg userId call.kind call.params now)) other ≤
          activeJobs s.queue.jobs other := fun other hother =>
      activeJobs_mono fun j row hrow => ⟨row, activeJob_of_insert hother hrow⟩
    refine ⟨?_, ?_, ?_⟩
    · intro j row hrow
      rw [Dict.get?_set] at hrow
      split at hrow
      · rename_i hj
        exact hj ▸ List.mem_cons_self ..
      · exact List.mem_cons_of_mem _ (h.issued j row hrow)
    · intro other
      by_cases hother : other = userId
      · subst hother
        have hbelow := h.counted other call hheld hstage
        have hone := activeJobs_set_le s.queue.jobs other newId
          (newJob cfg other call.kind call.params now)
        exact hone.trans hbelow
      · exact (hothers other hother).trans (h.limit other)
    · intro other call' hcall' hstage'
      rcases mem_hold hcall' with ⟨-, hnew⟩ | ⟨hother, hold⟩
      · cases hnew
      · exact (hothers other hother).trans_lt (h.counted other call' hold hstage')

/-- Jobs of the kind are kept apart by every statement. -/
theorem Distinct.step {kind : String} {fields : List String} (hfields : fields ≠ [])
    (hlimited : Limited cfg s) (h : Distinct kind fields s) (hnames : NamesFields kind fields s a)
    (hmoves : Moves cfg s a s') : Distinct kind fields s' := by
  cases hmoves with
  | other hmild hstep =>
    refine ⟨h.named, ?_, ?_⟩
    · intro userId call hcall hkind hstage j row' hrow' hkind'
      obtain ⟨row, hrow, hsame, hparams⟩ := stays_active hstep hmild hlimited.issued hrow'
      rw [hparams]
      exact h.searched userId call hcall hkind hstage j row hrow (hsame.symm.trans hkind')
    · intro userId j j' row row' hne hrow hrow' hkind hkind'
      obtain ⟨old, hold, hsame, hparams⟩ := stays_active hstep hmild hlimited.issued hrow
      obtain ⟨old', hold', hsame', hparams'⟩ := stays_active hstep hmild hlimited.issued hrow'
      rw [hparams, hparams']
      exact h.distinct userId j j' old old' hne hold hold' (hsame.symm.trans hkind)
        (hsame'.symm.trans hkind')
  | ends userId =>
    refine ⟨fun other call hcall => ?_, fun other call hcall => ?_, h.distinct⟩
    · rcases mem_hold hcall with ⟨-, hnew⟩ | ⟨-, hold⟩
      · cases hnew
      · exact h.named other call hold
    · rcases mem_hold hcall with ⟨-, hnew⟩ | ⟨-, hold⟩
      · cases hnew
      · exact h.searched other call hold
  | locks =>
    refine ⟨fun other call hcall hkind => ?_, fun other call hcall hkind hstage => ?_, h.distinct⟩
    · rcases mem_hold hcall with ⟨-, hnew⟩ | ⟨-, hold⟩
      · cases hnew
        exact hnames hkind
      · exact h.named other call hold hkind
    · rcases mem_hold hcall with ⟨-, hnew⟩ | ⟨-, hold⟩
      · cases hnew
        exact absurd rfl hstage
      · exact h.searched other call hold hkind hstage
  | @searches userId call hheld hnone =>
    refine ⟨fun other call' hcall' hkind => ?_, fun other call' hcall' hkind hstage => ?_,
      h.distinct⟩
    · rcases mem_hold hcall' with ⟨rfl, hnew⟩ | ⟨-, hold⟩
      · cases hnew
        exact h.named other call hheld hkind
      · exact h.named other call' hold hkind
    · rcases mem_hold hcall' with ⟨rfl, hnew⟩ | ⟨-, hold⟩
      · cases hnew
        have hnamed : call.sameAs = fields := h.named other call hheld hkind
        intro j row hrow hrowKind
        rw [hnamed] at hnone
        exact duplicateOf_eq_none (hnone hfields) hrow (hrowKind.trans hkind.symm)
      · exact h.searched other call' hold hkind hstage
  | @counts userId call hheld hsearched hfree =>
    refine ⟨fun other call' hcall' hkind => ?_, fun other call' hcall' hkind hstage => ?_,
      h.distinct⟩
    · rcases mem_hold hcall' with ⟨rfl, hnew⟩ | ⟨-, hold⟩
      · cases hnew
        exact h.named other call hheld hkind
      · exact h.named other call' hold hkind
    · rcases mem_hold hcall' with ⟨rfl, hnew⟩ | ⟨-, hold⟩
      · cases hnew
        exact h.searched other call hheld hkind (by rw [hsearched]; decide)
      · exact h.searched other call' hold hkind hstage
  | @inserts userId newId now call hheld hstage hfresh =>
    have hnew : call.kind = kind → ∀ j row, ActiveJob s.queue.jobs userId j row →
        row.kind = kind → sameParams fields row.params call.params = false := fun hkind =>
      h.searched userId call hheld hkind (by rw [hstage]; decide)
    refine ⟨?_, ?_, ?_⟩
    · intro other call' hcall' hkind
      rcases mem_hold hcall' with ⟨-, hnone⟩ | ⟨-, hold⟩
      · cases hnone
      · exact h.named other call' hold hkind
    · intro other call' hcall' hkind hstage' j row hrow hrowKind
      rcases mem_hold hcall' with ⟨-, hnone⟩ | ⟨hother, hold⟩
      · cases hnone
      · exact h.searched other call' hold hkind hstage' j row (activeJob_of_insert hother hrow)
          hrowKind
    · intro other j j' row row' hne hrow hrow' hkind hkind'
      rcases activeJob_set hrow with ⟨hj, rfl⟩ | ⟨hj, hold⟩
      · rcases activeJob_set hrow' with ⟨hj', -⟩ | ⟨-, hold'⟩
        · exact absurd (hj.trans hj'.symm) hne
        · have huser : userId = other := hrow.2.1
          subst huser
          rw [sameParams_comm]
          exact hnew hkind j' row' hold' hkind'
      · rcases activeJob_set hrow' with ⟨-, rfl⟩ | ⟨-, hold'⟩
        · have huser : userId = other := hrow'.2.1
          subst huser
          exact hnew hkind' j row hold hkind
        · exact h.distinct other j j' row row' hne hold hold' hkind hkind'

/-! ## The limit and the duplicates -/

theorem Limited.start (cfg : JobsConfig) : Limited cfg (enqueueing cfg).init where
  issued _ _ h := by cases h
  limit _ := Nat.zero_le _
  counted _ _ h := by cases h

theorem Distinct.start (cfg : JobsConfig) (kind : String) (fields : List String) :
    Distinct kind fields (enqueueing cfg).init where
  named _ _ h := by cases h
  searched _ _ h := by cases h
  distinct _ _ _ _ _ _ h := by cases h.1

/-- However the calls interleave, no user has more active jobs than the limit; and when the calls
for a kind all name the same fields, no two active jobs of a user and that kind agree on all of
them. -/
theorem enqueue_limited (cfg : JobsConfig) :
    (∀ s, (enqueueing cfg).Reachable s →
        ∀ userId, activeJobs s.queue.jobs userId ≤ cfg.maxActiveJobsPerUser) ∧
      ∀ kind fields, fields ≠ [] → ∀ s,
        (enqueueing cfg).ReachableUnder (NamesFields kind fields) s →
          ∀ userId j j' row row', j ≠ j' → ActiveJob s.queue.jobs userId j row →
            ActiveJob s.queue.jobs userId j' row' → row.kind = kind → row'.kind = kind →
              sameParams fields row.params row'.params = false := by
  constructor
  · intro s hs userId
    have hlimited : Limited cfg s :=
      hs.invariant (Limited.start cfg) fun _ _ _ hstep ht => ht.step (moves_of_step hstep)
    exact hlimited.limit userId
  · intro kind fields hfields s hs
    have hboth : Limited cfg s ∧ Distinct kind fields s := by
      refine hs.invariant (I := fun t => Limited cfg t ∧ Distinct kind fields t)
        ⟨Limited.start cfg, Distinct.start cfg kind fields⟩ ?_
      intro t a t' hnames hstep ht
      have hmoves := moves_of_step hstep
      exact ⟨ht.1.step hmoves, ht.2.step hfields ht.1 hnames hmoves⟩
    exact hboth.2.distinct

/-- A user asks for two tickers, and once more for the first; another user asks for it too. -/
def tickersAsked : List EnqueueAction :=
  [.lock "alice" "alpha" [("ticker", "SPY")] ["ticker"],
    .lock "bob" "alpha" [("ticker", "SPY")] ["ticker"],
    .search "alice",
    .search "bob",
    .count "alice",
    .insert "alice" "a" 0,
    .lock "alice" "alpha" [("ticker", "SPY"), ("days", "5")] ["ticker"],
    .search "alice",
    .lock "alice" "alpha" [("ticker", "QQQ")] ["ticker"],
    .search "alice",
    .count "bob",
    .insert "bob" "b" 1,
    .count "alice",
    .insert "alice" "c" 2]

/-- The second call finds the job of the first. -/
theorem enqueue_limited_tickers :
    ∃ s, (enqueueing defaultConfig).exec (enqueueing defaultConfig).init tickersAsked = some s ∧
      activeIds s.queue.jobs "alice" = ["a", "c"] ∧ activeIds s.queue.jobs "bob" = ["b"] ∧
      ∀ row row', ActiveJob s.queue.jobs "alice" "a" row → ActiveJob s.queue.jobs "alice" "c" row' →
        row.kind = "alpha" → row'.kind = "alpha" →
          sameParams ["ticker"] row.params row'.params = false := by
  have hexec : ((enqueueing defaultConfig).exec (enqueueing defaultConfig).init tickersAsked).map
      (fun s => (activeIds s.queue.jobs "alice", activeIds s.queue.jobs "bob")) =
        some (["a", "c"], ["b"]) := by
    decide
  obtain ⟨s, hs, hids⟩ := Option.map_eq_some_iff.mp hexec
  have hnames : ∀ a ∈ tickersAsked, ∀ t, NamesFields "alpha" ["ticker"] t a := by
    simp [tickersAsked, NamesFields]
  refine ⟨s, hs, congrArg Prod.fst hids, congrArg Prod.snd hids, fun row row' => ?_⟩
  exact (enqueue_limited defaultConfig).2 "alpha" ["ticker"] (by decide) s
    ⟨_, Machine.run_of_exec_all hs hnames⟩ "alice" "a" "c" row row' (by decide)

end QuantumSentinel.Jobs
