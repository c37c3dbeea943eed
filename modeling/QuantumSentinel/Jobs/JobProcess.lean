import QuantumSentinel.Jobs.Model
import QuantumSentinel.Lib.Transition

/-!
# Research jobs: the child process of a worker

`JobProcess` of `worker.py`, the child it starts and the loop of the worker that calls it.
Requests and answers go through a pipe that does not say which job they are for, so an answer is
taken for the answer to the last request.  Here a request carries the call that sent it; neither the
child nor the worker looks at that.

Main results:

- Definition `workerMachine`: the worker and its child, step by step.
- Theorem `Settled.step`: outside the calls, the pipe is empty, unless the callback has raised.
- Theorem `outcomes_own`: while no call begins on a child that owes an answer to a call whose
  callback has raised, each job gets its own outcome.
- Theorem `outcome_of_other_job`: otherwise a job is completed with the outcome of another one.

Current gaps:

- A message is sent whole or not at all, and the child is started with its pipe or not at all.
- What the child computes is any outcome; how the worker stores it is left to the queue.
-/

namespace QuantumSentinel.Jobs

open Lib

/-! ## Messages -/

/-- A call of `JobProcess.run` for an attempt of a job. -/
structure RunCall where
  number : ℕ
  job : JobId
  attempt : ℕ
  target : String
  params : JsonObject
deriving DecidableEq, Repr

/-- What `_run_target` returns. -/
inductive TaskOutcome
  | ok (result audit : Json) (trials : Option Json)
  | error (statusCode : Int) (detail : String)
deriving DecidableEq, Repr

/-- What the child receives. -/
inductive Message
  | task (call : RunCall)
  | stop
deriving DecidableEq, Repr

/-- What the child sends: `_READY`, or an answer. -/
inductive Reply
  | ready
  | answer (call : RunCall) (outcome : TaskOutcome)
deriving DecidableEq, Repr

/-- Where `_child_main` stands. -/
inductive ChildStage
  | booting
  | waiting
  | working (call : RunCall)
  | exited
deriving DecidableEq, Repr

/-- The child, and the two directions of the pipe. -/
structure Child where
  stage : ChildStage
  inbox : List Message
  outbox : List Reply
deriving DecidableEq, Repr

/-- The child as `_start` leaves it. -/
def freshChild : Child :=
  ⟨.booting, [], []⟩

/-- `is_alive` -/
def Child.isAlive (c : Child) : Bool :=
  c.stage ≠ .exited

/-! ## The worker -/

/-- Where a call of `run` stands, and whether its deadline is set. -/
inductive RunStage
  | entered
  | sending (deadline : Bool)
  | polling (deadline : Bool)
  /-- `poll` has found nothing -/
  | checking (deadline : Bool)
deriving DecidableEq, Repr

/-- An outcome that a job is completed or failed with. -/
structure Report where
  call : RunCall
  answered : RunCall
  outcome : TaskOutcome
deriving DecidableEq, Repr

/-- The worker and its child. -/
structure WorkerState where
  proc : Option Child
  /-- `_jobs` -/
  jobs : ℕ
  /-- the calls so far -/
  calls : ℕ
  running : Option (RunCall × RunStage)
  /-- whether the callback has raised since the child was started -/
  raised : Bool
  /-- what `_execute` has passed to `complete` and `fail` -/
  reports : List Report
deriving DecidableEq, Repr

/-- A step of the worker or of its child. -/
inductive WorkerAction
  /-- `_execute` calls `run` for the job it has claimed -/
  | run (job : JobId) (attempt : ℕ) (target : String) (params : JsonObject)
  /-- a child is started unless there is one -/
  | start
  /-- `_start` raises -/
  | startFails
  | send
  /-- `send` raises -/
  | sendFails
  | receive
  /-- `recv` finds the end of the pipe -/
  | receiveEnd
  /-- `recv` cannot read an answer, and raises -/
  | receiveFails
  | pollEmpty
  /-- `poll` raises on a broken pipe -/
  | pollFails
  | crashed
  | bootTimeout
  | timeout
  /-- `on_tick` returns -/
  | tick (stop : Option String)
  /-- `on_tick` raises -/
  | tickFails
  /-- `serve` ends -/
  | serveEnds
  /-- the child says that it is ready -/
  | boot
  /-- the child receives a message -/
  | take
  /-- the child answers -/
  | answer (outcome : TaskOutcome)
  /-- the child ends, for whatever reason -/
  | exit
deriving DecidableEq, Repr

namespace WorkerState

variable (s : WorkerState)

/-- There is a child, and it is alive. -/
def isAlive : Bool :=
  match s.proc with
  | some child => child.isAlive
  | none => false

/-- The call ends, by a return or by an exception. -/
def leave : WorkerState :=
  { s with running := none }

/-- `kill`, behind which the call returns. -/
def kill : WorkerState :=
  { s with proc := none, running := none }

/-- `run` goes on. -/
def goOn (call : RunCall) (stage : RunStage) : WorkerState :=
  { s with running := some (call, stage) }

/-- The child goes on. -/
def withChild (child : Child) : WorkerState :=
  { s with proc := some child }

/-- `_start` -/
def startChild : WorkerState :=
  { s with proc := some freshChild, jobs := 0, raised := false }

/-- The outcome is returned; after enough jobs the child is stopped. -/
def finish (recycleAfter : ℕ) (call answered : RunCall) (outcome : TaskOutcome) (child : Child) :
    WorkerState :=
  { s with
    proc := if recycleAfter ≤ s.jobs + 1 then none else some child
    jobs := s.jobs + 1
    running := none
    reports := s.reports ++ [⟨call, answered, outcome⟩] }

/-- The steps of a call. -/
def callStep (recycleAfter : ℕ) (call : RunCall) : RunStage → WorkerAction → Option WorkerState
  | .entered, .start =>
    if s.isAlive then some (s.goOn call (.sending true))
    else some (s.startChild.goOn call (.sending false))
  | .entered, .startFails => if s.isAlive then none else some s.kill
  | .sending deadline, .send =>
    s.proc.map fun child =>
      (s.withChild { child with inbox := child.inbox ++ [.task call] }).goOn call
        (.polling deadline)
  | .sending _, .sendFails => some s.leave
  | .polling _, .receive =>
    s.proc.bind fun child =>
      match child.outbox with
      | [] => none
      | .ready :: rest =>
        some ((s.withChild { child with outbox := rest }).goOn call (.polling true))
      | .answer answered outcome :: rest =>
        some (s.finish recycleAfter call answered outcome { child with outbox := rest })
  | .polling _, .receiveEnd => if s.isAlive then none else some s.kill
  | .polling _, .receiveFails =>
    s.proc.bind fun child =>
      match child.outbox with
      | .answer _ _ :: rest => some (s.withChild { child with outbox := rest }).leave
      | _ => none
  | .polling _, .pollFails => if s.isAlive then none else some s.leave
  | .polling deadline, .pollEmpty =>
    s.proc.bind fun child =>
      if child.isAlive = true ∧ child.outbox = [] then some (s.goOn call (.checking deadline))
      else none
  | .checking _, .crashed => if s.isAlive then none else some s.kill
  | .checking false, .bootTimeout => some s.kill
  | .checking true, .timeout => some s.kill
  | .checking deadline, .tick stop =>
    if stop.getD "" = "" then some (s.goOn call (.polling deadline)) else some s.kill
  | .checking _, .tickFails => some { s.leave with raised := true }
  | _, _ => none

end WorkerState

/-- The steps of the child. -/
def Child.step (c : Child) : WorkerAction → Option Child
  | .boot =>
    if c.stage = .booting then some { c with stage := .waiting, outbox := c.outbox ++ [.ready] }
    else none
  | .take =>
    match c.stage, c.inbox with
    | .waiting, .task call :: rest => some { c with stage := .working call, inbox := rest }
    | .waiting, .stop :: rest => some { c with stage := .exited, inbox := rest }
    | _, _ => none
  | .answer outcome =>
    match c.stage with
    | .working call =>
      some { c with stage := .waiting, outbox := c.outbox ++ [.answer call outcome] }
    | _ => none
  | .exit => some { c with stage := .exited }
  | _ => none

/-- One step. -/
def WorkerState.step (recycleAfter : ℕ) (s : WorkerState) (a : WorkerAction) :
    Option WorkerState :=
  match a with
  | .run job attempt target params =>
    if s.running = none then
      some { s with
        calls := s.calls + 1
        running := some (⟨s.calls, job, attempt, target, params⟩, .entered) }
    else none
  | .serveEnds => if s.running = none then some s.kill else none
  | .boot | .take | .answer _ | .exit =>
    s.proc.bind fun child => (child.step a).map fun child => s.withChild child
  | _ => s.running.bind fun (call, stage) => s.callStep recycleAfter call stage a

/-- A worker that has not run a job yet. -/
def idleWorker : WorkerState :=
  ⟨none, 0, 0, none, false, []⟩

/-- A worker and its child. -/
def workerMachine (recycleAfter : ℕ) : Machine WorkerState WorkerAction where
  init := idleWorker
  step := WorkerState.step recycleAfter

/-- No call begins on a living child behind a callback that has raised. -/
def Prompt (s : WorkerState) (a : WorkerAction) : Prop :=
  a = .start → s.raised = true → s.isAlive = false

instance (s : WorkerState) (a : WorkerAction) : Decidable (Prompt s a) :=
  inferInstanceAs (Decidable (a = .start → s.raised = true → s.isAlive = false))

/-! ## Requests without an answer -/

/-- The calls that an answer may still come to, oldest first: answers in the pipe, the one the child
works on, requests in the pipe. -/
def Child.owed (c : Child) : List RunCall :=
  (c.outbox.filterMap fun
      | .answer call _ => some call
      | .ready => none) ++
    (match c.stage with
      | .working call => [call]
      | _ => []) ++
    c.inbox.filterMap fun
      | .task call => some call
      | .stop => none

/-- The request is sent. -/
def RunStage.hasSent : RunStage → Bool
  | .polling _ | .checking _ => true
  | _ => false

/-- The call that has sent its request. -/
def WorkerState.sent (s : WorkerState) : List RunCall :=
  match s.running with
  | some (call, stage) => if stage.hasSent then [call] else []
  | none => []

/-- No call has looked at the child yet. -/
def WorkerState.Outside (s : WorkerState) : Prop :=
  ∀ call stage, s.running = some (call, stage) → stage = .entered

/-- What holds in every state: outside the calls nothing is owed, unless the callback has raised or the
child has ended; a call that has sent its request is owed no other answer. -/
structure Settled (s : WorkerState) : Prop where
  owed : ∀ child, s.proc = some child →
    child.owed.Sublist s.sent ∨ s.Outside ∧ (s.raised = true ∨ child.isAlive = false)
  reports : ∀ report ∈ s.reports, report.answered = report.call

section Children

variable {c c' : Child}

/-- What a child does. -/
theorem Child.step_cases {a : WorkerAction} (h : c.step a = some c') :
    (c.stage = .booting ∧
      c' = { c with stage := .waiting, outbox := c.outbox ++ [.ready] }) ∨
    (∃ call rest, c.stage = .waiting ∧ c.inbox = .task call :: rest ∧
      c' = { c with stage := .working call, inbox := rest }) ∨
    (∃ rest, c.stage = .waiting ∧ c.inbox = .stop :: rest ∧
      c' = { c with stage := .exited, inbox := rest }) ∨
    (∃ call outcome, c.stage = .working call ∧
      c' = { c with stage := .waiting, outbox := c.outbox ++ [.answer call outcome] }) ∨
    c' = { c with stage := .exited } := by
  cases a with
  | boot =>
    simp only [Child.step] at h
    split at h
    · rename_i hstage
      exact Or.inl ⟨hstage, (Option.some.inj h).symm⟩
    · cases h
  | take =>
    simp only [Child.step] at h
    split at h
    · rename_i call rest hstage hinbox
      exact Or.inr (Or.inl ⟨call, rest, hstage, hinbox, (Option.some.inj h).symm⟩)
    · rename_i rest hstage hinbox
      exact Or.inr (Or.inr (Or.inl ⟨rest, hstage, hinbox, (Option.some.inj h).symm⟩))
    · cases h
  | answer outcome =>
    simp only [Child.step] at h
    split at h
    · rename_i call hstage
      exact Or.inr (Or.inr (Or.inr (Or.inl ⟨call, outcome, hstage, (Option.some.inj h).symm⟩)))
    · cases h
  | exit => exact Or.inr (Or.inr (Or.inr (Or.inr (Option.some.inj h).symm)))
  | _ => cases h

/-- The child adds nothing to what it owes. -/
theorem Child.step_owed {a : WorkerAction} (h : c.step a = some c') : c'.owed.Sublist c.owed := by
  rcases Child.step_cases h with ⟨hstage, rfl⟩ | ⟨call, rest, hstage, hinbox, rfl⟩ |
    ⟨rest, hstage, hinbox, rfl⟩ | ⟨call, outcome, hstage, rfl⟩ | rfl
  · simp [Child.owed, hstage]
  · simp [Child.owed, hstage, hinbox]
  · simp [Child.owed, hstage, hinbox]
  · simp [Child.owed, hstage]
  · simp only [Child.owed, List.append_nil]
    exact (List.sublist_append_left _ _).append_right _

/-- A child that has ended does not come back. -/
theorem Child.step_isAlive {a : WorkerAction} (h : c.step a = some c') (hexited : c.isAlive = false) :
    c'.isAlive = false := by
  have hstage : c.stage = .exited := by simpa [Child.isAlive] using hexited
  rcases Child.step_cases h with ⟨hother, -⟩ | ⟨call, rest, hother, -⟩ | ⟨rest, hother, -⟩ |
    ⟨call, outcome, hother, -⟩ | rfl
  · rw [hstage] at hother
    cases hother
  · rw [hstage] at hother
    cases hother
  · rw [hstage] at hother
    cases hother
  · rw [hstage] at hother
    cases hother
  · rfl

theorem owed_send (c : Child) (call : RunCall) :
    { c with inbox := c.inbox ++ [.task call] : Child }.owed = c.owed ++ [call] := by
  simp [Child.owed]

theorem owed_ready {rest : List Reply} (h : c.outbox = .ready :: rest) :
    c.owed = { c with outbox := rest : Child }.owed := by
  simp [Child.owed, h]

theorem owed_answer {answered : RunCall} {outcome : TaskOutcome} {rest : List Reply}
    (h : c.outbox = .answer answered outcome :: rest) :
    c.owed = answered :: { c with outbox := rest : Child }.owed := by
  simp [Child.owed, h]

end Children

/-! ## The invariant -/

section Invariant

variable {s s' : WorkerState} {recycleAfter : ℕ}

/-- Without a child nothing is owed. -/
theorem Settled.kill (h : Settled s) : Settled s.kill where
  owed := fun child hchild => by cases hchild
  reports := h.reports

/-- A step of the child. -/
theorem Settled.child (h : Settled s) {a : WorkerAction} {child child' : Child}
    (hchild : s.proc = some child) (hstep : child.step a = some child') :
    Settled (s.withChild child') := by
  refine ⟨fun c hc => ?_, h.reports⟩
  cases hc
  rcases h.owed child hchild with hsent | ⟨houtside, hraised | hexited⟩
  · exact Or.inl ((Child.step_owed hstep).trans hsent)
  · exact Or.inr ⟨houtside, Or.inl hraised⟩
  · exact Or.inr ⟨houtside, Or.inr (Child.step_isAlive hstep hexited)⟩

theorem isAlive_of_proc {child : Child} (hchild : s.proc = some child) :
    s.isAlive = child.isAlive := by
  rw [WorkerState.isAlive, hchild]

section Calls

variable {call : RunCall} {stage : RunStage} {child : Child}

theorem sent_of_running (hrunning : s.running = some (call, stage)) :
    s.sent = if stage.hasSent then [call] else [] := by
  rw [WorkerState.sent, hrunning]

/-- Where a call has looked at the child, no answer but its own is owed. -/
theorem Settled.owed_sent (h : Settled s) (hrunning : s.running = some (call, stage))
    (hstage : stage ≠ .entered) (hchild : s.proc = some child) :
    child.owed.Sublist (if stage.hasSent then [call] else []) := by
  rcases h.owed child hchild with hsent | ⟨houtside, -⟩
  · rwa [sent_of_running hrunning] at hsent
  · exact absurd (houtside call stage hrunning) hstage

/-- A call looks at the child: either the child owes nothing, or a fresh one is started. -/
theorem Settled.start (h : Settled s) (hrunning : s.running = some (call, .entered))
    (hprompt : s.raised = true → s.isAlive = false)
    (hstep : s.callStep recycleAfter call .entered .start = some s') : Settled s' := by
  simp only [WorkerState.callStep] at hstep
  split at hstep
  · rename_i halive
    cases hstep
    refine ⟨fun child hchild => Or.inl ?_, h.reports⟩
    have halive' : child.isAlive = true := (isAlive_of_proc hchild).symm.trans halive
    rcases h.owed child hchild with howed | ⟨-, hraised | hexited⟩
    · rwa [sent_of_running hrunning] at howed
    · rw [hprompt hraised] at halive
      cases halive
    · rw [hexited] at halive'
      cases halive'
  · cases hstep
    refine ⟨fun child hchild => Or.inl ?_, h.reports⟩
    cases hchild
    exact List.Sublist.refl _

/-- A call that receives an answer receives its own, and no other is owed. -/
theorem Settled.answered (h : Settled s) {answered : RunCall} {deadline : Bool}
    {outcome : TaskOutcome} {rest : List Reply}
    (hrunning : s.running = some (call, .polling deadline)) (hchild : s.proc = some child)
    (houtbox : child.outbox = .answer answered outcome :: rest) :
    answered = call ∧ { child with outbox := rest : Child }.owed = [] := by
  have howed := h.owed_sent hrunning (fun heq => by cases heq) hchild
  rw [owed_answer houtbox] at howed
  have hmem : answered ∈ [call] := howed.subset (List.mem_cons_self ..)
  have hlength := howed.length_le
  simp only [List.length_cons, RunStage.hasSent, if_true, List.length_nil] at hlength
  exact ⟨List.mem_singleton.mp hmem, List.eq_nil_of_length_eq_zero (by omega)⟩

/-- The call receives what the child has sent. -/
theorem Settled.receive (h : Settled s) {deadline : Bool}
    (hrunning : s.running = some (call, .polling deadline))
    (hstep : s.callStep recycleAfter call (.polling deadline) .receive = some s') :
    Settled s' := by
  obtain ⟨child, hchild, hreply⟩ := Option.bind_eq_some_iff.mp hstep
  split at hreply
  · cases hreply
  · rename_i rest houtbox
    cases hreply
    refine ⟨fun c hc => Or.inl ?_, h.reports⟩
    cases hc
    rw [← owed_ready houtbox]
    exact h.owed_sent hrunning (fun heq => by cases heq) hchild
  · rename_i answered outcome rest houtbox
    cases hreply
    obtain ⟨hown, howed⟩ := h.answered hrunning hchild houtbox
    constructor
    · intro c hc
      simp only [WorkerState.finish] at hc
      split at hc
      · cases hc
      · cases hc
        rw [howed]
        exact Or.inl (List.nil_sublist _)
    · intro report hreport
      rcases List.mem_append.mp hreport with hold | hnew
      · exact h.reports report hold
      · rw [List.mem_singleton.mp hnew]
        exact hown

/-- A call that goes on, or leaves while nothing can be owed any more. -/
theorem Settled.of_owed (h : Settled s) (hproc : s'.proc = s.proc) (hreports : s'.reports = s.reports)
    (howed : ∀ child, s.proc = some child → child.owed.Sublist s'.sent ∨
      s'.Outside ∧ (s'.raised = true ∨ child.isAlive = false)) : Settled s' where
  owed := fun child hchild => howed child (hproc ▸ hchild)
  reports := fun report hreport => h.reports report (hreports ▸ hreport)

theorem outside_of_idle (hidle : s.running = none) : s.Outside := by
  intro call stage hrunning
  rw [hidle] at hrunning
  cases hrunning

/-- The call sends its request to a child that owes nothing. -/
theorem Settled.send (h : Settled s) {deadline : Bool}
    (hrunning : s.running = some (call, .sending deadline))
    (hstep : s.callStep recycleAfter call (.sending deadline) .send = some s') : Settled s' := by
  obtain ⟨child, hchild, hs'⟩ := Option.map_eq_some_iff.mp hstep
  cases hs'
  refine ⟨fun c hc => Or.inl ?_, h.reports⟩
  cases hc
  have howed := h.owed_sent hrunning (fun heq => by cases heq) hchild
  have hnone : child.owed = [] := List.sublist_nil.mp howed
  rw [owed_send, hnone]
  exact List.Sublist.refl _

/-- An answer that cannot be read is no longer owed. -/
theorem Settled.receiveFails (h : Settled s) {deadline : Bool}
    (hrunning : s.running = some (call, .polling deadline))
    (hstep : s.callStep recycleAfter call (.polling deadline) .receiveFails = some s') :
    Settled s' := by
  obtain ⟨child, hchild, hreply⟩ := Option.bind_eq_some_iff.mp hstep
  split at hreply
  · rename_i answered outcome rest houtbox
    cases hreply
    refine ⟨fun c hc => Or.inl ?_, h.reports⟩
    cases hc
    rw [(h.answered hrunning hchild houtbox).2]
    exact List.nil_sublist _
  · cases hreply

/-- Every step of a call keeps the invariant. -/
theorem Settled.callStep (h : Settled s) {a : WorkerAction}
    (hrunning : s.running = some (call, stage)) (hprompt : Prompt s a)
    (hstep : s.callStep recycleAfter call stage a = some s') : Settled s' := by
  have hcall := hstep
  have hsame : ∀ stage', stage ≠ .entered → stage'.hasSent = stage.hasSent →
      Settled (s.goOn call stage') := by
    intro stage' hne hhas
    refine h.of_owed rfl rfl fun child hchild => Or.inl ?_
    have howed := h.owed_sent hrunning hne hchild
    rwa [← hhas] at howed
  have hexited : s.isAlive = false → Settled s.leave := by
    intro hdead
    refine h.of_owed rfl rfl fun child hchild => Or.inr ⟨outside_of_idle rfl, Or.inr ?_⟩
    rw [← isAlive_of_proc hchild, hdead]
  unfold WorkerState.callStep at hstep
  split at hstep
  case h_1 => exact h.start hrunning (hprompt rfl) hcall
  case h_2 =>
    split at hstep
    · cases hstep
    · cases hstep
      exact h.kill
  case h_3 => exact h.send hrunning hcall
  case h_4 =>
    cases hstep
    refine h.of_owed rfl rfl fun child hchild => Or.inl ?_
    exact h.owed_sent hrunning (fun heq => by cases heq) hchild
  case h_5 => exact h.receive hrunning hcall
  case h_6 =>
    split at hstep
    · cases hstep
    · cases hstep
      exact h.kill
  case h_7 => exact h.receiveFails hrunning hcall
  case h_8 =>
    split at hstep
    · cases hstep
    · rename_i hdead
      cases hstep
      exact hexited (Bool.eq_false_iff.mpr hdead)
  case h_9 =>
    obtain ⟨child, -, hs'⟩ := Option.bind_eq_some_iff.mp hstep
    split at hs'
    · cases hs'
      exact hsame _ (fun heq => by cases heq) rfl
    · cases hs'
  case h_10 =>
    split at hstep
    · cases hstep
    · cases hstep
      exact h.kill
  case h_11 =>
    cases hstep
    exact h.kill
  case h_12 =>
    cases hstep
    exact h.kill
  case h_13 =>
    split at hstep
    · cases hstep
      exact hsame _ (fun heq => by cases heq) rfl
    · cases hstep
      exact h.kill
  case h_14 =>
    cases hstep
    exact h.of_owed rfl rfl fun child _ => Or.inr ⟨outside_of_idle rfl, Or.inl rfl⟩
  case h_15 => cases hstep

end Calls

/-- Every prompt step keeps the invariant. -/
theorem Settled.step (h : Settled s) {a : WorkerAction} (hprompt : Prompt s a)
    (hstep : s.step recycleAfter a = some s') : Settled s' := by
  unfold WorkerState.step at hstep
  split at hstep
  case h_1 =>
    split at hstep
    · rename_i hnone
      cases hstep
      refine ⟨fun child hchild => ?_, h.reports⟩
      rcases h.owed child hchild with howed | ⟨-, hrest⟩
      · refine Or.inl ?_
        rw [WorkerState.sent, hnone] at howed
        exact howed
      · refine Or.inr ⟨fun call stage hrunning => ?_, hrest⟩
        cases hrunning
        rfl
    · cases hstep
  case h_2 =>
    split at hstep
    · cases hstep
      exact h.kill
    · cases hstep
  case h_7 =>
    obtain ⟨⟨call, stage⟩, hrunning, hcall⟩ := Option.bind_eq_some_iff.mp hstep
    exact h.callStep hrunning hprompt hcall
  all_goals
    obtain ⟨child, hchild, hmap⟩ := Option.bind_eq_some_iff.mp hstep
    obtain ⟨child', hchild', rfl⟩ := Option.map_eq_some_iff.mp hmap
    exact h.child hchild hchild'

end Invariant

/-! ## Outcomes -/

/-- In every run in which no call begins on a living child behind a callback that has raised, a job is
only completed or failed with the outcome that the child computed for this very call: for this
attempt of this job, from its target and parameters. -/
theorem outcomes_own {recycleAfter : ℕ} {s : WorkerState}
    (hs : (workerMachine recycleAfter).ReachableUnder Prompt s) :
    ∀ report ∈ s.reports, report.answered = report.call := by
  have hinit : Settled (workerMachine recycleAfter).init := by
    constructor
    · intro child hchild
      cases hchild
    · intro report hreport
      cases hreport
  have hsettled : Settled s := by
    refine hs.invariant hinit fun s a s' hprompt hstep h => ?_
    exact h.step hprompt hstep
  exact hsettled.reports

/-- The callback raises in the first call; its child ends, and the second call starts another one. -/
def restartedRun : List WorkerAction :=
  [.run "a" 1 "tasks:alpha" [("assets", "1")], .start, .send, .boot, .receive, .take, .pollEmpty,
    .tickFails, .exit, .run "b" 1 "tasks:alpha" [("assets", "2")], .start, .send, .boot, .receive,
    .take, .answer (.ok "2" "2" none), .receive]

theorem outcomes_own_restarted : ∃ s, (workerMachine 50).ReachableUnder Prompt s ∧
    s.reports.map (fun report => (report.call.job, report.outcome)) = [("b", .ok "2" "2" none)] ∧
      ∀ report ∈ s.reports, report.answered = report.call := by
  obtain ⟨s, hexec, hreports⟩ : ∃ s, (workerMachine 50).execUnder Prompt (workerMachine 50).init
      restartedRun = some s ∧ s.reports.map (fun report => (report.call.job, report.outcome)) =
        [("b", .ok "2" "2" none)] :=
    ⟨_, rfl, rfl⟩
  have hs := Machine.reachableUnder_of_execUnder hexec
  exact ⟨s, hs, hreports, outcomes_own hs⟩

/-- The callback raises in the first call, and the child goes on: the second call receives the answer
to the first one. -/
def abandonedRun : List WorkerAction :=
  [.run "a" 1 "tasks:alpha" [("assets", "1")], .start, .send, .boot, .receive, .take, .pollEmpty,
    .tickFails, .run "b" 1 "tasks:alpha" [("assets", "2")], .start, .send,
    .answer (.ok "1" "1" none), .receive]

/-- A job is completed with the outcome of another one. -/
theorem outcome_of_other_job : ∃ s, (workerMachine 50).Reachable s ∧
    ∃ report ∈ s.reports, report.call.job = "b" ∧ report.answered.job = "a" ∧
      report.answered.params ≠ report.call.params := by
  obtain ⟨s, hexec, hreports⟩ : ∃ s, (workerMachine 50).exec (workerMachine 50).init abandonedRun =
      some s ∧ s.reports = [⟨⟨1, "b", 1, "tasks:alpha", [("assets", "2")]⟩,
        ⟨0, "a", 1, "tasks:alpha", [("assets", "1")]⟩, .ok "1" "1" none⟩] :=
    ⟨_, rfl, rfl⟩
  refine ⟨s, Machine.reachable_of_exec hexec, ?_⟩
  rw [hreports]
  exact ⟨_, List.mem_singleton_self _, rfl, rfl, by decide⟩

end QuantumSentinel.Jobs
