import Mathlib.Data.List.Dedup
import QuantumSentinel.Lib.Digests
import QuantumSentinel.Lib.JsonValues
import QuantumSentinel.Lib.Transition

/-!
# Research: the ledger of trials

`record` adds the configurations of a family that are missing from the ledger, in one insert
that fails as a whole when one of them has been added meanwhile.  It tries three times.

Main results:

- Theorem `Ledger.step`: what every statement keeps, when no third insert collides.
- Theorem `trials_recorded`: then a call that returns has recorded every configuration once,
  and counts at least those it was given.
- Theorem `trials_lost`: three collisions lose a configuration.

Current gaps:

- Other rows of the session's transaction, and trials of a user that does not exist.
-/

namespace QuantumSentinel.Research

open Lib

/-! ## The ledger -/

/-- `ResearchTrial` -/
structure Trial where
  userId : String
  familyHash : String
  configHash : String
  source : String
deriving DecidableEq, Repr

/-- The columns of the unique constraint. -/
def Trial.key (t : Trial) : String × String × String :=
  (t.userId, t.familyHash, t.configHash)

/-- `_RECORD_ATTEMPTS` -/
def recordAttempts : ℕ :=
  3

/-- How a configuration is written to be hashed: sorted and compact. -/
def configStyle : JsonStyle where
  ensureAscii := true
  spaced := false

/-- `_digest` -/
def configDigest (sha256 : Bytes → String) (config : Json) : String :=
  sha256 (encodeChars (config.dumps configStyle))

/-- `count` -/
def trialCount (trials : List Trial) (userId family : String) : ℕ :=
  (trials.filter fun t => t.userId = userId && t.familyHash = family).length

/-- Where a call of `record` stands. -/
inductive RecordStage
  /-- the read of an attempt comes next -/
  | reading (attempt : ℕ)
  /-- the insert of an attempt comes next -/
  | inserting (attempt : ℕ) (new : List String)
  /-- the count comes next -/
  | counting
deriving DecidableEq, Repr

/-- A call of `record`. -/
structure RecordCall where
  userId : String
  family : String
  configs : List Json
  source : String
  stage : RecordStage

/-- A call that has returned a count. -/
structure RecordReturn where
  userId : String
  family : String
  configs : List Json
  count : ℕ

/-- The ledger, the calls in progress and the calls that have returned. -/
structure TrialState where
  trials : List Trial
  calls : ℕ → Option RecordCall
  returns : List RecordReturn

/-- A statement of a call, its start or its loss. -/
inductive TrialAction
  | start (call : ℕ) (userId family : String) (configs : List Json) (source : String)
  | read (call : ℕ)
  | insert (call : ℕ)
  | count (call : ℕ)
  | abort (call : ℕ)

section Statements

variable (sha256 : Bytes → String)

/-- `list(dict.fromkeys(_digest(c) for c in configs))`, which keeps the first of each. -/
def RecordCall.hashes (call : RecordCall) : List String :=
  (call.configs.map (configDigest sha256)).reverse.dedup.reverse

/-- The row of a configuration. -/
def RecordCall.trial (call : RecordCall) (hash : String) : Trial :=
  ⟨call.userId, call.family, hash, call.source⟩

/-- Whether a configuration is in the ledger. -/
def RecordCall.recorded (call : RecordCall) (trials : List Trial) (hash : String) : Bool :=
  (call.trial hash).key ∈ trials.map Trial.key

/-- Whether the next statement is a last insert, of a row that is in the ledger. -/
def RecordCall.lastCollides (call : RecordCall) (trials : List Trial) : Bool :=
  match call.stage with
  | .inserting attempt new => attempt + 1 = recordAttempts && new.any (call.recorded trials)
  | _ => false

namespace TrialState

variable (s : TrialState)

/-- A call moves on. -/
def restage (n : ℕ) (call : RecordCall) (stage : RecordStage) : TrialState :=
  { s with calls := Function.update s.calls n (some { call with stage := stage }) }

/-- One statement. -/
def step : TrialAction → Option TrialState
  | .start n userId family configs source =>
    if s.calls n = none then
      some (s.restage n ⟨userId, family, configs, source, .counting⟩ (.reading 0))
    else none
  | .read n =>
    (s.calls n).bind fun call =>
      match call.stage with
      | .reading attempt =>
        let new := (call.hashes sha256).filter fun hash => !call.recorded s.trials hash
        some (s.restage n call (if new = [] then .counting else .inserting attempt new))
      | _ => none
  | .insert n =>
    (s.calls n).bind fun call =>
      match call.stage with
      | .inserting attempt new =>
        if new.any (call.recorded s.trials) then
          -- a collision rolls the whole batch back
          some (s.restage n call
            (if attempt + 1 < recordAttempts then .reading (attempt + 1) else .counting))
        else
          some
            { s.restage n call .counting with
              trials := s.trials ++ new.map call.trial }
      | _ => none
  | .count n =>
    (s.calls n).bind fun call =>
      match call.stage with
      | .counting =>
        some
          { s with
            calls := Function.update s.calls n none
            returns := s.returns ++
              [⟨call.userId, call.family, call.configs,
                trialCount s.trials call.userId call.family⟩] }
      | _ => none
  | .abort n => some { s with calls := Function.update s.calls n none }

/-- The last insert of a call does not collide. -/
def Uncontended : TrialAction → Prop
  | .insert n => ∀ call ∈ s.calls n, call.lastCollides s.trials = false
  | _ => True

instance (a : TrialAction) : Decidable (s.Uncontended a) :=
  match a with
  | .insert n => inferInstanceAs (Decidable (∀ call ∈ s.calls n, _))
  | .start .. => isTrue trivial
  | .read _ => isTrue trivial
  | .count _ => isTrue trivial
  | .abort _ => isTrue trivial

end TrialState

/-- Any number of calls on an empty ledger. -/
def trialLedger : Machine TrialState TrialAction where
  init := ⟨[], fun _ => none, []⟩
  step := TrialState.step sha256

end Statements

/-! ## What the statements keep -/

variable {sha256 : Bytes → String}

theorem hashes_nodup (call : RecordCall) : (call.hashes sha256).Nodup :=
  List.nodup_reverse.mpr (List.nodup_dedup _)

theorem mem_hashes {call : RecordCall} {hash : String} :
    hash ∈ call.hashes sha256 ↔ ∃ c ∈ call.configs, configDigest sha256 c = hash := by
  simp [RecordCall.hashes]

theorem recorded_iff {call : RecordCall} {trials : List Trial} {hash : String} :
    call.recorded trials hash = true ↔
      (call.userId, call.family, hash) ∈ trials.map Trial.key := by
  simp [RecordCall.recorded, RecordCall.trial, Trial.key]

/-- The ledger only grows. -/
theorem recorded_append {call : RecordCall} {trials : List Trial} {hash : String}
    (h : call.recorded trials hash = true) (more : List Trial) :
    call.recorded (trials ++ more) hash = true := by
  rw [recorded_iff, List.map_append] at *
  exact List.mem_append_left _ h

/-- The rows of a user and a family are at least as many as the hashes recorded. -/
theorem length_le_trialCount {trials : List Trial} {userId family : String} {hashes : List String}
    (hnodup : hashes.Nodup)
    (h : ∀ hash ∈ hashes, (userId, family, hash) ∈ trials.map Trial.key) :
    hashes.length ≤ trialCount trials userId family := by
  rw [trialCount, ← List.length_map (f := Trial.configHash)]
  refine (List.subperm_of_subset hnodup ?_).length_le
  intro hash hhash
  obtain ⟨t, ht, hkey⟩ := List.mem_map.mp (h hash hhash)
  rw [Trial.key, Prod.mk.injEq, Prod.mk.injEq] at hkey
  obtain ⟨huser, hfamily, rfl⟩ := hkey
  exact List.mem_map_of_mem (List.mem_filter.mpr ⟨ht, by simp [huser, hfamily]⟩)

/-- What a stage of a call has established. -/
def RecordCall.Established (sha256 : Bytes → String) (call : RecordCall) (trials : List Trial) : Prop :=
  match call.stage with
  | .reading attempt => attempt < recordAttempts
  | .inserting attempt new =>
    attempt < recordAttempts ∧ new.Nodup ∧
      ∀ hash ∈ call.hashes sha256, hash ∈ new ∨ call.recorded trials hash = true
  | .counting => ∀ hash ∈ call.hashes sha256, call.recorded trials hash = true

theorem RecordCall.Established.append {call : RecordCall} {trials : List Trial}
    (h : call.Established sha256 trials) (more : List Trial) :
    call.Established sha256 (trials ++ more) := by
  unfold RecordCall.Established at *
  split
  · rename_i hstage
    rwa [hstage] at h
  · rename_i hstage
    rw [hstage] at h
    exact ⟨h.1, h.2.1, fun hash hhash => (h.2.2 hash hhash).imp_right (recorded_append · more)⟩
  · rename_i hstage
    rw [hstage] at h
    exact fun hash hhash => recorded_append (h hash hhash) more

/-- What a call that returned has left behind. -/
structure RecordReturn.Kept (sha256 : Bytes → String) (r : RecordReturn) (trials : List Trial) :
    Prop where
  recorded : ∀ c ∈ r.configs, (r.userId, r.family, configDigest sha256 c) ∈ trials.map Trial.key
  counted : (r.configs.map (configDigest sha256)).dedup.length ≤ r.count

/-- The unique constraint holds, and every call has established what its stage says. -/
structure Ledger (sha256 : Bytes → String) (s : TrialState) : Prop where
  unique : (s.trials.map Trial.key).Nodup
  calls : ∀ n, ∀ call ∈ s.calls n, call.Established sha256 s.trials
  returns : ∀ r ∈ s.returns, r.Kept sha256 s.trials

namespace Ledger

variable {s s' : TrialState}

/-- A call that moves on, with what its new stage says. -/
theorem restage (h : Ledger sha256 s) (n : ℕ) (call : RecordCall) (stage : RecordStage)
    (hstage : RecordCall.Established sha256 { call with stage := stage } s.trials) :
    Ledger sha256 (s.restage n call stage) where
  unique := h.unique
  calls m c hc := by
    simp only [TrialState.restage] at hc
    by_cases hm : m = n
    · subst hm
      rw [Function.update_self] at hc
      cases hc
      exact hstage
    · rw [Function.update_of_ne hm] at hc
      exact h.calls m c hc
  returns := h.returns

/-- A call that ends. -/
theorem ends (h : Ledger sha256 s) (n : ℕ) :
    Ledger sha256 { s with calls := Function.update s.calls n none } where
  unique := h.unique
  calls m c hc := by
    dsimp only at hc
    by_cases hm : m = n
    · subst hm
      rw [Function.update_self] at hc
      cases hc
    · rw [Function.update_of_ne hm] at hc
      exact h.calls m c hc
  returns := h.returns

/-- Rows that are all new keep the constraint. -/
theorem insert (h : Ledger sha256 s) {call : RecordCall} {new : List String} (hnew : new.Nodup)
    (hfree : new.any (call.recorded s.trials) = false) :
    Ledger sha256 { s with trials := s.trials ++ new.map call.trial } where
  unique := by
    rw [List.map_append, List.map_map]
    refine List.nodup_append.mpr ⟨h.unique, ?_, ?_⟩
    · refine (List.nodup_map_iff_inj_on hnew).mpr ?_
      intro a _ b _ hab
      simpa [RecordCall.trial, Trial.key] using hab
    · intro key hkey key' hkey' heq
      obtain ⟨hash, hhash, rfl⟩ := List.mem_map.mp hkey'
      rw [heq] at hkey
      exact List.any_eq_false.mp hfree hash hhash (recorded_iff.mpr hkey)
  calls n c hc := (h.calls n c hc).append _
  returns r hr :=
    { recorded := fun c hc => by
        rw [List.map_append]
        exact List.mem_append_left _ ((h.returns r hr).recorded c hc)
      counted := (h.returns r hr).counted }

/-- What every statement keeps, when no third insert collides. -/
theorem step {a : TrialAction} (hfree : s.Uncontended a) (hstep : s.step sha256 a = some s')
    (h : Ledger sha256 s) : Ledger sha256 s' := by
  cases a with
  | start n userId family configs source =>
    simp only [TrialState.step] at hstep
    split at hstep <;> cases hstep
    exact h.restage n _ _ (show 0 < recordAttempts by decide)
  | read n =>
    obtain ⟨call, hcall, hstep⟩ := Option.bind_eq_some_iff.mp hstep
    have hcalled := h.calls n call hcall
    split at hstep
    · rename_i attempt hstage
      cases hstep
      rw [RecordCall.Established, hstage] at hcalled
      refine h.restage n call _ ?_
      split
      · rename_i hnone
        intro hash hhash
        by_contra hmissing
        have hfalse : call.recorded s.trials hash = false := Bool.eq_false_iff.mpr hmissing
        have hmem : hash ∈ (call.hashes sha256).filter fun hash => !call.recorded s.trials hash :=
          List.mem_filter.mpr ⟨hhash, by rw [hfalse]; rfl⟩
        rw [hnone] at hmem
        cases hmem
      · refine ⟨hcalled, (hashes_nodup call).filter _, fun hash hhash => ?_⟩
        by_cases hrecorded : call.recorded s.trials hash = true
        · exact .inr hrecorded
        · have hfalse : call.recorded s.trials hash = false := Bool.eq_false_iff.mpr hrecorded
          exact .inl (List.mem_filter.mpr ⟨hhash, by rw [hfalse]; rfl⟩)
    · cases hstep
  | insert n =>
    obtain ⟨call, hcall, hstep⟩ := Option.bind_eq_some_iff.mp hstep
    have hcalled := h.calls n call hcall
    split at hstep
    · rename_i attempt new hstage
      rw [RecordCall.Established, hstage] at hcalled
      obtain ⟨hattempt, hnew, hcovered⟩ := hcalled
      split at hstep
      · rename_i hcollides
        cases hstep
        refine h.restage n call _ ?_
        split
        · rename_i hmore
          exact hmore
        · rename_i hlast
          -- the third insert does not collide
          have hthird : attempt + 1 = recordAttempts := by omega
          have hlastCollides := hfree call hcall
          simp only [RecordCall.lastCollides, hstage, hthird, hcollides] at hlastCollides
          cases hlastCollides
      · rename_i hclear
        cases hstep
        refine (h.insert hnew (Bool.eq_false_iff.mpr hclear)).restage n call .counting ?_
        intro hash hhash
        rcases hcovered hash hhash with hinserted | hold
        · refine recorded_iff.mpr ?_
          rw [List.map_append, List.map_map]
          exact List.mem_append_right _ (List.mem_map_of_mem hinserted)
        · exact recorded_append hold _
    · cases hstep
  | count n =>
    obtain ⟨call, hcall, hstep⟩ := Option.bind_eq_some_iff.mp hstep
    have hcalled := h.calls n call hcall
    split at hstep
    · rename_i hstage
      cases hstep
      rw [RecordCall.Established, hstage] at hcalled
      have hrecorded : ∀ c ∈ call.configs,
          (call.userId, call.family, configDigest sha256 c) ∈ s.trials.map Trial.key :=
        fun c hc => recorded_iff.mp (hcalled _ (mem_hashes.mpr ⟨c, hc, rfl⟩))
      refine ⟨h.unique, (h.ends n).calls, fun r hr => ?_⟩
      rcases List.mem_append.mp hr with hold | hlast
      · exact h.returns r hold
      · obtain rfl := List.mem_singleton.mp hlast
        refine ⟨hrecorded, length_le_trialCount (List.nodup_dedup _) fun hash hhash => ?_⟩
        obtain ⟨c, hc, rfl⟩ := List.mem_map.mp (List.mem_dedup.mp hhash)
        exact hrecorded c hc
    · cases hstep
  | abort n =>
    cases hstep
    exact h.ends n

theorem start (sha256 : Bytes → String) : Ledger sha256 (trialLedger sha256).init where
  unique := List.nodup_nil
  calls _ _ h := by cases h
  returns _ h := by cases h

end Ledger

/-! ## What a call that returns has recorded -/

/-- A recorded key has one row. -/
theorem length_filter_key {trials : List Trial} (hunique : (trials.map Trial.key).Nodup)
    {key : String × String × String} (hkey : key ∈ trials.map Trial.key) :
    (trials.filter fun t => t.key = key).length = 1 := by
  have hcount := List.count_eq_one_of_mem hunique hkey
  rw [List.count, List.countP_map, List.countP_eq_length_filter] at hcount
  rw [← hcount]
  exact congrArg List.length (List.filter_congr fun t _ => (beq_eq_decide t.key key).symm)

/-- When no call's third insert collides, a call that has returned has every configuration it was
given in the ledger, in one row, and its count is at least the number of different ones. -/
theorem trials_recorded {sha256 : Bytes → String} (hhash : Function.Injective sha256)
    {s : TrialState} (h : (trialLedger sha256).ReachableUnder TrialState.Uncontended s) :
    ∀ r ∈ s.returns,
      (∀ c ∈ r.configs, (s.trials.filter fun t =>
        t.key = (r.userId, r.family, configDigest sha256 c)).length = 1) ∧
      (r.configs.map fun c => c.dumps configStyle).dedup.length ≤ r.count := by
  have hledger : Ledger sha256 s :=
    h.invariant (Ledger.start sha256) fun _ _ _ hfree hstep ht => ht.step hfree hstep
  intro r hr
  have hkept := hledger.returns r hr
  refine ⟨fun c hc => length_filter_key hledger.unique (hkept.recorded c hc), ?_⟩
  have hdigest : Function.Injective fun text : List Char => sha256 (encodeChars text) :=
    fun a b hab => encodeChars_injective (hhash hab)
  have htexts : r.configs.map (configDigest sha256) =
      (r.configs.map fun c => c.dumps configStyle).map fun text => sha256 (encodeChars text) := by
    rw [List.map_map]
    rfl
  have hcounted := hkept.counted
  rw [htexts, List.dedup_map_of_injective hdigest, List.length_map] at hcounted
  exact hcounted

/-! ## Three collisions -/

/-- The digests of `{"n":1}` to `{"n":4}`. -/
def sampleDigests : Digests :=
  ⟨[
    (encodeChars ['{', '"', 'n', '"', ':', '1', '}'],
      0x2bfd14f43d17fc7cea24e0917a8879b4b2f880b8baeec1b9d90fbaad655e71bd),
    (encodeChars ['{', '"', 'n', '"', ':', '2', '}'],
      0x363379742f80b51bdb9206579af7754911543079b9399cb3fc315fb199f476e8),
    (encodeChars ['{', '"', 'n', '"', ':', '3', '}'],
      0x215ddd5567ca2590efd4ea109b4e56cbe591e2676fbf54a9262692c539166da6),
    (encodeChars ['{', '"', 'n', '"', ':', '4', '}'],
      0xf3e0792e105e2bfe88e7b3bab5097b93a59a8c5b239fe3c6f87a8d0f72ab9032)],
    by decide, by decide⟩

/-- The configuration of a window. -/
def sampleConfig (n : ℤ) : Json :=
  .obj [("n", .int n)]

/-- A call with one configuration, from its start to its end. -/
def sampleCall (call : ℕ) (n : ℤ) : List TrialAction :=
  [.start call "researcher" "momentum" [sampleConfig n] "backtest", .read call, .insert call,
    .count call]

/-- A call with four configurations, of which three are recorded by others after it has read. -/
def sampleSchedule : List TrialAction :=
  [.start 0 "researcher" "momentum" [sampleConfig 1, sampleConfig 2, sampleConfig 3, sampleConfig 4]
      "optimize", .read 0] ++
    sampleCall 1 1 ++ [.insert 0, .read 0] ++
    sampleCall 1 2 ++ [.insert 0, .read 0] ++
    sampleCall 1 3 ++ [.insert 0, .count 0]

/-- Two calls that both read an empty ledger.  The insert of the first collides with the one of
the second, and its next attempt adds what is still missing. -/
def overlappingCalls : List TrialAction :=
  [.start 0 "researcher" "momentum" [sampleConfig 1, sampleConfig 2, sampleConfig 1] "optimize",
    .start 1 "researcher" "momentum" [sampleConfig 2] "backtest", .read 0, .read 1, .insert 1,
    .insert 0, .read 0, .insert 0, .count 1, .count 0]

theorem trials_recorded_sample : ∃ s,
    (trialLedger sampleDigests.hash).Run TrialState.Uncontended
        (trialLedger sampleDigests.hash).init overlappingCalls s ∧
      s.returns.map (fun r => (r.configs.length, r.count)) = [(1, 2), (3, 2)] ∧
      ∀ r ∈ s.returns,
        (∀ c ∈ r.configs, (s.trials.filter fun t =>
          t.key = (r.userId, r.family, configDigest sampleDigests.hash c)).length = 1) ∧
        (r.configs.map fun c => c.dumps configStyle).dedup.length ≤ r.count := by
  have hrun : ((trialLedger sampleDigests.hash).execUnder TrialState.Uncontended
      (trialLedger sampleDigests.hash).init overlappingCalls).any (fun s =>
        decide (s.returns.map (fun r => (r.configs.length, r.count)) = [(1, 2), (3, 2)])) =
          true := by
    decide +kernel
  obtain ⟨s, hs, hreturns⟩ := (Option.any_eq_true ..).mp hrun
  exact ⟨s, Machine.run_of_execUnder hs, of_decide_eq_true hreturns,
    trials_recorded (Digests.hash_injective _) (Machine.reachableUnder_of_execUnder hs)⟩

/-- The call has lost its fourth configuration, and counts three. -/
theorem trials_lost : ∃ s, (trialLedger sampleDigests.hash).Reachable s ∧ ∃ r ∈ s.returns,
    r.count < (r.configs.map fun c => c.dumps configStyle).dedup.length ∧
      ∃ c ∈ r.configs,
        (r.userId, r.family, configDigest sampleDigests.hash c) ∉ s.trials.map Trial.key := by
  have hrun : ((trialLedger sampleDigests.hash).exec (trialLedger sampleDigests.hash).init
      sampleSchedule).any (fun s => s.returns.any fun r =>
        decide (r.count < (r.configs.map fun c => c.dumps configStyle).dedup.length) &&
          r.configs.any fun c => decide
            ((r.userId, r.family, configDigest sampleDigests.hash c) ∉
              s.trials.map Trial.key)) = true := by
    decide +kernel
  obtain ⟨s, hs, hlost⟩ := (Option.any_eq_true ..).mp hrun
  obtain ⟨r, hr, hmissing⟩ := List.any_eq_true.mp hlost
  rw [Bool.and_eq_true] at hmissing
  obtain ⟨c, hc, hnot⟩ := List.any_eq_true.mp hmissing.2
  exact ⟨s, Machine.reachable_of_exec hs, r, hr, of_decide_eq_true hmissing.1, c, hc,
    of_decide_eq_true hnot⟩

end QuantumSentinel.Research
