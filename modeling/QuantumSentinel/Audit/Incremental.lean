import QuantumSentinel.Audit.Tamper
import QuantumSentinel.Lib.SortedKeys
import QuantumSentinel.Lib.Transition

/-!
# Overlapping audit checks

The checks of one process as a transition system.  A check reads the verified head under the
lock, makes its queries one after another, walks, and takes the lock again to report.  Between
any two of these steps other checks take theirs, and the database changes in any way: appends
are changes of the database, from this process or another.

A check comes with the links that the head it began with rests on, each as it was read and
with the keys it was checked under.  No step looks at these.

Main results:

- Definition `checkMachine`: the interleaved checks of a process.
- Theorem `Supports.findings_walkFrom`: behind links that are unchanged, a walk finds what the
  walk over all links finds.
- Theorem `incremental_agrees`: an incremental check agrees with a full one, and after a failure
  the next check is a full one.
-/

namespace QuantumSentinel.Audit

open Lib

/-! ## The machine -/

/-- A check, by the order of their beginning. -/
abbrev CheckId := ℕ

/-- A link that has passed, as it was read, and the keys it passed under. -/
structure Evidence where
  row : LinkRow
  ring : Keyring
deriving DecidableEq

/-- Where a check stands. -/
inductive Stage
  | begun
  | counted (links : ℕ)
  | surveyed (links unchained : ℕ)
  | located (links unchained : ℕ) (start : ℤ × String)
  | keyed (links unchained : ℕ) (start : ℤ × String) (keys : List (String × Bytes))
  | walked (links unchained : ℕ) (start : ℤ × String) (seen : List Evidence) (walked : Walked)
  | reported (status : ChainStatus)
  | raised (error : String)
deriving DecidableEq

/-- A check with what it has read of the verified head. -/
structure Check where
  full : Bool
  startedAt : DateTime
  head : Option (ℤ × String)
  generation : ℕ
  /-- what the head it began with rests on -/
  evidence : List Evidence
  stage : Stage
deriving DecidableEq

/-- The system state. -/
structure CheckState where
  db : Database
  /-- `server_identity.dsa_pk` -/
  dsaPk : Option Bytes
  chain : VerifiedChain
  /-- what the verified head rests on -/
  evidence : List Evidence
  checks : Dict CheckId Check

/-- What a check does between its two sections under the lock. -/
inductive Query
  | countLinks
  | countUnchained
  /-- look whether the link of the head still has its hash -/
  | locate
  | readKeys
  /-- read the links in one query and walk over them -/
  | walk
  /-- a query fails -/
  | abort (error : String)

/-- One section under the lock, one query, or a change of the database. -/
inductive CheckAction
  /-- any change of the database and of the key of the process, appends among them -/
  | change (db : Database) (dsaPk : Option Bytes)
  /-- a check takes the head and the generation -/
  | begin (check : CheckId) (full : Bool) (startedAt : DateTime)
  | query (check : CheckId) (query : Query)
  /-- a check updates the head and reports -/
  | finish (check : CheckId)

/-- Whether a check that has walked stores its last link as the head. -/
def VerifiedChain.stores (state : VerifiedChain) (generation : ℕ) (walked : Walked) : Bool :=
  walked.failure.isNone && decide (state.generation = generation) &&
    match walked.last, state.head with
    | none, _ => false
    | some _, none => true
    | some last, some head => decide (head.1 ≤ last.1)

/-- Where a check is after a query. -/
def Check.answer (crypto : Crypto) (serverTz : Option Zone) (db : Database)
    (dsaPk : Option Bytes) (check : Check) : Query → Option Stage
  | .countLinks =>
    match check.stage with
    | .begun => some (.counted db.tables.linkCount)
    | _ => none
  | .countUnchained =>
    match check.stage with
    | .counted links => some (.surveyed links db.tables.unchainedCount)
    | _ => none
  | .locate =>
    match check.stage with
    | .surveyed links unchained =>
      some (.located links unchained (startOf check.full check.head db.tables))
    | _ => none
  | .readKeys =>
    match check.stage with
    | .located links unchained start =>
      match readKeys db.keys with
      | .ok keys => some (.keyed links unchained start keys)
      | .error error => some (.raised error)
    | _ => none
  | .walk =>
    match check.stage with
    | .keyed links unchained start keys =>
      match walkFrom crypto ⟨keys, dsaPk⟩ serverTz start db.tables with
      | .ok walked =>
        some (.walked links unchained start
          ((db.tables.rowsAfter start.1).map fun row => ⟨row, ⟨keys, dsaPk⟩⟩) walked)
      | .error error => some (.raised error)
    | _ => none
  | .abort error =>
    match check.stage with
    | .walked .. | .reported _ | .raised _ => none
    | _ => some (.raised error)

namespace CheckState

variable (s : CheckState)

/-- A check goes on. -/
def restage (c : CheckId) (check : Check) (stage : Stage) : CheckState :=
  { s with checks := s.checks.set c { check with stage := stage } }

/-- The section a check begins with. -/
def begin (c : CheckId) (full : Bool) (startedAt : DateTime) : CheckState :=
  { s with
    checks := s.checks.set c
      ⟨full, startedAt, s.chain.head, s.chain.generation, s.evidence, .begun⟩ }

/-- The section that ends a check. -/
def finish (c : CheckId) (check : Check) (links unchained : ℕ) (start : ℤ × String)
    (seen : List Evidence) (walked : Walked) : CheckState :=
  let chain := s.chain.finish check.generation check.startedAt (modeOf start.1) walked
  { s.restage c check (.reported (chainStatus start.1 links unchained walked chain)) with
    chain := chain
    evidence :=
      if s.chain.stores check.generation walked = true then
        (if start.1 = 0 then [] else check.evidence) ++ seen
      else s.evidence }

/-- One step. -/
def step (crypto : Crypto) (serverTz : Option Zone) (s : CheckState) :
    CheckAction → Option CheckState
  | .change db dsaPk => some { s with db := db, dsaPk := dsaPk }
  | .begin c full startedAt =>
    if c ∈ s.checks.keys then none else some (s.begin c full startedAt)
  | .query c query =>
    match s.checks.get? c with
    | some check =>
      (check.answer crypto serverTz s.db s.dsaPk query).map fun stage =>
        s.restage c check stage
    | none => none
  | .finish c =>
    match s.checks.get? c with
    | some check =>
      match check.stage with
      | .walked links unchained start seen walked =>
        some (s.finish c check links unchained start seen walked)
      | _ => none
    | none => none

end CheckState

/-- The checks of a process, from its start. -/
def checkMachine (crypto : Crypto) (serverTz : Option Zone) (db : Database)
    (dsaPk : Option Bytes) : Machine CheckState CheckAction where
  init := ⟨db, dsaPk, ⟨none, none, 0⟩, [], Dict.empty⟩
  step := CheckState.step crypto serverTz

/-! ## What a step does -/

section Steps

variable {crypto : Crypto} {serverTz : Option Zone} {s s' : CheckState}

/-- What a query comes to. -/
theorem Check.answer_cases {check : Check} {db : Database} {dsaPk : Option Bytes} {query : Query}
    {stage : Stage} (h : check.answer crypto serverTz db dsaPk query = some stage) :
    (∃ links, stage = .counted links) ∨ (∃ links unchained, stage = .surveyed links unchained) ∨
    (∃ error, stage = .raised error) ∨
    (∃ links unchained,
      stage = .located links unchained (startOf check.full check.head db.tables)) ∨
    (∃ links unchained start keys, check.stage = .located links unchained start ∧
      stage = .keyed links unchained start keys) ∨
    ∃ links unchained start keys walked, check.stage = .keyed links unchained start keys ∧
      walkFrom crypto ⟨keys, dsaPk⟩ serverTz start db.tables = .ok walked ∧
      stage = .walked links unchained start
        ((db.tables.rowsAfter start.1).map fun row => ⟨row, ⟨keys, dsaPk⟩⟩) walked := by
  unfold Check.answer at h
  split at h
  case h_1 =>
    split at h
    · exact Or.inl ⟨_, (Option.some.inj h).symm⟩
    · cases h
  case h_2 =>
    split at h
    · exact Or.inr (Or.inl ⟨_, _, (Option.some.inj h).symm⟩)
    · cases h
  case h_3 =>
    split at h
    · exact Or.inr (Or.inr (Or.inr (Or.inl ⟨_, _, (Option.some.inj h).symm⟩)))
    · cases h
  case h_4 =>
    split at h
    · rename_i hstage
      split at h
      · exact Or.inr (Or.inr (Or.inr (Or.inr (Or.inl
          ⟨_, _, _, _, hstage, (Option.some.inj h).symm⟩))))
      · exact Or.inr (Or.inr (Or.inl ⟨_, (Option.some.inj h).symm⟩))
    · cases h
  case h_5 =>
    split at h
    · rename_i hstage
      split at h
      · rename_i hwalk
        exact Or.inr (Or.inr (Or.inr (Or.inr (Or.inr
          ⟨_, _, _, _, _, hstage, hwalk, (Option.some.inj h).symm⟩))))
      · exact Or.inr (Or.inr (Or.inl ⟨_, (Option.some.inj h).symm⟩))
    · cases h
  case h_6 =>
    split at h
    · cases h
    · cases h
    · cases h
    · exact Or.inr (Or.inr (Or.inl ⟨_, (Option.some.inj h).symm⟩))

/-- What a step does. -/
theorem CheckState.step_cases {a : CheckAction} (h : s.step crypto serverTz a = some s') :
    (∃ db dsaPk, a = .change db dsaPk ∧ s' = { s with db := db, dsaPk := dsaPk }) ∨
    (∃ c full startedAt, a = .begin c full startedAt ∧ c ∉ s.checks.keys ∧
      s' = s.begin c full startedAt) ∨
    (∃ c query check stage, a = .query c query ∧ s.checks.get? c = some check ∧
      check.answer crypto serverTz s.db s.dsaPk query = some stage ∧
        s' = s.restage c check stage) ∨
    (∃ c check links unchained start seen walked, a = .finish c ∧
      s.checks.get? c = some check ∧
      check.stage = .walked links unchained start seen walked ∧
        s' = s.finish c check links unchained start seen walked) := by
  cases a with
  | change db dsaPk => exact Or.inl ⟨db, dsaPk, rfl, (Option.some.inj h).symm⟩
  | begin c full startedAt =>
    rw [CheckState.step] at h
    split at h
    · cases h
    · rename_i hfresh
      exact Or.inr (Or.inl ⟨c, full, startedAt, rfl, hfresh, (Option.some.inj h).symm⟩)
  | query c query =>
    rw [CheckState.step] at h
    split at h
    · rename_i check hcheck
      rcases Option.map_eq_some_iff.mp h with ⟨stage, hanswer, hs'⟩
      exact Or.inr (Or.inr (Or.inl
        ⟨c, query, check, stage, rfl, hcheck, hanswer, hs'.symm⟩))
    · cases h
  | finish c =>
    rw [CheckState.step] at h
    split at h
    · rename_i check hcheck
      split at h
      · rename_i links unchained start seen walked hstage
        exact Or.inr (Or.inr (Or.inr ⟨c, check, links, unchained, start, seen, walked, rfl,
          hcheck, hstage, (Option.some.inj h).symm⟩))
      · cases h
    · cases h

end Steps

section Heads

variable (state : VerifiedChain) (generation : ℕ) (startedAt : DateTime) (mode : Mode)
  (walked : Walked)

/-- The head after a check. -/
theorem VerifiedChain.head_finish :
    (state.finish generation startedAt mode walked).head =
      if walked.failure.isSome then none
      else if state.stores generation walked then walked.last else state.head := by
  rcases walked with ⟨failure, last⟩
  cases failure with
  | some failure => rfl
  | none =>
    simp only [VerifiedChain.finish, VerifiedChain.stores, Option.isSome_none, Option.isNone_none,
      Bool.false_eq_true, if_false, Bool.true_and]
    by_cases hgeneration : state.generation = generation
    · simp only [hgeneration, if_true, decide_true, Bool.true_and]
      cases last with
      | none => rfl
      | some last =>
        cases state.head with
        | none => rfl
        | some head => simp only [decide_eq_true_eq]
    · simp only [hgeneration, if_false, decide_false, Bool.false_and, Bool.false_eq_true]

theorem VerifiedChain.generation_finish :
    (state.finish generation startedAt mode walked).generation =
      if walked.failure.isSome then state.generation + 1 else state.generation := by
  unfold VerifiedChain.finish
  split
  · rfl
  · split
    · rfl
    · rfl

/-- The generation never goes back. -/
theorem VerifiedChain.generation_le_finish :
    state.generation ≤ (state.finish generation startedAt mode walked).generation := by
  rw [VerifiedChain.generation_finish]
  split
  · exact Nat.le_succ _
  · exact le_rfl

variable {state generation walked}

theorem VerifiedChain.stores_iff : state.stores generation walked = true ↔
    walked.failure = none ∧ state.generation = generation ∧
      ∃ last, walked.last = some last ∧ ∀ head ∈ state.head, head.1 ≤ last.1 := by
  rw [VerifiedChain.stores, Bool.and_eq_true, Bool.and_eq_true, Option.isNone_iff_eq_none,
    decide_eq_true_iff, and_assoc]
  apply and_congr_right
  intro _
  apply and_congr_right
  intro _
  cases walked.last with
  | none => simp
  | some last =>
    cases state.head with
    | none => simp
    | some head => simp

end Heads

/-! ## What a head rests on -/

/-- Links that have passed one after another, each under its own keys. -/
inductive Verified (crypto : Crypto) (serverTz : Option Zone) :
    String → List Evidence → String → Prop
  | nil (hash : String) : Verified crypto serverTz hash [] hash
  | cons {hash hash' : String} {e : Evidence} {rest : List Evidence}
      (first : linkFailure crypto e.ring serverTz hash e.row = .ok none)
      (more : Verified crypto serverTz e.row.link.entryHash rest hash') :
      Verified crypto serverTz hash (e :: rest) hash'

/-- The links a head rests on: they have passed, and the head has the hash behind them. -/
structure Supports (crypto : Crypto) (serverTz : Option Zone) (evidence : List Evidence)
    (head : ℤ × String) : Prop where
  verified : Verified crypto serverTz genesisHash evidence head.2
  positive : 0 < head.1

/-- A check starts at the beginning, or with its head when it is no full one. -/
def Check.Starts (check : Check) (start : ℤ × String) : Prop :=
  start = (0, genesisHash) ∨ check.full = false ∧ check.head = some start

/-- What a check that has walked without a failure has seen. -/
def Seen (crypto : Crypto) (serverTz : Option Zone) (start : ℤ × String) (seen : List Evidence)
    (walked : Walked) : Prop :=
  walked.failure = none → ∀ last ∈ walked.last,
    start.1 < last.1 ∧ Verified crypto serverTz start.2 seen last.2

/-- What a stage says about its check. -/
def Check.Stands (crypto : Crypto) (serverTz : Option Zone) (check : Check) : Stage → Prop
  | .located _ _ start => check.Starts start
  | .keyed _ _ start _ => check.Starts start
  | .walked _ _ start seen walked => check.Starts start ∧ Seen crypto serverTz start seen walked
  | _ => True

/-- What holds of a check in progress. -/
structure Check.Ok (crypto : Crypto) (serverTz : Option Zone) (generation : ℕ)
    (check : Check) : Prop where
  generation : check.generation ≤ generation
  supported : ∀ head ∈ check.head, Supports crypto serverTz check.evidence head
  stands : check.Stands crypto serverTz check.stage

/-- What holds in every state. -/
structure CheckState.Ok (crypto : Crypto) (serverTz : Option Zone) (s : CheckState) : Prop where
  supported : ∀ head ∈ s.chain.head, Supports crypto serverTz s.evidence head
  checks : ∀ c check, s.checks.get? c = some check →
    check.Ok crypto serverTz s.chain.generation

section Support

variable {crypto : Crypto} {serverTz : Option Zone}

theorem Verified.append {hash hash' hash'' : String} {before after : List Evidence}
    (h : Verified crypto serverTz hash before hash')
    (h' : Verified crypto serverTz hash' after hash'') :
    Verified crypto serverTz hash (before ++ after) hash'' := by
  induction h with
  | nil => exact h'
  | cons hfirst _ ih => exact .cons hfirst (ih h')

/-- Links that pass under one keyring. -/
theorem Passes.verified {ring : Keyring} {hash hash' : String} {rows : List LinkRow}
    (h : Passes (linkFailure crypto ring serverTz) hash rows hash') :
    Verified crypto serverTz hash (rows.map fun row => ⟨row, ring⟩) hash' := by
  induction h with
  | nil => exact .nil _
  | cons hfirst _ ih => exact .cons hfirst ih

/-- A link asks a keyring for one key only. -/
theorem linkFailure_congr {ring ring' : Keyring} {row : LinkRow}
    (h : ring.verificationKey row.link.signingKeyId =
      ring'.verificationKey row.link.signingKeyId) (hash : String) :
    linkFailure crypto ring serverTz hash row = linkFailure crypto ring' serverTz hash row := by
  unfold linkFailure
  rw [h]

/-- Links that have passed pass again while their keys are the same. -/
theorem Verified.passes {ring : Keyring} {hash hash' : String} {evidence : List Evidence}
    (h : Verified crypto serverTz hash evidence hash')
    (hkeys : ∀ e ∈ evidence, ring.verificationKey e.row.link.signingKeyId =
      e.ring.verificationKey e.row.link.signingKeyId) :
    Passes (linkFailure crypto ring serverTz) hash (evidence.map Evidence.row) hash' := by
  induction h with
  | nil => exact .nil _
  | cons hfirst _ ih =>
    rename_i e rest _
    have hkey := hkeys e (List.mem_cons_self ..)
    refine .cons ?_ (ih fun e' he' => hkeys e' (List.mem_cons_of_mem e he'))
    rw [linkFailure_congr hkey]
    exact hfirst

/-- The hash behind links that pass is the one of the last link. -/
theorem Passes.hash_eq {check : String → LinkRow → Except String (Option LinkFailure)}
    {hash hash' : String} {rows : List LinkRow} (h : Passes check hash rows hash')
    {last' last : ℤ × String} (hlast : lastSeen (some last') rows = some last)
    (hhash : last'.2 = hash) :
    hash' = last.2 ∧ (last = last' ∨ ∃ row ∈ rows, row.link.sequence = last.1) := by
  induction h generalizing last' with
  | nil =>
    cases hlast
    exact ⟨hhash.symm, Or.inl rfl⟩
  | cons _ _ ih =>
    rename_i row rest _ _
    rcases ih hlast rfl with ⟨hsame, hwhich⟩
    refine ⟨hsame, Or.inr ?_⟩
    rcases hwhich with rfl | ⟨row', hrow', hsequence⟩
    · exact ⟨row, List.mem_cons_self .., rfl⟩
    · exact ⟨row', List.mem_cons_of_mem row hrow', hsequence⟩

/-- What a walk without a failure has seen. -/
theorem seen_of_walkFrom {ring : Keyring} {start : ℤ × String} {t : Tables} {walked : Walked}
    (h : walkFrom crypto ring serverTz start t = .ok walked) :
    Seen crypto serverTz start ((t.rowsAfter start.1).map fun row => ⟨row, ring⟩) walked := by
  rcases walked with ⟨failure, last⟩
  intro hnone last' hlast'
  have hfailure : failure = none := hnone
  subst hfailure
  rcases walk_eq_ok_none h with ⟨⟨hash, hpasses⟩, hlast⟩
  have hsome : lastSeen none (t.rowsAfter start.1) = some last' :=
    hlast.symm.trans (Option.mem_def.mp hlast')
  cases hrows : t.rowsAfter start.1 with
  | nil =>
    rw [hrows] at hsome
    cases hsome
  | cons row rest =>
    rw [hrows] at hsome hpasses
    have hall : ∀ row' ∈ row :: rest, start.1 < row'.link.sequence := by
      intro row' hrow'
      rw [← hrows] at hrow'
      exact (mem_rowsAfter hrow').2.1
    cases hpasses with
    | cons hfirst hmore =>
      rcases hmore.hash_eq hsome rfl with ⟨rfl, hwhich⟩
      refine ⟨?_, (Passes.cons hfirst hmore).verified⟩
      rcases hwhich with rfl | ⟨row', hrow', hsequence⟩
      · exact hall row (List.mem_cons_self ..)
      · rw [← hsequence]
        exact hall row' (List.mem_cons_of_mem row hrow')

/-- Where a check starts. -/
theorem startOf_cases (full : Bool) (head : Option (ℤ × String)) (t : Tables) :
    startOf full head t = (0, genesisHash) ∨
      full = false ∧ head = some (startOf full head t) := by
  unfold startOf
  cases head with
  | none => exact Or.inl rfl
  | some head =>
    split
    · exact Or.inl rfl
    · rename_i sequence hash hhead
      cases hhead
      split
      · rename_i hsame
        exact Or.inr ⟨hsame.1, rfl⟩
      · exact Or.inl rfl

end Support

/-! ## Invariant -/

section Invariant

variable {crypto : Crypto} {serverTz : Option Zone} {s s' : CheckState}

/-- A query leaves the check standing. -/
theorem Check.Stands.answer {check : Check} (h : check.Stands crypto serverTz check.stage)
    {db : Database} {dsaPk : Option Bytes} {query : Query} {stage : Stage}
    (hanswer : check.answer crypto serverTz db dsaPk query = some stage) :
    check.Stands crypto serverTz stage := by
  rcases Check.answer_cases hanswer with ⟨links, rfl⟩ | ⟨links, unchained, rfl⟩ | ⟨error, rfl⟩ |
    ⟨links, unchained, rfl⟩ | ⟨links, unchained, start, keys, hstage, rfl⟩ |
    ⟨links, unchained, start, keys, walked, hstage, hwalk, rfl⟩
  · trivial
  · trivial
  · trivial
  · exact startOf_cases check.full check.head db.tables
  · rw [hstage] at h
    exact h
  · rw [hstage] at h
    exact ⟨h, seen_of_walkFrom hwalk⟩

/-- A check keeps its place while the generation goes on. -/
theorem Check.Ok.mono {check : Check} {generation generation' : ℕ}
    (h : check.Ok crypto serverTz generation) (hle : generation ≤ generation') :
    check.Ok crypto serverTz generation' :=
  ⟨h.generation.trans hle, h.supported, h.stands⟩

/-- Where a check that has walked ends, its head rests on links that have passed. -/
theorem Check.Ok.supports_last {check : Check} {generation links unchained : ℕ}
    {start last : ℤ × String} {seen : List Evidence} {walked : Walked}
    (h : check.Ok crypto serverTz generation)
    (hstage : check.stage = .walked links unchained start seen walked)
    (hnone : walked.failure = none) (hlast : walked.last = some last) :
    Supports crypto serverTz ((if start.1 = 0 then [] else check.evidence) ++ seen) last := by
  have hstands := h.stands
  rw [hstage] at hstands
  rcases hstands with ⟨hstart, hseen⟩
  rcases hseen hnone last hlast with ⟨hlt, hverified⟩
  rcases hstart with rfl | ⟨-, hhead⟩
  · exact ⟨hverified, hlt⟩
  · have hsupports := h.supported start hhead
    rw [if_neg hsupports.positive.ne']
    exact ⟨hsupports.verified.append hverified, hsupports.positive.trans hlt⟩

theorem CheckState.Ok.restage (h : s.Ok crypto serverTz) {c : CheckId} {check : Check}
    (hcheck : s.checks.get? c = some check) (stage : Stage)
    (hstands : check.Stands crypto serverTz stage) :
    (s.restage c check stage).Ok crypto serverTz := by
  constructor
  case supported => exact h.supported
  case checks =>
    intro c' check' hcheck'
    rw [CheckState.restage, Dict.get?_set] at hcheck'
    split at hcheck'
    · cases hcheck'
      have hok := h.checks c check hcheck
      exact ⟨hok.generation, hok.supported, hstands⟩
    · exact h.checks c' check' hcheck'

theorem CheckState.Ok.finish (h : s.Ok crypto serverTz) {c : CheckId} {check : Check}
    (hcheck : s.checks.get? c = some check) {links unchained : ℕ} {start : ℤ × String}
    {seen : List Evidence} {walked : Walked}
    (hstage : check.stage = .walked links unchained start seen walked) :
    (s.finish c check links unchained start seen walked).Ok crypto serverTz := by
  constructor
  case supported =>
    intro head hhead
    simp only [CheckState.finish, VerifiedChain.head_finish] at hhead ⊢
    split at hhead
    · cases hhead
    · split at hhead
      · rename_i hstores
        rw [if_pos hstores]
        rcases VerifiedChain.stores_iff.mp hstores with ⟨hnone, -, -⟩
        exact (h.checks c check hcheck).supports_last hstage hnone hhead
      · rename_i hstores
        rw [if_neg hstores]
        exact h.supported head hhead
  case checks =>
    intro c' check' hcheck'
    have hle : s.chain.generation ≤ (s.finish c check links unchained start seen
        walked).chain.generation := VerifiedChain.generation_le_finish ..
    have hok := (h.restage hcheck (.reported (chainStatus start.1 links unchained walked
      (s.chain.finish check.generation check.startedAt (modeOf start.1) walked)))
      trivial).checks c' check' hcheck'
    exact hok.mono hle

/-- Every step keeps the invariant. -/
theorem CheckState.Ok.step {a : CheckAction} (hstep : s.step crypto serverTz a = some s')
    (h : s.Ok crypto serverTz) : s'.Ok crypto serverTz := by
  rcases CheckState.step_cases hstep with ⟨db, dsaPk, -, rfl⟩ |
    ⟨c, full, startedAt, -, -, rfl⟩ | ⟨c, query, check, stage, -, hcheck, hanswer, rfl⟩ |
    ⟨c, check, links, unchained, start, seen, walked, -, hcheck, hstage, rfl⟩
  · exact ⟨h.supported, h.checks⟩
  · constructor
    case supported => exact h.supported
    case checks =>
      intro c' check' hcheck'
      rw [CheckState.begin, Dict.get?_set] at hcheck'
      split at hcheck'
      · cases hcheck'
        exact ⟨le_rfl, h.supported, trivial⟩
      · exact h.checks c' check' hcheck'
  · exact h.restage hcheck stage ((h.checks c check hcheck).stands.answer hanswer)
  · exact h.finish hcheck hstage

/-- The invariant holds in every reachable state. -/
theorem CheckState.ok_of_reachable {db : Database} {dsaPk : Option Bytes}
    (hs : (checkMachine crypto serverTz db dsaPk).Reachable s) : s.Ok crypto serverTz := by
  apply Machine.Reachable.invariant _ _ hs
  · constructor
    case supported => exact fun head hhead => by cases hhead
    case checks =>
      intro c check hcheck
      cases hcheck
  · exact fun s a s' hstep h => h.step hstep

end Invariant

/-! ## Agreement -/

/-- The links up to a head and their events are as they were read, and so are their keys. -/
structure Unchanged (evidence : List Evidence) (head : ℤ × String) (ring : Keyring)
    (t : Tables) : Prop where
  rows : ((t.rowsAfter 0).filter fun row => row.link.sequence ≤ head.1) =
    evidence.map Evidence.row
  keys : ∀ e ∈ evidence, ring.verificationKey e.row.link.signingKeyId =
    e.ring.verificationKey e.row.link.signingKeyId

/-- What two checks can agree on. -/
structure Findings where
  valid : Bool
  firstInvalidSequence : Option ℤ
  reason : Option String
deriving DecidableEq

/-- What a walk found. -/
def Walked.findings (walked : Walked) : Findings where
  valid := walked.failure.isNone
  firstInvalidSequence := walked.failure.map Prod.fst
  reason := walked.failure.map fun failure => failure.2.reason

/-- What a check reports of it. -/
def ChainStatus.findings (status : ChainStatus) : Findings where
  valid := status.valid
  firstInvalidSequence := status.firstInvalidSequence
  reason := status.reason

/-- What a check that has walked comes to: its findings or its exception. -/
def Stage.result : Stage → Option (Except String Findings)
  | .walked _ _ _ _ outcome => some (.ok outcome.findings)
  | .reported status => some (.ok status.findings)
  | .raised error => some (.error error)
  | _ => none

section Agreement

variable {crypto : Crypto} {serverTz : Option Zone}

/-- The links the walk visits are those up to a positive number and those behind it. -/
theorem rowsAfter_split (t : Tables) {bound : ℤ} (hbound : 0 ≤ bound) :
    ((t.rowsAfter 0).filter fun row => row.link.sequence ≤ bound) ++ t.rowsAfter bound =
      t.rowsAfter 0 := by
  have hlater : ((t.links.filter fun link => 0 < link.sequence).filter
      fun link => bound < link.sequence) = t.links.filter fun link => bound < link.sequence := by
    rw [List.filter_filter]
    apply List.filter_congr
    intro link _
    rw [← Bool.decide_and, decide_eq_decide]
    exact ⟨fun h => h.1, fun h => ⟨h, hbound.trans_lt h⟩⟩
  have hsplit := insertionSort_split AuditChainLink.sequence bound
    (t.links.filter fun link => 0 < link.sequence)
  rw [hlater] at hsplit
  rw [Tables.rowsAfter, Tables.rowsAfter, List.filter_map, ← List.map_append]
  exact congrArg _ hsplit

/-- Behind links that are unchanged a walk finds what the walk over all links finds. -/
theorem Supports.findings_walkFrom {evidence : List Evidence} {head : ℤ × String}
    (h : Supports crypto serverTz evidence head) {ring : Keyring} {t : Tables}
    (hsame : Unchanged evidence head ring t) :
    (walkFrom crypto ring serverTz head t).map Walked.findings =
      (walkFrom crypto ring serverTz (0, genesisHash) t).map Walked.findings := by
  have hpasses := h.verified.passes hsame.keys
  have hall : walkFrom crypto ring serverTz (0, genesisHash) t =
      walk (linkFailure crypto ring serverTz) head.2
        (lastSeen none (evidence.map Evidence.row)) (t.rowsAfter head.1) := by
    rw [walkFrom, ← rowsAfter_split t h.positive.le, hsame.rows]
    exact walk_append hpasses none _
  have hfailure : (walk (linkFailure crypto ring serverTz) head.2 none
      (t.rowsAfter head.1)).map Walked.failure =
        (walk (linkFailure crypto ring serverTz) head.2
          (lastSeen none (evidence.map Evidence.row)) (t.rowsAfter head.1)).map Walked.failure :=
    walk_failure ..
  -- the findings are a function of the failure
  let of : Option (ℤ × LinkFailure) → Findings := fun failure =>
    ⟨failure.isNone, failure.map Prod.fst, failure.map fun f => f.2.reason⟩
  have hof : ∀ outcome : Except String Walked,
      outcome.map Walked.findings = (outcome.map Walked.failure).map of := by
    intro outcome
    cases outcome with
    | error e => rfl
    | ok walked => rfl
  rw [hall, hof, hof, walkFrom, hfailure]

/-- A result stays. -/
theorem Stage.result_step {s s' : CheckState} {a : CheckAction}
    (hstep : s.step crypto serverTz a = some s') {c : CheckId} {r : Except String Findings}
    (h : ∃ check, s.checks.get? c = some check ∧ check.stage.result = some r) :
    ∃ check, s'.checks.get? c = some check ∧ check.stage.result = some r := by
  rcases h with ⟨check, hcheck, hresult⟩
  rcases CheckState.step_cases hstep with ⟨db, dsaPk, -, rfl⟩ |
    ⟨c', full, startedAt, -, hfresh, rfl⟩ |
    ⟨c', query, check', stage, -, hcheck', hanswer, rfl⟩ |
    ⟨c', check', links, unchained, start, seen, walked, -, hcheck', hstage, rfl⟩
  · exact ⟨check, hcheck, hresult⟩
  · have hne : c ≠ c' := by
      rintro rfl
      rw [Dict.get?_eq_none_iff.mpr hfresh] at hcheck
      cases hcheck
    refine ⟨check, ?_, hresult⟩
    rw [CheckState.begin, Dict.get?_set, if_neg hne]
    exact hcheck
  · by_cases hsame : c = c'
    · -- no query is left to a check with a result
      subst hsame
      rw [hcheck] at hcheck'
      cases hcheck'
      rcases check with ⟨full, startedAt, head, generation, evidence, current⟩
      cases current with
      | walked => cases query <;> cases hanswer
      | reported => cases query <;> cases hanswer
      | raised => cases query <;> cases hanswer
      | begun => cases hresult
      | counted => cases hresult
      | surveyed => cases hresult
      | located => cases hresult
      | keyed => cases hresult
    · refine ⟨check, ?_, hresult⟩
      rw [CheckState.restage, Dict.get?_set, if_neg hsame]
      exact hcheck
  · by_cases hsame : c = c'
    · subst hsame
      rw [hcheck] at hcheck'
      cases hcheck'
      refine ⟨_, Dict.get?_set_self _ _ _, ?_⟩
      rw [hstage] at hresult
      exact hresult
    · refine ⟨check, ?_, hresult⟩
      rw [CheckState.finish, CheckState.restage, Dict.get?_set, if_neg hsame]
      exact hcheck

theorem Stage.result_run {db : Database} {dsaPk : Option Bytes} {s s' : CheckState}
    {as : List CheckAction}
    (hrun : (checkMachine crypto serverTz db dsaPk).Run Machine.anyAction s as s') {c : CheckId}
    {r : Except String Findings}
    (h : ∃ check, s.checks.get? c = some check ∧ check.stage.result = some r) :
    ∃ check, s'.checks.get? c = some check ∧ check.stage.result = some r := by
  let Comes : CheckState → Prop := fun s =>
    ∃ check, s.checks.get? c = some check ∧ check.stage.result = some r
  have hcomes : ∀ s a s', Machine.anyAction s a →
      (checkMachine crypto serverTz db dsaPk).step s a = some s' → Comes s → Comes s' := by
    intro s a s' _ hstep hresult
    exact Stage.result_step hstep hresult
  exact hrun.invariant hcomes h

/-- What a check comes to with its walk. -/
theorem result_walk {s s' : CheckState} {c : CheckId} {check : Check} {links unchained : ℕ}
    {start : ℤ × String} {keys : List (String × Bytes)} (hcheck : s.checks.get? c = some check)
    (hstage : check.stage = .keyed links unchained start keys)
    (hstep : s.step crypto serverTz (.query c .walk) = some s') :
    ∃ check', s'.checks.get? c = some check' ∧ check'.stage.result =
      some ((walkFrom crypto ⟨keys, s.dsaPk⟩ serverTz start s.db.tables).map
        Walked.findings) := by
  simp only [CheckState.step, hcheck, Check.answer, hstage] at hstep
  cases hwalk : walkFrom crypto ⟨keys, s.dsaPk⟩ serverTz start s.db.tables with
  | ok walked =>
    rw [hwalk] at hstep
    cases hstep
    exact ⟨_, Dict.get?_set_self _ _ _, rfl⟩
  | error e =>
    rw [hwalk] at hstep
    cases hstep
    exact ⟨_, Dict.get?_set_self _ _ _, rfl⟩

end Agreement

/-! ## After a failure -/

/-- Checks that began before the generation went on. -/
structure Outdated (ids : List CheckId) (generation : ℕ) (s : CheckState) : Prop where
  current : generation ≤ s.chain.generation
  older : ∀ c ∈ ids, ∃ check, s.checks.get? c = some check ∧ check.generation < generation

/-- A check that goes over the whole chain. -/
def Stage.FromStart : Stage → Prop
  | .located _ _ start => start = (0, genesisHash)
  | .keyed _ _ start _ => start = (0, genesisHash)
  | .walked _ _ start _ _ => start = (0, genesisHash)
  | .reported status => status.mode = .full ∧ status.verifiedFromSequence = 1
  | _ => True

/-- A check that began without a head. -/
def CheckState.Whole (c : CheckId) (s : CheckState) : Prop :=
  ∃ check, s.checks.get? c = some check ∧ check.head = none ∧ check.stage.FromStart

/-- Only these checks end. -/
def EndsOnly (ids : List CheckId) (_ : CheckState) (a : CheckAction) : Prop :=
  ∀ c, a = .finish c → c ∈ ids

section Failures

variable {crypto : Crypto} {serverTz : Option Zone} {s s' : CheckState} {ids : List CheckId}
  {generation : ℕ}

/-- A check keeps the generation it began with. -/
theorem Outdated.step {a : CheckAction} (hstep : s.step crypto serverTz a = some s')
    (h : Outdated ids generation s) : Outdated ids generation s' := by
  have hset : ∀ (c : CheckId) (check : Check), (∀ old, s.checks.get? c = some old →
      check.generation = old.generation) → ∀ c' ∈ ids, ∃ check', (s.checks.set c check).get? c' =
        some check' ∧ check'.generation < generation := by
    intro c check hsame c' hc'
    rcases h.older c' hc' with ⟨old, hold, hlt⟩
    rw [Dict.get?_set]
    split
    · rename_i heq
      subst heq
      exact ⟨check, rfl, (hsame old hold).trans_lt hlt⟩
    · exact ⟨old, hold, hlt⟩
  rcases CheckState.step_cases hstep with ⟨db, dsaPk, -, rfl⟩ |
    ⟨c, full, startedAt, -, hfresh, rfl⟩ | ⟨c, query, check, stage, -, hcheck, hanswer, rfl⟩ |
    ⟨c, check, links, unchained, start, seen, walked, -, hcheck, hstage, rfl⟩
  · exact ⟨h.current, h.older⟩
  · refine ⟨h.current, hset c _ ?_⟩
    intro old hold
    rw [Dict.get?_eq_none_iff.mpr hfresh] at hold
    cases hold
  · refine ⟨h.current, hset c _ ?_⟩
    intro old hold
    rw [hcheck] at hold
    cases hold
    rfl
  · refine ⟨h.current.trans (VerifiedChain.generation_le_finish ..), hset c _ ?_⟩
    intro old hold
    rw [hcheck] at hold
    cases hold
    rfl

/-- An outdated check stores no head. -/
theorem Outdated.head_finish (h : Outdated ids generation s) {c : CheckId} (hc : c ∈ ids)
    (hstep : s.step crypto serverTz (.finish c) = some s') :
    s'.chain.head = s.chain.head ∨ s'.chain.head = none := by
  rcases h.older c hc with ⟨old, hold, hlt⟩
  rcases CheckState.step_cases hstep with ⟨db, dsaPk, heq, -⟩ | ⟨c', full, startedAt, heq, -⟩ |
    ⟨c', query, check, stage, heq, -⟩ |
    ⟨c', check, links, unchained, start, seen, walked, heq, hcheck, hstage, rfl⟩
  · cases heq
  · cases heq
  · cases heq
  · cases heq
    rw [hold] at hcheck
    cases hcheck
    have hnot : ¬s.chain.stores old.generation walked = true := by
      intro hstores
      rcases VerifiedChain.stores_iff.mp hstores with ⟨-, hsame, -⟩
      have hcurrent := h.current
      omega
    simp only [CheckState.finish, VerifiedChain.head_finish, if_neg hnot]
    split
    · exact Or.inr rfl
    · exact Or.inl rfl

/-- While only outdated checks end, there is no head. -/
theorem Outdated.head_step {a : CheckAction} (h : Outdated ids generation s)
    (hends : EndsOnly ids s a) (hnone : s.chain.head = none)
    (hstep : s.step crypto serverTz a = some s') : s'.chain.head = none := by
  cases a with
  | change db dsaPk =>
    cases hstep
    exact hnone
  | begin c full startedAt =>
    rw [CheckState.step] at hstep
    split at hstep
    · cases hstep
    · cases hstep
      exact hnone
  | query c query =>
    rcases CheckState.step_cases hstep with ⟨db, dsaPk, heq, -⟩ |
      ⟨c', full, startedAt, heq, -⟩ | ⟨c', query', check, stage, -, -, -, rfl⟩ |
      ⟨c', check, links, unchained, start, seen, walked, heq, -⟩
    · cases heq
    · cases heq
    · exact hnone
    · cases heq
  | finish c =>
    rcases h.head_finish (hends c rfl) hstep with hsame | hdropped
    · exact hsame.trans hnone
    · exact hdropped

/-- A query of a check without a head. -/
theorem Stage.FromStart.answer {check : Check} (hhead : check.head = none)
    (h : check.stage.FromStart) {db : Database} {dsaPk : Option Bytes} {query : Query}
    {stage : Stage} (hanswer : check.answer crypto serverTz db dsaPk query = some stage) :
    stage.FromStart := by
  rcases Check.answer_cases hanswer with ⟨links, rfl⟩ | ⟨links, unchained, rfl⟩ | ⟨error, rfl⟩ |
    ⟨links, unchained, rfl⟩ | ⟨links, unchained, start, keys, hstage, rfl⟩ |
    ⟨links, unchained, start, keys, walked, hstage, -, rfl⟩
  · trivial
  · trivial
  · trivial
  · rw [hhead]
    exact rfl
  · rw [hstage] at h
    exact h
  · rw [hstage] at h
    exact h

/-- A check without a head goes over the whole chain. -/
theorem CheckState.Whole.step {c : CheckId} {a : CheckAction}
    (hstep : s.step crypto serverTz a = some s') (h : s.Whole c) : s'.Whole c := by
  rcases h with ⟨check, hcheck, hhead, hfrom⟩
  have hset : ∀ (c' : CheckId) (check' : Check),
      (c = c' → check'.head = none ∧ check'.stage.FromStart) →
        ∃ check'', (s.checks.set c' check').get? c = some check'' ∧ check''.head = none ∧
          check''.stage.FromStart := by
    intro c' check' hsame
    rw [Dict.get?_set]
    split
    · rename_i heq
      exact ⟨check', rfl, hsame heq⟩
    · exact ⟨check, hcheck, hhead, hfrom⟩
  rcases CheckState.step_cases hstep with ⟨db, dsaPk, -, rfl⟩ |
    ⟨c', full, startedAt, -, hfresh, rfl⟩ |
    ⟨c', query, check', stage, -, hcheck', hanswer, rfl⟩ |
    ⟨c', check', links, unchained, start, seen, walked, -, hcheck', hstage, rfl⟩
  · exact ⟨check, hcheck, hhead, hfrom⟩
  · refine hset c' _ ?_
    rintro rfl
    rw [Dict.get?_eq_none_iff.mpr hfresh] at hcheck
    cases hcheck
  · refine hset c' _ ?_
    rintro rfl
    rw [hcheck] at hcheck'
    cases hcheck'
    exact ⟨hhead, hfrom.answer hhead hanswer⟩
  · refine hset c' _ ?_
    rintro rfl
    rw [hcheck] at hcheck'
    cases hcheck'
    rw [hstage] at hfrom
    have hstart : start = (0, genesisHash) := hfrom
    subst hstart
    exact ⟨hhead, rfl, rfl⟩

/-- What a check begun without a head reports. -/
theorem CheckState.Whole.run {db : Database} {dsaPk : Option Bytes} {c : CheckId}
    {as : List CheckAction}
    (hrun : (checkMachine crypto serverTz db dsaPk).Run Machine.anyAction s as s')
    (h : s.Whole c) : s'.Whole c := by
  have hwhole : ∀ s a s', Machine.anyAction s a →
      (checkMachine crypto serverTz db dsaPk).step s a = some s' →
        CheckState.Whole c s → CheckState.Whole c s' := by
    intro s a s' _ hstep hs
    exact hs.step hstep
  exact hrun.invariant hwhole h

/-- All checks in progress are outdated when one of them fails. -/
theorem CheckState.Ok.outdated (h : s.Ok crypto serverTz) {c : CheckId} {check : Check}
    (hcheck : s.checks.get? c = some check) {links unchained : ℕ} {start : ℤ × String}
    {seen : List Evidence} {walked : Walked} (hfailure : walked.failure ≠ none) :
    Outdated (s.finish c check links unchained start seen walked).checks.keys
        (s.chain.generation + 1) (s.finish c check links unchained start seen walked) ∧
      (s.finish c check links unchained start seen walked).chain.head = none := by
  have hsome : walked.failure.isSome = true := Option.isSome_iff_ne_none.mpr hfailure
  constructor
  · constructor
    case current =>
      simp only [CheckState.finish, VerifiedChain.generation_finish, hsome, if_true]
      exact le_rfl
    case older =>
      intro c' hc'
      cases hget : (s.finish c check links unchained start seen walked).checks.get? c' with
      | none => exact absurd hc' (Dict.get?_eq_none_iff.mp hget)
      | some check' =>
        refine ⟨check', rfl, ?_⟩
        rw [CheckState.finish, CheckState.restage, Dict.get?_set] at hget
        split at hget
        · cases hget
          exact Nat.lt_succ_of_le (h.checks c check hcheck).generation
        · exact Nat.lt_succ_of_le (h.checks c' check' hget).generation
  · simp only [CheckState.finish, VerifiedChain.head_finish, hsome, if_true]

end Failures

/-! ## The incremental check -/

/-- What a check has come to. -/
def CheckState.result (s : CheckState) (c : CheckId) : Option (Except String Findings) :=
  (s.checks.get? c).bind fun check => check.stage.result

/-- The check is about to walk, with these keys. -/
def CheckState.AtWalk (s : CheckState) (c : CheckId) (check : Check)
    (keys : List (String × Bytes)) : Prop :=
  s.checks.get? c = some check ∧
    ∃ links unchained start, check.stage = .keyed links unchained start keys

/-- A check that walks now comes to a result, whatever happens later. -/
def ComesTo (crypto : Crypto) (serverTz : Option Zone) (db : Database) (dsaPk : Option Bytes)
    (s : CheckState) (c : CheckId) (result : Except String Findings) : Prop :=
  ∃ s', s.step crypto serverTz (.query c .walk) = some s' ∧
    ∀ as s'', (checkMachine crypto serverTz db dsaPk).Run Machine.anyAction s' as s'' →
      s''.result c = some result

/-- A check has reported. -/
def CheckState.Reports (s : CheckState) (c : CheckId) (status : ChainStatus) : Prop :=
  ∃ check, s.checks.get? c = some check ∧ check.stage = .reported status

section IncrementalChecks

variable {crypto : Crypto} {serverTz : Option Zone} {db : Database} {dsaPk : Option Bytes}
  {s : CheckState}

/-- What the walk of a check comes to. -/
theorem comesTo_walk {c : CheckId} {check : Check} {links unchained : ℕ} {start : ℤ × String}
    {keys : List (String × Bytes)} (hcheck : s.checks.get? c = some check)
    (hstage : check.stage = .keyed links unchained start keys) :
    ComesTo crypto serverTz db dsaPk s c
      ((walkFrom crypto ⟨keys, s.dsaPk⟩ serverTz start s.db.tables).map Walked.findings) := by
  obtain ⟨s', hstep⟩ : ∃ s', s.step crypto serverTz (.query c .walk) = some s' := by
    simp only [CheckState.step, hcheck, Check.answer, hstage]
    cases walkFrom crypto ⟨keys, s.dsaPk⟩ serverTz start s.db.tables with
    | ok walked => exact ⟨_, rfl⟩
    | error e => exact ⟨_, rfl⟩
  refine ⟨s', hstep, fun as s'' hrun => ?_⟩
  rcases Stage.result_run hrun (result_walk hcheck hstage hstep) with ⟨check', hcheck', hresult⟩
  rw [CheckState.result, hcheck']
  exact hresult

/-- A check that is about to walk, over links up to its head that are unchanged, comes to what a walk
over all links finds. -/
theorem CheckState.Ok.comesTo (h : s.Ok crypto serverTz) {c : CheckId} {check : Check}
    {keys : List (String × Bytes)} (hwalk : s.AtWalk c check keys)
    (hsame : check.full = false → ∀ head ∈ check.head,
      Unchanged check.evidence head ⟨keys, s.dsaPk⟩ s.db.tables) :
    ComesTo crypto serverTz db dsaPk s c
      ((walkFrom crypto ⟨keys, s.dsaPk⟩ serverTz (0, genesisHash) s.db.tables).map
        Walked.findings) := by
  obtain ⟨hcheck, links, unchained, start, hstage⟩ := hwalk
  have hok := h.checks c check hcheck
  have hstart := hok.stands
  rw [hstage] at hstart
  rcases hstart with rfl | ⟨hfull, hhead⟩
  · exact comesTo_walk hcheck hstage
  · rw [← (hok.supported start hhead).findings_walkFrom (hsame hfull start hhead)]
    exact comesTo_walk hcheck hstage

/-- Whether it is full or not, a check that reads the keys and the links finds the same, as long as
what its head rests on is unchanged. -/
theorem incremental_findings (hs : (checkMachine crypto serverTz db dsaPk).Reachable s)
    {c c' : CheckId} {check check' : Check} {keys : List (String × Bytes)}
    (hwalk : s.AtWalk c check keys) (hwalk' : s.AtWalk c' check' keys) (hfull : check'.full = true)
    (hsame : ∀ head ∈ check.head, Unchanged check.evidence head ⟨keys, s.dsaPk⟩ s.db.tables) :
    ∃ result, ComesTo crypto serverTz db dsaPk s c result ∧
      ComesTo crypto serverTz db dsaPk s c' result := by
  have hok : s.Ok crypto serverTz := CheckState.ok_of_reachable hs
  refine ⟨_, hok.comesTo hwalk fun _ => hsame, hok.comesTo hwalk' fun hnot => ?_⟩
  exact absurd (hnot.symm.trans hfull) Bool.false_ne_true

/-- Outdated checks stay outdated. -/
theorem Outdated.run {ids : List CheckId} {generation : ℕ} {s' : CheckState}
    {as : List CheckAction}
    (hrun : (checkMachine crypto serverTz db dsaPk).Run Machine.anyAction s as s')
    (h : Outdated ids generation s) : Outdated ids generation s' := by
  have houtdated : ∀ s a s', Machine.anyAction s a →
      (checkMachine crypto serverTz db dsaPk).step s a = some s' →
        Outdated ids generation s → Outdated ids generation s' := by
    intro s a s' _ hstep hs
    exact hs.step hstep
  exact hrun.invariant houtdated h

/-- While only outdated checks end, no head is stored. -/
theorem Outdated.head_run {ids : List CheckId} {generation : ℕ} {s' : CheckState}
    {as : List CheckAction}
    (hrun : (checkMachine crypto serverTz db dsaPk).Run (EndsOnly ids) s as s')
    (h : Outdated ids generation s) (hnone : s.chain.head = none) : s'.chain.head = none := by
  have hkept : ∀ s a s', EndsOnly ids s a →
      (checkMachine crypto serverTz db dsaPk).step s a = some s' →
        Outdated ids generation s ∧ s.chain.head = none →
          Outdated ids generation s' ∧ s'.chain.head = none := by
    rintro s a s' hends hstep ⟨houtdated, hhead⟩
    exact ⟨houtdated.step hstep, houtdated.head_step hends hhead hstep⟩
  exact (hrun.invariant hkept ⟨h, hnone⟩).2

/-- A check that begins without a head reports as a full check, whatever it was asked for. -/
theorem reports_full_of_begin {c : CheckId} {full : Bool} {startedAt : DateTime}
    {s' s'' : CheckState} {as : List CheckAction} {status : ChainStatus}
    (hnone : s.chain.head = none)
    (hbegin : s.step crypto serverTz (.begin c full startedAt) = some s')
    (hrun : (checkMachine crypto serverTz db dsaPk).Run Machine.anyAction s' as s'')
    (hreports : s''.Reports c status) : status.mode = .full ∧ status.verifiedFromSequence = 1 := by
  have hwhole : s'.Whole c := by
    rw [CheckState.step] at hbegin
    split at hbegin
    · cases hbegin
    · cases hbegin
      exact ⟨_, Dict.get?_set_self _ _ _, hnone, trivial⟩
  obtain ⟨check, hcheck, -, hfrom⟩ := hwhole.run hrun
  obtain ⟨check', hcheck', hstage⟩ := hreports
  rw [hcheck] at hcheck'
  cases hcheck'
  rw [hstage] at hfrom
  exact hfrom

/-- In every state that interleaved checks and changes of the database lead to: a check whose head
rests on links, events and keys that are unchanged comes to the same validity, first invalid sequence
and reason as a full check, or to the same exception.  And once a check has found the chain invalid,
no check that began before stores a head; as long as no later check ends, there is none, and a check
that begins then covers the whole chain. -/
theorem incremental_agrees (hs : (checkMachine crypto serverTz db dsaPk).Reachable s) :
    (∀ c c' check check' keys, s.AtWalk c check keys → s.AtWalk c' check' keys →
      check'.full = true →
        (∀ head ∈ check.head, Unchanged check.evidence head ⟨keys, s.dsaPk⟩ s.db.tables) →
          ∃ result, ComesTo crypto serverTz db dsaPk s c result ∧
            ComesTo crypto serverTz db dsaPk s c' result) ∧
    ∀ c check links unchained start seen walked s₁, s.checks.get? c = some check →
      check.stage = .walked links unchained start seen walked → walked.failure ≠ none →
        s.step crypto serverTz (.finish c) = some s₁ →
          (∀ as s₂ c' s₃,
            (checkMachine crypto serverTz db dsaPk).Run Machine.anyAction s₁ as s₂ →
              c' ∈ s₁.checks.keys → s₂.step crypto serverTz (.finish c') = some s₃ →
                s₃.chain.head = s₂.chain.head ∨ s₃.chain.head = none) ∧
          ∀ as s₂, (checkMachine crypto serverTz db dsaPk).Run (EndsOnly s₁.checks.keys) s₁ as s₂ →
            s₂.chain.head = none ∧ ∀ c' full startedAt s₃ as' s₄ status,
              s₂.step crypto serverTz (.begin c' full startedAt) = some s₃ →
                (checkMachine crypto serverTz db dsaPk).Run Machine.anyAction s₃ as' s₄ →
                  s₄.Reports c' status → status.mode = .full ∧ status.verifiedFromSequence = 1 := by
  constructor
  · intro c c' check check' keys hwalk hwalk' hfull hsame
    exact incremental_findings hs hwalk hwalk' hfull hsame
  · intro c check links unchained start seen walked s₁ hcheck hstage hfailure hfinish
    have hok : s.Ok crypto serverTz := CheckState.ok_of_reachable hs
    simp only [CheckState.step, hcheck, hstage] at hfinish
    cases hfinish
    have hdropped : Outdated (s.finish c check links unchained start seen walked).checks.keys
        (s.chain.generation + 1) (s.finish c check links unchained start seen walked) ∧
          (s.finish c check links unchained start seen walked).chain.head = none :=
      hok.outdated hcheck hfailure
    constructor
    · intro as s₂ c' s₃ hrun hc' hstep
      exact (hdropped.1.run hrun).head_finish hc' hstep
    · intro as s₂ hrun
      have hhead := hdropped.1.head_run hrun hdropped.2
      refine ⟨hhead, fun c' full startedAt s₃ as' s₄ status hbegin hrun' hreports => ?_⟩
      exact reports_full_of_begin hhead hbegin hrun' hreports

end IncrementalChecks

/-! ## Checks of the sample -/

instance (evidence : List Evidence) (head : ℤ × String) (ring : Keyring) (t : Tables) :
    Decidable (Unchanged evidence head ring t) :=
  decidable_of_iff (((t.rowsAfter 0).filter fun row => row.link.sequence ≤ head.1) =
      evidence.map Evidence.row ∧ ∀ e ∈ evidence,
        ring.verificationKey e.row.link.signingKeyId =
          e.ring.verificationKey e.row.link.signingKeyId)
    ⟨fun h => ⟨h.1, h.2⟩, fun h => ⟨h.rows, h.keys⟩⟩

/-- The checks of a process that starts when one event is written. -/
def sampleChecks : Machine CheckState CheckAction :=
  checkMachine evidenceCrypto none ⟨firstTables, sampleKeys⟩ none

/-- A check in front of its walk. -/
def upToWalk (c : CheckId) (full : Bool) : List CheckAction :=
  [.begin c full (sampleReading "l1").createdAt, .query c .countLinks, .query c .countUnchained,
    .query c .locate, .query c .readKeys]

/-- A check stores the first link as the head, and the second event is written.  While an incremental
check is at its walk, another check moves the head, and a full one comes to its walk too. -/
def overlappingChecks : List CheckAction :=
  upToWalk 0 true ++ [.query 0 .walk, .finish 0, .change ⟨sampleTables, sampleKeys⟩ none] ++
    upToWalk 3 true ++ upToWalk 1 false ++ [.query 3 .walk, .finish 3] ++ upToWalk 2 true

/-- The check at the walk that began with the first link as its head. -/
def sampleCheck : Check :=
  ⟨false, (sampleReading "l1").createdAt, some (1, hexdigest sampleDigest), 0,
    (firstTables.rowsAfter 0).map fun row => ⟨row, sampleRing⟩,
    .keyed 2 0 (1, hexdigest sampleDigest) sampleRing.keys⟩

/-- Beside a full check, the incremental check comes to the same, although the head has moved. -/
theorem incremental_agrees_sample : ∃ s, sampleChecks.Reachable s ∧
    s.chain.head = some (2, hexdigest nextDigest) ∧ s.AtWalk 1 sampleCheck sampleRing.keys ∧
      ∃ result, ComesTo evidenceCrypto none ⟨firstTables, sampleKeys⟩ none s 1 result ∧
        ComesTo evidenceCrypto none ⟨firstTables, sampleKeys⟩ none s 2 result := by
  have hrun : (sampleChecks.exec sampleChecks.init overlappingChecks).map (fun s =>
      (s.chain.head, s.checks.get? 1, s.checks.get? 2, decide (Unchanged sampleCheck.evidence
        (1, hexdigest sampleDigest) ⟨sampleRing.keys, s.dsaPk⟩ s.db.tables))) =
      some (some (2, hexdigest nextDigest), some sampleCheck,
        some ⟨true, (sampleReading "l1").createdAt, some (2, hexdigest nextDigest), 0,
          (sampleTables.rowsAfter 0).map fun row => ⟨row, sampleRing⟩,
          .keyed 2 0 (0, genesisHash) sampleRing.keys⟩, true) := by
    decide +kernel
  obtain ⟨s, hexec, hs⟩ := Option.map_eq_some_iff.mp hrun
  simp only [Prod.mk.injEq] at hs
  obtain ⟨hhead, hfirst, hsecond, hunchanged⟩ := hs
  have hreachable : sampleChecks.Reachable s := Machine.reachable_of_exec hexec
  have hwalk : s.AtWalk 1 sampleCheck sampleRing.keys := ⟨hfirst, _, _, _, rfl⟩
  refine ⟨s, hreachable, hhead, hwalk, ?_⟩
  refine (incremental_agrees hreachable).1 1 2 _ _ _ hwalk ⟨hsecond, _, _, _, rfl⟩ rfl ?_
  intro head hmem
  rw [← Option.some.inj hmem]
  exact of_decide_eq_true hunchanged

end QuantumSentinel.Audit
