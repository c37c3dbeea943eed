import Mathlib.Algebra.Order.Field.Rat
import QuantumSentinel.Lib.Transition

/-!
# Signals: the cache of the basket

`get_cached_signals` and `invalidate_cache` of `signal_engine.py`.  Any number of
threads call them; a call is one section under the lock, and the call that generates has a second
one when the generation ends.  A generation ends with signals, with an error response that has
none, or with an exception.

Main results:

- Definition `serviceMachine`: the interleaved system.
- Theorem `Service.step_cases`: what one section can do.
- Theorem `Service.stale_signals_kept`: at most one generation runs, and calls return the newest
  signals as long as no error response replaces signals.

Current gaps:

- What a generation computes is not modelled.
-/

namespace QuantumSentinel.Signals

open Lib

/-! ## Responses -/

/-- What `generate_signals` returns. -/
structure SignalResponse (σ : Type) where
  signals : List σ
  generatedAt : ℚ
  pipelineMs : ℚ
  sbaMs : ℚ
  nAssets : ℕ
  error : Option String
deriving DecidableEq

/-- Why `generate_signals` returns an error response. -/
inductive GenerationError
  /-- the download raised an exception -/
  | download
  /-- the download was empty -/
  | empty
  /-- no asset had enough bars -/
  | history
deriving DecidableEq

/-- The text of an error response. -/
def GenerationError.text : GenerationError → String
  | .download => "market data unavailable — using stale cache if present"
  | .empty => "empty market data response"
  | .history => "no assets had sufficient price history"

/-- How a call of `generate_signals` ends. -/
inductive Outcome (σ : Type)
  /-- one signal for every valid asset, of which there is at least one -/
  | signals (first : σ) (rest : List σ) (generatedAt pipelineMs sbaMs : ℚ)
  /-- an error response -/
  | failed (error : GenerationError) (generatedAt pipelineMs : ℚ)
  /-- an exception -/
  | raised
deriving DecidableEq

variable {σ : Type}

/-- A response without signals. -/
def noSignals (generatedAt : ℚ) (error : Option String) : SignalResponse σ where
  signals := []
  generatedAt := generatedAt
  pipelineMs := 0
  sbaMs := 0
  nAssets := 0
  error := error

/-- The response of a generation that raised no exception. -/
def Outcome.response : Outcome σ → Option (SignalResponse σ)
  | .signals first rest generatedAt pipelineMs sbaMs =>
    some ⟨first :: rest, generatedAt, pipelineMs, sbaMs, (first :: rest).length, none⟩
  | .failed error generatedAt pipelineMs =>
    some { noSignals generatedAt (some error.text) with
      pipelineMs := if error = .history then pipelineMs else 0 }
  | .raised => none

/-! ## The cache -/

/-- `_cache`, without its lock. -/
structure Cache (σ : Type) where
  signals : Option (SignalResponse σ)
  generatedAt : ℚ
  generating : Bool

/-- `CACHE_TTL_SECONDS` -/
def cacheTtlSeconds : ℚ := 20

namespace Cache

/-- The cache at the start of the process. -/
def initial : Cache σ where
  signals := none
  generatedAt := 0
  generating := false

variable (c : Cache σ)

/-- The signals of the cached response. -/
def cached : List σ :=
  (c.signals.map SignalResponse.signals).getD []

/-- Whether there are signals that are not older than their time to live. -/
def isFresh (now : ℚ) : Bool :=
  !c.cached.isEmpty && decide (now - c.generatedAt < cacheTtlSeconds)

/-- The first section of `get_cached_signals`: the cache after it, and what the call returns
unless it generates. -/
def enter (now later : ℚ) : Cache σ × Option (SignalResponse σ) :=
  if c.isFresh now then (c, c.signals)
  else if c.generating then (c, some (c.signals.getD (noSignals later none)))
  else ({ c with generating := true }, none)

/-- The last section of `get_cached_signals`, after the generation. -/
def finish (outcome : Outcome σ) (now : ℚ) : Cache σ × SignalResponse σ :=
  match outcome.response with
  | none =>
    ({ c with generating := false },
      c.signals.getD (noSignals now (some "signal generation failed")))
  | some fresh => (⟨some fresh, now, false⟩, fresh)

/-- `invalidate_cache`. -/
def invalidate : Cache σ :=
  { c with generatedAt := 0 }

end Cache

/-! ## Threads -/

/-- A thread. -/
abbrev ThreadId := ℕ

/-- What a call returned, and the newest signals that a generation had returned by then. -/
structure Return (σ : Type) where
  response : SignalResponse σ
  newest : Option (SignalResponse σ)

/-- The cache, the threads that generate, and what was returned. -/
structure Service (σ : Type) where
  cache : Cache σ
  running : List ThreadId
  newest : Option (SignalResponse σ)
  returned : List (Return σ)

/-- A section under the lock. -/
inductive CacheAct (σ : Type)
  /-- a thread calls `get_cached_signals` -/
  | enter (thread : ThreadId) (now later : ℚ)
  /-- the generation of a thread ends, and its call returns -/
  | finish (thread : ThreadId) (outcome : Outcome σ) (now : ℚ)
  /-- a thread calls `invalidate_cache` -/
  | invalidate

namespace Service

/-- The service at the start of the process. -/
def initial : Service σ where
  cache := Cache.initial
  running := []
  newest := none
  returned := []

variable (s : Service σ)

/-- A call returns. -/
def answer (response : SignalResponse σ) : Service σ :=
  { s with returned := s.returned ++ [⟨response, s.newest⟩] }

/-- A call of `get_cached_signals` returns or starts to generate. -/
def enter (thread : ThreadId) (now later : ℚ) : Service σ :=
  let (cache, response?) := s.cache.enter now later
  match response? with
  | some response => { s with cache := cache }.answer response
  | none => { s with cache := cache, running := thread :: s.running }

/-- What the newest signals are when a generation has ended. -/
def newestAfter (outcome : Outcome σ) : Option (SignalResponse σ) :=
  match outcome with
  | .signals .. => outcome.response
  | _ => s.newest

/-- A generation has ended, and its call is about to return. -/
def ended (thread : ThreadId) (outcome : Outcome σ) (now : ℚ) : Service σ :=
  { s with
    cache := (s.cache.finish outcome now).1
    running := s.running.erase thread
    newest := s.newestAfter outcome }

/-- A generation ends, and its call returns. -/
def finish (thread : ThreadId) (outcome : Outcome σ) (now : ℚ) : Service σ :=
  (s.ended thread outcome now).answer (s.cache.finish outcome now).2

/-- One section; a thread has one call at a time. -/
def step (s : Service σ) : CacheAct σ → Option (Service σ)
  | .enter thread now later => if thread ∈ s.running then none else some (s.enter thread now later)
  | .finish thread outcome now =>
    if thread ∈ s.running then some (s.finish thread outcome now) else none
  | .invalidate => some { s with cache := s.cache.invalidate }

end Service

/-- The threads and their cache. -/
def serviceMachine (σ : Type) : Machine (Service σ) (CacheAct σ) where
  init := Service.initial
  step := Service.step

/-! ## What a section can do -/

/-- The first section returns what is cached, or starts a generation when none runs. -/
theorem Cache.enter_cases (c : Cache σ) (now later : ℚ) :
    c.enter now later = (c, some (c.signals.getD (noSignals later none))) ∨
      (c.generating = false ∧ c.enter now later = ({ c with generating := true }, none)) := by
  unfold Cache.enter
  split
  · rename_i hfresh
    have hcached : c.signals ≠ none := by
      intro hnone
      simp [Cache.isFresh, Cache.cached, hnone] at hfresh
    obtain ⟨response, hresponse⟩ := Option.ne_none_iff_exists'.mp hcached
    rw [hresponse]
    exact Or.inl rfl
  · split
    · exact Or.inl rfl
    · rename_i hidle
      exact Or.inr ⟨Bool.not_eq_true _ ▸ hidle, rfl⟩

namespace Service

variable {s s' : Service σ} {act : CacheAct σ}

/-- What one section does. -/
theorem step_cases (hstep : s.step act = some s') :
    (∃ later, s' = s.answer (s.cache.signals.getD (noSignals later none))) ∨
      (s.cache.generating = false ∧ ∃ thread, s' = { s with
        cache := { s.cache with generating := true }, running := thread :: s.running }) ∨
      (∃ thread outcome now, act = .finish thread outcome now ∧ thread ∈ s.running ∧
        s' = s.finish thread outcome now) ∨
      s' = { s with cache := s.cache.invalidate } := by
  cases act with
  | enter thread now later =>
    obtain ⟨-, hsome⟩ := Option.ite_none_left_eq_some.mp hstep
    cases hsome
    rcases s.cache.enter_cases now later with henter | ⟨hidle, henter⟩
    · refine Or.inl ⟨later, ?_⟩
      rw [enter, henter]
    · refine Or.inr (Or.inl ⟨hidle, thread, ?_⟩)
      rw [enter, henter]
  | finish thread outcome now =>
    obtain ⟨hrunning, hsome⟩ := Option.ite_none_right_eq_some.mp hstep
    cases hsome
    exact Or.inr (Or.inr (Or.inl ⟨thread, outcome, now, rfl, hrunning, rfl⟩))
  | invalidate =>
    cases hstep
    exact Or.inr (Or.inr (Or.inr rfl))

/-! ## One generation at a time -/

/-- At most one generation runs, and the flag says whether one does. -/
def Exclusive (s : Service σ) : Prop :=
  s.running.length = if s.cache.generating then 1 else 0

/-- When a generation has ended the flag is clear. -/
theorem finish_generating (s : Service σ) (thread : ThreadId) (outcome : Outcome σ) (now : ℚ) :
    (s.finish thread outcome now).cache.generating = false := by
  show (s.cache.finish outcome now).1.generating = false
  unfold Cache.finish
  cases outcome.response with
  | none => rfl
  | some fresh => rfl

/-- Every section keeps the generations exclusive. -/
theorem Exclusive.step (h : s.Exclusive) (hstep : s.step act = some s') : s'.Exclusive := by
  rcases step_cases hstep with ⟨later, rfl⟩ | ⟨hidle, thread, rfl⟩ |
    ⟨thread, outcome, now, -, hrunning, rfl⟩ | rfl
  · exact h
  · have hnone : s.running.length = 0 := by
      rw [h, hidle]
      rfl
    show (thread :: s.running).length = 1
    rw [List.length_cons, hnone]
  · have hone : s.running.length = 1 := by
      have hpos := List.length_pos_of_mem hrunning
      unfold Exclusive at h
      split at h
      · exact h
      · omega
    rw [Exclusive, finish_generating]
    show (s.running.erase thread).length = 0
    rw [List.length_erase_of_mem hrunning, hone]
  · exact h

/-! ## The newest signals -/

/-- What was returned after signals had been generated is the newest of them. -/
def AnswersNewest (s : Service σ) : Prop :=
  ∀ answer ∈ s.returned, ∀ newest, answer.newest = some newest →
    answer.response = newest ∧ answer.response.signals ≠ []

/-- The newest signals are cached. -/
structure KeepsNewest (s : Service σ) : Prop where
  cached : ∀ newest, s.newest = some newest →
    s.cache.signals = some newest ∧ newest.signals ≠ []
  answers : s.AnswersNewest

/-- A generation ends with an error response only while no signals are cached. -/
def ReplacesNothing (s : Service σ) : CacheAct σ → Prop
  | .finish _ (.failed _ _ _) _ => s.cache.cached = []
  | _ => True

/-- A call that returns what is cached returns the newest signals. -/
theorem KeepsNewest.answer (h : s.KeepsNewest) {response : SignalResponse σ}
    (hresponse : ∀ newest, s.newest = some newest → response = newest) :
    (s.answer response).KeepsNewest := by
  refine ⟨h.cached, fun a ha newest hnewest => ?_⟩
  rcases List.mem_append.mp ha with hold | hnew
  · exact h.answers a hold newest hnewest
  · rw [List.mem_singleton.mp hnew] at hnewest ⊢
    have hsame := hresponse newest hnewest
    exact ⟨hsame, hsame ▸ (h.cached newest hnewest).2⟩

/-- A generation that ends keeps the newest signals, unless an error response replaces signals. -/
theorem KeepsNewest.finish (h : s.KeepsNewest) {thread : ThreadId} {outcome : Outcome σ} {now : ℚ}
    (hguard : s.ReplacesNothing (.finish thread outcome now)) :
    (s.finish thread outcome now).KeepsNewest := by
  have hended : ∀ newest, (s.ended thread outcome now).newest = some newest →
      (s.ended thread outcome now).cache.signals = some newest ∧ newest.signals ≠ [] ∧
        (s.cache.finish outcome now).2 = newest := by
    intro newest hnewest
    cases outcome with
    | signals first rest generatedAt pipelineMs sbaMs =>
      cases hnewest
      exact ⟨rfl, List.cons_ne_nil first rest, rfl⟩
    | failed error generatedAt pipelineMs =>
      obtain ⟨hcached, hne⟩ := h.cached newest hnewest
      have hempty : s.cache.cached = [] := hguard
      rw [Cache.cached, hcached] at hempty
      exact absurd hempty hne
    | raised =>
      obtain ⟨hcached, hne⟩ := h.cached newest hnewest
      refine ⟨hcached, hne, ?_⟩
      show s.cache.signals.getD _ = newest
      rw [hcached]
      rfl
  have hkeeps : (s.ended thread outcome now).KeepsNewest :=
    ⟨fun newest hnewest => ⟨(hended newest hnewest).1, (hended newest hnewest).2.1⟩, h.answers⟩
  exact hkeeps.answer fun newest hnewest => (hended newest hnewest).2.2

/-- Every section keeps the newest signals, unless an error response replaces signals. -/
theorem KeepsNewest.step (h : s.KeepsNewest) (hguard : s.ReplacesNothing act)
    (hstep : s.step act = some s') : s'.KeepsNewest := by
  rcases step_cases hstep with ⟨later, rfl⟩ | ⟨-, thread, rfl⟩ |
    ⟨thread, outcome, now, rfl, -, rfl⟩ | rfl
  · refine h.answer fun newest hnewest => ?_
    rw [(h.cached newest hnewest).1]
    rfl
  · exact ⟨h.cached, h.answers⟩
  · exact h.finish hguard
  · exact ⟨h.cached, h.answers⟩

/-- In every run at most one generation runs, and the flag is clear after it; and as long as error
responses replace no signals, every call returns the newest signals there are. -/
theorem stale_signals_kept (s : Service σ) :
    ((serviceMachine σ).Reachable s → s.Exclusive ∧ ∀ thread outcome now,
      (s.finish thread outcome now).cache.generating = false) ∧
      ((serviceMachine σ).ReachableUnder ReplacesNothing s → s.AnswersNewest) := by
  refine ⟨fun h => ⟨?_, s.finish_generating⟩, fun h => ?_⟩
  · obtain ⟨acts, hrun⟩ := h
    exact hrun.invariant (I := Exclusive) (fun _ _ _ _ hstep h => h.step hstep) rfl
  · obtain ⟨acts, hrun⟩ := h
    have hinitial : (Service.initial (σ := σ)).KeepsNewest :=
      ⟨fun newest hnewest => (by cases hnewest), fun a ha => (by cases ha)⟩
    have hkeeps : s.KeepsNewest :=
      hrun.invariant (fun _ _ _ hguard hstep h => h.step hguard hstep) hinitial
    exact hkeeps.answers

/-! ## Runs -/

/-- A thread generates, a second one is served while a third generates, and a generation raises. -/
def busyCalls : List (CacheAct String) :=
  [.enter 1 0 0, .finish 1 (.signals "BUY" [] 1 900 20) 1, .enter 2 5 5, .enter 3 30 30,
    .enter 2 31 31, .invalidate, .finish 3 .raised 32, .enter 1 33 33,
    .finish 1 (.signals "SELL" [] 35 900 20) 35, .enter 2 36 36]

theorem stale_signals_kept_busy :
    ∃ s, (serviceMachine String).exec Service.initial busyCalls = some s ∧
      (s.returned.map fun a => a.response.signals) =
        [["BUY"], ["BUY"], ["BUY"], ["BUY"], ["SELL"], ["SELL"]] ∧
      s.Exclusive ∧ s.AnswersNewest := by
  have hrun : ((serviceMachine String).exec Service.initial busyCalls).map (fun s =>
      s.returned.map fun a => a.response.signals) =
        some [["BUY"], ["BUY"], ["BUY"], ["BUY"], ["SELL"], ["SELL"]] := by
    decide +kernel
  obtain ⟨s, hexec, hreturned⟩ := Option.map_eq_some_iff.mp hrun
  have hguarded : ∀ act ∈ busyCalls, ∀ t, ReplacesNothing t act := by
    simp only [busyCalls, List.forall_mem_cons, ReplacesNothing]
    simp
  obtain ⟨hexclusive, hnewest⟩ := stale_signals_kept s
  exact ⟨s, hexec, hreturned, (hexclusive (Machine.reachable_of_exec hexec)).1,
    hnewest ⟨_, Machine.run_of_exec_all hexec hguarded⟩⟩

/-- A refresh whose download fails. -/
def failedRefresh : List (CacheAct String) :=
  [.enter 1 0 0, .finish 1 (.signals "BUY" [] 1 900 20) 1, .enter 1 100 100,
    .finish 1 (.failed .download 101 0) 101, .enter 1 102 102, .enter 2 103 103]

/-- The refresh and the call after it return no signals, though there were some. -/
theorem signals_lost :
    ∃ s, (serviceMachine String).exec Service.initial failedRefresh = some s ∧
      (s.returned.map fun a => (a.response.signals, a.newest.map SignalResponse.signals)) =
        [(["BUY"], some ["BUY"]), ([], some ["BUY"]), ([], some ["BUY"])] ∧
      ¬s.AnswersNewest := by
  have hrun : ((serviceMachine String).exec Service.initial failedRefresh).map (fun s =>
      s.returned.map fun a => (a.response.signals, a.newest.map SignalResponse.signals)) =
        some [(["BUY"], some ["BUY"]), ([], some ["BUY"]), ([], some ["BUY"])] := by
    decide +kernel
  obtain ⟨s, hexec, hreturned⟩ := Option.map_eq_some_iff.mp hrun
  refine ⟨s, hexec, hreturned, fun h => ?_⟩
  have hmem : (([] : List String), some ["BUY"]) ∈ s.returned.map fun a =>
      (a.response.signals, a.newest.map SignalResponse.signals) := by
    rw [hreturned]
    exact List.mem_cons_of_mem _ (List.mem_cons_self ..)
  obtain ⟨a, ha, hpair⟩ := List.mem_map.mp hmem
  obtain ⟨hnone, hsome⟩ := Prod.mk.inj hpair
  obtain ⟨newest, hnewest, -⟩ := Option.map_eq_some_iff.mp hsome
  exact (h a ha newest hnewest).2 hnone

end Service

end QuantumSentinel.Signals
