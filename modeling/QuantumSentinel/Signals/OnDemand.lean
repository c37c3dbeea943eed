import Mathlib.Tactic.Linarith
import QuantumSentinel.Lib.Dict
import QuantumSentinel.Signals.SignalCache

/-!
# Signals: single assets on demand

`compute_single_asset` of `signal_engine.py` looks for a ticker in a cache of its own, then
in the cache of the basket, and then downloads.  What it finds in the basket it puts into its own
cache, at the time of the call.  A signal carries the time of its download and the time at which
the generation that made it ended.

Main results:

- Definition `deskMachine`: calls one after another, at times that do not decrease.
- Theorem `OnDemand.signals_fresh`: how old a returned signal is, as long as no basket is used
  after its time to live.

Current gaps:

- Signals are their asset and their times.
- Calls do not overlap.
-/

namespace QuantumSentinel.Signals

open Lib

/-- A signal: its asset, when its data was downloaded, and when its generation ended. -/
structure Signal where
  asset : String
  downloadedAt : ℚ
  finishedAt : ℚ
deriving DecidableEq

/-- How long the generation of a signal took, from its download on. -/
def Signal.duration (s : Signal) : ℚ :=
  s.finishedAt - s.downloadedAt

/-- An entry of `_ondemand_cache`. -/
structure OnDemandEntry where
  signal : Signal
  fetchedAt : ℚ

/-- `_ONDEMAND_TTL` -/
def onDemandTtl : ℚ := 15

/-- What `compute_single_asset` returned, and the time of the call. -/
structure Answer where
  calledAt : ℚ
  signal : Signal

/-- The two caches, the clock, and the signals that were returned. -/
structure OnDemand where
  cache : Cache Signal
  onDemand : Dict String OnDemandEntry
  clock : ℚ
  answers : List Answer

/-- A live download of one asset: it fails, or brings enough bars. -/
inductive Fetch
  | failed
  | bars (downloadedAt finishedAt : ℚ)

/-- A download that starts at a time. -/
def Fetch.Timed (now : ℚ) : Fetch → Prop
  | .failed => True
  | .bars downloadedAt finishedAt => now ≤ downloadedAt ∧ downloadedAt ≤ finishedAt

instance (now : ℚ) (fetch : Fetch) : Decidable (fetch.Timed now) := by
  cases fetch with
  | failed => exact inferInstanceAs (Decidable True)
  | bars => exact inferInstanceAs (Decidable (_ ∧ _))

/-- A call. -/
inductive OnDemandAct
  /-- `get_cached_signals`; the outcome counts when the call generates -/
  | getCachedSignals (now later : ℚ) (outcome : Outcome Signal) (finished : ℚ)
  /-- `invalidate_cache` -/
  | invalidateCache (now : ℚ)
  /-- `compute_single_asset`; the download counts when no cache has the ticker -/
  | computeSingleAsset (ticker : String) (now : ℚ) (fetch : Fetch)

namespace OnDemand

/-- The caches at the start of the process. -/
def initial : OnDemand where
  cache := Cache.initial
  onDemand := Dict.empty
  clock := 0
  answers := []

variable (s : OnDemand)

/-- `get_cached_signals` as one call. -/
def getCachedSignals (now later : ℚ) (outcome : Outcome Signal) (finished : ℚ) : OnDemand :=
  match s.cache.enter now later with
  | (cache, some _) => { s with cache := cache, clock := now }
  | (cache, none) => { s with cache := (cache.finish outcome finished).1, clock := finished }

/-- The entry of the on-demand cache for a ticker, while it is fresh. -/
def freshEntry (ticker : String) (now : ℚ) : Option OnDemandEntry :=
  (s.onDemand.get? ticker).filter fun entry => now - entry.fetchedAt < onDemandTtl

/-- The signal of the basket for a ticker. -/
def basketSignal (ticker : String) : Option Signal :=
  s.cache.cached.find? fun signal => signal.asset = ticker

/-- A signal is put into the on-demand cache. -/
def remember (ticker : String) (signal : Signal) (now : ℚ) : OnDemand :=
  { s with onDemand := s.onDemand.set ticker ⟨signal, now⟩ }

/-- A call that started at a time returns a signal. -/
def returns (signal : Signal) (now clock : ℚ) : OnDemand :=
  { s with clock := clock, answers := s.answers ++ [⟨now, signal⟩] }

/-- `compute_single_asset` of a ticker in capital letters, without blanks around it. -/
def computeSingleAsset (ticker : String) (now : ℚ) (fetch : Fetch) : OnDemand :=
  match s.freshEntry ticker now with
  | some entry => s.returns entry.signal now now
  | none =>
    match s.basketSignal ticker with
    | some signal => (s.remember ticker signal now).returns signal now now
    | none =>
      match fetch with
      | .failed => { s with clock := now }
      | .bars downloadedAt finishedAt =>
        let result : Signal := ⟨ticker, downloadedAt, finishedAt⟩
        (s.remember ticker result now).returns result now finishedAt

/-- A generation that starts at a time downloads once, and stamps its signals. -/
def Timed (now finished : ℚ) : Outcome Signal → Prop
  | .signals first rest generatedAt _ _ =>
    now ≤ first.downloadedAt ∧ first.downloadedAt ≤ generatedAt ∧ generatedAt ≤ finished ∧
      ∀ signal ∈ first :: rest,
        signal.downloadedAt = first.downloadedAt ∧ signal.finishedAt = generatedAt
  | _ => now ≤ finished

instance (now finished : ℚ) (outcome : Outcome Signal) : Decidable (Timed now finished outcome) := by
  cases outcome with
  | signals => exact inferInstanceAs (Decidable (_ ∧ _))
  | failed => exact inferInstanceAs (Decidable (_ ≤ _))
  | raised => exact inferInstanceAs (Decidable (_ ≤ _))

/-- One call, not earlier than those before it. -/
def step (s : OnDemand) : OnDemandAct → Option OnDemand
  | .getCachedSignals now later outcome finished =>
    if s.clock ≤ now ∧ Timed now finished outcome then
      some (s.getCachedSignals now later outcome finished)
    else none
  | .invalidateCache now =>
    if s.clock ≤ now then some { s with cache := s.cache.invalidate, clock := now } else none
  | .computeSingleAsset ticker now fetch =>
    if s.clock ≤ now ∧ fetch.Timed now then some (s.computeSingleAsset ticker now fetch) else none

end OnDemand

/-- Calls one after another. -/
def deskMachine : Machine OnDemand OnDemandAct where
  init := OnDemand.initial
  step := OnDemand.step

namespace OnDemand

variable {s s' : OnDemand} {act : OnDemandAct}

/-! ## The age of signals -/

/-- The basket is used on demand only within its time to live. -/
def BasketInTime (s : OnDemand) : OnDemandAct → Prop
  | .computeSingleAsset ticker now _ =>
    s.freshEntry ticker now = none → s.basketSignal ticker ≠ none →
      ∀ response ∈ s.cache.signals, now - response.generatedAt ≤ cacheTtlSeconds
  | _ => True

instance (s : OnDemand) (act : OnDemandAct) : Decidable (s.BasketInTime act) := by
  cases act with
  | getCachedSignals => exact inferInstanceAs (Decidable True)
  | invalidateCache => exact inferInstanceAs (Decidable True)
  | computeSingleAsset => exact inferInstanceAs (Decidable (_ → _ → _))

/-- Every returned signal was downloaded in time, but for the duration of its generation. -/
def SignalsFresh (s : OnDemand) : Prop :=
  ∀ a ∈ s.answers,
    a.calledAt - a.signal.downloadedAt ≤ cacheTtlSeconds + onDemandTtl + a.signal.duration

instance (s : OnDemand) : Decidable s.SignalsFresh :=
  inferInstanceAs (Decidable (∀ a ∈ s.answers, _))

/-- The signals of a response end with its generation. -/
def Stamped (response : SignalResponse Signal) : Prop :=
  ∀ signal ∈ response.signals, signal.finishedAt = response.generatedAt

/-- How old the signals are that are cached, and that were returned. -/
structure Dated (s : OnDemand) : Prop where
  basket : ∀ response, s.cache.signals = some response → Stamped response
  entries : ∀ ticker entry, s.onDemand.get? ticker = some entry →
    entry.fetchedAt - entry.signal.finishedAt ≤ cacheTtlSeconds
  answers : ∀ a ∈ s.answers, a.calledAt - a.signal.finishedAt ≤ cacheTtlSeconds + onDemandTtl

/-- The response of a generation is stamped. -/
theorem stamped_of_timed {now finished : ℚ} {outcome : Outcome Signal}
    (h : Timed now finished outcome) {response : SignalResponse Signal}
    (hresponse : outcome.response = some response) : Stamped response := by
  cases outcome with
  | signals first rest generatedAt pipelineMs sbaMs =>
    cases hresponse
    exact fun signal hmem => (h.2.2.2 signal hmem).2
  | failed error generatedAt pipelineMs =>
    cases hresponse
    exact fun signal hmem => (by cases hmem)
  | raised => cases hresponse

/-- A generation leaves a stamped basket. -/
theorem finish_stamped {cache : Cache Signal} {now finished : ℚ} {outcome : Outcome Signal}
    (hcache : ∀ response, cache.signals = some response → Stamped response)
    (h : Timed now finished outcome) :
    ∀ response, (cache.finish outcome finished).1.signals = some response → Stamped response := by
  intro response hresponse
  unfold Cache.finish at hresponse
  cases hout : outcome.response with
  | none =>
    rw [hout] at hresponse
    exact hcache response hresponse
  | some fresh =>
    rw [hout] at hresponse
    cases hresponse
    exact stamped_of_timed h hout

/-- The first section leaves the basket as it is. -/
theorem enter_signals (cache : Cache Signal) (now later : ℚ) :
    (cache.enter now later).1.signals = cache.signals := by
  rcases cache.enter_cases now later with henter | ⟨-, henter⟩
  · rw [henter]
  · rw [henter]

/-- A call that returns a signal in time. -/
theorem Dated.returns (h : s.Dated) {signal : Signal} {now clock : ℚ}
    (hage : now - signal.finishedAt ≤ cacheTtlSeconds + onDemandTtl) :
    (s.returns signal now clock).Dated := by
  refine ⟨h.basket, h.entries, fun a ha => ?_⟩
  rcases List.mem_append.mp ha with hold | hnew
  · exact h.answers a hold
  · rw [List.mem_singleton.mp hnew]
    exact hage

/-- A signal within the time to live of the basket is remembered. -/
theorem Dated.remember (h : s.Dated) {ticker : String} {signal : Signal} {now : ℚ}
    (hage : now - signal.finishedAt ≤ cacheTtlSeconds) : (s.remember ticker signal now).Dated := by
  refine ⟨h.basket, fun other entry hentry => ?_, h.answers⟩
  by_cases hsame : other = ticker
  · rw [hsame, OnDemand.remember, Dict.get?_set_self] at hentry
    cases hentry
    exact hage
  · rw [OnDemand.remember, Dict.get?_set_ne _ _ hsame] at hentry
    exact h.entries other entry hentry

theorem ttl_pos : 0 < cacheTtlSeconds ∧ 0 < onDemandTtl :=
  ⟨by norm_num [cacheTtlSeconds], by norm_num [onDemandTtl]⟩

/-- A call for a single asset keeps the ages, when it uses the basket in time. -/
theorem Dated.computeSingleAsset (h : s.Dated) {ticker : String} {now : ℚ} {fetch : Fetch}
    (htimed : fetch.Timed now)
    (hguard : s.BasketInTime (.computeSingleAsset ticker now fetch)) :
    (s.computeSingleAsset ticker now fetch).Dated := by
  have httl := ttl_pos
  unfold OnDemand.computeSingleAsset
  cases hentry : s.freshEntry ticker now with
  | some entry =>
    obtain ⟨hget, hfresh⟩ := Option.filter_eq_some_iff.mp hentry
    have hage := h.entries ticker entry hget
    have hsoon : now - entry.fetchedAt < onDemandTtl := of_decide_eq_true hfresh
    exact h.returns (by linarith)
  | none =>
    cases hbasket : s.basketSignal ticker with
    | some signal =>
      have hmem : signal ∈ s.cache.cached := List.mem_of_find?_eq_some hbasket
      have hage : now - signal.finishedAt ≤ cacheTtlSeconds := by
        cases hcached : s.cache.signals with
        | none =>
          rw [Cache.cached, hcached] at hmem
          cases hmem
        | some response =>
          rw [Cache.cached, hcached] at hmem
          rw [h.basket response hcached signal hmem]
          exact hguard hentry (by rw [hbasket]; exact Option.some_ne_none _) response hcached
      exact (h.remember hage).returns (by linarith)
    | none =>
      cases fetch with
      | failed => exact ⟨h.basket, h.entries, h.answers⟩
      | bars downloadedAt finishedAt =>
        have hlater : now ≤ finishedAt := htimed.1.trans htimed.2
        have hage : now - (Signal.mk ticker downloadedAt finishedAt).finishedAt ≤
            cacheTtlSeconds := by
          linarith
        exact (h.remember hage).returns (hage.trans (by linarith))

/-- Every call keeps the ages, when the basket is used in time. -/
theorem Dated.step (h : s.Dated) (hguard : s.BasketInTime act) (hstep : s.step act = some s') :
    s'.Dated := by
  cases act with
  | getCachedSignals now later outcome finished =>
    obtain ⟨htimes, hsome⟩ := Option.ite_none_right_eq_some.mp hstep
    cases hsome
    have hsignals := enter_signals s.cache now later
    unfold OnDemand.getCachedSignals
    rcases hentered : s.cache.enter now later with ⟨cache, response?⟩
    rw [hentered] at hsignals
    have hcache : ∀ response, cache.signals = some response → Stamped response :=
      fun response hresponse => h.basket response (hsignals.symm.trans hresponse)
    cases response? with
    | some response => exact ⟨hcache, h.entries, h.answers⟩
    | none => exact ⟨finish_stamped hcache htimes.2, h.entries, h.answers⟩
  | invalidateCache now =>
    obtain ⟨-, hsome⟩ := Option.ite_none_right_eq_some.mp hstep
    cases hsome
    exact ⟨h.basket, h.entries, h.answers⟩
  | computeSingleAsset ticker now fetch =>
    obtain ⟨htimes, hsome⟩ := Option.ite_none_right_eq_some.mp hstep
    cases hsome
    exact h.computeSingleAsset htimes.2 hguard

/-- In every run that uses the basket within its time to live, every returned signal is fresh. -/
theorem signals_fresh (h : deskMachine.ReachableUnder BasketInTime s) : s.SignalsFresh := by
  obtain ⟨acts, hrun⟩ := h
  have hinitial : OnDemand.initial.Dated :=
    ⟨fun response hresponse => (by cases hresponse), fun ticker entry hentry => (by cases hentry),
      fun a ha => (by cases ha)⟩
  have hdated : s.Dated :=
    hrun.invariant (fun _ _ _ hguard hstep h => h.step hguard hstep) hinitial
  intro a ha
  have hage := hdated.answers a ha
  unfold Signal.duration
  linarith

/-! ## Runs -/

/-- A basket whose download takes one second and that is finished three seconds later. -/
def basketOf (asset : String) (now : ℚ) : OnDemandAct :=
  .getCachedSignals now now (.signals ⟨asset, now + 1, now + 4⟩ [] (now + 4) 4000 20) (now + 4)

/-- A basket that is used in time, and again from the on-demand cache. -/
def promptCalls : List OnDemandAct :=
  [basketOf "AAPL" 100, .computeSingleAsset "AAPL" 120 .failed,
    .computeSingleAsset "AAPL" 134 .failed, .computeSingleAsset "MSFT" 140 (.bars 141 142)]

theorem signals_fresh_prompt :
    ∃ s, deskMachine.execUnder BasketInTime OnDemand.initial promptCalls = some s ∧
      (s.answers.map fun a => a.calledAt - a.signal.downloadedAt) = [19, 33, -1] ∧
      s.SignalsFresh := by
  have hrun : (deskMachine.execUnder BasketInTime OnDemand.initial promptCalls).map (fun s =>
      s.answers.map fun a => a.calledAt - a.signal.downloadedAt) = some [19, 33, -1] := by
    decide +kernel
  obtain ⟨s, hexec, hages⟩ := Option.map_eq_some_iff.mp hrun
  exact ⟨s, hexec, hages, signals_fresh ⟨_, Machine.run_of_execUnder hexec⟩⟩

/-- A basket that is used long after its time to live. -/
def forgottenBasket : List OnDemandAct :=
  [basketOf "AAPL" 100, .computeSingleAsset "AAPL" 3600 .failed,
    .computeSingleAsset "AAPL" 3610 .failed]

/-- The signals are an hour old. -/
theorem stale_on_demand :
    ∃ s, deskMachine.exec OnDemand.initial forgottenBasket = some s ∧
      (s.answers.map fun a => (a.calledAt - a.signal.downloadedAt, a.signal.duration)) =
        [(3499, 3), (3509, 3)] ∧ ¬s.SignalsFresh := by
  have hrun : (deskMachine.exec OnDemand.initial forgottenBasket).map (fun s =>
      (s.answers.map fun a => (a.calledAt - a.signal.downloadedAt, a.signal.duration),
        decide s.SignalsFresh)) = some ([(3499, 3), (3509, 3)], false) := by
    decide +kernel
  obtain ⟨s, hexec, hs⟩ := Option.map_eq_some_iff.mp hrun
  rw [Prod.mk.injEq, decide_eq_false_iff_not] at hs
  exact ⟨s, hexec, hs⟩

end OnDemand

end QuantumSentinel.Signals
