import Mathlib
import QuantumSentinel.Lib.Dict
import QuantumSentinel.Lib.Transition

/-!
# Quotes: the cache of prices

`get_last_price` and `get_mark_price` of `trading_service.py`, on top of
`_quote`, `_fresh_quote` and `_remember_failure`.  Any number of threads call them.
A step of a call is one access to what the threads share, and the steps of different calls
interleave as the striped locks let them.

Main results:

- Definition `quoteMachine`: the interleaved system.
- Theorem `Stage.next_sound`: what one step of a call keeps of the memory.
- Theorem `Service.quotes_spaced`: an asset is fetched by one call at a time, and again only
  when what the fetches before found has expired.
- Theorem `Service.answers_grounded`: what a call answers is what a recent fetch found.

Current gaps:

- What the provider answers is an input; prices and times are rational numbers.
- The texts of the exceptions.
-/

namespace QuantumSentinel.Quotes

open Lib

/-! ## Prices -/

/-- What `_valid_price` lets through. -/
abbrev Price := { value : ℚ // 0 < value }

/-- A price, and the time of its trade if the source gives one. -/
structure Observation where
  price : Price
  marketTime : Option ℚ
deriving DecidableEq

/-- Whether `get_last_price` lets orders execute at what was observed. -/
def Observation.executable (maxAge clock : ℚ) (o : Observation) : Bool :=
  match o.marketTime with
  | none => false
  | some marketTime => !decide (clock - marketTime > maxAge)

/-- `PRICE_CACHE_TTL` -/
def priceCacheTtl : ℚ := 20

/-- `QUOTE_FAILURE_TTL` -/
def quoteFailureTtl : ℚ := 20

/-- `_QUOTE_FAILURES_PRUNE_AT` -/
def quoteFailuresPruneAt : ℕ := 1024

/-- What the provider gives one fetch: the results of `_live_quote`,
`_fast_info_price` and `_last_close`, or an exception. -/
inductive Provided
  | answers (live : Option (Price × ℚ)) (fastInfo lastClose : Option Price)
  | raised

/-- A fetch that ended without an exception: when it began, and what was observed if there was a
price. -/
structure Fetch (α : Type) where
  asset : α
  begunAt : ℚ
  found : Option Observation
deriving DecidableEq

variable {α : Type}

/-- How long what a fetch found stands. -/
def Fetch.ttl (f : Fetch α) : ℚ :=
  if f.found.isSome then priceCacheTtl else quoteFailureTtl

theorem Fetch.ttl_pos (f : Fetch α) : 0 < f.ttl := by
  unfold Fetch.ttl priceCacheTtl quoteFailureTtl
  split <;> norm_num

theorem Fetch.ttl_none {f : Fetch α} (h : f.found = none) : f.ttl = quoteFailureTtl := by
  rw [Fetch.ttl, h]
  rfl

variable [DecidableEq α]

/-- An entry of `_price_cache`. -/
structure Entry where
  found : Observation
  fetchedAt : ℚ

/-! ## One call -/

/-- The two dictionaries, and the fetches whose outcome they were told, the newest first. -/
structure Memory (α : Type) where
  cache : Dict α Entry
  failures : Dict α ℚ
  fetches : List (Fetch α)

/-- Where a call is; `now` is the clock it last read. -/
inductive Stage (α : Type)
  /-- `_fresh_quote` reads the cache, outside or under the lock -/
  | looking (locked : Bool) (now : ℚ)
  /-- `_fresh_quote` reads the failures -/
  | recalling (locked : Bool) (now : ℚ)
  /-- the call waits for the lock -/
  | waiting
  /-- the provider is asked -/
  | fetching (now : ℚ)
  /-- a price goes to the cache -/
  | storing (now : ℚ) (found : Observation)
  /-- the failure of an earlier fetch is dropped -/
  | clearing (now : ℚ) (found : Observation)
  /-- `_remember_failure` counts the failures -/
  | failing (now : ℚ)
  /-- `_remember_failure` lists the failures -/
  | listing (now : ℚ)
  /-- `_remember_failure` goes through the failures it listed -/
  | pruning (now : ℚ) (rest : List (α × ℚ))
  /-- `_quote` has returned -/
  | quoted (now : ℚ) (found : Observation)
  /-- `_quote` has raised `MarketDataUnavailable` -/
  | unavailable (now : ℚ)
  /-- the provider has raised an exception -/
  | raised (now : ℚ)

namespace Stage

/-- Whether the call is inside the `with` block. -/
def locked : Stage α → Bool
  | .looking locked _ | .recalling locked _ => locked
  | .waiting | .quoted .. | .unavailable _ | .raised _ => false
  | _ => true

/-- After the cache was read. -/
def looked (locked : Bool) (now : ℚ) (cached : Option Entry) : Stage α :=
  match cached.filter fun entry => now - entry.fetchedAt < priceCacheTtl with
  | some entry => .quoted now entry.found
  | none => .recalling locked now

/-- After the failures were read. -/
def recalled (locked : Bool) (now : ℚ) (failed : Option ℚ) : Stage α :=
  match failed.filter fun failedAt => now - failedAt < quoteFailureTtl, locked with
  | some _, _ => .unavailable now
  | none, true => .fetching now
  | none, false => .waiting

/-- After the provider was asked. -/
def fetched (now : ℚ) : Provided → Stage α
  | .answers (some (price, marketTime)) _ _ => .storing now ⟨price, some marketTime⟩
  | .answers none fastInfo lastClose =>
    match fastInfo.or lastClose with
    -- good for valuation, never executable
    | some price => .storing now ⟨price, none⟩
    | none => .failing now
  | .raised => .raised now

/-- One step of a call that neither waits nor has ended. -/
def next (m : Memory α) (asset : α) (provided : Provided) : Stage α → Memory α × Stage α
  | .looking locked now => (m, .looked locked now (m.cache.get? asset))
  | .recalling locked now => (m, .recalled locked now (m.failures.get? asset))
  | .fetching now => (m, .fetched now provided)
  | .storing now found =>
    ({ m with
      cache := m.cache.set asset ⟨found, now⟩
      fetches := ⟨asset, now, some found⟩ :: m.fetches }, .clearing now found)
  | .clearing now found => ({ m with failures := m.failures.erase asset }, .quoted now found)
  | .failing now =>
    (m, if quoteFailuresPruneAt ≤ m.failures.items.length then .listing now else .pruning now [])
  | .listing now => (m, .pruning now m.failures.items)
  | .pruning now ((key, failedAt) :: rest) =>
    (if quoteFailureTtl ≤ now - failedAt then { m with failures := m.failures.erase key }
      else m, .pruning now rest)
  | .pruning now [] =>
    ({ m with
      failures := m.failures.set asset now
      fetches := ⟨asset, now, none⟩ :: m.fetches }, .unavailable now)
  | stage => (m, stage)

end Stage

/-! ## Threads -/

/-- A thread. -/
abbrev ThreadId := ℕ

/-- A call of `get_mark_price`, or of `get_last_price`. -/
structure Call (α : Type) where
  asset : α
  mark : Bool
  stage : Stage α

/-- How a call ends. -/
inductive Reply
  /-- `get_last_price` returns -/
  | price (price : Price)
  /-- `StaleMarketData` -/
  | stale (found : Observation)
  /-- `get_mark_price` returns -/
  | mark (price : Option Price) (stale : Bool)
  /-- `MarketDataUnavailable` -/
  | unavailable
  /-- another exception -/
  | raised
deriving DecidableEq

/-- The clock a call that has a quote or an exception read for it, and how the call ends. -/
def Call.reply? (call : Call α) (maxAge clock : ℚ) (cache : Dict α Entry) :
    Option (ℚ × Reply) :=
  match call.stage with
  | .quoted now found =>
    let executable := found.executable maxAge clock
    some (now, if call.mark then .mark (some found.price) !executable
      else if executable then .price found.price else .stale found)
  | .unavailable now =>
    some (now, if call.mark then .mark ((cache.get? call.asset).map (·.found.price)) true
      else .unavailable)
  | .raised now => some (now, .raised)
  | _ => none

/-- How a call ended, the clock it read for its quote and for the age of its quote, and what had
been fetched by then. -/
structure Answer (α : Type) where
  asset : α
  reply : Reply
  readAt : ℚ
  checkedAt : ℚ
  fetches : List (Fetch α)

/-- What the threads share, the calls that run and the answers of those that have ended. -/
structure Service (α : Type) where
  memory : Memory α
  locks : ℤ → Option ThreadId
  calls : ThreadId → Option (Call α)
  answers : List (Answer α)

/-- A step of a thread. -/
inductive QuoteAct (α : Type)
  /-- a thread calls `get_mark_price` or `get_last_price` -/
  | call (thread : ThreadId) (asset : α) (mark : Bool) (now : ℚ)
  /-- the call of a thread goes on -/
  | advance (thread : ThreadId) (clock : ℚ) (provided : Provided)

/-- The lock of an asset in `_fetch_locks`. -/
def stripe (hash : α → ℤ) (asset : α) : ℤ :=
  hash asset % 64

namespace Service

/-- The service at the start of the process. -/
def initial : Service α where
  memory := ⟨Dict.empty, Dict.empty, []⟩
  locks := fun _ => none
  calls := fun _ => none
  answers := []

variable (hash : α → ℤ) (maxAge : ℚ) (s : Service α)

/-- A call moves on, and releases its lock when it leaves the `with` block. -/
def turn (thread : ThreadId) (call : Call α) (next : Memory α × Stage α) : Service α :=
  { s with
    memory := next.1
    locks := if call.stage.locked && !next.2.locked then
      Function.update s.locks (stripe hash call.asset) none else s.locks
    calls := Function.update s.calls thread (some { call with stage := next.2 }) }

/-- A call takes its lock and reads the clock. -/
def acquire (thread : ThreadId) (call : Call α) (clock : ℚ) : Service α :=
  { s with
    locks := Function.update s.locks (stripe hash call.asset) (some thread)
    calls := Function.update s.calls thread (some { call with stage := .looking true clock }) }

/-- A call ends. -/
def answer (thread : ThreadId) (call : Call α) (clock : ℚ) (reply : ℚ × Reply) : Service α :=
  { s with
    calls := Function.update s.calls thread none
    answers := ⟨call.asset, reply.2, reply.1, clock, s.memory.fetches⟩ :: s.answers }

/-- One step of a call. -/
def advance (thread : ThreadId) (call : Call α) (clock : ℚ) (provided : Provided) :
    Option (Service α) :=
  match call.stage with
  | .waiting =>
    if s.locks (stripe hash call.asset) = none then some (s.acquire hash thread call clock)
    else none
  | stage =>
    match call.reply? maxAge clock s.memory.cache with
    | some reply => some (s.answer thread call clock reply)
    | none => some (s.turn hash thread call (stage.next s.memory call.asset provided))

/-- One step of a thread, which has one call at a time. -/
def step (s : Service α) : QuoteAct α → Option (Service α)
  | .call thread asset mark now =>
    if (s.calls thread).isSome then none
    else some { s with
      calls := Function.update s.calls thread (some ⟨asset, mark, .looking false now⟩) }
  | .advance thread clock provided =>
    (s.calls thread).bind fun call => s.advance hash maxAge thread call clock provided

end Service

/-- The threads and their cache. -/
def quoteMachine (hash : α → ℤ) (maxAge : ℚ) : Machine (Service α) (QuoteAct α) where
  init := Service.initial
  step := Service.step hash maxAge

/-! ## The memory -/

/-- What a fetch found stands. -/
def Recent (fetches : List (Fetch α)) (asset : α) (now : ℚ) (found : Option Observation) : Prop :=
  ∃ f ∈ fetches, f.asset = asset ∧ f.found = found ∧ now - f.begunAt < f.ttl

/-- What the fetches of an asset found has expired; failures count in runs without a prune. -/
def Expired (unpruned : Prop) (fetches : List (Fetch α)) (asset : α) (now : ℚ) : Prop :=
  ∀ f ∈ fetches, asset = f.asset → f.found.isSome ∨ unpruned → f.begunAt + f.ttl ≤ now

/-- Every fetch of an asset begins when what the ones before it found has expired. -/
def Spaced (unpruned : Prop) (fetches : List (Fetch α)) : Prop :=
  fetches.Pairwise fun later earlier => later.asset = earlier.asset →
    earlier.found.isSome ∨ unpruned → earlier.begunAt + earlier.ttl ≤ later.begunAt

/-- What the cache has for an asset is the newest price that was fetched. -/
def IsNewest (fetches : List (Fetch α)) (asset : α) : Option Entry → Prop
  | none => ∀ f ∈ fetches, asset = f.asset → f.found = none
  | some entry => ⟨asset, entry.fetchedAt, some entry.found⟩ ∈ fetches ∧
      ∀ f ∈ fetches, asset = f.asset → f.found.isSome → f.begunAt ≤ entry.fetchedAt

/-- The dictionaries hold what the fetches found. -/
structure Memory.Sound (unpruned : Prop) (m : Memory α) : Prop where
  cached : ∀ asset, IsNewest m.fetches asset (m.cache.get? asset)
  failed : ∀ asset failedAt, m.failures.get? asset = some failedAt →
    ⟨asset, failedAt, none⟩ ∈ m.fetches
  spaced : Spaced unpruned m.fetches
  remembered : unpruned → ∀ f ∈ m.fetches, f.found = none →
    (∃ failedAt, m.failures.get? f.asset = some failedAt ∧ f.begunAt ≤ failedAt) ∨
      ∃ g ∈ m.fetches, f.asset = g.asset ∧ g.found.isSome ∧ f.begunAt + f.ttl ≤ g.begunAt

/-- What a stage says about the fetches of its asset. -/
def Stage.Sound (unpruned : Prop) (fetches : List (Fetch α)) (asset : α) : Stage α → Prop
  | .recalling true now => Expired False fetches asset now
  | .fetching now | .storing now _ | .failing now => Expired unpruned fetches asset now
  | .listing now => Expired unpruned fetches asset now ∧ ¬unpruned
  | .pruning now rest => Expired unpruned fetches asset now ∧ (unpruned → rest = [])
  | .clearing now found => ⟨asset, now, some found⟩ ∈ fetches ∧ ∀ f ∈ fetches,
      asset = f.asset → f.found = none → unpruned → f.begunAt + f.ttl ≤ now
  | .quoted now found => Recent fetches asset now (some found)
  | .unavailable now => Recent fetches asset now none
  | _ => True

section

variable {unpruned : Prop} {m : Memory α} {asset : α} {now : ℚ}

/-- When the cached price has expired, so have all prices. -/
theorem Memory.Sound.expired_looked (h : m.Sound unpruned)
    (hcache : ∀ entry, m.cache.get? asset = some entry → priceCacheTtl ≤ now - entry.fetchedAt) :
    Expired False m.fetches asset now := by
  intro f hf hasset hcount
  have hfound : f.found.isSome := hcount.resolve_right id
  have hcached := h.cached asset
  cases hget : m.cache.get? asset with
  | none =>
    rw [hget] at hcached
    rw [hcached f hf hasset] at hfound
    cases hfound
  | some entry =>
    rw [hget] at hcached
    have hle := hcached.2 f hf hasset hfound
    have hexpired := hcache entry hget
    rw [Fetch.ttl, if_pos hfound]
    linarith

/-- When the price and the failure that are remembered have expired, so has everything. -/
theorem Memory.Sound.expired_missed (h : m.Sound unpruned)
    (hprices : Expired False m.fetches asset now)
    (hfailure : ∀ failedAt, m.failures.get? asset = some failedAt →
      quoteFailureTtl ≤ now - failedAt) : Expired unpruned m.fetches asset now := by
  intro f hf hasset hcount
  by_cases hfound : f.found.isSome
  · exact hprices f hf hasset (Or.inl hfound)
  · have hnone : f.found = none := by simpa using hfound
    rcases h.remembered (hcount.resolve_left hfound) f hf hnone with
      ⟨failedAt, hget, hle⟩ | ⟨g, hg, hsame, hprice, hle⟩
    · have hexpired := hfailure failedAt (hasset ▸ hget)
      rw [Fetch.ttl_none hnone]
      linarith
    · have hexpired := hprices g hg (hasset.trans hsame) (Or.inl hprice)
      have hpos := g.ttl_pos
      linarith

/-- What the cache holds while it is fresh was found recently. -/
theorem Memory.Sound.recent_cached (h : m.Sound unpruned) {entry : Entry}
    (hget : m.cache.get? asset = some entry) (hfresh : now - entry.fetchedAt < priceCacheTtl) :
    Recent m.fetches asset now (some entry.found) := by
  have hcached := h.cached asset
  rw [hget] at hcached
  exact ⟨_, hcached.1, rfl, rfl, hfresh⟩

omit [DecidableEq α] in
/-- What a call knows about its asset survives the fetches that do not exclude it. -/
theorem Stage.Sound.cons {stage : Stage α} (h : stage.Sound unpruned m.fetches asset) (f : Fetch α)
    (hother : stage.locked = true → asset ≠ f.asset) :
    stage.Sound unpruned (f :: m.fetches) asset := by
  have hexpired {p : Prop} {now : ℚ} (hlocked : stage.locked = true)
      (h : Expired p m.fetches asset now) : Expired p (f :: m.fetches) asset now :=
    List.forall_mem_cons.mpr ⟨fun hasset => absurd hasset (hother hlocked), h⟩
  have hrecent {now : ℚ} {found : Option Observation} (h : Recent m.fetches asset now found) :
      Recent (f :: m.fetches) asset now found := by
    obtain ⟨g, hg, hkept⟩ := h
    exact ⟨g, List.mem_cons_of_mem f hg, hkept⟩
  cases stage with
  | looking | waiting | raised => trivial
  | recalling locked now =>
    cases locked with
    | false => trivial
    | true => exact hexpired rfl h
  | fetching | storing | failing => exact hexpired rfl h
  | clearing =>
    exact ⟨List.mem_cons_of_mem f h.1,
      List.forall_mem_cons.mpr ⟨fun hasset => absurd hasset (hother rfl), h.2⟩⟩
  | listing | pruning => exact ⟨hexpired rfl h.1, h.2⟩
  | quoted | unavailable => exact hrecent h

omit [DecidableEq α] in
theorem IsNewest.cons {fetches : List (Fetch α)} {newest : Option Entry}
    (h : IsNewest fetches asset newest) {f : Fetch α} (hf : asset = f.asset → f.found = none) :
    IsNewest (f :: fetches) asset newest := by
  cases newest with
  | none => exact List.forall_mem_cons.mpr ⟨hf, h⟩
  | some entry =>
    refine ⟨List.mem_cons_of_mem _ h.1, List.forall_mem_cons.mpr ⟨fun hasset hfound => ?_, h.2⟩⟩
    rw [hf hasset] at hfound
    cases hfound

/-- A price goes to the cache. -/
theorem Memory.Sound.store (h : m.Sound unpruned) (hexpired : Expired unpruned m.fetches asset now)
    (found : Observation) :
    Memory.Sound unpruned { m with
      cache := m.cache.set asset ⟨found, now⟩
      fetches := ⟨asset, now, some found⟩ :: m.fetches } where
  cached other := by
    by_cases hother : other = asset
    · subst hother
      rw [Dict.get?_set_self]
      refine ⟨List.mem_cons_self .., List.forall_mem_cons.mpr ⟨fun _ _ => le_rfl, ?_⟩⟩
      intro f hf hasset hfound
      have hle := hexpired f hf hasset (Or.inl hfound)
      have hpos := f.ttl_pos
      linarith
    · rw [Dict.get?_set_ne _ _ hother]
      exact (h.cached other).cons fun hasset => absurd hasset hother
  failed other failedAt hget := List.mem_cons_of_mem _ (h.failed other failedAt hget)
  spaced := List.pairwise_cons.mpr ⟨hexpired, h.spaced⟩
  remembered hall := by
    refine List.forall_mem_cons.mpr ⟨nofun, fun f hf hnone => ?_⟩
    rcases h.remembered hall f hf hnone with hget | ⟨g, hg, hprice⟩
    · exact Or.inl hget
    · exact Or.inr ⟨g, List.mem_cons_of_mem _ hg, hprice⟩

/-- A failure is remembered. -/
theorem Memory.Sound.note (h : m.Sound unpruned)
    (hexpired : Expired unpruned m.fetches asset now) :
    Memory.Sound unpruned { m with
      failures := m.failures.set asset now
      fetches := ⟨asset, now, none⟩ :: m.fetches } where
  cached other := (h.cached other).cons fun _ => rfl
  failed other failedAt hget := by
    by_cases hother : other = asset
    · subst hother
      rw [Dict.get?_set_self] at hget
      cases hget
      exact List.mem_cons_self ..
    · rw [Dict.get?_set_ne _ _ hother] at hget
      exact List.mem_cons_of_mem _ (h.failed other failedAt hget)
  spaced := List.pairwise_cons.mpr ⟨hexpired, h.spaced⟩
  remembered hall := by
    refine List.forall_mem_cons.mpr ⟨fun _ => Or.inl ⟨now, Dict.get?_set_self .., le_rfl⟩, ?_⟩
    intro f hf hnone
    by_cases hother : f.asset = asset
    · have hle := hexpired f hf hother.symm (Or.inr hall)
      have hpos := f.ttl_pos
      exact Or.inl ⟨now, by rw [hother, Dict.get?_set_self], by linarith⟩
    · rcases h.remembered hall f hf hnone with hget | ⟨g, hg, hprice⟩
      · rw [Dict.get?_set_ne _ _ hother]
        exact Or.inl hget
      · exact Or.inr ⟨g, List.mem_cons_of_mem _ hg, hprice⟩

/-- A failure is forgotten, which only a price may cause in runs without a prune. -/
theorem Memory.Sound.erase (h : m.Sound unpruned) (hprice : unpruned → ∀ f ∈ m.fetches,
      f.asset = asset → f.found = none →
        ∃ g ∈ m.fetches, f.asset = g.asset ∧ g.found.isSome ∧ f.begunAt + f.ttl ≤ g.begunAt) :
    Memory.Sound unpruned { m with failures := m.failures.erase asset } where
  cached := h.cached
  failed other failedAt hget := by
    by_cases hother : other = asset
    · subst hother
      rw [Dict.get?_erase_self] at hget
      cases hget
    · rw [Dict.get?_erase_ne _ hother] at hget
      exact h.failed other failedAt hget
  spaced := h.spaced
  remembered hall f hf hnone := by
    by_cases hother : f.asset = asset
    · exact Or.inr (hprice hall f hf hother hnone)
    · rw [Dict.get?_erase_ne _ hother]
      exact h.remembered hall f hf hnone

/-- One step of a call keeps the memory, and the call knows what it did. -/
theorem Stage.next_sound (h : m.Sound unpruned) {stage : Stage α}
    (hstage : stage.Sound unpruned m.fetches asset) (provided : Provided)
    (hprune : unpruned → m.failures.items.length < quoteFailuresPruneAt) :
    (stage.next m asset provided).1.Sound unpruned ∧
      (stage.next m asset provided).2.Sound unpruned (stage.next m asset provided).1.fetches
        asset := by
  cases stage with
  | looking locked now =>
    refine ⟨h, ?_⟩
    simp only [next, looked]
    split
    · rename_i entry hfresh
      obtain ⟨hget, hlt⟩ := Option.filter_eq_some_iff.mp hfresh
      exact h.recent_cached hget (of_decide_eq_true hlt)
    · rename_i hstale
      cases locked with
      | false => trivial
      | true =>
        refine h.expired_looked fun entry hget => not_lt.mp ?_
        simpa using Option.filter_eq_none_iff.mp hstale entry hget
  | recalling locked now =>
    refine ⟨h, ?_⟩
    simp only [next, recalled]
    split
    · rename_i failedAt hfresh
      obtain ⟨hget, hlt⟩ := Option.filter_eq_some_iff.mp hfresh
      exact ⟨_, h.failed asset failedAt hget, rfl, rfl, of_decide_eq_true hlt⟩
    · rename_i hstale
      refine h.expired_missed hstage fun failedAt hget => not_lt.mp ?_
      simpa using Option.filter_eq_none_iff.mp hstale failedAt hget
    · trivial
  | waiting | raised => exact ⟨h, trivial⟩
  | fetching now =>
    refine ⟨h, ?_⟩
    show (Stage.fetched now provided).Sound unpruned m.fetches asset
    unfold Stage.fetched
    split
    · exact hstage
    · split <;> exact hstage
    · trivial
  | storing now found =>
    refine ⟨h.store hstage found, List.mem_cons_self .., ?_⟩
    exact List.forall_mem_cons.mpr
      ⟨fun _ hnone => absurd hnone (Option.some_ne_none found),
        fun f hf hasset _ hall => hstage f hf hasset (Or.inr hall)⟩
  | clearing now found =>
    obtain ⟨hstored, hfailures⟩ := hstage
    refine ⟨h.erase fun hall f hf hasset hnone => ?_, ⟨_, hstored, rfl, rfl, ?_⟩⟩
    · exact ⟨_, hstored, hasset, rfl, hfailures f hf hasset.symm hnone hall⟩
    · rw [sub_self]
      exact Fetch.ttl_pos _
  | failing now =>
    refine ⟨h, ?_⟩
    simp only [next]
    split
    · rename_i hfull
      exact ⟨hstage, fun hall => not_le.mpr (hprune hall) hfull⟩
    · exact ⟨hstage, fun _ => rfl⟩
  | listing now => exact ⟨h, hstage.1, fun hall => absurd hall hstage.2⟩
  | pruning now rest =>
    obtain ⟨hexpired, hnone⟩ := hstage
    cases rest with
    | nil =>
      refine ⟨h.note hexpired, ⟨_, List.mem_cons_self .., rfl, rfl, ?_⟩⟩
      rw [sub_self]
      exact Fetch.ttl_pos _
    | cons item rest =>
      have hpruned : ¬unpruned := fun hall => List.cons_ne_nil item rest (hnone hall)
      have hstage : Expired unpruned m.fetches asset now ∧ (unpruned → rest = []) :=
        ⟨hexpired, fun hall => absurd hall hpruned⟩
      simp only [Stage.next]
      split
      · exact ⟨h.erase fun hall => absurd hall hpruned, hstage⟩
      · exact ⟨h, hstage⟩
  | quoted | unavailable => exact ⟨h, hstage⟩

/-- Only a call that holds its lock ends a fetch. -/
theorem Stage.next_fetches (m : Memory α) (asset : α) (provided : Provided) (stage : Stage α) :
    (stage.next m asset provided).1.fetches = m.fetches ∨ stage.locked = true ∧
      ∃ f, f.asset = asset ∧ (stage.next m asset provided).1.fetches = f :: m.fetches := by
  cases stage with
  | storing => exact Or.inr ⟨rfl, _, rfl, rfl⟩
  | pruning now rest =>
    cases rest with
    | nil => exact Or.inr ⟨rfl, _, rfl, rfl⟩
    | cons item rest =>
      simp only [Stage.next]
      split <;> exact Or.inl rfl
  | _ => exact Or.inl rfl

/-- A step takes no lock. -/
theorem Stage.next_locked (m : Memory α) (asset : α) (provided : Provided) {stage : Stage α}
    (h : (stage.next m asset provided).2.locked = true) : stage.locked = true := by
  cases stage with
  | looking locked now =>
    simp only [next, looked] at h
    split at h
    · cases h
    · exact h
  | recalling locked now =>
    simp only [next, recalled] at h
    split at h
    · cases h
    · rfl
    · cases h
  | waiting | quoted | unavailable | raised => exact h
  | _ => rfl

end

/-! ## Runs -/

/-- What a call answers was found by a fetch that stood when the call read the clock. -/
def Answer.Grounded (maxAge : ℚ) (a : Answer α) : Prop :=
  match a.reply with
  | .price price => ∃ marketTime, a.checkedAt - marketTime ≤ maxAge ∧
      Recent a.fetches a.asset a.readAt (some ⟨price, some marketTime⟩)
  | .stale found => found.executable maxAge a.checkedAt = false ∧
      Recent a.fetches a.asset a.readAt (some found)
  | .mark price stale =>
    (∃ found, price = some found.price ∧
        stale = !found.executable maxAge a.checkedAt ∧
        Recent a.fetches a.asset a.readAt (some found)) ∨
      stale = true ∧ Recent a.fetches a.asset a.readAt none ∧
        ∃ newest, price = newest.map (·.found.price) ∧ IsNewest a.fetches a.asset newest
  | .unavailable => Recent a.fetches a.asset a.readAt none
  | .raised => True

namespace Service

/-- A call inside the `with` block holds its lock. -/
structure CallSound (hash : α → ℤ) (unpruned : Prop) (s : Service α) (thread : ThreadId)
    (call : Call α) : Prop where
  holds : call.stage.locked = true → s.locks (stripe hash call.asset) = some thread
  stage : call.stage.Sound unpruned s.memory.fetches call.asset

/-- The invariant of the threads. -/
structure Inv (hash : α → ℤ) (maxAge : ℚ) (unpruned : Prop) (s : Service α) : Prop where
  memory : s.memory.Sound unpruned
  calls : ∀ t c, s.calls t = some c → s.CallSound hash unpruned t c
  answered : ∀ a ∈ s.answers, a.Grounded maxAge

/-- The failures are too few to be pruned.  A prune also forgets a failure that was renewed after
it had been listed. -/
def Unpruned (s : Service α) (_ : QuoteAct α) : Prop :=
  s.memory.failures.items.length < quoteFailuresPruneAt

variable {hash : α → ℤ} {maxAge : ℚ} {unpruned : Prop} {s s' : Service α}

omit [DecidableEq α] in
/-- After the call of one thread has changed. -/
theorem forall_calls {calls : ThreadId → Option (Call α)} {thread : ThreadId}
    {call? : Option (Call α)} {P : ThreadId → Call α → Prop}
    (hself : ∀ c, call? = some c → P thread c)
    (hother : ∀ t c, t ≠ thread → calls t = some c → P t c) :
    ∀ t c, Function.update calls thread call? t = some c → P t c := by
  intro t c hc
  by_cases ht : t = thread
  · subst ht
    rw [Function.update_self] at hc
    exact hself c hc
  · rw [Function.update_of_ne ht] at hc
    exact hother t c ht hc

/-- Two calls inside the `with` block have different locks. -/
theorem Inv.exclusive (h : s.Inv hash maxAge unpruned) {t u : ThreadId} {c d : Call α}
    (hc : s.calls t = some c) (hd : s.calls u = some d) (hcl : c.stage.locked = true)
    (hdl : d.stage.locked = true) (hsame : stripe hash c.asset = stripe hash d.asset) : t = u := by
  have hlock := (h.calls t c hc).holds hcl
  rw [hsame, (h.calls u d hd).holds hdl] at hlock
  exact (Option.some.inj hlock).symm

theorem Inv.turn (h : s.Inv hash maxAge unpruned) {thread : ThreadId} {call : Call α}
    (hcall : s.calls thread = some call) (provided : Provided)
    (hprune : unpruned → s.memory.failures.items.length < quoteFailuresPruneAt) :
    (s.turn hash thread call (call.stage.next s.memory call.asset provided)).Inv hash maxAge
      unpruned := by
  obtain ⟨hmemory, hstage⟩ :=
    Stage.next_sound h.memory (h.calls thread call hcall).stage provided hprune
  refine ⟨hmemory, forall_calls ?_ fun t c hne hold => ?_, h.answered⟩
  · rintro _ ⟨⟩
    refine ⟨fun hlocked => ?_, hstage⟩
    simp only [Service.turn]
    rw [if_neg (by simp [show Stage.locked _ = true from hlocked])]
    exact (h.calls thread call hcall).holds (Stage.next_locked _ _ _ hlocked)
  · obtain ⟨hholds, hsound⟩ := h.calls t c hold
    constructor
    · intro hlocked
      simp only [Service.turn]
      split
      · rename_i hrelease
        have hother : stripe hash c.asset ≠ stripe hash call.asset := fun hsame =>
          hne (h.exclusive hold hcall hlocked (Bool.and_eq_true_iff.mp hrelease).1 hsame)
        rw [Function.update_of_ne hother]
        exact hholds hlocked
      · exact hholds hlocked
    · show c.stage.Sound unpruned (call.stage.next s.memory call.asset provided).1.fetches c.asset
      rcases Stage.next_fetches s.memory call.asset provided call.stage with
        hsame | ⟨hlocked, f, hasset, hmore⟩
      · rw [hsame]
        exact hsound
      · rw [hmore]
        refine hsound.cons f fun hother heq => hne ?_
        exact h.exclusive hold hcall hother hlocked (by rw [heq, hasset])

theorem Inv.acquire (h : s.Inv hash maxAge unpruned) {thread : ThreadId} {call : Call α}
    (hfree : s.locks (stripe hash call.asset) = none) (clock : ℚ) :
    (s.acquire hash thread call clock).Inv hash maxAge unpruned := by
  refine ⟨h.memory, forall_calls ?_ fun t c _ hold => ⟨fun hlocked => ?_, ?_⟩, h.answered⟩
  · rintro _ ⟨⟩
    exact ⟨fun _ => Function.update_self .., trivial⟩
  · have hlock := (h.calls t c hold).holds hlocked
    have hother : stripe hash c.asset ≠ stripe hash call.asset := fun hsame => by
      rw [hsame, hfree] at hlock
      cases hlock
    simp only [Service.acquire]
    rw [Function.update_of_ne hother]
    exact hlock
  · exact (h.calls t c hold).stage

/-- What a call that ends answers. -/
theorem Inv.grounded (h : s.Inv hash maxAge unpruned) {call : Call α}
    (hstage : call.stage.Sound unpruned s.memory.fetches call.asset) {clock readAt : ℚ}
    {reply : Reply} (hreply : call.reply? maxAge clock s.memory.cache = some (readAt, reply)) :
    Answer.Grounded maxAge ⟨call.asset, reply, readAt, clock, s.memory.fetches⟩ := by
  obtain ⟨asset, mark, stage⟩ := call
  cases stage with
  | quoted now found =>
    cases hreply
    cases mark with
    | true => exact Or.inl ⟨found, rfl, rfl, hstage⟩
    | false =>
      obtain ⟨price, marketTime⟩ := found
      cases hexecutable : Observation.executable maxAge clock ⟨price, marketTime⟩ with
      | false => exact ⟨hexecutable, hstage⟩
      | true =>
        cases marketTime with
        | none => cases hexecutable
        | some marketTime =>
          exact ⟨marketTime, by simpa [Observation.executable] using hexecutable, hstage⟩
  | unavailable now =>
    cases hreply
    cases mark with
    | true => exact Or.inr ⟨rfl, hstage, _, rfl, h.memory.cached asset⟩
    | false => exact hstage
  | raised =>
    cases hreply
    trivial
  | _ => cases hreply

/-- Every step keeps the invariant. -/
theorem Inv.step (h : s.Inv hash maxAge unpruned) {act : QuoteAct α}
    (hprune : unpruned → s.Unpruned act) (hstep : s.step hash maxAge act = some s') :
    s'.Inv hash maxAge unpruned := by
  cases act with
  | call thread asset mark now =>
    obtain ⟨-, hsome⟩ := Option.ite_none_left_eq_some.mp hstep
    cases hsome
    refine ⟨h.memory, forall_calls ?_ fun t c _ hold => ?_, h.answered⟩
    · rintro _ ⟨⟩
      exact ⟨fun hlocked => (by cases hlocked), trivial⟩
    · exact ⟨(h.calls t c hold).holds, (h.calls t c hold).stage⟩
  | advance thread clock provided =>
    obtain ⟨call, hcall, hadvance⟩ := Option.bind_eq_some_iff.mp hstep
    unfold Service.advance at hadvance
    split at hadvance
    · obtain ⟨hfree, hsome⟩ := Option.ite_none_right_eq_some.mp hadvance
      cases hsome
      exact h.acquire hfree clock
    · split at hadvance
      · rename_i reply hreply
        cases hadvance
        refine ⟨h.memory, forall_calls ?_ fun t c _ hold => ?_, ?_⟩
        · rintro _ ⟨⟩
        · exact ⟨(h.calls t c hold).holds, (h.calls t c hold).stage⟩
        · exact List.forall_mem_cons.mpr
            ⟨h.grounded (h.calls thread call hcall).stage hreply, h.answered⟩
      · cases hadvance
        exact h.turn hcall provided hprune

theorem Inv.initial : (Service.initial (α := α)).Inv hash maxAge unpruned where
  memory :=
    ⟨fun _ => List.forall_mem_nil _, nofun, List.Pairwise.nil, fun _ => List.forall_mem_nil _⟩
  calls _ _ hc := by cases hc
  answered := List.forall_mem_nil _

/-- In every run one call at a time is inside the `with` block of an asset; the cache holds the
newest price of every asset; a fetch begins at least `PRICE_CACHE_TTL` after every fetch of its
asset that found a price; and while the failures stay too few to be pruned, at least
`QUOTE_FAILURE_TTL` after every fetch of its asset that found none. -/
theorem quotes_spaced :
    ((quoteMachine hash maxAge).Reachable s →
      (∀ t u c d, s.calls t = some c → s.calls u = some d → c.stage.locked = true →
        d.stage.locked = true → c.asset = d.asset → t = u) ∧
      (∀ asset, IsNewest s.memory.fetches asset (s.memory.cache.get? asset)) ∧
      Spaced False s.memory.fetches) ∧
    ((quoteMachine hash maxAge).ReachableUnder Unpruned s → Spaced True s.memory.fetches) := by
  refine ⟨fun hreach => ?_, fun hreach => ?_⟩
  · have hinv : s.Inv hash maxAge False :=
      hreach.invariant Inv.initial fun _ _ _ hstep h => h.step False.elim hstep
    refine ⟨fun t u c d hc hd hcl hdl hsame => ?_, hinv.memory.cached, hinv.memory.spaced⟩
    exact hinv.exclusive hc hd hcl hdl (congrArg (stripe hash) hsame)
  · have hinv : s.Inv hash maxAge True :=
      hreach.invariant Inv.initial fun _ _ _ hguard hstep h => h.step (fun _ => hguard) hstep
    exact hinv.memory.spaced

/-- In every run each call answers what a fetch of its asset found, and that had not expired when
the call read the clock: an executable price was traded at most the maximal age before, and a mark
falls back, after a fetch without a price, to the newest price there is. -/
theorem answers_grounded (h : (quoteMachine hash maxAge).Reachable s) :
    ∀ a ∈ s.answers, a.Grounded maxAge := by
  have hinv : s.Inv hash maxAge False :=
    h.invariant Inv.initial fun _ _ _ hstep h => h.step False.elim hstep
  exact hinv.answered

/-! ## A run -/

instance (s : Service α) (act : QuoteAct α) : Decidable (s.Unpruned act) :=
  inferInstanceAs (Decidable (_ < _))

/-- Steps of a thread that do not ask the provider. -/
def quietly (thread : ThreadId) (clock : ℚ) (n : ℕ) : List (QuoteAct String) :=
  List.replicate n (.advance thread clock .raised)

/-- A call fetches a price while a second one waits for it; a third one, later, gets no price. -/
def threeCalls : List (QuoteAct String) :=
  [.call 1 "AAPL" false 0, .call 2 "AAPL" true 0] ++ quietly 1 0 2 ++ quietly 2 0 2 ++
    quietly 1 0 3 ++ [.advance 1 0 (.answers (some (⟨341, by norm_num⟩, -5)) none none)] ++
    quietly 1 1 3 ++ quietly 2 1 3 ++ [.call 3 "AAPL" true 30] ++ quietly 3 30 5 ++
    [.advance 3 31 (.answers none none none)] ++ quietly 3 31 3

/-- The machine of the run. -/
def threeMachine : Machine (Service String) (QuoteAct String) :=
  quoteMachine (fun asset => asset.length) 1200

theorem threeCalls_run :
    (threeMachine.execUnder Unpruned threeMachine.init threeCalls).map (fun s =>
      s.answers.map Answer.reply) =
        some [.mark (some ⟨341, by norm_num⟩) true, .mark (some ⟨341, by norm_num⟩) false,
          .price ⟨341, by norm_num⟩] := by
  decide +kernel

theorem quotes_spaced_three :
    ∃ s, threeMachine.execUnder Unpruned threeMachine.init threeCalls = some s ∧
      s.answers.length = 3 ∧ IsNewest s.memory.fetches "AAPL" (s.memory.cache.get? "AAPL") ∧
      Spaced False s.memory.fetches ∧ Spaced True s.memory.fetches := by
  obtain ⟨s, hexec, hreplies⟩ := Option.map_eq_some_iff.mp threeCalls_run
  have hreach := Machine.reachableUnder_of_execUnder hexec
  obtain ⟨hevery, hunpruned⟩ := quotes_spaced (s := s)
  obtain ⟨-, hcached, hspaced⟩ := hevery hreach.reachable
  have hlength : s.answers.length = 3 := by simpa using congrArg List.length hreplies
  exact ⟨s, hexec, hlength, hcached "AAPL", hspaced, hunpruned hreach⟩

theorem answers_grounded_three :
    ∃ s, threeMachine.execUnder Unpruned threeMachine.init threeCalls = some s ∧
      s.answers.length = 3 ∧ ∀ a ∈ s.answers, a.Grounded 1200 := by
  obtain ⟨s, hexec, hreplies⟩ := Option.map_eq_some_iff.mp threeCalls_run
  have hreach := Machine.reachableUnder_of_execUnder hexec
  have hlength : s.answers.length = 3 := by simpa using congrArg List.length hreplies
  exact ⟨s, hexec, hlength, answers_grounded hreach.reachable⟩

end Service

end QuantumSentinel.Quotes
