import Mathlib.Algebra.Order.Floor.Ring
import Mathlib.Algebra.Order.Ring.Rat
import Mathlib.Data.List.Induction
import Mathlib.Data.Rat.Floor
import Mathlib.Tactic.Linarith
import QuantumSentinel.Lib.TimeWindow

/-!
# The login lockout

The brute-force limiter of `auth_service.py`: two maps in the memory of the process, of the
recent failures and of the locks, both kept oldest first and pruned from the front.

Main results:

- Definition `serve`: the calls of the limiter.
- Definition `Account`: a limiter for one key that keeps everything and prunes nothing.
- Theorem `ordered_after`: the maps stay oldest first.
- Theorem `held_is_live`: behind the pruning of a call, nothing is held that no longer matters.
- Theorem `lockout_eq_account`: every answer is that of the account of its key.

Current gaps:

- Arithmetic is exact; a call reads the clock and takes the lock at once.
- `str.lower` is a parameter, and the warning in the log is left out.
-/

namespace QuantumSentinel.Auth
namespace Lockout

open Lib

variable {F : Type*} [Field F] [LinearOrder F]

/-! ## The limiter -/

/-- `_FAIL_WINDOW_SECONDS` -/
def failWindowSeconds : ℕ :=
  900

/-- `_MAX_ATTEMPTS` -/
def maxAttempts : ℕ :=
  5

/-- `_LOCKOUT_SECONDS` -/
def lockoutSeconds : ℕ :=
  900

/-- The maps `_FAIL_ATTEMPTS` and `_LOCKED_UNTIL`. -/
structure LockoutState (F : Type*) where
  failAttempts : Dict String (List F)
  lockedUntil : Dict String F

/-- Empty maps. -/
def LockoutState.fresh : LockoutState F where
  failAttempts := Dict.empty
  lockedUntil := Dict.empty

/-- `_rate_key` -/
def rateKey (lower : String → String) (email : String) (ip : Option String) : String :=
  lower email ++ ":" ++
    match ip with
    | none => "unknown"
    | some ip => if ip = "" then "unknown" else ip

/-- `now - t < _FAIL_WINDOW_SECONDS` -/
def recent (now t : F) : Bool :=
  decide (now - t < failWindowSeconds)

/-- `_expire_lockout_state` -/
def expireLockoutState (now : F) (s : LockoutState F) : LockoutState F where
  failAttempts := s.failAttempts.popFront (lapsed (recent now))
  lockedUntil := s.lockedUntil.popFront fun expiry => !decide (now < expiry)

/-- `_recent_failures`: the failures, and the state that is left. -/
def recentFailures (key : String) (now : F) (s : LockoutState F) : List F × LockoutState F :=
  let times := ((s.failAttempts.get? key).getD []).filter (recent now)
  if times ≠ [] then (times, { s with failAttempts := s.failAttempts.set key times })
  else (times, { s with failAttempts := s.failAttempts.erase key })

/-- `check_rate_limit`; `int` cuts a positive number. -/
def checkRateLimit [FloorRing F] (key : String) (now : F) (s : LockoutState F) :
    (Bool × ℤ) × LockoutState F :=
  let s := expireLockoutState now s
  let lockedUntil := (s.lockedUntil.get? key).getD 0
  if now < lockedUntil then ((true, ⌊lockedUntil - now⌋), s)
  else ((false, 0), (recentFailures key now s).2)

/-- `record_failed_attempt` -/
def recordFailedAttempt (key : String) (now : F) (s : LockoutState F) :
    Option ℕ × LockoutState F :=
  let s := expireLockoutState now s
  let (kept, s) := recentFailures key now s
  let times := kept ++ [now]
  let failAttempts := (s.failAttempts.set key times).moveToEnd key
  let count := times.length
  if maxAttempts ≤ count then
    (some lockoutSeconds,
      { failAttempts := failAttempts.erase key
        lockedUntil := (s.lockedUntil.set key (now + lockoutSeconds)).moveToEnd key })
  else (none, { s with failAttempts := failAttempts })

/-- `clear_failed_attempts` -/
def clearFailedAttempts (key : String) (s : LockoutState F) : LockoutState F where
  failAttempts := s.failAttempts.erase key
  lockedUntil := s.lockedUntil.erase key

/-- The functions of the limiter. -/
inductive Operation
  | checkRateLimit
  | recordFailedAttempt
  | clearFailedAttempts
deriving DecidableEq

/-- A call, with the clock at its time. -/
structure Call (F : Type*) where
  operation : Operation
  email : String
  ip : Option String
  now : F

/-- What a call returns. -/
inductive Answer
  | check (isLocked : Bool) (retryAfterSeconds : ℤ)
  | record (lockout : Option ℕ)
  | clear
deriving DecidableEq

/-- The key of a call. -/
def Call.key (lower : String → String) (call : Call F) : String :=
  rateKey lower call.email call.ip

section Serve

variable [FloorRing F] (lower : String → String)

/-- A call to the limiter. -/
def serve (s : LockoutState F) (call : Call F) : Answer × LockoutState F :=
  match call.operation with
  | .checkRateLimit =>
    let r := checkRateLimit (call.key lower) call.now s
    (.check r.1.1 r.1.2, r.2)
  | .recordFailedAttempt =>
    let r := recordFailedAttempt (call.key lower) call.now s
    (.record r.1, r.2)
  | .clearFailedAttempts => (.clear, clearFailedAttempts (call.key lower) s)

/-- The state after some calls. -/
def servedAfter (calls : List (Call F)) : LockoutState F :=
  calls.foldl (fun s call => (serve lower s call).2) .fresh

end Serve

/-- The clock reads seconds since the epoch and never goes back. -/
def Clocked (calls : List (Call F)) : Prop :=
  (0 :: calls.map Call.now).Pairwise (· ≤ ·)

instance (calls : List (Call F)) : Decidable (Clocked calls) :=
  inferInstanceAs (Decidable (List.Pairwise _ _))

/-! ## The account of one key -/

/-- What is known of one key: all failures since it was last cleared or locked, and the lock. -/
structure Account (F : Type*) where
  failures : List F
  lock : Option F

namespace Account

/-- Nothing is known. -/
def fresh : Account F where
  failures := []
  lock := none

variable [FloorRing F]

/-- A call on the account: locked until the lockout is over, and locked by the failure that makes it
the fifth within the window. -/
def serve (a : Account F) (operation : Operation) (now : F) : Answer × Account F :=
  match operation with
  | .checkRateLimit =>
    match a.lock with
    | none => (.check false 0, a)
    | some expiry =>
      if now < expiry then (.check true ⌊expiry - now⌋, a) else (.check false 0, a)
  | .recordFailedAttempt =>
    let failures := a.failures ++ [now]
    if maxAttempts ≤ (failures.filter (recent now)).length then
      (.record (some lockoutSeconds), ⟨[], some (now + lockoutSeconds)⟩)
    else (.record none, ⟨failures, a.lock⟩)
  | .clearFailedAttempts => (.clear, fresh)

/-- The account of a key after the calls on this key, whatever other calls there were. -/
def after (lower : String → String) (key : String) (calls : List (Call F)) : Account F :=
  (calls.filter fun call => call.key lower = key).foldl
    (fun a call => (a.serve call.operation call.now).2) fresh

end Account

/-! ## Clocks -/

section Clock

theorem clocked_append {calls : List (Call F)} {call : Call F} (h : Clocked (calls ++ [call])) :
    Clocked calls ∧ 0 ≤ call.now ∧ ∀ c ∈ calls, c.now ≤ call.now := by
  rw [Clocked, List.map_append, ← List.cons_append, List.pairwise_append] at h
  obtain ⟨hcalls, -, hlast⟩ := h
  refine ⟨hcalls, hlast 0 List.mem_cons_self call.now (List.mem_singleton.mpr rfl), ?_⟩
  intro c hc
  exact hlast c.now (List.mem_cons_of_mem _ (List.mem_map_of_mem hc)) call.now
    (List.mem_singleton.mpr rfl)

/-- The reading of the clock at the last call. -/
def lastReading (calls : List (Call F)) : F :=
  ((calls.map Call.now).getLast?).getD 0

omit [LinearOrder F] in
theorem lastReading_append (calls : List (Call F)) (call : Call F) :
    lastReading (calls ++ [call]) = call.now := by
  rw [lastReading, List.map_append, List.map_singleton, List.getLast?_concat, Option.getD_some]

theorem lastReading_le {calls : List (Call F)} {call : Call F} (h : Clocked (calls ++ [call])) :
    lastReading calls ≤ call.now := by
  obtain ⟨-, hzero, hle⟩ := clocked_append h
  rw [lastReading]
  cases hlast : (calls.map Call.now).getLast? with
  | none => exact hzero
  | some t =>
    obtain ⟨c, hc, rfl⟩ := List.mem_map.mp (List.mem_of_getLast? hlast)
    exact hle c hc

end Clock

/-! ## Recent failures -/

section Recent

variable [IsStrictOrderedRing F]

/-- A failure after a recent one is recent. -/
theorem recent_monotone (now : F) : Monotone (recent now) := by
  intro x y hle
  rw [Bool.le_iff_imp, recent, recent, decide_eq_true_iff, decide_eq_true_iff]
  intro hx
  linarith

/-- What is recent later is recent now. -/
theorem recent_of_later {t t' x : F} (hle : t ≤ t') (h : recent t' x = true) :
    recent t x = true := by
  rw [recent, decide_eq_true_iff] at h ⊢
  linarith

theorem recent_self (t : F) : recent t t = true := by
  rw [recent, decide_eq_true_iff, sub_self, failWindowSeconds]
  norm_num

end Recent

/-! ## The order of the maps -/

/-- Both maps are oldest first, and what they hold lies in the past. -/
structure Ordered (s : LockoutState F) (t : F) : Prop where
  attempts : Windows s.failAttempts t
  expiries : ∀ item ∈ s.lockedUntil.items, item.2 ≤ t + lockoutSeconds
  locks : s.lockedUntil.OldestFirst id

theorem ordered_fresh (t : F) : Ordered .fresh t where
  attempts := Windows.empty t
  expiries item hitem := by cases hitem
  locks := Dict.OldestFirst.empty

section Order

variable {s : LockoutState F} {t now : F}

theorem Ordered.later [IsStrictOrderedRing F] {t' : F} (h : Ordered s t) (hle : t ≤ t') :
    Ordered s t' where
  attempts := h.attempts.later hle
  expiries item hitem := (h.expiries item hitem).trans (add_le_add_left hle _)
  locks := h.locks

theorem Ordered.expire (h : Ordered s t) (now : F) : Ordered (expireLockoutState now s) t where
  attempts := h.attempts.popFront _
  expiries item hitem := h.expiries item (Dict.mem_of_mem_popFront hitem)
  locks := h.locks.popFront _

theorem Ordered.keepRecent [IsStrictOrderedRing F] (h : Ordered s t) (key : String) (now : F) :
    Ordered (recentFailures key now s).2 t := by
  rw [recentFailures]
  split
  · rename_i hsome
    cases hget : s.failAttempts.get? key with
    | none =>
      rw [hget] at hsome
      exact absurd rfl hsome
    | some times =>
      rw [hget, Option.getD_some] at hsome
      rw [Option.getD_some]
      exact ⟨h.attempts.set_filter (recent_monotone now) hget hsome, h.expiries, h.locks⟩
  · exact ⟨h.attempts.erase key, h.expiries, h.locks⟩

theorem recentFailures_fst (key : String) (now : F) (s : LockoutState F) :
    (recentFailures key now s).1 = ((s.failAttempts.get? key).getD []).filter (recent now) := by
  rw [recentFailures]
  split <;> rfl

theorem recentFailures_lockedUntil (key : String) (now : F) (s : LockoutState F) :
    (recentFailures key now s).2.lockedUntil = s.lockedUntil := by
  rw [recentFailures]
  split <;> rfl

theorem Ordered.recordFailure [IsStrictOrderedRing F] (h : Ordered s now) (key : String) :
    Ordered (recordFailedAttempt key now s).2 now := by
  have hkept := (h.expire now).keepRecent key now
  have hfailures : (recentFailures key now (expireLockoutState now s)).1.Pairwise (· ≤ ·) ∧
      ∀ x ∈ (recentFailures key now (expireLockoutState now s)).1, x ≤ now := by
    rw [recentFailures_fst]
    obtain ⟨hasc, hpast⟩ := (h.expire now).attempts.stored key
    exact ⟨hasc.filter _, fun x hx => hpast x (List.mem_of_mem_filter hx)⟩
  rw [recordFailedAttempt]
  simp only
  generalize recentFailures key now (expireLockoutState now s) = kept at hkept hfailures ⊢
  have hattempts := hkept.attempts.moved key hfailures.1 hfailures.2
  split
  · refine ⟨hattempts.erase key, fun item hitem => ?_, hkept.locks.moved hkept.expiries⟩
    rcases Dict.mem_set (Dict.mem_moveToEnd.mp hitem) with rfl | hold
    · exact le_rfl
    · exact hkept.expiries item hold
  · exact ⟨hattempts, hkept.expiries, hkept.locks⟩

theorem Ordered.clear (h : Ordered s t) (key : String) : Ordered (clearFailedAttempts key s) t where
  attempts := h.attempts.erase key
  expiries item hitem := h.expiries item (Dict.mem_of_mem_erase hitem)
  locks := h.locks.erase key

theorem Ordered.serve [IsStrictOrderedRing F] [FloorRing F] {lower : String → String}
    {call : Call F} (h : Ordered s call.now) : Ordered (serve lower s call).2 call.now := by
  rw [Lockout.serve]
  cases call.operation with
  | checkRateLimit =>
    simp only [checkRateLimit]
    split
    · exact h.expire call.now
    · exact (h.expire call.now).keepRecent _ _
  | recordFailedAttempt => exact h.recordFailure _
  | clearFailedAttempts => exact h.clear _

/-- The maps stay oldest first. -/
theorem ordered_after [IsStrictOrderedRing F] [FloorRing F] (lower : String → String)
    {calls : List (Call F)} (h : Clocked calls) :
    Ordered (servedAfter lower calls) (lastReading calls) := by
  induction calls using List.reverseRecOn with
  | nil => exact ordered_fresh _
  | append_singleton calls call ih =>
    rw [servedAfter, List.foldl_append, lastReading_append]
    exact ((ih (clocked_append h).1).later (lastReading_le h)).serve

/-- Behind the pruning of a call, nothing is held that no longer matters. -/
theorem held_is_live [IsStrictOrderedRing F] [FloorRing F] (lower : String → String)
    {calls : List (Call F)} {call : Call F} (h : Clocked (calls ++ [call])) :
    (∀ item ∈ (expireLockoutState call.now (servedAfter lower calls)).failAttempts.items,
      call.now - latest item.2 < failWindowSeconds) ∧
    ∀ item ∈ (expireLockoutState call.now (servedAfter lower calls)).lockedUntil.items,
      call.now < item.2 := by
  have hordered := ordered_after lower (clocked_append h).1
  constructor
  · intro item hitem
    have hlive := hordered.attempts.live_popFront (recent_monotone call.now) item hitem
    rwa [recent, decide_eq_true_iff] at hlive
  · intro item hitem
    have hlive := hordered.locks.live_popFront (fun expiry => !decide (call.now < expiry))
      (fun a _ b _ hle hdead => ?_) item hitem
    · rwa [Bool.not_eq_false', decide_eq_true_iff] at hlive
    · rw [Bool.not_eq_true', decide_eq_false_iff_not, not_lt] at hdead ⊢
      exact hle.trans hdead

end Order

/-! ## The accounts -/

/-- The state knows of a key what its account knows, as far as it still matters. -/
structure Agrees (s : LockoutState F) (t : F) (key : String) (a : Account F) : Prop where
  failures : ((s.failAttempts.get? key).getD []).filter (recent t) = a.failures.filter (recent t)
  lock : ((s.lockedUntil.get? key).filter fun expiry => t < expiry) =
    a.lock.filter fun expiry => t < expiry

theorem agrees_fresh (t : F) (key : String) : Agrees .fresh t key .fresh where
  failures := rfl
  lock := rfl

section Agreement

variable [IsStrictOrderedRing F] {s : LockoutState F} {t now : F} {key : String} {a : Account F}

omit [Field F] [IsStrictOrderedRing F] in
/-- A lock that is over stays over. -/
theorem filter_lock_later {o o' : Option F} {t' : F} (hle : t ≤ t')
    (h : (o.filter fun expiry => t < expiry) = o'.filter fun expiry => t < expiry) :
    (o.filter fun expiry => t' < expiry) = o'.filter fun expiry => t' < expiry := by
  have hnarrow : ∀ o : Option F, ((o.filter fun expiry => t < expiry).filter fun expiry =>
      t' < expiry) = o.filter fun expiry => t' < expiry := by
    intro o
    cases o with
    | none => rfl
    | some expiry =>
      by_cases hlater : t' < expiry
      · simp [Option.filter, hlater, lt_of_le_of_lt hle hlater]
      · by_cases hearlier : t < expiry <;> simp [Option.filter, hlater, hearlier]
  rw [← hnarrow o, h, hnarrow o']

theorem Agrees.later {t' : F} (h : Agrees s t key a) (hle : t ≤ t') : Agrees s t' key a where
  failures := filter_later (fun _ => recent_of_later hle) h.failures
  lock := filter_lock_later hle h.lock

/-- Pruning changes nothing that matters, under any key. -/
theorem Agrees.expire (h : Agrees s now key a) (hordered : Ordered s now) :
    Agrees (expireLockoutState now s) now key a where
  failures := by
    rw [← h.failures]
    exact hordered.attempts.filter_popFront (recent_monotone now) key
  lock := by
    rw [← h.lock]
    refine Dict.read_popFront s.lockedUntil key (fun o => o.filter fun expiry => now < expiry) ?_
    intro expiry _ hover
    rw [Bool.not_eq_true', decide_eq_false_iff_not] at hover
    simp [Option.filter, hover]

omit [IsStrictOrderedRing F] in
/-- What `_recent_failures` leaves under each key. -/
theorem get?_recentFailures (key k : String) (now : F) (s : LockoutState F) :
    ((recentFailures key now s).2.failAttempts.get? k).getD [] =
      if k = key then (recentFailures key now s).1 else (s.failAttempts.get? k).getD [] := by
  rw [recentFailures_fst, recentFailures]
  split
  · rw [Dict.get?_set]
    split <;> rfl
  · rename_i hnone
    rw [not_not] at hnone
    rw [Dict.get?_erase, hnone]
    split <;> rfl

omit [IsStrictOrderedRing F] in
theorem Agrees.keepRecent (h : Agrees s now key a) (other : String) :
    Agrees (recentFailures other now s).2 now key a where
  failures := by
    rw [get?_recentFailures, recentFailures_fst, ← h.failures]
    split
    · rename_i hkey
      rw [hkey, List.filter_filter]
      simp only [Bool.and_self]
    · rfl
  lock := by
    rw [recentFailures_lockedUntil]
    exact h.lock

theorem Agrees.check [FloorRing F] (h : Agrees s now key a) (hordered : Ordered s now)
    (other : String) : Agrees (checkRateLimit other now s).2 now key a := by
  rw [checkRateLimit]
  split
  · exact h.expire hordered
  · exact (h.expire hordered).keepRecent other

/-- The answer to a check, read from the lock as far as it still matters. -/
def lockAnswer [FloorRing F] (now : F) : Option F → Answer
  | none => .check false 0
  | some expiry => .check true ⌊expiry - now⌋

/-- A check answers from the lock of the account. -/
theorem check_eq [FloorRing F] (h : Agrees s now key a) (hordered : Ordered s now)
    (hepoch : 0 ≤ now) :
    Answer.check (checkRateLimit key now s).1.1 (checkRateLimit key now s).1.2 =
      (a.serve .checkRateLimit now).1 := by
  have hcode : Answer.check (checkRateLimit key now s).1.1 (checkRateLimit key now s).1.2 =
      lockAnswer now (((expireLockoutState now s).lockedUntil.get? key).filter fun expiry =>
        now < expiry) := by
    rw [checkRateLimit]
    cases (expireLockoutState now s).lockedUntil.get? key with
    | none =>
      rw [Option.getD_none, if_neg (not_lt.mpr hepoch)]
      rfl
    | some expiry => by_cases hlocked : now < expiry <;> simp [Option.filter, lockAnswer, hlocked]
  have haccount : (a.serve .checkRateLimit now).1 =
      lockAnswer now (a.lock.filter fun expiry => now < expiry) := by
    rw [Account.serve]
    cases a.lock with
    | none => rfl
    | some expiry => by_cases hlocked : now < expiry <;> simp [Option.filter, lockAnswer, hlocked]
  rw [hcode, haccount, (h.expire hordered).lock]

/-- The failures that are counted are the recent ones of the account. -/
theorem counted_eq (h : Agrees s now key a) (hordered : Ordered s now) :
    (recentFailures key now (expireLockoutState now s)).1 ++ [now] =
      (a.failures ++ [now]).filter (recent now) := by
  rw [recentFailures_fst, (h.expire hordered).failures, List.filter_append, List.filter_singleton,
    recent_self]
  rfl

/-- A failure is answered and recorded as the account does. -/
theorem record_eq [FloorRing F] (h : Agrees s now key a) (hordered : Ordered s now) :
    Answer.record (recordFailedAttempt key now s).1 = (a.serve .recordFailedAttempt now).1 ∧
      Agrees (recordFailedAttempt key now s).2 now key (a.serve .recordFailedAttempt now).2 := by
  have hcounted := counted_eq h hordered
  have hkept := (h.expire hordered).keepRecent key
  rw [recordFailedAttempt, Account.serve]
  simp only
  generalize recentFailures key now (expireLockoutState now s) = kept at hcounted hkept ⊢
  rw [hcounted]
  split
  · refine ⟨rfl, ?_, ?_⟩
    · rw [Dict.get?_erase_self]
      rfl
    · rw [Dict.get?_moveToEnd, Dict.get?_set_self]
  · refine ⟨rfl, ?_, hkept.lock⟩
    rw [Dict.get?_moveToEnd, Dict.get?_set_self, Option.getD_some, List.filter_filter]
    simp only [Bool.and_self]

/-- A failure under one key changes nothing under another. -/
theorem Agrees.record_ne (h : Agrees s now key a) (hordered : Ordered s now) {other : String}
    (hne : key ≠ other) : Agrees (recordFailedAttempt other now s).2 now key a := by
  have hkept := (h.expire hordered).keepRecent other
  rw [recordFailedAttempt]
  simp only
  generalize recentFailures other now (expireLockoutState now s) = kept at hkept ⊢
  split
  · refine ⟨?_, ?_⟩
    · rw [Dict.get?_erase_ne _ hne, Dict.get?_moveToEnd, Dict.get?_set_ne _ _ hne]
      exact hkept.failures
    · rw [Dict.get?_moveToEnd, Dict.get?_set_ne _ _ hne]
      exact hkept.lock
  · refine ⟨?_, hkept.lock⟩
    rw [Dict.get?_moveToEnd, Dict.get?_set_ne _ _ hne]
    exact hkept.failures

/-- A call on a key is answered as its account does, and leaves what its account leaves. -/
theorem serve_eq [FloorRing F] {lower : String → String} {call : Call F}
    (h : Agrees s call.now (call.key lower) a) (hordered : Ordered s call.now)
    (hepoch : 0 ≤ call.now) :
    (serve lower s call).1 = (a.serve call.operation call.now).1 ∧
      Agrees (serve lower s call).2 call.now (call.key lower)
        (a.serve call.operation call.now).2 := by
  rw [serve]
  cases call.operation with
  | checkRateLimit =>
    refine ⟨check_eq h hordered hepoch, ?_⟩
    have hsame : (a.serve .checkRateLimit call.now).2 = a := by
      rw [Account.serve]
      cases hlock : a.lock with
      | none => rfl
      | some expiry => by_cases hlocked : call.now < expiry <;> simp [hlocked]
    rw [hsame]
    exact h.check hordered _
  | recordFailedAttempt => exact record_eq h hordered
  | clearFailedAttempts =>
    refine ⟨rfl, ?_, ?_⟩
    · rw [clearFailedAttempts, Dict.get?_erase_self]
      rfl
    · rw [clearFailedAttempts, Dict.get?_erase_self]
      rfl

/-- A call on another key changes nothing. -/
theorem Agrees.serve_ne [FloorRing F] {lower : String → String} {call : Call F}
    (h : Agrees s call.now key a) (hordered : Ordered s call.now) (hne : key ≠ call.key lower) :
    Agrees (serve lower s call).2 call.now key a := by
  rw [serve]
  cases call.operation with
  | checkRateLimit => exact h.check hordered _
  | recordFailedAttempt => exact h.record_ne hordered hne
  | clearFailedAttempts =>
    refine ⟨?_, ?_⟩
    · rw [clearFailedAttempts, Dict.get?_erase_ne _ hne]
      exact h.failures
    · rw [clearFailedAttempts, Dict.get?_erase_ne _ hne]
      exact h.lock

end Agreement

section Refinement

variable [IsStrictOrderedRing F] [FloorRing F] (lower : String → String)

omit [IsStrictOrderedRing F] in
theorem account_append (key : String) (calls : List (Call F)) (call : Call F) :
    Account.after lower key (calls ++ [call]) =
      if call.key lower = key
      then ((Account.after lower key calls).serve call.operation call.now).2
      else Account.after lower key calls := by
  rw [Account.after, List.filter_append, List.foldl_append, List.filter_singleton]
  by_cases hkey : call.key lower = key
  · rw [if_pos hkey, decide_eq_true hkey]
    rfl
  · rw [if_neg hkey, decide_eq_false hkey]
    rfl

/-- After every sequence of calls the state knows of every key what its account knows. -/
theorem agrees_after {calls : List (Call F)} (h : Clocked calls) (key : String) :
    Agrees (servedAfter lower calls) (lastReading calls) key (Account.after lower key calls) := by
  induction calls using List.reverseRecOn with
  | nil => exact agrees_fresh _ key
  | append_singleton calls call ih =>
    have hcalls := (clocked_append h).1
    have hordered := (ordered_after lower hcalls).later (lastReading_le h)
    have hagrees := (ih hcalls).later (lastReading_le h)
    rw [servedAfter, List.foldl_append, lastReading_append, account_append]
    split
    · rename_i hkey
      rw [← hkey] at hagrees ⊢
      exact (serve_eq hagrees hordered (clocked_append h).2.1).2
    · rename_i hkey
      exact hagrees.serve_ne hordered (Ne.symm hkey)

/-- For every sequence of calls, every answer is that of the account of its key. -/
theorem lockout_eq_account {calls : List (Call F)} {call : Call F}
    (h : Clocked (calls ++ [call])) :
    (serve lower (servedAfter lower calls) call).1 =
      ((Account.after lower (call.key lower) calls).serve call.operation call.now).1 := by
  have hcalls := (clocked_append h).1
  exact (serve_eq ((agrees_after lower hcalls _).later (lastReading_le h))
    ((ordered_after lower hcalls).later (lastReading_le h)) (clocked_append h).2.1).1

end Refinement

/-- Five failures of one key within a minute, and one of another. -/
def fiveFailures : List (Call ℚ) :=
  [⟨.recordFailedAttempt, "a@qs.dev", some "10.0.0.9", 0⟩,
    ⟨.recordFailedAttempt, "a@qs.dev", some "10.0.0.9", 10⟩,
    ⟨.recordFailedAttempt, "b@qs.dev", none, 15⟩,
    ⟨.recordFailedAttempt, "a@qs.dev", some "10.0.0.9", 20⟩,
    ⟨.recordFailedAttempt, "a@qs.dev", some "10.0.0.9", 30⟩,
    ⟨.recordFailedAttempt, "a@qs.dev", some "10.0.0.9", 40⟩]

theorem lockout_eq_account_fiveFailures :
    (serve String.toLower (servedAfter String.toLower fiveFailures)
        ⟨.checkRateLimit, "a@qs.dev", some "10.0.0.9", 939⟩).1 =
      ((Account.after String.toLower (rateKey String.toLower "a@qs.dev" (some "10.0.0.9"))
        fiveFailures).serve .checkRateLimit 939).1 :=
  lockout_eq_account String.toLower
    (by decide +kernel : Clocked (fiveFailures ++
      [⟨.checkRateLimit, "a@qs.dev", some "10.0.0.9", 939⟩]))

theorem held_is_live_fiveFailures :
    (∀ item ∈ (expireLockoutState 930 (servedAfter String.toLower fiveFailures)).failAttempts.items,
      930 - latest item.2 < failWindowSeconds) ∧
    ∀ item ∈ (expireLockoutState 930 (servedAfter String.toLower fiveFailures)).lockedUntil.items,
      930 < item.2 :=
  @held_is_live ℚ _ _ _ _ String.toLower fiveFailures ⟨.checkRateLimit, "b@qs.dev", none, 930⟩
    (by decide +kernel)

example :
    (serve id (servedAfter id fiveFailures)
      ⟨.checkRateLimit, "a@qs.dev", some "10.0.0.9", 939⟩).1 = .check true 1 := by
  decide +kernel

end Lockout
end QuantumSentinel.Auth
