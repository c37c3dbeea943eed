import Mathlib.Algebra.Order.Field.Basic
import Mathlib.Algebra.Order.Ring.Rat
import Mathlib.Data.List.Dedup
import Mathlib.Data.List.Induction
import Mathlib.Tactic.Linarith
import QuantumSentinel.Lib.TimeWindow

/-!
# The request limiter

The middleware of `main.py` counts the requests of a key in the last minute: `_rate_window`
and the part of `SecurityHeadersAndRateLimit.__call__` in front of the application, for a
process without Redis.

Main results:

- Definition `rateLimit`: a request.
- Theorem `Tracks.length_pruned_le`: behind the pruning of a request, no other key is held than those
  with a request in the last minute.
- Theorem `count_eq_sliding_window`: the count of a request is one more than the number of
  earlier requests of its key in the last minute.

Current gaps:

- Arithmetic is exact; how a request gets its principal is not modelled, nor what follows behind the
  limit.
-/

namespace QuantumSentinel.Api

open Lib

variable {F : Type*} [Field F] [LinearOrder F]

/-! ## The limiter -/

/-- `_RATE_WINDOW_SECONDS` -/
def rateWindowSeconds : ℕ :=
  60

/-- `_RATE_MAX_KEYS` -/
def rateMaxKeys : ℕ :=
  20000

/-- The map `_request_windows`. -/
abbrev RequestWindows (F : Type*) := Dict String (List F)

/-- `now - t <= _RATE_WINDOW_SECONDS` -/
def inWindow (now t : F) : Bool :=
  decide (now - t ≤ rateWindowSeconds)

/-- `_rate_window`: the bucket of a key, and the map. -/
def rateWindow (key : String) (now : F) (windows : RequestWindows F) :
    List F × RequestWindows F :=
  let windows := windows.popFront (lapsed (inWindow now))
  match windows.get? key with
  | none =>
    let windows := if rateMaxKeys ≤ windows.items.length then windows.popOldest else windows
    ([], windows.set key [])
  | some window => (window, windows.moveToEnd key)

/-- A request, with the clock at its time. -/
structure Request (F : Type*) where
  principal : String
  path : String
  now : F

/-- The key of a request. -/
def Request.key (r : Request F) : String :=
  r.principal ++ ":" ++ r.path

/-- The number of requests a minute that are let through. -/
def limit (path : String) : ℕ :=
  if path.startsWith "/api/auth/" then 10 else 240

/-- The response to a request beyond the limit. -/
structure Refusal where
  detail : String
  statusCode : ℕ
  retryAfter : String
deriving DecidableEq

/-- The `JSONResponse` of the limiter. -/
def rateLimitExceeded : Refusal where
  detail := "Rate limit exceeded"
  statusCode := 429
  retryAfter := "60"

/-- What the limiter finds. -/
structure Verdict where
  current : ℕ
  refusal : Option Refusal

/-- `__call__` in front of the application; a refused request is counted like any other. -/
def rateLimit (windows : RequestWindows F) (r : Request F) : Verdict × RequestWindows F :=
  let (window, windows) := rateWindow r.key r.now windows
  let window := window.dropWhile fun t => rateWindowSeconds < r.now - t
  let current := window.length + 1
  let windows := windows.set r.key (window ++ [r.now])
  (⟨current, if limit r.path < current then some rateLimitExceeded else none⟩, windows)

/-- The map after some requests. -/
def windowsAfter (requests : List (Request F)) : RequestWindows F :=
  requests.foldl (fun windows r => (rateLimit windows r).2) Dict.empty

/-! ## The sliding window -/

/-- The clock never goes back. -/
def Clocked (requests : List (Request F)) : Prop :=
  (requests.map Request.now).Pairwise (· ≤ ·)

instance (requests : List (Request F)) : Decidable (Clocked requests) :=
  inferInstanceAs (Decidable (List.Pairwise _ _))

/-- The keys with a request in the last minute. -/
def liveKeys (earlier : List (Request F)) (now : F) : List String :=
  ((earlier.filter fun q => inWindow now q.now).map Request.key).dedup

/-- At each request fewer keys are live than the map may hold. -/
def BelowCapacity (requests : List (Request F)) : Prop :=
  ∀ earlier r, earlier ++ [r] <+: requests → (liveKeys earlier r.now).length < rateMaxKeys

/-- The earlier requests of the same key in the last minute. -/
def recentRequests (earlier : List (Request F)) (r : Request F) : ℕ :=
  earlier.countP fun q => q.key = r.key ∧ r.now - q.now ≤ rateWindowSeconds

/-- The times of the requests of a key. -/
def timesOf (key : String) (requests : List (Request F)) : List F :=
  (requests.filter fun q => q.key = key).map Request.now

section Window

variable [IsStrictOrderedRing F]

/-- A request after one in the window is in the window. -/
theorem inWindow_monotone (now : F) : Monotone (inWindow now) := by
  intro x y hle
  rw [Bool.le_iff_imp, inWindow, inWindow, decide_eq_true_iff, decide_eq_true_iff]
  intro hx
  linarith

/-- What is in the window later is in the window now. -/
theorem inWindow_of_later {t t' x : F} (hle : t ≤ t') (h : inWindow t' x = true) :
    inWindow t x = true := by
  rw [inWindow, decide_eq_true_iff] at h ⊢
  linarith

end Window

/-! ## The map after a run -/

/-- The map holds, for every key, the requests of the key as far as they still matter. -/
structure Tracks (windows : RequestWindows F) (t : F) (requests : List (Request F)) : Prop where
  ordered : Windows windows t
  counts : ∀ key, ((windows.get? key).getD []).filter (inWindow t) =
    (timesOf key requests).filter (inWindow t)

theorem tracks_empty (t : F) : Tracks (Dict.empty : RequestWindows F) t [] where
  ordered := Windows.empty t
  counts _ := rfl

section Track

variable [IsStrictOrderedRing F] {windows : RequestWindows F} {t now : F}
  {requests : List (Request F)}

theorem Tracks.later {t' : F} (h : Tracks windows t requests) (hle : t ≤ t') :
    Tracks windows t' requests where
  ordered := h.ordered.later hle
  counts key := filter_later (fun _ => inWindow_of_later hle) (h.counts key)

/-- Pruning changes nothing that matters. -/
theorem Tracks.prune (h : Tracks windows now requests) :
    Tracks (windows.popFront (lapsed (inWindow now))) now requests where
  ordered := h.ordered.popFront _
  counts key := by rw [h.ordered.filter_popFront (inWindow_monotone now), h.counts key]

/-- Behind the pruning, no other key is held than those with a request in the last minute. -/
theorem Tracks.length_pruned_le (h : Tracks windows now requests) :
    (windows.popFront (lapsed (inWindow now))).items.length ≤ (liveKeys requests now).length := by
  have hsub : (windows.popFront (lapsed (inWindow now))).keys ⊆ liveKeys requests now := by
    intro key hkey
    obtain ⟨item, hitem, rfl⟩ := List.mem_map.mp hkey
    have hlive := h.ordered.live_popFront (inWindow_monotone now) item hitem
    obtain ⟨hsome, -, -⟩ := h.prune.ordered.times item hitem
    have hlatest : latest item.2 ∈ item.2 := by
      rw [latest, List.getLast?_eq_some_getLast hsome, Option.getD_some]
      exact List.getLast_mem hsome
    have hcount : latest item.2 ∈ (timesOf item.1 requests).filter (inWindow now) := by
      rw [← h.prune.counts item.1, Dict.get?_eq_some_iff.mpr hitem, Option.getD_some]
      exact List.mem_filter.mpr ⟨hlatest, hlive⟩
    obtain ⟨q, hq, hnow⟩ := List.mem_map.mp (List.mem_of_mem_filter hcount)
    obtain ⟨hq, hqkey⟩ := List.mem_filter.mp hq
    rw [decide_eq_true_iff] at hqkey
    rw [liveKeys, List.mem_dedup, List.mem_map]
    refine ⟨q, List.mem_filter.mpr ⟨hq, ?_⟩, hqkey⟩
    rw [hnow]
    exact hlive
  have hlength := (windows.popFront (lapsed (inWindow now))).nodup.length_le_of_subset hsub
  rwa [List.length_map] at hlength

/-- Nothing is evicted: the bucket is that of the map behind the pruning, and an assignment to it
moves its key to the end. -/
theorem rateWindow_eq (h : Tracks windows now requests)
    (hcapacity : (liveKeys requests now).length < rateMaxKeys) (key : String) :
    (rateWindow key now windows).1 =
        ((windows.popFront (lapsed (inWindow now))).get? key).getD [] ∧
      ∀ window, (rateWindow key now windows).2.set key window =
        ((windows.popFront (lapsed (inWindow now))).set key window).moveToEnd key := by
  have hroom : ¬ rateMaxKeys ≤ (windows.popFront (lapsed (inWindow now))).items.length :=
    not_le.mpr (lt_of_le_of_lt h.length_pruned_le hcapacity)
  rw [rateWindow]
  cases hget : (windows.popFront (lapsed (inWindow now))).get? key with
  | none =>
    simp only [if_neg hroom]
    exact ⟨rfl, fun window => Dict.set_set_new hget [] window⟩
  | some bucket =>
    exact ⟨rfl, fun window => Dict.set_moveToEnd hget window⟩

/-- The bucket of a request is trimmed to the times in the window. -/
theorem trimmed_eq (h : Tracks windows now requests)
    (hcapacity : (liveKeys requests now).length < rateMaxKeys) (key : String) :
    ((rateWindow key now windows).1.dropWhile fun t => rateWindowSeconds < now - t) =
      (timesOf key requests).filter (inWindow now) := by
  have htrim : (fun t => decide ((rateWindowSeconds : F) < now - t)) = fun t => !inWindow now t := by
    funext t
    rw [inWindow, ← decide_not, decide_eq_decide, not_le]
  rw [(rateWindow_eq h hcapacity key).1, htrim,
    dropWhile_eq_filter (inWindow_monotone now) (h.prune.ordered.stored key).1, h.prune.counts]

omit [IsStrictOrderedRing F] in
theorem length_timesOf (r : Request F) (requests : List (Request F)) :
    ((timesOf r.key requests).filter (inWindow r.now)).length = recentRequests requests r := by
  rw [timesOf, List.filter_map, List.length_map, List.filter_filter, ← List.countP_eq_length_filter,
    recentRequests]
  refine List.countP_congr fun q _ => ?_
  simp only [Function.comp_apply, inWindow, Bool.and_eq_true, decide_eq_true_iff]
  exact and_comm

omit [Field F] [LinearOrder F] [IsStrictOrderedRing F] in
theorem timesOf_append (key : String) (requests : List (Request F)) (r : Request F) :
    timesOf key (requests ++ [r]) =
      timesOf key requests ++ if r.key = key then [r.now] else [] := by
  rw [timesOf, List.filter_append, List.map_append, List.filter_singleton]
  by_cases hkey : r.key = key
  · rw [if_pos hkey, decide_eq_true hkey]
    rfl
  · rw [if_neg hkey, decide_eq_false hkey]
    rfl

/-- A request is counted with those in the window, and the map goes on to hold what matters. -/
theorem admit_eq {r : Request F} (h : Tracks windows r.now requests)
    (hcapacity : (liveKeys requests r.now).length < rateMaxKeys) :
    (rateLimit windows r).1.current = 1 + recentRequests requests r ∧
      Tracks (rateLimit windows r).2 r.now (requests ++ [r]) := by
  obtain ⟨-, hset⟩ := rateWindow_eq h hcapacity r.key
  have htrimmed := trimmed_eq h hcapacity r.key
  rw [rateLimit]
  simp only
  rw [htrimmed, hset]
  refine ⟨?_, ?_, fun key => ?_⟩
  · rw [length_timesOf, Nat.add_comm]
  · rw [← h.prune.counts r.key]
    obtain ⟨hasc, hpast⟩ := h.prune.ordered.stored r.key
    exact h.prune.ordered.moved r.key (hasc.filter _) fun x hx =>
      hpast x (List.mem_of_mem_filter hx)
  · rw [Dict.get?_moveToEnd, Dict.get?_set, timesOf_append, List.filter_append]
    by_cases hkey : key = r.key
    · rw [if_pos hkey, if_pos hkey.symm, Option.getD_some, List.filter_append, List.filter_filter,
        hkey]
      simp only [Bool.and_self]
    · rw [if_neg hkey, if_neg (Ne.symm hkey), h.prune.counts key, List.filter_nil, List.append_nil]

end Track

section Runs

variable [IsStrictOrderedRing F]

omit [Field F] [IsStrictOrderedRing F] in
theorem clocked_append {requests : List (Request F)} {r : Request F}
    (h : Clocked (requests ++ [r])) : Clocked requests ∧ ∀ q ∈ requests, q.now ≤ r.now := by
  rw [Clocked, List.map_append, List.pairwise_append] at h
  obtain ⟨hrequests, -, hlast⟩ := h
  exact ⟨hrequests, fun q hq => hlast q.now (List.mem_map_of_mem hq) r.now
    (List.mem_singleton.mpr rfl)⟩

/-- After every run below the capacity the map holds what matters, at the time of the next request. -/
theorem tracks_after {requests : List (Request F)} {r : Request F}
    (hclock : Clocked (requests ++ [r])) (hcapacity : BelowCapacity (requests ++ [r])) :
    Tracks (windowsAfter requests) r.now requests := by
  induction requests using List.reverseRecOn generalizing r with
  | nil => exact tracks_empty r.now
  | append_singleton requests q ih =>
    obtain ⟨hbefore, hle⟩ := clocked_append hclock
    have hprefix : requests ++ [q] <+: requests ++ [q] ++ [r] := List.prefix_append _ _
    have htracks := ih hbefore fun earlier r hearlier =>
      hcapacity earlier r (hearlier.trans hprefix)
    have hroom := hcapacity requests q hprefix
    rw [windowsAfter, List.foldl_append]
    exact (admit_eq htracks hroom).2.later (hle q (List.mem_append_right _ List.mem_cons_self))

/-- In every run below the capacity, the count of a request is one more than the number of earlier
requests of its key in the last minute. -/
theorem count_eq_sliding_window {earlier : List (Request F)} {r : Request F}
    (hclock : Clocked (earlier ++ [r])) (hcapacity : BelowCapacity (earlier ++ [r])) :
    (rateLimit (windowsAfter earlier) r).1.current = 1 + recentRequests earlier r :=
  (admit_eq (tracks_after hclock hcapacity) (hcapacity earlier r List.prefix_rfl)).1

omit [IsStrictOrderedRing F] in
/-- A run that is not longer than the map may grow stays below the capacity. -/
theorem belowCapacity_of_length_le {requests : List (Request F)}
    (h : requests.length ≤ rateMaxKeys) : BelowCapacity requests := by
  intro earlier r hearlier
  have hlength := hearlier.length_le
  rw [List.length_append, List.length_singleton] at hlength
  have hlive : (liveKeys earlier r.now).length ≤ earlier.length := by
    have hdedup := (List.dedup_sublist
      ((earlier.filter fun q => inWindow r.now q.now).map Request.key)).length_le
    have hfilter := List.length_filter_le (fun q => inWindow r.now q.now) earlier
    rw [List.length_map] at hdedup
    exact hdedup.trans hfilter
  omega

end Runs

/-- Requests of two keys, the second of which lies a minute before a request at 65. -/
def twoKeys : List (Request ℚ) :=
  [⟨"user:7", "/api/price/SPY", 0⟩, ⟨"user:7", "/api/price/SPY", 5⟩,
    ⟨"10.0.0.9", "/api/auth/login", 20⟩, ⟨"user:7", "/api/price/SPY", 64⟩]

theorem count_eq_sliding_window_twoKeys :
    (rateLimit (windowsAfter twoKeys) ⟨"user:7", "/api/price/SPY", 65⟩).1.current =
      1 + recentRequests twoKeys ⟨"user:7", "/api/price/SPY", 65⟩ :=
  count_eq_sliding_window
    (by decide +kernel : Clocked (twoKeys ++ [⟨"user:7", "/api/price/SPY", 65⟩]))
    (belowCapacity_of_length_le (by decide))

example : (rateLimit (windowsAfter twoKeys) ⟨"user:7", "/api/price/SPY", 65⟩).1.current = 3 := by
  decide +kernel

end QuantumSentinel.Api
