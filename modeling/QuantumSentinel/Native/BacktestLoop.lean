import Mathlib.Algebra.Order.Field.Basic
import Mathlib.Algebra.Order.Group.Abs
import Mathlib.Tactic.Ring
import QuantumSentinel.Lib.NdArray
import QuantumSentinel.Lib.Numerals
import QuantumSentinel.Lib.Outcomes

/-!
# The backtest loop in two languages

`backtest_loop` of `qs_fast.cpp` and its fallback `_py_backtest_loop` of
`cpp_ext.py`.  The first checks shapes and lengths and works on memory; the second checks nothing
and fails where indexing or a conversion to a number fails.

Main results:

- Definition `cppBacktestLoop` and `pyBacktestLoop`: the two loops.
- Theorem `bars_agree`: on series of one length the loops leave the same results.
- Theorem `pyBacktestLoop_isOk_iff`: on which shapes the fallback does not fail.
- Theorem `backtestLoop_agree_iff`: on which inputs the two agree.

Current gaps:

- Arithmetic is exact, and memory is always allocated.
- The texts of numpy's own errors are left out.
-/

namespace QuantumSentinel.Native

open Lib

/-! ## Outcomes of calls -/

/-- What a call raises; the last two come from the interpreter or from numpy. -/
inductive Raised
  | valueError (message : String)
  | typeError
  | indexError
deriving DecidableEq

/-- Two calls give the same result, or both raise. -/
def SameOutcome {α : Type*} : Except Raised α → Except Raised α → Prop
  | .ok a, .ok b => a = b
  | .error _, .error _ => True
  | _, _ => False

/-- The same outcome as a value is that value. -/
theorem sameOutcome_ok_iff {α : Type*} {x : Except Raised α} {b : α} :
    SameOutcome x (.ok b) ↔ x = .ok b := by
  cases x with
  | ok a => exact ⟨congrArg Except.ok, fun h => Except.ok.inj h⟩
  | error e => exact ⟨False.elim, fun h => by cases h⟩

/-- The same outcome as an error is any error. -/
theorem sameOutcome_error_iff {α : Type*} {x : Except Raised α} {e : Raised} :
    SameOutcome (.error e) x ↔ x.isOk = false := by
  cases x with
  | ok a => exact ⟨False.elim, fun h => by cases h⟩
  | error e' => exact ⟨fun _ => rfl, fun _ => trivial⟩

/-- The keys of the dictionary that a backtest returns. -/
structure BacktestResult (F : Type*) where
  equityCurve : List F
  dailyReturns : List F
  nTrades : ℕ
  totalCost : F
deriving DecidableEq

/-- The variables of both loops. -/
structure Bars (F : Type*) where
  equity : List F
  returns : List F
  position : F
  totalCost : F
  nTrades : ℕ

/-- What the variables are returned as. -/
def Bars.result {F : Type*} (s : Bars F) : BacktestResult F where
  equityCurve := s.equity
  dailyReturns := s.returns
  nTrades := s.nTrades
  totalCost := s.totalCost

variable {F : Type} [Field F] [LinearOrder F]

/-! ## The C++ kernel -/

section Cpp

variable (prices signals : ℕ → F) (commission halfSpread : F)

/-- One turn of the loop over memory. -/
def cppBar (s : Bars F) (t : ℕ) : Bars F :=
  let sigPrev := signals (t - 1)
  let pricePrev := prices (t - 1)
  let priceCurr := prices t
  let priceRet := (priceCurr - pricePrev) / max |pricePrev| (1 / 10 ^ 9)
  let target := sigPrev
  let delta := target - s.position
  let trades := 1 / 10 ^ 6 < |delta|
  let cost := if trades then 0 + commission * |delta| + halfSpread * |delta| else 0
  let position := if trades then target else s.position
  let portRet := position * priceRet - cost
  { equity := s.equity.set t (s.equity.getD (t - 1) 0 * (1 + portRet))
    returns := s.returns.set (t - 1) portRet
    position := position
    totalCost := s.totalCost + cost
    nTrades := if trades then s.nTrades + 1 else s.nTrades }

/-- The loop over the bars; new memory holds what it held before. -/
def cppBars (heap : ℕ → F) (T : ℕ) : Bars F :=
  let equity := ((List.range T).map heap).set 0 1
  let returns := (List.range (if 1 < T then T - 1 else 1)).map heap
  let s := (List.range' 1 (T - 1)).foldl (cppBar prices signals commission halfSpread)
    ⟨equity, returns, 0, 0, 0⟩
  if T = 1 then { s with returns := s.returns.set 0 0 } else s

end Cpp

/-- `backtest_loop` of the extension. -/
def cppBacktestLoop (heap : ℕ → F) (prices signals : NdArray F) (commission spreadBps : F) :
    Except Raised (BacktestResult F) :=
  match prices.shape, signals.shape with
  | [p], [s] =>
    if p ≠ s then .error (.valueError "prices and signals must have the same length")
    else
      let T := castInt p
      if T ≤ 0 then .error (.valueError "prices series must not be empty")
      else
        let halfSpread := spreadBps / 10 ^ 4
        .ok (cppBars prices.read signals.read commission halfSpread heap T.toNat).result
  | _, _ => .error (.valueError "prices and signals must be 1-D arrays")

/-! ## The fallback -/

/-- `len(a)` -/
def pyLen (a : NdArray F) : Except Raised ℕ :=
  match a.shape with
  | [] => .error .typeError
  | n :: _ => .ok n

/-- The row `a[t]` where a number is needed.  A row of one number in a longer array is only
`converted` by versions of numpy that still do so. -/
def numberAt (converts : Bool) (a : NdArray F) (t : ℕ) : Except Raised F :=
  match a.shape with
  | [] => .error .indexError
  | n :: row =>
    if n ≤ t then .error .indexError
    else if row = [] ∨ (row.prod = 1 ∧ converts = true) then .ok (a.read t)
    else .error .typeError

section Py

variable (converts : Bool) (prices signals : NdArray F) (commission halfSpread : F)

/-- One turn of the loop. -/
def pyBar (s : Bars F) (t : ℕ) : Except Raised (Bars F) := do
  let target ← numberAt converts signals (t - 1)
  let delta := target - s.position
  let priceCurr ← numberAt converts prices t
  let pricePrev ← numberAt converts prices (t - 1)
  let priceRet := (priceCurr - pricePrev) / max |pricePrev| (1 / 10 ^ 9)
  let trades := 1 / 10 ^ 6 < |delta|
  let cost := if trades then (commission + halfSpread) * |delta| else 0
  let position := if trades then target else s.position
  let portRet := position * priceRet - cost
  pure
    { equity := s.equity.set t (s.equity.getD (t - 1) 0 * (1 + portRet))
      returns := s.returns.set (t - 1) portRet
      position := position
      totalCost := s.totalCost + cost
      nTrades := if trades then s.nTrades + 1 else s.nTrades }

end Py

omit [LinearOrder F] in
/-- The variables in front of the loop. -/
def pyStart (T : ℕ) : Bars F where
  equity := List.replicate T 1
  returns := if 1 < T then List.replicate (T - 1) 0 else List.replicate 1 0
  position := 0
  totalCost := 0
  nTrades := 0

/-- `_py_backtest_loop` -/
def pyBacktestLoop (converts : Bool) (prices signals : NdArray F) (commission spreadBps : F) :
    Except Raised (BacktestResult F) := do
  let T ← pyLen prices
  let halfSpread := spreadBps / 10 ^ 4
  let s ← (List.range' 1 (T - 1)).foldlM (pyBar converts prices signals commission halfSpread)
    (pyStart T)
  pure s.result

/-! ## Series of one length -/

section Loops

variable {converts : Bool} {prices signals : NdArray F} {commission halfSpread : F}

omit [LinearOrder F] in
/-- A row of a series is a number. -/
theorem numberAt_of_series {a : NdArray F} {n t : ℕ} (hshape : a.shape = [n]) (ht : t < n) :
    numberAt converts a t = .ok (a.read t) := by
  rw [numberAt, hshape]
  simp only [if_neg (not_le.mpr ht), true_or, if_true]

/-- A turn of the fallback over series that are long enough is a turn of the kernel. -/
theorem pyBar_eq {p q : ℕ} (hp : prices.shape = [p]) (hq : signals.shape = [q]) (s : Bars F) {t : ℕ}
    (htp : t < p) (htq : t - 1 < q) :
    pyBar converts prices signals commission halfSpread s t =
      .ok (cppBar prices.read signals.read commission halfSpread s t) := by
  have hcost : ∀ delta : F, 0 + commission * delta + halfSpread * delta =
      (commission + halfSpread) * delta := by
    intro delta
    ring
  rw [pyBar, numberAt_of_series hq htq, numberAt_of_series hp htp,
    numberAt_of_series hp (lt_of_le_of_lt (Nat.sub_le t 1) htp), cppBar]
  simp only [hcost]
  rfl

omit [Field F] [LinearOrder F] in
/-- A loop whose turns do not fail. -/
theorem foldlM_of_ok {f : Bars F → ℕ → Except Raised (Bars F)} {g : Bars F → ℕ → Bars F}
    {l : List ℕ} (h : ∀ s, ∀ t ∈ l, f s t = .ok (g s t)) (s : Bars F) :
    l.foldlM f s = .ok (l.foldl g s) := by
  induction l generalizing s with
  | nil => rfl
  | cons t rest ih =>
    rw [List.foldlM_cons, h s t List.mem_cons_self]
    exact ih (fun s t ht => h s t (List.mem_cons_of_mem _ ht)) (g s t)

/-- Up to a bar both loops have written the same. -/
structure SameUpTo (t : ℕ) (s s' : Bars F) : Prop where
  equity : s.equity.take t = s'.equity.take t
  equityLength : s.equity.length = s'.equity.length
  returns : s.returns.take (t - 1) = s'.returns.take (t - 1)
  returnsLength : s.returns.length = s'.returns.length
  position : s.position = s'.position
  totalCost : s.totalCost = s'.totalCost
  nTrades : s.nTrades = s'.nTrades

omit [Field F] [LinearOrder F] in
theorem take_succ_set {l : List F} {t : ℕ} (ht : t < l.length) (v : F) :
    (l.set t v).take (t + 1) = l.take t ++ [v] := by
  rw [List.take_add_one, List.take_set_of_le le_rfl, List.getElem?_set_self ht]
  rfl

omit [LinearOrder F] in
theorem getD_of_take {l l' : List F} {t i : ℕ} (h : l.take t = l'.take t) (hi : i < t) :
    l.getD i 0 = l'.getD i 0 := by
  have hget := congrArg (fun l : List F => l[i]?) h
  simp only [List.getElem?_take_of_lt hi] at hget
  rw [List.getD_eq_getElem?_getD, hget, ← List.getD_eq_getElem?_getD]

variable {p σ : ℕ → F}

/-- A turn of the loop writes the same behind the same. -/
theorem SameUpTo.bar {t : ℕ} {s s' : Bars F} (h : SameUpTo (t + 1) s s')
    (hequity : t + 1 < s.equity.length) (hreturns : t < s.returns.length) :
    SameUpTo (t + 2) (cppBar p σ commission halfSpread s (t + 1))
      (cppBar p σ commission halfSpread s' (t + 1)) := by
  have hlast : s.equity.getD t 0 = s'.equity.getD t 0 := getD_of_take h.equity t.lt_succ_self
  simp only [cppBar, Nat.add_sub_cancel, h.position, hlast]
  refine ⟨?_, ?_, ?_, ?_, rfl, ?_, ?_⟩
  · simp only
    rw [take_succ_set hequity, take_succ_set (h.equityLength ▸ hequity), h.equity]
  · simp only [List.length_set, h.equityLength]
  · have htake := h.returns
    rw [Nat.add_sub_cancel] at htake
    simp only [Nat.add_succ_sub_one]
    rw [take_succ_set hreturns, take_succ_set (h.returnsLength ▸ hreturns), htake]
  · simp only [List.length_set, h.returnsLength]
  · simp only [h.totalCost]
  · simp only [h.nTrades]

/-- A turn overwrites entries of the arrays. -/
theorem lengths_cppBar (s : Bars F) (t : ℕ) :
    (cppBar p σ commission halfSpread s t).equity.length = s.equity.length ∧
      (cppBar p σ commission halfSpread s t).returns.length = s.returns.length :=
  ⟨List.length_set, List.length_set⟩

/-- So does the loop. -/
theorem lengths_foldl (l : List ℕ) (s : Bars F) :
    (l.foldl (cppBar p σ commission halfSpread) s).equity.length = s.equity.length ∧
      (l.foldl (cppBar p σ commission halfSpread) s).returns.length = s.returns.length := by
  induction l generalizing s with
  | nil => exact ⟨rfl, rfl⟩
  | cons t rest ih =>
    have hrest := ih (cppBar p σ commission halfSpread s t)
    exact ⟨hrest.1.trans (lengths_cppBar s t).1, hrest.2.trans (lengths_cppBar s t).2⟩

/-- The loop writes the same behind the same. -/
theorem SameUpTo.foldl {s s' : Bars F} {t : ℕ} (h : SameUpTo (t + 1) s s') (count : ℕ)
    (hequity : t + count < s.equity.length) (hreturns : t + count ≤ s.returns.length) :
    SameUpTo (t + 1 + count)
      ((List.range' (t + 1) count).foldl (cppBar p σ commission halfSpread) s)
      ((List.range' (t + 1) count).foldl (cppBar p σ commission halfSpread) s') := by
  induction count generalizing s s' t with
  | zero => exact h
  | succ count ih =>
    have hbar : SameUpTo (t + 2) (cppBar p σ commission halfSpread s (t + 1))
        (cppBar p σ commission halfSpread s' (t + 1)) := h.bar (by omega) (by omega)
    have hlengths : (cppBar p σ commission halfSpread s (t + 1)).equity.length = _ ∧ _ :=
      lengths_cppBar s (t + 1)
    have hrest := ih hbar (by omega) (by omega)
    rw [List.range'_succ, List.foldl_cons, List.foldl_cons,
      show t + 1 + (count + 1) = t + 1 + 1 + count by omega]
    exact hrest

theorem length_equity_cppBars (heap : ℕ → F) (T : ℕ) :
    (cppBars p σ commission halfSpread heap T).equity.length = T := by
  rw [cppBars]
  split <;> simp only [(lengths_foldl _ _).1, List.length_set, List.length_map, List.length_range]

omit [Field F] [LinearOrder F] in
/-- Where everything is written, the results are the same. -/
theorem SameUpTo.result_eq {T : ℕ} {s s' : Bars F} (h : SameUpTo T s s')
    (hequity : s.equity.length ≤ T) (hreturns : s.returns.length ≤ T - 1) :
    s.result = s'.result := by
  have hcurve := h.equity
  rw [List.take_of_length_le hequity, List.take_of_length_le (h.equityLength ▸ hequity)] at hcurve
  have hdaily := h.returns
  rw [List.take_of_length_le hreturns, List.take_of_length_le (h.returnsLength ▸ hreturns)] at hdaily
  rw [Bars.result, Bars.result, hcurve, hdaily, h.nTrades, h.totalCost]

/-- Whatever was in the memory, the loops over the bars leave the same. -/
theorem bars_agree (heap : ℕ → F) {T : ℕ} (hT : 0 < T) :
    (cppBars p σ commission halfSpread heap T).result =
      ((List.range' 1 (T - 1)).foldl (cppBar p σ commission halfSpread) (pyStart T)).result := by
  obtain ⟨n, rfl⟩ : ∃ n, T = n + 1 := ⟨T - 1, by omega⟩
  rw [cppBars, pyStart, Nat.add_sub_cancel]
  cases n with
  | zero => simp [Bars.result]
  | succ n =>
    have hmany : 1 < n + 1 + 1 := by omega
    simp only [if_pos hmany, if_neg (by omega : ¬ n + 1 + 1 = 1)]
    have hstart : SameUpTo 1
        ⟨((List.range (n + 1 + 1)).map heap).set 0 1, (List.range (n + 1)).map heap, 0, 0, 0⟩
        ⟨List.replicate (n + 1 + 1) (1 : F), List.replicate (n + 1) 0, 0, 0, 0⟩ := by
      refine ⟨?_, by simp, rfl, by simp, rfl, rfl, rfl⟩
      rw [take_succ_set (by simp)]
      rfl
    have hend : SameUpTo (0 + 1 + (n + 1))
        ((List.range' 1 (n + 1)).foldl (cppBar p σ commission halfSpread)
          ⟨((List.range (n + 1 + 1)).map heap).set 0 1, (List.range (n + 1)).map heap, 0, 0, 0⟩)
        ((List.range' 1 (n + 1)).foldl (cppBar p σ commission halfSpread)
          ⟨List.replicate (n + 1 + 1) (1 : F), List.replicate (n + 1) 0, 0, 0, 0⟩) :=
      hstart.foldl (n + 1) (by simp) (by simp)
    refine hend.result_eq ?_ ?_
    · rw [(lengths_foldl _ _).1, List.length_set, List.length_map, List.length_range]
      omega
    · rw [(lengths_foldl _ _).2, List.length_map, List.length_range]
      omega

end Loops

/-! ## Shapes -/

/-- Whether the first rows of an array can be read as numbers. -/
def RowsAreNumbers (converts : Bool) (shape : List ℕ) (rows : ℕ) : Prop :=
  match shape with
  | [] => False
  | n :: row => rows ≤ n ∧ (row = [] ∨ (row.prod = 1 ∧ converts = true))

/-- The shapes on which the fallback does not fail: one row of prices at most, or rows of prices that
are numbers and a signal that is a number for each row but the last. -/
def FallbackRuns (converts : Bool) (prices signals : List ℕ) : Prop :=
  match prices with
  | [] => False
  | T :: _ => T ≤ 1 ∨ (RowsAreNumbers converts prices T ∧ RowsAreNumbers converts signals (T - 1))

section Shapes

variable {converts : Bool} {prices signals : NdArray F} {commission halfSpread : F}

omit [LinearOrder F] in
/-- A row is read exactly when there are numbers up to it. -/
theorem numberAt_isOk_iff (a : NdArray F) (t : ℕ) :
    (numberAt converts a t).isOk = true ↔ RowsAreNumbers converts a.shape (t + 1) := by
  rw [numberAt, RowsAreNumbers.eq_def]
  cases a.shape with
  | nil => simp [Except.isOk, Except.toBool]
  | cons n row =>
    simp only
    by_cases hrow : n ≤ t
    · rw [if_pos hrow]
      simp only [Except.isOk, Except.toBool, Bool.false_eq_true, false_iff]
      omega
    · by_cases hnumber : row = [] ∨ (row.prod = 1 ∧ converts = true)
      · rw [if_neg hrow, if_pos hnumber]
        simp only [Except.isOk, Except.toBool, true_iff]
        exact ⟨by omega, hnumber⟩
      · rw [if_neg hrow, if_neg hnumber]
        simp only [Except.isOk, Except.toBool, Bool.false_eq_true, hnumber, and_false]

theorem RowsAreNumbers.mono {shape : List ℕ} {rows rows' : ℕ}
    (h : RowsAreNumbers converts shape rows) (hle : rows' ≤ rows) :
    RowsAreNumbers converts shape rows' := by
  cases shape with
  | nil => exact h
  | cons n row => exact ⟨hle.trans h.1, h.2⟩

/-- Whether a turn fails does not depend on the variables. -/
theorem pyBar_isOk_iff (s : Bars F) (t : ℕ) :
    (pyBar converts prices signals commission halfSpread s (t + 1)).isOk = true ↔
      RowsAreNumbers converts signals.shape (t + 1) ∧
        RowsAreNumbers converts prices.shape (t + 2) := by
  have hsignals : (numberAt converts signals t).isOk = true ↔
      RowsAreNumbers converts signals.shape (t + 1) := numberAt_isOk_iff signals t
  have hprice : (numberAt converts prices (t + 1)).isOk = true ↔
      RowsAreNumbers converts prices.shape (t + 2) := numberAt_isOk_iff prices (t + 1)
  have hbefore : (numberAt converts prices t).isOk = true ↔
      RowsAreNumbers converts prices.shape (t + 1) := numberAt_isOk_iff prices t
  rw [pyBar, Nat.add_sub_cancel]
  cases hs : numberAt converts signals t with
  | error e =>
    rw [hs] at hsignals
    exact iff_of_false Bool.false_ne_true fun h => Bool.false_ne_true (hsignals.mpr h.1)
  | ok target =>
    rw [hs] at hsignals
    cases hc : numberAt converts prices (t + 1) with
    | error e =>
      rw [hc] at hprice
      exact iff_of_false Bool.false_ne_true fun h => Bool.false_ne_true (hprice.mpr h.2)
    | ok priceCurr =>
      rw [hc] at hprice
      have hrows := hprice.mp rfl
      obtain ⟨pricePrev, hp⟩ : ∃ x, numberAt converts prices t = .ok x := by
        have hok := hbefore.mpr (hrows.mono (by omega))
        cases hx : numberAt converts prices t with
        | error e =>
          rw [hx] at hok
          cases hok
        | ok x => exact ⟨x, rfl⟩
      rw [hp]
      exact iff_of_true rfl ⟨hsignals.mp rfl, hrows⟩

omit [Field F] [LinearOrder F] in
/-- A loop of turns whose failures do not depend on the variables fails where a turn does. -/
theorem foldlM_isOk_iff {f : Bars F → ℕ → Except Raised (Bars F)} {fine : ℕ → Prop} {l : List ℕ}
    (h : ∀ s, ∀ t ∈ l, (f s t).isOk = true ↔ fine t) (s : Bars F) :
    (l.foldlM f s).isOk = true ↔ ∀ t ∈ l, fine t := by
  induction l generalizing s with
  | nil => exact iff_of_true rfl fun t ht => by cases ht
  | cons t rest ih =>
    have hturn := h s t List.mem_cons_self
    rw [List.foldlM_cons]
    cases hf : f s t with
    | error e =>
      rw [hf] at hturn
      exact iff_of_false Bool.false_ne_true fun hall =>
        Bool.false_ne_true (hturn.mpr (hall t List.mem_cons_self))
    | ok s' =>
      rw [hf] at hturn
      have hrest := ih (fun s t ht => h s t (List.mem_cons_of_mem _ ht)) s'
      rw [List.forall_mem_cons, and_iff_right (hturn.mp rfl)]
      exact hrest

/-- The fallback fails where its loop fails. -/
theorem pyBacktestLoop_of_rows {T : ℕ} {row : List ℕ} (hshape : prices.shape = T :: row)
    (spreadBps : F) :
    pyBacktestLoop converts prices signals commission spreadBps =
      ((List.range' 1 (T - 1)).foldlM
        (pyBar converts prices signals commission (spreadBps / 10 ^ 4)) (pyStart T)).map
        Bars.result := by
  rw [pyBacktestLoop, pyLen, hshape]
  cases hloop : (List.range' 1 (T - 1)).foldlM
    (pyBar converts prices signals commission (spreadBps / 10 ^ 4)) (pyStart T) with
  | error e =>
    simp only [bind, Except.bind, hloop]
    rfl
  | ok s =>
    simp only [bind, Except.bind, hloop]
    rfl

/-- The fallback does not fail exactly on these shapes. -/
theorem pyBacktestLoop_isOk_iff (commission spreadBps : F) :
    (pyBacktestLoop converts prices signals commission spreadBps).isOk = true ↔
      FallbackRuns converts prices.shape signals.shape := by
  cases hshape : prices.shape with
  | nil =>
    rw [pyBacktestLoop, pyLen, hshape]
    exact iff_of_false Bool.false_ne_true id
  | cons T row =>
    have hturns : ∀ s : Bars F, ∀ t ∈ List.range' 1 (T - 1),
        (pyBar converts prices signals commission (spreadBps / 10 ^ 4) s t).isOk = true ↔
          RowsAreNumbers converts signals.shape t ∧
            RowsAreNumbers converts prices.shape (t + 1) := by
      intro s t ht
      rw [List.mem_range'_1] at ht
      obtain ⟨u, rfl⟩ : ∃ u, t = u + 1 := ⟨t - 1, by omega⟩
      exact pyBar_isOk_iff s u
    have hrows : (∀ t ∈ List.range' 1 (T - 1), RowsAreNumbers converts signals.shape t ∧
        RowsAreNumbers converts prices.shape (t + 1)) ↔
        FallbackRuns converts prices.shape signals.shape := by
      rw [hshape]
      constructor
      · intro h
        rcases le_or_gt T 1 with hshort | hlong
        · exact Or.inl hshort
        · have hlast := h (T - 1) (List.mem_range'_1.mpr ⟨by omega, by omega⟩)
          rw [Nat.sub_add_cancel hlong.le] at hlast
          exact Or.inr ⟨hlast.2, hlast.1⟩
      · intro h t ht
        rw [List.mem_range'_1] at ht
        rcases h with hshort | ⟨hprices, hsignals⟩
        · omega
        · exact ⟨hsignals.mono (by omega), hprices.mono (by omega)⟩
    rw [pyBacktestLoop_of_rows hshape, ← hshape, ← hrows, ← foldlM_isOk_iff hturns (pyStart T)]
    cases (List.range' 1 (T - 1)).foldlM
      (pyBar converts prices signals commission (spreadBps / 10 ^ 4)) (pyStart T) <;> exact Iff.rfl

/-- On series of one length the fallback runs the loop of the kernel. -/
theorem pyBacktestLoop_of_series {n : ℕ} (hprices : prices.shape = [n])
    (hsignals : signals.shape = [n]) (spreadBps : F) :
    pyBacktestLoop converts prices signals commission spreadBps =
      .ok ((List.range' 1 (n - 1)).foldl
        (cppBar prices.read signals.read commission (spreadBps / 10 ^ 4)) (pyStart n)).result := by
  have hturns : ∀ s : Bars F, ∀ t ∈ List.range' 1 (n - 1),
      pyBar converts prices signals commission (spreadBps / 10 ^ 4) s t =
        .ok (cppBar prices.read signals.read commission (spreadBps / 10 ^ 4) s t) := by
    intro s t ht
    rw [List.mem_range'_1] at ht
    exact pyBar_eq hprices hsignals s (by omega) (by omega)
  rw [pyBacktestLoop_of_rows hprices, foldlM_of_ok hturns]
  rfl

/-- The inputs on which the extension and its fallback agree. -/
def BacktestAgrees (converts : Bool) (prices signals : List ℕ) : Prop :=
  (∃ n, prices = [n] ∧ signals = [n] ∧ 0 < n ∧ n < 2 ^ 31) ∨
    ¬ FallbackRuns converts prices signals

/-- The kernel never runs on other shapes than two series. -/
theorem cppBacktestLoop_error (heap : ℕ → F) (hshapes : ¬ ∃ n, prices.shape = [n] ∧
    signals.shape = [n]) (commission spreadBps : F) :
    ∃ e, cppBacktestLoop heap prices signals commission spreadBps = .error e := by
  rw [cppBacktestLoop]
  split
  · rename_i p s hp hs
    rw [if_pos]
    · exact ⟨_, rfl⟩
    · rintro rfl
      exact hshapes ⟨p, hp, hs⟩
  · exact ⟨_, rfl⟩

omit [Field F] [LinearOrder F] in
/-- A run over a number of bars, unless there is none, gives a result with another number of bars
only if the numbers are the same. -/
theorem run_ok_iff {run : ℕ → BacktestResult F} {result : BacktestResult F} {n : ℕ} {T : ℤ}
    {e : Raised} (hlength : ∀ m, (run m).equityCurve.length = m)
    (hresult : result.equityCurve.length = n) (hrun : 0 < n → run n = result) :
    (if T ≤ 0 then .error e else .ok (run T.toNat) : Except Raised (BacktestResult F)) =
      .ok result ↔ 0 < n ∧ T = n := by
  constructor
  · intro h
    split at h
    · cases h
    · have hsame := congrArg (fun r => r.equityCurve.length) (Except.ok.inj h)
      simp only [hlength, hresult] at hsame
      omega
  · rintro ⟨hpos, rfl⟩
    rw [if_neg (by omega), Int.toNat_natCast, hrun hpos]

/-- The extension and its fallback agree exactly on series of one length that is not zero and fits an
`int`, and on the shapes on which the fallback fails. -/
theorem backtestLoop_agree_iff (heap : ℕ → F) (commission spreadBps : F) :
    SameOutcome (cppBacktestLoop heap prices signals commission spreadBps)
        (pyBacktestLoop converts prices signals commission spreadBps) ↔
      BacktestAgrees converts prices.shape signals.shape := by
  rw [BacktestAgrees]
  by_cases hseries : ∃ n, prices.shape = [n] ∧ signals.shape = [n]
  · obtain ⟨n, hprices, hsignals⟩ := hseries
    have hruns : FallbackRuns converts prices.shape signals.shape := by
      rw [← pyBacktestLoop_isOk_iff commission spreadBps,
        pyBacktestLoop_of_series hprices hsignals]
      rfl
    have hcondition : (∃ m, prices.shape = [m] ∧ signals.shape = [m] ∧ 0 < m ∧ m < 2 ^ 31) ↔
        0 < n ∧ n < 2 ^ 31 := by
      constructor
      · rintro ⟨m, hm, -, hsize⟩
        rw [hprices, List.singleton_inj] at hm
        rwa [hm]
      · exact fun hsize => ⟨n, hprices, hsignals, hsize⟩
    rw [or_iff_left (not_not_intro hruns), hcondition, pyBacktestLoop_of_series hprices hsignals,
      sameOutcome_ok_iff, cppBacktestLoop, hprices, hsignals]
    simp only [ne_eq, not_true_eq_false, if_false]
    have hfallback : ((List.range' 1 (n - 1)).foldl
        (cppBar prices.read signals.read commission (spreadBps / 10 ^ 4))
        (pyStart n)).result.equityCurve.length = n := by
      rw [Bars.result, (lengths_foldl _ _).1, pyStart, List.length_replicate]
    have hkernel : ∀ m, (cppBars prices.read signals.read commission (spreadBps / 10 ^ 4) heap
        m).result.equityCurve.length = m := fun m => length_equity_cppBars heap m
    have hcast := castInt_eq_iff n
    exact (run_ok_iff hkernel hfallback (bars_agree heap)).trans (and_congr_right fun _ => hcast)
  · obtain ⟨e, herror⟩ := cppBacktestLoop_error heap hseries commission spreadBps
    rw [herror, sameOutcome_error_iff, ← pyBacktestLoop_isOk_iff commission spreadBps,
      Bool.not_eq_true]
    constructor
    · exact Or.inr
    · rintro (⟨n, hprices, hsignals, -⟩ | hfails)
      · exact absurd ⟨n, hprices, hsignals⟩ hseries
      · exact hfails

end Shapes

end QuantumSentinel.Native
