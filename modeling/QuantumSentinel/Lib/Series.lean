import Mathlib.Data.List.Basic
import Mathlib.Data.Int.Basic
import Mathlib.Tactic.Common
import QuantumSentinel.Lib.Outcomes

/-!
# Series that share their past

Two series of one length share their past up to an index when their elements before it are the
same.  What is computed from a series element by element, from its windows or from its slices
shares its past again; this is how a computation is shown not to look ahead.  Slices, elementwise
operations and assignments are those of Python and numpy on one dimension, negative bounds and
sequences of one element included.

Main results:

- Definition `SamePast`: two series with one past.
- Theorem `SamePast.broadcast`: elementwise operations do not look ahead.
- Theorem `SamePast.assignFrom`: nor does an assignment to the end of a series.
- Definition `prefixMap` and `rolling`: what is decided at every element from the elements
  up to it, or from those in front of it.
- Theorem `foldl_congr_mem`: folds with the same steps.
-/

namespace QuantumSentinel.Lib

universe u v w

variable {α : Type u} {β : Type v} {γ : Type w}

/-! ## Slices -/

/-- A bound of a slice, counted from the end when it is negative. -/
def sliceBound (length : ℕ) (i : ℤ) : ℕ :=
  if i < 0 then (i + length).toNat else min i.toNat length

/-- `xs[lo:]` -/
def sliceFrom (xs : List α) (lo : ℤ) : List α :=
  xs.drop (sliceBound xs.length lo)

/-- `xs[:hi]` -/
def sliceTo (xs : List α) (hi : ℤ) : List α :=
  xs.take (sliceBound xs.length hi)

/-- `xs[lo:hi]` -/
def slice (xs : List α) (lo hi : ℤ) : List α :=
  (xs.take (sliceBound xs.length hi)).drop (sliceBound xs.length lo)

/-- `xs[i]`, if it is there. -/
def pyGet? (xs : List α) (i : ℤ) : Option α :=
  if i < 0 then (if i + xs.length < 0 then none else xs[(i + xs.length).toNat]?) else xs[i.toNat]?

theorem mem_of_pyGet? {xs : List α} {i : ℤ} {x : α} (h : pyGet? xs i = some x) : x ∈ xs := by
  unfold pyGet? at h
  split at h
  · split at h
    · cases h
    · exact List.mem_of_getElem? h
  · exact List.mem_of_getElem? h

theorem getElem?_isSome_congr {xs : List α} {ys : List β} (h : xs.length = ys.length) (i : ℕ) :
    xs[i]?.isSome = ys[i]?.isSome := by
  by_cases hi : i < xs.length
  · rw [List.getElem?_eq_getElem hi, List.getElem?_eq_getElem (h ▸ hi)]
    rfl
  · rw [List.getElem?_eq_none (by omega), List.getElem?_eq_none (by omega)]
    rfl

/-- Whether there is an element depends on the length. -/
theorem pyGet?_isSome_congr {xs : List α} {ys : List β} (h : xs.length = ys.length) (i : ℤ) :
    (pyGet? xs i).isSome = (pyGet? ys i).isSome := by
  unfold pyGet?
  rw [← h]
  split
  · split
    · rfl
    · exact getElem?_isSome_congr h _
  · exact getElem?_isSome_congr h _

theorem sliceBound_le (length : ℕ) (i : ℤ) : sliceBound length i ≤ length := by
  unfold sliceBound
  split
  · omega
  · exact min_le_right _ _

theorem sliceBound_pred_le (length : ℕ) {i : ℤ} (hi : 1 ≤ i) :
    sliceBound length (i - 1) ≤ sliceBound length i := by
  unfold sliceBound
  split
  · omega
  · split
    · omega
    · omega

/-! ## Elementwise operations -/

/-- What numpy refuses, by operation. -/
inductive ShapeError
  | operands
  | assignment
deriving DecidableEq, Repr

/-- A sequence of one element, repeated to a length. -/
def stretch (length : ℕ) : List α → List α
  | [x] => List.replicate length x
  | xs => xs

/-- An operation on two sequences of one length; a sequence of one element is repeated. -/
def broadcast (f : α → β → γ) (xs : List α) (ys : List β) : Except ShapeError (List γ) :=
  let length := if xs.length = 1 then ys.length else xs.length
  if (stretch length xs).length = (stretch length ys).length then
    .ok (List.zipWith f (stretch length xs) (stretch length ys))
  else .error .operands

/-- `xs[lo:] = values` -/
def assignFrom (xs : List α) (lo : ℤ) (values : List α) : Except ShapeError (List α) :=
  let start := sliceBound xs.length lo
  if (stretch (xs.length - start) values).length = xs.length - start then
    .ok (xs.take start ++ stretch (xs.length - start) values)
  else .error .assignment

theorem stretch_self (xs : List α) : stretch xs.length xs = xs := by
  rcases xs with _ | ⟨x, _ | ⟨x', xs⟩⟩
  · rfl
  · rfl
  · rfl

/-- Two sequences of one length. -/
theorem broadcast_of_length (f : α → β → γ) {xs : List α} {ys : List β}
    (h : xs.length = ys.length) : broadcast f xs ys = .ok (List.zipWith f xs ys) := by
  have hlength : (if xs.length = 1 then ys.length else xs.length) = xs.length := by
    rw [← h, ite_self]
  have hys : stretch xs.length ys = ys := h ▸ stretch_self ys
  simp only [broadcast]
  rw [hlength, stretch_self, hys, if_pos h]

/-- Values for every place behind a bound. -/
theorem assignFrom_of_length {xs values : List α} {lo : ℕ} (hlo : lo ≤ xs.length)
    (h : values.length = xs.length - lo) : assignFrom xs lo values = .ok (xs.take lo ++ values) := by
  have hbound : sliceBound xs.length lo = lo := by
    unfold sliceBound
    rw [if_neg (by omega), Int.toNat_natCast, min_eq_left hlo]
  simp only [assignFrom, hbound]
  rw [← h, stretch_self, if_pos rfl]

theorem sliceFrom_natCast {xs : List α} {n : ℕ} (h : n ≤ xs.length) :
    sliceFrom xs n = xs.drop n := by
  rw [sliceFrom, sliceBound, if_neg (by omega), Int.toNat_natCast, min_eq_left h]

theorem slice_pred {xs : List α} {n : ℕ} (h : n < xs.length) (hn : 0 < n) :
    slice xs (n - 1) (-1) = (xs.take (xs.length - 1)).drop (n - 1) := by
  have hlo : sliceBound xs.length ((n : ℤ) - 1) = n - 1 := by
    rw [sliceBound, if_neg (by omega)]
    omega
  have hhi : sliceBound xs.length (-1) = xs.length - 1 := by
    rw [sliceBound, if_pos (by omega)]
    omega
  rw [slice, hlo, hhi]

/-- The windows of a width, one behind the other. -/
def windows (xs : List α) (width : ℕ) : List (List α) :=
  (List.range (xs.length + 1 - width)).map fun i => (xs.take (i + width)).drop i

/-- The last elements of a series. -/
def trailing (width : ℕ) (xs : List α) : List α :=
  xs.drop (xs.length - width)

theorem length_windows (xs : List α) (width : ℕ) :
    (windows xs width).length = xs.length + 1 - width := by
  rw [windows, List.length_map, List.length_range]

theorem trailing_take {width i : ℕ} (xs : List α) (h : i + width ≤ xs.length) :
    trailing width (xs.take (i + width)) = (xs.take (i + width)).drop i := by
  rw [trailing, List.length_take, min_eq_left h, Nat.add_sub_cancel]

/-- A window is what ends with its last element. -/
theorem getElem?_windows {xs : List α} {width i : ℕ} (h : i + width ≤ xs.length) :
    (windows xs width)[i]? = some (trailing width (xs.take (i + width))) := by
  rw [windows, List.getElem?_map, List.getElem?_range (by omega), trailing_take xs h]
  rfl

theorem length_trailing (width : ℕ) (xs : List α) :
    (trailing width xs).length = min width xs.length := by
  rw [trailing, List.length_drop]
  omega

theorem trailing_trailing {width more : ℕ} (h : width ≤ more) (xs : List α) :
    trailing width (trailing more xs) = trailing width xs := by
  rw [trailing, length_trailing, trailing, List.drop_drop, trailing]
  congr 1
  omega

theorem dropLast_trailing (width : ℕ) (xs : List α) :
    (trailing (width + 1) xs).dropLast = trailing width xs.dropLast := by
  have hstart : xs.length - (width + 1) = xs.length - 1 - width := by omega
  rw [trailing, trailing, List.length_dropLast, List.dropLast_eq_take, List.dropLast_eq_take,
    List.length_drop, List.drop_take, Nat.sub_right_comm, hstart]

/-! ## Prefixes -/

/-- What a function says of every prefix of a series. -/
def prefixMap (f : List α → β) (xs : List α) : List β :=
  (List.range xs.length).map fun t => f (xs.take (t + 1))

theorem length_prefixMap (f : List α → β) (xs : List α) : (prefixMap f xs).length = xs.length := by
  rw [prefixMap, List.length_map, List.length_range]

theorem getElem?_prefixMap (f : List α → β) {xs : List α} {t : ℕ} (ht : t < xs.length) :
    (prefixMap f xs)[t]? = some (f (xs.take (t + 1))) := by
  rw [prefixMap, List.getElem?_map, List.getElem?_range ht, Option.map_some]

/-- The last prefix is the whole series. -/
theorem getLast?_prefixMap (f : List α → β) {xs : List α} (h : xs ≠ []) :
    (prefixMap f xs).getLast? = some (f xs) := by
  have hlength := List.length_pos_iff.mpr h
  rw [List.getLast?_eq_getElem?, length_prefixMap, getElem?_prefixMap f (by omega),
    Nat.sub_add_cancel hlength, List.take_length]

/-- What a function says of as many elements as a width, right in front of each element. -/
def rolling (width : ℕ) (missing : β) (f : List α → β) (xs : List α) : List β :=
  (List.range xs.length).map fun t =>
    if width ≤ t then f ((xs.take t).drop (t - width)) else missing

theorem length_rolling (width : ℕ) (missing : β) (f : List α → β) (xs : List α) :
    (rolling width missing f xs).length = xs.length := by
  rw [rolling, List.length_map, List.length_range]

theorem length_take_succ {xs : List α} {t : ℕ} (ht : t < xs.length) :
    (xs.take (t + 1)).length = t + 1 := by
  rw [List.length_take]
  omega

theorem dropLast_take_succ {xs : List α} {t : ℕ} (ht : t < xs.length) :
    (xs.take (t + 1)).dropLast = xs.take t := by
  rw [List.dropLast_eq_take, List.length_take, min_eq_left (by omega), List.take_take,
    Nat.add_sub_cancel, min_eq_left (by omega)]

/-! ## One past -/

/-- Two series of one length that are the same before an index. -/
structure SamePast (n : ℕ) (xs ys : List α) : Prop where
  length : xs.length = ys.length
  past : ∀ i < n, xs[i]? = ys[i]?

namespace SamePast

variable {n : ℕ} {xs ys : List α} {us vs : List β}

theorem refl (n : ℕ) (xs : List α) : SamePast n xs xs :=
  ⟨rfl, fun _ _ => rfl⟩

/-- Series of one length. -/
theorem of_length (h : xs.length = ys.length) : SamePast 0 xs ys :=
  ⟨h, fun _ h => by cases h⟩

theorem mono (h : SamePast n xs ys) {m : ℕ} (hm : m ≤ n) : SamePast m xs ys :=
  ⟨h.length, fun i hi => h.past i (lt_of_lt_of_le hi hm)⟩

/-- Series whose past is everything are the same. -/
theorem eq (h : SamePast n xs ys) (hn : xs.length ≤ n) : xs = ys := by
  apply List.ext_getElem?
  intro i
  by_cases hi : i < n
  · exact h.past i hi
  · rw [List.getElem?_eq_none (by omega), List.getElem?_eq_none (by rw [← h.length]; omega)]

/-- A part of the past is the same. -/
theorem cut (h : SamePast n xs ys) {i j : ℕ} (hj : j ≤ n) :
    (xs.take j).drop i = (ys.take j).drop i := by
  apply List.ext_getElem?
  intro k
  rw [List.getElem?_drop, List.getElem?_drop, List.getElem?_take, List.getElem?_take]
  split
  · exact h.past _ (by omega)
  · rfl

theorem take_eq (h : SamePast n xs ys) {j : ℕ} (hj : j ≤ n) : xs.take j = ys.take j :=
  h.cut (i := 0) hj

theorem getD (h : SamePast n xs ys) {i : ℕ} (hi : i < n) (d : α) : xs.getD i d = ys.getD i d := by
  rw [List.getD_eq_getElem?_getD, List.getD_eq_getElem?_getD, h.past i hi]

theorem drop (h : SamePast n xs ys) (k : ℕ) : SamePast (n - k) (xs.drop k) (ys.drop k) := by
  constructor
  · rw [List.length_drop, List.length_drop, h.length]
  · intro i hi
    rw [List.getElem?_drop, List.getElem?_drop]
    exact h.past _ (by omega)

theorem take (h : SamePast n xs ys) (k : ℕ) : SamePast n (xs.take k) (ys.take k) := by
  constructor
  · rw [List.length_take, List.length_take, h.length]
  · intro i hi
    rw [List.getElem?_take, List.getElem?_take, h.past i hi]

theorem sliceFrom (h : SamePast n xs ys) (lo : ℤ) :
    SamePast (n - sliceBound xs.length lo) (Lib.sliceFrom xs lo) (Lib.sliceFrom ys lo) := by
  rw [Lib.sliceFrom, Lib.sliceFrom, ← h.length]
  exact h.drop _

theorem sliceTo (h : SamePast n xs ys) (hi : ℤ) :
    SamePast n (Lib.sliceTo xs hi) (Lib.sliceTo ys hi) := by
  rw [Lib.sliceTo, Lib.sliceTo, ← h.length]
  exact h.take _

theorem slice (h : SamePast n xs ys) (lo hi : ℤ) :
    SamePast (n - sliceBound xs.length lo) (Lib.slice xs lo hi) (Lib.slice ys lo hi) := by
  rw [Lib.slice, Lib.slice, ← h.length]
  exact (h.take _).drop _

theorem map (h : SamePast n xs ys) (f : α → β) : SamePast n (xs.map f) (ys.map f) := by
  constructor
  · rw [List.length_map, List.length_map, h.length]
  · intro i hi
    rw [List.getElem?_map, List.getElem?_map, h.past i hi]

theorem zipWith (h : SamePast n xs ys) (h' : SamePast n us vs) (f : α → β → γ) :
    SamePast n (List.zipWith f xs us) (List.zipWith f ys vs) := by
  constructor
  · rw [List.length_zipWith, List.length_zipWith, h.length, h'.length]
  · intro i hi
    rw [List.getElem?_zipWith, List.getElem?_zipWith, h.past i hi, h'.past i hi]

/-- Both series behind the same elements. -/
theorem append (h : SamePast n xs ys) (zs : List α) :
    SamePast (zs.length + n) (zs ++ xs) (zs ++ ys) := by
  constructor
  · rw [List.length_append, List.length_append, h.length]
  · intro i hi
    by_cases hfront : i < zs.length
    · rw [List.getElem?_append_left hfront, List.getElem?_append_left hfront]
    · rw [List.getElem?_append_right (by omega), List.getElem?_append_right (by omega)]
      exact h.past _ (by omega)

/-- Series that are given index by index. -/
theorem of_range (length : ℕ) {f g : ℕ → α} (h : ∀ i < n, f i = g i) :
    SamePast n ((List.range length).map f) ((List.range length).map g) := by
  constructor
  · rw [List.length_map, List.length_map]
  · intro i hi
    rw [List.getElem?_map, List.getElem?_map]
    by_cases hlength : i < length
    · rw [List.getElem?_range hlength, Option.map_some, Option.map_some, h i hi]
    · rw [List.getElem?_eq_none (by rw [List.length_range]; omega)]
      rfl

/-- What is said of prefixes within the past is the same. -/
theorem prefixMap (h : SamePast n xs ys) (f : List α → β) :
    SamePast n (Lib.prefixMap f xs) (Lib.prefixMap f ys) := by
  rw [Lib.prefixMap, Lib.prefixMap, ← h.length]
  refine of_range xs.length fun i hi => ?_
  rw [h.take_eq hi]

/-- What is said of the elements in front of an element is the same, also right behind the past. -/
theorem rolling_succ (h : SamePast n xs ys) (width : ℕ) (missing : β) (f : List α → β) :
    SamePast (n + 1) (Lib.rolling width missing f xs) (Lib.rolling width missing f ys) := by
  rw [Lib.rolling, Lib.rolling, ← h.length]
  refine of_range xs.length fun i hi => ?_
  rw [h.cut (Nat.le_of_lt_succ hi)]

theorem rolling (h : SamePast n xs ys) (width : ℕ) (missing : β) (f : List α → β) :
    SamePast n (Lib.rolling width missing f xs) (Lib.rolling width missing f ys) :=
  (h.rolling_succ width missing f).mono (Nat.le_succ n)

/-- A new element behind the past. -/
theorem set (xs : List α) {i : ℕ} (hi : n ≤ i) (x : α) : SamePast n xs (xs.set i x) := by
  constructor
  · rw [List.length_set]
  · intro k hk
    rw [List.getElem?_set_ne (by omega)]

/-- Windows that end in the past are the same. -/
theorem windows (h : SamePast n xs ys) (width : ℕ) :
    SamePast (n + 1 - width) (Lib.windows xs width) (Lib.windows ys width) := by
  rw [Lib.windows, Lib.windows, h.length]
  apply of_range
  intro i hi
  exact h.cut (by omega)

end SamePast

/-! ## Operations that may fail -/

namespace SamePast

variable {n : ℕ} {xs ys : List α} {us vs : List β}

theorem stretch (h : SamePast n xs ys) (m : ℕ) :
    SamePast n (Lib.stretch m xs) (Lib.stretch m ys) := by
  have hlength := h.length
  rcases xs with _ | ⟨x, _ | ⟨x', xs⟩⟩
  · rw [List.length_nil] at hlength
    rw [List.eq_nil_of_length_eq_zero hlength.symm]
    exact refl n _
  · rcases List.length_eq_one_iff.mp hlength.symm with ⟨y, rfl⟩
    rcases Nat.eq_zero_or_pos n with rfl | hpos
    · exact ⟨by rw [Lib.stretch, Lib.stretch, List.length_replicate, List.length_replicate],
        fun _ h => by cases h⟩
    · rw [h.eq hpos]
      exact refl n _
  · rcases ys with _ | ⟨y, _ | ⟨y', ys⟩⟩
    · cases hlength
    · cases hlength
    · exact h

/-- Elementwise operations do not look ahead. -/
theorem broadcast (h : SamePast n xs ys) (h' : SamePast n us vs) (f : α → β → γ) :
    Both (SamePast n) (Lib.broadcast f xs us) (Lib.broadcast f ys vs) := by
  simp only [Lib.broadcast, ← h.length, ← h'.length]
  generalize (if xs.length = 1 then us.length else xs.length) = m
  have hxs := h.stretch m
  have hus := h'.stretch m
  rw [← hxs.length, ← hus.length]
  split
  · exact hxs.zipWith hus f
  · exact rfl

/-- An assignment to the end of a series does not look ahead. -/
theorem assignFrom (h : SamePast n xs ys) {lo : ℤ} {values values' : List α}
    (hvalues : SamePast (n - sliceBound xs.length lo) values values') :
    Both (SamePast n) (Lib.assignFrom xs lo values) (Lib.assignFrom ys lo values') := by
  simp only [Lib.assignFrom, ← h.length]
  generalize hstart : sliceBound xs.length lo = start at *
  have hle : start ≤ xs.length := hstart ▸ sliceBound_le _ _
  have hstretched := hvalues.stretch (xs.length - start)
  rw [← hstretched.length]
  split
  · constructor
    · rw [List.length_append, List.length_append, List.length_take, List.length_take,
        ← hstretched.length, h.length]
    · intro i hi
      by_cases hfront : i < start
      · rw [List.getElem?_append_left (by rw [List.length_take]; omega),
          List.getElem?_append_left (by rw [List.length_take, ← h.length]; omega),
          (h.take start).past i hi]
      · rw [List.getElem?_append_right (by rw [List.length_take]; omega),
          List.getElem?_append_right (by rw [List.length_take, ← h.length]; omega),
          List.length_take, List.length_take, ← h.length]
        exact hstretched.past _ (by omega)
  · exact rfl

end SamePast

/-! ## Folds -/

/-- Folds whose steps are the same on the items. -/
theorem foldl_congr_mem {f g : α → β → α} {l : List β} (h : ∀ a, ∀ b ∈ l, f a b = g a b) (a : α) :
    l.foldl f a = l.foldl g a := by
  induction l generalizing a with
  | nil => rfl
  | cons b rest ih =>
    rw [List.foldl_cons, List.foldl_cons, h a b List.mem_cons_self]
    exact ih (fun a c hc => h a c (List.mem_cons_of_mem _ hc)) _

/-- What every step keeps, the fold keeps. -/
theorem foldl_induction {f : α → β → α} {l : List β} {P : α → Prop}
    (h : ∀ a, ∀ b ∈ l, P a → P (f a b)) {a : α} (ha : P a) : P (l.foldl f a) := by
  induction l generalizing a with
  | nil => exact ha
  | cons b rest ih =>
    exact ih (fun a c hc => h a c (List.mem_cons_of_mem _ hc)) (h a b List.mem_cons_self ha)

/-- The items of a fold, each with the value in front of it. -/
def foldSteps (f : α → β → α) : List β → α → List (α × β)
  | [], _ => []
  | b :: rest, a => (a, b) :: foldSteps f rest (f a b)

theorem mem_of_mem_foldSteps {f : α → β → α} {l : List β} {a : α} {step : α × β}
    (h : step ∈ foldSteps f l a) : step.2 ∈ l := by
  induction l generalizing a with
  | nil => cases h
  | cons b rest ih =>
    rcases List.mem_cons.mp h with rfl | h
    · exact List.mem_cons_self
    · exact List.mem_cons_of_mem b (ih h)

/-- What the steps of a fold keep holds in front of each of them and behind the last. -/
theorem foldSteps_induction {f : α → β → α} {l : List β} {P : α → Prop} {a : α}
    (h : ∀ step ∈ foldSteps f l a, P step.1 → P (f step.1 step.2)) (ha : P a) :
    (∀ step ∈ foldSteps f l a, P step.1) ∧ P (l.foldl f a) := by
  induction l generalizing a with
  | nil => exact ⟨List.forall_mem_nil _, ha⟩
  | cons b rest ih =>
    obtain ⟨hrest, hlast⟩ := ih (fun step hstep => h step (List.mem_cons_of_mem _ hstep))
      (h (a, b) List.mem_cons_self ha)
    refine ⟨fun step hstep => ?_, hlast⟩
    rcases List.mem_cons.mp hstep with rfl | hstep
    · exact ha
    · exact hrest step hstep

/-- A step of a fold: what the items in front of an item make of the first value, and the item. -/
theorem getElem?_foldSteps (f : α → β → α) (l : List β) (a : α) (i : ℕ) :
    (foldSteps f l a)[i]? = l[i]?.map fun b => ((l.take i).foldl f a, b) := by
  induction l generalizing a i with
  | nil => rfl
  | cons b rest ih =>
    cases i with
    | zero => rfl
    | succ i =>
      rw [foldSteps, List.getElem?_cons_succ, ih, List.getElem?_cons_succ, List.take_succ_cons,
        List.foldl_cons]

theorem length_foldSteps (f : α → β → α) (l : List β) (a : α) :
    (foldSteps f l a).length = l.length := by
  induction l generalizing a with
  | nil => rfl
  | cons b rest ih => rw [foldSteps, List.length_cons, ih, List.length_cons]

/-- The values in front of the items are the same, also right behind the past. -/
theorem SamePast.foldSteps_succ {n : ℕ} {xs ys : List β} (h : SamePast n xs ys) (f : α → β → α)
    (a : α) : SamePast (n + 1) ((Lib.foldSteps f xs a).map Prod.fst)
      ((Lib.foldSteps f ys a).map Prod.fst) := by
  constructor
  · rw [List.length_map, List.length_map, length_foldSteps, length_foldSteps, h.length]
  · intro i hi
    rw [List.getElem?_map, List.getElem?_map, getElem?_foldSteps, getElem?_foldSteps,
      h.take_eq (Nat.le_of_lt_succ hi)]
    by_cases hlength : i < xs.length
    · rw [List.getElem?_eq_getElem hlength, List.getElem?_eq_getElem (h.length ▸ hlength)]
      rfl
    · rw [List.getElem?_eq_none (by omega), List.getElem?_eq_none (by rw [← h.length]; omega)]

/-- Two folds over the same items that carry related values. -/
theorem foldl_related {α' : Type w} {f : α → β → α} {g : α' → β → α'} {l : List β}
    {R : α → α' → Prop} (h : ∀ a a', ∀ b ∈ l, R a a' → R (f a b) (g a' b)) {a : α} {a' : α'}
    (ha : R a a') : R (l.foldl f a) (l.foldl g a') := by
  induction l generalizing a a' with
  | nil => exact ha
  | cons b rest ih =>
    exact ih (fun a a' c hc => h a a' c (List.mem_cons_of_mem _ hc))
      (h a a' b List.mem_cons_self ha)

end QuantumSentinel.Lib
