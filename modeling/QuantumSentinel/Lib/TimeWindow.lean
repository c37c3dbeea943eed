import Mathlib.Algebra.Notation.Defs
import Mathlib.Data.Bool.Basic
import Mathlib.Order.Monotone.Defs
import QuantumSentinel.Lib.OrderedDict

/-!
# Windows of times

Lists of times in ascending order, of which only the live ones matter: a time is live as long as the
clock has not left it behind, so what is live at a time is live from it on in the list.  A dictionary
of such lists is kept in the order of their latest times and pruned from the front.

Main results:

- Definition `lapsed`: whether a list is of no use any more.
- Theorem `filter_eq_nil_of_lapsed`: a lapsed list has no live time.
- Theorem `dropWhile_eq_filter`: trimming from the left leaves exactly the live times.
- Definition `Windows`: the invariant of the dictionary, and what keeps it.
- Theorem `Windows.live_popFront`: pruning leaves only lists with a live time.
-/

namespace QuantumSentinel.Lib

variable {F : Type*} [LinearOrder F]

/-! ## Lists of times -/

/-- The list is empty or its latest time is not live. -/
def lapsed (live : F → Bool) (times : List F) : Bool :=
  match times.getLast? with
  | none => true
  | some last => !live last

/-- The latest of some times. -/
def latest [Zero F] (times : List F) : F :=
  times.getLast?.getD 0

section Times

variable {live : F → Bool} {times : List F} {t : F}

omit [LinearOrder F] in
theorem lapsed_concat (live : F → Bool) (times : List F) (t : F) :
    lapsed live (times ++ [t]) = !live t := by
  rw [lapsed, List.getLast?_concat]

omit [LinearOrder F] in
@[simp]
theorem latest_concat [Zero F] (times : List F) (t : F) : latest (times ++ [t]) = t := by
  rw [latest, List.getLast?_concat, Option.getD_some]

omit [LinearOrder F] in
theorem lapsed_eq [Zero F] (hsome : times ≠ []) : lapsed live times = !live (latest times) := by
  rw [lapsed, latest, List.getLast?_eq_some_getLast hsome, Option.getD_some]

theorem latest_le [Zero F] (hsome : times ≠ []) (hpast : ∀ x ∈ times, x ≤ t) : latest times ≤ t := by
  rw [latest, List.getLast?_eq_some_getLast hsome, Option.getD_some]
  exact hpast _ (List.getLast_mem hsome)

/-- A time that is not before the others may follow them. -/
theorem ascending_concat (hasc : times.Pairwise (· ≤ ·)) (hpast : ∀ x ∈ times, x ≤ t) :
    (times ++ [t]).Pairwise (· ≤ ·) := by
  refine List.pairwise_append.mpr ⟨hasc, List.pairwise_singleton _ _, ?_⟩
  intro x hx y hy
  rw [List.mem_singleton.mp hy]
  exact hpast x hx

/-- In ascending order the latest time decides whether any is live. -/
theorem filter_eq_nil_of_lapsed (hlive : Monotone live) (hasc : times.Pairwise (· ≤ ·))
    (h : lapsed live times = true) : times.filter live = [] := by
  rcases List.eq_nil_or_concat times with rfl | ⟨init, last, rfl⟩
  · rfl
  · rw [List.concat_eq_append] at hasc h ⊢
    rw [lapsed_concat, Bool.not_eq_true'] at h
    rw [List.pairwise_append] at hasc
    rw [List.filter_eq_nil_iff]
    intro x hx halive
    have hle : x ≤ last := by
      rcases List.mem_append.mp hx with hinit | hlast
      · exact hasc.2.2 x hinit last (List.mem_singleton.mpr rfl)
      · exact (List.mem_singleton.mp hlast).le
    have hlast := Bool.le_iff_imp.mp (hlive hle) halive
    rw [h] at hlast
    cases hlast

/-- The latest time is the latest live one, if any is live. -/
theorem latest_filter [Zero F] (hlive : Monotone live) (hasc : times.Pairwise (· ≤ ·))
    (hsome : times.filter live ≠ []) : latest (times.filter live) = latest times := by
  rcases List.eq_nil_or_concat times with rfl | ⟨init, last, rfl⟩
  · rfl
  · rw [List.concat_eq_append] at hasc hsome ⊢
    have hlast : live last = true := by
      by_contra hold
      refine hsome (filter_eq_nil_of_lapsed hlive hasc ?_)
      rw [lapsed_concat, Bool.not_eq_true']
      exact (Bool.not_eq_true _).mp hold
    rw [List.filter_append, List.filter_singleton, hlast, cond_true, latest_concat, latest_concat]

/-- Trimming from the left leaves exactly the live times. -/
theorem dropWhile_eq_filter (hlive : Monotone live) (hasc : times.Pairwise (· ≤ ·)) :
    (times.dropWhile fun x => !live x) = times.filter live := by
  induction times with
  | nil => rfl
  | cons x rest ih =>
    obtain ⟨hle, hrest⟩ := List.pairwise_cons.mp hasc
    cases hx : live x with
    | false =>
      rw [List.dropWhile_cons_of_pos (by rw [hx]; rfl), List.filter_cons_of_neg (by simp [hx]),
        ih hrest]
    | true =>
      rw [List.dropWhile_cons_of_neg (by simp [hx]), eq_comm, List.filter_eq_self]
      intro y hy
      rcases List.mem_cons.mp hy with rfl | hlater
      · exact hx
      · exact Bool.le_iff_imp.mp (hlive (hle y hlater)) hx

omit [LinearOrder F] in
/-- Lists with the same live times have the same live times later. -/
theorem filter_later {live' : F → Bool} (hless : ∀ x, live' x = true → live x = true)
    {times' : List F} (h : times.filter live = times'.filter live) :
    times.filter live' = times'.filter live' := by
  have hnarrow : ∀ l : List F, (l.filter live).filter live' = l.filter live' := by
    intro l
    rw [List.filter_filter]
    refine List.filter_congr fun x _ => ?_
    cases hx : live' x with
    | false => rfl
    | true => rw [hless x hx, Bool.and_self]
  rw [← hnarrow times, h, hnarrow times']

end Times

/-! ## Dictionaries of windows -/

variable [Zero F] {κ : Type*}

/-- Every list is ascending, not empty and in the past, and the lists stand in the order of their
latest times. -/
structure Windows (d : Dict κ (List F)) (t : F) : Prop where
  times : ∀ item ∈ d.items, item.2 ≠ [] ∧ item.2.Pairwise (· ≤ ·) ∧ ∀ x ∈ item.2, x ≤ t
  order : d.OldestFirst latest

namespace Windows

variable {d : Dict κ (List F)} {t : F}

theorem empty (t : F) : Windows (Dict.empty : Dict κ (List F)) t where
  times item hitem := by cases hitem
  order := Dict.OldestFirst.empty

theorem later (h : Windows d t) {t' : F} (hle : t ≤ t') : Windows d t' where
  times item hitem := by
    obtain ⟨hsome, hasc, hpast⟩ := h.times item hitem
    exact ⟨hsome, hasc, fun x hx => (hpast x hx).trans hle⟩
  order := h.order

theorem popFront (h : Windows d t) (dead : List F → Bool) : Windows (d.popFront dead) t where
  times item hitem := h.times item (Dict.mem_of_mem_popFront hitem)
  order := h.order.popFront dead

theorem latest_le (h : Windows d t) : ∀ item ∈ d.items, latest item.2 ≤ t := by
  intro item hitem
  obtain ⟨hsome, -, hpast⟩ := h.times item hitem
  exact Lib.latest_le hsome hpast

/-- Pruning leaves only lists with a live time. -/
theorem live_popFront (h : Windows d t) {live : F → Bool} (hlive : Monotone live) :
    ∀ item ∈ (d.popFront (lapsed live)).items, live (latest item.2) = true := by
  intro item hitem
  have hkept := h.order.live_popFront (lapsed live) (fun a ha b hb hle hdead => ?_) item hitem
  · rw [lapsed_eq (h.times item (Dict.mem_of_mem_popFront hitem)).1, Bool.not_eq_false'] at hkept
    exact hkept
  · rw [lapsed_eq (h.times a ha).1, Bool.not_eq_true']
    rw [lapsed_eq (h.times b hb).1, Bool.not_eq_true'] at hdead
    have hmono := hlive hle
    rw [hdead] at hmono
    exact Bool.eq_false_of_le_false hmono

variable [DecidableEq κ]

theorem erase (h : Windows d t) (k : κ) : Windows (d.erase k) t where
  times item hitem := h.times item (Dict.mem_of_mem_erase hitem)
  order := h.order.erase k

/-- The times under a key are ascending and in the past. -/
theorem stored (h : Windows d t) (k : κ) :
    ((d.get? k).getD []).Pairwise (· ≤ ·) ∧ ∀ x ∈ (d.get? k).getD [], x ≤ t := by
  cases hget : d.get? k with
  | none => exact ⟨List.Pairwise.nil, fun x hx => by cases hx⟩
  | some times => exact (h.times _ (Dict.get?_eq_some_iff.mp hget)).2

/-- Dropping the times of a key that are not live, as long as one is live. -/
theorem set_filter (h : Windows d t) {live : F → Bool} (hlive : Monotone live) {k : κ}
    {times : List F} (hget : d.get? k = some times) (hsome : times.filter live ≠ []) :
    Windows (d.set k (times.filter live)) t := by
  obtain ⟨-, hasc, hpast⟩ := h.times _ (Dict.get?_eq_some_iff.mp hget)
  refine ⟨fun item hitem => ?_, h.order.set_same hget (latest_filter hlive hasc hsome)⟩
  rcases Dict.mem_set hitem with rfl | hold
  · exact ⟨hsome, hasc.filter _, fun x hx => hpast x (List.mem_of_mem_filter hx)⟩
  · exact h.times item hold

/-- A time that is added to the list of a key, which is moved to the end. -/
theorem moved (h : Windows d t) (k : κ) {times : List F} (hasc : times.Pairwise (· ≤ ·))
    (hpast : ∀ x ∈ times, x ≤ t) : Windows ((d.set k (times ++ [t])).moveToEnd k) t := by
  refine ⟨fun item hitem => ?_, h.order.moved fun item hitem => ?_⟩
  · rcases Dict.mem_set (Dict.mem_moveToEnd.mp hitem) with rfl | hold
    · refine ⟨List.concat_ne_nil _ _, ascending_concat hasc hpast, fun x hx => ?_⟩
      rcases List.mem_append.mp hx with hkept | hnow
      · exact hpast x hkept
      · exact (List.mem_singleton.mp hnow).le
    · exact h.times item hold
  · rw [latest_concat]
    exact h.latest_le item hitem

/-- Pruning changes nothing about the live times, under any key. -/
theorem filter_popFront (h : Windows d t) {live : F → Bool} (hlive : Monotone live) (k : κ) :
    (((d.popFront (lapsed live)).get? k).getD []).filter live =
      ((d.get? k).getD []).filter live := by
  refine Dict.read_popFront d k (fun o => (o.getD []).filter live) ?_
  intro times htimes hlapsed
  exact filter_eq_nil_of_lapsed hlive (h.times _ (Dict.get?_eq_some_iff.mp htimes)).2.1 hlapsed

end Windows

end QuantumSentinel.Lib
