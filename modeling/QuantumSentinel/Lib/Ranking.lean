import Mathlib.Algebra.BigOperators.Intervals
import Mathlib.Algebra.Field.Basic
import Mathlib.Data.List.FinRange
import Mathlib.Data.List.Sort
import Mathlib.Data.Fintype.Card
import Mathlib.Order.Basic
import Mathlib.Tactic.FieldSimp
import Mathlib.Tactic.Ring
import QuantumSentinel.Lib.Numerals

/-!
# Rankings

Orders of the indices of a row in which its keys ascend, as `numpy.argsort` computes them.
Nothing is assumed about the order of equal keys.

Main results:

- Definition `IsArgsort`: what an order of the indices has to satisfy.
- Definition `stableArgsort`: one that keeps equal keys in place.
- Theorem `IsArgsort.le_of_mem_take` and `IsArgsort.le_of_mem_drop`: the two ends of the
  order hold the least and the greatest keys.
- Theorem `IsArgsort.image_position`: equal keys stand together, after all smaller ones.
- Theorem `IsArgsort.sum_position`: so the mean of their positions is the same in every order.
-/

namespace QuantumSentinel.Lib

variable {Key : Type*} {n : ℕ}

/-- An order of the indices in which the keys ascend. -/
structure IsArgsort (le : Key → Key → Prop) (keys : Fin n → Key) (order : List (Fin n)) :
    Prop where
  perm : order.Perm (List.finRange n)
  ascending : order.Pairwise fun i j => le (keys i) (keys j)

/-- The order that keeps equal keys in place. -/
def stableArgsort (le : Key → Key → Prop) [DecidableRel le] (keys : Fin n → Key) :
    List (Fin n) :=
  (List.finRange n).insertionSort fun i j => le (keys i) (keys j)

/-- Sorting the indices by their keys is such an order. -/
theorem stableArgsort_isArgsort (le : Key → Key → Prop) [DecidableRel le]
    (htotal : ∀ a b, le a b ∨ le b a) (htrans : ∀ a b c, le a b → le b c → le a c)
    (keys : Fin n → Key) : IsArgsort le keys (stableArgsort le keys) := by
  have : Std.Total fun i j : Fin n => le (keys i) (keys j) :=
    ⟨fun i j => htotal (keys i) (keys j)⟩
  have : IsTrans (Fin n) fun i j => le (keys i) (keys j) :=
    ⟨fun i j k => htrans (keys i) (keys j) (keys k)⟩
  exact
    { perm := List.perm_insertionSort _ _
      ascending := List.pairwise_insertionSort _ _ }

namespace IsArgsort

variable {le : Key → Key → Prop} {keys : Fin n → Key} {order : List (Fin n)}

theorem nodup (h : IsArgsort le keys order) : order.Nodup :=
  h.perm.nodup_iff.mpr (List.nodup_finRange n)

theorem length_eq (h : IsArgsort le keys order) : order.length = n := by
  rw [h.perm.length_eq, List.length_finRange]

theorem mem (h : IsArgsort le keys order) (i : Fin n) : i ∈ order :=
  h.perm.mem_iff.mpr (List.mem_finRange i)

/-- Each index is before a cut or after it. -/
theorem mem_take_or_drop (h : IsArgsort le keys order) (i : Fin n) (k : ℕ) :
    i ∈ order.take k ∨ i ∈ order.drop k := by
  rw [← List.mem_append, List.take_append_drop]
  exact h.mem i

/-- The keys before a cut are not greater than those after it. -/
theorem le_of_take_drop (h : IsArgsort le keys order) {k : ℕ} {i j : Fin n}
    (hi : i ∈ order.take k) (hj : j ∈ order.drop k) : le (keys i) (keys j) := by
  have hpair := h.ascending
  rw [← List.take_append_drop k order, List.pairwise_append] at hpair
  exact hpair.2.2 i hi j hj

/-- The first indices have the least keys. -/
theorem le_of_mem_take (h : IsArgsort le keys order) {k : ℕ} {i j : Fin n}
    (hi : i ∈ order.take k) (hj : j ∉ order.take k) : le (keys i) (keys j) :=
  h.le_of_take_drop hi ((h.mem_take_or_drop j k).resolve_left hj)

/-- The last indices have the greatest keys. -/
theorem le_of_mem_drop (h : IsArgsort le keys order) {k : ℕ} {i j : Fin n}
    (hi : i ∈ order.drop k) (hj : j ∉ order.drop k) : le (keys j) (keys i) :=
  h.le_of_take_drop ((h.mem_take_or_drop j k).resolve_right hj) hi

/-- The two ends of the order have no index in common. -/
theorem disjoint_take_drop (h : IsArgsort le keys order) {k m : ℕ} (hkm : k ≤ m) :
    (order.take k).Disjoint (order.drop m) :=
  List.disjoint_take_drop h.nodup hkm

theorem card_take (h : IsArgsort le keys order) {k : ℕ} (hk : k ≤ n) :
    (order.take k).toFinset.card = k := by
  rw [List.toFinset_card_of_nodup (h.nodup.sublist (List.take_sublist k order)),
    List.length_take, h.length_eq, min_eq_left hk]

theorem card_drop (h : IsArgsort le keys order) (k : ℕ) :
    (order.drop k).toFinset.card = n - k := by
  rw [List.toFinset_card_of_nodup (h.nodup.sublist (List.drop_sublist k order)),
    List.length_drop, h.length_eq]

/-- Among the first indices there is one whose key is not greater than a given one. -/
theorem exists_take_le (h : IsArgsort le keys order) (hrefl : ∀ a, le a a) {k : ℕ} (hk : 1 ≤ k)
    (j : Fin n) : ∃ i ∈ order.take k, le (keys i) (keys j) := by
  by_cases hj : j ∈ order.take k
  · exact ⟨j, hj, hrefl _⟩
  · have hn : 0 < n := j.pos
    have hcard : 0 < (order.take k).length := by
      rw [List.length_take, h.length_eq]
      omega
    obtain ⟨i, hi⟩ := List.exists_mem_of_length_pos hcard
    exact ⟨i, hi, h.le_of_mem_take hi hj⟩

/-- Among the last indices there is one whose key is not less than a given one. -/
theorem exists_drop_ge (h : IsArgsort le keys order) (hrefl : ∀ a, le a a) {k : ℕ} (hk : k < n)
    (j : Fin n) : ∃ i ∈ order.drop k, le (keys j) (keys i) := by
  by_cases hj : j ∈ order.drop k
  · exact ⟨j, hj, hrefl _⟩
  · have hcard : 0 < (order.drop k).length := by
      rw [List.length_drop, h.length_eq]
      omega
    obtain ⟨i, hi⟩ := List.exists_mem_of_length_pos hcard
    exact ⟨i, hi, h.le_of_mem_drop hi hj⟩

end IsArgsort

/-! ## Positions -/

/-- The position of an index in an order. -/
def position (order : List (Fin n)) (i : Fin n) : ℕ :=
  order.idxOf i

/-- Renaming the indices moves the positions along. -/
theorem position_map (order : List (Fin n)) (σ : Equiv.Perm (Fin n)) (i : Fin n) :
    position (order.map σ) (σ i) = position order i := by
  unfold position
  induction order with
  | nil => rfl
  | cons j rest ih =>
    by_cases hj : j = i
    · rw [List.map_cons, hj, List.idxOf_cons_self, List.idxOf_cons_self]
    · rw [List.map_cons, List.idxOf_cons_ne _ (σ.injective.ne hj), ih,
        List.idxOf_cons_ne _ hj]

namespace IsArgsort

variable {le : Key → Key → Prop} {keys : Fin n → Key} {order : List (Fin n)}

theorem position_lt (h : IsArgsort le keys order) (i : Fin n) :
    position order i < n := by
  have hlt := List.idxOf_lt_length_of_mem (h.mem i)
  rwa [h.length_eq] at hlt

theorem position_injective (h : IsArgsort le keys order) :
    Function.Injective (position order) := by
  intro i j hij
  exact (List.idxOf_inj (h.mem i)).mp hij

/-- Renaming the indices of the keys and of their order. -/
theorem map_perm (h : IsArgsort le keys order) (σ : Equiv.Perm (Fin n)) :
    IsArgsort le (keys ∘ σ.symm) (order.map σ) where
  perm := by
    refine (h.perm.map σ).trans ?_
    rw [List.perm_ext_iff_of_nodup ((List.nodup_finRange n).map σ.injective)
      (List.nodup_finRange n)]
    intro i
    simpa using σ.surjective i
  ascending := by
    rw [List.pairwise_map]
    simpa using h.ascending

end IsArgsort

section Positions

variable [LinearOrder Key] (keys : Fin n → Key)

/-- How many keys are smaller than one of them. -/
def below (i : Fin n) : ℕ :=
  (Finset.univ.filter fun j => keys j < keys i).card

/-- The indices with the key of one of them. -/
def ties (i : Fin n) : Finset (Fin n) :=
  Finset.univ.filter fun j => keys j = keys i

/-- How many keys are greater than one of them. -/
def above (i : Fin n) : ℕ :=
  (Finset.univ.filter fun j => keys i < keys j).card

/-- Each key is smaller than a given one, equal to it, or greater. -/
theorem below_add_ties_add_above (i : Fin n) :
    below keys i + (ties keys i).card + above keys i = n := by
  have hsplit := Finset.card_filter_add_card_filter_not (s := Finset.univ)
    fun j => keys j < keys i
  have hrest := Finset.card_filter_add_card_filter_not
    (s := Finset.univ.filter fun j => ¬ keys j < keys i) fun j => keys j = keys i
  have hties : (Finset.univ.filter fun j => ¬ keys j < keys i).filter (fun j => keys j = keys i) =
      ties keys i := by
    ext j
    simp only [ties, Finset.mem_filter, Finset.mem_univ, true_and, and_iff_right_iff_imp, not_lt]
    exact fun h => h.ge
  have habove : ((Finset.univ.filter fun j => ¬ keys j < keys i).filter
      fun j => ¬ keys j = keys i) = Finset.univ.filter fun j => keys i < keys j := by
    ext j
    simp only [Finset.mem_filter, Finset.mem_univ, true_and, not_lt]
    exact ⟨fun h => lt_of_le_of_ne h.1 (Ne.symm h.2), fun h => ⟨h.le, h.ne'⟩⟩
  rw [hties, habove] at hrest
  rw [Finset.card_univ, Fintype.card_fin] at hsplit
  unfold below above
  omega

variable {keys} {order : List (Fin n)}

theorem mem_ties {i j : Fin n} : j ∈ ties keys i ↔ keys j = keys i := by
  simp [ties]

theorem self_mem_ties (i : Fin n) : i ∈ ties keys i :=
  mem_ties.mpr rfl

theorem below_congr {i j : Fin n} (h : keys j = keys i) : below keys j = below keys i := by
  rw [below, below, h]

theorem ties_congr {i j : Fin n} (h : keys j = keys i) : ties keys j = ties keys i := by
  rw [ties, ties, h]

namespace IsArgsort

/-- A smaller key stands before a greater one. -/
theorem position_lt_position (h : IsArgsort (· ≤ ·) keys order) {i j : Fin n}
    (hij : keys i < keys j) : position order i < position order j := by
  by_contra hnot
  rcases lt_or_eq_of_le (not_lt.mp hnot) with hlt | heq
  · have hpair := List.pairwise_iff_getElem.mp h.ascending (position order j) (position order i)
      (List.idxOf_lt_length_of_mem (h.mem j)) (List.idxOf_lt_length_of_mem (h.mem i)) hlt
    simp only [position, List.getElem_idxOf] at hpair
    exact absurd hpair (not_le.mpr hij)
  · rw [h.position_injective heq] at hij
    exact lt_irrefl _ hij

theorem below_le_position (h : IsArgsort (· ≤ ·) keys order) (i : Fin n) :
    below keys i ≤ position order i := by
  have hsub : (Finset.univ.filter fun j => keys j < keys i).image (position order) ⊆
      Finset.range (position order i) := by
    intro k hk
    obtain ⟨j, hj, rfl⟩ := Finset.mem_image.mp hk
    exact Finset.mem_range.mpr (h.position_lt_position (Finset.mem_filter.mp hj).2)
  have hcard := Finset.card_le_card hsub
  rwa [Finset.card_image_of_injective _ h.position_injective, Finset.card_range] at hcard

theorem above_lt (h : IsArgsort (· ≤ ·) keys order) (i : Fin n) :
    position order i + above keys i < n := by
  have hsub : (Finset.univ.filter fun j => keys i < keys j).image (position order) ⊆
      Finset.Ioo (position order i) n := by
    intro k hk
    obtain ⟨j, hj, rfl⟩ := Finset.mem_image.mp hk
    exact Finset.mem_Ioo.mpr
      ⟨h.position_lt_position (Finset.mem_filter.mp hj).2, h.position_lt j⟩
  have hcard := Finset.card_le_card hsub
  rw [Finset.card_image_of_injective _ h.position_injective, Nat.card_Ioo] at hcard
  have hlt := h.position_lt i
  unfold above
  omega

/-- Equal keys stand together, after all smaller ones. -/
theorem image_position (h : IsArgsort (· ≤ ·) keys order) (i : Fin n) :
    (ties keys i).image (position order) =
      Finset.Ico (below keys i) (below keys i + (ties keys i).card) := by
  refine Finset.eq_of_subset_of_card_le ?_ ?_
  · intro k hk
    obtain ⟨j, hj, rfl⟩ := Finset.mem_image.mp hk
    have hkey := mem_ties.mp hj
    have hlower := h.below_le_position j
    have hupper := h.above_lt j
    have hcount := below_add_ties_add_above keys j
    rw [below_congr hkey] at hlower hcount
    rw [ties_congr hkey] at hcount
    rw [Finset.mem_Ico]
    omega
  · rw [Finset.card_image_of_injective _ h.position_injective, Nat.card_Ico]
    omega

/-- A key without an equal stands after exactly the smaller ones. -/
theorem position_eq_below (h : IsArgsort (· ≤ ·) keys order) {i : Fin n}
    (hi : ties keys i = {i}) : position order i = below keys i := by
  have himage := h.image_position i
  rw [hi, Finset.image_singleton, Finset.card_singleton, Nat.Ico_succ_singleton] at himage
  exact Finset.singleton_injective himage

end IsArgsort

/-- The sum of some consecutive numbers. -/
theorem sum_Ico_succ {F : Type*} [Field F] [CharZero F] (b m : ℕ) :
    ∑ k ∈ Finset.Ico b (b + m), ((k : F) + 1) = m * (b + (m + 1) / 2) := by
  induction m with
  | zero => simp
  | succ m ih =>
    rw [← Nat.add_assoc, Finset.sum_Ico_succ_top (by omega), ih]
    push_cast
    field_simp
    ring

/-- The sum of the ranks of equal keys. -/
theorem IsArgsort.sum_position {F : Type*} [Field F] [CharZero F]
    (h : IsArgsort (· ≤ ·) keys order) (i : Fin n) :
    ∑ j ∈ ties keys i, ((position order j : F) + 1) =
      (ties keys i).card * (below keys i + ((ties keys i).card + 1) / 2) := by
  rw [← sum_Ico_succ, ← h.image_position i,
    Finset.sum_image fun a _ b _ hab => h.position_injective hab]

/-! ## Average ranks -/

/-- The rank of a key, counted from one; equal keys have the mean of their ranks. -/
def averageRank {F : Type*} [Field F] (keys : Fin n → Key) (i : Fin n) : F :=
  below keys i + ((ties keys i).card + 1) / 2

/-- The mean of the ranks of equal keys does not depend on their order. -/
theorem IsArgsort.mean_position {F : Type*} [Field F] [CharZero F]
    (h : IsArgsort (· ≤ ·) keys order) (i : Fin n) :
    (∑ j ∈ ties keys i, ((position order j : F) + 1)) / (ties keys i).card =
      averageRank keys i := by
  have hcard : ((ties keys i).card : F) ≠ 0 := by
    exact_mod_cast (Finset.card_pos.mpr ⟨i, self_mem_ties i⟩).ne'
  rw [h.sum_position i, mul_div_cancel_left₀ _ hcard, averageRank]

/-- Without equal keys, the rank of a key is its position. -/
theorem IsArgsort.position_add_one {F : Type*} [Field F] [CharZero F]
    (h : IsArgsort (· ≤ ·) keys order) (hinj : Function.Injective keys) (i : Fin n) :
    (position order i : F) + 1 = averageRank keys i := by
  have hties : ties keys i = {i} := by
    ext j
    rw [mem_ties, Finset.mem_singleton, hinj.eq_iff]
  rw [averageRank, hties, Finset.card_singleton, h.position_eq_below hties, Nat.cast_one,
    one_add_one_eq_two, div_self (by exact_mod_cast (two_ne_zero : (2 : ℕ) ≠ 0))]

/-- The rank of a key moves with the key. -/
theorem averageRank_comp {F : Type*} [Field F] (keys : Fin n → Key) (σ : Equiv.Perm (Fin n)) :
    averageRank (F := F) (keys ∘ σ) = averageRank keys ∘ σ := by
  funext i
  have hbelow : below (keys ∘ σ) i = below keys (σ i) :=
    Finset.card_equiv σ fun j => by simp
  have hties : (ties (keys ∘ σ) i).card = (ties keys (σ i)).card :=
    Finset.card_equiv σ fun j => by simp [ties]
  rw [averageRank, hbelow, hties, Function.comp_apply, averageRank]

section StrictMono

variable {Other : Type*} [LinearOrder Other] {f : Key → Other}

/-! Only the order of the keys counts. -/

theorem below_strictMono (hf : StrictMono f) (keys : Fin n → Key) (i : Fin n) :
    below (f ∘ keys) i = below keys i := by
  simp only [below, Function.comp_apply, hf.lt_iff_lt]

theorem above_strictMono (hf : StrictMono f) (keys : Fin n → Key) (i : Fin n) :
    above (f ∘ keys) i = above keys i := by
  simp only [above, Function.comp_apply, hf.lt_iff_lt]

theorem ties_strictMono (hf : StrictMono f) (keys : Fin n → Key) (i : Fin n) :
    ties (f ∘ keys) i = ties keys i := by
  simp only [ties, Function.comp_apply, hf.injective.eq_iff]

theorem averageRank_strictMono {F : Type*} [Field F] (hf : StrictMono f) (keys : Fin n → Key) :
    averageRank (F := F) (f ∘ keys) = averageRank keys := by
  funext i
  rw [averageRank, below_strictMono hf, ties_strictMono hf, averageRank]

end StrictMono

end Positions

end QuantumSentinel.Lib
