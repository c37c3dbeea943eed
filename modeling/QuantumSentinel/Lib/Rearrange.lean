import Mathlib.Data.List.Perm.Basic
import Mathlib.Data.List.Nodup
import Mathlib.Data.List.Range
import Mathlib.Data.List.GetD

/-!
# Rearranged lists

The items of a list at some indices, in the order of the indices: what indexing an array with an
array of indices gives.  With a rearrangement of all indices nothing is lost, and another
rearrangement leads back.

Main results:

- Theorem `pick_map` and `forall₂_pick`: what is done item by item is done to the picked
  items.
- Theorem `pick_pick`: two rearrangements are one.
- Theorem `exists_inverse`: every rearrangement can be undone.
-/

namespace QuantumSentinel.Lib

variable {α β : Type*} {l : List α} {order : List ℕ} {n : ℕ}

/-- The items at some indices; indices beyond the list are passed over. -/
def pick (l : List α) (order : List ℕ) : List α :=
  order.filterMap fun i => l[i]?

@[simp]
theorem pick_nil (order : List ℕ) : pick ([] : List α) order = [] := by
  induction order with
  | nil => rfl
  | cons i rest ih => exact ih

theorem pick_cons_of_lt {i : ℕ} (hi : i < l.length) (order : List ℕ) :
    pick l (i :: order) = l[i] :: pick l order :=
  List.filterMap_cons_some (List.getElem?_eq_getElem hi)

theorem pick_cons_of_le {i : ℕ} (hi : l.length ≤ i) (order : List ℕ) :
    pick l (i :: order) = pick l order :=
  List.filterMap_cons_none (List.getElem?_eq_none hi)

theorem mem_of_mem_pick {a : α} (h : a ∈ pick l order) : a ∈ l := by
  obtain ⟨i, -, hi⟩ := List.mem_filterMap.mp h
  exact List.mem_of_getElem? hi

theorem pick_map (f : α → β) (l : List α) (order : List ℕ) :
    pick (l.map f) order = (pick l order).map f := by
  simp only [pick, List.getElem?_map, List.map_filterMap]

/-- Related lists have related items at the same indices. -/
theorem forall₂_pick {R : α → β → Prop} {r : List β} (h : List.Forall₂ R l r) (order : List ℕ) :
    List.Forall₂ R (pick l order) (pick r order) := by
  induction order with
  | nil => exact List.Forall₂.nil
  | cons i rest ih =>
    by_cases hi : i < l.length
    · have hi' : i < r.length := h.length_eq ▸ hi
      rw [pick_cons_of_lt hi, pick_cons_of_lt hi']
      exact List.Forall₂.cons (h.get hi hi') ih
    · have hi' : r.length ≤ i := h.length_eq ▸ not_lt.mp hi
      rw [pick_cons_of_le (not_lt.mp hi), pick_cons_of_le hi']
      exact ih

/-- Indices in range, with any value for the others. -/
theorem pick_eq_map (h : ∀ i ∈ order, i < l.length) (a : α) :
    pick l order = order.map fun i => l.getD i a := by
  induction order with
  | nil => rfl
  | cons i rest ih =>
    have hi := h i (List.mem_cons_self ..)
    rw [pick_cons_of_lt hi, List.map_cons, List.getD_eq_getElem _ _ hi,
      ih fun j hj => h j (List.mem_cons_of_mem i hj)]

theorem length_pick (h : ∀ i ∈ order, i < l.length) : (pick l order).length = order.length := by
  induction order with
  | nil => rfl
  | cons i rest ih =>
    rw [pick_cons_of_lt (h i (List.mem_cons_self ..)), List.length_cons, List.length_cons,
      ih fun j hj => h j (List.mem_cons_of_mem i hj)]

/-- All items in their own order. -/
theorem pick_range (l : List α) : pick l (List.range l.length) = l := by
  have hlt : ∀ i ∈ List.range l.length, i < l.length := fun i hi => List.mem_range.mp hi
  apply List.ext_getElem
  · rw [length_pick hlt, List.length_range]
  · intro i hi hi'
    simp only [pick_eq_map hlt l[i], List.getElem_map, List.getElem_range]
    exact List.getD_eq_getElem _ _ hi'

/-- A rearrangement of a rearranged list is one of the list. -/
theorem pick_pick (h : ∀ i ∈ order, i < l.length) (order' : List ℕ) :
    pick (pick l order) order' = pick l (pick order order') := by
  induction order' with
  | nil => rfl
  | cons j rest ih =>
    by_cases hj : j < order.length
    · have hj' : j < (pick l order).length := by rwa [length_pick h]
      have hlt : order[j] < l.length := h _ (List.getElem_mem hj)
      have hitem : (pick l order)[j] = l[order[j]] := by
        simp only [pick_eq_map h l[order[j]], List.getElem_map]
        exact List.getD_eq_getElem _ _ hlt
      rw [pick_cons_of_lt hj', pick_cons_of_lt hj, pick_cons_of_lt hlt, hitem, ih]
    · have hj' : (pick l order).length ≤ j := by
        rw [length_pick h]
        exact not_lt.mp hj
      rw [pick_cons_of_le hj', pick_cons_of_le (not_lt.mp hj), ih]

/-- A rearrangement that undoes another. -/
theorem pick_back (h : ∀ i ∈ order, i < l.length) {inverse : List ℕ}
    (hback : pick order inverse = List.range l.length) : pick (pick l order) inverse = l := by
  rw [pick_pick h, hback, pick_range]

/-- Every rearrangement can be undone. -/
theorem exists_inverse (h : order.Perm (List.range n)) :
    ∃ inverse : List ℕ, inverse.Perm (List.range n) ∧ pick order inverse = List.range n := by
  have hlength : order.length = n := by rw [h.length_eq, List.length_range]
  have hmem : ∀ i ∈ List.range n, i ∈ order := fun i hi => h.mem_iff.mpr hi
  refine ⟨(List.range n).map order.idxOf, ?_, ?_⟩
  · have hnodup : ((List.range n).map order.idxOf).Nodup := by
      refine List.Nodup.map_on (fun i hi j hj heq => ?_) List.nodup_range
      exact (List.idxOf_inj (hmem i hi)).mp heq
    have hsub : (List.range n).map order.idxOf ⊆ List.range n := by
      intro k hk
      obtain ⟨i, hi, rfl⟩ := List.mem_map.mp hk
      rw [List.mem_range, ← hlength]
      exact List.idxOf_lt_length_iff.mpr (hmem i hi)
    refine (List.subperm_of_subset hnodup hsub).perm_of_length_le ?_
    rw [List.length_map]
  · rw [pick, List.filterMap_map]
    have hfound : ∀ i ∈ List.range n,
        ((fun k => order[k]?) ∘ order.idxOf) i = some i := fun i hi =>
      List.getElem?_idxOf (hmem i hi)
    rw [List.filterMap_congr hfound, List.filterMap_some]

/-- A list is known by its images when the images tell its items apart. -/
theorem eq_of_map_eq {f : α → β} {l l' : List α} (h : l.map f = l'.map f)
    (hinj : ∀ a ∈ l, ∀ a' ∈ l', f a = f a' → a = a') : l = l' := by
  induction l generalizing l' with
  | nil =>
    rw [List.map_nil] at h
    exact (List.map_eq_nil_iff.mp h.symm).symm
  | cons a rest ih =>
    cases l' with
    | nil => cases h
    | cons a' rest' =>
      rw [List.map_cons, List.map_cons, List.cons.injEq] at h
      have hhead := hinj a (List.mem_cons_self ..) a' (List.mem_cons_self ..) h.1
      rw [hhead, ih h.2 fun x hx x' hx' =>
        hinj x (List.mem_cons_of_mem a hx) x' (List.mem_cons_of_mem a' hx')]

end QuantumSentinel.Lib
