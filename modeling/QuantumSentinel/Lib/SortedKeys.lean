import Mathlib.Data.List.Sort
import Mathlib.Order.Defs.LinearOrder

/-!
# Sorted key lists

A strictly ascending list of keys kept beside a dictionary: binary-search insertion, and
removal at the position binary search yields.  On an ascending list the search position
is the number of smaller keys, so it is defined so.

Main results:

- Theorem `insort_pairwise` and `mem_insort`: insertion.
- Theorem `popKey_eq_filter`: removal takes out exactly the key.
- Theorem `insertionSort_split`: a sorted list is cut at a key.
-/

namespace QuantumSentinel.Lib

universe u

variable {α : Type u} [LinearOrder α]

/-- Position of the first key that is not smaller. -/
def bisectLeft (keys : List α) (k : α) : Nat :=
  (keys.takeWhile fun x => x < k).length

/-- Insert a key behind all keys that are not greater. -/
def insort (keys : List α) (k : α) : List α :=
  (keys.takeWhile fun x => x ≤ k) ++ k :: keys.dropWhile fun x => x ≤ k

/-- Remove the key at its search position, if it is there. -/
def popKey (keys : List α) (k : α) : List α :=
  let idx := bisectLeft keys k
  if keys[idx]? = some k then keys.eraseIdx idx else keys

theorem mem_insort {keys : List α} {k x : α} : x ∈ insort keys k ↔ x = k ∨ x ∈ keys := by
  have hsplit : x ∈ keys ↔ x ∈ keys.takeWhile (fun x => decide (x ≤ k)) ∨
      x ∈ keys.dropWhile (fun x => decide (x ≤ k)) := by
    rw [← List.mem_append, List.takeWhile_append_dropWhile]
  rw [hsplit, insort, List.mem_append, List.mem_cons]
  exact or_left_comm

/-- Inserting an absent key keeps the list strictly ascending. -/
theorem insort_pairwise {keys : List α} {k : α} (hsorted : keys.Pairwise (· < ·))
    (hk : k ∉ keys) : (insort keys k).Pairwise (· < ·) := by
  induction keys with
  | nil => simp [insort]
  | cons a rest ih =>
    rcases List.pairwise_cons.mp hsorted with ⟨ha, hrest⟩
    have hne : a ≠ k := fun heq => hk (heq ▸ List.mem_cons_self ..)
    have hk' : k ∉ rest := fun hmem => hk (List.mem_cons_of_mem a hmem)
    by_cases hle : a ≤ k
    · have hlt : a < k := lt_of_le_of_ne hle hne
      have hcons : insort (a :: rest) k = a :: insort rest k := by
        simp [insort, hle]
      rw [hcons]
      refine List.pairwise_cons.mpr ⟨?_, ih hrest hk'⟩
      intro x hx
      rcases mem_insort.mp hx with rfl | hmem
      · exact hlt
      · exact ha x hmem
    · have hlt : k < a := not_le.mp hle
      have hcons : insort (a :: rest) k = k :: a :: rest := by
        simp [insort, hle]
      rw [hcons]
      refine List.pairwise_cons.mpr ⟨?_, hsorted⟩
      intro x hx
      rcases List.mem_cons.mp hx with rfl | hmem
      · exact hlt
      · exact hlt.trans (ha x hmem)

/-- On an ascending list the removal takes out exactly the key. -/
theorem popKey_eq_filter {keys : List α} (hsorted : keys.Pairwise (· < ·)) (k : α) :
    popKey keys k = keys.filter fun x => x ≠ k := by
  induction keys with
  | nil => rfl
  | cons a rest ih =>
    rcases List.pairwise_cons.mp hsorted with ⟨ha, hrest⟩
    by_cases hlt : a < k
    · have hidx : bisectLeft (a :: rest) k = bisectLeft rest k + 1 := by
        simp [bisectLeft, hlt]
      have hpop : popKey (a :: rest) k = a :: popKey rest k := by
        simp only [popKey, hidx, List.getElem?_cons_succ, List.eraseIdx_cons_succ]
        split <;> rfl
      rw [hpop, ih hrest, List.filter_cons_of_pos (by simpa using hlt.ne)]
    · have hidx : bisectLeft (a :: rest) k = 0 := by
        simp [bisectLeft, hlt]
      have hgt : ∀ x ∈ rest, x ≠ k := fun x hx =>
        (lt_of_le_of_lt (not_lt.mp hlt) (ha x hx)).ne'
      have hkeep : (rest.filter fun x => x ≠ k) = rest :=
        List.filter_eq_self.mpr fun x hx => by simpa using hgt x hx
      simp only [popKey, hidx, List.getElem?_cons_zero, Option.some.injEq,
        List.eraseIdx_zero, List.tail_cons]
      by_cases heq : a = k
      · rw [if_pos heq, List.filter_cons_of_neg (by simp [heq]), hkeep]
      · rw [if_neg heq, List.filter_cons_of_pos (by simpa using heq), hkeep]

theorem mem_popKey {keys : List α} (hsorted : keys.Pairwise (· < ·)) {k x : α} :
    x ∈ popKey keys k ↔ x ∈ keys ∧ x ≠ k := by
  rw [popKey_eq_filter hsorted]
  simp

theorem popKey_pairwise {keys : List α} (hsorted : keys.Pairwise (· < ·)) (k : α) :
    (popKey keys k).Pairwise (· < ·) := by
  rw [popKey_eq_filter hsorted]
  exact hsorted.filter _

/-! ## Sorting and filters -/

section Sorting

variable {ι : Type u} (r : ι → ι → Prop) [DecidableRel r]

/-- A filter that keeps what comes later does not notice an insertion in front of it. -/
theorem filter_orderedInsert (p : ι → Bool) (hup : ∀ a b, r a b → p a = true → p b = true)
    (a : ι) (l : List ι) :
    (l.orderedInsert r a).filter p =
      if p a = true then (l.filter p).orderedInsert r a else l.filter p := by
  induction l with
  | nil => rw [List.orderedInsert_nil, List.filter_cons, List.filter_nil, List.orderedInsert_nil]
  | cons b rest ih =>
    by_cases hab : r a b
    · rw [List.orderedInsert_cons_of_le r rest hab, List.filter_cons]
      split
      · rename_i ha
        rw [List.filter_cons, if_pos (hup a b hab ha), List.orderedInsert_cons_of_le r _ hab]
      · rfl
    · rw [List.orderedInsert_of_not_le r rest hab, List.filter_cons, ih, List.filter_cons]
      by_cases hb : p b = true
      · rw [if_pos hb, if_pos hb]
        split
        · rw [List.orderedInsert_of_not_le r _ hab]
        · rfl
      · rw [if_neg hb, if_neg hb]

theorem filter_insertionSort (p : ι → Bool) (hup : ∀ a b, r a b → p a = true → p b = true)
    (l : List ι) : (l.insertionSort r).filter p = (l.filter p).insertionSort r := by
  induction l with
  | nil => rfl
  | cons a rest ih =>
    rw [List.insertionSort_cons, filter_orderedInsert r p hup, ih, List.filter_cons]
    split
    · rw [List.insertionSort_cons]
    · rfl

/-- A filter that stops for good when it stops keeps a prefix. -/
theorem takeWhile_eq_filter (p : ι → Bool) {l : List ι}
    (h : l.Pairwise fun a b => p b = true → p a = true) : l.takeWhile p = l.filter p := by
  induction l with
  | nil => rfl
  | cons a rest ih =>
    rcases List.pairwise_cons.mp h with ⟨ha, hrest⟩
    cases hp : p a with
    | true => rw [List.takeWhile_cons_of_pos hp, List.filter_cons_of_pos hp, ih hrest]
    | false =>
      have hnone : rest.filter p = [] :=
        List.filter_eq_nil_iff.mpr fun b hb hpb => by
          rw [ha b hb hpb] at hp
          cases hp
      rw [List.takeWhile_cons_of_neg (by simp [hp]), List.filter_cons_of_neg (by simp [hp]),
        hnone]

/-- A list in the order of its keys is cut at a key. -/
theorem filter_append_filter_of_pairwise (f : ι → α) (bound : α) {l : List ι}
    (h : l.Pairwise fun a b => f a ≤ f b) :
    (l.filter fun a => f a ≤ bound) ++ (l.filter fun a => bound < f a) = l := by
  induction l with
  | nil => rfl
  | cons a rest ih =>
    rcases List.pairwise_cons.mp h with ⟨ha, hrest⟩
    by_cases hle : f a ≤ bound
    · rw [List.filter_cons_of_pos (by simpa), List.filter_cons_of_neg (by simpa),
        List.cons_append, ih hrest]
    · have hlt : bound < f a := not_le.mp hle
      have hnone : (rest.filter fun b => f b ≤ bound) = [] := by
        apply List.filter_eq_nil_iff.mpr
        intro b hb
        simpa using lt_of_lt_of_le hlt (ha b hb)
      have hall : (rest.filter fun b => bound < f b) = rest := by
        apply List.filter_eq_self.mpr
        intro b hb
        simpa using lt_of_lt_of_le hlt (ha b hb)
      rw [List.filter_cons_of_neg (by simpa using hlt), List.filter_cons_of_pos (by simpa),
        hnone, hall, List.nil_append]

/-- A sorted list is cut at a key. -/
theorem insertionSort_split (f : ι → α) (bound : α) (l : List ι) :
    ((l.insertionSort fun a b => f a ≤ f b).filter fun a => f a ≤ bound) ++
        (l.filter fun a => bound < f a).insertionSort (fun a b => f a ≤ f b) =
      l.insertionSort fun a b => f a ≤ f b := by
  have htotal : Std.Total fun a b : ι => f a ≤ f b := ⟨fun a b => le_total (f a) (f b)⟩
  have htrans : IsTrans ι fun a b => f a ≤ f b := ⟨fun _ _ _ h h' => le_trans h h'⟩
  rw [← filter_insertionSort]
  · exact filter_append_filter_of_pairwise f bound (List.pairwise_insertionSort _ l)
  · intro a b hab ha
    exact decide_eq_true (lt_of_lt_of_le (of_decide_eq_true ha) hab)

end Sorting

end QuantumSentinel.Lib
