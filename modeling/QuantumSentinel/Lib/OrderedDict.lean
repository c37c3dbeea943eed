import Mathlib.Data.List.TakeWhile
import Mathlib.Order.Lattice
import QuantumSentinel.Lib.Dict

/-!
# Dictionaries kept in order of use

What `OrderedDict` adds to a dictionary: the oldest item is deleted, a key is moved to the end.
A dictionary whose items are moved to the end whenever they are used is pruned from the front.

Main results:

- Definition `Dict.popFront` and `Dict.moveToEnd`.
- Theorem `Dict.get?_popFront_cases`: pruning loses nothing but dead items.
- Definition `Dict.OldestFirst`: the order, and what keeps it.
- Theorem `Dict.OldestFirst.live_popFront`: with the order, pruning leaves no dead item behind.
-/

namespace QuantumSentinel.Lib
namespace Dict

variable {κ ν : Type*}

/-! ## Pruning -/

/-- The loop that deletes the first item as long as it is dead. -/
def popFront (d : Dict κ ν) (dead : ν → Bool) : Dict κ ν where
  items := d.items.dropWhile fun item => dead item.2
  nodup := d.nodup.sublist ((List.dropWhile_sublist _).map Prod.fst)

theorem items_popFront (d : Dict κ ν) (dead : ν → Bool) :
    (d.popFront dead).items = d.items.dropWhile fun item => dead item.2 :=
  rfl

/-- `d.popitem(last=False)`, for a dictionary that is not empty. -/
def popOldest (d : Dict κ ν) : Dict κ ν where
  items := d.items.tail
  nodup := d.nodup.sublist ((List.tail_sublist _).map Prod.fst)

theorem mem_of_mem_popFront {d : Dict κ ν} {dead : ν → Bool} {item : κ × ν}
    (h : item ∈ (d.popFront dead).items) : item ∈ d.items :=
  (List.dropWhile_sublist _).subset h

/-- A live item is kept. -/
theorem mem_popFront_of_live {d : Dict κ ν} {dead : ν → Bool} {item : κ × ν} (h : item ∈ d.items)
    (hlive : dead item.2 = false) : item ∈ (d.popFront dead).items := by
  rw [← List.takeWhile_append_dropWhile (p := fun item => dead item.2) (l := d.items),
    List.mem_append] at h
  rcases h with hdropped | hkept
  · have hdead := List.mem_takeWhile_imp hdropped
    rw [hlive] at hdead
    cases hdead
  · exact hkept

section Lookups

variable [DecidableEq κ]

/-- Under every key, pruning keeps the value or deletes a dead one. -/
theorem get?_popFront_cases (d : Dict κ ν) (dead : ν → Bool) (k : κ) :
    (d.popFront dead).get? k = d.get? k ∨
      ∃ v, d.get? k = some v ∧ dead v = true ∧ (d.popFront dead).get? k = none := by
  cases h : (d.popFront dead).get? k with
  | some v => exact Or.inl (get?_eq_some_iff.mpr (mem_of_mem_popFront (get?_eq_some_iff.mp h))).symm
  | none =>
    cases hv : d.get? k with
    | none => exact Or.inl rfl
    | some v =>
      refine Or.inr ⟨v, rfl, ?_, rfl⟩
      by_contra hlive
      have hkept : (k, v) ∈ (d.popFront dead).items :=
        mem_popFront_of_live (get?_eq_some_iff.mp hv) (Bool.not_eq_true _ ▸ hlive)
      rw [get?_eq_some_iff.mpr hkept] at h
      cases h

/-- What is read of the values, and is the same of a dead value and of none, does not change. -/
theorem read_popFront {β : Type*} (d : Dict κ ν) {dead : ν → Bool} (k : κ) (read : Option ν → β)
    (hread : ∀ v, d.get? k = some v → dead v = true → read (some v) = read none) :
    read ((d.popFront dead).get? k) = read (d.get? k) := by
  rcases get?_popFront_cases d dead k with hsame | ⟨v, hv, hdead, hnone⟩
  · rw [hsame]
  · rw [hv, hnone, hread v hv hdead]

end Lookups

/-! ## Moving a key to the end -/

section MoveToEnd

variable [DecidableEq κ]

/-- `d.move_to_end(k)`, for a key that is there. -/
def moveToEnd (d : Dict κ ν) (k : κ) : Dict κ ν where
  items := (d.items.filter fun item => item.1 ≠ k) ++
    d.items.filter fun item => !decide (item.1 ≠ k)
  nodup := ((List.filter_append_perm _ d.items).map Prod.fst).nodup_iff.mpr d.nodup

@[simp]
theorem get?_moveToEnd (d : Dict κ ν) (k k' : κ) : (d.moveToEnd k).get? k' = d.get? k' :=
  lookup_perm (List.filter_append_perm _ d.items) (d.moveToEnd k).nodup k'

theorem mem_moveToEnd {d : Dict κ ν} {k : κ} {item : κ × ν} :
    item ∈ (d.moveToEnd k).items ↔ item ∈ d.items :=
  (List.filter_append_perm _ d.items).mem_iff

/-- Behind an assignment and a move the item is the last one. -/
theorem items_moveToEnd {d : Dict κ ν} {k : κ} {v : ν} (h : d.get? k = some v) :
    (d.moveToEnd k).items = (d.erase k).items ++ [(k, v)] := by
  have hlast : (d.items.filter fun item => !decide (item.1 ≠ k)) = [(k, v)] := by
    have hmem : ∀ item ∈ d.items.filter fun item => !decide (item.1 ≠ k), item = (k, v) := by
      intro item hitem
      obtain ⟨hin, hkey⟩ := List.mem_filter.mp hitem
      have hk : item.1 = k := by simpa using hkey
      have hsome : d.get? k = some item.2 := get?_eq_some_iff.mpr (hk ▸ hin)
      rw [h, Option.some.injEq] at hsome
      exact Prod.ext hk hsome.symm
    have hin : (k, v) ∈ d.items.filter fun item => !decide (item.1 ≠ k) :=
      List.mem_filter.mpr ⟨get?_eq_some_iff.mp h, by simp⟩
    have hnodup : (d.items.filter fun item => !decide (item.1 ≠ k)).Nodup :=
      (List.Nodup.of_map Prod.fst d.nodup).filter _
    exact (List.perm_singleton.mp ((List.perm_ext_iff_of_nodup hnodup
      (List.nodup_singleton _)).mpr fun item =>
        ⟨fun hi => List.mem_singleton.mpr (hmem item hi), fun hi =>
          List.mem_singleton.mp hi ▸ hin⟩))
  exact congrArg ((d.erase k).items ++ ·) hlast

omit [DecidableEq κ] in
theorem eq_of_items {d d' : Dict κ ν} (h : d.items = d'.items) : d = d' := by
  obtain ⟨items, nodup⟩ := d
  obtain ⟨items', nodup'⟩ := d'
  cases h
  rfl

theorem mem_of_mem_erase {d : Dict κ ν} {k : κ} {item : κ × ν} (h : item ∈ (d.erase k).items) :
    item ∈ d.items :=
  List.mem_of_mem_filter h

/-- Behind the deletion of a key it does not matter what was assigned to it. -/
theorem erase_set (d : Dict κ ν) (k : κ) (v : ν) :
    ((d.set k v).erase k).items = (d.erase k).items := by
  have hreplace : ∀ l : List (κ × ν), (replace k v l).filter (fun item => item.1 ≠ k) =
      l.filter fun item => item.1 ≠ k := by
    intro l
    induction l with
    | nil => rfl
    | cons item rest ih =>
      obtain ⟨k', v'⟩ := item
      simp only [replace]
      split
      · rename_i hk
        rw [List.filter_cons_of_neg (by simpa using hk), List.filter_cons_of_neg (by simpa using hk)]
      · rename_i hk
        rw [List.filter_cons_of_pos (by simpa using hk), List.filter_cons_of_pos (by simpa using hk),
          ih]
  unfold set
  split
  · exact hreplace d.items
  · simp [erase, List.filter_append]

/-- An assignment to the last key. -/
theorem items_set_last {d : Dict κ ν} {l : List (κ × ν)} {k : κ} {v : ν}
    (h : d.items = l ++ [(k, v)]) (w : ν) : (d.set k w).items = l ++ [(k, w)] := by
  have hnew : k ∉ l.map Prod.fst := by
    have hnodup := d.nodup
    rw [h, List.map_append, List.nodup_append] at hnodup
    intro hmem
    exact hnodup.2.2 k hmem k (List.mem_singleton.mpr rfl) rfl
  have hreplace : ∀ l : List (κ × ν), k ∉ l.map Prod.fst →
      replace k w (l ++ [(k, v)]) = l ++ [(k, w)] := by
    intro l hl
    induction l with
    | nil => simp [replace]
    | cons item rest ih =>
      obtain ⟨k', v'⟩ := item
      rw [List.map_cons, List.mem_cons, not_or] at hl
      rw [List.cons_append, replace, if_neg (Ne.symm hl.1), ih hl.2, List.cons_append]
  have hmem : k ∈ d.items.map Prod.fst := by
    rw [h, List.map_append]
    exact List.mem_append_right _ (List.mem_singleton.mpr rfl)
  have hset : (d.set k w).items = replace k w d.items := by rw [set, dif_pos hmem]
  rw [hset, h, hreplace l hnew]

/-- It does not matter whether a key is moved before or behind an assignment. -/
theorem set_moveToEnd {d : Dict κ ν} {k : κ} {v : ν} (h : d.get? k = some v) (w : ν) :
    (d.moveToEnd k).set k w = (d.set k w).moveToEnd k := by
  refine eq_of_items ?_
  rw [items_set_last (items_moveToEnd h) w, items_moveToEnd (get?_set_self d k w), erase_set]

/-- A key that is assigned twice and was new is the last one. -/
theorem set_set_new {d : Dict κ ν} {k : κ} (h : d.get? k = none) (v w : ν) :
    (d.set k v).set k w = (d.set k w).moveToEnd k := by
  have hnew : k ∉ d.items.map Prod.fst := get?_eq_none_iff.mp h
  have herase : (d.erase k).items = d.items := by
    refine List.filter_eq_self.mpr fun item hitem => ?_
    have hne : item.1 ≠ k := fun hk => hnew (hk ▸ List.mem_map_of_mem hitem)
    simpa using hne
  have hset : (d.set k v).items = d.items ++ [(k, v)] := by rw [set, dif_neg hnew]
  refine eq_of_items ?_
  rw [items_set_last hset w, items_moveToEnd (get?_set_self d k w), erase_set, herase]

/-- Assigning the value a key has changes nothing. -/
theorem set_self {d : Dict κ ν} {k : κ} {v : ν} (h : d.get? k = some v) : d.set k v = d := by
  have hreplace : ∀ l : List (κ × ν), lookup k l = some v → replace k v l = l := by
    intro l hl
    induction l with
    | nil => rfl
    | cons item rest ih =>
      obtain ⟨k', v'⟩ := item
      simp only [lookup] at hl
      simp only [replace]
      split at hl
      · rename_i hk
        cases hl
        rw [if_pos hk]
      · rename_i hk
        rw [if_neg hk, ih hl]
  have hmem : k ∈ d.items.map Prod.fst :=
    List.mem_map_of_mem (f := Prod.fst) (get?_eq_some_iff.mp h)
  obtain ⟨items, nodup⟩ := d
  rw [set, dif_pos hmem]
  simp only [mk.injEq]
  exact hreplace items h

end MoveToEnd

/-! ## The order of use -/

section Order

variable {F : Type*} [LinearOrder F]

/-- The items stand in the order of a time that is read from their values. -/
def OldestFirst (time : ν → F) (d : Dict κ ν) : Prop :=
  (d.items.map fun item => time item.2).Pairwise (· ≤ ·)

namespace OldestFirst

variable {time : ν → F} {d : Dict κ ν}

theorem empty : OldestFirst time (empty : Dict κ ν) :=
  List.Pairwise.nil

theorem popFront (h : d.OldestFirst time) (dead : ν → Bool) : (d.popFront dead).OldestFirst time :=
  h.sublist ((List.dropWhile_sublist _).map _)

/-- With the order, pruning leaves no dead item behind. -/
theorem live_popFront (h : d.OldestFirst time) (dead : ν → Bool)
    (hdead : ∀ a ∈ d.items, ∀ b ∈ d.items, time a.2 ≤ time b.2 → dead b.2 = true →
      dead a.2 = true) :
    ∀ item ∈ (d.popFront dead).items, dead item.2 = false := by
  intro item hitem
  have hin : item ∈ d.items := mem_of_mem_popFront hitem
  have horder : ((d.popFront dead).items.map fun item => time item.2).Pairwise (· ≤ ·) :=
    h.popFront dead
  rw [items_popFront] at hitem horder
  cases hfirst : d.items.dropWhile fun item => dead item.2 with
  | nil =>
    rw [hfirst] at hitem
    cases hitem
  | cons first rest =>
    have hfirstin : first ∈ d.items :=
      (List.dropWhile_sublist _).subset (hfirst ▸ List.mem_cons_self)
    have hlive : dead first.2 = false := by
      have hhead := List.head?_dropWhile_not (fun item : κ × ν => dead item.2) d.items
      rw [hfirst] at hhead
      simpa using hhead
    rw [hfirst] at hitem horder
    rcases List.mem_cons.mp hitem with heq | hlater
    · rw [heq]
      exact hlive
    · rw [List.map_cons, List.pairwise_cons] at horder
      have hle := horder.1 (time item.2) (List.mem_map_of_mem hlater)
      by_contra hdies
      rw [hdead first hfirstin item hin hle ((Bool.not_eq_false _).mp hdies)] at hlive
      cases hlive

variable [DecidableEq κ]

theorem erase (h : d.OldestFirst time) (k : κ) : (d.erase k).OldestFirst time :=
  h.sublist (List.filter_sublist.map _)

/-- A value with the same time may replace another. -/
theorem set_same {k : κ} {v w : ν} (h : d.OldestFirst time) (hw : d.get? k = some w)
    (htime : time v = time w) : (d.set k v).OldestFirst time := by
  have hsame : (d.set k v).map time = d.map time := by
    rw [map_set, htime]
    exact set_self (by rw [get?_map, hw]; rfl)
  have hitems : ∀ d : Dict κ ν,
      (d.items.map fun item => time item.2) = (d.map time).items.map Prod.snd := by
    intro d
    rw [Dict.map, List.map_map]
    rfl
  rw [OldestFirst, hitems, hsame, ← hitems]
  exact h

/-- An item that is moved to the end carries the latest time. -/
theorem moveToEnd {k : κ} {v : ν} (h : (d.erase k).OldestFirst time) (hv : d.get? k = some v)
    (hlatest : ∀ item ∈ (d.erase k).items, time item.2 ≤ time v) :
    (d.moveToEnd k).OldestFirst time := by
  rw [OldestFirst, items_moveToEnd hv, List.map_append]
  refine List.pairwise_append.mpr ⟨h, List.pairwise_singleton _ _, ?_⟩
  intro t ht t' ht'
  obtain ⟨item, hitem, rfl⟩ := List.mem_map.mp ht
  rw [List.map_cons, List.map_nil, List.mem_singleton] at ht'
  rw [ht']
  exact hlatest item hitem

/-- An assignment and a move carry the latest time. -/
theorem moved {k : κ} {v : ν} (h : d.OldestFirst time)
    (hlatest : ∀ item ∈ d.items, time item.2 ≤ time v) :
    ((d.set k v).moveToEnd k).OldestFirst time := by
  refine moveToEnd ?_ (get?_set_self d k v) ?_
  · rw [OldestFirst, erase_set]
    exact h.erase k
  · intro item hitem
    rw [erase_set] at hitem
    exact hlatest item (mem_of_mem_erase hitem)

end OldestFirst

end Order

end Dict
end QuantumSentinel.Lib
