import Mathlib.Data.List.Basic
import Mathlib.Data.List.Nodup
import Mathlib.Algebra.BigOperators.Group.List.Basic
import Mathlib.Tactic.Abel

/-!
# Insertion-ordered dictionaries

A dictionary is the list of its items in insertion order, carrying the proof that
no key occurs twice.  Assigning to a present key keeps its position, deleting
closes the gap.  The same structure serves as a table of rows under a primary key,
with the conditional update that returns whether a row matched.

Main results:

- Theorems `Dict.get?_set_self` and `Dict.get?_set_ne`: assignment.
- Theorems `Dict.get?_erase_self` and `Dict.get?_erase_ne`: deletion.
- Theorem `Dict.get?_updateWhere`: what a conditional update leaves behind.
- Theorem `Dict.sum_set_old` and `Dict.sum_set_new`: a total over the
  items after one assignment.
- Theorem `foldl_of_key`: folds that change one key at a time.
-/

namespace QuantumSentinel.Lib

universe u v

/-- A dictionary: its items in insertion order, with distinct keys. -/
structure Dict (κ : Type u) (ν : Type v) where
  items : List (κ × ν)
  nodup : (items.map Prod.fst).Nodup

namespace Dict

variable {κ : Type u} {ν : Type v}

/-- The keys in insertion order. -/
def keys (d : Dict κ ν) : List κ :=
  d.items.map Prod.fst

/-- The values in insertion order. -/
def values (d : Dict κ ν) : List ν :=
  d.items.map Prod.snd

/-- The empty dictionary. -/
def empty : Dict κ ν where
  items := []
  nodup := List.nodup_nil

@[simp]
theorem empty_items : (empty : Dict κ ν).items = [] :=
  rfl

variable [DecidableEq κ]

/-- First value stored under a key in a list of items. -/
def lookup (k : κ) : List (κ × ν) → Option ν
  | [] => none
  | (k', v) :: rest => if k' = k then some v else lookup k rest

/-- `d.get(k)`. -/
def get? (d : Dict κ ν) (k : κ) : Option ν :=
  lookup k d.items

/-- Overwrite the value under `k` in place. -/
def replace (k : κ) (v : ν) : List (κ × ν) → List (κ × ν)
  | [] => []
  | (k', v') :: rest => if k' = k then (k', v) :: rest else (k', v') :: replace k v rest

theorem replace_keys (k : κ) (v : ν) (l : List (κ × ν)) :
    (replace k v l).map Prod.fst = l.map Prod.fst := by
  induction l with
  | nil => rfl
  | cons p rest ih =>
    obtain ⟨k', v'⟩ := p
    simp only [replace]
    split
    · rfl
    · simp [ih]

/-- `d[k] = v`. -/
def set (d : Dict κ ν) (k : κ) (v : ν) : Dict κ ν :=
  if h : k ∈ d.items.map Prod.fst then
    { items := replace k v d.items
      nodup := by rw [replace_keys]; exact d.nodup }
  else
    { items := d.items ++ [(k, v)]
      nodup := by
        rw [List.map_append]
        exact d.nodup.append (List.nodup_singleton k) (by simpa using h) }

/-- `d.pop(k, None)`. -/
def erase (d : Dict κ ν) (k : κ) : Dict κ ν where
  items := d.items.filter fun p => p.1 ≠ k
  nodup := d.nodup.sublist (List.filter_sublist.map Prod.fst)

/-! ## Lookups -/

@[simp]
theorem lookup_nil (k : κ) : lookup k ([] : List (κ × ν)) = none :=
  rfl

@[simp]
theorem get?_empty (k : κ) : (empty : Dict κ ν).get? k = none :=
  rfl

theorem lookup_append (k : κ) (l l' : List (κ × ν)) :
    lookup k (l ++ l') = (lookup k l).or (lookup k l') := by
  induction l with
  | nil => simp
  | cons p rest ih =>
    obtain ⟨k', v'⟩ := p
    simp only [List.cons_append, lookup]
    split
    · rfl
    · exact ih

theorem lookup_eq_none_iff {k : κ} {l : List (κ × ν)} :
    lookup k l = none ↔ k ∉ l.map Prod.fst := by
  induction l with
  | nil => simp
  | cons p rest ih =>
    obtain ⟨k', v'⟩ := p
    by_cases h : k' = k
    · simp [lookup, h]
    · simp [lookup, h, ih, Ne.symm h]

theorem mem_of_lookup {k : κ} {v : ν} {l : List (κ × ν)} (h : lookup k l = some v) :
    (k, v) ∈ l := by
  induction l with
  | nil => simp at h
  | cons p rest ih =>
    obtain ⟨k', v'⟩ := p
    simp only [lookup] at h
    split at h
    · rename_i hk
      cases h
      simp [hk]
    · exact List.mem_cons_of_mem _ (ih h)

theorem lookup_of_mem {k : κ} {v : ν} {l : List (κ × ν)}
    (hnodup : (l.map Prod.fst).Nodup) (h : (k, v) ∈ l) : lookup k l = some v := by
  induction l with
  | nil => simp at h
  | cons p rest ih =>
    obtain ⟨k', v'⟩ := p
    simp only [List.map_cons, List.nodup_cons] at hnodup
    rcases List.mem_cons.mp h with heq | hmem
    · cases heq
      simp [lookup]
    · have hne : k' ≠ k := fun hk =>
        hnodup.1 (hk ▸ List.mem_map_of_mem (f := Prod.fst) hmem)
      simp [lookup, hne, ih hnodup.2 hmem]

/-- The order of the items does not matter. -/
theorem lookup_perm {l l' : List (κ × ν)} (hperm : l.Perm l')
    (hnodup : (l.map Prod.fst).Nodup) (k : κ) : lookup k l = lookup k l' := by
  have hnodup' : (l'.map Prod.fst).Nodup := (hperm.map Prod.fst).nodup_iff.mp hnodup
  cases hl : lookup k l with
  | none =>
    rw [lookup_eq_none_iff] at hl
    refine (lookup_eq_none_iff.mpr fun hmem => hl ?_).symm
    exact (hperm.map Prod.fst).mem_iff.mpr hmem
  | some v => exact (lookup_of_mem hnodup' (hperm.mem_iff.mp (mem_of_lookup hl))).symm

/-- Lookups and items agree. -/
theorem get?_eq_some_iff {d : Dict κ ν} {k : κ} {v : ν} :
    d.get? k = some v ↔ (k, v) ∈ d.items :=
  ⟨mem_of_lookup, lookup_of_mem d.nodup⟩

theorem get?_eq_none_iff {d : Dict κ ν} {k : κ} : d.get? k = none ↔ k ∉ d.keys :=
  lookup_eq_none_iff

theorem lookup_replace_self {k : κ} {v : ν} {l : List (κ × ν)}
    (h : k ∈ l.map Prod.fst) : lookup k (replace k v l) = some v := by
  induction l with
  | nil => simp at h
  | cons p rest ih =>
    obtain ⟨k', v'⟩ := p
    simp only [replace]
    split
    · rename_i hk
      simp [lookup, hk]
    · rename_i hk
      have hrest : k ∈ rest.map Prod.fst := by
        rcases List.mem_cons.mp h with heq | hmem
        · exact absurd heq.symm hk
        · exact hmem
      simp [lookup, hk, ih hrest]

theorem lookup_replace_ne {k k₁ : κ} (v : ν) (l : List (κ × ν)) (h : k₁ ≠ k) :
    lookup k₁ (replace k v l) = lookup k₁ l := by
  induction l with
  | nil => rfl
  | cons p rest ih =>
    obtain ⟨k', v'⟩ := p
    simp only [replace]
    split
    · rename_i hk
      subst hk
      simp [lookup, Ne.symm h]
    · simp [lookup, ih]

@[simp]
theorem get?_set_self (d : Dict κ ν) (k : κ) (v : ν) : (d.set k v).get? k = some v := by
  unfold set get?
  split
  · rename_i h
    exact lookup_replace_self h
  · rename_i h
    simp [lookup_append, lookup_eq_none_iff.mpr h, lookup]

theorem get?_set_ne (d : Dict κ ν) {k k₁ : κ} (v : ν) (h : k₁ ≠ k) :
    (d.set k v).get? k₁ = d.get? k₁ := by
  unfold set get?
  split
  · exact lookup_replace_ne v d.items h
  · simp [lookup_append, lookup, Ne.symm h]

/-- Assignment to a new key adds it behind the others. -/
theorem keys_set_of_notMem {d : Dict κ ν} {k : κ} (v : ν) (h : k ∉ d.keys) :
    (d.set k v).keys = d.keys ++ [k] := by
  have hset : d.set k v = ⟨d.items ++ [(k, v)], _⟩ := dif_neg h
  rw [hset, keys, keys, List.map_append]
  rfl

/-- Assignment to a key that is there keeps the keys. -/
theorem keys_set_of_mem {d : Dict κ ν} {k : κ} (v : ν) (h : k ∈ d.keys) :
    (d.set k v).keys = d.keys := by
  have hset : d.set k v = ⟨replace k v d.items, _⟩ := dif_pos h
  rw [hset]
  exact replace_keys k v d.items

/-- Assignment as one equation. -/
theorem get?_set (d : Dict κ ν) (k k₁ : κ) (v : ν) :
    (d.set k v).get? k₁ = if k₁ = k then some v else d.get? k₁ := by
  split
  · rename_i h
    subst h
    simp
  · rename_i h
    exact get?_set_ne d v h

theorem mem_set {d : Dict κ ν} {k : κ} {v : ν} {item : κ × ν} (h : item ∈ (d.set k v).items) :
    item = (k, v) ∨ item ∈ d.items := by
  obtain ⟨k', v'⟩ := item
  have hget := get?_eq_some_iff.mpr h
  rw [get?_set] at hget
  split at hget
  · rename_i hk
    cases hget
    exact Or.inl (by rw [hk])
  · exact Or.inr (get?_eq_some_iff.mp hget)

theorem lookup_filter_ne {k k₁ : κ} (l : List (κ × ν)) (h : k₁ ≠ k) :
    lookup k₁ (l.filter fun p => p.1 ≠ k) = lookup k₁ l := by
  induction l with
  | nil => rfl
  | cons p rest ih =>
    obtain ⟨k', v'⟩ := p
    by_cases hk : k' = k
    · subst hk
      simpa [lookup, Ne.symm h] using ih
    · rw [List.filter_cons_of_pos (by simpa using hk)]
      simp only [lookup, ih]

@[simp]
theorem get?_erase_self (d : Dict κ ν) (k : κ) : (d.erase k).get? k = none := by
  rw [get?_eq_none_iff]
  simp [keys, erase]

theorem get?_erase_ne (d : Dict κ ν) {k k₁ : κ} (h : k₁ ≠ k) :
    (d.erase k).get? k₁ = d.get? k₁ :=
  lookup_filter_ne d.items h

/-- Deletion as one equation. -/
theorem get?_erase (d : Dict κ ν) (k k₁ : κ) :
    (d.erase k).get? k₁ = if k₁ = k then none else d.get? k₁ := by
  split
  · rename_i h
    subst h
    simp
  · rename_i h
    exact get?_erase_ne d h

/-! ## Conditional updates -/

/-- Whether the row under `k` exists and satisfies the guard (`rowcount == 1`). -/
def matchesWhere (d : Dict κ ν) (k : κ) (guard : ν → Bool) : Bool :=
  match d.get? k with
  | none => false
  | some v => guard v

/-- `UPDATE ... SET new WHERE key = k AND guard`. -/
def updateWhere (d : Dict κ ν) (k : κ) (guard : ν → Bool) (new : ν → ν) : Dict κ ν :=
  match d.get? k with
  | none => d
  | some v => if guard v then d.set k (new v) else d

theorem matchesWhere_iff {d : Dict κ ν} {k : κ} {guard : ν → Bool} :
    d.matchesWhere k guard = true ↔ ∃ v, d.get? k = some v ∧ guard v = true := by
  unfold matchesWhere
  cases d.get? k <;> simp

/-- A conditional update that matches rewrites its row and nothing else. -/
theorem updateWhere_of_matches {d : Dict κ ν} {k : κ} {guard : ν → Bool} {v : ν}
    (new : ν → ν) (hv : d.get? k = some v) (hg : guard v = true) :
    d.updateWhere k guard new = d.set k (new v) := by
  simp [updateWhere, hv, hg]

/-- The row a conditional update leaves under the key it matches. -/
theorem get?_updateWhere_of_matches {d : Dict κ ν} {k : κ} {guard : ν → Bool} {v : ν}
    (new : ν → ν) (hv : d.get? k = some v) (hg : guard v = true) :
    (d.updateWhere k guard new).get? k = some (new v) := by
  rw [updateWhere_of_matches new hv hg, get?_set_self]

/-- A conditional update that matches no row changes nothing. -/
theorem updateWhere_of_not_matches {d : Dict κ ν} {k : κ} {guard : ν → Bool}
    (new : ν → ν) (h : d.matchesWhere k guard = false) :
    d.updateWhere k guard new = d := by
  unfold matchesWhere at h
  unfold updateWhere
  cases hv : d.get? k with
  | none => rfl
  | some v =>
    rw [hv] at h
    simp [h]

theorem get?_updateWhere_ne (d : Dict κ ν) {k k₁ : κ} (guard : ν → Bool) (new : ν → ν)
    (h : k₁ ≠ k) : (d.updateWhere k guard new).get? k₁ = d.get? k₁ := by
  unfold updateWhere
  cases d.get? k with
  | none => rfl
  | some v =>
    simp only
    split
    · exact get?_set_ne d _ h
    · rfl

/-- What a conditional update leaves under any key: the old row, or the new one
where the guard held. -/
theorem get?_updateWhere (d : Dict κ ν) (k k₁ : κ) (guard : ν → Bool) (new : ν → ν) :
    (d.updateWhere k guard new).get? k₁ =
      if k₁ = k then (d.get? k).map (fun v => if guard v then new v else v)
      else d.get? k₁ := by
  split
  · rename_i h
    subst h
    unfold updateWhere
    cases hv : d.get? k₁ with
    | none => simp [hv]
    | some v =>
      cases hg : guard v <;> simp [hv, hg]
  · rename_i h
    exact get?_updateWhere_ne d guard new h

/-! ## Updates of many rows -/

omit [DecidableEq κ] in
theorem mapValues_keys (f : κ → ν → ν) (l : List (κ × ν)) :
    (l.map fun p => (p.1, f p.1 p.2)).map Prod.fst = l.map Prod.fst := by
  rw [List.map_map]
  rfl

/-- `UPDATE ... SET` of every row, by a function of its key and its value. -/
def mapValues (d : Dict κ ν) (f : κ → ν → ν) : Dict κ ν where
  items := d.items.map fun p => (p.1, f p.1 p.2)
  nodup := by
    rw [mapValues_keys]
    exact d.nodup

theorem lookup_map {μ : Type*} (f : κ → ν → μ) (k : κ) (l : List (κ × ν)) :
    lookup k (l.map fun p => (p.1, f p.1 p.2)) = (lookup k l).map (f k) := by
  induction l with
  | nil => rfl
  | cons p rest ih =>
    obtain ⟨k', v'⟩ := p
    simp only [List.map_cons, lookup]
    split
    · rename_i h
      subst h
      rfl
    · exact ih

theorem get?_mapValues (d : Dict κ ν) (f : κ → ν → ν) (k : κ) :
    (d.mapValues f).get? k = (d.get? k).map (f k) :=
  lookup_map f k d.items

/-! ## The shape of the values -/

/-- The dictionary of what is seen of each value. -/
def map {μ : Type*} (d : Dict κ ν) (f : ν → μ) : Dict κ μ where
  items := d.items.map fun p => (p.1, f p.2)
  nodup := by
    rw [List.map_map]
    exact d.nodup

theorem get?_map {μ : Type*} (d : Dict κ ν) (f : ν → μ) (k : κ) :
    (d.map f).get? k = (d.get? k).map f :=
  lookup_map (fun _ => f) k d.items

theorem map_replace {μ : Type*} (f : ν → μ) (k : κ) (v : ν) (l : List (κ × ν)) :
    (replace k v l).map (fun p => (p.1, f p.2)) = replace k (f v) (l.map fun p => (p.1, f p.2)) := by
  induction l with
  | nil => rfl
  | cons p rest ih =>
    obtain ⟨k', v'⟩ := p
    simp only [List.map_cons, replace]
    split
    · rfl
    · rw [List.map_cons, ih]

/-- What is seen behind an assignment. -/
theorem map_set {μ : Type*} (d : Dict κ ν) (f : ν → μ) (k : κ) (v : ν) :
    (d.set k v).map f = (d.map f).set k (f v) := by
  have hkeys : (d.map f).items.map Prod.fst = d.items.map Prod.fst := by
    rw [map, List.map_map]
    rfl
  unfold set
  by_cases h : k ∈ d.items.map Prod.fst
  · rw [dif_pos h, dif_pos (hkeys ▸ h)]
    simp only [map, map_replace]
  · rw [dif_neg h, dif_neg (hkeys ▸ h)]
    simp only [map, List.map_append, List.map_cons, List.map_nil]

/-! ## Selected values -/

theorem filter_map_snd_replace {k : κ} {v w : ν} (p : ν → Bool) {l : List (κ × ν)}
    (h : lookup k l = some w) (hw : p w = false) :
    (p v = false → ((replace k v l).map Prod.snd).filter p = (l.map Prod.snd).filter p) ∧
      (p v = true →
        (((replace k v l).map Prod.snd).filter p).Perm (v :: (l.map Prod.snd).filter p)) := by
  induction l with
  | nil => simp at h
  | cons item rest ih =>
    rcases item with ⟨k', v'⟩
    simp only [lookup] at h
    simp only [replace]
    by_cases hk : k' = k
    · rw [if_pos hk] at h ⊢
      cases h
      constructor
      · intro hv
        simp [hw, hv]
      · intro hv
        simp [hw, hv]
    · rw [if_neg hk] at h ⊢
      rcases ih h with ⟨ihout, ihin⟩
      constructor
      · intro hv
        simp only [List.map_cons, List.filter_cons, ihout hv]
      · intro hv
        simp only [List.map_cons, List.filter_cons]
        by_cases hv' : p v' = true
        · rw [if_pos hv', if_pos hv']
          exact ((ihin hv).cons v').trans (List.Perm.swap v v' _)
        · rw [if_neg hv', if_neg hv']
          exact ihin hv

/-- Selecting values after a row that was not selected was rewritten to one that is. -/
theorem filter_values_set_perm {d : Dict κ ν} {k : κ} {v w : ν} {p : ν → Bool}
    (h : d.get? k = some w) (hw : p w = false) (hv : p v = true) :
    ((d.set k v).values.filter p).Perm (v :: d.values.filter p) := by
  have hmem : k ∈ d.items.map Prod.fst :=
    List.mem_map_of_mem (f := Prod.fst) (get?_eq_some_iff.mp h)
  rw [values, set, dif_pos hmem]
  exact (filter_map_snd_replace p h hw).2 hv

/-- Selecting values after a rewrite that stays outside the selection. -/
theorem filter_values_set {d : Dict κ ν} {k : κ} {v w : ν} {p : ν → Bool}
    (h : d.get? k = some w) (hw : p w = false) (hv : p v = false) :
    (d.set k v).values.filter p = d.values.filter p := by
  have hmem : k ∈ d.items.map Prod.fst :=
    List.mem_map_of_mem (f := Prod.fst) (get?_eq_some_iff.mp h)
  rw [values, set, dif_pos hmem]
  exact (filter_map_snd_replace p h hw).1 hv

theorem filter_map_snd_filter_ne {k : κ} {w : ν} (p : ν → Bool) {l : List (κ × ν)}
    (hnodup : (l.map Prod.fst).Nodup) (h : lookup k l = some w) (hw : p w = false) :
    ((l.filter fun item => item.1 ≠ k).map Prod.snd).filter p = (l.map Prod.snd).filter p := by
  induction l with
  | nil => rfl
  | cons item rest ih =>
    rcases item with ⟨k', v'⟩
    simp only [List.map_cons, List.nodup_cons] at hnodup
    simp only [lookup] at h
    by_cases hk : k' = k
    · rw [if_pos hk] at h
      cases h
      subst hk
      have hrest : (rest.filter fun item => item.1 ≠ k') = rest := by
        refine List.filter_eq_self.mpr ?_
        intro item hitem
        have hne : item.1 ≠ k' := fun heq =>
          hnodup.1 (heq ▸ List.mem_map_of_mem (f := Prod.fst) hitem)
        simpa using hne
      rw [List.filter_cons_of_neg (by simp), hrest]
      simp [hw]
    · rw [if_neg hk] at h
      rw [List.filter_cons_of_pos (by simpa using hk)]
      simp only [List.map_cons, List.filter_cons, ih hnodup.2 h]

/-- Deleting a row outside the selection does not change the selection. -/
theorem filter_values_erase {d : Dict κ ν} {k : κ} {w : ν} {p : ν → Bool}
    (h : d.get? k = some w) (hw : p w = false) :
    (d.erase k).values.filter p = d.values.filter p :=
  filter_map_snd_filter_ne p d.nodup h hw

/-! ## Totals over the items -/

section Totals

variable {M : Type*} [AddCommGroup M]

theorem sum_replace {k : κ} {v w : ν} (f : κ × ν → M) {l : List (κ × ν)}
    (hnodup : (l.map Prod.fst).Nodup) (h : lookup k l = some w) :
    ((replace k v l).map f).sum = (l.map f).sum - f (k, w) + f (k, v) := by
  induction l with
  | nil => simp at h
  | cons p rest ih =>
    obtain ⟨k', v'⟩ := p
    simp only [List.map_cons, List.nodup_cons] at hnodup
    simp only [lookup] at h
    simp only [replace]
    split
    · rename_i hk
      subst hk
      simp only [if_true, Option.some.injEq] at h
      subst h
      simp only [List.map_cons, List.sum_cons]
      abel
    · rename_i hk
      rw [if_neg hk] at h
      simp only [List.map_cons, List.sum_cons, ih hnodup.2 h]
      abel

/-- The total after assigning to a present key. -/
theorem sum_set_old {d : Dict κ ν} {k : κ} {w : ν} (f : κ × ν → M) (v : ν)
    (h : d.get? k = some w) :
    ((d.set k v).items.map f).sum = (d.items.map f).sum - f (k, w) + f (k, v) := by
  have hmem : k ∈ d.items.map Prod.fst :=
    List.mem_map_of_mem (f := Prod.fst) (get?_eq_some_iff.mp h)
  rw [set, dif_pos hmem]
  exact sum_replace f d.nodup h

/-- The total after assigning to a fresh key. -/
theorem sum_set_new {d : Dict κ ν} {k : κ} (f : κ × ν → M) (v : ν)
    (h : d.get? k = none) :
    ((d.set k v).items.map f).sum = (d.items.map f).sum + f (k, v) := by
  have hmem : k ∉ d.items.map Prod.fst := get?_eq_none_iff.mp h
  rw [set, dif_neg hmem]
  simp

end Totals

end Dict

/-! ## Folds that change one key at a time -/

/-- What a fold whose steps change the view of one key each leaves at a key. -/
theorem foldl_of_key {σ α κ β : Type*} [DecidableEq κ] {step : σ → α → σ} {next : β → α → β}
    (view : σ → κ → β) (key : α → κ)
    (hself : ∀ s x, view (step s x) (key x) = next (view s (key x)) x)
    (hother : ∀ s x k, k ≠ key x → view (step s x) k = view s k) (xs : List α) (s : σ) (k : κ) :
    view (xs.foldl step s) k = (xs.filter fun x => key x = k).foldl next (view s k) := by
  induction xs generalizing s with
  | nil => rfl
  | cons x rest ih =>
    rw [List.foldl_cons, ih]
    by_cases hkey : key x = k
    · rw [List.filter_cons, if_pos (by simpa using hkey), List.foldl_cons, ← hkey, hself]
    · rw [List.filter_cons, if_neg (by simpa using hkey), hother s x k (Ne.symm hkey)]

end QuantumSentinel.Lib
