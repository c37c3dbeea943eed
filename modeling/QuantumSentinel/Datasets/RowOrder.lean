import QuantumSentinel.Datasets.Rows
import QuantumSentinel.Lib.Rearrange

/-!
# Datasets: tables do not depend on the order of their rows

`Table.build` sorts the rows by the codes of their keys.  Codes tell the values of a key column
apart, so rows with different keys have one order only, and the sorted rows of a rearranged table
are the same rows; rows with the same key are neighbours.

Main results:

- Theorem `normalise_rearranged`: a rearranged column normalises to the rearranged cells.
- Theorem `sortCodes_inj`: the codes of a key column tell its values apart.
- Theorem `Table.build_rearranged`: a rearranged table builds the same table.
-/

namespace QuantumSentinel.Datasets

open Lib

/-! ## Rearranged values -/

/-- The rows of a column in another order. -/
def Values.rearranged (order : List ℕ) : Values → Values
  | .objects items => .objects (pick items order)
  | .floats items => .floats (pick items order)
  | .datetimes ticksPerDay items => .datetimes ticksPerDay (pick items order)
  | .texts items => .texts (pick items order)
  | .other _ => .other order.length

section Normalise

variable {c : Column} {values : Values} {order : List ℕ}

/-- The turns of a loop that succeeds, in another order. -/
theorem mapM_pick {α β : Type} {f : α → Except Raised β} {items : List α} {results : List β}
    (h : items.mapM f = .ok results) (order : List ℕ) :
    (pick items order).mapM f = .ok (pick results order) :=
  mapM_eq_ok_iff.mpr (forall₂_pick (mapM_eq_ok_iff.mp h) order)

/-- A condition that no item meets is met by none of the picked ones. -/
theorem any_pick {α : Type} {p : α → Bool} {items : List α} (h : items.any p = false)
    (order : List ℕ) : (pick items order).any p = false := by
  rw [List.any_eq_false] at h ⊢
  exact fun a ha => h a (mem_of_mem_pick ha)

theorem size_rearranged (h : order.Perm (List.range values.size)) :
    (values.rearranged order).size = values.size := by
  have hlt : ∀ i ∈ order, i < values.size := fun i hi => List.mem_range.mp (h.mem_iff.mp hi)
  have hlength : order.length = values.size := by rw [h.length_eq, List.length_range]
  cases values with
  | objects items => exact (length_pick hlt).trans hlength
  | floats items => exact (length_pick hlt).trans hlength
  | datetimes ticksPerDay items => exact (length_pick hlt).trans hlength
  | texts items => exact (length_pick hlt).trans hlength
  | other size => exact hlength

theorem asObjects_rearranged (h : order.Perm (List.range values.size)) :
    (values.rearranged order).asObjects = pick values.asObjects order := by
  cases values with
  | objects items => rfl
  | floats items => exact (pick_map _ items order).symm
  | datetimes ticksPerDay items => exact (pick_map _ items order).symm
  | texts items => exact (pick_map _ items order).symm
  | other size =>
    have hlt : ∀ i ∈ order, i < (List.replicate size PyValue.other).length := fun i hi => by
      rw [List.length_replicate]
      exact List.mem_range.mp (h.mem_iff.mp hi)
    have hall : ∀ a ∈ pick (List.replicate size PyValue.other) order, a = PyValue.other :=
      fun a ha => List.eq_of_mem_replicate (mem_of_mem_pick ha)
    have heq := List.eq_replicate_of_mem hall
    rw [length_pick hlt] at heq
    exact heq.symm

/-- Values that are put back in their order. -/
theorem rearranged_inverse (h : order.Perm (List.range values.size)) {inverse : List ℕ}
    (hinverse : inverse.Perm (List.range values.size))
    (hback : pick order inverse = List.range values.size) :
    (values.rearranged order).rearranged inverse = values := by
  have hlt : ∀ i ∈ order, i < values.size := fun i hi => List.mem_range.mp (h.mem_iff.mp hi)
  cases values with
  | objects items => exact congrArg Values.objects (pick_back hlt hback)
  | floats items => exact congrArg Values.floats (pick_back hlt hback)
  | datetimes ticksPerDay items =>
    exact congrArg (Values.datetimes ticksPerDay) (pick_back hlt hback)
  | texts items => exact congrArg Values.texts (pick_back hlt hback)
  | other size =>
    have hlength : inverse.length = size := by rw [hinverse.length_eq]; exact List.length_range
    exact congrArg Values.other hlength

/-- The results of the loops of `_float64`, in another order. -/
theorem float64_rearranged {cells : List Cell} (h : float64 c values = .ok cells) :
    float64 c (values.rearranged order) = .ok (pick cells order) := by
  obtain ⟨array, harray, hrest⟩ := bind_eq_ok_iff.mp h
  have harray' : floatArray c (values.rearranged order) = .ok (pick array order) := by
    cases values with
    | objects items => exact mapM_pick harray order
    | floats items =>
      cases harray
      rfl
    | datetimes ticksPerDay items => cases harray
    | texts items => cases harray
    | other size => cases harray
  refine bind_eq_ok_iff.mpr ⟨_, harray', ?_⟩
  split at hrest
  · cases hrest
  · rename_i hinf
    split at hrest
    · cases hrest
    · rename_i hnan
      cases hrest
      have hnan' : ¬(!c.nullable && (pick array order).any Float64.isNaN) = true := by
        rw [Bool.and_eq_true, not_and, Bool.not_eq_true]
        intro hnullable
        rw [hnullable, Bool.true_and, Bool.not_eq_true] at hnan
        exact any_pick hnan order
      rw [any_pick (Bool.not_eq_true _ ▸ hinf) order, if_neg Bool.false_ne_true, if_neg hnan',
        pick_map]

/-- An array of another type is accepted when it is empty. -/
theorem empty_rearranged {α : Type} {size size' : ℕ} (hsize : size' = size) {e : Raised}
    {array : List α} (h : (if size = 0 then .ok [] else .error e) = Except.ok array) :
    (if size' = 0 then .ok [] else .error e) = Except.ok (pick array order) := by
  rw [hsize]
  split at h
  · cases h
    rename_i hzero
    rw [if_pos hzero, pick_nil]
  · cases h

/-- Days and instants are read item by item, or the array has another type and is empty. -/
theorem arrays_rearranged (horder : order.Perm (List.range values.size)) :
    (∀ days, dayArray c values = .ok days →
      dayArray c (values.rearranged order) = .ok (pick days order)) ∧
    ∀ stamps, stampArray c values = .ok stamps →
      stampArray c (values.rearranged order) = .ok (pick stamps order) := by
  have hsize := size_rearranged horder
  constructor <;> intro array h <;> cases values <;>
    first | exact mapM_pick h order | exact empty_rearranged hsize h

/-- A rearranged column normalises to the rearranged cells. -/
theorem normalise_rearranged (horder : order.Perm (List.range values.size)) {cells : List Cell}
    (h : normalise c values = .ok cells) :
    normalise c (values.rearranged order) = .ok (pick cells order) := by
  unfold normalise at h ⊢
  split at h
  · exact float64_rearranged h
  · obtain ⟨days, hdays, hrest⟩ := bind_eq_ok_iff.mp h
    refine bind_eq_ok_iff.mpr ⟨_, (arrays_rearranged horder).1 _ hdays, ?_⟩
    split at hrest
    · cases hrest
    · rename_i hrange
      cases hrest
      rw [any_pick (Bool.not_eq_true _ ▸ hrange) order, if_neg Bool.false_ne_true, pick_map]
  · obtain ⟨stamps, hstamps, hrest⟩ := bind_eq_ok_iff.mp h
    cases hrest
    refine bind_eq_ok_iff.mpr ⟨_, (arrays_rearranged horder).2 _ hstamps, ?_⟩
    rw [pick_map]
  · rw [utf8Cells] at h ⊢
    rw [asObjects_rearranged horder]
    exact mapM_pick h order

theorem length_mapM {α β : Type} {f : α → Except Raised β} {items : List α} {results : List β}
    (h : items.mapM f = .ok results) : results.length = items.length :=
  (mapM_eq_ok_iff.mp h).length_eq.symm

theorem length_empty {α : Type} {size : ℕ} {e : Raised} {array : List α}
    (h : (if size = 0 then .ok [] else .error e) = Except.ok array) : array.length = size := by
  split at h
  · cases h
    rename_i hzero
    exact hzero.symm
  · cases h

/-- A normalised column has as many cells as it has values. -/
theorem length_normalise {cells : List Cell} (h : normalise c values = .ok cells) :
    cells.length = values.size := by
  unfold normalise at h
  split at h
  · obtain ⟨array, harray, hrest⟩ := bind_eq_ok_iff.mp h
    have hlength : array.length = values.size := by
      cases values with
      | objects items => exact length_mapM harray
      | floats items =>
        cases harray
        rfl
      | datetimes ticksPerDay items => cases harray
      | texts items => cases harray
      | other size => cases harray
    split at hrest
    · cases hrest
    · split at hrest
      · cases hrest
      · cases hrest
        rw [List.length_map, hlength]
  · obtain ⟨days, hdays, hrest⟩ := bind_eq_ok_iff.mp h
    have hlength : days.length = values.size := by
      cases values with
      | objects items => exact length_mapM hdays
      | datetimes ticksPerDay items => exact length_mapM hdays
      | texts items => exact length_mapM hdays
      | floats items => exact length_empty hdays
      | other size => exact length_empty hdays
    split at hrest
    · cases hrest
    · cases hrest
      rw [List.length_map, hlength]
  · obtain ⟨stamps, hstamps, hrest⟩ := bind_eq_ok_iff.mp h
    have hlength : stamps.length = values.size := by
      cases values with
      | objects items => exact length_mapM hstamps
      | datetimes ticksPerDay items => exact length_mapM hstamps
      | texts items => exact length_empty hstamps
      | floats items => exact length_empty hstamps
      | other size => exact length_empty hstamps
    cases hrest
    rw [List.length_map, hlength]
  · rw [length_mapM h]
    cases values with
    | objects items => rfl
    | floats items => exact List.length_map _
    | datetimes ticksPerDay items => exact List.length_map _
    | texts items => exact List.length_map _
    | other size => exact List.length_replicate

end Normalise

/-! ## Codes tell values apart -/

/-- Texts are told apart by their ranks. -/
theorem rank_inj {array : List String} {s s' : String} (hs : s ∈ array)
    (h : (array.dedup.insertionSort (· ≤ ·)).idxOf s =
      (array.dedup.insertionSort (· ≤ ·)).idxOf s') : s = s' := by
  have hmem : s ∈ array.dedup.insertionSort (· ≤ ·) :=
    (List.perm_insertionSort _ _).mem_iff.mpr (List.mem_dedup.mpr hs)
  exact (List.idxOf_inj hmem).mp h

/-- Numbers are told apart by their bits. -/
theorem int64_float_inj {x x' : Float64} (h : (Cell.float x).int64 = (Cell.float x').int64) :
    x = x' := by
  have hlt := x.bits.toNat_lt
  have hlt' := x'.bits.toNat_lt
  have hbits : x.bits.toNat = x'.bits.toNat := by
    simp only [Cell.int64] at h
    split at h <;> split at h <;> omega
  cases x
  cases x'
  exact congrArg Float64.mk (UInt64.toNat_inj.mp hbits)

/-- A value of a date or a timestamp column is a number. -/
theorem int_of_admits {c : Column} (htype : c.type = .date32 ∨ c.type = .timestampNs) {cell : Cell}
    (h : cell ≠ .null ∧ c.admits cell = true) : ∃ n, cell = .int n := by
  obtain ⟨hnull, hfits⟩ := h
  cases cell with
  | int n => exact ⟨n, rfl⟩
  | null => exact absurd rfl hnull
  | text s => rcases htype with htype | htype <;> simp [Column.admits, htype] at hfits
  | float x => rcases htype with htype | htype <;> simp [Column.admits, htype] at hfits

/-- The codes of a column without missing values come from its cells one by one, and tell them
apart. -/
theorem sortCodes_eq_map {c : Column} {array : List Cell}
    (hadmits : ∀ cell ∈ array, cell ≠ .null ∧ c.admits cell = true) :
    ∃ code : Cell → ℤ, sortCodes c array = array.map code ∧
      ∀ a ∈ array, ∀ a' ∈ array, code a = code a' → a = a' := by
  cases htype : c.type with
  | utf8 =>
    refine ⟨fun cell => Int.ofNat (((array.map Cell.text?).dedup.insertionSort (· ≤ ·)).idxOf
      cell.text?), ?_, fun a ha a' ha' h => ?_⟩
    · simp only [sortCodes, htype, uniqueInverse, List.map_map]
      rfl
    · have htext : ∀ cell ∈ array, ∃ s, cell = .text s := fun cell hcell => by
        obtain ⟨hnull, hfits⟩ := hadmits cell hcell
        cases cell with
        | text s => exact ⟨s, rfl⟩
        | null => exact absurd rfl hnull
        | int n => simp [Column.admits, htype] at hfits
        | float x => simp [Column.admits, htype] at hfits
      obtain ⟨s, rfl⟩ := htext a ha
      obtain ⟨s', rfl⟩ := htext a' ha'
      exact congrArg Cell.text (rank_inj (List.mem_map_of_mem ha) (Int.ofNat_inj.mp h))
  | float64 =>
    refine ⟨Cell.int64, by simp only [sortCodes, htype], fun a ha a' ha' h => ?_⟩
    have hfloat : ∀ cell ∈ array, ∃ x, cell = .float x := fun cell hcell => by
      obtain ⟨hnull, hfits⟩ := hadmits cell hcell
      cases cell with
      | float x => exact ⟨x, rfl⟩
      | null => exact absurd rfl hnull
      | int n => simp [Column.admits, htype] at hfits
      | text s => simp [Column.admits, htype] at hfits
    obtain ⟨x, rfl⟩ := hfloat a ha
    obtain ⟨x', rfl⟩ := hfloat a' ha'
    rw [int64_float_inj h]
  | date32 =>
    refine ⟨Cell.int64, by simp only [sortCodes, htype], fun a ha a' ha' h => ?_⟩
    have hint := fun cell hcell => int_of_admits (Or.inl htype) (hadmits cell hcell)
    obtain ⟨n, rfl⟩ := hint a ha
    obtain ⟨n', rfl⟩ := hint a' ha'
    exact congrArg Cell.int h
  | timestampNs =>
    refine ⟨Cell.int64, by simp only [sortCodes, htype], fun a ha a' ha' h => ?_⟩
    have hint := fun cell hcell => int_of_admits (Or.inr htype) (hadmits cell hcell)
    obtain ⟨n, rfl⟩ := hint a ha
    obtain ⟨n', rfl⟩ := hint a' ha'
    exact congrArg Cell.int h

/-- The codes of a key column tell its values apart. -/
theorem sortCodes_inj {c : Column} {array : List Cell}
    (hadmits : ∀ cell ∈ array, cell ≠ .null ∧ c.admits cell = true) {i j : ℕ}
    (hi : i < array.length) (hj : j < array.length) :
    (sortCodes c array).getD i 0 = (sortCodes c array).getD j 0 ↔
      array.getD i .null = array.getD j .null := by
  obtain ⟨code, hcode, hinj⟩ := sortCodes_eq_map hadmits
  have hget : ∀ k, k < array.length → (array.map code).getD k 0 = code (array.getD k .null) := by
    intro k hk
    rw [List.getD_eq_getElem _ _ (by rwa [List.length_map]), List.getElem_map,
      List.getD_eq_getElem _ _ hk]
  have hmem : ∀ k, k < array.length → array.getD k .null ∈ array := by
    intro k hk
    rw [List.getD_eq_getElem _ _ hk]
    exact List.getElem_mem hk
  rw [hcode, hget i hi, hget j hj]
  exact ⟨hinj _ (hmem i hi) _ (hmem j hj), congrArg code⟩

/-! ## Rearranged rows are sorted the same -/

section Sorting

variable {keys : List (List ℤ)} {order : List ℕ} {size : ℕ}

/-- The codes of the key columns in another order of the rows. -/
def rearrangedCodes (order : List ℕ) (keys : List (List ℤ)) : List (List ℤ) :=
  keys.map fun codes => order.map fun i => codes.getD i 0

theorem rowOf_rearrangedCodes {i : ℕ} (hi : i < order.length) :
    rowOf (rearrangedCodes order keys) i = rowOf keys (order.getD i 0) := by
  rw [rowOf, rowOf, rearrangedCodes, List.map_map]
  refine List.map_congr_left fun codes _ => ?_
  rw [Function.comp_apply, List.getD_eq_getElem _ _ (by rwa [List.length_map]), List.getElem_map,
    List.getD_eq_getElem _ _ hi]

/-- The sorted rows do not depend on the order of the rows. -/
theorem lexsort_rows (horder : order.Perm (List.range size)) :
    (lexsort (rearrangedCodes order keys).reverse size).map (rowOf (rearrangedCodes order keys)) =
      (lexsort keys.reverse size).map (rowOf keys) := by
  have hlength : order.length = size := by rw [horder.length_eq, List.length_range]
  refine List.Perm.eq_of_pairwise (fun a b _ _ hab hba => le_antisymm hab hba)
    (lexsort_sorted _ size) (lexsort_sorted keys size) ?_
  have hleft := (lexsort_perm (rearrangedCodes order keys).reverse size).map
    (rowOf (rearrangedCodes order keys))
  have hright := (lexsort_perm keys.reverse size).map (rowOf keys)
  refine hleft.trans ?_
  rw [rearrangedCodes, Table.rowOf_rearranged hlength]
  exact (horder.map (rowOf keys)).trans hright.symm

/-- Two rows with the same codes are neighbours after the sort. -/
theorem hasRepeat_iff : hasRepeat ((lexsort keys.reverse size).map (rowOf keys)) = true ↔
    ∃ i j, i < j ∧ j < size ∧ rowOf keys i = rowOf keys j := by
  have hperm := (lexsort_perm keys.reverse size).map (rowOf keys)
  constructor
  · intro hrepeat
    by_contra hnone
    push Not at hnone
    have hinj : ∀ i ∈ List.range size, ∀ j ∈ List.range size,
        rowOf keys i = rowOf keys j → i = j := by
      intro i hi j hj heq
      rcases lt_trichotomy i j with hlt | rfl | hgt
      · exact absurd heq (hnone i j hlt (List.mem_range.mp hj))
      · rfl
      · exact absurd heq.symm (hnone j i hgt (List.mem_range.mp hi))
    have hnodup := hperm.nodup_iff.mpr (List.Nodup.map_on hinj List.nodup_range)
    have hascending : ((lexsort keys.reverse size).map (rowOf keys)).Pairwise (· < ·) :=
      (lexsort_sorted keys size).imp₂ (fun a b hle hne => lt_of_le_of_ne hle hne) hnodup
    rw [hasRepeat_of_ascending hascending] at hrepeat
    cases hrepeat
  · rintro ⟨i, j, hlt, hj, heq⟩
    by_contra hrepeat
    have hascending := ascending_of_sorted (lexsort_sorted keys size)
      (Bool.not_eq_true _ ▸ hrepeat)
    have hnodup : ((List.range size).map (rowOf keys)).Nodup :=
      hperm.nodup_iff.mp (hascending.imp fun hab => hab.ne)
    have hsame := List.inj_on_of_nodup_map hnodup (List.mem_range.mpr (hlt.trans hj))
      (List.mem_range.mpr hj) heq
    exact hlt.ne hsame

/-- Without two rows of the same codes the sorted rows are the same rows. -/
theorem lexsort_rearranged (horder : order.Perm (List.range size))
    (hrepeat : hasRepeat ((lexsort keys.reverse size).map (rowOf keys)) = false) :
    (lexsort (rearrangedCodes order keys).reverse size).map (fun i => order.getD i 0) =
      lexsort keys.reverse size := by
  have hlength : order.length = size := by rw [horder.length_eq, List.length_range]
  have hin : ∀ i, i < size → order.getD i 0 < size := by
    intro i hi
    rw [← hlength] at hi
    rw [List.getD_eq_getElem _ _ hi]
    exact List.mem_range.mp (horder.mem_iff.mp (List.getElem_mem hi))
  refine eq_of_map_eq (f := rowOf keys) ?_ fun a ha a' ha' heq => ?_
  · rw [List.map_map, ← lexsort_rows horder]
    refine List.map_congr_left fun i hi => ?_
    rw [rowOf_rearrangedCodes (hlength ▸ lt_of_mem_lexsort hi)]
    rfl
  · obtain ⟨i, hi, rfl⟩ := List.mem_map.mp ha
    have ha := hin i (lt_of_mem_lexsort hi)
    have ha' := lt_of_mem_lexsort ha'
    by_contra hne
    have hsome : ∃ i j, i < j ∧ j < size ∧ rowOf keys i = rowOf keys j := by
      rcases lt_or_gt_of_ne hne with hlt | hgt
      · exact ⟨_, _, hlt, ha', heq⟩
      · exact ⟨_, _, hgt, ha, heq.symm⟩
    rw [hasRepeat_iff.mpr hsome] at hrepeat
    cases hrepeat

/-- Two rearrangements of an array are one. -/
theorem gather_gather {array : List Cell} (order order' : List ℕ)
    (h : ∀ i ∈ order', i < order.length) :
    gather (gather array order) order' = gather array (order'.map fun i => order.getD i 0) := by
  simp only [gather, List.map_map]
  refine List.map_congr_left fun i hi => ?_
  rw [Function.comp_apply, List.getD_eq_getElem _ _ (by rw [List.length_map]; exact h i hi),
    List.getElem_map, List.getD_eq_getElem _ _ (h i hi)]

theorem pick_eq_gather {array : List Cell} (h : ∀ i ∈ order, i < array.length) :
    pick array order = gather array order :=
  pick_eq_map h .null

end Sorting

/-! ## Rearranged tables -/

namespace Table

variable {schema : TableSchema} {data : Dict String Values} {arrays : List (String × List Cell)}
  {order : List ℕ} {size : ℕ}

/-- The rows of the data in another order. -/
def rearranged (data : Dict String Values) (order : List ℕ) : Dict String Values :=
  data.mapValues fun _ values => values.rearranged order

/-- Each column of the data has the rows. -/
def HasRows (data : Dict String Values) (size : ℕ) : Prop :=
  ∀ item ∈ data.items, item.2.size = size

theorem HasRows.size_eq (h : HasRows data size) {name : String} {values : Values}
    (hvalues : data.get? name = some values) : values.size = size :=
  h (name, values) (Dict.get?_eq_some_iff.mp hvalues)

theorem HasRows.reorder (h : HasRows data size) (horder : order.Perm (List.range size)) :
    HasRows (rearranged data order) size := by
  intro item hitem
  obtain ⟨old, hold, rfl⟩ := List.mem_map.mp hitem
  have hsize := h old hold
  rw [size_rearranged (hsize ▸ horder), hsize]

theorem keys_rearranged : (rearranged data order).keys = data.keys := by
  unfold rearranged Dict.keys Dict.mapValues
  exact Dict.mapValues_keys (fun _ values => values.rearranged order) data.items

/-- The normalised arrays have the rows. -/
theorem HasRows.lengths (h : HasRows data size)
    (harrays : schema.columns.mapM (normaliseColumn data) = .ok arrays) :
    ∀ item ∈ arrays, item.2.length = size := by
  intro item hitem
  obtain ⟨c, -, hc⟩ := exists_of_forall₂ (mapM_eq_ok_iff.mp harrays) hitem
  unfold normaliseColumn at hc
  split at hc
  · cases hc
  · rename_i values hvalues
    obtain ⟨array, harray, rfl⟩ := map_eq_ok_iff.mp hc
    exact (length_normalise harray).trans (h.size_eq hvalues)

/-- The rearranged data normalise to the rearranged arrays. -/
theorem HasRows.arrays_rearranged (h : HasRows data size) (horder : order.Perm (List.range size))
    (harrays : schema.columns.mapM (normaliseColumn data) = .ok arrays) :
    schema.columns.mapM (normaliseColumn (rearranged data order)) =
      .ok (arrays.map fun item => (item.1, gather item.2 order)) := by
  rw [mapM_eq_ok_iff, List.forall₂_map_right_iff]
  refine (mapM_eq_ok_iff.mp harrays).imp fun c item hitem => ?_
  unfold normaliseColumn at hitem ⊢
  rw [Table.rearranged, Dict.get?_mapValues]
  split at hitem
  · cases hitem
  · rename_i values hvalues
    obtain ⟨array, harray, rfl⟩ := map_eq_ok_iff.mp hitem
    have hsize := h.size_eq hvalues
    have hlt : ∀ i ∈ order, i < array.length := fun i hi => by
      rw [length_normalise harray, hsize]
      exact List.mem_range.mp (horder.mem_iff.mp hi)
    rw [hvalues]
    simp only [Option.map_some, normalise_rearranged (hsize ▸ horder) harray, pick_eq_gather hlt]
    rfl

/-- The rearranged arrays build the same table. -/
theorem buildArrays_gather (hn : Normalised schema arrays)
    (hlengths : ∀ item ∈ arrays, item.2.length = size) (horder : order.Perm (List.range size))
    {t : Table} (h : buildArrays schema arrays = .ok t) :
    buildArrays schema (arrays.map fun item => (item.1, gather item.2 order)) = .ok t := by
  have hlength : order.length = size := by rw [horder.length_eq, List.length_range]
  have hne : arrays ≠ [] := by
    rintro rfl
    apply schema.checked.2.2.2.1
    exact List.map_eq_nil_iff.mp hn.names.symm
  have hsizeOf : sizeOf arrays = size := by
    cases arrays with
    | nil => exact absurd rfl hne
    | cons item rest => exact hlengths item (List.mem_cons_self ..)
  have hsizeOf' : sizeOf (arrays.map fun item => (item.1, gather item.2 order)) = size :=
    (sizeOf_gather hne).trans hlength
  unfold buildArrays at h ⊢
  rw [hsizeOf] at h
  rw [hsizeOf']
  have hsame : ¬∃ item ∈ arrays, item.2.length ≠ size := by
    push Not
    exact hlengths
  have hsame' : ¬∃ item ∈ arrays.map fun item => (item.1, gather item.2 order),
      item.2.length ≠ size := by
    push Not
    intro item hitem
    obtain ⟨old, -, rfl⟩ := List.mem_map.mp hitem
    rw [length_gather, hlength]
  rw [if_neg hsame] at h
  rw [if_neg hsame']
  split at h
  · cases h
  · rename_i hmissing
    have hmissing' : missingColumn? schema
        (arrays.map fun item => (item.1, gather item.2 order)) = none := by
      refine List.find?_eq_none.mpr fun c hc => ?_
      have hitem := hn.mem hc
      have hlt : ∀ i ∈ order, i < (arrayOf arrays c.name).length := fun i hi => by
        rw [hlengths _ hitem]
        exact List.mem_range.mp (horder.mem_iff.mp hi)
      have hnone := List.find?_eq_none.mp hmissing c hc
      simp only [Bool.and_eq_true, Bool.not_eq_true', decide_eq_true_eq, not_and] at hnone ⊢
      intro hnullable hnull
      rw [arrayOf_gather _ _ (List.mem_map_of_mem hitem)] at hnull
      exact hnone hnullable (mem_of_mem_gather hlt hnull)
    rw [hmissing']
    obtain ⟨keys, hkeys, hsort⟩ := bind_eq_ok_iff.mp h
    have hkeys' : schema.key.mapM
        (keyCodes schema (arrays.map fun item => (item.1, gather item.2 order))) =
          .ok (rearrangedCodes order keys) := by
      rw [rearrangedCodes, mapM_eq_ok_iff, List.forall₂_map_right_iff]
      exact (mapM_eq_ok_iff.mp hkeys).imp fun k codes hcodes =>
        keyCodes_gather hn hlengths horder hcodes
    refine bind_eq_ok_iff.mpr ⟨_, hkeys', ?_⟩
    simp only [sortRows] at hsort ⊢
    rw [lexsort_rows horder]
    split at hsort
    · cases hsort
    · rename_i hrepeat
      cases hsort
      rw [if_neg hrepeat, List.map_map]
      refine congrArg (fun columns => Except.ok (Table.mk schema columns)) ?_
      refine List.map_congr_left fun item _ => ?_
      rw [Function.comp_apply, gather_gather order _ fun i hi => hlength ▸ lt_of_mem_lexsort hi,
        lexsort_rearranged horder (Bool.not_eq_true _ ▸ hrepeat)]

/-- A rearranged table builds the same table. -/
theorem build_of_rows (hrows : HasRows data size) (horder : order.Perm (List.range size))
    {t : Table} (h : build schema data = .ok t) : build schema (rearranged data order) = .ok t := by
  unfold build at h ⊢
  rw [keys_rearranged]
  split at h
  · rename_i hnames
    rw [if_pos hnames]
    obtain ⟨arrays, harrays, hbuild⟩ := bind_eq_ok_iff.mp h
    exact bind_eq_ok_iff.mpr ⟨_, hrows.arrays_rearranged horder harrays,
      buildArrays_gather (normalised_of_mapM harrays) (hrows.lengths harrays) horder hbuild⟩
  · cases h

/-- Rows that are put back in their order are the rows of the data. -/
theorem rearranged_back (hrows : HasRows data size) (horder : order.Perm (List.range size))
    {inverse : List ℕ} (hinverse : inverse.Perm (List.range size))
    (hback : pick order inverse = List.range size) :
    rearranged (rearranged data order) inverse = data := by
  have hitems : (rearranged (rearranged data order) inverse).items = data.items := by
    simp only [Table.rearranged, Dict.mapValues, List.map_map]
    conv_rhs => rw [← List.map_id data.items]
    refine List.map_congr_left fun item hitem => ?_
    have hsize := hrows item hitem
    have hvalues : (item.2.rearranged order).rearranged inverse = item.2 :=
      rearranged_inverse (hsize ▸ horder) (hsize ▸ hinverse) (hsize ▸ hback)
    simp only [Function.comp_apply, hvalues]
    rfl
  cases data
  rw [Dict.mk.injEq]
  exact hitems

/-- The order of the rows makes no difference to the table that is built. -/
theorem build_rearranged (hrows : HasRows data size) (horder : order.Perm (List.range size))
    (t : Table) : build schema (rearranged data order) = .ok t ↔ build schema data = .ok t := by
  constructor
  · intro h
    obtain ⟨inverse, hinverse, hback⟩ := exists_inverse horder
    have hagain := build_of_rows (hrows.reorder horder) hinverse h
    rwa [rearranged_back hrows horder hinverse hback] at hagain
  · exact build_of_rows hrows horder

end Table

end QuantumSentinel.Datasets
