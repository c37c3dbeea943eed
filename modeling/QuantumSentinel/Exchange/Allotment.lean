import QuantumSentinel.Exchange.Sweeps
import QuantumSentinel.Lib.Allocation

/-!
# Paper exchange: sweeps as allotments

A sweep over the levels of a side hands its quantity out to the orders it does not pass over, in
the order of price and then of time.  This holds of both sweeps of the book, that of an aggressor
and that of a trade print, as long as no order is listed twice in a level.

Main results:

- Theorem `OrderBook.walkLevel_eq`: the loop over one level.
- Theorem `OrderBook.walk_swept`: the loop over the levels.
-/

namespace QuantumSentinel.Exchange

open Lib

namespace OrderBook

/-! ## Lines of orders -/

section Lines

variable {k : Sweeper} {heap heap' : Heap} {price quantity : ℚ} {orders : List Ref}
  {line line' : List (Ref × ℚ)} {r : Ref}

/-- The orders of a level that a sweep does not pass over, with the price of the level. -/
def lineOf (k : Sweeper) (heap : Heap) (price : ℚ) (orders : List Ref) : List (Ref × ℚ) :=
  (orders.filter fun r => !k.skips (heap r)).map fun r => (r, price)

/-- What remains of each order of a line. -/
def lineSizes (heap : Heap) (line : List (Ref × ℚ)) : List ℚ :=
  line.map fun p => (heap p.1).remainingQuantity

/-- The size of a line. -/
def lineSize (heap : Heap) (line : List (Ref × ℚ)) : ℚ :=
  (lineSizes heap line).sum

/-- What the orders of a line get of a quantity. -/
def hitsOf (heap : Heap) : List (Ref × ℚ) → ℚ → List (Ref × Hit)
  | [], _ => []
  | (r, price) :: rest, quantity =>
    if quantity ≤ eps then []
    else
      let size := min quantity (heap r).remainingQuantity
      (r, ⟨price, size⟩) :: hitsOf heap rest (quantity - size)

/-- What a line gets of a quantity in all. -/
def lineTotal (heap : Heap) (line : List (Ref × ℚ)) (quantity : ℚ) : ℚ :=
  (allot eps quantity (lineSizes heap line)).sum

/-- The orders after their hits. -/
def struck (k : Sweeper) (hits : List (Ref × Hit)) (heap : Heap) : Heap := fun r =>
  (Dict.lookup r hits).elim (heap r) fun hit => k.hit hit.price hit.quantity (heap r)

/-- The fill that a hit reports. -/
def reportOf (k : Sweeper) (heap : Heap) (h : Ref × Hit) : Option Fill :=
  let o := k.hit h.2.price h.2.quantity (heap h.1)
  if k.reports o then some (restingFill o h.2.price h.2.quantity k.timestamp) else none

theorem mem_lineOf {p : Ref × ℚ} :
    p ∈ lineOf k heap price orders ↔
      p.1 ∈ orders ∧ k.skips (heap p.1) = false ∧ p.2 = price := by
  obtain ⟨q, x⟩ := p
  simp only [lineOf, List.mem_map, List.mem_filter, Bool.not_eq_true', Prod.mk.injEq]
  constructor
  · rintro ⟨q', ⟨hmem, hskip⟩, rfl, rfl⟩
    exact ⟨hmem, hskip, rfl⟩
  · rintro ⟨hmem, hskip, rfl⟩
    exact ⟨q, ⟨hmem, hskip⟩, rfl, rfl⟩

theorem lineOf_congr (h : ∀ r ∈ orders, heap' r = heap r) :
    lineOf k heap' price orders = lineOf k heap price orders := by
  unfold lineOf
  rw [List.filter_congr fun r hr => by rw [h r hr]]

theorem lineSizes_congr (h : ∀ p ∈ line, heap' p.1 = heap p.1) :
    lineSizes heap' line = lineSizes heap line :=
  List.map_congr_left fun p hp => by rw [h p hp]

@[simp]
theorem lineSizes_append (heap : Heap) (line line' : List (Ref × ℚ)) :
    lineSizes heap (line ++ line') = lineSizes heap line ++ lineSizes heap line' :=
  List.map_append

/-- The sizes of the hits are the portions of the line. -/
theorem hitsOf_portions (heap : Heap) (line : List (Ref × ℚ)) (quantity : ℚ) :
    (hitsOf heap line quantity).map (fun h => h.2.quantity) =
      allot eps quantity (lineSizes heap line) := by
  induction line generalizing quantity with
  | nil => rfl
  | cons p rest ih =>
    simp only [hitsOf, lineSizes, List.map_cons, allot]
    split
    · rfl
    · rw [List.map_cons, ih]
      rfl

/-- The orders that get a hit are the first of the line. -/
theorem hitsOf_prefixed (heap : Heap) (line : List (Ref × ℚ)) (quantity : ℚ) :
    (hitsOf heap line quantity).map (fun h => (h.1, h.2.price)) <+: line := by
  induction line generalizing quantity with
  | nil => exact List.prefix_refl _
  | cons p rest ih =>
    simp only [hitsOf]
    split
    · exact List.nil_prefix
    · rw [List.map_cons]
      exact (List.prefix_cons_inj _).mpr (ih _)

theorem hitsOf_of_le (h : quantity ≤ eps) (heap : Heap) (line : List (Ref × ℚ)) :
    hitsOf heap line quantity = [] := by
  cases line with
  | nil => rfl
  | cons p rest => exact if_pos h

theorem hitsOf_congr (h : ∀ p ∈ line, heap' p.1 = heap p.1) (quantity : ℚ) :
    hitsOf heap' line quantity = hitsOf heap line quantity := by
  induction line generalizing quantity with
  | nil => rfl
  | cons p rest ih =>
    simp only [hitsOf, h p (List.mem_cons_self ..),
      ih fun q hq => h q (List.mem_cons_of_mem p hq)]

theorem lineTotal_congr (h : ∀ p ∈ line, heap' p.1 = heap p.1) (quantity : ℚ) :
    lineTotal heap' line quantity = lineTotal heap line quantity := by
  rw [lineTotal, lineTotal, lineSizes_congr h]

/-- A line gets its hits before the line behind it. -/
theorem hitsOf_append (heap : Heap) (line line' : List (Ref × ℚ)) (quantity : ℚ) :
    hitsOf heap (line ++ line') quantity =
      hitsOf heap line quantity ++ hitsOf heap line' (quantity - lineTotal heap line quantity) := by
  induction line generalizing quantity with
  | nil => simp [hitsOf, lineTotal, lineSizes]
  | cons p rest ih =>
    by_cases h : quantity ≤ eps
    · have htotal : lineTotal heap (p :: rest) quantity = 0 := by
        rw [lineTotal, allot_of_le h, List.sum_nil]
      rw [hitsOf_of_le h, hitsOf_of_le h, htotal, sub_zero, hitsOf_of_le h]
      rfl
    · have htotal : lineTotal heap (p :: rest) quantity =
          min quantity (heap p.1).remainingQuantity +
            lineTotal heap rest (quantity - min quantity (heap p.1).remainingQuantity) := by
        rw [lineTotal, lineSizes, List.map_cons, allot_cons_of_lt (not_le.mp h), List.sum_cons]
        rfl
      simp only [List.cons_append, hitsOf, if_neg h, ih, htotal, sub_sub]

/-- The hit of the order at an index: all it has, or all that is left for it. -/
theorem hitsOf_getElem? {i : ℕ} {h : Ref × Hit} (hi : (hitsOf heap line quantity)[i]? = some h) :
    (line)[i]? = some (h.1, h.2.price) ∧
      eps < quantity - lineSize heap (line.take i) ∧
        h.2.quantity =
          min (quantity - lineSize heap (line.take i)) (heap h.1).remainingQuantity := by
  induction line generalizing i quantity with
  | nil => cases hi
  | cons p rest ih =>
    by_cases hdone : quantity ≤ eps
    · rw [hitsOf_of_le hdone] at hi
      cases hi
    · simp only [hitsOf, if_neg hdone] at hi
      cases i with
      | zero =>
        rw [List.getElem?_cons_zero, Option.some.injEq] at hi
        subst hi
        rw [List.take_zero, lineSize, lineSizes, List.map_nil, List.sum_nil, sub_zero]
        exact ⟨rfl, not_le.mp hdone, rfl⟩
      | succ i =>
        rw [List.getElem?_cons_succ] at hi
        obtain ⟨hline, hmore, hquantity⟩ := ih hi
        have hlast : ¬quantity - min quantity (heap p.1).remainingQuantity ≤ eps := by
          intro hlast
          rw [hitsOf_of_le hlast] at hi
          cases hi
        rw [min_eq_of_lt eps_pos.le (not_le.mp hlast), sub_sub] at hmore hquantity
        have hsize : lineSize heap ((p :: rest).take (i + 1)) =
            (heap p.1).remainingQuantity + lineSize heap (rest.take i) := by
          simp [lineSize, lineSizes]
        rw [hsize]
        exact ⟨hline, hmore, hquantity⟩

/-- The orders that are hit are the first of the line. -/
theorem hitsOf_take (heap : Heap) (line : List (Ref × ℚ)) (quantity : ℚ) :
    (hitsOf heap line quantity).map (fun h => (h.1, h.2.price)) =
      line.take (hitsOf heap line quantity).length := by
  have hprefix := List.prefix_iff_eq_take.mp (hitsOf_prefixed heap line quantity)
  rwa [List.length_map] at hprefix

/-- All that a line has. -/
def fullHits (heap : Heap) (line : List (Ref × ℚ)) : List (Ref × Hit) :=
  line.map fun p => (p.1, ⟨p.2, (heap p.1).remainingQuantity⟩)

/-- Unless nothing is handed out, some orders get all they have and the next one all that is left
for it. -/
theorem hitsOf_split (h : hitsOf heap line quantity ≠ []) :
    ∃ front p back, line = front ++ p :: back ∧ eps < quantity - lineSize heap front ∧
      hitsOf heap line quantity = fullHits heap front ++
        [(p.1, ⟨p.2, min (quantity - lineSize heap front) (heap p.1).remainingQuantity⟩)] := by
  induction line generalizing quantity with
  | nil => exact absurd rfl h
  | cons p rest ih =>
    have hmore : ¬quantity ≤ eps := fun hdone => h (hitsOf_of_le hdone heap _)
    by_cases hnone : hitsOf heap rest (quantity - min quantity (heap p.1).remainingQuantity) = []
    · refine ⟨[], p, rest, rfl, ?_, ?_⟩
      · simpa [lineSize, lineSizes] using hmore
      · simp only [hitsOf, if_neg hmore, hnone]
        simp [fullHits, lineSize, lineSizes]
    · obtain ⟨front, q, back, hrest, hlt, hhits⟩ := ih hnone
      have hsize : min quantity (heap p.1).remainingQuantity = (heap p.1).remainingQuantity :=
        min_eq_of_lt eps_pos.le (not_le.mp fun hlast => hnone (hitsOf_of_le hlast heap rest))
      have hcons : lineSize heap (p :: front) =
          (heap p.1).remainingQuantity + lineSize heap front := by
        simp [lineSize, lineSizes]
      rw [hsize] at hlt hhits
      refine ⟨p :: front, q, back, by rw [hrest]; rfl, ?_, ?_⟩
      · rw [hcons, ← sub_sub]
        exact hlt
      · simp only [hitsOf, if_neg hmore, hsize, hhits, hcons, sub_sub]
        rfl

theorem lineTotal_eq (heap : Heap) (line : List (Ref × ℚ)) (quantity : ℚ) :
    lineTotal heap line quantity =
      ((hitsOf heap line quantity).map fun h => h.2.quantity).sum := by
  rw [hitsOf_portions, lineTotal]

theorem lineTotal_append (heap : Heap) (line line' : List (Ref × ℚ)) (quantity : ℚ) :
    lineTotal heap (line ++ line') quantity =
      lineTotal heap line quantity +
        lineTotal heap line' (quantity - lineTotal heap line quantity) := by
  unfold lineTotal
  rw [lineSizes_append, allot_append, List.sum_append]

/-- Only orders of the line are hit, at its prices. -/
theorem mem_of_mem_hitsOf {h : Ref × Hit} (hmem : h ∈ hitsOf heap line quantity) :
    (h.1, h.2.price) ∈ line :=
  (hitsOf_prefixed heap line quantity).subset (List.mem_map_of_mem hmem)

theorem reports_congr (h : ∀ p ∈ line, heap' p.1 = heap p.1) (quantity : ℚ) :
    (hitsOf heap line quantity).filterMap (reportOf k heap') =
      (hitsOf heap line quantity).filterMap (reportOf k heap) :=
  List.filterMap_congr fun hit hhit => by
    rw [reportOf, reportOf, h _ (mem_of_mem_hitsOf hhit)]

/-- Orders outside the line are not hit. -/
theorem lookup_hitsOf_of_notMem (h : ∀ p ∈ line, p.1 ≠ r) :
    Dict.lookup r (hitsOf heap line quantity) = none := by
  rw [Dict.lookup_eq_none_iff]
  intro hmem
  rcases List.mem_map.mp hmem with ⟨hit, hhit, hr⟩
  exact h _ (mem_of_mem_hitsOf hhit) hr

/-- The orders of a line are different ones. -/
def Apart (line : List (Ref × ℚ)) : Prop :=
  (line.map Prod.fst).Nodup

/-- An order of a line without repetition gets its hit. -/
theorem struck_of_mem (hline : Apart line) {h : Ref × Hit}
    (hmem : h ∈ hitsOf heap line quantity) :
    struck k (hitsOf heap line quantity) heap h.1 =
      k.hit h.2.price h.2.quantity (heap h.1) := by
  have hkeys : ((hitsOf heap line quantity).map Prod.fst).Nodup := by
    have hsub := ((hitsOf_prefixed heap line quantity).sublist.map Prod.fst).nodup hline
    rwa [List.map_map] at hsub
  rw [struck, Dict.lookup_of_mem hkeys hmem]
  rfl

theorem struck_of_none {hits : List (Ref × Hit)} (h : Dict.lookup r hits = none) :
    struck k hits heap r = heap r := by
  rw [struck, h]
  rfl

/-- An order gets its portion behind those in front of it. -/
theorem mem_hitsOf_of_lt {front : List (Ref × ℚ)} (p : Ref × ℚ) (back : List (Ref × ℚ))
    (hmore : eps < quantity - lineSize heap front)
    (hfront : ∀ q ∈ front, 0 ≤ (heap q.1).remainingQuantity) :
    (p.1, ⟨p.2, min (quantity - lineSize heap front) (heap p.1).remainingQuantity⟩) ∈
      hitsOf heap (front ++ p :: back) quantity := by
  have hsizes : ∀ size ∈ lineSizes heap front, 0 ≤ size := by
    intro size hsize
    obtain ⟨q, hq, rfl⟩ := List.mem_map.mp hsize
    exact hfront q hq
  have hleft : eps < quantity - lineTotal heap front quantity :=
    not_le.mp fun hle => not_le.mpr hmore ((sub_sum_allot eps_pos.le hsizes).mp hle)
  have htotal : lineTotal heap front quantity = lineSize heap front := by
    rw [lineTotal, allot_eq_of_lt eps_pos.le hleft]
    rfl
  rw [hitsOf_append, htotal, hitsOf]
  simp only [if_neg (not_le.mpr hmore)]
  exact List.mem_append_right _ (List.mem_cons_self ..)

/-- A line gets all it has from a quantity of its size. -/
theorem hitsOf_self (h : ∀ p ∈ line, eps < (heap p.1).remainingQuantity) :
    hitsOf heap line (lineSize heap line) = fullHits heap line := by
  induction line with
  | nil => rfl
  | cons p rest ih =>
    have hp := h p (List.mem_cons_self ..)
    have hrest := fun q hq => h q (List.mem_cons_of_mem p hq)
    have hsize : lineSize heap (p :: rest) =
        (heap p.1).remainingQuantity + lineSize heap rest := by
      simp [lineSize, lineSizes]
    have hnonneg : 0 ≤ lineSize heap rest := by
      refine List.sum_nonneg fun size hsize => ?_
      obtain ⟨q, hq, rfl⟩ := List.mem_map.mp hsize
      exact (eps_pos.trans (hrest q hq)).le
    have hmin : min (lineSize heap (p :: rest)) (heap p.1).remainingQuantity =
        (heap p.1).remainingQuantity := by
      rw [hsize]
      exact min_eq_right (le_add_of_nonneg_right hnonneg)
    have hmore : ¬lineSize heap (p :: rest) ≤ eps := by
      rw [hsize]
      linarith
    simp only [hitsOf, if_neg hmore, hmin]
    rw [hsize, add_sub_cancel_left, ih hrest]
    rfl

/-- An order for which nothing is left is not hit. -/
theorem notMem_hitsOf_of_le {front back : List (Ref × ℚ)} {p : Ref × ℚ}
    (hnone : quantity - lineSize heap front ≤ eps)
    (hfront : ∀ q ∈ front, 0 ≤ (heap q.1).remainingQuantity)
    (hline : Apart (front ++ p :: back)) :
    Dict.lookup p.1 (hitsOf heap (front ++ p :: back) quantity) = none := by
  have hsizes : ∀ size ∈ lineSizes heap front, 0 ≤ size := by
    intro size hsize
    obtain ⟨q, hq, rfl⟩ := List.mem_map.mp hsize
    exact hfront q hq
  have hleft : quantity - lineTotal heap front quantity ≤ eps :=
    (sub_sum_allot eps_pos.le hsizes).mpr hnone
  rw [hitsOf_append, hitsOf_of_le hleft, List.append_nil]
  refine lookup_hitsOf_of_notMem fun q hq heq => ?_
  unfold Apart at hline
  rw [List.map_append, List.map_cons, List.nodup_append] at hline
  exact hline.2.2 _ (List.mem_map_of_mem hq) _ (List.mem_cons_self ..) heq

end Lines

/-! ## What is left of a line -/

/-- A sweep that takes the quantity of a hit off an order, which stays active while more than the
tolerance remains. -/
structure Sweeper.Exact (k : Sweeper) : Prop where
  remaining : ∀ p q o, (k.hit p q o).remainingQuantity = o.remainingQuantity - q
  active : ∀ p q o, o.isActive = true → eps < (k.hit p q o).remainingQuantity →
    (k.hit p q o).isActive = true

theorem aggressorSweep_exact (skipPaper : Bool) (timestamp : ℚ) :
    (aggressorSweep skipPaper timestamp).Exact where
  remaining := fun p q o => recordFill_remaining p q timestamp o
  active := fun p q o _ hmore => isActive_recordFill p q timestamp o hmore

theorem printSweep_exact (timestamp : ℚ) : (printSweep timestamp).Exact where
  remaining := fun p q o => by
    simp only [printSweep]
    cases o.owner with
    | paper => exact recordFill_remaining p q timestamp o
    | market => exact remaining_shrunk q o
  active := fun p q o hactive hmore => by
    simp only [printSweep] at hmore ⊢
    cases howner : o.owner with
    | paper =>
      rw [howner] at hmore
      exact isActive_recordFill p q timestamp o hmore
    | market => exact hactive

/-- What is left of an order in its level. -/
def keptOf (o : Order) : ℚ :=
  if o.isLive then o.remainingQuantity else 0

/-- What is left of a line in its levels. -/
def keptSize (heap : Heap) (line : List (Ref × ℚ)) : ℚ :=
  (line.map fun p => keptOf (heap p.1)).sum

section Kept

variable {k : Sweeper} {heap : Heap} {line : List (Ref × ℚ)}

theorem keptOf_of_live {o : Order} (h : o.isLive = true) : keptOf o = o.remainingQuantity :=
  if_pos h

/-- A hit leaves what it does not take, or a remainder within the tolerance is dropped. -/
theorem keptOf_hit (hk : k.Exact) {o : Order} (hlive : o.isLive = true) (price size : ℚ)
    (hsize : size ≤ o.remainingQuantity) :
    ∃ crumb, 0 ≤ crumb ∧ crumb ≤ eps ∧
      o.remainingQuantity = size + crumb + keptOf (k.hit price size o) := by
  have hremaining := hk.remaining price size o
  rw [Order.isLive_iff] at hlive
  by_cases hmore : eps < (k.hit price size o).remainingQuantity
  · have hlive' : (k.hit price size o).isLive = true := by
      rw [Order.isLive_iff]
      exact ⟨hmore, hk.active price size o hlive.2 hmore⟩
    refine ⟨0, le_rfl, eps_pos.le, ?_⟩
    rw [keptOf_of_live hlive', hremaining]
    ring
  · have hdead : keptOf (k.hit price size o) = 0 := by
      refine if_neg ?_
      rw [Order.isLive_iff]
      exact fun h => hmore h.1
    rw [hremaining] at hmore
    refine ⟨o.remainingQuantity - size, sub_nonneg.mpr hsize, not_lt.mp hmore, ?_⟩
    rw [hdead]
    ring

theorem keptOf_full (hk : k.Exact) (price : ℚ) (o : Order) :
    keptOf (k.hit price o.remainingQuantity o) = 0 := by
  refine if_neg ?_
  rw [Order.isLive_iff, hk.remaining, sub_self]
  exact fun h => absurd h.1 (not_lt.mpr eps_pos.le)

theorem keptSize_congr {heap' : Heap} (h : ∀ p ∈ line, heap' p.1 = heap p.1) :
    keptSize heap' line = keptSize heap line := by
  unfold keptSize
  rw [List.map_congr_left fun p hp => by rw [h p hp]]

/-- Of live orders everything is left. -/
theorem keptSize_of_live (h : ∀ p ∈ line, (heap p.1).isLive = true) :
    keptSize heap line = lineSize heap line := by
  unfold keptSize lineSize lineSizes
  rw [List.map_congr_left fun p hp => keptOf_of_live (h p hp)]

/-- A line loses what is taken from it, and at most one remainder within the tolerance. -/
theorem keptSize_struck (hk : k.Exact) (hline : Apart line)
    (hlive : ∀ p ∈ line, (heap p.1).isLive = true) (quantity : ℚ) :
    ∃ crumb, 0 ≤ crumb ∧ crumb ≤ eps ∧ lineSize heap line = lineTotal heap line quantity + crumb +
      keptSize (struck k (hitsOf heap line quantity) heap) line := by
  by_cases hnone : hitsOf heap line quantity = []
  · have hsame : struck k (hitsOf heap line quantity) heap = heap := by
      rw [hnone]
      rfl
    refine ⟨0, le_rfl, eps_pos.le, ?_⟩
    rw [hsame, keptSize_of_live hlive, lineTotal_eq, hnone]
    simp
  · obtain ⟨front, p, back, hsplit, hmore, hhits⟩ := hitsOf_split hnone
    set size := min (quantity - lineSize heap front) (heap p.1).remainingQuantity with hsize
    set heap' := struck k (hitsOf heap line quantity) heap with hheap'
    have hmem : ∀ q ∈ front, heap' q.1 = k.hit q.2 (heap q.1).remainingQuantity (heap q.1) := by
      intro q hq
      refine struck_of_mem (h := (q.1, ⟨q.2, (heap q.1).remainingQuantity⟩)) hline ?_
      rw [hhits]
      exact List.mem_append_left _ (List.mem_map.mpr ⟨q, hq, rfl⟩)
    have hlast : heap' p.1 = k.hit p.2 size (heap p.1) := by
      refine struck_of_mem (h := (p.1, ⟨p.2, size⟩)) hline ?_
      rw [hhits]
      exact List.mem_append_right _ (List.mem_cons_self ..)
    have hback : ∀ q ∈ back, heap' q.1 = heap q.1 := by
      intro q hq
      refine struck_of_none ?_
      rw [Dict.lookup_eq_none_iff, hhits]
      intro hkey
      unfold Apart at hline
      rw [hsplit, List.map_append, List.map_cons, List.nodup_append, List.nodup_cons] at hline
      obtain ⟨-, ⟨hp, -⟩, hapart⟩ := hline
      rw [List.map_append, List.mem_append] at hkey
      rcases hkey with hfront | hp'
      · rw [fullHits, List.map_map] at hfront
        obtain ⟨f, hf, heq⟩ := List.mem_map.mp hfront
        exact hapart f.1 (List.mem_map_of_mem hf) q.1
          (List.mem_cons_of_mem _ (List.mem_map_of_mem hq)) heq
      · rw [List.map_singleton, List.mem_singleton] at hp'
        exact hp (hp' ▸ List.mem_map_of_mem hq)
    have hpmem : p ∈ line := by
      rw [hsplit]
      exact List.mem_append_right _ (List.mem_cons_self ..)
    obtain ⟨crumb, hnonneg, hle, hcrumb⟩ :=
      keptOf_hit hk (hlive p hpmem) p.2 size (min_le_right _ _)
    refine ⟨crumb, hnonneg, hle, ?_⟩
    have hgone : keptSize heap' front = 0 := by
      unfold keptSize
      rw [List.map_congr_left fun q hq => by rw [hmem q hq, keptOf_full hk]]
      simp
    have hrest : keptSize heap' back = lineSize heap back := by
      rw [keptSize_congr hback, keptSize_of_live fun q hq => hlive q ?_]
      rw [hsplit]
      exact List.mem_append_right _ (List.mem_cons_of_mem _ hq)
    have htotal : lineTotal heap line quantity = lineSize heap front + size := by
      rw [lineTotal_eq, hhits, List.map_append, List.sum_append, fullHits, List.map_map]
      simp [lineSize, lineSizes, Function.comp_def]
    have hkept : keptSize heap' line = 0 + (keptOf (heap' p.1) + lineSize heap back) := by
      rw [← hgone, ← hrest, hsplit]
      simp [keptSize]
    have hwhole : lineSize heap line =
        lineSize heap front + ((heap p.1).remainingQuantity + lineSize heap back) := by
      rw [hsplit]
      simp [lineSize, lineSizes]
    rw [hwhole, htotal, hkept, hlast, hcrumb]
    ring

end Kept

/-! ## One level -/

variable {k : Sweeper}

/-- The loop over a level allots what is left to the orders it does not pass over. -/
theorem walkLevel_eq (price : ℚ) {orders : List Ref} (hnodup : orders.Nodup) {heap : Heap}
    (hlive : ∀ r ∈ orders, eps < (heap r).remainingQuantity) (remaining : ℚ) :
    walkLevel k price orders heap remaining =
      { heap := struck k (hitsOf heap (lineOf k heap price orders) remaining) heap
        remaining := remaining - lineTotal heap (lineOf k heap price orders) remaining
        fills := (hitsOf heap (lineOf k heap price orders) remaining).filterMap
          (reportOf k heap) } := by
  induction orders generalizing heap remaining with
  | nil =>
    have hstruck : struck k (hitsOf heap (lineOf k heap price []) remaining) heap = heap := rfl
    rw [hstruck, walkLevel, lineTotal]
    simp [lineOf, lineSizes, hitsOf]
  | cons r rest ih =>
    obtain ⟨hnot, hrest⟩ := List.nodup_cons.mp hnodup
    have hlater := fun q hq => hlive q (List.mem_cons_of_mem r hq)
    by_cases hdone : remaining ≤ eps
    · have htotal : lineTotal heap (lineOf k heap price (r :: rest)) remaining = 0 := by
        rw [lineTotal, allot_of_le hdone, List.sum_nil]
      rw [walkLevel_of_le hdone, hitsOf_of_le hdone, htotal, sub_zero]
      rfl
    · simp only [walkLevel, if_neg hdone]
      by_cases hskips : k.skips (heap r) = true
      · have hline : lineOf k heap price (r :: rest) = lineOf k heap price rest := by
          simp [lineOf, hskips]
        rw [if_pos hskips, hline]
        exact ih hrest hlater remaining
      · have hline : lineOf k heap price (r :: rest) =
            (r, price) :: lineOf k heap price rest := by
          simp [lineOf, hskips]
        have hsize : ¬min remaining (heap r).remainingQuantity ≤ eps :=
          not_le.mpr (lt_min (not_le.mp hdone) (hlive r (List.mem_cons_self ..)))
        set size := min remaining (heap r).remainingQuantity with hsizeEq
        set o := k.hit price size (heap r) with ho
        have hsame : ∀ q ∈ rest, Function.update heap r o q = heap q := fun q hq =>
          Function.update_of_ne (fun heq : q = r => hnot (heq ▸ hq)) ..
        have hmembers : ∀ p ∈ lineOf k heap price rest, Function.update heap r o p.1 = heap p.1 :=
          fun p hp => hsame p.1 (mem_lineOf.mp hp).1
        have hlater' : ∀ q ∈ rest, eps < (Function.update heap r o q).remainingQuantity :=
          fun q hq => by rw [hsame q hq]; exact hlater q hq
        have hrun := ih hrest hlater' (remaining - size)
        rw [lineOf_congr hsame, hitsOf_congr hmembers, lineTotal_congr hmembers] at hrun
        have hreports := reports_congr (k := k) hmembers (remaining - size)
        have hhits : hitsOf heap ((r, price) :: lineOf k heap price rest) remaining =
            (r, ⟨price, size⟩) :: hitsOf heap (lineOf k heap price rest) (remaining - size) := by
          rw [hitsOf, if_neg hdone]
        have htotal : lineTotal heap ((r, price) :: lineOf k heap price rest) remaining =
            size + lineTotal heap (lineOf k heap price rest) (remaining - size) := by
          rw [lineTotal, lineSizes, List.map_cons, allot_cons_of_lt (not_le.mp hdone),
            List.sum_cons]
          rfl
        have hlookup : Dict.lookup r
            (hitsOf heap (lineOf k heap price rest) (remaining - size)) = none :=
          lookup_hitsOf_of_notMem fun p hp heq => hnot (heq ▸ (mem_lineOf.mp hp).1)
        have hheap : struck k (hitsOf heap (lineOf k heap price rest) (remaining - size))
            (Function.update heap r o) =
              struck k ((r, ⟨price, size⟩) ::
                hitsOf heap (lineOf k heap price rest) (remaining - size)) heap := by
          funext q
          by_cases hq : q = r
          · rw [hq, struck_of_none hlookup, Function.update_self]
            simp [struck, Dict.lookup, ho]
          · have hne : r ≠ q := fun heq => hq heq.symm
            simp [struck, Dict.lookup, hne, Function.update_of_ne hq]
        rw [if_neg hskips, if_neg hsize, hline, hhits, htotal, hrun, hheap, hreports, sub_sub]
        by_cases hreport : k.reports o = true
        · rw [if_pos hreport]
          simp [reportOf, ← ho, hreport]
        · rw [if_neg hreport]
          simp [reportOf, ← ho, hreport]

/-! ## Queue positions -/

section Positions

variable {heap : Heap} {orders : List Ref} {r : Ref}

/-- Refreshing a queue changes the position of an order at most. -/
theorem refreshFrom_cases (ahead : ℚ) (hnodup : orders.Nodup) (heap : Heap) (r : Ref) :
    refreshFrom ahead orders heap r = heap r ∨
      ∃ position, refreshFrom ahead orders heap r = (heap r).queuedBehind position := by
  induction orders generalizing ahead heap with
  | nil => exact Or.inl rfl
  | cons q rest ih =>
    obtain ⟨hnot, hrest⟩ := List.nodup_cons.mp hnodup
    by_cases hr : r = q
    · subst hr
      rw [refreshFrom, refreshFrom_of_notMem _ _ hnot, Function.update_self]
      exact Or.inr ⟨ahead, rfl⟩
    · rw [refreshFrom]
      have hnext := ih (ahead + (heap q).remainingQuantity) hrest
        (Function.update heap q ((heap q).queuedBehind ahead))
      rwa [Function.update_of_ne hr] at hnext

end Positions

variable {b : OrderBook} {s s' : TradeSide} {t t' : ℤ}

theorem heap_prune_of_notMem {r : Ref} (h : r ∉ b.queue s t) :
    (b.prune s t).heap r = b.heap r := by
  unfold prune
  cases hl : b.level? s t with
  | none => rfl
  | some level =>
    rw [queue_of_level hl] at h
    have hkept : r ∉ level.orders.filter fun r => (b.heap r).isLive := fun hmem =>
      h (List.mem_filter.mp hmem).1
    simp only
    split
    · rw [heap_setSide]
      exact refreshFrom_of_notMem _ _ hkept
    · rw [heap_setLevel]
      exact refreshFrom_of_notMem _ _ hkept

/-- Pruning a level changes the position of an order at most. -/
theorem heap_prune_cases (hnodup : (b.queue s t).Nodup) (r : Ref) :
    (b.prune s t).heap r = b.heap r ∨
      ∃ position, (b.prune s t).heap r = (b.heap r).queuedBehind position := by
  unfold prune
  cases hl : b.level? s t with
  | none => exact Or.inl rfl
  | some level =>
    rw [queue_of_level hl] at hnodup
    simp only
    split
    · rw [heap_setSide]
      exact refreshFrom_cases 0 (hnodup.filter _) b.heap r
    · rw [heap_setLevel]
      exact refreshFrom_cases 0 (hnodup.filter _) b.heap r

theorem side_prune_ne (h : s' ≠ s) : (b.prune s t).side s' = b.side s' := by
  unfold prune
  split
  · rfl
  · simp only
    split
    · rw [side_setSide_ne _ h]
      cases s' <;> rfl
    · rw [setLevel, side_setSide_ne _ h]
      cases s' <;> rfl

/-! ## All levels -/

/-- The orders at some ticks of a side that a sweep does not pass over, with their prices. -/
def line (k : Sweeper) (b : OrderBook) (s : TradeSide) (ticks : List ℤ) : List (Ref × ℚ) :=
  ticks.flatMap fun t => lineOf k b.heap (b.grid.fromTicks t) (b.queue s t)

/-- What the orders at some ticks get of a quantity. -/
def hits (k : Sweeper) (b : OrderBook) (s : TradeSide) (ticks : List ℤ) (quantity : ℚ) :
    List (Ref × Hit) :=
  hitsOf b.heap (b.line k s ticks) quantity

/-- The order objects after these hits. -/
def struckAt (k : Sweeper) (b : OrderBook) (s : TradeSide) (ticks : List ℤ) (quantity : ℚ) :
    Heap :=
  struck k (b.hits k s ticks quantity) b.heap

section Struck

variable {k : Sweeper} {hits hits' : List (Ref × Hit)} {heap : Heap} {r : Ref} {quantity : ℚ}
  {ticks : List ℤ}

theorem struck_owner (hk : k.Sound) (hits : List (Ref × Hit)) (heap : Heap) (r : Ref) :
    (struck k hits heap r).owner = (heap r).owner := by
  unfold struck
  cases Dict.lookup r hits with
  | none => rfl
  | some hit => exact hk.owner _ _ _

theorem struck_orderId (hk : k.Sound) (hits : List (Ref × Hit)) (heap : Heap) (r : Ref) :
    (struck k hits heap r).orderId = (heap r).orderId := by
  unfold struck
  cases Dict.lookup r hits with
  | none => rfl
  | some hit => exact hk.orderId _ _ _

theorem struck_append_of_none_right (h : Dict.lookup r hits' = none) :
    struck k (hits ++ hits') heap r = struck k hits heap r := by
  rw [struck, struck, Dict.lookup_append, h, Option.or_none]

theorem struck_append_of_none_left (h : Dict.lookup r hits = none) :
    struck k (hits ++ hits') heap r = struck k hits' heap r := by
  rw [struck, struck, Dict.lookup_append, h, Option.none_or]

theorem mem_line {p : Ref × ℚ} :
    p ∈ b.line k s ticks ↔ ∃ t ∈ ticks, p.1 ∈ b.queue s t ∧ k.skips (b.heap p.1) = false ∧
      p.2 = b.grid.fromTicks t := by
  simp only [line, List.mem_flatMap, mem_lineOf]

/-- Orders at no tick of a line are not hit. -/
theorem struckAt_of_notMem (h : ∀ t ∈ ticks, r ∉ b.queue s t) :
    b.struckAt k s ticks quantity r = b.heap r := by
  refine struck_of_none (lookup_hitsOf_of_notMem fun p hp heq => ?_)
  obtain ⟨t, ht, hmem, -⟩ := mem_line.mp hp
  exact h t ht (heq ▸ hmem)

/-- Orders with nothing left to hand out are as they were. -/
theorem struckAt_of_le (h : quantity ≤ eps) : b.struckAt k s ticks quantity = b.heap := by
  funext r
  refine struck_of_none ?_
  rw [hits, hitsOf_of_le h]
  rfl

end Struck

/-- What a sweep over some ticks leaves: the hits are those of the line, and the queues have
moved up. -/
structure Swept (k : Sweeper) (b : OrderBook) (s : TradeSide) (ticks : List ℤ) (quantity : ℚ)
    (run : BookRun) : Prop where
  remaining : run.remaining = quantity - lineTotal b.heap (b.line k s ticks) quantity
  fills : run.fills = (b.hits k s ticks quantity).filterMap (reportOf k b.heap)
  order : ∀ r, run.book.heap r = b.struckAt k s ticks quantity r ∨
    ∃ position, run.book.heap r = (b.struckAt k s ticks quantity r).queuedBehind position
  elsewhere : ∀ r, (∀ t ∈ ticks, r ∉ b.queue s t) → run.book.heap r = b.heap r
  queue : ∀ t ∈ ticks, run.book.queue s t =
    (b.queue s t).filter fun r => (b.struckAt k s ticks quantity r).isLive
  level : ∀ t, t ∉ ticks → run.book.level? s t = b.level? s t
  side : ∀ s', s' ≠ s → run.book.side s' = b.side s'
  index : ∀ id, run.book.orders.get? id =
    if ∃ t ∈ ticks, ∃ r ∈ b.queue s t, (b.struckAt k s ticks quantity r).isLive = false ∧
        (b.heap r).owner = .market ∧ (b.heap r).orderId = id then none
    else b.orders.get? id
  fixed : run.book.grid = b.grid ∧ run.book.symbol = b.symbol ∧ run.book.nextRef = b.nextRef ∧
    run.book.lastTradePrice = b.lastTradePrice ∧ run.book.lastTradeSize = b.lastTradeSize ∧
      run.book.lastEventTime = b.lastEventTime

theorem prune_fixed : (b.prune s t).grid = b.grid ∧ (b.prune s t).symbol = b.symbol ∧
    (b.prune s t).nextRef = b.nextRef ∧ (b.prune s t).lastTradePrice = b.lastTradePrice ∧
      (b.prune s t).lastTradeSize = b.lastTradeSize ∧
        (b.prune s t).lastEventTime = b.lastEventTime := by
  unfold prune
  split
  · exact ⟨rfl, rfl, rfl, rfl, rfl, rfl⟩
  · simp only
    split <;> cases s <;> exact ⟨rfl, rfl, rfl, rfl, rfl, rfl⟩

/-- A sweep with nothing to hand out. -/
theorem Ok.still (hok : b.Ok) {k : Sweeper} {ticks : List ℤ} {quantity : ℚ}
    (h : quantity ≤ eps ∨ ticks = []) : Swept k b s ticks quantity ⟨b, quantity, []⟩ := by
  have hstruck : b.struckAt k s ticks quantity = b.heap := by
    rcases h with h | rfl
    · exact struckAt_of_le h
    · rfl
  have hhits : b.hits k s ticks quantity = [] := by
    rcases h with h | rfl
    · exact hitsOf_of_le h _ _
    · rfl
  have htotal : lineTotal b.heap (b.line k s ticks) quantity = 0 := by
    rcases h with h | rfl
    · rw [lineTotal, allot_of_le h, List.sum_nil]
    · rfl
  have hlive : ∀ t ∈ ticks, ∀ r ∈ b.queue s t, (b.heap r).isLive = true := fun t _ r hr =>
    hok.isLive hr
  exact
    { remaining := by rw [htotal, sub_zero]
      fills := by rw [hhits]; rfl
      order := fun r => Or.inl (by rw [hstruck])
      elsewhere := fun r _ => rfl
      queue := fun t ht => by rw [hstruck, List.filter_eq_self.mpr (hlive t ht)]
      level := fun t _ => rfl
      side := fun s' _ => rfl
      index := fun id => by
        rw [if_neg]
        rintro ⟨t, ht, r, hr, hdead, -⟩
        rw [hstruck, hlive t ht r hr] at hdead
        cases hdead
      fixed := ⟨rfl, rfl, rfl, rfl, rfl, rfl⟩ }

/-- The book after one level of a sweep. -/
def levelSwept (k : Sweeper) (b : OrderBook) (s : TradeSide) (t : ℤ) (quantity : ℚ) : OrderBook :=
  (b.withHeap (b.struckAt k s [t] quantity)).prune s t

section Step

variable {k : Sweeper} {quantity : ℚ} {ticks : List ℤ} {r : Ref}

theorem line_singleton (k : Sweeper) (b : OrderBook) (s : TradeSide) (t : ℤ) :
    b.line k s [t] = lineOf k b.heap (b.grid.fromTicks t) (b.queue s t) := by
  rw [line, List.flatMap_singleton]

theorem line_cons (k : Sweeper) (b : OrderBook) (s : TradeSide) (t : ℤ) (ticks : List ℤ) :
    b.line k s (t :: ticks) = b.line k s [t] ++ b.line k s ticks := by
  rw [line_singleton, line, List.flatMap_cons]
  rfl

/-- A level that lists its orders once is swept as its line is. -/
theorem Ok.walkLevel_line (hok : b.Ok) {level : LevelQueue} (hlevel : b.level? s t = some level)
    (hnodup : (b.queue s t).Nodup) (quantity : ℚ) :
    walkLevel k level.price level.orders b.heap quantity =
      { heap := b.struckAt k s [t] quantity
        remaining := quantity - lineTotal b.heap (b.line k s [t]) quantity
        fills := (b.hits k s [t] quantity).filterMap (reportOf k b.heap) } := by
  have hqueue := queue_of_level hlevel
  have hprice := (hok.shape.level s t level hlevel).price
  rw [struckAt, hits, line_singleton, hqueue, ← hprice]
  rw [hqueue] at hnodup
  refine walkLevel_eq level.price hnodup (fun r hr => ?_) quantity
  exact hok.eps_lt_remaining (hqueue ▸ hr)

/-- The loop over levels, one level on. -/
theorem Ok.walk_cons (hok : b.Ok) (hlevel : ∃ level, b.level? s t = some level)
    (hnodup : (b.queue s t).Nodup) (hmore : eps < quantity) (ticks : List ℤ) :
    walk k s (fun _ => false) (t :: ticks) b quantity =
      let next := walk k s (fun _ => false) ticks (levelSwept k b s t quantity)
        (quantity - lineTotal b.heap (b.line k s [t]) quantity)
      { next with
        fills := (b.hits k s [t] quantity).filterMap (reportOf k b.heap) ++ next.fills } := by
  obtain ⟨level, hlevel⟩ := hlevel
  have hrun := hok.walkLevel_line (k := k) hlevel hnodup quantity
  simp only [walk, not_le.mpr hmore, decide_false, Bool.or_false, Bool.false_eq_true, if_false,
    hlevel, hrun]
  rfl

theorem Ok.levelSwept_ok (hok : b.Ok) (hk : k.Sound) (hlevel : ∃ level, b.level? s t = some level)
    (hnodup : (b.queue s t).Nodup) (quantity : ℚ) : (levelSwept k b s t quantity).Ok := by
  obtain ⟨level, hlevel⟩ := hlevel
  have hwithin := walkLevel_within hk level.price quantity
    (hok.shape.level s t level hlevel).belongs
  rw [hok.walkLevel_line hlevel hnodup] at hwithin
  exact prune_ok ((hok.except s t).within hwithin)

theorem heap_levelSwept_of_notMem (h : r ∉ b.queue s t) :
    (levelSwept k b s t quantity).heap r = b.heap r := by
  rw [levelSwept, heap_prune_of_notMem (by rwa [queue_withHeap])]
  exact struckAt_of_notMem fun t' ht' => by rwa [List.mem_singleton.mp ht']

theorem queue_levelSwept (t' : ℤ) : (levelSwept k b s t quantity).queue s t' =
    if t' = t then (b.queue s t).filter fun r => (b.struckAt k s [t] quantity r).isLive
    else b.queue s t' := by
  rw [levelSwept, queue_prune, queue_withHeap, queue_withHeap]
  simp only [Prod.mk.injEq, true_and]
  rfl

theorem grid_levelSwept : (levelSwept k b s t quantity).grid = b.grid :=
  grid_prune

/-- The levels behind a swept level are as they were. -/
theorem Ok.line_levelSwept (hok : b.Ok) (hnot : t ∉ ticks) (quantity : ℚ) :
    (levelSwept k b s t quantity).line k s ticks = b.line k s ticks ∧
      ∀ p ∈ b.line k s ticks, (levelSwept k b s t quantity).heap p.1 = b.heap p.1 := by
  have hapart : ∀ t' ∈ ticks, ∀ r ∈ b.queue s t',
      (levelSwept k b s t quantity).heap r = b.heap r := by
    intro t' ht' r hr
    refine heap_levelSwept_of_notMem fun hmem => ?_
    exact hnot ((hok.queue_unique hr hmem).2 ▸ ht')
  constructor
  · refine List.flatMap_congr fun t' ht' => ?_
    have hne : t' ≠ t := fun heq => hnot (heq ▸ ht')
    rw [grid_levelSwept, queue_levelSwept, if_neg hne]
    exact lineOf_congr (hapart t' ht')
  · intro p hp
    obtain ⟨t', ht', hmem, -⟩ := mem_line.mp hp
    exact hapart t' ht' p.1 hmem

/-- The hits behind a swept level are those of the book as it was. -/
theorem Ok.hits_levelSwept (hok : b.Ok) (hnot : t ∉ ticks) (left : ℚ) :
    (levelSwept k b s t quantity).hits k s ticks left = b.hits k s ticks left := by
  obtain ⟨hline, hsame⟩ := hok.line_levelSwept (k := k) hnot quantity
  rw [hits, hline, hitsOf_congr hsame]
  rfl

theorem hits_cons (k : Sweeper) (b : OrderBook) (s : TradeSide) (t : ℤ) (ticks : List ℤ)
    (quantity : ℚ) : b.hits k s (t :: ticks) quantity =
      b.hits k s [t] quantity ++
        b.hits k s ticks (quantity - lineTotal b.heap (b.line k s [t]) quantity) := by
  rw [hits, line_cons, hitsOf_append]
  rfl

theorem lookup_hits_of_notMem (h : ∀ t ∈ ticks, r ∉ b.queue s t) :
    Dict.lookup r (b.hits k s ticks quantity) = none :=
  lookup_hitsOf_of_notMem fun p hp heq => by
    obtain ⟨t, ht, hmem, -⟩ := mem_line.mp hp
    exact h t ht (heq ▸ hmem)

/-- An order of the first level is hit there only. -/
theorem Ok.struckAt_cons_mem (hok : b.Ok) (hnot : t ∉ ticks) (hr : r ∈ b.queue s t) :
    b.struckAt k s (t :: ticks) quantity r = b.struckAt k s [t] quantity r := by
  rw [struckAt, hits_cons]
  refine struck_append_of_none_right (lookup_hits_of_notMem fun t' ht' hmem => ?_)
  exact hnot ((hok.queue_unique hmem hr).2 ▸ ht')

/-- An order of another level is hit behind the first one. -/
theorem Ok.struckAt_cons_notMem (hok : b.Ok) (hnot : t ∉ ticks) (hr : r ∉ b.queue s t) :
    b.struckAt k s (t :: ticks) quantity r = (levelSwept k b s t quantity).struckAt k s ticks
      (quantity - lineTotal b.heap (b.line k s [t]) quantity) r := by
  rw [struckAt, hits_cons, struck_append_of_none_left
    (lookup_hits_of_notMem fun t' ht' => by rwa [List.mem_singleton.mp ht'])]
  rw [struckAt, hok.hits_levelSwept hnot, struck, struck, heap_levelSwept_of_notMem hr]

/-- A sweep is the sweep of its first level and then that of the others. -/
theorem Swept.cons (hok : b.Ok) (hk : k.Sound) (hnodup : (b.queue s t).Nodup) (hnot : t ∉ ticks)
    {run : BookRun}
    (h : Swept k (levelSwept k b s t quantity) s ticks
      (quantity - lineTotal b.heap (b.line k s [t]) quantity) run) :
    Swept k b s (t :: ticks) quantity
      { run with
        fills := (b.hits k s [t] quantity).filterMap (reportOf k b.heap) ++ run.fills } := by
  obtain ⟨hline, hsame⟩ := hok.line_levelSwept (k := k) hnot quantity
  have hqueue : ∀ t' ∈ ticks, (levelSwept k b s t quantity).queue s t' = b.queue s t' :=
    fun t' ht' => by rw [queue_levelSwept, if_neg fun heq : t' = t => hnot (heq ▸ ht')]
  have hapart : ∀ t' ∈ ticks, ∀ r ∈ b.queue s t', r ∉ b.queue s t := fun t' ht' r hr hmem =>
    hnot ((hok.queue_unique hr hmem).2 ▸ ht')
  have hfirst : ∀ r ∈ b.queue s t, ∀ t' ∈ ticks, r ∉ (levelSwept k b s t quantity).queue s t' :=
    fun r hr t' ht' hmem => by
      rw [hqueue t' ht'] at hmem
      exact hapart t' ht' r hmem hr
  constructor
  · show run.remaining = _
    rw [h.remaining, hline, lineTotal_congr hsame, line_cons k b s t ticks, lineTotal_append,
      sub_sub]
  · show _ ++ run.fills = _
    have hlater := reports_congr (k := k) hsame
      (quantity - lineTotal b.heap (b.line k s [t]) quantity)
    rw [h.fills, hits_cons k b s t ticks, List.filterMap_append, hok.hits_levelSwept hnot]
    exact congrArg _ hlater
  · intro r
    by_cases hr : r ∈ b.queue s t
    · have hpruned := heap_prune_cases (b := b.withHeap (b.struckAt k s [t] quantity))
        (s := s) (t := t) (by rwa [queue_withHeap]) r
      rw [hok.struckAt_cons_mem hnot hr]
      show run.book.heap r = _ ∨ _
      rw [h.elsewhere r (hfirst r hr)]
      exact hpruned
    · rw [hok.struckAt_cons_notMem hnot hr]
      exact h.order r
  · intro r hr
    have hnone := hr t (List.mem_cons_self ..)
    refine (h.elsewhere r fun t' ht' => ?_).trans (heap_levelSwept_of_notMem hnone)
    rw [hqueue t' ht']
    exact hr t' (List.mem_cons_of_mem t ht')
  · intro t' ht'
    rcases List.mem_cons.mp ht' with rfl | hrest
    · refine (queue_congr (h.level _ hnot)).trans ?_
      rw [queue_levelSwept, if_pos rfl]
      exact List.filter_congr fun r hr => by rw [hok.struckAt_cons_mem hnot hr]
    · refine (h.queue t' hrest).trans ?_
      rw [hqueue t' hrest]
      exact List.filter_congr fun r hr => by
        rw [hok.struckAt_cons_notMem hnot (hapart t' hrest r hr)]
  · intro t' ht'
    rw [List.mem_cons, not_or] at ht'
    refine (h.level t' ht'.2).trans ?_
    rw [levelSwept, level?_prune_ne (fun heq => ht'.1 (Prod.mk.inj heq).2), level?_withHeap]
  · intro s' hs'
    refine (h.side s' hs').trans ?_
    rw [levelSwept, side_prune_ne hs', side_withHeap]
  · intro id
    have hpruned : (levelSwept k b s t quantity).orders.get? id =
        if ∃ r ∈ b.queue s t, (b.struckAt k s [t] quantity r).isLive = false ∧
          (b.struckAt k s [t] quantity r).owner = .market ∧
            (b.struckAt k s [t] quantity r).orderId = id then none
        else b.orders.get? id := by
      rw [levelSwept, orders_prune, queue_withHeap, forgetDead_get?]
      rfl
    refine (h.index id).trans ?_
    rw [hpruned, ← ite_or]
    refine if_congr ?_ rfl rfl
    rw [List.exists_mem_cons_iff, or_comm]
    refine or_congr (exists_congr fun r => and_congr_right fun hr => ?_)
      (exists_congr fun t' => and_congr_right fun ht' => ?_)
    · rw [hok.struckAt_cons_mem hnot hr]
      unfold struckAt
      rw [struck_owner hk, struck_orderId hk]
    · rw [hqueue t' ht']
      refine exists_congr fun r => and_congr_right fun hr => ?_
      have hnone := hapart t' ht' r hr
      rw [hok.struckAt_cons_notMem hnot hnone, heap_levelSwept_of_notMem hnone]
  · obtain ⟨hgrid, hsymbol, hnext, hprice, hsize, htime⟩ := h.fixed
    obtain ⟨hgrid', hsymbol', hnext', hprice', hsize', htime'⟩ :=
      prune_fixed (b := b.withHeap (b.struckAt k s [t] quantity)) (s := s) (t := t)
    exact ⟨hgrid.trans hgrid', hsymbol.trans hsymbol', hnext.trans hnext', hprice.trans hprice',
      hsize.trans hsize', htime.trans htime'⟩

end Step

/-- A sweep over levels that list their orders once allots its quantity to the line. -/
theorem Ok.walk_swept (hok : b.Ok) {k : Sweeper} (hk : k.Sound) {ticks : List ℤ}
    (hticks : ticks.Nodup) (hlevels : ∀ t ∈ ticks, ∃ level, b.level? s t = some level)
    (hnodup : ∀ t ∈ ticks, (b.queue s t).Nodup) (quantity : ℚ) :
    Swept k b s ticks quantity (walk k s (fun _ => false) ticks b quantity) := by
  induction ticks generalizing b quantity with
  | nil => exact hok.still (Or.inr rfl)
  | cons t rest ih =>
    by_cases hdone : quantity ≤ eps
    · rw [walk_of_le hdone]
      exact hok.still (Or.inl hdone)
    · obtain ⟨hnot, hrest⟩ := List.nodup_cons.mp hticks
      have hlevel := hlevels t (List.mem_cons_self ..)
      have honce := hnodup t (List.mem_cons_self ..)
      rw [hok.walk_cons hlevel honce (not_le.mp hdone)]
      refine Swept.cons hok hk honce hnot (ih (hok.levelSwept_ok hk hlevel honce quantity) hrest
        (fun t' ht' => ?_) (fun t' ht' => ?_) _)
      · have hne : (s, t') ≠ (s, t) := fun heq => hnot ((Prod.mk.inj heq).2 ▸ ht')
        rw [levelSwept, level?_prune_ne hne, level?_withHeap]
        exact hlevels t' (List.mem_cons_of_mem t ht')
      · rw [queue_levelSwept, if_neg fun heq : t' = t => hnot (heq ▸ ht')]
        exact hnodup t' (List.mem_cons_of_mem t ht')

/-! ## Within a limit -/

section Reach

variable {aggressor : TradeSide} {limitPrice : Option ℚ}

theorem worseThan_trans {t t' limit : ℤ} (hworse : worseThan aggressor t' t = true)
    (ht : worseThan aggressor t limit = true) : worseThan aggressor t' limit = true := by
  cases aggressor <;> simp only [worseThan, decide_eq_true_eq] at * <;> omega

/-- The ticks of a side come in the order of their prices, best first. -/
theorem Shape.bestFirst_pairwise (h : b.Shape) (aggressor : TradeSide) :
    (b.bestFirst aggressor).Pairwise fun t t' => worseThan aggressor t' t = true := by
  cases aggressor with
  | buy => exact (h.sorted .sell).imp fun hlt => decide_eq_true hlt
  | sell =>
    exact List.pairwise_reverse.mpr ((h.sorted .buy).imp fun hlt => decide_eq_true hlt)

theorem Shape.bestFirst_nodup (h : b.Shape) (aggressor : TradeSide) :
    (b.bestFirst aggressor).Nodup := by
  cases aggressor with
  | buy => exact (h.sorted .sell).imp fun hlt => hlt.ne
  | sell => exact List.nodup_reverse.mpr ((h.sorted .buy).imp fun hlt => hlt.ne)

theorem Shape.mem_bestFirst (h : b.Shape) (aggressor : TradeSide) {t : ℤ} :
    t ∈ b.bestFirst aggressor ↔ ∃ level, b.level? aggressor.opposite t = some level := by
  cases aggressor with
  | buy => exact h.keys .sell t
  | sell => exact List.mem_reverse.trans (h.keys .buy t)

/-- The ticks within the limit of an aggressor, best first. -/
def reach (b : OrderBook) (aggressor : TradeSide) (limitPrice : Option ℚ) : List ℤ :=
  (b.bestFirst aggressor).filter fun t => !b.beyondLimit aggressor limitPrice t

theorem Shape.reach_nodup (h : b.Shape) (aggressor : TradeSide) (limitPrice : Option ℚ) :
    (b.reach aggressor limitPrice).Nodup :=
  (h.bestFirst_nodup aggressor).filter _

theorem Shape.reach_sub (h : b.Shape) (aggressor : TradeSide) (limitPrice : Option ℚ) :
    b.reach aggressor limitPrice ⊆ (b.side aggressor.opposite).ticks := fun t ht =>
  (h.keys _ t).mpr ((h.mem_bestFirst aggressor).mp (List.mem_filter.mp ht).1)

theorem beyondLimit_of_worse {t t' : ℤ} (hworse : worseThan aggressor t' t = true)
    (h : b.beyondLimit aggressor limitPrice t = true) :
    b.beyondLimit aggressor limitPrice t' = true := by
  cases limitPrice with
  | none => cases h
  | some limit => exact worseThan_trans hworse h

/-- A sweep that stops at the limit is a sweep of the ticks within it. -/
theorem walk_takeWhile (k : Sweeper) (s : TradeSide) (beyond : ℤ → Bool) (ticks : List ℤ)
    (quantity : ℚ) : walk k s beyond ticks b quantity =
      walk k s (fun _ => false) (ticks.takeWhile fun t => !beyond t) b quantity := by
  induction ticks generalizing b quantity with
  | nil => rfl
  | cons t rest ih =>
    cases hbeyond : beyond t with
    | true =>
      rw [List.takeWhile_cons_of_neg (by simp [hbeyond])]
      simp [walk, hbeyond]
    | false =>
      rw [List.takeWhile_cons_of_pos (by simp [hbeyond])]
      simp only [walk, hbeyond, Bool.or_false, ih]

theorem Shape.walk_reach (h : b.Shape) (k : Sweeper) (aggressor : TradeSide)
    (limitPrice : Option ℚ) (quantity : ℚ) :
    walk k aggressor.opposite (b.beyondLimit aggressor limitPrice) (b.bestFirst aggressor) b
        quantity =
      walk k aggressor.opposite (fun _ => false) (b.reach aggressor limitPrice) b quantity := by
  rw [walk_takeWhile, takeWhile_eq_filter]
  · rfl
  · refine (h.bestFirst_pairwise aggressor).imp fun {t t'} hworse hp => ?_
    cases hbeyond : b.beyondLimit aggressor limitPrice t with
    | false => rfl
    | true =>
      rw [beyondLimit_of_worse hworse hbeyond] at hp
      cases hp

end Reach

/-! ## The size of a side -/

section Depth

variable {k : Sweeper} {quantity : ℚ} {ticks : List ℤ} {run : BookRun}

/-- The size that a sweep can find on a side. -/
def depthOf (k : Sweeper) (b : OrderBook) (s : TradeSide) : ℚ :=
  ((b.side s).ticks.map fun t => lineSize b.heap (b.line k s [t])).sum

theorem lineSize_append (heap : Heap) (line line' : List (Ref × ℚ)) :
    lineSize heap (line ++ line') = lineSize heap line + lineSize heap line' := by
  rw [lineSize, lineSizes_append, List.sum_append]
  rfl

theorem keptSize_append (heap : Heap) (line line' : List (Ref × ℚ)) :
    keptSize heap (line ++ line') = keptSize heap line + keptSize heap line' := by
  rw [keptSize, List.map_append, List.sum_append]
  rfl

/-- The size of a line is that of its ticks. -/
theorem lineSize_line (k : Sweeper) (b : OrderBook) (s : TradeSide) (ticks : List ℤ) :
    lineSize b.heap (b.line k s ticks) =
      (ticks.map fun t => lineSize b.heap (b.line k s [t])).sum := by
  induction ticks with
  | nil => rfl
  | cons t rest ih => rw [line_cons, lineSize_append, ih, List.map_cons, List.sum_cons]

/-- The orders of a line are different ones when the levels list their orders once. -/
theorem Ok.line_apart (hok : b.Ok) (hticks : ticks.Nodup)
    (hnodup : ∀ t ∈ ticks, (b.queue s t).Nodup) : Apart (b.line k s ticks) := by
  have hfst : (b.line k s ticks).map Prod.fst =
      ticks.flatMap fun t => (b.queue s t).filter fun r => !k.skips (b.heap r) := by
    simp only [line, List.map_flatMap, lineOf, List.map_map, Function.comp_def, List.map_id']
  rw [Apart, hfst, List.nodup_flatMap]
  refine ⟨fun t ht => (hnodup t ht).filter _, hticks.imp fun {t t'} hne => ?_⟩
  intro r hr hr'
  exact hne (hok.queue_unique (List.mem_filter.mp hr').1 (List.mem_filter.mp hr).1).2

theorem Ok.line_live (hok : b.Ok) : ∀ p ∈ b.line k s ticks, (b.heap p.1).isLive = true := by
  intro p hp
  obtain ⟨t, -, hmem, -⟩ := mem_line.mp hp
  exact hok.isLive hmem

/-- An order object after a sweep is the struck one, but for its queue position. -/
theorem Swept.sansQueue (h : Swept k b s ticks quantity run) (r : Ref) :
    (run.book.heap r).sansQueue = (b.struckAt k s ticks quantity r).sansQueue := by
  rcases h.order r with heq | ⟨position, heq⟩
  · rw [heq]
  · rw [heq, queuedBehind_sansQueue]

theorem Swept.owner (h : Swept k b s ticks quantity run) (hk : k.Sound) (r : Ref) :
    (run.book.heap r).owner = (b.heap r).owner :=
  (fields_of_sansQueue (h.sansQueue r)).2.2.1.trans (struck_owner hk _ _ r)

theorem lineSize_lineOf (heap heap' : Heap) (price : ℚ) (orders : List Ref) :
    lineSize heap' (lineOf k heap price orders) =
      totalSize heap' (orders.filter fun r => !k.skips (heap r)) := by
  rw [lineSize, lineSizes, lineOf, List.map_map]
  rfl

theorem keptSize_lineOf (heap heap' : Heap) (price : ℚ) (orders : List Ref) :
    keptSize heap' (lineOf k heap price orders) =
      ((orders.filter fun r => !k.skips (heap r)).map fun r => keptOf (heap' r)).sum := by
  rw [keptSize, lineOf, List.map_map]
  rfl

/-- The live orders of a queue are what is left of it. -/
theorem totalSize_filter_live {heap heap' : Heap} {eligible eligible' : Ref → Bool}
    (orders : List Ref) (heligible : ∀ r, eligible' r = eligible r)
    (hremaining : ∀ r, (heap' r).remainingQuantity = (heap r).remainingQuantity) :
    totalSize heap' ((orders.filter fun r => (heap r).isLive).filter eligible') =
      ((orders.filter eligible).map fun r => keptOf (heap r)).sum := by
  rw [funext heligible]
  induction orders with
  | nil => rfl
  | cons r rest ih =>
    simp only [List.filter_cons]
    cases hlive : (heap r).isLive with
    | true =>
      rw [if_pos rfl, List.filter_cons]
      cases eligible r with
      | true =>
        rw [if_pos rfl, if_pos rfl, totalSize_cons, List.map_cons, List.sum_cons, ih,
          keptOf_of_live hlive, hremaining]
      | false => exact ih
    | false =>
      have hkept : keptOf (heap r) = 0 := by simp [keptOf, hlive]
      cases eligible r with
      | true =>
        rw [if_neg (by simp), if_pos rfl, List.map_cons, List.sum_cons, hkept, zero_add]
        exact ih
      | false => exact ih

/-- Orders that rest elsewhere are as they were. -/
theorem Swept.heap_elsewhere (h : Swept k b s ticks quantity run) (hok : b.Ok) {s' : TradeSide}
    {t : ℤ} {r : Ref} (hr : r ∈ b.queue s' t) (hnot : s' = s → t ∉ ticks) :
    run.book.heap r = b.heap r := by
  refine h.elsewhere r fun t' ht' hr' => ?_
  obtain ⟨rfl, rfl⟩ := hok.queue_unique hr' hr
  exact hnot rfl ht'

/-- All queues lose the orders that are no longer live. -/
theorem Swept.queue_filter (h : Swept k b s ticks quantity run) (hok : b.Ok) (s' : TradeSide)
    (t : ℤ) : run.book.queue s' t =
      (b.queue s' t).filter fun r => (run.book.heap r).isLive := by
  by_cases hvisited : s' = s ∧ t ∈ ticks
  · obtain ⟨rfl, ht⟩ := hvisited
    rw [h.queue t ht]
    exact List.filter_congr fun r _ => (isLive_of_sansQueue (h.sansQueue r)).symm
  · have hlevel : run.book.level? s' t = b.level? s' t := by
      by_cases hs : s' = s
      · subst hs
        exact h.level t fun ht => hvisited ⟨rfl, ht⟩
      · rw [level?, level?, h.side s' hs]
    rw [queue_congr hlevel]
    refine (List.filter_eq_self.mpr fun r hr => ?_).symm
    rw [h.heap_elsewhere hok hr fun hs ht => hvisited ⟨hs, ht⟩]
    exact hok.isLive hr

/-- The index loses the ids of the market orders that are no longer live. -/
theorem Swept.index_iff (h : Swept k b s ticks quantity run) (hok : b.Ok) (id : String)
    (r : Ref) : run.book.orders.get? id = some r ↔ b.orders.get? id = some r ∧
      ∀ s' t, ∀ q ∈ b.queue s' t, (run.book.heap q).isLive = false →
        (b.heap q).owner = .market → (b.heap q).orderId ≠ id := by
  have hlive : ∀ q, (run.book.heap q).isLive = (b.struckAt k s ticks quantity q).isLive :=
    fun q => isLive_of_sansQueue (h.sansQueue q)
  rw [h.index id]
  split
  · rename_i hgone
    obtain ⟨t, -, q, hq, hdead, howner, hid⟩ := hgone
    refine iff_of_false (fun hnone => by cases hnone) fun hkept => ?_
    exact hkept.2 s t q hq ((hlive q).trans hdead) howner hid
  · rename_i hkept
    refine ⟨fun hget => ⟨hget, fun s' t q hq hdead howner hid => hkept ?_⟩, fun hget => hget.1⟩
    by_cases hvisited : s' = s ∧ t ∈ ticks
    · obtain ⟨rfl, ht⟩ := hvisited
      exact ⟨t, ht, q, hq, (hlive q).symm.trans hdead, howner, hid⟩
    · rw [h.heap_elsewhere hok hq fun hs ht => hvisited ⟨hs, ht⟩, hok.isLive hq] at hdead
      cases hdead

/-- The position of a paper order is the size in front of it. -/
theorem Ok.queueAhead_eq (hok : b.Ok) {front back : List Ref} {r : Ref} {t : ℤ}
    (hqueue : b.queue s t = front ++ r :: back) (hpaper : (b.heap r).owner = .paper) :
    (b.heap r).queueAhead = totalSize b.heap front := by
  have hr : r ∈ b.queue s t := by
    rw [hqueue]
    exact List.mem_append_right _ (List.mem_cons_self ..)
  obtain ⟨level, hlevel, -⟩ := level_of_mem_queue hr
  rw [queue_of_level hlevel] at hqueue
  exact (hok.live s t level hlevel).queue front r back hqueue hpaper

/-- A paper order behind orders that keep their size keeps its position. -/
theorem Swept.queueAhead_eq (h : Swept k b s ticks quantity run) (hk : k.Sound) (hok : b.Ok)
    (hok' : run.book.Ok) {s' : TradeSide} {t : ℤ} {front back : List Ref} {r : Ref}
    (hqueue : b.queue s' t = front ++ r :: back) (hpaper : (b.heap r).owner = .paper)
    (hsame : ∀ q ∈ front, (run.book.heap q).sansQueue = (b.heap q).sansQueue)
    (hlive : (run.book.heap r).isLive = true) :
    (run.book.heap r).queueAhead = (b.heap r).queueAhead := by
  have hfront : (front.filter fun q => (run.book.heap q).isLive) = front := by
    refine List.filter_eq_self.mpr fun q hq => ?_
    rw [isLive_of_sansQueue (hsame q hq)]
    refine hok.isLive (s := s') (t := t) ?_
    rw [hqueue]
    exact List.mem_append_left _ hq
  have hqueue' : run.book.queue s' t =
      front ++ r :: back.filter fun q => (run.book.heap q).isLive := by
    rw [h.queue_filter hok, hqueue, List.filter_append, hfront, List.filter_cons, if_pos hlive]
  rw [hok'.queueAhead_eq hqueue' ((h.owner hk r).trans hpaper), hok.queueAhead_eq hqueue hpaper]
  exact totalSize_congr fun q hq => (fields_of_sansQueue (hsame q hq)).1

/-- What a sweep leaves at a tick is what is left of its line. -/
theorem Swept.lineSize_tick (h : Swept k b s ticks quantity run) (hk : k.Sound)
    (hskips : ∀ o o', o'.owner = o.owner → k.skips o' = k.skips o) {t : ℤ} (ht : t ∈ ticks) :
    lineSize run.book.heap (run.book.line k s [t]) =
      keptSize (b.struckAt k s ticks quantity) (b.line k s [t]) := by
  rw [line_singleton, line_singleton, lineSize_lineOf, keptSize_lineOf, h.queue t ht]
  exact totalSize_filter_live _ (fun r => by rw [hskips _ _ (h.owner hk r)]) fun r =>
    (fields_of_sansQueue (h.sansQueue r)).1

/-- The ticks that a sweep does not visit keep their size. -/
theorem Swept.lineSize_elsewhere (h : Swept k b s ticks quantity run) (hok : b.Ok) {t : ℤ}
    (ht : t ∉ ticks) :
    lineSize run.book.heap (run.book.line k s [t]) = lineSize b.heap (b.line k s [t]) := by
  have hsame : ∀ r ∈ b.queue s t, run.book.heap r = b.heap r := fun r hr =>
    h.elsewhere r fun t' ht' hr' => ht ((hok.queue_unique hr' hr).2 ▸ ht')
  rw [line_singleton, line_singleton, queue_congr (h.level t ht), h.fixed.1, lineOf_congr hsame,
    lineSize, lineSize, lineSizes_congr fun p hp => hsame p.1 (mem_lineOf.mp hp).1]

theorem keptSize_line (k : Sweeper) (b : OrderBook) (s : TradeSide) (heap : Heap)
    (ticks : List ℤ) : keptSize heap (b.line k s ticks) =
      (ticks.map fun t => keptSize heap (b.line k s [t])).sum := by
  induction ticks with
  | nil => rfl
  | cons t rest ih => rw [line_cons, keptSize_append, ih, List.map_cons, List.sum_cons]

/-- Two books that differ at some ticks of a side differ in the size of that side by the sizes of
these ticks. -/
theorem Shape.depthOf_sub (h : b.Shape) {b' : OrderBook} (h' : b'.Shape) (hticks : ticks.Nodup)
    (hsub : ticks ⊆ (b.side s).ticks) (hlevel : ∀ t, t ∉ ticks → b'.level? s t = b.level? s t)
    (hsize : ∀ t, t ∉ ticks →
      lineSize b'.heap (b'.line k s [t]) = lineSize b.heap (b.line k s [t])) :
    depthOf k b s - depthOf k b' s = (ticks.map fun t =>
      lineSize b.heap (b.line k s [t]) - lineSize b'.heap (b'.line k s [t])).sum := by
  have hnodup : ∀ b : OrderBook, b.Shape → (b.side s).ticks.Nodup := fun b hb =>
    (hb.sorted s).imp fun hlt => hlt.ne
  have hempty : ∀ t, t ∉ (b'.side s).ticks → lineSize b'.heap (b'.line k s [t]) = 0 := by
    intro t ht
    have hnone : b'.level? s t = none := by
      by_contra hsome
      exact ht ((h'.keys s t).mpr (Option.ne_none_iff_exists'.mp hsome))
    rw [line_singleton, queue_of_none hnone]
    rfl
  have hticks' : (b'.side s).ticks.toFinset ⊆ (b.side s).ticks.toFinset := by
    intro t ht
    rw [List.mem_toFinset] at ht ⊢
    obtain ⟨level, hfound⟩ := (h'.keys s t).mp ht
    by_cases hmem : t ∈ ticks
    · exact hsub hmem
    · rw [hlevel t hmem] at hfound
      exact (h.keys s t).mpr ⟨level, hfound⟩
  have hafter : depthOf k b' s = ∑ t ∈ (b.side s).ticks.toFinset,
      lineSize b'.heap (b'.line k s [t]) := by
    rw [depthOf, ← List.sum_toFinset _ (hnodup b' h')]
    refine Finset.sum_subset hticks' fun t _ ht => hempty t ?_
    rwa [List.mem_toFinset] at ht
  rw [hafter, depthOf, ← List.sum_toFinset _ (hnodup b h), ← Finset.sum_sub_distrib,
    ← List.sum_toFinset _ hticks]
  refine (Finset.sum_subset_zero_on_sdiff (fun t ht => ?_) (fun t ht => ?_) fun t _ => rfl).symm
  · rw [List.mem_toFinset] at ht ⊢
    exact hsub ht
  · rw [Finset.mem_sdiff, List.mem_toFinset, List.mem_toFinset] at ht
    rw [hsize t ht.2, sub_self]

/-- A side loses what its swept ticks lose. -/
theorem Swept.depthOf_eq (h : Swept k b s ticks quantity run) (hk : k.Sound)
    (hskips : ∀ o o', o'.owner = o.owner → k.skips o' = k.skips o) (hok : b.Ok)
    (hok' : run.book.Ok) (hticks : ticks.Nodup) (hsub : ticks ⊆ (b.side s).ticks) :
    depthOf k b s - depthOf k run.book s =
      lineSize b.heap (b.line k s ticks) -
        keptSize (b.struckAt k s ticks quantity) (b.line k s ticks) := by
  rw [hok.shape.depthOf_sub hok'.shape hticks hsub h.level fun t ht =>
    h.lineSize_elsewhere hok ht, lineSize_line, keptSize_line, ← List.sum_toFinset _ hticks,
    ← List.sum_toFinset _ hticks, ← List.sum_toFinset _ hticks, ← Finset.sum_sub_distrib]
  exact Finset.sum_congr rfl fun t ht => by
    rw [h.lineSize_tick hk hskips (List.mem_toFinset.mp ht)]

end Depth

end OrderBook

end QuantumSentinel.Exchange
