import Mathlib.Data.List.Basic

/-!
# Prefix-free encodings

An encoding is prefix free when the front of a longer text tells the encoded value and where
it ends.  Concatenations of such encodings can be taken apart again, which is what makes a
hash over them name its content.

Main results:

- Theorem `PrefixFree.of_length`: an injective encoding of fixed width is prefix free.
- Theorem `PrefixFree.flatMap`: lists of equal length, one encoding after another.
- Theorem `eq_of_flatten_eq`: texts of pieces, one of them never the longer one.
- Theorem `cut_at_pair`: texts closed by a doubled symbol that they do not contain.
-/

namespace QuantumSentinel.Lib

universe u v w

variable {α : Type u} {β : Type v} {γ : Type w}

/-- From an admitted encoding and what follows it, both can be told. -/
def PrefixFree (admits : α → Prop) (encode : α → List β) : Prop :=
  ∀ ⦃a b : α⦄ ⦃x y : List β⦄, admits a → admits b → encode a ++ x = encode b ++ y →
    a = b ∧ x = y

namespace PrefixFree

variable {admits : α → Prop} {encode : α → List β}

/-- Fewer values are encoded. -/
theorem mono {admits' : α → Prop} (h : PrefixFree admits encode)
    (hle : ∀ a, admits' a → admits a) : PrefixFree admits' encode :=
  fun _ _ _ _ ha hb heq => h (hle _ ha) (hle _ hb) heq

/-- An injective encoding of fixed width. -/
theorem of_length (width : ℕ) (hwidth : ∀ a, admits a → (encode a).length = width)
    (hinj : ∀ a b, admits a → admits b → encode a = encode b → a = b) :
    PrefixFree admits encode := by
  intro a b x y ha hb heq
  have hlength : (encode a).length = (encode b).length := (hwidth a ha).trans (hwidth b hb).symm
  rcases List.append_inj heq hlength with ⟨hsame, hrest⟩
  exact ⟨hinj a b ha hb hsame, hrest⟩

/-- Lists of equal length, one encoding after another. -/
theorem flatMap (h : PrefixFree admits encode) {as bs : List α} {x y : List β}
    (has : ∀ a ∈ as, admits a) (hbs : ∀ b ∈ bs, admits b) (hlength : as.length = bs.length)
    (heq : as.flatMap encode ++ x = bs.flatMap encode ++ y) : as = bs ∧ x = y := by
  induction as generalizing bs with
  | nil =>
    cases bs with
    | nil => exact ⟨rfl, heq⟩
    | cons b bs => cases hlength
  | cons a as ih =>
    cases bs with
    | nil => cases hlength
    | cons b bs =>
      simp only [List.flatMap_cons, List.append_assoc] at heq
      rcases h (has a (List.mem_cons_self ..)) (hbs b (List.mem_cons_self ..)) heq with
        ⟨rfl, hrest⟩
      rcases ih (fun c hc => has c (List.mem_cons_of_mem a hc))
        (fun c hc => hbs c (List.mem_cons_of_mem a hc)) (Nat.succ.inj hlength) hrest with
        ⟨rfl, hend⟩
      exact ⟨rfl, hend⟩

end PrefixFree

/-- Pieces that are no longer than others and make up the same text are the others. -/
theorem eq_of_flatten_eq {as bs : List (List β)}
    (h : List.Forall₂ (fun a b => b.length ≤ a.length) as bs) (heq : as.flatten = bs.flatten) :
    as = bs := by
  have hle : ∀ {cs ds : List (List β)}, List.Forall₂ (fun a b => b.length ≤ a.length) cs ds →
      ds.flatten.length ≤ cs.flatten.length := by
    intro cs ds hlengths
    induction hlengths with
    | nil => exact Nat.le_refl _
    | cons hfirst _ ih =>
      rw [List.flatten_cons, List.flatten_cons, List.length_append, List.length_append]
      omega
  induction h with
  | nil => rfl
  | @cons a b as bs hfirst hrest ih =>
    have htail := hle hrest
    have htotal := congrArg List.length heq
    rw [List.flatten_cons, List.flatten_cons] at heq
    rw [List.flatten_cons, List.flatten_cons, List.length_append, List.length_append] at htotal
    rcases List.append_inj heq (by omega) with ⟨rfl, hend⟩
    rw [ih hend]

/-- Two words of symbols of one kind, each followed by a symbol of another kind or by
nothing. -/
theorem word_inj {p : β → Bool} {as bs x y : List β} (has : ∀ c ∈ as, p c = true)
    (hbs : ∀ c ∈ bs, p c = true) (hx : ∀ c ∈ x.head?, p c = false)
    (hy : ∀ c ∈ y.head?, p c = false) (heq : as ++ x = bs ++ y) : as = bs ∧ x = y := by
  have hword : ∀ {cs z : List β}, (∀ c ∈ cs, p c = true) → (∀ c ∈ z.head?, p c = false) →
      (cs ++ z).takeWhile p = cs := by
    intro cs z hcs hz
    rw [List.takeWhile_append_of_pos hcs]
    cases z with
    | nil => rw [List.takeWhile_nil, List.append_nil]
    | cons c z =>
      have hc : p c = false := hz c rfl
      rw [List.takeWhile_cons_of_neg (by rw [hc]; exact Bool.false_ne_true), List.append_nil]
  have hsame : as = bs := by
    rw [← hword has hx, heq, hword hbs hy]
  subst hsame
  exact ⟨rfl, List.append_cancel_left heq⟩

/-- Texts without a doubled symbol, each followed by that symbol twice and then by something
else. -/
theorem cut_at_pair {c : β} {as bs x y : List β} (has : ¬ [c, c] <:+: as)
    (hbs : ¬ [c, c] <:+: bs) (hx : x.head? ≠ some c) (hy : y.head? ≠ some c)
    (heq : as ++ c :: c :: x = bs ++ c :: c :: y) : as = bs ∧ x = y := by
  induction as generalizing bs with
  | nil =>
    cases bs with
    | nil => simpa using heq
    | cons b rest =>
      cases rest with
      | nil =>
        simp only [List.nil_append, List.cons_append, List.cons.injEq] at heq
        rw [heq.2.2] at hx
        exact absurd rfl hx
      | cons b' rest =>
        simp only [List.nil_append, List.cons_append, List.cons.injEq] at heq
        rw [← heq.1, ← heq.2.1] at hbs
        exact absurd ⟨[], rest, rfl⟩ hbs
  | cons a as ih =>
    cases bs with
    | nil =>
      cases as with
      | nil =>
        simp only [List.nil_append, List.cons_append, List.cons.injEq] at heq
        rw [← heq.2.2] at hy
        exact absurd rfl hy
      | cons a' rest =>
        simp only [List.nil_append, List.cons_append, List.cons.injEq] at heq
        rw [heq.1, heq.2.1] at has
        exact absurd ⟨[], rest, rfl⟩ has
    | cons b bs =>
      simp only [List.cons_append, List.cons.injEq] at heq
      rcases heq with ⟨rfl, hrest⟩
      have htail : ∀ {l : List β}, ¬ [c, c] <:+: a :: l → ¬ [c, c] <:+: l :=
        fun h hl => h (hl.trans (List.suffix_cons ..).isInfix)
      rcases ih (htail has) (htail hbs) hrest with ⟨rfl, hend⟩
      exact ⟨rfl, hend⟩

end QuantumSentinel.Lib
