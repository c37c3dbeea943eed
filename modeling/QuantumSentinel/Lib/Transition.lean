import Mathlib.Data.List.Basic
import Mathlib.Order.Basic

/-!
# Guarded transition systems

A guarded system is given by an executable partial step: `step s a` is the next
state when action `a` is enabled in `s`, and `none` when it is not.  This module
fixes what a run and a reachable state are, and packages the two inductions every
safety result uses.

Main results:

- Theorem `Reachable.invariant`: what holds initially and is preserved by
  every step holds in every reachable state.
- Theorem `Run.invariant`: the same along one run, from any state.
- Theorem `Reachable.run`: a run from a reachable state ends in one.
- Theorem `ReachableUnder.reachable`: a run that respects a stronger guard is a run of
  the unrestricted system.
- Theorem `Path.invariant`: the invariant rule for a labelled relation.
-/

namespace QuantumSentinel.Lib

universe u v

/-- A guarded system: an initial state and an executable partial step. -/
structure Machine (σ : Type u) (α : Type v) where
  init : σ
  step : σ → α → Option σ

namespace Machine

variable {σ : Type u} {α : Type v} {M : Machine σ α}

/-- `M.Run G s as s'`: the actions `as` lead from `s` to `s'`, each of them
satisfying the condition `G` in the state where it is taken. -/
inductive Run (M : Machine σ α) (G : σ → α → Prop) : σ → List α → σ → Prop
  | nil (s : σ) : Run M G s [] s
  | cons {s s₁ s' : σ} {a : α} {as : List α} (guard : G s a)
      (step : M.step s a = some s₁) (rest : Run M G s₁ as s') :
      Run M G s (a :: as) s'

/-- States some run from the initial state ends in, when every action satisfies `G`. -/
def ReachableUnder (M : Machine σ α) (G : σ → α → Prop) (s : σ) : Prop :=
  ∃ as, M.Run G M.init as s

/-- The condition every action satisfies. -/
def anyAction : σ → α → Prop := fun _ _ => True

/-- States some run from the initial state ends in. -/
abbrev Reachable (M : Machine σ α) (s : σ) : Prop :=
  M.ReachableUnder anyAction s

/-- Execute a list of actions, failing when one of them is not enabled. -/
def exec (M : Machine σ α) : σ → List α → Option σ
  | s, [] => some s
  | s, a :: as => (M.step s a).bind fun s' => M.exec s' as

@[simp]
theorem exec_nil (s : σ) : M.exec s [] = some s :=
  rfl

@[simp]
theorem exec_cons (s : σ) (a : α) (as : List α) :
    M.exec s (a :: as) = (M.step s a).bind fun s' => M.exec s' as :=
  rfl

/-- Execute a list of actions, failing also when one of them violates the condition. -/
def execUnder (M : Machine σ α) (G : σ → α → Prop) [∀ s a, Decidable (G s a)] :
    σ → List α → Option σ
  | s, [] => some s
  | s, a :: as =>
    if G s a then (M.step s a).bind fun s' => M.execUnder G s' as else none

/-- A conditioned execution that succeeds is a run under its condition. -/
theorem run_of_execUnder {G : σ → α → Prop} [∀ s a, Decidable (G s a)] {s s' : σ}
    {as : List α} (h : M.execUnder G s as = some s') : M.Run G s as s' := by
  induction as generalizing s with
  | nil =>
    cases h
    exact Run.nil _
  | cons a as ih =>
    simp only [execUnder] at h
    split at h
    · rename_i guard
      rcases Option.bind_eq_some_iff.mp h with ⟨s₁, hstep, hrest⟩
      exact Run.cons guard hstep (ih hrest)
    · cases h

/-- Whatever a conditioned execution from the initial state ends in is reachable under
the condition. -/
theorem reachableUnder_of_execUnder {G : σ → α → Prop} [∀ s a, Decidable (G s a)] {s : σ}
    {as : List α} (h : M.execUnder G M.init as = some s) : M.ReachableUnder G s :=
  ⟨as, run_of_execUnder h⟩

/-- An execution whose actions satisfy the condition in every state is a run under it. -/
theorem run_of_exec_all {G : σ → α → Prop} {s s' : σ} {as : List α}
    (h : M.exec s as = some s') (hG : ∀ a ∈ as, ∀ t, G t a) : M.Run G s as s' := by
  induction as generalizing s with
  | nil =>
    cases h
    exact Run.nil _
  | cons a as ih =>
    rcases Option.bind_eq_some_iff.mp h with ⟨s₁, hstep, hrest⟩
    have hrun := ih hrest fun b hb t => hG b (List.mem_cons_of_mem a hb) t
    exact Run.cons (hG a (List.mem_cons_self ..) s) hstep hrun

/-- An execution that succeeds is a run without conditions. -/
theorem run_of_exec {s s' : σ} {as : List α} (h : M.exec s as = some s') :
    M.Run anyAction s as s' :=
  run_of_exec_all h fun _ _ _ => trivial

/-- Whatever an execution from the initial state ends in is reachable. -/
theorem reachable_of_exec {s : σ} {as : List α} (h : M.exec M.init as = some s) :
    M.Reachable s :=
  ⟨as, run_of_exec h⟩

namespace Run

variable {G : σ → α → Prop}

/-- Runs compose. -/
theorem append {s s₁ s' : σ} {as bs : List α} (h₁ : M.Run G s as s₁)
    (h₂ : M.Run G s₁ bs s') : M.Run G s (as ++ bs) s' := by
  induction h₁ with
  | nil => exact h₂
  | cons guard step _ ih => exact Run.cons guard step (ih h₂)

/-- Weakening the condition keeps a run a run. -/
theorem mono {G' : σ → α → Prop} (hG : ∀ s a, G s a → G' s a) {s s' : σ}
    {as : List α} (h : M.Run G s as s') : M.Run G' s as s' := by
  induction h with
  | nil => exact Run.nil _
  | cons guard step _ ih => exact Run.cons (hG _ _ guard) step ih

/-- What every conditioned step preserves holds along the whole run. -/
theorem invariant {I : σ → Prop}
    (hstep : ∀ s a s', G s a → M.step s a = some s' → I s → I s')
    {s s' : σ} {as : List α} (h : M.Run G s as s') (hs : I s) : I s' := by
  induction h with
  | nil => exact hs
  | cons guard step _ ih => exact ih (hstep _ _ _ guard step hs)

end Run

variable {G : σ → α → Prop}

/-- The initial state is reachable. -/
theorem ReachableUnder.init (M : Machine σ α) (G : σ → α → Prop) :
    M.ReachableUnder G M.init :=
  ⟨[], Run.nil _⟩

/-- A run from a reachable state ends in a reachable state. -/
theorem ReachableUnder.run {s s' : σ} {as : List α} (hs : M.ReachableUnder G s)
    (h : M.Run G s as s') : M.ReachableUnder G s' := by
  obtain ⟨bs, hbs⟩ := hs
  exact ⟨bs ++ as, hbs.append h⟩

/-- One more conditioned step from a reachable state. -/
theorem ReachableUnder.step {s s' : σ} {a : α} (hs : M.ReachableUnder G s)
    (guard : G s a) (h : M.step s a = some s') : M.ReachableUnder G s' :=
  hs.run (Run.cons guard h (Run.nil _))

/-- What is reachable under a condition is reachable without it. -/
theorem ReachableUnder.reachable {s : σ} (hs : M.ReachableUnder G s) :
    M.Reachable s := by
  obtain ⟨as, has⟩ := hs
  exact ⟨as, has.mono fun _ _ _ => trivial⟩

/-- The invariant rule for conditioned runs. -/
theorem ReachableUnder.invariant {I : σ → Prop} (hinit : I M.init)
    (hstep : ∀ s a s', G s a → M.step s a = some s' → I s → I s')
    {s : σ} (hs : M.ReachableUnder G s) : I s := by
  obtain ⟨as, has⟩ := hs
  exact has.invariant hstep hinit

/-- The invariant rule for all runs. -/
theorem Reachable.invariant {I : σ → Prop} (hinit : I M.init)
    (hstep : ∀ s a s', M.step s a = some s' → I s → I s')
    {s : σ} (hs : M.Reachable s) : I s :=
  ReachableUnder.invariant hinit (fun s a s' _ => hstep s a s') hs

end Machine

/-! ## Labelled relations -/

/-- `Path R s as s'`: steps of a labelled relation lead from `s` to `s'`, with the labels
`as`. -/
inductive Path {σ : Type u} {α : Type v} (R : σ → α → σ → Prop) : σ → List α → σ → Prop
  | nil (s : σ) : Path R s [] s
  | cons {s s₁ s' : σ} {a : α} {as : List α} (step : R s a s₁) (rest : Path R s₁ as s') :
      Path R s (a :: as) s'

namespace Path

variable {σ : Type u} {α : Type v} {R : σ → α → σ → Prop}

theorem single {s s' : σ} {a : α} (h : R s a s') : Path R s [a] s' :=
  cons h (nil s')

/-- Paths compose. -/
theorem append {s s₁ s' : σ} {as bs : List α} (h₁ : Path R s as s₁) (h₂ : Path R s₁ bs s') :
    Path R s (as ++ bs) s' := by
  induction h₁ with
  | nil => exact h₂
  | cons step _ ih => exact cons step (ih h₂)

/-- Steps of one relation that are steps of another make its paths. -/
theorem mono {R' : σ → α → σ → Prop} (hstep : ∀ s a s', R s a s' → R' s a s') {s s' : σ}
    {as : List α} (h : Path R s as s') : Path R' s as s' := by
  induction h with
  | nil => exact nil _
  | cons step _ ih => exact cons (hstep _ _ _ step) ih

/-- What every step with an admitted label preserves holds along the whole path. -/
theorem invariant {I : σ → Prop} {G : α → Prop}
    (hstep : ∀ s a s', G a → R s a s' → I s → I s')
    {s s' : σ} {as : List α} (h : Path R s as s') (hG : ∀ a ∈ as, G a) (hs : I s) : I s' := by
  induction h with
  | nil => exact hs
  | cons step _ ih =>
    refine ih (fun a ha => hG a (List.mem_cons_of_mem _ ha)) ?_
    exact hstep _ _ _ (hG _ (List.mem_cons_self ..)) step hs

end Path

end QuantumSentinel.Lib
