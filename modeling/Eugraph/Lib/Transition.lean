import Mathlib.Tactic.Common

/-!
# Guarded runs of a transition function

A system is a partial step function on its states.  `Reaches` collects the states of
all runs whose steps meet a guard; `runGuarded` executes one such run.  An invariant
is proved once per step and then holds in every state reached.
-/

namespace Eugraph.Lib

variable {σ α : Type} (step : σ → α → Option σ) (guard : σ → α → Prop)

/-- The states reached from `s₀` by steps that meet the guard. -/
inductive Reaches (s₀ : σ) : σ → Prop
  | start : Reaches s₀ s₀
  | next {s s' : σ} {a : α} : Reaches s₀ s → guard s a → step s a = some s' → Reaches s₀ s'

/-- Execute the actions in order, while each meets the guard. -/
def runGuarded [∀ s a, Decidable (guard s a)] : σ → List α → Option σ
  | s, [] => some s
  | s, a :: rest =>
    if guard s a then
      match step s a with
      | some s' => runGuarded s' rest
      | none => none
    else none

variable {step guard} {s₀ : σ}

/-- What holds at the start and is kept by every guarded step holds in every state reached. -/
theorem Reaches.invariant {s : σ} (h : Reaches step guard s₀ s) (Inv : σ → Prop) (hstart : Inv s₀)
    (hstep : ∀ s a s', Inv s → guard s a → step s a = some s' → Inv s') : Inv s := by
  induction h with
  | start => exact hstart
  | next _ hguard hnext ih => exact hstep _ _ _ ih hguard hnext

/-- A weaker guard admits the same run. -/
theorem Reaches.mono {guard' : σ → α → Prop} {s : σ} (h : Reaches step guard s₀ s)
    (himp : ∀ s a, guard s a → guard' s a) : Reaches step guard' s₀ s := by
  induction h with
  | start => exact .start
  | next _ hguard hnext ih => exact ih.next (himp _ _ hguard) hnext

lemma Reaches.trans {s₁ s₂ : σ} (h : Reaches step guard s₀ s₁)
    (h' : Reaches step guard s₁ s₂) : Reaches step guard s₀ s₂ := by
  induction h' with
  | start => exact h
  | next _ hguard hnext ih => exact ih.next hguard hnext

lemma reaches_of_runGuarded [∀ s a, Decidable (guard s a)] {s : σ} (actions : List α)
    (h : runGuarded step guard s₀ actions = some s) : Reaches step guard s₀ s := by
  induction actions generalizing s₀ with
  | nil =>
    rw [runGuarded, Option.some.injEq] at h
    rw [h]
    exact .start
  | cons a rest ih =>
    rw [runGuarded] at h
    split at h
    · rename_i hguard
      split at h
      · rename_i s' hnext
        exact (Reaches.start.next hguard hnext).trans (ih h)
      · exact absurd h (by simp)
    · exact absurd h (by simp)

end Eugraph.Lib
