import Mathlib.Tactic.Basic

/-!
# Caches with a bound

A function whose values are kept for the arguments it has been asked for.  When the cache is
full a value is computed and not kept, so the bound decides what is computed again and never
what is answered.
-/

namespace Eugraph.Lib

variable {α β : Type*} [BEq α]

abbrev BoundedCache (α β : Type*) := List (α × β)

namespace BoundedCache

/-- Every value kept is the one of its argument. -/
def Agrees (cache : BoundedCache α β) (f : α → β) : Prop :=
  ∀ k v, cache.lookup k = some v → v = f k

lemma agrees_empty (f : α → β) : Agrees ([] : BoundedCache α β) f := by
  intro k v h
  cases h

/-- The value of an argument, kept if there is room. -/
def fetch (f : α → β) (limit : Nat) (cache : BoundedCache α β) (k : α) : β × BoundedCache α β :=
  match cache.lookup k with
  | some v => (v, cache)
  | none => (f k, if cache.length < limit then (k, f k) :: cache else cache)

lemma fetch_value {f : α → β} {cache : BoundedCache α β} (h : cache.Agrees f) (limit : Nat) (k : α) :
    (fetch f limit cache k).1 = f k := by
  unfold fetch
  split
  next v hv => exact h k v hv
  next => rfl

lemma fetch_agrees [LawfulBEq α] {f : α → β} {cache : BoundedCache α β} (h : cache.Agrees f) (limit : Nat) (k : α) :
    (fetch f limit cache k).2.Agrees f := by
  unfold fetch
  split
  next => exact h
  next =>
    dsimp only
    split
    next =>
      intro k' v hv
      rw [List.lookup_cons] at hv
      split at hv
      next heq =>
        rw [← Option.some.inj hv, eq_of_beq heq]
      next => exact h k' v hv
    next => exact h

end BoundedCache

end Eugraph.Lib
