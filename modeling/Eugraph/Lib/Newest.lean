import Mathlib.Data.List.Basic

/-!
# The newest value of each key

A list that holds at most the values put last under their keys: a value takes the place of
the first one with its key, or goes to the end.  The first value found under a key is then
the newest one that was put, whatever the list held before.
-/

namespace Eugraph.Lib

open List

universe u v

variable {α : Type u} {κ : Type v} [DecidableEq κ]

def putNewest (key : α → κ) (x : α) : List α → List α
  | [] => [x]
  | y :: ys => if key y = key x then x :: ys else y :: putNewest key x ys

/-- The last of the values with a property. -/
def newest (p : α → Bool) (xs : List α) : Option α := (xs.filter p).getLast?

@[simp] lemma newest_nil (p : α → Bool) : newest p [] = none := rfl

lemma newest_append (p : α → Bool) (xs ys : List α) : newest p (xs ++ ys) = (newest p ys).or (newest p xs) := by
  rw [newest, filter_append, getLast?_append]
  rfl

lemma newest_spec {p : α → Bool} {xs : List α} {x : α} (h : newest p xs = some x) : x ∈ xs ∧ p x = true :=
  mem_filter.mp (mem_of_getLast? h)

lemma newest_eq_none {p : α → Bool} {xs : List α} (h : newest p xs = none) : ∀ x ∈ xs, p x = false := by
  intro x hx
  have hempty : xs.filter p = [] := getLast?_eq_none_iff.mp h
  simpa using filter_eq_nil_iff.mp hempty x hx

lemma find?_putNewest (key : α → κ) (x : α) (xs : List α) (k : κ) :
    (putNewest key x xs).find? (fun y => key y = k) =
      if key x = k then some x else xs.find? (fun y => key y = k) := by
  induction xs with
  | nil =>
    by_cases hx : key x = k
    · simp [putNewest, hx]
    · simp [putNewest, hx]
  | cons y ys ih =>
    by_cases hy : key y = key x
    · -- the value replaces the head
      by_cases hx : key x = k
      · simp [putNewest, hy, hx]
      · simp [putNewest, hy, hx]
    · by_cases hk : key y = k
      · have hx : ¬ key x = k := fun hx => hy (hk.trans hx.symm)
        rw [putNewest, if_neg hy, if_neg hx, find?_cons_of_pos (by simpa using hk),
          find?_cons_of_pos (by simpa using hk)]
      · rw [putNewest, if_neg hy, find?_cons_of_neg (by simpa using hk), ih,
          find?_cons_of_neg (by simpa using hk)]

end Eugraph.Lib
