import Mathlib.Data.List.Basic
import Mathlib.Data.List.Perm.Basic
import Mathlib.Data.List.Flatten

/-!
# Operators that extend rows

An operator that works row by row hands each row on with each of its extensions behind it.  A
predicate that looks at the row only may be applied before or after.
-/

namespace Eugraph.Lib

open List

variable {α : Type*}

/-- Each row with each of its extensions behind it. -/
def extendRows (extensions : List α → List (List α)) (rows : List (List α)) : List (List α) :=
  rows.flatMap fun row => (extensions row).map (row ++ ·)

section Extend

variable {extensions : List α → List (List α)} {rows : List (List α)}

lemma mem_extendRows {out : List α} :
    out ∈ extendRows extensions rows ↔ ∃ row ∈ rows, ∃ ext ∈ extensions row, out = row ++ ext := by
  unfold extendRows
  rw [mem_flatMap]
  constructor
  · rintro ⟨row, hrow, hout⟩
    obtain ⟨ext, hext, rfl⟩ := mem_map.mp hout
    exact ⟨row, hrow, ext, hext, rfl⟩
  · rintro ⟨row, hrow, ext, hext, rfl⟩
    exact ⟨row, hrow, mem_map.mpr ⟨ext, hext, rfl⟩⟩

/-- A predicate that the extension does not change may be applied first. -/
theorem filter_extendRows {p q : List α → Bool} (h : ∀ row ∈ rows, ∀ ext ∈ extensions row, p (row ++ ext) = q row) :
    (extendRows extensions rows).filter p = extendRows extensions (rows.filter q) := by
  induction rows with
  | nil => rfl
  | cons row rest ih =>
    have hrest := ih fun r hr => h r (mem_cons_of_mem _ hr)
    have hrow := h row mem_cons_self
    unfold extendRows at hrest ⊢
    rw [flatMap_cons, filter_append, hrest, filter_cons]
    cases hq : q row with
    | true =>
      rw [if_pos rfl, flatMap_cons, filter_eq_self.mpr]
      intro out hout
      obtain ⟨ext, hext, rfl⟩ := mem_map.mp hout
      rw [hrow ext hext, hq]
    | false =>
      rw [if_neg Bool.false_ne_true, filter_eq_nil_iff.mpr, nil_append]
      intro out hout
      obtain ⟨ext, hext, rfl⟩ := mem_map.mp hout
      simp [hrow ext hext, hq]

end Extend

end Eugraph.Lib
