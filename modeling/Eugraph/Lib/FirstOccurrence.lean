import Mathlib.Data.List.Basic

/-!
# First occurrences under a relation

`firsts same xs` keeps the elements of `xs` that no earlier element is `same` as.  The
relation need not be an equivalence.  Two relations keep the same elements exactly when
they agree, at every element, on whether an earlier one is the same; a loop that
remembers the keys it has met computes the first occurrences of each key.
-/

namespace Eugraph.Lib

open List

variable {α β : Type*}

/-- The elements of the second list that are the same as no element before them, those of
the first list included. -/
def firstsFrom (same : α → α → Bool) : List α → List α → List α
  | _, [] => []
  | before, x :: rest =>
    if before.any (same · x) then firstsFrom same (before ++ [x]) rest
    else x :: firstsFrom same (before ++ [x]) rest

def firsts (same : α → α → Bool) (xs : List α) : List α := firstsFrom same [] xs

lemma not_mem_firstsFrom {same : α → α → Bool} {x : α} {before : List α}
    (h : before.any (same · x) = true) (xs : List α) : x ∉ firstsFrom same before xs := by
  induction xs generalizing before with
  | nil => simp [firstsFrom]
  | cons y rest ih =>
    have hnext : (before ++ [y]).any (same · x) = true := by simp [h]
    by_cases hy : before.any (same · y) = true
    · simpa [firstsFrom, hy] using ih hnext
    · have hne : x ≠ y := by
        intro heq
        exact hy (heq ▸ h)
      simpa [firstsFrom, hy, hne] using ih hnext

/-- An element one relation keeps and the other drops shows in the results: the one that
drops it drops all its later copies too. -/
theorem firstsFrom_eq_iff (s₁ s₂ : α → α → Bool) (before xs : List α) :
    firstsFrom s₁ before xs = firstsFrom s₂ before xs ↔ ∀ pre x post, xs = pre ++ x :: post →
        (before ++ pre).any (s₁ · x) = (before ++ pre).any (s₂ · x) := by
  induction xs generalizing before with
  | nil => simp [firstsFrom]
  | cons y rest ih =>
    have hshift : (∀ pre x post, y :: rest = pre ++ x :: post →
          (before ++ pre).any (s₁ · x) = (before ++ pre).any (s₂ · x)) ↔
        before.any (s₁ · y) = before.any (s₂ · y) ∧ ∀ pre x post, rest = pre ++ x :: post →
            (before ++ [y] ++ pre).any (s₁ · x) = (before ++ [y] ++ pre).any (s₂ · x) := by
      constructor
      · intro h
        refine ⟨by simpa using h [] y rest rfl, fun pre x post hrest => ?_⟩
        simpa using h (y :: pre) x post (by simp [hrest])
      · rintro ⟨hy, h⟩ pre x post heq
        cases pre with
        | nil =>
          obtain ⟨rfl, rfl⟩ := by simpa using heq
          simpa using hy
        | cons z pre =>
          obtain ⟨rfl, hrest⟩ := by simpa using heq
          simpa using h pre x post hrest
    rw [hshift, ← ih (before ++ [y])]
    have hnext (s : α → α → Bool) (h : before.any (s · y) = true) : y ∉ firstsFrom s (before ++ [y]) rest :=
      not_mem_firstsFrom (by simp [h]) rest
    cases h₁ : before.any (s₁ · y) <;> cases h₂ : before.any (s₂ · y)
    · simp [firstsFrom, h₁, h₂]
    · have hdropped := hnext s₂ h₂
      simp only [firstsFrom, h₁, h₂, Bool.false_eq_true, if_false, if_true, false_and, iff_false]
      intro heq
      exact hdropped (heq ▸ mem_cons_self)
    · have hdropped := hnext s₁ h₁
      simp only [firstsFrom, h₁, h₂, Bool.false_eq_true, if_false, if_true, Bool.true_eq_false, false_and, iff_false]
      intro heq
      exact hdropped (heq ▸ mem_cons_self)
    · simp [firstsFrom, h₁, h₂]

/-- `firsts` keeps the same elements under two relations exactly when they agree on
whether an earlier element is the same. -/
theorem firsts_eq_iff (s₁ s₂ : α → α → Bool) (xs : List α) : firsts s₁ xs = firsts s₂ xs ↔
      ∀ pre x post, xs = pre ++ x :: post → pre.any (s₁ · x) = pre.any (s₂ · x) := by
  simpa [firsts] using firstsFrom_eq_iff s₁ s₂ [] xs

lemma firstsFrom_append (same : α → α → Bool) (before xs ys : List α) : firstsFrom same before (xs ++ ys) =
      firstsFrom same before xs ++ firstsFrom same (before ++ xs) ys := by
  induction xs generalizing before with
  | nil => simp [firstsFrom]
  | cons x rest ih =>
    simp only [cons_append, firstsFrom, ih]
    split <;> simp

/-! ### A filter before and after -/

section Filter

variable (same : α → α → Bool) (p : α → Bool)

lemma any_of_any_filter {before : List α} {x : α} (h : (before.filter p).any (same · x) = true) :
    before.any (same · x) = true := by
  obtain ⟨y, hy, hsame⟩ := any_eq_true.mp h
  exact any_eq_true.mpr ⟨y, (mem_filter.mp hy).1, hsame⟩

/-- What is kept and meets the predicate is kept among those that meet it. -/
theorem filter_firstsFrom_sublist (before xs : List α) : ((firstsFrom same before xs).filter p).Sublist
      (firstsFrom same (before.filter p) (xs.filter p)) := by
  induction xs generalizing before with
  | nil => exact .slnil
  | cons x rest ih =>
    have hrest := ih (before ++ [x])
    rw [filter_append] at hrest
    by_cases hx : p x = true
    · simp only [filter_cons, hx, if_true, filter_nil] at hrest ⊢
      rw [firstsFrom, firstsFrom]
      split
      · split
        · exact hrest
        · exact hrest.cons x
      next hnew =>
        rw [if_neg fun hany => hnew (any_of_any_filter same p hany), filter_cons, if_pos hx]
        exact hrest.cons_cons x
    · simp only [filter_cons, hx, if_false, Bool.false_eq_true, filter_nil, append_nil] at hrest ⊢
      rw [firstsFrom]
      split
      · exact hrest
      · simpa only [filter_cons, hx, if_false, Bool.false_eq_true] using hrest

/-- The two orders of filter and first occurrences agree exactly when each element that meets
the predicate and repeats an earlier one repeats one that meets it. -/
theorem filter_firstsFrom_eq_iff (before xs : List α) :
    (firstsFrom same before xs).filter p = firstsFrom same (before.filter p) (xs.filter p) ↔
      ∀ pre x post, xs = pre ++ x :: post → p x = true → (before ++ pre).any (same · x) = true →
        ((before ++ pre).filter p).any (same · x) = true := by
  induction xs generalizing before with
  | nil => simp [firstsFrom]
  | cons x rest ih =>
    have hshift : (∀ pre y post, x :: rest = pre ++ y :: post → p y = true →
          (before ++ pre).any (same · y) = true → ((before ++ pre).filter p).any (same · y) = true) ↔
        (p x = true → before.any (same · x) = true → (before.filter p).any (same · x) = true) ∧
          ∀ pre y post, rest = pre ++ y :: post → p y = true → (before ++ [x] ++ pre).any (same · y) = true →
              ((before ++ [x] ++ pre).filter p).any (same · y) = true := by
      constructor
      · intro h
        refine ⟨by simpa using h [] x rest rfl, fun pre y post hrest => ?_⟩
        simpa using h (x :: pre) y post (by simp [hrest])
      · rintro ⟨hx, h⟩ pre y post heq
        cases pre with
        | nil =>
          obtain ⟨rfl, rfl⟩ := by simpa using heq
          simpa using hx
        | cons z pre =>
          obtain ⟨rfl, hrest⟩ := by simpa using heq
          simpa using h pre y post hrest
    rw [hshift, ← ih (before ++ [x])]
    by_cases hx : p x = true
    · rw [filter_cons, if_pos hx, filter_append, filter_cons, if_pos hx, filter_nil, firstsFrom, firstsFrom]
      by_cases hnew : before.any (same · x) = true
      · rw [if_pos hnew]
        by_cases hkept : (before.filter p).any (same · x) = true
        · simp [hkept, hnew, hx]
        · -- the second order keeps an element more
          rw [if_neg hkept]
          have hle := (filter_firstsFrom_sublist same p (before ++ [x]) rest).length_le
          rw [filter_append, filter_cons, if_pos hx, filter_nil] at hle
          constructor
          · intro heq
            have hlength := congrArg List.length heq
            rw [length_cons] at hlength
            omega
          · intro h
            exact absurd (h.1 hx hnew) hkept
      · rw [if_neg hnew, if_neg fun hany => hnew (any_of_any_filter same p hany), filter_cons,
          if_pos hx, List.cons.injEq]
        simp [hnew]
    · have hdropped : (firstsFrom same before (x :: rest)).filter p =
          (firstsFrom same (before ++ [x]) rest).filter p := by
        rw [firstsFrom]
        split
        · rfl
        · rw [filter_cons, if_neg hx]
      rw [hdropped, filter_cons, if_neg hx, filter_append, filter_cons, if_neg hx, filter_nil, append_nil]
      simp [hx]

lemma filter_firsts_perm_iff (xs : List α) : ((firsts same xs).filter p).Perm (firsts same (xs.filter p)) ↔
      ∀ pre x post, xs = pre ++ x :: post → p x = true → pre.any (same · x) = true →
        (pre.filter p).any (same · x) = true := by
  have hiff := filter_firstsFrom_eq_iff same p [] xs
  simp only [nil_append, filter_nil] at hiff
  rw [← hiff]
  constructor
  · intro h
    exact (filter_firstsFrom_sublist same p [] xs).eq_of_length h.length_eq
  · intro h
    exact List.Perm.of_eq h

end Filter

/-! ### First occurrences of equal elements -/

section Equal

variable [DecidableEq α]

lemma mem_firstsFrom_eq_iff (before xs : List α) (x : α) :
    x ∈ firstsFrom (fun a b => decide (a = b)) before xs ↔ x ∈ xs ∧ x ∉ before := by
  induction xs generalizing before with
  | nil => simp [firstsFrom]
  | cons y rest ih =>
    by_cases hy : y ∈ before
    · rw [firstsFrom, if_pos (by simpa using hy), ih]
      by_cases hx : x = y
      · simp [hx, hy]
      · simp [hx]
    · rw [firstsFrom, if_neg (by simpa using hy), mem_cons, ih]
      by_cases hx : x = y
      · simp [hx, hy]
      · simp [hx]

lemma mem_firsts_eq_iff (xs : List α) (x : α) : x ∈ firsts (fun a b => decide (a = b)) xs ↔ x ∈ xs := by
  simp [firsts, mem_firstsFrom_eq_iff]

lemma nodup_firstsFrom_eq (before xs : List α) : (firstsFrom (fun a b => decide (a = b)) before xs).Nodup := by
  induction xs generalizing before with
  | nil => exact nodup_nil
  | cons y rest ih =>
    rw [firstsFrom]
    split
    · exact ih _
    · refine nodup_cons.mpr ⟨?_, ih _⟩
      rw [mem_firstsFrom_eq_iff]
      simp

lemma nodup_firsts_eq (xs : List α) : (firsts (fun a b => decide (a = b)) xs).Nodup := nodup_firstsFrom_eq [] xs

end Equal

/-! ### First occurrences of each key -/

section Key

variable {κ : Type*} [DecidableEq κ] (key : α → κ)

lemma map_firstsFrom_key (before xs : List α) :
    (firstsFrom (fun a b => decide (key a = key b)) before xs).map key =
      firstsFrom (fun k l => decide (k = l)) (before.map key) (xs.map key) := by
  induction xs generalizing before with
  | nil => rfl
  | cons x rest ih =>
    have hmet : (before.map key).any (fun k => decide (k = key x)) = before.any fun a => decide (key a = key x) := by
      rw [any_map]
      rfl
    have hnext := ih (before ++ [x])
    rw [map_append, map_singleton] at hnext
    rw [map_cons, firstsFrom, firstsFrom, hmet, ← hnext]
    split
    · rfl
    · rfl

lemma firstsFrom_sublist (same : α → α → Bool) (before xs : List α) : (firstsFrom same before xs).Sublist xs := by
  induction xs generalizing before with
  | nil => exact .slnil
  | cons x rest ih =>
    rw [firstsFrom]
    split
    · exact (ih _).cons x
    · exact (ih _).cons_cons x

lemma nodup_firstsFrom_key (before xs : List α) :
    ((firstsFrom (fun a b => decide (key a = key b)) before xs).map key).Nodup := by
  rw [map_firstsFrom_key]
  exact nodup_firstsFrom_eq _ _

/-- The keys kept are those not met before. -/
theorem mem_keys_firstsFrom (before xs : List α) (k : κ) :
    k ∈ (firstsFrom (fun a b => decide (key a = key b)) before xs).map key ↔ k ∈ xs.map key ∧
      k ∉ before.map key := by
  rw [map_firstsFrom_key, mem_firstsFrom_eq_iff]

end Key

/-- The first occurrences in a list made of parts, part by part. -/
theorem firsts_flatMap_range (same : α → α → Bool) (f : ℕ → List α) (n : ℕ) :
    firsts same ((List.range n).flatMap f) =
      (List.range n).flatMap fun i => firstsFrom same ((List.range i).flatMap f) (f i) := by
  induction n with
  | zero => rfl
  | succ n ih =>
    rw [range_succ, flatMap_append, flatMap_append, ← ih, flatMap_singleton,
      flatMap_singleton, firsts, firstsFrom_append, nil_append]
    rfl

end Eugraph.Lib
