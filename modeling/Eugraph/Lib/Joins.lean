import Mathlib.Data.Multiset.Bind
import Mathlib.Data.List.Perm.Basic

/-!
# Joins of lists

A join pairs the elements of two lists.  Which list is walked in the outer loop does not
matter for what is paired, a list can be read part by part, and a join that yields less at
every element than another of the same length yields the same everywhere.  Where no key
occurs twice, a pair is found as often as its element yields it.
-/

namespace Eugraph.Lib.Joins

open List

variable {α β γ : Type*}

/-- The loops of a join can be exchanged. -/
theorem flatMap_swap (xs : List α) (ys : List β) (f : α → β → List γ) :
    (xs.flatMap fun x => ys.flatMap (f x)).Perm (ys.flatMap fun y => xs.flatMap fun x => f x y) := by
  rw [← Multiset.coe_eq_coe]
  have hbind := Multiset.bind_bind (α := α) (xs : Multiset α) (ys : Multiset β)
    (f := fun x y => (f x y : Multiset γ))
  simpa only [Multiset.coe_bind] using hbind

lemma filter_map_eq_flatMap (p : α → Bool) (f : α → β) (xs : List α) :
    (xs.filter p).map f = xs.flatMap fun x => if p x then [f x] else [] := by
  induction xs with
  | nil => rfl
  | cons x rest ih =>
    rw [filter_cons, flatMap_cons, ← ih]
    split
    · rfl
    · rfl

/-- The pairs in a relation, walked from either side. -/
theorem filter_swap (r : α → β → Bool) (f : α → β → γ) (xs : List α) (ys : List β) :
    (xs.flatMap fun x => (ys.filter (r x)).map (f x)).Perm
      (ys.flatMap fun y => (xs.filter (r · y)).map (f · y)) := by
  have hleft (x : α) := filter_map_eq_flatMap (r x) (f x) ys
  have hright (y : β) := filter_map_eq_flatMap (r · y) (f · y) xs
  simp only [hleft, hright]
  exact flatMap_swap xs ys fun x y => if r x y then [f x y] else []

/-- All pairs, walked from either side. -/
theorem map_swap (f : α → β → γ) (xs : List α) (ys : List β) :
    (xs.flatMap fun x => ys.map (f x)).Perm (ys.flatMap fun y => xs.map (f · y)) := by
  simpa using filter_swap (fun _ _ => true) f xs ys

/-- Elements that yield nothing can be left out. -/
theorem flatMap_filter_of_nil {p : α → Bool} {f : α → List β} {xs : List α}
    (hnil : ∀ x ∈ xs, p x = false → f x = []) : (xs.filter p).flatMap f = xs.flatMap f := by
  induction xs with
  | nil => rfl
  | cons x rest ih =>
    have hrest := ih fun y hy => hnil y (mem_cons_of_mem _ hy)
    cases hp : p x with
    | true => rw [filter_cons_of_pos hp, flatMap_cons, flatMap_cons, hrest]
    | false =>
      rw [filter_cons_of_neg (by simp [hp]), flatMap_cons, hrest,
        hnil x mem_cons_self hp, nil_append]

/-- A list read in the parts that share a key. -/
theorem flatMap_filter_key [DecidableEq β] (key : α → β) {keys : List β} (hkeys : keys.Nodup) (xs : List α) :
    (keys.flatMap fun k => xs.filter (key · = k)).Perm (xs.filter fun x => keys.contains (key x)) := by
  induction keys with
  | nil => simp
  | cons k rest ih =>
    obtain ⟨hnew, hrest⟩ := nodup_cons.mp hkeys
    rw [flatMap_cons]
    refine ((ih hrest).append_left _).trans ?_
    have hfirst : xs.filter (key · = k) = (xs.filter fun x => (k :: rest).contains (key x)).filter (key · = k) := by
      rw [filter_filter]
      apply filter_congr
      intro x _
      by_cases hx : key x = k
      · simp [hx]
      · simp [hx]
    have hothers : (xs.filter fun x => rest.contains (key x)) =
        (xs.filter fun x => (k :: rest).contains (key x)).filter fun x => !decide (key x = k) := by
      rw [filter_filter]
      apply filter_congr
      intro x _
      by_cases hx : key x = k
      · simp [hx, hnew]
      · simp [hx]
    rw [hfirst, hothers]
    exact filter_append_perm _ _

/-- All parts together. -/
theorem flatMap_filter_key_of_mem [DecidableEq β] (key : α → β) {keys : List β}
    (hkeys : keys.Nodup) {xs : List α} (hmem : ∀ x ∈ xs, key x ∈ keys) :
    (keys.flatMap fun k => xs.filter (key · = k)).Perm xs := by
  refine (flatMap_filter_key key hkeys xs).trans (List.Perm.of_eq (filter_eq_self.mpr ?_))
  intro x hx
  simpa using hmem x hx

/-- Each element with what a part of them yields besides. -/
theorem map_append_filter_map (p : α → Bool) (f h : α → β) (xs : List α) :
    (xs.map f ++ (xs.filter p).map h).Perm (xs.flatMap fun x => f x :: if p x then [h x] else []) := by
  rw [filter_map_eq_flatMap]
  have hmap : xs.map f = xs.flatMap fun x => [f x] := map_eq_flatMap
  rw [hmap]
  exact flatMap_append_perm xs (fun x => [f x]) fun x => if p x then [h x] else []

lemma length_flatMap_le {f g : α → List β} {xs : List α} (hle : ∀ x ∈ xs, (f x).length ≤ (g x).length) :
    (xs.flatMap f).length ≤ (xs.flatMap g).length := by
  induction xs with
  | nil => exact Nat.le_refl _
  | cons x rest ih =>
    simp only [flatMap_cons, length_append]
    exact Nat.add_le_add (hle x mem_cons_self) (ih fun y hy => hle y (mem_cons_of_mem _ hy))

/-- Nothing is missing in total, so nothing is missing anywhere. -/
theorem length_eq_of_flatMap {f g : α → List β} {xs : List α} (hle : ∀ x ∈ xs, (f x).length ≤ (g x).length)
    (htotal : (xs.flatMap f).length = (xs.flatMap g).length) :
    ∀ x ∈ xs, (f x).length = (g x).length := by
  induction xs with
  | nil => simp
  | cons y rest ih =>
    have hrest := length_flatMap_le (f := f) (g := g) fun x hx => hle x (mem_cons_of_mem y hx)
    have hy := hle y mem_cons_self
    simp only [flatMap_cons, length_append] at htotal
    intro x hx
    rcases mem_cons.mp hx with rfl | hx
    · omega
    · exact ih (fun z hz => hle z (mem_cons_of_mem _ hz)) (by omega) x hx

/-- Two joins over the same list, the first of which repeats nothing within an element.  Where
what the second yields anywhere under the same result it also yields here, the results agree
only if the joins do at every element. -/
theorem map_flatMap_perm_iff {E R : α → List β} {f : α → β → γ} {xs : List α} (hnodup : ∀ x ∈ xs, (E x).Nodup)
    (hshown : ∀ x ∈ xs, ∀ b ∈ E x, ∀ y ∈ xs, ∀ c ∈ R y, f x b = f y c → b ∈ R x) :
    (xs.flatMap fun x => (E x).map (f x)).Perm (xs.flatMap fun x => (R x).map (f x)) ↔
      ∀ x ∈ xs, (E x).Perm (R x) := by
  constructor
  · intro hperm
    have hsubset : ∀ x ∈ xs, E x ⊆ R x := by
      intro x hx b hb
      have hmem : f x b ∈ xs.flatMap fun y => (R y).map (f y) :=
        hperm.mem_iff.mp (mem_flatMap.mpr ⟨x, hx, mem_map_of_mem hb⟩)
      obtain ⟨y, hy, hshow⟩ := mem_flatMap.mp hmem
      obtain ⟨c, hc, heq⟩ := mem_map.mp hshow
      exact hshown x hx b hb y hy c hc heq.symm
    have hsub : ∀ x ∈ xs, (E x).Subperm (R x) := fun x hx =>
      subperm_of_subset (hnodup x hx) (hsubset x hx)
    -- nothing is lost in total, so nothing is lost at any element
    have htotal : (xs.flatMap E).length = (xs.flatMap R).length := by
      simpa [length_flatMap] using hperm.length_eq
    have hlength := length_eq_of_flatMap (fun x hx => (hsub x hx).length_le) htotal
    exact fun x hx => (hsub x hx).perm_of_length_le (hlength x hx).ge
  · intro heach
    exact List.Perm.flatMap_left _ fun x hx => (heach x hx).map (f x)

section Counting

variable {κ : Type*} [DecidableEq κ] [DecidableEq γ] {key : α → κ} {W : α → List β} {f : α → β → γ}
  {xs : List α}

lemma count_keyed_of_not_mem {k : κ} (h : k ∉ xs.map key) (c : γ) :
    (xs.flatMap fun x => (W x).map fun w => (key x, f x w)).count (k, c) = 0 := by
  rw [count_eq_zero]
  intro hmem
  obtain ⟨x, hx, hpair⟩ := mem_flatMap.mp hmem
  obtain ⟨w, -, heq⟩ := mem_map.mp hpair
  exact h (mem_map.mpr ⟨x, hx, (Prod.mk.inj heq).1⟩)

lemma count_keyed (hkeys : (xs.map key).Nodup) {x : α} (hx : x ∈ xs) (c : γ) :
    (xs.flatMap fun x => (W x).map fun w => (key x, f x w)).count (key x, c) = (W x).countP fun w => f x w = c := by
  induction xs with
  | nil => cases hx
  | cons y rest ih =>
    rw [map_cons, nodup_cons] at hkeys
    rw [flatMap_cons, count_append]
    rcases mem_cons.mp hx with rfl | hrest
    · rw [count_keyed_of_not_mem hkeys.1, Nat.add_zero, count_eq_countP, countP_map]
      exact countP_congr fun w _ => by simp
    · have hne : key y ≠ key x := fun heq => hkeys.1 (heq ▸ mem_map_of_mem hrest)
      have hnone : ((W y).map fun w => (key y, f y w)).count (key x, c) = 0 := by
        rw [count_eq_zero]
        intro hmem
        obtain ⟨w, -, heq⟩ := mem_map.mp hmem
        exact hne (Prod.mk.inj heq).1
      rw [hnone, Nat.zero_add, ih hkeys.2 hrest]

end Counting

end Eugraph.Lib.Joins
