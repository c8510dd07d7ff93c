import Mathlib.Data.List.Basic
import Mathlib.Data.List.Perm.Basic
import Mathlib.Tactic.Common

/-!
# Sorting by a strict weak order and its first elements

What `std::sort` and `std::partial_sort` promise: a comparison that is a strict weak order
on the elements, a permutation with no element sorting before its predecessors, and the
first `k` of it.  The order of equivalent elements is open.
-/

namespace Eugraph.Lib.SortedTop

open List

variable {α : Type*}

/-- The comparison orders the elements of a list, up to ties. -/
structure StrictWeakOn (less : α → α → Bool) (xs : List α) : Prop where
  asymm : ∀ a ∈ xs, ∀ b ∈ xs, less a b = true → less b a = false
  split : ∀ a ∈ xs, ∀ b ∈ xs, ∀ c ∈ xs, less a c = true → less a b = true ∨ less b c = true

/-- No element sorts before one that precedes it. -/
def Sorted (less : α → α → Bool) (xs : List α) : Prop := xs.Pairwise fun a b => less b a = false

/-- `top` is what a partial sort puts into the first `k` places. -/
def IsTop (less : α → α → Bool) (k : Nat) (xs top : List α) : Prop :=
  Sorted less top ∧ top.length = min k xs.length ∧
    ∃ rest, xs.Perm (top ++ rest) ∧ ∀ a ∈ top, ∀ b ∈ rest, less b a = false

variable {less : α → α → Bool} {xs ys : List α}

lemma StrictWeakOn.mono (h : StrictWeakOn less xs) (hsub : ∀ a ∈ ys, a ∈ xs) : StrictWeakOn less ys where
  asymm a ha b hb := h.asymm a (hsub a ha) b (hsub b hb)
  split a ha b hb c hc := h.split a (hsub a ha) b (hsub b hb) c (hsub c hc)

lemma StrictWeakOn.irrefl (h : StrictWeakOn less xs) {a : α} (ha : a ∈ xs) : less a a = false := by
  cases hself : less a a with
  | false => rfl
  | true =>
    have hback := h.asymm a ha a ha hself
    rw [hself] at hback
    exact hback

/-- Not sorting before is transitive. -/
theorem StrictWeakOn.not_less_trans (h : StrictWeakOn less xs) {a b c : α} (ha : a ∈ xs) (hb : b ∈ xs)
    (hc : c ∈ xs) (hab : less b a = false) (hbc : less c b = false) : less c a = false := by
  cases hca : less c a with
  | false => rfl
  | true =>
    rcases h.split c hc b hb a ha hca with hcb | hba
    · rw [hbc] at hcb
      cases hcb
    · rw [hab] at hba
      cases hba

/-! ### Insertion sort -/

def insertBy (less : α → α → Bool) (a : α) : List α → List α
  | [] => [a]
  | b :: rest => if less b a then b :: insertBy less a rest else a :: b :: rest

def sortBy (less : α → α → Bool) : List α → List α
  | [] => []
  | a :: rest => insertBy less a (sortBy less rest)

lemma insertBy_perm (a : α) (xs : List α) : (insertBy less a xs).Perm (a :: xs) := by
  induction xs with
  | nil => exact .refl _
  | cons b rest ih =>
    unfold insertBy
    split
    · exact (ih.cons b).trans (.swap a b rest)
    · exact .refl _

lemma sortBy_perm (xs : List α) : (sortBy less xs).Perm xs := by
  induction xs with
  | nil => exact .nil
  | cons a rest ih => exact (insertBy_perm a _).trans (ih.cons a)

lemma sorted_insertBy {a : α} (h : StrictWeakOn less (a :: xs)) (hsorted : Sorted less xs) :
    Sorted less (insertBy less a xs) := by
  induction xs with
  | nil => exact pairwise_singleton _ _
  | cons b rest ih =>
    obtain ⟨hb, hrest⟩ := pairwise_cons.mp hsorted
    unfold insertBy
    split
    next hba =>
      have hinsert := ih (h.mono fun c hc => by
        rcases mem_cons.mp hc with rfl | hc
        · exact mem_cons_self
        · exact mem_cons_of_mem _ (mem_cons_of_mem _ hc)) hrest
      refine pairwise_cons.mpr ⟨fun c hc => ?_, hinsert⟩
      rcases mem_cons.mp ((insertBy_perm a rest).mem_iff.mp hc) with rfl | hc
      · exact h.asymm b (by simp) c (by simp) hba
      · exact hb c hc
    next hba =>
      rw [Bool.not_eq_true] at hba
      refine pairwise_cons.mpr ⟨fun c hc => ?_, hsorted⟩
      rcases mem_cons.mp hc with rfl | hc
      · exact hba
      · exact h.not_less_trans (by simp) (by simp) (by simp [hc]) hba (hb c hc)

lemma sorted_sortBy (h : StrictWeakOn less xs) : Sorted less (sortBy less xs) := by
  induction xs with
  | nil => exact List.Pairwise.nil
  | cons a rest ih =>
    apply sorted_insertBy
    · exact h.mono fun c hc => by
        rcases mem_cons.mp hc with rfl | hc
        · exact mem_cons_self
        · exact mem_cons_of_mem _ ((sortBy_perm rest).mem_iff.mp hc)
    · exact ih (h.mono fun c hc => mem_cons_of_mem _ hc)

/-! ### Parts -/

/-- `part` holds elements of `all`; if it does not hold all of them, it has `k` at least. -/
def Covers (k : Nat) (part all : List α) : Prop :=
  ∃ left, all.Perm (part ++ left) ∧ (left ≠ [] → k ≤ part.length)

lemma Covers.refl (k : Nat) (all : List α) : Covers k all all := ⟨[], by simp, fun h => absurd rfl h⟩

variable {k : Nat}

lemma Covers.map {β : Type*} {part all : List α} (h : Covers k part all) (f : α → β) :
    Covers k (part.map f) (all.map f) := by
  obtain ⟨left, hperm, hend⟩ := h
  refine ⟨left.map f, ?_, fun hne => ?_⟩
  · rw [← map_append]
    exact hperm.map f
  · rw [length_map]
    exact hend fun hnil => hne (by rw [hnil]; rfl)

lemma Covers.length {part all : List α} (h : Covers k part all) :
    min k part.length = min k all.length := by
  obtain ⟨left, hperm, hend⟩ := h
  rw [hperm.length_eq, length_append]
  by_cases hnil : left = []
  · simp [hnil]
  · have hlong := hend hnil
    omega

lemma Covers.mem {part all : List α} (h : Covers k part all) : ∀ a ∈ part, a ∈ all := by
  obtain ⟨left, hperm, -⟩ := h
  exact fun a ha => hperm.mem_iff.mpr (mem_append_left _ ha)

/-! ### The first elements -/

lemma isTop_take (hsorted : Sorted less ys) (hperm : ys.Perm xs) (k : Nat) : IsTop less k xs (ys.take k) := by
  refine ⟨hsorted.take, ?_, ys.drop k, ?_, ?_⟩
  · rw [length_take, hperm.length_eq]
  · rw [take_append_drop]
    exact hperm.symm
  · have hsplit := hsorted
    rw [← take_append_drop k ys] at hsplit
    exact (pairwise_append.mp hsplit).2.2

/-- The first `k` of some of the elements are the first `k` of all, if and only if for each
element left out there are `k` at hand that do not sort behind it. -/
theorem isTop_part_iff {top left : List α} (h : StrictWeakOn less (xs ++ left))
    (htop : IsTop less k xs top) :
    (∃ full, full.Perm (xs ++ left) ∧ Sorted less full ∧ top = full.take k) ↔
      ∀ b ∈ left, k ≤ xs.countP fun a => !less b a := by
  obtain ⟨hsorted, hlength, rest, hperm, hrest⟩ := htop
  have hin : ∀ a ∈ top ++ rest, a ∈ xs := fun a ha => hperm.mem_iff.mpr ha
  constructor
  · intro hfull b hb
    obtain ⟨full, hfullperm, hfullsorted, rfl⟩ := hfull
    have hk : k ≤ xs.length := by
      have hpos : 0 < left.length := length_pos_of_mem hb
      have hall := hfullperm.length_eq
      rw [length_append] at hall
      rw [length_take] at hlength
      omega
    have htail : (full.drop k).Perm (rest ++ left) := by
      have h₁ : (full.take k ++ full.drop k).Perm (full.take k ++ (rest ++ left)) := by
        rw [take_append_drop, ← append_assoc]
        exact hfullperm.trans (hperm.append_right left)
      exact (perm_append_left_iff _).mp h₁
    have hbehind : b ∈ full.drop k := htail.mem_iff.mpr (mem_append_right _ hb)
    have hall : (full.take k).countP (fun a => !less b a) = (full.take k).length := by
      rw [countP_eq_length]
      intro a ha
      have hsplit := hfullsorted
      unfold Sorted at hsplit
      rw [← take_append_drop k full] at hsplit
      simp [(pairwise_append.mp hsplit).2.2 a ha b hbehind]
    rw [hperm.countP_eq, countP_append, hall, hlength]
    omega
  · intro hcount
    have henough : left ≠ [] → k ≤ xs.length := by
      intro hne
      obtain ⟨b, hb⟩ := exists_mem_of_ne_nil left hne
      exact Nat.le_trans (hcount b hb) countP_le_length
    -- nothing left out sorts before an element of the top
    have hleft : ∀ a ∈ top, ∀ b ∈ left, less b a = false := by
      intro a ha b hb
      cases hba : less b a with
      | false => rfl
      | true =>
        have hk : k ≤ xs.length := henough (ne_nil_of_mem hb)
        have hmem {c : α} (hc : c ∈ top ++ rest) : c ∈ xs ++ left := mem_append_left _ (hin c hc)
        have hbefore : ∀ c ∈ top ++ rest, (!less b c) = true → less c a = true := by
          intro c hc hnot
          rcases h.split b (mem_append_right _ hb) c (hmem hc) a
            (hmem (mem_append_left _ ha)) hba with hbc | hca
          · simp [hbc] at hnot
          · exact hca
        have hle : (top ++ rest).countP (fun c => !less b c) ≤ (top ++ rest).countP (less · a) :=
          countP_mono_left hbefore
        have hnone : rest.countP (less · a) = 0 := by
          rw [countP_eq_zero]
          intro c hc
          simp [hrest a ha c hc]
        have hfew : top.countP (less · a) < top.length := by
          apply Nat.lt_of_le_of_ne countP_le_length
          intro hall
          have hself := countP_eq_length.mp hall a ha
          rw [h.irrefl (hmem (mem_append_left _ ha))] at hself
          cases hself
        have hat := hcount b hb
        rw [hperm.countP_eq] at hat
        have hsplit : (top ++ rest).countP (less · a) = top.countP (less · a) + rest.countP (less · a) :=
          countP_append
        rw [hsplit, hnone] at hle
        omega
    refine ⟨top ++ sortBy less (rest ++ left), ?_, ?_, ?_⟩
    · refine ((sortBy_perm (rest ++ left)).append_left top).trans ?_
      rw [← append_assoc]
      exact hperm.symm.append_right left
    · refine pairwise_append.mpr ⟨hsorted, ?_, ?_⟩
      · apply sorted_sortBy
        apply h.mono
        intro c hc
        rcases mem_append.mp hc with hc | hc
        · exact mem_append_left _ (hin c (mem_append_right _ hc))
        · exact mem_append_right _ hc
      · intro a ha b hb
        rcases mem_append.mp ((sortBy_perm (rest ++ left)).mem_iff.mp hb) with hb | hb
        · exact hrest a ha b hb
        · exact hleft a ha b hb
    · by_cases hlong : k ≤ xs.length
      · rw [take_append_of_le_length (by omega), take_of_length_le (by omega)]
      · have hnil : left = [] := by
          by_contra hne
          exact hlong (henough hne)
        have hnone : rest = [] := by
          apply eq_nil_of_length_eq_zero
          have hsame := hperm.length_eq
          rw [length_append] at hsame
          omega
        rw [hnil, hnone]
        simp only [append_nil, sortBy]
        rw [take_of_length_le (by omega)]

/-- Of the elements that do not sort behind a given one, those at hand are all there are or `k` at
least, if and only if the latter holds for each element left out. -/
theorem countP_part_iff {left : List α} (h : StrictWeakOn less (xs ++ left)) (hall : ys.Perm (xs ++ left)) :
    (∀ b ∈ ys, min k (ys.countP fun a => !less b a) ≤ xs.countP fun a => !less b a) ↔
      ∀ b ∈ left, k ≤ xs.countP fun a => !less b a := by
  have hsum (b : α) : ys.countP (fun a => !less b a) =
      xs.countP (fun a => !less b a) + left.countP fun a => !less b a := by
    rw [hall.countP_eq, countP_append]
  constructor
  · intro hcount b hb
    have hself : 0 < left.countP fun a => !less b a :=
      countP_pos_iff.mpr ⟨b, hb, by simp [h.irrefl (mem_append_right _ hb)]⟩
    have hat := hcount b (hall.mem_iff.mpr (mem_append_right _ hb))
    rw [hsum b] at hat
    omega
  · intro hleft b hb
    rw [hsum b]
    by_cases hnone : left.countP (fun a => !less b a) = 0
    · omega
    · -- an element left out does not sort behind `b`; the `k` before it do not either
      obtain ⟨c, hc, hcb⟩ := countP_pos_iff.mp (Nat.pos_of_ne_zero hnone)
      have hmono : xs.countP (fun a => !less c a) ≤ xs.countP fun a => !less b a := by
        apply countP_mono_left
        intro a ha hca
        have hbin : b ∈ xs ++ left := hall.mem_iff.mp hb
        have hnot := h.not_less_trans (mem_append_left _ ha) (mem_append_right _ hc) hbin
          (by simpa using hca) (by simpa using hcb)
        simp [hnot]
      have hk := hleft c hc
      omega

/-- The same, without naming the elements left out. -/
theorem isTop_part_iff_countP {top left : List α} (h : StrictWeakOn less (xs ++ left))
    (htop : IsTop less k xs top) (hall : ys.Perm (xs ++ left)) :
    (∃ full, full.Perm ys ∧ Sorted less full ∧ top = full.take k) ↔
      ∀ b ∈ ys, min k (ys.countP fun a => !less b a) ≤ xs.countP fun a => !less b a := by
  have hsame : (∃ full, full.Perm ys ∧ Sorted less full ∧ top = full.take k) ↔
      ∃ full, full.Perm (xs ++ left) ∧ Sorted less full ∧ top = full.take k :=
    exists_congr fun full => and_congr_left fun _ => ⟨fun hp => hp.trans hall, fun hp => hp.trans hall.symm⟩
  rw [hsame, isTop_part_iff h htop, countP_part_iff h hall]

end Eugraph.Lib.SortedTop
