import Mathlib.Data.List.Basic

/-!
# Kleene's three truth values

`none` is the unknown value.  A conjunction, a disjunction and "exactly one" of a list are
characterised by what occurs in the list; none of them depends on the order.  Taking some
unknown values for false changes the answer only where the list leaves it open.
-/

namespace Eugraph.Lib.Kleene

open List

def neg (t : Option Bool) : Option Bool := t.map (!·)

def conj : Option Bool → Option Bool → Option Bool
  | some false, _ => some false
  | _, some false => some false
  | some true, some true => some true
  | _, _ => none

def disj : Option Bool → Option Bool → Option Bool
  | some true, _ => some true
  | _, some true => some true
  | some false, some false => some false
  | _, _ => none

def all : List (Option Bool) → Option Bool
  | [] => some true
  | t :: rest => conj t (all rest)

def any : List (Option Bool) → Option Bool
  | [] => some false
  | t :: rest => disj t (any rest)

/-- Exactly one is true. -/
def single (ts : List (Option Bool)) : Option Bool :=
  if 2 ≤ ts.count (some true) then some false
  else if none ∈ ts then none
  else some (ts.count (some true) == 1)

/-! ### What decides an answer -/

lemma conj_eq_false_iff (s t : Option Bool) : conj s t = some false ↔ s = some false ∨ t = some false := by
  rcases s with _ | _ | _ <;> rcases t with _ | _ | _ <;> simp [conj]

lemma conj_eq_true_iff (s t : Option Bool) : conj s t = some true ↔ s = some true ∧ t = some true := by
  rcases s with _ | _ | _ <;> rcases t with _ | _ | _ <;> simp [conj]

lemma disj_eq_neg (s t : Option Bool) : disj s t = neg (conj (neg s) (neg t)) := by
  rcases s with _ | _ | _ <;> rcases t with _ | _ | _ <;> rfl

@[simp] lemma neg_neg (t : Option Bool) : neg (neg t) = t := by
  rcases t with _ | _ | _ <;> rfl

@[simp] lemma neg_eq_some_iff (t : Option Bool) (b : Bool) : neg t = some b ↔ t = some (!b) := by
  rcases t with _ | _ | _ <;> cases b <;> simp [neg]

@[simp] lemma neg_eq_none_iff (t : Option Bool) : neg t = none ↔ t = none := by
  simp [neg]

lemma all_eq_false_iff (ts : List (Option Bool)) : all ts = some false ↔ some false ∈ ts := by
  induction ts with
  | nil => simp [all]
  | cons t rest ih => rw [all, conj_eq_false_iff, ih, mem_cons, eq_comm]

lemma all_eq_true_iff (ts : List (Option Bool)) : all ts = some true ↔ ∀ t ∈ ts, t = some true := by
  induction ts with
  | nil => simp [all]
  | cons t rest ih => rw [all, conj_eq_true_iff, ih, forall_mem_cons]

/-- A conjunction without a false part is unknown as soon as one part is. -/
theorem all_eq_none_iff (ts : List (Option Bool)) : all ts = none ↔ none ∈ ts ∧ some false ∉ ts := by
  constructor
  · intro h
    have hfalse : some false ∉ ts := by
      rw [← all_eq_false_iff, h]
      simp
    refine ⟨?_, hfalse⟩
    by_contra hnone
    have htrue : all ts = some true := by
      rw [all_eq_true_iff]
      intro t ht
      rcases t with _ | _ | _
      · exact absurd ht hnone
      · exact absurd ht hfalse
      · rfl
    rw [h] at htrue
    cases htrue
  · rintro ⟨hnone, hfalse⟩
    rcases hall : all ts with _ | _ | _
    · rfl
    · exact absurd ((all_eq_false_iff ts).mp hall) hfalse
    · have := (all_eq_true_iff ts).mp hall none hnone
      cases this

/-- De Morgan's law for lists. -/
theorem any_eq_neg_all (ts : List (Option Bool)) : any ts = neg (all (ts.map neg)) := by
  induction ts with
  | nil => rfl
  | cons t rest ih => rw [any, disj_eq_neg, ih, neg_neg, map_cons, all]

lemma any_eq_true_iff (ts : List (Option Bool)) : any ts = some true ↔ some true ∈ ts := by
  simp [any_eq_neg_all, all_eq_false_iff]

lemma any_eq_none_iff (ts : List (Option Bool)) : any ts = none ↔ none ∈ ts ∧ some true ∉ ts := by
  simp [any_eq_neg_all, all_eq_none_iff]

lemma single_eq_none_iff (ts : List (Option Bool)) : single ts = none ↔ none ∈ ts ∧ ts.count (some true) < 2 := by
  unfold single
  split
  next h => simp; omega
  next h =>
    split
    next hnone => simp [hnone]; omega
    next hnone => simp [hnone]

/-! ### Unknown values taken for false -/

/-- Some of the unknown values were made false. -/
def Lowered (ts us : List (Option Bool)) : Prop :=
  List.Forall₂ (fun t u => u = t ∨ t = none ∧ u = some false) ts us

namespace Lowered

variable {ts us : List (Option Bool)}

lemma count_true (h : Lowered ts us) : us.count (some true) = ts.count (some true) := by
  induction h with
  | nil => rfl
  | cons hhead _ ih =>
    rcases hhead with rfl | ⟨rfl, rfl⟩
    · simp [count_cons, ih]
    · simp [ih]

lemma true_mem_iff (h : Lowered ts us) : some true ∈ us ↔ some true ∈ ts := by
  rw [← count_pos_iff, ← count_pos_iff, h.count_true]

lemma none_mem (h : Lowered ts us) (hnone : none ∈ us) : none ∈ ts := by
  induction h with
  | nil => exact hnone
  | cons hhead _ ih =>
    rcases hhead with rfl | ⟨rfl, rfl⟩
    · rcases mem_cons.mp hnone with heq | hrest
      · exact heq ▸ mem_cons_self
      · exact mem_cons_of_mem _ (ih hrest)
    · exact mem_cons_self

lemma false_mem (h : Lowered ts us) (hfalse : some false ∈ ts) : some false ∈ us := by
  induction h with
  | nil => exact hfalse
  | cons hhead _ ih =>
    rcases hhead with rfl | ⟨rfl, rfl⟩
    · rcases mem_cons.mp hfalse with heq | hrest
      · exact heq ▸ mem_cons_self
      · exact mem_cons_of_mem _ (ih hrest)
    · exact mem_cons_self

/-- Where nothing was lowered the lists agree; where something was, an unknown value became
a false one. -/
theorem eq_or_lowered (h : Lowered ts us) : us = ts ∨ none ∈ ts ∧ some false ∈ us := by
  induction h with
  | nil => exact .inl rfl
  | cons hhead _ ih =>
    rcases hhead with rfl | ⟨rfl, rfl⟩
    · rcases ih with rfl | ⟨hnone, hfalse⟩
      · exact .inl rfl
      · exact .inr ⟨mem_cons_of_mem _ hnone, mem_cons_of_mem _ hfalse⟩
    · exact .inr ⟨mem_cons_self, mem_cons_self⟩

lemma all_eq_iff (h : Lowered ts us) : all us = all ts ↔ us = ts ∨ some false ∈ ts := by
  constructor
  · intro heq
    rcases h.eq_or_lowered with hsame | ⟨-, hfalse⟩
    · exact .inl hsame
    · right
      rwa [← all_eq_false_iff, ← heq, all_eq_false_iff]
  · rintro (rfl | hfalse)
    · rfl
    · rw [(all_eq_false_iff ts).mpr hfalse, all_eq_false_iff]
      exact h.false_mem hfalse

lemma any_eq_iff (h : Lowered ts us) : any us = any ts ↔ us = ts ∨ some true ∈ ts ∨ none ∈ us := by
  constructor
  · intro heq
    rcases h.eq_or_lowered with hsame | ⟨hnone, -⟩
    · exact .inl hsame
    · by_cases htrue : some true ∈ ts
      · exact .inr (.inl htrue)
      · have hunknown : any us = none := by
          rw [heq, any_eq_none_iff]
          exact ⟨hnone, htrue⟩
        exact .inr (.inr ((any_eq_none_iff us).mp hunknown).1)
  · rintro (rfl | htrue | hnone)
    · rfl
    · rw [(any_eq_true_iff ts).mpr htrue, any_eq_true_iff, h.true_mem_iff]
      exact htrue
    · by_cases htrue : some true ∈ ts
      · rw [(any_eq_true_iff ts).mpr htrue, any_eq_true_iff, h.true_mem_iff]
        exact htrue
      · rw [(any_eq_none_iff ts).mpr ⟨h.none_mem hnone, htrue⟩, any_eq_none_iff, h.true_mem_iff]
        exact ⟨hnone, htrue⟩

lemma single_eq_iff (h : Lowered ts us) :
    single us = single ts ↔ us = ts ∨ 2 ≤ ts.count (some true) ∨ none ∈ us := by
  have hcount := h.count_true
  constructor
  · intro heq
    rcases h.eq_or_lowered with hsame | ⟨hnone, -⟩
    · exact .inl hsame
    · by_cases htwo : 2 ≤ ts.count (some true)
      · exact .inr (.inl htwo)
      · have hunknown : single us = none := by
          rw [heq, single_eq_none_iff]
          exact ⟨hnone, by omega⟩
        exact .inr (.inr ((single_eq_none_iff us).mp hunknown).1)
  · rintro (rfl | htwo | hnone)
    · rfl
    · simp [single, hcount, htwo]
    · have hnone' := h.none_mem hnone
      simp [single, hcount, hnone, hnone']

end Lowered

end Eugraph.Lib.Kleene
