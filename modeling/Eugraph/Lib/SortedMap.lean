import Eugraph.Lib.ByteString

/-!
# Finite maps sorted by key

The abstract data type of an ordered key-value table: finitely many records in
strictly increasing key order.  The order is a field of the structure, so two
tables with the same lookups are the same table (`SortedMap.ext_get`) and a
range of records is a contiguous part of `entries`.

Every operation is described by its effect on `get`; sizes change only through
`size_put` and `size_del`, and `filterKeys` commutes with both updates.  The
scan lemmas at the end are what cursor loops over a sorted table compute.
-/

namespace Eugraph.Lib

open List Or

universe u v

/-- A finite map, stored as its records in strictly increasing key order. -/
structure SortedMap (κ : Type u) (ν : Type v) [LinearOrder κ] where
  entries : List (κ × ν)
  sorted : entries.Pairwise fun a b => a.1 < b.1

namespace SortedMap

variable {κ : Type u} {ν : Type v} [LinearOrder κ]

/-- Insert a record, or overwrite the record of its key. -/
def insertEntry (k : κ) (v : ν) : List (κ × ν) → List (κ × ν)
  | [] => [(k, v)]
  | e :: rest =>
    if k < e.1 then (k, v) :: e :: rest
    else if e.1 < k then e :: insertEntry k v rest
    else (k, v) :: rest

/-- The value stored under a key. -/
def lookupEntry (k : κ) : List (κ × ν) → Option ν
  | [] => none
  | e :: rest => if e.1 = k then some e.2 else lookupEntry k rest

variable {k : κ} {l : List (κ × ν)}

lemma key_mem_insertEntry {v : ν} {e : κ × ν} (h : e ∈ insertEntry k v l) : e.1 = k ∨ e ∈ l := by
  induction l with
  | nil =>
    simp only [insertEntry, mem_singleton] at h
    exact inl (by rw [h])
  | cons head rest ih =>
    simp only [insertEntry] at h
    split at h
    · rcases mem_cons.mp h with rfl | h
      · exact inl rfl
      · exact inr h
    · split at h
      · rcases mem_cons.mp h with rfl | h
        · exact inr (mem_cons_self ..)
        · exact (ih h).imp_right (mem_cons_of_mem _)
      · rcases mem_cons.mp h with rfl | h
        · exact inl rfl
        · exact inr (mem_cons_of_mem _ h)

lemma insertEntry_sorted (k : κ) (v : ν) (h : l.Pairwise fun a b => a.1 < b.1) :
    (insertEntry k v l).Pairwise fun a b => a.1 < b.1 := by
  induction l with
  | nil => simp [insertEntry]
  | cons head rest ih =>
    obtain ⟨hhead, hrest⟩ := pairwise_cons.mp h
    simp only [insertEntry]
    split
    next hlt =>
      refine pairwise_cons.mpr ⟨?_, h⟩
      intro e he
      rcases mem_cons.mp he with rfl | he
      · exact hlt
      · exact hlt.trans (hhead e he)
    next hge =>
      split
      next hgt =>
        refine pairwise_cons.mpr ⟨?_, ih hrest⟩
        intro e he
        rcases key_mem_insertEntry he with hk | he
        · rw [hk]
          exact hgt
        · exact hhead e he
      next hle =>
        have hk : k = head.1 := le_antisymm (not_lt.mp hle) (not_lt.mp hge)
        refine pairwise_cons.mpr ⟨?_, hrest⟩
        intro e he
        rw [hk]
        exact hhead e he

lemma lookupEntry_eq_none_of_lt (h : ∀ e ∈ l, k < e.1) : lookupEntry k l = none := by
  induction l with
  | nil => rfl
  | cons head rest ih =>
    have hne : head.1 ≠ k := (h head (mem_cons_self ..)).ne'
    rw [lookupEntry, if_neg hne]
    exact ih fun e he => h e (mem_cons_of_mem _ he)

lemma lookupEntry_insertEntry (k : κ) (v : ν) (h : l.Pairwise fun a b => a.1 < b.1) (k' : κ) :
    lookupEntry k' (insertEntry k v l) = if k' = k then some v else lookupEntry k' l := by
  induction l with
  | nil => simp [insertEntry, lookupEntry, eq_comm]
  | cons head rest ih =>
    obtain ⟨-, hrest⟩ := pairwise_cons.mp h
    simp only [insertEntry]
    split
    next hlt => simp [lookupEntry, eq_comm]
    next hge =>
      split
      next hgt =>
        simp only [lookupEntry, ih hrest]
        by_cases hk : k' = k
        · have hne : head.1 ≠ k' := by
            rw [hk]
            exact hgt.ne
          simp [hk, hk ▸ hne]
        · simp [hk]
      next hle =>
        have hk : k = head.1 := le_antisymm (not_lt.mp hle) (not_lt.mp hge)
        subst hk
        simp only [lookupEntry]
        by_cases hk' : k' = head.1
        · simp [hk']
        · simp [hk', Ne.symm hk']

lemma mem_iff_lookupEntry (h : l.Pairwise fun a b => a.1 < b.1)
    (k : κ) (v : ν) : (k, v) ∈ l ↔ lookupEntry k l = some v := by
  induction l with
  | nil => simp [lookupEntry]
  | cons head rest ih =>
    obtain ⟨hhead, hrest⟩ := pairwise_cons.mp h
    rw [mem_cons, ih hrest, lookupEntry]
    by_cases hk : head.1 = k
    · have hnone : lookupEntry k rest = none := lookupEntry_eq_none_of_lt (hk ▸ hhead)
      rw [if_pos hk, hnone]
      constructor
      · rintro (heq | habs)
        · rw [← heq]
        · exact absurd habs (by simp)
      · intro hv
        exact inl (Prod.ext hk.symm (Option.some.inj hv).symm)
    · rw [if_neg hk]
      constructor
      · rintro (heq | hmem)
        · exact absurd (congrArg Prod.fst heq).symm hk
        · exact hmem
      · exact inr

lemma length_insertEntry (k : κ) (v : ν) (h : l.Pairwise fun a b => a.1 < b.1) :
    (insertEntry k v l).length = if (lookupEntry k l).isSome then l.length else l.length + 1 := by
  induction l with
  | nil => simp [insertEntry, lookupEntry]
  | cons head rest ih =>
    obtain ⟨hhead, hrest⟩ := pairwise_cons.mp h
    simp only [insertEntry]
    split
    next hlt =>
      have hnone : lookupEntry k (head :: rest) = none := by
        apply lookupEntry_eq_none_of_lt
        intro e he
        rcases mem_cons.mp he with rfl | he
        · exact hlt
        · exact hlt.trans (hhead e he)
      simp [hnone]
    next hge =>
      split
      next hgt =>
        rw [length_cons, ih hrest, lookupEntry, if_neg hgt.ne]
        split <;> simp
      next hle =>
        have hk : k = head.1 := le_antisymm (not_lt.mp hle) (not_lt.mp hge)
        simp [lookupEntry, hk]

/-! ### Operations -/

def empty : SortedMap κ ν := ⟨[], List.Pairwise.nil⟩

def get (m : SortedMap κ ν) (k : κ) : Option ν := lookupEntry k m.entries

def put (m : SortedMap κ ν) (k : κ) (v : ν) : SortedMap κ ν :=
  ⟨insertEntry k v m.entries, insertEntry_sorted k v m.sorted⟩

/-- The records whose keys satisfy a test. -/
def filterKeys (m : SortedMap κ ν) (keep : κ → Bool) : SortedMap κ ν :=
  ⟨m.entries.filter fun e => keep e.1, m.sorted.filter _⟩

def del (m : SortedMap κ ν) (k : κ) : SortedMap κ ν :=
  m.filterKeys fun k' => k' ≠ k

def size (m : SortedMap κ ν) : Nat := m.entries.length

@[simp] lemma get_empty (k : κ) : (empty : SortedMap κ ν).get k = none := rfl

lemma mem_entries_iff (m : SortedMap κ ν) (k : κ) (v : ν) : (k, v) ∈ m.entries ↔ m.get k = some v :=
  mem_iff_lookupEntry m.sorted k v

@[simp] lemma get_put (m : SortedMap κ ν) (k : κ) (v : ν) (k' : κ) :
    (m.put k v).get k' = if k' = k then some v else m.get k' :=
  lookupEntry_insertEntry k v m.sorted k'

@[simp] lemma get_filterKeys (m : SortedMap κ ν) (keep : κ → Bool) (k : κ) :
    (m.filterKeys keep).get k = if keep k then m.get k else none := by
  have key (v : ν) : (m.filterKeys keep).get k = some v ↔ keep k = true ∧ m.get k = some v := by
    rw [← mem_entries_iff, filterKeys, mem_filter, mem_entries_iff, and_comm]
  split
  next hkeep =>
    exact Option.ext fun v => by rw [key]; simp [hkeep]
  next hkeep =>
    exact Option.ext fun v => by rw [key]; simp [hkeep]

@[simp] lemma get_del (m : SortedMap κ ν) (k k' : κ) :
    (m.del k).get k' = if k' = k then none else m.get k' := by
  rw [del, get_filterKeys]
  by_cases h : k' = k <;> simp [h]

variable {m : SortedMap κ ν}

/-- Tables with the same lookups are equal. -/
theorem ext_get {m' : SortedMap κ ν} (h : ∀ k, m.get k = m'.get k) : m = m' := by
  have hmem : ∀ e, e ∈ m.entries ↔ e ∈ m'.entries := by
    rintro ⟨k, v⟩
    rw [mem_entries_iff, mem_entries_iff, h]
  have hnodup (m : SortedMap κ ν) : m.entries.Nodup := m.sorted.imp fun hlt heq => hlt.ne (congrArg Prod.fst heq)
  have hperm : m.entries.Perm m'.entries := (perm_ext_iff_of_nodup (hnodup m) (hnodup m')).mpr hmem
  have hentries : m.entries = m'.entries := by
    refine hperm.eq_of_pairwise ?_ m.sorted m'.sorted
    intro a b _ _ hab hba
    exact absurd (hab.trans hba) (lt_irrefl _)
  cases m
  cases m'
  simpa using hentries

lemma size_put (m : SortedMap κ ν) (k : κ) (v : ν) :
    (m.put k v).size = if (m.get k).isSome then m.size else m.size + 1 :=
  length_insertEntry k v m.sorted

lemma put_del_self {v : ν} (h : m.get k = some v) : (m.del k).put k v = m := by
  apply ext_get
  intro k'
  rw [get_put, get_del]
  split
  next hk => rw [hk, h]
  next => rfl

/-- Removing a stored key makes the table one record smaller. -/
theorem size_del_add_one (h : (m.get k).isSome) : (m.del k).size + 1 = m.size := by
  obtain ⟨v, hv⟩ := Option.isSome_iff_exists.mp h
  have hsize := size_put (m.del k) k v
  rw [put_del_self hv, get_del, if_pos rfl] at hsize
  simpa using hsize.symm

/-! ### Contiguous scans

A cursor visits the records of a table in order.  The two lemmas below turn
"skip while", "stop at the first" loops into filters over the keys. -/

/-- Skipping the records below a bound keeps those at or above it. -/
theorem dropWhile_lt_eq_filter (h : l.Pairwise fun a b => a.1 < b.1)
    (p : κ → Bool) (hp : ∀ a b, a < b → p b = true → p a = true) :
    l.dropWhile (fun e => p e.1) = l.filter fun e => !p e.1 := by
  induction l with
  | nil => rfl
  | cons head rest ih =>
    obtain ⟨hhead, hrest⟩ := pairwise_cons.mp h
    by_cases hph : p head.1 = true
    · simp [hph, ih hrest]
    · have hall : ∀ e ∈ rest, (!p e.1) = true := by
        intro e he
        have : ¬ p e.1 = true := fun hpe => hph (hp _ _ (hhead e he) hpe)
        simpa using this
      have hkeep : rest.filter (fun e => !p e.1) = rest := filter_eq_self.mpr hall
      simp [hph, hkeep]

lemma takeWhile_eq_filter_iff {α : Type*} (p : α → Bool) (l : List α) :
    l.takeWhile p = l.filter p ↔ l.Pairwise fun a b => p b = true → p a = true := by
  induction l with
  | nil => simp
  | cons a l ih =>
    rw [pairwise_cons, takeWhile_cons, filter_cons]
    by_cases ha : p a = true
    · simp [ha, ih]
    · simp only [ha, Bool.false_eq_true, if_false, imp_false]
      constructor
      · intro hnil
        have hall := filter_eq_nil_iff.mp hnil.symm
        exact ⟨hall, pairwise_of_forall_mem_list fun x _ y hy hpy => absurd hpy (hall y hy)⟩
      · rintro ⟨hall, -⟩
        exact (filter_eq_nil_iff.mpr hall).symm

/-- Stopping at the first record outside an initial segment keeps that segment. -/
theorem takeWhile_eq_filter (h : l.Pairwise fun a b => a.1 < b.1)
    (p : κ → Bool) (hp : ∀ a ∈ l, ∀ b ∈ l, a.1 < b.1 → p b.1 = true → p a.1 = true) :
    l.takeWhile (fun e => p e.1) = l.filter fun e => p e.1 :=
  (takeWhile_eq_filter_iff _ l).mpr (h.imp_of_mem fun ha hb hlt => hp _ ha _ hb hlt)

/-- A scan that stops at the first rejected record reaches exactly the records with
no rejected one at or before them. -/
theorem mem_takeWhile_sorted (h : l.Pairwise fun a b => a.1 < b.1) (p : κ → Bool) (e : κ × ν) :
    e ∈ l.takeWhile (fun e => p e.1) ↔ e ∈ l ∧ p e.1 = true ∧ ∀ a ∈ l, a.1 < e.1 → p a.1 = true := by
  induction l with
  | nil => simp
  | cons head rest ih =>
    obtain ⟨hhead, hrest⟩ := pairwise_cons.mp h
    rw [takeWhile_cons]
    by_cases hph : p head.1 = true
    · rw [if_pos hph, mem_cons, ih hrest]
      constructor
      · rintro (rfl | ⟨hmem, hpe, hbefore⟩)
        · refine ⟨by simp, hph, ?_⟩
          intro a ha hlt
          rcases mem_cons.mp ha with rfl | ha
          · exact hph
          · exact absurd (hlt.trans (hhead a ha)) (lt_irrefl _)
        · refine ⟨mem_cons_of_mem _ hmem, hpe, ?_⟩
          intro a ha hlt
          rcases mem_cons.mp ha with rfl | ha
          · exact hph
          · exact hbefore a ha hlt
      · rintro ⟨hmem, hpe, hbefore⟩
        rcases mem_cons.mp hmem with rfl | hmem
        · exact inl rfl
        · exact inr ⟨hmem, hpe, fun a ha => hbefore a (mem_cons_of_mem _ ha)⟩
    · rw [if_neg hph]
      constructor
      · intro hnil
        exact absurd hnil (by simp)
      · rintro ⟨hmem, hpe, hbefore⟩
        rcases mem_cons.mp hmem with rfl | hmem
        · exact absurd hpe hph
        · exact absurd (hbefore head (by simp) (hhead e hmem)) hph

end SortedMap

end Eugraph.Lib
