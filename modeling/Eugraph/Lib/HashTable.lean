import Mathlib.Data.List.Induction

/-!
# Hash tables of lists

A table files each value under the first stored key that answers to its own key, or under
its own key if none does.  `found x k` says that a lookup of `x` stops at the stored key
`k`.  Where `found` is symmetric and transitive on the keys in use, a lookup returns the
values filed under every key that answers to it, in the order they were filed.
-/

namespace Eugraph.Lib.HashTable

open List

variable {κ α : Type*} (found : κ → κ → Bool)

/-- File a value under its key. -/
def add (key : κ) (value : α) : List (κ × List α) → List (κ × List α)
  | [] => [(key, [value])]
  | (stored, values) :: rest =>
    if found key stored then (stored, values ++ [value]) :: rest
    else (stored, values) :: add key value rest

/-- The values filed under the first key that answers. -/
def lookup (key : κ) : List (κ × List α) → List α
  | [] => []
  | (stored, values) :: rest => if found key stored then values else lookup key rest

def ofList (entries : List (κ × α)) : List (κ × List α) :=
  entries.foldl (fun table entry => add found entry.1 entry.2 table) []

/-- What a table needs of the comparison on the keys `K`. -/
structure Groups (K : Set κ) : Prop where
  symm : ∀ a ∈ K, ∀ b ∈ K, found a b = true → found b a = true
  trans : ∀ a ∈ K, ∀ b ∈ K, ∀ c ∈ K, found a b = true → found b c = true → found a c = true

variable {found}

lemma keys_add {K : Set κ} {table : List (κ × List α)} {key : κ} {value : α}
    (htable : ∀ entry ∈ table, entry.1 ∈ K) (hkey : key ∈ K) :
    ∀ entry ∈ add found key value table, entry.1 ∈ K := by
  induction table with
  | nil => simpa [add] using hkey
  | cons entry rest ih =>
    obtain ⟨hhead, hrest⟩ := forall_mem_cons.mp htable
    rw [add]
    split
    · exact forall_mem_cons.mpr ⟨hhead, hrest⟩
    · exact forall_mem_cons.mpr ⟨hhead, ih hrest⟩

/-- Filing one value adds it to the lookups its key answers to, and to no other. -/
theorem lookup_add {K : Set κ} (h : Groups found K) {table : List (κ × List α)} {key x : κ}
    {value : α} (htable : ∀ entry ∈ table, entry.1 ∈ K) (hkey : key ∈ K) (hx : x ∈ K) :
    lookup found x (add found key value table) =
      lookup found x table ++ if found x key then [value] else [] := by
  induction table with
  | nil => simp [add, lookup]
  | cons entry rest ih =>
    obtain ⟨hstored, hrest⟩ := forall_mem_cons.mp htable
    obtain ⟨stored, values⟩ := entry
    simp only at hstored
    by_cases hkey_stored : found key stored = true
    · rw [add, if_pos hkey_stored, lookup, lookup]
      by_cases hx_stored : found x stored = true
      · have hx_key := h.trans x hx stored hstored key hkey hx_stored (h.symm key hkey stored hstored hkey_stored)
        simp [hx_stored, hx_key]
      · have hx_key : ¬ found x key = true := fun hx_key =>
          hx_stored (h.trans x hx key hkey stored hstored hx_key hkey_stored)
        simp [hx_stored, hx_key]
    · rw [add, if_neg hkey_stored, lookup, lookup]
      by_cases hx_stored : found x stored = true
      · have hx_key : ¬ found x key = true := fun hx_key =>
          hkey_stored (h.trans key hkey x hx stored hstored (h.symm x hx key hkey hx_key) hx_stored)
        simp [hx_stored, hx_key]
      · simp only [if_neg hx_stored]
        exact ih hrest

/-- A lookup in a table built from a list finds exactly the entries whose keys answer. -/
theorem lookup_ofList {K : Set κ} (h : Groups found K) {entries : List (κ × α)} {x : κ}
    (hentries : ∀ entry ∈ entries, entry.1 ∈ K) (hx : x ∈ K) :
    lookup found x (ofList found entries) = (entries.filter fun entry => found x entry.1).map Prod.snd := by
  have hkeys (entries : List (κ × α)) (hentries : ∀ entry ∈ entries, entry.1 ∈ K) :
      ∀ entry ∈ ofList found entries, entry.1 ∈ K := by
    induction entries using List.reverseRecOn with
    | nil => simp [ofList]
    | append_singleton before entry ih =>
      rw [ofList, foldl_append]
      exact keys_add (ih fun e he => hentries e (by simp [he])) (hentries entry (by simp))
  induction entries using List.reverseRecOn with
  | nil => rfl
  | append_singleton before entry ih =>
    have hbefore : ∀ e ∈ before, e.1 ∈ K := fun e he => hentries e (by simp [he])
    have hstep : ofList found (before ++ [entry]) = add found entry.1 entry.2 (ofList found before) := by
      rw [ofList, foldl_append]
      rfl
    rw [hstep, lookup_add h (hkeys before hbefore) (hentries entry (by simp)) hx, ih hbefore,
      filter_append, map_append]
    congr 1
    by_cases hfound : found x entry.1 = true
    · simp [hfound]
    · simp [hfound]

/-- The keys and values of a table are those filed. -/
theorem mem_ofList {entries : List (κ × α)} {group : κ × List α} (hgroup : group ∈ ofList found entries) :
    (∃ entry ∈ entries, entry.1 = group.1) ∧ ∀ value ∈ group.2, ∃ entry ∈ entries, entry.2 = value := by
  have hadd (key : κ) (value : α) (table : List (κ × List α)) :
      ∀ g ∈ add found key value table, (g.1 = key ∨ ∃ g' ∈ table, g'.1 = g.1) ∧
        ∀ v ∈ g.2, v = value ∨ ∃ g' ∈ table, v ∈ g'.2 := by
    induction table with
    | nil => simp [add]
    | cons entry rest ih =>
      intro g hg
      rw [add] at hg
      split at hg
      · rcases mem_cons.mp hg with rfl | hrest
        · refine ⟨.inr ⟨entry, mem_cons_self, rfl⟩, fun v hv => ?_⟩
          rcases mem_append.mp hv with hold | hnew
          · exact .inr ⟨entry, mem_cons_self, hold⟩
          · exact .inl (mem_singleton.mp hnew)
        · exact ⟨.inr ⟨g, mem_cons_of_mem _ hrest, rfl⟩, fun v hv => .inr ⟨g, mem_cons_of_mem _ hrest, hv⟩⟩
      · rcases mem_cons.mp hg with rfl | hrest
        · exact ⟨.inr ⟨_, mem_cons_self, rfl⟩, fun v hv => .inr ⟨_, mem_cons_self, hv⟩⟩
        · obtain ⟨hkey, hvalues⟩ := ih g hrest
          refine ⟨hkey.imp_right ?_, fun v hv => (hvalues v hv).imp_right ?_⟩
          · rintro ⟨g', hg', heq⟩
            exact ⟨g', mem_cons_of_mem _ hg', heq⟩
          · rintro ⟨g', hg', hmem⟩
            exact ⟨g', mem_cons_of_mem _ hg', hmem⟩
  induction entries using List.reverseRecOn generalizing group with
  | nil => cases hgroup
  | append_singleton before entry ih =>
    rw [ofList, foldl_append] at hgroup
    obtain ⟨hkey, hvalues⟩ := hadd entry.1 entry.2 (ofList found before) group hgroup
    constructor
    · rcases hkey with heq | ⟨g', hg', heq⟩
      · exact ⟨entry, by simp, heq.symm⟩
      · obtain ⟨e, he, hkey⟩ := (ih hg').1
        exact ⟨e, by simp [he], hkey.trans heq⟩
    · intro value hvalue
      rcases hvalues value hvalue with rfl | ⟨g', hg', hmem⟩
      · exact ⟨entry, by simp, rfl⟩
      · obtain ⟨e, he, heq⟩ := (ih hg').2 value hmem
        exact ⟨e, by simp [he], heq⟩

end Eugraph.Lib.HashTable
