import Eugraph.Lib.SortedMap

/-!
# Finite maps that file every value under its own key

The values of such a map carry their keys, as records with an id field do.  That no
value stands under a foreign key is a field of the structure, so a value that was read
can be written back without naming its key.
-/

namespace Eugraph.Lib

open List

universe u v

/-- A finite map in which every value stands under its own key. -/
structure KeyedMap (κ : Type u) (ν : Type v) [LinearOrder κ] (key : ν → κ) where
  map : SortedMap κ ν
  keyed : ∀ k w, map.get k = some w → key w = k

namespace KeyedMap

variable {κ : Type u} {ν : Type v} [LinearOrder κ] {key : ν → κ}

def empty : KeyedMap κ ν key := ⟨.empty, fun k w h => by simp at h⟩

def get (m : KeyedMap κ ν key) (k : κ) : Option ν := m.map.get k

def values (m : KeyedMap κ ν key) : List ν := m.map.entries.map (·.2)

/-- File a value, in the place of the one with the same key if there is one. -/
def set (m : KeyedMap κ ν key) (w : ν) : KeyedMap κ ν key where
  map := m.map.put (key w) w
  keyed := by
    intro k w' h
    rw [SortedMap.get_put] at h
    split at h
    · rename_i hk
      rw [hk, Option.some.inj h]
    · exact m.keyed k w' h

@[simp] lemma get_empty (k : κ) : (empty : KeyedMap κ ν key).get k = none := rfl

@[simp] lemma get_set (m : KeyedMap κ ν key) (w : ν) (k : κ) :
    (m.set w).get k = if k = key w then some w else m.get k :=
  SortedMap.get_put m.map (key w) w k

variable {m : KeyedMap κ ν key} {w : ν}

/-- What is filed after a value was written is that value, or was filed before. -/
lemma eq_or_of_get_set {k : κ} {w' : ν} (h : (m.set w).get k = some w') :
    (k = key w ∧ w' = w) ∨ m.get k = some w' := by
  rw [get_set] at h
  split at h
  · rename_i hk
    exact .inl ⟨hk, (Option.some.inj h).symm⟩
  · exact .inr h

lemma key_of_get {k : κ} (h : m.get k = some w) : key w = k := m.keyed k w h

lemma mem_values : w ∈ m.values ↔ m.get (key w) = some w := by
  constructor
  · intro h
    obtain ⟨e, he, rfl⟩ := mem_map.mp h
    have hget := (m.map.mem_entries_iff e.1 e.2).mp he
    have hkey : key e.2 = e.1 := m.keyed e.1 e.2 hget
    show m.map.get (key e.2) = some e.2
    rw [hkey]
    exact hget
  · intro h
    exact mem_map.mpr ⟨(key w, w), (m.map.mem_entries_iff _ _).mpr h, rfl⟩

lemma ext_get {m' : KeyedMap κ ν key} (h : ∀ k, m.get k = m'.get k) : m = m' := by
  have hmap : m.map = m'.map := SortedMap.ext_get h
  cases m
  cases m'
  simp only at hmap
  subst hmap
  rfl

/-- A value that is filed already can be written again. -/
theorem set_self (h : m.get (key w) = some w) : m.set w = m := by
  apply ext_get
  intro k
  rw [get_set]
  split
  · rename_i hk
    rw [hk, h]
  · rfl

/-- Writing a value and then the old one back changes nothing. -/
theorem set_restore {old : ν} (hold : m.get (key old) = some old)
    (hkey : key w = key old) : (m.set w).set old = m := by
  apply ext_get
  intro k
  rw [get_set, get_set, hkey]
  by_cases hk : k = key old
  · rw [if_pos hk, hk, hold]
  · rw [if_neg hk, if_neg hk]

/-- The only value with a property is found, wherever it is filed. -/
theorem find_set {test : ν → Bool} (hm : ∀ v, m.get (key v) = some v → test v = false) (hw : test w = true) :
    (m.set w).values.find? test = some w := by
  have hmem : w ∈ (m.set w).values := mem_values.mpr (by simp)
  obtain ⟨v, hv⟩ := Option.isSome_iff_exists.mp (find?_isSome.mpr ⟨w, hmem, hw⟩)
  have hfiled := mem_values.mp (mem_of_find?_eq_some hv)
  rw [get_set] at hfiled
  split at hfiled
  · rw [hv, Option.some.inj hfiled]
  · have htest := find?_some hv
    rw [hm v hfiled] at htest
    exact nomatch htest

end KeyedMap

end Eugraph.Lib
