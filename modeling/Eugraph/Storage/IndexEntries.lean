import Mathlib.Data.Set.Function
import Eugraph.Storage.IndexStore

/-!
# Entries of a composite index and their keys

The columns of a key stand one behind the other with no delimiter between them.  Every
encoding but a string's ends where its tag says, so two tuples of one arity share a key
only when nothing but arrays, bytes or temporals tells them apart, or when the first column
that does holds a string and a longer one that goes on with the bytes of the columns behind.

An entry of the index is stored under its key alone: writing or deleting one entry leaves
another in place exactly when their keys differ.
-/

namespace Eugraph.IndexStore

open Lib IndexKeyCodec Wt List

/-- The first column in which the tuples are written differently holds two strings, and
from there on the bytes of the columns are the same. -/
def sharesBytes : List PropertyValue → List PropertyValue → Bool
  | .string s :: vs, .string t :: ws =>
    if s = t then sharesBytes vs ws
    else decide (s ++ encodeSortableValues vs = t ++ encodeSortableValues ws)
  | v :: vs, w :: ws => writtenAlike v w && sharesBytes vs ws
  | _, _ => false

lemma sharesBytes_cons {v w : PropertyValue} (hstring : tag v ≠ 0x04 ∨ tag w ≠ 0x04) (vs ws : List PropertyValue) :
    sharesBytes (v :: vs) (w :: ws) = (writtenAlike v w && sharesBytes vs ws) := by
  cases v <;> cases w <;> first | rfl | exact absurd hstring (by simp [tag])

/-- Two encodings of which at least one is not a string end at the same place. -/
theorem encodeSortableValue_append_eq_iff {a b : PropertyValue}
    (hstring : tag a ≠ 0x04 ∨ tag b ≠ 0x04) (x y : Bytes) :
    encodeSortableValue a ++ x = encodeSortableValue b ++ y ↔ writtenAlike a b = true ∧ x = y := by
  constructor
  · intro h
    obtain ⟨halike, hxy⟩ := (encodeSortableValue_isPrefix_iff hstring x y).mp (h ▸ prefix_refl _)
    refine ⟨halike, ?_⟩
    rw [encodeSortableValue_inj.mpr halike] at h
    exact append_cancel_left h
  · rintro ⟨halike, rfl⟩
    rw [encodeSortableValue_inj.mpr halike]

lemma encodeSortableValues_eq_iff {v w : List PropertyValue} (hlen : v.length = w.length) :
    encodeSortableValues v = encodeSortableValues w ↔
      listEqual writtenAlike v w = true ∨ sharesBytes v w = true := by
  induction v generalizing w with
  | nil =>
    obtain rfl := length_eq_zero_iff.mp hlen.symm
    simp [listEqual]
  | cons a vs ih =>
    cases w with
    | nil => simp at hlen
    | cons b ws =>
      have hrest := ih (w := ws) (by simpa using hlen)
      rw [encodeSortableValues_cons, encodeSortableValues_cons, listEqual]
      by_cases hstring : tag a ≠ 0x04 ∨ tag b ≠ 0x04
      · rw [encodeSortableValue_append_eq_iff hstring, hrest, sharesBytes_cons hstring]
        cases writtenAlike a b <;> simp
      · -- two strings: equal ones cancel, different ones are the definition
        obtain ⟨s, rfl⟩ := eq_string_of_tag (not_not.mp (not_or.mp hstring).1)
        obtain ⟨t, rfl⟩ := eq_string_of_tag (not_not.mp (not_or.mp hstring).2)
        rw [sharesBytes]
        by_cases hst : s = t
        · subst hst
          rw [append_cancel_left_eq, hrest, if_pos rfl]
          simp [writtenAlike]
        · rw [if_neg hst]
          simp [encodeSortableValue, writtenAlike, hst, indexable]

lemma encodeIndexKey_eq_iff {v w : List PropertyValue} (hlen : v.length = w.length) (id id' : UInt64) :
    encodeIndexKey v id = encodeIndexKey w id' ↔
      id = id' ∧ (listEqual writtenAlike v w = true ∨ sharesBytes v w = true) := by
  rw [← encodeSortableValues_eq_iff hlen]
  constructor
  · intro h
    have hid : id = id' := by
      have := congrArg decodeEntityId h
      rwa [decodeEntityId_encodeIndexKey, decodeEntityId_encodeIndexKey] at this
    subst hid
    exact ⟨rfl, append_cancel_right h⟩
  · rintro ⟨rfl, h⟩
    rw [encodeIndexKey, encodeIndexKey, h]

/-! ### Entries that leave each other alone -/

/-- No insert and no delete of the one entry changes what is stored for the other. -/
def Undisturbed (v : List PropertyValue) (id : UInt64) (w : List PropertyValue) (id' : UInt64) :
    Prop :=
  encodeIndexKey v id ≠ encodeIndexKey w id' ∧
    ∀ (t : Table) (payload : Bytes),
      (insertIndexEntry t v id payload).get (encodeIndexKey w id') =
          t.get (encodeIndexKey w id') ∧
        (deleteIndexEntry t v id).get (encodeIndexKey w id') = t.get (encodeIndexKey w id')

lemma undisturbed_of_ne {v w : List PropertyValue} {id id' : UInt64}
    (hkey : encodeIndexKey v id ≠ encodeIndexKey w id') : Undisturbed v id w id' := by
  refine ⟨hkey, fun t payload => ⟨?_, ?_⟩⟩
  · rw [insertIndexEntry, SortedMap.get_put, if_neg hkey.symm]
  · rw [deleteIndexEntry, SortedMap.get_del, if_neg hkey.symm]

/-- Two entries of one arity have keys of their own, and neither writing nor deleting one
touches the other, unless they are of one entity and either no column is written
differently, or the first that is runs on into the next. -/
theorem undisturbed_iff {v w : List PropertyValue} (hlen : v.length = w.length) (id id' : UInt64) :
    Undisturbed v id w id' ↔ id ≠ id' ∨ (listEqual writtenAlike v w = false ∧ sharesBytes v w = false) := by
  have hkeys := encodeIndexKey_eq_iff hlen id id'
  constructor
  · intro h
    by_contra hcond
    apply h.1
    rw [hkeys]
    cases halike : listEqual writtenAlike v w <;> cases hshares : sharesBytes v w <;>
      simp_all
  · intro hcond
    apply undisturbed_of_ne
    intro h
    obtain ⟨hid, hsame⟩ := hkeys.mp h
    obtain ⟨halike, hshares⟩ := hcond.resolve_left (not_not.mpr hid)
    simp [halike, hshares] at hsame

theorem undisturbed_iff_names : Undisturbed [.string [97], .int64 1] 7 [.string [97, 98], .int64 1] 7 :=
  (undisturbed_iff (v := [.string [97], .int64 1]) (w := [.string [97, 98], .int64 1]) rfl 7 7).mpr
    (Or.inr (by decide))

/-- `("a", "\x04b")` and `("a\x04", "b")`: the tag of the second column reads as the end of
the first. -/
theorem tag_inside_string : ¬ ∀ v w : List PropertyValue, v.length = w.length → ∀ id id' : UInt64,
      (v, id) ≠ (w, id') → Undisturbed v id w id' := by
  intro h
  have hsame := (h [.string [97], .string [4, 98]] [.string [97, 4], .string [98]] rfl 7 7 (by decide)).1
  exact hsame (by decide)

end Eugraph.IndexStore
