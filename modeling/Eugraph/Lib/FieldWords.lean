import Eugraph.Lib.ByteString

/-!
# Tuples of big-endian words

A key made of big-endian words is ordered as the tuple of its numbers, and it starts with the
words of another tuple exactly when that tuple is a prefix of its own.
-/

namespace Eugraph.Lib

open List

/-- A number that fits the bytes it is written in. -/
structure FieldWord where
  width : Nat
  value : Nat
  width_pos : 0 < width
  value_lt : value < 256 ^ width

namespace FieldWord

def bytes (word : FieldWord) : Bytes := wordBytes word.width word.value

@[simp] lemma length_bytes (word : FieldWord) : word.bytes.length = word.width := length_wordBytes _ _

lemma bytes_lt_iff {a b : FieldWord} (h : a.width = b.width) : a.bytes < b.bytes ↔ a.value < b.value := by
  rw [bytes, bytes, h]
  exact wordBytes_lt_wordBytes_iff (h ▸ a.value_lt) b.value_lt

lemma bytes_inj {a b : FieldWord} (h : a.width = b.width) : a.bytes = b.bytes ↔ a.value = b.value := by
  rw [bytes, bytes, h]
  exact ⟨wordBytes_injective (h ▸ a.value_lt) b.value_lt, fun hvalue => by rw [hvalue]⟩

end FieldWord

def fieldBytes (fields : List FieldWord) : Bytes := fields.flatMap (·.bytes)

variable {a b : List FieldWord}

lemma fieldBytes_lt_iff (h : a.map (·.width) = b.map (·.width)) :
    fieldBytes a < fieldBytes b ↔ a.map (·.value) < b.map (·.value) := by
  induction a generalizing b with
  | nil =>
    rw [map_eq_nil_iff.mp h.symm]
    simp
  | cons x a ih =>
    cases b with
    | nil => exact absurd h (by simp)
    | cons y b =>
      obtain ⟨hwidth, hrest⟩ := List.cons.inj h
      rw [fieldBytes, fieldBytes, flatMap_cons, flatMap_cons, map_cons, map_cons, cons_lt_cons_iff,
        append_lt_append_iff (by simpa using hwidth), FieldWord.bytes_lt_iff hwidth, FieldWord.bytes_inj hwidth]
      exact or_congr_right (and_congr_right fun _ => ih hrest)

lemma fieldBytes_isPrefix_iff (h : a.map (·.width) <+: b.map (·.width) ∨ b.map (·.width) <+: a.map (·.width)) :
    fieldBytes a <+: fieldBytes b ↔ a.map (·.value) <+: b.map (·.value) := by
  induction a generalizing b with
  | nil => simp [fieldBytes]
  | cons x a ih =>
    cases b with
    | nil =>
      -- the first word takes at least one byte
      have hne : x.bytes ≠ [] := fun hnil => by
        have := x.length_bytes
        rw [hnil] at this
        exact absurd x.width_pos (by simp [← this])
      simp [fieldBytes, hne]
    | cons y b =>
      simp only [map_cons, cons_prefix_cons] at h
      have hwidth : x.width = y.width := h.elim (·.1) (·.1.symm)
      rw [fieldBytes, fieldBytes, flatMap_cons, flatMap_cons, map_cons, map_cons, cons_prefix_cons,
        append_isPrefix_append_iff (by simpa using hwidth), FieldWord.bytes_inj hwidth]
      exact and_congr_right fun _ => ih (h.imp (·.2) (·.2))

end Eugraph.Lib
