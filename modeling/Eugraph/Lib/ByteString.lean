import Mathlib.Data.List.Basic
import Mathlib.Order.Lex
import Mathlib.Data.List.Lex
import Mathlib.Order.Defs.LinearOrder
import Mathlib.Tactic

/-!
# Byte strings: lexicographic order, prefixes and big-endian words

An ordered key-value engine compares keys as unsigned byte strings, the shorter
one first.  This file collects what a client of such an engine needs:

* how the lexicographic order and the prefix relation act on concatenations
  whose leading parts have one length;
* that the strings with a common prefix form an interval of the order, so a
  prefix scan is a contiguous run of keys;
* fixed-width big-endian words, which embed the naturals below `256 ^ width`
  into byte strings with their order.
-/

namespace Eugraph.Lib

open List

/-- Unsigned byte order. -/
instance instLinearOrderUInt8 : LinearOrder UInt8 where
  le_refl a := UInt8.le_refl a
  le_trans _ _ _ := UInt8.le_trans
  le_antisymm _ _ := UInt8.le_antisymm
  le_total a b := UInt8.le_total a b
  lt_iff_le_not_ge a b := by
    rw [UInt8.lt_iff_toNat_lt, UInt8.le_iff_toNat_le, UInt8.le_iff_toNat_le]
    omega
  toDecidableLE := inferInstance
  toDecidableEq := inferInstance
  toDecidableLT := inferInstance

/-- A key or a value of the storage engine. -/
abbrev Bytes := List UInt8

instance instLawfulBEqBytes : LawfulBEq Bytes := inferInstance

section Lexicographic

variable {α : Type*} [LinearOrder α]

lemma append_lt_append_iff {a b : List α} (hlen : a.length = b.length) (x y : List α) :
    a ++ x < b ++ y ↔ a < b ∨ a = b ∧ x < y := by
  induction a generalizing b with
  | nil =>
    cases b with
    | nil => simp
    | cons c b => simp at hlen
  | cons c a ih =>
    cases b with
    | nil => simp at hlen
    | cons d b =>
      have hlen' : a.length = b.length := by simpa using hlen
      rw [cons_append, cons_append, cons_lt_cons_iff, ih hlen', cons_lt_cons_iff, List.cons.injEq]
      tauto

lemma cons_le_cons_iff_lt_or (c d : α) (x y : List α) : c :: x ≤ d :: y ↔ c < d ∨ c = d ∧ x ≤ y := by
  rw [← not_lt, ← not_lt, cons_lt_cons_iff, eq_comm (a := d)]
  rcases lt_trichotomy c d with h | rfl | h
  · simp [h, h.not_gt, h.ne]
  · simp
  · simp [h, h.not_gt, h.ne']

lemma append_left_lt_iff (s x y : List α) : s ++ x < s ++ y ↔ x < y := by
  rw [append_lt_append_iff rfl]
  simp

lemma append_left_le_iff (s x y : List α) : s ++ x ≤ s ++ y ↔ x ≤ y := by
  rw [← not_lt, ← not_lt, append_left_lt_iff]

omit [LinearOrder α] in
lemma append_isPrefix_append_iff {a b : List α} (hlen : a.length = b.length)
    (x y : List α) : a ++ x <+: b ++ y ↔ a = b ∧ x <+: y := by
  constructor
  · rintro ⟨t, ht⟩
    rw [append_assoc] at ht
    obtain ⟨hab, hxy⟩ := append_inj ht hlen
    exact ⟨hab, t, hxy⟩
  · rintro ⟨rfl, hxy⟩
    exact (prefix_append_right_inj a).mpr hxy

/-- A prefix compares at most as large as its extension. -/
theorem le_of_isPrefix {p k : List α} (h : p <+: k) : p ≤ k := by
  obtain ⟨t, rfl⟩ := h
  have ht : ([] : List α) ≤ t := by
    rw [← not_lt]
    exact not_lt_nil t
  simpa using (append_left_le_iff p [] t).mpr ht

/-- A proper extension compares strictly larger. -/
theorem lt_append_of_ne_nil (p : List α) {t : List α} (ht : t ≠ []) : p < p ++ t := by
  have hnil : ([] : List α) < t := by
    cases t with
    | nil => exact absurd rfl ht
    | cons c t => exact nil_lt_cons c t
  simpa using (append_left_lt_iff p [] t).mpr hnil

/-- The strings that start with `p` form an interval whose least element is `p`. -/
theorem isPrefix_of_le_of_le_append {p k : List α} (t : List α) (hle : p ≤ k) (hlt : k ≤ p ++ t) : p <+: k := by
  induction p generalizing k with
  | nil => exact nil_prefix
  | cons c p ih =>
    cases k with
    | nil => exact absurd hle (by simp)
    | cons d k =>
      rw [cons_le_cons_iff_lt_or] at hle
      rw [cons_append, cons_le_cons_iff_lt_or] at hlt
      rcases hle with hcd | ⟨rfl, hpk⟩
      · rcases hlt with hdc | ⟨rfl, -⟩
        · exact absurd (hcd.trans hdc) (lt_irrefl c)
        · exact absurd hcd (lt_irrefl _)
      · rcases hlt with hcc | ⟨-, hkt⟩
        · exact absurd hcc (lt_irrefl c)
        · exact (prefix_cons_inj c).mpr (ih hpk hkt)

/-- Once the order has left the strings that start with `p`, it never returns. -/
theorem not_isPrefix_of_lt {p k k' : List α} (hle : p ≤ k) (hk : ¬ p <+: k) (hlt : k < k') : ¬ p <+: k' := by
  rintro ⟨t, rfl⟩
  exact hk (isPrefix_of_le_of_le_append t hle hlt.le)

/-- Comparing two concatenations: the leading parts decide unless one is a prefix of
the other, and then what follows the shorter one does. -/
theorem append_lt_append_cases (a b x y : List α) : a ++ x < b ++ y ↔
      if a <+: b then x < b.drop a.length ++ y
      else if b <+: a then a.drop b.length ++ x < y
      else a < b := by
  induction a generalizing b with
  | nil => simp
  | cons c a ih =>
    cases b with
    | nil => simp
    | cons d b =>
      rw [cons_append, cons_append, cons_lt_cons_iff, ih b, cons_lt_cons_iff]
      by_cases hcd : c = d
      · subst hcd
        simp
      · simp [cons_prefix_cons, hcd, Ne.symm hcd]

end Lexicographic

/-! ### Big-endian words -/

/-- The `width` low bytes of `n`, most significant first. -/
def wordBytes : Nat → Nat → Bytes
  | 0, _ => []
  | width + 1, n => UInt8.ofNat (n / 256 ^ width) :: wordBytes width n

/-- The number a byte string spells, most significant byte first. -/
def wordValue (bytes : Bytes) : Nat :=
  bytes.foldl (fun value byte => value * 256 + byte.toNat) 0

@[simp] lemma length_wordBytes (width n : Nat) : (wordBytes width n).length = width := by
  induction width with
  | zero => rfl
  | succ width ih => simp [wordBytes, ih]

lemma foldl_word_eq (bytes : Bytes) (acc : Nat) :
    bytes.foldl (fun value byte => value * 256 + byte.toNat) acc = acc * 256 ^ bytes.length + wordValue bytes := by
  induction bytes generalizing acc with
  | nil => simp [wordValue]
  | cons byte rest ih =>
    rw [wordValue, foldl_cons, foldl_cons, ih, ih, length_cons, pow_succ]
    ring

@[simp] lemma wordValue_nil : wordValue [] = 0 := rfl

lemma wordValue_cons (byte : UInt8) (rest : Bytes) :
    wordValue (byte :: rest) = byte.toNat * 256 ^ rest.length + wordValue rest := by
  rw [wordValue, foldl_cons, foldl_word_eq]
  simp

lemma wordValue_lt (bytes : Bytes) : wordValue bytes < 256 ^ bytes.length := by
  induction bytes with
  | nil => simp
  | cons byte rest ih =>
    have hbyte : byte.toNat < 256 := byte.toNat_lt
    rw [wordValue_cons, length_cons, pow_succ]
    calc
      byte.toNat * 256 ^ rest.length + wordValue rest
          < byte.toNat * 256 ^ rest.length + 256 ^ rest.length := by omega
      _ = (byte.toNat + 1) * 256 ^ rest.length := by ring
      _ ≤ 256 * 256 ^ rest.length := Nat.mul_le_mul_right _ hbyte
      _ = 256 ^ rest.length * 256 := by ring

lemma wordValue_wordBytes_mod (width n : Nat) : wordValue (wordBytes width n) = n % 256 ^ width := by
  induction width with
  | zero => simp [wordBytes, Nat.mod_one]
  | succ width ih =>
    have hbyte : (UInt8.ofNat (n / 256 ^ width)).toNat = n / 256 ^ width % 256 := UInt8.toNat_ofNat'
    rw [wordBytes, wordValue_cons, ih, length_wordBytes, hbyte, pow_succ, Nat.mod_mul, Nat.mul_comm (256 ^ width)]
    exact Nat.add_comm _ _

/-- A word that fits its width is read back. -/
theorem wordValue_wordBytes {width n : Nat} (hn : n < 256 ^ width) : wordValue (wordBytes width n) = n := by
  rw [wordValue_wordBytes_mod, Nat.mod_eq_of_lt hn]

lemma wordBytes_injective {width m n : Nat} (hm : m < 256 ^ width) (hn : n < 256 ^ width)
    (h : wordBytes width m = wordBytes width n) : m = n := by
  rw [← wordValue_wordBytes hm, ← wordValue_wordBytes hn, h]

/-- Strings of one length are ordered as the numbers they spell. -/
theorem lt_iff_wordValue_lt {a b : Bytes} (hlen : a.length = b.length) : a < b ↔ wordValue a < wordValue b := by
  induction a generalizing b with
  | nil =>
    cases b with
    | nil => simp
    | cons d b => simp at hlen
  | cons c a ih =>
    cases b with
    | nil => simp at hlen
    | cons d b =>
      have hlen' : a.length = b.length := by simpa using hlen
      have ha := wordValue_lt a
      have hb := wordValue_lt b
      rw [cons_lt_cons_iff, ih hlen', wordValue_cons, wordValue_cons, hlen', UInt8.lt_iff_toNat_lt,
        ← UInt8.toNat_inj]
      rw [hlen'] at ha
      generalize 256 ^ b.length = unit at ha hb ⊢
      constructor
      · rintro (hcd | ⟨hcd, hab⟩)
        · calc
            c.toNat * unit + wordValue a < c.toNat * unit + unit := by omega
            _ = (c.toNat + 1) * unit := by ring
            _ ≤ d.toNat * unit := Nat.mul_le_mul_right _ hcd
            _ ≤ d.toNat * unit + wordValue b := Nat.le_add_right _ _
        · rw [hcd]
          omega
      · intro hlt
        rcases lt_trichotomy c.toNat d.toNat with hcd | hcd | hcd
        · exact Or.inl hcd
        · rw [hcd] at hlt
          exact Or.inr ⟨hcd, by omega⟩
        · have hle : (d.toNat + 1) * unit ≤ c.toNat * unit := Nat.mul_le_mul_right _ hcd
          rw [Nat.add_mul] at hle
          omega

/-- Big-endian words of one width are ordered as the numbers they encode. -/
theorem wordBytes_lt_wordBytes_iff {width m n : Nat} (hm : m < 256 ^ width) (hn : n < 256 ^ width) :
    wordBytes width m < wordBytes width n ↔ m < n := by
  rw [lt_iff_wordValue_lt (by simp), wordValue_wordBytes hm, wordValue_wordBytes hn]

end Eugraph.Lib
