import Mathlib.Data.Nat.Bitwise
import Eugraph.Types

/-!
# `IndexKeyCodec`

Sortable byte encodings of index keys (`storage/kv/index_key_codec.cpp`): a tag
byte, the value, and for a stored key the entity id as the last eight bytes.
Every fixed-width value is self-delimiting; a string is written raw, with neither
length nor terminator, and every value that is not indexable becomes one byte.
-/

namespace Eugraph.IndexKeyCodec

open Lib DoubleBits

/-- Eight big-endian bytes of a 64-bit word. -/
def u64BE (v : UInt64) : Bytes := wordBytes 8 v.toNat

/-- The sign bit of a 64-bit word. -/
def signBit : UInt64 := 0x8000000000000000

/-- The order-preserving image of a double's bit pattern. -/
def sortableDouble (bits : DoubleBits) : UInt64 :=
  if bits &&& signBit ≠ 0 then ~~~bits else bits ^^^ signBit

def encodeSortableValue : PropertyValue → Bytes
  | .null => [0x00]
  | .bool b => [0x01, if b then 1 else 0]
  | .int64 i => 0x02 :: u64BE (i.toUInt64 ^^^ signBit)
  | .double bits => 0x03 :: u64BE (sortableDouble bits)
  | .string s => 0x04 :: s
  | _ => [0xFE]

def encodeSortableValues (values : List PropertyValue) : Bytes :=
  values.flatMap encodeSortableValue

/-- Index key of a value tuple and its entity. -/
def encodeIndexKey (values : List PropertyValue) (entityId : UInt64) : Bytes :=
  encodeSortableValues values ++ u64BE entityId

def encodeEqualityPrefix (values : List PropertyValue) : Bytes := encodeSortableValues values

/-- The last eight bytes of a key, as a number. -/
def decodeEntityId (key : Bytes) : UInt64 :=
  if key.length < 8 then 0 else UInt64.ofNat (wordValue (key.drop (key.length - 8)))

/-! ### Fixed-width parts -/

@[simp] lemma length_u64BE (v : UInt64) : (u64BE v).length = 8 := by simp [u64BE]

lemma toNat_lt_word (v : UInt64) : v.toNat < 256 ^ 8 := by
  have h := v.toNat_lt
  norm_num at h ⊢
  exact h

@[simp] lemma u64BE_inj {a b : UInt64} : u64BE a = u64BE b ↔ a = b := by
  constructor
  · intro h
    exact UInt64.toNat_inj.mp (wordBytes_injective (toNat_lt_word a) (toNat_lt_word b) h)
  · rintro rfl
    rfl

lemma u64BE_lt_iff {a b : UInt64} : u64BE a < u64BE b ↔ a.toNat < b.toNat :=
  wordBytes_lt_wordBytes_iff (toNat_lt_word a) (toNat_lt_word b)

lemma decodeEntityId_append (pre : Bytes) (id : UInt64) : decodeEntityId (pre ++ u64BE id) = id := by
  have hlen : (pre ++ u64BE id).length = pre.length + 8 := by simp
  rw [decodeEntityId, if_neg (by omega), hlen, Nat.add_sub_cancel, List.drop_left]
  rw [u64BE, wordValue_wordBytes (toNat_lt_word id), UInt64.ofNat_toNat]

@[simp] lemma decodeEntityId_encodeIndexKey (values : List PropertyValue) (id : UInt64) :
    decodeEntityId (encodeIndexKey values id) = id :=
  decodeEntityId_append _ id

@[simp] lemma encodeSortableValues_nil : encodeSortableValues [] = [] := rfl

@[simp] lemma encodeSortableValues_cons (v : PropertyValue) (vs : List PropertyValue) :
    encodeSortableValues (v :: vs) = encodeSortableValue v ++ encodeSortableValues vs := by
  simp [encodeSortableValues]

lemma encodeSortableValue_ne_nil (v : PropertyValue) : encodeSortableValue v ≠ [] := by
  cases v <;> simp [encodeSortableValue]

/-! ### The two numeric embeddings -/

/-- Flipping the sign bit is adding half the range. -/
theorem toNat_xor_signBit (a : UInt64) : (a ^^^ signBit).toNat = (a.toNat + 2 ^ 63) % 2 ^ 64 := by
  have ha := a.toNat_lt
  have hsign : signBit.toNat = 2 ^ 63 := rfl
  have hhigh := Nat.xor_div_two_pow (a := a.toNat) (b := 2 ^ 63) (n := 63)
  have hlow := Nat.xor_mod_two_pow (a := a.toNat) (b := 2 ^ 63) (n := 63)
  have hbit : a.toNat / 2 ^ 63 = 0 ∨ a.toNat / 2 ^ 63 = 1 := by omega
  rw [Nat.mod_self, Nat.xor_zero] at hlow
  rw [UInt64.toNat_xor, hsign]
  rcases hbit with hbit | hbit
  · rw [hbit, Nat.div_self (by norm_num), Nat.zero_xor] at hhigh
    omega
  · rw [hbit, Nat.div_self (by norm_num), Nat.xor_self] at hhigh
    omega

lemma and_signBit_ne_zero (a : UInt64) : a &&& signBit ≠ 0 ↔ 2 ^ 63 ≤ a.toNat := by
  have ha := a.toNat_lt
  have hsign : signBit.toNat = 2 ^ 63 := rfl
  have hzero : (0 : UInt64).toNat = 0 := rfl
  have hbit : a.toNat.testBit 63 = true ↔ 2 ^ 63 ≤ a.toNat := by
    rw [Nat.testBit_eq_decide_div_mod_eq, decide_eq_true_iff]
    omega
  rw [Ne, ← UInt64.toNat_inj, UInt64.toNat_and, hsign, hzero, Nat.and_two_pow, ← hbit]
  cases a.toNat.testBit 63 <;> simp

/-- The word written for an `int64`, as a number. -/
theorem toNat_sortableInt64 (i : Int64) : ((i.toUInt64 ^^^ signBit).toNat : Int) = i.toInt + 2 ^ 63 := by
  have hlt := Int64.toInt_lt i
  have hle := Int64.le_toInt i
  have hword := i.toUInt64.toNat_lt
  have hmod : i.toInt = (i.toUInt64.toNat : Int).bmod (2 ^ 64) := BitVec.toInt_eq_toNat_bmod i.toUInt64.toBitVec
  rw [toNat_xor_signBit]
  rw [Int.bmod_def] at hmod
  split at hmod <;> omega

/-- The word written for a double: negative patterns are mirrored, so `-0.0` comes
directly below `+0.0`. -/
theorem toNat_sortableDouble (bits : DoubleBits) : ((sortableDouble bits).toNat : Int) =
      2 ^ 63 + if negative bits then -(magnitude bits : Int) - 1
        else magnitude bits := by
  have hlt := bits.toNat_lt
  unfold sortableDouble negative magnitude
  by_cases hneg : 2 ^ 63 ≤ bits.toNat
  · have hnot : (~~~bits).toNat = 2 ^ 64 - 1 - bits.toNat := by
      rw [UInt64.toNat_not]
      rfl
    rw [if_pos ((and_signBit_ne_zero bits).mpr hneg), hnot]
    simp only [hneg, decide_true, if_true]
    omega
  · rw [if_neg (fun h => hneg ((and_signBit_ne_zero bits).mp h)), toNat_xor_signBit]
    simp only [hneg, decide_false, Bool.false_eq_true, if_false]
    omega

lemma sortableDouble_inj {a b : DoubleBits} : sortableDouble a = sortableDouble b ↔ a = b := by
  constructor
  · intro h
    have ha := toNat_sortableDouble a
    have hb := toNat_sortableDouble b
    have halt := a.toNat_lt
    have hblt := b.toNat_lt
    rw [h] at ha
    rw [← UInt64.toNat_inj]
    simp only [negative, magnitude, decide_eq_true_eq] at ha hb
    split at ha <;> split at hb <;> omega
  · rintro rfl
    rfl

/-! ### When two values have the same bytes -/

/-- The alternatives with an encoding of their own; all others are written as `0xFE`. -/
def indexable : PropertyValue → Bool
  | .null | .bool _ | .int64 _ | .double _ | .string _ => true
  | _ => false

/-- The values the encoding cannot tell apart. -/
def writtenAlike (a b : PropertyValue) : Bool := a = b || (!indexable a && !indexable b)

/-- The first byte of an encoding. -/
def tag : PropertyValue → UInt8
  | .null => 0x00
  | .bool _ => 0x01
  | .int64 _ => 0x02
  | .double _ => 0x03
  | .string _ => 0x04
  | _ => 0xFE

lemma encodeSortableValue_eq_cons (v : PropertyValue) : ∃ body, encodeSortableValue v = tag v :: body := by
  cases v <;> exact ⟨_, rfl⟩

/-- The width of an encoding is fixed by its tag, strings apart. -/
def tagWidth (t : UInt8) : Nat := if t = 0x01 then 2 else if t = 0x02 ∨ t = 0x03 then 9 else 1

lemma length_encodeSortableValue (v : PropertyValue) (hv : tag v ≠ 0x04) :
    (encodeSortableValue v).length = tagWidth (tag v) := by
  cases v <;> first | rfl | exact absurd rfl hv

lemma eq_string_of_tag {v : PropertyValue} (hv : tag v = 0x04) : ∃ s, v = .string s := by
  cases v with
  | string s => exact ⟨s, rfl⟩
  | _ => simp [tag] at hv

lemma encodeSortableValue_inj {a b : PropertyValue} :
    encodeSortableValue a = encodeSortableValue b ↔ writtenAlike a b = true := by
  unfold writtenAlike
  cases a <;> cases b <;>
    simp [encodeSortableValue, indexable, sortableDouble_inj] <;>
    (rename_i x y; cases x <;> cases y <;> simp)

lemma length_encodeSortableValue_eq {a b : PropertyValue} (htag : tag a = tag b)
    (hstring : tag a ≠ 0x04 ∨ tag b ≠ 0x04) :
    (encodeSortableValue a).length = (encodeSortableValue b).length := by
  have hb : tag b ≠ 0x04 := by
    rcases hstring with h | h
    · rwa [← htag]
    · exact h
  rw [length_encodeSortableValue a (by rwa [htag]), length_encodeSortableValue b hb, htag]

/-- Two encodings of which at least one is not a string split at the same place. -/
theorem encodeSortableValue_isPrefix_iff {a b : PropertyValue}
    (hstring : tag a ≠ 0x04 ∨ tag b ≠ 0x04) (x y : Bytes) :
    encodeSortableValue a ++ x <+: encodeSortableValue b ++ y ↔ writtenAlike a b = true ∧ x <+: y := by
  by_cases htag : tag a = tag b
  · rw [append_isPrefix_append_iff (length_encodeSortableValue_eq htag hstring), encodeSortableValue_inj]
  · obtain ⟨bodyA, hA⟩ := encodeSortableValue_eq_cons a
    obtain ⟨bodyB, hB⟩ := encodeSortableValue_eq_cons b
    have hne : ¬ writtenAlike a b = true := by
      rw [← encodeSortableValue_inj, hA, hB]
      simp [htag]
    simp [hA, hB, hne, htag]

/-! ### The order of encodings -/

/-- `a < b` of property values: by value within an alternative, by the position of
the alternative otherwise.  Values without an encoding of their own are not compared
with each other. -/
def less : PropertyValue → PropertyValue → Bool
  | .bool a, .bool b => !a && b
  | .int64 a, .int64 b => a.toInt < b.toInt
  | .double a, .double b => DoubleBits.less a b
  | .string a, .string b => a < b
  | a, b => tag a < tag b

/-- Pairs of doubles that the encoding orders although `<` does not: `-0.0` comes
before `0.0`, a negative NaN before every number and a positive one after. -/
def codedBelow (a b : PropertyValue) : Bool :=
  match a, b with
  | .double x, .double y =>
    (x.magnitude = 0 && x.negative && y.magnitude = 0 && !y.negative) ||
      (x.isNaN && x.negative) || (y.isNaN && !y.negative)
  | _, _ => false

def isNaN : PropertyValue → Bool
  | .double x => x.isNaN
  | _ => false

lemma sortableDouble_lt_iff {x y : DoubleBits} (hnan : ¬ (x.isNaN = true ∧ y.isNaN = true)) :
    (sortableDouble x).toNat < (sortableDouble y).toNat ↔
      (DoubleBits.less x y || codedBelow (.double x) (.double y)) = true := by
  have hx := toNat_sortableDouble x
  have hy := toNat_sortableDouble y
  simp only [DoubleBits.less, codedBelow, rank, DoubleBits.isNaN] at hnan ⊢
  simp only [decide_eq_true_eq, not_and, not_lt] at hnan
  by_cases hnx : x.negative = true <;> by_cases hny : y.negative = true <;>
    simp only [hnx, hny, Bool.false_eq_true, if_false, if_true] at hx hy <;>
    simp [hnx, hny] <;> omega

lemma encodeSortableValue_lt_iff {a b : PropertyValue} (hnan : ¬ (isNaN a = true ∧ isNaN b = true)) :
    encodeSortableValue a < encodeSortableValue b ↔ (less a b || codedBelow a b) = true := by
  by_cases htag : tag a = tag b
  · cases a with
    | bool x =>
      cases b with
      | bool y => cases x <;> cases y <;> decide
      | _ => simp [tag] at htag
    | int64 x =>
      cases b with
      | int64 y =>
        have hx := toNat_sortableInt64 x
        have hy := toNat_sortableInt64 y
        have hword : (x.toUInt64 ^^^ signBit).toNat < (y.toUInt64 ^^^ signBit).toNat ↔ x.toInt < y.toInt := by omega
        rw [encodeSortableValue, encodeSortableValue, List.cons_lt_cons_iff, u64BE_lt_iff, hword]
        simp [less, codedBelow]
      | _ => simp [tag] at htag
    | double x =>
      cases b with
      | double y =>
        rw [encodeSortableValue, encodeSortableValue, List.cons_lt_cons_iff, u64BE_lt_iff,
          sortableDouble_lt_iff hnan]
        simp [less]
      | _ => simp [tag] at htag
    | string s =>
      cases b with
      | string t => simp [encodeSortableValue, less, codedBelow]
      | _ => simp [tag] at htag
    | _ => cases b <;> simp [tag] at htag <;> simp [encodeSortableValue, less, codedBelow, tag]
  · obtain ⟨bodyA, hA⟩ := encodeSortableValue_eq_cons a
    obtain ⟨bodyB, hB⟩ := encodeSortableValue_eq_cons b
    rw [hA, hB, List.cons_lt_cons_iff]
    simp only [htag, false_and, or_false]
    cases a <;> cases b <;> first | exact absurd rfl htag | simp [less, codedBelow]

end Eugraph.IndexKeyCodec
