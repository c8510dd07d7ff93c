import Eugraph.Kv.IndexKeyCodec

/-!
# The order of sortable encodings

`encodeSortableValue` (`storage/kv/index_key_codec.cpp`) embeds the order of the values into
the order of byte strings.  The order of doubles is that of the numbers they stand for; the
sign of zero decides between the two zeros.
-/

namespace Eugraph

namespace DoubleBits

/-- The number of a pattern without its sign, in units of the least positive double: the
fraction, with the hidden bit and shifted where the exponent is not zero.  Infinity is placed
past the finite numbers. -/
def unitsOf (magnitude : Nat) : Nat :=
  if magnitude / 2 ^ 52 = 0 then magnitude % 2 ^ 52
  else (2 ^ 52 + magnitude % 2 ^ 52) * 2 ^ (magnitude / 2 ^ 52 - 1)

/-- The number a double stands for, in the same units. -/
def units (bits : DoubleBits) : Int :=
  if negative bits then -(unitsOf (magnitude bits) : Int) else unitsOf (magnitude bits)

/-- The next pattern stands for a larger number, also where the exponent changes. -/
theorem unitsOf_strictMono : StrictMono unitsOf := by
  apply strictMono_nat_of_lt_succ
  intro m
  by_cases hcarry : m % 2 ^ 52 + 1 < 2 ^ 52
  · have hexponent : (m + 1) / 2 ^ 52 = m / 2 ^ 52 := by omega
    have hfraction : (m + 1) % 2 ^ 52 = m % 2 ^ 52 + 1 := by omega
    rw [unitsOf, unitsOf, hexponent, hfraction]
    split
    · omega
    · exact Nat.mul_lt_mul_of_pos_right (by omega) (Nat.two_pow_pos _)
  · have hexponent : (m + 1) / 2 ^ 52 = m / 2 ^ 52 + 1 := by omega
    have hfraction : (m + 1) % 2 ^ 52 = 0 := by omega
    have hfull : m % 2 ^ 52 = 2 ^ 52 - 1 := by omega
    rw [unitsOf, unitsOf, hexponent, hfraction, hfull, if_neg (Nat.succ_ne_zero _), Nat.add_sub_cancel]
    split
    next hzero => rw [hzero]; norm_num
    next hpos =>
      obtain ⟨e, he⟩ := Nat.exists_eq_succ_of_ne_zero hpos
      rw [he, Nat.succ_sub_one, pow_succ]
      have hpower := Nat.two_pow_pos e
      omega

end DoubleBits

namespace IndexKeyCodec

/-- The words written for two doubles compare as the numbers, negative zero below zero. -/
theorem sortableDouble_order (x y : DoubleBits) :
    (sortableDouble x).toNat < (sortableDouble y).toNat ↔
      x.units < y.units ∨ x.units = y.units ∧ x.negative = true ∧ y.negative = false := by
  have hx := toNat_sortableDouble x
  have hy := toNat_sortableDouble y
  have hless := DoubleBits.unitsOf_strictMono.lt_iff_lt (a := x.magnitude) (b := y.magnitude)
  have hmore := DoubleBits.unitsOf_strictMono.lt_iff_lt (a := y.magnitude) (b := x.magnitude)
  simp only [DoubleBits.units]
  cases hnx : x.negative <;> cases hny : y.negative <;>
    simp only [hnx, hny, if_true, if_false, Bool.false_eq_true, reduceCtorEq, and_true, and_false, or_false]
      at hx hy ⊢ <;>
    omega

/-- `a` is sorted before `b`. -/
def SortsBelow : PropertyValue → PropertyValue → Prop
  | .bool a, .bool b => a = false ∧ b = true
  | .int64 a, .int64 b => a.toInt < b.toInt
  | .double a, .double b => a.units < b.units ∨ a.units = b.units ∧ a.negative = true ∧ b.negative = false
  | .string a, .string b => a < b
  | a, b => tag a < tag b

/-- The encoding is an order embedding. -/
theorem encodeSortableValue_order (a b : PropertyValue) :
    (encodeSortableValue a < encodeSortableValue b ↔ SortsBelow a b) ∧
      (encodeSortableValue a = encodeSortableValue b ↔ writtenAlike a b = true) := by
  refine ⟨?_, encodeSortableValue_inj⟩
  by_cases hdouble : ∃ x y, a = .double x ∧ b = .double y
  · obtain ⟨x, y, rfl, rfl⟩ := hdouble
    rw [encodeSortableValue, encodeSortableValue, List.cons_lt_cons_iff, u64BE_lt_iff, sortableDouble_order]
    simp [SortsBelow]
  · have hnan : ¬ (isNaN a = true ∧ isNaN b = true) := by
      rintro ⟨ha, hb⟩
      cases a <;> cases b <;> simp_all [isNaN]
    rw [encodeSortableValue_lt_iff hnan]
    cases a <;> cases b <;> simp_all [less, codedBelow, SortsBelow]

end IndexKeyCodec

end Eugraph
