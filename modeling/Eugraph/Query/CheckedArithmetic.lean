import Mathlib.Data.Int.Order.Lemmas
import Mathlib.Tactic.Common
import Eugraph.Types
import Eugraph.Lib.SignedWord

/-!
# Checked integer arithmetic

The operations on integers of `query/evaluator/columnar_kernels.hpp`.  Every computation is in
64 bits and has no result where it leaves them, so that the comparisons which come before an
operation are held to the same rule as the operation itself.
-/

namespace Eugraph.Dataset

open Lib.SignedWord Int

/-- No result stands for a computation that overflows. -/
abbrev Checked := Option (Except ArithmeticError Int)

def longOverflow : Checked := some (.error ⟨"long overflow"⟩)
def divisionByZero : Checked := some (.error ⟨"/ by zero"⟩)
def exactly (n : Option Int) : Checked := n.map .ok

def int64Max : Int := 2 ^ 63 - 1
def int64Min : Int := -2 ^ 63

/-- `p && q`, where `q` is only computed when `p` holds. -/
def andAlso (p : Prop) [Decidable p] (q : Option Bool) : Option Bool := if p then q else some false

/-- `a < b` for computed operands. -/
def less (a b : Option Int) : Option Bool := do
  let x ← a
  let y ← b
  return decide (x < y)

/-- What is raised when a test holds, and what is done otherwise. -/
def raiseIf (test : Option Bool) (rest : Checked) : Checked := do
  let raised ← test
  if raised then longOverflow else rest

/-- Division of the language, which truncates. -/
def quotient (a b : Int) : Option Int := if b = 0 then none else int64 (a.tdiv b)

/-- The remainder has no result where the quotient has none. -/
def remainder (a b : Int) : Option Int := (quotient a b).map fun _ => a.tmod b

def checkedAdd (lhs rhs : Int64) : Checked :=
  let l := lhs.toInt
  let r := rhs.toInt
  raiseIf (andAlso (0 < r) (less (int64 (int64Max - r)) l)) <|
    raiseIf (andAlso (r < 0) (less l (int64 (int64Min - r)))) <|
      exactly (int64 (l + r))

def checkedSub (lhs rhs : Int64) : Checked :=
  let l := lhs.toInt
  let r := rhs.toInt
  raiseIf (andAlso (r < 0) (less (int64 (int64Max + r)) l)) <|
    raiseIf (andAlso (0 < r) (less l (int64 (int64Min + r)))) <|
      exactly (int64 (l - r))

def checkedMul (lhs rhs : Int64) : Checked :=
  let l := lhs.toInt
  let r := rhs.toInt
  if l = 0 ∨ r = 0 then exactly (some 0)
  else if l = -1 then if r = int64Min then longOverflow else exactly (int64 (-r))
  else if r = -1 then if l = int64Min then longOverflow else exactly (int64 (-l))
  else
    let beyond :=
      if 0 < l then
        if 0 < r then less (quotient int64Max r) l else less r (quotient int64Min l)
      else if 0 < r then less l (quotient int64Min r)
      else less l (quotient int64Max r)
    raiseIf beyond (exactly (int64 (l * r)))

def checkedNegate (v : Int64) : Checked :=
  if v.toInt = int64Min then longOverflow else exactly (int64 (-v.toInt))

/-- The smallest integer divided by `-1` is itself, as in neo4j. -/
def checkedDivide (lhs rhs : Int64) : Checked :=
  if rhs.toInt = 0 then divisionByZero
  else if lhs.toInt = int64Min ∧ rhs.toInt = -1 then exactly (some lhs.toInt)
  else exactly (quotient lhs.toInt rhs.toInt)

def checkedModulo (lhs rhs : Int64) : Checked :=
  if rhs.toInt = 0 then divisionByZero
  else if rhs.toInt = -1 then exactly (some 0)
  else exactly (remainder lhs.toInt rhs.toInt)

/-! ### What the tests find -/

/-- The exact result, or the error where it is no word. -/
def exactOrOverflow (n : Int) : Checked := if InRange n then some (.ok n) else longOverflow

/-- A test that is computed and holds where the result is no word. -/
theorem raiseIf_of_test {test : Option Bool} {n : Int} {raised : Bool} (htest : test = some raised)
    (hraised : raised = true ↔ ¬InRange n) : raiseIf test (exactly (int64 n)) = exactOrOverflow n := by
  rw [raiseIf, htest, exactOrOverflow, int64]
  cases raised with
  | true => exact (if_neg (hraised.mp rfl)).symm
  | false =>
    have hfits : InRange n := by
      by_contra hnot
      cases hraised.mpr hnot
    rw [if_pos hfits, if_pos hfits]
    rfl

lemma checkedAdd_eq (lhs rhs : Int64) : checkedAdd lhs rhs = exactOrOverflow (lhs.toInt + rhs.toInt) := by
  obtain ⟨hl₀, hl₁⟩ := inRange_toInt lhs
  obtain ⟨hr₀, hr₁⟩ := inRange_toInt rhs
  simp only [checkedAdd, int64Max, int64Min]
  generalize lhs.toInt = l at *
  generalize rhs.toInt = r at *
  rcases lt_trichotomy r 0 with hr | hr | hr
  · -- only the lower bound can be crossed
    rw [andAlso, if_neg (by omega), andAlso, if_pos hr, int64_eq (by omega) (by omega)]
    apply raiseIf_of_test rfl
    simp only [InRange, decide_eq_true_eq]
    omega
  · rw [andAlso, if_neg (by omega), andAlso, if_neg (by omega)]
    apply raiseIf_of_test rfl
    simp only [InRange, Bool.false_eq_true, false_iff]
    omega
  · rw [andAlso, if_pos hr, andAlso, if_neg (by omega), int64_eq (n := 2 ^ 63 - 1 - r) (by omega) (by omega)]
    apply raiseIf_of_test rfl
    simp only [InRange, decide_eq_true_eq]
    omega

lemma checkedSub_eq (lhs rhs : Int64) : checkedSub lhs rhs = exactOrOverflow (lhs.toInt - rhs.toInt) := by
  obtain ⟨hl₀, hl₁⟩ := inRange_toInt lhs
  obtain ⟨hr₀, hr₁⟩ := inRange_toInt rhs
  simp only [checkedSub, int64Max, int64Min]
  generalize lhs.toInt = l at *
  generalize rhs.toInt = r at *
  rcases lt_trichotomy r 0 with hr | hr | hr
  · rw [andAlso, if_pos hr, andAlso, if_neg (by omega), int64_eq (n := 2 ^ 63 - 1 + r) (by omega) (by omega)]
    apply raiseIf_of_test rfl
    simp only [InRange, decide_eq_true_eq]
    omega
  · rw [andAlso, if_neg (by omega), andAlso, if_neg (by omega)]
    apply raiseIf_of_test rfl
    simp only [InRange, Bool.false_eq_true, false_iff]
    omega
  · rw [andAlso, if_neg (by omega), andAlso, if_pos hr, int64_eq (n := -2 ^ 63 + r) (by omega) (by omega)]
    apply raiseIf_of_test rfl
    simp only [InRange, decide_eq_true_eq]
    omega

variable {b : Int}

/-- The bound over a factor is below the other factor where the product is above the bound. -/
theorem div_lt_iff {m a : Int} (hb : 0 < b) : m / b < a ↔ m < a * b := Int.ediv_lt_iff_lt_mul hb

lemma quotient_eq {a : Int} (hb : b ≠ 0) (hbefore : -2 ^ 63 ≤ a.tdiv b) (hafter : a.tdiv b < 2 ^ 63) :
    quotient a b = some (a.tdiv b) := by
  rw [quotient, if_neg hb, int64_eq hbefore hafter]

/-- Truncated division by a positive number does not leave the word. -/
theorem quotient_of_pos {a : Int} (ha : InRange a) (hb : 0 < b) : quotient a b = some (a.tdiv b) := by
  obtain ⟨ha₀, ha₁⟩ := ha
  rcases le_total 0 a with hsign | hsign
  · have hle : a / b ≤ a := ediv_le_self b hsign
    have hnonneg : 0 ≤ a / b := ediv_nonneg hsign hb.le
    refine quotient_eq hb.ne' ?_ ?_ <;> rw [tdiv_eq_ediv_of_nonneg hsign] <;> omega
  · have hflip : a.tdiv b = -(-a / b) := by
      rw [← tdiv_eq_ediv_of_nonneg (by omega), Int.neg_tdiv, Int.neg_neg]
    have hle : -a / b ≤ -a := ediv_le_self b (by omega)
    have hnonneg : 0 ≤ -a / b := ediv_nonneg (by omega) hb.le
    refine quotient_eq hb.ne' ?_ ?_ <;> rw [hflip] <;> omega

/-- The largest integer over a negative number, which truncates towards zero. -/
theorem quotient_max_of_neg (hb : b < 0) : quotient int64Max b = some (-(int64Max / -b)) := by
  have hflip : int64Max.tdiv b = -(int64Max / -b) := by
    rw [← tdiv_eq_ediv_of_nonneg (by decide), Int.tdiv_neg, Int.neg_neg]
  have hle : int64Max / -b ≤ int64Max := ediv_le_self _ (by decide)
  have hnonneg : 0 ≤ int64Max / -b := ediv_nonneg (by decide) (by omega)
  rw [quotient_eq hb.ne] <;> rw [hflip] <;> simp only [int64Max] at * <;> omega

lemma quotient_min (hb : 0 < b) : quotient int64Min b = some (-(2 ^ 63 / b)) := by
  rw [quotient_of_pos (by decide) hb, int64Min, Int.neg_tdiv, tdiv_eq_ediv_of_nonneg (by omega)]

/-- Only the smallest integer has no opposite. -/
theorem opposite_eq {n : Int} (hn : InRange n) :
    (if n = int64Min then longOverflow else exactly (int64 (-n))) = exactOrOverflow (-n) := by
  obtain ⟨hn₀, hn₁⟩ := hn
  rw [exactOrOverflow]
  by_cases hmin : n = int64Min
  · rw [if_pos hmin, if_neg]
    simp only [InRange, hmin, int64Min]
    omega
  · rw [if_neg hmin]
    rw [int64Min] at hmin
    rw [if_pos ⟨by omega, by omega⟩, int64_eq (by omega) (by omega)]
    rfl

lemma checkedMul_eq (lhs rhs : Int64) : checkedMul lhs rhs = exactOrOverflow (lhs.toInt * rhs.toInt) := by
  obtain ⟨hl₀, hl₁⟩ := inRange_toInt lhs
  obtain ⟨hr₀, hr₁⟩ := inRange_toInt rhs
  simp only [checkedMul]
  generalize lhs.toInt = l at *
  generalize rhs.toInt = r at *
  -- the product with zero, and with `-1`, where only the smallest integer has no opposite
  by_cases hzero : l = 0 ∨ r = 0
  · have hproduct : l * r = 0 := mul_eq_zero.mpr hzero
    rw [if_pos hzero, hproduct]
    rfl
  rw [if_neg hzero]
  by_cases hl : l = -1
  · rw [if_pos hl, hl, neg_one_mul]
    exact opposite_eq ⟨hr₀, hr₁⟩
  rw [if_neg hl]
  by_cases hr : r = -1
  · rw [if_pos hr, hr, mul_neg_one]
    exact opposite_eq ⟨hl₀, hl₁⟩
  rw [if_neg hr]
  rw [not_or] at hzero
  -- a factor is compared with the bound over the other one
  rcases lt_or_gt_of_ne hzero.1 with hl' | hl' <;> rcases lt_or_gt_of_ne hzero.2 with hr' | hr'
  · have hpositive : 0 ≤ l * r := mul_nonneg_of_nonpos_of_nonpos hl'.le hr'.le
    have hbeyond : int64Max / -r < -l ↔ int64Max < -l * -r := div_lt_iff (by omega)
    rw [neg_mul_neg] at hbeyond
    rw [if_neg (by omega), if_neg (by omega), quotient_max_of_neg hr']
    apply raiseIf_of_test rfl
    rw [decide_eq_true_iff]
    simp only [InRange, int64Max] at *
    omega
  · have hnegative : l * r ≤ 0 := mul_nonpos_of_nonpos_of_nonneg hl'.le hr'.le
    have hbeyond : 2 ^ 63 / r < -l ↔ 2 ^ 63 < -l * r := div_lt_iff hr'
    rw [neg_mul] at hbeyond
    rw [if_neg (by omega), if_pos hr', quotient_min hr']
    apply raiseIf_of_test rfl
    simp only [InRange, decide_eq_true_eq] at *
    omega
  · have hnegative : l * r ≤ 0 := mul_nonpos_of_nonneg_of_nonpos hl'.le hr'.le
    have hbeyond : 2 ^ 63 / l < -r ↔ 2 ^ 63 < -r * l := div_lt_iff hl'
    rw [neg_mul, mul_comm r] at hbeyond
    rw [if_pos hl', if_neg (by omega), quotient_min hl']
    apply raiseIf_of_test rfl
    simp only [InRange, decide_eq_true_eq] at *
    omega
  · have hpositive : 0 ≤ l * r := mul_nonneg hl'.le hr'.le
    have hbeyond : int64Max / r < l ↔ int64Max < l * r := div_lt_iff hr'
    rw [if_pos hl', if_pos hr', quotient_of_pos (by decide) hr', tdiv_eq_ediv_of_nonneg (by decide)]
    apply raiseIf_of_test rfl
    rw [decide_eq_true_iff]
    simp only [InRange, int64Max] at *
    omega

lemma checkedNegate_eq (v : Int64) : checkedNegate v = exactOrOverflow (-v.toInt) := opposite_eq (inRange_toInt v)

lemma tdiv_neg_neg (a b : Int) : (-a).tdiv (-b) = a.tdiv b := by
  rw [Int.tdiv_neg, Int.neg_tdiv, Int.neg_neg]

/-- A quotient of words leaves them for the smallest one over `-1` alone. -/
theorem quotient_word (lhs rhs : Int64) (hrhs : rhs.toInt ≠ 0) (h : ¬(lhs.toInt = int64Min ∧ rhs.toInt = -1)) :
    quotient lhs.toInt rhs.toInt = some (lhs.toInt.tdiv rhs.toInt) := by
  have hl := inRange_toInt lhs
  generalize lhs.toInt = l at *
  generalize rhs.toInt = r at *
  rcases lt_or_gt_of_ne hrhs with hr | hr
  · -- the quotient by a negative number is that of the opposites
    obtain ⟨hl₀, hl₁⟩ := hl
    by_cases hmin : l = int64Min
    · have hsmall : r ≠ -1 := fun hr => h ⟨hmin, hr⟩
      have hvalue : l.tdiv r = 2 ^ 63 / -r := by
        rw [hmin, int64Min, ← tdiv_neg_neg, neg_neg, tdiv_eq_ediv_of_nonneg (by omega)]
      have hnonneg : 0 ≤ (2 ^ 63 : Int) / -r := ediv_nonneg (by omega) (by omega)
      have hhalf : (2 ^ 63 : Int) / -r < 2 ^ 63 := (div_lt_iff (by omega)).mpr (by omega)
      exact quotient_eq hrhs (by omega) (by omega)
    · have hflip : l.tdiv r = (-l).tdiv (-r) := (tdiv_neg_neg l r).symm
      have hopposite := quotient_of_pos (a := -l) (b := -r) ⟨by simp only [int64Min] at hmin; omega, by
        simp only [int64Min] at hmin; omega⟩ (by omega)
      rw [quotient, if_neg (by omega), ← hflip] at hopposite
      rw [quotient, if_neg hrhs, hopposite]
  · exact quotient_of_pos hl hr

/-- The checked operations give the exact result where it is a word and raise an error where it
is not or where the divisor is zero; nothing on the way overflows. -/
theorem checkedArithmetic_exact (lhs rhs : Int64) : (checkedAdd lhs rhs = exactOrOverflow (lhs.toInt + rhs.toInt) ∧
      checkedSub lhs rhs = exactOrOverflow (lhs.toInt - rhs.toInt) ∧
      checkedMul lhs rhs = exactOrOverflow (lhs.toInt * rhs.toInt) ∧
      checkedNegate lhs = exactOrOverflow (-lhs.toInt)) ∧
    checkedDivide lhs rhs =
      (if rhs.toInt = 0 then divisionByZero
      else if lhs.toInt = int64Min ∧ rhs.toInt = -1 then some (.ok int64Min)
      else some (.ok (lhs.toInt.tdiv rhs.toInt))) ∧
    checkedModulo lhs rhs =
      (if rhs.toInt = 0 then divisionByZero else some (.ok (lhs.toInt.tmod rhs.toInt))) := by
  refine ⟨⟨checkedAdd_eq lhs rhs, checkedSub_eq lhs rhs, checkedMul_eq lhs rhs, checkedNegate_eq lhs⟩, ?_, ?_⟩
  · rw [checkedDivide]
    split
    next => rfl
    next hrhs =>
      split
      next hwrapped =>
        rw [hwrapped.1]
        rfl
      next hword =>
        rw [quotient_word lhs rhs hrhs hword]
        rfl
  · rw [checkedModulo]
    split
    next => rfl
    next hrhs =>
      split
      next hminusOne =>
        rw [hminusOne, tmod_neg, tmod_one]
        rfl
      next hother =>
        rw [remainder, quotient_word lhs rhs hrhs fun h => hother h.2]
        rfl

end Eugraph.Dataset
