import Mathlib.Algebra.BigOperators.Group.List.Basic
import Mathlib.Algebra.Ring.Int.Defs

/-!
# Signed 64-bit words and integers

Addition of words wraps: what it gives is the exact result reduced to a word.  A reduced
integer is unchanged exactly when it is in the range of a word, and only the last reduction
of a sum matters.
-/

namespace Eugraph.Lib.SignedWord

/-- The integers that are words. -/
def InRange (n : Int) : Prop := -2 ^ 63 ≤ n ∧ n < 2 ^ 63

instance (n : Int) : Decidable (InRange n) := inferInstanceAs (Decidable (_ ∧ _))

lemma inRange_toInt (w : Int64) : InRange w.toInt := ⟨w.le_toInt, w.toInt_lt⟩

lemma toInt_ofInt_iff (n : Int) : (Int64.ofInt n).toInt = n ↔ InRange n := by
  constructor
  · intro h
    rw [← h]
    exact inRange_toInt _
  · rintro ⟨hlow, hhigh⟩
    exact Int64.toInt_ofInt_of_le hlow hhigh

lemma ofInt_add_word (n : Int) (w : Int64) : Int64.ofInt n + w = Int64.ofInt (n + w.toInt) := by
  rw [Int64.ofInt_add, Int64.ofInt_toInt]

variable {n : Int}

/-- One period above the range the reduction subtracts the period. -/
theorem toInt_ofInt_above (hlow : 2 ^ 63 ≤ n) (hhigh : n < 2 ^ 63 + 2 ^ 63) :
    (Int64.ofInt n).toInt = n - 2 ^ 64 := by
  have hperiod : (Int64.size : Int) = 2 ^ 64 := rfl
  rw [Int64.toInt_ofInt, ← Int.sub_bmod_right, hperiod]
  exact Int.bmod_eq_of_le (by omega) (by omega)

/-- One period below it adds the period. -/
theorem toInt_ofInt_below (hlow : -2 ^ 63 - 2 ^ 63 ≤ n) (hhigh : n < -2 ^ 63) :
    (Int64.ofInt n).toInt = n + 2 ^ 64 := by
  have hperiod : (Int64.size : Int) = 2 ^ 64 := rfl
  rw [Int64.toInt_ofInt, ← Int.add_bmod_right, hperiod]
  exact Int.bmod_eq_of_le (by omega) (by omega)

/-- A computation whose result leaves the range has none. -/
def int64 (n : Int) : Option Int := if InRange n then some n else none

lemma int64_eq (hlow : -2 ^ 63 ≤ n) (hhigh : n < 2 ^ 63) : int64 n = some n := if_pos ⟨hlow, hhigh⟩

lemma int64_eq_none (h : ¬InRange n) : int64 n = none := if_neg h

/-- The same for 128 bits. -/
def int128 (n : Int) : Option Int := if -2 ^ 127 ≤ n ∧ n < 2 ^ 127 then some n else none

lemma int128_eq (hlow : -2 ^ 127 ≤ n) (hhigh : n < 2 ^ 127) : int128 n = some n := if_pos ⟨hlow, hhigh⟩

/-- The exact sum of words. -/
def total (ws : List Int64) : Int := (ws.map Int64.toInt).sum

/-- Adding up words gives the reduced total. -/
theorem foldl_add (ws : List Int64) (n : Int) : ws.foldl (· + ·) (Int64.ofInt n) = Int64.ofInt (n + total ws) := by
  induction ws generalizing n with
  | nil => simp [total]
  | cons w rest ih =>
    rw [List.foldl_cons, ofInt_add_word, ih]
    simp only [total, List.map_cons, List.sum_cons]
    congr 1
    omega

/-- The order does not matter. -/
theorem total_perm {ws ws' : List Int64} (h : ws.Perm ws') : total ws = total ws' := (h.map Int64.toInt).sum_eq

end Eugraph.Lib.SignedWord
