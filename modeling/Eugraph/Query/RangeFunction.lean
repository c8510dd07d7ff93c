import Eugraph.Lib.SignedWord
import Eugraph.Query.RuntimeValue
import Mathlib.Data.Int.DivMod

/-!
# `range`

The list is built by a loop that advances its variable before it compares it with the end
(`function/scalar/list_functions.hpp`).  The loop has fuel here; it returns if some amount
of fuel is enough.  An addition that overflows wraps.
-/

namespace Eugraph.Dataset

open Lib List Lib.SignedWord

namespace RangeFunction

/-- The body runs while `continues` holds of the variable. -/
def countedLoop (continues : Int64 → Bool) (step : Int64) : Nat → Int64 → Option (List Int64)
  | 0, _ => none
  | fuel + 1, i =>
    if continues i then (countedLoop continues step fuel (i + step)).map (i :: ·)
    else some []

/-- The comparison of the loop of that direction. -/
def continues (end_ step : Int64) (i : Int64) : Bool :=
  if 0 < step then decide (i ≤ end_) else decide (end_ ≤ i)

def rangeImpl (fuel : Nat) (start end_ step : Int64) : Option (List Int64) :=
  countedLoop (continues end_ step) step fuel start

/-! ### The loop -/

section Loop

variable {continues : Int64 → Bool} {step : Int64}

/-- The variable after `k` rounds. -/
def variableAt (start step : Int64) (k : Nat) : Int64 := Int64.ofInt (start.toInt + k * step.toInt)

lemma variableAt_zero (start step : Int64) : variableAt start step 0 = start := by
  simp [variableAt]

lemma variableAt_succ (start step : Int64) (k : Nat) :
    variableAt start step (k + 1) = variableAt (start + step) step k := by
  have hnext : variableAt start step 1 = start + step := by
    simp [variableAt, Int64.ofInt_add]
  have hchain : ∀ n : Int, ∀ j : Nat,
      Int64.ofInt ((Int64.ofInt n).toInt + j * step.toInt) = Int64.ofInt (n + j * step.toInt) := by
    intro n j
    rw [Int64.ofInt_add, Int64.ofInt_toInt, ← Int64.ofInt_add]
  rw [← hnext, variableAt, variableAt, variableAt, hchain]
  congr 1
  push_cast
  ring

/-- The loop returns the values of the variable up to the first one it stops at. -/
theorem countedLoop_eq_some_iff (start : Int64) (elements : List Int64) :
    (∃ fuel, countedLoop continues step fuel start = some elements) ↔
      ∃ n, elements = (List.range n).map (variableAt start step) ∧
        (∀ k < n, continues (variableAt start step k) = true) ∧
        continues (variableAt start step n) = false := by
  constructor
  · rintro ⟨fuel, h⟩
    induction fuel generalizing start elements with
    | zero => cases h
    | succ fuel ih =>
      rw [countedLoop] at h
      split at h
      next hcontinues =>
        obtain ⟨rest, hrest, rfl⟩ := Option.map_eq_some_iff.mp h
        obtain ⟨n, rfl, hbefore, hstop⟩ := ih _ _ hrest
        refine ⟨n + 1, ?_, ?_, ?_⟩
        · rw [range_succ_eq_map, map_cons, map_map, variableAt_zero]
          congr 1
          exact map_congr_left fun k _ => (variableAt_succ start step k).symm
        · intro k hk
          cases k with
          | zero => rwa [variableAt_zero]
          | succ k =>
            rw [variableAt_succ]
            exact hbefore k (by omega)
        · rwa [variableAt_succ]
      next hstop =>
        obtain rfl := Option.some.inj h
        refine ⟨0, rfl, fun k hk => absurd hk (Nat.not_lt_zero k), ?_⟩
        rw [variableAt_zero]
        simpa using hstop
  · rintro ⟨n, rfl, hbefore, hstop⟩
    refine ⟨n + 1, ?_⟩
    induction n generalizing start with
    | zero =>
      rw [variableAt_zero] at hstop
      rw [countedLoop, if_neg (by simp [hstop])]
      rfl
    | succ n ih =>
      have hfirst := hbefore 0 (by omega)
      rw [variableAt_zero] at hfirst
      have hrest := ih (start + step) (by
        intro k hk
        rw [← variableAt_succ]
        exact hbefore (k + 1) (by omega)) (by rwa [← variableAt_succ])
      rw [countedLoop, if_pos hfirst, hrest, Option.map_some, range_succ_eq_map, map_cons, map_map, variableAt_zero]
      congr 2
      exact map_congr_left fun k _ => (variableAt_succ start step k).symm

end Loop

/-! ### The progression -/

/-- Not beyond the end, in the direction of the step. -/
def NotBeyond (end_ step x : Int) : Prop := if 0 < step then x ≤ end_ else end_ ≤ x

/-- How many values of the progression are not beyond the end. -/
def progressionLength (start end_ step : Int) : Nat := (Int.fdiv (end_ - start) step + 1).toNat

def progression (start end_ step : Int) : List Int :=
  (List.range (progressionLength start end_ step)).map fun k : Nat => start + k * step

/-- The values not beyond the end are the first ones. -/
theorem notBeyond_iff {end_ step : Int} (hstep : step ≠ 0) (start : Int) (k : Nat) :
    NotBeyond end_ step (start + k * step) ↔ k < progressionLength start end_ step := by
  unfold NotBeyond progressionLength
  rcases Int.lt_or_gt_of_ne hstep with hneg | hpos
  · -- downwards: both sides are mirrored
    have hmirror : Int.fdiv (end_ - start) step = (start - end_) / (-step) := by
      rw [← Int.neg_fdiv_neg, Int.fdiv_eq_ediv_of_nonneg _ (by omega), Int.neg_sub]
    have hle : (k : Int) ≤ (start - end_) / (-step) ↔ k * (-step) ≤ start - end_ := Int.le_ediv_iff_mul_le (by omega)
    have hmul : (k : Int) * (-step) = -(k * step) := by ring
    rw [if_neg (by omega), hmirror]
    rw [hmul] at hle
    omega
  · have hle : (k : Int) ≤ (end_ - start) / step ↔ k * step ≤ end_ - start := Int.le_ediv_iff_mul_le hpos
    rw [if_pos hpos, Int.fdiv_eq_ediv_of_nonneg _ (by omega)]
    omega

/-! ### Where the variable stays in range -/

section Exact

variable {start end_ step : Int64}

lemma toInt_ne_zero (hstep : step ≠ 0) : step.toInt ≠ 0 := by
  intro h
  exact hstep (Int64.toInt_inj.mp h)

lemma continues_iff (i : Int64) : continues end_ step i = true ↔ NotBeyond end_.toInt step.toInt i.toInt := by
  have hzero : (0 : Int64).toInt = 0 := rfl
  unfold continues NotBeyond
  simp only [Int64.lt_iff_toInt_lt, Int64.le_iff_toInt_le, hzero]
  split <;> simp

/-- A value of the progression lies between the start and the end. -/
theorem toInt_variableAt (hstep : step ≠ 0) {k : Nat}
    (hk : k < progressionLength start.toInt end_.toInt step.toInt) :
    (variableAt start step k).toInt = start.toInt + k * step.toInt := by
  have hbeyond := (notBeyond_iff (toInt_ne_zero hstep) start.toInt k).mpr hk
  have hstart := inRange_toInt start
  have hend := inRange_toInt end_
  refine (toInt_ofInt_iff _).mpr ?_
  unfold InRange at hstart hend ⊢
  unfold NotBeyond at hbeyond
  split at hbeyond
  next hpos =>
    have hgrows : 0 ≤ (k : Int) * step.toInt := Int.mul_nonneg (by omega) (by omega)
    omega
  next hneg =>
    have hfalls : (k : Int) * step.toInt ≤ 0 := Int.mul_nonpos_of_nonneg_of_nonpos (by omega) (by omega)
    omega

/-- The value past the last one. -/
def pastLast (start end_ step : Int64) : Int :=
  start.toInt + progressionLength start.toInt end_.toInt step.toInt * step.toInt

/-- A variable that wraps comes out behind the values it has left, so the loop goes on. -/
theorem stops_iff (hstep : step ≠ 0) :
    continues end_ step (variableAt start step (progressionLength start.toInt end_.toInt step.toInt)) =
        false ↔ InRange (pastLast start end_ step) := by
  have hbeyond (k : Nat) : NotBeyond end_.toInt step.toInt (start.toInt + k * step.toInt) ↔
      k < progressionLength start.toInt end_.toInt step.toInt :=
    notBeyond_iff (toInt_ne_zero hstep) start.toInt k
  constructor
  · intro hstop
    by_contra hout
    have hgoes : continues end_ step
        (variableAt start step (progressionLength start.toInt end_.toInt step.toInt)) = true := by
      rw [continues_iff]
      have hrange := inRange_toInt step
      have hstart := inRange_toInt start
      have hend := inRange_toInt end_
      unfold variableAt pastLast InRange at *
      cases hn : progressionLength start.toInt end_.toInt step.toInt with
      | zero =>
        rw [hn] at hout
        simp only [Nat.cast_zero, Int.zero_mul, Int.add_zero] at hout
        omega
      | succ m =>
        -- the last value is in range, and one step from it is not
        have hlast := (hbeyond m).mpr (by omega)
        have hnext : start.toInt + ((m + 1 : Nat) : Int) * step.toInt =
            start.toInt + m * step.toInt + step.toInt := by
          push_cast
          ring
        have hm : m < progressionLength start.toInt end_.toInt step.toInt := by omega
        have hvalue := toInt_variableAt hstep hm
        have hmrange := inRange_toInt (variableAt start step m)
        rw [hvalue] at hmrange
        rw [hn, hnext] at hout
        rw [hnext]
        unfold InRange at hmrange
        unfold NotBeyond at hlast ⊢
        split at hlast
        next hpos =>
          rw [if_pos hpos, toInt_ofInt_above (by omega) (by omega)]
          omega
        next hneg =>
          rw [if_neg hneg, toInt_ofInt_below (by omega) (by omega)]
          omega
    rw [hgoes] at hstop
    cases hstop
  · intro hin
    have hvalue := (toInt_ofInt_iff _).mpr hin
    have hnot : ¬ continues end_ step
        (variableAt start step (progressionLength start.toInt end_.toInt step.toInt)) = true := by
      rw [continues_iff, variableAt]
      unfold pastLast at hvalue
      rw [hvalue, hbeyond]
      exact Nat.lt_irrefl _
    simpa using hnot

/-- The loop returns the progression, and no value of its variable overflows. -/
structure Exact (start end_ step : Int64) (elements : List Int64) : Prop where
  returns : ∃ fuel, rangeImpl fuel start end_ step = some elements
  values : elements.map Int64.toInt = progression start.toInt end_.toInt step.toInt
  no_overflow : ∀ k ≤ elements.length, (variableAt start step k).toInt = start.toInt + k * step.toInt

/-- The loop returns exactly the progression if and only if the value one step past the last
one is a word too. -/
theorem rangeImpl_exact_iff (start end_ : Int64) (hstep : step ≠ 0) :
    (∃ elements, Exact start end_ step elements) ↔ InRange (pastLast start end_ step) := by
  rw [← stops_iff hstep]
  constructor
  · rintro ⟨elements, hexact⟩
    obtain ⟨n, rfl, hbefore, hstop⟩ := (countedLoop_eq_some_iff start elements).mp hexact.returns
    have hlength := congrArg List.length hexact.values
    simp only [progression, length_map, length_range] at hlength
    rwa [hlength] at hstop
  · intro hstop
    have hin := (stops_iff hstep).mp hstop
    have hvalue : ∀ k ≤ progressionLength start.toInt end_.toInt step.toInt,
        (variableAt start step k).toInt = start.toInt + k * step.toInt := by
      intro k hk
      rcases Nat.lt_or_eq_of_le hk with hlt | rfl
      · exact toInt_variableAt hstep hlt
      · exact (toInt_ofInt_iff _).mpr hin
    refine ⟨(List.range (progressionLength start.toInt end_.toInt step.toInt)).map
      (variableAt start step), ?_, ?_, ?_⟩
    · refine (countedLoop_eq_some_iff start _).mpr ⟨_, rfl, fun k hk => ?_, hstop⟩
      rw [continues_iff, hvalue k (by omega)]
      exact (notBeyond_iff (toInt_ne_zero hstep) start.toInt k).mpr hk
    · rw [progression, map_map]
      exact map_congr_left fun k hk => hvalue k (Nat.le_of_lt (mem_range.mp hk))
    · simpa using hvalue

/-- Every third number up to ten. -/
theorem rangeImpl_exact_thirds : ∃ elements, Exact 1 10 3 elements := by
  have hin : InRange (pastLast 1 10 3) := by decide
  exact (rangeImpl_exact_iff 1 10 (by decide)).mpr hin

/-- Up to the largest integer the loop never ends: no integer is beyond it. -/
theorem rangeImpl_largest (fuel : Nat) (start : Int64) : rangeImpl fuel start Int64.maxValue 1 = none := by
  have hgoes : ∀ i : Int64, continues Int64.maxValue 1 i = true := by
    intro i
    rw [continues_iff]
    have hmax : Int64.maxValue.toInt = 2 ^ 63 - 1 := by decide
    have hlt := Int64.toInt_lt i
    rw [NotBeyond, if_pos (by decide), hmax]
    omega
  unfold rangeImpl
  induction fuel generalizing start with
  | zero => rfl
  | succ fuel ih => rw [countedLoop, if_pos (hgoes start), ih, Option.map_none]

/-- `range(9223372036854775807, 9223372036854775807)` should be one number and does not
return. -/
theorem range_of_largest_diverges : progression Int64.maxValue.toInt Int64.maxValue.toInt 1 = [9223372036854775807] ∧
      ¬ ∃ fuel elements, rangeImpl fuel Int64.maxValue Int64.maxValue 1 = some elements := by
  refine ⟨by decide, ?_⟩
  rintro ⟨fuel, elements, h⟩
  rw [rangeImpl_largest] at h
  cases h

end Exact

end RangeFunction

end Eugraph.Dataset
