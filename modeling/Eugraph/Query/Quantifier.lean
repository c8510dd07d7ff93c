import Eugraph.Lib.Kleene
import Eugraph.Optimizer.BoundExpression
import Eugraph.Query.ChunkWriter

/-!
# Quantifiers over lists

`all`, `any`, `none` and `single` are one loop (`evaluator/expr/eval_quantifier`).  It stops
at the element that decides the answer and keeps a flag for elements whose predicate is
unknown.  How an expression is evaluated over a chunk is a parameter.
-/

namespace Eugraph.Dataset

open Optimizer (BoundExpression QuantifierKind)
open Lib List

/-! ### The loop -/

structure QuantifierState where
  final_result : Bool
  single_match_count : Nat
  saw_inconclusive : Bool

namespace Quantifier

/-- The answer for an empty list. -/
def initialResult : QuantifierKind → Bool
  | .all | .none => true
  | .any | .single => false

/-- The elements in order; `passes` is unknown for an inconclusive element, which is
skipped.  Leaving the loop is `goto done`. -/
def scan (kind : QuantifierKind) (passes : Value → Option Bool) :
    List Value → QuantifierState → QuantifierState
  | [], st => st
  | elem :: rest, st =>
    match passes elem with
    | none => scan kind passes rest { st with saw_inconclusive := true }
    | some elem_passes =>
      match kind with
      | .all =>
        if elem_passes then scan kind passes rest st else { st with final_result := false }
      | .any =>
        if elem_passes then { st with final_result := true } else scan kind passes rest st
      | .none =>
        if elem_passes then { st with final_result := false } else scan kind passes rest st
      | .single =>
        if elem_passes then
          let st := { st with single_match_count := st.single_match_count + 1 }
          if 1 < st.single_match_count then { st with final_result := false }
          else scan kind passes rest st
        else scan kind passes rest st

/-- What is written after `done:`. -/
def finish (kind : QuantifierKind) (st : QuantifierState) : Option Bool :=
  let final_result :=
    match kind with
    | .single => st.single_match_count == 1
    | _ => st.final_result
  if st.saw_inconclusive then
    let at_initial :=
      match kind with
      | .all => final_result
      | .any => !final_result
      | .none => final_result
      | .single => decide (st.single_match_count ≤ 1)
    if at_initial then none else some final_result
  else some final_result

def evalElements (kind : QuantifierKind) (passes : Value → Option Bool) (elements : List Value) :
    Option Bool :=
  if elements = [] then some (initialResult kind)
  else finish kind (scan kind passes elements ⟨initialResult kind, 0, false⟩)

end Quantifier

open Quantifier

/-- An unknown predicate is inconclusive at a null element and false at any other one. -/
def elementPasses (where_pred : Option (Value → Option Bool)) (elem_val : Value) : Option Bool :=
  match where_pred with
  | none => some true
  | some pred =>
    if isNull elem_val then pred elem_val
    else some ((pred elem_val).getD false)

/-! ### Over a chunk -/

namespace ExpressionEvaluator

variable (evaluateInternal : BoundExpression → DataChunk → Option Column)

def evaluatePredicateOne (expr : BoundExpression) (input : DataChunk) : Option Bool :=
  match evaluateInternal expr input with
  | none => none
  | some column =>
    if column.isNull 0 then none
    else if column.type = .BOOL then some (column.getBool 0)
    else
      match column.getValue 0 with
      | .bool b => some b
      | _ => none

/-- The one-row chunk of an element.  The columns of the input row and those up to the loop
column are set anew; behind them is what an earlier use of the scratch chunk left. -/
def elementChunk (loop_column_index : Nat) (input : DataChunk) (scratch : List Column) (i : Nat)
    (elem_val : Value) : DataChunk :=
  let total_cols := max (loop_column_index + 1) (input.columns.length + 1)
  let outer := input.columns.map fun col => Column.constant (col.getValue i)
  let unset := replicate (total_cols - input.columns.length) (Column.constant .null)
  { columns := (outer ++ unset ++ scratch.drop total_cols).set loop_column_index (.constant elem_val)
    count := 1 }

/-- The predicate of an element of the list of row `i`. -/
def elementPredicate (loop_column_index : Nat) (where_pred : Option BoundExpression) (input : DataChunk)
    (scratch : List Column) (i : Nat) : Option (Value → Option Bool) :=
  where_pred.map fun pred elem_val =>
    evaluatePredicateOne evaluateInternal pred (elementChunk loop_column_index input scratch i elem_val)

/-- The answer of one row. -/
def quantifierRow (kind : QuantifierKind) (where_pred : Option (Value → Option Bool))
    (list_eval : Option Column) (i : Nat) : Option Bool :=
  match list_eval with
  | none => some (initialResult kind)
  | some column =>
    if column.isNull i then some (initialResult kind)
    else
      match column.getValue i with
      | .list elements => evalElements kind (elementPasses where_pred) elements
      | _ => some (initialResult kind)

/-- `setNull`, or `setValue` of a Boolean. -/
def writeAnswer (answer : Option Bool) (result : Column) (i : Nat) : Column :=
  match answer with
  | none => result.setNull i
  | some b => result.setValue i (.bool b)

def evalQuantifierExpr (kind : QuantifierKind) (loop_column_index : Nat) (list_expr : BoundExpression)
    (where_pred : Option BoundExpression) (input : DataChunk) (scratch : List Column) (result : Column)
    (count : Nat) : Column :=
  let list_eval := evaluateInternal list_expr input
  (range count).foldl
    (fun result i =>
      let pred := elementPredicate evaluateInternal loop_column_index where_pred input scratch i
      writeAnswer (quantifierRow kind pred list_eval i) result i)
    result

end ExpressionEvaluator

/-! ### The answer of the loop

Each element contributes the value `elementPasses` gives it; the answer is Kleene's for these
values. -/

namespace Quantifier

open Kleene

/-- Kleene's answer for the values of the elements. -/
def kleene : QuantifierKind → List (Option Bool) → Option Bool
  | .all, ts => Kleene.all ts
  | .any, ts => Kleene.any ts
  | .none, ts => neg (Kleene.any ts)
  | .single, ts => Kleene.single ts

variable (passes : Value → Option Bool)

/-- Once an element was inconclusive, only an early exit avoids null. -/
theorem finish_scan_all (elements : List Value) (count : Nat) (inconclusive : Bool) :
    finish .all (scan .all passes elements ⟨true, count, inconclusive⟩) =
      conj (if inconclusive then none else some true) (Kleene.all (elements.map passes)) := by
  induction elements generalizing inconclusive with
  | nil => cases inconclusive <;> rfl
  | cons elem rest ih =>
    rw [map_cons, Kleene.all, scan]
    rcases passes elem with _ | _ | _
    · simp only [ih]
      rcases Kleene.all (rest.map passes) with _ | _ | _ <;> cases inconclusive <;> rfl
    · cases inconclusive <;> rfl
    · simp only [if_true, ih]
      rcases Kleene.all (rest.map passes) with _ | _ | _ <;> cases inconclusive <;> rfl

/-- `none` leaves its loop where `any` does, with the opposite answer. -/
theorem finish_scan_any (elements : List Value) (count : Nat) (inconclusive : Bool) :
    let answer := disj (if inconclusive then none else some false) (Kleene.any (elements.map passes))
    finish .any (scan .any passes elements ⟨false, count, inconclusive⟩) = answer ∧
      finish .none (scan .none passes elements ⟨true, count, inconclusive⟩) = neg answer := by
  dsimp only
  induction elements generalizing inconclusive with
  | nil => cases inconclusive <;> exact ⟨rfl, rfl⟩
  | cons elem rest ih =>
    rw [map_cons, Kleene.any, scan, scan]
    rcases passes elem with _ | _ | _
    · simp only [ih]
      rcases Kleene.any (rest.map passes) with _ | _ | _ <;> cases inconclusive <;> exact ⟨rfl, rfl⟩
    · simp only [Bool.false_eq_true, if_false, ih]
      rcases Kleene.any (rest.map passes) with _ | _ | _ <;> cases inconclusive <;> exact ⟨rfl, rfl⟩
    · cases inconclusive <;> exact ⟨rfl, rfl⟩

/-- With at most one match so far, the matches still to come decide. -/
theorem finish_scan_single (elements : List Value) {count : Nat} (hcount : count ≤ 1) (inconclusive : Bool) :
    finish .single (scan .single passes elements ⟨false, count, inconclusive⟩) =
      if 2 ≤ count + (elements.map passes).count (some true) then some false
      else if inconclusive ∨ none ∈ elements.map passes then none
      else some (count + (elements.map passes).count (some true) == 1) := by
  induction elements generalizing count inconclusive with
  | nil =>
    have hfew : ¬ 2 ≤ count := by omega
    cases inconclusive <;> simp [scan, finish, hcount, hfew]
  | cons elem rest ih =>
    rw [map_cons, scan]
    cases hpass : passes elem with
    | none =>
      simp only [ih hcount]
      simp
    | some b =>
      cases b with
      | false =>
        simp only [Bool.false_eq_true, if_false, ih hcount]
        simp
      | true =>
        simp only [if_true]
        by_cases hsecond : 1 < count + 1
        · -- the second match leaves the loop
          have htwo : 2 ≤ count + ((some true) :: rest.map passes).count (some true) := by
            rw [count_cons_self]
            omega
          rw [if_pos hsecond, if_pos htwo]
          have hnotone : ¬ count + 1 ≤ 1 := by omega
          have hne : (count + 1 == 1) = false := by
            rw [beq_eq_false_iff_ne]
            omega
          cases inconclusive <;> simp only [finish, hne, hnotone, decide_false] <;> rfl
        · have hnext : count + 1 ≤ 1 := by omega
          have hassoc : count + 1 + (rest.map passes).count (some true) =
              count + ((some true) :: rest.map passes).count (some true) := by
            rw [count_cons_self]
            omega
          rw [if_neg hsecond, ih hnext, hassoc]
          simp

/-- The loop gives Kleene's answer for the values it works with. -/
theorem evalElements_eq (kind : QuantifierKind) (elements : List Value) :
    evalElements kind passes elements = kleene kind (elements.map passes) := by
  unfold evalElements
  split
  next hempty =>
    subst hempty
    cases kind <;> rfl
  next =>
    cases kind with
    | all =>
      have h := finish_scan_all passes elements 0 false
      rw [initialResult, h]
      rcases hall : Kleene.all (elements.map passes) with _ | _ | _ <;> simp [kleene, hall, conj]
    | any =>
      have h := (finish_scan_any passes elements 0 false).1
      rw [initialResult, h]
      rcases hany : Kleene.any (elements.map passes) with _ | _ | _ <;> simp [kleene, hany, disj]
    | none =>
      have h := (finish_scan_any passes elements 0 false).2
      rw [initialResult, h]
      rcases hany : Kleene.any (elements.map passes) with _ | _ | _ <;> simp [kleene, hany, disj]
    | single =>
      have h := finish_scan_single passes elements (Nat.zero_le 1) false
      rw [initialResult, h]
      simp [kleene, Kleene.single]

/-! ### Unknown results at elements that are not null -/

/-- The result of the predicate at an element; a quantifier without one asks nothing. -/
def truthAt (where_pred : Option (Value → Option Bool)) (elem_val : Value) : Option Bool :=
  where_pred.elim (some true) (· elem_val)

lemma elementPasses_eq (where_pred : Option (Value → Option Bool)) (elem_val : Value) :
    elementPasses where_pred elem_val =
      if isNull elem_val then truthAt where_pred elem_val
      else some ((truthAt where_pred elem_val).getD false) := by
  cases where_pred with
  | none => simp [elementPasses, truthAt]
  | some pred => rfl

lemma elementPasses_eq_none_iff (where_pred : Option (Value → Option Bool)) (elem_val : Value) :
    elementPasses where_pred elem_val = none ↔ isNull elem_val = true ∧ truthAt where_pred elem_val = none := by
  rw [elementPasses_eq]
  split
  next hnull => simp [hnull]
  next hnull => simp [hnull]

lemma lowered_passes (where_pred : Option (Value → Option Bool)) (elements : List Value) :
    Lowered (elements.map (truthAt where_pred)) (elements.map (elementPasses where_pred)) := by
  refine forall₂_map_left_iff.mpr (forall₂_map_right_iff.mpr ?_)
  refine forall₂_same.mpr fun elem _ => ?_
  rw [elementPasses_eq]
  split
  next => exact .inl rfl
  next =>
    rcases truthAt where_pred elem with _ | _ | _
    · exact .inr ⟨rfl, rfl⟩
    · exact .inl rfl
    · exact .inl rfl

/-- Nothing was lowered exactly when only null elements have an unknown result. -/
theorem passes_eq_truth_iff (where_pred : Option (Value → Option Bool)) (elements : List Value) :
    elements.map (elementPasses where_pred) = elements.map (truthAt where_pred) ↔
      ∀ elem ∈ elements, truthAt where_pred elem = none → isNull elem = true := by
  rw [map_inj_left]
  refine forall₂_congr fun elem _ => ?_
  rw [elementPasses_eq]
  cases hnull : isNull elem <;> rcases truthAt where_pred elem with _ | _ | _ <;> simp

/-- The answer is fixed whatever the unknown results at elements that are not null stand
for, or is null because of one at a null element. -/
def Settled (kind : QuantifierKind) (truth : Value → Option Bool) (elements : List Value) : Prop :=
  let unknownAtNull := ∃ elem ∈ elements, isNull elem = true ∧ truth elem = none
  match kind with
  | .all => ∃ elem ∈ elements, truth elem = some false
  | .any => (∃ elem ∈ elements, truth elem = some true) ∨ unknownAtNull
  | .none => (∃ elem ∈ elements, truth elem = some true) ∨ unknownAtNull
  | .single => 2 ≤ (elements.map truth).count (some true) ∨ unknownAtNull

lemma evalElements_kleene_iff (kind : QuantifierKind) (where_pred : Option (Value → Option Bool))
    (elements : List Value) :
    evalElements kind (elementPasses where_pred) elements = kleene kind (elements.map (truthAt where_pred)) ↔
      (∀ elem ∈ elements, truthAt where_pred elem = none → isNull elem = true) ∨
        Settled kind (truthAt where_pred) elements := by
  have hlow := lowered_passes where_pred elements
  have hunknown : none ∈ elements.map (elementPasses where_pred) ↔
      ∃ elem ∈ elements, isNull elem = true ∧ truthAt where_pred elem = none := by
    simp only [mem_map, elementPasses_eq_none_iff]
  have hinj : ∀ s t : Option Bool, neg s = neg t ↔ s = t := by
    intro s t
    exact ⟨fun h => by rw [← neg_neg s, h, neg_neg], fun h => h ▸ rfl⟩
  rw [evalElements_eq, ← passes_eq_truth_iff]
  cases kind with
  | all => rw [kleene, kleene, hlow.all_eq_iff, mem_map, Settled]
  | any => rw [kleene, kleene, hlow.any_eq_iff, mem_map, hunknown, Settled]
  | none => rw [kleene, kleene, hinj, hlow.any_eq_iff, mem_map, hunknown, Settled]
  | single => rw [kleene, kleene, hlow.single_eq_iff, hunknown, Settled]

end Quantifier

/-! ### The column of answers -/

namespace ExpressionEvaluator

variable (evaluateInternal : BoundExpression → DataChunk → Option Column)

/-- The value of the list expression in row `i`. -/
def listAt (list_expr : BoundExpression) (input : DataChunk) (i : Nat) : Value :=
  (evaluateInternal list_expr input).elim .null (·.getValue i)

/-- A truth value as a runtime value. -/
def ofTruth (answer : Option Bool) : Value := answer.elim .null .bool

lemma ofTruth_injective : Function.Injective ofTruth := by
  intro s t h
  rcases s with _ | _ <;> rcases t with _ | _ <;> simp_all [ofTruth]

lemma writable_writeAnswer {result : Column} {n i : Nat} (h : Writable .BOOL n result) (hi : i < n)
    (answer : Option Bool) :
    Writable .BOOL n (writeAnswer answer result i) ∧ ∀ j, (writeAnswer answer result i).getValue j =
        if j = i then ofTruth answer else result.getValue j := by
  cases answer with
  | none => exact h.setNull hi
  | some b => exact h.setValue hi (.inr ⟨b, rfl, rfl⟩)

/-- Each row is written once. -/
theorem foldl_writeAnswer {result : Column} {n : Nat} (h : Writable .BOOL n result)
    (answer : Nat → Option Bool) {count : Nat} (hcount : count ≤ n) :
    let written := (range count).foldl (fun result i => writeAnswer (answer i) result i) result
    Writable .BOOL n written ∧ ∀ i < count, written.getValue i = ofTruth (answer i) := by
  induction count with
  | zero => exact ⟨h, fun i hi => absurd hi (Nat.not_lt_zero i)⟩
  | succ count ih =>
    obtain ⟨hwritable, hread⟩ := ih (by omega)
    obtain ⟨hnext, hget⟩ := writable_writeAnswer hwritable (by omega : count < n) (answer count)
    simp only [range_succ, foldl_append, foldl_cons, foldl_nil]
    refine ⟨hnext, fun i hi => ?_⟩
    rw [hget i]
    split
    next heq => rw [heq]
    next hne => exact hread i (by omega)

/-- A row without a list gets the answer for an empty one. -/
theorem quantifierRow_eq (kind : QuantifierKind) (where_pred : Option (Value → Option Bool))
    (list_expr : BoundExpression) (input : DataChunk) (i : Nat) (elements : Option (List Value))
    (hlist : listAt evaluateInternal list_expr input i = elements.elim .null .list) :
    quantifierRow kind where_pred (evaluateInternal list_expr input) i = elements.elim (some (initialResult kind))
        (evalElements kind (elementPasses where_pred)) := by
  unfold quantifierRow
  unfold listAt at hlist
  cases heval : evaluateInternal list_expr input with
  | none =>
    rw [heval] at hlist
    cases elements with
    | none => rfl
    | some elements => cases hlist
  | some column =>
    rw [heval] at hlist
    simp only [Option.elim_some] at hlist
    by_cases hnull : column.isNull i = true
    · rw [Column.getValue_of_isNull hnull] at hlist
      cases elements with
      | none => simp [hnull]
      | some elements => cases hlist
    · cases elements with
      | none => simp [hnull, hlist]
      | some elements => simp [hnull, hlist]

/-- In the three-valued reading a null list has a null answer. -/
def kleeneAnswer (kind : QuantifierKind) (truth : Value → Option Bool)
    (elements : Option (List Value)) : Option Bool :=
  elements.bind fun elements => kleene kind (elements.map truth)

/-- The list is not null, and an unknown result at an element that is not null does not
matter. -/
def FollowsKleene (kind : QuantifierKind) (truth : Value → Option Bool) (elements : Option (List Value)) :
    Prop :=
  ∃ list, elements = some list ∧
    ((∀ elem ∈ list, truth elem = none → isNull elem = true) ∨ Settled kind truth list)

/-- A row has the three-valued answer exactly when its list is not null and the results that
the loop takes for false do not matter. -/
theorem evalQuantifierExpr_kleene_iff (kind : QuantifierKind) (loop_column_index : Nat)
    (list_expr : BoundExpression) (where_pred : Option BoundExpression) (input : DataChunk)
    (scratch : List Column) {result : Column} {count : Nat} (hresult : Writable .BOOL count result)
    {i : Nat} (hi : i < count) (elements : Option (List Value))
    (hlist : listAt evaluateInternal list_expr input i = elements.elim .null .list) :
    let truth := truthAt
      (elementPredicate evaluateInternal loop_column_index where_pred input scratch i)
    (evalQuantifierExpr evaluateInternal kind loop_column_index list_expr where_pred input scratch
        result count).getValue i = ofTruth (kleeneAnswer kind truth elements) ↔
      FollowsKleene kind truth elements := by
  intro truth
  have hread := (foldl_writeAnswer hresult (fun i => quantifierRow kind
    (elementPredicate evaluateInternal loop_column_index where_pred input scratch i)
    (evaluateInternal list_expr input) i) (Nat.le_refl count)).2 i hi
  rw [evalQuantifierExpr, hread, ofTruth_injective.eq_iff,
    quantifierRow_eq evaluateInternal kind _ list_expr input i elements hlist]
  cases elements with
  | none => simp [kleeneAnswer, FollowsKleene]
  | some list =>
    simp only [Option.elim_some, kleeneAnswer, Option.bind_some, FollowsKleene, Option.some.injEq, exists_eq_left']
    exact evalElements_kleene_iff kind _ list

/-! ### A comparison with null

Over `[1]` the predicate `x = null` is unknown, so whether any element meets it is too. -/

/-- Literals, columns and `=`, for one row. -/
def evaluateSample : BoundExpression → DataChunk → Option Column
  | .literal value _, _ => some (.constant value)
  | .columnRef ref, chunk => chunk.columns[ref.column_index.toNat]?
  | .binaryOp .EQ left right _, chunk =>
    match evaluateSample left chunk, evaluateSample right chunk with
    | some l, some r => some (.constant (ofTruth (valueEquals (l.getValue 0) (r.getValue 0))))
    | _, _ => none
  | _, _ => none

/-- `x = value`, for the loop variable in column 0. -/
def loopEquals (value : Value) : BoundExpression :=
  .binaryOp .EQ (.columnRef ⟨0, 1, .of .INT64, "x", 0⟩) (.literal value (.of .ANY)) (.of .BOOL)

/-- `any(x IN [1] WHERE x = null)`, over one row. -/
def anyEqualsNull : Column :=
  evalQuantifierExpr evaluateSample .any 0 (.literal (.list [.int64 1]) (.list (.of .INT64)))
    (some (loopEquals .null)) ⟨[], 1⟩ [] (Column.ofType .BOOL 1) 1

/-- The answer is false, though whether `1 = null` is unknown. -/
theorem any_equals_null_false : anyEqualsNull.getValue 0 = .bool false ∧ ofTruth (kleeneAnswer .any
        (truthAt (elementPredicate evaluateSample 0 (some (loopEquals .null)) ⟨[], 1⟩ [] 0))
        (some [.int64 1])) = .null := by
  constructor
  · rfl
  · rfl

/-- `all(x IN [1, null] WHERE x = 1)` is null, as it should be. -/
theorem evalQuantifierExpr_kleene_nullElement : (evalQuantifierExpr evaluateSample .all 0
        (.literal (.list [.int64 1, .null]) (.list (.of .INT64))) (some (loopEquals (.int64 1)))
        ⟨[], 1⟩ [] (Column.ofType .BOOL 1) 1).getValue 0 = .null := by
  refine (evalQuantifierExpr_kleene_iff evaluateSample .all 0
    (.literal (.list [.int64 1, .null]) (.list (.of .INT64))) (some (loopEquals (.int64 1)))
    ⟨[], 1⟩ [] (writable_ofType .BOOL 1) (by omega : 0 < 1) (some [.int64 1, .null]) rfl).mpr ?_
  refine ⟨_, rfl, .inl ?_⟩
  intro elem helem hunknown
  simp only [mem_cons, not_mem_nil, or_false] at helem
  rcases helem with rfl | rfl
  · cases hunknown
  · rfl

end ExpressionEvaluator

end Eugraph.Dataset
