import Eugraph.Lib.SignedWord
import Eugraph.Query.Aggregate

/-!
# Integer sums

The state of `sum` over integers is one word that every argument is added to
(`function/aggregate/sum_function.hpp`).  The source leaves the result of an addition that
overflows undefined; here it wraps, as it does on the machine.  No addition is an error, so
a sum is exact where it can be written down and wrong, not an error, where it cannot.
-/

namespace Eugraph.Dataset

open Lib List Option Lib.SignedWord

structure Int64SumState where
  value : Int64

namespace Int64SumState

def add (s : Int64SumState) (arg : Int64) : Int64SumState := ⟨s.value + arg⟩

def finalize (s : Int64SumState) : Value := .int64 s.value

end Int64SumState

/-- `Column::getInt64`: a value of another alternative counts as zero. -/
def int64Arg : Value → Int64
  | .int64 i => i
  | _ => 0

/-- `sum` over integers.  The states of the other functions are of some other type; a state
is cast to the one it was made as. -/
def sumInt64 (OtherState : Type) : AggregateCallbacks (Int64SumState ⊕ OtherState) where
  has_variadic_args := false
  agg_init := .inl ⟨0⟩
  agg_update s args := s.map (·.add (args.head?.elim 0 int64Arg)) id
  agg_finalize s := s.elim Int64SumState.finalize fun _ => .null

namespace AggregatePhysicalOp

variable {OtherState : Type} {ctx : AggregateContext (Int64SumState ⊕ OtherState)}
  {op : AggregatePhysicalOp} {agg : AggregateExpr} {input : List DataChunk}

/-! ### What a sum adds up -/

/-- The integer among the arguments of a row. -/
def integerOf : List Value → Option Int64
  | .int64 i :: _ => some i
  | _ => none

/-- The integers among the arguments that the aggregate takes. -/
def summands (ctx : AggregateContext (Int64SumState ⊕ OtherState)) (agg : AggregateExpr)
    (rows : List Row) : List Int64 :=
  (takenArguments ctx agg rows).filterMap integerOf

/-- The exact sum, and an error where no word is the exact sum. -/
def ExactSum (ws : List Int64) (answer : Except String Value) : Prop :=
  if InRange (total ws) then
    ∃ w : Int64, answer = .ok (.int64 w) ∧ w.toInt = total ws
  else ∃ e, answer = .error e

/-- What is not an integer adds nothing. -/
theorem agg_update_eq (s : Int64SumState) (args : List Value) : (sumInt64 OtherState).agg_update (.inl s) args =
      .inl ⟨(integerOf args).elim s.value (s.value + ·)⟩ := by
  cases args with
  | nil => simp [sumInt64, Int64SumState.add, integerOf]
  | cons v vs => cases v <;> simp [sumInt64, Int64SumState.add, integerOf, int64Arg]

lemma foldl_update (takes : List (List Value)) (s : Int64SumState) :
    takes.foldl (sumInt64 OtherState).agg_update (.inl s) =
      .inl ⟨(takes.filterMap integerOf).foldl (· + ·) s.value⟩ := by
  induction takes generalizing s with
  | nil => rfl
  | cons args rest ih =>
    rw [foldl_cons, agg_update_eq, ih]
    cases hint : integerOf args with
    | none => rw [filterMap_cons_none hint, elim_none]
    | some w => rw [filterMap_cons_some hint, elim_some, foldl_cons]

/-- A sum is the reduced total of the integers among its arguments. -/
theorem aggregateResult_sum (hsum : callbacks ctx agg = some (sumInt64 OtherState)) (rows : List Row) :
    aggregateResult ctx agg rows = some (.int64 (Int64.ofInt (total (summands ctx agg rows)))) := by
  have hfold := foldl_add (summands ctx agg rows) 0
  have hstart : Int64.ofInt 0 = 0 := rfl
  rw [hstart, Int.zero_add] at hfold
  have hstate : (takenArguments ctx agg rows).foldl (sumInt64 OtherState).agg_update (sumInt64 OtherState).agg_init =
        .inl ⟨Int64.ofInt (total (summands ctx agg rows))⟩ := by
    refine (foldl_update _ _).trans ?_
    rw [← hfold]
    rfl
  rw [aggregateResult, hsum, map_some, hstate]
  rfl

lemma exactSum_iff {ws taken : List Int64} (hperm : ws.Perm taken) :
    ExactSum ws (.ok (.int64 (Int64.ofInt (total taken)))) ↔ InRange (total ws) := by
  rw [← total_perm hperm]
  unfold ExactSum
  split
  next hrange =>
    refine ⟨fun _ => hrange, fun _ => ?_⟩
    exact ⟨_, rfl, (toInt_ofInt_iff _).mpr hrange⟩
  next hrange =>
    refine ⟨?_, fun h => absurd h hrange⟩
    rintro ⟨e, he⟩
    cases he

/-- The sum put out for a group, at whatever position and however its rows are ordered and
cut into chunks, is exact if and only if the exact sum of its integers is a word. -/
theorem sum_exact_iff (hplan : op.Planned ctx input) {g c : Nat} {group : Row × List Row}
    (hgroup : (op.inputGroups ctx input)[g]? = some group) (hagg : op.visibleAggs[c]? = some agg)
    (hsum : callbacks ctx agg = some (sumInt64 OtherState)) :
    ∃ row value, (streamRows (op.executeChunk ctx input))[g]? = some row ∧
      row[op.group_keys.length + c]? = some value ∧
      ∀ ws : List Int64, ws.Perm (summands ctx agg group.2) → (ExactSum ws (.ok value) ↔ InRange (total ws)) := by
  have hmem := mem_of_getElem? hgroup
  have hkeys : group.1.length = op.group_keys.length := by
    rcases (mem_inputGroups hmem).1 with ⟨hnil, hnokeys⟩ | ⟨row, -, hkey⟩
    · rw [hnil, hnokeys]
      rfl
    · rw [← hkey, groupKey, length_map]
  have hfunction : agg.func_def ≠ none := by
    intro hnone
    rw [callbacks, hnone] at hsum
    cases hsum
  have hvalue : emittedValue ctx op group.2 agg = .int64 (Int64.ofInt (total (summands ctx agg group.2))) := by
    rw [emittedValue, if_neg hfunction, aggregateResult_sum hsum, getD_some]
  refine ⟨group.1 ++ op.visibleAggs.map (emittedValue ctx op group.2), emittedValue ctx op group.2 agg, ?_, ?_, ?_⟩
  · rw [executeChunk_rows hplan, List.getElem?_map, hgroup, map_some]
  · have hposition : op.group_keys.length + c - op.group_keys.length = c := by omega
    rw [List.getElem?_append_right (by omega), hkeys, hposition, List.getElem?_map, hagg,
      map_some]
  · intro ws hperm
    rw [hvalue]
    exact exactSum_iff hperm

/-! ### A column of numbers -/

def sum : Optimizer.FunctionDef := ⟨"sum", 0⟩

def sumContext : AggregateContext (Int64SumState ⊕ Empty) where
  std := countContext.std
  ev := countContext.ev
  functions f := if f = sum then some (sumInt64 Empty) else none
  input_schema := ["x"]

/-- `sum(x)`, over all rows. -/
def sumCall : AggregateExpr := ⟨some sum, [columnX], false, false, false⟩

def sumPlan : AggregatePhysicalOp where
  group_keys := []
  aggregates := [sumCall]
  output_type_kinds := [.INT64]

/-- Each number in a chunk of its own. -/
def numberChunks (ws : List Int64) : List DataChunk :=
  ws.map fun w => ⟨[.flat ⟨.INT64, [w], List.replicate 8 true⟩], 1⟩

lemma mem_numberChunks {ws : List Int64} {row : Row} (h : row ∈ streamRows (numberChunks ws)) :
    ∃ w, row = [.int64 w] := by
  obtain ⟨chunk, hchunk, hrow⟩ := mem_flatMap.mp h
  obtain ⟨w, -, rfl⟩ := List.mem_map.mp hchunk
  exact ⟨w, mem_singleton.mp hrow⟩

lemma sumPlan_planned (ws : List Int64) : sumPlan.Planned sumContext (numberChunks ws) where
  extracted agg hagg call hcall := by
    obtain rfl := mem_singleton.mp hagg
    cases hcall
  arguments agg hagg arg harg row hrow := by
    obtain rfl := mem_singleton.mp hagg
    obtain rfl := mem_singleton.mp harg
    obtain ⟨w, rfl⟩ := mem_numberChunks hrow
    exact .inr ⟨w, rfl, rfl⟩
  keys row hrow c v hv := by
    cases c <;> cases hv
  results c agg hagg acc v hv := by
    have hmem := mem_of_getElem? hagg
    obtain rfl := mem_singleton.mp hmem
    cases c with
    | zero =>
      obtain ⟨state, -, rfl⟩ := map_eq_some_iff.mp hv
      rcases state with s | impossible
      · exact .inr ⟨s.value, rfl, rfl⟩
      · cases impossible
    | succ c => cases hagg
  expressions c agg hagg hnone := by
    have hmem := mem_of_getElem? hagg
    obtain rfl := mem_singleton.mp hmem
    cases hnone

/-- A partial sum leaves the range and comes back. -/
theorem sum_exact_backInRange : ∃ row value,
      (streamRows (sumPlan.executeChunk sumContext (numberChunks [Int64.maxValue, 1, -1])))[0]? = some row ∧
      row[0]? = some value ∧ ExactSum [Int64.maxValue, 1, -1] (.ok value) := by
  let input := numberChunks [Int64.maxValue, 1, -1]
  have hgroup : (sumPlan.inputGroups sumContext input)[0]? = some ([], streamRows input) := rfl
  have hagg : sumPlan.visibleAggs[0]? = some sumCall := rfl
  obtain ⟨row, value, hrow, hvalue, hiff⟩ := sum_exact_iff (sumPlan_planned [Int64.maxValue, 1, -1]) hgroup hagg rfl
  have htotal : InRange (total [Int64.maxValue, 1, -1]) := by decide
  exact ⟨row, value, hrow, hvalue, (hiff _ (.refl _)).mpr htotal⟩

/-- One more than the largest word is put out as the smallest one. -/
theorem sum_overflow_wraps : streamRows (sumPlan.executeChunk sumContext (numberChunks [Int64.maxValue, 1])) =
        [[.int64 Int64.minValue]] ∧
      ¬ ExactSum [Int64.maxValue, 1] (.ok (.int64 Int64.minValue)) := by
  refine ⟨rfl, ?_⟩
  intro hexact
  rw [ExactSum, if_neg (by decide)] at hexact
  obtain ⟨e, he⟩ := hexact
  cases he

end AggregatePhysicalOp

end Eugraph.Dataset
