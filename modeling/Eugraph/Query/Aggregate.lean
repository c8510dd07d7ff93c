import Eugraph.Lib.HashTable
import Eugraph.Optimizer.AggregateCalls
import Eugraph.Optimizer.LogicalPlan
import Eugraph.Query.ChunkWriter

/-!
# Aggregation

`aggregate_physical_op.cpp`: the rows are filed by their key, and each group has one state
for each aggregate.  An expression over several aggregates has no function of its own.  Its
calls are aggregated apart and not put out, and in the end each call in it is replaced by
a result.

The results are looked up by function.  Of two calls of one function the later one is
taken for both, whatever their arguments and flags are, so the expression is exact where
all calls of a function in the plan have the same result.
-/

namespace Eugraph.Optimizer

open Dataset (BoundTypeKind)

def BoundType.kind : BoundType → BoundTypeKind
  | .of kind => kind
  | .list _ => .LIST
  | .map _ _ => .MAP

def getBoundExprType : BoundExpression → BoundType
  | .literal _ type => type
  | .columnRef ref => ref.type
  | .variableRef _ type => type
  | .parameter _ expected_type => expected_type
  | .dynamicPropertyRef _ _ result_type => result_type
  | .propertyRef _ _ _ result_type => result_type
  | .labelCast _ _ result_type => result_type
  | .binaryOp _ _ _ result_type => result_type
  | .unaryOp _ _ result_type => result_type
  | .functionCall _ _ return_type _ => return_type
  | .list _ _ result_type => result_type
  | .map _ result_type => result_type
  | .caseExpr _ _ _ result_type => result_type
  | .subscript _ _ result_type => result_type
  | .slice _ _ _ result_type => result_type
  | .quantifier _ _ _ _ _ result_type => result_type
  | .listComprehension _ _ _ _ _ result_type => result_type
  | .reduce _ _ _ _ _ _ result_type => result_type
  | .patternComprehension _ _ result_type _ _ => result_type

end Eugraph.Optimizer

namespace Eugraph.Dataset

open Lib List Option
open Optimizer (AggregateCall BoundExpression Env Evaluator FunctionDef Schema columnEnv getBoundExprType)

/-! ### Functions and plans -/

/-- The callbacks of an aggregate function.  All states are of one base type. -/
structure AggregateCallbacks (AggStateBase : Type) where
  has_variadic_args : Bool
  agg_init : AggStateBase
  agg_update : AggStateBase → List Value → AggStateBase
  agg_finalize : AggStateBase → Value

/-- What an execution relies on; `functions` has the aggregate functions only. -/
structure AggregateContext (AggStateBase : Type) where
  std : StdHash
  ev : Evaluator
  functions : FunctionDef → Option (AggregateCallbacks AggStateBase)
  input_schema : Schema

/-- Without a function it is an expression over the internal aggregates. -/
structure AggregateExpr where
  func_def : Option FunctionDef
  arguments : List BoundExpression
  distinct : Bool
  is_internal : Bool
  keeps_nulls : Bool

structure AggregatePhysicalOp where
  group_keys : List BoundExpression
  aggregates : List AggregateExpr
  output_type_kinds : List BoundTypeKind

namespace AggregatePhysicalOp

variable {AggStateBase : Type} (ctx : AggregateContext AggStateBase)

def callbacks (agg : AggregateExpr) : Option (AggregateCallbacks AggStateBase) :=
  agg.func_def.bind ctx.functions

/-! ### Arguments -/

def isNullLiteral : BoundExpression → Bool
  | .literal value _ => isNull value
  | _ => false

/-- `count(*)` has a null for an argument. -/
def literalNullFirstArg (agg : AggregateExpr) : Bool :=
  (callbacks ctx agg).any (·.has_variadic_args) && agg.arguments.head?.any isNullLiteral

def isNumeric (arg : BoundExpression) : Bool :=
  (getBoundExprType arg).kind = .INT64 || (getBoundExprType arg).kind = .DOUBLE

def typedNumericArgs (agg : AggregateExpr) : Bool :=
  agg.func_def.any (fun f => f.name = "sum" || f.name = "avg") && agg.arguments.all isNumeric

/-- The kind of the column an argument is evaluated into. -/
def storageKind (agg : AggregateExpr) (arg : BoundExpression) : BoundTypeKind :=
  if typedNumericArgs agg then (getBoundExprType arg).kind else .ANY

/-- A value read back from a column of the kind. -/
def stored (kind : BoundTypeKind) (v : Value) : Value := ((Column.ofType kind 1).setValue 0 v).getValue 0

def argumentValues (agg : AggregateExpr) (row : Row) : List Value :=
  agg.arguments.map fun arg =>
    stored (storageKind agg arg) (arg.eval ctx.ev (columnEnv ctx.input_schema row))

/-! ### States -/

/-- The state of one aggregate in one group. -/
structure Accumulator (AggStateBase : Type) where
  agg_state : Option AggStateBase
  distinct_set : List Value

def initial (agg : AggregateExpr) : Accumulator AggStateBase :=
  ⟨(callbacks ctx agg).map (·.agg_init), []⟩

def skipsNull (agg : AggregateExpr) (args : List Value) : Bool :=
  !literalNullFirstArg ctx agg && args.head?.any isNull && !(agg.keeps_nulls && !agg.distinct)

/-- A lookup of the value stops at the stored one. -/
def valueFound (key stored : Value) : Bool :=
  valueHash ctx.std key = valueHash ctx.std stored && valueContentEquals key stored

def dedupKey (args : List Value) : Value := args.head?.getD .null

def accumulate (agg : AggregateExpr) (acc : Accumulator AggStateBase) (args : List Value) :
    Accumulator AggStateBase :=
  match callbacks ctx agg, acc.agg_state with
  | some fn, some state =>
    if skipsNull ctx agg args then acc
    else if agg.distinct && acc.distinct_set.any (valueFound ctx (dedupKey args)) then acc
    else
      { agg_state := some (fn.agg_update state args)
        distinct_set :=
          if agg.distinct then acc.distinct_set ++ [dedupKey args] else acc.distinct_set }
  | _, _ => acc

/-- The value of an aggregate with a function, `none` if it has no state. -/
def finalized (agg : AggregateExpr) (acc : Accumulator AggStateBase) : Option Value :=
  (callbacks ctx agg).bind fun fn => acc.agg_state.map fn.agg_finalize

variable (op : AggregatePhysicalOp)

/-! ### Groups -/

def groupKey (row : Row) : Row :=
  op.group_keys.map fun key => key.eval ctx.ev (columnEnv ctx.input_schema row)

def keyFound (key stored : Row) : Bool :=
  rowHash ctx.std key = rowHash ctx.std stored && rowEqual key stored

def updateGroup (agg_states : List (Accumulator AggStateBase)) (row : Row) :
    List (Accumulator AggStateBase) :=
  (op.aggregates.zip agg_states).map fun p => accumulate ctx p.1 p.2 (argumentValues ctx p.1 row)

def initialStates : List (Accumulator AggStateBase) := op.aggregates.map (initial ctx)

/-- File a row; a key not met before opens a group behind the others. -/
def addRow : List (Row × List (Accumulator AggStateBase)) → Row →
    List (Row × List (Accumulator AggStateBase))
  | [], row => [(op.groupKey ctx row, op.updateGroup ctx (op.initialStates ctx) row)]
  | (key, agg_states) :: rest, row =>
    if keyFound ctx (op.groupKey ctx row) key then (key, op.updateGroup ctx agg_states row) :: rest
    else (key, agg_states) :: addRow rest row

/-- The groups in the order of their first rows.  Aggregates without keys have one group
even without rows. -/
def groups (input : List DataChunk) : List (Row × List (Accumulator AggStateBase)) :=
  let filed := input.foldl (fun filed chunk => chunk.rows.foldl (op.addRow ctx) filed) []
  if op.group_keys = [] ∧ filed = [] ∧ op.aggregates ≠ [] then [([], op.initialStates ctx)] else filed

/-! ### Output -/

/-- The results of the internal aggregates, with their functions. -/
def substitutions (agg_states : List (Accumulator AggStateBase)) : List (FunctionDef × Value) :=
  (op.aggregates.zip agg_states).filterMap fun p =>
    if p.1.is_internal then
      p.1.func_def.bind fun f => (finalized ctx p.1 p.2).map fun value => (f, value)
    else none

/-- `subs`: an aggregate overwrites those of its function before it. -/
def substituted (agg_states : List (Accumulator AggStateBase)) (call : AggregateCall) : Option Value :=
  ((op.substitutions ctx agg_states).reverse.find? (·.1 = call.func_def)).map Prod.snd

/-- There are no columns to refer to. -/
def noColumns : Env := fun _ => some .null

def outputCell (agg_states : List (Accumulator AggStateBase)) (agg : AggregateExpr)
    (acc : Accumulator AggStateBase) : Cell :=
  if agg.func_def = none then
    agg.arguments.head?.elim .null fun e =>
      .value ((e.substituteCalls (op.substituted ctx agg_states)).eval ctx.ev noColumns)
  else (finalized ctx agg acc).elim .null .value

def visibleAggs : List AggregateExpr := op.aggregates.filter fun agg => !agg.is_internal

def outputCells (group : Row × List (Accumulator AggStateBase)) : List Cell :=
  group.1.map Cell.value ++
    ((op.aggregates.zip group.2).filter fun p => !p.1.is_internal).map fun p =>
      op.outputCell ctx group.2 p.1 p.2

def outputKinds : List BoundTypeKind :=
  (range (op.group_keys.length + op.visibleAggs.length)).map fun c =>
    op.output_type_kinds.getD c .ANY

def executeChunk (input : List DataChunk) : List DataChunk :=
  (((op.groups ctx input).map (op.outputCells ctx)).foldl (ChunkOutput.emitRow op.outputKinds)
    (ChunkOutput.start op.outputKinds)).finish

/-! ### What it should emit -/

/-- The arguments whose first value is new to the set. -/
def newArguments : List Value → List (List Value) → List (List Value)
  | _, [] => []
  | met, args :: rest =>
    if met.any (valueFound ctx (dedupKey args)) then newArguments met rest
    else args :: newArguments (met ++ [dedupKey args]) rest

/-- The arguments an aggregate takes from the rows of a group. -/
def takenArguments (agg : AggregateExpr) (rows : List Row) : List (List Value) :=
  let args := rows.map fun row =>
    agg.arguments.map fun arg => arg.eval ctx.ev (columnEnv ctx.input_schema row)
  let kept := args.filter fun args => !skipsNull ctx agg args
  if agg.distinct then newArguments ctx [] kept else kept

/-- The result over the rows of a group. -/
def aggregateResult (agg : AggregateExpr) (rows : List Row) : Option Value :=
  (callbacks ctx agg).map fun fn =>
    fn.agg_finalize ((takenArguments ctx agg rows).foldl fn.agg_update fn.agg_init)

/-- The aggregate of a call, with the arguments and the flag of the call. -/
def ofCall (call : AggregateCall) : AggregateExpr where
  func_def := some call.func_def
  arguments := call.arguments
  distinct := call.distinct
  is_internal := true
  keeps_nulls := false

def callResult (rows : List Row) (call : AggregateCall) : Option Value :=
  aggregateResult ctx (ofCall call) rows

/-- The columns of a group, which are the same in all its rows. -/
def groupColumns (rows : List Row) : Env := rows.head?.elim noColumns (columnEnv ctx.input_schema)

def expectedValue (rows : List Row) (agg : AggregateExpr) : Value :=
  if agg.func_def = none then
    agg.arguments.head?.elim .null fun e =>
      (e.substituteCalls (callResult ctx rows)).eval ctx.ev (groupColumns ctx rows)
  else (aggregateResult ctx agg rows).getD .null

/-- The rows of the input by key. -/
def inputGroups (input : List DataChunk) : List (Row × List Row) :=
  let filed := HashTable.ofList (keyFound ctx) ((streamRows input).map fun row => (op.groupKey ctx row, row))
  if op.group_keys = [] ∧ filed = [] ∧ op.aggregates ≠ [] then [([], [])] else filed

/-- The aggregate calls of the expression. -/
def innerCalls (agg : AggregateExpr) : List AggregateCall :=
  if agg.func_def = none then
    agg.arguments.head?.elim [] fun e => e.aggregateCalls fun f => (ctx.functions f).isSome
  else []

/-- Each call is replaced by the result over its own arguments and flag, and the rows have
the values of the expressions over these. -/
structure Exact (input : List DataChunk) : Prop where
  calls : List.Forall₂ (fun group state => ∀ agg ∈ op.visibleAggs, ∀ call ∈ innerCalls ctx agg,
    op.substituted ctx state.2 call = callResult ctx group.2 call)
      (op.inputGroups ctx input) (op.groups ctx input)
  rows : streamRows (op.executeChunk ctx input) = (op.inputGroups ctx input).map fun group =>
    group.1 ++ op.visibleAggs.map (expectedValue ctx group.2)

/-- What the planner promises: each call of an expression is aggregated apart, and values
are of the types of their columns. -/
structure Planned (input : List DataChunk) : Prop where
  extracted : ∀ agg ∈ op.visibleAggs, ∀ call ∈ innerCalls ctx agg, ofCall call ∈ op.aggregates
  arguments : ∀ agg ∈ op.aggregates, ∀ arg ∈ agg.arguments, ∀ row ∈ streamRows input,
    Fits (storageKind agg arg) (arg.eval ctx.ev (columnEnv ctx.input_schema row))
  keys : ∀ row ∈ streamRows input, ∀ c v, (op.groupKey ctx row)[c]? = some v →
    Fits (op.output_type_kinds.getD c .ANY) v
  results : ∀ c agg, op.visibleAggs[c]? = some agg → ∀ acc v, finalized ctx agg acc = some v →
    Fits (op.output_type_kinds.getD (op.group_keys.length + c) .ANY) v
  expressions : ∀ c agg, op.visibleAggs[c]? = some agg → agg.func_def = none →
    op.output_type_kinds.getD (op.group_keys.length + c) .ANY = .ANY

/-- The last internal aggregate of a function. -/
def lastInternal (f : FunctionDef) : Option AggregateExpr :=
  (op.aggregates.filter fun agg => agg.is_internal && agg.func_def = some f).getLast?

/-- In each group, each call has the result of the last internal aggregate of its function,
and the expressions need no columns of the group. -/
structure OneResult (input : List DataChunk) : Prop where
  results : ∀ group ∈ op.inputGroups ctx input, ∀ agg ∈ op.visibleAggs,
    ∀ call ∈ innerCalls ctx agg, ∀ last ∈ op.lastInternal call.func_def,
      aggregateResult ctx last group.2 = callResult ctx group.2 call
  columns : ∀ group ∈ op.inputGroups ctx input, ∀ agg ∈ op.visibleAggs, agg.func_def = none →
    ∀ e ∈ agg.arguments.head?,
      (e.substituteCalls (callResult ctx group.2)).eval ctx.ev noColumns =
        (e.substituteCalls (callResult ctx group.2)).eval ctx.ev (groupColumns ctx group.2)

variable {ctx op}

/-! ### One aggregate in one group -/

section OneAggregate

variable {agg : AggregateExpr}

lemma stored_of_fits {kind : BoundTypeKind} {v : Value} (h : Fits kind v) : stored kind v = v := by
  have hread := ((writable_ofType kind 1).setValue (by omega : 0 < 1) h).2 0
  rw [if_pos rfl] at hread
  exact hread

lemma accumulate_of_callbacks {fn : AggregateCallbacks AggStateBase} (hfn : callbacks ctx agg = some fn)
    (state : AggStateBase) (met : List Value) (args : List Value) :
    accumulate ctx agg ⟨some state, met⟩ args =
      if skipsNull ctx agg args then ⟨some state, met⟩
      else if agg.distinct && met.any (valueFound ctx (dedupKey args)) then ⟨some state, met⟩
      else ⟨some (fn.agg_update state args), if agg.distinct then met ++ [dedupKey args] else met⟩ := by
  unfold accumulate
  rw [hfn]

/-- The state of an aggregate is that over the arguments it takes. -/
theorem foldl_accumulate {fn : AggregateCallbacks AggStateBase} (hfn : callbacks ctx agg = some fn)
    (args : List (List Value)) (state : AggStateBase) (met : List Value) :
    (args.foldl (accumulate ctx agg) ⟨some state, met⟩).agg_state =
      some (((if agg.distinct then newArguments ctx met (args.filter fun args => !skipsNull ctx agg args)
        else args.filter fun args => !skipsNull ctx agg args)).foldl fn.agg_update state) := by
  induction args generalizing state met with
  | nil => cases agg.distinct <;> rfl
  | cons first rest ih =>
    rw [foldl_cons, accumulate_of_callbacks hfn]
    cases hskip : skipsNull ctx agg first with
    | true =>
      rw [if_pos rfl, ih, filter_cons_of_neg (by simp [hskip])]
    | false =>
      rw [if_neg Bool.false_ne_true, filter_cons_of_pos (by simp [hskip])]
      cases hdistinct : agg.distinct with
      | false =>
        rw [Bool.false_and, if_neg Bool.false_ne_true, ih, hdistinct]
        rfl
      | true =>
        rw [Bool.true_and, if_pos rfl, if_pos rfl, newArguments]
        -- a value in the set already changes nothing
        split
        next hmet => rw [ih, hdistinct, if_pos rfl]
        next hmet =>
          rw [ih, hdistinct, if_pos rfl, foldl_cons]

/-- Typed columns keep the arguments of a row. -/
theorem argumentValues_eq {row : Row} (hfits : ∀ arg ∈ agg.arguments,
    Fits (storageKind agg arg) (arg.eval ctx.ev (columnEnv ctx.input_schema row))) :
    argumentValues ctx agg row = agg.arguments.map fun arg => arg.eval ctx.ev (columnEnv ctx.input_schema row) :=
  map_congr_left fun arg harg => stored_of_fits (hfits arg harg)

/-- One aggregate over the rows of a group. -/
theorem finalized_foldl {rows : List Row} (hfits : ∀ row ∈ rows, ∀ arg ∈ agg.arguments,
    Fits (storageKind agg arg) (arg.eval ctx.ev (columnEnv ctx.input_schema row))) :
    finalized ctx agg ((rows.map (argumentValues ctx agg)).foldl (accumulate ctx agg) (initial ctx agg)) =
      aggregateResult ctx agg rows := by
  have hargs : rows.map (argumentValues ctx agg) = rows.map fun row =>
      agg.arguments.map fun arg => arg.eval ctx.ev (columnEnv ctx.input_schema row) :=
    map_congr_left fun row hrow => argumentValues_eq (hfits row hrow)
  unfold finalized aggregateResult initial
  cases hfn : callbacks ctx agg with
  | none => rfl
  | some fn =>
    simp only [map_some, bind_some]
    rw [foldl_accumulate hfn, hargs]
    rfl

end OneAggregate

/-! ### The groups -/

section Groups

/-- The states of a group. -/
def groupStates (ctx : AggregateContext AggStateBase) (op : AggregatePhysicalOp) (rows : List Row) :
    List (Accumulator AggStateBase) :=
  rows.foldl (op.updateGroup ctx) (op.initialStates ctx)

lemma zip_map_self {α β : Type} (f : α → β) (xs : List α) : xs.zip (xs.map f) = xs.map fun x => (x, f x) := by
  induction xs with
  | nil => rfl
  | cons x rest ih => rw [map_cons, zip_cons_cons, ih, map_cons]

/-- Each aggregate has a state of its own. -/
theorem groupStates_eq (rows : List Row) :
    groupStates ctx op rows = op.aggregates.map fun agg =>
      (rows.map (argumentValues ctx agg)).foldl (accumulate ctx agg) (initial ctx agg) := by
  have hstep (f : AggregateExpr → Accumulator AggStateBase) :
      rows.foldl (op.updateGroup ctx) (op.aggregates.map f) = op.aggregates.map fun agg =>
        (rows.map (argumentValues ctx agg)).foldl (accumulate ctx agg) (f agg) := by
    induction rows generalizing f with
    | nil => rfl
    | cons row rest ih =>
      have hrow : op.updateGroup ctx (op.aggregates.map f) row = op.aggregates.map fun agg =>
          accumulate ctx agg (f agg) (argumentValues ctx agg row) := by
        rw [updateGroup, zip_map_self, List.map_map]
        rfl
      rw [foldl_cons, hrow, ih]
      rfl
  exact hstep (initial ctx)

lemma addRow_eq (row : Row) (table : List (Row × List Row)) :
    op.addRow ctx (table.map fun group => (group.1, groupStates ctx op group.2)) row =
      (HashTable.add (keyFound ctx) (op.groupKey ctx row) row table).map fun group =>
        (group.1, groupStates ctx op group.2) := by
  induction table with
  | nil => rfl
  | cons group rest ih =>
    rw [map_cons, addRow, HashTable.add]
    split
    · rw [map_cons]
      simp only [groupStates, foldl_append, foldl_cons, foldl_nil]
    · rw [map_cons, ih]

lemma foldl_addRow (rows : List Row) : rows.foldl (op.addRow ctx) [] =
      (HashTable.ofList (keyFound ctx) (rows.map fun row => (op.groupKey ctx row, row))).map
        fun group => (group.1, groupStates ctx op group.2) := by
  induction rows using reverseRecOn with
  | nil => rfl
  | append_singleton before row ih =>
    rw [foldl_append, ih, foldl_cons, foldl_nil, addRow_eq, map_append,
      HashTable.ofList, HashTable.ofList, foldl_append]
    rfl

/-- The groups are those of the input, each with the states over its rows. -/
theorem groups_eq (input : List DataChunk) : op.groups ctx input =
      (op.inputGroups ctx input).map fun group => (group.1, groupStates ctx op group.2) := by
  have hrows : input.foldl (fun filed chunk => chunk.rows.foldl (op.addRow ctx) filed) [] =
      (streamRows input).foldl (op.addRow ctx) [] := by
    rw [streamRows, foldl_flatMap]
  unfold groups inputGroups
  rw [hrows, foldl_addRow]
  simp only [map_eq_nil_iff]
  split
  · rfl
  · rfl

/-- The rows of a group are rows of the input, and so is the one its key is of. -/
theorem mem_inputGroups {input : List DataChunk} {group : Row × List Row}
    (hgroup : group ∈ op.inputGroups ctx input) :
    (group.1 = [] ∧ op.group_keys = [] ∨ ∃ row ∈ streamRows input, op.groupKey ctx row = group.1) ∧
      ∀ row ∈ group.2, row ∈ streamRows input := by
  unfold inputGroups at hgroup
  simp only at hgroup
  split at hgroup
  next hnone =>
    rw [mem_singleton.mp hgroup]
    exact ⟨.inl ⟨rfl, hnone.1⟩, fun row hrow => absurd hrow not_mem_nil⟩
  next =>
    obtain ⟨⟨entry, hentry, hkey⟩, hvalues⟩ := HashTable.mem_ofList hgroup
    obtain ⟨row, hrow, rfl⟩ := mem_map.mp hentry
    refine ⟨.inr ⟨row, hrow, hkey⟩, fun value hvalue => ?_⟩
    obtain ⟨entry, hentry, heq⟩ := hvalues value hvalue
    obtain ⟨row, hrow, rfl⟩ := mem_map.mp hentry
    exact heq ▸ hrow

end Groups

/-! ### Substitution -/

section Substitution

variable {input : List DataChunk} {group : Row × List Row} {agg : AggregateExpr}

/-- A state holds the result over the rows of the group. -/
theorem finalized_group (hplan : op.Planned ctx input) (hgroup : group ∈ op.inputGroups ctx input)
    (hagg : agg ∈ op.aggregates) :
    finalized ctx agg ((group.2.map (argumentValues ctx agg)).foldl (accumulate ctx agg)
      (initial ctx agg)) = aggregateResult ctx agg group.2 :=
  finalized_foldl fun row hrow arg harg =>
    hplan.arguments agg hagg arg harg row ((mem_inputGroups hgroup).2 row hrow)

lemma find?_reverse_eq {α : Type} (p : α → Bool) (xs : List α) : xs.reverse.find? p = (xs.filter p).getLast? := by
  rw [← head?_filter, filter_reverse, head?_reverse]

variable {call : AggregateCall}

/-- The value of a call is the result of the last internal aggregate of its function. -/
theorem substituted_eq (hplan : op.Planned ctx input) (hgroup : group ∈ op.inputGroups ctx input)
    (hcall : (ctx.functions call.func_def).isSome = true) :
    op.substituted ctx (groupStates ctx op group.2) call =
      (op.lastInternal call.func_def).bind fun last => aggregateResult ctx last group.2 := by
  obtain ⟨fn, hfn⟩ := Option.isSome_iff_exists.mp hcall
  have hentries : (op.substitutions ctx (groupStates ctx op group.2)).filter (·.1 = call.func_def) =
      (op.aggregates.filter fun agg => agg.is_internal && agg.func_def = some call.func_def).map
        fun agg => (call.func_def, (aggregateResult ctx agg group.2).getD .null) := by
    have hpart (aggs : List AggregateExpr) (hsub : ∀ agg ∈ aggs, agg ∈ op.aggregates) :
        ((aggs.map fun agg => (agg, (group.2.map (argumentValues ctx agg)).foldl (accumulate ctx agg)
            (initial ctx agg))).filterMap fun p =>
              if p.1.is_internal then
                p.1.func_def.bind fun f => (finalized ctx p.1 p.2).map fun value => (f, value)
              else none).filter (·.1 = call.func_def) =
          (aggs.filter fun agg => agg.is_internal && agg.func_def = some call.func_def).map
            fun agg => (call.func_def, (aggregateResult ctx agg group.2).getD .null) := by
      induction aggs with
      | nil => rfl
      | cons agg rest ih =>
        have hrest := ih fun a ha => hsub a (mem_cons_of_mem _ ha)
        have hfinal := finalized_group hplan hgroup (hsub agg mem_cons_self)
        rw [map_cons, filterMap_cons, hfinal]
        cases hinternal : agg.is_internal with
        | false =>
          rw [if_neg (by simp), filter_cons_of_neg (by simp [hinternal])]
          exact hrest
        | true =>
          rw [if_pos rfl]
          cases hdef : agg.func_def with
          | none =>
            rw [filter_cons_of_neg (by simp [hdef])]
            exact hrest
          | some f =>
            by_cases hsame : f = call.func_def
            · have hvalue : ∃ v, aggregateResult ctx agg group.2 = some v := by
                unfold aggregateResult callbacks
                rw [hdef, hsame, bind_some, hfn]
                exact ⟨_, rfl⟩
              obtain ⟨v, hv⟩ := hvalue
              rw [filter_cons_of_pos (by simp [hinternal, hdef, hsame]), hv]
              simp only [bind_some, map_some, hsame, map_cons, hv, getD_some]
              rw [filter_cons_of_pos (by simp)]
              exact congrArg _ hrest
            · rw [filter_cons_of_neg (by simp [hdef, hsame])]
              cases aggregateResult ctx agg group.2 with
              | none => exact hrest
              | some v =>
                simp only [bind_some, map_some]
                rw [filter_cons_of_neg (by simp [hsame])]
                exact hrest
    rw [substitutions, groupStates_eq, zip_map_self]
    exact hpart op.aggregates fun _ hagg => hagg
  rw [substituted, find?_reverse_eq, hentries, getLast?_map, Option.map_map]
  unfold lastInternal
  cases hlast : (op.aggregates.filter fun agg =>
    agg.is_internal && agg.func_def = some call.func_def).getLast? with
  | none => rfl
  | some last =>
    have hmem := mem_of_getLast? hlast
    have hdef := (mem_filter.mp hmem).2
    simp only [Bool.and_eq_true, decide_eq_true_eq] at hdef
    simp only [map_some, bind_some, Function.comp_apply]
    unfold aggregateResult callbacks
    rw [hdef.2, bind_some, hfn]
    rfl

lemma innerCalls_isSome
    (hcall : call ∈ innerCalls ctx agg) : (ctx.functions call.func_def).isSome = true := by
  unfold innerCalls at hcall
  split at hcall
  · cases harg : agg.arguments.head? with
    | none => simp [harg] at hcall
    | some e =>
      rw [harg] at hcall
      exact BoundExpression.isAggregate_of_mem hcall
  · cases hcall

/-- The call has the result over its own arguments and flag exactly when the last internal
aggregate of its function has. -/
theorem substituted_iff (hplan : op.Planned ctx input) (hgroup : group ∈ op.inputGroups ctx input)
    (hagg : agg ∈ op.visibleAggs)
    (hcall : call ∈ innerCalls ctx agg) :
    op.substituted ctx (groupStates ctx op group.2) call = callResult ctx group.2 call ↔
      ∀ last ∈ op.lastInternal call.func_def, aggregateResult ctx last group.2 = callResult ctx group.2 call := by
  rw [substituted_eq hplan hgroup (innerCalls_isSome hcall)]
  -- there is a last one, since the call is aggregated
  have hmem : ofCall call ∈ op.aggregates.filter fun agg =>
      agg.is_internal && agg.func_def = some call.func_def :=
    mem_filter.mpr ⟨hplan.extracted agg hagg call hcall, by simp [ofCall]⟩
  cases hlast : op.lastInternal call.func_def with
  | none =>
    rw [lastInternal, getLast?_eq_none_iff] at hlast
    rw [hlast] at hmem
    cases hmem
  | some last => simp

end Substitution

/-! ### Output -/

section Output

variable {input : List DataChunk} {group : Row × List Row}

/-- The value put out for an aggregate. -/
def emittedValue (ctx : AggregateContext AggStateBase) (op : AggregatePhysicalOp) (rows : List Row)
    (agg : AggregateExpr) : Value :=
  if agg.func_def = none then
    agg.arguments.head?.elim .null fun e =>
      (e.substituteCalls (op.substituted ctx (groupStates ctx op rows))).eval ctx.ev noColumns
  else (aggregateResult ctx agg rows).getD .null

lemma outputCells_eq : op.outputCells ctx (group.1, groupStates ctx op group.2) =
      group.1.map Cell.value ++ op.visibleAggs.map fun agg =>
        op.outputCell ctx (groupStates ctx op group.2) agg
          ((group.2.map (argumentValues ctx agg)).foldl (accumulate ctx agg) (initial ctx agg)) := by
  have hzip : op.aggregates.zip (groupStates ctx op group.2) = op.aggregates.map fun agg =>
      (agg, (group.2.map (argumentValues ctx agg)).foldl (accumulate ctx agg) (initial ctx agg)) := by
    rw [groupStates_eq, zip_map_self]
  rw [outputCells]
  simp only [hzip, List.filter_map, List.map_map]
  rfl

lemma content_outputCell (hplan : op.Planned ctx input) (hgroup : group ∈ op.inputGroups ctx input)
    {agg : AggregateExpr} (hagg : agg ∈ op.visibleAggs) :
    (op.outputCell ctx (groupStates ctx op group.2) agg
      ((group.2.map (argumentValues ctx agg)).foldl (accumulate ctx agg) (initial ctx agg))).content =
        emittedValue ctx op group.2 agg := by
  unfold outputCell emittedValue
  split
  · cases agg.arguments.head? <;> rfl
  · rw [finalized_group hplan hgroup (mem_filter.mp hagg).1]
    cases aggregateResult ctx agg group.2 <;> rfl

lemma forall₂_range {α β : Type} {R : α → β → Prop} {f : Nat → α} {n : Nat} {ys : List β}
    (hlength : ys.length = n) (h : ∀ c y, ys[c]? = some y → R (f c) y) :
    List.Forall₂ R ((range n).map f) ys := by
  rw [forall₂_iff_get]
  refine ⟨by simp [hlength], fun c hc hc' => ?_⟩
  simp only [get_eq_getElem, getElem_map, getElem_range]
  exact h c ys[c] (getElem?_eq_getElem hc')

/-- The cells of a group fit their columns. -/
theorem outputCells_fit (hplan : op.Planned ctx input) (hgroup : group ∈ op.inputGroups ctx input) :
    List.Forall₂ (fun kind cell => Fits kind (Cell.content cell)) op.outputKinds
      (op.outputCells ctx (group.1, groupStates ctx op group.2)) := by
  have hkey : group.1.length = op.group_keys.length ∧ ∀ c v, group.1[c]? = some v →
      Fits (op.output_type_kinds.getD c .ANY) v := by
    rcases (mem_inputGroups hgroup).1 with ⟨hnil, hkeys⟩ | ⟨row, hrow, hkey⟩
    · rw [hnil, hkeys]
      exact ⟨rfl, fun c v hv => by simp at hv⟩
    · rw [← hkey]
      exact ⟨by simp [groupKey], hplan.keys row hrow⟩
  rw [outputCells_eq]
  apply forall₂_range
  · rw [length_append, length_map, length_map, hkey.1]
  · intro c cell hcell
    by_cases hc : c < op.group_keys.length
    · rw [getElem?_append_left (by simpa [hkey.1] using hc), getElem?_map] at hcell
      obtain ⟨v, hv, rfl⟩ := map_eq_some_iff.mp hcell
      exact hkey.2 c v hv
    · rw [getElem?_append_right (by simp [hkey.1]; omega), length_map, hkey.1,
        getElem?_map] at hcell
      obtain ⟨agg, hagg, rfl⟩ := map_eq_some_iff.mp hcell
      have hposition : op.group_keys.length + (c - op.group_keys.length) = c := by omega
      have hresults := hplan.results _ agg hagg
      have hexpressions := hplan.expressions _ agg hagg
      rw [hposition] at hresults hexpressions
      unfold outputCell
      split
      next hnone =>
        rw [hexpressions hnone]
        exact fits_any _
      next =>
        cases hfinal : finalized ctx agg ((group.2.map (argumentValues ctx agg)).foldl
            (accumulate ctx agg) (initial ctx agg)) with
        | none => exact .inl rfl
        | some v => exact hresults _ v hfinal

/-- One row for each group, with its key and the values of the aggregates. -/
theorem executeChunk_rows (hplan : op.Planned ctx input) :
    streamRows (op.executeChunk ctx input) = (op.inputGroups ctx input).map fun group =>
      group.1 ++ op.visibleAggs.map (emittedValue ctx op group.2) := by
  have hfilling := (ChunkOutput.filling_start op.outputKinds).foldl_emitRow
    ((op.groups ctx input).map (op.outputCells ctx)) (by
      intro cells hcells
      rw [groups_eq, List.map_map] at hcells
      obtain ⟨group, hgroup, rfl⟩ := List.mem_map.mp hcells
      exact outputCells_fit hplan hgroup)
  rw [executeChunk, hfilling.finish, List.nil_append, groups_eq, List.map_map, List.map_map]
  apply map_congr_left
  intro group hgroup
  show (op.outputCells ctx (group.1, groupStates ctx op group.2)).map Cell.content = _
  rw [outputCells_eq, List.map_append, List.map_map, List.map_map]
  congr 1
  · exact map_id _
  · exact map_congr_left fun agg hagg => content_outputCell hplan hgroup hagg

/-- With each call replaced by its own result the value put out is that of the expression
without columns. -/
theorem emittedValue_eq {agg : AggregateExpr} (hcalls : ∀ call ∈ innerCalls ctx agg,
      op.substituted ctx (groupStates ctx op group.2) call = callResult ctx group.2 call)
    (hnone : agg.func_def = none) {e : BoundExpression} (he : e ∈ agg.arguments.head?) :
    emittedValue ctx op group.2 agg = (e.substituteCalls (callResult ctx group.2)).eval ctx.ev noColumns := by
  have hinner : innerCalls ctx agg = e.aggregateCalls fun f => (ctx.functions f).isSome := by
    unfold innerCalls
    rw [if_pos hnone, mem_def.mp he]
    rfl
  rw [emittedValue, if_pos hnone, mem_def.mp he, elim_some]
  congr 1
  refine @BoundExpression.substituteCalls_congr (fun f => (ctx.functions f).isSome) _ _ ?_ ?_ e ?_
  · intro call hscalar
    have hfunction : ctx.functions call.func_def = none := by simpa using hscalar
    -- no aggregate of the function has a state
    rw [substituted, map_eq_none_iff, find?_eq_none]
    intro entry hentry
    rw [mem_reverse, substitutions, mem_filterMap] at hentry
    obtain ⟨p, -, hp⟩ := hentry
    split at hp
    · obtain ⟨f, hf, hvalue⟩ := bind_eq_some_iff.mp hp
      obtain ⟨v, hv, rfl⟩ := map_eq_some_iff.mp hvalue
      simp only [decide_eq_true_eq]
      rintro rfl
      simp [finalized, callbacks, hf, hfunction] at hv
    · cases hp
  · intro call hscalar
    have hfunction : ctx.functions call.func_def = none := by simpa using hscalar
    simp [callResult, aggregateResult, callbacks, ofCall, hfunction]
  · intro call hcall
    obtain ⟨fn, hfn⟩ := isSome_iff_exists.mp (BoundExpression.isAggregate_of_mem hcall)
    have hresult : ∃ v, callResult ctx group.2 call = some v := by
      simp [callResult, aggregateResult, callbacks, ofCall, hfn]
    obtain ⟨v, hv⟩ := hresult
    rw [← hinner] at hcall
    exact ⟨v, (hcalls call hcall).trans hv, hv⟩

end Output

/-- Where each call is replaced by its own result, and the expressions need no columns,
and only there, the rows are exact. -/
theorem executeChunk_exact_iff {ctx : AggregateContext AggStateBase} {op : AggregatePhysicalOp}
    {input : List DataChunk} (hplan : op.Planned ctx input) :
    op.Exact ctx input ↔ op.OneResult ctx input := by
  have hcalls : List.Forall₂ (fun group state => ∀ agg ∈ op.visibleAggs, ∀ call ∈ innerCalls ctx agg,
          op.substituted ctx state.2 call = callResult ctx group.2 call)
        (op.inputGroups ctx input) (op.groups ctx input) ↔
      ∀ group ∈ op.inputGroups ctx input, ∀ agg ∈ op.visibleAggs, ∀ call ∈ innerCalls ctx agg,
        op.substituted ctx (groupStates ctx op group.2) call = callResult ctx group.2 call := by
    rw [groups_eq, forall₂_map_right_iff, forall₂_same]
  have hrows (hown : ∀ group ∈ op.inputGroups ctx input, ∀ agg ∈ op.visibleAggs, ∀ call ∈ innerCalls ctx agg,
        op.substituted ctx (groupStates ctx op group.2) call = callResult ctx group.2 call) :
      streamRows (op.executeChunk ctx input) = ((op.inputGroups ctx input).map fun group =>
          group.1 ++ op.visibleAggs.map (expectedValue ctx group.2)) ↔
        ∀ group ∈ op.inputGroups ctx input, ∀ agg ∈ op.visibleAggs, agg.func_def = none → ∀ e ∈ agg.arguments.head?,
            (e.substituteCalls (callResult ctx group.2)).eval ctx.ev noColumns =
              (e.substituteCalls (callResult ctx group.2)).eval ctx.ev (groupColumns ctx group.2) := by
    rw [executeChunk_rows hplan, map_inj_left]
    refine forall₂_congr fun group hgroup => ?_
    rw [append_right_inj, map_inj_left]
    refine forall₂_congr fun agg hagg => ?_
    constructor
    · intro hsame hnone e he
      rw [← emittedValue_eq (hown group hgroup agg hagg) hnone he, hsame, expectedValue, if_pos hnone,
        mem_def.mp he, elim_some]
    · intro hcolumns
      by_cases hnone : agg.func_def = none
      · cases he : agg.arguments.head? with
        | none => simp [emittedValue, expectedValue, he, hnone]
        | some e =>
          rw [emittedValue_eq (hown group hgroup agg hagg) hnone he, hcolumns hnone e he,
            expectedValue, if_pos hnone, he, elim_some]
      · rw [emittedValue, expectedValue, if_neg hnone, if_neg hnone]
  constructor
  · intro hexact
    have hown := hcalls.mp hexact.calls
    exact ⟨fun group hgroup agg hagg call hcall =>
      (substituted_iff hplan hgroup hagg hcall).mp (hown group hgroup agg hagg call hcall),
      (hrows hown).mp hexact.rows⟩
  · intro hone
    have hown : ∀ group ∈ op.inputGroups ctx input, ∀ agg ∈ op.visibleAggs, ∀ call ∈ innerCalls ctx agg,
          op.substituted ctx (groupStates ctx op group.2) call = callResult ctx group.2 call :=
      fun group hgroup agg hagg call hcall =>
        (substituted_iff hplan hgroup hagg hcall).mpr (hone.results group hgroup agg hagg call hcall)
    exact ⟨hcalls.mpr hown, (hrows hown).mpr hone.columns⟩

/-! ### Two counts -/

def count : FunctionDef := ⟨"count", 0⟩

def columnX : BoundExpression := .columnRef ⟨0, 0, .of .INT64, "x", 0⟩

def countContext : AggregateContext Int64 where
  std := identityHash
  ev :=
    { missing := fun _ => .null
      parameter := fun _ => .null
      dynamicPropertyRef := fun _ _ => .null
      propertyRef := fun _ _ _ => .null
      labelCast := fun _ _ => .null
      binaryOp := fun _ _ _ => .null
      unaryOp := fun _ _ => .null
      functionCall := fun _ _ _ => .null
      list := Value.list
      map := fun _ => .null
      caseExpr := fun _ _ _ => .null
      subscript := fun _ _ => .null
      slice := fun _ _ _ => .null
      quantifier := fun _ _ _ => .null
      listComprehension := fun _ _ _ => .null
      reduce := fun _ _ _ => .null }
  functions f := if f = count then some ⟨true, 0, fun n _ => n + 1, Value.int64⟩ else none
  input_schema := ["x"]

/-- `[count(x), count(DISTINCT x)]`. -/
def countPlan : AggregatePhysicalOp where
  group_keys := []
  aggregates :=
    [⟨some count, [columnX], false, true, false⟩, ⟨some count, [columnX], true, true, false⟩,
      ⟨none, [.list [.functionCall (some count) [columnX] (.of .INT64) false,
        .functionCall (some count) [columnX] (.of .INT64) true] (.of .INT64) (.list (.of .INT64))],
        false, false, false⟩]
  output_type_kinds := [.ANY]

/-- Two rows with the given numbers. -/
def twoNumbers (a b : Int64) : List DataChunk :=
  [⟨[.flat ⟨.INT64, [a, b], replicate 8 true⟩], 2⟩]

lemma countPlan_planned (a b : Int64) : countPlan.Planned countContext (twoNumbers a b) where
  extracted agg hagg call hcall := by
    obtain rfl := mem_singleton.mp hagg
    rcases mem_cons.mp hcall with rfl | hcall
    · exact mem_cons_self
    · obtain rfl := mem_singleton.mp hcall
      exact mem_cons_of_mem _ mem_cons_self
  arguments agg hagg arg harg row hrow := by
    have hkind : storageKind agg arg = .ANY := by
      simp only [countPlan, mem_cons, not_mem_nil, or_false] at hagg
      rcases hagg with rfl | rfl | rfl
      · rfl
      · rfl
      · rfl
    rw [hkind]
    exact fits_any _
  keys row hrow c v hv := by
    cases c <;> cases hv
  results c agg hagg acc v hv := by
    have hmem := mem_of_getElem? hagg
    obtain rfl := mem_singleton.mp hmem
    cases hv
  expressions c agg hagg hnone := by
    cases c with
    | zero => rfl
    | succ c => cases hagg

/-- Two different numbers: both counts are two. -/
theorem countPlan_differentNumbers : countPlan.OneResult countContext (twoNumbers 5 6) := by
  refine (executeChunk_exact_iff (countPlan_planned 5 6)).mp ⟨.cons ?_ .nil, rfl⟩
  intro agg hagg call hcall
  obtain rfl := mem_singleton.mp hagg
  rcases mem_cons.mp hcall with rfl | hcall
  · rfl
  · obtain rfl := mem_singleton.mp hcall
    rfl

/-- The same number twice is counted once by both. -/
theorem countPlan_sameNumbers : ¬ countPlan.Exact countContext (twoNumbers 5 5) := by
  intro hexact
  have hemitted : streamRows (countPlan.executeChunk countContext (twoNumbers 5 5)) =
      [[.list [.int64 1, .int64 1]]] := rfl
  have hexpected : ((countPlan.inputGroups countContext (twoNumbers 5 5)).map fun group =>
      group.1 ++ countPlan.visibleAggs.map (expectedValue countContext group.2)) =
        [[.list [.int64 2, .int64 1]]] := rfl
  have hrows := hexact.rows
  rw [hemitted, hexpected] at hrows
  simp at hrows

end AggregatePhysicalOp

end Eugraph.Dataset
