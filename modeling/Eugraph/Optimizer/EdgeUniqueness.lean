import Eugraph.Optimizer.FilterPushdown

/-!
# Edge-uniqueness pushdown

`edge_uniqueness_pushdown.cpp`: a filter on top of a chain of expands that asks for the edges
of all hops to be different becomes a filter behind each hop from the second on, which asks it
of the hops so far.
-/

namespace Eugraph.Optimizer

open Lib Dataset DataStore List

/-! ### `__edge_unique` -/

/-- The ids of an argument; a list stands for its elements. -/
def elementEdgeId : Value → List EdgeId
  | .edge e => if e.id = INVALID_EDGE_ID then [] else [e.id]
  | .edgeKey k => if k.id = INVALID_EDGE_ID then [] else [k.id]
  | _ => []

def argumentEdgeIds : Value → List EdgeId
  | .list elements => elements.flatMap elementEdgeId
  | v => elementEdgeId v

/-- Every id is inserted into the set of those met. -/
def insertAll : List EdgeId → List EdgeId → Bool
  | _, [] => true
  | seen, id :: rest => if seen.contains id then false else insertAll (id :: seen) rest

def edgeUniqueBatch (args : List Value) : Bool := insertAll [] (args.flatMap argumentEdgeIds)

lemma insertAll_iff (seen ids : List EdgeId) :
    insertAll seen ids = true ↔ ids.Nodup ∧ ∀ id ∈ ids, id ∉ seen := by
  induction ids generalizing seen with
  | nil => simp [insertAll]
  | cons id rest ih =>
    rw [insertAll]
    split
    next hmet => simp_all
    next hnew =>
      rw [ih, nodup_cons, forall_mem_cons]
      simp only [mem_cons, not_or]
      constructor
      · rintro ⟨hnodup, hall⟩
        refine ⟨⟨fun hmem => (hall id hmem).1 rfl, hnodup⟩, by simpa using hnew, fun x hx => (hall x hx).2⟩
      · rintro ⟨⟨hid, hnodup⟩, -, hall⟩
        exact ⟨hnodup, fun x hx => ⟨fun heq => hid (heq ▸ hx), hall x hx⟩⟩

lemma edgeUniqueBatch_iff (args : List Value) :
    edgeUniqueBatch args = true ↔ (args.flatMap argumentEdgeIds).Nodup := by
  simp [edgeUniqueBatch, insertAll_iff]

/-- The function of the registry. -/
def EvaluatesEdgeUnique (ev : Evaluator) : Prop :=
  ∀ (func_def : FunctionDef) (distinct : Bool) (args : List Value), func_def.name = "__edge_unique" →
    ev.functionCall (some func_def) distinct args = .bool (edgeUniqueBatch args)

/-! ### The rule -/

structure EdgeUniqueCall where
  func_def : FunctionDef
  args : List BoundExpression

def edgeUniqueCall (filter : BoundFilterOp) : Option EdgeUniqueCall :=
  match filter.predicate with
  | .functionCall (some func_def) args _ _ =>
    if func_def.name = "__edge_unique" then some ⟨func_def, args⟩ else none
  | _ => none

def edgeArgName : BoundExpression → String
  | .columnRef ref => ref.name
  | .variableRef name _ => name
  | _ => ""

namespace EdgeUniquenessPushdownRule

variable (index : MemoIndex) (memo : Memo)

/-- The chain of expands at a group, the last hop first, and the group below it.  A group with
another number of expressions than one ends the search; `steps` is more than the chain has. -/
def collectExpandChain : Nat → GroupId → List BoundExpandOp → Option (List BoundExpandOp × GroupId)
  | 0, _, _ => none
  | steps + 1, gid, chain =>
    match memo.logical_exprs gid with
    | [expr] =>
      match expr.op with
      | .expand op =>
        match expr.child_groups with
        | [child] => collectExpandChain steps child (chain ++ [op])
        | _ => none
      | _ => if chain = [] then none else some (chain, gid)
    | _ => none

/-- The arguments are in the order of the hops, the chain is not. -/
def matchesChain (call : EdgeUniqueCall) (chain : List BoundExpandOp) : Bool :=
  2 ≤ chain.length && call.args.length = chain.length &&
    (call.args.zip chain.reverse).all fun p =>
      p.2.edge_variable ≠ "" && edgeArgName p.1 = p.2.edge_variable

/-- A filter on the first `hops` arguments, without a scope. -/
def makeUniqueFilter (call : EdgeUniqueCall) (hops : Nat) : BoundFilterOp where
  predicate := .functionCall (some call.func_def) (call.args.take hops) (.of .BOOL) false
  uniqueness_scope := .None

/-- The call and the chain the rule applies to. -/
def matched (expr : GroupExpr) : Option (EdgeUniqueCall × List BoundExpandOp × GroupId) :=
  match expr.op, expr.child_groups with
  | .filter filter, [child] =>
    match edgeUniqueCall filter, collectExpandChain memo (memo.group_count + 1) child [] with
    | some call, some (chain, bottom) =>
      if matchesChain call chain then some (call, chain, bottom) else none
    | _, _ => none
  | _, _ => none

def condition (expr : GroupExpr) : Bool :=
  match expr.op with
  | .filter filter => filter.uniqueness_scope = .TopLevel && (matched memo expr).isSome
  | _ => false

/-- The expands from `current` on, each from the second hop with its filter; that of the last
hop is the result. -/
def placeFilters (call : EdgeUniqueCall) (total : Nat) :
    Memo → GroupId → Nat → List BoundExpandOp → Memo × Option GroupExpr
  | memo, _, _, [] => (memo, none)
  | memo, current, done, op :: rest =>
    let (memo, current) := memo.createGroupWithExpr index (cloneBoundLogicalOperator (.expand op)) [current]
    let hops := done + 1
    if hops < 2 then placeFilters call total memo current hops rest
    else if hops = total then (memo, some ⟨.filter (makeUniqueFilter call hops), [current]⟩)
    else
      let (memo, current) :=
        memo.createGroupWithExpr index (.filter (makeUniqueFilter call hops)) [current]
      placeFilters call total memo current hops rest

/-- The memo with the new groups, and the expressions for the group of `expr`. -/
def substitute (expr : GroupExpr) : Memo × List GroupExpr :=
  match matched memo expr with
  | none => (memo, [])
  | some (call, chain, bottom) =>
    let (memo, result) := placeFilters index call chain.length memo bottom 0 chain.reverse
    (memo, result.toList)

end EdgeUniquenessPushdownRule

/-! ### Filters behind the hops and on top -/

namespace EdgeUniquenessPushdownRule

open PlanContext

section Filters

variable {ctx : PlanContext} {call : EdgeUniqueCall} {t : Table}

/-- The arguments name the edges of the hops. -/
def Names (args : List BoundExpression) (hops : List BoundExpandOp) : Prop :=
  List.Forall₂ (fun arg op => op.edge_variable ≠ "" ∧ edgeArgName arg = op.edge_variable) args hops

lemma Names.named {args : List BoundExpression} {hops : List BoundExpandOp} (h : Names args hops)
    {op : BoundExpandOp} (hop : op ∈ hops) : op.edge_variable ≠ "" := by
  induction h with
  | nil => cases hop
  | cons hfirst _ ih =>
    obtain rfl | hrest := mem_cons.mp hop
    · exact hfirst.1
    · exact ih hrest

variable {schema : Schema}

lemma existing_isSome {name : String} :
    (existing schema name).isSome = true ↔ name ≠ "" ∧ name ∈ schema := by
  unfold existing
  split
  next hempty => simp [hempty]
  next hnamed => simp [hnamed, findColumn_isSome]

lemma appends_iff {name : String} :
    (!(existing schema name).isSome && decide (name ≠ "")) = true ↔ name ≠ "" ∧ name ∉ schema := by
  rw [Bool.and_eq_true, Bool.not_eq_true', ← Bool.not_eq_true, existing_isSome, decide_eq_true_eq]
  tauto

/-- The values of an expand are as many as its new columns. -/
theorem length_expandExtensions {op : BoundExpandOp} {row ext : Row}
    (h : ext ∈ ctx.expandExtensions op schema row) : ext.length = (expandColumns op schema).length := by
  obtain ⟨t, -, rfl⟩ := mem_map.mp h
  have hedge : (ctx.planExpand op schema).appendsEdge = true ↔
      op.edge_variable ≠ "" ∧ op.edge_variable ∉ schema := appends_iff
  have hdst : (ctx.planExpand op schema).appendsDst = true ↔
      op.dst_variable ≠ "" ∧ op.dst_variable ∉ schema := appends_iff
  simp only [Expand.ExpandPhysicalOp.appendedRow, expandColumns, newColumn, hedge, hdst, length_append]
  congr 1
  · split
    · rfl
    · rfl
  · split
    · rfl
    · rfl

lemma wellFormed_extendTable (op : BoundExpandOp) (hwell : t.WellFormed) :
    (ctx.extendTable (.expand op) t).WellFormed := by
  intro out hout
  obtain ⟨row, hrow, ext, hext, rfl⟩ := mem_extendRows.mp hout
  show (row ++ ext).length = (t.schema ++ expandColumns op t.schema).length
  rw [length_append, length_append, hwell row hrow, length_expandExtensions hext]

lemma wellFormed_filterTable (filter_op : BoundFilterOp) (hwell : t.WellFormed) :
    (ctx.filterTable filter_op t).WellFormed :=
  fun row hrow => hwell row (mem_filter.mp hrow).1

end Filters

/-! ### The groups of the chain -/

section Groups

variable {ctx : PlanContext} {call : EdgeUniqueCall}

variable {tables : GroupId → Table} {memo : Memo}

/-- The memo after a change that adds no expression the rule applies to. -/
structure Grown (ctx : PlanContext) (memo memo' : Memo) (tables tables' : GroupId → Table) : Prop where
  denotes : memo'.Denotes ctx tables'
  kept : memo.Extends tables tables'
  le : memo.group_count ≤ memo'.group_count
  settled : ∀ e ∈ memo'.exprs, e ∉ memo.exprs → ∀ later, condition later e.toGroupExpr = false

lemma Grown.trans {memo' memo'' : Memo} {tables' tables'' : GroupId → Table}
    (h : Grown ctx memo memo' tables tables') (h' : Grown ctx memo' memo'' tables' tables'') :
    Grown ctx memo memo'' tables tables'' where
  denotes := h'.denotes
  kept := h.kept.trans h.le h'.kept
  le := Nat.le_trans h.le h'.le
  settled e he hnew := by
    by_cases hmem : e ∈ memo'.exprs
    · exact h.settled e hmem hnew
    · exact h'.settled e he hmem

lemma edgeUniqueCall_spec {filter : BoundFilterOp} (h : edgeUniqueCall filter = some call) :
    call.func_def.name = "__edge_unique" ∧
      ∃ type distinct, filter.predicate = .functionCall (some call.func_def) call.args type distinct := by
  unfold edgeUniqueCall at h
  split at h
  next func_def args type distinct hpredicate =>
    split at h
    next hname =>
      obtain rfl := Option.some.inj h
      exact ⟨hname, type, distinct, hpredicate⟩
    next => cases h
  next => cases h

end Groups

/-- `smallContext` with the filter function, over the two vertices. -/
def uniqueContext : PlanContext :=
  { smallContext with
    ev := { nullChecks with
      functionCall := fun func_def _ args =>
        match func_def with
        | some f => if f.name = "__edge_unique" then .bool (edgeUniqueBatch args) else .null
        | none => .null }
    other := fun _ _ => tableOfA }

/-- `(b)-[f]->(c)` behind `(a)-[e]->(b)`. -/
def expandFromB : BoundExpandOp :=
  { expandFromA with src_variable := "b", edge_variable := "f", dst_variable := "c" }

def edgesDiffer : BoundFilterOp where
  predicate := .functionCall (some ⟨"__edge_unique", 0⟩)
    [.variableRef "e" (.of .EDGE), .variableRef "f" (.of .EDGE)] (.of .BOOL) false
  uniqueness_scope := .TopLevel

end EdgeUniquenessPushdownRule

end Eugraph.Optimizer
