import Eugraph.Optimizer.LogicalPlan

/-!
# The memo

`memo.cpp` and `operator_eq.cpp`: the groups of equivalent expressions a search works on.  An
expression that is there already, an equal operator above the same groups, is found through a
hash index and not added again.
-/

namespace Eugraph.Optimizer

open Lib Dataset List

abbrev GroupId := Nat

/-- A new expression: an operator above the groups of its children. -/
structure GroupExpr where
  op : BoundLogicalOperator
  child_groups : List GroupId

/-! ### Structural equality -/

/-- The key type of a map is not compared. -/
def eqBoundType : BoundType → BoundType → Bool
  | .of a, .of b => a = b
  | .list a, .list b => eqBoundType a b
  | .map _ a, .map _ b => eqBoundType a b
  | _, _ => false

def eqCandidates : List ResolvedProperty → List ResolvedProperty → Bool
  | [], [] => true
  | a :: as, b :: bs =>
    a.label_id = b.label_id && a.prop_id = b.prop_id && eqBoundType a.type b.type &&
      eqCandidates as bs
  | _, _ => false

section Equality

-- `==` on the values of literals: a handle is equal to its copies
variable (literalEquals : Value → Value → Bool)

mutual

/-- The constructors are compared first; `BoundReduceExpr` has no branch. -/
def equalBoundExpression : BoundExpression → BoundExpression → Bool
  | .literal a type, .literal b type' => literalEquals a b && eqBoundType type type'
  | .columnRef a, .columnRef b =>
    a.column_index = b.column_index && a.slot_id = b.slot_id && a.scope_id = b.scope_id &&
      a.name = b.name && eqBoundType a.type b.type
  | .variableRef a type, .variableRef b type' => a = b && eqBoundType type type'
  | .parameter a type, .parameter b type' => a = b && eqBoundType type type'
  | .patternComprehension slot name type _ ast, .patternComprehension slot' name' type' _ ast' =>
    slot = slot' && name = name' && eqBoundType type type' && ast = ast'
  | .binaryOp op a b type, .binaryOp op' a' b' type' =>
    op = op' && equalBoundExpression a a' && equalBoundExpression b b' && eqBoundType type type'
  | .unaryOp op a type, .unaryOp op' a' type' =>
    op = op' && equalBoundExpression a a' && eqBoundType type type'
  | .functionCall func_def args type distinct, .functionCall func_def' args' type' distinct' =>
    func_def = func_def' && equalAll args args' && eqBoundType type type' && distinct = distinct'
  | .list elements element_type type, .list elements' element_type' type' =>
    equalAll elements elements' && eqBoundType element_type element_type' && eqBoundType type type'
  | .map entries type, .map entries' type' => equalEntries entries entries' && eqBoundType type type'
  | .caseExpr subject when_thens else_expr type, .caseExpr subject' when_thens' else_expr' type' =>
    eqOptExpr subject subject' && equalPairs when_thens when_thens' && eqOptExpr else_expr else_expr' &&
      eqBoundType type type'
  | .subscript a b type, .subscript a' b' type' =>
    equalBoundExpression a a' && equalBoundExpression b b' && eqBoundType type type'
  | .slice a from_expr to_expr type, .slice a' from_expr' to_expr' type' =>
    equalBoundExpression a a' && eqOptExpr from_expr from_expr' && eqOptExpr to_expr to_expr' &&
      eqBoundType type type'
  | .dynamicPropertyRef a property type, .dynamicPropertyRef a' property' type' =>
    equalBoundExpression a a' && property = property' && eqBoundType type type'
  | .propertyRef name a candidates type, .propertyRef name' a' candidates' type' =>
    name = name' && equalBoundExpression a a' && eqCandidates candidates candidates' &&
      eqBoundType type type'
  | .labelCast a label_id type, .labelCast a' label_id' type' =>
    equalBoundExpression a a' && label_id = label_id' && eqBoundType type type'
  | .quantifier kind x index list_expr where_pred type,
      .quantifier kind' x' index' list_expr' where_pred' type' =>
      kind = kind' && x = x' && index = index' && equalBoundExpression list_expr list_expr' &&
        eqOptExpr where_pred where_pred' && eqBoundType type type'
  | .listComprehension x index list_expr where_pred projection type,
      .listComprehension x' index' list_expr' where_pred' projection' type' =>
      x = x' && index = index' && equalBoundExpression list_expr list_expr' &&
        eqOptExpr where_pred where_pred' && eqBoundType type type' &&
          equalBoundExpression projection projection'
  | _, _ => false

def equalAll : List BoundExpression → List BoundExpression → Bool
  | [], [] => true
  | a :: as, b :: bs => equalBoundExpression a b && equalAll as bs
  | _, _ => false

def equalEntries : List (String × BoundExpression) → List (String × BoundExpression) → Bool
  | [], [] => true
  | (key, a) :: as, (key', b) :: bs => key = key' && equalBoundExpression a b && equalEntries as bs
  | _, _ => false

def equalPairs : List (BoundExpression × BoundExpression) → List (BoundExpression × BoundExpression) → Bool
  | [], [] => true
  | (a, b) :: as, (a', b') :: bs =>
    equalBoundExpression a a' && equalBoundExpression b b' && equalPairs as bs
  | _, _ => false

def eqOptExpr : Option BoundExpression → Option BoundExpression → Bool
  | none, none => true
  | some a, some b => equalBoundExpression a b
  | _, _ => false

end

def eqSortItems : List SortItem → List SortItem → Bool
  | [], [] => true
  | a :: as, b :: bs =>
    equalBoundExpression literalEquals a.expr b.expr && a.ascending = b.ascending && eqSortItems as bs
  | _, _ => false

def eqAggregates : List AggregateItem → List AggregateItem → Bool
  | [], [] => true
  | a :: as, b :: bs =>
    a.function_name = b.function_name && equalAll literalEquals a.arguments b.arguments &&
      a.alias_name = b.alias_name && eqBoundType a.result_type b.result_type &&
        a.func_def = b.func_def && a.distinct = b.distinct && a.is_internal = b.is_internal &&
          a.keeps_nulls = b.keeps_nulls && eqAggregates as bs
  | _, _ => false

def eqVarLenExpand (a b : BoundVarLenExpandOp) : Bool :=
  a.src_variable = b.src_variable && a.src_column_index = b.src_column_index &&
    a.dst_variable = b.dst_variable && a.dst_column_index = b.dst_column_index &&
      a.dst_slot_id = b.dst_slot_id && a.edge_label_ids = b.edge_label_ids &&
        a.all_edge_labels = b.all_edge_labels && a.direction = b.direction &&
          a.min_hops = b.min_hops && a.max_hops = b.max_hops &&
            a.dst_label_prop_ids = b.dst_label_prop_ids && a.dst_label_ids = b.dst_label_ids &&
              a.dst_label_missing = b.dst_label_missing && a.path_variable = b.path_variable &&
                a.path_column_index = b.path_column_index &&
                  a.path_handled_by_varlen = b.path_handled_by_varlen &&
                    a.shortest_path = b.shortest_path && a.all_shortest_paths = b.all_shortest_paths &&
                      a.edge_variable = b.edge_variable && a.edge_column_index = b.edge_column_index &&
                        a.edge_slot_id = b.edge_slot_id && a.bound_edge_list = b.bound_edge_list &&
                          a.bound_edge_list_col_index = b.bound_edge_list_col_index &&
                            a.prev_edge_var = b.prev_edge_var &&
                              a.prev_edge_col_index = b.prev_edge_col_index &&
                                a.edge_prop_filters = b.edge_prop_filters

def equalBoundLogicalOperator : BoundLogicalOperator → BoundLogicalOperator → Bool
  | .expand a, .expand b => a = b
  | .filter a, .filter b =>
    a.uniqueness_scope = b.uniqueness_scope && equalBoundExpression literalEquals a.predicate b.predicate
  | .aggregate a, .aggregate b =>
    equalAll literalEquals a.group_keys b.group_keys && eqAggregates literalEquals a.aggregates b.aggregates &&
      a.output_names = b.output_names
  | .sort a, .sort b => eqSortItems literalEquals a b
  | .distinct, .distinct => true
  | .pathBuild a, .pathBuild b =>
    a.path_variable = b.path_variable && a.path_column_index = b.path_column_index &&
      a.element_variables = b.element_variables
  | .varLenExpand a, .varLenExpand b => eqVarLenExpand a b
  | .pathCount a, .pathCount b => a = b
  | .other type fields, .other type' fields' => type = type' && fields = fields'
  | _, _ => false

end Equality

/-! ### Copies -/

/-- The slots of an expand are not copied, and a filter value is set on planned operators only. -/
def cloneBoundLogicalOperator : BoundLogicalOperator → BoundLogicalOperator
  | .expand op => .expand { op with src_slot_id := INVALID_SLOT_ID, edge_slot_id := INVALID_SLOT_ID,
                                    dst_slot_id := INVALID_SLOT_ID }
  | .varLenExpand op => .varLenExpand { op with dst_slot_id := INVALID_SLOT_ID,
                                                src_filter_index_id := 0, src_filter_value := .null,
                                                dst_filter_index_id := 0, dst_filter_value := .null }
  | op => op

/-! ### Groups and expressions -/

/-- An expression of a group. -/
structure MemoExpr extends GroupExpr where
  group_id : GroupId

/-- The logical expressions in the order they were added, in the groups below `group_count`. -/
structure Memo where
  exprs : List MemoExpr
  group_count : Nat

/-- How the memo recognises an operator. -/
structure MemoIndex where
  literalEquals : Value → Value → Bool
  computeHash : BoundLogicalOperator → List GroupId → UInt64

namespace Memo

def logical_exprs (memo : Memo) (gid : GroupId) : List MemoExpr := memo.exprs.filter (·.group_id = gid)

/-- The expressions of one hash are looked at in turn. -/
def findDuplicate (index : MemoIndex) (memo : Memo) (op : BoundLogicalOperator)
    (child_groups : List GroupId) : Option MemoExpr :=
  (memo.exprs.filter fun e =>
    index.computeHash e.op e.child_groups = index.computeHash op child_groups).find? fun e =>
      e.child_groups = child_groups && equalBoundLogicalOperator index.literalEquals e.op op

/-- The group of an expression, a new one unless the expression is there already. -/
def createGroupWithExpr (index : MemoIndex) (memo : Memo) (op : BoundLogicalOperator)
    (child_groups : List GroupId) : Memo × GroupId :=
  match memo.findDuplicate index op child_groups with
  | some dup => (memo, dup.group_id)
  | none =>
    ({ exprs := memo.exprs ++ [
     { op := op, child_groups := child_groups, group_id := memo.group_count }]
       group_count := memo.group_count + 1 }, memo.group_count)

/-- Every expression stands for the table of its group. -/
structure Denotes (ctx : PlanContext) (memo : Memo) (tables : GroupId → Table) : Prop where
  groups : ∀ e ∈ memo.exprs, e.group_id < memo.group_count
  children : ∀ e ∈ memo.exprs, ∀ c ∈ e.child_groups, c < memo.group_count
  same : ∀ e ∈ memo.exprs, (ctx.apply e.op (e.child_groups.map tables)).Same (tables e.group_id)
  wellFormed : ∀ gid < memo.group_count, (tables gid).WellFormed

/-- The tables of a memo after it has grown. -/
def Extends (memo : Memo) (tables tables' : GroupId → Table) : Prop :=
  ∀ gid < memo.group_count, tables' gid = tables gid

lemma Extends.trans {memo memo' : Memo} {tables tables' tables'' : GroupId → Table}
    (h : memo.Extends tables tables') (hle : memo.group_count ≤ memo'.group_count)
    (h' : memo'.Extends tables' tables'') : memo.Extends tables tables'' :=
  fun gid hgid => (h' gid (Nat.lt_of_lt_of_le hgid hle)).trans (h gid hgid)

end Memo

end Eugraph.Optimizer
