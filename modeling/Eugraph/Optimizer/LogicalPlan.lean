import Eugraph.Lib.RowExtension
import Eugraph.Optimizer.BoundExpression
import Eugraph.Query.Distinct
import Eugraph.Query.ExpandExact
import Eugraph.Query.ShortestPathExact

/-!
# Logical operators

The operators of a bound plan (`query/planner/logical_plan/operator`) and the table each makes
of the tables of its children.  Expands are planned as `physical_planner.cpp` plans them, for
the columns of the child, and work row by row.  Columns are referred to by name here; the
compiler of expressions turns names into positions once the plan is chosen.
-/

namespace Eugraph.Optimizer

open Lib Dataset DataStore

/-! ### Operators -/

inductive RelationshipDirection
  | LEFT_TO_RIGHT | RIGHT_TO_LEFT | UNDIRECTED
  deriving DecidableEq

def scanDirection : RelationshipDirection → Direction
  | .LEFT_TO_RIGHT => .OUT
  | .RIGHT_TO_LEFT => .IN
  | .UNDIRECTED => .BOTH

/-- `all_edge_labels`: no relationship type is written. -/
structure BoundExpandOp where
  src_variable : String
  src_column_index : UInt32
  src_slot_id : SlotId
  edge_variable : String
  edge_column_index : UInt32
  edge_slot_id : SlotId
  dst_variable : String
  dst_column_index : UInt32
  dst_slot_id : SlotId
  edge_label_ids : List EdgeLabelId
  all_edge_labels : Bool
  direction : RelationshipDirection
  edge_prop_ids : List PropId
  dst_label_prop_ids : List (LabelId × List PropId)
  dst_label_ids : List LabelId
  deriving DecidableEq

/-- The binder names every node of a pattern. -/
structure BoundVarLenExpandOp where
  src_variable : String
  src_column_index : UInt32
  dst_variable : String
  dst_column_index : UInt32
  dst_slot_id : SlotId
  edge_label_ids : List EdgeLabelId
  all_edge_labels : Bool
  direction : RelationshipDirection
  min_hops : Int
  max_hops : Int
  dst_label_prop_ids : List (LabelId × List PropId)
  dst_label_ids : List LabelId
  dst_label_missing : Bool
  path_variable : String
  path_column_index : UInt32
  path_handled_by_varlen : Bool
  shortest_path : Bool
  all_shortest_paths : Bool
  edge_variable : String
  edge_column_index : UInt32
  edge_slot_id : SlotId
  prev_edge_var : String
  prev_edge_col_index : UInt32
  bound_edge_list : Bool
  bound_edge_list_col_index : UInt32
  src_filter_index_id : UInt32
  src_filter_value : PropertyValue
  dst_filter_index_id : UInt32
  dst_filter_value : PropertyValue
  edge_prop_filters : List (EdgeLabelId × List (PropId × PropertyValue))
  dst_named : dst_variable ≠ ""

/-- Built for named paths only. -/
structure BoundPathBuildOp where
  path_variable : String
  path_column_index : UInt32
  element_variables : List String
  path_named : path_variable ≠ ""

inductive UniquenessScope
  | None | TopLevel | CorrelatedSubplan
  deriving DecidableEq

structure BoundFilterOp where
  predicate : BoundExpression
  uniqueness_scope : UniquenessScope

structure SortItem where
  expr : BoundExpression
  ascending : Bool

structure AggregateItem where
  function_name : String
  arguments : List BoundExpression
  alias_name : String
  result_type : BoundType
  func_def : Option FunctionDef
  distinct : Bool
  is_internal : Bool
  keeps_nulls : Bool

structure BoundAggregateOp where
  group_keys : List BoundExpression
  aggregates : List AggregateItem
  output_names : List String

structure BoundPathCountOp where
  source_variable : String
  dst_variable : String
  previous_edge_variables : List String
  edge_label_ids : List EdgeLabelId
  output_name : String
  deriving DecidableEq

/-- The operators that are not modelled one by one. -/
inductive OtherNodeType
  | Singleton | CorrelatedSource | Scan | LabelScan | Project | Skip | Limit
  | CreateNode | CreateEdge | Set | Remove | Delete
  | BinaryJoin | LeftJoin | SemiJoin | Unwind | Union | Merge
  | PatternComprehensionApply | Call | Foreach
  deriving DecidableEq

inductive OptNodeType
  | Expand | Filter | Aggregate | Sort | Distinct | PathBuild | VarLenExpand | PathCount
  | other (type : OtherNodeType)
  deriving DecidableEq

/-- An operator without its children; `other` carries a number that stands for its fields. -/
inductive BoundLogicalOperator
  | expand (op : BoundExpandOp)
  | filter (op : BoundFilterOp)
  | aggregate (op : BoundAggregateOp)
  | sort (items : List SortItem)
  | distinct
  | pathBuild (op : BoundPathBuildOp)
  | varLenExpand (op : BoundVarLenExpandOp)
  | pathCount (op : BoundPathCountOp)
  | other (type : OtherNodeType) (fields : Nat)

def BoundLogicalOperator.nodeType : BoundLogicalOperator → OptNodeType
  | .expand _ => .Expand
  | .filter _ => .Filter
  | .aggregate _ => .Aggregate
  | .sort _ => .Sort
  | .distinct => .Distinct
  | .pathBuild _ => .PathBuild
  | .varLenExpand _ => .VarLenExpand
  | .pathCount _ => .PathCount
  | .other type _ => .other type

/-! ### Tables -/

abbrev Schema := List String

/-- The first column of the name. -/
def findColumn (schema : Schema) (name : String) : Option Nat := schema.findIdx? (· = name)

/-- An optional variable of an operator; an empty name stands for none. -/
def existing (schema : Schema) (name : String) : Option Nat :=
  if name = "" then none else findColumn schema name

structure Table where
  schema : Schema
  rows : List Row

namespace Table

/-- Every row has a value for every column. -/
def WellFormed (t : Table) : Prop := ∀ row ∈ t.rows, row.length = t.schema.length

/-- The same columns, and the same rows in some order. -/
def Same (t t' : Table) : Prop := t.schema = t'.schema ∧ t.rows.Perm t'.rows

lemma Same.refl (t : Table) : t.Same t := ⟨rfl, .refl _⟩

lemma Same.symm {t t' : Table} (h : t.Same t') : t'.Same t := ⟨h.1.symm, h.2.symm⟩

lemma Same.trans {t t' t'' : Table} (h : t.Same t') (h' : t'.Same t'') : t.Same t'' :=
  ⟨h.1.trans h'.1, h.2.trans h'.2⟩

end Table

/-- The columns of a row by name. -/
def columnEnv (schema : Schema) (row : Row) : Env := fun name =>
  (findColumn schema name).bind fun c => row[c]?

variable {schema : Schema} {name : String}

lemma findColumn_isSome : (findColumn schema name).isSome ↔ name ∈ schema := by
  simp [findColumn]

lemma findColumn_eq_none : findColumn schema name = none ↔ name ∉ schema := by
  rw [← findColumn_isSome, Option.not_isSome_iff_eq_none]

lemma findColumn_append {names : Schema} (h : name ∈ schema) :
    findColumn (schema ++ names) name = findColumn schema name := by
  obtain ⟨c, hc⟩ := Option.isSome_iff_exists.mp (findColumn_isSome.mpr h)
  unfold findColumn at hc ⊢
  rw [List.findIdx?_append, hc]
  rfl

lemma findColumn_lt {c : Nat} (h : findColumn schema name = some c) :
    c < schema.length :=
  (List.findIdx?_eq_some_iff_getElem.mp h).1

/-- Columns behind those of the row hide none of them. -/
theorem columnEnv_append {names : Schema} {row ext : Row} (hwidth : row.length = schema.length)
    (h : name ∈ schema) :
    columnEnv (schema ++ names) (row ++ ext) name = columnEnv schema row name := by
  unfold columnEnv
  rw [findColumn_append h]
  cases hc : findColumn schema name with
  | none => rfl
  | some c =>
    have hlt := findColumn_lt hc
    show (row ++ ext)[c]? = row[c]?
    rw [List.getElem?_append_left (by omega)]

/-! ### What an execution relies on -/

/-- What the meaning of a plan depends on: the evaluation of expressions, the stored graph, the
types of its edges, the hashes of `DISTINCT`, the rounds a shortest-path search may take, the
order a sort gives, and the operators that are not modelled here. -/
structure PlanContext where
  ev : Evaluator
  store : ExpandReads
  graph : Graph
  edge_label_defs : List EdgeLabelId
  std : StdHash
  rounds : Nat
  sort : List SortItem → Schema → (rows : List Row) → { out : List Row // out.Perm rows }
  other : BoundLogicalOperator → List Table → Table

namespace PlanContext

variable (ctx : PlanContext)

/-- A row alone in a chunk. -/
def rowChunk (row : Row) : DataChunk := { columns := row.map .constant, count := 1 }

/-! #### Expand -/

/-- The labels a scan is restricted to; a probe for a bound destination needs them all. -/
def labelFilters (edge_label_ids : List EdgeLabelId) (all_edge_labels dst_bound : Bool) :
    Option (List EdgeLabelId) :=
  if all_edge_labels then (if dst_bound then some ctx.edge_label_defs else none)
  else some edge_label_ids

/-- The expand as it is planned above the columns, row by row and without a cache. -/
def planExpand (op : BoundExpandOp) (schema : Schema) : Expand.ExpandPhysicalOp where
  label_filters :=
    ctx.labelFilters op.edge_label_ids op.all_edge_labels (existing schema op.dst_variable).isSome
  direction := scanDirection op.direction
  src_col_idx := findColumn schema op.src_variable
  dst_var := op.dst_variable
  edge_var := op.edge_variable
  dst_label_ids := op.dst_label_ids
  dst_bound := (existing schema op.dst_variable).isSome
  edge_bound := (existing schema op.edge_variable).isSome
  dst_col_idx := (existing schema op.dst_variable).getD 0
  edge_col_idx := (existing schema op.edge_variable).getD 0
  full_scan_labels := []
  full_edge_scan := false
  neighbor_cache_enabled := false
  env_input_rows := none
  env_edges_per_source := none

/-- An optional variable that is no column of the child is a new column. -/
def newColumn (schema : Schema) (name : String) : Schema :=
  if name ≠ "" ∧ name ∉ schema then [name] else []

def expandColumns (op : BoundExpandOp) (schema : Schema) : Schema :=
  newColumn schema op.edge_variable ++ newColumn schema op.dst_variable

/-- The edges a row is expanded along. -/
def expandExtensions (op : BoundExpandOp) (schema : Schema) (row : Row) : List Row :=
  let physical := ctx.planExpand op schema
  (physical.takenSteps ctx.store ctx.graph (rowChunk row) 0).map
    (physical.appendedRow (physical.sourceId (rowChunk row) 0))

/-! #### Variable-length expand -/

def planVarLenExpand (op : BoundVarLenExpandOp) (schema : Schema) : VarLenExpandPhysicalOp where
  label_filters :=
    ctx.labelFilters op.edge_label_ids op.all_edge_labels (existing schema op.dst_variable).isSome
  direction := scanDirection op.direction
  min_hops := op.min_hops
  max_hops := op.max_hops
  output_types := []
  src_col_idx := findColumn schema op.src_variable
  path_var := op.path_variable
  edge_var := op.edge_variable
  edge_prop_filters label_id := (op.edge_prop_filters.lookup label_id).getD []
  dst_label_ids := op.dst_label_ids
  dst_bound := (existing schema op.dst_variable).isSome
  dst_col_idx := (existing schema op.dst_variable).getD 0
  edge_list_bound := op.bound_edge_list
  edge_list_col_idx := if op.bound_edge_list then findColumn schema op.edge_variable else none
  prev_edge_col_idx := existing schema op.prev_edge_var
  dst_label_missing := op.dst_label_missing
  src_filter_index_id := op.src_filter_index_id
  src_filter_value := op.src_filter_value
  dst_filter_index_id := op.dst_filter_index_id
  dst_filter_value := op.dst_filter_value

/-- The last column of the name. -/
def findLastColumn (schema : Schema) (name : String) : Option Nat :=
  (List.range schema.length).reverse.find? fun c => schema[c]? = some name

def planShortestPath (op : BoundVarLenExpandOp) (schema : Schema) : ShortestPathPhysicalOp where
  label_filters :=
    ctx.labelFilters op.edge_label_ids op.all_edge_labels (existing schema op.dst_variable).isSome
  forward_dir := scanDirection op.direction
  min_hops := op.min_hops
  max_hops := op.max_hops
  src_col_idx := findLastColumn schema op.src_variable
  dst_col_idx := findLastColumn schema op.dst_variable
  path_var := op.path_variable
  all_shortest_paths := op.all_shortest_paths
  dst_label_ids := op.dst_label_ids
  dst_label_missing := op.dst_label_missing
  src_filter_index_id := op.src_filter_index_id
  src_filter_value := op.src_filter_value
  dst_filter_index_id := op.dst_filter_index_id
  dst_filter_value := op.dst_filter_value

/-- The paths between the two vertices of a row. -/
def searchedPaths (op : ShortestPathPhysicalOp) (row : Row) : List (List Value) :=
  let start := op.startOf (rowChunk row) 0
  let stop := op.stopOf (rowChunk row) 0
  if op.dst_label_missing || !op.searches ctx.store.toGraphReads start stop ||
      !(op.hasDstLabels ctx.store.toGraphReads .empty stop).1 then []
  else if op.all_shortest_paths then
    ((op.allShortestPaths ctx.store.toGraphReads ctx.rounds .empty start stop).toOption.map (·.1)).getD []
  else
    ((op.shortestBidirectional ctx.store.toGraphReads ctx.rounds .empty start stop).toOption.bind
      (·.1)).toList

def varLenExpandColumns (op : BoundVarLenExpandOp) (schema : Schema) : Schema :=
  newColumn schema op.dst_variable ++ (if op.path_variable = "" then [] else [op.path_variable]) ++
    (if op.edge_variable ≠ "" ∧ ¬ op.bound_edge_list then [op.edge_variable] else [])

def varLenExpandExtensions (op : BoundVarLenExpandOp) (schema : Schema) (row : Row) : List Row :=
  if op.shortest_path || op.all_shortest_paths then
    (ctx.searchedPaths (ctx.planShortestPath op schema) row).map fun path =>
      if op.path_variable = "" then [] else [.path path]
  else if op.dst_label_missing then []
  else
    let physical := ctx.planVarLenExpand op schema
    (physical.rowWalks ctx.store.toGraphReads ctx.graph (rowChunk row) 0).map fun walk =>
      (physical.outputRow ctx.store.toGraphReads (rowChunk row) 0 walk).drop row.length

end PlanContext

/-! #### Path build -/

namespace PathBuild

/-- A path under construction; `last_vertex` is the end of its last element. -/
structure Topology where
  path : PathTopology
  last_vertex : VertexId

def Topology.empty : Topology := ⟨⟨[], [], [], [], [], []⟩, INVALID_VERTEX_ID⟩

/-- A vertex that is the end of the path already is not repeated. -/
def append_vertex_element (t : Topology) (vid : VertexId) : Topology :=
  { path :=
      if t.path.vertex_ids.getLast? = some vid then t.path
      else { t.path with vertex_ids := t.path.vertex_ids ++ [vid] }
    last_vertex := vid }

/-- The far end of the edge follows, also that of a loop. -/
def append_edge (t : Topology) (src dst : VertexId) (eid : EdgeId) (elid : EdgeLabelId) (seq : UInt32) :
    Topology :=
  let neighbor := if t.last_vertex = INVALID_VERTEX_ID ∨ src = t.last_vertex then dst else src
  { path :=
      { vertex_ids := t.path.vertex_ids ++ [neighbor]
        edge_ids := t.path.edge_ids ++ [eid]
        edge_label_ids := t.path.edge_label_ids ++ [elid]
        seqs := t.path.seqs ++ [seq]
        edge_src_ids := t.path.edge_src_ids ++ [src]
        edge_dst_ids := t.path.edge_dst_ids ++ [dst] }
    last_vertex := neighbor }

def append_edge_value (t : Topology) : Value → Topology
  | .edgeKey k => append_edge t k.src_id k.dst_id k.id k.label_id k.seq
  | .edge e => append_edge t e.src_id e.dst_id e.id e.label_id e.seq.toUInt32
  | _ => t

def append_element (t : Topology) : Value → Topology
  | .vertexRef id => append_vertex_element t id
  | .vertex v => append_vertex_element t v.id
  | .list elements => elements.foldl append_edge_value t
  | val => append_edge_value t val

/-- The path of a row; a variable that is no column is passed over. -/
def path (op : BoundPathBuildOp) (schema : Schema) (row : Row) : PathTopology :=
  ((op.element_variables.filterMap fun name => columnEnv schema row name).foldl append_element
    Topology.empty).path

end PathBuild

/-! ### Meaning -/

namespace PlanContext

variable (ctx : PlanContext)

/-- A filter keeps the rows for which its predicate is true. -/
def keeps (predicate : BoundExpression) (schema : Schema) (row : Row) : Bool :=
  match predicate.eval ctx.ev (columnEnv schema row) with
  | .bool b => b
  | _ => false

def filterTable (op : BoundFilterOp) (t : Table) : Table where
  schema := t.schema
  rows := t.rows.filter (ctx.keeps op.predicate t.schema)

/-- The columns an operator appends. -/
def appendedColumns (op : BoundLogicalOperator) (schema : Schema) : Schema :=
  match op with
  | .expand op => expandColumns op schema
  | .varLenExpand op => varLenExpandColumns op schema
  | .pathBuild op => [op.path_variable]
  | _ => []

/-- What an operator puts behind a row. -/
def extensions (op : BoundLogicalOperator) (schema : Schema) (row : Row) : List Row :=
  match op with
  | .expand op => ctx.expandExtensions op schema row
  | .varLenExpand op => ctx.varLenExpandExtensions op schema row
  | .pathBuild op => [[.pathTopology (PathBuild.path op schema row)]]
  | _ => [[]]

def extendTable (op : BoundLogicalOperator) (t : Table) : Table where
  schema := t.schema ++ appendedColumns op t.schema
  rows := extendRows (ctx.extensions op t.schema) t.rows

/-- The table an operator makes of those of its children. -/
def apply (op : BoundLogicalOperator) (children : List Table) : Table :=
  match op, children with
  | .filter filter, [t] => ctx.filterTable filter t
  | .sort items, [t] => { t with rows := ctx.sort items t.schema t.rows }
  | .distinct, [t] => { t with rows := firsts (sameDigest ctx.std) t.rows }
  | .expand op, [t] => ctx.extendTable (.expand op) t
  | .varLenExpand op, [t] => ctx.extendTable (.varLenExpand op) t
  | .pathBuild op, [t] => ctx.extendTable (.pathBuild op) t
  | op, ts => ctx.other op ts

end PlanContext

/-! ### A small setting -/

/-- Null checks, lists and folds over lists; everything else is null. -/
def nullChecks : Evaluator where
  missing _ := .null
  parameter _ := .null
  dynamicPropertyRef _ _ := .null
  propertyRef _ _ _ := .null
  labelCast _ _ := .null
  binaryOp _ _ _ := .null
  unaryOp op v :=
    match op with
    | .IS_NULL => .bool (isNull v)
    | .IS_NOT_NULL => .bool (!isNull v)
    | _ => .null
  functionCall _ _ _ := .null
  list := .list
  map _ := .null
  caseExpr _ _ _ := .null
  subscript _ _ := .null
  slice _ _ _ := .null
  quantifier _ _ _ := .null
  listComprehension _ _ _ := .null
  reduce init container step :=
    match container with
    | .list elements => elements.foldl step init
    | _ => .null

/-- The edge from vertex 1 to vertex 2, with `nullChecks`. -/
def smallContext : PlanContext where
  ev := nullChecks
  store := Expand.ExpandPhysicalOp.expandReads Expand.ExpandPhysicalOp.oneEdge
  graph := Expand.ExpandPhysicalOp.oneEdge
  edge_label_defs := [7]
  std := identityHash
  rounds := 0
  sort _ _ rows := ⟨rows, .refl _⟩
  other _ _ := ⟨[], []⟩

/-- `(a)-[e]->(b)`. -/
def expandFromA : BoundExpandOp where
  src_variable := "a"
  src_column_index := 0
  src_slot_id := 1
  edge_variable := "e"
  edge_column_index := 1
  edge_slot_id := 2
  dst_variable := "b"
  dst_column_index := 2
  dst_slot_id := 3
  edge_label_ids := []
  all_edge_labels := true
  direction := .LEFT_TO_RIGHT
  edge_prop_ids := []
  dst_label_prop_ids := []
  dst_label_ids := []

/-- The two vertices as `a`. -/
def tableOfA : Table := ⟨["a"], [[.vertexRef 1], [.vertexRef 2]]⟩

end Eugraph.Optimizer
