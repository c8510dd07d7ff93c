import Eugraph.Optimizer.EdgeUniqueness
import Eugraph.Query.PathCount

/-!
# Path-count fusion

`path_count_fusion.cpp`: a count without groups, over an edge-uniqueness filter over an outgoing
expand, becomes a count of the extensions of the expand's input.  The earlier edges that leave
the last vertex are subtracted from its degree, which is right where these are just the edges
the expand or the filter leaves out: where the hop's variables are new and the earlier edges
are different stored edges of the types counted.
-/

namespace Eugraph.Optimizer

open Lib Dataset DataStore List Option EdgeUniquenessPushdownRule Dataset.Expand.ExpandPhysicalOp
  Dataset.PathCountPhysicalOp
open EdgeUniquenessPushdownRule (appends_iff edgeUniqueCall_spec)

namespace PathCountFusionRule

/-! ### The rule -/

def countAcceptsPath (item : AggregateItem) (final_dst : String) : Bool :=
  match item.arguments with
  | [] => true
  | [arg] =>
    edgeArgName arg = final_dst ||
      match arg with
      | .literal value _ => !isNull value
      | _ => false
  | _ => false

structure FusionShape where
  expand_expr : MemoExpr
  final_expand : BoundExpandOp
  edge_names : List String

variable (memo : Memo)

/-- A filter on all edges but the last, among the expressions of the expand's input. -/
def prefixOk (edge_names : List String) (prefix_group : GroupId) : Bool :=
  edge_names.length ≤ 2 || (memo.logical_exprs prefix_group).any fun prefix_expr =>
    match prefix_expr.op with
    | .filter filter =>
      match edgeUniqueCall filter with
      | some call => call.args.map edgeArgName = edge_names.dropLast
      | none => false
    | _ => false

def expandShape (item : AggregateItem) (unique : EdgeUniqueCall) (expand_expr : MemoExpr) :
    Option FusionShape :=
  match expand_expr.op, expand_expr.child_groups with
  | .expand final, [prefix_group] =>
    let edge_names := unique.args.map edgeArgName
    if final.direction = .LEFT_TO_RIGHT ∧ final.dst_label_ids = [] ∧ final.dst_label_prop_ids = [] ∧
        final.edge_prop_ids = [] ∧ countAcceptsPath item final.dst_variable = true ∧
        edge_names.getLast? = some final.edge_variable ∧ prefixOk memo edge_names prefix_group = true then
      some ⟨expand_expr, final, edge_names⟩
    else none
  | _, _ => none

def filterShape (item : AggregateItem) (filter_expr : MemoExpr) : Option FusionShape :=
  match filter_expr.op, filter_expr.child_groups with
  | .filter filter, [expand_group] =>
    if filter.uniqueness_scope = .CorrelatedSubplan then none
    else
      match edgeUniqueCall filter with
      | some unique =>
        if unique.args.length < 2 then none
        else (memo.logical_exprs expand_group).findSome? (expandShape memo item unique)
      | none => none
  | _, _ => none

/-- The first shape among the expressions of the groups. -/
def findShape (expr : GroupExpr) (item : AggregateItem) : Option FusionShape :=
  match expr.child_groups with
  | [filter_group] => (memo.logical_exprs filter_group).findSome? (filterShape memo item)
  | _ => none

/-- The aggregate, if the rule applies, with the shape and the name of the count. -/
def fused (expr : GroupExpr) : Option (FusionShape × String) :=
  match expr.op with
  | .aggregate agg =>
    match agg.group_keys, agg.aggregates, agg.output_names with
    | [], [item], [output_name] =>
      if item.func_def.any (·.name = "count") && !item.distinct && !item.is_internal then
        (findShape memo expr item).map (·, output_name)
      else none
    | _, _, _ => none
  | _ => none

def condition (expr : GroupExpr) : Bool := (fused memo expr).isSome

def pathCount (shape : FusionShape) (output_name : String) : BoundPathCountOp where
  source_variable := shape.final_expand.src_variable
  dst_variable := shape.final_expand.dst_variable
  previous_edge_variables := shape.edge_names.dropLast
  edge_label_ids := shape.final_expand.edge_label_ids
  output_name := output_name

def substitute (expr : GroupExpr) : List GroupExpr :=
  match fused memo expr with
  | some (shape, output_name) =>
    [⟨.pathCount (pathCount shape output_name), shape.expand_expr.child_groups.take 1⟩]
  | none => []

/-- The plan of the count above the columns; a variable that is no column is an error. -/
def planPathCount (op : BoundPathCountOp) (schema : Schema) : Option PathCountPhysicalOp := do
  let source_column ← findColumn schema op.source_variable
  let previous_edge_columns ← op.previous_edge_variables.mapM (findColumn schema)
  some ⟨source_column, previous_edge_columns, op.edge_label_ids⟩

/-! ### What is subtracted and what is left out -/

variable (ctx : PlanContext)

open PlanContext

/-- The value of the last edge behind a row: of the column if there is one. -/
def lastEdge (final : BoundExpandOp) (schema : Schema) (row : Row) (e : StoredEdge) : Value :=
  match existing schema final.edge_variable with
  | some c => row[c]?.getD .null
  | none => .edgeKey ⟨e.id, e.src, e.dst, e.label_id, e.seq.toUInt32⟩

/-- The expand takes the edge: its type is asked for, and it is the bound edge and leads to the
bound destination, if there are such. -/
def expandTakes (final : BoundExpandOp) (schema : Schema) (row : Row) (e : StoredEdge) : Bool :=
  let physical := ctx.planExpand final schema
  physical.labelPasses e.label_id && physical.edgeMatches (rowChunk row) 0 e.id &&
    physical.dstMatches (rowChunk row) 0 e.dst

/-- The edge repeats none of the earlier ones, nor do these repeat each other. -/
def repeatsNone (final : BoundExpandOp) (op : PathCountPhysicalOp) (schema : Schema) (row : Row)
    (e : StoredEdge) : Bool :=
  edgeUniqueBatch ((op.previous_edge_columns.map fun c => row[c]?.getD .null) ++
    [lastEdge final schema row e])

/-- The counted edges at the vertex of a row that the expand does not take. -/
def untaken (final : BoundExpandOp) (op : PathCountPhysicalOp) (schema : Schema) (row : Row) : Nat :=
  ((op.leaving ctx.graph (op.sourceOf row)).filter fun e => !expandTakes ctx final schema row e).length

/-- The edges the expand takes for a row and the filter leaves out. -/
def repeated (final : BoundExpandOp) (op : PathCountPhysicalOp) (schema : Schema) (row : Row) : Nat :=
  ((op.leaving ctx.graph (op.sourceOf row)).filter fun e =>
    expandTakes ctx final schema row e && !repeatsNone final op schema row e).length

/-- The vertex an edge value starts at. -/
def startOf : Value → Option VertexId
  | .edgeKey k => some k.src_id
  | .edge e => some e.src_id
  | _ => none

/-- The earlier edges of a row that start at its vertex, no more than there are counted edges. -/
def earlierHere (op : PathCountPhysicalOp) (row : Row) : Nat :=
  min (op.previous_edge_columns.countP fun c => startOf (row[c]?.getD .null) = some (op.sourceOf row))
    (op.leaving ctx.graph (op.sourceOf row)).length

/-- The planned count returns the number of the rows, for every stream of the input's rows and
every bound of the cache. -/
def Counted (op : BoundPathCountOp) (input filtered : Table) : Prop :=
  ∃ physical, planPathCount op input.schema = some physical ∧
    ∀ (env : Option UInt64) (child : List DataChunk), (streamRows child).Perm input.rows →
      (physical.executeChunk ctx.store.toGraphReads env child).toInt = filtered.rows.length

/-- The columns are there, and over all rows the earlier edges at a vertex that repeat as no
edge of the hop are as many as the hop's repeated edges that are no earlier edge there and
those the expand does not take. -/
def NoneAstray (op : BoundPathCountOp) (final : BoundExpandOp) (input : Table) : Prop :=
  ∃ physical, planPathCount op input.schema = some physical ∧
    (input.rows.map fun row =>
        earlierHere ctx physical row - repeated ctx final physical input.schema row).sum =
      (input.rows.map fun row =>
        (repeated ctx final physical input.schema row - earlierHere ctx physical row) +
          untaken ctx final physical input.schema row).sum

/-- All the degrees together fit the counter. -/
def DegreesFit (op : BoundPathCountOp) (input : Table) : Prop :=
  ∀ physical, planPathCount op input.schema = some physical →
    (input.rows.map fun row => (physical.leaving ctx.graph (physical.sourceOf row)).length).sum < 2 ^ 63

/-! ### The shape -/

/-- What the search has found. -/
structure Found (item : AggregateItem) (expr : GroupExpr) (shape : FusionShape) (filter_expr : MemoExpr)
    (filter : BoundFilterOp) (unique : EdgeUniqueCall) (prefix_group : GroupId) : Prop where
  filter_mem : filter_expr ∈ memo.exprs
  filter_group : expr.child_groups = [filter_expr.group_id]
  filter_op : filter_expr.op = .filter filter
  expand_mem : shape.expand_expr ∈ memo.exprs
  expand_group : filter_expr.child_groups = [shape.expand_expr.group_id]
  expand_op : shape.expand_expr.op = .expand shape.final_expand
  input_group : shape.expand_expr.child_groups = [prefix_group]
  call : edgeUniqueCall filter = some unique
  names : shape.edge_names = unique.args.map edgeArgName
  two : 2 ≤ unique.args.length
  last : shape.edge_names.getLast? = some shape.final_expand.edge_variable
  outgoing : shape.final_expand.direction = .LEFT_TO_RIGHT
  no_labels : shape.final_expand.dst_label_ids = []
  prefix_ok : prefixOk memo shape.edge_names prefix_group = true

variable {memo}

lemma mem_logical_exprs {gid : GroupId} {e : MemoExpr} (h : e ∈ memo.logical_exprs gid) :
    e ∈ memo.exprs ∧ e.group_id = gid := by
  obtain ⟨hmem, hgroup⟩ := mem_filter.mp h
  exact ⟨hmem, of_decide_eq_true hgroup⟩

lemma findShape_spec {item : AggregateItem} {expr : GroupExpr} {shape : FusionShape}
    (h : findShape memo expr item = some shape) :
    ∃ filter_expr filter unique prefix_group, Found memo item expr shape filter_expr filter unique prefix_group := by
  unfold findShape at h
  split at h
  next filter_group hchildren =>
    obtain ⟨filter_expr, hlisted, hfilter⟩ := exists_of_findSome?_eq_some h
    obtain ⟨hfilter_mem, rfl⟩ := mem_logical_exprs hlisted
    unfold filterShape at hfilter
    split at hfilter
    next filter expand_group hop hbelow =>
      split at hfilter
      next => cases hfilter
      next =>
        split at hfilter
        next unique hcall =>
          split at hfilter
          next => cases hfilter
          next htwo =>
            obtain ⟨expand_expr, hlisted', hexpand⟩ := exists_of_findSome?_eq_some hfilter
            obtain ⟨hexpand_mem, rfl⟩ := mem_logical_exprs hlisted'
            unfold expandShape at hexpand
            split at hexpand
            next final prefix_group hexpand_op hinput =>
              dsimp only at hexpand
              split at hexpand
              next hconds =>
                obtain rfl := some.inj hexpand
                obtain ⟨houtgoing, hlabels, -, -, -, hlast, hleads⟩ := hconds
                exact ⟨filter_expr, filter, unique, prefix_group, hfilter_mem, hchildren, hop,
                  hexpand_mem, hbelow, hexpand_op, hinput, hcall, rfl, by omega, hlast,
                  houtgoing, hlabels, hleads⟩
              next => cases hexpand
            next => cases hexpand
        next => cases hfilter
    next => cases hfilter
  next => cases h

/-! ### One row -/

lemma forall₂_of_mapM {α β : Type} {f : α → Option β} {xs : List α} {ys : List β}
    (h : xs.mapM f = some ys) : Forall₂ (fun x y => f x = some y) xs ys := by
  induction xs generalizing ys with
  | nil =>
    obtain rfl := some.inj h
    exact .nil
  | cons x rest ih =>
    rw [mapM_cons] at h
    obtain ⟨y, hy, hrest⟩ := bind_eq_some_iff.mp h
    obtain ⟨ys', hys, hpair⟩ := bind_eq_some_iff.mp hrest
    obtain rfl := some.inj hpair
    exact .cons hy (ih hys)

/-- The planned count reads the columns of the variables. -/
theorem planPathCount_spec {op : BoundPathCountOp} {schema : Schema} {physical : PathCountPhysicalOp}
    (h : planPathCount op schema = some physical) :
    findColumn schema op.source_variable = some physical.source_column ∧
      Forall₂ (fun name c => findColumn schema name = some c) op.previous_edge_variables
        physical.previous_edge_columns ∧ physical.edge_labels = op.edge_label_ids := by
  unfold planPathCount at h
  obtain ⟨source_column, hsource, h⟩ := bind_eq_some_iff.mp h
  obtain ⟨previous, hprevious, h⟩ := bind_eq_some_iff.mp h
  obtain rfl := some.inj h
  exact ⟨hsource, forall₂_of_mapM hprevious, rfl⟩

lemma getValue_rowChunk_zero (row : Row) (c : Nat) : (rowChunk row).getValue c 0 = row[c]?.getD .null := by
  unfold DataChunk.getValue rowChunk
  rw [getElem?_map]
  cases row[c]? with
  | none => rfl
  | some v => rfl

section Row

variable {ctx} {item : AggregateItem} {expr : GroupExpr} {shape : FusionShape} {filter_expr : MemoExpr}
variable {filter : BoundFilterOp} {unique : EdgeUniqueCall} {prefix_group : GroupId}
variable {output_name : String} {schema : Schema} {physical : PathCountPhysicalOp} {row : Row}

lemma eval_of_edgeArgName {arg : BoundExpression} (h : edgeArgName arg ≠ "") (env : Env) :
    arg.eval ctx.ev env = (env (edgeArgName arg)).getD (ctx.ev.missing (edgeArgName arg)) := by
  cases arg with
  | columnRef ref => rfl
  | variableRef name type => rfl
  | _ => exact absurd rfl h

/-- The expand and the count start at the same vertex. -/
theorem sourceId_planExpand (hplan : planPathCount (pathCount shape output_name) schema = some physical) :
    (ctx.planExpand shape.final_expand schema).sourceId (rowChunk row) 0 = physical.sourceOf row := by
  have hsource : findColumn schema shape.final_expand.src_variable = some physical.source_column :=
    (planPathCount_spec hplan).1
  unfold sourceId sourceOf planExpand
  rw [hsource]
  show Column.cellVertexId ((rowChunk row).getValue physical.source_column 0) = _
  rw [getValue_rowChunk_zero]

/-- A column of the row, behind which others may stand. -/
theorem columnEnv_of_findColumn {names : Schema} {ext : Row} (hwidth : row.length = schema.length)
    {name : String} {c : Nat} (hc : findColumn schema name = some c) :
    columnEnv (schema ++ names) (row ++ ext) name = some (row[c]?.getD .null) := by
  have hmem : name ∈ schema := findColumn_isSome.mp (by rw [hc]; rfl)
  rw [columnEnv_append hwidth hmem]
  unfold columnEnv
  rw [hc]
  have hlt : c < row.length := by
    rw [hwidth]
    exact findColumn_lt hc
  simp [hlt]

lemma map_columnEnv {names : Schema} {ext : Row} (hwidth : row.length = schema.length)
    {previous : List String} {columns : List Nat}
    (h : Forall₂ (fun name c => findColumn schema name = some c) previous columns) :
    (previous.map fun name =>
        (columnEnv (schema ++ names) (row ++ ext) name).getD (ctx.ev.missing name)) =
      columns.map fun c => row[c]?.getD .null := by
  induction h with
  | nil => rfl
  | cons hc _ ih =>
    rw [map_cons, map_cons, ih, columnEnv_of_findColumn hwidth hc]
    rfl

/-- The edge of the hop behind a row, as the filter reads it. -/
theorem columnEnv_lastEdge (hwidth : row.length = schema.length) {final : BoundExpandOp}
    (hnamed : final.edge_variable ≠ "") (t : Traversal) (v : VertexId) :
    columnEnv (schema ++ expandColumns final schema)
        (row ++ (ctx.planExpand final schema).appendedRow v t) final.edge_variable =
      some (lastEdge final schema row t.edge) := by
  unfold lastEdge
  cases hc : existing schema final.edge_variable with
  | some c =>
    unfold existing at hc
    rw [if_neg hnamed] at hc
    exact columnEnv_of_findColumn hwidth hc
  | none =>
    have hnew : findColumn schema final.edge_variable = none := by
      unfold existing at hc
      rwa [if_neg hnamed] at hc
    have happends : (ctx.planExpand final schema).appendsEdge = true :=
      appends_iff.mpr ⟨hnamed, findColumn_eq_none.mp hnew⟩
    have hcolumns : expandColumns final schema = final.edge_variable :: newColumn schema final.dst_variable := by
      unfold expandColumns newColumn
      rw [if_pos ⟨hnamed, findColumn_eq_none.mp hnew⟩]
      rfl
    have hfound : findColumn (schema ++ expandColumns final schema) final.edge_variable = some schema.length := by
      unfold findColumn at hnew ⊢
      rw [findIdx?_append, hnew, hcolumns]
      simp [findIdx?_cons]
    unfold columnEnv
    rw [hfound, ← hwidth]
    show (row ++ (ctx.planExpand final schema).appendedRow v t)[row.length]? = _
    rw [getElem?_append_right (Nat.le_refl _), Nat.sub_self, appendedRow, if_pos happends]
    rfl

lemma takenSteps_outgoing (final : BoundExpandOp) (houtgoing : final.direction = .LEFT_TO_RIGHT)
    (hlabels : final.dst_label_ids = []) (schema : Schema) (row : Row) :
    (ctx.planExpand final schema).takenSteps ctx.store ctx.graph (rowChunk row) 0 =
      (ctx.graph.edges.filter fun e =>
        e.src = (ctx.planExpand final schema).sourceId (rowChunk row) 0 &&
          expandTakes ctx final schema row e).map fun e => ⟨e, e.dst⟩ := by
  have hdirection : (ctx.planExpand final schema).direction = .OUT := by
    show scanDirection final.direction = .OUT
    rw [houtgoing]
    rfl
  have hdst (v : VertexId) : (ctx.planExpand final schema).dstLabelsMatch ctx.store v = true := by
    show final.dst_label_ids.all (ctx.store.getVertexLabels v).contains = true
    rw [hlabels]
    rfl
  have hprobed : (ctx.planExpand final schema).unprobed = false := by
    unfold unprobed
    rw [hdirection]
    rfl
  unfold takenSteps Graph.incident
  rw [hdirection, if_neg (by decide)]
  unfold VarLenExpandPhysicalOp.sideSteps
  rw [List.filter_map, List.filter_filter]
  congr 1
  apply filter_congr
  intro e _
  simp only [Function.comp, hdst, hprobed, Bool.false_or, Bool.and_true, expandTakes, if_true, passesFilter,
    all_none]
  exact Bool.and_comm _ _

/-- An edge the expand takes is counted; no written type stands for all types. -/
theorem countsLabel_of_expandTakes
    (hall : shape.final_expand.all_edge_labels = true → shape.final_expand.edge_label_ids = [])
    (hplan : planPathCount (pathCount shape output_name) schema = some physical) {e : StoredEdge}
    (h : expandTakes ctx shape.final_expand schema row e = true) : physical.countsLabel e.label_id = true := by
  have hids : physical.edge_labels = shape.final_expand.edge_label_ids := (planPathCount_spec hplan).2.2
  unfold expandTakes at h
  simp only [Bool.and_eq_true] at h
  have hpasses : (ctx.labelFilters shape.final_expand.edge_label_ids shape.final_expand.all_edge_labels
      (existing schema shape.final_expand.dst_variable).isSome).all (·.contains e.label_id) = true := h.1.1
  unfold countsLabel
  rw [hids]
  cases hlabels : shape.final_expand.all_edge_labels with
  | true =>
    rw [hall hlabels]
    rfl
  | false =>
    rw [hlabels] at hpasses
    have hcontains : shape.final_expand.edge_label_ids.contains e.label_id = true := hpasses
    rw [hcontains, Bool.or_true]

lemma length_filter_add_filter {α : Type} (p q : α → Bool) (xs : List α) :
    (xs.filter fun x => p x && q x).length + (xs.filter fun x => p x && !q x).length +
      (xs.filter fun x => !p x).length = xs.length := by
  induction xs with
  | nil => rfl
  | cons x rest ih => cases hp : p x <;> cases hq : q x <;> simp [hp, hq] <;> omega

/-- The rows the filter keeps behind a row. -/
def keptBehind (ctx : PlanContext) (final : BoundExpandOp) (filter : BoundFilterOp) (schema : Schema) (row : Row) :
    List Row :=
  ((ctx.expandExtensions final schema row).map (row ++ ·)).filter
    (ctx.keeps filter.predicate (schema ++ expandColumns final schema))

/-- The count reads the start of an edge value; no edge starts at the invalid vertex. -/
theorem recorded_eq (hvalid : physical.sourceOf row ≠ INVALID_VERTEX_ID) :
    physical.recorded row =
      physical.previous_edge_columns.countP fun c => startOf (row[c]?.getD .null) =
        some (physical.sourceOf row) := by
  have hstart (v : Value) : edgeSource v = physical.sourceOf row ↔ startOf v = some (physical.sourceOf row) := by
    cases v <;> simp [edgeSource, startOf, hvalid.symm]
  unfold recorded
  exact countP_congr fun c _ => by simp [hstart]

/-- What the count takes away for a row are its earlier edges at the vertex. -/
theorem choices_add_earlierHere (hreads : ctx.store.Holds ctx.graph) (hends : ctx.graph.ValidEnds)
    (hfits : (physical.leaving ctx.graph (physical.sourceOf row)).length < 2 ^ 63) :
    physical.choices ctx.store.toGraphReads row + earlierHere ctx physical row =
      (physical.leaving ctx.graph (physical.sourceOf row)).length := by
  have hchoices := choices_eq hreads.toHolds (fun e he => (hends e he).1) hfits
  unfold earlierHere
  by_cases hinvalid : physical.sourceOf row = INVALID_VERTEX_ID
  · have hzero : physical.choices ctx.store.toGraphReads row = 0 := if_pos hinvalid
    have hnone : physical.leaving ctx.graph (physical.sourceOf row) = [] := by
      rw [hinvalid, eq_nil_iff_forall_not_mem]
      intro e he
      obtain ⟨hedge, hkept⟩ := mem_filter.mp he
      exact (hends e hedge).1 (of_decide_eq_true (Bool.and_eq_true_iff.mp hkept).1)
    rw [hzero, hnone]
    simp
  · rw [hchoices, recorded_eq hinvalid]
    omega

/-! ### All rows -/

lemma sum_add_sum {α : Type} (xs : List α) {a b c d : α → Nat} (h : ∀ x ∈ xs, a x + b x = c x + d x) :
    (xs.map a).sum + (xs.map b).sum = (xs.map c).sum + (xs.map d).sum := by
  rw [← List.sum_map_add, ← List.sum_map_add, map_congr_left h]

variable {tables : GroupId → Table}

/-- The rows of the filter's group, counted row by row of the expand's input. -/
theorem length_filter_group (h : memo.Denotes ctx tables)
    (hfound : Found memo item expr shape filter_expr filter unique prefix_group) :
    (tables filter_expr.group_id).rows.length =
      ((tables prefix_group).rows.map fun row =>
        (keptBehind ctx shape.final_expand filter (tables prefix_group).schema row).length).sum := by
  have hexpand := h.same _ hfound.expand_mem
  have hfilter := h.same _ hfound.filter_mem
  rw [hfound.expand_op, hfound.input_group] at hexpand
  rw [hfound.filter_op, hfound.expand_group] at hfilter
  have hrows : ((ctx.filterTable filter
      (ctx.extendTable (.expand shape.final_expand) (tables prefix_group))).rows).Perm
      (tables filter_expr.group_id).rows :=
    ((PlanContext.filterTable_same hexpand).trans hfilter).2
  rw [← hrows.length_eq]
  show ((extendRows (ctx.expandExtensions shape.final_expand (tables prefix_group).schema)
    (tables prefix_group).rows).filter (ctx.keeps filter.predicate ((tables prefix_group).schema ++
      expandColumns shape.final_expand (tables prefix_group).schema))).length = _
  unfold extendRows
  rw [filter_flatMap, length_flatMap]
  rfl

/-- A stream of the rows, a chunk for each. -/
theorem streamRows_rowChunks (rows : List Row) : streamRows (rows.map rowChunk) = rows := by
  unfold streamRows
  rw [flatMap_map]
  have hrow (row : Row) : (rowChunk row).rows = [row] := by
    show [(row.map Column.constant).map (·.getValue 0)] = [row]
    rw [List.map_map]
    congr 1
    exact map_id' row
  simp only [hrow]
  exact flatMap_singleton' rows

lemma fused_spec {expr : GroupExpr} (h : fused memo expr = some (shape, output_name)) :
    ∃ item, findShape memo expr item = some shape := by
  unfold fused at h
  split at h
  next agg _ =>
    split at h
    next item _ _ _ _ =>
      split at h
      next =>
        obtain ⟨found, hitem, hpair⟩ := map_eq_some_iff.mp h
        exact ⟨item, (Prod.mk.inj hpair).1 ▸ hitem⟩
      next => cases h
    next => cases h
  next => cases h

variable (hunique : EvaluatesEdgeUnique ctx.ev)
  (hfound : Found memo item expr shape filter_expr filter unique prefix_group) (hnamed : "" ∉ shape.edge_names)

include hunique hfound hnamed

/-- The filter keeps a step whose edge repeats none. -/
theorem keeps_step (hwidth : row.length = schema.length)
    (hplan : planPathCount (pathCount shape output_name) schema = some physical)
    (t : Traversal) (v : VertexId) :
    ctx.keeps filter.predicate (schema ++ expandColumns shape.final_expand schema)
        (row ++ (ctx.planExpand shape.final_expand schema).appendedRow v t) =
      repeatsNone shape.final_expand physical schema row t.edge := by
  obtain ⟨hname, type, distinct, hpredicate⟩ := edgeUniqueCall_spec hfound.call
  have hprevious : Forall₂ (fun name c => findColumn schema name = some c) shape.edge_names.dropLast
      physical.previous_edge_columns := (planPathCount_spec hplan).2.1
  have hlast : shape.edge_names = shape.edge_names.dropLast ++ [shape.final_expand.edge_variable] :=
    (dropLast_append_getLast? _ hfound.last).symm
  have hedge : shape.final_expand.edge_variable ≠ "" := by
    intro hempty
    rw [hempty] at hlast
    exact hnamed (hlast ▸ mem_append_right _ mem_cons_self)
  generalize henv : columnEnv (schema ++ expandColumns shape.final_expand schema)
    (row ++ (ctx.planExpand shape.final_expand schema).appendedRow v t) = env
  -- the arguments are the earlier columns and the last edge
  have hargs : unique.args.map (fun arg => arg.eval ctx.ev env) =
      (physical.previous_edge_columns.map fun c => row[c]?.getD .null) ++
        [lastEdge shape.final_expand schema row t.edge] := by
    have heval : unique.args.map (fun arg => arg.eval ctx.ev env) =
        shape.edge_names.map fun name => (env name).getD (ctx.ev.missing name) := by
      rw [hfound.names, List.map_map]
      apply map_congr_left
      intro arg harg
      apply eval_of_edgeArgName
      intro hempty
      apply hnamed
      rw [hfound.names, ← hempty]
      exact mem_map_of_mem harg
    rw [heval, hlast, map_append, map_singleton]
    congr 1
    · rw [← henv]
      exact map_columnEnv hwidth hprevious
    · rw [← henv, columnEnv_lastEdge hwidth hedge]
      rfl
  unfold keeps
  rw [hpredicate, BoundExpression.eval, BoundExpression.evalAll_eq, hunique _ _ _ hname, henv, hargs]
  rfl

variable (hall : shape.final_expand.all_edge_labels = true → shape.final_expand.edge_label_ids = [])

include hall

/-- They are one for each counted edge that is taken and not repeated. -/
theorem length_kept (hwidth : row.length = schema.length)
    (hplan : planPathCount (pathCount shape output_name) schema = some physical) :
    (keptBehind ctx shape.final_expand filter schema row).length +
      repeated ctx shape.final_expand physical schema row +
        untaken ctx shape.final_expand physical schema row =
      (physical.leaving ctx.graph (physical.sourceOf row)).length := by
  have hkept : (keptBehind ctx shape.final_expand filter schema row).length =
      ((physical.leaving ctx.graph (physical.sourceOf row)).filter fun e =>
        expandTakes ctx shape.final_expand schema row e &&
          repeatsNone shape.final_expand physical schema row e).length := by
    unfold keptBehind expandExtensions leaving
    dsimp only
    rw [takenSteps_outgoing _ hfound.outgoing hfound.no_labels, sourceId_planExpand hplan, List.map_map,
      List.map_map, List.filter_map, length_map, List.filter_filter, List.filter_filter]
    congr 1
    apply filter_congr
    intro e _
    simp only [Function.comp, keeps_step hunique hfound hnamed hwidth hplan]
    cases htakes : expandTakes ctx shape.final_expand schema row e with
    | false => simp
    | true =>
      rw [countsLabel_of_expandTakes hall hplan htakes]
      simp [Bool.and_comm]
  rw [hkept]
  exact length_filter_add_filter _ _ _

/-- What is counted over all rows, beside the rows the filter keeps. -/
theorem sum_choices_iff (hreads : ctx.store.Holds ctx.graph) (hends : ctx.graph.ValidEnds)
    {input : Table} (hwell : input.WellFormed)
    (hplan : planPathCount (pathCount shape output_name) input.schema = some physical)
    (hfits : DegreesFit ctx (pathCount shape output_name) input) :
    (input.rows.map (physical.choices ctx.store.toGraphReads)).sum < 2 ^ 63 ∧
      ((input.rows.map (physical.choices ctx.store.toGraphReads)).sum =
          (input.rows.map fun row => (keptBehind ctx shape.final_expand filter input.schema row).length).sum ↔
        (input.rows.map fun row =>
            earlierHere ctx physical row - repeated ctx shape.final_expand physical input.schema row).sum =
          (input.rows.map fun row =>
            (repeated ctx shape.final_expand physical input.schema row - earlierHere ctx physical row) +
              untaken ctx shape.final_expand physical input.schema row).sum) := by
  have htaken : ∀ row ∈ input.rows, physical.choices ctx.store.toGraphReads row + earlierHere ctx physical row =
      (physical.leaving ctx.graph (physical.sourceOf row)).length := fun row hrow =>
    choices_add_earlierHere hreads hends (Nat.lt_of_le_of_lt
      (single_le_sum (fun _ _ => Nat.zero_le _) _ (mem_map.mpr ⟨row, hrow, rfl⟩)) (hfits physical hplan))
  refine ⟨Nat.lt_of_le_of_lt (sum_le_sum fun row hrow => ?_) (hfits physical hplan), ?_⟩
  · have hrow := htaken row hrow
    omega
  · have hrows := sum_add_sum input.rows (fun row hrow => by
      have hkept := length_kept hunique hfound hnamed hall (hwell row hrow) hplan
      have hrow := htaken row hrow
      have hbalance : physical.choices ctx.store.toGraphReads row +
          (earlierHere ctx physical row - repeated ctx shape.final_expand physical input.schema row) =
        (keptBehind ctx shape.final_expand filter input.schema row).length +
          ((repeated ctx shape.final_expand physical input.schema row - earlierHere ctx physical row) +
            untaken ctx shape.final_expand physical input.schema row) := by
        omega
      exact hbalance)
    omega

/-- The planned count is right when nothing goes astray on balance, and only then. -/
theorem counted_iff_of_found (hreads : ctx.store.Holds ctx.graph) (hends : ctx.graph.ValidEnds)
    (h : memo.Denotes ctx tables)
    (hfits : DegreesFit ctx (pathCount shape output_name) (tables prefix_group)) :
    Counted ctx (pathCount shape output_name) (tables prefix_group) (tables filter_expr.group_id) ↔
      NoneAstray ctx (pathCount shape output_name) shape.final_expand (tables prefix_group) := by
  have hleads : prefix_group < memo.group_count :=
    h.children _ hfound.expand_mem prefix_group (by rw [hfound.input_group]; exact mem_cons_self)
  have hlength := length_filter_group h hfound
  have hwell := h.wellFormed prefix_group hleads
  generalize tables filter_expr.group_id = output at *
  generalize tables prefix_group = input at *
  have hsums : ∀ physical, planPathCount (pathCount shape output_name) input.schema = some physical → _ :=
    fun physical hplan => sum_choices_iff hunique hfound hnamed hall hreads hends hwell hplan hfits
  constructor
  · rintro ⟨physical, hplan, hcount⟩
    obtain ⟨hchoices, hbalance⟩ := hsums physical hplan
    refine ⟨physical, hplan, hbalance.mp ?_⟩
    have hone := hcount none (input.rows.map rowChunk) (.of_eq (streamRows_rowChunks _))
    rw [executeChunk_eq none (by rw [streamRows_rowChunks]; exact hchoices), streamRows_rowChunks] at hone
    exact (Int.ofNat_inj.mp hone).trans hlength
  · rintro ⟨physical, hplan, hsum⟩
    obtain ⟨hchoices, hbalance⟩ := hsums physical hplan
    refine ⟨physical, hplan, fun env child hchild => ?_⟩
    have hperm := (hchild.map (physical.choices ctx.store.toGraphReads)).sum_eq
    rw [executeChunk_eq env (hperm ▸ hchoices), hperm, hbalance.mpr hsum, hlength]

end Row

/-- The fused plan returns the number of rows exactly when, over all rows, the earlier edges
that are subtracted and repeat as no edge of the hop are balanced by edges of the hop that are
counted, left out and not subtracted. -/
theorem counted_iff (ctx : PlanContext) (memo : Memo) (tables : GroupId → Table)
    (hreads : ctx.store.Holds ctx.graph) (hends : ctx.graph.ValidEnds)
    (hunique : EvaluatesEdgeUnique ctx.ev) (h : memo.Denotes ctx tables)
    (expr : GroupExpr) (shape : FusionShape) (output_name : String)
    (hfused : fused memo expr = some (shape, output_name)) (hnamed : "" ∉ shape.edge_names)
    (hall : shape.final_expand.all_edge_labels = true → shape.final_expand.edge_label_ids = []) :
    ∃ filter_group prefix_group, expr.child_groups = [filter_group] ∧
      substitute memo expr = [⟨.pathCount (pathCount shape output_name), [prefix_group]⟩] ∧
      (DegreesFit ctx (pathCount shape output_name) (tables prefix_group) →
        (Counted ctx (pathCount shape output_name) (tables prefix_group) (tables filter_group) ↔
          NoneAstray ctx (pathCount shape output_name) shape.final_expand (tables prefix_group))) := by
  obtain ⟨item, hshape⟩ := fused_spec hfused
  obtain ⟨filter_expr, filter, unique, prefix_group, hfound⟩ := findShape_spec hshape
  refine ⟨filter_expr.group_id, prefix_group, hfound.filter_group, ?_,
    counted_iff_of_found hunique hfound hnamed hall hreads hends h⟩
  unfold substitute
  rw [hfused]
  show [GroupExpr.mk _ (shape.expand_expr.child_groups.take 1)] = _
  rw [hfound.input_group]
  rfl

/-! ### Where the subtraction is right -/

section Recorded

variable {ctx} {final : BoundExpandOp} {op : PathCountPhysicalOp} {schema : Schema} {row : Row}
  {edges : List StoredEdge}

/-- The value is that of the edge, or its reference. -/
def Records (v : Value) (e : StoredEdge) : Prop := startOf v = some e.src ∧ argumentEdgeIds v = [e.id]

/-- The hop's variables are new and its types are listed or all, and in each row the earlier
edges are different stored edges, those that start at its vertex of the counted types. -/
structure RecordsEdges (ctx : PlanContext) (op : PathCountPhysicalOp) (final : BoundExpandOp) (input : Table) :
    Prop where
  edge_new : existing input.schema final.edge_variable = none
  dst_new : existing input.schema final.dst_variable = none
  types : final.all_edge_labels = true ∨ final.edge_label_ids ≠ []
  stored : ∀ row ∈ input.rows, ∃ edges : List StoredEdge,
    Forall₂ (fun c e => Records (row[c]?.getD .null) e) op.previous_edge_columns edges ∧ (edges.map (·.id)).Nodup ∧
      ∀ e ∈ edges, e ∈ ctx.graph.edges ∧ (e.src = op.sourceOf row → op.countsLabel e.label_id = true)

/-- A new hop takes every counted edge. -/
theorem expandTakes_of_new (hedge : existing schema final.edge_variable = none)
    (hdst : existing schema final.dst_variable = none)
    (htypes : final.all_edge_labels = true ∨ final.edge_label_ids ≠ [])
    (hlabels : op.edge_labels = final.edge_label_ids) {e : StoredEdge}

    (hcounted : op.countsLabel e.label_id = true) : expandTakes ctx final schema row e = true := by
  have hpasses : (ctx.planExpand final schema).labelPasses e.label_id = true := by
    show (ctx.labelFilters final.edge_label_ids final.all_edge_labels
      (existing schema final.dst_variable).isSome).all
      (·.contains e.label_id) = true
    rw [hdst, PlanContext.labelFilters]
    rcases htypes with hall | hlisted
    · rw [hall]
      rfl
    · rw [countsLabel, hlabels, Bool.or_eq_true, decide_eq_true_eq] at hcounted
      split
      · rfl
      · simpa using hcounted.resolve_left hlisted
  have hedge_bound : (ctx.planExpand final schema).edge_bound = false := by
    show (existing schema final.edge_variable).isSome = false
    rw [hedge]
    rfl
  have hdst_bound : (ctx.planExpand final schema).dst_bound = false := by
    show (existing schema final.dst_variable).isSome = false
    rw [hdst]
    rfl
  simp [expandTakes, hpasses, edgeMatches, dstMatches, hedge_bound, hdst_bound]

lemma flatMap_argumentEdgeIds {columns : List Nat}
    (h : Forall₂ (fun c e => Records (row[c]?.getD .null) e) columns edges) :
    (columns.map fun c => row[c]?.getD .null).flatMap argumentEdgeIds = edges.map (·.id) := by
  induction h with
  | nil => rfl
  | cons hrec _ ih => rw [map_cons, flatMap_cons, ih, hrec.2]; rfl

lemma countP_startOf {columns : List Nat} (source : VertexId)
    (h : Forall₂ (fun c e => Records (row[c]?.getD .null) e) columns edges) :
    (columns.countP fun c => startOf (row[c]?.getD .null) = some source) =
      (edges.filter (·.src = source)).length := by
  induction h with
  | nil => rfl
  | cons hrec _ ih =>
    rw [countP_cons, ih, filter_cons, hrec.1]
    split <;> simp_all

lemma invalid_not_mem_argumentEdgeIds (v : Value) : INVALID_EDGE_ID ∉ argumentEdgeIds v := by
  have helement (v : Value) : INVALID_EDGE_ID ∉ elementEdgeId v := by
    unfold elementEdgeId
    split
    · split <;> simp_all [eq_comm]
    · split <;> simp_all [eq_comm]
    · simp
  unfold argumentEdgeIds
  split
  · simp [helement]
  · exact helement v

/-- The new hop repeats just the earlier edges. -/
theorem repeatsNone_iff (hedge : existing schema final.edge_variable = none)
    (hrecords : Forall₂ (fun c e => Records (row[c]?.getD .null) e) op.previous_edge_columns edges)
    (hnodup : (edges.map (·.id)).Nodup) (e : StoredEdge) :
    repeatsNone final op schema row e = true ↔ e.id ∉ edges.map (·.id) := by
  have hvalid : INVALID_EDGE_ID ∉ edges.map (·.id) := by
    rw [← flatMap_argumentEdgeIds hrecords]
    simp [invalid_not_mem_argumentEdgeIds]
  rw [repeatsNone, edgeUniqueBatch_iff, flatMap_append, flatMap_argumentEdgeIds hrecords, lastEdge, hedge,
    flatMap_singleton]
  by_cases hid : e.id = INVALID_EDGE_ID
  · simp [argumentEdgeIds, elementEdgeId, hid, hnodup, hvalid]
  · simp [argumentEdgeIds, elementEdgeId, hid, nodup_append, hnodup]

/-- Under the condition the earlier edges at the vertex of a row are the repeated ones, and
nothing is left untaken. -/
theorem recorded_row {input : Table} (h : RecordsEdges ctx op final input)
    (hlabels : op.edge_labels = final.edge_label_ids) (hrow : row ∈ input.rows) :
    earlierHere ctx op row = repeated ctx final op input.schema row ∧ untaken ctx final op input.schema row = 0 := by
  obtain ⟨edges, hrecords, hnodup, hstored⟩ := h.stored row hrow
  have htakes : ∀ e ∈ op.leaving ctx.graph (op.sourceOf row), expandTakes ctx final input.schema row e = true := by
    intro e he
    have hkept := (mem_filter.mp he).2
    rw [Bool.and_eq_true] at hkept
    exact expandTakes_of_new h.edge_new h.dst_new h.types hlabels hkept.2
  have hsame : ((op.leaving ctx.graph (op.sourceOf row)).filter fun e =>
      expandTakes ctx final input.schema row e && !repeatsNone final op input.schema row e).Perm
      (edges.filter (·.src = op.sourceOf row)) := by
    have hgraph : (op.leaving ctx.graph (op.sourceOf row)).Nodup := (Nodup.of_map _ ctx.graph.distinct).filter _
    rw [perm_ext_iff_of_nodup (hgraph.filter _) ((Nodup.of_map _ hnodup).filter _)]
    intro e
    have hrepeats := repeatsNone_iff h.edge_new hrecords hnodup e
    simp only [mem_filter, Bool.and_eq_true, Bool.not_eq_true', decide_eq_true_eq, ← Bool.not_eq_true, hrepeats,
      not_not]
    constructor
    · rintro ⟨hleaving, -, hid⟩
      obtain ⟨e', he', hsame⟩ := mem_map.mp hid
      obtain ⟨hedge, hkept⟩ := mem_filter.mp hleaving
      obtain rfl := inj_on_of_nodup_map ctx.graph.distinct (hstored e' he').1 hedge hsame
      rw [Bool.and_eq_true, decide_eq_true_eq] at hkept
      exact ⟨he', hkept.1⟩
    · rintro ⟨hmem, hsrc⟩
      have hleaving : e ∈ op.leaving ctx.graph (op.sourceOf row) :=
        mem_filter.mpr ⟨(hstored e hmem).1, by simp [hsrc, (hstored e hmem).2 hsrc]⟩
      exact ⟨hleaving, htakes e hleaving, mem_map_of_mem hmem⟩
  have hlength := hsame.length_eq
  refine ⟨?_, ?_⟩
  · rw [earlierHere, countP_startOf _ hrecords, ← hlength, repeated]
    exact min_eq_left (length_filter_le _ _)
  · rw [untaken, length_eq_zero_iff, filter_eq_nil_iff]
    exact fun e he => by simp [htakes e he]

/-- A count above a new hop is right where the rows hold different stored edges of counted types. -/
theorem noneAstray_of_recordsEdges {op : BoundPathCountOp} {input : Table} {physical : PathCountPhysicalOp}
    (hplan : planPathCount op input.schema = some physical) (hids : op.edge_label_ids = final.edge_label_ids)
    (h : RecordsEdges ctx physical final input) : NoneAstray ctx op final input := by
  refine ⟨physical, hplan, ?_⟩
  have hrow := fun row (hrow : row ∈ input.rows) => recorded_row h ((planPathCount_spec hplan).2.2.trans hids) hrow
  congr 1
  refine map_congr_left fun row hmem => ?_
  rw [(hrow row hmem).1, (hrow row hmem).2]
  rfl

end Recorded

/-! ### Two hops -/

/-- A hop of one type. -/
def hopOfType (label : EdgeLabelId) (hop : BoundExpandOp) : BoundExpandOp :=
  { hop with edge_label_ids := [label], all_edge_labels := false }

def hopContext (g : Graph) : PlanContext :=
  { uniqueContext with
    store := expandReads g
    graph := g }

def countAll : BoundAggregateOp where
  group_keys := []
  aggregates := [⟨"count", [], "n", .of .INT64, some ⟨"count", 0⟩, false, false, false⟩]
  output_names := ["n"]

/-- `MATCH (a)-[e:7]->(b)-[f:label]->(c) RETURN count(*) AS n`. -/
def hopMemo (label : EdgeLabelId) : Memo where
  exprs := [⟨⟨.other .Scan 0, []⟩, 0⟩, ⟨⟨.expand (hopOfType 7 expandFromA), [0]⟩, 1⟩,
    ⟨⟨.expand (hopOfType label expandFromB), [1]⟩, 2⟩, ⟨⟨.filter edgesDiffer, [2]⟩, 3⟩]
  group_count := 4

def hopTables (g : Graph) (label : EdgeLabelId) : GroupId → Table
  | 0 => tableOfA
  | 1 => (hopContext g).extendTable (.expand (hopOfType 7 expandFromA)) tableOfA
  | 2 => (hopContext g).extendTable (.expand (hopOfType label expandFromB))
      ((hopContext g).extendTable (.expand (hopOfType 7 expandFromA)) tableOfA)
  | _ => (hopContext g).filterTable edgesDiffer
      ((hopContext g).extendTable (.expand (hopOfType label expandFromB))
        ((hopContext g).extendTable (.expand (hopOfType 7 expandFromA)) tableOfA))

lemma hopMemo_denotes (g : Graph) (label : EdgeLabelId) :
    (hopMemo label).Denotes (hopContext g) (hopTables g label) where
  groups := by simp [hopMemo]
  children := by simp [hopMemo]
  same e he := by
    simp only [hopMemo, mem_cons, not_mem_nil, or_false] at he
    obtain rfl | rfl | rfl | rfl := he
    all_goals exact .refl _
  wellFormed gid _ := by
    have hleaf : tableOfA.WellFormed := by
      unfold Table.WellFormed
      decide
    have hfirst : (hopTables g label 1).WellFormed := wellFormed_extendTable (hopOfType 7 expandFromA) hleaf
    have hsecond : (hopTables g label 2).WellFormed := wellFormed_extendTable (hopOfType label expandFromB) hfirst
    match gid with
    | 0 => exact hleaf
    | 1 => exact hfirst
    | 2 => exact hsecond
    | _ + 3 => exact wellFormed_filterTable _ hsecond

def hopShape (label : EdgeLabelId) : FusionShape :=
  ⟨⟨⟨.expand (hopOfType label expandFromB), [1]⟩, 2⟩, hopOfType label expandFromB, ["e", "f"]⟩

lemma fused_hopMemo (label : EdgeLabelId) :
    fused (hopMemo label) ⟨.aggregate countAll, [3]⟩ = some (hopShape label, "n") := by
  rfl

/-- A loop at vertex 1 and an edge from it, of one type. -/
def oneType : Graph where
  edges := [⟨10, 1, 1, 7, 0⟩, ⟨11, 1, 2, 7, 0⟩]
  distinct := by decide

/-- The loop can be followed by the other edge and not by itself: both plans count one path. -/
theorem counted_iff_oneType : (hopTables oneType 7 3).rows.length = 1 ∧
    Counted (hopContext oneType) (pathCount (hopShape 7) "n") (hopTables oneType 7 1) (hopTables oneType 7 3) := by
  have hends : oneType.ValidEnds := by
    unfold Graph.ValidEnds
    decide
  obtain ⟨filter_group, prefix_group, hfilter, hsubstitute, hcounted⟩ := counted_iff (hopContext oneType) (hopMemo 7)
    (hopTables oneType 7) (expandReads_holds oneType) hends (fun _ _ _ hname => if_pos hname)
      (hopMemo_denotes oneType 7)
    ⟨.aggregate countAll, [3]⟩ (hopShape 7) "n" (fused_hopMemo 7) (by decide) (fun h => absurd h (by decide))
  obtain rfl : 3 = filter_group := (cons.inj hfilter).1
  obtain rfl : 1 = prefix_group := by
    have hplans : [GroupExpr.mk (.pathCount (pathCount (hopShape 7) "n")) [1]] = _ := hsubstitute
    simpa using hplans
  refine ⟨by decide, (hcounted ?_).mpr ⟨⟨2, [1], [7]⟩, rfl, by decide⟩⟩
  intro physical hplan
  obtain rfl : (⟨2, [1], [7]⟩ : PathCountPhysicalOp) = physical := some.inj hplan
  decide

/-- A loop of type 7 at vertex 1 and an edge of type 8 from it. -/
def mixedTypes : Graph where
  edges := [⟨10, 1, 1, 7, 0⟩, ⟨11, 1, 2, 8, 0⟩]
  distinct := by decide

/-- The loop is of another type than the last hop and is subtracted all the same: the plan
counts no path where there is one. -/
theorem other_type_is_subtracted : condition (hopMemo 8) ⟨.aggregate countAll, [3]⟩ = true ∧
      (hopMemo 8).Denotes (hopContext mixedTypes) (hopTables mixedTypes 8) ∧
        (hopTables mixedTypes 8 3).rows.length = 1 ∧
      ¬ Counted (hopContext mixedTypes) (pathCount (hopShape 8) "n") (hopTables mixedTypes 8 1)
        (hopTables mixedTypes 8 3) := by
  refine ⟨rfl, hopMemo_denotes mixedTypes 8, by decide, ?_⟩
  rintro ⟨physical, hplan, hcount⟩
  have hplanned : planPathCount (pathCount (hopShape 8) "n") (hopTables mixedTypes 8 1).schema =
    some ⟨2, [1], [8]⟩ := rfl
  obtain rfl := some.inj (hplanned.symm.trans hplan)
  have hzero := hcount none [rowChunk [.vertexRef 1, .edgeKey ⟨10, 1, 1, 7, 0⟩, .vertexRef 1]] (.of_eq rfl)
  revert hzero
  decide

end PathCountFusionRule

end Eugraph.Optimizer
