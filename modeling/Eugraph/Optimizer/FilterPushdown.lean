import Eugraph.Optimizer.Memo

/-!
# Filter pushdown

`filter_pushdown.cpp`: a filter above an operator that neither drops nor cuts rows moves below
it, unless its predicate names a variable the operator introduces.  The names of a predicate
are collected by a walk that does not enter every expression.
-/

namespace Eugraph.Optimizer

open Lib Dataset DataStore List

/-! ### The rule -/

/-- Skipping and limiting are not penetrable: which rows are cut depends on those below. -/
def isPenetrable : OptNodeType → Bool
  | .Expand | .VarLenExpand | .PathBuild | .Filter | .Sort | .Distinct => true
  | _ => false

namespace BoundExpression

/-- `if (!val->variable.empty()) out.insert(val->variable)`. -/
def loopName (loop_variable : String) : List String :=
  if loop_variable = "" then [] else [loop_variable]

mutual

def collectColumnNames : BoundExpression → List String
  | .columnRef ref => [ref.name]
  | .variableRef name _ => [name]
  | .binaryOp _ left right _ => collectColumnNames left ++ collectColumnNames right
  | .unaryOp _ operand _ => collectColumnNames operand
  | .propertyRef _ object _ _ => collectColumnNames object
  | .dynamicPropertyRef object _ _ => collectColumnNames object
  | .labelCast object _ _ => collectColumnNames object
  | .functionCall _ args _ _ => collectColumnNamesAll args
  | .list elements _ _ => collectColumnNamesAll elements
  | .caseExpr subject when_thens else_expr _ =>
    collectColumnNamesOpt subject ++ collectColumnNamesPairs when_thens ++
      collectColumnNamesOpt else_expr
  | .subscript container index _ => collectColumnNames container ++ collectColumnNames index
  | .slice container from_expr to_expr _ =>
    collectColumnNames container ++ collectColumnNamesOpt from_expr ++ collectColumnNamesOpt to_expr
  | .map entries _ => collectColumnNamesEntries entries
  | .listComprehension loop_variable _ list_expr where_pred projection _ =>
    loopName loop_variable ++ collectColumnNames list_expr ++ collectColumnNamesOpt where_pred ++
      collectColumnNames projection
  | .quantifier _ loop_variable _ list_expr where_pred _ =>
    loopName loop_variable ++ collectColumnNames list_expr ++ collectColumnNamesOpt where_pred
  -- literals and parameters, and the two kinds the walk has no branch for
  | .literal _ _ | .parameter _ _ | .reduce _ _ _ _ _ _ _ | .patternComprehension _ _ _ _ _ => []

def collectColumnNamesAll : List BoundExpression → List String
  | [] => []
  | e :: rest => collectColumnNames e ++ collectColumnNamesAll rest

def collectColumnNamesEntries : List (String × BoundExpression) → List String
  | [] => []
  | (_, e) :: rest => collectColumnNames e ++ collectColumnNamesEntries rest

def collectColumnNamesPairs : List (BoundExpression × BoundExpression) → List String
  | [] => []
  | (w, t) :: rest => collectColumnNames w ++ collectColumnNames t ++ collectColumnNamesPairs rest

def collectColumnNamesOpt : Option BoundExpression → List String
  | none => []
  | some e => collectColumnNames e

end

end BoundExpression

/-- A variable of an operator; an empty name stands for none. -/
def variableName (name : String) : List String := if name = "" then [] else [name]

def introducedVariableNames : BoundLogicalOperator → List String
  | .expand op => variableName op.edge_variable ++ variableName op.dst_variable
  | .varLenExpand op =>
    variableName op.dst_variable ++ variableName op.path_variable ++ variableName op.edge_variable
  | .pathBuild op => variableName op.path_variable
  | _ => []

def canPushThroughPredicate (predicate : BoundExpression) (child_op : BoundLogicalOperator) : Bool :=
  isPenetrable child_op.nodeType &&
    (introducedVariableNames child_op).all fun name => !predicate.collectColumnNames.contains name

/-- `Child(Filter(X))`. -/
structure PushedFilter where
  child_op : BoundLogicalOperator
  filter_op : BoundFilterOp
  grandchild_groups : List GroupId

namespace FilterPushdownRule

/-- One expression for each of the child's that the filter may pass. -/
def substitute (filter_op : BoundFilterOp) (child_group : List GroupExpr) : List PushedFilter :=
  (child_group.filter fun child_expr =>
    canPushThroughPredicate filter_op.predicate child_expr.op).map fun child_expr =>
      { child_op := child_expr.op
        filter_op := { predicate := filter_op.predicate, uniqueness_scope := filter_op.uniqueness_scope }
        grandchild_groups := child_expr.child_groups }

end FilterPushdownRule

/-! ### The names that are not collected -/

namespace BoundExpression

mutual

/-- The names read inside of the expressions the walk does not enter. -/
def missedNames : BoundExpression → List String
  | .dynamicPropertyRef object _ _ => missedNames object
  | .propertyRef _ object _ _ => missedNames object
  | .labelCast object _ _ => missedNames object
  | .binaryOp _ left right _ => missedNames left ++ missedNames right
  | .unaryOp _ operand _ => missedNames operand
  | .functionCall _ args _ _ => missedNamesAll args
  | .list elements _ _ => missedNamesAll elements
  | .map entries _ => missedNamesEntries entries
  | .caseExpr subject when_thens else_expr _ =>
    missedNamesOpt subject ++ missedNamesPairs when_thens ++ missedNamesOpt else_expr
  | .subscript container index _ => missedNames container ++ missedNames index
  | .slice container from_expr to_expr _ =>
    missedNames container ++ missedNamesOpt from_expr ++ missedNamesOpt to_expr
  | .quantifier _ loop_variable _ list_expr where_pred _ =>
    missedNames list_expr ++ (missedNamesOpt where_pred).filter (· ≠ loop_variable)
  | .listComprehension loop_variable _ list_expr where_pred projection _ =>
    missedNames list_expr ++
      (missedNamesOpt where_pred ++ missedNames projection).filter (· ≠ loop_variable)
  | .reduce accumulator loop_variable slots init list_expr expr result_type =>
    freeNames (.reduce accumulator loop_variable slots init list_expr expr result_type)
  | .patternComprehension _ output_name _ _ _ => [output_name]
  | .literal _ _ | .columnRef _ | .variableRef _ _ | .parameter _ _ => []

def missedNamesAll : List BoundExpression → List String
  | [] => []
  | e :: rest => missedNames e ++ missedNamesAll rest

def missedNamesEntries : List (String × BoundExpression) → List String
  | [] => []
  | (_, e) :: rest => missedNames e ++ missedNamesEntries rest

def missedNamesPairs : List (BoundExpression × BoundExpression) → List String
  | [] => []
  | (w, t) :: rest => missedNames w ++ missedNames t ++ missedNamesPairs rest

def missedNamesOpt : Option BoundExpression → List String
  | none => []
  | some e => missedNames e

end

/-- Every name read is collected or missed, and the missed ones are read. -/
structure Covered (e : BoundExpression) : Prop where
  collected : ∀ n ∈ freeNames e, n ∈ collectColumnNames e ∨ n ∈ missedNames e
  missed : ∀ n ∈ missedNames e, n ∈ freeNames e

lemma covered_all {es : List BoundExpression} (h : ∀ e ∈ es, Covered e) :
    (∀ n ∈ freeNamesAll es, n ∈ collectColumnNamesAll es ∨ n ∈ missedNamesAll es) ∧
      ∀ n ∈ missedNamesAll es, n ∈ freeNamesAll es := by
  induction es with
  | nil => simp [freeNamesAll, missedNamesAll]
  | cons e rest ih =>
    obtain ⟨hcollected, hmissed⟩ := ih fun x hx => h x (mem_cons_of_mem _ hx)
    have he := h e mem_cons_self
    have hec := he.collected
    have hem := he.missed
    simp only [freeNamesAll, collectColumnNamesAll, missedNamesAll, mem_append]
    grind

lemma covered_entries {entries : List (String × BoundExpression)} (h : ∀ entry ∈ entries, Covered entry.2) :
    (∀ n ∈ freeNamesEntries entries, n ∈ collectColumnNamesEntries entries ∨ n ∈ missedNamesEntries entries) ∧
      ∀ n ∈ missedNamesEntries entries, n ∈ freeNamesEntries entries := by
  induction entries with
  | nil => simp [freeNamesEntries, missedNamesEntries]
  | cons entry rest ih =>
    obtain ⟨hcollected, hmissed⟩ := ih fun x hx => h x (mem_cons_of_mem _ hx)
    have he := h entry mem_cons_self
    have hec := he.collected
    have hem := he.missed
    simp only [freeNamesEntries, collectColumnNamesEntries, missedNamesEntries, mem_append]
    grind

lemma covered_pairs {pairs : List (BoundExpression × BoundExpression)}
    (h : ∀ p ∈ pairs, Covered p.1 ∧ Covered p.2) :
    (∀ n ∈ freeNamesPairs pairs, n ∈ collectColumnNamesPairs pairs ∨ n ∈ missedNamesPairs pairs) ∧
      ∀ n ∈ missedNamesPairs pairs, n ∈ freeNamesPairs pairs := by
  induction pairs with
  | nil => simp [freeNamesPairs, missedNamesPairs]
  | cons p rest ih =>
    obtain ⟨hcollected, hmissed⟩ := ih fun x hx => h x (mem_cons_of_mem _ hx)
    obtain ⟨⟨hwc, hwm⟩, htc, htm⟩ := h p mem_cons_self
    simp only [freeNamesPairs, collectColumnNamesPairs, missedNamesPairs, mem_append]
    grind

lemma covered_opt {e : Option BoundExpression} (h : ∀ x ∈ e, Covered x) :
    (∀ n ∈ freeNamesOpt e, n ∈ collectColumnNamesOpt e ∨ n ∈ missedNamesOpt e) ∧
      ∀ n ∈ missedNamesOpt e, n ∈ freeNamesOpt e := by
  cases e with
  | none => simp [freeNamesOpt, missedNamesOpt]
  | some x => exact ⟨(h x rfl).collected, (h x rfl).missed⟩

lemma covered (e : BoundExpression) : Covered e := by
  induction e using BoundExpression.inductionOn with
  | functionCall func_def args type distinct ih => exact ⟨(covered_all ih).1, (covered_all ih).2⟩
  | list elements element_type type ih => exact ⟨(covered_all ih).1, (covered_all ih).2⟩
  | map entries type ih => exact ⟨(covered_entries ih).1, (covered_entries ih).2⟩
  | caseExpr subject when_thens else_expr type ihs ihw ihe =>
    obtain ⟨hsc, hsm⟩ := covered_opt ihs
    obtain ⟨hwc, hwm⟩ := covered_pairs ihw
    obtain ⟨hec, hem⟩ := covered_opt ihe
    constructor
    all_goals
      simp only [freeNames, collectColumnNames, missedNames, mem_append]
      grind
  | slice container from_expr to_expr type ihl ihf iht =>
    obtain ⟨hlc, hlm⟩ := ihl
    obtain ⟨hfc, hfm⟩ := covered_opt ihf
    obtain ⟨htc, htm⟩ := covered_opt iht
    constructor
    all_goals
      simp only [freeNames, collectColumnNames, missedNames, mem_append]
      grind
  | quantifier kind loop_variable index list_expr where_pred type ihl ihw =>
    obtain ⟨hlc, hlm⟩ := ihl
    obtain ⟨hwc, hwm⟩ := covered_opt ihw
    constructor
    all_goals
      simp only [freeNames, collectColumnNames, missedNames, mem_append, mem_filter]
      grind
  | listComprehension loop_variable index list_expr where_pred projection type ihl ihw ihp =>
    obtain ⟨hlc, hlm⟩ := ihl
    obtain ⟨hwc, hwm⟩ := covered_opt ihw
    obtain ⟨hpc, hpm⟩ := ihp
    constructor
    all_goals
      simp only [freeNames, collectColumnNames, missedNames, mem_append, mem_filter]
      grind
  | reduce accumulator loop_variable slots init list_expr expr type _ _ _ =>
    exact ⟨fun n hn => .inr hn, fun n hn => hn⟩
  | patternComprehension slot name type as_boolean ast => exact ⟨fun n hn => .inr hn, fun n hn => hn⟩
  | binaryOp op left right type ihl ihr =>
    obtain ⟨hlc, hlm⟩ := ihl
    obtain ⟨hrc, hrm⟩ := ihr
    constructor
    all_goals
      simp only [freeNames, collectColumnNames, missedNames, mem_append]
      grind
  | subscript container index type ihl ihi =>
    obtain ⟨hlc, hlm⟩ := ihl
    obtain ⟨hic, him⟩ := ihi
    constructor
    all_goals
      simp only [freeNames, collectColumnNames, missedNames, mem_append]
      grind
  | dynamicPropertyRef object property type ih => exact ⟨ih.collected, ih.missed⟩
  | propertyRef name object candidates type ih => exact ⟨ih.collected, ih.missed⟩
  | labelCast object label type ih => exact ⟨ih.collected, ih.missed⟩
  | unaryOp op operand type ih => exact ⟨ih.collected, ih.missed⟩
  | columnRef | variableRef => exact ⟨fun n hn => .inl hn, fun n hn => absurd hn not_mem_nil⟩
  | literal | parameter =>
    exact ⟨fun n hn => absurd hn not_mem_nil, fun n hn => absurd hn not_mem_nil⟩

end BoundExpression

/-! ### Filter below and above -/

namespace PlanContext

variable {ctx : PlanContext} {predicate : BoundExpression} {filter_op : BoundFilterOp} {x : Table}

lemma keeps_append {schema names : Schema} {row ext : Row} (hwidth : row.length = schema.length)
    (hscope : ∀ n ∈ predicate.freeNames, n ∈ schema) :
    ctx.keeps predicate (schema ++ names) (row ++ ext) = ctx.keeps predicate schema row := by
  unfold keeps
  rw [BoundExpression.eval_congr ctx.ev predicate _ (columnEnv schema row)]
  intro n hn
  exact columnEnv_append hwidth (hscope n hn)

lemma filterTable_extendTable (ctx : PlanContext) (op : BoundLogicalOperator) (hwell : x.WellFormed)
    (hscope : ∀ n ∈ filter_op.predicate.freeNames, n ∈ x.schema) :
    ctx.filterTable filter_op (ctx.extendTable op x) = ctx.extendTable op (ctx.filterTable filter_op x) := by
  unfold filterTable extendTable
  simp only [Table.mk.injEq, true_and]
  apply filter_extendRows
  intro row hrow ext _
  exact keeps_append (hwell row hrow) hscope

lemma filterTable_comm (other : BoundFilterOp) : ctx.filterTable filter_op (ctx.filterTable other x) =
      ctx.filterTable other (ctx.filterTable filter_op x) := by
  unfold filterTable
  simp only [filter_filter, Bool.and_comm]

lemma filterTable_same {t t' : Table} (h : t.Same t') :
    (ctx.filterTable filter_op t).Same (ctx.filterTable filter_op t') := by
  obtain ⟨hschema, hrows⟩ := h
  refine ⟨hschema, ?_⟩
  show (t.rows.filter _).Perm (t'.rows.filter _)
  rw [hschema]
  exact hrows.filter _

end PlanContext

namespace FilterPushdownRule

open PlanContext

/-- The table of `Child(Filter(X))`. -/
def pushedTable (ctx : PlanContext) (tables : GroupId → Table) (r : PushedFilter) : Table :=
  ctx.apply r.child_op [ctx.apply (.filter r.filter_op) (r.grandchild_groups.map tables)]

/-- The rewritten expression is well formed, and has the rows of `Filter(Child(X))`. -/
structure Preserves (ctx : PlanContext) (tables : GroupId → Table) (filter_op : BoundFilterOp)
    (r : PushedFilter) : Prop where
  scope : ∀ x ∈ r.grandchild_groups, ∀ n ∈ r.filter_op.predicate.freeNames, n ∈ (tables x).schema
  same : (pushedTable ctx tables r).Same
    (ctx.apply (.filter filter_op) [ctx.apply r.child_op (r.grandchild_groups.map tables)])

/-- No name that the walk misses is introduced by the operator, and a row that repeats another
in the eyes of `DISTINCT` meets the predicate only if it repeats one that does. -/
structure MayPass (ctx : PlanContext) (filter_op : BoundFilterOp) (child_op : BoundLogicalOperator)
    (x : Table) : Prop where
  names : ∀ n ∈ filter_op.predicate.missedNames, n ∈ introducedVariableNames child_op → n ∈ x.schema
  repeats : child_op = .distinct → ∀ pre row post, x.rows = pre ++ row :: post →
    ctx.keeps filter_op.predicate x.schema row = true → pre.any (sameDigest ctx.std · row) = true →
      (pre.filter (ctx.keeps filter_op.predicate x.schema)).any (sameDigest ctx.std · row) = true

lemma mem_newColumn {schema : Schema} {name n : String} (h : n ∈ newColumn schema name) :
    n ∈ variableName name ∧ n ∉ schema := by
  unfold newColumn at h
  unfold variableName
  split at h
  next hnew =>
    obtain rfl := mem_singleton.mp h
    simp [hnew.1, hnew.2]
  next => cases h

lemma appended_introduced {op : BoundLogicalOperator} {schema : Schema} {n : String}
    (h : n ∈ appendedColumns op schema) : n ∈ introducedVariableNames op := by
  unfold introducedVariableNames
  cases op with
  | expand op =>
    obtain hedge | hdst := mem_append.mp h
    · exact mem_append_left _ (mem_newColumn hedge).1
    · exact mem_append_right _ (mem_newColumn hdst).1
  | varLenExpand op =>
    obtain hpair | hedge := mem_append.mp h
    · obtain hdst | hpath := mem_append.mp hpair
      · exact mem_append_left _ (mem_append_left _ (mem_newColumn hdst).1)
      · exact mem_append_left _ (mem_append_right _ hpath)
    · apply mem_append_right
      split at hedge
      next hnew => simpa [variableName, hnew.1] using hedge
      next => cases hedge
  | pathBuild op => simpa [variableName, op.path_named, appendedColumns] using h
  | filter op => cases h
  | aggregate op => cases h
  | sort items => cases h
  | distinct => cases h
  | pathCount op => cases h
  | other type fields => cases h

variable {child_op : BoundLogicalOperator} {ctx : PlanContext}

/-- Behind a penetrable operator a name is one of the child or an appended one. -/
theorem schema_apply
    (h : isPenetrable child_op.nodeType = true) (x : Table) :
    (ctx.apply child_op [x]).schema = x.schema ++ appendedColumns child_op x.schema := by
  cases child_op with
  | expand op => rfl
  | varLenExpand op => rfl
  | pathBuild op => rfl
  | filter op => exact (append_nil _).symm
  | sort items => exact (append_nil _).symm
  | distinct => exact (append_nil _).symm
  | aggregate op => exact absurd h Bool.false_ne_true
  | pathCount op => exact absurd h Bool.false_ne_true
  | other type fields => exact absurd h Bool.false_ne_true

variable {filter_op : BoundFilterOp}

lemma scope_of_names
    {x : Table} (hpush : canPushThroughPredicate filter_op.predicate child_op = true)
    (hbound : ∀ n ∈ filter_op.predicate.freeNames, n ∈ (ctx.apply child_op [x]).schema)
    (hnames : ∀ n ∈ filter_op.predicate.missedNames, n ∈ introducedVariableNames child_op → n ∈ x.schema) :
    ∀ n ∈ filter_op.predicate.freeNames, n ∈ x.schema := by
  intro n hn
  obtain ⟨hpenetrable, hnone⟩ := Bool.and_eq_true_iff.mp hpush
  have hschema := hbound n hn
  rw [schema_apply hpenetrable] at hschema
  obtain hold | hnew := mem_append.mp hschema
  · exact hold
  · have hintroduced := appended_introduced hnew
    obtain hcollected | hmissed := (BoundExpression.covered filter_op.predicate).collected n hn
    · -- the walk has seen the name, so the rule has compared it
      have hdiffers := all_eq_true.mp hnone n hintroduced
      simp [hcollected] at hdiffers
    · exact hnames n hmissed hintroduced

/-- Moving the filter changes nothing for an operator other than `DISTINCT`. -/
theorem same_of_scope
    {x : Table} (hpenetrable : isPenetrable child_op.nodeType = true) (hwell : x.WellFormed)
    (hscope : ∀ n ∈ filter_op.predicate.freeNames, n ∈ x.schema) (hdistinct : child_op ≠ .distinct) :
    (ctx.apply child_op [ctx.filterTable filter_op x]).Same
      (ctx.filterTable filter_op (ctx.apply child_op [x])) := by
  cases child_op with
  | expand op =>
    have heq := filterTable_extendTable ctx (.expand op) hwell hscope
    show (ctx.extendTable (.expand op) _).Same (ctx.filterTable filter_op (ctx.extendTable (.expand op) x))
    rw [heq]
    exact .refl _
  | varLenExpand op =>
    have heq := filterTable_extendTable ctx (.varLenExpand op) hwell hscope
    show (ctx.extendTable (.varLenExpand op) _).Same
      (ctx.filterTable filter_op (ctx.extendTable (.varLenExpand op) x))
    rw [heq]
    exact .refl _
  | pathBuild op =>
    have heq := filterTable_extendTable ctx (.pathBuild op) hwell hscope
    show (ctx.extendTable (.pathBuild op) _).Same (ctx.filterTable filter_op (ctx.extendTable (.pathBuild op) x))
    rw [heq]
    exact .refl _
  | filter op =>
    show (ctx.filterTable op (ctx.filterTable filter_op x)).Same (ctx.filterTable filter_op (ctx.filterTable op x))
    rw [filterTable_comm]
    exact .refl _
  | sort items =>
    -- both are the rows that meet the predicate, in some order
    refine ⟨rfl, ?_⟩
    show (ctx.sort items x.schema (x.rows.filter _)).val.Perm ((ctx.sort items x.schema x.rows).val.filter _)
    exact (ctx.sort items x.schema _).property.trans ((ctx.sort items x.schema x.rows).property.filter _).symm
  | distinct => exact absurd rfl hdistinct
  | aggregate op => exact absurd hpenetrable Bool.false_ne_true
  | pathCount op => exact absurd hpenetrable Bool.false_ne_true
  | other type fields => exact absurd hpenetrable Bool.false_ne_true

lemma same_distinct_iff {x : Table} :
    (ctx.apply .distinct [ctx.filterTable filter_op x]).Same
        (ctx.filterTable filter_op (ctx.apply .distinct [x])) ↔
      ∀ pre row post, x.rows = pre ++ row :: post →
        ctx.keeps filter_op.predicate x.schema row = true → pre.any (sameDigest ctx.std · row) = true →
          (pre.filter (ctx.keeps filter_op.predicate x.schema)).any (sameDigest ctx.std · row) = true := by
  rw [← filter_firsts_perm_iff]
  constructor
  · intro hsame
    exact hsame.2.symm
  · intro hperm
    exact ⟨rfl, hperm.symm⟩

/-- Each expression the rule adds is well formed and has the rows of the one it is made from,
exactly when the filter may pass the operator. -/
theorem substitute_preserves_iff (ctx : PlanContext) (tables : GroupId → Table)
    {filter_op : BoundFilterOp} (child_group : List GroupExpr) {r : PushedFilter}
    (hr : r ∈ substitute filter_op child_group) {x : GroupId} (hx : r.grandchild_groups = [x])
    (hwell : (tables x).WellFormed)
    (hbound : ∀ n ∈ filter_op.predicate.freeNames, n ∈ (ctx.apply r.child_op [tables x]).schema) :
    Preserves ctx tables filter_op r ↔ MayPass ctx filter_op r.child_op (tables x) := by
  obtain ⟨child_expr, hchild, rfl⟩ := mem_map.mp hr
  have hpush := (mem_filter.mp hchild).2
  have hpenetrable := (Bool.and_eq_true_iff.mp hpush).1
  have hpreserves : Preserves ctx tables filter_op ⟨child_expr.op, filter_op, child_expr.child_groups⟩ ↔
      (∀ n ∈ filter_op.predicate.freeNames, n ∈ (tables x).schema) ∧
        (ctx.apply child_expr.op [ctx.filterTable filter_op (tables x)]).Same
          (ctx.filterTable filter_op (ctx.apply child_expr.op [tables x])) := by
    have hchildren : child_expr.child_groups = [x] := hx
    constructor
    · rintro ⟨hscope, hsame⟩
      rw [pushedTable, hchildren] at hsame
      exact ⟨hscope x (by simp [hchildren]), hsame⟩
    · rintro ⟨hscope, hsame⟩
      constructor
      · intro y hy
        obtain rfl : y = x := by simpa [hchildren] using hy
        exact hscope
      · rw [pushedTable, hchildren]
        exact hsame
  show Preserves ctx tables filter_op ⟨child_expr.op, filter_op, child_expr.child_groups⟩ ↔ _
  rw [hpreserves]
  constructor
  · rintro ⟨hscope, hsame⟩
    refine ⟨fun n hn _ => hscope n ((BoundExpression.covered _).missed n hn), fun hdistinct => ?_⟩
    rw [show child_expr.op = .distinct from hdistinct] at hsame
    exact same_distinct_iff.mp hsame
  · intro h
    have hscope := scope_of_names hpush hbound h.names
    refine ⟨hscope, ?_⟩
    by_cases hdistinct : child_expr.op = .distinct
    · rw [hdistinct]
      exact same_distinct_iff.mpr (h.repeats hdistinct)
    · exact same_of_scope hpenetrable hwell hscope hdistinct

/-! ### A predicate the walk does not enter -/

def isNotNull (name : String) : BoundExpression :=
  .unaryOp .IS_NOT_NULL (.variableRef name (.of .VERTEX_REF)) (.of .BOOL)

/-- `reduce(found = false, n IN [1] | b IS NOT NULL)`. -/
def foundB : BoundExpression :=
  .reduce "found" "n" ⟨0, 0, 0, 0, 0⟩ (.literal (.bool false) (.of .BOOL))
    (.list [.literal (.int64 1) (.of .INT64)] (.of .INT64) (.list (.of .INT64))) (isNotNull "b") (.of .BOOL)

theorem substitute_preserves_iff_column :
    Preserves smallContext (fun _ => tableOfA) ⟨isNotNull "a", .None⟩
        ⟨.expand expandFromA, ⟨isNotNull "a", .None⟩, [0]⟩ ↔
      MayPass smallContext ⟨isNotNull "a", .None⟩ (.expand expandFromA) tableOfA :=
  substitute_preserves_iff smallContext (fun _ => tableOfA) [⟨.expand expandFromA, [0]⟩]
    mem_cons_self rfl (by unfold Table.WellFormed; decide) (by decide)

/-- The filter moves below the expand that binds `b`: no row is left of the one there was. -/
theorem reduce_moves_below_binding : ⟨.expand expandFromA, ⟨foundB, .None⟩, [0]⟩ ∈
        substitute ⟨foundB, .None⟩ [⟨.expand expandFromA, [0]⟩] ∧
      (∀ n ∈ foundB.freeNames, n ∈ (smallContext.apply (.expand expandFromA) [tableOfA]).schema) ∧
      (smallContext.filterTable ⟨foundB, .None⟩
        (smallContext.apply (.expand expandFromA) [tableOfA])).rows.length = 1 ∧
      (smallContext.apply (.expand expandFromA) [smallContext.filterTable ⟨foundB, .None⟩ tableOfA]).rows.length =
        0 ∧
      ¬ Preserves smallContext (fun _ => tableOfA) ⟨foundB, .None⟩
        ⟨.expand expandFromA, ⟨foundB, .None⟩, [0]⟩ := by
  refine ⟨mem_cons_self, by decide, rfl, rfl, fun h => ?_⟩
  have hmember := h.scope 0 mem_cons_self "b" (by decide)
  revert hmember
  decide

end FilterPushdownRule

end Eugraph.Optimizer
