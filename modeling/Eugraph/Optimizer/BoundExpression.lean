import Eugraph.Query.DataChunk

/-!
# Bound expressions

The expressions the binder hands to the optimizer (`query/planner/bound_expression`), and
their meaning.  A meaning is composed from those of the parts: what an operator or a function
makes of its operands is a parameter, scoping and the columns read are not.  Evaluations that
end the statement are left out.
-/

namespace Eugraph.Optimizer

open List

open Dataset (Value BoundTypeKind)

abbrev SlotId := UInt32
abbrev ScopeId := UInt32

def INVALID_SLOT_ID : SlotId := 0

/-! ### Syntax -/

/-- A kind, with the types of the elements for lists and maps. -/
inductive BoundType
  | of (kind : BoundTypeKind)
  | list (element_type : BoundType)
  | map (key_type value_type : BoundType)
  deriving DecidableEq

inductive BinaryOperator
  | ADD | SUB | MUL | DIV | MOD | POW
  | EQ | NEQ | LT | GT | LTE | GTE
  | STARTS_WITH | ENDS_WITH | CONTAINS | IN
  | AND | OR | XOR | LIST_CONCAT
  deriving DecidableEq

inductive UnaryOperator
  | NOT | NEGATE | PLUS | IS_NULL | IS_NOT_NULL
  deriving DecidableEq

/-- An entry of the function registry; `overload` tells those of one name apart. -/
structure FunctionDef where
  name : String
  overload : Nat
  deriving DecidableEq

structure ResolvedProperty where
  label_id : LabelId
  prop_id : PropId
  type : BoundType
  deriving DecidableEq

structure BoundColumnRef where
  column_index : UInt32
  slot_id : SlotId
  type : BoundType
  name : String
  scope_id : ScopeId
  deriving DecidableEq

/-- `BoundAllExpr`, `BoundAnyExpr`, `BoundNoneExpr` and `BoundSingleExpr`. -/
inductive QuantifierKind
  | all | any | none | single
  deriving DecidableEq

/-- Columns and slots of the temporaries of `BoundReduceExpr`. -/
structure ReduceSlots where
  accumulator_column_index : UInt32
  accumulator_slot : SlotId
  loop_column_index : UInt32
  loop_slot : SlotId
  index_slot : SlotId
  deriving DecidableEq

/-- The four quantifiers are one constructor.  The `ast` of a pattern comprehension is a
pointer. -/
inductive BoundExpression
  | literal (value : Value) (type : BoundType)
  | columnRef (ref : BoundColumnRef)
  | variableRef (name : String) (type : BoundType)
  | parameter (name : String) (expected_type : BoundType)
  | dynamicPropertyRef (object : BoundExpression) (property : String) (result_type : BoundType)
  | propertyRef (property_name : String) (object : BoundExpression)
      (candidates : List ResolvedProperty) (result_type : BoundType)
  | labelCast (object : BoundExpression) (label_id : LabelId) (result_type : BoundType)
  | binaryOp (op : BinaryOperator) (left right : BoundExpression) (result_type : BoundType)
  | unaryOp (op : UnaryOperator) (operand : BoundExpression) (result_type : BoundType)
  | functionCall (func_def : Option FunctionDef) (args : List BoundExpression)
      (return_type : BoundType) (distinct : Bool)
  | list (elements : List BoundExpression) (element_type result_type : BoundType)
  | map (entries : List (String × BoundExpression)) (result_type : BoundType)
  | caseExpr (subject : Option BoundExpression) (when_thens : List (BoundExpression × BoundExpression))
      (else_expr : Option BoundExpression) (result_type : BoundType)
  | subscript (list index : BoundExpression) (result_type : BoundType)
  | slice (list : BoundExpression) (from_expr to_expr : Option BoundExpression)
      (result_type : BoundType)
  | quantifier (kind : QuantifierKind) (loop_variable : String) (loop_column_index : UInt32)
      (list_expr : BoundExpression) (where_pred : Option BoundExpression) (result_type : BoundType)
  | listComprehension (loop_variable : String) (loop_column_index : UInt32)
      (list_expr : BoundExpression) (where_pred : Option BoundExpression)
      (projection : BoundExpression) (result_type : BoundType)
  | reduce (accumulator loop_variable : String) (slots : ReduceSlots) (init list_expr expr : BoundExpression)
      (result_type : BoundType)
  | patternComprehension (output_slot : SlotId) (output_name : String) (result_type : BoundType)
      (as_boolean : Bool) (ast : Nat)

namespace BoundExpression

section Induction

variable {P : BoundExpression → Prop}

/-- Induction with the members of lists, options and pairs covered. -/
theorem inductionOn (literal : ∀ value type, P (.literal value type)) (columnRef : ∀ ref, P (.columnRef ref))
    (variableRef : ∀ name type, P (.variableRef name type))
    (parameter : ∀ name type, P (.parameter name type))
    (dynamicPropertyRef : ∀ object property type, P object → P (.dynamicPropertyRef object property type))
    (propertyRef : ∀ name object candidates type, P object → P (.propertyRef name object candidates type))
    (labelCast : ∀ object label type, P object → P (.labelCast object label type))
    (binaryOp : ∀ op left right type, P left → P right → P (.binaryOp op left right type))
    (unaryOp : ∀ op operand type, P operand → P (.unaryOp op operand type))
    (functionCall : ∀ func_def args type distinct, (∀ e ∈ args, P e) → P (.functionCall func_def args type distinct))
    (list : ∀ elements element_type type, (∀ e ∈ elements, P e) → P (.list elements element_type type))
    (map : ∀ entries type, (∀ entry ∈ entries, P entry.2) → P (.map entries type))
    (caseExpr : ∀ subject when_thens else_expr type, (∀ e ∈ subject, P e) →
      (∀ p ∈ when_thens, P p.1 ∧ P p.2) → (∀ e ∈ else_expr, P e) → P (.caseExpr subject when_thens else_expr type))
    (subscript : ∀ list index type, P list → P index → P (.subscript list index type))
    (slice : ∀ list from_expr to_expr type, P list → (∀ e ∈ from_expr, P e) → (∀ e ∈ to_expr, P e) →
      P (.slice list from_expr to_expr type))
    (quantifier : ∀ kind loop_variable index list_expr where_pred type, P list_expr →
      (∀ e ∈ where_pred, P e) → P (.quantifier kind loop_variable index list_expr where_pred type))
    (listComprehension : ∀ loop_variable index list_expr where_pred projection type, P list_expr →
      (∀ e ∈ where_pred, P e) → P projection →
        P (.listComprehension loop_variable index list_expr where_pred projection type))
    (reduce : ∀ accumulator loop_variable slots init list_expr expr type, P init → P list_expr → P expr →
      P (.reduce accumulator loop_variable slots init list_expr expr type))
    (patternComprehension : ∀ slot name type as_boolean ast, P (.patternComprehension slot name type as_boolean ast))
    (e : BoundExpression) : P e := by
  induction e using BoundExpression.rec (motive_2 := fun es => ∀ e ∈ es, P e)
    (motive_3 := fun entries => ∀ entry ∈ entries, P entry.2) (motive_4 := fun e => ∀ x ∈ e, P x)
    (motive_5 := fun pairs => ∀ p ∈ pairs, P p.1 ∧ P p.2) (motive_6 := fun entry => P entry.2)
    (motive_7 := fun p => P p.1 ∧ P p.2) with
  | literal value type => exact literal value type
  | columnRef ref => exact columnRef ref
  | variableRef name type => exact variableRef name type
  | parameter name type => exact parameter name type
  | dynamicPropertyRef object property type ih => exact dynamicPropertyRef object property type ih
  | propertyRef name object candidates type ih => exact propertyRef name object candidates type ih
  | labelCast object label type ih => exact labelCast object label type ih
  | binaryOp op left right type ihl ihr => exact binaryOp op left right type ihl ihr
  | unaryOp op operand type ih => exact unaryOp op operand type ih
  | functionCall func_def args type distinct ih => exact functionCall func_def args type distinct ih
  | list elements element_type type ih => exact list elements element_type type ih
  | map entries type ih => exact map entries type ih
  | caseExpr subject when_thens else_expr type ihs ihw ihe =>
    exact caseExpr subject when_thens else_expr type ihs ihw ihe
  | subscript list index type ihl ihi => exact subscript list index type ihl ihi
  | slice list from_expr to_expr type ihl ihf iht => exact slice list from_expr to_expr type ihl ihf iht
  | quantifier kind loop_variable index list_expr where_pred type ihl ihw =>
    exact quantifier kind loop_variable index list_expr where_pred type ihl ihw
  | listComprehension loop_variable index list_expr where_pred projection type ihl ihw ihp =>
    exact listComprehension loop_variable index list_expr where_pred projection type ihl ihw ihp
  | reduce accumulator loop_variable slots init list_expr expr type ihi ihl ihe =>
    exact reduce accumulator loop_variable slots init list_expr expr type ihi ihl ihe
  | patternComprehension slot name type as_boolean ast =>
    exact patternComprehension slot name type as_boolean ast
  | _ => grind

end Induction

/-! ### The columns an expression reads -/

mutual

/-- The names read from the input; loops bind their variables. -/
def freeNames : BoundExpression → List String
  | .literal _ _ => []
  | .columnRef ref => [ref.name]
  | .variableRef name _ => [name]
  | .parameter _ _ => []
  | .dynamicPropertyRef object _ _ => freeNames object
  | .propertyRef _ object _ _ => freeNames object
  | .labelCast object _ _ => freeNames object
  | .binaryOp _ left right _ => freeNames left ++ freeNames right
  | .unaryOp _ operand _ => freeNames operand
  | .functionCall _ args _ _ => freeNamesAll args
  | .list elements _ _ => freeNamesAll elements
  | .map entries _ => freeNamesEntries entries
  | .caseExpr subject when_thens else_expr _ =>
    freeNamesOpt subject ++ freeNamesPairs when_thens ++ freeNamesOpt else_expr
  | .subscript container index _ => freeNames container ++ freeNames index
  | .slice container from_expr to_expr _ => freeNames container ++ freeNamesOpt from_expr ++ freeNamesOpt to_expr
  | .quantifier _ loop_variable _ list_expr where_pred _ =>
    freeNames list_expr ++ (freeNamesOpt where_pred).filter (· ≠ loop_variable)
  | .listComprehension loop_variable _ list_expr where_pred projection _ =>
    freeNames list_expr ++
      (freeNamesOpt where_pred ++ freeNames projection).filter (· ≠ loop_variable)
  | .reduce accumulator loop_variable _ init list_expr expr _ =>
    freeNames init ++ freeNames list_expr ++
      (freeNames expr).filter fun n => n ≠ accumulator && n ≠ loop_variable
  | .patternComprehension _ output_name _ _ _ => [output_name]

def freeNamesAll : List BoundExpression → List String
  | [] => []
  | e :: rest => freeNames e ++ freeNamesAll rest

def freeNamesEntries : List (String × BoundExpression) → List String
  | [] => []
  | (_, e) :: rest => freeNames e ++ freeNamesEntries rest

def freeNamesPairs : List (BoundExpression × BoundExpression) → List String
  | [] => []
  | (w, t) :: rest => freeNames w ++ freeNames t ++ freeNamesPairs rest

def freeNamesOpt : Option BoundExpression → List String
  | none => []
  | some e => freeNames e

end

variable {n : String}

lemma mem_freeNamesAll {es : List BoundExpression} :
    n ∈ freeNamesAll es ↔ ∃ e ∈ es, n ∈ freeNames e := by
  induction es with
  | nil => simp [freeNamesAll]
  | cons e rest ih => simp [freeNamesAll, ih]

lemma mem_freeNamesEntries {entries : List (String × BoundExpression)} :
    n ∈ freeNamesEntries entries ↔ ∃ entry ∈ entries, n ∈ freeNames entry.2 := by
  induction entries with
  | nil => simp [freeNamesEntries]
  | cons entry rest ih => simp [freeNamesEntries, ih]

lemma mem_freeNamesPairs {pairs : List (BoundExpression × BoundExpression)} :
    n ∈ freeNamesPairs pairs ↔ ∃ p ∈ pairs, n ∈ freeNames p.1 ∨ n ∈ freeNames p.2 := by
  induction pairs with
  | nil => simp [freeNamesPairs]
  | cons p rest ih => simp [freeNamesPairs, ih, or_assoc]

lemma mem_freeNamesOpt {e : Option BoundExpression} :
    n ∈ freeNamesOpt e ↔ ∃ x ∈ e, n ∈ freeNames x := by
  cases e with
  | none => simp [freeNamesOpt]
  | some x => simp [freeNamesOpt]

end BoundExpression

/-! ### Meaning -/

/-- The columns by name. -/
abbrev Env := String → Option Value

def Env.bind (env : Env) (name : String) (v : Value) : Env := Function.update env name (some v)

lemma Env.bind_congr {env env' : Env} {names : List String} {x : String} (v : Value)
    (h : ∀ n ∈ names.filter (· ≠ x), env n = env' n) : ∀ n ∈ names, env.bind x v n = env'.bind x v n := by
  intro n hn
  by_cases hx : n = x
  · simp [Env.bind, hx]
  · simpa [Env.bind, hx] using h n (mem_filter.mpr ⟨hn, by simpa using hx⟩)

/-- What the operators and functions make of their operands.  Properties are read from a
graph that does not change.  What a reference to a column that does not exist reads is not
defined. -/
structure Evaluator where
  missing : String → Value
  parameter : String → Value
  dynamicPropertyRef : String → Value → Value
  propertyRef : String → List ResolvedProperty → Value → Value
  labelCast : LabelId → Value → Value
  binaryOp : BinaryOperator → Value → Value → Value
  unaryOp : UnaryOperator → Value → Value
  functionCall : Option FunctionDef → Bool → List Value → Value
  list : List Value → Value
  map : List (String × Value) → Value
  caseExpr : Option Value → List (Value × Value) → Option Value → Value
  subscript : Value → Value → Value
  slice : Value → Option Value → Option Value → Value
  quantifier : QuantifierKind → Value → Option (Value → Value) → Value
  listComprehension : Value → Option (Value → Value) → (Value → Value) → Value
  reduce : Value → Value → (Value → Value → Value) → Value

namespace BoundExpression

variable (ev : Evaluator)

mutual

def eval : BoundExpression → Env → Value
  | .literal value _, _ => value
  | .columnRef ref, env => (env ref.name).getD (ev.missing ref.name)
  | .variableRef name _, env => (env name).getD (ev.missing name)
  | .parameter name _, _ => ev.parameter name
  | .dynamicPropertyRef object property _, env => ev.dynamicPropertyRef property (eval object env)
  | .propertyRef name object candidates _, env => ev.propertyRef name candidates (eval object env)
  | .labelCast object label_id _, env => ev.labelCast label_id (eval object env)
  | .binaryOp op left right _, env => ev.binaryOp op (eval left env) (eval right env)
  | .unaryOp op operand _, env => ev.unaryOp op (eval operand env)
  | .functionCall func_def args _ distinct, env => ev.functionCall func_def distinct (evalAll args env)
  | .list elements _ _, env => ev.list (evalAll elements env)
  | .map entries _, env => ev.map (evalEntries entries env)
  | .caseExpr subject when_thens else_expr _, env =>
    ev.caseExpr (evalOpt subject env) (evalPairs when_thens env) (evalOpt else_expr env)
  | .subscript container index _, env => ev.subscript (eval container env) (eval index env)
  | .slice container from_expr to_expr _, env =>
    ev.slice (eval container env) (evalOpt from_expr env) (evalOpt to_expr env)
  | .quantifier kind loop_variable _ list_expr where_pred _, env =>
    ev.quantifier kind (eval list_expr env) (evalLoop where_pred env loop_variable)
  | .listComprehension loop_variable _ list_expr where_pred projection _, env =>
    ev.listComprehension (eval list_expr env) (evalLoop where_pred env loop_variable)
      fun v => eval projection (env.bind loop_variable v)
  | .reduce accumulator loop_variable _ init list_expr expr _, env =>
    ev.reduce (eval init env) (eval list_expr env)
      fun acc v => eval expr ((env.bind accumulator acc).bind loop_variable v)
  | .patternComprehension _ output_name _ _ _, env => (env output_name).getD (ev.missing output_name)

def evalAll : List BoundExpression → Env → List Value
  | [], _ => []
  | e :: rest, env => eval e env :: evalAll rest env

def evalEntries : List (String × BoundExpression) → Env → List (String × Value)
  | [], _ => []
  | (key, e) :: rest, env => (key, eval e env) :: evalEntries rest env

def evalPairs : List (BoundExpression × BoundExpression) → Env → List (Value × Value)
  | [], _ => []
  | (w, t) :: rest, env => (eval w env, eval t env) :: evalPairs rest env

def evalOpt : Option BoundExpression → Env → Option Value
  | none, _ => none
  | some e, env => some (eval e env)

/-- The predicate of a loop, for each element. -/
def evalLoop : Option BoundExpression → Env → String → Option (Value → Value)
  | none, _, _ => none
  | some e, env, loop_variable => some fun v => eval e (env.bind loop_variable v)

end

lemma evalAll_eq (es : List BoundExpression) (env : Env) : evalAll ev es env = es.map (eval ev · env) := by
  induction es with
  | nil => rfl
  | cons e rest ih => rw [evalAll, ih, map_cons]

lemma evalEntries_eq (entries : List (String × BoundExpression)) (env : Env) :
    evalEntries ev entries env = entries.map fun entry => (entry.1, eval ev entry.2 env) := by
  induction entries with
  | nil => rfl
  | cons entry rest ih => rw [evalEntries, ih, map_cons]

lemma evalPairs_eq (pairs : List (BoundExpression × BoundExpression)) (env : Env) :
    evalPairs ev pairs env = pairs.map fun p => (eval ev p.1 env, eval ev p.2 env) := by
  induction pairs with
  | nil => rfl
  | cons p rest ih => rw [evalPairs, ih, map_cons]

lemma evalOpt_eq (e : Option BoundExpression) (env : Env) : evalOpt ev e env = e.map (eval ev · env) := by
  cases e with
  | none => rfl
  | some x => rfl

lemma evalLoop_eq (e : Option BoundExpression) (env : Env) (x : String) :
    evalLoop ev e env x = e.map fun pred v => eval ev pred (env.bind x v) := by
  cases e with
  | none => rfl
  | some pred => rfl

/-- The value depends on the columns that are read only. -/
def Local (e : BoundExpression) : Prop :=
  ∀ env env' : Env, (∀ n ∈ freeNames e, env n = env' n) → eval ev e env = eval ev e env'

variable {ev} {env env' : Env}

lemma evalLoop_congr {e : Option BoundExpression} {x : String} (ih : ∀ pred ∈ e, Local ev pred)
    (h : ∀ n ∈ (freeNamesOpt e).filter (· ≠ x), env n = env' n) :
    evalLoop ev e env x = evalLoop ev e env' x := by
  rw [evalLoop_eq, evalLoop_eq]
  cases e with
  | none => rfl
  | some pred =>
    simp only [Option.map_some, Option.some.injEq]
    funext v
    exact ih pred rfl _ _ (Env.bind_congr v h)

lemma evalAll_congr {es : List BoundExpression} (ih : ∀ e ∈ es, Local ev e)
    (h : ∀ n ∈ freeNamesAll es, env n = env' n) : evalAll ev es env = evalAll ev es env' := by
  rw [evalAll_eq, evalAll_eq]
  apply map_congr_left
  intro e he
  exact ih e he env env' fun n hn => h n (mem_freeNamesAll.mpr ⟨e, he, hn⟩)

lemma evalOpt_congr {e : Option BoundExpression} (ih : ∀ x ∈ e, Local ev x)
    (h : ∀ n ∈ freeNamesOpt e, env n = env' n) : evalOpt ev e env = evalOpt ev e env' := by
  rw [evalOpt_eq, evalOpt_eq]
  apply Option.map_congr
  intro x hx
  exact ih x hx env env' fun n hn => h n (mem_freeNamesOpt.mpr ⟨x, hx, hn⟩)

theorem eval_congr (ev : Evaluator) (e : BoundExpression) : Local ev e := by
  intro env env' h
  induction e using BoundExpression.inductionOn generalizing env env' with
  | literal value type => rfl
  | columnRef ref => rw [eval, eval, h ref.name (by simp [freeNames])]
  | variableRef name type => rw [eval, eval, h name (by simp [freeNames])]
  | parameter name type => rfl
  | dynamicPropertyRef object property type ih => rw [eval, eval, ih _ _ h]
  | propertyRef name object candidates type ih => rw [eval, eval, ih _ _ h]
  | labelCast object label type ih => rw [eval, eval, ih _ _ h]
  | binaryOp op left right type ihl ihr =>
    rw [freeNames, forall_mem_append] at h
    rw [eval, eval, ihl _ _ h.1, ihr _ _ h.2]
  | unaryOp op operand type ih => rw [eval, eval, ih _ _ h]
  | functionCall func_def args type distinct ih => rw [eval, eval, evalAll_congr ih h]
  | list elements element_type type ih => rw [eval, eval, evalAll_congr ih h]
  | map entries type ih =>
    rw [eval, eval, evalEntries_eq, evalEntries_eq]
    congr 1
    apply map_congr_left
    intro entry hentry
    rw [ih entry hentry _ _ fun n hn => h n (mem_freeNamesEntries.mpr ⟨entry, hentry, hn⟩)]
  | caseExpr subject when_thens else_expr type ihs ihw ihe =>
    rw [freeNames, forall_mem_append, forall_mem_append] at h
    obtain ⟨⟨hs, hw⟩, he⟩ := h
    rw [eval, eval, evalOpt_congr ihs hs, evalOpt_congr ihe he,
      evalPairs_eq, evalPairs_eq]
    congr 1
    apply map_congr_left
    intro p hp
    obtain ⟨ihp, ihq⟩ := ihw p hp
    rw [ihp _ _ fun n hn => hw n (mem_freeNamesPairs.mpr ⟨p, hp, .inl hn⟩),
      ihq _ _ fun n hn => hw n (mem_freeNamesPairs.mpr ⟨p, hp, .inr hn⟩)]
  | subscript container index type ihl ihi =>
    rw [freeNames, forall_mem_append] at h
    rw [eval, eval, ihl _ _ h.1, ihi _ _ h.2]
  | slice container from_expr to_expr type ihl ihf iht =>
    rw [freeNames, forall_mem_append, forall_mem_append] at h
    obtain ⟨⟨hl, hf⟩, ht⟩ := h
    rw [eval, eval, evalOpt_congr ihf hf, evalOpt_congr iht ht, ihl _ _ hl]
  | quantifier kind loop_variable index list_expr where_pred type ihl ihw =>
    rw [freeNames, forall_mem_append] at h
    rw [eval, eval, ihl _ _ h.1, evalLoop_congr ihw h.2]
  | listComprehension loop_variable index list_expr where_pred projection type ihl ihw ihp =>
    rw [freeNames, forall_mem_append, filter_append, forall_mem_append] at h
    obtain ⟨hl, hw, hp⟩ := h
    rw [eval, eval, ihl _ _ hl, evalLoop_congr ihw hw]
    congr 1
    funext v
    exact ihp _ _ (Env.bind_congr v hp)
  | reduce accumulator loop_variable slots init list_expr expr type ihi ihl ihe =>
    rw [freeNames, forall_mem_append, forall_mem_append] at h
    obtain ⟨⟨hi, hl⟩, he⟩ := h
    rw [eval, eval, ihi _ _ hi, ihl _ _ hl]
    congr 1
    funext acc v
    apply ihe
    apply Env.bind_congr
    apply Env.bind_congr
    intro n hn
    apply he
    simp only [mem_filter, ne_eq, decide_eq_true_eq] at hn
    simp [hn.1.1, hn.1.2, hn.2]
  | patternComprehension slot name type as_boolean ast => rw [eval, eval, h name (by simp [freeNames])]

end BoundExpression

end Eugraph.Optimizer
