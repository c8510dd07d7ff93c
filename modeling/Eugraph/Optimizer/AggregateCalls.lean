import Eugraph.Optimizer.BoundExpression

/-!
# Aggregate calls of an expression

`eval_function_call.cpp` takes the value of a call from a map, where the map has one for it.
That is the value of the expression with a constant in place of the call.  Two choices of
constants that agree on the aggregate calls of an expression make the same of it.
-/

namespace Eugraph.Optimizer

open List

open Dataset (Value)

/-- A call of an aggregate function. -/
structure AggregateCall where
  func_def : FunctionDef
  arguments : List BoundExpression
  distinct : Bool

namespace BoundExpression

/-! ### Values in place of calls -/

section Substitution

variable (subst : AggregateCall → Option Value)

mutual

/-- The calls with a value are replaced by it; their arguments are not looked at. -/
def substituteCalls : BoundExpression → BoundExpression
  | .functionCall (some func_def) args return_type distinct =>
    match subst ⟨func_def, args, distinct⟩ with
    | some value => .literal value return_type
    | none => .functionCall (some func_def) (substituteAll args) return_type distinct
  | .functionCall none args return_type distinct =>
    .functionCall none (substituteAll args) return_type distinct
  | .literal value type => .literal value type
  | .columnRef ref => .columnRef ref
  | .variableRef name type => .variableRef name type
  | .parameter name type => .parameter name type
  | .dynamicPropertyRef object property type =>
    .dynamicPropertyRef (substituteCalls object) property type
  | .propertyRef name object candidates type =>
    .propertyRef name (substituteCalls object) candidates type
  | .labelCast object label_id type => .labelCast (substituteCalls object) label_id type
  | .binaryOp op left right type => .binaryOp op (substituteCalls left) (substituteCalls right) type
  | .unaryOp op operand type => .unaryOp op (substituteCalls operand) type
  | .list elements element_type type => .list (substituteAll elements) element_type type
  | .map entries type => .map (substituteEntries entries) type
  | .caseExpr subject when_thens else_expr type =>
    .caseExpr (substituteOpt subject) (substitutePairs when_thens) (substituteOpt else_expr) type
  | .subscript container index type => .subscript (substituteCalls container) (substituteCalls index) type
  | .slice container from_expr to_expr type =>
    .slice (substituteCalls container) (substituteOpt from_expr) (substituteOpt to_expr) type
  | .quantifier kind loop_variable index list_expr where_pred type =>
    .quantifier kind loop_variable index (substituteCalls list_expr) (substituteOpt where_pred) type
  | .listComprehension loop_variable index list_expr where_pred projection type =>
    .listComprehension loop_variable index (substituteCalls list_expr) (substituteOpt where_pred)
      (substituteCalls projection) type
  | .reduce accumulator loop_variable slots init list_expr expr type =>
    .reduce accumulator loop_variable slots (substituteCalls init) (substituteCalls list_expr)
      (substituteCalls expr) type
  | .patternComprehension slot name type as_boolean ast =>
    .patternComprehension slot name type as_boolean ast

def substituteAll : List BoundExpression → List BoundExpression
  | [] => []
  | e :: rest => substituteCalls e :: substituteAll rest

def substituteEntries : List (String × BoundExpression) → List (String × BoundExpression)
  | [] => []
  | (key, e) :: rest => (key, substituteCalls e) :: substituteEntries rest

def substitutePairs : List (BoundExpression × BoundExpression) → List (BoundExpression × BoundExpression)
  | [] => []
  | (w, t) :: rest => (substituteCalls w, substituteCalls t) :: substitutePairs rest

def substituteOpt : Option BoundExpression → Option BoundExpression
  | none => none
  | some e => some (substituteCalls e)

end

lemma substituteAll_eq (es : List BoundExpression) : substituteAll subst es = es.map (substituteCalls subst) := by
  induction es with
  | nil => rfl
  | cons e rest ih => rw [substituteAll, ih, map_cons]

lemma substituteEntries_eq (entries : List (String × BoundExpression)) : substituteEntries subst entries =
      entries.map fun entry => (entry.1, substituteCalls subst entry.2) := by
  induction entries with
  | nil => rfl
  | cons entry rest ih => rw [substituteEntries, ih, map_cons]

lemma substitutePairs_eq (pairs : List (BoundExpression × BoundExpression)) : substitutePairs subst pairs =
      pairs.map fun p => (substituteCalls subst p.1, substituteCalls subst p.2) := by
  induction pairs with
  | nil => rfl
  | cons p rest ih => rw [substitutePairs, ih, map_cons]

lemma substituteOpt_eq (e : Option BoundExpression) : substituteOpt subst e = e.map (substituteCalls subst) := by
  cases e with
  | none => rfl
  | some x => rfl

end Substitution

/-! ### The aggregate calls -/

section Calls

variable (is_aggregate : FunctionDef → Bool)

mutual

/-- The calls of aggregate functions.  What stands in their arguments is theirs. -/
def aggregateCalls : BoundExpression → List AggregateCall
  | .functionCall (some func_def) args _ distinct =>
    if is_aggregate func_def then [⟨func_def, args, distinct⟩] else aggregateCallsAll args
  | .functionCall none args _ _ => aggregateCallsAll args
  | .literal _ _ => []
  | .columnRef _ => []
  | .variableRef _ _ => []
  | .parameter _ _ => []
  | .dynamicPropertyRef object _ _ => aggregateCalls object
  | .propertyRef _ object _ _ => aggregateCalls object
  | .labelCast object _ _ => aggregateCalls object
  | .binaryOp _ left right _ => aggregateCalls left ++ aggregateCalls right
  | .unaryOp _ operand _ => aggregateCalls operand
  | .list elements _ _ => aggregateCallsAll elements
  | .map entries _ => aggregateCallsEntries entries
  | .caseExpr subject when_thens else_expr _ =>
    aggregateCallsOpt subject ++ aggregateCallsPairs when_thens ++ aggregateCallsOpt else_expr
  | .subscript container index _ => aggregateCalls container ++ aggregateCalls index
  | .slice container from_expr to_expr _ =>
    aggregateCalls container ++ aggregateCallsOpt from_expr ++ aggregateCallsOpt to_expr
  | .quantifier _ _ _ list_expr where_pred _ => aggregateCalls list_expr ++ aggregateCallsOpt where_pred
  | .listComprehension _ _ list_expr where_pred projection _ =>
    aggregateCalls list_expr ++ aggregateCallsOpt where_pred ++ aggregateCalls projection
  | .reduce _ _ _ init list_expr expr _ =>
    aggregateCalls init ++ aggregateCalls list_expr ++ aggregateCalls expr
  | .patternComprehension _ _ _ _ _ => []

def aggregateCallsAll : List BoundExpression → List AggregateCall
  | [] => []
  | e :: rest => aggregateCalls e ++ aggregateCallsAll rest

def aggregateCallsEntries : List (String × BoundExpression) → List AggregateCall
  | [] => []
  | (_, e) :: rest => aggregateCalls e ++ aggregateCallsEntries rest

def aggregateCallsPairs : List (BoundExpression × BoundExpression) → List AggregateCall
  | [] => []
  | (w, t) :: rest => aggregateCalls w ++ aggregateCalls t ++ aggregateCallsPairs rest

def aggregateCallsOpt : Option BoundExpression → List AggregateCall
  | none => []
  | some e => aggregateCalls e

end

variable {is_aggregate} {c : AggregateCall}

lemma mem_aggregateCallsAll {es : List BoundExpression} :
    c ∈ aggregateCallsAll is_aggregate es ↔ ∃ e ∈ es, c ∈ aggregateCalls is_aggregate e := by
  induction es with
  | nil => simp [aggregateCallsAll]
  | cons e rest ih => simp [aggregateCallsAll, ih]

lemma mem_aggregateCallsEntries {entries : List (String × BoundExpression)} :
    c ∈ aggregateCallsEntries is_aggregate entries ↔ ∃ entry ∈ entries, c ∈ aggregateCalls is_aggregate entry.2 := by
  induction entries with
  | nil => simp [aggregateCallsEntries]
  | cons entry rest ih => simp [aggregateCallsEntries, ih]

lemma mem_aggregateCallsPairs {pairs : List (BoundExpression × BoundExpression)} :
    c ∈ aggregateCallsPairs is_aggregate pairs ↔
      ∃ p ∈ pairs, c ∈ aggregateCalls is_aggregate p.1 ∨ c ∈ aggregateCalls is_aggregate p.2 := by
  induction pairs with
  | nil => simp [aggregateCallsPairs]
  | cons p rest ih => simp [aggregateCallsPairs, ih, or_assoc]

lemma mem_aggregateCallsOpt {e : Option BoundExpression} :
    c ∈ aggregateCallsOpt is_aggregate e ↔ ∃ x ∈ e, c ∈ aggregateCalls is_aggregate x := by
  cases e with
  | none => simp [aggregateCallsOpt]
  | some x => simp [aggregateCallsOpt]

/-- All of them are calls of aggregate functions. -/
theorem isAggregate_of_mem {e : BoundExpression} {call : AggregateCall}
    (h : call ∈ aggregateCalls is_aggregate e) : is_aggregate call.func_def = true := by
  induction e using BoundExpression.inductionOn with
  | literal value type => cases h
  | columnRef ref => cases h
  | variableRef name type => cases h
  | parameter name type => cases h
  | dynamicPropertyRef object property type ih => exact ih h
  | propertyRef name object candidates type ih => exact ih h
  | labelCast object label type ih => exact ih h
  | binaryOp op left right type ihl ihr =>
    rw [aggregateCalls, mem_append] at h
    exact h.elim ihl ihr
  | unaryOp op operand type ih => exact ih h
  | functionCall func_def args type distinct ih =>
    have hargs (hmem : call ∈ aggregateCallsAll is_aggregate args) : is_aggregate call.func_def = true := by
      obtain ⟨e, he, hcall⟩ := mem_aggregateCallsAll.mp hmem
      exact ih e he hcall
    cases func_def with
    | none => exact hargs h
    | some f =>
      rw [aggregateCalls] at h
      split at h
      next hf =>
        rw [mem_singleton.mp h]
        exact hf
      next => exact hargs h
  | list elements element_type type ih =>
    obtain ⟨e, he, hcall⟩ := mem_aggregateCallsAll.mp h
    exact ih e he hcall
  | map entries type ih =>
    obtain ⟨entry, hentry, hcall⟩ := mem_aggregateCallsEntries.mp h
    exact ih entry hentry hcall
  | caseExpr subject when_thens else_expr type ihs ihw ihe =>
    rw [aggregateCalls, mem_append, mem_append, mem_aggregateCallsOpt,
      mem_aggregateCallsPairs, mem_aggregateCallsOpt] at h
    rcases h with (⟨x, hx, hcall⟩ | ⟨p, hp, hcall | hcall⟩) | ⟨x, hx, hcall⟩
    · exact ihs x hx hcall
    · exact (ihw p hp).1 hcall
    · exact (ihw p hp).2 hcall
    · exact ihe x hx hcall
  | subscript container index type ihl ihi =>
    rw [aggregateCalls, mem_append] at h
    exact h.elim ihl ihi
  | slice container from_expr to_expr type ihl ihf iht =>
    rw [aggregateCalls, mem_append, mem_append, mem_aggregateCallsOpt, mem_aggregateCallsOpt] at h
    rcases h with (hcall | ⟨x, hx, hcall⟩) | ⟨x, hx, hcall⟩
    · exact ihl hcall
    · exact ihf x hx hcall
    · exact iht x hx hcall
  | quantifier kind loop_variable index list_expr where_pred type ihl ihw =>
    rw [aggregateCalls, mem_append, mem_aggregateCallsOpt] at h
    rcases h with hcall | ⟨x, hx, hcall⟩
    · exact ihl hcall
    · exact ihw x hx hcall
  | listComprehension loop_variable index list_expr where_pred projection type ihl ihw ihp =>
    rw [aggregateCalls, mem_append, mem_append, mem_aggregateCallsOpt] at h
    rcases h with (hcall | ⟨x, hx, hcall⟩) | hcall
    · exact ihl hcall
    · exact ihw x hx hcall
    · exact ihp hcall
  | reduce accumulator loop_variable slots init list_expr expr type ihi ihl ihe =>
    rw [aggregateCalls, mem_append, mem_append] at h
    rcases h with (hcall | hcall) | hcall
    · exact ihi hcall
    · exact ihl hcall
    · exact ihe hcall
  | patternComprehension slot name type as_boolean ast => cases h

/-! ### Agreement -/

/-- A choice of values for calls of aggregate functions only. -/
def OnAggregates (is_aggregate : FunctionDef → Bool) (subst : AggregateCall → Option Value) : Prop :=
  ∀ call, is_aggregate call.func_def = false → subst call = none

/-- Values that agree on the aggregate calls of an expression make the same of it. -/
theorem substituteCalls_congr {s t : AggregateCall → Option Value} (hs : OnAggregates is_aggregate s)
    (ht : OnAggregates is_aggregate t) (e : BoundExpression)
    (h : ∀ call ∈ aggregateCalls is_aggregate e, ∃ v, s call = some v ∧ t call = some v) :
    substituteCalls s e = substituteCalls t e := by
  induction e using BoundExpression.inductionOn with
  | literal value type => rfl
  | columnRef ref => rfl
  | variableRef name type => rfl
  | parameter name type => rfl
  | dynamicPropertyRef object property type ih =>
    rw [substituteCalls, substituteCalls, ih h]
  | propertyRef name object candidates type ih =>
    rw [substituteCalls, substituteCalls, ih h]
  | labelCast object label type ih =>
    rw [substituteCalls, substituteCalls, ih h]
  | binaryOp op left right type ihl ihr =>
    rw [aggregateCalls, forall_mem_append] at h
    rw [substituteCalls, substituteCalls, ihl h.1, ihr h.2]
  | unaryOp op operand type ih =>
    rw [substituteCalls, substituteCalls, ih h]
  | functionCall func_def args type distinct ih =>
    have hargs (hcalls : ∀ call ∈ aggregateCallsAll is_aggregate args,
        ∃ v, s call = some v ∧ t call = some v) : substituteAll s args = substituteAll t args := by
      rw [substituteAll_eq, substituteAll_eq]
      apply map_congr_left
      intro e he
      exact ih e he fun call hcall => hcalls call (mem_aggregateCallsAll.mpr ⟨e, he, hcall⟩)
    cases func_def with
    | none =>
      rw [aggregateCalls] at h
      rw [substituteCalls, substituteCalls, hargs h]
    | some f =>
      rw [aggregateCalls] at h
      rw [substituteCalls, substituteCalls]
      cases hf : is_aggregate f with
      | true =>
        rw [if_pos hf] at h
        obtain ⟨v, hsv, htv⟩ := h ⟨f, args, distinct⟩ (mem_singleton_self _)
        rw [hsv, htv]
      | false =>
        rw [if_neg (by simp [hf])] at h
        rw [hs ⟨f, args, distinct⟩ hf, ht ⟨f, args, distinct⟩ hf, hargs h]
  | list elements element_type type ih =>
    rw [substituteCalls, substituteCalls, substituteAll_eq, substituteAll_eq]
    congr 1
    apply map_congr_left
    intro e he
    exact ih e he fun call hcall => h call (mem_aggregateCallsAll.mpr ⟨e, he, hcall⟩)
  | map entries type ih =>
    rw [substituteCalls, substituteCalls, substituteEntries_eq, substituteEntries_eq]
    congr 1
    apply map_congr_left
    intro entry hentry
    rw [ih entry hentry fun call hcall =>
      h call (mem_aggregateCallsEntries.mpr ⟨entry, hentry, hcall⟩)]
  | caseExpr subject when_thens else_expr type ihs ihw ihe =>
    rw [aggregateCalls, forall_mem_append, forall_mem_append] at h
    obtain ⟨⟨hsubject, hw⟩, helse⟩ := h
    rw [substituteCalls, substituteCalls, substituteOpt_eq, substituteOpt_eq, substituteOpt_eq,
      substituteOpt_eq, substitutePairs_eq, substitutePairs_eq]
    congr 1
    · apply Option.map_congr
      intro x hx
      exact ihs x hx fun call hcall => hsubject call (mem_aggregateCallsOpt.mpr ⟨x, hx, hcall⟩)
    · apply map_congr_left
      intro p hp
      obtain ⟨ihp, ihq⟩ := ihw p hp
      rw [ihp fun call hcall => hw call (mem_aggregateCallsPairs.mpr ⟨p, hp, .inl hcall⟩),
        ihq fun call hcall => hw call (mem_aggregateCallsPairs.mpr ⟨p, hp, .inr hcall⟩)]
    · apply Option.map_congr
      intro x hx
      exact ihe x hx fun call hcall => helse call (mem_aggregateCallsOpt.mpr ⟨x, hx, hcall⟩)
  | subscript container index type ihl ihi =>
    rw [aggregateCalls, forall_mem_append] at h
    rw [substituteCalls, substituteCalls, ihl h.1, ihi h.2]
  | slice container from_expr to_expr type ihl ihf iht =>
    rw [aggregateCalls, forall_mem_append, forall_mem_append] at h
    obtain ⟨⟨hl, hf⟩, hto⟩ := h
    rw [substituteCalls, substituteCalls, substituteOpt_eq, substituteOpt_eq, substituteOpt_eq,
      substituteOpt_eq, ihl hl]
    congr 1
    · apply Option.map_congr
      intro x hx
      exact ihf x hx fun call hcall => hf call (mem_aggregateCallsOpt.mpr ⟨x, hx, hcall⟩)
    · apply Option.map_congr
      intro x hx
      exact iht x hx fun call hcall => hto call (mem_aggregateCallsOpt.mpr ⟨x, hx, hcall⟩)
  | quantifier kind loop_variable index list_expr where_pred type ihl ihw =>
    rw [aggregateCalls, forall_mem_append] at h
    rw [substituteCalls, substituteCalls, ihl h.1, substituteOpt_eq, substituteOpt_eq]
    congr 1
    apply Option.map_congr
    intro x hx
    exact ihw x hx fun call hcall => h.2 call (mem_aggregateCallsOpt.mpr ⟨x, hx, hcall⟩)
  | listComprehension loop_variable index list_expr where_pred projection type ihl ihw ihp =>
    rw [aggregateCalls, forall_mem_append, forall_mem_append] at h
    obtain ⟨⟨hl, hw⟩, hp⟩ := h
    rw [substituteCalls, substituteCalls, ihl hl, ihp hp, substituteOpt_eq, substituteOpt_eq]
    congr 1
    apply Option.map_congr
    intro x hx
    exact ihw x hx fun call hcall => hw call (mem_aggregateCallsOpt.mpr ⟨x, hx, hcall⟩)
  | reduce accumulator loop_variable slots init list_expr expr type ihi ihl ihe =>
    rw [aggregateCalls, forall_mem_append, forall_mem_append] at h
    obtain ⟨⟨hi, hl⟩, he⟩ := h
    rw [substituteCalls, substituteCalls, ihi hi, ihl hl, ihe he]
  | patternComprehension slot name type as_boolean ast => rfl

end Calls

end BoundExpression

end Eugraph.Optimizer
