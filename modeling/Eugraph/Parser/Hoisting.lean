import Eugraph.Parser.CypherAst

/-!
# What the hoisting computes

`hoistAtomicPredicates` calls itself on trees it has just rebuilt.  The rotations move
strictly up: `hoistRight` walks down the predicates on top of a right operand, `hoistLeft`
those on top of a left one, and an expression that has been hoisted is hoisted to itself.
-/

namespace Eugraph.Cypher

open Optimizer (BinaryOperator UnaryOperator)

variable {α : Type}

/-! ### The rotations -/

/-- `OP(l, r)` for an `r` without a predicate on top. -/
def hoistLeft (op : BinaryOperator) : Expression α → Expression α → Expression α
  | .binaryOp p a b, r =>
    if isBinaryPredicate p then .binaryOp p a (hoistLeft op b r)
    else .binaryOp op (.binaryOp p a b) r
  | .unaryOp p a, r =>
    if isNullCheck p then .unaryOp p (.binaryOp op a r) else .binaryOp op (.unaryOp p a) r
  | l, r => .binaryOp op l r

/-- `OP(l, r)`; a null check on top of `r` is the last one that moves. -/
def hoistRight (op : BinaryOperator) (l : Expression α) : Expression α → Expression α
  | .binaryOp p b c =>
    if isBinaryPredicate p then .binaryOp p (hoistRight op l b) c
    else hoistLeft op l (.binaryOp p b c)
  | .unaryOp p b =>
    if isNullCheck p then .unaryOp p (.binaryOp op l b) else hoistLeft op l (.unaryOp p b)
  | r => hoistLeft op l r

def hoisted : Expression α → Expression α
  | .paren inner => .paren (hoisted inner)
  | .binaryOp op left right =>
    if isArith op then hoistRight op (hoisted left) (hoisted right)
    else .binaryOp op (hoisted left) (hoisted right)
  | e => e

/-- Hoisting has nothing left to do. -/
def Stable (e : Expression α) : Prop := hoisted e = e

lemma not_isArith_of_isBinaryPredicate {p : BinaryOperator} (h : isBinaryPredicate p = true) :
    isArith p = false := by
  cases p <;> first | rfl | cases h

section Rotations

variable {op p : BinaryOperator} {l r a b : Expression α}

lemma hoistRight_of_not_predicate (h : isAtomicPredicateExpr r = false) : hoistRight op l r = hoistLeft op l r := by
  cases r with
  | binaryOp p b c => exact if_neg (Bool.eq_false_iff.mp h)
  | unaryOp p b => exact if_neg (Bool.eq_false_iff.mp h)
  | _ => rfl

lemma hoistLeft_of_not_predicate (h : isAtomicPredicateExpr l = false) : hoistLeft op l r = .binaryOp op l r := by
  cases l with
  | binaryOp p a b => exact if_neg (Bool.eq_false_iff.mp h)
  | unaryOp p a => exact if_neg (Bool.eq_false_iff.mp h)
  | _ => rfl

lemma size_hoistLeft (op : BinaryOperator) (l r : Expression α) :
    (hoistLeft op l r).size = l.size + r.size + 1 := by
  induction l with
  | binaryOp p a b _ ih =>
    rw [hoistLeft]
    split
    · simp only [Expression.size, ih]
      omega
    · rfl
  | unaryOp p a =>
    rw [hoistLeft]
    split
    · simp only [Expression.size]
      omega
    · rfl
  | _ => rfl

lemma size_hoistRight (op : BinaryOperator) (l r : Expression α) :
    (hoistRight op l r).size = l.size + r.size + 1 := by
  induction r with
  | binaryOp p b c ih _ =>
    rw [hoistRight]
    split
    · simp only [Expression.size, ih]
      omega
    · exact size_hoistLeft op l _
  | unaryOp p b =>
    rw [hoistRight]
    split
    · simp only [Expression.size]
      omega
    · exact size_hoistLeft op l _
  | _ => exact size_hoistLeft op l _

lemma size_hoisted (e : Expression α) : (hoisted e).size = e.size := by
  induction e with
  | paren inner ih => rw [hoisted, Expression.size, Expression.size, ih]
  | binaryOp op left right ihl ihr =>
    rw [hoisted]
    split
    · rw [size_hoistRight, ihl, ihr, Expression.size]
    · rw [Expression.size, ihl, ihr, Expression.size]
  | _ => rfl

example (x y : α) : (hoisted (.binaryOp .ADD (.atom x) (.paren (.atom y)))).size = 4 := by
  simp [hoisted, hoistRight, hoistLeft, isArith, Expression.size]

/-! ### Hoisted expressions -/

lemma stable_binaryOp_iff (h : isArith p = false) : Stable (.binaryOp p a b) ↔ Stable a ∧ Stable b := by
  rw [Stable, hoisted, if_neg (Bool.eq_false_iff.mp h), Expression.binaryOp.injEq]
  exact ⟨fun hab => hab.2, fun hab => ⟨rfl, hab⟩⟩

lemma stable_predicate (h : isBinaryPredicate p = true) : Stable (.binaryOp p a b) ↔ Stable a ∧ Stable b :=
  stable_binaryOp_iff (not_isArith_of_isBinaryPredicate h)

lemma stable_hoistLeft (hop : isArith op = true) (hl : Stable l) (hr : Stable r)
    (hpred : isAtomicPredicateExpr r = false) : Stable (hoistLeft op l r) := by
  have hbase : ∀ l : Expression α, Stable l → isAtomicPredicateExpr l = false → Stable (.binaryOp op l r) := by
    intro l hl hnot
    rw [Stable, hoisted, if_pos hop, show hoisted l = l from hl, show hoisted r = r from hr,
      hoistRight_of_not_predicate hpred, hoistLeft_of_not_predicate hnot]
  induction l with
  | binaryOp p a b _ ih =>
    rw [hoistLeft]
    split
    · rename_i hp
      obtain ⟨ha, hb⟩ := (stable_predicate hp).mp hl
      exact (stable_predicate hp).mpr ⟨ha, ih hb⟩
    · rename_i hp
      exact hbase _ hl (Bool.eq_false_iff.mpr hp)
  | unaryOp p a =>
    rw [hoistLeft]
    split
    · exact rfl
    · rename_i hp
      exact hbase _ hl (Bool.eq_false_iff.mpr hp)
  | _ => exact hbase _ hl rfl

lemma stable_hoistRight (hop : isArith op = true) (hl : Stable l) (hr : Stable r) : Stable (hoistRight op l r) := by
  induction r with
  | binaryOp p b c ih _ =>
    rw [hoistRight]
    split
    · rename_i hp
      obtain ⟨hb, hc⟩ := (stable_predicate hp).mp hr
      exact (stable_predicate hp).mpr ⟨ih hb, hc⟩
    · rename_i hp
      exact stable_hoistLeft hop hl hr (Bool.eq_false_iff.mpr hp)
  | unaryOp p b =>
    rw [hoistRight]
    split
    · exact rfl
    · rename_i hp
      exact stable_hoistLeft hop hl hr (Bool.eq_false_iff.mpr hp)
  | _ => exact stable_hoistLeft hop hl hr rfl

/-- Hoisting twice is hoisting once. -/
theorem stable_hoisted (e : Expression α) : Stable (hoisted e) := by
  induction e with
  | paren inner ih => exact congrArg Expression.paren ih
  | binaryOp op left right ihl ihr =>
    rw [hoisted]
    split
    · rename_i hop
      exact stable_hoistRight hop ihl ihr
    · rename_i hop
      exact (stable_binaryOp_iff (Bool.eq_false_iff.mpr hop)).mpr ⟨ihl, ihr⟩
  | _ => rfl

end Rotations

/-! ### Termination -/

lemma one_le_size (e : Expression α) : 1 ≤ e.size := by
  cases e
  all_goals simp only [Expression.size]
  all_goals omega

variable {r : Expression α}

/-- The predicate rotated up stands over the operator and a hoisted operand, or alone. -/
theorem rotate_eq {op : BinaryOperator} (hop : isArith op = true) {l : Expression α}
    (hl : Stable l) (hr : Stable r) {again : Expression α → Option (Expression α)}
    (hbinary : ∀ p x y, isBinaryPredicate p = true → x.size + y.size ≤ l.size + r.size →
      again (.binaryOp p x y) = some (.binaryOp p (hoisted x) (hoisted y)))
    (hunary : ∀ p x, again (.unaryOp p x) = some (.unaryOp p x)) :
    rotate again op l r = some (hoistRight op l r) := by
  have harith : ∀ a b : Expression α, Stable a → Stable b → hoisted (.binaryOp op a b) = hoistRight op a b := by
    intro a b ha hb
    rw [hoisted, if_pos hop, show hoisted a = a from ha, show hoisted b = b from hb]
  unfold rotate
  split
  · rename_i hright
    cases r with
    | binaryOp p b c =>
      have hp : isBinaryPredicate p = true := hright
      obtain ⟨hb, hc⟩ := (stable_predicate hp).mp hr
      have hsize : (Expression.binaryOp op l b).size + c.size ≤ l.size + (Expression.binaryOp p b c).size := by
        simp only [Expression.size]
        omega
      dsimp only
      rw [hbinary p _ c hp hsize, harith l b hl hb, show hoisted c = c from hc, hoistRight, if_pos hp]
    | unaryOp p b =>
      dsimp only
      rw [hunary, hoistRight, if_pos (show isNullCheck p = true from hright)]
    | _ => cases hright
  · rename_i hright
    rw [Bool.not_eq_true] at hright
    rw [hoistRight_of_not_predicate hright]
    split
    · rename_i hleft
      cases l with
      | binaryOp p a b =>
        have hp : isBinaryPredicate p = true := hleft
        obtain ⟨ha, hb⟩ := (stable_predicate hp).mp hl
        have hsize : a.size + (Expression.binaryOp op b r).size ≤ (Expression.binaryOp p a b).size + r.size := by
          simp only [Expression.size]
          omega
        dsimp only
        rw [hbinary p a _ hp hsize, harith b r hb hr, show hoisted a = a from ha,
          hoistRight_of_not_predicate hright, hoistLeft, if_pos hp]
      | unaryOp p a =>
        dsimp only
        rw [hunary, hoistLeft, if_pos (show isNullCheck p = true from hleft)]
      | _ => cases hleft
    · rename_i hleft
      rw [hoistLeft_of_not_predicate (Bool.eq_false_iff.mpr hleft)]

/-- Calls nested as deep as the expression is large suffice: what is rebuilt is as large
as before, but what is hoisted inside it is smaller. -/
theorem hoistWithin_eq {n : Nat} {e : Expression α} (hn : e.size ≤ n) : hoistWithin n e = some (hoisted e) := by
  induction n using Nat.strong_induction_on generalizing e with
  | _ n ih =>
    cases n with
    | zero =>
      have := one_le_size e
      omega
    | succ n =>
      cases e with
      | paren inner =>
        rw [hoistWithin, ih n (by omega) (by simp only [Expression.size] at hn; omega)]
        rfl
      | binaryOp op left right =>
        simp only [Expression.size] at hn
        rw [hoistWithin, ih n (by omega) (by omega : left.size ≤ n),
          ih n (by omega) (by omega : right.size ≤ n), hoisted]
        show (if isArith op then rotate (hoistWithin n) op (hoisted left) (hoisted right)
          else some (.binaryOp op (hoisted left) (hoisted right))) = _
        have hsizel := size_hoisted left
        have hsizer := size_hoisted right
        have honel := one_le_size left
        obtain ⟨m, rfl⟩ : ∃ m, n = m + 1 := ⟨n - 1, by omega⟩
        split
        · rename_i hop
          refine rotate_eq hop (stable_hoisted left) (stable_hoisted right) ?_ ?_
          · intro p x y hp hsize
            have honex := one_le_size x
            have honey := one_le_size y
            rw [hoistWithin, ih m (by omega) (by omega : x.size ≤ m),
              ih m (by omega) (by omega : y.size ≤ m)]
            show (if isArith p then _ else _) = _
            rw [if_neg (Bool.eq_false_iff.mp (not_isArith_of_isBinaryPredicate hp))]
            rfl
          · exact fun p x => rfl
        · rfl
      | _ => rfl

/-- The hoisting ends, and no deeper nesting changes its result. -/
theorem hoistWithin_terminates {n : Nat} {e : Expression α} (hn : e.size ≤ n) :
    hoistWithin n e = some (hoistAtomicPredicates e) := by
  rw [hoistAtomicPredicates, hoistWithin_eq hn, hoistWithin_eq (le_refl _)]
  rfl

lemma hoistAtomicPredicates_eq (e : Expression α) : hoistAtomicPredicates e = hoisted e := by
  rw [hoistAtomicPredicates, hoistWithin_eq (le_refl _)]
  rfl

/-! ### What the builder makes is hoisted -/

/-- The operand of a suffix that is not hoisted behind a bracket. -/
def Suffix.operands {ε : Type} : Suffix ε → List ε
  | .stringExp _ operand => [operand]
  | .listIn operand => [operand]
  | _ => []

def OperandsStable (suffixes : List (Suffix (Expression α))) : Prop :=
  ∀ suffix ∈ suffixes, ∀ e ∈ suffix.operands, Stable e

variable {suffix : Suffix (Expression α)}

lemma OperandsStable.cons {rest : List (Suffix (Expression α))}
    (hoperands : ∀ e ∈ suffix.operands, Stable e) (hrest : OperandsStable rest) :
    OperandsStable (suffix :: rest) := by
  intro s hs
  rcases List.mem_cons.mp hs with rfl | hs
  · exact hoperands
  · exact hrest s hs

lemma isBinaryPredicate_operator (p : StringExpPrefix) : isBinaryPredicate p.operator = true := by
  cases p
  all_goals rfl

lemma stable_applyListPostfix (base : Expression α) (b : Bracket (Expression α)) :
    Stable (applyListPostfix base b) := by
  cases b
  all_goals rfl

lemma stable_applyString (hr : Stable r)
    (hoperands : ∀ e ∈ suffix.operands, Stable e) : Stable (applyString r suffix) := by
  cases suffix with
  | stringExp p operand =>
    exact (stable_predicate (isBinaryPredicate_operator p)).mpr ⟨hr, hoperands operand List.mem_cons_self⟩
  | _ => exact hr

lemma stable_applyNull (hr : Stable r) (suffix : Suffix (Expression α)) :
    Stable (applyNull r suffix) := by
  cases suffix with
  | nullExp negated => rfl
  | _ => exact hr

/-- Both expressions of the loop are hoisted. -/
def ListLoop.Stable (s : ListLoop α) : Prop :=
  Cypher.Stable s.r ∧ ∀ right ∈ s.right, Cypher.Stable right

lemma ListLoop.Stable.close {s : ListLoop α} (h : s.Stable) : Cypher.Stable s.close := by
  unfold ListLoop.close
  split
  · exact h.1
  · rename_i right hright
    exact (stable_predicate rfl).mpr ⟨h.1, h.2 right hright⟩

lemma ListLoop.Stable.step {s : ListLoop α} (h : s.Stable)
    (hoperands : ∀ e ∈ suffix.operands, Cypher.Stable e) : (s.step suffix).Stable := by
  cases suffix with
  | listIn operand =>
    refine ⟨h.close, fun e he => ?_⟩
    obtain rfl : operand = e := by simpa [ListLoop.step] using he
    exact hoperands operand List.mem_cons_self
  | bracket b =>
    cases hright : s.right with
    | none =>
      rw [ListLoop.step, hright]
      exact ⟨stable_applyListPostfix s.r b, by simp⟩
    | some right =>
      rw [ListLoop.step, hright]
      refine ⟨h.1, fun e he => ?_⟩
      obtain rfl : applyListPostfix right b = e := by simpa using he
      exact stable_applyListPostfix right b
  | _ => exact h

lemma stable_foldl {σ : Type} {P : σ → Prop} {step : σ → Suffix (Expression α) → σ}
    (hstep : ∀ s suffix, P s → (∀ e ∈ suffix.operands, Stable e) → P (step s suffix))
    {suffixes : List (Suffix (Expression α))} (hoperands : OperandsStable suffixes) {s : σ} (h : P s) :
    P (suffixes.foldl step s) := by
  induction suffixes generalizing s with
  | nil => exact h
  | cons suffix rest ih =>
    exact ih (fun x hx => hoperands x (List.mem_cons_of_mem _ hx))
      (hstep s suffix h (hoperands suffix List.mem_cons_self))

lemma stable_assembleAtomic {operand : Expression α} (hoperand : Stable operand)
    {suffixes : List (Suffix (Expression α))} (hoperands : OperandsStable suffixes) :
    Stable (assembleAtomic operand suffixes) := by
  have hkind : ∀ kind, OperandsStable (ofKind kind suffixes) := fun kind s hs =>
    hoperands s (List.mem_filter.mp hs).1
  have hstrings : Stable ((ofKind .string suffixes).foldl applyString operand) :=
    stable_foldl (P := Stable) (fun _ _ h hoperands => stable_applyString h hoperands) (hkind .string)
      hoperand
  have hlists : Stable (applyLists ((ofKind .string suffixes).foldl applyString operand)
      (ofKind .list suffixes)) := by
    refine ListLoop.Stable.close (stable_foldl (P := ListLoop.Stable) (fun _ _ h hoperands => h.step hoperands)
      (hkind .list) ?_)
    exact ⟨hstrings, by simp⟩
  exact stable_foldl (P := Stable) (fun _ suffix h _ => stable_applyNull h suffix) (hkind .null) hlists

lemma stable_hoistAtomicPredicates (e : Expression α) : Stable (hoistAtomicPredicates e) := by
  rw [hoistAtomicPredicates_eq]
  exact stable_hoisted e

mutual

theorem stable_buildExpression : ∀ ctx : ExpressionContext α, Stable (buildExpression ctx)
  | .one x => stable_buildXorExpr x
  | .more rest x =>
    (stable_binaryOp_iff rfl).mpr ⟨stable_buildExpression rest, stable_buildXorExpr x⟩

theorem stable_buildXorExpr : ∀ ctx : XorExpressionContext α, Stable (buildXorExpr ctx)
  | .one a => stable_buildAndExpr a
  | .more rest a => (stable_binaryOp_iff rfl).mpr ⟨stable_buildXorExpr rest, stable_buildAndExpr a⟩

theorem stable_buildAndExpr : ∀ ctx : AndExpressionContext α, Stable (buildAndExpr ctx)
  | .one n => stable_buildNotExpr n
  | .more rest n => (stable_binaryOp_iff rfl).mpr ⟨stable_buildAndExpr rest, stable_buildNotExpr n⟩

theorem stable_buildNotExpr : ∀ ctx : NotExpressionContext α, Stable (buildNotExpr ctx)
  | .comparison c => (stable_buildComparisonExpr c).1
  | .not _ => rfl

theorem stable_buildComparisonExpr : ∀ ctx : ComparisonExpressionContext α,
    Stable (buildComparisonExpr ctx).1 ∧ Stable (buildComparisonExpr ctx).2
  | .one a => ⟨stable_hoistAtomicPredicates _, stable_hoistAtomicPredicates _⟩
  | .more (.one first) sign a => by
      refine ⟨(stable_binaryOp_iff ?_).mpr ⟨stable_hoistAtomicPredicates _,
        stable_hoistAtomicPredicates _⟩, stable_hoistAtomicPredicates _⟩
      cases sign
      all_goals rfl
  | .more (.more rest sign' a') sign a => by
      have hrest := stable_buildComparisonExpr (.more rest sign' a')
      refine ⟨(stable_binaryOp_iff rfl).mpr ⟨hrest.1, (stable_binaryOp_iff ?_).mpr
        ⟨hrest.2, stable_hoistAtomicPredicates _⟩⟩, stable_hoistAtomicPredicates _⟩
      cases sign
      all_goals rfl

theorem stable_buildUnaryExpr : ∀ ctx : UnaryAddSubExpressionContext α, Stable (buildUnaryExpr ctx)
  | .plain a => stable_buildAtomicExpr a
  | .sub _ => rfl

theorem stable_buildAtomicExpr : ∀ ctx : AtomicExpressionContext α, Stable (buildAtomicExpr ctx)
  | .mk operand suffixes =>
    stable_assembleAtomic (stable_buildPropOrLabelExpr operand) (stable_buildSuffixes suffixes)

theorem stable_buildSuffixes : ∀ ctx : SuffixesContext α, OperandsStable (buildSuffixes ctx)
  | .nil => fun s hs => absurd hs (by simp [buildSuffixes])
  | .stringExp p operand rest =>
    .cons (by simpa [Suffix.operands] using stable_buildPropOrLabelExpr operand)
      (stable_buildSuffixes rest)
  | .listIn operand rest =>
    .cons (by simpa [Suffix.operands] using stable_buildPropOrLabelExpr operand)
      (stable_buildSuffixes rest)
  | .bracket b rest => .cons (by simp [Suffix.operands]) (stable_buildSuffixes rest)
  | .nullExp negated rest => .cons (by simp [Suffix.operands]) (stable_buildSuffixes rest)

theorem stable_buildPropOrLabelExpr : ∀ ctx : PropertyOrLabelExpressionContext α, Stable (buildPropOrLabelExpr ctx)
  | .atom _ => rfl
  | .parenthesized inner => congrArg Expression.paren (stable_buildExpression inner)

end

/-! ### The builder, rotation by rotation -/

example (u : UnaryAddSubExpressionContext α) (p : PowerExpressionContext α) (m : MultDivExpressionContext α) :
    powerLoop (.one u) = buildUnaryExpr u ∧ mulDivLoop (.one p) = buildPowerExpr p ∧
      addSubLoop (.one m) = buildMulDivExpr m := by
  simp [powerLoop, mulDivLoop, addSubLoop, buildPowerExpr, buildMulDivExpr]

lemma buildPowerExpr_one (u : UnaryAddSubExpressionContext α) : buildPowerExpr (.one u) = buildUnaryExpr u := by
  rw [buildPowerExpr, hoistAtomicPredicates_eq, powerLoop]
  exact stable_buildUnaryExpr u

lemma buildPowerExpr_more (rest : PowerExpressionContext α) (u : UnaryAddSubExpressionContext α) :
    buildPowerExpr (.more rest u) = hoistRight .POW (buildPowerExpr rest) (buildUnaryExpr u) := by
  rw [buildPowerExpr, buildPowerExpr, hoistAtomicPredicates_eq, hoistAtomicPredicates_eq, powerLoop,
    hoisted, if_pos (show isArith .POW = true from rfl),
    show hoisted (buildUnaryExpr u) = _ from stable_buildUnaryExpr u]

lemma buildMulDivExpr_one (p : PowerExpressionContext α) : buildMulDivExpr (.one p) = buildPowerExpr p := by
  rw [buildMulDivExpr, hoistAtomicPredicates_eq, mulDivLoop]
  exact stable_hoistAtomicPredicates _

lemma buildMulDivExpr_more (rest : MultDivExpressionContext α) (sign : MultDivSign) (p : PowerExpressionContext α) :
    buildMulDivExpr (.more rest sign p) = hoistRight sign.operator (buildMulDivExpr rest) (buildPowerExpr p) := by
  have hop : isArith sign.operator = true := by
    cases sign
    all_goals rfl
  rw [buildMulDivExpr, buildMulDivExpr, hoistAtomicPredicates_eq, hoistAtomicPredicates_eq,
    mulDivLoop, hoisted, if_pos hop,
    show hoisted (hoistAtomicPredicates (powerLoop p)) = _ from stable_hoistAtomicPredicates _]
  rfl

lemma buildAddSubExpr_one (m : MultDivExpressionContext α) : buildAddSubExpr (.one m) = buildMulDivExpr m := by
  rw [buildAddSubExpr, hoistAtomicPredicates_eq, addSubLoop]
  exact stable_hoistAtomicPredicates _

lemma buildAddSubExpr_more (rest : AddSubExpressionContext α) (sign : AddSubSign) (m : MultDivExpressionContext α) :
    buildAddSubExpr (.more rest sign m) = hoistRight sign.operator (buildAddSubExpr rest) (buildMulDivExpr m) := by
  have hop : isArith sign.operator = true := by
    cases sign
    all_goals rfl
  rw [buildAddSubExpr, buildAddSubExpr, hoistAtomicPredicates_eq, hoistAtomicPredicates_eq,
    addSubLoop, hoisted, if_pos hop,
    show hoisted (hoistAtomicPredicates (mulDivLoop m)) = _ from stable_hoistAtomicPredicates _]
  rfl

end Eugraph.Cypher
