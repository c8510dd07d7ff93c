import Eugraph.Parser.Hoisting
import Eugraph.Parser.Precedence

/-!
# When a rotation restores the precedence

An arithmetic operator stands between two texts that may hold predicates.  The rotated tree
is the meaning of the whole text exactly when both operands have been read right and every
null check of the right one comes before all other predicates.
-/

namespace Eugraph.Cypher

open List

open Optimizer (BinaryOperator UnaryOperator)

variable {α : Type}

/-! ### Counting operators -/

/-- The operators outside of parentheses and brackets, each with a weight. -/
def Expression.weight (b : BinaryOperator → Nat) (n : UnaryOperator → Nat) : Expression α → Nat
  | .atom _ => 0
  | .paren _ => 0
  | .binaryOp op left right => left.weight b n + (b op + right.weight b n)
  | .unaryOp op operand => operand.weight b n + n op
  | .subscript list _ => list.weight b n
  | .sliceAll list => list.weight b n
  | .sliceFrom list _ => list.weight b n
  | .sliceTo list _ => list.weight b n
  | .slice list _ _ => list.weight b n

def Token.weight (b : BinaryOperator → Nat) (n : UnaryOperator → Nat) : Token α → Nat
  | .operator op => b op
  | .nullCheck negated => n (nullOperator negated)
  | .minus => n .NEGATE
  | .not => n .NOT
  | _ => 0

def textWeight (b : BinaryOperator → Nat) (n : UnaryOperator → Nat) (ts : List (Token α)) : Nat :=
  (ts.map (Token.weight b n)).sum

section Weights

variable {b : BinaryOperator → Nat} {n : UnaryOperator → Nat}

@[simp] lemma textWeight_cons (t : Token α) (ts : List (Token α)) :
    textWeight b n (t :: ts) = t.weight b n + textWeight b n ts := rfl

@[simp] lemma textWeight_append (ts us : List (Token α)) :
    textWeight b n (ts ++ us) = textWeight b n ts + textWeight b n us := by
  rw [textWeight, map_append, sum_append]
  rfl

lemma weight_applyListPostfix (e : Expression α) (bracket : Bracket (Expression α)) :
    (applyListPostfix e bracket).weight b n = e.weight b n := by
  cases bracket
  all_goals rfl

/-- Below the comparisons a reading keeps every operator of its text. -/
theorem Reads.textWeight_eq {L : Level α} {ts : List (Token α)} {e : Expression α}
    (h : Reads L ts e) (hL : L.rank ≤ 5) : textWeight b n ts = e.weight b n := by
  induction h with
  | atom a => rfl
  | paren => rfl
  | bracket _ _ _ ih =>
    rw [weight_applyListPostfix, ← ih hL, textWeight_append]
    rfl
  | unsigned _ ih => exact ih (Nat.zero_le 5)
  | negate _ ih =>
    rw [textWeight_cons, ih (Nat.zero_le 5), Expression.weight, Nat.add_comm]
    rfl
  | tighter _ _ ih => exact ih ((rank_tighter_le _).trans hL)
  | arith _ _ _ ihl ihr =>
    rw [textWeight_append, textWeight_cons, ihl hL, ihr ((rank_tighter_le _).trans hL)]
    rfl
  | @arithmetic a _ _ _ ih => exact ih ((rank_le_addSub a).trans (show (4 : Nat) ≤ 5 by omega))
  | @predicate a _ _ _ _ _ _ _ _ ihl ihr =>
    rw [textWeight_append, textWeight_cons, ihl hL, ihr ((rank_le_addSub a).trans (show (4 : Nat) ≤ 5 by omega))]
    rfl
  | nullCheck negated _ ih =>
    rw [textWeight_append, ih hL]
    rfl
  | firstComparison => exact absurd hL (show ¬ (6 : Nat) ≤ 5 by omega)
  | nextComparison => exact absurd hL (show ¬ (6 : Nat) ≤ 5 by omega)
  | noComparison => exact absurd hL (show ¬ (6 : Nat) ≤ 5 by omega)
  | comparison => exact absurd hL (show ¬ (6 : Nat) ≤ 5 by omega)
  | noNot => exact absurd hL (show ¬ (7 : Nat) ≤ 5 by omega)
  | not => exact absurd hL (show ¬ (7 : Nat) ≤ 5 by omega)
  | @noLogic k =>
    cases k
    all_goals simp [Level.rank, LogicLevel.rank] at hL
  | @logic k =>
    cases k
    all_goals simp [Level.rank, LogicLevel.rank] at hL

example (x : α) : (Expression.atom x).weight (fun _ => 1) (fun _ => 1) = 0 := by
  simp [Expression.weight]

lemma weight_hoistLeft (op : BinaryOperator) (l r : Expression α) :
    (hoistLeft op l r).weight b n = (Expression.binaryOp op l r).weight b n := by
  induction l with
  | binaryOp p x y _ ih =>
    rw [hoistLeft]
    split
    · simp only [Expression.weight, ih]
      omega
    · rfl
  | unaryOp p x =>
    rw [hoistLeft]
    split
    · simp only [Expression.weight]
      omega
    · rfl
  | _ => rfl

lemma weight_hoistRight (op : BinaryOperator) (l r : Expression α) :
    (hoistRight op l r).weight b n = (Expression.binaryOp op l r).weight b n := by
  induction r with
  | binaryOp p x y ih _ =>
    rw [hoistRight]
    split
    · simp only [Expression.weight, ih]
      omega
    · exact weight_hoistLeft op l _
  | unaryOp p x =>
    rw [hoistRight]
    split
    · simp only [Expression.weight]
      omega
    · exact weight_hoistLeft op l _
  | _ => exact weight_hoistLeft op l _

end Weights

/-- The built expression has the operators of the text, in some order. -/
def SameOperators (ts : List (Token α)) (e : Expression α) : Prop :=
  ∀ b n, textWeight b n ts = e.weight b n

/-! ### Readings by the shape of the expression -/

variable {ts : List (Token α)} {e : Expression α}

lemma Reads.ne_nil {L : Level α} (h : Reads L ts e) : ts ≠ [] := by
  induction h with
  | unsigned _ ih => exact ih
  | tighter _ _ ih => exact ih
  | arithmetic _ ih => exact ih
  | noComparison _ ih => exact ih
  | comparison _ ih => exact ih
  | noNot _ ih => exact ih
  | noLogic _ ih => exact ih
  | _ => simp

variable {a b : ArithLevel}

lemma Reads.loosen (h : Reads (.arith a) ts e) (hab : a.rank ≤ b.rank) : Reads (.arith b) ts e := by
  have hpower : Reads (.arith .unary) ts e → Reads (.arith .power) ts e :=
    fun h => Reads.tighter (a := .power) (by simp) h
  have hmultDiv : Reads (.arith .power) ts e → Reads (.arith .multDiv) ts e :=
    fun h => Reads.tighter (a := .multDiv) (by simp) h
  have haddSub : Reads (.arith .multDiv) ts e → Reads (.arith .addSub) ts e :=
    fun h => Reads.tighter (a := .addSub) (by simp) h
  cases a
  all_goals cases b
  all_goals first
    | exact h
    | exact hpower h
    | exact hmultDiv h
    | exact haddSub h
    | exact hmultDiv (hpower h)
    | exact haddSub (hmultDiv h)
    | exact haddSub (hmultDiv (hpower h))
    | simp [ArithLevel.rank] at hab

lemma Reads.loosen_predicate
    (h : Reads (.predicate a) ts e) (hab : a.rank ≤ b.rank) : Reads (.predicate b) ts e := by
  generalize hL : Level.predicate a = L at h
  induction h with
  | arithmetic hinner _ =>
    cases hL
    exact .arithmetic (hinner.loosen hab)
  | predicate hp _ hr ihl _ =>
    cases hL
    exact .predicate hp (ihl rfl) (hr.loosen hab)
  | nullCheck negated _ ih =>
    cases hL
    exact .nullCheck negated (ih rfl)
  | _ => cases hL

/-- A text without looser operators is read on the tighter level. -/
theorem Reads.tighten (h : Reads (.arith a) ts e) (hts : ∀ t ∈ ts, t.rank ≤ b.rank) : Reads (.arith b) ts e := by
  generalize hL : Level.arith a = L at h
  induction h generalizing a with
  | unsigned hinner _ => exact (Reads.unsigned hinner).loosen (one_le_rank b)
  | negate hinner _ => exact (Reads.negate hinner).loosen (one_le_rank b)
  | tighter _ _ ih => exact ih hts rfl
  | arith hop hl hr _ _ =>
    cases hL
    have hrank := hts _ (mem_append_right _ mem_cons_self)
    exact (Reads.arith hop hl hr).loosen ((operatorRank_of_arithLevel hop).symm.trans_le hrank)
  | _ => cases hL

/-- Predicates aside, no operator binds more loosely than the level. -/
def Within (a : ArithLevel) (ts : List (Token α)) : Prop :=
  ∀ t ∈ ts, t.rank ≤ a.rank ∨ t.rank = 5

variable {us : List (Token α)}

lemma Within.of_append (h : Within a (ts ++ us)) : Within a ts ∧ Within a us :=
  ⟨fun t ht => h t (mem_append_left _ ht), fun t ht => h t (mem_append_right _ ht)⟩

lemma Within.tail {t : Token α} (h : Within a (t :: us)) :
    Within a us := fun u hu => h u (mem_cons_of_mem _ hu)

lemma Within.tighten_arith (hts : Within b ts) (h : Reads (.arith a) ts e) : Reads (.arith b) ts e := by
  refine h.tighten fun t ht => (hts t ht).resolve_right ?_
  have := h.not_predicate t ht
  omega

lemma Within.tighten (hts : Within b ts) (h : Reads (.predicate a) ts e) : Reads (.predicate b) ts e := by
  generalize hL : Level.predicate a = L at h
  induction h generalizing a with
  | arithmetic hinner _ => exact .arithmetic (hts.tighten_arith hinner)
  | predicate hp _ hr ihl _ =>
    exact .predicate hp (ihl hts.of_append.1 rfl) (hts.of_append.2.tail.tighten_arith hr)
  | nullCheck negated _ ih => exact .nullCheck negated (ih hts.of_append.1 rfl)
  | _ => cases hL

/-- A reading without predicates. -/
theorem Reads.arith_of_not_predicate
    (h : Reads (.predicate a) ts e) (hts : ∀ t ∈ ts, t.rank ≠ 5) : Reads (.arith a) ts e := by
  cases h with
  | arithmetic hinner => exact hinner
  | predicate hp _ _ =>
    exact absurd (operatorRank_of_predicate hp) (hts _ (mem_append_right _ mem_cons_self))
  | nullCheck negated _ =>
    exact absurd rfl (hts _ (mem_append_right _ mem_cons_self))

lemma Reads.isAtomicPredicateExpr_eq (h : Reads (.arith a) ts e) : isAtomicPredicateExpr e = false := by
  generalize hL : Level.arith a = L at h
  induction h generalizing a with
  | unsigned hinner _ =>
    cases hinner with
    | bracket b _ _ =>
      generalize b.map Prod.snd = b'
      cases b'
      all_goals rfl
    | _ => rfl
  | negate _ => rfl
  | tighter _ _ ih => exact ih rfl
  | @arith _ op _ _ _ _ hop _ _ _ _ =>
    cases op
    all_goals first
      | rfl
      | cases hop
  | _ => cases hL

variable {p : BinaryOperator} {x y : Expression α}

lemma Reads.predicate_inv (h : Reads (.predicate a) ts (.binaryOp p x y)) (hp : isBinaryPredicate p = true) :
    ∃ t u, ts = t ++ .operator p :: u ∧ Reads (.predicate a) t x ∧ Reads (.arith a) u y := by
  cases h with
  | arithmetic hinner => exact absurd (hinner.isAtomicPredicateExpr_eq.symm.trans hp) (by simp)
  | predicate _ hl hr => exact ⟨_, _, rfl, hl, hr⟩

lemma Reads.nullCheck_inv {p : UnaryOperator} (h : Reads (.predicate a) ts (.unaryOp p x))
    (hp : isNullCheck p = true) :
    ∃ t negated, ts = t ++ [.nullCheck negated] ∧ p = nullOperator negated ∧ Reads (.predicate a) t x := by
  cases h with
  | arithmetic hinner => exact absurd (hinner.isAtomicPredicateExpr_eq.symm.trans hp) (by simp)
  | nullCheck negated hinner => exact ⟨_, negated, rfl, rfl, hinner⟩

lemma isNullCheck_nullOperator (negated : Bool) : isNullCheck (nullOperator negated) = true := by
  cases negated
  all_goals rfl

lemma isBinaryPredicate_of_arithLevel {op : BinaryOperator}
    (h : arithLevel op = some a) : isBinaryPredicate op = false := by
  cases op
  all_goals first
    | rfl
    | cases h

lemma Reads.arith_inv_of_arith {op : BinaryOperator} (h : Reads (.arith b) ts (.binaryOp op x y))
    (hop : arithLevel op = some a) :
    ∃ t u, ts = t ++ .operator op :: u ∧ Reads (.arith a) t x ∧ Reads (.arith a.tighter) u y := by
  generalize hL : Level.arith b = L at h
  generalize he : Expression.binaryOp op x y = e at h
  induction h generalizing b with
  | unsigned hinner _ =>
    cases hinner with
    | bracket b' _ _ =>
      generalize b'.map Prod.snd = b' at he
      cases b'
      all_goals cases he
    | _ => cases he
  | negate _ => cases he
  | tighter _ _ ih => exact ih rfl he
  | arith hop' hl hr _ _ =>
    cases he
    cases hop.symm.trans hop'
    exact ⟨_, _, rfl, hl, hr⟩
  | _ => cases hL

lemma Reads.arith_inv {op : BinaryOperator} (h : Reads (.predicate b) ts (.binaryOp op x y))
    (hop : arithLevel op = some a) :
    ∃ t u, ts = t ++ .operator op :: u ∧ Reads (.arith a) t x ∧ Reads (.arith a.tighter) u y := by
  cases h with
  | arithmetic hinner => exact hinner.arith_inv_of_arith hop
  | predicate hp _ _ =>
    exact absurd ((isBinaryPredicate_of_arithLevel hop).symm.trans hp) (by simp)

/-! ### One rotation -/

/-- No operator follows a null check, and each null check of the right operand comes before
all other predicates of both. -/
structure OperandsFit (ts us : List (Token α)) : Prop where
  left : ∀ ts' negated, ts ≠ ts' ++ [.nullCheck negated]
  right : ∀ us' negated us'', us = us' ++ .nullCheck negated :: us'' →
    ∀ t ∈ ts ++ us', t.rank ≠ 5

lemma OperandsFit.of_append {us' : List (Token α)} (h : OperandsFit ts (us ++ us')) : OperandsFit ts us := by
  refine ⟨h.left, fun v negated w hv => h.right v negated (w ++ us') ?_⟩
  rw [hv, append_assoc]
  rfl

lemma hoistLeft_predicate (op : BinaryOperator) (x y r : Expression α) (hp : isBinaryPredicate p = true) :
    hoistLeft op (.binaryOp p x y) r = .binaryOp p x (hoistLeft op y r) := by
  rw [hoistLeft, if_pos hp]

lemma hoistRight_predicate (op : BinaryOperator) (l x y : Expression α) (hp : isBinaryPredicate p = true) :
    hoistRight op l (.binaryOp p x y) = .binaryOp p (hoistRight op l x) y := by
  rw [hoistRight, if_pos hp]

lemma nullCheck_split {op : BinaryOperator} {v : List (Token α)} {negated : Bool}
    (h : ts ++ .operator op :: us = v ++ [.nullCheck negated]) :
    ∃ us', us = us' ++ [.nullCheck negated] ∧ v = ts ++ .operator op :: us' := by
  rcases eq_nil_or_concat us with rfl | ⟨us', x, rfl⟩
  · obtain ⟨-, hsame⟩ := append_inj' h rfl
    simp at hsame
  · rw [concat_eq_append, ← cons_append, ← append_assoc] at h
    obtain ⟨rfl, hlast⟩ := append_inj' h rfl
    rw [concat_eq_append, hlast]
    exact ⟨us', rfl, rfl⟩

lemma Reads.ne_append_nullCheck (h : Reads (.arith a) ts e) (v ts' : List (Token α)) (negated : Bool) :
    v ++ ts ≠ ts' ++ [.nullCheck negated] := by
  intro heq
  rcases eq_nil_or_concat ts with rfl | ⟨init, x, rfl⟩
  · exact h.ne_nil rfl
  · rw [concat_eq_append, ← append_assoc] at heq
    obtain ⟨-, hx⟩ := append_inj' heq rfl
    obtain rfl := (cons.inj hx).1
    exact h.not_predicate (.nullCheck negated) (by simp) (le_refl 5)

section Rotation

variable {a : ArithLevel} {op : BinaryOperator} (hop : arithLevel op = some a)
include hop

variable {ts us : List (Token α)} {l : Expression α} {r : Expression α}

lemma Reads.hoistLeft (hl : Reads (.predicate a) ts l) (hr : Reads (.arith a.tighter) us r)
    (hts : ∀ ts' negated, ts ≠ ts' ++ [.nullCheck negated]) :
    Reads (.predicate a) (ts ++ .operator op :: us) (hoistLeft op l r) := by
  cases hl with
  | arithmetic hinner =>
    rw [hoistLeft_of_not_predicate hinner.isAtomicPredicateExpr_eq]
    exact .arithmetic (.arith hop hinner hr)
  | predicate hp hx hy =>
    rw [hoistLeft_predicate op _ _ _ hp, hoistLeft_of_not_predicate hy.isAtomicPredicateExpr_eq, append_assoc]
    exact .predicate hp hx (.arith hop hy hr)
  | nullCheck negated _ => exact absurd rfl (hts _ negated)

/-- The walk down the predicates of the right operand. -/
theorem Reads.hoistRight (hl : Reads (.predicate a) ts l) (hr : Reads (.predicate a.tighter) us r)
    (hfit : OperandsFit ts us) :
    Reads (.predicate a) (ts ++ .operator op :: us) (hoistRight op l r) := by
  generalize hL : Level.predicate a.tighter = L at hr
  induction hr with
  | arithmetic hinner _ =>
    cases hL
    rw [hoistRight_of_not_predicate hinner.isAtomicPredicateExpr_eq]
    exact Reads.hoistLeft hop hl hinner hfit.left
  | predicate hp _ hy ihx _ =>
    cases hL
    rw [hoistRight_predicate op l _ _ hp, ← cons_append, ← append_assoc]
    exact .predicate hp (ihx hfit.of_append rfl) (hy.loosen (rank_tighter_le a))
  | @nullCheck _ us' x negated hx _ =>
    cases hL
    -- both operands are arithmetic: the check is the first predicate of the text
    have hnone := hfit.right us' negated [] rfl
    have hl' := hl.arith_of_not_predicate fun t ht => hnone t (mem_append_left _ ht)
    have hx' := hx.arith_of_not_predicate fun t ht => hnone t (mem_append_right _ ht)
    rw [Cypher.hoistRight, if_pos (isNullCheck_nullOperator negated), ← cons_append, ← append_assoc]
    exact .nullCheck negated (.arithmetic (.arith hop hl' hx'))
  | _ => cases hL

variable {e : Expression α}

/-- An operator between two arithmetic texts splits the whole in one way. -/
theorem split_of_arith {ts' us' : List (Token α)} {e' : Expression α}
    (h : ts ++ .operator op :: us = ts' ++ .operator op :: us')
    (hus : Within a.tighter us) (hts' : Reads (.arith a) ts' e) (hus' : Reads (.arith a.tighter) us' e') :
    ts = ts' ∧ us = us' := by
  have ha := arithLevel_ne_unary hop
  have hrank := operatorRank_of_arithLevel hop
  have htight := rank_tighter_lt ha
  have hadd := rank_le_addSub a
  -- neither side holds a predicate, as the right one does not
  have hnone : ∀ t ∈ ts ++ .operator op :: us, ¬ 5 ≤ t.rank := by
    intro t ht
    rw [h] at ht
    rcases mem_append.mp ht with ht | ht
    · exact hts'.not_predicate t ht
    · rcases mem_cons.mp ht with rfl | ht
      · show ¬ 5 ≤ operatorRank op
        omega
      · exact hus'.not_predicate t ht
  have hlow : ∀ t ∈ us, ¬ a.rank ≤ t.rank := by
    intro t ht
    have hpred := hnone t (mem_append_right _ (mem_cons_of_mem _ ht))
    rcases hus t ht with hle | heq
    · omega
    · omega
  obtain ⟨hts, -, hus⟩ := split_unique (p := fun t => a.rank ≤ t.rank) h (le_of_eq hrank.symm)
    (le_of_eq hrank.symm) hlow (hus'.not_arith ha)
  exact ⟨hts, hus⟩

lemma Reads.of_binaryOp (hus : Within a.tighter us)
    (h : Reads (.predicate a) (ts ++ .operator op :: us) (.binaryOp op l r)) :
    Reads (.arith a) ts l ∧ Reads (.arith a.tighter) us r := by
  obtain ⟨ts', us', hsplit, hl, hr⟩ := h.arith_inv hop
  obtain ⟨rfl, rfl⟩ := split_of_arith hop hsplit hus hl hr
  exact ⟨hl, hr⟩

lemma isArith_of_arithLevel : isArith op = true := by
  cases op
  all_goals first
    | rfl
    | cases hop

/-- The left operand with the rotated operator is no part of the left text. -/
theorem not_reads_of_left {ts' : List (Token α)} (hsame : SameOperators (ts ++ ts') l)
    (h : Reads (.predicate a) ts e)
    (hweight : ∀ b n, l.weight b n + b op ≤ e.weight b n) : False := by
  have hop' := isArith_of_arithLevel hop
  have hall := hsame (fun op => if isArith op then 1 else 0) (fun _ => 0)
  have he := h.textWeight_eq (b := fun op => if isArith op then 1 else 0) (n := fun _ => 0) (le_refl 5)
  have hle := hweight (fun op => if isArith op then 1 else 0) (fun _ => 0)
  rw [textWeight_append] at hall
  simp only [hop', if_true] at hle
  omega

/-- A part of the left operand has no text that reaches past the rotated operator. -/
theorem not_reads_past (hsame : SameOperators ts l) (h : Reads (.predicate a) (ts ++ .operator op :: us) e)
    (hweight : ∀ b n, e.weight b n ≤ l.weight b n) : False := by
  have hop' := isArith_of_arithLevel hop
  have hall := hsame (fun op => if isArith op then 1 else 0) (fun _ => 0)
  have he := h.textWeight_eq (b := fun op => if isArith op then 1 else 0) (n := fun _ => 0) (le_refl 5)
  have hle := hweight (fun op => if isArith op then 1 else 0) (fun _ => 0)
  rw [textWeight_append, textWeight_cons, Token.weight, if_pos hop'] at he
  omega

/-- Where the last predicate of the whole text stands. -/
theorem predicate_split {p : BinaryOperator} (hp : isBinaryPredicate p = true) {v w : List (Token α)}
    (h : ts ++ .operator op :: us = v ++ .operator p :: w) :
    (∃ us', us = us' ++ .operator p :: w ∧ v = ts ++ .operator op :: us') ∨
      ∃ ts', ts = v ++ .operator p :: ts' ∧ w = ts' ++ .operator op :: us := by
  have hne : op ≠ p := by
    rintro rfl
    exact absurd ((isBinaryPredicate_of_arithLevel hop).symm.trans hp) (by simp)
  rcases append_eq_append_iff.mp h with ⟨as, rfl, hrest⟩ | ⟨as, rfl, hrest⟩
  · cases as with
    | nil => exact absurd (Token.operator.inj (cons.inj hrest).1) hne
    | cons x as =>
      obtain ⟨rfl, rfl⟩ := cons.inj hrest
      exact Or.inl ⟨as, rfl, rfl⟩
  · cases as with
    | nil => exact absurd (Token.operator.inj (cons.inj hrest).1).symm hne
    | cons x as =>
      obtain ⟨rfl, rfl⟩ := cons.inj hrest
      exact Or.inr ⟨as, rfl, rfl⟩

lemma Reads.of_hoistLeft (hsame : SameOperators ts l) (hus : Within a.tighter us)
    (h : Reads (.predicate a) (ts ++ .operator op :: us) (Cypher.hoistLeft op l r)) :
    Reads (.predicate a) ts l ∧ Reads (.arith a.tighter) us r ∧ ∀ ts' negated, ts ≠ ts' ++ [.nullCheck negated] := by
  have hbase : ∀ {ts : List (Token α)} {l : Expression α},
      Reads (.predicate a) (ts ++ .operator op :: us) (.binaryOp op l r) →
      Reads (.predicate a) ts l ∧ Reads (.arith a.tighter) us r ∧
        ∀ ts' negated, ts ≠ ts' ++ [.nullCheck negated] := by
    intro ts l h
    obtain ⟨hl, hr⟩ := Reads.of_binaryOp hop hus h
    exact ⟨.arithmetic hl, hr, hl.ne_append_nullCheck []⟩
  induction l generalizing ts with
  | binaryOp p x y _ ih =>
    by_cases hp : isBinaryPredicate p = true
    · rw [hoistLeft_predicate op _ _ _ hp] at h
      obtain ⟨v, w, hsplit, hx, hy⟩ := h.predicate_inv hp
      rcases predicate_split hop hp hsplit with ⟨us', rfl, rfl⟩ | ⟨ts', rfl, rfl⟩
      · refine (not_reads_past hop hsame hx fun b n => ?_).elim
        rw [Expression.weight]
        omega
      · have hsame' : SameOperators ts' y := by
          intro b n
          have hall := hsame b n
          have hv := hx.textWeight_eq (b := b) (n := n) (le_refl 5)
          rw [textWeight_append, textWeight_cons, Token.weight, Expression.weight] at hall
          omega
        obtain ⟨hy', hr, -⟩ := ih hsame' (.arithmetic hy)
        -- behind the last predicate stands arithmetic only
        have hy'' := hy'.arith_of_not_predicate fun t ht heq =>
          hy.not_predicate t (mem_append_left _ ht) (le_of_eq heq.symm)
        refine ⟨.predicate hp hx hy'', hr, fun ts'' negated => ?_⟩
        rw [show v ++ .operator p :: ts' = (v ++ [.operator p]) ++ ts' by simp]
        exact hy''.ne_append_nullCheck _ ts'' negated
    · rw [hoistLeft_of_not_predicate (show isAtomicPredicateExpr (.binaryOp p x y) = false from
        Bool.eq_false_iff.mpr hp)] at h
      exact hbase h
  | unaryOp p x =>
    by_cases hp : isNullCheck p = true
    · rw [Cypher.hoistLeft, if_pos hp] at h
      obtain ⟨v, negated, hsplit, hpn, hx⟩ := h.nullCheck_inv hp
      obtain ⟨us', rfl, rfl⟩ := nullCheck_split hsplit
      -- the check was in the left operand but stands behind the right one
      obtain ⟨hl, -⟩ := Reads.of_binaryOp hop hus.of_append.1 hx
      have hall := hsame (fun _ => 0) (fun p => if isNullCheck p then 1 else 0)
      have hx' := (Reads.arithmetic hl).textWeight_eq (b := fun _ => 0)
        (n := fun p => if isNullCheck p then 1 else 0) (le_refl 5)
      rw [Expression.weight, if_pos hp] at hall
      omega
    · rw [hoistLeft_of_not_predicate (show isAtomicPredicateExpr (.unaryOp p x) = false from
        Bool.eq_false_iff.mpr hp)] at h
      exact hbase h
  | _ => exact hbase h

lemma Reads.of_hoistRight (hsame : SameOperators ts l) (hus : Within a.tighter us)
    (h : Reads (.predicate a) (ts ++ .operator op :: us) (Cypher.hoistRight op l r)) :
    Reads (.predicate a) ts l ∧ Reads (.predicate a.tighter) us r ∧ OperandsFit ts us := by
  have hbase : ∀ {us : List (Token α)} {r : Expression α}, Within a.tighter us →
      Reads (.predicate a) (ts ++ .operator op :: us) (Cypher.hoistLeft op l r) →
      Reads (.predicate a) ts l ∧ Reads (.predicate a.tighter) us r ∧ OperandsFit ts us := by
    intro us r hus h
    obtain ⟨hl, hr, hend⟩ := Reads.of_hoistLeft hop hsame hus h
    refine ⟨hl, .arithmetic hr, hend, ?_⟩
    rintro us' negated us'' rfl
    exact absurd (le_refl 5) (hr.not_predicate _ (mem_append_right _ mem_cons_self))
  induction r generalizing us with
  | binaryOp p x y ih _ =>
    by_cases hp : isBinaryPredicate p = true
    · rw [hoistRight_predicate op _ _ _ hp] at h
      obtain ⟨v, w, hsplit, hx, hy⟩ := h.predicate_inv hp
      rcases predicate_split hop hp hsplit with ⟨us', rfl, rfl⟩ | ⟨ts', rfl, rfl⟩
      · obtain ⟨hl, hx', hfit⟩ := ih hus.of_append.1 hx
        refine ⟨hl, .predicate hp hx' (hus.of_append.2.tail.tighten_arith hy), hfit.left, ?_⟩
        intro us₁ negated us₂ hus₁
        -- behind the last predicate there is no check
        rcases append_eq_append_iff.mp hus₁ with ⟨as, rfl, hrest⟩ | ⟨as, rfl, hrest⟩
        · cases as with
          | nil => cases (cons.inj hrest).1
          | cons z as =>
            obtain ⟨-, rfl⟩ := cons.inj hrest
            exact absurd (le_refl 5) (hy.not_predicate (.nullCheck negated) (by simp))
        · cases as with
          | nil => cases (cons.inj hrest).1
          | cons z as =>
            obtain ⟨rfl, -⟩ := cons.inj hrest
            exact hfit.right us₁ negated as rfl
      · refine (not_reads_of_left hop hsame hx fun b n => ?_).elim
        rw [weight_hoistRight, Expression.weight]
        omega
    · rw [hoistRight_of_not_predicate (show isAtomicPredicateExpr (.binaryOp p x y) = false from
        Bool.eq_false_iff.mpr hp)] at h
      exact hbase hus h
  | unaryOp p x =>
    by_cases hp : isNullCheck p = true
    · rw [Cypher.hoistRight, if_pos hp] at h
      obtain ⟨v, negated, hsplit, hpn, hx⟩ := h.nullCheck_inv hp
      obtain ⟨us', rfl, rfl⟩ := nullCheck_split hsplit
      obtain ⟨hl, hx'⟩ := Reads.of_binaryOp hop hus.of_append.1 hx
      rw [hpn]
      refine ⟨.arithmetic hl, .nullCheck negated (.arithmetic hx'), hl.ne_append_nullCheck [], ?_⟩
      intro us₁ negated' us₂ hus₁ t ht heq
      have hbefore : ∀ t ∈ us₁, t ∈ us' := by
        have hinit := congrArg dropLast hus₁
        rw [dropLast_concat, dropLast_append_cons] at hinit
        exact fun t ht => hinit ▸ mem_append_left _ ht
      rcases mem_append.mp ht with ht | ht
      · exact hl.not_predicate t ht heq.ge
      · exact hx'.not_predicate t (hbefore t ht) heq.ge
    · rw [hoistRight_of_not_predicate (show isAtomicPredicateExpr (.unaryOp p x) = false from
        Bool.eq_false_iff.mpr hp)] at h
      exact hbase hus h
  | _ => exact hbase hus h

/-- One fold of the builder keeps the meaning exactly when its operands do and fit. -/
theorem reads_hoistRight_iff (hsame : SameOperators ts l) (hus : Within a.tighter us) :
    Reads (.predicate a) (ts ++ .operator op :: us) (Cypher.hoistRight op l r) ↔
      Reads (.predicate a) ts l ∧ Reads (.predicate a.tighter) us r ∧ OperandsFit ts us :=
  ⟨Reads.of_hoistRight hop hsame hus, fun h => Reads.hoistRight hop h.1 h.2.1 h.2.2⟩

end Rotation

end Eugraph.Cypher
