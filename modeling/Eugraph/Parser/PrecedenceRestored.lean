import Eugraph.Parser.AtomicSuffixes

/-!
# When the built tree has the precedence of Cypher

The text of a tree of the grammar is read by the precedence of Cypher and compared with
what the builder makes of the tree.  They agree exactly when every rotation finds operands
that fit, every atomic expression has its suffixes in the order in which they are taken,
and no predicate follows an operand with a sign.
-/

namespace Eugraph.Cypher

open List Or Prod

open Optimizer (BinaryOperator UnaryOperator)

variable {α : Type}

/-! ### The text of a tree -/

mutual

def ExpressionContext.text : ExpressionContext α → List (Token α)
  | .one x => x.text
  | .more rest x => rest.text ++ .operator .OR :: x.text

def XorExpressionContext.text : XorExpressionContext α → List (Token α)
  | .one a => a.text
  | .more rest a => rest.text ++ .operator .XOR :: a.text

def AndExpressionContext.text : AndExpressionContext α → List (Token α)
  | .one n => n.text
  | .more rest n => rest.text ++ .operator .AND :: n.text

def NotExpressionContext.text : NotExpressionContext α → List (Token α)
  | .comparison c => c.text
  | .not n => .not :: n.text

def ComparisonExpressionContext.text : ComparisonExpressionContext α → List (Token α)
  | .one a => a.text
  | .more rest sign a => rest.text ++ .operator (parseCompSign sign) :: a.text

def AddSubExpressionContext.text : AddSubExpressionContext α → List (Token α)
  | .one m => m.text
  | .more rest sign m => rest.text ++ .operator sign.operator :: m.text

def MultDivExpressionContext.text : MultDivExpressionContext α → List (Token α)
  | .one p => p.text
  | .more rest sign p => rest.text ++ .operator sign.operator :: p.text

def PowerExpressionContext.text : PowerExpressionContext α → List (Token α)
  | .one u => u.text
  | .more rest u => rest.text ++ .operator .POW :: u.text

def UnaryAddSubExpressionContext.text : UnaryAddSubExpressionContext α → List (Token α)
  | .plain a => a.text
  | .sub a => .minus :: a.text

def AtomicExpressionContext.text : AtomicExpressionContext α → List (Token α)
  | .mk operand suffixes => operand.text ++ suffixes.text

def SuffixesContext.text : SuffixesContext α → List (Token α)
  | .nil => []
  | .stringExp p operand rest => .operator p.operator :: (operand.text ++ rest.text)
  | .listIn operand rest => .operator .IN :: (operand.text ++ rest.text)
  | .bracket b rest => .bracket b.text :: rest.text
  | .nullExp negated rest => .nullCheck negated :: rest.text

def BracketContext.text : BracketContext α → Bracket (List (Token α))
  | .subscript index => .subscript index.text
  | .sliceAll => .sliceAll
  | .sliceFrom lower => .sliceFrom lower.text
  | .sliceTo upper => .sliceTo upper.text
  | .slice lower upper => .slice lower.text upper.text

def PropertyOrLabelExpressionContext.text : PropertyOrLabelExpressionContext α → List (Token α)
  | .atom a => [.atom a]
  | .parenthesized inner => [.paren inner.text]

end

/-- The suffixes with their texts. -/
def SuffixesContext.suffixes : SuffixesContext α → List (Suffix (List (Token α)))
  | .nil => []
  | .stringExp p operand rest => .stringExp p operand.text :: rest.suffixes
  | .listIn operand rest => .listIn operand.text :: rest.suffixes
  | .bracket b rest => .bracket b.text :: rest.suffixes
  | .nullExp negated rest => .nullExp negated :: rest.suffixes

/-! ### The trees whose meaning is kept -/

mutual

def ExpressionContext.Kept : ExpressionContext α → Prop
  | .one x => x.Kept
  | .more rest x => rest.Kept ∧ x.Kept

def XorExpressionContext.Kept : XorExpressionContext α → Prop
  | .one a => a.Kept
  | .more rest a => rest.Kept ∧ a.Kept

def AndExpressionContext.Kept : AndExpressionContext α → Prop
  | .one n => n.Kept
  | .more rest n => rest.Kept ∧ n.Kept

def NotExpressionContext.Kept : NotExpressionContext α → Prop
  | .comparison c => c.Kept
  | .not n => n.Kept

def ComparisonExpressionContext.Kept : ComparisonExpressionContext α → Prop
  | .one a => a.Kept
  | .more rest _ a => rest.Kept ∧ a.Kept

def AddSubExpressionContext.Kept : AddSubExpressionContext α → Prop
  | .one m => m.Kept
  | .more rest _ m => rest.Kept ∧ m.Kept ∧ OperandsFit rest.text m.text

def MultDivExpressionContext.Kept : MultDivExpressionContext α → Prop
  | .one p => p.Kept
  | .more rest _ p => rest.Kept ∧ p.Kept ∧ OperandsFit rest.text p.text

def PowerExpressionContext.Kept : PowerExpressionContext α → Prop
  | .one u => u.Kept
  | .more rest u => rest.Kept ∧ u.Kept ∧ OperandsFit rest.text u.text

def UnaryAddSubExpressionContext.Kept : UnaryAddSubExpressionContext α → Prop
  | .plain (.mk operand suffixes) => operand.Kept ∧ suffixes.Kept ∧ Arranged suffixes.suffixes
  -- a sign stays inside the predicates that follow its operand
  | .sub (.mk operand suffixes) =>
    operand.Kept ∧ suffixes.Kept ∧ ∀ suffix ∈ suffixes.suffixes, suffix.IsBracket

def SuffixesContext.Kept : SuffixesContext α → Prop
  | .nil => True
  | .stringExp _ operand rest => operand.Kept ∧ rest.Kept
  | .listIn operand rest => operand.Kept ∧ rest.Kept
  | .bracket b rest => b.Kept ∧ rest.Kept
  | .nullExp _ rest => rest.Kept

def BracketContext.Kept : BracketContext α → Prop
  | .subscript index => index.Kept
  | .sliceAll => True
  | .sliceFrom lower => lower.Kept
  | .sliceTo upper => upper.Kept
  | .slice lower upper => lower.Kept ∧ upper.Kept

def PropertyOrLabelExpressionContext.Kept : PropertyOrLabelExpressionContext α → Prop
  | .atom _ => True
  | .parenthesized inner => inner.Kept

end

/-! ### Texts with what is built from them -/

def BracketContext.built : BracketContext α → Bracket (Built α)
  | .subscript index => .subscript (index.text, buildExpression index)
  | .sliceAll => .sliceAll
  | .sliceFrom lower => .sliceFrom (lower.text, buildExpression lower)
  | .sliceTo upper => .sliceTo (upper.text, buildExpression upper)
  | .slice lower upper =>
    .slice (lower.text, buildExpression lower) (upper.text, buildExpression upper)

def PropertyOrLabelExpressionContext.built (ctx : PropertyOrLabelExpressionContext α) : Built α :=
  (ctx.text, buildPropOrLabelExpr ctx)

def SuffixesContext.built : SuffixesContext α → List (Suffix (Built α))
  | .nil => []
  | .stringExp p operand rest => .stringExp p operand.built :: rest.built
  | .listIn operand rest => .listIn operand.built :: rest.built
  | .bracket b rest => .bracket b.built :: rest.built
  | .nullExp negated rest => .nullExp negated :: rest.built

lemma BracketContext.map_fst_built (ctx : BracketContext α) : ctx.built.map fst = ctx.text := by
  cases ctx
  all_goals rfl

lemma BracketContext.map_snd_built (ctx : BracketContext α) : ctx.built.map snd = buildBracket ctx := by
  cases ctx
  all_goals rfl

lemma PropertyOrLabelExpressionContext.isOperandText (ctx : PropertyOrLabelExpressionContext α) :
    IsOperandText ctx.text := by
  cases ctx with
  | atom a => exact inl ⟨a, rfl⟩
  | parenthesized inner => exact inr ⟨inner.text, rfl⟩

lemma SuffixesContext.suffixText_built (ctx : SuffixesContext α) : suffixText ctx.built = ctx.text := by
  cases ctx with
  | nil => rfl
  | stringExp p operand rest =>
    show .operator p.operator :: operand.text ++ suffixText rest.built = _
    rw [rest.suffixText_built]
    rfl
  | listIn operand rest =>
    show .operator .IN :: operand.text ++ suffixText rest.built = _
    rw [rest.suffixText_built]
    rfl
  | bracket b rest =>
    show .bracket (b.built.map fst) :: suffixText rest.built = _
    rw [rest.suffixText_built, b.map_fst_built]
    rfl
  | nullExp negated rest =>
    show .nullCheck negated :: suffixText rest.built = _
    rw [rest.suffixText_built]
    rfl

lemma SuffixesContext.suffixExprs_built (ctx : SuffixesContext α) : suffixExprs ctx.built = buildSuffixes ctx := by
  cases ctx with
  | nil => rfl
  | stringExp p operand rest =>
    show .stringExp p operand.built.2 :: suffixExprs rest.built = _
    rw [rest.suffixExprs_built]
    rfl
  | listIn operand rest =>
    show .listIn operand.built.2 :: suffixExprs rest.built = _
    rw [rest.suffixExprs_built]
    rfl
  | bracket b rest =>
    show .bracket (b.built.map snd) :: suffixExprs rest.built = _
    rw [rest.suffixExprs_built, b.map_snd_built]
    rfl
  | nullExp negated rest =>
    show .nullExp negated :: suffixExprs rest.built = _
    rw [rest.suffixExprs_built]
    rfl

lemma SuffixesContext.map_built (ctx : SuffixesContext α) : ctx.built.map (Suffix.map fst) = ctx.suffixes := by
  cases ctx with
  | nil => rfl
  | stringExp p operand rest => exact congrArg _ rest.map_built
  | listIn operand rest => exact congrArg _ rest.map_built
  | bracket b rest =>
    show .bracket (b.built.map fst) :: rest.built.map (Suffix.map fst) = _
    rw [rest.map_built, b.map_fst_built]
    rfl
  | nullExp negated rest => exact congrArg _ rest.map_built

lemma SuffixesContext.hasOperandText (ctx : SuffixesContext α) : ∀ suffix ∈ ctx.built, suffix.HasOperandText := by
  cases ctx with
  | nil => simp [SuffixesContext.built]
  | stringExp p operand rest =>
    exact forall_mem_cons.mpr ⟨operand.isOperandText, rest.hasOperandText⟩
  | listIn operand rest =>
    exact forall_mem_cons.mpr ⟨operand.isOperandText, rest.hasOperandText⟩
  | bracket b rest => exact forall_mem_cons.mpr ⟨trivial, rest.hasOperandText⟩
  | nullExp negated rest => exact forall_mem_cons.mpr ⟨trivial, rest.hasOperandText⟩

lemma arranged_map_iff {ε δ : Type} (f : ε → δ) (suffixes : List (Suffix ε)) :
    Arranged (suffixes.map (Suffix.map f)) ↔ Arranged suffixes := by
  induction suffixes using reverseRecOn with
  | nil => exact iff_of_true arranged_nil arranged_nil
  | append_singleton suffixes suffix ih =>
    rw [map_append, map_singleton]
    cases suffix with
    | stringExp p operand =>
      rw [Suffix.map, arranged_stringExp_iff, arranged_stringExp_iff, ih, ofKind_map, ofKind_map,
        map_eq_nil_iff, map_eq_nil_iff]
    | listIn operand =>
      rw [Suffix.map, arranged_listIn_iff, arranged_listIn_iff, ih, ofKind_map, map_eq_nil_iff]
    | bracket b =>
      rw [Suffix.map, arranged_bracket_iff, arranged_bracket_iff, ih, ofKind_map, ofKind_map,
        ofKind_map, map_eq_nil_iff, map_eq_nil_iff, ne_eq, map_eq_nil_iff]
    | nullExp negated => rw [Suffix.map, arranged_nullExp_iff, arranged_nullExp_iff, ih]

lemma isBracket_map_iff {ε δ : Type} (f : ε → δ) (suffixes : List (Suffix ε)) :
    (∀ suffix ∈ suffixes.map (Suffix.map f), suffix.IsBracket) ↔ ∀ suffix ∈ suffixes, suffix.IsBracket := by
  rw [forall_mem_map]
  refine forall₂_congr fun suffix _ => ?_
  cases suffix
  all_goals rfl

/-! ### Arithmetic -/

/-- What a rotation needs of an operand, whether it has been read right or not. -/
structure AtLevel (a : ArithLevel) (ts : List (Token α)) (e : Expression α) : Prop where
  within : Within a ts
  same : SameOperators ts e

variable {a : ArithLevel} {ts : List (Token α)} {e : Expression α}

lemma AtLevel.loosen (h : AtLevel a.tighter ts e) : AtLevel a ts e :=
  ⟨fun t ht => (h.within t ht).imp_left fun hle => hle.trans (rank_tighter_le a), h.same⟩

variable {us : List (Token α)} {l : Expression α} {r : Expression α} {op : BinaryOperator}

lemma AtLevel.hoistRight
    (hop : arithLevel op = some a) (hl : AtLevel a ts l)
    (hr : AtLevel a.tighter us r) : AtLevel a (ts ++ .operator op :: us) (hoistRight op l r) := by
  refine ⟨fun t ht => ?_, fun b n => ?_⟩
  · rcases mem_append.mp ht with ht | ht
    · exact hl.within t ht
    · rcases mem_cons.mp ht with rfl | ht
      · exact inl (le_of_eq (operatorRank_of_arithLevel hop))
      · exact hr.loosen.within t ht
  · rw [textWeight_append, textWeight_cons, hl.same, hr.same, weight_hoistRight]
    rfl

lemma AtLevel.reads_iff (h : AtLevel a.tighter ts e) :
    Reads (.predicate a) ts e ↔ Reads (.predicate a.tighter) ts e :=
  ⟨h.within.tighten, fun hreads => hreads.loosen_predicate (rank_tighter_le a)⟩

lemma rank_atomic (operand : PropertyOrLabelExpressionContext α) (suffixes : SuffixesContext α) :
    ∀ t ∈ operand.text ++ suffixes.text, t.rank = 0 ∨ t.rank = 5 := by
  intro t ht
  rw [← suffixes.suffixText_built] at ht
  rcases mem_append.mp ht with ht | ht
  · exact inl (operand.isOperandText.rank_eq_zero t ht)
  · exact rank_suffixText suffixes.hasOperandText t ht

section Weight

variable {b : BinaryOperator → Nat} {n : UnaryOperator → Nat}

def Suffix.weight (b : BinaryOperator → Nat) (n : UnaryOperator → Nat) : Suffix (Expression α) → Nat
  | .stringExp p operand => b p.operator + operand.weight b n
  | .listIn operand => b .IN + operand.weight b n
  | .bracket _ => 0
  | .nullExp negated => n (nullOperator negated)

def suffixesWeight (b : BinaryOperator → Nat) (n : UnaryOperator → Nat)
    (suffixes : List (Suffix (Expression α))) : Nat :=
  (suffixes.map (Suffix.weight b n)).sum

lemma suffixesWeight_kinds (suffixes : List (Suffix (Expression α))) :
    suffixesWeight b n (ofKind .string suffixes) + suffixesWeight b n (ofKind .list suffixes) +
      suffixesWeight b n (ofKind .null suffixes) = suffixesWeight b n suffixes := by
  induction suffixes with
  | nil => rfl
  | cons suffix rest ih =>
    cases suffix
    all_goals simp [ofKind, Suffix.kind, suffixesWeight] at ih ⊢
    all_goals omega

/-- A loop adds up the weights if each of its steps adds one. -/
theorem weight_foldl {σ : Type} {w : σ → Nat} {f : σ → Suffix (Expression α) → σ}
    {suffixes : List (Suffix (Expression α))}
    (hstep : ∀ s, ∀ suffix ∈ suffixes, w (f s suffix) = w s + suffix.weight b n) (s : σ) :
    w (suffixes.foldl f s) = w s + suffixesWeight b n suffixes := by
  induction suffixes generalizing s with
  | nil => rfl
  | cons suffix rest ih =>
    rw [foldl_cons, ih fun s t ht => hstep s t (mem_cons_of_mem _ ht), hstep s suffix mem_cons_self]
    simp only [suffixesWeight, map_cons, sum_cons]
    omega

lemma weight_applyString (r : Expression α) {suffix : Suffix (Expression α)} (hkind : suffix.kind = .string) :
    (applyString r suffix).weight b n = r.weight b n + suffix.weight b n := by
  cases suffix with
  | stringExp p operand => simp only [applyString, Expression.weight, Suffix.weight]
  | _ => cases hkind

lemma weight_applyNull (r : Expression α) {suffix : Suffix (Expression α)} (hkind : suffix.kind = .null) :
    (applyNull r suffix).weight b n = r.weight b n + suffix.weight b n := by
  cases suffix with
  | nullExp negated => simp only [applyNull, Expression.weight, Suffix.weight]
  | _ => cases hkind

lemma weight_step (s : ListLoop α) (suffix : Suffix (Expression α)) (hkind : suffix.kind = .list) :
    (s.step suffix).close.weight b n = s.close.weight b n + suffix.weight b n := by
  cases suffix with
  | listIn operand => rfl
  | bracket bracket =>
    cases hright : s.right with
    | none => simp [ListLoop.step, ListLoop.close, hright, weight_applyListPostfix, Suffix.weight]
    | some right =>
      simp [ListLoop.step, ListLoop.close, hright, Expression.weight, weight_applyListPostfix, Suffix.weight]
  | _ => cases hkind

/-- Whatever its order, every suffix is taken once. -/
theorem weight_assembleAtomic (operand : Expression α) (suffixes : List (Suffix (Expression α))) :
    (assembleAtomic operand suffixes).weight b n = operand.weight b n + suffixesWeight b n suffixes := by
  have hlists (r : Expression α) : (applyLists r (ofKind .list suffixes)).weight b n =
      r.weight b n + suffixesWeight b n (ofKind .list suffixes) :=
    weight_foldl (w := fun s : ListLoop α => s.close.weight b n)
      (fun s t ht => weight_step s t (kind_of_mem_ofKind ht)) _
  rw [assembleAtomic, weight_foldl fun r t ht => weight_applyNull r (kind_of_mem_ofKind ht), hlists,
    weight_foldl fun r t ht => weight_applyString r (kind_of_mem_ofKind ht), ← suffixesWeight_kinds suffixes]
  omega

lemma weight_operand (ctx : PropertyOrLabelExpressionContext α) : (buildPropOrLabelExpr ctx).weight b n = 0 := by
  cases ctx
  all_goals rfl

lemma textWeight_operand (ctx : PropertyOrLabelExpressionContext α) : textWeight b n ctx.text = 0 := by
  cases ctx
  all_goals rfl

lemma textWeight_suffixes (ctx : SuffixesContext α) :
    textWeight b n ctx.text = suffixesWeight b n (buildSuffixes ctx) := by
  cases ctx with
  | nil => rfl
  | stringExp p operand rest =>
    show b p.operator + textWeight b n (operand.text ++ rest.text) =
      b p.operator + (buildPropOrLabelExpr operand).weight b n + suffixesWeight b n _
    rw [textWeight_append, textWeight_operand, weight_operand, textWeight_suffixes rest]
    omega
  | listIn operand rest =>
    show b .IN + textWeight b n (operand.text ++ rest.text) =
      b .IN + (buildPropOrLabelExpr operand).weight b n + suffixesWeight b n _
    rw [textWeight_append, textWeight_operand, weight_operand, textWeight_suffixes rest]
    omega
  | bracket bracket rest => exact congrArg (0 + ·) (textWeight_suffixes rest)
  | nullExp negated rest => exact congrArg (n (nullOperator negated) + ·) (textWeight_suffixes rest)

end Weight

lemma atLevel_unary (ctx : UnaryAddSubExpressionContext α) : AtLevel .unary ctx.text (buildUnaryExpr ctx) := by
  have hatomic : ∀ (operand : PropertyOrLabelExpressionContext α) (suffixes : SuffixesContext α),
      SameOperators (operand.text ++ suffixes.text)
        (assembleAtomic (buildPropOrLabelExpr operand) (buildSuffixes suffixes)) := by
    intro operand suffixes b n
    rw [textWeight_append, weight_assembleAtomic, textWeight_operand, weight_operand, textWeight_suffixes]
  cases ctx with
  | plain a =>
    cases a with
    | mk operand suffixes =>
      refine ⟨fun t ht => ?_, hatomic operand suffixes⟩
      exact (rank_atomic operand suffixes t ht).imp_left fun h => h.trans_le (Nat.zero_le 1)
  | sub a =>
    cases a with
    | mk operand suffixes =>
      refine ⟨fun t ht => ?_, fun b n => ?_⟩
      · rcases mem_cons.mp ht with rfl | ht
        · exact inl (le_refl 1)
        · exact (rank_atomic operand suffixes t ht).imp_left fun h => h.trans_le (Nat.zero_le 1)
      · show n .NEGATE + textWeight b n (operand.text ++ suffixes.text) =
          (assembleAtomic (buildPropOrLabelExpr operand) (buildSuffixes suffixes)).weight b n + n .NEGATE
        rw [hatomic operand suffixes]
        omega

lemma atLevel_power : ∀ ctx : PowerExpressionContext α, AtLevel .power ctx.text (buildPowerExpr ctx)
  | .one u => by
      rw [buildPowerExpr_one]
      exact (atLevel_unary u).loosen (a := .power)
  | .more rest u => by
      rw [buildPowerExpr_more]
      exact (atLevel_power rest).hoistRight rfl (atLevel_unary u)

lemma arithLevel_multDiv (sign : MultDivSign) : arithLevel sign.operator = some .multDiv := by
  cases sign
  all_goals rfl

lemma arithLevel_addSub (sign : AddSubSign) : arithLevel sign.operator = some .addSub := by
  cases sign
  all_goals rfl

lemma atLevel_multDiv : ∀ ctx : MultDivExpressionContext α, AtLevel .multDiv ctx.text (buildMulDivExpr ctx)
  | .one p => by
      rw [buildMulDivExpr_one]
      exact (atLevel_power p).loosen (a := .multDiv)
  | .more rest sign p => by
      rw [buildMulDivExpr_more]
      exact (atLevel_multDiv rest).hoistRight (arithLevel_multDiv sign) (atLevel_power p)

lemma atLevel_addSub : ∀ ctx : AddSubExpressionContext α, AtLevel .addSub ctx.text (buildAddSubExpr ctx)
  | .one m => by
      rw [buildAddSubExpr_one]
      exact (atLevel_multDiv m).loosen (a := .addSub)
  | .more rest sign m => by
      rw [buildAddSubExpr_more]
      exact (atLevel_addSub rest).hoistRight (arithLevel_addSub sign) (atLevel_multDiv m)

/-! ### Comparisons and logic -/

lemma isComparison_parseCompSign (sign : ComparisonSigns) : isComparison (parseCompSign sign) = true := by
  cases sign
  all_goals rfl

lemma rank_comparison : ∀ ctx : ComparisonExpressionContext α, ∀ t ∈ ctx.text, t.rank ≤ 6
  | .one a => by
      intro t ht
      have haddSub : t.rank ≤ 4 ∨ t.rank = 5 := (atLevel_addSub a).within t ht
      omega
  | .more rest sign a => by
      intro t ht
      rcases mem_append.mp ht with ht | ht
      · exact rank_comparison rest t ht
      · rcases mem_cons.mp ht with rfl | ht
        · exact le_of_eq (operatorRank_of_comparison (isComparison_parseCompSign sign))
        · have haddSub : t.rank ≤ 4 ∨ t.rank = 5 := (atLevel_addSub a).within t ht
          omega

lemma rank_not (ctx : NotExpressionContext α) : ∀ t ∈ ctx.text, t.rank ≤ 7 := by
  cases ctx with
  | comparison c => exact fun t ht => (rank_comparison c t ht).trans (show (6 : Nat) ≤ 7 by omega)
  | not n =>
    intro t ht
    rcases mem_cons.mp ht with rfl | ht
    · exact le_refl 7
    · exact rank_not n t ht

lemma rank_and (ctx : AndExpressionContext α) : ∀ t ∈ ctx.text, t.rank ≤ 8 := by
  cases ctx with
  | one n => exact fun t ht => (rank_not n t ht).trans (show (7 : Nat) ≤ 8 by omega)
  | more rest n =>
    intro t ht
    rcases mem_append.mp ht with ht | ht
    · exact rank_and rest t ht
    · rcases mem_cons.mp ht with rfl | ht
      · exact le_refl 8
      · exact (rank_not n t ht).trans (show (7 : Nat) ≤ 8 by omega)

lemma rank_xor (ctx : XorExpressionContext α) : ∀ t ∈ ctx.text, t.rank ≤ 9 := by
  cases ctx with
  | one a => exact fun t ht => (rank_and a t ht).trans (show (8 : Nat) ≤ 9 by omega)
  | more rest a =>
    intro t ht
    rcases mem_append.mp ht with ht | ht
    · exact rank_xor rest t ht
    · rcases mem_cons.mp ht with rfl | ht
      · exact le_refl 9
      · exact (rank_and a t ht).trans (show (8 : Nat) ≤ 9 by omega)

variable {k : LogicLevel}

/-- A text without the level's operator is read on the level below. -/
theorem reads_noLogic_iff (hts : ∀ t ∈ ts, t.rank < k.rank) : Reads (.logic k) ts e ↔ Reads k.operand ts e := by
  constructor
  · intro h
    cases h with
    | noLogic hinner => exact hinner
    | logic _ _ =>
      have hlt := hts _ (mem_append_right _ mem_cons_self)
      exact absurd (operatorRank_operator k) (Nat.ne_of_lt hlt)
  · exact .noLogic

lemma Reads.logic_inv
    (h : Reads (.logic k) ts (.binaryOp k.operator l r)) (hts : ∃ t ∈ ts, t.rank = k.rank) :
    ∃ t u, ts = t ++ .operator k.operator :: u ∧ Reads (.logic k) t l ∧ Reads k.operand u r := by
  generalize he : Expression.binaryOp k.operator l r = e at h
  cases h with
  | noLogic hinner =>
    obtain ⟨t, ht, hrank⟩ := hts
    exact absurd hrank.ge (hinner.not_logic t ht)
  | logic hl hr =>
    cases he
    exact ⟨_, _, rfl, hl, hr⟩

lemma reads_logic_iff (hus : ∀ t ∈ us, t.rank < k.rank) :
    Reads (.logic k) (ts ++ .operator k.operator :: us) (.binaryOp k.operator l r) ↔
      Reads (.logic k) ts l ∧ Reads k.operand us r := by
  constructor
  · intro h
    have hrank := operatorRank_operator k
    obtain ⟨t, u, hsplit, hl, hr⟩ := h.logic_inv ⟨_, mem_append_right _ mem_cons_self, hrank⟩
    obtain ⟨rfl, -, rfl⟩ := split_unique (p := fun t => k.rank ≤ t.rank) hsplit
      (le_of_eq hrank.symm) (le_of_eq hrank.symm) (fun t ht => not_le_of_gt (hus t ht)) hr.not_logic
    exact ⟨hl, hr⟩
  · exact fun h => .logic h.1 h.2

lemma reads_noNot_iff (hts : ∀ t ∈ ts, t.rank ≤ 6) : Reads .not ts e ↔ Reads .comparison ts e := by
  constructor
  · intro h
    cases h with
    | noNot hinner => exact hinner
    | not _ => exact absurd (hts .not mem_cons_self) (show ¬ (7 : Nat) ≤ 6 by omega)
  · exact .noNot

lemma reads_not_iff : Reads .not (.not :: ts) (.unaryOp .NOT e) ↔ Reads .not ts e := by
  constructor
  · intro h
    generalize he : Expression.unaryOp UnaryOperator.NOT e = x at h
    generalize hts : Token.not :: ts = us at h
    cases h with
    | noNot hinner =>
      exact (hinner.not_operator (show [] ++ Token.not :: _ = _ from hts) (show (6 : Nat) < 7 by omega)).elim
    | not hinner =>
      cases he
      rwa [(cons.inj hts).2]
  · exact .not

/-- The level on which a comparison expression of the grammar is read. -/
def comparisonLevel : ComparisonExpressionContext α → Level α
  | .one _ => .predicate .addSub
  | .more rest sign a => .chain (buildComparisonExpr (.more rest sign a)).2

lemma reads_firstComparison_iff
    (hop : isComparison op = true) (hus : ∀ t ∈ us, ¬ 6 ≤ t.rank) :
    Reads (.chain r) (ts ++ .operator op :: us) (.binaryOp op l r) ↔
      Reads (.predicate .addSub) ts l ∧ Reads (.predicate .addSub) us r := by
  constructor
  · intro h
    have hrank := operatorRank_of_comparison hop
    generalize he : Expression.binaryOp op l r = e at h
    generalize hvs : ts ++ .operator op :: us = vs at h
    cases h with
    | firstComparison _ hl hr =>
      cases he
      obtain ⟨rfl, -, rfl⟩ := split_unique (p := fun t => 6 ≤ t.rank) hvs
        (le_of_eq hrank.symm) (le_of_eq hrank.symm) hus hr.not_comparison
      exact ⟨hl, hr⟩
    | nextComparison _ _ _ =>
      cases he
  · exact fun h => .firstComparison hop h.1 h.2

variable {last : Expression α}

lemma reads_nextComparison_iff
    (hop : isComparison op = true) (hus : ∀ t ∈ us, ¬ 6 ≤ t.rank) :
    Reads (.chain r) (ts ++ .operator op :: us) (.binaryOp .AND e (.binaryOp op last r)) ↔
      Reads (.chain last) ts e ∧ Reads (.predicate .addSub) us r := by
  constructor
  · intro h
    have hrank := operatorRank_of_comparison hop
    generalize he : Expression.binaryOp .AND e (.binaryOp op last r) = x at h
    generalize hvs : ts ++ .operator op :: us = vs at h
    cases h with
    | firstComparison hop' _ _ =>
      cases he
    | nextComparison _ hchain hr =>
      cases he
      obtain ⟨rfl, -, rfl⟩ := split_unique (p := fun t => 6 ≤ t.rank) hvs
        (le_of_eq hrank.symm) (le_of_eq hrank.symm) hus hr.not_comparison
      exact ⟨hchain, hr⟩
  · exact fun h => .nextComparison hop h.1 h.2

/-- The last operand of a chain stands in the expression. -/
theorem Reads.chain_eq (h : Reads (.chain last) ts e) : ∃ op l, isComparison op = true ∧
      (e = .binaryOp op l last ∨ ∃ first, e = .binaryOp .AND first (.binaryOp op l last)) := by
  cases h with
  | firstComparison hop _ _ => exact ⟨_, _, hop, inl rfl⟩
  | nextComparison hop _ _ => exact ⟨_, _, hop, inr ⟨_, rfl⟩⟩

lemma Reads.chain_unique {last' : Expression α} (h : Reads (.chain last) ts e)
    (h' : ∃ op l, isComparison op = true ∧
      (e = .binaryOp op l last' ∨ ∃ first, e = .binaryOp .AND first (.binaryOp op l last'))) :
    last = last' := by
  obtain ⟨op, l, hop, he⟩ := h.chain_eq
  obtain ⟨op', l', hop', he'⟩ := h'
  rcases he with rfl | ⟨first, rfl⟩
  · rcases he' with he' | ⟨first', he'⟩
    · cases he'
      rfl
    · cases he'
      cases hop
  · rcases he' with he' | ⟨first', he'⟩
    · cases he'
      cases hop'
    · cases he'
      rfl

lemma buildComparisonExpr_more (rest : ComparisonExpressionContext α) (sign : ComparisonSigns)
    (a : AddSubExpressionContext α) :
    ∃ op l, isComparison op = true ∧
      ((buildComparisonExpr (.more rest sign a)).1 = .binaryOp op l (buildAddSubExpr a) ∨
        ∃ first, (buildComparisonExpr (.more rest sign a)).1 =
          .binaryOp .AND first (.binaryOp op l (buildAddSubExpr a))) := by
  refine ⟨parseCompSign sign, (buildComparisonExpr rest).2, isComparison_parseCompSign sign, ?_⟩
  cases rest with
  | one first => exact inl rfl
  | more rest sign' a' => exact inr ⟨_, rfl⟩

/-- Which level a comparison expression is read on is seen in its text. -/
theorem reads_comparison_iff (ctx : ComparisonExpressionContext α) :
    Reads .comparison ctx.text (buildComparisonExpr ctx).1 ↔
      Reads (comparisonLevel ctx) ctx.text (buildComparisonExpr ctx).1 := by
  cases ctx with
  | one a =>
    constructor
    · intro h
      cases h with
      | noComparison hinner => exact hinner
      | comparison hchain =>
        obtain ⟨t, ht, hrank⟩ := hchain.exists_comparison
        have haddSub : t.rank ≤ 4 ∨ t.rank = 5 := (atLevel_addSub a).within t ht
        omega
    · exact .noComparison
  | more rest sign a =>
    constructor
    · intro h
      have hmem : .operator (parseCompSign sign) ∈ (ComparisonExpressionContext.more rest sign a).text :=
        mem_append_right _ mem_cons_self
      have hrank := operatorRank_of_comparison (isComparison_parseCompSign sign)
      cases h with
      | noComparison hinner => exact absurd hrank.ge (hinner.not_comparison _ hmem)
      | comparison hchain =>
        obtain rfl := hchain.chain_unique (buildComparisonExpr_more rest sign a)
        exact hchain
    · exact .comparison

/-! ### The whole tree -/

lemma reads_paren_iff : Reads .postfixed [.paren ts] (.paren e) ↔ Reads (.logic .or) ts e := by
  constructor
  · intro h
    generalize hts : [Token.paren ts] = us at h
    generalize he : Expression.paren e = x at h
    cases h with
    | atom a => cases he
    | paren hinner =>
      cases he
      cases hts
      exact hinner
    | bracket b _ _ =>
      generalize b.map snd = b' at he
      cases b'
      all_goals cases he
  · exact .paren

lemma reads_unary_iff (operand : PropertyOrLabelExpressionContext α) (suffixes : SuffixesContext α)
    (hoperand : Reads .postfixed operand.text (buildPropOrLabelExpr operand) ↔ operand.Kept)
    (hsuffixes : (∀ suffix ∈ suffixes.built, suffix.Kept) ↔ suffixes.Kept) :
    (Reads (.predicate .unary) (operand.text ++ suffixes.text) (buildUnaryExpr (.plain (.mk operand suffixes))) ↔
      (UnaryAddSubExpressionContext.plain (.mk operand suffixes)).Kept) ∧
    (Reads (.predicate .unary) (.minus :: (operand.text ++ suffixes.text))
        (buildUnaryExpr (.sub (.mk operand suffixes))) ↔
      (UnaryAddSubExpressionContext.sub (.mk operand suffixes)).Kept) := by
  have htext : IsOperandText operand.built.1 := operand.isOperandText
  have hplain := reads_assembleAtomic_iff htext suffixes.built suffixes.hasOperandText
  have hnegate := reads_negate_iff htext suffixes.built suffixes.hasOperandText
  have harranged := arranged_map_iff fst suffixes.built
  have hbrackets := isBracket_map_iff fst suffixes.built
  rw [suffixes.map_built] at harranged hbrackets
  rw [suffixes.suffixText_built, suffixes.suffixExprs_built, hsuffixes] at hplain hnegate
  rw [show operand.built = (operand.text, buildPropOrLabelExpr operand) from rfl, hoperand] at hplain hnegate
  rw [← harranged] at hplain
  rw [← hbrackets] at hnegate
  exact ⟨hplain, hnegate⟩

mutual

theorem reads_expression_iff : ∀ ctx : ExpressionContext α,
    Reads (.logic .or) ctx.text (buildExpression ctx) ↔ ctx.Kept
  | .one x => (reads_noLogic_iff (k := .or) fun t ht => Nat.lt_succ_of_le (rank_xor x t ht)).trans
      (reads_xor_iff x)
  | .more rest x => (reads_logic_iff (k := .or) fun t ht => Nat.lt_succ_of_le (rank_xor x t ht)).trans
      (and_congr (reads_expression_iff rest) (reads_xor_iff x))

theorem reads_xor_iff : ∀ ctx : XorExpressionContext α, Reads (.logic .xor) ctx.text (buildXorExpr ctx) ↔ ctx.Kept
  | .one a => (reads_noLogic_iff (k := .xor) fun t ht => Nat.lt_succ_of_le (rank_and a t ht)).trans
      (reads_and_iff a)
  | .more rest a => (reads_logic_iff (k := .xor) fun t ht => Nat.lt_succ_of_le (rank_and a t ht)).trans
      (and_congr (reads_xor_iff rest) (reads_and_iff a))

theorem reads_and_iff : ∀ ctx : AndExpressionContext α, Reads (.logic .and) ctx.text (buildAndExpr ctx) ↔ ctx.Kept
  | .one n => (reads_noLogic_iff (k := .and) fun t ht => Nat.lt_succ_of_le (rank_not n t ht)).trans
      (reads_notExpression_iff n)
  | .more rest n => (reads_logic_iff (k := .and) fun t ht => Nat.lt_succ_of_le (rank_not n t ht)).trans
      (and_congr (reads_and_iff rest) (reads_notExpression_iff n))

theorem reads_notExpression_iff : ∀ ctx : NotExpressionContext α, Reads .not ctx.text (buildNotExpr ctx) ↔ ctx.Kept
  | .comparison c => (reads_noNot_iff (rank_comparison c)).trans
      ((reads_comparison_iff c).trans (reads_comparisonLevel_iff c))
  | .not n => reads_not_iff.trans (reads_notExpression_iff n)

theorem reads_comparisonLevel_iff : ∀ ctx : ComparisonExpressionContext α,
    Reads (comparisonLevel ctx) ctx.text (buildComparisonExpr ctx).1 ↔ ctx.Kept
  | .one a => reads_addSub_iff a
  | .more (.one first) sign a =>
    (reads_firstComparison_iff (isComparison_parseCompSign sign) fun t ht hrank => by
      have haddSub : t.rank ≤ 4 ∨ t.rank = 5 := (atLevel_addSub a).within t ht
      omega).trans
      (and_congr (reads_addSub_iff first) (reads_addSub_iff a))
  | .more (.more rest sign' a') sign a =>
    (reads_nextComparison_iff (isComparison_parseCompSign sign) fun t ht hrank => by
      have haddSub : t.rank ≤ 4 ∨ t.rank = 5 := (atLevel_addSub a).within t ht
      omega).trans
      (and_congr (reads_comparisonLevel_iff (.more rest sign' a')) (reads_addSub_iff a))

theorem reads_addSub_iff : ∀ ctx : AddSubExpressionContext α,
    Reads (.predicate .addSub) ctx.text (buildAddSubExpr ctx) ↔ ctx.Kept
  | .one m => by
      rw [buildAddSubExpr_one]
      exact ((atLevel_multDiv m).reads_iff (a := .addSub)).trans (reads_multDiv_iff m)
  | .more rest sign m => by
      rw [buildAddSubExpr_more]
      exact (reads_hoistRight_iff (arithLevel_addSub sign) (atLevel_addSub rest).same
        (atLevel_multDiv m).within).trans
        (and_congr (reads_addSub_iff rest) (and_congr_left' (reads_multDiv_iff m)))

theorem reads_multDiv_iff : ∀ ctx : MultDivExpressionContext α,
    Reads (.predicate .multDiv) ctx.text (buildMulDivExpr ctx) ↔ ctx.Kept
  | .one p => by
      rw [buildMulDivExpr_one]
      exact ((atLevel_power p).reads_iff (a := .multDiv)).trans (reads_power_iff p)
  | .more rest sign p => by
      rw [buildMulDivExpr_more]
      exact (reads_hoistRight_iff (arithLevel_multDiv sign) (atLevel_multDiv rest).same
        (atLevel_power p).within).trans
        (and_congr (reads_multDiv_iff rest) (and_congr_left' (reads_power_iff p)))

theorem reads_power_iff : ∀ ctx : PowerExpressionContext α,
    Reads (.predicate .power) ctx.text (buildPowerExpr ctx) ↔ ctx.Kept
  | .one u => by
      rw [buildPowerExpr_one]
      exact ((atLevel_unary u).reads_iff (a := .power)).trans (reads_unaryAddSub_iff u)
  | .more rest u => by
      rw [buildPowerExpr_more]
      exact (reads_hoistRight_iff (show arithLevel .POW = some .power from rfl) (atLevel_power rest).same
        (atLevel_unary u).within).trans
        (and_congr (reads_power_iff rest) (and_congr_left' (reads_unaryAddSub_iff u)))

theorem reads_unaryAddSub_iff : ∀ ctx : UnaryAddSubExpressionContext α,
    Reads (.predicate .unary) ctx.text (buildUnaryExpr ctx) ↔ ctx.Kept
  | .plain (.mk operand suffixes) =>
    (reads_unary_iff operand suffixes (reads_operand_iff operand) (kept_suffixes_iff suffixes)).1
  | .sub (.mk operand suffixes) =>
    (reads_unary_iff operand suffixes (reads_operand_iff operand) (kept_suffixes_iff suffixes)).2

theorem kept_suffixes_iff : ∀ ctx : SuffixesContext α, (∀ suffix ∈ ctx.built, suffix.Kept) ↔ ctx.Kept
  | .nil => by simp [SuffixesContext.built, SuffixesContext.Kept]
  | .stringExp p operand rest => forall_mem_cons.trans
      (and_congr (reads_operand_iff operand) (kept_suffixes_iff rest))
  | .listIn operand rest => forall_mem_cons.trans
      (and_congr (reads_operand_iff operand) (kept_suffixes_iff rest))
  | .bracket b rest => forall_mem_cons.trans
      (and_congr (kept_bracket_iff b) (kept_suffixes_iff rest))
  | .nullExp negated rest => forall_mem_cons.trans
      ((and_iff_right trivial).trans (kept_suffixes_iff rest))

theorem kept_bracket_iff : ∀ ctx : BracketContext α,
    (∀ part ∈ ctx.built.parts, Reads (.logic .or) part.1 part.2) ↔ ctx.Kept
  | .subscript index => forall_mem_singleton.trans (reads_expression_iff index)
  | .sliceAll => by simp [BracketContext.built, Bracket.parts, BracketContext.Kept]
  | .sliceFrom lower => forall_mem_singleton.trans (reads_expression_iff lower)
  | .sliceTo upper => forall_mem_singleton.trans (reads_expression_iff upper)
  | .slice lower upper => forall_mem_cons.trans
      (and_congr (reads_expression_iff lower) (forall_mem_singleton.trans (reads_expression_iff upper)))

theorem reads_operand_iff : ∀ ctx : PropertyOrLabelExpressionContext α,
    Reads .postfixed ctx.text (buildPropOrLabelExpr ctx) ↔ ctx.Kept
  | .atom a => iff_of_true (.atom a) trivial
  | .parenthesized inner => reads_paren_iff.trans (reads_expression_iff inner)

end

/-- The hoisting ends, and what the builder makes of a tree is what its text means exactly
for the trees that are kept. -/
theorem buildExpression_eq_iff : (∀ (e : Expression α) (depth : Nat), e.size ≤ depth →
      hoistWithin depth e = some (hoistAtomicPredicates e)) ∧
    ∀ (ctx : ExpressionContext α) (e : Expression α), Reads (.logic .or) ctx.text e →
      (buildExpression ctx = e ↔ ctx.Kept) := by
  refine ⟨fun e depth => hoistWithin_terminates, fun ctx e h => ?_⟩
  rw [← reads_expression_iff]
  constructor
  · rintro rfl
    exact h
  · exact fun hbuilt => h.unique hbuilt

/-! ### Two texts -/

/-- A whole expression without comparisons or logic. -/
def AddSubExpressionContext.expression (ctx : AddSubExpressionContext α) : ExpressionContext α :=
  .one (.one (.one (.comparison (.one ctx))))

lemma Reads.expression (h : Reads (.predicate .addSub) ts e) : Reads (.logic .or) ts e :=
  .noLogic (k := .or) (.noLogic (k := .xor) (.noLogic (k := .and) (.noNot (.noComparison h))))

lemma reads_operandAtom (a : ArithLevel) (x : α) : Reads (.arith a) [.atom x] (.atom x) :=
  (Reads.unsigned (.atom x)).loosen (one_le_rank a)

/-- `0 + 1 IN 2` -/
def sumMembership : ExpressionContext Nat :=
  (AddSubExpressionContext.more (.one (.one (.one (.plain (.mk (.atom 0) .nil))))) .PLUS
    (.one (.one (.plain (.mk (.atom 1) (.listIn (.atom 2) .nil)))))).expression

theorem buildExpression_sumMembership :
    buildExpression sumMembership = .binaryOp .IN (.binaryOp .ADD (.atom 0) (.atom 1)) (.atom 2) ↔
      sumMembership.Kept := by
  refine buildExpression_eq_iff.2 sumMembership _ (Reads.expression ?_)
  have hsum : Reads (.predicate .addSub) [.atom 0, .operator .ADD, .atom 1]
      (Expression.binaryOp .ADD (.atom 0) (.atom 1)) :=
    .arithmetic (.arith rfl (reads_operandAtom .addSub 0) (reads_operandAtom .multDiv 1))
  exact Reads.predicate (p := .IN) rfl hsum (reads_operandAtom .addSub 2)

/-- `-0 IN 1` -/
def signedMembership : ExpressionContext Nat :=
  (AddSubExpressionContext.one (.one (.one (.sub (.mk (.atom 0) (.listIn (.atom 1) .nil)))))).expression

/-- The code negates the truth value, the precedence negates the number. -/
theorem signedMembership_misread : Reads (.logic .or) signedMembership.text
        (.binaryOp .IN (.unaryOp .NEGATE (.atom 0)) (.atom 1)) ∧
      buildExpression signedMembership = .unaryOp .NEGATE (.binaryOp .IN (.atom 0) (.atom 1)) ∧
      ¬ ∀ (ctx : ExpressionContext Nat) (e : Expression Nat), Reads (.logic .or) ctx.text e →
        buildExpression ctx = e := by
  have hreads : Reads (.logic .or) signedMembership.text (.binaryOp .IN (.unaryOp .NEGATE (.atom 0)) (.atom 1)) := by
    refine Reads.expression ?_
    have hsigned : Reads (.arith .addSub) [.minus, .atom 0] (Expression.unaryOp .NEGATE (.atom 0)) :=
      (Reads.negate (.atom 0)).loosen (one_le_rank .addSub)
    exact Reads.predicate (p := .IN) rfl (.arithmetic hsigned) (reads_operandAtom .addSub 1)
  refine ⟨hreads, rfl, fun hall => ?_⟩
  cases (rfl : buildExpression signedMembership = _).symm.trans (hall signedMembership _ hreads)

end Eugraph.Cypher
