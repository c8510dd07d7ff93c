import Eugraph.Parser.CypherAst

/-!
# The precedence of Cypher

What a text means: brackets bind tightest, then a sign, then arithmetic, then the
predicates from left to right, then comparisons, `NOT`, `AND`, `XOR` and `OR`.  A text is
a list of tokens; what stands between a pair of parentheses or brackets is one token, and
the sign in front of an operand is told from the operator between two.
-/

namespace Eugraph.Cypher

open Or List

open Optimizer (BinaryOperator UnaryOperator)

variable {α : Type}

/-! ### Texts -/

inductive Token (α : Type)
  | atom (a : α)
  | paren (inner : List (Token α))
  | bracket (b : Bracket (List (Token α)))
  | minus
  | not
  | operator (op : BinaryOperator)
  | nullCheck (negated : Bool)

inductive ArithLevel
  | unary | power | multDiv | addSub
  deriving DecidableEq

/-- The level of the right operand. -/
def ArithLevel.tighter : ArithLevel → ArithLevel
  | .unary => .unary
  | .power => .unary
  | .multDiv => .power
  | .addSub => .multDiv

def arithLevel : BinaryOperator → Option ArithLevel
  | .POW => some .power
  | .MUL | .DIV | .MOD => some .multDiv
  | .ADD | .SUB => some .addSub
  | _ => none

def isComparison : BinaryOperator → Bool
  | .EQ | .NEQ | .LT | .GT | .LTE | .GTE => true
  | _ => false

inductive LogicLevel
  | and | xor | or
  deriving DecidableEq

def LogicLevel.operator : LogicLevel → BinaryOperator
  | .and => .AND
  | .xor => .XOR
  | .or => .OR

/-- The levels of a text.  Predicates stand over arithmetic of a level that bounds all
their operands; a chain of comparisons remembers its last operand. -/
inductive Level (α : Type)
  | postfixed
  | arith (a : ArithLevel)
  | predicate (a : ArithLevel)
  | chain (last : Expression α)
  | comparison
  | not
  | logic (k : LogicLevel)

def LogicLevel.operand : LogicLevel → Level α
  | .and => .not
  | .xor => .logic .and
  | .or => .logic .xor

/-- The parts of a subscript or slice. -/
def Bracket.parts {ε : Type} : Bracket ε → List ε
  | .subscript index => [index]
  | .sliceAll => []
  | .sliceFrom lower => [lower]
  | .sliceTo upper => [upper]
  | .slice lower upper => [lower, upper]

def Bracket.map {ε δ : Type} (f : ε → δ) : Bracket ε → Bracket δ
  | .subscript index => .subscript (f index)
  | .sliceAll => .sliceAll
  | .sliceFrom lower => .sliceFrom (f lower)
  | .sliceTo upper => .sliceTo (f upper)
  | .slice lower upper => .slice (f lower) (f upper)

/-- `Reads level ts e`: by the precedence of Cypher the text `ts` is the expression `e`. -/
inductive Reads : Level α → List (Token α) → Expression α → Prop
  | atom (a : α) : Reads .postfixed [.atom a] (.atom a)
  | paren {ts e} : Reads (.logic .or) ts e → Reads .postfixed [.paren ts] (.paren e)
  | bracket {ts e} (b : Bracket (List (Token α) × Expression α)) :
      Reads .postfixed ts e → (∀ part ∈ b.parts, Reads (.logic .or) part.1 part.2) →
      Reads .postfixed (ts ++ [.bracket (b.map Prod.fst)]) (applyListPostfix e (b.map Prod.snd))
  | unsigned {ts e} : Reads .postfixed ts e → Reads (.arith .unary) ts e
  | negate {ts e} : Reads .postfixed ts e → Reads (.arith .unary) (.minus :: ts) (.unaryOp .NEGATE e)
  | tighter {a ts e} : a ≠ .unary → Reads (.arith a.tighter) ts e → Reads (.arith a) ts e
  | arith {a op ts us l r} : arithLevel op = some a → Reads (.arith a) ts l →
      Reads (.arith a.tighter) us r → Reads (.arith a) (ts ++ .operator op :: us) (.binaryOp op l r)
  | arithmetic {a ts e} : Reads (.arith a) ts e → Reads (.predicate a) ts e
  | predicate {a p ts us l r} : isBinaryPredicate p = true → Reads (.predicate a) ts l →
      Reads (.arith a) us r → Reads (.predicate a) (ts ++ .operator p :: us) (.binaryOp p l r)
  | nullCheck {a ts e} (negated : Bool) : Reads (.predicate a) ts e →
      Reads (.predicate a) (ts ++ [.nullCheck negated]) (.unaryOp (nullOperator negated) e)
  | firstComparison {op ts us l r} : isComparison op = true → Reads (.predicate .addSub) ts l →
      Reads (.predicate .addSub) us r → Reads (.chain r) (ts ++ .operator op :: us) (.binaryOp op l r)
  | nextComparison {op last ts us e r} : isComparison op = true → Reads (.chain last) ts e →
      Reads (.predicate .addSub) us r →
      Reads (.chain r) (ts ++ .operator op :: us) (.binaryOp .AND e (.binaryOp op last r))
  | noComparison {ts e} : Reads (.predicate .addSub) ts e → Reads .comparison ts e
  | comparison {last ts e} : Reads (.chain last) ts e → Reads .comparison ts e
  | noNot {ts e} : Reads .comparison ts e → Reads .not ts e
  | not {ts e} : Reads .not ts e → Reads .not (.not :: ts) (.unaryOp .NOT e)
  | noLogic {k ts e} : Reads k.operand ts e → Reads (.logic k) ts e
  | logic {k ts us l r} : Reads (.logic k) ts l → Reads k.operand us r →
      Reads (.logic k) (ts ++ .operator k.operator :: us) (.binaryOp k.operator l r)

/-! ### Which tokens a level holds -/

def ArithLevel.rank : ArithLevel → Nat
  | .unary => 1
  | .power => 2
  | .multDiv => 3
  | .addSub => 4

def LogicLevel.rank : LogicLevel → Nat
  | .and => 8
  | .xor => 9
  | .or => 10

def Level.rank : Level α → Nat
  | .postfixed => 0
  | .arith a => a.rank
  | .predicate _ => 5
  | .chain _ => 6
  | .comparison => 6
  | .not => 7
  | .logic k => k.rank

/-- How loosely an operator binds. -/
def operatorRank : BinaryOperator → Nat
  | .POW => 2
  | .MUL | .DIV | .MOD => 3
  | .ADD | .SUB => 4
  | .IN | .STARTS_WITH | .ENDS_WITH | .CONTAINS => 5
  | .EQ | .NEQ | .LT | .GT | .LTE | .GTE => 6
  | .AND => 8
  | .XOR => 9
  | .OR => 10
  | .LIST_CONCAT => 11

def Token.rank : Token α → Nat
  | .atom _ => 0
  | .paren _ => 0
  | .bracket _ => 0
  | .minus => 1
  | .operator op => operatorRank op
  | .nullCheck _ => 5
  | .not => 7

variable {a : ArithLevel} {op : BinaryOperator}

lemma operatorRank_of_arithLevel (h : arithLevel op = some a) : operatorRank op = a.rank := by
  cases op
  all_goals cases h
  all_goals rfl

lemma operatorRank_of_predicate {p : BinaryOperator} (h : isBinaryPredicate p = true) : operatorRank p = 5 := by
  cases p
  all_goals first
    | rfl
    | cases h

lemma operatorRank_of_comparison (h : isComparison op = true) : operatorRank op = 6 := by
  cases op
  all_goals first
    | rfl
    | cases h

lemma operatorRank_operator (k : LogicLevel) : operatorRank k.operator = k.rank := by
  cases k
  all_goals rfl

lemma rank_operand (k : LogicLevel) : (k.operand : Level α).rank < k.rank := by
  cases k with
  | and => show (7 : Nat) < 8; omega
  | xor => show (8 : Nat) < 9; omega
  | or => show (9 : Nat) < 10; omega

lemma rank_tighter_le (a : ArithLevel) : a.tighter.rank ≤ a.rank := by
  cases a
  all_goals decide

lemma rank_tighter_lt (h : a ≠ .unary) : a.tighter.rank < a.rank := by
  cases a
  case unary => exact absurd rfl h
  all_goals decide

lemma rank_le_addSub (a : ArithLevel) : a.rank ≤ 4 := by
  cases a
  all_goals decide

lemma one_le_rank (a : ArithLevel) : 1 ≤ a.rank := by
  cases a
  all_goals decide

lemma arithLevel_ne_unary (h : arithLevel op = some a) : a ≠ .unary := by
  rintro rfl
  cases op
  all_goals cases h

variable {L : Level α} {ts : List (Token α)} {e : Expression α} {us : List (Token α)}

lemma infix_rank_le {n : Nat} (hts : ∀ t ∈ ts, t.rank ≤ n)
    (hop : operatorRank op = n) (hus : ∀ t ∈ us, t.rank ≤ n) : ∀ t ∈ ts ++ .operator op :: us, t.rank ≤ n :=
  forall_mem_append.mpr ⟨hts, forall_mem_cons.mpr ⟨hop.le, hus⟩⟩

/-- A text holds no token that binds more loosely than its level. -/
theorem Reads.rank_le (h : Reads L ts e) : ∀ t ∈ ts, t.rank ≤ L.rank := by
  induction h with
  | atom a => simp [Token.rank]
  | paren => simp [Token.rank]
  | bracket b _ _ ih =>
    exact forall_mem_append.mpr ⟨ih, forall_mem_singleton.mpr (Nat.zero_le _)⟩
  | unsigned _ ih => exact fun t ht => (ih t ht).trans (Nat.zero_le 1)
  | negate _ ih =>
    exact forall_mem_cons.mpr ⟨le_refl _, fun t ht => (ih t ht).trans (Nat.zero_le 1)⟩
  | tighter ha _ ih => exact fun t ht => (ih t ht).trans (rank_tighter_le _)
  | arith hop _ _ ihl ihr =>
    exact infix_rank_le ihl (operatorRank_of_arithLevel hop) fun t ht => (ihr t ht).trans (rank_tighter_le _)
  | arithmetic _ ih =>
    exact fun t ht => (ih t ht).trans ((rank_le_addSub _).trans (show (4 : Nat) ≤ 5 by omega))
  | predicate hp _ _ ihl ihr =>
    exact infix_rank_le ihl (operatorRank_of_predicate hp)
      fun t ht => (ihr t ht).trans ((rank_le_addSub _).trans (show (4 : Nat) ≤ 5 by omega))
  | nullCheck negated _ ih =>
    exact forall_mem_append.mpr ⟨ih, forall_mem_singleton.mpr (le_refl _)⟩
  | firstComparison hc _ _ ihl ihr =>
    exact infix_rank_le (fun t ht => (ihl t ht).trans (show (5 : Nat) ≤ 6 by omega))
      (operatorRank_of_comparison hc) fun t ht => (ihr t ht).trans (show (5 : Nat) ≤ 6 by omega)
  | nextComparison hc _ _ ihl ihr =>
    exact infix_rank_le ihl (operatorRank_of_comparison hc)
      fun t ht => (ihr t ht).trans (show (5 : Nat) ≤ 6 by omega)
  | noComparison _ ih => exact fun t ht => (ih t ht).trans (show (5 : Nat) ≤ 6 by omega)
  | comparison _ ih => exact ih
  | noNot _ ih => exact fun t ht => (ih t ht).trans (show (6 : Nat) ≤ 7 by omega)
  | not _ ih => exact forall_mem_cons.mpr ⟨le_refl _, ih⟩
  | noLogic _ ih => exact fun t ht => (ih t ht).trans (le_of_lt (rank_operand _))
  | logic _ _ ihl ihr =>
    exact infix_rank_le ihl (operatorRank_operator _) fun t ht => (ihr t ht).trans (le_of_lt (rank_operand _))

/-! ### A text has one meaning -/

/-- The last token of a kind splits a list in one way. -/
theorem split_unique {ι : Type} {p : ι → Prop} {ts us ts' us' : List ι} {x x' : ι}
    (h : ts ++ x :: us = ts' ++ x' :: us') (hx : p x) (hx' : p x') (hus : ∀ t ∈ us, ¬ p t)
    (hus' : ∀ t ∈ us', ¬ p t) : ts = ts' ∧ x = x' ∧ us = us' := by
  rcases append_eq_append_iff.mp h with ⟨as, rfl, hrest⟩ | ⟨as, rfl, hrest⟩
  · cases as with
    | nil =>
      obtain ⟨rfl, rfl⟩ := cons.inj hrest
      exact ⟨(append_nil ts).symm, rfl, rfl⟩
    | cons a as =>
      obtain ⟨rfl, rfl⟩ := cons.inj hrest
      exact absurd hx' (hus x' (by simp))
  · cases as with
    | nil =>
      obtain ⟨rfl, rfl⟩ := cons.inj hrest
      exact ⟨append_nil ts', rfl, rfl⟩
    | cons a as =>
      obtain ⟨rfl, rfl⟩ := cons.inj hrest
      exact absurd hx (hus' x (by simp))

/-- A chain of comparisons holds a comparison. -/
theorem Reads.exists_comparison {last : Expression α} (h : Reads (.chain last) ts e) : ∃ t ∈ ts, t.rank = 6 := by
  cases h with
  | firstComparison hc _ _ =>
    exact ⟨_, mem_append_right _ mem_cons_self, operatorRank_of_comparison hc⟩
  | nextComparison hc _ _ =>
    exact ⟨_, mem_append_right _ mem_cons_self, operatorRank_of_comparison hc⟩

/-- A text of a tighter level holds no such operator. -/
theorem Reads.not_operator {ts' : List (Token α)}
    {t : Token α} (h : Reads L ts e) (hts : ts' ++ t :: us = ts) (hrank : L.rank < t.rank) :
    False := by
  have := h.rank_le t (hts ▸ mem_append_right _ mem_cons_self)
  omega

lemma Reads.not_arith (ha : a ≠ .unary) (h : Reads (.arith a.tighter) ts e) : ∀ t ∈ ts, ¬ a.rank ≤ t.rank := by
  intro t ht
  have hle : t.rank ≤ a.tighter.rank := h.rank_le t ht
  have := rank_tighter_lt ha
  omega

lemma Reads.not_predicate (h : Reads (.arith a) ts e) : ∀ t ∈ ts, ¬ 5 ≤ t.rank := by
  intro t ht
  have hle : t.rank ≤ a.rank := h.rank_le t ht
  have := rank_le_addSub a
  omega

lemma Reads.not_comparison (h : Reads (.predicate a) ts e) : ∀ t ∈ ts, ¬ 6 ≤ t.rank := by
  intro t ht
  have hle : t.rank ≤ 5 := h.rank_le t ht
  omega

lemma Reads.not_logic {k : LogicLevel} (h : Reads k.operand ts e) : ∀ t ∈ ts, ¬ k.rank ≤ t.rank := by
  intro t ht
  have hle := h.rank_le t ht
  have hlt : (k.operand : Level α).rank < k.rank := rank_operand k
  omega

lemma Bracket.map_snd_unique {ε δ : Type} {b b' : Bracket (ε × δ)} (hfst : b'.map Prod.fst = b.map Prod.fst)
    (hsnd : ∀ part ∈ b.parts, ∀ part' ∈ b'.parts, part'.1 = part.1 → part'.2 = part.2) :
    b'.map Prod.snd = b.map Prod.snd := by
  cases b
  all_goals cases b'
  all_goals simp only [Bracket.map, Bracket.subscript.injEq, Bracket.sliceFrom.injEq,
    Bracket.sliceTo.injEq, Bracket.slice.injEq, reduceCtorEq] at hfst
  all_goals simp [Bracket.parts] at hsnd
  all_goals simp [Bracket.map, hfst, hsnd]

/-- The same level, up to the last operand of a chain. -/
def Level.Alike (L L' : Level α) : Prop :=
  L' = L ∨ ∃ r r', L = .chain r ∧ L' = .chain r'

/-- The last operator of a rank splits a text in one way. -/
lemma split_operator {ts' us' : List (Token α)} {op' : BinaryOperator} {n : Nat}
    (h : ts' ++ .operator op' :: us' = ts ++ .operator op :: us) (hop : operatorRank op = n)
    (hop' : operatorRank op' = n) (hus' : ∀ t ∈ us', ¬ n ≤ t.rank) (hus : ∀ t ∈ us, ¬ n ≤ t.rank) :
    ts' = ts ∧ op' = op ∧ us' = us := by
  obtain ⟨hts, hoperator, hrest⟩ :=
    split_unique (p := fun t => n ≤ t.rank) h hop'.ge hop.ge hus' hus
  exact ⟨hts, Token.operator.inj hoperator, hrest⟩

lemma Level.Alike.chain {r : Expression α} {L' : Level α} (h : (Level.chain r).Alike L') : ∃ r', L' = .chain r' := by
  rcases h with rfl | ⟨_, r', _, rfl⟩
  · exact ⟨r, rfl⟩
  · exact ⟨r', rfl⟩

variable {ts' : List (Token α)} {r r' e' : Expression α}

lemma Reads.not_chain (h : Reads (.predicate a) ts e) (hchain : Reads (.chain r) ts e') :
    False := by
  obtain ⟨t, ht, hcomparison⟩ := hchain.exists_comparison
  exact absurd hcomparison.ge (h.not_comparison t ht)

/-- The last comparison of a chain is its first one or continues a chain. -/
lemma Reads.chain_cases (h : Reads (.chain r') ts' e') (hts : ts' = ts ++ .operator op :: us)
    (hc : isComparison op = true) (hr : Reads (.predicate .addSub) us r) :
    (∃ l, Reads (.predicate .addSub) ts l ∧ Reads (.predicate .addSub) us r' ∧ e' = .binaryOp op l r') ∨
      ∃ last l, Reads (.chain last) ts l ∧ Reads (.predicate .addSub) us r' ∧
        e' = .binaryOp .AND l (.binaryOp op last r') := by
  have hrank := operatorRank_of_comparison hc
  cases h with
  | firstComparison hc' hl' hr' =>
    obtain ⟨rfl, rfl, rfl⟩ := split_operator hts hrank (operatorRank_of_comparison hc')
      hr'.not_comparison hr.not_comparison
    exact inl ⟨_, hl', hr', rfl⟩
  | nextComparison hc' hchain' hr' =>
    obtain ⟨rfl, rfl, rfl⟩ := split_operator hts hrank (operatorRank_of_comparison hc')
      hr'.not_comparison hr.not_comparison
    exact inr ⟨_, _, hchain', hr', rfl⟩

/-- What an arithmetic operator splits. -/
lemma Reads.last_arith (h : Reads (.arith a) ts' e') (hts : ts' = ts ++ .operator op :: us)
    (hop : arithLevel op = some a) (hr : Reads (.arith a.tighter) us r) :
    ∃ l r', Reads (.arith a) ts l ∧ Reads (.arith a.tighter) us r' ∧ e' = .binaryOp op l r' := by
  have ha := arithLevel_ne_unary hop
  have hrank := operatorRank_of_arithLevel hop
  cases h with
  | unsigned _ => exact absurd rfl ha
  | negate _ => exact absurd rfl ha
  | tighter _ hinner => exact (hinner.not_operator hts.symm ((rank_tighter_lt ha).trans_eq hrank.symm)).elim
  | arith hop' hl' hr' =>
    obtain ⟨rfl, rfl, rfl⟩ := split_operator hts hrank (operatorRank_of_arithLevel hop')
      (hr'.not_arith ha) (hr.not_arith ha)
    exact ⟨_, _, hl', hr', rfl⟩

/-- What a predicate splits. -/
lemma Reads.last_predicate (h : Reads (.predicate a) ts' e') (hts : ts' = ts ++ .operator op :: us)
    (hp : isBinaryPredicate op = true) (hr : Reads (.arith a) us r) :
    ∃ l r', Reads (.predicate a) ts l ∧ Reads (.arith a) us r' ∧ e' = .binaryOp op l r' := by
  have hrank := operatorRank_of_predicate hp
  cases h with
  | arithmetic hinner =>
    refine (hinner.not_operator hts.symm ?_).elim
    exact (Nat.lt_succ_of_le (rank_le_addSub a)).trans_eq hrank.symm
  | predicate hp' hl' hr' =>
    obtain ⟨rfl, rfl, rfl⟩ := split_operator hts hrank (operatorRank_of_predicate hp')
      hr'.not_predicate hr.not_predicate
    exact ⟨_, _, hl', hr', rfl⟩
  | nullCheck negated _ =>
    have hsplit := split_unique (p := fun t => 5 ≤ t.rank) hts (le_refl 5) hrank.ge (by simp) hr.not_predicate
    cases hsplit.2.1

lemma Reads.not_head {t : Token α} (h : Reads L ts e) (hts : t :: us = ts) (hrank : L.rank < t.rank) : False :=
  h.not_operator (show [] ++ t :: us = ts from hts) hrank

lemma concat_bracket_ne {b : Bracket (List (Token α))} {t : Token α} (ht : t ≠ .bracket b) :
    ts ++ [.bracket b] ≠ [t] := by
  intro h
  rw [append_eq_singleton_iff] at h
  simp [ht.symm] at h

lemma Reads.unique_of_alike (h : Reads L ts e) : ∀ {L' ts' e'}, Reads L' ts' e' → ts' = ts → L.Alike L' →
      e' = e ∧ L' = L := by
  -- by induction on the first reading; the last token of the level's rank fixes the rule
  induction h
  all_goals intro L' ts' e' h' hts hL
  case firstComparison hc hl hr ihl ihr =>
    obtain ⟨r', rfl⟩ := hL.chain
    rcases h'.chain_cases hts hc hr with ⟨l', hl', hr', rfl⟩ | ⟨_, _, hchain, -, -⟩
    · rw [(ihl hl' rfl (inl rfl)).1, (ihr hr' rfl (inl rfl)).1]
      exact ⟨rfl, rfl⟩
    · exact (hl.not_chain hchain).elim
  case nextComparison hc hchain hr ihchain ihr =>
    obtain ⟨r', rfl⟩ := hL.chain
    rcases h'.chain_cases hts hc hr with ⟨l', hl', -, -⟩ | ⟨_, _, hchain', hr', rfl⟩
    · exact (hl'.not_chain hchain).elim
    · obtain ⟨rfl, hlast⟩ := ihchain hchain' rfl (inr ⟨_, _, rfl, rfl⟩)
      rw [(ihr hr' rfl (inl rfl)).1, Level.chain.inj hlast]
      exact ⟨rfl, rfl⟩
  all_goals obtain rfl | ⟨_, _, ⟨⟩, _⟩ := hL
  case atom a =>
    cases h' with
    | atom a' =>
      cases hts
      exact ⟨rfl, rfl⟩
    | paren => cases hts
    | bracket b _ _ => exact (concat_bracket_ne (by simp) hts).elim
  case paren _ ih =>
    cases h' with
    | atom a' => cases hts
    | paren hinner =>
      rw [cons.injEq, Token.paren.injEq] at hts
      exact ⟨congrArg _ (ih hinner hts.1 (inl rfl)).1, rfl⟩
    | bracket b _ _ => exact (concat_bracket_ne (by simp) hts).elim
  case bracket b _ _ ih ihparts =>
    cases h' with
    | atom a' => exact (concat_bracket_ne (by simp) hts.symm).elim
    | paren _ => exact (concat_bracket_ne (by simp) hts.symm).elim
    | bracket b' hlist hparts =>
      obtain ⟨hts, hb⟩ := append_inj' hts rfl
      rw [cons.injEq, Token.bracket.injEq] at hb
      have hsnd := Bracket.map_snd_unique hb.1 fun part hpart part' hpart' hsame =>
        (ihparts part hpart (hparts part' hpart') hsame (inl rfl)).1
      rw [(ih hlist hts (inl rfl)).1, hsnd]
      exact ⟨rfl, rfl⟩
  case unsigned hinner ih =>
    cases h' with
    | unsigned hinner' => exact ⟨(ih hinner' hts (inl rfl)).1, rfl⟩
    | negate _ => exact (hinner.not_head hts Nat.zero_lt_one).elim
    | tighter ha _ => exact absurd rfl ha
    | arith hop _ _ => exact absurd rfl (arithLevel_ne_unary hop)
  case negate _ ih =>
    cases h' with
    | unsigned hinner' => exact (hinner'.not_head hts.symm Nat.zero_lt_one).elim
    | negate hinner' =>
      exact ⟨congrArg _ (ih hinner' (cons.inj hts).2 (inl rfl)).1, rfl⟩
    | tighter ha _ => exact absurd rfl ha
    | arith hop _ _ => exact absurd rfl (arithLevel_ne_unary hop)
  case tighter a ts e ha hinner ih =>
    cases h' with
    | unsigned _ => exact absurd rfl ha
    | negate _ => exact absurd rfl ha
    | tighter _ hinner' => exact ⟨(ih hinner' hts (inl rfl)).1, rfl⟩
    | arith hop _ _ =>
      refine (hinner.not_operator hts ?_).elim
      exact (rank_tighter_lt ha).trans_eq (operatorRank_of_arithLevel hop).symm
  case arith hop _ hr ihl ihr =>
    obtain ⟨l', r', hl', hr', rfl⟩ := h'.last_arith hts hop hr
    rw [(ihl hl' rfl (inl rfl)).1, (ihr hr' rfl (inl rfl)).1]
    exact ⟨rfl, rfl⟩
  case arithmetic a ts e hinner ih =>
    have hlow : (Level.arith a : Level α).rank < 5 := Nat.lt_succ_of_le (rank_le_addSub a)
    cases h' with
    | arithmetic hinner' => exact ⟨(ih hinner' hts (inl rfl)).1, rfl⟩
    | predicate hp _ _ =>
      exact (hinner.not_operator hts (hlow.trans_eq (operatorRank_of_predicate hp).symm)).elim
    | nullCheck negated _ => exact (hinner.not_operator hts hlow).elim
  case predicate hp _ hr ihl ihr =>
    obtain ⟨l', r', hl', hr', rfl⟩ := h'.last_predicate hts hp hr
    rw [(ihl hl' rfl (inl rfl)).1, (ihr hr' rfl (inl rfl)).1]
    exact ⟨rfl, rfl⟩
  case nullCheck a ts e negated _ ih =>
    cases h' with
    | arithmetic hinner' =>
      exact (hinner'.not_operator hts.symm (Nat.lt_succ_of_le (rank_le_addSub a))).elim
    | predicate hp _ hr =>
      have hsplit := split_unique (p := fun t => 5 ≤ t.rank) hts
        (le_of_eq (operatorRank_of_predicate hp).symm) (le_refl 5) hr.not_predicate (by simp)
      cases hsplit.2.1
    | nullCheck negated' hinner' =>
      obtain ⟨hts, hlast⟩ := append_inj' hts rfl
      rw [cons.injEq, Token.nullCheck.injEq] at hlast
      rw [(ih hinner' hts (inl rfl)).1, hlast.1]
      exact ⟨rfl, rfl⟩
  case noComparison hinner ih =>
    cases h' with
    | noComparison hinner' => exact ⟨(ih hinner' hts (inl rfl)).1, rfl⟩
    | comparison hchain => exact (hinner.not_chain (hts ▸ hchain)).elim
  case comparison hchain ih =>
    cases h' with
    | noComparison hinner' => exact (hinner'.not_chain (hts ▸ hchain)).elim
    | comparison hchain' => exact ⟨(ih hchain' hts (inr ⟨_, _, rfl, rfl⟩)).1, rfl⟩
  case noNot hinner ih =>
    cases h' with
    | noNot hinner' => exact ⟨(ih hinner' hts (inl rfl)).1, rfl⟩
    | not _ => exact (hinner.not_head hts (show (6 : Nat) < 7 by omega)).elim
  case not _ ih =>
    cases h' with
    | noNot hinner' => exact (hinner'.not_head hts.symm (show (6 : Nat) < 7 by omega)).elim
    | not hinner' =>
      exact ⟨congrArg _ (ih hinner' (cons.inj hts).2 (inl rfl)).1, rfl⟩
  case noLogic k ts e hinner ih =>
    cases h' with
    | noLogic hinner' => exact ⟨(ih hinner' hts (inl rfl)).1, rfl⟩
    | logic _ _ =>
      refine (hinner.not_operator hts ?_).elim
      exact (rank_operand k).trans_eq (operatorRank_operator k).symm
  case logic k ts us l r _ hr ihl ihr =>
    have hrank := (operatorRank_operator k).symm
    cases h' with
    | noLogic hinner' =>
      exact (hinner'.not_operator hts.symm ((rank_operand k).trans_eq hrank)).elim
    | logic hl' hr' =>
      obtain ⟨hts, -, hus⟩ := split_operator hts hrank.symm hrank.symm hr'.not_logic hr.not_logic
      rw [(ihl hl' hts (inl rfl)).1, (ihr hr' hus (inl rfl)).1]
      exact ⟨rfl, rfl⟩

/-- A text has one meaning. -/
theorem Reads.unique (h : Reads L ts e) (h' : Reads L ts e') : e' = e :=
  (h.unique_of_alike h' rfl (inl rfl)).1

end Eugraph.Cypher
