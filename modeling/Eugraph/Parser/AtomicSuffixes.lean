import Eugraph.Parser.OperandFolds

/-!
# The suffixes of an atomic expression

The builder takes the string suffixes first, then the subscripts and `IN`, then the null
checks, whatever their order in the text.  What it assembles is the meaning of the text
exactly when the suffixes already stand in that order and no bracket follows a string
suffix directly.
-/

namespace Eugraph.Cypher

open Suffix List ListLoop Expression Or Prod

open Optimizer (BinaryOperator UnaryOperator)

variable {α : Type}

/-- A text with what has been built from it. -/
abbrev Built (α : Type) := List (Token α) × Expression α

/-! ### Texts of suffixes -/

def Suffix.map {ε δ : Type} (f : ε → δ) : Suffix ε → Suffix δ
  | .stringExp p operand => .stringExp p (f operand)
  | .listIn operand => .listIn (f operand)
  | .bracket b => .bracket (b.map f)
  | .nullExp negated => .nullExp negated

def Suffix.text : Suffix (Built α) → List (Token α)
  | .stringExp p operand => .operator p.operator :: operand.1
  | .listIn operand => .operator .IN :: operand.1
  | .bracket b => [.bracket (b.map fst)]
  | .nullExp negated => [.nullCheck negated]

def suffixText (suffixes : List (Suffix (Built α))) : List (Token α) :=
  suffixes.flatMap text

def suffixExprs (suffixes : List (Suffix (Built α))) : List (Suffix (Expression α)) :=
  suffixes.map (map snd)

/-- An operand of a suffix is a single token. -/
def IsOperandText (ts : List (Token α)) : Prop :=
  (∃ a, ts = [.atom a]) ∨ ∃ inner, ts = [.paren inner]

/-- The parts of a suffix have been built right. -/
def Suffix.Kept : Suffix (Built α) → Prop
  | .stringExp _ operand => Reads .postfixed operand.1 operand.2
  | .listIn operand => Reads .postfixed operand.1 operand.2
  | .bracket b => ∀ part ∈ b.parts, Reads (.logic .or) part.1 part.2
  | .nullExp _ => True

def Suffix.IsBracket {ε : Type} : Suffix ε → Prop
  | .bracket _ => True
  | _ => False

/-- The order in which the builder takes the suffixes is their order in the text. -/
structure Arranged {ε : Type} (suffixes : List (Suffix ε)) : Prop where
  sorted : suffixes =
    ofKind .string suffixes ++ ofKind .list suffixes ++ ofKind .null suffixes
  bracket : ofKind .string suffixes ≠ [] → ∀ b, (ofKind .list suffixes).head? ≠ some (.bracket b)

section Text

variable (suffixes : List (Suffix (Built α))) (suffix : Suffix (Built α))

@[simp] lemma suffixText_concat : suffixText (suffixes ++ [suffix]) = suffixText suffixes ++ suffix.text := by
  rw [suffixText, flatMap_append, flatMap_singleton]
  rfl

@[simp] lemma suffixExprs_concat :
    suffixExprs (suffixes ++ [suffix]) = suffixExprs suffixes ++ [suffix.map snd] := by
  rw [suffixExprs, map_append]
  rfl

end Text

section Kinds

variable {ε δ : Type}

@[simp] lemma kind_map (f : ε → δ) (suffix : Suffix ε) : (suffix.map f).kind = suffix.kind := by
  cases suffix
  all_goals rfl

lemma ofKind_concat (kind : SuffixKind) (suffixes : List (Suffix ε)) (suffix : Suffix ε) :
    ofKind kind (suffixes ++ [suffix]) =
      if suffix.kind = kind then ofKind kind suffixes ++ [suffix] else ofKind kind suffixes := by
  rw [ofKind, filter_append, filter_singleton]
  by_cases h : suffix.kind = kind
  · simp [h, ofKind]
  · simp [h, ofKind]

lemma ofKind_map (f : ε → δ) (kind : SuffixKind) (suffixes : List (Suffix ε)) :
    ofKind kind (suffixes.map (Suffix.map f)) = (ofKind kind suffixes).map (Suffix.map f) := by
  rw [ofKind, ofKind, filter_map]
  congr 1
  refine filter_congr fun suffix _ => ?_
  simp

lemma ofKind_suffixExprs (kind : SuffixKind) (suffixes : List (Suffix (Built α))) :
    ofKind kind (suffixExprs suffixes) = (ofKind kind suffixes).map (Suffix.map snd) :=
  ofKind_map _ kind suffixes

end Kinds

/-! ### One more suffix -/

section Assemble

variable (e : Expression α) (suffixes : List (Suffix (Expression α)))

/-- The state of the loop over the list suffixes. -/
def listState : ListLoop α :=
  (ofKind .list suffixes).foldl step ⟨(ofKind .string suffixes).foldl applyString e, none⟩

lemma assembleAtomic_eq_close (h : ofKind .null suffixes = []) :
    assembleAtomic e suffixes = (listState e suffixes).close := by
  rw [assembleAtomic, h]
  rfl

lemma assembleAtomic_nullExp (negated : Bool) : assembleAtomic e (suffixes ++ [.nullExp negated]) =
      .unaryOp (nullOperator negated) (assembleAtomic e suffixes) := by
  simp [assembleAtomic, ofKind_concat, kind, applyNull]

lemma assembleAtomic_listIn (operand : Expression α) (h : ofKind .null suffixes = []) :
    assembleAtomic e (suffixes ++ [.listIn operand]) = .binaryOp .IN (assembleAtomic e suffixes) operand := by
  simp [assembleAtomic, ofKind_concat, kind, h, applyLists, step, close]

lemma assembleAtomic_stringExp (p : StringExpPrefix) (operand : Expression α)
    (hnull : ofKind .null suffixes = []) (hlist : ofKind .list suffixes = []) :
    assembleAtomic e (suffixes ++ [.stringExp p operand]) =
      .binaryOp p.operator (assembleAtomic e suffixes) operand := by
  simp [assembleAtomic, ofKind_concat, kind, hnull, hlist, applyLists, applyString, close]

lemma assembleAtomic_bracket (b : Bracket (Expression α)) (h : ofKind .null suffixes = []) :
    assembleAtomic e (suffixes ++ [.bracket b]) = ((listState e suffixes).step (.bracket b)).close := by
  simp [assembleAtomic, ofKind_concat, kind, h, applyLists, listState]

/-- Without an `IN` the loop has only subscripted its operand. -/
theorem listState_right_eq_none_iff :
    (listState e suffixes).right = none ↔ ∀ operand, .listIn operand ∉ suffixes := by
  have hfold : ∀ (lists : List (Suffix (Expression α))) (s : ListLoop α), (lists.foldl step s).right = none ↔
        s.right = none ∧ ∀ operand, .listIn operand ∉ lists := by
    intro lists
    induction lists with
    | nil => simp
    | cons suffix rest ih =>
      intro s
      rw [foldl_cons, ih]
      cases suffix with
      | listIn operand =>
        simp only [step, mem_cons]
        constructor
        · rintro ⟨h, -⟩
          cases h
        · rintro ⟨-, h⟩
          exact absurd (inl rfl) (h operand)
      | bracket b =>
        cases hright : s.right with
        | none => simp [step, hright]
        | some right => simp [step, hright]
      | stringExp p operand => simp [step]
      | nullExp negated => simp [step]
  rw [listState, hfold]
  simp [ofKind, kind]

lemma assembleAtomic_of_null (h : ofKind .null suffixes ≠ []) :
    ∃ negated e', assembleAtomic e suffixes = .unaryOp (nullOperator negated) e' := by
  obtain ⟨init, last, hlast⟩ := (eq_nil_or_concat (ofKind .null suffixes)).resolve_left h
  have hkind : last ∈ ofKind .null suffixes := by simp [hlast]
  rw [assembleAtomic, hlast, concat_eq_append, foldl_append]
  cases last with
  | nullExp negated => exact ⟨negated, _, rfl⟩
  | _ => simp [ofKind, kind] at hkind

lemma listState_close_of_list (h : ofKind .list suffixes ≠ []) :
    (∃ l r, (listState e suffixes).close = .binaryOp .IN l r) ∨
      ∃ l b, (listState e suffixes).close = applyListPostfix l b := by
  obtain ⟨init, last, hlast⟩ := (eq_nil_or_concat (ofKind .list suffixes)).resolve_left h
  have hkind : last ∈ ofKind .list suffixes := by simp [hlast]
  rw [listState, hlast, concat_eq_append, foldl_append]
  generalize init.foldl step _ = s
  cases last with
  | listIn operand => exact inl ⟨_, _, rfl⟩
  | bracket b =>
    show (∃ l r, (s.step (.bracket b)).close = _) ∨ _
    cases hright : s.right with
    | none =>
      refine inr ⟨s.r, b, ?_⟩
      simp [step, hright, close]
    | some right =>
      refine inl ⟨s.r, applyListPostfix right b, ?_⟩
      simp [step, hright, close]
  | _ => simp [ofKind, kind] at hkind

end Assemble

/-! ### One more suffix keeps the order -/

section Arranged

variable {ε : Type} {suffixes : List (Suffix ε)}

lemma arranged_nil : Arranged ([] : List (Suffix ε)) := ⟨rfl, fun h => absurd rfl h⟩

lemma ofKind_eq_nil_of_sorted {strings lists nulls : List (Suffix ε)} {suffix : Suffix ε}
    {rest : List (Suffix ε)} (h : rest ++ [suffix] = strings ++ lists ++ nulls)
    (hnulls : ∀ s ∈ nulls, s.kind = .null) (hsuffix : suffix.kind ≠ .null) : nulls = [] := by
  rcases eq_nil_or_concat nulls with rfl | ⟨init, last, rfl⟩
  · rfl
  · rw [concat_eq_append, ← append_assoc] at h
    obtain ⟨-, hlast⟩ := append_inj' h rfl
    obtain rfl := (cons.inj hlast).1
    exact absurd (hnulls suffix (by simp)) hsuffix

lemma kind_of_mem_ofKind {kind : SuffixKind} {s : Suffix ε} (h : s ∈ ofKind kind suffixes) : s.kind = kind := by
  simpa using (mem_filter.mp h).2

lemma arranged_nullExp_iff (negated : Bool) : Arranged (suffixes ++ [.nullExp negated]) ↔ Arranged suffixes := by
  have hstring : ofKind .string (suffixes ++ [.nullExp negated]) = ofKind .string suffixes := by
    simp [ofKind_concat, kind]
  have hlist : ofKind .list (suffixes ++ [.nullExp negated]) = ofKind .list suffixes := by
    simp [ofKind_concat, kind]
  have hnull : ofKind .null (suffixes ++ [.nullExp negated]) = ofKind .null suffixes ++ [.nullExp negated] := by
    simp [ofKind_concat, kind]
  constructor
  · intro h
    have hsorted := h.sorted
    rw [hstring, hlist, hnull, ← append_assoc] at hsorted
    have hbracket := h.bracket
    rw [hstring, hlist] at hbracket
    exact ⟨(append_inj' hsorted rfl).1, hbracket⟩
  · intro h
    refine ⟨?_, ?_⟩
    · rw [hstring, hlist, hnull, ← append_assoc, ← h.sorted]
    · rw [hstring, hlist]
      exact h.bracket

/-- A list suffix may follow; a bracket not as the first one behind string suffixes. -/
theorem arranged_list_iff {suffix : Suffix ε} (hkind : suffix.kind = .list) :
    Arranged (suffixes ++ [suffix]) ↔ Arranged suffixes ∧ ofKind .null suffixes = [] ∧
      ((∃ b, suffix = .bracket b) → ofKind .string suffixes = [] ∨ ofKind .list suffixes ≠ []) := by
  have hstring : ofKind .string (suffixes ++ [suffix]) = ofKind .string suffixes := by
    simp [ofKind_concat, hkind]
  have hlist : ofKind .list (suffixes ++ [suffix]) = ofKind .list suffixes ++ [suffix] := by
    simp [ofKind_concat, hkind]
  have hnull : ofKind .null (suffixes ++ [suffix]) = ofKind .null suffixes := by
    simp [ofKind_concat, hkind]
  constructor
  · intro h
    have hsorted := h.sorted
    have hbracket := h.bracket
    rw [hstring, hlist] at hbracket
    rw [hstring, hlist, hnull] at hsorted
    have hnil : ofKind .null suffixes = [] :=
      ofKind_eq_nil_of_sorted hsorted (fun s hs => kind_of_mem_ofKind hs) (by simp [hkind])
    rw [hnil, append_nil, ← append_assoc] at hsorted
    refine ⟨⟨?_, fun hne b hb => ?_⟩, hnil, ?_⟩
    · rw [hnil, append_nil]
      exact (append_inj' hsorted rfl).1
    · refine hbracket hne b ?_
      rw [head?_append, hb]
      rfl
    · rintro ⟨b, rfl⟩
      refine or_iff_not_imp_left.mpr fun hne heq => hbracket hne b ?_
      rw [heq]
      rfl
  · rintro ⟨h, hnil, hor⟩
    have hsorted := h.sorted
    rw [hnil, append_nil] at hsorted
    refine ⟨?_, fun hne b => ?_⟩
    · rw [hstring, hlist, hnull, hnil, append_nil, ← append_assoc, ← hsorted]
    · rw [hstring] at hne
      have hb := h.bracket hne b
      rw [hlist, head?_append]
      cases hhead : ofKind .list suffixes with
      | nil =>
        intro hsame
        exact (hor ⟨b, Option.some.inj hsame⟩).elim hne fun hfirst => hfirst hhead
      | cons first rest =>
        rw [hhead] at hb
        exact hb

lemma arranged_listIn_iff (operand : ε) :
    Arranged (suffixes ++ [.listIn operand]) ↔ Arranged suffixes ∧ ofKind .null suffixes = [] := by
  simp [arranged_list_iff (show (Suffix.listIn operand).kind = .list from rfl)]

lemma arranged_stringExp_iff (p : StringExpPrefix) (operand : ε) : Arranged (suffixes ++ [.stringExp p operand]) ↔
      Arranged suffixes ∧ ofKind .list suffixes = [] ∧ ofKind .null suffixes = [] := by
  have hstring : ofKind .string (suffixes ++ [.stringExp p operand]) =
      ofKind .string suffixes ++ [.stringExp p operand] := by
    simp [ofKind_concat, kind]
  have hlist : ofKind .list (suffixes ++ [.stringExp p operand]) = ofKind .list suffixes := by
    simp [ofKind_concat, kind]
  have hnull : ofKind .null (suffixes ++ [.stringExp p operand]) = ofKind .null suffixes := by
    simp [ofKind_concat, kind]
  constructor
  · intro h
    have hsorted := h.sorted
    rw [hstring, hlist, hnull] at hsorted
    have hnil : ofKind .null suffixes = [] :=
      ofKind_eq_nil_of_sorted hsorted (fun s hs => kind_of_mem_ofKind hs) (by simp [kind])
    rw [hnil, append_nil] at hsorted
    have hnil' : ofKind .list suffixes = [] := by
      rcases eq_nil_or_concat (ofKind .list suffixes) with h | ⟨init, last, hlast⟩
      · exact h
      · rw [hlast, concat_eq_append, ← append_assoc] at hsorted
        obtain ⟨-, hsame⟩ := append_inj' hsorted rfl
        have hmem : last ∈ ofKind .list suffixes := by simp [hlast]
        have hkind : last.kind = .list := kind_of_mem_ofKind hmem
        rw [← (cons.inj hsame).1] at hkind
        cases hkind
    rw [hnil', append_nil] at hsorted
    refine ⟨⟨?_, fun _ b => by simp [hnil']⟩, hnil', hnil⟩
    rw [hnil', hnil, append_nil, append_nil]
    exact (append_inj' hsorted rfl).1
  · rintro ⟨h, hnil', hnil⟩
    have hsorted := h.sorted
    rw [hnil', hnil, append_nil, append_nil] at hsorted
    refine ⟨?_, fun _ b => by simp [hlist, hnil']⟩
    rw [hstring, hlist, hnull, hnil', hnil, append_nil, append_nil, ← hsorted]

lemma arranged_bracket_iff (b : Bracket ε) : Arranged (suffixes ++ [.bracket b]) ↔
      Arranged suffixes ∧ ofKind .null suffixes = [] ∧
        (ofKind .string suffixes = [] ∨ ofKind .list suffixes ≠ []) := by
  simp [arranged_list_iff (show (Suffix.bracket b).kind = .list from rfl)]

end Arranged

/-! ### Readings of one more suffix -/

/-- The operands of a suffix are single tokens. -/
def Suffix.HasOperandText : Suffix (Built α) → Prop
  | .stringExp _ operand => IsOperandText operand.1
  | .listIn operand => IsOperandText operand.1
  | _ => True

variable {ts : List (Token α)}

lemma IsOperandText.rank_eq_zero (h : IsOperandText ts) : ∀ t ∈ ts, t.rank = 0 := by
  rcases h with ⟨a, rfl⟩ | ⟨inner, rfl⟩
  all_goals simp [Token.rank]

lemma rank_suffixText {suffixes : List (Suffix (Built α))} (h : ∀ suffix ∈ suffixes, suffix.HasOperandText) :
    ∀ t ∈ suffixText suffixes, t.rank = 0 ∨ t.rank = 5 := by
  intro t ht
  obtain ⟨suffix, hsuffix, ht⟩ := mem_flatMap.mp ht
  have hoperand := h suffix hsuffix
  cases suffix with
  | stringExp p operand =>
    rcases mem_cons.mp ht with rfl | ht
    · exact inr (operatorRank_of_predicate (isBinaryPredicate_operator p))
    · exact inl (IsOperandText.rank_eq_zero hoperand t ht)
  | listIn operand =>
    rcases mem_cons.mp ht with rfl | ht
    · exact inr rfl
    · exact inl (IsOperandText.rank_eq_zero hoperand t ht)
  | bracket b =>
    rw [mem_singleton.mp ht]
    exact inl rfl
  | nullExp negated =>
    rw [mem_singleton.mp ht]
    exact inr rfl

variable {e : Expression α}

lemma Reads.postfix_of_arith
    (h : Reads (.arith .unary) ts e) (hts : ∀ t ∈ ts, t.rank ≠ 1) : Reads .postfixed ts e := by
  cases h with
  | unsigned hinner => exact hinner
  | negate _ => exact absurd rfl (hts .minus mem_cons_self)
  | tighter ha _ => exact absurd rfl ha
  | arith hop _ _ => exact absurd rfl (arithLevel_ne_unary hop)

lemma Reads.postfix_of_rank_zero
    (h : Reads (.predicate .unary) ts e) (hts : ∀ t ∈ ts, t.rank = 0) : Reads .postfixed ts e := by
  refine (h.arith_of_not_predicate fun t ht => ?_).postfix_of_arith fun t ht => ?_
  · rw [hts t ht]
    omega
  · rw [hts t ht]
    omega

lemma Reads.predicate_of_postfixed
    (h : Reads .postfixed ts e) : Reads (.predicate .unary) ts e := .arithmetic (.unsigned h)

lemma applyListPostfix_injective {e' : Expression α} {b b' : Bracket (Expression α)}
    (h : applyListPostfix e b = applyListPostfix e' b') : e = e' ∧ b = b' := by
  cases b
  all_goals cases b'
  all_goals simp only [applyListPostfix, subscript.injEq, sliceAll.injEq, sliceFrom.injEq, sliceTo.injEq,
    slice.injEq,
    reduceCtorEq] at h
  all_goals simp [h]

lemma Bracket.eq_of_map {ε δ : Type} {b b' : Bracket (ε × δ)}
    (hfst : b.map Prod.fst = b'.map Prod.fst) (hsnd : b.map Prod.snd = b'.map Prod.snd) : b = b' := by
  cases b
  all_goals cases b'
  all_goals simp_all [Bracket.map, Prod.ext_iff]

lemma Reads.bracket_inv {L : Level α}
    {b : Bracket (Expression α)} (h : Reads L ts (applyListPostfix e b)) (hL : L.rank ≤ 5) :
    ∃ t, ∃ b' : Bracket (Built α), ts = t ++ [.bracket (b'.map fst)] ∧ b'.map snd = b ∧
      Reads .postfixed t e ∧ ∀ part ∈ b'.parts, Reads (.logic .or) part.1 part.2 := by
  generalize hx : applyListPostfix e b = x at h
  have hbinary : ∀ op l r, applyListPostfix e b ≠ .binaryOp op l r := by
    intro op l r
    cases b
    all_goals simp [applyListPostfix]
  have hunary : ∀ op l, applyListPostfix e b ≠ .unaryOp op l := by
    intro op l
    cases b
    all_goals simp [applyListPostfix]
  induction h with
  | atom a =>
    cases b
    all_goals cases hx
  | paren _ _ =>
    cases b
    all_goals cases hx
  | bracket b' hlist hparts _ _ =>
    obtain ⟨rfl, rfl⟩ := applyListPostfix_injective hx
    exact ⟨_, b', rfl, rfl, hlist, hparts⟩
  | unsigned _ ih => exact ih (Nat.zero_le 5) hx
  | negate _ _ => exact absurd hx (hunary _ _)
  | tighter _ _ ih => exact ih ((rank_tighter_le _).trans hL) hx
  | arith _ _ _ _ _ => exact absurd hx (hbinary _ _ _)
  | arithmetic _ ih => exact ih ((rank_le_addSub _).trans (show (4 : Nat) ≤ 5 by omega)) hx
  | predicate _ _ _ _ _ => exact absurd hx (hbinary _ _ _)
  | nullCheck _ _ _ => exact absurd hx (hunary _ _)
  | firstComparison _ _ _ _ _ => exact absurd hx (hbinary _ _ _)
  | nextComparison _ _ _ _ _ => exact absurd hx (hbinary _ _ _)
  | noComparison _ _ => exact absurd hL (show ¬ (6 : Nat) ≤ 5 by omega)
  | comparison _ _ => exact absurd hL (show ¬ (6 : Nat) ≤ 5 by omega)
  | noNot _ _ => exact absurd hL (show ¬ (7 : Nat) ≤ 5 by omega)
  | not _ _ => exact absurd hx (hunary _ _)
  | @noLogic k _ _ _ _ =>
    cases k
    all_goals simp [Level.rank, LogicLevel.rank] at hL
  | logic _ _ _ _ => exact absurd hx (hbinary _ _ _)

lemma reads_bracket_iff (b : Bracket (Built α)) : Reads (.predicate .unary) (ts ++ [.bracket (b.map fst)])
        (applyListPostfix e (b.map snd)) ↔
      Reads .postfixed ts e ∧ ∀ part ∈ b.parts, Reads (.logic .or) part.1 part.2 := by
  constructor
  · intro h
    obtain ⟨t, b', hts, hsnd, hlist, hparts⟩ := h.bracket_inv (le_refl 5)
    obtain ⟨rfl, hlast⟩ := append_inj' hts rfl
    rw [cons.injEq, Token.bracket.injEq] at hlast
    obtain rfl := Bracket.eq_of_map hlast.1.symm hsnd
    exact ⟨hlist, hparts⟩
  · rintro ⟨hlist, hparts⟩
    exact (Reads.bracket b hlist hparts).predicate_of_postfixed

lemma reads_nullCheck_iff {a : ArithLevel} {negated : Bool} :
    Reads (.predicate a) (ts ++ [.nullCheck negated]) (.unaryOp (nullOperator negated) e) ↔
      Reads (.predicate a) ts e := by
  constructor
  · intro h
    obtain ⟨t, negated', hts, -, hinner⟩ := h.nullCheck_inv (isNullCheck_nullOperator negated)
    rwa [(append_inj' hts rfl).1]
  · exact .nullCheck negated

lemma reads_predicate_iff {a : ArithLevel} {p : BinaryOperator} {us : List (Token α)}
    {x y : Expression α} (hp : isBinaryPredicate p = true) (hus : ∀ t ∈ us, ¬ 5 ≤ t.rank) :
    Reads (.predicate a) (ts ++ .operator p :: us) (.binaryOp p x y) ↔
      Reads (.predicate a) ts x ∧ Reads (.arith a) us y := by
  constructor
  · intro h
    obtain ⟨t, u, hsplit, hx, hy⟩ := h.predicate_inv hp
    have hrank := operatorRank_of_predicate hp
    obtain ⟨rfl, -, rfl⟩ := split_unique (p := fun t => 5 ≤ t.rank) hsplit (le_of_eq hrank.symm)
      (le_of_eq hrank.symm) hus hy.not_predicate
    exact ⟨hx, hy⟩
  · exact fun h => .predicate hp h.1 h.2

lemma IsOperandText.reads_iff (h : IsOperandText ts) : Reads (.arith .unary) ts e ↔ Reads .postfixed ts e :=
  ⟨fun hreads => hreads.postfix_of_arith fun t ht => by
    rw [h.rank_eq_zero t ht]
    omega, .unsigned⟩

section Concat

variable {ts : List (Token α)} {e : Expression α} {suffixes : List (Suffix (Built α))}
  {suffix : Suffix (Built α)}

/-- The last token of a suffix that is no null check is none either. -/
theorem not_reads_of_null (hnull : ofKind .null suffixes ≠ []) (hsuffix : suffix.HasOperandText)
    (hkind : suffix.kind ≠ .null) :
    ¬ Reads (.predicate .unary) (ts ++ suffix.text)
      (assembleAtomic e (suffixExprs (suffixes ++ [suffix]))) := by
  intro h
  obtain ⟨init, last, htext, hrank⟩ : ∃ init last, suffix.text = init ++ [last] ∧ last.rank = 0 := by
    cases suffix with
    | stringExp p operand =>
      rcases hsuffix with ⟨a, ha⟩ | ⟨inner, ha⟩
      · exact ⟨[.operator p.operator], .atom a, by rw [text, ha]; rfl, rfl⟩
      · exact ⟨[.operator p.operator], .paren inner, by rw [text, ha]; rfl, rfl⟩
    | listIn operand =>
      rcases hsuffix with ⟨a, ha⟩ | ⟨inner, ha⟩
      · exact ⟨[.operator .IN], .atom a, by rw [text, ha]; rfl, rfl⟩
      · exact ⟨[.operator .IN], .paren inner, by rw [text, ha]; rfl, rfl⟩
    | bracket b => exact ⟨[], .bracket (b.map fst), rfl, rfl⟩
    | nullExp negated => exact absurd rfl hkind
  have hnull' : ofKind .null (suffixExprs (suffixes ++ [suffix])) ≠ [] := by
    rw [ofKind_suffixExprs, ofKind_concat, if_neg hkind]
    simpa using hnull
  obtain ⟨negated, e', he⟩ := assembleAtomic_of_null e _ hnull'
  rw [he] at h
  obtain ⟨t, negated', hts, -, -⟩ := h.nullCheck_inv (isNullCheck_nullOperator negated)
  rw [htext, ← append_assoc] at hts
  obtain ⟨-, hlast⟩ := append_inj' hts rfl
  rw [(cons.inj hlast).1] at hrank
  cases hrank

lemma reads_nullExp_iff (negated : Bool) :
    Reads (.predicate .unary) (ts ++ suffixText (suffixes ++ [.nullExp negated]))
        (assembleAtomic e (suffixExprs (suffixes ++ [.nullExp negated]))) ↔
      Reads (.predicate .unary) (ts ++ suffixText suffixes)
        (assembleAtomic e (suffixExprs suffixes)) := by
  rw [suffixText_concat, suffixExprs_concat, ← append_assoc]
  show Reads _ (_ ++ [Token.nullCheck negated]) (assembleAtomic e (_ ++ [.nullExp negated])) ↔ _
  rw [assembleAtomic_nullExp]
  exact reads_nullCheck_iff

lemma reads_listIn_iff {operand : Built α} (hoperand : IsOperandText operand.1) :
    Reads (.predicate .unary) (ts ++ suffixText (suffixes ++ [.listIn operand]))
        (assembleAtomic e (suffixExprs (suffixes ++ [.listIn operand]))) ↔
      Reads (.predicate .unary) (ts ++ suffixText suffixes)
          (assembleAtomic e (suffixExprs suffixes)) ∧
        Reads .postfixed operand.1 operand.2 ∧ ofKind .null suffixes = [] := by
  by_cases hnull : ofKind .null suffixes = []
  · have hnull' : ofKind .null (suffixExprs suffixes) = [] := by
      rw [ofKind_suffixExprs, hnull]
      rfl
    rw [suffixText_concat, suffixExprs_concat, ← append_assoc]
    show Reads _ (_ ++ .operator .IN :: operand.1) (assembleAtomic e (_ ++ [.listIn operand.2])) ↔ _
    rw [assembleAtomic_listIn e _ operand.2 hnull', reads_predicate_iff rfl, hoperand.reads_iff]
    · exact and_congr_right fun _ => (and_iff_left hnull).symm
    · intro t ht
      rw [hoperand.rank_eq_zero t ht]
      omega
  · refine iff_of_false ?_ fun h => hnull h.2.2
    rw [suffixText_concat, ← append_assoc]
    exact not_reads_of_null hnull hoperand (by simp [kind])

lemma reads_stringExp_iff {p : StringExpPrefix} {operand : Built α} (hoperand : IsOperandText operand.1) :
    Reads (.predicate .unary) (ts ++ suffixText (suffixes ++ [.stringExp p operand]))
        (assembleAtomic e (suffixExprs (suffixes ++ [.stringExp p operand]))) ↔
      Reads (.predicate .unary) (ts ++ suffixText suffixes)
          (assembleAtomic e (suffixExprs suffixes)) ∧
        Reads .postfixed operand.1 operand.2 ∧ ofKind .list suffixes = [] ∧ ofKind .null suffixes = [] := by
  have hp := isBinaryPredicate_operator p
  have hrank : ∀ t ∈ operand.1, ¬ 5 ≤ t.rank := by
    intro t ht
    rw [hoperand.rank_eq_zero t ht]
    omega
  by_cases hnull : ofKind .null suffixes = []
  · have hnull' : ofKind .null (suffixExprs suffixes) = [] := by
      rw [ofKind_suffixExprs, hnull]
      rfl
    rw [suffixText_concat, suffixExprs_concat, ← append_assoc]
    show Reads _ (_ ++ .operator p.operator :: operand.1) (assembleAtomic e (_ ++ [.stringExp p operand.2])) ↔ _
    by_cases hlist : ofKind .list suffixes = []
    · have hlist' : ofKind .list (suffixExprs suffixes) = [] := by
        rw [ofKind_suffixExprs, hlist]
        rfl
      rw [assembleAtomic_stringExp e _ p operand.2 hnull' hlist', reads_predicate_iff hp hrank, hoperand.reads_iff]
      exact and_congr_right fun _ => (and_iff_left ⟨hlist, hnull⟩).symm
    · -- the tree ends in a list suffix, the text in a string one
      refine iff_of_false (fun h => ?_) fun h => hlist h.2.2.1
      rw [assembleAtomic_eq_close _ _ (by simp [ofKind_concat, kind, hnull'])] at h
      have hlist' : ofKind .list (suffixExprs suffixes ++ [.stringExp p operand.2]) ≠ [] := by
        rw [ofKind_concat, if_neg (by simp [kind]), ofKind_suffixExprs]
        simpa using hlist
      rcases listState_close_of_list e _ hlist' with ⟨l, r, hclose⟩ | ⟨l, b, hclose⟩
      · rw [hclose] at h
        obtain ⟨t, u, hsplit, -, hr⟩ := h.predicate_inv rfl
        have hsame := split_unique (p := fun t => 5 ≤ t.rank) hsplit
          (le_of_eq (operatorRank_of_predicate hp).symm) (le_refl 5) hrank hr.not_predicate
        have hop := Token.operator.inj hsame.2.1
        cases p
        all_goals cases hop
      · rw [hclose] at h
        obtain ⟨t, b', hts, -, -, -⟩ := h.bracket_inv (le_refl 5)
        rcases hoperand with ⟨a, ha⟩ | ⟨inner, ha⟩
        all_goals rw [ha, append_cons] at hts
        all_goals cases (cons.inj (append_inj' hts rfl).2).1
  · refine iff_of_false ?_ fun h => hnull h.2.2.2
    rw [suffixText_concat, ← append_assoc]
    exact not_reads_of_null hnull hoperand (by simp [kind])

/-- Only brackets follow the operand. -/
theorem reads_postfix_iff (hts : IsOperandText ts) :
    Reads .postfixed (ts ++ suffixText suffixes) (assembleAtomic e (suffixExprs suffixes)) ↔
      Reads (.predicate .unary) (ts ++ suffixText suffixes)
          (assembleAtomic e (suffixExprs suffixes)) ∧ ∀ suffix ∈ suffixes, suffix.IsBracket := by
  constructor
  · intro h
    refine ⟨h.predicate_of_postfixed, fun suffix hsuffix => ?_⟩
    have hrank : ∀ t ∈ suffix.text, t.rank ≤ 0 := fun t ht =>
      h.rank_le t (mem_append_right _ (mem_flatMap.mpr ⟨suffix, hsuffix, ht⟩))
    cases suffix with
    | bracket b => trivial
    | stringExp p operand =>
      have : operatorRank p.operator ≤ 0 := hrank _ mem_cons_self
      rw [operatorRank_of_predicate (isBinaryPredicate_operator p)] at this
      omega
    | listIn operand => exact absurd (hrank _ mem_cons_self) (show ¬ (5 : Nat) ≤ 0 by omega)
    | nullExp negated =>
      exact absurd (hrank _ mem_cons_self) (show ¬ (5 : Nat) ≤ 0 by omega)
  · rintro ⟨h, hbrackets⟩
    refine h.postfix_of_rank_zero fun t ht => ?_
    rcases mem_append.mp ht with ht | ht
    · exact hts.rank_eq_zero t ht
    · obtain ⟨suffix, hsuffix, ht⟩ := mem_flatMap.mp ht
      have hbracket := hbrackets suffix hsuffix
      cases suffix with
      | bracket b =>
        rw [mem_singleton.mp ht]
        rfl
      | _ => exact hbracket.elim

lemma reads_bracketSuffix_iff (hts : IsOperandText ts)
    (hsuffixes : ∀ suffix ∈ suffixes, suffix.HasOperandText) (b : Bracket (Built α)) :
    Reads (.predicate .unary) (ts ++ suffixText (suffixes ++ [.bracket b]))
        (assembleAtomic e (suffixExprs (suffixes ++ [.bracket b]))) ↔
      Reads (.predicate .unary) (ts ++ suffixText suffixes)
          (assembleAtomic e (suffixExprs suffixes)) ∧
        (∀ part ∈ b.parts, Reads (.logic .or) part.1 part.2) ∧ ofKind .null suffixes = [] ∧
          ((∀ operand, .listIn operand ∉ suffixExprs suffixes) → ∀ suffix ∈ suffixes, suffix.IsBracket) := by
  by_cases hnull : ofKind .null suffixes = []
  · have hnull' : ofKind .null (suffixExprs suffixes) = [] := by
      rw [ofKind_suffixExprs, hnull]
      rfl
    have hreads : Reads .postfixed (ts ++ suffixText suffixes)
        (assembleAtomic e (suffixExprs suffixes)) ↔ _ := reads_postfix_iff hts
    rw [assembleAtomic_eq_close e _ hnull'] at hreads ⊢
    rw [suffixText_concat, suffixExprs_concat, ← append_assoc]
    show Reads _ (_ ++ [.bracket (b.map fst)]) (assembleAtomic e (_ ++ [.bracket (b.map snd)])) ↔ _
    rw [assembleAtomic_bracket e _ _ hnull', ← listState_right_eq_none_iff e]
    cases hright : (listState e (suffixExprs suffixes)).right with
    | none =>
      have hclose : (listState e (suffixExprs suffixes)).close = (listState e (suffixExprs suffixes)).r := by
        simp [close, hright]
      rw [hclose] at hreads ⊢
      simp only [step, hright, close]
      rw [reads_bracket_iff, hreads]
      constructor
      · exact fun h => ⟨h.1.1, h.2, hnull, fun _ => h.1.2⟩
      · exact fun h => ⟨⟨h.1, h.2.2.2 trivial⟩, h.2.1⟩
    | some right =>
      simp only [step, hright, close]
      constructor
      · intro h
        obtain ⟨t, u, hsplit, hx, hy⟩ := h.predicate_inv rfl
        obtain ⟨u', b', rfl, hsnd, hlist, hparts⟩ := hy.bracket_inv (show (1 : Nat) ≤ 5 by omega)
        rw [← cons_append, ← append_assoc] at hsplit
        obtain ⟨htext, hlast⟩ := append_inj' hsplit rfl
        rw [cons.injEq, Token.bracket.injEq] at hlast
        obtain rfl := Bracket.eq_of_map hlast.1.symm hsnd
        rw [htext]
        exact ⟨.predicate rfl hx (.unsigned hlist), hparts, hnull, by simp⟩
      · rintro ⟨h, hparts, -, -⟩
        obtain ⟨t, u, hsplit, hx, hy⟩ := h.predicate_inv rfl
        have hlist : Reads .postfixed u right := by
          refine hy.postfix_of_arith fun t' ht' => ?_
          have hmem : t' ∈ ts ++ suffixText suffixes := by
            rw [hsplit]
            exact mem_append_right _ (mem_cons_of_mem _ ht')
          rcases mem_append.mp hmem with hmem | hmem
          · rw [hts.rank_eq_zero t' hmem]
            omega
          · rcases rank_suffixText hsuffixes t' hmem with hrank | hrank
            all_goals omega
        rw [hsplit, append_assoc, cons_append]
        exact .predicate rfl hx (.unsigned (.bracket b hlist hparts))
  · refine iff_of_false ?_ fun h => hnull h.2.2.1
    rw [suffixText_concat, ← append_assoc]
    exact not_reads_of_null hnull trivial (by simp [kind])

end Concat

/-- Behind brackets alone a bracket binds to the operand, behind an `IN` to its right side. -/
theorem Arranged.bracket_iff {suffixes : List (Suffix (Built α))} (h : Arranged suffixes)
    (hnull : ofKind .null suffixes = []) :
    ((∀ operand, .listIn operand ∉ suffixExprs suffixes) → ∀ suffix ∈ suffixes, suffix.IsBracket) ↔
      ofKind .string suffixes = [] ∨ ofKind .list suffixes ≠ [] := by
  have hsorted := h.sorted
  rw [hnull, append_nil] at hsorted
  have hlistIn : ∀ operand : Built α, .listIn operand ∈ suffixes → .listIn operand.2 ∈ suffixExprs suffixes := by
    intro operand hmem
    exact mem_map.mpr ⟨_, hmem, rfl⟩
  constructor
  · intro hbrackets
    by_contra hcon
    rw [not_or, not_not] at hcon
    refine hcon.1 (filter_eq_nil_iff.mpr fun suffix hsuffix => ?_)
    have hbracket := hbrackets (fun operand hmem => ?_) suffix hsuffix
    · cases suffix with
      | bracket b => simp [kind]
      | _ => exact hbracket.elim
    · have hlist : .listIn operand ∈ ofKind .list (suffixExprs suffixes) :=
        mem_filter.mpr ⟨hmem, by simp [kind]⟩
      rw [ofKind_suffixExprs, hcon.2] at hlist
      cases hlist
  · intro hor hnone suffix hsuffix
    have hmem : ∀ suffix ∈ ofKind .list suffixes, suffix.IsBracket := by
      intro suffix hsuffix
      have hkind := kind_of_mem_ofKind hsuffix
      have hin := (mem_filter.mp hsuffix).1
      cases suffix with
      | bracket b => trivial
      | listIn operand => exact absurd (hlistIn operand hin) (hnone operand.2)
      | _ => cases hkind
    rcases hor with hstring | hlist
    · rw [hstring, nil_append] at hsorted
      exact hmem suffix (hsorted ▸ hsuffix)
    · by_cases hstring : ofKind .string suffixes = []
      · rw [hstring, nil_append] at hsorted
        exact hmem suffix (hsorted ▸ hsuffix)
      · obtain ⟨first, rest, hcons⟩ := exists_cons_of_ne_nil hlist
        have hfirst := hmem first (by simp [hcons])
        cases first with
        | bracket b => exact absurd (by rw [hcons]; rfl) (h.bracket hstring b)
        | _ => exact hfirst.elim

/-! ### The whole atomic expression -/

lemma reads_assembleAtomic_iff {operand : Built α} (hoperand : IsOperandText operand.1)
    (suffixes : List (Suffix (Built α))) (hsuffixes : ∀ suffix ∈ suffixes, suffix.HasOperandText) :
    Reads (.predicate .unary) (operand.1 ++ suffixText suffixes)
        (assembleAtomic operand.2 (suffixExprs suffixes)) ↔
      Reads .postfixed operand.1 operand.2 ∧ (∀ suffix ∈ suffixes, suffix.Kept) ∧ Arranged suffixes := by
  -- by induction on the suffixes, the last one first
  induction suffixes using reverseRecOn with
  | nil =>
    show Reads _ (operand.1 ++ []) operand.2 ↔ _
    rw [append_nil]
    constructor
    · intro h
      exact ⟨h.postfix_of_rank_zero hoperand.rank_eq_zero, by simp, arranged_nil⟩
    · exact fun h => h.1.predicate_of_postfixed
  | append_singleton suffixes suffix ih =>
    have hinit : ∀ suffix ∈ suffixes, suffix.HasOperandText := fun s hs =>
      hsuffixes s (mem_append_left _ hs)
    have hlast : suffix.HasOperandText := hsuffixes suffix (by simp)
    rw [forall_mem_append, forall_mem_singleton]
    cases suffix with
    | nullExp negated =>
      rw [reads_nullExp_iff, ih hinit, arranged_nullExp_iff]
      show _ ↔ _ ∧ (_ ∧ True) ∧ _
      rw [and_true]
    | listIn o =>
      rw [reads_listIn_iff hlast, ih hinit, arranged_listIn_iff]
      show _ ↔ _ ∧ (_ ∧ Reads .postfixed o.1 o.2) ∧ _
      tauto
    | stringExp p o =>
      rw [reads_stringExp_iff hlast, ih hinit, arranged_stringExp_iff]
      show _ ↔ _ ∧ (_ ∧ Reads .postfixed o.1 o.2) ∧ _
      tauto
    | bracket b =>
      rw [reads_bracketSuffix_iff hoperand hinit, ih hinit, arranged_bracket_iff]
      show _ ↔ _ ∧ (_ ∧ ∀ part ∈ b.parts, Reads (.logic .or) part.1 part.2) ∧ _
      constructor
      · rintro ⟨⟨ho, hkept, harranged⟩, hparts, hnull, hbrackets⟩
        exact ⟨ho, ⟨hkept, hparts⟩, harranged, hnull, (harranged.bracket_iff hnull).mp hbrackets⟩
      · rintro ⟨ho, ⟨hkept, hparts⟩, harranged, hnull, hor⟩
        exact ⟨⟨ho, hkept, harranged⟩, hparts, hnull, (harranged.bracket_iff hnull).mpr hor⟩

lemma Reads.negate_inv (h : Reads (.predicate .unary) ts (.unaryOp .NEGATE e)) :
    ∃ t, ts = .minus :: t ∧ Reads .postfixed t e := by
  generalize he : unaryOp .NEGATE e = x at h
  cases h with
  | arithmetic hinner =>
    cases hinner with
    | unsigned hpostfix =>
      cases hpostfix with
      | bracket b _ _ =>
        generalize b.map snd = b' at he
        cases b'
        all_goals cases he
      | _ => cases he
    | negate hpostfix =>
      cases he
      exact ⟨_, rfl, hpostfix⟩
    | tighter ha _ => exact absurd rfl ha
    | arith _ _ _ => cases he
  | predicate _ _ _ => cases he
  | nullCheck negated _ =>
    cases negated
    all_goals cases he

/-- A sign in front: `NEGATE` is never rotated, so no predicate may follow. -/
theorem reads_negate_iff {operand : Built α} (hoperand : IsOperandText operand.1)
    (suffixes : List (Suffix (Built α))) (hsuffixes : ∀ suffix ∈ suffixes, suffix.HasOperandText) :
    Reads (.predicate .unary) (.minus :: (operand.1 ++ suffixText suffixes))
        (.unaryOp .NEGATE (assembleAtomic operand.2 (suffixExprs suffixes))) ↔
      Reads .postfixed operand.1 operand.2 ∧ (∀ suffix ∈ suffixes, suffix.Kept) ∧
        ∀ suffix ∈ suffixes, suffix.IsBracket := by
  have hinner : Reads (.predicate .unary) (.minus :: (operand.1 ++ suffixText suffixes))
      (.unaryOp .NEGATE (assembleAtomic operand.2 (suffixExprs suffixes))) ↔
      Reads .postfixed (operand.1 ++ suffixText suffixes)
        (assembleAtomic operand.2 (suffixExprs suffixes)) := by
    constructor
    · intro h
      obtain ⟨t, ht, hreads⟩ := h.negate_inv
      rwa [(cons.inj ht).2]
    · exact fun h => .arithmetic (.negate h)
  rw [hinner, reads_postfix_iff hoperand, reads_assembleAtomic_iff hoperand suffixes hsuffixes]
  constructor
  · exact fun h => ⟨h.1.1, h.1.2.1, h.2⟩
  · rintro ⟨ho, hkept, hbrackets⟩
    refine ⟨⟨ho, hkept, ?_, ?_⟩, hbrackets⟩
    · have hnone : ∀ kind, kind ≠ .list → ofKind kind suffixes = [] := by
        intro kind hkind
        refine filter_eq_nil_iff.mpr fun suffix hsuffix => ?_
        have hbracket := hbrackets suffix hsuffix
        cases suffix with
        | bracket b =>
          rw [Suffix.kind, decide_eq_true_iff]
          exact hkind.symm
        | _ => exact hbracket.elim
      rw [hnone .string (by simp), hnone .null (by simp), nil_append, append_nil]
      refine (filter_eq_self.mpr fun suffix hsuffix => ?_).symm
      have hbracket := hbrackets suffix hsuffix
      cases suffix with
      | bracket b => simp [Suffix.kind]
      | _ => exact hbracket.elim
    · intro hstring
      refine absurd (filter_eq_nil_iff.mpr fun suffix hsuffix => ?_) hstring
      have hbracket := hbrackets suffix hsuffix
      cases suffix with
      | bracket b => simp [Suffix.kind]
      | _ => exact hbracket.elim

end Eugraph.Cypher
