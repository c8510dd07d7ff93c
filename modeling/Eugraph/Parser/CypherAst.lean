import Eugraph.Optimizer.BoundExpression

/-!
# Operator expressions and their builder

`AstBuilder` walks the tree of the grammar, where `IN`, `STARTS WITH`, `ENDS WITH`,
`CONTAINS` and `IS NULL` stand below arithmetic, and rotates the tree it has built until
they stand above.  Atoms are opaque: literals, variables, calls and whatever else is built
without an operator on top.  Labels and a leading `+` are left out.
-/

namespace Eugraph.Cypher

open Optimizer (BinaryOperator UnaryOperator)

variable {α : Type}

/-! ### Expressions -/

/-- `cypher::Expression`; a slice has a constructor for each choice of its two bounds. -/
inductive Expression (α : Type)
  | atom (a : α)
  | paren (inner : Expression α)
  | binaryOp (op : BinaryOperator) (left right : Expression α)
  | unaryOp (op : UnaryOperator) (operand : Expression α)
  | subscript (list index : Expression α)
  | sliceAll (list : Expression α)
  | sliceFrom (list lower : Expression α)
  | sliceTo (list upper : Expression α)
  | slice (list lower upper : Expression α)
  deriving DecidableEq

/-- The operators that are rotated below the predicates. -/
def isArith : BinaryOperator → Bool
  | .ADD | .SUB | .MUL | .DIV | .MOD | .POW => true
  | _ => false

def isBinaryPredicate : BinaryOperator → Bool
  | .IN | .STARTS_WITH | .ENDS_WITH | .CONTAINS => true
  | _ => false

def isNullCheck : UnaryOperator → Bool
  | .IS_NULL | .IS_NOT_NULL => true
  | _ => false

def isAtomicPredicateExpr : Expression α → Bool
  | .binaryOp op _ _ => isBinaryPredicate op
  | .unaryOp op _ => isNullCheck op
  | _ => false

/-- What is done to an arithmetic operator with hoisted operands; `again` is the call on
the tree that has been rebuilt. -/
def rotate (again : Expression α → Option (Expression α)) (op : BinaryOperator)
    (left right : Expression α) : Option (Expression α) :=
  if isAtomicPredicateExpr right then
    match right with
    | .binaryOp p b c => again (.binaryOp p (.binaryOp op left b) c)
    | .unaryOp p b => again (.unaryOp p (.binaryOp op left b))
    | _ => some (.binaryOp op left right)
  else if isAtomicPredicateExpr left then
    match left with
    | .binaryOp p a b => again (.binaryOp p a (.binaryOp op b right))
    | .unaryOp p a => again (.unaryOp p (.binaryOp op a right))
    | _ => some (.binaryOp op left right)
  else some (.binaryOp op left right)

/-- The body of `hoistAtomicPredicates`; `none` when the calls nest deeper than `depth`. -/
def hoistWithin : (depth : Nat) → Expression α → Option (Expression α)
  | 0, _ => none
  | depth + 1, .paren inner => do
      let inner ← hoistWithin depth inner
      return .paren inner
  | depth + 1, .binaryOp op left right => do
      let left ← hoistWithin depth left
      let right ← hoistWithin depth right
      if isArith op then rotate (hoistWithin depth) op left right
      else return .binaryOp op left right
  | _ + 1, e => some e

def Expression.size : Expression α → Nat
  | .atom _ => 1
  | .paren inner => inner.size + 1
  | .binaryOp _ left right => left.size + right.size + 1
  | .unaryOp _ operand => operand.size + 1
  | .subscript list index => list.size + index.size + 1
  | .sliceAll list => list.size + 1
  | .sliceFrom list lower => list.size + lower.size + 1
  | .sliceTo list upper => list.size + upper.size + 1
  | .slice list lower upper => list.size + lower.size + upper.size + 1

/-- Calls nest at most as deep as the expression is large. -/
def hoistAtomicPredicates (e : Expression α) : Expression α := (hoistWithin e.size e).getD e

/-! ### Trees of the grammar

A repetition `x (OP x)*` is a tree that grows to the left, the way the loops of the
builder read it. -/

inductive ComparisonSigns
  | ASSIGN | LE | GE | GT | LT | NOT_EQUAL
  deriving DecidableEq

inductive AddSubSign
  | PLUS | SUB
  deriving DecidableEq

inductive MultDivSign
  | MULT | DIV | MOD
  deriving DecidableEq

inductive StringExpPrefix
  | STARTS | ENDS | CONTAINS
  deriving DecidableEq

mutual

/-- `xorExpression (OR xorExpression)*` -/
inductive ExpressionContext (α : Type)
  | one (x : XorExpressionContext α)
  | more (rest : ExpressionContext α) (x : XorExpressionContext α)

/-- `andExpression (XOR andExpression)*` -/
inductive XorExpressionContext (α : Type)
  | one (a : AndExpressionContext α)
  | more (rest : XorExpressionContext α) (a : AndExpressionContext α)

/-- `notExpression (AND notExpression)*` -/
inductive AndExpressionContext (α : Type)
  | one (n : NotExpressionContext α)
  | more (rest : AndExpressionContext α) (n : NotExpressionContext α)

/-- `NOT* comparisonExpression` -/
inductive NotExpressionContext (α : Type)
  | comparison (c : ComparisonExpressionContext α)
  | not (n : NotExpressionContext α)

/-- `addSubExpression (comparisonSigns addSubExpression)*` -/
inductive ComparisonExpressionContext (α : Type)
  | one (a : AddSubExpressionContext α)
  | more (rest : ComparisonExpressionContext α) (sign : ComparisonSigns)
      (a : AddSubExpressionContext α)

/-- `multDivExpression ((PLUS | SUB) multDivExpression)*` -/
inductive AddSubExpressionContext (α : Type)
  | one (m : MultDivExpressionContext α)
  | more (rest : AddSubExpressionContext α) (sign : AddSubSign) (m : MultDivExpressionContext α)

/-- `powerExpression ((MULT | DIV | MOD) powerExpression)*` -/
inductive MultDivExpressionContext (α : Type)
  | one (p : PowerExpressionContext α)
  | more (rest : MultDivExpressionContext α) (sign : MultDivSign) (p : PowerExpressionContext α)

/-- `unaryAddSubExpression (CARET unaryAddSubExpression)*` -/
inductive PowerExpressionContext (α : Type)
  | one (u : UnaryAddSubExpressionContext α)
  | more (rest : PowerExpressionContext α) (u : UnaryAddSubExpressionContext α)

/-- `SUB? atomicExpression` -/
inductive UnaryAddSubExpressionContext (α : Type)
  | plain (a : AtomicExpressionContext α)
  | sub (a : AtomicExpressionContext α)

/-- `propertyOrLabelExpression (stringExpression | listExpression | nullExpression)*` -/
inductive AtomicExpressionContext (α : Type)
  | mk (operand : PropertyOrLabelExpressionContext α) (suffixes : SuffixesContext α)

/-- The suffixes of an atomic expression in source order. -/
inductive SuffixesContext (α : Type)
  | nil
  | stringExp (p : StringExpPrefix) (operand : PropertyOrLabelExpressionContext α)
      (rest : SuffixesContext α)
  | listIn (operand : PropertyOrLabelExpressionContext α) (rest : SuffixesContext α)
  | bracket (b : BracketContext α) (rest : SuffixesContext α)
  | nullExp (negated : Bool) (rest : SuffixesContext α)

/-- `LBRACK (expression? RANGE expression? | expression) RBRACK` -/
inductive BracketContext (α : Type)
  | subscript (index : ExpressionContext α)
  | sliceAll
  | sliceFrom (lower : ExpressionContext α)
  | sliceTo (upper : ExpressionContext α)
  | slice (lower upper : ExpressionContext α)

inductive PropertyOrLabelExpressionContext (α : Type)
  | atom (a : α)
  | parenthesized (inner : ExpressionContext α)

end

/-! ### Suffixes of an atomic expression -/

/-- A subscript or slice whose parts have been built, or are texts. -/
inductive Bracket (ε : Type)
  | subscript (index : ε)
  | sliceAll
  | sliceFrom (lower : ε)
  | sliceTo (upper : ε)
  | slice (lower upper : ε)

inductive Suffix (ε : Type)
  | stringExp (p : StringExpPrefix) (operand : ε)
  | listIn (operand : ε)
  | bracket (b : Bracket ε)
  | nullExp (negated : Bool)

/-- `ctx->stringExpression()`, `ctx->listExpression()` and `ctx->nullExpression()` each
pick the suffixes of one kind. -/
inductive SuffixKind
  | string | list | null
  deriving DecidableEq

def Suffix.kind {ε : Type} : Suffix ε → SuffixKind
  | .stringExp _ _ => .string
  | .listIn _ => .list
  | .bracket _ => .list
  | .nullExp _ => .null

def ofKind {ε : Type} (kind : SuffixKind) (suffixes : List (Suffix ε)) : List (Suffix ε) :=
  suffixes.filter fun suffix => suffix.kind = kind

def StringExpPrefix.operator : StringExpPrefix → BinaryOperator
  | .STARTS => .STARTS_WITH
  | .ENDS => .ENDS_WITH
  | .CONTAINS => .CONTAINS

/-- One round of the loop over the string suffixes. -/
def applyString (r : Expression α) : Suffix (Expression α) → Expression α
  | .stringExp p operand => .binaryOp p.operator r operand
  | _ => r

def applyListPostfix (base : Expression α) : Bracket (Expression α) → Expression α
  | .subscript index => .subscript base index
  | .sliceAll => .sliceAll base
  | .sliceFrom lower => .sliceFrom base lower
  | .sliceTo upper => .sliceTo base upper
  | .slice lower upper => .slice base lower upper

/-- The loop over the list suffixes: what follows an `IN` binds to its right operand, which
`right` collects up to the next `IN`. -/
structure ListLoop (α : Type) where
  r : Expression α
  right : Option (Expression α)

def ListLoop.close (s : ListLoop α) : Expression α :=
  match s.right with
  | none => s.r
  | some right => .binaryOp .IN s.r right

def ListLoop.step (s : ListLoop α) : Suffix (Expression α) → ListLoop α
  | .listIn operand => ⟨s.close, some operand⟩
  | .bracket b =>
    match s.right with
    | none => ⟨applyListPostfix s.r b, none⟩
    | some right => ⟨s.r, some (applyListPostfix right b)⟩
  | _ => s

def applyLists (r : Expression α) (suffixes : List (Suffix (Expression α))) : Expression α :=
  (suffixes.foldl ListLoop.step ⟨r, none⟩).close

def nullOperator (negated : Bool) : UnaryOperator := if negated then .IS_NOT_NULL else .IS_NULL

/-- One round of the loop over the null suffixes. -/
def applyNull (r : Expression α) : Suffix (Expression α) → Expression α
  | .nullExp negated => .unaryOp (nullOperator negated) r
  | _ => r

/-- `buildAtomicExpr`, after its parts: the string suffixes first, then the list suffixes,
then the null checks. -/
def assembleAtomic (operand : Expression α) (suffixes : List (Suffix (Expression α))) :
    Expression α :=
  let r := (ofKind .string suffixes).foldl applyString operand
  let r := applyLists r (ofKind .list suffixes)
  (ofKind .null suffixes).foldl applyNull r

/-! ### `AstBuilder` -/

/-- `parseCompSign`. -/
def parseCompSign : ComparisonSigns → BinaryOperator
  | .ASSIGN => .EQ
  | .LE => .LTE
  | .GE => .GTE
  | .GT => .GT
  | .LT => .LT
  | .NOT_EQUAL => .NEQ

def AddSubSign.operator : AddSubSign → BinaryOperator
  | .PLUS => .ADD
  | .SUB => .SUB

def MultDivSign.operator : MultDivSign → BinaryOperator
  | .MULT => .MUL
  | .DIV => .DIV
  | .MOD => .MOD

mutual

def buildExpression : ExpressionContext α → Expression α
  | .one x => buildXorExpr x
  | .more rest x => .binaryOp .OR (buildExpression rest) (buildXorExpr x)

def buildXorExpr : XorExpressionContext α → Expression α
  | .one a => buildAndExpr a
  | .more rest a => .binaryOp .XOR (buildXorExpr rest) (buildAndExpr a)

def buildAndExpr : AndExpressionContext α → Expression α
  | .one n => buildNotExpr n
  | .more rest n => .binaryOp .AND (buildAndExpr rest) (buildNotExpr n)

def buildNotExpr : NotExpressionContext α → Expression α
  | .comparison c => (buildComparisonExpr c).1
  | .not n => .unaryOp .NOT (buildNotExpr n)

/-- The conjunction of the comparisons so far, and the last operand, which the next
comparison takes as its left one. -/
def buildComparisonExpr : ComparisonExpressionContext α → Expression α × Expression α
  | .one a => (hoistAtomicPredicates (addSubLoop a), hoistAtomicPredicates (addSubLoop a))
  | .more rest sign a =>
    let comparison := Expression.binaryOp (parseCompSign sign) (buildComparisonExpr rest).2
      (hoistAtomicPredicates (addSubLoop a))
    (match rest with
      | .one _ => comparison
      | .more _ _ _ => .binaryOp .AND (buildComparisonExpr rest).1 comparison,
      hoistAtomicPredicates (addSubLoop a))

/-- `buildAddSubExpr` before it hoists. -/
def addSubLoop : AddSubExpressionContext α → Expression α
  | .one m => hoistAtomicPredicates (mulDivLoop m)
  | .more rest sign m =>
    .binaryOp sign.operator (addSubLoop rest) (hoistAtomicPredicates (mulDivLoop m))

/-- `buildMulDivExpr` before it hoists. -/
def mulDivLoop : MultDivExpressionContext α → Expression α
  | .one p => hoistAtomicPredicates (powerLoop p)
  | .more rest sign p =>
    .binaryOp sign.operator (mulDivLoop rest) (hoistAtomicPredicates (powerLoop p))

/-- `buildPowerExpr` before it hoists. -/
def powerLoop : PowerExpressionContext α → Expression α
  | .one u => buildUnaryExpr u
  | .more rest u => .binaryOp .POW (powerLoop rest) (buildUnaryExpr u)

def buildUnaryExpr : UnaryAddSubExpressionContext α → Expression α
  | .plain a => buildAtomicExpr a
  | .sub a => .unaryOp .NEGATE (buildAtomicExpr a)

def buildAtomicExpr : AtomicExpressionContext α → Expression α
  | .mk operand suffixes => assembleAtomic (buildPropOrLabelExpr operand) (buildSuffixes suffixes)

def buildSuffixes : SuffixesContext α → List (Suffix (Expression α))
  | .nil => []
  | .stringExp p operand rest => .stringExp p (buildPropOrLabelExpr operand) :: buildSuffixes rest
  | .listIn operand rest => .listIn (buildPropOrLabelExpr operand) :: buildSuffixes rest
  | .bracket b rest => .bracket (buildBracket b) :: buildSuffixes rest
  | .nullExp negated rest => .nullExp negated :: buildSuffixes rest

def buildBracket : BracketContext α → Bracket (Expression α)
  | .subscript index => .subscript (buildExpression index)
  | .sliceAll => .sliceAll
  | .sliceFrom lower => .sliceFrom (buildExpression lower)
  | .sliceTo upper => .sliceTo (buildExpression upper)
  | .slice lower upper => .slice (buildExpression lower) (buildExpression upper)

def buildPropOrLabelExpr : PropertyOrLabelExpressionContext α → Expression α
  | .atom a => .atom a
  | .parenthesized inner => .paren (buildExpression inner)

end

def buildAddSubExpr (ctx : AddSubExpressionContext α) : Expression α :=
  hoistAtomicPredicates (addSubLoop ctx)

def buildMulDivExpr (ctx : MultDivExpressionContext α) : Expression α :=
  hoistAtomicPredicates (mulDivLoop ctx)

def buildPowerExpr (ctx : PowerExpressionContext α) : Expression α :=
  hoistAtomicPredicates (powerLoop ctx)

end Eugraph.Cypher
