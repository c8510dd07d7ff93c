import Eugraph.Query.LimitOperator

/-!
# SKIP and LIMIT

A limit above a skip (`limit_physical_op.cpp`, `skip_physical_op.cpp`).  Both are pulled, so a
chunk comes with what its child had not been asked for by then.  The numbers are those of the
clauses: `evaluateSkip` and `evaluateLimit` refuse what is no integer or negative.  The limit
hint ends at the skip, which does not keep the number of rows.
-/

namespace Eugraph.Dataset

open List

/-- A chunk, and the chunks of the input that had not been read when it was handed on. -/
abbrev Pull := DataChunk × List DataChunk

/-- The second loop, which hands on what is left. -/
def SkipPhysicalOp.passThrough : List DataChunk → List Pull
  | [] => []
  | chunk :: rest => (chunk, rest) :: passThrough rest

def SkipPhysicalOp.executeChunk : Nat → List DataChunk → List Pull
  | _, [] => []
  | remaining, chunk :: rest =>
    if chunk.count ≤ remaining then executeChunk (remaining - chunk.count) rest
    else if 0 < remaining then
      (chunk.select ((range (chunk.count - remaining)).map (remaining + ·)), rest) :: passThrough rest
    else (chunk, rest) :: executeChunk remaining rest

/-- The limit over its pulled child, and the input that stays unread.  A child with side effects
is read to its end, and so is then the input below it. -/
def LimitPhysicalOp.pull (mayHaveSideEffects : Bool) : Nat → List DataChunk → List Pull →
    List DataChunk × List DataChunk
  | 0, unread, _ => ([], if mayHaveSideEffects then [] else unread)
  | _ + 1, _, [] => ([], [])
  | remaining + 1, _, (chunk, unread) :: rest =>
    if chunk.count ≤ remaining + 1 then
      let (emitted, left) := pull mayHaveSideEffects (remaining + 1 - chunk.count) unread rest
      (chunk :: emitted, left)
    else ([chunk.select (range (remaining + 1))], if mayHaveSideEffects then [] else unread)

/-- `Limit(Skip(input))`. -/
def skipLimit (mayHaveSideEffects : Bool) (skip limit : Nat) (input : List DataChunk) :
    List DataChunk × List DataChunk :=
  LimitPhysicalOp.pull mayHaveSideEffects limit input (SkipPhysicalOp.executeChunk skip input)

lemma streamRows_cons (chunk : DataChunk) (rest : List DataChunk) :
    streamRows (chunk :: rest) = chunk.rows ++ streamRows rest := rfl

lemma DataChunk.length_rows (chunk : DataChunk) : chunk.rows.length = chunk.count := by simp [DataChunk.rows]

lemma SkipPhysicalOp.map_passThrough (input : List DataChunk) : (passThrough input).map (·.1) = input := by
  induction input with
  | nil => rfl
  | cons chunk rest ih => rw [passThrough, map_cons, ih]

/-- The rows of a chunk from the cut on. -/
theorem DataChunk.rows_select_from (chunk : DataChunk) {n : Nat} (h : n ≤ chunk.count) :
    (chunk.select ((range (chunk.count - n)).map (n + ·))).rows = chunk.rows.drop n := by
  rw [rows_select, DataChunk.rows, ← map_drop, map_map]
  conv_rhs => rw [show chunk.count = n + (chunk.count - n) by omega, range_add, drop_left' (length_range), map_map]

lemma SkipPhysicalOp.executeChunk_rows (remaining : Nat) (input : List DataChunk) :
    streamRows ((executeChunk remaining input).map (·.1)) = (streamRows input).drop remaining := by
  induction input generalizing remaining with
  | nil => simp [executeChunk, streamRows]
  | cons chunk rest ih =>
    have hlength := chunk.length_rows
    rw [executeChunk, streamRows_cons, drop_append, hlength]
    split
    next hskipped =>
      have hnone : chunk.rows.drop remaining = [] := drop_eq_nil_of_le (by omega)
      rw [ih, hnone, nil_append]
    next hcut =>
      split
      · rw [map_cons, map_passThrough, streamRows_cons, DataChunk.rows_select_from chunk (by omega),
          Nat.sub_eq_zero_of_le (by omega), drop_zero]
      · have hzero : remaining = 0 := by omega
        rw [map_cons, streamRows_cons, ih, hzero, Nat.zero_sub, drop_zero, drop_zero]

lemma LimitPhysicalOp.pull_emitted (mayHaveSideEffects : Bool) (remaining : Nat) (unread : List DataChunk)
    (pulls : List Pull) :
    (pull mayHaveSideEffects remaining unread pulls).1 = executeChunk remaining (pulls.map (·.1)) := by
  induction pulls generalizing remaining unread with
  | nil => cases remaining <;> rfl
  | cons p rest ih =>
    cases remaining with
    | zero => simp [pull, executeChunk]
    | succ remaining =>
      rw [pull, map_cons, executeChunk, if_neg (Nat.succ_ne_zero _)]
      split
      · rw [← ih _ p.2]
      · rfl

lemma LimitPhysicalOp.pull_drained (remaining : Nat) (unread : List DataChunk) (pulls : List Pull) :
    (pull true remaining unread pulls).2 = [] := by
  induction pulls generalizing remaining unread with
  | nil => cases remaining <;> rfl
  | cons p rest ih =>
    cases remaining with
    | zero => rfl
    | succ remaining =>
      rw [pull]
      split
      · exact ih _ _
      · rfl

/-- A skip and a limit cut one slice out of the rows, and a child that writes is read to its end. -/
theorem skipLimit_rows (mayHaveSideEffects : Bool) (skip limit : Nat) (input : List DataChunk) :
    streamRows (skipLimit mayHaveSideEffects skip limit input).1 = ((streamRows input).drop skip).take limit ∧
      (mayHaveSideEffects = true → (skipLimit mayHaveSideEffects skip limit input).2 = []) := by
  constructor
  · rw [skipLimit, LimitPhysicalOp.pull_emitted, LimitPhysicalOp.executeChunk_rows, SkipPhysicalOp.executeChunk_rows]
  · rintro rfl
    exact LimitPhysicalOp.pull_drained ..

end Eugraph.Dataset
