import Eugraph.Query.DataChunk

/-!
# LIMIT

`limit_physical_op.cpp` over a child without side effects: chunks are passed on while they
fit, the chunk in which the limit falls is cut.
-/

namespace Eugraph.Dataset

open List

namespace LimitPhysicalOp

def executeChunk : Nat → List DataChunk → List DataChunk
  | _, [] => []
  | remaining, chunk :: rest =>
    if remaining = 0 then []
    else if chunk.count ≤ remaining then chunk :: executeChunk (remaining - chunk.count) rest
    else [chunk.select (range remaining)]

lemma executeChunk_rows (remaining : Nat) (input : List DataChunk) :
    streamRows (executeChunk remaining input) = (streamRows input).take remaining := by
  induction input generalizing remaining with
  | nil => simp [executeChunk, streamRows]
  | cons chunk rest ih =>
    have hlength : chunk.rows.length = chunk.count := by simp [DataChunk.rows]
    have hsplit : streamRows (chunk :: rest) = chunk.rows ++ streamRows rest := rfl
    unfold executeChunk
    split
    next hzero => simp [hzero, streamRows]
    next =>
      split
      next hfits =>
        rw [hsplit, take_append, take_of_length_le (by omega), hlength, ← ih]
        rfl
      next hcut =>
        rw [hsplit, take_append_of_le_length (by omega)]
        have hkept : chunk.rows.take remaining = (chunk.select (range remaining)).rows := by
          rw [DataChunk.rows_select, DataChunk.rows, ← map_take, take_range, Nat.min_eq_left (by omega)]
        simp [streamRows, hkept]

end LimitPhysicalOp

end Eugraph.Dataset
