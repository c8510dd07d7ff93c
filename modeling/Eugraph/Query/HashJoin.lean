import Eugraph.Lib.HashTable
import Eugraph.Lib.Joins
import Eugraph.Query.LeftJoin
import Eugraph.Query.SemiJoin
import Eugraph.Query.ValueEquality

/-!
# Hash join

`hash_join_physical_op.cpp` files the right rows in a hash table under their key columns
and looks each left row up in it.  It stands for `cross_product_physical_op.cpp` under a
filter that compares the key columns.  A left and a right row meet when their keys are
equal and their hashes are too, so the two agree just where equal keys are written alike.
-/

namespace Eugraph.Dataset

open Lib List Function Lib.HashTable DataChunk LeftJoinPhysicalOp

/-! ### Keys -/

abbrev Key := List Value

/-- `KeyHash`. -/
def keyHash (std : StdHash) (key : Key) : UInt64 := elementsHash std 0x9e3779b9 key

/-- `KeyEq`. -/
def keyEq (a b : Key) : Bool :=
  a.length = b.length && (a.zip b).all fun values => joinValueEquals values.1 values.2

/-- A lookup of `key` stops at the stored key: the hashes are compared, then the keys. -/
def keyFound (std : StdHash) (key stored : Key) : Bool :=
  keyHash std key = keyHash std stored && keyEq key stored

/-- The key columns of a row. -/
def keyOf (cols : List Nat) (row : Row) : Key := cols.map fun col => (row[col]?).getD .null

/-! ### The operator -/

structure HashJoinPhysicalOp where
  left_key_cols : List Nat
  right_key_cols : List Nat
  output_types : List BoundTypeKind

namespace HashJoinPhysicalOp

variable (op : HashJoinPhysicalOp)

/-- The right rows in the order they are filed, each with its key. -/
def buildRows (right : List DataChunk) : List (Key × Row) :=
  right.flatMap fun chunk =>
    (range chunk.count).map fun row =>
      (op.right_key_cols.map (chunk.getValue · row), chunk.row row)

/-- The width of the last right chunk that has rows. -/
def rightCols (right : List DataChunk) : Nat :=
  (right.filter (0 < ·.count)).getLast?.elim 0 (·.columns.length)

/-- What one left row adds to the output. -/
def probeLines (std : StdHash) (table : List (Key × List Row)) (left_chunk : DataChunk)
    (row : Nat) : List (List Cell) :=
  let key := op.left_key_cols.map (left_chunk.getValue · row)
  (HashTable.lookup (keyFound std) key table).map fun right_vals =>
    leftCells left_chunk row ++ right_vals.map Cell.value

def executeChunk (std : StdHash) (left right : List DataChunk) : List DataChunk :=
  let hash_table := ofList (keyFound std) (op.buildRows right)
  left.flatMap fun left_chunk =>
    if left_chunk.count = 0 then []
    else
      let left_cols := left_chunk.columns.length
      let kinds := left_chunk.columns.map Column.type ++
        (op.output_types.drop left_cols).take (rightCols right)
      let lines := (range left_chunk.count).flatMap (op.probeLines std hash_table left_chunk)
      (lines.foldl (ChunkOutput.emitRow kinds) (ChunkOutput.start kinds)).finish

end HashJoinPhysicalOp

open HashJoinPhysicalOp

lemma getValue_eq (chunk : DataChunk) (col i : Nat) : chunk.getValue col i = ((chunk.row i)[col]?).getD .null := by
  simp only [getValue, row, List.getElem?_map]
  cases chunk.columns[col]? <;> rfl

lemma keyOf_row (cols : List Nat) (chunk : DataChunk) (i : Nat) :
    cols.map (chunk.getValue · i) = keyOf cols (chunk.row i) :=
  map_congr_left fun col _ => getValue_eq chunk col i

/-! ### The plan -/

namespace HashJoinPhysicalOp

/-- What the planner gives the two operators: as many key columns on each side, inputs of
the widths of the schemas, right rows that fit the output types. -/
structure Planned (op : HashJoinPhysicalOp) (left_cols right_cols : Nat)
    (left right : List DataChunk) : Prop where
  keys : op.left_key_cols.length = op.right_key_cols.length
  left_keys : ∀ col ∈ op.left_key_cols, col < left_cols
  left_width : ∀ chunk ∈ left, chunk.columns.length = left_cols
  right_width : ∀ chunk ∈ right, chunk.columns.length = right_cols
  typed : ∀ row ∈ streamRows right, Forall₂ Fits (op.output_types.drop left_cols) row

section Rows

variable {op : HashJoinPhysicalOp} {left_cols right_cols : Nat} {left right : List DataChunk}

lemma width_of_mem {width : Nat} (h : ∀ chunk ∈ left, chunk.columns.length = width) :
    ∀ row ∈ streamRows left, row.length = width := by
  intro row hrow
  obtain ⟨chunk, hchunk, hmem⟩ := mem_flatMap.mp hrow
  obtain ⟨i, _, rfl⟩ := mem_map.mp hmem
  simpa [DataChunk.row] using h chunk hchunk

lemma buildRows_eq (op : HashJoinPhysicalOp) (right : List DataChunk) :
    op.buildRows right = (streamRows right).map fun r => (keyOf op.right_key_cols r, r) := by
  simp only [buildRows, streamRows, rows, map_flatMap, map_map, comp_def, keyOf_row]

/-- The right columns of the output are those of the right rows. -/
theorem rightCols_of_mem (h : Planned op left_cols right_cols left right) {r : Row} (hr : r ∈ streamRows right) :
    rightCols right = r.length := by
  obtain ⟨chunk, hchunk, hmem⟩ := mem_flatMap.mp hr
  obtain ⟨i, hi, -⟩ := mem_map.mp hmem
  have hcount : 0 < chunk.count := by
    have := mem_range.mp hi
    omega
  have hne : right.filter (0 < ·.count) ≠ [] :=
    ne_nil_of_mem (mem_filter.mpr ⟨hchunk, by simpa using hcount⟩)
  have hlast : (right.filter (0 < ·.count)).getLast hne ∈ right := (mem_filter.mp (getLast_mem hne)).1
  rw [rightCols, getLast?_eq_some_getLast hne, Option.elim_some,
    h.right_width _ hlast, width_of_mem h.right_width r hr]

/-- A left row is joined with the right rows its lookup finds. -/
theorem executeChunk_rows (h : Planned op left_cols right_cols left right) {std : StdHash} {K : Set Key}
    (hgroups : Groups (keyFound std) K)
    (hleft : ∀ l ∈ streamRows left, keyOf op.left_key_cols l ∈ K)
    (hright : ∀ r ∈ streamRows right, keyOf op.right_key_cols r ∈ K) :
    streamRows (op.executeChunk std left right) = (streamRows left).flatMap fun l =>
      ((streamRows right).filter fun r =>
        keyFound std (keyOf op.left_key_cols l) (keyOf op.right_key_cols r)).map (l ++ ·) := by
  have hlookup : ∀ l ∈ streamRows left, HashTable.lookup (keyFound std) (keyOf op.left_key_cols l)
          (ofList (keyFound std) (op.buildRows right)) =
        (streamRows right).filter fun r =>
          keyFound std (keyOf op.left_key_cols l) (keyOf op.right_key_cols r) := by
    intro l hl
    rw [buildRows_eq, lookup_ofList hgroups ?_ (hleft l hl), filter_map, map_map]
    · simp [comp_def]
    · intro entry hentry
      obtain ⟨r, hr, rfl⟩ := mem_map.mp hentry
      exact hright r hr
  have hstream : streamRows left = left.flatMap rows := rfl
  unfold executeChunk
  rw [streamRows_flatMap, hstream, flatMap_assoc]
  refine flatMap_congr fun left_chunk hchunk => ?_
  have hmem : ∀ i ∈ range left_chunk.count, left_chunk.row i ∈ streamRows left :=
    fun i hi => mem_flatMap.mpr ⟨left_chunk, hchunk, mem_map.mpr ⟨i, hi, rfl⟩⟩
  -- the lines of one left row, as rows
  have hlines : ∀ i ∈ range left_chunk.count,
      (op.probeLines std (ofList (keyFound std) (op.buildRows right)) left_chunk i).map
          (fun cells => cells.map Cell.content) =
        ((streamRows right).filter fun r => keyFound std (keyOf op.left_key_cols (left_chunk.row i))
          (keyOf op.right_key_cols r)).map (left_chunk.row i ++ ·) := by
    intro i hi
    rw [probeLines, keyOf_row, hlookup _ (hmem i hi), map_map]
    refine map_congr_left fun r _ => ?_
    simp [leftCells_content, comp_def, Cell.content]
  split
  next hzero => simp [streamRows, rows, hzero]
  next =>
    rw [((ChunkOutput.filling_start _).foldl_emitRow _ ?_).finish]
    · rw [nil_append, map_flatMap, rows, flatMap_map]
      exact flatMap_congr hlines
    · intro cells hcells
      obtain ⟨i, hi, hline⟩ := mem_flatMap.mp hcells
      rw [probeLines, keyOf_row, hlookup _ (hmem i hi)] at hline
      obtain ⟨r, hr, rfl⟩ := mem_map.mp hline
      have hr' : r ∈ streamRows right := (mem_filter.mp hr).1
      have hfits := h.typed r hr'
      have hcols : (op.output_types.drop left_chunk.columns.length).take
          (rightCols right) = op.output_types.drop left_cols := by
        rw [rightCols_of_mem h hr', ← hfits.length_eq, h.left_width left_chunk hchunk, take_length]
      apply rel_append (leftCells_fit left_chunk i)
      rw [hcols, forall₂_map_right_iff]
      exact hfits

end Rows

/-! ### Two numbers -/

end HashJoinPhysicalOp

end Eugraph.Dataset
