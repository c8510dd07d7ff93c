import Eugraph.Query.ChunkWriter

/-!
# The leaf of a correlated sub-plan

`correlated_source_physical_op.cpp`: the operator that hands the values of outer rows to a
sub-plan, one row at a time or a batch of rows in one chunk.  Its columns are typed by the
values of the first row.
-/

namespace Eugraph.Dataset

open Lib List

def kindFromValue : Value → BoundTypeKind
  | .vertexRef _ => .VERTEX_REF
  | .vertex _ => .VERTEX
  | .edgeKey _ => .EDGE_KEY
  | .edge _ => .EDGE
  | .pathTopology _ => .PATH_TOPOLOGY
  | .path _ => .PATH
  | .bool _ => .BOOL
  | .int64 _ => .INT64
  | .double _ => .DOUBLE
  | .string _ => .STRING
  | .list _ => .LIST
  | .map _ => .MAP
  | _ => .ANY

/-- The columns of the declared variables; `types` is their number. -/
structure CorrelatedSourcePhysicalOp where
  types : Nat

namespace CorrelatedSourcePhysicalOp

/-- The chunk of the rows set before; without rows there is none. -/
def executeChunk (source : CorrelatedSourcePhysicalOp) (rows : List Row) : List DataChunk :=
  match rows with
  | [] => []
  | first :: _ =>
    let n_cols := min source.types first.length
    let kinds := (first.take n_cols).map kindFromValue
    [rows.foldl (fun chunk row => chunk.writeRow ((row.take n_cols).map Cell.value))
      (DataChunk.ofKinds kinds rows.length)]

end CorrelatedSourcePhysicalOp

/-- The row `setRowFromChunk` injects: the correlation columns the chunk has. -/
def correlatedRow (chunk : DataChunk) (cols : List Nat) (row : Nat) : Row :=
  (cols.filter (· < chunk.columns.length)).map fun col => chunk.getValue col row

/-! ### What the sub-plan reads -/

lemma fits_kindFromValue (v : Value) : Fits (kindFromValue v) v := by
  cases v with
  | null => exact .inl rfl
  | _ => exact .inr ⟨_, rfl, rfl⟩

/-- The rows of a batch are those that were set, if each value fits the column its first
row made. -/
theorem sourceRows (source : CorrelatedSourcePhysicalOp) (first : Row) (rest : List Row)
    (hfits : ∀ row ∈ first :: rest, List.Forall₂ (fun u v => Fits (kindFromValue u) v) first row) :
    streamRows (source.executeChunk (first :: rest)) = (first :: rest).map (·.take source.types) := by
  have hlength : ∀ row ∈ first :: rest, row.length = first.length := fun row hmem => (hfits row hmem).length_eq.symm
  have htake : ∀ row ∈ first :: rest, row.take (min source.types first.length) = row.take source.types := by
    intro row hmem
    rw [← hlength row hmem]
    rcases Nat.le_total source.types row.length with hle | hle
    · rw [Nat.min_eq_left hle]
    · rw [Nat.min_eq_right hle, take_length, take_of_length_le hle]
  have hholds := (DataChunk.holds_ofKinds ((first.take (min source.types first.length)).map kindFromValue)
      (first :: rest).length).foldl_writeRow
    ((first :: rest).map fun row => (row.take (min source.types first.length)).map Cell.value)
    (by simp)
    (by
      intro cells hcells
      obtain ⟨row, hmem, rfl⟩ := mem_map.mp hcells
      rw [forall₂_map_left_iff, forall₂_map_right_iff]
      exact forall₂_take _ (hfits row hmem))
  have hrows := hholds.rows_eq
  rw [foldl_map] at hrows
  simp only [streamRows, CorrelatedSourcePhysicalOp.executeChunk, flatMap_cons, flatMap_nil, append_nil]
  rw [hrows]
  simp only [nil_append, map_map]
  apply map_congr_left
  intro row hmem
  rw [← htake row hmem]
  simp [Cell.content, Function.comp_def]

/-- One row is read back as it is. -/
theorem sourceRow (source : CorrelatedSourcePhysicalOp) (row : Row) :
    streamRows (source.executeChunk [row]) = [row.take source.types] := by
  refine sourceRows source row [] fun r hmem => ?_
  rw [mem_singleton.mp hmem]
  exact forall₂_same.mpr fun v _ => fits_kindFromValue v

/-! ### Batches of left rows -/

lemma streamRows_flatMap {α : Type*} (f : α → List DataChunk) (xs : List α) :
    streamRows (xs.flatMap f) = xs.flatMap fun x => streamRows (f x) := by
  simp [streamRows, flatMap_assoc]

/-- A sub-plan that keeps some of the rows of each chunk. -/
lemma streamRows_select (p : Row → Bool) (stream : List DataChunk) :
    streamRows (stream.map fun chunk => chunk.select ((range chunk.count).filter fun i => p (chunk.row i))) =
      (streamRows stream).filter p := by
  rw [streamRows, flatMap_map, streamRows, filter_flatMap]
  refine flatMap_congr fun chunk _ => ?_
  rw [DataChunk.rows_select, DataChunk.rows, filter_map]
  rfl

/-- The rows of a chunk fit columns of its column types. -/
theorem DataChunk.rows_fit (chunk : DataChunk) :
    ∀ row ∈ chunk.rows, List.Forall₂ Fits (chunk.columns.map Column.type) row := by
  intro row hrow
  obtain ⟨i, -, rfl⟩ := mem_map.mp hrow
  rw [DataChunk.row, forall₂_map_left_iff, forall₂_map_right_iff]
  exact forall₂_same.mpr fun col _ => col.fits_getValue i

namespace CorrelatedJoin

/-- The left rows in groups of the batch size; the first list is the group being filled. -/
def batches (batch_limit : Nat) : List Row → List Row → List (List Row)
  | batch, [] => if batch = [] then [] else [batch]
  | batch, row :: rest =>
    if batch_limit ≤ (batch ++ [row]).length then
      (batch ++ [row]) :: batches batch_limit [] rest
    else batches batch_limit (batch ++ [row]) rest

/-- The column types of the first chunk with rows. -/
def leftKinds (left : List DataChunk) : List BoundTypeKind :=
  match left.find? fun chunk => 0 < chunk.count with
  | some chunk => chunk.columns.map Column.type
  | none => []

/-- The values of the correlation columns. -/
def corrRow (cols : List Nat) (row : Row) : Row := cols.map fun col => (row[col]?).getD .null

/-- The same, of the columns the row has. -/
def correlationOf (cols : List Nat) (row : Row) : Row :=
  (cols.filter (· < row.length)).map fun col => (row[col]?).getD .null

lemma correlationOf_eq {cols : List Nat} {row : Row} (h : ∀ col ∈ cols, col < row.length) :
    correlationOf cols row = corrRow cols row := by
  unfold correlationOf corrRow
  rw [filter_eq_self.mpr fun col hcol => decide_eq_true (h col hcol)]

lemma correlatedRow_eq (cols : List Nat) (chunk : DataChunk) (i : Nat) :
    correlatedRow chunk cols i = correlationOf cols (chunk.row i) := by
  have hlength : (chunk.row i).length = chunk.columns.length := by simp [DataChunk.row]
  unfold correlatedRow correlationOf
  rw [hlength]
  apply map_congr_left
  intro col _
  cases hcol : chunk.columns[col]? <;> simp [DataChunk.getValue, DataChunk.row, hcol]

lemma batches_flatten (batch_limit : Nat) (batch rows : List Row) :
    (batches batch_limit batch rows).flatten = batch ++ rows := by
  induction rows generalizing batch with
  | nil =>
    unfold batches
    split <;> simp_all
  | cons row rest ih =>
    unfold batches
    split <;> simp [ih]

variable {left : List DataChunk}

/-- A stream with a row has a first chunk with rows. -/
theorem leftKinds_of_row {row : Row} (hrow : row ∈ streamRows left) :
    ∃ first ∈ left, leftKinds left = first.columns.map Column.type := by
  obtain ⟨chunk, hchunk, hmem⟩ := mem_flatMap.mp hrow
  have hcount : 0 < chunk.count := by
    obtain ⟨i, hi, -⟩ := mem_map.mp hmem
    exact Nat.zero_lt_of_lt (mem_range.mp hi)
  unfold leftKinds
  cases hfind : left.find? fun chunk => decide (0 < chunk.count) with
  | none =>
    have hnone := List.find?_eq_none.mp hfind chunk hchunk
    simp [hcount] at hnone
  | some first => exact ⟨first, List.mem_of_find?_eq_some hfind, rfl⟩

/-- Where all chunks have the column types of the first, every row fits them. -/
theorem fits_of_stable_kinds {kinds : List BoundTypeKind}
    (h : ∀ chunk ∈ left, chunk.columns.map Column.type = kinds) :
    ∀ row ∈ streamRows left, List.Forall₂ Fits (leftKinds left) row := by
  intro row hrow
  obtain ⟨chunk, hchunk, hmem⟩ := mem_flatMap.mp hrow
  obtain ⟨first, hfirst, hkinds⟩ := leftKinds_of_row hrow
  rw [hkinds, h first hfirst, ← h chunk hchunk]
  exact chunk.rows_fit row hmem

/-- A batch is read by the sub-plan as it is, if in each of its correlation columns the
values fit the column the first row's value makes: nulls do, and values of its kind. -/
theorem sourceRows_of_batch (source : CorrelatedSourcePhysicalOp) (cols : List Nat) (batch : List Row)
    (hwritten : ∀ first ∈ batch.head?, ∀ row ∈ batch,
      List.Forall₂ (fun u v => Fits (kindFromValue u) v) (corrRow cols first) (corrRow cols row)) :
    streamRows (source.executeChunk (batch.map (corrRow cols))) =
      batch.map fun row => (corrRow cols row).take source.types := by
  cases batch with
  | nil => rfl
  | cons first rest =>
    have h := sourceRows source (corrRow cols first) (rest.map (corrRow cols)) (by
      intro r hr
      rw [← map_cons] at hr
      obtain ⟨r', hr', rfl⟩ := mem_map.mp hr
      exact hwritten first rfl r' hr')
    rw [← map_cons] at h
    rw [h, map_map]
    rfl

end CorrelatedJoin

end Eugraph.Dataset
