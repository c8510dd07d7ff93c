import Eugraph.Lib.Joins
import Eugraph.Query.CorrelatedSource

/-!
# OPTIONAL MATCH

`left_join_physical_op.cpp`.  The per-row path runs the right sub-plan once for each left
row; the batch path runs it once for a batch and finds the matches of each left row among
the right rows of the whole batch by comparing correlation columns.  Each left row should
be joined with each of its own matches once, or once with nulls if it has none.
-/

namespace Eugraph.Dataset

open Lib List Function Cell ChunkOutput DataChunk CorrelatedJoin

/-! ### Comparing correlation values -/

def ljVertexId : Value → VertexId
  | .vertexRef id => id
  | .vertex v => v.id
  | _ => INVALID_VERTEX_ID

mutual

def ljCorrEqual : Value → Value → Bool
  | .list la, .list lb => la.length = lb.length && ljElementsEqual la lb
  | a, b =>
    if ljVertexId a ≠ INVALID_VERTEX_ID ∨ ljVertexId b ≠ INVALID_VERTEX_ID then
      ljVertexId a = ljVertexId b
    else (valueEquals a b).getD false

def ljElementsEqual : List Value → List Value → Bool
  | a :: as, b :: bs => ljCorrEqual a b && ljElementsEqual as bs
  | _, _ => true

end

/-! ### The operator -/

structure LeftJoinPhysicalOp where
  right : List DataChunk → List DataChunk
  correlated_source : Option CorrelatedSourcePhysicalOp
  left_correlation_cols : List Nat
  right_correlation_cols : List Nat
  right_output_types : List BoundTypeKind

namespace LeftJoinPhysicalOp

variable (op : LeftJoinPhysicalOp)

/-- The right side of one left row. -/
def rightStream (left_chunk : DataChunk) (i : Nat) : List DataChunk :=
  match op.correlated_source with
  | some source =>
    if op.left_correlation_cols = [] then op.right (source.executeChunk [])
    else op.right (source.executeChunk [correlatedRow left_chunk op.left_correlation_cols i])
  | none => op.right []

def leftCells (left_chunk : DataChunk) (i : Nat) : List Cell :=
  left_chunk.columns.map (copied · i)

/-- The cells of a right row, one for each declared column. -/
def rightCells (right_chunk : DataChunk) (ri : Nat) : List Cell :=
  (range op.right_output_types.length).map fun rc =>
    (right_chunk.columns[rc]?).elim .null (copied · ri)

/-- What one left row adds to the output. -/
def rowLines (left_chunk : DataChunk) (i : Nat) : List (List Cell) :=
  let lines := (op.rightStream left_chunk i).flatMap fun right_chunk =>
    (range right_chunk.count).map fun ri =>
      leftCells left_chunk i ++ op.rightCells right_chunk ri
  if lines = [] then
    [leftCells left_chunk i ++ replicate op.right_output_types.length .null]
  else lines

def executePerRow (left : List DataChunk) : List DataChunk :=
  left.flatMap fun left_chunk =>
    if left_chunk.count = 0 then []
    else
      let kinds := left_chunk.columns.map Column.type ++ op.right_output_types
      let lines := (range left_chunk.count).flatMap fun i => op.rowLines left_chunk i
      (lines.foldl (emitRow kinds) (start kinds)).finish

/-- The correlation columns of a left and a right row agree. -/
def sameKey (left right : Row) : List Nat → List Nat → Bool
  | [], _ => true
  | _ :: _, [] => false
  | l :: ls, r :: rs =>
    match left[l]?, right[r]? with
    | some a, some b => ljCorrEqual a b && sameKey left right ls rs
    | _, _ => false

def rowMatches (left right : Row) : Bool :=
  sameKey left right op.left_correlation_cols op.right_correlation_cols

def ljMakeChunk (cols : Nat) : DataChunk :=
  ofKinds (replicate cols .ANY) DEFAULT_CAPACITY

/-- `emit`: the left columns, then the right row or nulls; the chunk is not checked for
room. -/
def emit (left_cols : Nat) (left : Row) (out : DataChunk) (right : Option Row) : DataChunk :=
  { columns :=
      writeCells out.count (out.columns.take left_cols) (left.map value) ++
        writeCells out.count (out.columns.drop left_cols)
          (match right with
            | some row => row.map value
            | none => replicate op.right_output_types.length .null)
    count := out.count + 1 }

/-- The matches of a left row among the right rows of the batch. -/
def matchesIn (right_rows : List Row) (left : Row) : List Row :=
  right_rows.filter fun right => op.rowMatches left right

/-- One left row: all its rows go into the current chunk, which is handed on when it has
reached its capacity. -/
def batchStep (left_cols : Nat) (right_rows : List Row) (state : ChunkOutput) (left : Row) :
    ChunkOutput :=
  let targets :=
    if op.matchesIn right_rows left = [] then [none]
    else (op.matchesIn right_rows left).map some
  let out := targets.foldl (op.emit left_cols left) state.current
  if DEFAULT_CAPACITY ≤ out.count then
    { yielded := state.yielded ++ [out]
      current := ljMakeChunk (left_cols + op.right_output_types.length) }
  else { state with current := out }

/-- The rows of the right side for the whole batch. -/
def batchRightRows (left_rows : List Row) : List Row :=
  match op.correlated_source with
  | some source =>
    streamRows (op.right (source.executeChunk
      (left_rows.map (corrRow op.left_correlation_cols))))
  | none => []

def executeBatch (left_rows : List Row) (left_kinds : List BoundTypeKind) : List DataChunk :=
  (left_rows.foldl (op.batchStep left_kinds.length (op.batchRightRows left_rows))
    { yielded := []
      current := ljMakeChunk (left_kinds.length + op.right_output_types.length) }).finish

def canBatch (batch_limit : Nat) : Bool :=
  0 < batch_limit &&
    !op.right_output_types.any (fun kind => kind = .PATH || kind = .PATH_TOPOLOGY) &&
    op.correlated_source.isSome && op.right_correlation_cols ≠ []

/-- `batch_limit` is `EUGRAPH_LJ_BATCH`, 512 if unset. -/
def executeChunk (batch_limit : Nat) (left : List DataChunk) : List DataChunk :=
  if op.canBatch batch_limit then
    (batches batch_limit [] (streamRows left)).flatMap fun batch =>
      op.executeBatch batch (leftKinds left)
  else op.executePerRow left

end LeftJoinPhysicalOp

/-! ### What OPTIONAL MATCH means -/

/-- A left row with each of the given right rows, or once with nulls. -/
def joined (right_cols : Nat) (left : Row) (answers : List Row) : List Row :=
  if answers = [] then [left ++ replicate right_cols .null]
  else answers.map fun answer => left ++ answer

namespace LeftJoinPhysicalOp

variable (op : LeftJoinPhysicalOp)

/-- The right sub-plan is a function of the correlation values, row by row, and its rows
have the declared columns. -/
structure FunctionOfCorrelation (answers : Row → List Row) : Prop where
  rows : ∀ stream, streamRows (op.right stream) = (streamRows stream).flatMap answers
  typed : ∀ corr, ∀ answer ∈ answers corr, Forall₂ Fits op.right_output_types answer

/-- The matches of a left row: what the right sub-plan answers to its own values. -/
def own (source : CorrelatedSourcePhysicalOp) (answers : Row → List Row) (row : Row) : List Row :=
  answers ((corrRow op.left_correlation_cols row).take source.types)

/-! ### The per-row path -/

section PerRow

variable {op} {answers : Row → List Row}

lemma leftCells_content (chunk : DataChunk) (i : Nat) : (leftCells chunk i).map content = chunk.row i := by
  simp [leftCells, row, content, comp_def]

lemma leftCells_fit (chunk : DataChunk) (i : Nat) :
    Forall₂ (fun kind cell => Fits kind (content cell))
      (chunk.columns.map Column.type) (leftCells chunk i) := by
  rw [leftCells, forall₂_map_left_iff, forall₂_map_right_iff]
  exact forall₂_same.mpr fun col _ => col.fits_getValue i

variable {chunk : DataChunk}

lemma rightCells_content {ri : Nat}
    (hlength : op.right_output_types.length = (chunk.row ri).length) :
    (op.rightCells chunk ri).map content = chunk.row ri := by
  have hcols : op.right_output_types.length = chunk.columns.length := by
    simpa [row] using hlength
  apply ext_getElem
  · simp [rightCells, row, hcols]
  · intro c hc hc'
    have hlt : c < chunk.columns.length := by simpa [row] using hc'
    simp [rightCells, row, content, getElem?_eq_getElem hlt]

lemma nulls_fit (kinds : List BoundTypeKind) :
    Forall₂ (fun kind cell => Fits kind (content cell)) kinds
      (replicate kinds.length .null) := by
  induction kinds with
  | nil => exact .nil
  | cons kind kinds ih => exact .cons (.inl rfl) ih

variable {source : CorrelatedSourcePhysicalOp}

/-- The rows the right sub-plan yields for one left row are its own matches. -/
theorem rightStream_rows (h : op.FunctionOfCorrelation answers)
    (hsource : op.correlated_source = some source) (hcorrelated : op.left_correlation_cols ≠ [])
    (i : Nat)
    (hrange : ∀ col ∈ op.left_correlation_cols, col < (chunk.row i).length) :
    streamRows (op.rightStream chunk i) = op.own source answers (chunk.row i) := by
  unfold rightStream own
  rw [hsource]
  simp only [if_neg hcorrelated]
  rw [h.rows, sourceRow, correlatedRow_eq, correlationOf_eq hrange]
  simp

/-- One left row adds its matches, or itself with nulls. -/
theorem rowLines_content (h : op.FunctionOfCorrelation answers)
    (hsource : op.correlated_source = some source) (hcorrelated : op.left_correlation_cols ≠ [])
    (i : Nat)
    (hrange : ∀ col ∈ op.left_correlation_cols, col < (chunk.row i).length) :
    (op.rowLines chunk i).map (fun cells => cells.map content) =
      joined op.right_output_types.length (chunk.row i) (op.own source answers (chunk.row i)) := by
  have hrows := rightStream_rows h hsource hcorrelated i hrange
  have hanswer : ∀ right_chunk ∈ op.rightStream chunk i, ∀ ri, ri < right_chunk.count →
      right_chunk.row ri ∈ op.own source answers (chunk.row i) := by
    intro right_chunk hmem ri hri
    rw [← hrows]
    exact mem_flatMap.mpr ⟨right_chunk, hmem, mem_map.mpr ⟨ri, mem_range.mpr hri, rfl⟩⟩
  have hlines : ((op.rightStream chunk i).flatMap fun right_chunk =>
        (range right_chunk.count).map fun ri =>
          leftCells chunk i ++ op.rightCells right_chunk ri).map
        (fun cells => cells.map content) =
      (op.own source answers (chunk.row i)).map fun answer => chunk.row i ++ answer := by
    rw [← hrows, streamRows, map_flatMap, map_flatMap]
    refine flatMap_congr fun right_chunk hmem => ?_
    rw [rows, map_map, map_map]
    apply map_congr_left
    intro ri hri
    have hin := hanswer right_chunk hmem ri (mem_range.mp hri)
    simp only [comp_def, map_append, leftCells_content, rightCells_content (h.typed _ _ hin).length_eq]
  unfold rowLines joined
  simp only
  split
  next hnone =>
    rw [hnone, map_nil] at hlines
    have hempty : op.own source answers (chunk.row i) = [] := map_eq_nil_iff.mp hlines.symm
    simp [hempty, leftCells_content, content]
  next hsome =>
    have hnonempty : op.own source answers (chunk.row i) ≠ [] := by
      intro hempty
      rw [hempty, map_nil] at hlines
      exact hsome (map_eq_nil_iff.mp hlines)
    rw [hlines, if_neg hnonempty]

lemma rowLines_fit (h : op.FunctionOfCorrelation answers)
    (hsource : op.correlated_source = some source) (hcorrelated : op.left_correlation_cols ≠ [])
    (i : Nat)
    (hrange : ∀ col ∈ op.left_correlation_cols, col < (chunk.row i).length) :
    ∀ cells ∈ op.rowLines chunk i,
      Forall₂ (fun kind cell => Fits kind (content cell))
        (chunk.columns.map Column.type ++ op.right_output_types) cells := by
  have hrows := rightStream_rows h hsource hcorrelated i hrange
  intro cells hcells
  unfold rowLines at hcells
  simp only at hcells
  split at hcells
  next =>
    rw [mem_singleton.mp hcells]
    exact rel_append (leftCells_fit chunk i) (nulls_fit _)
  next =>
    simp only [mem_flatMap, mem_map, mem_range] at hcells
    obtain ⟨right_chunk, hmem, ri, hri, rfl⟩ := hcells
    have hin : right_chunk.row ri ∈ op.own source answers (chunk.row i) := by
      rw [← hrows]
      exact mem_flatMap.mpr ⟨right_chunk, hmem, mem_map.mpr ⟨ri, mem_range.mpr hri, rfl⟩⟩
    have hfits := h.typed _ _ hin
    apply rel_append (leftCells_fit chunk i)
    rw [← rightCells_content hfits.length_eq, forall₂_map_right_iff] at hfits
    exact hfits

/-- Row by row, each left row is joined with its own matches. -/
theorem executePerRow_rows (h : op.FunctionOfCorrelation answers)
    (hsource : op.correlated_source = some source) (hcorrelated : op.left_correlation_cols ≠ [])
    (left : List DataChunk)
    (hrange : ∀ row ∈ streamRows left, ∀ col ∈ op.left_correlation_cols, col < row.length) :
    streamRows (op.executePerRow left) = (streamRows left).flatMap fun row =>
      joined op.right_output_types.length row (op.own source answers row) := by
  unfold executePerRow
  rw [streamRows_flatMap, streamRows, flatMap_assoc]
  refine flatMap_congr fun chunk hchunk => ?_
  have hin : ∀ i ∈ range chunk.count, ∀ col ∈ op.left_correlation_cols, col < (chunk.row i).length := by
    intro i hi
    exact hrange _ (mem_flatMap.mpr ⟨chunk, hchunk, mem_map.mpr ⟨i, hi, rfl⟩⟩)
  split
  next hzero => simp [rows, hzero, streamRows]
  next =>
    rw [((filling_start _).foldl_emitRow _ ?_).finish]
    · rw [nil_append, map_flatMap, rows, flatMap_map]
      exact flatMap_congr fun i hi =>
        rowLines_content h hsource hcorrelated i (hin i hi)
    · intro cells hcells
      obtain ⟨i, hi, hmem⟩ := mem_flatMap.mp hcells
      exact rowLines_fit h hsource hcorrelated i (hin i hi) cells hmem

end PerRow

/-! ### The batch path -/

section Batch

/-- From a chunk with `n` rows, the left rows with these numbers of output rows never write
past the capacity: a chunk is handed on only between two left rows. -/
def FitsCapacity : Nat → List Nat → Prop
  | _, [] => True
  | n, k :: rest =>
    n + k ≤ DEFAULT_CAPACITY ∧
      FitsCapacity (if DEFAULT_CAPACITY ≤ n + k then 0 else n + k) rest

lemma writeCells_append (i : Nat) {xs : List Column} {cs : List Cell} (h : xs.length = cs.length)
    (ys : List Column) (ds : List Cell) :
    writeCells i (xs ++ ys) (cs ++ ds) = writeCells i xs cs ++ writeCells i ys ds := by
  induction xs generalizing cs with
  | nil =>
    have hnil : cs = [] := eq_nil_of_length_eq_zero (by simpa using h.symm)
    simp [hnil, writeCells]
  | cons x xs ih =>
    cases cs with
    | nil => simp at h
    | cons c cs =>
      have htail : xs.length = cs.length := by simpa using h
      simp [writeCells, ih htail]

/-- The cells `emit` writes behind the left columns. -/
def targetCells (right_cols : Nat) : Option Row → List Cell
  | some row => row.map value
  | none => replicate right_cols .null

/-- What a target stands for in the output row. -/
def targetRow (right_cols : Nat) : Option Row → Row
  | some row => row
  | none => replicate right_cols .null

variable {op}

lemma targetCells_content (right_cols : Nat) (target : Option Row) :
    (targetCells right_cols target).map content = targetRow right_cols target := by
  cases target <;> simp [targetCells, targetRow, content, comp_def]

variable {left_cols : Nat}

lemma emit_eq_writeRow {left : Row} {out : DataChunk} (target : Option Row)
    (hleft : left.length = left_cols) (hcols : left_cols ≤ out.columns.length) :
    op.emit left_cols left out target =
      out.writeRow (left.map value ++ targetCells op.right_output_types.length target) := by
  have hlen : (out.columns.take left_cols).length = (left.map value).length := by
    simp [hleft, hcols]
  unfold emit writeRow
  conv_rhs => rw [← take_append_drop left_cols out.columns]
  rw [writeCells_append _ hlen]
  cases target <;> rfl

/-- Columns of runtime values hold every row of their width. -/
theorem any_fits {n : Nat} {cells : List Cell} (h : cells.length = n) :
    Forall₂ (fun kind cell => Fits kind (content cell)) (replicate n .ANY) cells := by
  subst h
  induction cells with
  | nil => exact .nil
  | cons cell rest ih => exact .cons (fits_any _) ih

abbrev outputKinds (op : LeftJoinPhysicalOp) (left_cols : Nat) : List BoundTypeKind :=
  replicate (left_cols + op.right_output_types.length) .ANY

/-- The rows of one left row, within the capacity of the chunk. -/
theorem foldl_emit_holds {left : Row} {out : DataChunk} {rows : List Row}
    (hholds : Holds (op.outputKinds left_cols) DEFAULT_CAPACITY out rows)
    (hleft : left.length = left_cols) (targets : List (Option Row))
    (hwidth : ∀ target ∈ targets,
      (targetRow op.right_output_types.length target).length = op.right_output_types.length)
    (hroom : rows.length + targets.length ≤ DEFAULT_CAPACITY) :
    Holds (op.outputKinds left_cols) DEFAULT_CAPACITY
      (targets.foldl (op.emit left_cols left) out)
      (rows ++ targets.map fun target => left ++ targetRow op.right_output_types.length target) := by
  induction targets generalizing out rows with
  | nil => simpa using hholds
  | cons target rest ih =>
    simp only [length_cons] at hroom
    have hcols : left_cols ≤ out.columns.length := by
      have h := hholds.writable.length_eq
      simp only [length_replicate] at h
      omega
    have hcells : (left.map value ++ targetCells op.right_output_types.length target).length =
          left_cols + op.right_output_types.length := by
      have h := hwidth target mem_cons_self
      rw [← targetCells_content, length_map] at h
      simp [hleft, h]
    have hnext := hholds.writeRow (by omega) (any_fits hcells)
    rw [← emit_eq_writeRow target hleft hcols] at hnext
    have hcontent : (left.map value ++ targetCells op.right_output_types.length target).map content =
        left ++ targetRow op.right_output_types.length target := by
      rw [map_append, targetCells_content]
      simp [content, comp_def]
    rw [hcontent] at hnext
    have hrest := ih hnext (fun t ht => hwidth t (mem_cons_of_mem _ ht)) (by simp; omega)
    simpa using hrest

/-- The number of rows a left row adds. -/
def fanOut (op : LeftJoinPhysicalOp) (right_rows : List Row) (left : Row) : Nat :=
  max 1 (op.matchesIn right_rows left).length

/-- The rows of a batch, as long as no chunk is written past its capacity. -/
theorem foldl_batchStep {right_rows : List Row}
    (hright : ∀ right ∈ right_rows, right.length = op.right_output_types.length)
    (left_rows : List Row) (hleft : ∀ left ∈ left_rows, left.length = left_cols)
    (state : ChunkOutput) (done last : List Row)
    (hholds : Holds (op.outputKinds left_cols) DEFAULT_CAPACITY state.current last)
    (hdone : streamRows state.yielded = done)
    (hroom : FitsCapacity last.length (left_rows.map (op.fanOut right_rows)))
    (hopen : last.length < DEFAULT_CAPACITY) :
    streamRows (left_rows.foldl (op.batchStep left_cols right_rows) state).finish =
      done ++ last ++ left_rows.flatMap fun left =>
        joined op.right_output_types.length left (op.matchesIn right_rows left) := by
  induction left_rows generalizing state done last with
  | nil =>
    have hfilling : Filling (op.outputKinds left_cols) state (done ++ last) :=
      ⟨last, hholds, hopen, by rw [hdone]⟩
    simpa using hfilling.finish
  | cons left rest ih =>
    obtain ⟨hfits, hrest⟩ := hroom
    have hlen := hleft left mem_cons_self
    -- one left row: its targets, and the rows they stand for
    obtain ⟨targets, htargets, hcount, hrows, hwidth⟩ : ∃ targets : List (Option Row),
        (if op.matchesIn right_rows left = [] then [none]
          else (op.matchesIn right_rows left).map some) = targets ∧
        targets.length = op.fanOut right_rows left ∧
        (targets.map fun t => left ++ targetRow op.right_output_types.length t) =
          joined op.right_output_types.length left (op.matchesIn right_rows left) ∧
        ∀ t ∈ targets, (targetRow op.right_output_types.length t).length = op.right_output_types.length := by
      refine ⟨_, rfl, ?_, ?_, ?_⟩
      · unfold fanOut
        split
        next hnone => simp [hnone]
        next hsome =>
          have hpos := length_pos_iff.mpr hsome
          simp only [length_map]
          omega
      · unfold joined
        split <;> simp [targetRow, comp_def]
      · intro t ht
        split at ht
        next => simp [mem_singleton.mp ht, targetRow]
        next =>
          obtain ⟨right, hmem, rfl⟩ := mem_map.mp ht
          exact hright right (mem_filter.mp hmem).1
    have hout := foldl_emit_holds hholds hlen targets hwidth (by omega)
    rw [hrows] at hout
    have hstep : op.batchStep left_cols right_rows state left =
        if DEFAULT_CAPACITY ≤ (targets.foldl (op.emit left_cols left) state.current).count
        then { yielded := state.yielded ++ [targets.foldl (op.emit left_cols left) state.current]
               current := ljMakeChunk (left_cols + op.right_output_types.length) }
        else { state with current := targets.foldl (op.emit left_cols left) state.current } := by
      rw [← htargets]
      rfl
    have hlength : (last ++ joined op.right_output_types.length left
        (op.matchesIn right_rows left)).length = last.length + op.fanOut right_rows left := by
      rw [length_append, ← hrows, length_map, hcount]
    rw [foldl_cons, hstep, hout.count_eq, hlength]
    split
    next hfull =>
      rw [if_pos hfull] at hrest
      have hnext := ih (fun l hl => hleft l (mem_cons_of_mem _ hl))
        { yielded := state.yielded ++ [targets.foldl (op.emit left_cols left) state.current]
          current := ljMakeChunk (left_cols + op.right_output_types.length) }
        (done ++ (last ++ joined op.right_output_types.length left (op.matchesIn right_rows left))) []
        (holds_ofKinds _ _)
        (by rw [← hdone]; simp [streamRows, hout.rows_eq]) hrest (by decide)
      rw [hnext]
      simp
    next hspace =>
      rw [if_neg hspace] at hrest
      have hnext := ih (fun l hl => hleft l (mem_cons_of_mem _ hl))
        { state with current := targets.foldl (op.emit left_cols left) state.current }
        done _ hout hdone (by rw [hlength]; exact hrest)
        (by rw [hlength]; exact Nat.not_le.mp hspace)
      rw [hnext]
      simp

/-- The rows the batch path emits for one batch. -/
theorem executeBatch_rows {kinds : List BoundTypeKind} (batch : List Row)
    (hleft : ∀ left ∈ batch, left.length = kinds.length)
    (hright : ∀ right ∈ op.batchRightRows batch, right.length = op.right_output_types.length)
    (hroom : FitsCapacity 0 (batch.map (op.fanOut (op.batchRightRows batch)))) :
    streamRows (op.executeBatch batch kinds) = batch.flatMap fun left =>
      joined op.right_output_types.length left
        (op.matchesIn (op.batchRightRows batch) left) := by
  unfold executeBatch
  rw [foldl_batchStep hright batch hleft _ [] [] (holds_ofKinds _ _) rfl hroom (by decide)]
  rfl

end Batch

/-! ### When the two paths agree -/

section Agree

/-- Occurrences of one left row with one right row, counted over all left rows. -/
theorem count_joined {α : Type*} [DecidableEq α] {n : Nat} (f : List α → List (List α))
    (rows : List (List α)) (hlength : ∀ row ∈ rows, row.length = n) {left : List α}
    (hleft : left.length = n) (right : List α) :
    (rows.flatMap fun row => (f row).map (row ++ ·)).count (left ++ right) =
      ((rows.filter (· = left)).flatMap f).count right := by
  induction rows with
  | nil => simp
  | cons row rest ih =>
    have hrest := ih fun r hr => hlength r (mem_cons_of_mem _ hr)
    rw [flatMap_cons, count_append, hrest]
    by_cases heq : row = left
    · subst heq
      have hinj : Injective (row ++ · : List α → List α) := fun a b h => append_cancel_left h
      rw [count_map_of_injective _ _ hinj, filter_cons_of_pos (by simp), flatMap_cons, count_append]
    · have hnone : ((f row).map (row ++ ·)).count (left ++ right) = 0 := by
        rw [count_eq_zero]
        intro hmem
        obtain ⟨answer, -, hanswer⟩ := mem_map.mp hmem
        have hlen : row.length = left.length := by
          rw [hlength row mem_cons_self, hleft]
        exact heq (append_inj_left hanswer hlen)
      rw [hnone, filter_cons_of_neg (by simp [heq]), Nat.zero_add]

variable {op} {source : CorrelatedSourcePhysicalOp} {answers : Row → List Row}

end Agree

/-! ### A sub-plan that finds the vertex itself -/

end LeftJoinPhysicalOp

end Eugraph.Dataset
