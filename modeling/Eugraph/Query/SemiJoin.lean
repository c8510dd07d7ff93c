import Eugraph.Lib.Joins
import Eugraph.Query.CorrelatedSource
import Eugraph.Query.LimitOperator

/-!
# EXISTS

`semi_join_physical_op.cpp` and the planning of `BoundSemiJoinOp` in
`physical_planner.cpp`.  A correlated EXISTS runs its right sub-plan once for each left
row, or once for a batch of left rows when the correlation values are vertices; an
uncorrelated one becomes a cross product with the first row of the right side.

A left row should be kept, unchanged and once, just if the right sub-plan run with its
correlation values yields a row; for the anti form, just if it yields none.
-/

namespace Eugraph.Dataset

open Lib List Function CorrelatedJoin Cell DataChunk Column

/-! ### Cross product -/

namespace CrossProductPhysicalOp

/-- The cells of one output row: the left columns, then the right columns. -/
def pairCells (left_cols right_cols : Nat) (left_chunk right_chunk : DataChunk) (li ri : Nat) :
    List Cell :=
  (left_chunk.columns.take left_cols).map (copied · li) ++
    (right_chunk.columns.take right_cols).map (copied · ri)

def pairKinds (left_cols right_cols : Nat) (left_chunk right_chunk : DataChunk) :
    List BoundTypeKind :=
  (left_chunk.columns.take left_cols).map type ++
    (right_chunk.columns.take right_cols).map type

/-- The output of one left chunk against one right chunk. -/
def pairChunks (left_cols right_cols : Nat) (left_chunk right_chunk : DataChunk) :
    List DataChunk :=
  let kinds := pairKinds left_cols right_cols left_chunk right_chunk
  let lines := (range left_chunk.count).flatMap fun li =>
    (range right_chunk.count).map fun ri =>
      pairCells left_cols right_cols left_chunk right_chunk li ri
  (lines.foldl (ChunkOutput.emitRow kinds) (ChunkOutput.start kinds)).finish

/-- The right side is read again for every left chunk. -/
def executeChunk (left_cols right_cols : Nat) (left right : List DataChunk) : List DataChunk :=
  left.flatMap fun left_chunk =>
    if left_chunk.count = 0 then []
    else
      right.flatMap fun right_chunk =>
        if right_chunk.count = 0 then []
        else pairChunks left_cols right_cols left_chunk right_chunk

end CrossProductPhysicalOp

/-! ### Semi-join -/

def sjVertexId : Value → VertexId
  | .vertexRef id => id
  | .vertex v => v.id
  | _ => INVALID_VERTEX_ID

def sjVertexLike (kind : BoundTypeKind) : Bool := kind = .VERTEX || kind = .VERTEX_REF

/-- A key of valid vertex ids; an invalid one makes the row no key. -/
def validKey (ids : List VertexId) : Option (List VertexId) :=
  if ids.all (· ≠ INVALID_VERTEX_ID) then some ids else none

/-- The right sub-plan is what its operators make of the chunks its correlated source
yields. -/
structure SemiJoinPhysicalOp where
  right : List DataChunk → List DataChunk
  correlated_source : CorrelatedSourcePhysicalOp
  left_correlation_cols : List Nat
  right_correlation_cols : List Nat
  right_corr_types : List BoundTypeKind
  anti : Bool

namespace SemiJoinPhysicalOp

variable (op : SemiJoinPhysicalOp)

def keep (matched : Bool) : Bool := if op.anti then !matched else matched

/-- Only the first chunk of the right side is asked for. -/
def firstChunkMatches (stream : List DataChunk) : Bool :=
  match stream.head? with
  | some right_chunk => 0 < right_chunk.count
  | none => false

def executePerRow (left : List DataChunk) : List DataChunk :=
  left.flatMap fun left_chunk =>
    if left_chunk.count = 0 then []
    else
      let matched := fun i => firstChunkMatches (op.right (op.correlated_source.executeChunk
        [correlatedRow left_chunk op.left_correlation_cols i]))
      let filtered := (range left_chunk.count).filter fun i => op.keep (matched i)
      if filtered = [] then [] else [left_chunk.select filtered]

/-- The keys of the right rows; a row with an invalid id has none. -/
def rightKeys (stream : List DataChunk) : List (List VertexId) :=
  stream.flatMap fun right_chunk =>
    (range right_chunk.count).filterMap fun r =>
      validKey (op.right_correlation_cols.map fun c =>
        (right_chunk.columns[c]?).elim INVALID_VERTEX_ID (·.columnVertexId r))

def corrRow (row : Row) : Row := CorrelatedJoin.corrRow op.left_correlation_cols row

/-- The keys are sorted, made unique and searched by bisection in the source. -/
def present (left_rows : List Row) (row : Row) : Bool :=
  let right_keys := op.rightKeys (op.right (op.correlated_source.executeChunk
    (left_rows.map op.corrRow)))
  match validKey ((op.corrRow row).map sjVertexId) with
  | some left_key => right_keys.contains left_key
  | none => false

def executeBatch (left_rows : List Row) (left_kinds : List BoundTypeKind) : List DataChunk :=
  let kept := left_rows.filter fun row => op.keep (op.present left_rows row)
  let out := kept.foldl (fun chunk row => chunk.writeRow (row.map value))
    (ofKinds left_kinds left_rows.length)
  if 0 < out.count then [out] else []

def canBatch (batch_limit : Nat) : Bool :=
  0 < batch_limit && op.right_correlation_cols ≠ [] &&
    op.right_correlation_cols.length = op.left_correlation_cols.length &&
    op.right_corr_types.length = op.right_correlation_cols.length &&
    op.right_corr_types.all sjVertexLike

/-- `batch_limit` is `EUGRAPH_SJ_BATCH`, 512 if unset. -/
def executeChunk (batch_limit : Nat) (left : List DataChunk) : List DataChunk :=
  if op.canBatch batch_limit then
    (batches batch_limit [] (streamRows left)).flatMap fun batch =>
      op.executeBatch batch (leftKinds left)
  else op.executePerRow left

end SemiJoinPhysicalOp

open SemiJoinPhysicalOp

/-- The plan of a `BoundSemiJoinOp`: the operator, and the numbers of columns of the two
schemas for the uncorrelated form. -/
structure SemiJoinPlan where
  op : SemiJoinPhysicalOp
  left_cols : Nat
  right_cols : Nat

namespace SemiJoinPlan

variable (plan : SemiJoinPlan)

def correlated : Bool := plan.op.left_correlation_cols ≠ []

/-- Without correlation the sub-plan has no correlated source, and `anti` is not
consulted. -/
def execute (batch_limit : Nat) (left : List DataChunk) : List DataChunk :=
  if plan.correlated then plan.op.executeChunk batch_limit left
  else
    CrossProductPhysicalOp.executeChunk plan.left_cols plan.right_cols left
      (LimitPhysicalOp.executeChunk 1 (plan.op.right []))

/-! ### What EXISTS means -/

/-- The correlation values of a left row. -/
def correlationOf (row : Row) : Row :=
  CorrelatedJoin.correlationOf plan.op.left_correlation_cols row

/-- The whole output of the right sub-plan for one left row. -/
def rightRows (row : Row) : List Row :=
  streamRows (plan.op.right
    (if plan.correlated then plan.op.correlated_source.executeChunk [plan.correlationOf row]
      else []))

/-- The right sub-plan yields a row for this left row. -/
def hasMatch (row : Row) : Bool := !(plan.rightRows row).isEmpty

/-- The left rows EXISTS keeps. -/
def expected (left : List DataChunk) : List Row :=
  (streamRows left).filter fun row => plan.op.keep (plan.hasMatch row)

/-- The right side begins with a chunk without rows and has a row further on. -/
def StartsEmpty : List DataChunk → Prop
  | [] => False
  | first :: rest => first.count = 0 ∧ streamRows rest ≠ []

/-- The right row has these vertices in its correlation columns. -/
def Carries (ids : List VertexId) (right : Row) : Prop :=
  (plan.op.right_correlation_cols.map fun c => cellVertexId ((right[c]?).getD .null)) = ids

/-- A row of valid vertices has a right row of its own just if some right row of its batch
carries these vertices; any other row has no right row of its own. -/
def DecidedByVertices (batch : List Row) (row : Row) : Prop :=
  (INVALID_VERTEX_ID ∉ (plan.op.corrRow row).map sjVertexId →
    (plan.rightRows row ≠ [] ↔
      ∃ right ∈ streamRows (plan.op.right (plan.op.correlated_source.executeChunk (batch.map plan.op.corrRow))),
        plan.Carries ((plan.op.corrRow row).map sjVertexId) right)) ∧
  (INVALID_VERTEX_ID ∈ (plan.op.corrRow row).map sjVertexId → plan.rightRows row = [])

/-- The condition under which the plan decides every left row by its own right rows. -/
def Exact (batch_limit : Nat) (left : List DataChunk) : Prop :=
  if plan.correlated then
    if plan.op.canBatch batch_limit then
      ∀ batch ∈ batches batch_limit [] (streamRows left), ∀ row ∈ batch, plan.DecidedByVertices batch row
    else
      ∀ row ∈ streamRows left,
        ¬ StartsEmpty (plan.op.right (plan.op.correlated_source.executeChunk [plan.correlationOf row]))
  else plan.op.anti = false ∨ streamRows left = []

end SemiJoinPlan

/-! ### Rows kept by two predicates -/

section Kept

variable {α β : Type*}

/-- The rows kept in their groups are the rows kept by `q` only if every row is decided as
`q` decides it: none is kept against `q`, and then none can be missing. -/
theorem filter_pairs_eq_iff (p : β × α → Bool) (q : α → Bool) (pairs : List (β × α)) :
    (pairs.filter p).map Prod.snd = (pairs.map Prod.snd).filter q ↔ ∀ pair ∈ pairs, p pair = q pair.2 := by
  rw [filter_map]
  constructor
  · intro heq
    have hsub : ∀ pair ∈ pairs, p pair = true → q pair.2 = true := by
      intro pair hmem hp
      have hin : pair.2 ∈ (pairs.filter (q ∘ Prod.snd)).map Prod.snd :=
        heq ▸ mem_map.mpr ⟨pair, mem_filter.mpr ⟨hmem, hp⟩, rfl⟩
      obtain ⟨other, hother, hsame⟩ := mem_map.mp hin
      exact hsame ▸ (mem_filter.mp hother).2
    have hkept : (pairs.filter (q ∘ Prod.snd)).filter p = pairs.filter p := by
      rw [filter_filter]
      refine filter_congr fun pair hmem => ?_
      cases hp : p pair
      · simp
      · simpa using hsub pair hmem hp
    have hlength := congrArg length heq
    rw [length_map, length_map, ← hkept] at hlength
    have hall := filter_eq_self.mp (filter_sublist.eq_of_length hlength)
    intro pair hmem
    rw [Bool.eq_iff_iff]
    exact ⟨hsub pair hmem, fun hq => hall pair (mem_filter.mpr ⟨hmem, hq⟩)⟩
  · intro hall
    rw [filter_congr hall]
    rfl

lemma filter_eq_filter_iff (p q : α → Bool) (xs : List α) : xs.filter p = xs.filter q ↔ ∀ x ∈ xs, p x = q x := by
  have h := filter_pairs_eq_iff (fun pair : Unit × α => p pair.2) q (xs.map fun x => ((), x))
  simpa [filter_map, comp_def] using h

end Kept

/-! ### The uncorrelated plan -/

namespace CrossProductPhysicalOp

lemma pairChunks_rows (left_cols right_cols : Nat) (left_chunk right_chunk : DataChunk) :
    streamRows (pairChunks left_cols right_cols left_chunk right_chunk) =
      left_chunk.rows.flatMap fun l =>
        right_chunk.rows.map fun r => l.take left_cols ++ r.take right_cols := by
  have hfits (cols : List Column) (i : Nat) :
      Forall₂ (fun kind cell => Fits kind (content cell)) (cols.map type)
        (cols.map (copied · i)) := by
    rw [forall₂_map_left_iff, forall₂_map_right_iff]
    exact forall₂_same.mpr fun col _ => col.fits_getValue i
  have hcontent (li ri : Nat) : (pairCells left_cols right_cols left_chunk right_chunk li ri).map content =
        (left_chunk.row li).take left_cols ++ (right_chunk.row ri).take right_cols := by
    simp [pairCells, row, content, map_take, comp_def]
  unfold pairChunks
  rw [((ChunkOutput.filling_start _).foldl_emitRow _ ?_).finish]
  · simp [map_flatMap, hcontent, rows, flatMap_map, comp_def]
  · intro cells hcells
    simp only [mem_flatMap, mem_map] at hcells
    obtain ⟨li, -, ri, -, rfl⟩ := hcells
    exact rel_append (hfits _ li) (hfits _ ri)

lemma executeChunk_rows (left_cols right_cols : Nat) (left right : List DataChunk) :
    streamRows (executeChunk left_cols right_cols left right) =
      left.flatMap fun left_chunk => right.flatMap fun right_chunk =>
        left_chunk.rows.flatMap fun l =>
          right_chunk.rows.map fun r => l.take left_cols ++ r.take right_cols := by
  have hempty {chunk : DataChunk} (h : chunk.count = 0) : chunk.rows = [] := by
    simp [rows, h]
  simp only [streamRows, executeChunk, flatMap_assoc]
  congr 1
  funext left_chunk
  split
  next h => simp [hempty h]
  next =>
    rw [flatMap_assoc]
    congr 1
    funext right_chunk
    split
    next h => simp [hempty h]
    next => exact pairChunks_rows left_cols right_cols left_chunk right_chunk

/-- Against a right side of one row, each left row appears once. -/
theorem lefts_against_one_row (ls : List Row) (right : List DataChunk) {r : Row} (h : streamRows right = [r]) :
    (right.flatMap fun right_chunk => ls.flatMap fun l => right_chunk.rows.map fun _ => l) = ls := by
  induction right with
  | nil => simp [streamRows] at h
  | cons chunk rest ih =>
    have hsplit : chunk.rows ++ streamRows rest = [r] := h
    rcases append_eq_singleton_iff.mp hsplit with ⟨hhead, hrest⟩ | ⟨hhead, hrest⟩
    · rw [flatMap_cons, ih hrest, hhead]
      simp
    · have hnone : ∀ right_chunk ∈ rest, right_chunk.rows = [] := by
        intro right_chunk hmem
        exact flatMap_eq_nil_iff.mp hrest right_chunk hmem
      have hlater : (rest.flatMap fun right_chunk =>
          ls.flatMap fun l => right_chunk.rows.map fun _ => l) = [] := by
        rw [flatMap_eq_nil_iff]
        intro right_chunk hmem
        simp [hnone right_chunk hmem]
      rw [flatMap_cons, hlater, hhead]
      simp

end CrossProductPhysicalOp

namespace SemiJoinPlan

variable (plan : SemiJoinPlan)

/-- The uncorrelated plan keeps every left row when the right side has a row, and none
otherwise. -/
theorem uncorrelated_rows (left : List DataChunk)
    (hcols : ∀ chunk ∈ left, chunk.columns.length = plan.left_cols) (right : List DataChunk) :
    (streamRows (CrossProductPhysicalOp.executeChunk plan.left_cols plan.right_cols left
        (LimitPhysicalOp.executeChunk 1 right))).map (·.take plan.left_cols) =
      if (streamRows right).isEmpty then [] else streamRows left := by
  rw [CrossProductPhysicalOp.executeChunk_rows]
  have hlimit := LimitPhysicalOp.executeChunk_rows 1 right
  cases hright : streamRows right with
  | nil =>
    rw [hright, take_nil] at hlimit
    have hnone : ∀ right_chunk ∈ LimitPhysicalOp.executeChunk 1 right, right_chunk.rows = [] :=
      fun right_chunk hmem => flatMap_eq_nil_iff.mp hlimit right_chunk hmem
    simp only [isEmpty_nil, if_true, map_eq_nil_iff, flatMap_eq_nil_iff]
    intro left_chunk _ right_chunk hmem l _
    rw [hnone right_chunk hmem]
  | cons r rest =>
    rw [hright, take_succ_cons, take_zero] at hlimit
    simp only [isEmpty_cons, Bool.false_eq_true, if_false, map_flatMap, map_map]
    show _ = left.flatMap rows
    refine flatMap_congr fun left_chunk hmem => ?_
    have htake : ∀ l ∈ left_chunk.rows, ∀ r' : Row,
        (l.take plan.left_cols ++ r'.take plan.right_cols).take plan.left_cols = l := by
      intro l hl r'
      obtain ⟨i, -, rfl⟩ := mem_map.mp hl
      have hlen : (left_chunk.row i).length = plan.left_cols := by
        simp [row, hcols left_chunk hmem]
      rw [take_of_length_le (le_of_eq hlen), ← hlen, take_left]
    refine Eq.trans (flatMap_congr fun right_chunk _ => ?_)
      (CrossProductPhysicalOp.lefts_against_one_row left_chunk.rows _ hlimit)
    refine flatMap_congr fun l hl => ?_
    exact map_congr_left fun r' _ => htake l hl r'

/-! ### The correlated paths -/

/-- The per-row path decides a left row by the first chunk of its right side. -/
theorem executePerRow_rows (left : List DataChunk) : streamRows (plan.op.executePerRow left) =
      (streamRows left).filter fun row => plan.op.keep (firstChunkMatches
        (plan.op.right (plan.op.correlated_source.executeChunk [plan.correlationOf row]))) := by
  unfold executePerRow
  rw [streamRows_flatMap]
  simp only [streamRows, filter_flatMap]
  refine flatMap_congr fun chunk _ => ?_
  simp only [correlatedRow_eq, rows, filter_map, comp_def, correlationOf]
  split
  next hzero => simp [hzero]
  next =>
    split
    next hnone => simp [hnone]
    next =>
      simp only [flatMap_cons, flatMap_nil, append_nil]
      exact chunk.rows_select _

/-- The batch path decides a left row by the keys of its batch. -/
theorem executeBatch_rows {kinds : List BoundTypeKind} {batch : List Row}
    (hfits : ∀ row ∈ batch, Forall₂ Fits kinds row) :
    streamRows (plan.op.executeBatch batch kinds) =
      batch.filter fun row => plan.op.keep (plan.op.present batch row) := by
  have hholds := (holds_ofKinds kinds batch.length).foldl_writeRow
    ((batch.filter fun row => plan.op.keep (plan.op.present batch row)).map fun row =>
      row.map value)
    (by simpa using length_filter_le _ batch)
    (by
      intro cells hcells
      obtain ⟨row, hmem, rfl⟩ := mem_map.mp hcells
      rw [forall₂_map_right_iff]
      exact hfits row (mem_filter.mp hmem).1)
  rw [foldl_map] at hholds
  have hrows := hholds.rows_eq
  have hcount := hholds.count_eq
  simp only [nil_append, map_map, comp_def, content, map_id'] at hrows hcount
  unfold executeBatch
  simp only
  split
  next => simpa [streamRows] using hrows
  next hzero =>
    rw [hcount] at hzero
    simp only [streamRows, flatMap_nil]
    exact (eq_nil_of_length_eq_zero (by omega)).symm

lemma executeChunk_batch_rows (batch_limit : Nat) (left : List DataChunk)
    (hfits : ∀ row ∈ streamRows left, Forall₂ Fits (leftKinds left) row) :
    streamRows ((batches batch_limit [] (streamRows left)).flatMap fun batch =>
        plan.op.executeBatch batch (leftKinds left)) =
      (batches batch_limit [] (streamRows left)).flatMap fun batch =>
        batch.filter fun row => plan.op.keep (plan.op.present batch row) := by
  rw [streamRows_flatMap]
  refine flatMap_congr fun batch hbatch => ?_
  apply plan.executeBatch_rows
  intro row hrow
  apply hfits
  have hflat := batches_flatten batch_limit [] (streamRows left)
  rw [nil_append] at hflat
  rw [← hflat]
  exact mem_flatten.mpr ⟨batch, hbatch, hrow⟩

/-- The rows kept batch by batch are those kept by one predicate just if each batch decides
its rows by it. -/
theorem batches_filter_eq_iff {α : Type*} (p : List α → α → Bool) (q : α → Bool) (groups : List (List α)) :
    (groups.flatMap fun group => group.filter (p group)) = groups.flatten.filter q ↔
      ∀ group ∈ groups, ∀ x ∈ group, p group x = q x := by
  have h := filter_pairs_eq_iff (fun pair : List α × α => p pair.1 pair.2) q
    (groups.flatMap fun group => group.map fun x => (group, x))
  simp only [filter_flatMap, map_flatMap, filter_map, map_map, comp_def, map_id', mem_flatMap, mem_map] at h
  rw [filter_flatten, ← flatMap_def]
  rw [h]
  constructor
  · intro hall group hgroup x hx
    exact hall (group, x) ⟨group, hgroup, x, hx, rfl⟩
  · rintro hall pair ⟨group, hgroup, x, hx, rfl⟩
    exact hall group hgroup x hx

lemma keep_inj {op : SemiJoinPhysicalOp} {a b : Bool} : op.keep a = op.keep b ↔ a = b := by
  unfold keep
  split <;> cases a <;> cases b <;> decide

/-! ### What decides a row -/

/-- The first chunk decides unless it is empty and a later one is not. -/
theorem firstChunk_decides_iff (stream : List DataChunk) :
    firstChunkMatches stream = !(streamRows stream).isEmpty ↔ ¬ StartsEmpty stream := by
  cases stream with
  | nil => simp [firstChunkMatches, streamRows, StartsEmpty]
  | cons first rest =>
    have hsplit : streamRows (first :: rest) = first.rows ++ streamRows rest := rfl
    rw [hsplit, StartsEmpty, firstChunkMatches, head?_cons]
    rcases Nat.eq_zero_or_pos first.count with hzero | hpos
    · cases hrest : streamRows rest <;> simp [rows, hzero]
    · have hne : first.count ≠ 0 := by omega
      simp [rows, hpos, hne]

lemma validKey_eq_some {ids key : List VertexId} :
    validKey ids = some key ↔ ids = key ∧ INVALID_VERTEX_ID ∉ ids := by
  rw [← forall_mem_ne']
  simp [validKey, and_comm]

lemma mem_rightKeys {stream : List DataChunk} {ids : List VertexId} (hvalid : INVALID_VERTEX_ID ∉ ids) :
    ids ∈ plan.op.rightKeys stream ↔ ∃ right ∈ streamRows stream, plan.Carries ids right := by
  have hcell (chunk : DataChunk) (c r : Nat) : (chunk.columns[c]?).elim INVALID_VERTEX_ID (·.columnVertexId r) =
      cellVertexId (((chunk.row r)[c]?).getD .null) := by
    cases hcol : chunk.columns[c]? <;> simp [row, hcol, columnVertexId, cellVertexId]
  simp only [rightKeys, streamRows, rows, mem_flatMap, mem_filterMap, mem_map, validKey_eq_some, hcell,
    Carries]
  constructor
  · rintro ⟨chunk, hchunk, r, hr, hids, -⟩
    exact ⟨_, ⟨chunk, hchunk, r, hr, rfl⟩, hids⟩
  · rintro ⟨_, ⟨chunk, hchunk, r, hr, rfl⟩, hids⟩
    exact ⟨chunk, hchunk, r, hr, hids, fun hmem => hvalid (hids ▸ mem_map.mpr hmem)⟩

/-- A batch decides a row as its own right side does just if its vertices decide it. -/
theorem present_eq_iff (batch : List Row) (row : Row) :
    plan.op.present batch row = plan.hasMatch row ↔ plan.DecidedByVertices batch row := by
  have hmatch : plan.hasMatch row = true ↔ plan.rightRows row ≠ [] := by
    simp [hasMatch]
  unfold DecidedByVertices
  by_cases hinvalid : INVALID_VERTEX_ID ∈ (plan.op.corrRow row).map sjVertexId
  · have hnone : validKey ((plan.op.corrRow row).map sjVertexId) = none := by
      rw [Option.eq_none_iff_forall_ne_some]
      exact fun key hkey => (validKey_eq_some.mp hkey).2 hinvalid
    simp only [present, hnone, hinvalid, not_true, IsEmpty.forall_iff, true_and, forall_const]
    rw [eq_comm, ← Bool.not_eq_true, hmatch, not_not]
  · rw [← hmatch, ← plan.mem_rightKeys hinvalid, Bool.eq_iff_iff]
    simp only [present, validKey_eq_some.mpr ⟨rfl, hinvalid⟩, contains_iff_mem, hinvalid, not_false_iff,
      forall_const,
      IsEmpty.forall_iff, and_true]
    exact iff_comm

/-! ### EXISTS is exact under the condition, and only then -/

/-- The plan keeps exactly the left rows EXISTS keeps, unchanged, just if `Exact` holds:
without correlation it must not be the anti form (or there must be no left row), row by
row no right side may start with an empty chunk before its rows, and in a batch the
vertices must decide each row. -/
theorem exact_iff (batch_limit : Nat) (left : List DataChunk)
    (hcols : ∀ chunk ∈ left, chunk.columns.length = plan.left_cols)
    (hfits : plan.op.canBatch batch_limit = true → ∀ row ∈ streamRows left, Forall₂ Fits (leftKinds left) row) :
    (streamRows (plan.execute batch_limit left)).map (·.take plan.left_cols) = plan.expected left ↔
      plan.Exact batch_limit left := by
  have hwidth : ∀ row ∈ streamRows left, row.take plan.left_cols = row := by
    intro row hrow
    obtain ⟨chunk, hchunk, hmem⟩ := mem_flatMap.mp hrow
    obtain ⟨i, -, rfl⟩ := mem_map.mp hmem
    exact take_of_length_le (by simp [row, hcols chunk hchunk])
  have hwhole (rows : List Row) (hsub : ∀ row ∈ rows, row ∈ streamRows left) :
      rows.map (·.take plan.left_cols) = rows := by
    rw [map_congr_left fun row hrow => hwidth row (hsub row hrow), map_id']
  unfold execute Exact expected
  split
  next hcorrelated =>
    unfold executeChunk
    split
    next hbatch =>
      have hflat : (batches batch_limit [] (streamRows left)).flatten = streamRows left := by
        simpa using batches_flatten batch_limit [] (streamRows left)
      rw [plan.executeChunk_batch_rows batch_limit left (hfits hbatch), hwhole]
      · have h := batches_filter_eq_iff (fun batch row => plan.op.keep (plan.op.present batch row))
          (fun row => plan.op.keep (plan.hasMatch row))
          (batches batch_limit [] (streamRows left))
        rw [hflat] at h
        simpa only [keep_inj, present_eq_iff] using h
      · intro row hrow
        obtain ⟨batch, hmem, hkept⟩ := mem_flatMap.mp hrow
        rw [← hflat]
        exact mem_flatten.mpr ⟨batch, hmem, (mem_filter.mp hkept).1⟩
    next =>
      rw [plan.executePerRow_rows, hwhole _ fun row hrow => (mem_filter.mp hrow).1, filter_eq_filter_iff]
      refine forall₂_congr fun row hrow => ?_
      rw [keep_inj, ← firstChunk_decides_iff, hasMatch, rightRows, if_pos hcorrelated]
  next huncorrelated =>
    have hmatch : ∀ row, plan.hasMatch row = !(streamRows (plan.op.right [])).isEmpty := by
      intro row
      simp [hasMatch, rightRows, huncorrelated]
    rw [plan.uncorrelated_rows left hcols]
    simp only [hmatch]
    unfold keep
    cases hanti : plan.op.anti <;> cases hempty : (streamRows (plan.op.right [])).isEmpty <;>
      simp

/-! ### Sub-plans that handle their rows one by one -/

/-- The right sub-plan answers its rows one by one, by their vertices, and each answer
carries the vertices it is for. -/
structure EchoesRows (answers : Row → List Row) : Prop where
  rows : ∀ stream, streamRows (plan.op.right stream) = (streamRows stream).flatMap answers
  carried : ∀ corr, ∀ answer ∈ answers corr, plan.Carries (corr.map sjVertexId) answer
  byVertices : ∀ corr corr', corr.map sjVertexId = corr'.map sjVertexId → answers corr ≠ [] → answers corr' ≠ []

variable {plan} {answers : Row → List Row}

/-- Over such a sub-plan a batch is exact just if no row finds something for a correlation
value that is no valid vertex. -/
theorem exact_iff_of_echoes (h : plan.EchoesRows answers) {batch_limit : Nat} {left : List DataChunk}
    (hbatch : plan.op.canBatch batch_limit = true) (hcorrelated : plan.correlated = true)
    (htypes : plan.op.left_correlation_cols.length ≤ plan.op.correlated_source.types)
    (hrange : ∀ row ∈ streamRows left, ∀ col ∈ plan.op.left_correlation_cols, col < row.length)
    (hwritten : ∀ batch ∈ batches batch_limit [] (streamRows left), ∀ first ∈ batch.head?, ∀ row ∈ batch,
      Forall₂ (fun u v => Fits (kindFromValue u) v) (plan.op.corrRow first) (plan.op.corrRow row)) :
    plan.Exact batch_limit left ↔ ∀ row ∈ streamRows left,
      INVALID_VERTEX_ID ∈ (plan.op.corrRow row).map sjVertexId → answers (plan.op.corrRow row) = [] := by
  have hflat : (batches batch_limit [] (streamRows left)).flatten = streamRows left := by
    simpa using batches_flatten batch_limit [] (streamRows left)
  have hwhole (row : Row) : (plan.op.corrRow row).take plan.op.correlated_source.types = plan.op.corrRow row :=
    take_of_length_le (by simpa [SemiJoinPhysicalOp.corrRow, CorrelatedJoin.corrRow] using htypes)
  have hown : ∀ row ∈ streamRows left, plan.rightRows row = answers (plan.op.corrRow row) := by
    intro row hrow
    rw [rightRows, if_pos hcorrelated, h.rows, sourceRow, correlationOf,
      CorrelatedJoin.correlationOf_eq (hrange row hrow), flatMap_singleton]
    exact congrArg answers (hwhole row)
  have hdecided : ∀ batch ∈ batches batch_limit [] (streamRows left), ∀ row ∈ batch,
      (plan.DecidedByVertices batch row ↔
        (INVALID_VERTEX_ID ∈ (plan.op.corrRow row).map sjVertexId → answers (plan.op.corrRow row) = [])) := by
    intro batch hmem row hrow
    have hin : row ∈ streamRows left := hflat ▸ mem_flatten.mpr ⟨batch, hmem, hrow⟩
    have hrows : streamRows (plan.op.right (plan.op.correlated_source.executeChunk (batch.map plan.op.corrRow))) =
        batch.flatMap fun r => answers (plan.op.corrRow r) := by
      have hsource := sourceRows_of_batch plan.op.correlated_source plan.op.left_correlation_cols batch
        (hwritten batch hmem)
      have hmap : batch.map plan.op.corrRow = batch.map (CorrelatedJoin.corrRow plan.op.left_correlation_cols) := rfl
      rw [h.rows, hmap, hsource, flatMap_map]
      exact flatMap_congr fun r _ => congrArg answers (hwhole r)
    unfold DecidedByVertices
    rw [hrows, hown row hin]
    refine and_iff_right fun _ => ?_
    constructor
    · intro hfound
      obtain ⟨answer, hanswer⟩ := exists_mem_of_ne_nil _ hfound
      exact ⟨answer, mem_flatMap.mpr ⟨row, hrow, hanswer⟩, h.carried _ answer hanswer⟩
    · -- another row of the batch with these vertices is answered as this one is
      rintro ⟨right, hright, hcarries⟩
      obtain ⟨other, -, hanswer⟩ := mem_flatMap.mp hright
      have hids := (h.carried _ right hanswer).symm.trans hcarries
      exact h.byVertices _ _ hids (ne_nil_of_mem hanswer)
  rw [Exact, if_pos hcorrelated, if_pos hbatch]
  constructor
  · intro hall row hrow
    rw [← hflat] at hrow
    obtain ⟨batch, hmem, hin⟩ := mem_flatten.mp hrow
    exact (hdecided batch hmem row hin).mp (hall batch hmem row hin)
  · intro hall batch hmem row hrow
    exact (hdecided batch hmem row hrow).mpr (hall row (hflat ▸ mem_flatten.mpr ⟨batch, hmem, hrow⟩))

end SemiJoinPlan

/-! ### Two plans -/

/-- One column of two vertex references. -/
def twoVertices : DataChunk :=
  { columns := [.flat ⟨.VERTEX_REF, [(1 : UInt64), (2 : UInt64)], [true, true]⟩], count := 2 }

def isVertexOne : Row → Bool
  | [v] => sjVertexId v = 1
  | _ => false

/-- A sub-plan that finds something for vertex 1 only, correlated on its only column. -/
def existsPlan : SemiJoinPlan where
  op :=
    { right := fun source => source.map fun chunk =>
        chunk.select ((range chunk.count).filter fun i => isVertexOne (chunk.row i))
      correlated_source := ⟨1⟩
      left_correlation_cols := [0]
      right_correlation_cols := [0]
      right_corr_types := [.VERTEX_REF]
      anti := false }
  left_cols := 1
  right_cols := 1

lemma existsPlan_echoes : existsPlan.EchoesRows fun corr => if isVertexOne corr then [corr] else [] where
  rows stream := by
    refine (streamRows_select isVertexOne stream).trans ?_
    simpa using Joins.filter_map_eq_flatMap isVertexOne id (streamRows stream)
  carried corr answer hanswer := by
    split at hanswer
    next hone =>
      rw [mem_singleton.mp hanswer]
      unfold isVertexOne at hone
      split at hone
      next v =>
        cases v <;> simp_all [sjVertexId, SemiJoinPlan.Carries, existsPlan, cellVertexId, INVALID_VERTEX_ID]
      next => cases hone
    next => cases hanswer
  byVertices corr corr' hids hfound := by
    have hone : isVertexOne corr = true := by
      by_contra hno
      simp [hno] at hfound
    have hother : isVertexOne corr' = true := by
      unfold isVertexOne at hone
      split at hone
      next v =>
        obtain ⟨w, rfl, hw⟩ := map_eq_singleton_iff.mp hids.symm
        simpa [isVertexOne, hw] using hone
      next => cases hone
    simp [hother]

/-- Both rows are decided by their vertices. -/
theorem SemiJoinPlan.exact_iff_existsPlan :
    (streamRows (existsPlan.execute 512 [twoVertices])).map (·.take 1) = existsPlan.expected [twoVertices] := by
  have hcols : ∀ chunk ∈ [twoVertices], chunk.columns.length = 1 := forall_mem_singleton.mpr rfl
  have hkinds := @CorrelatedJoin.fits_of_stable_kinds [twoVertices] [.VERTEX_REF] (forall_mem_singleton.mpr rfl)
  have hrows : streamRows [twoVertices] = [[.vertexRef 1], [.vertexRef 2]] := rfl
  refine (existsPlan.exact_iff 512 [twoVertices] hcols fun _ => hkinds).mpr ?_
  refine (exact_iff_of_echoes existsPlan_echoes (by decide) (by decide) (by decide) ?_ ?_).mpr ?_
  · rw [hrows]
    decide
  · have hbatches : batches 512 [] (streamRows [twoVertices]) = [[[.vertexRef 1], [.vertexRef 2]]] := rfl
    rw [hbatches]
    refine forall_mem_singleton.mpr fun first hfirst row hrow => ?_
    rw [← Option.some.inj hfirst]
    rcases mem_pair.mp hrow with rfl | rfl
    · exact .cons (.inr ⟨(1 : UInt64), rfl, rfl⟩) .nil
    · exact .cons (.inr ⟨(2 : UInt64), rfl, rfl⟩) .nil
  · rw [hrows]
    intro row hrow hinvalid
    rcases mem_pair.mp hrow with rfl | rfl
    · simp [existsPlan, SemiJoinPhysicalOp.corrRow, CorrelatedJoin.corrRow, sjVertexId,
        INVALID_VERTEX_ID] at hinvalid
    · simp [existsPlan, SemiJoinPhysicalOp.corrRow, CorrelatedJoin.corrRow, sjVertexId,
        INVALID_VERTEX_ID] at hinvalid

/-- NOT EXISTS of an uncorrelated pattern that matches nothing. -/
def notExistsPlan : SemiJoinPlan where
  op :=
    { right := fun _ => []
      correlated_source := ⟨0⟩
      left_correlation_cols := []
      right_correlation_cols := []
      right_corr_types := []
      anti := true }
  left_cols := 1
  right_cols := 1

/-- Both left rows should be kept, and none is. -/
theorem SemiJoinPlan.notExists_loses_rows : (streamRows (notExistsPlan.execute 512 [twoVertices])).map (·.take 1) ≠
      notExistsPlan.expected [twoVertices] := by
  intro heq
  have hlength := congrArg length heq
  revert hlength
  decide

end Eugraph.Dataset
