import Eugraph.Query.ExpandAdjacency

/-!
# Single-hop expand is exact

The rows of every execution are the rows of its input with the edges at their sources, each
pair once.  Two expands are not exact: one that does not look at a bound destination, and a
scan of all edges for a type that does not exist.
-/

namespace Eugraph.Dataset

open Lib DataStore List Option Bool Dataset.ExpandPhysicalOp List.Perm Lib.Joins DataChunk Column
open Query (EdgeTypeIndexEntry)
open VarLenExpandPhysicalOp (sideSteps carriedValue getValue_ofType getValue_carryColumn carryColumn)

namespace Expand.ExpandPhysicalOp

variable (op : ExpandPhysicalOp) (store : ExpandReads) (g : Graph)

/-! ### The expected rows -/

/-- The key of an edge: with the end points as stored, or, in a scan of all edges, as it is
followed. -/
def stepKey (v : VertexId) (t : Traversal) : EdgeKey :=
  if op.full_edge_scan then ⟨t.edge.id, v, t.vertex, t.edge.label_id, t.edge.seq.toUInt32⟩
  else ⟨t.edge.id, t.edge.src, t.edge.dst, t.edge.label_id, t.edge.seq.toUInt32⟩

def appendedRow (v : VertexId) (t : Traversal) : Row :=
  (if op.appendsEdge then [.edgeKey (op.stepKey v t)] else []) ++
    (if op.appendsDst then [.vertexRef t.vertex] else [])

/-- The input row in the output; columns without storage are allocated, and a slice has
storage for all of them. -/
def inputRow (chunk : DataChunk) (i : Nat) : Row :=
  if chunk.count ≤ expandInputRows op.env_input_rows then chunk.columns.map (carriedValue i)
  else chunk.row i

/-- One row for each input row and each of its steps. -/
def expectedRows (child : List DataChunk) : List Row :=
  child.flatMap fun chunk => (range chunk.count).flatMap fun i =>
    (op.expectedSteps store g chunk i).map fun t =>
      op.inputRow chunk i ++ op.appendedRow (op.sourceId chunk i) t

/-- An execution yields the expected rows, in some order. -/
def Exact (child out : List DataChunk) : Prop :=
  (streamRows out).Perm (op.expectedRows store g child)

/-- What the planner promises when it makes the expand a scan of all edges: the child is the
scan of all vertices, nothing is bound, and the labels scanned are those asked for, or all
labels if none is.  Rows are counted in a `size_t`. -/
structure ScansAllEdges (child : List DataChunk) : Prop where
  direction : op.direction ≠ .IN
  dst_bound : op.dst_bound = false
  edge_bound : op.edge_bound = false
  dst_labels : op.dst_label_ids = []
  source : op.src_col_idx = some 0
  edge_var : op.edge_var ≠ ""
  dst_var : op.dst_var ≠ ""
  columns : ∀ chunk ∈ child, ∃ buffer, chunk.columns = [.flat buffer]
  rows : ∃ vertices : List VertexId, vertices.Nodup ∧
    (∀ e ∈ g.edges, e.src ∈ vertices ∧ e.dst ∈ vertices) ∧
    streamRows child = vertices.map fun v => [.vertexRef v]
  scanned : ∃ catalog : List EdgeLabelId, catalog.Nodup ∧ (∀ e ∈ g.edges, e.label_id ∈ catalog) ∧
    op.full_scan_labels = if op.label_filters.getD [] = [] then catalog else op.label_filters.getD []
  countable : 2 * g.edges.length < NO_LIMIT

/-- No edge label is asked for twice. -/
structure WellPlanned (child : List DataChunk) : Prop where
  labels : ∀ labels ∈ op.label_filters, labels.Nodup
  full : op.full_edge_scan = true → op.ScansAllEdges g child

/-- No row of an undirected expand without a probe has an edge to another vertex than its
bound destination, and no type is asked for that does not exist where all edges are scanned
instead. -/
structure KeepsBounds (child : List DataChunk) : Prop where
  bound : op.full_edge_scan = false → op.unprobed = true →
    ∀ chunk ∈ child, ∀ i < chunk.count, ∀ t ∈ g.incident op.direction (op.sourceId chunk i),
      op.labelPasses t.edge.label_id = true → op.edgeMatches chunk i t.edge.id = true →
        op.dstLabelsMatch store t.vertex = true → t.vertex = op.boundDst chunk i
  typed : op.full_edge_scan = true → op.label_filters = some [] → g.edges = []

variable {op store g}

/-! ### Output chunks -/

section Output

variable {chunk : DataChunk}

lemma inputColumn_eq (rows : List Nat) (col : Column) :
    inputColumn rows col = carryColumn (rows.map fun i => ⟨i, INVALID_VERTEX_ID, [], []⟩) col := by
  cases col with
  | unallocated type => simp [inputColumn, carryColumn]
  | flat buffer => simp [inputColumn, carryColumn, Function.comp_def]
  | constant value => rfl
  | dict buffer sel => simp [inputColumn, carryColumn, Function.comp_def]

lemma getValue_inputColumn {rows : List Nat} (col : Column) {j : Nat} (hj : j < rows.length) :
    (inputColumn rows col).getValue j = carriedValue rows[j] col := by
  rw [inputColumn_eq, getValue_carryColumn _ _ (by simpa using hj)]
  simp

lemma getValue_vectorColumn (kind : BoundTypeKind) {data : List (Payload kind)} {j : Nat}
    {x : Payload kind} (hx : data[j]? = some x) :
    (vectorColumn kind data).getValue j = Payload.toValue kind x := by
  obtain ⟨hj, -⟩ := List.getElem?_eq_some_iff.mp hx
  exact getValue_vector kind (by omega) hx

/-- A chunk has one row for each edge. -/
theorem rows_buildChunk (hfull : op.full_edge_scan = false) (edges : List EdgeEntryScratch) :
    (op.buildChunk chunk edges).rows = (edges.map (op.taken chunk)).map fun p =>
      chunk.columns.map (carriedValue p.1) ++ op.appendedRow (op.sourceId chunk p.1) p.2 := by
  apply ext_getElem
  · simp [rows, buildChunk]
  · intro j hj hj'
    have hlt : j < edges.length := by simpa using hj'
    simp only [DataChunk.rows, getElem_map, getElem_range, DataChunk.row, buildChunk, map_append, List.map_map]
    congr 1
    · apply map_congr_left
      intro col _
      have hj : j < (edges.map (·.src_row)).length := by simpa using hlt
      have hrow := getValue_inputColumn col hj
      rw [getElem_map] at hrow
      exact hrow
    · unfold appendedColumns appendedRow
      rw [map_append]
      congr 1
      · split
        · have hkey : (edges.map fun e => edgeKey (op.sourceId chunk e.src_row) e.entry)[j]? =
              some (edgeKey (op.sourceId chunk edges[j].src_row) edges[j].entry) := by simp [hlt]
          rw [map_singleton]
          refine (congrArg (fun v => [v]) (getValue_vectorColumn .EDGE_KEY hkey)).trans ?_
          simp only [stepKey, hfull, false_eq_true, if_false]
          rfl
        · rfl
      · split
        · have hdst : (edges.map fun e => e.entry.neighbor_id)[j]? = some edges[j].entry.neighbor_id := by simp [hlt]
          rw [map_singleton]
          exact congrArg (fun v => [v]) (getValue_vectorColumn .VERTEX_REF hdst)
        · rfl

/-- The rows for the steps taken from one chunk. -/
def chunkRows (op : ExpandPhysicalOp) (store : ExpandReads) (g : Graph) (chunk : DataChunk) : List Row :=
  (range chunk.count).flatMap fun i => (op.takenSteps store g chunk i).map fun t =>
    chunk.columns.map (carriedValue i) ++ op.appendedRow (op.sourceId chunk i) t

lemma executeChunks_rows (h : store.Holds g) (hends : g.ValidEnds)
    (hlabels : ∀ labels ∈ op.label_filters, labels.Nodup) (hfull : op.full_edge_scan = false)
    (chunks : List DataChunk) {cache : NeighborCache} (hcache : op.CacheOk store g cache) :
    op.CacheOk store g (op.executeChunks store cache chunks).2 ∧
      (streamRows (op.executeChunks store cache chunks).1).Perm
        (chunks.flatMap (op.chunkRows store g)) := by
  induction chunks generalizing cache with
  | nil => exact ⟨hcache, .refl _⟩
  | cons chunk rest ih =>
    obtain ⟨hcache', hsteps⟩ : op.CacheOk store g (op.chunkEdges store chunk cache).2 ∧
        ((op.chunkEdges store chunk cache).1.map (op.taken chunk)).Perm
          ((range chunk.count).flatMap fun i =>
            (op.takenSteps store g chunk i).map fun t => (i, t)) :=
      chunkEdges_steps h hends hlabels hcache
    obtain ⟨hlast, hrest⟩ := ih hcache'
    simp only [executeChunks, flatMap_cons]
    refine ⟨hlast, ?_⟩
    have hrows := hsteps.map fun p =>
      chunk.columns.map (carriedValue p.1) ++ op.appendedRow (op.sourceId chunk p.1) p.2
    rw [← rows_buildChunk hfull, map_flatMap] at hrows
    simp only [List.map_map] at hrows
    split
    next hnone =>
      rw [hnone] at hrows
      have hempty := hrows.symm.eq_nil
      refine hrest.trans (of_eq ?_)
      rw [show op.chunkRows store g chunk = [] from hempty, nil_append]
    next => exact hrows.append hrest

end Output

/-! ### Slices -/

section Slices

variable {chunk : DataChunk} {offset count : Nat}

/-- A slice of a column is flat and reads what the column reads. -/
theorem sliceColumn_spec (offset count : Nat) (src : Column) :
    ∃ buffer, sliceColumn offset count src = .flat buffer ∧
      ∀ i < count, buffer.getValue i = src.getValue (offset + i) := by
  have hwrite (k : Nat) (hk : k ≤ count) :
      Writable src.type count ((range k).foldl (fun dst i =>
          if src.isNull (offset + i) then dst.setNull i
          else dst.setValue i (src.getValue (offset + i))) (ofType src.type count)) ∧
        ∀ i < k, ((range k).foldl (fun dst i =>
          if src.isNull (offset + i) then dst.setNull i
          else dst.setValue i (src.getValue (offset + i))) (ofType src.type count)).getValue i =
            src.getValue (offset + i) := by
    induction k with
    | zero => exact ⟨writable_ofType src.type count, fun i hi => by omega⟩
    | succ k ih =>
      obtain ⟨hwritable, hread⟩ := ih (by omega)
      rw [range_succ, foldl_append, foldl_cons, foldl_nil]
      split
      next hnull =>
        obtain ⟨hnext, hvalues⟩ := hwritable.setNull (by omega : k < count)
        refine ⟨hnext, fun i hi => ?_⟩
        rw [hvalues i]
        split
        next heq => rw [heq, getValue_of_isNull hnull]
        next hne => exact hread i (by omega)
      next =>
        obtain ⟨hnext, hvalues⟩ := hwritable.setValue (by omega : k < count)
          (fits_getValue src (offset + k))
        refine ⟨hnext, fun i hi => ?_⟩
        rw [hvalues i]
        split
        next heq => rw [heq]
        next hne => exact hread i (by omega)
  obtain ⟨⟨buffer, hflat, -⟩, hread⟩ := hwrite count (Nat.le_refl count)
  refine ⟨buffer, hflat, fun i hi => ?_⟩
  have hvalue := hread i hi
  rw [hflat] at hvalue
  exact hvalue

variable {i : Nat}

lemma getValue_sliceChunk (hi : i < count) (c : Nat) :
    (sliceChunk chunk offset count).getValue c i = chunk.getValue c (offset + i) := by
  unfold DataChunk.getValue sliceChunk
  rw [getElem?_map]
  cases hcol : chunk.columns[c]? with
  | none => rfl
  | some col =>
    obtain ⟨buffer, hflat, hread⟩ := sliceColumn_spec offset count col
    show (sliceColumn offset count col).getValue i = col.getValue (offset + i)
    rw [hflat]
    exact hread i hi

lemma carried_sliceChunk (hi : i < count) :
    (sliceChunk chunk offset count).columns.map (carriedValue i) = chunk.row (offset + i) := by
  unfold sliceChunk DataChunk.row
  rw [List.map_map]
  apply map_congr_left
  intro col _
  obtain ⟨buffer, hflat, hread⟩ := sliceColumn_spec offset count col
  show carriedValue i (sliceColumn offset count col) = col.getValue (offset + i)
  rw [hflat]
  exact hread i hi

lemma sourceId_sliceChunk (hi : i < count) :
    op.sourceId (sliceChunk chunk offset count) i = op.sourceId chunk (offset + i) := by
  unfold sourceId
  simp only [getValue_sliceChunk hi]

lemma takenSteps_sliceChunk (hi : i < count) : op.takenSteps store g (sliceChunk chunk offset count) i =
      op.takenSteps store g chunk (offset + i) := by
  have hedge (id : EdgeId) :
      op.edgeMatches (sliceChunk chunk offset count) i id = op.edgeMatches chunk (offset + i) id := by
    rw [edgeMatches, edgeMatches, getValue_sliceChunk hi]
  have hdst (v : VertexId) :
      op.dstMatches (sliceChunk chunk offset count) i v = op.dstMatches chunk (offset + i) v := by
    rw [dstMatches, dstMatches, boundDst, boundDst, getValue_sliceChunk hi]
  simp only [takenSteps, sourceId_sliceChunk hi, hedge, hdst]

/-- The rows for one row of a chunk that is sliced. -/
def slicedRow (op : ExpandPhysicalOp) (store : ExpandReads) (g : Graph) (chunk : DataChunk) (i : Nat) :
    List Row :=
  (op.takenSteps store g chunk i).map fun t => chunk.row i ++ op.appendedRow (op.sourceId chunk i) t

lemma chunkRows_sliceChunk : op.chunkRows store g (sliceChunk chunk offset count) =
      (range count).flatMap fun i => op.slicedRow store g chunk (offset + i) := by
  show (range count).flatMap _ = _
  apply flatMap_congr
  intro i hi
  have hlt := mem_range.mp hi
  rw [takenSteps_sliceChunk hlt, carried_sliceChunk hlt, sourceId_sliceChunk hlt]
  rfl

lemma slices_rows {batch_rows : Nat} (hpos : 0 < batch_rows) (offset rows : Nat) :
    (slices chunk batch_rows offset rows).flatMap (op.chunkRows store g) =
      (range (rows - offset)).flatMap fun i => op.slicedRow store g chunk (offset + i) := by
  induction offset using slices.induct batch_rows rows with
  | case1 offset hdone =>
    rw [slices, dif_pos hdone]
    have hzero : rows - offset = 0 := by omega
    rw [hzero]
    rfl
  | case2 offset hmore ih =>
    rw [slices, dif_neg hmore, flatMap_cons, chunkRows_sliceChunk, ih]
    -- the first slice, then the rest
    have hsplit : rows - offset = min batch_rows (rows - offset) + (rows - (offset + batch_rows)) := by omega
    rw [hsplit, range_add, flatMap_append, flatMap_map]
    by_cases hlast : rows - offset ≤ batch_rows
    · have hzero : rows - (offset + batch_rows) = 0 := by omega
      rw [← hsplit, hzero, Nat.min_eq_right hlast]
      simp
    · have hmin : min batch_rows (rows - offset) = batch_rows := by omega
      rw [← hsplit, hmin]
      simp only [Nat.add_assoc]

lemma expandInputRows_pos (parsed : Option Nat) : 0 < expandInputRows parsed := by
  cases parsed with
  | none => decide
  | some n =>
    cases n with
    | zero => decide
    | succ n =>
      show 0 < min (n + 1) 4096
      omega

/-- The slices of the input stand for the rows of the input. -/
theorem slicedChild_rows (child : List DataChunk) :
    (slicedChild (expandInputRows op.env_input_rows) child).flatMap (op.chunkRows store g) =
      child.flatMap fun chunk => (range chunk.count).flatMap fun i =>
        (op.takenSteps store g chunk i).map fun t =>
          op.inputRow chunk i ++ op.appendedRow (op.sourceId chunk i) t := by
  unfold slicedChild
  rw [flatMap_assoc]
  congr 1
  funext chunk
  split
  next hzero => simp [hzero]
  next =>
    split
    next hwhole => simp [chunkRows, inputRow, hwhole]
    next hlarge =>
      rw [slices_rows (expandInputRows_pos _)]
      simp [slicedRow, inputRow, hlarge]

end Slices

/-! ### Row by row, nothing is missing -/

section Rows

lemma expectedSteps_eq (chunk : DataChunk) (i : Nat) : op.expectedSteps store g chunk i =
      (op.takenSteps store g chunk i).filter fun t => op.dstMatches chunk i t.vertex := by
  unfold expectedSteps takenSteps
  rw [List.filter_filter]
  apply filter_congr
  intro t _
  cases op.dstMatches chunk i t.vertex with
  | true => simp
  | false => simp

/-- The rows taken are the expected ones exactly when all of them lead to the bound
destination. -/
theorem exact_iff_dstMatches {child out : List DataChunk}
    (hout : (streamRows out).Perm (child.flatMap fun chunk => (range chunk.count).flatMap fun i =>
      (op.takenSteps store g chunk i).map fun t =>
        op.inputRow chunk i ++ op.appendedRow (op.sourceId chunk i) t)) :
    op.Exact store g child out ↔ ∀ chunk ∈ child, ∀ i < chunk.count,
      ∀ t ∈ op.takenSteps store g chunk i, op.dstMatches chunk i t.vertex = true := by
  have hle (chunk : DataChunk) (i : Nat) :
      ((op.expectedSteps store g chunk i).map fun t =>
        op.inputRow chunk i ++ op.appendedRow (op.sourceId chunk i) t).length ≤
      ((op.takenSteps store g chunk i).map fun t =>
        op.inputRow chunk i ++ op.appendedRow (op.sourceId chunk i) t).length := by
    rw [length_map, length_map, expectedSteps_eq]
    exact length_filter_le _ _
  constructor
  · intro hexact chunk hchunk i hi
    have htotal := (hexact.symm.trans hout).length_eq
    have hchunks := length_eq_of_flatMap
      (fun chunk _ => length_flatMap_le fun i _ => hle chunk i) htotal chunk hchunk
    have hrow := length_eq_of_flatMap (fun i _ => hle chunk i) hchunks i (mem_range.mpr hi)
    rw [length_map, length_map, expectedSteps_eq] at hrow
    exact length_filter_eq_length_iff.mp hrow
  · intro hall
    refine hout.trans (of_eq ?_)
    unfold expectedRows
    apply flatMap_congr
    intro chunk hchunk
    apply flatMap_congr
    intro i hi
    rw [expectedSteps_eq, filter_eq_self.mpr (hall chunk hchunk i (mem_range.mp hi))]

lemma dstMatches_iff_bound (chunk : DataChunk) (i : Nat) :
    (∀ t ∈ op.takenSteps store g chunk i, op.dstMatches chunk i t.vertex = true) ↔
      (op.unprobed = true → ∀ t ∈ g.incident op.direction (op.sourceId chunk i),
        op.labelPasses t.edge.label_id = true → op.edgeMatches chunk i t.edge.id = true →
          op.dstLabelsMatch store t.vertex = true → t.vertex = op.boundDst chunk i) := by
  unfold takenSteps
  cases hprobe : op.unprobed with
  | false =>
    simp only [false_eq_true, false_implies, iff_true]
    intro t ht
    have hkept := (mem_filter.mp ht).2
    simp only [Bool.false_or, and_eq_true] at hkept
    exact hkept.1.2
  | true =>
    have hdst : op.dst_bound = true := by
      simp only [unprobed, and_eq_true] at hprobe
      exact hprobe.1.2
    simp only [mem_filter, Bool.true_or, Bool.and_true, and_eq_true, dstMatches, hdst,
      Bool.not_true, Bool.false_or, decide_eq_true_eq, true_implies]
    constructor
    · intro hall t ht hlabel hedge hdsts
      exact (hall t ⟨ht, ⟨hlabel, hedge⟩, hdsts⟩).symm
    · intro hall t ht
      exact (hall t ht.1 ht.2.1.1 ht.2.1.2 ht.2.2).symm

end Rows

/-! ### A scan of all edges -/

section FullScan

variable (undirected : Bool)

/-- The rows for a stored edge. -/
def edgeRows (e : StoredEdge) : List Row :=
  edgeRow ⟨e.id, e.src, e.dst, e.label_id, e.seq.toUInt32⟩ ::
    if undirected && e.src ≠ e.dst then [edgeRow ⟨e.id, e.dst, e.src, e.label_id, e.seq.toUInt32⟩]
    else []

lemma batchRows_perm (lid : EdgeLabelId) (batch : List EdgeTypeIndexEntry) :
    (batchRows undirected lid batch).Perm (batch.flatMap fun e =>
      edgeRows undirected ⟨e.edgeId, e.srcVertexId, e.dstVertexId, lid, e.seq⟩) := by
  unfold batchRows edgeRows
  cases undirected with
  | false =>
    simp only [false_eq_true, if_false, append_nil, Bool.false_and]
    exact of_eq map_eq_flatMap
  | true =>
    simp only [if_true, Bool.true_and]
    exact map_append_filter_map _ _ _ batch

/-- A scan that does not run out of rows reads all batches. -/
theorem scanBatches_all (lid : EdgeLabelId) (batches : List (List EdgeTypeIndexEntry)) {r : Nat}
    (hr : (batches.flatMap (batchRows undirected lid)).length < r) :
    streamRows (scanBatches undirected lid r batches).1 = batches.flatMap (batchRows undirected lid) := by
  induction batches generalizing r with
  | nil => rfl
  | cons batch rest ih =>
    rw [flatMap_cons, length_append] at hr
    have hbatch : batch.length ≤ (batchRows undirected lid batch).length := by
      rw [batchRows, length_append, length_map]
      omega
    rw [(scanBatches_whole undirected lid rest (by omega)).1,
      ih (by omega), flatMap_cons]

lemma scanLabels_all (scan : EdgeLabelId → List (List EdgeTypeIndexEntry)) (lids : List EdgeLabelId)
    {r : Nat} (hr : (lids.flatMap fun lid =>
      (scan lid).flatMap (batchRows undirected lid)).length < r) :
    streamRows (scanLabels undirected scan r lids) =
      lids.flatMap fun lid => (scan lid).flatMap (batchRows undirected lid) := by
  induction lids generalizing r with
  | nil => rfl
  | cons lid rest ih =>
    rw [flatMap_cons, length_append] at hr
    have hbatches := scanBatches_all undirected lid (scan lid) (r := r) (by omega)
    have hleft := scanBatches_left undirected lid r (scan lid)
    rw [hbatches] at hleft
    have hpos : ¬ r = 0 := by omega
    simp only [scanLabels, hpos, if_false, streamRows, flatMap_append, flatMap_cons]
    rw [hleft]
    exact congrArg₂ (· ++ ·) hbatches (ih (by omega))

/-- The rows of the scanned labels are those of their edges. -/
theorem scanned_perm (h : store.Holds g) {lids : List EdgeLabelId} (hlids : lids.Nodup) :
    (lids.flatMap fun lid => (store.scanEdgesByType lid).flatMap (batchRows undirected lid)).Perm
      ((g.edges.filter fun e => lids.contains e.label_id).flatMap (edgeRows undirected)) := by
  have hlabel (lid : EdgeLabelId) : ((store.scanEdgesByType lid).flatMap (batchRows undirected lid)).Perm
      ((g.edges.filter fun e => e.label_id = lid).flatMap (edgeRows undirected)) := by
    refine (flatMap_left _ fun batch _ => batchRows_perm undirected lid batch).trans ?_
    rw [← flatMap_assoc, flatMap_id']
    refine ((h.by_type lid).flatMap_right _).trans (of_eq ?_)
    rw [flatMap_map]
    apply flatMap_congr
    intro e he
    rw [← of_decide_eq_true (mem_filter.mp he).2]
  refine (flatMap_left _ fun lid _ => hlabel lid).trans ?_
  rw [← flatMap_assoc]
  exact (flatMap_filter_key (fun e : StoredEdge => e.label_id) hlids g.edges).flatMap_right _

variable {vertices : List VertexId}

/-- The steps on one side of all vertices are the edges. -/
theorem sideSteps_vertices {β : Type} (scan_dir : Direction) (hvertices : vertices.Nodup)
    (hmem : ∀ e ∈ g.edges, (if scan_dir = .OUT then e.src else e.dst) ∈ vertices)
    (p : Traversal → Bool) (f : VertexId → Traversal → β) :
    (vertices.flatMap fun v => ((sideSteps g v scan_dir none).filter p).map (f v)).Perm
      ((g.edges.filter fun e => p ⟨e, if scan_dir = .OUT then e.dst else e.src⟩).map fun e =>
        f (if scan_dir = .OUT then e.src else e.dst) ⟨e, if scan_dir = .OUT then e.dst else e.src⟩) := by
  have hside (v : VertexId) : ((sideSteps g v scan_dir none).filter p).map (f v) =
      ((g.edges.filter fun e => p ⟨e, if scan_dir = .OUT then e.dst else e.src⟩).filter fun e =>
        (if scan_dir = .OUT then e.src else e.dst) = v).map fun e =>
          f (if scan_dir = .OUT then e.src else e.dst)
            ⟨e, if scan_dir = .OUT then e.dst else e.src⟩ := by
    unfold sideSteps
    rw [List.filter_map, List.map_map, List.filter_filter, List.filter_filter]
    have hfilter : (g.edges.filter fun e =>
          ((fun t => p t) ∘ fun e => (⟨e, if scan_dir = .OUT then e.dst else e.src⟩ : Traversal)) e &&
            (decide ((if scan_dir = .OUT then e.src else e.dst) = v) && passesFilter none e.label_id)) =
        g.edges.filter fun e => decide ((if scan_dir = .OUT then e.src else e.dst) = v) &&
          p ⟨e, if scan_dir = .OUT then e.dst else e.src⟩ := by
      apply filter_congr
      intro e _
      simp [passesFilter, Bool.and_comm]
    refine (congrArg _ hfilter).trans (map_congr_left fun e he => ?_)
    have hstart := (mem_filter.mp he).2
    simp only [and_eq_true, decide_eq_true_eq] at hstart
    simp only [Function.comp_apply, hstart.1]
  simp only [hside]
  rw [← map_flatMap]
  apply List.Perm.map
  exact flatMap_filter_key_of_mem _ hvertices fun e he => hmem e (mem_filter.mp he).1

lemma length_edgeRows_le (e : StoredEdge) : (edgeRows undirected e).length ≤ 2 := by
  unfold edgeRows
  split
  · exact Nat.le_refl 2
  · exact Nat.le_succ 1

lemma length_flatMap_edgeRows_le (edges : List StoredEdge) :
    (edges.flatMap (edgeRows undirected)).length ≤ 2 * edges.length := by
  induction edges with
  | nil => exact Nat.le_refl 0
  | cons e rest ih =>
    have he := length_edgeRows_le undirected e
    rw [flatMap_cons, length_append, length_cons]
    omega

variable {undirected} {child : List DataChunk}

/-- The rows a scan of all edges should have at one vertex. -/
def vertexRows (op : ExpandPhysicalOp) (g : Graph) (v : VertexId) : List Row :=
  ((g.incident op.direction v).filter fun t => op.labelPasses t.edge.label_id).map fun t =>
    edgeRow ⟨t.edge.id, v, t.vertex, t.edge.label_id, t.edge.seq.toUInt32⟩

/-- The child lists the vertices, so the expected rows are those of the vertices. -/
theorem expectedRows_vertices (hfull : op.full_edge_scan = true) (hplan : op.ScansAllEdges g child)
    (hrows : streamRows child = vertices.map fun v => [.vertexRef v]) :
    op.expectedRows store g child = vertices.flatMap (op.vertexRows g) := by
  have hchunk (chunk : DataChunk) (hmem : chunk ∈ child) (i : Nat) (hi : i < chunk.count) :
      ((op.expectedSteps store g chunk i).map fun t =>
        op.inputRow chunk i ++ op.appendedRow (op.sourceId chunk i) t) =
      op.vertexRows g (cellVertexId ((chunk.row i).headD .null)) := by
    obtain ⟨buffer, hcolumns⟩ := hplan.columns chunk hmem
    have hrow : chunk.row i = [buffer.getValue i] := by
      rw [DataChunk.row, hcolumns]
      rfl
    obtain ⟨v, -, hv⟩ : ∃ v ∈ vertices, [Value.vertexRef v] = chunk.row i := by
      rw [← List.mem_map, ← hrows]
      exact mem_flatMap.mpr ⟨chunk, hmem, List.mem_map_of_mem (mem_range.mpr hi)⟩
    have hvalue : buffer.getValue i = .vertexRef v := by
      rw [hrow] at hv
      exact (List.cons.inj hv).1.symm
    have hinput : op.inputRow chunk i = [.vertexRef v] := by
      unfold inputRow
      split
      · rw [hcolumns, ← hvalue]
        rfl
      · rw [hrow, hvalue]
    have hsource : op.sourceId chunk i = v := by
      rw [sourceId, hplan.source, elim_some, DataChunk.getValue, hcolumns]
      show cellVertexId (buffer.getValue i) = v
      rw [hvalue]
      rfl
    rw [hinput, hsource, hrow, hvalue]
    show _ = op.vertexRows g v
    unfold vertexRows
    have hsteps : op.expectedSteps store g chunk i =
        (g.incident op.direction v).filter fun t => op.labelPasses t.edge.label_id := by
      rw [expectedSteps, hsource]
      apply filter_congr
      intro t _
      simp [edgeMatches, hplan.edge_bound, dstMatches, hplan.dst_bound, dstLabelsMatch, hplan.dst_labels]
    rw [hsteps]
    apply map_congr_left
    intro t _
    simp [appendedRow, appendsEdge, hplan.edge_bound, hplan.edge_var, appendsDst, hplan.dst_bound,
      hplan.dst_var, stepKey, hfull, edgeRow]
  have hstream : op.expectedRows store g child = (streamRows child).flatMap fun row =>
      op.vertexRows g (cellVertexId (row.headD .null)) := by
    unfold expectedRows streamRows
    rw [flatMap_assoc]
    apply flatMap_congr
    intro chunk hmem
    rw [rows, flatMap_map]
    apply flatMap_congr
    intro i hi
    exact hchunk chunk hmem i (mem_range.mp hi)
  rw [hstream, hrows, flatMap_map]
  rfl

/-- Every edge is at its end points. -/
theorem vertexRows_perm (hdir : op.direction ≠ .IN)
    (hvertices : vertices.Nodup) (hends : ∀ e ∈ g.edges, e.src ∈ vertices ∧ e.dst ∈ vertices) :
    (vertices.flatMap (op.vertexRows g)).Perm
      ((g.edges.filter fun e => op.labelPasses e.label_id).flatMap (edgeRows (op.direction = .BOTH))) := by
  have hout := sideSteps_vertices .OUT hvertices
    (fun e he => (hends e he).1) (fun t => op.labelPasses t.edge.label_id)
    (fun v t => edgeRow ⟨t.edge.id, v, t.vertex, t.edge.label_id, t.edge.seq.toUInt32⟩)
  simp only [if_true] at hout
  cases hcase : op.direction with
  | IN => exact absurd hcase hdir
  | OUT =>
    have hrow : op.vertexRows g = fun v =>
        ((sideSteps g v .OUT none).filter fun t => op.labelPasses t.edge.label_id).map fun t =>
          edgeRow ⟨t.edge.id, v, t.vertex, t.edge.label_id, t.edge.seq.toUInt32⟩ := by
      funext v
      simp [vertexRows, Graph.incident, hcase]
    rw [hrow]
    refine hout.trans (of_eq ?_)
    rw [map_eq_flatMap]
    rfl
  | BOTH =>
    have hin := sideSteps_vertices .IN hvertices (fun e he => (hends e he).2)
      (fun t => op.labelPasses t.edge.label_id && decide (t.edge.src ≠ t.edge.dst))
      (fun v t => edgeRow ⟨t.edge.id, v, t.vertex, t.edge.label_id, t.edge.seq.toUInt32⟩)
    simp only [reduceCtorEq, if_false] at hin
    have hrow : op.vertexRows g = fun v =>
        (((sideSteps g v .OUT none).filter fun t => op.labelPasses t.edge.label_id).map fun t =>
          edgeRow ⟨t.edge.id, v, t.vertex, t.edge.label_id, t.edge.seq.toUInt32⟩) ++
        (((sideSteps g v .IN none).filter fun t =>
          op.labelPasses t.edge.label_id && decide (t.edge.src ≠ t.edge.dst)).map fun t =>
            edgeRow ⟨t.edge.id, v, t.vertex, t.edge.label_id, t.edge.seq.toUInt32⟩) := by
      funext v
      rw [vertexRows, Graph.incident, if_pos hcase, filter_append, map_append, List.filter_filter]
    rw [hrow]
    refine (flatMap_append_perm vertices _ _).symm.trans ((hout.append hin).trans ?_)
    have hsides := map_append_filter_map (fun e : StoredEdge => decide (e.src ≠ e.dst))
      (fun e => edgeRow ⟨e.id, e.src, e.dst, e.label_id, e.seq.toUInt32⟩)
      (fun e => edgeRow ⟨e.id, e.dst, e.src, e.label_id, e.seq.toUInt32⟩)
      (g.edges.filter fun e => op.labelPasses e.label_id)
    rw [List.filter_filter] at hsides
    simp only [Bool.and_comm] at hsides ⊢
    exact hsides

/-- A scan of all edges emits the rows of the edges of its types. -/
theorem fullScan_rows (h : store.Holds g) (hlabels : ∀ labels ∈ op.label_filters, labels.Nodup)
    (hplan : op.ScansAllEdges g child) :
    (streamRows (scanLabels (op.direction = .BOTH) store.scanEdgesByType
      NO_LIMIT op.full_scan_labels)).Perm ((g.edges.filter fun e =>
        op.full_scan_labels.contains e.label_id).flatMap (edgeRows (op.direction = .BOTH))) := by
  obtain ⟨catalog, hcatalog, hknown, hscanned⟩ := hplan.scanned
  have hnodup : op.full_scan_labels.Nodup := by
    rw [hscanned]
    split
    · exact hcatalog
    · cases hfilters : op.label_filters with
      | none => exact nodup_nil
      | some labels => exact hlabels labels hfilters
  have hperm := scanned_perm (g := g) (decide (op.direction = .BOTH)) h hnodup
  rw [scanLabels_all]
  · exact hperm
  · have hlength := length_flatMap_edgeRows_le (decide (op.direction = .BOTH))
      (g.edges.filter fun e => op.full_scan_labels.contains e.label_id)
    have hkept := length_filter_le (fun e => op.full_scan_labels.contains e.label_id) g.edges
    have hcount := hplan.countable
    rw [hperm.length_eq]
    omega

/-- A scan of all edges is exact unless it scans for a type that does not exist. -/
theorem fullScan_exact_iff (h : store.Holds g) (hlabels : ∀ labels ∈ op.label_filters, labels.Nodup)
    (hfull : op.full_edge_scan = true) (hplan : op.ScansAllEdges g child) {out : List DataChunk}
    (hout : out = scanLabels (op.direction = .BOTH) store.scanEdgesByType NO_LIMIT op.full_scan_labels) :
    op.Exact store g child out ↔ (op.label_filters = some [] → g.edges = []) := by
  obtain ⟨vertices, hvertices, hends, hrows⟩ := hplan.rows
  obtain ⟨catalog, hcatalog, hknown, hscanned⟩ := hplan.scanned
  have hread : (streamRows out).Perm ((g.edges.filter fun e =>
      op.full_scan_labels.contains e.label_id).flatMap (edgeRows (op.direction = .BOTH))) := by
    rw [hout]
    exact fullScan_rows h hlabels hplan
  have hwanted : (op.expectedRows store g child).Perm ((g.edges.filter fun e =>
      op.labelPasses e.label_id).flatMap (edgeRows (op.direction = .BOTH))) := by
    rw [expectedRows_vertices hfull hplan hrows]
    exact vertexRows_perm hplan.direction hvertices hends
  have hall : (g.edges.filter fun e => catalog.contains e.label_id) = g.edges :=
    filter_eq_self.mpr fun e he => by simpa using hknown e he
  have hcompare : op.Exact store g child out ↔ ((g.edges.filter fun e =>
      op.full_scan_labels.contains e.label_id).flatMap (edgeRows (op.direction = .BOTH))).Perm
        ((g.edges.filter fun e => op.labelPasses e.label_id).flatMap (edgeRows (op.direction = .BOTH))) :=
    ⟨fun hexact => hread.symm.trans (hexact.trans hwanted), fun hsame => hread.trans (hsame.trans hwanted.symm)⟩
  rw [hcompare, hscanned]
  unfold labelPasses
  cases op.label_filters with
  | none =>
    simp only [getD_none, if_true, hall, all_none, filter_true, reduceCtorEq, false_implies, iff_true]
    exact .refl _
  | some labels =>
    cases labels with
    | cons label rest => simp
    | nil =>
      simp only [getD_some, if_true, hall, all_some, contains_nil, filter_false, flatMap_nil, true_implies]
      rw [perm_nil, flatMap_eq_nil_iff]
      constructor
      · intro hnone
        rw [eq_nil_iff_forall_not_mem]
        intro e he
        exact absurd (hnone e he) (by simp [edgeRows])
      · intro hnone e he
        rw [hnone] at he
        cases he

end FullScan

/-! ### All executions -/

lemma cachedChunk_exact_iff (h : store.Holds g) (hends : g.ValidEnds) {child : List DataChunk}
    (hplan : op.WellPlanned g child) {cache : NeighborCache} (hcache : op.CacheOk store g cache) :
    op.CacheOk store g (op.executeChunk store cache child).2 ∧
      (op.Exact store g child (op.executeChunk store cache child).1 ↔ op.KeepsBounds store g child) := by
  unfold executeChunk
  cases hfull : op.full_edge_scan with
  | true =>
    refine ⟨hcache, ?_⟩
    rw [if_pos rfl, fullScan_exact_iff h hplan.labels hfull (hplan.full hfull) rfl]
    exact ⟨fun htyped => ⟨fun hrow => by simp [hfull] at hrow, fun _ => htyped⟩,
      fun hkeeps => hkeeps.typed hfull⟩
  | false =>
    obtain ⟨hcache', hrows⟩ := executeChunks_rows h hends hplan.labels hfull
      (slicedChild (expandInputRows op.env_input_rows) child) hcache
    rw [slicedChild_rows] at hrows
    rw [if_neg Bool.false_ne_true]
    refine ⟨hcache', ?_⟩
    rw [exact_iff_dstMatches hrows]
    simp only [dstMatches_iff_bound]
    constructor
    · intro hall
      exact ⟨fun _ hprobe chunk hchunk i hi => hall chunk hchunk i hi hprobe, fun hscan => by simp [hfull] at hscan⟩
    · intro hkeeps chunk hchunk i hi hprobe
      exact hkeeps.bound hfull hprobe chunk hchunk i hi

lemma executions_exact_of_cache (h : store.Holds g) (hends : g.ValidEnds)
    (children : List (List DataChunk)) (hplan : ∀ child ∈ children, op.WellPlanned g child)
    {cache : NeighborCache} (hcache : op.CacheOk store g cache) :
    Forall₂ (op.Exact store g) children (op.executions store cache children) ↔
      ∀ child ∈ children, op.KeepsBounds store g child := by
  induction children generalizing cache with
  | nil => simp [executions]
  | cons child rest ih =>
    obtain ⟨hcache', hexact⟩ := cachedChunk_exact_iff h hends (hplan child mem_cons_self) hcache
    simp only [executions, forall₂_cons, forall_mem_cons]
    rw [hexact, ih (fun later hlater => hplan later (mem_cons_of_mem _ hlater)) hcache']

/-- In any number of executions over a graph that does not change, with the cache kept from
one to the next, each yields one row for every pair of an input row and a matching edge,
exactly when no bound destination goes unchecked and no missing type is scanned for. -/
theorem executions_exact_iff {op : ExpandPhysicalOp} {store : ExpandReads} {g : Graph}
    (h : store.Holds g) (hends : g.ValidEnds) {children : List (List DataChunk)}
    (hplan : ∀ child ∈ children, op.WellPlanned g child) :
    Forall₂ (op.Exact store g) children (op.executions store .empty children) ↔
      ∀ child ∈ children, op.KeepsBounds store g child :=
  executions_exact_of_cache h hends children hplan cacheOk_empty

/-! ### A bound destination that is not looked at -/

/-- The reads of a graph whose vertices have no labels. -/
def expandReads (g : Graph) : ExpandReads :=
  { g.reads fun _ => [] with
    scanEdgesExact := fun v scan_dir label n =>
      (g.entries v scan_dir (some label)).filter (·.neighborId = n)
    scanEdgesByType := fun label =>
      [(g.edges.filter (·.label_id = label)).map fun e => ⟨e.src, e.dst, e.seq, e.id⟩]
    scanVerticesByLabel := fun _ => [] }

lemma expandReads_holds (g : Graph) : (expandReads g).Holds g where
  toHolds := g.reads_holds _
  exact _ _ _ _ _ := .refl _
  by_type label := by
    show (flatten [_]).Perm _
    rw [flatten_singleton]
  by_label _ _ := ⟨fun hmem => (not_mem_nil hmem).elim, fun hmem => (not_mem_nil hmem).elim⟩

/-- `(a)-[e]-(b)`, from the first column to the second along the edge of the third. -/
def boundExpand (dst_bound : Bool) : ExpandPhysicalOp where
  label_filters := some [7]
  direction := .BOTH
  src_col_idx := some 0
  dst_var := "b"
  edge_var := "e"
  dst_label_ids := []
  dst_bound := dst_bound
  edge_bound := true
  dst_col_idx := 1
  edge_col_idx := 2
  full_scan_labels := []
  full_edge_scan := false
  neighbor_cache_enabled := true
  env_input_rows := none
  env_edges_per_source := none

lemma boundExpand_wellPlanned (g : Graph) (dst_bound : Bool) (child : List DataChunk) :
    (boundExpand dst_bound).WellPlanned g child where
  labels labels hlabels := by
    obtain rfl := some.inj hlabels
    decide
  full hfull := by cases hfull

/-- One edge from vertex 1 to vertex 2. -/
def oneEdge : Graph where
  edges := [⟨1, 1, 2, 7, 0⟩]
  distinct := by decide

lemma oneEdge_validEnds : oneEdge.ValidEnds := by
  unfold Graph.ValidEnds
  decide

/-- The vertices 1 and 3, and the edge. -/
def boundRow : DataChunk where
  columns := [vectorColumn .VERTEX_REF [(1 : UInt64)], vectorColumn .VERTEX_REF [(3 : UInt64)],
    vectorColumn .EDGE_KEY [(⟨1, 1, 2, 7, 0⟩ : EdgeKey)]]
  count := 1

/-- The exactness of two executions with a free destination. -/
theorem executions_exact_free : Forall₂ ((boundExpand false).Exact (expandReads oneEdge) oneEdge)
        [[boundRow], [boundRow]]
        ((boundExpand false).executions (expandReads oneEdge) .empty [[boundRow], [boundRow]]) ↔
      ∀ child ∈ [[boundRow], [boundRow]], (boundExpand false).KeepsBounds (expandReads oneEdge) oneEdge child :=
  executions_exact_iff (expandReads_holds oneEdge) oneEdge_validEnds
    fun child _ => boundExpand_wellPlanned oneEdge false child

/-- The edge does not lead from vertex 1 to vertex 3, but a row comes out. -/
theorem bound_destination_unchecked :
    ¬ Forall₂ ((boundExpand true).Exact (expandReads oneEdge) oneEdge) [[boundRow]]
        ((boundExpand true).executions (expandReads oneEdge) .empty [[boundRow]]) := by
  intro hexact
  have hrows : (boundExpand true).Exact (expandReads oneEdge) oneEdge [boundRow]
      ((boundExpand true).executeChunk (expandReads oneEdge) .empty [boundRow]).1 :=
    (forall₂_cons.mp hexact).1
  have hemitted : (streamRows ((boundExpand true).executeChunk (expandReads oneEdge) .empty
    [boundRow]).1).length = 1 := rfl
  have hexpected : ((boundExpand true).expectedRows (expandReads oneEdge) oneEdge [boundRow]).length = 0 := rfl
  have hlength := hrows.length_eq
  rw [hemitted, hexpected] at hlength
  cases hlength

end Expand.ExpandPhysicalOp

end Eugraph.Dataset
