import Eugraph.Lib.FirstOccurrence
import Eugraph.Query.LimitHints
import Eugraph.Query.VarLenTrails

/-!
# Single-hop expand

`expand_physical_op.cpp`: for each input row the edges at its source vertex, with the new
columns behind those of the row.  Adjacency is read in one of five ways: for a whole batch
of sources, through a cache of neighbours, row by row, by a probe for one neighbour, or as
a scan of all edges that does not look at the input.

Left out is the filter on allowed destinations, which the planner sets for one kind of
correlated plan only.
-/

namespace Eugraph.Dataset

open Lib DataStore List
open Query (EdgeTypeIndexEntry)

/-- The reads of the expand.  A scan by type keeps its batches. -/
structure ExpandReads extends GraphReads where
  scanEdgesExact : VertexId → Direction → EdgeLabelId → VertexId → List EdgeIndexEntry
  scanEdgesByType : EdgeLabelId → List (List EdgeTypeIndexEntry)
  scanVerticesByLabel : LabelId → List VertexId

namespace Expand

/-! ### Input batches -/

/-- `expandInputRows`, of the number in the environment. -/
def expandInputRows : Option Nat → Nat
  | none | some 0 => 128
  | some parsed => min parsed 4096

def sliceColumn (offset count : Nat) (src : Column) : Column :=
  (range count).foldl (fun dst i =>
    if src.isNull (offset + i) then dst.setNull i
    else dst.setValue i (src.getValue (offset + i))) (Column.ofType src.type count)

def sliceChunk (chunk : DataChunk) (offset count : Nat) : DataChunk :=
  { columns := chunk.columns.map (sliceColumn offset count), count := count }

/-- The slices of `rows` rows from `offset` on. -/
def slices (chunk : DataChunk) (batch_rows offset rows : Nat) : List DataChunk :=
  if _h : batch_rows = 0 ∨ rows ≤ offset then []
  else
    sliceChunk chunk offset (min batch_rows (rows - offset)) ::
      slices chunk batch_rows (offset + batch_rows) rows
  termination_by rows - offset
  decreasing_by omega

def slicedChild (batch_rows : Nat) (child : List DataChunk) : List DataChunk :=
  child.flatMap fun chunk =>
    if chunk.count = 0 then []
    else if chunk.count ≤ batch_rows then [chunk]
    else slices chunk batch_rows 0 chunk.count

/-! ### The operator -/

/-- One edge of the current chunk. -/
structure EdgeEntryScratch where
  src_row : Nat
  entry : DirectedEdgeEntry

/-- The cached neighbours of a source, after the destination labels were checked. -/
abbrev CachedNeighbors := List DirectedEdgeEntry

/-- What one execution leaves to the next. -/
structure NeighborCache where
  disabled : Bool
  cached_edge_count : Nat
  entries : List (VertexId × CachedNeighbors)

namespace NeighborCache

def empty : NeighborCache := ⟨false, 0, []⟩

def find (cache : NeighborCache) (vid : VertexId) : Option CachedNeighbors :=
  cache.entries.lookup vid

end NeighborCache

def kMaxCachedEdges : Nat := 1000000

def kMaxCachedSources : Nat := 65536

/-- `maxCachedEdgesPerSource`, of the number in the environment. -/
def maxCachedEdgesPerSource : Option Nat → Nat
  | none | some 0 => 16384
  | some parsed => parsed

/-- `label_filters` is `none` for any type; the columns are positions in the input.  The two
numbers of the environment are kept with the operator. -/
structure ExpandPhysicalOp where
  label_filters : Option (List EdgeLabelId)
  direction : Direction
  src_col_idx : Option Nat
  dst_var : String
  edge_var : String
  dst_label_ids : List LabelId
  dst_bound : Bool
  edge_bound : Bool
  dst_col_idx : Nat
  edge_col_idx : Nat
  full_scan_labels : List EdgeLabelId
  full_edge_scan : Bool
  neighbor_cache_enabled : Bool
  env_input_rows : Option Nat
  env_edges_per_source : Option Nat

namespace ExpandPhysicalOp

variable (op : ExpandPhysicalOp) (store : ExpandReads)

/-! #### Labels -/

/-- Two or more labels are read in one scan; with the destination bound each label keeps its
own. -/
def collapseLabelScans : Bool :=
  op.label_filters.any fun labels => 2 ≤ labels.length && !op.dst_bound

def scanFilters : List (Option EdgeLabelId) :=
  match op.label_filters with
  | none => [none]
  | some labels => if op.collapseLabelScans then [none] else labels.map some

def edgeLabelAllowed (label_id : EdgeLabelId) : Bool :=
  !op.collapseLabelScans || op.label_filters.any (·.contains label_id)

/-- The labels of each destination in one batch. -/
def batchKeeps (neighbors : List VertexId) (e : EdgeEntryScratch) : Bool :=
  ((neighbors.zip (store.getVertexLabelsBatch neighbors)).lookup e.entry.neighbor_id).elim false
    fun labels => op.dst_label_ids.all labels.contains

def labelMembers (neighbors : List VertexId) (need : LabelId) : List VertexId :=
  (store.scanVerticesByLabel need).filter neighbors.contains

/-- The loop over the labels behind the first; it ends early when nothing is left. -/
def narrowMatches (neighbors : List VertexId) : List VertexId → List LabelId → List VertexId
  | label_matches, [] => label_matches
  | label_matches, need :: rest =>
    if label_matches = [] then []
    else
      narrowMatches neighbors
        (label_matches.filter (labelMembers store neighbors need).contains) rest

def labelMatches (neighbors : List VertexId) : List LabelId → List VertexId
  | [] => []
  | need :: rest => narrowMatches store neighbors (labelMembers store neighbors need) rest

def filterDstLabels (list : List EdgeEntryScratch) : List EdgeEntryScratch :=
  if list = [] ∨ op.dst_label_ids = [] then list
  else
    let neighbors := list.map (·.entry.neighbor_id)
    if list.length < 4096 then
      list.filter (op.batchKeeps store (firsts (· = ·) neighbors))
    else
      list.filter fun e =>
        (labelMatches store neighbors op.dst_label_ids).contains e.entry.neighbor_id

/-! #### Row by row -/

def sourceId (chunk : DataChunk) (i : Nat) : VertexId :=
  op.src_col_idx.elim INVALID_VERTEX_ID fun c => Column.cellVertexId (chunk.getValue c i)

def boundDst (chunk : DataChunk) (i : Nat) : VertexId :=
  Column.cellVertexId (chunk.getValue op.dst_col_idx i)

def edgeMatches (chunk : DataChunk) (i : Nat) (edge_id : EdgeId) : Bool :=
  !op.edge_bound || edgeIdFromValue (chunk.getValue op.edge_col_idx i) = edge_id

/-- The destination is known, so the store is asked for this neighbour only. -/
def probesExactly : Bool :=
  op.dst_bound && !op.edge_bound && op.scanFilters ≠ [] && op.scanFilters.all Option.isSome

def found (scan_dir : Direction) (src_row : Nat) (e : EdgeIndexEntry) : EdgeEntryScratch :=
  ⟨src_row, .ofEntry (scan_dir = .OUT) e⟩

/-- One side of an undirected expand. -/
def scanOneDirection (chunk : DataChunk) (src_row : Nat) (src_id : VertexId) (scan_dir : Direction) :
    List EdgeEntryScratch :=
  if op.probesExactly then
    let bound := op.boundDst chunk src_row
    if bound = INVALID_VERTEX_ID then []
    else
      op.scanFilters.flatMap fun label_filter => label_filter.elim [] fun label =>
        (store.scanEdgesExact src_id scan_dir label bound).map (found scan_dir src_row)
  else
    op.scanFilters.flatMap fun label_filter =>
      ((store.scanEdges src_id scan_dir label_filter).filter fun e =>
        op.edgeLabelAllowed e.edgeLabelId && op.edgeMatches chunk src_row e.edgeId).map
          (found scan_dir src_row)

/-- A directed expand also looks at the bound destination here. -/
def scanDirected (chunk : DataChunk) (src_row : Nat) (src_id : VertexId) : List EdgeEntryScratch :=
  op.scanFilters.flatMap fun label_filter =>
    ((store.scanEdges src_id op.direction label_filter).filter fun e =>
      op.edgeLabelAllowed e.edgeLabelId &&
        (!op.dst_bound || op.boundDst chunk src_row = e.neighborId) &&
        op.edgeMatches chunk src_row e.edgeId).map (found op.direction src_row)

/-- `remove_if` on the edges of the second side, whose predicate remembers the ids it met. -/
def dropSeen : List EdgeId → List EdgeEntryScratch → List EdgeEntryScratch
  | _, [] => []
  | seen, e :: rest =>
    if seen.contains e.entry.edge_id then dropSeen seen rest
    else e :: dropSeen (e.entry.edge_id :: seen) rest

def rowEdges (chunk : DataChunk) (src_row : Nat) : List EdgeEntryScratch :=
  let src_id := op.sourceId chunk src_row
  if src_id = INVALID_VERTEX_ID then []
  else if op.direction = .BOTH then
    let out := op.scanOneDirection store chunk src_row src_id .OUT
    out ++ dropSeen (out.map (·.entry.edge_id)) (op.scanOneDirection store chunk src_row src_id .IN)
  else op.scanDirected store chunk src_row src_id

/-! #### All sources of a chunk at once -/

/-- The sources of the chunk, each once, in the order of the rows. -/
def sourceIds (chunk : DataChunk) : List VertexId :=
  firsts (· = ·) (((range chunk.count).map (op.sourceId chunk)).filter (· ≠ INVALID_VERTEX_ID))

def rowsOfSource (chunk : DataChunk) (vid : VertexId) : List Nat :=
  (range chunk.count).filter (op.sourceId chunk · = vid)

def scanBatch (sources : List VertexId) (scan_dir : Direction) (label_filter : Option EdgeLabelId) :
    List (VertexId × EdgeIndexEntry) :=
  (store.scanEdgesBatch sources scan_dir label_filter).filter fun be =>
    op.edgeLabelAllowed be.2.edgeLabelId

/-- One pass over the sources; a loop is left to the other pass. -/
def batchPass (chunk : DataChunk) (sources : List VertexId) (label_filter : Option EdgeLabelId)
    (scan_dir : Direction) : List EdgeEntryScratch :=
  ((op.scanBatch store sources scan_dir label_filter).filter fun be =>
    !(op.direction = .BOTH && scan_dir ≠ .OUT && be.2.neighborId = be.1)).flatMap fun be =>
      (op.rowsOfSource chunk be.1).map (found scan_dir · be.2)

/-- The passes over the sources. -/
def passes : List Direction := if op.direction = .BOTH then [.OUT, .IN] else [op.direction]

def scanWithoutCache (chunk : DataChunk) (sources : List VertexId) : List EdgeEntryScratch :=
  let edges := op.scanFilters.flatMap fun label_filter =>
    op.passes.flatMap (op.batchPass store chunk sources label_filter)
  if op.direction = .BOTH then edges.mergeSort fun a b => a.src_row ≤ b.src_row else edges

/-! #### The neighbour cache -/

/-- The entries of the sources that are not cached, unless there are too many of them.
`counts` are the entries met so far for each source. -/
def collectMisses (per_source_limit : Nat) :
    List (VertexId × EdgeIndexEntry) → List (VertexId × EdgeIndexEntry) →
      Option (List (VertexId × EdgeIndexEntry))
  | met, [] => some met
  | met, be :: rest =>
    if kMaxCachedEdges ≤ met.length ∨
        per_source_limit < (met.filter (·.1 = be.1)).length + 1 then none
    else collectMisses per_source_limit (met ++ [be]) rest

/-- The neighbours of each source that was not cached, labels checked. -/
def freshNeighbors (miss_ids : List VertexId) (miss_edges : List (VertexId × EdgeIndexEntry)) :
    List (VertexId × CachedNeighbors) :=
  let kept := op.filterDstLabels store
    (miss_edges.map fun be => found op.direction (miss_ids.idxOf be.1) be.2)
  miss_ids.zipIdx.map fun p => (p.1, (kept.filter (·.src_row = p.2)).map (·.entry))

/-- New entries are kept as long as the bounds of the cache allow. -/
def admitNeighbors (cache : NeighborCache) (fresh : List (VertexId × CachedNeighbors)) : NeighborCache :=
  let fresh_edges := (fresh.map fun p => p.2.length).sum
  if kMaxCachedSources < cache.entries.length + fresh.length ∨
      kMaxCachedEdges < cache.cached_edge_count + fresh_edges then
    { cache with disabled := true }
  else
    { cache with
      cached_edge_count := cache.cached_edge_count + fresh_edges
      entries := cache.entries ++ fresh }

/-- The edges by source, each from the cache or from what was just read. -/
def reassemble (chunk : DataChunk) (cache : NeighborCache) (fresh : List (VertexId × CachedNeighbors))
    (sources : List VertexId) : List EdgeEntryScratch :=
  sources.flatMap fun vid =>
    (((cache.find vid).or (fresh.lookup vid)).getD []).flatMap fun entry =>
      (op.rowsOfSource chunk vid).map fun src_row => ⟨src_row, entry⟩

/-- The edges of a chunk through the cache, labels checked. -/
def scanThroughCache (chunk : DataChunk) (cache : NeighborCache) (sources : List VertexId) :
    List EdgeEntryScratch × NeighborCache :=
  let miss_ids := sources.filter fun vid => (cache.find vid).isNone
  let met := op.scanFilters.flatMap (op.scanBatch store miss_ids op.direction)
  if miss_ids = [] then (op.reassemble chunk cache [] sources, cache)
  else
    match collectMisses (maxCachedEdgesPerSource op.env_edges_per_source) [] met with
    | none =>
      -- a source with too many neighbours ends the use of the cache
      (op.filterDstLabels store (op.scanWithoutCache store chunk sources),
        { cache with disabled := true })
    | some miss_edges =>
      let fresh := op.freshNeighbors store miss_ids miss_edges
      let cache := admitNeighbors cache fresh
      (op.reassemble chunk cache fresh sources, cache)

/-- All edges of a chunk, with the destination labels checked. -/
def chunkEdges (chunk : DataChunk) (cache : NeighborCache) : List EdgeEntryScratch × NeighborCache :=
  if op.dst_bound || op.edge_bound then
    (op.filterDstLabels store ((range chunk.count).flatMap (op.rowEdges store chunk)), cache)
  else
    let sources := op.sourceIds chunk
    if sources = [] then ([], cache)
    else if op.neighbor_cache_enabled && !cache.disabled && op.direction ≠ .BOTH then
      op.scanThroughCache store chunk cache sources
    else (op.filterDstLabels store (op.scanWithoutCache store chunk sources), cache)

/-! #### Output -/

/-- An input column for the output rows; the rows of a dictionary are mapped. -/
def inputColumn (rows : List Nat) (col : Column) : Column :=
  match col with
  | .unallocated type => Column.ofType type rows.length
  | col => col.gather rows

/-- The key has the end points of the stored edge. -/
def edgeKey (src_id : VertexId) (entry : DirectedEdgeEntry) : EdgeKey :=
  let edge := entry.physical src_id
  ⟨edge.id, edge.src, edge.dst, edge.label_id, edge.seq.toUInt32⟩

/-- A column of the kind whose vector is assigned directly. -/
def vectorColumn (kind : BoundTypeKind) (data : List (Payload kind)) : Column :=
  .flat ⟨kind, data, replicate (8 * ((data.length + 7) / 8)) true⟩

def appendsEdge : Bool := !op.edge_bound && op.edge_var ≠ ""

def appendsDst : Bool := !op.dst_bound && op.dst_var ≠ ""

def appendedColumns (chunk : DataChunk) (edges : List EdgeEntryScratch) : List Column :=
  (if op.appendsEdge then
    [vectorColumn .EDGE_KEY (edges.map fun e => edgeKey (op.sourceId chunk e.src_row) e.entry)]
  else []) ++
  (if op.appendsDst then
    [vectorColumn .VERTEX_REF (edges.map fun e => e.entry.neighbor_id)]
  else [])

def buildChunk (chunk : DataChunk) (edges : List EdgeEntryScratch) : DataChunk where
  columns := chunk.columns.map (inputColumn (edges.map (·.src_row))) ++
    op.appendedColumns chunk edges
  count := edges.length

def executeChunks : NeighborCache → List DataChunk → List DataChunk × NeighborCache
  | cache, [] => ([], cache)
  | cache, chunk :: rest =>
    let (edges, cache) := op.chunkEdges store chunk cache
    let (out, cache) := executeChunks cache rest
    (if edges = [] then out else op.buildChunk chunk edges :: out, cache)

/-- One execution over the chunks of the child. -/
def executeChunk (cache : NeighborCache) (child : List DataChunk) : List DataChunk × NeighborCache :=
  if op.full_edge_scan then
    (Dataset.ExpandPhysicalOp.scanLabels (op.direction = .BOTH) store.scanEdgesByType
      Dataset.ExpandPhysicalOp.NO_LIMIT op.full_scan_labels, cache)
  else op.executeChunks store cache (slicedChild (expandInputRows op.env_input_rows) child)

/-- A correlated plan executes the operator once for each of its input rows. -/
def executions : NeighborCache → List (List DataChunk) → List (List DataChunk)
  | _, [] => []
  | cache, child :: rest =>
    let (out, cache) := op.executeChunk store cache child
    out :: executions cache rest

end ExpandPhysicalOp

end Expand

end Eugraph.Dataset
