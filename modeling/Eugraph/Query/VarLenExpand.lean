import Eugraph.Lib.Trails
import Eugraph.Query.ChunkWriter
import Eugraph.Storage.DataStore

/-!
# Variable-length expand

`varlen_expand_physical_op.cpp`: from the source vertex of each input row a depth-first
search with an explicit stack follows edges that are not on the current path.  Adjacency
lists and destination labels are read through two caches, which are filled for a whole
frontier at once.

The search is a loop; here it runs with a bound on its rounds.
-/

namespace Eugraph.Dataset

open Lib DataStore

/-! ### What the operator reads -/

/-- The reads of `IAsyncGraphDataStore`.  Batches of one scan are joined. -/
structure GraphReads where
  scanEdges : VertexId → Direction → Option EdgeLabelId → List EdgeIndexEntry
  scanEdgesBatch : List VertexId → Direction → Option EdgeLabelId → List (VertexId × EdgeIndexEntry)
  getVertexLabels : VertexId → List LabelId
  getVertexLabelsBatch : List VertexId → List (List LabelId)
  getVertexProperties : VertexId → LabelId → Option Properties
  getEdgeProperties : EdgeLabelId → EdgeId → Option Properties
  getEdgePropertiesOf : EdgeLabelId → EdgeId → List PropId → Option Properties
  scanVerticesByIndexId : UInt32 → List PropertyValue → List VertexId

namespace GraphReads

variable (store : GraphReads)

def loadVertex (vid : VertexId) : VertexValue where
  id := vid
  properties := (store.getVertexLabels vid).filterMap fun lid =>
    (store.getVertexProperties vid lid).map fun props => (lid, props)
  labels := some (store.getVertexLabels vid)
  deleted := false

def loadEdge (eid : EdgeId) (elid : EdgeLabelId) (src dst : VertexId) (seq : UInt64) : EdgeValue where
  id := eid
  src_id := src
  dst_id := dst
  label_id := elid
  seq := seq
  properties := store.getEdgeProperties elid eid
  deleted := false

end GraphReads

/-- An edge with its physical end points. -/
structure StoredEdge where
  id : EdgeId
  src : VertexId
  dst : VertexId
  label_id : EdgeLabelId
  seq : UInt64
  deriving DecidableEq

/-- An edge and the vertex it is followed to. -/
structure Traversal where
  edge : StoredEdge
  vertex : VertexId
  deriving DecidableEq

/-- An entry of an adjacency list with the side it was found on. -/
structure DirectedEdgeEntry where
  neighbor_id : VertexId
  edge_id : EdgeId
  edge_label_id : EdgeLabelId
  seq : UInt64
  physical_out : Bool

namespace DirectedEdgeEntry

def ofEntry (phy_out : Bool) (e : EdgeIndexEntry) : DirectedEdgeEntry :=
  ⟨e.neighborId, e.edgeId, e.edgeLabelId, e.seq, phy_out⟩

/-- The edge as found in the adjacency list of `vertex`. -/
def physical (edge : DirectedEdgeEntry) (vertex : VertexId) : StoredEdge where
  id := edge.edge_id
  src := if edge.physical_out then vertex else edge.neighbor_id
  dst := if edge.physical_out then edge.neighbor_id else vertex
  label_id := edge.edge_label_id
  seq := edge.seq

def traversal (edge : DirectedEdgeEntry) (vertex : VertexId) : Traversal :=
  ⟨edge.physical vertex, edge.neighbor_id⟩

end DirectedEdgeEntry

/-! ### The operator -/

/-- A negative `max_hops` is no upper bound; index id 0 is no index. -/
structure VarLenExpandPhysicalOp where
  label_filters : Option (List EdgeLabelId)
  direction : Direction
  min_hops : Int
  max_hops : Int
  output_types : List BoundTypeKind
  src_col_idx : Option Nat
  path_var : String
  edge_var : String
  edge_prop_filters : EdgeLabelId → List (PropId × PropertyValue)
  dst_label_ids : List LabelId
  dst_bound : Bool
  dst_col_idx : Nat
  edge_list_bound : Bool
  edge_list_col_idx : Option Nat
  prev_edge_col_idx : Option Nat
  dst_label_missing : Bool
  src_filter_index_id : UInt32
  src_filter_value : PropertyValue
  dst_filter_index_id : UInt32
  dst_filter_value : PropertyValue

structure Caches where
  adjacency : VertexId → Option (List DirectedEdgeEntry)
  dst_label : VertexId → Option Bool

def Caches.empty : Caches := ⟨fun _ => none, fun _ => none⟩

structure StackFrame where
  vertex : VertexId
  depth : Nat
  /-- The edges not looked at yet. -/
  edges : List DirectedEdgeEntry
  /-- The edge the frame was entered by; the first frame has none. -/
  incoming : Option StoredEdge

structure OutputEntry where
  src_row : Nat
  dst_id : VertexId
  path : List Value
  edge_list : List Value

/-- What goes from one input row to the next. -/
structure ExpandState where
  caches : Caches
  buffer : List OutputEntry
  yielded : List DataChunk

structure SearchState where
  stack : List StackFrame
  visited_edges : List EdgeId
  expand : ExpandState

/-- What is fixed for one input row. -/
structure SourceRow where
  src_row : Nat
  src_val : Value
  src_id : VertexId
  expected_edge_ids : List EdgeId
  prev_edge_id : EdgeId
  bound_dst : VertexId

def edgeIdFromValue : Value → EdgeId
  | .edge e => e.id
  | .edgeKey k => k.id
  | _ => INVALID_EDGE_ID

def edgeIdsFromValue : Value → List EdgeId
  | .list elements => elements.filterMap fun
      | .edge e => some e.id
      | .edgeKey k => some k.id
      | _ => none
  | _ => []

namespace VarLenExpandPhysicalOp

variable (op : VarLenExpandPhysicalOp) (store : GraphReads)

/-! #### Adjacency and labels -/

def scanFilters : List (Option EdgeLabelId) :=
  match op.label_filters with
  | none => [none]
  | some labels => labels.map some

def scanDirected (vid : VertexId) (scan_dir : Direction) : List DirectedEdgeEntry :=
  op.scanFilters.flatMap fun label_filter =>
    (store.scanEdges vid scan_dir label_filter).map (.ofEntry (scan_dir = .OUT))

/-- The adjacency list as read for one vertex. -/
def adjacency (vid : VertexId) : List DirectedEdgeEntry :=
  if op.direction = .BOTH then
    op.scanDirected store vid .OUT ++ op.scanDirected store vid .IN
  else op.scanDirected store vid op.direction

def labelsAllowed (labels : List LabelId) : Bool := op.dst_label_ids.all labels.contains

def hasDstLabels (caches : Caches) (vid : VertexId) : Bool × Caches :=
  if op.dst_label_ids = [] then (true, caches)
  else
    match caches.dst_label vid with
    | some ok => (ok, caches)
    | none =>
      let ok := op.labelsAllowed (store.getVertexLabels vid)
      (ok, { caches with dst_label := Function.update caches.dst_label vid (some ok) })

/-- Label sets read in one batch are put into the cache; what is there stays. -/
def cacheLabels (cache : VertexId → Option Bool) (missing : List VertexId) : VertexId → Option Bool :=
  (missing.zip (store.getVertexLabelsBatch missing)).foldl (fun cache p =>
    if (cache p.1).isSome then cache
    else Function.update cache p.1 (some (op.labelsAllowed p.2))) cache

def kLabelBatch : Nat := 1024

def preloadStep (st : List VertexId × List VertexId × (VertexId → Option Bool)) (vid : VertexId) :
    List VertexId × List VertexId × (VertexId → Option Bool) :=
  let (missing, seen, cache) := st
  let fresh := (cache vid).isNone && !seen.contains vid
  let missing := if fresh then missing ++ [vid] else missing
  let seen := if fresh then vid :: seen else seen
  if missing.length = kLabelBatch then ([], seen, op.cacheLabels store cache missing)
  else (missing, seen, cache)

def preloadDstLabels (caches : Caches) (vids : List VertexId) : Caches :=
  if op.dst_label_ids = [] ∨ vids = [] then caches
  else
    let (missing, _, cache) := vids.foldl (op.preloadStep store) ([], [], caches.dst_label)
    { caches with
      dst_label := if missing = [] then cache else op.cacheLabels store cache missing }

/-- `scanAll`: an adjacency list, through the cache. -/
def scanAll (caches : Caches) (vid : VertexId) : List DirectedEdgeEntry × Caches :=
  match caches.adjacency vid with
  | some edges => (edges, caches)
  | none =>
    let result := op.adjacency store vid
    let caches := op.preloadDstLabels store caches (result.map (·.neighbor_id))
    (result, { caches with adjacency := Function.update caches.adjacency vid (some result) })

/-- The vertices of a frontier that are not cached; each gets an empty list. -/
def missingNeighbors (adjacency : VertexId → Option (List DirectedEdgeEntry))
    (edges : List DirectedEdgeEntry) :
    List VertexId × (VertexId → Option (List DirectedEdgeEntry)) :=
  edges.foldl (fun (missing, cache) edge =>
    if (cache edge.neighbor_id).isNone && !missing.contains edge.neighbor_id then
      (missing ++ [edge.neighbor_id], Function.update cache edge.neighbor_id (some []))
    else (missing, cache)) ([], adjacency)

def appendEntry (phy_out : Bool) (cache : VertexId → Option (List DirectedEdgeEntry))
    (be : VertexId × EdgeIndexEntry) : VertexId → Option (List DirectedEdgeEntry) :=
  match cache be.1 with
  | some edges => Function.update cache be.1 (some (edges ++ [.ofEntry phy_out be.2]))
  | none => cache

def scanIntoCache (missing : List VertexId) (cache : VertexId → Option (List DirectedEdgeEntry))
    (scan_dir : Direction) : VertexId → Option (List DirectedEdgeEntry) :=
  op.scanFilters.foldl (fun cache label_filter =>
    (store.scanEdgesBatch missing scan_dir label_filter).foldl
      (appendEntry (scan_dir = .OUT)) cache) cache

/-- The adjacency lists of a whole frontier, by batch scans. -/
def preloadAdjacency (caches : Caches) (edges : List DirectedEdgeEntry) : Caches :=
  let (missing, cache) := missingNeighbors caches.adjacency edges
  if missing = [] then { caches with adjacency := cache }
  else
    let cache :=
      if op.direction = .BOTH then
        op.scanIntoCache store missing (op.scanIntoCache store missing cache .OUT) .IN
      else op.scanIntoCache store missing cache op.direction
    op.preloadDstLabels store { caches with adjacency := cache }
      (missing.flatMap fun vid => ((cache vid).getD []).map (·.neighbor_id))

/-! #### Filters -/

def allowed (index_id : UInt32) (value : PropertyValue) : List VertexId :=
  if index_id = 0 then [] else store.scanVerticesByIndexId index_id [value]

def srcMatches (src_id : VertexId) : Bool :=
  op.src_filter_index_id = 0 ||
    (allowed store op.src_filter_index_id op.src_filter_value).contains src_id

def dstMatches (vid : VertexId) : Bool :=
  op.dst_filter_index_id = 0 ||
    (allowed store op.dst_filter_index_id op.dst_filter_value).contains vid

/-- The property filters of the edge's label. -/
def edgePasses (label_id : EdgeLabelId) (edge_id : EdgeId) : Bool :=
  let filters := op.edge_prop_filters label_id
  if filters = [] then true
  else
    match store.getEdgePropertiesOf label_id edge_id (filters.map Prod.fst) with
    | some props => filters.all fun filter =>
      match props[filter.1.toNat]? with
      | some (some value) => value.equal filter.2
      | _ => false
    | none => false

/-- The input row `i`, unless it cannot be expanded. -/
def sourceRow (chunk : DataChunk) (i : Nat) : Option SourceRow :=
  let columnOf (idx : Option Nat) : Option Nat := idx.filter (· < chunk.columns.length)
  if op.edge_list_bound ∧ columnOf op.edge_list_col_idx = none then none
  else
    let src_id := (columnOf op.src_col_idx).elim INVALID_VERTEX_ID fun c =>
      Column.cellVertexId (chunk.getValue c i)
    if src_id = INVALID_VERTEX_ID then none
    else some {
      src_row := i
      src_val := (columnOf op.src_col_idx).elim .null (chunk.getValue · i)
      src_id := src_id
      expected_edge_ids :=
        if op.edge_list_bound then
          (columnOf op.edge_list_col_idx).elim [] fun c => edgeIdsFromValue (chunk.getValue c i)
        else []
      prev_edge_id := (columnOf op.prev_edge_col_idx).elim INVALID_EDGE_ID fun c =>
        edgeIdFromValue (chunk.getValue c i)
      bound_dst := Column.cellVertexId (chunk.getValue op.dst_col_idx i) }

/-! #### Output -/

/-- The steps the stack stands for, first to last. -/
def stackSteps (stack : List StackFrame) : List Traversal :=
  stack.reverse.filterMap fun frame => frame.incoming.map fun edge => ⟨edge, frame.vertex⟩

def startVertex (r : SourceRow) : Value :=
  match r.src_val with
  | .vertex v => .vertex v
  | _ => .vertex (store.loadVertex r.src_id)

def stepEdge (t : Traversal) : Value :=
  .edge (store.loadEdge t.edge.id t.edge.label_id t.edge.src t.edge.dst t.edge.seq)

/-- The output for a walk; `dst_id` is its last vertex. -/
def outputEntry (r : SourceRow) (steps : List Traversal) (dst_id : VertexId) : OutputEntry where
  src_row := r.src_row
  dst_id := dst_id
  path :=
    if op.path_var = "" then []
    else startVertex store r ::
      steps.flatMap fun t => [stepEdge store t, .vertex (store.loadVertex t.vertex)]
  edge_list :=
    if op.edge_var ≠ "" ∧ ¬ op.edge_list_bound then steps.map (stepEdge store) else []

/-- The bound destination and the bound edge list. -/
def boundMatches (r : SourceRow) (steps : List Traversal) (dst_id : VertexId) : Bool :=
  (!op.dst_bound || r.bound_dst = dst_id) &&
    (!op.edge_list_bound || steps.map (·.edge.id) = r.expected_edge_ids)

/-- An input column for the output rows. -/
def carryColumn (entries : List OutputEntry) (col : Column) : Column :=
  match col with
  | .unallocated type => Column.ofType type entries.length
  | col => col.gather (entries.map (·.src_row))

def fillColumn (kind : BoundTypeKind) (values : List Value) : Column :=
  values.zipIdx.foldl (fun col p => col.setValue p.2 p.1) (Column.ofType kind values.length)

/-- The values of the columns behind the input columns. -/
def appendedValues (entries : List OutputEntry) : List (List Value) :=
  (if op.dst_bound then [] else [entries.map fun e => .vertexRef e.dst_id]) ++
    (if op.path_var = "" then [] else [entries.map fun e => .path e.path]) ++
    (if op.edge_var ≠ "" ∧ ¬ op.edge_list_bound then [entries.map fun e => .list e.edge_list] else [])

def fillColumns (n : Nat) : List BoundTypeKind → List (List Value) → List Column
  | kind :: kinds, values :: rest => fillColumn kind values :: fillColumns n kinds rest
  | kinds, _ => kinds.map (Column.ofType · n)

def buildChunk (chunk : DataChunk) (entries : List OutputEntry) : DataChunk where
  columns := chunk.columns.map (carryColumn entries) ++
    fillColumns entries.length (op.output_types.drop chunk.columns.length) (op.appendedValues entries)
  count := entries.length

/-! #### The search -/

/-- The part of a round that emits: the walk on the stack and `edge`. -/
def tryEmit (chunk : DataChunk) (r : SourceRow) (stack : List StackFrame) (depth : Nat)
    (vertex : VertexId) (edge : DirectedEdgeEntry) (st : ExpandState) : ExpandState :=
  if op.min_hops ≤ (depth + 1 : Nat) ∧
      (op.srcMatches store r.src_id || op.dstMatches store edge.neighbor_id) then
    let (ok, caches) := op.hasDstLabels store st.caches edge.neighbor_id
    if ok then
      let steps := stackSteps stack ++ [edge.traversal vertex]
      let buffer :=
        if op.boundMatches r steps edge.neighbor_id then
          st.buffer ++ [op.outputEntry store r steps edge.neighbor_id]
        else st.buffer
      if DataChunk.DEFAULT_CAPACITY ≤ buffer.length then
        { caches := caches, buffer := [], yielded := st.yielded ++ [op.buildChunk chunk buffer] }
      else { st with caches := caches, buffer := buffer }
    else { st with caches := caches }
  else st

/-- One round of the loop. -/
def searchStep (chunk : DataChunk) (r : SourceRow) (s : SearchState) : SearchState :=
  match s.stack with
  | [] => s
  | frame :: below =>
    match frame.edges with
    | [] =>
      { s with
        visited_edges := frame.incoming.elim s.visited_edges fun e => s.visited_edges.filter (· ≠ e.id)
        stack := below }
    | edge :: edges =>
      let stack := { frame with edges := edges } :: below
      if s.visited_edges.contains edge.edge_id then { s with stack := stack }
      else if !op.edgePasses store edge.edge_label_id edge.edge_id then { s with stack := stack }
      else
        let next_depth := frame.depth + 1
        let expand := op.tryEmit store chunk r stack frame.depth frame.vertex edge s.expand
        if op.max_hops < 0 ∨ (next_depth : Int) < op.max_hops then
          -- without an upper bound the path does not leave a vertex it has left before
          if op.max_hops < 0 ∧ stack.any (·.vertex = edge.neighbor_id) then
            { s with stack := stack, expand := expand }
          else
            let (next_edges, caches) := op.scanAll store expand.caches edge.neighbor_id
            let caches :=
              if op.max_hops < 0 ∨ (next_depth + 1 : Int) < op.max_hops then
                op.preloadAdjacency store caches next_edges
              else caches
            { stack := ⟨edge.neighbor_id, next_depth, next_edges, some (edge.physical frame.vertex)⟩ ::
                stack
              visited_edges := edge.edge_id :: s.visited_edges
              expand := { expand with caches := caches } }
        else { s with stack := stack, expand := expand }

/-- The loop; `none` if it is not done after the given number of rounds. -/
def searchLoop (chunk : DataChunk) (r : SourceRow) : Nat → SearchState → Option SearchState
  | fuel, s =>
    if s.stack = [] then some s
    else
      match fuel with
      | 0 => none
      | fuel + 1 => searchLoop chunk r fuel (op.searchStep store chunk r s)

/-- One input row. -/
def expandRow (fuel : Nat) (chunk : DataChunk) (st : ExpandState) (i : Nat) : Option ExpandState :=
  match op.sourceRow chunk i with
  | none => some st
  | some r =>
    if !op.srcMatches store r.src_id ∧ op.dst_filter_index_id ≠ 0 ∧
        allowed store op.dst_filter_index_id op.dst_filter_value = [] then some st
    else
      let (start_edges, caches) := op.scanAll store st.caches r.src_id
      let caches :=
        if op.max_hops < 0 ∨ 1 < op.max_hops then op.preloadAdjacency store caches start_edges
        else caches
      let start_edges :=
        if r.prev_edge_id ≠ INVALID_EDGE_ID then
          start_edges.filter fun e => e.edge_id ≠ r.prev_edge_id
        else start_edges
      let (ok, caches) :=
        if op.min_hops = 0 then op.hasDstLabels store caches r.src_id else (false, caches)
      let identity := ok && op.boundMatches r [] r.src_id &&
        (op.srcMatches store r.src_id || op.dstMatches store r.src_id)
      let st : ExpandState :=
        { st with
          caches := caches
          buffer := if identity then st.buffer ++ [op.outputEntry store r [] r.src_id] else st.buffer }
      if op.max_hops = 0 ∨ start_edges = [] then some st
      else
        (op.searchLoop store chunk r fuel
          { stack := [⟨r.src_id, 0, start_edges, none⟩]
            visited_edges := if r.prev_edge_id ≠ INVALID_EDGE_ID then [r.prev_edge_id] else []
            expand := st }).map (·.expand)

def expandRows (fuel : Nat) (chunk : DataChunk) : ExpandState → List Nat → Option ExpandState
  | st, [] => some st
  | st, i :: rest => (op.expandRow store fuel chunk st i).bind fun st => expandRows fuel chunk st rest

def expandChunks (fuel : Nat) (caches : Caches) : List DataChunk → Option (List DataChunk)
  | [] => some []
  | chunk :: rest =>
    (op.expandRows store fuel chunk ⟨caches, [], []⟩ (List.range chunk.count)).bind fun st =>
      (expandChunks fuel st.caches rest).map fun out =>
        st.yielded ++ (if st.buffer = [] then [] else [op.buildChunk chunk st.buffer]) ++ out

def executeChunk (fuel : Nat) (left : List DataChunk) : Option (List DataChunk) :=
  if op.dst_label_missing then some [] else op.expandChunks store fuel .empty left

end VarLenExpandPhysicalOp

end Eugraph.Dataset
