import Eugraph.Lib.FirstOccurrence
import Eugraph.Query.VarLenExpand

/-!
# shortestPath and allShortestPaths

`shortest_path_physical_op.cpp`: between the two end points of each input row a search from
both sides by levels.  For all shortest paths a second search from the start records every
edge that leads to a vertex out of the level before it, and a depth-first enumeration from the
end follows these edges back.  Adjacency lists are read for a whole level and cached.

Levels are counted in an `int`, which does not overflow here.  The loops run with a bound on
their rounds.
-/

namespace Eugraph.Dataset

open Lib DataStore Function

/-! ### Adjacency -/

/-- An edge as it is followed; `src` and `dst` are its physical end points. -/
structure EdgeLink where
  from_vertex : VertexId
  to_vertex : VertexId
  src : VertexId
  dst : VertexId
  edge_id : EdgeId
  edge_label_id : EdgeLabelId
  seq : UInt64

structure Neighbor where
  id : VertexId
  link : EdgeLink

abbrev NeighborList := List Neighbor

/-- What is kept from one search to the next. -/
structure SearchCaches where
  edge_cache : UInt64 → Option NeighborList
  cached_neighbors : Nat
  dst_label_cache : VertexId → Option Bool

def SearchCaches.empty : SearchCaches := ⟨fun _ => none, 0, fun _ => none⟩

namespace ShortestPath

/-- `static_cast<uint64_t>` of a direction. -/
def dirCode : Direction → UInt64
  | .OUT => 0
  | .IN => 1
  | .BOTH => 2

/-- The key of the edge cache; the two highest bits of the vertex are shifted out. -/
def cacheKey (vid : VertexId) (scan_dir : Direction) : UInt64 := (vid <<< 2) ||| dirCode scan_dir

def oppositeDirection : Direction → Direction
  | .OUT => .IN
  | .IN => .OUT
  | .BOTH => .BOTH

def MAX_PATHS : Nat := 100000

def MAX_CACHED_NEIGHBORS : Nat := 1000000

def MAX_PENDING_PATH_ELEMENTS : Nat := 262144

/-- The passes of a scan. -/
def passes (scan_dir : Direction) : List Direction :=
  if scan_dir = .BOTH then [.OUT, .IN] else [scan_dir]

def neighborOf (dir : Direction) (src_id : VertexId) (entry : EdgeIndexEntry) : Neighbor where
  id := entry.neighborId
  link :=
    { from_vertex := src_id
      to_vertex := entry.neighborId
      src := if dir = .OUT then src_id else entry.neighborId
      dst := if dir = .OUT then entry.neighborId else src_id
      edge_id := entry.edgeId
      edge_label_id := entry.edgeLabelId
      seq := entry.seq }

/-- A list is stored while the budget lasts; one that is there is not replaced. -/
def keepList (scan_dir : Direction) (caches : SearchCaches) (p : VertexId × NeighborList) :
    SearchCaches :=
  if caches.cached_neighbors + p.2.length ≤ MAX_CACHED_NEIGHBORS then
    { caches with
      cached_neighbors := caches.cached_neighbors + p.2.length
      edge_cache :=
        if (caches.edge_cache (cacheKey p.1 scan_dir)).isSome then caches.edge_cache
        else update caches.edge_cache (cacheKey p.1 scan_dir) (some p.2) }
  else caches

/-- The first vertex of a path. -/
def pathVertex (id : VertexId) : Value :=
  .vertex { id := id, properties := [], labels := none, deleted := false }

def pathEdge (link : EdgeLink) : Value :=
  .edge
    { id := link.edge_id
      src_id := link.src
      dst_id := link.dst
      label_id := link.edge_label_id
      seq := link.seq
      properties := none
      deleted := false }

/-- The elements of a `PathValue`. -/
def buildPath (start : VertexId) (links : List EdgeLink) : List Value :=
  pathVertex start :: links.flatMap fun link => [pathEdge link, pathVertex link.to_vertex]

def vertexIdFromValue (val : Value) : VertexId := Column.cellVertexId val

/-- How a search ends without a result: the bound on the rounds is used up, or the statement
fails with "MemoryLimitExceeded: too many shortest paths". -/
inductive Failure
  | rounds
  | tooManyShortestPaths
  deriving DecidableEq

end ShortestPath

open ShortestPath
open VarLenExpandPhysicalOp (fillColumn)

/-! ### The operator -/

/-- `forward_dir` is `scanDirection` of the pattern.  A negative `max_hops` is no upper bound;
index id 0 is no index. -/
structure ShortestPathPhysicalOp where
  label_filters : Option (List EdgeLabelId)
  forward_dir : Direction
  min_hops : Int
  max_hops : Int
  src_col_idx : Option Nat
  dst_col_idx : Option Nat
  path_var : String
  all_shortest_paths : Bool
  dst_label_ids : List LabelId
  dst_label_missing : Bool
  src_filter_index_id : UInt32
  src_filter_value : PropertyValue
  dst_filter_index_id : UInt32
  dst_filter_value : PropertyValue

namespace ShortestPath

/-- The state of a vertex in one of the two searches. -/
structure Visit where
  dist : Nat
  parent : Option EdgeLink

/-- One level of one of the two searches: the vertices met, those of the next level, and the
shortest connection so far. -/
structure LevelState where
  visit : VertexId → Option Visit
  next : List VertexId
  best : Option Nat
  meet : VertexId

structure BidirectionalState where
  f_visit : VertexId → Option Visit
  b_visit : VertexId → Option Visit
  f_frontier : List VertexId
  b_frontier : List VertexId
  f_depth : Nat
  b_depth : Nat
  best : Option Nat
  meet : VertexId
  caches : SearchCaches

structure AllPathNode where
  dist : Nat
  parents : List EdgeLink

structure Frame where
  v : VertexId
  next_parent : Nat

/-- The enumeration; the last element of a vector of the source is the first here. -/
structure EnumState where
  stack : List Frame
  reversed : List EdgeLink
  produced : List (List Value)

end ShortestPath

namespace ShortestPathPhysicalOp

variable (op : ShortestPathPhysicalOp) (store : GraphReads)

def backward_dir : Direction := oppositeDirection op.forward_dir

def scan_filters : List (Option EdgeLabelId) :=
  match op.label_filters with
  | none => [none]
  | some labels => labels.map some

/-! #### Scans -/

/-- The list of one of the vertices of a batch scan. -/
def scanned (missing : List VertexId) (scan_dir : Direction) (vid : VertexId) : NeighborList :=
  (passes scan_dir).flatMap fun dir => op.scan_filters.flatMap fun label_filter =>
    ((store.scanEdgesBatch missing dir label_filter).filter (·.1 = vid)).map fun be =>
      neighborOf dir be.1 be.2

/-- The adjacency lists of a level.  The source does not define the list of the invalid
vertex. -/
def scanBatch (caches : SearchCaches) (vids : List VertexId) (scan_dir : Direction) :
    List NeighborList × SearchCaches :=
  let missing := firsts (· = ·) (vids.filter fun vid =>
    vid ≠ INVALID_VERTEX_ID && (caches.edge_cache (cacheKey vid scan_dir)).isNone)
  let lists := missing.map fun vid => (vid, op.scanned store missing scan_dir vid)
  (vids.map fun vid =>
      if vid = INVALID_VERTEX_ID then []
      else ((caches.edge_cache (cacheKey vid scan_dir)).or (lists.lookup vid)).getD [],
    lists.foldl (keepList scan_dir) caches)

def hasDstLabels (caches : SearchCaches) (vid : VertexId) : Bool × SearchCaches :=
  if op.dst_label_ids = [] then (true, caches)
  else
    match caches.dst_label_cache vid with
    | some ok => (ok, caches)
    | none =>
      let ok := op.dst_label_ids.all (store.getVertexLabels vid).contains
      (ok, { caches with dst_label_cache := update caches.dst_label_cache vid (some ok) })

/-! #### The search from both sides -/

/-- A connection the bounds do not allow. -/
def outOfBounds (candidate : Nat) : Bool :=
  candidate < op.min_hops || (0 ≤ op.max_hops && op.max_hops < candidate)

/-- `try_emplace`, and the vertices of the next level. -/
def insertVertex (id : VertexId) (node : Visit) (st : LevelState) : LevelState :=
  if (st.visit id).isSome then st
  else { st with visit := update st.visit id (some node), next := st.next ++ [id] }

/-- A connection over the vertex `id`. -/
def connect (candidate : Nat) (id : VertexId) (st : LevelState) : LevelState :=
  if op.outOfBounds candidate then st
  else if st.best.all (candidate < ·) then { st with best := some candidate, meet := id }
  else st

/-- An edge out of `v`; `link` is what is recorded of it. -/
def relax (link : EdgeLink) (next_depth : Nat) (other : VertexId → Option Visit) (v : VertexId)
    (st : LevelState) (id : VertexId) : LevelState :=
  if id = v then st
  else
    let node := (st.visit id).getD ⟨next_depth, some link⟩
    let st := insertVertex id node st
    match other id with
    | none => st
    | some opposite => op.connect (node.dist + opposite.dist) id st

/-- An edge is recorded as it is followed. -/
def relaxForward (next_depth : Nat) (other : VertexId → Option Visit) (v : VertexId) (st : LevelState)
    (e : Neighbor) : LevelState :=
  op.relax e.link next_depth other v st e.id

/-- An edge is recorded towards the end. -/
def relaxBackward (next_depth : Nat) (other : VertexId → Option Visit) (v : VertexId) (st : LevelState)
    (e : Neighbor) : LevelState :=
  op.relax { e.link with from_vertex := e.id, to_vertex := v } next_depth other v st e.id

/-- The edges out of one level. -/
def expandLevel (relaxEdge : VertexId → LevelState → Neighbor → LevelState)
    (frontier : List VertexId) (lists : List NeighborList) (st : LevelState) : LevelState :=
  (frontier.zip lists).foldl (fun st p => p.2.foldl (relaxEdge p.1) st) st

def expandForward (s : BidirectionalState) : BidirectionalState :=
  let next_depth := s.f_depth + 1
  let (lists, caches) := op.scanBatch store s.caches s.f_frontier op.forward_dir
  let st := expandLevel (op.relaxForward next_depth s.b_visit) s.f_frontier lists
    ⟨s.f_visit, [], s.best, s.meet⟩
  { s with
    f_visit := st.visit
    f_frontier := st.next
    f_depth := next_depth
    best := st.best
    meet := st.meet
    caches := caches }

def expandBackward (s : BidirectionalState) : BidirectionalState :=
  let next_depth := s.b_depth + 1
  let (lists, caches) := op.scanBatch store s.caches s.b_frontier op.backward_dir
  let st := expandLevel (op.relaxBackward next_depth s.f_visit) s.b_frontier lists
    ⟨s.b_visit, [], s.best, s.meet⟩
  { s with
    b_visit := st.visit
    b_frontier := st.next
    b_depth := next_depth
    best := st.best
    meet := st.meet
    caches := caches }

/-- The smaller frontier is next. -/
def expand_forward (s : BidirectionalState) : Bool :=
  s.f_frontier ≠ [] && (s.b_frontier = [] || s.f_frontier.length ≤ s.b_frontier.length)

def next_depth (s : BidirectionalState) : Nat :=
  (if expand_forward s then s.f_depth else s.b_depth) + 1

/-- The conditions the loop is left by. -/
def leavesLoop (s : BidirectionalState) : Bool :=
  (s.f_frontier = [] && s.b_frontier = []) || s.best.any (· ≤ s.f_depth + s.b_depth) ||
    (0 ≤ op.max_hops && op.max_hops < next_depth s) || s.best.any (· ≤ next_depth s)

/-- One round of the loop; `none` when it is left. -/
def searchRound (s : BidirectionalState) : Option BidirectionalState :=
  if op.leavesLoop s then none
  else if expand_forward s then some (op.expandForward store s)
  else some (op.expandBackward store s)

def searchLoop : Nat → BidirectionalState → Except Failure BidirectionalState
  | 0, _ => .error .rounds
  | fuel + 1, s =>
    match op.searchRound store s with
    | none => .ok s
    | some s' => searchLoop fuel s'

/-- `while (cur != start)`: the links from the start, as the parents tell. -/
def forwardLinks (f_visit : VertexId → Option Visit) (start : VertexId) :
    Nat → VertexId → List EdgeLink → Except Failure (Option (List EdgeLink))
  | 0, _, _ => .error .rounds
  | fuel + 1, cur, links =>
    if cur = start then .ok (some links)
    else
      match (f_visit cur).bind (·.parent) with
      | none => .ok none
      | some parent => forwardLinks f_visit start fuel parent.from_vertex (parent :: links)

/-- `while (cur != end)`: the links to the end. -/
def backwardLinks (b_visit : VertexId → Option Visit) (stop : VertexId) :
    Nat → VertexId → List EdgeLink → Except Failure (Option (List EdgeLink))
  | 0, _, _ => .error .rounds
  | fuel + 1, cur, links =>
    if cur = stop then .ok (some links)
    else
      match (b_visit cur).bind (·.parent) with
      | none => .ok none
      | some parent => backwardLinks b_visit stop fuel parent.to_vertex (links ++ [parent])

def startSearch (caches : SearchCaches) (start stop : VertexId) : BidirectionalState where
  f_visit := update (fun _ => none) start (some ⟨0, none⟩)
  b_visit := update (fun _ => none) stop (some ⟨0, none⟩)
  f_frontier := [start]
  b_frontier := [stop]
  f_depth := 0
  b_depth := 0
  best := none
  meet := INVALID_VERTEX_ID
  caches := caches

/-- The path where the two searches met. -/
def connection (fuel : Nat) (start stop : VertexId) (s : BidirectionalState) :
    Except Failure (Option (List Value)) :=
  match s.best with
  | none => .ok none
  | some best =>
    if s.meet = INVALID_VERTEX_ID then .ok none
    else
      (forwardLinks s.f_visit start fuel s.meet []).bind fun forward =>
        match forward with
        | none => .ok none
        | some forward_links =>
          (backwardLinks s.b_visit stop fuel s.meet []).map fun backward =>
            backward.bind fun backward_links =>
              let links := forward_links ++ backward_links
              if links.length = best then some (buildPath start links) else none

def shortestBidirectional (fuel : Nat) (caches : SearchCaches) (start stop : VertexId) :
    Except Failure (Option (List Value) × SearchCaches) :=
  if start = stop ∧ op.min_hops ≤ 0 then .ok (some (buildPath start []), caches)
  else
    (op.searchLoop store fuel (startSearch caches start stop)).bind fun s =>
      (connection fuel start stop s).map fun path => (path, s.caches)

/-! #### All shortest paths -/

/-- An edge out of `v`: the vertices of the new level collect the edges that lead to them. -/
def recordParent (start stop : VertexId) (best depth : Nat) (v : VertexId)
    (st : (VertexId → Option AllPathNode) × List VertexId) (e : Neighbor) :
    (VertexId → Option AllPathNode) × List VertexId :=
  if e.id = v ∨ e.id = start then st
  else if e.id = stop ∧ depth < best then st
  else
    match st.1 e.id with
    | none => (update st.1 e.id (some ⟨depth, [e.link]⟩), st.2 ++ [e.id])
    | some node =>
      if node.dist = depth then
        (update st.1 e.id (some { node with parents := node.parents ++ [e.link] }), st.2)
      else st

def recordLevels (start stop : VertexId) (best : Nat) :
    Nat → Nat → List VertexId → (VertexId → Option AllPathNode) → SearchCaches →
      (VertexId → Option AllPathNode) × SearchCaches
  | 0, _, _, visits, caches => (visits, caches)
  | left + 1, depth, frontier, visits, caches =>
    if frontier = [] then (visits, caches)
    else
      let (lists, caches) := op.scanBatch store caches frontier op.forward_dir
      let (visits, next) := (frontier.zip lists).foldl
        (fun st p => p.2.foldl (recordParent start stop best depth p.1) st) (visits, [])
      recordLevels start stop best left (depth + 1) next visits caches

/-- One round of the enumeration. -/
def enumStep (visits : VertexId → Option AllPathNode) (start : VertexId) (s : EnumState) :
    Except Failure EnumState :=
  match s.stack with
  | [] => .ok s
  | frame :: below =>
    -- the edge the frame was entered by goes with it
    let left : EnumState :=
      { s with stack := below, reversed := if below = [] then s.reversed else s.reversed.tail }
    if frame.v = start then
      if MAX_PATHS ≤ s.produced.length then .error .tooManyShortestPaths
      else .ok { left with produced := s.produced ++ [buildPath start s.reversed] }
    else
      match (visits frame.v).bind fun node => node.parents[frame.next_parent]? with
      | none => .ok left
      | some link =>
        .ok { s with
          stack := ⟨link.from_vertex, 0⟩ ::
            { frame with next_parent := frame.next_parent + 1 } :: below
          reversed := link :: s.reversed }

def enumLoop (visits : VertexId → Option AllPathNode) (start : VertexId) :
    Nat → EnumState → Except Failure (List (List Value))
  | 0, _ => .error .rounds
  | fuel + 1, s =>
    if s.stack = [] then .ok s.produced
    else (enumStep visits start s).bind (enumLoop visits start fuel)

def allShortestPaths (fuel : Nat) (caches : SearchCaches) (start stop : VertexId) :
    Except Failure (List (List Value) × SearchCaches) :=
  (op.shortestBidirectional store fuel caches start stop).bind fun one =>
    match one with
    | (none, caches) => .ok ([], caches)
    | (some path, caches) =>
      let best := (path.length - 1) / 2
      if best = 0 then .ok ([path], caches)
      else
        let (visits, caches) := op.recordLevels store start stop best best 1 [start]
          (update (fun _ => none) start (some ⟨0, []⟩)) caches
        (enumLoop visits start fuel ⟨[⟨stop, 0⟩], [], []⟩).map fun paths => (paths, caches)

/-! #### Output -/

/-- The rows of one input chunk that are not handed on yet, and the chunks that are. -/
structure Output where
  pending : List (Nat × List Value)
  pending_path_elements : Nat
  yielded : List DataChunk

def flushChunk (chunk : DataChunk) (pending : List (Nat × List Value)) : DataChunk where
  columns :=
    (chunk.columns.map fun col => fillColumn col.type (pending.map fun p => col.getValue p.1)) ++
      if op.path_var = "" then [] else [fillColumn .PATH (pending.map fun p => .path p.2)]
  count := pending.length

/-- Hand the rows on when there are many of them. -/
def flushFull (chunk : DataChunk) (out : Output) : Output :=
  if DataChunk.DEFAULT_CAPACITY ≤ out.pending.length ∨
      MAX_PENDING_PATH_ELEMENTS ≤ out.pending_path_elements then
    ⟨[], 0, out.yielded ++ [op.flushChunk chunk out.pending]⟩
  else out

def pushPath (row : Nat) (out : Output) (path : List Value) : Output :=
  { out with
    pending := out.pending ++ [(row, path)]
    pending_path_elements := out.pending_path_elements + path.length }

/-- The vertices one of the index filters allows. -/
def allowed (index_id : UInt32) (value : PropertyValue) : List VertexId :=
  if index_id = 0 then [] else store.scanVerticesByIndexId index_id [value]

def startOf (chunk : DataChunk) (row : Nat) : VertexId :=
  op.src_col_idx.elim INVALID_VERTEX_ID fun c => vertexIdFromValue (chunk.getValue c row)

def stopOf (chunk : DataChunk) (row : Nat) : VertexId :=
  op.dst_col_idx.elim INVALID_VERTEX_ID fun c => vertexIdFromValue (chunk.getValue c row)

/-- Rows without two vertices the filters allow are passed over. -/
def searches (start stop : VertexId) : Bool :=
  start ≠ INVALID_VERTEX_ID && stop ≠ INVALID_VERTEX_ID &&
    (op.src_filter_index_id = 0 ||
      (allowed store op.src_filter_index_id op.src_filter_value).contains start) &&
    (op.dst_filter_index_id = 0 ||
      (allowed store op.dst_filter_index_id op.dst_filter_value).contains stop)

def executeRow (fuel : Nat) (chunk : DataChunk) (st : SearchCaches × Output) (row : Nat) :
    Except Failure (SearchCaches × Output) :=
  let start := op.startOf chunk row
  let stop := op.stopOf chunk row
  if !op.searches store start stop then .ok st
  else
    let (ok, caches) := op.hasDstLabels store st.1 stop
    if !ok then .ok (caches, st.2)
    else if op.all_shortest_paths then
      (op.allShortestPaths store fuel caches start stop).map fun found =>
        (found.2, op.flushFull chunk
          (found.1.foldl (fun out path => op.flushFull chunk (pushPath row out path)) st.2))
    else
      (op.shortestBidirectional store fuel caches start stop).map fun found =>
        (found.2, op.flushFull chunk (found.1.elim st.2 (pushPath row st.2)))

def executeRows (fuel : Nat) (chunk : DataChunk) :
    SearchCaches × Output → List Nat → Except Failure (SearchCaches × Output)
  | st, [] => .ok st
  | st, row :: rest =>
    (op.executeRow store fuel chunk st row).bind fun st => executeRows fuel chunk st rest

def executeChunks (fuel : Nat) : SearchCaches → List DataChunk → Except Failure (List DataChunk)
  | _, [] => .ok []
  | caches, chunk :: rest =>
    (op.executeRows store fuel chunk (caches, ⟨[], 0, []⟩) (List.range chunk.count)).bind fun st =>
      (executeChunks fuel st.1 rest).map fun out =>
        st.2.yielded ++
          (if st.2.pending = [] then [] else [op.flushChunk chunk st.2.pending]) ++ out

def executeChunk (fuel : Nat) (child : List DataChunk) : Except Failure (List DataChunk) :=
  if op.dst_label_missing then .ok [] else op.executeChunks store fuel .empty child

end ShortestPathPhysicalOp

end Eugraph.Dataset
