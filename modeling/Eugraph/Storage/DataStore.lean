import Eugraph.Storage.Store
import Eugraph.Kv.ValueCodec

/-!
# Operations of `SyncGraphDataStore`

Each operation is the program of table calls the source makes, in its order and through
the session it uses.  A `std::span<const std::pair<LabelId, Properties>>` is a list of
pairs; a scan whose callback deletes the row it is given is a scan followed by the
deletes.
-/

namespace Eugraph.DataStore

open Lib Lib.Program Wt KeyCodec ValueCodec

abbrev LabelProps := List (LabelId × Properties)

/-- The pairs `(prop_id, value)` of `for (uint16_t prop_id = 0; prop_id < props.size(); ...)`
with a value in the slot.  The 16-bit counter reaches the size only below `2 ^ 16`. -/
def slots (props : Properties) : List (PropId × PropertyValue) :=
  props.zipIdx.filterMap fun slot => slot.1.map fun v => (UInt16.ofNat slot.2, v)

/-! ### Vertex summaries -/

def kVertexSummaryOmitted : UInt32 := 0xFFFFFFFF
def kVertexSummaryInlineMax : Nat := 32
def kVertexSummaryVersion : UInt8 := 1

/-- One property of a summary: inlined when small, else marked as omitted. -/
def encodeSummaryEntry (labelId : LabelId) (slot : PropId × PropertyValue) : Bytes :=
  let encoded := encode slot.2
  u16BE labelId ++ (u16BE slot.1 ++
    if encoded.length ≤ kVertexSummaryInlineMax then encodeSize encoded.length ++ encoded
    else u32BE kVertexSummaryOmitted)

/-- The groups a writer does not skip. -/
def validGroups (labelProps : LabelProps) : LabelProps :=
  labelProps.filter fun group => group.1 ≠ INVALID_LABEL_ID

/-- The entries of a summary in the order they are written. -/
def summarySlots (labelProps : LabelProps) : List (LabelId × PropId × PropertyValue) :=
  (validGroups labelProps).flatMap fun group => (slots group.2).map fun slot => (group.1, slot)

/-- Counters are 16 bits wide; an empty result stands for nothing to publish. -/
def encodeVertexSummary (labelProps : LabelProps) : Bytes :=
  let labels := (validGroups labelProps).flatMap fun group => u16BE group.1
  let entries := (summarySlots labelProps).flatMap fun e => encodeSummaryEntry e.1 e.2
  let labelCount := UInt16.ofNat (validGroups labelProps).length
  let entryCount := UInt16.ofNat (summarySlots labelProps).length
  if labelCount = 0 ∧ entryCount = 0 then []
  else kVertexSummaryVersion :: (u16BE labelCount ++ (labels ++ (u16BE entryCount ++ entries)))

/-! ### Vertices -/

def insertProperty (vid : VertexId) (labelId : LabelId) (slot : PropId × PropertyValue) :
    StoreM Bool :=
  tablePut .session .vertexData (encodeVertexDataPropKey vid labelId slot.1)
    (encode slot.2)

def insertLabelGroup (vid : VertexId) (group : LabelId × Properties) : StoreM Bool :=
  if group.1 = INVALID_LABEL_ID then pure true
  else
    andThen (tablePut .session .vertexData (encodeVertexDataLabelKey vid group.1) []) <|
    andThen (tablePut .session (.labelFwdTable group.1) (encodeLabelForwardKey vid) []) <|
    allOf (insertProperty vid group.1) (slots group.2)

def initAdjacencyState (vid : VertexId) (direction : Direction) : StoreM Bool :=
  tablePut .session .vertexData (encodeVertexDataAdjStateKey vid direction)
    (encodeAdjacencyState .COMPLETE 0)

/-- Publish the summary of a first insert; a second one drops it. -/
def publishSummary (vid : VertexId) (labelProps : LabelProps) : StoreM Bool := do
  if (← tableGet .session .vertexSummary (encodeVertexSummaryKey vid)).isSome then
    tableDel .session .vertexSummary (encodeVertexSummaryKey vid)
  else if encodeVertexSummary labelProps = [] then
    pure true
  else
    tablePut .session .vertexSummary (encodeVertexSummaryKey vid) (encodeVertexSummary labelProps)

def insertVertex (capacity : UInt32) (vid : VertexId) (labelProps : LabelProps) : StoreM Bool :=
  andThen (tablePut .session .vertexExistence (encodeVertexExistenceKey vid) []) <|
  andThen (if 0 < capacity then allOf (initAdjacencyState vid) [.OUT, .IN] else pure true) <|
  andThen (allOf (insertLabelGroup vid) labelProps) <|
  publishSummary vid labelProps

def getVertexLabels (vid : VertexId) : StoreM (List LabelId) := do
  let rows ← tableScan .session .vertexData (encodeVertexDataLabelPrefix vid)
  return rows.map fun row => decodeVertexDataLabelKey row.1

/-- Scan a prefix and delete every row of it. -/
def deleteUnder (via : Via) (table : TableName) (pre : Bytes) : StoreM Unit := do
  let rows ← tableScan via table pre
  forEach (fun row => tableDel via table row.1) rows

/-- The rows of one label of a vertex. -/
def deleteLabelRows (vid : VertexId) (labelId : LabelId) : StoreM Unit := do
  let _ ← tableDel .session .vertexData (encodeVertexDataLabelKey vid labelId)
  let _ ← tableDel .session (.labelFwdTable labelId) (encodeLabelForwardKey vid)
  deleteUnder .session .vertexData (encodeVertexDataLabelPropPrefix vid labelId)

def deleteVertex (vid : VertexId) : StoreM Bool := do
  let labels ← getVertexLabels vid
  forEach (deleteLabelRows vid) labels
  deleteUnder .session .vertexData (encodeVertexDataVertexPrefix vid)
  let _ ← tableDel .session .vertexExistence (encodeVertexExistenceKey vid)
  let _ ← tableDel .session .vertexSummary (encodeVertexSummaryKey vid)
  return true

def putVertexProperty (vid : VertexId) (labelId : LabelId) (propId : PropId)
    (value : PropertyValue) : StoreM Bool :=
  andThen (insertProperty vid labelId (propId, value)) <|
  tableDel .session .vertexSummary (encodeVertexSummaryKey vid)

def putVertexProperties (vid : VertexId) (labelId : LabelId) (props : Properties) : StoreM Bool :=
  andThen (allOf (insertProperty vid labelId) (slots props)) <|
  tableDel .session .vertexSummary (encodeVertexSummaryKey vid)

def deleteVertexProperty (vid : VertexId) (labelId : LabelId) (propId : PropId) : StoreM Bool :=
  andThen (tableDel .session .vertexData (encodeVertexDataPropKey vid labelId propId)) <|
  tableDel .session .vertexSummary (encodeVertexSummaryKey vid)

def addVertexLabel (vid : VertexId) (labelId : LabelId) : StoreM Bool :=
  andThen (tablePut .session .vertexData (encodeVertexDataLabelKey vid labelId) []) <|
  andThen (tablePut .session (.labelFwdTable labelId) (encodeLabelForwardKey vid) []) <|
  tableDel .session .vertexSummary (encodeVertexSummaryKey vid)

def removeVertexLabel (vid : VertexId) (labelId : LabelId) : StoreM Bool := do
  deleteLabelRows vid labelId
  let _ ← tableDel .session .vertexSummary (encodeVertexSummaryKey vid)
  return true

/-- `DROP LABEL` runs on a session of its own, outside any transaction. -/
def dropLabel (labelId : LabelId) : StoreM Bool := do
  let rows ← tableScan .raw (.labelFwdTable labelId) []
  forEach (fun row => do
    let vid := decodeLabelForwardKey row.1
    let _ ← tableDel .raw .vertexData (encodeVertexDataLabelKey vid labelId)
    deleteUnder .raw .vertexData (encodeVertexDataLabelPropPrefix vid labelId)
    tableDel .raw .vertexSummary (encodeVertexSummaryKey vid)) rows
  dropTable (.labelFwdTable labelId)

/-! ### Adjacency rows -/

def getAdjacencyState (vid : VertexId) (direction : Direction) :
    StoreM (Option (AdjacencyCacheState × UInt32)) := do
  let val ← tableGet .raw .vertexData (encodeVertexDataAdjStateKey vid direction)
  return val.map decodeAdjacencyState

def putAdjacencyState (vid : VertexId) (direction : Direction) (state : AdjacencyCacheState)
    (count : UInt32) : StoreM Bool :=
  tablePut .raw .vertexData (encodeVertexDataAdjStateKey vid direction)
    (encodeAdjacencyState state count)

/-- The `edge_index` key of a cached adjacency row. -/
def promotedKey (direction : Direction) (key : Bytes) : Bytes :=
  encodeEdgeIndexKey { decodeVertexDataAdjEdgeKey key with direction := direction }

/-- Move the cached rows of one side to `edge_index` and mark the side `OVERFLOW`. -/
def promoteAdjacency (vid : VertexId) (direction : Direction) : StoreM Bool := do
  let rows ← tableScan .raw .vertexData (encodeVertexDataAdjPrefix vid direction)
  let cached := rows.filter fun row => !isVertexDataAdjStateKey row.1
  andThen (allOf (fun row => tablePut .raw .edgeIndex (promotedKey direction row.1) row.2) cached) do
    forEach (fun row => tableDel .raw .vertexData row.1) cached
    putAdjacencyState vid direction .OVERFLOW 0

def insertAdjacencyEdge (capacity : UInt32) (k : EdgeIndexKey) (eid : EdgeId) : StoreM Bool := do
  let indexed := tablePut .raw .edgeIndex (encodeEdgeIndexKey k) (encodeU64 eid)
  if capacity = 0 then indexed
  else
    match ← getAdjacencyState k.vertexId k.direction with
    | none => indexed
    | some (.OVERFLOW, _) => indexed
    | some (.COMPLETE, count) =>
      if count ≥ capacity then andThen (promoteAdjacency k.vertexId k.direction) indexed
      else
        andThen (tablePut .raw .vertexData (encodeVertexDataAdjEdgeKey k)
          (encodeU64 eid)) <|
        putAdjacencyState k.vertexId k.direction .COMPLETE (count + 1)

/-- Remove a row from wherever the side's state says it is. -/
def dropAdjacencyRow (k : EdgeIndexKey) : StoreM Bool := do
  match ← getAdjacencyState k.vertexId k.direction with
  | some (.COMPLETE, count) =>
    let _ ← tableDel .raw .vertexData (encodeVertexDataAdjEdgeKey k)
    putAdjacencyState k.vertexId k.direction .COMPLETE (if count > 0 then count - 1 else 0)
  | _ =>
    let _ ← tableDel .raw .edgeIndex (encodeEdgeIndexKey k)
    return true

def deleteAdjacencyEdge (capacity : UInt32) (k : EdgeIndexKey) : StoreM Bool := do
  if capacity = 0 then
    let _ ← tableDel .raw .edgeIndex (encodeEdgeIndexKey k)
    return true
  else dropAdjacencyRow k

/-! ### Edges -/

/-- The fields an edge is stored under. -/
structure EdgeRef where
  eid : EdgeId
  src : VertexId
  dst : VertexId
  labelId : EdgeLabelId
  seq : UInt64
  deriving DecidableEq

/-- The row of an edge on its source's side. -/
def EdgeRef.outKey (e : EdgeRef) : EdgeIndexKey := ⟨e.src, .OUT, e.labelId, e.dst, e.seq⟩

/-- The row of an edge on its destination's side. -/
def EdgeRef.inKey (e : EdgeRef) : EdgeIndexKey := ⟨e.dst, .IN, e.labelId, e.src, e.seq⟩

def EdgeRef.typeKey (e : EdgeRef) : EdgeTypeIndexKey := ⟨e.src, e.dst, e.seq⟩

def putEdgeProperty (labelId : EdgeLabelId) (eid : EdgeId) (propId : PropId)
    (value : PropertyValue) : StoreM Bool :=
  tablePut .session (.epropTable labelId) (encodeEPropKey eid propId) (encode value)

def deleteEdgeProperty (labelId : EdgeLabelId) (eid : EdgeId) (propId : PropId) : StoreM Bool :=
  tableDel .session (.epropTable labelId) (encodeEPropKey eid propId)

def insertEdge (capacity : UInt32) (e : EdgeRef) (props : Properties) : StoreM Bool :=
  andThen (tablePut .session (.etypeTable e.labelId) (encodeEdgeTypeIndexKey e.typeKey)
    (encodeU64 e.eid)) <|
  andThen (allOf (fun slot => putEdgeProperty e.labelId e.eid slot.1 slot.2) (slots props)) <|
  andThen (insertAdjacencyEdge capacity e.outKey e.eid) <|
  andThen (insertAdjacencyEdge capacity e.inKey e.eid) <|
  pure true

def deleteEdge (capacity : UInt32) (e : EdgeRef) : StoreM Bool :=
  andThen (deleteAdjacencyEdge capacity e.outKey) <|
  andThen (deleteAdjacencyEdge capacity e.inKey) do
    let _ ← tableDel .session (.etypeTable e.labelId) (encodeEdgeTypeIndexKey e.typeKey)
    deleteUnder .session (.epropTable e.labelId) (encodeEPropPrefix e.eid)
    return true

/-- `DROP` of an edge type: every edge of it leaves the adjacency rows, then its tables go. -/
def dropEdgeLabel (labelId : EdgeLabelId) : StoreM Bool := do
  let rows ← tableScan .raw (.etypeTable labelId) []
  forEach (fun row => do
    let k := decodeEdgeTypeIndexKey row.1
    let _ ← dropAdjacencyRow ⟨k.srcVertexId, .OUT, labelId, k.dstVertexId, k.seq⟩
    dropAdjacencyRow ⟨k.dstVertexId, .IN, labelId, k.srcVertexId, k.seq⟩) rows
  andThen (dropTable (.etypeTable labelId)) (dropTable (.epropTable labelId))

/-! ### Edge traversal -/

structure EdgeIndexEntry where
  neighborId : VertexId
  edgeLabelId : EdgeLabelId
  seq : UInt64
  edgeId : EdgeId
  deriving DecidableEq

def indexEntry (k : EdgeIndexKey) (value : Bytes) : EdgeIndexEntry :=
  ⟨k.neighborId, k.edgeLabelId, k.seq, decodeU64 value⟩

/-- `!label_filter || label == *label_filter`. -/
def passesFilter (labelFilter : Option EdgeLabelId) (labelId : EdgeLabelId) : Bool :=
  labelFilter.all fun l => labelId = l

def scanCachedEdges (vid : VertexId) (direction : Direction) (labelFilter : Option EdgeLabelId) :
    StoreM (List EdgeIndexEntry) := do
  let rows ← tableScan .session .vertexData (encodeVertexDataAdjPrefix vid direction)
  return ((rows.filter fun row => !isVertexDataAdjStateKey row.1).map fun row =>
    (decodeVertexDataAdjEdgeKey row.1, row.2)).filterMap fun row =>
      if passesFilter labelFilter row.1.edgeLabelId then some (indexEntry row.1 row.2) else none

def indexScanPrefix (vid : VertexId) (direction : Direction) : Option EdgeLabelId → Bytes
  | some l => encodeEdgeIndexLabelPrefix vid direction l
  | none => encodeEdgeIndexPrefix vid direction

def scanIndexedEdges (vid : VertexId) (direction : Direction) (labelFilter : Option EdgeLabelId) :
    StoreM (List EdgeIndexEntry) := do
  let rows ← tableScan .session .edgeIndex (indexScanPrefix vid direction labelFilter)
  return rows.map fun row => indexEntry (decodeEdgeIndexKey row.1) row.2

/-- One direction of `scanEdges`. -/
def scanSide (capacity : UInt32) (vid : VertexId) (direction : Direction)
    (labelFilter : Option EdgeLabelId) : StoreM (List EdgeIndexEntry) := do
  let state ← if 0 < capacity then getAdjacencyState vid direction else pure none
  match state with
  | some (.COMPLETE, _) => scanCachedEdges vid direction labelFilter
  | _ => scanIndexedEdges vid direction labelFilter

/-- `scanEdges` with a callback that collects every entry. -/
def scanEdges (capacity : UInt32) (vid : VertexId) (direction : Direction)
    (labelFilter : Option EdgeLabelId) : StoreM (List EdgeIndexEntry) := do
  if direction = .BOTH then
    let outgoing ← scanSide capacity vid .OUT labelFilter
    let incoming ← scanSide capacity vid .IN labelFilter
    return outgoing ++ incoming
  else scanSide capacity vid direction labelFilter

def countDegree (capacity : UInt32) (vid : VertexId) (direction : Direction)
    (labelFilter : Option EdgeLabelId) : StoreM UInt64 := do
  let counted ←
    if 0 < capacity ∧ direction ≠ .BOTH ∧ labelFilter = none then getAdjacencyState vid direction
    else pure none
  match counted with
  | some (.COMPLETE, count) => return count.toUInt64
  | _ => return UInt64.ofNat (← scanEdges capacity vid direction labelFilter).length

end Eugraph.DataStore
