import Eugraph.Storage.IndexMaintenance
import Eugraph.Storage.ReadPaths

/-!
# Write operators on edges

What `CREATE`, `MERGE`, `SET r.p`, `REMOVE r.p`, `DELETE r`, `DETACH DELETE n`,
`GraphService::batchInsertEdges` and the backfill of an edge index do to the data store
for one row of their input, and the edge values the operators hand to one another.
-/

namespace Eugraph.Query

open Lib Lib.Program Wt KeyCodec DataStore ValueCodec

/-! ### Edge values -/

/-- `EdgeKey`, the value of topology operators; its `seq` has 32 bits. -/
structure EdgeKeyValue where
  id : EdgeId
  srcId : VertexId
  dstId : VertexId
  labelId : EdgeLabelId
  seq : UInt32
  deriving DecidableEq

/-- `EdgeValue`, without the properties. -/
structure EdgeValue where
  id : EdgeId
  srcId : VertexId
  dstId : VertexId
  labelId : EdgeLabelId
  seq : UInt64
  deriving DecidableEq

/-- `DeleteEntity` of an edge: the fields `store_.deleteEdge` is called with. -/
def EdgeValue.entity (v : EdgeValue) : EdgeRef := ⟨v.id, v.srcId, v.dstId, v.labelId, v.seq⟩

def EdgeKeyValue.entity (v : EdgeKeyValue) : EdgeRef :=
  ⟨v.id, v.srcId, v.dstId, v.labelId, v.seq.toUInt64⟩

/-! ### Stored properties of an edge -/

/-- `resize` if needed, then assign. -/
def setProp (props : Properties) (pid : PropId) (v : PropertyValue) : Properties :=
  (props ++ List.replicate (pid.toNat + 1 - props.length) none).set pid.toNat (some v)

/-- `getEdgeProperties`; an error is the exception of `ValueCodec::decode`. -/
def getEdgeProperties (labelId : EdgeLabelId) (eid : EdgeId) :
    StoreM (Except String (Option Properties)) := do
  let rows ← tableScan .session (.epropTable labelId) (encodeEPropPrefix eid)
  let props := rows.foldlM (fun props row =>
    (decode row.2).map (setProp props (decodeEPropKey row.1).2)) []
  return props.map fun props => if rows.isEmpty then none else some props

/-- `compute::collectEdgeIndexEntries`, on the stored properties. -/
def collectStoredEntries (defs : EdgeLabelDefs) (labelId : EdgeLabelId) (eid : EdgeId) :
    StoreM (Except String (List IndexRow)) := do
  let props ← getEdgeProperties labelId eid
  return props.map fun props => edgeRows defs labelId eid (propValue (props.getD []))

def deleteEdgeIndexEntries (entries : List IndexRow) : StoreM Unit :=
  forEach (fun entry => deleteIndexEntry entry.table entry.values entry.entityId) entries

/-! ### `CREATE` and `MERGE` -/

/-- The lambda `insertEdge` of `CreateEdgePhysicalOp`: unique checks, the edge under
`seq = eid`, then its index entries, whose payload has `seq = 0`. -/
def createEdge (capacity : UInt32) (defs : EdgeLabelDefs) (eid : EdgeId) (src dst : VertexId)
    (labelId : EdgeLabelId) (props : Properties) : StoreM Bool := do
  let entries := collectEdgeIndexEntries defs labelId eid props
  let free ← allOf (fun entry : IndexRow => checkUniqueConstraint entry.table entry.values)
    (entries.filter IndexRow.unique)
  if free then
    if ← insertEdge capacity ⟨eid, src, dst, labelId, eid⟩ props then
      forEach (fun entry : IndexRow => insertIndexEntry entry.table entry.values eid
        (encodeEdgeAdjacency src dst 0 labelId)) entries
      return true
    else return false
  else return false

/-- The value `CREATE` yields for the new edge. -/
def createdValue (eid : EdgeId) (src dst : VertexId) (labelId : EdgeLabelId) : EdgeValue :=
  ⟨eid, src, dst, labelId, 0⟩

/-- `MergePhysicalOp::createEdge`, when no edge matched. -/
def mergeCreateEdge (capacity : UInt32) (eid : EdgeId) (src dst : VertexId)
    (labelId : EdgeLabelId) (props : Properties) : StoreM Unit := do
  let _ ← insertEdge capacity ⟨eid, src, dst, labelId, eid⟩ props

/-! ### `batchInsertEdges` -/

/-- One record of the request, with what its endpoints resolved to. -/
structure ResolvedEdge where
  src : Option VertexId
  dst : Option VertexId
  props : List PropertyValue

/-- The entries before ids are assigned; `seq` is the position in the request. -/
def resolvedEntries (records : List ResolvedEdge) : List BatchEdgeEntry :=
  records.zipIdx.filterMap fun record =>
    match record.1.src, record.1.dst with
    | some src, some dst =>
      some ⟨0, src, dst, UInt64.ofNat record.2, record.1.props.map some⟩
    | _, _ => none

/-- Ids are consecutive from the start of the range. -/
def batchEntries (startEid : EdgeId) (records : List ResolvedEdge) : List BatchEdgeEntry :=
  (resolvedEntries records).zipIdx.map fun entry =>
    { entry.1 with eid := startEid + UInt64.ofNat entry.2 }

/-! ### `SET`, `REMOVE`, `DELETE` -/

/-- Change the stored properties and replace the entries of the edge by new ones, which
have no payload. -/
def maintainEdgeEntries (defs : EdgeLabelDefs) (labelId : EdgeLabelId) (eid : EdgeId)
    (change : StoreM Bool) : StoreM (Except String Unit) := do
  match ← collectStoredEntries defs labelId eid with
  | .error message => return .error message
  | .ok old =>
    let _ ← change
    match ← collectStoredEntries defs labelId eid with
    | .error message => return .error message
    | .ok new =>
      deleteEdgeIndexEntries old
      let _ ← insertIndexEntries new
      return .ok ()

/-- `SET r.p = v`; a null value removes the property. -/
def setEdgeProperty (defs : EdgeLabelDefs) (labelId : EdgeLabelId) (eid : EdgeId) (pid : PropId)
    (value : Option PropertyValue) : StoreM (Except String Unit) :=
  maintainEdgeEntries defs labelId eid <|
    match value with
    | some v => putEdgeProperty labelId eid pid v
    | none => deleteEdgeProperty labelId eid pid

def removeEdgeProperty (defs : EdgeLabelDefs) (labelId : EdgeLabelId) (eid : EdgeId)
    (pid : PropId) : StoreM (Except String Unit) :=
  maintainEdgeEntries defs labelId eid (deleteEdgeProperty labelId eid pid)

/-- `DELETE r`: the entries of the edge, then the edge. -/
def deleteEdgeEntity (capacity : UInt32) (defs : EdgeLabelDefs) (e : EdgeRef) :
    StoreM (Except String Unit) := do
  match ← collectStoredEntries defs e.labelId e.eid with
  | .error message => return .error message
  | .ok entries =>
    deleteEdgeIndexEntries entries
    let _ ← deleteEdge capacity e
    return .ok ()

/-- The edge behind an entry of a scan of one side. -/
def entryEdge (vid : VertexId) (direction : Direction) (entry : EdgeIndexEntry) :
    EdgeRef :=
  if direction = .IN then ⟨entry.edgeId, entry.neighborId, vid, entry.edgeLabelId, entry.seq⟩
  else ⟨entry.edgeId, vid, entry.neighborId, entry.edgeLabelId, entry.seq⟩

/-- One direction of `DETACH DELETE`; the result is what it has deleted. -/
def detachSide (capacity : UInt32) (vid : VertexId) (direction : Direction) :
    StoreM (List EdgeRef) := do
  let entries ← asyncScanEdges capacity vid direction
  let edges := entries.map (entryEdge vid direction)
  forEach (deleteEdge capacity) edges
  return edges

/-- `DETACH DELETE n`, the edges. -/
def detachEdges (capacity : UInt32) (vid : VertexId) : StoreM (List EdgeRef) := do
  let outgoing ← detachSide capacity vid .OUT
  let incoming ← detachSide capacity vid .IN
  return outgoing ++ incoming

/-! ### Values handed to later operators -/

/-- `ExpandPhysicalOp` at vertex `vid`, from an entry of its `OUT` or `IN` side. -/
def expandValue (vid : VertexId) (direction : Direction) (entry : EdgeIndexEntry) :
    EdgeKeyValue :=
  let physicalOut := direction ≠ .IN
  ⟨entry.edgeId, if physicalOut then vid else entry.neighborId,
    if physicalOut then entry.neighborId else vid, entry.edgeLabelId, entry.seq.toUInt32⟩

/-- `loadEdge` of `VarLenExpandPhysicalOp`, which keeps all 64 bits of `seq`. -/
def loadEdge (vid : VertexId) (direction : Direction) (entry : EdgeIndexEntry) :
    EdgeValue :=
  let physicalOut := direction ≠ .IN
  ⟨entry.edgeId, if physicalOut then vid else entry.neighborId,
    if physicalOut then entry.neighborId else vid, entry.edgeLabelId, entry.seq⟩

/-- A row of the edge-type scan. -/
structure EdgeTypeIndexEntry where
  srcVertexId : VertexId
  dstVertexId : VertexId
  seq : UInt64
  edgeId : EdgeId
  deriving DecidableEq

/-- `scanEdgesByType` without filters. -/
def scanEdgesByType (labelId : EdgeLabelId) : StoreM (List EdgeTypeIndexEntry) := do
  let rows ← tableScan .session (.etypeTable labelId) []
  return rows.map fun row =>
    let k := decodeEdgeTypeIndexKey row.1
    ⟨k.srcVertexId, k.dstVertexId, k.seq, decodeU64 row.2⟩

def typeScanValue (labelId : EdgeLabelId) (entry : EdgeTypeIndexEntry) : EdgeKeyValue :=
  ⟨entry.edgeId, entry.srcVertexId, entry.dstVertexId, labelId, entry.seq.toUInt32⟩

/-- The copy an undirected type scan emits of an edge that is no loop. -/
def typeScanReversed (labelId : EdgeLabelId) (entry : EdgeTypeIndexEntry) : EdgeKeyValue :=
  ⟨entry.edgeId, entry.dstVertexId, entry.srcVertexId, labelId, entry.seq.toUInt32⟩

/-- `EdgeIndexScanPhysicalOp`: id from the row's key, the rest from its payload. -/
def indexScanValue (edgeId : EdgeId) (payload : Bytes) : EdgeKeyValue :=
  let (srcId, dstId, seq, labelId) := decodeEdgeAdjacency payload
  ⟨edgeId, srcId, dstId, labelId, seq.toUInt32⟩

/-! ### `CREATE INDEX` on an edge type -/

/-- One edge of the backfill; its entry carries the stored edge as payload. -/
def backfillEntry (labelId : EdgeLabelId) (propIds : List PropId) (unique : Bool)
    (entry : EdgeTypeIndexEntry) : StoreM (Except String Unit) := do
  match ← getEdgeProperties labelId entry.edgeId with
  | .error message => return .error message
  | .ok none => return .ok ()
  | .ok (some props) =>
    match collectValues (propValue props) propIds with
    | none => return .ok ()
    | some values =>
      if ← entryAllowed ⟨.eidxTable labelId propIds, values, entry.edgeId, unique⟩ then
        let _ ← insertIndexEntry (.eidxTable labelId propIds) values entry.edgeId
          (encodeEdgeAdjacency entry.srcVertexId entry.dstVertexId entry.seq labelId)
        return .ok ()
      else
        return .error
          "Unique edge index creation failed: duplicate values found during backfill"

/-- The first error ends the loop and leaves the index in `ERROR`. -/
def backfillEntries (labelId : EdgeLabelId) (propIds : List PropId) (unique : Bool) :
    List EdgeTypeIndexEntry → StoreM (Except String Unit)
  | [] => pure (.ok ())
  | entry :: rest => do
      match ← backfillEntry labelId propIds unique entry with
      | .error message => return .error message
      | .ok _ => backfillEntries labelId propIds unique rest

/-- The backfill of `CREATE_EDGE_INDEX`, from the rows of the edge type. -/
def backfillEdgeIndex (labelId : EdgeLabelId) (propIds : List PropId) (unique : Bool) :
    StoreM (Except String Unit) := do
  let entries ← scanEdgesByType labelId
  backfillEntries labelId propIds unique entries

end Eugraph.Query
