import Eugraph.Storage.DataStore

/-!
# Index maintenance of the storage layer

The schema parts the writers read, the entries an entity should have in each index
(`storage/data/index_maintenance.hpp`) and the batch inserts that write them in the
transaction of the data.
-/

namespace Eugraph.DataStore

open Lib Lib.Program Wt KeyCodec IndexKeyCodec

/-! ### Schema -/

inductive IndexState
  | WRITE_ONLY
  | PUBLIC
  | DELETE_ONLY
  | ERROR
  deriving DecidableEq

structure IndexAccessorDef where
  isStrong : Bool
  sourceLabelId : LabelId
  propertyName : String
  deriving DecidableEq

/-- Vertex indexes use `accessors`, edge indexes `propIds`. -/
structure IndexDef where
  indexId : UInt32
  accessors : List IndexAccessorDef
  propIds : List PropId
  unique : Bool
  state : IndexState
  deriving DecidableEq

structure PropertyDef where
  id : PropId
  name : String
  deriving DecidableEq

structure LabelDef where
  name : String
  properties : List PropertyDef
  indexes : List IndexDef

structure EdgeLabelDef where
  properties : List PropertyDef
  indexes : List IndexDef

abbrev LabelDefs := LabelId → Option LabelDef
abbrev EdgeLabelDefs := EdgeLabelId → Option EdgeLabelDef

def IndexDef.isLive (idx : IndexDef) : Bool := idx.state = .WRITE_ONLY ∨ idx.state = .PUBLIC

/-- `props[pid]`, with a vector that is too short read as an absent value. -/
def propValue (props : Properties) (pid : PropId) : Option PropertyValue :=
  (props[pid.toNat]?).join

/-! ### Index rows -/

/-- `insertIndexEntry`; the overload without a payload passes `{}`. -/
def insertIndexEntry (table : TableName) (values : List PropertyValue) (entityId : UInt64)
    (payload : Bytes) : StoreM Bool :=
  tablePut .session table (encodeIndexKey values entityId) payload

def deleteIndexEntry (table : TableName) (values : List PropertyValue) (entityId : UInt64) :
    StoreM Bool :=
  tableDel .session table (encodeIndexKey values entityId)

/-- `true` when no row is found under the equality prefix. -/
def checkUniqueConstraint (table : TableName) (values : List PropertyValue) : StoreM Bool := do
  let rows ← tableScan .session table (encodeEqualityPrefix values)
  return rows.isEmpty

/-- `VertexIndexEntry` and `EdgeIndexEntry`, which differ in the entity's type only. -/
structure IndexRow where
  table : TableName
  values : List PropertyValue
  entityId : UInt64
  unique : Bool
  deriving DecidableEq

/-- `!entry.unique || checkUniqueConstraint(..)`. -/
def entryAllowed (entry : IndexRow) : StoreM Bool :=
  if entry.unique then checkUniqueConstraint entry.table entry.values else pure true

/-- Unique conflicts are skipped and counted, not raised. -/
def insertIndexEntries : List IndexRow → StoreM Nat
  | [] => pure 0
  | entry :: rest => do
      if ← entryAllowed entry then
        let _ ← insertIndexEntry entry.table entry.values entry.entityId []
        insertIndexEntries rest
      else
        let conflicts ← insertIndexEntries rest
        return conflicts + 1

/-! ### Edge entries -/

/-- The values of all properties, if every one is there. -/
def collectValues (value : PropId → Option PropertyValue) (propIds : List PropId) :
    Option (List PropertyValue) :=
  propIds.mapM value

/-- The rows an edge with the given values should have. -/
def edgeRows (defs : EdgeLabelDefs) (labelId : EdgeLabelId) (eid : EdgeId)
    (value : PropId → Option PropertyValue) : List IndexRow :=
  match defs labelId with
  | none => []
  | some labelDef =>
    (labelDef.indexes.filter IndexDef.isLive).filterMap fun idx =>
      (collectValues value idx.propIds).map fun values =>
        ⟨.eidxTable labelId idx.propIds, values, eid, idx.unique⟩

/-- `collectEdgeIndexEntries` on the properties about to be written. -/
def collectEdgeIndexEntries (defs : EdgeLabelDefs) (labelId : EdgeLabelId) (eid : EdgeId)
    (props : Properties) : List IndexRow :=
  edgeRows defs labelId eid (propValue props)

/-! ### Vertex entries -/

/-- `findPropId`; `UINT16_MAX` stands for an unknown name. -/
def findPropId (defs : LabelDefs) (labelId : LabelId) (propName : String) : PropId :=
  match defs labelId with
  | none => 0xFFFF
  | some labelDef =>
    match labelDef.properties.find? fun pd => pd.name = propName with
    | some pd => pd.id
    | none => 0xFFFF

/-- The value of a property name in one label group. -/
def groupValue (defs : LabelDefs) (propName : String) (group : LabelId × Properties) :
    Option PropertyValue :=
  let pid := findPropId defs group.1 propName
  if pid = 0xFFFF then none else propValue group.2 pid

/-- Several labels may carry the value; a conflict gives no value at all. -/
def resolveWeakAccessor (defs : LabelDefs) (labelProps : LabelProps) (propName : String) :
    Option PropertyValue :=
  match labelProps.filterMap (groupValue defs propName) with
  | [] => none
  | found :: rest => if rest.all fun candidate => PropertyValue.equal found candidate then some found else none

/-- The first group of the accessor's label decides. -/
def resolveStrongAccessor (defs : LabelDefs) (labelProps : LabelProps) (acc : IndexAccessorDef) :
    Option PropertyValue :=
  (labelProps.find? fun group => group.1 = acc.sourceLabelId).bind (groupValue defs acc.propertyName)

def accessorValue (defs : LabelDefs) (labelProps : LabelProps) (acc : IndexAccessorDef) :
    Option PropertyValue :=
  if acc.isStrong then resolveStrongAccessor defs labelProps acc
  else resolveWeakAccessor defs labelProps acc.propertyName

def collectVertexIndexEntriesFromLabelProps (defs : LabelDefs) (labelProps : LabelProps)
    (vid : VertexId) : List IndexRow :=
  labelProps.flatMap fun group =>
    match defs group.1 with
    | none => []
    | some labelDef =>
      (labelDef.indexes.filter fun idx => idx.isLive && idx.indexId ≠ 0).filterMap fun idx =>
        (idx.accessors.mapM (accessorValue defs labelProps)).map fun values =>
          ⟨.vidxTableById idx.indexId, values, vid, idx.unique⟩

/-! ### Batch inserts -/

structure BatchVertexEntry where
  vid : VertexId
  labelProps : LabelProps

structure BatchEdgeEntry where
  eid : EdgeId
  srcId : VertexId
  dstId : VertexId
  seq : UInt64
  props : Properties

def BatchEdgeEntry.ref (entry : BatchEdgeEntry) (labelId : EdgeLabelId) : EdgeRef :=
  ⟨entry.eid, entry.srcId, entry.dstId, labelId, entry.seq⟩

/-- What `insertVertex` and `insertIndexEntry` return is not looked at. -/
def batchInsertVertices (capacity : UInt32) (defs : LabelDefs) (entries : List BatchVertexEntry) :
    StoreM Unit :=
  forEach (fun entry => do
    let _ ← insertVertex capacity entry.vid entry.labelProps
    insertIndexEntries (collectVertexIndexEntriesFromLabelProps defs entry.labelProps entry.vid))
    entries

/-- One entry of a batch of edges. -/
def batchInsertEdge (capacity : UInt32) (defs : EdgeLabelDefs) (labelId : EdgeLabelId)
    (entry : BatchEdgeEntry) : StoreM Nat := do
  let _ ← insertEdge capacity (entry.ref labelId) entry.props
  insertIndexEntries (collectEdgeIndexEntries defs labelId entry.eid entry.props)

def batchInsertEdges (capacity : UInt32) (defs : EdgeLabelDefs) (labelId : EdgeLabelId)
    (entries : List BatchEdgeEntry) : StoreM Unit :=
  forEach (batchInsertEdge capacity defs labelId) entries

end Eugraph.DataStore
