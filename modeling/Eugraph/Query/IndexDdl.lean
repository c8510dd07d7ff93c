import Eugraph.Query.EdgeRuns
import Eugraph.Query.VertexOperators
import Eugraph.Meta.SchemaAtomicity

/-!
# `CREATE INDEX` and `DROP INDEX`

`QueryExecutor::handleIndexDdl` with every metadata write and every transaction
succeeding.  Creating an index registers it, fills its table from a scan of the label or
the edge type in batches of bounded size, each in a transaction of its own, and then
publishes it.  A table that exists is kept as it is; one that does not exist is an empty
one here.
-/

namespace Eugraph.Query

open Lib Lib.Program Wt KeyCodec DataStore

structure IndexPropertyAccessor where
  isStrong : Bool
  sourceLabel : String
  propertyName : String

/-- `IndexDdlStatement` without the statements that only list indexes. -/
inductive IndexDdlStatement
  | CREATE_VERTEX_INDEX (indexName labelName : String) (accessors : List IndexPropertyAccessor)
      (unique : Bool)
  | CREATE_EDGE_INDEX (indexName labelName : String) (accessors : List IndexPropertyAccessor)
      (unique : Bool)
  | DROP_INDEX (indexName : String)

/-- What a statement reports and what it leaves behind. -/
structure DdlOutcome where
  result : Except String String
  schema : MetaStore.GraphSchema
  store : Store

/-! ### The schema -/

/-- A call of the metadata store whose writes all succeed. -/
def metaCall (op : MetaStore.MetaOp) (schema : MetaStore.GraphSchema) :
    Except String Bool × MetaStore.GraphSchema :=
  match MetaStore.execute (fun _ _ => true) op schema with
  | (.ok result, schema) => (.ok (decide (result = .flag true)), schema)
  | (.error message, schema) => (.error message, schema)

def findIndexByName (schema : MetaStore.GraphSchema) (indexName : String) :
    Option MetaStore.IndexDef :=
  (schema.labels.values.findSome? fun d => d.indexes.find? (·.name = indexName)).or
    (schema.edgeLabels.values.findSome? fun d => d.indexes.find? (·.name = indexName))

/-- The accessors with the ids of their source labels. -/
def sourceAccessors (schema : MetaStore.GraphSchema) :
    List IndexPropertyAccessor → Except String (List IndexAccessorDef) :=
  List.mapM fun src =>
    if src.isStrong then
      match schema.labelNameToId src.sourceLabel with
      | none => .error ("Source label not found: " ++ src.sourceLabel)
      | some labelId => .ok ⟨true, labelId, src.propertyName⟩
    else .ok ⟨false, INVALID_LABEL_ID, src.propertyName⟩

structure ResolvedAccessor where
  isStrong : Bool
  sourceLabelId : LabelId
  sourcePropId : PropId
  propertyName : String

def resolveAccessor (schema : MetaStore.GraphSchema) (indexName : String) (acc : IndexAccessorDef) :
    Except String ResolvedAccessor :=
  if acc.isStrong then
    match schema.getLabelById acc.sourceLabelId with
    | none => .error ("Source label not found for index '" ++ indexName ++ "'")
    | some src =>
      match MetaStore.findPropId src.properties acc.propertyName with
      | none => .error ("Property not found in source label for index '" ++ indexName ++ "': " ++
          acc.propertyName)
      | some pid => .ok ⟨true, acc.sourceLabelId, pid, acc.propertyName⟩
  else .ok ⟨false, acc.sourceLabelId, 0xFFFF, acc.propertyName⟩

/-! ### Values of an entity -/

/-- What one accessor reads. -/
inductive Accessed
  | missing
  | value (v : PropertyValue)
  | conflicting

/-- What a backfill finds for one entity. -/
inductive Found
  | skipped
  | values (vs : List PropertyValue)
  | conflicting

/-- The id of a property name under a label; `UINT16_MAX` counts as unknown. -/
def weakPropId (schema : MetaStore.GraphSchema) (propName : String) (labelId : LabelId) :
    Option PropId :=
  match schema.getLabelById labelId with
  | none => none
  | some lab => (MetaStore.findPropId lab.properties propName).filter (· ≠ 0xFFFF)

/-- The loop of a weak accessor over the labels of the vertex. -/
def accessWeak (schema : MetaStore.GraphSchema) (vid : VertexId) (propName : String) :
    Option PropertyValue → List LabelId → OperatorM Accessed
  | none, [] => pure .missing
  | some v, [] => pure (.value v)
  | found, labelId :: rest =>
    match weakPropId schema propName labelId with
    | none => accessWeak schema vid propName found rest
    | some pid => do
        match ← readSlot vid labelId pid with
        | none => accessWeak schema vid propName found rest
        | some candidate =>
          match found with
          | none => accessWeak schema vid propName (some candidate) rest
          | some v =>
            if PropertyValue.equal v candidate then
              accessWeak schema vid propName (some v) rest
            else pure .conflicting

def accessStrong (vid : VertexId) (ra : ResolvedAccessor) : OperatorM Accessed := do
  match ← readSlot vid ra.sourceLabelId ra.sourcePropId with
  | none => return .missing
  | some v => return .value v

def access (schema : MetaStore.GraphSchema) (vid : VertexId) (labels : List LabelId)
    (ra : ResolvedAccessor) : OperatorM Accessed :=
  if ra.isStrong then accessStrong vid ra else accessWeak schema vid ra.propertyName none labels

/-- The loop over the accessors; `values` are those read so far. -/
def findVertexValues (schema : MetaStore.GraphSchema) (vid : VertexId) (labels : List LabelId) :
    List PropertyValue → List ResolvedAccessor → OperatorM Found
  | values, [] => pure (.values values)
  | values, ra :: rest => do
      match ← access schema vid labels ra with
      | .missing => return .skipped
      | .conflicting => return .conflicting
      | .value v => findVertexValues schema vid labels (values ++ [v]) rest

def findEdgeValues (labelId : EdgeLabelId) (propIds : List PropId) (entry : EdgeTypeIndexEntry) :
    OperatorM Found := do
  match ← (ExceptT.mk (getEdgeProperties labelId entry.edgeId) : OperatorM (Option Properties)) with
  | none => return .skipped
  | some props =>
    match collectValues (propValue props) propIds with
    | none => return .skipped
    | some values => return .values values

/-! ### The backfill -/

/-- How the entities `ε` of a scan get into an index table. -/
structure Backfill (ε : Type) where
  table : TableName
  unique : Bool
  find : ε → OperatorM Found
  entityId : ε → UInt64
  payload : ε → Bytes

namespace Backfill

variable {ε : Type} (b : Backfill ε)

/-- The unique check and the insert. -/
def insert (e : ε) (values : List PropertyValue) : StoreM Bool := do
  if ← entryAllowed ⟨b.table, values, b.entityId e, b.unique⟩ then
    let _ ← insertIndexEntry b.table values (b.entityId e) (b.payload e)
    return true
  else return false

/-- One entity; `false` is a conflict. -/
def entity (e : ε) : OperatorM Bool := do
  match ← b.find e with
  | .skipped => return true
  | .conflicting => return false
  | .values values => call (b.insert e values)

/-- The loop over a batch, up to the first conflict. -/
def entities : List ε → OperatorM Bool
  | [] => pure true
  | e :: rest => do
      if ← b.entity e then entities rest else return false

/-- `flush_batch`: the batch in a transaction, which a conflict or an exception takes back. -/
def flushBatch (pending : List ε) (s : Store) : Except String Bool × Store :=
  match runOperator (b.entities pending) s with
  | (.ok true, s') => (.ok true, s')
  | (.ok false, _) => (.ok false, s)
  | (.error message, _) => (.error message, s)

/-- The loop over the scan: a batch is flushed when it has `batchRows` entities. -/
def scanLoop (batchRows : Nat) : List ε → List ε → Store → Except String Bool × Store
  | [], [], s => (.ok true, s)
  | e :: pending, [], s => b.flushBatch (e :: pending) s
  | pending, e :: rest, s =>
    if (pending ++ [e]).length < batchRows then scanLoop batchRows (pending ++ [e]) rest s
    else
      match b.flushBatch (pending ++ [e]) s with
      | (.ok true, s') => scanLoop batchRows [] rest s'
      | out => out

end Backfill

def vertexBackfill (schema : MetaStore.GraphSchema) (indexId : UInt32) (unique : Bool)
    (resolved : List ResolvedAccessor) : Backfill VertexId where
  table := .vidxTableById indexId
  unique := unique
  find vid := do
    let labels ← call (getVertexLabels vid)
    findVertexValues schema vid labels [] resolved
  entityId vid := vid
  payload _ := []

def edgeBackfill (labelId : EdgeLabelId) (propIds : List PropId) (unique : Bool) :
    Backfill EdgeTypeIndexEntry where
  table := .eidxTable labelId propIds
  unique := unique
  find := findEdgeValues labelId propIds
  entityId entry := entry.edgeId
  payload entry := ValueCodec.encodeEdgeAdjacency entry.srcVertexId entry.dstVertexId entry.seq labelId

def scanVerticesByLabel (labelId : LabelId) : StoreM (List VertexId) := do
  let rows ← tableScan .session (.labelFwdTable labelId) []
  return rows.map fun row => decodeLabelForwardKey row.1

/-! ### Statements -/

/-- The texts in which the two kinds of indexes differ. -/
structure DdlTexts where
  created : String
  conflict : String
  notPublished : String

def vertexTexts : DdlTexts where
  created := "Index created: "
  conflict := "Index creation failed: conflicting values or duplicate values during backfill"
  notPublished := "Failed to set index state to PUBLIC"

def edgeTexts : DdlTexts where
  created := "Edge index created: "
  conflict := "Unique edge index creation failed: duplicate values found during backfill"
  notPublished := "Failed to set edge index state to PUBLIC"

/-- The state change after the backfill.  An exception of the backfill skips it. -/
def publish (texts : DdlTexts) (indexName : String) (schema : MetaStore.GraphSchema)
    (backfill : Except String Bool × Store) : DdlOutcome :=
  match backfill with
  | (.error message, s) => ⟨.error message, schema, s⟩
  | (.ok false, s) =>
    ⟨.error texts.conflict, (metaCall (.updateIndexState indexName .ERROR) schema).2, s⟩
  | (.ok true, s) =>
    match metaCall (.updateIndexState indexName .PUBLIC) schema with
    | (.ok true, schema) => ⟨.ok (texts.created ++ indexName), schema, s⟩
    | (.ok false, schema) => ⟨.error texts.notPublished, schema, s⟩
    | (.error message, schema) => ⟨.error message, schema, s⟩

/-- The vertex index is registered; fill its table and publish it. -/
def fillVertexIndex (batchRows : Nat) (indexName : String) (labelId : LabelId) (unique : Bool)
    (schema : MetaStore.GraphSchema) (s : Store) : DdlOutcome :=
  match findIndexByName schema indexName with
  | none => ⟨.error ("Created index not found in schema: " ++ indexName), schema, s⟩
  | some idx =>
    match idx.accessors.mapM (resolveAccessor schema indexName) with
    | .error message => ⟨.error message, schema, s⟩
    | .ok resolved =>
      publish vertexTexts indexName schema
        ((vertexBackfill schema idx.indexId unique resolved).scanLoop batchRows []
          (exec (scanVerticesByLabel labelId) s).1 s)

def createVertexIndex (batchRows : Nat) (indexName labelName : String)
    (accessors : List IndexPropertyAccessor) (unique : Bool) (schema : MetaStore.GraphSchema)
    (s : Store) : DdlOutcome :=
  match schema.getLabel labelName with
  | none => ⟨.error ("Label not found: " ++ labelName), schema, s⟩
  | some labelDef =>
    match sourceAccessors schema accessors with
    | .error message => ⟨.error message, schema, s⟩
    | .ok [] => ⟨.error "Index has no property accessors", schema, s⟩
    | .ok (acc :: rest) =>
      match metaCall (.createVertexIndexWithAccessors indexName labelName (acc :: rest) unique)
          schema with
      | (.ok true, schema) => fillVertexIndex batchRows indexName labelDef.id unique schema s
      | (.ok false, schema) => ⟨.error "Failed to create index (duplicate name?)", schema, s⟩
      | (.error message, schema) => ⟨.error message, schema, s⟩

/-- The ids of the properties of an edge index. -/
def edgePropIds (labelDef : MetaStore.EdgeLabelDef) (accessors : List IndexPropertyAccessor) :
    Except String (List PropId) :=
  accessors.mapM fun acc =>
    match MetaStore.findPropId labelDef.properties acc.propertyName with
    | none => .error ("Property not found: " ++ acc.propertyName)
    | some pid => .ok pid

def createEdgeIndex (batchRows : Nat) (indexName labelName : String)
    (accessors : List IndexPropertyAccessor) (unique : Bool) (schema : MetaStore.GraphSchema)
    (s : Store) : DdlOutcome :=
  match schema.getEdgeLabel labelName with
  | none => ⟨.error ("Edge label not found: " ++ labelName), schema, s⟩
  | some labelDef =>
    match edgePropIds labelDef accessors with
    | .error message => ⟨.error message, schema, s⟩
    | .ok propIds =>
      match metaCall (.createEdgeIndex indexName labelName
          (accessors.map IndexPropertyAccessor.propertyName) unique) schema with
      | (.ok true, schema) =>
        publish edgeTexts indexName schema
          ((edgeBackfill labelDef.id propIds unique).scanLoop batchRows []
            (exec (scanEdgesByType labelDef.id) s).1 s)
      | (.ok false, schema) =>
        ⟨.error "Failed to create edge index (duplicate name?)", schema, s⟩
      | (.error message, schema) => ⟨.error message, schema, s⟩

/-- The table that `DROP INDEX` drops: edge indexes have the id 0. -/
def droppedTable (schema : MetaStore.GraphSchema) (indexName : String) : Option TableName :=
  match findIndexByName schema indexName with
  | none => none
  | some idx => if idx.indexId ≠ 0 then some (.vidxTableById idx.indexId) else none

def dropIndex (indexName : String) (schema : MetaStore.GraphSchema) (s : Store) : DdlOutcome :=
  match metaCall (.dropIndex indexName) schema with
  | (.ok true, schema') =>
    match droppedTable schema indexName with
    | none => ⟨.ok ("Index dropped: " ++ indexName), schema', s⟩
    | some table => ⟨.ok ("Index dropped: " ++ indexName), schema', (exec (dropTable table) s).2⟩
  | (.ok false, schema') => ⟨.error ("Failed to drop index: " ++ indexName), schema', s⟩
  | (.error message, schema') => ⟨.error message, schema', s⟩

def handleIndexDdl (batchRows : Nat) (schema : MetaStore.GraphSchema) (s : Store) :
    IndexDdlStatement → DdlOutcome
  | .CREATE_VERTEX_INDEX indexName labelName accessors unique =>
    createVertexIndex batchRows indexName labelName accessors unique schema s
  | .CREATE_EDGE_INDEX indexName labelName accessors unique =>
    createEdgeIndex batchRows indexName labelName accessors unique schema s
  | .DROP_INDEX indexName => dropIndex indexName schema s

/-! ### Definitions of a statement -/

def indexDef (idx : MetaStore.IndexDef) : IndexDef :=
  ⟨idx.indexId, idx.accessors, idx.propIds, idx.unique, idx.state⟩

def propertyDef (pd : MetaStore.PropertyDef) : PropertyDef := ⟨pd.id, pd.name⟩

/-- The label definitions of a schema, as the write operators see them. -/
def labelDefs (schema : MetaStore.GraphSchema) : LabelDefs := fun labelId =>
  (schema.getLabelById labelId).map fun d =>
    ⟨d.name, d.properties.map propertyDef, d.indexes.map indexDef⟩

def edgeLabelDefs (schema : MetaStore.GraphSchema) : EdgeLabelDefs := fun labelId =>
  (schema.getEdgeLabelById labelId).map fun d =>
    ⟨d.properties.map propertyDef, d.indexes.map indexDef⟩

/-- The state in which a statement is planned. -/
def planned (schema : MetaStore.GraphSchema) : StatementState :=
  .plan ⟨labelDefs schema, schema.labelNameToId, schema.nextIds.nextLabelId⟩

end Eugraph.Query
