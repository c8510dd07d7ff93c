import Eugraph.Query.EdgeOperators
import Eugraph.Meta.GraphSchema

/-!
# Write operators on vertices

What `CREATE`, `SET`, `REMOVE` and `DELETE` do to the data store, the metadata and the
label definitions of their statement for one vertex of one row.  All operators of a
statement share the definitions (`ctx->label_defs`); the row's vertex value is an input of
each step, and what is mirrored back into the row is left out.
-/

namespace Eugraph.Query

open Lib Lib.Program Wt KeyCodec DataStore Meta

/-! ### Programs that may throw -/

/-- A program of store calls that may end with an exception. -/
abbrev OperatorM := ExceptT String StoreM

/-- A call of the store. -/
def call {α : Type} (p : StoreM α) : OperatorM α := ExceptT.lift p

/-- Rethrow the exception of a pure computation. -/
def rethrow {α : Type} (result : Except String α) : OperatorM α := ExceptT.mk (pure result)

def runOperator {α : Type} (p : OperatorM α) (s : Store) : Except String α × Store := exec p.run s

/-! ### State of a statement -/

/-- The metadata store and what the statement has loaded of it when it was planned. -/
structure StatementState where
  schema : GraphSchema
  labelDefs : LabelDefs
  labelNameToId : String → Option LabelId
  anonLabelId : LabelId

/-- `prepare` of the query executor, as far as labels go. -/
def StatementState.plan (schema : GraphSchema) : StatementState where
  schema := schema
  labelDefs := schema.labels
  labelNameToId := schema.labelNameToId
  anonLabelId := (schema.labelNameToId kAnonLabelName).getD INVALID_LABEL_ID

/-- `VertexValue` of a row; the labels in the order of `std::set`. -/
structure VertexValue where
  id : VertexId
  properties : LabelId → Option Properties
  labels : Option (List LabelId)

/-! ### Index entries of a stored vertex -/

def getVertexProperties (vid : VertexId) (labelId : LabelId) : OperatorM (Option Properties) := do
  let rows ← call (tableScan .session .vertexData (encodeVertexDataLabelPropPrefix vid labelId))
  let props ← rethrow (rows.foldlM (fun props row =>
    (ValueCodec.decode row.2).map (setProp props (decodeVertexDataPropKey row.1).2)) [])
  return if rows.isEmpty then none else some props

/-- One slot of the stored properties. -/
def readSlot (vid : VertexId) (labelId : LabelId) (pid : PropId) :
    OperatorM (Option PropertyValue) := do
  let props ← getVertexProperties vid labelId
  return props.bind fun props => propValue props pid

/-- The stored value of a property name under one label. -/
def readValue (defs : LabelDefs) (vid : VertexId) (propName : String) (labelId : LabelId) :
    OperatorM (Option PropertyValue) :=
  if findPropId defs labelId propName = 0xFFFF then pure none
  else readSlot vid labelId (findPropId defs labelId propName)

/-- The loop of a weak accessor over the labels; a conflict gives no value. -/
def readWeak (defs : LabelDefs) (vid : VertexId) (propName : String) :
    Option PropertyValue → List LabelId → OperatorM (Option PropertyValue)
  | found, [] => pure found
  | found, labelId :: rest => do
      match ← readValue defs vid propName labelId with
      | none => readWeak defs vid propName found rest
      | some candidate =>
        match found with
        | none => readWeak defs vid propName (some candidate) rest
        | some v =>
          if PropertyValue.equal v candidate then readWeak defs vid propName (some v) rest
          else pure none

def readAccessor (defs : LabelDefs) (vid : VertexId) (labels : List LabelId)
    (acc : IndexAccessorDef) : OperatorM (Option PropertyValue) :=
  if acc.isStrong then readValue defs vid acc.propertyName acc.sourceLabelId
  else readWeak defs vid acc.propertyName none labels

/-- The values of all accessors, up to the first that has none. -/
def readAccessors (defs : LabelDefs) (vid : VertexId) (labels : List LabelId) :
    List IndexAccessorDef → OperatorM (Option (List PropertyValue))
  | [] => pure (some [])
  | acc :: rest => do
      match ← readAccessor defs vid labels acc with
      | none => pure none
      | some v =>
        let values ← readAccessors defs vid labels rest
        return values.map fun values => v :: values

/-- The loop over the indexes of one filter label. -/
def collectIndexes (defs : LabelDefs) (vid : VertexId) (labels : List LabelId) :
    List IndexDef → OperatorM (List IndexRow)
  | [] => pure []
  | idx :: rest =>
    if !idx.isLive then collectIndexes defs vid labels rest
    else do
      let values ← readAccessors defs vid labels idx.accessors
      let entries ← collectIndexes defs vid labels rest
      match values with
      | none => return entries
      | some values =>
        return if idx.indexId ≠ 0 then
          ⟨.vidxTableById idx.indexId, values, vid, idx.unique⟩ :: entries else entries

/-- The loop over the filter labels. -/
def collectLabels (defs : LabelDefs) (vid : VertexId) (labels : List LabelId) :
    List LabelId → OperatorM (List IndexRow)
  | [] => pure []
  | labelId :: rest =>
    match defs labelId with
    | none => collectLabels defs vid labels rest
    | some labelDef => do
        let entries ← collectIndexes defs vid labels labelDef.indexes
        let more ← collectLabels defs vid labels rest
        return entries ++ more

/-- `std::set::insert`, on the elements in order. -/
def insertLabel (labelId : LabelId) : List LabelId → List LabelId
  | [] => [labelId]
  | l :: rest =>
    if labelId < l then labelId :: l :: rest
    else if labelId = l then l :: rest
    else l :: insertLabel labelId rest

/-- The labels whose indexes and properties count: those of the vertex and `__anon__`. -/
def entryLabels (defs : LabelDefs) (anonLabelId : LabelId) (labels : List LabelId) :
    List LabelId :=
  if anonLabelId ≠ INVALID_LABEL_ID ∧ (defs anonLabelId).isSome then insertLabel anonLabelId labels
  else labels

def collectVertexIndexEntries (defs : LabelDefs) (vid : VertexId) (anonLabelId : LabelId) :
    OperatorM (List IndexRow) := do
  let labels ← call (getVertexLabels vid)
  let labels := entryLabels defs anonLabelId labels
  collectLabels defs vid labels labels

def deleteVertexIndexEntries (entries : List IndexRow) : StoreM Unit :=
  forEach (fun entry => deleteIndexEntry entry.table entry.values entry.entityId) entries

/-- The first unique conflict ends the loop. -/
def insertVertexIndexEntriesChecked : List IndexRow → StoreM Bool
  | [] => pure true
  | entry :: rest => do
      if ← entryAllowed entry then
        let _ ← insertIndexEntry entry.table entry.values entry.entityId []
        insertVertexIndexEntriesChecked rest
      else return false

/-- What the operators throw on a conflict. -/
def constraintViolated : String :=
  "ConstraintVerificationFailed: unique index constraint violated"

/-! ### `SET n.p` -/

/-- The slots of a property name under the labels of the row's vertex. -/
def matchingSlots (defs : LabelDefs) (labels : Option (List LabelId)) (propName : String) :
    List (LabelId × PropId) :=
  (labels.getD []).filterMap fun labelId =>
    (defs labelId).bind fun labelDef =>
      (labelDef.properties.find? fun pd => pd.name = propName).map fun pd => (labelId, pd.id)

/-- Which slot `SET n.p = null` clears: the one of strong mode, else the only match. -/
def removedSlot (st : StatementState) (vertex : VertexValue) (propName : String)
    (resolved : Option (LabelId × PropId)) : Option (LabelId × PropId) :=
  match resolved with
  | some slot => some slot
  | none =>
    match matchingSlots st.labelDefs vertex.labels propName with
    | [slot] => some slot
    | _ => none

/-- Where a value is written, whether the vertex gets the label `__anon__` first, and
whether the old value is kept for a rollback. -/
structure WriteTarget where
  slot : LabelId × PropId
  addsLabel : Bool
  keepsOld : Bool

/-- `ensureLabelDefProp`. -/
def ensureLabelDefProp (defs : LabelDefs) (labelId : LabelId) (pid : PropId) (propName : String) :
    LabelDefs :=
  match defs labelId with
  | none => defs
  | some labelDef =>
    if labelDef.properties.any fun pd => pd.id = pid ∨ pd.name = propName then defs
    else Function.update defs labelId
      (some { labelDef with properties := labelDef.properties ++ [⟨pid, propName⟩] })

/-- Register the name on a label of the vertex and load the label again. -/
def registerOnLabel (st : StatementState) (labelId : LabelId) (propName : String) :
    Option WriteTarget × StatementState :=
  match st.labelDefs labelId with
  | none => (none, st)
  | some labelDef =>
    let st := { st with schema := st.schema.addVertexLabelProperty labelDef.name propName }
    match st.schema.labels labelId with
    | none => (none, st)
    | some updated =>
      let st := { st with labelDefs := Function.update st.labelDefs labelId (some updated) }
      let pid := findPropId st.labelDefs labelId propName
      (if pid = 0xFFFF then none else some ⟨(labelId, pid), false, false⟩, st)

/-- Register the name on `__anon__`. -/
def registerOnAnon (st : StatementState) (labels : Option (List LabelId)) (propName : String) :
    Option WriteTarget × StatementState :=
  if st.anonLabelId = INVALID_LABEL_ID then (none, st)
  else
    let (pid, schema) := st.schema.getOrCreateAnonPropId propName
    (some ⟨(st.anonLabelId, pid), st.anonLabelId ∉ labels.getD [], false⟩, { st with
      schema := schema
      labelDefs := ensureLabelDefProp st.labelDefs st.anonLabelId pid propName })

/-- The first label of the row's vertex other than `__anon__`. -/
def firstUserLabel (st : StatementState) (vertex : VertexValue) : Option LabelId :=
  (vertex.labels.getD []).find? fun labelId => labelId ≠ st.anonLabelId

/-- Where `SET n.p = v` writes: the slot of strong mode, the only match, or a slot that is
registered for it.  Several matches are ambiguous and write nothing. -/
def writtenSlot (st : StatementState) (vertex : VertexValue) (propName : String)
    (resolved : Option (LabelId × PropId)) : Option WriteTarget × StatementState :=
  match resolved with
  | some slot => (some ⟨slot, false, true⟩, st)
  | none =>
    match matchingSlots st.labelDefs vertex.labels propName with
    | [slot] => (some ⟨slot, false, true⟩, st)
    | [] =>
      match firstUserLabel st vertex with
      | some labelId => registerOnLabel st labelId propName
      | none => registerOnAnon st vertex.labels propName
    | _ => (none, st)

/-- Write the value; the result is the value to roll back to. -/
def writeSlot (st : StatementState) (vid : VertexId) (v : PropertyValue) :
    Option WriteTarget → OperatorM (Option PropertyValue)
  | none => pure none
  | some target => do
      let old ← if target.keepsOld then readSlot vid target.slot.1 target.slot.2 else pure none
      if target.addsLabel then
        let _ ← call (addVertexLabel vid st.anonLabelId)
      let _ ← call (putVertexProperty vid target.slot.1 target.slot.2 v)
      return old

def clearSlot (vid : VertexId) : Option (LabelId × PropId) → OperatorM (Option PropertyValue)
  | none => pure none
  | some slot => do
      let old ← readSlot vid slot.1 slot.2
      let _ ← call (deleteVertexProperty vid slot.1 slot.2)
      return old

/-- Replace the entries after a slot has changed.  A conflict undoes the change and throws,
if a slot was written at all. -/
def replaceEntries (st : StatementState) (vid : VertexId) (old : List IndexRow)
    (slot : Option (LabelId × PropId)) (rollback : Option PropertyValue) : OperatorM Unit := do
  let new ← collectVertexIndexEntries st.labelDefs vid st.anonLabelId
  call (deleteVertexIndexEntries old)
  let inserted ← call (insertVertexIndexEntriesChecked new)
  if inserted then pure ()
  else
    match slot with
    | none => pure ()
    | some slot => do
        match rollback with
        | some v => let _ ← call (putVertexProperty vid slot.1 slot.2 v)
        | none => let _ ← call (deleteVertexProperty vid slot.1 slot.2)
        let restored ← collectVertexIndexEntries st.labelDefs vid st.anonLabelId
        call (deleteVertexIndexEntries new)
        let _ ← call (insertVertexIndexEntriesChecked restored)
        throw constraintViolated

/-- `SET_PROPERTY`; `none` is null. -/
def setProperty (st : StatementState) (vertex : VertexValue) (propName : String)
    (resolved : Option (LabelId × PropId)) (value : Option PropertyValue) :
    OperatorM StatementState := do
  let old ← collectVertexIndexEntries st.labelDefs vertex.id st.anonLabelId
  match value with
  | none =>
    let slot := removedSlot st vertex propName resolved
    let rollback ← clearSlot vertex.id slot
    replaceEntries st vertex.id old slot rollback
    return st
  | some v =>
    let (target, st) := writtenSlot st vertex propName resolved
    let rollback ← writeSlot st vertex.id v target
    replaceEntries st vertex.id old (target.map WriteTarget.slot) rollback
    return st

/-! ### `SET n = map` and `SET n += map` -/

/-- Delete every stored property of the given labels. -/
def clearProperties (vid : VertexId) : List LabelId → OperatorM Unit
  | [] => pure ()
  | labelId :: rest => do
      let props ← getVertexProperties vid labelId
      call (forEach (fun slot : PropId × PropertyValue => deleteVertexProperty vid labelId slot.1)
        (slots (props.getD [])))
      clearProperties vid rest

/-- The properties of the given labels, for a rollback. -/
def snapshotProperties (vid : VertexId) :
    List LabelId → OperatorM (List (LabelId × PropId × PropertyValue))
  | [] => pure []
  | labelId :: rest => do
      let props ← getVertexProperties vid labelId
      let more ← snapshotProperties vid rest
      return (slots (props.getD [])).map (fun slot => (labelId, slot)) ++ more

/-- Where `+=` looks for a key with a null value: `__anon__` counts next to the labels. -/
def nullSlots (st : StatementState) (vertex : VertexValue) (key : String) :
    List (LabelId × PropId) :=
  matchingSlots st.labelDefs vertex.labels key ++
    if st.anonLabelId = INVALID_LABEL_ID then []
    else matchingSlots st.labelDefs (some [st.anonLabelId]) key

/-- One entry of the map. -/
def setEntry (isAddAssign : Bool) (vertex : VertexValue) (st : StatementState)
    (entry : String × Option PropertyValue) : OperatorM StatementState :=
  match entry.2 with
  | none => do
      match isAddAssign, nullSlots st vertex entry.1 with
      | true, [slot] =>
        let _ ← call (deleteVertexProperty vertex.id slot.1 slot.2)
        return st
      | _, _ => return st
  | some v => do
      let (target, st) := writtenSlot st vertex entry.1 none
      let _ ← writeSlot st vertex.id v (target.map fun target => { target with keepsOld := false })
      return st

/-- Put labels and properties of the vertex back. -/
def restoreVertex (vid : VertexId) (oldLabels : List LabelId)
    (snapshot : List (LabelId × PropId × PropertyValue)) : OperatorM Unit := do
  let current ← call (getVertexLabels vid)
  call (forEach (removeVertexLabel vid) (current.filter fun labelId => labelId ∉ oldLabels))
  call (forEach (addVertexLabel vid) oldLabels)
  clearProperties vid current
  call (forEach (fun e : LabelId × PropId × PropertyValue =>
    putVertexProperty vid e.1 e.2.1 e.2.2) snapshot)

/-- `SET_PROPERTIES`. -/
def setProperties (st : StatementState) (vertex : VertexValue) (isAddAssign : Bool)
    (entries : List (String × Option PropertyValue)) : OperatorM StatementState := do
  let old ← collectVertexIndexEntries st.labelDefs vertex.id st.anonLabelId
  let labels ← call (getVertexLabels vertex.id)
  let oldLabels := entryLabels st.labelDefs st.anonLabelId labels
  let snapshot ← snapshotProperties vertex.id oldLabels
  if !isAddAssign then
    let labels ← call (getVertexLabels vertex.id)
    clearProperties vertex.id (if st.anonLabelId ≠ INVALID_LABEL_ID then
      insertLabel st.anonLabelId labels else labels)
  let st ← entries.foldlM (setEntry isAddAssign vertex) st
  let new ← collectVertexIndexEntries st.labelDefs vertex.id st.anonLabelId
  call (deleteVertexIndexEntries old)
  let inserted ← call (insertVertexIndexEntriesChecked new)
  if inserted then return st
  else
    restoreVertex vertex.id oldLabels snapshot
    let restored ← collectVertexIndexEntries st.labelDefs vertex.id st.anonLabelId
    call (deleteVertexIndexEntries new)
    let _ ← call (insertVertexIndexEntriesChecked restored)
    throw constraintViolated

/-! ### `SET n:L` -/

/-- The id of the label, which is created when the statement does not know its name. -/
def resolveLabel (st : StatementState) (label : String) :
    Except String (Option LabelId × StatementState) :=
  match st.labelNameToId label with
  | some labelId => .ok (some labelId, st)
  | none =>
    match st.schema.createLabel label with
    | .error message => .error message
    | .ok (labelId, schema) =>
      if labelId = INVALID_LABEL_ID then .ok (none, { st with schema := schema })
      else .ok (some labelId, { st with
        schema := schema
        labelDefs := Function.update st.labelDefs labelId (some ⟨label, [], []⟩)
        labelNameToId := Function.update st.labelNameToId label (some labelId) })

/-- `SET_LABELS`: the entries of the vertex with the label are added, none is taken away. -/
def setLabels (st : StatementState) (vertex : VertexValue) (label : String) :
    OperatorM StatementState := do
  let (labelId, st) ← rethrow (resolveLabel st label)
  match labelId with
  | none => return st
  | some labelId =>
    if labelId ∈ vertex.labels.getD [] then return st
    else
      let _ ← call (addVertexLabel vertex.id labelId)
      let new ← collectVertexIndexEntries st.labelDefs vertex.id st.anonLabelId
      let inserted ← call (insertVertexIndexEntriesChecked new)
      if inserted then return st
      else
        call (deleteVertexIndexEntries new)
        let _ ← call (removeVertexLabel vertex.id labelId)
        throw constraintViolated

/-! ### `REMOVE` -/

/-- What `REMOVE n.p` deletes: the slot of strong mode, else every match, else the slot of
`__anon__`. -/
def removedSlots (st : StatementState) (vertex : VertexValue) (propName : String)
    (resolved : Option (LabelId × PropId)) : List (LabelId × PropId) :=
  match resolved with
  | some slot => [slot]
  | none =>
    match matchingSlots st.labelDefs vertex.labels propName with
    | [] => matchingSlots st.labelDefs (some [st.anonLabelId]) propName
    | found => found

/-- Delete the slots of `REMOVE n.p`. -/
def deleteSlots (vid : VertexId) (removed : List (LabelId × PropId)) : StoreM Unit :=
  forEach (fun slot => deleteVertexProperty vid slot.1 slot.2) removed

/-- What the re-insert returns is not looked at. -/
def removeProperty (st : StatementState) (vertex : VertexValue) (propName : String)
    (resolved : Option (LabelId × PropId)) : OperatorM StatementState := do
  let old ← collectVertexIndexEntries st.labelDefs vertex.id st.anonLabelId
  call (deleteSlots vertex.id (removedSlots st vertex propName resolved))
  let new ← collectVertexIndexEntries st.labelDefs vertex.id st.anonLabelId
  call (deleteVertexIndexEntries old)
  let _ ← call (insertVertexIndexEntriesChecked new)
  return st

/-- The properties of the label that is removed: those of the row if it has any, else the
stored ones. -/
def sourceProperties (vertex : VertexValue) (labelId : LabelId) : OperatorM Properties :=
  match vertex.properties labelId with
  | some (cell :: rest) => pure (cell :: rest)
  | _ => do
      let props ← getVertexProperties vertex.id labelId
      return props.getD []

/-- Copy one property to `__anon__`; the statement's definitions are not loaded again. -/
def migrateProperty (vid : VertexId) (props : Properties) (st : StatementState × Bool)
    (pd : PropertyDef) : StoreM (StatementState × Bool) :=
  match propValue props pd.id with
  | none => pure st
  | some v => do
      let (pid, schema) := st.1.schema.getOrCreateAnonPropId pd.name
      let _ ← putVertexProperty vid st.1.anonLabelId pid v
      return ({ st.1 with schema := schema }, true)

def migrateProperties (vid : VertexId) (props : Properties) :
    StatementState × Bool → List PropertyDef → StoreM (StatementState × Bool)
  | st, [] => pure st
  | st, pd :: rest => do
      let st ← migrateProperty vid props st pd
      migrateProperties vid props st rest

/-- The properties go to `__anon__` before `removeVertexLabel` deletes them. -/
def migrateLabel (st : StatementState) (vertex : VertexValue) (labelId : LabelId) :
    OperatorM (StatementState × Bool) :=
  if st.anonLabelId = INVALID_LABEL_ID ∨ st.anonLabelId = labelId then pure (st, false)
  else
    match st.labelDefs labelId with
    | none => pure (st, false)
    | some labelDef => do
        let props ← sourceProperties vertex labelId
        call (migrateProperties vertex.id props (st, false) labelDef.properties)

/-- The labels the row's vertex has left. -/
def remainingLabels (vertex : VertexValue) (labelId : LabelId) : OperatorM (List LabelId) := do
  let labels ← match vertex.labels with
    | some labels => pure labels
    | none => call (getVertexLabels vertex.id)
  return labels.filter fun l => l ≠ labelId

/-- The changes to the rows of the vertex, before its entries are replaced. -/
def removeLabelRows (st : StatementState) (vertex : VertexValue) (labelId : LabelId) :
    OperatorM (StatementState × Bool) := do
  let migrated ← migrateLabel st vertex labelId
  let _ ← call (removeVertexLabel vertex.id labelId)
  return migrated

/-- `REMOVE n:L`. -/
def removeLabel (st : StatementState) (vertex : VertexValue) (label : String) :
    OperatorM StatementState :=
  match st.labelNameToId label with
  | none => pure st
  | some labelId => do
      let old ← collectVertexIndexEntries st.labelDefs vertex.id st.anonLabelId
      let (st, migrated) ← removeLabelRows st vertex labelId
      let new ← collectVertexIndexEntries st.labelDefs vertex.id st.anonLabelId
      call (deleteVertexIndexEntries old)
      let _ ← call (insertVertexIndexEntriesChecked new)
      let remaining ← remainingLabels vertex labelId
      if (remaining = [] ∨ migrated = true) ∧ st.anonLabelId ≠ INVALID_LABEL_ID ∧
          st.anonLabelId ≠ labelId ∧ st.anonLabelId ∉ remaining then
        let _ ← call (addVertexLabel vertex.id st.anonLabelId)
        return st
      else return st

/-! ### `DELETE` -/

/-- An edge of the vertex that the statement has not deleted. -/
def hasConnected (capacity : UInt32) (vid : VertexId) (deletedEdges : List EdgeId) :
    StoreM Bool := do
  let out ← asyncScanEdges capacity vid .OUT
  if out.any fun entry => entry.edgeId ∉ deletedEdges then return true
  else
    let incoming ← asyncScanEdges capacity vid .IN
    return incoming.any fun entry => entry.edgeId ∉ deletedEdges

/-- One vertex of `DELETE` or `DETACH DELETE`; `checked` are the vertices of the chunk that
were looked at before. -/
def deleteVertexEntity (capacity : UInt32) (st : StatementState) (detach : Bool)
    (checked : List VertexId) (deletedEdges : List EdgeId) (vid : VertexId) :
    OperatorM Unit := do
  if detach then
    let _ ← call (detachEdges capacity vid)
  else if vid ∉ checked then
    if ← call (hasConnected capacity vid deletedEdges) then
      throw "ConstraintVerificationFailed: DeleteConnectedNode: node has connected edges"
  let entries ← collectVertexIndexEntries st.labelDefs vid st.anonLabelId
  call (deleteVertexIndexEntries entries)
  let _ ← call (deleteVertex vid)

/-! ### `CREATE` -/

/-- An expression of the pattern, by its number; a row gives it a value or null. -/
abbrev ExprId := Nat

/-- The state of `CreateNodePhysicalOp`. -/
structure CreateNode where
  labelIds : List LabelId
  labelPropExprs : List (LabelId × List (PropId × ExprId))
  pendingProps : List (String × ExprId)
  labelNames : List String
  resolvedPending : List (LabelId × PropId × ExprId)

/-- `loadLabelDef_`. -/
def StatementState.loadLabelDef (st : StatementState) (labelId : LabelId) : StatementState :=
  if labelId = INVALID_LABEL_ID then st
  else
    match st.schema.labels labelId with
    | none => st
    | some labelDef =>
      { st with labelDefs := Function.update st.labelDefs labelId (some labelDef) }

/-- `createOrGetLabel_`. -/
def createOrGetLabel (st : StatementState) (name : String) :
    Except String (LabelId × StatementState) :=
  match st.schema.labelNameToId name with
  | some labelId => .ok (labelId, st)
  | none =>
    match st.schema.createLabel name with
    | .error message => .error message
    | .ok (labelId, schema) => .ok (labelId, { st with schema := schema }.loadLabelDef labelId)

/-- `resolvePropOnLabel_`: register the name if the label lacks it. -/
def resolvePropOnLabel (st : StatementState) (labelId : LabelId) (propName : String) :
    Option PropId × StatementState :=
  let pid := findPropId st.labelDefs labelId propName
  if pid ≠ 0xFFFF then (some pid, st)
  else
    let name := ((st.labelDefs labelId).map LabelDef.name).getD ""
    let st := { st with schema := st.schema.addVertexLabelProperty name propName }.loadLabelDef labelId
    let pid := findPropId st.labelDefs labelId propName
    (if pid ≠ 0xFFFF then some pid else none, st)

/-- The first of the labels that takes the property. -/
def resolvePending (propName : String) : StatementState → List LabelId →
    Option (LabelId × PropId) × StatementState
  | st, [] => (none, st)
  | st, labelId :: rest =>
    match resolvePropOnLabel st labelId propName with
    | (some pid, st) => (some (labelId, pid), st)
    | (none, st) => resolvePending propName st rest

/-- Phase 0, the labels: those without an id are left out. -/
def createLabels : StatementState → List String → Except String (List LabelId × StatementState)
  | st, [] => .ok ([], st)
  | st, name :: rest =>
    match createOrGetLabel st name with
    | .error message => .error message
    | .ok (labelId, st) =>
      (createLabels st rest).map fun out =>
        (if labelId = INVALID_LABEL_ID then out.1 else labelId :: out.1, out.2)

/-- Phase 0b: pending properties move to the first label that takes them. -/
def resolvePendingProps (labelIds : List LabelId) : CreateNode × StatementState →
    List (String × ExprId) → CreateNode × StatementState
  | out, [] => out
  | (op, st), (propName, expr) :: rest =>
    match resolvePending propName st labelIds with
    | (some slot, st) =>
      resolvePendingProps labelIds ({ op with
        labelPropExprs := op.labelPropExprs ++ [(slot.1, [(slot.2, expr)])] }, st) rest
    | (none, st) =>
      resolvePendingProps labelIds ({ op with
        pendingProps := op.pendingProps ++ [(propName, expr)] }, st) rest

/-- `prepareLabels_`. -/
def prepareLabels (op : CreateNode) (st : StatementState) :
    Except String (CreateNode × StatementState) :=
  match createLabels st op.labelNames with
  | .error message => .error message
  | .ok (resolved, st) =>
    let kept := if resolved ≠ [] ∧ op.labelIds = [st.anonLabelId] then [] else op.labelIds
    let op := { op with
      labelIds := resolved.foldl (fun ids labelId =>
        if labelId ∈ ids then ids else ids ++ [labelId]) kept }
    if resolved = [] then .ok (op, st)
    else .ok (resolvePendingProps resolved ({ op with pendingProps := [] }, st) op.pendingProps)

/-- `ensureTables_`, as far as definitions go. -/
def ensureTables (op : CreateNode) (st : StatementState) : StatementState :=
  op.labelIds.foldl (fun st labelId =>
    if (st.labelDefs labelId).isNone then st.loadLabelDef labelId else st) st

/-- The properties that no label takes get slots of `__anon__`. -/
def registerPending : CreateNode × StatementState → List (String × ExprId) →
    CreateNode × StatementState
  | out, [] => out
  | (op, st), (propName, expr) :: rest =>
    let (pid, schema) := st.schema.getOrCreateAnonPropId propName
    registerPending ({ op with
      resolvedPending := op.resolvedPending ++ [(st.anonLabelId, pid, expr)] },
      { st with schema := schema }) rest

/-- `prepareAnon_`; every graph has the label `__anon__` since it was opened. -/
def prepareAnon (op : CreateNode) (st : StatementState) : CreateNode × StatementState :=
  if op.pendingProps = [] ∧ op.labelIds ≠ [] then (op, st)
  else
    let (op, st) := registerPending (op, st) op.pendingProps
    (if op.labelIds = [] then { op with labelIds := [st.anonLabelId] } else op,
      st.loadLabelDef st.anonLabelId)

/-- `prepare_`. -/
def CreateNode.prepare (op : CreateNode) (st : StatementState) :
    Except String (CreateNode × StatementState) :=
  (prepareLabels op st).map fun out => prepareAnon out.1 (ensureTables out.1 out.2)

/-- Assign the value of an expression to its slot; null leaves the slot alone. -/
def assignExpr (eval : ExprId → Option PropertyValue) (props : Properties)
    (slot : PropId × ExprId) : Properties :=
  match eval slot.2 with
  | none => props
  | some v => setProp props slot.1 v

/-- The slots of a label that come from pending properties. -/
def CreateNode.pendingOf (op : CreateNode) (labelId : LabelId) : List (PropId × ExprId) :=
  (op.resolvedPending.filter fun e => e.1 = labelId).map Prod.snd

/-- The slots of a label. -/
def CreateNode.exprsOf (op : CreateNode) (labelId : LabelId) : List (PropId × ExprId) :=
  ((op.labelPropExprs.filter fun e => e.1 = labelId).flatMap Prod.snd) ++ op.pendingOf labelId

/-- `buildLabelProps`: one group per label, then pending properties of `__anon__` again. -/
def CreateNode.buildLabelProps (op : CreateNode) (anonLabelId : LabelId)
    (eval : ExprId → Option PropertyValue) : LabelProps :=
  ((op.labelIds.filter fun labelId => labelId ≠ INVALID_LABEL_ID).map fun labelId =>
    (labelId, (op.exprsOf labelId).foldl (assignExpr eval) [])) ++
  match (op.pendingOf anonLabelId).foldl (assignExpr eval) [] with
  | [] => []
  | props => [(anonLabelId, props)]

/-- `CreateNodePhysicalOp::insertVertex`. -/
def createVertex (capacity : UInt32) (defs : LabelDefs) (vid : VertexId)
    (labelProps : LabelProps) : StoreM Bool := do
  let planned := collectVertexIndexEntriesFromLabelProps defs labelProps vid
  let free ← allOf (fun entry : IndexRow => checkUniqueConstraint entry.table entry.values)
    (planned.filter IndexRow.unique)
  if free then
    if ← insertVertex capacity vid labelProps then
      forEach (fun entry : IndexRow =>
        insertIndexEntry entry.table entry.values entry.entityId []) planned
      return true
    else return false
  else return false

end Eugraph.Query
