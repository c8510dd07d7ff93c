import Eugraph.Lib.Handler
import Eugraph.Lib.KeyedMap
import Eugraph.Storage.IndexMaintenance

/-!
# The schema operations of `AsyncGraphMetaStore`

The in-memory schema and the operations that change it.  An operation edits the schema in
place and persists the definition it changed through `metadataPut` and `metadataDel`,
which may fail; what it wrote before it failed stays written.  The operations are
handlers on the schema whose calls are the metadata writes.

A metadata key is a fixed prefix and a name or an id; no prefix is a prefix of another,
so a key is modelled by its kind.  A value is the record that the codec writes and reads
back.
-/

namespace Eugraph.MetaStore

open Lib DataStore

/-! ### The schema -/

inductive PropertyType
  | BOOL | INT64 | DOUBLE | STRING | INT64_ARRAY | DOUBLE_ARRAY | STRING_ARRAY | DATETIME | TIME
  | DURATION | DATETIME_ARRAY | TIME_ARRAY | DURATION_ARRAY | ANY | BYTES
  deriving DecidableEq

structure PropertyDef where
  id : UInt16
  name : String
  type : PropertyType
  required : Bool
  defaultValue : Option PropertyValue

structure IndexDef where
  indexId : UInt32
  name : String
  accessors : List IndexAccessorDef
  propIds : List UInt16
  unique : Bool
  state : IndexState

structure LabelDef where
  id : LabelId
  name : String
  properties : List PropertyDef
  pkPropIds : List UInt16
  indexes : List IndexDef

structure EdgeLabelDef where
  id : EdgeLabelId
  name : String
  properties : List PropertyDef
  directed : Bool
  indexes : List IndexDef

structure NextIds where
  nextVertexId : VertexId
  nextEdgeId : EdgeId
  nextLabelId : LabelId
  nextEdgeLabelId : EdgeLabelId
  nextIndexId : UInt32

abbrev LabelMap := KeyedMap Nat LabelDef fun d => d.id.toNat
abbrev EdgeLabelMap := KeyedMap Nat EdgeLabelDef fun d => d.id.toNat

structure GraphSchema where
  labels : LabelMap
  labelNameToId : String → Option LabelId
  edgeLabels : EdgeLabelMap
  edgeLabelNameToId : String → Option EdgeLabelId
  nextIds : NextIds

namespace GraphSchema

def fresh : GraphSchema := ⟨.empty, fun _ => none, .empty, fun _ => none, ⟨1, 1, 1, 1, 1⟩⟩

def getLabelById (s : GraphSchema) (id : LabelId) : Option LabelDef := s.labels.get id.toNat

def getLabel (s : GraphSchema) (name : String) : Option LabelDef :=
  match s.labelNameToId name with
  | none => none
  | some id => s.getLabelById id

def getEdgeLabelById (s : GraphSchema) (id : EdgeLabelId) : Option EdgeLabelDef :=
  s.edgeLabels.get id.toNat

def getEdgeLabel (s : GraphSchema) (name : String) : Option EdgeLabelDef :=
  match s.edgeLabelNameToId name with
  | none => none
  | some id => s.getEdgeLabelById id

def hasIndex (s : GraphSchema) (name : String) : Bool :=
  (s.labels.values.any fun d => d.indexes.any (·.name = name)) ||
    s.edgeLabels.values.any fun d => d.indexes.any (·.name = name)

def setLabel (s : GraphSchema) (d : LabelDef) : GraphSchema := { s with labels := s.labels.set d }

def setEdgeLabel (s : GraphSchema) (d : EdgeLabelDef) : GraphSchema :=
  { s with edgeLabels := s.edgeLabels.set d }

end GraphSchema

/-! ### Metadata writes -/

inductive MetaKey
  | label (name : String)
  | labelId (id : LabelId)
  | edgeLabel (name : String)
  | edgeLabelId (id : EdgeLabelId)
  | nextIds
  | index (name : String)
  deriving DecidableEq

inductive MetaValue
  | labelDef (d : LabelDef)
  | edgeLabelDef (d : EdgeLabelDef)
  | nextIds (ids : NextIds)
  | vertexIndex (label : LabelId) (accessors : List IndexAccessorDef)
  | edgeIndex (label : EdgeLabelId) (propIds : List UInt16)

inductive MetaCall
  | put (key : MetaKey) (value : MetaValue)
  | del (key : MetaKey)

/-- Every metadata write reports whether it succeeded. -/
abbrev MetaAnswer (_ : MetaCall) : Type := Bool

/-- Operations on the schema that write metadata and throw messages. -/
abbrev MetaHandler := Handler MetaCall MetaAnswer String GraphSchema

def metadataPut (key : MetaKey) (value : MetaValue) : MetaHandler Bool := Handler.ask (.put key value)

def metadataDel (key : MetaKey) : MetaHandler Bool := Handler.ask (.del key)

/-- A write that must succeed. -/
def require (write : MetaHandler Bool) (message : String) : MetaHandler Unit := do
  let ok ← write
  if ok then pure () else throw message

/-- The same value under two keys; the second write is made only if the first succeeds. -/
def metadataPutBoth (key key' : MetaKey) (value : MetaValue) : MetaHandler Bool := do
  let ok ← metadataPut key value
  if ok then metadataPut key' value else pure false

def persistLabelDef (d : LabelDef) : MetaHandler Unit :=
  require (metadataPutBoth (.label d.name) (.labelId d.id) (.labelDef d))
    ("Failed to persist label definition '" ++ d.name ++ "'")

def persistEdgeLabelDef (d : EdgeLabelDef) : MetaHandler Unit :=
  require (metadataPutBoth (.edgeLabel d.name) (.edgeLabelId d.id) (.edgeLabelDef d))
    ("Failed to persist edge label definition '" ++ d.name ++ "'")

def saveNextIds : MetaHandler Unit := do
  let s ← get
  require (metadataPut .nextIds (.nextIds s.nextIds)) "Failed to persist next ids"

/-- `try { body } catch (...) { undo; throw; }`. -/
def orUndo (body : MetaHandler Unit) (undo : GraphSchema → GraphSchema) : MetaHandler Unit :=
  tryCatch body fun message => do
    modify undo
    throw message

/-! ### Labels -/

/-- The property loop of the merge: the definition as far as the loop came, and whether a
property was added, or the conflict that ended the loop. -/
def mergeProperties (labelName : String) :
    List PropertyDef → UInt16 → LabelDef → Bool → LabelDef × Except String Bool
  | [], _, d, changed => (d, .ok changed)
  | p :: rest, nextPropId, d, changed =>
    match d.properties.find? (·.name = p.name) with
    | some found =>
      if found.type ≠ p.type then
        (d, .error ("Label '" ++ labelName ++ "' property '" ++ p.name ++
          "' already exists with a different type"))
      else mergeProperties labelName rest nextPropId d changed
    | none =>
      mergeProperties labelName rest (nextPropId + 1)
        { d with properties := d.properties ++ [{ p with id := nextPropId }] } true

/-- `createLabel` with `merge_properties` on an existing label. -/
def mergeIntoLabel (name : String) (before : LabelDef) (properties : List PropertyDef) :
    MetaHandler LabelId := do
  let merged := mergeProperties name properties (UInt16.ofNat before.properties.length) before false
  modify (·.setLabel merged.1)
  let changed ← Handler.fromExcept merged.2
  if changed then
    orUndo (persistLabelDef merged.1) (·.setLabel before)
    pure before.id
  else pure before.id

/-- The first property that differs from the declared one, by position. -/
def propertiesAgree (name : String) : Nat → List PropertyDef → List PropertyDef → Except String Unit
  | i, existing :: rest, p :: ps =>
    if existing.name ≠ p.name ∨ existing.type ≠ p.type then
      .error ("Label '" ++ name ++ "' already exists; property #" ++ toString i ++
        " differs (existing '" ++ existing.name ++ "', requested '" ++ p.name ++ "')")
    else propertiesAgree name (i + 1) rest ps
  | _, _, _ => .ok ()

/-- `createLabel` without `merge_properties` on an existing label. -/
def redeclareLabel (name : String) (before : LabelDef) (properties : List PropertyDef)
    (pkProps : List String) : Except String LabelId := do
  if before.properties.length ≠ properties.length then
    .error ("Label '" ++ name ++ "' already exists with " ++ toString before.properties.length ++
      " properties (requested " ++ toString properties.length ++
      "); pass merge_properties to add properties incrementally")
  else
    propertiesAgree name 0 before.properties properties
    let existingPk := before.pkPropIds.filterMap fun pid =>
      (before.properties[pid.toNat]?).map (·.name)
    if existingPk ≠ pkProps then
      .error ("Label '" ++ name ++ "' already exists with a different primary key declaration")
    else .ok before.id

/-- The requested properties with ids from `propId` on. -/
def numberProperties : UInt16 → List PropertyDef → List PropertyDef
  | _, [] => []
  | propId, p :: rest => { p with id := propId } :: numberProperties (propId + 1) rest

/-- The ids of the primary key properties, in order.  `0xFFFF` stands for a missing one. -/
def resolvePk (labelName : String) (properties : List PropertyDef) :
    List String → List UInt16 → Except String (List UInt16)
  | [], pids => .ok pids
  | pkName :: rest, pids =>
    let pid := match properties.find? (·.name = pkName) with
      | some pd => pd.id
      | none => 0xFFFF
    if pid = 0xFFFF then
      .error ("Primary key property '" ++ pkName ++ "' is not declared on label '" ++
        labelName ++ "'")
    else if pid ∈ pids then
      .error ("Duplicate primary key property '" ++ pkName ++ "' on label '" ++ labelName ++ "'")
    else resolvePk labelName properties rest (pids ++ [pid])

/-- `createLabel` for a name that is not in the schema. -/
def createNewLabel (name : String) (properties : List PropertyDef) (pkProps : List String) :
    MetaHandler LabelId := do
  let s ← get
  let id := s.nextIds.nextLabelId
  modify fun s => { s with nextIds := { s.nextIds with nextLabelId := id + 1 } }
  let numbered := numberProperties 0 properties
  let pkPropIds ← Handler.fromExcept (resolvePk name numbered pkProps [])
  let d : LabelDef := ⟨id, name, numbered, pkPropIds, []⟩
  persistLabelDef d
  saveNextIds
  modify fun s => { s.setLabel d with
    labelNameToId := Function.update s.labelNameToId name (some id) }
  pure id

def createLabel (name : String) (properties : List PropertyDef) (pkProps : List String)
    (merge : Bool) : MetaHandler LabelId := do
  let s ← get
  match s.labelNameToId name with
  | some existingId =>
    match s.getLabelById existingId with
    | none => throw "unordered_map::at"
    | some before =>
      if merge then mergeIntoLabel name before properties
      else Handler.fromExcept (redeclareLabel name before properties pkProps)
  | none => createNewLabel name properties pkProps

def createEdgeLabel (name : String) (properties : List PropertyDef) : MetaHandler EdgeLabelId := do
  let s ← get
  if (s.edgeLabelNameToId name).isSome then pure INVALID_EDGE_LABEL_ID
  else
    let id := s.nextIds.nextEdgeLabelId
    modify fun s => { s with nextIds := { s.nextIds with nextEdgeLabelId := id + 1 } }
    let d : EdgeLabelDef := ⟨id, name, numberProperties 0 properties, true, []⟩
    persistEdgeLabelDef d
    saveNextIds
    modify fun s => { s.setEdgeLabel d with
      edgeLabelNameToId := Function.update s.edgeLabelNameToId name (some id) }
    pure id

/-! ### Properties -/

/-- The property loop of `addVertexLabelProperties` and `addEdgeLabelProperties`: a name
that is taken is skipped. -/
def addProperties : List (String × PropertyType) → UInt16 → List PropertyDef → List PropertyDef
  | [], _, properties => properties
  | (name, type) :: rest, nextPropId, properties =>
    if properties.any (·.name = name) then addProperties rest nextPropId properties
    else addProperties rest (nextPropId + 1) (properties ++ [⟨nextPropId, name, type, false, none⟩])

def addVertexLabelProperties (name : String) (propDefs : List (String × PropertyType)) :
    MetaHandler Bool := do
  let s ← get
  match s.getLabel name with
  | none => pure false
  | some before =>
    let d := { before with
      properties := addProperties propDefs (UInt16.ofNat before.properties.length)
        before.properties }
    modify (·.setLabel d)
    orUndo (persistLabelDef d) (·.setLabel before)
    pure true

def addEdgeLabelProperties (name : String) (propDefs : List (String × PropertyType)) :
    MetaHandler Bool := do
  let s ← get
  match s.getEdgeLabel name with
  | none => pure false
  | some before =>
    let d := { before with
      properties := addProperties propDefs (UInt16.ofNat before.properties.length)
        before.properties }
    modify (·.setEdgeLabel d)
    orUndo (persistEdgeLabelDef d) (·.setEdgeLabel before)
    pure true

/-- The internal label of vertices without labels. -/
def anonLabelName : String := "__anon__"

def getOrCreateAnonPropId (propName : String) (propType : PropertyType) : MetaHandler UInt16 := do
  let s ← get
  match s.labels.values.find? (·.name = anonLabelName) with
  | none => pure 0
  | some before =>
    match before.properties.find? (·.name = propName) with
    | some pd => pure pd.id
    | none =>
      let newId := UInt16.ofNat before.properties.length
      let d := { before with
        properties := before.properties ++ [⟨newId, propName, propType, false, none⟩] }
      modify (·.setLabel d)
      orUndo (persistLabelDef d) (·.setLabel before)
      pure newId

/-! ### Indexes -/

/-- Every strong accessor names a property of its source label. -/
def accessorsResolve (s : GraphSchema) (accessors : List IndexAccessorDef) : Bool :=
  accessors.all fun acc => !acc.isStrong ||
    match s.getLabelById acc.sourceLabelId with
    | none => false
    | some source => source.properties.any (·.name = acc.propertyName)

def createVertexIndexWithAccessors (name labelName : String) (accessors : List IndexAccessorDef)
    (unique : Bool) : MetaHandler Bool := do
  let s ← get
  if s.hasIndex name then pure false
  else
    match s.getLabel labelName with
    | none => pure false
    | some before =>
      if accessors = [] then pure false
      else if !accessorsResolve s accessors then pure false
      else
        let indexId := s.nextIds.nextIndexId
        modify fun s => { s with nextIds := { s.nextIds with nextIndexId := indexId + 1 } }
        if before.indexes.any (·.accessors = accessors) then pure false
        else
          let d := { before with
            indexes := before.indexes ++ [⟨indexId, name, accessors, [], unique, .WRITE_ONLY⟩] }
          modify (·.setLabel d)
          orUndo (do
            persistLabelDef d
            require (metadataPut (.index name) (.vertexIndex d.id accessors))
              ("Failed to persist index definition '" ++ name ++ "'")
            saveNextIds) (·.setLabel before)
          pure true

def createVertexIndex (name labelName : String) (propNames : List String) (unique : Bool) :
    MetaHandler Bool :=
  createVertexIndexWithAccessors name labelName
    (propNames.map fun pn => ⟨false, INVALID_LABEL_ID, pn⟩) unique

def findPropId (properties : List PropertyDef) (name : String) : Option UInt16 :=
  (properties.find? (·.name = name)).map (·.id)

def createEdgeIndex (name edgeLabelName : String) (propNames : List String) (unique : Bool) :
    MetaHandler Bool := do
  let s ← get
  if s.hasIndex name then pure false
  else
    match s.getEdgeLabel edgeLabelName with
    | none => pure false
    | some before =>
      match propNames.mapM (findPropId before.properties) with
      | none => pure false
      | some propIds =>
        if before.indexes.any (·.propIds = propIds) then pure false
        else
          let d := { before with
            indexes := before.indexes ++ [⟨0, name, [], propIds, unique, .WRITE_ONLY⟩] }
          modify (·.setEdgeLabel d)
          orUndo (do
            persistEdgeLabelDef d
            require (metadataPut (.index name) (.edgeIndex d.id propIds))
              ("Failed to persist edge index definition '" ++ name ++ "'"))
            (·.setEdgeLabel before)
          pure true

/-- The first index of that name gets another state. -/
def setIndexState (name : String) (state : IndexState) : List IndexDef → List IndexDef
  | [] => []
  | idx :: rest =>
    if idx.name = name then { idx with state := state } :: rest
    else idx :: setIndexState name state rest

def updateIndexState (name : String) (state : IndexState) : MetaHandler Bool := do
  let s ← get
  match s.labels.values.find? fun d => d.indexes.any (·.name = name) with
  | some before =>
    let d := { before with indexes := setIndexState name state before.indexes }
    modify (·.setLabel d)
    orUndo (persistLabelDef d) (·.setLabel before)
    pure true
  | none =>
    match s.edgeLabels.values.find? fun d => d.indexes.any (·.name = name) with
    | some before =>
      let d := { before with indexes := setIndexState name state before.indexes }
      modify (·.setEdgeLabel d)
      orUndo (persistEdgeLabelDef d) (·.setEdgeLabel before)
      pure true
    | none => pure false

/-- The first index of that name is taken out. -/
def eraseIndex (name : String) : List IndexDef → List IndexDef :=
  List.eraseP (·.name = name)

def dropIndex (name : String) : MetaHandler Bool := do
  let s ← get
  let deleteEntry := require (metadataDel (.index name))
    ("Failed to delete index metadata '" ++ name ++ "'")
  match s.labels.values.find? fun d => d.indexes.any (·.name = name) with
  | some before =>
    let d := { before with indexes := eraseIndex name before.indexes }
    modify (·.setLabel d)
    orUndo (do persistLabelDef d; deleteEntry) (·.setLabel before)
    pure true
  | none =>
    match s.edgeLabels.values.find? fun d => d.indexes.any (·.name = name) with
    | some before =>
      let d := { before with indexes := eraseIndex name before.indexes }
      modify (·.setEdgeLabel d)
      orUndo (do persistEdgeLabelDef d; deleteEntry) (·.setEdgeLabel before)
      pure true
    | none => pure false

/-! ### Every operation -/

inductive MetaOp
  | createLabel (name : String) (properties : List PropertyDef) (pkProps : List String) (merge : Bool)
  | createEdgeLabel (name : String) (properties : List PropertyDef)
  | addVertexLabelProperties (name : String) (propDefs : List (String × PropertyType))
  | addEdgeLabelProperties (name : String) (propDefs : List (String × PropertyType))
  | getOrCreateAnonPropId (propName : String) (propType : PropertyType)
  | createVertexIndex (name labelName : String) (propNames : List String) (unique : Bool)
  | createVertexIndexWithAccessors (name labelName : String) (accessors : List IndexAccessorDef)
      (unique : Bool)
  | createEdgeIndex (name edgeLabelName : String) (propNames : List String) (unique : Bool)
  | updateIndexState (name : String) (state : IndexState)
  | dropIndex (name : String)

inductive MetaResult
  | id (n : UInt16)
  | flag (b : Bool)
  deriving DecidableEq

def returnsId (op : MetaHandler UInt16) : MetaHandler MetaResult := do return .id (← op)

def returnsFlag (op : MetaHandler Bool) : MetaHandler MetaResult := do return .flag (← op)

def runOp : MetaOp → MetaHandler MetaResult
  | .createLabel name properties pkProps merge =>
    returnsId (createLabel name properties pkProps merge)
  | .createEdgeLabel name properties => returnsId (createEdgeLabel name properties)
  | .addVertexLabelProperties name propDefs => returnsFlag (addVertexLabelProperties name propDefs)
  | .addEdgeLabelProperties name propDefs => returnsFlag (addEdgeLabelProperties name propDefs)
  | .getOrCreateAnonPropId propName propType => returnsId (getOrCreateAnonPropId propName propType)
  | .createVertexIndex name labelName propNames unique =>
    returnsFlag (createVertexIndex name labelName propNames unique)
  | .createVertexIndexWithAccessors name labelName accessors unique =>
    returnsFlag (createVertexIndexWithAccessors name labelName accessors unique)
  | .createEdgeIndex name edgeLabelName propNames unique =>
    returnsFlag (createEdgeIndex name edgeLabelName propNames unique)
  | .updateIndexState name state => returnsFlag (updateIndexState name state)
  | .dropIndex name => returnsFlag (dropIndex name)

end Eugraph.MetaStore
