import Eugraph.Meta.PublicIndexes
import Eugraph.Query.IndexBackfill
import Eugraph.Query.IndexTables
import Eugraph.Lib.Scatter

/-!
# What a published index contains

The table of a vertex index is named by an id that is given out once, so it is empty when
the index is created and exact when it is published.  The table of an edge index is named
by the edge type and the properties.  `DROP INDEX` does not drop it, and a later index on
the same properties is filled on top of what the earlier one left.
-/

namespace Eugraph.Query

open Lib Lib.Program Wt KeyCodec IndexKeyCodec DataStore List Option MetaStore.NoNewPublic MetaStore
  IndexPropertyAccessor

/-! ### Calls of the metadata store -/

lemma metaCall_of_ensures {op : MetaOp} {m : MetaHandler Bool}
    (hop : runOp op = returnsFlag m) {schema : GraphSchema}
    {Q : Except String Bool → GraphSchema → Prop}
    (h : Handler.Ensures anyAnswer m schema Q) :
    Q (metaCall op schema).1 (metaCall op schema).2 := by
  have hflag : Handler.Ensures anyAnswer (runOp op) schema fun r schema' =>
      Q (r.map fun result => decide (result = .flag true)) schema' := by
    rw [hop, returnsFlag, Handler.ensures_bind]
    apply h.mono
    rintro (message | flag) schema' hQ
    · exact hQ
    · cases flag with
      | false => exact hQ
      | true => exact hQ
  have hrun := execute_of_ensures hflag fun _ _ => true
  unfold metaCall
  rcases hexec : execute (fun _ _ => true) op schema with ⟨_ | result, schema'⟩
  · rw [hexec] at hrun
    exact hrun
  · rw [hexec] at hrun
    exact hrun

/-- What holds of the schema after the operation, whatever it returns. -/
theorem metaCall_snd_of_ensures {op : MetaOp} {schema : GraphSchema}
    {P : GraphSchema → Prop}
    (h : Handler.Ensures anyAnswer (runOp op) schema fun _ schema' => P schema') :
    P (metaCall op schema).2 := by
  have hrun := execute_of_ensures h fun _ _ => true
  unfold metaCall
  rcases hexec : execute (fun _ _ => true) op schema with ⟨_ | result, schema'⟩
  · rw [hexec] at hrun
    exact hrun
  · rw [hexec] at hrun
    exact hrun

lemma findSome_of_find {α β : Type} {items : List α} {f : α → Option β} {test : α → Bool}
    (htest : ∀ a, test a = (f a).isSome) {a : α} (h : items.find? test = some a) :
    items.findSome? f = f a := by
  induction items with
  | nil => exact nomatch h
  | cons b rest ih =>
    rw [List.find?_cons] at h
    rw [List.findSome?_cons]
    cases hb : f b with
    | none =>
      rw [htest b, hb] at h
      exact ih h
    | some v =>
      rw [htest b, hb] at h
      rw [← Option.some.inj h, hb]

variable {idx : MetaStore.IndexDef}

lemma findIndexByName_of_label {schema : GraphSchema} {indexName : String}
    {d : MetaStore.LabelDef} (hlabel : schema.labelOfIndex indexName = some d)
    (hidx : d.indexes.find? (·.name = indexName) = some idx) :
    findIndexByName schema indexName = some idx := by
  unfold findIndexByName
  have htest : ∀ d : MetaStore.LabelDef, d.indexes.any (·.name = indexName) =
      (d.indexes.find? (·.name = indexName)).isSome := fun d => List.isSome_find?.symm
  rw [findSome_of_find htest hlabel, hidx]
  rfl

/-! ### The statements -/

/-- The index as it is registered by `CREATE INDEX` on a label. -/
def newVertexIndex (schema : GraphSchema) (indexName : String)
    (accessors : List IndexAccessorDef) (unique : Bool) : MetaStore.IndexDef :=
  ⟨schema.nextIds.nextIndexId, indexName, accessors, [], unique, .WRITE_ONLY⟩

def newEdgeIndex (indexName : String) (propIds : List PropId) (unique : Bool) :
    MetaStore.IndexDef :=
  ⟨0, indexName, [], propIds, unique, .WRITE_ONLY⟩

/-- The schema with a new vertex index. -/
def withVertexIndex (schema : GraphSchema) (d : MetaStore.LabelDef) (indexName : String)
    (accessors : List IndexAccessorDef) (unique : Bool) : GraphSchema :=
  schema.takeIndexId.setLabel (d.addIndex (newVertexIndex schema indexName accessors unique))

def withEdgeIndex (schema : GraphSchema) (d : MetaStore.EdgeLabelDef) (indexName : String)
    (propIds : List PropId) (unique : Bool) : GraphSchema :=
  schema.setEdgeLabel (d.addIndex (newEdgeIndex indexName propIds unique))

section Statements

variable (batchRows : Nat) (indexName labelName : String) (unique : Bool)
  (schema : GraphSchema) (s : Store)

/-- The state change after a backfill; `PUBLIC` only after one without a conflict. -/
theorem publish_cases (texts : DdlTexts) (backfill : Except String Bool × Store) :
    (publish texts indexName schema backfill).store = backfill.2 ∧
    ((publish texts indexName schema backfill).schema = schema ∨ ∃ state, (state = .PUBLIC → backfill.1 = .ok true) ∧
        (publish texts indexName schema backfill).schema =
          (metaCall (.updateIndexState indexName state) schema).2) := by
  rcases backfill with ⟨_ | _ | _, s⟩
  · exact ⟨rfl, .inl rfl⟩
  · exact ⟨rfl, .inr ⟨.ERROR, nofun, rfl⟩⟩
  · unfold publish
    refine ⟨?_, .inr ⟨.PUBLIC, fun _ => rfl, ?_⟩⟩
    · dsimp only
      split
      · rfl
      · rfl
      · rfl
    · dsimp only
      rcases metaCall (.updateIndexState indexName .PUBLIC) schema with ⟨_ | _ | _, schema'⟩
      · rfl
      · rfl
      · rfl

variable {out : DdlOutcome}

/-- `CREATE INDEX` on a label ends before the index is registered, or after that without a
backfill, or with one into the table of the new id. -/
theorem createVertexIndex_cases (accessors : List IndexPropertyAccessor)
    (h : createVertexIndex batchRows indexName labelName accessors unique schema s = out) :
    (out.store = s ∧ (out.schema = schema ∨ out.schema = schema.takeIndexId)) ∨
    ∃ d accs, schema.getLabel labelName = some d ∧ schema.hasIndex indexName = false ∧
      ((out.store = s ∧ out.schema = withVertexIndex schema d indexName accs unique) ∨
      ∃ resolved, accs.mapM (resolveAccessor (withVertexIndex schema d indexName accs unique)
          indexName) = .ok resolved ∧
        out = publish vertexTexts indexName (withVertexIndex schema d indexName accs unique)
          ((vertexBackfill (withVertexIndex schema d indexName accs unique)
            schema.nextIds.nextIndexId unique resolved).scanLoop batchRows []
              (exec (scanVerticesByLabel d.id) s).1 s)) := by
  unfold createVertexIndex at h
  split at h
  · exact .inl (h ▸ ⟨rfl, .inl rfl⟩)
  rename_i d hlabel
  split at h
  · exact .inl (h ▸ ⟨rfl, .inl rfl⟩)
  · exact .inl (h ▸ ⟨rfl, .inl rfl⟩)
  rename_i acc rest _
  have hop : runOp (.createVertexIndexWithAccessors indexName labelName (acc :: rest)
      unique) = returnsFlag (createVertexIndexWithAccessors indexName labelName
        (acc :: rest) unique) := rfl
  have hcreate := metaCall_of_ensures hop (createVertexIndexWithAccessors_cases
    (s := schema) indexName labelName (acc :: rest) unique)
  split at h
  · rename_i schema' heq
    rw [heq] at hcreate
    rcases hcreate with ⟨hfalse, -⟩ | ⟨before, hbefore, hname, hschema⟩
    · exact absurd rfl hfalse
    obtain rfl : d = before := Option.some.inj (hlabel.symm.trans hbefore)
    refine .inr ⟨d, acc :: rest, hlabel, hname, ?_⟩
    -- The index that is looked up by its name is the one that was registered.
    have hschema : schema' = withVertexIndex schema d indexName (acc :: rest) unique := hschema
    subst hschema
    have hnamed : (withVertexIndex schema d indexName (acc :: rest) unique).labelOfIndex indexName =
        some (d.addIndex (newVertexIndex schema indexName (acc :: rest) unique)) :=
      labelOfIndex_addIndex hname d
    have hfind : findIndexByName (withVertexIndex schema d indexName (acc :: rest) unique)
        indexName = some (newVertexIndex schema indexName (acc :: rest) unique) := by
      have hfree : schema.hasIndex (newVertexIndex schema indexName (acc :: rest) unique).name = false := hname
      apply findIndexByName_of_label hnamed
      exact find_new (not_named_of_hasIndex hfree (filed_of_getLabel hlabel))
    unfold fillVertexIndex at h
    rw [hfind] at h
    dsimp only [newVertexIndex] at h
    split at h
    · exact .inl (h ▸ ⟨rfl, rfl⟩)
    · rename_i resolved hresolved
      exact .inr ⟨resolved, hresolved, h.symm⟩
  · rename_i schema' heq
    rw [heq] at hcreate
    rcases hcreate with ⟨-, hschema⟩ | ⟨before, hbefore, hname, hschema⟩
    · exact .inl (h ▸ ⟨rfl, hschema⟩)
    · exact .inr ⟨before, acc :: rest, hbefore, hname, .inl (h ▸ ⟨rfl, hschema⟩)⟩
  · rename_i message schema' heq
    rw [heq] at hcreate
    rcases hcreate with ⟨-, hschema⟩ | ⟨before, hbefore, hname, hschema⟩
    · exact .inl (h ▸ ⟨rfl, hschema⟩)
    · exact .inr ⟨before, acc :: rest, hbefore, hname, .inl (h ▸ ⟨rfl, hschema⟩)⟩

/-- A loop that fails nowhere finds what the other loop finds. -/
theorem mapM_of_ok {α β ε : Type} {f : α → Except ε β} {g : α → Option β}
    (hfg : ∀ a b, f a = .ok b → g a = some b) {items : List α} {bs : List β}
    (h : items.mapM f = .ok bs) : items.mapM g = some bs := by
  have hall := mapM_eq_ok_iff.mp h
  clear h
  induction hall with
  | nil => rfl
  | cons hab _ ih =>
    rw [mapM_cons, hfg _ _ hab, ih]
    rfl

/-- The ids that are read once more from the schema are the same. -/
theorem mapM_findPropId {d : MetaStore.EdgeLabelDef} {accessors : List IndexPropertyAccessor}
    {propIds : List PropId} (h : edgePropIds d accessors = .ok propIds) :
    (accessors.map propertyName).mapM (MetaStore.findPropId d.properties) = some propIds := by
  rw [mapM_map]
  apply mapM_of_ok _ h
  intro acc pid hacc
  show MetaStore.findPropId d.properties acc.propertyName = some pid
  split at hacc
  · exact nomatch hacc
  · rename_i hpid
    rw [hpid, Except.ok.inj hacc]

lemma createEdgeIndex_cases (accessors : List IndexPropertyAccessor)
    (h : createEdgeIndex batchRows indexName labelName accessors unique schema s = out) :
    (out.store = s ∧ out.schema = schema) ∨
    ∃ d propIds, schema.getEdgeLabel labelName = some d ∧ schema.hasIndex indexName = false ∧
      ((out.store = s ∧ out.schema = withEdgeIndex schema d indexName propIds unique) ∨
      out = publish edgeTexts indexName (withEdgeIndex schema d indexName propIds unique)
        ((edgeBackfill d.id propIds unique).scanLoop batchRows [] (exec (scanEdgesByType d.id) s).1 s)) := by
  unfold createEdgeIndex at h
  split at h
  · exact .inl (h ▸ ⟨rfl, rfl⟩)
  rename_i d hlabel
  split at h
  · exact .inl (h ▸ ⟨rfl, rfl⟩)
  rename_i propIds hpropIds
  have hop : runOp (.createEdgeIndex indexName labelName (accessors.map propertyName) unique) = returnsFlag
        (MetaStore.createEdgeIndex indexName labelName (accessors.map propertyName) unique) := rfl
  have hcreate :=
    metaCall_of_ensures hop (MetaStore.createEdgeIndex_cases (s := schema) indexName labelName _ unique)
  split at h
  · rename_i schema' heq
    rw [heq] at hcreate
    rcases hcreate with ⟨hfalse, -⟩ | ⟨before, propIds', hbefore, hname, hids, hschema⟩
    · exact absurd rfl hfalse
    obtain rfl : d = before := Option.some.inj (hlabel.symm.trans hbefore)
    obtain rfl : propIds = propIds' := Option.some.inj ((mapM_findPropId hpropIds).symm.trans hids)
    have hschema : schema' = withEdgeIndex schema d indexName propIds unique := hschema
    subst hschema
    exact .inr ⟨d, propIds, hlabel, hname, .inr h.symm⟩
  · rename_i schema' heq
    rw [heq] at hcreate
    rcases hcreate with ⟨-, hschema⟩ | ⟨before, propIds', hbefore, hname, -, hschema⟩
    · exact .inl (h ▸ ⟨rfl, hschema⟩)
    · exact .inr ⟨before, propIds', hbefore, hname, .inl (h ▸ ⟨rfl, hschema⟩)⟩
  · rename_i message schema' heq
    rw [heq] at hcreate
    rcases hcreate with ⟨-, hschema⟩ | ⟨before, propIds', hbefore, hname, -, hschema⟩
    · exact .inl (h ▸ ⟨rfl, hschema⟩)
    · exact .inr ⟨before, propIds', hbefore, hname, .inl (h ▸ ⟨rfl, hschema⟩)⟩

/-- `DROP INDEX` changes the schema only through the metadata store, and only empties
tables. -/
theorem dropIndex_cases (h : dropIndex indexName schema s = out) :
    out.schema = (metaCall (.dropIndex indexName) schema).2 ∧
      (out.store = s ∨ ∃ table, out.store = s.clear table) := by
  unfold dropIndex at h
  split at h
  · rename_i schema' heq
    rw [heq]
    split at h
    · exact h ▸ ⟨rfl, .inl rfl⟩
    · rename_i table _
      exact h ▸ ⟨rfl, .inr ⟨table, rfl⟩⟩
  · rename_i schema' heq
    rw [heq]
    exact h ▸ ⟨rfl, .inl rfl⟩
  · rename_i message schema' heq
    rw [heq]
    exact h ▸ ⟨rfl, .inl rfl⟩

end Statements

/-! ### Data statements -/

/-- What one operator of a data statement does to one row of its input, or one request of a
bulk load.  The vertices and edges of a row are arbitrary; `MERGE` writes rows without
looking at indexes. -/
inductive DataWrite
  | setProperty (vertex : VertexValue) (propName : String) (resolved : Option (LabelId × PropId))
      (value : Option PropertyValue)
  | setProperties (vertex : VertexValue) (isAddAssign : Bool)
      (entries : List (String × Option PropertyValue))
  | setLabels (vertex : VertexValue) (label : String)
  | removeProperty (vertex : VertexValue) (propName : String) (resolved : Option (LabelId × PropId))
  | removeLabel (vertex : VertexValue) (label : String)
  | deleteVertex (detach : Bool) (checked : List VertexId) (deletedEdges : List EdgeId)
      (vid : VertexId)
  | createVertices (op : CreateNode) (rows : List (VertexId × (ExprId → Option PropertyValue)))
  | batchInsertVertices (entries : List BatchVertexEntry)
  | mergeVertex (vid : VertexId) (labelProps : LabelProps)
  | mergeProperty (vid : VertexId) (labelId : LabelId) (propId : PropId) (value : PropertyValue)
  | mergeLabel (vid : VertexId) (labelId : LabelId)
  | createEdge (eid : EdgeId) (src dst : VertexId) (labelId : EdgeLabelId) (props : Properties)
  | mergeEdge (eid : EdgeId) (src dst : VertexId) (labelId : EdgeLabelId) (props : Properties)
  | mergeEdgeProperty (labelId : EdgeLabelId) (eid : EdgeId) (pid : PropId) (value : PropertyValue)
  | batchInsertEdges (labelId : EdgeLabelId) (entries : List BatchEdgeEntry)
  | setEdgeProperty (labelId : EdgeLabelId) (eid : EdgeId) (pid : PropId)
      (value : Option PropertyValue)
  | removeEdgeProperty (labelId : EdgeLabelId) (eid : EdgeId) (pid : PropId)
  | deleteEdge (e : EdgeRef)

/-- A store operation that leaves the state of the statement alone. -/
def onStore {α : Type} (st : StatementState) (p : StoreM α) : OperatorM StatementState := do
  let _ ← call p
  return st

/-- A store operation whose exception ends the statement. -/
def onStoreThrows (st : StatementState) (p : StoreM (Except String Unit)) :
    OperatorM StatementState := do
  let _ ← (ExceptT.mk p : OperatorM Unit)
  return st

/-- The rows of `CREATE`; a row with a unique conflict creates nothing. -/
def createVertices (capacity : UInt32) (st : StatementState) (op : CreateNode)
    (rows : List (VertexId × (ExprId → Option PropertyValue))) : OperatorM StatementState := do
  let (op, st) ← rethrow (op.prepare st)
  onStore st (forEach (fun row : VertexId × (ExprId → Option PropertyValue) =>
    createVertex capacity st.labelDefs row.1 (op.buildLabelProps st.anonLabelId row.2)) rows)

def DataWrite.run (capacity : UInt32) (edgeDefs : EdgeLabelDefs) (st : StatementState) :
    DataWrite → OperatorM StatementState
  | .setProperty vertex propName resolved value =>
    Query.setProperty st vertex propName resolved value
  | .setProperties vertex isAddAssign entries => Query.setProperties st vertex isAddAssign entries
  | .setLabels vertex label => Query.setLabels st vertex label
  | .removeProperty vertex propName resolved => Query.removeProperty st vertex propName resolved
  | .removeLabel vertex label => Query.removeLabel st vertex label
  | .deleteVertex detach checked deletedEdges vid => do
      deleteVertexEntity capacity st detach checked deletedEdges vid
      return st
  | .createVertices op rows => Query.createVertices capacity st op rows
  | .batchInsertVertices entries =>
    onStore st (DataStore.batchInsertVertices capacity st.labelDefs entries)
  | .mergeVertex vid labelProps => onStore st (insertVertex capacity vid labelProps)
  | .mergeProperty vid labelId propId value => onStore st (putVertexProperty vid labelId propId value)
  | .mergeLabel vid labelId => onStore st (addVertexLabel vid labelId)
  | .createEdge eid src dst labelId props =>
    onStore st (Query.createEdge capacity edgeDefs eid src dst labelId props)
  | .mergeEdge eid src dst labelId props =>
    onStore st (mergeCreateEdge capacity eid src dst labelId props)
  | .mergeEdgeProperty labelId eid pid value => onStore st (putEdgeProperty labelId eid pid value)
  | .batchInsertEdges labelId entries =>
    onStore st (DataStore.batchInsertEdges capacity edgeDefs labelId entries)
  | .setEdgeProperty labelId eid pid value =>
    onStoreThrows st (Query.setEdgeProperty edgeDefs labelId eid pid value)
  | .removeEdgeProperty labelId eid pid =>
    onStoreThrows st (Query.removeEdgeProperty edgeDefs labelId eid pid)
  | .deleteEdge e => onStoreThrows st (deleteEdgeEntity capacity edgeDefs e)

/-- The writes of a statement, in order. -/
def runStatement (capacity : UInt32) (edgeDefs : EdgeLabelDefs) (st : StatementState)
    (writes : List DataWrite) : OperatorM StatementState :=
  writes.foldlM (DataWrite.run capacity edgeDefs) st

/-! ### The system -/

structure DdlRun where
  schema : GraphSchema
  store : Store

inductive DdlAction
  /-- a label or property is registered, by a statement of its own or by a data statement -/
  | register (op : MetaOp)
  | ddl (stmt : IndexDdlStatement)
  | write (writes : List DataWrite)

namespace DdlRun

/-- A new graph. -/
def initial : DdlRun := ⟨.fresh, Store.empty⟩

/-- One completed statement; a data statement that throws is rolled back and is no step. -/
def step (capacity : UInt32) (batchRows : Nat) (r : DdlRun) : DdlAction → Option DdlRun
  | .register op => if op.registers then some { r with schema := (metaCall op r.schema).2 } else none
  | .ddl stmt =>
    let out := handleIndexDdl batchRows r.schema r.store stmt
    some ⟨out.schema, out.store⟩
  | .write writes =>
    match runOperator (runStatement capacity (edgeLabelDefs r.schema) (planned r.schema) writes)
        r.store with
    | (.ok _, store) => some { r with store := store }
    | (.error _, _) => none

/-- `CREATE INDEX` on a label finds an index id other than the last one. -/
def IdLeft (r : DdlRun) : DdlAction → Prop
  | .ddl (.CREATE_VERTEX_INDEX ..) => r.schema.nextIds.nextIndexId ≠ 0xFFFFFFFF
  | _ => True

instance (r : DdlRun) (a : DdlAction) : Decidable (r.IdLeft a) := by
  unfold IdLeft
  split
  · infer_instance
  · infer_instance

/-- All index ids are below the counter, and no table of an id from the counter on has been
written. -/
structure Inv (r : DdlRun) : Prop where
  below : IndexIdsBelow r.schema
  unused : ∀ indexId, ¬ indexId < r.schema.nextIds.nextIndexId →
    r.store (.vidxTableById indexId) = SortedMap.empty

lemma inv_initial : initial.Inv where
  below _ _ hget := nomatch hget
  unused _ _ := rfl

end DdlRun

/-! ### Tables without an index -/

section Writes

variable {n : UInt32} {st : StatementState}

lemma givenOut_planned {schema : GraphSchema} (h : IndexIdsBelow schema) :
    (planned schema).GivenOut schema.nextIds.nextIndexId := by
  have hdefs : IdsGivenOut schema.nextIds.nextIndexId (labelDefs schema) := by
    intro labelId labelDef hdef idx hidx
    obtain ⟨d, hget, rfl⟩ := map_eq_some_iff.mp hdef
    obtain ⟨idx', hidx', rfl⟩ := List.mem_map.mp hidx
    exact h _ d hget idx' hidx'
  exact ⟨hdefs, hdefs⟩

lemma okCalls_onStore (h : st.GivenOut n) {α : Type} {p : StoreM α} (hp : Calls (keepsUnused n) (fun _ => True) p) :
    OkCalls (keepsUnused n) (fun st' => st'.GivenOut n) (onStore st p) :=
  .bind (okCalls_call hp) fun _ _ => .pure h

lemma okCalls_onStoreThrows (h : st.GivenOut n) {p : StoreM (Except String Unit)}
    (hp : Calls (keepsUnused n) (fun _ => True) p) :
    OkCalls (keepsUnused n) (fun st' => st'.GivenOut n) (onStoreThrows st p) := by
  apply OkCalls.bind (Q := fun _ => True)
  · exact .mk (hp.mono fun _ _ _ _ => trivial)
  · intro _ _
    exact .pure h

lemma okCalls_createVertices (h : st.GivenOut n) (capacity : UInt32) (op : CreateNode)
    (rows : List (VertexId × (ExprId → Option PropertyValue))) :
    OkCalls (keepsUnused n) (fun st' => st'.GivenOut n) (createVertices capacity st op rows) := by
  apply OkCalls.bind (okCalls_rethrow fun out hout => h.prepare hout)
  rintro ⟨op', st'⟩ hst'
  exact okCalls_onStore hst' (.forEach fun row _ => calls_createVertex row.1 capacity hst'.defs _)

/-- No operator writes a table of an index id that was not given out. -/
theorem okCalls_dataWrite (h : st.GivenOut n) (capacity : UInt32) (edgeDefs : EdgeLabelDefs) (w : DataWrite) :
    OkCalls (keepsUnused n) (fun st' => st'.GivenOut n) (w.run capacity edgeDefs st) := by
  cases w with
  | setProperty vertex propName resolved value =>
    exact okCalls_setProperty h vertex propName resolved value
  | setProperties vertex isAddAssign entries => exact okCalls_setProperties h vertex isAddAssign entries
  | setLabels vertex label => exact okCalls_setLabels h vertex label
  | removeProperty vertex propName resolved => exact okCalls_removeProperty h vertex propName resolved
  | removeLabel vertex label => exact okCalls_removeLabel h vertex label
  | deleteVertex detach checked deletedEdges vid =>
    exact .bind (okCalls_deleteVertexEntity vid capacity h detach checked deletedEdges) fun _ _ => .pure h
  | createVertices op rows => exact okCalls_createVertices h capacity op rows
  | batchInsertVertices entries =>
    exact okCalls_onStore h (calls_batchInsertVertices capacity h.defs entries)
  | mergeVertex vid labelProps => exact okCalls_onStore h (calls_insertVertex n capacity vid labelProps)
  | mergeProperty vid labelId propId value =>
    exact okCalls_onStore h (calls_putVertexProperty n vid labelId propId value)
  | mergeLabel vid labelId => exact okCalls_onStore h (calls_addVertexLabel n vid labelId)
  | createEdge eid src dst labelId props =>
    exact okCalls_onStore h (calls_createEdge capacity edgeDefs eid src dst labelId props)
  | mergeEdge eid src dst labelId props =>
    exact okCalls_onStore h ((calls_insertEdge n capacity _ props).bind fun _ _ => .pure trivial)
  | mergeEdgeProperty labelId eid pid value => exact okCalls_onStore h (calls_put trivial _ _)
  | batchInsertEdges labelId entries =>
    exact okCalls_onStore h (calls_batchInsertEdges capacity edgeDefs labelId entries)
  | setEdgeProperty labelId eid pid value =>
    apply okCalls_onStoreThrows h
    apply calls_maintainEdgeEntries
    cases value with
    | none => exact calls_del trivial _
    | some v => exact calls_put trivial _ _
  | removeEdgeProperty labelId eid pid =>
    exact okCalls_onStoreThrows h (calls_maintainEdgeEntries edgeDefs labelId eid (calls_del trivial _))
  | deleteEdge e => exact okCalls_onStoreThrows h (calls_deleteEdgeEntity capacity edgeDefs e)

lemma okCalls_runStatement (capacity : UInt32) (edgeDefs : EdgeLabelDefs)
    (writes : List DataWrite) (h : st.GivenOut n) :
    OkCalls (keepsUnused n) (fun st' => st'.GivenOut n)
      (runStatement capacity edgeDefs st writes) := by
  unfold runStatement
  induction writes generalizing st with
  | nil => exact .pure h
  | cons w rest ih =>
    rw [foldlM_cons]
    apply OkCalls.bind (okCalls_dataWrite h capacity edgeDefs w)
    intro st' hst'
    exact ih hst'

end Writes

namespace DdlRun

variable {capacity : UInt32} {batchRows : Nat} {r r' : DdlRun}

/-- A statement that leaves the unused tables alone. -/
theorem Inv.of_kept (h : r.Inv) (hids : KeptIds r.schema r'.schema)
    (htables : ∀ indexId, ¬ indexId < r'.schema.nextIds.nextIndexId →
      r'.store (.vidxTableById indexId) = r.store (.vidxTableById indexId)) : r'.Inv where
  below := hids.below
  unused indexId hunused := by
    rw [htables indexId hunused]
    apply h.unused
    intro hlt
    exact hunused (UInt32.lt_of_lt_of_le hlt hids.counter)

variable {schema : GraphSchema}

lemma keptIds_metaCall {op : MetaOp} {m : MetaHandler Bool}
    (hop : runOp op = returnsFlag m)
    (h : KeepsIndexIds m schema) :
    KeptIds schema (metaCall op schema).2 :=
  metaCall_of_ensures hop h

lemma keptIds_updateIndexState
    (h : IndexIdsBelow schema) (indexName : String) (state : IndexState) :
    KeptIds schema (metaCall (.updateIndexState indexName state) schema).2 := by
  have hop : runOp (.updateIndexState indexName state) = returnsFlag (updateIndexState indexName state) := rfl
  exact keptIds_metaCall hop (keepsIndexIds_updateIndexState h indexName state)

lemma keptIds_publish (h : IndexIdsBelow schema)
    (texts : DdlTexts) (indexName : String) (backfill : Except String Bool × Store) :
    KeptIds schema (publish texts indexName schema backfill).schema := by
  rcases (publish_cases indexName schema texts backfill).2 with hsame | ⟨state, -, hstate⟩
  · rw [hsame]
    exact .refl h
  · rw [hstate]
    exact keptIds_updateIndexState h indexName state

lemma keptIds_dropIndex (h : IndexIdsBelow schema)
    (indexName : String) : KeptIds schema (metaCall (.dropIndex indexName) schema).2 := by
  have hop : runOp (.dropIndex indexName) = returnsFlag (MetaStore.dropIndex indexName) := rfl
  exact keptIds_metaCall hop (keepsIndexIds_dropIndex h indexName)

lemma inv_createVertexIndex (h : r.Inv) (hleft : r.schema.nextIds.nextIndexId ≠ 0xFFFFFFFF) (batchRows : Nat)
    (indexName labelName : String) (accessors : List IndexPropertyAccessor) (unique : Bool) :
    Inv ⟨(createVertexIndex batchRows indexName labelName accessors unique r.schema r.store).schema,
      (createVertexIndex batchRows indexName labelName accessors unique r.schema r.store).store⟩ := by
  rcases createVertexIndex_cases batchRows indexName labelName unique r.schema r.store accessors rfl
    with ⟨hstore, hschema⟩ | ⟨d, accs, hd, hname, hout⟩
  · apply h.of_kept
    · rcases hschema with hschema | hschema
      · rw [hschema]
        exact .refl h.below
      · rw [hschema]
        exact h.below.takeIndexId hleft
    · intro indexId _
      rw [hstore]
  have hadd : KeptIds r.schema (withVertexIndex r.schema d indexName accs unique) :=
    h.below.addIndex hleft (filed_of_getLabel hd) rfl
  rcases hout with ⟨hstore, hschema⟩ | ⟨resolved, -, hout⟩
  · apply h.of_kept
    · rw [hschema]
      exact hadd
    · intro indexId _
      rw [hstore]
  · have hpublish := keptIds_publish hadd.below vertexTexts indexName
      ((vertexBackfill (withVertexIndex r.schema d indexName accs unique)
        r.schema.nextIds.nextIndexId unique resolved).scanLoop batchRows []
          (exec (scanVerticesByLabel d.id) r.store).1 r.store)
    rw [hout]
    apply h.of_kept
    · exact hadd.trans hpublish
    · intro indexId hunused
      rw [(publish_cases _ _ _ _).1]
      -- The table of the new id is the only one that is written, and the counter is past it.
      apply Backfill.agreeOff_scanLoop (readsOff_vertexBackfill unique resolved)
      rintro heq
      obtain rfl := TableName.vidxTableById.inj heq
      exact hunused (UInt32.lt_of_lt_of_le (lt_succ_of_ne_lastIndex hleft) hpublish.counter)

lemma inv_createEdgeIndex (h : r.Inv) (batchRows : Nat) (indexName labelName : String)
    (accessors : List IndexPropertyAccessor) (unique : Bool) :
    Inv ⟨(createEdgeIndex batchRows indexName labelName accessors unique r.schema r.store).schema,
      (createEdgeIndex batchRows indexName labelName accessors unique r.schema r.store).store⟩ := by
  rcases createEdgeIndex_cases batchRows indexName labelName unique r.schema r.store accessors rfl
    with ⟨hstore, hschema⟩ | ⟨d, propIds, hd, hname, hout⟩
  · rw [hstore, hschema]
    exact h
  have hadd : KeptIds r.schema (withEdgeIndex r.schema d indexName propIds unique) :=
    ⟨h.below, UInt32.le_refl _⟩
  rcases hout with ⟨hstore, hschema⟩ | hout
  · rw [hstore, hschema]
    exact ⟨h.below, h.unused⟩
  · rw [hout]
    apply h.of_kept
    · exact hadd.trans (keptIds_publish hadd.below _ _ _)
    · intro indexId _
      rw [(publish_cases _ _ _ _).1]
      exact Backfill.agreeOff_scanLoop (readsOff_edgeBackfill unique) _ _ _ _ _ nofun

lemma inv_dropIndex (h : r.Inv) (indexName : String) : Inv ⟨(dropIndex indexName r.schema r.store).schema,
      (dropIndex indexName r.schema r.store).store⟩ := by
  obtain ⟨hschema, hstore⟩ := dropIndex_cases indexName r.schema r.store rfl
  have hids := keptIds_dropIndex h.below indexName
  rw [hschema]
  rcases hstore with hstore | ⟨table, hstore⟩
  · rw [hstore]
    exact h.of_kept hids fun _ _ => rfl
  · rw [hstore]
    refine ⟨hids.below, fun indexId hunused => ?_⟩
    have hold := h.unused indexId fun hlt => hunused (UInt32.lt_of_lt_of_le hlt hids.counter)
    by_cases htable : TableName.vidxTableById indexId = table
    · rw [htable]
      exact Function.update_self table _ _
    · exact (Function.update_of_ne htable _ _).trans hold

/-- Every statement keeps the ids below the counter and the tables above it empty. -/
theorem inv_step {a : DdlAction} (h : r.Inv) (hleft : r.IdLeft a)
    (hstep : r.step capacity batchRows a = some r') : r'.Inv := by
  cases a with
  | register op =>
    simp only [step] at hstep
    split at hstep <;> cases hstep
    rename_i hop
    have hregistered := metaCall_snd_of_ensures (registers_runOp r.schema hop)
    exact h.of_kept (hregistered.keptIds h.below) fun _ _ => rfl
  | ddl stmt =>
    obtain rfl := Option.some.inj hstep
    cases stmt with
    | CREATE_VERTEX_INDEX indexName labelName accessors unique =>
      exact inv_createVertexIndex h hleft batchRows indexName labelName accessors unique
    | CREATE_EDGE_INDEX indexName labelName accessors unique =>
      exact inv_createEdgeIndex h batchRows indexName labelName accessors unique
    | DROP_INDEX indexName => exact inv_dropIndex h indexName
  | write writes =>
    have hcalls := okCalls_runStatement capacity (edgeLabelDefs r.schema) writes (givenOut_planned h.below)
    simp only [step] at hstep
    split at hstep <;> cases hstep
    rename_i st store heq
    refine ⟨h.below, fun indexId hunused => ?_⟩
    have htable : ¬ givenOut r.schema.nextIds.nextIndexId (.vidxTableById indexId) := hunused
    have hkept : (exec (runStatement capacity (edgeLabelDefs r.schema) (planned r.schema)
        writes).run r.store).2 (.vidxTableById indexId) = r.store (.vidxTableById indexId) :=
      exec_of_writesTo hcalls htable r.store
    have hstore : (exec (runStatement capacity (edgeLabelDefs r.schema) (planned r.schema)
      writes).run r.store).2 = store := congrArg Prod.snd heq
    rw [hstore] at hkept
    exact hkept.trans (h.unused indexId hunused)

lemma inv_of_reaches (h : Reaches (step capacity batchRows) IdLeft initial r) : r.Inv :=
  h.invariant Inv inv_initial fun _ _ _ hinv hleft hstep => inv_step hinv hleft hstep

/-! ### Publication -/

/-- A state change to anything but `PUBLIC` publishes nothing. -/
theorem noNewPublic_metaCall (schema : GraphSchema) (indexName : String)
    {state : IndexState} (hstate : state ≠ .PUBLIC) :
    NoNewPublic schema (metaCall (.updateIndexState indexName state) schema).2 := by
  have hop : runOp (.updateIndexState indexName state) = returnsFlag (updateIndexState indexName state) := rfl
  exact metaCall_of_ensures hop (noNewPublic_updateIndexState indexName hstate)

variable {labelName : String}

lemma noNewPublic_withVertexIndex
    {d : MetaStore.LabelDef} (hd : schema.getLabel labelName = some d) (indexName : String)
    (accs : List IndexAccessorDef) (unique : Bool) :
    NoNewPublic schema (withVertexIndex schema d indexName accs unique) :=
  noNewPublic_addIndex (filed_of_getLabel hd) nofun

lemma noNewPublic_withEdgeIndex
    {d : MetaStore.EdgeLabelDef} (hd : schema.getEdgeLabel labelName = some d) (indexName : String)
    (propIds : List PropId) (unique : Bool) :
    NoNewPublic schema (withEdgeIndex schema d indexName propIds unique) :=
  noNewPublic_addEdgeIndex (filed_of_getEdgeLabel hd) nofun

/-- The values of the accessors depend on the properties of the labels only. -/
theorem vertexValues_of_properties {schema' : GraphSchema}
    (h : ∀ labelId, (schema'.getLabelById labelId).map MetaStore.LabelDef.properties =
      (schema.getLabelById labelId).map MetaStore.LabelDef.properties) :
    vertexValues schema' = vertexValues schema := by
  have hweak : weakPropId schema' = weakPropId schema := by
    funext propName labelId
    have hlabel := h labelId
    unfold weakPropId
    cases hold : schema.getLabelById labelId with
    | none =>
      rw [hold, map_none, map_eq_none_iff] at hlabel
      rw [hlabel]
    | some d =>
      rw [hold] at hlabel
      obtain ⟨d', hnew, hprops⟩ := map_eq_some_iff.mp hlabel
      rw [hnew]
      dsimp only
      rw [hprops]
  have hread : accessorRead schema' = accessorRead schema := by
    funext s vid acc
    have hlabel := h acc.sourceLabelId
    unfold accessorRead weakValues
    rw [hweak]
    cases hold : schema.getLabelById acc.sourceLabelId with
    | none =>
      rw [hold, map_none, map_eq_none_iff] at hlabel
      rw [hlabel]
    | some d =>
      rw [hold] at hlabel
      obtain ⟨d', hnew, hprops⟩ := map_eq_some_iff.mp hlabel
      rw [hnew, bind_some, bind_some, hprops]
  funext s labelId accessors vid
  unfold vertexValues
  rw [hread]

variable {s : Store} {indexName : String} {accessors : List IndexPropertyAccessor}

/-- After the registration nothing becomes public, or the scan has filled the table without a
conflict and the state of the new index is set. -/
theorem publish_outcome {mid : GraphSchema} (hadd : NoNewPublic schema mid) (texts : DdlTexts)
    (backfill : Except String Bool × Store) :
    NoNewPublic schema (publish texts indexName mid backfill).schema ∨
      backfill = (.ok true, (publish texts indexName mid backfill).store) ∧
        (publish texts indexName mid backfill).schema = (metaCall (.updateIndexState indexName .PUBLIC) mid).2 := by
  obtain ⟨hstore, hsame | ⟨state, hstate, hschema⟩⟩ := publish_cases indexName mid texts backfill
  · exact .inl (by rwa [hsame])
  · by_cases hpub : state = .PUBLIC
    · subst hpub
      exact .inr ⟨Prod.ext (hstate rfl) hstore.symm, hschema⟩
    · exact .inl (by rw [hschema]; exact hadd.trans (noNewPublic_metaCall mid indexName hpub))

/-- What `CREATE INDEX` on a label publishes, if the table was empty: an exact vertex index and
no edge index. -/
theorem exactContent_createVertexIndex
    (hempty : s (.vidxTableById schema.nextIds.nextIndexId) = SortedMap.empty) {unique : Bool}
    {out : DdlOutcome}
    (h : createVertexIndex batchRows indexName labelName accessors unique schema s = out)
    {P : EdgeLabelId → MetaStore.IndexDef → Prop} :
    (∀ labelId idx, ¬ schema.PublicIndex labelId idx → out.schema.PublicIndex labelId idx →
      ExactContent (out.store (.vidxTableById idx.indexId))
        (vertexValues out.schema out.store labelId idx.accessors)) ∧
    ∀ labelId idx, ¬ schema.PublicEdgeIndex labelId idx → out.schema.PublicEdgeIndex labelId idx →
      P labelId idx := by
  rcases createVertexIndex_cases batchRows indexName labelName unique schema s accessors h
    with ⟨-, hschema⟩ | ⟨d, accs, hd, hname, hout⟩
  · apply nothing_published
    rcases hschema with hschema | hschema
    · rw [hschema]
      exact .refl schema
    · rw [hschema]
      exact takeIndexId schema
  have hadd := noNewPublic_withVertexIndex hd indexName accs unique
  rcases hout with ⟨-, hschema⟩ | ⟨resolved, hresolved, hout⟩
  · exact (hschema ▸ hadd).nothing_published
  rcases publish_outcome hadd vertexTexts ((vertexBackfill (withVertexIndex schema d indexName accs unique)
      schema.nextIds.nextIndexId unique resolved).scanLoop batchRows []
        (exec (scanVerticesByLabel d.id) s).1 s) with hnone | ⟨hscan, hschema⟩
  · exact (hout ▸ hnone).nothing_published
  rw [← hout] at hscan hschema
  have hop : runOp (.updateIndexState indexName .PUBLIC) = returnsFlag (updateIndexState indexName .PUBLIC) := rfl
  have hfree : schema.hasIndex (newVertexIndex schema indexName accs unique).name = false := hname
  have hpublished := metaCall_of_ensures hop (publish_addIndex hfree (filed_of_getLabel hd))
  refine ⟨fun labelId idx hnew hpublic => ?_, fun labelId idx hnew hpublic =>
    absurd (hpublished.1 labelId idx (hschema ▸ hpublic)) hnew⟩
  rcases hpublished.2 labelId idx (hschema ▸ hpublic) with hold | ⟨rfl, rfl⟩
  · exact absurd (hadd.labels _ _ hold) hnew
  -- The new index is the one that was filled, in a scan without a conflict.
  have hvalues : vertexValues out.schema = vertexValues (withVertexIndex schema d indexName accs unique) := by
    rw [hschema]
    exact vertexValues_of_properties (metaCall_of_ensures hop (updateIndexState_properties _ indexName .PUBLIC))
  have hfiled := Backfill.Filed.scanLoop (readsOff_vertexBackfill unique resolved) batchRows hscan
  rw [hvalues, vertexValues_congr hfiled.off]
  have hiff := hfiled.exactContent_iff (vertexValues_eq_some_iff hresolved hfiled.found)
  apply hiff.mpr
  show NoLeftover (s (.vidxTableById schema.nextIds.nextIndexId)) _
  rw [hempty]
  exact noLeftover_empty _

/-- What `CREATE INDEX` on an edge type publishes: no vertex index, and an edge index that
is exact if and only if its table had no leftover. -/
theorem exactContent_createEdgeIndex
    {unique : Bool} {out : DdlOutcome}
    (h : createEdgeIndex batchRows indexName labelName accessors unique schema s = out)
    {P : LabelId → MetaStore.IndexDef → Prop} :
    (∀ labelId idx, ¬ schema.PublicIndex labelId idx → out.schema.PublicIndex labelId idx → P labelId idx) ∧
    ∀ labelId idx, ¬ schema.PublicEdgeIndex labelId idx → out.schema.PublicEdgeIndex labelId idx →
      (ExactContent (out.store (.eidxTable labelId idx.propIds)) (edgeValues out.store labelId idx.propIds) ↔
        NoLeftover (s (.eidxTable labelId idx.propIds)) (edgeValues s labelId idx.propIds)) := by
  rcases createEdgeIndex_cases batchRows indexName labelName unique schema s accessors h
    with ⟨-, hschema⟩ | ⟨d, propIds, hd, hname, hout⟩
  · rw [hschema]
    exact (NoNewPublic.refl schema).nothing_published
  have hadd := noNewPublic_withEdgeIndex hd indexName propIds unique
  rcases hout with ⟨-, hschema⟩ | hout
  · exact (hschema ▸ hadd).nothing_published
  rcases publish_outcome hadd edgeTexts ((edgeBackfill d.id propIds unique).scanLoop batchRows []
      (exec (scanEdgesByType d.id) s).1 s) with hnone | ⟨hscan, hschema⟩
  · exact (hout ▸ hnone).nothing_published
  rw [← hout] at hscan hschema
  have hop : runOp (.updateIndexState indexName .PUBLIC) = returnsFlag (updateIndexState indexName .PUBLIC) := rfl
  have hfree : schema.hasIndex (newEdgeIndex indexName propIds unique).name = false := hname
  have hpublished := metaCall_of_ensures hop (publish_addEdgeIndex hfree (filed_of_getEdgeLabel hd))
  refine ⟨fun labelId idx hnew hpublic => absurd (hpublished.1 labelId idx (hschema ▸ hpublic)) hnew,
    fun labelId idx hnew hpublic => ?_⟩
  rcases hpublished.2 labelId idx (hschema ▸ hpublic) with hold | ⟨rfl, rfl⟩
  · exact absurd (hadd.edgeLabels _ _ hold) hnew
  -- The new index is the one that was filled, in a scan without a conflict.
  have hfiled := Backfill.Filed.scanLoop (readsOff_edgeBackfill unique) batchRows hscan
  have hvalues : edgeValues out.store d.id propIds = edgeValues s d.id propIds := edgeValues_congr hfiled.off
  show ExactContent (out.store (.eidxTable d.id propIds)) (edgeValues out.store d.id propIds) ↔ _
  rw [hvalues]
  exact hfiled.exactContent_iff (edgeValues_eq_some_iff unique)

/-- In every run of registrations, data statements and index statements in which a vertex
index never takes the last id: a vertex index that becomes public has exact contents, and an
edge index that becomes public has exact contents if and only if every entry that its table
had before the statement is the one of a live edge. -/
theorem published_content_iff {a : DdlAction}
    (hrun : Reaches (step capacity batchRows) IdLeft initial r) (hleft : r.IdLeft a)
    (hstep : r.step capacity batchRows a = some r') :
    (∀ labelId idx, ¬ r.schema.PublicIndex labelId idx → r'.schema.PublicIndex labelId idx →
      ExactContent (r'.store (.vidxTableById idx.indexId))
        (vertexValues r'.schema r'.store labelId idx.accessors)) ∧
    ∀ labelId idx, ¬ r.schema.PublicEdgeIndex labelId idx → r'.schema.PublicEdgeIndex labelId idx →
        (ExactContent (r'.store (.eidxTable labelId idx.propIds)) (edgeValues r'.store labelId idx.propIds) ↔
          NoLeftover (r.store (.eidxTable labelId idx.propIds))
            (edgeValues r.store labelId idx.propIds)) := by
  have hinv := inv_of_reaches hrun
  cases a with
  | register op =>
    simp only [step] at hstep
    split at hstep <;> cases hstep
    rename_i hop
    have hregistered := metaCall_snd_of_ensures (registers_runOp r.schema hop)
    exact (of_registered hregistered).nothing_published
  | ddl stmt =>
    obtain rfl := Option.some.inj hstep
    cases stmt with
    | CREATE_VERTEX_INDEX indexName labelName accessors unique =>
      exact exactContent_createVertexIndex (hinv.unused r.schema.nextIds.nextIndexId (UInt32.lt_irrefl _)) rfl
    | CREATE_EDGE_INDEX indexName labelName accessors unique => exact exactContent_createEdgeIndex rfl
    | DROP_INDEX indexName =>
      have hop : runOp (.dropIndex indexName) = returnsFlag (MetaStore.dropIndex indexName) := rfl
      have hschema := (dropIndex_cases indexName r.schema r.store rfl).1
      apply nothing_published
      show NoNewPublic r.schema (dropIndex indexName r.schema r.store).schema
      rw [hschema]
      exact metaCall_of_ensures hop (noNewPublic_dropIndex indexName)
  | write writes =>
    simp only [step] at hstep
    split at hstep <;> cases hstep
    exact (refl _).nothing_published

/-! ### A leftover entry -/

/-- The edge type `T` with one property, and one edge that has it. -/
def oneEdge : List DdlAction :=
  [.register (.createEdgeLabel "T" [⟨0, "p", .INT64, false, none⟩]),
    .write [.createEdge 1 1 2 1 [some (.int64 5)]]]

def createIndexOnT (indexName : String) : DdlAction :=
  .ddl (.CREATE_EDGE_INDEX indexName "T" [⟨false, "", "p"⟩] false)

/-- The indexes of an edge type, as far as they matter here. -/
def edgeIndexesOf (r : DdlRun) (labelId : EdgeLabelId) : List (List PropId × IndexState) :=
  ((r.schema.getEdgeLabelById labelId).map fun d =>
    d.indexes.map fun idx => (idx.propIds, idx.state)).getD []

lemma publicEdgeIndex_of_edgeIndexesOf {propIds : List PropId}
    (h : (propIds, .PUBLIC) ∈ r.edgeIndexesOf labelId) :
    ∃ idx, r.schema.PublicEdgeIndex labelId idx ∧ idx.propIds = propIds := by
  unfold edgeIndexesOf at h
  cases hd : r.schema.getEdgeLabelById labelId with
  | none =>
    rw [hd] at h
    exact nomatch h
  | some d =>
    rw [hd] at h
    obtain ⟨idx, hidx, heq⟩ := List.mem_map.mp h
    obtain ⟨hprops, hstate⟩ := Prod.mk.inj heq
    exact ⟨idx, ⟨d, hd, hidx, hstate⟩, hprops⟩

lemma not_publicEdgeIndex_of_edgeIndexesOf
    (h : r.edgeIndexesOf labelId = []) (idx : MetaStore.IndexDef) :
    ¬ r.schema.PublicEdgeIndex labelId idx := by
  rintro ⟨d, hd, hidx, -⟩
  unfold edgeIndexesOf at h
  rw [hd] at h
  rw [map_eq_nil_iff.mp h] at hidx
  exact nomatch hidx

theorem published_content_iff_firstIndex : ∃ r r', Reaches (step 4 2) IdLeft initial r ∧
      r.step 4 2 (createIndexOnT "i") = some r' ∧
      ∃ idx, r'.schema.PublicEdgeIndex 1 idx ∧
        ((r'.store (.eidxTable 1 idx.propIds)).get (encodeIndexKey [.int64 5] 1)).isSome ∧
        ExactContent (r'.store (.eidxTable 1 idx.propIds)) (edgeValues r'.store 1 idx.propIds) := by
  have hbefore : (runGuarded (step 4 2) IdLeft initial oneEdge).map (fun r =>
      ((r.edgeIndexesOf 1).isEmpty, (r.store (.eidxTable 1 [0])).entries.isEmpty,
        (r.step 4 2 (createIndexOnT "i")).map fun r' => (decide (([0], .PUBLIC) ∈ r'.edgeIndexesOf 1),
          ((r'.store (.eidxTable 1 [0])).get (encodeIndexKey [.int64 5] 1)).isSome))) =
      some (true, true, some (true, true)) := by decide +kernel
  obtain ⟨r, hr, heq⟩ := map_eq_some_iff.mp hbefore
  simp only [Prod.mk.injEq] at heq
  obtain ⟨hnone, htable, hstep⟩ := heq
  obtain ⟨r', hr', heq'⟩ := map_eq_some_iff.mp hstep
  obtain ⟨hindexes, hkey⟩ := Prod.mk.inj heq'
  obtain ⟨idx, hpublic, hprops⟩ := publicEdgeIndex_of_edgeIndexesOf (of_decide_eq_true hindexes)
  have hreach : Reaches (step 4 2) IdLeft initial r := reaches_of_runGuarded _ hr
  have hleft : r.IdLeft (createIndexOnT "i") := trivial
  have hiff := (published_content_iff hreach hleft hr').2 1 idx
    (not_publicEdgeIndex_of_edgeIndexesOf (List.isEmpty_iff.mp hnone) idx) hpublic
  refine ⟨r, r', hreach, hr', idx, hpublic, hprops ▸ hkey, hiff.mpr ?_⟩
  intro key hsome
  rw [hprops] at hsome
  obtain ⟨value, hvalue⟩ := isSome_iff_exists.mp hsome
  have hmem := ((r.store (.eidxTable 1 [0])).mem_entries_iff key value).mpr hvalue
  rw [List.isEmpty_iff.mp htable] at hmem
  exact nomatch hmem

/-- Create an index, drop it, delete the edge and create an index on the same property
again: the new index is published with the entry of the deleted edge. -/
theorem recreatedEdgeIndex_has_leftover : ∃ r r', Reaches (step 4 2) IdLeft initial r ∧
      r.step 4 2 (createIndexOnT "j") = some r' ∧
      ∃ idx, ¬ r.schema.PublicEdgeIndex 1 idx ∧ r'.schema.PublicEdgeIndex 1 idx ∧
        ((r'.store (.eidxTable 1 idx.propIds)).get (encodeIndexKey [.int64 5] 1)).isSome ∧
        edgeValues r'.store 1 idx.propIds 1 = none ∧
        ¬ ExactContent (r'.store (.eidxTable 1 idx.propIds))
          (edgeValues r'.store 1 idx.propIds) := by
  have hbefore : (runGuarded (step 4 2) IdLeft initial (oneEdge ++ [createIndexOnT "i",
      .ddl (.DROP_INDEX "i"), .write [.deleteEdge ⟨1, 1, 2, 1, 1⟩]])).map (fun r =>
      ((r.edgeIndexesOf 1).isEmpty,
        (r.step 4 2 (createIndexOnT "j")).map fun r' => (decide (([0], .PUBLIC) ∈ r'.edgeIndexesOf 1),
          ((r'.store (.eidxTable 1 [0])).get (encodeIndexKey [.int64 5] 1)).isSome,
          (exec (scanEdgesByType 1) r'.store).1.isEmpty))) =
      some (true, some (true, true, true)) := by decide +kernel
  obtain ⟨r, hr, heq⟩ := map_eq_some_iff.mp hbefore
  simp only [Prod.mk.injEq] at heq
  obtain ⟨hnone, hstep⟩ := heq
  obtain ⟨r', hr', heq'⟩ := map_eq_some_iff.mp hstep
  simp only [Prod.mk.injEq] at heq'
  obtain ⟨hindexes, hkey, hscan⟩ := heq'
  obtain ⟨idx, hpublic, hprops⟩ := publicEdgeIndex_of_edgeIndexesOf (of_decide_eq_true hindexes)
  have hnoEdge : ∀ eid, edgeValues r'.store 1 idx.propIds eid = none := by
    intro eid
    unfold edgeValues
    rw [List.isEmpty_iff.mp hscan]
    rfl
  have hentry : ((r'.store (.eidxTable 1 idx.propIds)).get (encodeIndexKey [.int64 5] 1)).isSome := hprops ▸ hkey
  refine ⟨r, r', reaches_of_runGuarded _ hr, hr', idx,
    not_publicEdgeIndex_of_edgeIndexesOf (List.isEmpty_iff.mp hnone) idx, hpublic, hentry, hnoEdge 1,
      fun hexact => ?_⟩
  obtain ⟨id, vs, hvalues, -⟩ := hexact.only _ hentry
  rw [hnoEdge id] at hvalues
  exact nomatch hvalues

end DdlRun

end Eugraph.Query
