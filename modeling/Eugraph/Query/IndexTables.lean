import Eugraph.Lib.Calls
import Eugraph.Query.IndexDdl

/-!
# Which index tables the write operators touch

A write operator inserts into and deletes from the tables of the indexes it finds in the
definitions of its statement, so no table with an index id that was never given out.
-/

namespace Eugraph

open Lib Lib.Program Wt KeyCodec List Function Lib.Program.OkCalls Meta.GraphSchema Except

/-- A call that writes tables of `ok` only. -/
def StoreCall.writesTo (ok : TableName → Prop) : StoreCall → Prop
  | .put _ table _ _ => ok table
  | .del _ table _ => ok table
  | .dropTable table => ok table
  | .get .. => True
  | .scan .. => True

/-- A table that is not written stays as it is. -/
theorem exec_of_writesTo {α : Type} {ok : TableName → Prop} {Q : α → Prop} {p : StoreM α}
    (h : Calls (StoreCall.writesTo ok) Q p) {table : TableName} (htable : ¬ ok table) (s : Store) :
    (exec p s).2 table = s table := by
  have hmakes := h.makes
  unfold exec
  induction p generalizing s with
  | done a => rfl
  | call c next ih =>
    have hcall : (Store.answer c s).2 table = s table := by
      have hc := hmakes.1
      have hne : ∀ t, ok t → table ≠ t := by
        rintro t ht rfl
        exact htable ht
      cases c with
      | put _ t key value => exact update_of_ne (hne t hc) _ _
      | del _ t key => exact update_of_ne (hne t hc) _ _
      | dropTable t => exact update_of_ne (hne t hc) _ _
      | get _ _ _ => rfl
      | scan _ _ _ => rfl
    rw [← hcall]
    exact ih _ ⟨hmakes.2 _, h.returns _ trivial⟩ _ (hmakes.2 _)

namespace DataStore

section Writes

variable {ok : TableName → Prop} {via : Via} {table : TableName}

lemma calls_put (h : ok table) (key value : Bytes) :
    Calls (StoreCall.writesTo ok) (fun _ => True) (tablePut via table key value) :=
  Calls.ask (show StoreCall.writesTo ok (.put via table key value) from h)

lemma calls_del (h : ok table) (key : Bytes) :
    Calls (StoreCall.writesTo ok) (fun _ => True) (tableDel via table key) :=
  Calls.ask (show StoreCall.writesTo ok (.del via table key) from h)

lemma calls_get (key : Bytes) : Calls (StoreCall.writesTo ok) (fun _ => True) (tableGet via table key) :=
  Calls.ask (show StoreCall.writesTo ok (.get via table key) from trivial)

lemma calls_scan (pre : Bytes) : Calls (StoreCall.writesTo ok) (fun _ => True) (tableScan via table pre) :=
  Calls.ask (show StoreCall.writesTo ok (.scan via table pre) from trivial)

lemma calls_deleteUnder (h : ok table) (pre : Bytes) :
    Calls (StoreCall.writesTo ok) (fun _ => True) (deleteUnder via table pre) := by
  apply (calls_scan pre).bind
  intro rows _
  exact .forEach fun row _ => calls_del h row.1

end Writes

/-! ### Operations of the data store -/

/-- All tables but those of index ids from `n` on. -/
def givenOut (n : UInt32) : TableName → Prop
  | .vidxTableById indexId => indexId < n
  | _ => True

/-- The call writes no table of an index id from `n` on. -/
abbrev keepsUnused (n : UInt32) : StoreCall → Prop := StoreCall.writesTo (givenOut n)

section Operations

variable (n : UInt32) (capacity : UInt32) (vid : VertexId) (labelId : LabelId)

lemma calls_insertProperty (slot : PropId × PropertyValue) :
    Calls (keepsUnused n) (fun _ => True) (insertProperty vid labelId slot) :=
  calls_put trivial _ _

lemma calls_insertLabelGroup (group : LabelId × Properties) :
    Calls (keepsUnused n) (fun _ => True) (insertLabelGroup vid group) := by
  apply Calls.ite
  · exact .pure trivial
  · apply Calls.andThen (calls_put trivial _ _)
    apply Calls.andThen (calls_put trivial _ _)
    exact .allOf fun slot _ => calls_insertProperty n vid group.1 slot

lemma calls_publishSummary (labelProps : LabelProps) :
    Calls (keepsUnused n) (fun _ => True) (publishSummary vid labelProps) := by
  apply (calls_get _).bind
  intro summary _
  apply Calls.ite
  · exact calls_del trivial _
  · exact .ite (.pure trivial) (calls_put trivial _ _)

lemma calls_insertVertex (labelProps : LabelProps) :
    Calls (keepsUnused n) (fun _ => True) (insertVertex capacity vid labelProps) := by
  apply Calls.andThen (calls_put trivial _ _)
  apply Calls.andThen
  · apply Calls.ite
    · exact .allOf fun direction _ => calls_put trivial _ _
    · exact .pure trivial
  apply Calls.andThen
  · exact .allOf fun group _ => calls_insertLabelGroup n vid group
  · exact calls_publishSummary n vid labelProps

lemma calls_getVertexLabels : Calls (keepsUnused n) (fun _ => True) (getVertexLabels vid) :=
  (calls_scan _).bind fun _ _ => .pure trivial

lemma calls_deleteLabelRows : Calls (keepsUnused n) (fun _ => True) (deleteLabelRows vid labelId) := by
  apply (calls_del trivial _).bind
  intro _ _
  apply (calls_del trivial _).bind
  intro _ _
  exact calls_deleteUnder trivial _

lemma calls_deleteVertex : Calls (keepsUnused n) (fun _ => True) (deleteVertex vid) := by
  apply (calls_getVertexLabels n vid).bind
  intro labels _
  apply (Calls.forEach fun labelId _ => calls_deleteLabelRows n vid labelId).bind
  intro _ _
  apply (calls_deleteUnder trivial _).bind
  intro _ _
  apply (calls_del trivial _).bind
  intro _ _
  apply (calls_del trivial _).bind
  intro _ _
  exact .pure trivial

lemma calls_putVertexProperty (propId : PropId) (value : PropertyValue) :
    Calls (keepsUnused n) (fun _ => True) (putVertexProperty vid labelId propId value) :=
  .andThen (calls_insertProperty n vid labelId _) (calls_del trivial _)

lemma calls_deleteVertexProperty (propId : PropId) :
    Calls (keepsUnused n) (fun _ => True) (deleteVertexProperty vid labelId propId) :=
  .andThen (calls_del trivial _) (calls_del trivial _)

lemma calls_addVertexLabel : Calls (keepsUnused n) (fun _ => True) (addVertexLabel vid labelId) :=
  .andThen (calls_put trivial _ _) (.andThen (calls_put trivial _ _) (calls_del trivial _))

lemma calls_removeVertexLabel : Calls (keepsUnused n) (fun _ => True) (removeVertexLabel vid labelId) := by
  apply (calls_deleteLabelRows n vid labelId).bind
  intro _ _
  apply (calls_del trivial _).bind
  intro _ _
  exact .pure trivial

end Operations

/-! ### Edges -/

section Edges

variable (n : UInt32) (capacity : UInt32)

lemma calls_getAdjacencyState (vid : VertexId) (direction : Direction) :
    Calls (keepsUnused n) (fun _ => True) (getAdjacencyState vid direction) :=
  (calls_get _).bind fun _ _ => .pure trivial

lemma calls_promoteAdjacency (vid : VertexId) (direction : Direction) :
    Calls (keepsUnused n) (fun _ => True) (promoteAdjacency vid direction) := by
  apply (calls_scan _).bind
  intro rows _
  apply Calls.andThen
  · exact .allOf fun row _ => calls_put trivial _ _
  · apply (Calls.forEach fun row _ => calls_del trivial _).bind
    intro _ _
    exact calls_put trivial _ _

lemma calls_insertAdjacencyEdge (k : EdgeIndexKey) (eid : EdgeId) :
    Calls (keepsUnused n) (fun _ => True) (insertAdjacencyEdge capacity k eid) := by
  have hindexed : Calls (keepsUnused n) (fun _ => True) (tablePut .raw .edgeIndex
      (encodeEdgeIndexKey k) (ValueCodec.encodeU64 eid)) := calls_put trivial _ _
  apply Calls.ite hindexed
  apply (calls_getAdjacencyState n k.vertexId k.direction).bind
  intro state _
  split
  · exact hindexed
  · exact hindexed
  · apply Calls.ite
    · exact .andThen (calls_promoteAdjacency n _ _) hindexed
    · exact .andThen (calls_put trivial _ _) (calls_put trivial _ _)

lemma calls_deleteAdjacencyEdge (k : EdgeIndexKey) :
    Calls (keepsUnused n) (fun _ => True) (deleteAdjacencyEdge capacity k) := by
  apply Calls.ite
  · exact (calls_del trivial _).bind fun _ _ => .pure trivial
  · apply (calls_getAdjacencyState n k.vertexId k.direction).bind
    intro state _
    split
    · exact (calls_del trivial _).bind fun _ _ => calls_put trivial _ _
    · exact (calls_del trivial _).bind fun _ _ => .pure trivial

lemma calls_insertEdge (e : EdgeRef) (props : Properties) :
    Calls (keepsUnused n) (fun _ => True) (insertEdge capacity e props) := by
  apply Calls.andThen (calls_put trivial _ _)
  apply Calls.andThen
  · exact .allOf fun slot _ => calls_put trivial _ _
  apply Calls.andThen (calls_insertAdjacencyEdge n capacity _ _)
  apply Calls.andThen (calls_insertAdjacencyEdge n capacity _ _)
  exact .pure trivial

lemma calls_deleteEdge (e : EdgeRef) : Calls (keepsUnused n) (fun _ => True) (deleteEdge capacity e) := by
  apply Calls.andThen (calls_deleteAdjacencyEdge n capacity _)
  apply Calls.andThen (calls_deleteAdjacencyEdge n capacity _)
  apply (calls_del trivial _).bind
  intro _ _
  apply (calls_deleteUnder trivial _).bind
  intro _ _
  exact .pure trivial

lemma calls_asyncScanEdges (vid : VertexId) (direction : Direction) :
    Calls (keepsUnused n) (fun _ => True) (asyncScanEdges capacity vid direction) := by
  refine .ite (Q := fun _ => True) (.bind (Q := fun _ => True)
    (.bind (Q := fun _ => True) (calls_scan _) fun _ _ => .pure trivial) fun rows _ => ?_)
    (.bind (Q := fun _ => True) (.pure trivial) fun rows _ => ?_)
  all_goals
    dsimp only
    split
    · exact .pure trivial
    · exact (calls_scan _).bind fun _ _ => .pure trivial

end Edges

/-! ### Index rows -/

section Rows

variable {n : UInt32}

lemma calls_checkUniqueConstraint (table : TableName) (values : List PropertyValue) :
    Calls (keepsUnused n) (fun _ => True) (checkUniqueConstraint table values) :=
  (calls_scan _).bind fun _ _ => .pure trivial

lemma calls_entryAllowed (entry : IndexRow) : Calls (keepsUnused n) (fun _ => True) (entryAllowed entry) :=
  .ite (calls_checkUniqueConstraint _ _) (.pure trivial)

lemma calls_insertIndexEntries {entries : List IndexRow} (h : ∀ entry ∈ entries, givenOut n entry.table) :
    Calls (keepsUnused n) (fun _ => True) (insertIndexEntries entries) := by
  induction entries with
  | nil => exact .pure trivial
  | cons entry rest ih =>
    have hrest := ih fun e he => h e (mem_cons_of_mem entry he)
    apply (calls_entryAllowed entry).bind
    intro allowed _
    apply Calls.ite
    · exact (calls_put (h entry mem_cons_self) _ _).bind fun _ _ => hrest
    · exact hrest.bind fun _ _ => .pure trivial

/-- The definitions know only index ids below `n`. -/
def IdsGivenOut (n : UInt32) (defs : LabelDefs) : Prop :=
  ∀ labelId labelDef, defs labelId = some labelDef → ∀ idx ∈ labelDef.indexes, idx.indexId < n

lemma givenOut_of_labelProps {defs : LabelDefs} (h : IdsGivenOut n defs) (labelProps : LabelProps)
    (vid : VertexId) :
    ∀ entry ∈ collectVertexIndexEntriesFromLabelProps defs labelProps vid, givenOut n entry.table := by
  intro entry hentry
  obtain ⟨group, -, hgroup⟩ := mem_flatMap.mp hentry
  split at hgroup
  · exact nomatch hgroup
  · rename_i labelDef hdef
    obtain ⟨idx, hidx, hrow⟩ := mem_filterMap.mp hgroup
    obtain ⟨values, -, rfl⟩ := Option.map_eq_some_iff.mp hrow
    exact h group.1 labelDef hdef idx (mem_of_mem_filter hidx)

lemma calls_batchInsertVertices (capacity : UInt32) {defs : LabelDefs} (h : IdsGivenOut n defs)
    (entries : List BatchVertexEntry) :
    Calls (keepsUnused n) (fun _ => True) (batchInsertVertices capacity defs entries) := by
  apply Calls.forEach
  intro entry _
  apply (calls_insertVertex n capacity entry.vid entry.labelProps).bind
  intro _ _
  exact (calls_insertIndexEntries (givenOut_of_labelProps h _ _)).weaken

lemma calls_batchInsertEdges (capacity : UInt32) (defs : EdgeLabelDefs) (labelId : EdgeLabelId)
    (entries : List BatchEdgeEntry) :
    Calls (keepsUnused n) (fun _ => True) (batchInsertEdges capacity defs labelId entries) := by
  apply Calls.forEach
  intro entry _
  apply (calls_insertEdge n capacity _ _).bind
  intro _ _
  apply Calls.weaken
  apply calls_insertIndexEntries
  intro row hrow
  obtain ⟨⟨propIds, htable⟩, -⟩ := Query.table_of_mem_edgeRows hrow
  rw [htable]
  trivial

end Rows

end DataStore

namespace Query

open DataStore

/-! ### Write operators on edges -/

section EdgeOperators

variable {n : UInt32} (capacity : UInt32) (defs : EdgeLabelDefs)

lemma givenOut_of_edgeRows {labelId : EdgeLabelId} {eid : EdgeId} {value : PropId → Option PropertyValue} :
    ∀ row ∈ edgeRows defs labelId eid value, givenOut n row.table := by
  intro row hrow
  obtain ⟨⟨propIds, htable⟩, -⟩ := table_of_mem_edgeRows hrow
  rw [htable]
  trivial

lemma calls_getEdgeProperties (labelId : EdgeLabelId) (eid : EdgeId) :
    Calls (keepsUnused n) (fun _ => True) (getEdgeProperties labelId eid) :=
  (calls_scan _).bind fun _ _ => .pure trivial

lemma calls_collectStoredEntries (labelId : EdgeLabelId) (eid : EdgeId) :
    Calls (keepsUnused n) (fun r => ∀ rows, r = .ok rows → ∀ row ∈ rows, givenOut n row.table)
      (collectStoredEntries defs labelId eid) := by
  apply (calls_getEdgeProperties labelId eid).bind
  rintro (message | props) _
  · exact .pure fun _ h => nomatch h
  · apply Calls.pure
    rintro rows hrows
    obtain rfl := ok.inj hrows
    exact givenOut_of_edgeRows defs

lemma calls_deleteEntries {entries : List IndexRow} (h : ∀ entry ∈ entries, givenOut n entry.table) :
    Calls (keepsUnused n) (fun _ => True) (deleteEdgeIndexEntries entries) :=
  .forEach fun entry hentry => calls_del (h entry hentry) _

lemma calls_createEdge (eid : EdgeId) (src dst : VertexId) (labelId : EdgeLabelId) (props : Properties) :
    Calls (keepsUnused n) (fun _ => True) (createEdge capacity defs eid src dst labelId props) := by
  apply (Calls.allOf fun entry _ => calls_checkUniqueConstraint _ _).bind
  intro free _
  apply Calls.ite
  · apply (calls_insertEdge n capacity _ _).bind
    intro inserted _
    apply Calls.ite
    · apply (Calls.forEach fun entry hentry => calls_put (givenOut_of_edgeRows defs entry hentry) _ _).bind
      intro _ _
      exact .pure trivial
    · exact .pure trivial
  · exact .pure trivial

lemma calls_maintainEdgeEntries (labelId : EdgeLabelId) (eid : EdgeId) {change : StoreM Bool}
    (hchange : Calls (keepsUnused n) (fun _ => True) change) :
    Calls (keepsUnused n) (fun _ => True) (maintainEdgeEntries defs labelId eid change) := by
  apply (calls_collectStoredEntries defs labelId eid).bind
  rintro (message | old) hold
  · exact .pure trivial
  · apply hchange.bind
    intro _ _
    apply (calls_collectStoredEntries defs labelId eid).bind
    rintro (message | new) hnew
    · exact .pure trivial
    · apply (calls_deleteEntries (hold old rfl)).bind
      intro _ _
      exact (calls_insertIndexEntries (hnew new rfl)).bind fun _ _ => .pure trivial

lemma calls_deleteEdgeEntity (e : EdgeRef) :
    Calls (keepsUnused n) (fun _ => True) (deleteEdgeEntity capacity defs e) := by
  apply (calls_collectStoredEntries defs e.labelId e.eid).bind
  rintro (message | entries) hentries
  · exact .pure trivial
  · apply (calls_deleteEntries (hentries entries rfl)).bind
    intro _ _
    exact (calls_deleteEdge n capacity e).bind fun _ _ => .pure trivial

lemma calls_detachEdges (vid : VertexId) : Calls (keepsUnused n) (fun _ => True) (detachEdges capacity vid) := by
  have hside : ∀ direction, Calls (keepsUnused n) (fun _ => True) (detachSide capacity vid direction) := by
    intro direction
    apply (calls_asyncScanEdges n capacity vid direction).bind
    intro entries _
    exact (Calls.forEach fun e _ => calls_deleteEdge n capacity e).bind fun _ _ => .pure trivial
  exact (hside .OUT).bind fun _ _ => (hside .IN).bind fun _ _ => .pure trivial

end EdgeOperators

/-! ### Definitions of a statement -/

/-- The definitions of the statement and those of the schema know only ids below `n`. -/
structure StatementState.GivenOut (n : UInt32) (st : StatementState) : Prop where
  defs : IdsGivenOut n st.labelDefs
  schema : IdsGivenOut n st.schema.labels

section Definitions

variable {n : UInt32} {st : StatementState}

lemma idsGivenOut_update {defs : LabelDefs} (h : IdsGivenOut n defs) {labelDef : LabelDef}
    (hnew : ∀ idx ∈ labelDef.indexes, idx.indexId < n) (labelId : LabelId) :
    IdsGivenOut n (Function.update defs labelId (some labelDef)) := by
  intro l d hd
  by_cases hl : l = labelId
  · rw [hl, update_self, Option.some.injEq] at hd
    exact hd ▸ hnew
  · rw [update_of_ne hl] at hd
    exact h l d hd

lemma idsGivenOut_ensureLabelDefProp {defs : LabelDefs} (h : IdsGivenOut n defs)
    (labelId : LabelId) (pid : PropId) (propName : String) :
    IdsGivenOut n (ensureLabelDefProp defs labelId pid propName) := by
  unfold ensureLabelDefProp
  split
  · exact h
  · rename_i labelDef hdef
    split
    · exact h
    · apply idsGivenOut_update h
      exact h labelId labelDef hdef

variable {schema : Meta.GraphSchema}

lemma idsGivenOut_addVertexLabelProperty
    (h : IdsGivenOut n schema.labels) (name propName : String) :
    IdsGivenOut n (schema.addVertexLabelProperty name propName).labels := by
  unfold addVertexLabelProperty
  split
  · exact h
  · rename_i labelId _
    split
    · exact h
    · rename_i labelDef hdef
      split
      · exact h
      · apply idsGivenOut_update h
        exact h labelId labelDef hdef

lemma idsGivenOut_getOrCreateAnonPropId
    (h : IdsGivenOut n schema.labels) (propName : String) :
    IdsGivenOut n (schema.getOrCreateAnonPropId propName).2.labels := by
  unfold getOrCreateAnonPropId
  split
  · exact h
  · rename_i labelId _
    split
    · exact h
    · rename_i labelDef hdef
      split
      · exact h
      · apply idsGivenOut_update h
        exact h labelId labelDef hdef

lemma idsGivenOut_createLabel {schema' : Meta.GraphSchema} {name : String}
    {labelId : LabelId} (h : IdsGivenOut n schema.labels)
    (hcreate : schema.createLabel name = .ok (labelId, schema')) : IdsGivenOut n schema'.labels := by
  unfold createLabel at hcreate
  split at hcreate
  · split at hcreate
    · exact nomatch hcreate
    · split at hcreate
      · exact nomatch hcreate
      · obtain ⟨-, rfl⟩ := Prod.mk.inj (ok.inj hcreate)
        exact h
  · obtain ⟨-, rfl⟩ := Prod.mk.inj (ok.inj hcreate)
    apply idsGivenOut_update h
    intro _ hidx
    exact nomatch hidx

lemma StatementState.GivenOut.registerOnLabel (h : st.GivenOut n) (labelId : LabelId)
    (propName : String) : (registerOnLabel st labelId propName).2.GivenOut n := by
  unfold Query.registerOnLabel
  split
  · exact h
  · rename_i labelDef _
    have hschema := idsGivenOut_addVertexLabelProperty h.schema labelDef.name propName
    dsimp only
    split
    · exact ⟨h.defs, hschema⟩
    · rename_i updated hupdated
      exact ⟨idsGivenOut_update h.defs (hschema labelId updated hupdated) labelId, hschema⟩

lemma StatementState.GivenOut.registerOnAnon (h : st.GivenOut n)
    (labels : Option (List LabelId)) (propName : String) :
    (registerOnAnon st labels propName).2.GivenOut n := by
  unfold Query.registerOnAnon
  split
  · exact h
  · exact ⟨idsGivenOut_ensureLabelDefProp h.defs _ _ _, idsGivenOut_getOrCreateAnonPropId h.schema propName⟩

lemma StatementState.GivenOut.writtenSlot (h : st.GivenOut n) (vertex : VertexValue)
    (propName : String) (resolved : Option (LabelId × PropId)) :
    (writtenSlot st vertex propName resolved).2.GivenOut n := by
  cases resolved with
  | some slot => exact h
  | none =>
    rw [Query.writtenSlot]
    rcases matchingSlots st.labelDefs vertex.labels propName with _ | ⟨slot, _ | _⟩
    · dsimp only
      cases firstUserLabel st vertex with
      | some labelId => exact h.registerOnLabel labelId propName
      | none => exact h.registerOnAnon vertex.labels propName
    · exact h
    · exact h

lemma StatementState.GivenOut.resolveLabel (h : st.GivenOut n) {label : String}
    {out : Option LabelId × StatementState} (hout : resolveLabel st label = .ok out) :
    out.2.GivenOut n := by
  unfold Query.resolveLabel at hout
  split at hout
  · exact ok.inj hout ▸ h
  · split at hout
    · exact nomatch hout
    · rename_i labelId schema hcreate
      have hschema := idsGivenOut_createLabel h.schema hcreate
      split at hout
      · exact ok.inj hout ▸ ⟨h.defs, hschema⟩
      · obtain rfl := ok.inj hout
        refine ⟨?_, hschema⟩
        apply idsGivenOut_update h.defs
        intro _ hidx
        exact nomatch hidx

end Definitions

/-! ### Write operators on vertices -/

section VertexOperators

variable {n : UInt32} {st : StatementState} {defs : LabelDefs} (vid : VertexId)

lemma okCalls_call {α : Type} {Q : α → Prop} {p : StoreM α} (h : Calls (keepsUnused n) Q p) :
    OkCalls (keepsUnused n) Q (call p) := .lift h

lemma okCalls_rethrow {α : Type} {Q : α → Prop} {r : Except String α}
    (h : ∀ a, r = .ok a → Q a) : OkCalls (keepsUnused n) Q (rethrow r) := .mk (.pure h)

lemma okCalls_getVertexProperties (labelId : LabelId) :
    OkCalls (keepsUnused n) (fun _ => True) (getVertexProperties vid labelId) := by
  apply bind (okCalls_call (calls_scan _))
  intro rows _
  apply bind (okCalls_rethrow fun _ _ => trivial)
  intro props _
  exact .pure trivial

lemma okCalls_readSlot (labelId : LabelId) (pid : PropId) :
    OkCalls (keepsUnused n) (fun _ => True) (readSlot vid labelId pid) :=
  .bind (okCalls_getVertexProperties vid labelId) fun _ _ => .pure trivial

lemma okCalls_readValue (propName : String) (labelId : LabelId) :
    OkCalls (keepsUnused n) (fun _ => True) (readValue defs vid propName labelId) :=
  .ite (.pure trivial) (okCalls_readSlot vid labelId _)

lemma okCalls_readWeak (propName : String) (found : Option PropertyValue) (labels : List LabelId) :
    OkCalls (keepsUnused n) (fun _ => True) (readWeak defs vid propName found labels) := by
  induction labels generalizing found with
  | nil => exact .pure trivial
  | cons labelId rest ih =>
    apply bind (okCalls_readValue vid propName labelId)
    rintro (_ | candidate) _
    · exact ih found
    · cases found with
      | none => exact ih _
      | some v => exact .ite (ih _) (.pure trivial)

lemma okCalls_readAccessors (labels : List LabelId) (accessors : List IndexAccessorDef) :
    OkCalls (keepsUnused n) (fun _ => True) (readAccessors defs vid labels accessors) := by
  induction accessors with
  | nil => exact .pure trivial
  | cons acc rest ih =>
    apply OkCalls.bind (.ite (okCalls_readValue vid _ _) (okCalls_readWeak vid _ none labels))
    rintro (_ | v) _
    · exact .pure trivial
    · exact .bind ih fun _ _ => .pure trivial

/-- All rows go to tables of ids that were given out. -/
abbrev RowsGivenOut (n : UInt32) (rows : List IndexRow) : Prop := ∀ row ∈ rows, givenOut n row.table

lemma okCalls_collectIndexes (labels : List LabelId) {indexes : List IndexDef}
    (h : ∀ idx ∈ indexes, idx.indexId < n) :
    OkCalls (keepsUnused n) (RowsGivenOut n) (collectIndexes defs vid labels indexes) := by
  induction indexes with
  | nil => exact .pure fun _ hrow => nomatch hrow
  | cons idx rest ih =>
    have hrest := ih fun idx' hidx' => h idx' (mem_cons_of_mem idx hidx')
    apply OkCalls.ite hrest
    apply OkCalls.bind (okCalls_readAccessors vid labels idx.accessors)
    intro values _
    apply OkCalls.bind hrest
    intro entries hentries
    cases values with
    | none => exact .pure hentries
    | some values =>
      apply OkCalls.pure
      split
      · intro row hrow
        rcases mem_cons.mp hrow with rfl | hrow
        · exact h idx mem_cons_self
        · exact hentries row hrow
      · exact hentries

lemma okCalls_collectLabels (h : IdsGivenOut n defs) (labels filters : List LabelId) :
    OkCalls (keepsUnused n) (RowsGivenOut n) (collectLabels defs vid labels filters) := by
  induction filters with
  | nil => exact .pure fun _ hrow => nomatch hrow
  | cons labelId rest ih =>
    unfold collectLabels
    split
    · exact ih
    · rename_i labelDef hdef
      apply OkCalls.bind (okCalls_collectIndexes vid labels (h labelId labelDef hdef))
      intro entries hentries
      apply OkCalls.bind ih
      intro more hmore
      apply OkCalls.pure
      intro row hrow
      rcases mem_append.mp hrow with hrow | hrow
      · exact hentries row hrow
      · exact hmore row hrow

lemma okCalls_collectVertexIndexEntries (h : IdsGivenOut n defs) (anonLabelId : LabelId) :
    OkCalls (keepsUnused n) (RowsGivenOut n) (collectVertexIndexEntries defs vid anonLabelId) :=
  .bind (okCalls_call (calls_getVertexLabels n vid)) fun _ _ => okCalls_collectLabels vid h _ _

lemma okCalls_deleteVertexIndexEntries {entries : List IndexRow} (h : RowsGivenOut n entries) :
    OkCalls (keepsUnused n) (fun _ => True) (call (deleteVertexIndexEntries entries)) :=
  okCalls_call (.forEach fun entry hentry => calls_del (h entry hentry) _)

lemma okCalls_insertVertexIndexEntriesChecked {entries : List IndexRow} (h : RowsGivenOut n entries) :
    OkCalls (keepsUnused n) (fun _ => True) (call (insertVertexIndexEntriesChecked entries)) := by
  apply okCalls_call
  induction entries with
  | nil => exact .pure trivial
  | cons entry rest ih =>
    apply (calls_entryAllowed entry).bind
    intro allowed _
    apply Calls.ite
    · apply (calls_put (h entry mem_cons_self) _ _).bind
      intro _ _
      exact ih fun e he => h e (mem_cons_of_mem entry he)
    · exact .pure trivial

lemma okCalls_writeSlot (v : PropertyValue) (target : Option WriteTarget) :
    OkCalls (keepsUnused n) (fun _ => True) (writeSlot st vid v target) := by
  cases target with
  | none => exact .pure trivial
  | some target =>
    have hput : ∀ old : Option PropertyValue, OkCalls (keepsUnused n) (fun _ => True) (do
        let _ ← call (putVertexProperty vid target.slot.1 target.slot.2 v)
        return old : OperatorM (Option PropertyValue)) := fun old =>
      .bind (okCalls_call (calls_putVertexProperty n vid _ _ v)) fun _ _ => .pure trivial
    have hlabel : ∀ old : Option PropertyValue, OkCalls (keepsUnused n) (fun _ => True) (do
        if target.addsLabel then
          let _ ← call (addVertexLabel vid st.anonLabelId)
        let _ ← call (putVertexProperty vid target.slot.1 target.slot.2 v)
        return old : OperatorM (Option PropertyValue)) := by
      intro old
      apply OkCalls.ite
      · exact .bind (okCalls_call (calls_addVertexLabel n vid _)) fun _ _ => hput old
      · exact hput old
    apply OkCalls.ite
    · exact .bind (okCalls_readSlot vid _ _) fun old _ => hlabel old
    · exact hlabel none

lemma okCalls_clearSlot (slot : Option (LabelId × PropId)) :
    OkCalls (keepsUnused n) (fun _ => True) (clearSlot vid slot) := by
  cases slot with
  | none => exact .pure trivial
  | some slot =>
    apply bind (okCalls_readSlot vid slot.1 slot.2)
    intro old _
    exact .bind (okCalls_call (calls_deleteVertexProperty n vid _ _)) fun _ _ => .pure trivial

lemma okCalls_replaceEntries (h : st.GivenOut n) {old : List IndexRow} (hold : RowsGivenOut n old)
    (slot : Option (LabelId × PropId)) (rollback : Option PropertyValue) :
    OkCalls (keepsUnused n) (fun _ => True) (replaceEntries st vid old slot rollback) := by
  apply bind (okCalls_collectVertexIndexEntries vid h.defs st.anonLabelId)
  intro new hnew
  apply bind (okCalls_deleteVertexIndexEntries hold)
  intro _ _
  apply bind (okCalls_insertVertexIndexEntriesChecked hnew)
  intro inserted _
  apply OkCalls.ite (.pure trivial)
  cases slot with
  | none => exact .pure trivial
  | some slot =>
    have hrestore : OkCalls (keepsUnused n) (fun _ => True) (do
        let restored ← collectVertexIndexEntries st.labelDefs vid st.anonLabelId
        call (deleteVertexIndexEntries new)
        let _ ← call (insertVertexIndexEntriesChecked restored)
        throw constraintViolated : OperatorM Unit) := by
      apply bind (okCalls_collectVertexIndexEntries vid h.defs st.anonLabelId)
      intro restored hrestored
      apply bind (okCalls_deleteVertexIndexEntries hnew)
      intro _ _
      exact .bind (okCalls_insertVertexIndexEntriesChecked hrestored) fun _ _ => .throw _
    cases rollback with
    | some v => exact .bind (okCalls_call (calls_putVertexProperty n vid _ _ v)) fun _ _ => hrestore
    | none => exact .bind (okCalls_call (calls_deleteVertexProperty n vid _ _)) fun _ _ => hrestore

lemma okCalls_setProperty (h : st.GivenOut n) (vertex : VertexValue) (propName : String)
    (resolved : Option (LabelId × PropId)) (value : Option PropertyValue) :
    OkCalls (keepsUnused n) (fun st' => st'.GivenOut n)
      (setProperty st vertex propName resolved value) := by
  apply bind (okCalls_collectVertexIndexEntries vertex.id h.defs st.anonLabelId)
  intro old hold
  cases value with
  | none =>
    apply bind (okCalls_clearSlot vertex.id _)
    intro rollback _
    exact .bind (okCalls_replaceEntries vertex.id h hold _ _) fun _ _ => .pure h
  | some v =>
    have h' := h.writtenSlot vertex propName resolved
    apply bind (okCalls_writeSlot vertex.id v _)
    intro rollback _
    exact .bind (okCalls_replaceEntries vertex.id h' hold _ _) fun _ _ => .pure h'

lemma okCalls_clearProperties (labels : List LabelId) :
    OkCalls (keepsUnused n) (fun _ => True) (clearProperties vid labels) := by
  induction labels with
  | nil => exact .pure trivial
  | cons labelId rest ih =>
    apply bind (okCalls_getVertexProperties vid labelId)
    intro props _
    apply bind (okCalls_call (.forEach fun slot _ => calls_deleteVertexProperty n vid _ _))
    intro _ _
    exact ih

lemma okCalls_snapshotProperties (labels : List LabelId) :
    OkCalls (keepsUnused n) (fun _ => True) (snapshotProperties vid labels) := by
  induction labels with
  | nil => exact .pure trivial
  | cons labelId rest ih =>
    apply bind (okCalls_getVertexProperties vid labelId)
    intro props _
    exact .bind ih fun _ _ => .pure trivial

lemma okCalls_setEntry (h : st.GivenOut n) (isAddAssign : Bool) (vertex : VertexValue)
    (entry : String × Option PropertyValue) :
    OkCalls (keepsUnused n) (fun st' => st'.GivenOut n) (setEntry isAddAssign vertex st entry) := by
  unfold setEntry
  split
  · split
    · exact .bind (okCalls_call (calls_deleteVertexProperty n vertex.id _ _)) fun _ _ => .pure h
    · exact .pure h
  · rename_i v _
    exact .bind (okCalls_writeSlot vertex.id v _) fun _ _ => .pure (h.writtenSlot vertex entry.1 none)

lemma okCalls_setEntries (isAddAssign : Bool) (vertex : VertexValue)
    (entries : List (String × Option PropertyValue)) (h : st.GivenOut n) :
    OkCalls (keepsUnused n) (fun st' => st'.GivenOut n)
      (entries.foldlM (setEntry isAddAssign vertex) st) := by
  induction entries generalizing st with
  | nil => exact .pure h
  | cons entry rest ih =>
    rw [foldlM_cons]
    exact .bind (okCalls_setEntry h isAddAssign vertex entry) fun st' hst' => ih hst'

lemma okCalls_restoreVertex (oldLabels : List LabelId) (snapshot : List (LabelId × PropId × PropertyValue)) :
    OkCalls (keepsUnused n) (fun _ => True) (restoreVertex vid oldLabels snapshot) := by
  apply bind (okCalls_call (calls_getVertexLabels n vid))
  intro current _
  apply bind (okCalls_call (.forEach fun labelId _ => calls_removeVertexLabel n vid labelId))
  intro _ _
  apply bind (okCalls_call (.forEach fun labelId _ => calls_addVertexLabel n vid labelId))
  intro _ _
  apply bind (okCalls_clearProperties vid current)
  intro _ _
  exact okCalls_call (.forEach fun e _ => calls_putVertexProperty n vid _ _ _)

lemma okCalls_setProperties (h : st.GivenOut n) (vertex : VertexValue) (isAddAssign : Bool)
    (entries : List (String × Option PropertyValue)) :
    OkCalls (keepsUnused n) (fun st' => st'.GivenOut n)
      (setProperties st vertex isAddAssign entries) := by
  apply bind (okCalls_collectVertexIndexEntries vertex.id h.defs st.anonLabelId)
  intro old hold
  apply bind (okCalls_call (calls_getVertexLabels n vertex.id))
  intro labels _
  apply bind (okCalls_snapshotProperties vertex.id _)
  intro snapshot _
  have hassign : ∀ oldLabels, OkCalls (keepsUnused n) (fun st' => st'.GivenOut n) (do
      let st ← entries.foldlM (setEntry isAddAssign vertex) st
      let new ← collectVertexIndexEntries st.labelDefs vertex.id st.anonLabelId
      call (deleteVertexIndexEntries old)
      let inserted ← call (insertVertexIndexEntriesChecked new)
      if inserted then return st
      else
        restoreVertex vertex.id oldLabels snapshot
        let restored ← collectVertexIndexEntries st.labelDefs vertex.id st.anonLabelId
        call (deleteVertexIndexEntries new)
        let _ ← call (insertVertexIndexEntriesChecked restored)
        throw constraintViolated : OperatorM StatementState) := by
    intro oldLabels
    apply bind (okCalls_setEntries isAddAssign vertex entries h)
    intro st' hst'
    apply bind (okCalls_collectVertexIndexEntries vertex.id hst'.defs st'.anonLabelId)
    intro new hnew
    apply bind (okCalls_deleteVertexIndexEntries hold)
    intro _ _
    apply bind (okCalls_insertVertexIndexEntriesChecked hnew)
    intro inserted _
    apply OkCalls.ite (.pure hst')
    apply bind (okCalls_restoreVertex vertex.id oldLabels snapshot)
    intro _ _
    apply bind (okCalls_collectVertexIndexEntries vertex.id hst'.defs st'.anonLabelId)
    intro restored hrestored
    apply bind (okCalls_deleteVertexIndexEntries hnew)
    intro _ _
    exact .bind (okCalls_insertVertexIndexEntriesChecked hrestored) fun _ _ => .throw _
  apply OkCalls.ite
  · apply bind (okCalls_call (calls_getVertexLabels n vertex.id))
    intro current _
    exact .bind (okCalls_clearProperties vertex.id _) fun _ _ => hassign _
  · exact hassign _

lemma okCalls_setLabels (h : st.GivenOut n) (vertex : VertexValue) (label : String) :
    OkCalls (keepsUnused n) (fun st' => st'.GivenOut n) (setLabels st vertex label) := by
  apply bind (okCalls_rethrow fun out hout => h.resolveLabel hout)
  rintro ⟨labelId, st'⟩ hst'
  cases labelId with
  | none => exact .pure hst'
  | some labelId =>
    apply OkCalls.ite (.pure hst')
    apply bind (okCalls_call (calls_addVertexLabel n vertex.id labelId))
    intro _ _
    apply bind (okCalls_collectVertexIndexEntries vertex.id hst'.defs st'.anonLabelId)
    intro new hnew
    apply bind (okCalls_insertVertexIndexEntriesChecked hnew)
    intro inserted _
    apply OkCalls.ite (.pure hst')
    apply bind (okCalls_deleteVertexIndexEntries hnew)
    intro _ _
    exact .bind (okCalls_call (calls_removeVertexLabel n vertex.id labelId)) fun _ _ => .throw _

lemma okCalls_removeProperty (h : st.GivenOut n) (vertex : VertexValue) (propName : String)
    (resolved : Option (LabelId × PropId)) :
    OkCalls (keepsUnused n) (fun st' => st'.GivenOut n)
      (removeProperty st vertex propName resolved) := by
  apply bind (okCalls_collectVertexIndexEntries vertex.id h.defs st.anonLabelId)
  intro old hold
  apply bind (okCalls_call (.forEach fun slot _ => calls_deleteVertexProperty n vertex.id _ _))
  intro _ _
  apply bind (okCalls_collectVertexIndexEntries vertex.id h.defs st.anonLabelId)
  intro new hnew
  apply bind (okCalls_deleteVertexIndexEntries hold)
  intro _ _
  exact .bind (okCalls_insertVertexIndexEntriesChecked hnew) fun _ _ => .pure h

lemma calls_migrateProperties (props : Properties) (pds : List PropertyDef)
    {out : StatementState × Bool} (h : out.1.GivenOut n) :
    Calls (keepsUnused n) (fun out' : StatementState × Bool => out'.1.GivenOut n)
      (migrateProperties vid props out pds) := by
  induction pds generalizing out with
  | nil => exact .pure h
  | cons pd rest ih =>
    apply Calls.bind (Q := fun out' : StatementState × Bool => out'.1.GivenOut n)
    · unfold migrateProperty
      split
      · exact .pure h
      · apply (calls_putVertexProperty n vid _ _ _).bind
        intro _ _
        exact .pure ⟨h.defs, idsGivenOut_getOrCreateAnonPropId h.schema pd.name⟩
    · intro out' hout'
      exact ih hout'

lemma okCalls_removeLabelRows (h : st.GivenOut n) (vertex : VertexValue) (labelId : LabelId) :
    OkCalls (keepsUnused n) (fun out : StatementState × Bool => out.1.GivenOut n)
      (removeLabelRows st vertex labelId) := by
  have hmigrate : OkCalls (keepsUnused n) (fun out : StatementState × Bool => out.1.GivenOut n)
      (migrateLabel st vertex labelId) := by
    unfold migrateLabel
    split
    · exact .pure h
    split
    · exact .pure h
    · rename_i labelDef _
      apply bind (Q := fun _ => True)
      · unfold sourceProperties
        split
        · exact .pure trivial
        · exact .bind (okCalls_getVertexProperties vertex.id labelId) fun _ _ => .pure trivial
      · intro props _
        exact okCalls_call (calls_migrateProperties vertex.id props labelDef.properties h)
  apply bind hmigrate
  intro out hout
  exact .bind (okCalls_call (calls_removeVertexLabel n vertex.id labelId)) fun _ _ => .pure hout

lemma okCalls_removeLabel (h : st.GivenOut n) (vertex : VertexValue) (label : String) :
    OkCalls (keepsUnused n) (fun st' => st'.GivenOut n) (removeLabel st vertex label) := by
  unfold removeLabel
  split
  · exact .pure h
  · rename_i labelId _
    apply bind (okCalls_collectVertexIndexEntries vertex.id h.defs st.anonLabelId)
    intro old hold
    apply bind (okCalls_removeLabelRows h vertex labelId)
    rintro ⟨st', migrated⟩ hst'
    apply bind (okCalls_collectVertexIndexEntries vertex.id hst'.defs st'.anonLabelId)
    intro new hnew
    apply bind (okCalls_deleteVertexIndexEntries hold)
    intro _ _
    apply bind (okCalls_insertVertexIndexEntriesChecked hnew)
    intro _ _
    apply bind (Q := fun _ => True)
    · unfold remainingLabels
      split
      · exact .pure trivial
      · exact .bind (okCalls_call (calls_getVertexLabels n vertex.id)) fun _ _ => .pure trivial
    · intro remaining _
      apply OkCalls.ite
      · exact .bind (okCalls_call (calls_addVertexLabel n vertex.id _)) fun _ _ => .pure hst'
      · exact .pure hst'

lemma okCalls_deleteVertexEntity (capacity : UInt32) (h : st.GivenOut n) (detach : Bool)
    (checked : List VertexId) (deletedEdges : List EdgeId) :
    OkCalls (keepsUnused n) (fun _ => True)
      (deleteVertexEntity capacity st detach checked deletedEdges vid) := by
  have hdelete : OkCalls (keepsUnused n) (fun _ => True) (do
      let entries ← collectVertexIndexEntries st.labelDefs vid st.anonLabelId
      call (deleteVertexIndexEntries entries)
      let _ ← call (deleteVertex vid) : OperatorM Unit) := by
    apply bind (okCalls_collectVertexIndexEntries vid h.defs st.anonLabelId)
    intro entries hentries
    apply bind (okCalls_deleteVertexIndexEntries hentries)
    intro _ _
    exact .bind (okCalls_call (calls_deleteVertex n vid)) fun _ _ => .pure trivial
  have hconnected : Calls (keepsUnused n) (fun _ => True) (hasConnected capacity vid deletedEdges) := by
    apply (calls_asyncScanEdges n capacity vid .OUT).bind
    intro out _
    apply Calls.ite (.pure trivial)
    exact (calls_asyncScanEdges n capacity vid .IN).bind fun _ _ => .pure trivial
  apply OkCalls.ite
  · exact .bind (okCalls_call (calls_detachEdges capacity vid)) fun _ _ => hdelete
  · apply OkCalls.ite
    · apply bind (okCalls_call hconnected)
      intro connected _
      exact .ite (.bind (.throw _) fun _ (_ : True) => hdelete) hdelete
    · exact hdelete

lemma calls_createVertex (capacity : UInt32) (h : IdsGivenOut n defs) (labelProps : LabelProps) :
    Calls (keepsUnused n) (fun _ => True) (createVertex capacity defs vid labelProps) := by
  apply (Calls.allOf fun entry _ => calls_checkUniqueConstraint _ _).bind
  intro free _
  apply Calls.ite
  · apply (calls_insertVertex n capacity vid labelProps).bind
    intro inserted _
    apply Calls.ite
    · apply (Calls.forEach fun entry hentry =>
        calls_put (givenOut_of_labelProps h labelProps vid entry hentry) _ _).bind
      intro _ _
      exact .pure trivial
    · exact .pure trivial
  · exact .pure trivial

end VertexOperators

/-! ### The preparation of `CREATE` -/

section Prepare

variable {n : UInt32} {st : StatementState}

lemma StatementState.GivenOut.loadLabelDef (h : st.GivenOut n) (labelId : LabelId) :
    (st.loadLabelDef labelId).GivenOut n := by
  unfold StatementState.loadLabelDef
  split
  · exact h
  · split
    · exact h
    · rename_i labelDef hdef
      exact ⟨idsGivenOut_update h.defs (h.schema labelId labelDef hdef) labelId, h.schema⟩

lemma StatementState.GivenOut.createOrGetLabel (h : st.GivenOut n) {name : String}
    {out : LabelId × StatementState} (hout : createOrGetLabel st name = .ok out) :
    out.2.GivenOut n := by
  unfold Query.createOrGetLabel at hout
  split at hout
  · exact ok.inj hout ▸ h
  · split at hout
    · exact nomatch hout
    · rename_i labelId schema hcreate
      have hst : ({ st with schema := schema } : StatementState).GivenOut n :=
        ⟨h.defs, idsGivenOut_createLabel h.schema hcreate⟩
      exact ok.inj hout ▸ hst.loadLabelDef labelId

lemma StatementState.GivenOut.resolvePropOnLabel (h : st.GivenOut n) (labelId : LabelId)
    (propName : String) : (resolvePropOnLabel st labelId propName).2.GivenOut n := by
  unfold Query.resolvePropOnLabel
  dsimp only
  split
  · exact h
  · apply StatementState.GivenOut.loadLabelDef
    exact ⟨h.defs, idsGivenOut_addVertexLabelProperty h.schema _ propName⟩

lemma StatementState.GivenOut.resolvePending (propName : String) (labels : List LabelId)
    (h : st.GivenOut n) : (resolvePending propName st labels).2.GivenOut n := by
  induction labels generalizing st with
  | nil => exact h
  | cons labelId rest ih =>
    have hst := h.resolvePropOnLabel labelId propName
    unfold Query.resolvePending
    split
    · rename_i pid st' heq
      rw [heq] at hst
      exact hst
    · rename_i st' heq
      rw [heq] at hst
      exact ih hst

lemma StatementState.GivenOut.createLabels (names : List String) (h : st.GivenOut n)
    {out : List LabelId × StatementState} (hout : createLabels st names = .ok out) :
    out.2.GivenOut n := by
  induction names generalizing st out with
  | nil => exact ok.inj hout ▸ h
  | cons name rest ih =>
    unfold Query.createLabels at hout
    split at hout
    · exact nomatch hout
    · rename_i labelId st' hcreate
      have hst : st'.GivenOut n := h.createOrGetLabel hcreate
      cases hrest : Query.createLabels st' rest with
      | error message =>
        rw [hrest] at hout
        exact nomatch hout
      | ok out' =>
        rw [hrest] at hout
        obtain rfl := ok.inj hout
        have hout' := ih hst hrest
        exact hout'

variable {out : CreateNode × StatementState}

lemma StatementState.GivenOut.resolvePendingProps (labelIds : List LabelId)
    (pending : List (String × ExprId)) (h : out.2.GivenOut n) :
    (resolvePendingProps labelIds out pending).2.GivenOut n := by
  induction pending generalizing out with
  | nil => exact h
  | cons entry rest ih =>
    obtain ⟨op, st'⟩ := out
    have hst := StatementState.GivenOut.resolvePending entry.1 labelIds h
    unfold Query.resolvePendingProps
    split
    · rename_i slot st'' heq
      rw [heq] at hst
      exact ih hst
    · rename_i st'' heq
      rw [heq] at hst
      exact ih hst

lemma StatementState.GivenOut.prepareLabels (h : st.GivenOut n) {op : CreateNode}
    (hout : prepareLabels op st = .ok out) :
    out.2.GivenOut n := by
  unfold Query.prepareLabels at hout
  split at hout
  · exact nomatch hout
  · rename_i resolved st' hcreate
    have hst : st'.GivenOut n := StatementState.GivenOut.createLabels op.labelNames h hcreate
    dsimp only at hout
    split at hout
    · exact ok.inj hout ▸ hst
    · exact ok.inj hout ▸ StatementState.GivenOut.resolvePendingProps resolved _ hst

lemma StatementState.GivenOut.ensureTables (h : st.GivenOut n) (op : CreateNode) :
    (ensureTables op st).GivenOut n := by
  unfold Query.ensureTables
  induction op.labelIds generalizing st with
  | nil => exact h
  | cons labelId rest ih =>
    rw [foldl_cons]
    apply ih
    split
    · exact h.loadLabelDef labelId
    · exact h

lemma StatementState.GivenOut.registerPending (pending : List (String × ExprId))
    (h : out.2.GivenOut n) :
    (registerPending out pending).2.GivenOut n := by
  induction pending generalizing out with
  | nil => exact h
  | cons entry rest ih =>
    obtain ⟨op, st'⟩ := out
    exact ih ⟨h.defs, idsGivenOut_getOrCreateAnonPropId h.schema entry.1⟩

lemma StatementState.GivenOut.prepare (h : st.GivenOut n) {op : CreateNode}
    (hout : op.prepare st = .ok out) : out.2.GivenOut n := by
  unfold CreateNode.prepare at hout
  cases hlabels : Query.prepareLabels op st with
  | error message =>
    rw [hlabels] at hout
    exact nomatch hout
  | ok out' =>
    rw [hlabels] at hout
    have hst := (h.prepareLabels hlabels).ensureTables out'.1
    obtain rfl := ok.inj hout
    dsimp only [prepareAnon]
    split
    · exact hst
    · exact (StatementState.GivenOut.registerPending _ hst).loadLabelDef _

end Prepare

end Query

end Eugraph
