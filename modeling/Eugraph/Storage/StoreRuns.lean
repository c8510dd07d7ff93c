import Eugraph.Storage.SummaryRuns
import Eugraph.Storage.IndexMaintenance

/-!
# Runs of all store operations

The mutators of `SyncGraphDataStore` as one system, with every engine call succeeding and
no promise about the order in which they come.  What every store reached has in common:
the keys of `edge_index` name a side, and a vertex has the state rows of both sides or no
adjacency row at all.
-/

namespace Eugraph.DataStore

open Lib Lib.Program Wt KeyCodec Store Or List

/-! ### The system -/

inductive StoreAction
  | vertex (a : VertexAction)
  | insertEdge (e : EdgeRef) (props : Properties)
  | deleteEdge (e : EdgeRef)
  | putEdgeProperty (labelId : EdgeLabelId) (eid : EdgeId) (propId : PropId) (value : PropertyValue)
  | deleteEdgeProperty (labelId : EdgeLabelId) (eid : EdgeId) (propId : PropId)
  | dropEdgeLabel (labelId : EdgeLabelId)
  | insertIndexEntry (table : TableName) (values : List PropertyValue) (entityId : UInt64)
      (payload : Bytes)
  | deleteIndexEntry (table : TableName) (values : List PropertyValue) (entityId : UInt64)
  | dropIndex (table : TableName)

def StoreAction.program (capacity : UInt32) : StoreAction → StoreM Bool
  | .vertex a => a.program capacity
  | .insertEdge e props => DataStore.insertEdge capacity e props
  | .deleteEdge e => DataStore.deleteEdge capacity e
  | .putEdgeProperty labelId eid propId value => DataStore.putEdgeProperty labelId eid propId value
  | .deleteEdgeProperty labelId eid propId => DataStore.deleteEdgeProperty labelId eid propId
  | .dropEdgeLabel labelId => DataStore.dropEdgeLabel labelId
  | .insertIndexEntry table values entityId payload =>
    DataStore.insertIndexEntry table values entityId payload
  | .deleteIndexEntry table values entityId => DataStore.deleteIndexEntry table values entityId
  | .dropIndex table => dropTable table

/-- The tables index operations are called with. -/
def isIndexTable : TableName → Bool
  | .vidxTableById _ | .eidxTable _ _ => true
  | _ => false

/-- The 16-bit loops over property vectors end, and index calls name an index table. -/
def StoreAction.ends : StoreAction → Bool
  | .vertex a => a.ends
  | .insertEdge _ props => props.length < 2 ^ 16
  | .insertIndexEntry table _ _ _ | .deleteIndexEntry table _ _ | .dropIndex table =>
    isIndexTable table
  | _ => true

def storeStep (capacity : UInt32) (s : Store) (a : StoreAction) : Option Store :=
  if a.ends then some (exec (a.program capacity) s).2 else none

/-! ### What every store reached has in common -/

/-- Both sides of the vertex have a state row. -/
def Marked (s : Store) (vid : VertexId) : Prop :=
  ∀ direction, (s.get .vertexData (encodeVertexDataAdjStateKey vid direction)).isSome

/-- The vertex has no adjacency row in `vertex_data`. -/
def Bare (s : Store) (vid : VertexId) : Prop :=
  ∀ direction rest, s.get .vertexData (sectionKey vid (adjacencyKind direction).byte rest) = none

structure AdjacencyOk (s : Store) : Prop where
  index : ∀ key value, s.get .edgeIndex key = some value →
    ∃ k : EdgeIndexKey, k.direction ≠ .BOTH ∧ key = encodeEdgeIndexKey k
  sides : ∀ vid, Marked s vid ∨ Bare s vid

lemma AdjacencyOk.marked {s : Store} (h : AdjacencyOk s) {vid : VertexId} {direction : Direction}
    (hstate : sideState s vid direction ≠ none) : Marked s vid := by
  refine (h.sides vid).resolve_right fun hbare => hstate ?_
  rw [sideState, encodeVertexDataAdjStateKey, hbare direction, Option.map_none]

section Primitives

variable {s : Store} {vid : VertexId}

lemma sides_congr {s' : Store} (h : Marked s vid ∨ Bare s vid)
    (hrows : ∀ sec rest, s'.get .vertexData (sectionKey vid sec rest) =
      s.get .vertexData (sectionKey vid sec rest)) : Marked s' vid ∨ Bare s' vid := by
  refine h.imp (fun hmarked direction => ?_) fun hbare direction rest => ?_
  · rw [encodeVertexDataAdjStateKey, hrows]
    exact hmarked direction
  · rw [hrows, hbare]

/-- A row that `AdjacencyOk` does not look at. -/
def besideAdjacency (table : TableName) (key : Bytes) : Prop :=
  table ≠ .edgeIndex ∧ ∀ vid direction, ¬ sideRow vid direction table key

lemma besideAdjacency_of_table {table : TableName} (hdata : table ≠ .vertexData)
    (hindex : table ≠ .edgeIndex) (key : Bytes) : besideAdjacency table key :=
  ⟨hindex, fun _ _ => not_sideRow hdata hindex⟩

lemma besideAdjacency_of_vertexRow {table : TableName} {key : Bytes} (h : vertexRow table key) :
    besideAdjacency table key := by
  refine ⟨?_, fun vid direction => not_sideRow_of_vertexRow h vid direction⟩
  rcases h with rfl | rfl | ⟨l, rfl⟩ | ⟨rfl, -⟩
  all_goals simp

lemma AdjacencyOk.beside {s' : Store} (h : AdjacencyOk s)
    (hchanges : ChangesOnly s s' besideAdjacency) : AdjacencyOk s' := by
  have hdata : ∀ vid direction rest, s'.get .vertexData (sectionKey vid (adjacencyKind direction).byte rest) =
        s.get .vertexData (sectionKey vid (adjacencyKind direction).byte rest) :=
    fun vid direction rest => hchanges _ _ fun hrow => hrow.2 vid direction (inl ⟨rfl, rest, rfl⟩)
  refine ⟨fun key value hget => ?_, fun vid => ?_⟩
  · rw [hchanges _ _ fun hrow => hrow.1 rfl] at hget
    exact h.index key value hget
  · refine (h.sides vid).imp (fun hmarked direction => ?_) fun hbare direction rest => ?_
    · rw [encodeVertexDataAdjStateKey, hdata]
      exact hmarked direction
    · rw [hdata, hbare]

lemma AdjacencyOk.put_index (h : AdjacencyOk s) {k : EdgeIndexKey} (hdir : k.direction ≠ .BOTH)
    (value : Bytes) : AdjacencyOk (s.put .edgeIndex (encodeEdgeIndexKey k) value) := by
  have hdata : ∀ key, (s.put .edgeIndex (encodeEdgeIndexKey k) value).get .vertexData key =
      s.get .vertexData key := fun key => put_get_of_ne _ _ _ _ _ _ (inl (by simp))
  refine ⟨fun key value' hget => ?_, fun vid => ?_⟩
  · rw [put_get] at hget
    split at hget
    · rename_i hkey
      exact ⟨k, hdir, hkey.2⟩
    · exact h.index key value' hget
  · simp only [Marked, Bare, hdata]
    exact h.sides vid

lemma AdjacencyOk.del_index (h : AdjacencyOk s) (key : Bytes) : AdjacencyOk (s.del .edgeIndex key) := by
  have hdata : ∀ key', (s.del .edgeIndex key).get .vertexData key' = s.get .vertexData key' :=
    fun key' => del_get_of_ne _ _ _ _ _ (inl (by simp))
  refine ⟨fun key' value hget => ?_, fun vid => ?_⟩
  · rw [del_get] at hget
    split at hget
    · exact absurd hget (by simp)
    · exact h.index key' value hget
  · simp only [Marked, Bare, hdata]
    exact h.sides vid

/-- A vertex with state rows can be given adjacency rows. -/
theorem AdjacencyOk.put_data (h : AdjacencyOk s) (hmarked : Marked s vid) (direction : Direction)
    (rest value : Bytes) :
    AdjacencyOk (s.put .vertexData (sectionKey vid (adjacencyKind direction).byte rest) value) ∧
      Marked (s.put .vertexData (sectionKey vid (adjacencyKind direction).byte rest) value) vid := by
  have hkept : ∀ key, (s.get .vertexData key).isSome →
      ((s.put .vertexData (sectionKey vid (adjacencyKind direction).byte rest) value).get
        .vertexData key).isSome := by
    intro key hsome
    rw [put_get]
    split
    · rfl
    · exact hsome
  refine ⟨⟨fun key value' hget => ?_, fun vid' => ?_⟩, fun d => hkept _ (hmarked d)⟩
  · rw [put_get_of_ne _ _ _ _ _ _ (inl (by simp))] at hget
    exact h.index key value' hget
  · by_cases hsame : vid' = vid
    · exact inl fun d => hkept _ (hsame ▸ hmarked d)
    · refine (h.sides vid').imp (fun hm d => hkept _ (hm d)) fun hbare d rest' => ?_
      rw [put_get_of_ne, hbare]
      right
      rw [ne_eq, sectionKey_inj]
      exact fun heq => hsame heq.1

/-- Rows other than state rows can be deleted. -/
theorem AdjacencyOk.del_data (h : AdjacencyOk s) {key : Bytes} (hkey : key.length ≠ 9) :
    AdjacencyOk (s.del .vertexData key) ∧ ∀ vid, Marked s vid → Marked (s.del .vertexData key) vid := by
  have hmarked : ∀ vid, Marked s vid → Marked (s.del .vertexData key) vid := by
    intro vid hm direction
    rw [del_get_of_ne]
    · exact hm direction
    · right
      rintro rfl
      exact hkey (length_sectionKey _ _ _)
  refine ⟨⟨fun key' value hget => ?_, fun vid => ?_⟩, hmarked⟩
  · rw [del_get_of_ne _ _ _ _ _ (inl (by simp))] at hget
    exact h.index key' value hget
  · refine (h.sides vid).imp (hmarked vid) fun hbare direction rest => ?_
    rw [del_get, hbare, ite_self]

end Primitives

/-! ### The operations keep it -/

lemma keeps_beside {α : Type} {p : StoreM α} (hp : WritesOnly besideAdjacency p) :
    Keeps AdjacencyOk p := .of_writesOnly hp fun _ _ hchanges h => h.beside hchanges

/-- `AdjacencyOk`, and the vertex has its state rows. -/
def MarkedOk (vid : VertexId) (s : Store) : Prop := AdjacencyOk s ∧ Marked s vid

lemma keeps_putAdjacencyState (vid : VertexId) (direction : Direction) (state : AdjacencyCacheState)
    (count : UInt32) : Keeps (MarkedOk vid) (putAdjacencyState vid direction state count) :=
  .put fun _ h => h.1.put_data h.2 direction [] _

lemma keeps_putIndexRow (vid : VertexId) {k : EdgeIndexKey} (hdir : k.direction ≠ .BOTH)
    (via : Via) (value : Bytes) :
    Keeps (MarkedOk vid) (tablePut via .edgeIndex (encodeEdgeIndexKey k) value) := by
  refine .put fun s h => ⟨h.1.put_index hdir value, fun d => ?_⟩
  rw [put_get_of_ne _ _ _ _ _ _ (inl (by simp))]
  exact h.2 d

lemma keeps_promoteAdjacency (vid : VertexId) {direction : Direction} (hdir : direction ≠ .BOTH) :
    Keeps (MarkedOk vid) (promoteAdjacency vid direction) := by
  refine .bind (fun s h => h) fun rows => .andThen ?_ (.bind (.forEach_mem fun row hrow => ?_) fun _ => ?_)
  · exact .allOf (fun row => keeps_putIndexRow vid (by exact hdir) _ _) _
  · have hlength : row.1.length ≠ 9 := by
      simpa [isVertexDataAdjStateKey] using (mem_filter.mp hrow).2
    exact .del fun s h => ⟨(h.1.del_data hlength).1, (h.1.del_data hlength).2 vid h.2⟩
  · exact keeps_putAdjacencyState _ _ _ _

lemma keeps_insertAdjacencyEdge (capacity : UInt32) {k : EdgeIndexKey} (hdir : k.direction ≠ .BOTH)
    (eid : EdgeId) : Keeps AdjacencyOk (insertAdjacencyEdge capacity k eid) := by
  have hindexed : Keeps AdjacencyOk (tablePut .raw .edgeIndex (encodeEdgeIndexKey k) (ValueCodec.encodeU64 eid)) :=
    .put fun _ h => h.put_index hdir _
  intro s h
  unfold insertAdjacencyEdge
  simp only
  by_cases hcap : capacity = 0
  · rw [if_pos hcap]
    exact hindexed s h
  · rw [if_neg hcap, exec_bind, exec_getAdjacencyState]
    cases hstate : sideState s k.vertexId k.direction with
    | none => exact hindexed s h
    | some found =>
      obtain ⟨state, count⟩ := found
      have hmarked : MarkedOk k.vertexId s := ⟨h, h.marked (by rw [hstate]; simp)⟩
      cases state with
      | OVERFLOW => exact hindexed s h
      | COMPLETE =>
        simp only
        split
        · exact (Keeps.andThen (keeps_promoteAdjacency k.vertexId hdir)
            (keeps_putIndexRow k.vertexId hdir _ _) s hmarked).1
        · refine (Keeps.andThen (.put fun s' h' => ?_) (keeps_putAdjacencyState _ _ _ _) s hmarked).1
          exact h'.1.put_data h'.2 k.direction _ _

lemma keeps_dropAdjacencyRow (k : EdgeIndexKey) : Keeps AdjacencyOk (dropAdjacencyRow k) := by
  intro s h
  unfold dropAdjacencyRow
  rw [exec_bind, exec_getAdjacencyState]
  have hindexed : Keeps AdjacencyOk (do
      let _ ← tableDel .raw .edgeIndex (encodeEdgeIndexKey k)
      return true) := .bind (.del fun _ h' => h'.del_index _) fun _ => .pure true
  cases hstate : sideState s k.vertexId k.direction with
  | none => exact hindexed s h
  | some found =>
    obtain ⟨state, count⟩ := found
    have hmarked : MarkedOk k.vertexId s := ⟨h, h.marked (by rw [hstate]; simp)⟩
    cases state with
    | OVERFLOW => exact hindexed s h
    | COMPLETE =>
      refine (Keeps.bind (I := MarkedOk k.vertexId) (.del fun s' h' => ?_)
        (fun _ => keeps_putAdjacencyState _ _ _ _) s hmarked).1
      have hlength : (encodeVertexDataAdjEdgeKey k).length ≠ 9 := by
        simp [encodeVertexDataAdjEdgeKey]
      exact ⟨(h'.1.del_data hlength).1, (h'.1.del_data hlength).2 _ h'.2⟩

/-! ### Rows of vertices and of edge tables -/

section Rows

variable (vid : VertexId) (labelId : LabelId)

lemma vertexRow_label : vertexRow .vertexData (encodeVertexDataLabelKey vid labelId) :=
  inr (inr (inr ⟨rfl, vid, .LABEL, _, inl rfl, rfl⟩))

lemma vertexRow_property {key : Bytes} (h : encodeVertexDataLabelPropPrefix vid labelId <+: key) :
    vertexRow .vertexData key := by
  obtain ⟨more, rfl⟩ := h
  rw [encodeVertexDataLabelPropPrefix, sectionKey_append]
  exact inr (inr (inr ⟨rfl, vid, .PROPERTY, _, inr rfl, rfl⟩))

lemma vertexRow_summary : vertexRow .vertexSummary (encodeVertexSummaryKey vid) := inr (inl rfl)

lemma vertexRow_forward (key : Bytes) : vertexRow (.labelFwdTable labelId) key :=
  inr (inr (inl ⟨labelId, rfl⟩))

lemma vertexRow_prop (propId : PropId) : vertexRow .vertexData (encodeVertexDataPropKey vid labelId propId) :=
  vertexRow_property vid labelId (sectionKey_isPrefix_iff.mpr ⟨rfl, rfl, prefix_append _ _⟩)

lemma writesRows_insertProperty (slot : PropId × PropertyValue) :
    WritesOnly vertexRow (insertProperty vid labelId slot) := .put _ (vertexRow_prop vid labelId _) _

lemma writesRows_deleteLabelRows : WritesOnly vertexRow (deleteLabelRows vid labelId) :=
  .bind (.del _ (vertexRow_label vid labelId)) fun _ => .bind (.del _ (vertexRow_forward labelId _))
    fun _ => writesOnly_deleteUnder _ fun _ hkey => vertexRow_property vid labelId hkey

lemma writesRows_dropSummary : WritesOnly vertexRow
    (tableDel .session .vertexSummary (encodeVertexSummaryKey vid)) := .del _ (vertexRow_summary vid)

lemma writesRows_dropLabel : WritesOnly vertexRow (dropLabel labelId) := by
  refine .bind (.scan _ _ _) fun rows => .bind (.forEach fun row _ => ?_) fun _ => ?_
  · refine .bind (.del _ (vertexRow_label _ labelId)) fun _ => .bind ?_ fun _ => .del _ (vertexRow_summary _)
    exact writesOnly_deleteUnder _ fun _ hkey => vertexRow_property _ labelId hkey
  · exact .drop (vertexRow_forward labelId)

lemma writesRows_publishing (labelProps : LabelProps) : WritesOnly vertexRow
    (andThen (allOf (insertLabelGroup vid) labelProps) (publishSummary vid labelProps)) :=
  .andThen (.allOf fun group _ => writesOnly_insertLabelGroup vid group)
    (writesOnly_publishSummary vid labelProps)

end Rows

/-- The operations on vertices that leave the sides of every vertex alone. -/
theorem writesRows_vertexAction (capacity : UInt32) {a : VertexAction}
    (hinsert : ∀ vid labelProps, a ≠ .insertVertex vid labelProps)
    (hdelete : ∀ vid, a ≠ .deleteVertex vid) : WritesOnly vertexRow (a.program capacity) := by
  cases a with
  | insertVertex vid labelProps => exact absurd rfl (hinsert vid labelProps)
  | deleteVertex vid => exact absurd rfl (hdelete vid)
  | putVertexProperty vid labelId propId value =>
    exact .andThen (writesRows_insertProperty vid labelId _) (writesRows_dropSummary vid)
  | putVertexProperties vid labelId props =>
    exact .andThen (.allOf fun slot _ => writesRows_insertProperty vid labelId slot) (writesRows_dropSummary vid)
  | deleteVertexProperty vid labelId propId =>
    exact .andThen (.del _ (vertexRow_prop vid labelId propId)) (writesRows_dropSummary vid)
  | addVertexLabel vid labelId =>
    exact .andThen (.put _ (vertexRow_label vid labelId) _)
      (.andThen (.put _ (vertexRow_forward labelId _) _) (writesRows_dropSummary vid))
  | removeVertexLabel vid labelId =>
    exact .bind (writesRows_deleteLabelRows vid labelId) fun _ =>
      .bind (writesRows_dropSummary vid) fun _ => .pure true
  | dropLabel labelId => exact writesRows_dropLabel labelId

/-- `insertVertex`, `deleteVertex` and the operations that leave the sides alone. -/
theorem vertexAction_cases {motive : VertexAction → Prop}
    (hinsert : ∀ vid labelProps, motive (.insertVertex vid labelProps))
    (hdelete : ∀ vid, motive (.deleteVertex vid))
    (hrows : ∀ a, (∀ capacity, WritesOnly vertexRow (VertexAction.program capacity a)) → motive a)
    (a : VertexAction) : motive a := by
  by_cases hins : ∃ vid labelProps, a = .insertVertex vid labelProps
  · obtain ⟨vid, labelProps, rfl⟩ := hins
    exact hinsert vid labelProps
  by_cases hdel : ∃ vid, a = .deleteVertex vid
  · obtain ⟨vid, rfl⟩ := hdel
    exact hdelete vid
  exact hrows a fun capacity => writesRows_vertexAction capacity
    (fun vid labelProps heq => hins ⟨vid, labelProps, heq⟩) fun vid heq => hdel ⟨vid, heq⟩

lemma keeps_vertexRows {α : Type} {p : StoreM α} (hp : WritesOnly vertexRow p) :
    Keeps AdjacencyOk p := keeps_beside (hp.mono fun _ _ => besideAdjacency_of_vertexRow)

/-- The tables of edges other than `edge_index`. -/
def edgeTableRow (table : TableName) (_ : Bytes) : Prop :=
  (∃ labelId, table = .etypeTable labelId) ∨ (∃ labelId, table = .epropTable labelId) ∨
    isIndexTable table = true

lemma edgeTableRow.not_sideTable {table : TableName} {key : Bytes} (h : edgeTableRow table key) :
    table ≠ .vertexData ∧ table ≠ .edgeIndex := by
  rcases h with ⟨l, rfl⟩ | ⟨l, rfl⟩ | hindex
  · exact ⟨by simp, by simp⟩
  · exact ⟨by simp, by simp⟩
  · constructor
    all_goals
      rintro rfl
      cases hindex

lemma edgeTableRow.beside {table : TableName} {key : Bytes} (h : edgeTableRow table key) :
    besideAdjacency table key :=
  besideAdjacency_of_table h.not_sideTable.1 h.not_sideTable.2 key

/-! ### Edge operations, by what an invariant survives -/

/-- The invariant survives every write to the tables of edges. -/
def KeptByTables (I : Store → Prop) : Prop :=
  ∀ {α : Type} {p : StoreM α}, WritesOnly edgeTableRow p → Keeps I p

section EdgeOperations

variable {I : Store → Prop} {capacity : UInt32}

lemma keeps_insertEdge (htables : KeptByTables I) {e : EdgeRef}
    (hout : Keeps I (insertAdjacencyEdge capacity e.outKey e.eid))
    (hin : Keeps I (insertAdjacencyEdge capacity e.inKey e.eid)) (props : Properties) :
    Keeps I (insertEdge capacity e props) := by
  refine .andThen (htables (.put _ (inl ⟨_, rfl⟩) _)) (.andThen ?_ (.andThen hout (.andThen hin (.pure true))))
  exact htables (.allOf fun slot _ => .put _ (inr (inl ⟨_, rfl⟩)) _)

lemma keeps_deleteEdge (htables : KeptByTables I) (hindex : ∀ key, Keeps I (tableDel .raw .edgeIndex key))
    (hdrop : ∀ k, Keeps I (dropAdjacencyRow k)) (e : EdgeRef) : Keeps I (deleteEdge capacity e) := by
  have hside : ∀ k, Keeps I (deleteAdjacencyEdge capacity k) :=
    fun k => .ite (.bind (hindex _) fun _ => .pure true) (hdrop k)
  refine .andThen (hside _) (.andThen (hside _) (htables ?_))
  exact .bind (.del _ (inl ⟨_, rfl⟩)) fun _ =>
    .bind (writesOnly_deleteUnder _ fun _ _ => inr (inl ⟨_, rfl⟩)) fun _ => .pure true

lemma keeps_dropEdgeLabel (htables : KeptByTables I) (hdrop : ∀ k, Keeps I (dropAdjacencyRow k))
    (labelId : EdgeLabelId) : Keeps I (dropEdgeLabel labelId) := by
  refine .bind (fun s h => h) fun rows => .bind (.forEach (fun row => ?_) _) fun _ => htables ?_
  · exact .bind (hdrop _) fun _ => hdrop _
  · exact .andThen (.drop fun _ => inl ⟨_, rfl⟩) (.drop fun _ => inr (inl ⟨_, rfl⟩))

/-- Every operation, from those on vertices and on the rows of a side. -/
theorem keeps_storeAction (htables : KeptByTables I) (hvertex : ∀ a : VertexAction, Keeps I (a.program capacity))
    (hinsert : ∀ k eid, k.direction ≠ .BOTH → Keeps I (insertAdjacencyEdge capacity k eid))
    (hindex : ∀ key, Keeps I (tableDel .raw .edgeIndex key))
    (hdrop : ∀ k, Keeps I (dropAdjacencyRow k)) {a : StoreAction} (hends : a.ends = true) :
    Keeps I (a.program capacity) := by
  cases a with
  | vertex a => exact hvertex a
  | insertEdge e props =>
    exact keeps_insertEdge htables (hinsert _ _ (by simp [EdgeRef.outKey]))
      (hinsert _ _ (by simp [EdgeRef.inKey])) props
  | deleteEdge e => exact keeps_deleteEdge htables hindex hdrop e
  | putEdgeProperty labelId eid propId value => exact htables (.put _ (inr (inl ⟨_, rfl⟩)) _)
  | deleteEdgeProperty labelId eid propId => exact htables (.del _ (inr (inl ⟨_, rfl⟩)))
  | dropEdgeLabel labelId => exact keeps_dropEdgeLabel htables hdrop labelId
  | insertIndexEntry table values entityId payload => exact htables (.put _ (inr (inr hends)) _)
  | deleteIndexEntry table values entityId => exact htables (.del _ (inr (inr hends)))
  | dropIndex table => exact htables (.drop fun _ => inr (inr hends))

end EdgeOperations

/-- The invariant survives every write to the adjacency rows, whatever it writes. -/
structure KeptBySides (I : Store → Prop) : Prop where
  put : ∀ via vid direction rest value,
    Keeps I (tablePut via .vertexData (sectionKey vid (adjacencyKind direction).byte rest) value)
  del : ∀ via vid direction rest,
    Keeps I (tableDel via .vertexData (sectionKey vid (adjacencyKind direction).byte rest))
  putIndex : ∀ via key value, Keeps I (tablePut via .edgeIndex key value)
  delIndex : ∀ via key, Keeps I (tableDel via .edgeIndex key)

section KeptBySides

variable {I : Store → Prop}

lemma keeps_getAdjacencyState (vid : VertexId) (direction : Direction) :
    Keeps I (getAdjacencyState vid direction) := .bind (fun _ h => h) fun _ => .pure _

lemma KeptBySides.promoteAdjacency (h : KeptBySides I) (vid : VertexId) (direction : Direction) :
    Keeps I (promoteAdjacency vid direction) := by
  intro s hs
  rw [DataStore.promoteAdjacency, exec_bind, exec_tableScan]
  refine Keeps.andThen (.allOf (fun row => h.putIndex _ _ _) _) (.bind (.forEach_mem fun row hrow => ?_)
    fun _ => h.put _ _ _ _ _) s hs
  -- only keys of the side are deleted
  obtain ⟨rest, hkey⟩ := isPrefix_of_mem_prefixRecords (mem_filter.mp hrow).1
  rw [← hkey, encodeVertexDataAdjPrefix, encodeVertexDataAdjStateKey, sectionKey_append]
  exact h.del _ _ _ _

lemma KeptBySides.insertAdjacencyEdge (h : KeptBySides I) (capacity : UInt32) (k : EdgeIndexKey)
    (eid : EdgeId) : Keeps I (insertAdjacencyEdge capacity k eid) := by
  refine .ite (h.putIndex _ _ _) (.bind (keeps_getAdjacencyState _ _) fun state => ?_)
  split
  · exact h.putIndex _ _ _
  · exact h.putIndex _ _ _
  · exact .ite (.andThen (h.promoteAdjacency _ _) (h.putIndex _ _ _)) (.andThen (h.put _ _ _ _ _) (h.put _ _ _ _ _))

lemma KeptBySides.dropAdjacencyRow (h : KeptBySides I) (k : EdgeIndexKey) : Keeps I (dropAdjacencyRow k) := by
  refine .bind (keeps_getAdjacencyState _ _) fun state => ?_
  split
  · exact .bind (h.del _ _ _ _) fun _ => h.put _ _ _ _ _
  · exact .bind (h.delIndex _ _) fun _ => .pure true

lemma KeptBySides.and {J : Store → Prop} (h : KeptBySides I) (h' : KeptBySides J) :
    KeptBySides fun s => I s ∧ J s :=
  ⟨fun _ _ _ _ _ => (h.put _ _ _ _ _).and (h'.put _ _ _ _ _), fun _ _ _ _ => (h.del _ _ _ _).and (h'.del _ _ _ _),
    fun _ _ _ => (h.putIndex _ _ _).and (h'.putIndex _ _ _),
    fun _ _ => (h.delIndex _ _).and (h'.delIndex _ _)⟩

lemma KeptBySides.storeAction (h : KeptBySides I) (htables : KeptByTables I) {capacity : UInt32}
    (hvertex : ∀ a : VertexAction, Keeps I (a.program capacity)) {a : StoreAction}
    (hends : a.ends = true) : Keeps I (a.program capacity) :=
  keeps_storeAction htables hvertex (fun k eid _ => h.insertAdjacencyEdge capacity k eid)
    (fun _ => h.delIndex _ _) h.dropAdjacencyRow hends

end KeptBySides

/-! ### The invariants -/

lemma keeps_insertVertex_adjacency (capacity : UInt32) (vid : VertexId) (labelProps : LabelProps) :
    Keeps AdjacencyOk (insertVertex capacity vid labelProps) := by
  refine .andThen (keeps_beside (.put _ (besideAdjacency_of_table (by simp) (by simp) _) _))
    (.andThen ?_ (keeps_vertexRows (writesRows_publishing vid labelProps)))
  intro s h
  rw [exec_ite]
  split
  · -- both state rows are written before the vertex is looked at again
    have hinit : ∀ d s', exec (initAdjacencyState vid d) s' = (true, put s' .vertexData
        (encodeVertexDataAdjStateKey vid d) (encodeAdjacencyState .COMPLETE 0)) := fun _ _ => rfl
    rw [exec_allOf _ hinit]
    simp only [foldl_cons, foldl_nil]
    refine ⟨fun key value hget => ?_, fun vid' => ?_⟩
    · rw [put_get_of_ne _ _ _ _ _ _ (inl (by simp)),
        put_get_of_ne _ _ _ _ _ _ (inl (by simp))] at hget
      exact h.index key value hget
    · by_cases hsame : vid' = vid
      · left
        subst hsame
        intro direction
        cases direction <;> simp [put_get, encodeVertexDataAdjStateKey, adjacencyKind]
      · refine sides_congr (h.sides vid') fun sec rest => ?_
        rw [put_get_of_ne, put_get_of_ne]
        all_goals
          right
          rw [encodeVertexDataAdjStateKey, ne_eq, sectionKey_inj]
          exact fun heq => hsame heq.1
  · exact h

lemma keeps_deleteVertex_adjacency (vid : VertexId) : Keeps AdjacencyOk (deleteVertex vid) := by
  intro s h
  obtain ⟨hchanges, hgone⟩ := exec_deleteVertex vid s
  refine ⟨fun key value hget => ?_, fun vid' => ?_⟩
  · rw [hchanges _ _ (by simp [deletedRow])] at hget
    exact h.index key value hget
  · by_cases hsame : vid' = vid
    · exact inr fun direction rest => by rw [hsame, hgone]
    · refine sides_congr (h.sides vid') fun sec rest => hchanges _ _ ?_
      rintro (⟨-, hpre⟩ | htable | htable | ⟨l, htable⟩)
      · exact hsame (vertexPrefix_isPrefix_sectionKey.mp hpre).symm
      all_goals exact absurd htable (by simp)

lemma keeps_storeAction_adjacency (capacity : UInt32) {a : StoreAction} (hends : a.ends = true) :
    Keeps AdjacencyOk (a.program capacity) := by
  refine keeps_storeAction (fun hp => keeps_beside (hp.mono fun _ _ => edgeTableRow.beside))
    (fun a => ?_) (fun k eid hdir => keeps_insertAdjacencyEdge capacity hdir eid)
    (fun key => .del fun _ h => h.del_index key) keeps_dropAdjacencyRow hends
  induction a using vertexAction_cases with
  | hinsert vid labelProps => exact keeps_insertVertex_adjacency capacity vid labelProps
  | hdelete vid => exact keeps_deleteVertex_adjacency vid
  | hrows a hrows => exact keeps_vertexRows (hrows capacity)

lemma vertexRowsOk_putAdjacency (via : Via) (vid : VertexId) (direction : Direction)
    (rest value : Bytes) : Keeps VertexRowsOk
      (tablePut via .vertexData (sectionKey vid (adjacencyKind direction).byte rest) value) := by
  refine .put fun s h => h.put fun _ => inr (inr ⟨vid, adjacencyKind direction, rest, ?_, rfl⟩)
  cases direction
  · exact inl rfl
  · exact inr rfl
  · exact inl rfl

lemma vertexRowsOk_keptBySides : KeptBySides VertexRowsOk :=
  ⟨vertexRowsOk_putAdjacency, fun _ _ _ _ => keeps_tableDel _,
    fun _ _ _ => keeps_putOther (by simp) _ _, fun _ _ => keeps_tableDel _⟩

lemma vertexRowsOk_keptByTables : KeptByTables VertexRowsOk := by
  refine fun hp => .of_writesOnly hp fun s s' hchanges h key value hget => ?_
  rw [hchanges _ _ fun hrow => hrow.not_sideTable.1 rfl] at hget
  exact h key value hget

lemma vertexRowsOk_storeAction (capacity : UInt32) {a : StoreAction} (hends : a.ends = true) :
    Keeps VertexRowsOk (a.program capacity) :=
  vertexRowsOk_keptBySides.storeAction vertexRowsOk_keptByTables (keeps_program capacity) hends

/-! ### Every store reached -/

section Reached

variable {capacity : UInt32} {guard : Store → StoreAction → Prop} {s : Store}

/-- What every operation keeps holds in every store reached. -/
theorem reached_of_keeps {I : Store → Prop} (hempty : I empty)
    (hkeeps : ∀ a : StoreAction, a.ends = true → Keeps I (a.program capacity))
    (h : Reaches (storeStep capacity) guard empty s) : I s := by
  refine h.invariant I hempty fun s a s' hok _ hstep => ?_
  unfold storeStep at hstep
  split at hstep
  · rename_i hends
    rw [← Option.some.inj hstep]
    exact hkeeps a hends s hok
  · cases hstep

lemma adjacencyOk_reached (h : Reaches (storeStep capacity) guard Store.empty s) : AdjacencyOk s := by
  refine reached_of_keeps ⟨fun key value hget => ?_, fun vid => inr fun _ _ => rfl⟩
    (fun a hends => keeps_storeAction_adjacency capacity hends) h
  exact absurd hget (by simp [Store.empty, Store.get])

lemma vertexRowsOk_reached (h : Reaches (storeStep capacity) guard Store.empty s) : VertexRowsOk s := by
  refine reached_of_keeps (fun key value hget => ?_) (fun a hends => vertexRowsOk_storeAction capacity hends) h
  exact absurd hget (by simp [Store.empty, Store.get])

end Reached

end Eugraph.DataStore
