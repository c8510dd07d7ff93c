import Eugraph.Query.EdgeOperators
import Eugraph.Storage.AdjacencyRuns

/-!
# Runs of the edge writers

`CREATE`, `MERGE` and `batchInsertEdges` choose the `seq` of a new edge independently:
the edge id in the first two, the position in the request in the third.  The runs here
are followed next to the list of live edges; keys collide exactly where two writers pick
the same `seq` for the same endpoints and label.
-/

namespace Eugraph.Query

open Lib Lib.Program Wt KeyCodec DataStore List Option DataStore.EdgeRef Function ValueCodec Or

/-! ### The system -/

inductive EdgeAction
  | insertVertex (vid : VertexId) (labelProps : LabelProps)
  | create (eid : EdgeId) (src dst : VertexId) (labelId : EdgeLabelId) (props : Properties)
  | merge (eid : EdgeId) (src dst : VertexId) (labelId : EdgeLabelId) (props : Properties)
  | batch (labelId : EdgeLabelId) (startEid : EdgeId) (records : List ResolvedEdge)
  | setProperty (e : EdgeRef) (pid : PropId) (value : Option PropertyValue)
  | removeProperty (e : EdgeRef) (pid : PropId)
  | delete (e : EdgeRef)
  | detachDelete (vid : VertexId)
  | backfill (labelId : EdgeLabelId) (propIds : List PropId) (unique : Bool)

/-- The store, the live edges, the ids among them that a batch has given out, and a bound
on the ids handed out so far. -/
structure EdgeRun where
  store : Store
  edges : List EdgeRef
  batchIds : List EdgeId
  nextId : Nat

open EdgeRun

/-- Ids start at `1`. -/
def EdgeRun.start : EdgeRun := ⟨Store.empty, [], [], 1⟩

/-- Put the outcome of a statement that completed. -/
def EdgeRun.completed (r : EdgeRun) (edges : List EdgeRef)
    (out : Except String Unit × Store) : Option EdgeRun :=
  match out.1 with
  | .ok _ => some { r with store := out.2, edges := edges }
  | .error _ => none

/-- `DETACH DELETE n`, as far as `vertex_data` and the edge tables go. -/
def detachDelete (capacity : UInt32) (vid : VertexId) : StoreM (List EdgeRef) := do
  let edges ← detachEdges capacity vid
  let _ ← deleteVertex vid
  return edges

/-- One completed statement.  Ids come from the allocator, which hands out each id once;
the 16-bit loops over property vectors must end. -/
def EdgeRun.step (capacity : UInt32) (defs : EdgeLabelDefs) (r : EdgeRun) :
    EdgeAction → Option EdgeRun
  | .insertVertex vid labelProps =>
    if labelProps.all fun group => group.2.length < 2 ^ 16 then
      some { r with store := (exec (insertVertex capacity vid labelProps) r.store).2 }
    else none
  | .create eid src dst labelId props =>
    if r.nextId ≤ eid.toNat ∧ props.length < 2 ^ 16 then
      let out := exec (createEdge capacity defs eid src dst labelId props) r.store
      some { r with
        store := out.2
        edges := if out.1 then ⟨eid, src, dst, labelId, eid⟩ :: r.edges else r.edges
        nextId := eid.toNat + 1 }
    else none
  | .merge eid src dst labelId props =>
    if r.nextId ≤ eid.toNat ∧ props.length < 2 ^ 16 then
      some { r with
        store := (exec (mergeCreateEdge capacity eid src dst labelId props) r.store).2
        edges := ⟨eid, src, dst, labelId, eid⟩ :: r.edges
        nextId := eid.toNat + 1 }
    else none
  | .batch labelId startEid records =>
    let entries := batchEntries startEid records
    if r.nextId ≤ startEid.toNat ∧ startEid.toNat + entries.length ≤ 2 ^ 64 ∧
        records.length ≤ 2 ^ 64 ∧ (records.all fun record => record.props.length < 2 ^ 16) then
      some {
        store := (exec (batchInsertEdges capacity defs labelId entries) r.store).2
        edges := (entries.map fun entry => entry.ref labelId).reverse ++ r.edges
        batchIds := entries.map BatchEdgeEntry.eid ++ r.batchIds
        nextId := startEid.toNat + entries.length }
    else none
  | .setProperty e pid value =>
    if e ∈ r.edges then
      r.completed r.edges (exec (setEdgeProperty defs e.labelId e.eid pid value) r.store)
    else none
  | .removeProperty e pid =>
    if e ∈ r.edges then
      r.completed r.edges (exec (removeEdgeProperty defs e.labelId e.eid pid) r.store)
    else none
  | .delete e =>
    if e ∈ r.edges then
      r.completed (r.edges.filter fun e' => e'.key ≠ e.key)
        (exec (deleteEdgeEntity capacity defs e) r.store)
    else none
  | .detachDelete vid =>
    let out := exec (detachDelete capacity vid) r.store
    some { r with store := out.2, edges := r.edges.filter fun e => e.key ∉ out.1.map key }
  | .backfill labelId propIds unique =>
    r.completed r.edges (exec (backfillEdgeIndex labelId propIds unique) r.store)

/-- The same label and the same endpoints. -/
def parallel (e : EdgeRef) (src dst : VertexId) (labelId : EdgeLabelId) : Bool :=
  e.src = src && e.dst = dst && e.labelId = labelId

/-- A new edge of `CREATE` or `MERGE` does not get the position of a parallel edge that a
batch has written, a batch does not repeat such a position or the id of a parallel edge of
`CREATE` or `MERGE`, and no vertex with live edges is inserted again. -/
def EdgeRun.distinctSeqs (capacity : UInt32) (r : EdgeRun) : EdgeAction → Prop
  | .insertVertex vid _ => capacity = 0 ∨ ∀ e ∈ r.edges, touches e vid = false
  | .create eid src dst labelId _ =>
    ∀ e ∈ r.edges, e.eid ∈ r.batchIds → parallel e src dst labelId → e.seq ≠ eid
  | .merge eid src dst labelId _ =>
    ∀ e ∈ r.edges, e.eid ∈ r.batchIds → parallel e src dst labelId → e.seq ≠ eid
  | .batch labelId _ records =>
    ∀ entry ∈ resolvedEntries records, ∀ e ∈ r.edges,
      parallel e entry.srcId entry.dstId labelId →
      (if e.eid ∈ r.batchIds then e.seq else e.eid) ≠ entry.seq
  | _ => True

instance (capacity : UInt32) (r : EdgeRun) (a : EdgeAction) :
    Decidable (r.distinctSeqs capacity a) := by
  cases a
  all_goals unfold distinctSeqs
  all_goals infer_instance

/-! ### Which rows the operators touch -/

/-- Rows of edge indexes and of edge properties. -/
def propertyRow (table : TableName) (_ : Bytes) : Prop :=
  (∃ labelId propIds, table = .eidxTable labelId propIds) ∨ ∃ labelId, table = .epropTable labelId

variable {changed : TableName → Bytes → Prop}

lemma writesOnly_checkUniqueConstraint (table : TableName)
    (values : List PropertyValue) : WritesOnly changed (checkUniqueConstraint table values) :=
  .bind (.scan _ _ _) fun _ => .pure _

variable {labelId : EdgeLabelId} {eid : EdgeId}

/-- The tables of an edge's entries. -/
theorem table_of_mem_edgeRows {defs : EdgeLabelDefs}
    {value : PropId → Option PropertyValue} {entry : IndexRow}
    (h : entry ∈ edgeRows defs labelId eid value) :
    (∃ propIds, entry.table = .eidxTable labelId propIds) ∧ entry.entityId = eid := by
  unfold edgeRows at h
  split at h
  · exact absurd h (by simp)
  · obtain ⟨idx, -, hidx⟩ := mem_filterMap.mp h
    obtain ⟨values, -, rfl⟩ := map_eq_some_iff.mp hidx
    exact ⟨⟨_, rfl⟩, rfl⟩

variable {entries : List IndexRow}

lemma writesOnly_insertIndexEntries
    (h : ∀ entry ∈ entries, ∃ labelId propIds, entry.table = .eidxTable labelId propIds) :
    WritesOnly propertyRow (insertIndexEntries entries) := by
  induction entries with
  | nil => exact .pure 0
  | cons entry rest ih =>
    have hrest := ih fun e he => h e (mem_cons_of_mem _ he)
    rw [insertIndexEntries]
    refine .bind (.ite (writesOnly_checkUniqueConstraint _ _) (.pure true)) fun free => ?_
    split
    · exact .bind (.put _ (inl (h entry mem_cons_self)) _) fun _ => hrest
    · exact .bind hrest fun _ => .pure _

lemma writesOnly_deleteEdgeIndexEntries
    (h : ∀ entry ∈ entries, ∃ labelId propIds, entry.table = .eidxTable labelId propIds) :
    WritesOnly propertyRow (deleteEdgeIndexEntries entries) :=
  .forEach fun entry hentry => .del _ (inl (h entry hentry))

lemma writesOnly_collectStoredEntries
    (defs : EdgeLabelDefs) (labelId : EdgeLabelId) (eid : EdgeId) :
    WritesOnly changed (collectStoredEntries defs labelId eid) :=
  .bind (.bind (.scan _ _ _) fun _ => .pure _) fun _ => .pure _

variable {s : Store}

/-- What `collectStoredEntries` returns are rows of the edge. -/
theorem exec_collectStoredEntries_table {defs : EdgeLabelDefs}
    (h : (exec (collectStoredEntries defs labelId eid) s).1 = .ok entries) :
    ∃ props : Properties, entries = edgeRows defs labelId eid (propValue props) := by
  simp only [collectStoredEntries, exec_bind, exec_pure] at h
  cases hprops : (exec (getEdgeProperties labelId eid) s).1 with
  | error message =>
    rw [hprops] at h
    exact absurd h (by simp [Except.map])
  | ok props =>
    rw [hprops] at h
    simp only [Except.map, Except.ok.injEq] at h
    exact ⟨_, h.symm⟩

/-- Reading the entries changes nothing. -/
theorem exec_collectStoredEntries_snd (defs : EdgeLabelDefs) (labelId : EdgeLabelId) (eid : EdgeId)
    (s : Store) : (exec (collectStoredEntries defs labelId eid) s).2 = s :=
  (writesOnly_collectStoredEntries defs labelId eid).readOnly s

lemma edgeTable_of_collected {defs : EdgeLabelDefs}
    (h : (exec (collectStoredEntries defs labelId eid) s).1 = .ok entries) :
    ∀ entry ∈ entries, ∃ labelId propIds, entry.table = .eidxTable labelId propIds := by
  obtain ⟨props, rfl⟩ := exec_collectStoredEntries_table h
  intro entry hentry
  obtain ⟨⟨propIds, htable⟩, -⟩ := table_of_mem_edgeRows hentry
  exact ⟨labelId, propIds, htable⟩

lemma writesOnly_maintainEdgeEntries {defs : EdgeLabelDefs}
    {change : StoreM Bool} (hchange : WritesOnly propertyRow change) :
    WritesOnly propertyRow (maintainEdgeEntries defs labelId eid change) := by
  intro s
  simp only [maintainEdgeEntries, exec_bind, exec_collectStoredEntries_snd]
  cases hold : (exec (collectStoredEntries defs labelId eid) s).1 with
  | error message => exact ChangesOnly.refl s _
  | ok old =>
    simp only [exec_bind, exec_collectStoredEntries_snd]
    refine (hchange s).trans ?_
    cases hnew : (exec (collectStoredEntries defs labelId eid) (exec change s).2).1 with
    | error message => exact ChangesOnly.refl _ _
    | ok new =>
      simp only [exec_bind, exec_pure]
      exact (writesOnly_deleteEdgeIndexEntries (edgeTable_of_collected hold) _).trans
        (writesOnly_insertIndexEntries (edgeTable_of_collected hnew) _)

lemma writesOnly_putEdgeProperty (labelId : EdgeLabelId) (eid : EdgeId) (pid : PropId)
    (v : PropertyValue) : WritesOnly propertyRow (putEdgeProperty labelId eid pid v) :=
  .put _ (inr ⟨_, rfl⟩) _

lemma writesOnly_deleteEdgeProperty (labelId : EdgeLabelId) (eid : EdgeId) (pid : PropId) :
    WritesOnly propertyRow (deleteEdgeProperty labelId eid pid) :=
  .del _ (inr ⟨_, rfl⟩)

lemma writesOnly_setEdgeProperty (defs : EdgeLabelDefs) (labelId : EdgeLabelId) (eid : EdgeId)
    (pid : PropId) (value : Option PropertyValue) :
    WritesOnly propertyRow (setEdgeProperty defs labelId eid pid value) := by
  apply writesOnly_maintainEdgeEntries
  cases value with
  | none => exact writesOnly_deleteEdgeProperty labelId eid pid
  | some v => exact writesOnly_putEdgeProperty labelId eid pid v

lemma writesOnly_removeEdgeProperty (defs : EdgeLabelDefs) (labelId : EdgeLabelId) (eid : EdgeId) (pid : PropId) :
    WritesOnly propertyRow (removeEdgeProperty defs labelId eid pid) :=
  writesOnly_maintainEdgeEntries (writesOnly_deleteEdgeProperty labelId eid pid)

lemma writesOnly_backfillEdgeIndex
    {propIds : List PropId} (htable : ∀ key, changed (.eidxTable labelId propIds) key)
    (unique : Bool) : WritesOnly changed (backfillEdgeIndex labelId propIds unique) := by
  have hentry : ∀ entry, WritesOnly changed (backfillEntry labelId propIds unique entry) := by
    intro entry
    refine .bind (.bind (.scan _ _ _) fun _ => .pure _) fun props => ?_
    split
    · exact .pure _
    · exact .pure _
    · split
      · exact .pure _
      · refine .bind (.ite (writesOnly_checkUniqueConstraint _ _) (.pure true)) fun free => ?_
        exact .ite (.bind (.put _ (htable _) _) fun _ => .pure _) (.pure _)
  refine .bind (.bind (.scan _ _ _) fun _ => .pure _) fun entries => ?_
  induction entries with
  | nil => exact .pure _
  | cons entry rest ih =>
    refine .bind (hentry entry) fun outcome => ?_
    split
    · exact .pure _
    · exact ih

lemma storeOk_of_propertyRows {capacity : UInt32} {s' : Store} {live : LiveEdges}
    (h : StoreOk capacity s live) (hchanges : ChangesOnly s s' propertyRow) :
    StoreOk capacity s' live := by
  rw [storeOk_iff] at h ⊢
  refine h.frame hchanges ?_ ?_
  · rintro table key (⟨l, ps, rfl⟩ | ⟨l, rfl⟩) vid direction
    · exact not_sideRow (by simp) (by simp)
    · exact not_sideRow (by simp) (by simp)
  · rintro labelId key (⟨l, ps, h⟩ | ⟨l, h⟩)
    · exact absurd h (by simp)
    · exact absurd h (by simp)

/-! ### One edge -/

section OneEdge

variable {capacity : UInt32} {defs : EdgeLabelDefs} {s : Store} {live : LiveEdges}

lemma readOnly_uniqueChecks (entries : List IndexRow) (s : Store) :
    (exec (allOf (fun entry : IndexRow => checkUniqueConstraint entry.table entry.values) entries) s).2 = s :=
  (WritesOnly.allOf fun entry _ => writesOnly_checkUniqueConstraint entry.table entry.values).readOnly s

/-- `CREATE` inserts the edge or, on a unique conflict, does nothing. -/
theorem storeOk_createEdge (defs : EdgeLabelDefs) (h : StoreOk capacity s live)
    {src dst : VertexId} (hfresh : live ⟨labelId, src, dst, eid⟩ = none)
    (props : Properties) :
    StoreOk capacity (exec (createEdge capacity defs eid src dst labelId props) s).2
      (if (exec (createEdge capacity defs eid src dst labelId props) s).1 then
        update live ⟨labelId, src, dst, eid⟩ (some eid) else live) := by
  obtain ⟨htrue, hinsert⟩ := h.insertEdge (e := ⟨eid, src, dst, labelId, eid⟩) hfresh props
  simp only [createEdge, exec_bind, readOnly_uniqueChecks]
  cases hfree : (exec (allOf (fun entry : IndexRow => checkUniqueConstraint entry.table
      entry.values) ((collectEdgeIndexEntries defs labelId eid props).filter IndexRow.unique)) s).1 with
  | false => simpa using h
  | true =>
    simp only [if_true, exec_bind, htrue, exec_pure]
    refine storeOk_of_propertyRows hinsert ?_
    refine WritesOnly.forEach (fun entry hentry => ?_) _
    obtain ⟨⟨propIds, htable⟩, -⟩ := table_of_mem_edgeRows hentry
    exact .put _ (inl ⟨labelId, propIds, htable⟩) _

lemma storeOk_mergeCreateEdge (h : StoreOk capacity s live) {src dst : VertexId}
    (hfresh : live ⟨labelId, src, dst, eid⟩ = none) (props : Properties) :
    StoreOk capacity (exec (mergeCreateEdge capacity eid src dst labelId props) s).2
      (update live ⟨labelId, src, dst, eid⟩ (some eid)) := by
  rw [mergeCreateEdge, exec_bind, exec_pure]
  exact (h.insertEdge (e := ⟨eid, src, dst, labelId, eid⟩) hfresh props).2

lemma storeOk_batchInsertEdge (h : StoreOk capacity s live)
    {entry : BatchEdgeEntry} (hfresh : live (entry.ref labelId).key = none) :
    StoreOk capacity (exec (batchInsertEdge capacity defs labelId entry) s).2
      (update live (entry.ref labelId).key (some entry.eid)) := by
  rw [batchInsertEdge, exec_bind]
  refine storeOk_of_propertyRows (h.insertEdge hfresh entry.props).2 ?_
  refine writesOnly_insertIndexEntries (fun e he => ?_) _
  obtain ⟨⟨propIds, htable⟩, -⟩ := table_of_mem_edgeRows he
  exact ⟨labelId, propIds, htable⟩

lemma storeOk_deleteEdgeEntity (h : StoreOk capacity s live) {e : EdgeRef} (hlive : (live e.key).isSome)
    (hok : (exec (deleteEdgeEntity capacity defs e) s).1 = .ok ()) :
    StoreOk capacity (exec (deleteEdgeEntity capacity defs e) s).2
      (update live e.key none) := by
  simp only [deleteEdgeEntity, exec_bind, exec_collectStoredEntries_snd] at hok ⊢
  cases hold : (exec (collectStoredEntries defs e.labelId e.eid) s).1 with
  | error message =>
    rw [hold] at hok
    exact absurd hok (by simp)
  | ok entries =>
    simp only [exec_bind, exec_pure]
    have hentries := storeOk_of_propertyRows h (writesOnly_deleteEdgeIndexEntries (edgeTable_of_collected hold) s)
    exact (hentries.deleteEdge hlive).2

end OneEdge

/-! ### Batches -/

lemma storeOk_batchInsertEdges {capacity : UInt32} {defs : EdgeLabelDefs}
    (entries : List BatchEdgeEntry) {edges : List EdgeRef}
    (h : StoreOk capacity s (liveEdges edges))
    (hnodup : (entries.map fun entry => (entry.ref labelId).key).Nodup)
    (hfresh : ∀ entry ∈ entries, ∀ e ∈ edges, e.key ≠ (entry.ref labelId).key) :
    StoreOk capacity (exec (batchInsertEdges capacity defs labelId entries) s).2
      (liveEdges ((entries.map fun entry => entry.ref labelId).reverse ++ edges)) := by
  induction entries generalizing s edges with
  | nil => exact h
  | cons entry rest ih =>
    rw [map_cons, nodup_cons] at hnodup
    have hone : StoreOk capacity (exec (batchInsertEdge capacity defs labelId entry) s).2
        (liveEdges (entry.ref labelId :: edges)) := by
      rw [liveEdges_cons]
      exact storeOk_batchInsertEdge h (liveEdges_eq_none.mpr (hfresh entry mem_cons_self))
    have hrest := ih hone hnodup.2 (by
      intro entry' hentry' e he
      rcases mem_cons.mp he with rfl | he
      · intro heq
        exact hnodup.1 (mem_map.mpr ⟨entry', hentry', heq.symm⟩)
      · exact hfresh entry' (mem_cons_of_mem _ hentry') e he)
    rw [batchInsertEdges, forEach, exec_bind, map_cons, reverse_cons, append_assoc]
    exact hrest

variable {records : List ResolvedEdge}

/-- Positions in a request are distinct. -/
theorem nodup_resolvedEntries_seq (hlen : records.length ≤ 2 ^ 64) :
    ((resolvedEntries records).map BatchEdgeEntry.seq).Nodup := by
  rw [List.Nodup, pairwise_map, resolvedEntries, pairwise_filterMap]
  have hpos : records.zipIdx.Pairwise fun a b => a.2 < b.2 := by
    have hsnd : (records.zipIdx.map Prod.snd).Pairwise (· < ·) := by
      rw [zipIdx_map_snd]
      exact pairwise_lt_range'
    exact pairwise_map.mp hsnd
  refine hpos.imp_of_mem ?_
  intro a b ha hb hlt x hx y hy heq
  have hbound : b.2 < UInt64.size := by
    have hidx := (mem_zipIdx hb).2.1
    have hsize : UInt64.size = 2 ^ 64 := rfl
    omega
  have hxseq : x.seq = UInt64.ofNat a.2 := by
    split at hx
    · rw [← some.inj hx]
    · cases hx
  have hyseq : y.seq = UInt64.ofNat b.2 := by
    split at hy
    · rw [← some.inj hy]
    · cases hy
  rw [hxseq, hyseq] at heq
  have hnat := congrArg UInt64.toNat heq
  rw [UInt64.toNat_ofNat_of_lt' (by omega), UInt64.toNat_ofNat_of_lt' hbound] at hnat
  omega

lemma batchEntries_seq (startEid : EdgeId) (records : List ResolvedEdge) :
    (batchEntries startEid records).map BatchEdgeEntry.seq = (resolvedEntries records).map BatchEdgeEntry.seq := by
  rw [batchEntries, List.map_map]
  conv_rhs => rw [← zipIdx_map_fst 0 (resolvedEntries records), List.map_map]
  rfl

@[simp] lemma length_batchEntries (startEid : EdgeId) (records : List ResolvedEdge) :
    (batchEntries startEid records).length = (resolvedEntries records).length := by
  simp [batchEntries]

variable {startEid : EdgeId}

/-- A batch entry has the endpoints, the position and the properties of its record. -/
theorem mem_batchEntries {entry : BatchEdgeEntry}
    (h : entry ∈ batchEntries startEid records) :
    ∃ entry' ∈ resolvedEntries records, entry'.srcId = entry.srcId ∧ entry'.dstId = entry.dstId ∧
      entry'.seq = entry.seq ∧ entry'.props = entry.props := by
  obtain ⟨⟨entry', j⟩, hmem, rfl⟩ := mem_map.mp h
  refine ⟨entry', ?_, rfl, rfl, rfl, rfl⟩
  rw [← zipIdx_map_fst 0 (resolvedEntries records)]
  exact mem_map.mpr ⟨(entry', j), hmem, rfl⟩

/-- The ids of a batch are consecutive from the start of its range. -/
theorem batchEntries_eid
    (hfits : startEid.toNat + (batchEntries startEid records).length ≤ 2 ^ 64) :
    (batchEntries startEid records).map (fun entry => entry.eid.toNat) =
      range' startEid.toNat (batchEntries startEid records).length := by
  rw [length_batchEntries] at hfits ⊢
  have hsnd : (resolvedEntries records).zipIdx.map (fun p => startEid.toNat + p.2) =
      range' startEid.toNat (resolvedEntries records).length := by
    have hcomp : (fun p : BatchEdgeEntry × Nat => startEid.toNat + p.2) =
        (fun j => startEid.toNat + j) ∘ Prod.snd := rfl
    rw [hcomp, ← List.map_map, zipIdx_map_snd, map_add_range']
    simp
  rw [← hsnd, batchEntries, List.map_map]
  refine map_congr_left fun p hp => ?_
  have hidx := (mem_zipIdx hp).2.1
  have hsize : UInt64.size = 2 ^ 64 := rfl
  rw [comp_apply, UInt64.toNat_add, UInt64.toNat_ofNat_of_lt' (by omega),
    Nat.mod_eq_of_lt (by omega)]

lemma batchEntries_eid_bounds
    (hfits : startEid.toNat + (batchEntries startEid records).length ≤ 2 ^ 64)
    {entry : BatchEdgeEntry} (h : entry ∈ batchEntries startEid records) :
    startEid.toNat ≤ entry.eid.toNat ∧
      entry.eid.toNat < startEid.toNat + (batchEntries startEid records).length := by
  have hmem : entry.eid.toNat ∈ (batchEntries startEid records).map fun entry => entry.eid.toNat :=
    mem_map.mpr ⟨entry, h, rfl⟩
  rw [batchEntries_eid hfits, mem_range'_1] at hmem
  exact hmem

lemma nodup_batchEntries_eid
    (hfits : startEid.toNat + (batchEntries startEid records).length ≤ 2 ^ 64) :
    ((batchEntries startEid records).map BatchEdgeEntry.eid).Nodup := by
  have hnat : ((batchEntries startEid records).map fun entry => entry.eid.toNat).Nodup := by
    rw [batchEntries_eid hfits]
    exact nodup_range'
  have hcomp : (fun entry : BatchEdgeEntry => entry.eid.toNat) = UInt64.toNat ∘ BatchEdgeEntry.eid := rfl
  rw [hcomp, ← List.map_map] at hnat
  exact hnat.of_map

/-! ### `DETACH DELETE` -/

section Detach

variable {capacity : UInt32} {s : Store} {edges : List EdgeRef}

/-- Deleting live edges with distinct keys, one after the other. -/
theorem storeOk_deleteLoop (doomed : List EdgeRef) {live : LiveEdges} (h : StoreOk capacity s live)
    (hnodup : (doomed.map key).Nodup) (hlive : ∀ e ∈ doomed, (live e.key).isSome) :
    StoreOk capacity (exec (forEach (deleteEdge capacity) doomed) s).2 (dropEdges live doomed) := by
  induction doomed generalizing s live with
  | nil => exact h
  | cons e rest ih =>
    rw [map_cons, nodup_cons] at hnodup
    have hone := (h.deleteEdge (hlive e mem_cons_self)).2
    rw [forEach, exec_bind]
    refine ih hone hnodup.2 fun e' he' => ?_
    change (update live e.key none e'.key).isSome
    rw [update_of_ne]
    · exact hlive e' (mem_cons_of_mem _ he')
    · intro heq
      exact hnodup.1 (mem_map.mpr ⟨e', he', heq⟩)

/-- The entries of a side stand for the live edges of that side. -/
theorem map_entryEdge_incidentSide (edges : List EdgeRef) (vid : VertexId) (direction : Direction) :
    (incidentSide edges vid direction none).map (entryEdge vid direction) =
      edges.filter fun e => e.near direction = vid := by
  rw [incidentSide, List.map_map]
  have hfilter : (edges.filter fun e => e.near direction = vid && passesFilter none e.labelId) =
      edges.filter fun e => e.near direction = vid := by
    refine filter_congr fun e _ => ?_
    simp [passesFilter]
  rw [hfilter]
  refine (map_congr_left fun e he => ?_).trans (map_id _)
  have hnear : e.near direction = vid := by simpa using (mem_filter.mp he).2
  by_cases hin : direction = .IN
  · simp [entryEdge, hin, far, ← hnear, near]
  · simp [entryEdge, hin, far, ← hnear, near]

/-- Edges that are dropped are live no longer. -/
theorem liveEdges_drop (edges doomed : List EdgeRef) :
    dropEdges (liveEdges edges) doomed = liveEdges (edges.filter fun e => e.key ∉ doomed.map key) := by
  funext k
  have hkeep := liveEdges_filter (fun k => k ∉ doomed.map key) edges k
  rw [dropEdges_apply, hkeep]
  by_cases hk : k ∈ doomed.map key
  · simp [hk]
  · simp [hk]

/-- A direction deletes the edges its cursor finds: all of the side, or none. -/
theorem exec_detachSide (h : StoreOk capacity s (liveEdges edges)) (hnodup : (edges.map key).Nodup)
    (vid : VertexId) {direction : Direction} (hdir : direction ≠ .BOTH) :
    (exec (detachSide capacity vid direction) s).1.Perm
        (if CursorReads capacity s vid direction then edges.filter fun e => e.near direction = vid
          else []) ∧
      (exec (detachSide capacity vid direction) s).2 =
        (exec (forEach (deleteEdge capacity) (exec (detachSide capacity vid direction) s).1) s).2 := by
  obtain ⟨hperm, -⟩ := h.scanEdges_perm hnodup vid hdir none
  have hdoomed := hperm.map (entryEdge vid direction)
  rw [map_entryEdge_incidentSide] at hdoomed
  simp only [detachSide, exec_bind, asyncScanEdges_shown (h.sides vid direction hdir).shown hdir,
    exec_pure, and_true]
  by_cases hreads : CursorReads capacity s vid direction
  · rw [if_pos hreads, if_pos hreads]
    exact hdoomed
  · rw [if_neg hreads, if_neg hreads]
    exact .nil

lemma storeOk_detachSide (h : StoreOk capacity s (liveEdges edges)) (hnodup : (edges.map key).Nodup)
    (vid : VertexId) {direction : Direction} (hdir : direction ≠ .BOTH) :
    StoreOk capacity (exec (detachSide capacity vid direction) s).2
      (liveEdges (edges.filter fun e => e.key ∉ (exec (detachSide capacity vid direction) s).1.map key)) := by
  obtain ⟨hperm, hstore⟩ := exec_detachSide h hnodup vid hdir
  have hsub : (if CursorReads capacity s vid direction then
      edges.filter fun e => e.near direction = vid else []).Sublist edges := by
    split
    · exact filter_sublist
    · exact nil_sublist edges
  rw [hstore, ← liveEdges_drop]
  refine storeOk_deleteLoop _ h ?_ fun e he => ?_
  · exact ((hperm.map key).nodup_iff).mpr (hnodup.sublist (hsub.map _))
  · have hsome := (liveEdges_eq_some hnodup).mpr ⟨e, hsub.subset (hperm.mem_iff.mp he), rfl, rfl⟩
    rw [hsome]
    rfl

/-- Deleting edges takes rows out of `vertex_data` and leaves every state row. -/
structure Thins (s s' : Store) : Prop where
  rows : ∀ row, (s'.get .vertexData row).isSome → (s.get .vertexData row).isSome
  states : ∀ vid direction, (sideState s vid direction).isSome → (sideState s' vid direction).isSome

lemma thins_dropAdjacencyRow (s : Store) (k : EdgeIndexKey) :
    Keeps (Thins s) (dropAdjacencyRow k) := by
  intro s' h
  by_cases hstate : ∃ count, sideState s' k.vertexId k.direction = some (.COMPLETE, count)
  · obtain ⟨count, hstate⟩ := hstate
    have hmark : (s'.get .vertexData (encodeVertexDataAdjStateKey k.vertexId k.direction)).isSome := by
      have hsome : (sideState s' k.vertexId k.direction).isSome := by simp [hstate]
      rwa [sideState, isSome_map] at hsome
    rw [exec_dropAdjacencyRow_cached hstate]
    refine ⟨fun row hrow => h.rows row ?_, fun vid direction hsome => ?_⟩
    · rw [Store.put_get, Store.del_get] at hrow
      split at hrow
      · rename_i hkey
        rwa [hkey.2]
      · split at hrow
        · cases hrow
        · exact hrow
    · have hbefore := h.states vid direction hsome
      rw [sideState, isSome_map, Store.put_get]
      split
      · rfl
      · rw [Store.del_get_of_ne]
        · rwa [sideState, isSome_map] at hbefore
        · refine inr fun heq => ?_
          rw [encodeVertexDataAdjStateKey, encodeVertexDataAdjEdgeKey, sectionKey_inj] at heq
          have hlength := congrArg length heq.2.2
          simp at hlength
  · rw [exec_dropAdjacencyRow_indexed fun count heq => hstate ⟨count, heq⟩]
    refine ⟨fun row hrow => h.rows row ?_, fun vid direction hsome => ?_⟩
    · rwa [Store.del_get_of_ne _ _ _ _ _ (inl (by simp))] at hrow
    · rw [sideState_del_index]
      exact h.states vid direction hsome

lemma thins_deleteEdge (s : Store) (e : EdgeRef) : Keeps (Thins s) (deleteEdge capacity e) := by
  have hother {α : Type} {p : StoreM α} (hp : WritesOnly (fun table _ => table ≠ .vertexData) p) :
      Keeps (Thins s) p := by
    refine .of_writesOnly hp fun s' s'' hsame h => ⟨fun row hrow => h.rows row ?_, fun vid direction hsome => ?_⟩
    · rwa [hsame _ _ (by simp)] at hrow
    · rw [sideState, hsame _ _ (by simp)]
      exact h.states vid direction hsome
  have hrow (k : EdgeIndexKey) : Keeps (Thins s) (deleteAdjacencyEdge capacity k) :=
    .ite (.bind (hother (.del _ (by simp))) fun _ => .pure _) (thins_dropAdjacencyRow s k)
  refine .andThen (hrow _) (.andThen (hrow _) (.bind (hother (.del _ (by simp))) fun _ => ?_))
  exact .bind (hother (writesOnly_deleteUnder _ fun _ _ => by simp)) fun _ => .pure _

lemma thins_detachSide (h : StoreOk capacity s (liveEdges edges)) (vid : VertexId)
    {direction : Direction} (hdir : direction ≠ .BOTH) :
    Thins s (exec (detachSide capacity vid direction) s).2 := by
  simp only [detachSide, exec_bind, asyncScanEdges_shown (h.sides vid direction hdir).shown hdir, exec_pure]
  exact Keeps.forEach (thins_deleteEdge s) _ s ⟨fun _ => id, fun _ _ => id⟩

/-- What one direction deletes and leaves. -/
structure Detached (capacity : UInt32) (vid : VertexId) (direction : Direction) (s : Store) (edges : List EdgeRef)
    (doomed : List EdgeRef) (s' : Store) : Prop where
  found : doomed.Perm
    (if CursorReads capacity s vid direction then edges.filter fun e => e.near direction = vid else [])
  storeOk : StoreOk capacity s' (liveEdges (edges.filter fun e => e.key ∉ doomed.map key))
  thins : Thins s s'

/-- One direction, then the other, and the vertex. -/
theorem exec_detachDelete (h : StoreOk capacity s (liveEdges edges)) (hnodup : (edges.map key).Nodup)
    (vid : VertexId) :
    ∃ outgoing s₁ incoming s₂, Detached capacity vid .OUT s edges outgoing s₁ ∧
      Detached capacity vid .IN s₁ (edges.filter fun e => e.key ∉ outgoing.map key) incoming s₂ ∧
      exec (detachDelete capacity vid) s = (outgoing ++ incoming, (exec (deleteVertex vid) s₂).2) := by
  have hout := storeOk_detachSide h hnodup vid (by simp : Direction.OUT ≠ .BOTH)
  have hnodup₁ := hnodup.sublist ((filter_sublist (l := edges) (p := fun e =>
    e.key ∉ (exec (detachSide capacity vid .OUT) s).1.map key)).map _)
  exact ⟨_, _, _, _,
    ⟨(exec_detachSide h hnodup vid (by simp)).1, hout, thins_detachSide h vid (by simp)⟩,
    ⟨(exec_detachSide hout hnodup₁ vid (by simp)).1, storeOk_detachSide hout hnodup₁ vid (by simp),
      thins_detachSide hout vid (by simp)⟩, by simp only [detachDelete, detachEdges, exec_bind, exec_pure]⟩

section OneDirection

variable {vid : VertexId} {direction : Direction} {doomed : List EdgeRef} {s' : Store}

lemma Detached.near_of_mem (h : Detached capacity vid direction s edges doomed s') {e : EdgeRef} (he : e ∈ doomed) :
    e ∈ edges ∧ e.near direction = vid := by
  have hmem := h.found.mem_iff.mp he
  split at hmem
  · simpa using hmem
  · cases hmem

lemma Detached.mem_of_reads (h : Detached capacity vid direction s edges doomed s')
    (hreads : CursorReads capacity s vid direction) {e : EdgeRef} (he : e ∈ edges) (hnear : e.near direction = vid) :
    e ∈ doomed := by
  rw [h.found.mem_iff, if_pos hreads]
  exact mem_filter.mpr ⟨he, by simpa using hnear⟩

/-- After a direction the side has no edge, or it had no state row to begin with. -/
theorem Detached.empties (h : Detached capacity vid direction s edges doomed s') :
    sideState s vid direction = none ∨ ∀ e ∈ edges, e.key ∉ doomed.map key → e.near direction ≠ vid := by
  by_cases hreads : CursorReads capacity s vid direction
  · exact inr fun e he hkept hnear => hkept (mem_map.mpr ⟨e, h.mem_of_reads hreads he hnear, rfl⟩)
  · simp only [CursorReads, not_or] at hreads
    exact inl (by simpa using hreads.2.1)

end OneDirection

lemma sideRows_none (vid : VertexId) {direction : Direction} (h : ∀ e ∈ edges, e.near direction ≠ vid) :
    sideRows (liveEdges edges) vid direction = fun _ => none := by
  refine sideRows_eq_none fun l n q => liveEdges_eq_none.mpr fun e he heq => h e he ?_
  by_cases hin : direction = .IN
  · rw [sideKey, if_pos hin] at heq
    rw [near, if_pos hin]
    exact congrArg EdgeKey.dst heq
  · rw [sideKey, if_neg hin] at heq
    rw [near, if_neg hin]
    exact congrArg EdgeKey.src heq

lemma sideState_of_thins {s' : Store} (h : Thins s s') {vid : VertexId} {direction : Direction}
    (hnone : sideState s vid direction = none) : sideState s' vid direction = none := by
  rw [sideState, map_eq_none_iff] at hnone ⊢
  by_contra hsome
  have hrow := h.rows _ (isSome_iff_ne_none.mpr hsome)
  rw [hnone] at hrow
  cases hrow

lemma storeOk_detachDelete (h : StoreOk capacity s (liveEdges edges)) (hnodup : (edges.map key).Nodup)
    (vid : VertexId) :
    StoreOk capacity (exec (detachDelete capacity vid) s).2
      (liveEdges (edges.filter fun e => e.key ∉ (exec (detachDelete capacity vid) s).1.map key)) := by
  obtain ⟨outgoing, s₁, incoming, s₂, hout, hin, hexec⟩ := exec_detachDelete h hnodup vid
  rw [hexec]
  have hedges : (edges.filter fun e => e.key ∉ (outgoing ++ incoming).map key) =
      (edges.filter fun e => e.key ∉ outgoing.map key).filter fun e => e.key ∉ incoming.map key := by
    rw [List.filter_filter]
    refine filter_congr fun e _ => ?_
    simp [Bool.and_comm]
  rw [hedges]
  refine hin.storeOk.deleteVertex_of fun direction hdir => ?_
  cases direction with
  | BOTH => exact absurd rfl hdir
  | OUT =>
    refine hout.empties.imp (fun hnone => sideState_of_thins hin.thins (sideState_of_thins hout.thins hnone))
      fun hgone => sideRows_none vid fun e he => ?_
    obtain ⟨hmem, hkept⟩ := mem_filter.mp (mem_of_mem_filter he)
    exact hgone e hmem (by simpa using hkept)
  | IN =>
    refine hin.empties.imp (sideState_of_thins hin.thins) fun hgone => sideRows_none vid fun e he => ?_
    obtain ⟨hmem, hkept⟩ := mem_filter.mp he
    exact hgone e hmem (by simpa using hkept)

lemma cursorReads_of_thins {s' : Store} (h : Thins s s') {vid : VertexId} {direction : Direction}
    (hreads : CursorReads capacity s vid direction) : CursorReads capacity s' vid direction := by
  refine hreads.imp_right (imp (h.states vid direction) fun hnil => ?_)
  refine eq_nil_iff_forall_not_mem.mpr fun row hrow => ?_
  obtain ⟨hentry, hfrom⟩ := mem_filter.mp hrow
  have hget : s'.get .vertexData row.1 = some row.2 := (SortedMap.mem_entries_iff _ _ _).mp hentry
  obtain ⟨value, hvalue⟩ := isSome_iff_exists.mp (h.rows row.1 (by rw [hget]; rfl))
  have hmem : (row.1, value) ∈ recordsFrom (s .vertexData) (encodeVertexDataAdjPrefix vid direction) false :=
    mem_filter.mpr ⟨(SortedMap.mem_entries_iff _ _ _).mpr hvalue, hfrom⟩
  rw [hnil] at hmem
  cases hmem

/-- Where both cursors read, the edges of the vertex are deleted and no others. -/
theorem detachDelete_touches (h : StoreOk capacity s (liveEdges edges)) (hnodup : (edges.map key).Nodup)
    (vid : VertexId)
    (hreads : ∀ e ∈ edges, ∀ direction ∈ [Direction.OUT, .IN], e.near direction = vid →
      CursorReads capacity s vid direction) :
    (edges.filter fun e => e.key ∉ (exec (detachDelete capacity vid) s).1.map key) =
      edges.filter fun e => !touches e vid := by
  obtain ⟨outgoing, s₁, incoming, s₂, hout, hin, hexec⟩ := exec_detachDelete h hnodup vid
  rw [hexec]
  refine filter_congr fun e he => ?_
  have hiff : e.key ∈ (outgoing ++ incoming).map key ↔ touches e vid = true := by
    rw [List.mem_map]
    constructor
    · rintro ⟨e', he', heq⟩
      rcases mem_append.mp he' with he' | he'
      · obtain ⟨hedge, hnear⟩ := hout.near_of_mem he'
        rw [← inj_on_of_nodup_map hnodup hedge he heq]
        simp [touches, ← hnear, near]
      · obtain ⟨hkept, hnear⟩ := hin.near_of_mem he'
        rw [← inj_on_of_nodup_map hnodup (mem_of_mem_filter hkept) he heq]
        simp [touches, ← hnear, near]
    · intro htouches
      by_cases hdone : e.key ∈ outgoing.map key
      · obtain ⟨e', he', heq⟩ := mem_map.mp hdone
        exact ⟨e', mem_append_left _ he', heq⟩
      · -- an edge that the first direction leaves is found by the second
        have hsrc : e.src ≠ vid := by
          intro hsrc
          have hnear : e.near .OUT = vid := by simpa [near] using hsrc
          exact hdone (mem_map.mpr ⟨e, hout.mem_of_reads (hreads e he .OUT (by simp) hnear) he hnear, rfl⟩)
        have hnear : e.near .IN = vid := by simpa [touches, hsrc, near] using htouches
        have hstill := cursorReads_of_thins hout.thins (hreads e he .IN (by simp) hnear)
        exact ⟨e, mem_append_right _ (hin.mem_of_reads hstill
          (mem_filter.mpr ⟨he, by simpa using hdone⟩) hnear), rfl⟩
  rw [Bool.eq_iff_iff]
  simpa using not_congr hiff

end Detach

/-! ### The invariant of runs -/

/-- The store presents the live edges; ids are those handed out, and an edge of no batch
has its id as `seq`. -/
structure EdgeRun.Inv (capacity : UInt32) (r : EdgeRun) : Prop where
  storeOk : StoreOk capacity r.store (liveEdges r.edges)
  nodup : (r.edges.map key).Nodup
  ids : (r.edges.map EdgeRef.eid).Nodup
  issued : ∀ e ∈ r.edges, e.eid.toNat < r.nextId
  batchIssued : ∀ eid ∈ r.batchIds, eid.toNat < r.nextId
  created : ∀ e ∈ r.edges, e.eid ∉ r.batchIds → e.seq = e.eid

lemma EdgeRun.inv_start (capacity : UInt32) : start.Inv capacity :=
  ⟨storeOk_empty capacity, nodup_nil, nodup_nil, by simp [start],
    by simp [start], by simp [start]⟩

section Steps

variable {capacity : UInt32} {defs : EdgeLabelDefs} {r : EdgeRun}

variable {s : Store}

/-- A store that presents fewer of the edges. -/
theorem EdgeRun.Inv.filter (h : r.Inv capacity) (keep : EdgeRef → Bool)
    (hstore : StoreOk capacity s (liveEdges (r.edges.filter keep))) :
    EdgeRun.Inv capacity { r with store := s, edges := r.edges.filter keep } where
  storeOk := hstore
  nodup := h.nodup.sublist (filter_sublist.map _)
  ids := h.ids.sublist (filter_sublist.map _)
  issued e he := h.issued e (mem_of_mem_filter he)
  batchIssued := h.batchIssued
  created e he := h.created e (mem_of_mem_filter he)

/-- A store that presents the same edges. -/
theorem EdgeRun.Inv.sameEdges (h : r.Inv capacity) (hstore : StoreOk capacity s (liveEdges r.edges)) :
    EdgeRun.Inv capacity { r with store := s } :=
  ⟨hstore, h.nodup, h.ids, h.issued, h.batchIssued, h.created⟩

/-- An id that was just handed out is the `seq` of no parallel edge. -/
theorem EdgeRun.Inv.fresh_key (h : r.Inv capacity) {src dst : VertexId}
    (hid : r.nextId ≤ eid.toNat)
    (hseqs : ∀ e ∈ r.edges, e.eid ∈ r.batchIds → parallel e src dst labelId → e.seq ≠ eid) :
    ∀ e ∈ r.edges, e.key ≠ ⟨labelId, src, dst, eid⟩ := by
  intro e he heq
  simp only [key, EdgeKey.mk.injEq] at heq
  obtain ⟨hlabel, hsrc, hdst, hseq⟩ := heq
  by_cases hbatch : e.eid ∈ r.batchIds
  · exact hseqs e he hbatch (by simp [parallel, hsrc, hdst, hlabel]) hseq
  · -- an edge of `CREATE` or `MERGE` has an older id as its `seq`
    have hold := h.issued e he
    rw [← h.created e he hbatch, hseq] at hold
    omega

/-- One more edge of `CREATE` or `MERGE`. -/
theorem EdgeRun.Inv.cons (h : r.Inv capacity) {src dst : VertexId}
    (hid : r.nextId ≤ eid.toNat)
    (hfresh : ∀ e ∈ r.edges, e.key ≠ ⟨labelId, src, dst, eid⟩)
    (hstore : StoreOk capacity s (update (liveEdges r.edges) ⟨labelId, src, dst, eid⟩ (some eid))) :
    EdgeRun.Inv capacity { r with
      store := s
      edges := ⟨eid, src, dst, labelId, eid⟩ :: r.edges
      nextId := eid.toNat + 1 } where
  storeOk := by
    have hcons := liveEdges_cons ⟨eid, src, dst, labelId, eid⟩ r.edges
    rw [hcons]
    exact hstore
  nodup := by
    refine nodup_cons.mpr ⟨fun hmem => ?_, h.nodup⟩
    obtain ⟨e, he, hkey⟩ := mem_map.mp hmem
    exact hfresh e he hkey
  ids := by
    refine nodup_cons.mpr ⟨fun hmem => ?_, h.ids⟩
    obtain ⟨e, he, heid⟩ := mem_map.mp hmem
    have hold := h.issued e he
    rw [heid] at hold
    change eid.toNat < r.nextId at hold
    omega
  issued e he := by
    rcases mem_cons.mp he with rfl | he
    · exact Nat.lt_succ_self _
    · have hold := h.issued e he
      change e.eid.toNat < eid.toNat + 1
      omega
  batchIssued eid' heid' := by
    have hold := h.batchIssued eid' heid'
    change eid'.toNat < eid.toNat + 1
    omega
  created e he hbatch := by
    rcases mem_cons.mp he with rfl | he
    · rfl
    · exact h.created e he hbatch

lemma EdgeRun.Inv.skipId (h : r.Inv capacity) (hid : r.nextId ≤ eid.toNat) :
    EdgeRun.Inv capacity { r with nextId := eid.toNat + 1 } where
  storeOk := h.storeOk
  nodup := h.nodup
  ids := h.ids
  issued e he := by
    have hold := h.issued e he
    change e.eid.toNat < eid.toNat + 1
    omega
  batchIssued eid' heid' := by
    have hold := h.batchIssued eid' heid'
    change eid'.toNat < eid.toNat + 1
    omega
  created := h.created

lemma EdgeRun.Inv.batch (h : r.Inv capacity) {startEid : EdgeId}
    (hid : r.nextId ≤ startEid.toNat)
    (hfits : startEid.toNat + (batchEntries startEid records).length ≤ 2 ^ 64)
    (hlen : records.length ≤ 2 ^ 64)
    (hseqs : r.distinctSeqs capacity (.batch labelId startEid records)) :
    EdgeRun.Inv capacity {
      store := (exec (batchInsertEdges capacity defs labelId (batchEntries startEid records)) r.store).2
      edges := ((batchEntries startEid records).map fun entry => entry.ref labelId).reverse ++ r.edges
      batchIds := (batchEntries startEid records).map BatchEdgeEntry.eid ++ r.batchIds
      nextId := startEid.toNat + (batchEntries startEid records).length } := by
  have hseqNodup : ((batchEntries startEid records).map BatchEdgeEntry.seq).Nodup := by
    rw [batchEntries_seq]
    exact nodup_resolvedEntries_seq hlen
  have hkeys : ((batchEntries startEid records).map fun entry => (entry.ref labelId).key).Nodup := by
    have hcomp : ((batchEntries startEid records).map fun entry => (entry.ref labelId).key).map
        EdgeKey.seq = (batchEntries startEid records).map BatchEdgeEntry.seq := by
      rw [List.map_map]
      rfl
    rw [← hcomp] at hseqNodup
    exact hseqNodup.of_map
  have hfresh : ∀ entry ∈ batchEntries startEid records, ∀ e ∈ r.edges, e.key ≠ (entry.ref labelId).key := by
    intro entry hentry e he heq
    obtain ⟨entry', hentry', hsrc', hdst', hseq', -⟩ := mem_batchEntries hentry
    simp only [key, BatchEdgeEntry.ref, EdgeKey.mk.injEq] at heq
    obtain ⟨hlabel, hsrc, hdst, hseq⟩ := heq
    have hno := hseqs entry' hentry' e he (by simp [parallel, hsrc, hdst, hlabel, hsrc', hdst'])
    by_cases hbatch : e.eid ∈ r.batchIds
    · rw [if_pos hbatch] at hno
      exact hno (hseq.trans hseq'.symm)
    · rw [if_neg hbatch, ← h.created e he hbatch] at hno
      exact hno (hseq.trans hseq'.symm)
  have hnew : ∀ e ∈ ((batchEntries startEid records).map fun entry => entry.ref labelId).reverse,
      ∃ entry ∈ batchEntries startEid records, entry.ref labelId = e := by
    intro e he
    exact mem_map.mp (mem_reverse.mp he)
  refine ⟨storeOk_batchInsertEdges _ h.storeOk hkeys hfresh, ?_, ?_, ?_, ?_, ?_⟩
  · rw [map_append, map_reverse, List.map_map]
    refine nodup_append.mpr ⟨nodup_reverse.mpr hkeys, h.nodup, ?_⟩
    intro k hk k' hk' heq
    obtain ⟨entry, hentry, hkey⟩ := mem_map.mp (mem_reverse.mp hk)
    obtain ⟨e, he, hkey'⟩ := mem_map.mp hk'
    exact hfresh entry hentry e he (by rw [hkey', ← heq, ← hkey]; rfl)
  · rw [map_append, map_reverse, List.map_map]
    refine nodup_append.mpr ⟨nodup_reverse.mpr (nodup_batchEntries_eid hfits), h.ids, ?_⟩
    intro eid heid eid' heid' heq
    obtain ⟨entry, hentry, hid'⟩ := mem_map.mp (mem_reverse.mp heid)
    obtain ⟨e, he, rfl⟩ := mem_map.mp heid'
    have hlow := (batchEntries_eid_bounds hfits hentry).1
    have hold := h.issued e he
    have hsame : entry.eid = e.eid := hid'.trans heq
    rw [hsame] at hlow
    omega
  · intro e he
    rcases mem_append.mp he with he | he
    · obtain ⟨entry, hentry, rfl⟩ := hnew e he
      exact (batchEntries_eid_bounds hfits hentry).2
    · exact lt_of_lt_of_le (h.issued e he) (le_trans hid (Nat.le_add_right _ _))
  · intro eid heid
    rcases mem_append.mp heid with heid | heid
    · obtain ⟨entry, hentry, rfl⟩ := mem_map.mp heid
      exact (batchEntries_eid_bounds hfits hentry).2
    · exact lt_of_lt_of_le (h.batchIssued eid heid) (le_trans hid (Nat.le_add_right _ _))
  · intro e he hbatch
    rw [mem_append, not_or] at hbatch
    rcases mem_append.mp he with he | he
    · obtain ⟨entry, hentry, rfl⟩ := hnew e he
      exact absurd (mem_map.mpr ⟨entry, hentry, rfl⟩) hbatch.1
    · exact h.created e he hbatch.2

/-- A statement that completed has left the outcome's store. -/
theorem EdgeRun.completed_eq {edges : List EdgeRef} {out : Except String Unit × Store}
    {r' : EdgeRun} (h : r.completed edges out = some r') :
    out.1 = .ok () ∧ r' = { r with store := out.2, edges := edges } := by
  unfold completed at h
  split at h
  · rename_i hok
    rw [some.injEq] at h
    exact ⟨hok, h.symm⟩
  · exact absurd h (by simp)

lemma EdgeRun.inv_step {r' : EdgeRun} {a : EdgeAction} (h : r.Inv capacity)
    (hseqs : r.distinctSeqs capacity a) (hstep : r.step capacity defs a = some r') :
    r'.Inv capacity := by
  cases a with
  | insertVertex vid labelProps =>
    rw [step, ite_none_right_eq_some, some.injEq] at hstep
    obtain ⟨-, rfl⟩ := hstep
    exact h.sameEdges (h.storeOk.insertVertex (hseqs.imp_right detached_liveEdges) labelProps)
  | create eid src dst labelId props =>
    rw [step, ite_none_right_eq_some, some.injEq] at hstep
    obtain ⟨⟨hid, -⟩, rfl⟩ := hstep
    have hfresh := h.fresh_key hid hseqs
    have hstore := storeOk_createEdge defs h.storeOk (liveEdges_eq_none.mpr hfresh) props
    cases hok : (exec (createEdge capacity defs eid src dst labelId props) r.store).1 with
    | false =>
      rw [hok] at hstore
      simp only [Bool.false_eq_true, if_false] at hstore ⊢
      exact (h.skipId hid).sameEdges hstore
    | true =>
      rw [hok] at hstore
      simp only [if_true] at hstore ⊢
      exact h.cons hid hfresh hstore
  | merge eid src dst labelId props =>
    rw [step, ite_none_right_eq_some, some.injEq] at hstep
    obtain ⟨⟨hid, -⟩, rfl⟩ := hstep
    have hfresh := h.fresh_key hid hseqs
    exact h.cons hid hfresh (storeOk_mergeCreateEdge h.storeOk (liveEdges_eq_none.mpr hfresh) props)
  | batch labelId startEid records =>
    simp only [step, ite_none_right_eq_some, some.injEq] at hstep
    obtain ⟨⟨hid, hfits, hlen, -⟩, rfl⟩ := hstep
    exact h.batch hid hfits hlen hseqs
  | setProperty e pid value =>
    rw [step, ite_none_right_eq_some] at hstep
    obtain ⟨-, rfl⟩ := completed_eq hstep.2
    exact h.sameEdges (storeOk_of_propertyRows h.storeOk (writesOnly_setEdgeProperty _ _ _ _ _ _))
  | removeProperty e pid =>
    rw [step, ite_none_right_eq_some] at hstep
    obtain ⟨-, rfl⟩ := completed_eq hstep.2
    exact h.sameEdges (storeOk_of_propertyRows h.storeOk (writesOnly_removeEdgeProperty _ _ _ _ _))
  | delete e =>
    rw [step, ite_none_right_eq_some] at hstep
    obtain ⟨hlive, hstep⟩ := hstep
    obtain ⟨hok, rfl⟩ := completed_eq hstep
    have hsome := (liveEdges_eq_some h.nodup).mpr ⟨e, hlive, rfl, rfl⟩
    refine h.filter _ ?_
    rw [liveEdges_filter_ne]
    exact storeOk_deleteEdgeEntity h.storeOk (by rw [hsome]; rfl) hok
  | detachDelete vid =>
    rw [step, some.injEq] at hstep
    subst hstep
    exact h.filter _ (storeOk_detachDelete h.storeOk h.nodup vid)
  | backfill labelId propIds unique =>
    rw [step] at hstep
    obtain ⟨-, rfl⟩ := completed_eq hstep
    exact h.sameEdges (storeOk_of_propertyRows h.storeOk
      (writesOnly_backfillEdgeIndex (fun _ => inl ⟨_, _, rfl⟩) unique _))

end Steps

/-! ### Parallel edges -/

/-- The row of an edge on its side in one direction. -/
def adjacencyKey (e : EdgeRef) (direction : Direction) : EdgeIndexKey :=
  if direction = .IN then e.inKey else e.outKey

/-- Live edges have keys of their own in every key space, and the row under each of them
holds the id of its edge. -/
structure EdgeRun.NoCollision (capacity : UInt32) (r : EdgeRun) : Prop where
  type_keys : ∀ e ∈ r.edges, ∀ e' ∈ r.edges, e.labelId = e'.labelId →
    encodeEdgeTypeIndexKey e.typeKey = encodeEdgeTypeIndexKey e'.typeKey → e = e'
  adjacency_keys : ∀ direction, direction ≠ .BOTH → ∀ e ∈ r.edges, ∀ e' ∈ r.edges,
    encodeVertexDataAdjEdgeKey (adjacencyKey e direction) =
      encodeVertexDataAdjEdgeKey (adjacencyKey e' direction) → e = e'
  index_keys : ∀ direction, direction ≠ .BOTH → ∀ e ∈ r.edges, ∀ e' ∈ r.edges,
    encodeEdgeIndexKey (adjacencyKey e direction) =
      encodeEdgeIndexKey (adjacencyKey e' direction) → e = e'
  type_row : ∀ e ∈ r.edges, r.store.get (.etypeTable e.labelId)
    (encodeEdgeTypeIndexKey e.typeKey) = some (encodeU64 e.eid)
  adjacency_rows : ∀ direction, direction ≠ .BOTH → ∀ e ∈ r.edges,
    (⟨e.far direction, e.labelId, e.seq, e.eid⟩ : DataStore.EdgeIndexEntry) ∈
      (exec (scanEdges capacity (e.near direction) direction none) r.store).1

lemma key_eq_of_adjacencyKey {e e' : EdgeRef} {direction : Direction}
    (h : suffixOf (adjacencyKey e direction) = suffixOf (adjacencyKey e' direction))
    (hvid : (adjacencyKey e direction).vertexId = (adjacencyKey e' direction).vertexId) :
    e.key = e'.key := by
  unfold adjacencyKey at h hvid
  by_cases hin : direction = .IN
  · simp only [hin, if_true, suffixOf, inKey, adjacencySuffix_inj] at h hvid
    simp [key, h, hvid]
  · simp only [hin, if_false, suffixOf, outKey, adjacencySuffix_inj] at h hvid
    simp [key, h, hvid]

lemma EdgeRun.Inv.noCollision {capacity : UInt32} {r : EdgeRun} (h : r.Inv capacity) : r.NoCollision capacity := by
  have hinj : ∀ e ∈ r.edges, ∀ e' ∈ r.edges, e.key = e'.key → e = e' :=
    fun e he e' he' heq => inj_on_of_nodup_map h.nodup he he' heq
  constructor
  · intro e he e' he' hlabel hkey
    rw [encodeEdgeTypeIndexKey_inj] at hkey
    simp only [typeKey, EdgeTypeIndexKey.mk.injEq] at hkey
    exact hinj e he e' he' (by simp [key, hlabel, hkey])
  · intro direction _ e he e' he' hkey
    rw [encodeVertexDataAdjEdgeKey, encodeVertexDataAdjEdgeKey, sectionKey_inj] at hkey
    exact hinj e he e' he' (key_eq_of_adjacencyKey hkey.2.2 hkey.1)
  · intro direction _ e he e' he' hkey
    rw [encodeEdgeIndexKey, encodeEdgeIndexKey, sectionKey_inj] at hkey
    exact hinj e he e' he' (key_eq_of_adjacencyKey hkey.2.2 hkey.1)
  · intro e he
    have hlive := (liveEdges_eq_some h.nodup).mpr ⟨e, he, rfl, rfl⟩
    rw [h.storeOk.types, typeRows_encode]
    change (liveEdges r.edges e.key).map encodeU64 = _
    rw [hlive]
    rfl
  · intro direction hdir e he
    rw [(h.storeOk.scanEdges_perm h.nodup (e.near direction) hdir none).1.mem_iff]
    exact mem_map.mpr ⟨e, mem_filter.mpr ⟨he, by simp [passesFilter]⟩, rfl⟩

/-- In every run whose writers pick distinct `seq`s for parallel edges, no two live edges
ever collide. -/
theorem parallelEdges_noCollision (capacity : UInt32) (defs : EdgeLabelDefs) (r : EdgeRun)
    (hrun : Reaches (step capacity defs) (distinctSeqs capacity) start r) :
    r.NoCollision capacity :=
  (hrun.invariant (EdgeRun.Inv capacity) (inv_start capacity)
    fun _ _ _ h hseqs hstep => inv_step h hseqs hstep).noCollision

/-- One edge from vertex `1` to vertex `2`. -/
def oneRecord : List ResolvedEdge := [⟨some 1, some 2, []⟩]

/-- A batch at position `0`, then edges of `CREATE` and `MERGE`, all parallel. -/
def mixedWriters : List EdgeAction :=
  [.batch 1 1 oneRecord, .create 2 1 2 1 [], .merge 3 1 2 1 []]

theorem parallelEdges_noCollision_mixedWriters :
    ∃ r, runGuarded (step 4 fun _ => none) (distinctSeqs 4) start
      mixedWriters = some r ∧ r.NoCollision 4 := by
  have hsome : (runGuarded (step 4 fun _ => none) (distinctSeqs 4) start mixedWriters).isSome := by decide +kernel
  obtain ⟨r, hr⟩ := isSome_iff_exists.mp hsome
  exact ⟨r, hr, parallelEdges_noCollision 4 _ r (reaches_of_runGuarded mixedWriters hr)⟩

/-- Two batches with a parallel edge at position `0`: the second overwrites the first. -/
theorem twoBatches_collide :
    ∃ r, Reaches (step 0 fun _ => none) (fun _ _ => True) start r ∧ r.edges = [⟨2, 1, 2, 1, 0⟩, ⟨1, 1, 2, 1, 0⟩] ∧
      r.store.get (.etypeTable 1) (encodeEdgeTypeIndexKey ⟨1, 2, 0⟩) = some (encodeU64 2) ∧ ¬ r.NoCollision 0 := by
  have hrun : (runGuarded (step 0 fun _ => none) (fun _ _ => True) start
      [.batch 1 1 oneRecord, .batch 1 2 oneRecord]).map (fun r => (r.edges,
        r.store.get (.etypeTable 1) (encodeEdgeTypeIndexKey ⟨1, 2, 0⟩))) =
      some ([⟨2, 1, 2, 1, 0⟩, ⟨1, 1, 2, 1, 0⟩], some (encodeU64 2)) := by
    decide +kernel
  obtain ⟨r, hr, heq⟩ := map_eq_some_iff.mp hrun
  obtain ⟨hedges, hrow⟩ := Prod.mk.inj heq
  refine ⟨r, reaches_of_runGuarded _ hr, hedges, hrow, fun hno => ?_⟩
  have hsame := hno.type_keys ⟨2, 1, 2, 1, 0⟩ (by simp [hedges]) ⟨1, 1, 2, 1, 0⟩ (by simp [hedges])
    rfl rfl
  exact absurd hsame (by decide)

end Eugraph.Query
