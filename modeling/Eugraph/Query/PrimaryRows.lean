import Eugraph.Query.IndexDdl
import Eugraph.Storage.ReadPaths

/-!
# Primary rows agree

A label of a vertex is a row of the vertex and a row of the label's forward table; an edge
is a row of its type and a row of either endpoint's side.  The two rows of a label are
always written and deleted together.  The rows of an edge agree in runs that delete
vertices without cached edges and insert none over rows in `edge_index`.
-/

namespace Eugraph.DataStore

open Lib Lib.Program Wt KeyCodec Query List Option Store ValueCodec Or

/-! ### Labels -/

/-- The label's forward table lists the vertex. -/
def listed (s : Store) (labelId : LabelId) (vid : VertexId) : Prop :=
  (s.get (.labelFwdTable labelId) (encodeLabelForwardKey vid)).isSome

structure LabelRowsOk (s : Store) : Prop where
  both : ∀ vid labelId, hasLabel s vid labelId ↔ listed s labelId vid
  keys : ∀ labelId key, (s.get (.labelFwdTable labelId) key).isSome →
    ∃ vid, key = encodeLabelForwardKey vid

/-- The rows `LabelRowsOk` looks at. -/
def labelRow (table : TableName) (key : Bytes) : Prop :=
  (∃ labelId, table = .labelFwdTable labelId) ∨
    ∃ vid labelId, table = .vertexData ∧ key = encodeVertexDataLabelKey vid labelId

section LabelRows

variable {s s' : Store} (vid : VertexId) (labelId : LabelId)

@[simp] lemma encodeLabelForwardKey_inj {vid vid' : VertexId} :
    encodeLabelForwardKey vid = encodeLabelForwardKey vid' ↔ vid = vid' := IndexKeyCodec.u64BE_inj

@[simp] lemma decodeLabelForwardKey_encode : decodeLabelForwardKey (encodeLabelForwardKey vid) = vid := by
  have hdecode := decodeU64BE_append [] [] vid rfl
  rwa [append_nil] at hdecode

lemma encodeVertexDataLabelKey_inj {vid vid' : VertexId} {labelId labelId' : LabelId} :
    encodeVertexDataLabelKey vid labelId = encodeVertexDataLabelKey vid' labelId' ↔
      vid = vid' ∧ labelId = labelId' := by
  rw [encodeVertexDataLabelKey, encodeVertexDataLabelKey, sectionKey_inj, u16BE_inj]
  simp

lemma LabelRowsOk.frame (h : LabelRowsOk s)
    (hchanges : ChangesOnly s s' fun table key => ¬ labelRow table key) : LabelRowsOk s' := by
  have hdata : ∀ vid labelId, s'.get .vertexData (encodeVertexDataLabelKey vid labelId) =
      s.get .vertexData (encodeVertexDataLabelKey vid labelId) :=
    fun vid labelId => hchanges _ _ fun hno => hno (inr ⟨vid, labelId, rfl, rfl⟩)
  have hforward : ∀ labelId key, s'.get (.labelFwdTable labelId) key = s.get (.labelFwdTable labelId) key :=
    fun labelId key => hchanges _ _ fun hno => hno (inl ⟨labelId, rfl⟩)
  refine ⟨fun vid labelId => ?_, fun labelId key hsome => ?_⟩
  · rw [hasLabel, listed, hdata, hforward]
    exact h.both vid labelId
  · rw [hforward] at hsome
    exact h.keys labelId key hsome

/-- The two rows of a label change together. -/
theorem LabelRowsOk.of_pair (h : LabelRowsOk s) {s' : Store} (row : Option Bytes)
    (hdata : ∀ key, s'.get .vertexData key =
      if key = encodeVertexDataLabelKey vid labelId then row else s.get .vertexData key)
    (hforward : ∀ labelId' key, s'.get (.labelFwdTable labelId') key =
      if labelId' = labelId ∧ key = encodeLabelForwardKey vid then row
      else s.get (.labelFwdTable labelId') key) : LabelRowsOk s' := by
  refine ⟨fun vid' labelId' => ?_, fun labelId' key hsome => ?_⟩
  · have hboth := h.both vid' labelId'
    unfold hasLabel listed at hboth ⊢
    simp only [hdata, hforward, encodeLabelForwardKey_inj, encodeVertexDataLabelKey_inj]
    by_cases hsame : vid' = vid ∧ labelId' = labelId
    · simp [hsame]
    · rw [if_neg hsame, if_neg fun hother => hsame ⟨hother.2, hother.1⟩]
      exact hboth
  · rw [hforward] at hsome
    split at hsome
    next hkey => exact ⟨vid, hkey.2⟩
    next => exact h.keys labelId' key hsome

lemma LabelRowsOk.put_pair (h : LabelRowsOk s) :
    LabelRowsOk ((s.put .vertexData (encodeVertexDataLabelKey vid labelId) []).put
      (.labelFwdTable labelId) (encodeLabelForwardKey vid) []) :=
  h.of_pair vid labelId (some []) (fun key => by simp [put_get]) fun labelId' key => by simp [put_get]

lemma LabelRowsOk.del_pair (h : LabelRowsOk s) :
    LabelRowsOk ((s.del .vertexData (encodeVertexDataLabelKey vid labelId)).del
      (.labelFwdTable labelId) (encodeLabelForwardKey vid)) :=
  h.of_pair vid labelId none (fun key => by simp [del_get]) fun labelId' key => by simp [del_get]

lemma labelRows_frame {α : Type} {p : StoreM α}
    (hp : WritesOnly (fun table key => ¬ labelRow table key) p) : Keeps LabelRowsOk p :=
  .of_writesOnly hp fun _ _ hchanges h => h.frame hchanges

/-- A row of another section of a vertex is no label row. -/
theorem not_labelRow_section {sec : UInt8} (hsec : sec ≠ VertexDataKind.LABEL.byte) (rest : Bytes) :
    ¬ labelRow .vertexData (sectionKey vid sec rest) := by
  rintro (⟨l, htable⟩ | ⟨vid', l, -, hkey⟩)
  · cases htable
  · exact hsec (sectionKey_inj.mp hkey).2.1

lemma not_labelRow_table {table : TableName} (hforward : ∀ l, table ≠ .labelFwdTable l)
    (hdata : table ≠ .vertexData) (key : Bytes) : ¬ labelRow table key := by
  rintro (⟨l, htable⟩ | ⟨vid', l, htable, -⟩)
  · exact hforward l htable
  · exact hdata htable

lemma not_labelRow_property {key : Bytes} (h : encodeVertexDataLabelPropPrefix vid labelId <+: key) :
    ¬ labelRow .vertexData key := by
  obtain ⟨more, rfl⟩ := h
  rw [encodeVertexDataLabelPropPrefix, sectionKey_append]
  exact not_labelRow_section vid (by decide) _

lemma labelRows_keptBySides : KeptBySides LabelRowsOk := by
  have hkind : ∀ direction, (adjacencyKind direction).byte ≠ VertexDataKind.LABEL.byte := by
    intro direction
    cases direction <;> decide
  have hindex : ∀ key, ¬ labelRow .edgeIndex key := not_labelRow_table (by simp) (by simp)
  exact ⟨fun _ vid direction rest value =>
      labelRows_frame (.put _ (not_labelRow_section vid (hkind direction) rest) value),
    fun _ vid direction rest => labelRows_frame (.del _ (not_labelRow_section vid (hkind direction) rest)),
    fun _ key value => labelRows_frame (.put _ (hindex key) value),
    fun _ key => labelRows_frame (.del _ (hindex key))⟩

lemma labelRows_keptByTables : KeptByTables LabelRowsOk := by
  refine fun hp => labelRows_frame (hp.mono fun table key h => ?_)
  rintro (⟨l, rfl⟩ | ⟨vid', l, rfl, -⟩)
  · rcases h with ⟨l', htable⟩ | ⟨l', htable⟩ | hindex
    · cases htable
    · cases htable
    · cases hindex
  · exact h.not_sideTable.1 rfl

/-! Operations on one vertex. -/

lemma writesNoLabel_insertProperty (slot : PropId × PropertyValue) :
    WritesOnly (fun table key => ¬ labelRow table key) (insertProperty vid labelId slot) :=
  .put _ (not_labelRow_section vid (by decide) _) _

lemma writesNoLabel_summary : ∀ key, ¬ labelRow .vertexSummary key := not_labelRow_table (by simp) (by simp)

lemma labelRows_putLabel {q : StoreM Bool} (hq : Keeps LabelRowsOk q) : Keeps LabelRowsOk
    (andThen (tablePut .session .vertexData (encodeVertexDataLabelKey vid labelId) []) <|
      andThen (tablePut .session (.labelFwdTable labelId) (encodeLabelForwardKey vid) []) q) := by
  intro s h
  rw [exec_andThen_put, exec_andThen_put]
  exact hq _ (h.put_pair vid labelId)

lemma labelRows_insertLabelGroup (group : LabelId × Properties) :
    Keeps LabelRowsOk (insertLabelGroup vid group) := by
  refine .ite (.pure true) (labelRows_putLabel vid group.1 (labelRows_frame ?_))
  exact .allOf fun slot _ => writesNoLabel_insertProperty vid group.1 slot

lemma labelRows_insertVertex (capacity : UInt32) (labelProps : LabelProps) :
    Keeps LabelRowsOk (insertVertex capacity vid labelProps) := by
  refine .andThen (labelRows_frame (.put _ (not_labelRow_table (by simp) (by simp) _) _))
    (.andThen (.ite (.allOf (fun direction => labelRows_keptBySides.put _ vid direction [] _) _) (.pure true))
      (.andThen (.allOf (labelRows_insertLabelGroup vid) _) (labelRows_frame ?_)))
  refine .bind (.get _ _ _) fun found => .ite (.del _ (writesNoLabel_summary _)) ?_
  exact .ite (.pure true) (.put _ (writesNoLabel_summary _) _)

lemma labelRows_deleteLabelRows : Keeps LabelRowsOk (deleteLabelRows vid labelId) := by
  intro s h
  rw [deleteLabelRows, exec_bind, exec_tableDel, exec_bind, exec_tableDel]
  exact labelRows_frame (writesOnly_deleteUnder _ fun key hkey => not_labelRow_property vid labelId hkey)
    _ (h.del_pair vid labelId)

/-- What is left of the label rows of a vertex when one label goes. -/
theorem hasLabel_deleteLabelRows (s : Store) (vid' : VertexId) (labelId' : LabelId) :
    hasLabel (exec (deleteLabelRows vid labelId) s).2 vid' labelId' ↔
      hasLabel s vid' labelId' ∧ ¬ (vid' = vid ∧ labelId' = labelId) := by
  have hother : ¬ encodeVertexDataLabelPropPrefix vid labelId <+: encodeVertexDataLabelKey vid' labelId' := by
    rw [encodeVertexDataLabelPropPrefix, encodeVertexDataLabelKey, sectionKey_isPrefix_iff]
    exact fun hpre => absurd hpre.2.1 (by decide)
  rw [deleteLabelRows, exec_bind, exec_tableDel, exec_bind, exec_tableDel, hasLabel, hasLabel,
    exec_deleteUnder_get, if_neg fun hpre => hother hpre.2,
    del_get_of_ne _ _ _ _ _ (inl (by simp)), del_get]
  simp only [true_and, encodeVertexDataLabelKey_inj]
  split
  · rename_i hsame
    simp [hsame]
  · rename_i hsame
    simp [hsame]

lemma hasLabel_deleteLoop (labels : List LabelId) (s : Store) (vid' : VertexId) (labelId' : LabelId) :
    hasLabel (exec (forEach (deleteLabelRows vid) labels) s).2 vid' labelId' ↔
      hasLabel s vid' labelId' ∧ ¬ (vid' = vid ∧ labelId' ∈ labels) := by
  induction labels generalizing s with
  | nil => simp [forEach]
  | cons l rest ih =>
    rw [forEach, exec_bind, ih, hasLabel_deleteLabelRows, mem_cons]
    tauto

lemma mem_getVertexLabels (h : VertexRowsOk s) :
    labelId ∈ (exec (getVertexLabels vid) s).1 ↔ hasLabel s vid labelId := by
  rw [getVertexLabels, exec_bind, exec_tableScan, exec_pure]
  exact mem_labelRows h labelId

/-- What is left of a vertex without labels can go. -/
theorem LabelRowsOk.deleteUnder_vertex (h : LabelRowsOk s) (hnone : ∀ l, ¬ hasLabel s vid l) :
    LabelRowsOk (exec (deleteUnder .session .vertexData (encodeVertexDataVertexPrefix vid)) s).2 := by
  refine ⟨fun vid' labelId' => ?_, fun labelId' key hsome => ?_⟩
  · have hboth := h.both vid' labelId'
    have hlabel := hnone labelId'
    unfold hasLabel listed at hboth ⊢
    unfold hasLabel at hlabel
    simp only [exec_deleteUnder_get, encodeVertexDataLabelKey, vertexPrefix_isPrefix_sectionKey,
      true_and, reduceCtorEq, false_and, if_false] at hlabel hboth ⊢
    split
    · rename_i hsame
      rw [hsame] at hlabel
      rw [← hboth]
      simp [hlabel]
    · exact hboth
  · rw [exec_deleteUnder_get, if_neg fun hpre => by cases hpre.1] at hsome
    exact h.keys labelId' key hsome

/-- `deleteVertex` reads the labels, deletes their rows and then what is left of the vertex. -/
theorem labelRows_deleteVertex (hrows : VertexRowsOk s) (h : LabelRowsOk s) :
    LabelRowsOk (exec (deleteVertex vid) s).2 := by
  have hread : (exec (getVertexLabels vid) s).2 = s := rfl
  rw [deleteVertex, exec_bind, hread, exec_bind, exec_bind]
  have hloop := Keeps.forEach (fun l => labelRows_deleteLabelRows vid l) (exec (getVertexLabels vid) s).1 s h
  have hgone : ∀ l,
      ¬ hasLabel (exec (forEach (deleteLabelRows vid) (exec (getVertexLabels vid) s).1) s).2 vid l := by
    intro l hl
    rw [hasLabel_deleteLoop] at hl
    exact hl.2 ⟨rfl, (mem_getVertexLabels vid l hrows).mpr hl.1⟩
  refine labelRows_frame (.bind (.del _ (not_labelRow_table (by simp) (by simp) _)) fun _ => ?_) _
    (hloop.deleteUnder_vertex vid hgone)
  exact .bind (.del _ (writesNoLabel_summary _)) fun _ => .pure true

/-- One round of the loop of `dropLabel`. -/
def dropLabelRow (labelId : LabelId) (row : Record) : StoreM Bool := do
  let vid := decodeLabelForwardKey row.1
  let _ ← tableDel .raw .vertexData (encodeVertexDataLabelKey vid labelId)
  deleteUnder .raw .vertexData (encodeVertexDataLabelPropPrefix vid labelId)
  tableDel .raw .vertexSummary (encodeVertexSummaryKey vid)

lemma hasLabel_dropLoop (rows : List Record) (s : Store) (vid' : VertexId) (labelId' : LabelId) :
    (hasLabel (exec (forEach (dropLabelRow labelId) rows) s).2 vid' labelId' ↔ hasLabel s vid' labelId' ∧
        ¬ (labelId' = labelId ∧ ∃ row ∈ rows, decodeLabelForwardKey row.1 = vid')) ∧
    ∀ l key, (exec (forEach (dropLabelRow labelId) rows) s).2.get (.labelFwdTable l) key =
      s.get (.labelFwdTable l) key := by
  induction rows generalizing s with
  | nil => exact ⟨by simp [forEach], fun _ _ => rfl⟩
  | cons row rest ih =>
    have hother : ¬ encodeVertexDataLabelPropPrefix (decodeLabelForwardKey row.1) labelId <+:
        encodeVertexDataLabelKey vid' labelId' := by
      rw [encodeVertexDataLabelPropPrefix, encodeVertexDataLabelKey, sectionKey_isPrefix_iff]
      exact fun hpre => absurd hpre.2.1 (by decide)
    have hrow : hasLabel (exec (dropLabelRow labelId row) s).2 vid' labelId' ↔
        hasLabel s vid' labelId' ∧ ¬ (decodeLabelForwardKey row.1 = vid' ∧ labelId' = labelId) := by
      simp only [dropLabelRow, exec_bind, exec_tableDel, hasLabel]
      rw [del_get_of_ne _ _ _ _ _ (inl (by simp)), exec_deleteUnder_get,
        if_neg fun hpre => hother hpre.2, del_get]
      simp only [true_and, encodeVertexDataLabelKey_inj]
      split
      · rename_i hsame
        simp [hsame]
      · rename_i hsame
        exact (and_iff_left fun heq => hsame ⟨heq.1.symm, heq.2⟩).symm
    have hforward : ∀ l key, (exec (dropLabelRow labelId row) s).2.get (.labelFwdTable l) key =
        s.get (.labelFwdTable l) key := by
      intro l key
      simp only [dropLabelRow, exec_bind, exec_tableDel]
      rw [del_get_of_ne _ _ _ _ _ (inl (by simp)), exec_deleteUnder_get, if_neg (by simp),
        del_get_of_ne _ _ _ _ _ (inl (by simp))]
    rw [forEach, exec_bind]
    refine ⟨?_, fun l key => ?_⟩
    · rw [(ih _).1, hrow]
      rw [exists_mem_cons_iff]
      by_cases hl : labelId' = labelId
      · simp [hl, not_or, and_assoc]
      · simp [hl]
    · rw [(ih _).2, hforward]

/-- `dropLabel` deletes the label row of every vertex its table lists, and then the table. -/
theorem labelRows_dropLabel : Keeps LabelRowsOk (dropLabel labelId) := by
  intro s h
  have hexec : (exec (dropLabel labelId) s).2 = (exec (forEach (dropLabelRow labelId)
      (prefixRecords (s (.labelFwdTable labelId)) [])) s).2.clear (.labelFwdTable labelId) := by
    rw [dropLabel, exec_bind, exec_tableScan, exec_bind, exec_dropTable]
    rfl
  have hloop := hasLabel_dropLoop labelId (prefixRecords (s (.labelFwdTable labelId)) []) s
  rw [hexec]
  refine ⟨fun vid' labelId' => ?_, fun labelId' key hsome => ?_⟩
  · have hafter : hasLabel ((exec (forEach (dropLabelRow labelId)
        (prefixRecords (s (.labelFwdTable labelId)) [])) s).2.clear (.labelFwdTable labelId)) vid' labelId' ↔
          hasLabel s vid' labelId' ∧ ¬ (labelId' = labelId ∧ ∃ row ∈
            prefixRecords (s (.labelFwdTable labelId)) [], decodeLabelForwardKey row.1 = vid') := by
      rw [← (hloop vid' labelId').1, hasLabel, clear_get, if_neg (by simp)]
      rfl
    rw [hafter, listed, clear_get]
    by_cases hsame : labelId' = labelId
    · subst hsame
      simp only [if_true, true_and, isSome_none, Bool.false_eq_true, iff_false, not_and, not_not]
      intro hlabel
      obtain ⟨value, hget⟩ := isSome_iff_exists.mp ((h.both vid' labelId').mp hlabel)
      exact ⟨_, (mem_prefixRecords _ _ _ _).mpr ⟨ nil_prefix, hget⟩, decodeLabelForwardKey_encode vid'⟩
    · rw [if_neg (by simp [hsame]), (hloop vid' labelId').2, h.both]
      simp [hsame, listed]
  · rw [clear_get] at hsome
    split at hsome
    · cases hsome
    · rw [(hloop 0 0).2] at hsome
      exact h.keys labelId' key hsome

lemma labelRows_vertexAction (capacity : UInt32) (a : VertexAction) (hrows : VertexRowsOk s)
    (h : LabelRowsOk s) : LabelRowsOk (exec (a.program capacity) s).2 := by
  have hsummary : ∀ vid, Keeps LabelRowsOk (tableDel .session .vertexSummary (encodeVertexSummaryKey vid)) :=
    fun vid => labelRows_frame (.del _ (writesNoLabel_summary _))
  cases a with
  | insertVertex vid labelProps => exact labelRows_insertVertex vid capacity labelProps s h
  | deleteVertex vid => exact labelRows_deleteVertex vid hrows h
  | putVertexProperty vid labelId propId value =>
    exact Keeps.andThen (labelRows_frame (writesNoLabel_insertProperty vid labelId _)) (hsummary vid) s h
  | putVertexProperties vid labelId props =>
    exact Keeps.andThen (labelRows_frame (.allOf fun slot _ =>
      writesNoLabel_insertProperty vid labelId slot)) (hsummary vid) s h
  | deleteVertexProperty vid labelId propId =>
    exact Keeps.andThen (labelRows_frame (.del _ (not_labelRow_section vid (by decide) _)))
      (hsummary vid) s h
  | addVertexLabel vid labelId => exact labelRows_putLabel vid labelId (hsummary vid) s h
  | removeVertexLabel vid labelId =>
    exact Keeps.bind (labelRows_deleteLabelRows vid labelId) (fun _ => .bind (hsummary vid) fun _ => .pure true) s h
  | dropLabel labelId => exact labelRows_dropLabel labelId s h

end LabelRows

/-! ### Edges -/

/-- Vertices are deleted when they have no cached edge, and inserted, with the cache, when
`edge_index` has none of their rows. -/
def edgesKept (capacity : UInt32) (s : Store) : StoreAction → Prop
  | .vertex (.insertVertex vid _) =>
    capacity = 0 ∨ ∀ sec rest, s.get .edgeIndex (sectionKey vid sec rest) = none
  | .vertex (.deleteVertex vid) => ∀ direction rest, rest ≠ [] →
      s.get .vertexData (sectionKey vid (adjacencyKind direction).byte rest) = none
  | _ => True

section EdgeRows

variable {capacity : UInt32} {s : Store} {live : LiveEdges} {vid : VertexId}

/-- A vertex without cached rows keeps what its sides show. -/
theorem shown_deleteVertex {direction : Direction} {rows : Bytes → Option Bytes}
    (hcached : ∀ rest, (cachedRows s vid direction).get rest = none)
    (h : SideShown capacity s vid direction rows) :
    SideShown capacity (exec (deleteVertex vid) s).2 vid direction rows := by
  obtain ⟨hshows, hrows, -⟩ := h
  obtain ⟨hstate, hgone, hindex⟩ := sides_deleteVertex vid s direction
  refine ⟨.of_indexed (by simp [hstate]) hgone fun rest => ?_, hrows, fun _ => hstate⟩
  rw [hindex]
  by_cases hcomplete : ∃ count, sideState s vid direction = some (.COMPLETE, count)
  · obtain ⟨count, hcount⟩ := hcomplete
    rw [(hshows.complete hcount).2, ← (hshows.complete hcount).1, hcached]
  · exact (hshows.indexed fun count heq => hcomplete ⟨count, heq⟩).2 rest

lemma shownEdges_vertexAction (h : StoreHolds (shown capacity) s live) (a : VertexAction)
    (hguard : edgesKept capacity s (.vertex a)) :
    StoreHolds (shown capacity) (exec (a.program capacity) s).2 live := by
  induction a using vertexAction_cases with
  | hinsert vid labelProps =>
    refine h.insertVertex ?_ labelProps
    by_cases hcap : capacity = 0
    · exact inl hcap
    · right
      intro s' direction _ hindex hs'
      refine shown_init hcap (fun rest => ?_) hs'
      rw [hindex]
      exact hguard.resolve_left hcap _ rest
  | hdelete vid =>
    refine h.deleteVertex fun direction _ hside => shown_deleteVertex (fun rest => ?_) hside
    rw [get_cachedRows]
    split
    · rfl
    · rename_i hrest
      exact hguard direction rest hrest
  | hrows a hrows => exact h.vertexRows (hrows capacity s)

lemma shownEdges_step (h : StoreHolds (shown capacity) s live) {a : StoreAction}
    (hguard : edgesKept capacity s a) (hends : a.ends = true) :
    ∃ live', StoreHolds (shown capacity) (exec (a.program capacity) s).2 live' := by
  have hother : ∀ {p : StoreM Bool}, WritesOnly (fun table _ =>
      (∃ labelId, table = .epropTable labelId) ∨ isIndexTable table = true) p →
        StoreHolds (shown capacity) (exec p s).2 live := by
    intro p hp
    refine h.frame (hp s) (fun table key hkey vid direction => ?_) fun labelId key hkey => ?_
    · have htable : edgeTableRow table key := inr hkey
      exact not_sideRow htable.not_sideTable.1 htable.not_sideTable.2
    · rcases hkey with ⟨l, htable⟩ | hindex
      · cases htable
      · cases hindex
  cases a with
  | vertex a => exact ⟨live, shownEdges_vertexAction h a hguard⟩
  | insertEdge e props => exact ⟨_, (h.insertEdge (rowSetter_insert_shown _ e.eid) props).2⟩
  | deleteEdge e => exact ⟨_, (h.deleteEdge (rowSetter_delete_shown _)).2⟩
  | putEdgeProperty labelId eid propId value => exact ⟨live, hother (.put _ (inl ⟨_, rfl⟩) _)⟩
  | deleteEdgeProperty labelId eid propId => exact ⟨live, hother (.del _ (inl ⟨_, rfl⟩))⟩
  | dropEdgeLabel labelId => exact ⟨_, (h.dropEdgeLabel labelId fun _ _ => rowSetter_drop_shown _).2⟩
  | insertIndexEntry table values entityId payload => exact ⟨live, hother (.put _ (inr hends) _)⟩
  | deleteIndexEntry table values entityId => exact ⟨live, hother (.del _ (inr hends))⟩
  | dropIndex table => exact ⟨live, hother (.drop fun _ => inr hends)⟩

lemma shownEdges_empty : StoreHolds (shown capacity) empty fun _ => none := by
  refine ⟨fun vid direction _ => ⟨?_, wellFormedRows_sideRows _ _ _, fun _ => rfl⟩, fun labelId key => ?_⟩
  · refine .of_indexed (by intro count; simp [sideState, empty, Store.get]) (fun rest => rfl) fun rest => ?_
    simp [sideRows]
    rfl
  · simp [typeRows]
    rfl

lemma shownEdges_reached (h : Reaches (storeStep capacity) (edgesKept capacity) empty s) :
    ∃ live, StoreHolds (shown capacity) s live := by
  refine h.invariant (fun s => ∃ live, StoreHolds (shown capacity) s live) ⟨_, shownEdges_empty⟩
    fun s a s' hok hguard hstep => ?_
  obtain ⟨live, hlive⟩ := hok
  unfold storeStep at hstep
  split at hstep
  · rename_i hends
    rw [← Option.some.inj hstep]
    exact shownEdges_step hlive hguard hends
  · cases hstep

lemma mem_scanned_shown (h : StoreHolds (shown capacity) s live) {direction : Direction}
    (hdir : direction ≠ .BOTH) (label_filter : Option EdgeLabelId) (x : EdgeIndexEntry) :
    x ∈ scanned capacity s vid direction label_filter ↔
      live (sideKey vid direction x.edgeLabelId x.neighborId x.seq) = some x.edgeId ∧
        passesFilter label_filter x.edgeLabelId = true := by
  obtain ⟨m, hm⟩ := (h.sides vid direction hdir).1.exists_table
  rw [scanned_single hdir, exec_scanSide (h.sides vid direction hdir) hm]
  exact mem_sideEntries_live hm label_filter x

end EdgeRows

/-! ### Agreement -/

/-- The vertices a label scan enumerates are those whose label set has the label. -/
structure LabelRowsAgree (s : Store) : Prop where
  rows : ∀ vid labelId, hasLabel s vid labelId ↔ listed s labelId vid
  scans : ∀ vid labelId, vid ∈ (exec (scanVerticesByLabel labelId) s).1 ↔
    labelId ∈ (exec (getVertexLabels vid) s).1
  once : ∀ labelId, (exec (scanVerticesByLabel labelId) s).1.Nodup

/-- The edge is in the key space of its type. -/
def typed (s : Store) (e : EdgeRef) : Prop :=
  s.get (.etypeTable e.labelId) (encodeEdgeTypeIndexKey e.typeKey) = some (encodeU64 e.eid)

def outReadable (capacity : UInt32) (s : Store) (e : EdgeRef) (label_filter : Option EdgeLabelId) :
    Prop :=
  ⟨e.dst, e.labelId, e.seq, e.eid⟩ ∈ scanned capacity s e.src .OUT label_filter

def inReadable (capacity : UInt32) (s : Store) (e : EdgeRef) (label_filter : Option EdgeLabelId) :
    Prop :=
  ⟨e.src, e.labelId, e.seq, e.eid⟩ ∈ scanned capacity s e.dst .IN label_filter

/-- An edge is in the key space of its type when both entries can be read, and neither
entry can be read without the other. -/
structure EdgeRowsAgree (capacity : UInt32) (s : Store) : Prop where
  both : ∀ e label_filter, passesFilter label_filter e.labelId = true →
    (typed s e ↔ outReadable capacity s e label_filter ∧ inReadable capacity s e label_filter)
  sides : ∀ e label_filter, passesFilter label_filter e.labelId = true →
    (outReadable capacity s e label_filter ↔ inReadable capacity s e label_filter)

lemma LabelRowsOk.agree {s : Store} (hrows : VertexRowsOk s) (h : LabelRowsOk s) : LabelRowsAgree s := by
  have hscan : ∀ labelId, (exec (scanVerticesByLabel labelId) s).1 =
      (prefixRecords (s (.labelFwdTable labelId)) []).map fun row => decodeLabelForwardKey row.1 := by
    intro labelId
    rw [scanVerticesByLabel, exec_bind, exec_tableScan, exec_pure]
  -- every key of the table is the key of a vertex
  have hkeys : ∀ labelId, ∀ row ∈ prefixRecords (s (.labelFwdTable labelId)) [],
      row.1 = encodeLabelForwardKey (decodeLabelForwardKey row.1) := by
    intro labelId row hrow
    have hget := ((mem_prefixRecords _ _ _ _).mp hrow).2
    obtain ⟨vid, hkey⟩ := h.keys labelId row.1 (by rw [Store.get, hget]; rfl)
    rw [hkey, decodeLabelForwardKey_encode]
  refine ⟨h.both, fun vid labelId => ?_, fun labelId => ?_⟩
  · rw [mem_getVertexLabels vid labelId hrows, h.both, hscan, List.mem_map]
    constructor
    · rintro ⟨row, hrow, rfl⟩
      rw [listed, ← hkeys labelId row hrow, Store.get, ((mem_prefixRecords _ _ _ _).mp hrow).2]
      rfl
    · intro hlisted
      obtain ⟨value, hget⟩ := isSome_iff_exists.mp hlisted
      exact ⟨_, (mem_prefixRecords _ _ _ _).mpr ⟨ nil_prefix, hget⟩, decodeLabelForwardKey_encode vid⟩
  · rw [hscan]
    refine nodup_map_prefixRecords fun row hrow row' hrow' heq => ?_
    rw [hkeys labelId row hrow, hkeys labelId row' hrow', heq]

lemma labelRows_reached {capacity : UInt32} {guard : Store → StoreAction → Prop} {s : Store}
    (h : Reaches (storeStep capacity) guard empty s) : VertexRowsOk s ∧ LabelRowsOk s := by
  refine reached_of_keeps (I := fun s => VertexRowsOk s ∧ LabelRowsOk s) ⟨?_, fun _ _ => ?_, ?_⟩
    (fun a hends => ?_) h
  · exact fun key value hget => absurd hget (by simp [empty, Store.get])
  · simp [hasLabel, listed, empty, Store.get]
  · exact fun labelId key hsome => absurd hsome (by simp [empty, Store.get])
  · refine (vertexRowsOk_keptBySides.and labelRows_keptBySides).storeAction
      (fun hp => (vertexRowsOk_keptByTables hp).and (labelRows_keptByTables hp)) (fun a s hok => ?_) hends
    exact ⟨keeps_program capacity a s hok.1, labelRows_vertexAction capacity a hok.1 hok.2⟩

lemma StoreHolds.edgeRowsAgree {capacity : UInt32} {s : Store} {live : LiveEdges}
    (h : StoreHolds (shown capacity) s live) : EdgeRowsAgree capacity s := by
  have htyped : ∀ e : EdgeRef, typed s e ↔ live e.key = some e.eid := by
    intro e
    have hdecode : Function.Injective encodeU64 :=
      Function.LeftInverse.injective decodeU64_encodeU64
    rw [typed, h.types, typeRows_encode]
    show (live e.key).map encodeU64 = some (encodeU64 e.eid) ↔ _
    rw [← map_some, (map_injective hdecode).eq_iff]
  have hout : ∀ (e : EdgeRef) label_filter, passesFilter label_filter e.labelId = true →
      (outReadable capacity s e label_filter ↔ live e.key = some e.eid) := by
    intro e label_filter hpass
    rw [outReadable, mem_scanned_shown h (by decide)]
    exact and_iff_left hpass
  have hin : ∀ (e : EdgeRef) label_filter, passesFilter label_filter e.labelId = true →
      (inReadable capacity s e label_filter ↔ live e.key = some e.eid) := by
    intro e label_filter hpass
    rw [inReadable, mem_scanned_shown h (by decide)]
    exact and_iff_left hpass
  refine ⟨fun e label_filter hpass => ?_, fun e label_filter hpass => ?_⟩
  · rw [htyped, hout e label_filter hpass, hin e label_filter hpass, and_self]
  · rw [hout e label_filter hpass, hin e label_filter hpass]

/-- The rows of a label agree in every store reached, the rows of an edge in runs that
delete vertices without cached edges and, with the cache, insert none over rows in
`edge_index`. -/
theorem primaryRowsAgree (capacity : UInt32) :
    (∀ s, Reaches (storeStep capacity) (fun _ _ => True) empty s → LabelRowsAgree s) ∧
    ∀ s, Reaches (storeStep capacity) (edgesKept capacity) empty s → EdgeRowsAgree capacity s := by
  refine ⟨fun s h => ?_, fun s h => ?_⟩
  · obtain ⟨hrows, hlabels⟩ := labelRows_reached h
    exact hlabels.agree hrows
  · obtain ⟨live, hlive⟩ := shownEdges_reached h
    exact hlive.edgeRowsAgree

theorem primaryRowsAgree_twoVertices : LabelRowsAgree twoVertices ∧ EdgeRowsAgree 1
      (exec ((StoreAction.insertEdge (parallelEdge 1) []).program 1) twoVertices).2 := by
  have hfirst : Reaches (storeStep 1) (edgesKept 1) empty
      (exec ((StoreAction.vertex (.insertVertex 1 [])).program 1) empty).2 :=
    Reaches.start.next (a := .vertex (.insertVertex 1 [])) (inr fun _ _ => rfl) (if_pos rfl)
  have hinserted : Reaches (storeStep 1) (edgesKept 1) empty twoVertices :=
    hfirst.next (a := .vertex (.insertVertex 2 [])) (inr fun _ _ => rfl) (if_pos rfl)
  have hedge : Reaches (storeStep 1) (edgesKept 1) empty
      (exec ((StoreAction.insertEdge (parallelEdge 1) []).program 1) twoVertices).2 :=
    hinserted.next (a := .insertEdge (parallelEdge 1) []) trivial (if_pos rfl)
  exact ⟨(primaryRowsAgree 1).1 _ (hinserted.mono fun _ _ _ => trivial), (primaryRowsAgree 1).2 _ hedge⟩

/-- Vertex `1` is deleted while its edge is still cached. -/
def deletedSource : Store :=
  (exec ((StoreAction.vertex (.deleteVertex 1)).program 1)
    (exec ((StoreAction.insertEdge (parallelEdge 1) []).program 1) twoVertices).2).2

/-- The edge keeps its type row and its entry at vertex `2`. -/
theorem deleteVertex_leaves_typeRow :
    Reaches (storeStep 1) (fun _ _ => True) empty deletedSource ∧
      typed deletedSource (parallelEdge 1) ∧ inReadable 1 deletedSource (parallelEdge 1) none ∧
      ¬ outReadable 1 deletedSource (parallelEdge 1) none ∧ ¬ EdgeRowsAgree 1 deletedSource := by
  have htyped : typed deletedSource (parallelEdge 1) := by
    unfold typed
    decide +kernel
  have hout : ¬ outReadable 1 deletedSource (parallelEdge 1) none := by
    unfold outReadable
    decide +kernel
  have hin : inReadable 1 deletedSource (parallelEdge 1) none := by
    unfold inReadable
    decide +kernel
  have hinserted : Reaches (storeStep 1) (fun _ _ => True) empty twoVertices :=
    (Reaches.start.next (a := .vertex (.insertVertex 1 [])) trivial (if_pos rfl)).next
      (a := .vertex (.insertVertex 2 [])) trivial (if_pos rfl)
  have hedge : Reaches (storeStep 1) (fun _ _ => True) empty
      (exec ((StoreAction.insertEdge (parallelEdge 1) []).program 1) twoVertices).2 :=
    hinserted.next (a := .insertEdge (parallelEdge 1) []) trivial (if_pos rfl)
  have hdeleted : Reaches (storeStep 1) (fun _ _ => True) empty deletedSource :=
    hedge.next (a := .vertex (.deleteVertex 1)) trivial (if_pos rfl)
  exact ⟨hdeleted, htyped, hin, hout, fun hagree =>
    hout ((hagree.both (parallelEdge 1) none rfl).mp htyped).1⟩

end Eugraph.DataStore
