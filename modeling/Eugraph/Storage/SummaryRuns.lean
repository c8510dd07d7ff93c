import Eugraph.Storage.SummaryCoherence

/-!
# Runs of the vertex mutators

Every mutator but `insertVertex` leaves the vertices it has changed without a summary.
`insertVertex` publishes one whenever it finds none, also for a vertex whose summary an
earlier call has dropped; the runs here ask of such a call that it names all the vertex
has.
-/

namespace Eugraph.DataStore

open Lib Lib.Program Wt KeyCodec List Option Store Or

/-! ### The system -/

inductive VertexAction
  | insertVertex (vid : VertexId) (labelProps : LabelProps)
  | putVertexProperty (vid : VertexId) (labelId : LabelId) (propId : PropId) (value : PropertyValue)
  | putVertexProperties (vid : VertexId) (labelId : LabelId) (props : Properties)
  | deleteVertexProperty (vid : VertexId) (labelId : LabelId) (propId : PropId)
  | addVertexLabel (vid : VertexId) (labelId : LabelId)
  | removeVertexLabel (vid : VertexId) (labelId : LabelId)
  | deleteVertex (vid : VertexId)
  | dropLabel (labelId : LabelId)

def VertexAction.program (capacity : UInt32) : VertexAction → StoreM Bool
  | .insertVertex vid labelProps => DataStore.insertVertex capacity vid labelProps
  | .putVertexProperty vid labelId propId value =>
    DataStore.putVertexProperty vid labelId propId value
  | .putVertexProperties vid labelId props => DataStore.putVertexProperties vid labelId props
  | .deleteVertexProperty vid labelId propId => DataStore.deleteVertexProperty vid labelId propId
  | .addVertexLabel vid labelId => DataStore.addVertexLabel vid labelId
  | .removeVertexLabel vid labelId => DataStore.removeVertexLabel vid labelId
  | .deleteVertex vid => DataStore.deleteVertex vid
  | .dropLabel labelId => DataStore.dropLabel labelId

/-- The 16-bit loops over property vectors end. -/
def VertexAction.ends : VertexAction → Bool
  | .insertVertex _ labelProps => labelProps.all fun group => group.2.length < 2 ^ 16
  | .putVertexProperties _ _ props => props.length < 2 ^ 16
  | _ => true

def vertexStep (capacity : UInt32) (s : Store) (a : VertexAction) : Option Store :=
  if a.ends then some (exec (a.program capacity) s).2 else none

/-- The call names every label and property row of the vertex, gives no property two
values, and stays below the 16-bit counters of the summary. -/
def coversVertex (s : Store) (vid : VertexId) (labelProps : LabelProps) : Prop :=
  (validGroups labelProps).length < 2 ^ 16 ∧ (summarySlots labelProps).length < 2 ^ 16 ∧
  (∀ row ∈ prefixRecords (s .vertexData) (encodeVertexDataLabelPrefix vid),
    decodeVertexDataLabelKey row.1 ∈ summaryLabels labelProps) ∧
  (∀ row ∈ prefixRecords (s .vertexData) (encodeVertexDataPropPrefix vid),
    decodeVertexDataPropKey row.1 ∈ (summarySlots labelProps).map fun e => (e.1, e.2.1)) ∧
  ∀ e ∈ summarySlots labelProps, slotBytes (summarySlots labelProps).reverse (e.1, e.2.1) =
    slotBytes (summarySlots labelProps) (e.1, e.2.1)

instance (s : Store) (vid : VertexId) (labelProps : LabelProps) :
    Decidable (coversVertex s vid labelProps) := by
  unfold coversVertex
  infer_instance

/-- A call that publishes a summary covers the vertex. -/
def publishesCovered (s : Store) : VertexAction → Prop
  | .insertVertex vid labelProps =>
    s.get .vertexSummary (encodeVertexSummaryKey vid) = none →
      encodeVertexSummary labelProps ≠ [] → coversVertex s vid labelProps
  | _ => True

instance (s : Store) (a : VertexAction) : Decidable (publishesCovered s a) := by
  cases a
  all_goals unfold publishesCovered
  all_goals infer_instance

/-! ### Rows stay well-formed -/

lemma keeps_program (capacity : UInt32) (a : VertexAction) : Keeps VertexRowsOk (a.program capacity) := by
  cases a with
  | insertVertex vid labelProps => exact keeps_insertVertex capacity vid labelProps
  | putVertexProperty vid labelId propId value =>
    exact .andThen (keeps_insertProperty _ _ _) (keeps_tableDel _)
  | putVertexProperties vid labelId props =>
    exact .andThen (.allOf (keeps_insertProperty _ _) _) (keeps_tableDel _)
  | deleteVertexProperty vid labelId propId => exact .andThen (keeps_tableDel _) (keeps_tableDel _)
  | addVertexLabel vid labelId =>
    exact .andThen (keeps_putLabel _ _ _) (.andThen (keeps_putOther (by simp) _ _) (keeps_tableDel _))
  | removeVertexLabel vid labelId =>
    exact .bind (keeps_deleteLabelRows _ _) fun _ => .bind (keeps_tableDel _) fun _ => .pure true
  | deleteVertex vid =>
    refine .bind (keeps_read (.bind (.scan _ _ _) fun _ => .pure _)) fun labels => ?_
    refine .bind (.forEach (fun _ => keeps_deleteLabelRows _ _) _) fun _ => ?_
    exact .bind (keeps_deleteUnder _ _ _) fun _ => .bind (keeps_tableDel _) fun _ =>
      .bind (keeps_tableDel _) fun _ => .pure true
  | dropLabel labelId =>
    refine .bind (keeps_read (.scan _ _ _)) fun rows => .bind (.forEach (fun row => ?_) _) fun _ => ?_
    · exact .bind (keeps_tableDel _) fun _ => .bind (keeps_deleteUnder _ _ _) fun _ =>
        keeps_tableDel _
    · intro s h key value hget
      rw [exec_dropTable, Store.clear_get, if_neg (by simp)] at hget
      exact h key value hget

/-! ### Mutators drop the summary of what they change -/

/-- Each vertex has lost its summary or nothing of it has changed. -/
def Invalidates (s s' : Store) : Prop :=
  ∀ vid, s'.get .vertexSummary (encodeVertexSummaryKey vid) = none ∨
    (s'.get .vertexSummary (encodeVertexSummaryKey vid) =
      s.get .vertexSummary (encodeVertexSummaryKey vid) ∧
    ∀ sec rest, s'.get .vertexData (sectionKey vid sec rest) =
      s.get .vertexData (sectionKey vid sec rest))

lemma Invalidates.refl (s : Store) : Invalidates s s := fun _ => inr ⟨rfl, fun _ _ => rfl⟩

lemma Invalidates.trans {s s' s'' : Store} (h : Invalidates s s') (h' : Invalidates s' s'') :
    Invalidates s s'' := by
  intro vid
  rcases h' vid with hnone | ⟨hsummary', hrows'⟩
  · exact inl hnone
  · rcases h vid with hnone | ⟨hsummary, hrows⟩
    · exact inl (hsummary'.trans hnone)
    · exact inr ⟨hsummary'.trans hsummary, fun sec rest => (hrows' sec rest).trans (hrows sec rest)⟩

lemma Coherent.congr {s s' : Store} {vid : VertexId} (h : Coherent s vid)
    (hsummary : s'.get .vertexSummary (encodeVertexSummaryKey vid) =
      s.get .vertexSummary (encodeVertexSummaryKey vid))
    (hrows : ∀ sec rest, s'.get .vertexData (sectionKey vid sec rest) =
      s.get .vertexData (sectionKey vid sec rest)) : Coherent s' vid := by
  intro bytes hget
  have hlabel : hasLabel s' vid = hasLabel s vid := by
    funext l
    rw [hasLabel, hasLabel, encodeVertexDataLabelKey, hrows]
  have hprop : propRow s' vid = propRow s vid := by
    funext cand
    rw [propRow, propRow, encodeVertexDataPropKey, hrows]
  rw [hlabel, hprop]
  exact h bytes (hsummary ▸ hget)

lemma coherent_of_none {s : Store} {vid : VertexId}
    (hnone : s.get .vertexSummary (encodeVertexSummaryKey vid) = none) : Coherent s vid := by
  intro bytes hget
  rw [hnone] at hget
  exact absurd hget (by simp)

lemma Coherent.invalidate {s s' : Store} {vid : VertexId} (h : Coherent s vid)
    (hinv : Invalidates s s') : Coherent s' vid := by
  rcases hinv vid with hnone | ⟨hsummary, hrows⟩
  · exact coherent_of_none hnone
  · exact h.congr hsummary hrows

lemma Invalidates.of_frame {s s' : Store} (vid : VertexId) (hframe : ChangesOnly s s' (ofVertex vid))
    (hnone : s'.get .vertexSummary (encodeVertexSummaryKey vid) = none) : Invalidates s s' := by
  intro vid'
  by_cases hvid : vid' = vid
  · subst hvid
    exact inl hnone
  · exact inr (otherVertex_unchanged hframe hvid)

section Mutators

variable (vid : VertexId) (labelId : LabelId)

/-- A mutator that ends by dropping the summary. -/
theorem invalidates_andThen {p : StoreM Bool} (hp : WritesOnly (ofVertex vid) p)
    (htrue : ∀ s, (exec p s).1 = true) (s : Store) :
    Invalidates s (exec (andThen p (tableDel .session .vertexSummary (encodeVertexSummaryKey vid))) s).2 := by
  refine .of_frame vid (WritesOnly.andThen hp (writesOnly_dropSummary vid) s) ?_
  rw [exec_andThen (Prod.ext (htrue s) rfl), exec_tableDel, del_get_self]

lemma invalidates_removeVertexLabel (s : Store) : Invalidates s (exec (removeVertexLabel vid labelId) s).2 := by
  refine .of_frame vid (writesOnly_removeVertexLabel vid labelId s) ?_
  simp only [removeVertexLabel, exec_bind, exec_tableDel, exec_pure, del_get_self]

lemma invalidates_deleteVertex (s : Store) : Invalidates s (exec (deleteVertex vid) s).2 := by
  refine .of_frame vid (writesOnly_deleteVertex_ofVertex vid s) ?_
  simp only [deleteVertex, exec_bind, exec_tableDel, exec_pure, del_get_self]

lemma Invalidates.bind {α β : Type} {p : StoreM α} {q : α → StoreM β}
    (hp : ∀ s, Invalidates s (exec p s).2) (hq : ∀ a s, Invalidates s (exec (q a) s).2)
    (s : Store) : Invalidates s (exec (p >>= q) s).2 := by
  rw [exec_bind]
  exact (hp s).trans (hq _ _)

lemma Invalidates.forEach {α β : Type} {f : α → StoreM β}
    (hf : ∀ x s, Invalidates s (exec (f x) s).2) (xs : List α) (s : Store) :
    Invalidates s (exec (Program.forEach f xs) s).2 := by
  induction xs generalizing s with
  | nil => exact .refl s
  | cons x rest ih => exact .bind (hf x) (fun _ => ih) s

lemma invalidates_dropLabel (s : Store) : Invalidates s (exec (dropLabel labelId) s).2 := by
  refine .bind (fun s => ?_) (fun rows => .bind (.forEach (fun row s => ?_) _) fun _ s => ?_) s
  · exact .refl s
  · refine .of_frame (decodeLabelForwardKey row.1) ?_ ?_
    · refine WritesOnly.bind (.del _ (ofVertex_section _ _ _)) (fun _ => .bind ?_ fun _ =>
        .del _ (ofVertex_summary _)) s
      exact writesOnly_deleteUnder _ fun key hkey => vertexPrefix_of_sectionPrefix hkey
    · simp only [exec_bind, exec_tableDel, del_get_self]
  · refine fun vid => inr ⟨?_, fun sec rest => ?_⟩
    · rw [exec_dropTable, clear_get, if_neg (by simp)]
    · rw [exec_dropTable, clear_get, if_neg (by simp)]

end Mutators

/-! ### `insertVertex` -/

section Insert

variable {s : Store} {vid : VertexId}

/-- What a published summary answers: its labels do not hide an entry. -/
theorem summaryEntry_published (labelProps : LabelProps) (cand : Candidate) : summaryEntry ⟨summaryLabels labelProps,
        (summarySlots labelProps).map fun e => ((e.1, e.2.1), inlineBytes e.2.2)⟩ cand =
      ((summarySlots labelProps).find? fun e => (e.1, e.2.1) = cand).map fun e =>
        ((e.1, e.2.1), inlineBytes e.2.2) := by
  unfold summaryEntry
  split
  · rw [find?_map]
    rfl
  · rename_i hlabel
    symm
    rw [map_eq_none_iff, find?_eq_none]
    intro e he heq
    refine hlabel ?_
    obtain ⟨group, hgroup, hslot⟩ := mem_flatMap.mp he
    obtain ⟨slot, -, rfl⟩ := mem_map.mp hslot
    have hcand : cand.1 = group.1 := (congrArg Prod.fst (of_decide_eq_true heq)).symm
    rw [hcand]
    exact mem_map.mpr ⟨group, hgroup, rfl⟩

/-- The published summary of a call that covers the vertex. -/
theorem coherent_publish {s s₁ : Store} {vid : VertexId} {labelProps : LabelProps}
    (hcovers : coversVertex s vid labelProps)
    (hsome : encodeVertexSummary labelProps ≠ [])
    (hprop : ∀ cand, propRow s₁ vid cand = (slotBytes (summarySlots labelProps).reverse cand).or
      (propRow s vid cand))
    (hlabel : ∀ l, hasLabel s₁ vid l ↔ l ∈ summaryLabels labelProps ∨ hasLabel s vid l) :
    Coherent (s₁.put .vertexSummary (encodeVertexSummaryKey vid) (encodeVertexSummary labelProps)) vid := by
  obtain ⟨hlabels, hentries, hnamed, hslots, honce⟩ := hcovers
  intro bytes hget
  rw [put_get_self, Option.some.injEq] at hget
  subst hget
  refine ⟨_, decodeVertexSummary_encode hlabels hentries hsome, ?_, fun l => ?_, fun cand => ?_⟩
  · simp [summaryLabels, validGroups]
  · rw [hasLabel, put_get_of_ne _ _ _ _ _ _ (inl (by simp))]
    refine ⟨fun hl => (hlabel l).mpr (inl hl), fun hl => ?_⟩
    rcases (hlabel l).mp hl with hl | hl
    · exact hl
    · obtain ⟨value, hrow⟩ := isSome_iff_exists.mp hl
      have hmem := hnamed (encodeVertexDataLabelKey vid l, value) ((mem_prefixRecords _ _ _ _).mpr
        ⟨sectionKey_isPrefix_iff.mpr ⟨rfl, rfl, nil_prefix⟩, hrow⟩)
      rwa [decodeVertexDataLabelKey_encode] at hmem
  · have hrow : propRow (s₁.put .vertexSummary (encodeVertexSummaryKey vid)
        (encodeVertexSummary labelProps)) vid cand =
        (slotBytes (summarySlots labelProps).reverse cand).or (propRow s vid cand) := by
      rw [← hprop, propRow, put_get_of_ne _ _ _ _ _ _ (inl (by simp))]
      rfl
    rw [hrow, summaryEntry_published]
    cases hfind : (summarySlots labelProps).find? fun e => (e.1, e.2.1) = cand with
    | none =>
      have hnot : ∀ e ∈ summarySlots labelProps, (e.1, e.2.1) ≠ cand := by
        simpa using find?_eq_none.mp hfind
      have hslot : slotBytes (summarySlots labelProps).reverse cand = none := by
        rw [slotBytes, map_eq_none_iff, find?_eq_none]
        simpa using hnot
      change (slotBytes (summarySlots labelProps).reverse cand).or (propRow s vid cand) = none
      rw [hslot, none_or]
      by_contra hstored
      obtain ⟨value, hvalue⟩ := ne_none_iff_exists'.mp hstored
      have hmem := hslots (encodeVertexDataPropKey vid cand.1 cand.2, value) ((mem_prefixRecords _ _ _ _).mpr
          ⟨sectionKey_isPrefix_iff.mpr ⟨rfl, rfl, nil_prefix⟩, hvalue⟩)
      rw [decodeVertexDataPropKey_encode] at hmem
      obtain ⟨e, he, heq⟩ := mem_map.mp hmem
      exact hnot e he heq
    | some e =>
      have hcand : (e.1, e.2.1) = cand := by simpa using find?_some hfind
      have hslot := honce e (mem_of_find?_eq_some hfind)
      have hfirst : slotBytes (summarySlots labelProps) cand = some (ValueCodec.encode e.2.2) := by
        rw [slotBytes, hfind]
        rfl
      rw [hcand, hfirst] at hslot
      change inlineBytes e.2.2 = [] ∨ (slotBytes (summarySlots labelProps).reverse cand).or
        (propRow s vid cand) = some (inlineBytes e.2.2)
      rw [hslot, some_or, inlineBytes]
      split
      · exact inr rfl
      · exact inl rfl

lemma coherent_insertVertex (capacity : UInt32) (vid : VertexId) (labelProps : LabelProps)
    (hcoherent : ∀ vid, Coherent s vid)
    (hguard : publishesCovered s (.insertVertex vid labelProps)) (vid' : VertexId) :
    Coherent (exec (insertVertex capacity vid labelProps) s).2 vid' := by
  obtain ⟨s₁, hexec, hframe, hprop, hlabel⟩ := exec_insertVertex capacity vid labelProps s
  have hsummary : s₁.get .vertexSummary (encodeVertexSummaryKey vid) =
      s.get .vertexSummary (encodeVertexSummaryKey vid) := hframe _ _ fun hrow => hrow.2 rfl
  have hframe' : ChangesOnly s s₁ (ofVertex vid) := hframe.mono fun _ _ hrow => hrow.1
  have hpublish : WritesOnly (ofVertex vid) (publishSummary vid labelProps) :=
    .bind (.get _ _ _) fun _ => .ite (writesOnly_dropSummary vid)
      (.ite (.pure true) (.put _ (ofVertex_summary vid) _))
  rw [hexec]
  by_cases hvid : vid' = vid
  · subst hvid
    simp only [publishSummary, exec_bind, exec_tableGet, exec_ite, exec_tableDel, exec_pure, exec_tablePut, hsummary]
    cases hold : s.get .vertexSummary (encodeVertexSummaryKey vid') with
    | some bytes => exact coherent_of_none (del_get_self _ _ _)
    | none =>
      by_cases hempty : encodeVertexSummary labelProps = []
      · simp only [isSome_none, Bool.false_eq_true, if_false, hempty, if_true]
        exact coherent_of_none (hsummary.trans hold)
      · simp only [isSome_none, Bool.false_eq_true, if_false, hempty]
        exact coherent_publish (hguard hold hempty) hempty hprop hlabel
  · obtain ⟨hsummary', hrows⟩ := otherVertex_unchanged (hframe'.trans (hpublish s₁)) hvid
    exact (hcoherent vid').congr hsummary' hrows

end Insert

/-! ### Runs -/

/-- Every mutator but `insertVertex` drops the summaries of what it changes. -/
theorem invalidates_program (capacity : UInt32) {a : VertexAction}
    (ha : ∀ vid labelProps, a ≠ .insertVertex vid labelProps) (s : Store) :
    Invalidates s (exec (a.program capacity) s).2 := by
  cases a with
  | insertVertex vid labelProps => exact absurd rfl (ha vid labelProps)
  | putVertexProperty vid labelId propId value =>
    exact invalidates_andThen vid (writesOnly_insertProperty vid labelId _) (fun _ => rfl) s
  | putVertexProperties vid labelId props =>
    refine invalidates_andThen vid (.allOf fun slot _ => writesOnly_insertProperty vid labelId slot) (fun s => ?_) s
    rw [exec_allOf_insertProperty]
  | deleteVertexProperty vid labelId propId =>
    exact invalidates_andThen vid (.del _ (ofVertex_section _ _ _)) (fun _ => rfl) s
  | addVertexLabel vid labelId =>
    refine .of_frame vid (writesOnly_addVertexLabel vid labelId s) ?_
    simp only [VertexAction.program, addVertexLabel, exec_andThen_put, exec_tableDel, Store.del_get_self]
  | removeVertexLabel vid labelId => exact invalidates_removeVertexLabel vid labelId s
  | deleteVertex vid => exact invalidates_deleteVertex vid s
  | dropLabel labelId => exact invalidates_dropLabel labelId s

/-- Rows are well-formed and every summary is coherent. -/
structure SummaryInv (s : Store) : Prop where
  rows : VertexRowsOk s
  coherent : ∀ vid, Coherent s vid

lemma summaryInv_empty : SummaryInv empty :=
  ⟨fun _ _ hget => absurd hget (by simp [empty, Store.get]),
    fun _ => coherent_of_none (by simp [empty, Store.get])⟩

lemma SummaryInv.step {capacity : UInt32} {s s' : Store} {a : VertexAction} (h : SummaryInv s)
    (hguard : publishesCovered s a) (hstep : vertexStep capacity s a = some s') :
    SummaryInv s' := by
  unfold vertexStep at hstep
  split at hstep <;> cases hstep
  refine ⟨keeps_program capacity a s h.rows, fun vid => ?_⟩
  by_cases hinsert : ∃ vid labelProps, a = .insertVertex vid labelProps
  · obtain ⟨vid', labelProps, rfl⟩ := hinsert
    exact coherent_insertVertex capacity vid' labelProps h.coherent hguard vid
  · have hother : ∀ vid labelProps, a ≠ .insertVertex vid labelProps :=
      fun vid labelProps heq => hinsert ⟨vid, labelProps, heq⟩
    exact (h.coherent vid).invalidate (invalidates_program capacity hother s)

/-- In every run whose publishing inserts cover their vertex, the batch readers answer as
if `vertex_summary` were empty, unless a candidate with a value is asked for twice. -/
theorem summaryCache_coherent (capacity : UInt32) {s : Store}
    (hrun : Reaches (vertexStep capacity) publishesCovered empty s) {vids : List VertexId}
    {candidates : List Candidate} (honce : ∀ vid ∈ vids, OncePresent s vid candidates) :
    ReadsCanonical s vids candidates := by
  have hinv : SummaryInv s := hrun.invariant SummaryInv summaryInv_empty
    fun _ _ _ h hguard hstep => h.step hguard hstep
  exact readsCanonical_of_coherent hinv.rows hinv.coherent honce

/-- Two vertices, one with a summary and one that has lost its own. -/
def summaryRun : List VertexAction :=
  [.insertVertex 1 [(1, [some (.int64 5), none, some (.int64 7)])],
    .insertVertex 2 [(1, [some (.int64 6)])], .putVertexProperty 2 1 3 (.int64 8),
    .addVertexLabel 2 4, .removeVertexLabel 2 1]

theorem summaryCache_coherent_summaryRun :
    ∃ s, runGuarded (vertexStep 1) publishesCovered Store.empty summaryRun = some s ∧
      ReadsCanonical s [1, 2, 1] [(1, 0), (1, 2)] := by
  have hsome : (runGuarded (vertexStep 1) publishesCovered Store.empty summaryRun).isSome := by
    decide +kernel
  obtain ⟨s, hs⟩ := isSome_iff_exists.mp hsome
  exact ⟨s, hs, summaryCache_coherent 1 (reaches_of_runGuarded summaryRun hs) fun _ _ => .filter _ (by decide)⟩

/-- The second insert drops the summary, the third finds none and publishes its own. -/
def republishingRun : List VertexAction :=
  [.insertVertex 1 [(1, [])], .insertVertex 1 [(2, [])], .insertVertex 1 [(3, [])]]

/-- The labels of the first two inserts are then hidden from the batch reader. -/
theorem republishedSummary_hides_labels :
    ∃ s, Reaches (vertexStep 0) (fun _ _ => True) Store.empty s ∧ (exec (getVertexLabelsBatch [1]) s).1 = [{3}] ∧
      (exec (getVertexLabels 1) s).1 = [1, 2, 3] ∧ ¬ ReadsCanonical s [1] [] := by
  have hreads : (runGuarded (vertexStep 0) (fun _ _ => True) Store.empty republishingRun).map
      (fun s => ((exec (getVertexLabelsBatch [1]) s).1, (exec (getVertexLabelsBatch [1]) (s.clear .vertexSummary)).1,
        (exec (getVertexLabels 1) s).1)) = some ([{3}], [{1, 2, 3}], [1, 2, 3]) := by
    decide +kernel
  obtain ⟨s, hs, heq⟩ := map_eq_some_iff.mp hreads
  obtain ⟨hcached, hrest⟩ := Prod.mk.inj heq
  obtain ⟨hcanonical, hlabels⟩ := Prod.mk.inj hrest
  refine ⟨s, reaches_of_runGuarded republishingRun hs, hcached, hlabels, fun h => ?_⟩
  have hsame := h.labels
  rw [hcached, hcanonical] at hsame
  exact absurd hsame (by decide)

end Eugraph.DataStore
