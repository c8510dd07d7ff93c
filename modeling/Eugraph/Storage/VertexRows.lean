import Eugraph.Storage.VertexSummary
import Eugraph.Storage.AdjacencySystem
import Eugraph.Lib.Transition

/-!
# Canonical rows of a vertex

The label and property rows of `vertex_data`, which rows the vertex mutators touch, and
what `insertVertex` leaves of them.
-/

namespace Eugraph.DataStore

open Lib Lib.Program Wt KeyCodec List ValueCodec Store Or Option

/-! ### Canonical rows -/

/-- The rows of `vertex_data` the writers produce. -/
def VertexDataRow (key value : Bytes) : Prop :=
  (∃ vid labelId, key = encodeVertexDataLabelKey vid labelId) ∨
  (∃ vid labelId propId v, key = encodeVertexDataPropKey vid labelId propId ∧
    value = encode v) ∨
  ∃ vid kind rest, (kind = .OUT_ADJACENCY ∨ kind = .IN_ADJACENCY) ∧
    key = sectionKey vid (VertexDataKind.byte kind) rest

def VertexRowsOk (s : Store) : Prop :=
  ∀ key value, s.get .vertexData key = some value → VertexDataRow key value

def hasLabel (s : Store) (vid : VertexId) (labelId : LabelId) : Prop :=
  (s.get .vertexData (encodeVertexDataLabelKey vid labelId)).isSome

def propRow (s : Store) (vid : VertexId) (cand : Candidate) : Option Bytes :=
  s.get .vertexData (encodeVertexDataPropKey vid cand.1 cand.2)

/-- The value of a candidate by the canonical rows. -/
def canonicalValue (s : Store) (vid : VertexId) (cand : Candidate) : Option PropertyValue :=
  (propRow s vid cand).bind fun bytes => (decode bytes).toOption

section Rows

variable {s : Store} {vid : VertexId}

lemma VertexRowsOk.labelRow (h : VertexRowsOk s) {row : Record} (hget : s.get .vertexData row.1 = some row.2)
    (hpre : encodeVertexDataLabelPrefix vid <+: row.1) :
    row.1 = encodeVertexDataLabelKey vid (decodeVertexDataLabelKey row.1) := by
  rcases h row.1 row.2 hget with ⟨vid', l, hkey⟩ | ⟨vid', l, p, v, hkey, -⟩ | ⟨vid', k, rest, hk, hkey⟩
  · rw [hkey, encodeVertexDataLabelPrefix, encodeVertexDataLabelKey, sectionKey_isPrefix_iff] at hpre
    rw [hkey, decodeVertexDataLabelKey_encode, hpre.1]
  · rw [hkey, encodeVertexDataLabelPrefix, encodeVertexDataPropKey, sectionKey_isPrefix_iff] at hpre
    exact absurd hpre.2.1 (by decide)
  · rw [hkey, encodeVertexDataLabelPrefix, sectionKey_isPrefix_iff] at hpre
    rcases hk with rfl | rfl
    · exact absurd hpre.2.1 (by decide)
    · exact absurd hpre.2.1 (by decide)

lemma VertexRowsOk.propRow (h : VertexRowsOk s) {row : Record} (hget : s.get .vertexData row.1 = some row.2)
    (hpre : encodeVertexDataPropPrefix vid <+: row.1) :
    row.1 = encodeVertexDataPropKey vid (decodeVertexDataPropKey row.1).1
      (decodeVertexDataPropKey row.1).2 ∧ ∃ v, decode row.2 = .ok v := by
  rcases h row.1 row.2 hget with ⟨vid', l, hkey⟩ | ⟨vid', l, p, v, hkey, hv⟩ | ⟨vid', k, rest, hk, hkey⟩
  · rw [hkey, encodeVertexDataPropPrefix, encodeVertexDataLabelKey, sectionKey_isPrefix_iff] at hpre
    exact absurd hpre.2.1 (by decide)
  · rw [hkey, encodeVertexDataPropPrefix, encodeVertexDataPropKey, sectionKey_isPrefix_iff] at hpre
    rw [hkey, decodeVertexDataPropKey_encode, hpre.1, hv]
    exact ⟨rfl, exists_decode_encode v⟩
  · rw [hkey, encodeVertexDataPropPrefix, sectionKey_isPrefix_iff] at hpre
    rcases hk with rfl | rfl
    · exact absurd hpre.2.1 (by decide)
    · exact absurd hpre.2.1 (by decide)

/-- A stored property can be read. -/
theorem VertexRowsOk.decode_propRow (h : VertexRowsOk s) {cand : Candidate} {bytes : Bytes}
    (hrow : DataStore.propRow s vid cand = some bytes) : ∃ v, decode bytes = .ok v :=
  (@VertexRowsOk.propRow s vid h (encodeVertexDataPropKey vid cand.1 cand.2, bytes) hrow
    (sectionKey_isPrefix_iff.mpr ⟨rfl, rfl, nil_prefix⟩)).2

end Rows

/-! ### Rows stay well-formed -/

lemma VertexRowsOk.put {s : Store} (h : VertexRowsOk s) {table : TableName} {key value : Bytes}
    (hrow : table = .vertexData → VertexDataRow key value) : VertexRowsOk (s.put table key value) := by
  intro key' value' hget
  rw [put_get] at hget
  split at hget
  · rename_i hkey
    rw [some.injEq] at hget
    rw [← hget, hkey.2]
    exact hrow hkey.1.symm
  · exact h key' value' hget

lemma VertexRowsOk.del {s : Store} (h : VertexRowsOk s) (table : TableName) (key : Bytes) :
    VertexRowsOk (s.del table key) := by
  intro key' value' hget
  rw [del_get] at hget
  split at hget
  · exact absurd hget (by simp)
  · exact h key' value' hget

lemma keeps_read {α : Type} {p : StoreM α} (hp : WritesOnly (fun _ _ => False) p) :
    Keeps VertexRowsOk p := fun s h => by
  rw [hp.readOnly s]
  exact h

lemma keeps_insertProperty (vid : VertexId) (labelId : LabelId)
    (slot : PropId × PropertyValue) : Keeps VertexRowsOk (insertProperty vid labelId slot) :=
  .put fun _ h => h.put fun _ => inr (inl ⟨vid, labelId, slot.1, slot.2, rfl, rfl⟩)

lemma keeps_putLabel (vid : VertexId) (labelId : LabelId) (via : Via) :
    Keeps VertexRowsOk (tablePut via .vertexData (encodeVertexDataLabelKey vid labelId) []) :=
  .put fun _ h => h.put fun _ => inl ⟨vid, labelId, rfl⟩

lemma keeps_putOther {via : Via} {table : TableName} (htable : table ≠ .vertexData)
    (key value : Bytes) : Keeps VertexRowsOk (tablePut via table key value) :=
  .put fun _ h => h.put fun heq => absurd heq htable

lemma keeps_tableDel {via : Via} {table : TableName} (key : Bytes) :
    Keeps VertexRowsOk (tableDel via table key) := .del fun _ h => h.del _ _

lemma keeps_deleteUnder (via : Via) (table : TableName) (pre : Bytes) :
    Keeps VertexRowsOk (deleteUnder via table pre) :=
  .bind (keeps_read (.scan _ _ _)) fun _ => .forEach (fun _ => keeps_tableDel _) _

lemma keeps_deleteLabelRows (vid : VertexId) (labelId : LabelId) :
    Keeps VertexRowsOk (deleteLabelRows vid labelId) :=
  .bind (keeps_tableDel _) fun _ => .bind (keeps_tableDel _) fun _ => keeps_deleteUnder _ _ _

lemma keeps_insertVertex (capacity : UInt32) (vid : VertexId) (labelProps : LabelProps) :
    Keeps VertexRowsOk (insertVertex capacity vid labelProps) := by
  refine .andThen (keeps_putOther (by simp) _ _) (.andThen (.ite ?_ (.pure true)) (.andThen ?_ ?_))
  · refine .allOf (fun direction => .put fun _ h => h.put fun _ => inr (inr ?_)) _
    refine ⟨vid, adjacencyKind direction, [], ?_, rfl⟩
    cases direction
    · exact inl rfl
    · exact inr rfl
    · exact inl rfl
  · refine .allOf (fun group => .ite (.pure true) (.andThen (keeps_putLabel _ _ _) ?_)) _
    exact .andThen (keeps_putOther (by simp) _ _) (.allOf (keeps_insertProperty _ _) _)
  · exact .bind (keeps_read (.get _ _ _)) fun _ => .ite (keeps_tableDel _)
      (.ite (.pure true) (keeps_putOther (by simp) _ _))

/-! ### Which rows the mutators touch -/

/-- Rows a mutator of one vertex may touch. -/
def ofVertex (vid : VertexId) (table : TableName) (key : Bytes) : Prop :=
  match table with
  | .vertexData => encodeVertexDataVertexPrefix vid <+: key
  | .vertexSummary => key = encodeVertexSummaryKey vid
  | .vertexExistence => key = encodeVertexExistenceKey vid
  | .labelFwdTable _ => key = encodeLabelForwardKey vid
  | _ => False

lemma ofVertex_section (vid : VertexId) (sec : UInt8) (rest : Bytes) :
    ofVertex vid .vertexData (sectionKey vid sec rest) :=
  vertexPrefix_isPrefix_sectionKey.mpr rfl

lemma ofVertex_summary (vid : VertexId) : ofVertex vid .vertexSummary (encodeVertexSummaryKey vid) := rfl

lemma ofVertex_existence (vid : VertexId) : ofVertex vid .vertexExistence (encodeVertexExistenceKey vid) := rfl

lemma ofVertex_forward (vid : VertexId) (labelId : LabelId) :
    ofVertex vid (.labelFwdTable labelId) (encodeLabelForwardKey vid) := rfl

lemma otherVertex_unchanged {s s' : Store} {vid vid' : VertexId}
    (hframe : ChangesOnly s s' (ofVertex vid)) (hvid : vid' ≠ vid) :
    s'.get .vertexSummary (encodeVertexSummaryKey vid') = s.get .vertexSummary (encodeVertexSummaryKey vid') ∧
    ∀ sec rest, s'.get .vertexData (sectionKey vid' sec rest) = s.get .vertexData (sectionKey vid' sec rest) := by
  refine ⟨hframe _ _ fun hrow => hvid ?_, fun sec rest => hframe _ _ fun hrow => hvid ?_⟩
  · exact IndexKeyCodec.u64BE_inj.mp hrow
  · exact (vertexPrefix_isPrefix_sectionKey.mp hrow).symm

section Mutators

variable (vid : VertexId) (labelId : LabelId)

lemma writesOnly_insertProperty (slot : PropId × PropertyValue) :
    WritesOnly (ofVertex vid) (insertProperty vid labelId slot) :=
  .put _ (ofVertex_section _ _ _) _

lemma exec_allOf_insertProperty (slots : List (PropId × PropertyValue)) (s : Store) :
    exec (allOf (insertProperty vid labelId) slots) s =
      (true, (exec (allOf (insertProperty vid labelId) slots) s).2) := by
  rw [exec_allOf s (fun _ _ => rfl) slots]

lemma writesOnly_deleteLabelRows_ofVertex : WritesOnly (ofVertex vid) (deleteLabelRows vid labelId) := by
  refine .bind (.del _ (ofVertex_section _ _ _)) fun _ => .bind (.del _ ?_) fun _ => ?_
  · exact ofVertex_forward vid labelId
  · exact writesOnly_deleteUnder _ fun key hkey => vertexPrefix_of_sectionPrefix hkey

lemma writesOnly_dropSummary : WritesOnly (ofVertex vid)
      (tableDel .session .vertexSummary (encodeVertexSummaryKey vid)) :=
  .del _ (ofVertex_summary vid)

lemma writesOnly_addVertexLabel : WritesOnly (ofVertex vid) (addVertexLabel vid labelId) :=
  .andThen (.put _ (ofVertex_section _ _ _) _)
    (.andThen (.put _ (ofVertex_forward vid labelId) _) (writesOnly_dropSummary vid))

lemma writesOnly_removeVertexLabel : WritesOnly (ofVertex vid) (removeVertexLabel vid labelId) :=
  .bind (writesOnly_deleteLabelRows_ofVertex vid labelId) fun _ =>
    .bind (writesOnly_dropSummary vid) fun _ => .pure true

lemma writesOnly_deleteVertex_ofVertex : WritesOnly (ofVertex vid) (deleteVertex vid) := by
  refine .bind (.bind (.scan _ _ _) fun _ => .pure _) fun labels => ?_
  refine .bind (.forEach fun l _ => writesOnly_deleteLabelRows_ofVertex vid l) fun _ => ?_
  refine .bind (writesOnly_deleteUnder _ fun key hkey => hkey) fun _ => ?_
  exact .bind (.del _ (ofVertex_existence vid)) fun _ =>
    .bind (writesOnly_dropSummary vid) fun _ => .pure true

end Mutators

/-- The bytes of the first slot of a candidate. -/
def slotBytes (slots : List (LabelId × PropId × PropertyValue)) (cand : Candidate) : Option Bytes :=
  (slots.find? fun e => (e.1, e.2.1) = cand).map fun e => encode e.2.2

/-! ### `insertVertex` -/

section Insert

variable {s : Store} {vid : VertexId}

lemma slotBytes_append (a b : List (LabelId × PropId × PropertyValue)) (cand : Candidate) :
    slotBytes (a ++ b).reverse cand = (slotBytes b.reverse cand).or (slotBytes a.reverse cand) := by
  rw [slotBytes, slotBytes, slotBytes, reverse_append, List.find?_append, map_or]

/-- Property rows after the rows of one label: the last write wins. -/
theorem propRow_allOf_insertProperty (labelId : LabelId) (slots : List (PropId × PropertyValue))
    (s : Store) (cand : Candidate) :
    propRow (exec (allOf (insertProperty vid labelId) slots) s).2 vid cand =
      (slotBytes (slots.map fun slot => (labelId, slot)).reverse cand).or (propRow s vid cand) := by
  induction slots generalizing s with
  | nil => rfl
  | cons slot rest ih =>
    have hexec : exec (allOf (insertProperty vid labelId) (slot :: rest)) s =
        exec (allOf (insertProperty vid labelId) rest) (s.put .vertexData
          (encodeVertexDataPropKey vid labelId slot.1) (encode slot.2)) :=
      exec_andThen rfl
    rw [hexec, ih, map_cons, ← singleton_append, slotBytes_append, Option.or_assoc]
    congr 1
    rw [propRow, put_get]
    by_cases hcand : (labelId, slot.1) = cand
    · subst hcand
      simp [slotBytes]
    · have hkey : ¬ (TableName.vertexData = .vertexData ∧ encodeVertexDataPropKey vid cand.1 cand.2 =
            encodeVertexDataPropKey vid labelId slot.1) := by
        rintro ⟨-, hkey⟩
        have heq := congrArg decodeVertexDataPropKey hkey
        rw [decodeVertexDataPropKey_encode, decodeVertexDataPropKey_encode] at heq
        exact hcand heq.symm
      rw [if_neg hkey]
      simp [slotBytes, hcand, propRow]

/-- The slots of one group, as the summary lists them. -/
def groupSlots (group : LabelId × Properties) : List (LabelId × PropId × PropertyValue) :=
  if group.1 = INVALID_LABEL_ID then [] else (slots group.2).map fun slot => (group.1, slot)

lemma summarySlots_cons (group : LabelId × Properties) (rest : LabelProps) :
    summarySlots (group :: rest) = groupSlots group ++ summarySlots rest := by
  unfold summarySlots validGroups groupSlots
  by_cases hvalid : group.1 = INVALID_LABEL_ID
  · simp [hvalid]
  · simp [hvalid]

lemma exec_insertLabelGroup (vid : VertexId) (group : LabelId × Properties) (s : Store) :
    (exec (insertLabelGroup vid group) s).1 = true ∧
    (∀ cand, propRow (exec (insertLabelGroup vid group) s).2 vid cand =
      (slotBytes (groupSlots group).reverse cand).or (propRow s vid cand)) ∧
    (∀ l, hasLabel (exec (insertLabelGroup vid group) s).2 vid l ↔
      (group.1 ≠ INVALID_LABEL_ID ∧ l = group.1) ∨ hasLabel s vid l) := by
  by_cases hvalid : group.1 = INVALID_LABEL_ID
  · simp [insertLabelGroup, hvalid, groupSlots, slotBytes]
  · obtain ⟨s₁, hs₁⟩ : ∃ s₁, s₁ = (s.put .vertexData (encodeVertexDataLabelKey vid group.1) []).put
      (.labelFwdTable group.1) (encodeLabelForwardKey vid) [] := ⟨_, rfl⟩
    have hexec : exec (insertLabelGroup vid group) s =
        exec (allOf (insertProperty vid group.1) (slots group.2)) s₁ := by
      rw [insertLabelGroup, if_neg hvalid, exec_andThen_put, exec_andThen_put, hs₁]
    have hprop : ∀ cand, propRow s₁ vid cand = propRow s vid cand := by
      intro cand
      rw [hs₁, propRow, put_get_of_ne _ _ _ _ _ _ (inl (by simp)),
        put_get_of_ne _ _ _ _ _ _ (inr ?_)]
      · rfl
      · rw [encodeVertexDataPropKey, encodeVertexDataLabelKey, ne_eq, sectionKey_inj]
        exact fun heq => absurd heq.2.1 (by decide)
    have hframe : ∀ l, (exec (allOf (insertProperty vid group.1) (slots group.2)) s₁).2.get
        .vertexData (encodeVertexDataLabelKey vid l) =
        s₁.get .vertexData (encodeVertexDataLabelKey vid l) := by
      intro l
      have honly : WritesOnly (fun table key => table = .vertexData ∧
          ∃ p, key = encodeVertexDataPropKey vid group.1 p)
          (allOf (insertProperty vid group.1) (slots group.2)) :=
        .allOf fun slot _ => .put _ ⟨rfl, _, rfl⟩ _
      refine honly s₁ _ _ ?_
      rintro ⟨-, p, hkey⟩
      rw [encodeVertexDataPropKey, encodeVertexDataLabelKey, sectionKey_inj] at hkey
      exact absurd hkey.2.1 (by decide)
    rw [hexec]
    refine ⟨?_, fun cand => ?_, fun l => ?_⟩
    · rw [exec_allOf_insertProperty]
    · rw [propRow_allOf_insertProperty, hprop, groupSlots, if_neg hvalid]
    · rw [hasLabel, hframe, hs₁, put_get_of_ne _ _ _ _ _ _ (inl (by simp)), put_get]
      by_cases hl : l = group.1
      · simp [hl, hvalid]
      · have hkey : ¬ (TableName.vertexData = .vertexData ∧ encodeVertexDataLabelKey vid l =
            encodeVertexDataLabelKey vid group.1) := by
          rintro ⟨-, hkey⟩
          have heq := congrArg decodeVertexDataLabelKey hkey
          rw [decodeVertexDataLabelKey_encode, decodeVertexDataLabelKey_encode] at heq
          exact hl heq
        rw [if_neg hkey]
        simp [hl, hasLabel]

lemma exec_insertLabelGroups (vid : VertexId) (labelProps : LabelProps) (s : Store) :
    (exec (allOf (insertLabelGroup vid) labelProps) s).1 = true ∧
    (∀ cand, propRow (exec (allOf (insertLabelGroup vid) labelProps) s).2 vid cand =
      (slotBytes (summarySlots labelProps).reverse cand).or (propRow s vid cand)) ∧
    (∀ l, hasLabel (exec (allOf (insertLabelGroup vid) labelProps) s).2 vid l ↔
      l ∈ summaryLabels labelProps ∨ hasLabel s vid l) := by
  induction labelProps generalizing s with
  | nil => exact ⟨rfl, fun cand => rfl, fun l => by simp [allOf, summaryLabels, validGroups]⟩
  | cons group rest ih =>
    obtain ⟨htrue, hprop, hlabel⟩ := exec_insertLabelGroup vid group s
    obtain ⟨htrue', hprop', hlabel'⟩ := ih (exec (insertLabelGroup vid group) s).2
    have hexec : exec (allOf (insertLabelGroup vid) (group :: rest)) s =
        exec (allOf (insertLabelGroup vid) rest) (exec (insertLabelGroup vid group) s).2 :=
      exec_andThen (Prod.ext htrue rfl)
    rw [hexec]
    refine ⟨htrue', fun cand => ?_, fun l => ?_⟩
    · rw [hprop', hprop, summarySlots_cons, slotBytes_append, Option.or_assoc]
    · rw [hlabel', hlabel]
      by_cases hvalid : group.1 = INVALID_LABEL_ID
      · simp [summaryLabels, validGroups, hvalid]
      · simp only [summaryLabels, validGroups, ne_eq, hvalid, not_false_eq_true, decide_true,
          filter_cons_of_pos, map_cons, mem_cons, true_and]
        tauto

/-- Rows of the vertex other than its summary. -/
def ofVertexRows (vid : VertexId) (table : TableName) (key : Bytes) : Prop :=
  ofVertex vid table key ∧ table ≠ .vertexSummary

lemma writesOnly_insertLabelGroup_ofVertex (vid : VertexId) (group : LabelId × Properties) :
    WritesOnly (ofVertexRows vid) (insertLabelGroup vid group) := by
  refine .ite (.pure true) (.andThen (.put _ ⟨ofVertex_section _ _ _, by simp⟩ _) (.andThen ?_ ?_))
  · exact .put _ ⟨ofVertex_forward vid group.1, by simp⟩ _
  · exact .allOf fun slot _ => .put _ ⟨ofVertex_section _ _ _, by simp⟩ _

lemma exec_initAdjacencyStates (capacity : UInt32) (vid : VertexId) (s : Store) :
    ∃ s₁, exec (if 0 < capacity then allOf (initAdjacencyState vid) [.OUT, .IN]
        else Pure.pure true) s = (true, s₁) ∧ ChangesOnly s s₁ (ofVertexRows vid) ∧
      (∀ l, hasLabel s₁ vid l ↔ hasLabel s vid l) ∧
      ∀ cand, propRow s₁ vid cand = propRow s vid cand := by
  split
  · have hput : ∀ (s : Store) (direction : Direction) (sec : UInt8) (rest value : Bytes),
        sec ≠ (adjacencyKind direction).byte →
        (s.put .vertexData (encodeVertexDataAdjStateKey vid direction) value).get .vertexData
          (sectionKey vid sec rest) = s.get .vertexData (sectionKey vid sec rest) :=
      fun s direction sec rest value hsec => put_get_of_ne _ _ _ _ _ _
        (inr fun heq => hsec (sectionKey_inj.mp heq).2.1)
    refine ⟨(s.put .vertexData (encodeVertexDataAdjStateKey vid .OUT) (encodeAdjacencyState
      .COMPLETE 0)).put .vertexData (encodeVertexDataAdjStateKey vid .IN) (encodeAdjacencyState
      .COMPLETE 0), rfl, ?_, fun l => ?_, fun cand => ?_⟩
    · exact ((ChangesOnly.refl s _).put ⟨ofVertex_section _ _ _, by simp⟩ _).put
        ⟨ofVertex_section _ _ _, by simp⟩ _
    · rw [hasLabel, encodeVertexDataLabelKey, hput _ _ _ _ _ (by decide),
        hput _ _ _ _ _ (by decide)]
      rfl
    · rw [propRow, encodeVertexDataPropKey, hput _ _ _ _ _ (by decide),
        hput _ _ _ _ _ (by decide)]
      rfl
  · exact ⟨s, rfl, .refl s _, fun _ => Iff.rfl, fun _ => rfl⟩

/-- The state an insert leaves to `publishSummary`: the canonical rows are written. -/
theorem exec_insertVertex (capacity : UInt32) (vid : VertexId) (labelProps : LabelProps) (s : Store) :
    ∃ s₁, exec (insertVertex capacity vid labelProps) s =
        exec (publishSummary vid labelProps) s₁ ∧ ChangesOnly s s₁ (ofVertexRows vid) ∧
      (∀ cand, propRow s₁ vid cand = (slotBytes (summarySlots labelProps).reverse cand).or (propRow s vid cand)) ∧
      ∀ l, hasLabel s₁ vid l ↔ l ∈ summaryLabels labelProps ∨ hasLabel s vid l := by
  obtain ⟨s₀, hs₀⟩ : ∃ s₀, s₀ = s.put .vertexExistence (encodeVertexExistenceKey vid) [] := ⟨_, rfl⟩
  have hdata : ∀ key, s₀.get .vertexData key = s.get .vertexData key := fun key => by
    rw [hs₀, put_get_of_ne _ _ _ _ _ _ (inl (by simp))]
  have hframe₀ : ChangesOnly s s₀ (ofVertexRows vid) := hs₀ ▸ (ChangesOnly.refl s _).put
    ⟨ofVertex_existence vid, by simp⟩ _
  obtain ⟨s₁, hadj, hframe₁, hlabel₁, hprop₁⟩ := exec_initAdjacencyStates capacity vid s₀
  obtain ⟨htrue, hprop, hlabel⟩ := exec_insertLabelGroups vid labelProps s₁
  refine ⟨(exec (allOf (insertLabelGroup vid) labelProps) s₁).2, ?_, ?_, fun cand => ?_, fun l => ?_⟩
  · rw [insertVertex, exec_andThen_put, ← hs₀, exec_andThen hadj, exec_andThen (Prod.ext htrue rfl)]
  · have hgroups : WritesOnly (ofVertexRows vid) (allOf (insertLabelGroup vid) labelProps) :=
      .allOf fun group _ => writesOnly_insertLabelGroup_ofVertex vid group
    exact (hframe₀.trans hframe₁).trans (hgroups s₁)
  · rw [hprop, hprop₁, propRow, hdata]
    rfl
  · rw [hlabel, hlabel₁, hasLabel, hdata]
    rfl

end Insert

end Eugraph.DataStore
