import Eugraph.Meta.IndexIds

/-!
# Which operation publishes an index

An index is registered in state `WRITE_ONLY`, so of all operations only a state change to
`PUBLIC` can add an index to the public ones, and after a registration that state change
reaches the index that was registered.
-/

namespace Eugraph.MetaStore

open Lib Lib.Handler DataStore List Lib.KeyedMap Option

namespace GraphSchema

/-- A label has the index, and it is public. -/
def PublicIndex (s : GraphSchema) (labelId : LabelId) (idx : IndexDef) : Prop :=
  ∃ d, s.getLabelById labelId = some d ∧ idx ∈ d.indexes ∧ idx.state = .PUBLIC

def PublicEdgeIndex (s : GraphSchema) (labelId : EdgeLabelId) (idx : IndexDef) : Prop :=
  ∃ d, s.getEdgeLabelById labelId = some d ∧ idx ∈ d.indexes ∧ idx.state = .PUBLIC

end GraphSchema

/-- Every public index was public before. -/
structure NoNewPublic (s s' : GraphSchema) : Prop where
  labels : ∀ labelId idx, s'.PublicIndex labelId idx → s.PublicIndex labelId idx
  edgeLabels : ∀ labelId idx, s'.PublicEdgeIndex labelId idx → s.PublicEdgeIndex labelId idx

namespace NoNewPublic

variable {s s' s'' : GraphSchema}

lemma refl (s : GraphSchema) : NoNewPublic s s := ⟨fun _ _ h => h, fun _ _ h => h⟩

lemma trans (h : NoNewPublic s s') (h' : NoNewPublic s' s'') : NoNewPublic s s'' :=
  ⟨fun l idx hp => h.labels l idx (h'.labels l idx hp), fun l idx hp => h.edgeLabels l idx (h'.edgeLabels l idx hp)⟩

/-- Where nothing is published, there is nothing to show about what is. -/
theorem nothing_published (h : NoNewPublic s s') {P : LabelId → IndexDef → Prop}
    {P' : EdgeLabelId → IndexDef → Prop} :
    (∀ labelId idx, ¬ s.PublicIndex labelId idx → s'.PublicIndex labelId idx → P labelId idx) ∧
    ∀ labelId idx, ¬ s.PublicEdgeIndex labelId idx → s'.PublicEdgeIndex labelId idx → P' labelId idx :=
  ⟨fun labelId idx hnew hpublic => absurd (h.labels labelId idx hpublic) hnew,
    fun labelId idx hnew hpublic => absurd (h.edgeLabels labelId idx hpublic) hnew⟩

lemma takeIndexId (s : GraphSchema) : NoNewPublic s s.takeIndexId := ⟨fun _ _ h => h, fun _ _ h => h⟩

lemma of_registered (h : Registered s s') : NoNewPublic s s' where
  labels labelId idx hpublic := by
    obtain ⟨d', hget, hmem, hstate⟩ := hpublic
    rcases h.labels _ d' hget with hnil | ⟨d, hget', heq⟩
    · rw [hnil] at hmem
      exact nomatch hmem
    · exact ⟨d, hget', heq ▸ hmem, hstate⟩
  edgeLabels labelId idx hpublic := by
    obtain ⟨d', hget, hmem, hstate⟩ := hpublic
    rcases h.edgeLabels _ d' hget with hnil | ⟨d, hget', heq⟩
    · rw [hnil] at hmem
      exact nomatch hmem
    · exact ⟨d, hget', heq ▸ hmem, hstate⟩

theorem public_of_set {ν : Type} {key : ν → Nat} {indexes : ν → List IndexDef} {m : KeyedMap Nat ν key}
    {d before : ν} {k : Nat} {idx : IndexDef} (hbefore : m.get (key before) = some before)
    (hid : key d = key before) (hindexes : ∀ idx ∈ indexes d, idx.state = .PUBLIC → idx ∈ indexes before)
    (h : ∃ d', (m.set d).get k = some d' ∧ idx ∈ indexes d' ∧ idx.state = .PUBLIC) :
    ∃ d', m.get k = some d' ∧ idx ∈ indexes d' ∧ idx.state = .PUBLIC := by
  obtain ⟨d', hget, hmem, hstate⟩ := h
  rcases eq_or_of_get_set hget with ⟨rfl, rfl⟩ | hget
  · exact ⟨before, hid ▸ hbefore, hindexes idx hmem hstate, hstate⟩
  · exact ⟨d', hget, hmem, hstate⟩

/-- A label gets a definition whose public indexes it had. -/
theorem setLabel {d before : LabelDef} (hbefore : s.labels.get before.id.toNat = some before)
    (hid : d.id = before.id)
    (hindexes : ∀ idx ∈ d.indexes, idx.state = .PUBLIC → idx ∈ before.indexes) :
    NoNewPublic s (s.setLabel d) where
  labels _ _ hpublic := public_of_set hbefore (by rw [hid]) hindexes hpublic
  edgeLabels _ _ h := h

lemma setEdgeLabel {d before : EdgeLabelDef}
    (hbefore : s.edgeLabels.get before.id.toNat = some before) (hid : d.id = before.id)
    (hindexes : ∀ idx ∈ d.indexes, idx.state = .PUBLIC → idx ∈ before.indexes) :
    NoNewPublic s (s.setEdgeLabel d) where
  labels _ _ h := h
  edgeLabels _ _ hpublic := public_of_set hbefore (by rw [hid]) hindexes hpublic

end NoNewPublic

/-! ### The index operations -/

section Operations

variable {s : GraphSchema} {indexes : List IndexDef}

lemma public_of_mem_addIndex {new idx : IndexDef}
    (hnew : new.state ≠ .PUBLIC) (hmem : idx ∈ indexes ++ [new]) (hstate : idx.state = .PUBLIC) :
    idx ∈ indexes := by
  rcases mem_append.mp hmem with hmem | hmem
  · exact hmem
  · obtain rfl := mem_singleton.mp hmem
    exact absurd hstate hnew

lemma noNewPublic_addIndex {before : LabelDef}
    (hbefore : s.labels.get before.id.toNat = some before) {new : IndexDef}
    (hnew : new.state ≠ .PUBLIC) : NoNewPublic s (s.takeIndexId.setLabel (before.addIndex new)) := by
  have hfiled : s.takeIndexId.labels.get before.id.toNat = some before := hbefore
  apply (NoNewPublic.takeIndexId s).trans
  apply NoNewPublic.setLabel hfiled
  · rfl
  · exact fun idx hmem hstate => public_of_mem_addIndex hnew hmem hstate

lemma noNewPublic_addEdgeIndex {before : EdgeLabelDef}
    (hbefore : s.edgeLabels.get before.id.toNat = some before) {new : IndexDef}
    (hnew : new.state ≠ .PUBLIC) : NoNewPublic s (s.setEdgeLabel (before.addIndex new)) := by
  apply NoNewPublic.setEdgeLabel hbefore
  · rfl
  · exact fun idx hmem hstate => public_of_mem_addIndex hnew hmem hstate

lemma noNewPublic_dropIndex (name : String) :
    Ensures anyAnswer (dropIndex name) s fun _ s' => NoNewPublic s s' := by
  apply (dropIndex_cases name).mono
  rintro r s' (rfl | ⟨before, hfound, rfl⟩ | ⟨before, hfound, rfl⟩)
  · exact .refl _
  · apply NoNewPublic.setLabel (filed_of_find hfound)
    · rfl
    · exact fun idx hmem _ => mem_of_mem_eraseP hmem
  · apply NoNewPublic.setEdgeLabel (filed_of_findEdge hfound)
    · rfl
    · exact fun idx hmem _ => mem_of_mem_eraseP hmem

variable {state : IndexState}

/-- A changed list has the old indexes and the first one of that name in its new state. -/
theorem mem_setIndexState {name : String}
    {idx : IndexDef} (h : idx ∈ setIndexState name state indexes) :
    idx ∈ indexes ∨ ∃ old, indexes.find? (·.name = name) = some old ∧ idx = { old with state := state } := by
  induction indexes with
  | nil => exact nomatch h
  | cons head rest ih =>
    unfold setIndexState at h
    split at h
    · rename_i hname
      rcases mem_cons.mp h with rfl | hmem
      · exact .inr ⟨head, by simp [hname], rfl⟩
      · exact .inl (mem_cons_of_mem head hmem)
    · rename_i hname
      rcases mem_cons.mp h with rfl | hmem
      · exact .inl mem_cons_self
      · rcases ih hmem with hold | ⟨old, hfind, rfl⟩
        · exact .inl (mem_cons_of_mem head hold)
        · exact .inr ⟨old, by simp [hname, hfind], rfl⟩

/-- Only the first index of the name changes its state. -/
theorem public_of_mem_setIndexState {name : String}
    {idx : IndexDef} (hstate : state ≠ .PUBLIC) (h : idx ∈ setIndexState name state indexes)
    (hpublic : idx.state = .PUBLIC) : idx ∈ indexes := by
  rcases mem_setIndexState h with hold | ⟨old, -, rfl⟩
  · exact hold
  · exact absurd hpublic hstate

lemma noNewPublic_updateIndexState (name : String) (hstate : state ≠ .PUBLIC) :
    Ensures anyAnswer (updateIndexState name state) s fun _ s' => NoNewPublic s s' := by
  apply (updateIndexState_cases name state).mono
  rintro r s' (⟨-, rfl⟩ | ⟨before, hfound, rfl⟩ | ⟨before, -, hfound, rfl⟩)
  · exact .refl _
  · apply NoNewPublic.setLabel (filed_of_find hfound)
    · rfl
    · exact fun idx hmem hpublic => public_of_mem_setIndexState hstate hmem hpublic
  · apply NoNewPublic.setEdgeLabel (filed_of_findEdge hfound)
    · rfl
    · exact fun idx hmem hpublic => public_of_mem_setIndexState hstate hmem hpublic

end Operations

/-! ### The index of a name after its registration -/

section Registration

variable {s : GraphSchema} {new : IndexDef}

lemma not_named_of_hasIndex (h : s.hasIndex new.name = false) {d : LabelDef}
    (hd : s.labels.get d.id.toNat = some d) : d.indexes.any (·.name = new.name) = false := by
  have hlabels : (s.labels.values.any fun d => d.indexes.any (·.name = new.name)) = false :=
    (Bool.or_eq_false_iff.mp h).1
  have hall := any_eq_false.mp hlabels d (mem_values.mpr hd)
  simpa using hall

lemma not_named_of_hasIndex_edge (h : s.hasIndex new.name = false) {d : EdgeLabelDef}
    (hd : s.edgeLabels.get d.id.toNat = some d) : d.indexes.any (·.name = new.name) = false := by
  have hlabels : (s.edgeLabels.values.any fun d => d.indexes.any (·.name = new.name)) = false :=
    (Bool.or_eq_false_iff.mp h).2
  have hall := any_eq_false.mp hlabels d (mem_values.mpr hd)
  simpa using hall

/-- In a list without the name, the new index is the one of its name. -/
theorem find_new {indexes : List IndexDef} (h : indexes.any (·.name = new.name) = false) :
    (indexes ++ [new]).find? (·.name = new.name) = some new := by
  have hnone : indexes.find? (·.name = new.name) = none := by
    rw [List.find?_eq_none]
    exact any_eq_false.mp h
  rw [List.find?_append, hnone]
  simp

lemma labelOfIndex_addIndex (hname : s.hasIndex new.name = false) (before : LabelDef) :
    (s.takeIndexId.setLabel (before.addIndex new)).labelOfIndex new.name = some (before.addIndex new) := by
  apply find_set
  · intro d hd
    exact not_named_of_hasIndex hname hd
  · simp [LabelDef.addIndex]

lemma labelOfIndex_addEdgeIndex (hname : s.hasIndex new.name = false) (d : EdgeLabelDef) :
    (s.setEdgeLabel d).labelOfIndex new.name = none := by
  apply List.find?_eq_none.mpr
  intro d' hd'
  rw [not_named_of_hasIndex hname (mem_values.mp hd')]
  exact Bool.false_ne_true

lemma edgeLabelOfIndex_addEdgeIndex (hname : s.hasIndex new.name = false) (before : EdgeLabelDef) :
    (s.setEdgeLabel (before.addIndex new)).edgeLabelOfIndex new.name = some (before.addIndex new) := by
  apply find_set
  · intro d hd
    exact not_named_of_hasIndex_edge hname hd
  · simp [EdgeLabelDef.addIndex]

/-- After the state change of a new index, what is public was public or is that index. -/
theorem published_of_set {ν : Type} {key : ν → Nat} (indexes : ν → List IndexDef) (m : KeyedMap Nat ν key)
    {added d : ν} {k : Nat} {idx : IndexDef}
    (hfind : (indexes added).find? (·.name = new.name) = some new) (hid : key d = key added)
    (hd : indexes d = setIndexState new.name .PUBLIC (indexes added))
    (h : ∃ d', ((m.set added).set d).get k = some d' ∧ idx ∈ indexes d' ∧ idx.state = .PUBLIC) :
    (∃ d', (m.set added).get k = some d' ∧ idx ∈ indexes d' ∧ idx.state = .PUBLIC) ∨
      k = key added ∧ idx = { new with state := .PUBLIC } := by
  obtain ⟨d', hget, hmem, hstate⟩ := h
  rcases eq_or_of_get_set hget with ⟨rfl, rfl⟩ | hget
  · rw [hd] at hmem
    rcases mem_setIndexState hmem with hold | ⟨old, hold, rfl⟩
    · exact .inl ⟨added, by rw [get_set, if_pos hid], hold, hstate⟩
    · rw [hfind, some.injEq] at hold
      exact .inr ⟨hid, hold ▸ rfl⟩
  · exact .inl ⟨d', hget, hmem, hstate⟩

/-- Publishing a new vertex index publishes nothing else. -/
theorem publish_addIndex (hname : s.hasIndex new.name = false) {before : LabelDef}
    (hbefore : s.labels.get before.id.toNat = some before) :
    Ensures anyAnswer (updateIndexState new.name .PUBLIC)
      (s.takeIndexId.setLabel (before.addIndex new)) fun _ s' =>
      (∀ labelId idx, s'.PublicEdgeIndex labelId idx → s.PublicEdgeIndex labelId idx) ∧
      ∀ labelId idx, s'.PublicIndex labelId idx →
        (s.takeIndexId.setLabel (before.addIndex new)).PublicIndex labelId idx ∨
        labelId = before.id ∧ idx = { new with state := .PUBLIC } := by
  apply (updateIndexState_cases new.name .PUBLIC).mono
  rintro r s' (⟨-, rfl⟩ | ⟨before', hfound, rfl⟩ | ⟨before', hnone, -, rfl⟩)
  · exact ⟨fun _ _ h => h, fun _ _ h => .inl h⟩
  · rw [labelOfIndex_addIndex hname, some.injEq] at hfound
    subst hfound
    refine ⟨fun _ _ h => h, ?_⟩
    intro labelId idx hpublic
    rcases published_of_set LabelDef.indexes s.labels
      (find_new (not_named_of_hasIndex hname hbefore)) (by rfl) (by rfl) hpublic with h | ⟨hk, rfl⟩
    · exact .inl h
    · exact .inr ⟨UInt16.toNat_inj.mp hk, rfl⟩
  · rw [labelOfIndex_addIndex hname] at hnone
    exact nomatch hnone

/-- Publishing a new edge index publishes nothing else. -/
theorem publish_addEdgeIndex (hname : s.hasIndex new.name = false) {before : EdgeLabelDef}
    (hbefore : s.edgeLabels.get before.id.toNat = some before) :
    Ensures anyAnswer (updateIndexState new.name .PUBLIC)
      (s.setEdgeLabel (before.addIndex new)) fun _ s' =>
      (∀ labelId idx, s'.PublicIndex labelId idx → s.PublicIndex labelId idx) ∧
      ∀ labelId idx, s'.PublicEdgeIndex labelId idx →
        (s.setEdgeLabel (before.addIndex new)).PublicEdgeIndex labelId idx ∨
        labelId = before.id ∧ idx = { new with state := .PUBLIC } := by
  apply (updateIndexState_cases new.name .PUBLIC).mono
  rintro r s' (⟨-, rfl⟩ | ⟨before', hfound, rfl⟩ | ⟨before', -, hfound, rfl⟩)
  · exact ⟨fun _ _ h => h, fun _ _ h => .inl h⟩
  · rw [labelOfIndex_addEdgeIndex hname] at hfound
    exact nomatch hfound
  · rw [edgeLabelOfIndex_addEdgeIndex hname, some.injEq] at hfound
    subst hfound
    refine ⟨fun _ _ h => h, ?_⟩
    intro labelId idx hpublic
    rcases published_of_set EdgeLabelDef.indexes s.edgeLabels
      (find_new (not_named_of_hasIndex_edge hname hbefore)) (by rfl) (by rfl) hpublic with h | ⟨hk, rfl⟩
    · exact .inl h
    · exact .inr ⟨UInt16.toNat_inj.mp hk, rfl⟩

end Registration

/-- A state change leaves the properties of every label. -/
theorem updateIndexState_properties (s : GraphSchema) (name : String) (state : IndexState) :
    Ensures anyAnswer (updateIndexState name state) s fun _ s' =>
      ∀ labelId, (s'.getLabelById labelId).map LabelDef.properties =
        (s.getLabelById labelId).map LabelDef.properties := by
  apply (updateIndexState_cases name state).mono
  rintro r s' (⟨-, rfl⟩ | ⟨before, hfound, rfl⟩ | ⟨before, -, -, rfl⟩) labelId
  · rfl
  · show Option.map LabelDef.properties ((s.labels.set { before with
      indexes := setIndexState name state before.indexes }).get labelId.toNat) = _
    rw [get_set]
    split
    · rename_i hk
      have hbefore : s.getLabelById labelId = some before := by
        show s.labels.get labelId.toNat = some before
        rw [hk]
        exact filed_of_find hfound
      rw [hbefore]
      rfl
    · rfl
  · rfl

end Eugraph.MetaStore
