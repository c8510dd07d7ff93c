import Eugraph.Meta.SchemaAtomicity

/-!
# Ids of vertex indexes

A vertex index gets the next index id when it is registered, and no operation lowers the
counter, so two indexes of one schema history never share an id until the 32-bit counter
wraps.  Also what the operations that create, publish and drop an index leave behind.
-/

namespace Eugraph.MetaStore

open Lib Lib.Handler DataStore List

/-- The index ids of a label are below `n`. -/
def LabelDef.IndexIdsBelow (n : UInt32) (d : LabelDef) : Prop := ∀ idx ∈ d.indexes, idx.indexId < n

/-- All index ids are below the counter. -/
def IndexIdsBelow (s : GraphSchema) : Prop :=
  ∀ k d, s.labels.get k = some d → d.IndexIdsBelow s.nextIds.nextIndexId

/-- The ids stay below the counter, which does not go back. -/
structure KeptIds (s s' : GraphSchema) : Prop where
  below : IndexIdsBelow s'
  counter : s.nextIds.nextIndexId ≤ s'.nextIds.nextIndexId

lemma KeptIds.refl {s : GraphSchema} (h : IndexIdsBelow s) : KeptIds s s := ⟨h, UInt32.le_refl _⟩

lemma KeptIds.trans {s s' s'' : GraphSchema} (h : KeptIds s s') (h' : KeptIds s' s'') : KeptIds s s'' :=
  ⟨h'.below, UInt32.le_trans h.counter h'.counter⟩

/-! ### Registration of labels and properties -/

/-- The definitions may have changed, but no label has an index that it did not have. -/
structure Registered (s s' : GraphSchema) : Prop where
  labels : ∀ k d', s'.labels.get k = some d' →
    d'.indexes = [] ∨ ∃ d, s.labels.get k = some d ∧ d.indexes = d'.indexes
  edgeLabels : ∀ k d', s'.edgeLabels.get k = some d' →
    d'.indexes = [] ∨ ∃ d, s.edgeLabels.get k = some d ∧ d.indexes = d'.indexes
  counter : s'.nextIds.nextIndexId = s.nextIds.nextIndexId

/-- The operation registers no index. -/
abbrev Registers {α : Type} (m : MetaHandler α) (s : GraphSchema) : Prop :=
  Ensures anyAnswer m s fun _ s' => Registered s s'

namespace Registered

variable {s s' s'' : GraphSchema}

/-- The label maps and the counter decide. -/
theorem congr (hlabels : s'.labels = s.labels) (hedges : s'.edgeLabels = s.edgeLabels)
    (hnext : s'.nextIds.nextIndexId = s.nextIds.nextIndexId) : Registered s s' where
  labels _ d' hget := .inr ⟨d', hlabels ▸ hget, rfl⟩
  edgeLabels _ d' hget := .inr ⟨d', hedges ▸ hget, rfl⟩
  counter := hnext

lemma refl (s : GraphSchema) : Registered s s := congr rfl rfl rfl

lemma trans (h : Registered s s') (h' : Registered s' s'') : Registered s s'' where
  labels k d'' hget := by
    rcases h'.labels k d'' hget with hnil | ⟨d', hget', heq'⟩
    · exact .inl hnil
    · rcases h.labels k d' hget' with hnil | ⟨d, hget, heq⟩
      · exact .inl (heq' ▸ hnil)
      · exact .inr ⟨d, hget, heq.trans heq'⟩
  edgeLabels k d'' hget := by
    rcases h'.edgeLabels k d'' hget with hnil | ⟨d', hget', heq'⟩
    · exact .inl hnil
    · rcases h.edgeLabels k d' hget' with hnil | ⟨d, hget, heq⟩
      · exact .inl (heq' ▸ hnil)
      · exact .inr ⟨d, hget, heq.trans heq'⟩
  counter := h'.counter.trans h.counter

/-- A definition without new indexes is written. -/
theorem kept_set {ν : Type} {key : ν → Nat} {indexes : ν → List IndexDef} {m : KeyedMap Nat ν key}
    {d d' : ν} {k : Nat} (hd : indexes d = [] ∨ ∃ before, m.get (key d) = some before ∧ indexes before = indexes d)
    (hget : (m.set d).get k = some d') :
    indexes d' = [] ∨ ∃ before, m.get k = some before ∧ indexes before = indexes d' := by
  rcases KeyedMap.eq_or_of_get_set hget with ⟨rfl, rfl⟩ | hget
  · exact hd
  · exact .inr ⟨d', hget, rfl⟩

lemma setLabel {d : LabelDef} (hd : d.indexes = [] ∨
    ∃ before, s.labels.get d.id.toNat = some before ∧ before.indexes = d.indexes) :
    Registered s (s.setLabel d) where
  labels _ _ hget := kept_set hd hget
  edgeLabels _ d' hget := .inr ⟨d', hget, rfl⟩
  counter := rfl

lemma setEdgeLabel {d : EdgeLabelDef} (hd : d.indexes = [] ∨
    ∃ before, s.edgeLabels.get d.id.toNat = some before ∧ before.indexes = d.indexes) :
    Registered s (s.setEdgeLabel d) where
  labels _ d' hget := .inr ⟨d', hget, rfl⟩
  edgeLabels _ _ hget := kept_set hd hget
  counter := rfl

lemma keptIds (h : Registered s s') (hbelow : IndexIdsBelow s) : KeptIds s s' := by
  constructor
  · intro k d' hget idx hidx
    rw [h.counter]
    rcases h.labels k d' hget with hnil | ⟨d, hget', heq⟩
    · rw [hnil] at hidx
      exact nomatch hidx
    · exact hbelow k d hget' idx (heq ▸ hidx)
  · rw [h.counter]
    exact UInt32.le_refl _

end Registered

section Edits

variable {α : Type} {s : GraphSchema} {body : MetaHandler Unit}

/-- An edit ends with its result, or with an exception and the undo. -/
theorem orUndo_cases {edit undo : GraphSchema → GraphSchema} (hbody : KeepsSchema body) (a : α) :
    Ensures anyAnswer (do modify edit; orUndo body undo; pure a) s fun r s' =>
      (r = .ok a ∧ s' = edit s) ∨ (∃ message, r = .error message) ∧ s' = undo (edit s) := by
  rw [ensures_bind, ensures_modify, orUndo, ensures_bind, ensures_tryCatch]
  apply (hbody (edit s)).mono
  rintro (message | _) s' rfl
  · simp
  · simp

lemma setLabel_restore {d before : LabelDef} (hbefore : s.labels.get before.id.toNat = some before)
    (hid : d.id = before.id) : (s.setLabel d).setLabel before = s := by
  have hlabels : (s.labels.set d).set before = s.labels := KeyedMap.set_restore hbefore (by rw [hid])
  show { s with labels := (s.labels.set d).set before } = s
  rw [hlabels]

lemma setEdgeLabel_restore {d before : EdgeLabelDef}
    (hbefore : s.edgeLabels.get before.id.toNat = some before) (hid : d.id = before.id) :
    (s.setEdgeLabel d).setEdgeLabel before = s := by
  have hlabels : (s.edgeLabels.set d).set before = s.edgeLabels := KeyedMap.set_restore hbefore (by rw [hid])
  show { s with edgeLabels := (s.edgeLabels.set d).set before } = s
  rw [hlabels]

/-- A label gets a definition with the same indexes. -/
theorem registers_editLabel {d before : LabelDef} (hbody : KeepsSchema body)
    (hbefore : s.labels.get before.id.toNat = some before) (hid : d.id = before.id)
    (hindexes : d.indexes = before.indexes) (a : α) :
    Registers (do modify (·.setLabel d); orUndo body (·.setLabel before); pure a) s := by
  apply (orUndo_cases hbody a).mono
  rintro r s' (⟨-, rfl⟩ | ⟨-, rfl⟩)
  · exact .setLabel (.inr ⟨before, hid ▸ hbefore, hindexes.symm⟩)
  · rw [setLabel_restore hbefore hid]
    exact .refl s

lemma registers_editEdgeLabel {d before : EdgeLabelDef} (hbody : KeepsSchema body)
    (hbefore : s.edgeLabels.get before.id.toNat = some before) (hid : d.id = before.id)
    (hindexes : d.indexes = before.indexes) (a : α) :
    Registers (do modify (·.setEdgeLabel d); orUndo body (·.setEdgeLabel before); pure a) s := by
  apply (orUndo_cases hbody a).mono
  rintro r s' (⟨-, rfl⟩ | ⟨-, rfl⟩)
  · exact .setEdgeLabel (.inr ⟨before, hid ▸ hbefore, hindexes.symm⟩)
  · rw [setEdgeLabel_restore hbefore hid]
    exact .refl s

end Edits

/-! ### One lemma per operation -/

section Registrations

variable {s : GraphSchema}

lemma mergeProperties_kept (name : String) (properties : List PropertyDef)
    (nextPropId : UInt16) (d : LabelDef) (changed : Bool) :
    (mergeProperties name properties nextPropId d changed).1.indexes = d.indexes ∧
      (mergeProperties name properties nextPropId d changed).1.id = d.id := by
  fun_induction mergeProperties name properties nextPropId d changed with
  | case1 => exact ⟨rfl, rfl⟩
  | case2 => exact ⟨rfl, rfl⟩
  | case3 _ _ _ _ _ _ _ _ ih => exact ih
  | case4 _ _ _ _ _ _ ih => exact ih

lemma registers_mergeIntoLabel (name : String) (properties : List PropertyDef)
    {before : LabelDef} (hbefore : s.labels.get before.id.toNat = some before) :
    Registers (mergeIntoLabel name before properties) s := by
  obtain ⟨hindexes, hid⟩ := mergeProperties_kept name properties (UInt16.ofNat before.properties.length) before false
  have hedit : Registered s (s.setLabel (mergeProperties name properties
      (UInt16.ofNat before.properties.length) before false).1) :=
    .setLabel (.inr ⟨before, hid ▸ hbefore, hindexes.symm⟩)
  unfold mergeIntoLabel
  dsimp only
  cases hmerged : (mergeProperties name properties (UInt16.ofNat before.properties.length) before false).2 with
  | error conflict => exact hedit
  | ok changed =>
    cases changed with
    | false => exact hedit
    | true =>
      exact registers_editLabel (keepsSchema_persistLabelDef _) hbefore hid hindexes before.id

lemma registers_createNewLabel (name : String) (properties : List PropertyDef)
    (pkProps : List String) : Registers (createNewLabel name properties pkProps) s := by
  simp only [Registers, createNewLabel, ensures_bind, ensures_get, ensures_modify, ensures_fromExcept]
  split
  · apply (keepsSchema_persistLabelDef _ _).mono
    rintro (message | _) s' rfl
    · exact .congr rfl rfl rfl
    · apply (keepsSchema_saveNextIds _).mono
      rintro (message | _) s' rfl
      · exact .congr rfl rfl rfl
      · simp only [ensures_pure]
        exact (Registered.setLabel (.inl rfl)).trans (.congr rfl rfl rfl)
  · exact .congr rfl rfl rfl

lemma registers_createLabel (name : String) (properties : List PropertyDef) (pkProps : List String) (merge : Bool) :
    Registers (createLabel name properties pkProps merge) s := by
  rw [Registers, createLabel, ensures_bind, ensures_get]
  dsimp only
  cases s.labelNameToId name with
  | none => exact registers_createNewLabel name properties pkProps
  | some existingId =>
    dsimp only
    cases hexisting : s.getLabelById existingId with
    | none => exact .refl s
    | some before =>
      cases merge with
      | true => exact registers_mergeIntoLabel name properties (filed_of_getLabelById hexisting)
      | false => exact (ensures_fromExcept _).mpr (.refl s)

lemma registers_createEdgeLabel (name : String) (properties : List PropertyDef) :
    Registers (createEdgeLabel name properties) s := by
  simp only [Registers, createEdgeLabel, ensures_bind, ensures_get, ensures_modify, ensures_ite]
  constructor
  · intro _
    exact .refl s
  · intro _
    apply (keepsSchema_persistEdgeLabelDef _ _).mono
    rintro (message | _) s' rfl
    · exact .congr rfl rfl rfl
    · apply (keepsSchema_saveNextIds _).mono
      rintro (message | _) s' rfl
      · exact .congr rfl rfl rfl
      · simp only [ensures_pure]
        exact (Registered.setEdgeLabel (.inl rfl)).trans (.congr rfl rfl rfl)

lemma registers_addVertexLabelProperties (name : String) (propDefs : List (String × PropertyType)) :
    Registers (addVertexLabelProperties name propDefs) s := by
  simp only [Registers, addVertexLabelProperties, ensures_bind, ensures_get]
  cases hlabel : s.getLabel name with
  | none => exact .refl s
  | some before =>
    apply registers_editLabel (keepsSchema_persistLabelDef _) (filed_of_getLabel hlabel)
    · rfl
    · rfl

lemma registers_addEdgeLabelProperties (name : String) (propDefs : List (String × PropertyType)) :
    Registers (addEdgeLabelProperties name propDefs) s := by
  simp only [Registers, addEdgeLabelProperties, ensures_bind, ensures_get]
  cases hlabel : s.getEdgeLabel name with
  | none => exact .refl s
  | some before =>
    apply registers_editEdgeLabel (keepsSchema_persistEdgeLabelDef _) (filed_of_getEdgeLabel hlabel)
    · rfl
    · rfl

lemma registers_getOrCreateAnonPropId (propName : String) (propType : PropertyType) :
    Registers (getOrCreateAnonPropId propName propType) s := by
  simp only [Registers, getOrCreateAnonPropId, ensures_bind, ensures_get]
  cases hanon : s.labels.values.find? (·.name = anonLabelName) with
  | none => exact .refl s
  | some before =>
    dsimp only
    split
    · exact .refl s
    · apply registers_editLabel (keepsSchema_persistLabelDef _) (filed_of_find hanon)
      · rfl
      · rfl

end Registrations

/-- The operations on labels and properties. -/
def MetaOp.registers : MetaOp → Bool
  | .createLabel .. => true
  | .createEdgeLabel .. => true
  | .addVertexLabelProperties .. => true
  | .addEdgeLabelProperties .. => true
  | .getOrCreateAnonPropId .. => true
  | _ => false

/-- A wrapped result leaves the same schema. -/
theorem ensures_map {α β : Type} {m : MetaHandler α} {s : GraphSchema} {P : GraphSchema → Prop}
    (h : Ensures anyAnswer m s fun _ s' => P s') (f : α → β) :
    Ensures anyAnswer (do return f (← m)) s fun _ s' => P s' := by
  rw [ensures_bind]
  apply h.mono
  rintro (message | a) s' hP
  · exact hP
  · exact hP

lemma registers_runOp (s : GraphSchema) {op : MetaOp} (hop : op.registers = true) : Registers (runOp op) s := by
  cases op with
  | createLabel name properties pkProps merge =>
    exact ensures_map (registers_createLabel name properties pkProps merge) _
  | createEdgeLabel name properties => exact ensures_map (registers_createEdgeLabel name properties) _
  | addVertexLabelProperties name propDefs =>
    exact ensures_map (registers_addVertexLabelProperties name propDefs) _
  | addEdgeLabelProperties name propDefs =>
    exact ensures_map (registers_addEdgeLabelProperties name propDefs) _
  | getOrCreateAnonPropId propName propType =>
    exact ensures_map (registers_getOrCreateAnonPropId propName propType) _
  | _ => exact nomatch hop

/-! ### Operations on indexes -/

section Operations

variable {s : GraphSchema}

/-- The schema after an index id was taken. -/
def GraphSchema.takeIndexId (s : GraphSchema) : GraphSchema :=
  { s with nextIds := { s.nextIds with nextIndexId := s.nextIds.nextIndexId + 1 } }

def LabelDef.addIndex (d : LabelDef) (idx : IndexDef) : LabelDef :=
  { d with indexes := d.indexes ++ [idx] }

def EdgeLabelDef.addIndex (d : EdgeLabelDef) (idx : IndexDef) : EdgeLabelDef :=
  { d with indexes := d.indexes ++ [idx] }

lemma lt_succ_of_ne_lastIndex {id : UInt32} (h : id ≠ 0xFFFFFFFF) : id < id + 1 := by
  have hne : id.toNat ≠ 0xFFFFFFFF := fun heq => h (UInt32.toNat_inj.mp heq)
  have hlt : id.toNat < 2 ^ 32 := id.toNat_lt
  rw [UInt32.lt_iff_toNat_lt, UInt32.toNat_add, UInt32.toNat_one]
  omega

lemma IndexIdsBelow.takeIndexId (h : IndexIdsBelow s)
    (hleft : s.nextIds.nextIndexId ≠ 0xFFFFFFFF) : KeptIds s s.takeIndexId := by
  have hlt := lt_succ_of_ne_lastIndex hleft
  constructor
  · intro k d hget idx hidx
    exact UInt32.lt_trans (h k d hget idx hidx) hlt
  · exact UInt32.le_of_lt hlt

/-- A new vertex index has the id that was next. -/
theorem createVertexIndexWithAccessors_cases (name labelName : String)
    (accessors : List IndexAccessorDef) (unique : Bool) :
    Ensures anyAnswer (createVertexIndexWithAccessors name labelName accessors unique) s fun r s' =>
      (r ≠ .ok true ∧ (s' = s ∨ s' = s.takeIndexId)) ∨
      ∃ before, s.getLabel labelName = some before ∧ s.hasIndex name = false ∧ s' = s.takeIndexId.setLabel
          (before.addIndex ⟨s.nextIds.nextIndexId, name, accessors, [], unique, .WRITE_ONLY⟩) := by
  rw [createVertexIndexWithAccessors, ensures_bind, ensures_get]
  simp only [ensures_ite]
  constructor
  · intro _
    exact .inl ⟨by simp, .inl rfl⟩
  intro hname
  cases hlabel : s.getLabel labelName with
  | none => exact .inl ⟨by simp, .inl rfl⟩
  | some before =>
    simp only [ensures_ite]
    refine ⟨fun _ => .inl ⟨by simp, .inl rfl⟩, fun _ => ⟨fun _ => .inl ⟨by simp, .inl rfl⟩, fun _ => ?_⟩⟩
    rw [ensures_bind, ensures_modify]
    simp only [ensures_ite]
    refine ⟨fun _ => .inl ⟨by simp, .inr rfl⟩, fun _ => ?_⟩
    apply (orUndo_cases _ true).mono
    · rintro r s' (⟨-, rfl⟩ | ⟨⟨message, rfl⟩, rfl⟩)
      · exact .inr ⟨before, rfl, by simpa using hname, rfl⟩
      · refine .inl ⟨by simp, .inr ?_⟩
        apply setLabel_restore
        · exact filed_of_getLabel hlabel
        · rfl
    · exact (keepsSchema_persistLabelDef _).bind fun _ =>
        ((keepsSchema_metadataPut _ _).require _).bind fun _ => keepsSchema_saveNextIds

lemma createEdgeIndex_cases (name edgeLabelName : String) (propNames : List String) (unique : Bool) :
    Ensures anyAnswer (createEdgeIndex name edgeLabelName propNames unique) s fun r s' =>
      (r ≠ .ok true ∧ s' = s) ∨
      ∃ before propIds, s.getEdgeLabel edgeLabelName = some before ∧ s.hasIndex name = false ∧
        propNames.mapM (findPropId before.properties) = some propIds ∧
        s' = s.setEdgeLabel (before.addIndex ⟨0, name, [], propIds, unique, .WRITE_ONLY⟩) := by
  rw [createEdgeIndex, ensures_bind, ensures_get]
  simp only [ensures_ite]
  constructor
  · intro _
    exact .inl ⟨by simp, rfl⟩
  intro hname
  cases hlabel : s.getEdgeLabel edgeLabelName with
  | none => exact .inl ⟨by simp, rfl⟩
  | some before =>
    dsimp only
    split
    · exact .inl ⟨by simp, rfl⟩
    · rename_i propIds hpropIds
      simp only [ensures_ite]
      refine ⟨fun _ => .inl ⟨by simp, rfl⟩, fun _ => ?_⟩
      apply (orUndo_cases _ true).mono
      · rintro r s' (⟨-, rfl⟩ | ⟨⟨message, rfl⟩, rfl⟩)
        · exact .inr ⟨before, propIds, rfl, by simpa using hname, hpropIds, rfl⟩
        · refine .inl ⟨by simp, ?_⟩
          apply setEdgeLabel_restore
          · exact filed_of_getEdgeLabel hlabel
          · rfl
      · exact (keepsSchema_persistEdgeLabelDef _).bind fun _ =>
          (keepsSchema_metadataPut _ _).require _

/-- The label with an index of that name. -/
def GraphSchema.labelOfIndex (s : GraphSchema) (name : String) : Option LabelDef :=
  s.labels.values.find? fun d => d.indexes.any (·.name = name)

def GraphSchema.edgeLabelOfIndex (s : GraphSchema) (name : String) : Option EdgeLabelDef :=
  s.edgeLabels.values.find? fun d => d.indexes.any (·.name = name)

/-- One index changes its state, or nothing changes. -/
theorem updateIndexState_cases (name : String) (state : IndexState) :
    Ensures anyAnswer (updateIndexState name state) s fun r s' =>
      (r ≠ .ok true ∧ s' = s) ∨
      (∃ before, s.labelOfIndex name = some before ∧
        s' = s.setLabel { before with indexes := setIndexState name state before.indexes }) ∨
      ∃ before, s.labelOfIndex name = none ∧ s.edgeLabelOfIndex name = some before ∧
        s' = s.setEdgeLabel { before with indexes := setIndexState name state before.indexes } := by
  rw [updateIndexState, ensures_bind, ensures_get]
  dsimp only
  split
  · rename_i before hfound
    apply (orUndo_cases (keepsSchema_persistLabelDef _) true).mono
    rintro r s' (⟨-, rfl⟩ | ⟨⟨message, rfl⟩, rfl⟩)
    · exact .inr (.inl ⟨before, hfound, rfl⟩)
    · refine .inl ⟨by simp, ?_⟩
      apply setLabel_restore
      · exact filed_of_find hfound
      · rfl
  · rename_i hlabels
    split
    · rename_i before hfound
      apply (orUndo_cases (keepsSchema_persistEdgeLabelDef _) true).mono
      rintro r s' (⟨-, rfl⟩ | ⟨⟨message, rfl⟩, rfl⟩)
      · exact .inr (.inr ⟨before, hlabels, hfound, rfl⟩)
      · refine .inl ⟨by simp, ?_⟩
        apply setEdgeLabel_restore
        · exact filed_of_findEdge hfound
        · rfl
    · exact .inl ⟨by simp, rfl⟩

lemma dropIndex_cases (name : String) :
    Ensures anyAnswer (dropIndex name) s fun _ s' => s' = s ∨ (∃ before, s.labelOfIndex name = some before ∧
        s' = s.setLabel { before with indexes := eraseIndex name before.indexes }) ∨
      ∃ before, s.edgeLabelOfIndex name = some before ∧
        s' = s.setEdgeLabel { before with indexes := eraseIndex name before.indexes } := by
  have hdelete : ∀ message, KeepsSchema (require (metadataDel (.index name)) message) :=
    fun message => (keepsSchema_metadataDel _).require message
  rw [dropIndex, ensures_bind, ensures_get]
  dsimp only
  split
  · rename_i before hfound
    apply (orUndo_cases _ true).mono
    · rintro r s' (⟨-, rfl⟩ | ⟨-, rfl⟩)
      · exact .inr (.inl ⟨before, hfound, rfl⟩)
      · refine .inl ?_
        apply setLabel_restore
        · exact filed_of_find hfound
        · rfl
    · exact (keepsSchema_persistLabelDef _).bind fun _ => hdelete _
  · split
    · rename_i before hfound
      apply (orUndo_cases _ true).mono
      · rintro r s' (⟨-, rfl⟩ | ⟨-, rfl⟩)
        · exact .inr (.inr ⟨before, hfound, rfl⟩)
        · refine .inl ?_
          apply setEdgeLabel_restore
          · exact filed_of_findEdge hfound
          · rfl
      · exact (keepsSchema_persistEdgeLabelDef _).bind fun _ => hdelete _
    · exact .inl rfl

/-! ### Ids below the counter -/

/-- The operation keeps the ids below the counter. -/
abbrev KeepsIndexIds {α : Type} (m : MetaHandler α) (s : GraphSchema) : Prop :=
  Ensures anyAnswer m s fun _ s' => KeptIds s s'

lemma IndexIdsBelow.setLabel {d : LabelDef} (h : IndexIdsBelow s)
    (hd : d.IndexIdsBelow s.nextIds.nextIndexId) : KeptIds s (s.setLabel d) := by
  refine ⟨fun k d' hget => ?_, UInt32.le_refl _⟩
  have hget : (s.labels.set d).get k = some d' := hget
  rw [KeyedMap.get_set] at hget
  split at hget
  · exact Option.some.inj hget ▸ hd
  · exact h k d' hget

lemma setIndexState_ids (name : String) (state : IndexState) (indexes : List IndexDef) :
    (setIndexState name state indexes).map IndexDef.indexId = indexes.map IndexDef.indexId := by
  induction indexes with
  | nil => rfl
  | cons idx rest ih =>
    unfold setIndexState
    split
    · rfl
    · rw [map_cons, map_cons, ih]

lemma LabelDef.IndexIdsBelow.of_ids {n : UInt32} {d d' : LabelDef} (h : d.IndexIdsBelow n)
    (hids : ∀ idx ∈ d'.indexes, ∃ idx' ∈ d.indexes, idx'.indexId = idx.indexId) :
    d'.IndexIdsBelow n := by
  intro idx hidx
  obtain ⟨idx', hidx', heq⟩ := hids idx hidx
  rw [← heq]
  exact h idx' hidx'

/-- A label gets an index with the id that was next. -/
theorem IndexIdsBelow.addIndex (h : IndexIdsBelow s) (hleft : s.nextIds.nextIndexId ≠ 0xFFFFFFFF)
    {before : LabelDef} (hbefore : s.labels.get before.id.toNat = some before) {new : IndexDef}
    (hnew : new.indexId = s.nextIds.nextIndexId) :
    KeptIds s (s.takeIndexId.setLabel (before.addIndex new)) := by
  have htaken := h.takeIndexId hleft
  apply htaken.trans
  apply htaken.below.setLabel
  intro idx hidx
  rcases mem_append.mp hidx with hidx | hidx
  · exact htaken.below _ before hbefore idx hidx
  · obtain rfl := mem_singleton.mp hidx
    rw [hnew]
    exact lt_succ_of_ne_lastIndex hleft

lemma keepsIndexIds_updateIndexState (h : IndexIdsBelow s) (name : String) (state : IndexState) :
    KeepsIndexIds (updateIndexState name state) s := by
  apply (updateIndexState_cases name state).mono
  rintro r s' (⟨-, rfl⟩ | ⟨before, hfound, rfl⟩ | ⟨before, -, -, rfl⟩)
  · exact .refl h
  · apply h.setLabel
    apply (h _ before (filed_of_find hfound)).of_ids
    intro idx hidx
    have hmem := mem_map_of_mem (f := IndexDef.indexId) hidx
    rw [setIndexState_ids] at hmem
    exact mem_map.mp hmem
  · exact ⟨h, UInt32.le_refl _⟩

lemma keepsIndexIds_dropIndex (h : IndexIdsBelow s) (name : String) : KeepsIndexIds (dropIndex name) s := by
  apply (dropIndex_cases name).mono
  rintro r s' (rfl | ⟨before, hfound, rfl⟩ | ⟨before, -, rfl⟩)
  · exact .refl h
  · apply h.setLabel
    apply (h _ before (filed_of_find hfound)).of_ids
    intro idx hidx
    exact ⟨idx, mem_of_mem_eraseP hidx, rfl⟩
  · exact ⟨h, UInt32.le_refl _⟩

end Operations


end Eugraph.MetaStore
