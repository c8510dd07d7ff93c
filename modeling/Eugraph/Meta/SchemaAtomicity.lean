import Eugraph.Meta.MetaStore
import Eugraph.Lib.Transition

/-!
# Failed schema operations

An operation that throws should leave the label maps and the name maps as they were,
whichever of its metadata writes failed.  All operations but one edit the schema only
when nothing can throw any more, or undo the edit before they throw on.  The exception is
the merge of properties into an existing label, which throws on a type conflict in the
middle of its loop.
-/

namespace Eugraph.MetaStore

open Lib Lib.Handler DataStore Lib.KeyedMap GraphSchema Lib.Program List

/-- The label maps and the name maps are the same; the id counters may differ. -/
structure GraphSchema.SameMaps (s s' : GraphSchema) : Prop where
  labels : s'.labels = s.labels
  labelNames : s'.labelNameToId = s.labelNameToId
  edgeLabels : s'.edgeLabels = s.edgeLabels
  edgeLabelNames : s'.edgeLabelNameToId = s.edgeLabelNameToId

lemma GraphSchema.SameMaps.refl (s : GraphSchema) : s.SameMaps s := ⟨rfl, rfl, rfl, rfl⟩

/-- Whatever the metadata writes answer. -/
abbrev anyAnswer (c : MetaCall) (_ : MetaAnswer c) : Prop := True

/-- An operation that only writes metadata. -/
abbrev KeepsSchema {α : Type} (m : MetaHandler α) : Prop :=
  ∀ s, Ensures anyAnswer m s fun _ s' => s' = s

/-- If the operation throws, the maps are as they were. -/
abbrev Atomic {α : Type} (m : MetaHandler α) (s : GraphSchema) : Prop :=
  Ensures anyAnswer m s fun r s' => ∀ message, r = .error message → s.SameMaps s'

/-! ### Metadata writes -/

lemma keepsSchema_metadataPut (key : MetaKey) (value : MetaValue) : KeepsSchema (metadataPut key value) := by
  intro s
  simp [metadataPut]

lemma keepsSchema_metadataDel (key : MetaKey) : KeepsSchema (metadataDel key) := by
  intro s
  simp [metadataDel]

variable {α : Type} {m : MetaHandler α}

lemma KeepsSchema.bind {β : Type} {f : α → MetaHandler β}
    (hm : KeepsSchema m) (hf : ∀ a, KeepsSchema (f a)) : KeepsSchema (m >>= f) := by
  intro s
  rw [ensures_bind]
  apply (hm s).mono
  rintro (message | a) s' rfl
  · rfl
  · exact hf a s'

lemma KeepsSchema.require {write : MetaHandler Bool} (h : KeepsSchema write) (message : String) :
    KeepsSchema (require write message) := by
  apply h.bind
  intro ok s
  cases ok <;> simp

lemma keepsSchema_metadataPutBoth (key key' : MetaKey) (value : MetaValue) :
    KeepsSchema (metadataPutBoth key key' value) := by
  apply (keepsSchema_metadataPut key value).bind
  intro ok
  cases ok with
  | false =>
    intro s
    simp
  | true => exact keepsSchema_metadataPut key' value

lemma keepsSchema_persistLabelDef (d : LabelDef) : KeepsSchema (persistLabelDef d) :=
  (keepsSchema_metadataPutBoth _ _ _).require _

lemma keepsSchema_persistEdgeLabelDef (d : EdgeLabelDef) : KeepsSchema (persistEdgeLabelDef d) :=
  (keepsSchema_metadataPutBoth _ _ _).require _

lemma keepsSchema_saveNextIds : KeepsSchema saveNextIds := by
  intro s
  exact (keepsSchema_metadataPut .nextIds (.nextIds s.nextIds)).require _ s

/-! ### Edits that are undone -/

variable {s : GraphSchema} {body : MetaHandler Unit}

/-- An edit, writes that may fail, and the undo on a failure. -/
theorem atomic_orUndo (hbody : KeepsSchema body) {edit undo : GraphSchema → GraphSchema}
    (hundo : s.SameMaps (undo (edit s))) (a : α) :
    Atomic (do modify edit; orUndo body undo; pure a) s := by
  simp only [orUndo, ensures_bind, ensures_modify, ensures_tryCatch]
  apply (hbody (edit s)).mono
  rintro (message | _) s' rfl
  · simpa using hundo
  · simp

variable {d : LabelDef}

/-- A label gets another definition until the writes are known to have failed. -/
theorem atomic_editLabel (hbody : KeepsSchema body) {before : LabelDef}
    (hbefore : s.labels.get before.id.toNat = some before) (hid : d.id = before.id) (a : α) :
    Atomic (do modify (·.setLabel d); orUndo body (·.setLabel before); pure a) s := by
  apply atomic_orUndo hbody
  exact ⟨set_restore hbefore (by rw [hid]), rfl, rfl, rfl⟩

lemma atomic_editEdgeLabel (hbody : KeepsSchema body) {d before : EdgeLabelDef}
    (hbefore : s.edgeLabels.get before.id.toNat = some before) (hid : d.id = before.id) (a : α) :
    Atomic (do modify (·.setEdgeLabel d); orUndo body (·.setEdgeLabel before); pure a) s := by
  apply atomic_orUndo hbody
  exact ⟨rfl, rfl, set_restore hbefore (by rw [hid]), rfl⟩

/-! ### Definitions that are looked up -/

lemma filed_of_getLabelById {id : LabelId} (h : s.getLabelById id = some d) : s.labels.get d.id.toNat = some d := by
  rw [key_of_get h]
  exact h

lemma filed_of_getLabel {name : String} (h : s.getLabel name = some d) : s.labels.get d.id.toNat = some d := by
  unfold getLabel at h
  split at h
  · exact nomatch h
  · exact filed_of_getLabelById h

lemma filed_of_getEdgeLabel {name : String} {d : EdgeLabelDef}
    (h : s.getEdgeLabel name = some d) : s.edgeLabels.get d.id.toNat = some d := by
  unfold getEdgeLabel at h
  split at h
  · exact nomatch h
  · rename_i id _
    rw [key_of_get h]
    exact h

lemma filed_of_find {test : LabelDef → Bool}
    (h : s.labels.values.find? test = some d) : s.labels.get d.id.toNat = some d :=
  mem_values.mp (mem_of_find?_eq_some h)

lemma filed_of_findEdge {test : EdgeLabelDef → Bool} {d : EdgeLabelDef}
    (h : s.edgeLabels.values.find? test = some d) : s.edgeLabels.get d.id.toNat = some d :=
  mem_values.mp (mem_of_find?_eq_some h)

/-! ### One lemma per operation -/

lemma atomic_pure (a : α) (s : GraphSchema) : Atomic (pure a : MetaHandler α) s := by
  simp

/-- A change of the counters alone does not count. -/
theorem Atomic.of_counters {ids : NextIds} (h : Atomic m { s with nextIds := ids }) :
    Ensures anyAnswer m { s with nextIds := ids } fun r s' =>
      ∀ message, r = .error message → s.SameMaps s' := by
  apply Ensures.mono h
  intro r s' hmaps message hr
  obtain ⟨hlabels, hnames, hedgeLabels, hedgeNames⟩ := hmaps message hr
  exact ⟨hlabels, hnames, hedgeLabels, hedgeNames⟩

lemma atomic_createNewLabel (name : String) (properties : List PropertyDef)
    (pkProps : List String) (s : GraphSchema) :
    Atomic (createNewLabel name properties pkProps) s := by
  simp only [createNewLabel, ensures_bind, ensures_get, ensures_modify, ensures_fromExcept]
  split
  · rename_i pkPropIds _
    apply (keepsSchema_persistLabelDef _ _).mono
    rintro (message | _) s' rfl
    · exact fun _ _ => ⟨rfl, rfl, rfl, rfl⟩
    · apply (keepsSchema_saveNextIds _).mono
      rintro (message | _) s' rfl
      · exact fun _ _ => ⟨rfl, rfl, rfl, rfl⟩
      · -- The definition enters the maps only now, when nothing can throw any more.
        simp
  · exact fun _ _ => ⟨rfl, rfl, rfl, rfl⟩

lemma atomic_createEdgeLabel (name : String) (properties : List PropertyDef) (s : GraphSchema) :
    Atomic (createEdgeLabel name properties) s := by
  simp only [createEdgeLabel, ensures_bind, ensures_get, ensures_modify, ensures_ite]
  constructor
  · intro _
    exact atomic_pure _ s
  · intro _
    apply (keepsSchema_persistEdgeLabelDef _ _).mono
    rintro (message | _) s' rfl
    · exact fun _ _ => ⟨rfl, rfl, rfl, rfl⟩
    · apply (keepsSchema_saveNextIds _).mono
      rintro (message | _) s' rfl
      · exact fun _ _ => ⟨rfl, rfl, rfl, rfl⟩
      · simp

lemma atomic_addVertexLabelProperties (name : String) (propDefs : List (String × PropertyType))
    (s : GraphSchema) : Atomic (addVertexLabelProperties name propDefs) s := by
  simp only [addVertexLabelProperties, ensures_bind, ensures_get]
  cases hlabel : s.getLabel name with
  | none => exact atomic_pure false s
  | some before =>
    dsimp only
    apply atomic_editLabel (keepsSchema_persistLabelDef _) (filed_of_getLabel hlabel)
    rfl

lemma atomic_addEdgeLabelProperties (name : String) (propDefs : List (String × PropertyType))
    (s : GraphSchema) : Atomic (addEdgeLabelProperties name propDefs) s := by
  simp only [addEdgeLabelProperties, ensures_bind, ensures_get]
  cases hlabel : s.getEdgeLabel name with
  | none => exact atomic_pure false s
  | some before =>
    dsimp only
    apply atomic_editEdgeLabel (keepsSchema_persistEdgeLabelDef _) (filed_of_getEdgeLabel hlabel)
    rfl

lemma atomic_getOrCreateAnonPropId (propName : String) (propType : PropertyType)
    (s : GraphSchema) : Atomic (getOrCreateAnonPropId propName propType) s := by
  simp only [getOrCreateAnonPropId, ensures_bind, ensures_get]
  cases hanon : s.labels.values.find? (·.name = anonLabelName) with
  | none => exact atomic_pure 0 s
  | some before =>
    dsimp only
    split
    · exact atomic_pure _ s
    · apply atomic_editLabel (keepsSchema_persistLabelDef _) (filed_of_find hanon)
      rfl

lemma atomic_createVertexIndexWithAccessors (name labelName : String)
    (accessors : List IndexAccessorDef) (unique : Bool) (s : GraphSchema) :
    Atomic (createVertexIndexWithAccessors name labelName accessors unique) s := by
  rw [Atomic, createVertexIndexWithAccessors, ensures_bind, ensures_get]
  simp only [ensures_ite]
  refine ⟨fun _ => atomic_pure false s, fun _ => ?_⟩
  cases hlabel : s.getLabel labelName with
  | none => exact atomic_pure false s
  | some before =>
    simp only [ensures_ite]
    refine ⟨fun _ => atomic_pure false s, fun _ => ⟨fun _ => atomic_pure false s, fun _ => ?_⟩⟩
    rw [ensures_bind, ensures_modify]
    simp only [ensures_ite]
    refine ⟨fun _ => by simp, fun _ => ?_⟩
    -- Only the index counter differs from `s` when the edit begins.
    apply Atomic.of_counters
    apply atomic_editLabel
    · exact (keepsSchema_persistLabelDef _).bind fun _ =>
        ((keepsSchema_metadataPut _ _).require _).bind fun _ => keepsSchema_saveNextIds
    · exact filed_of_getLabel hlabel
    · rfl

lemma atomic_createEdgeIndex (name edgeLabelName : String) (propNames : List String)
    (unique : Bool) (s : GraphSchema) :
    Atomic (createEdgeIndex name edgeLabelName propNames unique) s := by
  rw [Atomic, createEdgeIndex, ensures_bind, ensures_get]
  simp only [ensures_ite]
  refine ⟨fun _ => atomic_pure false s, fun _ => ?_⟩
  cases hlabel : s.getEdgeLabel edgeLabelName with
  | none => exact atomic_pure false s
  | some before =>
    dsimp only
    split
    · exact atomic_pure false s
    · simp only [ensures_ite]
      refine ⟨fun _ => atomic_pure false s, fun _ => ?_⟩
      apply atomic_editEdgeLabel _ (filed_of_getEdgeLabel hlabel)
      · rfl
      · exact (keepsSchema_persistEdgeLabelDef _).bind fun _ =>
          (keepsSchema_metadataPut _ _).require _

lemma atomic_updateIndexState (name : String) (state : IndexState) (s : GraphSchema) :
    Atomic (updateIndexState name state) s := by
  rw [Atomic, updateIndexState, ensures_bind, ensures_get]
  dsimp only
  split
  · rename_i before hfound
    apply atomic_editLabel (keepsSchema_persistLabelDef _) (filed_of_find hfound)
    rfl
  · split
    · rename_i before hfound
      apply atomic_editEdgeLabel (keepsSchema_persistEdgeLabelDef _) (filed_of_findEdge hfound)
      rfl
    · exact atomic_pure false s

lemma atomic_dropIndex (name : String) (s : GraphSchema) : Atomic (dropIndex name) s := by
  rw [Atomic, dropIndex, ensures_bind, ensures_get]
  dsimp only
  have hdelete : ∀ message, KeepsSchema (require (metadataDel (.index name)) message) :=
    fun message => (keepsSchema_metadataDel _).require message
  split
  · rename_i before hfound
    apply atomic_editLabel _ (filed_of_find hfound)
    · rfl
    · exact (keepsSchema_persistLabelDef _).bind fun _ => hdelete _
  · split
    · rename_i before hfound
      apply atomic_editEdgeLabel _ (filed_of_findEdge hfound)
      · rfl
      · exact (keepsSchema_persistEdgeLabelDef _).bind fun _ => hdelete _
    · exact atomic_pure false s

/-! ### The merge -/

/-- The name and the type of a property. -/
def PropertyDef.signature (p : PropertyDef) : String × PropertyType := (p.name, p.type)

/-- Whether a requested property that is new stands before the first one whose type
conflicts.  `known` are the properties of the label and those requested so far, and
`added` says whether one of the latter was new. -/
def conflictAfterNew : List (String × PropertyType) → Bool → List PropertyDef → Bool
  | _, _, [] => false
  | known, added, p :: rest =>
    match known.find? (·.1 = p.name) with
    | some found => if found.2 ≠ p.type then added else conflictAfterNew known added rest
    | none => conflictAfterNew (known ++ [p.signature]) true rest

section Merge

variable {name message : String} {p : PropertyDef} {rest : List PropertyDef} {nextPropId : UInt16}
  {d : LabelDef} {changed added : Bool}

lemma conflictAfterNew_of_found {found : PropertyDef} (h : d.properties.find? (·.name = p.name) = some found) :
    conflictAfterNew (d.properties.map PropertyDef.signature) added (p :: rest) =
      if found.type ≠ p.type then added
      else conflictAfterNew (d.properties.map PropertyDef.signature) added rest := by
  have hfound : (d.properties.map PropertyDef.signature).find? (·.1 = p.name) = some found.signature := by
    rw [find?_map]
    exact congrArg (Option.map PropertyDef.signature) h
  rw [conflictAfterNew, hfound]
  rfl

lemma conflictAfterNew_of_new (h : d.properties.find? (·.name = p.name) = none) :
    conflictAfterNew (d.properties.map PropertyDef.signature) added (p :: rest) =
      conflictAfterNew ((d.properties ++ [{ p with id := nextPropId }]).map PropertyDef.signature)
        true rest := by
  have hfound : (d.properties.map PropertyDef.signature).find? (·.1 = p.name) = none := by
    rw [find?_map]
    exact congrArg (Option.map PropertyDef.signature) h
  rw [conflictAfterNew, hfound, map_append]
  rfl

lemma mergeProperties_of_found {found : PropertyDef}
    (h : d.properties.find? (·.name = p.name) = some found) (htype : found.type = p.type) :
    mergeProperties name (p :: rest) nextPropId d changed = mergeProperties name rest nextPropId d changed := by
  simp [mergeProperties, h, htype]

lemma mergeProperties_of_new (h : d.properties.find? (·.name = p.name) = none) :
    mergeProperties name (p :: rest) nextPropId d changed = mergeProperties name rest (nextPropId + 1)
        { d with properties := d.properties ++ [{ p with id := nextPropId }] } true := by
  simp [mergeProperties, h]

end Merge

lemma mergeProperties_id (name : String) (properties : List PropertyDef) (nextPropId : UInt16)
    (d : LabelDef) (changed : Bool) :
    (mergeProperties name properties nextPropId d changed).1.id = d.id := by
  fun_induction mergeProperties name properties nextPropId d changed with
  | case1 => rfl
  | case2 => rfl
  | case3 _ _ _ _ _ _ _ _ ih => exact ih
  | case4 _ _ _ _ _ _ ih => exact ih

/-- The loop only adds properties. -/
theorem length_mergeProperties (name : String) (properties : List PropertyDef) (nextPropId : UInt16)
    (d : LabelDef) (changed : Bool) :
    d.properties.length ≤ (mergeProperties name properties nextPropId d changed).1.properties.length := by
  fun_induction mergeProperties name properties nextPropId d changed with
  | case1 => exact le_rfl
  | case2 => exact le_rfl
  | case3 _ _ _ _ _ _ _ _ ih => exact ih
  | case4 _ _ _ _ _ _ ih =>
    simp only [length_append, length_singleton] at ih
    omega

variable {nextPropId : UInt16} {changed : Bool} {properties : List PropertyDef} {message : String}

/-- A loop that throws throws at a conflict. -/
theorem conflictAfterNew_of_error {name : String}
    (h : (mergeProperties name properties nextPropId d changed).2 = .error message) :
    conflictAfterNew (d.properties.map PropertyDef.signature) true properties = true := by
  induction properties generalizing nextPropId d changed with
  | nil => exact nomatch h
  | cons p rest ih =>
    cases hfound : d.properties.find? (·.name = p.name) with
    | some found =>
      rw [conflictAfterNew_of_found hfound]
      by_cases htype : found.type = p.type
      · rw [mergeProperties_of_found hfound htype] at h
        simpa [htype] using ih h
      · simp [htype]
    | none =>
      rw [mergeProperties_of_new hfound] at h
      rw [conflictAfterNew_of_new hfound]
      exact ih h

/-- A loop that throws leaves the definition as it was exactly if no new property came
before the conflict. -/
theorem mergeProperties_error {name : String}
    (h : (mergeProperties name properties nextPropId d changed).2 = .error message) :
    (mergeProperties name properties nextPropId d changed).1 = d ↔
      conflictAfterNew (d.properties.map PropertyDef.signature) false properties = false := by
  induction properties generalizing nextPropId d changed with
  | nil => exact nomatch h
  | cons p rest ih =>
    cases hfound : d.properties.find? (·.name = p.name) with
    | some found =>
      rw [conflictAfterNew_of_found hfound]
      by_cases htype : found.type = p.type
      · rw [mergeProperties_of_found hfound htype] at h ⊢
        simpa [htype] using ih h
      · simp [mergeProperties, hfound, htype]
    | none =>
      rw [mergeProperties_of_new hfound] at h ⊢
      rw [conflictAfterNew_of_new hfound, conflictAfterNew_of_error h]
      -- The loop has added `p`, and nothing takes it away again.
      have hlength := length_mergeProperties name rest (nextPropId + 1)
        { d with properties := d.properties ++ [{ p with id := nextPropId }] } true
      constructor
      · intro hsame
        rw [hsame] at hlength
        simp at hlength
      · intro hnone
        exact nomatch hnone

/-- The merges that throw after they have changed the label. -/
def ConflictingMerge (s : GraphSchema) : MetaOp → Prop
  | .createLabel name properties _ true => ∃ before, s.getLabel name = some before ∧
      conflictAfterNew (before.properties.map PropertyDef.signature) false properties = true
  | _ => False

/-- A loop that does not throw meets no conflict. -/
theorem conflictAfterNew_of_ok {name : String} {changed' : Bool}
    (h : (mergeProperties name properties nextPropId d changed).2 = .ok changed') (added : Bool) :
    conflictAfterNew (d.properties.map PropertyDef.signature) added properties = false := by
  induction properties generalizing nextPropId d changed added with
  | nil => rfl
  | cons p rest ih =>
    cases hfound : d.properties.find? (·.name = p.name) with
    | some found =>
      rw [conflictAfterNew_of_found hfound]
      by_cases htype : found.type = p.type
      · rw [mergeProperties_of_found hfound htype] at h
        simpa [htype] using ih h added
      · simp [mergeProperties, hfound, htype] at h
    | none =>
      rw [mergeProperties_of_new hfound] at h
      rw [conflictAfterNew_of_new hfound]
      exact ih h true

/-- The maps are the same exactly if the definition that was filed is the old one. -/
theorem sameMaps_setLabel_iff {before : LabelDef}
    (hbefore : s.labels.get before.id.toNat = some before) (hid : d.id = before.id) :
    s.SameMaps (s.setLabel d) ↔ d = before := by
  constructor
  · intro hsame
    have hget : (s.labels.set d).get before.id.toNat = some before := by
      rw [show s.labels.set d = s.labels from hsame.labels]
      exact hbefore
    rw [get_set, if_pos (by rw [hid])] at hget
    exact Option.some.inj hget
  · rintro rfl
    exact ⟨set_self hbefore, rfl, rfl, rfl⟩

/-- A merge that throws leaves the maps alone exactly if it met no conflict after a new
property: a failed write is undone, a conflict is not. -/
theorem mergeIntoLabel_error (name : String) (before : LabelDef) (properties : List PropertyDef)
    (hbefore : s.labels.get before.id.toNat = some before) :
    Ensures anyAnswer (mergeIntoLabel name before properties) s fun r s' =>
      ∀ message, r = .error message → (s.SameMaps s' ↔
        conflictAfterNew (before.properties.map PropertyDef.signature) false properties = false) := by
  have hid := mergeProperties_id name properties (UInt16.ofNat before.properties.length) before false
  rw [mergeIntoLabel, ensures_bind, ensures_modify]
  dsimp only
  rw [ensures_bind, ensures_fromExcept]
  cases hmerged : (mergeProperties name properties (UInt16.ofNat before.properties.length) before false).2 with
  | error conflict =>
    intro _ _
    rw [sameMaps_setLabel_iff hbefore hid]
    exact mergeProperties_error hmerged
  | ok changed =>
    have hnone := conflictAfterNew_of_ok hmerged false
    cases changed with
    | false => simp
    | true =>
      -- Whatever happens now, a failure is undone.
      have hundone := atomic_editLabel (keepsSchema_persistLabelDef (mergeProperties name
        properties (UInt16.ofNat before.properties.length) before false).1) hbefore hid before.id
      rw [Atomic, ensures_bind, ensures_modify] at hundone
      simp only [if_true]
      apply Ensures.mono hundone
      intro r s' hmaps message hr
      exact iff_of_true (hmaps message hr) hnone

lemma atomic_redeclareLabel (name : String) (before : LabelDef) (properties : List PropertyDef)
    (pkProps : List String) (s : GraphSchema) :
    Atomic (fromExcept (redeclareLabel name before properties pkProps)) s := by
  rw [Atomic, ensures_fromExcept]
  exact fun _ _ => .refl s

/-- An atomic operation meets the equivalence where the condition is excluded. -/
theorem Atomic.error_iff (h : Atomic m s) {C : Prop} (hnot : ¬ C) :
    Ensures anyAnswer m s fun r s' => ∀ message, r = .error message → (s.SameMaps s' ↔ ¬ C) :=
  Ensures.mono h fun _ _ hmaps message hr => iff_of_true (hmaps message hr) hnot

lemma createLabel_error (name : String) (properties : List PropertyDef) (pkProps : List String)
    (merge : Bool) (s : GraphSchema) :
    Ensures anyAnswer (createLabel name properties pkProps merge) s fun r s' =>
      ∀ message, r = .error message →
        (s.SameMaps s' ↔ ¬ ConflictingMerge s (.createLabel name properties pkProps merge)) := by
  rw [createLabel, ensures_bind, ensures_get]
  dsimp only
  cases hname : s.labelNameToId name with
  | none =>
    apply (atomic_createNewLabel name properties pkProps s).error_iff
    cases merge with
    | false => exact id
    | true =>
      rintro ⟨before, hbefore, -⟩
      simp [getLabel, hname] at hbefore
  | some existingId =>
    have hlabel : s.getLabel name = s.getLabelById existingId := by
      simp [getLabel, hname]
    dsimp only
    cases hexisting : s.getLabelById existingId with
    | none =>
      have hat : Atomic (throw "unordered_map::at" : MetaHandler LabelId) s := by
        simpa using GraphSchema.SameMaps.refl s
      apply hat.error_iff
      cases merge with
      | false => exact id
      | true =>
        rintro ⟨before, hbefore, -⟩
        rw [hlabel, hexisting] at hbefore
        exact nomatch hbefore
    | some before =>
      cases merge with
      | false => exact (atomic_redeclareLabel name before properties pkProps s).error_iff id
      | true =>
        simp only [if_true]
        apply Ensures.mono (mergeIntoLabel_error name before properties (filed_of_getLabelById hexisting))
        intro r s' hmaps message hr
        rw [hmaps message hr]
        simp [ConflictingMerge, hlabel, hexisting]

/-- A wrapped result fails as the operation does. -/
theorem ensures_returnsId {m : MetaHandler UInt16} {P : GraphSchema → Prop}
    (h : Ensures anyAnswer m s fun r s' => ∀ message, r = .error message → P s') :
    Ensures anyAnswer (returnsId m) s fun r s' => ∀ message, r = .error message → P s' := by
  rw [returnsId, ensures_bind]
  apply h.mono
  rintro (message | a) s' hP
  · exact fun _ _ => hP message rfl
  · simp

lemma ensures_returnsFlag {m : MetaHandler Bool} {P : GraphSchema → Prop}
    (h : Ensures anyAnswer m s fun r s' => ∀ message, r = .error message → P s') :
    Ensures anyAnswer (returnsFlag m) s fun r s' => ∀ message, r = .error message → P s' := by
  rw [returnsFlag, ensures_bind]
  apply h.mono
  rintro (message | a) s' hP
  · exact fun _ _ => hP message rfl
  · simp

lemma ensures_runOp (s : GraphSchema) (op : MetaOp) :
    Ensures anyAnswer (runOp op) s fun r s' =>
      ∀ message, r = .error message → (s.SameMaps s' ↔ ¬ ConflictingMerge s op) := by
  cases op with
  | createLabel name properties pkProps merge =>
    exact ensures_returnsId (createLabel_error name properties pkProps merge s)
  | createEdgeLabel name properties =>
    exact ensures_returnsId ((atomic_createEdgeLabel name properties s).error_iff id)
  | addVertexLabelProperties name propDefs =>
    exact ensures_returnsFlag ((atomic_addVertexLabelProperties name propDefs s).error_iff id)
  | addEdgeLabelProperties name propDefs =>
    exact ensures_returnsFlag ((atomic_addEdgeLabelProperties name propDefs s).error_iff id)
  | getOrCreateAnonPropId propName propType =>
    exact ensures_returnsId ((atomic_getOrCreateAnonPropId propName propType s).error_iff id)
  | createVertexIndex name labelName propNames unique =>
    exact ensures_returnsFlag ((atomic_createVertexIndexWithAccessors name labelName _ unique s).error_iff id)
  | createVertexIndexWithAccessors name labelName accessors unique =>
    exact ensures_returnsFlag
      ((atomic_createVertexIndexWithAccessors name labelName accessors unique s).error_iff id)
  | createEdgeIndex name edgeLabelName propNames unique =>
    exact ensures_returnsFlag ((atomic_createEdgeIndex name edgeLabelName propNames unique s).error_iff id)
  | updateIndexState name state =>
    exact ensures_returnsFlag ((atomic_updateIndexState name state s).error_iff id)
  | dropIndex name => exact ensures_returnsFlag ((atomic_dropIndex name s).error_iff id)

/-! ### Runs of the operations -/

/-- An operation against writes that succeed or fail by an oracle. -/
def execute (oracle : Oracle MetaCall MetaAnswer) (op : MetaOp) (s : GraphSchema) :
    Except String MetaResult × GraphSchema :=
  (exchange oracle ((runOp op).run.run s)).1

/-- What holds whatever the writes answer holds of a run. -/
theorem execute_of_ensures {op : MetaOp}
    {Q : Except String MetaResult → GraphSchema → Prop} (h : Ensures anyAnswer (runOp op) s Q)
    (oracle : Oracle MetaCall MetaAnswer) :
    Q (execute oracle op s).1 (execute oracle op s).2 :=
  Program.Always.exchange h fun _ _ => trivial

lemma execute_error {oracle : Oracle MetaCall MetaAnswer} {op : MetaOp}
    {s' : GraphSchema} (h : execute oracle op s = (.error message, s')) :
    s.SameMaps s' ↔ ¬ ConflictingMerge s op := by
  have hensures := execute_of_ensures (ensures_runOp s op) oracle
  rw [h] at hensures
  exact hensures message rfl

/-- An operation that throws, in any state and for any answers of its metadata writes,
leaves the label maps and the name maps as they were exactly if it is not a merge whose
request has a property the label lacks before the first property of a conflicting type. -/
theorem failedOp_keeps_maps_iff (s s' : GraphSchema) (op : MetaOp)
    (oracle : Oracle MetaCall MetaAnswer) (message : String)
    (h : execute oracle op s = (.error message, s')) :
    s.SameMaps s' ↔ ¬ ConflictingMerge s op :=
  execute_error h

/-- A label `Person` with one property. -/
def personLabel : MetaOp := .createLabel "Person" [⟨0, "age", .INT64, false, none⟩] [] false

/-- The schema of a new graph after `personLabel`. -/
def personSchema : GraphSchema := (execute (fun _ _ => true) personLabel .fresh).2

/-- A merge of a second property whose write fails. -/
theorem failedOp_keeps_maps_failedWrite :
    ∃ s', execute (fun _ _ => false)
        (.createLabel "Person" [⟨0, "name", .STRING, false, none⟩] [] true) personSchema =
          (.error "Failed to persist label definition 'Person'", s') ∧
      (personSchema.SameMaps s' ↔ ¬ ConflictingMerge personSchema
        (.createLabel "Person" [⟨0, "name", .STRING, false, none⟩] [] true)) := by
  refine ⟨_, rfl, ?_⟩
  exact failedOp_keeps_maps_iff _ _ _ (fun _ _ => false) _ rfl

/-- The states that operations lead to. -/
def schemaStep (s : GraphSchema) (action : MetaOp × Oracle MetaCall MetaAnswer) :
    Option GraphSchema :=
  some (execute action.2 action.1 s).2

/-- A request with a new property before one whose type conflicts. -/
def conflictingRequest : MetaOp :=
  .createLabel "Person"
    [⟨0, "name", .STRING, false, none⟩, ⟨0, "age", .STRING, false, none⟩] [] true

/-- `name` is added before the conflict about `age` is found, and stays. -/
theorem conflictingMerge_changes_label :
    ¬ ∀ s, Reaches schemaStep (fun _ _ => True) .fresh s → ∀ op oracle message s',
      execute oracle op s = (.error message, s') → s.SameMaps s' := by
  intro h
  have hreaches : Reaches schemaStep (fun _ _ => True) .fresh personSchema :=
    Reaches.start.next (a := (personLabel, fun _ _ => true)) trivial rfl
  obtain ⟨message, s', hrun⟩ : ∃ message s',
      execute (fun _ _ => true) conflictingRequest personSchema = (.error message, s') :=
    ⟨_, _, rfl⟩
  have hsame := h personSchema hreaches conflictingRequest (fun _ _ => true) message s' hrun
  exact (execute_error hrun).mp hsame ⟨_, rfl, rfl⟩

end Eugraph.MetaStore
