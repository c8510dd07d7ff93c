import Eugraph.Meta.SchemaReopen

/-!
# Schema ids over whole runs

The counters of the schema stay above all ids, in memory and after every crash, in every
run that meets the guard: no crash and no failed write separates the definition of a new
label or edge label from the counters, and the last id of 16 bits is never taken.
-/

namespace Eugraph.MetaStore

open Lib Lib.Handler DataStore Option MetaRun Lib.Handler.Ensures

/-! ### The table under a sequence of writes -/

/-- What writes may do to a table that fits `s` so that it fits `s'` afterwards. -/
structure WritesFit (s s' : GraphSchema) (t : MetaTable) (writes : List MetaTable.Write) : Prop where
  counters : CountersLe s.nextIds s'.nextIds
  below : ∀ e, ⟨.put e.1 e.2, true⟩ ∈ writes → Below s'.nextIds e
  saves : ∀ v, ⟨.put .nextIds v, true⟩ ∈ writes → ∃ ids, v = .nextIds ids ∧
    CountersLe ids s'.nextIds ∧ CountersLe s'.nextIds ids
  keeps : ∀ w ∈ writes, w ≠ ⟨.del .nextIds, true⟩
  /-- Where the saved counters stay, they are above what is written. -/
  unsaved : (∀ w ∈ writes, MetaTable.Spares .nextIds w) → ∀ ids,
    t.get .nextIds = some (.nextIds ids) →
      IdsBelow ids s' ∧ ∀ e, ⟨.put e.1 e.2, true⟩ ∈ writes → Below ids e

variable {s s' : GraphSchema} {t : MetaTable}

lemma TableFits.applyAll {writes : List MetaTable.Write}
    (h : TableFits s t) (hwrites : WritesFit s s' t writes) (hahead : IdsAhead s') :
    TableFits s' (t.applyAll writes) := by
  have hbelow : ∀ e ∈ t.applyAll writes, Below s'.nextIds e := by
    intro e he
    rcases MetaTable.mem_applyAll he with hold | hnew
    · exact (h.below e hold).mono hwrites.counters
    · exact hwrites.below e hnew
  refine ⟨hbelow, fun v hv => ?_⟩
  rcases MetaTable.get_applyAll t hwrites.keeps with ⟨hspares, hget⟩ | ⟨value, hmem, hget⟩
  · -- The saved counters are the old ones.
    rw [hget] at hv
    obtain ⟨ids, rfl, hle, -, hold⟩ := h.saved v hv
    obtain ⟨hschema, hnew⟩ := hwrites.unsaved hspares ids hv
    refine ⟨ids, rfl, hle.trans hwrites.counters, hschema, fun e he => ?_⟩
    rcases MetaTable.mem_applyAll he with hmem | hmem
    · exact hold e hmem
    · exact hnew e hmem
  · -- The saved counters are those that were written last.
    obtain rfl : value = v := some.inj (hget.symm.trans hv)
    obtain ⟨ids, rfl, hle, hge⟩ := hwrites.saves value hmem
    exact ⟨ids, rfl, hle, hahead.mono hge, fun e he => (hbelow e he).mono hge⟩

/-- A table that fits some schema can be opened. -/
theorem TableFits.inv_open (h : TableFits s t) : MetaRun.Inv ⟨openSchema t, t⟩ := by
  apply Eugraph.MetaStore.inv_open h.below
  intro v hv
  obtain ⟨ids, hids, -, -, hbelow⟩ := h.saved v hv
  exact ⟨ids, hids, hbelow⟩

/-! ### Operations that take no id -/

lemma SameIds.countersLe (h : SameIds s s') :
    CountersLe s.nextIds s'.nextIds ∧ CountersLe s'.nextIds s.nextIds := by
  refine ⟨⟨?_, ?_⟩, ⟨?_, ?_⟩⟩
  · rw [h.labelCounter]
    exact UInt16.le_refl _
  · rw [h.edgeLabelCounter]
    exact UInt16.le_refl _
  · rw [h.labelCounter]
    exact UInt16.le_refl _
  · rw [h.edgeLabelCounter]
    exact UInt16.le_refl _

/-- A filed id is the id of a definition, so it is below the counters. -/
theorem IdsBelow.label_of_isSome {ids : NextIds} (h : IdsBelow ids s)
    {id : LabelId} (hid : (s.labels.get id.toNat).isSome) : id < ids.nextLabelId := by
  obtain ⟨d, hget⟩ := isSome_iff_exists.mp hid
  have hkey := KeyedMap.key_of_get hget
  have heq : d.id = id := UInt16.toNat_inj.mp hkey
  rw [← heq]
  exact h.labels _ d hget

lemma IdsBelow.edgeLabel_of_isSome {ids : NextIds} (h : IdsBelow ids s)
    {id : EdgeLabelId} (hid : (s.edgeLabels.get id.toNat).isSome) : id < ids.nextEdgeLabelId := by
  obtain ⟨d, hget⟩ := isSome_iff_exists.mp hid
  have hkey := KeyedMap.key_of_get hget
  have heq : d.id = id := UInt16.toNat_inj.mp hkey
  rw [← heq]
  exact h.edgeLabels _ d hget

lemma IdsBelow.of_sameIds {ids : NextIds} (h : IdsBelow ids s) (hsame : SameIds s s') : IdsBelow ids s' := by
  constructor
  · intro k d hget
    apply h.label_of_isSome
    rw [← hsame.labels, KeyedMap.key_of_get hget, hget]
    rfl
  · intro k d hget
    apply h.edgeLabel_of_isSome
    rw [← hsame.edgeLabels, KeyedMap.key_of_get hget, hget]
    rfl

variable {e : MetaKey × MetaValue}

/-- A definition that a harmless call writes is below whatever the schema is below. -/
theorem Harmless.below (h : Harmless s (.put e.1 e.2)) {ids : NextIds} (hids : IdsBelow ids s) : Below ids e := by
  obtain ⟨key, value⟩ := e
  constructor
  · intro d hpick
    unfold pickLabel at hpick
    split at hpick
    · rename_i name d' heq
      obtain ⟨rfl, rfl⟩ := Prod.mk.inj heq
      obtain rfl := some.inj hpick
      exact hids.label_of_isSome h
    · exact nomatch hpick
  · intro d hpick
    unfold pickEdgeLabel at hpick
    split at hpick
    · rename_i name d' heq
      obtain ⟨rfl, rfl⟩ := Prod.mk.inj heq
      obtain rfl := some.inj hpick
      exact hids.edgeLabel_of_isSome h
    · exact nomatch hpick

lemma writesFit_of_harmless {writes : List MetaTable.Write}
    (hinv : MetaRun.Inv ⟨s, t⟩) (hsame : SameIds s s') (h : ∀ w ∈ writes, Harmless s w.1) :
    WritesFit s s' t writes where
  counters := hsame.countersLe.1
  below := by
    intro e he
    have hbelow : Below s.nextIds e := Harmless.below (h _ he) hinv.ahead
    exact hbelow.mono hsame.countersLe.1
  saves := by
    intro v hv
    obtain ⟨ids, rfl, hlabel, hedgeLabel⟩ := h _ hv
    refine ⟨ids, rfl, ⟨?_, ?_⟩, ⟨?_, ?_⟩⟩
    · exact hlabel ▸ hsame.countersLe.1.label
    · exact hedgeLabel ▸ hsame.countersLe.1.edgeLabel
    · exact hlabel ▸ hsame.countersLe.2.label
    · exact hedgeLabel ▸ hsame.countersLe.2.edgeLabel
  keeps := by
    rintro w hw rfl
    exact h _ hw
  unsaved := by
    intro _ ids hget
    obtain ⟨ids', heq, -, hids, -⟩ := hinv.fits.saved _ hget
    obtain rfl : ids = ids' := MetaValue.nextIds.inj heq
    exact ⟨hids.of_sameIds hsame, fun e he => Harmless.below (h _ he) hids⟩

/-! ### Operations that take an id -/

/-- The writes for a new label or edge label, whose id `s` would give next, up to the
counters `top` with which the schema goes on. -/
def TakesNext (s : GraphSchema) (top : NextIds) : MetaCall → Prop
  | .put (.label _) (.labelDef d) => d.id = s.nextIds.nextLabelId ∧ d.id < top.nextLabelId
  | .put (.edgeLabel _) (.edgeLabelDef d) =>
    d.id = s.nextIds.nextEdgeLabelId ∧ d.id < top.nextEdgeLabelId
  | .put (.labelId _) _ => True
  | .put (.edgeLabelId _) _ => True
  | .put .nextIds v => v = .nextIds top
  | _ => False

/-- No answer says that the counters were saved. -/
def noSave : (c : MetaCall) → MetaAnswer c → Prop
  | .put .nextIds _, ok => ok = false
  | _, _ => True

/-- From `s₀` the operation takes the next label or edge label id of `s` and leaves the
counters at `top`. -/
structure TakesId {α : Type} (m : MetaHandler α) (s₀ s : GraphSchema) (top : NextIds) : Prop where
  makes : Makes (TakesNext s top) m s₀
  ensures : Ensures anyAnswer m s₀ fun _ s' => s'.nextIds = top ∧ IdsBelow top s'
  unsaved : Ensures noSave m s₀ fun _ s' => s'.labels = s.labels ∧ s'.edgeLabels = s.edgeLabels

variable {α : Type} {s₀ : GraphSchema} {top : NextIds} {m : MetaHandler α}

lemma TakesId.modify {f : GraphSchema → GraphSchema} (h : TakesId m (f s₀) s top) :
    TakesId (do modify f; m) s₀ s top := by
  constructor
  · rw [makes_bind]
    exact ⟨makes_modify f, h.makes⟩
  · rw [ensures_bind]
    exact h.ensures
  · rw [ensures_bind]
    exact h.unsaved

lemma TakesId.get {f : GraphSchema → MetaHandler α} (h : TakesId (f s₀) s₀ s top) :
    TakesId (do let s ← get; f s) s₀ s top := by
  constructor
  · rw [makes_bind]
    exact ⟨makes_get, h.makes⟩
  · rw [ensures_bind]
    exact h.ensures
  · rw [ensures_bind]
    exact h.unsaved

lemma makes_saveNextIds {E : MetaCall → Prop}
    (h : E (.put .nextIds (.nextIds s.nextIds))) : Makes E saveNextIds s := by
  unfold saveNextIds require metadataPut
  simp only [makes_bind, makes_get, makes_ask, ensures_get, ensures_ask]
  refine ⟨trivial, ⟨h, fun ok _ => ?_⟩⟩
  cases ok with
  | false => exact makes_throw _
  | true => exact makes_pure _

/-- Counters that are not saved end the operation. -/
theorem saveNextIds_noSave (s : GraphSchema) :
    Ensures noSave saveNextIds s fun r s' => s' = s ∧ ∃ message, r = .error message := by
  unfold saveNextIds require metadataPut
  simp only [ensures_bind, ensures_get, ensures_ask]
  intro ok hok
  obtain rfl : ok = false := hok
  exact ⟨rfl, _, rfl⟩

/-- The end of both operations: the definition and then the counters are written, and only
then is the definition filed. -/
theorem takesId_file {s₁ : GraphSchema} {persist : MetaHandler Unit}
    {file : GraphSchema → GraphSchema} (hkeeps : KeepsSchema persist)
    (hmakes : Makes (TakesNext s s₁.nextIds) persist s₁)
    (hmaps : s₁.labels = s.labels ∧ s₁.edgeLabels = s.edgeLabels)
    (hahead : IdsAhead s₁) (hids : (file s₁).nextIds = s₁.nextIds) (hfile : IdsAhead (file s₁))
    (a : α) :
    TakesId (do
      persist
      saveNextIds
      modify file
      pure a) s₁ s s₁.nextIds where
  makes := by
    rw [makes_bind]
    refine ⟨hmakes, (hkeeps _).mono ?_⟩
    rintro (message | _) s' rfl
    · trivial
    · show Makes _ (do saveNextIds; modify file; pure a) s'
      rw [makes_bind]
      refine ⟨makes_saveNextIds rfl, of_forall ?_ _⟩
      rintro (message | _) s'
      · trivial
      · simp
  ensures := by
    rw [ensures_bind]
    apply (hkeeps _).mono
    rintro (message | _) s' rfl
    · exact ⟨rfl, hahead⟩
    · show Ensures _ (do saveNextIds; modify file; pure a) s' _
      rw [ensures_bind]
      apply (keepsSchema_saveNextIds _).mono
      rintro (message | _) s'' rfl
      · exact ⟨rfl, hahead⟩
      · simp only [ensures_bind, ensures_modify, ensures_pure]
        refine ⟨hids, ?_⟩
        rw [← hids]
        exact hfile
  unsaved := by
    rw [ensures_bind]
    apply ((hkeeps _).restrict fun _ _ _ => trivial).mono
    rintro (message | _) s' rfl
    · exact hmaps
    · show Ensures _ (do saveNextIds; modify file; pure a) s' _
      rw [ensures_bind]
      apply (saveNextIds_noSave _).mono
      rintro r s'' ⟨rfl, message, rfl⟩
      exact hmaps

/-- Taking an id but writing nothing. -/
theorem takesId_throw {s₁ : GraphSchema} (message : String)
    (hmaps : s₁.labels = s.labels ∧ s₁.edgeLabels = s.edgeLabels) (hahead : IdsAhead s₁) :
    TakesId (throw message : MetaHandler α) s₁ s s₁.nextIds :=
  ⟨makes_throw message, ⟨rfl, hahead⟩, hmaps⟩

/-- Two writes of one value, both of which the operation may make. -/
theorem makes_putBoth {E : MetaCall → Prop} {key key' : MetaKey} {value : MetaValue}
    (h : E (.put key value)) (h' : E (.put key' value)) (message : String) (s : GraphSchema) :
    Makes E (require (metadataPutBoth key key' value) message) s := by
  unfold require metadataPutBoth metadataPut
  simp only [makes_bind, makes_ask, ensures_bind, ensures_ask]
  refine ⟨⟨h, fun ok _ => ?_⟩, fun ok _ => ?_⟩
  · cases ok with
    | false => exact makes_pure _
    | true => exact (makes_ask _).mpr h'
  · apply of_forall
    rintro (message | ok) s'
    · trivial
    · cases ok with
      | false => exact makes_throw _
      | true => exact makes_pure _

/-- The counters after a label id was taken. -/
def NextIds.afterLabel (ids : NextIds) : NextIds := { ids with nextLabelId := ids.nextLabelId + 1 }

/-- The counters after an edge label id was taken. -/
def NextIds.afterEdgeLabel (ids : NextIds) : NextIds :=
  { ids with nextEdgeLabelId := ids.nextEdgeLabelId + 1 }

lemma countersLe_afterLabel {ids : NextIds} (h : ids.nextLabelId ≠ 0xFFFF) : CountersLe ids ids.afterLabel :=
  ⟨UInt16.le_of_lt (lt_succ_of_ne_last h), UInt16.le_refl _⟩

lemma countersLe_afterEdgeLabel {ids : NextIds} (h : ids.nextEdgeLabelId ≠ 0xFFFF) :
    CountersLe ids ids.afterEdgeLabel :=
  ⟨UInt16.le_refl _, UInt16.le_of_lt (lt_succ_of_ne_last h)⟩

section Filed

variable {ids : NextIds} {s s' : GraphSchema}

lemma IdsBelow.of_maps (h : IdsBelow ids s) (hlabels : s'.labels = s.labels)
    (hedgeLabels : s'.edgeLabels = s.edgeLabels) : IdsBelow ids s' := by
  constructor
  · rw [hlabels]
    exact h.labels
  · rw [hedgeLabels]
    exact h.edgeLabels

lemma IdsBelow.fileLabel {d : LabelDef} (h : IdsBelow ids s)
    (hlabels : s'.labels = s.labels.set d) (hedgeLabels : s'.edgeLabels = s.edgeLabels)
    (hd : d.id < ids.nextLabelId) : IdsBelow ids s' := by
  constructor
  · intro k d' hget
    rw [hlabels, KeyedMap.get_set] at hget
    split at hget
    · exact some.inj hget ▸ hd
    · exact h.labels k d' hget
  · rw [hedgeLabels]
    exact h.edgeLabels

lemma IdsBelow.fileEdgeLabel {d : EdgeLabelDef} (h : IdsBelow ids s)
    (hlabels : s'.labels = s.labels) (hedgeLabels : s'.edgeLabels = s.edgeLabels.set d)
    (hd : d.id < ids.nextEdgeLabelId) : IdsBelow ids s' := by
  constructor
  · rw [hlabels]
    exact h.labels
  · intro k d' hget
    rw [hedgeLabels, KeyedMap.get_set] at hget
    split at hget
    · exact some.inj hget ▸ hd
    · exact h.edgeLabels k d' hget

end Filed

lemma takesId_createNewLabel (name : String) (properties : List PropertyDef)
    (pkProps : List String) (hahead : IdsAhead s)
    (hleft : s.nextIds.nextLabelId ≠ 0xFFFF) :
    TakesId (createNewLabel name properties pkProps) s s s.nextIds.afterLabel := by
  have hahead₁ : IdsBelow s.nextIds.afterLabel s := IdsBelow.mono hahead (countersLe_afterLabel hleft)
  have hlt := lt_succ_of_ne_last hleft
  apply TakesId.get
  apply TakesId.modify
  dsimp only
  cases resolvePk name (numberProperties 0 properties) pkProps [] with
  | error message => exact takesId_throw message ⟨rfl, rfl⟩ (hahead₁.of_maps rfl rfl)
  | ok pkPropIds =>
    apply takesId_file
    · exact keepsSchema_persistLabelDef _
    · apply makes_putBoth
      · exact ⟨rfl, hlt⟩
      · trivial
    · exact ⟨rfl, rfl⟩
    · exact hahead₁.of_maps rfl rfl
    · rfl
    · apply IdsBelow.fileLabel hahead₁
      · rfl
      · rfl
      · exact hlt

variable {name : String}

lemma takesId_createEdgeLabel (properties : List PropertyDef)
    (hname : s.edgeLabelNameToId name = none) (hahead : IdsAhead s)
    (hleft : s.nextIds.nextEdgeLabelId ≠ 0xFFFF) :
    TakesId (createEdgeLabel name properties) s s s.nextIds.afterEdgeLabel := by
  have hahead₁ : IdsBelow s.nextIds.afterEdgeLabel s := IdsBelow.mono hahead (countersLe_afterEdgeLabel hleft)
  have hlt := lt_succ_of_ne_last hleft
  apply TakesId.get
  rw [hname]
  apply TakesId.modify
  apply takesId_file
  · exact keepsSchema_persistEdgeLabelDef _
  · apply makes_putBoth
    · exact ⟨rfl, hlt⟩
    · trivial
  · exact ⟨rfl, rfl⟩
  · exact hahead₁.of_maps rfl rfl
  · rfl
  · apply IdsBelow.fileEdgeLabel hahead₁
    · rfl
    · rfl
    · exact hlt

lemma defines_label {d : LabelDef} (h : pickLabel e = some d) : Defines ⟨.put e.1 e.2, true⟩ := by
  unfold pickLabel at h
  split at h
  · trivial
  · exact nomatch h

variable {d : EdgeLabelDef}

lemma defines_edgeLabel
    (h : pickEdgeLabel e = some d) : Defines ⟨.put e.1 e.2, true⟩ := by
  unfold pickEdgeLabel at h
  split at h
  · trivial
  · exact nomatch h

/-- A definition that is written is the new one. -/
theorem TakesNext.label {d : LabelDef} (h : TakesNext s top (.put e.1 e.2)) (hpick : pickLabel e = some d) :
    d.id = s.nextIds.nextLabelId ∧ d.id < top.nextLabelId := by
  unfold pickLabel at hpick
  split at hpick
  · exact some.inj hpick ▸ h
  · exact nomatch hpick

lemma TakesNext.edgeLabel
    (h : TakesNext s top (.put e.1 e.2)) (hpick : pickEdgeLabel e = some d) :
    d.id = s.nextIds.nextEdgeLabelId ∧ d.id < top.nextEdgeLabelId := by
  unfold pickEdgeLabel at hpick
  split at hpick
  · exact some.inj hpick ▸ h
  · exact nomatch hpick

variable {w : MetaTable.Write}

lemma not_savesIds_of_spares (h : MetaTable.Spares .nextIds w) : ¬ SavesIds w := by
  intro hsaves
  unfold SavesIds at hsaves
  split at hsaves
  · exact h rfl
  · exact hsaves

lemma TakesNext.noSave
    (h : TakesNext s top w.1) (hw : ¬ SavesIds w) : noSave w.1 w.2 := by
  obtain ⟨⟨key, value⟩ | key, ok⟩ := w
  · cases key with
    | nextIds =>
      obtain rfl : value = .nextIds top := h
      cases ok with
      | false => rfl
      | true => exact absurd trivial hw
    | _ => trivial
  · trivial

lemma writesFit_of_takesNext {writes : List MetaTable.Write}
    (hinv : MetaRun.Inv ⟨s, t⟩) (hle : CountersLe s.nextIds s'.nextIds)
    (h : ∀ w ∈ writes, TakesNext s s'.nextIds w.1)
    (hmaps : (¬ ∃ w ∈ writes, SavesIds w) → s'.labels = s.labels ∧ s'.edgeLabels = s.edgeLabels)
    (hfollow : (∃ w ∈ writes, Defines w) → (∃ w ∈ writes, SavesIds w) ∨ t.get .nextIds = none) :
    WritesFit s s' t writes where
  counters := hle
  below := by
    intro e he
    have htakes : TakesNext s s'.nextIds (.put e.1 e.2) := h _ he
    exact ⟨fun d hd => (htakes.label hd).2, fun d hd => (htakes.edgeLabel hd).2⟩
  saves := by
    intro v hv
    obtain rfl : v = .nextIds s'.nextIds := h _ hv
    exact ⟨_, rfl, .refl _, .refl _⟩
  keeps := by
    rintro w hw rfl
    exact h _ hw
  unsaved := by
    intro hspares ids hget
    have hnosave : ¬ ∃ w ∈ writes, SavesIds w :=
      fun ⟨w, hw, hsaves⟩ => not_savesIds_of_spares (hspares w hw) hsaves
    -- Saved counters that stay keep every definition out of the table.
    have hnodef : ∀ w ∈ writes, ¬ Defines w := by
      intro w hw hdefines
      rcases hfollow ⟨w, hw, hdefines⟩ with hsaves | hnone
      · exact hnosave hsaves
      · exact nomatch hnone.symm.trans hget
    obtain ⟨ids', heq, -, hids, -⟩ := hinv.fits.saved _ hget
    obtain rfl : ids = ids' := MetaValue.nextIds.inj heq
    obtain ⟨hlabels, hedgeLabels⟩ := hmaps hnosave
    refine ⟨hids.of_maps hlabels hedgeLabels, fun e he => ⟨fun d hd => ?_, fun d hd => ?_⟩⟩
    · exact absurd (defines_label hd) (hnodef _ he)
    · exact absurd (defines_edgeLabel hd) (hnodef _ he)

/-! ### Every operation -/

variable {β : Type}

lemma Tame.map (h : Tame m s) (f : α → β) :
    Tame (do let a ← m; pure (f a)) s := by
  constructor
  · rw [makes_bind]
    refine ⟨h.makes, of_forall ?_ _⟩
    rintro (message | a) s'
    · trivial
    · exact makes_pure _
  · rw [ensures_bind]
    apply mono h.ensures
    rintro (message | a) s' hsame
    · exact hsame
    · exact hsame

lemma TakesId.map
    (h : TakesId m s₀ s top) (f : α → β) : TakesId (do let a ← m; pure (f a)) s₀ s top := by
  constructor
  · rw [makes_bind]
    refine ⟨h.makes, of_forall ?_ _⟩
    rintro (message | a) s'
    · trivial
    · exact makes_pure _
  · rw [ensures_bind]
    apply mono h.ensures
    rintro (message | a) s' hids
    · exact hids
    · exact hids
  · rw [ensures_bind]
    apply mono h.unsaved
    rintro (message | a) s' hmaps
    · exact hmaps
    · exact hmaps

/-- Whether the operation takes an id. -/
def takesId (s : GraphSchema) (op : MetaOp) : Prop :=
  takesLabelId s op ∨ takesEdgeLabelId s op

lemma tame_runOp {op : MetaOp} (h : ¬ takesId s op) : Tame (runOp op) s := by
  cases op with
  | createLabel name properties pkProps merge =>
    have hname : (s.labelNameToId name).isSome := by
      simpa [takesId, takesLabelId, takesEdgeLabelId, isSome_iff_ne_none] using h
    exact (tame_createLabel hname properties pkProps merge).map _
  | createEdgeLabel name properties =>
    have hname : (s.edgeLabelNameToId name).isSome := by
      simpa [takesId, takesLabelId, takesEdgeLabelId, isSome_iff_ne_none] using h
    exact (tame_createEdgeLabel hname properties).map _
  | addVertexLabelProperties name propDefs =>
    exact (tame_addVertexLabelProperties name propDefs s).map _
  | addEdgeLabelProperties name propDefs =>
    exact (tame_addEdgeLabelProperties name propDefs s).map _
  | getOrCreateAnonPropId propName propType =>
    exact (tame_getOrCreateAnonPropId propName propType s).map _
  | createVertexIndex name labelName propNames unique =>
    exact (tame_createVertexIndexWithAccessors name labelName _ unique s).map _
  | createVertexIndexWithAccessors name labelName accessors unique =>
    exact (tame_createVertexIndexWithAccessors name labelName accessors unique s).map _
  | createEdgeIndex name edgeLabelName propNames unique =>
    exact (tame_createEdgeIndex name edgeLabelName propNames unique s).map _
  | updateIndexState name state => exact (tame_updateIndexState name state s).map _
  | dropIndex name => exact (tame_dropIndex name s).map _

lemma takesId_createLabel (properties : List PropertyDef) (pkProps : List String)
    (merge : Bool) (hname : s.labelNameToId name = none) (hahead : IdsAhead s)
    (hleft : s.nextIds.nextLabelId ≠ 0xFFFF) :
    TakesId (createLabel name properties pkProps merge) s s s.nextIds.afterLabel := by
  apply TakesId.get
  rw [hname]
  exact takesId_createNewLabel name properties pkProps hahead hleft

variable {r : MetaRun}

lemma takesId_runOp {a : MetaAction} (htakes : takesId r.schema a.op)
    (hahead : IdsAhead r.schema) (hleft : r.IdsLeft a) :
    ∃ top, CountersLe r.schema.nextIds top ∧ TakesId (runOp a.op) r.schema r.schema top := by
  obtain ⟨op, oracle, crashAt⟩ := a
  obtain ⟨hlabel, hedgeLabel⟩ := hleft
  cases op with
  | createLabel name properties pkProps merge =>
    have hname : r.schema.labelNameToId name = none := by
      simpa [takesId, takesLabelId, takesEdgeLabelId] using htakes
    have hne := hlabel (by simpa [takesLabelId] using hname)
    exact ⟨_, countersLe_afterLabel hne, (takesId_createLabel properties pkProps merge hname hahead hne).map _⟩
  | createEdgeLabel name properties =>
    have hname : r.schema.edgeLabelNameToId name = none := by
      simpa [takesId, takesLabelId, takesEdgeLabelId] using htakes
    have hne := hedgeLabel (by simpa [takesEdgeLabelId] using hname)
    exact ⟨_, countersLe_afterEdgeLabel hne, (takesId_createEdgeLabel properties hname hahead hne).map _⟩
  | _ => simp [takesId, takesLabelId, takesEdgeLabelId] at htakes

/-! ### Steps -/

namespace MetaRun

variable {a : MetaAction}

lemma mem_writes (h : w ∈ r.writes a) : w ∈ (r.exchange a).2 := by
  unfold writes at h
  split at h
  · exact h
  · exact List.mem_of_mem_take h

/-- What one action makes of a run that fits: a table that fits the schema in memory, and
counters in memory that are ahead. -/
theorem fits_after (hinv : r.Inv) (hguard : r.CrashGuard a) : (∃ s, TableFits s (r.tableAfter a)) ∧
      (a.crashAt = none → Inv ⟨(r.exchange a).1.2, r.tableAfter a⟩) := by
  by_cases htakes : takesId r.schema a.op
  · obtain ⟨top, hle, hop⟩ := takesId_runOp htakes hinv.ahead hguard.1
    have hcalls : ∀ w ∈ r.writes a, TakesNext r.schema top w.1 :=
      fun w hw => hop.makes.exchange a.oracle w (mem_writes hw)
    have hfollow := hguard.2 htakes
    constructor
    · -- The store may be opened when only the counters have changed in memory.
      refine ⟨{ r.schema with nextIds := top }, ?_⟩
      apply hinv.fits.applyAll
      · exact writesFit_of_takesNext hinv hle hcalls (fun _ => ⟨rfl, rfl⟩) hfollow
      · exact (IdsBelow.mono hinv.ahead hle).of_maps rfl rfl
    · intro hnone
      obtain ⟨hids, hbelow⟩ : (r.exchange a).1.2.nextIds = top ∧ IdsBelow top (r.exchange a).1.2 :=
        Program.Always.exchange hop.ensures fun _ _ => trivial
      have hahead : IdsAhead (r.exchange a).1.2 := by
        rw [IdsAhead, hids]
        exact hbelow
      refine ⟨hahead, hinv.fits.applyAll ?_ hahead⟩
      apply writesFit_of_takesNext hinv
      · rw [hids]
        exact hle
      · rw [hids]
        exact hcalls
      · intro hnosave
        apply Program.Always.exchange hop.unsaved
        intro w hw
        have hw : w ∈ r.writes a := by
          rw [writes, hnone]
          exact hw
        exact (hcalls w hw).noSave fun hsaves => hnosave ⟨w, hw, hsaves⟩
      · exact hfollow
  · have hop := tame_runOp htakes
    have hcalls : ∀ w ∈ r.writes a, Harmless r.schema w.1 :=
      fun w hw => hop.makes.exchange a.oracle w (mem_writes hw)
    constructor
    · exact ⟨r.schema, hinv.fits.applyAll (writesFit_of_harmless hinv (.refl _) hcalls) hinv.ahead⟩
    · intro _
      have hsame : SameIds r.schema (r.exchange a).1.2 := Program.Always.exchange hop.ensures fun _ _ => trivial
      have hahead : IdsAhead (r.exchange a).1.2 := (IdsBelow.mono hinv.ahead hsame.countersLe.1).of_sameIds hsame
      exact ⟨hahead, hinv.fits.applyAll (writesFit_of_harmless hinv hsame hcalls) hahead⟩

lemma inv_initial : initial.Inv := by
  have hempty : ∀ e ∈ ([] : MetaTable), Below ⟨1, 1, 1, 1, 1⟩ e := fun _ h => nomatch h
  exact inv_open hempty fun _ h => nomatch h

lemma inv_open_after (hinv : r.Inv) (hguard : r.CrashGuard a) :
    Inv ⟨openSchema (r.tableAfter a), r.tableAfter a⟩ := by
  obtain ⟨s, hfits⟩ := (fits_after hinv hguard).1
  exact hfits.inv_open

lemma inv_step {r' : MetaRun} (hinv : r.Inv) (hguard : r.CrashGuard a) (hstep : r.step a = some r') : r'.Inv := by
  unfold step at hstep
  split at hstep
  · rename_i hnone
    exact some.inj hstep ▸ (fits_after hinv hguard).2 hnone
  · exact some.inj hstep ▸ inv_open_after hinv hguard

lemma inv_of_reaches (h : Reaches step CrashGuard initial r) : r.Inv :=
  h.invariant Inv inv_initial fun _ _ _ hinv hguard hstep => inv_step hinv hguard hstep

/-! ### Crashes that the guard excludes -/

section Loaded

variable {s : GraphSchema} {top : NextIds} {writes : List MetaTable.Write}

/-- The definition of a new label that reached the table is loaded. -/
theorem loaded_newLabel (t : MetaTable) (hcalls : ∀ w ∈ writes, TakesNext s top w.1)
    {d : LabelDef} (h : ⟨.put (.label name) (.labelDef d), true⟩ ∈ writes) :
    ∃ k d', (openSchema (t.applyAll writes)).labels.get k = some d' ∧ d'.id = s.nextIds.nextLabelId := by
  have hdel : ∀ w ∈ writes, w ≠ ⟨.del (.label name), true⟩ := by
    rintro w hw rfl
    exact hcalls _ hw
  obtain ⟨value, hmem, hrecord⟩ := MetaTable.mem_applyAll_of_put t h hdel
  have htakes : TakesNext s top (.put (.label name) value) := hcalls _ hmem
  cases value with
  | labelDef d₀ =>
    obtain ⟨d', hget, hid⟩ := loaded_label hrecord rfl
    exact ⟨_, d', hget, hid.trans htakes.1⟩
  | _ => exact htakes.elim

lemma loaded_newEdgeLabel (t : MetaTable) (hcalls : ∀ w ∈ writes, TakesNext s top w.1)
    (h : ⟨.put (.edgeLabel name) (.edgeLabelDef d), true⟩ ∈ writes) :
    ∃ k d', (openSchema (t.applyAll writes)).edgeLabels.get k = some d' ∧ d'.id = s.nextIds.nextEdgeLabelId := by
  have hdel : ∀ w ∈ writes, w ≠ ⟨.del (.edgeLabel name), true⟩ := by
    rintro w hw rfl
    exact hcalls _ hw
  obtain ⟨value, hmem, hrecord⟩ := MetaTable.mem_applyAll_of_put t h hdel
  have htakes : TakesNext s top (.put (.edgeLabel name) value) := hcalls _ hmem
  cases value with
  | edgeLabelDef d₀ =>
    obtain ⟨d', hget, hid⟩ := loaded_edgeLabel hrecord rfl
    exact ⟨_, d', hget, hid.trans htakes.1⟩
  | _ => exact htakes.elim

end Loaded

/-- A new definition in the table without new counters: the saved counters are not above
the id of the definition. -/
theorem not_idsAhead_open (hinv : r.Inv) (hleft : r.IdsLeft a)
    (h : ¬ r.CountersFollow a) : ¬ IdsAhead (openSchema (r.tableAfter a)) := by
  intro hahead
  apply h
  intro htakes hdefines
  by_contra hnot
  obtain ⟨hnosave, hsaved⟩ := not_or.mp hnot
  obtain ⟨top, hle, hop⟩ := takesId_runOp htakes hinv.ahead hleft
  have hcalls : ∀ w ∈ r.writes a, TakesNext r.schema top w.1 :=
    fun w hw => hop.makes.exchange a.oracle w (mem_writes hw)
  obtain ⟨v, hget⟩ := ne_none_iff_exists'.mp hsaved
  obtain ⟨ids, rfl, hids, -, -⟩ := hinv.fits.saved v hget
  -- The counters that were saved before are those that `open` finds.
  have hnext : (openSchema (r.tableAfter a)).nextIds = ids := by
    have hafter : (r.tableAfter a).get .nextIds = some (.nextIds ids) := by
      have hkeeps : ∀ w ∈ r.writes a, w ≠ ⟨.del .nextIds, true⟩ := by
        rintro w hw rfl
        exact hcalls _ hw
      rcases MetaTable.get_applyAll r.table hkeeps with ⟨-, hsame⟩ | ⟨value, hmem, -⟩
      · exact hsame.trans hget
      · obtain rfl : value = .nextIds top := hcalls _ hmem
        exact absurd ⟨_, hmem, trivial⟩ hnosave
    simp [openSchema, hafter]
  have hahead : IdsBelow ids (openSchema (r.tableAfter a)) := hnext ▸ hahead
  obtain ⟨w, hw, hdefines⟩ := hdefines
  unfold Defines at hdefines
  split at hdefines
  · obtain ⟨k, d, hloaded, hid⟩ := loaded_newLabel r.table hcalls hw
    have hlt : r.schema.nextIds.nextLabelId < ids.nextLabelId := hid ▸ hahead.labels k d hloaded
    exact absurd hids.label (UInt16.not_le.mpr hlt)
  · obtain ⟨k, d, hloaded, hid⟩ := loaded_newEdgeLabel r.table hcalls hw
    have hlt : r.schema.nextIds.nextEdgeLabelId < ids.nextEdgeLabelId := hid ▸ hahead.edgeLabels k d hloaded
    exact absurd hids.edgeLabel (UInt16.not_le.mpr hlt)
  · exact hdefines

end MetaRun

/-! ### The ids that are given -/

/-- Steps that cannot decide the result before the end. -/
theorem ensures_andThen {f : α → MetaHandler β} {Q : Except String β → Prop} (herror : ∀ message, Q (.error message))
    (hf : ∀ a s', Ensures anyAnswer (f a) s' fun r _ => Q r) :
    Ensures anyAnswer (m >>= f) s fun r _ => Q r := by
  rw [ensures_bind]
  apply of_forall
  rintro (message | a) s'
  · exact herror message
  · exact hf a s'

/-- The result is the next id or an exception. -/
def GivesId (id : UInt16) (r : Except String UInt16) : Prop := ∀ id', r = .ok id' → id' = id

lemma createNewLabel_givesId (name : String) (properties : List PropertyDef)
    (pkProps : List String) (s : GraphSchema) :
    Ensures anyAnswer (createNewLabel name properties pkProps) s fun r _ =>
      GivesId s.nextIds.nextLabelId r := by
  have herror : ∀ message, GivesId s.nextIds.nextLabelId (.error message) := fun _ _ h => nomatch h
  rw [createNewLabel, ensures_bind, ensures_get]
  apply ensures_andThen herror
  intro _ _
  apply ensures_andThen herror
  intro _ _
  apply ensures_andThen herror
  intro _ _
  apply ensures_andThen herror
  intro _ _
  apply ensures_andThen herror
  intro _ _ id' hid
  exact (Except.ok.inj hid).symm

lemma createEdgeLabel_givesId (properties : List PropertyDef)
    (hname : s.edgeLabelNameToId name = none) :
    Ensures anyAnswer (createEdgeLabel name properties) s fun r _ =>
      GivesId s.nextIds.nextEdgeLabelId r := by
  have herror : ∀ message, GivesId s.nextIds.nextEdgeLabelId (.error message) := fun _ _ h => nomatch h
  rw [createEdgeLabel, ensures_bind, ensures_get]
  dsimp only
  rw [hname, if_neg (by simp)]
  apply ensures_andThen herror
  intro _ _
  apply ensures_andThen herror
  intro _ _
  apply ensures_andThen herror
  intro _ _
  apply ensures_andThen herror
  intro _ _ id' hid
  exact (Except.ok.inj hid).symm

/-- An operation that gives an id gives it when it is executed. -/
theorem id_of_execute {m : MetaHandler UInt16} {op : MetaOp} {id id' : UInt16}
    (hop : runOp op = returnsId m) (h : Ensures anyAnswer m s fun r _ => GivesId id r)
    {oracle : Program.Oracle MetaCall MetaAnswer}
    (hrun : execute oracle op s = (.ok (.id id'), s')) : id' = id := by
  have hensures : Ensures anyAnswer (runOp op) s fun r _ =>
      ∀ id', r = .ok (.id id') → id' = id := by
    rw [hop, returnsId, ensures_bind]
    apply h.mono
    rintro (message | id₀) s₀ hgives id₁ hid₁
    · cases hid₁
    · obtain rfl : id₀ = id₁ := MetaResult.id.inj (Except.ok.inj hid₁)
      exact hgives id₀ rfl
  have hresult : ∀ id', (execute oracle op s).1 = .ok (.id id') → id' = id :=
    Program.Always.exchange hensures fun _ _ => trivial
  exact hresult id' (by rw [hrun])

/-- A name that is new gets an id that no definition of its kind holds. -/
structure FreshIds (s : GraphSchema) : Prop where
  labels : ∀ name properties pkProps merge oracle id s', s.labelNameToId name = none →
    execute oracle (.createLabel name properties pkProps merge) s = (.ok (.id id), s') →
      ∀ k d, s.labels.get k = some d → d.id ≠ id
  edgeLabels : ∀ name properties oracle id s', s.edgeLabelNameToId name = none →
    execute oracle (.createEdgeLabel name properties) s = (.ok (.id id), s') →
      ∀ k d, s.edgeLabels.get k = some d → d.id ≠ id

lemma freshIds_of_ahead (h : IdsAhead s) : FreshIds s := by
  constructor
  · rintro name properties pkProps merge oracle id s' hname hrun k d hget rfl
    have hgives : Ensures anyAnswer (createLabel name properties pkProps merge) s fun r _ =>
        GivesId s.nextIds.nextLabelId r := by
      rw [createLabel, ensures_bind, ensures_get]
      dsimp only
      rw [hname]
      exact createNewLabel_givesId name properties pkProps s
    have hlt := h.labels k d hget
    rw [id_of_execute rfl hgives hrun] at hlt
    exact UInt16.lt_irrefl _ hlt
  · rintro name properties oracle id s' hname hrun k d hget rfl
    have hlt := h.edgeLabels k d hget
    rw [id_of_execute rfl (createEdgeLabel_givesId properties hname) hrun] at hlt
    exact UInt16.lt_irrefl _ hlt

/-! ### The result -/

/-- In every run whose actions meet the guard, the counters are above all ids and new names
get unused ids, in memory and in the store that is opened at any crash point.  Where an
action has ids left, the store that is opened after it has counters above its ids exactly
if the action meets the guard. -/
theorem reopened_ids_ahead {r : MetaRun} (h : Reaches step CrashGuard initial r) :
    IdsAhead r.schema ∧ FreshIds r.schema ∧ (∀ a, r.CrashGuard a → IdsAhead (openSchema (r.tableAfter a)) ∧
        FreshIds (openSchema (r.tableAfter a))) ∧
      ∀ a, r.IdsLeft a → (IdsAhead (openSchema (r.tableAfter a)) ↔ r.CountersFollow a) := by
  have hinv := inv_of_reaches h
  refine ⟨hinv.ahead, freshIds_of_ahead hinv.ahead, fun a hguard => ?_, fun a hleft => ⟨?_, ?_⟩⟩
  · have hopen := inv_open_after hinv hguard
    exact ⟨hopen.ahead, freshIds_of_ahead hopen.ahead⟩
  · intro hahead
    by_contra hnot
    exact not_idsAhead_open hinv hleft hnot hahead
  · intro hfollow
    exact (inv_open_after hinv ⟨hleft, hfollow⟩).ahead

/-- A new label whose writes all succeed, with a crash after `crashAt` of them. -/
def newLabel (name : String) (crashAt : Option Nat) : MetaAction :=
  ⟨.createLabel name [] [] false, fun _ _ => true, crashAt⟩

/-- The store after a label `A`. -/
def withA : MetaRun := ⟨(initial.exchange (newLabel "A" none)).1.2,
  initial.tableAfter (newLabel "A" none)⟩

/-- The store that is opened after a label `A` and the first `n` writes of a label `B`. -/
def reopened (n : Nat) : MetaRun :=
  ⟨openSchema (withA.tableAfter (newLabel "B" (some n))), withA.tableAfter (newLabel "B" (some n))⟩

/-- A crash after all writes of a new label. -/
theorem reopened_ids_ahead_allWritten :
    (reopened 3).schema.nextIds.nextLabelId = 3 ∧ IdsAhead (reopened 3).schema := by
  have hstart : initial.CrashGuard (newLabel "A" none) :=
    ⟨⟨fun _ => by decide, fun h => nomatch h⟩, fun _ _ => .inr rfl⟩
  have hcrash : withA.CrashGuard (newLabel "B" (some 3)) :=
    ⟨⟨fun _ => by decide, fun h => nomatch h⟩,
      fun _ _ => .inl ⟨_, List.mem_cons_of_mem _ (List.mem_cons_of_mem _ List.mem_cons_self), trivial⟩⟩
  exact ⟨rfl, (reopened_ids_ahead ((Reaches.start.next hstart rfl).next hcrash rfl)).1⟩

/-- A crash after the first write of a label `B`: `open` loads `B` with id 2 and then takes
the counter 2 that was saved with `A`. -/
theorem crash_before_counters :
    ¬ ∀ r, Reaches step (fun _ _ => True) initial r → IdsAhead r.schema := by
  intro h
  have hreaches : Reaches step (fun _ _ => True) initial withA :=
    Reaches.start.next (a := newLabel "A" none) trivial rfl
  have hahead := h (reopened 1) (hreaches.next (a := newLabel "B" (some 1)) trivial rfl)
  have hlt : (2 : UInt16) < 2 := hahead.labels 2 ⟨2, "B", [], [], []⟩ rfl
  exact UInt16.lt_irrefl 2 hlt

end Eugraph.MetaStore
