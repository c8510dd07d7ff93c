import Eugraph.Meta.SchemaAtomicity

/-!
# Opening the metadata store after a crash

`open` rebuilds the schema from the definitions under the name keys and then takes the id
counters from `M|next_ids` if that record is there.  A run executes schema operations,
any of whose writes may fail, and may crash after any number of the writes of an
operation; the store is then opened again.
-/

namespace Eugraph.MetaStore

open Lib Lib.Handler DataStore List Prod UInt16 Option

/-! ### The metadata table -/

abbrev MetaTable := List (MetaKey × MetaValue)

namespace MetaTable

def get (t : MetaTable) (key : MetaKey) : Option MetaValue := (t.find? (·.1 = key)).map (·.2)

/-- Overwrite the record of the key, or append one. -/
def put (key : MetaKey) (value : MetaValue) : MetaTable → MetaTable
  | [] => [(key, value)]
  | e :: rest => if e.1 = key then (key, value) :: rest else e :: put key value rest

def del (t : MetaTable) (key : MetaKey) : MetaTable := t.filter (·.1 ≠ key)

/-- A write and whether it succeeded. -/
abbrev Write := Program.Event MetaCall MetaAnswer

def apply (t : MetaTable) : Write → MetaTable
  | ⟨.put key value, true⟩ => put key value t
  | ⟨.del key, true⟩ => t.del key
  | ⟨_, false⟩ => t

def applyAll (t : MetaTable) (writes : List Write) : MetaTable := writes.foldl apply t

end MetaTable

/-! ### Opening -/

/-- A record of the scan of `M|label:`. -/
def loadLabel (s : GraphSchema) : MetaKey × MetaValue → GraphSchema
  | (.label name, .labelDef d) =>
    { s.setLabel d with
      labelNameToId := Function.update s.labelNameToId name (some d.id)
      nextIds := { s.nextIds with
        nextLabelId := if s.nextIds.nextLabelId ≤ d.id then d.id + 1 else s.nextIds.nextLabelId } }
  | _ => s

/-- A record of the scan of `M|edge_label:`. -/
def loadEdgeLabel (s : GraphSchema) : MetaKey × MetaValue → GraphSchema
  | (.edgeLabel name, .edgeLabelDef d) =>
    { s.setEdgeLabel d with
      edgeLabelNameToId := Function.update s.edgeLabelNameToId name (some d.id)
      nextIds := { s.nextIds with
        nextEdgeLabelId :=
          if s.nextIds.nextEdgeLabelId ≤ d.id then d.id + 1 else s.nextIds.nextEdgeLabelId } }
  | _ => s

/-- Both scans.  Records come in the order of the table; the order decides only which of two
definitions with one id is filed. -/
def scanTable (t : MetaTable) : GraphSchema := t.foldl loadEdgeLabel (t.foldl loadLabel .fresh)

/-- `open` on a new store object. -/
def openSchema (t : MetaTable) : GraphSchema :=
  match t.get .nextIds with
  | some (.nextIds ids) => { scanTable t with nextIds := ids }
  | _ => scanTable t

/-- All ids of a schema are below the counters. -/
structure IdsBelow (ids : NextIds) (s : GraphSchema) : Prop where
  labels : ∀ k d, s.labels.get k = some d → d.id < ids.nextLabelId
  edgeLabels : ∀ k d, s.edgeLabels.get k = some d → d.id < ids.nextEdgeLabelId

/-- The id counters exceed the ids of all definitions. -/
def IdsAhead (s : GraphSchema) : Prop := IdsBelow s.nextIds s

/-! ### Runs -/

/-- The store object and the table under it. -/
structure MetaRun where
  schema : GraphSchema
  table : MetaTable

/-- An operation with the answers of its writes.  `crashAt` is the number of its writes
after which the process dies and the store is opened again. -/
structure MetaAction where
  op : MetaOp
  oracle : Program.Oracle MetaCall MetaAnswer
  crashAt : Option Nat

namespace MetaRun

def initial : MetaRun := ⟨openSchema [], []⟩

def exchange (r : MetaRun) (a : MetaAction) :
    (Except String MetaResult × GraphSchema) × List MetaTable.Write :=
  Program.exchange a.oracle ((runOp a.op).run.run r.schema)

/-- The writes that were made before the crash, if there is one. -/
def writes (r : MetaRun) (a : MetaAction) : List MetaTable.Write :=
  match a.crashAt with
  | none => (r.exchange a).2
  | some k => (r.exchange a).2.take k

def tableAfter (r : MetaRun) (a : MetaAction) : MetaTable := r.table.applyAll (r.writes a)

def step (r : MetaRun) (a : MetaAction) : Option MetaRun :=
  match a.crashAt with
  | none => some ⟨(r.exchange a).1.2, r.tableAfter a⟩
  | some _ => some ⟨openSchema (r.tableAfter a), r.tableAfter a⟩

/-- Whether the operation takes a new label id. -/
def takesLabelId (s : GraphSchema) : MetaOp → Bool
  | .createLabel name .. => (s.labelNameToId name).isNone
  | _ => false

/-- Whether the operation takes a new edge label id. -/
def takesEdgeLabelId (s : GraphSchema) : MetaOp → Bool
  | .createEdgeLabel name _ => (s.edgeLabelNameToId name).isNone
  | _ => false

/-- The id that is taken is not the last one. -/
def IdsLeft (r : MetaRun) (a : MetaAction) : Prop :=
  (takesLabelId r.schema a.op → r.schema.nextIds.nextLabelId ≠ 0xFFFF) ∧
  (takesEdgeLabelId r.schema a.op → r.schema.nextIds.nextEdgeLabelId ≠ 0xFFFF)

/-- A record that `open` loads was written. -/
def Defines : MetaTable.Write → Prop
  | ⟨.put (.label _) (.labelDef _), true⟩ => True
  | ⟨.put (.edgeLabel _) (.edgeLabelDef _), true⟩ => True
  | _ => False

/-- The id counters were written. -/
def SavesIds : MetaTable.Write → Prop
  | ⟨.put .nextIds (.nextIds _), true⟩ => True
  | _ => False

/-- If the definition of a new label or edge label has reached the table, the id counters
have too, or there never were any. -/
def CountersFollow (r : MetaRun) (a : MetaAction) : Prop :=
  takesLabelId r.schema a.op ∨ takesEdgeLabelId r.schema a.op →
    (∃ w ∈ r.writes a, Defines w) → (∃ w ∈ r.writes a, SavesIds w) ∨ r.table.get .nextIds = none

def CrashGuard (r : MetaRun) (a : MetaAction) : Prop := r.IdsLeft a ∧ r.CountersFollow a

end MetaRun

/-! ### Writes to the table -/

namespace MetaTable

variable {t : MetaTable} {key : MetaKey} {value : MetaValue}

lemma mem_put {e : MetaKey × MetaValue}
    (h : e ∈ put key value t) : e = (key, value) ∨ e ∈ t := by
  induction t with
  | nil => exact .inl (mem_singleton.mp h)
  | cons head rest ih =>
    unfold put at h
    split at h
    · rcases mem_cons.mp h with h | h
      · exact .inl h
      · exact .inr (mem_cons_of_mem _ h)
    · rcases mem_cons.mp h with h | h
      · exact .inr (h ▸ mem_cons_self)
      · exact (ih h).imp_right (mem_cons_of_mem _)

lemma get_put (key key' : MetaKey) (value : MetaValue) (t : MetaTable) :
    (put key value t).get key' = if key' = key then some value else t.get key' := by
  induction t with
  | nil =>
    by_cases hkey : key' = key
    · simp [put, get, hkey]
    · simp [put, get, hkey, Ne.symm hkey]
  | cons head rest ih =>
    by_cases hhead : head.1 = key
    · by_cases hkey : key' = key
      · simp [put, get, hhead, hkey]
      · simp [put, get, hhead, hkey, Ne.symm hkey]
    · by_cases hkey : head.1 = key'
      · have hne : key' ≠ key := fun h => hhead (hkey.trans h)
        simp [put, get, hkey, hne]
      · simpa [put, get, hhead, hkey] using ih

lemma get_del_of_ne {key' : MetaKey} (h : key' ≠ key) (t : MetaTable) : (t.del key).get key' = t.get key' := by
  unfold get del
  rw [List.find?_filter]
  congr 2
  funext e
  by_cases he : e.1 = key' <;> simp [he, h]

variable {writes : List Write}

/-- A record of the table after some writes was there before or was written. -/
theorem mem_applyAll {e : MetaKey × MetaValue}
    (h : e ∈ t.applyAll writes) : e ∈ t ∨ ⟨.put e.1 e.2, true⟩ ∈ writes := by
  induction writes generalizing t with
  | nil => exact .inl h
  | cons w rest ih =>
    rcases ih h with hmem | hmem
    · rcases w with ⟨⟨key, value⟩ | key, _ | _⟩
      · exact .inl hmem
      · rcases mem_put hmem with rfl | hmem
        · exact .inr mem_cons_self
        · exact .inl hmem
      · exact .inl hmem
      · exact .inl (mem_of_mem_filter hmem)
    · exact .inr (mem_cons_of_mem _ hmem)

/-- A write that leaves the record of a key alone. -/
def Spares (key : MetaKey) : Write → Prop
  | ⟨.put key' _, true⟩ => key' ≠ key
  | ⟨.del key', true⟩ => key' ≠ key
  | ⟨_, false⟩ => True

lemma get_apply_of_spares {w : Write} (h : Spares key w) (t : MetaTable) :
    (t.apply w).get key = t.get key := by
  rcases w with ⟨⟨key', value⟩ | key', _ | _⟩
  · rfl
  · show (put key' value t).get key = t.get key
    rw [get_put, if_neg (Ne.symm h)]
  · rfl
  · exact get_del_of_ne (Ne.symm h) t

/-- Writes that never delete a key leave its record alone or one of them has written it. -/
theorem get_applyAll (t : MetaTable)
    (hdel : ∀ w ∈ writes, w ≠ ⟨.del key, true⟩) :
    ((∀ w ∈ writes, Spares key w) ∧ (t.applyAll writes).get key = t.get key) ∨
      ∃ value, ⟨.put key value, true⟩ ∈ writes ∧ (t.applyAll writes).get key = some value := by
  induction writes generalizing t with
  | nil => exact .inl ⟨fun _ h => (nomatch h), rfl⟩
  | cons w rest ih =>
    have hrest : ∀ w ∈ rest, w ≠ ⟨.del key, true⟩ := fun w' hw' => hdel w' (mem_cons_of_mem w hw')
    rcases ih (t.apply w) hrest with ⟨hspares, hget⟩ | ⟨value, hmem, hget⟩
    · by_cases hw : Spares key w
      · refine .inl ⟨fun w' hw' => ?_, hget.trans (get_apply_of_spares hw t)⟩
        rcases mem_cons.mp hw' with rfl | hw'
        · exact hw
        · exact hspares w' hw'
      · -- The last write to the key is the head of the list.
        rcases w with ⟨⟨key', value⟩ | key', _ | _⟩
        · exact absurd trivial hw
        · have hkey : key' = key := not_not.mp hw
          subst hkey
          refine .inr ⟨value, mem_cons_self, hget.trans ?_⟩
          show (put key' value t).get key' = some value
          rw [get_put, if_pos rfl]
        · exact absurd trivial hw
        · have hkey : key' = key := not_not.mp hw
          subst hkey
          exact absurd rfl (hdel _ mem_cons_self)
    · exact .inr ⟨value, mem_cons_of_mem w hmem, hget⟩

lemma mem_of_get (h : t.get key = some value) : (key, value) ∈ t := by
  obtain ⟨e, hfind, rfl⟩ := map_eq_some_iff.mp h
  have hkey : e.1 = key := by simpa using List.find?_some hfind
  rw [← hkey]
  exact List.mem_of_find?_eq_some hfind

/-- A key that is written and never deleted has a record with a value that was written. -/
theorem mem_applyAll_of_put (t : MetaTable)
    (h : ⟨.put key value, true⟩ ∈ writes)
    (hdel : ∀ w ∈ writes, w ≠ ⟨.del key, true⟩) :
    ∃ value', ⟨.put key value', true⟩ ∈ writes ∧ (key, value') ∈ t.applyAll writes := by
  rcases get_applyAll t hdel with ⟨hspares, -⟩ | ⟨value', hmem, hget⟩
  · exact absurd rfl (hspares _ h)
  · exact ⟨value', hmem, mem_of_get hget⟩

end MetaTable

/-! ### What `open` loads -/

lemma lt_succ_of_ne_last {id : UInt16} (h : id ≠ 0xFFFF) : id < id + 1 := by
  have hne : id.toNat ≠ 0xFFFF := fun heq => h (UInt16.toNat_inj.mp heq)
  have hlt : id.toNat < 2 ^ 16 := id.toNat_lt
  rw [UInt16.lt_iff_toNat_lt, UInt16.toNat_add, UInt16.toNat_one]
  omega

section Scan

variable {ε ν : Type} {id : ν → UInt16}

/-- One record of a scan: a definition is filed and the counter is kept above its id. -/
def scanRecord (pick : ε → Option ν) (acc : KeyedMap Nat ν (fun d => (id d).toNat) × UInt16) (e : ε) :
    KeyedMap Nat ν (fun d => (id d).toNat) × UInt16 :=
  match pick e with
  | none => acc
  | some d => (acc.1.set d, if acc.2 ≤ id d then id d + 1 else acc.2)

variable {pick : ε → Option ν} {acc : KeyedMap Nat ν (fun d => (id d).toNat) × UInt16}
variable {records : List ε}

/-- What was filed stood in a record. -/
theorem mem_of_scan {k : Nat} {d : ν}
    (h : (records.foldl (scanRecord pick) acc).1.get k = some d) :
    acc.1.get k = some d ∨ ∃ e ∈ records, pick e = some d := by
  induction records generalizing acc with
  | nil => exact .inl h
  | cons e rest ih =>
    rcases ih h with hget | ⟨e', he', hpick⟩
    · unfold scanRecord at hget
      split at hget
      · exact .inl hget
      · rename_i d' hpick
        rw [KeyedMap.get_set] at hget
        split at hget
        · obtain rfl := some.inj hget
          exact .inr ⟨e, mem_cons_self, hpick⟩
        · exact .inl hget
    · exact .inr ⟨e', mem_cons_of_mem e he', hpick⟩

lemma isSome_scan {k : Nat} (h : (acc.1.get k).isSome) :
    ((records.foldl (scanRecord pick) acc).1.get k).isSome := by
  induction records generalizing acc with
  | nil => exact h
  | cons e rest ih =>
    apply ih
    unfold scanRecord
    split
    · exact h
    · rw [KeyedMap.get_set]
      split
      · rfl
      · exact h

/-- Every definition in a record has its id filed. -/
theorem scan_of_mem {e : ε} {d : ν} (he : e ∈ records) (hpick : pick e = some d) :
    ((records.foldl (scanRecord pick) acc).1.get (id d).toNat).isSome := by
  induction records generalizing acc with
  | nil => exact nomatch he
  | cons e' rest ih =>
    rcases mem_cons.mp he with rfl | he
    · rw [foldl_cons]
      apply isSome_scan
      unfold scanRecord
      rw [hpick]
      simp
    · exact ih he

/-- The counter stays above the ids, as long as none of them is the last one. -/
theorem scan_below (hids : ∀ e ∈ records, ∀ d, pick e = some d → id d ≠ 0xFFFF)
    (hacc : ∀ k d, acc.1.get k = some d → id d < acc.2) (k : Nat) (d : ν)
    (h : (records.foldl (scanRecord pick) acc).1.get k = some d) :
    id d < (records.foldl (scanRecord pick) acc).2 := by
  induction records generalizing acc with
  | nil => exact hacc k d h
  | cons e rest ih =>
    apply ih (fun e' he' => hids e' (mem_cons_of_mem e he')) _ h
    intro k' d' hget
    unfold scanRecord at hget ⊢
    split at hget
    · exact hacc k' d' hget
    · rename_i d₀ hpick
      have hsucc := lt_succ_of_ne_last (hids e mem_cons_self d₀ hpick)
      rw [KeyedMap.get_set] at hget
      have hcases : id d' = id d₀ ∨ id d' < acc.2 := by
        split at hget
        · exact .inl (congrArg id (some.inj hget).symm)
        · exact .inr (hacc k' d' hget)
      show id d' < if acc.2 ≤ id d₀ then id d₀ + 1 else acc.2
      rw [lt_iff_toNat_lt] at hsucc hcases
      split
      · rename_i hle
        rw [le_iff_toNat_le] at hle
        rw [lt_iff_toNat_lt]
        rcases hcases with heq | hlt
        · rw [heq]
          exact hsucc
        · omega
      · rename_i hlt
        rw [le_iff_toNat_le] at hlt
        rw [lt_iff_toNat_lt]
        rcases hcases with heq | hlt'
        · rw [heq]
          omega
        · exact hlt'

end Scan

/-- The definition in a record that the scan of the labels loads. -/
def pickLabel : MetaKey × MetaValue → Option LabelDef
  | (.label _, .labelDef d) => some d
  | _ => none

def pickEdgeLabel : MetaKey × MetaValue → Option EdgeLabelDef
  | (.edgeLabel _, .edgeLabelDef d) => some d
  | _ => none

/-- A loader that scans what `view` sees and keeps what `rest` sees does so over a whole table. -/
theorem foldl_scan {ε σ ρ ν : Type} {id : ν → UInt16} {pick : ε → Option ν} {load : σ → ε → σ}
    (view : σ → KeyedMap Nat ν (fun d => (id d).toNat) × UInt16) (rest : σ → ρ)
    (hload : ∀ s e, view (load s e) = scanRecord pick (view s) e ∧ rest (load s e) = rest s)
    (records : List ε) (s : σ) :
    view (records.foldl load s) = records.foldl (scanRecord pick) (view s) ∧
      rest (records.foldl load s) = rest s := by
  induction records generalizing s with
  | nil => exact ⟨rfl, rfl⟩
  | cons e records ih =>
    obtain ⟨hview, hrest⟩ := ih (load s e)
    rw [foldl_cons, foldl_cons, ← (hload s e).1]
    exact ⟨hview, hrest.trans (hload s e).2⟩

lemma foldl_loadLabel (t : MetaTable) (s : GraphSchema) :
    ((t.foldl loadLabel s).labels, (t.foldl loadLabel s).nextIds.nextLabelId) =
        t.foldl (scanRecord pickLabel) (s.labels, s.nextIds.nextLabelId) ∧
      ((t.foldl loadLabel s).edgeLabels, (t.foldl loadLabel s).nextIds.nextEdgeLabelId) =
        (s.edgeLabels, s.nextIds.nextEdgeLabelId) := by
  refine foldl_scan (fun s => (s.labels, s.nextIds.nextLabelId))
    (fun s => (s.edgeLabels, s.nextIds.nextEdgeLabelId)) (fun s e => ?_) t s
  unfold loadLabel scanRecord pickLabel
  split <;> exact ⟨rfl, rfl⟩

lemma foldl_loadEdgeLabel (t : MetaTable) (s : GraphSchema) :
    ((t.foldl loadEdgeLabel s).edgeLabels, (t.foldl loadEdgeLabel s).nextIds.nextEdgeLabelId) =
        t.foldl (scanRecord pickEdgeLabel) (s.edgeLabels, s.nextIds.nextEdgeLabelId) ∧
      ((t.foldl loadEdgeLabel s).labels, (t.foldl loadEdgeLabel s).nextIds.nextLabelId) =
        (s.labels, s.nextIds.nextLabelId) := by
  refine foldl_scan (fun s => (s.edgeLabels, s.nextIds.nextEdgeLabelId))
    (fun s => (s.labels, s.nextIds.nextLabelId)) (fun s e => ?_) t s
  unfold loadEdgeLabel scanRecord pickEdgeLabel
  split <;> exact ⟨rfl, rfl⟩

lemma scanTable_labels (t : MetaTable) : ((scanTable t).labels, (scanTable t).nextIds.nextLabelId) =
      t.foldl (scanRecord pickLabel) (.empty, 1) :=
  (foldl_loadEdgeLabel t (t.foldl loadLabel .fresh)).2.trans (foldl_loadLabel t .fresh).1

lemma scanTable_edgeLabels (t : MetaTable) : ((scanTable t).edgeLabels, (scanTable t).nextIds.nextEdgeLabelId) =
      t.foldl (scanRecord pickEdgeLabel) (.empty, 1) :=
  (foldl_loadEdgeLabel t (t.foldl loadLabel .fresh)).1.trans
    (congrArg (t.foldl (scanRecord pickEdgeLabel)) (foldl_loadLabel t .fresh).2)

/-! ### The invariant -/

/-- The definitions that `open` loads from a record are below the counters. -/
structure Below (ids : NextIds) (e : MetaKey × MetaValue) : Prop where
  label : ∀ d, pickLabel e = some d → d.id < ids.nextLabelId
  edgeLabel : ∀ d, pickEdgeLabel e = some d → d.id < ids.nextEdgeLabelId

/-- The label and edge label counters of `ids` are at most those of `ids'`. -/
structure CountersLe (ids ids' : NextIds) : Prop where
  label : ids.nextLabelId ≤ ids'.nextLabelId
  edgeLabel : ids.nextEdgeLabelId ≤ ids'.nextEdgeLabelId

lemma CountersLe.refl (ids : NextIds) : CountersLe ids ids := ⟨UInt16.le_refl _, UInt16.le_refl _⟩

lemma CountersLe.trans {a b c : NextIds} (h : CountersLe a b) (h' : CountersLe b c) : CountersLe a c :=
  ⟨UInt16.le_trans h.label h'.label, UInt16.le_trans h.edgeLabel h'.edgeLabel⟩

variable {e : MetaKey × MetaValue}

lemma Below.mono {ids ids' : NextIds} (h : Below ids e) (hle : CountersLe ids ids') : Below ids' e :=
  ⟨fun d hd => UInt16.lt_of_lt_of_le (h.label d hd) hle.label,
    fun d hd => UInt16.lt_of_lt_of_le (h.edgeLabel d hd) hle.edgeLabel⟩

variable {s : GraphSchema}

lemma IdsBelow.mono {ids ids' : NextIds} (h : IdsBelow ids s) (hle : CountersLe ids ids') : IdsBelow ids' s :=
  ⟨fun k d hd => UInt16.lt_of_lt_of_le (h.labels k d hd) hle.label,
    fun k d hd => UInt16.lt_of_lt_of_le (h.edgeLabels k d hd) hle.edgeLabel⟩

/-- The counters of a schema, and those saved in the table, are above everything. -/
structure TableFits (s : GraphSchema) (t : MetaTable) : Prop where
  below : ∀ e ∈ t, Below s.nextIds e
  saved : ∀ v, t.get .nextIds = some v → ∃ ids, v = .nextIds ids ∧ CountersLe ids s.nextIds ∧
    IdsBelow ids s ∧ ∀ e ∈ t, Below ids e

structure MetaRun.Inv (r : MetaRun) : Prop where
  ahead : IdsAhead r.schema
  fits : TableFits r.schema r.table

lemma openSchema_maps (t : MetaTable) : (openSchema t).labels = (scanTable t).labels ∧
      (openSchema t).edgeLabels = (scanTable t).edgeLabels := by
  unfold openSchema
  split <;> exact ⟨rfl, rfl⟩

variable {t : MetaTable}

/-- What is loaded stood in the table. -/
theorem idsBelow_openSchema {ids : NextIds} (h : ∀ e ∈ t, Below ids e) : IdsBelow ids (openSchema t) := by
  obtain ⟨hlabels, hedgeLabels⟩ := openSchema_maps t
  constructor
  · intro k d hget
    rw [hlabels, show (scanTable t).labels = _ from congrArg fst (scanTable_labels t)] at hget
    rcases mem_of_scan hget with hnone | ⟨e, he, hpick⟩
    · exact nomatch hnone
    · exact (h e he).label d hpick
  · intro k d hget
    rw [hedgeLabels, show (scanTable t).edgeLabels = _ from congrArg fst (scanTable_edgeLabels t)] at hget
    rcases mem_of_scan hget with hnone | ⟨e, he, hpick⟩
    · exact nomatch hnone
    · exact (h e he).edgeLabel d hpick

variable {d : LabelDef}

lemma isSome_label_scan (he : e ∈ t) (hpick : pickLabel e = some d) :
    ((t.foldl (scanRecord pickLabel) ((.empty : LabelMap), 1)).1.get d.id.toNat).isSome :=
  scan_of_mem he hpick

lemma isSome_edgeLabel_scan {d : EdgeLabelDef} (he : e ∈ t) (hpick : pickEdgeLabel e = some d) :
    ((t.foldl (scanRecord pickEdgeLabel) ((.empty : EdgeLabelMap), 1)).1.get d.id.toNat).isSome :=
  scan_of_mem he hpick

lemma loaded_label (he : e ∈ t) (hpick : pickLabel e = some d) :
    ∃ d', (openSchema t).labels.get d.id.toNat = some d' ∧ d'.id = d.id := by
  rw [(openSchema_maps t).1, show (scanTable t).labels = _ from congrArg fst (scanTable_labels t)]
  obtain ⟨d', hget⟩ := isSome_iff_exists.mp (isSome_label_scan he hpick)
  have hkey := KeyedMap.key_of_get hget
  exact ⟨d', hget, UInt16.toNat_inj.mp hkey⟩

lemma loaded_edgeLabel {d : EdgeLabelDef} (he : e ∈ t) (hpick : pickEdgeLabel e = some d) :
    ∃ d', (openSchema t).edgeLabels.get d.id.toNat = some d' ∧ d'.id = d.id := by
  rw [(openSchema_maps t).2, show (scanTable t).edgeLabels = _ from congrArg fst (scanTable_edgeLabels t)]
  obtain ⟨d', hget⟩ := isSome_iff_exists.mp (isSome_edgeLabel_scan he hpick)
  have hkey := KeyedMap.key_of_get hget
  exact ⟨d', hget, UInt16.toNat_inj.mp hkey⟩

lemma ne_last_of_lt {id next : UInt16} (h : id < next) : id ≠ 0xFFFF := by
  rintro rfl
  rw [lt_iff_toNat_lt] at h
  have hlt : next.toNat < 2 ^ 16 := next.toNat_lt
  have hlast : (0xFFFF : UInt16).toNat = 0xFFFF := rfl
  omega

/-- Without saved counters the scan puts the counters above what it loads. -/
theorem idsAhead_scanTable {top : NextIds} (h : ∀ e ∈ t, Below top e) : IdsAhead (scanTable t) := by
  constructor
  · intro k d hget
    have hscan := scanTable_labels t
    rw [show (scanTable t).labels = _ from congrArg fst hscan] at hget
    rw [show (scanTable t).nextIds.nextLabelId = _ from congrArg snd hscan]
    exact scan_below (fun e he d hd => ne_last_of_lt ((h e he).label d hd))
      (fun _ _ hnone => absurd hnone (by simp)) k d hget
  · intro k d hget
    have hscan := scanTable_edgeLabels t
    rw [show (scanTable t).edgeLabels = _ from congrArg fst hscan] at hget
    rw [show (scanTable t).nextIds.nextEdgeLabelId = _ from congrArg snd hscan]
    exact scan_below (fun e he d hd => ne_last_of_lt ((h e he).edgeLabel d hd))
      (fun _ _ hnone => absurd hnone (by simp)) k d hget

/-- A store that is opened on a table whose saved counters, if any, are above its ids. -/
theorem inv_open {top : NextIds} (hbelow : ∀ e ∈ t, Below top e)
    (hsaved : ∀ v, t.get .nextIds = some v → ∃ ids, v = .nextIds ids ∧ ∀ e ∈ t, Below ids e) :
    MetaRun.Inv ⟨openSchema t, t⟩ := by
  cases hget : t.get .nextIds with
  | none =>
    have hopen : openSchema t = scanTable t := by simp [openSchema, hget]
    have hahead : IdsAhead (openSchema t) := by
      rw [hopen]
      exact idsAhead_scanTable hbelow
    refine ⟨hahead, fun e he => ⟨fun d hd => ?_, fun d hd => ?_⟩, fun v hv => ?_⟩
    · obtain ⟨d', hd', hid⟩ := loaded_label he hd
      exact hid ▸ hahead.labels _ d' hd'
    · obtain ⟨d', hd', hid⟩ := loaded_edgeLabel he hd
      exact hid ▸ hahead.edgeLabels _ d' hd'
    · exact nomatch hget.symm.trans hv
  | some v =>
    obtain ⟨ids, rfl, hids⟩ := hsaved v hget
    have hnext : (openSchema t).nextIds = ids := by simp [openSchema, hget]
    have hloaded := idsBelow_openSchema hids
    refine ⟨?_, ?_, fun v hv => ?_⟩
    · show IdsBelow (openSchema t).nextIds (openSchema t)
      rw [hnext]
      exact hloaded
    · show ∀ e ∈ t, Below (openSchema t).nextIds e
      rw [hnext]
      exact hids
    · have hv : t.get .nextIds = some v := hv
      rw [hget, some.injEq] at hv
      refine ⟨ids, hv.symm, ?_, hloaded, hids⟩
      show CountersLe ids (openSchema t).nextIds
      rw [hnext]
      exact .refl ids

/-! ### Operations that take no id -/

/-- The same ids are filed and the label and edge label counters are the same. -/
structure SameIds (s s' : GraphSchema) : Prop where
  labels : ∀ k, (s'.labels.get k).isSome = (s.labels.get k).isSome
  edgeLabels : ∀ k, (s'.edgeLabels.get k).isSome = (s.edgeLabels.get k).isSome
  labelCounter : s'.nextIds.nextLabelId = s.nextIds.nextLabelId
  edgeLabelCounter : s'.nextIds.nextEdgeLabelId = s.nextIds.nextEdgeLabelId

lemma SameIds.refl (s : GraphSchema) : SameIds s s := ⟨fun _ => rfl, fun _ => rfl, rfl, rfl⟩

lemma SameIds.trans {s' s'' : GraphSchema} (h : SameIds s s') (h' : SameIds s' s'') : SameIds s s'' :=
  ⟨fun k => (h'.labels k).trans (h.labels k), fun k => (h'.edgeLabels k).trans (h.edgeLabels k),
    h'.labelCounter.trans h.labelCounter, h'.edgeLabelCounter.trans h.edgeLabelCounter⟩

lemma sameIds_setLabel (h : (s.labels.get d.id.toNat).isSome) : SameIds s (s.setLabel d) := by
  refine ⟨fun k => ?_, fun _ => rfl, rfl, rfl⟩
  show ((s.labels.set d).get k).isSome = _
  rw [KeyedMap.get_set]
  split
  · rename_i hk
    rw [hk, h]
    rfl
  · rfl

lemma sameIds_setEdgeLabel {d : EdgeLabelDef}
    (h : (s.edgeLabels.get d.id.toNat).isSome) : SameIds s (s.setEdgeLabel d) := by
  refine ⟨fun _ => rfl, fun k => ?_, rfl, rfl⟩
  show ((s.edgeLabels.set d).get k).isSome = _
  rw [KeyedMap.get_set]
  split
  · rename_i hk
    rw [hk, h]
    rfl
  · rfl

/-- A definition that is written has an id that is filed, and counters that are written are
those of the schema. -/
def Harmless (s : GraphSchema) : MetaCall → Prop
  | .put (.label _) (.labelDef d) => (s.labels.get d.id.toNat).isSome
  | .put (.edgeLabel _) (.edgeLabelDef d) => (s.edgeLabels.get d.id.toNat).isSome
  | .put .nextIds v => ∃ ids, v = .nextIds ids ∧ ids.nextLabelId = s.nextIds.nextLabelId ∧
      ids.nextEdgeLabelId = s.nextIds.nextEdgeLabelId
  | .del .nextIds => False
  | _ => True

/-- The operation takes no id. -/
structure Tame {α : Type} (m : MetaHandler α) (s : GraphSchema) : Prop where
  makes : Makes (Harmless s) m s
  ensures : Ensures anyAnswer m s fun _ s' => SameIds s s'

variable {α : Type}

lemma tame_pure (a : α) (s : GraphSchema) : Tame (pure a : MetaHandler α) s := ⟨makes_pure a, SameIds.refl s⟩

lemma tame_fromExcept (r : Except String α) (s : GraphSchema) : Tame (fromExcept r : MetaHandler α) s :=
  ⟨makes_fromExcept r, (ensures_fromExcept r).mpr (.refl s)⟩

/-- Metadata writes that are harmless, whatever they answer. -/
def HarmlessWrites {α : Type} (s : GraphSchema) (m : MetaHandler α) : Prop :=
  KeepsSchema m ∧ ∀ s', SameIds s s' → Makes (Harmless s) m s'

variable {m : MetaHandler α}

lemma HarmlessWrites.bind {β : Type}
    {f : α → MetaHandler β} (hm : HarmlessWrites s m) (hf : ∀ a, HarmlessWrites s (f a)) :
    HarmlessWrites s (m >>= f) := by
  refine ⟨hm.1.bind fun a => (hf a).1, fun s' hs' => ?_⟩
  rw [makes_bind]
  refine ⟨hm.2 s' hs', ?_⟩
  apply Ensures.mono (hm.1 s')
  rintro (message | a) s'' rfl
  · trivial
  · exact (hf a).2 s'' hs'

lemma harmlessWrites_pure (s : GraphSchema) (a : α) : HarmlessWrites s (pure a : MetaHandler α) :=
  ⟨fun _ => by simp, fun _ _ => makes_pure a⟩

lemma harmlessWrites_throw (s : GraphSchema) (message : String) :
    HarmlessWrites s (throw message : MetaHandler α) :=
  ⟨fun _ => by simp, fun _ _ => makes_throw message⟩

lemma harmlessWrites_put {key : MetaKey} {value : MetaValue}
    (h : Harmless s (.put key value)) : HarmlessWrites s (metadataPut key value) :=
  ⟨keepsSchema_metadataPut key value, fun _ _ => (makes_ask _).mpr h⟩

lemma HarmlessWrites.require {write : MetaHandler Bool}
    (h : HarmlessWrites s write) (message : String) : HarmlessWrites s (require write message) := by
  apply h.bind
  intro ok
  cases ok with
  | false => exact harmlessWrites_throw s message
  | true => exact harmlessWrites_pure s ()

lemma harmlessWrites_putBoth {key key' : MetaKey} {value : MetaValue}
    (h : Harmless s (.put key value)) (h' : Harmless s (.put key' value)) :
    HarmlessWrites s (metadataPutBoth key key' value) := by
  apply (harmlessWrites_put h).bind
  intro ok
  cases ok with
  | false => exact harmlessWrites_pure s false
  | true => exact harmlessWrites_put h'

lemma harmlessWrites_persistLabelDef
    (h : (s.labels.get d.id.toNat).isSome) : HarmlessWrites s (persistLabelDef d) := by
  have hname : Harmless s (.put (.label d.name) (.labelDef d)) := h
  have hid : Harmless s (.put (.labelId d.id) (.labelDef d)) := trivial
  exact (harmlessWrites_putBoth hname hid).require _

lemma harmlessWrites_persistEdgeLabelDef {d : EdgeLabelDef}
    (h : (s.edgeLabels.get d.id.toNat).isSome) : HarmlessWrites s (persistEdgeLabelDef d) := by
  have hname : Harmless s (.put (.edgeLabel d.name) (.edgeLabelDef d)) := h
  have hid : Harmless s (.put (.edgeLabelId d.id) (.edgeLabelDef d)) := trivial
  exact (harmlessWrites_putBoth hname hid).require _

lemma harmlessWrites_saveNextIds (s : GraphSchema) : HarmlessWrites s saveNextIds := by
  refine ⟨keepsSchema_saveNextIds, fun s' hs' => ?_⟩
  have hwrite : Harmless s (.put .nextIds (.nextIds s'.nextIds)) := ⟨_, rfl, hs'.labelCounter, hs'.edgeLabelCounter⟩
  rw [saveNextIds, makes_bind]
  exact ⟨makes_get, ((harmlessWrites_put hwrite).require _).2 s' hs'⟩

variable {body : MetaHandler Unit}

/-- The pattern of the mutators: an edit, harmless writes, and the undo on a failure. -/
theorem tame_orUndo {edit undo : GraphSchema → GraphSchema}
    (hbody : HarmlessWrites s body) (hedit : SameIds s (edit s))
    (hundo : SameIds s (undo (edit s))) (a : α) :
    Tame (do modify edit; orUndo body undo; pure a) s := by
  have hkeeps := hbody.1 (edit s)
  constructor
  · simp only [orUndo, makes_bind, makes_modify, makes_tryCatch, ensures_modify, true_and]
    refine ⟨⟨hbody.2 _ hedit, ?_⟩, ?_⟩
    · apply Ensures.mono hkeeps
      rintro (message | _) s' rfl
      · simp
      · trivial
    · apply Ensures.of_forall
      rintro (message | _) s'
      · trivial
      · trivial
  · simp only [orUndo, ensures_bind, ensures_modify, ensures_tryCatch]
    apply Ensures.mono hkeeps
    rintro (message | _) s' rfl
    · simpa using hundo
    · simpa using hedit

lemma isSome_of_filed {before : LabelDef}
    (h : s.labels.get before.id.toNat = some before) (hid : d.id = before.id) :
    (s.labels.get d.id.toNat).isSome := by
  rw [hid, h]
  rfl

lemma isSome_of_filedEdge {d before : EdgeLabelDef}
    (h : s.edgeLabels.get before.id.toNat = some before) (hid : d.id = before.id) :
    (s.edgeLabels.get d.id.toNat).isSome := by
  rw [hid, h]
  rfl

lemma tame_editLabel {before : LabelDef}
    (hbody : HarmlessWrites s body) (hbefore : s.labels.get before.id.toNat = some before)
    (hid : d.id = before.id) (a : α) :
    Tame (do modify (·.setLabel d); orUndo body (·.setLabel before); pure a) s := by
  have hedit : SameIds s (s.setLabel d) := sameIds_setLabel (isSome_of_filed hbefore hid)
  apply tame_orUndo hbody hedit
  apply hedit.trans
  apply sameIds_setLabel
  rw [hedit.labels, hbefore]
  rfl

lemma tame_editEdgeLabel {d before : EdgeLabelDef} (hbody : HarmlessWrites s body)
    (hbefore : s.edgeLabels.get before.id.toNat = some before) (hid : d.id = before.id) (a : α) :
    Tame (do modify (·.setEdgeLabel d); orUndo body (·.setEdgeLabel before); pure a) s := by
  have hedit : SameIds s (s.setEdgeLabel d) := sameIds_setEdgeLabel (isSome_of_filedEdge hbefore hid)
  apply tame_orUndo hbody hedit
  apply hedit.trans
  apply sameIds_setEdgeLabel
  rw [hedit.edgeLabels, hbefore]
  rfl

/-- The schema is read first. -/
theorem tame_get {f : GraphSchema → MetaHandler α} (h : Tame (f s) s) :
    Tame (do let s ← get; f s) s := by
  constructor
  · rw [makes_bind]
    exact ⟨makes_get, h.makes⟩
  · rw [ensures_bind]
    exact h.ensures

lemma tame_ite {c : Prop} [Decidable c] {m' : MetaHandler α}
    (h : c → Tame m s) (h' : ¬ c → Tame m' s) : Tame (if c then m else m') s := by
  split
  · rename_i hc
    exact h hc
  · rename_i hc
    exact h' hc

lemma tame_mergeIntoLabel (name : String) (before : LabelDef) (properties : List PropertyDef)
    (hbefore : s.labels.get before.id.toNat = some before) :
    Tame (mergeIntoLabel name before properties) s := by
  have hid := mergeProperties_id name properties (ofNat before.properties.length) before false
  have hedit := sameIds_setLabel (isSome_of_filed hbefore hid)
  have hwrites := harmlessWrites_persistLabelDef (isSome_of_filed hbefore hid)
  unfold mergeIntoLabel
  dsimp only
  cases hmerged : (mergeProperties name properties (ofNat before.properties.length) before false).2 with
  | error conflict => exact ⟨trivial, hedit⟩
  | ok changed =>
    cases changed with
    | false => exact ⟨trivial, hedit⟩
    | true => exact tame_editLabel hwrites hbefore hid before.id

lemma tame_createLabel {name : String} (hname : (s.labelNameToId name).isSome)
    (properties : List PropertyDef) (pkProps : List String) (merge : Bool) :
    Tame (createLabel name properties pkProps merge) s := by
  obtain ⟨existingId, hid⟩ := isSome_iff_exists.mp hname
  apply tame_get
  rw [hid]
  dsimp only
  cases hexisting : s.getLabelById existingId with
  | none => exact ⟨trivial, SameIds.refl s⟩
  | some before =>
    dsimp only
    apply tame_ite
    · intro _
      exact tame_mergeIntoLabel name before properties (filed_of_getLabelById hexisting)
    · intro _
      exact tame_fromExcept _ s

lemma tame_createEdgeLabel {name : String}
    (hname : (s.edgeLabelNameToId name).isSome) (properties : List PropertyDef) :
    Tame (createEdgeLabel name properties) s := by
  apply tame_get
  rw [if_pos hname]
  exact tame_pure _ s

lemma tame_addVertexLabelProperties (name : String) (propDefs : List (String × PropertyType))
    (s : GraphSchema) : Tame (addVertexLabelProperties name propDefs) s := by
  apply tame_get
  cases hlabel : s.getLabel name with
  | none => exact tame_pure false s
  | some before =>
    have hbefore := filed_of_getLabel hlabel
    apply tame_editLabel
    · exact harmlessWrites_persistLabelDef (isSome_of_filed hbefore rfl)
    · exact hbefore
    · rfl

lemma tame_addEdgeLabelProperties (name : String) (propDefs : List (String × PropertyType))
    (s : GraphSchema) : Tame (addEdgeLabelProperties name propDefs) s := by
  apply tame_get
  cases hlabel : s.getEdgeLabel name with
  | none => exact tame_pure false s
  | some before =>
    have hbefore := filed_of_getEdgeLabel hlabel
    apply tame_editEdgeLabel
    · exact harmlessWrites_persistEdgeLabelDef (isSome_of_filedEdge hbefore rfl)
    · exact hbefore
    · rfl

lemma tame_getOrCreateAnonPropId (propName : String) (propType : PropertyType)
    (s : GraphSchema) : Tame (getOrCreateAnonPropId propName propType) s := by
  apply tame_get
  cases hanon : s.labels.values.find? (·.name = anonLabelName) with
  | none => exact tame_pure 0 s
  | some before =>
    have hbefore := filed_of_find hanon
    dsimp only
    split
    · exact tame_pure _ s
    · apply tame_editLabel
      · exact harmlessWrites_persistLabelDef (isSome_of_filed hbefore rfl)
      · exact hbefore
      · rfl

lemma harmlessWrites_index (name : String) (value : MetaValue)
    (message : String) : HarmlessWrites s (require (metadataPut (.index name) value) message) := by
  have hwrite : Harmless s (.put (.index name) value) := trivial
  exact (harmlessWrites_put hwrite).require message

/-- The index counter does not count. -/
theorem Tame.of_indexCounter {indexId : UInt32}
    (h : Tame m { s with nextIds := { s.nextIds with nextIndexId := indexId } }) :
    Tame (do
      modify fun s => { s with nextIds := { s.nextIds with nextIndexId := indexId } }
      m) s := by
  constructor
  · rw [makes_bind]
    exact ⟨makes_modify _, h.makes⟩
  · rw [ensures_bind, ensures_modify]
    apply Ensures.mono h.ensures
    intro _ s' hsame
    exact ⟨hsame.labels, hsame.edgeLabels, hsame.labelCounter, hsame.edgeLabelCounter⟩

lemma tame_createVertexIndexWithAccessors (name labelName : String)
    (accessors : List IndexAccessorDef) (unique : Bool) (s : GraphSchema) :
    Tame (createVertexIndexWithAccessors name labelName accessors unique) s := by
  apply tame_get
  apply tame_ite
  · intro _
    exact tame_pure false s
  intro _
  cases hlabel : s.getLabel labelName with
  | none => exact tame_pure false s
  | some before =>
    dsimp only
    apply tame_ite
    · intro _
      exact tame_pure false s
    intro _
    apply tame_ite
    · intro _
      exact tame_pure false s
    intro _
    apply Tame.of_indexCounter
    apply tame_ite
    · intro _
      exact tame_pure false _
    intro _
    have hbefore := filed_of_getLabel hlabel
    apply tame_editLabel
    · apply HarmlessWrites.bind
      · apply harmlessWrites_persistLabelDef
        exact isSome_of_filed hbefore rfl
      · intro _
        exact (harmlessWrites_index name _ _).bind fun _ => harmlessWrites_saveNextIds _
    · exact hbefore
    · rfl

lemma tame_createEdgeIndex (name edgeLabelName : String) (propNames : List String)
    (unique : Bool) (s : GraphSchema) :
    Tame (createEdgeIndex name edgeLabelName propNames unique) s := by
  apply tame_get
  apply tame_ite
  · intro _
    exact tame_pure false s
  intro _
  cases hlabel : s.getEdgeLabel edgeLabelName with
  | none => exact tame_pure false s
  | some before =>
    have hbefore := filed_of_getEdgeLabel hlabel
    dsimp only
    split
    · exact tame_pure false s
    · apply tame_ite
      · intro _
        exact tame_pure false s
      intro _
      apply tame_editEdgeLabel
      · apply HarmlessWrites.bind
        · apply harmlessWrites_persistEdgeLabelDef
          exact isSome_of_filedEdge hbefore rfl
        · intro _
          exact harmlessWrites_index name _ _
      · exact hbefore
      · rfl

lemma tame_updateIndexState (name : String) (state : IndexState) (s : GraphSchema) :
    Tame (updateIndexState name state) s := by
  apply tame_get
  split
  · rename_i before hfound
    have hbefore := filed_of_find hfound
    apply tame_editLabel
    · exact harmlessWrites_persistLabelDef (isSome_of_filed hbefore rfl)
    · exact hbefore
    · rfl
  · split
    · rename_i before hfound
      have hbefore := filed_of_findEdge hfound
      apply tame_editEdgeLabel
      · exact harmlessWrites_persistEdgeLabelDef (isSome_of_filedEdge hbefore rfl)
      · exact hbefore
      · rfl
    · exact tame_pure false s

lemma tame_dropIndex (name : String) (s : GraphSchema) : Tame (dropIndex name) s := by
  have hdelete : ∀ message, HarmlessWrites s (require (metadataDel (.index name)) message) := by
    intro message
    have hdel : HarmlessWrites s (metadataDel (.index name)) :=
      ⟨keepsSchema_metadataDel _, fun _ _ => (makes_ask _).mpr trivial⟩
    exact hdel.require message
  apply tame_get
  dsimp only
  split
  · rename_i before hfound
    have hbefore := filed_of_find hfound
    apply tame_editLabel
    · apply HarmlessWrites.bind
      · apply harmlessWrites_persistLabelDef
        exact isSome_of_filed hbefore rfl
      · intro _
        exact hdelete _
    · exact hbefore
    · rfl
  · split
    · rename_i before hfound
      have hbefore := filed_of_findEdge hfound
      apply tame_editEdgeLabel
      · apply HarmlessWrites.bind
        · apply harmlessWrites_persistEdgeLabelDef
          exact isSome_of_filedEdge hbefore rfl
        · intro _
          exact hdelete _
      · exact hbefore
      · rfl
    · exact tame_pure false s

end Eugraph.MetaStore
