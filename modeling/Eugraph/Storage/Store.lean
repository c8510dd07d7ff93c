import Eugraph.Lib.Program
import Eugraph.Storage.TableOps
import Eugraph.Kv.KeyCodec

/-!
# Tables, table calls and programs over them

The data store is a set of named tables.  Its operations are programs over the calls
of `wt_table_ops`: `table_put`, `table_get`, `table_del` and `table_scan`, each in a
variant for the `GraphSession` and one for a bare `WT_SESSION*`.  `exec` runs a
program with every engine call succeeding.
-/

namespace Eugraph

open Lib Wt KeyCodec List Lib.Program Or

/-- The tables of `SyncGraphDataStore`, by the function that builds their name. -/
inductive TableName
  | vertexData
  | edgeIndex
  | vertexExistence
  | vertexSummary
  | labelFwdTable (id : LabelId)
  | etypeTable (id : EdgeLabelId)
  | epropTable (id : EdgeLabelId)
  | vidxTableById (indexId : UInt32)
  /-- `eidxTable` for one property, `eidxCompositeTable` for several -/
  | eidxTable (labelId : EdgeLabelId) (propIds : List PropId)
  deriving DecidableEq

/-- The session a call goes through: `GraphSession&` records a failure, a bare
`WT_SESSION*` does not. -/
inductive Via
  | session
  | raw
  deriving DecidableEq

inductive StoreCall
  | put (via : Via) (table : TableName) (key value : Bytes)
  | get (via : Via) (table : TableName) (key : Bytes)
  | del (via : Via) (table : TableName) (key : Bytes)
  | scan (via : Via) (table : TableName) (pre : Bytes)
  | dropTable (table : TableName)

/-- What a call returns; a scan returns the rows its callback is given. -/
def StoreCall.Answer : StoreCall → Type
  | .put .. => Bool
  | .get .. => Option Bytes
  | .del .. => Bool
  | .scan .. => List Record
  | .dropTable .. => Bool

abbrev StoreM := Program StoreCall StoreCall.Answer

def tablePut (via : Via) (table : TableName) (key value : Bytes) : StoreM Bool :=
  ask (StoreCall.put via table key value)

def tableGet (via : Via) (table : TableName) (key : Bytes) : StoreM (Option Bytes) :=
  ask (StoreCall.get via table key)

def tableDel (via : Via) (table : TableName) (key : Bytes) : StoreM Bool :=
  ask (StoreCall.del via table key)

def tableScan (via : Via) (table : TableName) (pre : Bytes) : StoreM (List Record) :=
  ask (StoreCall.scan via table pre)

def dropTable (table : TableName) : StoreM Bool := ask (StoreCall.dropTable table)

/-- The contents of all tables. -/
abbrev Store := TableName → Table

namespace Store

def empty : Store := fun _ => SortedMap.empty

def put (s : Store) (table : TableName) (key value : Bytes) : Store :=
  Function.update s table ((s table).put key value)

def del (s : Store) (table : TableName) (key : Bytes) : Store :=
  Function.update s table ((s table).del key)

def clear (s : Store) (table : TableName) : Store := Function.update s table SortedMap.empty

def get (s : Store) (table : TableName) (key : Bytes) : Option Bytes := (s table).get key

/-- Every call succeeds. -/
def answer : (c : StoreCall) → Store → c.Answer × Store
  | .put _ table key value, s => (true, s.put table key value)
  | .get _ table key, s => (s.get table key, s)
  | .del _ table key, s => (true, s.del table key)
  | .scan _ table pre, s => (prefixRecords (s table) pre, s)
  | .dropTable table, s => (true, s.clear table)

end Store

/-- Run an operation with every engine call succeeding. -/
def exec {α : Type} (p : StoreM α) (s : Store) : α × Store := p.run Store.answer s

section Exec

variable {α β : Type} (s : Store) (via : Via) (table : TableName) (key value pre : Bytes)

@[simp] lemma exec_pure (a : α) : exec (pure a) s = (a, s) := rfl

@[simp] lemma exec_bind (p : StoreM α) (f : α → StoreM β) : exec (p >>= f) s = exec (f (exec p s).1) (exec p s).2 :=
  run_bind Store.answer p f s

@[simp] lemma exec_ite (c : Prop) [Decidable c] (p q : StoreM α) :
    exec (if c then p else q) s = if c then exec p s else exec q s :=
  run_ite Store.answer c p q s

@[simp] lemma exec_tablePut : exec (tablePut via table key value) s = (true, s.put table key value) := rfl

@[simp] lemma exec_tableGet : exec (tableGet via table key) s = (s.get table key, s) := rfl

@[simp] lemma exec_tableDel : exec (tableDel via table key) s = (true, s.del table key) := rfl

@[simp] lemma exec_tableScan : exec (tableScan via table pre) s = (prefixRecords (s table) pre, s) := rfl

@[simp] lemma exec_dropTable : exec (dropTable table) s = (true, s.clear table) := rfl

/-- A step that succeeds hands over to the next one. -/
theorem exec_andThen {p q : StoreM Bool} {s s' : Store} (hp : exec p s = (true, s')) :
    exec (andThen p q) s = exec q s' := by
  rw [exec] at hp
  rw [exec, run_andThen, hp, if_pos rfl]
  rfl

@[simp] lemma exec_andThen_put (q : StoreM Bool) :
    exec (andThen (tablePut via table key value) q) s = exec q (s.put table key value) :=
  exec_andThen rfl

lemma exec_allOf {body : β → StoreM Bool} {effect : Store → β → Store}
    (hbody : ∀ b s, exec (body b) s = (true, effect s b)) (items : List β) :
    exec (allOf body items) s = (true, items.foldl effect s) :=
  run_allOf Store.answer hbody items s

lemma exec_forEach {body : β → StoreM α} {effect : Store → β → Store}
    (hbody : ∀ b s, (exec (body b) s).2 = effect s b) (items : List β) :
    exec (forEach body items) s = ((), items.foldl effect s) :=
  run_forEach Store.answer hbody items s

lemma exec_mapEach {body : β → StoreM α} (hbody : ∀ b, (exec (body b) s).2 = s) (items : List β) :
    exec (mapEach body items) s = (items.map fun b => (exec (body b) s).1, s) :=
  run_mapEach Store.answer hbody items

end Exec

namespace Store

variable (s : Store) (table table' : TableName) (key key' value : Bytes)

lemma put_get : (s.put table key value).get table' key' =
      if table' = table ∧ key' = key then some value else s.get table' key' := by
  unfold get put
  by_cases htable : table' = table
  · subst htable
    by_cases hkey : key' = key
    · simp [hkey]
    · simp [hkey]
  · simp [htable]

lemma del_get : (s.del table key).get table' key' =
      if table' = table ∧ key' = key then none else s.get table' key' := by
  unfold get del
  by_cases htable : table' = table
  · subst htable
    by_cases hkey : key' = key
    · simp [hkey]
    · simp [hkey]
  · simp [htable]

lemma clear_get :
    (s.clear table).get table' key' = if table' = table then none else s.get table' key' := by
  unfold get clear
  by_cases htable : table' = table
  · simp [htable]
  · simp [htable]

@[simp] lemma put_get_self : (s.put table key value).get table key = some value := by
  simp [put_get]

lemma put_get_of_ne (h : table' ≠ table ∨ key' ≠ key) :
    (s.put table key value).get table' key' = s.get table' key' := by
  rw [put_get, if_neg]
  tauto

lemma del_get_of_ne (h : table' ≠ table ∨ key' ≠ key) : (s.del table key).get table' key' = s.get table' key' := by
  rw [del_get, if_neg]
  tauto

@[simp] lemma del_get_self : (s.del table key).get table key = none := by
  simp [del_get]

/-- Two stores with the same rows are the same store. -/
theorem ext_get {s s' : Store} (h : ∀ table key, s.get table key = s'.get table key) : s = s' :=
  funext fun table => SortedMap.ext_get (h table)

/-! ### Loops of puts and deletes -/

/-- Delete a list of keys from one table. -/
def delAll (s : Store) (table : TableName) (keys : List Bytes) : Store :=
  keys.foldl (fun s key => s.del table key) s

lemma delAll_get (keys : List Bytes) : (s.delAll table keys).get table' key' =
      if table' = table ∧ key' ∈ keys then none else s.get table' key' := by
  induction keys generalizing s with
  | nil => simp [delAll]
  | cons head rest ih =>
    rw [delAll, foldl_cons]
    change ((s.del table head).delAll table rest).get table' key' = _
    rw [ih, del_get]
    by_cases htable : table' = table
    · by_cases hhead : key' = head
      · simp [htable, hhead]
      · simp [htable, hhead]
    · simp [htable]

/-- Put a list of rows into one table, in order. -/
def putAll (s : Store) (table : TableName) (rows : List Record) : Store :=
  rows.foldl (fun s row => s.put table row.1 row.2) s

lemma putAll_get_of_not_mem (rows : List Record) (h : table' ≠ table ∨ ∀ value, (key', value) ∉ rows) :
    (s.putAll table rows).get table' key' = s.get table' key' := by
  induction rows generalizing s with
  | nil => rfl
  | cons row rest ih =>
    rw [putAll, foldl_cons]
    change ((s.put table row.1 row.2).putAll table rest).get table' key' = _
    rw [ih, put_get_of_ne]
    · rcases h with h | h
      · exact inl h
      · refine inr ?_
        rintro rfl
        exact h row.2 (by simp)
    · rcases h with h | h
      · exact inl h
      · exact inr fun value hmem => h value (mem_cons_of_mem _ hmem)

/-- With distinct keys, each row is there afterwards. -/
theorem putAll_get_of_mem (rows : List Record) (hnodup : (rows.map Prod.fst).Nodup)
    (h : (key, value) ∈ rows) : (s.putAll table rows).get table key = some value := by
  induction rows generalizing s with
  | nil => simp at h
  | cons row rest ih =>
    rw [map_cons, nodup_cons] at hnodup
    rw [putAll, foldl_cons]
    change ((s.put table row.1 row.2).putAll table rest).get table key = _
    rcases mem_cons.mp h with rfl | h
    · rw [putAll_get_of_not_mem, put_get_self]
      refine inr fun value' hmem => hnodup.1 ?_
      exact mem_map.mpr ⟨_, hmem, rfl⟩
    · exact ih _ hnodup.2 h

end Store

/-! ### Frames: which rows a program may change -/

/-- Only rows in `changed` differ. -/
def ChangesOnly (s s' : Store) (changed : TableName → Bytes → Prop) : Prop :=
  ∀ table key, ¬ changed table key → s'.get table key = s.get table key

lemma ChangesOnly.refl (s : Store) (changed : TableName → Bytes → Prop) :
    ChangesOnly s s changed := fun _ _ _ => rfl

variable {s s' : Store}

lemma ChangesOnly.trans {s'' : Store} {changed : TableName → Bytes → Prop}
    (h : ChangesOnly s s' changed) (h' : ChangesOnly s' s'' changed) : ChangesOnly s s'' changed :=
  fun table key hkey => (h' table key hkey).trans (h table key hkey)

variable {table : TableName} {key : Bytes}

lemma ChangesOnly.put {changed : TableName → Bytes → Prop}
    (h : ChangesOnly s s' changed) (hkey : changed table key)
    (value : Bytes) : ChangesOnly s (s'.put table key value) changed := by
  intro table' key' hno
  rw [Store.put_get, if_neg]
  · exact h table' key' hno
  · rintro ⟨rfl, rfl⟩
    exact hno hkey

lemma ChangesOnly.del {changed : TableName → Bytes → Prop}
    (h : ChangesOnly s s' changed) (hkey : changed table key) :
    ChangesOnly s (s'.del table key) changed := by
  intro table' key' hno
  rw [Store.del_get, if_neg]
  · exact h table' key' hno
  · rintro ⟨rfl, rfl⟩
    exact hno hkey

lemma ChangesOnly.putAll {changed : TableName → Bytes → Prop}
    (h : ChangesOnly s s' changed) (table : TableName) (rows : List Record)
    (hrows : ∀ row ∈ rows, changed table row.1) :
    ChangesOnly s (s'.putAll table rows) changed := by
  intro table' key' hno
  rw [Store.putAll_get_of_not_mem]
  · exact h table' key' hno
  · by_cases htable : table' = table
    · subst htable
      exact inr fun value hmem => hno (hrows _ hmem)
    · exact inl htable

lemma ChangesOnly.delAll {changed : TableName → Bytes → Prop}
    (h : ChangesOnly s s' changed) (table : TableName) (keys : List Bytes)
    (hkeys : ∀ key ∈ keys, changed table key) :
    ChangesOnly s (s'.delAll table keys) changed := by
  intro table' key' hno
  rw [Store.delAll_get, if_neg]
  · exact h table' key' hno
  · rintro ⟨rfl, hmem⟩
    exact hno (hkeys _ hmem)

lemma ChangesOnly.mono {changed changed' : TableName → Bytes → Prop}
    (h : ChangesOnly s s' changed) (hsub : ∀ table key, changed table key → changed' table key) :
    ChangesOnly s s' changed' :=
  fun table key hno => h table key fun hkey => hno (hsub table key hkey)

/-- Whatever the store, the program changes only rows in `changed`. -/
def WritesOnly {α : Type} (changed : TableName → Bytes → Prop) (p : StoreM α) : Prop :=
  ∀ s, ChangesOnly s (exec p s).2 changed

namespace WritesOnly

variable {α β : Type} {changed : TableName → Bytes → Prop}

lemma pure (a : α) : WritesOnly changed (Pure.pure a : StoreM α) := fun s => ChangesOnly.refl s changed

variable {p : StoreM α}

lemma bind {f : α → StoreM β} (hp : WritesOnly changed p)
    (hf : ∀ a, WritesOnly changed (f a)) : WritesOnly changed (p >>= f) := by
  intro s
  rw [exec_bind]
  exact (hp s).trans (hf _ _)

lemma put (via : Via) (hkey : changed table key)
    (value : Bytes) : WritesOnly changed (tablePut via table key value) :=
  fun s => (ChangesOnly.refl s changed).put hkey value

lemma del (via : Via) (hkey : changed table key) :
    WritesOnly changed (tableDel via table key) :=
  fun s => (ChangesOnly.refl s changed).del hkey

lemma get (via : Via) (table : TableName) (key : Bytes) : WritesOnly changed (tableGet via table key) :=
  fun s => ChangesOnly.refl s changed

lemma scan (via : Via) (table : TableName) (pre : Bytes) : WritesOnly changed (tableScan via table pre) :=
  fun s => ChangesOnly.refl s changed

lemma drop (hkeys : ∀ key, changed table key) : WritesOnly changed (dropTable table) := by
  intro s table' key hno
  rw [exec_dropTable, Store.clear_get, if_neg]
  rintro rfl
  exact hno (hkeys key)

lemma ite {c : Prop} [Decidable c] {q : StoreM α} (hp : WritesOnly changed p)
    (hq : WritesOnly changed q) : WritesOnly changed (if c then p else q) := by
  split
  · exact hp
  · exact hq

lemma andThen {p q : StoreM Bool} (hp : WritesOnly changed p) (hq : WritesOnly changed q) :
    WritesOnly changed (Program.andThen p q) :=
  bind hp fun _ => ite hq (pure false)

lemma allOf {body : β → StoreM Bool} {items : List β} (hbody : ∀ b ∈ items, WritesOnly changed (body b)) :
    WritesOnly changed (Program.allOf body items) := by
  induction items with
  | nil => exact pure true
  | cons b rest ih =>
    exact andThen (hbody b mem_cons_self) (ih fun c hc => hbody c (mem_cons_of_mem _ hc))

lemma forEach {body : β → StoreM α} {items : List β} (hbody : ∀ b ∈ items, WritesOnly changed (body b)) :
    WritesOnly changed (Program.forEach body items) := by
  induction items with
  | nil => exact pure ()
  | cons b rest ih =>
    exact bind (hbody b mem_cons_self) fun _ =>
      ih fun c hc => hbody c (mem_cons_of_mem _ hc)

lemma mono {changed' : TableName → Bytes → Prop} (hp : WritesOnly changed p)
    (hsub : ∀ table key, changed table key → changed' table key) : WritesOnly changed' p :=
  fun s => (hp s).mono hsub

end WritesOnly

lemma WritesOnly.readOnly {α : Type} {p : StoreM α} (h : WritesOnly (fun _ _ => False) p)
    (s : Store) : (exec p s).2 = s :=
  Store.ext_get fun table key => h s table key not_false

/-! ### Invariants of programs -/

/-- The program leads from stores with the property to stores with it. -/
def Keeps {α : Type} (I : Store → Prop) (p : StoreM α) : Prop := ∀ s, I s → I (exec p s).2

namespace Keeps

variable {α β : Type} {I : Store → Prop}

lemma pure (a : α) : Keeps I (Pure.pure a : StoreM α) := fun _ h => h

variable {p : StoreM α}

lemma bind {f : α → StoreM β} (hp : Keeps I p) (hf : ∀ a, Keeps I (f a)) : Keeps I (p >>= f) := by
  intro s h
  rw [exec_bind]
  exact hf _ _ (hp s h)

lemma and {J : Store → Prop} (hp : Keeps I p) (hp' : Keeps J p) :
    Keeps (fun s => I s ∧ J s) p := fun s h => ⟨hp s h.1, hp' s h.2⟩

lemma put {via : Via} {value : Bytes}
    (h : ∀ s, I s → I (s.put table key value)) : Keeps I (tablePut via table key value) := h

lemma del {via : Via}
    (h : ∀ s, I s → I (s.del table key)) : Keeps I (tableDel via table key) := h

lemma of_writesOnly {changed : TableName → Bytes → Prop}
    (hp : WritesOnly changed p) (hI : ∀ s s', ChangesOnly s s' changed → I s → I s') :
    Keeps I p := fun s h => hI s _ (hp s) h

lemma ite {c : Prop} [Decidable c] {q : StoreM α} (hp : Keeps I p) (hq : Keeps I q) :
    Keeps I (if c then p else q) := by
  split
  · exact hp
  · exact hq

lemma andThen {p q : StoreM Bool} (hp : Keeps I p) (hq : Keeps I q) : Keeps I (Program.andThen p q) :=
  bind hp fun _ => ite hq (pure false)

lemma allOf {body : β → StoreM Bool} (hbody : ∀ b, Keeps I (body b)) (items : List β) :
    Keeps I (Program.allOf body items) := by
  induction items with
  | nil => exact pure true
  | cons b rest ih => exact andThen (hbody b) ih

lemma allOf_mem {body : β → StoreM Bool} {items : List β} (hbody : ∀ b ∈ items, Keeps I (body b)) :
    Keeps I (Program.allOf body items) := by
  induction items with
  | nil => exact pure true
  | cons b rest ih =>
    exact andThen (hbody b mem_cons_self) (ih fun c hc => hbody c (mem_cons_of_mem _ hc))

lemma forEach {body : β → StoreM α} (hbody : ∀ b, Keeps I (body b)) (items : List β) :
    Keeps I (Program.forEach body items) := by
  induction items with
  | nil => exact pure ()
  | cons b rest ih => exact bind (hbody b) fun _ => ih

lemma forEach_mem {body : β → StoreM α} {items : List β} (hbody : ∀ b ∈ items, Keeps I (body b)) :
    Keeps I (Program.forEach body items) := by
  induction items with
  | nil => exact pure ()
  | cons b rest ih =>
    exact bind (hbody b mem_cons_self) fun _ =>
      ih fun c hc => hbody c (mem_cons_of_mem _ hc)

end Keeps

end Eugraph
