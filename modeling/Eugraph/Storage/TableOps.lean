import Mathlib.Data.List.TakeWhile
import Eugraph.Lib.SortedMap

/-!
# Table scans (`storage/wt_table_ops.cpp`)

A table of the storage engine is a map sorted by byte keys.  A cursor is the list
of records from its position on, so `next` drops the head.  `search_near` is the
one call with a choice: on a missing key it may land on either neighbour, and the
scan loops must not depend on which one (`Engine.prefersSmaller`).

The loops below are those of the source with all engine calls succeeding.
`scanRangeWithCursor_eq` and `scanWithCursor_eq` say which records reach the
callback and in which order.
-/

namespace Eugraph.Wt

open Lib List Lib.SortedMap

abbrev Record := Bytes × Bytes

abbrev Table := SortedMap Bytes Bytes

/-- The records from the cursor's position on; the head is the current record. -/
abbrev Cursor := List Record

/-- The freedom the engine has: which neighbour `search_near` lands on. -/
structure Engine where
  prefersSmaller : Table → Bytes → Bool

/-- `WT_CURSOR::search_near`: the sign of `exact` and the new position, or
`WT_NOTFOUND` on an empty table. -/
def searchNear (engine : Engine) (t : Table) (key : Bytes) : Option (Ordering × Cursor) :=
  let smaller := t.entries.takeWhile fun e => e.1 < key
  let larger := t.entries.dropWhile fun e => e.1 < key
  match larger, smaller.getLast? with
  | [], none => none
  | [], some last => some (.lt, [last])
  | e :: rest, none => some (if e.1 = key then .eq else .gt, e :: rest)
  | e :: rest, some last =>
    if e.1 = key then some (.eq, e :: rest)
    else if engine.prefersSmaller t key then some (.lt, last :: e :: rest)
    else some (.gt, e :: rest)

/-- Hand records to a callback until it returns `false`. -/
def runCallback {σ : Type} (callback : σ → Bytes → Bytes → σ × Bool) : List Record → σ → σ
  | [], s => s
  | e :: rest, s =>
    match callback s e.1 e.2 with
    | (s', true) => runCallback callback rest s'
    | (s', false) => s'

/-- The `while (true)` loop of `scanRangeWithCursor`. -/
def scanLoop {σ : Type} (endKey : Bytes) (endKeyView : Bytes → Bytes)
    (callback : σ → Bytes → Bytes → σ × Bool) : Cursor → σ → σ
  | [], s => s
  | e :: rest, s =>
    if endKey ≠ [] ∧ endKey ≤ endKeyView e.1 then s
    else
      match callback s e.1 e.2 with
      | (s', true) => scanLoop endKey endKeyView callback rest s'
      | (s', false) => s'

def scanRangeWithCursor {σ : Type} (engine : Engine) (t : Table) (startKey : Bytes)
    (exclusiveStart : Bool) (endKey : Bytes) (endKeyView : Bytes → Bytes)
    (callback : σ → Bytes → Bytes → σ × Bool) (s : σ) : σ :=
  if startKey ≠ [] then
    match searchNear engine t startKey with
    | none => s
    | some (cmp, cursor) =>
      let advance := if exclusiveStart then cmp ≠ .gt else cmp = .lt
      scanLoop endKey endKeyView callback (if advance then cursor.tail else cursor) s
  else scanLoop endKey endKeyView callback t.entries s

/-- Prefix scan: the range scan without an end, stopped by the first foreign key. -/
def scanWithCursor {σ : Type} (engine : Engine) (t : Table) (pre : Bytes)
    (callback : σ → Bytes → Bytes → σ × Bool) (s : σ) : σ :=
  if pre = [] then scanRangeWithCursor engine t [] false [] id callback s
  else
    scanRangeWithCursor engine t pre false [] id
      (fun s key value => if pre.isPrefixOf key then callback s key value else (s, false)) s

/-! ### Where the loops start -/

/-- The records at or above a key, or strictly above it. -/
def recordsFrom (t : Table) (startKey : Bytes) (exclusiveStart : Bool) : List Record :=
  t.entries.filter fun e => if exclusiveStart then startKey < e.1 else startKey ≤ e.1

/-- What `search_near` may return, whichever neighbour it picks: an exact hit, the
first record above the key, or the last one below it followed by those above. -/
theorem searchNear_cases (engine : Engine) (t : Table) (key : Bytes) :
    (searchNear engine t key = none ∧ t.entries = []) ∨
    (∃ e rest, searchNear engine t key = some (.eq, e :: rest) ∧ e.1 = key ∧
      t.entries.dropWhile (fun e => e.1 < key) = e :: rest) ∨
    (∃ e rest, searchNear engine t key = some (.gt, e :: rest) ∧ key < e.1 ∧
      t.entries.dropWhile (fun e => e.1 < key) = e :: rest) ∨
    (∃ last rest, searchNear engine t key = some (.lt, last :: rest) ∧ last.1 < key ∧
      t.entries.dropWhile (fun e => e.1 < key) = rest ∧ ∀ e ∈ rest, key < e.1) := by
  have hsplit := takeWhile_append_dropWhile (p := fun e : Record => decide (e.1 < key)) (l := t.entries)
  have hsorted := t.sorted
  rw [← hsplit] at hsorted
  have hlarger := (pairwise_append.mp hsorted).2.1
  have hsmaller : ∀ last, (t.entries.takeWhile fun e => decide (e.1 < key)).getLast? = some last → last.1 < key := by
    intro last hlast
    have hall := all_takeWhile (p := fun e : Record => decide (e.1 < key)) (l := t.entries)
    simpa using all_eq_true.mp hall last (mem_of_getLast? hlast)
  unfold searchNear
  cases hd : t.entries.dropWhile fun e => decide (e.1 < key) with
  | nil =>
    cases hl : (t.entries.takeWhile fun e => decide (e.1 < key)).getLast? with
    | none =>
      left
      have hnil := getLast?_eq_none_iff.mp hl
      rw [hnil, hd, nil_append] at hsplit
      exact ⟨by simp [hl], hsplit.symm⟩
    | some last =>
      right; right; right
      exact ⟨last, [], by simp [hl], hsmaller last hl, rfl, by simp⟩
  | cons e rest =>
    have hge : ¬ e.1 < key := by
      have hhead := head?_dropWhile_not (fun e : Record => decide (e.1 < key)) t.entries
      simpa [hd] using hhead
    rw [hd] at hlarger
    have habove : e.1 ≠ key → ∀ e' ∈ e :: rest, key < e'.1 := by
      intro hne e' he'
      have hlt : key < e.1 := lt_of_le_of_ne (not_lt.mp hge) (Ne.symm hne)
      rcases mem_cons.mp he' with rfl | he'
      · exact hlt
      · exact hlt.trans ((pairwise_cons.mp hlarger).1 e' he')
    by_cases hek : e.1 = key
    · right; left
      refine ⟨e, rest, ?_, hek, rfl⟩
      cases hl : (t.entries.takeWhile fun e => decide (e.1 < key)).getLast? <;> simp [hl, hek]
    · cases hl : (t.entries.takeWhile fun e => decide (e.1 < key)).getLast? with
      | none =>
        right; right; left
        exact ⟨e, rest, by simp [hl, hek], habove hek e (by simp), rfl⟩
      | some last =>
        by_cases hpref : engine.prefersSmaller t key = true
        · right; right; right
          exact ⟨last, e :: rest, by simp [hl, hek, hpref], hsmaller last hl, rfl,
            habove hek⟩
        · right; right; left
          exact ⟨e, rest, by simp [hl, hek, hpref], habove hek e (by simp), rfl⟩

lemma dropWhile_below (t : Table) (key : Bytes) :
    t.entries.dropWhile (fun e => e.1 < key) = recordsFrom t key false := by
  rw [dropWhile_lt_eq_filter t.sorted (fun k => k < key)]
  · apply filter_congr
    intro e _
    by_cases h : e.1 < key
    · simp [h]
    · simp [h, not_lt.mp h]
  · intro a b hab hb
    simp only [decide_eq_true_eq] at hb ⊢
    exact hab.trans hb

lemma recordsFrom_exclusive (t : Table) (key : Bytes) :
    recordsFrom t key true = (recordsFrom t key false).filter fun e => key < e.1 := by
  simp only [recordsFrom, filter_filter, if_true, Bool.false_eq_true, if_false]
  apply filter_congr
  intro e _
  by_cases h : key < e.1
  · simp [h, h.le]
  · simp [h]

/-- The cursor after the positioning part of `scanRangeWithCursor`. -/
theorem searchNear_position (engine : Engine) (t : Table) (key : Bytes) (exclusiveStart : Bool) :
    (match searchNear engine t key with
      | none => []
      | some (cmp, cursor) =>
        if (if exclusiveStart then cmp ≠ .gt else cmp = .lt) then cursor.tail else cursor) =
      recordsFrom t key exclusiveStart := by
  have hbelow := dropWhile_below t key
  have habove : ∀ rest : List Record, (∀ e ∈ rest, key < e.1) → recordsFrom t key false = rest →
      recordsFrom t key exclusiveStart = rest := by
    intro rest hrest hfrom
    cases exclusiveStart with
    | false => exact hfrom
    | true =>
      rw [recordsFrom_exclusive, hfrom, filter_eq_self]
      intro e he
      simpa using hrest e he
  rcases searchNear_cases engine t key with ⟨hs, hnil⟩ | ⟨e, rest, hs, hek, hd⟩ |
      ⟨e, rest, hs, hlt, hd⟩ | ⟨last, rest, hs, -, hd, hrest⟩
  · rw [hs]
    simp [recordsFrom, hnil]
  · rw [hbelow] at hd
    have hsorted : (e :: rest).Pairwise fun a b => a.1 < b.1 := by
      rw [← hd]
      exact t.sorted.filter _
    rw [hs]
    cases exclusiveStart with
    | false => simp [hd]
    | true =>
      have hrest : ∀ e' ∈ rest, key < e'.1 := by
        intro e' he'
        rw [← hek]
        exact (pairwise_cons.mp hsorted).1 e' he'
      have hself : rest.filter (fun e' => decide (key < e'.1)) = rest := by
        rw [filter_eq_self]
        intro e' he'
        simpa using hrest e' he'
      rw [recordsFrom_exclusive, hd]
      simp [hek, hself]
  · rw [hbelow] at hd
    have hsorted : (e :: rest).Pairwise fun a b => a.1 < b.1 := by
      rw [← hd]
      exact t.sorted.filter _
    rw [hs]
    rw [habove (e :: rest) ?_ hd]
    · cases exclusiveStart <;> simp
    · intro e' he'
      rcases mem_cons.mp he' with rfl | he'
      · exact hlt
      · exact hlt.trans ((pairwise_cons.mp hsorted).1 e' he')
  · rw [hbelow] at hd
    rw [hs, habove rest hrest hd]
    cases exclusiveStart <;> simp

/-! ### What reaches the callback -/

/-- The records a range scan hands out: from the start, up to the first record at
or past the end. -/
def rangeRecords (t : Table) (startKey : Bytes) (exclusiveStart : Bool) (endKey : Bytes)
    (endKeyView : Bytes → Bytes) : List Record :=
  (if startKey = [] then t.entries else recordsFrom t startKey exclusiveStart).takeWhile
    fun e => !(endKey ≠ [] ∧ endKey ≤ endKeyView e.1 : Bool)

/-- An empty end key never stops a scan. -/
theorem rangeRecords_noEnd (t : Table) (startKey : Bytes) (exclusiveStart : Bool) (endKeyView : Bytes → Bytes) :
    rangeRecords t startKey exclusiveStart [] endKeyView =
      if startKey = [] then t.entries else recordsFrom t startKey exclusiveStart := by
  rw [rangeRecords, takeWhile_eq_self_iff]
  simp

lemma scanLoop_eq {σ : Type} (endKey : Bytes) (endKeyView : Bytes → Bytes)
    (callback : σ → Bytes → Bytes → σ × Bool) (cursor : Cursor) (s : σ) :
    scanLoop endKey endKeyView callback cursor s = runCallback callback
        (cursor.takeWhile fun e => !(endKey ≠ [] ∧ endKey ≤ endKeyView e.1 : Bool)) s := by
  induction cursor generalizing s with
  | nil => rfl
  | cons e rest ih =>
    rw [scanLoop, takeWhile_cons]
    by_cases hend : endKey ≠ [] ∧ endKey ≤ endKeyView e.1
    · simp [hend, runCallback]
    · rw [if_neg hend]
      simp only [hend, decide_false, Bool.not_false, if_true, runCallback]
      split
      · exact ih _
      · rfl

/-- A range scan runs the callback on `rangeRecords`, in key order, whichever
neighbour `search_near` picks. -/
theorem scanRangeWithCursor_eq {σ : Type} (engine : Engine) (t : Table) (startKey : Bytes)
    (exclusiveStart : Bool) (endKey : Bytes) (endKeyView : Bytes → Bytes)
    (callback : σ → Bytes → Bytes → σ × Bool) (s : σ) :
    scanRangeWithCursor engine t startKey exclusiveStart endKey endKeyView callback s =
      runCallback callback (rangeRecords t startKey exclusiveStart endKey endKeyView) s := by
  by_cases hstart : startKey = []
  · simp [scanRangeWithCursor, rangeRecords, hstart, scanLoop_eq]
  · have hpos := searchNear_position engine t startKey exclusiveStart
    rw [scanRangeWithCursor, if_pos hstart, rangeRecords, if_neg hstart, ← hpos]
    cases searchNear engine t startKey with
    | none => rfl
    | some found =>
      obtain ⟨cmp, cursor⟩ := found
      exact scanLoop_eq endKey endKeyView callback _ s

lemma runCallback_guard {σ : Type} (keep : Bytes → Bool)
    (callback : σ → Bytes → Bytes → σ × Bool) (records : List Record) (s : σ) :
    runCallback (fun s key value => if keep key then callback s key value else (s, false))
        records s =
      runCallback callback (records.takeWhile fun e => keep e.1) s := by
  induction records generalizing s with
  | nil => rfl
  | cons e rest ih =>
    rw [takeWhile_cons, runCallback]
    cases hkeep : keep e.1 with
    | false => simp [runCallback]
    | true =>
      simp only [if_true, runCallback]
      split
      · exact ih _
      · rfl

/-- The records under a prefix, in key order. -/
def prefixRecords (t : Table) (pre : Bytes) : List Record :=
  (t.filterKeys pre.isPrefixOf).entries

lemma mem_prefixRecords (t : Table) (pre key value : Bytes) :
    (key, value) ∈ prefixRecords t pre ↔ pre <+: key ∧ t.get key = some value := by
  rw [prefixRecords, mem_entries_iff, get_filterKeys]
  by_cases h : pre <+: key
  · simp [ isPrefixOf_iff_prefix.mpr h, h]
  · have hfalse : ¬ pre.isPrefixOf key = true := fun hb => h ( isPrefixOf_iff_prefix.mp hb)
    simp [hfalse, h]

lemma drop_length_of_isPrefix {pre key : Bytes} (h : pre <+: key) : pre ++ key.drop pre.length = key := by
  obtain ⟨rest, rfl⟩ := h
  rw [drop_left]

lemma isPrefix_of_mem_prefixRecords {t : Table} {pre : Bytes} {e : Record}
    (he : e ∈ prefixRecords t pre) : pre <+: e.1 :=
  ((mem_prefixRecords t pre e.1 e.2).mp he).1

/-- Rows under a prefix are distinct, and so is whatever tells their keys apart. -/
theorem nodup_map_prefixRecords {β : Type} {t : Table} {pre : Bytes} {f : Record → β}
    (hinj : ∀ a ∈ prefixRecords t pre, ∀ b ∈ prefixRecords t pre, f a = f b → a.1 = b.1) :
    ((prefixRecords t pre).map f).Nodup := by
  rw [List.Nodup, pairwise_map]
  refine (t.filterKeys pre.isPrefixOf).sorted.imp_of_mem ?_
  intro a b ha hb hlt heq
  exact ne_of_lt hlt (hinj a ha b hb heq)

/-- The rows under a prefix as a table of their own, keyed by what follows the prefix. -/
def under (t : Table) (pre : Bytes) : Table where
  entries := (prefixRecords t pre).map fun e => (e.1.drop pre.length, e.2)
  sorted := by
    rw [pairwise_map]
    refine (t.filterKeys pre.isPrefixOf).sorted.imp_of_mem ?_
    intro a b ha hb hlt
    rw [← drop_length_of_isPrefix (isPrefix_of_mem_prefixRecords ha),
      ← drop_length_of_isPrefix (isPrefix_of_mem_prefixRecords hb), append_left_lt_iff] at hlt
    exact hlt

lemma get_under (t : Table) (pre rest : Bytes) : (under t pre).get rest = t.get (pre ++ rest) := by
  apply Option.ext
  intro value
  rw [← mem_entries_iff, under, mem_map]
  constructor
  · rintro ⟨e, he, hdrop⟩
    obtain ⟨rfl, rfl⟩ := Prod.mk.inj hdrop
    rw [drop_length_of_isPrefix (isPrefix_of_mem_prefixRecords he)]
    exact ((mem_prefixRecords t pre e.1 e.2).mp he).2
  · intro hget
    refine ⟨(pre ++ rest, value), (mem_prefixRecords t pre _ _).mpr ⟨prefix_append _ _, hget⟩, ?_⟩
    rw [drop_left]

/-- A prefix scan lists the table under the prefix. -/
theorem prefixRecords_eq_under (t : Table) (pre : Bytes) :
    prefixRecords t pre = (under t pre).entries.map fun e => (pre ++ e.1, e.2) := by
  rw [under, map_map]
  refine (map_id _).symm.trans (map_congr_left ?_)
  intro e he
  simp only [id, Function.comp_apply, drop_length_of_isPrefix (isPrefix_of_mem_prefixRecords he)]

/-- From the prefix on, the records under it come first and are contiguous. -/
theorem takeWhile_prefix_recordsFrom (t : Table) (pre : Bytes) :
    (recordsFrom t pre false).takeWhile (fun e => pre.isPrefixOf e.1) = prefixRecords t pre := by
  have hsorted : (recordsFrom t pre false).Pairwise fun a b => a.1 < b.1 := t.sorted.filter _
  have hfrom : ∀ e ∈ recordsFrom t pre false, pre ≤ e.1 := by
    intro e he
    simpa [recordsFrom] using (mem_filter.mp he).2
  rw [takeWhile_eq_filter hsorted pre.isPrefixOf, recordsFrom, filter_filter]
  · rw [prefixRecords, filterKeys]
    apply filter_congr
    intro e _
    by_cases h : pre.isPrefixOf e.1 = true
    · have hle : pre ≤ e.1 := le_of_isPrefix ( isPrefixOf_iff_prefix.mp h)
      simp [h, hle]
    · simp [h]
  · intro a ha b _ hab hb
    by_contra hpa
    rw [ isPrefixOf_iff_prefix] at hpa hb
    exact not_isPrefix_of_lt (hfrom a ha) hpa hab hb

/-- A prefix scan runs the callback on exactly the records under the prefix. -/
theorem scanWithCursor_eq {σ : Type} (engine : Engine) (t : Table) (pre : Bytes)
    (callback : σ → Bytes → Bytes → σ × Bool) (s : σ) :
    scanWithCursor engine t pre callback s = runCallback callback (prefixRecords t pre) s := by
  by_cases hpre : pre = []
  · have hall : prefixRecords t pre = t.entries := by
      rw [prefixRecords, hpre, filterKeys, filter_eq_self]
      simp
    rw [scanWithCursor, if_pos hpre, scanRangeWithCursor_eq, rangeRecords_noEnd, if_pos rfl, hall]
  · rw [scanWithCursor, if_neg hpre, scanRangeWithCursor_eq, runCallback_guard,
      rangeRecords_noEnd, if_neg hpre, takeWhile_prefix_recordsFrom]

end Eugraph.Wt
