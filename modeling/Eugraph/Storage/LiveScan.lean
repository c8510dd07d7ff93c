import Eugraph.Storage.TableOps

/-!
# Scans of a table that shrinks

A scan has a cursor of its own, so that its callback may delete rows under it
(`storage/wt_table_ops.cpp`; `removeVertexLabel` does).  The cursor stands on a key, and `next`
goes to the first record behind that key in the table as it is then.
-/

namespace Eugraph.Wt

open Lib List

/-- `WT_CURSOR::next` from a key. -/
def nextRecord (t : Table) (key : Bytes) : Option Record := t.entries.find? fun e => key < e.1

/-- What a callback does with a record: its new state, which of the keys shown so far it
deletes, and whether the scan goes on. -/
structure Answer (σ : Type) where
  state : σ
  deletes : Bytes → Bool
  more : Bool

/-- The callback without its deletions. -/
def readOnly {σ : Type} (callback : σ → Bytes → Bytes → Answer σ) (s : σ) (key value : Bytes) : σ × Bool :=
  ((callback s key value).state, (callback s key value).more)

/-- The loop of `scanRangeWithCursor` over the live table. -/
def liveLoop {σ : Type} (endKey : Bytes) (endKeyView : Bytes → Bytes) (callback : σ → Bytes → Bytes → Answer σ) :
    Nat → Table → List Bytes → Option Record → σ → σ × Table
  | 0, t, _, _, s => (s, t)
  | _ + 1, t, _, none, s => (s, t)
  | fuel + 1, t, shown, some e, s =>
    if endKey ≠ [] ∧ endKey ≤ endKeyView e.1 then (s, t)
    else
      let answer := callback s e.1 e.2
      let t' := t.filterKeys fun k => !((e.1 :: shown).contains k && answer.deletes k)
      if answer.more then liveLoop endKey endKeyView callback fuel t' (e.1 :: shown) (nextRecord t' e.1) answer.state
      else (answer.state, t')

/-- Every record is shown at most once, so the records of the table are fuel enough. -/
def liveScanRange {σ : Type} (engine : Engine) (t : Table) (startKey : Bytes) (exclusiveStart : Bool)
    (endKey : Bytes) (endKeyView : Bytes → Bytes) (callback : σ → Bytes → Bytes → Answer σ) (s : σ) : σ × Table :=
  let cursor :=
    if startKey ≠ [] then
      match searchNear engine t startKey with
      | none => []
      | some (cmp, cursor) => if (if exclusiveStart then cmp ≠ .gt else cmp = .lt) then cursor.tail else cursor
    else t.entries
  liveLoop endKey endKeyView callback t.entries.length t [] cursor.head? s

def liveScan {σ : Type} (engine : Engine) (t : Table) (pre : Bytes) (callback : σ → Bytes → Bytes → Answer σ)
    (s : σ) : σ × Table :=
  if pre = [] then liveScanRange engine t [] false [] id callback s
  else
    liveScanRange engine t pre false [] id
      (fun s key value => if pre.isPrefixOf key then callback s key value else ⟨s, fun _ => false, false⟩) s

/-! ### Deletions behind the cursor -/

/-- Deletions that spare the records to come leave them where they are, the next one first. -/
theorem nextRecord_filterKeys (keep : Bytes → Bool) {t : Table} {seen rest : List Record} {e : Record}
    (hrest : t.entries = seen ++ e :: rest) (hkept : ∀ e' ∈ rest, keep e'.1 = true) :
    (∃ seen', (t.filterKeys keep).entries = seen' ++ rest) ∧ nextRecord (t.filterKeys keep) e.1 = rest.head? := by
  have hsorted := t.sorted
  rw [hrest] at hsorted
  obtain ⟨-, htail, hbefore⟩ := pairwise_append.mp hsorted
  have hentries : (t.filterKeys keep).entries = (seen ++ [e]).filter (fun e' => keep e'.1) ++ rest := by
    have hsame : (t.filterKeys keep).entries = t.entries.filter fun e' => keep e'.1 := rfl
    rw [hsame, hrest, append_cons, filter_append, filter_eq_self.mpr hkept]
  have hnone : ((seen ++ [e]).filter fun e' => keep e'.1).find? (fun e' => decide (e.1 < e'.1)) = none := by
    rw [find?_eq_none]
    intro e' he'
    have hle : e'.1 ≤ e.1 := by
      rcases mem_append.mp (mem_filter.mp he').1 with he' | he'
      · exact (hbefore e' he' e mem_cons_self).le
      · rw [mem_singleton.mp he']
    simpa using hle
  refine ⟨⟨_, hentries⟩, ?_⟩
  rw [nextRecord, hentries, find?_append, hnone, Option.none_or]
  cases rest with
  | nil => rfl
  | cons e' rest => simp [(pairwise_cons.mp htail).1 e' mem_cons_self]

/-- What is still to come stays, so the loop shows what it would on the unchanged table. -/
theorem liveLoop_eq {σ : Type} (endKey : Bytes) (endKeyView : Bytes → Bytes)
    (callback : σ → Bytes → Bytes → Answer σ)
    {rest : List Record} {fuel : Nat} {t : Table} {shown : List Bytes} {seen : List Record} (s : σ)
    (hrest : t.entries = seen ++ rest) (hshown : ∀ k ∈ shown, ∀ e ∈ rest, k < e.1) (hfuel : rest.length ≤ fuel) :
    (liveLoop endKey endKeyView callback fuel t shown rest.head? s).1 =
      scanLoop endKey endKeyView (readOnly callback) rest s := by
  induction rest generalizing fuel t shown seen s with
  | nil => cases fuel <;> rfl
  | cons e rest ih =>
    obtain ⟨fuel, rfl⟩ := Nat.exists_eq_succ_of_ne_zero (n := fuel) (by simp at hfuel; omega)
    have hsorted := t.sorted
    rw [hrest] at hsorted
    have hlater := (pairwise_cons.mp (pairwise_append.mp hsorted).2.1).1
    rw [head?_cons, liveLoop, scanLoop]
    split
    · rfl
    · simp only [readOnly]
      generalize callback s e.1 e.2 = answer
      have hshown' : ∀ k ∈ e.1 :: shown, ∀ e' ∈ rest, k < e'.1 := by
        intro k hk e' he'
        rcases mem_cons.mp hk with rfl | hk
        · exact hlater e' he'
        · exact hshown k hk e' (mem_cons_of_mem _ he')
      have hkept : ∀ e' ∈ rest, (!((e.1 :: shown).contains e'.1 && answer.deletes e'.1)) = true := by
        intro e' he'
        have hnot : (e.1 :: shown).contains e'.1 = false := by
          rw [Bool.eq_false_iff, Ne, contains_iff_mem]
          exact fun hmem => lt_irrefl _ (hshown' _ hmem e' he')
        rw [hnot, Bool.false_and, Bool.not_false]
      obtain ⟨⟨seen', hentries⟩, hnext⟩ := nextRecord_filterKeys
        (fun k => !((e.1 :: shown).contains k && answer.deletes k)) hrest hkept
      cases answer.more with
      | false => rfl
      | true =>
        simp only [if_true, hnext]
        exact ih answer.state hentries hshown' (by simpa using hfuel)

lemma recordsFrom_suffix (t : Table) (key : Bytes) (exclusiveStart : Bool) :
    recordsFrom t key exclusiveStart <:+ t.entries := by
  have hdrop := SortedMap.dropWhile_lt_eq_filter t.sorted
    (fun k => !(if exclusiveStart then decide (key < k) else decide (key ≤ k))) (by
      intro a b hab hb
      cases exclusiveStart with
      | false => simpa using hab.trans (by simpa using hb)
      | true => simpa using hab.le.trans (by simpa using hb))
  have hsuffix := dropWhile_suffix (l := t.entries)
    fun e => !(if exclusiveStart then decide (key < e.1) else decide (key ≤ e.1))
  have hsame : recordsFrom t key exclusiveStart =
      t.entries.filter fun e => !!(if exclusiveStart then decide (key < e.1) else decide (key ≤ e.1)) :=
    filter_congr fun e _ => by cases exclusiveStart <;> simp
  rwa [hdrop, ← hsame] at hsuffix

lemma liveScanRange_eq {σ : Type} (engine : Engine) (t : Table) (startKey : Bytes) (exclusiveStart : Bool)
    (endKey : Bytes) (endKeyView : Bytes → Bytes) (callback : σ → Bytes → Bytes → Answer σ) (s : σ) :
    (liveScanRange engine t startKey exclusiveStart endKey endKeyView callback s).1 =
      scanRangeWithCursor engine t startKey exclusiveStart endKey endKeyView (readOnly callback) s := by
  have hloop : ∀ rest, rest <:+ t.entries →
      (liveLoop endKey endKeyView callback t.entries.length t [] rest.head? s).1 =
        scanLoop endKey endKeyView (readOnly callback) rest s := by
    rintro rest ⟨seen, hrest⟩
    exact liveLoop_eq endKey endKeyView callback s hrest.symm (by simp) (by simp [← hrest])
  rw [scanRangeWithCursor_eq, rangeRecords, ← scanLoop_eq, liveScanRange]
  by_cases hstart : startKey = []
  · rw [if_neg (by simpa using hstart), if_pos hstart]
    exact hloop _ (suffix_refl _)
  · have hsuffix := recordsFrom_suffix t startKey exclusiveStart
    rw [if_pos hstart, if_neg hstart]
    rw [← searchNear_position engine] at hsuffix ⊢
    generalize searchNear engine t startKey = found at hsuffix ⊢
    cases found with
    | none => exact hloop _ hsuffix
    | some found =>
      obtain ⟨cmp, cursor⟩ := found
      exact hloop _ hsuffix

lemma liveScan_eq {σ : Type} (engine : Engine) (t : Table) (pre : Bytes) (callback : σ → Bytes → Bytes → Answer σ)
    (s : σ) : (liveScan engine t pre callback s).1 = scanWithCursor engine t pre (readOnly callback) s := by
  rw [liveScan, scanWithCursor]
  split
  · rw [liveScanRange_eq]
  · rw [liveScanRange_eq]
    congr 1
    funext s key value
    rw [readOnly]
    split <;> rfl

/-! ### Which records a scan shows -/

/-- The two ends of a range; the end is compared with a part of the key. -/
def started (startKey : Bytes) (exclusiveStart : Bool) (key : Bytes) : Bool :=
  startKey = [] ∨ if exclusiveStart then startKey < key else startKey ≤ key

def beforeEnd (endKey : Bytes) (endKeyView : Bytes → Bytes) (key : Bytes) : Bool :=
  endKey = [] ∨ endKeyView key < endKey

/-- The records from the start of the range on. -/
def startedRecords (t : Table) (startKey : Bytes) (exclusiveStart : Bool) : List Record :=
  t.entries.filter fun e => started startKey exclusiveStart e.1

/-- The records of the range. -/
def recordsInRange (t : Table) (startKey : Bytes) (exclusiveStart : Bool) (endKey : Bytes)
    (endKeyView : Bytes → Bytes) : List Record :=
  (startedRecords t startKey exclusiveStart).filter fun e => beforeEnd endKey endKeyView e.1

lemma rangeRecords_eq_iff (t : Table) (startKey : Bytes) (exclusiveStart : Bool) (endKey : Bytes)
    (endKeyView : Bytes → Bytes) :
    rangeRecords t startKey exclusiveStart endKey endKeyView =
      recordsInRange t startKey exclusiveStart endKey endKeyView ↔
      (startedRecords t startKey exclusiveStart).Pairwise fun a b =>
        beforeEnd endKey endKeyView b.1 = true → beforeEnd endKey endKeyView a.1 = true := by
  have hstart : (if startKey = [] then t.entries else recordsFrom t startKey exclusiveStart) =
      startedRecords t startKey exclusiveStart := by
    split
    next hnil => simp [startedRecords, started, hnil]
    next hne => exact filter_congr fun e _ => by simp [started, hne]
  have hend : (fun e : Record => !(endKey ≠ [] ∧ endKey ≤ endKeyView e.1 : Bool)) =
      fun e : Record => beforeEnd endKey endKeyView e.1 := by
    funext e
    rw [Bool.eq_iff_iff]
    simp [beforeEnd]
  rw [rangeRecords, hstart, hend]
  exact SortedMap.takeWhile_eq_filter_iff (fun e : Record => beforeEnd endKey endKeyView e.1) _

/-- A callback that writes down what it is shown. -/
def record (trace : List Record) (key value : Bytes) : List Record × Bool := (trace ++ [(key, value)], true)

lemma runCallback_record (records trace : List Record) : runCallback record records trace = trace ++ records := by
  induction records generalizing trace with
  | nil => simp [runCallback]
  | cons e rest ih => simp [runCallback, record, ih]

/-! ### Exact scans -/

/-- A prefix scan shows the records under the prefix, which are in ascending order. -/
def PrefixScansExact (engine : Engine) (t : Table) : Prop :=
  ∀ pre, (∀ key value, (key, value) ∈ prefixRecords t pre ↔ pre <+: key ∧ t.get key = some value) ∧
    (prefixRecords t pre).Pairwise (fun a b => a.1 < b.1) ∧
    ∀ {σ : Type} (callback : σ → Bytes → Bytes → σ × Bool) (s : σ),
      scanWithCursor engine t pre callback s = runCallback callback (prefixRecords t pre) s

/-- Deleting what has been shown changes nothing about what is shown. -/
def DeletionSafe (engine : Engine) (t : Table) : Prop :=
  ∀ {σ : Type} (callback : σ → Bytes → Bytes → Answer σ) (s : σ),
    (∀ pre, (liveScan engine t pre callback s).1 = scanWithCursor engine t pre (readOnly callback) s) ∧
    ∀ startKey exclusiveStart endKey endKeyView,
      (liveScanRange engine t startKey exclusiveStart endKey endKeyView callback s).1 =
        scanRangeWithCursor engine t startKey exclusiveStart endKey endKeyView (readOnly callback) s

/-- A range scan shows the records of the range. -/
def RangeScanExact (engine : Engine) (t : Table) (startKey : Bytes) (exclusiveStart : Bool) (endKey : Bytes)
    (endKeyView : Bytes → Bytes) : Prop :=
  ∀ {σ : Type} (callback : σ → Bytes → Bytes → σ × Bool) (s : σ),
    scanRangeWithCursor engine t startKey exclusiveStart endKey endKeyView callback s =
      runCallback callback (recordsInRange t startKey exclusiveStart endKey endKeyView) s

/-- Scans are exact but for a range in which a record at or past the end, by the part of its key
that is compared, comes before one that is not. -/
theorem scans_exact_iff (engine : Engine) (t : Table) (startKey : Bytes) (exclusiveStart : Bool) (endKey : Bytes)
    (endKeyView : Bytes → Bytes) :
    PrefixScansExact engine t ∧ DeletionSafe engine t ∧
        RangeScanExact engine t startKey exclusiveStart endKey endKeyView ↔
      (startedRecords t startKey exclusiveStart).Pairwise fun a b =>
        beforeEnd endKey endKeyView b.1 = true → beforeEnd endKey endKeyView a.1 = true := by
  rw [← rangeRecords_eq_iff]
  constructor
  · rintro ⟨-, -, hrange⟩
    have hshown := hrange record []
    rwa [scanRangeWithCursor_eq, runCallback_record, runCallback_record] at hshown
  · intro hrecords
    refine ⟨fun pre => ⟨mem_prefixRecords t pre, (t.filterKeys pre.isPrefixOf).sorted,
      scanWithCursor_eq engine t pre⟩,
      fun callback s => ⟨fun pre => liveScan_eq engine t pre callback s,
        fun startKey exclusiveStart endKey endKeyView =>
        liveScanRange_eq engine t startKey exclusiveStart endKey endKeyView callback s⟩, fun callback s => ?_⟩
    rw [scanRangeWithCursor_eq, hrecords]

/-- Two rows of a string index: the value `a` followed by a zero byte with entity 1, and the
value `a` with entity 5. -/
def zeroByteRows : Table where
  entries := [([4, 0x61, 0, 0, 0, 0, 0, 0, 0, 0, 1], []), ([4, 0x61, 0, 0, 0, 0, 0, 0, 0, 5], [])]
  sorted := by decide

/-- Without the entity ids the rows are not in order, and the scan up to the first value never
reaches the second. -/
theorem zeroByteRows_skipped : ¬ RangeScanExact ⟨fun _ _ => true⟩ zeroByteRows [] false [4, 0x61, 0]
    (fun key => key.take (key.length - 8)) := by
  intro h
  have hshown := h record []
  rw [scanRangeWithCursor_eq, runCallback_record, runCallback_record] at hshown
  exact absurd hshown (by decide)

end Eugraph.Wt
