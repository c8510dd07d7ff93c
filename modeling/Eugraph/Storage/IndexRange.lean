import Eugraph.Storage.IndexStore

/-!
# Exactness of index range scans

A range scan starts behind `encode(start)` followed by eight `0xFF` bytes and stops
at the first row whose value part is at or above `encode(end)`.  For fixed-width
values that is the open interval.  A string has no terminator, so a bound, a stored
string and the entity ids interleave when one string is a prefix of another; the
predicates below name the ways this goes wrong, and `rangeExact_iff` says that there
are no others.
-/

namespace Eugraph.IndexStore

open Lib Wt IndexKeyCodec IndexScanCursor List

/-- An entry of a single-column index. -/
structure ColumnEntry where
  value : PropertyValue
  entityId : UInt64
  payload : Bytes
  deriving DecidableEq

def ColumnEntry.toEntry (e : ColumnEntry) : IndexEntry := ⟨[e.value], e.entityId, e.payload⟩

def ColumnEntry.key (e : ColumnEntry) : Bytes := encodeSortableValue e.value ++ u64BE e.entityId

/-- A table filled by the single-value overload of `insertIndexEntry`. -/
def buildColumn (entries : List ColumnEntry) : Table := buildIndex (entries.map ColumnEntry.toEntry)

inductive ColumnType
  | bool
  | int64
  | double
  | string
  deriving DecidableEq

/-- The values of a column; a double column holds no NaN. -/
def ColumnType.admits : ColumnType → PropertyValue → Bool
  | .bool, .bool _ => true
  | .int64, .int64 _ => true
  | .double, .double x => !x.isNaN
  | .string, .string _ => true
  | _, _ => false

/-! ### Specification -/

/-- `start < v < stop`, a missing bound being no constraint. -/
def inRange (start stop : Option PropertyValue) (v : PropertyValue) : Bool :=
  start.all (fun s => less s v) && stop.all (fun t => less v t)

/-- The keys `scan_range` visits. -/
def visitedKeys (engine : Engine) (t : Table) (start stop : Option PropertyValue) : List Bytes :=
  scanRangeWithCursor engine t (startEncoded start) true (endEncoded stop) stripEntityIdSuffix
    (fun keys key _ => (keys ++ [key], true)) []

/-- Both range readers visit exactly the entries of the open interval, each once and
in ascending value order. -/
structure RangeExact (engine : Engine) (entries : List ColumnEntry)
    (start stop : Option PropertyValue) : Prop where
  visited : ∀ e ∈ entries, e.key ∈ visitedKeys engine (buildColumn entries) start stop ↔
    inRange start stop e.value = true
  once : (visitedKeys engine (buildColumn entries) start stop).Nodup
  ascending : (visitedKeys engine (buildColumn entries) start stop).Pairwise fun k k' =>
    ∀ a ∈ entries, ∀ b ∈ entries, a.key = k → b.key = k' → less b.value a.value = false
  scanned : scanIndexRange engine (buildColumn entries) start stop collectId [] =
    (visitedKeys engine (buildColumn entries) start stop).map decodeEntityId
  cursor : ∀ fuel, (buildColumn entries).entries.length < fuel →
    entityIds fuel (createIndexRangeCursor engine (buildColumn entries) start stop) =
      scanIndexRange engine (buildColumn entries) start stop collectId []

/-! ### What goes wrong -/

/-- `v` extends the bound and is not past the filler, so the scan starts behind it. -/
def skippedByFiller (start v : PropertyValue) (id : UInt64) : Bool :=
  match start, v with
  | .string s, .string t =>
    s ≠ t && s.isPrefixOf t &&
      !maxEntityIdSuffix.isPrefixOf (t.drop s.length ++ u64BE id)
  | _, _ => false

/-- `v` is a shorter string than the bound, but its entity id sorts past the rest of
the bound, so the scan starts before it. -/
def passedById (start v : PropertyValue) (id : UInt64) : Bool :=
  match start, v with
  | .string s, .string t =>
    s ≠ t && t.isPrefixOf s && decide (s.drop t.length ++ maxEntityIdSuffix < u64BE id)
  | _, _ => false

/-- The value of `a` extends that of `b` and still sorts before it, by `b`'s id. -/
def overtakes (a b : ColumnEntry) : Bool :=
  match a.value, b.value with
  | .string s, .string t =>
    s ≠ t && t.isPrefixOf s && decide (s.drop t.length ++ u64BE a.entityId < u64BE b.entityId)
  | _, _ => false

/-- The row of `e` lies behind the start position. -/
def afterStart (start : Option PropertyValue) (e : ColumnEntry) : Bool :=
  start.all fun s =>
    (less s e.value && !skippedByFiller s e.value e.entityId) ||
      passedById s e.value e.entityId || codedBelow s e.value

/-- The row of a value does not stop the scan. -/
def beforeStop (stop : Option PropertyValue) (v : PropertyValue) : Bool :=
  stop.all fun t => less v t || codedBelow v t

/-- The condition on content and bounds under which a range scan is exact. -/
structure RangeUnambiguous (entries : List ColumnEntry) (start stop : Option PropertyValue) :
    Prop where
  notSkipped : ∀ e ∈ entries, inRange start stop e.value = true →
    ∀ s ∈ start, skippedByFiller s e.value e.entityId = false
  notOvertaken : ∀ e ∈ entries, inRange start stop e.value = true →
    ∀ a ∈ entries, overtakes a e = true → afterStart start a = false
  intruderCutOff : ∀ e ∈ entries, afterStart start e = true → beforeStop stop e.value = true →
    inRange start stop e.value = false →
    ∃ a ∈ entries, overtakes a e = true ∧ afterStart start a = true ∧
      beforeStop stop a.value = false

/-- In a sorted list, a property of all pairs in list order holds of all pairs in
key order. -/
theorem pairwise_of_lt {keys : List Bytes} {R : Bytes → Bytes → Prop}
    (hsorted : keys.Pairwise (· < ·)) (hR : keys.Pairwise R) {k k' : Bytes} (hk : k ∈ keys)
    (hk' : k' ∈ keys) (hlt : k < k') : R k k' := by
  induction keys with
  | nil => simp at hk
  | cons head rest ih =>
    obtain ⟨hhead, hrest⟩ := pairwise_cons.mp hsorted
    obtain ⟨hRhead, hRrest⟩ := pairwise_cons.mp hR
    rcases mem_cons.mp hk with rfl | hkRest
    · rcases mem_cons.mp hk' with rfl | hkRest'
      · exact absurd hlt (lt_irrefl _)
      · exact hRhead k' hkRest'
    · rcases mem_cons.mp hk' with rfl | hkRest'
      · exact absurd (hlt.trans (hhead k hkRest)) (lt_irrefl _)
      · exact ih hrest hRrest hkRest hkRest'

/-! ### The filler -/

/-- No string of eight bytes is above the filler. -/
theorem not_maxEntityIdSuffix_lt {w : Bytes} (hlen : w.length = 8) : ¬ maxEntityIdSuffix < w := by
  have hvalue : wordValue maxEntityIdSuffix = 256 ^ 8 - 1 := by decide
  have hw := wordValue_lt w
  rw [lt_iff_wordValue_lt (by simp [maxEntityIdSuffix, hlen]), hvalue]
  rw [hlen] at hw
  omega

/-- A longer string is above the filler exactly when it begins with it. -/
theorem maxEntityIdSuffix_lt_iff {w : Bytes} (hlen : 8 < w.length) :
    maxEntityIdSuffix < w ↔ maxEntityIdSuffix <+: w := by
  have hsplit := take_append_drop 8 w
  have htake : (w.take 8).length = 8 := by simp; omega
  have hdrop : w.drop 8 ≠ [] := by
    intro h
    rw [drop_eq_nil_iff] at h
    omega
  constructor
  · intro hlt
    rw [← hsplit, ← append_nil maxEntityIdSuffix, append_lt_append_iff (by rw [htake]; rfl)] at hlt
    rcases hlt with hlt | ⟨heq, -⟩
    · exact absurd hlt (not_maxEntityIdSuffix_lt htake)
    · exact ⟨w.drop 8, by rw [heq, hsplit]⟩
  · rintro ⟨rest, rfl⟩
    refine lt_append_of_ne_nil _ ?_
    rintro rfl
    simp [maxEntityIdSuffix] at hlen

/-! ### Comparing keys -/

/-- Fixed-width encodings compare first, what follows them second. -/
theorem encode_append_lt_iff {a b : PropertyValue} (hstring : tag a ≠ 0x04 ∨ tag b ≠ 0x04) (x y : Bytes) :
    encodeSortableValue a ++ x < encodeSortableValue b ++ y ↔ encodeSortableValue a < encodeSortableValue b ∨
        encodeSortableValue a = encodeSortableValue b ∧ x < y := by
  by_cases htag : tag a = tag b
  · exact append_lt_append_iff (length_encodeSortableValue_eq htag hstring) x y
  · obtain ⟨bodyA, hA⟩ := encodeSortableValue_eq_cons a
    obtain ⟨bodyB, hB⟩ := encodeSortableValue_eq_cons b
    rw [hA, hB, cons_append, cons_append, cons_lt_cons_iff, cons_lt_cons_iff]
    simp [htag]

variable {ty : ColumnType}

lemma ColumnType.admits_not_isNaN {v : PropertyValue} (h : ty.admits v = true) : isNaN v = false := by
  cases ty <;> cases v <;> simp_all [ColumnType.admits, isNaN]

/-- Byte order of a stored value's encoding against any other, on either side. -/
theorem encode_lt_iff_of_admits {a b : PropertyValue} (h : ty.admits a = true ∨ ty.admits b = true) :
    encodeSortableValue a < encodeSortableValue b ↔ (less a b || codedBelow a b) = true := by
  apply encodeSortableValue_lt_iff
  rintro ⟨ha, hb⟩
  rcases h with h | h
  · rw [ty.admits_not_isNaN h] at ha
    exact absurd ha (by simp)
  · rw [ty.admits_not_isNaN h] at hb
    exact absurd hb (by simp)

lemma isPrefix_antisymm {s t : Bytes} (hst : s <+: t) (hts : t <+: s) : s = t :=
  hst.eq_of_length (Nat.le_antisymm hst.length_le hts.length_le)

lemma drop_ne_nil_of_isPrefix {s t : Bytes} (hpre : s <+: t) (hne : s ≠ t) : 0 < (t.drop s.length).length := by
  obtain ⟨rest, rfl⟩ := hpre
  cases rest with
  | nil => simp at hne
  | cons c rest => simp

/-- The start position of a string bound against the row of a string. -/
theorem filler_lt_string_iff (s t : Bytes) (id : UInt64) : s ++ maxEntityIdSuffix < t ++ u64BE id ↔
      ((decide (s < t) && !skippedByFiller (.string s) (.string t) id) ||
        passedById (.string s) (.string t) id) = true := by
  rw [append_lt_append_cases]
  by_cases hst : s = t
  · subst hst
    simp [passedById, not_maxEntityIdSuffix_lt]
  by_cases hpre : s <+: t
  · have hnot : ¬ t <+: s := fun h => hst (isPrefix_antisymm hpre h)
    have hlt : s < t := lt_of_le_of_ne (le_of_isPrefix hpre) hst
    have hlong : 8 < (t.drop s.length ++ u64BE id).length := by
      have hdrop := drop_ne_nil_of_isPrefix hpre hst
      rw [length_append, length_u64BE]
      omega
    rw [if_pos hpre, maxEntityIdSuffix_lt_iff hlong]
    simp [skippedByFiller, passedById, hst, hpre, hnot, hlt]
  · rw [if_neg hpre]
    by_cases hpre' : t <+: s
    · have hnlt : ¬ s < t := not_lt.mpr (le_of_isPrefix hpre')
      rw [if_pos hpre']
      simp [passedById, hst, hpre', hnlt]
    · have hpreBool : s.isPrefixOf t = false := by
        rw [← Bool.not_eq_true, isPrefixOf_iff_prefix]
        exact hpre
      rw [if_neg hpre']
      simp [skippedByFiller, passedById, hpreBool, hpre']

variable {e : ColumnEntry}

/-- `afterStart` is the comparison with `start_encoded`. -/
theorem afterStart_iff (start : Option PropertyValue) (he : ty.admits e.value = true) :
    afterStart start e = true ↔ startEncoded start = [] ∨ startEncoded start < e.key := by
  cases start with
  | none => simp [afterStart, startEncoded]
  | some s =>
    have hne : startEncoded (some s) ≠ [] := by simp [startEncoded, encodeSortableValue_ne_nil]
    rw [or_iff_right hne]
    simp only [afterStart, Option.all_some, startEncoded, ColumnEntry.key]
    by_cases hstring : tag s ≠ 0x04 ∨ tag e.value ≠ 0x04
    · have hskip : skippedByFiller s e.value e.entityId = false := by
        unfold skippedByFiller
        split
        · simp_all [tag]
        · rfl
      have hpass : passedById s e.value e.entityId = false := by
        unfold passedById
        split
        · simp_all [tag]
        · rfl
      rw [encode_append_lt_iff hstring, encode_lt_iff_of_admits (Or.inr he)]
      simp [hskip, hpass, not_maxEntityIdSuffix_lt]
    · obtain ⟨x, rfl⟩ := eq_string_of_tag (not_not.mp (not_or.mp hstring).1)
      obtain ⟨y, hy⟩ := eq_string_of_tag (not_not.mp (not_or.mp hstring).2)
      have hcons : encodeSortableValue (.string x) ++ maxEntityIdSuffix <
          encodeSortableValue (.string y) ++ u64BE e.entityId ↔ x ++ maxEntityIdSuffix < y ++ u64BE e.entityId := by
        simp [encodeSortableValue]
      rw [hy, hcons, filler_lt_string_iff]
      simp [less, codedBelow]

lemma stripEntityIdSuffix_key (e : ColumnEntry) : stripEntityIdSuffix e.key = encodeSortableValue e.value := by
  have hlen : e.key.length = (encodeSortableValue e.value).length + 8 := by
    simp [ColumnEntry.key]
  rw [stripEntityIdSuffix, if_pos (by omega), hlen, Nat.add_sub_cancel, ColumnEntry.key,
    take_left]

/-- `beforeStop` is the comparison with `end_encoded`. -/
theorem beforeStop_iff (stop : Option PropertyValue) (he : ty.admits e.value = true) :
    beforeStop stop e.value = true ↔ ¬ (endEncoded stop ≠ [] ∧ endEncoded stop ≤ stripEntityIdSuffix e.key) := by
  cases stop with
  | none => simp [beforeStop, endEncoded]
  | some t =>
    have hne : endEncoded (some t) ≠ [] := by simp [endEncoded, encodeSortableValue_ne_nil]
    rw [stripEntityIdSuffix_key, and_iff_right hne, not_le]
    simp only [beforeStop, Option.all_some, endEncoded]
    exact (encode_lt_iff_of_admits (Or.inl he)).symm

variable {a b : ColumnEntry}

/-- Overtaking is the only way a row with the larger value sorts first. -/
theorem overtakes_iff : overtakes a b = true ↔
      encodeSortableValue b.value < encodeSortableValue a.value ∧ a.key < b.key := by
  unfold ColumnEntry.key
  by_cases hstring : tag a.value ≠ 0x04 ∨ tag b.value ≠ 0x04
  · have hno : overtakes a b = false := by
      unfold overtakes
      split
      · simp_all [tag]
      · rfl
    rw [hno, encode_append_lt_iff hstring]
    simp only [Bool.false_eq_true, false_iff, not_and, not_or]
    intro hlt
    exact ⟨hlt.not_gt, fun h => absurd h.symm hlt.ne⟩
  · obtain ⟨s, hs⟩ := eq_string_of_tag (not_not.mp (not_or.mp hstring).1)
    obtain ⟨t, ht⟩ := eq_string_of_tag (not_not.mp (not_or.mp hstring).2)
    rw [hs, ht]
    simp only [overtakes, hs, ht, encodeSortableValue, cons_append, cons_lt_cons_iff, lt_irrefl, true_and, false_or]
    rw [append_lt_append_cases]
    by_cases hst : s = t
    · simp [hst]
    by_cases hpre : t <+: s
    · have hnot : ¬ s <+: t := fun h => hst (isPrefix_antisymm h hpre)
      have hlt : t < s := lt_of_le_of_ne (le_of_isPrefix hpre) (Ne.symm hst)
      simp [hst, hpre, hnot, hlt]
    · by_cases hpre' : s <+: t
      · have hnlt : ¬ t < s := not_lt.mpr (le_of_isPrefix hpre')
        simp [hpre, hnlt]
      · rw [if_neg hpre', if_neg hpre]
        simp only [ isPrefixOf_iff_prefix, hpre, and_false, Bool.and_eq_true, false_and, false_iff, not_and]
        intro h
        exact h.not_gt

lemma less_of_overtakes (h : overtakes a b = true) : less b.value a.value = true := by
  unfold overtakes at h
  split at h
  · rename_i s t hs ht
    simp only [ne_eq, decide_not, Bool.and_eq_true, Bool.not_eq_true', decide_eq_false_iff_not,
      isPrefixOf_iff_prefix, decide_eq_true_eq] at h
    rw [hs, ht]
    simpa [less] using lt_of_le_of_ne (le_of_isPrefix h.1.2) (Ne.symm h.1.1)
  · exact absurd h (by simp)

/-! ### Which rows are visited -/

lemma ColumnEntry.toEntry_key (e : ColumnEntry) : e.toEntry.key = e.key := by
  simp [ColumnEntry.toEntry, IndexEntry.key, encodeIndexKey, ColumnEntry.key]

lemma mem_buildColumn_keys (entries : List ColumnEntry) (key : Bytes) :
    (∃ value, (key, value) ∈ (buildColumn entries).entries) ↔ ∃ e ∈ entries, e.key = key := by
  rw [buildColumn, mem_buildIndex_keys]
  simp [ColumnEntry.toEntry_key]

lemma visitedKeys_eq (engine : Engine) (t : Table) (start stop : Option PropertyValue) :
    visitedKeys engine t start stop =
      (rangeRecords t (startEncoded start) true (endEncoded stop) stripEntityIdSuffix).map
        Prod.fst := by
  rw [visitedKeys, scanRangeWithCursor_eq, runCallback_collectKeys, nil_append]

/-- The records behind the start position, as a filter of the table. -/
theorem startRecords_range (t : Table) (startKey : Bytes) :
    (if startKey = [] then t.entries else recordsFrom t startKey true) =
      t.entries.filter fun e => decide (startKey = [] ∨ startKey < e.1) := by
  by_cases hstart : startKey = []
  · rw [if_pos hstart, eq_comm, filter_eq_self]
    simp [hstart]
  · rw [if_neg hstart, recordsFrom]
    simp [hstart]

lemma visitedKeys_sorted (engine : Engine) (t : Table) (start stop : Option PropertyValue) :
    (visitedKeys engine t start stop).Pairwise (· < ·) := by
  rw [visitedKeys_eq, rangeRecords, startRecords_range, pairwise_map]
  exact (t.sorted.filter _).sublist (takeWhile_sublist _)

/-- A row is visited when it lies behind the start, does not stop the scan, and no
earlier row behind the start stops it either. -/
theorem mem_visitedKeys (engine : Engine) {entries : List ColumnEntry}
    (htype : ∀ e ∈ entries, ty.admits e.value = true) (start stop : Option PropertyValue) (he : e ∈ entries) :
    e.key ∈ visitedKeys engine (buildColumn entries) start stop ↔
      afterStart start e = true ∧ beforeStop stop e.value = true ∧
        ∀ a ∈ entries, a.key < e.key → afterStart start a = true → beforeStop stop a.value = true := by
  have hsorted := (buildColumn entries).sorted.filter
    fun e => decide (startEncoded start = [] ∨ startEncoded start < e.1)
  have hreach := SortedMap.mem_takeWhile_sorted hsorted
    fun key => !decide (endEncoded stop ≠ [] ∧ endEncoded stop ≤ stripEntityIdSuffix key)
  have hguard : ∀ key, (!decide (endEncoded stop ≠ [] ∧ endEncoded stop ≤ stripEntityIdSuffix key)) = true ↔
        ¬ (endEncoded stop ≠ [] ∧ endEncoded stop ≤ stripEntityIdSuffix key) := by
    intro key
    rw [Bool.not_eq_true', decide_eq_false_iff_not]
  rw [visitedKeys_eq, rangeRecords, startRecords_range, mem_map]
  constructor
  · rintro ⟨⟨key, value⟩, hmem, hkey⟩
    change key = e.key at hkey
    subst hkey
    obtain ⟨hfrom, hstop, hearlier⟩ := (hreach _).mp hmem
    have hafter := (mem_filter.mp hfrom).2
    simp only [decide_eq_true_eq] at hafter
    refine ⟨(afterStart_iff start (htype e he)).mpr hafter,
      (beforeStop_iff stop (htype e he)).mpr ((hguard _).mp hstop), ?_⟩
    intro a ha hlt haAfter
    obtain ⟨aValue, haRow⟩ := (mem_buildColumn_keys entries a.key).mpr ⟨a, ha, rfl⟩
    have haFrom := (afterStart_iff start (htype a ha)).mp haAfter
    have haStop := hearlier (a.key, aValue) (mem_filter.mpr ⟨haRow, by simpa using haFrom⟩) hlt
    exact (beforeStop_iff stop (htype a ha)).mpr ((hguard _).mp haStop)
  · rintro ⟨hafter, hbefore, hearlier⟩
    obtain ⟨value, hrow⟩ := (mem_buildColumn_keys entries e.key).mpr ⟨e, he, rfl⟩
    refine ⟨(e.key, value), (hreach _).mpr ?_, rfl⟩
    have hafterKey := (afterStart_iff start (htype e he)).mp hafter
    have hbeforeKey := (beforeStop_iff stop (htype e he)).mp hbefore
    refine ⟨mem_filter.mpr ⟨hrow, by simpa using hafterKey⟩, (hguard _).mpr hbeforeKey, ?_⟩
    rintro ⟨key, aValue⟩ haRow hlt
    obtain ⟨haTable, haAfter⟩ := mem_filter.mp haRow
    obtain ⟨a, ha, rfl⟩ := (mem_buildColumn_keys entries key).mp ⟨aValue, haTable⟩
    simp only [decide_eq_true_eq] at haAfter
    have haBefore := hearlier a ha hlt ((afterStart_iff start (htype a ha)).mpr haAfter)
    exact (hguard _).mpr ((beforeStop_iff stop (htype a ha)).mp haBefore)

/-! ### Exactness -/

lemma less_imp_encode_lt {a b : PropertyValue}
    (h : ty.admits a = true ∨ ty.admits b = true) (hless : less a b = true) :
    encodeSortableValue a < encodeSortableValue b :=
  (encode_lt_iff_of_admits h).mpr (by simp [hless])

lemma beforeStop_of_inRange {start stop : Option PropertyValue} {v : PropertyValue}
    (h : inRange start stop v = true) : beforeStop stop v = true := by
  cases stop with
  | none => rfl
  | some t =>
    simp only [inRange, Option.all_some, Bool.and_eq_true] at h
    simp [beforeStop, h.2]

lemma afterStart_of_inRange {start stop : Option PropertyValue} (h : inRange start stop e.value = true)
    (hskip : ∀ s ∈ start, skippedByFiller s e.value e.entityId = false) :
    afterStart start e = true := by
  cases start with
  | none => rfl
  | some s =>
    simp only [inRange, Option.all_some, Bool.and_eq_true] at h
    simp [afterStart, h.1, hskip s rfl]

/-- A skipped row is not behind the start by any other way. -/
theorem not_skipped_of_afterStart {start : Option PropertyValue} (h : afterStart start e = true) :
    ∀ s ∈ start, skippedByFiller s e.value e.entityId = false := by
  rintro s rfl
  by_contra hskip
  rw [Bool.not_eq_false] at hskip
  simp only [afterStart, Option.all_some, hskip, Bool.not_true, Bool.and_false, Bool.false_or, Bool.or_eq_true] at h
  unfold skippedByFiller at hskip
  split at hskip
  · rename_i x y hy
    simp only [ne_eq, decide_not, Bool.and_eq_true, Bool.not_eq_true', decide_eq_false_iff_not,
      isPrefixOf_iff_prefix] at hskip
    rw [hy] at h
    rcases h with h | h
    · simp only [passedById, ne_eq, decide_not, Bool.and_eq_true, Bool.not_eq_true',
        decide_eq_false_iff_not, isPrefixOf_iff_prefix, decide_eq_true_eq] at h
      exact hskip.1.1 (isPrefix_antisymm hskip.1.2 h.1.2)
    · simp [codedBelow] at h
  · exact absurd hskip (by simp)

/-- A row that comes first with a value at or past the other's is one that overtakes. -/
theorem overtakes_of_key_lt (ha : ty.admits a.value = true) (hless : less b.value a.value = true)
    (hkey : a.key < b.key) : overtakes a b = true :=
  overtakes_iff.mpr ⟨less_imp_encode_lt (Or.inr ha) hless, hkey⟩

lemma overtakes_of_stop {stop : Option PropertyValue}
    (ha : ty.admits a.value = true) (hb : ty.admits b.value = true)
    (haStop : beforeStop stop a.value = false) (hbStop : beforeStop stop b.value = true)
    (hkey : a.key < b.key) : overtakes a b = true := by
  have haEnd : endEncoded stop ≠ [] ∧ endEncoded stop ≤ stripEntityIdSuffix a.key := by
    by_contra hno
    rw [(beforeStop_iff stop ha).mpr hno] at haStop
    exact absurd haStop (by simp)
  have hbEnd := (beforeStop_iff stop hb).mp hbStop
  rw [stripEntityIdSuffix_key] at haEnd hbEnd
  rw [not_and, not_le] at hbEnd
  exact overtakes_iff.mpr ⟨(hbEnd haEnd.1).trans_le haEnd.2, hkey⟩

/-- Range scans of a typed column are exact precisely when no entry of the interval is
skipped by the filler or overtaken by an entry the scan reaches, and every foreign
entry behind the start is cut off. -/
theorem rangeExact_iff (engine : Engine) (ty : ColumnType) (entries : List ColumnEntry)
    (start stop : Option PropertyValue) (htype : ∀ e ∈ entries, ty.admits e.value = true) :
    RangeExact engine entries start stop ↔ RangeUnambiguous entries start stop := by
  have hvisited : ∀ e ∈ entries, _ := fun e he => mem_visitedKeys engine htype start stop he
  constructor
  · intro hexact
    have hreached : ∀ e ∈ entries, inRange start stop e.value = true →
        e.key ∈ visitedKeys engine (buildColumn entries) start stop := fun e he h =>
      (hexact.visited e he).mpr h
    refine ⟨?_, ?_, ?_⟩
    · intro e he hin
      exact not_skipped_of_afterStart ((hvisited e he).mp (hreached e he hin)).1
    · intro e he hin a ha hover
      by_contra hafter
      rw [Bool.not_eq_false] at hafter
      obtain ⟨-, hkey⟩ := overtakes_iff.mp hover
      obtain ⟨-, -, hearlier⟩ := (hvisited e he).mp (hreached e he hin)
      -- `a` is itself visited, before `e` and with the larger value
      have haVisited : a.key ∈ visitedKeys engine (buildColumn entries) start stop :=
        (hvisited a ha).mpr ⟨hafter, hearlier a ha hkey hafter, fun b hb hlt => hearlier b hb (hlt.trans hkey)⟩
      have hasc := pairwise_of_lt (visitedKeys_sorted engine (buildColumn entries) start stop)
        hexact.ascending haVisited (hreached e he hin) hkey a ha e he rfl rfl
      rw [less_of_overtakes hover] at hasc
      exact absurd hasc (by simp)
    · intro e he hafter hbefore hout
      by_contra hnone
      push Not at hnone
      have hmem := (hvisited e he).mpr ⟨hafter, hbefore, ?_⟩
      · rw [hexact.visited e he, hout] at hmem
        exact absurd hmem (by simp)
      · intro a ha hlt haAfter
        by_contra haStop
        rw [Bool.not_eq_true] at haStop
        exact hnone a ha (overtakes_of_stop (htype a ha) (htype e he) haStop hbefore hlt) haAfter haStop
  · intro hclear
    have hrange : ∀ e ∈ entries, e.key ∈ visitedKeys engine (buildColumn entries) start stop ↔
        inRange start stop e.value = true := by
      intro e he
      rw [hvisited e he]
      constructor
      · rintro ⟨hafter, hbefore, hearlier⟩
        by_contra hout
        rw [Bool.not_eq_true] at hout
        obtain ⟨a, ha, hover, haAfter, haStop⟩ := hclear.intruderCutOff e he hafter hbefore hout
        rw [hearlier a ha (overtakes_iff.mp hover).2 haAfter] at haStop
        exact absurd haStop (by simp)
      · intro hin
        refine ⟨afterStart_of_inRange hin (hclear.notSkipped e he hin), beforeStop_of_inRange hin, ?_⟩
        intro a ha hlt haAfter
        by_contra haStop
        rw [Bool.not_eq_true] at haStop
        have hover := overtakes_of_stop (htype a ha) (htype e he) haStop (beforeStop_of_inRange hin) hlt
        rw [hclear.notOvertaken e he hin a ha hover] at haAfter
        exact absurd haAfter (by simp)
    have hsorted := visitedKeys_sorted engine (buildColumn entries) start stop
    refine ⟨hrange, hsorted.imp ne_of_lt, ?_, ?_, ?_⟩
    · refine hsorted.imp_of_mem ?_
      rintro k k' hk hk' hlt a ha b hb rfl rfl
      by_contra hless
      rw [Bool.not_eq_false] at hless
      have hover := overtakes_of_key_lt (htype a ha) hless hlt
      have hafter := ((hvisited a ha).mp hk).1
      rw [hclear.notOvertaken b hb ((hrange b hb).mp hk') a ha hover] at hafter
      exact absurd hafter (by simp)
    · rw [scanIndexRange_eq, visitedKeys_eq, recordIds, map_map]
      rfl
    · exact entityIds_createIndexRangeCursor engine (buildColumn entries) start stop

/-- Strings of which none is a prefix of another, and bounds that are no prefix either. -/
theorem rangeExact_strings :
    RangeExact ⟨fun _ _ => true⟩
      [⟨.string [0x63], 4, []⟩, ⟨.string [0x62, 0x61], 9, []⟩, ⟨.string [0x62, 0x62], 2, []⟩]
      (some (.string [0x61])) (some (.string [0x63])) :=
  (rangeExact_iff _ .string _ _ _ (by decide)).mpr ⟨by decide, by decide, by decide⟩

/-- `start = "a"` with `"ab"` stored: the row sorts below the filler and is not visited. -/
theorem rangeExact_extension_fails :
    ¬ RangeExact ⟨fun _ _ => true⟩ [⟨.string [0x61, 0x62], 1, []⟩]
      (some (.string [0x61])) none := by
  intro hexact
  have hvisited := hexact.visited ⟨.string [0x61, 0x62], 1, []⟩ (by simp)
  revert hvisited
  decide

end Eugraph.IndexStore
