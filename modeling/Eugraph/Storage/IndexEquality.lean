import Eugraph.Storage.IndexStore

/-!
# Exactness of index equality lookups

An equality lookup is a byte-prefix match.  `matched_iff` computes it column by
column: the tuples are written alike, or a string of the lookup runs on into the
rest of the stored key.  From it follows when a lookup is exact.
-/

namespace Eugraph.IndexStore

open Lib Wt IndexKeyCodec IndexScanCursor List Bool DoubleBits

/-! ### Specification -/

/-- The keys under the equality prefix of `values`, as `table_scan` visits them. -/
def matchedKeys (engine : Engine) (t : Table) (values : List PropertyValue) : List Bytes :=
  scanWithCursor engine t (encodeEqualityPrefix values)
    (fun keys key _ => (keys ++ [key], true)) []

/-- Every reader of the equality prefix sees exactly the entries whose tuple equals
`v` under the `==` of property values. -/
structure EqualityExact (engine : Engine) (entries : List IndexEntry) (v : List PropertyValue) :
    Prop where
  matched : ∀ e ∈ entries,
    e.key ∈ matchedKeys engine (buildIndex entries) v ↔ tupleEqual v e.values = true
  scanned : ∀ id, id ∈ scanIndexEquality engine (buildIndex entries) v collectId [] ↔
    ∃ e ∈ entries, e.entityId = id ∧ tupleEqual v e.values = true
  once : (scanIndexEquality engine (buildIndex entries) v collectId []).Nodup
  cursor : ∀ fuel, (buildIndex entries).entries.length < fuel →
    entityIds fuel (createIndexEqualityCursor engine (buildIndex entries) v) =
      scanIndexEquality engine (buildIndex entries) v collectId []
  unique : checkUniqueConstraint engine (buildIndex entries) v = false ↔
    ∃ e ∈ entries, tupleEqual v e.values = true
  primaryKey : ∀ id, lookupVertexByPrimaryKey engine (buildIndex entries) v = some id →
    ∃ e ∈ entries, e.entityId = id ∧ tupleEqual v e.values = true

/-! ### What goes wrong -/

/-- The first column in which the tuples are written differently holds two strings,
and from there on the lookup's bytes are a prefix of the stored key's. -/
def runsOn : List PropertyValue → List PropertyValue → UInt64 → Bool
  | .string s :: vs, .string t :: ws, id =>
    if s = t then runsOn vs ws id
    else (s ++ encodeSortableValues vs).isPrefixOf (t ++ encodeSortableValues ws ++ u64BE id)
  | v :: vs, w :: ws, id => writtenAlike v w && runsOn vs ws id
  | _, _, _ => false

/-- Two different values without an encoding of their own, or the same NaN twice. -/
def unequalTwins (a b : PropertyValue) : Bool :=
  match a, b with
  | .double x, .double y => x = y && x.isNaN
  | a, b => !indexable a && !indexable b && !a.equal b

/-- `0.0` against `-0.0`: equal numbers with different bytes. -/
def signedZeros (a b : PropertyValue) : Bool :=
  match a, b with
  | .double x, .double y => x.magnitude = 0 && y.magnitude = 0 && x.negative != y.negative
  | _, _ => false

/-- The condition on the stored entries under which a lookup of `v` is exact. -/
def lookupUnambiguous (entries : List IndexEntry) (v : List PropertyValue) : Prop :=
  ∀ e ∈ entries,
    ¬ runsOn v e.values e.entityId = true ∧
    ¬ (listEqual writtenAlike v e.values = true ∧
        ∃ p ∈ v.zip e.values, unequalTwins p.1 p.2 = true) ∧
    ¬ (tupleEqual v e.values = true ∧ ∃ p ∈ v.zip e.values, signedZeros p.1 p.2 = true)

instance (entries : List IndexEntry) (v : List PropertyValue) :
    Decidable (lookupUnambiguous entries v) := by
  unfold lookupUnambiguous
  infer_instance

/-! ### The prefix match, column by column -/

lemma runsOn_cons {v w : PropertyValue} (hstring : tag v ≠ 0x04 ∨ tag w ≠ 0x04)
    (vs ws : List PropertyValue) (id : UInt64) :
    runsOn (v :: vs) (w :: ws) id = (writtenAlike v w && runsOn vs ws id) := by
  cases v <;> cases w <;> first | rfl | exact absurd hstring (by simp [tag])

variable {v : List PropertyValue} {w : List PropertyValue}

lemma matched_iff (hlen : v.length = w.length) (id : UInt64) :
    encodeEqualityPrefix v <+: encodeIndexKey w id ↔ listEqual writtenAlike v w = true ∨ runsOn v w id = true := by
  unfold encodeEqualityPrefix encodeIndexKey
  induction v generalizing w with
  | nil =>
    cases w with
    | nil => simp [listEqual]
    | cons b ws => simp at hlen
  | cons a vs ih =>
    cases w with
    | nil => simp at hlen
    | cons b ws =>
      have hrest := ih (w := ws) (by simpa using hlen)
      rw [encodeSortableValues_cons, encodeSortableValues_cons, append_assoc, listEqual]
      by_cases hstring : tag a ≠ 0x04 ∨ tag b ≠ 0x04
      · rw [encodeSortableValue_isPrefix_iff hstring, hrest, runsOn_cons hstring]
        cases writtenAlike a b <;> simp
      · -- two strings: equal ones cancel, different ones are the definition of `runsOn`
        obtain ⟨s, rfl⟩ := eq_string_of_tag (not_not.mp (not_or.mp hstring).1)
        obtain ⟨t, rfl⟩ := eq_string_of_tag (not_not.mp (not_or.mp hstring).2)
        rw [runsOn]
        by_cases hst : s = t
        · subst hst
          rw [prefix_append_right_inj, hrest, if_pos rfl]
          simp [writtenAlike]
        · rw [if_neg hst]
          simp [encodeSortableValue, writtenAlike, hst, indexable, isPrefixOf_iff_prefix]

/-- A run-on needs two different strings, so the tuples are not equal. -/
theorem tupleEqual_of_runsOn {id : UInt64}
    (h : runsOn v w id = true) : tupleEqual v w = false := by
  induction v generalizing w with
  | nil => simp [runsOn] at h
  | cons a vs ih =>
    cases w with
    | nil => simp [runsOn] at h
    | cons b ws =>
      rw [tupleEqual, listEqual]
      by_cases hstring : tag a ≠ 0x04 ∨ tag b ≠ 0x04
      · rw [runsOn_cons hstring, and_eq_true] at h
        rw [and_eq_false_iff]
        exact Or.inr (ih h.2)
      · obtain ⟨s, rfl⟩ := eq_string_of_tag (not_not.mp (not_or.mp hstring).1)
        obtain ⟨t, rfl⟩ := eq_string_of_tag (not_not.mp (not_or.mp hstring).2)
        rw [runsOn] at h
        by_cases hst : s = t
        · rw [if_pos hst] at h
          rw [and_eq_false_iff]
          exact Or.inr (ih h)
        · simp [PropertyValue.equal, hst]

/-! ### Equality against equal bytes -/

lemma DoubleBits.ext_magnitude {a b : DoubleBits} (hmag : a.magnitude = b.magnitude)
    (hneg : a.negative = b.negative) : a = b := by
  have ha := a.toNat_lt
  have hb := b.toNat_lt
  rw [← UInt64.toNat_inj]
  simp only [magnitude] at hmag
  simp only [negative, decide_eq_decide] at hneg
  omega

/-- Equal doubles have equal bits unless they are the two zeros. -/
theorem double_equal_cases {a b : DoubleBits} (h : equal a b = true) :
    a = b ∨ signedZeros (.double a) (.double b) = true := by
  simp only [equal, and_eq_true, decide_eq_true_eq] at h
  obtain ⟨-, hrank⟩ := h
  simp only [rank] at hrank
  by_cases hneg : a.negative = b.negative
  · left
    refine DoubleBits.ext_magnitude ?_ hneg
    cases hb : b.negative <;> rw [hb] at hneg <;> simp [hneg, hb] at hrank <;> omega
  · right
    cases ha : a.negative <;> cases hb : b.negative <;> simp [ha, hb] at hneg hrank <;>
      simp [signedZeros, ha, hb] <;> omega

lemma double_equal_self (a : DoubleBits) : equal a a = !a.isNaN := by
  simp [equal]

lemma unequalTwins_of_not_indexable {a b : PropertyValue} (ha : indexable a = false)
    (hb : indexable b = false) : unequalTwins a b = !a.equal b := by
  unfold unequalTwins
  split
  · simp [indexable] at ha
  · simp [ha, hb]

/-- Among values written alike, inequality is the twins' case. -/
theorem equal_of_writtenAlike {a b : PropertyValue} (h : writtenAlike a b = true) :
    a.equal b = true ↔ ¬ unequalTwins a b = true := by
  by_cases hindexable : indexable a = false ∧ indexable b = false
  · rw [unequalTwins_of_not_indexable hindexable.1 hindexable.2]
    simp
  · have hab : a = b := by
      simp only [writtenAlike, or_eq_true, decide_eq_true_eq, and_eq_true, not_eq_true'] at h
      exact h.resolve_right hindexable
    subst hab
    cases a with
    | double x => simp [PropertyValue.equal, unequalTwins, double_equal_self]
    | null | bool _ | int64 _ | string _ => simp [PropertyValue.equal, unequalTwins, indexable]
    | _ => simp [indexable] at hindexable

/-- Among equal values, different bytes are the signed zeros' case. -/
theorem writtenAlike_of_equal {a b : PropertyValue} (h : a.equal b = true) :
    writtenAlike a b = true ↔ ¬ signedZeros a b = true := by
  cases a with
  | double x =>
    cases b with
    | double y =>
      rcases double_equal_cases h with rfl | hzeros
      · simp [writtenAlike, signedZeros]
      · have hne : x ≠ y := by
          rintro rfl
          simp [signedZeros] at hzeros
        simp [writtenAlike, indexable, hne, hzeros]
    | _ => simp [PropertyValue.equal] at h
  | _ => cases b <;> simp_all [PropertyValue.equal, writtenAlike, indexable, signedZeros]

/-! ### Tuples -/

example (s : Bytes) : (PropertyValue.string s).equal .null = false := by
  simp [PropertyValue.equal]

lemma tupleEqual_of_alike (halike : listEqual writtenAlike v w = true) :
    tupleEqual v w = true ↔ ¬ ∃ p ∈ v.zip w, unequalTwins p.1 p.2 = true := by
  induction v generalizing w with
  | nil => cases w <;> simp_all [listEqual]
  | cons a vs ih =>
    cases w with
    | nil => simp [listEqual] at halike
    | cons b ws =>
      rw [listEqual, and_eq_true] at halike
      have hhead := equal_of_writtenAlike halike.1
      have htail := ih halike.2
      rw [tupleEqual, listEqual, and_eq_true, hhead, htail]
      simp

lemma alike_of_tupleEqual (hequal : tupleEqual v w = true) :
    listEqual writtenAlike v w = true ↔ ¬ ∃ p ∈ v.zip w, signedZeros p.1 p.2 = true := by
  induction v generalizing w with
  | nil => cases w <;> simp_all [listEqual]
  | cons a vs ih =>
    cases w with
    | nil => simp [listEqual] at hequal
    | cons b ws =>
      rw [tupleEqual, listEqual, and_eq_true] at hequal
      have hhead := writtenAlike_of_equal hequal.1
      have htail := ih hequal.2
      rw [listEqual, and_eq_true, hhead, htail]
      simp

/-- One stored tuple is matched exactly when it is equal iff none of the three
ambiguities applies to it. -/
theorem matched_iff_equal_iff (hlen : v.length = w.length) (id : UInt64) :
    (encodeEqualityPrefix v <+: encodeIndexKey w id ↔ tupleEqual v w = true) ↔ ¬ runsOn v w id = true ∧
      ¬ (listEqual writtenAlike v w = true ∧ ∃ p ∈ v.zip w, unequalTwins p.1 p.2 = true) ∧
      ¬ (tupleEqual v w = true ∧ ∃ p ∈ v.zip w, signedZeros p.1 p.2 = true) := by
  rw [matched_iff hlen]
  constructor
  · intro hiff
    have hruns : ¬ runsOn v w id = true := by
      intro hruns
      have hequal := hiff.mp (Or.inr hruns)
      rw [tupleEqual_of_runsOn hruns] at hequal
      exact absurd hequal (by simp)
    refine ⟨hruns, ?_, ?_⟩
    · rintro ⟨halike, htwins⟩
      exact (tupleEqual_of_alike halike).mp (hiff.mp (Or.inl halike)) htwins
    · rintro ⟨hequal, hzeros⟩
      have halike := (hiff.mpr hequal).resolve_right hruns
      exact (alike_of_tupleEqual hequal).mp halike hzeros
  · rintro ⟨hruns, htwins, hzeros⟩
    constructor
    · intro hmatched
      have halike := hmatched.resolve_right hruns
      exact (tupleEqual_of_alike halike).mpr fun h => htwins ⟨halike, h⟩
    · intro hequal
      exact Or.inl ((alike_of_tupleEqual hequal).mpr fun h => hzeros ⟨hequal, h⟩)

/-! ### From keys to readers -/

lemma matchedKeys_eq (engine : Engine) (t : Table) (v : List PropertyValue) :
    matchedKeys engine t v = (prefixRecords t (encodeEqualityPrefix v)).map Prod.fst := by
  rw [matchedKeys, scanWithCursor_eq, runCallback_collectKeys, nil_append]

lemma mem_matchedKeys (engine : Engine) (entries : List IndexEntry) (v : List PropertyValue) (key : Bytes) :
    key ∈ matchedKeys engine (buildIndex entries) v ↔
      encodeEqualityPrefix v <+: key ∧ ∃ e ∈ entries, e.key = key := by
  rw [matchedKeys_eq, ← mem_buildIndex_keys]
  simp only [mem_map, Prod.exists, exists_and_right, exists_eq_right, mem_prefixRecords,
    SortedMap.mem_entries_iff, exists_and_left]

lemma scanIndexEquality_eq_matchedKeys (engine : Engine) (t : Table) (v : List PropertyValue) :
    scanIndexEquality engine t v collectId [] = (matchedKeys engine t v).map decodeEntityId := by
  rw [scanIndexEquality_eq, matchedKeys_eq, recordIds, map_map]
  rfl

lemma checkUniqueConstraint_eq_matchedKeys (engine : Engine) (t : Table) (v : List PropertyValue) :
    checkUniqueConstraint engine t v = (matchedKeys engine t v).isEmpty := by
  rw [checkUniqueConstraint_eq, matchedKeys_eq, isEmpty_map]

lemma matchedKeys_nodup (engine : Engine) (t : Table) (v : List PropertyValue) :
    (matchedKeys engine t v).Nodup := by
  rw [matchedKeys_eq]
  have hsorted := (t.filterKeys (encodeEqualityPrefix v).isPrefixOf).sorted
  exact (hsorted.imp ne_of_lt).map _ fun _ _ h => h

lemma encodeSortableValues_of_alike (halike : listEqual writtenAlike v w = true) :
    encodeSortableValues v = encodeSortableValues w := by
  induction v generalizing w with
  | nil => cases w <;> simp_all [listEqual]
  | cons a vs ih =>
    cases w with
    | nil => simp [listEqual] at halike
    | cons b ws =>
      rw [listEqual, and_eq_true] at halike
      rw [encodeSortableValues_cons, encodeSortableValues_cons, encodeSortableValue_inj.mpr halike.1, ih halike.2]

/-- When matching means equality, a matched key is the lookup's bytes and the id, so
no id is reported twice. -/
theorem scan_nodup_of_exact (engine : Engine) {entries : List IndexEntry}
    (hentry : ∀ e ∈ entries, encodeEqualityPrefix v <+: e.key → listEqual writtenAlike v e.values = true) :
    (scanIndexEquality engine (buildIndex entries) v collectId []).Nodup := by
  rw [scanIndexEquality_eq_matchedKeys]
  refine (matchedKeys_nodup engine (buildIndex entries) v).map_on ?_
  intro k hk k' hk' hid
  obtain ⟨hpre, e, he, rfl⟩ := (mem_matchedKeys engine entries v k).mp hk
  obtain ⟨hpre', e', he', rfl⟩ := (mem_matchedKeys engine entries v k').mp hk'
  have hcode := encodeSortableValues_of_alike (hentry e he hpre)
  have hcode' := encodeSortableValues_of_alike (hentry e' he' hpre')
  simp only [IndexEntry.key, decodeEntityId_encodeIndexKey] at hid
  rw [IndexEntry.key, IndexEntry.key, encodeIndexKey, encodeIndexKey, ← hcode, ← hcode', hid]

/-- Equality lookups are exact for precisely those contents and tuples for which no
stored string runs on behind a string of the lookup, no two different values share
their bytes, and no zero meets the zero of the other sign. -/
theorem equalityExact_iff (engine : Engine) (entries : List IndexEntry) (v : List PropertyValue)
    (harity : ∀ e ∈ entries, v.length = e.values.length) :
    EqualityExact engine entries v ↔ lookupUnambiguous entries v := by
  have hmem : ∀ e ∈ entries, (e.key ∈ matchedKeys engine (buildIndex entries) v ↔
      encodeEqualityPrefix v <+: e.key) := by
    intro e he
    rw [mem_matchedKeys]
    exact ⟨fun h => h.1, fun h => ⟨h, e, he, rfl⟩⟩
  constructor
  · intro hexact e he
    rw [← matched_iff_equal_iff (harity e he)]
    exact (hmem e he).symm.trans (hexact.matched e he)
  · intro hclear
    have hequal : ∀ e ∈ entries, (encodeEqualityPrefix v <+: e.key ↔ tupleEqual v e.values = true) := fun e he =>
      (matched_iff_equal_iff (harity e he) e.entityId).mpr (hclear e he)
    have halike : ∀ e ∈ entries, encodeEqualityPrefix v <+: e.key →
        listEqual writtenAlike v e.values = true := fun e he hpre =>
      ((matched_iff (harity e he) e.entityId).mp hpre).resolve_right (hclear e he).1
    have hscanned : ∀ id, id ∈ scanIndexEquality engine (buildIndex entries) v collectId [] ↔
        ∃ e ∈ entries, e.entityId = id ∧ tupleEqual v e.values = true := by
      intro id
      rw [scanIndexEquality_eq_matchedKeys, mem_map]
      constructor
      · rintro ⟨key, hkey, rfl⟩
        obtain ⟨hpre, e, he, rfl⟩ := (mem_matchedKeys engine entries v key).mp hkey
        exact ⟨e, he, by simp [IndexEntry.key], (hequal e he).mp hpre⟩
      · rintro ⟨e, he, rfl, heq⟩
        exact ⟨e.key, (hmem e he).mpr ((hequal e he).mpr heq), by simp [IndexEntry.key]⟩
    refine ⟨fun e he => (hmem e he).trans (hequal e he), hscanned, scan_nodup_of_exact engine halike,
      entityIds_createIndexEqualityCursor engine (buildIndex entries) v, ?_, ?_⟩
    · rw [checkUniqueConstraint_eq_matchedKeys, isEmpty_eq_false_iff_exists_mem]
      constructor
      · rintro ⟨key, hkey⟩
        obtain ⟨hpre, e, he, rfl⟩ := (mem_matchedKeys engine entries v key).mp hkey
        exact ⟨e, he, (hequal e he).mp hpre⟩
      · rintro ⟨e, he, heq⟩
        exact ⟨e.key, (hmem e he).mpr ((hequal e he).mpr heq)⟩
    · intro id hlookup
      rw [lookupVertexByPrimaryKey_eq] at hlookup
      exact (hscanned id).mp (List.mem_of_head? hlookup)

/-- Three rows, looked up by a value that is stored and no prefix of another one. -/
theorem equalityExact_strings :
    EqualityExact ⟨fun _ _ => false⟩
      [⟨[.string [0x61]], 1, []⟩, ⟨[.string [0x62]], 2, []⟩, ⟨[.string [0x61]], 3, []⟩]
      [.string [0x61]] :=
  (equalityExact_iff _ _ _ (by decide)).mpr (by decide)

/-- Looking up `"a"` with only `"ab"` stored: the row of `"ab"` is matched. -/
theorem equalityExact_prefix_fails :
    ¬ EqualityExact ⟨fun _ _ => false⟩ [⟨[.string [0x61, 0x62]], 1, []⟩] [.string [0x61]] := by
  intro hexact
  have hunique := hexact.unique
  revert hunique
  decide

end Eugraph.IndexStore
