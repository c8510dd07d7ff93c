import Eugraph.Lib.ThreeWay
import Eugraph.Query.LimitHints

/-!
# When the order of values is an order

`cypherCompareValues` as a three-way comparison on a set of values that contains the
elements of its lists.  It fails on two temporal values of different types.  It ties two
temporal values of one type and different kinds, and an integer with the double it rounds
to, whatever else compares with them; so ties need not be transitive.
-/

namespace Eugraph.Dataset

open Lib Lib.ThreeWay Lib.SortedTop List Nat DoubleBits SortPhysicalOp

/-! ### Rounding -/

/-- The pattern of a number with the leading bit `e`. -/
theorem roundedPattern_mem {n : Nat} (h : n ≠ 0) :
    (n.log2 + 1023) * 2 ^ 52 ≤ roundedPattern n ∧ roundedPattern n ≤ (n.log2 + 1024) * 2 ^ 52 := by
  have hlow := log2_self_le h
  have hhigh := lt_log2_self (n := n)
  rw [roundedPattern, if_neg h]
  dsimp only
  generalize n.log2 = e at *
  split <;> rename_i he
  · have hshift : 2 ^ e * 2 ^ (52 - e) = 2 ^ 52 := by rw [← Nat.pow_add, add_sub_of_le he]
    have hlow' := Nat.mul_le_mul_right (2 ^ (52 - e)) hlow
    have hhigh' := Nat.mul_le_mul_right (2 ^ (52 - e)) hhigh.le
    rw [Nat.pow_succ, Nat.mul_right_comm] at hhigh'
    omega
  · have hshift : 2 ^ e = 2 ^ 52 * 2 ^ (e - 52) := by rw [← Nat.pow_add, add_sub_of_le (by omega)]
    have hunit : 0 < 2 ^ (e - 52) := Nat.two_pow_pos _
    have hq₁ : 2 ^ 52 ≤ n / 2 ^ (e - 52) := by
      rw [Nat.le_div_iff_mul_le hunit, ← hshift]
      exact hlow
    have hq₂ : n / 2 ^ (e - 52) < 2 ^ 53 := by
      rw [Nat.div_lt_iff_lt_mul hunit]
      rw [Nat.pow_succ, hshift] at hhigh
      omega
    split <;> omega

lemma roundedPattern_mono {n m : Nat} (h : n ≤ m) : roundedPattern n ≤ roundedPattern m := by
  by_cases hn : n = 0
  · rw [hn, roundedPattern, if_pos rfl]
    exact Nat.zero_le _
  have hm : m ≠ 0 := by omega
  have hlog : n.log2 ≤ m.log2 := by
    rw [le_log2 hm]
    exact (log2_self_le hn).trans h
  rcases hlog.lt_or_eq with hlt | heq
  · -- the patterns of a smaller exponent end where those of the next one begin
    have hhigh := (roundedPattern_mem hn).2
    have hlow := (roundedPattern_mem hm).1
    omega
  · rw [roundedPattern, if_neg hn, roundedPattern, if_neg hm]
    dsimp only
    rw [heq]
    generalize m.log2 = e
    split <;> rename_i he
    · exact Nat.add_le_add_left (Nat.mul_le_mul_right _ h) _
    · have hdiv : n / 2 ^ (e - 52) ≤ m / 2 ^ (e - 52) := Nat.div_le_div_right h
      rcases hdiv.lt_or_eq with hq | hq
      · split <;> split <;> omega
      · have hr : n % 2 ^ (e - 52) ≤ m % 2 ^ (e - 52) := by
          have h₁ := div_add_mod n (2 ^ (e - 52))
          have h₂ := div_add_mod m (2 ^ (e - 52))
          rw [hq] at h₁
          omega
        rw [hq]
        split <;> split <;> omega

lemma log2_natAbs_le (i : Int64) : i.toInt.natAbs.log2 ≤ 63 := by
  have h₁ := Int64.le_toInt i
  have h₂ := Int64.toInt_lt i
  by_cases hzero : i.toInt.natAbs = 0
  · rw [hzero]
    decide
  · have hlt := (log2_lt (k := 64) hzero).mpr (by omega)
    omega

/-- The pattern of an integer is far below the infinities. -/
theorem roundedPattern_lt (i : Int64) : roundedPattern i.toInt.natAbs ≤ 1087 * 2 ^ 52 := by
  by_cases hzero : i.toInt.natAbs = 0
  · rw [hzero, roundedPattern, if_pos rfl]
    omega
  · have hle := (roundedPattern_mem hzero).2
    have hlog := log2_natAbs_le i
    exact hle.trans (Nat.mul_le_mul_right (2 ^ 52) (Nat.add_le_add_right hlog 1024))

lemma toNat_toDouble (i : Int64) : (toDouble i).toNat =
    if i.toInt < 0 then 2 ^ 63 + roundedPattern i.toInt.natAbs else roundedPattern i.toInt.natAbs := by
  have hle := roundedPattern_lt i
  rw [toDouble, UInt64.toNat_ofNat']
  split <;> exact mod_eq_of_lt (by omega)

lemma isNaN_toDouble (i : Int64) : isNaN (toDouble i) = false := by
  have hle := roundedPattern_lt i
  rw [isNaN, magnitude, toNat_toDouble, decide_eq_false_iff_not]
  split <;> omega

lemma rank_toDouble (i : Int64) : rank (toDouble i) =
    if i.toInt < 0 then -(roundedPattern i.toInt.natAbs : Int) else roundedPattern i.toInt.natAbs := by
  have hle := roundedPattern_lt i
  rw [rank, negative, magnitude, toNat_toDouble]
  by_cases hneg : i.toInt < 0
  · have hmag : (2 ^ 63 + roundedPattern i.toInt.natAbs) % 2 ^ 63 = roundedPattern i.toInt.natAbs := by
      omega
    rw [if_pos hneg, if_pos hneg, hmag, if_pos (by simp)]
  · have hmag : roundedPattern i.toInt.natAbs % 2 ^ 63 = roundedPattern i.toInt.natAbs := by omega
    rw [if_neg hneg, if_neg hneg, hmag, if_neg (by rw [decide_eq_true_iff]; omega)]

/-- Rounding keeps the order. -/
theorem rank_toDouble_mono {i j : Int64} (h : i.toInt ≤ j.toInt) :
    rank (toDouble i) ≤ rank (toDouble j) := by
  rw [rank_toDouble, rank_toDouble]
  by_cases hi : i.toInt < 0
  · rw [if_pos hi]
    by_cases hj : j.toInt < 0
    · have hmono := roundedPattern_mono (n := j.toInt.natAbs) (m := i.toInt.natAbs) (by omega)
      rw [if_pos hj]
      omega
    · rw [if_neg hj]
      omega
  · have hmono := roundedPattern_mono (n := i.toInt.natAbs) (m := j.toInt.natAbs) (by omega)
    rw [if_neg hi, if_neg (by omega)]
    omega

/-! ### Keys within a category -/

/-- Where a double sorts: NaN behind every number. -/
def sortRank (d : DoubleBits) : Int := if isNaN d then 2 ^ 63 else rank d

lemma sortRank_toDouble (i : Int64) : sortRank (toDouble i) = rank (toDouble i) := by
  rw [sortRank, isNaN_toDouble, if_neg (by decide)]

lemma rank_lt (d : DoubleBits) : rank d < 2 ^ 63 := by
  have hmod : magnitude d < 2 ^ 63 := mod_lt _ (by decide)
  rw [rank]
  split <;> omega

lemma equal_iff_sortRank (d e : DoubleBits) : equal d e = true ↔
    isNaN d = false ∧ sortRank d = sortRank e := by
  have hd := rank_lt d
  have he := rank_lt e
  rw [equal, sortRank, sortRank]
  cases isNaN d <;> cases isNaN e
  · simp
  · simp
    omega
  · simp
  · simp

lemma compareAsDouble_eq (d e : DoubleBits) : compareAsDouble d e = byKey (sortRank d) (sortRank e) := by
  have hd := rank_lt d
  have he := rank_lt e
  rw [compareAsDouble, byKey, equal, DoubleBits.less, sortRank, sortRank]
  cases isNaN d
  · cases isNaN e
    · simp
    · simp
      split <;> omega
  · cases isNaN e
    · simp
      split <;> omega
    · simp

/-- The zoned kind sorts by the instant first. -/
def dateTimeKey (tv : DateTimeValue) : List Int :=
  (if tv.kind = .DATETIME then tv.temporalToComparable else 0) :: localFields tv

def timeKey (tv : TimeValue) : List Int :=
  (if tv.kind = .TIME then tv.temporalToComparable else 0) :: timeFields tv

lemma dateTimeLess_eq {a b : DateTimeValue} (h : a.kind = b.kind) :
    dateTimeLess a b = decide (dateTimeKey a < dateTimeKey b) := by
  rw [dateTimeLess, if_neg (not_not_intro h), dateTimeKey, dateTimeKey, ← h]
  by_cases hzoned : a.kind = .DATETIME
  · by_cases hinst : a.temporalToComparable = b.temporalToComparable
    · simp [hzoned, hinst]
    · simp [hzoned, hinst, cons_lt_cons_iff]
  · simp [hzoned]

lemma timeLess_eq {a b : TimeValue} (h : a.kind = b.kind) : timeLess a b = decide (timeKey a < timeKey b) := by
  rw [timeLess, if_neg (not_not_intro h), timeKey, timeKey, ← h]
  by_cases hzoned : a.kind = .TIME
  · by_cases hinst : a.temporalToComparable = b.temporalToComparable
    · simp [hzoned, hinst]
    · simp [hzoned, hinst, cons_lt_cons_iff]
  · simp [hzoned]

lemma compareTemporal_byKey (x y : List Int) : compareTemporal (decide (x < y)) (decide (y < x)) = byKey x y := by
  rw [compareTemporal, byKey]
  rcases lt_trichotomy x y with h | h | h
  · simp [h, h.ne]
  · simp [h]
  · simp [h, h.ne', h.not_gt]

/-! ### When values sort -/

/-- A set that has the elements of each of its lists. -/
def ElementClosed (S : Set Value) : Prop := ∀ elements, .list elements ∈ S → ∀ v ∈ elements, v ∈ S

/-- The two values are temporal values of one type. -/
def sameTemporalType : Value → Value → Bool
  | .dateTime _, .dateTime _ => true
  | .time _, .time _ => true
  | .duration _, .duration _ => true
  | _, _ => false

/-- What a column may hold side by side: temporal values of one type, two different ones of
one kind only where no other kind occurs, and two integers only where no double is the
rounding of both. -/
structure SortsTogether (S : Set Value) : Prop where
  oneType : ∀ a ∈ S, ∀ b ∈ S, cypherTypeCategory a = 5 → cypherTypeCategory b = 5 →
    sameTemporalType a b = true
  dates : ∀ x y z, .dateTime x ∈ S → .dateTime y ∈ S → .dateTime z ∈ S → x.kind = y.kind →
    z.kind ≠ x.kind → dateTimeLess x y = false
  times : ∀ x y z, .time x ∈ S → .time y ∈ S → .time z ∈ S → x.kind = y.kind →
    z.kind ≠ x.kind → timeLess x y = false
  numbers : ∀ i j d, .int64 i ∈ S → .int64 j ∈ S → .double d ∈ S →
    equal (toDouble i) d = true → equal (toDouble j) d = true → i = j

lemma cypherCompareValues_list (la lb : List Value) :
    cypherCompareValues (.list la) (.list lb) = lexCompare cypherCompareValues la lb := by
  rw [cypherCompareValues]
  induction la generalizing lb with
  | nil => cases lb <;> rfl
  | cons a la ih =>
    cases lb with
    | nil => rfl
    | cons b lb =>
      rw [compareLists, ih]
      rfl

/-- Values of different categories. -/
theorem cypherCompareValues_cross {a b : Value} (h : cypherTypeCategory a ≠ cypherTypeCategory b) :
    cypherCompareValues a b = some (byKey (cypherTypeCategory a) (cypherTypeCategory b)) := by
  rw [byKey, if_neg h]
  cases a <;> cases b <;> first | exact absurd rfl h | rfl

/-- Values of one category that are neither lists nor null. -/
theorem cypherCompareValues_within {a b : Value} (h : cypherTypeCategory a = cypherTypeCategory b)
    (hlist : cypherTypeCategory a ≠ 3) (hnull : cypherTypeCategory a ≠ 10) :
    cypherCompareValues a b = compareWithinCategory a b := by
  cases a <;> first | exact absurd rfl hlist | exact absurd rfl hnull |
    (cases b <;> first | rfl | cases h)

/-! ### One category -/

section Category

variable {S : Set Value}

/-- The key of a value that is neither a list nor temporal nor a number; values that tie
with all of their category have the empty one. -/
def plainKey : Value → Bytes
  | .string s => s
  | .bytes data => data
  | .bool b => if b then [0] else []
  | _ => []

lemma compareString_eq (a b : Bytes) : compareString a b = byKey a b := by
  rw [compareString, byKey]
  congr

lemma cypherCompareValues_plain {a b : Value} (h : cypherTypeCategory a = cypherTypeCategory b)
    (hlist : cypherTypeCategory a ≠ 3) (htemporal : cypherTypeCategory a ≠ 5)
    (hnumber : cypherTypeCategory a ≠ 8) :
    cypherCompareValues a b = some (byKey (plainKey a) (plainKey b)) := by
  by_cases hnull : cypherTypeCategory a = 10
  · cases a <;> try cases hnull
    cases b <;> first | rfl | cases h
  · rw [cypherCompareValues_within h hlist hnull]
    cases a <;> first | exact absurd rfl hlist | exact absurd rfl htemporal |
      exact absurd rfl hnumber | exact absurd rfl hnull | skip
    all_goals cases b <;> first | rfl | exact congrArg some (compareString_eq _ _) | cases h
    next la lb => cases la <;> cases lb <;> rfl

def temporalKind : Value → Option (DateTimeKind ⊕ TimeKind)
  | .dateTime tv => some (.inl tv.kind)
  | .time tv => some (.inr tv.kind)
  | _ => none

def temporalKey : Value → List Int
  | .dateTime tv => dateTimeKey tv
  | .time tv => timeKey tv
  | .duration dur => [durationOrderNanos dur]
  | _ => []

lemma dateTimeLess_of_ne {x y : DateTimeValue} (h : x.kind ≠ y.kind) : dateTimeLess x y = false := if_pos h

lemma timeLess_of_ne {x y : TimeValue} (h : x.kind ≠ y.kind) : timeLess x y = false := if_pos h

lemma byKey_singleton (x y : Int) : byKey [x] [y] = byKey x y := by
  simp [byKey, cons_lt_cons_iff]

lemma cypherCompareValues_temporal {a b : Value} (h : sameTemporalType a b = true) :
    cypherCompareValues a b = some (if temporalKind a = temporalKind b then
      byKey (temporalKey a) (temporalKey b) else 0) := by
  cases a <;> cases b <;> try cases h
  next x y =>
    show some (compareTemporal (dateTimeLess x y) (dateTimeLess y x)) = _
    by_cases hkind : x.kind = y.kind
    · rw [dateTimeLess_eq hkind, dateTimeLess_eq hkind.symm, compareTemporal_byKey,
        if_pos (by rw [temporalKind, temporalKind, hkind])]
      rfl
    · rw [dateTimeLess_of_ne hkind, dateTimeLess_of_ne (Ne.symm hkind), if_neg (by simpa [temporalKind] using hkind)]
      rfl
  next x y =>
    show some (compareTemporal (timeLess x y) (timeLess y x)) = _
    by_cases hkind : x.kind = y.kind
    · rw [timeLess_eq hkind, timeLess_eq hkind.symm, compareTemporal_byKey,
        if_pos (by rw [temporalKind, temporalKind, hkind])]
      rfl
    · rw [timeLess_of_ne hkind, timeLess_of_ne (Ne.symm hkind), if_neg (by simpa [temporalKind] using hkind)]
      rfl
  next x y =>
    show some (compareAsInt (durationOrderNanos x) (durationOrderNanos y)) = _
    rw [if_pos (show temporalKind (.duration x) = temporalKind (.duration y) from rfl), temporalKey,
      temporalKey, byKey_singleton]
    rfl

lemma temporalKey_eq_of_not_less {x y : List Int} (hxy : decide (x < y) = false)
    (hyx : decide (y < x) = false) : x = y := by
  rw [decide_eq_false_iff_not] at hxy hyx
  exact le_antisymm (not_lt.mp hyx) (not_lt.mp hxy)

/-- Temporal values of one type sort when no kind has two of them beside another kind. -/
theorem temporal_ordered (h : SortsTogether S) :
    OrdersOn cypherCompareValues {a ∈ S | cypherTypeCategory a = 5} := by
  have htype : ∀ a ∈ {a ∈ S | cypherTypeCategory a = 5}, ∀ b ∈ {a ∈ S | cypherTypeCategory a = 5},
      sameTemporalType a b = true := fun a ha b hb => h.oneType a ha.1 b hb.1 ha.2 hb.2
  rw [ordersOn_kinds_iff temporalKind temporalKey fun a ha b hb =>
    cypherCompareValues_temporal (htype a ha b hb)]
  intro a ha b hb c hc hkind hother
  have hab := htype a ha b hb
  have hac := htype a ha c hc
  cases a <;> cases b <;> try cases hab
  next x y =>
    cases c <;> try cases hac
    next z =>
      have hxy : x.kind = y.kind := by simpa [temporalKind] using hkind
      have hz : z.kind ≠ x.kind := by simpa [temporalKind] using hother
      have hless := h.dates x y z ha.1 hb.1 hc.1 hxy hz
      have hless' := h.dates y x z hb.1 ha.1 hc.1 hxy.symm (hxy ▸ hz)
      rw [dateTimeLess_eq hxy] at hless
      rw [dateTimeLess_eq hxy.symm] at hless'
      exact temporalKey_eq_of_not_less hless hless'
  next x y =>
    cases c <;> try cases hac
    next z =>
      have hxy : x.kind = y.kind := by simpa [temporalKind] using hkind
      have hz : z.kind ≠ x.kind := by simpa [temporalKind] using hother
      have hless := h.times x y z ha.1 hb.1 hc.1 hxy hz
      have hless' := h.times y x z hb.1 ha.1 hc.1 hxy.symm (hxy ▸ hz)
      rw [timeLess_eq hxy] at hless
      rw [timeLess_eq hxy.symm] at hless'
      exact temporalKey_eq_of_not_less hless hless'
  next x y =>
    cases c <;> first | exact absurd rfl hother | cases hac

/-- The number a value sorts as, as far as doubles tell numbers apart. -/
def numberRank : Value → Int
  | .int64 i => sortRank (toDouble i)
  | .double d => sortRank d
  | _ => 0

/-- The set has a double the integer rounds to. -/
def RoundsInto (S : Set Value) (i : Int64) : Prop :=
  ∃ d, .double d ∈ S ∧ sortRank d = sortRank (toDouble i)

open Classical in
/-- Integers that round to one double are told apart where that double does not occur. -/
noncomputable def exactPart (S : Set Value) : Value → Int
  | .int64 i => if RoundsInto S i then 0 else i.toInt
  | _ => 0

noncomputable def numberKey (S : Set Value) (v : Value) : Int ×ₗ Int :=
  toLex (numberRank v, exactPart S v)

lemma exactPart_of_double {i : Int64} {d : DoubleBits} (hd : .double d ∈ S)
    (hrank : sortRank d = sortRank (toDouble i)) : exactPart S (.int64 i) = 0 := if_pos ⟨d, hd, hrank⟩

lemma exactPart_of_none {i : Int64} (h : ¬ RoundsInto S i) : exactPart S (.int64 i) = i.toInt := if_neg h

lemma equal_toDouble_iff (i : Int64) (d : DoubleBits) :
    equal (toDouble i) d = true ↔ sortRank (toDouble i) = sortRank d := by
  rw [equal_iff_sortRank, isNaN_toDouble, eq_self_iff_true, true_and]

lemma byKey_lex (x y : Int ×ₗ Int) :
    byKey x y = if (ofLex x).1 = (ofLex y).1 then byKey (ofLex x).2 (ofLex y).2
      else byKey (ofLex x).1 (ofLex y).1 := by
  obtain ⟨x₁, x₂⟩ := x
  obtain ⟨y₁, y₂⟩ := y
  show byKey (toLex (x₁, x₂)) (toLex (y₁, y₂)) = if x₁ = y₁ then byKey x₂ y₂ else byKey x₁ y₁
  simp only [byKey, Prod.Lex.toLex_lt_toLex, toLex_inj, Prod.mk.injEq]
  by_cases h : x₁ = y₁
  · simp [h]
  · simp [h]

lemma number_ordered (h : SortsTogether S) : OrdersOn cypherCompareValues {a ∈ S | cypherTypeCategory a = 8} := by
  refine .ofKey (numberKey S) fun a ha b hb => ?_
  obtain ⟨ha, hcat⟩ := ha
  obtain ⟨hb, hcat'⟩ := hb
  rw [byKey_lex]
  cases a <;> try cases hcat
  next i =>
    cases b <;> try cases hcat'
    next j =>
      show some (byKey i.toInt j.toInt) = some (if sortRank (toDouble i) = sortRank (toDouble j) then
        byKey (exactPart S (.int64 i)) (exactPart S (.int64 j))
        else byKey (sortRank (toDouble i)) (sortRank (toDouble j)))
      congr 1
      by_cases hrank : sortRank (toDouble i) = sortRank (toDouble j)
      · rw [if_pos hrank]
        by_cases hdouble : RoundsInto S i
        · obtain ⟨d, hd, hrank'⟩ := hdouble
          have hij := h.numbers i j d ha hb hd ((equal_toDouble_iff i d).mpr hrank'.symm)
            ((equal_toDouble_iff j d).mpr (hrank.symm.trans hrank'.symm))
          rw [hij, byKey_self, byKey_self]
        · rw [exactPart_of_none hdouble, exactPart_of_none fun ⟨d, hd, hrank'⟩ =>
            hdouble ⟨d, hd, hrank'.trans hrank.symm⟩]
      · rw [if_neg hrank]
        rw [sortRank_toDouble, sortRank_toDouble] at *
        have hmono := @rank_toDouble_mono i j
        have hmono' := @rank_toDouble_mono j i
        rw [byKey, byKey]
        split
        · omega
        · split <;> split <;> omega
    next d =>
      show some (compareAsDouble (toDouble i) d) =
        some (if sortRank (toDouble i) = sortRank d then byKey (exactPart S (.int64 i)) 0
          else byKey (sortRank (toDouble i)) (sortRank d))
      rw [compareAsDouble_eq]
      congr 1
      by_cases hrank : sortRank (toDouble i) = sortRank d
      · rw [if_pos hrank, exactPart_of_double hb hrank.symm, hrank, byKey_self, byKey_self]
      · rw [if_neg hrank]
  next d =>
    cases b <;> try cases hcat'
    next j =>
      show some (compareAsDouble d (toDouble j)) =
        some (if sortRank d = sortRank (toDouble j) then byKey 0 (exactPart S (.int64 j))
          else byKey (sortRank d) (sortRank (toDouble j)))
      rw [compareAsDouble_eq]
      congr 1
      by_cases hrank : sortRank d = sortRank (toDouble j)
      · rw [if_pos hrank, exactPart_of_double ha hrank, hrank, byKey_self, byKey_self]
      · rw [if_neg hrank]
    next e =>
      show some (compareAsDouble d e) =
        some (if sortRank d = sortRank e then byKey 0 0 else byKey (sortRank d) (sortRank e))
      rw [compareAsDouble_eq]
      congr 1
      by_cases hrank : sortRank d = sortRank e
      · rw [if_pos hrank, hrank, byKey_self, byKey_self]
      · rw [if_neg hrank]

end Category

/-! ### All categories -/

section Columns

variable {S : Set Value}

def elementsOf : Value → List Value
  | .list elements => elements
  | _ => []

lemma list_of_category {a : Value} (h : cypherTypeCategory a = 3) : a = .list (elementsOf a) := by
  cases a <;> first | rfl | cases h

/-- Values up to a size, by the order of smaller ones. -/
theorem sized_ordered (hclosed : ElementClosed S) (h : SortsTogether S) (size : Nat) :
    OrdersOn cypherCompareValues {a ∈ S | sizeOf a < size} := by
  induction size with
  | zero => exact .ofTies fun a ha => absurd ha.2 (Nat.not_lt_zero _)
  | succ size ih =>
    refine .ofClasses cypherTypeCategory (fun a _ b _ hne => cypherCompareValues_cross hne) fun category => ?_
    by_cases hlist : category = 3
    · subst hlist
      refine ih.lex.comap (f := elementsOf) (fun a ha v hv => ?_) fun a ha b hb => ?_
      · obtain ⟨⟨ha, hsize⟩, hcat⟩ := ha
        rw [list_of_category hcat] at ha hsize
        rw [Value.list.sizeOf_spec] at hsize
        have hlt := sizeOf_lt_of_mem hv
        exact ⟨hclosed _ ha v hv, by omega⟩
      · rw [← cypherCompareValues_list, ← list_of_category ha.2, ← list_of_category hb.2]
    by_cases htemporal : category = 5
    · subst htemporal
      exact (temporal_ordered h).mono fun a ha => ⟨ha.1.1, ha.2⟩
    by_cases hnumber : category = 8
    · subst hnumber
      exact (number_ordered h).mono fun a ha => ⟨ha.1.1, ha.2⟩
    · refine .ofKey plainKey fun a ha b hb => ?_
      obtain ⟨-, rfl⟩ := ha
      exact cypherCompareValues_plain hb.2.symm hlist htemporal hnumber

lemma SortsTogether.ordersOn (hclosed : ElementClosed S) (h : SortsTogether S) :
    OrdersOn cypherCompareValues S := by
  -- three values are below a common size
  have hsized := fun size => sized_ordered hclosed h size
  refine ⟨fun a ha b hb => ?_, fun a ha => ?_, fun a ha b hb => ?_, fun a ha b hb c hc => ?_⟩
  · exact (hsized (sizeOf a + sizeOf b + 1)).defined a ⟨ha, by omega⟩ b ⟨hb, by omega⟩
  · exact (hsized (sizeOf a + 1)).refl a ⟨ha, by omega⟩
  · exact (hsized (sizeOf a + sizeOf b + 1)).antisymm a ⟨ha, by omega⟩ b ⟨hb, by omega⟩
  · exact (hsized (sizeOf a + sizeOf b + sizeOf c + 1)).trans a ⟨ha, by omega⟩ b ⟨hb, by omega⟩
      c ⟨hc, by omega⟩

lemma compareWithinCategory_temporal {a b : Value} (ha : cypherTypeCategory a = 5)
    (hb : cypherTypeCategory b = 5) (h : sameTemporalType a b = false) :
    cypherCompareValues a b = none := by
  cases a <;> try cases ha
  all_goals cases b <;> first | rfl | exact Bool.noConfusion h | cases hb

/-- What an order of the values needs of them. -/
theorem sortsTogether_of_ordersOn (h : OrdersOn cypherCompareValues S) : SortsTogether S := by
  have htype : ∀ a ∈ S, ∀ b ∈ S, cypherTypeCategory a = 5 → cypherTypeCategory b = 5 →
      sameTemporalType a b = true := by
    intro a ha b hb hcat hcat'
    obtain ⟨m, hm⟩ := h.defined a ha b hb
    by_contra hne
    rw [compareWithinCategory_temporal hcat hcat' (Bool.eq_false_iff.mpr hne)] at hm
    cases hm
  have htemporal : OrdersOn cypherCompareValues {a ∈ S | cypherTypeCategory a = 5} := h.mono fun a ha => ha.1
  rw [ordersOn_kinds_iff temporalKind temporalKey fun a ha b hb =>
    cypherCompareValues_temporal (htype a ha.1 b hb.1 ha.2 hb.2)] at htemporal
  refine ⟨htype, fun x y z hx hy hz hxy hzx => ?_, fun x y z hx hy hz hxy hzx => ?_,
    fun i j d hi hj hd hequal hequal' => ?_⟩
  · have hkey := htemporal (.dateTime x) ⟨hx, rfl⟩ (.dateTime y) ⟨hy, rfl⟩ (.dateTime z) ⟨hz, rfl⟩
      (by simpa [temporalKind] using hxy) (by simpa [temporalKind] using hzx)
    rw [temporalKey, temporalKey] at hkey
    rw [dateTimeLess_eq hxy, hkey]
    exact decide_eq_false (lt_irrefl _)
  · have hkey := htemporal (.time x) ⟨hx, rfl⟩ (.time y) ⟨hy, rfl⟩ (.time z) ⟨hz, rfl⟩
      (by simpa [temporalKind] using hxy) (by simpa [temporalKind] using hzx)
    rw [temporalKey, temporalKey] at hkey
    rw [timeLess_eq hxy, hkey]
    exact decide_eq_false (lt_irrefl _)
  · rw [equal_toDouble_iff] at hequal hequal'
    have hfirst : cypherCompareValues (.int64 i) (.double d) = some 0 := by
      show some (compareAsDouble (toDouble i) d) = some 0
      rw [compareAsDouble_eq, hequal, byKey_self]
    have hsecond : cypherCompareValues (.double d) (.int64 j) = some 0 := by
      show some (compareAsDouble d (toDouble j)) = some 0
      rw [compareAsDouble_eq, hequal', byKey_self]
    have htie := h.tie_trans hi hd hj hfirst hsecond
    have hzero : byKey i.toInt j.toInt = 0 := Option.some_inj.mp htie
    exact Int64.toInt_inj.mp (byKey_eq_zero_iff.mp hzero)

/-! ### Sorting rows -/

variable {items : List SortItem}

lemma rowLess_cons {item : SortItem} {a b : Row} {m : Int}
    (hm : cypherCompareValues (item.expr a) (item.expr b) = some m) :
    rowLess (item :: items) a b =
      if m = 0 then rowLess items a b
      else if item.ascending then m < 0 else 0 < m := by
  rw [rowLess, hm]

lemma rowLess_asymm (h : OrdersOn cypherCompareValues S) {a b : Row}
    (ha : ∀ item ∈ items, item.expr a ∈ S) (hb : ∀ item ∈ items, item.expr b ∈ S)
    (hless : rowLess items a b = true) : rowLess items b a = false := by
  induction items with
  | nil => rfl
  | cons item items ih =>
    rw [forall_mem_cons] at ha hb
    obtain ⟨m, hm⟩ := h.defined _ ha.1 _ hb.1
    obtain ⟨n, hn, hn₁, hn₂⟩ := h.swap ha.1 hb.1 hm
    rw [rowLess_cons hm] at hless
    rw [rowLess_cons hn]
    by_cases hzero : m = 0
    · rw [if_pos hzero] at hless
      rw [if_pos (by omega)]
      exact ih ha.2 hb.2 hless
    · rw [if_neg hzero] at hless
      rw [if_neg (by omega)]
      split <;> rename_i hasc
      · rw [if_pos hasc, decide_eq_true_iff] at hless
        exact decide_eq_false (by omega)
      · rw [if_neg hasc, decide_eq_true_iff] at hless
        exact decide_eq_false (by omega)

lemma rowLess_split (h : OrdersOn cypherCompareValues S) {a b c : Row}
    (ha : ∀ item ∈ items, item.expr a ∈ S) (hb : ∀ item ∈ items, item.expr b ∈ S)
    (hc : ∀ item ∈ items, item.expr c ∈ S) (hless : rowLess items a c = true) :
    rowLess items a b = true ∨ rowLess items b c = true := by
  induction items with
  | nil => cases hless
  | cons item items ih =>
    rw [forall_mem_cons] at ha hb hc
    obtain ⟨m, hm⟩ := h.defined _ ha.1 _ hb.1
    obtain ⟨n, hn⟩ := h.defined _ hb.1 _ hc.1
    obtain ⟨k, hk⟩ := h.defined _ ha.1 _ hc.1
    obtain ⟨hbelow, habove, htie⟩ := h.between ha.1 hb.1 hc.1 hm hn hk
    rw [rowLess_cons hk] at hless
    rw [rowLess_cons hm, rowLess_cons hn]
    by_cases hk₀ : k = 0
    · rw [if_pos hk₀] at hless
      by_cases hm₀ : m = 0
      · have hn₀ : n = 0 := by
          have hside := htie hk₀
          omega
        rw [if_pos hm₀, if_pos hn₀]
        exact ih ha.2 hb.2 hc.2 hless
      · -- the middle row is on one side of the two that tie
        obtain ⟨hside, hside'⟩ := htie hk₀
        have hn₀ : n ≠ 0 := by omega
        rw [if_neg hm₀, if_neg hn₀]
        by_cases hasc : item.ascending = true
        · rw [if_pos hasc, if_pos hasc, decide_eq_true_iff, decide_eq_true_iff]
          omega
        · rw [if_neg hasc, if_neg hasc, decide_eq_true_iff, decide_eq_true_iff]
          omega
    · rw [if_neg hk₀] at hless
      split at hless <;> rename_i hasc
      · rw [decide_eq_true_iff] at hless
        rcases hbelow hless with hlt | hlt
        · left
          rw [if_neg (by omega), if_pos hasc, decide_eq_true_iff]
          exact hlt
        · right
          rw [if_neg (by omega), if_pos hasc, decide_eq_true_iff]
          exact hlt
      · rw [decide_eq_true_iff] at hless
        rcases habove hless with hlt | hlt
        · left
          rw [if_neg (by omega), if_neg hasc, decide_eq_true_iff]
          exact hlt
        · right
          rw [if_neg (by omega), if_neg hasc, decide_eq_true_iff]
          exact hlt

/-- Where the keys of the rows are ordered, the comparison of the items is what the sort
algorithms ask for. -/
theorem orders_of_ordersOn (h : OrdersOn cypherCompareValues S) {op : SortPhysicalOp} {rows : List Row}
    (hkeys : ∀ item ∈ op.sort_items, ∀ row ∈ rows, item.expr row ∈ S) : op.Orders rows where
  defined item hitem a ha b hb := by
    obtain ⟨m, hm⟩ := h.defined _ (hkeys item hitem a ha) _ (hkeys item hitem b hb)
    rw [hm]
    rfl
  strict :=
    { asymm := fun a ha b hb hless =>
        rowLess_asymm h (fun item hitem => hkeys item hitem a ha)
          (fun item hitem => hkeys item hitem b hb) hless
      split := fun a ha b hb c hc hless =>
        rowLess_split h (fun item hitem => hkeys item hitem a ha)
          (fun item hitem => hkeys item hitem b hb) (fun item hitem => hkeys item hitem c hc) hless }

/-- The comparison orders a set of values exactly if they sort together; rows with keys in
such a set are sorted by a strict weak order. -/
theorem cypherCompareValues_orders_iff (S : Set Value) (hclosed : ElementClosed S) :
    (OrdersOn cypherCompareValues S ↔ SortsTogether S) ∧
      (SortsTogether S → ∀ (op : SortPhysicalOp) (rows : List Row),
        (∀ item ∈ op.sort_items, ∀ row ∈ rows, item.expr row ∈ S) → op.Orders rows) :=
  ⟨⟨sortsTogether_of_ordersOn, SortsTogether.ordersOn hclosed⟩,
    fun h _ _ hkeys => orders_of_ordersOn (h.ordersOn hclosed) hkeys⟩

end Columns

/-! ### Values that do not sort -/

def aDate : DateTimeValue := ⟨2024, 0, 0, 1, 1, 0, 0, 0, .DATE, none⟩

/-- A column of dates, numbers and a list of them. -/
def sortedColumn : Set Value :=
  {.dateTime aDate, .int64 1, .double 0x3FF0000000000000, .list [.int64 1, .dateTime aDate]}

theorem cypherCompareValues_orders_sortedColumn : OrdersOn cypherCompareValues sortedColumn ∧
      (mk [⟨fun _ => .int64 1, true⟩] none).Orders [[.null], [.int64 1]] := by
  have hclosed : ElementClosed sortedColumn := by
    intro elements hmem v hv
    simp only [sortedColumn, Set.mem_insert_iff, Set.mem_singleton_iff, reduceCtorEq, false_or,
      Value.list.injEq] at hmem
    subst hmem
    simp only [mem_cons, not_mem_nil, or_false] at hv
    rcases hv with rfl | rfl <;> simp [sortedColumn]
  have htogether : SortsTogether sortedColumn := by
    refine ⟨?_, ?_, ?_, ?_⟩
    · intro a ha b hb hcat hcat'
      simp only [sortedColumn, Set.mem_insert_iff, Set.mem_singleton_iff] at ha hb
      rcases ha with rfl | rfl | rfl | rfl <;> try cases hcat
      rcases hb with rfl | rfl | rfl | rfl <;> first | rfl | cases hcat'
    · intro x y z hx hy hz _ hkind
      simp [sortedColumn] at hx hz
      rw [hx, hz] at hkind
      exact absurd rfl hkind
    · intro x y z hx _ _ _ _
      simp [sortedColumn] at hx
    · intro i j d hi hj _ _ _
      simp [sortedColumn] at hi hj
      rw [hi, hj]
  have hordered := cypherCompareValues_orders_iff sortedColumn hclosed
  exact ⟨hordered.1.mpr htogether, hordered.2 htogether _ _ (by simp [sortedColumn])⟩

/-- `9007199254740992`, which is also what `9007199254740993` rounds to. -/
def twoPow53 : DoubleBits := 0x4340000000000000

/-- A date beside a time is a failed access; two integers that differ tie with one double. -/
theorem cypherCompareValues_not_ordered :
    cypherCompareValues (.dateTime aDate) (.time ⟨0, 0, 12, 0, 0, .TIME, none⟩) = none ∧
      cypherCompareValues (.int64 9007199254740992) (.double twoPow53) = some 0 ∧
      cypherCompareValues (.double twoPow53) (.int64 9007199254740993) = some 0 ∧
      cypherCompareValues (.int64 9007199254740992) (.int64 9007199254740993) = some (-1) ∧
      ¬ OrdersOn cypherCompareValues Set.univ := by
  refine ⟨rfl, by decide +kernel, by decide +kernel, by decide +kernel, fun h => ?_⟩
  obtain ⟨m, hm⟩ := h.defined (.dateTime aDate) trivial (.time ⟨0, 0, 12, 0, 0, .TIME, none⟩) trivial
  cases hm

end Eugraph.Dataset
