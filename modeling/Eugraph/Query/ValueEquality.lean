import Eugraph.Query.RuntimeValue

/-!
# Equality and hashing of keys

Grouping and `count(DISTINCT)` compare keys by `valueContentEquals`, the hash join by
`joinValueEquals` of `hash_join_physical_op.cpp`; all of them hash by `ValueHash`.

Equality crosses the ways a value can be written: an integer and a double, an edge
reference and an edge, two orders of the entries of a map.  The hash does not.  Both read
no more of a value than its written form, so keys of which any two equal ones have one
written form are divided into classes, and a hash container holds each class once.  A
hash that tells such forms apart divides no other keys.
-/

namespace Eugraph.Dataset

open Lib List Bool DoubleBits

def isContainer : Value → Bool
  | .list _ => true
  | .path _ => true
  | .map _ => true
  | _ => false

/-! ### Values without NaN -/

mutual

/-- No NaN in the value. -/
def nanFree : Value → Bool
  | .double d => !isNaN d
  | .list elements => nanFreeElements elements
  | .path elements => nanFreeElements elements
  | .map entries => nanFreeEntries entries
  | _ => true

def nanFreeElements : List Value → Bool
  | [] => true
  | v :: rest => nanFree v && nanFreeElements rest

def nanFreeEntries : List (Bytes × Value) → Bool
  | [] => true
  | (_, v) :: rest => nanFree v && nanFreeEntries rest

end

lemma nanFreeElements_iff (elements : List Value) :
    nanFreeElements elements = true ↔ ∀ v ∈ elements, nanFree v = true := by
  induction elements with
  | nil => simp [nanFreeElements]
  | cons v rest ih => simp [nanFreeElements, ih]

lemma nanFreeEntries_iff (entries : List (Bytes × Value)) :
    nanFreeEntries entries = true ↔ ∀ entry ∈ entries, nanFree entry.2 = true := by
  induction entries with
  | nil => simp [nanFreeEntries]
  | cons entry rest ih => simp [nanFreeEntries, ih]

/-! ### Written forms -/

/-- The fields that the kind of a date-time does not use are cleared. -/
def canonicalDateTime (tv : DateTimeValue) : DateTimeValue :=
  match tv.kind with
  | .DATE =>
    { tv with hour := 0, minute := 0, second := 0, nanos := 0, tz_offset_sec := 0, tz_name := none }
  | .LOCAL_DATETIME => { tv with tz_offset_sec := 0, tz_name := none }
  | .DATETIME => tv

def canonicalTime (tv : TimeValue) : TimeValue :=
  match tv.kind with
  | .LOCAL_TIME => { tv with tz_offset_sec := 0, tz_name := none }
  | .TIME => tv

/-- Both zeros are one number. -/
def canonicalDouble (d : DoubleBits) : DoubleBits := if rank d = 0 then 0 else d

mutual

/-- What equality and hash read of a value, written as it is: a number keeps its type, an
edge reference its ends, a map the order of its entries. -/
def written : Value → Value
  | .double d => .double (canonicalDouble d)
  | .vertex v => .vertexRef v.id
  | .edgeKey k => .edgeKey ⟨k.id, k.src_id, k.dst_id, 0, 0⟩
  | .edge e => .edge ⟨e.id, 0, 0, 0, 0, none, false⟩
  | .dateTime tv => .dateTime (canonicalDateTime tv)
  | .time tv => .time (canonicalTime tv)
  | .list elements => .list (writtenElements elements)
  | .path elements => .path (writtenElements elements)
  | .map entries => .map (writtenEntries entries)
  | v => v

def writtenElements : List Value → List Value
  | [] => []
  | v :: rest => written v :: writtenElements rest

def writtenEntries : List (Bytes × Value) → List (Bytes × Value)
  | [] => []
  | (key, v) :: rest => (key, written v) :: writtenEntries rest

end

lemma writtenElements_eq (elements : List Value) : writtenElements elements = elements.map written := by
  induction elements with
  | nil => rfl
  | cons v rest ih => simp [writtenElements, ih]

lemma writtenEntries_eq (entries : List (Bytes × Value)) :
    writtenEntries entries = entries.map fun entry => (entry.1, written entry.2) := by
  induction entries with
  | nil => rfl
  | cons entry rest ih => simp [writtenEntries, ih]

/-! ### Induction over values -/

section Induction

variable {P : Value → Prop} (leaf : ∀ v, isContainer v = false → P v)
  (list : ∀ elements, (∀ v ∈ elements, P v) → P (.list elements))
  (path : ∀ elements, (∀ v ∈ elements, P v) → P (.path elements))
  (map : ∀ entries : List (Bytes × Value), (∀ entry ∈ entries, P entry.2) → P (.map entries))

include leaf list path map

/-- A container's contents are covered by the hypothesis of its case. -/
theorem Value.inductionOn (v : Value) : P v := by
  refine Value.rec (motive_1 := P) (motive_2 := fun elements => ∀ v ∈ elements, P v)
    (motive_3 := fun entries => ∀ entry ∈ entries, P entry.2) (motive_4 := fun entry => P entry.2)
    ?_ ?_ ?_ ?_ ?_ ?_ ?_ ?_ ?_ ?_ ?_ ?_ ?_ ?_ ?_ ?_ ?_ ?_ ?_ ?_ ?_ ?_ v
  all_goals first
    | exact list
    | exact path
    | exact map
    | (intros; exact leaf _ rfl)
    | skip
  · exact fun v hv => absurd hv not_mem_nil
  · intro head tail ihHead ihTail v hv
    rcases mem_cons.mp hv with rfl | hv
    · exact ihHead
    · exact ihTail v hv
  · exact fun entry hentry => absurd hentry not_mem_nil
  · intro head tail ihHead ihTail entry hentry
    rcases mem_cons.mp hentry with rfl | hentry
    · exact ihHead
    · exact ihTail entry hentry
  · exact fun _ _ ih => ih

end Induction

/-! ### Equality of numbers and temporals -/

lemma canonicalDouble_eq_iff (a b : DoubleBits) :
    canonicalDouble a = canonicalDouble b ↔ rank a = rank b := by
  have hinj (x y : DoubleBits) (hx : rank x ≠ 0)
      (hxy : rank x = rank y) : x = y := by
    simp only [rank, magnitude, negative, decide_eq_true_eq] at hx hxy
    apply UInt64.toNat_inj.mp
    have := x.toNat_lt
    have := y.toNat_lt
    split_ifs at hx hxy <;> omega
  have hzero : rank 0 = 0 := by decide
  constructor
  · intro h
    by_cases ha : rank a = 0 <;> by_cases hb : rank b = 0
    · rw [ha, hb]
    · rw [canonicalDouble, if_pos ha, canonicalDouble, if_neg hb] at h
      exact absurd (h ▸ hzero) hb
    · rw [canonicalDouble, if_neg ha, canonicalDouble, if_pos hb] at h
      exact absurd (h ▸ hzero) ha
    · rw [canonicalDouble, if_neg ha, canonicalDouble, if_neg hb] at h
      rw [h]
  · intro h
    by_cases ha : rank a = 0
    · rw [canonicalDouble, if_pos ha, canonicalDouble, if_pos (h ▸ ha)]
    · rw [hinj a b ha h]

@[simp] lemma rank_canonicalDouble (d : DoubleBits) : rank (canonicalDouble d) = rank d := by
  unfold canonicalDouble
  split
  next hzero => rw [hzero]; decide
  next => rfl

@[simp] lemma isNaN_canonicalDouble (d : DoubleBits) : isNaN (canonicalDouble d) = isNaN d := by
  unfold canonicalDouble
  split
  next hzero =>
    have hmagnitude : magnitude d = 0 := by
      unfold rank at hzero
      split at hzero <;> omega
    simp only [isNaN, hmagnitude]
    decide
  next => rfl

lemma equal_canonicalDouble (a b : DoubleBits) :
    equal (canonicalDouble a) b = equal a b ∧ equal a (canonicalDouble b) = equal a b := by
  simp [equal]

@[simp] lemma dateTime_equal_canonical (a b : DateTimeValue) :
    (canonicalDateTime a).equal (canonicalDateTime b) = a.equal b := by
  obtain ⟨_, _, _, _, _, _, _, _, ka, _⟩ := a
  obtain ⟨_, _, _, _, _, _, _, _, kb, _⟩ := b
  cases ka <;> cases kb <;> rfl

@[simp] lemma time_equal_canonical (a b : TimeValue) :
    (canonicalTime a).equal (canonicalTime b) = a.equal b := by
  obtain ⟨_, _, _, _, _, ka, _⟩ := a
  obtain ⟨_, _, _, _, _, kb, _⟩ := b
  cases ka <;> cases kb <;> rfl

lemma dateTime_equal_self (tv : DateTimeValue) : tv.equal tv = true := by
  obtain ⟨_, _, _, _, _, _, _, _, kind, _⟩ := tv
  cases kind <;> simp [DateTimeValue.equal]

lemma time_equal_self (tv : TimeValue) : tv.equal tv = true := by
  obtain ⟨_, _, _, _, _, kind, _⟩ := tv
  cases kind <;> simp [TimeValue.equal]

/-! ### Equality reads the written form -/

variable {a b : Value} {la lb : List Value} {ma mb : List (Bytes × Value)}

lemma isContainer_written (v : Value) : isContainer (written v) = isContainer v := by
  cases v <;> rfl

lemma isNull_written (v : Value) : isNull (written v) = isNull v := by
  cases v <;> rfl

lemma plainEquals_written (ha : isContainer a = false) :
    plainEquals (written a) (written b) = plainEquals a b := by
  cases a <;> cases b <;>
    simp_all [isContainer, plainEquals, entity, sameAlternativeEquals, written, equal_canonicalDouble]

lemma valueEquals_leaf (ha : isContainer a = false) :
    valueEquals a b = if isNull a || isNull b then none else some (plainEquals a b) := by
  cases a <;> simp_all [isContainer, valueEquals]

lemma valueContentEquals_leaf (ha : isContainer a = false) :
    valueContentEquals a b = if isNull a || isNull b then isNull a && isNull b else plainEquals a b := by
  cases a <;> cases b <;> simp_all [isContainer, valueContentEquals, isNull]

lemma elementsEqual_written (ih : ∀ a ∈ la, ∀ b, valueEquals (written a) (written b) = valueEquals a b) :
    elementsEqual (la.map written) (lb.map written) = elementsEqual la lb := by
  induction la generalizing lb with
  | nil => simp [elementsEqual]
  | cons a la ihtail =>
    cases lb with
    | nil => simp [elementsEqual]
    | cons b lb =>
      rw [map_cons, map_cons, elementsEqual, elementsEqual, ih a mem_cons_self b,
        ihtail fun a ha => ih a (mem_cons_of_mem _ ha)]

lemma entriesEqual_written
    (ih : ∀ entry ∈ ma, ∀ b, valueEquals (written entry.2) (written b) = valueEquals entry.2 b) :
    entriesEqual (ma.map fun entry => (entry.1, written entry.2)) (mb.map fun entry => (entry.1, written entry.2)) =
      entriesEqual ma mb := by
  induction ma with
  | nil => simp [entriesEqual]
  | cons entry ma ihtail =>
    rw [map_cons, entriesEqual, entriesEqual, ihtail fun e he => ih e (mem_cons_of_mem _ he), find?_map]
    have hfind : mb.find? ((fun e : Bytes × Value => decide (e.1 = entry.1)) ∘ fun e => (e.1, written e.2)) =
        mb.find? fun e => decide (e.1 = entry.1) := rfl
    rw [hfind]
    cases mb.find? fun e => decide (e.1 = entry.1) with
    | none => rfl
    | some other => simp [ih entry mem_cons_self other.2]

theorem valueEquals_written (a : Value) : ∀ b, valueEquals (written a) (written b) = valueEquals a b := by
  induction a using Value.inductionOn with
  | leaf a hleaf =>
    intro b
    rw [valueEquals_leaf hleaf, valueEquals_leaf (by rw [isContainer_written, hleaf]), plainEquals_written hleaf,
      isNull_written, isNull_written]
  | list la ih =>
    intro b
    cases b with
    | list lb => simp [written, valueEquals, writtenElements_eq, elementsEqual_written ih]
    | _ => simp [written, valueEquals, isNull, plainEquals, entity, sameAlternativeEquals]
  | path pa ih =>
    intro b
    cases b with
    | path pb => simp [written, valueEquals, writtenElements_eq, elementsEqual_written ih]
    | _ => simp [written, valueEquals, isNull, plainEquals, entity, sameAlternativeEquals]
  | map ma ih =>
    intro b
    cases b with
    | map mb => simp [written, valueEquals, writtenEntries_eq, entriesEqual_written ih]
    | _ => simp [written, valueEquals, isNull, plainEquals, entity, sameAlternativeEquals]

lemma elementsContentEqual_written
    (ih : ∀ a ∈ la, ∀ b, valueContentEquals (written a) (written b) = valueContentEquals a b) :
    elementsContentEqual (la.map written) (lb.map written) = elementsContentEqual la lb := by
  induction la generalizing lb with
  | nil => simp [elementsContentEqual]
  | cons a la ihtail =>
    cases lb with
    | nil => simp [elementsContentEqual]
    | cons b lb =>
      rw [map_cons, map_cons, elementsContentEqual, elementsContentEqual, ih a mem_cons_self b,
        ihtail fun a ha => ih a (mem_cons_of_mem _ ha)]

lemma entriesFound_written
    (ih : ∀ entry ∈ ma, ∀ b, valueContentEquals (written entry.2) (written b) = valueContentEquals entry.2 b) :
    entriesFound (ma.map fun entry => (entry.1, written entry.2)) (mb.map fun entry => (entry.1, written entry.2)) =
      entriesFound ma mb := by
  induction ma with
  | nil => simp [entriesFound]
  | cons entry ma ihtail =>
    rw [map_cons, entriesFound, entriesFound, ihtail fun e he => ih e (mem_cons_of_mem _ he), any_map]
    congr 1
    exact congrArg mb.any (funext fun other => by simp [ih entry mem_cons_self other.2])

theorem valueContentEquals_written (a : Value) :
    ∀ b, valueContentEquals (written a) (written b) = valueContentEquals a b := by
  induction a using Value.inductionOn with
  | leaf a hleaf =>
    intro b
    rw [valueContentEquals_leaf hleaf, valueContentEquals_leaf (by rw [isContainer_written, hleaf]),
      plainEquals_written hleaf, isNull_written, isNull_written]
  | list la ih =>
    intro b
    cases b with
    | list lb => simp [written, valueContentEquals, writtenElements_eq, elementsContentEqual_written ih]
    | _ => simp [written, valueContentEquals, isNull, plainEquals, entity, sameAlternativeEquals]
  | path pa ih =>
    intro b
    cases b with
    | path pb => simp [written, valueContentEquals, writtenElements_eq, elementsContentEqual_written ih]
    | _ => simp [written, valueContentEquals, isNull, plainEquals, entity, sameAlternativeEquals]
  | map ma ih =>
    intro b
    cases b with
    | map mb => simp [written, valueContentEquals, writtenEntries_eq, entriesFound_written ih]
    | _ => simp [written, valueContentEquals, isNull, plainEquals, entity, sameAlternativeEquals]

/-! ### What equals itself -/

lemma elementsContentEqual_self (h : ∀ v ∈ la, valueContentEquals v v = true) :
    elementsContentEqual la la = true := by
  induction la with
  | nil => rfl
  | cons v la ih =>
    rw [elementsContentEqual, h v mem_cons_self, ih fun v hv => h v (mem_cons_of_mem _ hv)]
    rfl

lemma entriesFound_iff (ma mb : List (Bytes × Value)) : entriesFound ma mb = true ↔ ∀ entry ∈ ma, ∃ other ∈ mb,
        entry.1 = other.1 ∧ valueContentEquals entry.2 other.2 = true := by
  induction ma with
  | nil => simp [entriesFound]
  | cons entry rest ih =>
    simp only [entriesFound, and_eq_true, ih, any_eq_true, decide_eq_true_eq, mem_cons, forall_eq_or_imp]

/-- A value without NaN has the content of itself. -/
theorem valueContentEquals_self (v : Value) (h : nanFree v = true) : valueContentEquals v v = true := by
  induction v using Value.inductionOn with
  | leaf v hleaf =>
    cases v <;> simp_all [isContainer, valueContentEquals, isNull, plainEquals, entity, sameAlternativeEquals,
      nanFree, equal, dateTime_equal_self, time_equal_self]
  | list elements ih =>
    have hall := (nanFreeElements_iff elements).mp h
    simpa [valueContentEquals] using elementsContentEqual_self fun v hv => ih v hv (hall v hv)
  | path elements ih =>
    have hall := (nanFreeElements_iff elements).mp h
    simpa [valueContentEquals] using elementsContentEqual_self fun v hv => ih v hv (hall v hv)
  | map entries ih =>
    have hall := (nanFreeEntries_iff entries).mp h
    have hfound : entriesFound entries entries = true := by
      rw [entriesFound_iff]
      exact fun entry hentry => ⟨entry, hentry, rfl, ih entry hentry (hall entry hentry)⟩
    simpa [valueContentEquals] using hfound

mutual

/-- No null and no NaN in the value, and in its maps each value under a repeated key
equals the first one under it. -/
def joinsItself : Value → Bool
  | .null => false
  | .double d => !isNaN d
  | .list elements => elementsJoin elements
  | .path elements => elementsJoin elements
  | .map entries => entriesJoin [] entries
  | _ => true

def elementsJoin : List Value → Bool
  | [] => true
  | v :: rest => joinsItself v && elementsJoin rest

/-- The first list are the entries before those of the second. -/
def entriesJoin (before : List (Bytes × Value)) : List (Bytes × Value) → Bool
  | [] => true
  | (key, v) :: rest =>
    (match before.find? (·.1 = key) with
      | some (_, first) => valueEquals v first = some true
      | none => joinsItself v) && entriesJoin (before ++ [(key, v)]) rest

end

lemma conclude_eq_true (x y : Option Bool) : conclude x y = some true ↔ x = some true ∧ y = some true := by
  rcases x with _ | _ | _ <;> rcases y with _ | _ | _ <;> simp [conclude]

lemma elementsEqual_self (ih : ∀ v ∈ la, joinsItself v = true ↔ valueEquals v v = some true) :
    elementsJoin la = true ↔ elementsEqual la la = some true := by
  induction la with
  | nil => simp [elementsJoin, elementsEqual]
  | cons v la ihtail =>
    rw [elementsJoin, elementsEqual, conclude_eq_true, and_eq_true, ih v mem_cons_self,
      ihtail fun v hv => ih v (mem_cons_of_mem _ hv)]

/-- A lookup stops at the first entry under the key, which is this one if none before has
its key. -/
theorem entriesEqual_self (before : List (Bytes × Value))
    (ih : ∀ entry ∈ ma, joinsItself entry.2 = true ↔ valueEquals entry.2 entry.2 = some true) :
    entriesJoin before ma = true ↔ entriesEqual ma (before ++ ma) = some true := by
  induction ma generalizing before with
  | nil => simp [entriesJoin, entriesEqual]
  | cons entry ma ihtail =>
    have hrest := ihtail (before ++ [entry]) fun e he => ih e (mem_cons_of_mem _ he)
    rw [append_assoc, singleton_append] at hrest
    rw [entriesJoin, entriesEqual, conclude_eq_true, and_eq_true, hrest, find?_append]
    cases before.find? fun e => decide (e.1 = entry.1) with
    | some other => simp
    | none => simp [ih entry mem_cons_self]

theorem joinsItself_iff (v : Value) : joinsItself v = true ↔ valueEquals v v = some true := by
  induction v using Value.inductionOn with
  | leaf v hleaf =>
    cases v <;> simp_all [isContainer, joinsItself, valueEquals, isNull, plainEquals, entity, sameAlternativeEquals,
      equal, dateTime_equal_self, time_equal_self]
  | list elements ih => simpa [joinsItself, valueEquals] using elementsEqual_self ih
  | path elements ih => simpa [joinsItself, valueEquals] using elementsEqual_self ih
  | map entries ih => simpa [joinsItself, valueEquals] using entriesEqual_self [] ih

/-! ### The equality of the hash join -/

/-- `joinValueEquals`: entities by identity, everything else by a definite `valueEquals`. -/
def joinValueEquals (a b : Value) : Bool :=
  match entity a, entity b with
  | some (kind_a, id_a), some (kind_b, id_b) =>
    if kind_a = kind_b then id_a = id_b else valueEquals a b = some true
  | _, _ => valueEquals a b = some true

/-- The equality of the join is a definite Cypher equality; a null is equal to nothing. -/
theorem joinValueEquals_iff (a b : Value) : joinValueEquals a b = true ↔ valueEquals a b = some true := by
  unfold joinValueEquals
  split
  next kind_a id_a kind_b id_b hea heb =>
    have hleaf : isContainer a = false := by
      cases a <;> simp_all [entity, isContainer]
    have hnull : isNull a = false := by
      cases a <;> simp_all [entity, isNull]
    have hnull' : isNull b = false := by
      cases b <;> simp_all [entity, isNull]
    split
    next hkind =>
      have hplain : plainEquals a b = decide (id_a = id_b) := by
        unfold plainEquals
        simp [hea, heb, hkind]
      rw [valueEquals_leaf hleaf, hnull, hnull', hplain]
      simp
    next => simp
  next => simp

theorem joinValueEquals_written (a b : Value) : joinValueEquals (written a) (written b) = joinValueEquals a b := by
  rw [Bool.eq_iff_iff, joinValueEquals_iff, joinValueEquals_iff, valueEquals_written]

/-! ### The hash reads the written form -/

section Hash

variable {std : StdHash}

/-- `std::hash<double>` hashes equal numbers alike. -/
def HashesDoubles (std : StdHash) : Prop :=
  ∀ a b, equal a b = true → std.double a = std.double b

lemma hash_canonicalDouble (hstd : HashesDoubles std) (d : DoubleBits) :
    std.double (canonicalDouble d) = std.double d := by
  unfold canonicalDouble
  split
  next hzero =>
    refine hstd _ _ ?_
    have hnan := isNaN_canonicalDouble d
    rw [canonicalDouble, if_pos hzero] at hnan
    simp [equal, ← hnan, hzero]
    decide
  next => rfl

lemma elementsHash_written (h : UInt64) (elements : List Value)
    (ih : ∀ v ∈ elements, valueHash std (written v) = valueHash std v) :
    elementsHash std h (elements.map written) = elementsHash std h elements := by
  induction elements generalizing h with
  | nil => rfl
  | cons v rest ihtail =>
    rw [map_cons, elementsHash, elementsHash, ih v mem_cons_self]
    exact ihtail _ fun v hmem => ih v (mem_cons_of_mem _ hmem)

lemma entriesHash_written (h : UInt64) (entries : List (Bytes × Value))
    (ih : ∀ entry ∈ entries, valueHash std (written entry.2) = valueHash std entry.2) :
    entriesHash std h (entries.map fun entry => (entry.1, written entry.2)) = entriesHash std h entries := by
  induction entries generalizing h with
  | nil => rfl
  | cons entry rest ihtail =>
    rw [map_cons, entriesHash, entriesHash, ih entry mem_cons_self]
    exact ihtail _ fun v hmem => ih v (mem_cons_of_mem _ hmem)

/-- The hash reads no more of a value than its written form keeps. -/
theorem valueHash_written (hstd : HashesDoubles std) (v : Value) : valueHash std (written v) = valueHash std v := by
  induction v using Value.inductionOn with
  | leaf v hleaf =>
    cases v with
    | double d => exact hash_canonicalDouble hstd d
    | list => simp [isContainer] at hleaf
    | path => simp [isContainer] at hleaf
    | map => simp [isContainer] at hleaf
    | _ => simp [written, valueHash]
  | list elements ih =>
    rw [written, writtenElements_eq]
    exact elementsHash_written 0 elements ih
  | path elements ih =>
    rw [written, writtenElements_eq]
    exact elementsHash_written 0 elements ih
  | map entries ih =>
    rw [written, writtenEntries_eq]
    exact entriesHash_written 0 entries ih

end Hash

/-! ### Hash containers -/

section Containers

variable (std : StdHash) (eq : Value → Value → Bool)

/-- Insertion into a container that looks a key up by hash, then by equality. -/
def insertKey (keys : List Value) (v : Value) : List Value :=
  if keys.any fun k => valueHash std k = valueHash std v && eq k v then keys else keys ++ [v]

def containerKeys (vs : List Value) : List Value := vs.foldl (insertKey std eq) []

/-- What a hash container needs of its equality and its hash on the keys `K`, and what it
then gives: of the keys inserted, exactly one stored key is equal to each. -/
structure Agree (K : Set Value) : Prop where
  refl : ∀ a ∈ K, eq a a = true
  symm : ∀ a ∈ K, ∀ b ∈ K, eq a b = true → eq b a = true
  trans : ∀ a ∈ K, ∀ b ∈ K, ∀ c ∈ K, eq a b = true → eq b c = true → eq a c = true
  hash : ∀ a ∈ K, ∀ b ∈ K, eq a b = true → valueHash std a = valueHash std b
  once : ∀ vs : List Value, (∀ v ∈ vs, v ∈ K) →
    ∀ v ∈ vs, (containerKeys std eq vs).countP (eq · v) = 1

variable {std eq}

lemma countP_eq_one {p : Value → Bool} {keys : List Value}
    (hapart : keys.Pairwise fun k m => ¬ (p k = true ∧ p m = true))
    (hstored : ∃ k ∈ keys, p k = true) : keys.countP p = 1 := by
  induction keys with
  | nil => simp at hstored
  | cons k rest ih =>
    obtain ⟨hhead, htail⟩ := pairwise_cons.mp hapart
    by_cases hk : p k = true
    · have hrest : rest.countP p = 0 := by
        rw [countP_eq_zero]
        exact fun m hm hpm => hhead m hm ⟨hk, hpm⟩
      rw [countP_cons, hrest, if_pos hk]
    · obtain ⟨m, hm, hpm⟩ := hstored
      have hlater : ∃ m ∈ rest, p m = true := by
        rcases mem_cons.mp hm with rfl | hm
        · exact absurd hpm hk
        · exact ⟨m, hm, hpm⟩
      rw [countP_cons, if_neg hk, ih htail hlater]

/-- The stored keys are inserted keys, no two of them equal, and every inserted key has
one equal to it. -/
theorem containerKeys_spec {K : Set Value} (hrefl : ∀ a ∈ K, eq a a = true)
    (hhash : ∀ a ∈ K, ∀ b ∈ K, eq a b = true → valueHash std a = valueHash std b)
    (vs : List Value) (hvs : ∀ v ∈ vs, v ∈ K) :
    (∀ k ∈ containerKeys std eq vs, k ∈ K) ∧ (containerKeys std eq vs).Pairwise (fun k m => eq k m = false) ∧
      ∀ v ∈ vs, ∃ k ∈ containerKeys std eq vs, eq k v = true := by
  induction vs using reverseRecOn with
  | nil => simp [containerKeys]
  | append_singleton vs v ih =>
    obtain ⟨hin, hapart, hcover⟩ := ih fun w hw => hvs w (by simp [hw])
    have hv : v ∈ K := hvs v (by simp)
    have hstep : containerKeys std eq (vs ++ [v]) = insertKey std eq (containerKeys std eq vs) v := by
      simp [containerKeys]
    rw [hstep, insertKey]
    split
    next hfound =>
      -- the lookup found a key equal to `v`
      obtain ⟨k, hk, hmatch⟩ := any_eq_true.mp hfound
      simp only [and_eq_true, decide_eq_true_eq] at hmatch
      refine ⟨hin, hapart, fun w hw => ?_⟩
      rcases mem_append.mp hw with hw | hw
      · exact hcover w hw
      · exact ⟨k, hk, by rw [mem_singleton.mp hw]; exact hmatch.2⟩
    next hmissed =>
      have hnew : ∀ k ∈ containerKeys std eq vs, eq k v = false := by
        intro k hk
        by_contra hkv
        have hkv : eq k v = true := by simpa using hkv
        apply hmissed
        exact any_eq_true.mpr ⟨k, hk, by simp [hkv, hhash k (hin k hk) v hv hkv]⟩
      refine ⟨?_, ?_, ?_⟩
      · intro k hk
        rcases mem_append.mp hk with hk | hk
        · exact hin k hk
        · exact mem_singleton.mp hk ▸ hv
      · rw [pairwise_append]
        exact ⟨hapart, pairwise_singleton _ _, fun k hk m hm => mem_singleton.mp hm ▸ hnew k hk⟩
      · intro w hw
        rcases mem_append.mp hw with hw | hw
        · obtain ⟨k, hk, hkw⟩ := hcover w hw
          exact ⟨k, mem_append_left _ hk, hkw⟩
        · exact ⟨v, by simp, mem_singleton.mp hw ▸ hrefl v hv⟩

/-- An equivalence that the hash respects stores each class once. -/
theorem Agree.of_equivalence {K : Set Value} (hrefl : ∀ a ∈ K, eq a a = true)
    (hsymm : ∀ a ∈ K, ∀ b ∈ K, eq a b = true → eq b a = true)
    (htrans : ∀ a ∈ K, ∀ b ∈ K, ∀ c ∈ K, eq a b = true → eq b c = true → eq a c = true)
    (hhash : ∀ a ∈ K, ∀ b ∈ K, eq a b = true → valueHash std a = valueHash std b) :
    Agree std eq K := by
  refine ⟨hrefl, hsymm, htrans, hhash, fun vs hvs v hv => ?_⟩
  obtain ⟨hin, hapart, hcover⟩ := containerKeys_spec hrefl hhash vs hvs
  have hv' : v ∈ K := hvs v hv
  apply countP_eq_one _ (hcover v hv)
  apply hapart.imp_of_mem
  intro k m hk hm hne hboth
  have hkm := htrans k (hin k hk) v hv' m (hin m hm) hboth.1 (hsymm m (hin m hm) v hv' hboth.2)
  rw [hkm] at hne
  exact Bool.noConfusion hne

end Containers

/-! ### Keys written alike -/

section Keys

variable (std : StdHash) (eq : Value → Value → Bool) (K : Set Value)

/-- Any two keys that are equal have one written form. -/
def EqualKeysWrittenAlike : Prop := ∀ a ∈ K, ∀ b ∈ K, eq a b = true → written a = written b

/-- No two equal keys of different written forms have one hash by accident. -/
def TellsFormsApart : Prop :=
  ∀ a ∈ K, ∀ b ∈ K, eq a b = true → valueHash std a = valueHash std b → written a = written b

variable {std eq K}

/-- An equality that reads the written forms, on keys that equal themselves. -/
theorem Agree.of_writtenAlike (hstd : HashesDoubles std) (hread : ∀ a b, eq (written a) (written b) = eq a b)
    (hself : ∀ a ∈ K, eq a a = true) (halike : EqualKeysWrittenAlike eq K) : Agree std eq K := by
  have hequal : ∀ a ∈ K, ∀ b, written a = written b → eq a b = true := by
    intro a ha b hwritten
    rw [← hread, ← hwritten, hread]
    exact hself a ha
  apply Agree.of_equivalence hself
  · exact fun a ha b hb h => hequal b hb a (halike a ha b hb h).symm
  · exact fun a ha b hb c hc hab hbc => hequal a ha c ((halike a ha b hb hab).trans (halike b hb c hc hbc))
  · intro a ha b hb h
    rw [← valueHash_written hstd a, halike a ha b hb h, valueHash_written hstd b]

lemma Agree.writtenAlike (h : Agree std eq K) (hapart : TellsFormsApart std eq K) : EqualKeysWrittenAlike eq K :=
  fun a ha b hb heq => hapart a ha b hb heq (h.hash a ha b hb heq)

end Keys

/-- On values without NaN, the equality of grouping is an equivalence relation that the
hash respects if any two equal keys have one written form; the equality of joins if,
besides, each key equals itself.  Where no two equal keys written differently share a
hash, only then. -/
theorem hash_and_equality_agree (std : StdHash) (hstd : HashesDoubles std) (K : Set Value)
    (hnan : ∀ v ∈ K, nanFree v = true) :
    (EqualKeysWrittenAlike valueContentEquals K → Agree std valueContentEquals K) ∧
    (TellsFormsApart std valueContentEquals K → Agree std valueContentEquals K →
      EqualKeysWrittenAlike valueContentEquals K) ∧
    ((∀ v ∈ K, joinsItself v = true) ∧ EqualKeysWrittenAlike joinValueEquals K → Agree std joinValueEquals K) ∧
    (TellsFormsApart std joinValueEquals K → Agree std joinValueEquals K →
      (∀ v ∈ K, joinsItself v = true) ∧ EqualKeysWrittenAlike joinValueEquals K) := by
  have hself (v : Value) : joinsItself v = true ↔ joinValueEquals v v = true := by
    rw [joinsItself_iff, joinValueEquals_iff]
  refine ⟨?_, ?_, ?_, ?_⟩
  · exact Agree.of_writtenAlike hstd valueContentEquals_written fun a ha => valueContentEquals_self a (hnan a ha)
  · exact fun hapart h => h.writtenAlike hapart
  · exact fun h => Agree.of_writtenAlike hstd joinValueEquals_written (fun a ha => (hself a).mp (h.1 a ha)) h.2
  · exact fun hapart h => ⟨fun v hv => (hself v).mpr (h.refl v hv), h.writtenAlike hapart⟩

lemma identityHash_hashesDoubles : HashesDoubles identityHash := by
  intro a b h
  simp only [equal, and_eq_true, decide_eq_true_eq] at h
  exact (canonicalDouble_eq_iff a b).mpr h.2

/-- A vertex in both forms and two lists of integers that round to one double, the second
numbers of which are written differently. -/
def alikeKeys : List Value :=
  [.vertexRef 7, .vertex ⟨7, [], none, false⟩, .list [.int64 9007199254740992, .int64 1],
    .list [.int64 9007199254740993, .double 0x3ff0000000000000]]

/-- A map that lists a key twice has the content of itself, and does not join itself. -/
def twiceKey : Value := .map [([0x61], .int64 1), ([0x61], .int64 2)]

theorem hash_and_equality_agree_on_alikeKeys :
    Agree identityHash valueContentEquals {v | v ∈ twiceKey :: alikeKeys} ∧
      Agree identityHash joinValueEquals {v | v ∈ alikeKeys} := by
  have hcontent := hash_and_equality_agree identityHash identityHash_hashesDoubles {v | v ∈ twiceKey :: alikeKeys}
    fun v hv => (by decide : ∀ v ∈ twiceKey :: alikeKeys, nanFree v = true) v hv
  have hjoin := hash_and_equality_agree identityHash identityHash_hashesDoubles {v | v ∈ alikeKeys}
    fun v hv => (by decide : ∀ v ∈ alikeKeys, nanFree v = true) v hv
  refine ⟨hcontent.1 ?_, hjoin.2.2.1 ⟨fun v hv => (by decide : ∀ v ∈ alikeKeys, joinsItself v = true) v hv, ?_⟩⟩
  · intro a ha b hb
    simp only [alikeKeys, Set.mem_ofPred_eq, mem_cons, mem_nil_iff] at ha hb
    rcases ha with rfl | rfl | rfl | rfl | rfl | hnone <;> rcases hb with rfl | rfl | rfl | rfl | rfl | hnone <;>
      first
        | exact hnone.elim
        | exact fun _ => rfl
        | exact fun h => absurd h (by decide)
  · intro a ha b hb
    simp only [alikeKeys, Set.mem_ofPred_eq, mem_cons, mem_nil_iff] at ha hb
    rcases ha with rfl | rfl | rfl | rfl | hnone <;> rcases hb with rfl | rfl | rfl | rfl | hnone <;>
      first
        | exact hnone.elim
        | exact fun _ => rfl
        | exact fun h => absurd h (by decide)

/-- The integers 2^53 and 2^53 + 1 and the double 2^53. -/
def roundedKeys : List Value :=
  [.int64 9007199254740992, .double 0x4340000000000000, .int64 9007199254740993]

/-- Both integers equal the double and not each other. -/
theorem equality_not_transitive : (∀ v ∈ roundedKeys, nanFree v = true) ∧
      ¬ Agree identityHash valueContentEquals {v | v ∈ roundedKeys} := by
  refine ⟨by decide, fun hagree => ?_⟩
  have htrans := hagree.trans (.int64 9007199254740992) (by simp [roundedKeys])
    (.double 0x4340000000000000) (by simp [roundedKeys])
    (.int64 9007199254740993) (by simp [roundedKeys]) (by decide +kernel) (by decide +kernel)
  revert htrans
  decide +kernel

end Eugraph.Dataset
