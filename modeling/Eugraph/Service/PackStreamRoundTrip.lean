import Eugraph.Service.PackStream

/-!
# PackStream: round trip, truncation and arbitrary input

The decoder takes exactly the bytes the encoder writes for a value and raises on every
strict prefix of them; on any buffer at all it returns or raises `DecodeError`, without a
memory read behind the end.

Both inductions are on the fuel, not on the value: a nested value is written in fewer
bytes than the one around it, and is read from a shorter buffer.
-/

namespace Eugraph.PackStream

open Lib KeyCodec marker List Nat
open IndexKeyCodec (u64BE toNat_lt_word)
open Lib.Reader (many Codes Confined Refines)

/-- Sizes below `2 ^ 32`, and distinct keys in a dictionary. -/
inductive Fits : Value → Prop
  | null : Fits .null
  | bool (b : Bool) : Fits (.bool b)
  | int (i : Int64) : Fits (.int i)
  | float (bits : DoubleBits) : Fits (.float bits)
  | string {s : Bytes} (hsize : s.length < 2 ^ 32) : Fits (.string s)
  | bytes {bs : Bytes} (hsize : bs.length < 2 ^ 32) : Fits (.bytes bs)
  | list {xs : List Value} (hsize : xs.length < 2 ^ 32) (h : ∀ x ∈ xs, Fits x) : Fits (.list xs)
  | dict {entries : List (Bytes × Value)} (hsize : entries.length < 2 ^ 32)
      (hkeys : (entries.map Prod.fst).Nodup) (hkey : ∀ e ∈ entries, e.1.length < 2 ^ 32)
      (h : ∀ e ∈ entries, Fits e.2) : Fits (.dict entries)
  | struct {fields : List Value} (tag : UInt8) (hsize : fields.length < 2 ^ 32)
      (h : ∀ x ∈ fields, Fits x) : Fits (.struct tag fields)

/-! ### Primitive reads -/

lemma codes_readByte (b : UInt8) : Codes readByte [b] b where
  takes := fun _ => rfl
  rejects := by
    intro part hpart hne
    rcases prefix_cons_iff.mp hpart with rfl | ⟨tail, rfl, htail⟩
    · exact ⟨unexpectedEnd, rfl⟩
    · exact absurd (by rw [prefix_nil.mp htail]) hne

lemma codes_uint {width n : Nat} (hn : n < 256 ^ width) : Codes (readUint width) (wordBytes width n) n := by
  have hbytes : Codes (many readByte (wordBytes width n).length)
      ((wordBytes width n).flatMap fun b => [b]) (wordBytes width n) :=
    Codes.many fun b _ => codes_readByte b
  have h := hbytes.map wordValue
  rw [flatMap_singleton', length_wordBytes, wordValue_wordBytes hn] at h
  exact h

lemma run_readSlice (what : String) {len : Nat} {data : Bytes} (h : len ≤ data.length) :
    (readSlice what len).run data = .ok (data.take len, data.drop len) := by
  show (if data.length < len then throw (.decodeError (what ++ ": unexpected end of data"))
    else slice len : Reader Fault Bytes).run data = _
  rw [if_neg (not_lt.mpr h)]
  exact if_pos h

lemma run_readSlice_short (what : String) {len : Nat} {data : Bytes} (h : data.length < len) :
    (readSlice what len).run data = .error (.decodeError (what ++ ": unexpected end of data")) := by
  show (if data.length < len then throw (.decodeError (what ++ ": unexpected end of data"))
    else slice len : Reader Fault Bytes).run data = _
  rw [if_pos h]
  rfl

lemma codes_slice (what : String) (s : Bytes) : Codes (readSlice what s.length) s s where
  takes := by
    intro rest
    have hle : s.length ≤ (s ++ rest).length := by
      rw [length_append]
      omega
    rw [run_readSlice what hle, take_left, drop_left]
  rejects := by
    intro part hpart hne
    have hlt := lt_of_le_of_ne hpart.length_le (fun heq => hne (hpart.eq_of_length heq))
    exact ⟨_, run_readSlice_short what hlt⟩

/-! ### A marker and what follows it -/

/-- The bytes are a marker and a rest that the branch of the marker takes as `v`. -/
def Marked (d : Reader Fault Value) (written : Bytes) (v : Value) : Prop :=
  ∃ mark tail, written = mark :: tail ∧ Codes (decodeMarked d mark) tail v

lemma codes_within {fuel : Nat} {written : Bytes} {v : Value}
    (h : Marked (decodeWithin fuel) written v) : Codes (decodeWithin (fuel + 1)) written v := by
  obtain ⟨mark, tail, rfl, hcodes⟩ := h
  constructor
  · intro rest
    exact hcodes.takes rest
  · intro part hpart hne
    rcases prefix_cons_iff.mp hpart with rfl | ⟨tail', rfl, htail⟩
    · exact ⟨unexpectedEnd, rfl⟩
    · exact hcodes.rejects tail' htail fun heq => hne (by rw [heq])

section Sizes

variable {d : Reader Fault Value} (body : Nat → Reader Fault Value) {base m8 m16 m32 : UInt8}
  {count : Nat} {tail : Bytes} {v : Value}

/-- A size of 8, 16 or 32 bits and the body it announces. -/
theorem marked_size (h8 : decodeMarked d m8 = readUint 1 >>= body) (h16 : decodeMarked d m16 = readUint 2 >>= body)
    (h32 : decodeMarked d m32 = readUint 4 >>= body) (hcount : count < 2 ^ 32)
    (hbody : Codes (body count) tail v) : Marked d (writeSize m8 m16 m32 count ++ tail) v := by
  rw [writeSize]
  split
  · next hle =>
      refine ⟨m8, UInt8.ofNat count :: tail, rfl, ?_⟩
      have hword : wordBytes 1 count = [UInt8.ofNat count] := by simp [wordBytes]
      have hread := (codes_uint (show count < 256 ^ 1 by omega)).bind hbody
      rwa [hword, ← h8] at hread
  · split
    · next hle =>
        refine ⟨m16, u16BE (UInt16.ofNat count) ++ tail, rfl, ?_⟩
        have hword : u16BE (UInt16.ofNat count) = wordBytes 2 count := by
          rw [u16BE, UInt16.toNat_ofNat_of_lt' (show count < 2 ^ 16 by omega)]
        rw [hword, h16]
        exact (codes_uint (show count < 256 ^ 2 by omega)).bind hbody
    · refine ⟨m32, u32BE (UInt32.ofNat count) ++ tail, rfl, ?_⟩
      have hword : u32BE (UInt32.ofNat count) = wordBytes 4 count := by
        rw [u32BE, UInt32.toNat_ofNat_of_lt' hcount]
      rw [hword, h32]
      exact (codes_uint (show count < 256 ^ 4 by omega)).bind hbody

lemma marked_tinySize (htiny : ∀ n ≤ 15, decodeMarked d (base ||| UInt8.ofNat n) = body n)
    (h8 : decodeMarked d m8 = readUint 1 >>= body) (h16 : decodeMarked d m16 = readUint 2 >>= body)
    (h32 : decodeMarked d m32 = readUint 4 >>= body) (hcount : count < 2 ^ 32)
    (hbody : Codes (body count) tail v) :
    Marked d (writeTinySize base m8 m16 m32 count ++ tail) v := by
  rw [writeTinySize]
  split
  · next hle =>
      refine ⟨base ||| UInt8.ofNat count, tail, rfl, ?_⟩
      rw [htiny count hle]
      exact hbody
  · exact marked_size body h8 h16 h32 hcount hbody

end Sizes

/-! ### Leaves -/

section Leaves

variable (d : Reader Fault Value)

lemma marked_string {s : Bytes} (hsize : s.length < 2 ^ 32) : Marked d (writeString s) (.string s) := by
  refine marked_tinySize (fun len => do let s ← readSlice "string" len; pure (.string s))
    ?_ rfl rfl rfl hsize ((codes_slice "string" s).map Value.string)
  intro n hn
  interval_cases n <;> rfl

lemma marked_bytes {bs : Bytes} (hsize : bs.length < 2 ^ 32) : Marked d (writeBytes bs) (.bytes bs) :=
  marked_size (fun len => do let bs ← readSlice "bytes" len; pure (.bytes bs))
    rfl rfl rfl hsize ((codes_slice "bytes" bs).map Value.bytes)

/-- A byte as `int8_t`. -/
theorem toInt_toInt8 (b : UInt8) :
    b.toInt8.toInt = if b.toNat < 128 then (b.toNat : Int) else b.toNat - 256 := by
  show b.toBitVec.toInt = _
  rw [BitVec.toInt_eq_toNat_cond]
  show (if 2 * b.toNat < 2 ^ 8 then (b.toNat : Int) else (b.toNat : Int) - ((2 ^ 8 : Nat) : Int)) = _
  split <;> split <;> omega

/-- The marker of a tiny integer is its low byte, whichever way it is cut off. -/
theorem toUInt8_toUInt64 (i : Int64) : i.toUInt64.toUInt8 = i.toInt8.toUInt8 := by
  apply UInt8.toBitVec_inj.mp
  show i.toBitVec.setWidth 8 = i.toBitVec.signExtend 8
  rw [BitVec.signExtend_eq_setWidth_of_le _ (by decide)]

/-- A cast to a narrower width keeps a value in its range. -/
theorem bmod_eq_self {n : Int} {m : Nat} (hlo : -(m : Int) ≤ n) (hhi : n < m) : n.bmod (2 * m) = n := by
  apply Int.bmod_eq_of_le <;> omega

lemma int8_of_range {i : Int64} (h : -128 ≤ i.toInt ∧ i.toInt ≤ 127) : i.toInt8.toInt64 = i := by
  apply Int64.toInt_inj.mp
  rw [Int8.toInt_toInt64, Int64.toInt_toInt8]
  exact bmod_eq_self (m := 128) (by omega) (by omega)

lemma int16_of_range {i : Int64} (h : -32768 ≤ i.toInt ∧ i.toInt ≤ 32767) : i.toInt16.toInt64 = i := by
  apply Int64.toInt_inj.mp
  rw [Int16.toInt_toInt64, Int64.toInt_toInt16]
  exact bmod_eq_self (m := 32768) (by omega) (by omega)

lemma int32_of_range {i : Int64} (h : -2147483648 ≤ i.toInt ∧ i.toInt ≤ 2147483647) : i.toInt32.toInt64 = i := by
  apply Int64.toInt_inj.mp
  rw [Int32.toInt_toInt64, Int64.toInt_toInt32]
  exact bmod_eq_self (m := 2147483648) (by omega) (by omega)

lemma toInt_widen (b : UInt8) : b.toUInt64.toInt64.toInt = b.toNat := by
  have hlt := b.toNat_lt
  have hnat : (b.toUInt64.toBitVec).toNat = b.toNat := UInt8.toNat_toUInt64 b
  show (b.toUInt64.toBitVec).toInt = _
  rw [BitVec.toInt_eq_toNat_cond, if_pos (by omega), hnat]

/-- The low byte of an integer of 8 bits, as a number. -/
theorem lowByte_toNat {i : Int64} (h : -128 ≤ i.toInt ∧ i.toInt ≤ 127) :
    i.toInt = if (i.toUInt64.toUInt8).toNat < 128 then ((i.toUInt64.toUInt8).toNat : Int)
      else (i.toUInt64.toUInt8).toNat - 256 := by
  have hcast := congrArg Int64.toInt (int8_of_range h)
  rw [Int8.toInt_toInt64] at hcast
  rw [← toInt_toInt8, toUInt8_toUInt64, Int8.toInt8_toUInt8, hcast]

lemma lowByte_of_nonneg {i : Int64} (h : 0 ≤ i.toInt ∧ i.toInt ≤ 127) :
    (i.toUInt64.toUInt8).toNat < 128 ∧ ((i.toUInt64.toUInt8).toNat : Int) = i.toInt := by
  have hnat := lowByte_toNat (i := i) (by omega)
  have hlt := i.toUInt64.toUInt8.toNat_lt
  split at hnat
  · omega
  · omega

lemma lowByte_of_neg {i : Int64} (h : -16 ≤ i.toInt ∧ i.toInt ≤ -1) : 240 ≤ (i.toUInt64.toUInt8).toNat := by
  have hnat := lowByte_toNat (i := i) (by omega)
  split at hnat
  · omega
  · omega

lemma decodeMarked_tinyPos {mark : UInt8} (h : mark.toNat < 128) :
    decodeMarked d mark = pure (.int mark.toUInt64.toInt64) := by
  have hne : ∀ b : UInt8, 128 ≤ b.toNat → mark ≠ b := by
    rintro b hb rfl
    omega
  have hle : mark ≤ 0x7F := UInt8.le_iff_toNat_le.mpr (show mark.toNat ≤ 127 by omega)
  rw [decodeMarked, if_neg (hne _ (by decide)), if_neg (hne _ (by decide)),
    if_neg (hne _ (by decide)), if_pos hle]

lemma decodeMarked_tinyNeg {mark : UInt8} (h : 240 ≤ mark.toNat) :
    decodeMarked d mark = pure (.int mark.toInt8.toInt64) := by
  have hne : ∀ b : UInt8, b.toNat < 240 → mark ≠ b := by
    rintro b hb rfl
    omega
  have hnle : ¬ mark ≤ 0x7F := by
    intro hle
    have hle' : mark.toNat ≤ 127 := UInt8.le_iff_toNat_le.mp hle
    omega
  have hle : 0xF0 ≤ mark := UInt8.le_iff_toNat_le.mpr h
  rw [decodeMarked, if_neg (hne _ (by decide)), if_neg (hne _ (by decide)),
    if_neg (hne _ (by decide)), if_neg hnle, if_pos hle]

lemma marked_int (i : Int64) : Marked d (writeInt i) (.int i) := by
  rw [writeInt]
  split
  case isTrue h =>
    -- the marker is the value
    rw [TINY_INT_POS_MIN, TINY_INT_POS_MAX] at h
    obtain ⟨hpos, hnat⟩ := lowByte_of_nonneg h
    refine ⟨_, [], rfl, ?_⟩
    rw [decodeMarked_tinyPos d hpos, Int64.toInt_inj.mp ((toInt_widen _).trans hnat)]
    exact Codes.pure _
  split
  case isTrue h =>
    rw [TINY_INT_MIN, TINY_INT_NEG_MAX] at h
    refine ⟨_, [], rfl, ?_⟩
    rw [decodeMarked_tinyNeg d (lowByte_of_neg h), toUInt8_toUInt64, Int8.toInt8_toUInt8, int8_of_range (by omega)]
    exact Codes.pure _
  split
  case isTrue h =>
    refine ⟨INT_8, [i.toInt8.toUInt8], rfl, ?_⟩
    have hread := (codes_readByte i.toInt8.toUInt8).map fun b => Value.int b.toInt8.toInt64
    rw [Int8.toInt8_toUInt8, int8_of_range h] at hread
    exact hread
  split
  case isTrue h =>
    refine ⟨INT_16, u16BE i.toInt16.toUInt16, rfl, ?_⟩
    have hread := (codes_uint (show i.toInt16.toUInt16.toNat < 256 ^ 2 from UInt16.toNat_lt _)).map
      fun v => Value.int (UInt16.ofNat v).toInt16.toInt64
    rw [UInt16.ofNat_toNat, Int16.toInt16_toUInt16, int16_of_range h] at hread
    exact hread
  split
  case isTrue h =>
    refine ⟨INT_32, u32BE i.toInt32.toUInt32, rfl, ?_⟩
    have hread := (codes_uint (show i.toInt32.toUInt32.toNat < 256 ^ 4 from UInt32.toNat_lt _)).map
      fun v => Value.int (UInt32.ofNat v).toInt32.toInt64
    rw [UInt32.ofNat_toNat, Int32.toInt32_toUInt32, int32_of_range h] at hread
    exact hread
  case isFalse =>
    refine ⟨INT_64, u64BE i.toUInt64, rfl, ?_⟩
    have hread := (codes_uint (toNat_lt_word i.toUInt64)).map fun v => Value.int (UInt64.ofNat v).toInt64
    rw [UInt64.ofNat_toNat, Int64.toInt64_toUInt64] at hread
    exact hread

lemma marked_float (bits : DoubleBits) : Marked d (writeFloat bits) (.float bits) := by
  refine ⟨FLOAT_64, u64BE bits, rfl, ?_⟩
  have hread := (codes_uint (toNat_lt_word bits)).map fun v => Value.float (UInt64.ofNat v)
  rw [UInt64.ofNat_toNat] at hread
  exact hread

lemma marked_null : Marked d writeNull .null := ⟨NULL_VAL, [], rfl, Codes.pure _⟩

lemma marked_bool (b : Bool) : Marked d (writeBoolean b) (.bool b) := by
  cases b with
  | false => exact ⟨FALSE, [], rfl, Codes.pure _⟩
  | true => exact ⟨TRUE, [], rfl, Codes.pure _⟩

end Leaves

/-! ### Containers -/

lemma writeValues_eq_flatMap (xs : List Value) : writeValues xs = xs.flatMap writeValue := by
  induction xs with
  | nil => rfl
  | cons x xs ih => rw [writeValues, ih, flatMap_cons]

lemma length_writeValue_le {x : Value} {xs : List Value} (hx : x ∈ xs) :
    (writeValue x).length ≤ (writeValues xs).length := by
  rw [writeValues_eq_flatMap]
  exact (sublist_flatten_of_mem (mem_map_of_mem hx)).length_le

lemma length_writeEntry_le {e : Bytes × Value} {entries : List (Bytes × Value)} (he : e ∈ entries) :
    (writeString e.1).length + (writeValue e.2).length ≤ (writeEntries entries).length := by
  induction entries with
  | nil => exact absurd he not_mem_nil
  | cons first entries ih =>
    obtain ⟨key, val⟩ := first
    rw [writeEntries, length_append, length_append]
    rcases mem_cons.mp he with rfl | he
    · show (writeString key).length + (writeValue val).length ≤ _
      omega
    · have := ih he
      omega

lemma length_writeSize_pos (m8 m16 m32 : UInt8) (count : Nat) : 0 < (writeSize m8 m16 m32 count).length := by
  rw [writeSize]
  split
  · exact succ_pos _
  · split <;> exact succ_pos _

lemma length_writeTinySize_pos (base m8 m16 m32 : UInt8) (count : Nat) :
    0 < (writeTinySize base m8 m16 m32 count).length := by
  rw [writeTinySize]
  split
  · exact succ_pos _
  · exact length_writeSize_pos m8 m16 m32 count

lemma length_writeInt_pos (i : Int64) : 0 < (writeInt i).length := by
  rw [writeInt]
  split_ifs <;> exact succ_pos _

lemma length_writeValue_pos (v : Value) : 0 < (writeValue v).length := by
  cases v with
  | null | bool | float => exact succ_pos _
  | int i => exact length_writeInt_pos i
  | string s =>
    rw [writeValue, writeString, length_append]
    exact Nat.add_pos_left (length_writeTinySize_pos _ _ _ _ _) _
  | bytes bs =>
    rw [writeValue, writeBytes, length_append]
    exact Nat.add_pos_left (length_writeSize_pos _ _ _ _) _
  | list xs =>
    rw [writeValue, writeListHeader, length_append]
    exact Nat.add_pos_left (length_writeTinySize_pos _ _ _ _ _) _
  | dict entries =>
    rw [writeValue, writeDictHeader, length_append]
    exact Nat.add_pos_left (length_writeTinySize_pos _ _ _ _ _) _
  | struct tag fields =>
    rw [writeValue, writeStructHeader, append_assoc, length_append]
    exact Nat.add_pos_left (length_writeTinySize_pos _ _ _ _ _) _

section Containers

variable {d : Reader Fault Value}

lemma codes_values {xs : List Value} (h : ∀ x ∈ xs, Codes d (writeValue x) x) :
    Codes (many d xs.length) (writeValues xs) xs := by
  rw [writeValues_eq_flatMap]
  exact Codes.many h

lemma marked_list {xs : List Value} (hsize : xs.length < 2 ^ 32) (h : ∀ x ∈ xs, Codes d (writeValue x) x) :
    Marked d (writeListHeader xs.length ++ writeValues xs) (.list xs) := by
  refine marked_tinySize (decodeList d) ?_ rfl rfl rfl hsize ((codes_values h).map Value.list)
  intro n hn
  interval_cases n <;> rfl

lemma marked_struct {fields : List Value} (tag : UInt8) (hsize : fields.length < 2 ^ 32)
    (h : ∀ x ∈ fields, Codes d (writeValue x) x) :
    Marked d (writeStructHeader tag fields.length ++ writeValues fields) (.struct tag fields) := by
  have hbody : Codes (decodeStruct d fields.length) ([tag] ++ writeValues fields) (.struct tag fields) :=
    (codes_readByte tag).bind ((codes_values h).map (Value.struct tag))
  rw [writeStructHeader, append_assoc]
  refine marked_tinySize (decodeStruct d) ?_ rfl rfl rfl hsize hbody
  intro n hn
  interval_cases n <;> rfl

/-- The loop over the entries; none of the keys is in the dictionary yet. -/
theorem codes_entries {entries : List (Bytes × Value)} (dict : List (Bytes × Value))
    (hkeys : ((dict ++ entries).map Prod.fst).Nodup)
    (hkey : ∀ e ∈ entries, Codes d (writeString e.1) (.string e.1))
    (hval : ∀ e ∈ entries, Codes d (writeValue e.2) e.2) :
    Codes (decodeEntries d entries.length dict) (writeEntries entries) (dict ++ entries) := by
  induction entries generalizing dict with
  | nil =>
    rw [append_nil]
    exact Codes.pure dict
  | cons first entries ih =>
    obtain ⟨key, val⟩ := first
    have hsplit : dict ++ (key, val) :: entries = dict ++ [(key, val)] ++ entries := by
      rw [append_assoc, singleton_append]
    have hnew : key ∉ dict.map Prod.fst := by
      rw [map_append, nodup_append] at hkeys
      intro hin
      exact hkeys.2.2 key hin key mem_cons_self rfl
    have hemplace : emplace dict key val = dict ++ [(key, val)] := if_neg hnew
    rw [hsplit] at hkeys ⊢
    have hrest := ih (dict ++ [(key, val)]) hkeys (fun e he => hkey e (mem_cons_of_mem _ he))
      (fun e he => hval e (mem_cons_of_mem _ he))
    rw [← hemplace] at hrest
    rw [← hemplace]
    exact (hkey _ mem_cons_self).bind ((hval _ mem_cons_self).bind hrest)

lemma marked_dict {entries : List (Bytes × Value)} (hsize : entries.length < 2 ^ 32)
    (hkeys : (entries.map Prod.fst).Nodup)
    (hkey : ∀ e ∈ entries, Codes d (writeString e.1) (.string e.1))
    (hval : ∀ e ∈ entries, Codes d (writeValue e.2) e.2) :
    Marked d (writeDictHeader entries.length ++ writeEntries entries) (.dict entries) := by
  have hbody := (codes_entries [] hkeys hkey hval).map Value.dict
  refine marked_tinySize (decodeDict d) ?_ rfl rfl rfl hsize hbody
  intro n hn
  interval_cases n <;> rfl

end Containers

/-! ### Values -/

/-- Enough fuel for the bytes of a value is enough to read it: whatever is nested in it is
written in fewer bytes. -/
theorem codes_value (fuel : Nat) (v : Value) (hv : Fits v) (hfuel : (writeValue v).length ≤ fuel) :
    Codes (decodeWithin fuel) (writeValue v) v := by
  induction fuel generalizing v with
  | zero =>
    have hpos := length_writeValue_pos v
    omega
  | succ fuel ih =>
    apply codes_within
    cases hv with
    | null => exact marked_null _
    | bool b => exact marked_bool _ b
    | int i => exact marked_int _ i
    | float bits => exact marked_float _ bits
    | string hsize => exact marked_string _ hsize
    | bytes hsize => exact marked_bytes _ hsize
    | @list xs hsize h =>
      have hheader := length_writeTinySize_pos TINY_LIST_BASE LIST_8 LIST_16 LIST_32 xs.length
      rw [writeValue, writeListHeader, length_append] at hfuel
      refine marked_list hsize fun x hx => ih x (h x hx) ?_
      have := length_writeValue_le hx
      omega
    | @dict entries hsize hkeys hkey h =>
      have hheader := length_writeTinySize_pos TINY_DICT_BASE DICT_8 DICT_16 DICT_32 entries.length
      rw [writeValue, writeDictHeader, length_append] at hfuel
      refine marked_dict hsize hkeys (fun e he => ?_) (fun e he => ih e.2 (h e he) ?_)
      · refine ih (.string e.1) (.string (hkey e he)) ?_
        have := length_writeEntry_le he
        rw [writeValue]
        omega
      · have := length_writeEntry_le he
        omega
    | @struct fields tag hsize h =>
      have hheader := length_writeTinySize_pos TINY_STRUCT_BASE STRUCT_8 STRUCT_16 STRUCT_32 fields.length
      rw [writeValue, writeStructHeader, length_append, length_append] at hfuel
      refine marked_struct tag hsize fun x hx => ih x (h x hx) ?_
      have := length_writeValue_le hx
      omega

/-! ### Arbitrary bytes -/

/-- The only error the source raises. -/
def IsDecodeError (e : Fault) : Prop := ∃ message, e = .decodeError message

section Confined

variable {bound : Nat}

lemma confined_readByte : Confined bound IsDecodeError readByte := by
  intro data _
  cases data with
  | nil => exact ⟨_, rfl⟩
  | cons b rest => exact suffix_cons b rest

lemma confined_readUint (bytes : Nat) : Confined bound IsDecodeError (readUint bytes) :=
  (confined_readByte.many bytes).bind fun _ => Confined.pure _

/-- The check makes the unchecked copy safe. -/
theorem confined_readSlice (what : String) (len : Nat) : Confined bound IsDecodeError (readSlice what len) := by
  intro data _
  by_cases hlt : data.length < len
  · rw [run_readSlice_short what hlt]
    exact ⟨_, rfl⟩
  · rw [run_readSlice what (not_lt.mp hlt)]
    exact drop_suffix len data

lemma confined_readSize (m8 m16 mark : UInt8) : Confined bound IsDecodeError (readSize m8 m16 mark) :=
  .ite (confined_readUint 1) (.ite (confined_readUint 2) (confined_readUint 4))

variable {d : Reader Fault Value}

lemma confined_decodeEntries (hd : Confined bound IsDecodeError d) (len : Nat)
    (dict : List (Bytes × Value)) : Confined bound IsDecodeError (decodeEntries d len dict) := by
  induction len generalizing dict with
  | zero => exact Confined.pure dict
  | succ len ih =>
    refine hd.bind fun keyVal => ?_
    cases keyVal with
    | string key => exact hd.bind fun val => ih (emplace dict key val)
    | _ => exact Confined.throw ⟨_, rfl⟩

lemma confined_decodeStruct (hd : Confined bound IsDecodeError d) (fieldCount : Nat) :
    Confined bound IsDecodeError (decodeStruct d fieldCount) :=
  confined_readByte.bind fun _ => (hd.many fieldCount).bind fun _ => Confined.pure _

/-- One branch per marker test. -/
theorem confined_decodeMarked (hd : Confined bound IsDecodeError d) (mark : UInt8) :
    Confined bound IsDecodeError (decodeMarked d mark) := by
  have hstring : ∀ len, Confined bound IsDecodeError
      (do let s ← readSlice "string" len; pure (.string s) : Reader Fault Value) :=
    fun len => (confined_readSlice "string" len).bind fun _ => Confined.pure _
  have hlist : ∀ len, Confined bound IsDecodeError (decodeList d len) :=
    fun len => (hd.many len).bind fun _ => Confined.pure _
  have hdict : ∀ len, Confined bound IsDecodeError (decodeDict d len) :=
    fun len => (confined_decodeEntries hd len []).bind fun _ => Confined.pure _
  have hstruct := confined_decodeStruct hd
  refine .ite (.pure _) (.ite (.pure _) (.ite (.pure _) (.ite (.pure _) (.ite (.pure _) ?_))))
  refine .ite (confined_readByte.bind fun _ => .pure _) ?_
  refine .ite ((confined_readUint 2).bind fun _ => .pure _) ?_
  refine .ite ((confined_readUint 4).bind fun _ => .pure _) ?_
  refine .ite ((confined_readUint 8).bind fun _ => .pure _) ?_
  refine .ite ((confined_readUint 8).bind fun _ => .pure _) ?_
  refine .ite (hstring _) (.ite ((confined_readSize _ _ _).bind hstring) ?_)
  refine .ite ((confined_readSize _ _ _).bind fun len =>
    (confined_readSlice "bytes" len).bind fun _ => .pure _) ?_
  refine .ite (hlist _) (.ite ((confined_readSize _ _ _).bind hlist) ?_)
  refine .ite (hdict _) (.ite ((confined_readSize _ _ _).bind hdict) ?_)
  exact .ite (hstruct _) (.ite ((confined_readSize _ _ _).bind hstruct) (.throw ⟨_, rfl⟩))

lemma confined_decodeStructHeader : Confined bound IsDecodeError decodeStructHeader := by
  have hcount : ∀ mark, Confined bound IsDecodeError (readFieldCount mark) := fun mark =>
    .ite (.pure _) (.ite (confined_readSize _ _ _) (.throw ⟨_, rfl⟩))
  exact confined_readByte.bind fun mark => (hcount mark).bind fun _ =>
    confined_readByte.bind fun _ => .pure _

end Confined

lemma run_nil (fuel : Nat) : (decodeWithin (fuel + 1)).run [] = .error unexpectedEnd := rfl

lemma run_cons (fuel : Nat) (mark : UInt8) (rest : Bytes) : (decodeWithin (fuel + 1)).run (mark :: rest) =
      (decodeMarked (decodeWithin fuel) mark).run rest := rfl

/-- A buffer shorter than the fuel: a nested value is read behind one marker at least. -/
theorem confined_decodeWithin (fuel : Nat) : Confined fuel IsDecodeError (decodeWithin fuel) := by
  induction fuel with
  | zero =>
    intro data hdata
    exact absurd hdata (Nat.not_lt_zero _)
  | succ fuel ih =>
    intro data hdata
    cases data with
    | nil => exact ⟨_, rfl⟩
    | cons mark rest =>
      have hrest := confined_decodeMarked ih mark rest (lt_of_succ_lt_succ hdata)
      rw [run_cons]
      cases hmarked : (decodeMarked (decodeWithin fuel) mark).run rest with
      | error e =>
        rw [hmarked] at hrest
        exact hrest
      | ok p =>
        rw [hmarked] at hrest
        exact hrest.trans (suffix_cons mark rest)

/-! ### More fuel -/

section Fuel

variable {d d' : Reader Fault Value}

lemma refines_decodeEntries (h : Refines .outOfFuel d d') (len : Nat) (dict : List (Bytes × Value)) :
    Refines .outOfFuel (decodeEntries d len dict) (decodeEntries d' len dict) := by
  induction len generalizing dict with
  | zero => exact Refines.refl _
  | succ len ih =>
    refine h.bind fun keyVal => ?_
    cases keyVal with
    | string key => exact h.bind fun val => ih (emplace dict key val)
    | _ => exact Refines.refl _

lemma refines_decodeMarked (h : Refines .outOfFuel d d') (mark : UInt8) :
    Refines .outOfFuel (decodeMarked d mark) (decodeMarked d' mark) := by
  have hlist : ∀ len, Refines .outOfFuel (decodeList d len) (decodeList d' len) :=
    fun len => (h.many len).bind fun _ => Refines.refl _
  have hdict : ∀ len, Refines .outOfFuel (decodeDict d len) (decodeDict d' len) :=
    fun len => (refines_decodeEntries h len []).bind fun _ => Refines.refl _
  have hstruct : ∀ count, Refines .outOfFuel (decodeStruct d count) (decodeStruct d' count) :=
    fun count => (Refines.refl _).bind fun _ => (h.many count).bind fun _ => Refines.refl _
  -- the branches up to the byte arrays do not recurse
  refine .ite (.refl _) (.ite (.refl _) (.ite (.refl _) (.ite (.refl _) (.ite (.refl _) ?_))))
  refine .ite (.refl _) (.ite (.refl _) (.ite (.refl _) (.ite (.refl _) (.ite (.refl _) ?_))))
  refine .ite (.refl _) (.ite (.refl _) (.ite (.refl _) ?_))
  refine .ite (hlist _) (.ite ((Refines.refl _).bind hlist) ?_)
  refine .ite (hdict _) (.ite ((Refines.refl _).bind hdict) ?_)
  exact .ite (hstruct _) (.ite ((Refines.refl _).bind hstruct) (.refl _))

end Fuel

lemma refines_succ (fuel : Nat) : Refines .outOfFuel (decodeWithin fuel) (decodeWithin (fuel + 1)) := by
  induction fuel with
  | zero => exact fun _ => Or.inl rfl
  | succ fuel ih =>
    intro data
    cases data with
    | nil => exact Or.inr ((run_nil fuel).trans (run_nil (fuel + 1)).symm)
    | cons mark rest =>
      rw [run_cons (fuel + 1), run_cons fuel]
      exact refines_decodeMarked ih mark rest

lemma refines_of_le {fuel more : Nat} (h : fuel ≤ more) :
    Refines .outOfFuel (decodeWithin fuel) (decodeWithin more) := by
  induction more, h using le_induction with
  | base => exact Refines.refl _
  | succ more _ ih => exact ih.trans (refines_succ more)

/-! ### The codec -/

lemma cases_of_confined {γ : Type} {reader : Reader Fault γ} {bound : Nat}
    (h : Confined bound IsDecodeError reader) {data : Bytes} (hlen : data.length < bound) :
    (∃ v rest, reader.run data = .ok (v, rest) ∧ rest <:+ data) ∨
      ∃ message, reader.run data = .error (.decodeError message) := by
  have hconfined := h data hlen
  cases hrun : reader.run data with
  | error e =>
    rw [hrun] at hconfined
    obtain ⟨message, rfl⟩ := hconfined
    exact Or.inr ⟨message, rfl⟩
  | ok p =>
    rw [hrun] at hconfined
    exact Or.inl ⟨p.1, p.2, rfl, hconfined⟩

/-- On any buffer the decoder returns a value and a tail of the buffer, or raises
`DecodeError`. -/
theorem decode_cases (data : Bytes) : (∃ v rest, decode data = .ok (v, rest) ∧ rest <:+ data) ∨
      ∃ message, decode data = .error (.decodeError message) :=
  cases_of_confined (confined_decodeWithin (data.length + 1)) (lt_succ_self _)

/-- The fuel of `decode` is as good as any larger amount. -/
theorem decode_eq_of_le {data : Bytes} {fuel : Nat} (h : data.length + 1 ≤ fuel) :
    decode data = (decodeWithin fuel).run data := by
  rcases refines_of_le h data with hout | heq
  · rcases decode_cases data with ⟨v, rest, hok, _⟩ | ⟨message, herror⟩
    · rw [decode, hout] at hok
      exact (nomatch hok)
    · rw [decode, hout] at herror
      exact (nomatch herror)
  · exact heq

lemma decode_writeValue {v : Value} (hv : Fits v) : decode (writeValue v) = .ok (v, []) :=
  (codes_value _ v hv (le_succ _)).takes.run_eq

lemma decode_strictPrefix {v : Value} (hv : Fits v) {part : Bytes} (hpart : part <+: writeValue v)
    (hne : part ≠ writeValue v) : ∃ message, decode part = .error (.decodeError message) := by
  have hlt := lt_of_le_of_ne hpart.length_le (fun heq => hne (hpart.eq_of_length heq))
  obtain ⟨e, he⟩ := (codes_value _ v hv (le_refl _)).rejects part hpart hne
  rw [← decode_eq_of_le hlt] at he
  rcases decode_cases part with ⟨w, rest, hok, _⟩ | herror
  · rw [he] at hok
    exact (nomatch hok)
  · exact herror

lemma decodeStructHeader_cases (data : Bytes) :
    (∃ header rest, decodeStructHeader.run data = .ok (header, rest) ∧ rest <:+ data) ∨
      ∃ message, decodeStructHeader.run data = .error (.decodeError message) :=
  cases_of_confined confined_decodeStructHeader (lt_succ_self _)

/-- Every value is read back from its encoding with no byte left over, no strict prefix of
an encoding is accepted, and on arbitrary bytes the decoder returns or raises `DecodeError`
without reading behind the end and without running out of fuel. -/
theorem packStream_codec : (∀ v, Fits v → decode (writeValue v) = .ok (v, []) ∧
      ∀ part, part <+: writeValue v → part ≠ writeValue v → ∃ message, decode part = .error (.decodeError message)) ∧
    (∀ data, (∃ v rest, decode data = .ok (v, rest) ∧ rest <:+ data) ∨
      ∃ message, decode data = .error (.decodeError message)) ∧
    ∀ data, (∃ header rest, decodeStructHeader.run data = .ok (header, rest) ∧ rest <:+ data) ∨
      ∃ message, decodeStructHeader.run data = .error (.decodeError message) :=
  ⟨fun _ hv => ⟨decode_writeValue hv, fun _ hpart hne => decode_strictPrefix hv hpart hne⟩,
    decode_cases, decodeStructHeader_cases⟩

/-- A structure around a map around a list. -/
def nestedValue : Value :=
  .struct 0x4E [.int 1000, .dict [([0x61], .list [.int (-1), .null]), ([0x62], .bytes [7])]]

lemma fits_nestedValue : Fits nestedValue := by
  refine .struct _ (by decide) ?_
  intro x hx
  rcases mem_cons.mp hx with rfl | hx
  · exact .int _
  obtain rfl := mem_singleton.mp hx
  refine .dict (by decide) (by decide) (by decide) ?_
  intro e he
  rcases mem_cons.mp he with rfl | he
  · refine .list (by decide) fun x hx => ?_
    rcases mem_cons.mp hx with rfl | hx
    · exact .int _
    · obtain rfl := mem_singleton.mp hx
      exact .null
  · obtain rfl := mem_singleton.mp he
    exact .bytes (by decide)

theorem packStream_codec_nestedValue : Fits nestedValue ∧ decode (writeValue nestedValue) = .ok (nestedValue, []) :=
  ⟨fits_nestedValue, (packStream_codec.1 nestedValue fits_nestedValue).1⟩

end Eugraph.PackStream
