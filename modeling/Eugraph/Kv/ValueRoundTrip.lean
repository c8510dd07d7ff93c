import Eugraph.Kv.ValueCodec

/-!
# Round trip of `ValueCodec`

Every reader is shown to take exactly the bytes its writer produced and to leave the
bytes behind them alone; `decode (encode v)` is then one case per alternative.  The
only side conditions are the ones of the wire format: 32-bit sizes, and a zone name
whose 16-bit length is not the zero that stands for an absent name.
-/

namespace Eugraph.ValueCodec

open Lib KeyCodec List Except
open IndexKeyCodec (u64BE length_u64BE)

/-- `reader` takes the bytes `written` as `x` and stops right behind them. -/
def Reads {α : Type} (reader : Reader α) (written : Bytes) (x : α) : Prop :=
  ∀ rest, reader (written ++ rest) = (x, rest)

/-! ### What the format can carry -/

/-- A zone name is absent, or not empty and at most 65535 bytes long. -/
def TzNameFits : TzName → Prop
  | none => True
  | some name => name ≠ [] ∧ name.length ≤ 65535

/-- Every size of the value is below `2 ^ 32` and every zone name fits. -/
def Fits : PropertyValue → Prop
  | .null | .bool _ | .int64 _ | .double _ | .duration _ => True
  | .string s => s.length < 2 ^ 32
  | .int64Array xs => xs.length < 2 ^ 32
  | .doubleArray xs => xs.length < 2 ^ 32
  | .stringArray xs => xs.length < 2 ^ 32 ∧ ∀ s ∈ xs, s.length < 2 ^ 32
  | .dateTime tv => TzNameFits tv.tz_name
  | .time tv => TzNameFits tv.tz_name
  | .dateTimeArray xs => xs.length < 2 ^ 32 ∧ ∀ tv ∈ xs, TzNameFits tv.tz_name
  | .timeArray xs => xs.length < 2 ^ 32 ∧ ∀ tv ∈ xs, TzNameFits tv.tz_name
  | .durationArray xs => xs.length < 2 ^ 32
  | .bytes xs => xs.length < 2 ^ 32

/-! ### Words -/

lemma readU8_cons (b : UInt8) (rest : Bytes) : readU8 (b :: rest) = (b, rest) := rfl

lemma reads_u16 (v : UInt16) : Reads readU16 (u16BE v) v := by
  intro rest
  have hword : decodeU16BE (u16BE v ++ rest) 0 = v := decodeU16BE_append [] rest v rfl
  rw [readU16, hword, drop_left' (length_u16BE v)]

lemma reads_u32 (v : UInt32) : Reads readU32 (u32BE v) v := by
  intro rest
  have hword : decodeU32BE (u32BE v ++ rest) 0 = v := decodeU32BE_append [] rest v rfl
  rw [readU32, hword, drop_left' (length_u32BE v)]

lemma reads_u64 (v : UInt64) : Reads readU64 (u64BE v) v := by
  intro rest
  have hword : decodeU64BE (u64BE v ++ rest) 0 = v := decodeU64BE_append [] rest v rfl
  rw [readU64, hword, drop_left' (length_u64BE v)]

lemma reads_i64 (i : Int64) : Reads readI64 (u64BE i.toUInt64) i := by
  intro rest
  have hword : decodeU64BE (u64BE i.toUInt64 ++ rest) 0 = i.toUInt64 := decodeU64BE_append [] rest i.toUInt64 rfl
  rw [readI64, hword, drop_left' (length_u64BE _), Int64.toInt64_toUInt64]

/-! ### Sized parts -/

/-- A size below `2 ^ 32` survives the cast. -/
theorem toNat_size {size : Nat} (h : size < 2 ^ 32) : (UInt32.ofNat size).toNat = size := UInt32.toNat_ofNat_of_lt' h

lemma reads_sized {s : Bytes} (h : s.length < 2 ^ 32) : Reads readSized (encodeSize s.length ++ s) s := by
  intro rest
  have hsize := reads_u32 (UInt32.ofNat s.length) (s ++ rest)
  show readSized (u32BE (UInt32.ofNat s.length) ++ s ++ rest) = (s, rest)
  rw [append_assoc, readSized, hsize]
  simp only [toNat_size h, take_left, drop_left]

lemma reads_tzName {tz : TzName} (h : TzNameFits tz) : Reads readTzName (encodeTzName tz) tz := by
  intro rest
  cases tz with
  | none =>
    rw [encodeTzName, readTzName, reads_u16 0 rest]
    rfl
  | some name =>
    obtain ⟨hne, hlen⟩ := h
    have hlength : (UInt16.ofNat name.length).toNat = name.length :=
      UInt16.toNat_ofNat_of_lt' (show name.length < 2 ^ 16 by omega)
    have hzero : UInt16.ofNat name.length ≠ 0 := by
      intro hzero
      rw [hzero] at hlength
      exact hne (eq_nil_of_length_eq_zero hlength.symm)
    rw [encodeTzName, append_assoc, readTzName, reads_u16 _ (name ++ rest)]
    simp only [hlength, if_neg hzero, take_left, drop_left]

/-! ### Temporal values -/

lemma reads_dateTime {tv : DateTimeValue} (h : TzNameFits tv.tz_name) :
    Reads readDateTime (encodeDateTime tv) tv := by
  intro rest
  obtain ⟨year, nanos, offset, month, day, hour, minute, second, kind, tz⟩ := tv
  -- one rewrite per field, in the order of the layout
  rw [encodeDateTime, cons_append, readDateTime]
  simp only [append_assoc, reads_i64 _ _, reads_u32 _ _, reads_tzName h _, readU8_cons]
  cases kind <;> simp [DateTimeKind.byte]

lemma reads_time {tv : TimeValue} (h : TzNameFits tv.tz_name) : Reads readTime (encodeTime tv) tv := by
  intro rest
  obtain ⟨nanos, offset, hour, minute, second, kind, tz⟩ := tv
  rw [encodeTime, cons_append, readTime]
  simp only [append_assoc, reads_i64 _ _, reads_u32 _ _, reads_tzName h _, readU8_cons]
  cases kind <;> simp [TimeKind.byte]

lemma reads_duration (dv : DurationValue) : Reads readDuration (encodeDuration dv) dv := by
  intro rest
  rw [encodeDuration, readDuration]
  simp only [append_assoc, reads_i64 _ _]

/-! ### Arrays -/

/-- The counted loop, by induction on the elements still to read. -/
theorem reads_many {α : Type} {reader : Reader α} {element : α → Bytes} {xs : List α}
    (h : ∀ x ∈ xs, Reads reader (element x) x) :
    Reads (readMany reader xs.length) (xs.flatMap element) xs := by
  intro rest
  induction xs with
  | nil => rfl
  | cons x xs ih =>
    have hx := h x mem_cons_self (xs.flatMap element ++ rest)
    have hxs := ih (fun y hy => h y (mem_cons_of_mem x hy))
    rw [flatMap_cons, append_assoc, length_cons, readMany, hx]
    simp only [hxs]

lemma readArray_encodeArray {α : Type} {reader : Reader α} {element : α → Bytes} {xs : List α}
    (hsize : xs.length < 2 ^ 32) (h : ∀ x ∈ xs, Reads reader (element x) x) :
    readArray reader (encodeArray element xs) = xs := by
  have hcount := reads_u32 (UInt32.ofNat xs.length) (xs.flatMap element)
  have helements := reads_many h []
  rw [append_nil] at helements
  rw [encodeArray, encodeSize, readArray, hcount]
  simp only [toNat_size hsize, helements]

/-! ### The codec -/

/-- What `decode` does behind a tag that one reader serves. -/
theorem fst_of_reads {α : Type} {reader : Reader α} {written : Bytes} {x : α}
    (h : Reads reader written x) : (reader written).1 = x := by
  have hread := h []
  rw [append_nil] at hread
  rw [hread]

/-- Every value the format can carry is read back as the same alternative with the same
content. -/
theorem decode_encode_of_fits (v : PropertyValue) (h : Fits v) : decode (encode v) = .ok v := by
  cases v with
  | null => rfl
  | bool b => cases b <;> rfl
  | int64 i => exact congrArg (ok ∘ PropertyValue.int64) (fst_of_reads (reads_i64 i))
  | double bits => exact congrArg (ok ∘ PropertyValue.double) (fst_of_reads (reads_u64 bits))
  | string s => exact congrArg (ok ∘ PropertyValue.string) (fst_of_reads (reads_sized h))
  | int64Array xs =>
    exact congrArg (ok ∘ PropertyValue.int64Array) (readArray_encodeArray h fun x _ => reads_i64 x)
  | doubleArray xs =>
    exact congrArg (ok ∘ PropertyValue.doubleArray) (readArray_encodeArray h fun x _ => reads_u64 x)
  | stringArray xs =>
    exact congrArg (ok ∘ PropertyValue.stringArray)
      (readArray_encodeArray h.1 fun s hs => reads_sized (h.2 s hs))
  | dateTime tv =>
    exact congrArg (ok ∘ PropertyValue.dateTime) (fst_of_reads (reads_dateTime h))
  | time tv => exact congrArg (ok ∘ PropertyValue.time) (fst_of_reads (reads_time h))
  | duration tv =>
    exact congrArg (ok ∘ PropertyValue.duration) (fst_of_reads (reads_duration tv))
  | dateTimeArray xs =>
    exact congrArg (ok ∘ PropertyValue.dateTimeArray)
      (readArray_encodeArray h.1 fun tv htv => reads_dateTime (h.2 tv htv))
  | timeArray xs =>
    exact congrArg (ok ∘ PropertyValue.timeArray)
      (readArray_encodeArray h.1 fun tv htv => reads_time (h.2 tv htv))
  | durationArray xs =>
    exact congrArg (ok ∘ PropertyValue.durationArray) (readArray_encodeArray h fun dv _ => reads_duration dv)
  | bytes xs => exact congrArg (ok ∘ PropertyValue.bytes) (fst_of_reads (reads_sized h))

/-- 1 January 2024 in a named zone an hour ahead of UTC. -/
def newYear : DateTimeValue where
  year := 2024
  nanos := 0
  tz_offset_sec := 3600
  month := 1
  day := 1
  hour := 0
  minute := 0
  second := 0
  kind := .DATETIME
  tz_name := some [0x43, 0x45, 0x54]

theorem decode_encode_of_fits_newYear : Fits (.dateTimeArray [newYear]) ∧
      decode (encode (.dateTimeArray [newYear])) = .ok (.dateTimeArray [newYear]) := by
  have hfits : Fits (.dateTimeArray [newYear]) := by
    refine ⟨by decide, ?_⟩
    intro tv htv
    rw [mem_singleton] at htv
    rw [htv]
    exact ⟨by decide, by decide⟩
  exact ⟨hfits, decode_encode_of_fits _ hfits⟩

end Eugraph.ValueCodec
