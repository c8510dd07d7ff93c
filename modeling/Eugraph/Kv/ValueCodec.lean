import Eugraph.Kv.KeyCodec

/-!
# `ValueCodec`

Stored property values, edge ids and index payloads (`storage/kv/value_codec.cpp`).
A decoder consumes the bytes from the front.  Reading past the end is undefined in the
source; here it yields the bytes that are left.
-/

namespace Eugraph.ValueCodec

open Lib KeyCodec
open IndexKeyCodec (u64BE length_u64BE)

/-! ### Writing -/

/-- `appendU32(static_cast<uint32_t>(size))`. -/
def encodeSize (size : Nat) : Bytes := u32BE (UInt32.ofNat size)

/-- A zone name as a 16-bit length and its bytes; length zero means absent. -/
def encodeTzName : TzName → Bytes
  | none => u16BE 0
  | some name => u16BE (UInt16.ofNat name.length) ++ name

def DateTimeKind.byte : DateTimeKind → UInt8
  | .DATE => 0
  | .LOCAL_DATETIME => 1
  | .DATETIME => 2

def TimeKind.byte : TimeKind → UInt8
  | .LOCAL_TIME => 0
  | .TIME => 1

def encodeDateTime (tv : DateTimeValue) : Bytes :=
  DateTimeKind.byte tv.kind :: (u64BE tv.year.toInt64.toUInt64 ++ u64BE tv.month.toInt64.toUInt64 ++
    u64BE tv.day.toInt64.toUInt64 ++ u64BE tv.hour.toInt64.toUInt64 ++
    u64BE tv.minute.toInt64.toUInt64 ++ u64BE tv.second.toInt64.toUInt64 ++
    u64BE tv.nanos.toInt64.toUInt64 ++ u32BE tv.tz_offset_sec.toUInt32 ++ encodeTzName tv.tz_name)

def encodeTime (tv : TimeValue) : Bytes :=
  TimeKind.byte tv.kind :: (u64BE tv.hour.toInt64.toUInt64 ++ u64BE tv.minute.toInt64.toUInt64 ++
    u64BE tv.second.toInt64.toUInt64 ++ u64BE tv.nanos.toInt64.toUInt64 ++
    u32BE tv.tz_offset_sec.toUInt32 ++ encodeTzName tv.tz_name)

def encodeDuration (dv : DurationValue) : Bytes :=
  u64BE dv.months.toUInt64 ++ u64BE dv.days.toUInt64 ++ u64BE dv.seconds.toUInt64 ++
    u64BE dv.nanos.toUInt64

/-- Element count and elements. -/
def encodeArray {α : Type} (element : α → Bytes) (xs : List α) : Bytes :=
  encodeSize xs.length ++ xs.flatMap element

def encode : PropertyValue → Bytes
  | .null => [0x00]
  | .bool b => [0x01, if b then 1 else 0]
  | .int64 i => 0x02 :: u64BE i.toUInt64
  | .double bits => 0x03 :: u64BE bits
  | .string s => 0x04 :: (encodeSize s.length ++ s)
  | .int64Array xs => 0x05 :: encodeArray (fun i => u64BE i.toUInt64) xs
  | .doubleArray xs => 0x06 :: encodeArray u64BE xs
  | .stringArray xs => 0x07 :: encodeArray (fun s => encodeSize s.length ++ s) xs
  | .dateTime tv => 0x08 :: encodeDateTime tv
  | .time tv => 0x09 :: encodeTime tv
  | .duration tv => 0x0A :: encodeDuration tv
  | .dateTimeArray xs => 0x0B :: encodeArray encodeDateTime xs
  | .timeArray xs => 0x0C :: encodeArray encodeTime xs
  | .durationArray xs => 0x0D :: encodeArray encodeDuration xs
  | .bytes xs => 0x0E :: (encodeSize xs.length ++ xs)

/-- `ValueCodec::encodeU64`. -/
def encodeU64 (val : UInt64) : Bytes := u64BE val

/-- The payload of an edge index entry: 26 bytes. -/
def encodeEdgeAdjacency (srcId dstId : VertexId) (seq : UInt64) (labelId : EdgeLabelId) : Bytes :=
  u64BE srcId ++ (u64BE dstId ++ (u64BE seq ++ u16BE labelId))

/-! ### Reading -/

/-- A reader returns a value and the bytes behind it. -/
abbrev Reader (α : Type) := Bytes → α × Bytes

def readU8 : Reader UInt8 := fun data => (data.headD 0, data.tail)
def readU16 : Reader UInt16 := fun data => (decodeU16BE data 0, data.drop 2)
def readU32 : Reader UInt32 := fun data => (decodeU32BE data 0, data.drop 4)
def readU64 : Reader UInt64 := fun data => (decodeU64BE data 0, data.drop 8)
def readI64 : Reader Int64 := fun data => ((decodeU64BE data 0).toInt64, data.drop 8)

def readTzName : Reader TzName := fun data =>
  let (len, data) := readU16 data
  (if len = 0 then none else some (data.take len.toNat), data.drop len.toNat)

def readDateTime : Reader DateTimeValue := fun data =>
  let (kind, data) := readU8 data
  let (year, data) := readI64 data
  let (month, data) := readI64 data
  let (day, data) := readI64 data
  let (hour, data) := readI64 data
  let (minute, data) := readI64 data
  let (second, data) := readI64 data
  let (nanos, data) := readI64 data
  let (offset, data) := readU32 data
  let (tz, data) := readTzName data
  ({ year := year.toInt32, nanos := nanos.toInt32, tz_offset_sec := offset.toInt32,
     month := month.toInt8, day := day.toInt8, hour := hour.toInt8, minute := minute.toInt8,
     second := second.toInt8
     kind := if kind = 0 then .DATE else if kind = 1 then .LOCAL_DATETIME else .DATETIME
     tz_name := tz }, data)

def readTime : Reader TimeValue := fun data =>
  let (kind, data) := readU8 data
  let (hour, data) := readI64 data
  let (minute, data) := readI64 data
  let (second, data) := readI64 data
  let (nanos, data) := readI64 data
  let (offset, data) := readU32 data
  let (tz, data) := readTzName data
  ({ nanos := nanos.toInt32, tz_offset_sec := offset.toInt32, hour := hour.toInt8,
     minute := minute.toInt8, second := second.toInt8
     kind := if kind = 0 then .LOCAL_TIME else .TIME
     tz_name := tz }, data)

def readDuration : Reader DurationValue := fun data =>
  let (months, data) := readI64 data
  let (days, data) := readI64 data
  let (seconds, data) := readI64 data
  let (nanos, data) := readI64 data
  (⟨months, days, seconds, nanos⟩, data)

def readSized : Reader Bytes := fun data =>
  let (len, data) := readU32 data
  (data.take len.toNat, data.drop len.toNat)

/-- A counted loop of one reader. -/
def readMany {α : Type} (element : Reader α) : Nat → Reader (List α)
  | 0, data => ([], data)
  | count + 1, data =>
    let (x, data) := element data
    let (xs, data) := readMany element count data
    (x :: xs, data)

def readArray {α : Type} (element : Reader α) (data : Bytes) : List α :=
  let (count, data) := readU32 data
  (readMany element count.toNat data).1

def decode (data : Bytes) : Except String PropertyValue :=
  match data with
  | [] => .ok .null
  | 0x00 :: _ => .ok .null
  | 0x01 :: body => .ok (.bool (body.headD 0 ≠ 0))
  | 0x02 :: body => .ok (.int64 (readI64 body).1)
  | 0x03 :: body => .ok (.double (readU64 body).1)
  | 0x04 :: body => .ok (.string (readSized body).1)
  | 0x05 :: body => .ok (.int64Array (readArray readI64 body))
  | 0x06 :: body => .ok (.doubleArray (readArray readU64 body))
  | 0x07 :: body => .ok (.stringArray (readArray readSized body))
  | 0x08 :: body => .ok (.dateTime (readDateTime body).1)
  | 0x09 :: body => .ok (.time (readTime body).1)
  | 0x0A :: body => .ok (.duration (readDuration body).1)
  | 0x0B :: body => .ok (.dateTimeArray (readArray readDateTime body))
  | 0x0C :: body => .ok (.timeArray (readArray readTime body))
  | 0x0D :: body => .ok (.durationArray (readArray readDuration body))
  | 0x0E :: body => .ok (.bytes (readSized body).1)
  | tag :: _ => .error ("Unknown value type tag: " ++ toString tag.toNat)

/-- `ValueCodec::decodeU64`. -/
def decodeU64 (data : Bytes) : UInt64 := decodeU64BE data 0

/-- `ValueCodec::decodeEdgeAdjacency`: all zero on a payload shorter than 26 bytes. -/
def decodeEdgeAdjacency (data : Bytes) : VertexId × VertexId × UInt64 × EdgeLabelId :=
  if data.length < 26 then (0, 0, 0, 0)
  else (decodeU64BE data 0, decodeU64BE data 8, decodeU64BE data 16, decodeU16BE data 24)

/-! ### Facts the storage layer relies on -/

/-- What the codec writes never raises when it is read. -/
theorem exists_decode_encode (v : PropertyValue) : ∃ w, decode (encode v) = .ok w := by
  cases v <;> exact ⟨_, rfl⟩

@[simp] lemma decodeU64_encodeU64 (v : UInt64) : decodeU64 (encodeU64 v) = v := by
  simpa [decodeU64, encodeU64] using decodeU64BE_append [] [] v rfl

@[simp] lemma decodeEdgeAdjacency_encode (src dst : VertexId) (seq : UInt64) (l : EdgeLabelId) :
    decodeEdgeAdjacency (encodeEdgeAdjacency src dst seq l) = (src, dst, seq, l) := by
  have hlen : ¬ (encodeEdgeAdjacency src dst seq l).length < 26 := by simp [encodeEdgeAdjacency]
  have hsrc := decodeU64BE_append [] (u64BE dst ++ (u64BE seq ++ u16BE l)) src rfl
  have hdst := decodeU64BE_append (u64BE src) (u64BE seq ++ u16BE l) dst (by simp : _ = 8)
  have hseq := decodeU64BE_append (u64BE src ++ u64BE dst) (u16BE l) seq (by simp : _ = 16)
  have hl := decodeU16BE_append (u64BE src ++ (u64BE dst ++ u64BE seq)) [] l (by simp : _ = 24)
  rw [decodeEdgeAdjacency, if_neg hlen]
  simp only [Prod.mk.injEq]
  refine ⟨?_, ?_, ?_, ?_⟩
  · simpa [encodeEdgeAdjacency] using hsrc
  · simpa [encodeEdgeAdjacency] using hdst
  · simpa [encodeEdgeAdjacency] using hseq
  · simpa [encodeEdgeAdjacency] using hl

end Eugraph.ValueCodec
