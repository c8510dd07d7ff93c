import Eugraph.Lib.ByteReader
import Eugraph.Kv.KeyCodec
import Eugraph.Meta.MetaStore

/-!
# `MetadataCodec`

The binary form of label definitions, edge label definitions and id counters
(`storage/meta/meta_codec.cpp`).  Every read is checked against the end of the data.  A
default value is written behind its variant index, but only the first eight alternatives
have a body and a case in the decoder: a definition survives a restart exactly if none
of its properties has a default of a later alternative.

Names are the byte strings of the source here; a definition is otherwise the record the
metadata store keeps.
-/

namespace Eugraph.MetadataCodec

open Lib KeyCodec List
open Lib.Reader (word chunk many Codes Refuses codes_word codes_chunk refuses_throw)
open IndexKeyCodec (u64BE toNat_lt_word)
open DataStore (IndexState)
open MetaStore (PropertyType NextIds)

/-! ### Definitions -/

structure PropertyDef where
  id : UInt16
  name : Bytes
  type : PropertyType
  required : Bool
  defaultValue : Option PropertyValue

structure IndexAccessorDef where
  isStrong : Bool
  sourceLabelId : LabelId
  propertyName : Bytes

structure IndexDef where
  indexId : UInt32
  name : Bytes
  accessors : List IndexAccessorDef
  propIds : List UInt16
  unique : Bool
  state : IndexState

structure LabelDef where
  id : LabelId
  name : Bytes
  properties : List PropertyDef
  pkPropIds : List UInt16
  indexes : List IndexDef

structure EdgeLabelDef where
  id : EdgeLabelId
  name : Bytes
  properties : List PropertyDef
  directed : Bool
  indexes : List IndexDef

/-! ### Primitive helpers -/

/-- What a read behind the end of the data raises. -/
def unexpectedEnd (what : String) : String :=
  "MetadataCodec: unexpected end of data decoding " ++ what

def encodeU64 (val : UInt64) : Bytes := u64BE val
def encodeU32 (val : UInt32) : Bytes := u32BE val
def encodeU16 (val : UInt16) : Bytes := u16BE val
def encodeU8 (val : UInt8) : Bytes := [val]

def decodeU64 : Reader String UInt64 := do
  let v ← word 8 (unexpectedEnd "U64")
  pure (UInt64.ofNat v)

def decodeU32 : Reader String UInt32 := do
  let v ← word 4 (unexpectedEnd "U32")
  pure (UInt32.ofNat v)

def decodeU16 : Reader String UInt16 := do
  let v ← word 2 (unexpectedEnd "U16")
  pure (UInt16.ofNat v)

def decodeU8 : Reader String UInt8 := do
  let v ← word 1 (unexpectedEnd "U8")
  pure (UInt8.ofNat v)

/-- `encodeU8(flag ? 1 : 0)`. -/
def encodeFlag (flag : Bool) : Bytes := encodeU8 (if flag then 1 else 0)

/-- `decodeU8() != 0`. -/
def decodeFlag : Reader String Bool := do
  let v ← decodeU8
  pure (v ≠ 0)

/-- `encodeU16(static_cast<uint16_t>(size))`. -/
def encodeSize (size : Nat) : Bytes := encodeU16 (UInt16.ofNat size)

def encodeString (str : Bytes) : Bytes := encodeSize str.length ++ str

def decodeString : Reader String Bytes := do
  let len ← decodeU16
  chunk len.toNat (unexpectedEnd "string")

/-- A 16-bit count and the elements. -/
def encodeVector {α : Type} (element : α → Bytes) (xs : List α) : Bytes :=
  encodeSize xs.length ++ xs.flatMap element

def decodeVector {α : Type} (element : Reader String α) : Reader String (List α) := do
  let count ← decodeU16
  many element count.toNat

/-! ### Property values -/

/-- `PropertyValue::index()`. -/
def index : PropertyValue → UInt8
  | .null => 0
  | .bool _ => 1
  | .int64 _ => 2
  | .double _ => 3
  | .string _ => 4
  | .int64Array _ => 5
  | .doubleArray _ => 6
  | .stringArray _ => 7
  | .dateTime _ => 8
  | .time _ => 9
  | .duration _ => 10
  | .dateTimeArray _ => 11
  | .timeArray _ => 12
  | .durationArray _ => 13
  | .bytes _ => 14

/-- The branches of the visitor; an alternative without a branch writes nothing. -/
def encodeBody : PropertyValue → Bytes
  | .bool b => encodeFlag b
  | .int64 i => encodeU64 i.toUInt64
  | .double bits => encodeU64 bits
  | .string s => encodeString s
  | .int64Array xs => encodeVector (fun i => encodeU64 i.toUInt64) xs
  | .doubleArray xs => encodeVector encodeU64 xs
  | .stringArray xs => encodeVector encodeString xs
  | _ => []

def encodePropertyValue (value : PropertyValue) : Bytes :=
  encodeU8 (index value) ++ encodeBody value

def decodeI64 : Reader String Int64 := do
  let v ← decodeU64
  pure v.toInt64

/-- The `switch` of `decodePropertyValue`. -/
def decodeBody (tag : UInt8) : Reader String PropertyValue :=
  match tag with
  | 0 => pure .null
  | 1 => do let b ← decodeFlag; pure (.bool b)
  | 2 => do let i ← decodeI64; pure (.int64 i)
  | 3 => do let bits ← decodeU64; pure (.double bits)
  | 4 => do let s ← decodeString; pure (.string s)
  | 5 => do let xs ← decodeVector decodeI64; pure (.int64Array xs)
  | 6 => do let xs ← decodeVector decodeU64; pure (.doubleArray xs)
  | 7 => do let xs ← decodeVector decodeString; pure (.stringArray xs)
  | tag => throw ("MetadataCodec: unknown PropertyValue tag " ++ toString tag.toNat)

def decodePropertyValue : Reader String PropertyValue := do
  let tag ← decodeU8
  decodeBody tag

/-! ### Property definitions -/

/-- The number of an enumerator. -/
def PropertyType.code : PropertyType → UInt8
  | .BOOL => 0
  | .INT64 => 1
  | .DOUBLE => 2
  | .STRING => 3
  | .INT64_ARRAY => 4
  | .DOUBLE_ARRAY => 5
  | .STRING_ARRAY => 6
  | .DATETIME => 7
  | .TIME => 8
  | .DURATION => 9
  | .DATETIME_ARRAY => 10
  | .TIME_ARRAY => 11
  | .DURATION_ARRAY => 12
  | .ANY => 13
  | .BYTES => 14

open PropertyType

/-- The cast back.  A number without an enumerator, which no encoder writes, has no name
in the source either; it is read as the last one here. -/
def PropertyType.ofCode : UInt8 → PropertyType
  | 0 => .BOOL
  | 1 => .INT64
  | 2 => .DOUBLE
  | 3 => .STRING
  | 4 => .INT64_ARRAY
  | 5 => .DOUBLE_ARRAY
  | 6 => .STRING_ARRAY
  | 7 => .DATETIME
  | 8 => .TIME
  | 9 => .DURATION
  | 10 => .DATETIME_ARRAY
  | 11 => .TIME_ARRAY
  | 12 => .DURATION_ARRAY
  | 13 => .ANY
  | _ => .BYTES

def encodeDefault : Option PropertyValue → Bytes
  | none => encodeFlag false
  | some value => encodeFlag true ++ encodePropertyValue value

/-- The tail of `decodePropertyDef`: the flag `has_default` and the value behind it. -/
def decodeDefault : Reader String (Option PropertyValue) := do
  let hasDefault ← decodeFlag
  if hasDefault then
    let value ← decodePropertyValue
    pure (some value)
  else
    pure none

def encodePropertyDef (prop : PropertyDef) : Bytes :=
  encodeU16 prop.id ++ (encodeString prop.name ++ (encodeU8 (code prop.type) ++
    (encodeFlag prop.required ++ encodeDefault prop.defaultValue)))

def decodePropertyDef : Reader String PropertyDef := do
  let id ← decodeU16
  let name ← decodeString
  let type ← decodeU8
  let required ← decodeFlag
  let defaultValue ← decodeDefault
  pure ⟨id, name, ofCode type, required, defaultValue⟩

/-! ### Index definitions -/

def IndexState.code : IndexState → UInt8
  | .WRITE_ONLY => 0
  | .PUBLIC => 1
  | .DELETE_ONLY => 2
  | .ERROR => 3

/-- The cast back; see `PropertyType.ofCode`. -/
def IndexState.ofCode : UInt8 → IndexState
  | 0 => .WRITE_ONLY
  | 1 => .PUBLIC
  | 2 => .DELETE_ONLY
  | _ => .ERROR

def encodeAccessor (acc : IndexAccessorDef) : Bytes :=
  encodeFlag acc.isStrong ++ (encodeU16 acc.sourceLabelId ++ encodeString acc.propertyName)

def decodeAccessor : Reader String IndexAccessorDef := do
  let isStrong ← decodeFlag
  let sourceLabelId ← decodeU16
  let propertyName ← decodeString
  pure ⟨isStrong, sourceLabelId, propertyName⟩

def encodeIndexDef (idx : IndexDef) : Bytes :=
  encodeU32 idx.indexId ++ (encodeString idx.name ++ (encodeVector encodeAccessor idx.accessors ++
    (encodeVector encodeU16 idx.propIds ++ (encodeFlag idx.unique ++
      encodeU8 (IndexState.code idx.state)))))

def decodeIndexDef : Reader String IndexDef := do
  let indexId ← decodeU32
  let name ← decodeString
  let accessors ← decodeVector decodeAccessor
  let propIds ← decodeVector decodeU16
  let unique ← decodeFlag
  let state ← decodeU8
  pure ⟨indexId, name, accessors, propIds, unique, IndexState.ofCode state⟩

/-! ### Labels, edge labels and counters -/

def encodeLabelDef (d : LabelDef) : Bytes :=
  encodeU16 d.id ++ (encodeString d.name ++ (encodeVector encodePropertyDef d.properties ++
    (encodeVector encodeU16 d.pkPropIds ++ encodeVector encodeIndexDef d.indexes)))

def readLabelDef : Reader String LabelDef := do
  let id ← decodeU16
  let name ← decodeString
  let properties ← decodeVector decodePropertyDef
  let pkPropIds ← decodeVector decodeU16
  let indexes ← decodeVector decodeIndexDef
  pure ⟨id, name, properties, pkPropIds, indexes⟩

def encodeEdgeLabelDef (d : EdgeLabelDef) : Bytes :=
  encodeU16 d.id ++ (encodeString d.name ++ (encodeVector encodePropertyDef d.properties ++
    (encodeFlag d.directed ++ encodeVector encodeIndexDef d.indexes)))

def readEdgeLabelDef : Reader String EdgeLabelDef := do
  let id ← decodeU16
  let name ← decodeString
  let properties ← decodeVector decodePropertyDef
  let directed ← decodeFlag
  let indexes ← decodeVector decodeIndexDef
  pure ⟨id, name, properties, directed, indexes⟩

def encodeNextIds (ids : NextIds) : Bytes :=
  encodeU64 ids.nextVertexId ++ (encodeU64 ids.nextEdgeId ++ (encodeU16 ids.nextLabelId ++
    (encodeU16 ids.nextEdgeLabelId ++ encodeU32 ids.nextIndexId)))

def readNextIds : Reader String NextIds := do
  let nextVertexId ← decodeU64
  let nextEdgeId ← decodeU64
  let nextLabelId ← decodeU16
  let nextEdgeLabelId ← decodeU16
  let nextIndexId ← decodeU32
  pure ⟨nextVertexId, nextEdgeId, nextLabelId, nextEdgeLabelId, nextIndexId⟩

/-- A top-level decoder starts at offset zero and ignores what is left behind. -/
def decodeFrom {α : Type} (reader : Reader String α) (data : Bytes) : Except String α :=
  match reader.run data with
  | .ok (x, _) => .ok x
  | .error e => .error e

def decodeLabelDef (data : Bytes) : Except String LabelDef := decodeFrom readLabelDef data

def decodeEdgeLabelDef (data : Bytes) : Except String EdgeLabelDef :=
  decodeFrom readEdgeLabelDef data

def decodeNextIds (data : Bytes) : Except String NextIds := decodeFrom readNextIds data

/-! ### What fits the format -/

/-- The collections of a default value; the later alternatives are not written at all. -/
def ValueFits : PropertyValue → Prop
  | .string s => s.length ≤ 65535
  | .int64Array xs => xs.length ≤ 65535
  | .doubleArray xs => xs.length ≤ 65535
  | .stringArray xs => xs.length ≤ 65535 ∧ ∀ s ∈ xs, s.length ≤ 65535
  | _ => True

structure PropertyDef.Fits (p : PropertyDef) : Prop where
  name : p.name.length ≤ 65535
  value : ∀ v, p.defaultValue = some v → ValueFits v

structure IndexDef.Fits (idx : IndexDef) : Prop where
  name : idx.name.length ≤ 65535
  accessors : idx.accessors.length ≤ 65535
  accessorNames : ∀ acc ∈ idx.accessors, acc.propertyName.length ≤ 65535
  propIds : idx.propIds.length ≤ 65535

structure LabelDef.Fits (d : LabelDef) : Prop where
  name : d.name.length ≤ 65535
  properties : d.properties.length ≤ 65535
  eachProperty : ∀ p ∈ d.properties, p.Fits
  pkPropIds : d.pkPropIds.length ≤ 65535
  indexes : d.indexes.length ≤ 65535
  eachIndex : ∀ idx ∈ d.indexes, idx.Fits

structure EdgeLabelDef.Fits (d : EdgeLabelDef) : Prop where
  name : d.name.length ≤ 65535
  properties : d.properties.length ≤ 65535
  eachProperty : ∀ p ∈ d.properties, p.Fits
  indexes : d.indexes.length ≤ 65535
  eachIndex : ∀ idx ∈ d.indexes, idx.Fits

/-- The default, if there is one, is of one of the first eight alternatives. -/
def PropertyDef.DefaultWritten (p : PropertyDef) : Prop :=
  ∀ v, p.defaultValue = some v → index v < 8

/-! ### Primitive helpers read back -/

lemma codes_u64 (v : UInt64) : Codes decodeU64 (encodeU64 v) v := by
  have h := (codes_word (unexpectedEnd "U64") (toNat_lt_word v)).map UInt64.ofNat
  rwa [UInt64.ofNat_toNat] at h

lemma codes_u32 (v : UInt32) : Codes decodeU32 (encodeU32 v) v := by
  have h := (codes_word (unexpectedEnd "U32") (show v.toNat < 256 ^ 4 from v.toNat_lt)).map UInt32.ofNat
  rwa [UInt32.ofNat_toNat] at h

lemma codes_u16 (v : UInt16) : Codes decodeU16 (encodeU16 v) v := by
  have h := (codes_word (unexpectedEnd "U16") (show v.toNat < 256 ^ 2 from v.toNat_lt)).map UInt16.ofNat
  rwa [UInt16.ofNat_toNat] at h

lemma codes_u8 (v : UInt8) : Codes decodeU8 (encodeU8 v) v := by
  have h := (codes_word (unexpectedEnd "U8") (show v.toNat < 256 ^ 1 from v.toNat_lt)).map UInt8.ofNat
  have hbyte : wordBytes 1 v.toNat = [v] := by simp [wordBytes]
  rwa [UInt8.ofNat_toNat, hbyte] at h

lemma codes_flag (b : Bool) : Codes decodeFlag (encodeFlag b) b := by
  have h := (codes_u8 (if b then 1 else 0)).map fun v => decide (v ≠ 0)
  cases b <;> exact h

lemma toNat_size {n : Nat} (h : n ≤ 65535) : (UInt16.ofNat n).toNat = n :=
  UInt16.toNat_ofNat_of_lt' (show n < 2 ^ 16 by omega)

lemma codes_string {s : Bytes} (h : s.length ≤ 65535) : Codes decodeString (encodeString s) s := by
  refine (codes_u16 (UInt16.ofNat s.length)).bind ?_
  rw [toNat_size h]
  exact codes_chunk _ s

section Vectors

variable {α : Type} {reader : Reader String α} {element : α → Bytes} {xs : List α}

lemma codes_vector (hlen : xs.length ≤ 65535) (h : ∀ x ∈ xs, Codes reader (element x) x) :
    Codes (decodeVector reader) (encodeVector element xs) xs := by
  refine (codes_u16 (UInt16.ofNat xs.length)).bind ?_
  rw [toNat_size hlen]
  exact Codes.many h

lemma refuses_vector (hlen : xs.length ≤ 65535)
    (h : ∀ x ∈ xs, Codes reader (element x) x ∨ Refuses reader (element x))
    (hbad : ∃ x ∈ xs, Refuses reader (element x)) :
    Refuses (decodeVector reader) (encodeVector element xs) := by
  refine Refuses.bind (codes_u16 (UInt16.ofNat xs.length)) ?_
  rw [toNat_size hlen]
  exact Refuses.many h hbad

end Vectors

/-! ### Property values and definitions -/

lemma codes_i64 (i : Int64) : Codes decodeI64 (encodeU64 i.toUInt64) i := by
  have h := (codes_u64 i.toUInt64).map UInt64.toInt64
  rwa [Int64.toInt64_toUInt64] at h

variable {v : PropertyValue}

lemma codes_body (hfits : ValueFits v) (hidx : index v < 8) :
    Codes (decodeBody (index v)) (encodeBody v) v := by
  cases v with
  | null => exact Codes.pure _
  | bool b => exact (codes_flag b).map PropertyValue.bool
  | int64 i => exact (codes_i64 i).map PropertyValue.int64
  | double bits => exact (codes_u64 bits).map PropertyValue.double
  | string s => exact (codes_string hfits).map PropertyValue.string
  | int64Array xs =>
    exact (codes_vector hfits fun i _ => codes_i64 i).map PropertyValue.int64Array
  | doubleArray xs =>
    exact (codes_vector hfits fun bits _ => codes_u64 bits).map PropertyValue.doubleArray
  | stringArray xs =>
    exact (codes_vector hfits.1 fun s hs => codes_string (hfits.2 s hs)).map PropertyValue.stringArray
  | _ => exact absurd hidx (by simp [index])

lemma codes_propertyValue (hfits : ValueFits v) (hidx : index v < 8) :
    Codes decodePropertyValue (encodePropertyValue v) v :=
  (codes_u8 (index v)).bind (codes_body hfits hidx)

/-- The decoder has no case for an index the encoder writes without a body. -/
theorem refuses_propertyValue (hidx : ¬ index v < 8) :
    Refuses decodePropertyValue (encodePropertyValue v) := by
  have hbody : Refuses (decodeBody (index v)) (encodeBody v) := by
    cases v with
    | dateTime _ | time _ | duration _ | dateTimeArray _ | timeArray _ | durationArray _ | bytes _ =>
      exact refuses_throw _
    | _ => exact absurd (show _ < (8 : UInt8) by simp [index]) hidx
  exact Refuses.bind (codes_u8 (index v)) hbody

lemma PropertyType.ofCode_code (t : PropertyType) : ofCode (code t) = t := by
  cases t <;> rfl

lemma IndexState.ofCode_code (st : IndexState) : IndexState.ofCode (IndexState.code st) = st := by
  cases st <;> rfl

lemma codes_default {value : Option PropertyValue} (hfits : ∀ v, value = some v → ValueFits v)
    (hwritten : ∀ v, value = some v → index v < 8) :
    Codes decodeDefault (encodeDefault value) value := by
  cases value with
  | none => exact (codes_flag false).bind (Codes.pure none)
  | some v =>
    have hvalue := codes_propertyValue (hfits v rfl) (hwritten v rfl)
    exact (codes_flag true).bind (hvalue.map some)

lemma refuses_default (hidx : ¬ index v < 8) :
    Refuses decodeDefault (encodeDefault (some v)) := by
  have hvalue := (refuses_propertyValue hidx).bind_left (f := fun w => Pure.pure (some w)) []
  rw [append_nil] at hvalue
  exact Refuses.bind (codes_flag true) hvalue

lemma codes_propertyDef {p : PropertyDef} (hfits : p.Fits) (hdefault : p.DefaultWritten) :
    Codes decodePropertyDef (encodePropertyDef p) p := by
  obtain ⟨id, name, type, required, defaultValue⟩ := p
  have htail := (codes_default hfits.value hdefault).map
    (PropertyDef.mk id name (ofCode (code type)) required)
  have hread : Codes decodePropertyDef (encodePropertyDef ⟨id, name, type, required, defaultValue⟩)
      ⟨id, name, ofCode (code type), required, defaultValue⟩ :=
    (codes_u16 id).bind ((codes_string hfits.name).bind
      ((codes_u8 (code type)).bind ((codes_flag required).bind htail)))
  rwa [ofCode_code] at hread

lemma refuses_propertyDef {p : PropertyDef} (hfits : p.Fits) (hdefault : ¬ p.DefaultWritten) :
    Refuses decodePropertyDef (encodePropertyDef p) := by
  obtain ⟨id, name, type, required, defaultValue⟩ := p
  rw [PropertyDef.DefaultWritten] at hdefault
  push Not at hdefault
  obtain ⟨v, hv, hidx⟩ := hdefault
  obtain rfl : defaultValue = some v := hv
  have htail := (refuses_default (not_lt.mpr hidx)).bind_left (f := fun value => Pure.pure
    (PropertyDef.mk id name (ofCode (code type)) required value)) []
  rw [append_nil] at htail
  exact Refuses.bind (codes_u16 id) (Refuses.bind (codes_string hfits.name)
    (Refuses.bind (codes_u8 (code type)) (Refuses.bind (codes_flag required) htail)))

/-! ### Index definitions -/

lemma codes_accessor {acc : IndexAccessorDef} (h : acc.propertyName.length ≤ 65535) :
    Codes decodeAccessor (encodeAccessor acc) acc :=
  (codes_flag acc.isStrong).bind ((codes_u16 acc.sourceLabelId).bind
    ((codes_string h).map (IndexAccessorDef.mk acc.isStrong acc.sourceLabelId)))

lemma codes_indexDef {idx : IndexDef} (h : idx.Fits) : Codes decodeIndexDef (encodeIndexDef idx) idx := by
  obtain ⟨indexId, name, accessors, propIds, unique, state⟩ := idx
  have hstate := (codes_u8 (IndexState.code state)).map fun code =>
    (⟨indexId, name, accessors, propIds, unique, IndexState.ofCode code⟩ : IndexDef)
  rw [IndexState.ofCode_code] at hstate
  exact (codes_u32 indexId).bind ((codes_string h.name).bind
    ((codes_vector h.accessors fun acc hacc => codes_accessor (h.accessorNames acc hacc)).bind
      ((codes_vector h.propIds fun pid _ => codes_u16 pid).bind ((codes_flag unique).bind hstate))))

lemma codes_indexes {indexes : List IndexDef} (hlen : indexes.length ≤ 65535) (h : ∀ idx ∈ indexes, idx.Fits) :
    Codes (decodeVector decodeIndexDef) (encodeVector encodeIndexDef indexes) indexes :=
  codes_vector hlen fun idx hidx => codes_indexDef (h idx hidx)

/-! ### Property lists -/

section PropertyLists

variable {props : List PropertyDef}

lemma codes_properties (hlen : props.length ≤ 65535) (hfits : ∀ p ∈ props, p.Fits)
    (h : ∀ p ∈ props, p.DefaultWritten) :
    Codes (decodeVector decodePropertyDef) (encodeVector encodePropertyDef props) props :=
  codes_vector hlen fun p hp => codes_propertyDef (hfits p hp) (h p hp)

lemma refuses_properties (hlen : props.length ≤ 65535) (hfits : ∀ p ∈ props, p.Fits)
    (h : ¬ ∀ p ∈ props, p.DefaultWritten) :
    Refuses (decodeVector decodePropertyDef) (encodeVector encodePropertyDef props) := by
  push Not at h
  obtain ⟨bad, hbad, hdefault⟩ := h
  refine refuses_vector hlen (fun p hp => ?_) ⟨bad, hbad, refuses_propertyDef (hfits bad hbad) hdefault⟩
  by_cases hp' : p.DefaultWritten
  · exact Or.inl (codes_propertyDef (hfits p hp) hp')
  · exact Or.inr (refuses_propertyDef (hfits p hp) hp')

end PropertyLists

/-! ### The three formats -/

/-- Decoding what was written gives the same thing back, and nothing shorter decodes. -/
def RoundTrips {α : Type} (decode : Bytes → Except String α) (encoded : Bytes) (x : α) : Prop :=
  decode encoded = .ok x ∧
    ∀ part, part <+: encoded → part ≠ encoded → ∃ e, decode part = .error e

lemma roundTrips_of_codes {α : Type} {reader : Reader String α} {written : Bytes} {x : α}
    (h : Codes reader written x) : RoundTrips (decodeFrom reader) written x := by
  constructor
  · rw [decodeFrom, h.takes.run_eq]
  · intro part hpart hne
    obtain ⟨e, he⟩ := h.rejects part hpart hne
    exact ⟨e, by rw [decodeFrom, he]⟩

lemma not_roundTrips_of_refuses {α : Type} {reader : Reader String α} {written : Bytes} {x : α}
    (h : Refuses reader written) : ¬ RoundTrips (decodeFrom reader) written x := by
  rintro ⟨hok, _⟩
  obtain ⟨e, he⟩ := h []
  rw [append_nil] at he
  rw [decodeFrom, he] at hok
  exact (nomatch hok)

lemma labelDef_roundTrips_iff {d : LabelDef} (h : d.Fits) :
    RoundTrips decodeLabelDef (encodeLabelDef d) d ↔ ∀ p ∈ d.properties, p.DefaultWritten := by
  have hhead := codes_u16 d.id
  have hname := codes_string h.name
  constructor
  · intro hround
    by_contra hdefault
    have hprops := refuses_properties h.properties h.eachProperty hdefault
    exact not_roundTrips_of_refuses (Refuses.bind hhead (Refuses.bind hname (hprops.bind_left _))) hround
  · intro hdefault
    have hprops := codes_properties h.properties h.eachProperty hdefault
    have hpks := codes_vector h.pkPropIds fun pid _ => codes_u16 pid
    have hindexes := codes_indexes h.indexes h.eachIndex
    exact roundTrips_of_codes (hhead.bind (hname.bind (hprops.bind (hpks.bind
      (hindexes.map (LabelDef.mk d.id d.name d.properties d.pkPropIds))))))

lemma edgeLabelDef_roundTrips_iff {d : EdgeLabelDef} (h : d.Fits) :
    RoundTrips decodeEdgeLabelDef (encodeEdgeLabelDef d) d ↔ ∀ p ∈ d.properties, p.DefaultWritten := by
  have hhead := codes_u16 d.id
  have hname := codes_string h.name
  constructor
  · intro hround
    by_contra hdefault
    have hprops := refuses_properties h.properties h.eachProperty hdefault
    exact not_roundTrips_of_refuses (Refuses.bind hhead (Refuses.bind hname (hprops.bind_left _))) hround
  · intro hdefault
    have hprops := codes_properties h.properties h.eachProperty hdefault
    have hindexes := codes_indexes h.indexes h.eachIndex
    exact roundTrips_of_codes (hhead.bind (hname.bind (hprops.bind ((codes_flag d.directed).bind
      (hindexes.map (EdgeLabelDef.mk d.id d.name d.properties d.directed))))))

lemma nextIds_roundTrips (ids : NextIds) : RoundTrips decodeNextIds (encodeNextIds ids) ids :=
  roundTrips_of_codes ((codes_u64 ids.nextVertexId).bind ((codes_u64 ids.nextEdgeId).bind
    ((codes_u16 ids.nextLabelId).bind ((codes_u16 ids.nextEdgeLabelId).bind
      ((codes_u32 ids.nextIndexId).map (NextIds.mk ids.nextVertexId ids.nextEdgeId
        ids.nextLabelId ids.nextEdgeLabelId))))))

/-- A definition whose names and collections fit 16-bit lengths survives the codec, and its
strict prefixes are refused, exactly if every default value is of one of the alternatives
the codec has a branch for.  The counters always survive. -/
theorem metadataCodec_roundTrips_iff {d : LabelDef} (hd : d.Fits) {e : EdgeLabelDef} (he : e.Fits) (ids : NextIds) :
    (RoundTrips decodeLabelDef (encodeLabelDef d) d ↔ ∀ p ∈ d.properties, p.DefaultWritten) ∧
    (RoundTrips decodeEdgeLabelDef (encodeEdgeLabelDef e) e ↔ ∀ p ∈ e.properties, p.DefaultWritten) ∧
    RoundTrips decodeNextIds (encodeNextIds ids) ids :=
  ⟨labelDef_roundTrips_iff hd, edgeLabelDef_roundTrips_iff he, nextIds_roundTrips ids⟩

/-- A label `P` with one property `x` of the given default. -/
def labelWithDefault (value : PropertyValue) : LabelDef where
  id := 1
  name := [0x50]
  properties := [⟨0, [0x78], .ANY, false, some value⟩]
  pkPropIds := []
  indexes := []

lemma labelWithDefault_fits (value : PropertyValue) (h : ValueFits value) : (labelWithDefault value).Fits where
  name := by simp [labelWithDefault]
  properties := by simp [labelWithDefault]
  eachProperty := by
    intro p hp
    obtain rfl := mem_singleton.mp hp
    refine ⟨by simp, ?_⟩
    intro v hv
    obtain rfl := Option.some.inj hv
    exact h
  pkPropIds := by simp [labelWithDefault]
  indexes := by simp [labelWithDefault]
  eachIndex := fun _ hidx => absurd hidx not_mem_nil

/-- An edge type `T` with one property `x` of the given default. -/
def edgeLabelWithDefault (value : PropertyValue) : EdgeLabelDef where
  id := 1
  name := [0x54]
  properties := [⟨0, [0x78], .ANY, false, some value⟩]
  directed := true
  indexes := []

lemma edgeLabelWithDefault_fits (value : PropertyValue) (h : ValueFits value) :
    (edgeLabelWithDefault value).Fits where
  name := by simp [edgeLabelWithDefault]
  properties := (labelWithDefault_fits value h).properties
  eachProperty := (labelWithDefault_fits value h).eachProperty
  indexes := by simp [edgeLabelWithDefault]
  eachIndex := fun _ hidx => absurd hidx not_mem_nil

theorem metadataCodec_roundTrips_iff_intDefault :
    (labelWithDefault (.int64 7)).Fits ∧ (edgeLabelWithDefault (.int64 7)).Fits ∧
      RoundTrips decodeLabelDef (encodeLabelDef (labelWithDefault (.int64 7)))
        (labelWithDefault (.int64 7)) ∧
      RoundTrips decodeEdgeLabelDef (encodeEdgeLabelDef (edgeLabelWithDefault (.int64 7)))
        (edgeLabelWithDefault (.int64 7)) := by
  have hlabel := labelWithDefault_fits (.int64 7) trivial
  have hedge := edgeLabelWithDefault_fits (.int64 7) trivial
  have hwritten : ∀ p ∈ (labelWithDefault (.int64 7)).properties, p.DefaultWritten := by
    intro p hp v hv
    obtain rfl := mem_singleton.mp hp
    obtain rfl := Option.some.inj hv
    decide
  obtain ⟨hd, he, -⟩ := metadataCodec_roundTrips_iff hlabel hedge ⟨1, 1, 1, 1, 1⟩
  exact ⟨hlabel, hedge, hd.mpr hwritten, he.mpr hwritten⟩

/-- A duration as default is written as a lone tag, which the decoder does not know. -/
theorem durationDefault_does_not_decode : (labelWithDefault (.duration ⟨1, 0, 0, 0⟩)).Fits ∧
      decodeLabelDef (encodeLabelDef (labelWithDefault (.duration ⟨1, 0, 0, 0⟩))) =
        .error "MetadataCodec: unknown PropertyValue tag 10" ∧
      ¬ RoundTrips decodeLabelDef (encodeLabelDef (labelWithDefault (.duration ⟨1, 0, 0, 0⟩)))
        (labelWithDefault (.duration ⟨1, 0, 0, 0⟩)) := by
  have herror : decodeLabelDef (encodeLabelDef (labelWithDefault (.duration ⟨1, 0, 0, 0⟩))) =
      .error "MetadataCodec: unknown PropertyValue tag 10" := rfl
  refine ⟨labelWithDefault_fits _ trivial, herror, ?_⟩
  rintro ⟨hok, _⟩
  rw [herror] at hok
  exact (nomatch hok)

end Eugraph.MetadataCodec
