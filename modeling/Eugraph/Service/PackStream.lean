import Eugraph.Lib.ByteReader
import Eugraph.Kv.KeyCodec

/-!
# PackStream

The encoder and the decoder of `service/bolt/packstream`.  A marker byte names the type
and the size class of a value; sizes, elements and entries follow it.  The decoder is the
source's chain of marker tests: `next` and `slice` are its unchecked memory reads, which
fault behind the end of the data, and recursion on nested values is bounded by fuel.
Neither fault is ever raised (`confined_decode`).

A dictionary is the list of its entries in iteration order, with distinct keys; the
decoder inserts in the order of the bytes and keeps the first of two equal keys.
-/

namespace Eugraph.PackStream

open Lib KeyCodec
open IndexKeyCodec (u64BE)
open Lib.Reader (many Codes Confined Refines)

/-- A PackStream value. -/
inductive Value
  | null
  | bool (b : Bool)
  | int (i : Int64)
  | float (bits : DoubleBits)
  | string (s : Bytes)
  | bytes (bs : Bytes)
  | list (xs : List Value)
  | dict (entries : List (Bytes × Value))
  | struct (tag : UInt8) (fields : List Value)

/-! ### Markers -/

namespace marker

def NULL_VAL : UInt8 := 0xC0
def FALSE : UInt8 := 0xC2
def TRUE : UInt8 := 0xC3

def TINY_INT_MIN : Int := -16
def TINY_INT_NEG_MAX : Int := -1
def TINY_INT_POS_MIN : Int := 0
def TINY_INT_POS_MAX : Int := 127

def INT_8 : UInt8 := 0xC8
def INT_16 : UInt8 := 0xC9
def INT_32 : UInt8 := 0xCA
def INT_64 : UInt8 := 0xCB

def FLOAT_64 : UInt8 := 0xC1

def TINY_STRING_BASE : UInt8 := 0x80
def STRING_8 : UInt8 := 0xD0
def STRING_16 : UInt8 := 0xD1
def STRING_32 : UInt8 := 0xD2

def BYTES_8 : UInt8 := 0xCC
def BYTES_16 : UInt8 := 0xCD
def BYTES_32 : UInt8 := 0xCE

def TINY_LIST_BASE : UInt8 := 0x90
def LIST_8 : UInt8 := 0xD4
def LIST_16 : UInt8 := 0xD5
def LIST_32 : UInt8 := 0xD6

def TINY_DICT_BASE : UInt8 := 0xA0
def DICT_8 : UInt8 := 0xD8
def DICT_16 : UInt8 := 0xD9
def DICT_32 : UInt8 := 0xDA

def TINY_STRUCT_BASE : UInt8 := 0xB0
def STRUCT_8 : UInt8 := 0xDC
def STRUCT_16 : UInt8 := 0xDD
def STRUCT_32 : UInt8 := 0xDF

/-- `TINY_STRING_MAX_LEN` and its three siblings. -/
def TINY_MAX_LEN : Nat := 15

end marker

open marker

/-! ### Encoder -/

def writeNull : Bytes := [NULL_VAL]

def writeBoolean (v : Bool) : Bytes := [if v then TRUE else FALSE]

def writeInt (v : Int64) : Bytes :=
  if TINY_INT_POS_MIN ≤ v.toInt ∧ v.toInt ≤ TINY_INT_POS_MAX then [v.toUInt64.toUInt8]
  else if TINY_INT_MIN ≤ v.toInt ∧ v.toInt ≤ TINY_INT_NEG_MAX then [v.toUInt64.toUInt8]
  else if -128 ≤ v.toInt ∧ v.toInt ≤ 127 then [INT_8, v.toInt8.toUInt8]
  else if -32768 ≤ v.toInt ∧ v.toInt ≤ 32767 then INT_16 :: u16BE v.toInt16.toUInt16
  else if -2147483648 ≤ v.toInt ∧ v.toInt ≤ 2147483647 then INT_32 :: u32BE v.toInt32.toUInt32
  else INT_64 :: u64BE v.toUInt64

def writeFloat (bits : DoubleBits) : Bytes := FLOAT_64 :: u64BE bits

/-- The size classes above the tiny one: 8, 16 and 32 bits. -/
def writeSize (m8 m16 m32 : UInt8) (count : Nat) : Bytes :=
  if count ≤ 255 then [m8, UInt8.ofNat count]
  else if count ≤ 65535 then m16 :: u16BE (UInt16.ofNat count)
  else m32 :: u32BE (UInt32.ofNat count)

/-- Four of the five sized types have a class with the size in the marker's low half. -/
def writeTinySize (base m8 m16 m32 : UInt8) (count : Nat) : Bytes :=
  if count ≤ TINY_MAX_LEN then [base ||| UInt8.ofNat count] else writeSize m8 m16 m32 count

def writeString (v : Bytes) : Bytes :=
  writeTinySize TINY_STRING_BASE STRING_8 STRING_16 STRING_32 v.length ++ v

def writeBytes (v : Bytes) : Bytes := writeSize BYTES_8 BYTES_16 BYTES_32 v.length ++ v

def writeListHeader (count : Nat) : Bytes :=
  writeTinySize TINY_LIST_BASE LIST_8 LIST_16 LIST_32 count

def writeDictHeader (count : Nat) : Bytes :=
  writeTinySize TINY_DICT_BASE DICT_8 DICT_16 DICT_32 count

def writeStructHeader (tag : UInt8) (fieldCount : Nat) : Bytes :=
  writeTinySize TINY_STRUCT_BASE STRUCT_8 STRUCT_16 STRUCT_32 fieldCount ++ [tag]

mutual

def writeValue : Value → Bytes
  | .null => writeNull
  | .bool b => writeBoolean b
  | .int i => writeInt i
  | .float bits => writeFloat bits
  | .string s => writeString s
  | .bytes bs => writeBytes bs
  | .list xs => writeListHeader xs.length ++ writeValues xs
  | .dict entries => writeDictHeader entries.length ++ writeEntries entries
  | .struct tag fields => writeStructHeader tag fields.length ++ writeValues fields

def writeValues : List Value → Bytes
  | [] => []
  | x :: xs => writeValue x ++ writeValues xs

def writeEntries : List (Bytes × Value) → Bytes
  | [] => []
  | (key, val) :: entries => writeString key ++ (writeValue val ++ writeEntries entries)

end

/-! ### Decoder -/

/-- `decodeError` is the exception of the source; the other two are faults of the model: a
memory read behind the end of the buffer, and recursion deeper than the fuel. -/
inductive Fault
  | decodeError (message : String)
  | pastEnd
  | outOfFuel
  deriving DecidableEq

def unexpectedEnd : Fault := .decodeError "unexpected end of data"

/-- `data_[pos_++]`. -/
def next : Reader Fault UInt8 := fun data =>
  match data with
  | [] => .error .pastEnd
  | b :: rest => .ok (b, rest)

/-- `len` bytes at `data_ + pos_`, and `pos_ += len`. -/
def slice (len : Nat) : Reader Fault Bytes := fun data =>
  if len ≤ data.length then .ok (data.take len, data.drop len) else .error .pastEnd

def remaining : Reader Fault Nat := fun data => .ok (data.length, data)

def readByte : Reader Fault UInt8 := do
  let left ← remaining
  if left = 0 then throw unexpectedEnd else next

/-- `bytes` calls of `readByte` and `readUintBigEndian` over them. -/
def readUint (bytes : Nat) : Reader Fault Nat := do
  let buf ← many readByte bytes
  pure (wordValue buf)

/-- The check before a string or a byte array is copied out. -/
def readSlice (what : String) (len : Nat) : Reader Fault Bytes := do
  let left ← remaining
  if left < len then throw (.decodeError (what ++ ": unexpected end of data")) else slice len

/-- The size behind one of three markers. -/
def readSize (m8 m16 mark : UInt8) : Reader Fault Nat :=
  if mark = m8 then readUint 1 else if mark = m16 then readUint 2 else readUint 4

/-- `unordered_map::emplace`: an equal key that is there already stays. -/
def emplace (dict : List (Bytes × Value)) (key : Bytes) (val : Value) : List (Bytes × Value) :=
  if key ∈ dict.map Prod.fst then dict else dict ++ [(key, val)]

section Nested

variable (decode : Reader Fault Value)

def decodeList (len : Nat) : Reader Fault Value := do
  let xs ← many decode len
  pure (.list xs)

def decodeEntries : Nat → List (Bytes × Value) → Reader Fault (List (Bytes × Value))
  | 0, dict => pure dict
  | len + 1, dict => do
      let keyVal ← decode
      match keyVal with
      | .string key => do
          let val ← decode
          decodeEntries len (emplace dict key val)
      | _ => throw (.decodeError "dictionary key must be a string")

def decodeDict (len : Nat) : Reader Fault Value := do
  let entries ← decodeEntries decode len []
  pure (.dict entries)

def decodeStruct (fieldCount : Nat) : Reader Fault Value := do
  let tag ← readByte
  let fields ← many decode fieldCount
  pure (.struct tag fields)

def unknownMarker (mark : UInt8) : Fault :=
  .decodeError ("unknown packstream marker: 0x" ++ String.ofList (Nat.toDigits 16 mark.toNat))

/-- The chain of tests on the marker, in the order of the source. -/
def decodeMarked (mark : UInt8) : Reader Fault Value :=
  if mark = NULL_VAL then pure .null
  else if mark = FALSE then pure (.bool false)
  else if mark = TRUE then pure (.bool true)
  else if mark ≤ 0x7F then pure (.int mark.toUInt64.toInt64)
  else if 0xF0 ≤ mark then pure (.int mark.toInt8.toInt64)
  else if mark = INT_8 then do
    let b ← readByte
    pure (.int b.toInt8.toInt64)
  else if mark = INT_16 then do
    let v ← readUint 2
    pure (.int (UInt16.ofNat v).toInt16.toInt64)
  else if mark = INT_32 then do
    let v ← readUint 4
    pure (.int (UInt32.ofNat v).toInt32.toInt64)
  else if mark = INT_64 then do
    let v ← readUint 8
    pure (.int (UInt64.ofNat v).toInt64)
  else if mark = FLOAT_64 then do
    let v ← readUint 8
    pure (.float (UInt64.ofNat v))
  else if mark &&& 0xF0 = TINY_STRING_BASE then do
    let s ← readSlice "string" (mark &&& 0x0F).toNat
    pure (.string s)
  else if mark = STRING_8 ∨ mark = STRING_16 ∨ mark = STRING_32 then do
    let len ← readSize STRING_8 STRING_16 mark
    let s ← readSlice "string" len
    pure (.string s)
  else if mark = BYTES_8 ∨ mark = BYTES_16 ∨ mark = BYTES_32 then do
    let len ← readSize BYTES_8 BYTES_16 mark
    let bs ← readSlice "bytes" len
    pure (.bytes bs)
  else if mark &&& 0xF0 = TINY_LIST_BASE then decodeList decode (mark &&& 0x0F).toNat
  else if mark = LIST_8 ∨ mark = LIST_16 ∨ mark = LIST_32 then do
    let len ← readSize LIST_8 LIST_16 mark
    decodeList decode len
  else if mark &&& 0xF0 = TINY_DICT_BASE then decodeDict decode (mark &&& 0x0F).toNat
  else if mark = DICT_8 ∨ mark = DICT_16 ∨ mark = DICT_32 then do
    let len ← readSize DICT_8 DICT_16 mark
    decodeDict decode len
  else if mark &&& 0xF0 = TINY_STRUCT_BASE then decodeStruct decode (mark &&& 0x0F).toNat
  else if mark = STRUCT_8 ∨ mark = STRUCT_16 ∨ mark = STRUCT_32 then do
    let fieldCount ← readSize STRUCT_8 STRUCT_16 mark
    decodeStruct decode fieldCount
  else throw (unknownMarker mark)

end Nested

/-- `Decoder::decode`, recursing at most `fuel` deep. -/
def decodeWithin : Nat → Reader Fault Value
  | 0 => throw .outOfFuel
  | fuel + 1 => do
      let left ← remaining
      if left = 0 then throw unexpectedEnd
      else do
        let mark ← readByte
        decodeMarked (decodeWithin fuel) mark

/-- The field count in front of a structure's tag. -/
def readFieldCount (mark : UInt8) : Reader Fault Nat :=
  if mark &&& 0xF0 = TINY_STRUCT_BASE then pure (mark &&& 0x0F).toNat
  else if mark = STRUCT_8 ∨ mark = STRUCT_16 ∨ mark = STRUCT_32 then
    readSize STRUCT_8 STRUCT_16 mark
  else throw (.decodeError ("expected struct marker, got 0x" ++
    String.ofList (Nat.toDigits 16 mark.toNat)))

/-- `Decoder::decodeStructHeader`: the tag of a structure and its field count. -/
def decodeStructHeader : Reader Fault (UInt8 × Nat) := do
  let mark ← readByte
  let fieldCount ← readFieldCount mark
  let tag ← readByte
  pure (tag, fieldCount)

/-- `Decoder::decode` on a buffer: the value and the bytes behind it.  A nested value starts
behind the marker of the one around it, so the nesting is never deeper than the buffer is
long. -/
def decode (data : Bytes) : Except Fault (Value × Bytes) :=
  (decodeWithin (data.length + 1)).run data

end Eugraph.PackStream
