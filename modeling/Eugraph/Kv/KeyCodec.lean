import Eugraph.Kv.IndexKeyCodec

/-!
# `KeyCodec`

Row keys of the data tables (`storage/kv/key_codec.cpp`).  Every key is a fixed
sequence of big-endian words, so two keys are equal exactly when their fields are,
and a prefix scan selects exactly the rows with the given leading fields.
-/

namespace Eugraph.KeyCodec

open Lib List
open IndexKeyCodec (u64BE length_u64BE u64BE_inj)

/-- Two big-endian bytes (`encodeU16BE`). -/
def u16BE (v : UInt16) : Bytes := wordBytes 2 v.toNat

/-- Four big-endian bytes. -/
def u32BE (v : UInt32) : Bytes := wordBytes 4 v.toNat

def decodeU64BE (data : Bytes) (offset : Nat) : UInt64 :=
  UInt64.ofNat (wordValue ((data.drop offset).take 8))

def decodeU16BE (data : Bytes) (offset : Nat) : UInt16 :=
  UInt16.ofNat (wordValue ((data.drop offset).take 2))

def decodeU32BE (data : Bytes) (offset : Nat) : UInt32 :=
  UInt32.ofNat (wordValue ((data.drop offset).take 4))

/-! ### Keys with the vertex id alone -/

def encodeLabelForwardKey (vertexId : VertexId) : Bytes := u64BE vertexId
def decodeLabelForwardKey (key : Bytes) : VertexId := decodeU64BE key 0
def encodeVertexSummaryKey (vertexId : VertexId) : Bytes := u64BE vertexId
def encodeVertexExistenceKey (vertexId : VertexId) : Bytes := u64BE vertexId

/-! ### `vertex_data` -/

inductive VertexDataKind
  | LABEL
  | PROPERTY
  | OUT_ADJACENCY
  | IN_ADJACENCY
  deriving DecidableEq

def VertexDataKind.byte : VertexDataKind → UInt8
  | .LABEL => 0
  | .PROPERTY => 1
  | .OUT_ADJACENCY => 2
  | .IN_ADJACENCY => 3

/-- `key[8]`. -/
def vertexDataKind (key : Bytes) : UInt8 := key.getD 8 0

/-- Rows of one vertex: the id, one discriminating byte, the rest. -/
def sectionKey (vertexId : VertexId) (kindByte : UInt8) (rest : Bytes) : Bytes :=
  u64BE vertexId ++ kindByte :: rest

def encodeVertexDataLabelKey (vertexId : VertexId) (labelId : LabelId) : Bytes :=
  sectionKey vertexId VertexDataKind.LABEL.byte (u16BE labelId)

def decodeVertexDataLabelKey (key : Bytes) : LabelId := decodeU16BE key 9

def encodeVertexDataLabelPrefix (vertexId : VertexId) : Bytes :=
  sectionKey vertexId VertexDataKind.LABEL.byte []

def encodeVertexDataPropKey (vertexId : VertexId) (labelId : LabelId) (propId : PropId) : Bytes :=
  sectionKey vertexId VertexDataKind.PROPERTY.byte (u16BE labelId ++ u16BE propId)

def decodeVertexDataPropKey (key : Bytes) : LabelId × PropId :=
  (decodeU16BE key 9, decodeU16BE key 11)

/-- `encodeVertexDataPropPrefix(vertex_id)`. -/
def encodeVertexDataPropPrefix (vertexId : VertexId) : Bytes :=
  sectionKey vertexId VertexDataKind.PROPERTY.byte []

/-- `encodeVertexDataPropPrefix(vertex_id, label_id)`. -/
def encodeVertexDataLabelPropPrefix (vertexId : VertexId) (labelId : LabelId) : Bytes :=
  sectionKey vertexId VertexDataKind.PROPERTY.byte (u16BE labelId)

def encodeVertexDataVertexPrefix (vertexId : VertexId) : Bytes := u64BE vertexId

/-- The kind of a direction's adjacency rows. -/
def adjacencyKind (direction : Direction) : VertexDataKind :=
  if direction = .IN then .IN_ADJACENCY else .OUT_ADJACENCY

def encodeVertexDataAdjStateKey (vertexId : VertexId) (direction : Direction) : Bytes :=
  sectionKey vertexId (adjacencyKind direction).byte []

def encodeVertexDataAdjPrefix (vertexId : VertexId) (direction : Direction) : Bytes :=
  encodeVertexDataAdjStateKey vertexId direction

/-- `VertexDataAdjEdgeKey`, which has the fields of `EdgeIndexKey`. -/
structure EdgeIndexKey where
  vertexId : VertexId
  direction : Direction
  edgeLabelId : EdgeLabelId
  neighborId : VertexId
  seq : UInt64
  deriving DecidableEq

/-- The fields that follow vertex and direction. -/
def adjacencySuffix (edgeLabelId : EdgeLabelId) (neighborId : VertexId) (seq : UInt64) : Bytes :=
  u16BE edgeLabelId ++ (u64BE neighborId ++ u64BE seq)

def encodeVertexDataAdjEdgeKey (k : EdgeIndexKey) : Bytes :=
  sectionKey k.vertexId (adjacencyKind k.direction).byte
    (adjacencySuffix k.edgeLabelId k.neighborId k.seq)

def decodeVertexDataAdjEdgeKey (key : Bytes) : EdgeIndexKey where
  vertexId := decodeU64BE key 0
  direction := if vertexDataKind key = VertexDataKind.IN_ADJACENCY.byte then .IN else .OUT
  edgeLabelId := decodeU16BE key 9
  neighborId := decodeU64BE key 11
  seq := decodeU64BE key 19

def isVertexDataAdjStateKey (key : Bytes) : Bool := key.length = 9

inductive AdjacencyCacheState
  | COMPLETE
  | OVERFLOW
  deriving DecidableEq

def encodeAdjacencyState (state : AdjacencyCacheState) (count : UInt32) : Bytes :=
  (match state with
    | .COMPLETE => 0
    | .OVERFLOW => 1) :: u32BE count

/-- Too short a value reads as `OVERFLOW`.  The first byte is cast to the enumeration;
no other bytes than the two of `encodeAdjacencyState` are ever stored. -/
def decodeAdjacencyState (value : Bytes) : AdjacencyCacheState × UInt32 :=
  if value.length < 5 then (.OVERFLOW, 0)
  else (if value.getD 0 0 = 0 then .COMPLETE else .OVERFLOW, decodeU32BE value 1)

/-! ### `edge_index` -/

/-- `static_cast<uint8_t>(direction)`. -/
def directionByte : Direction → UInt8
  | .OUT => 0
  | .IN => 1
  | .BOTH => 2

def encodeEdgeIndexKey (k : EdgeIndexKey) : Bytes :=
  sectionKey k.vertexId (directionByte k.direction)
    (adjacencySuffix k.edgeLabelId k.neighborId k.seq)

def decodeEdgeIndexKey (key : Bytes) : EdgeIndexKey where
  vertexId := decodeU64BE key 0
  direction := if key.getD 8 0 = 0 then .OUT else if key.getD 8 0 = 1 then .IN else .BOTH
  edgeLabelId := decodeU16BE key 9
  neighborId := decodeU64BE key 11
  seq := decodeU64BE key 19

/-- `encodeEdgeIndexPrefix(vertex_id, direction)`. -/
def encodeEdgeIndexPrefix (vertexId : VertexId) (direction : Direction) : Bytes :=
  sectionKey vertexId (directionByte direction) []

/-- `encodeEdgeIndexPrefix(vertex_id, direction, label_id)`. -/
def encodeEdgeIndexLabelPrefix (vertexId : VertexId) (direction : Direction)
    (labelId : EdgeLabelId) : Bytes :=
  sectionKey vertexId (directionByte direction) (u16BE labelId)

/-! ### `etype_*` and `eprop_*` -/

structure EdgeTypeIndexKey where
  srcVertexId : VertexId
  dstVertexId : VertexId
  seq : UInt64
  deriving DecidableEq

def encodeEdgeTypeIndexKey (k : EdgeTypeIndexKey) : Bytes :=
  u64BE k.srcVertexId ++ (u64BE k.dstVertexId ++ u64BE k.seq)

def decodeEdgeTypeIndexKey (key : Bytes) : EdgeTypeIndexKey where
  srcVertexId := decodeU64BE key 0
  dstVertexId := decodeU64BE key 8
  seq := decodeU64BE key 16

def encodeEPropKey (edgeId : EdgeId) (propId : PropId) : Bytes := u64BE edgeId ++ u16BE propId

def decodeEPropKey (key : Bytes) : EdgeId × PropId := (decodeU64BE key 0, decodeU16BE key 8)

def encodeEPropPrefix (edgeId : EdgeId) : Bytes := u64BE edgeId

/-! ### Words -/

@[simp] lemma length_u16BE (v : UInt16) : (u16BE v).length = 2 := by simp [u16BE]

@[simp] lemma length_u32BE (v : UInt32) : (u32BE v).length = 4 := by simp [u32BE]

@[simp] lemma u16BE_inj {a b : UInt16} : u16BE a = u16BE b ↔ a = b := by
  have hword : ∀ v : UInt16, v.toNat < 256 ^ 2 := fun v => v.toNat_lt
  constructor
  · intro h
    exact UInt16.toNat_inj.mp (wordBytes_injective (hword a) (hword b) h)
  · rintro rfl
    rfl

/-- Reading a word where it was written. -/
theorem decodeU64BE_append (pre post : Bytes) (v : UInt64) {offset : Nat}
    (hoffset : pre.length = offset) : decodeU64BE (pre ++ (u64BE v ++ post)) offset = v := by
  rw [decodeU64BE, ← hoffset, drop_left, take_append_of_le_length (by simp),
    take_of_length_le (by simp), u64BE, wordValue_wordBytes (IndexKeyCodec.toNat_lt_word v),
    UInt64.ofNat_toNat]

lemma decodeU16BE_append (pre post : Bytes) (v : UInt16) {offset : Nat}
    (hoffset : pre.length = offset) : decodeU16BE (pre ++ (u16BE v ++ post)) offset = v := by
  rw [decodeU16BE, ← hoffset, drop_left, take_append_of_le_length (by simp),
    take_of_length_le (by simp), u16BE, wordValue_wordBytes v.toNat_lt, UInt16.ofNat_toNat]

lemma decodeU32BE_append (pre post : Bytes) (v : UInt32) {offset : Nat}
    (hoffset : pre.length = offset) : decodeU32BE (pre ++ (u32BE v ++ post)) offset = v := by
  rw [decodeU32BE, ← hoffset, drop_left, take_append_of_le_length (by simp),
    take_of_length_le (by simp), u32BE, wordValue_wordBytes v.toNat_lt, UInt32.ofNat_toNat]

/-! ### Fields decide keys -/

@[simp] lemma sectionKey_inj {vid vid' : VertexId} {sec sec' : UInt8} {rest rest' : Bytes} :
    sectionKey vid sec rest = sectionKey vid' sec' rest' ↔ vid = vid' ∧ sec = sec' ∧ rest = rest' := by
  constructor
  · intro h
    obtain ⟨hvid, hrest⟩ := append_inj h (by simp)
    rw [List.cons.injEq] at hrest
    exact ⟨u64BE_inj.mp hvid, hrest⟩
  · rintro ⟨rfl, rfl, rfl⟩
    rfl

lemma sectionKey_isPrefix_iff {vid vid' : VertexId} {sec sec' : UInt8} {rest rest' : Bytes} :
    sectionKey vid sec rest <+: sectionKey vid' sec' rest' ↔ vid = vid' ∧ sec = sec' ∧ rest <+: rest' := by
  rw [sectionKey, sectionKey, append_isPrefix_append_iff (by simp), u64BE_inj,
    cons_prefix_cons]

lemma sectionKey_append (vid : VertexId) (sec : UInt8) (rest tail : Bytes) :
    sectionKey vid sec rest ++ tail = sectionKey vid sec (rest ++ tail) := by
  simp [sectionKey]

@[simp] lemma length_sectionKey (vid : VertexId) (sec : UInt8) (rest : Bytes) :
    (sectionKey vid sec rest).length = 9 + rest.length := by
  simp [sectionKey]
  omega

lemma vertexDataKind_sectionKey (vid : VertexId) (sec : UInt8) (rest : Bytes) :
    vertexDataKind (sectionKey vid sec rest) = sec := by
  simp [vertexDataKind, sectionKey, getD_eq_getElem?_getD]

@[simp] lemma length_adjacencySuffix (l : EdgeLabelId) (n : VertexId) (q : UInt64) :
    (adjacencySuffix l n q).length = 18 := by
  simp [adjacencySuffix]

@[simp] lemma adjacencySuffix_inj {l l' : EdgeLabelId} {n n' : VertexId} {q q' : UInt64} :
    adjacencySuffix l n q = adjacencySuffix l' n' q' ↔ l = l' ∧ n = n' ∧ q = q' := by
  constructor
  · intro h
    obtain ⟨hl, hrest⟩ := append_inj h (by simp)
    obtain ⟨hn, hq⟩ := append_inj hrest (by simp)
    exact ⟨u16BE_inj.mp hl, u64BE_inj.mp hn, u64BE_inj.mp hq⟩
  · rintro ⟨rfl, rfl, rfl⟩
    rfl

lemma u16BE_isPrefix_adjacencySuffix {l l' : EdgeLabelId} {n : VertexId} {q : UInt64} :
    u16BE l <+: adjacencySuffix l' n q ↔ l = l' := by
  rw [adjacencySuffix, ← append_nil (u16BE l), append_isPrefix_append_iff (by simp),
    u16BE_inj]
  simp

@[simp] lemma encodeEdgeTypeIndexKey_inj {k k' : EdgeTypeIndexKey} :
    encodeEdgeTypeIndexKey k = encodeEdgeTypeIndexKey k' ↔ k = k' := by
  constructor
  · intro h
    obtain ⟨hsrc, hrest⟩ := append_inj h (by simp)
    obtain ⟨hdst, hseq⟩ := append_inj hrest (by simp)
    cases k
    cases k'
    simp only [EdgeTypeIndexKey.mk.injEq]
    exact ⟨u64BE_inj.mp hsrc, u64BE_inj.mp hdst, u64BE_inj.mp hseq⟩
  · rintro rfl
    rfl

@[simp] lemma decodeEPropKey_encode (e : EdgeId) (p : PropId) : decodeEPropKey (encodeEPropKey e p) = (e, p) := by
  have he := decodeU64BE_append [] (u16BE p) e rfl
  have hp := decodeU16BE_append (u64BE e) [] p (by simp : _ = 8)
  rw [append_nil] at hp
  exact Prod.ext he hp

@[simp] lemma encodeEPropKey_inj {e e' : EdgeId} {p p' : PropId} :
    encodeEPropKey e p = encodeEPropKey e' p' ↔ e = e' ∧ p = p' := by
  constructor
  · intro h
    obtain ⟨he, hp⟩ := append_inj h (by simp)
    exact ⟨u64BE_inj.mp he, u16BE_inj.mp hp⟩
  · rintro ⟨rfl, rfl⟩
    rfl

/-! ### Decoders read back what the encoders write -/

/-- The three fields behind vertex and section byte. -/
theorem decode_sectionKey_adjacencySuffix (vid : VertexId) (sec : UInt8) (l : EdgeLabelId)
    (n : VertexId) (q : UInt64) :
    decodeU64BE (sectionKey vid sec (adjacencySuffix l n q)) 0 = vid ∧
    decodeU16BE (sectionKey vid sec (adjacencySuffix l n q)) 9 = l ∧
    decodeU64BE (sectionKey vid sec (adjacencySuffix l n q)) 11 = n ∧
    decodeU64BE (sectionKey vid sec (adjacencySuffix l n q)) 19 = q := by
  have hvid := decodeU64BE_append [] (sec :: adjacencySuffix l n q) vid rfl
  have hl := decodeU16BE_append (u64BE vid ++ [sec]) (u64BE n ++ u64BE q) l (by simp : _ = 9)
  have hn := decodeU64BE_append (u64BE vid ++ sec :: u16BE l) (u64BE q) n (by simp : _ = 11)
  have hq := decodeU64BE_append (u64BE vid ++ sec :: (u16BE l ++ u64BE n)) [] q (by simp : _ = 19)
  refine ⟨?_, ?_, ?_, ?_⟩
  · simpa [sectionKey] using hvid
  · simpa [sectionKey, adjacencySuffix] using hl
  · simpa [sectionKey, adjacencySuffix] using hn
  · simpa [sectionKey, adjacencySuffix] using hq

lemma decodeVertexDataLabelKey_encode (vid : VertexId) (l : LabelId) :
    decodeVertexDataLabelKey (encodeVertexDataLabelKey vid l) = l := by
  have hl := decodeU16BE_append (u64BE vid ++ [VertexDataKind.LABEL.byte]) [] l (by simp : _ = 9)
  simpa [decodeVertexDataLabelKey, encodeVertexDataLabelKey, sectionKey] using hl

lemma decodeVertexDataPropKey_encode (vid : VertexId) (l : LabelId) (p : PropId) :
    decodeVertexDataPropKey (encodeVertexDataPropKey vid l p) = (l, p) := by
  have hl := decodeU16BE_append (u64BE vid ++ [VertexDataKind.PROPERTY.byte]) (u16BE p) l (by simp : _ = 9)
  have hp := decodeU16BE_append (u64BE vid ++ VertexDataKind.PROPERTY.byte :: u16BE l) [] p (by simp : _ = 11)
  rw [decodeVertexDataPropKey, Prod.mk.injEq]
  constructor
  · simpa [encodeVertexDataPropKey, sectionKey] using hl
  · simpa [encodeVertexDataPropKey, sectionKey] using hp

lemma decodeAdjacencyState_encode (state : AdjacencyCacheState) (count : UInt32) :
    decodeAdjacencyState (encodeAdjacencyState state count) = (state, count) := by
  have hcount : ∀ b : UInt8, decodeU32BE (b :: u32BE count) 1 = count := by
    intro b
    simpa using decodeU32BE_append [b] [] count (by simp : _ = 1)
  cases state <;> simp [decodeAdjacencyState, encodeAdjacencyState, hcount]

lemma decodeEdgeTypeIndexKey_encode (k : EdgeTypeIndexKey) :
    decodeEdgeTypeIndexKey (encodeEdgeTypeIndexKey k) = k := by
  have hsrc := decodeU64BE_append [] (u64BE k.dstVertexId ++ u64BE k.seq) k.srcVertexId rfl
  have hdst := decodeU64BE_append (u64BE k.srcVertexId) (u64BE k.seq) k.dstVertexId (by simp : _ = 8)
  have hseq := decodeU64BE_append (u64BE k.srcVertexId ++ u64BE k.dstVertexId) [] k.seq (by simp : _ = 16)
  cases k
  simp only [decodeEdgeTypeIndexKey, EdgeTypeIndexKey.mk.injEq]
  refine ⟨?_, ?_, ?_⟩
  · simpa [encodeEdgeTypeIndexKey] using hsrc
  · simpa [encodeEdgeTypeIndexKey] using hdst
  · simpa [encodeEdgeTypeIndexKey] using hseq

end Eugraph.KeyCodec
