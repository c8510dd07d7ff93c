import Eugraph.Lib.FieldWords
import Eugraph.Kv.KeyCodec

/-!
# Keys as tuples

Every key of `storage/kv/key_codec.cpp` is the tuple of its fields in big-endian words, so its
order, its prefixes and the kind of its record are those of the tuple.
-/

namespace Eugraph.KeyCodec

open Lib List
open IndexKeyCodec (u64BE)

def decodeVertexExistenceKey (key : Bytes) : VertexId := decodeU64BE key 0

/-- `encodeEdgeIndexPrefix(vertex_id, direction, label_id, neighbor_id)`. -/
def encodeEdgeIndexNeighborPrefix (vertexId : VertexId) (direction : Direction) (labelId : EdgeLabelId)
    (neighborId : VertexId) : Bytes :=
  sectionKey vertexId (directionByte direction) (u16BE labelId ++ u64BE neighborId)

/-- `encodeEdgeTypeIndexPrefix`, by the number of its arguments. -/
def encodeEdgeTypeIndexPrefix : Bytes := []
def encodeEdgeTypeIndexSrcPrefix (srcId : VertexId) : Bytes := u64BE srcId
def encodeEdgeTypeIndexPairPrefix (srcId dstId : VertexId) : Bytes := u64BE srcId ++ u64BE dstId

/-- The key kinds, with their fields. -/
inductive Key
  | labelForward (vertexId : VertexId)
  | vertexSummary (vertexId : VertexId)
  | vertexExistence (vertexId : VertexId)
  | label (vertexId : VertexId) (labelId : LabelId)
  | property (vertexId : VertexId) (labelId : LabelId) (propId : PropId)
  | adjacencyState (vertexId : VertexId) (direction : Direction)
  | adjacencyEdge (k : EdgeIndexKey)
  | edgeIndex (k : EdgeIndexKey)
  | edgeType (k : EdgeTypeIndexKey)
  | edgeProperty (edgeId : EdgeId) (propId : PropId)

/-- The key spaces. -/
inductive Space
  | labelForward
  | vertexSummary
  | vertexExistence
  | vertexData
  | edgeIndex
  | edgeType
  | edgeProperty
  deriving DecidableEq

def word8 (v : UInt8) : FieldWord := ⟨1, v.toNat, by omega, v.toNat_lt⟩
def word16 (v : UInt16) : FieldWord := ⟨2, v.toNat, by omega, v.toNat_lt⟩
def word64 (v : UInt64) : FieldWord := ⟨8, v.toNat, by omega, IndexKeyCodec.toNat_lt_word v⟩

namespace Key

def space : Key → Space
  | labelForward _ => .labelForward
  | vertexSummary _ => .vertexSummary
  | vertexExistence _ => .vertexExistence
  | label .. | property .. | adjacencyState .. | adjacencyEdge _ => .vertexData
  | edgeIndex _ => .edgeIndex
  | edgeType _ => .edgeType
  | edgeProperty .. => .edgeProperty

def encode : Key → Bytes
  | labelForward vid => encodeLabelForwardKey vid
  | vertexSummary vid => encodeVertexSummaryKey vid
  | vertexExistence vid => encodeVertexExistenceKey vid
  | label vid l => encodeVertexDataLabelKey vid l
  | property vid l p => encodeVertexDataPropKey vid l p
  | adjacencyState vid direction => encodeVertexDataAdjStateKey vid direction
  | adjacencyEdge k => encodeVertexDataAdjEdgeKey k
  | edgeIndex k => encodeEdgeIndexKey k
  | edgeType k => encodeEdgeTypeIndexKey k
  | edgeProperty e p => encodeEPropKey e p

/-- The fields in the order of the key; in `vertex_data` the kind of the record is one of them,
and the direction of an adjacency record is part of it. -/
def fields : Key → List FieldWord
  | labelForward vid | vertexSummary vid | vertexExistence vid => [word64 vid]
  | label vid l => [word64 vid, word8 VertexDataKind.LABEL.byte, word16 l]
  | property vid l p => [word64 vid, word8 VertexDataKind.PROPERTY.byte, word16 l, word16 p]
  | adjacencyState vid direction => [word64 vid, word8 (adjacencyKind direction).byte]
  | adjacencyEdge k =>
    [word64 k.vertexId, word8 (adjacencyKind k.direction).byte, word16 k.edgeLabelId, word64 k.neighborId,
      word64 k.seq]
  | edgeIndex k =>
    [word64 k.vertexId, word8 (directionByte k.direction), word16 k.edgeLabelId, word64 k.neighborId, word64 k.seq]
  | edgeType k => [word64 k.srcVertexId, word64 k.dstVertexId, word64 k.seq]
  | edgeProperty e p => [word64 e, word16 p]

/-- The field tuple, as numbers. -/
def tuple (key : Key) : List Nat := key.fields.map (·.value)

/-- The number of the key's kind. -/
def kind : Key → Nat
  | labelForward _ => 0
  | vertexSummary _ => 1
  | vertexExistence _ => 2
  | label .. => 3
  | property .. => 4
  | adjacencyState .. => 5
  | adjacencyEdge _ => 6
  | edgeIndex _ => 7
  | edgeType _ => 8
  | edgeProperty .. => 9

end Key

/-- The scan prefixes, with their fields. -/
inductive Prefix
  | vertex (vertexId : VertexId)
  | label (vertexId : VertexId)
  | property (vertexId : VertexId)
  | labelProperty (vertexId : VertexId) (labelId : LabelId)
  | adjacency (vertexId : VertexId) (direction : Direction)
  | edgeIndex (vertexId : VertexId) (direction : Direction)
  | edgeIndexLabel (vertexId : VertexId) (direction : Direction) (labelId : EdgeLabelId)
  | edgeIndexNeighbor (vertexId : VertexId) (direction : Direction) (labelId : EdgeLabelId) (neighborId : VertexId)
  | edgeType
  | edgeTypeSrc (srcId : VertexId)
  | edgeTypePair (srcId dstId : VertexId)
  | edgeProperty (edgeId : EdgeId)

namespace Prefix

def space : Prefix → Space
  | vertex _ | label _ | property _ | labelProperty .. | adjacency .. => .vertexData
  | edgeIndex .. | edgeIndexLabel .. | edgeIndexNeighbor .. => .edgeIndex
  | edgeType | edgeTypeSrc _ | edgeTypePair .. => .edgeType
  | edgeProperty _ => .edgeProperty

def encode : Prefix → Bytes
  | vertex vid => encodeVertexDataVertexPrefix vid
  | label vid => encodeVertexDataLabelPrefix vid
  | property vid => encodeVertexDataPropPrefix vid
  | labelProperty vid l => encodeVertexDataLabelPropPrefix vid l
  | adjacency vid direction => encodeVertexDataAdjPrefix vid direction
  | edgeIndex vid direction => encodeEdgeIndexPrefix vid direction
  | edgeIndexLabel vid direction l => encodeEdgeIndexLabelPrefix vid direction l
  | edgeIndexNeighbor vid direction l n => encodeEdgeIndexNeighborPrefix vid direction l n
  | edgeType => encodeEdgeTypeIndexPrefix
  | edgeTypeSrc src => encodeEdgeTypeIndexSrcPrefix src
  | edgeTypePair src dst => encodeEdgeTypeIndexPairPrefix src dst
  | edgeProperty e => encodeEPropPrefix e

def fields : Prefix → List FieldWord
  | vertex vid => [word64 vid]
  | label vid => [word64 vid, word8 VertexDataKind.LABEL.byte]
  | property vid => [word64 vid, word8 VertexDataKind.PROPERTY.byte]
  | labelProperty vid l => [word64 vid, word8 VertexDataKind.PROPERTY.byte, word16 l]
  | adjacency vid direction => [word64 vid, word8 (adjacencyKind direction).byte]
  | edgeIndex vid direction => [word64 vid, word8 (directionByte direction)]
  | edgeIndexLabel vid direction l => [word64 vid, word8 (directionByte direction), word16 l]
  | edgeIndexNeighbor vid direction l n => [word64 vid, word8 (directionByte direction), word16 l, word64 n]
  | edgeType => []
  | edgeTypeSrc src => [word64 src]
  | edgeTypePair src dst => [word64 src, word64 dst]
  | edgeProperty e => [word64 e]

def tuple (pre : Prefix) : List Nat := pre.fields.map (·.value)

end Prefix

/-! ### Keys and prefixes are written as their fields -/

@[simp] lemma bytes_word8 (v : UInt8) : (word8 v).bytes = [v] := by
  simp [word8, FieldWord.bytes, wordBytes]

@[simp] lemma bytes_word16 (v : UInt16) : (word16 v).bytes = u16BE v := rfl

@[simp] lemma bytes_word64 (v : UInt64) : (word64 v).bytes = u64BE v := rfl

lemma Key.encode_eq (key : Key) : key.encode = fieldBytes key.fields := by
  cases key <;> simp [encode, fields, fieldBytes, encodeLabelForwardKey, encodeVertexSummaryKey,
    encodeVertexExistenceKey, encodeVertexDataLabelKey, encodeVertexDataPropKey, encodeVertexDataAdjStateKey,
    encodeVertexDataAdjEdgeKey, encodeEdgeIndexKey, encodeEdgeTypeIndexKey, encodeEPropKey, sectionKey,
      adjacencySuffix]

lemma Prefix.encode_eq (pre : Prefix) : pre.encode = fieldBytes pre.fields := by
  cases pre <;> simp [encode, fields, fieldBytes, encodeVertexDataVertexPrefix, encodeVertexDataLabelPrefix,
    encodeVertexDataPropPrefix, encodeVertexDataLabelPropPrefix, encodeVertexDataAdjPrefix,
      encodeVertexDataAdjStateKey,
    encodeEdgeIndexPrefix, encodeEdgeIndexLabelPrefix, encodeEdgeIndexNeighborPrefix, encodeEdgeTypeIndexPrefix,
    encodeEdgeTypeIndexSrcPrefix, encodeEdgeTypeIndexPairPrefix, encodeEPropPrefix, sectionKey]

lemma Key.encode_lt_iff {a b : Key} (h : a.kind = b.kind) : a.encode < b.encode ↔ a.tuple < b.tuple := by
  rw [encode_eq, encode_eq]
  apply fieldBytes_lt_iff
  cases a <;> cases b <;> first | rfl | simp [kind] at h

lemma Prefix.isPrefix_iff {pre : Prefix} {key : Key} (h : pre.space = key.space) :
    pre.encode <+: key.encode ↔ pre.tuple <+: key.tuple := by
  rw [encode_eq, Key.encode_eq]
  apply fieldBytes_isPrefix_iff
  cases pre <;> cases key <;> simp only [space, Key.space, reduceCtorEq] at h <;>
    simp [fields, Key.fields, word8, word16, word64]

/-- Records of different kinds of `vertex_data` differ in the kind byte or in their length. -/
theorem Key.kind_eq_of_encode_eq {a b : Key} (ha : a.space = .vertexData) (hb : b.space = .vertexData)
    (h : a.encode = b.encode) : a.kind = b.kind := by
  have hbyte : ∀ direction, (adjacencyKind direction).byte ≠ VertexDataKind.LABEL.byte ∧
      (adjacencyKind direction).byte ≠ VertexDataKind.PROPERTY.byte := by
    intro direction
    cases direction <;> decide
  have hlabel : VertexDataKind.LABEL.byte ≠ VertexDataKind.PROPERTY.byte := by decide
  have hsuffix : ∀ l n q, adjacencySuffix l n q ≠ [] := fun l n q hnil => by
    have := length_adjacencySuffix l n q
    rw [hnil] at this
    exact absurd this (by simp)
  have hword : ∀ l : LabelId, u16BE l ≠ [] := fun l hnil => by
    have := length_u16BE l
    rw [hnil] at this
    exact absurd this (by simp)
  cases a <;> simp only [space, reduceCtorEq] at ha <;> cases b <;> simp only [space, reduceCtorEq] at hb <;>
    simp [encode, encodeVertexDataLabelKey, encodeVertexDataPropKey, encodeVertexDataAdjStateKey,
      encodeVertexDataAdjEdgeKey, kind, hbyte, hlabel, hlabel.symm, (hbyte _).1.symm, (hbyte _).2.symm, hsuffix,
      (hsuffix _ _ _).symm] at h ⊢

/-! ### Reading keys back -/

/-- The pairs and triples that the decoders of the source return.  Its callers use what follows
the vertex id, which is what the decoders above keep. -/
def vertexDataLabelFields (key : Bytes) : VertexId × LabelId := (decodeU64BE key 0, decodeVertexDataLabelKey key)
def vertexDataPropFields (key : Bytes) : VertexId × LabelId × PropId :=
  (decodeU64BE key 0, decodeVertexDataPropKey key)

lemma decodeU64BE_sectionKey (vid : VertexId) (sec : UInt8) (rest : Bytes) :
    decodeU64BE (sectionKey vid sec rest) 0 = vid :=
  decodeU64BE_append [] (sec :: rest) vid rfl

/-- An adjacency key keeps of its direction whether it is `IN`. -/
theorem decodeVertexDataAdjEdgeKey_encode (k : EdgeIndexKey) :
    decodeVertexDataAdjEdgeKey (encodeVertexDataAdjEdgeKey k) =
      { k with direction := if k.direction = .IN then .IN else .OUT } := by
  obtain ⟨hvid, hl, hn, hq⟩ := decode_sectionKey_adjacencySuffix k.vertexId (adjacencyKind k.direction).byte
    k.edgeLabelId k.neighborId k.seq
  rw [decodeVertexDataAdjEdgeKey, encodeVertexDataAdjEdgeKey, hvid, hl, hn, hq, vertexDataKind_sectionKey]
  cases k with
  | mk vid direction l n q => cases direction <;> rfl

lemma decodeEdgeIndexKey_encode (k : EdgeIndexKey) : decodeEdgeIndexKey (encodeEdgeIndexKey k) = k := by
  obtain ⟨hvid, hl, hn, hq⟩ := decode_sectionKey_adjacencySuffix k.vertexId (directionByte k.direction)
    k.edgeLabelId k.neighborId k.seq
  have hbyte : (encodeEdgeIndexKey k).getD 8 0 = directionByte k.direction :=
    vertexDataKind_sectionKey k.vertexId _ (adjacencySuffix k.edgeLabelId k.neighborId k.seq)
  rw [decodeEdgeIndexKey, hbyte, encodeEdgeIndexKey, hvid, hl, hn, hq]
  cases k with
  | mk vid direction l n q => cases direction <;> rfl

/-- The keys are their field tuples: read back, in order, in prefixes and in the kinds of records. -/
theorem keys_exact :
    ((∀ vid, decodeLabelForwardKey (encodeLabelForwardKey vid) = vid) ∧
      (∀ vid, decodeVertexExistenceKey (encodeVertexExistenceKey vid) = vid) ∧
      (∀ vid l, vertexDataLabelFields (encodeVertexDataLabelKey vid l) = (vid, l)) ∧
      (∀ vid l p, vertexDataPropFields (encodeVertexDataPropKey vid l p) = (vid, l, p)) ∧
      (∀ k, decodeVertexDataAdjEdgeKey (encodeVertexDataAdjEdgeKey k) =
        { k with direction := if k.direction = .IN then .IN else .OUT }) ∧
      (∀ k, decodeEdgeIndexKey (encodeEdgeIndexKey k) = k) ∧
      (∀ k, decodeEdgeTypeIndexKey (encodeEdgeTypeIndexKey k) = k) ∧
      ∀ e p, decodeEPropKey (encodeEPropKey e p) = (e, p)) ∧
    (∀ a b : Key, a.kind = b.kind → (a.encode < b.encode ↔ a.tuple < b.tuple)) ∧
    (∀ (pre : Prefix) (key : Key), pre.space = key.space → (pre.encode <+: key.encode ↔ pre.tuple <+: key.tuple)) ∧
    ∀ a b : Key, a.space = .vertexData → b.space = .vertexData → a.encode = b.encode → a.kind = b.kind := by
  have hvertex : ∀ vid, decodeU64BE (u64BE vid) 0 = vid := by
    intro vid
    simpa using decodeU64BE_append [] [] vid rfl
  refine ⟨⟨hvertex, hvertex, ?_, ?_, decodeVertexDataAdjEdgeKey_encode, decodeEdgeIndexKey_encode,
    decodeEdgeTypeIndexKey_encode, decodeEPropKey_encode⟩, fun _ _ => Key.encode_lt_iff,
    fun _ _ => Prefix.isPrefix_iff, fun _ _ => Key.kind_eq_of_encode_eq⟩
  · intro vid l
    rw [vertexDataLabelFields, decodeVertexDataLabelKey_encode, encodeVertexDataLabelKey, decodeU64BE_sectionKey]
  · intro vid l p
    rw [vertexDataPropFields, decodeVertexDataPropKey_encode, encodeVertexDataPropKey, decodeU64BE_sectionKey]

/-- A key for both directions is written as an outgoing one. -/
theorem bothDirections_not_readBack :
    ¬ ∀ k, decodeVertexDataAdjEdgeKey (encodeVertexDataAdjEdgeKey k) = k := by
  intro h
  have := h ⟨1, .BOTH, 1, 2, 0⟩
  exact absurd (congrArg EdgeIndexKey.direction this) (by decide)

end Eugraph.KeyCodec
