import Eugraph.Storage.DataStore
import Mathlib.Data.Finset.Basic

/-!
# Vertex summaries: codec and readers

A row of `vertex_summary` repeats the labels and the small properties of a vertex.  The
batch readers answer from it when it is there and lists everything they need, and from
the canonical rows of `vertex_data` otherwise.
-/

namespace Eugraph.DataStore

open Lib Lib.Program Wt KeyCodec List ValueCodec

/-! ### Decoding -/

/-- Empty bytes stand for a property that is present but not inlined. -/
structure DecodedVertexSummary where
  labels : List LabelId
  props : List ((LabelId × PropId) × Bytes)

def readSummaryLabels (value : Bytes) : Nat → Nat → List LabelId
  | 0, _ => []
  | count + 1, off => decodeU16BE value off :: readSummaryLabels value count (off + 2)

def readSummaryEntries (value : Bytes) : Nat → Nat → Option (List ((LabelId × PropId) × Bytes))
  | 0, _ => some []
  | count + 1, off =>
    if value.length < off + 8 then none
    else
      let slot := (decodeU16BE value off, decodeU16BE value (off + 2))
      let len := decodeU32BE value (off + 4)
      if len = kVertexSummaryOmitted then
        (readSummaryEntries value count (off + 8)).map fun rest => (slot, []) :: rest
      else if value.length < off + 8 + len.toNat then none
      else
        (readSummaryEntries value count (off + 8 + len.toNat)).map fun rest =>
          (slot, (value.drop (off + 8)).take len.toNat) :: rest

/-- `false` of the source is `none`. -/
def decodeVertexSummary (value : Bytes) : Option DecodedVertexSummary :=
  if value.length < 3 ∨ value.getD 0 0 ≠ kVertexSummaryVersion then none
  else
    let labelCount := (decodeU16BE value 1).toNat
    if value.length < 3 + labelCount * 2 then none
    else if value.length < 3 + labelCount * 2 + 2 then none
    else
      let entryCount := (decodeU16BE value (3 + labelCount * 2)).toNat
      (readSummaryEntries value entryCount (3 + labelCount * 2 + 2)).map fun props =>
        ⟨readSummaryLabels value labelCount 3, props⟩

/-! ### Readers -/

abbrev Candidate := LabelId × PropId

/-- The first entry of a candidate, if the vertex has the label. -/
def summaryEntry (summary : DecodedVertexSummary) (cand : Candidate) :
    Option (Candidate × Bytes) :=
  if cand.1 ∈ summary.labels then summary.props.find? fun e => e.1 = cand else none

/-- The loop over the candidates on a summary; `none` when one of them needs its row. -/
def summaryValues (summary : DecodedVertexSummary) :
    List Candidate → Except String (Option (List (Option PropertyValue)))
  | [] => .ok (some [])
  | cand :: rest =>
    match summaryEntry summary cand with
    | none => (summaryValues summary rest).map fun found => found.map fun vs => none :: vs
    | some (_, bytes) =>
      if bytes = [] then .ok none
      else
        match decode bytes with
        | .error message => .error message
        | .ok v => (summaryValues summary rest).map fun found => found.map fun vs => some v :: vs

/-- One property row of the fallback scans.  `cand_index` knows the first position of a
candidate; `getVertexCoalesceDataBatch` keeps a value it has. -/
def probeRow (keepFirst : Bool) (candidates : List Candidate) (found : List (Option PropertyValue))
    (row : Record) : Except String (List (Option PropertyValue)) :=
  match candidates.findIdx? fun c => c = decodeVertexDataPropKey row.1 with
  | none => .ok found
  | some i =>
    if keepFirst ∧ (found.getD i none).isSome then .ok found
    else (decode row.2).map fun v => found.set i (some v)

/-- The values that were found, in the order of the candidates. -/
def foundValues (found : List (Option PropertyValue)) : List PropertyValue := found.filterMap id

def vertexSummary (vid : VertexId) : StoreM (Option DecodedVertexSummary) := do
  let row ← tableGet .session .vertexSummary (encodeVertexSummaryKey vid)
  return row.bind decodeVertexSummary

/-- One vertex of `getVertexLabelsBatch`. -/
def vertexLabels (vid : VertexId) : StoreM (Finset LabelId) := do
  match ← vertexSummary vid with
  | some summary => return summary.labels.toFinset
  | none =>
    let rows ← tableScan .session .vertexData (encodeVertexDataLabelPrefix vid)
    return (rows.map fun row => decodeVertexDataLabelKey row.1).toFinset

/-- The distinct vertices in the order of their first occurrence. -/
def uniqueVids (vids : List VertexId) : List VertexId :=
  vids.foldl (fun unique vid => if vid ∈ unique then unique else unique ++ [vid]) []

/-- Each distinct vertex is read once. -/
def getVertexLabelsBatch (vids : List VertexId) : StoreM (List (Finset LabelId)) := do
  let unique := uniqueVids vids
  let out ← mapEach vertexLabels unique
  return vids.map fun vid => out.getD (unique.idxOf vid) ∅

/-- One vertex of `getVertexCoalescePropertiesBatch`. -/
def coalesceProperties (candidates : List Candidate) (vid : VertexId) :
    StoreM (Except String (List PropertyValue)) := do
  let summary ← vertexSummary vid
  match summary.elim (.ok none) fun summary => summaryValues summary candidates with
  | .error message => return .error message
  | .ok (some found) => return .ok (foundValues found)
  | .ok none =>
    let rows ← tableScan .session .vertexData (encodeVertexDataPropPrefix vid)
    let found := rows.foldlM (probeRow false candidates) (List.replicate candidates.length none)
    return found.map foundValues

/-- The vertices are probed in the order of their ids when there are many; every vertex
has its own slot of the result. -/
def getVertexCoalescePropertiesBatch (vids : List VertexId) (candidates : List Candidate) :
    StoreM (Except String (List (List PropertyValue))) := do
  if candidates = [] then return .ok (vids.map fun _ => [])
  else
    let out ← mapEach (coalesceProperties candidates) vids
    return out.mapM id

/-- `CoalescedVertexData`. -/
structure CoalescedVertexData where
  labels : Finset LabelId
  values : List PropertyValue
  deriving DecidableEq

/-- One row of the scan over a whole vertex. -/
def probeVertexRow (candidates : List Candidate)
    (state : Finset LabelId × List (Option PropertyValue)) (row : Record) :
    Except String (Finset LabelId × List (Option PropertyValue)) :=
  if vertexDataKind row.1 = VertexDataKind.LABEL.byte then
    let labelId := decodeVertexDataLabelKey row.1
    .ok (if labelId ≠ INVALID_LABEL_ID then insert labelId state.1 else state.1, state.2)
  else (probeRow true candidates state.2 row).map fun found => (state.1, found)

/-- The scan ends at the first row that is neither a label nor a property. -/
def scanVertexData (candidates : List Candidate) (vid : VertexId) (labels : Finset LabelId) :
    StoreM (Except String CoalescedVertexData) := do
  let rows ← tableScan .session .vertexData (encodeVertexDataVertexPrefix vid)
  let rows := rows.takeWhile fun row => vertexDataKind row.1 = VertexDataKind.LABEL.byte ∨
    vertexDataKind row.1 = VertexDataKind.PROPERTY.byte
  let state := rows.foldlM (probeVertexRow candidates)
    (labels, List.replicate candidates.length none)
  return state.map fun state => ⟨state.1, foundValues state.2⟩

/-- One vertex of `getVertexCoalesceDataBatch`; labels of a summary stay when a value
sends the reader to the rows. -/
def coalesceData (candidates : List Candidate) (vid : VertexId) :
    StoreM (Except String CoalescedVertexData) := do
  match ← vertexSummary vid with
  | none => scanVertexData candidates vid ∅
  | some summary =>
    match summaryValues summary candidates with
    | .error message => return .error message
    | .ok (some found) => return .ok ⟨summary.labels.toFinset, foundValues found⟩
    | .ok none => scanVertexData candidates vid summary.labels.toFinset

def getVertexCoalesceDataBatch (vids : List VertexId) (candidates : List Candidate) :
    StoreM (Except String (List CoalescedVertexData)) := do
  let out ← mapEach (coalesceData candidates) vids
  return out.mapM id

/-! ### Round trip -/

/-- What a summary holds of a value. -/
def inlineBytes (v : PropertyValue) : Bytes :=
  if (encode v).length ≤ kVertexSummaryInlineMax then encode v else []

lemma readSummaryLabels_append (labels : List LabelId) (pre post : Bytes) :
    readSummaryLabels (pre ++ (labels.flatMap u16BE ++ post)) labels.length pre.length = labels := by
  induction labels generalizing pre with
  | nil => rfl
  | cons l rest ih =>
    have hrest := ih (pre ++ u16BE l)
    rw [append_assoc, length_append, length_u16BE] at hrest
    rw [flatMap_cons, length_cons, readSummaryLabels, append_assoc, decodeU16BE_append pre _ l rfl, hrest]

/-- The fixed part of an entry. -/
theorem decode_entryHead (pre body : Bytes) (l : LabelId) (p : PropId) (len : UInt32) :
    decodeU16BE (pre ++ (u16BE l ++ (u16BE p ++ (u32BE len ++ body)))) pre.length = l ∧
    decodeU16BE (pre ++ (u16BE l ++ (u16BE p ++ (u32BE len ++ body)))) (pre.length + 2) = p ∧
    decodeU32BE (pre ++ (u16BE l ++ (u16BE p ++ (u32BE len ++ body)))) (pre.length + 4) = len := by
  have hp := decodeU16BE_append (pre ++ u16BE l) (u32BE len ++ body) p (by simp : _ = pre.length + 2)
  have hlen := decodeU32BE_append (pre ++ (u16BE l ++ u16BE p)) body len (by simp : _ = pre.length + 4)
  refine ⟨decodeU16BE_append pre _ l rfl, ?_, ?_⟩
  · simpa using hp
  · simpa using hlen

lemma readSummaryEntries_append (entries : List (LabelId × PropId × PropertyValue)) (pre post : Bytes) :
    readSummaryEntries (pre ++ ((entries.flatMap fun e => encodeSummaryEntry e.1 e.2) ++ post))
        entries.length pre.length =
      some (entries.map fun e => ((e.1, e.2.1), inlineBytes e.2.2)) := by
  induction entries generalizing pre with
  | nil => rfl
  | cons e rest ih =>
    obtain ⟨l, p, v⟩ := e
    obtain ⟨tail, htail⟩ : ∃ tail, tail = (rest.flatMap fun e => encodeSummaryEntry e.1 e.2) ++ post := ⟨_, rfl⟩
    have hstep := ih (pre ++ encodeSummaryEntry l (p, v))
    rw [append_assoc, ← htail] at hstep
    rw [flatMap_cons, append_assoc, ← htail, length_cons, readSummaryEntries]
    by_cases hsmall : (encode v).length ≤ kVertexSummaryInlineMax
    · -- the bytes of the value follow
      have hlt : (encode v).length < 2 ^ 32 := by
        have hmax : kVertexSummaryInlineMax = 32 := rfl
        omega
      have hnat : (UInt32.ofNat (encode v).length).toNat = (encode v).length := UInt32.toNat_ofNat_of_lt' hlt
      have hinlined : UInt32.ofNat (encode v).length ≠ kVertexSummaryOmitted := by
        intro heq
        have hmax : kVertexSummaryInlineMax = 32 := rfl
        have hbig : kVertexSummaryOmitted.toNat = 4294967295 := rfl
        rw [← heq, hnat] at hbig
        omega
      have hentry : encodeSummaryEntry l (p, v) = u16BE l ++ (u16BE p ++
          (u32BE (UInt32.ofNat (encode v).length) ++ encode v)) := by
        simp [encodeSummaryEntry, hsmall, encodeSize]
      rw [hentry] at hstep ⊢
      simp only [append_assoc] at hstep ⊢
      obtain ⟨hl, hp, hlen⟩ := decode_entryHead pre (encode v ++ tail) l p
        (UInt32.ofNat (encode v).length)
      have hdrop : ((pre ++ (u16BE l ++ (u16BE p ++ (u32BE (UInt32.ofNat (encode v).length) ++
            (encode v ++ tail))))).drop (pre.length + 8)).take
              (encode v).length = encode v := by
        have hhead : pre ++ (u16BE l ++ (u16BE p ++ (u32BE (UInt32.ofNat (encode v).length) ++
              (encode v ++ tail)))) = (pre ++ (u16BE l ++ (u16BE p ++
            u32BE (UInt32.ofNat (encode v).length)))) ++ (encode v ++ tail) := by simp
        rw [hhead, drop_left' (by simp), take_left]
      have hoff : (pre ++ (u16BE l ++ (u16BE p ++ (u32BE (UInt32.ofNat (encode v).length) ++ encode v)))).length =
          pre.length + 8 + (encode v).length := by
        simp
        omega
      rw [hoff] at hstep
      simp only [hl, hp, hlen, hinlined, if_false, hnat, hdrop, hstep]
      rw [if_neg (by simp; omega), if_neg (by simp; omega)]
      simp [inlineBytes, hsmall]
    · have hentry : encodeSummaryEntry l (p, v) = u16BE l ++ (u16BE p ++ (u32BE kVertexSummaryOmitted ++ [])) := by
        simp [encodeSummaryEntry, hsmall]
      rw [hentry] at hstep ⊢
      simp only [append_assoc, nil_append] at hstep ⊢
      obtain ⟨hl, hp, hlen⟩ := decode_entryHead pre tail l p kVertexSummaryOmitted
      have hoff : (pre ++ (u16BE l ++ (u16BE p ++ (u32BE kVertexSummaryOmitted ++ [])))).length =
          pre.length + 8 := by simp
      rw [hoff] at hstep
      simp only [hl, hp, hlen, if_true, hstep]
      rw [if_neg (by simp; omega)]
      simp [inlineBytes, hsmall]

/-- The labels of a summary in the order they are written. -/
def summaryLabels (labelProps : LabelProps) : List LabelId := (validGroups labelProps).map Prod.fst

/-- Reading back a summary whose counters did not wrap. -/
theorem decodeVertexSummary_encode {labelProps : LabelProps} (hlabels : (validGroups labelProps).length < 2 ^ 16)
    (hentries : (summarySlots labelProps).length < 2 ^ 16)
    (hsome : encodeVertexSummary labelProps ≠ []) :
    decodeVertexSummary (encodeVertexSummary labelProps) = some ⟨summaryLabels labelProps,
      (summarySlots labelProps).map fun e => ((e.1, e.2.1), inlineBytes e.2.2)⟩ := by
  obtain ⟨nl, hnl⟩ : ∃ nl, nl = UInt16.ofNat (validGroups labelProps).length := ⟨_, rfl⟩
  obtain ⟨ne, hne⟩ : ∃ ne, ne = UInt16.ofNat (summarySlots labelProps).length := ⟨_, rfl⟩
  have hnlNat : nl.toNat = (summaryLabels labelProps).length := by
    rw [hnl, summaryLabels, length_map]
    exact UInt16.toNat_ofNat_of_lt' hlabels
  have hneNat : ne.toNat = (summarySlots labelProps).length := by
    rw [hne]
    exact UInt16.toNat_ofNat_of_lt' hentries
  have hbytes : encodeVertexSummary labelProps = kVertexSummaryVersion :: (u16BE nl ++
      ((summaryLabels labelProps).flatMap u16BE ++ (u16BE ne ++
        ((summarySlots labelProps).flatMap fun e => encodeSummaryEntry e.1 e.2)))) := by
    unfold encodeVertexSummary at hsome ⊢
    simp only [← hnl, ← hne] at hsome ⊢
    split
    · rename_i hzero
      rw [if_pos hzero] at hsome
      exact absurd rfl hsome
    · rw [summaryLabels, flatMap_map]
  have hwidth : ((summaryLabels labelProps).flatMap u16BE).length = nl.toNat * 2 := by
    rw [hnlNat, length_flatMap]
    simp
  obtain ⟨entries, hentriesEq⟩ : ∃ entries, entries =
    (summarySlots labelProps).flatMap fun e => encodeSummaryEntry e.1 e.2 := ⟨_, rfl⟩
  rw [hbytes, ← hentriesEq]
  have hcount : decodeU16BE (kVertexSummaryVersion :: (u16BE nl ++
      ((summaryLabels labelProps).flatMap u16BE ++ (u16BE ne ++ entries)))) 1 = nl := by
    simpa using decodeU16BE_append [kVertexSummaryVersion] ((summaryLabels labelProps).flatMap u16BE
      ++ (u16BE ne ++ entries)) nl rfl
  have hlabelsRead : readSummaryLabels (kVertexSummaryVersion :: (u16BE nl ++
      ((summaryLabels labelProps).flatMap u16BE ++ (u16BE ne ++ entries)))) nl.toNat 3 =
      summaryLabels labelProps := by
    have hread := readSummaryLabels_append (summaryLabels labelProps)
      (kVertexSummaryVersion :: u16BE nl) (u16BE ne ++ entries)
    rw [← hnlNat] at hread
    simpa using hread
  have hcount' : decodeU16BE (kVertexSummaryVersion :: (u16BE nl ++
      ((summaryLabels labelProps).flatMap u16BE ++ (u16BE ne ++ entries)))) (3 + nl.toNat * 2) =
      ne := by
    have hread := decodeU16BE_append (kVertexSummaryVersion :: (u16BE nl ++
      (summaryLabels labelProps).flatMap u16BE)) entries ne
      (by simp only [length_cons, length_append, length_u16BE, hwidth]; omega :
        _ = 3 + nl.toNat * 2)
    simpa using hread
  have hentriesRead : readSummaryEntries (kVertexSummaryVersion :: (u16BE nl ++
      ((summaryLabels labelProps).flatMap u16BE ++ (u16BE ne ++ entries)))) ne.toNat
        (3 + nl.toNat * 2 + 2) =
      some ((summarySlots labelProps).map fun e => ((e.1, e.2.1), inlineBytes e.2.2)) := by
    have hread := readSummaryEntries_append (summarySlots labelProps)
      (kVertexSummaryVersion :: (u16BE nl ++ ((summaryLabels labelProps).flatMap u16BE ++ u16BE ne))) []
    have hoff : (kVertexSummaryVersion :: (u16BE nl ++ ((summaryLabels labelProps).flatMap u16BE ++
        u16BE ne))).length = 3 + nl.toNat * 2 + 2 := by
      simp only [length_cons, length_append, length_u16BE, hwidth]
      omega
    rw [hoff, ← hneNat, ← hentriesEq] at hread
    simpa using hread
  have hlength : (kVertexSummaryVersion :: (u16BE nl ++ ((summaryLabels labelProps).flatMap u16BE ++
      (u16BE ne ++ entries)))).length = 3 + nl.toNat * 2 + 2 + entries.length := by
    simp only [length_cons, length_append, length_u16BE, hwidth]
    omega
  rw [decodeVertexSummary, if_neg]
  · simp only [hcount, hcount', hlabelsRead, hentriesRead]
    rw [if_neg (by rw [hlength]; omega), if_neg (by rw [hlength]; omega)]
    rfl
  · rw [hlength]
    rintro (hshort | hversion)
    · omega
    · exact hversion rfl

end Eugraph.DataStore
