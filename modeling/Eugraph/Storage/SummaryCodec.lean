import Eugraph.Storage.VertexSummary

/-!
# Which bytes are a vertex summary

The decoder with every read checked: on no bytes does one reach past the end, and the bytes
it accepts are those that begin with a summary, whatever follows.  What the encoder writes
for a vertex with a label is read back; for a vertex without one it writes nothing, which
the decoder refuses.
-/

namespace Eugraph.DataStore

open Lib KeyCodec List ValueCodec

/-! ### Words -/

lemma wordBytes_wordValue (bytes : Bytes) : wordBytes bytes.length (wordValue bytes) = bytes := by
  have hlen : (wordBytes bytes.length (wordValue bytes)).length = bytes.length := length_wordBytes _ _
  have hvalue : wordValue (wordBytes bytes.length (wordValue bytes)) = wordValue bytes :=
    wordValue_wordBytes (wordValue_lt bytes)
  refine le_antisymm (not_lt.mp fun h => ?_) (not_lt.mp fun h => ?_)
  · rw [lt_iff_wordValue_lt hlen.symm, hvalue] at h
    exact lt_irrefl _ h
  · rw [lt_iff_wordValue_lt hlen, hvalue] at h
    exact lt_irrefl _ h

lemma u16BE_decodeU16BE {data : Bytes} {off : Nat} (h : off + 2 ≤ data.length) :
    u16BE (decodeU16BE data off) = (data.drop off).take 2 := by
  have hlen : ((data.drop off).take 2).length = 2 := by
    rw [length_take, length_drop]
    omega
  have hlt : wordValue ((data.drop off).take 2) < 2 ^ 16 := by
    have := wordValue_lt ((data.drop off).take 2)
    rw [hlen] at this
    omega
  have hword := wordBytes_wordValue ((data.drop off).take 2)
  rw [hlen] at hword
  rw [u16BE, decodeU16BE, UInt16.toNat_ofNat_of_lt' hlt, hword]

lemma u32BE_decodeU32BE {data : Bytes} {off : Nat} (h : off + 4 ≤ data.length) :
    u32BE (decodeU32BE data off) = (data.drop off).take 4 := by
  have hlen : ((data.drop off).take 4).length = 4 := by
    rw [length_take, length_drop]
    omega
  have hlt : wordValue ((data.drop off).take 4) < 2 ^ 32 := by
    have := wordValue_lt ((data.drop off).take 4)
    rw [hlen] at this
    omega
  have hword := wordBytes_wordValue ((data.drop off).take 4)
  rw [hlen] at hword
  rw [u32BE, decodeU32BE, UInt32.toNat_ofNat_of_lt' hlt, hword]

/-- A field and what stands behind it. -/
theorem drop_eq_field {data : Bytes} {off size : Nat} {field : Bytes}
    (h : field = (data.drop off).take size) : data.drop off = field ++ data.drop (off + size) := by
  rw [h, ← drop_drop, take_append_drop]

/-! ### The decoder with checked reads -/

/-- A read behind the last byte. -/
inductive ReadFault
  | pastEnd

def readU16 (value : Bytes) (off : Nat) : Except ReadFault UInt16 :=
  if off + 2 ≤ value.length then .ok (decodeU16BE value off) else .error .pastEnd

def readU32 (value : Bytes) (off : Nat) : Except ReadFault UInt32 :=
  if off + 4 ≤ value.length then .ok (decodeU32BE value off) else .error .pastEnd

def checkedLabels (value : Bytes) : Nat → Nat → Except ReadFault (List LabelId)
  | 0, _ => .ok []
  | count + 1, off => do
      let label ← readU16 value off
      let rest ← checkedLabels value count (off + 2)
      return label :: rest

def checkedEntries (value : Bytes) :
    Nat → Nat → Except ReadFault (Option (List ((LabelId × PropId) × Bytes)))
  | 0, _ => .ok (some [])
  | count + 1, off =>
    if value.length < off + 8 then .ok none
    else do
      let labelId ← readU16 value off
      let propId ← readU16 value (off + 2)
      let len ← readU32 value (off + 4)
      if len = kVertexSummaryOmitted then
        let rest ← checkedEntries value count (off + 8)
        return rest.map fun rest => ((labelId, propId), []) :: rest
      else if value.length < off + 8 + len.toNat then return none
      else
        let rest ← checkedEntries value count (off + 8 + len.toNat)
        return rest.map fun rest =>
          ((labelId, propId), (value.drop (off + 8)).take len.toNat) :: rest

/-- `decodeVertexSummary` with the reads it makes. -/
def checkedDecode (value : Bytes) : Except ReadFault (Option DecodedVertexSummary) :=
  if value.length < 3 ∨ value.getD 0 0 ≠ kVertexSummaryVersion then .ok none
  else do
    let labelCount ← readU16 value 1
    if value.length < 3 + labelCount.toNat * 2 then return none
    else
      let labels ← checkedLabels value labelCount.toNat 3
      if value.length < 3 + labelCount.toNat * 2 + 2 then return none
      else
        let entryCount ← readU16 value (3 + labelCount.toNat * 2)
        let props ← checkedEntries value entryCount.toNat (3 + labelCount.toNat * 2 + 2)
        return props.map fun props => ⟨labels, props⟩

lemma readU16_eq {value : Bytes} {off : Nat} (h : off + 2 ≤ value.length) :
    readU16 value off = .ok (decodeU16BE value off) := if_pos h

lemma readU32_eq {value : Bytes} {off : Nat} (h : off + 4 ≤ value.length) :
    readU32 value off = .ok (decodeU32BE value off) := if_pos h

lemma checkedLabels_eq {value : Bytes} {count off : Nat} (h : off + count * 2 ≤ value.length) :
    checkedLabels value count off = .ok (readSummaryLabels value count off) := by
  induction count generalizing off with
  | zero => rfl
  | succ count ih =>
    rw [checkedLabels, readU16_eq (by omega), ih (by omega)]
    rfl

lemma checkedEntries_eq (value : Bytes) (count off : Nat) :
    checkedEntries value count off = .ok (readSummaryEntries value count off) := by
  induction count generalizing off with
  | zero => rfl
  | succ count ih =>
    rw [checkedEntries, readSummaryEntries]
    by_cases hshort : value.length < off + 8
    · rw [if_pos hshort, if_pos hshort]
    · rw [if_neg hshort, if_neg hshort, readU16_eq (by omega), readU16_eq (by omega),
        readU32_eq (by omega)]
      show (if _ then _ else _) = Except.ok (if _ then _ else _)
      split
      · rw [ih]
        rfl
      · split
        · rfl
        · rw [ih]
          rfl

/-- No read reaches past the end, whatever the bytes are. -/
theorem checkedDecode_eq (value : Bytes) : checkedDecode value = .ok (decodeVertexSummary value) := by
  rw [checkedDecode, decodeVertexSummary]
  by_cases hhead : value.length < 3 ∨ value.getD 0 0 ≠ kVertexSummaryVersion
  · rw [if_pos hhead, if_pos hhead]
  · rw [if_neg hhead, if_neg hhead, readU16_eq (by omega)]
    show (if _ then _ else _) = Except.ok (if _ then _ else _)
    by_cases hlabels : value.length < 3 + (decodeU16BE value 1).toNat * 2
    · rw [if_pos hlabels, if_pos hlabels]
      rfl
    · rw [if_neg hlabels, if_neg hlabels, checkedLabels_eq (by omega)]
      show (if _ then _ else _) = Except.ok (if _ then _ else _)
      by_cases hcount : value.length < 3 + (decodeU16BE value 1).toNat * 2 + 2
      · rw [if_pos hcount, if_pos hcount]
        rfl
      · rw [if_neg hcount, if_neg hcount, readU16_eq (by omega)]
        show (do
          let props ← checkedEntries value _ _
          pure (props.map _)) = _
        rw [checkedEntries_eq]
        rfl

/-! ### Summaries -/

/-- An entry: the bytes of a value, or the mark of one that is not inlined. -/
structure SummaryEntry where
  slot : LabelId × PropId
  inlined : Option Bytes
  fits : ∀ bytes ∈ inlined, bytes.length < kVertexSummaryOmitted.toNat

open SummaryEntry

def SummaryEntry.bytes (e : SummaryEntry) : Bytes :=
  u16BE e.slot.1 ++ (u16BE e.slot.2 ++
    match e.inlined with
    | none => u32BE kVertexSummaryOmitted ++ []
    | some value => u32BE (UInt32.ofNat value.length) ++ value)

/-- An omitted value is reported by empty bytes. -/
def SummaryEntry.decoded (e : SummaryEntry) : (LabelId × PropId) × Bytes :=
  (e.slot, e.inlined.getD [])

/-- A well formed summary. -/
def summaryBytes (labels : List LabelId) (entries : List SummaryEntry) : Bytes :=
  kVertexSummaryVersion :: (u16BE (UInt16.ofNat labels.length) ++ (labels.flatMap u16BE ++
    (u16BE (UInt16.ofNat entries.length) ++ entries.flatMap bytes)))

/-- The bytes begin with a summary of these labels and entries. -/
structure BeginsWithSummary (value : Bytes) (d : DecodedVertexSummary) (labels : List LabelId)
    (entries : List SummaryEntry) (rest : Bytes) : Prop where
  labelCount : labels.length < 2 ^ 16
  entryCount : entries.length < 2 ^ 16
  bytes : value = summaryBytes labels entries ++ rest
  labels : d.labels = labels
  props : d.props = entries.map decoded

lemma labels_eq_of_read {value : Bytes} {count off : Nat} (h : off + count * 2 ≤ value.length) :
    (readSummaryLabels value count off).length = count ∧
      value.drop off = (readSummaryLabels value count off).flatMap u16BE ++ value.drop (off + count * 2) := by
  induction count generalizing off with
  | zero => exact ⟨rfl, rfl⟩
  | succ count ih =>
    obtain ⟨hlen, hrest⟩ := ih (show off + 2 + count * 2 ≤ value.length by omega)
    rw [readSummaryLabels]
    refine ⟨by rw [length_cons, hlen], ?_⟩
    rw [drop_eq_field (u16BE_decodeU16BE (show off + 2 ≤ value.length by omega)), hrest,
      flatMap_cons, append_assoc, show off + 2 + count * 2 = off + (count + 1) * 2 by omega]

lemma entries_of_read {value : Bytes} {count off : Nat}
    {props : List ((LabelId × PropId) × Bytes)} (h : readSummaryEntries value count off = some props) :
    ∃ (entries : List SummaryEntry) (rest : Bytes), entries.length = count ∧
      value.drop off = entries.flatMap SummaryEntry.bytes ++ rest ∧
      props = entries.map decoded := by
  induction count generalizing off props with
  | zero =>
    cases h
    exact ⟨[], value.drop off, rfl, rfl, rfl⟩
  | succ count ih =>
    rw [readSummaryEntries] at h
    split at h
    · cases h
    · next hshort =>
        -- the fixed part, field by field
        have hlabel := drop_eq_field (u16BE_decodeU16BE (show off + 2 ≤ value.length by omega))
        have hprop := drop_eq_field (u16BE_decodeU16BE (show off + 2 + 2 ≤ value.length by omega))
        have hlen := drop_eq_field (u32BE_decodeU32BE (show off + 4 + 4 ≤ value.length by omega))
        dsimp only at h
        split at h
        · next homitted =>
            obtain ⟨more, hmore, rfl⟩ := Option.map_eq_some_iff.mp h
            obtain ⟨entries, rest, hcount, hdrop, hprops⟩ := ih hmore
            refine ⟨⟨(decodeU16BE value off, decodeU16BE value (off + 2)), none, by simp⟩ :: entries,
              rest, by rw [length_cons, hcount], ?_, by rw [map_cons, hprops]; rfl⟩
            rw [homitted] at hlen
            rw [flatMap_cons, hlabel, hprop, hlen, hdrop]
            simp [SummaryEntry.bytes]
        · next hinlined =>
            split at h
            · cases h
            · next hfits =>
                obtain ⟨more, hmore, rfl⟩ := Option.map_eq_some_iff.mp h
                obtain ⟨entries, rest, hcount, hdrop, hprops⟩ := ih hmore
                obtain ⟨body, hbody⟩ : ∃ body,
                  body = (value.drop (off + 8)).take (decodeU32BE value (off + 4)).toNat := ⟨_, rfl⟩
                have hbodyLen : body.length = (decodeU32BE value (off + 4)).toNat := by
                  rw [hbody, length_take, length_drop]
                  omega
                have hlt : (decodeU32BE value (off + 4)).toNat < kVertexSummaryOmitted.toNat := by
                  have hword := (decodeU32BE value (off + 4)).toNat_lt
                  have hne : (decodeU32BE value (off + 4)).toNat ≠ kVertexSummaryOmitted.toNat :=
                    fun heq => hinlined (UInt32.toNat_inj.mp heq)
                  have hmark : kVertexSummaryOmitted.toNat = 2 ^ 32 - 1 := rfl
                  omega
                rw [← hbody]
                refine ⟨⟨(decodeU16BE value off, decodeU16BE value (off + 2)), some body, ?_⟩ :: entries,
                  rest, by rw [length_cons, hcount], ?_, by rw [map_cons, hprops]; rfl⟩
                · intro bytes hbytes
                  rw [← Option.mem_some_iff.mp hbytes, hbodyLen]
                  exact hlt
                · have hvalue := drop_eq_field hbody
                  rw [flatMap_cons, hlabel, hprop, hlen, hvalue, hdrop]
                  simp [SummaryEntry.bytes, hbodyLen]

lemma read_entries (entries : List SummaryEntry) (pre rest : Bytes) :
    readSummaryEntries (pre ++ (entries.flatMap bytes ++ rest)) entries.length pre.length =
      some (entries.map decoded) := by
  induction entries generalizing pre with
  | nil => rfl
  | cons e entries ih =>
    obtain ⟨⟨l, p⟩, inlined, hfits⟩ := e
    obtain ⟨tail, htail⟩ : ∃ tail, tail = entries.flatMap bytes ++ rest := ⟨_, rfl⟩
    have hstep := ih (pre ++ (⟨(l, p), inlined, hfits⟩ : SummaryEntry).bytes)
    rw [append_assoc, ← htail] at hstep
    rw [flatMap_cons, append_assoc, ← htail, length_cons, readSummaryEntries]
    cases inlined with
    | none =>
      have hoff : (pre ++ (⟨(l, p), none, hfits⟩ : SummaryEntry).bytes).length = pre.length + 8 := by simp [bytes]
      rw [hoff] at hstep
      have hbytes : (⟨(l, p), none, hfits⟩ : SummaryEntry).bytes ++ tail =
          u16BE l ++ (u16BE p ++ (u32BE kVertexSummaryOmitted ++ tail)) := by
        simp [bytes]
      rw [hbytes] at hstep ⊢
      obtain ⟨hl, hp, hlen⟩ := decode_entryHead pre tail l p kVertexSummaryOmitted
      simp only [hl, hp, hlen, if_true, hstep]
      rw [if_neg (by simp; omega)]
      rfl
    | some value =>
      have hlt := hfits value rfl
      have hmark : kVertexSummaryOmitted.toNat = 2 ^ 32 - 1 := rfl
      have hnat : (UInt32.ofNat value.length).toNat = value.length :=
        UInt32.toNat_ofNat_of_lt' (show value.length < 2 ^ 32 by omega)
      have hinlined : UInt32.ofNat value.length ≠ kVertexSummaryOmitted := by
        intro heq
        rw [heq] at hnat
        omega
      have hoff : (pre ++ (⟨(l, p), some value, hfits⟩ : SummaryEntry).bytes).length =
          pre.length + 8 + value.length := by
        simp [bytes]
        omega
      rw [hoff] at hstep
      have hbytes : (⟨(l, p), some value, hfits⟩ : SummaryEntry).bytes ++ tail =
          u16BE l ++ (u16BE p ++ (u32BE (UInt32.ofNat value.length) ++ (value ++ tail))) := by
        simp [bytes]
      rw [hbytes] at hstep ⊢
      obtain ⟨hl, hp, hlen⟩ := decode_entryHead pre (value ++ tail) l p (UInt32.ofNat value.length)
      have hdrop : ((pre ++ (u16BE l ++ (u16BE p ++ (u32BE (UInt32.ofNat value.length) ++
          (value ++ tail))))).drop (pre.length + 8)).take value.length = value := by
        rw [show pre ++ (u16BE l ++ (u16BE p ++ (u32BE (UInt32.ofNat value.length) ++
            (value ++ tail)))) = (pre ++ (u16BE l ++ (u16BE p ++
              u32BE (UInt32.ofNat value.length)))) ++ (value ++ tail) by simp,
          drop_left' (by simp), take_left]
      simp only [hl, hp, hlen, hinlined, if_false, hnat, hdrop, hstep]
      rw [if_neg (by simp; omega), if_neg (by simp; omega)]
      rfl

/-- The head of a summary, up to its entries. -/
def summaryHead (labels : List LabelId) (entryCount : Nat) : Bytes :=
  kVertexSummaryVersion :: (u16BE (UInt16.ofNat labels.length) ++ (labels.flatMap u16BE ++
    u16BE (UInt16.ofNat entryCount)))

lemma length_labels (labels : List LabelId) : (labels.flatMap u16BE).length = labels.length * 2 := by
  induction labels with
  | nil => rfl
  | cons l rest ih =>
    rw [flatMap_cons, length_append, length_u16BE, ih, length_cons]
    omega

lemma decodeVertexSummary_head {labels : List LabelId} {count : Nat}
    (hlabels : labels.length < 2 ^ 16) (hcount : count < 2 ^ 16) (tail : Bytes) :
    decodeVertexSummary (summaryHead labels count ++ tail) =
      (readSummaryEntries (summaryHead labels count ++ tail) count (summaryHead labels count).length).map
        fun props => ⟨labels, props⟩ := by
  have hl : (UInt16.ofNat labels.length).toNat = labels.length := UInt16.toNat_ofNat_of_lt' hlabels
  have hc : (UInt16.ofNat count).toNat = count := UInt16.toNat_ofNat_of_lt' hcount
  have hlen : (summaryHead labels count).length = 3 + labels.length * 2 + 2 := by
    simp only [summaryHead, length_cons, length_append, length_u16BE, length_labels]
    omega
  obtain ⟨value, hvalue⟩ : ∃ value, value = summaryHead labels count ++ tail := ⟨_, rfl⟩
  have hfirst : decodeU16BE value 1 = UInt16.ofNat labels.length := by
    have h := decodeU16BE_append [kVertexSummaryVersion] (labels.flatMap u16BE ++
      (u16BE (UInt16.ofNat count) ++ tail)) (UInt16.ofNat labels.length) rfl
    rw [hvalue]
    simpa [summaryHead] using h
  have hsecond : decodeU16BE value (3 + labels.length * 2) = UInt16.ofNat count := by
    have h := decodeU16BE_append (kVertexSummaryVersion :: (u16BE (UInt16.ofNat labels.length) ++
      labels.flatMap u16BE)) tail (UInt16.ofNat count)
      (by simp only [length_cons, length_append, length_u16BE, length_labels]; omega :
        _ = 3 + labels.length * 2)
    rw [hvalue]
    simpa [summaryHead] using h
  have hread : readSummaryLabels value labels.length 3 = labels := by
    have h := readSummaryLabels_append labels (kVertexSummaryVersion ::
      u16BE (UInt16.ofNat labels.length)) (u16BE (UInt16.ofNat count) ++ tail)
    rw [hvalue]
    simpa [summaryHead] using h
  have hsize : value.length = 3 + labels.length * 2 + 2 + tail.length := by
    rw [hvalue, length_append, hlen]
  rw [← hvalue, decodeVertexSummary, if_neg]
  · simp only [hfirst, hl, hsecond, hc, hread]
    rw [if_neg (by omega), if_neg (by omega), hlen]
  · rintro (hshort | hversion)
    · omega
    · rw [hvalue] at hversion
      exact hversion rfl

/-- The decoder accepts exactly the bytes that begin with a summary, and returns it. -/
theorem decodeVertexSummary_eq_some_iff (value : Bytes) (d : DecodedVertexSummary) :
    decodeVertexSummary value = some d ↔ ∃ labels entries rest, BeginsWithSummary value d labels entries rest := by
  constructor
  · intro h
    rw [decodeVertexSummary] at h
    split at h
    · cases h
    · next hhead =>
        rw [not_or, not_not] at hhead
        dsimp only at h
        split at h
        · cases h
        · next hfit =>
            split at h
            · cases h
            · next hfit' =>
                obtain ⟨props, hprops, rfl⟩ := Option.map_eq_some_iff.mp h
                obtain ⟨entries, rest, hcount, hdrop, hdecoded⟩ := entries_of_read hprops
                have hfit : 3 + (decodeU16BE value 1).toNat * 2 ≤ value.length := by omega
                obtain ⟨hlen, hlabels⟩ := labels_eq_of_read hfit
                obtain ⟨b, more, rfl⟩ : ∃ b more, value = b :: more := by
                  cases value with
                  | nil => exact absurd hhead.1 (by simp)
                  | cons b more => exact ⟨b, more, rfl⟩
                have hversion : b = kVertexSummaryVersion := hhead.2
                refine ⟨_, entries, rest, ?_, ?_, ?_, rfl, hdecoded⟩
                · rw [hlen]
                  exact (decodeU16BE (b :: more) 1).toNat_lt
                · rw [hcount]
                  exact (decodeU16BE (b :: more) _).toNat_lt
                · rw [summaryBytes, hlen, hcount, UInt16.ofNat_toNat, UInt16.ofNat_toNat]
                  have hfirst := drop_eq_field (@u16BE_decodeU16BE (b :: more) 1 (by omega))
                  have hsecond := drop_eq_field (@u16BE_decodeU16BE (b :: more)
                    (3 + (decodeU16BE (b :: more) 1).toNat * 2) (by omega))
                  rw [hlabels, hsecond, hdrop] at hfirst
                  rw [cons_append, ← hversion]
                  refine congrArg (b :: ·) ?_
                  simpa using hfirst
  · rintro ⟨labels, entries, rest, h⟩
    have hbytes : value = summaryHead labels entries.length ++ (entries.flatMap bytes ++ rest) := by
      rw [h.bytes]
      simp [summaryBytes, summaryHead]
    rw [hbytes, decodeVertexSummary_head h.labelCount h.entryCount, read_entries, ← h.labels, ← h.props]
    rfl

/-! ### The codec -/

/-- Every value has at least its tag. -/
theorem encode_ne_nil (v : PropertyValue) : encode v ≠ [] := by
  cases v
  all_goals exact cons_ne_nil _ _

lemma inlineBytes_ne_nil_iff (v : PropertyValue) :
    inlineBytes v ≠ [] ↔ (encode v).length ≤ kVertexSummaryInlineMax := by
  rw [inlineBytes]
  split
  · next hsmall => exact iff_of_true (encode_ne_nil v) hsmall
  · next hlarge => exact iff_of_false (fun h => h rfl) hlarge

lemma encodeVertexSummary_ne_nil {labelProps : LabelProps} (hne : validGroups labelProps ≠ [])
    (hlabels : (validGroups labelProps).length ≤ 65535) : encodeVertexSummary labelProps ≠ [] := by
  have hcount : UInt16.ofNat (validGroups labelProps).length ≠ 0 := by
    intro hzero
    have hnat := congrArg UInt16.toNat hzero
    rw [UInt16.toNat_ofNat_of_lt' (show _ < 2 ^ 16 by omega)] at hnat
    exact hne (length_eq_zero_iff.mp hnat)
  rw [encodeVertexSummary]
  simp [hcount]

lemma encodeVertexSummary_of_no_label {labelProps : LabelProps} (h : validGroups labelProps = []) :
    encodeVertexSummary labelProps = [] := by
  rw [encodeVertexSummary, summarySlots, h]
  rfl

/-- A vertex with a label has a summary that is read back, one without has none.  The decoder
stays within any bytes and accepts those that begin with a summary. -/
theorem vertexSummary_codec : (∀ labelProps : LabelProps, (validGroups labelProps).length ≤ 65535 →
      (summarySlots labelProps).length ≤ 65535 →
      if validGroups labelProps = [] then
        encodeVertexSummary labelProps = [] ∧ decodeVertexSummary [] = none
      else
        decodeVertexSummary (encodeVertexSummary labelProps) = some ⟨summaryLabels labelProps,
          (summarySlots labelProps).map fun e => ((e.1, e.2.1), inlineBytes e.2.2)⟩) ∧
    (∀ v : PropertyValue,
      (inlineBytes v = if (encode v).length ≤ kVertexSummaryInlineMax
        then encode v else []) ∧
      (inlineBytes v ≠ [] ↔ (encode v).length ≤ kVertexSummaryInlineMax)) ∧
    (∀ value : Bytes, checkedDecode value = .ok (decodeVertexSummary value)) ∧
    ∀ (value : Bytes) (d : DecodedVertexSummary), decodeVertexSummary value = some d ↔
      ∃ labels entries rest, BeginsWithSummary value d labels entries rest := by
  refine ⟨fun labelProps hlabels hentries => ?_, fun v => ⟨rfl, inlineBytes_ne_nil_iff v⟩,
    checkedDecode_eq, decodeVertexSummary_eq_some_iff⟩
  split
  · next hnone => exact ⟨encodeVertexSummary_of_no_label hnone, rfl⟩
  · next hsome =>
      exact decodeVertexSummary_encode (by omega) (by omega) (encodeVertexSummary_ne_nil hsome hlabels)

/-- One label with a small value and an empty slot. -/
theorem vertexSummary_codec_oneLabel :
    if validGroups [(3, [some (.int64 7), none])] = [] then
      encodeVertexSummary [(3, [some (.int64 7), none])] = [] ∧ decodeVertexSummary [] = none
    else
      decodeVertexSummary (encodeVertexSummary [(3, [some (.int64 7), none])]) =
        some ⟨summaryLabels [(3, [some (.int64 7), none])],
          (summarySlots [(3, [some (.int64 7), none])]).map fun e =>
            ((e.1, e.2.1), inlineBytes e.2.2)⟩ :=
  vertexSummary_codec.1 [(3, [some (.int64 7), none])] (by decide) (by decide)

lemma length_summaryBytes (labels : List LabelId) (entries : List SummaryEntry) :
    (summaryBytes labels entries).length = 5 ∨ 7 ≤ (summaryBytes labels entries).length := by
  have hlen : (summaryBytes labels entries).length = 5 + labels.length * 2 + (entries.flatMap bytes).length := by
    simp only [summaryBytes, length_cons, length_append, length_u16BE, length_labels]
    omega
  cases labels with
  | cons l rest =>
    rw [length_cons] at hlen
    omega
  | nil =>
    cases entries with
    | nil => exact Or.inl hlen
    | cons e rest =>
      have hentry : 4 ≤ e.bytes.length := by
        simp only [bytes, length_append, length_u16BE]
        omega
      rw [flatMap_cons, length_append, length_nil] at hlen
      omega

/-- A vertex without a label has no summary to read, and a byte behind a summary is not
noticed. -/
theorem vertexSummary_notExact : decodeVertexSummary (encodeVertexSummary []) = none ∧
      decodeVertexSummary [1, 0, 0, 0, 0, 7] = some ⟨[], []⟩ ∧
      ¬ ∃ labels entries, ([1, 0, 0, 0, 0, 7] : Bytes) = summaryBytes labels entries := by
  refine ⟨rfl, rfl, ?_⟩
  rintro ⟨labels, entries, h⟩
  have hlen : 6 = (summaryBytes labels entries).length := congrArg List.length h
  have := length_summaryBytes labels entries
  omega

end Eugraph.DataStore
