import Eugraph.Service.BoltConnection

/-!
# Building WebSocket frames

`buildFrame` of `service/bolt/websocket.cpp` and its parser.  The server sends its frames
unmasked; a client sends the same frame with the mask bit set, a key behind the length and
the payload combined with the key.
-/

namespace Eugraph.BoltServer

open Lib List Opcode

def Opcode.code : Opcode → UInt8
  | .CONTINUATION => 0x0
  | .TEXT => 0x1
  | .BINARY => 0x2
  | .CLOSE => 0x8
  | .PING => 0x9
  | .PONG => 0xA
  | .other code => code

def appendLength (len : Nat) : Bytes :=
  if len ≤ 125 then [UInt8.ofNat len]
  else if len ≤ 65535 then 126 :: wordBytes 2 len
  else 127 :: wordBytes 8 len

def buildFrame (payload : Bytes) (opcode : Opcode) : Bytes :=
  (0x80 ||| opcode.code) :: (appendLength payload.length ++ payload)

/-- The frame of a client: `buildFrame`, masked with a key of four bytes. -/
def maskedFrame (key payload : Bytes) (opcode : Opcode) : Bytes :=
  match appendLength payload.length with
  | [] => []
  | len7 :: extended =>
    (0x80 ||| opcode.code) :: (0x80 ||| len7) :: (extended ++ (key ++ unmaskPayload key payload))

/-- A frame with an optional mask. -/
def frameOf (mask : Option Bytes) (payload : Bytes) (opcode : Opcode) : Bytes :=
  match mask with
  | none => buildFrame payload opcode
  | some key => maskedFrame key payload opcode

/-! ### Header bytes -/

/-- A property of all bytes, by counting through them. -/
theorem forall_byte {p : UInt8 → Prop} (h : ∀ n : Fin 256, p (UInt8.ofNat n)) (b : UInt8) : p b := by
  have hb := h ⟨b.toNat, b.toNat_lt⟩
  rwa [UInt8.ofNat_toNat] at hb

lemma opcode_byte (code : UInt8) : code < 16 → (0x80 ||| code) &&& 0x80 ≠ 0 ∧ (0x80 ||| code) &&& 0x0F = code :=
  forall_byte (p := fun code => code < 16 →
    (0x80 ||| code) &&& 0x80 ≠ 0 ∧ (0x80 ||| code) &&& 0x0F = code) (by decide +kernel) code

lemma length_byte (len7 : UInt8) : len7 < 128 → (len7 &&& 0x7F = len7 ∧ len7 &&& 0x80 = 0) ∧
      (0x80 ||| len7) &&& 0x7F = len7 ∧ (0x80 ||| len7) &&& 0x80 ≠ 0 :=
  forall_byte (p := fun len7 => len7 < 128 → (len7 &&& 0x7F = len7 ∧ len7 &&& 0x80 = 0) ∧
      (0x80 ||| len7) &&& 0x7F = len7 ∧ (0x80 ||| len7) &&& 0x80 ≠ 0) (by decide +kernel) len7

lemma code_ofCode (code : UInt8) : (ofCode code).code = code := by
  unfold ofCode
  split
  all_goals rfl

/-- The length field, whatever follows it and however much of it is there. -/
structure LengthField (len : Nat) (len7 : UInt8) (extended : Bytes) : Prop where
  eq : appendLength len = len7 :: extended
  small : len7 < 128
  complete : ∀ b0 b1 more, frameLength len7.toNat (b0 :: b1 :: (extended ++ more)) =
    some (len, 2 + extended.length)
  truncated : ∀ b0 b1 front, front.length < extended.length →
    frameLength len7.toNat (b0 :: b1 :: front) = none

lemma exists_lengthField {len : Nat} (h : len < 2 ^ 64) : ∃ len7 extended, LengthField len len7 extended := by
  by_cases hsmall : len ≤ 125
  · refine ⟨UInt8.ofNat len, [], ?_, ?_, ?_, ?_⟩
    · rw [appendLength, if_pos hsmall]
    · rw [UInt8.lt_iff_toNat_lt, UInt8.toNat_ofNat']
      show len % 256 < 128
      omega
    · intro b0 b1 more
      have hlen : (UInt8.ofNat len).toNat = len := by
        rw [UInt8.toNat_ofNat']
        omega
      rw [hlen, frameLength, if_pos hsmall]
      rfl
    · intro b0 b1 front hfront
      exact absurd hfront (Nat.not_lt_zero _)
  · by_cases hword : len ≤ 65535
    · refine ⟨126, wordBytes 2 len, ?_, by decide, ?_, ?_⟩
      · rw [appendLength, if_neg hsmall, if_pos hword]
      · intro b0 b1 more
        have hfit : ¬ (b0 :: b1 :: (wordBytes 2 len ++ more)).length < 4 := by
          simp only [length_cons, length_append, length_wordBytes]
          omega
        have htake : ((b0 :: b1 :: (wordBytes 2 len ++ more)).drop 2).take 2 = wordBytes 2 len := by
          rw [drop_succ_cons, drop_succ_cons, drop_zero]
          exact take_left' (length_wordBytes 2 len)
        show frameLength 126 _ = _
        rw [frameLength, if_neg (by omega), if_pos rfl, if_neg hfit, htake,
          wordValue_wordBytes (by omega), length_wordBytes]
      · intro b0 b1 front hfront
        rw [length_wordBytes] at hfront
        show frameLength 126 _ = _
        rw [frameLength, if_neg (by omega), if_pos rfl, if_pos]
        simp only [length_cons]
        omega
    · refine ⟨127, wordBytes 8 len, ?_, by decide, ?_, ?_⟩
      · rw [appendLength, if_neg hsmall, if_neg hword]
      · intro b0 b1 more
        have hfit : ¬ (b0 :: b1 :: (wordBytes 8 len ++ more)).length < 10 := by
          simp only [length_cons, length_append, length_wordBytes]
          omega
        have htake : ((b0 :: b1 :: (wordBytes 8 len ++ more)).drop 2).take 8 = wordBytes 8 len := by
          rw [drop_succ_cons, drop_succ_cons, drop_zero]
          exact take_left' (length_wordBytes 8 len)
        show frameLength 127 _ = _
        rw [frameLength, if_neg (by omega), if_neg (by omega), if_neg hfit, htake,
          wordValue_wordBytes (by simpa using h), length_wordBytes]
      · intro b0 b1 front hfront
        rw [length_wordBytes] at hfront
        show frameLength 127 _ = _
        rw [frameLength, if_neg (by omega), if_neg (by omega), if_pos]
        simp only [length_cons]
        omega

/-! ### Masks -/

/-- Combining twice with the key is doing nothing. -/
theorem unmaskPayload_unmaskPayload (key payload : Bytes) :
    unmaskPayload key (unmaskPayload key payload) = payload := by
  rw [unmaskPayload, unmaskPayload, mapIdx_mapIdx]
  refine ext_getElem (by simp) fun i hi hi' => ?_
  rw [getElem_mapIdx]
  show payload[i] ^^^ key.getD (i % 4) 0 ^^^ key.getD (i % 4) 0 = payload[i]
  rw [UInt8.xor_assoc, UInt8.xor_self, UInt8.xor_zero]

lemma length_unmaskPayload (key payload : Bytes) :
    (unmaskPayload key payload).length = payload.length := length_mapIdx

/-! ### The round trip -/

/-- The header of a frame, and what the parser makes of it. -/
structure ReadsBack (mask : Option Bytes) (payload : Bytes) (opcode : Opcode) (hdr : FrameHeader) :
    Prop where
  headerSize : hdr.headerSize + payload.length = (frameOf mask payload opcode).length
  fin : hdr.fin = true
  opcode : hdr.opcode = opcode
  masked : hdr.mask = mask.isSome
  maskKey : hdr.maskKey = mask.getD []
  payloadLen : hdr.payloadLen = payload.length

lemma parse_unmasked {code len7 : UInt8} {extended payload more : Bytes} (hcode : code < 16)
    (h : LengthField payload.length len7 extended) :
    tryParseFrameHeader ((0x80 ||| code) :: len7 :: (extended ++ (payload ++ more))) =
      some ⟨true, false, ofCode code, payload.length, [], 2 + extended.length⟩ := by
  obtain ⟨hfin, hopcode⟩ := opcode_byte code hcode
  obtain ⟨⟨hlow, hmask⟩, -⟩ := length_byte len7 h.small
  rw [tryParseFrameHeader, hlow, h.complete]
  simp [hfin, hopcode, hmask]

lemma parse_masked {code len7 : UInt8} {extended key more : Bytes} {len : Nat} (hcode : code < 16)
    (hkey : key.length = 4) (h : LengthField len len7 extended) :
    tryParseFrameHeader
        ((0x80 ||| code) :: (0x80 ||| len7) :: (extended ++ (key ++ more))) =
      some ⟨true, true, ofCode code, len, key, 2 + extended.length + 4⟩ := by
  obtain ⟨hfin, hopcode⟩ := opcode_byte code hcode
  obtain ⟨-, hlow, hmask⟩ := length_byte len7 h.small
  have hfit : ¬ ((0x80 ||| code) :: (0x80 ||| len7) :: (extended ++ (key ++ more))).length <
      2 + extended.length + 4 := by
    simp only [length_cons, length_append]
    omega
  have htake : (((0x80 ||| code) :: (0x80 ||| len7) :: (extended ++ (key ++ more))).drop
      (2 + extended.length)).take 4 = key := by
    rw [Nat.add_comm 2, drop_succ_cons, drop_succ_cons, drop_left' rfl]
    exact take_left' hkey
  rw [tryParseFrameHeader, hlow, h.complete]
  dsimp only
  rw [if_neg (fun hand => hfit hand.2), htake]
  simp [hfin, hopcode, hmask]

/-- A header that is cut off is not taken for a shorter one. -/
theorem parse_truncated {code len7 b1 : UInt8} {extended rest : Bytes} {len n : Nat}
    (h : LengthField len len7 extended) (hlow : b1 &&& 0x7F = len7)
    (hn : n < 2 + extended.length + if b1 &&& 0x80 = 0 then 0 else 4)
    (hrest : b1 &&& 0x80 ≠ 0 → 4 ≤ rest.length) :
    tryParseFrameHeader (((0x80 ||| code) :: b1 :: (extended ++ rest)).take n) = none := by
  rcases n with _ | _ | n
  · rfl
  · rfl
  · rw [take_succ_cons, take_succ_cons, tryParseFrameHeader, hlow]
    by_cases hshort : n < extended.length
    · -- the length itself is cut
      rw [h.truncated]
      rw [length_take, length_append]
      omega
    · have hmask : b1 &&& 0x80 ≠ 0 := by
        intro hzero
        rw [if_pos hzero] at hn
        omega
      rw [if_neg hmask] at hn
      -- only a part of the key is there
      rw [take_append, take_of_length_le (by omega), h.complete]
      have hlen : ((0x80 ||| code) :: b1 :: (extended ++ rest.take (n - extended.length))).length <
          2 + extended.length + 4 := by
        have := hrest hmask
        simp only [length_cons, length_append, length_take]
        omega
      dsimp only
      rw [if_pos ⟨hmask, hlen⟩]

/-- A frame reads back with anything behind it, and no part of its header is taken for a
header. -/
theorem frame_readsBack {code : UInt8} (hcode : code < 16) (mask : Option Bytes)
    (hmask : ∀ key ∈ mask, key.length = 4) (payload : Bytes) (hlen : payload.length < 2 ^ 64) :
    ∃ hdr, ReadsBack mask payload (ofCode code) hdr ∧
      (∀ more, tryParseFrameHeader (frameOf mask payload (ofCode code) ++ more) = some hdr ∧
        framePayload hdr (frameOf mask payload (ofCode code) ++ more) = payload) ∧
      ∀ n < hdr.headerSize, tryParseFrameHeader ((frameOf mask payload (ofCode code)).take n) = none := by
  obtain ⟨len7, extended, hfield⟩ := exists_lengthField hlen
  obtain ⟨⟨hlow, hzero⟩, hlow', hset⟩ := length_byte len7 hfield.small
  cases mask with
  | none =>
    have hframe : frameOf none payload (ofCode code) = (0x80 ||| code) :: len7 :: (extended ++ payload) := by
      rw [frameOf, buildFrame, hfield.eq, code_ofCode]
      rfl
    rw [hframe]
    refine ⟨⟨true, false, ofCode code, payload.length, [], 2 + extended.length⟩,
      ⟨?_, rfl, rfl, rfl, rfl, rfl⟩, fun more => ⟨?_, ?_⟩, fun n hn => ?_⟩
    · rw [hframe]
      simp only [length_cons, length_append]
      omega
    · rw [cons_append, cons_append, append_assoc]
      exact parse_unmasked hcode hfield
    · rw [framePayload, cons_append, cons_append, append_assoc, Nat.add_comm 2,
        drop_succ_cons, drop_succ_cons, drop_left' rfl, take_left' rfl]
      rfl
    · refine parse_truncated hfield hlow ?_ (fun h => absurd hzero h)
      rw [if_pos hzero]
      exact hn
  | some key =>
    have hkey : key.length = 4 := hmask key rfl
    have hframe : frameOf (some key) payload (ofCode code) = (0x80 ||| code) :: (0x80 ||| len7) ::
          (extended ++ (key ++ unmaskPayload key payload)) := by
      rw [frameOf, maskedFrame, hfield.eq, code_ofCode]
    rw [hframe]
    refine ⟨⟨true, true, ofCode code, payload.length, key, 2 + extended.length + 4⟩,
      ⟨?_, rfl, rfl, rfl, rfl, rfl⟩, fun more => ⟨?_, ?_⟩, fun n hn => ?_⟩
    · rw [hframe]
      simp only [length_cons, length_append, length_unmaskPayload]
      omega
    · rw [cons_append, cons_append, append_assoc, append_assoc]
      exact parse_masked hcode hkey hfield
    · have hdrop : (((0x80 ||| code) :: (0x80 ||| len7) ::
          (extended ++ (key ++ unmaskPayload key payload)) ++ more).drop
            (2 + extended.length + 4)).take payload.length = unmaskPayload key payload := by
        rw [cons_append, cons_append, append_assoc, append_assoc,
          show 2 + extended.length + 4 = extended.length + key.length + 1 + 1 by omega,
          drop_succ_cons, drop_succ_cons, ← append_assoc extended,
          drop_left' (length_append), take_left' (length_unmaskPayload key payload)]
      rw [framePayload, hdrop]
      exact unmaskPayload_unmaskPayload key payload
    · refine parse_truncated hfield hlow' ?_ fun _ => ?_
      · rw [if_neg hset]
        exact hn
      · rw [length_append]
        omega

/-- Both kinds of frames with five bytes. -/
theorem frame_readsBack_hello : (∃ hdr, ReadsBack none [72, 101, 108, 108, 111] (ofCode 1) hdr ∧
      (∀ more, tryParseFrameHeader (frameOf none [72, 101, 108, 108, 111] (ofCode 1) ++ more) = some hdr ∧
        framePayload hdr (frameOf none [72, 101, 108, 108, 111] (ofCode 1) ++ more) = [72, 101, 108, 108, 111]) ∧
      ∀ n < hdr.headerSize, tryParseFrameHeader
        ((frameOf none [72, 101, 108, 108, 111] (ofCode 1)).take n) = none) ∧
    ∃ hdr, ReadsBack (some [1, 2, 3, 4]) [72, 101, 108, 108, 111] (ofCode 2) hdr ∧ (∀ more, tryParseFrameHeader
          (frameOf (some [1, 2, 3, 4]) [72, 101, 108, 108, 111] (ofCode 2) ++ more) = some hdr ∧
        framePayload hdr
          (frameOf (some [1, 2, 3, 4]) [72, 101, 108, 108, 111] (ofCode 2) ++ more) =
          [72, 101, 108, 108, 111]) ∧
      ∀ n < hdr.headerSize, tryParseFrameHeader
        ((frameOf (some [1, 2, 3, 4]) [72, 101, 108, 108, 111] (ofCode 2)).take n) = none :=
  ⟨frame_readsBack (by decide) none (by simp) _ (by decide),
    frame_readsBack (by decide) (some [1, 2, 3, 4]) (by simp) _ (by decide)⟩

end Eugraph.BoltServer
