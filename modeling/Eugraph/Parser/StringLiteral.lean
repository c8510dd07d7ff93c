import Mathlib.Data.List.Basic
import Mathlib.Tactic
import Eugraph.Lib.ByteString

/-!
# String literals

The body of a string or character literal as the lexer reads it (`grammar/CypherLexer.g4`, whose
rules ignore case), the string it denotes, and `unescapeString` of
`query/parser/cypher_parser.cpp`, which the builder applies to the bytes between the quotes.
-/

namespace Eugraph.Cypher

open Lib List Nat Option

/-- The bytes of a text. -/
def utf8 (text : List Char) : Bytes := text.flatMap String.utf8EncodeChar

/-! ### The lexer -/

/-- What a body consists of. -/
inductive BodyItem
  | plain (c : Char)
  | letter (c : Char)
  | octal (digits : List Char)
  | unicode (marks : List Char) (digits : List Char)
  deriving DecidableEq

namespace BodyItem

def spelled : BodyItem → List Char
  | plain c => [c]
  | letter c => ['\\', c]
  | octal digits => '\\' :: digits
  | unicode marks digits => '\\' :: (marks ++ digits)

def HexDigit (c : Char) : Prop :=
  ('0' ≤ c ∧ c ≤ '9') ∨ ('a' ≤ c ∧ c ≤ 'f') ∨ ('A' ≤ c ∧ c ≤ 'F')

def OctalDigit (c : Char) : Prop := '0' ≤ c ∧ c ≤ '7'

instance (c : Char) : Decidable (HexDigit c) := inferInstanceAs (Decidable (_ ∨ _ ∨ _))
instance (c : Char) : Decidable (OctalDigit c) := inferInstanceAs (Decidable (_ ∧ _))

/-- `CHAR_LITERAL`, `STRING_LITERAL` and `EscapeSequence`. -/
inductive Lexed (quote : Char) : BodyItem → Prop
  | plain {c : Char} (hquote : c ≠ quote) (hbackslash : c ≠ '\\') (hcr : c ≠ '\r') (hlf : c ≠ '\n') :
      Lexed quote (plain c)
  | letter {c : Char}
      (hc : c ∈ ['b', 't', 'n', 'f', 'r', 'B', 'T', 'N', 'F', 'R', '"', '\'', '\\']) :
      Lexed quote (letter c)
  | octal_one {d : Char} (hd : OctalDigit d) : Lexed quote (octal [d])
  | octal_two {d e : Char} (hd : OctalDigit d) (he : OctalDigit e) : Lexed quote (octal [d, e])
  | octal_three {z d e : Char} (hz : '0' ≤ z ∧ z ≤ '3') (hd : OctalDigit d) (he : OctalDigit e) :
      Lexed quote (octal [z, d, e])
  | unicode {marks : List Char} {d e f g : Char} (hmarks : marks ≠ [])
      (hu : ∀ m ∈ marks, m = 'u' ∨ m = 'U') (hd : HexDigit d) (he : HexDigit e) (hf : HexDigit f)
      (hg : HexDigit g) :
      Lexed quote (unicode marks [d, e, f, g])

/-! ### What a body denotes -/

def digitValue (d : Char) : Nat :=
  if d ≤ '9' then d.toNat - '0'.toNat
  else if d ≤ 'F' then d.toNat - 'A'.toNat + 10
  else d.toNat - 'a'.toNat + 10

/-- The value of digits to a base. -/
def value (base : Nat) (digits : List Char) : Nat :=
  digits.foldl (fun n d => n * base + digitValue d) 0

def letterChar (c : Char) : Char :=
  if c = 'b' ∨ c = 'B' then '\x08' else if c = 't' ∨ c = 'T' then '\t'
  else if c = 'n' ∨ c = 'N' then '\n' else if c = 'f' ∨ c = 'F' then '\x0c'
  else if c = 'r' ∨ c = 'R' then '\r' else c

def High (n : Nat) : Prop := 0xD800 ≤ n ∧ n < 0xDC00
def Low (n : Nat) : Prop := 0xDC00 ≤ n ∧ n < 0xE000

instance (n : Nat) : Decidable (High n) := inferInstanceAs (Decidable (_ ∧ _))
instance (n : Nat) : Decidable (Low n) := inferInstanceAs (Decidable (_ ∧ _))

/-- The character that an item stands for, unless it is half of a pair. -/
def char? : BodyItem → Option Char
  | plain c => some c
  | letter c => some (letterChar c)
  | octal digits => some (Char.ofNat (value 8 digits))
  | unicode _ digits =>
    if High (value 16 digits) ∨ Low (value 16 digits) then none else some (Char.ofNat (value 16 digits))

end BodyItem

/-- The code point of a surrogate pair. -/
def pairChar (high low : Nat) : Char := Char.ofNat (0x10000 + (high - 0xD800) * 0x400 + (low - 0xDC00))

/-- The text that a body denotes; there is none where half of a pair stands alone. -/
inductive Denotes : List BodyItem → List Char → Prop
  | nil : Denotes [] []
  | single {item : BodyItem} {rest : List BodyItem} {c : Char} {text : List Char} (hchar : item.char? = some c)
      (hrest : Denotes rest text) : Denotes (item :: rest) (c :: text)
  | pair {marks marks' digits digits' : List Char} {rest : List BodyItem} {text : List Char}
      (hhigh : BodyItem.High (BodyItem.value 16 digits)) (hlow : BodyItem.Low (BodyItem.value 16 digits'))
      (hrest : Denotes rest text) :
      Denotes (.unicode marks digits :: .unicode marks' digits' :: rest)
        (pairChar (BodyItem.value 16 digits) (BodyItem.value 16 digits') :: text)

/-! ### The decoder -/

def backslash : UInt8 := 92

/-- The value of a hexadecimal digit. -/
def hexDigit? (d : UInt8) : Option Nat :=
  if 48 ≤ d ∧ d ≤ 57 then some (d.toNat - 48)
  else if 97 ≤ d ∧ d ≤ 102 then some (d.toNat - 97 + 10)
  else if 65 ≤ d ∧ d ≤ 70 then some (d.toNat - 65 + 10)
  else none

/-- Four digits. -/
def hexQuad : Nat → Nat → Bytes → Option Nat
  | 0, cp, _ => some cp
  | _ + 1, _, [] => none
  | k + 1, cp, d :: rest => (hexDigit? d).bind fun val => hexQuad k ((cp <<< 4) ||| val) rest

def encodeCodepoint (cp : Nat) : Bytes :=
  if cp ≤ 0x7F then [UInt8.ofNat cp]
  else if cp ≤ 0x7FF then [UInt8.ofNat (0xC0 ||| (cp >>> 6)), UInt8.ofNat (0x80 ||| (cp &&& 0x3F))]
  else if cp ≤ 0xFFFF then
    [UInt8.ofNat (0xE0 ||| (cp >>> 12)), UInt8.ofNat (0x80 ||| ((cp >>> 6) &&& 0x3F)),
      UInt8.ofNat (0x80 ||| (cp &&& 0x3F))]
  else
    [UInt8.ofNat (0xF0 ||| (cp >>> 18)), UInt8.ofNat (0x80 ||| ((cp >>> 12) &&& 0x3F)),
      UInt8.ofNat (0x80 ||| ((cp >>> 6) &&& 0x3F)), UInt8.ofNat (0x80 ||| (cp &&& 0x3F))]

def invalidUnicodeLiteral {α : Type} : Except String α := .error "InvalidUnicodeLiteral"

/-- What the switch appends for the byte behind a backslash: for one that it does not know, the
backslash itself. -/
def standardEscape (c : UInt8) : UInt8 :=
  if c = 110 then 10
  else if c = 116 then 9
  else if c = 114 then 13
  else if c = 98 then 8
  else if c = 102 then 12
  else if c = 92 then 92
  else if c = 39 then 39
  else if c = 34 then 34
  else backslash

/-- One pass of the loop: what is appended, and how many more bytes were taken. -/
def unescapeStep (c : UInt8) (rest : Bytes) : Except String (Bytes × Nat) :=
  match rest with
  | [] => .ok ([c], 0)
  | d :: more =>
    if c ≠ backslash then .ok ([c], 0)
    else if d = 117 then
      let us := (more.takeWhile (· = 117)).length
      match hexQuad 4 0 (more.drop us) with
      | none => invalidUnicodeLiteral
      | some cp =>
        if cp > 0x10FFFF then invalidUnicodeLiteral
        else .ok (encodeCodepoint cp, 1 + us + 4)
    else .ok ([standardEscape d], 1)

/-- The loop; the first `skip` bytes are taken already. -/
def unescapeFrom : Nat → Bytes → Except String Bytes
  | _, [] => .ok []
  | skip + 1, _ :: rest => unescapeFrom skip rest
  | 0, c :: rest => do
      let (out, skip) ← unescapeStep c rest
      let more ← unescapeFrom skip rest
      .ok (out ++ more)

def unescapeString (raw : Bytes) : Except String Bytes := unescapeFrom 0 raw

/-- `buildLiteral` of a string or character literal: the token without its quotes. -/
def buildStringLiteral (token : Bytes) : Except String Bytes :=
  unescapeString ((token.drop 1).take (token.length - 2))

/-! ### The loop on bytes -/

lemma unescapeFrom_skip (n : Nat) (data : Bytes) : unescapeFrom n data = unescapeFrom 0 (data.drop n) := by
  induction data generalizing n with
  | nil =>
    rw [drop_nil]
    cases n <;> rfl
  | cons c rest ih =>
    cases n with
    | zero => rfl
    | succ n => exact ih n

lemma unescapeFrom_step {c : UInt8} {rest out : Bytes} {skip : Nat} (h : unescapeStep c rest = .ok (out, skip)) :
    unescapeFrom 0 (c :: rest) = (out ++ ·) <$> unescapeFrom 0 (rest.drop skip) := by
  rw [unescapeFrom, h, ← unescapeFrom_skip]
  show (unescapeFrom skip rest >>= fun more => Except.ok (out ++ more)) = _
  cases unescapeFrom skip rest <;> rfl

lemma unescapeFrom_byte {c : UInt8} (hc : c ≠ backslash) (rest : Bytes) :
    unescapeFrom 0 (c :: rest) = ([c] ++ ·) <$> unescapeFrom 0 rest := by
  have hstep : unescapeStep c rest = .ok ([c], 0) := by
    cases rest with
    | nil => rfl
    | cons d more => exact if_pos hc
  exact unescapeFrom_step hstep

lemma unescapeFrom_bytes {bytes : Bytes} (h : backslash ∉ bytes) (rest : Bytes) :
    unescapeFrom 0 (bytes ++ rest) = (bytes ++ ·) <$> unescapeFrom 0 rest := by
  induction bytes with
  | nil =>
    rw [nil_append]
    cases unescapeFrom 0 rest <;> rfl
  | cons c bytes ih =>
    have hc : c ≠ backslash := fun heq => h (heq ▸ mem_cons_self)
    rw [cons_append, unescapeFrom_byte hc, ih (fun hmem => h (mem_cons_of_mem _ hmem))]
    cases unescapeFrom 0 rest <;> rfl

/-- The escaped byte goes with the backslash, whatever it is. -/
theorem unescapeFrom_standard {d : UInt8} (hd : d ≠ 117) (rest : Bytes) :
    unescapeFrom 0 (backslash :: d :: rest) = ([standardEscape d] ++ ·) <$> unescapeFrom 0 rest := by
  have hstep : unescapeStep backslash (d :: rest) = .ok ([standardEscape d], 1) := by
    simp [unescapeStep, hd]
  exact unescapeFrom_step hstep

lemma hexQuad_append {k cp : Nat} {digits : Bytes} (h : digits.length = k) (rest : Bytes) :
    hexQuad k cp (digits ++ rest) = hexQuad k cp digits := by
  induction digits generalizing k cp with
  | nil =>
    obtain rfl := h
    rfl
  | cons d digits ih =>
    obtain rfl := h
    rw [cons_append, length_cons, hexQuad, hexQuad]
    cases hexDigit? d with
    | none => rfl
    | some val => exact ih rfl

/-- A run of `u` and four digits. -/
theorem unescapeFrom_unicode (us : Nat) {digits : Bytes} (hlength : digits.length = 4)
    (hhead : digits.head? ≠ some 117) {cp : Nat} (hcp : hexQuad 4 0 digits = some cp) (hmax : cp ≤ 0x10FFFF)
    (rest : Bytes) :
    unescapeFrom 0 (backslash :: 117 :: (replicate us 117 ++ digits) ++ rest) =
      (encodeCodepoint cp ++ ·) <$> unescapeFrom 0 rest := by
  have htake : ((replicate us 117 ++ (digits ++ rest)).takeWhile (· = (117 : UInt8))).length = us := by
    cases digits with
    | nil => cases hlength
    | cons d digits =>
      have hd : d ≠ 117 := fun heq => hhead (by rw [heq]; rfl)
      rw [takeWhile_append_of_pos (by simp)]
      simp [hd]
  have hstep : unescapeStep backslash (117 :: (replicate us 117 ++ (digits ++ rest))) =
      .ok (encodeCodepoint cp, 1 + us + 4) := by
    have hdrop : (replicate us (117 : UInt8) ++ (digits ++ rest)).drop us = digits ++ rest := by
      simp
    have hsmall : ¬ cp > 0x10FFFF := by omega
    simp only [unescapeStep, ne_eq, not_true_eq_false, if_false, if_true, htake, hdrop,
      hexQuad_append hlength, hcp, hsmall]
  have hrest : (117 :: (replicate us 117 ++ (digits ++ rest))).drop (1 + us + 4) = rest := by
    have hsum : 1 + us + 4 = (117 :: (replicate us (117 : UInt8) ++ digits)).length := by
      simp [hlength]
      omega
    rw [hsum, ← append_assoc]
    exact drop_left
  rw [cons_append, cons_append, append_assoc, unescapeFrom_step hstep, hrest]

/-- Something else than a digit among the four. -/
theorem unescapeFrom_invalid (us : Nat) {more : Bytes} (hhead : more.head? ≠ some 117)
    (hquad : hexQuad 4 0 more = none) :
    unescapeFrom 0 (backslash :: 117 :: (replicate us 117 ++ more)) = invalidUnicodeLiteral := by
  have htake : ((replicate us 117 ++ more).takeWhile (· = (117 : UInt8))).length = us := by
    rw [takeWhile_append_of_pos (by simp)]
    cases more with
    | nil => simp
    | cons d digits =>
      have hd : d ≠ 117 := fun heq => hhead (by rw [heq]; rfl)
      simp [hd]
  have hdrop : (replicate us (117 : UInt8) ++ more).drop us = more := by simp
  have hstep : unescapeStep backslash (117 :: (replicate us 117 ++ more)) =
      (invalidUnicodeLiteral : Except String (Bytes × Nat)) := by
    simp only [unescapeStep, ne_eq, not_true_eq_false, if_false, if_true, htake, hdrop, hquad]
  rw [unescapeFrom, hstep]
  rfl

/-! ### Characters as bytes -/

variable {c : Char}

lemma utf8EncodeChar_ascii (hc : c.toNat < 128) : String.utf8EncodeChar c = [UInt8.ofNat c.toNat] := by
  have hsmall : c.val.toNat ≤ 0x7f := by
    show c.toNat ≤ 0x7f
    omega
  rw [String.utf8EncodeChar]
  exact if_pos hsmall

variable {text : List Char}

lemma utf8_ascii (h : ∀ c ∈ text, c.toNat < 128) :
    utf8 text = text.map fun c => UInt8.ofNat c.toNat := by
  induction text with
  | nil => rfl
  | cons c text ih =>
    have hrest := ih fun d hd => h d (mem_cons_of_mem _ hd)
    unfold utf8 at hrest ⊢
    rw [flatMap_cons, utf8EncodeChar_ascii (h c mem_cons_self), hrest]
    rfl

lemma utf8_append (text more : List Char) : utf8 (text ++ more) = utf8 text ++ utf8 more := flatMap_append

/-- No other character has the byte of the backslash in it. -/
theorem backslash_not_mem_utf8EncodeChar (hc : c ≠ '\\') : backslash ∉ String.utf8EncodeChar c := by
  have hvalue : c.val.toNat ≠ 92 := by
    intro heq
    apply hc
    apply Char.ext
    apply UInt32.toNat_inj.mp
    exact heq
  have hbyte (n : Nat) (hn : n % 256 ≠ 92) : backslash ≠ UInt8.ofNat n := by
    intro heq
    apply hn
    have htoNat := congrArg UInt8.toNat heq
    rw [UInt8.toNat_ofNat'] at htoNat
    exact htoNat.symm
  unfold String.utf8EncodeChar
  simp only
  split
  next hsmall =>
    have hfirst := hbyte c.val.toNat (by omega)
    simpa using hfirst
  next =>
    split
    next =>
      have hfirst := hbyte (c.val.toNat / 64 % 0x20 + 0xc0) (by omega)
      have hsecond := hbyte (c.val.toNat % 0x40 + 0x80) (by omega)
      simp only [mem_cons, not_mem_nil, or_false, not_or]
      exact ⟨hfirst, hsecond⟩
    next =>
      split
      next =>
        have hfirst := hbyte (c.val.toNat / 4096 % 0x10 + 0xe0) (by omega)
        have hsecond := hbyte (c.val.toNat / 64 % 0x40 + 0x80) (by omega)
        have hthird := hbyte (c.val.toNat % 0x40 + 0x80) (by omega)
        simp only [mem_cons, not_mem_nil, or_false, not_or]
        exact ⟨hfirst, hsecond, hthird⟩
      next =>
        have hfirst := hbyte (c.val.toNat / 262144 % 0x08 + 0xf0) (by omega)
        have hsecond := hbyte (c.val.toNat / 4096 % 0x40 + 0x80) (by omega)
        have hthird := hbyte (c.val.toNat / 64 % 0x40 + 0x80) (by omega)
        have hfourth := hbyte (c.val.toNat % 0x40 + 0x80) (by omega)
        simp only [mem_cons, not_mem_nil, or_false, not_or]
        exact ⟨hfirst, hsecond, hthird, hfourth⟩

lemma lead_or {a n i : Nat} (hn : n < 2 ^ i) : (2 ^ i * a) ||| n = n % 2 ^ i + 2 ^ i * a := by
  rw [← two_pow_add_eq_or_of_lt hn, mod_eq_of_lt hn, Nat.add_comm]

/-- A code point that is no surrogate is encoded as its character. -/
theorem encodeCodepoint_eq {n : Nat} (hvalid : n.isValidChar) :
    encodeCodepoint n = String.utf8EncodeChar (Char.ofNat n) := by
  have hval : (Char.ofNat n).val.toNat = n := by
    rw [Char.ofNat, dif_pos hvalid]
    rfl
  have hmax : n < 0x110000 := by
    rcases hvalid with hlow | hhigh
    · omega
    · exact hhigh.2
  have hcontinuation (m : Nat) : 0x80 ||| (m &&& 0x3F) = m % 0x40 + 0x80 := by
    have hlt : m % 2 ^ 6 < 2 ^ 7 := by omega
    have hmod : m &&& 0x3F = m % 2 ^ 6 := and_two_pow_sub_one_eq_mod m 6
    have hor : (2 ^ 7 * 1) ||| (m % 2 ^ 6) = m % 2 ^ 6 % 2 ^ 7 + 2 ^ 7 * 1 := lead_or hlt
    rw [hmod, show (0x80 : Nat) = 2 ^ 7 * 1 from rfl, hor]
    omega
  have htwo (m : Nat) (hm : m < 2 ^ 6) : 0xC0 ||| m = m + 0xC0 := by
    have hor : (2 ^ 6 * 3) ||| m = m % 2 ^ 6 + 2 ^ 6 * 3 := lead_or hm
    rw [show (0xC0 : Nat) = 2 ^ 6 * 3 from rfl, hor]
    omega
  have hthree (m : Nat) (hm : m < 2 ^ 5) : 0xE0 ||| m = m + 0xE0 := by
    have hor : (2 ^ 5 * 7) ||| m = m % 2 ^ 5 + 2 ^ 5 * 7 := lead_or hm
    rw [show (0xE0 : Nat) = 2 ^ 5 * 7 from rfl, hor]
    omega
  have hfour (m : Nat) (hm : m < 2 ^ 4) : 0xF0 ||| m = m + 0xF0 := by
    have hor : (2 ^ 4 * 15) ||| m = m % 2 ^ 4 + 2 ^ 4 * 15 := lead_or hm
    rw [show (0xF0 : Nat) = 2 ^ 4 * 15 from rfl, hor]
    omega
  have hshift (i : Nat) : n >>> i = n / 2 ^ i := shiftRight_eq_div_pow n i
  unfold encodeCodepoint String.utf8EncodeChar
  simp only [hval, hcontinuation, hshift]
  split
  next => rfl
  next =>
    split
    next hn =>
      rw [htwo _ (by omega), mod_eq_of_lt (show n / 64 < 0x20 by omega)]
      rfl
    next =>
      split
      next hn =>
        rw [hthree _ (by omega), mod_eq_of_lt (show n / 4096 < 0x10 by omega)]
        rfl
      next =>
        rw [hfour _ (by omega), mod_eq_of_lt (show n / 262144 < 0x08 by omega)]
        rfl

/-! ### One item -/

namespace BodyItem

/-- What the decoder makes of an item; there is nothing where it throws. -/
def decoded : BodyItem → Option Bytes
  | plain c => some (String.utf8EncodeChar c)
  | letter c => some [standardEscape (UInt8.ofNat c.toNat)]
  | octal digits => some (utf8 ('\\' :: digits.tail))
  | unicode marks digits =>
    if marks.head? = some 'U' then some (utf8 ('\\' :: (marks.tail ++ digits)))
    else if marks.all (· = 'u') then some (encodeCodepoint (value 16 digits))
    else none

end BodyItem

lemma char_le_iff (c d : Char) : c ≤ d ↔ c.toNat ≤ d.toNat := UInt32.le_iff_toNat_le

open BodyItem (HexDigit OctalDigit value digitValue High Low decoded spelled Lexed char?)

lemma BodyItem.HexDigit.toNat (h : HexDigit c) :
    (48 ≤ c.toNat ∧ c.toNat ≤ 57) ∨ (97 ≤ c.toNat ∧ c.toNat ≤ 102) ∨ (65 ≤ c.toNat ∧ c.toNat ≤ 70) := by
  simp only [HexDigit, char_le_iff] at h
  exact h

lemma BodyItem.OctalDigit.toNat (h : OctalDigit c) : 48 ≤ c.toNat ∧ c.toNat ≤ 55 := by
  simp only [OctalDigit, char_le_iff] at h
  exact h

lemma digitValue_eq (c : Char) : digitValue c =
      if c.toNat ≤ 57 then c.toNat - 48 else if c.toNat ≤ 70 then c.toNat - 65 + 10 else c.toNat - 97 + 10 := by
  simp only [digitValue, char_le_iff]
  rfl

lemma digitValue_lt (h : HexDigit c) : digitValue c < 16 := by
  have hrange := h.toNat
  rw [digitValue_eq]
  split
  next => omega
  next => split <;> omega

lemma hexDigit?_eq (h : HexDigit c) : hexDigit? (UInt8.ofNat c.toNat) = some (digitValue c) := by
  have hrange := h.toNat
  have htoNat : (UInt8.ofNat c.toNat).toNat = c.toNat := by
    rw [UInt8.toNat_ofNat']
    omega
  simp only [hexDigit?, UInt8.le_iff_toNat_le, htoNat, digitValue_eq]
  rcases hrange with hdigit | hlower | hupper
  · simp [hdigit]
  · rw [if_neg (by simp; omega), if_pos (by simpa using hlower), if_neg (by omega), if_neg (by omega)]
  · rw [if_neg (by simp; omega), if_neg (by simp; omega), if_pos (by simpa using hupper), if_neg (by omega),
      if_pos (by omega)]

variable {digits : List Char}

lemma hexQuad_eq (h : ∀ d ∈ digits, HexDigit d) (cp : Nat) :
    hexQuad digits.length cp (digits.map fun d => UInt8.ofNat d.toNat) =
      some (digits.foldl (fun n d => n * 16 + digitValue d) cp) := by
  induction digits generalizing cp with
  | nil => rfl
  | cons d digits ih =>
    have hd := h d mem_cons_self
    have hshift : (cp <<< 4) ||| digitValue d = cp * 16 + digitValue d := by
      have hlt : digitValue d < 2 ^ 4 := digitValue_lt hd
      rw [← shiftLeft_add_eq_or_of_lt hlt, shiftLeft_eq]
    rw [length_cons, map_cons, hexQuad, hexDigit?_eq hd]
    show hexQuad digits.length (_ ||| _) _ = _
    rw [hshift, ih (fun e he => h e (mem_cons_of_mem _ he))]
    rfl

lemma utf8_cons (c : Char) (text : List Char) : utf8 (c :: text) = String.utf8EncodeChar c ++ utf8 text :=
  flatMap_cons

lemma backslash_not_mem_utf8 (h : '\\' ∉ text) : backslash ∉ utf8 text := by
  intro hmem
  obtain ⟨c, hc, hbyte⟩ := mem_flatMap.mp hmem
  have hne : c ≠ '\\' := fun heq => h (heq ▸ hc)
  exact backslash_not_mem_utf8EncodeChar hne hbyte

lemma utf8_backslash (text : List Char) : utf8 ('\\' :: text) = backslash :: utf8 text := rfl

/-- A backslash and a character that the switch does not know: the character is lost. -/
theorem unescapeFrom_unknown (hascii : c.toNat < 128) (hu : c ≠ 'u')
    (hescape : standardEscape (UInt8.ofNat c.toNat) = backslash) (htext : '\\' ∉ text)
    (rest : Bytes) :
    unescapeFrom 0 (utf8 ('\\' :: c :: text) ++ rest) = (utf8 ('\\' :: text) ++ ·) <$> unescapeFrom 0 rest := by
  have hbyte : UInt8.ofNat c.toNat ≠ 117 := by
    intro heq
    apply hu
    apply Char.ext
    apply UInt32.toNat_inj.mp
    have htoNat := congrArg UInt8.toNat heq
    rw [UInt8.toNat_ofNat', mod_eq_of_lt (by omega)] at htoNat
    exact htoNat
  rw [utf8_backslash, utf8_cons, utf8EncodeChar_ascii hascii]
  show unescapeFrom 0 (backslash :: UInt8.ofNat c.toNat :: (utf8 text ++ rest)) = _
  rw [unescapeFrom_standard hbyte, hescape, unescapeFrom_bytes (backslash_not_mem_utf8 htext)]
  cases unescapeFrom 0 rest <;> rfl

variable {marks : List Char}

/-- The marks of a unicode escape: all lower, or the first upper one behind some lower ones. -/
theorem marks_cases (hu : ∀ m ∈ marks, m = 'u' ∨ m = 'U') : marks = replicate marks.length 'u' ∨
      ∃ us more, marks = replicate us 'u' ++ 'U' :: more := by
  induction marks with
  | nil => exact .inl rfl
  | cons m marks ih =>
    rcases hu m mem_cons_self with rfl | rfl
    · rcases ih fun d hd => hu d (mem_cons_of_mem _ hd) with hall | ⟨us, more, hmarks⟩
      · left
        rw [length_cons, replicate_succ, ← hall]
      · right
        exact ⟨us + 1, more, by rw [hmarks, replicate_succ, cons_append]⟩
    · exact .inr ⟨0, marks, rfl⟩

lemma utf8_replicate (us : Nat) : utf8 (replicate us 'u') = replicate us 117 := by
  rw [utf8_ascii (by
    intro c hc
    rw [eq_of_mem_replicate hc]
    decide), map_replicate]
  rfl

variable {d : Char}

lemma standardEscape_octal (hd : OctalDigit d) : standardEscape (UInt8.ofNat d.toNat) = backslash := by
  have hrange := hd.toNat
  have hvalue : d.toNat = 48 ∨ d.toNat = 49 ∨ d.toNat = 50 ∨ d.toNat = 51 ∨ d.toNat = 52 ∨ d.toNat = 53 ∨
      d.toNat = 54 ∨ d.toNat = 55 := by omega
  rcases hvalue with h | h | h | h | h | h | h | h <;> rw [h] <;> rfl

/-- An octal escape loses its first digit. -/
theorem unescapeFrom_octal (hd : OctalDigit d)
    (hdigits : ∀ e ∈ digits, OctalDigit e) (rest : Bytes) :
    unescapeFrom 0 (utf8 ('\\' :: d :: digits) ++ rest) = (utf8 ('\\' :: digits) ++ ·) <$> unescapeFrom 0 rest := by
  have hrange := hd.toNat
  refine unescapeFrom_unknown (by omega) ?_ (standardEscape_octal hd) ?_ rest
  · rintro rfl
    exact absurd hrange (by decide)
  · intro hmem
    exact absurd (hdigits _ hmem).toNat (by decide)

/-- A unicode escape: decoded with small marks, and with a large one broken or refused. -/
theorem unescapeFrom_marks (hmarks : marks ≠ []) (hu : ∀ m ∈ marks, m = 'u' ∨ m = 'U') (hlength : digits.length = 4)
    (hdigits : ∀ d ∈ digits, HexDigit d) (hmax : value 16 digits ≤ 0x10FFFF) (rest : Bytes) :
    unescapeFrom 0 (utf8 (spelled (.unicode marks digits)) ++ rest) =
      match decoded (.unicode marks digits) with
      | some out => (out ++ ·) <$> unescapeFrom 0 rest
      | none => invalidUnicodeLiteral := by
  have hascii : utf8 digits = digits.map fun d => UInt8.ofNat d.toNat :=
    utf8_ascii fun d hd => by
      have hrange := (hdigits d hd).toNat
      omega
  have hhead : (utf8 digits).head? ≠ some 117 := by
    rw [hascii]
    cases digits with
    | nil => cases hlength
    | cons d digits =>
      have hrange := (hdigits d mem_cons_self).toNat
      intro hsome
      have htoNat := congrArg UInt8.toNat (some.inj hsome)
      rw [UInt8.toNat_ofNat', mod_eq_of_lt (by omega)] at htoNat
      have h117 : d.toNat = 117 := htoNat
      omega
  have hquad : hexQuad 4 0 (utf8 digits) = some (value 16 digits) := by
    rw [hascii, ← hlength]
    exact hexQuad_eq hdigits 0
  rw [spelled, utf8_backslash, utf8_append]
  rcases marks_cases hu with hall | ⟨us, more, rfl⟩
  · cases hn : marks.length with
    | zero => exact absurd (length_eq_zero_iff.mp hn) hmarks
    | succ n =>
      rw [hn] at hall
      subst hall
      have hlength' : (utf8 digits).length = 4 := by rw [hascii, length_map, hlength]
      have hdecoded : decoded (.unicode (replicate (n + 1) 'u') digits) =
          some (encodeCodepoint (value 16 digits)) := by
        simp [decoded, replicate_succ]
      rw [hdecoded, utf8_replicate, replicate_succ]
      exact unescapeFrom_unicode n hlength' hhead hquad hmax rest
  · cases us with
    | zero =>
      have hfree : '\\' ∉ more ++ digits := by
        intro hmem
        rcases mem_append.mp hmem with hmark | hdigit
        · rcases hu _ (mem_append_right _ (mem_cons_of_mem _ hmark)) with h | h <;> cases h
        · exact absurd (hdigits _ hdigit).toNat (by decide)
      have hlost := unescapeFrom_unknown (c := 'U') (by decide) (by decide) rfl hfree rest
      rw [utf8_backslash, utf8_cons, utf8_append] at hlost
      exact hlost
    | succ us =>
      have hdecoded : decoded (.unicode (replicate (us + 1) 'u' ++ 'U' :: more) digits) = none := by
        simp [decoded, replicate_succ]
      rw [hdecoded, utf8_append, utf8_replicate, replicate_succ, utf8_cons]
      have hinvalid : unescapeFrom 0 (backslash :: 117 :: (replicate us 117 ++
          (85 :: (utf8 more ++ utf8 digits ++ rest)))) = invalidUnicodeLiteral :=
        unescapeFrom_invalid us (by simp) rfl
      rw [show String.utf8EncodeChar 'U' = [85] from rfl]
      simpa using hinvalid

lemma value_lt (hdigits : ∀ d ∈ digits, HexDigit d) : value 16 digits < 16 ^ digits.length := by
  induction digits using reverseRecOn with
  | nil => decide
  | append_singleton digits d ih =>
    have hd := digitValue_lt (hdigits d (mem_append_right _ (mem_singleton_self d)))
    have hvalue : value 16 (digits ++ [d]) = value 16 digits * 16 + digitValue d := by
      simp [value]
    have hlow := ih fun e he => hdigits e (mem_append_left _ he)
    rw [hvalue, length_append, length_singleton, Nat.pow_succ]
    omega

lemma hexQuad_lexed {e f g : Char} (hd : HexDigit d) (he : HexDigit e)
    (hf : HexDigit f) (hg : HexDigit g) :
    (∀ c ∈ [d, e, f, g], HexDigit c) ∧ value 16 [d, e, f, g] < 16 ^ 4 := by
  have hdigits : ∀ c ∈ [d, e, f, g], HexDigit c := by
    intro c hc
    simp only [mem_cons, not_mem_nil, or_false] at hc
    rcases hc with rfl | rfl | rfl | rfl
    · exact hd
    · exact he
    · exact hf
    · exact hg
  exact ⟨hdigits, value_lt hdigits⟩

variable {item : BodyItem} {quote : Char}

/-- What the loop does with an item. -/
theorem unescapeFrom_item (h : item.Lexed quote) (rest : Bytes) :
    unescapeFrom 0 (utf8 item.spelled ++ rest) =
      match item.decoded with
      | some out => (out ++ ·) <$> unescapeFrom 0 rest
      | none => invalidUnicodeLiteral := by
  cases h with
  | plain hquote hbackslash hcr hlf =>
    rw [spelled, utf8_cons, show utf8 [] = [] from rfl, append_nil]
    exact unescapeFrom_bytes (backslash_not_mem_utf8EncodeChar hbackslash) rest
  | @letter c hc =>
    have hbyte : UInt8.ofNat c.toNat ≠ 117 ∧ c.toNat < 128 := by
      simp only [mem_cons, not_mem_nil, or_false] at hc
      rcases hc with rfl | rfl | rfl | rfl | rfl | rfl | rfl | rfl | rfl | rfl | rfl | rfl | rfl <;> decide
    rw [spelled, utf8_backslash, utf8_cons, utf8EncodeChar_ascii hbyte.2]
    exact unescapeFrom_standard hbyte.1 rest
  | octal_one hd => exact unescapeFrom_octal hd (by simp) rest
  | octal_two hd he => exact unescapeFrom_octal hd (by simpa using he) rest
  | @octal_three z d e hz hd he =>
    have hthree : '3' ≤ '7' := by decide
    have hz' : OctalDigit z := ⟨hz.1, Char.le_trans hz.2 hthree⟩
    exact unescapeFrom_octal hz' (by simpa using ⟨hd, he⟩) rest
  | @unicode marks d e f g hmarks hu hd he hf hg =>
    obtain ⟨hdigits, hmax⟩ := hexQuad_lexed hd he hf hg
    exact unescapeFrom_marks hmarks hu rfl hdigits (by omega) rest

variable {items : List BodyItem}

/-- The loop on a whole body. -/
theorem unescapeFrom_items (h : ∀ item ∈ items, item.Lexed quote) :
    unescapeFrom 0 (utf8 (items.flatMap spelled)) =
      match items.mapM decoded with
      | some outs => .ok outs.flatten
      | none => invalidUnicodeLiteral := by
  induction items with
  | nil => rfl
  | cons item items ih =>
    have hrest := ih fun other hother => h other (mem_cons_of_mem _ hother)
    rw [flatMap_cons, utf8_append, unescapeFrom_item (h item mem_cons_self), hrest, mapM_cons]
    cases item.decoded with
    | none => rfl
    | some out => cases items.mapM decoded <;> rfl

/-! ### Where the decoder is right -/

namespace BodyItem

/-- No octal escape, no escape letter in upper case and no half of a surrogate pair. -/
def Faithful : BodyItem → Prop
  | plain _ => True
  | letter c => c ∉ ['B', 'T', 'N', 'F', 'R']
  | octal _ => False
  | unicode marks digits =>
    (∀ m ∈ marks, m = 'u') ∧ ¬ High (value 16 digits) ∧ ¬ Low (value 16 digits)

end BodyItem

lemma isValidChar_of_no_surrogate {n : Nat} (hmax : n < 16 ^ 4) (hhigh : ¬ High n)
    (hlow : ¬ Low n) : n.isValidChar := by
  unfold High at hhigh
  unfold Low at hlow
  unfold Nat.isValidChar
  omega

/-- A faithful item is decoded to its character. -/
theorem BodyItem.Faithful.decoded (hlexed : item.Lexed quote)
    (h : item.Faithful) : ∃ c, item.char? = some c ∧ item.decoded = some (String.utf8EncodeChar c) := by
  cases hlexed with
  | @plain c hquote hbackslash hcr hlf => exact ⟨c, rfl, rfl⟩
  | @letter c hc =>
    have hsmall : c ∈ ['b', 't', 'n', 'f', 'r', '"', '\'', '\\'] := by
      have hno : c ∉ ['B', 'T', 'N', 'F', 'R'] := h
      simp only [mem_cons, not_mem_nil, or_false] at hc hno ⊢
      tauto
    refine ⟨letterChar c, rfl, ?_⟩
    simp only [mem_cons, not_mem_nil, or_false] at hsmall
    rcases hsmall with rfl | rfl | rfl | rfl | rfl | rfl | rfl | rfl <;> rfl
  | octal_one hd => exact h.elim
  | octal_two hd he => exact h.elim
  | octal_three hz hd he => exact h.elim
  | @unicode marks d e f g hmarks hu hd he hf hg =>
    obtain ⟨hsmall, hhigh, hlow⟩ := h
    have hmax := (hexQuad_lexed hd he hf hg).2
    refine ⟨Char.ofNat (value 16 [d, e, f, g]), if_neg (by tauto), ?_⟩
    have hhead : ¬ marks.head? = some 'U' := by
      intro hhead
      have hmem := hsmall _ (mem_of_head? hhead)
      exact absurd hmem (by decide)
    have hall : marks.all (· = 'u') = true := by simpa using hsmall
    rw [decoded, if_neg hhead, if_pos hall, encodeCodepoint_eq (isValidChar_of_no_surrogate hmax hhigh hlow)]

lemma octal_digitValue (hd : OctalDigit d) : digitValue d ≤ 7 := by
  have hrange := hd.toNat
  rw [digitValue_eq, if_pos (by omega)]
  omega

lemma length_utf8EncodeChar_ofNat {n : Nat} (hn : n ≤ 0x7FF) :
    (String.utf8EncodeChar (Char.ofNat n)).length ≤ if n ≤ 0x7F then 1 else 2 := by
  have hvalid : n.isValidChar := by
    unfold Nat.isValidChar
    omega
  rw [← encodeCodepoint_eq hvalid, encodeCodepoint]
  split
  next => exact le_rfl
  next => exact le_rfl

lemma length_le_utf8 (text : List Char) : text.length ≤ (utf8 text).length := by
  induction text with
  | nil => exact Nat.zero_le _
  | cons c text ih =>
    have hone : 0 < (String.utf8EncodeChar c).length := by
      rw [String.length_utf8EncodeChar]
      exact Char.utf8Size_pos c
    rw [utf8_cons, length_append, length_cons]
    omega

lemma length_utf8_octal (h : ∀ d ∈ digits, OctalDigit d) :
    (utf8 ('\\' :: digits)).length = digits.length + 1 := by
  have hascii : utf8 digits = digits.map fun d => UInt8.ofNat d.toNat :=
    utf8_ascii fun d hd => by
      have hrange := (h d hd).toNat
      omega
  rw [utf8_backslash, hascii, length_cons, length_map]

/-- What is decoded is never shorter than the character, and it is the character for faithful
items only. -/
theorem decoded_of_char (hlexed : item.Lexed quote)
    (hchar : item.char? = some c) {out : Bytes} (hout : item.decoded = some out) :
    (String.utf8EncodeChar c).length ≤ out.length ∧ (out = String.utf8EncodeChar c → item.Faithful) := by
  cases hlexed with
  | plain hquote hbackslash hcr hlf =>
    obtain rfl := some.inj hchar
    obtain rfl := some.inj hout
    exact ⟨le_rfl, fun _ => trivial⟩
  | @letter l hl =>
    obtain rfl := some.inj hchar
    obtain rfl := some.inj hout
    by_cases hupper : l ∈ ['B', 'T', 'N', 'F', 'R']
    · simp only [mem_cons, not_mem_nil, or_false] at hupper
      rcases hupper with rfl | rfl | rfl | rfl | rfl <;> exact ⟨by decide, fun heq => absurd heq (by decide)⟩
    · obtain ⟨c, hc, hdecoded⟩ := BodyItem.Faithful.decoded (.letter hl : Lexed quote _) hupper
      obtain rfl := some.inj hc
      exact ⟨(congrArg length (some.inj hdecoded)).ge, fun _ => hupper⟩
  | @octal_one d hd =>
    obtain rfl := some.inj hchar
    obtain rfl := some.inj hout
    have hdigit := octal_digitValue hd
    have hvalue : value 8 [d] = digitValue d := by simp [value]
    have hencoded : String.utf8EncodeChar (Char.ofNat (value 8 [d])) =
        [UInt8.ofNat (digitValue d)] := by
      have hvalid : (value 8 [d]).isValidChar := by
        unfold Nat.isValidChar
        omega
      rw [← encodeCodepoint_eq hvalid, hvalue, encodeCodepoint, if_pos (by omega)]
    rw [hencoded]
    refine ⟨le_rfl, fun heq => ?_⟩
    have hbyte : backslash = UInt8.ofNat (digitValue d) := (cons.inj heq).1
    have htoNat := congrArg UInt8.toNat hbyte
    rw [UInt8.toNat_ofNat', mod_eq_of_lt (by omega)] at htoNat
    have h92 : 92 = digitValue d := htoNat
    omega
  | @octal_two d e hd he =>
    obtain rfl := some.inj hchar
    obtain rfl := some.inj hout
    have hvalue : value 8 [d, e] = digitValue d * 8 + digitValue e := by
      simp [value]
    have hdigits := And.intro (octal_digitValue hd) (octal_digitValue he)
    have hlength := length_utf8EncodeChar_ofNat (n := value 8 [d, e]) (by omega)
    rw [if_pos (by omega)] at hlength
    have hout : (utf8 ('\\' :: [e])).length = 2 := length_utf8_octal (by simpa using he)
    rw [tail_cons, hout]
    refine ⟨by omega, fun heq => ?_⟩
    rw [← heq, hout] at hlength
    omega
  | @octal_three z d e hz hd he =>
    obtain rfl := some.inj hchar
    obtain rfl := some.inj hout
    have hthree : z.toNat ≤ 51 := (char_le_iff z '3').mp hz.2
    have hfirst : digitValue z ≤ 3 := by
      rw [digitValue_eq, if_pos (by omega)]
      omega
    have hvalue : value 8 [z, d, e] =
        (digitValue z * 8 + digitValue d) * 8 + digitValue e := by
      simp [value]
    have hdigits := And.intro (octal_digitValue hd) (octal_digitValue he)
    have hlength := length_utf8EncodeChar_ofNat (n := value 8 [z, d, e]) (by omega)
    have hout : (utf8 ('\\' :: [d, e])).length = 3 := length_utf8_octal (by simpa using ⟨hd, he⟩)
    have htwo : (String.utf8EncodeChar (Char.ofNat (value 8 [z, d, e]))).length ≤ 2 := by
      split at hlength <;> omega
    rw [tail_cons, hout]
    refine ⟨by omega, fun heq => ?_⟩
    rw [← heq, hout] at htwo
    omega
  | @unicode marks d e f g hmarks hu hd he hf hg =>
    rw [char?] at hchar
    split at hchar
    next => cases hchar
    next hsurrogate =>
      rw [decoded] at hout
      split at hout
      next hhead =>
        -- five bytes at least
        obtain rfl := some.inj hout
        have hfive : 5 ≤ (utf8 ('\\' :: (marks.tail ++ [d, e, f, g]))).length := by
          have hlong := length_le_utf8 ('\\' :: (marks.tail ++ [d, e, f, g]))
          simp only [length_cons, length_append, length_nil] at hlong
          omega
        have hfour : (String.utf8EncodeChar c).length ≤ 4 := by
          rw [String.length_utf8EncodeChar]
          exact Char.utf8Size_le_four c
        refine ⟨by omega, fun heq => ?_⟩
        rw [heq] at hfive
        omega
      next hhead =>
        split at hout
        next hall =>
          have hfaithful : BodyItem.Faithful (.unicode marks [d, e, f, g]) := by
            refine ⟨by simpa using hall, ?_, ?_⟩
            · exact fun hhigh => hsurrogate (.inl hhigh)
            · exact fun hlow => hsurrogate (.inr hlow)
          have hlexed : Lexed quote (.unicode marks [d, e, f, g]) := .unicode hmarks hu hd he hf hg
          obtain ⟨c', hc', hdecoded⟩ := hfaithful.decoded hlexed
          rw [char?, if_neg hsurrogate] at hc'
          rw [decoded, if_neg hhead, if_pos hall] at hdecoded
          obtain rfl := some.inj (hc'.symm.trans hchar)
          obtain rfl := some.inj (hdecoded.symm.trans hout)
          exact ⟨le_rfl, fun _ => hfaithful⟩
        next => cases hout

lemma mapM_cons_some {α β : Type} {f : α → Option β} {a : α} {as : List α} {outs : List β}
    (h : (a :: as).mapM f = some outs) :
    ∃ out more, f a = some out ∧ as.mapM f = some more ∧ outs = out :: more := by
  rw [mapM_cons] at h
  obtain ⟨out, hout, h⟩ := bind_eq_some_iff.mp h
  obtain ⟨more, hmore, h⟩ := bind_eq_some_iff.mp h
  exact ⟨out, more, hout, hmore, (some.inj h).symm⟩

/-- A half of a pair is decoded to three bytes, or to more. -/
theorem decoded_surrogate
    (hlexed : Lexed quote (.unicode marks digits)) (hmin : 0xD800 ≤ value 16 digits)
    {out : Bytes} (hout : decoded (.unicode marks digits) = some out) : 3 ≤ out.length := by
  cases hlexed with
  | @unicode _ d e f g hmarks hu hd he hf hg =>
    have hmax := (hexQuad_lexed hd he hf hg).2
    rw [decoded] at hout
    split at hout
    next =>
      obtain rfl := some.inj hout
      have hlong := length_le_utf8 ('\\' :: (marks.tail ++ [d, e, f, g]))
      simp only [length_cons, length_append, length_nil] at hlong
      omega
    next =>
      split at hout
      next =>
        obtain rfl := some.inj hout
        rw [encodeCodepoint, if_neg (by omega), if_neg (by omega), if_pos (by omega)]
        exact le_rfl
      next => cases hout

/-- A body of faithful items denotes a text, and is decoded to it. -/
theorem denotes_of_faithful (hlexed : ∀ item ∈ items, item.Lexed quote)
    (h : ∀ item ∈ items, item.Faithful) :
    ∃ text outs, Denotes items text ∧ items.mapM decoded = some outs ∧ outs.flatten = utf8 text := by
  induction items with
  | nil => exact ⟨[], [], .nil, rfl, rfl⟩
  | cons item items ih =>
    obtain ⟨text, outs, hdenotes, houts, hflatten⟩ := ih
      (fun other hother => hlexed other (mem_cons_of_mem _ hother))
      (fun other hother => h other (mem_cons_of_mem _ hother))
    obtain ⟨c, hchar, hdecoded⟩ := (h item mem_cons_self).decoded (hlexed item mem_cons_self)
    refine ⟨c :: text, String.utf8EncodeChar c :: outs, .single hchar hdenotes, ?_, ?_⟩
    · rw [mapM_cons, hdecoded, houts]
      rfl
    · rw [flatten_cons, hflatten, utf8_cons]

/-- No body is decoded to less than the text that it denotes, and to the text itself only when
its items are faithful: an item that is decoded otherwise would need a shorter one elsewhere. -/
theorem faithful_of_denotes
    (hdenotes : Denotes items text) (hlexed : ∀ item ∈ items, item.Lexed quote) {outs : List Bytes}
    (houts : items.mapM decoded = some outs) :
    (utf8 text).length ≤ outs.flatten.length ∧ (outs.flatten = utf8 text → ∀ item ∈ items, item.Faithful) := by
  induction hdenotes generalizing outs with
  | nil =>
    obtain rfl := some.inj houts
    exact ⟨le_rfl, fun _ item hitem => absurd hitem not_mem_nil⟩
  | @single item rest c text hchar hrest ih =>
    obtain ⟨out, more, hout, hmore, rfl⟩ := mapM_cons_some houts
    obtain ⟨hlength, hfaithful⟩ := decoded_of_char (hlexed item mem_cons_self) hchar hout
    obtain ⟨hrestLength, hrestFaithful⟩ :=
      ih (fun other hother => hlexed other (mem_cons_of_mem _ hother)) hmore
    rw [utf8_cons, flatten_cons, length_append, length_append]
    refine ⟨by omega, fun heq other hother => ?_⟩
    have hlengths := congrArg length heq
    rw [length_append, length_append] at hlengths
    obtain ⟨hhere, hthere⟩ := append_inj heq (by omega)
    rcases mem_cons.mp hother with rfl | hother
    · exact hfaithful hhere
    · exact hrestFaithful hthere other hother
  | @pair marks marks' digits digits' rest text hhigh hlow hrest ih =>
    obtain ⟨first, more, hfirst, hmore, rfl⟩ := mapM_cons_some houts
    obtain ⟨second, last, hsecond, hlast, rfl⟩ := mapM_cons_some hmore
    have hone := decoded_surrogate (hlexed _ mem_cons_self) hhigh.1 hfirst
    have htwo := decoded_surrogate (hlexed _ (mem_cons_of_mem _ mem_cons_self))
      (by unfold Low at hlow; omega) hsecond
    obtain ⟨hrestLength, -⟩ := ih (fun other hother =>
      hlexed other (mem_cons_of_mem _ (mem_cons_of_mem _ hother))) hlast
    have hfour : (String.utf8EncodeChar
        (pairChar (value 16 digits) (value 16 digits'))).length ≤ 4 := by
      rw [String.length_utf8EncodeChar]
      exact Char.utf8Size_le_four _
    rw [utf8_cons, flatten_cons, flatten_cons, length_append, length_append, length_append]
    refine ⟨by omega, fun heq => ?_⟩
    -- six bytes stand for four
    have hlengths := congrArg length heq
    rw [length_append, length_append, length_append] at hlengths
    omega

/-! ### Literals -/

/-- The text of a literal is the bytes that the decoder puts out. -/
def LiteralDenotes (quote : Char) (items : List BodyItem) : Prop :=
  ∃ text, Denotes items text ∧
    buildStringLiteral (utf8 (quote :: items.flatMap spelled ++ [quote])) = .ok (utf8 text)

/-- Between its quotes stands the body. -/
theorem buildStringLiteral_eq (hquote : quote = '"' ∨ quote = '\'') (body : List Char) :
    buildStringLiteral (utf8 (quote :: body ++ [quote])) = unescapeString (utf8 body) := by
  have hbyte : ∃ q, String.utf8EncodeChar quote = [q] := by
    rcases hquote with rfl | rfl
    · exact ⟨34, rfl⟩
    · exact ⟨39, rfl⟩
  obtain ⟨q, hq⟩ := hbyte
  have hend : utf8 [quote] = [q] := by rw [utf8_cons, hq]; rfl
  rw [cons_append, utf8_cons, utf8_append, hq, hend, buildStringLiteral]
  have hlength : ([q] ++ (utf8 body ++ [q])).length - 2 = (utf8 body).length := by simp
  rw [hlength]
  show unescapeString ((utf8 body ++ [q]).take (utf8 body).length) = _
  rw [take_left]

/-- A literal that the lexer accepts is decoded to the text it denotes if and only if it has no
octal escape, no escape letter in upper case and no half of a surrogate pair. -/
theorem buildStringLiteral_denotes_iff {quote : Char} (hquote : quote = '"' ∨ quote = '\'')
    {items : List BodyItem} (hlexed : ∀ item ∈ items, item.Lexed quote) :
    LiteralDenotes quote items ↔ ∀ item ∈ items, item.Faithful := by
  unfold LiteralDenotes
  rw [buildStringLiteral_eq hquote, unescapeString, unescapeFrom_items hlexed]
  constructor
  · rintro ⟨text, hdenotes, htext⟩
    cases houts : items.mapM decoded with
    | none =>
      rw [houts] at htext
      cases htext
    | some outs =>
      rw [houts] at htext
      exact (faithful_of_denotes hdenotes hlexed houts).2 (Except.ok.inj htext)
  · intro hfaithful
    obtain ⟨text, outs, hdenotes, houts, hflatten⟩ := denotes_of_faithful hlexed hfaithful
    refine ⟨text, hdenotes, ?_⟩
    rw [houts, ← hflatten]

/-- `"é\n"`, the letter as an escape with two marks. -/
def accentedBody : List BodyItem := [.unicode ['u', 'u'] ['0', '0', 'E', '9'], .letter 'n']

lemma accentedBody_lexed : ∀ item ∈ accentedBody, item.Lexed '"' := by
  intro item hitem
  simp only [accentedBody, mem_cons, not_mem_nil, or_false] at hitem
  rcases hitem with rfl | rfl
  · exact .unicode (by simp) (by simp) (by decide) (by decide) (by decide) (by decide)
  · exact .letter (by decide)

theorem buildStringLiteral_accentedBody : LiteralDenotes '"' accentedBody := by
  apply (buildStringLiteral_denotes_iff (.inl rfl) accentedBody_lexed).mpr
  intro item hitem
  simp only [accentedBody, mem_cons, not_mem_nil, or_false] at hitem
  rcases hitem with rfl | rfl
  · exact ⟨by simp, by decide, by decide⟩
  · show 'n' ∉ ['B', 'T', 'N', 'F', 'R']
    decide

/-- `"\uD83D\uDE00"` and `"\101"`. -/
def pairBody : List BodyItem :=
  [.unicode ['u'] ['D', '8', '3', 'D'], .unicode ['u'] ['D', 'E', '0', '0']]
def octalBody : List BodyItem := [.octal ['1', '0', '1']]

lemma pairBody_lexed : ∀ item ∈ pairBody, item.Lexed '"' := by
  intro item hitem
  simp only [pairBody, mem_cons, not_mem_nil, or_false] at hitem
  rcases hitem with rfl | rfl
  · exact .unicode (by simp) (by simp) (by decide) (by decide) (by decide) (by decide)
  · exact .unicode (by simp) (by simp) (by decide) (by decide) (by decide) (by decide)

lemma octalBody_lexed : ∀ item ∈ octalBody, item.Lexed '"' := by
  intro item hitem
  obtain rfl := mem_singleton.mp hitem
  exact .octal_three (by decide) (by decide) (by decide)

/-- The halves of a pair are encoded one by one, and the first digit of an octal escape is lost. -/
theorem pair_and_octal_misread : ((∀ item ∈ pairBody, item.Lexed '"') ∧ Denotes pairBody ['😀'] ∧
      buildStringLiteral (utf8 ('"' :: pairBody.flatMap spelled ++ ['"'])) =
        .ok [0xED, 0xA0, 0xBD, 0xED, 0xB8, 0x80] ∧ ¬ LiteralDenotes '"' pairBody) ∧
      (∀ item ∈ octalBody, item.Lexed '"') ∧ Denotes octalBody ['A'] ∧
      buildStringLiteral (utf8 ('"' :: octalBody.flatMap spelled ++ ['"'])) = .ok (utf8 ['\\', '0', '1']) ∧
      ¬ LiteralDenotes '"' octalBody := by
  refine ⟨⟨pairBody_lexed, .pair (by decide) (by decide) .nil, by rfl, ?_⟩, octalBody_lexed, .single rfl .nil,
    by rfl, ?_⟩
  · rintro ⟨text, hdenotes, htext⟩
    cases hdenotes with
    | single hchar hrest => cases hchar
    | pair hhigh hlow hrest =>
      cases hrest
      exact absurd htext (by decide)
  · rintro ⟨text, hdenotes, htext⟩
    cases hdenotes with
    | single hchar hrest =>
      cases hrest
      obtain rfl := some.inj hchar
      exact absurd htext (by decide)

end Eugraph.Cypher
