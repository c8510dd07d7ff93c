import Eugraph.Lib.ByteString

/-!
# Readers over a byte string

A reader consumes bytes from the front and returns a value, or raises.  For a format
that is written by one function and read back by another, three facts about a reader
and the bytes `written` for a value compose through sequencing and counted loops:

* `Takes`: the reader takes exactly `written`, whatever follows it;
* `Rejects`: the reader raises on every strict prefix of `written`;
* `Refuses`: the reader raises on everything that starts with `written`.

`Codes` is the first two together.  Two more facts are about arbitrary input: `Confined`
bounds the errors a reader can raise on inputs shorter than a bound, and `Refines`
compares a reader with one that has more fuel.
-/

namespace Eugraph.Lib

open List Or

/-- Bytes in; a value and the bytes behind it out, or an error. -/
abbrev Reader (ε α : Type) := StateT Bytes (Except ε) α

namespace Reader

variable {ε α β : Type}

/-! ### Running -/

variable {r : Reader ε α} {f : α → Reader ε β} {x : α}

lemma run_bind_of_ok {data rest : Bytes}
    (h : r.run data = .ok (x, rest)) : (r >>= f).run data = (f x).run rest := by
  show (r.run data >>= fun p => (f p.1).run p.2) = (f x).run rest
  rw [h]
  rfl

lemma run_bind_of_error {data : Bytes} {e : ε}
    (h : r.run data = .error e) : (r >>= f).run data = .error e := by
  show (r.run data >>= fun p => (f p.1).run p.2) = .error e
  rw [h]
  rfl

/-- A counted loop of one reader. -/
def many (r : Reader ε α) : Nat → Reader ε (List α)
  | 0 => pure []
  | count + 1 => do
      let x ← r
      let xs ← many r count
      pure (x :: xs)

/-- A big-endian word of `width` bytes; `short` is raised when fewer are left. -/
def word (width : Nat) (short : ε) : Reader ε Nat := fun data =>
  if data.length < width then .error short
  else .ok (wordValue (data.take width), data.drop width)

/-- The next `len` bytes; `short` is raised when fewer are left. -/
def chunk (len : Nat) (short : ε) : Reader ε Bytes := fun data =>
  if data.length < len then .error short else .ok (data.take len, data.drop len)

/-! ### Reading back what was written -/

def Takes (r : Reader ε α) (written : Bytes) (x : α) : Prop :=
  ∀ rest, r.run (written ++ rest) = .ok (x, rest)

def Rejects (r : Reader ε α) (written : Bytes) : Prop :=
  ∀ part, part <+: written → part ≠ written → ∃ e, r.run part = .error e

def Refuses (r : Reader ε α) (written : Bytes) : Prop :=
  ∀ rest, ∃ e, r.run (written ++ rest) = .error e

/-- The reader takes exactly `written` as `x`, and nothing shorter. -/
structure Codes (r : Reader ε α) (written : Bytes) (x : α) : Prop where
  takes : Takes r written x
  rejects : Rejects r written

lemma Takes.run_eq {written : Bytes} (h : Takes r written x) :
    r.run written = .ok (x, []) := by
  have hrun := h []
  rwa [append_nil] at hrun

lemma Codes.pure (x : α) : Codes (Pure.pure x : Reader ε α) [] x where
  takes := fun _ => rfl
  rejects := fun _ hpart hne => absurd (prefix_nil.mp hpart) hne

variable {a : Bytes}

/-- A strict prefix of a concatenation ends inside the first part or inside the second. -/
theorem strictPrefix_append_cases {part b : Bytes} (h : part <+: a ++ b) (hne : part ≠ a ++ b) :
    (part <+: a ∧ part ≠ a) ∨ ∃ tail, part = a ++ tail ∧ tail <+: b ∧ tail ≠ b := by
  obtain ⟨missing, hmissing⟩ := h
  rcases append_eq_append_iff.mp hmissing with ⟨tail, ha, _⟩ | ⟨tail, hpart, hb⟩
  · by_cases heq : part = a
    · refine inr ⟨[], by rw [heq, append_nil], nil_prefix, ?_⟩
      intro hb
      exact hne (by rw [heq, ← hb, append_nil])
    · exact inl ⟨⟨tail, ha.symm⟩, heq⟩
  · refine inr ⟨tail, hpart, ⟨missing, hb.symm⟩, ?_⟩
    intro htail
    exact hne (by rw [hpart, htail])

lemma Codes.bind {b : Bytes} {y : β}
    (hr : Codes r a x) (hf : Codes (f x) b y) : Codes (r >>= f) (a ++ b) y where
  takes := by
    intro rest
    rw [append_assoc, run_bind_of_ok (hr.takes (b ++ rest))]
    exact hf.takes rest
  rejects := by
    intro part hpart hne
    rcases strictPrefix_append_cases hpart hne with ⟨hpre, hne'⟩ | ⟨tail, rfl, htail, hne'⟩
    · obtain ⟨e, he⟩ := hr.rejects part hpre hne'
      exact ⟨e, run_bind_of_error he⟩
    · obtain ⟨e, he⟩ := hf.rejects tail htail hne'
      exact ⟨e, by rw [run_bind_of_ok (hr.takes tail), he]⟩

/-- A reader followed by a function of its value. -/
theorem Codes.map (g : α → β) (h : Codes r a x) :
    Codes (do let v ← r; Pure.pure (g v)) a (g x) := by
  have hbind := h.bind (f := fun v => Pure.pure (g v)) (Codes.pure (g x))
  rwa [append_nil] at hbind

/-- The loop over the elements, by induction on how many are left. -/
theorem Codes.many {element : α → Bytes} {xs : List α} (h : ∀ x ∈ xs, Codes r (element x) x) :
    Codes (Reader.many r xs.length) (xs.flatMap element) xs := by
  induction xs with
  | nil => exact Codes.pure []
  | cons x xs ih =>
    have htail := ih fun y hy => h y (mem_cons_of_mem x hy)
    exact (h x mem_cons_self).bind (htail.map (x :: ·))

/-! ### Words -/

lemma codes_word {width n : Nat} (short : ε) (hn : n < 256 ^ width) :
    Codes (word width short) (wordBytes width n) n where
  takes := by
    intro rest
    have hlen := length_wordBytes width n
    show (if (wordBytes width n ++ rest).length < width then _ else _) = _
    rw [if_neg (by rw [length_append, hlen]; omega), take_left' hlen,
      drop_left' hlen, wordValue_wordBytes hn]
  rejects := by
    intro part hpart hne
    refine ⟨short, if_pos ?_⟩
    have hlt := lt_of_le_of_ne hpart.length_le (fun heq => hne (hpart.eq_of_length heq))
    rwa [length_wordBytes] at hlt

lemma codes_chunk (short : ε) (s : Bytes) : Codes (chunk s.length short) s s where
  takes := by
    intro rest
    show (if (s ++ rest).length < s.length then _ else _) = _
    rw [if_neg (by rw [length_append]; omega), take_left, drop_left]
  rejects := by
    intro part hpart hne
    exact ⟨short, if_pos (lt_of_le_of_ne hpart.length_le (fun heq => hne (hpart.eq_of_length heq)))⟩

/-! ### Refusing -/

lemma refuses_throw (e : ε) : Refuses (throw e : Reader ε α) [] := fun _ => ⟨e, rfl⟩

lemma Refuses.bind_left (h : Refuses r a)
    (b : Bytes) : Refuses (r >>= f) (a ++ b) := by
  intro rest
  obtain ⟨e, he⟩ := h (b ++ rest)
  exact ⟨e, by rw [append_assoc, run_bind_of_error he]⟩

lemma Refuses.bind {b : Bytes}
    (hr : Codes r a x) (hf : Refuses (f x) b) : Refuses (r >>= f) (a ++ b) := by
  intro rest
  obtain ⟨e, he⟩ := hf rest
  exact ⟨e, by rw [append_assoc, run_bind_of_ok (hr.takes (b ++ rest)), he]⟩

/-- A loop that can read every element or refuse it stops at the first one it refuses. -/
theorem Refuses.many {element : α → Bytes} {xs : List α}
    (h : ∀ x ∈ xs, Codes r (element x) x ∨ Refuses r (element x))
    (hbad : ∃ x ∈ xs, Refuses r (element x)) :
    Refuses (Reader.many r xs.length) (xs.flatMap element) := by
  induction xs with
  | nil =>
    obtain ⟨x, hx, _⟩ := hbad
    exact absurd hx not_mem_nil
  | cons x xs ih =>
    have htail := fun y hy => h y (mem_cons_of_mem x hy)
    rcases h x mem_cons_self with hcodes | hrefuses
    · obtain ⟨y, hy, hybad⟩ := hbad
      rcases mem_cons.mp hy with rfl | hy
      · exact hybad.bind_left _
      · have hloop := ih htail ⟨y, hy, hybad⟩
        have hrest := hloop.bind_left (f := fun ys => Pure.pure (x :: ys)) []
        rw [append_nil] at hrest
        exact Refuses.bind hcodes hrest
    · exact hrefuses.bind_left _

/-! ### Arbitrary input -/

/-- On inputs shorter than `bound` the reader raises only errors in `E`, and what it leaves
is a tail of its input. -/
def Confined (bound : Nat) (E : ε → Prop) (r : Reader ε α) : Prop :=
  ∀ data, data.length < bound →
    match r.run data with
    | .error e => E e
    | .ok (_, rest) => rest <:+ data

section Confined

variable {bound : Nat} {E : ε → Prop}

lemma Confined.pure (x : α) : Confined bound E (Pure.pure x : Reader ε α) := fun data _ => suffix_refl data

lemma Confined.throw {e : ε} (h : E e) : Confined bound E (throw e : Reader ε α) := fun _ _ => h

lemma Confined.bind (hr : Confined bound E r)
    (hf : ∀ x, Confined bound E (f x)) : Confined bound E (r >>= f) := by
  intro data hdata
  have hfirst := hr data hdata
  cases hrun : r.run data with
  | error e =>
    rw [hrun] at hfirst
    rw [run_bind_of_error hrun]
    exact hfirst
  | ok p =>
    obtain ⟨x, rest⟩ := p
    rw [hrun] at hfirst
    have hsecond := hf x rest (lt_of_le_of_lt hfirst.length_le hdata)
    rw [run_bind_of_ok hrun]
    cases hrun' : (f x).run rest with
    | error e =>
      rw [hrun'] at hsecond
      exact hsecond
    | ok q =>
      rw [hrun'] at hsecond
      exact hsecond.trans hfirst

lemma Confined.ite {c : Prop} [Decidable c] {r' : Reader ε α} (h : Confined bound E r)
    (h' : Confined bound E r') : Confined bound E (if c then r else r') := by
  split
  · exact h
  · exact h'

lemma Confined.many (h : Confined bound E r) (count : Nat) :
    Confined bound E (Reader.many r count) := by
  induction count with
  | zero => exact Confined.pure []
  | succ count ih =>
    exact h.bind fun x => ih.bind fun xs => Confined.pure (x :: xs)

end Confined

/-- Where the first reader does not run out, raising `out`, the second does the same. -/
def Refines (out : ε) (r r' : Reader ε α) : Prop :=
  ∀ data, r.run data = .error out ∨ r.run data = r'.run data

section Refines

variable {out : ε}

lemma Refines.refl (r : Reader ε α) : Refines out r r := fun _ => inr rfl

variable {r' : Reader ε α}

lemma Refines.trans {r'' : Reader ε α} (h : Refines out r r') (h' : Refines out r' r'') :
    Refines out r r'' := by
  intro data
  rcases h data with hout | heq
  · exact inl hout
  · rw [heq]
    exact h' data

lemma Refines.bind {f' : α → Reader ε β} (hr : Refines out r r')
    (hf : ∀ x, Refines out (f x) (f' x)) : Refines out (r >>= f) (r' >>= f') := by
  intro data
  rcases hr data with hout | heq
  · exact inl (run_bind_of_error hout)
  · cases hrun : r.run data with
    | error e =>
      rw [run_bind_of_error hrun, run_bind_of_error (heq ▸ hrun)]
      exact inr rfl
    | ok p =>
      obtain ⟨x, rest⟩ := p
      rw [run_bind_of_ok hrun, run_bind_of_ok (heq ▸ hrun)]
      exact hf x rest

lemma Refines.ite {c : Prop} [Decidable c] {s s' : Reader ε α} (h : Refines out r r')
    (h' : Refines out s s') : Refines out (if c then r else s) (if c then r' else s') := by
  split
  · exact h
  · exact h'

lemma Refines.many (h : Refines out r r') (count : Nat) :
    Refines out (Reader.many r count) (Reader.many r' count) := by
  induction count with
  | zero => exact Refines.refl _
  | succ count ih => exact h.bind fun x => ih.bind fun xs => Refines.refl _

end Refines

end Reader

end Eugraph.Lib
