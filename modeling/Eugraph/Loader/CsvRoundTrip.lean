import Eugraph.Loader.CsvReader

/-!
# Rendered CSV files

A rendering of a header and rows, with blank lines between them: each field is quoted or
left bare, each line ends in LF or CRLF, the last one perhaps in neither.  The parser gives
the records back, each with the line it starts on, unless the rendering begins with the
bytes of a mark that the dialect strips.
-/

namespace Eugraph.Loader

open Lib List

/-! ### Renderings -/

inductive LineEnd
  | lf
  | crlf
  deriving DecidableEq

def LineEnd.bytes : LineEnd → Bytes
  | .lf => [LF]
  | .crlf => [CR, LF]

structure RenderedField where
  quoted : Bool
  text : Bytes
  deriving DecidableEq

/-- Quotes are doubled. -/
def escape : Bytes → Bytes
  | [] => []
  | c :: rest => if c = quotationMark then c :: c :: escape rest else c :: escape rest

def RenderedField.bytes (fld : RenderedField) : Bytes :=
  if fld.quoted then quotationMark :: escape fld.text ++ [quotationMark] else fld.text

/-- A record: its fields, and the blank lines before it. -/
structure RenderedRow where
  blanks : List LineEnd
  fields : List RenderedField
  deriving DecidableEq

namespace RenderedRow

def texts (row : RenderedRow) : List Bytes := row.fields.map (·.text)

/-- The fields joined by the delimiter. -/
def joined (delim : Bytes) : List RenderedField → Bytes
  | [] => []
  | [fld] => fld.bytes
  | fld :: rest => fld.bytes ++ delim ++ joined delim rest

end RenderedRow

open RenderedRow

/-- Rows that end, and what comes behind them: blank lines, or a row that does not end. -/
structure Rendering where
  ended : List (RenderedRow × LineEnd)
  last : List LineEnd ⊕ RenderedRow

namespace Rendering

def blankBytes (blanks : List LineEnd) : Bytes := blanks.flatMap LineEnd.bytes

def endedBytes (delim : Bytes) (line : RenderedRow × LineEnd) : Bytes :=
  blankBytes line.1.blanks ++ joined delim line.1.fields ++ line.2.bytes

def lastBytes (delim : Bytes) : List LineEnd ⊕ RenderedRow → Bytes
  | .inl blanks => blankBytes blanks
  | .inr row => blankBytes row.blanks ++ joined delim row.fields

def bytes (delim : Bytes) (r : Rendering) : Bytes :=
  r.ended.flatMap (endedBytes delim) ++ lastBytes delim r.last

def rows (r : Rendering) : List RenderedRow :=
  r.ended.map Prod.fst ++ r.last.elim (fun _ => []) fun row => [row]

/-- The records with the lines they start on: one more than the newlines before them. -/
def numbered (delim : Bytes) : Bytes → List (RenderedRow × LineEnd) → List LineEnd ⊕ RenderedRow → List CsvRow
  | _, [], .inl _ => []
  | before, [], .inr row => [⟨row.texts, (before ++ blankBytes row.blanks).count LF + 1⟩]
  | before, line :: rest, last =>
    ⟨line.1.texts, (before ++ blankBytes line.1.blanks).count LF + 1⟩ ::
      numbered delim (before ++ endedBytes delim line) rest last

/-- The first record is the header. -/
def records (delim : Bytes) (r : Rendering) : List CsvRow := numbered delim [] r.ended r.last

end Rendering

/-! ### Well-formed renderings -/

open Rendering

/-- A bare field has no mark of the format in it, and no delimiter begins in it. -/
def BareSafe (delim text : Bytes) : Prop :=
  quotationMark ∉ text ∧ CR ∉ text ∧ LF ∉ text ∧
    ∀ i < text.length, ¬ delim <+: text.drop i ++ delim

/-- It is enough that it has no byte of the delimiter. -/
theorem bareSafe_of_no_delimiter {delim text : Bytes} (hne : delim ≠ []) (hquote : quotationMark ∉ text)
    (hcr : CR ∉ text) (hlf : LF ∉ text) (hfree : ∀ c ∈ delim, c ∉ text) : BareSafe delim text := by
  refine ⟨hquote, hcr, hlf, fun i hi hleads => ?_⟩
  cases delim with
  | nil => exact hne rfl
  | cons d ds =>
    have hdrop : text.drop i = text[i] :: text.drop (i + 1) := drop_eq_getElem_cons hi
    rw [hdrop, cons_append, cons_prefix_cons] at hleads
    refine hfree d mem_cons_self ?_
    rw [hleads.1]
    exact getElem_mem hi

structure RenderedRow.WellFormed (delim : Bytes) (row : RenderedRow) : Prop where
  nonempty : row.fields ≠ []
  bare : ∀ fld ∈ row.fields, fld.quoted = false → BareSafe delim fld.text
  visible : row.fields ≠ [⟨false, []⟩]

/-- Every row is rendered well and is as wide as the header. -/
structure Rendering.WellFormed (delim : Bytes) (r : Rendering) (width : Nat) : Prop where
  rows_wellFormed : ∀ row ∈ r.rows, row.WellFormed delim
  widths : ∀ row ∈ r.rows, row.fields.length = width

/-! ### A field -/

section Parsing

variable (path : String) {delim : Bytes} (strip_bom : Bool)

/-- What the dialect must keep apart. -/
structure Separates (delim : Bytes) : Prop where
  ne_nil : delim ≠ []
  quote : quotationMark ∉ delim
  lf : LF ∉ delim
  cr : CR ∉ delim

/-- A dialect with quotation marks. -/
def quotedDialect (delim : Bytes) (strip_bom : Bool) : CsvDialect := ⟨delim, quotationMark, strip_bom⟩

lemma Separates.delimiterOf (h : Separates delim) : delimiterOf (quotedDialect delim strip_bom) = delim := by
  simp [Loader.delimiterOf, quotedDialect, h.ne_nil]

/-- What may follow a field. -/
inductive Follows (delim : Bytes) : Bytes → Prop
  | nothing : Follows delim []
  | delimiter (rest : Bytes) : Follows delim (delim ++ rest)
  | newline (rest : Bytes) : Follows delim (LF :: rest)
  | carriageReturn (rest : Bytes) : Follows delim (CR :: LF :: rest)

variable {rest : Bytes}

lemma Follows.head?_ne_quote (hsep : Separates delim) (h : Follows delim rest) :
    rest.head? ≠ some quotationMark := by
  cases h with
  | nothing => simp
  | delimiter rest =>
    cases hdelim : delim with
    | nil => exact absurd hdelim hsep.ne_nil
    | cons d ds =>
      intro hd
      have heq : d = quotationMark := by simpa using hd
      apply hsep.quote
      rw [hdelim, heq]
      exact mem_cons_self
  | newline rest => simp [LF, quotationMark]
  | carriageReturn rest => simp [CR, quotationMark]

/-- The content of a quoted field, up to its closing quote. -/
theorem parseLoop_escape (hsep : Separates delim) (text : Bytes) (hrest : Follows delim rest)
    (st : ParseState) (hin : st.in_quotes = true) :
    parseLoop path (quotedDialect delim strip_bom) 0 (escape text ++ quotationMark :: rest) st =
      parseLoop path (quotedDialect delim strip_bom) 0 rest
        { st with
          in_quotes := false, field := st.field ++ text, line := st.line + text.count LF } := by
  have hmark : (quotedDialect delim strip_bom).quote ≠ 0 := by
    show quotationMark ≠ 0
    decide
  induction text generalizing st with
  | nil =>
    rw [escape, nil_append]
    refine (parseLoop_close path (quotedDialect delim strip_bom) _ _ hin (hrest.head?_ne_quote hsep)).trans ?_
    simp
  | cons c text ih =>
    rw [escape]
    split
    next hquote =>
      subst hquote
      have hne : quotationMark ≠ LF := by decide
      refine (parseLoop_doubled path (quotedDialect delim strip_bom) _ _ hin hmark).trans
        ((ih { st with field := st.field ++ [quotationMark] } hin).trans ?_)
      simp [hne]
    next hplain =>
      refine (parseLoop_content path (quotedDialect delim strip_bom) _ _ hin hplain).trans ((ih { st with
          line := if c = LF then st.line + 1 else st.line, field := st.field ++ [c] } hin).trans ?_)
      by_cases hlf : c = LF
      · subst hlf
        simp [Nat.add_assoc, Nat.add_comm 1]
      · simp [hlf]

/-- A delimiter that begins in a bare field, with what may follow the field behind it, would
begin in the field itself. -/
theorem BareSafe.not_prefix (hsep : Separates delim) {text : Bytes} (h : BareSafe delim text)
    (hrest : Follows delim rest) {i : Nat} (hi : i < text.length) :
    ¬ delim <+: text.drop i ++ rest := by
  have hself := h.2.2.2 i hi
  -- the end of a line is not in the delimiter, so the delimiter would end before it
  have hstop (c : UInt8) (hc : c ∉ delim) (tail : Bytes) : ¬ delim <+: text.drop i ++ c :: tail := by
    intro hleads
    rcases prefix_or_prefix_of_prefix hleads (prefix_append (text.drop i) (c :: tail)) with hshort | hlong
    · exact hself (hshort.trans (prefix_append _ _))
    · obtain ⟨more, rfl⟩ := hlong
      rw [prefix_append_right_inj] at hleads
      cases more with
      | nil =>
        rw [append_nil] at hself
        exact hself (prefix_append _ _)
      | cons d more =>
        rw [cons_prefix_cons] at hleads
        apply hc
        rw [← hleads.1]
        exact mem_append_right _ mem_cons_self
  cases hrest with
  | nothing =>
    rw [append_nil]
    exact fun hleads => hself (hleads.trans (prefix_append _ _))
  | delimiter rest =>
    intro hleads
    rw [← append_assoc] at hleads
    have hlong : delim <+: text.drop i ++ delim :=
      prefix_of_prefix_length_le hleads (prefix_append _ _) (by simp)
    exact hself hlong
  | newline rest => exact hstop LF hsep.lf rest
  | carriageReturn rest => exact hstop CR hsep.cr (LF :: rest)

/-- A bare field. -/
theorem parseLoop_bare (hsep : Separates delim) {text : Bytes} (h : BareSafe delim text)
    (hrest : Follows delim rest) (st : ParseState) (hout : st.in_quotes = false) :
    parseLoop path (quotedDialect delim strip_bom) 0 (text ++ rest) st =
      parseLoop path (quotedDialect delim strip_bom) 0 rest
        { st with
          field := st.field ++ text
          field_started := st.field_started || text ≠ []
          row_started := st.row_started || text ≠ [] } := by
  induction text generalizing st with
  | nil => simp
  | cons c text ih =>
    have htail : BareSafe delim text := by
      obtain ⟨hquote, hcr, hlf, hfree⟩ := h
      refine ⟨fun hmem => hquote (mem_cons_of_mem _ hmem), fun hmem => hcr (mem_cons_of_mem _ hmem),
        fun hmem => hlf (mem_cons_of_mem _ hmem), fun i hi => ?_⟩
      exact hfree (i + 1) (by simpa using hi)
    have hquote : c ≠ quotationMark := fun heq => h.1 (heq ▸ mem_cons_self)
    have hcr : c ≠ CR := fun heq => h.2.1 (heq ▸ mem_cons_self)
    have hlf : c ≠ LF := fun heq => h.2.2.1 (heq ▸ mem_cons_self)
    have hdelim : ¬ delim <+: c :: (text ++ rest) := h.not_prefix hsep hrest (i := 0) (by simp)
    rw [← hsep.delimiterOf strip_bom] at hdelim
    refine (parseLoop_plain path (quotedDialect delim strip_bom) _ _ hout hquote hdelim hlf
      (fun hcrlf => hcr hcrlf.1)).trans ((ih htail
        { st with field := st.field ++ [c], field_started := true, row_started := true } hout).trans ?_)
    simp

/-- The state behind a field. -/
def afterField (st : ParseState) (fld : RenderedField) : ParseState :=
  { st with
    field := fld.text
    field_started := fld.quoted || fld.text ≠ []
    row_started := st.row_started || fld.quoted || fld.text ≠ []
    line := st.line + fld.text.count LF }

/-- The parser is at the start of a field. -/
structure AtField (st : ParseState) : Prop where
  field : st.field = []
  in_quotes : st.in_quotes = false
  field_started : st.field_started = false

variable {st : ParseState}

lemma parseLoop_field (hsep : Separates delim) {fld : RenderedField}
    (hbare : fld.quoted = false → BareSafe delim fld.text) (hrest : Follows delim rest) (hat : AtField st) :
    parseLoop path (quotedDialect delim strip_bom) 0 (fld.bytes ++ rest) st =
      parseLoop path (quotedDialect delim strip_bom) 0 rest (afterField st fld) := by
  have hmark : (quotedDialect delim strip_bom).quote ≠ 0 := by
    show quotationMark ≠ 0
    decide
  obtain ⟨quoted, text⟩ := fld
  cases quoted with
  | true =>
    have hbytes : RenderedField.bytes ⟨true, text⟩ ++ rest =
        quotationMark :: (escape text ++ quotationMark :: rest) := by
      simp [RenderedField.bytes]
    rw [hbytes]
    refine (parseLoop_open path (quotedDialect delim strip_bom) _ _ hat.in_quotes hat.field_started
      hmark).trans ((parseLoop_escape path strip_bom hsep text hrest _ rfl).trans ?_)
    simp [afterField, hat.field, hat.in_quotes]
  | false =>
    have hbytes : RenderedField.bytes ⟨false, text⟩ ++ rest = text ++ rest := rfl
    have hsafe := hbare rfl
    have hcount : text.count LF = 0 := count_eq_zero.mpr hsafe.2.2.1
    rw [hbytes, parseLoop_bare path strip_bom hsep hsafe hrest st hat.in_quotes]
    simp [afterField, hat.field, hat.field_started, hcount]

/-! ### A row -/

/-- The state behind the fields of a row, the last one still open. -/
def afterFields (st : ParseState) : List RenderedField → ParseState
  | [] => st
  | [fld] => afterField st fld
  | fld :: rest => afterFields { (afterField st fld).endField with row_started := true } rest

lemma afterFields_cons (st : ParseState) (fld next : RenderedField) (rest : List RenderedField) :
    afterFields st (fld :: next :: rest) =
      afterFields { (afterField st fld).endField with row_started := true } (next :: rest) := rfl

lemma joined_cons (delim : Bytes) (fld next : RenderedField) (rest : List RenderedField) :
    joined delim (fld :: next :: rest) = fld.bytes ++ (delim ++ joined delim (next :: rest)) := by
  rw [joined, append_assoc]
  simp

variable {fields : List RenderedField}

lemma parseLoop_joined (hsep : Separates delim) (hne : fields ≠ [])
    (hbare : ∀ fld ∈ fields, fld.quoted = false → BareSafe delim fld.text)
    (hrest : Follows delim rest) (hat : AtField st) :
    parseLoop path (quotedDialect delim strip_bom) 0 (joined delim fields ++ rest) st =
      parseLoop path (quotedDialect delim strip_bom) 0 rest (afterFields st fields) := by
  induction fields generalizing st with
  | nil => exact absurd rfl hne
  | cons fld fields ih =>
    have hfld := hbare fld mem_cons_self
    cases fields with
    | nil => exact parseLoop_field path strip_bom hsep hfld hrest hat
    | cons next fields =>
      rw [joined_cons, append_assoc, append_assoc, parseLoop_field path strip_bom hsep hfld (.delimiter _) hat]
      have hdelim := parseLoop_delimiter path (quotedDialect delim strip_bom) (afterField st fld)
        (joined delim (next :: fields) ++ rest) hat.in_quotes (by rw [hsep.delimiterOf strip_bom]; exact hsep.quote)
        (by rw [hsep.delimiterOf strip_bom]; exact hsep.ne_nil)
      rw [hsep.delimiterOf strip_bom] at hdelim
      refine hdelim.trans ?_
      exact ih (by simp) (fun f hf => hbare f (mem_cons_of_mem _ hf)) ⟨rfl, hat.in_quotes, rfl⟩

/-- The newlines in the fields of a row. -/
def fieldNewlines (fields : List RenderedField) : Nat := (fields.map fun fld => fld.text.count LF).sum

/-- Ending the last field leaves the texts of all of them. -/
theorem afterFields_endField (st : ParseState) (hne : fields ≠ []) :
    ((afterFields st fields).endField).fields = st.fields ++ fields.map (·.text) ∧
      (afterFields st fields).line = st.line + fieldNewlines fields ∧
      (afterFields st fields).in_quotes = st.in_quotes ∧ (afterFields st fields).header = st.header ∧
      (afterFields st fields).rows = st.rows ∧ (afterFields st fields).row_line = st.row_line := by
  induction fields generalizing st with
  | nil => exact absurd rfl hne
  | cons fld fields ih =>
    cases fields with
    | nil => simp [afterFields, afterField, ParseState.endField, fieldNewlines]
    | cons next fields =>
      obtain ⟨hfields, hline, hquotes, hheader, hrows, hrowline⟩ :=
        ih { (afterField st fld).endField with row_started := true } (by simp)
      rw [afterFields_cons]
      refine ⟨hfields.trans ?_, hline.trans ?_, hquotes, hheader, hrows, hrowline⟩
      · simp [afterField, ParseState.endField]
      · simp only [afterField, ParseState.endField, fieldNewlines, map_cons, sum_cons]
        omega

/-- A visible row leaves something to end. -/
theorem afterFields_pending (st : ParseState) (hne : fields ≠ [])
    (hvisible : fields ≠ [⟨false, []⟩] ∨ st.row_started = true) :
    (afterFields st fields).pending = true := by
  induction fields generalizing st with
  | nil => exact absurd rfl hne
  | cons fld fields ih =>
    cases fields with
    | nil =>
      obtain ⟨quoted, text⟩ := fld
      rcases hvisible with hvisible | hstarted
      · cases quoted with
        | true => simp [afterFields, afterField, ParseState.pending]
        | false =>
          have htext : text ≠ [] := by
            rintro rfl
            exact hvisible rfl
          simp [afterFields, afterField, ParseState.pending, htext]
      · simp [afterFields, afterField, ParseState.pending, hstarted]
    | cons next fields =>
      rw [afterFields_cons]
      exact ih _ (by simp) (.inr rfl)

/-! ### The lines -/

/-- The first record is the header. -/
def headerOf (records : List CsvRow) : Option (List Bytes) := records.head?.map (·.fields)

/-- The state at the start of a line, with the records so far. -/
def atLine (records : List CsvRow) (line : Nat) : ParseState :=
  ⟨[], [], false, false, false, headerOf records, records.tail, line, line⟩

lemma parseLoop_blanks (hsep : Separates delim) (blanks : List LineEnd) (records : List CsvRow)
    (line : Nat) (rest : Bytes) :
    parseLoop path (quotedDialect delim strip_bom) 0 (blankBytes blanks ++ rest)
        (atLine records line) =
      parseLoop path (quotedDialect delim strip_bom) 0 rest (atLine records (line + blanks.length)) := by
  have hmark : (quotedDialect delim strip_bom).quote ≠ LF ∧ (quotedDialect delim strip_bom).quote ≠ CR := by
    show quotationMark ≠ LF ∧ quotationMark ≠ CR
    decide
  have hlf : LF ∉ delimiterOf (quotedDialect delim strip_bom) := by
    rw [hsep.delimiterOf strip_bom]
    exact hsep.lf
  have hcr : CR ∉ delimiterOf (quotedDialect delim strip_bom) := by
    rw [hsep.delimiterOf strip_bom]
    exact hsep.cr
  have hne : delimiterOf (quotedDialect delim strip_bom) ≠ [] := by
    rw [hsep.delimiterOf strip_bom]
    exact hsep.ne_nil
  induction blanks generalizing line with
  | nil => rfl
  | cons lineEnd blanks ih =>
    have hblank := parseLoop_blank path (quotedDialect delim strip_bom) (atLine records line)
      (blankBytes blanks ++ rest) rfl hmark.1 hlf hne rfl
    have hnext := hblank.trans (ih (line + 1))
    have hlength : line + 1 + blanks.length = line + (lineEnd :: blanks).length := by
      rw [length_cons]
      omega
    rw [hlength] at hnext
    cases lineEnd with
    | lf => exact hnext
    | crlf => exact (parseLoop_return path _ _ _ rfl hmark.2 hcr hne).trans hnext

variable {records : List CsvRow}

/-- A record is filed where it is the header or as wide as that. -/
theorem endRow_eq (delim : Bytes) {texts : List Bytes}
    (hheader : st.header = headerOf records) (hrows : st.rows = records.tail)
    (hfields : st.endField.fields = texts)
    (hwidth : ∀ record ∈ records, record.fields.length = texts.length) :
    st.endRow path delim = .ok { st.endField with
      fields := []
      row_started := false
      header := headerOf (records ++ [⟨texts, st.row_line⟩])
      rows := (records ++ [(⟨texts, st.row_line⟩ : CsvRow)]).tail } := by
  have hheader' : st.endField.header = headerOf records := hheader
  have hrows' : st.endField.rows = records.tail := hrows
  have hrowline : st.endField.row_line = st.row_line := rfl
  cases records with
  | nil =>
    rw [ParseState.endRow]
    simp only [hheader', headerOf, List.head?_nil, Option.map_none, hfields, hrows', nil_append,
      tail_nil, List.head?_cons, Option.map_some, tail_cons]
  | cons header records =>
    have hsame : texts.length = header.fields.length := (hwidth header mem_cons_self).symm
    rw [ParseState.endRow]
    simp only [hheader', headerOf, List.head?_cons, Option.map_some, hfields, hsame, ne_eq,
      not_true_eq_false, if_false, hrows', hrowline, cons_append, tail_cons]

/-- The fields of a row are filed as a record when the row ends. -/
theorem endRow_afterFields (delim : Bytes) (hne : fields ≠ [])
    (line : Nat) (hwidth : ∀ record ∈ records, record.fields.length = fields.length) :
    (afterFields (atLine records line) fields).endRow path delim = .ok
      { atLine (records ++ [⟨fields.map (·.text), line⟩]) (line + fieldNewlines fields) with
        row_line := line } := by
  obtain ⟨hfields, hline, hquotes, hheader, hrows, hrowline⟩ := afterFields_endField (atLine records line) hne
  have hend := endRow_eq path delim hheader hrows (hfields.trans (nil_append _)) (by simpa using hwidth)
  rw [hend, hrowline]
  simp only [ParseState.endField, hline, hquotes, hrowline]
  rfl

lemma count_blankBytes (blanks : List LineEnd) : (blankBytes blanks).count LF = blanks.length := by
  induction blanks with
  | nil => rfl
  | cons lineEnd blanks ih =>
    have hone : lineEnd.bytes.count LF = 1 := by cases lineEnd <;> rfl
    rw [blankBytes, flatMap_cons, count_append, hone, length_cons, Nat.add_comm]
    exact congrArg (· + 1) ih

lemma count_escape (text : Bytes) : (escape text).count LF = text.count LF := by
  have hne : quotationMark ≠ LF := by decide
  induction text with
  | nil => rfl
  | cons c text ih =>
    rw [escape]
    split
    next hquote => simp [hquote, hne, ih]
    next hplain => simp [count_cons, ih]

lemma count_joined (hsep : Separates delim) (fields : List RenderedField) :
    (joined delim fields).count LF = fieldNewlines fields := by
  have hne : quotationMark ≠ LF := by decide
  have hfield (fld : RenderedField) : fld.bytes.count LF = fld.text.count LF := by
    obtain ⟨quoted, text⟩ := fld
    cases quoted with
    | true => simp [RenderedField.bytes, count_escape, hne]
    | false => rfl
  have hdelim : delim.count LF = 0 := count_eq_zero.mpr hsep.lf
  induction fields with
  | nil => rfl
  | cons fld fields ih =>
    cases fields with
    | nil => simpa [joined, fieldNewlines] using hfield fld
    | cons next fields =>
      rw [joined_cons, count_append, count_append, hfield, hdelim, ih]
      simp [fieldNewlines]

/-- A line that ends. -/
theorem parseLoop_line (hsep : Separates delim) {row : RenderedRow} (hrow : row.WellFormed delim)
    (lineEnd : LineEnd) (line : Nat)
    (hwidth : ∀ record ∈ records, record.fields.length = row.fields.length) (rest : Bytes) :
    let start := line + row.blanks.length
    parseLoop path (quotedDialect delim strip_bom) 0
        (endedBytes delim (row, lineEnd) ++ rest) (atLine records line) =
      parseLoop path (quotedDialect delim strip_bom) 0 rest
        (atLine (records ++ [⟨row.texts, start⟩]) (start + fieldNewlines row.fields + 1)) := by
  intro start
  have hmark : (quotedDialect delim strip_bom).quote ≠ LF ∧ (quotedDialect delim strip_bom).quote ≠ CR := by
    show quotationMark ≠ LF ∧ quotationMark ≠ CR
    decide
  have hdelim := hsep.delimiterOf strip_bom
  have hpending := afterFields_pending (atLine records start) hrow.nonempty (.inl hrow.visible)
  have hquotes := (afterFields_endField (atLine records start) hrow.nonempty).2.2.1
  have hend := endRow_afterFields path delim hrow.nonempty start hwidth
  have hnewline := parseLoop_newline path (quotedDialect delim strip_bom) _ rest hquotes hmark.1
    (by rw [hdelim]; exact hsep.lf) (by rw [hdelim]; exact hsep.ne_nil) hpending
    (by rw [hdelim]; exact hend)
  have hfollows : Follows delim (lineEnd.bytes ++ rest) := by
    cases lineEnd with
    | lf => exact .newline rest
    | crlf => exact .carriageReturn rest
  rw [endedBytes, append_assoc, append_assoc, parseLoop_blanks path strip_bom hsep,
    parseLoop_joined path strip_bom hsep hrow.nonempty hrow.bare hfollows ⟨rfl, rfl, rfl⟩]
  cases lineEnd with
  | lf => exact hnewline
  | crlf =>
    exact (parseLoop_return path _ _ _ hquotes hmark.2 (by rw [hdelim]; exact hsep.cr)
      (by rw [hdelim]; exact hsep.ne_nil)).trans hnewline

/-! ### The whole text -/

lemma parseEnd_atLine (delim : Bytes) (hne : records ≠ []) (line : Nat) :
    parseEnd path (quotedDialect delim strip_bom) (atLine records line) = .ok (atLine records line) := by
  cases records with
  | nil => exact absurd rfl hne
  | cons record records => rfl

/-- A last line without an end. -/
theorem parse_unended (hsep : Separates delim) {row : RenderedRow} (hrow : row.WellFormed delim)
    (line : Nat)
    (hwidth : ∀ record ∈ records, record.fields.length = row.fields.length) :
    ∃ st, (parseLoop path (quotedDialect delim strip_bom) 0 (lastBytes delim (.inr row)) (atLine records line) >>=
          parseEnd path (quotedDialect delim strip_bom)) = .ok st ∧
      st.header = headerOf (records ++ [⟨row.texts, line + row.blanks.length⟩]) ∧
      st.rows = (records ++ [(⟨row.texts, line + row.blanks.length⟩ : CsvRow)]).tail := by
  have hdelim := hsep.delimiterOf strip_bom
  have hpending := afterFields_pending (atLine records (line + row.blanks.length)) hrow.nonempty (.inl hrow.visible)
  have hquotes := (afterFields_endField (atLine records (line + row.blanks.length)) hrow.nonempty).2.2.1
  have hend := endRow_afterFields path delim hrow.nonempty (line + row.blanks.length) hwidth
  have hloop : parseLoop path (quotedDialect delim strip_bom) 0
      (lastBytes delim (.inr row)) (atLine records line) =
        .ok (afterFields (atLine records (line + row.blanks.length)) row.fields) := by
    have hat : AtField (atLine records (line + row.blanks.length)) := ⟨rfl, rfl, rfl⟩
    have hjoined := parseLoop_joined path strip_bom hsep hrow.nonempty hrow.bare Follows.nothing hat
    rw [append_nil] at hjoined
    rw [lastBytes, parseLoop_blanks path strip_bom hsep, hjoined]
    rfl
  have hsome : ∃ header, headerOf (records ++ [⟨row.texts, line + row.blanks.length⟩]) = some header := by
    cases records with
    | nil => exact ⟨_, rfl⟩
    | cons record records => exact ⟨_, rfl⟩
  obtain ⟨header, hheader⟩ := hsome
  refine ⟨{ atLine (records ++ [⟨row.texts, line + row.blanks.length⟩])
      (line + row.blanks.length + fieldNewlines row.fields) with
        row_line := line + row.blanks.length }, ?_, rfl, rfl⟩
  rw [hloop]
  have hnotQuoted : (afterFields (atLine records (line + row.blanks.length)) row.fields).in_quotes = false := hquotes
  show parseEnd path (quotedDialect delim strip_bom) _ = _
  rw [parseEnd, if_neg (by simp [hnotQuoted]), if_pos hpending, hdelim, hend]
  show (if headerOf (records ++ [_]) = none then _ else _) = _
  rw [if_neg]
  · rfl
  · intro hnone
    have hcontra := hheader.symm.trans hnone
    cases hcontra

lemma parse_rendering (hsep : Separates delim) {width : Nat} (ended : List (RenderedRow × LineEnd))
    (last : List LineEnd ⊕ RenderedRow) (before : Bytes) (records : List CsvRow)
    (hwell : ∀ row ∈ (mk ended last).rows, row.WellFormed delim ∧ row.fields.length = width)
    (hwidth : ∀ record ∈ records, record.fields.length = width)
    (hne : records ++ numbered delim before ended last ≠ []) :
    ∃ st, (parseLoop path (quotedDialect delim strip_bom) 0
        ((mk ended last).bytes delim) (atLine records (before.count LF + 1)) >>=
          parseEnd path (quotedDialect delim strip_bom)) = .ok st ∧
      st.header = headerOf (records ++ numbered delim before ended last) ∧
      st.rows = (records ++ numbered delim before ended last).tail := by
  induction ended generalizing before records with
  | nil =>
    cases last with
    | inl blanks =>
      have hloop := parseLoop_blanks path strip_bom hsep blanks records (before.count LF + 1) []
      rw [append_nil] at hloop
      simp only [numbered, append_nil] at hne ⊢
      refine ⟨atLine records (before.count LF + 1 + blanks.length), ?_, rfl, rfl⟩
      show (parseLoop _ _ 0 (blankBytes blanks) _ >>= _) = _
      rw [hloop]
      exact parseEnd_atLine path strip_bom delim hne _
    | inr row =>
      obtain ⟨hrow, hlength⟩ := hwell row (by simp [rows])
      have hline : (before ++ blankBytes row.blanks).count LF + 1 = before.count LF + 1 + row.blanks.length := by
        rw [count_append, count_blankBytes]
        omega
      rw [numbered, hline]
      exact parse_unended path strip_bom hsep hrow (before.count LF + 1) (by
        rw [hlength]
        exact hwidth)
  | cons line ended ih =>
    obtain ⟨row, lineEnd⟩ := line
    obtain ⟨hrow, hlength⟩ := hwell row (by simp [rows])
    have hone : lineEnd.bytes.count LF = 1 := by cases lineEnd <;> rfl
    have hstart : (before ++ blankBytes row.blanks).count LF + 1 = before.count LF + 1 + row.blanks.length := by
      rw [count_append, count_blankBytes]
      omega
    have hnext : (before ++ endedBytes delim (row, lineEnd)).count LF + 1 =
        before.count LF + 1 + row.blanks.length + fieldNewlines row.fields + 1 := by
      rw [endedBytes, count_append, count_append, count_append, count_blankBytes, count_joined hsep, hone]
      show _ + (row.blanks.length + fieldNewlines row.fields + 1) + 1 = _
      omega
    have hwide : ∀ record ∈ records, record.fields.length = row.fields.length := by
      rw [hlength]
      exact hwidth
    have hline := parseLoop_line path strip_bom hsep hrow lineEnd (before.count LF + 1) hwide
      ((mk ended last).bytes delim)
    simp only at hline
    rw [← hnext] at hline
    have hbytes : (mk ((row, lineEnd) :: ended) last).bytes delim =
        endedBytes delim (row, lineEnd) ++ (mk ended last).bytes delim := by
      simp [bytes]
    rw [hbytes, hline, numbered, hstart]
    have hrest := ih (before ++ endedBytes delim (row, lineEnd))
      (records ++ [⟨row.texts, before.count LF + 1 + row.blanks.length⟩])
      (fun r hr => hwell r (mem_cons_of_mem row hr))
      (by
        intro record hrecord
        rcases mem_append.mp hrecord with hold | hnew
        · exact hwidth record hold
        · obtain rfl := mem_singleton.mp hnew
          simpa [texts] using hlength)
      (by simp)
    simpa using hrest

variable {path strip_bom}

/-- A rendering is read back: the header, and every row with the line it starts on. -/
theorem readCsvFile_rendering {raw : Bytes} (hraw : resolveDelimiter raw = some delim) {r : Rendering}
    {width : Nat} (hwell : r.WellFormed delim width) (hheader : r.rows ≠ [])
    (hbom : strip_bom = true → ¬ utf8Bom <+: r.bytes delim) :
    ∃ header rows, r.records delim = header :: rows ∧ (r.records delim).map (·.fields) = r.rows.map (·.texts) ∧
      readCsvFile path ⟨delim, quotationMark, strip_bom⟩ (some (r.bytes delim)) =
        .ok ⟨path, header.fields, rows⟩ := by
  obtain ⟨hne, hquote, hlf, hcr⟩ := resolveDelimiter_spec hraw
  have hsep : Separates delim := ⟨hne, hquote, hlf, hcr⟩
  obtain ⟨ended, last⟩ := r
  have htexts (ended : List (RenderedRow × LineEnd)) (before : Bytes) :
      (numbered delim before ended last).map (·.fields) = (mk ended last).rows.map (·.texts) := by
    induction ended generalizing before with
    | nil => cases last <;> rfl
    | cons line ended ih =>
      rw [numbered, map_cons, ih]
      rfl
  have hrecords : (mk ended last).records delim ≠ [] := by
    intro hnil
    have hmap := htexts ended []
    rw [show numbered delim [] ended last = [] from hnil] at hmap
    exact hheader (map_eq_nil_iff.mp hmap.symm)
  obtain ⟨header, rows, hrows⟩ := exists_cons_of_ne_nil hrecords
  obtain ⟨st, hparse, hstHeader, hstRows⟩ := parse_rendering path strip_bom hsep
    ended last [] [] (fun row hrow => ⟨hwell.rows_wellFormed row hrow, hwell.widths row hrow⟩)
    (fun record hrecord => absurd hrecord not_mem_nil) hrecords
  refine ⟨header, rows, hrows, htexts ended [], ?_⟩
  have hstrip : stripBom (quotedDialect delim strip_bom) ((mk ended last).bytes delim) =
      (mk ended last).bytes delim := by
    unfold stripBom
    rw [if_neg]
    intro hboth
    rw [Bool.and_eq_true, isPrefixOf_iff_prefix] at hboth
    exact hbom hboth.1 hboth.2
  have hcsv : parseCsv path (quotedDialect delim strip_bom) (some ((mk ended last).bytes delim)) = .ok st := by
    rw [parseCsv, hstrip]
    exact hparse
  rw [nil_append, show numbered delim [] ended last = header :: rows from hrows] at hstHeader hstRows
  show readCsvFile path (quotedDialect delim strip_bom) _ = _
  rw [readCsvFile, hcsv]
  show Except.ok (CsvFile.mk path (st.header.getD []) st.rows) = _
  rw [hstHeader, hstRows]
  rfl

end Parsing

/-! ### A quote, a newline and a mark -/

/-- `a|b`, a blank line, and a row of a quotation mark and a newline. -/
def quotedRow : Rendering where
  ended := [(⟨[], [⟨false, [97]⟩, ⟨false, [98]⟩]⟩, .crlf)]
  last := .inr ⟨[.lf], [⟨true, [quotationMark]⟩, ⟨true, [LF]⟩]⟩

lemma quotedRow_wellFormed : quotedRow.WellFormed [124] 2 := by
  have hletter (c : UInt8) (hmark : quotationMark ≠ c) (hcr : CR ≠ c) (hlf : LF ≠ c) (hbar : 124 ≠ c) :
      BareSafe [124] [c] := by
    apply bareSafe_of_no_delimiter
    · simp
    · simpa using hmark
    · simpa using hcr
    · simpa using hlf
    · simpa using hbar
  constructor
  · intro row hrow
    simp only [rows, quotedRow, map_cons, map_nil, Sum.elim_inr, cons_append,
      nil_append, mem_cons, not_mem_nil, or_false] at hrow
    rcases hrow with rfl | rfl
    · refine ⟨by simp, fun fld hfld _ => ?_, by simp⟩
      simp only [mem_cons, not_mem_nil, or_false] at hfld
      rcases hfld with rfl | rfl
      · exact hletter 97 (by decide) (by decide) (by decide) (by decide)
      · exact hletter 98 (by decide) (by decide) (by decide) (by decide)
    · refine ⟨by simp, fun fld hfld hbare => ?_, by simp⟩
      simp only [mem_cons, not_mem_nil, or_false] at hfld
      rcases hfld with rfl | rfl
      · cases hbare
      · cases hbare
  · intro row hrow
    simp only [rows, quotedRow, map_cons, map_nil, Sum.elim_inr, cons_append,
      nil_append, mem_cons, not_mem_nil, or_false] at hrow
    rcases hrow with rfl | rfl
    · rfl
    · rfl

/-- The second record starts on the third line. -/
theorem readCsvFile_quotedRow : readCsvFile "people.csv" defaultDialect (some (quotedRow.bytes [124])) =
      .ok ⟨"people.csv", [[97], [98]], [⟨[[quotationMark], [LF]], 3⟩]⟩ := by
  have hraw : resolveDelimiter [124] = some [124] := by decide
  have hbom : true = true → ¬ utf8Bom <+: quotedRow.bytes [124] := by
    intro _
    decide
  have hsome : quotedRow.rows ≠ [] := by simp [Rendering.rows, quotedRow]
  obtain ⟨header, rows, hrecords, -, hread⟩ :=
    @readCsvFile_rendering "people.csv" [124] true [124] hraw quotedRow 2 quotedRow_wellFormed hsome hbom
  have hknown : quotedRow.records [124] = [⟨[[97], [98]], 1⟩, ⟨[[quotationMark], [LF]], 3⟩] := by decide
  rw [hknown] at hrecords
  obtain ⟨rfl, rfl⟩ := List.cons.inj hrecords
  exact hread

/-- A header whose one field begins with the mark. -/
def markedHeader : Rendering := ⟨[(⟨[], [⟨false, utf8Bom ++ [97]⟩]⟩, .lf)], .inl []⟩

/-- The mark at the start of the file is taken for the mark of the encoding. -/
theorem marked_header_stripped : markedHeader.WellFormed [124] 1 ∧
      markedHeader.records [124] = [⟨[utf8Bom ++ [97]], 1⟩] ∧
      readCsvFile "people.csv" defaultDialect (some (markedHeader.bytes [124])) =
        .ok ⟨"people.csv", [[97]], []⟩ := by
  refine ⟨⟨fun row hrow => ?_, fun row hrow => ?_⟩, by decide, by decide⟩
  · obtain rfl := mem_singleton.mp hrow
    refine ⟨by simp, fun fld hfld _ => ?_, by simp [utf8Bom]⟩
    obtain rfl := mem_singleton.mp hfld
    apply bareSafe_of_no_delimiter
    · simp
    · decide
    · decide
    · decide
    · simp [utf8Bom]
  · obtain rfl := mem_singleton.mp hrow
    rfl

end Eugraph.Loader
