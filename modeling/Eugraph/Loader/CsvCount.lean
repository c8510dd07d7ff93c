import Eugraph.Loader.CsvReader

/-!
# Counting CSV records

`countCsvRecords` counts physical lines as long as no quote comes up, and parses the file
where it cannot.  The lines are those of the vendored `io::LineReader` (`csv.h`): without
their line end, without a mark at the start, and, since they are handed out as C strings,
only up to their first zero byte.  A blank line at the top is its header; the parser skips it.
-/

namespace Eugraph.Loader

open Lib List

/-! ### The line reader -/

/-- A line as it stands in the file, and whether it ends in LF. -/
structure RawLine where
  text : Bytes
  ended : Bool
  deriving DecidableEq

open RawLine

def RawLine.bytes (raw : RawLine) : Bytes := if raw.ended then raw.text ++ [LF] else raw.text

namespace LineReader

/-- `block_len`. -/
def blockLen : Nat := 2 ^ 20

/-- The mark at the start is left out whatever the dialect says. -/
def ignoreBom (data : Bytes) : Bytes :=
  if utf8Bom.isPrefixOf data then data.drop utf8Bom.length else data

/-- The lines, after the bytes of a line that are read already. -/
def linesFrom : Bytes → Bytes → List RawLine
  | [], [] => []
  | read, [] => [⟨read, false⟩]
  | read, c :: rest =>
    if c = LF then ⟨read, true⟩ :: linesFrom [] rest else linesFrom (read ++ [c]) rest

def lines (data : Bytes) : List RawLine := linesFrom [] (ignoreBom data)

/-- A CR at the end is taken for a part of the line end, also where no LF follows. -/
def dropReturn (text : Bytes) : Bytes := if text.getLast? = some CR then text.dropLast else text

/-- What a C string holds. -/
def cString (text : Bytes) : Bytes := text.takeWhile (· ≠ 0)

/-- `next_line`, without the line when it is too long. -/
def nextLine (raw : RawLine) : Option Bytes :=
  if raw.text.length + 1 > blockLen then none else some (cString (dropReturn raw.text))

end LineReader

/-! ### The two counts -/

open LineReader

/-- How often the delimiter is found, the first `skip` bytes taken already. -/
def delimitersIn (delim : Bytes) : Nat → Bytes → Nat
  | _, [] => 0
  | skip + 1, _ :: rest => delimitersIn delim skip rest
  | 0, c :: rest =>
    if delim.isPrefixOf (c :: rest) then delimitersIn delim (delim.length - 1) rest + 1
    else delimitersIn delim 0 rest

def fieldCount (delim line : Bytes) : Nat := 1 + delimitersIn delim 0 line

lemma delimiterOf_ne_nil (dialect : CsvDialect) : delimiterOf dialect ≠ [] := by
  unfold delimiterOf
  split
  next => simp
  next hne => exact hne

section Counting

variable (path : String) (dialect : CsvDialect)

/-- The loop over the lines: `header_fields` once the header is seen, the records so far and
the number of the line before.  The outcome `none` gives the count up. -/
def countLoop : Option Nat → Nat → Nat → List RawLine → Except String (Option Nat)
  | none, _, _, [] => emptyCsvFile path
  | some _, records, _, [] => .ok (some records)
  | header_fields, records, line_number, raw :: rest =>
    match nextLine raw with
    | none => .ok none
    | some line =>
      if quoting dialect && line.contains dialect.quote then .ok none
      else match header_fields with
        | none =>
          countLoop (some (fieldCount (delimiterOf dialect) line)) records (line_number + 1) rest
        | some width =>
          if line = [] then countLoop (some width) records (line_number + 1) rest
          else if fieldCount (delimiterOf dialect) line ≠ width then
            fail path (line_number + 1)
              (fieldCountMismatch (delimiterOf dialect) width (fieldCount (delimiterOf dialect) line))
          else countLoop (some width) (records + 1) (line_number + 1) rest

def tryCountByPhysicalLines (file : Option Bytes) : Except String (Option Nat) :=
  match file with
  | none => cannotOpen path
  | some data => countLoop path dialect none 0 0 (lines data)

def countCsvRecords (file : Option Bytes) : Except String Nat := do
  match ← tryCountByPhysicalLines path dialect file with
  | some records => .ok records
  | none =>
    let st ← parseCsv path dialect file
    .ok st.rows.length

/-- The count is the number of rows, and there is none when the file is not read. -/
def CountAgrees (file : Option Bytes) : Prop :=
  match countCsvRecords path dialect file, readCsvFile path dialect file with
  | .ok count, .ok csv => count = csv.rows.length
  | .error _, .error _ => True
  | _, _ => False

end Counting

/-! ### The lines of a file -/

lemma linesFrom_line (read : Bytes) {line : Bytes} (hline : LF ∉ line) (rest : Bytes) :
    linesFrom read (line ++ LF :: rest) = ⟨read ++ line, true⟩ :: linesFrom [] rest := by
  induction line generalizing read with
  | nil => simp [linesFrom]
  | cons c line ih =>
    have hc : c ≠ LF := fun heq => hline (heq ▸ mem_cons_self)
    have hrest : LF ∉ line := fun hmem => hline (mem_cons_of_mem _ hmem)
    rw [cons_append, linesFrom, if_neg hc, ih _ hrest]
    simp

lemma linesFrom_unended (read : Bytes) {line : Bytes} (hline : LF ∉ line) :
    linesFrom read line = if read ++ line = [] then [] else [⟨read ++ line, false⟩] := by
  induction line generalizing read with
  | nil => cases read <;> simp [linesFrom]
  | cons c line ih =>
    have hc : c ≠ LF := fun heq => hline (heq ▸ mem_cons_self)
    have hrest : LF ∉ line := fun hmem => hline (mem_cons_of_mem _ hmem)
    rw [linesFrom, if_neg hc, ih _ hrest]
    simp

/-- Lines as they can stand in a file: only the last one need not end, and then it is not
empty. -/
inductive FileLines : List RawLine → Prop
  | nil : FileLines []
  | unended {text : Bytes} (hne : text ≠ []) (hlf : LF ∉ text) : FileLines [⟨text, false⟩]
  | ended {text : Bytes} {rest : List RawLine} (hlf : LF ∉ text) (hrest : FileLines rest) :
      FileLines (⟨text, true⟩ :: rest)

lemma linesFrom_spec (data : Bytes) : FileLines (linesFrom [] data) ∧
      (linesFrom [] data).flatMap bytes = data := by
  -- along the lines: the data up to the first LF, and the rest behind it
  induction hn : data.length using Nat.strong_induction_on generalizing data with
  | _ n ih =>
    by_cases hlf : LF ∈ data
    · obtain ⟨line, rest, rfl, hline⟩ := eq_append_cons_of_mem hlf
      have hshort : rest.length < n := by
        rw [← hn, length_append, length_cons]
        omega
      obtain ⟨hrest, hjoin⟩ := ih rest.length hshort rest rfl
      rw [linesFrom_line [] hline]
      refine ⟨.ended hline hrest, ?_⟩
      rw [flatMap_cons, hjoin]
      simp [bytes]
    · rw [linesFrom_unended [] hlf, nil_append]
      by_cases hnil : data = []
      · subst hnil
        exact ⟨.nil, rfl⟩
      · rw [if_neg hnil]
        exact ⟨.unended hnil hlf, by simp [bytes]⟩

/-! ### The parser on a line without quotes -/

section Parsing

variable (path : String) (dialect : CsvDialect)

/-- The parser's view of a line: whether it skips it.  The CR of a CRLF is no content, unless a
delimiter takes it. -/
def RawLine.Blank (delim : Bytes) (raw : RawLine) : Prop :=
  raw.text = [] ∨ raw.ended = true ∧ raw.text = [CR] ∧ delimitersIn delim 0 raw.text = 0

/-- What stands behind a line's text. -/
inductive LineTail : Bool → Bytes → Prop
  | file : LineTail false []
  | newline (rest : Bytes) : LineTail true (LF :: rest)

lemma isPrefixOf_append_lineTail {delim : Bytes} {ended : Bool} (hdelim : ended = true → LF ∉ delim)
    {tail : Bytes} (htail : LineTail ended tail) (text : Bytes) :
    delim.isPrefixOf (text ++ tail) = delim.isPrefixOf text := by
  rw [Bool.eq_iff_iff, isPrefixOf_iff_prefix, isPrefixOf_iff_prefix]
  cases htail with
  | file => rw [append_nil]
  | newline rest =>
    refine ⟨fun hleads => ?_, fun hleads => hleads.trans (prefix_append _ _)⟩
    rcases prefix_or_prefix_of_prefix hleads (prefix_append text (LF :: rest)) with hshort | hlong
    · exact hshort
    · obtain ⟨more, rfl⟩ := hlong
      rw [prefix_append_right_inj] at hleads
      cases more with
      | nil => rw [append_nil]
      | cons d more =>
        rw [cons_prefix_cons] at hleads
        exact absurd (hleads.1 ▸ mem_append_right _ mem_cons_self) (hdelim rfl)

/-- What a stretch of text without quotes leaves: its delimiters have ended as many fields. -/
structure Scanned (st st' : ParseState) (fields : Nat) (visible : Prop) : Prop where
  in_quotes : st'.in_quotes = false
  header : st'.header = st.header
  rows : st'.rows = st.rows
  line : st'.line = st.line
  row_line : st'.row_line = st.row_line
  fields : st'.fields.length = st.fields.length + fields
  pending : st'.pending = true ↔ st.pending = true ∨ visible
  unchanged : st'.pending = false → st' = st

lemma parseLoop_scan {ended : Bool} (hdelim : ended = true → LF ∉ delimiterOf dialect) {tail : Bytes}
    (htail : LineTail ended tail) {text : Bytes} (hlf : LF ∉ text)
    (hquote : quoting dialect = true → dialect.quote ∉ text) {skip : Nat} (hskip : skip ≤ text.length)
    (st : ParseState) (hout : st.in_quotes = false) :
    ∃ st', parseLoop path dialect skip (text ++ tail) st = parseLoop path dialect 0 tail st' ∧
      Scanned st st' (delimitersIn (delimiterOf dialect) skip text)
        (¬ Blank (delimiterOf dialect) ⟨text.drop skip, ended⟩) := by
  induction text generalizing skip st with
  | nil =>
    obtain rfl : skip = 0 := by simpa using hskip
    exact ⟨st, rfl, hout, rfl, rfl, rfl, rfl, rfl, by simp [Blank], fun _ => rfl⟩
  | cons c text ih =>
    have hlfText : LF ∉ text := fun hmem => hlf (mem_cons_of_mem _ hmem)
    have hquoteText (h : quoting dialect = true) : dialect.quote ∉ text :=
      fun hmem => hquote h (mem_cons_of_mem _ hmem)
    cases skip with
    | succ skip => exact ih hlfText hquoteText (by simpa using hskip) st hout
    | zero =>
      have hplain : (quoting dialect && decide (c = dialect.quote) && !st.field_started) = false := by
        by_cases hon : quoting dialect = true
        · have hc : c ≠ dialect.quote := fun heq => hquote hon (heq ▸ mem_cons_self)
          simp [hc]
        · simp [hon]
      have hleads := isPrefixOf_append_lineTail hdelim htail (c :: text)
      rw [cons_append] at hleads
      have hlfc : c ≠ LF := fun heq => hlf (heq ▸ mem_cons_self)
      by_cases hd : (delimiterOf dialect).isPrefixOf (c :: text) = true
      · -- a delimiter ends the field
        have hstep : parseStep path dialect st c (text ++ tail) =
            .ok ({ st.endField with row_started := true }, (delimiterOf dialect).length - 1) := by
          simp only [parseStep, hout, Bool.false_eq_true, if_false, hplain, hleads, hd, if_true]
        have hshort : (delimiterOf dialect).length - 1 ≤ text.length := by
          have hlength := ( isPrefixOf_iff_prefix.mp hd).length_le
          rw [length_cons] at hlength
          omega
        obtain ⟨st', hloop, hscan⟩ := ih hlfText hquoteText hshort { st.endField with row_started := true } hout
        refine ⟨st', ?_, hscan.in_quotes, hscan.header, hscan.rows, hscan.line, hscan.row_line, ?_, ?_, ?_⟩
        · rw [cons_append, parseLoop, hstep]
          exact hloop
        · have hfields := hscan.fields
          simp only [ParseState.endField, length_append, length_singleton] at hfields
          rw [delimitersIn, if_pos hd]
          omega
        · have hpending : st'.pending = true := hscan.pending.mpr (.inl rfl)
          have hvisible : ¬ Blank (delimiterOf dialect) ⟨c :: text, ended⟩ := by
            rintro (hnil | ⟨-, -, hzero⟩)
            · cases hnil
            · rw [delimitersIn, if_pos hd] at hzero
              omega
          exact ⟨fun _ => .inr hvisible, fun _ => hpending⟩
        · intro hidle
          rw [hscan.pending.mpr (.inl rfl)] at hidle
          cases hidle
      · have hcount : delimitersIn (delimiterOf dialect) 0 (c :: text) =
            delimitersIn (delimiterOf dialect) 0 text := by rw [delimitersIn, if_neg hd]
        have hdFalse : (delimiterOf dialect).isPrefixOf (c :: text) = false := Bool.eq_false_iff.mpr hd
        by_cases hcrlf : c = CR ∧ (text ++ tail).head? = some LF
        · -- the CR of a CRLF: nothing is behind it in the line
          obtain ⟨rfl, hnext⟩ := hcrlf
          have htext : text = [] := by
            cases text with
            | nil => rfl
            | cons d text =>
              rw [cons_append, List.head?_cons] at hnext
              exact absurd (Option.some.inj hnext ▸ mem_cons_self) hlfText
          subst htext
          have hended : ended = true := by
            cases htail with
            | file => cases hnext
            | newline rest => rfl
          have hstep : parseStep path dialect st CR ([] ++ tail) = .ok (st, 0) := by
            simp only [parseStep, hout, Bool.false_eq_true, if_false, hplain, hleads, hdFalse, hlfc, hnext,
              decide_true, Bool.and_self, if_true]
          have hblank : Blank (delimiterOf dialect) ⟨[CR], ended⟩ := .inr ⟨hended, rfl, hcount⟩
          refine ⟨st, ?_, hout, rfl, rfl, rfl, rfl, ?_, ?_, fun _ => rfl⟩
          · rw [cons_append, parseLoop, hstep]
            rfl
          · rw [hcount]
            rfl
          · simp [hblank]
        · -- a byte of the field
          have hcrlf' : (decide (c = CR) && decide ((text ++ tail).head? = some LF)) = false := by
            rw [← Bool.not_eq_true, Bool.and_eq_true, decide_eq_true_eq, decide_eq_true_eq]
            exact hcrlf
          have hstep : parseStep path dialect st c (text ++ tail) = .ok ({ st with
                field := st.field ++ [c], field_started := true, row_started := true }, 0) := by
            simp only [parseStep, hout, Bool.false_eq_true, if_false, hplain, hleads, hdFalse, hlfc, hcrlf']
          obtain ⟨st', hloop, hscan⟩ := ih hlfText hquoteText (Nat.zero_le _)
            { st with field := st.field ++ [c], field_started := true, row_started := true } hout
          refine ⟨st', ?_, hscan.in_quotes, hscan.header, hscan.rows, hscan.line, hscan.row_line, ?_, ?_, ?_⟩
          · rw [cons_append, parseLoop, hstep]
            exact hloop
          · rw [hcount]
            exact hscan.fields
          · have hpending : st'.pending = true := hscan.pending.mpr (.inl rfl)
            have hvisible : ¬ Blank (delimiterOf dialect) ⟨c :: text, ended⟩ := by
              rintro (hnil | ⟨hended, heq, -⟩)
              · cases hnil
              · obtain ⟨rfl, rfl⟩ := List.cons.inj heq
                cases htail with
                | file => cases hended
                | newline rest => exact hcrlf ⟨rfl, rfl⟩
            exact ⟨fun _ => .inr hvisible, fun _ => hpending⟩
          · intro hidle
            rw [hscan.pending.mpr (.inl rfl)] at hidle
            cases hidle

/-! ### The parser line by line -/

/-- The parser is at the start of a line. -/
def lineStart (header : Option (List Bytes)) (rows : List CsvRow) (line : Nat) : ParseState :=
  ⟨[], [], false, false, false, header, rows, line, line⟩

/-- A row goes to where it belongs: to the header, or to the rows when it is as wide. -/
def fileRow (header : Option (List Bytes)) (rows : List CsvRow) (line : Nat) (fields : List Bytes) :
    Except String (Option (List Bytes) × List CsvRow) :=
  match header with
  | none => .ok (some fields, rows)
  | some names =>
    if fields.length ≠ names.length then
      fail path line (fieldCountMismatch (delimiterOf dialect) names.length fields.length)
    else .ok (some names, rows ++ [⟨fields, line⟩])

/-- What the parser counts in these lines, from a state at the start of one. -/
def parsedCount (header : Option (List Bytes)) (rows : List CsvRow) (line : Nat) (lines : List RawLine) :
    Except String (Option Nat) :=
  (parseLoop path dialect 0 (lines.flatMap bytes) (lineStart header rows line) >>=
    parseEnd path dialect).map fun st => some st.rows.length

lemma parsedCount_nil (header : Option (List Bytes)) (rows : List CsvRow) (line : Nat) :
    parsedCount path dialect header rows line [] =
      if header = none then emptyCsvFile path else .ok (some rows.length) := by
  cases header <;> rfl

lemma fileRow_header {header : Option (List Bytes)} {rows : List CsvRow} {line : Nat} {fields : List Bytes}
    {filed : Option (List Bytes) × List CsvRow} (h : fileRow path dialect header rows line fields = .ok filed) :
    ∃ names, filed.1 = some names := by
  unfold fileRow at h
  split at h
  next => exact ⟨fields, congrArg Prod.fst (Except.ok.inj h).symm⟩
  next names =>
    split at h
    next => cases h
    next => exact ⟨names, congrArg Prod.fst (Except.ok.inj h).symm⟩

/-- A row that was scanned is filed with its fields, and the parser stands at a line's start. -/
theorem endRow_scanned {header : Option (List Bytes)} {rows : List CsvRow} {line n : Nat} {st : ParseState}
    {visible : Prop} (h : Scanned (lineStart header rows line) st n visible) :
    ∃ fields : List Bytes, fields.length = n + 1 ∧ st.endRow path (delimiterOf dialect) =
        (fileRow path dialect header rows line fields).map fun filed => lineStart filed.1 filed.2 line := by
  refine ⟨st.fields ++ [st.field], ?_, ?_⟩
  · rw [length_append, h.fields]
    simp [lineStart]
  · obtain ⟨fields, field, in_quotes, field_started, row_started, header', rows', line', row_line⟩ := st
    obtain ⟨hquotes, hheader, hrows, hline, hrowline, -, -, -⟩ := h
    simp only [lineStart] at hquotes hheader hrows hline hrowline
    subst hquotes hheader hrows hline hrowline
    cases header' with
    | none => rfl
    | some names =>
      simp only [ParseState.endRow, ParseState.endField, fileRow]
      by_cases hwidth : (fields ++ [field]).length ≠ names.length
      · refine (if_pos hwidth).trans ?_
        rw [if_pos hwidth]
        rfl
      · refine (if_neg hwidth).trans ?_
        rw [if_neg hwidth]
        rfl

/-- A blank line changes nothing. -/
theorem parsedCount_blank {raw : RawLine} {rest : List RawLine} (hfile : FileLines (raw :: rest))
    (hdelim : raw.ended = true → LF ∉ delimiterOf dialect) (hquoteLf : raw.ended = true → dialect.quote ≠ LF)
    (hquote : quoting dialect = true → dialect.quote ∉ raw.text) (hblank : raw.Blank (delimiterOf dialect))
    (header : Option (List Bytes)) (rows : List CsvRow) (line : Nat) :
    parsedCount path dialect header rows line (raw :: rest) =
      parsedCount path dialect header rows (line + 1) rest := by
  cases hfile with
  | unended hne hlf =>
    rcases hblank with hnil | ⟨hended, -, -⟩
    · exact absurd hnil hne
    · cases hended
  | @ended text rest hlf hrest =>
    obtain ⟨st, hloop, hscan⟩ := parseLoop_scan path dialect hdelim (.newline (rest.flatMap bytes))
      hlf hquote (Nat.zero_le _) (lineStart header rows line) rfl
    have hidle : st.pending = false := by
      rw [← Bool.not_eq_true, hscan.pending]
      rintro (hstart | hvisible)
      · cases hstart
      · exact hvisible hblank
    have hsame := hscan.unchanged hidle
    subst hsame
    have hnext := parseLoop_blank path dialect (lineStart header rows line) (rest.flatMap bytes)
      rfl (hquoteLf rfl) (hdelim rfl) (delimiterOf_ne_nil dialect) hidle
    have hbytes : (mk text true :: rest).flatMap bytes = text ++ LF :: rest.flatMap bytes := by simp [bytes]
    rw [parsedCount, hbytes, hloop, hnext]
    rfl

/-- Any other line is a row. -/
theorem parsedCount_row {raw : RawLine} {rest : List RawLine} (hfile : FileLines (raw :: rest))
    (hdelim : raw.ended = true → LF ∉ delimiterOf dialect) (hquoteLf : raw.ended = true → dialect.quote ≠ LF)
    (hquote : quoting dialect = true → dialect.quote ∉ raw.text) (hrow : ¬ raw.Blank (delimiterOf dialect))
    (header : Option (List Bytes)) (rows : List CsvRow) (line : Nat) :
    ∃ fields : List Bytes, fields.length = fieldCount (delimiterOf dialect) raw.text ∧
      parsedCount path dialect header rows line (raw :: rest) =
        fileRow path dialect header rows line fields >>= fun filed =>
          parsedCount path dialect filed.1 filed.2 (line + 1) rest := by
  cases hfile with
  | @unended text hne hlf =>
    obtain ⟨st, hloop, hscan⟩ := parseLoop_scan path dialect hdelim .file
      hlf hquote (Nat.zero_le _) (lineStart header rows line) rfl
    have hpending := hscan.pending.mpr (.inr hrow)
    obtain ⟨fields, hlength, hend⟩ := endRow_scanned path dialect hscan
    refine ⟨fields, by rw [hlength, fieldCount, Nat.add_comm], ?_⟩
    have hbytes : [mk text false].flatMap bytes = text ++ [] := by simp [bytes]
    rw [parsedCount, hbytes, hloop]
    show (parseEnd path dialect st).map _ = _
    rw [parseEnd, if_neg (by simp [hscan.in_quotes]), if_pos hpending, hend]
    cases hfiled : fileRow path dialect header rows line fields with
    | error message => rfl
    | ok filed =>
      obtain ⟨names, hnames⟩ := fileRow_header path dialect hfiled
      show (if filed.1 = none then _ else _ : Except String ParseState).map _ = _
      rw [hnames, if_neg (Option.some_ne_none names)]
      show _ = parsedCount path dialect filed.1 filed.2 (line + 1) []
      rw [parsedCount_nil, hnames, if_neg (Option.some_ne_none names)]
      rfl
  | @ended text rest hlf hrest =>
    obtain ⟨st, hloop, hscan⟩ := parseLoop_scan path dialect hdelim (.newline (rest.flatMap bytes))
      hlf hquote (Nat.zero_le _) (lineStart header rows line) rfl
    have hpending := hscan.pending.mpr (.inr hrow)
    obtain ⟨fields, hlength, hend⟩ := endRow_scanned path dialect hscan
    refine ⟨fields, by rw [hlength, fieldCount, Nat.add_comm], ?_⟩
    have hbytes : (mk text true :: rest).flatMap bytes = text ++ LF :: rest.flatMap bytes := by simp [bytes]
    rw [parsedCount, hbytes, hloop]
    cases hfiled : fileRow path dialect header rows line fields with
    | error message =>
      rw [hfiled] at hend
      rw [parseLoop_refused path dialect st (rest.flatMap bytes) hscan.in_quotes (hquoteLf rfl)
        (hdelim rfl) (delimiterOf_ne_nil dialect) hpending hend]
      rfl
    | ok filed =>
      rw [hfiled] at hend
      rw [parseLoop_newline path dialect st (rest.flatMap bytes) hscan.in_quotes (hquoteLf rfl)
        (hdelim rfl) (delimiterOf_ne_nil dialect) hpending hend]
      rfl

end Parsing

/-! ### Where the counts agree -/

section Agreement

variable (dialect : CsvDialect)

/-- What the count has of a line. -/
def seenText (raw : RawLine) : Bytes := cString (dropReturn raw.text)

/-- At such a line the count leaves the file to the parser. -/
def givesUp (raw : RawLine) : Bool :=
  raw.text.length + 1 > blockLen ||
    (quoting dialect && (seenText raw).contains dialect.quote)

/-- The record lines that the count reads: up to the first that it gives up at, and to the
first that it refuses. -/
def countedLines (width : Nat) : List RawLine → List RawLine
  | [] => []
  | raw :: rest =>
    if givesUp dialect raw then []
    else if seenText raw ≠ [] && fieldCount (delimiterOf dialect) (seenText raw) ≠ width then [raw]
    else raw :: countedLines width rest

/-- A line, seen by the count as `raw` and by the parser as `parsed`, has the same fields for
both: the parser finds no quote in it, and nothing that its end or a zero byte takes with it
counts. -/
structure SameFields (raw parsed : RawLine) : Prop where
  newline : parsed.ended = true → LF ∉ delimiterOf dialect ∧ dialect.quote ≠ LF
  quote : quoting dialect = true → dialect.quote ∉ parsed.text
  fields : fieldCount (delimiterOf dialect) (seenText raw) = fieldCount (delimiterOf dialect) parsed.text

/-- A record line is blank for both as well. -/
structure SameRecord (raw : RawLine) : Prop extends SameFields dialect raw raw where
  blank : seenText raw = [] ↔ raw.Blank (delimiterOf dialect)

/-- The lines of the parser: a mark that the dialect keeps is a part of the first one. -/
def parserLines (data : Bytes) : List RawLine := linesFrom [] (stripBom dialect data)

/-- The lines that are counted read alike, and the first line is a header for the parser too. -/
def CountsAlike (data : Bytes) : Prop :=
  match lines data, parserLines dialect data with
  | [], [] => True
  | raw :: rest, parsed :: _ =>
    givesUp dialect raw = false →
      (SameFields dialect raw parsed ∧ ¬ parsed.Blank (delimiterOf dialect)) ∧
      ∀ record ∈ countedLines dialect (fieldCount (delimiterOf dialect) (seenText raw)) rest,
        SameRecord dialect record
  | _, _ => False

lemma nextLine_eq {raw : RawLine} (h : givesUp dialect raw = false) :
    nextLine raw = some (seenText raw) ∧ (quoting dialect && (seenText raw).contains dialect.quote) = false := by
  rw [givesUp, Bool.or_eq_false_iff, decide_eq_false_iff_not] at h
  exact ⟨if_neg h.1, h.2⟩

lemma countLoop_givesUp (path : String) {raw : RawLine} (h : givesUp dialect raw = true)
    (header_fields : Option Nat) (records line_number : Nat) (rest : List RawLine) :
    countLoop path dialect header_fields records line_number (raw :: rest) = .ok none := by
  rw [countLoop]
  cases hnext : nextLine raw with
  | none => rfl
  | some line =>
    have hshort : ¬ raw.text.length + 1 > blockLen := by
      intro hlong
      rw [nextLine, if_pos hlong] at hnext
      cases hnext
    have hline : line = seenText raw := by
      rw [nextLine, if_neg hshort] at hnext
      exact (Option.some.inj hnext).symm
    rw [givesUp, decide_eq_false hshort, Bool.false_or] at h
    subst hline
    exact if_pos h

/-- The records, line by line: both have the header, as many records and the same line number. -/
theorem countLoop_eq (path : String) {names : List Bytes} {lines : List RawLine} (hfile : FileLines lines)
    (halike : ∀ record ∈ countedLines dialect names.length lines, SameRecord dialect record)
    (rows : List CsvRow) (line_number : Nat) :
    countLoop path dialect (some names.length) rows.length line_number lines = .ok none ∨
      countLoop path dialect (some names.length) rows.length line_number lines =
        parsedCount path dialect (some names) rows (line_number + 1) lines := by
  induction lines generalizing rows line_number with
  | nil => exact .inr rfl
  | cons raw rest ih =>
    have hrest : FileLines rest := by
      cases hfile with
      | unended hne hlf => exact .nil
      | ended hlf hrest => exact hrest
    cases hgive : givesUp dialect raw with
    | true => exact .inl (countLoop_givesUp dialect path hgive _ _ _ _)
    | false =>
      obtain ⟨hnext, hquote⟩ := nextLine_eq dialect hgive
      have hmem : raw ∈ countedLines dialect names.length (raw :: rest) := by
        rw [countedLines, hgive]
        simp only [Bool.false_eq_true, if_false]
        split
        next => exact mem_singleton_self raw
        next => exact mem_cons_self
      obtain ⟨⟨hnewline, hfree, hfields⟩, hblank⟩ := halike raw hmem
      rw [countLoop, hnext]
      simp only [hquote, Bool.false_eq_true, if_false]
      by_cases hseen : seenText raw = []
      · -- blank for both
        rw [if_pos hseen, parsedCount_blank path dialect hfile (fun h => (hnewline h).1)
          (fun h => (hnewline h).2) hfree (hblank.mp hseen)]
        refine ih hrest (fun record hrecord => halike record ?_) rows (line_number + 1)
        rw [countedLines, hgive]
        simpa [hseen] using .inr hrecord
      · obtain ⟨fields, hlength, hparsed⟩ := parsedCount_row path dialect hfile
          (fun h => (hnewline h).1) (fun h => (hnewline h).2) hfree (fun h => hseen (hblank.mpr h))
          (some names) rows (line_number + 1)
        rw [← hfields] at hlength
        rw [if_neg hseen, hparsed]
        by_cases hwidth : fieldCount (delimiterOf dialect) (seenText raw) ≠ names.length
        · -- refused by both
          rw [if_pos hwidth, fileRow, hlength, if_pos hwidth]
          exact .inr rfl
        · rw [if_neg hwidth, fileRow, hlength, if_neg hwidth]
          have hlater := ih hrest (fun record hrecord => halike record (by
            rw [countedLines, hgive]
            simpa [hseen, hwidth] using .inr hrecord)) (rows ++ [⟨fields, line_number + 1⟩])
            (line_number + 1)
          rw [length_append] at hlater
          exact hlater

/-- A count that is given up, or is the parser's, agrees with it. -/
theorem countAgrees_of_try {path : String} {file : Option Bytes}
    (h : tryCountByPhysicalLines path dialect file = .ok none ∨ tryCountByPhysicalLines path dialect file =
        (parseCsv path dialect file).map fun st => some st.rows.length) :
    CountAgrees path dialect file := by
  unfold CountAgrees countCsvRecords readCsvFile
  rcases h with hnone | hsame
  · rw [hnone]
    cases parseCsv path dialect file with
    | error message => trivial
    | ok st => exact rfl
  · rw [hsame]
    cases parseCsv path dialect file with
    | error message => trivial
    | ok st => exact rfl

lemma linesFrom_tail (read read' data : Bytes) :
    (linesFrom read data).tail = (linesFrom read' data).tail := by
  induction data generalizing read read' with
  | nil => cases read <;> cases read' <;> rfl
  | cons c rest ih =>
    rw [linesFrom, linesFrom]
    split
    next => rfl
    next => exact ih _ _

/-- Both read the same lines behind the first one. -/
theorem parserLines_tail (data : Bytes) : (parserLines dialect data).tail = (lines data).tail := by
  unfold parserLines lines stripBom ignoreBom
  by_cases hmark : utf8Bom.isPrefixOf data = true
  · rw [if_pos hmark, hmark, Bool.and_true]
    split
    next => rfl
    next =>
      -- the mark is read first and is a part of the first line
      obtain ⟨rest, rfl⟩ := isPrefixOf_iff_prefix.mp hmark
      have hread : linesFrom [] (utf8Bom ++ rest) = linesFrom utf8Bom rest := by
        simp [utf8Bom, linesFrom, LF]
      rw [hread, drop_left]
      exact linesFrom_tail _ _ rest
  · rw [if_neg hmark, if_neg]
    rw [Bool.and_eq_true]
    exact fun hboth => hmark hboth.2

lemma parseCsv_lines (path : String) (data : Bytes) :
    (parseCsv path dialect (some data)).map (fun st => some st.rows.length) =
      parsedCount path dialect none [] 1 (parserLines dialect data) := by
  rw [parsedCount, parserLines, (linesFrom_spec _).2]
  rfl

/-- Where the lines that are counted read alike, the count is that of the parser. -/
theorem countCsvRecords_agrees (path : String) (file : Option Bytes)
    (h : ∀ data, file = some data → CountsAlike dialect data) : CountAgrees path dialect file := by
  cases file with
  | none => trivial
  | some data =>
    apply countAgrees_of_try
    rw [parseCsv_lines]
    have htail := parserLines_tail dialect data
    have hfile : FileLines (parserLines dialect data) := (linesFrom_spec _).1
    have halike := h data rfl
    unfold CountsAlike at halike
    rw [tryCountByPhysicalLines]
    cases hlines : lines data with
    | nil =>
      cases hparsed : parserLines dialect data with
      | nil => exact .inr rfl
      | cons parsed rest => simp [hlines, hparsed] at halike
    | cons raw rest =>
      cases hparsed : parserLines dialect data with
      | nil => simp [hlines, hparsed] at halike
      | cons parsed rest' =>
        rw [hlines, hparsed] at halike
        rw [hlines, hparsed] at htail
        rw [hparsed] at hfile
        obtain rfl : rest' = rest := htail
        cases hgive : givesUp dialect raw with
        | true => exact .inl (countLoop_givesUp dialect path hgive _ _ _ _)
        | false =>
          obtain ⟨⟨⟨hnewline, hfree, hfields⟩, hheader⟩, hrecords⟩ := halike hgive
          obtain ⟨hnext, hquote⟩ := nextLine_eq dialect hgive
          obtain ⟨names, hlength, hcount⟩ := parsedCount_row path dialect hfile
            (fun h => (hnewline h).1) (fun h => (hnewline h).2) hfree hheader none [] 1
          have hrest : FileLines rest' := by
            cases hfile with
            | unended hne hlf => exact .nil
            | ended hlf hrest => exact hrest
          have hloop : countLoop path dialect none 0 0 (raw :: rest') =
              countLoop path dialect (some names.length) 0 1 rest' := by
            rw [countLoop, hnext, hlength, ← hfields]
            simp only [hquote, Bool.false_eq_true, if_false]
          rw [hcount, hloop]
          rw [hfields, ← hlength] at hrecords
          exact countLoop_eq dialect path hrest hrecords [] 1

end Agreement

/-! ### A file that agrees, and a blank first line -/

/-- `a|b` with CRLF, a blank line, and `1|2` without an end. -/
def plainFile : Bytes := [97, 124, 98, CR, LF, LF, 49, 124, 50]

lemma plainFile_countsAlike : CountsAlike defaultDialect plainFile := by
  have hmarks : LF ∉ delimiterOf defaultDialect ∧ defaultDialect.quote ≠ LF := by decide
  have hrecords : countedLines defaultDialect 2 [⟨[], true⟩, ⟨[49, 124, 50], false⟩] =
      [⟨[], true⟩, ⟨[49, 124, 50], false⟩] := by decide
  intro _
  refine ⟨⟨⟨fun _ => hmarks, fun _ => by decide, by decide⟩, ?_⟩, fun record hrecord => ?_⟩
  · rintro (hnil | ⟨-, hreturn, -⟩)
    · cases hnil
    · cases hreturn
  · replace hrecord : record ∈ countedLines defaultDialect 2 [⟨[], true⟩, ⟨[49, 124, 50], false⟩] := hrecord
    simp only [hrecords, mem_cons, not_mem_nil, or_false] at hrecord
    rcases hrecord with rfl | rfl
    · exact ⟨⟨fun _ => hmarks, fun _ => by decide, by decide⟩, by simp [Blank, seenText,
        cString, dropReturn]⟩
    · exact ⟨⟨fun _ => hmarks, fun _ => by decide, by decide⟩, by simp [Blank, seenText,
        cString, dropReturn, CR]⟩

theorem countCsvRecords_plainFile : CountAgrees "people.csv" defaultDialect (some plainFile) :=
  countCsvRecords_agrees defaultDialect "people.csv" (some plainFile) (by
    rintro data ⟨⟩
    exact plainFile_countsAlike)

/-- The blank first line is taken for the header, and both others for records. -/
theorem blank_first_line_counted : countCsvRecords "people.csv" defaultDialect (some [LF, 97, LF, 98, LF]) = .ok 2 ∧
      readCsvFile "people.csv" defaultDialect (some [LF, 97, LF, 98, LF]) =
        .ok ⟨"people.csv", [[97]], [⟨[[98]], 3⟩]⟩ ∧
      ¬ CountAgrees "people.csv" defaultDialect (some [LF, 97, LF, 98, LF]) := by
  have hcount : countCsvRecords "people.csv" defaultDialect (some [LF, 97, LF, 98, LF]) = .ok 2 := by rfl
  have hread : readCsvFile "people.csv" defaultDialect (some [LF, 97, LF, 98, LF]) =
      .ok ⟨"people.csv", [[97]], [⟨[[98]], 3⟩]⟩ := by decide
  refine ⟨hcount, hread, ?_⟩
  rw [CountAgrees, hcount, hread]
  decide

end Eugraph.Loader
