import Eugraph.Lib.ByteString

/-!
# Reading CSV files

The record parser of the loader (`program/loader/csv_reader.cpp`), one byte after another.
A step says how many bytes behind its own it takes with it: the second of two quotes, the
rest of a delimiter.  A file that cannot be opened is `none`.
-/

namespace Eugraph.Loader

open Lib List

def LF : UInt8 := 10
def CR : UInt8 := 13
def quotationMark : UInt8 := 34

structure CsvDialect where
  delimiter : Bytes
  quote : UInt8
  strip_bom : Bool

/-- The defaults. -/
def defaultDialect : CsvDialect := ⟨[124], quotationMark, true⟩

structure CsvRow where
  fields : List Bytes
  line_number : Nat
  deriving DecidableEq

structure CsvFile where
  path : String
  header : List Bytes
  rows : List CsvRow
  deriving DecidableEq

/-! ### Messages -/

/-- The bytes in a message, each as the character of its number. -/
def asText (bytes : Bytes) : String := String.ofList (bytes.map fun b => Char.ofNat b.toNat)

def fail {α : Type} (path : String) (line : Nat) (what : String) : Except String α :=
  .error s!"{path}:{line}: {what}"

def formatExpectedActual (expected actual : Nat) : String :=
  s!"expected {expected} fields (per header), got {actual}"

def fieldCountMismatch (delim : Bytes) (expected actual : Nat) : String :=
  "field count mismatch: " ++ formatExpectedActual expected actual ++
    " (if a field contains the delimiter '" ++ asText delim ++
    "', quote it or change the schema's delimiter)"

def emptyCsvFile {α : Type} (path : String) : Except String α :=
  .error ("empty CSV file (no header row): " ++ path)

def cannotOpen {α : Type} (path : String) : Except String α := .error ("cannot open CSV file: " ++ path)

/-! ### The state machine -/

/-- What the loop keeps.  `header` is set together with `have_header` and `header_size`; the
rows are those that went to the sink. -/
structure ParseState where
  fields : List Bytes
  field : Bytes
  in_quotes : Bool
  field_started : Bool
  row_started : Bool
  header : Option (List Bytes)
  rows : List CsvRow
  line : Nat
  row_line : Nat
  deriving DecidableEq

namespace ParseState

def initial : ParseState := ⟨[], [], false, false, false, none, [], 1, 1⟩

def endField (st : ParseState) : ParseState :=
  { st with fields := st.fields ++ [st.field], field := [], field_started := false }

/-- There is a row to end. -/
def pending (st : ParseState) : Bool := st.row_started || st.field ≠ [] || st.fields ≠ []

def endRow (path : String) (delim : Bytes) (st : ParseState) : Except String ParseState :=
  let st := st.endField
  match st.header with
  | none => .ok { st with header := some st.fields, fields := [], row_started := false }
  | some header =>
    if st.fields.length ≠ header.length then
      fail path st.row_line (fieldCountMismatch delim header.length st.fields.length)
    else
      .ok { st with
        rows := st.rows ++ [⟨st.fields, st.row_line⟩], fields := [], row_started := false }

end ParseState

def delimiterOf (dialect : CsvDialect) : Bytes :=
  if dialect.delimiter = [] then [124] else dialect.delimiter

def quoting (dialect : CsvDialect) : Bool := dialect.quote ≠ 0

section Parsing

variable (path : String) (dialect : CsvDialect)

/-- One pass of the loop: the state, and how many more bytes were taken. -/
def parseStep (st : ParseState) (c : UInt8) (rest : Bytes) : Except String (ParseState × Nat) :=
  if st.in_quotes then
    if c = dialect.quote then
      if quoting dialect && rest.head? = some dialect.quote then
        .ok ({ st with field := st.field ++ [dialect.quote] }, 1)
      else .ok ({ st with in_quotes := false }, 0)
    else
      .ok ({ st with
        line := if c = LF then st.line + 1 else st.line, field := st.field ++ [c] }, 0)
  else if quoting dialect && c = dialect.quote && !st.field_started then
    .ok ({ st with in_quotes := true, field_started := true, row_started := true }, 0)
  else if (delimiterOf dialect).isPrefixOf (c :: rest) then
    .ok ({ st.endField with row_started := true }, (delimiterOf dialect).length - 1)
  else if c = LF then do
    let st ← if st.pending then st.endRow path (delimiterOf dialect) else .ok st
    .ok ({ st with line := st.line + 1, row_line := st.line + 1 }, 0)
  else if c = CR && rest.head? = some LF then .ok (st, 0)
  else .ok ({ st with field := st.field ++ [c], field_started := true, row_started := true }, 0)

/-- The loop over the data; the first `skip` bytes are taken already. -/
def parseLoop : Nat → Bytes → ParseState → Except String ParseState
  | _, [], st => .ok st
  | skip + 1, _ :: rest, st => parseLoop skip rest st
  | 0, c :: rest, st => do
      let (st, skip) ← parseStep path dialect st c rest
      parseLoop skip rest st

/-- What follows the loop. -/
def parseEnd (st : ParseState) : Except String ParseState := do
  if st.in_quotes then fail path st.row_line "unterminated quoted field (reached end of file)"
  else
    let st ← if st.pending then st.endRow path (delimiterOf dialect) else .ok st
    if st.header = none then emptyCsvFile path else .ok st

def utf8Bom : Bytes := [0xEF, 0xBB, 0xBF]

def stripBom (data : Bytes) : Bytes :=
  if dialect.strip_bom && utf8Bom.isPrefixOf data then data.drop utf8Bom.length else data

def parseCsv (file : Option Bytes) : Except String ParseState :=
  match file with
  | none => cannotOpen path
  | some data => do
      let st ← parseLoop path dialect 0 (stripBom dialect data) .initial
      parseEnd path dialect st

def readCsvFile (file : Option Bytes) : Except String CsvFile := do
  let st ← parseCsv path dialect file
  .ok ⟨path, st.header.getD [], st.rows⟩

end Parsing

/-- The spelling of a delimiter: a backslash and a `t`, or `tab`, are the tab. -/
def resolveDelimiter (raw : Bytes) : Option Bytes :=
  if raw = [92, 116] ∨ raw = [116, 97, 98] then some [9]
  else if raw = [] then none
  else if raw = [9] then some [9]
  else if raw.all (fun b => b = 32 || b = CR || b = LF || b = 9) then none
  else if raw.contains quotationMark || raw.contains LF || raw.contains CR then none
  else some raw

/-- An accepted delimiter has a byte and shares none with the marks of the format. -/
theorem resolveDelimiter_spec {raw delim : Bytes} (h : resolveDelimiter raw = some delim) :
    delim ≠ [] ∧ quotationMark ∉ delim ∧ LF ∉ delim ∧ CR ∉ delim := by
  have htab : ([9] : Bytes) ≠ [] ∧ quotationMark ∉ ([9] : Bytes) ∧ LF ∉ ([9] : Bytes) ∧
      CR ∉ ([9] : Bytes) := by decide
  unfold resolveDelimiter at h
  split at h
  next => exact Option.some.inj h ▸ htab
  next =>
    split at h
    next => cases h
    next hne =>
      split at h
      next => exact Option.some.inj h ▸ htab
      next =>
        split at h
        next => cases h
        next =>
          split at h
          next => cases h
          next hclean =>
            obtain rfl := Option.some.inj h
            simp only [contains_iff_mem, Bool.or_eq_true, not_or] at hclean
            exact ⟨hne, hclean.1.1, hclean.1.2, hclean.2⟩

/-! ### The step, case by case -/

lemma not_isPrefixOf_cons {delim : Bytes} {c : UInt8} (hc : c ∉ delim) (hne : delim ≠ []) (rest : Bytes) :
    delim.isPrefixOf (c :: rest) = false := by
  cases delim with
  | nil => exact absurd rfl hne
  | cons d ds =>
    have hd : d ≠ c := by
      rintro rfl
      exact hc mem_cons_self
    simp [List.isPrefixOf, hd]

section Steps

variable (path : String) (dialect : CsvDialect) (st : ParseState) {c : UInt8} (rest : Bytes)

lemma parseLoop_skip (n : Nat) (data : Bytes) (st : ParseState) :
    parseLoop path dialect n data st = parseLoop path dialect 0 (data.drop n) st := by
  induction data generalizing n with
  | nil =>
    rw [drop_nil]
    cases n <;> rfl
  | cons c rest ih =>
    cases n with
    | zero => rfl
    | succ n => exact ih n

lemma parseLoop_of_step (skip : Nat) {st' : ParseState} (h : parseStep path dialect st c rest = .ok (st', skip)) :
    parseLoop path dialect 0 (c :: rest) st = parseLoop path dialect 0 (rest.drop skip) st' := by
  rw [parseLoop, h]
  exact parseLoop_skip path dialect skip rest st'

/-- Inside quotes every other byte is content. -/
theorem parseLoop_content (hin : st.in_quotes = true) (hc : c ≠ dialect.quote) :
    parseLoop path dialect 0 (c :: rest) st = parseLoop path dialect 0 rest
        { st with line := if c = LF then st.line + 1 else st.line, field := st.field ++ [c] } :=
  parseLoop_of_step path dialect _ _ 0 (by simp [parseStep, hin, hc])

/-- Two quotes inside quotes are one. -/
theorem parseLoop_doubled (hin : st.in_quotes = true) (hquote : dialect.quote ≠ 0) :
    parseLoop path dialect 0 (dialect.quote :: dialect.quote :: rest) st =
      parseLoop path dialect 0 rest { st with field := st.field ++ [dialect.quote] } :=
  parseLoop_of_step path dialect _ _ 1 (by simp [parseStep, hin, quoting, hquote])

lemma parseLoop_close (hin : st.in_quotes = true) (hnext : rest.head? ≠ some dialect.quote) :
    parseLoop path dialect 0 (dialect.quote :: rest) st =
      parseLoop path dialect 0 rest { st with in_quotes := false } :=
  parseLoop_of_step path dialect _ _ 0 (by simp [parseStep, hin, hnext])

lemma parseLoop_open (hout : st.in_quotes = false) (hstart : st.field_started = false)
    (hquote : dialect.quote ≠ 0) :
    parseLoop path dialect 0 (dialect.quote :: rest) st = parseLoop path dialect 0 rest
        { st with in_quotes := true, field_started := true, row_started := true } :=
  parseLoop_of_step path dialect _ _ 0 (by simp [parseStep, hout, hstart, quoting, hquote])

lemma parseLoop_delimiter (hout : st.in_quotes = false) (hquote : dialect.quote ∉ delimiterOf dialect)
    (hne : delimiterOf dialect ≠ []) :
    parseLoop path dialect 0 (delimiterOf dialect ++ rest) st =
      parseLoop path dialect 0 rest { st.endField with row_started := true } := by
  cases hdelim : delimiterOf dialect with
  | nil => exact absurd hdelim hne
  | cons d ds =>
    have hd : d ≠ dialect.quote := by
      rintro rfl
      rw [hdelim] at hquote
      exact hquote mem_cons_self
    have hleads : (d :: ds).isPrefixOf (d :: (ds ++ rest)) = true := by
      rw [ isPrefixOf_iff_prefix]
      exact prefix_append (d :: ds) rest
    have hstep : parseStep path dialect st d (ds ++ rest) =
        .ok ({ st.endField with row_started := true }, ds.length) := by
      simp [parseStep, hout, hd, hdelim, hleads]
    rw [cons_append, parseLoop_of_step path dialect _ _ _ hstep, drop_left]

lemma parseLoop_plain (hout : st.in_quotes = false) (hc : c ≠ dialect.quote)
    (hdelim : ¬ delimiterOf dialect <+: c :: rest) (hlf : c ≠ LF)
    (hcrlf : ¬ (c = CR ∧ rest.head? = some LF)) :
    parseLoop path dialect 0 (c :: rest) st = parseLoop path dialect 0 rest
        { st with field := st.field ++ [c], field_started := true, row_started := true } := by
  have hleads : (delimiterOf dialect).isPrefixOf (c :: rest) = false := by
    rw [← Bool.not_eq_true, isPrefixOf_iff_prefix]
    exact hdelim
  have hline : (decide (c = CR) && decide (rest.head? = some LF)) = false := by
    rw [← Bool.not_eq_true, Bool.and_eq_true, decide_eq_true_eq, decide_eq_true_eq]
    exact hcrlf
  exact parseLoop_of_step path dialect _ _ 0 (by simp [parseStep, hout, hc, hleads, hlf, hline])

/-- A row that there is something of ends with the line. -/
theorem parseLoop_newline {st' : ParseState} (hout : st.in_quotes = false) (hquote : dialect.quote ≠ LF)
    (hdelim : LF ∉ delimiterOf dialect) (hne : delimiterOf dialect ≠ []) (hpending : st.pending = true)
    (hend : st.endRow path (delimiterOf dialect) = .ok st') :
    parseLoop path dialect 0 (LF :: rest) st =
      parseLoop path dialect 0 rest { st' with line := st'.line + 1, row_line := st'.line + 1 } := by
  have hleads := not_isPrefixOf_cons hdelim hne rest
  exact parseLoop_of_step path dialect _ _ 0 (by
    simp [parseStep, hout, hquote.symm, hleads, hpending, hend, bind, Except.bind])

/-- A row that is refused ends the parse. -/
theorem parseLoop_refused {message : String} (hout : st.in_quotes = false) (hquote : dialect.quote ≠ LF)
    (hdelim : LF ∉ delimiterOf dialect) (hne : delimiterOf dialect ≠ []) (hpending : st.pending = true)
    (hend : st.endRow path (delimiterOf dialect) = .error message) :
    parseLoop path dialect 0 (LF :: rest) st = .error message := by
  have hleads := not_isPrefixOf_cons hdelim hne rest
  have hstep : parseStep path dialect st LF rest = .error message := by
    simp [parseStep, hout, hquote.symm, hleads, hpending, hend, bind, Except.bind]
  rw [parseLoop, hstep]
  rfl

/-- A line without anything is skipped. -/
theorem parseLoop_blank (hout : st.in_quotes = false) (hquote : dialect.quote ≠ LF)
    (hdelim : LF ∉ delimiterOf dialect) (hne : delimiterOf dialect ≠ []) (hpending : st.pending = false) :
    parseLoop path dialect 0 (LF :: rest) st =
      parseLoop path dialect 0 rest { st with line := st.line + 1, row_line := st.line + 1 } := by
  have hleads := not_isPrefixOf_cons hdelim hne rest
  exact parseLoop_of_step path dialect _ _ 0 (by
    simp [parseStep, hout, hquote.symm, hleads, hpending, bind, Except.bind])

lemma parseLoop_return (hout : st.in_quotes = false) (hquote : dialect.quote ≠ CR)
    (hdelim : CR ∉ delimiterOf dialect) (hne : delimiterOf dialect ≠ []) :
    parseLoop path dialect 0 (CR :: LF :: rest) st = parseLoop path dialect 0 (LF :: rest) st := by
  have hleads := not_isPrefixOf_cons hdelim hne (LF :: rest)
  have hlf : CR ≠ LF := by decide
  exact parseLoop_of_step path dialect _ _ 0 (by simp [parseStep, hout, hquote.symm, hleads, hlf])

end Steps

end Eugraph.Loader
