import Mathlib
import GnucashWeb.Ledger.Amount
import GnucashWeb.Lib.Civil
import GnucashWeb.Lib.Text

/-!
# Cells of an export

The readers every importer shares: rows of a CSV text, amounts and dates in one of two locales, and
columns found by their header.  Texts are lists of characters and dates are days.  An amount that can
be read is in whole cents (`wholeCents_parseLocaleNumber`).
-/

namespace Imports

open Ledger (WholeCents round2)

abbrev Cell := List Char

/-! ## Locales -/

inductive Separator
  | point
  | comma
deriving DecidableEq

structure ImportLocale where
  decimal : Separator
  dayFirst : Bool
deriving DecidableEq

inductive ImportLocaleId
  | us
  | eu

def IMPORT_LOCALES : ImportLocaleId → ImportLocale
  | .us => ⟨.point, false⟩
  | .eu => ⟨.comma, true⟩

/-! ## CSV text -/

structure CsvState where
  rows : List (List Cell)
  fields : List Cell
  current : Cell

def CsvState.endField (st : CsvState) : CsvState :=
  { st with
    fields := st.fields ++ [st.current]
    current := [] }

def CsvState.endRow (st : CsvState) : CsvState :=
  { rows := st.rows ++ [st.fields ++ [st.current]], fields := [], current := [] }

def CsvState.push (st : CsvState) (c : Char) : CsvState :=
  { st with current := st.current ++ [c] }

/-- The loop over the characters; the first argument says whether the field is inside quotes. -/
def scanCsv : Bool → CsvState → List Char → CsvState
  | _, st, [] => if st.current ≠ [] ∨ st.fields ≠ [] then st.endRow else st
  | true, st, '"' :: '"' :: cs => scanCsv true (st.push '"') cs
  | true, st, '"' :: cs => scanCsv false st cs
  | true, st, c :: cs => scanCsv true (st.push c) cs
  | false, st, '"' :: cs => scanCsv true st cs
  | false, st, ',' :: cs => scanCsv false st.endField cs
  | false, st, '\r' :: '\n' :: cs => scanCsv false st.endRow cs
  | false, st, '\r' :: cs => scanCsv false st.endRow cs
  | false, st, '\n' :: cs => scanCsv false st.endRow cs
  | false, st, c :: cs => scanCsv false (st.push c) cs

/-- The rows of a CSV text, each cell trimmed; blank rows stay, so that rows keep their numbers. -/
def splitCsvRows (content : List Char) : List (List Cell) :=
  let content := if content.head? = some '\uFEFF' then content.tail else content
  (scanCsv false ⟨[], [], []⟩ content).rows.map (List.map Text.trim)

/-! ## Amounts -/

def number (digits : List Char) : ℕ := Nat.ofDigitChars 10 digits 0

/-- `Number` of a text of digits, points and commas; a comma is not a number. -/
def numberOf (cs : List Char) : Option ℚ :=
  if ',' ∈ cs then none
  else
    match Text.split '.' cs with
    | [whole] => some (number whole)
    | [whole, decimals] => some (number whole + number decimals / 10 ^ decimals.length)
    | _ => none

def infinityFrom : ℚ := 2 ^ 1024 - 2 ^ 970

def isLineTerminator (c : Char) : Bool := c ∈ ['\n', '\r', '\u2028', '\u2029']

/-- What stands between the parentheses of `^\(.*\)$`. -/
def parenthesised? (s : Cell) : Option Cell :=
  match s with
  | '(' :: rest =>
    if rest.getLast? = some ')' ∧ ¬ rest.any isLineTerminator then some rest.dropLast else none
  | _ => none

/-- `replace` of the first occurrence of a character. -/
def replaceFirst (old new : Char) : List Char → List Char
  | [] => []
  | c :: cs => if c = old then new :: cs else c :: replaceFirst old new cs

/-- The digits and the decimal separator of an amount, as a point. -/
def significant (decimal : Separator) (s : Cell) : Cell :=
  match decimal with
  | .comma => replaceFirst ',' '.' (s.filter fun c => c.isDigit || c = ',')
  | .point => s.filter fun c => c.isDigit || c = '.'

/-- An amount cell in cents; blank cells are zero and text that is no amount is none. -/
def parseLocaleNumber (raw : Cell) (decimal : Separator) : Option ℚ :=
  let s := Text.trim raw
  if s = [] ∨ s = ['-'] ∨ s = ['-', '-'] then some 0
  else
    let inner := (parenthesised? s).getD s
    let sign : ℚ := if (parenthesised? s).isSome then -1 else 1
    let sign := if inner.head? = some '-' then -sign else sign
    let digits := significant decimal inner
    if digits = [] ∨ digits = ['.'] then none
    else ((numberOf digits).filter fun n => n < infinityFrom).map fun n => round2 (sign * n)

theorem wholeCents_parseLocaleNumber {raw : Cell} {decimal : Separator} {amount : ℚ}
    (h : parseLocaleNumber raw decimal = some amount) : WholeCents amount := by
  unfold parseLocaleNumber at h
  simp only at h
  split at h
  · rw [← Option.some.inj h]
    exact Ledger.wholeCents_zero
  · split at h
    · exact absurd h (by simp)
    · obtain ⟨n, -, rfl⟩ := Option.map_eq_some_iff.1 h
      exact Ledger.wholeCents_round2 _

/-! ## Dates -/

/-- The leading characters of a class, when their number is in a range, and what follows. -/
def token (p : Char → Bool) (least most : ℕ) (cs : List Char) : Option (List Char × List Char) :=
  let found := cs.takeWhile p
  if least ≤ found.length ∧ found.length ≤ most then some (found, cs.dropWhile p) else none

def oneOf (cls : List Char) : List Char → Option (List Char)
  | c :: cs => if c ∈ cls then some cs else none
  | [] => none

/-- What follows a character that may be left out. -/
def optional (c : Char) (cs : List Char) : List Char := if cs.head? = some c then cs.tail else cs

def spaces (cs : List Char) : Option (List Char) :=
  if (cs.takeWhile Text.isSpace) = [] then none else some (cs.dropWhile Text.isSpace)

def MONTHS : List (String × ℕ) :=
  [("jan", 1), ("january", 1), ("feb", 2), ("february", 2), ("mar", 3), ("march", 3), ("apr", 4),
    ("april", 4), ("may", 5), ("jun", 6), ("june", 6), ("jul", 7), ("july", 7), ("aug", 8),
    ("august", 8), ("sep", 9), ("sept", 9), ("september", 9), ("oct", 10), ("october", 10),
    ("nov", 11), ("november", 11), ("dec", 12), ("december", 12)]

def month? (name : List Char) : Option ℕ :=
  (MONTHS.find? fun m => m.1.toList = name.map Char.toLower).map (·.2)

def validIso (y mo d : ℕ) : Option ℤ :=
  if mo < 1 ∨ 12 < mo ∨ d < 1 ∨ 31 < d ∨ y < 1900 ∨ 2200 < y then none
  else
    let date := Civil.newDate y ((mo : ℤ) - 1) d
    if Civil.getMonth date ≠ (mo : ℤ) - 1 ∨ Civil.getDate date ≠ d then none else some date

def expandYear (raw : List Char) : ℕ :=
  let y := number raw
  if raw.length = 2 then (if 70 ≤ y then y + 1900 else y + 2000) else y

/-- `YYYY-MM-DD` or `YYYY/MM/DD`. -/
def matchIso (s : Cell) : Option (List Char × List Char × List Char) := do
  let (y, s) ← token Char.isDigit 4 4 s
  let (mo, s) ← token Char.isDigit 1 2 (← oneOf ['-', '/'] s)
  let (d, s) ← token Char.isDigit 1 2 (← oneOf ['-', '/'] s)
  if s = [] then some (y, mo, d) else none

def matchNumeric (s : Cell) : Option (List Char × List Char × List Char) := do
  let (a, s) ← token Char.isDigit 1 2 s
  let (b, s) ← token Char.isDigit 1 2 (← oneOf ['-', '/', '.'] s)
  let (y, s) ← token Char.isDigit 2 4 (← oneOf ['-', '/', '.'] s)
  if s = [] then some (a, b, y) else none

/-- `5 Jan 2025`. -/
def matchDayMonth (s : Cell) : Option (List Char × List Char × List Char) := do
  let (d, s) ← token Char.isDigit 1 2 s
  let s ← spaces s
  let (name, s) ← token Char.isAlpha 1 s.length s
  let (y, s) ← token Char.isDigit 2 4 (← spaces (optional ',' (optional '.' s)))
  if s = [] then some (d, name, y) else none

/-- `Jan 5, 2025`. -/
def matchMonthDay (s : Cell) : Option (List Char × List Char × List Char) := do
  let (name, s) ← token Char.isAlpha 1 s.length s
  let (d, s) ← token Char.isDigit 1 2 (← spaces (optional '.' s))
  let (y, s) ← token Char.isDigit 2 4 (← spaces (optional ',' s))
  if s = [] then some (name, d, y) else none

/-- A date cell as a day; the first form that matches decides. -/
def parseLocaleDate (raw : Cell) (dayFirst : Bool) : Option ℤ :=
  let s := Text.trim raw
  match matchIso s with
  | some (y, mo, d) => validIso (number y) (number mo) (number d)
  | none =>
  match matchNumeric s with
  | some (a, b, y) =>
    if dayFirst then validIso (expandYear y) (number b) (number a)
    else validIso (expandYear y) (number a) (number b)
  | none =>
  match matchDayMonth s with
  | some (d, name, y) => (month? name).bind fun mo => validIso (expandYear y) mo (number d)
  | none =>
  match matchMonthDay s with
  | some (name, d, y) => (month? name).bind fun mo => validIso (expandYear y) mo (number d)
  | none => none

/-! ## Columns -/

def MAX_HEADER_SCAN_ROWS : ℕ := 25

/-- `replace(/\s+/g, ' ')`. -/
def collapseSpaces : List Char → List Char
  | [] => []
  | c :: cs =>
    if Text.isSpace c then
      if (cs.head?.map Text.isSpace).getD false then collapseSpaces cs
      else ' ' :: collapseSpaces cs
    else c :: collapseSpaces cs

/-- The cell of a column, blank where the sheet has no such column or the row ends before it. -/
def cellAt (row : List Cell) (idx : Option ℕ) : Cell := (idx.bind fun i => row[i]?).getD []

section Headers

variable (toLowerCase : List Char → List Char)

def normHeader (cell : Cell) : Cell := collapseSpaces (toLowerCase (Text.trim cell))

structure ColumnSpec where
  key : String
  /-- The accepted header names, in the order of preference. -/
  names : List String
  required : Bool := false

/-- The column of a spec: a header that is one of its names, else one that contains a name of at
least four characters. -/
def findColumn (norm : List Cell) (spec : ColumnSpec) : Option ℕ :=
  (spec.names.findSome? fun name => norm.findIdx? fun c => c = name.toList) <|>
    (spec.names.findSome? fun name =>
      if name.length < 4 then none
      else norm.findIdx? fun c => c ≠ [] ∧ name.toList <:+: c)

/-- The first of the leading rows in which every required column is found, and the column of each
key. -/
def detectHeaderRow (rows : List (List Cell)) (specs : List ColumnSpec) :
    Option (ℕ × (String → Option ℕ)) :=
  (rows.take MAX_HEADER_SCAN_ROWS).zipIdx.findSome? fun (row, i) =>
    let norm := row.map (normHeader toLowerCase)
    if ∀ spec ∈ specs, spec.required → (findColumn norm spec).isSome then
      some (i, fun key => (specs.find? fun spec => spec.key = key).bind (findColumn norm))
    else none

end Headers

/-- The rows after the header that are not blank, with their number in the file. -/
def dataRows (rows : List (List Cell)) (headerIdx : ℕ) : List (ℕ × List Cell) :=
  ((rows.zipIdx 1).drop (headerIdx + 1)).filterMap fun (row, rowNum) =>
    if row.all fun c => c = [] then none else some (rowNum, row)

end Imports
