import GnucashWeb.Imports.Cells

/-!
# The Journal report

`parseQboJournalRows`: rows of a QuickBooks Journal become transactions, one from each row with a
date to the next.  Account names, warnings and the date range are what the preview shows and are left
out.  The amounts of the transactions are those of the sections of the report that are accepted
(`amounts_parseQboJournalRows`).
-/

namespace Imports

open Ledger (WholeCents round2)

/-! ## Texts -/

def isWordChar (c : Char) : Bool := c.isAlphanum || c = '_'

/-- `/^total\b/i`. -/
def isTotalLabel (s : Cell) : Bool :=
  (s.take 5).map Char.toLower = "total".toList && !((s[5]?.map isWordChar).getD false)

/-- The segments of a colon path, trimmed, the blank ones dropped. -/
def pathSegments (raw : Cell) : List Cell :=
  ((Text.split ':' raw).map Text.trim).filter fun s => s ≠ []

def canonicalAccountPath (raw : Cell) : Cell := List.intercalate [':'] (pathSegments raw)

def parseQboAmount (raw : Cell) (locale : ImportLocale) : Option ℚ :=
  parseLocaleNumber raw locale.decimal

def parseQboDate (raw : Cell) (locale : ImportLocale) : Option ℤ :=
  parseLocaleDate raw locale.dayFirst

structure QboJournalLine where
  accountPath : Cell
  amount : ℚ
  memo : Cell
  row : ℕ

structure QboJournalTransaction where
  date : ℤ
  type : Cell
  num : Cell
  name : Cell
  memo : Cell
  lines : List QboJournalLine
  startRow : ℕ

inductive QboMessage
  | headerNotFound
  | unrecognizedDate (text : Cell)
  | unparseableAmount (text account : Cell)
  | doesNotBalance (date : ℤ) (name : Cell) (sum : ℚ)
  | rowBeforeSection
  | notReconstructed (date : ℤ) (type name : Cell) (rows : List ℕ) (sum : ℚ)

structure QboParseError where
  row : ℕ
  message : QboMessage

structure QboJournalParseResult where
  transactions : List QboJournalTransaction
  errors : List QboParseError

/-! ## Header -/

inductive Matcher
  | is (name : String)
  | by (accepts : Cell → Bool)

def Matcher.accepts : Matcher → Cell → Bool
  | .is name, c => c = name.toList
  | .by p, c => c ≠ [] && p c

/-- `find`: the first cell that the first matcher with a match accepts. -/
def findHeader (norm : List Cell) (matchers : List Matcher) : Option ℕ :=
  matchers.findSome? fun m => norm.findIdx? m.accepts

def includes (text : String) (c : Cell) : Bool := text.toList <:+: c

def dateMatchers : List Matcher :=
  [.is "date", .is "transaction date", .by fun c => "date".toList <:+ c]

def typeMatchers : List Matcher :=
  [.is "transaction type", .is "type", .by (includes "transaction type")]

def numMatchers : List Matcher := [.is "num", .is "no.", .is "no", .is "#", .is "number"]

def nameMatchers : List Matcher :=
  [.is "name", .by fun c => c ∈ ["payee".toList, "vendor".toList, "customer".toList]]

def memoMatchers : List Matcher :=
  [.is "memo/description", .is "memo", .is "description", .by (includes "memo")]

structure JournalColumns where
  date : Option ℕ
  type : Option ℕ
  num : Option ℕ
  name : Option ℕ
  memo : Option ℕ
  account : Option ℕ
  debit : Option ℕ
  credit : Option ℕ
  klass : Option ℕ
  location : Option ℕ

def detectJournalHeader (toLowerCase : List Char → List Char) (cells : List Cell) :
    Option JournalColumns :=
  let norm := cells.map (normHeader toLowerCase)
  let date := findHeader norm dateMatchers
  let debit := findHeader norm [.is "debit", .by (includes "debit")]
  let credit := findHeader norm [.is "credit", .by (includes "credit")]
  let account := findHeader norm
    [.is "full account name", .is "account", .is "account name", .by (includes "account")]
  if date.isNone ∨ debit.isNone ∨ credit.isNone ∨ account.isNone then none
  else some
    { date := date
      type := findHeader norm typeMatchers
      num := findHeader norm numMatchers
      name := findHeader norm nameMatchers
      memo := findHeader norm memoMatchers
      account := account
      debit := debit
      credit := credit
      klass := findHeader norm [.is "class"]
      location := findHeader norm [.is "location"] }

/-- The first of the leading rows that a detector accepts. -/
def locateHeader {Columns : Type} (detect : List Cell → Option Columns) (rows : List (List Cell)) :
    Option (ℕ × Columns) :=
  (rows.take MAX_HEADER_SCAN_ROWS).zipIdx.findSome? fun (row, i) => (detect row).map fun c => (i, c)

/-! ## Rows to transactions -/

structure JournalState where
  finished : List QboJournalTransaction
  errors : List QboParseError
  current : Option QboJournalTransaction
  /-- An amount of the current transaction could not be read. -/
  currentBad : Bool

namespace JournalState

def fail (st : JournalState) (row : ℕ) (message : QboMessage) : JournalState :=
  { st with errors := st.errors ++ [⟨row, message⟩] }

/-- Close the current transaction: it is kept when it has lines, all amounts could be read and the
sum is within a cent of zero. -/
def finishCurrent (st : JournalState) : JournalState :=
  match st.current with
  | none => st
  | some txn =>
    let closed := { st with current := none, currentBad := false }
    if txn.lines = [] then closed
    else if st.currentBad then closed
    else
      let sum := round2 (txn.lines.map QboJournalLine.amount).sum
      if 1 / 100 < |sum| then
        closed.fail txn.startRow (.doesNotBalance txn.date txn.name sum)
      else { closed with finished := st.finished ++ [txn] }

end JournalState

/-- A line's memo: the memo, class and location cells that are not blank. -/
def lineMemo (cols : JournalColumns) (row : List Cell) : Cell :=
  let memo := cellAt row cols.memo
  let klass := cellAt row cols.klass
  let location := cellAt row cols.location
  List.intercalate " | ".toList
    ((if memo = [] then [] else [memo]) ++
      (if klass = [] then [] else ["Class: ".toList ++ klass]) ++
      (if location = [] then [] else ["Location: ".toList ++ location]))

/-- Whether a row is a line: not a total and with an account. -/
def isLine (cols : JournalColumns) (row : List Cell) : Bool :=
  let accountRaw := cellAt row cols.account
  !(accountRaw = [] || isTotalLabel accountRaw) && canonicalAccountPath accountRaw ≠ []

section Journal

variable (locale : ImportLocale) (cols : JournalColumns)

/-- The transaction with a row's line; the name and the memo are filled from the first row that has
them. -/
def addLine (txn : QboJournalTransaction) (rowNum : ℕ) (row : List Cell) (amount : ℚ) :
    QboJournalTransaction :=
  let memo := cellAt row cols.memo
  { txn with
    lines := txn.lines ++
      [⟨canonicalAccountPath (cellAt row cols.account), amount, lineMemo cols row, rowNum⟩]
    memo := if txn.memo = [] then memo else txn.memo
    name := if txn.name = [] then cellAt row cols.name else txn.name }

/-- The account line of a row, if it is one, in the current transaction. -/
def readLine (txn : QboJournalTransaction) (st : JournalState) (rowNum : ℕ) (row : List Cell) :
    JournalState :=
  if isLine cols row then
    let debitRaw := cellAt row cols.debit
    let creditRaw := cellAt row cols.credit
    match parseQboAmount debitRaw locale, parseQboAmount creditRaw locale with
    | some debit, some credit =>
      { st with current := some (addLine cols txn rowNum row (round2 (debit - credit))) }
    | debit, _ =>
      let text := if debit.isNone then debitRaw else creditRaw
      let failed :=
        if st.currentBad then st
        else st.fail rowNum (.unparseableAmount text (cellAt row cols.account))
      { failed with currentBad := true }
  else st

def openTransaction (iso : ℤ) (rowNum : ℕ) (row : List Cell) : QboJournalTransaction :=
  { date := iso
    type := cellAt row cols.type
    num := cellAt row cols.num
    name := cellAt row cols.name
    memo := cellAt row cols.memo
    lines := []
    startRow := rowNum }

def readJournalRow (st : JournalState) (numbered : ℕ × List Cell) : JournalState :=
  let (rowNum, row) := numbered
  let dateRaw := cellAt row cols.date
  if dateRaw ≠ [] then
    let st := st.finishCurrent
    match parseQboDate dateRaw locale with
    | none => { st.fail rowNum (.unrecognizedDate dateRaw) with current := none }
    | some iso =>
      let txn := openTransaction cols iso rowNum row
      readLine locale cols txn { st with current := some txn } rowNum row
  else
    match st.current with
    | none => st
    | some txn => readLine locale cols txn st rowNum row

end Journal

def parseQboJournalRows (toLowerCase : List Char → List Char) (rows : List (List Cell))
    (locale : ImportLocale) : QboJournalParseResult :=
  match locateHeader (detectJournalHeader toLowerCase) rows with
  | none => ⟨[], [⟨1, .headerNotFound⟩]⟩
  | some (headerIdx, cols) =>
    let st := ((dataRows rows headerIdx).foldl (readJournalRow locale cols)
      ⟨[], [], none, false⟩).finishCurrent
    ⟨st.finished, st.errors⟩

/-! ## Sections of the report -/

/-- What is imported: some amounts whose sum is within a cent of zero. -/
def Accepted (amounts : List ℚ) : Prop := amounts ≠ [] ∧ |round2 amounts.sum| ≤ 1 / 100

instance (amounts : List ℚ) : Decidable (Accepted amounts) := inferInstanceAs (Decidable (_ ∧ _))

section Sections

variable (locale : ImportLocale) (cols : JournalColumns)

/-- The rows before the first dated row, and each dated row with the rows up to the next. -/
def sections : List (List Cell) → List (List Cell) × List (List Cell × List (List Cell))
  | [] => ([], [])
  | row :: rows =>
    let later := sections rows
    if cellAt row cols.date = [] then (row :: later.1, later.2)
    else ([], (row, later.1) :: later.2)

def lineAmount (row : List Cell) : Option ℚ := do
  let debit ← parseQboAmount (cellAt row cols.debit) locale
  let credit ← parseQboAmount (cellAt row cols.credit) locale
  return round2 (debit - credit)

/-- The amounts of the lines among some rows, if all can be read. -/
def lineAmounts (rows : List (List Cell)) : Option (List ℚ) :=
  (rows.filter (isLine cols)).mapM (lineAmount locale cols)

def sectionAmounts (s : List Cell × List (List Cell)) : Option (List ℚ) :=
  if (parseQboDate (cellAt s.1 cols.date) locale).isNone then none
  else (lineAmounts locale cols (s.1 :: s.2)).filter fun amounts => Accepted amounts

/-- The amounts with those of one more row. -/
def extend (amounts : Option (List ℚ)) (row : List Cell) : Option (List ℚ) :=
  if isLine cols row then do return (← amounts) ++ [← lineAmount locale cols row] else amounts

theorem foldl_extend_none (rows : List (List Cell)) :
    rows.foldl (extend locale cols) none = none := by
  induction rows with
  | nil => rfl
  | cons row rows ih =>
    have hrow : extend locale cols none row = none := by
      unfold extend
      split <;> rfl
    rw [List.foldl_cons, hrow, ih]

theorem foldl_extend_some (rows : List (List Cell)) (amounts : List ℚ) :
    rows.foldl (extend locale cols) (some amounts) =
      (lineAmounts locale cols rows).map (amounts ++ ·) := by
  induction rows generalizing amounts with
  | nil => simp [lineAmounts]
  | cons row rows ih =>
    rw [List.foldl_cons, lineAmounts]
    by_cases hline : isLine cols row
    · rw [List.filter_cons_of_pos hline, List.mapM_cons]
      cases hrow : lineAmount locale cols row with
      | none =>
        have hextend : extend locale cols (some amounts) row = none := by
          simp [extend, hline, hrow]
        rw [hextend, foldl_extend_none]
        rfl
      | some amount =>
        have hextend : extend locale cols (some amounts) row = some (amounts ++ [amount]) := by
          simp [extend, hline, hrow]
        rw [hextend, ih, lineAmounts]
        cases (rows.filter (isLine cols)).mapM (lineAmount locale cols) <;> simp
    · have hextend : extend locale cols (some amounts) row = some amounts := by
        simp [extend, hline]
      rw [List.filter_cons_of_neg hline, hextend, ih, lineAmounts]

end Sections

/-! ## The loop reads the sections -/

def QboJournalTransaction.amounts (txn : QboJournalTransaction) : List ℚ :=
  txn.lines.map QboJournalLine.amount

namespace JournalState

def amounts (st : JournalState) : List (List ℚ) := st.finished.map QboJournalTransaction.amounts

/-- The amounts of the current transaction, if all could be read. -/
def reading (st : JournalState) : Option (Option (List ℚ)) :=
  st.current.map fun txn => if st.currentBad then none else some txn.amounts

def Clean (st : JournalState) : Prop := st.current = none → st.currentBad = false

def closing (reading : Option (Option (List ℚ))) : List (List ℚ) :=
  ((reading.getD none).filter fun amounts => Accepted amounts).toList

theorem amounts_finishCurrent (st : JournalState) :
    st.finishCurrent.amounts = st.amounts ++ closing st.reading := by
  unfold finishCurrent
  cases hcurrent : st.current with
  | none => simp [reading, hcurrent, closing]
  | some txn =>
    by_cases hlines : txn.lines = []
    · by_cases hbad : st.currentBad <;>
        simp [hlines, hbad, amounts, reading, hcurrent, closing, QboJournalTransaction.amounts,
          Accepted, Option.filter]
    · have hne : txn.amounts ≠ [] := by simpa [QboJournalTransaction.amounts] using hlines
      by_cases hbad : st.currentBad
      · simp [hlines, hbad, amounts, reading, hcurrent, closing]
      · by_cases hsum : 1 / 100 < |round2 txn.amounts.sum|
        · have hnot : ¬ Accepted txn.amounts := fun h => absurd h.2 (not_le.2 hsum)
          have hsum' : 1 / 100 < |round2 (txn.lines.map QboJournalLine.amount).sum| := hsum
          simp only [if_neg hlines, if_neg hbad, if_pos hsum', fail, amounts, reading, hcurrent]
          simp [closing, hnot, Option.filter]
        · have haccepted : Accepted txn.amounts := ⟨hne, not_lt.1 hsum⟩
          have hsum' : ¬ 1 / 100 < |round2 (txn.lines.map QboJournalLine.amount).sum| := hsum
          simp only [if_neg hlines, if_neg hbad, if_neg hsum', amounts, reading, hcurrent]
          simp [closing, haccepted, Option.filter]

theorem current_finishCurrent (st : JournalState) (hclean : st.Clean) :
    st.finishCurrent.current = none ∧ st.finishCurrent.currentBad = false := by
  unfold finishCurrent
  cases hcurrent : st.current with
  | none => exact ⟨hcurrent, hclean hcurrent⟩
  | some txn =>
    simp only
    split
    · exact ⟨rfl, rfl⟩
    · split
      · exact ⟨rfl, rfl⟩
      · split <;> exact ⟨rfl, rfl⟩

end JournalState

section Loop

open JournalState

variable (locale : ImportLocale) (cols : JournalColumns)

theorem readLine_spec {st : JournalState} {txn : QboJournalTransaction}
    (hcurrent : st.current = some txn) (rowNum : ℕ) (row : List Cell) :
    (readLine locale cols txn st rowNum row).amounts = st.amounts ∧
      (readLine locale cols txn st rowNum row).Clean ∧
      (readLine locale cols txn st rowNum row).reading =
        st.reading.map fun amounts => extend locale cols amounts row := by
  unfold readLine
  by_cases hline : isLine cols row
  · rw [if_pos hline]
    simp only
    cases hdebit : parseQboAmount (cellAt row cols.debit) locale with
    | none =>
      have hamount : lineAmount locale cols row = none := by simp [lineAmount, hdebit]
      refine ⟨?_, ?_, ?_⟩
      · simp only [amounts]
        split <;> rfl
      · intro hnone
        exfalso
        revert hnone
        by_cases hbad : st.currentBad <;> simp [hbad, fail, hcurrent]
      · by_cases hbad : st.currentBad <;>
          simp [reading, hbad, fail, hcurrent, extend, hline, hamount]
    | some debit =>
      cases hcredit : parseQboAmount (cellAt row cols.credit) locale with
      | none =>
        have hamount : lineAmount locale cols row = none := by
          simp [lineAmount, hdebit, hcredit]
        refine ⟨?_, ?_, ?_⟩
        · simp only [amounts]
          split <;> rfl
        · intro hnone
          exfalso
          revert hnone
          by_cases hbad : st.currentBad <;> simp [hbad, fail, hcurrent]
        · by_cases hbad : st.currentBad <;>
            simp [reading, hbad, fail, hcurrent, extend, hline, hamount]
      | some credit =>
        have hamount : lineAmount locale cols row = some (round2 (debit - credit)) := by
          simp [lineAmount, hdebit, hcredit]
        refine ⟨rfl, fun hnone => absurd hnone (by simp), ?_⟩
        by_cases hbad : st.currentBad <;>
          simp [reading, hbad, hcurrent, extend, hline, hamount, addLine,
            QboJournalTransaction.amounts]
  · rw [if_neg hline]
    refine ⟨rfl, fun hnone => absurd (hcurrent ▸ hnone) (by simp), ?_⟩
    simp [extend, hline]

/-- The whole loop: what was finished, the current transaction with the rows up to the next dated
row, and the sections after it. -/
theorem amounts_foldl_readJournalRow (rows : List (ℕ × List Cell)) {st : JournalState}
    (hclean : st.Clean) :
    (rows.foldl (readJournalRow locale cols) st).finishCurrent.amounts =
      st.amounts ++
        closing (st.reading.map fun amounts =>
          (sections cols (rows.map Prod.snd)).1.foldl (extend locale cols) amounts) ++
        (sections cols (rows.map Prod.snd)).2.filterMap (sectionAmounts locale cols) := by
  induction rows generalizing st with
  | nil =>
    rw [List.foldl_nil, amounts_finishCurrent]
    simp [sections]
  | cons numbered rows ih =>
    obtain ⟨rowNum, row⟩ := numbered
    rw [List.foldl_cons]
    by_cases hdate : cellAt row cols.date = []
    · have hsections : sections cols (((rowNum, row) :: rows).map Prod.snd) =
          (row :: (sections cols (rows.map Prod.snd)).1, (sections cols (rows.map Prod.snd)).2) := by
        simp [sections, hdate]
      rw [hsections]
      cases hcurrent : st.current with
      | none =>
        have hstep : readJournalRow locale cols st (rowNum, row) = st := by
          simp [readJournalRow, hdate, hcurrent]
        rw [hstep, ih hclean]
        simp [reading, hcurrent]
      | some txn =>
        have hstep : readJournalRow locale cols st (rowNum, row) =
            readLine locale cols txn st rowNum row := by
          simp [readJournalRow, hdate, hcurrent]
        obtain ⟨hamounts, hclean', hreading⟩ := readLine_spec locale cols hcurrent rowNum row
        rw [hstep, ih hclean', hamounts, hreading]
        simp [Function.comp_def]
    · have hsections : sections cols (((rowNum, row) :: rows).map Prod.snd) =
          ([], (row, (sections cols (rows.map Prod.snd)).1) ::
            (sections cols (rows.map Prod.snd)).2) := by
        simp [sections, hdate]
      obtain ⟨-, hgood⟩ := current_finishCurrent st hclean
      rw [hsections, List.filterMap_cons]
      cases hiso : parseQboDate (cellAt row cols.date) locale with
      | none =>
        have hstep : readJournalRow locale cols st (rowNum, row) =
            { st.finishCurrent.fail rowNum (.unrecognizedDate (cellAt row cols.date)) with
              current := none } := by
          simp [readJournalRow, hdate, hiso]
        have hsection : sectionAmounts locale cols
            (row, (sections cols (rows.map Prod.snd)).1) = none := by
          simp [sectionAmounts, hiso]
        have hamounts : (readJournalRow locale cols st (rowNum, row)).amounts =
            st.amounts ++ closing st.reading := by
          rw [hstep, ← amounts_finishCurrent]
          rfl
        have hreading : (readJournalRow locale cols st (rowNum, row)).reading = none := by
          rw [hstep]
          rfl
        have hclean' : (readJournalRow locale cols st (rowNum, row)).Clean := by
          rw [hstep]
          exact fun _ => hgood
        rw [ih hclean', hamounts, hreading, hsection]
        simp [closing]
      | some iso =>
        have hstep : readJournalRow locale cols st (rowNum, row) =
            readLine locale cols (openTransaction cols iso rowNum row)
              { st.finishCurrent with current := some (openTransaction cols iso rowNum row) }
              rowNum row := by
          simp [readJournalRow, hdate, hiso]
        have hopen : reading { st.finishCurrent with
            current := some (openTransaction cols iso rowNum row) } = some (some []) := by
          simp [reading, hgood, QboJournalTransaction.amounts, openTransaction]
        have hclosed : amounts { st.finishCurrent with
            current := some (openTransaction cols iso rowNum row) } =
            st.amounts ++ closing st.reading := amounts_finishCurrent st
        obtain ⟨hamounts, hclean', hreading⟩ := @readLine_spec locale cols
          { st.finishCurrent with current := some (openTransaction cols iso rowNum row) } _ rfl
          rowNum row
        have hsection : sectionAmounts locale cols (row, (sections cols (rows.map Prod.snd)).1) =
            ((row :: (sections cols (rows.map Prod.snd)).1).foldl (extend locale cols)
              (some [])).filter fun amounts => Accepted amounts := by
          rw [foldl_extend_some]
          simp [sectionAmounts, hiso]
        rw [hstep, ih hclean', hamounts, hreading, hopen, hclosed, hsection, List.foldl_cons]
        simp only [Option.map_some, List.foldl_nil, Option.map_id', closing, Option.getD_some]
        cases Option.filter _ (List.foldl (extend locale cols) (extend locale cols (some []) row)
          (sections cols (rows.map Prod.snd)).1) <;> simp

end Loop

/-- The amounts of the accepted sections of a report, without a header none. -/
def journalAmounts (toLowerCase : List Char → List Char) (rows : List (List Cell))
    (locale : ImportLocale) : List (List ℚ) :=
  match locateHeader (detectJournalHeader toLowerCase) rows with
  | none => []
  | some (headerIdx, cols) =>
    (sections cols ((dataRows rows headerIdx).map Prod.snd)).2.filterMap
      (sectionAmounts locale cols)

theorem amounts_parseQboJournalRows (toLowerCase : List Char → List Char) (rows : List (List Cell))
    (locale : ImportLocale) :
    (parseQboJournalRows toLowerCase rows locale).transactions.map QboJournalTransaction.amounts =
      journalAmounts toLowerCase rows locale := by
  unfold parseQboJournalRows journalAmounts
  cases locateHeader (detectJournalHeader toLowerCase) rows with
  | none => rfl
  | some found =>
    have hrun := amounts_foldl_readJournalRow locale found.2 (dataRows rows found.1)
      (show JournalState.Clean ⟨[], [], none, false⟩ from fun _ => rfl)
    simpa [JournalState.amounts, JournalState.reading, JournalState.closing] using hrun

end Imports
