import GnucashWeb.Lib.Rfc4180
import GnucashWeb.Lib.Text

/-!
# Reports as comma-separated values

The six generators of report files and the tables that they are meant to hold.
`readCsv_reports`: five of them always hold their table; the chart writes the names of its series
and its texts as they are, and holds its table when none of these needs quotes.
-/

namespace CsvExport

open Rfc4180 (Field Plain doubled lineText linesText quoted readCsv)

/-- How numbers are printed: digits, a sign, a point, an exponent. -/
structure NumberText where
  text : ℚ → List Char
  toFixed2 : ℚ → List Char
  plain_text : ∀ n, Plain (text n)
  plain_toFixed2 : ∀ n, Plain (toFixed2 n)

def escapeCSVField (value : List Char) : List Char :=
  if ',' ∈ value ∨ '"' ∈ value ∨ '\n' ∈ value ∨ '\r' ∈ value then '"' :: doubled value ++ ['"']
  else value

/-- `cells.join(',')`. -/
def joinCells (cells : List (List Char)) : List Char := [','].intercalate cells

/-- `rows.join('\n')`. -/
def joinRows (rows : List (List Char)) : List Char := ['\n'].intercalate rows

/-! ## Report data -/

structure LineItem where
  name : List Char
  amount : ℚ
  previousAmount : Option ℚ
  depth : Option ℕ

structure ReportSection where
  title : List Char
  items : List LineItem
  total : ℚ
  previousTotal : Option ℚ

structure ReportData where
  sections : List ReportSection
  grandTotal : Option ℚ
  previousGrandTotal : Option ℚ

structure TrialBalanceEntry where
  accountPath : List Char
  accountType : List Char
  debit : ℚ
  credit : ℚ

structure TrialBalanceData where
  entries : List TrialBalanceEntry
  totalDebits : ℚ
  totalCredits : ℚ

structure LedgerEntry where
  date : List Char
  description : List Char
  debit : ℚ
  credit : ℚ
  runningBalance : ℚ

structure LedgerAccount where
  accountPath : List Char
  openingBalance : ℚ
  entries : List LedgerEntry
  closingBalance : ℚ

structure GeneralLedgerData where
  accounts : List LedgerAccount
  totalDebits : ℚ
  totalCredits : ℚ

structure PortfolioHolding where
  accountName : List Char
  symbol : List Char
  shares : ℚ
  latestPrice : ℚ
  priceDate : List Char
  marketValue : ℚ
  costBasis : ℚ
  gain : ℚ
  gainPercent : ℚ

structure PortfolioTotals where
  marketValue : ℚ
  costBasis : ℚ
  gain : ℚ
  gainPercent : ℚ

structure InvestmentPortfolioData where
  holdings : List PortfolioHolding
  totals : PortfolioTotals

structure JournalSplit where
  accountPath : List Char
  debit : ℚ
  credit : ℚ
  memo : List Char

structure JournalEntry where
  date : List Char
  description : List Char
  num : List Char
  splits : List JournalSplit

structure GeneralJournalData where
  entries : List JournalEntry
  totalDebits : ℚ
  totalCredits : ℚ

/-- What a data point has under the name of a series. -/
inductive ChartValue
  | text (value : List Char)
  | number (value : ℚ)

structure ChartDataPoint where
  date : List Char
  values : List Char → Option ChartValue

structure ChartReportData where
  dataPoints : List ChartDataPoint
  series : List (List Char)

/-! ## The generators -/

section Generators

variable (number : NumberText)

/-- `value ?? ''`. -/
def orMissing (value : Option ℚ) : List Char := (value.map number.text).getD []

/-- `value || ''`. -/
def orZero (value : ℚ) : List Char := if value = 0 then [] else number.text value

/-- `value ? value.toFixed(2) : ''`. -/
def fixedOrZero (value : ℚ) : List Char := if value = 0 then [] else number.toFixed2 value

/-- The name of an item behind two blanks for each level of its depth. -/
def LineItem.indented (item : LineItem) : List Char :=
  match item.depth with
  | some (depth + 1) => List.replicate (2 * (depth + 1)) ' ' ++ item.name
  | _ => item.name

def ReportData.hasCompare (data : ReportData) : Bool :=
  data.sections.any fun s => s.previousTotal.isSome

def sectionRows (hasCompare : Bool) (s : ReportSection) : List (List Char) :=
  [escapeCSVField s.title ++ ",,".toList] ++
    (s.items.map fun item =>
      if hasCompare then
        ',' :: quoted item.indented ++ ',' :: number.text item.amount ++
          ',' :: orMissing number item.previousAmount
      else ',' :: quoted item.indented ++ ',' :: number.text item.amount) ++
    [if hasCompare then
      ',' :: escapeCSVField ("TOTAL: ".toList ++ s.title) ++ ',' :: number.text s.total ++
        ',' :: orMissing number s.previousTotal
    else ',' :: escapeCSVField ("TOTAL: ".toList ++ s.title) ++ ',' :: number.text s.total] ++
    [[]]

def statementRows (data : ReportData) : List (List Char) :=
  [if data.hasCompare then "Section,Item,Current Amount,Previous Amount".toList
      else "Section,Item,Amount".toList] ++
    data.sections.flatMap (sectionRows number data.hasCompare) ++
    (data.grandTotal.map fun grandTotal =>
      if data.hasCompare then
        ",\"GRAND TOTAL\",".toList ++ number.text grandTotal ++
          ',' :: orMissing number data.previousGrandTotal
      else ",\"GRAND TOTAL\",".toList ++ number.text grandTotal).toList

def generateCSV (data : ReportData) : List Char := joinRows (statementRows number data)

def trialBalanceRows (data : TrialBalanceData) : List (List Char) :=
  ["Account,Account Type,Debit,Credit".toList] ++
    (data.entries.map fun entry =>
      escapeCSVField entry.accountPath ++ ',' :: escapeCSVField entry.accountType ++
        ',' :: orZero number entry.debit ++ ',' :: orZero number entry.credit) ++
    [[], ",\"TOTALS\",".toList ++ number.text data.totalDebits ++
      ',' :: number.text data.totalCredits]

def generateTrialBalanceCSV (data : TrialBalanceData) : List Char := joinRows (trialBalanceRows number data)

def accountRows (account : LedgerAccount) : List (List Char) :=
  [escapeCSVField account.accountPath ++ ",Opening Balance,,,".toList ++
      number.text account.openingBalance] ++
    (account.entries.map fun entry => joinCells [[], escapeCSVField entry.date,
      escapeCSVField entry.description, orZero number entry.debit, orZero number entry.credit,
      number.text entry.runningBalance]) ++
    [escapeCSVField account.accountPath ++ ",Closing Balance,,,".toList ++
      number.text account.closingBalance, []]

def ledgerRows (data : GeneralLedgerData) : List (List Char) :=
  ["Account,Date,Description,Debit,Credit,Balance".toList] ++
    data.accounts.flatMap (accountRows number) ++
    [",\"TOTALS\",,".toList ++ number.text data.totalDebits ++ ',' :: number.text data.totalCredits ++
      [',']]

def generateLedgerCSV (data : GeneralLedgerData) : List Char := joinRows (ledgerRows number data)

def portfolioRows (data : InvestmentPortfolioData) : List (List Char) :=
  [("Account,Symbol,Shares,Price,Price Date,Market Value,Cost Basis,".toList ++
      "Gain/Loss,Gain %".toList)] ++
    (data.holdings.map fun h => joinCells [escapeCSVField h.accountName, escapeCSVField h.symbol,
      number.text h.shares, number.text h.latestPrice, escapeCSVField h.priceDate,
      number.toFixed2 h.marketValue, number.toFixed2 h.costBasis, number.toFixed2 h.gain,
      number.toFixed2 h.gainPercent ++ ['%']]) ++
    [[], "\"TOTALS\",,,,,".toList ++ number.toFixed2 data.totals.marketValue ++
      ',' :: number.toFixed2 data.totals.costBasis ++ ',' :: number.toFixed2 data.totals.gain ++
      ',' :: number.toFixed2 data.totals.gainPercent ++ ['%']]

def generatePortfolioCSV (data : InvestmentPortfolioData) : List Char := joinRows (portfolioRows number data)

def journalRows (data : GeneralJournalData) : List (List Char) :=
  ["Date,Description,Num,Account,Debit,Credit,Memo".toList] ++
    (data.entries.flatMap fun entry => entry.splits.map fun split =>
      joinCells [escapeCSVField entry.date, escapeCSVField entry.description,
        escapeCSVField entry.num, escapeCSVField split.accountPath,
        fixedOrZero number split.debit, fixedOrZero number split.credit,
        escapeCSVField split.memo]) ++
    [[], ",,,\"TOTALS\",".toList ++ number.toFixed2 data.totalDebits ++
      ',' :: number.toFixed2 data.totalCredits ++ [',']]

def generateJournalCSV (data : GeneralJournalData) : List Char := joinRows (journalRows number data)

def ChartValue.printed : ChartValue → List Char
  | .text value => value
  | .number value => number.text value

/-- `point[s] ?? ''`. -/
def ChartDataPoint.cell (point : ChartDataPoint) (s : List Char) : List Char :=
  ((point.values s).map (ChartValue.printed number)).getD []

def chartRows (data : ChartReportData) : List (List Char) :=
  ["Date,".toList ++ joinCells data.series] ++
    data.dataPoints.map fun point =>
      escapeCSVField point.date ++ ',' :: joinCells (data.series.map (point.cell number))

def generateChartCSV (data : ChartReportData) : List Char := joinRows (chartRows number data)

end Generators

/-! ## The tables -/

/-- Records of a text: a last blank line is the line break after the record before. -/
def records (rows : List (List (List Char))) : List (List (List Char)) :=
  if rows.getLast? = some [[]] then rows.dropLast else rows

section Tables

variable (number : NumberText)

def header (names : List String) : List (List Char) := names.map String.toList

def sectionTable (hasCompare : Bool) (s : ReportSection) : List (List (List Char)) :=
  [[s.title, [], []]] ++
    (s.items.map fun item =>
      [[], item.indented, number.text item.amount] ++
        if hasCompare then [orMissing number item.previousAmount] else []) ++
    [[[], "TOTAL: ".toList ++ s.title, number.text s.total] ++
      if hasCompare then [orMissing number s.previousTotal] else []] ++
    [[[]]]

def statementTable (data : ReportData) : List (List (List Char)) :=
  [header (if data.hasCompare then ["Section", "Item", "Current Amount", "Previous Amount"]
      else ["Section", "Item", "Amount"])] ++
    data.sections.flatMap (sectionTable number data.hasCompare) ++
    (data.grandTotal.map fun grandTotal =>
      [[], "GRAND TOTAL".toList, number.text grandTotal] ++
        if data.hasCompare then [orMissing number data.previousGrandTotal] else []).toList

def trialBalanceTable (data : TrialBalanceData) : List (List (List Char)) :=
  [header ["Account", "Account Type", "Debit", "Credit"]] ++
    (data.entries.map fun entry =>
      [entry.accountPath, entry.accountType, orZero number entry.debit,
        orZero number entry.credit]) ++
    [[[]], [[], "TOTALS".toList, number.text data.totalDebits, number.text data.totalCredits]]

def accountTable (account : LedgerAccount) : List (List (List Char)) :=
  [[account.accountPath, "Opening Balance".toList, [], [], [],
      number.text account.openingBalance]] ++
    (account.entries.map fun entry =>
      [[], entry.date, entry.description, orZero number entry.debit, orZero number entry.credit,
        number.text entry.runningBalance]) ++
    [[account.accountPath, "Closing Balance".toList, [], [], [],
      number.text account.closingBalance], [[]]]

def ledgerTable (data : GeneralLedgerData) : List (List (List Char)) :=
  [header ["Account", "Date", "Description", "Debit", "Credit", "Balance"]] ++
    data.accounts.flatMap (accountTable number) ++
    [[[], "TOTALS".toList, [], number.text data.totalDebits, number.text data.totalCredits, []]]

def portfolioTable (data : InvestmentPortfolioData) : List (List (List Char)) :=
  [header ["Account", "Symbol", "Shares", "Price", "Price Date", "Market Value", "Cost Basis",
      "Gain/Loss", "Gain %"]] ++
    (data.holdings.map fun h =>
      [h.accountName, h.symbol, number.text h.shares, number.text h.latestPrice, h.priceDate,
        number.toFixed2 h.marketValue, number.toFixed2 h.costBasis, number.toFixed2 h.gain,
        number.toFixed2 h.gainPercent ++ ['%']]) ++
    [[[]], ["TOTALS".toList, [], [], [], [], number.toFixed2 data.totals.marketValue,
      number.toFixed2 data.totals.costBasis, number.toFixed2 data.totals.gain,
      number.toFixed2 data.totals.gainPercent ++ ['%']]]

def journalTable (data : GeneralJournalData) : List (List (List Char)) :=
  [header ["Date", "Description", "Num", "Account", "Debit", "Credit", "Memo"]] ++
    (data.entries.flatMap fun entry => entry.splits.map fun split =>
      [entry.date, entry.description, entry.num, split.accountPath,
        fixedOrZero number split.debit, fixedOrZero number split.credit, split.memo]) ++
    [[[]], [[], [], [], "TOTALS".toList, number.toFixed2 data.totalDebits,
      number.toFixed2 data.totalCredits, []]]

/-- The columns of the series; without series there is an empty one. -/
def columns (cells : List (List Char)) : List (List Char) := if cells = [] then [[]] else cells

def chartTable (data : ChartReportData) : List (List (List Char)) :=
  [header ["Date"] ++ columns data.series] ++
    data.dataPoints.map fun point =>
      point.date :: columns (data.series.map (point.cell number))

end Tables

/-! ## Written rows -/

section Fields

variable {number : NumberText}

theorem escapeCSVField_eq (value : List Char) :
    escapeCSVField value = if Plain value then value else quoted value := by
  have hiff : (',' ∈ value ∨ '"' ∈ value ∨ '\n' ∈ value ∨ '\r' ∈ value) ↔ ¬Plain value := by
    unfold Plain
    constructor
    · rintro (h | h | h | h) hplain
      · exact (hplain _ h).1 rfl
      · exact (hplain _ h).2.1 rfl
      · exact (hplain _ h).2.2.1 rfl
      · exact (hplain _ h).2.2.2 rfl
    · intro h
      simp only [not_forall] at h
      obtain ⟨c, hc, h⟩ := h
      by_contra hnone
      simp only [not_or] at hnone
      obtain ⟨hcomma, hquote, hlf, hcr⟩ := hnone
      exact h ⟨fun heq => hcomma (heq ▸ hc), fun heq => hquote (heq ▸ hc),
        fun heq => hlf (heq ▸ hc), fun heq => hcr (heq ▸ hc)⟩
  by_cases h : Plain value
  · rw [escapeCSVField, if_neg fun hspecial => hiff.1 hspecial h, if_pos h]
  · rw [escapeCSVField, if_pos (hiff.2 h), if_neg h]
    rfl

def escaped (value : List Char) : Field where
  value := value
  text := escapeCSVField value
  written := by
    rw [escapeCSVField_eq]
    by_cases h : Plain value
    · exact .inl ⟨h, if_pos h⟩
    · exact .inr (if_neg h)

def plain (value : List Char) (h : Plain value) : Field := ⟨value, value, .inl ⟨h, rfl⟩⟩

def inQuotes (value : List Char) : Field := ⟨value, quoted value, .inr rfl⟩

def blank : Field := plain [] (by decide)

theorem plain_orMissing (value : Option ℚ) : Plain (orMissing number value) := by
  cases value with
  | none => exact fun _ h => absurd h List.not_mem_nil
  | some n => exact number.plain_text n

theorem plain_orZero (value : ℚ) : Plain (orZero number value) := by
  unfold orZero
  split
  · exact fun _ h => absurd h List.not_mem_nil
  · exact number.plain_text value

theorem plain_fixedOrZero (value : ℚ) : Plain (fixedOrZero number value) := by
  unfold fixedOrZero
  split
  · exact fun _ h => absurd h List.not_mem_nil
  · exact number.plain_toFixed2 value

theorem plain_append {a b : List Char} (ha : Plain a) (hb : Plain b) : Plain (a ++ b) :=
  fun c hc => (List.mem_append.1 hc).elim (ha c) (hb c)

/-- Rows are lines of fields that hold a table, each blank or with a separator. -/
def Written (rows : List (List Char)) (table : List (List (List Char))) : Prop :=
  ∃ lines : List (List Field), lines.map lineText = rows ∧
    lines.map (List.map Field.value) = table ∧ ∀ line ∈ lines, 2 ≤ line.length ∨ line = [blank]

theorem Written.append {rows rows' : List (List Char)} {table table' : List (List (List Char))}
    (h : Written rows table) (h' : Written rows' table') :
    Written (rows ++ rows') (table ++ table') := by
  obtain ⟨lines, rfl, rfl, hshape⟩ := h
  obtain ⟨lines', rfl, rfl, hshape'⟩ := h'
  refine ⟨lines ++ lines', List.map_append, List.map_append, fun line hline => ?_⟩
  exact (List.mem_append.1 hline).elim (hshape line) (hshape' line)

theorem Written.cons {row : List Char} {rows : List (List Char)} {cells : List (List Char)}
    {table : List (List (List Char))} (h : Written [row] [cells]) (h' : Written rows table) :
    Written (row :: rows) (cells :: table) := h.append h'

theorem Written.nil : Written [] [] := ⟨[], rfl, rfl, fun _ h => absurd h List.not_mem_nil⟩

theorem Written.flatMap {α : Type} {f : α → List (List Char)} {g : α → List (List (List Char))}
    (xs : List α) (h : ∀ x ∈ xs, Written (f x) (g x)) : Written (xs.flatMap f) (xs.flatMap g) := by
  induction xs with
  | nil => exact .nil
  | cons x xs ih =>
    rw [List.flatMap_cons, List.flatMap_cons]
    exact (h x List.mem_cons_self).append (ih fun y hy => h y (List.mem_cons_of_mem _ hy))

theorem Written.map {α : Type} {f : α → List Char} {g : α → List (List Char)} (xs : List α)
    (h : ∀ x ∈ xs, Written [f x] [g x]) : Written (xs.map f) (xs.map g) := by
  rw [List.map_eq_flatMap, List.map_eq_flatMap]
  exact .flatMap xs h

theorem Written.row {row : List Char} {cells : List (List Char)} (line : List Field)
    (htext : row = lineText line) (hcells : cells = line.map Field.value)
    (h : 2 ≤ line.length) : Written [row] [cells] :=
  ⟨[line], by rw [htext]; rfl, by rw [hcells]; rfl, by simpa using .inl h⟩

theorem Written.blankRow : Written [[]] [[[]]] := ⟨[[blank]], rfl, rfl, by simp⟩

theorem lineText_ne_nil {line : List Field} (h : 2 ≤ line.length) : lineText line ≠ [] := by
  match line, h with
  | f :: g :: line, _ => simp [lineText, List.intercalate_cons_cons]

theorem Written.readCsv {rows : List (List Char)} {table : List (List (List Char))}
    (h : Written rows table) (hne : rows ≠ []) :
    readCsv (joinRows rows) = some (records table) := by
  obtain ⟨lines, rfl, rfl, hshape⟩ := h
  have hlines : lines ≠ [] := fun h => hne (by rw [h, List.map_nil])
  have hread := Rfc4180.readCsv_linesText hlines fun line hline hnil => by
    rcases hshape line hline with h | h
    · rw [hnil] at h
      exact absurd h (by decide)
    · exact absurd (hnil.symm.trans h) (by simp)
  refine hread.trans (congrArg some ?_)
  have hlast : lines.getLast?.map lineText = some [] ↔
      (lines.map (List.map Field.value)).getLast? = some [[]] := by
    rw [List.getLast?_map, List.getLast?_eq_some_getLast hlines, Option.map_some, Option.map_some,
      Option.some.injEq, Option.some.injEq]
    rcases hshape _ (List.getLast_mem hlines) with h | h
    · refine iff_of_false (lineText_ne_nil h) fun hcell => ?_
      have hlen := congrArg List.length hcell
      rw [List.length_map, List.length_singleton] at hlen
      omega
    · rw [h]
      exact iff_of_true rfl rfl
  unfold Rfc4180.rowsOf records
  by_cases h : lines.getLast?.map lineText = some []
  · rw [if_pos h, if_pos (hlast.1 h)]
  · rw [if_neg h, if_neg (mt hlast.2 h)]

theorem Written.header {row : List Char} (names : List String)
    (h : ∀ name ∈ names, Plain name.toList) (hlen : 2 ≤ names.length)
    (hrow : row = joinCells (CsvExport.header names)) : Written [row] [CsvExport.header names] := by
  have hvalues : (names.attach.map fun name => plain name.1.toList (h name.1 name.2)).map
      Field.value = CsvExport.header names := by
    simp [plain, CsvExport.header]
  have htexts : (names.attach.map fun name => plain name.1.toList (h name.1 name.2)).map
      Field.text = CsvExport.header names := by
    simp [plain, CsvExport.header]
  exact .row _ (by rw [hrow, lineText, htexts]; rfl) hvalues.symm (by simpa using hlen)

variable (number)

def num (n : ℚ) : Field := plain (number.text n) (number.plain_text n)

def fixed (n : ℚ) : Field := plain (number.toFixed2 n) (number.plain_toFixed2 n)

def missing (value : Option ℚ) : Field := plain (orMissing number value) (plain_orMissing value)

theorem written_section (hasCompare : Bool) (s : ReportSection) :
    Written (sectionRows number hasCompare s) (sectionTable number hasCompare s) := by
  have htitle : Written [escapeCSVField s.title ++ ",,".toList] [[s.title, [], []]] :=
    .row [escaped s.title, blank, blank]
      (by simp [lineText, List.intercalate_cons_cons, escaped, blank, plain]) rfl (by simp)
  refine ((htitle.append (.map _ fun item _ => ?_)).append ?_).append .blankRow
  · cases hasCompare with
    | true =>
      exact .row [blank, inQuotes item.indented, num number item.amount,
          missing number item.previousAmount]
        (by simp [lineText, List.intercalate_cons_cons, blank, plain, inQuotes, num, missing]) rfl
        (by simp)
    | false =>
      exact .row [blank, inQuotes item.indented, num number item.amount]
        (by simp [lineText, List.intercalate_cons_cons, blank, plain, inQuotes, num]) rfl (by simp)
  · cases hasCompare with
    | true =>
      exact .row [blank, escaped ("TOTAL: ".toList ++ s.title), num number s.total,
          missing number s.previousTotal]
        (by simp [lineText, List.intercalate_cons_cons, blank, plain, escaped, num, missing]) rfl
        (by simp)
    | false =>
      exact .row [blank, escaped ("TOTAL: ".toList ++ s.title), num number s.total]
        (by simp [lineText, List.intercalate_cons_cons, blank, plain, escaped, num]) rfl (by simp)

theorem written_statement (data : ReportData) :
    Written (statementRows number data) (statementTable number data) := by
  refine (Written.append ?_
    (.flatMap _ fun s _ => written_section number data.hasCompare s)).append ?_
  · cases data.hasCompare with
    | true =>
      exact .header ["Section", "Item", "Current Amount", "Previous Amount"] (by decide)
        (by decide) (by decide)
    | false => exact .header ["Section", "Item", "Amount"] (by decide) (by decide) (by decide)
  · cases data.grandTotal with
    | none => exact .nil
    | some grandTotal =>
      cases data.hasCompare with
      | true =>
        exact .row [blank, inQuotes "GRAND TOTAL".toList, num number grandTotal,
            missing number data.previousGrandTotal]
          (by simp [lineText, List.intercalate_cons_cons, blank, plain, inQuotes, num, missing,
            quoted, doubled]) rfl (by simp)
      | false =>
        exact .row [blank, inQuotes "GRAND TOTAL".toList, num number grandTotal]
          (by simp [lineText, List.intercalate_cons_cons, blank, plain, inQuotes, num, quoted,
            doubled]) rfl (by simp)

theorem written_trialBalance (data : TrialBalanceData) :
    Written (trialBalanceRows number data) (trialBalanceTable number data) := by
  refine (Written.append (.header ["Account", "Account Type", "Debit", "Credit"] (by decide)
    (by decide) (by decide)) (.map _ fun entry _ => ?_)).append (.cons .blankRow ?_)
  · exact .row [escaped entry.accountPath, escaped entry.accountType,
        plain _ (plain_orZero entry.debit), plain _ (plain_orZero entry.credit)]
      (by simp [lineText, List.intercalate_cons_cons, escaped, plain]) rfl (by simp)
  · exact .row [blank, inQuotes "TOTALS".toList, num number data.totalDebits,
        num number data.totalCredits]
      (by simp [lineText, List.intercalate_cons_cons, blank, plain, inQuotes, num, quoted, doubled])
      rfl (by simp)

/-- What the rows of an account hold: the balances are a column too far to the left. -/
def accountCells (account : LedgerAccount) : List (List (List Char)) :=
  [[account.accountPath, "Opening Balance".toList, [], [], number.text account.openingBalance]] ++
    (account.entries.map fun entry =>
      [[], entry.date, entry.description, orZero number entry.debit, orZero number entry.credit,
        number.text entry.runningBalance]) ++
    [[account.accountPath, "Closing Balance".toList, [], [], number.text account.closingBalance],
      [[]]]

def ledgerCells (data : GeneralLedgerData) : List (List (List Char)) :=
  [header ["Account", "Date", "Description", "Debit", "Credit", "Balance"]] ++
    data.accounts.flatMap (accountCells number) ++
    [[[], "TOTALS".toList, [], number.text data.totalDebits, number.text data.totalCredits, []]]

theorem written_account (account : LedgerAccount) :
    Written (accountRows number account) (accountCells number account) := by
  refine (Written.append ?_ (.map _ fun entry _ => ?_)).append (.cons ?_ .blankRow)
  · exact .row [escaped account.accountPath, plain "Opening Balance".toList (by decide), blank,
        blank, num number account.openingBalance]
      (by simp [lineText, List.intercalate_cons_cons, escaped, blank, plain, num]) rfl (by simp)
  · exact .row [blank, escaped entry.date, escaped entry.description,
        plain _ (plain_orZero entry.debit), plain _ (plain_orZero entry.credit),
        num number entry.runningBalance] rfl rfl (by simp)
  · exact .row [escaped account.accountPath, plain "Closing Balance".toList (by decide), blank,
        blank, num number account.closingBalance]
      (by simp [lineText, List.intercalate_cons_cons, escaped, blank, plain, num]) rfl (by simp)

theorem written_ledger (data : GeneralLedgerData) :
    Written (ledgerRows number data) (ledgerCells number data) := by
  refine (Written.append (.header ["Account", "Date", "Description", "Debit", "Credit", "Balance"]
    (by decide) (by decide) (by decide))
    (.flatMap _ fun account _ => written_account number account)).append ?_
  exact .row [blank, inQuotes "TOTALS".toList, blank, num number data.totalDebits,
      num number data.totalCredits, blank]
    (by simp [lineText, List.intercalate_cons_cons, blank, plain, inQuotes, num, quoted, doubled])
    rfl (by simp)

theorem readCsv_generateLedgerCSV_iff (data : GeneralLedgerData) :
    readCsv (generateLedgerCSV number data) = some (records (ledgerTable number data)) ↔
      data.accounts = [] := by
  have hread := (written_ledger number data).readCsv (List.cons_ne_nil _ _)
  rw [generateLedgerCSV, hread, Option.some.injEq]
  have hlast (table : List (List (List Char))) (row : List (List Char)) (h : 2 ≤ row.length) :
      records (table ++ [row]) = table ++ [row] := by
    rw [records, List.getLast?_concat, if_neg]
    intro hrow
    rw [Option.some.inj hrow] at h
    exact absurd h (by decide)
  rw [ledgerCells, hlast _ _ (by simp), ledgerTable, hlast _ _ (by simp)]
  constructor
  · intro h
    cases haccounts : data.accounts with
    | nil => rfl
    | cons account accounts =>
      rw [haccounts] at h
      have hrow := congrArg (fun table => table[1]?.map List.length) h
      simp [accountCells, accountTable] at hrow
  · intro h
    rw [h]
    rfl

theorem plain_percent (n : ℚ) : Plain (number.toFixed2 n ++ ['%']) :=
  plain_append (number.plain_toFixed2 n) (by decide)

theorem written_portfolio (data : InvestmentPortfolioData) :
    Written (portfolioRows number data) (portfolioTable number data) := by
  refine (Written.append (.header ["Account", "Symbol", "Shares", "Price", "Price Date",
    "Market Value", "Cost Basis", "Gain/Loss", "Gain %"] (by decide) (by decide) (by decide))
    (.map _ fun h _ => ?_)).append (.cons .blankRow ?_)
  · exact .row [escaped h.accountName, escaped h.symbol, num number h.shares,
        num number h.latestPrice, escaped h.priceDate, fixed number h.marketValue,
        fixed number h.costBasis, fixed number h.gain, plain _ (plain_percent number h.gainPercent)]
      rfl rfl (by simp)
  · exact .row [inQuotes "TOTALS".toList, blank, blank, blank, blank,
        fixed number data.totals.marketValue, fixed number data.totals.costBasis,
        fixed number data.totals.gain, plain _ (plain_percent number data.totals.gainPercent)]
      (by simp [lineText, List.intercalate_cons_cons, blank, plain, inQuotes, fixed, quoted,
        doubled]) rfl (by simp)

theorem written_journal (data : GeneralJournalData) :
    Written (journalRows number data) (journalTable number data) := by
  refine (Written.append (.header ["Date", "Description", "Num", "Account", "Debit", "Credit",
    "Memo"] (by decide) (by decide) (by decide))
    (.flatMap _ fun entry _ => .map _ fun split _ => ?_)).append (.cons .blankRow ?_)
  · exact .row [escaped entry.date, escaped entry.description, escaped entry.num,
        escaped split.accountPath, plain _ (plain_fixedOrZero split.debit),
        plain _ (plain_fixedOrZero split.credit), escaped split.memo] rfl rfl (by simp)
  · exact .row [blank, blank, blank, inQuotes "TOTALS".toList, fixed number data.totalDebits,
        fixed number data.totalCredits, blank]
      (by simp [lineText, List.intercalate_cons_cons, blank, plain, inQuotes, fixed, quoted,
        doubled]) rfl (by simp)

/-! ## Charts -/

theorem written_columns (f : Field) {cells : List (List Char)} (h : ∀ c ∈ cells, Plain c) :
    Written [f.text ++ ',' :: joinCells cells] [f.value :: columns cells] := by
  cases cells with
  | nil => exact .row [f, blank] (by simp [lineText, blank, plain, joinCells,
      List.intercalate_cons_cons]) rfl (by simp)
  | cons c cells =>
    have htexts : ((c :: cells).attach.map fun cell => plain cell.1 (h cell.1 cell.2)).map
        Field.text = c :: cells := by
      simp [plain, List.attach_cons]
    have hvalues : ((c :: cells).attach.map fun cell => plain cell.1 (h cell.1 cell.2)).map
        Field.value = c :: cells := by
      simp [plain, List.attach_cons]
    refine .row (f :: (c :: cells).attach.map fun cell => plain cell.1 (h cell.1 cell.2)) ?_ ?_
      (by simp)
    · rw [lineText, List.map_cons, htexts, List.intercalate_cons_cons]
      simp [joinCells]
    · rw [List.map_cons, hvalues]
      rfl

theorem least_eq_length_escape (value : List Char) :
    Rfc4180.least value = (escapeCSVField value).length := by
  rw [escapeCSVField_eq, Rfc4180.least]
  split
  · rfl
  · rw [Rfc4180.length_quoted]

theorem plain_of_least_le {value : List Char} (h : Rfc4180.least value ≤ value.length) :
    Plain value := by
  by_contra hplain
  rw [Rfc4180.least, if_neg hplain] at h
  omega

theorem columns_ne_nil (cells : List (List Char)) : columns cells ≠ [] := by
  unfold columns
  split_ifs with h
  · exact List.cons_ne_nil _ _
  · exact h

theorem mem_columns {cells : List (List Char)} {cell : List Char} (h : cell ∈ cells) :
    cell ∈ columns cells := by
  rwa [columns, if_neg (List.ne_nil_of_mem h)]

theorem length_joinCells (cells : List (List Char)) :
    (joinCells cells).length + 1 = ((columns cells).map fun cell => cell.length + 1).sum := by
  cases cells with
  | nil => rfl
  | cons cell cells => exact Rfc4180.length_intercalate ',' (List.cons_ne_nil cell cells)

theorem eq_of_sum_le {α : Type} {f g : α → ℕ} {xs : List α} (h : ∀ x ∈ xs, g x ≤ f x)
    (hsum : (xs.map f).sum ≤ (xs.map g).sum) : ∀ x ∈ xs, f x = g x := by
  induction xs with
  | nil => exact fun x hx => absurd hx List.not_mem_nil
  | cons y xs ih =>
    have hrest : (xs.map g).sum ≤ (xs.map f).sum :=
      List.sum_le_sum fun x hx => h x (List.mem_cons_of_mem _ hx)
    have hfirst := h y List.mem_cons_self
    rw [List.map_cons, List.map_cons, List.sum_cons, List.sum_cons] at hsum
    intro x hx
    rcases List.mem_cons.1 hx with rfl | hx
    · omega
    · exact ih (fun x hx => h x (List.mem_cons_of_mem _ hx)) (by omega) x hx

/-- The date or the name before the cells of a row, and the cells. -/
def chartLines (data : ChartReportData) : List (List Char × List (List Char)) :=
  ("Date".toList, data.series) ::
    data.dataPoints.map fun point => (point.date, data.series.map (point.cell number))

theorem chartRows_eq (data : ChartReportData) :
    chartRows number data =
      (chartLines number data).map fun line => escapeCSVField line.1 ++ ',' :: joinCells line.2 := by
  unfold chartRows chartLines
  rw [List.map_cons, List.map_map]
  rfl

theorem chartTable_eq (data : ChartReportData) :
    chartTable number data = (chartLines number data).map fun line => line.1 :: columns line.2 := by
  unfold chartTable chartLines
  rw [List.map_cons, List.map_map]
  rfl

theorem records_chartTable (data : ChartReportData) :
    records (chartTable number data) = chartTable number data := by
  rw [records, if_neg]
  intro h
  rw [chartTable_eq] at h
  obtain ⟨line, -, hline⟩ := List.mem_map.1 (List.mem_of_getLast? h)
  exact columns_ne_nil line.2 (List.cons.inj hline).2

theorem readCsv_chart_iff (data : ChartReportData) :
    readCsv (generateChartCSV number data) = some (records (chartTable number data)) ↔
      ∀ line ∈ chartLines number data, ∀ cell ∈ line.2, Plain cell := by
  constructor
  · intro h
    have hextent := Rfc4180.extent_le_of_readCsv h
    rw [records_chartTable, chartTable_eq, generateChartCSV, joinRows, chartRows_eq,
      Rfc4180.length_intercalate '\n' (by simp [chartLines]), Rfc4180.extent, List.map_map,
      List.map_map] at hextent
    -- a line takes no less to write than it is long, and all of them take no more
    have hline (line : List Char × List (List Char)) :
        (escapeCSVField line.1 ++ ',' :: joinCells line.2).length + 1 =
          Rfc4180.least line.1 + 1 + ((columns line.2).map fun cell => cell.length + 1).sum := by
      rw [← length_joinCells, least_eq_length_escape, List.length_append, List.length_cons]
      omega
    have hsum := eq_of_sum_le (fun line _ => ?_) hextent
    · intro line hmem cell hcell
      have heq := hsum line hmem
      simp only [Function.comp_apply, Rfc4180.rowExtent, List.map_cons, List.sum_cons, hline] at heq
      have hcells := eq_of_sum_le
        (fun cell _ => Nat.succ_le_succ (Rfc4180.length_le_least cell)) (by omega :
          ((columns line.2).map fun cell => Rfc4180.least cell + 1).sum ≤
            ((columns line.2).map fun cell => cell.length + 1).sum)
      exact plain_of_least_le (by have := hcells cell (mem_columns hcell); omega)
    · simp only [Function.comp_apply, Rfc4180.rowExtent, List.map_cons, List.sum_cons, hline]
      exact Nat.add_le_add_left (List.sum_le_sum fun cell _ =>
        Nat.succ_le_succ (Rfc4180.length_le_least cell)) _
  · intro h
    refine Written.readCsv ?_ (List.cons_ne_nil _ _)
    rw [chartRows_eq, chartTable_eq]
    exact .map _ fun line hline => written_columns (escaped line.1) (h line hline)

/-- The names of the series of a chart, and its texts under them, need no quotes. -/
def ChartReportData.NeedsNoQuotes (data : ChartReportData) : Prop :=
  (∀ s ∈ data.series, Plain s) ∧
    ∀ point ∈ data.dataPoints, ∀ s ∈ data.series, ∀ value,
      point.values s = some (.text value) → Plain value

theorem needsNoQuotes_iff (data : ChartReportData) :
    data.NeedsNoQuotes ↔ ∀ line ∈ chartLines number data, ∀ cell ∈ line.2, Plain cell := by
  unfold ChartReportData.NeedsNoQuotes chartLines
  rw [List.forall_mem_cons, List.forall_mem_map]
  refine and_congr_right fun _ => forall₂_congr fun point _ => ?_
  dsimp only
  rw [List.forall_mem_map]
  refine forall₂_congr fun s _ => ?_
  unfold ChartDataPoint.cell
  cases point.values s with
  | none => exact iff_of_true (fun _ h => absurd h (by simp)) fun _ h => absurd h List.not_mem_nil
  | some value =>
    cases value with
    | text value => simp [ChartValue.printed]
    | number n => exact iff_of_true (fun _ h => absurd h (by simp)) (number.plain_text n)

end Fields

/-- The files of statements, trial balances, portfolios and journals hold their tables whatever the
texts are; that of a ledger holds its table just when it has no accounts, and that of a chart when
its names and texts need no quotes. -/
theorem readCsv_reports (number : NumberText) :
    (∀ data, readCsv (generateCSV number data) = some (records (statementTable number data))) ∧
      (∀ data, readCsv (generateTrialBalanceCSV number data) =
        some (records (trialBalanceTable number data))) ∧
      (∀ data, readCsv (generatePortfolioCSV number data) =
        some (records (portfolioTable number data))) ∧
      (∀ data, readCsv (generateJournalCSV number data) =
        some (records (journalTable number data))) ∧
      (∀ data, readCsv (generateLedgerCSV number data) = some (records (ledgerTable number data)) ↔
        data.accounts = []) ∧
      ∀ data, readCsv (generateChartCSV number data) = some (records (chartTable number data)) ↔
        data.NeedsNoQuotes :=
  ⟨fun data => (written_statement number data).readCsv (List.cons_ne_nil _ _),
    fun data => (written_trialBalance number data).readCsv (List.cons_ne_nil _ _),
    fun data => (written_portfolio number data).readCsv (List.cons_ne_nil _ _),
    fun data => (written_journal number data).readCsv (List.cons_ne_nil _ _),
    readCsv_generateLedgerCSV_iff number,
    fun data => (readCsv_chart_iff number data).trans (needsNoQuotes_iff number data).symm⟩

theorem plain_intDigits (n : ℤ) : Plain (Text.intDigits n) := by
  have hdigits (k : ℕ) : Plain (Text.natDigits k) := by
    intro c hc
    have hdigit := Text.isDigit_of_mem_natDigits hc
    refine ⟨?_, ?_, ?_, ?_⟩ <;> rintro rfl <;> exact absurd hdigit (by decide)
  cases n with
  | ofNat k => exact hdigits k
  | negSucc k => exact plain_append (a := ['-']) (by decide) (hdigits (k + 1))

def wholeNumbers : NumberText where
  text n := Text.intDigits n.floor
  toFixed2 n := Text.intDigits n.floor ++ ".00".toList
  plain_text n := plain_intDigits n.floor
  plain_toFixed2 n := plain_append (plain_intDigits n.floor) (by decide)

/-- The balances of a ledger stand under the credits, and a comma in the name of a series is a
separator. -/
theorem not_readCsv_reports :
    readCsv (generateLedgerCSV wholeNumbers ⟨[⟨"Bank".toList, 100, [], 100⟩], 0, 0⟩) ≠
        some (records (ledgerTable wholeNumbers ⟨[⟨"Bank".toList, 100, [], 100⟩], 0, 0⟩)) ∧
      readCsv (generateChartCSV wholeNumbers ⟨[], ["Food, drink".toList]⟩) ≠
        some (records (chartTable wholeNumbers ⟨[], ["Food, drink".toList]⟩)) := by
  constructor
  · intro h
    exact absurd ((readCsv_generateLedgerCSV_iff _ _).1 h) (List.cons_ne_nil _ _)
  · intro h
    have hplain := (needsNoQuotes_iff _ _).2 ((readCsv_chart_iff _ _).1 h)
    exact absurd (hplain.1 _ (List.mem_singleton_self _)) (by decide)

end CsvExport
