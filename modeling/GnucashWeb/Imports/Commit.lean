import GnucashWeb.Imports.Personal
import GnucashWeb.Imports.QboGl
import GnucashWeb.Imports.Settlements

/-!
# The transactions an import writes

`commitQboImport`, `commitSettlementImport` and `commitPersonalImport` up to the rows of transactions
and splits.  Each split is written over the fraction of the currency, rounded on its own.  The
accounts and the batch record are left out: a split names the path, role or planned account that it is
posted to.
-/

namespace Imports

open Ledger (Amount fromDecimal round2)

/-- A split row; the quantity is the value. -/
structure WrittenSplit (Account : Type) where
  account : Account
  memo : Cell
  value : Amount

structure WrittenTransaction (Account : Type) where
  num : Cell
  postDate : ℤ
  description : Cell
  splits : List (WrittenSplit Account)

def WrittenTransaction.numerators {Account : Type} (t : WrittenTransaction Account) : List ℤ :=
  t.splits.map fun s => s.value.num

/-- `Number(fraction) || 100`. -/
def fractionOr100 (fraction : ℤ) : ℤ := if fraction = 0 then 100 else fraction

def textLimit : ℕ := 2048

/-! ## QuickBooks -/

def MAX_SHEET_ROWS : ℕ := 100000

/-- The sheets that an archive is decoded to, or why it cannot be, or a CSV text. -/
inductive QboUpload
  | archive (sheets : Except Cell (List (List (List Cell))))
  | journalContent (text : List Char)

inductive QboSourceError
  | unreadableArchive (reason : Cell)
  | noSourceSheet (found : ℕ)
  | tooManyRows
  | nothingUploaded
deriving DecidableEq

section Qbo

variable (toLowerCase : List Char → List Char)

/-- Whether a detector accepts one of the leading rows. -/
def hasHeader {Columns : Type} (detect : List Cell → Option Columns) (rows : List (List Cell)) :
    Bool :=
  (rows.take MAX_HEADER_SCAN_ROWS).any fun row => (detect row).isSome

/-- `classifySheet(rows) === 'journal'`. -/
def isJournalSheet (rows : List (List Cell)) : Bool :=
  hasHeader (detectJournalHeader toLowerCase) rows

/-- `classifySheet(rows) === 'general_ledger'`. -/
def isGlSheet (rows : List (List Cell)) : Bool :=
  !isJournalSheet toLowerCase rows && hasHeader (detectGlHeader toLowerCase) rows

inductive QboSourceFormat
  | journal
  | generalLedger

def chooseSource (upload : QboUpload) :
    Except QboSourceError (QboSourceFormat × List (List Cell)) :=
  match upload with
  | .archive (.error reason) => .error (.unreadableArchive reason)
  | .archive (.ok sheets) =>
    let sized := fun (format : QboSourceFormat) (rows : List (List Cell)) =>
      if MAX_SHEET_ROWS < rows.length then .error .tooManyRows else .ok (format, rows)
    match sheets.find? (isJournalSheet toLowerCase), sheets.find? (isGlSheet toLowerCase) with
    | some rows, _ => sized .journal rows
    | none, some rows => sized .generalLedger rows
    | none, none => .error (.noSourceSheet sheets.length)
  | .journalContent text =>
    if Text.trim text = [] then .error .nothingUploaded
    else
      let rows := splitCsvRows text
      .ok (if isGlSheet toLowerCase rows then .generalLedger else .journal, rows)

def parseChosen (locale : ImportLocale) (source : QboSourceFormat × List (List Cell)) :
    QboJournalParseResult :=
  match source.1 with
  | .journal => parseQboJournalRows toLowerCase source.2 locale
  | .generalLedger => parseQboGeneralLedgerRows toLowerCase source.2 locale

def parseSource (upload : QboUpload) (locale : ImportLocale) :
    Except QboSourceError QboJournalParseResult :=
  (chooseSource toLowerCase upload).map (parseChosen toLowerCase locale)

/-- The first text that is not blank, or a default, cut to the limit. -/
def describe (texts : List Cell) (default : String) : Cell :=
  (firstText texts default).take textLimit

def writeQbo (commodityScu : ℤ) (txn : QboJournalTransaction) : WrittenTransaction Cell :=
  { num := txn.num
    postDate := txn.date
    description := describe [txn.name, txn.memo, txn.type] "QuickBooks import"
    splits := txn.lines.map fun line =>
      { account := line.accountPath
        memo := line.memo.take textLimit
        value := fromDecimal line.amount commodityScu } }

inductive QboCommitError
  | bookNameRequired
  | noImportable (source : Option QboSourceError) (first : Option QboParseError)

/-- `commitQboImport`; the fraction is that of the currency found, 100 for one that is created. -/
def commitQboImport (bookName : Cell) (upload : QboUpload) (locale : ImportLocale)
    (currencyFraction : Option ℤ) : Except QboCommitError (List (WrittenTransaction Cell)) :=
  if Text.trim bookName = [] then .error .bookNameRequired
  else
    match parseSource toLowerCase upload locale with
    | .error e => .error (.noImportable (some e) none)
    | .ok journal =>
      if journal.transactions = [] then .error (.noImportable none journal.errors.head?)
      else .ok (journal.transactions.map (writeQbo (fractionOr100 (currencyFraction.getD 100))))

end Qbo

/-! ## Settlements -/

structure PlannedSettlementTransaction where
  record : SettlementRecord
  stamp : Option Cell
  splits : List (SettlementRole × ℚ)

def planSettlement (source : SettlementSource) (records : List SettlementRecord) :
    List PlannedSettlementTransaction :=
  (records.map fun record =>
    { record := record
      stamp := dedupeStamp source record.reference
      splits := buildSettlementSplits record }).filter fun p => p.splits ≠ []

def isLocked (lockDate : Option ℤ) (date : ℤ) : Bool := lockDate.any fun day => date ≤ day

/-- What is left to import: a row with a stamp of the book or a repeated stamp and net is a
duplicate, and a row in the locked period is skipped. -/
def importableSettlements (existingStamps : Cell → Bool) (skipDuplicates : Bool)
    (lockDate : Option ℤ) :
    List (Cell × ℚ) → List PlannedSettlementTransaction → List PlannedSettlementTransaction
  | _, [] => []
  | seenInFile, p :: ps =>
    let keep := fun seen =>
      let later := importableSettlements existingStamps skipDuplicates lockDate seen ps
      if isLocked lockDate p.record.date then later else p :: later
    match p.stamp with
    | none => keep seenInFile
    | some stamp =>
      let fileKey := (stamp, round2 p.record.net)
      if (existingStamps stamp ∨ fileKey ∈ seenInFile) ∧ skipDuplicates then
        importableSettlements existingStamps skipDuplicates lockDate seenInFile ps
      else keep (fileKey :: seenInFile)

def SettlementSource.label : SettlementSource → String
  | .stripe => "Stripe"
  | .square => "Square"
  | .paypal => "PayPal"
  | .shopify => "Shopify"

def SettlementKind.words (kind : SettlementKind) : Cell := replaceFirst '_' ' ' kind.text.toList

def writeSettlement (source : SettlementSource) (fraction : ℤ) (p : PlannedSettlementTransaction) :
    WrittenTransaction SettlementRole :=
  { num := (p.stamp.getD []).take textLimit
    postDate := p.record.date
    description :=
      (if p.record.description = [] then source.label.toList ++ ' ' :: p.record.kind.words
        else p.record.description).take textLimit
    splits := p.splits.map fun split =>
      { account := split.1
        memo := if p.record.reference = [] then []
          else source.label.toList ++ " ref ".toList ++ p.record.reference
        value := fromDecimal split.2 fraction } }

structure BookContext where
  lockDate : Option ℤ
  /-- The fraction of the book's currency, if it has one. -/
  currencyFraction : Option ℤ

inductive ImportCommitError
  | noImportable
  | noCurrency

/-- Write the rows that are left, if any, in the currency of the book. -/
def commitRows {Planned Account : Type} (book : BookContext)
    (write : ℤ → Planned → WrittenTransaction Account) (importable : List Planned) :
    Except ImportCommitError (List (WrittenTransaction Account)) :=
  if importable = [] then .error .noImportable
  else
    match book.currencyFraction with
    | none => .error .noCurrency
    | some fraction => .ok (importable.map (write (fractionOr100 fraction)))

structure SettlementImportInput where
  content : List Char
  locale : ImportLocale
  skipDuplicates : Bool

def commitSettlementImport (toLowerCase toUpperCase : List Char → List Char)
    (source : SettlementSource) (input : SettlementImportInput) (existingStamps : Cell → Bool)
    (book : BookContext) : Except ImportCommitError (List (WrittenTransaction SettlementRole)) :=
  let parsed := parseSettlementCsv toLowerCase toUpperCase input.locale source input.content
  commitRows book (writeSettlement source)
    (importableSettlements existingStamps input.skipDuplicates book.lockDate []
      (planSettlement source parsed.records))

def writePersonal (fraction : ℤ) (txn : PlannedPersonalTransaction) :
    WrittenTransaction PlannedAccountRef :=
  { num := []
    postDate := txn.date
    description := txn.description.take textLimit
    splits := txn.splits.map fun split =>
      { account := split.1
        memo := split.2.1.take textLimit
        value := fromDecimal split.2.2 fraction } }

structure PersonalImportInput where
  content : List Char
  locale : ImportLocale
  options : PersonalPlanOptions

/-- The transactions of the plan that are not locked. -/
def importablePersonal (lockDate : Option ℤ) (plan : PersonalImportPlan) :
    List PlannedPersonalTransaction :=
  plan.transactions.filter fun t => !isLocked lockDate t.date

def commitPersonalImport (toLowerCase : List Char → List Char) (source : PersonalSource)
    (input : PersonalImportInput) (accounts : List BookAccount)
    (existing : List ExistingTransactionKey) (book : BookContext) :
    Except ImportCommitError (List (WrittenTransaction PlannedAccountRef)) :=
  let parsed := parsePersonalCsv toLowerCase source input.content input.locale
  let plan := buildPersonalPlan toLowerCase accounts input.options parsed.records existing
  commitRows book writePersonal (importablePersonal book.lockDate plan)

end Imports
