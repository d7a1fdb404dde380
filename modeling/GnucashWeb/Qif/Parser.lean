import GnucashWeb.Imports.Cells
import GnucashWeb.Ledger.Book
import GnucashWeb.Lib.IsoDate

/-!
# The QIF parser

`parseQif` reads a file line by line into accounts, categories and warnings; a date is resolved once
the whole file has been read.  `wholeCents_of_parseQif`: the transactions that are read have amounts
in whole cents, though their splits need not.
-/

namespace Qif

open Ledger (ReconcileState WholeCents round2)
open Text (trim)

abbrev Str := List Char

/-! ## Records -/

inductive QifDateFormat
  | auto
  | us
  | eu
deriving DecidableEq

structure QifSplitRecord where
  category : Option Str
  transfer : Option Str
  memo : Str
  amount : ℚ

structure QifTransactionRecord where
  date : Str
  amount : ℚ
  payee : Str
  memo : Str
  num : Str
  cleared : ReconcileState
  category : Option Str
  transfer : Option Str
  splits : List QifSplitRecord

structure QifAccountRecord where
  name : Str
  type : Str
  description : Str
  transactions : List QifTransactionRecord

structure QifCategoryRecord where
  name : Str
  description : Str
  isIncome : Bool

inductive QifWarning
  | noDate (lineNo : ℕ)
  | unsupportedType (typeName : Str)
  | unsupportedSection (header : Str)
  | unparseableAmount (text : Str) (lineNo : ℕ)
  | unparseableSplitAmount (text : Str) (lineNo : ℕ)
  | unknownFieldCode (code : Char) (lineNo : ℕ)
  | conflictingDateOrders (mdyVotes dmyVotes : ℕ)
  | ambiguousDateOrder
  | invalidDate (rawDate : Str) (lineNo : ℕ)
  | noAmount (label : Str) (lineNo : ℕ)
  | splitsSumTo (label iso : Str) (splitSum amount : ℚ)

structure QifParseResult where
  accounts : List QifAccountRecord
  categories : List QifCategoryRecord
  warnings : List QifWarning

structure RawSplit where
  categoryRaw : Str
  memo : Str
  amount : Option ℚ

structure RawTxn where
  rawDate : Str
  amount : Option ℚ
  payee : Str
  memo : Str
  num : Str
  cleared : ReconcileState
  category : Option Str
  transfer : Option Str
  splits : List RawSplit
  lineNo : ℕ

structure RawAccount where
  name : Str
  type : Str
  description : Str
  rawTxns : List RawTxn

/-! ## Fields -/

/-- `^\d*\.?\d*$`. -/
def isDecimal (s : Str) : Bool :=
  match Text.split '.' s with
  | [whole] => whole.all Char.isDigit
  | [whole, decimals] => whole.all Char.isDigit && decimals.all Char.isDigit
  | _ => false

def takeSign (negative : Bool) : Str → Bool × Str
  | '-' :: s => (true, s)
  | '+' :: s => (negative, s)
  | s => (negative, s)

def parseQifAmount (raw : Str) : Option ℚ :=
  let s := trim raw
  if s = [] then none
  else
    let parentheses := s.head? = some '(' ∧ s.getLast? = some ')'
    let inner := if parentheses then s.tail.dropLast else s
    let (negative, s) := takeSign (decide parentheses)
      (inner.filter fun c => c ≠ ',' ∧ Text.isSpace c = false)
    if isDecimal s = false ∨ s = [] ∨ s = ['.'] then none
    else (Imports.numberOf s).map fun value => if negative then -value else value

structure CategoryField where
  category : Option Str
  transfer : Option Str

/-- A category, or the account between brackets, without the class behind a slash. -/
def parseCategoryField (raw : Str) : CategoryField :=
  let s := trim raw
  let s := if '/' ∈ s then trim (s.takeWhile (· ≠ '/')) else s
  if s = [] then ⟨none, none⟩
  else if s.head? = some '[' ∧ s.getLast? = some ']' then
    let inner := trim s.tail.dropLast
    ⟨none, if inner = [] then none else some inner⟩
  else ⟨some s, none⟩

/-! ## Dates -/

structure DateParts where
  p0 : ℕ
  p1 : ℕ
  year : ℕ

/-- The three numbers of a date, the year last; none if it has another form. -/
def splitDateParts (raw : Str) : Option DateParts :=
  let s := trim raw
  let hasApostrophe := '\'' ∈ s
  let normalized := s.map fun c => if c = '\'' then '/' else c
  let parts := ((normalized.splitOnP (· ∈ ['/', '-', '.'])).map trim).filter (· ≠ [])
  match parts with
  | [p0, p1, rawYear] =>
    if parts.all fun p => p.all Char.isDigit then
      let yy := Imports.number rawYear
      let year :=
        if 3 ≤ rawYear.length then yy
        else if hasApostrophe then 2000 + yy
        else if 70 ≤ yy then 1900 + yy
        else 2000 + yy
      some ⟨Imports.number p0, Imports.number p1, year⟩
    else none
  | _ => none

inductive DateOrder
  | mdy
  | dmy
deriving DecidableEq

def resolveDateOrder (dateFormat : QifDateFormat) (allDates : List (Option DateParts)) :
    DateOrder × List QifWarning :=
  let valid := allDates.filterMap id
  let dmyVotes := (valid.filter fun d => 12 < d.p0 ∧ d.p1 ≤ 12).length
  let mdyVotes := (valid.filter fun d => 12 < d.p1 ∧ d.p0 ≤ 12).length
  match dateFormat with
  | .us => (.mdy, [])
  | .eu => (.dmy, [])
  | .auto =>
    if 0 < dmyVotes ∧ 0 < mdyVotes then
      (if mdyVotes < dmyVotes then .dmy else .mdy, [.conflictingDateOrders mdyVotes dmyVotes])
    else if 0 < dmyVotes then (.dmy, [])
    else if 0 < mdyVotes then (.mdy, [])
    else (.mdy, if valid = [] then [] else [.ambiguousDateOrder])

/-- The last day that a `Date` can hold. -/
def lastDay : ℤ := Civil.newDate 1970 0 1 + 100000000

/-- A day past the end of its month, where the end of the month is a date. -/
def pastMonth (year month day : ℕ) : Bool :=
  decide (Civil.newDate year month 0 ≤ lastDay ∧ Civil.daysInMonth year (month - 1 : ℤ) < day)

def toIsoDate (parts : Option DateParts) (order : DateOrder) : Option Str :=
  match parts with
  | none => none
  | some ⟨p0, p1, year⟩ =>
    let (month, day) := if order = .mdy then (p0, p1) else (p1, p0)
    if month < 1 ∨ 12 < month ∨ day < 1 ∨ 31 < day ∨ year < 1000 then none
    else if pastMonth year month day then none
    else some (Text.natDigits year ++ '-' :: Civil.digits 2 month ++ '-' :: Civil.digits 2 day)

/-! ## Lines -/

inductive Mode
  | none
  | txn
  | account
  | category
  | skip
deriving DecidableEq

structure AccountFields where
  name : Str
  type : Str
  description : Str

/-- What has been read, and the records that are being read. -/
structure ParserState where
  accounts : List RawAccount
  categories : List QifCategoryRecord
  warnings : List QifWarning
  skippedSections : List Str
  mode : Mode
  currentType : Str
  /-- The name of the account that the next transactions belong to. -/
  currentAccount : Option Str
  txn : Option RawTxn
  acctRec : Option AccountFields
  catRec : Option QifCategoryRecord
  unknownCodeWarnings : ℕ

def MAX_UNKNOWN_WARNINGS : ℕ := 10

def BANK_LIKE_TYPES : List Str :=
  ["bank".toList, "cash".toList, "ccard".toList, "oth a".toList, "oth l".toList]

/-- `split(/\r\n|\n|\r/)`. -/
def splitLines : Str → List Str
  | [] => [[]]
  | '\r' :: '\n' :: cs => [] :: splitLines cs
  | '\n' :: cs => [] :: splitLines cs
  | '\r' :: cs => [] :: splitLines cs
  | c :: cs =>
    match splitLines cs with
    | line :: lines => (c :: line) :: lines
    | [] => [[c]]

def orElseStr (a b : Str) : Str := if a = [] then b else a

namespace ParserState

variable (st : ParserState)

def warn (warning : QifWarning) : ParserState := { st with warnings := st.warnings ++ [warning] }

def updateAccount (name : Str) (f : RawAccount → RawAccount) : ParserState :=
  { st with accounts := st.accounts.map fun a => if a.name = name then f a else a }

/-- The account of a name is there, with the type and the description that it lacked. -/
def getOrCreateAccount (name type description : Str) : ParserState :=
  if st.accounts.any fun a => a.name = trim name then
    st.updateAccount (trim name) fun a =>
      { a with
        type := orElseStr a.type type
        description := orElseStr a.description description }
  else { st with accounts := st.accounts ++ [⟨trim name, type, description, []⟩] }

def flushTxn (lineNo : ℕ) : ParserState :=
  match st.txn with
  | none => st
  | some txn =>
    let target := st.currentAccount.getD []
    let st :=
      if st.currentAccount.isNone then st.getOrCreateAccount [] st.currentType [] else st
    let st :=
      if txn.rawDate = [] then st.warn (.noDate lineNo)
      else st.updateAccount target fun a => { a with rawTxns := a.rawTxns ++ [txn] }
    { st with txn := none }

def skipSection (key : Str) (warning : QifWarning) : ParserState :=
  let st := { st with mode := .skip }
  if key ∈ st.skippedSections then st
  else { st.warn warning with skippedSections := key :: st.skippedSections }

variable (toLowerCase : Str → Str)

def readHeader (lineNo : ℕ) (header : Str) : ParserState :=
  let st := { st.flushTxn lineNo with acctRec := none, catRec := none }
  let lower := toLowerCase header
  if "type:".toList <+: lower then
    let typeName := trim (header.drop 5)
    if toLowerCase typeName ∈ BANK_LIKE_TYPES then
      let st := { st with mode := .txn, currentType := typeName }
      match st.currentAccount with
      | some name => st.updateAccount name fun a => { a with type := orElseStr a.type typeName }
      | none => st
    else if toLowerCase typeName = "cat".toList then { st with mode := .category }
    else st.skipSection (toLowerCase typeName) (.unsupportedType typeName)
  else if lower = "account".toList then { st with mode := .account }
  else if "option:".toList <+: lower ∨ "clear:".toList <+: lower then st
  else st.skipSection lower (.unsupportedSection header)

end ParserState

section Fields

variable (toLowerCase : Str → Str)

def parseCleared (raw : Str) : ReconcileState :=
  let c := trim raw
  if c = ['*'] ∨ toLowerCase c = ['c'] then .c
  else if toLowerCase c = ['x'] ∨ toLowerCase c = ['r'] then .y
  else .n

def updateLastSplit (f : RawSplit → RawSplit) (splits : List RawSplit) : List RawSplit :=
  splits.modify (splits.length - 1) f

def RawTxn.blank (lineNo : ℕ) : RawTxn :=
  ⟨[], none, [], [], [], .n, none, none, [], lineNo⟩

namespace ParserState

variable (st : ParserState) (lineNo : ℕ) (code : Char) (value : Str)

def readTxnField : ParserState :=
  let txn := st.txn.getD (.blank lineNo)
  let st := { st with txn := some txn }
  match code with
  | 'D' => { st with txn := some { txn with rawDate := trim value } }
  | 'T' =>
    match parseQifAmount value with
    | none => st.warn (.unparseableAmount (trim value) lineNo)
    | some amt => { st with txn := some { txn with amount := some amt } }
  | 'U' =>
    match parseQifAmount value with
    | none => st.warn (.unparseableAmount (trim value) lineNo)
    | some amt =>
      if txn.amount.isNone then { st with txn := some { txn with amount := some amt } } else st
  | 'P' => { st with txn := some { txn with payee := trim value } }
  | 'M' => { st with txn := some { txn with memo := trim value } }
  | 'N' => { st with txn := some { txn with num := trim value } }
  | 'C' => { st with txn := some { txn with cleared := parseCleared toLowerCase value } }
  | 'L' =>
    let parsed := parseCategoryField value
    { st with
      txn := some { txn with category := parsed.category, transfer := parsed.transfer } }
  | 'S' =>
    { st with txn := some { txn with splits := txn.splits ++ [⟨trim value, [], none⟩] } }
  | 'E' =>
    { st with
      txn := some { txn with
        splits := updateLastSplit (fun s => { s with memo := trim value }) txn.splits } }
  | '$' =>
    if txn.splits = [] then st
    else
      match parseQifAmount value with
      | none => st.warn (.unparseableSplitAmount (trim value) lineNo)
      | some amt =>
        { st with
          txn := some { txn with
            splits := updateLastSplit (fun s => { s with amount := some amt }) txn.splits } }
  | 'A' => st
  | '%' => st
  | '^' => st.flushTxn lineNo
  | _ =>
    if st.unknownCodeWarnings < MAX_UNKNOWN_WARNINGS then
      { st.warn (.unknownFieldCode code lineNo) with
        unknownCodeWarnings := st.unknownCodeWarnings + 1 }
    else st

def readAccountField : ParserState :=
  let acct := st.acctRec.getD ⟨[], [], []⟩
  match code with
  | 'N' => { st with acctRec := some { acct with name := trim value } }
  | 'T' => { st with acctRec := some { acct with type := trim value } }
  | 'D' => { st with acctRec := some { acct with description := trim value } }
  | '^' =>
    let st :=
      if acct.name = [] then st
      else
        { st.getOrCreateAccount acct.name acct.type acct.description with
          currentAccount := some (trim acct.name) }
    { st with acctRec := none }
  | _ => { st with acctRec := some acct }

def readCategoryField : ParserState :=
  let cat := st.catRec.getD ⟨[], [], false⟩
  match code with
  | 'N' => { st with catRec := some { cat with name := trim value } }
  | 'D' => { st with catRec := some { cat with description := trim value } }
  | 'I' => { st with catRec := some { cat with isIncome := true } }
  | 'E' => { st with catRec := some { cat with isIncome := false } }
  | '^' =>
    let st := if cat.name = [] then st else { st with categories := st.categories ++ [cat] }
    { st with catRec := none }
  | _ => { st with catRec := some cat }

def readLine (rawLine : Str) : ParserState :=
  match rawLine.rdropWhile Text.isSpace with
  | [] => st
  | '!' :: header => st.readHeader toLowerCase lineNo (trim header)
  | code :: value =>
    match st.mode with
    | .txn => st.readTxnField toLowerCase lineNo code value
    | .account => st.readAccountField code value
    | .category => st.readCategoryField code value
    | .skip => st
    | .none => st

end ParserState

/-! ## The result -/

def QifSplitRecord.ofRaw (s : RawSplit) : QifSplitRecord :=
  let parsed := parseCategoryField s.categoryRaw
  ⟨parsed.category, parsed.transfer, s.memo, s.amount.getD 0⟩

/-- A transaction with its date and its amount, the sum of the splits where no amount was given. -/
def resolveTxn (order : DateOrder) (t : RawTxn) : Option QifTransactionRecord × List QifWarning :=
  match toIsoDate (splitDateParts t.rawDate) order with
  | none => (none, [.invalidDate t.rawDate t.lineNo])
  | some iso =>
    let splits := t.splits.map QifSplitRecord.ofRaw
    let splitSum := (splits.map QifSplitRecord.amount).sum
    let amount := t.amount.getD splitSum
    let noAmount :=
      if t.amount.isNone ∧ splits = [] then [.noAmount (orElseStr t.payee t.rawDate) t.lineNo]
      else []
    let unbalanced :=
      if splits ≠ [] ∧ 5 / 1000 < |splitSum - amount| then
        [.splitsSumTo (orElseStr t.payee iso) iso splitSum amount]
      else []
    (some
      { date := iso
        amount := round2 amount
        payee := t.payee
        memo := t.memo
        num := t.num
        cleared := t.cleared
        category := t.category
        transfer := t.transfer
        splits := splits },
      noAmount ++ unbalanced)

def resolveAccount (order : DateOrder) (a : RawAccount) : QifAccountRecord × List QifWarning :=
  let resolved := a.rawTxns.map (resolveTxn order)
  (⟨a.name, orElseStr a.type "Bank".toList, a.description, resolved.filterMap Prod.fst⟩,
    resolved.flatMap Prod.snd)

def ParserState.initial : ParserState :=
  ⟨[], [], [], [], .none, "Bank".toList, none, none, none, none, 0⟩

def readLines (content : Str) : ParserState :=
  let text := if content.head? = some '\uFEFF' then content.tail else content
  let lines := splitLines text
  let read := fun (st : ParserState) (line : Str × ℕ) => st.readLine toLowerCase line.2 line.1
  ((lines.zipIdx 1).foldl read .initial).flushTxn lines.length

def parseQif (content : Str) (dateFormat : QifDateFormat) : QifParseResult :=
  let st := readLines toLowerCase content
  let allParts := st.accounts.flatMap fun a => a.rawTxns.map fun t => splitDateParts t.rawDate
  let (order, orderWarnings) := resolveDateOrder dateFormat allParts
  let resolved := st.accounts.map (resolveAccount order)
  { accounts := resolved.map Prod.fst
    categories := st.categories
    warnings := st.warnings ++ orderWarnings ++ resolved.flatMap Prod.snd }

theorem wholeCents_of_resolveTxn {order : DateOrder} {t : RawTxn} {txn : QifTransactionRecord}
    (h : (resolveTxn order t).1 = some txn) : WholeCents txn.amount := by
  unfold resolveTxn at h
  split at h
  · cases h
  · rw [← Option.some.inj h]
    exact Ledger.wholeCents_round2 _

theorem wholeCents_of_parseQif (content : Str) (dateFormat : QifDateFormat) :
    ∀ a ∈ (parseQif toLowerCase content dateFormat).accounts,
      ∀ txn ∈ a.transactions, WholeCents txn.amount := by
  intro a ha txn htxn
  obtain ⟨resolved, hresolved, rfl⟩ := List.mem_map.1 ha
  obtain ⟨raw, -, rfl⟩ := List.mem_map.1 hresolved
  obtain ⟨pair, hpair, hsome⟩ := List.mem_filterMap.1 htxn
  obtain ⟨t, -, rfl⟩ := List.mem_map.1 hpair
  exact wholeCents_of_resolveTxn hsome

end Fields

end Qif
