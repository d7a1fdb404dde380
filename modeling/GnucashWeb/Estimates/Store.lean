import GnucashWeb.Lib.Rows
import GnucashWeb.Lib.Runs
import GnucashWeb.Lib.Sessions
import GnucashWeb.Numbering.Format

/-!
# Estimates of a book

The requests on the estimates of one book, query by query, with a crash after any of them.  The customer
table and the invoice engine answer with a step; dates come parsed.  Beside the estimates stand the
invoices that were made from them and a history.  A statement fails only when its row is gone.
-/

namespace Estimates

open Sessions

/-! ## Data -/

abbrev Guid := ℕ

inductive EstimateStatus
  | draft
  | sent
  | accepted
  | declined
  | converted
deriving DecidableEq

structure EstimateLine where
  description : Option (List Char)
  quantity : ℚ
  unitPrice : ℚ
  incomeAccountGuid : Option Guid
deriving DecidableEq

/-- A row of `gnucash_web_estimates` with its lines in order. -/
structure EstimateRow where
  id : ℕ
  estimateNo : List Char
  customerGuid : Option Guid
  dateCreated : ℤ
  expires : Option ℤ
  status : EstimateStatus
  notes : Option (List Char)
  terms : Option (List Char)
  convertedInvoiceGuid : Option Guid
  lines : List EstimateLine
deriving DecidableEq

structure CreateEstimateInput where
  customerGuid : Option Guid
  dateCreated : ℤ
  expires : Option ℤ
  notes : Option (List Char)
  terms : Option (List Char)
  lines : List EstimateLine
deriving DecidableEq

structure UpdateEstimateInput where
  customerGuid : Option (Option Guid)
  dateCreated : Option ℤ
  expires : Option (Option ℤ)
  notes : Option (Option (List Char))
  terms : Option (Option (List Char))
  lines : Option (List EstimateLine)
  status : Option EstimateStatus
deriving DecidableEq

structure InvoiceEntryInput where
  description : List Char
  quantity : ℚ
  price : ℚ
  accountGuid : Guid
deriving DecidableEq

structure Invoice where
  guid : Guid
  estimateId : ℕ
  ownerGuid : Guid
  notes : List Char
  billingId : List Char
  entries : List InvoiceEntryInput
deriving DecidableEq

inductive Event
  | created (estimateNo : List Char)
  | changed (id : ℕ)
  | converted (id : ℕ)
  | deleted (id : ℕ)
  | removedInvoice (guid : Guid)
deriving DecidableEq

/-- The tables, every invoice that was made, and the history, the last event first. -/
structure Db where
  estimates : List EstimateRow
  nextId : ℕ
  invoices : List Invoice
  history : List Event

/-! ## Pure helpers -/

def canTransitionEstimate (source target : EstimateStatus) : Bool :=
  match source, target with
  | .converted, _ => false
  | _, .converted => false
  | .draft, _ => true
  | .sent, _ => true
  | .accepted, .draft => false
  | .accepted, _ => true
  | .declined, .draft => false
  | .declined, _ => true

/-- The number in `/^EST-(\d+)$/i`. -/
def estimateNumber (no : List Char) : Option ℕ :=
  if (no.take 4).map Char.toUpper = "EST-".toList then Text.readDecimal (no.drop 4) else none

def maxEstimateNumber (existing : List (List Char)) : ℕ :=
  existing.foldl (fun m no => (estimateNumber no).elim m (max m)) 0

def nextEstimateNo (existing : List (List Char)) : List Char :=
  "EST-".toList ++ Numbering.padStart 4 '0' (Text.natDigits (maxEstimateNumber existing + 1))

def estimateLineToInvoiceEntry (l : EstimateLine) : Option InvoiceEntryInput :=
  l.incomeAccountGuid.map fun account => ⟨l.description.getD [], l.quantity, l.unitPrice, account⟩

def estimateLinesToInvoiceEntries (lines : List EstimateLine) : Option (List InvoiceEntryInput) :=
  if lines = [] then none else lines.mapM estimateLineToInvoiceEntry

/-! ## Requests -/

inductive Request
  | createEstimate (input : CreateEstimateInput)
  | updateEstimate (id : ℕ) (input : UpdateEstimateInput)
  | deleteEstimate (id : ℕ)
  | convertEstimateToInvoice (id : ℕ)
deriving DecidableEq

inductive Phase
  | idle
  | reading (req : Request)
  /-- The numbers that the book has, in the transaction that inserts. -/
  | numbering (input : CreateEstimateInput)
  | inserting (input : CreateEstimateInput) (estimateNo : List Char)
  | updating (id : ℕ) (f : EstimateRow → EstimateRow)
  | deleting (id : ℕ)
  | readingLines (row : EstimateRow) (customerGuid : Guid)
  | invoicing (id : ℕ) (invoice : Guid → Invoice)
  | marking (id : ℕ) (invoice : Invoice)
  /-- Delete an invoice whose estimate is gone. -/
  | removing (guid : Guid)

abbrev State := Sys Db Empty Phase

def start : State := ⟨⟨[], 0, [], []⟩, Empty.elim, fun _ => .idle⟩

def Db.find? (db : Db) (id : ℕ) : Option EstimateRow := db.estimates.find? fun r => r.id = id

structure Answer where
  customerFound : Guid → Bool
  invoiceGuid : Option Guid

/-- What an update writes over a row: fields as they were read where none is given. -/
def applyUpdate (seen : EstimateRow) (input : UpdateEstimateInput) (r : EstimateRow) :
    EstimateRow :=
  { r with
    customerGuid := input.customerGuid.getD seen.customerGuid
    dateCreated := input.dateCreated.getD seen.dateCreated
    expires := input.expires.getD seen.expires
    status := input.status.getD seen.status
    notes := input.notes.getD seen.notes
    terms := input.terms.getD seen.terms
    lines := input.lines.getD r.lines }

def createEstimate (a : Answer) (input : CreateEstimateInput) : Phase :=
  if input.lines ≠ [] ∧ input.customerGuid.all a.customerFound then .numbering input else .idle

def updateEstimate (a : Answer) (db : Db) (id : ℕ) (input : UpdateEstimateInput) : Phase :=
  match db.find? id with
  | none => .idle
  | some row =>
    if row.status ≠ .converted ∧ (input.status.all (canTransitionEstimate row.status)) ∧
        input.lines ≠ some [] ∧ input.customerGuid.join.all a.customerFound then
      .updating id (applyUpdate row input)
    else .idle

def deleteEstimate (db : Db) (id : ℕ) : Phase :=
  match db.find? id with
  | none => .idle
  | some row => if row.status = .converted then .idle else .deleting id

def convertEstimateToInvoice (a : Answer) (db : Db) (id : ℕ) : Phase :=
  match db.find? id with
  | none => .idle
  | some row =>
    match row.customerGuid with
    | none => .idle
    | some customer =>
      if row.status ≠ .converted ∧ row.status ≠ .declined ∧ a.customerFound customer then
        .readingLines row customer
      else .idle

def afterRead (a : Answer) (db : Db) : Request → Phase
  | .createEstimate input => createEstimate a input
  | .updateEstimate id input => updateEstimate a db id input
  | .deleteEstimate id => deleteEstimate db id
  | .convertEstimateToInvoice id => convertEstimateToInvoice a db id

def invoiceNotes (row : EstimateRow) : List Char :=
  let text := Text.trim (row.notes.getD [])
  "Converted from estimate ".toList ++ row.estimateNo ++ (if text = [] then [] else '\n' :: text)

def afterLines (db : Db) (row : EstimateRow) (customerGuid : Guid) : Phase :=
  match estimateLinesToInvoiceEntries (((db.find? row.id).map EstimateRow.lines).getD []) with
  | none => .idle
  | some entries => .invoicing row.id fun guid =>
    ⟨guid, row.id, customerGuid, invoiceNotes row, row.estimateNo, entries⟩

/-! ## Writes -/

def Db.numbers (db : Db) : List (List Char) := db.estimates.map EstimateRow.estimateNo

def Db.insert (db : Db) (input : CreateEstimateInput) (estimateNo : List Char) : Db :=
  { db with
    estimates := db.estimates ++ [⟨db.nextId, estimateNo, input.customerGuid, input.dateCreated,
      input.expires, .draft, input.notes, input.terms, none, input.lines⟩]
    nextId := db.nextId + 1
    history := .created estimateNo :: db.history }

/-- An update of a row, which fails when it is gone. -/
def Db.write (db : Db) (id : ℕ) (f : EstimateRow → EstimateRow) (event : Event) : Db :=
  match db.find? id with
  | none => db
  | some _ =>
    { db with
      estimates := Rows.editAt EstimateRow.id id f db.estimates
      history := event :: db.history }

def Db.delete (db : Db) (id : ℕ) : Db :=
  match db.find? id with
  | none => db
  | some _ =>
    { db with
      estimates := db.estimates.filter fun r => r.id ≠ id
      history := .deleted id :: db.history }

def markConverted (guid : Guid) (r : EstimateRow) : EstimateRow :=
  { r with status := .converted, convertedInvoiceGuid := some guid }

inductive Step
  | call (k : ℕ) (req : Request)
  | advance (k : ℕ) (a : Answer)
  | crash (k : ℕ)

def advanceNext (k : ℕ) (a : Answer) (s : State) : Option State :=
  match s.phase k with
  | .idle => none
  | .reading req => some (s.goto k (afterRead a s.db req))
  | .numbering input => some (s.goto k (.inserting input (nextEstimateNo s.db.numbers)))
  | .inserting input estimateNo => some (s.close k (s.db.insert input estimateNo) .idle)
  | .updating id f => some (s.close k (s.db.write id f (.changed id)) .idle)
  | .deleting id => some (s.close k (s.db.delete id) .idle)
  | .readingLines row customerGuid => some (s.goto k (afterLines s.db row customerGuid))
  | .invoicing id invoice =>
    match a.invoiceGuid with
    | none => some (s.goto k .idle)
    | some guid =>
      some (s.close k { s.db with invoices := invoice guid :: s.db.invoices }
        (.marking id (invoice guid)))
  | .marking id invoice =>
    match s.db.find? id with
    | none => some (s.goto k (.removing invoice.guid))
    | some _ =>
      some (s.close k (s.db.write id (markConverted invoice.guid) (.converted id)) .idle)
  | .removing guid =>
    some (s.close k { s.db with history := .removedInvoice guid :: s.db.history } .idle)

def next : Step → State → Option State
  | .call k req, s =>
    match s.phase k with
    | .idle => some (s.goto k (.reading req))
    | _ => none
  | .advance k a, s => advanceNext k a s
  | .crash k, s => some (s.goto k .idle)

end Estimates
