import GnucashWeb.Ledger.Amount
import GnucashWeb.Lib.IsoDate
import GnucashWeb.Lib.Rows
import GnucashWeb.Lib.Runs
import GnucashWeb.Lib.Sessions
import GnucashWeb.Lib.Text
import Mathlib.Data.List.Sort

/-!
# Time entries and their invoices

The requests on tracked time, query by query.  What other tables answer (jobs, customers, the invoice
engine) and the clock come with a step; dates come parsed.  Beside the entries stand the invoices that
were made from them, each line with the entry it is made for, and a history.
-/

namespace TimeTracking

open Sessions

/-! ## Data -/

abbrev Guid := ℕ

/-- A row of `gnucash_web_time_entries`.  Days and instants are counted, the latter in
milliseconds. -/
structure TimeEntryRow where
  id : ℕ
  bookGuid : Guid
  userId : ℕ
  customerGuid : Option Guid
  jobGuid : Option Guid
  entryDate : ℤ
  minutes : ℤ
  rate : Option ℚ
  description : List Char
  billable : Bool
  invoicedInvoiceGuid : Option Guid
  timerStartedAt : Option ℤ
deriving DecidableEq

/-- A refused date is none; an absent rate asks for the default. -/
structure TimeEntryInput where
  customerGuid : Option Guid
  jobGuid : Option Guid
  entryDate : Option ℤ
  minutes : ℚ
  rate : Option (Option ℚ)
  description : Option (List Char)
  billable : Option Bool
deriving DecidableEq

structure TimeEntryPatch where
  customerGuid : Option (Option Guid)
  jobGuid : Option (Option Guid)
  entryDate : Option (Option ℤ)
  minutes : Option ℚ
  rate : Option (Option ℚ)
  description : Option (List Char)
  billable : Option Bool
deriving DecidableEq

structure StartTimerInput where
  customerGuid : Option Guid
  jobGuid : Option Guid
  description : Option (List Char)
deriving DecidableEq

structure InvoiceEntryInput where
  description : List Char
  date : ℤ
  quantity : ℚ
  price : ℚ
  accountGuid : Guid
deriving DecidableEq

/-- An invoice made from time entries, with the entry of each line. -/
structure Invoice where
  guid : Guid
  bookGuid : Guid
  ownerGuid : Guid
  entries : List (ℕ × InvoiceEntryInput)
deriving DecidableEq

inductive Event
  | invoiced (ids : List ℕ)
  | edited (id : ℕ)
  | deleted (id : ℕ)
  /-- A timer was stopped: the entry as it was and as it is written. -/
  | stopped (before after : TimeEntryRow) (now : ℤ)
deriving DecidableEq

/-- The tables and the history, the last event first. -/
structure Db where
  entries : List TimeEntryRow
  nextId : ℕ
  invoices : List Invoice
  history : List Event

def Db.find? (db : Db) (id : ℕ) : Option TimeEntryRow := db.entries.find? fun r => r.id = id

structure Answer where
  now : ℤ
  /-- Owner type and owner of a job of the book. -/
  job : Guid → Option (ℕ × Option Guid)
  jobRate : Guid → Option ℚ
  jobName : Guid → Option (List Char)
  customerOwned : Guid → Bool
  /-- The invoice that the engine creates, if it does. -/
  invoiceGuid : Option Guid

/-! ## Pure helpers -/

def minutesToHours (minutes : ℤ) : ℚ := Ledger.round2 (minutes / 60)

/-- Whole minutes since the timer started, at least one. -/
def computeElapsedMinutes (startedAt now : ℤ) : ℤ :=
  max 1 (Ledger.mathRound ((now - startedAt : ℤ) / 60000))

def joined (parts : List (List Char)) : List Char := (" — ".toList).intercalate parts

/-- The line of an entry, unless it has no rate or no time. -/
def buildInvoiceEntryInput (jobName : Guid → Option (List Char)) (accountGuid : Guid)
    (e : TimeEntryRow) : Option (ℕ × InvoiceEntryInput) :=
  match e.rate with
  | none => none
  | some rate =>
    if e.minutes ≤ 0 then none
    else
      let name := (e.jobGuid.bind jobName).filter fun name => name ≠ []
      let text := Text.trim e.description
      let parts := Civil.isoText e.entryDate :: name.toList ++
        [if text = [] then "Time".toList else text]
      some (e.id, ⟨joined parts, e.entryDate, minutesToHours e.minutes, rate, accountGuid⟩)

def buildInvoiceEntryInputs (jobName : Guid → Option (List Char)) (accountGuid : Guid)
    (rows : List TimeEntryRow) : Option (List (ℕ × InvoiceEntryInput)) :=
  rows.mapM (buildInvoiceEntryInput jobName accountGuid)

/-- The customer and the job of an entry, if they go together. -/
def validateCustomerJob (a : Answer) (customerGuid jobGuid : Option Guid) :
    Option (Option Guid × Option Guid) := do
  let effectiveCustomer ←
    match jobGuid with
    | none => some customerGuid
    | some job =>
      match a.job job with
      | some (2, some owner) =>
        if customerGuid.all fun c => c = owner then some (some owner) else none
      | _ => none
  if effectiveCustomer.all a.customerOwned then some (effectiveCustomer, jobGuid) else none

/-- The job's rate, else that of the customer's last entry with one. -/
def resolveDefaultRate (a : Answer) (entries : List TimeEntryRow) (bookGuid : Guid)
    (customerGuid jobGuid : Option Guid) : Option ℚ :=
  match (jobGuid.bind a.jobRate).filter fun rate => 0 < rate with
  | some rate => some rate
  | none => do
      let customer ← customerGuid
      let rated := entries.filter fun r =>
        r.bookGuid = bookGuid && r.customerGuid = some customer && r.rate.isSome
      let last ← (rated.insertionSort fun r r' =>
        r'.entryDate < r.entryDate ∨ r.entryDate = r'.entryDate ∧ r'.id ≤ r.id).head?
      last.rate

/-! ## Requests -/

inductive Request
  | createTimeEntry (bookGuid : Guid) (userId : ℕ) (input : TimeEntryInput)
  | startTimer (bookGuid : Guid) (userId : ℕ) (input : StartTimerInput)
  | stopTimer (bookGuid : Guid) (userId : ℕ)
  | updateTimeEntry (bookGuid : Guid) (id : ℕ) (patch : TimeEntryPatch) (scope : Option ℕ)
  | deleteTimeEntry (bookGuid : Guid) (id : ℕ) (scope : Option ℕ)
  | generateInvoiceLines (bookGuid customerGuid : Guid) (entryIds : List ℕ)
      (incomeAccountGuid : Guid)
deriving DecidableEq

inductive Phase
  | idle
  | reading (req : Request)
  /-- Look for a running timer before one is started. -/
  | starting (row : TimeEntryRow)
  /-- Insert an entry, whose id the table gives. -/
  | inserting (row : TimeEntryRow)
  | stopping (seen : TimeEntryRow) (now : ℤ)
  | updating (id : ℕ) (f : TimeEntryRow → TimeEntryRow)
  | deleting (id : ℕ)
  | invoicing (invoice : Guid → Invoice) (uniqueIds : List ℕ)
  | marking (invoiceGuid : Guid) (uniqueIds : List ℕ)

abbrev State := Sys Db Empty Phase

def start : State := ⟨⟨[], 0, [], []⟩, Empty.elim, fun _ => .idle⟩

/-- A number of minutes or none, where a fraction is refused. -/
def validMinutes (minutes : ℚ) : Bool := minutes.isInt && 0 ≤ minutes

def validRate (rate : Option ℚ) : Bool := rate.all fun r => 0 ≤ r

def createTimeEntry (a : Answer) (db : Db) (bookGuid : Guid) (userId : ℕ)
    (input : TimeEntryInput) : Phase :=
  match input.entryDate with
  | none => .idle
  | some entryDate =>
    if validMinutes input.minutes && validRate input.rate.join then
      match validateCustomerJob a input.customerGuid input.jobGuid with
      | none => .idle
      | some (customerGuid, jobGuid) =>
        let rate := input.rate.getD
          (resolveDefaultRate a db.entries bookGuid customerGuid jobGuid)
        .inserting ⟨0, bookGuid, userId, customerGuid, jobGuid, entryDate, input.minutes.num,
          rate, input.description.getD [], input.billable.getD true, none, none⟩
    else .idle

/-- The customer and job and the default rate, before the transaction. -/
def startTimer (a : Answer) (db : Db) (bookGuid : Guid) (userId : ℕ) (input : StartTimerInput) :
    Phase :=
  match validateCustomerJob a input.customerGuid input.jobGuid with
  | none => .idle
  | some (customerGuid, jobGuid) =>
    let rate := resolveDefaultRate a db.entries bookGuid customerGuid jobGuid
    .starting ⟨0, bookGuid, userId, customerGuid, jobGuid, a.now / 86400000, 0, rate,
      input.description.getD [], true, none, some a.now⟩

/-- The entries of a user whose timers run. -/
def Db.running (db : Db) (bookGuid : Guid) (userId : ℕ) : List TimeEntryRow :=
  db.entries.filter fun r =>
    r.bookGuid = bookGuid && r.userId = userId && r.timerStartedAt.isSome

def stopTimer (a : Answer) (db : Db) (bookGuid : Guid) (userId : ℕ) : Phase :=
  match ((db.running bookGuid userId).insertionSort fun r r' => r'.id ≤ r.id).head? with
  | none => .idle
  | some running => .stopping running a.now

def Db.open? (db : Db) (bookGuid : Guid) (id : ℕ) (scope : Option ℕ) : Option TimeEntryRow :=
  (db.find? id).filter fun existing =>
    existing.bookGuid = bookGuid && scope.all (fun userId => existing.userId = userId) &&
      existing.invoicedInvoiceGuid.isNone

def applyPatch (patch : TimeEntryPatch) (customerGuid jobGuid : Option Guid)
    (r : TimeEntryRow) : TimeEntryRow :=
  { r with
    customerGuid
    jobGuid
    entryDate := (patch.entryDate.join).getD r.entryDate
    minutes := (patch.minutes.map Rat.num).getD r.minutes
    rate := patch.rate.getD r.rate
    description := patch.description.getD r.description
    billable := patch.billable.getD r.billable }

def updateTimeEntry (a : Answer) (db : Db) (bookGuid : Guid) (id : ℕ) (patch : TimeEntryPatch)
    (scope : Option ℕ) : Phase :=
  match db.open? bookGuid id scope with
  | none => .idle
  | some existing =>
    if patch.minutes.all validMinutes && validRate patch.rate.join then
      match validateCustomerJob a (patch.customerGuid.getD existing.customerGuid)
          (patch.jobGuid.getD existing.jobGuid) with
      | none => .idle
      | some (customerGuid, jobGuid) =>
        if patch.entryDate = some none then .idle
        else .updating id (applyPatch patch customerGuid jobGuid)
    else .idle

def deleteTimeEntry (db : Db) (bookGuid : Guid) (id : ℕ) (scope : Option ℕ) : Phase :=
  match db.open? bookGuid id scope with
  | none => .idle
  | some _ => .deleting id

/-- An entry that can go on an invoice of a customer. -/
def Billable (customerGuid : Guid) (r : TimeEntryRow) : Bool :=
  r.invoicedInvoiceGuid.isNone && r.billable && r.timerStartedAt.isNone &&
    r.customerGuid = some customerGuid

def generateInvoiceLines (a : Answer) (db : Db) (bookGuid customerGuid : Guid)
    (entryIds : List ℕ) (incomeAccountGuid : Guid) : Phase :=
  if entryIds ≠ [] ∧ a.customerOwned customerGuid then
    let uniqueIds := entryIds.dedup
    let rows := db.entries.filter fun r => r.id ∈ uniqueIds ∧ r.bookGuid = bookGuid
    if rows.length = uniqueIds.length ∧ rows.all (Billable customerGuid) then
      let sorted := rows.insertionSort fun r r' =>
        r.entryDate < r'.entryDate ∨ r.entryDate = r'.entryDate ∧ r.id ≤ r'.id
      match buildInvoiceEntryInputs a.jobName incomeAccountGuid sorted with
      | none => .idle
      | some entries => .invoicing (fun guid => ⟨guid, bookGuid, customerGuid, entries⟩) uniqueIds
    else .idle
  else .idle

def afterRead (a : Answer) (db : Db) : Request → Phase
  | .createTimeEntry bookGuid userId input => createTimeEntry a db bookGuid userId input
  | .startTimer bookGuid userId input => startTimer a db bookGuid userId input
  | .stopTimer bookGuid userId => stopTimer a db bookGuid userId
  | .updateTimeEntry bookGuid id patch scope => updateTimeEntry a db bookGuid id patch scope
  | .deleteTimeEntry bookGuid id scope => deleteTimeEntry db bookGuid id scope
  | .generateInvoiceLines bookGuid customerGuid entryIds incomeAccountGuid =>
    generateInvoiceLines a db bookGuid customerGuid entryIds incomeAccountGuid

/-! ## Writes -/

def Db.insert (db : Db) (row : TimeEntryRow) : Db :=
  { db with
    entries := db.entries ++ [{ row with id := db.nextId }]
    nextId := db.nextId + 1 }

def Db.update (db : Db) (id : ℕ) (f : TimeEntryRow → TimeEntryRow)
    (event : TimeEntryRow → Event) : Db :=
  match db.find? id with
  | none => db
  | some r =>
    { db with
      entries := Rows.editAt TimeEntryRow.id id f db.entries
      history := event r :: db.history }

def stopped (seen : TimeEntryRow) (now : ℤ) (r : TimeEntryRow) : TimeEntryRow :=
  { r with
    minutes := seen.minutes + (seen.timerStartedAt.elim 0 fun t => computeElapsedMinutes t now)
    timerStartedAt := none }

def Db.delete (db : Db) (id : ℕ) : Db :=
  match db.find? id with
  | none => db
  | some _ =>
    { db with
      entries := db.entries.filter fun r => r.id ≠ id
      history := .deleted id :: db.history }

def Db.addInvoice (db : Db) (invoice : Invoice) : Db :=
  { db with
    invoices := invoice :: db.invoices
    history := .invoiced (invoice.entries.map Prod.fst) :: db.history }

def Db.mark (db : Db) (invoiceGuid : Guid) (ids : List ℕ) : Db :=
  { db with
    entries := db.entries.map fun r =>
      if r.id ∈ ids then { r with invoicedInvoiceGuid := some invoiceGuid } else r }

inductive Step
  | call (k : ℕ) (req : Request)
  | advance (k : ℕ) (a : Answer)

def advanceNext (k : ℕ) (a : Answer) (s : State) : Option State :=
  match s.phase k with
  | .idle => none
  | .reading req => some (s.goto k (afterRead a s.db req))
  | .starting row =>
    if s.db.running row.bookGuid row.userId = [] then some (s.goto k (.inserting row))
    else some (s.goto k .idle)
  | .inserting row => some (s.close k (s.db.insert row) .idle)
  | .stopping seen now =>
    some (s.close k (s.db.update seen.id (stopped seen now) fun r =>
      .stopped r (stopped seen now r) now) .idle)
  | .updating id f => some (s.close k (s.db.update id f fun _ => .edited id) .idle)
  | .deleting id => some (s.close k (s.db.delete id) .idle)
  | .invoicing invoice uniqueIds =>
    match a.invoiceGuid with
    | none => some (s.goto k .idle)
    | some guid => some (s.close k (s.db.addInvoice (invoice guid)) (.marking guid uniqueIds))
  | .marking guid uniqueIds => some (s.close k (s.db.mark guid uniqueIds) .idle)

def next : Step → State → Option State
  | .call k req, s =>
    match s.phase k with
    | .idle => some (s.goto k (.reading req))
    | _ => none
  | .advance k a, s => advanceNext k a s

end TimeTracking
