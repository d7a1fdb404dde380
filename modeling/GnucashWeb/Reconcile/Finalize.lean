import GnucashWeb.Reconcile.Units
import Mathlib.Data.List.Sort

/-!
# Finalizing a reconciliation

The tables that a finalization reads and writes and its stages: the validated read of the selected
splits, the sum of the reconciled ones, and the writes.
-/

open Ledger (Amount Account AccountType ReconcileState Split)
open Transact

namespace Reconcile

/-! ## Rows -/

/-- A transaction; times are milliseconds. -/
structure Transaction where
  guid : String
  currencyGuid : String
  postDate : Option ℤ
  enterDate : Option ℤ
  description : String
deriving DecidableEq, Repr

structure Commodity where
  guid : String
  nameSpace : String
  mnemonic : String
deriving DecidableEq, Repr

structure Book where
  guid : String
  rootAccountGuid : String
deriving DecidableEq, Repr

inductive SessionStatus
  | started | completed | abandoned
deriving DecidableEq, Repr

/-- A row of `gnucash_web_reconciliation_sessions`. -/
structure Session where
  id : String
  bookGuid : String
  accountGuid : String
  userId : Option ℤ
  statementDate : Option ℤ
  status : SessionStatus
  interactionCount : ℤ
  startedAt : ℤ
  completedAt : Option ℤ
  endingDifference : Option ℚ
  statementEndingBalance : Option String
deriving DecidableEq, Repr

inductive ActionState
  | «open» | snoozed | accepted | resolved | dismissed | expired
deriving DecidableEq, Repr

/-- A row of `gnucash_web_financial_actions`. -/
structure FinancialAction where
  userId : ℤ
  bookGuid : String
  origin : String
  sourceId : String
  state : ActionState
deriving DecidableEq, Repr

/-- The tables, and the number of guids drawn so far. -/
structure Db where
  accounts : List Account
  commodities : List Commodity
  books : List Book
  transactions : List Transaction
  splits : List Split
  sessions : List Session
  actions : List FinancialAction
  drawn : ℕ
deriving DecidableEq, Repr

/-- What the program takes from the language. -/
structure Host where
  generateGuid : ℕ → String
  now : ℤ

abbrev Tx (α : Type) := StateT Db (Except Failure) α

namespace Db

variable (db : Db)

def account? (guid : String) : Option Account := db.accounts.find? fun a => a.guid = guid

def transaction? (guid : String) : Option Transaction :=
  db.transactions.find? fun t => t.guid = guid

def postDate (s : Split) : Option ℤ := (db.transaction? s.txGuid).bind Transaction.postDate

def reconciled (accountGuid : String) : List Split :=
  db.splits.filter fun s => s.accountGuid = accountGuid ∧ s.reconcileState = .y

end Db

structure ReconciliationCompletion where
  bookGuid : String
  userId : ℤ
  sessionId : Option String
  interactionDelta : Option ℚ
deriving DecidableEq, Repr

structure FinalizeInput where
  statementDate : ℤ
  endingBalance : String
  splitGuids : List String
  completion : Option ReconciliationCompletion
  createAdjustment : Bool
  commodityScu : ℤ
deriving DecidableEq, Repr

namespace FinalizeInput

variable (input : FinalizeInput)

def uniqueGuids : List String := input.splitGuids.eraseDups

end FinalizeInput

def statementDateCutoff (statementDate : ℤ) : ℤ :=
  statementDate / 86400000 * 86400000 + 86399999

/-! ## Reads -/

def check (c : Prop) [Decidable c] (failure : Failure) : Except Failure Unit :=
  if c then .ok () else .error failure

/-- Fail when some splits stand in the way. -/
def refuse (offending : List Split) (failure : List String → Failure) : Except Failure Unit :=
  check (offending = []) (failure (offending.map Split.guid))

def sumUnits (scu : ℤ) : List Split → Except Failure ℤ
  | [] => .ok 0
  | s :: splits => do
    let units ← splitToUnits s.quantity scu
    let rest ← sumUnits scu splits
    pure (units + rest)

/-- The validated read of the selected splits, with the sum of their quantities. -/
def readSelected (accountGuid : String) (input : FinalizeInput) (db : Db) : Except Failure ℤ :=
  if input.uniqueGuids = [] then .ok 0
  else do
    let selected := db.splits.filter fun s => s.guid ∈ input.uniqueGuids
    -- the row of a transaction comes with each split
    check (∀ s ∈ selected, (db.transaction? s.txGuid).isSome) .database
    check (selected.length = input.uniqueGuids.length)
      (.splitsNotFound (input.uniqueGuids.filter fun g => g ∉ selected.map Split.guid))
    refuse (selected.filter fun s => s.accountGuid ≠ accountGuid) .wrongAccount
    refuse (selected.filter fun s => s.reconcileState = .y) .alreadyReconciled
    -- a transaction without a post date passes
    refuse (selected.filter fun s =>
      ∃ d ∈ db.postDate s, statementDateCutoff input.statementDate < d) .postedAfterStatement
    sumUnits input.commodityScu selected

/-- Whether a number fits a `bigint` column. -/
def fitsBigint (n : ℤ) : Bool := -2 ^ 63 ≤ n && n < 2 ^ 63

/-- The balance of the reconciled splits in units; a quotient with a fraction is refused, whatever
the sum. -/
def summarizeReconciled (accountGuid : String) (scu : ℤ) (db : Db) : Except Failure ℤ :=
  let rows := db.reconciled accountGuid
  let units := (rows.map fun s => (s.quantity.num * scu).tdiv s.quantity.denom).sum
  if rows.any fun s => s.quantity.denom = 0 then .error .database
  else if rows.any fun s => (s.quantity.num * scu).tmod s.quantity.denom ≠ 0 then
    .error .reconciledSplitNotRepresentable
  else if fitsBigint units then .ok units
  else .error .database

/-! ## Writes -/

variable (host : Host)

def generateGuid : Tx String := do
  let db ← get
  set { db with drawn := db.drawn + 1 }
  pure (host.generateGuid db.drawn)

def createTransaction (t : Transaction) : Tx Unit := do
  let db ← get
  if (db.transaction? t.guid).isSome then throw .database
  else set { db with transactions := db.transactions ++ [t] }

/-- Create splits, whose guids are new and whose amounts fit their columns. -/
def createSplits (rows : List Split) : Tx Unit := do
  let db ← get
  if ((db.splits ++ rows).map Split.guid).Nodup ∧
      rows.all (fun s => fitsBigint s.value.num && fitsBigint s.quantity.num) then
    set { db with splits := db.splits ++ rows }
  else throw .database

/-- `findOrCreateAccount`: the account at a path below the root, made where it is missing. -/
def findOrCreateFrom (currencyGuid : String) : String → List String → Tx String
  | parentGuid, [] => pure parentGuid
  | parentGuid, segment :: segments => do
    let db ← get
    match db.accounts.find? fun a => a.name = segment ∧ a.parentGuid = some parentGuid with
    | some existing => findOrCreateFrom currencyGuid existing.guid segments
    | none => do
      let newGuid ← generateGuid host
      modify fun db => { db with
        accounts := db.accounts ++
          [⟨newGuid, segment, .income, some currencyGuid, 100, some parentGuid⟩] }
      findOrCreateFrom currencyGuid newGuid segments

def findOrCreateAccount (path bookRootGuid currencyGuid : String) : Tx String :=
  findOrCreateFrom host currencyGuid bookRootGuid
    ((Text.split ':' path.toList).map String.ofList)

/-- Make the difference a reconciled split of the account, against the imbalance account. -/
def createAdjustment (accountGuid : String) (input : FinalizeInput) (differenceUnits : ℤ) :
    Tx Unit := do
  let db ← get
  let book := db.books.find? fun b => b.guid = (input.completion.map
    ReconciliationCompletion.bookGuid).getD ""
  match (db.account? accountGuid).bind Account.commodityGuid, book with
  | some commodityGuid, some book => do
    let commodity := db.commodities.find? fun c => c.guid = commodityGuid
    liftM (check (∀ c ∈ commodity, c.nameSpace = "" ∨ c.nameSpace = "CURRENCY") .shareAdjustment)
    let imbalanceAccountGuid ← findOrCreateAccount host
      ("Imbalance-" ++ (commodity.map Commodity.mnemonic).getD "Adjustment")
      book.rootAccountGuid commodityGuid
    let adjustmentTxGuid ← generateGuid host
    createTransaction ⟨adjustmentTxGuid, commodityGuid, some input.statementDate, some host.now,
      "Reconciliation adjustment"⟩
    let accountSplit ← generateGuid host
    let imbalanceSplit ← generateGuid host
    let amount : Amount := ⟨differenceUnits, input.commodityScu⟩
    let opposite : Amount := ⟨-differenceUnits, input.commodityScu⟩
    createSplits
      [⟨accountSplit, adjustmentTxGuid, accountGuid, "Reconciliation adjustment", "", .y,
          some input.statementDate, amount, amount, none⟩,
        ⟨imbalanceSplit, adjustmentTxGuid, imbalanceAccountGuid, "Reconciliation adjustment", "", .n,
          none, opposite, opposite, none⟩]
  | _, _ => throw .noCommodityOrBookRoot

def mark (accountGuid : String) (input : FinalizeInput) (s : Split) : Split :=
  if s.guid ∈ input.uniqueGuids ∧ s.accountGuid = accountGuid then
    { s with reconcileState := .y, reconcileDate := some input.statementDate }
  else s

/-- Mark the selected splits, and invalidate the edits of their transactions. -/
def markReconciled (accountGuid : String) (input : FinalizeInput) : Tx ℕ := do
  let db ← get
  if input.uniqueGuids = [] then pure 0
  else do
    let parents := (db.splits.filter fun s => s.guid ∈ input.uniqueGuids).map Split.txGuid
    let touch (t : Transaction) : Transaction :=
      if t.guid ∈ parents then { t with enterDate := some host.now } else t
    modify fun db => { db with
      splits := db.splits.map (mark accountGuid input)
      transactions := db.transactions.map touch }
    pure (db.splits.filter fun s =>
      s.guid ∈ input.uniqueGuids ∧ s.accountGuid = accountGuid).length

def Session.complete (input : FinalizeInput) (differenceUnits : ℤ)
    (completion : ReconciliationCompletion) (s : Session) : Session :=
  { s with
    status := .completed
    completedAt := some host.now
    interactionCount := s.interactionCount + max 0 ⌊completion.interactionDelta.getD 0⌋
    endingDifference := some (differenceUnits / input.commodityScu)
    statementEndingBalance := some input.endingBalance }

def Session.isOwn (accountGuid : String) (completion : ReconciliationCompletion) (s : Session) :
    Bool :=
  s.bookGuid = completion.bookGuid ∧ s.accountGuid = accountGuid ∧
    s.userId = some completion.userId

def latestStarted (accountGuid : String) (input : FinalizeInput)
    (completion : ReconciliationCompletion) (sessions : List Session) : Option Session :=
  ((sessions.filter fun s => s.isOwn accountGuid completion ∧
    s.statementDate = some input.statementDate ∧ s.status = .started).insertionSort
      fun a b => b.startedAt ≤ a.startedAt).head?

/-- Complete the named session, else the latest that was started for the statement, else a new
one. -/
def completeSession (accountGuid : String) (input : FinalizeInput) (differenceUnits : ℤ)
    (completion : ReconciliationCompletion) : Tx Unit := do
  let db ← get
  let complete := Session.complete host input differenceUnits completion
  let named (s : Session) : Bool :=
    s.isOwn accountGuid completion ∧ completion.sessionId = some s.id ∧ s.id ≠ ""
  let completeWhere (p : Session → Bool) : Tx Unit :=
    modify fun db => { db with sessions := db.sessions.map fun s => if p s then complete s else s }
  if db.sessions.any named then completeWhere named
  else
    match latestStarted accountGuid input completion db.sessions with
    | some latest => completeWhere fun s => s.id = latest.id
    | none => do
      let id ← generateGuid host
      modify fun db => { db with
        sessions := db.sessions ++ [complete ⟨id, completion.bookGuid, accountGuid,
          some completion.userId, some input.statementDate, .started, 0, host.now, none, none,
          none⟩] }

/-- Resolve the open actions that asked for the reconciliation. -/
def resolveActions (accountGuid : String) (completion : ReconciliationCompletion) : Tx Unit :=
  let asked (a : FinancialAction) : Bool :=
    a.userId = completion.userId ∧ a.bookGuid = completion.bookGuid ∧
      a.origin = "statement_reconciliation" ∧ a.sourceId = accountGuid ∧
      a.state ∈ [ActionState.open, .snoozed, .accepted]
  modify fun db => { db with
    actions := db.actions.map fun a => if asked a then { a with state := .resolved } else a }

/-- The stages after the sums: the difference to the ending balance, and all that is written.  The
result is the number of splits marked. -/
def writeFinalization (accountGuid : String) (input : FinalizeInput)
    (selectedUnits reconciledUnits : ℤ) : Tx ℕ := do
  let endingUnits ← liftM (decimalToUnits input.endingBalance input.commodityScu)
  let differenceUnits := endingUnits - (reconciledUnits + selectedUnits)
  onlyIf (differenceUnits ≠ 0) <|
    if input.createAdjustment then createAdjustment host accountGuid input differenceUnits
    else throw (.differenceNotZero differenceUnits)
  let updated ← markReconciled host accountGuid input
  input.completion.forM fun completion => do
    completeSession host accountGuid input differenceUnits completion
    resolveActions accountGuid completion
  pure updated

end Reconcile
