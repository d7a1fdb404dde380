import GnucashWeb.Edits.Tables
import GnucashWeb.Lib.Statements
import Mathlib.Order.Defs.LinearOrder

/-!
# The routes that write transactions

Create, update and delete of a transaction, the lock date of a book, the bulk edit, the bulk move and
the three reconcile routes, each as the database transaction it makes.  The reads that a route makes
before its transaction are queries like the others: at this isolation level nothing tells them apart.
A route's checks that only repeat an authoritative one on cached values are left out, for all they can
do is refuse.
-/

namespace Edits

open Ledger Statements

abbrev Tx (α : Type) := Txn Db String Failure α

/-! ## Requests -/

structure SplitInput where
  guid : Option String
  accountGuid : String
  value : Amount
  quantityNum : Option ℤ
  quantityDenom : Option ℤ
  memo : Option String
  action : Option String
  reconcileState : Option ReconcileState
deriving DecidableEq, Repr

/-- A split as `processMultiCurrencySplits` gives it back. -/
structure ProcessedSplit where
  guid : Option String
  accountGuid : String
  value : Amount
  quantity : Amount
  memo : Option String
  action : Option String
  reconcileState : Option ReconcileState
deriving DecidableEq, Repr

structure CreateTransactionRequest where
  guid : Option String
  currencyGuid : String
  num : Option String
  postDate : String
  description : String
  splits : List SplitInput
deriving DecidableEq, Repr

/-- The session of a request: its book with the accounts, the time, and the guids that are drawn. -/
structure Caller where
  bookGuid : String
  bookAccountGuids : List String
  now : ℤ
  generateGuid : ℕ → String

structure Recategorize where
  fromAccountGuid : Option String
  toAccountGuid : String
deriving DecidableEq, Repr

inductive DescriptionEdit
  | set (text : String)
  | replace (find replace : String)
deriving DecidableEq, Repr

structure BulkEdit where
  transactionGuids : List String
  anchorAccountGuid : Option String
  description : Option DescriptionEdit
  recategorize : Option Recategorize
deriving DecidableEq, Repr

/-- What the routes use of the language and of the trading-account service. -/
structure Host where
  /-- `new Date(text)`, with no value for an invalid date. -/
  newDate : String → Option ℤ
  replaceDescription : String → String → String → String
  processMultiCurrencySplits : List SplitInput → Db → Except Failure (List ProcessedSplit)

inductive Request
  | create (caller : Caller) (body : CreateTransactionRequest)
  | update (caller : Caller) (guid : String) (originalEnterDate : Option ℤ)
    (body : CreateTransactionRequest)
  | delete (caller : Caller) (guid : String) (originalEnterDate : Option ℤ)
  | setLockDate (bookGuid : String) (lockDate : Option LockDate)
  | bulkEdit (caller : Caller) (edit : BulkEdit)
  | bulkMove (caller : Caller) (splitGuids : List String) (targetAccountGuid : String)
  | reconcileSplit (caller : Caller) (guid : String) (state : ReconcileState) (date : ℤ)
  | reconcileSplits (caller : Caller) (splits : List String) (state : ReconcileState) (date : ℤ)
  | bulkReconcile (caller : Caller) (splits : List String) (state : ReconcileState) (date : ℤ)

structure BulkResult where
  guid : String
  error : Option String
deriving DecidableEq, Repr

/-- What a request has done when it commits. -/
inductive Receipt
  /-- A transaction was created, updated or deleted: the lock date that was checked, and the text of
  its new post date. -/
  | written (bookGuid txGuid : String) (lockDate : Option LockDate) (postDate : Option String)
  | lockDateSet
  | edited (results : List BulkResult)
  | moved (count : ℕ)
  /-- Reconcile states were set, of the splits that the update matches. -/
  | reconciled (updated : Split → Bool)

/-! ## Create, update, delete -/

/-- `/^[a-f0-9]{32}$/i`. -/
def isValidGuid (guid : String) : Bool :=
  guid.toList.length = 32 &&
    guid.toList.all fun c => c.isDigit || ('a' ≤ c && c ≤ 'f') || ('A' ≤ c && c ≤ 'F')

/-- `/^[0-9a-f]{32}$/`. -/
def isLowerGuid (guid : String) : Bool :=
  guid.toList.length = 32 && guid.toList.all fun c => c.isDigit || ('a' ≤ c && c ≤ 'f')

/-- Whether every account of a body is one of the book. -/
def Caller.Owns (c : Caller) (accountGuids : List String) : Prop :=
  c.bookAccountGuids ≠ [] ∧ ∀ g ∈ accountGuids, g ∈ c.bookAccountGuids

instance (c : Caller) (accountGuids : List String) : Decidable (c.Owns accountGuids) :=
  inferInstanceAs (Decidable (_ ∧ _))

section Programs

variable (host : Host)

/-- The splits to write, all of them in the caller's book. -/
def processSplits (c : Caller) (splits : List SplitInput) : Tx (List ProcessedSplit) := do
  let result ← Txn.select (host.processMultiCurrencySplits splits)
  let allSplits ← Txn.check result
  Txn.require (∀ s ∈ allSplits, s.accountGuid ∈ c.bookAccountGuids) .accountsNotInBook
  pure allSplits

def newSplit (c : Caller) (txGuid : String) (s : ProcessedSplit) (i : ℕ) : Split where
  guid := (s.guid.filter isValidGuid).getD (c.generateGuid i)
  txGuid := txGuid
  accountGuid := s.accountGuid
  memo := s.memo.getD ""
  action := s.action.getD ""
  reconcileState := s.reconcileState.getD .n
  reconcileDate := none
  value := s.value
  quantity := s.quantity
  lotGuid := none

/-- `POST /api/transactions`. -/
def create (c : Caller) (body : CreateTransactionRequest) : Tx Receipt := do
  let postDate ← Txn.expect (host.newDate body.postDate) .invalidPostDate
  Txn.require (c.Owns (body.splits.map SplitInput.accountGuid)) .accountsNotInBook
  let txGuid := (body.guid.filter isValidGuid).getD (c.generateGuid 0)
  let lockDate ← Txn.select fun db => db.lockDate? c.bookGuid
  Txn.check (assertNotLocked lockDate [some (.text body.postDate)])
  let allSplits ← processSplits host c body.splits
  Txn.tryWrite (insertTransaction
    ⟨txGuid, body.currencyGuid, body.num.getD "", some postDate, some c.now, some body.description⟩)
  let _ ← each (fun s => Txn.tryWrite (insertSplit s))
    (allSplits.zipIdx.map fun (s, i) => newSplit c txGuid s (i + 1))
  pure (.written c.bookGuid txGuid lockDate (some body.postDate))

/-- The row lock of an update or a delete: the transaction is one of the book when the statement
begins, and the row is read when the lock is free. -/
def lockInBook (c : Caller) (guid : String) : Tx Transaction := do
  let inBook ← Txn.select fun db => db.inBook c.bookAccountGuids guid
  Txn.require inBook .transactionNotFound
  let found ← Txn.lock guid
  Txn.require found .transactionNotFound
  let row ← Txn.select fun db => db.transaction? guid
  Txn.expect row .transactionNotFound

/-- The split row that an update inserts, given the splits that it replaces. -/
def replacedSplit (c : Caller) (txGuid : String) (existing : List Split) (s : ProcessedSplit) (i : ℕ) :
    Split :=
  let guid := (s.guid.filter isLowerGuid).getD (c.generateGuid i)
  let existingSplit := existing.find? fun e => e.guid = guid
  let state := s.reconcileState.getD .n
  { guid := guid
    txGuid := txGuid
    accountGuid := s.accountGuid
    memo := s.memo.getD ""
    action := (s.action.or (existingSplit.map Split.action)).getD ""
    reconcileState := state
    reconcileDate :=
      (existingSplit.filter fun e => e.reconcileState = state).bind Split.reconcileDate
    value := s.value
    quantity := s.quantity
    lotGuid := existingSplit.bind Split.lotGuid }

/-- `PUT /api/transactions/[guid]`. -/
def update (c : Caller) (guid : String) (originalEnterDate : Option ℤ)
    (body : CreateTransactionRequest) : Tx Receipt := do
  let postDate ← Txn.expect (host.newDate body.postDate) .invalidPostDate
  Txn.require (c.Owns (body.splits.map SplitInput.accountGuid)) .accountsNotInBook
  let row ← lockInBook c guid
  Txn.require (row.enterDate = originalEnterDate) .conflict
  let lockDate ← Txn.select fun db => db.lockDate? c.bookGuid
  Txn.check (assertNotLocked lockDate
    [row.postDate.map LockableDate.date, some (.text body.postDate)])
  let existing ← Txn.select fun db => (db, db.splitsOfTx guid)
  Txn.check (assertSplitsNotProtected "edit this transaction" existing.1 existing.2)
  let allSplits ← processSplits host c body.splits
  Txn.tryWrite (updateTransaction guid fun t =>
    { t with
      currencyGuid := body.currencyGuid
      num := body.num.getD ""
      postDate := some postDate
      enterDate := some c.now
      description := some body.description })
  Txn.write (deleteSplits guid)
  let _ ← each (fun s => Txn.tryWrite (insertSplit s))
    (allSplits.zipIdx.map fun (s, i) => replacedSplit c guid existing.2 s i)
  pure (.written c.bookGuid guid lockDate (some body.postDate))

/-- `DELETE /api/transactions/[guid]`. -/
def delete (c : Caller) (guid : String) (originalEnterDate : Option ℤ) : Tx Receipt := do
  Txn.require (c.bookAccountGuids ≠ []) .transactionNotFound
  let row ← lockInBook c guid
  Txn.require (row.enterDate = originalEnterDate) .conflict
  let lockDate ← Txn.select fun db => db.lockDate? c.bookGuid
  Txn.check (assertNotLocked lockDate [row.postDate.map LockableDate.date])
  let existing ← Txn.select fun db => (db, db.splitsOfTx guid)
  Txn.check (assertSplitsNotProtected "delete this transaction" existing.1 existing.2)
  Txn.write (deleteSplits guid)
  Txn.tryWrite (deleteTransaction guid)
  pure (.written c.bookGuid guid lockDate none)

/-- `setLockDate`. -/
def setLockDate (bookGuid : String) (lockDate : Option LockDate) : Tx Receipt := do
  Txn.write (putLockDate bookGuid lockDate)
  pure .lockDateSet

/-! ## Bulk edit -/

structure RecategorizeSplitInfo where
  guid : String
  accountGuid : String
  accountName : Option String
  accountType : Option AccountType
  commodityGuid : Option String
deriving DecidableEq, Repr

/-- The split to move, if any, or why there is no telling which. -/
def selectRecategorizeSplit (splits : List RecategorizeSplitInfo) (recat : Recategorize)
    (anchorAccountGuid : Option String) : Except String (Option RecategorizeSplitInfo) :=
  let base := splits.filter fun s =>
    s.accountType ≠ some .trading ∧ s.accountGuid ≠ recat.toAccountGuid
  let pick (candidates : List RecategorizeSplitInfo) :
      Except String (Option RecategorizeSplitInfo) :=
    if 1 < candidates.length then
      .error ("ambiguous: " ++ toString candidates.length ++ " candidate splits")
    else .ok candidates.head?
  match recat.fromAccountGuid, anchorAccountGuid with
  | some source, _ => pick (base.filter fun s => s.accountGuid = source)
  | none, none => .error "anchor account required to identify the counter-split"
  | none, some anchor =>
    match base.filter fun s => s.accountGuid ≠ anchor with
    | [] =>
      if splits.any fun s => s.accountGuid = recat.toAccountGuid then .ok none
      else .error "no counter-split found"
    | candidates => pick candidates

structure LoadedTransaction where
  guid : String
  description : Option String
  splits : List RecategorizeSplitInfo
deriving DecidableEq, Repr

def loadTransaction (db : Db) (t : Transaction) : LoadedTransaction where
  guid := t.guid
  description := t.description
  splits := (db.splitsOfTx t.guid).map fun s =>
    let account := db.account? s.accountGuid
    ⟨s.guid, s.accountGuid, account.map Account.name, account.map Account.accountType,
      account.bind Account.commodityGuid⟩

/-- Change the description, and say whether anything was written. -/
def editDescription (c : Caller) (edit : Option DescriptionEdit) (t : LoadedTransaction) : Tx Bool :=
  let put (text : String) : Tx Bool := do
    Txn.tryWrite (updateTransaction t.guid fun row =>
      { row with description := some text, enterDate := some c.now })
    pure true
  match edit with
  | some (.set text) => put text
  | some (.replace find replace) =>
    let current := t.description.getD ""
    let next := host.replaceDescription current find replace
    if next ≠ current then put next else pure false
  | none => pure false

/-- Whether a split is the given one and may be moved. -/
def isMovable (guid : String) (s : Split) : Bool := s.guid = guid && !decide (IsProtected s)

def recategorizeSplit (c : Caller) (recat : Recategorize) (txGuid : String) (coreChanged : Bool)
    (move : RecategorizeSplitInfo) : Tx Unit := do
  Txn.onlyIf (coreChanged = false) (Txn.tryWrite (updateTransaction txGuid fun row =>
    { row with enterDate := some c.now }))
  let moved ← Txn.select fun db => (db.splits.filter (isMovable move.guid)).length
  Txn.write (updateSplits (isMovable move.guid) fun s => { s with accountGuid := recat.toAccountGuid })
  Txn.require (moved ≠ 0) (.reconciledSplit "recategorize this transaction"
    [⟨move.guid, txGuid, move.accountGuid, move.accountName, .y⟩])

/-- One transaction of a bulk edit; `live` are the tables after the locks. -/
def editOne (c : Caller) (edit : BulkEdit) (targetCommodityGuid : Option String)
    (loaded : List LoadedTransaction) (live : Db) (guid : String) : Tx BulkResult :=
  match loaded.find? fun t => t.guid = guid with
  | none => pure ⟨guid, some "transaction not found"⟩
  | some t =>
    if t.splits.all fun s => s.accountGuid ∉ c.bookAccountGuids then
      pure ⟨guid, some "transaction not in active book"⟩
    else
      match edit.recategorize with
      | none => do
        let _ ← editDescription host c edit.description t
        pure ⟨guid, none⟩
      | some recat =>
        match selectRecategorizeSplit t.splits recat edit.anchorAccountGuid with
        | .error error => pure ⟨guid, some error⟩
        | .ok none => do
          let _ ← editDescription host c edit.description t
          pure ⟨guid, none⟩
        | .ok (some move) => do
          let liveRow := live.splits.filter fun s =>
            s.guid = move.guid ∧ s.txGuid ∈ edit.transactionGuids
          Txn.check (assertSplitsNotProtected "recategorize this transaction" live liveRow)
          if targetCommodityGuid.any fun target => move.commodityGuid ≠ some target then
            pure ⟨guid, some "currency mismatch with target account"⟩
          else do
            let coreChanged ← editDescription host c edit.description t
            recategorizeSplit c recat guid coreChanged move
            pure ⟨guid, none⟩

def ordered (guids : List String) : List String := guids.eraseDups.mergeSort (· ≤ ·)

def recategorizeTarget (c : Caller) (edit : BulkEdit) : Tx (Option Account) := do
  match edit.recategorize with
  | none => pure none
  | some recat => do
    Txn.require (c.Owns (recat.toAccountGuid ::
      (recat.fromAccountGuid.toList ++ edit.anchorAccountGuid.toList))) .accountsNotInBook
    let target ← Txn.select fun db => db.account? recat.toAccountGuid
    let account ← Txn.expect target .targetNotFound
    pure (some account)

def applyBulkEdit (c : Caller) (edit : BulkEdit) (targetCommodityGuid : Option String) :
    Tx Receipt := do
  let guids := edit.transactionGuids.eraseDups
  let loaded ← Txn.select fun db =>
    (db.transactions.filter fun t => t.guid ∈ guids).map (loadTransaction db)
  Txn.lockAll (ordered guids)
  let postDates ← Txn.select fun db =>
    (db.transactions.filter fun t => t.guid ∈ guids).map Transaction.postDate
  let lockDate ← Txn.select fun db => db.lockDate? c.bookGuid
  Txn.onlyIf (edit.description.isSome || edit.recategorize.isSome)
    (Txn.check (assertNotLocked lockDate (postDates.map fun d => d.map LockableDate.date)))
  let live ← Txn.select fun db => db
  let results ← each (editOne host c edit targetCommodityGuid loaded live) guids
  pure (.edited results)

/-- `PATCH /api/transactions/bulk`. -/
def bulkEdit (c : Caller) (edit : BulkEdit) : Tx Receipt := do
  let target ← recategorizeTarget c edit
  applyBulkEdit host c edit (target.bind Account.commodityGuid)

def touchAll (c : Caller) (txGuids : List String) : Tx (List Unit) :=
  each (fun guid => Txn.write (updateTransactions guid fun t => { t with enterDate := some c.now }))
    txGuids

/-- Whether a split is one of those asked for and in the caller's book. -/
def isRequested (c : Caller) (splitGuids : List String) (s : Split) : Bool :=
  s.guid ∈ splitGuids && s.accountGuid ∈ c.bookAccountGuids

/-- What a bulk move that found too few rows says. -/
def diagnoseMove (c : Caller) (splitGuids : List String) : Tx Unit := do
  let rows ← Txn.select fun db => (db, db.splits.filter (isRequested c splitGuids))
  Txn.require (rows.2.length = splitGuids.length) .splitsNotInBook
  Txn.check (assertSplitsNotProtected "move these splits to another account" rows.1 rows.2)
  Txn.fail .splitsNotInBook

/-- `POST /api/splits/bulk/move`. -/
def bulkMove (c : Caller) (splitGuids : List String) (targetAccountGuid : String) : Tx Receipt := do
  let guids := splitGuids.eraseDups
  Txn.require (targetAccountGuid ∈ c.bookAccountGuids) .targetNotInBook
  let target ← Txn.select fun db => db.account? targetAccountGuid
  let account ← Txn.expect target .targetNotInBook
  let first ← Txn.select fun db => (db, db.splits.filter (isRequested c guids))
  Txn.require (first.2.length = guids.length) .splitsNotInBook
  Txn.require (∀ s ∈ first.2,
    (first.1.account? s.accountGuid).bind Account.commodityGuid = account.commodityGuid)
    .differentCurrencies
  Txn.check (assertSplitsNotProtected "move these splits to another account" first.1 first.2)
  let parents := ordered (first.2.map Split.txGuid)
  Txn.lockAll parents
  let fresh ← Txn.select fun db => (db, db.splits.filter (isRequested c guids))
  Txn.require (fresh.2.length = guids.length) .splitsNotInBook
  Txn.check (assertSplitsNotProtected "move these splits to another account" fresh.1 fresh.2)
  let lockDate ← Txn.select fun db => db.lockDate? c.bookGuid
  Txn.check (assertNotLocked lockDate (fresh.2.map fun s =>
    ((fresh.1.transaction? s.txGuid).bind Transaction.postDate).map LockableDate.date))
  let movable (s : Split) : Bool := isRequested c guids s && !decide (IsProtected s)
  let moved ← Txn.select fun db => (db.splits.filter movable).length
  Txn.write (updateSplits movable fun s => { s with accountGuid := targetAccountGuid })
  Txn.onlyIf (moved ≠ guids.length) (diagnoseMove c guids)
  let _ ← touchAll c parents
  pure (.moved moved)

/-- Set the reconcile state of a split; the date is kept with state `y` only. -/
def setState (state : ReconcileState) (date : ℤ) (s : Split) : Split :=
  { s with reconcileState := state, reconcileDate := if state = .y then some date else none }

/-- `PATCH /api/splits/[guid]/reconcile`. -/
def reconcileSplit (c : Caller) (guid : String) (state : ReconcileState) (date : ℤ) : Tx Receipt := do
  let row ← Txn.select fun db => db.split? guid
  let existing ← Txn.expect row .splitNotFound
  Txn.require (existing.accountGuid ∈ c.bookAccountGuids) .splitNotFound
  let _ ← Txn.lock existing.txGuid
  let updated (s : Split) : Bool := s.guid = guid
  let count ← Txn.select fun db => (db.splits.filter updated).length
  Txn.require (count ≠ 0) .recordNotFound
  Txn.write (updateSplits updated (setState state date))
  Txn.tryWrite (updateTransaction existing.txGuid fun t => { t with enterDate := some c.now })
  pure (.reconciled updated)

/-- `POST /api/splits/[guid]/reconcile`. -/
def reconcileSplits (c : Caller) (splits : List String) (state : ReconcileState) (date : ℤ) :
    Tx Receipt := do
  let targets ← Txn.select fun db => db.splits.filter (isRequested c splits)
  Txn.require (targets ≠ []) .splitsNotInBook
  let parents := ordered (targets.map Split.txGuid)
  Txn.lockAll parents
  let updated (s : Split) : Bool := s.guid ∈ targets.map Split.guid
  Txn.write (updateSplits updated (setState state date))
  let _ ← touchAll c parents
  pure (.reconciled updated)

/-- `POST /api/splits/bulk/reconcile`. -/
def bulkReconcile (c : Caller) (splits : List String) (state : ReconcileState) (date : ℤ) :
    Tx Receipt := do
  let guids := splits.eraseDups
  let targets ← Txn.select fun db => db.splits.filter (isRequested c guids)
  Txn.require (targets.length = guids.length) .splitsNotInBook
  let parents := ordered (targets.map Split.txGuid)
  Txn.lockAll parents
  let count ← Txn.select fun db => (db.splits.filter (isRequested c guids)).length
  Txn.write (updateSplits (isRequested c guids) (setState state date))
  Txn.require (count = guids.length) .splitsNotInBook
  let _ ← touchAll c parents
  pure (.reconciled (isRequested c guids))

/-! ## The system -/

def serve : Request → Tx Receipt
  | .create c body => create host c body
  | .update c guid originalEnterDate body => update host c guid originalEnterDate body
  | .delete c guid originalEnterDate => delete c guid originalEnterDate
  | .setLockDate bookGuid lockDate => setLockDate bookGuid lockDate
  | .bulkEdit c edit => bulkEdit host c edit
  | .bulkMove c splitGuids targetAccountGuid => bulkMove c splitGuids targetAccountGuid
  | .reconcileSplit c guid state date => reconcileSplit c guid state date
  | .reconcileSplits c splits state date => reconcileSplits c splits state date
  | .bulkReconcile c splits state date => bulkReconcile c splits state date

/-- Whether the row that a lock names is there. -/
def present (db : Db) (txGuid : String) : Bool := (db.transaction? txGuid).isSome

abbrev EditStep := Statements.Step Request Failure

abbrev EditSystem := Statements.System Db String Failure Receipt

def next : EditStep → EditSystem → Option EditSystem :=
  Statements.next present fun req => Script.single (serve host req)

end Programs

end Edits
