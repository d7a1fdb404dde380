import GnucashWeb.Lib.Statements
import GnucashWeb.SimpleFin.Matching

/-!
# How a sync records the rows of a feed

The row loop of `runSimpleFinSync` as the database transactions it makes: the lookup of the ids that
are recorded already, then for each row the two matchers and the import.  What a sync does to the
accounts and to its cursors is left out, and so is the lock that keeps two runs over one connection
apart: without it the runs interleave in more ways.
-/

namespace SimpleFin.Import

open Edits (Transaction LockDate)
open Ledger (Split ReconcileState)
open Rows Statements

inductive Failure
  /-- The unique index on the first id column is violated. -/
  | duplicate
  | other
deriving DecidableEq, Repr

abbrev Tx (α : Type) := Txn Db String Failure α

/-! ## Writes -/

variable (host : Host)

def checkIndex (db : Db) : Option Db :=
  if host.indexed = true ∧ ¬(db.metas.filterMap Meta.simplefinTransactionId).Nodup then none
  else some db

/-- `transactions.create`: fails when the guid is taken. -/
def insertTransaction (t : Transaction) (db : Db) : Option Db :=
  if t.guid ∈ db.transactions.map Transaction.guid then none
  else some { db with transactions := db.transactions ++ [t] }

/-- `splits.create`: fails when the guid is taken. -/
def insertSplit (s : Split) (db : Db) : Option Db :=
  if s.guid ∈ db.splits.map Split.guid then none else some { db with splits := db.splits ++ [s] }

/-- `gnucash_web_transaction_meta.create`: fails when the transaction has a row. -/
def insertMeta (m : Meta) (db : Db) : Option Db :=
  if m.transactionGuid ∈ (db.metas.map Meta.transactionGuid).filter Option.isSome then none
  else checkIndex host { db with metas := db.metas ++ [m] }

def updateMetas (txGuid : String) (f : Meta → Meta) (db : Db) : Db :=
  { db with metas := editAt Meta.transactionGuid (some txGuid) f db.metas }

/-- `gnucash_web_transaction_meta.update`: fails when there is no such row. -/
def updateMeta (txGuid : String) (f : Meta → Meta) (db : Db) : Option Db :=
  if (db.meta? txGuid).isSome then checkIndex host (updateMetas txGuid f db) else none

def report (d : Done) (db : Db) : Db := { db with done := d :: db.done }

/-! ## One row -/

/-- What an import is told of its row: the guids that are drawn, the child account of an investment
row, and the guessed account of the other side. -/
structure Posting where
  txGuid : String
  split1Guid : String
  split2Guid : String
  childAccountGuid : String
  counterAccountGuid : String
  confidence : String
  currencyGuid : String
  now : ℤ
deriving DecidableEq

/-- What a transaction of a sync has done when it commits. -/
inductive Receipt
  | existing (ids : List String)
  | manualMatch (found : Option ManualMatch)
  | transferMatch (found : Option TransferDedupCandidate)
  | linkedManually (account : MappedAccount) (row : FeedTransaction) (m : ManualMatch)
  | linkedTransfer (account : MappedAccount) (row : FeedTransaction) (c : TransferDedupCandidate)
  | imported (row : FeedTransaction) (p : Posting)
  /-- The id is taken. -/
  | refused

def claimSimpleFinTransactionId (id : String) : Tx Bool := do
  let _ ← Txn.lock id
  let existing ← Txn.select fun db : Db => db.metas.any fun m => m.simplefinTransactionId = some id
  pure !existing

/-- `description || payee || null`. -/
def importedOriginalDescription (row : FeedTransaction) : Option String :=
  if row.description ≠ "" then some row.description
  else if row.payee ≠ "" then some row.payee
  else none

def findManualMatch (account : MappedAccount) (row : FeedTransaction) (amount : ℚ) : Tx Receipt :=
  Txn.select fun db => .manualMatch
    (selectManualReconciliationMatch host row (manualCandidates db host row account amount))

/-- The meta row of a manual entry that a row was matched to. -/
def Meta.matched (row : FeedTransaction) (m : ManualMatch) (old : Meta) : Meta :=
  { old with
    simplefinTransactionId := some row.id
    matchType := some "manual_reconciliation"
    matchConfidence := some m.confidence
    originalDescription := old.originalDescription.or (importedOriginalDescription row) }

def Meta.ofManualEntry (m : ManualMatch) : Meta where
  transactionGuid := some m.transactionGuid
  source := "manual"
  reviewed := true
  simplefinTransactionId := none
  simplefinTransactionId2 := none
  confidence := none
  deletedAt := none
  matchType := none
  matchConfidence := none
  originalDescription := none

def recordManually (row : FeedTransaction) (m : ManualMatch) (db : Db) : Option Db :=
  if m.hasMeta then
    checkIndex host (updateMetas m.transactionGuid (Meta.matched row m) db)
  else insertMeta host (Meta.matched row m (Meta.ofManualEntry m)) db

def linkManualMatch (account : MappedAccount) (row : FeedTransaction) (m : ManualMatch) :
    Tx Receipt := do
  let claimed ← claimSimpleFinTransactionId row.id
  if claimed then do
    Txn.tryWrite (recordManually host row m)
    Txn.write (report
      ⟨.manualReconciliation, row.toRow, account.guid, m.transactionGuid, m.splitGuid⟩)
    pure (.linkedManually account row m)
  else pure .refused

def findTransferDedupMatch (account : MappedAccount) (mapped : List String) (row : FeedTransaction)
    (amount : ℚ) : Tx Receipt :=
  Txn.select fun db => .transferMatch
    (selectTransferDedupMatch host row (transferCandidates db host row account mapped amount))

/-- The meta row of a transfer whose other side was found. -/
def Meta.paired (row : FeedTransaction) (old : Meta) : Meta :=
  { old with
    simplefinTransactionId2 := some row.id
    matchType := some "transfer_dedup"
    matchConfidence := some "high" }

def linkTransferDedupMatch (account : MappedAccount) (row : FeedTransaction)
    (c : TransferDedupCandidate) : Tx Receipt := do
  Txn.tryWrite (updateMeta host c.transactionGuid (Meta.paired row))
  Txn.write (report ⟨.transferDedup, row.toRow, account.guid, c.transactionGuid, c.destSplitGuid⟩)
  pure (.linkedTransfer account row c)

def newSplit (guid txGuid accountGuid memo : String) (value : Ledger.Amount) : Split where
  guid := guid
  txGuid := txGuid
  accountGuid := accountGuid
  memo := memo
  action := ""
  reconcileState := .n
  reconcileDate := none
  value := value
  quantity := value
  lotGuid := none

def buildImportedTransactionMeta (row : FeedTransaction) (txGuid confidence : String) : Meta where
  transactionGuid := some txGuid
  source := "simplefin"
  reviewed := false
  simplefinTransactionId := some row.id
  simplefinTransactionId2 := none
  confidence := some confidence
  deletedAt := none
  matchType := none
  matchConfidence := none
  originalDescription := importedOriginalDescription row

def MappedAccount.target (account : MappedAccount) (p : Posting) : String :=
  if account.isInvestment then p.childAccountGuid else account.guid

/-- `importTransaction` and `importInvestmentTransaction`. -/
def importTransaction (zone : TimeZone) (account : MappedAccount) (row : FeedTransaction)
    (amount : ℚ) (p : Posting) : Tx Receipt := do
  let memo := if row.pending then "(Pending) " ++ row.memo else row.memo
  let description := (importedOriginalDescription row).getD "SimpleFin Import"
  let value := signedValue amount 2
  let claimed ← claimSimpleFinTransactionId row.id
  if claimed then do
    Txn.tryWrite (insertTransaction ⟨p.txGuid, p.currencyGuid, "",
      some (normalizePostDate zone row.posted), some p.now, some description⟩)
    Txn.tryWrite (insertSplit (newSplit p.split1Guid p.txGuid (account.target p) memo value))
    Txn.tryWrite (insertSplit
      (newSplit p.split2Guid p.txGuid p.counterAccountGuid "" ⟨-value.num, value.denom⟩))
    Txn.tryWrite (insertMeta host (buildImportedTransactionMeta row p.txGuid p.confidence))
    Txn.write (report ⟨.imported, row.toRow, account.target p, p.txGuid, p.split1Guid⟩)
    pure (.imported row p)
  else pure .refused

/-! ## A run -/

abbrev SyncScript := Script Db String Failure Receipt

/-- A sync run: the mapped accounts with their rows, and the lock date that it read. -/
structure Sync where
  zone : TimeZone
  lockDate : Option LockDate
  accounts : List (MappedAccount × List (FeedTransaction × Posting))

def Sync.mapped (sync : Sync) : List String := sync.accounts.map fun a => a.1.guid

/-- The import of a row; a row without an amount is passed over. -/
def importRow (sync : Sync) (account : MappedAccount) (row : FeedTransaction) (amount : ℚ)
    (p : Posting) (existing : List String) (go : List String → SyncScript) : SyncScript :=
  .exec (importTransaction host sync.zone account row amount p) fun
    | .ok _ => go (row.id :: existing)
    | .error .duplicate => go (row.id :: existing)
    | .error .other => go existing

/-- The transfer match of a row, and the import when there is none. -/
def transferRow (sync : Sync) (account : MappedAccount) (row : FeedTransaction) (amount : ℚ)
    (p : Posting) (existing : List String) (go stop : List String → SyncScript) : SyncScript :=
  if 1 < sync.mapped.length then
    .exec (findTransferDedupMatch host account sync.mapped row amount) fun
      | .ok (.transferMatch (some c)) =>
        .exec (linkTransferDedupMatch host account row c) fun
          | .ok _ => go (row.id :: existing)
          | .error _ => stop existing
      | .ok _ => importRow host sync account row amount p existing go
      | .error _ => stop existing
  else importRow host sync account row amount p existing go

/-- One row of the loop; an exception outside of the import ends the loop of its account. -/
def syncRow (sync : Sync) (account : MappedAccount) (row : FeedTransaction) (p : Posting)
    (existing : List String) (go stop : List String → SyncScript) : SyncScript :=
  if row.id ∈ existing then go existing
  else if isLocked sync.zone sync.lockDate row.toRow then go existing
  else if row.isImportable = false then go (row.id :: existing)
  else
    let amount := row.amount.getD 0
    .exec (findManualMatch host account row amount) fun
      | .ok (.manualMatch (some m)) =>
        .exec (linkManualMatch host account row m) fun
          | .ok (.linkedManually ..) => go (row.id :: existing)
          | .ok _ => transferRow host sync account row amount p existing go stop
          | .error _ => stop existing
      | .ok _ => transferRow host sync account row amount p existing go stop
      | .error _ => stop existing

def syncRows (sync : Sync) (account : MappedAccount) :
    List (FeedTransaction × Posting) → List String → (List String → SyncScript) → SyncScript
  | [], existing, stop => stop existing
  | (row, p) :: rows, existing, stop =>
    syncRow host sync account row p existing
      (fun existing => syncRows sync account rows existing stop) stop

def syncAccounts (sync : Sync) :
    List (MappedAccount × List (FeedTransaction × Posting)) → List String → SyncScript
  | [], _ => .stop
  | (account, rows) :: accounts, existing =>
    syncRows host sync account rows existing (syncAccounts sync accounts)

/-- `loadExistingSimpleFinIds`, of the rows that the run has. -/
def loadExistingSimpleFinIds (sync : Sync) : Tx Receipt :=
  Txn.select fun db =>
    let candidateIds := sync.accounts.flatMap fun a => a.2.map fun r => r.1.id
    .existing ((db.metas.filter fun m => m.ids.any fun id => id ∈ candidateIds).flatMap Meta.ids)

def runSimpleFinSync (sync : Sync) : SyncScript :=
  .exec (loadExistingSimpleFinIds sync) fun
    | .ok (.existing ids) => syncAccounts host sync sync.accounts ids
    | _ => .stop

abbrev SyncStep := Step Sync Failure

abbrev SyncState := System Db String Failure Receipt

def next : SyncStep → SyncState → Option SyncState :=
  Statements.next (fun _ _ => true) (runSimpleFinSync host)

/-! ## Two accounts of a bank -/

def gmt : TimeZone where
  offset := fun _ => 0
  bounded := TimeZone.bounded_zero

def threeDays : Host where
  matchWindowDays := 3
  indexed := true
  descScore _ _ := 0

def checking : MappedAccount := ⟨"checking", 100, false⟩

def savings : MappedAccount := ⟨"savings", 100, false⟩

def feedRow (id accountId : String) (day : ℤ) (amount : ℚ) : FeedTransaction where
  id := id
  accountId := accountId
  posted := (738000 + day) * 86400
  amount := some amount
  description := "Transfer"
  payee := ""
  memo := ""
  pending := false

def posting (txGuid split1Guid split2Guid counterAccountGuid : String) : Posting :=
  ⟨txGuid, split1Guid, split2Guid, "", counterAccountGuid, "low", "usd", 738001 * 86400000⟩

end SimpleFin.Import
