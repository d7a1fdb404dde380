import GnucashWeb.Edits.Tables
import GnucashWeb.Lib.Statements
import GnucashWeb.Lib.Text

/-!
# Prepaid packages

A sale books the price against a liability account, and each redemption moves a part of it to an
income account.  `redeemSession` and `deleteRedemption` are here as the database transactions that
they make; the slots, and the view that is read after them, are left out.
-/

namespace Packages

open Ledger (Account AccountType Amount Split fromDecimal mathRound)
open Edits (Transaction LockDate LockableDate assertNotLocked assertSplitsNotProtected)
open Rows Statements

/-! ## Rows -/

/-- A row of `gnucash_web_packages`. -/
structure PackageRow where
  id : ℕ
  bookGuid : String
  name : String
  sessionsTotal : ℤ
  price : ℚ
  liabilityAccountGuid : Option String
  incomeAccountGuid : Option String
  saleTxnGuid : Option String
deriving DecidableEq

/-- A row of `gnucash_web_package_redemptions`. -/
structure RedemptionRow where
  id : ℕ
  packageId : ℕ
  redeemedDate : ℤ
  sessions : ℤ
  txnGuid : Option String
  notes : Option String
deriving DecidableEq, Repr

structure Book where
  guid : String
  rootAccountGuid : String
deriving DecidableEq, Repr

structure Commodity where
  guid : String
  fraction : ℤ
deriving DecidableEq, Repr

/-- The tables; `lastRedemptionId` is the sequence of the redemption ids. -/
structure Db extends Edits.Db where
  books : List Book
  commodities : List Commodity
  packages : List PackageRow
  redemptions : List RedemptionRow
  lastRedemptionId : ℕ
deriving DecidableEq

/-! ## Reads -/

namespace Db

variable (db : Db)

def book? (guid : String) : Option Book := db.books.find? fun b => b.guid = guid

def package? (id : ℕ) : Option PackageRow := db.packages.find? fun p => p.id = id

def redemption? (id : ℕ) : Option RedemptionRow := db.redemptions.find? fun r => r.id = id

def redemptionsOf (packageId : ℕ) : List RedemptionRow :=
  db.redemptions.filter fun r => r.packageId = packageId

def child? (parentGuid name : String) : Option Account :=
  db.accounts.find? fun a => a.name = name ∧ a.parentGuid = some parentGuid

def currencyFraction (currencyGuid : String) : ℤ :=
  let fraction := ((db.commodities.find? fun c => c.guid = currencyGuid).map Commodity.fraction).getD 0
  if fraction = 0 then 100 else fraction

end Db

def roundToFraction (value : ℚ) (fraction : ℤ) : ℚ :=
  (if value < 0 then -1 else 1) * mathRound (|value| * fraction) / fraction

/-- What a redemption recognizes: the share of its sessions, or all that is left. -/
def computeRedemptionAmount (price : ℚ) (sessionsTotal sessions redeemedBefore : ℤ)
    (priorAmounts : List ℚ) (fraction : ℤ) : ℚ :=
  if sessionsTotal ≤ 0 then 0
  else if sessionsTotal ≤ redeemedBefore + sessions then
    roundToFraction (price - priorAmounts.sum) fraction
  else roundToFraction (price / sessionsTotal * sessions) fraction

/-- What the redemptions of a package have recognized: the liability debits of their transactions,
or the share of their sessions where there are none. -/
def redemptionAmounts (db : Db) (pkg : PackageRow) (liabilityGuid : String)
    (redemptions : List RedemptionRow) : List ℚ :=
  let perSession : ℚ := if 0 < pkg.sessionsTotal then pkg.price / pkg.sessionsTotal else 0
  redemptions.map fun r =>
    let debits := db.splits.filter fun s =>
      r.txnGuid = some s.txGuid ∧ s.accountGuid = liabilityGuid
    if debits = [] then roundToFraction (perSession * r.sessions) 100
    else (debits.map fun s => s.value.toDecimalNumber).sum

inductive Failure
  | invalidSessions
  | packageNotFound (packageId : ℕ)
  | noLiabilityAccount
  | notRemaining (sessions remaining : ℤ)
  | bookNotFound (bookGuid : String)
  | liabilityWithoutCommodity
  | redemptionNotFound (redemptionId : ℕ)
  | recordNotFound
  | ledger (e : Edits.Failure)
  /-- A statement of the database fails. -/
  | database
deriving DecidableEq, Repr

/-- The advisory lock on a name under a parent account. -/
structure Key where
  parentGuid : String
  name : String
deriving DecidableEq, Repr

abbrev Tx (α : Type) := Txn Db Key Failure α

/-- What a request takes from outside: the book with its accounts, the lock date as the cache has
it, the time, and the guids in the order in which they are drawn. -/
structure Env where
  bookGuid : String
  bookAccountGuids : List String
  lockDate : Option LockDate
  now : ℤ
  generateGuid : ℕ → String

/-- What a request has done when it commits. -/
inductive Receipt
  | redeemed (pkg : PackageRow) (sessions : ℤ)
  | deleted (redemption : RedemptionRow)

/-! ## Writes -/

/-- `accounts.create`: fails when the guid is taken. -/
def insertAccount (a : Account) (db : Db) : Option Db :=
  if (db.account? a.guid).isNone then some { db with accounts := db.accounts ++ [a] } else none

def setIncomeAccount (packageId : ℕ) (guid : String) (db : Db) : Db :=
  { db with
    packages := editAt PackageRow.id packageId
      (fun p => { p with incomeAccountGuid := some guid }) db.packages }

def newSplit (guid txGuid accountGuid memo : String) (value : Amount) : Split where
  guid := guid
  txGuid := txGuid
  accountGuid := accountGuid
  memo := memo
  action := ""
  reconcileState := .n
  reconcileDate := none
  value := value
  quantity := value
  lotGuid := none

/-- A transaction that debits one account and credits another. -/
structure TwoSplitTxn where
  txn : Transaction
  debitSplitGuid : String
  creditSplitGuid : String
  debitAccountGuid : String
  creditAccountGuid : String
  amount : ℚ
  fraction : ℤ
  memo : String

def TwoSplitTxn.debit (t : TwoSplitTxn) : Split :=
  newSplit t.debitSplitGuid t.txn.guid t.debitAccountGuid t.memo (fromDecimal t.amount t.fraction)

def TwoSplitTxn.credit (t : TwoSplitTxn) : Split :=
  newSplit t.creditSplitGuid t.txn.guid t.creditAccountGuid t.memo
    ⟨(fromDecimal (-t.amount) t.fraction).num, (fromDecimal t.amount t.fraction).denom⟩

def createTwoSplitTxn (t : TwoSplitTxn) (db : Db) : Option Db := do
  let ledger ← Edits.insertTransaction t.txn db.toDb
  let ledger ← Edits.insertSplit t.debit ledger
  let ledger ← Edits.insertSplit t.credit ledger
  pure { db with toDb := ledger }

/-- `redemptions.create`: the id is the next of its sequence. -/
def createRedemption (packageId : ℕ) (date sessions : ℤ) (txnGuid : String) (notes : Option String)
    (db : Db) : Db :=
  { db with
    redemptions :=
      db.redemptions ++ [⟨db.lastRedemptionId + 1, packageId, date, sessions, some txnGuid, notes⟩]
    lastRedemptionId := db.lastRedemptionId + 1 }

/-- The splits and the row of a transaction are deleted. -/
def removeTxn (txnGuid : String) (db : Db) : Db :=
  { db with
    splits := db.splits.filter fun s => s.txGuid ≠ txnGuid
    transactions := db.transactions.filter fun t => t.guid ≠ txnGuid }

/-- `redemptions.delete`: fails when there is no such row. -/
def removeRedemption (id : ℕ) (db : Db) : Option Db :=
  if (db.redemption? id).isSome then
    some { db with redemptions := db.redemptions.filter fun r => r.id ≠ id }
  else none

/-! ## Redeem -/

section Programs

variable (env : Env)

/-- The walk down a path that reuses the accounts that are there and creates the others. -/
def ensureFrom (currencyGuid : String) (accountType : AccountType) :
    ℕ → List String → String → Tx String
  | _, [], parentGuid => pure parentGuid
  | i, segment :: rest, parentGuid => do
    let existing ← Txn.select fun db => db.child? parentGuid segment
    Txn.onlyIf (existing = none) (do let _ ← Txn.lock ⟨parentGuid, segment⟩; pure ())
    let existing ← Txn.select fun db =>
      if existing = none then db.child? parentGuid segment else existing
    Txn.onlyIf (existing = none) (Txn.tryWrite (insertAccount
      ⟨env.generateGuid i, segment, accountType, some currencyGuid, 100, some parentGuid⟩))
    ensureFrom currencyGuid accountType (i + 1) rest
      ((existing.map Account.guid).getD (env.generateGuid i))

def ensureTypedAccount (path : List String) (bookRootGuid currencyGuid : String)
    (accountType : AccountType) : Tx String :=
  ensureFrom env currencyGuid accountType 3 path bookRootGuid

def defaultIncomePath : List String := ["Income", "Package Revenue"]

def incomeAccount (pkg : PackageRow) (liabilityGuid : String) : Tx String :=
  match pkg.incomeAccountGuid with
  | some guid => pure guid
  | none => do
    let book ← Txn.select fun db => db.book? env.bookGuid
    let book ← Txn.expect book (.bookNotFound env.bookGuid)
    let liability ← Txn.select fun db => db.account? liabilityGuid
    let guid ← ensureTypedAccount env defaultIncomePath book.rootAccountGuid
      ((liability.bind Account.commodityGuid).getD "") .income
    Txn.write (setIncomeAccount pkg.id guid)
    pure guid

def trimmedNotes (notes : Option String) : Option String :=
  (notes.map fun text => String.ofList (Text.trim text.toList)).filter fun text => text ≠ ""

def redeemSession (packageId : ℕ) (date sessions : ℤ) (notes : Option String) : Tx Receipt := do
  Txn.require (1 ≤ sessions) .invalidSessions
  Txn.check ((assertNotLocked env.lockDate [some (.date date)]).mapError Failure.ledger)
  let found ← Txn.select fun db => (db.package? packageId).filter fun p => p.bookGuid = env.bookGuid
  let pkg ← Txn.expect found (.packageNotFound packageId)
  let liabilityGuid ← Txn.expect pkg.liabilityAccountGuid .noLiabilityAccount
  -- The count that decides: no row is locked.
  let redemptions ← Txn.select fun db => db.redemptionsOf packageId
  let redeemedBefore := (redemptions.map RedemptionRow.sessions).sum
  Txn.require (sessions ≤ pkg.sessionsTotal - redeemedBefore)
    (.notRemaining sessions (pkg.sessionsTotal - redeemedBefore))
  let incomeGuid ← incomeAccount env pkg liabilityGuid
  let liability ← Txn.select fun db => db.account? liabilityGuid
  let currencyGuid ← Txn.expect (liability.bind Account.commodityGuid) .liabilityWithoutCommodity
  let fraction ← Txn.select fun db => db.currencyFraction currencyGuid
  let priorAmounts ← Txn.select fun db => redemptionAmounts db pkg liabilityGuid redemptions
  let amount := computeRedemptionAmount pkg.price pkg.sessionsTotal sessions redeemedBefore
    priorAmounts fraction
  let description := "Package redemption: " ++ pkg.name ++ " (" ++ toString sessions ++ " session" ++
    (if sessions = 1 then "" else "s") ++ ")"
  Txn.tryWrite (createTwoSplitTxn
    { txn := ⟨env.generateGuid 0, currencyGuid, "", some date, some env.now, some description⟩
      debitSplitGuid := env.generateGuid 1
      creditSplitGuid := env.generateGuid 2
      debitAccountGuid := liabilityGuid
      creditAccountGuid := incomeGuid
      amount := amount
      fraction := fraction
      memo := (trimmedNotes notes).getD "" })
  Txn.write (createRedemption packageId date sessions (env.generateGuid 0) (trimmedNotes notes))
  pure (.redeemed pkg sessions)

/-- The transaction of a redemption is deleted, unless it is locked or reconciled. -/
def deleteTxn : Option String → Tx Unit
  | none => pure ()
  | some txnGuid => do
    let txn ← Txn.select fun db => db.transaction? txnGuid
    Txn.check ((assertNotLocked env.lockDate
      [(txn.bind Transaction.postDate).map LockableDate.date]).mapError Failure.ledger)
    let existing ← Txn.select fun db => (db.toDb, (db.splitsOfTx txnGuid).filter fun s =>
      s.accountGuid ∈ env.bookAccountGuids)
    Txn.check ((assertSplitsNotProtected "delete this transaction" existing.1 existing.2).mapError
      Failure.ledger)
    Txn.write (removeTxn txnGuid)

def deleteRedemption (redemptionId : ℕ) : Tx Receipt := do
  let found ← Txn.select fun db => (db.redemption? redemptionId).filter fun r =>
    ((db.package? r.packageId).map PackageRow.bookGuid) = some env.bookGuid
  let redemption ← Txn.expect found (.redemptionNotFound redemptionId)
  deleteTxn env redemption.txnGuid
  Txn.tryWrite (removeRedemption redemptionId)
  pure (.deleted redemption)

end Programs

inductive Request
  | redeemSession (env : Env) (packageId : ℕ) (date sessions : ℤ) (notes : Option String)
  | deleteRedemption (env : Env) (redemptionId : ℕ)

def serve : Request → Script Db Key Failure Receipt
  | .redeemSession env packageId date sessions notes =>
    .single (redeemSession env packageId date sessions notes)
  | .deleteRedemption env redemptionId => .single (deleteRedemption env redemptionId)

abbrev PackageStep := Step Request Failure

abbrev PackageState := System Db Key Failure Receipt

/-- An advisory lock is always there to be taken. -/
def next : PackageStep → PackageState → Option PackageState :=
  Statements.next (fun _ _ => true) serve

end Packages
