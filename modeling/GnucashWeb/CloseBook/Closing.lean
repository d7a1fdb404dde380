import GnucashWeb.Ledger.Book
import GnucashWeb.Lib.Statements
import Mathlib.Data.List.Sort

/-!
# Close book

`executeCloseBook` under the advisory lock of its book: the marker of the last close, the balances
through the close date, and the closing transactions.  Dates are days, times milliseconds, and ISO
dates are in the order of their days; numbers are exact.  The audit of the new transactions is left
out.
-/

namespace CloseBook

open Ledger (AccountType Amount fromDecimal round2)
open Rows Statements

/-! ## Tables -/

structure Account where
  guid : String
  /-- The book whose account tree it is in. -/
  bookGuid : String
  fullname : String
  accountType : AccountType
  commodityGuid : String
deriving DecidableEq

structure Split where
  accountGuid : String
  memo : String
  value : Amount
  quantity : Amount
deriving DecidableEq

structure Transaction where
  guid : String
  currencyGuid : String
  postDate : Option ℤ
  description : String
  splits : List Split
deriving DecidableEq

/-- The tables; `markers` are the closed-through slots of the books, `closes` the closes that posted
entries. -/
structure Db where
  accounts : List Account
  transactions : List Transaction
  markers : List (String × Option ℤ)
  lockDates : List (String × ℤ)
  closes : List (String × ℤ)
deriving DecidableEq

def msPerDay : ℤ := 24 * 60 * 60 * 1000

def endOfDay (day : ℤ) : ℤ := (day + 1) * msPerDay - 1

def noon (day : ℤ) : ℤ := day * msPerDay + msPerDay / 2

namespace Db

variable (db : Db)

def account? (guid : String) : Option Account := db.accounts.find? fun a => a.guid = guid

def bookAccountGuids (bookGuid : String) : List String :=
  (db.accounts.filter fun a => a.bookGuid = bookGuid).map Account.guid

def splitsThrough (day : ℤ) : List Split :=
  (db.transactions.filter fun t => t.postDate.any fun date => date ≤ endOfDay day).flatMap
    Transaction.splits

/-- The cumulative balance of an account through a day, as the close computes it; a split without a
denominator counts nothing. -/
def balance (accountGuid : String) (day : ℤ) : ℚ :=
  total (fun s => s.accountGuid = accountGuid) (fun s => s.value.exact) (db.splitsThrough day)

/-- The cumulative balance of an account through a day, in its own commodity. -/
def quantityBalance (accountGuid : String) (day : ℤ) : ℚ :=
  total (fun s => s.accountGuid = accountGuid) (fun s => s.quantity.exact) (db.splitsThrough day)

def markerRows (bookGuid : String) : List (String × Option ℤ) :=
  db.markers.filter fun m => m.1 = bookGuid

def closedThrough (bookGuid : String) : Option ℤ := (db.markerRows bookGuid).head?.bind (·.2)

def lockDate? (bookGuid : String) : Option ℤ :=
  (db.lockDates.find? fun e => e.1 = bookGuid).map (·.2)

end Db

/-! ## Preview -/

structure CloseBookAccountRow where
  guid : String
  fullname : String
  accountType : AccountType
  commodityGuid : String
  balance : ℚ
deriving DecidableEq

def Account.IsClosing (a : Account) : Prop := a.accountType = .income ∨ a.accountType = .expense

instance (a : Account) : Decidable a.IsClosing := inferInstanceAs (Decidable (_ ∨ _))

def minBalance : ℚ := 5 / 1000

/-- The rows of the income and expense accounts among some accounts, by full name. -/
def previewCloseBook (bookAccountGuids : List String) (closeDate : ℤ) (db : Db) :
    List CloseBookAccountRow :=
  ((db.accounts.filter fun a => a.guid ∈ bookAccountGuids ∧ a.IsClosing ∧
    minBalance ≤ |db.balance a.guid closeDate|).insertionSort
      fun a b => a.fullname ≤ b.fullname).map
      fun a => ⟨a.guid, a.fullname, a.accountType, a.commodityGuid,
        round2 (db.balance a.guid closeDate)⟩

/-! ## Closing transactions -/

structure ClosingSplitSpec where
  accountGuid : String
  amount : ℚ
deriving DecidableEq

structure ClosingTransactionSpec where
  description : String
  currencyGuid : String
  splits : List ClosingSplitSpec
  equityAmount : ℚ
deriving DecidableEq

def closingRows (accounts : List CloseBookAccountRow) (type : AccountType) :
    List CloseBookAccountRow :=
  accounts.filter fun a => a.accountType = type ∧ minBalance ≤ |a.balance|

def CloseBookAccountRow.closingSplit (a : CloseBookAccountRow) : ClosingSplitSpec :=
  ⟨a.guid, round2 (-a.balance)⟩

/-- The closing transactions of one type, one for each currency in the order they come. -/
def buildClosingTransactions (accounts : List CloseBookAccountRow) (type : AccountType)
    (description : String) : List ClosingTransactionSpec :=
  let rows := closingRows accounts type
  (rows.map CloseBookAccountRow.commodityGuid).eraseDups.map fun currencyGuid =>
    let splits := (rows.filter fun a => a.commodityGuid = currencyGuid).map
      CloseBookAccountRow.closingSplit
    ⟨description, currencyGuid, splits, round2 (-(splits.map ClosingSplitSpec.amount).sum)⟩

def orElse (text fallback : String) : String := if text = "" then fallback else text

def closingSpecs (accounts : List CloseBookAccountRow) (description : String) :
    List ClosingTransactionSpec :=
  buildClosingTransactions accounts .income (orElse description "Closing Entries — Income") ++
    buildClosingTransactions accounts .expense (orElse description "Closing Entries — Expenses")

def closingSplit (accountGuid : String) (amount : ℚ) : Split :=
  let value := fromDecimal amount 100
  ⟨accountGuid, "Closing entry", value, value⟩

def ClosingTransactionSpec.transaction (spec : ClosingTransactionSpec) (guid equityGuid : String)
    (closeDate : ℤ) : Transaction where
  guid := guid
  currencyGuid := spec.currencyGuid
  postDate := some (noon closeDate)
  description := spec.description
  splits := (spec.splits.map fun s => closingSplit s.accountGuid s.amount) ++
    [closingSplit equityGuid spec.equityAmount]

/-! ## Execute -/

structure CloseRequest where
  bookGuid : String
  closeDate : ℤ
  equityAccountGuid : String
  description : String
  /-- The guids that are drawn for the closing transactions. -/
  guids : ℕ → String

inductive Failure
  | alreadyClosed (closedThrough : Option ℤ)
  | equityAccountNotFound
  | notEquity
  | equityNotInBook
  | periodLocked (lockDate : Option ℤ)
deriving DecidableEq

inductive Receipt
  /-- There was nothing to close. -/
  | nothing (r : CloseRequest)
  | closed (r : CloseRequest) (transactions : List Transaction)

/-- A database transaction; its locks are hashes. -/
abbrev Tx := Txn Db ℤ Failure

section Execute

variable (hashtext : String → ℤ)

def bookLock (bookGuid : String) : ℤ := hashtext ("close-book:" ++ bookGuid)

def isPeriodAlreadyClosed (closedThrough : Option ℤ) (closeDate : ℤ) : Bool :=
  closedThrough.any fun day => closeDate ≤ day

/-- `findLockedDate` for one day; the day of the lock is locked. -/
def isLocked (lockDate : Option ℤ) (day : ℤ) : Bool := lockDate.any fun lock => day ≤ lock

/-- The closing transactions with the guids that are drawn for them. -/
def closingTransactions (r : CloseRequest) (rows : List CloseBookAccountRow) : List Transaction :=
  (closingSpecs rows r.description).mapIdx fun i spec =>
    spec.transaction (r.guids i) r.equityAccountGuid r.closeDate

/-- The inserts of the closing transactions: a guid that is taken fails. -/
def insertTransactions (transactions : List Transaction) (db : Db) : Option Db :=
  if ((db.transactions ++ transactions).map Transaction.guid).Nodup then
    some { db with transactions := db.transactions ++ transactions }
  else none

/-- The marker is updated where there is one, else inserted. -/
def recordClose (markerRows : List (String × Option ℤ)) (r : CloseRequest) (db : Db) : Db :=
  { db with
    markers := if markerRows ≠ [] then
        db.markers.map fun m => if m.1 = r.bookGuid then (m.1, some r.closeDate) else m
      else db.markers ++ [(r.bookGuid, some r.closeDate)]
    closes := (r.bookGuid, r.closeDate) :: db.closes }

def closeRows (r : CloseRequest) (bookAccountGuids : List String)
    (markerRows : List (String × Option ℤ)) (rows : List CloseBookAccountRow) : Tx Receipt := do
  let found ← Txn.select fun db => db.account? r.equityAccountGuid
  let equity ← Txn.expect found .equityAccountNotFound
  Txn.require (equity.accountType = .equity) .notEquity
  Txn.require (equity.guid ∈ bookAccountGuids) .equityNotInBook
  let lockDate ← Txn.select fun db => db.lockDate? equity.bookGuid
  Txn.require (¬ isLocked lockDate r.closeDate) (.periodLocked lockDate)
  -- Only the accounts in the currency of the equity account can close into it.
  let closable := rows.filter fun a => a.commodityGuid = equity.commodityGuid
  let transactions := closingTransactions r closable
  Txn.tryWrite (insertTransactions transactions)
  Txn.onlyIf (transactions ≠ []) (Txn.write (recordClose markerRows r))
  pure (.closed r transactions)

/-- `executeCloseBook`, with the accounts of the book that the route reads before. -/
def executeCloseBook (r : CloseRequest) : Tx Receipt := do
  let bookAccountGuids ← Txn.select fun db => db.bookAccountGuids r.bookGuid
  let _ ← Txn.lock (bookLock hashtext r.bookGuid)
  let markerRows ← Txn.select fun db => db.markerRows r.bookGuid
  let closedThrough := markerRows.head?.bind (·.2)
  Txn.require (¬ isPeriodAlreadyClosed closedThrough r.closeDate) (.alreadyClosed closedThrough)
  let rows ← Txn.select (previewCloseBook bookAccountGuids r.closeDate)
  match rows with
  | [] => pure (.nothing r)
  | row :: rest => closeRows r bookAccountGuids markerRows (row :: rest)

abbrev CloseStep := Step CloseRequest Failure

abbrev CloseState := System Db ℤ Failure Receipt

/-- Closes side by side; an advisory lock is always there to be taken. -/
def next : CloseStep → CloseState → Option CloseState :=
  Statements.next (fun _ _ => true) fun r => .single (executeCloseBook hashtext r)

end Execute

end CloseBook
