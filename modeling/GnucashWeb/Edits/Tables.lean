import GnucashWeb.Ledger.Book
import GnucashWeb.Lib.IsoDate

/-!
# The tables that the transaction routes write

Transactions, splits, accounts and the lock dates of the books, with the queries and the writes that
the routes make, and their two guards: the period lock and the reconciled splits.  Times are
milliseconds since the start of day 0 of the calendar.  Notes, tags, slots, bank-feed rows and the
audit log are left out: no route decides anything by them.
-/

namespace Edits

open Ledger Rows Civil

/-! ## Rows -/

structure Transaction where
  guid : String
  currencyGuid : String
  num : String
  postDate : Option ℤ
  enterDate : Option ℤ
  description : Option String
deriving DecidableEq, Repr

/-- A `lock_date`: a date with a year of four digits. -/
structure LockDate where
  day : ℤ
  fourDigit : FourDigit day
deriving DecidableEq

/-- A row of `gnucash_web_book_settings`. -/
structure BookSettings where
  bookGuid : String
  lockDate : Option LockDate
deriving DecidableEq

structure Db where
  accounts : List Account
  transactions : List Transaction
  splits : List Split
  settings : List BookSettings
deriving DecidableEq

inductive Failure
  | invalidPostDate
  | accountsNotInBook
  | transactionNotFound
  | conflict
  | periodLocked (lockDate : List Char)
  | reconciledSplit (operation : String) (splits : List ProtectedSplitRef)
  | processing (message : String)
  | recordNotFound
  | targetNotFound
  | targetNotInBook
  | splitsNotInBook
  | differentCurrencies
  | splitNotFound
deriving DecidableEq, Repr

/-! ## Queries -/

namespace Db

variable (db : Db)

def account? (guid : String) : Option Account := db.accounts.find? fun a => a.guid = guid

def transaction? (guid : String) : Option Transaction :=
  db.transactions.find? fun t => t.guid = guid

def split? (guid : String) : Option Split := db.splits.find? fun s => s.guid = guid

def splitsOfTx (txGuid : String) : List Split := db.splits.filter fun s => s.txGuid = txGuid

def accountName (s : Split) : Option String := (db.account? s.accountGuid).map Account.name

def lockDate? (bookGuid : String) : Option LockDate :=
  (db.settings.find? fun r => r.bookGuid = bookGuid).bind BookSettings.lockDate

/-- Whether a transaction is there and has splits, all of them on the given accounts. -/
def inBook (bookAccountGuids : List String) (txGuid : String) : Bool :=
  (db.transaction? txGuid).isSome && !(db.splitsOfTx txGuid).isEmpty &&
    (db.splitsOfTx txGuid).all fun s => s.accountGuid ∈ bookAccountGuids

end Db

/-! ## Writes -/

/-- `transactions.create`: fails when the guid is taken. -/
def insertTransaction (t : Transaction) (db : Db) : Option Db :=
  if (db.transaction? t.guid).isNone then some { db with transactions := db.transactions ++ [t] }
  else none

/-- `transactions.updateMany` of one guid. -/
def updateTransactions (guid : String) (f : Transaction → Transaction) (db : Db) : Db :=
  { db with transactions := editAt Transaction.guid guid f db.transactions }

/-- `transactions.update`: fails when there is no such row. -/
def updateTransaction (guid : String) (f : Transaction → Transaction) (db : Db) : Option Db :=
  if (db.transaction? guid).isSome then some (updateTransactions guid f db) else none

/-- `transactions.delete`, with its splits; fails when there is no such row. -/
def deleteTransaction (guid : String) (db : Db) : Option Db :=
  if (db.transaction? guid).isSome then
    some { db with
      transactions := db.transactions.filter fun t => t.guid ≠ guid
      splits := db.splits.filter fun s => s.txGuid ≠ guid }
  else none

/-- `splits.create`: fails when the guid is taken. -/
def insertSplit (s : Split) (db : Db) : Option Db :=
  if (db.split? s.guid).isNone then some { db with splits := db.splits ++ [s] } else none

/-- `splits.deleteMany` of a transaction. -/
def deleteSplits (txGuid : String) (db : Db) : Db :=
  { db with splits := db.splits.filter fun s => s.txGuid ≠ txGuid }

/-- `splits.updateMany`. -/
def updateSplits (p : Split → Bool) (f : Split → Split) (db : Db) : Db :=
  { db with splits := db.splits.map fun s => if p s then f s else s }

/-- The upsert of `setLockDate`. -/
def putLockDate (bookGuid : String) (lockDate : Option LockDate) (db : Db) : Db :=
  { db with settings := ⟨bookGuid, lockDate⟩ :: db.settings.filter fun r => r.bookGuid ≠ bookGuid }

/-! ## The period lock -/

def msPerDay : ℤ := 86400000

/-- A date as a route has it: a column, or a text of the request. -/
inductive LockableDate
  | date (time : ℤ)
  | text (text : String)
deriving DecidableEq, Repr

def toIsoDateString : LockableDate → List Char
  | .date time => isoText (time / msPerDay)
  | .text text => text.toList.take 10

def findLockedDate (lockDate : Option (List Char)) (dates : List (Option LockableDate)) :
    Option (List Char) :=
  lockDate.bind fun lock =>
    ((dates.filterMap id).map toIsoDateString).find? fun day => day ≤ lock

def assertNotLocked (lockDate : Option LockDate) (dates : List (Option LockableDate)) :
    Except Failure Unit :=
  match lockDate with
  | none => .ok ()
  | some lock =>
    if findLockedDate (some (isoText lock.day)) dates = none then .ok ()
    else .error (.periodLocked (isoText lock.day))

/-- `isProtectedReconcileState`. -/
def IsProtected (s : Split) : Prop := s.reconcileState = .y ∨ s.reconcileState = .f

instance (s : Split) : Decidable (IsProtected s) := inferInstanceAs (Decidable (_ ∨ _))

def findProtectedSplits (db : Db) (rows : List Split) : List ProtectedSplitRef :=
  (rows.filter IsProtected).map fun s =>
    ⟨s.guid, s.txGuid, s.accountGuid, db.accountName s, s.reconcileState⟩

/-- Fail when a row is reconciled or frozen. -/
def assertSplitsNotProtected (operation : String) (db : Db) (rows : List Split) :
    Except Failure Unit :=
  let refs := findProtectedSplits db rows
  if refs = [] then .ok () else .error (.reconciledSplit operation refs)

theorem assertSplitsNotProtected_eq_ok {operation : String} {db : Db} {rows : List Split} {u : Unit} :
    assertSplitsNotProtected operation db rows = .ok u ↔ ∀ s ∈ rows, ¬IsProtected s := by
  unfold assertSplitsNotProtected findProtectedSplits
  simp

theorem findLockedDate_eq_none {lock : List Char} {dates : List (Option LockableDate)} :
    findLockedDate (some lock) dates = none ↔ ∀ d, some d ∈ dates → lock < toIsoDateString d := by
  rw [findLockedDate, Option.bind_some, List.find?_eq_none]
  constructor
  · intro h d hd
    have hday := h (toIsoDateString d) (List.mem_map.2 ⟨d, List.mem_filterMap.2 ⟨_, hd, rfl⟩, rfl⟩)
    simpa using hday
  · intro h day hday
    obtain ⟨d, hd, rfl⟩ := List.mem_map.1 hday
    obtain ⟨o, ho, rfl⟩ := List.mem_filterMap.1 hd
    simpa using h d ho

theorem assertNotLocked_eq_ok {lock : LockDate} {dates : List (Option LockableDate)} {u : Unit} :
    assertNotLocked (some lock) dates = .ok u ↔
      ∀ d, some d ∈ dates → isoText lock.day < toIsoDateString d := by
  rw [assertNotLocked, ← findLockedDate_eq_none]
  split_ifs with h
  · simp [h]
  · simp [h]

theorem lt_of_isoText_lt {lock : LockDate} {day : ℤ} (h : isoText lock.day < isoText day) :
    lock.day < day := by
  by_cases hday : FourDigit day
  · exact (isoText_lt_iff lock.fourDigit hday).1 h
  · have h' := isoText_lt_of_not_fourDigit hday lock.fourDigit
    exact absurd (List.lt_trans h h') (List.lt_irrefl _)

end Edits
