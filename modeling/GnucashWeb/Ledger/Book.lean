import GnucashWeb.Ledger.Amount
import GnucashWeb.Lib.Rows
import GnucashWeb.Lib.Transact

/-!
# The ledger tables

The rows the lot engine reads and writes, in insertion order, and the queries and updates it makes.
Columns that no modelled function reads are left out.  A database transaction is a computation over
the tables that completes or fails as a whole.
-/

namespace Ledger

/-! ## Rows -/

inductive AccountType
  | root | asset | bank | cash | credit | liability | stock | mutual | income | expense | equity
  | receivable | payable | trading | currency
deriving DecidableEq, Repr

/-- `reconcile_state`: new, cleared, reconciled, frozen or void. -/
inductive ReconcileState
  | n | c | y | f | v
deriving DecidableEq, Repr

structure Account where
  guid : String
  name : String
  accountType : AccountType
  commodityGuid : Option String
  commodityScu : ℤ
  parentGuid : Option String
deriving DecidableEq, Repr

/-- A transaction; times are milliseconds. -/
structure Transaction where
  guid : String
  currencyGuid : String
  postDate : Option ℤ
  description : String
deriving DecidableEq, Repr

structure Split where
  guid : String
  txGuid : String
  accountGuid : String
  memo : String
  action : String
  reconcileState : ReconcileState
  reconcileDate : Option ℤ
  value : Amount
  quantity : Amount
  lotGuid : Option String
deriving DecidableEq, Repr

structure Lot where
  guid : String
  accountGuid : Option String
  isClosed : ℤ
deriving DecidableEq, Repr

/-- A slot row; the engine reads and writes text slots only. -/
structure Slot where
  objGuid : String
  name : String
  stringVal : Option String
deriving DecidableEq, Repr

structure Price where
  commodityGuid : String
  currencyGuid : String
  date : ℤ
  value : Amount
deriving DecidableEq, Repr

/-- A row of `gnucash_web_avg_basis_history`. -/
structure HistoryRow where
  lotGuid : String
  seqNo : ℤ
  runId : Option String
  basisVal : String
deriving DecidableEq, Repr

/-- The tables, and the number of guids drawn so far. -/
structure Db where
  accounts : List Account
  transactions : List Transaction
  splits : List Split
  lots : List Lot
  slots : List Slot
  prices : List Price
  history : List HistoryRow
  drawn : ℕ
deriving DecidableEq, Repr

namespace Split

def qty (s : Split) : ℚ := s.quantity.toDecimalNumber

def val (s : Split) : ℚ := s.value.toDecimalNumber

end Split

/-- A split that the reconciled-split guard refuses to touch. -/
structure ProtectedSplitRef where
  splitGuid : String
  txGuid : String
  accountGuid : String
  accountName : Option String
  reconcileState : ReconcileState
deriving DecidableEq, Repr

/-- Why the pooled basis of a lot cannot be read. -/
inductive RepairReason
  | nextLiveNotNumber (value : String)
  | latestWriteNotNumber (value : String)
  | liveMissing
  | liveNotNumber (raw : String)
deriving DecidableEq, Repr

inductive Failure
  | accountNotFound (guid : String)
  | splitNotFound (guid : String)
  | lotNotFound (guid : String)
  | recordToUpdateNotFound
  | balanceMoved (txGuid : String) (drift before after : ℚ)
  | reconciledSplit (operation : String) (splits : List ProtectedSplitRef)
  | avgBasisHistoryRepairRequired (lotGuid : String) (reason : RepairReason)
  | scrubRunNotInBook (runId : String)
  | cannotDetermineCurrency
  | cannotDetermineBookRoot (accountGuid : String)
  | cannotConvertToBigInt (text : String)
deriving DecidableEq, Repr

abbrev Tx (α : Type) := StateT Db (Except Failure) α

/-! ## Queries -/

namespace Db

variable (db : Db)

def account? (guid : String) : Option Account := db.accounts.find? fun a => a.guid = guid

def transaction? (guid : String) : Option Transaction :=
  db.transactions.find? fun t => t.guid = guid

def split? (guid : String) : Option Split := db.splits.find? fun s => s.guid = guid

def lot? (guid : String) : Option Lot := db.lots.find? fun l => l.guid = guid

def splitsOfTx (txGuid : String) : List Split := db.splits.filter fun s => s.txGuid = txGuid

def splitsOfAccount (accountGuid : String) : List Split :=
  db.splits.filter fun s => s.accountGuid = accountGuid

def splitsOfLot (lotGuid : String) : List Split :=
  db.splits.filter fun s => s.lotGuid = some lotGuid

def postDate (s : Split) : Option ℤ := (db.transaction? s.txGuid).bind Transaction.postDate

def commodity (s : Split) : Option String := (db.account? s.accountGuid).bind Account.commodityGuid

def onType (type : AccountType) (s : Split) : Bool :=
  (db.account? s.accountGuid).map Account.accountType = some type

/-- The first slot row of an object with the given name. -/
def slot? (objGuid name : String) : Option Slot :=
  db.slots.find? fun r => r.objGuid = objGuid ∧ r.name = name

/-- `readSlotString`: the text of the first matching slot. -/
def slotString (objGuid name : String) : Option String :=
  (db.slot? objGuid name).bind Slot.stringVal

/-- A slot text that is present and not empty, as `if (slot?.string_val)` tests it. -/
def slotText (objGuid name : String) : Option String :=
  (db.slotString objGuid name).filter fun text => text ≠ ""

end Db

/-! ## Updates -/

def createTransaction (t : Transaction) : Tx Unit :=
  modify fun db => { db with transactions := db.transactions ++ [t] }

def deleteTransactions (p : Transaction → Bool) : Tx Unit :=
  modify fun db => { db with transactions := db.transactions.filter fun t => !p t }

def createSplit (s : Split) : Tx Unit :=
  modify fun db => { db with splits := db.splits ++ [s] }

def updateSplits (p : Split → Bool) (f : Split → Split) : Tx Unit :=
  modify fun db => { db with splits := db.splits.map fun s => if p s then f s else s }

/-- Update the split with the given guid, failing when there is none. -/
def updateSplit (guid : String) (f : Split → Split) : Tx Unit := do
  let db ← get
  if (db.split? guid).isSome then updateSplits (fun s => s.guid = guid) f
  else throw .recordToUpdateNotFound

def deleteSplits (p : Split → Bool) : Tx Unit :=
  modify fun db => { db with splits := db.splits.filter fun s => !p s }

def createLotRow (l : Lot) : Tx Unit :=
  modify fun db => { db with lots := db.lots ++ [l] }

def updateLots (p : Lot → Bool) (f : Lot → Lot) : Tx Unit :=
  modify fun db => { db with lots := db.lots.map fun l => if p l then f l else l }

/-- Update the lot with the given guid, failing when there is none. -/
def updateLot (guid : String) (f : Lot → Lot) : Tx Unit := do
  let db ← get
  if (db.lot? guid).isSome then updateLots (fun l => l.guid = guid) f
  else throw .recordToUpdateNotFound

def deleteLots (p : Lot → Bool) : Tx Unit :=
  modify fun db => { db with lots := db.lots.filter fun l => !p l }

def createSlot (objGuid name value : String) : Tx Unit :=
  modify fun db => { db with slots := db.slots ++ [⟨objGuid, name, some value⟩] }

def deleteSlots (p : Slot → Bool) : Tx Unit :=
  modify fun db => { db with slots := db.slots.filter fun r => !p r }

/-! ## What the updates do -/

section Effects

open Transact Rows

variable {db db' : Db} {u : Unit}

@[simp] theorem completes_createTransaction {t : Transaction} :
    Completes (createTransaction t) db u db' ↔
      db' = { db with transactions := db.transactions ++ [t] } :=
  completes_modify

@[simp] theorem completes_deleteTransactions {p : Transaction → Bool} :
    Completes (deleteTransactions p) db u db' ↔
      db' = { db with transactions := db.transactions.filter fun t => !p t } :=
  completes_modify

@[simp] theorem completes_createSplit {s : Split} :
    Completes (createSplit s) db u db' ↔ db' = { db with splits := db.splits ++ [s] } :=
  completes_modify

@[simp] theorem completes_updateSplits {p : Split → Bool} {f : Split → Split} :
    Completes (updateSplits p f) db u db' ↔
      db' = { db with splits := db.splits.map fun s => if p s then f s else s } :=
  completes_modify

@[simp] theorem completes_updateSplit {guid : String} {f : Split → Split} :
    Completes (updateSplit guid f) db u db' ↔
      (db.split? guid).isSome ∧ db' = { db with splits := editAt Split.guid guid f db.splits } := by
  unfold updateSplit
  simp only [completes_bind, completes_get, completes_ite, completes_updateSplits, completes_throw]
  simp [editAt]

@[simp] theorem completes_deleteSplits {p : Split → Bool} :
    Completes (deleteSplits p) db u db' ↔
      db' = { db with splits := db.splits.filter fun s => !p s } :=
  completes_modify

@[simp] theorem completes_createLotRow {l : Lot} :
    Completes (createLotRow l) db u db' ↔ db' = { db with lots := db.lots ++ [l] } :=
  completes_modify

@[simp] theorem completes_updateLots {p : Lot → Bool} {f : Lot → Lot} :
    Completes (updateLots p f) db u db' ↔
      db' = { db with lots := db.lots.map fun l => if p l then f l else l } :=
  completes_modify

@[simp] theorem completes_updateLot {guid : String} {f : Lot → Lot} :
    Completes (updateLot guid f) db u db' ↔
      (db.lot? guid).isSome ∧ db' = { db with lots := editAt Lot.guid guid f db.lots } := by
  unfold updateLot
  simp only [completes_bind, completes_get, completes_ite, completes_updateLots, completes_throw]
  simp [editAt]

@[simp] theorem completes_deleteLots {p : Lot → Bool} :
    Completes (deleteLots p) db u db' ↔ db' = { db with lots := db.lots.filter fun l => !p l } :=
  completes_modify

@[simp] theorem completes_createSlot {objGuid name value : String} :
    Completes (createSlot objGuid name value) db u db' ↔
      db' = { db with slots := db.slots ++ [⟨objGuid, name, some value⟩] } :=
  completes_modify

@[simp] theorem completes_deleteSlots {p : Slot → Bool} :
    Completes (deleteSlots p) db u db' ↔
      db' = { db with slots := db.slots.filter fun r => !p r } :=
  completes_modify

theorem mem_of_split? {guid : String} {s : Split} (h : db.split? guid = some s) :
    s ∈ db.splits ∧ s.guid = guid :=
  ⟨List.mem_of_find?_eq_some h, by simpa using List.find?_some h⟩

theorem mem_of_lot? {guid : String} {l : Lot} (h : db.lot? guid = some l) :
    l ∈ db.lots ∧ l.guid = guid :=
  ⟨List.mem_of_find?_eq_some h, by simpa using List.find?_some h⟩

end Effects

end Ledger
