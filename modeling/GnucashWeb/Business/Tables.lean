import GnucashWeb.Business.Totals
import GnucashWeb.Ledger.Book

/-!
# The business tables

The rows that posting, unposting and paying a document read and write, with the queries and
updates they make.  Splits and lots are those of the ledger.  Columns that no modelled function
reads are left out.
-/

open Ledger Transact

namespace Business

/-! ## Rows -/

/-- A row of `invoices`: a customer invoice, a vendor bill or an employee voucher. -/
structure Invoice where
  guid : String
  id : String
  ownerType : Option ℤ
  ownerGuid : Option String
  currency : String
  datePosted : Option ℤ
  postTxn : Option String
  postAcc : Option String
  postLot : Option String
deriving DecidableEq, Repr

/-- A row of `entries`, with its invoice columns and its bill columns. -/
structure Entry where
  guid : String
  date : ℤ
  description : Option String
  quantity : Amount
  invoice : Option String
  iAcct : Option String
  iPrice : Amount
  iDiscount : Amount
  iDiscType : Option DiscountType
  iDiscHow : Option DiscountHow
  iTaxable : Bool
  iTaxIncluded : Bool
  iTaxTable : Option String
  bill : Option String
  bAcct : Option String
  bPrice : Amount
  bTaxable : Bool
  bTaxIncluded : Bool
  bTaxTable : Option String
deriving DecidableEq, Repr

/-- A row of `taxtable_entries`. -/
structure TaxTableEntry where
  taxTable : String
  account : String
  amount : Amount
  type : TaxType
deriving DecidableEq, Repr

/-- A row of `customers` or `vendors`. -/
structure Party where
  guid : String
  name : String
  currency : String
  terms : Option String
deriving DecidableEq, Repr

structure Employee where
  guid : String
  username : String
  addrName : Option String
  currency : String
deriving DecidableEq, Repr

structure Job where
  guid : String
  ownerType : ℤ
  ownerGuid : Option String
deriving DecidableEq, Repr

inductive BusinessEntityType
  | customer | vendor | employee | job | invoice
deriving DecidableEq, Repr

/-- A row of `gnucash_web_business_entity_ownership`. -/
structure Ownership where
  entityType : BusinessEntityType
  entityGuid : String
  bookGuid : String
deriving DecidableEq, Repr

/-- A row of `books`, with the lock date of its settings. -/
structure BookRow where
  guid : String
  rootAccountGuid : String
  lockDate : Option String
deriving DecidableEq, Repr

/-- A commodity; a currency has the namespace `CURRENCY`. -/
structure Commodity where
  guid : String
  space : String
  mnemonic : String
  /-- The number of the smallest units in one. -/
  fraction : ℕ
deriving DecidableEq, Repr

structure Account where
  guid : String
  name : String
  accountType : AccountType
  commodityGuid : Option String
  parentGuid : Option String
  description : String
  placeholder : Bool
deriving DecidableEq, Repr

/-- A row of `transactions`; times are milliseconds. -/
structure Txn where
  guid : String
  currencyGuid : String
  num : String
  postDate : Option ℤ
  enterDate : ℤ
  description : String
deriving DecidableEq, Repr

inductive SlotValue
  | string (text : String)
  | guid (guid : String)
  | timespec (time : ℤ)
  | frame (guid : String)
  | gdate (day : String)
deriving DecidableEq, Repr

structure SlotRow where
  objGuid : String
  name : String
  value : SlotValue
deriving DecidableEq, Repr

/-- The tables, and the number of guids drawn so far. -/
structure Db where
  books : List BookRow
  ownership : List Ownership
  accounts : List Account
  commodities : List Commodity
  customers : List Party
  vendors : List Party
  employees : List Employee
  jobs : List Job
  invoices : List Invoice
  entries : List Entry
  taxTableEntries : List TaxTableEntry
  transactions : List Txn
  splits : List Split
  lots : List Lot
  slots : List SlotRow
  drawn : ℕ
deriving DecidableEq, Repr

/-- What the program takes from its surroundings: fresh guids, the clock, the readers and writers of
dates, and the texts of numbers. -/
structure Host where
  generateGuid : ℕ → String
  now : ℤ
  /-- Noon of the day that an ISO text starts with, when it is one. -/
  parseNoon : String → Option ℤ
  /-- `toISOString().slice(0, 10)`. -/
  isoDay : ℤ → String
  /-- The text of a number. -/
  numberText : ℚ → String

/-- A host for runs on fixed inputs: every date text is day zero, and guids are runs of marks. -/
def plainHost : Host :=
  ⟨fun n => String.ofList (List.replicate (n + 1) '#'), 0, fun _ => some 0, fun _ => "1970-01-01",
    fun _ => ""⟩

def Db.empty : Db := ⟨[], [], [], [], [], [], [], [], [], [], [], [], [], [], [], 0⟩

/-! ## Failures -/

inductive Failure
  | invalidDate (field value : String)
  | unsupportedOwnerType (ownerType : ℤ)
  | customerNotFound (guid : String)
  | vendorNotFound (guid : String)
  | employeeNotFound (guid : String)
  | jobNotFound (guid : String)
  | jobUnsupportedOwnerType (guid : String) (ownerType : ℤ)
  | jobHasNoOwner (guid : String)
  | entityNotFound (entityType : BusinessEntityType) (guid : String)
  | bookNotFound (guid : String)
  | accountsNotFound (label : String) (guids : List String)
  | currencyNotFound (guid : String)
  | periodLocked (lockDate : String)
  | invoiceNotFound (guid : String)
  | alreadyPosted
  | notPosted
  | noEntries
  | zeroTotal
  | notANumber
  | siblingKeyAdopted (name : String)
  | paymentsApplied
  | postingMissing (id txGuid : String)
  | postingEmpty (id txGuid : String)
  | zeroDenominator (id txGuid : String)
  | postingUnbalanced (id txGuid : String) (num denom : ℤ)
  | lotSplitCount (id txGuid lotGuid : String) (found : ℕ)
  | lotSplitMoved (id txGuid postAcc found : String)
  | paymentNotPositive
  | transferAccountNotFound (guid : String)
  | transferAccountPlaceholder
  | notOpenForOwner (guid : String)
  | allocationNotPositive
  | allocationExceedsDue (amount due : ℚ) (id : String)
  | currencyDiffers (id : String)
  | duplicateAllocation
  | allocationTotal (sum amount : ℚ)
  | exceedsTotalDue (amount due : ℚ)
  | nothingOpen
  | duplicateGuid (guid : String)
  | recordToUpdateNotFound
deriving DecidableEq, Repr

abbrev Tx (α : Type) := StateT Db (Except Failure) α

def require (c : Prop) [Decidable c] (e : Failure) : Except Failure Unit :=
  if c then .ok () else .error e

def found {α : Type} (row : Option α) (e : Failure) : Except Failure α :=
  match row with
  | some a => .ok a
  | none => .error e

variable {u : Unit} {α : Type}

@[simp] theorem require_eq_ok {c : Prop} [Decidable c] {e : Failure} :
    require c e = .ok u ↔ c := by
  unfold require
  split <;> simp_all

@[simp] theorem found_eq_ok {row : Option α} {e : Failure} {a : α} :
    found row e = .ok a ↔ row = some a := by
  cases row <;> simp [found]

/-! ## Queries -/

namespace Db

variable (db : Db)

def invoice? (guid : String) : Option Invoice := db.invoices.find? fun i => i.guid = guid

def account? (guid : String) : Option Account := db.accounts.find? fun a => a.guid = guid

def transaction? (guid : String) : Option Txn := db.transactions.find? fun t => t.guid = guid

def book? (guid : String) : Option BookRow := db.books.find? fun b => b.guid = guid

def splitsOfTx (txGuid : String) : List Split := db.splits.filter fun s => s.txGuid = txGuid

def splitsOfLot (lotGuid : String) : List Split :=
  db.splits.filter fun s => s.lotGuid = some lotGuid

/-- `isEntityOwnedByBook`. -/
def isEntityOwnedByBook (entityType : BusinessEntityType) (entityGuid bookGuid : String) : Bool :=
  ((db.ownership.find? fun o => o.entityType = entityType ∧ o.entityGuid = entityGuid).map
    Ownership.bookGuid) = some bookGuid

/-- The walk of `underRoot` up the account tree, for a bounded number of levels. -/
def underRoot (bookRootGuid : String) : ℕ → Option String → Bool
  | 0, _ => false
  | _ + 1, none => false
  | levels + 1, some guid =>
    match db.account? guid with
    | none => false
    | some a => a.guid = bookRootGuid || underRoot bookRootGuid levels a.parentGuid

/-- The accounts from an account up to its root, as the recursive query lists them. -/
def ancestors : ℕ → Option String → List String
  | 0, _ => []
  | _ + 1, none => []
  | levels + 1, some guid =>
    match db.account? guid with
    | none => []
    | some a => a.guid :: ancestors levels a.parentGuid

/-- `getBookGuidForAccount`. -/
def bookGuidForAccount (accountGuid : String) : Option String :=
  ((db.books.find? fun b => b.rootAccountGuid ∈
    db.ancestors (db.accounts.length + 1) (some accountGuid)).map BookRow.guid)

/-- `getBookGuidForRoot`. -/
def bookGuidForRoot (rootAccountGuid : String) : Option String :=
  (db.books.find? fun b => b.rootAccountGuid = rootAccountGuid).map BookRow.guid

/-- `assertNotLocked`: the day must be after the lock date of the book. -/
def assertNotLocked (bookGuid : Option String) (day : String) : Except Failure Unit :=
  match bookGuid.bind fun g => (db.book? g).bind BookRow.lockDate with
  | none => .ok ()
  | some lockDate => require (lockDate < day) (.periodLocked lockDate)

/-- `bookRootGuidFor`. -/
def bookRootGuidFor (bookGuid : String) : Except Failure String :=
  (found (db.book? bookGuid) (.bookNotFound bookGuid)).map BookRow.rootAccountGuid

/-- `assertAccountsInBook`: every account named must sit under the root of the book. -/
def assertAccountsInBook (bookRootGuid : String) (accountGuids : List String) (label : String) :
    Except Failure Unit :=
  let foreign := (accountGuids.filter (· ≠ "")).dedup.filter fun g =>
    !db.underRoot bookRootGuid 200 (some g)
  require (foreign = []) (.accountsNotFound label foreign)

/-- `getCurrencyFraction`: a fraction of zero counts as a hundred. -/
def getCurrencyFraction (currencyGuid : String) : Except Failure ℕ :=
  (found (db.commodities.find? fun c => c.guid = currencyGuid) (.currencyNotFound currencyGuid)).map
    fun c => if c.fraction = 0 then 100 else c.fraction

theorem getCurrencyFraction_pos {currencyGuid : String} {fraction : ℕ}
    (h : db.getCurrencyFraction currencyGuid = .ok fraction) : 0 < fraction := by
  unfold getCurrencyFraction at h
  cases hc : db.commodities.find? fun c => c.guid = currencyGuid with
  | none =>
    rw [hc] at h
    cases h
  | some c =>
    rw [hc] at h
    cases h
    dsimp only
    split <;> omega

end Db

/-! ## Owners -/

def ownerTypeCustomer : ℤ := 2
def ownerTypeJob : ℤ := 3
def ownerTypeVendor : ℤ := 4
def ownerTypeEmployee : ℤ := 5

structure ResolvedOwner where
  endType : ℤ
  endGuid : String
  directType : ℤ
  directGuid : String
  name : String
  currencyGuid : String
  termsGuid : Option String
  kind : InvoiceKind
deriving DecidableEq, Repr

namespace Db

variable (db : Db)

/-- `resolveOwner` for a customer, a vendor or an employee. -/
def resolveEndOwner (ownerType : ℤ) (ownerGuid : String) : Except Failure ResolvedOwner :=
  if ownerType = ownerTypeCustomer then do
    let c ← found (db.customers.find? fun c => c.guid = ownerGuid) (.customerNotFound ownerGuid)
    return ⟨ownerTypeCustomer, c.guid, ownerType, ownerGuid, c.name, c.currency, c.terms, .invoice⟩
  else if ownerType = ownerTypeVendor then do
    let v ← found (db.vendors.find? fun v => v.guid = ownerGuid) (.vendorNotFound ownerGuid)
    return ⟨ownerTypeVendor, v.guid, ownerType, ownerGuid, v.name, v.currency, v.terms, .bill⟩
  else if ownerType = ownerTypeEmployee then do
    let e ← found (db.employees.find? fun e => e.guid = ownerGuid) (.employeeNotFound ownerGuid)
    return ⟨ownerTypeEmployee, e.guid, ownerType, ownerGuid,
      ((e.addrName.filter (· ≠ "")).getD e.username), e.currency, none, .bill⟩
  else throw (.unsupportedOwnerType ownerType)

/-- `resolveOwner`: the owner itself, or the owner of the job. -/
def resolveOwner (ownerType : ℤ) (ownerGuid : String) : Except Failure ResolvedOwner :=
  if ownerType = ownerTypeJob then do
    let job ← found (db.jobs.find? fun j => j.guid = ownerGuid) (.jobNotFound ownerGuid)
    require (job.ownerType = ownerTypeCustomer ∨ job.ownerType = ownerTypeVendor)
      (.jobUnsupportedOwnerType ownerGuid job.ownerType)
    let parentGuid ← found job.ownerGuid (.jobHasNoOwner ownerGuid)
    let parent ← db.resolveEndOwner job.ownerType parentGuid
    return { parent with directType := ownerTypeJob, directGuid := ownerGuid }
  else db.resolveEndOwner ownerType ownerGuid

end Db

/-! ## Updates -/

def generateGuid (host : Host) : Tx String := do
  let db ← get
  set { db with drawn := db.drawn + 1 }
  return host.generateGuid db.drawn

/-- Insert a transaction; the guid is the primary key. -/
def createTransaction (t : Txn) : Tx Unit := do
  let db ← get
  if (db.transaction? t.guid).isSome then throw (.duplicateGuid t.guid)
  else set { db with transactions := db.transactions ++ [t] }

def createSplit (s : Split) : Tx Unit :=
  modify fun db => { db with splits := db.splits ++ [s] }

/-- Insert one split for each specification, under guids drawn in order. -/
def createSplits {α : Type} (host : Host) (row : α → String → Split) (specs : List α) : Tx Unit :=
  specs.forM fun spec => do
    let guid ← generateGuid host
    createSplit (row spec guid)

/-- The rows that `createSplits` inserts when `drawn` guids were drawn before. -/
def splitRows {α : Type} (host : Host) (row : α → String → Split) : ℕ → List α → List Split
  | _, [] => []
  | drawn, spec :: rest => row spec (host.generateGuid drawn) :: splitRows host row (drawn + 1) rest

def createLot (l : Lot) : Tx Unit :=
  modify fun db => { db with lots := db.lots ++ [l] }

/-- Mark the lot with the given guid closed, failing when there is none. -/
def closeLot (guid : String) : Tx Unit := do
  let db ← get
  if ∃ l ∈ db.lots, l.guid = guid then
    set { db with
      lots := db.lots.map fun l : Lot => if l.guid = guid then { l with isClosed := 1 } else l }
  else throw .recordToUpdateNotFound

def createSlot (r : SlotRow) : Tx Unit :=
  modify fun db => { db with slots := db.slots ++ [r] }

def deleteSlots (p : SlotRow → Bool) : Tx Unit :=
  modify fun db => { db with slots := db.slots.filter fun r => !p r }

def updateInvoice (guid : String) (f : Invoice → Invoice) : Tx Unit :=
  modify fun db => { db with invoices := db.invoices.map fun i => if i.guid = guid then f i else i }

/-! ## What the updates do -/

section Effects

variable {db db' : Db}

variable {host : Host} {guid : String}

@[simp] theorem completes_generateGuid :
    Completes (generateGuid host) db guid db' ↔
      guid = host.generateGuid db.drawn ∧ db' = { db with drawn := db.drawn + 1 } := by
  unfold generateGuid
  rw [completes_get_bind]
  simp [and_comm]

@[simp] theorem completes_createTransaction {t : Txn} :
    Completes (createTransaction t) db u db' ↔
      db.transaction? t.guid = none ∧ db' = { db with transactions := db.transactions ++ [t] } := by
  unfold createTransaction
  rw [completes_get_bind, completes_ite]
  simp

@[simp] theorem completes_createSplit {s : Split} :
    Completes (createSplit s) db u db' ↔ db' = { db with splits := db.splits ++ [s] } :=
  completes_modify

@[simp] theorem completes_createLot {l : Lot} :
    Completes (createLot l) db u db' ↔ db' = { db with lots := db.lots ++ [l] } :=
  completes_modify

@[simp] theorem completes_closeLot :
    Completes (closeLot guid) db u db' ↔ (∃ l ∈ db.lots, l.guid = guid) ∧
      db' = { db with
        lots := db.lots.map fun l : Lot =>
          if l.guid = guid then { l with isClosed := 1 } else l } := by
  unfold closeLot
  rw [completes_get_bind, completes_ite]
  simp

@[simp] theorem completes_createSlot {r : SlotRow} :
    Completes (createSlot r) db u db' ↔ db' = { db with slots := db.slots ++ [r] } :=
  completes_modify

@[simp] theorem completes_deleteSlots {p : SlotRow → Bool} :
    Completes (deleteSlots p) db u db' ↔
      db' = { db with slots := db.slots.filter fun r => !p r } :=
  completes_modify

@[simp] theorem completes_updateInvoice {f : Invoice → Invoice} :
    Completes (updateInvoice guid f) db u db' ↔
      db' = { db with invoices := db.invoices.map fun i => if i.guid = guid then f i else i } :=
  completes_modify

@[simp] theorem completes_createSplits {row : α → String → Split} {specs : List α} :
    Completes (createSplits host row specs) db u db' ↔
      db' = { db with
        splits := db.splits ++ splitRows host row db.drawn specs
        drawn := db.drawn + specs.length } := by
  unfold createSplits
  induction specs generalizing db with
  | nil => simp [splitRows, List.forM]
  | cons spec rest ih =>
    refine completes_bind.trans ?_
    simp only [completes_bind, completes_generateGuid, completes_createSplit]
    constructor
    · rintro ⟨_, _, ⟨_, _, ⟨rfl, rfl⟩, rfl⟩, h⟩
      rw [ih] at h
      rw [h]
      simp [splitRows, Nat.add_comm, Nat.add_left_comm]
    · rintro rfl
      refine ⟨⟨⟩, _, ⟨_, _, ⟨rfl, rfl⟩, rfl⟩, ?_⟩
      rw [ih]
      simp [splitRows, Nat.add_comm, Nat.add_left_comm]

theorem map_splitRows {β : Type} {row : α → String → Split} (f : Split → β)
    (g : α → β) (h : ∀ spec guid, f (row spec guid) = g spec) (drawn : ℕ) (specs : List α) :
    (splitRows host row drawn specs).map f = specs.map g := by
  induction specs generalizing drawn with
  | nil => rfl
  | cons spec rest ih => simp [splitRows, h, ih]

theorem mem_splitRows {row : α → String → Split} {drawn : ℕ}
    {specs : List α} {s : Split} (h : s ∈ splitRows host row drawn specs) :
    ∃ spec ∈ specs, ∃ guid, s = row spec guid := by
  induction specs generalizing drawn with
  | nil => simp [splitRows] at h
  | cons spec rest ih =>
    rcases List.mem_cons.1 h with rfl | h
    · exact ⟨spec, by simp, _, rfl⟩
    · obtain ⟨spec', hmem, guid, rfl⟩ := ih h
      exact ⟨spec', List.mem_cons_of_mem _ hmem, guid, rfl⟩

theorem completes_closeLots {lotGuids : List String}
    (h : Completes (lotGuids.forM closeLot) db u db') : db' = { db with lots := db'.lots } := by
  refine h.forM_induction (P := fun t => t = { db with lots := t.lots }) rfl ?_
  intro guid _ t _ t' ht hclose
  obtain ⟨-, rfl⟩ := completes_closeLot.1 hclose
  rw [ht]

end Effects

end Business
