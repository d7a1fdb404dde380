import GnucashWeb.Business.Tables

/-!
# Applying a payment

`applyPayment` finds the posted documents of an owner, allocates the amount to them and writes one
transaction.  The documents it locks (`lockCandidates`) and the documents it pays
(`openDocuments`) come from two reads of the same query.
-/

open Ledger Transact

namespace Business

inductive PayingOwner
  | customer | vendor | employee
deriving DecidableEq, Repr

namespace PayingOwner

/-- `ownerTypeNameToInt`. -/
def toInt : PayingOwner → ℤ
  | .customer => ownerTypeCustomer
  | .vendor => ownerTypeVendor
  | .employee => ownerTypeEmployee

/-- `ownerEntityType`. -/
def entityType : PayingOwner → BusinessEntityType
  | .customer => .customer
  | .vendor => .vendor
  | .employee => .employee

end PayingOwner

structure ApplyPaymentInput where
  ownerType : PayingOwner
  ownerGuid : String
  transferAccountGuid : String
  amount : ℚ
  date : String
  num : Option String
  memo : Option String
  /-- The caller's own guid for the payment transaction. -/
  transactionGuid : Option String
  /-- The parts for each document; none to pay the oldest documents first. -/
  allocations : List PaymentAllocation
deriving DecidableEq, Repr

structure PaymentResult where
  transactionGuid : String
  allocations : List PaymentAllocation
  fullyPaidInvoiceGuids : List String
deriving DecidableEq, Repr

structure OpenDocument where
  guid : String
  id : String
  kind : InvoiceKind
  datePosted : Option ℤ
  postLot : String
  postAcc : String
  currency : String
  amountDue : ℚ
deriving DecidableEq, Repr

/-! ## Reading -/

namespace Db

variable (db : Db)

/-- `postedOwnerDocsWhere`: the posted documents of an owner and of its jobs that the book owns. -/
def postedOwnerDocsWhere (endOwnerType : ℤ) (ownerGuid bookGuid : String) (i : Invoice) : Bool :=
  let jobGuids := (db.jobs.filter fun j => db.isEntityOwnedByBook .job j.guid bookGuid ∧
    j.ownerType = endOwnerType ∧ j.ownerGuid = some ownerGuid).map Job.guid
  db.isEntityOwnedByBook .invoice i.guid bookGuid ∧ i.postTxn.isSome ∧
    (i.ownerType = some endOwnerType ∧ i.ownerGuid = some ownerGuid ∨
      i.ownerType = some ownerTypeJob ∧ ∃ g ∈ jobGuids, i.ownerGuid = some g)

def postedOwnerDocs (bookGuid : String) (input : ApplyPaymentInput) : List Invoice :=
  db.invoices.filter (db.postedOwnerDocsWhere input.ownerType.toInt input.ownerGuid bookGuid)

def lockCandidates (bookGuid : String) (input : ApplyPaymentInput) : List String :=
  ((db.postedOwnerDocs bookGuid input).map Invoice.guid).insertionSort (· ≤ ·)

/-- The transaction that already carries the caller's guid. -/
def existingPayment (input : ApplyPaymentInput) : Option Txn :=
  (input.transactionGuid.filter (· ≠ "")).bind db.transaction?

end Db

def openDocument (kind : InvoiceKind) (splits : List Split) (inv : Invoice) : Option OpenDocument :=
  match inv.postLot, inv.postAcc with
  | some postLot, some postAcc =>
    some ⟨inv.guid, inv.id, kind, inv.datePosted, postLot, postAcc, inv.currency,
      amountDueFromLotSplits kind
        ((splits.filter fun s => s.lotGuid = some postLot).map fun s => s.value.toDecimalNumber)
        defaultFraction⟩
  | _, _ => none

/-- `loadOpenDocuments`, from the documents and the splits that the two reads return. -/
def loadOpenDocuments (kind : InvoiceKind) (invoices : List Invoice) (splits : List Split) :
    List OpenDocument :=
  invoices.filterMap (openDocument kind splits)

def openByGuid (openDocs : List OpenDocument) (guid : String) : Option OpenDocument :=
  openDocs.find? fun d => d.guid = guid

def checkAllocation (currencyGuid : String) (fraction : ℕ) (openDocs : List OpenDocument)
    (a : PaymentAllocation) : Except Failure Unit := do
  let doc ← found (openByGuid openDocs a.invoiceGuid) (.notOpenForOwner a.invoiceGuid)
  require (0 < a.amount) .allocationNotPositive
  require (a.amount ≤ doc.amountDue + paymentEpsilon fraction)
    (.allocationExceedsDue a.amount doc.amountDue doc.id)
  require (doc.currency = currencyGuid) (.currencyDiffers doc.id)

def explicitAllocations (currencyGuid : String) (fraction : ℕ) (openDocs : List OpenDocument)
    (amount : ℚ) (allocations : List PaymentAllocation) :
    Except Failure (List PaymentAllocation) := do
  allocations.forM (checkAllocation currencyGuid fraction openDocs)
  require (allocations.map PaymentAllocation.invoiceGuid).Nodup .duplicateAllocation
  let sum := roundCurrency (allocations.map PaymentAllocation.amount).sum fraction
  require (|sum - amount| ≤ paymentEpsilon fraction) (.allocationTotal sum amount)
  return allocations.map fun a => ⟨a.invoiceGuid, roundCurrency a.amount fraction⟩

def fifoAllocations (currencyGuid : String) (fraction : ℕ) (openDocs : List OpenDocument)
    (amount : ℚ) : Except Failure (List PaymentAllocation) := do
  let sameCurrency := openDocs.filter fun d => d.currency = currencyGuid
  let fifo := allocatePaymentFifo
    (sameCurrency.map fun d => ⟨d.guid, d.datePosted, d.amountDue⟩) amount fraction
  require (fifo.remainder ≤ paymentEpsilon fraction)
    (.exceedsTotalDue amount (roundCurrency (amount - fifo.remainder) fraction))
  require (fifo.allocations ≠ []) .nothingOpen
  return fifo.allocations

def chooseAllocations (currencyGuid : String) (fraction : ℕ) (openDocs : List OpenDocument)
    (amount : ℚ) (input : ApplyPaymentInput) : Except Failure (List PaymentAllocation) :=
  if input.allocations ≠ [] then
    explicitAllocations currencyGuid fraction openDocs amount input.allocations
  else fifoAllocations currencyGuid fraction openDocs amount

/-! ## Writing -/

def paymentSplit (fraction : ℕ) (txnGuid : String) (spec : PaymentSplitSpec) (guid : String) :
    Split :=
  let frac := fromDecimal spec.value fraction
  { guid := guid, txGuid := txnGuid, accountGuid := spec.accountGuid, memo := spec.memo
    action := spec.action, reconcileState := .n, reconcileDate := none, value := frac
    quantity := frac, lotGuid := spec.lotGuid }

def paymentSpecs (kind : InvoiceKind) (openDocs : List OpenDocument) (amount : ℚ)
    (allocations : List PaymentAllocation) (input : ApplyPaymentInput) : List PaymentSplitSpec :=
  buildPaymentSplits kind amount input.transferAccountGuid
    (allocations.filterMap fun a => (openByGuid openDocs a.invoiceGuid).map fun doc =>
      ⟨doc.postAcc, doc.postLot, a.amount⟩) (input.memo.getD "")

def fullyPaid (fraction : ℕ) (openDocs : List OpenDocument) (allocations : List PaymentAllocation) :
    List OpenDocument :=
  allocations.filterMap fun a => (openByGuid openDocs a.invoiceGuid).filter fun doc =>
    |doc.amountDue - a.amount| ≤ paymentEpsilon fraction

def paymentTxn (host : Host) (input : ApplyPaymentInput) (owner : ResolvedOwner) (postDate : ℤ)
    (txnGuid : String) : Txn :=
  ⟨txnGuid, owner.currencyGuid, input.num.getD "", some postDate, host.now, owner.name⟩

def paymentGuid (host : Host) (input : ApplyPaymentInput) : Tx String :=
  match input.transactionGuid with
  | some guid => pure guid
  | none => generateGuid host

/-- Write the payment transaction and close the lots that it pays in full. -/
def writePayment (host : Host) (input : ApplyPaymentInput) (owner : ResolvedOwner) (fraction : ℕ)
    (postDate : ℤ) (openDocs : List OpenDocument) (allocations : List PaymentAllocation) :
    Tx PaymentResult := do
  let txnGuid ← paymentGuid host input
  createTransaction (paymentTxn host input owner postDate txnGuid)
  createSlot ⟨txnGuid, "trans-txn-type", .string "P"⟩
  createSlot ⟨txnGuid, "date-posted", .gdate (host.isoDay postDate)⟩
  createSplits host (paymentSplit fraction txnGuid)
    (paymentSpecs owner.kind openDocs (roundCurrency input.amount fraction) allocations input)
  ((fullyPaid fraction openDocs allocations).map OpenDocument.postLot).forM closeLot
  return ⟨txnGuid, allocations, (fullyPaid fraction openDocs allocations).map OpenDocument.guid⟩

variable {owner : ResolvedOwner} {postDate : ℤ}

theorem writePayment_effect {host : Host} {input : ApplyPaymentInput}
    {fraction : ℕ} {openDocs : List OpenDocument}
    {allocations : List PaymentAllocation} {db db' : Db} {r : PaymentResult}
    (h : Completes (writePayment host input owner fraction postDate openDocs allocations) db r db') :
    ∃ drawn specs, db.transaction? r.transactionGuid = none ∧
      specs = paymentSpecs owner.kind openDocs (roundCurrency input.amount fraction) allocations
        input ∧
      db' = { db with
        transactions := db.transactions ++ [paymentTxn host input owner postDate r.transactionGuid]
        slots := db'.slots
        splits := db.splits ++ splitRows host (paymentSplit fraction r.transactionGuid) drawn specs
        lots := db'.lots
        drawn := db'.drawn } := by
  obtain ⟨txnGuid, db₁, hguid, h⟩ := completes_bind.1 h
  have hdb₁ : db₁ = { db with drawn := db₁.drawn } := by
    unfold paymentGuid at hguid
    cases hgiven : input.transactionGuid with
    | some guid =>
      rw [hgiven] at hguid
      rw [(completes_pure.1 hguid).2]
    | none =>
      rw [hgiven] at hguid
      rw [(completes_generateGuid.1 hguid).2]
  simp only [completes_bind, completes_createTransaction, completes_createSlot,
    completes_createSplits, completes_pure] at h
  obtain ⟨_, _, ⟨hnew, rfl⟩, _, _, rfl, _, _, rfl, _, _, rfl, _, _, hclose, rfl, rfl⟩ := h
  rw [hdb₁] at hnew
  refine ⟨db₁.drawn, _, hnew, rfl, ?_⟩
  rw [completes_closeLots hclose, hdb₁]

/-- The transaction of a payment, after its row locks are held. -/
def payLocked (host : Host) (bookGuid : String) (input : ApplyPaymentInput) (owner : ResolvedOwner)
    (postDate : ℤ) : Tx PaymentResult := do
  let db ← get
  match db.existingPayment input with
  | some txn => return ⟨txn.guid, input.allocations, []⟩
  | none =>
    let transferAccount ← found (db.account? input.transferAccountGuid)
      (.transferAccountNotFound input.transferAccountGuid)
    require (transferAccount.placeholder = false) .transferAccountPlaceholder
    let fraction ← db.getCurrencyFraction owner.currencyGuid
    let openDocs := loadOpenDocuments owner.kind (db.postedOwnerDocs bookGuid input) db.splits
    let allocations ← chooseAllocations owner.currencyGuid fraction openDocs
      (roundCurrency input.amount fraction) input
    writePayment host input owner fraction postDate openDocs allocations

/-- What a payment checks of its owner and its transfer account. -/
def checkPayment (bookGuid : String) (input : ApplyPaymentInput) (db : Db) :
    Except Failure ResolvedOwner := do
  require (db.isEntityOwnedByBook input.ownerType.entityType input.ownerGuid bookGuid)
    (.entityNotFound input.ownerType.entityType input.ownerGuid)
  let owner ← db.resolveOwner input.ownerType.toInt input.ownerGuid
  let root ← db.bookRootGuidFor bookGuid
  db.assertAccountsInBook root [input.transferAccountGuid] "Transfer account"
  return owner

/-- Apply a payment; a payment whose guid is already there is answered without writing. -/
def applyPayment (host : Host) (bookGuid : String) (input : ApplyPaymentInput) :
    Tx PaymentResult := do
  require (0 < input.amount) .paymentNotPositive
  let postDate ← found (host.parseNoon input.date) (.invalidDate "date" input.date)
  let db ← get
  match db.existingPayment input with
  | some txn => return ⟨txn.guid, input.allocations, []⟩
  | none =>
    db.assertNotLocked (db.bookGuidForAccount input.transferAccountGuid) (host.isoDay postDate)
    let owner ← checkPayment bookGuid input db
    payLocked host bookGuid input owner postDate

/-! ## The transaction of a request -/

/-- A payment under a guid of its own answers with that guid, and writes one transaction exactly
when there is none under it. -/
def PaysUnder (guid : String) (r : PaymentResult) (db db' : Db) : Prop :=
  r.transactionGuid = guid ∧ ((db.transaction? guid).isSome ∧ db' = db ∨
    db.transaction? guid = none ∧
      ∃ t : Txn, t.guid = guid ∧ db'.transactions = db.transactions ++ [t])

section Under

variable {host : Host} {bookGuid guid : String} {input : ApplyPaymentInput} {db db' : Db}
  {r : PaymentResult}

theorem existingPayment_eq (hne : guid ≠ "") (hguid : input.transactionGuid = some guid) :
    db.existingPayment input = db.transaction? guid := by
  rw [Db.existingPayment, hguid, Option.filter_some, if_pos (by simpa using hne)]
  rfl

theorem paysUnder_existing {txn : Txn} (hex : db.transaction? guid = some txn)
    (hr : r = ⟨txn.guid, input.allocations, []⟩) : PaysUnder guid r db db := by
  subst hr
  have htxn : txn.guid = guid := by simpa using List.find?_some hex
  exact ⟨htxn, .inl ⟨by rw [hex]; rfl, rfl⟩⟩

theorem writePayment_guid {fraction : ℕ}
    {openDocs : List OpenDocument} {allocations : List PaymentAllocation}
    (hguid : input.transactionGuid = some guid)
    (h : Completes (writePayment host input owner fraction postDate openDocs allocations) db r db') :
    r.transactionGuid = guid := by
  obtain ⟨txnGuid, _, hdrawn, h⟩ := completes_bind.1 h
  rw [paymentGuid, hguid] at hdrawn
  obtain ⟨rfl, -⟩ := completes_pure.1 hdrawn
  simp only [completes_bind, completes_pure] at h
  obtain ⟨_, _, -, _, _, -, _, _, -, _, _, -, _, _, -, rfl, -⟩ := h
  rfl

theorem payLocked_paysUnder (hne : guid ≠ "") (hguid : input.transactionGuid = some guid)
    (h : Completes (payLocked host bookGuid input owner postDate) db r db') :
    PaysUnder guid r db db' := by
  unfold payLocked at h
  rw [completes_get_bind, existingPayment_eq hne hguid] at h
  split at h
  · next txn hex =>
      obtain ⟨hr, rfl⟩ := completes_pure.1 h
      exact paysUnder_existing hex hr
  · next hnone =>
      simp only [completes_bind, completes_liftExcept] at h
      obtain ⟨_, _, ⟨-, rfl⟩, _, _, ⟨-, rfl⟩, _, _, ⟨-, rfl⟩, _, _, ⟨-, rfl⟩, hwrite⟩ := h
      obtain ⟨_, _, -, -, hdb'⟩ := writePayment_effect hwrite
      have hr := writePayment_guid hguid hwrite
      exact ⟨hr, .inr ⟨hnone, _, hr, by rw [hdb']⟩⟩

theorem applyPayment_paysUnder (hne : guid ≠ "") (hguid : input.transactionGuid = some guid)
    (h : Completes (applyPayment host bookGuid input) db r db') : PaysUnder guid r db db' := by
  unfold applyPayment at h
  simp only [completes_bind, completes_liftExcept] at h
  obtain ⟨_, _, ⟨-, rfl⟩, _, _, ⟨-, rfl⟩, _, _, hget, h⟩ := h
  obtain ⟨rfl, rfl⟩ := completes_get.1 hget
  rw [existingPayment_eq hne hguid] at h
  split at h
  · next txn hex =>
      obtain ⟨hr, rfl⟩ := completes_pure.1 h
      exact paysUnder_existing hex hr
  · simp only [completes_bind, completes_liftExcept] at h
    obtain ⟨_, _, ⟨-, rfl⟩, _, _, ⟨-, rfl⟩, hpay⟩ := h
    exact payLocked_paysUnder hne hguid hpay

end Under

end Business
