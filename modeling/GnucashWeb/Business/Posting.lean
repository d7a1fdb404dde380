import GnucashWeb.Business.Payment

/-!
# Posting and unposting a document

`postInvoice` writes the transaction and the lot of a document and points the document at them;
`unpostInvoice` writes the negation of that transaction, retires the links and clears the document.
Each is one database transaction that holds the row lock of the document from its first read on.  The
due date of a posting is left out: no modelled function reads it.

`writePosting_effect` and `writeReversal_effect` say what a call that completes has changed,
`preparePosting_eq_ok` and `prepareUnposting_eq_ok` what it has checked.
-/

open Transact
open Ledger (Amount Split Lot AccountType fromDecimal)

namespace Business

/-! ## Slots -/

/-- The slot that holds the link to the document, as a frame. -/
def frameName : String := "gncInvoice"

def linkName : String := "gncInvoice/invoice-guid"

/-- `writeGuidFrameSlot`, for the link of an object to a document. -/
def writeGuidFrameSlot (host : Host) (objGuid invoiceGuid : String) : Tx Unit := do
  let frameGuid ← generateGuid host
  createSlot ⟨objGuid, frameName, .frame frameGuid⟩
  createSlot ⟨frameGuid, linkName, .guid invoiceGuid⟩

def writeStringSlot (objGuid name value : String) : Tx Unit := do
  deleteSlots fun r => r.objGuid = objGuid ∧ r.name = name
  createSlot ⟨objGuid, name, .string value⟩

/-- The frames under the slots of an object, for a bounded number of levels. -/
def frameGuids (slots : List SlotRow) : ℕ → String → List String
  | 0, _ => []
  | levels + 1, objGuid =>
    objGuid :: (slots.filter fun r => r.objGuid = objGuid).flatMap fun r =>
      match r.value with
      | .frame guid => frameGuids slots levels guid
      | _ => []

/-- `deleteFrameSlot`: the link of an object and everything under it. -/
def deleteFrameSlot (objGuid : String) : Tx Unit := do
  let db ← get
  let frames := (db.slots.filter fun r => r.objGuid = objGuid ∧ r.name = frameName).flatMap fun r =>
    match r.value with
    | .frame guid => frameGuids db.slots (db.slots.length + 1) guid
    | _ => []
  deleteSlots fun r => r.objGuid ∈ frames ∨ r.objGuid = objGuid ∧ r.name = frameName

/-! ## Reading a document -/

def truthy (text : Option String) : Option String := text.filter (· ≠ "")

def Entry.taxTable (kind : InvoiceKind) (row : Entry) : Option String :=
  match kind with
  | .invoice => truthy row.iTaxTable
  | .bill => truthy row.bTaxTable

/-- `entryRowToLine`: a bill has no discount. -/
def entryRowToLine (row : Entry) (kind : InvoiceKind) (taxTables : List TaxTableSpec) :
    EntryLineInput :=
  let taxTable := (row.taxTable kind).bind fun guid => taxTables.find? fun t => t.guid = guid
  match kind with
  | .invoice =>
    { accountGuid := row.iAcct.getD "", description := row.description.getD ""
      quantity := row.quantity.toDecimalNumber, price := row.iPrice.toDecimalNumber
      discount := row.iDiscount.toDecimalNumber, discountType := row.iDiscType.getD .value
      discountHow := row.iDiscHow.getD .pretax, taxable := row.iTaxable
      taxIncluded := row.iTaxIncluded, taxTable := taxTable }
  | .bill =>
    { accountGuid := row.bAcct.getD "", description := row.description.getD ""
      quantity := row.quantity.toDecimalNumber, price := row.bPrice.toDecimalNumber
      discount := 0, discountType := .value, discountHow := .pretax, taxable := row.bTaxable
      taxIncluded := row.bTaxIncluded, taxTable := taxTable }

namespace Db

variable (db : Db)

/-- `loadTaxTables`. -/
def loadTaxTables (guids : List String) : List TaxTableSpec :=
  guids.dedup.map fun guid =>
    ⟨guid, (db.taxTableEntries.filter fun r => r.taxTable = guid).map fun r =>
      ⟨r.account, r.type, r.amount.toDecimalNumber⟩⟩

def entryRows (kind : InvoiceKind) (guid : String) : List Entry :=
  (db.entries.filter fun e => (match kind with
    | .invoice => e.invoice
    | .bill => e.bill) = some guid).insertionSort fun a b => a.date ≤ b.date

def lines (kind : InvoiceKind) (guid : String) : List EntryLineInput :=
  let rows := db.entryRows kind guid
  let taxTables := db.loadTaxTables (rows.filterMap fun r => r.taxTable kind)
  rows.map fun r => entryRowToLine r kind taxTables

end Db

/-! ## The receivable or payable account -/

def InvoiceKind.accountType : InvoiceKind → AccountType
  | .invoice => .receivable
  | .bill => .payable

def InvoiceKind.accountName : InvoiceKind → String
  | .invoice => "Accounts Receivable"
  | .bill => "Accounts Payable"

/-- The accounts of the right type under the root of the book, those in the currency first and then
by guid. -/
def postAccountCandidates (kind : InvoiceKind) (bookRootGuid currencyGuid : String) (db : Db) :
    List Account :=
  (db.accounts.filter fun a => a.accountType = kind.accountType ∧ a.placeholder = false ∧
    db.underRoot bookRootGuid 25 (some a.guid)).insertionSort fun a b =>
      if a.commodityGuid = some currencyGuid ↔ b.commodityGuid = some currencyGuid then
        a.guid ≤ b.guid
      else a.commodityGuid = some currencyGuid

def childNamed (bookRootGuid name : String) (db : Db) : Option Account :=
  db.accounts.find? fun a => a.parentGuid = some bookRootGuid ∧ a.name = name

def coerceAccount (kind : InvoiceKind) (guid : String) (db : Db) : Db :=
  { db with accounts := db.accounts.map fun a =>
      if a.guid = guid then
        { a with
          accountType := kind.accountType, placeholder := false, description := kind.accountName }
      else a }

/-- Find the account for a document, or make one; the name is read again under its lock. -/
def findOrCreatePostAccount (host : Host) (kind : InvoiceKind) (bookRootGuid currencyGuid : String) :
    Tx String := do
  let db ← get
  match (postAccountCandidates kind bookRootGuid currencyGuid db).head?.filter fun a =>
      a.commodityGuid = some currencyGuid with
  | some a => return a.guid
  | none =>
    match childNamed bookRootGuid kind.accountName db with
    | some existing =>
      set (coerceAccount kind existing.guid db)
      return existing.guid
    | none =>
      let db ← get
      require (childNamed bookRootGuid kind.accountName db = none)
        (.siblingKeyAdopted kind.accountName)
      let guid ← generateGuid host
      modify fun db => { db with accounts := db.accounts ++
        [⟨guid, kind.accountName, kind.accountType, some currencyGuid, some bookRootGuid,
          kind.accountName, false⟩] }
      return guid

/-! ## Posting -/

structure PostInvoiceInput where
  postDate : String
  description : Option String
  memo : Option String
deriving DecidableEq, Repr

structure PostResult where
  transactionGuid : String
  lotGuid : String
  postAccountGuid : String
  total : ℚ
deriving DecidableEq, Repr

/-- What a posting has read and computed before it writes. -/
structure Posting where
  bookRootGuid : String
  invoice : Invoice
  owner : ResolvedOwner
  lines : List EntryLineInput
  fraction : ℕ
  postDate : ℤ

namespace Posting

variable (p : Posting)

def totals : InvoiceTotals := computeInvoiceTotals p.lines p.fraction

def specs (input : PostInvoiceInput) (postAccountGuid : String) : List PostingSplitSpec :=
  buildPostingSplits p.owner.kind p.totals p.lines postAccountGuid (input.memo.getD "")

end Posting

def dayText (text : String) : String := String.ofList (text.toList.take 10)

def lockInvoice (bookGuid guid : String) (db : Db) : Except Failure Invoice := do
  require (db.isEntityOwnedByBook .invoice guid bookGuid) (.invoiceNotFound guid)
  found (db.invoice? guid) (.invoiceNotFound guid)

def preparePosting (host : Host) (bookGuid guid : String) (input : PostInvoiceInput) (db : Db) :
    Except Failure Posting := do
  let bookRootGuid ← db.bookRootGuidFor bookGuid
  db.assertNotLocked (db.bookGuidForRoot bookRootGuid) (dayText input.postDate)
  let invoice ← lockInvoice bookGuid guid db
  require (truthy invoice.postTxn = none) .alreadyPosted
  let owner ← db.resolveOwner (invoice.ownerType.getD 0) (invoice.ownerGuid.getD "")
  let lines := db.lines owner.kind guid
  require (lines ≠ []) .noEntries
  let fraction ← db.getCurrencyFraction invoice.currency
  require (∀ line ∈ lines, line.undefinedPretax = false) .notANumber
  require ((computeInvoiceTotals lines fraction).total ≠ 0) .zeroTotal
  let postDate ← found (host.parseNoon input.postDate) (.invalidDate "postDate" input.postDate)
  return ⟨bookRootGuid, invoice, owner, lines, fraction, postDate⟩

/-- The row of a posting split; the receivable or payable leg carries the lot. -/
def postingSplit (fraction : ℕ) (txnGuid lotGuid : String) (spec : PostingSplitSpec)
    (guid : String) : Split :=
  let frac := fromDecimal spec.value fraction
  { guid := guid, txGuid := txnGuid, accountGuid := spec.accountGuid, memo := spec.memo
    action := spec.action, reconcileState := .n, reconcileDate := none, value := frac
    quantity := frac, lotGuid := if spec.isPostSplit then some lotGuid else none }

def postingTxn (host : Host) (input : PostInvoiceInput) (p : Posting) (txnGuid : String) : Txn :=
  ⟨txnGuid, p.invoice.currency, p.invoice.id, some p.postDate, host.now,
    input.description.getD p.owner.name⟩

def markPosted (postDate : ℤ) (r : PostResult) (i : Invoice) : Invoice :=
  { i with
    datePosted := some postDate, postTxn := some r.transactionGuid
    postAcc := some r.postAccountGuid, postLot := some r.lotGuid }

/-- Write the lot, the transaction and the links of a posting. -/
def writePosting (host : Host) (guid : String) (input : PostInvoiceInput) (p : Posting)
    (postAccountGuid : String) : Tx PostResult := do
  let lotGuid ← generateGuid host
  createLot ⟨lotGuid, some postAccountGuid, 0⟩
  writeGuidFrameSlot host lotGuid guid
  let txnGuid ← generateGuid host
  createTransaction (postingTxn host input p txnGuid)
  writeGuidFrameSlot host txnGuid guid
  createSlot ⟨txnGuid, "trans-txn-type", .string "I"⟩
  createSlot ⟨txnGuid, "trans-read-only",
    .string "Generated from an invoice. Try unposting the invoice."⟩
  createSlot ⟨txnGuid, "date-posted", .gdate (dayText input.postDate)⟩
  let db ← get
  db.assertAccountsInBook p.bookRootGuid
    ((p.specs input postAccountGuid).map PostingSplitSpec.accountGuid) "Posting account(s)"
  createSplits host (postingSplit p.fraction txnGuid lotGuid) (p.specs input postAccountGuid)
  let r : PostResult := ⟨txnGuid, lotGuid, postAccountGuid, p.totals.total⟩
  updateInvoice guid (markPosted p.postDate r)
  return r

def postInvoice (host : Host) (bookGuid guid : String) (input : PostInvoiceInput) :
    Tx PostResult := do
  let db ← get
  let p ← preparePosting host bookGuid guid input db
  let postAccountGuid ← findOrCreatePostAccount host p.owner.kind p.bookRootGuid p.invoice.currency
  writePosting host guid input p postAccountGuid

/-! ## Unposting -/

/-- `sumSplitValues`: the exact sum as a reduced fraction. -/
def sumSplitValues (splits : List Split) : ℤ × ℤ :=
  splits.foldl (fun (num, denom) s =>
    let n := num * s.value.denom + s.value.num * denom
    let d := denom * s.value.denom
    let g : ℤ := if Int.gcd n d = 0 then 1 else Int.gcd n d
    (n.tdiv g, d.tdiv g)) (0, 1)

/-- `assertReversiblePosting`: the transaction is still the one that was posted. -/
def assertReversiblePosting (invoice : Invoice) (txGuid : String) (postingTxn : Option Txn)
    (splits : List Split) : Except Failure Txn := do
  let txn ← found postingTxn (.postingMissing invoice.id txGuid)
  require (splits ≠ []) (.postingEmpty invoice.id txGuid)
  require (∀ s ∈ splits, s.value.denom ≠ 0 ∧ s.quantity.denom ≠ 0)
    (.zeroDenominator invoice.id txGuid)
  let sum := sumSplitValues splits
  require (sum.1 = 0) (.postingUnbalanced invoice.id txGuid sum.1 sum.2)
  match truthy invoice.postLot with
  | none => return txn
  | some lotGuid =>
    let lotSplits := splits.filter fun s => s.lotGuid = some lotGuid
    require (lotSplits.length = 1) (.lotSplitCount invoice.id txGuid lotGuid lotSplits.length)
    require (∀ postAcc ∈ truthy invoice.postAcc, ∀ s ∈ lotSplits, s.accountGuid = postAcc)
      (.lotSplitMoved invoice.id txGuid (invoice.postAcc.getD "")
        ((lotSplits.map Split.accountGuid).headD ""))
    return txn

def dayLength : ℤ := 86400000

/-- `reversalPostDate`: noon of today, or the date of the posting when that is later. -/
def reversalPostDate (originalPostDate : Option ℤ) (now : ℤ) : ℤ :=
  let today := now / dayLength * dayLength + dayLength / 2
  max today (originalPostDate.getD today)

structure Unposting where
  invoice : Invoice
  txn : Txn
  splits : List Split
  reversalDate : ℤ

def prepareUnposting (host : Host) (bookGuid guid : String) (db : Db) :
    Except Failure Unposting := do
  let invoice ← lockInvoice bookGuid guid db
  let postTxnGuid ← found (truthy invoice.postTxn) .notPosted
  require (∀ lotGuid ∈ truthy invoice.postLot, ∀ s ∈ db.splitsOfLot lotGuid,
    s.txGuid = postTxnGuid) .paymentsApplied
  let splits := db.splitsOfTx postTxnGuid
  let txn ← assertReversiblePosting invoice postTxnGuid (db.transaction? postTxnGuid) splits
  let reversalDate := reversalPostDate txn.postDate host.now
  match truthy invoice.postAcc with
  | none => return ⟨invoice, txn, splits, reversalDate⟩
  | some postAcc =>
    db.assertNotLocked (db.bookGuidForAccount postAcc) (host.isoDay reversalDate)
    return ⟨invoice, txn, splits, reversalDate⟩

/-- The row of a reversing split: equal and opposite, on the same account and lot. -/
def reversalSplit (reversalGuid memo : String) (s : Split) (guid : String) : Split :=
  { guid := guid, txGuid := reversalGuid, accountGuid := s.accountGuid, memo := memo
    action := s.action, reconcileState := .n, reconcileDate := none
    value := ⟨-s.value.num, s.value.denom⟩, quantity := ⟨-s.quantity.num, s.quantity.denom⟩
    lotGuid := s.lotGuid }

def reversalTxn (host : Host) (u : Unposting) (reversalGuid : String) : Txn :=
  let description := if u.txn.description = "" then "invoice " ++ u.invoice.id
    else u.txn.description
  ⟨reversalGuid, u.txn.currencyGuid, u.txn.num, some u.reversalDate, host.now,
    "Unpost reversal — " ++ description⟩

def reversalMemo (host : Host) (u : Unposting) : String :=
  "Reverses invoice " ++ u.invoice.id ++ " posted " ++
    ((u.txn.postDate.map host.isoDay).getD "undated")

def clearPosted (i : Invoice) : Invoice :=
  { i with datePosted := none, postTxn := none, postAcc := none, postLot := none }

/-- Retire the lot of a posting: its link goes and it is closed. -/
def retireLot (lotGuid : String) : Tx Unit := do
  deleteFrameSlot lotGuid
  closeLot lotGuid

def writeReversal (host : Host) (guid : String) (u : Unposting) : Tx Unit := do
  let reversalGuid ← generateGuid host
  createTransaction (reversalTxn host u reversalGuid)
  createSplits host (reversalSplit reversalGuid (reversalMemo host u)) u.splits
  writeStringSlot reversalGuid "gncweb-reverses-txn" u.txn.guid
  writeStringSlot reversalGuid "gncweb-unposted-invoice-guid" guid
  writeStringSlot reversalGuid "trans-read-only" ("Reverses the posting of invoice " ++ u.invoice.id ++
    ". Deleting it would leave that posting standing alone.")
  deleteFrameSlot u.txn.guid
  writeStringSlot u.txn.guid "gncweb-unposted-invoice-guid" guid
  writeStringSlot u.txn.guid "gncweb-reversed-by-txn" reversalGuid
  writeStringSlot u.txn.guid "trans-read-only" ("Reversed when invoice " ++ u.invoice.id ++
    " was unposted. Kept for the audit trail.")
  ((truthy u.invoice.postLot).toList).forM retireLot
  updateInvoice guid clearPosted

def unpostInvoice (host : Host) (bookGuid guid : String) : Tx Unit := do
  let db ← get
  let u ← prepareUnposting host bookGuid guid db
  writeReversal host guid u

/-! ## What the calls do -/

section Effects

variable {host : Host} {bookGuid guid : String} {db db' : Db}

variable {objGuid : String} {u : Unit} {input : PostInvoiceInput}

theorem completes_writeGuidFrameSlot {invoiceGuid : String} :
    Completes (writeGuidFrameSlot host objGuid invoiceGuid) db u db' ↔
      db' = { db with
        drawn := db.drawn + 1
        slots := db.slots ++ [⟨objGuid, frameName, .frame (host.generateGuid db.drawn)⟩,
          ⟨host.generateGuid db.drawn, linkName, .guid invoiceGuid⟩] } := by
  simp only [writeGuidFrameSlot, completes_bind, completes_generateGuid, completes_createSlot]
  constructor
  · rintro ⟨_, _, ⟨rfl, rfl⟩, _, _, rfl, rfl⟩
    simp
  · rintro rfl
    exact ⟨_, _, ⟨rfl, rfl⟩, ⟨⟩, _, rfl, by simp⟩

theorem completes_writeStringSlot {name value : String} :
    Completes (writeStringSlot objGuid name value) db u db' ↔
      db' = { db with
        slots := (db.slots.filter fun r => !decide (r.objGuid = objGuid ∧ r.name = name)) ++
          [⟨objGuid, name, .string value⟩] } := by
  simp [writeStringSlot]

theorem findOrCreatePostAccount_effect {kind : InvoiceKind} {bookRootGuid currencyGuid a : String}
    (h : Completes (findOrCreatePostAccount host kind bookRootGuid currencyGuid) db a db') :
    db' = { db with accounts := db'.accounts, drawn := db'.drawn } ∧ db.drawn ≤ db'.drawn := by
  unfold findOrCreatePostAccount at h
  rw [completes_get_bind] at h
  split at h
  · obtain ⟨-, rfl⟩ := completes_pure.1 h
    exact ⟨rfl, le_rfl⟩
  · split at h
    · simp only [completes_bind, completes_set] at h
      obtain ⟨_, _, rfl, hr⟩ := h
      obtain ⟨-, rfl⟩ := completes_pure.1 hr
      exact ⟨rfl, le_rfl⟩
    · rw [completes_get_bind] at h
      simp only [completes_bind, completes_liftExcept, completes_generateGuid,
        completes_modify] at h
      obtain ⟨_, _, ⟨-, rfl⟩, _, _, ⟨rfl, rfl⟩, _, _, rfl, hr⟩ := h
      obtain ⟨-, rfl⟩ := completes_pure.1 hr
      exact ⟨rfl, Nat.le_succ _⟩

def postingSlots (host : Host) (guid : String) (drawn : ℕ) (day : String) : List SlotRow :=
  let lotGuid := host.generateGuid drawn
  let txnGuid := host.generateGuid (drawn + 2)
  [⟨lotGuid, frameName, .frame (host.generateGuid (drawn + 1))⟩,
    ⟨host.generateGuid (drawn + 1), linkName, .guid guid⟩,
    ⟨txnGuid, frameName, .frame (host.generateGuid (drawn + 3))⟩,
    ⟨host.generateGuid (drawn + 3), linkName, .guid guid⟩,
    ⟨txnGuid, "trans-txn-type", .string "I"⟩,
    ⟨txnGuid, "trans-read-only", .string "Generated from an invoice. Try unposting the invoice."⟩,
    ⟨txnGuid, "date-posted", .gdate day⟩]

/-- A posting that completes adds a lot, a transaction, its splits and its slots, under guids drawn in
order, and marks the document. -/
theorem writePosting_effect {p : Posting} {postAccountGuid : String}
    {r : PostResult} (h : Completes (writePosting host guid input p postAccountGuid) db r db') :
    r = ⟨host.generateGuid (db.drawn + 2), host.generateGuid db.drawn, postAccountGuid,
        p.totals.total⟩ ∧
      db.transaction? r.transactionGuid = none ∧
      db' = { db with
        lots := db.lots ++ [⟨r.lotGuid, some postAccountGuid, 0⟩]
        transactions := db.transactions ++ [postingTxn host input p r.transactionGuid]
        slots := db.slots ++ postingSlots host guid db.drawn (dayText input.postDate)
        splits := db.splits ++ splitRows host (postingSplit p.fraction r.transactionGuid r.lotGuid)
          (db.drawn + 4) (p.specs input postAccountGuid)
        drawn := db.drawn + 4 + (p.specs input postAccountGuid).length
        invoices := db.invoices.map fun i =>
          if i.guid = guid then markPosted p.postDate r i else i } := by
  simp only [writePosting, completes_bind, completes_generateGuid, completes_createLot,
    completes_writeGuidFrameSlot, completes_createTransaction, completes_createSlot, completes_get,
    completes_liftExcept, completes_createSplits, completes_updateInvoice, completes_pure,
    and_assoc, exists_and_left, exists_eq_left, exists_const] at h
  obtain ⟨hnew, -, -, rfl, rfl⟩ := h
  refine ⟨rfl, hnew, ?_⟩
  simp [postingSlots, Nat.add_assoc]

/-- The links of some objects go, and only text slots of some objects are added. -/
def RetiresLinks (linked texts : List String) (slots slots' : List SlotRow) : Prop :=
  ∀ r ∈ slots', r ∈ slots ∧ (r.name = frameName → r.objGuid ∉ linked) ∨
    r.objGuid ∈ texts ∧ ∃ text, r.value = .string text

theorem RetiresLinks.trans {linked linked' texts texts' : List String}
    {slots slots' slots'' : List SlotRow} (h : RetiresLinks linked texts slots slots')
    (h' : RetiresLinks linked' texts' slots' slots'') :
    RetiresLinks (linked ++ linked') (texts ++ texts') slots slots'' := by
  intro r hr
  rcases h' r hr with ⟨hr', hname'⟩ | ⟨htext, hvalue⟩
  · rcases h r hr' with ⟨hr₀, hname⟩ | ⟨htext, hvalue⟩
    · refine .inl ⟨hr₀, fun hn => ?_⟩
      rw [List.mem_append, not_or]
      exact ⟨hname hn, hname' hn⟩
    · exact .inr ⟨List.mem_append_left _ htext, hvalue⟩
  · exact .inr ⟨List.mem_append_right _ htext, hvalue⟩

theorem writeStringSlot_effect {name value : String}
    (h : Completes (writeStringSlot objGuid name value) db u db') :
    db' = { db with slots := db'.slots } ∧ RetiresLinks [] [objGuid] db.slots db'.slots := by
  rw [completes_writeStringSlot] at h
  subst h
  refine ⟨rfl, fun r hr => ?_⟩
  rcases List.mem_append.1 hr with hr | hr
  · exact .inl ⟨List.mem_of_mem_filter hr, fun _ => List.not_mem_nil⟩
  · rw [List.mem_singleton.1 hr]
    exact .inr ⟨by simp, value, rfl⟩

theorem deleteFrameSlot_effect (h : Completes (deleteFrameSlot objGuid) db u db') :
    db' = { db with slots := db'.slots } ∧ RetiresLinks [objGuid] [] db.slots db'.slots := by
  unfold deleteFrameSlot at h
  rw [completes_get_bind, completes_deleteSlots] at h
  subst h
  refine ⟨rfl, fun r hr => .inl ⟨List.mem_of_mem_filter hr, fun hname hmem => ?_⟩⟩
  have hkept := (List.mem_filter.1 hr).2
  simp [List.mem_singleton.1 hmem, hname] at hkept

theorem retireLots_effect {lotGuids : List String}
    (h : Completes (lotGuids.forM retireLot) db u db') :
    db' = { db with slots := db'.slots, lots := db'.lots } ∧
      db'.lots.map Lot.guid = db.lots.map Lot.guid ∧
      RetiresLinks lotGuids [] db.slots db'.slots := by
  induction lotGuids generalizing db with
  | nil =>
    obtain ⟨-, rfl⟩ := completes_pure.1 h
    exact ⟨rfl, rfl, fun r hr => .inl ⟨hr, fun _ => List.not_mem_nil⟩⟩
  | cons lotGuid rest ih =>
    obtain ⟨_, db₁, hlot, hrest⟩ := completes_bind.1 h
    simp only [retireLot, completes_bind, completes_closeLot] at hlot
    obtain ⟨_, db₀, hdelete, -, rfl⟩ := hlot
    obtain ⟨hdb₀, hslots₀⟩ := deleteFrameSlot_effect hdelete
    obtain ⟨hdb', hlots, hslots⟩ := ih hrest
    refine ⟨?_, ?_, ?_⟩
    · rw [hdb', hdb₀]
    · rw [hlots, hdb₀, List.map_map]
      refine List.map_congr_left fun l _ => ?_
      simp only [Function.comp]
      split <;> rfl
    · simpa using hslots₀.trans hslots

/-- A reversal that completes adds a transaction with the negated splits, retires the links of the
posting and clears the document. -/
theorem writeReversal_effect {v : Unposting} (h : Completes (writeReversal host guid v) db u db') :
    db.transaction? (host.generateGuid db.drawn) = none ∧
      db' = { db with
        transactions := db.transactions ++ [reversalTxn host v (host.generateGuid db.drawn)]
        splits := db.splits ++ splitRows host
          (reversalSplit (host.generateGuid db.drawn) (reversalMemo host v)) (db.drawn + 1) v.splits
        drawn := db.drawn + 1 + v.splits.length
        invoices := db.invoices.map fun i => if i.guid = guid then clearPosted i else i
        slots := db'.slots
        lots := db'.lots } ∧
      db'.lots.map Lot.guid = db.lots.map Lot.guid ∧
      RetiresLinks (v.txn.guid :: (truthy v.invoice.postLot).toList)
        [host.generateGuid db.drawn, v.txn.guid] db.slots db'.slots := by
  simp only [writeReversal, completes_bind, completes_generateGuid, completes_createTransaction,
    completes_createSplits, completes_updateInvoice, and_assoc, exists_and_left, exists_eq_left,
    exists_const] at h
  obtain ⟨hnew, _, db₁, h₁, _, db₂, h₂, _, db₃, h₃, _, db₄, h₄, _, db₅, h₅, _, db₆, h₆, _, db₇, h₇,
    _, db₈, h₈, rfl⟩ := h
  obtain ⟨e₁, s₁⟩ := writeStringSlot_effect h₁
  obtain ⟨e₂, s₂⟩ := writeStringSlot_effect h₂
  obtain ⟨e₃, s₃⟩ := writeStringSlot_effect h₃
  obtain ⟨e₄, s₄⟩ := deleteFrameSlot_effect h₄
  obtain ⟨e₅, s₅⟩ := writeStringSlot_effect h₅
  obtain ⟨e₆, s₆⟩ := writeStringSlot_effect h₆
  obtain ⟨e₇, s₇⟩ := writeStringSlot_effect h₇
  obtain ⟨e₈, hlots, s₈⟩ := retireLots_effect h₈
  refine ⟨hnew, ?_, ?_, ?_⟩
  · rw [e₈, e₇, e₆, e₅, e₄, e₃, e₂, e₁]
  · change db₈.lots.map Lot.guid = _
    rw [hlots, e₇, e₆, e₅, e₄, e₃, e₂, e₁]
  · have hslots := s₁.trans (s₂.trans (s₃.trans (s₄.trans (s₅.trans (s₆.trans (s₇.trans s₈))))))
    intro r hr
    rcases hslots r hr with ⟨hr, hname⟩ | ⟨htext, hvalue⟩
    · exact .inl ⟨hr, fun hn => by simpa using hname hn⟩
    · exact .inr ⟨by simpa using htext, hvalue⟩

/-! ## What the calls have checked -/

theorem preparePosting_eq_ok {p : Posting}
    (h : preparePosting host bookGuid guid input db = .ok p) :
    db.invoice? guid = some p.invoice ∧ truthy p.invoice.postTxn = none ∧
      db.resolveOwner (p.invoice.ownerType.getD 0) (p.invoice.ownerGuid.getD "") = .ok p.owner ∧
      db.getCurrencyFraction p.invoice.currency = .ok p.fraction := by
  simp only [preparePosting, lockInvoice, except_bind_eq_ok, require_eq_ok, found_eq_ok, pure,
    Except.pure, Except.ok.injEq] at h
  obtain ⟨_, -, _, -, invoice, ⟨_, -, hinvoice⟩, _, hposted, owner, howner, _, -, fraction, hfraction,
    _, -, _, -, _, -, rfl⟩ := h
  exact ⟨hinvoice, hposted, howner, hfraction⟩

theorem postInvoice_cases {r : PostResult}
    (h : Completes (postInvoice host bookGuid guid input) db r db') :
    ∃ p postAccountGuid db₁, preparePosting host bookGuid guid input db = .ok p ∧
      Completes (findOrCreatePostAccount host p.owner.kind p.bookRootGuid p.invoice.currency) db
        postAccountGuid db₁ ∧
      Completes (writePosting host guid input p postAccountGuid) db₁ r db' := by
  unfold postInvoice at h
  rw [completes_get_bind] at h
  simp only [completes_bind, completes_liftExcept] at h
  obtain ⟨p, _, ⟨hprepare, rfl⟩, a, db₁, hfind, hwrite⟩ := h
  exact ⟨p, a, db₁, hprepare, hfind, hwrite⟩

theorem assertReversiblePosting_eq_ok {invoice : Invoice} {txGuid : String}
    {postingTxn : Option Txn} {splits : List Split} {txn : Txn}
    (h : assertReversiblePosting invoice txGuid postingTxn splits = .ok txn) :
    postingTxn = some txn := by
  simp only [assertReversiblePosting, except_bind_eq_ok, found_eq_ok] at h
  obtain ⟨txn', htxn, _, -, _, -, _, -, h⟩ := h
  split at h
  · cases h
    exact htxn
  · simp only [except_bind_eq_ok] at h
    obtain ⟨_, -, _, -, h⟩ := h
    cases h
    exact htxn

/-- An unposting that completes has found the posting of the document, and that no other transaction
has a split in its lot. -/
theorem prepareUnposting_eq_ok {v : Unposting}
    (h : prepareUnposting host bookGuid guid db = .ok v) :
    db.invoice? guid = some v.invoice ∧ truthy v.invoice.postTxn = some v.txn.guid ∧
      db.transaction? v.txn.guid = some v.txn ∧ v.splits = db.splitsOfTx v.txn.guid ∧
      ∀ lotGuid ∈ truthy v.invoice.postLot, ∀ s ∈ db.splitsOfLot lotGuid,
        s.txGuid = v.txn.guid := by
  simp only [prepareUnposting, lockInvoice, except_bind_eq_ok, require_eq_ok, found_eq_ok] at h
  obtain ⟨invoice, ⟨_, -, hinvoice⟩, postTxn, hposted, _, hforeign, txn, htxn, h⟩ := h
  have htransaction := assertReversiblePosting_eq_ok htxn
  have hguid : txn.guid = postTxn := by simpa using List.find?_some htransaction
  subst hguid
  split at h
  · cases h
    exact ⟨hinvoice, hposted, htransaction, rfl, hforeign⟩
  · simp only [except_bind_eq_ok] at h
    obtain ⟨_, -, h⟩ := h
    cases h
    exact ⟨hinvoice, hposted, htransaction, rfl, hforeign⟩

theorem unpostInvoice_cases (h : Completes (unpostInvoice host bookGuid guid) db u db') :
    ∃ v, prepareUnposting host bookGuid guid db = .ok v ∧
      Completes (writeReversal host guid v) db u db' := by
  unfold unpostInvoice at h
  rw [completes_get_bind] at h
  simp only [completes_bind, completes_liftExcept] at h
  obtain ⟨v, _, ⟨hprepare, rfl⟩, hwrite⟩ := h
  exact ⟨v, hprepare, hwrite⟩

theorem invoice?_update {f : Invoice → Invoice} (hf : ∀ i, (f i).guid = i.guid) {db' : Db}
    (h : db'.invoices = db.invoices.map fun i => if i.guid = guid then f i else i) :
    db'.invoice? guid = (db.invoice? guid).map f := by
  unfold Db.invoice?
  rw [h]
  induction db.invoices with
  | nil => rfl
  | cons i rest ih =>
    by_cases hi : i.guid = guid
    · simp [hi, hf]
    · simpa [hi] using ih

end Effects

end Business
