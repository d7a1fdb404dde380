import GnucashWeb.Inventory.Operations

/-!
# Fulfilling and returning the lines of an invoice

A request first reads the invoice and what is fulfilled of it and validates its allocations
(`prepareFulfilment`, `prepareReturn`), and then, with the items locked, moves the stock
(`fulfilLocked`, `returnLocked`).
-/

open Ledger Transact
open Business (Host)

namespace Inventory

structure FulfillmentAllocation where
  entryGuid : String
  itemId : ℕ
  quantity : ℚ
  locationId : ℕ
deriving DecidableEq, Repr

structure FulfillInput where
  bookGuid : String
  invoiceGuid : String
  allocations : List FulfillmentAllocation
  date : Option String
  post : Option Bool
deriving DecidableEq, Repr

structure FulfillResult where
  invoiceGuid : String
  movements : List Movement
  /-- The items whose return was posted at an estimated cost. -/
  warnings : List (String × ℚ)
deriving DecidableEq, Repr

/-! ## Validating -/

def newByEntry (allocations : List FulfillmentAllocation) (entryGuid : String) : ℚ :=
  ((allocations.filter fun a => a.entryGuid = entryGuid).map FulfillmentAllocation.quantity).sum

/-- `validateFulfillmentAllocations`: no entry gets more than its quantity on the invoice. -/
def validateFulfillmentAllocations (allocations : List FulfillmentAllocation)
    (entryQuantities alreadyFulfilled : String → Option ℚ) : Except Failure Unit := do
  require (allocations ≠ []) .noAllocations
  allocations.forM fun a => do
    require (a.entryGuid ≠ "") .entryRequired
    require (entryQuantities a.entryGuid).isSome (.entryNotOnInvoice a.entryGuid)
    require (0 < a.quantity) .allocationNotPositive
  allocations.forM fun a =>
    let newQty := newByEntry allocations a.entryGuid
    let entryQty := (entryQuantities a.entryGuid).getD 0
    let fulfilled := (alreadyFulfilled a.entryGuid).getD 0
    require (fulfilled + newQty ≤ entryQty + epsilon)
      (.exceedsRemaining a.entryGuid newQty entryQty fulfilled)

/-- `validateReturnAllocations`: no entry returns more than was fulfilled. -/
def validateReturnAllocations (allocations : List FulfillmentAllocation)
    (fulfilledByEntry : String → Option ℚ) : Except Failure Unit := do
  require (allocations ≠ []) .noAllocations
  allocations.forM fun a => do
    require (a.entryGuid ≠ "") .entryRequired
    require (fulfilledByEntry a.entryGuid).isSome (.entryNotFulfilled a.entryGuid)
    require (0 < a.quantity) .allocationNotPositive
  allocations.forM fun a =>
    let qty := newByEntry allocations a.entryGuid
    let fulfilled := (fulfilledByEntry a.entryGuid).getD 0
    require (qty ≤ fulfilled + epsilon) (.exceedsFulfilled a.entryGuid qty fulfilled)

/-- Whether a movement ships or returns a line of an invoice. -/
def Movement.fulfils (invoiceGuid entryGuid : String) (m : Movement) : Bool :=
  m.invoiceGuid = some invoiceGuid ∧ m.entryGuid = some entryGuid ∧
    (m.movementType = .ship ∨ m.movementType = .returnIn)

namespace Db

variable (db : Db)

/-- `getFulfilledByEntry`: what is shipped of an entry less what came back. -/
def fulfilledByEntry (invoiceGuid entryGuid : String) : Option ℚ :=
  let rows := db.movements.filter fun m => m.fulfils invoiceGuid entryGuid
  if rows = [] then none else some (-(rows.map Movement.quantity).sum)

def entryQuantity (invoiceGuid entryGuid : String) : Option ℚ :=
  (db.ledger.entries.find? fun e => e.guid = entryGuid ∧ e.invoice = some invoiceGuid).map
    fun e => e.quantity.toDecimalNumber

/-- `loadPostedCustomerInvoice`: the number of a posted customer invoice of the book. -/
def loadPostedCustomerInvoice (bookGuid invoiceGuid : String) : Except Failure String := do
  require (db.ledger.isEntityOwnedByBook .invoice invoiceGuid bookGuid)
    (.invoiceNotFound invoiceGuid)
  let invoice ← found (db.ledger.invoice? invoiceGuid) (.invoiceNotFound invoiceGuid)
  let jobType := (invoice.ownerGuid.bind fun g =>
    db.ledger.jobs.find? fun j => j.guid = g).map Business.Job.ownerType
  require (invoice.ownerType = some Business.ownerTypeCustomer ∨
    invoice.ownerType = some Business.ownerTypeJob ∧
      jobType = some Business.ownerTypeCustomer) .notCustomerInvoice
  require invoice.postTxn.isSome (.invoiceNotPosted invoice.id)
  return invoice.id

/-- The weighted cost of all shipments of an item for an entry, when each recorded one. -/
def shipmentWeightedUnitCost (invoiceGuid entryGuid : String) (itemId : ℕ) : Option ℚ :=
  let rows := db.movements.filter fun m => m.invoiceGuid = some invoiceGuid ∧
    m.entryGuid = some entryGuid ∧ m.itemId = itemId ∧ m.movementType = .ship
  let shipmentQuantity := (rows.map fun m => -m.quantity).sum
  let totalCost := (rows.map fun m => -m.quantity * m.unitCost.getD 0).sum
  if shipmentQuantity ≤ epsilon ∨ ∃ m ∈ rows, m.unitCost = none then none
  else some (totalCost / shipmentQuantity)

end Db

/-! ## Fulfilling -/

/-- The reads and the validation of a fulfilment; the number of the invoice. -/
def prepareFulfilment (input : FulfillInput) (db : Db) : Except Failure String := do
  let id ← db.loadPostedCustomerInvoice input.bookGuid input.invoiceGuid
  validateFulfillmentAllocations input.allocations (db.entryQuantity input.invoiceGuid)
    (db.fulfilledByEntry input.invoiceGuid)
  return id

/-- `assertItemsPostable`: every item is configured for posting, unless the caller opted out. -/
def Db.assertItemsPostable (db : Db) (input : FulfillInput) : Except Failure Unit :=
  let unpostable := (input.allocations.map FulfillmentAllocation.itemId).dedup.filterMap fun id =>
    ((db.lockedItem input.bookGuid id).toOption.filter fun item =>
      !(item.postToLedger && item.cogsAccountGuid.isSome && item.assetAccountGuid.isSome)).map
        Item.sku
  require (input.post = some false ∨ unpostable = [])
    (.notConfiguredForPosting (unpostable.insertionSort (· ≤ ·)))

/-- What the allocations of a request take from one item at one location. -/
def demand (allocations : List FulfillmentAllocation) (itemId locationId : ℕ) : ℚ :=
  ((allocations.filter fun a => a.itemId = itemId ∧ a.locationId = locationId).map
    FulfillmentAllocation.quantity).sum

/-- The stock of every item and location covers the whole demand. -/
def Db.checkDemand (db : Db) (input : FulfillInput) : Except Failure Unit :=
  input.allocations.forM fun a => do
    let item ← db.lockedItem input.bookGuid a.itemId
    ofCost (assertSufficientStock (db.onHand a.itemId a.locationId)
      (-demand input.allocations a.itemId a.locationId) item.sku)

def shipAllocation (host : Host) (input : FulfillInput) (date reference : String)
    (a : FulfillmentAllocation) : Tx Movement := do
  let db ← get
  let item ← db.lockedItem input.bookGuid a.itemId
  let effectiveCost ← db.consumptionUnitCost item a.quantity
  let txnGuid ← maybePostCogs host item input.bookGuid a.quantity date input.post (some reference)
    effectiveCost
  insertMovement (MovementInsert.row
    { itemId := item.id, locationId := a.locationId, movementType := .ship
      quantity := -a.quantity, unitCost := some effectiveCost, movementDate := date
      reference := some reference, invoiceGuid := some input.invoiceGuid
      entryGuid := some a.entryGuid, txnGuid := txnGuid, counterpartMovementId := none })

def fulfilLocked (host : Host) (input : FulfillInput) (date id : String) : Tx FulfillResult := do
  let db ← get
  db.lockItems input.bookGuid (input.allocations.map FulfillmentAllocation.itemId)
  input.allocations.forM fun a => liftM (db.assertLocation input.bookGuid a.locationId)
  db.assertItemsPostable input
  db.checkDemand input
  let movements ← input.allocations.mapM (shipAllocation host input date s!"Invoice {id}")
  return ⟨input.invoiceGuid, movements, []⟩

def fulfillInvoiceLines (host : Host) (input : FulfillInput) : Tx FulfillResult := do
  let date ← parseMovementDate host input.date
  let db ← get
  let id ← prepareFulfilment input db
  fulfilLocked host input date id

/-- The reads and the validation of a return; the number of the invoice. -/
def prepareReturn (input : FulfillInput) (db : Db) : Except Failure String := do
  let id ← db.loadPostedCustomerInvoice input.bookGuid input.invoiceGuid
  validateReturnAllocations input.allocations (db.fulfilledByEntry input.invoiceGuid)
  return id

/-- Return one allocation, at its shipment cost or else at the average cost of the item. -/
def returnAllocation (host : Host) (input : FulfillInput) (date reference : String)
    (a : FulfillmentAllocation) : Tx (Movement × Option (String × ℚ)) := do
  let db ← get
  let item ← db.lockedItem input.bookGuid a.itemId
  let basis := db.shipmentWeightedUnitCost input.invoiceGuid a.entryGuid item.id
  let estimatedBasis := input.post.getD false && basis.isNone
  let unitCost := basis.getD item.avgCost
  let txnGuid ← maybePostReturn host item input.bookGuid a.quantity date input.post (some reference)
    unitCost estimatedBasis
  let newAvg := applyMovementToAvgCost item.avgCost (db.onHandTotal item.id) .returnIn a.quantity
    (some unitCost)
  storeAvgCost item newAvg
  let movement ← insertMovement (MovementInsert.row
    { itemId := item.id, locationId := a.locationId, movementType := .returnIn
      quantity := a.quantity, unitCost := some unitCost, movementDate := date
      reference := some reference, invoiceGuid := some input.invoiceGuid
      entryGuid := some a.entryGuid, txnGuid := txnGuid, counterpartMovementId := none })
  return (movement, if estimatedBasis then some (item.sku, unitCost) else none)

def returnLocked (host : Host) (input : FulfillInput) (date id : String) : Tx FulfillResult := do
  let db ← get
  db.lockItems input.bookGuid (input.allocations.map FulfillmentAllocation.itemId)
  input.allocations.forM fun a => liftM (db.assertLocation input.bookGuid a.locationId)
  let returned ← input.allocations.mapM
    (returnAllocation host input date s!"Invoice {id} return")
  return ⟨input.invoiceGuid, returned.map Prod.fst, returned.filterMap Prod.snd⟩

def returnToStock (host : Host) (input : FulfillInput) : Tx FulfillResult := do
  let date ← parseMovementDate host input.date
  let db ← get
  let id ← prepareReturn input db
  returnLocked host input date id

end Inventory
