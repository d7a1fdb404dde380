import GnucashWeb.Inventory.Tables

/-!
# Operations on stock

Postings to the ledger, and the operations that make them.
-/

/-!
## Posting stock movements to the ledger

`writeLedgerTxn` writes one transaction and rounds each of its splits by itself.  `maybePostCogs`
and `maybePostReturn` debit one account and credit another with the cost of a movement.
-/

open Ledger Transact
open Business (Host)

namespace Inventory

/-- A signed value for an account: positive for a debit. -/
structure SplitSpec where
  accountGuid : String
  value : ℚ
  memo : String
deriving DecidableEq, Repr

namespace Db

variable (db : Db)

def fractionOf (c : Business.Commodity) : ℕ := if c.fraction = 0 then 100 else c.fraction

/-- The currency of an account, else US dollars, else any currency, with its fraction. -/
def resolvePostingCurrency (accountGuid : String) : Except Failure (String × ℕ) := do
  let account ← found (db.ledger.account? accountGuid) (.accountNotFound "" accountGuid)
  let own := (account.commodityGuid.bind fun g =>
    db.ledger.commodities.find? fun c => c.guid = g).filter fun c => c.space = "CURRENCY"
  let usd := db.ledger.commodities.find? fun c => c.space = "CURRENCY" ∧ c.mnemonic = "USD"
  let any := db.ledger.commodities.find? fun c => c.space = "CURRENCY"
  let c ← found ((own.or usd).or any) .noCurrency
  return (c.guid, fractionOf c)

/-- `assertPostableAccount`: an account of the book that is not a placeholder. -/
def assertPostableAccount (guid label bookGuid : String) : Except Failure Unit := do
  let account ← found (db.ledger.account? guid) (.accountNotFound label guid)
  require (account.placeholder = false) (.accountPlaceholder label guid)
  let actual := db.ledger.bookGuidForAccount guid
  require (actual = some bookGuid) (.accountOfOtherBook label guid actual bookGuid)

end Db

def ledgerSplit (txnGuid : String) (fraction : ℕ) (spec : SplitSpec) (guid : String) : Split :=
  let frac := fromDecimal spec.value fraction
  { guid := guid, txGuid := txnGuid, accountGuid := spec.accountGuid, memo := spec.memo
    action := "", reconcileState := .n, reconcileDate := none, value := frac, quantity := frac
    lotGuid := none }

def ofLedger {α : Type} (x : Except Business.Failure α) : Except Failure α := x.mapError .ledger

/-- Write a transaction, unless all its splits round to zero. -/
def writeLedgerTxn (host : Host) (date description : String) (splits : List SplitSpec) :
    Tx (Option String) := do
  let db ← get
  let first ← found splits.head? .noSplits
  ofLedger (db.ledger.assertNotLocked (db.ledger.bookGuidForAccount first.accountGuid) date)
  let currency ← db.resolvePostingCurrency first.accountGuid
  if ∀ s ∈ splits, (fromDecimal s.value currency.2).num = 0 then return none
  else do
    let postDate ← found (host.parseNoon date) (.invalidDate "date" date)
    let txnGuid ← onLedger (Business.generateGuid host)
    onLedger (Business.createTransaction
      ⟨txnGuid, currency.1, "", some postDate, host.now, description⟩)
    onLedger (Business.createSlot ⟨txnGuid, "date-posted", .gdate date⟩)
    onLedger (Business.createSplits host (ledgerSplit txnGuid currency.2) splits)
    return some txnGuid

def twoSplits (debit credit : String) (amount : ℚ) (memo : String) : List SplitSpec :=
  [⟨debit, amount, memo⟩, ⟨credit, -amount, memo⟩]

/-- Debit cost of goods sold and credit the asset account, unless the caller opted out. -/
def maybePostCogs (host : Host) (item : Item) (bookGuid : String) (positiveQty : ℚ) (date : String)
    (post : Option Bool) (reference : Option String) (unitCost : ℚ) : Tx (Option String) := do
  if post = some false then return none
  else
    match item.postToLedger, item.cogsAccountGuid, item.assetAccountGuid with
    | true, some cogs, some asset => do
      let db ← get
      db.assertPostableAccount cogs "COGS" bookGuid
      db.assertPostableAccount asset "Asset" bookGuid
      writeLedgerTxn host date s!"COGS: {item.sku} × {host.numberText positiveQty}"
        (twoSplits cogs asset (positiveQty * unitCost) (reference.getD ""))
    | _, _, _ => throw (.notConfiguredForPosting [item.sku])

def returnMemo (reference : Option String) (estimatedBasis : Bool) : String :=
  " — ".intercalate ([reference.getD "",
    if estimatedBasis then "estimated basis (no shipment cost recorded)" else ""].filter (· ≠ ""))

/-- Debit the asset account and credit cost of goods sold, when the caller asked for it. -/
def maybePostReturn (host : Host) (item : Item) (bookGuid : String) (positiveQty : ℚ)
    (date : String) (post : Option Bool) (reference : Option String) (unitCost : ℚ)
    (estimatedBasis : Bool) : Tx (Option String) := do
  if post.getD false = false then return none
  else
    match item.cogsAccountGuid, item.assetAccountGuid with
    | some cogs, some asset => do
      let db ← get
      db.assertPostableAccount cogs "COGS" bookGuid
      db.assertPostableAccount asset "Asset" bookGuid
      writeLedgerTxn host date s!"Inventory return: {item.sku} × {host.numberText positiveQty}"
        (twoSplits asset cogs (positiveQty * unitCost) (returnMemo reference estimatedBasis))
    | _, _ => throw (.returnNeedsAccounts item.sku)

end Inventory

/-!
## Stock operations

Receiving, shipping, adjusting, transferring and assembling stock, and fulfilling and returning the
lines of an invoice.  Each operation is one database transaction.
-/

open Ledger Transact
open Business (Host)

namespace Inventory

/-! ## Reading -/

/-- A date text of the form `YYYY-MM-DD`. -/
def isIsoDay (value : String) : Bool :=
  match value.toList with
  | [a, b, c, d, '-', e, f, '-', g, h] => [a, b, c, d, e, f, g, h].all Char.isDigit
  | _ => false

def parseMovementDate (host : Host) (value : Option String) : Except Failure String :=
  match value with
  | none => .ok (host.isoDay host.now)
  | some value => (require (isIsoDay value) (.invalidDate "date" value)).map fun _ => value

/-- The cost of one unit when a quantity of an item is consumed. -/
def Db.consumptionUnitCost (db : Db) (item : Item) (positiveQty : ℚ) : Except Failure ℚ :=
  match item.valuationMethod with
  | .average => .ok item.avgCost
  | .fifo =>
    match computeFifoConsumption (buildFifoLayers (db.itemMovements item.id)) positiveQty with
    | .ok c => .ok c.unitCost
    | .error (.insufficientLayers _ _) => .ok item.avgCost
    | .error e => .error (.cost e)

structure MovementInsert where
  itemId : ℕ
  locationId : ℕ
  movementType : MovementType
  quantity : ℚ
  unitCost : Option ℚ
  movementDate : String
  reference : Option String
  invoiceGuid : Option String
  entryGuid : Option String
  txnGuid : Option String
  counterpartMovementId : Option ℕ
deriving DecidableEq, Repr

def MovementInsert.row (m : MovementInsert) (id : ℕ) : Movement :=
  { id := id, itemId := m.itemId, locationId := m.locationId, movementType := m.movementType
    quantity := m.quantity, unitCost := m.unitCost, movementDate := m.movementDate
    reference := m.reference, invoiceGuid := m.invoiceGuid, entryGuid := m.entryGuid
    txnGuid := m.txnGuid, counterpartMovementId := m.counterpartMovementId }

structure MovementResult where
  movement : Movement
  item : Item
  txnGuid : Option String
deriving DecidableEq, Repr

def storeAvgCost (item : Item) (newAvg : ℚ) : Tx Unit :=
  onlyIf (newAvg ≠ item.avgCost) (updateItemAvgCost item.id newAvg)

/-! ## Receiving, shipping and adjusting -/

structure ReceiveInput where
  bookGuid : String
  itemId : ℕ
  locationId : ℕ
  quantity : ℚ
  unitCost : Option ℚ
  date : Option String
  reference : Option String
  post : Bool
  offsetAccountGuid : Option String
deriving DecidableEq, Repr

def checkUnitCost (unitCost : Option ℚ) : Except Failure Unit :=
  require (∀ c ∈ unitCost, 0 ≤ c) .unitCostNegative

def postReceive (host : Host) (input : ReceiveInput) (item : Item) (date : String) :
    Tx (Option String) := do
  if input.post = false then return none
  else
    match item.assetAccountGuid, input.offsetAccountGuid with
    | some asset, some offset => do
      let db ← get
      db.assertPostableAccount asset "Asset" input.bookGuid
      db.assertPostableAccount offset "Offset" input.bookGuid
      writeLedgerTxn host date
        s!"Inventory receive: {item.sku} × {host.numberText input.quantity}"
        (twoSplits asset offset (input.quantity * input.unitCost.getD 0) (input.reference.getD ""))
    | none, _ => throw (.noAssetAccount item.sku)
    | some _, none => throw .offsetAccountRequired

def receiveStock (host : Host) (input : ReceiveInput) : Tx MovementResult := do
  let signedQty ← ofCost (signedQuantityForType .receive input.quantity)
  let date ← parseMovementDate host input.date
  checkUnitCost input.unitCost
  require (input.post → input.unitCost.isSome) .unitCostRequired
  require (input.post → ∃ g ∈ input.offsetAccountGuid, g ≠ "") .offsetAccountRequired
  let db ← get
  let item ← db.lockItem input.bookGuid input.itemId
  db.assertLocation input.bookGuid input.locationId
  let txnGuid ← postReceive host input item date
  let newAvg := applyMovementToAvgCost item.avgCost (db.onHandTotal item.id) .receive signedQty
    input.unitCost
  storeAvgCost item newAvg
  let movement ← insertMovement (MovementInsert.row
    { itemId := item.id, locationId := input.locationId, movementType := .receive
      quantity := signedQty, unitCost := input.unitCost, movementDate := date
      reference := input.reference, invoiceGuid := none, entryGuid := none, txnGuid := txnGuid
      counterpartMovementId := none })
  return ⟨movement, { item with avgCost := newAvg }, txnGuid⟩

structure ShipInput where
  bookGuid : String
  itemId : ℕ
  locationId : ℕ
  quantity : ℚ
  date : Option String
  reference : Option String
  post : Option Bool
  invoiceGuid : Option String
  entryGuid : Option String
deriving DecidableEq, Repr

def shipStock (host : Host) (input : ShipInput) : Tx MovementResult := do
  let signedQty ← ofCost (signedQuantityForType .ship input.quantity)
  let date ← parseMovementDate host input.date
  let db ← get
  let item ← db.lockItem input.bookGuid input.itemId
  db.assertLocation input.bookGuid input.locationId
  ofCost (assertSufficientStock (db.onHand item.id input.locationId) signedQty item.sku)
  let effectiveCost ← db.consumptionUnitCost item input.quantity
  let txnGuid ← maybePostCogs host item input.bookGuid input.quantity date input.post
    input.reference effectiveCost
  let movement ← insertMovement (MovementInsert.row
    { itemId := item.id, locationId := input.locationId, movementType := .ship
      quantity := signedQty, unitCost := some effectiveCost, movementDate := date
      reference := input.reference, invoiceGuid := input.invoiceGuid, entryGuid := input.entryGuid
      txnGuid := txnGuid, counterpartMovementId := none })
  return ⟨movement, item, txnGuid⟩

structure AdjustInput where
  bookGuid : String
  itemId : ℕ
  locationId : ℕ
  quantity : ℚ
  unitCost : Option ℚ
  date : Option String
  reference : Option String
deriving DecidableEq, Repr

def Db.adjustCost (db : Db) (item : Item) (signedQty : ℚ) (unitCost : Option ℚ) :
    Except Failure (Option ℚ) :=
  if signedQty < 0 ∧ item.valuationMethod = .fifo then
    (db.consumptionUnitCost item (-signedQty)).map some
  else .ok unitCost

def adjustStock (host : Host) (input : AdjustInput) : Tx MovementResult := do
  let signedQty ← ofCost (signedQuantityForType .adjust input.quantity)
  let date ← parseMovementDate host input.date
  checkUnitCost input.unitCost
  let db ← get
  let item ← db.lockItem input.bookGuid input.itemId
  db.assertLocation input.bookGuid input.locationId
  if signedQty < 0 then
    ofCost (assertSufficientStock (db.onHand item.id input.locationId) signedQty item.sku)
  let newAvg := applyMovementToAvgCost item.avgCost (db.onHandTotal item.id) .adjust signedQty
    input.unitCost
  storeAvgCost item newAvg
  let recordedCost ← db.adjustCost item signedQty input.unitCost
  let movement ← insertMovement (MovementInsert.row
    { itemId := item.id, locationId := input.locationId, movementType := .adjust
      quantity := signedQty, unitCost := recordedCost, movementDate := date
      reference := input.reference, invoiceGuid := none, entryGuid := none, txnGuid := none
      counterpartMovementId := none })
  return ⟨movement, { item with avgCost := newAvg }, none⟩

structure TransferInput where
  bookGuid : String
  itemId : ℕ
  fromLocationId : ℕ
  toLocationId : ℕ
  quantity : ℚ
  date : Option String
  reference : Option String
deriving DecidableEq, Repr

structure TransferResult where
  outMovement : Movement
  inMovement : Movement
deriving DecidableEq, Repr

def transferStock (host : Host) (input : TransferInput) : Tx TransferResult := do
  require (input.fromLocationId ≠ input.toLocationId) .sameLocation
  require (0 < input.quantity) .transferNotPositive
  let date ← parseMovementDate host input.date
  let db ← get
  let item ← db.lockItem input.bookGuid input.itemId
  db.assertLocation input.bookGuid input.fromLocationId
  db.assertLocation input.bookGuid input.toLocationId
  ofCost (assertSufficientStock (db.onHand item.id input.fromLocationId) (-input.quantity) item.sku)
  let outMovement ← insertMovement (MovementInsert.row
    { itemId := item.id, locationId := input.fromLocationId, movementType := .transferOut
      quantity := -input.quantity, unitCost := none, movementDate := date
      reference := input.reference, invoiceGuid := none, entryGuid := none, txnGuid := none
      counterpartMovementId := none })
  let inMovement ← insertMovement (MovementInsert.row
    { itemId := item.id, locationId := input.toLocationId, movementType := .transferIn
      quantity := input.quantity, unitCost := none, movementDate := date
      reference := input.reference, invoiceGuid := none, entryGuid := none, txnGuid := none
      counterpartMovementId := some outMovement.id })
  setCounterpart outMovement.id inMovement.id
  return ⟨{ outMovement with counterpartMovementId := some inMovement.id }, inMovement⟩

/-! ## Assembling -/

structure AssembleInput where
  bookGuid : String
  bomId : ℕ
  batches : ℚ
  locationId : ℕ
  date : Option String
  reference : Option String
  post : Bool
deriving DecidableEq, Repr

structure AssembleResult where
  consumed : List Movement
  produced : Movement
  totalCost : ℚ
  unitCost : ℚ
  producedQuantity : ℚ
  txnGuid : Option String
  reference : String
deriving DecidableEq, Repr

/-- The component of a line, with its stock and the unit cost of what the run consumes. -/
def Db.componentSpec (db : Db) (input : AssembleInput) (line : BomLine) :
    Except Failure AssemblyComponentSpec := do
  let component ← db.lockedItem input.bookGuid line.componentItemId
  let consumedQty := if 0 < input.batches then line.quantity * input.batches else 0
  let avgCost ← if 0 < consumedQty then db.consumptionUnitCost component consumedQty
    else .ok component.avgCost
  return ⟨component.id, line.quantity, avgCost, db.onHand component.id input.locationId,
    component.sku⟩

/-- The components whose cost moves to another asset account, with that account. -/
def Db.transferredCosts (db : Db) (bookGuid outputAsset : String)
    (consumptions : List Consumption) : List (String × ℚ) :=
  consumptions.filterMap fun c =>
    match (db.lockedItem bookGuid c.itemId).toOption.bind Item.assetAccountGuid with
    | some asset => if asset ≠ outputAsset ∧ (0 : ℚ) < c.cost then some (asset, c.cost) else none
    | none => none

/-- The posting of an assembly: what it moves between asset accounts. -/
def postAssembly (host : Host) (input : AssembleInput) (bom : Bom) (output : Item) (date : String)
    (reference : String) (plan : AssemblyPlan) : Tx (Option String) := do
  let db ← get
  match input.post, output.assetAccountGuid with
  | true, some outputAsset => do
    let costs := db.transferredCosts input.bookGuid outputAsset plan.consumptions
    let transferred := (costs.map Prod.snd).sum
    if costs ≠ [] ∧ 0 < transferred then do
      db.assertPostableAccount outputAsset "Asset" input.bookGuid
      costs.forM fun c => liftM (db.assertPostableAccount c.1 "Asset" input.bookGuid)
      writeLedgerTxn host date s!"Assembly: {bom.name} × {host.numberText input.batches}"
        (⟨outputAsset, transferred, reference⟩ :: costs.map fun c => ⟨c.1, -c.2, reference⟩)
    else return none
  | _, _ => return none

def consumeOne (input : AssembleInput) (date reference : String) (txnGuid : Option String)
    (c : Consumption) : Tx Movement := do
  let db ← get
  let component ← db.lockedItem input.bookGuid c.itemId
  insertMovement (MovementInsert.row
    { itemId := c.itemId, locationId := input.locationId, movementType := .assembleConsume
      quantity := c.quantity
      unitCost := if component.valuationMethod = .fifo ∧ c.quantity < 0 then
        some (c.cost / (-c.quantity) : ℚ) else none
      movementDate := date, reference := some reference, invoiceGuid := none, entryGuid := none
      txnGuid := txnGuid, counterpartMovementId := none })

/-- The active bill of material with the given id, when its output item is in the book. -/
def Db.findBom (db : Db) (bookGuid : String) (bomId : ℕ) : Except Failure Bom := do
  let bom ← found (db.boms.find? fun b => b.id = bomId ∧
    ∃ i ∈ db.items, i.id = b.itemId ∧ i.bookGuid = bookGuid) (.bomNotFound bomId)
  require bom.active (.bomInactive bom.name)
  require (bom.lines ≠ []) (.bomEmpty bom.name)
  return bom

def assembleBom (host : Host) (input : AssembleInput) : Tx AssembleResult := do
  let date ← parseMovementDate host input.date
  let db ← get
  let bom ← db.findBom input.bookGuid input.bomId
  db.assertLocation input.bookGuid input.locationId
  db.lockItems input.bookGuid (bom.itemId :: bom.lines.map BomLine.componentItemId)
  let output ← db.lockedItem input.bookGuid bom.itemId
  let componentSpecs ← (bom.lines.mapM (db.componentSpec input) : Except Failure _)
  let plan ← ofCost (computeAssemblyCost componentSpecs input.batches bom.outputQuantity)
  let reference := input.reference.getD s!"ASM-{bom.id}-{host.now}"
  let txnGuid ← postAssembly host input bom output date reference plan
  let consumed ← plan.consumptions.mapM (consumeOne input date reference txnGuid)
  let after ← get
  let newAvg := applyMovementToAvgCost output.avgCost (after.onHandTotal output.id)
    .assembleProduce plan.producedQuantity (some plan.unitCost)
  storeAvgCost output newAvg
  let produced ← insertMovement (MovementInsert.row
    { itemId := output.id, locationId := input.locationId, movementType := .assembleProduce
      quantity := plan.producedQuantity, unitCost := some plan.unitCost, movementDate := date
      reference := some reference, invoiceGuid := none, entryGuid := none, txnGuid := txnGuid
      counterpartMovementId := none })
  return ⟨consumed, produced, plan.totalCost, plan.unitCost, plan.producedQuantity, txnGuid,
    reference⟩

end Inventory
