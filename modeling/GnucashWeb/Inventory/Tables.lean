import GnucashWeb.Business.Tables
import GnucashWeb.Inventory.Costing

/-!
# The inventory tables

Items, locations, stock movements and bills of material, over the business tables that a posting
writes to.  A bill of material carries the check that made it: no two lines name one component.
-/

open Transact

namespace Inventory

/-! ## Rows -/

inductive ValuationMethod
  | average | fifo
deriving DecidableEq, Repr

structure Item where
  id : ℕ
  bookGuid : String
  sku : String
  cogsAccountGuid : Option String
  assetAccountGuid : Option String
  postToLedger : Bool
  avgCost : ℚ
  valuationMethod : ValuationMethod
  active : Bool
deriving DecidableEq, Repr

structure Location where
  id : ℕ
  bookGuid : String
  name : String
  active : Bool
deriving DecidableEq, Repr

structure BomLine where
  componentItemId : ℕ
  quantity : ℚ
deriving DecidableEq, Repr

/-! ## Failures -/

/-- What an inventory request is aborted with. -/
inductive Failure
  | cost (e : CostFailure)
  | ledger (e : Business.Failure)
  | invalidDate (field value : String)
  | unitCostNegative
  | unitCostRequired
  | offsetAccountRequired
  | sameLocation
  | transferNotPositive
  | itemNotFound (id : ℕ)
  | itemsNotFound (ids : List ℕ)
  | itemInactive (sku : String)
  | locationNotFound (id : ℕ)
  | locationInactive (name : String)
  | noAssetAccount (sku : String)
  | notConfiguredForPosting (skus : List String)
  | returnNeedsAccounts (sku : String)
  | accountNotFound (label guid : String)
  | accountPlaceholder (label guid : String)
  | accountOfOtherBook (label guid : String) (actual : Option String) (requested : String)
  | noCurrency
  | noSplits
  | bomNotFound (id : ℕ)
  | bomInactive (name : String)
  | bomEmpty (name : String)
  | bomWithoutLines
  | bomConsumesOutput
  | bomDuplicateComponent (id : ℕ)
  | bomLineNotPositive
  | invoiceNotFound (guid : String)
  | notCustomerInvoice
  | invoiceNotPosted (id : String)
  | noAllocations
  | entryRequired
  | entryNotOnInvoice (entryGuid : String)
  | entryNotFulfilled (entryGuid : String)
  | allocationNotPositive
  | exceedsRemaining (entryGuid : String) (newQty entryQty fulfilled : ℚ)
  | exceedsFulfilled (entryGuid : String) (qty fulfilled : ℚ)
deriving DecidableEq, Repr

def require (c : Prop) [Decidable c] (e : Failure) : Except Failure Unit :=
  if c then .ok () else .error e

def found {α : Type} (row : Option α) (e : Failure) : Except Failure α :=
  match row with
  | some a => .ok a
  | none => .error e

@[simp] theorem require_eq_ok {c : Prop} [Decidable c] {e : Failure} {u : Unit} :
    require c e = .ok u ↔ c := by
  unfold require
  split <;> simp_all

@[simp] theorem found_eq_ok {α : Type} {row : Option α} {e : Failure} {a : α} :
    found row e = .ok a ↔ row = some a := by
  cases row <;> simp [found]

def ofCost {α : Type} (x : Except CostFailure α) : Except Failure α := x.mapError .cost

@[simp] theorem ofCost_eq_ok {α : Type} {x : Except CostFailure α} {a : α} :
    ofCost x = .ok a ↔ x = .ok a := by
  cases x <;> simp [ofCost, Except.mapError]

/-- What is checked of one line, after the components seen so far. -/
def validateBomLine (outputItemId : ℕ) (seen : List ℕ) (line : BomLine) :
    Except Failure (List ℕ) := do
  require (line.componentItemId ≠ outputItemId) .bomConsumesOutput
  require (line.componentItemId ∉ seen) (.bomDuplicateComponent line.componentItemId)
  require (0 < line.quantity) .bomLineNotPositive
  return line.componentItemId :: seen

/-- The check that every stored bill of material has passed. -/
def validateBomLines (outputItemId : ℕ) (lines : List BomLine) : Except Failure Unit := do
  require (lines ≠ []) .bomWithoutLines
  let _ ← lines.foldlM (validateBomLine outputItemId) []
  return ()

structure Bom where
  id : ℕ
  itemId : ℕ
  name : String
  outputQuantity : ℚ
  active : Bool
  lines : List BomLine
  valid : validateBomLines itemId lines = .ok ()

theorem nodup_of_foldlM_validateBomLine {outputItemId : ℕ} {lines : List BomLine}
    {seen seen' : List ℕ} (hseen : seen.Nodup)
    (h : lines.foldlM (validateBomLine outputItemId) seen = .ok seen') :
    (seen.reverse ++ lines.map BomLine.componentItemId).Nodup := by
  induction lines generalizing seen with
  | nil => simpa using hseen
  | cons line rest ih =>
    obtain ⟨next, hline, hrest⟩ := except_bind_eq_ok.1 h
    simp only [validateBomLine, except_bind_eq_ok, require_eq_ok, pure, Except.pure,
      Except.ok.injEq] at hline
    obtain ⟨-, -, -, hnew, -, -, rfl⟩ := hline
    have := ih (List.nodup_cons.2 ⟨hnew, hseen⟩) hrest
    simpa using this

theorem Bom.nodup_components (bom : Bom) : (bom.lines.map BomLine.componentItemId).Nodup := by
  have h := bom.valid
  simp only [validateBomLines, except_bind_eq_ok] at h
  obtain ⟨-, -, seen, hlines, -⟩ := h
  simpa using nodup_of_foldlM_validateBomLine List.nodup_nil hlines

/-! ## Tables -/

/-- The tables, and the number of movements inserted so far. -/
structure Db where
  ledger : Business.Db
  items : List Item
  locations : List Location
  movements : List Movement
  boms : List Bom
  movementSeq : ℕ

abbrev Tx (α : Type) := StateT Db (Except Failure) α

namespace Db

variable (db : Db)

def onHand (itemId locationId : ℕ) : ℚ :=
  ((db.movements.filter fun m => m.itemId = itemId ∧ m.locationId = locationId).map
    Movement.quantity).sum

def onHandTotal (itemId : ℕ) : ℚ :=
  ((db.movements.filter fun m => m.itemId = itemId).map Movement.quantity).sum

def itemMovements (itemId : ℕ) : List Movement := db.movements.filter fun m => m.itemId = itemId

/-- `lockItem`: the active item of the book with the given id. -/
def lockItem (bookGuid : String) (itemId : ℕ) : Except Failure Item := do
  let item ← found (db.items.find? fun i => i.id = itemId ∧ i.bookGuid = bookGuid)
    (.itemNotFound itemId)
  require item.active (.itemInactive item.sku)
  return item

/-- `lockItems`: every item named must be an active item of the book. -/
def lockItems (bookGuid : String) (itemIds : List ℕ) : Except Failure Unit := do
  let rows := db.items.filter fun i => i.bookGuid = bookGuid ∧ i.id ∈ itemIds
  let missing := (itemIds.dedup.insertionSort (· ≤ ·)).filter fun id => id ∉ rows.map Item.id
  require (missing = []) (.itemsNotFound missing)
  rows.forM fun item => require item.active (.itemInactive item.sku)

/-- A locked item, read from the rows that `lockItems` returned. -/
def lockedItem (bookGuid : String) (itemId : ℕ) : Except Failure Item :=
  found (db.items.find? fun i => i.id = itemId ∧ i.bookGuid = bookGuid) (.itemNotFound itemId)

/-- `assertLocation`. -/
def assertLocation (bookGuid : String) (locationId : ℕ) : Except Failure Unit := do
  let location ← found (db.locations.find? fun l => l.id = locationId ∧ l.bookGuid = bookGuid)
    (.locationNotFound locationId)
  require location.active (.locationInactive location.name)

end Db

def onLedger {α : Type} (m : Business.Tx α) : Tx α := fun db =>
  match m db.ledger with
  | .ok (a, ledger) => .ok (a, { db with ledger := ledger })
  | .error e => .error (.ledger e)

def insertMovement (m : ℕ → Movement) : Tx Movement := do
  let db ← get
  let movement := m (db.movementSeq + 1)
  set { db with movements := db.movements ++ [movement], movementSeq := db.movementSeq + 1 }
  return movement

def setCounterpart (id counterpart : ℕ) : Tx Unit :=
  modify fun db => { db with
    movements := db.movements.map fun m =>
      if m.id = id then { m with counterpartMovementId := some counterpart } else m }

def updateItemAvgCost (itemId : ℕ) (avgCost : ℚ) : Tx Unit :=
  modify fun db => { db with
    items := db.items.map fun i => if i.id = itemId then { i with avgCost := avgCost } else i }

section Effects

variable {db db' : Db}

@[simp] theorem completes_onLedger {α : Type} {m : Business.Tx α} {a : α} :
    Completes (onLedger m) db a db' ↔
      ∃ ledger, Completes m db.ledger a ledger ∧ db' = { db with ledger := ledger } := by
  unfold Completes onLedger
  cases m db.ledger with
  | error e => simp
  | ok p =>
    constructor
    · intro h
      cases h
      exact ⟨p.2, rfl, rfl⟩
    · rintro ⟨ledger, h, rfl⟩
      cases h
      rfl

@[simp] theorem completes_insertMovement {m : ℕ → Movement} {r : Movement} :
    Completes (insertMovement m) db r db' ↔ r = m (db.movementSeq + 1) ∧
      db' = { db with
        movements := db.movements ++ [m (db.movementSeq + 1)]
        movementSeq := db.movementSeq + 1 } := by
  unfold insertMovement
  rw [completes_get_bind]
  simp [and_comm]

@[simp] theorem completes_setCounterpart {id counterpart : ℕ} {u : Unit} :
    Completes (setCounterpart id counterpart) db u db' ↔ db' = { db with
      movements := db.movements.map fun m =>
        if m.id = id then { m with counterpartMovementId := some counterpart } else m } :=
  completes_modify

@[simp] theorem completes_updateItemAvgCost {itemId : ℕ} {avgCost : ℚ} {u : Unit} :
    Completes (updateItemAvgCost itemId avgCost) db u db' ↔ db' = { db with
      items := db.items.map fun i => if i.id = itemId then { i with avgCost := avgCost } else i } :=
  completes_modify

end Effects

end Inventory
