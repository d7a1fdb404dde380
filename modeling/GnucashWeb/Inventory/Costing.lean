import Mathlib.Algebra.Order.Ring.Rat
import Mathlib.Data.List.Basic
import Mathlib.Tactic.Linarith
import Mathlib.Tactic.NormNum

/-!
# Quantities and costs of stock

The arithmetic of stock movements: signs, availability, the moving average, first-in-first-out
layers and the cost of an assembly.  Numbers are exact.
-/

namespace Inventory

/-! ## Movements -/

inductive MovementType
  | receive | transferIn | assembleProduce | returnIn
  | ship | transferOut | assembleConsume | returnOut | adjust
deriving DecidableEq, Repr

/-- Inbound only, outbound only, or zero for either sign. -/
def MovementType.sign : MovementType → ℚ
  | .receive | .transferIn | .assembleProduce | .returnIn => 1
  | .ship | .transferOut | .assembleConsume | .returnOut => -1
  | .adjust => 0

/-- Whether a movement can carry a cost and change the moving average. -/
def MovementType.costBearing : MovementType → Bool
  | .receive | .returnIn | .assembleProduce | .adjust => true
  | _ => false

structure Movement where
  id : ℕ
  itemId : ℕ
  locationId : ℕ
  movementType : MovementType
  quantity : ℚ
  unitCost : Option ℚ
  movementDate : String
  reference : Option String
  invoiceGuid : Option String
  entryGuid : Option String
  txnGuid : Option String
  counterpartMovementId : Option ℕ
deriving DecidableEq, Repr

def epsilon : ℚ := 1 / 10 ^ 9

theorem epsilon_pos : 0 < epsilon := by
  unfold epsilon
  norm_num

inductive CostFailure
  | adjustZero
  | quantityNotPositive (movementType : MovementType)
  | insufficientStock (label : String) (onHand requestedChange : ℚ)
  | batchesNotPositive
  | outputQuantityNotPositive
  | noComponents
  | componentNotPositive (label : String)
  | fifoQuantityNotPositive
  | insufficientLayers (available requested : ℚ)
deriving DecidableEq, Repr

def signedQuantityForType (movementType : MovementType) (quantity : ℚ) : Except CostFailure ℚ :=
  if movementType.sign = 0 then
    if |quantity| ≤ epsilon then .error .adjustZero else .ok quantity
  else if quantity ≤ epsilon then .error (.quantityNotPositive movementType)
  else .ok (movementType.sign * quantity)

/-- Refuse a change that would drive stock below zero. -/
def assertSufficientStock (onHand signedDelta : ℚ) (label : String) : Except CostFailure Unit :=
  if onHand + signedDelta < -epsilon then .error (.insufficientStock label onHand signedDelta)
  else .ok ()

theorem assertSufficientStock_eq_ok {onHand signedDelta : ℚ} {label : String} {u : Unit} :
    assertSufficientStock onHand signedDelta label = .ok u ↔ -epsilon ≤ onHand + signedDelta := by
  unfold assertSufficientStock
  split <;> simp_all

def applyMovementToAvgCost (currentAvgCost onHandTotal : ℚ) (movementType : MovementType)
    (signedQuantity : ℚ) (unitCost : Option ℚ) : ℚ :=
  match unitCost with
  | none => currentAvgCost
  | some unitCost =>
    if movementType.costBearing = false then currentAvgCost
    else if signedQuantity ≤ epsilon then currentAvgCost
    else
      let base := max onHandTotal 0
      let denom := base + signedQuantity
      if base ≤ epsilon ∨ denom ≤ epsilon then unitCost
      else (base * currentAvgCost + signedQuantity * unitCost) / denom

/-! ## Layers -/

structure FifoLayer where
  quantity : ℚ
  unitCost : ℚ
deriving DecidableEq, Repr

/-- Take a quantity from the oldest layers; what is taken, then what is left. -/
def takeLayers : List FifoLayer → ℚ → List FifoLayer × List FifoLayer
  | [], _ => ([], [])
  | head :: rest, toConsume =>
    if toConsume ≤ epsilon then ([], head :: rest)
    else
      let take := min head.quantity toConsume
      if head.quantity - take ≤ epsilon then
        let (taken, left) := takeLayers rest (toConsume - take)
        (⟨take, head.unitCost⟩ :: taken, left)
      else ([⟨take, head.unitCost⟩], ⟨head.quantity - take, head.unitCost⟩ :: rest)

/-- The layers after a movement; transfers between locations are ignored. -/
def addToLayers (layers : List FifoLayer) (m : Movement) : List FifoLayer :=
  if m.movementType = .transferIn ∨ m.movementType = .transferOut then layers
  else if epsilon < m.quantity then layers ++ [⟨m.quantity, m.unitCost.getD 0⟩]
  else if m.quantity < -epsilon then (takeLayers layers (-m.quantity)).2
  else layers

/-- The remaining layers of an item, from its movements, oldest first. -/
def buildFifoLayers (movements : List Movement) : List FifoLayer :=
  movements.foldl addToLayers []

structure FifoConsumption where
  totalCost : ℚ
  unitCost : ℚ
  breakdown : List FifoLayer
  remaining : List FifoLayer
deriving DecidableEq, Repr

def computeFifoConsumption (layers : List FifoLayer) (quantity : ℚ) :
    Except CostFailure FifoConsumption :=
  let available := (layers.map FifoLayer.quantity).sum
  if quantity ≤ 0 then .error .fifoQuantityNotPositive
  else if available + epsilon < quantity then .error (.insufficientLayers available quantity)
  else
    let (breakdown, remaining) := takeLayers layers quantity
    let totalCost := (breakdown.map fun l => l.quantity * l.unitCost).sum
    .ok ⟨totalCost, totalCost / quantity, breakdown, remaining⟩

structure AssemblyComponentSpec where
  itemId : ℕ
  quantityPerBatch : ℚ
  avgCost : ℚ
  onHandAtLocation : ℚ
  label : String
deriving DecidableEq, Repr

/-- What an assembly takes of one component; the quantity is negative. -/
structure Consumption where
  itemId : ℕ
  quantity : ℚ
  cost : ℚ
deriving DecidableEq, Repr

structure AssemblyPlan where
  consumptions : List Consumption
  producedQuantity : ℚ
  totalCost : ℚ
  unitCost : ℚ
deriving DecidableEq, Repr

def consumeComponent (batches : ℚ) (c : AssemblyComponentSpec) : Except CostFailure Consumption :=
  if c.quantityPerBatch ≤ 0 then .error (.componentNotPositive c.label)
  else do
    let consumed := c.quantityPerBatch * batches
    assertSufficientStock c.onHandAtLocation (-consumed) c.label
    return ⟨c.itemId, -consumed, consumed * c.avgCost⟩

def computeAssemblyCost (components : List AssemblyComponentSpec) (batches outputQuantity : ℚ) :
    Except CostFailure AssemblyPlan :=
  if batches ≤ 0 then .error .batchesNotPositive
  else if outputQuantity ≤ 0 then .error .outputQuantityNotPositive
  else if components = [] then .error .noComponents
  else do
    let consumptions ← components.mapM (consumeComponent batches)
    let totalCost := (consumptions.map Consumption.cost).sum
    let producedQuantity := outputQuantity * batches
    return ⟨consumptions, producedQuantity, totalCost, totalCost / producedQuantity⟩

end Inventory
