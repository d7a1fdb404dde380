import GnucashWeb.Ledger.Book
import Mathlib.Data.List.Sort

/-!
# Average-cost basis

The slots and the write history that an average-cost run leaves on disposal splits and on open lots,
and their removal, for an account or for one run.
-/

open Ledger Transact

namespace Lots

/-- One write of a lot's pooled basis, with the run that made it. -/
structure AvgBasisWrite where
  run : Option String
  value : String
  corrupt : Bool
deriving DecidableEq, Repr

inductive TaxClassification
  | normal | deferred | exempt
deriving DecidableEq, Repr

inductive HoldingPeriod
  | shortTerm | longTerm
deriving DecidableEq, Repr

/-- The currency and the account a realized gain is booked in, with the accounts created for it. -/
structure GainsTarget where
  currencyGuid : String
  currencyFraction : ℤ
  accountGuid : String
  created : List Account

/-- What the engine takes from the language (guids, dates and number texts) and from the modules
that read account names (trade fees, tax classification, the gains account). -/
structure Host where
  generateGuid : ℕ → String
  now : ℤ
  toISOString : ℤ → String
  isoDay : ℤ → String
  parseDate : String → Option ℤ
  parseFloat : String → Option ℚ
  numberText : ℚ → String
  isCorruptBasisValue : String → Bool
  decodeAvgBasisHistory : Option String → Option String → List AvgBasisWrite
  buildFeeAccountPaths : Db → Split → String
  allocateTradeFees : Db → (Split → String) → List Split → String → Option ℚ
  classifyAccountTax : Db → String → TaxClassification
  isLongTerm : Option ℤ → ℤ → Bool
  gainsTarget : Db → Account → List Split → TaxClassification → Option HoldingPeriod →
    Except Failure GainsTarget

/-! ## Slot names -/

def generatedSlot : String := "gnucash_web_generated"
def parentSplitSlot : String := "gnucash_web_parent_split"
def originalQuantityNum : String := "original_quantity_num"
def originalQuantityDenom : String := "original_quantity_denom"
def originalValueNum : String := "original_value_num"
def originalValueDenom : String := "original_value_denom"
def avgCostBasisSlot : String := "avg_cost_basis"
def avgCostBasisRunSlot : String := "avg_cost_basis_run"
def avgBasisRemainingSlot : String := "avg_cost_basis_remaining"
def avgBasisRemainingRunSlot : String := "avg_cost_basis_remaining_run"
def avgBasisRemainingPrevSlot : String := "avg_cost_basis_remaining_prev"
def avgBasisRemainingPrevRunSlot : String := "avg_cost_basis_remaining_prev_run"

/-- The slots of the average-cost election on a disposal split. -/
def avgSplitSlotNames : List String := [avgCostBasisSlot, avgCostBasisRunSlot]

def avgLotSlotNames : List String :=
  [avgBasisRemainingSlot, avgBasisRemainingRunSlot, avgBasisRemainingPrevSlot,
    avgBasisRemainingPrevRunSlot]

variable (host : Host)

/-- `generateGuid`: the next guid. -/
def generateGuid : Tx String := do
  let db ← get
  set { db with drawn := db.drawn + 1 }
  pure (host.generateGuid db.drawn)

/-- The slot text of a basis: six decimals. -/
def formatBasis (basis : ℚ) : String := host.numberText (mathRound (basis * 10 ^ 6) / 10 ^ 6)

/-- Write a disposal split's basis slot, with the run that computed it. -/
def writeAvgCostBasis (splitGuid : String) (basis : ℚ) (runId : String) : Tx Unit := do
  deleteSlots fun r => r.objGuid = splitGuid ∧ r.name ∈ avgSplitSlotNames
  createSlot splitGuid avgCostBasisSlot (formatBasis host basis)
  createSlot splitGuid avgCostBasisRunSlot runId

/-- `readAvgCostBasisForSplits`, for one split: a later row replaces an earlier one. -/
def readAvgCostBasis (db : Db) (splitGuid : String) : Option ℚ :=
  ((db.slots.filter fun r => r.objGuid = splitGuid ∧ r.name = avgCostBasisSlot).filterMap fun r =>
    (r.stringVal.filter fun text => text ≠ "").bind host.parseFloat).getLast?

/-! ## Write history -/

def readAvgBasisHistory (db : Db) (lotGuid : String) : List AvgBasisWrite :=
  ((db.history.filter fun h => h.lotGuid = lotGuid).insertionSort fun a b => a.seqNo ≤ b.seqNo).map
    fun h => ⟨h.runId, h.basisVal, host.isCorruptBasisValue h.basisVal⟩

def deleteAvgBasisHistoryForLots (lotGuids : List String) : Tx Unit :=
  modify fun db => { db with history := db.history.filter fun h => h.lotGuid ∉ lotGuids }

def replaceAvgBasisHistory (lotGuid : String) (stack : List AvgBasisWrite) : Tx Unit := do
  deleteAvgBasisHistoryForLots [lotGuid]
  modify fun db => { db with
    history := db.history ++ stack.zipIdx.map fun (w, i) => ⟨lotGuid, i, w.run, w.value⟩ }

def maxSeqNo (db : Db) (lotGuid : String) : Option ℤ :=
  ((db.history.filter fun h => h.lotGuid = lotGuid).map HistoryRow.seqNo).max?

/-- Push one write onto the writes of a lot. -/
def appendAvgBasisHistory (lotGuid : String) (entry : AvgBasisWrite) : Tx Unit :=
  modify fun db => { db with
    history := db.history ++
      [⟨lotGuid, ((maxSeqNo db lotGuid).map (· + 1)).getD 0, entry.run, entry.value⟩] }

/-- Drop the latest write of a lot when this run made it. -/
def popAvgBasisHistoryTopForRun (lotGuid runId : String) : Tx Unit :=
  modify fun db => { db with
    history := db.history.filter fun h =>
      ¬(h.lotGuid = lotGuid ∧ h.runId = some runId ∧ some h.seqNo = maxSeqNo db lotGuid) }

def lotsWithAvgBasisHistoryForRun (db : Db) (runId : String) : List String :=
  ((db.history.filter fun h => h.runId = some runId).map HistoryRow.lotGuid).eraseDups

/-- Carry the slots of an older layout into the history, once for a lot. -/
def adoptLegacyAvgBasisHistory (lotGuid : String) : Tx (List AvgBasisWrite) := do
  let db ← get
  let legacyRaw := db.slotString lotGuid avgBasisRemainingPrevSlot
  let legacyRun := db.slotString lotGuid avgBasisRemainingPrevRunSlot
  let top := (db.slotString lotGuid avgBasisRemainingSlot).map fun current =>
    ⟨db.slotString lotGuid avgBasisRemainingRunSlot, current, host.isCorruptBasisValue current⟩
  let stack := host.decodeAvgBasisHistory legacyRaw legacyRun ++ top.toList
  onlyIf (stack ≠ []) (replaceAvgBasisHistory lotGuid stack)
  onlyIf (legacyRaw.isSome ∨ legacyRun.isSome) <|
    deleteSlots fun r => r.objGuid = lotGuid ∧
      r.name ∈ [avgBasisRemainingPrevSlot, avgBasisRemainingPrevRunSlot]
  pure stack

/-- Every pooled-basis write of a lot, oldest first. -/
def readAvgBasisWrites (lotGuid : String) : Tx (List AvgBasisWrite) := do
  let db ← get
  let stored := readAvgBasisHistory host db lotGuid
  if stored ≠ [] then pure stored else adoptLegacyAvgBasisHistory host lotGuid

/-- Mirror the latest write into the slots that readers use. -/
def materializeAvgBasisTop (lotGuid : String) (top : AvgBasisWrite) : Tx Unit := do
  createSlot lotGuid avgBasisRemainingSlot top.value
  top.run.forM (createSlot lotGuid avgBasisRemainingRunSlot)

/-- Replace a lot's writes, refusing a latest write that is not a number. -/
def writeAvgBasisWrites (lotGuid : String) (stack : List AvgBasisWrite) : Tx Unit := do
  let replace : Tx Unit := do
    replaceAvgBasisHistory lotGuid stack
    deleteSlots fun r => r.objGuid = lotGuid ∧ r.name ∈ avgLotSlotNames
  match stack.getLast? with
  | none => replace
  | some top =>
    if top.corrupt ∨ host.isCorruptBasisValue top.value then
      throw (.avgBasisHistoryRepairRequired lotGuid (.nextLiveNotNumber top.value))
    else do
      replace
      materializeAvgBasisTop lotGuid top

/-- Record this run's pooled basis of an open lot on top of the writes it displaces. -/
def writeAvgBasisRemaining (lotGuid : String) (basis : ℚ) (runId : String) : Tx Unit := do
  let _ ← readAvgBasisWrites host lotGuid
  let entry : AvgBasisWrite := ⟨some runId, formatBasis host basis, false⟩
  popAvgBasisHistoryTopForRun lotGuid runId
  appendAvgBasisHistory lotGuid entry
  deleteSlots fun r => r.objGuid = lotGuid ∧ r.name ∈ avgLotSlotNames
  materializeAvgBasisTop lotGuid entry

/-- The pooled basis of an open lot, none for a lot without average-cost state, or a refusal. -/
def readLiveAvgBasisRemaining (lotGuid : String) : Tx (Option ℚ) := do
  let db ← get
  let raw := db.slotString lotGuid avgBasisRemainingSlot
  match raw.filter fun text => !host.isCorruptBasisValue text with
  | some text => pure (host.parseFloat text)
  | none => do
    let stack ← readAvgBasisWrites host lotGuid
    match stack.getLast? with
    | none => pure none
    | some top =>
      if top.corrupt ∨ host.isCorruptBasisValue top.value then
        throw (.avgBasisHistoryRepairRequired lotGuid (.latestWriteNotNumber top.value))
      else
        match raw with
        | none => throw (.avgBasisHistoryRepairRequired lotGuid .liveMissing)
        | some text => throw (.avgBasisHistoryRepairRequired lotGuid (.liveNotNumber text))

/-! ## Removal -/

/-- Delete every average-cost artefact of an account, whichever run wrote it. -/
def clearAverageCostArtifacts (accountGuid : String) : Tx Unit := do
  let db ← get
  let splitGuids := (db.splitsOfAccount accountGuid).map Split.guid
  let lotGuids := (db.lots.filter fun l => l.accountGuid = some accountGuid).map Lot.guid
  deleteSlots fun r => r.objGuid ∈ splitGuids ∧ r.name ∈ avgSplitSlotNames
  deleteSlots fun r => r.objGuid ∈ lotGuids ∧ r.name ∈ avgLotSlotNames
  deleteAvgBasisHistoryForLots lotGuids

/-- The average-cost slots of one run, found by their run companions. -/
structure RunAverageArtifacts where
  splitGuids : List String
  lotGuids : List String
  stashLotGuids : List String
deriving DecidableEq, Repr

namespace RunAverageArtifacts

variable (a : RunAverageArtifacts)

/-- `hasRunAverageArtifacts`. -/
def nonempty : Bool := a.splitGuids ≠ [] || a.lotGuids ≠ [] || a.stashLotGuids ≠ []

/-- The lots the run wrote to, whether its write is live or displaced. -/
def touchedLotGuids : List String := (a.lotGuids ++ a.stashLotGuids).eraseDups

end RunAverageArtifacts

/-- The owners of the slots of a name that hold a run id. -/
def ownedBy (db : Db) (runId name : String) : List String :=
  ((db.slots.filter fun r => r.name = name ∧ r.stringVal = some runId).map Slot.objGuid).eraseDups

def findAverageCostArtifactsForRun (db : Db) (runId : String) : RunAverageArtifacts where
  splitGuids := ownedBy db runId avgCostBasisRunSlot
  lotGuids := ownedBy db runId avgBasisRemainingRunSlot
  stashLotGuids :=
    (lotsWithAvgBasisHistoryForRun db runId ++ ownedBy db runId avgBasisRemainingPrevRunSlot ++
      (db.slots.filter fun r => r.name = avgBasisRemainingPrevSlot ∧
        (host.decodeAvgBasisHistory r.stringVal none).any fun e => e.run = some runId).map
        Slot.objGuid).eraseDups

/-- Undo the average-cost slots of one run, leaving those of every other run. -/
def clearAverageCostArtifactsForRun (runId : String) (artifacts : RunAverageArtifacts) :
    Tx Unit := do
  deleteSlots fun r => r.objGuid ∈ artifacts.splitGuids ∧ r.name ∈ avgSplitSlotNames
  let db ← get
  artifacts.touchedLotGuids.forM fun lotGuid =>
    if (db.lot? lotGuid).isSome then do
      let stack ← readAvgBasisWrites host lotGuid
      writeAvgBasisWrites host lotGuid (stack.filter fun entry => entry.run ≠ some runId)
    else writeAvgBasisWrites host lotGuid []

end Lots
