import GnucashWeb.Lots.Assign

/-!
# Undoing runs

`revertScrubRun` undoes one run by its tags and stashed amounts; `clearLotAssignments` undoes every
run of an account and destroys its lots.
-/

open Ledger Transact

namespace Lots

variable (host : Host)

/-! ## Restoring stashed amounts -/

def stashSlotNames : List String :=
  [originalQuantityNum, originalQuantityDenom, originalValueNum, originalValueDenom, generatedSlot]

/-- `BigInt(text)`. -/
def toBigInt (text : String) : Tx ℤ :=
  match Text.bigInt text.toList with
  | some n => pure n
  | none => throw (.cannotConvertToBigInt text)

/-- The texts of a stash, read from a row of its quantity and the first rows of the others; none
when one is missing or empty. -/
def stashTexts (db : Db) (row : Slot) : Option (String × String × String × String) := do
  let qtyNum ← row.stringVal.filter fun text => text ≠ ""
  let qtyDenom ← db.slotText row.objGuid originalQuantityDenom
  let valNum ← db.slotText row.objGuid originalValueNum
  let valDenom ← db.slotText row.objGuid originalValueDenom
  pure (qtyNum, qtyDenom, valNum, valDenom)

/-- Give a split its stashed amounts back, outside any lot. -/
def restoreSplit (guid : String) (texts : String × String × String × String) : Tx Unit := do
  let qtyNum ← toBigInt texts.1
  let qtyDenom ← toBigInt texts.2.1
  let valNum ← toBigInt texts.2.2.1
  let valDenom ← toBigInt texts.2.2.2
  updateSplit guid fun s =>
    { s with quantity := ⟨qtyNum, qtyDenom⟩, value := ⟨valNum, valDenom⟩, lotGuid := none }

/-- Restore the split of one `original_quantity_num` row and drop its stash. -/
def restoreOriginal (row : Slot) : Tx Unit := do
  let db ← get
  (stashTexts db row).forM (restoreSplit row.objGuid)
  deleteSlots fun r => r.objGuid = row.objGuid ∧ r.name ∈ stashSlotNames

def deleteWholeTransactions (txGuids : List String) : Tx Unit := do
  let db ← get
  let splitGuids := (db.splits.filter fun s => s.txGuid ∈ txGuids).map Split.guid
  deleteSlots fun r => r.objGuid ∈ splitGuids
  deleteSplits fun s => s.txGuid ∈ txGuids
  deleteSlots fun r => r.objGuid ∈ txGuids
  deleteTransactions fun t => t.guid ∈ txGuids

def deleteSplitRows (guids : List String) : Tx Unit := do
  deleteSlots fun r => r.objGuid ∈ guids
  deleteSplits fun s => s.guid ∈ guids

/-- Fail when an undo would change a reconciled or frozen split without a generated sub-split of
that very split being deleted beside it. -/
def assertRevertPreservesReconciled (operation : String)
    (deletedTxGuids restoredSplitGuids taggedSplitGuids : List String) : Tx Unit := do
  let db ← get
  let deletedSubSplits := (db.splits.filter fun s => s.guid ∈ taggedSplitGuids ∧
    s.guid ∉ restoredSplitGuids ∧ s.txGuid ∉ deletedTxGuids).map Split.guid
  let compensatedParents := (db.slots.filter fun r =>
    r.objGuid ∈ deletedSubSplits ∧ r.name = parentSplitSlot).filterMap Slot.stringVal
  let offending := db.splits.filter fun s =>
    s.txGuid ∈ deletedTxGuids ∨ (s.guid ∈ restoredSplitGuids ∧ s.guid ∉ compensatedParents)
  assertSplitsNotProtected operation
    (fun s => (db.account? s.accountGuid).map Account.name) offending

/-! ## Clearing an account -/

structure ClearResult where
  splitsUnassigned : ℕ
  lotsDeleted : ℕ
deriving DecidableEq, Repr

def accountSlots (db : Db) (accountGuid name : String) : List Slot :=
  db.slots.filter fun r =>
    r.name = name ∧ r.objGuid ∈ (db.splitsOfAccount accountGuid).map Split.guid

/-- The number of tags on the splits of a transaction. -/
def taggedCount (db : Db) (txGuid : String) : ℕ :=
  (db.slots.filter fun r =>
    r.objGuid ∈ (db.splitsOfTx txGuid).map Split.guid ∧ r.name = generatedSlot).length

/-- The transactions with a tagged split in an account that count as many tags as splits. -/
def generatedTxGuids (db : Db) (accountGuid : String) : List String :=
  let tagged := (accountSlots db accountGuid generatedSlot).map Slot.objGuid
  (((db.splits.filter fun s => s.guid ∈ tagged).map Split.txGuid).eraseDups).filter fun txGuid =>
    taggedCount db txGuid = (db.splitsOfTx txGuid).length

def lotSlotNames : List String :=
  ["title", sourceLotSlot, sourceSplitSlot, acquisitionDateSlot, carriedBasisSlot] ++
    avgLotSlotNames ++ [generatedSlot]

/-- Undo the runs of an account: restore its divided splits, delete what runs generated, unassign
every split and delete the empty lots. -/
def clearLotAssignments (accountGuid : String) : Tx ClearResult := do
  let db ← get
  let tagged := (accountSlots db accountGuid generatedSlot).map Slot.objGuid
  let originals := accountSlots db accountGuid originalQuantityNum
  let generated := generatedTxGuids db accountGuid
  assertRevertPreservesReconciled "clear the lot assignments on this account" generated
    (originals.map Slot.objGuid) tagged
  originals.forM restoreOriginal
  generated.forM fun txGuid => deleteWholeTransactions [txGuid]
  let db ← get
  deleteSplitRows ((accountSlots db accountGuid generatedSlot).map Slot.objGuid)
  clearAverageCostArtifacts accountGuid
  let db ← get
  let assigned (s : Split) : Bool := s.accountGuid = accountGuid ∧ s.lotGuid.isSome
  updateSplits assigned fun s => { s with lotGuid := none }
  let splitsUnassigned := (db.splits.filter assigned).length
  let db ← get
  let emptyLots := (db.lots.filter fun l =>
    l.accountGuid = some accountGuid ∧ db.splitsOfLot l.guid = []).map Lot.guid
  deleteSlots fun r => r.objGuid ∈ emptyLots ∧ r.name ∈ lotSlotNames
  deleteLots fun l => l.guid ∈ emptyLots
  pure ⟨splitsUnassigned, emptyLots.length⟩

/-! ## Reverting a run -/

/-- What a run left in the tables, read before anything is deleted. -/
structure RunFootprint where
  taggedGuids : List String
  artifacts : RunAverageArtifacts
  txGuids : List String
  taggedSplits : List Split
  taggedLots : List Lot
  avgSplitOwners : List Split
  avgLotOwners : List Lot
  originals : List Slot

def runFootprint (db : Db) (runId : String) : RunFootprint :=
  let taggedGuids := (db.slots.filter fun r =>
    r.name = generatedSlot ∧ r.stringVal = some runId).map Slot.objGuid
  let artifacts := findAverageCostArtifactsForRun host db runId
  { taggedGuids
    artifacts
    txGuids := (db.transactions.filter fun t => t.guid ∈ taggedGuids).map Transaction.guid
    taggedSplits := db.splits.filter fun s => s.guid ∈ taggedGuids
    taggedLots := db.lots.filter fun l => l.guid ∈ taggedGuids
    avgSplitOwners := db.splits.filter fun s => s.guid ∈ artifacts.splitGuids
    avgLotOwners := db.lots.filter fun l => l.guid ∈ artifacts.touchedLotGuids
    originals := db.slots.filter fun r => r.name = originalQuantityNum ∧ r.objGuid ∈ taggedGuids }

def RunFootprint.affectedAccounts (fp : RunFootprint) (db : Db) : List String :=
  ((db.splits.filter fun s => s.txGuid ∈ fp.txGuids) ++ fp.taggedSplits ++ fp.avgSplitOwners).map
    Split.accountGuid ++ (fp.taggedLots ++ fp.avgLotOwners).filterMap Lot.accountGuid

/-- Delete the lots a run created, detaching their splits. -/
def deleteTaggedLots (lotGuids : List String) : Tx Unit := do
  updateSplits (fun s => ∃ l ∈ lotGuids, s.lotGuid = some l) fun s => { s with lotGuid := none }
  deleteSlots fun r => r.objGuid ∈ lotGuids
  deleteAvgBasisHistoryForLots lotGuids
  deleteLots fun l => l.guid ∈ lotGuids

def reopenRefilled (lot : Lot) : Tx Unit := do
  let db ← get
  onlyIf (1 / 10 ^ 9 < |lotShares db lot.guid|) <|
    updateLot lot.guid fun l => { l with isClosed := 0 }

/-- Detach the disposals a run priced and reopen the lots they had emptied. -/
def detachPriced (splitGuids detachedLotGuids : List String) : Tx Unit := do
  updateSplits (fun s => s.guid ∈ splitGuids ∧ s.lotGuid.isSome) fun s => { s with lotGuid := none }
  let db ← get
  (db.lots.filter fun l => l.guid ∈ detachedLotGuids ∧ l.isClosed = 1).forM reopenRefilled

def undoFootprint (runId : String) (fp : RunFootprint) : Tx Unit := do
  deleteWholeTransactions fp.txGuids
  deleteSplitRows ((fp.taggedSplits.map Split.guid).filter fun g =>
    g ∉ fp.originals.map Slot.objGuid)
  fp.originals.forM restoreOriginal
  deleteTaggedLots (fp.taggedLots.map Lot.guid)
  updateLots (fun l => l.guid ∈ fp.taggedGuids ∧ l.isClosed = 1) fun l => { l with isClosed := 0 }
  clearAverageCostArtifactsForRun host runId fp.artifacts
  detachPriced fp.artifacts.splitGuids (fp.avgSplitOwners.filterMap Split.lotGuid).eraseDups

/-- Undo one run; with allowed accounts, only when it touched no other.  The result counts what was
undone. -/
def revertScrubRun (runId : String) (allowedAccountGuids : Option (List String)) : Tx ℕ := do
  let db ← get
  let fp := runFootprint host db runId
  if fp.taggedGuids = [] ∧ !fp.artifacts.nonempty then pure 0
  else if ∃ allowed ∈ allowedAccountGuids, ∃ a ∈ fp.affectedAccounts db, a ∉ allowed then
    throw (.scrubRunNotInBook runId)
  else do
    assertRevertPreservesReconciled "revert this lot scrub run" fp.txGuids
      (fp.originals.map Slot.objGuid) (fp.taggedSplits.map Split.guid)
    undoFootprint host runId fp
    pure (fp.taggedGuids ++ fp.artifacts.splitGuids ++ fp.artifacts.lotGuids ++
      fp.artifacts.stashLotGuids).eraseDups.length

end Lots
