import GnucashWeb.Lots.AvgBasis

/-!
# Carried basis

The basis that travels with transferred shares: a source lot's basis is apportioned over its
outflows in a fixed order, and every destination lot stores its slice in a `carried_basis` slot.
-/

open Ledger

namespace Lots

def carriedBasisSlot : String := "carried_basis"
def sourceLotSlot : String := "source_lot_guid"
def sourceSplitSlot : String := "source_split_guid"
def acquisitionDateSlot : String := "acquisition_date"

variable (host : Host)

/-- The commissions of the trades that moved a lot's shares, by the split they belong to. -/
def allocateLotTradeFees (db : Db) (lotSplits : List Split) : String → Option ℚ :=
  let txGuids := (lotSplits.map Split.txGuid).filter fun guid => guid ≠ ""
  let rows := db.splits.filter fun s => s.txGuid ∈ txGuids
  if rows.any (db.onType .expense) then
    host.allocateTradeFees db (host.buildFeeAccountPaths db) rows
  else fun _ => none

/-- A lot's carried basis, zero when the slot is absent. -/
def readCarriedBasis (db : Db) (lotGuid : String) : ℚ :=
  ((db.slotText lotGuid carriedBasisSlot).bind host.parseFloat).getD 0

def toBasisUnits (amount : ℚ) : ℤ := mathRound (amount * 10 ^ 6)

/-- The basis, in millionths, that has left a lot with `sharesOut` of its shares. -/
def cumulativeUnitsAt (totalUnits : ℤ) (boughtShares drainedEpsilon sharesOut : ℚ) : ℤ :=
  if sharesOut ≤ 0 then 0
  else if boughtShares - drainedEpsilon ≤ sharesOut then totalUnits
  else mathRound (totalUnits * (sharesOut / boughtShares))

/-- The slice of a source lot's basis that leaves with one outflow: the difference of the rounded
cumulative allocations after and before it. -/
def apportionCarriedBasis (totalBasis boughtShares sharesOutBefore shares : ℚ) : ℚ :=
  if 0 < boughtShares ∧ 0 < shares then
    let unitsAt :=
      cumulativeUnitsAt (toBasisUnits totalBasis) boughtShares
        (max (1 / 10 ^ 9) (boughtShares * (1 / 10 ^ 12)))
    let before := min (max sharesOutBefore 0) boughtShares
    let after := min (before + shares) boughtShares
    (unitsAt after - unitsAt before : ℤ) / 10 ^ 6
  else 0

/-! ## Outflows -/

structure LotOutflow where
  guid : String
  txGuid : String
  postedAt : ℤ
  shares : ℚ
deriving DecidableEq, Repr

/-- The order of outflows: post date, transaction, larger first, split. -/
def LotOutflow.before (a b : LotOutflow) : Bool :=
  a.postedAt < b.postedAt || (a.postedAt = b.postedAt && (a.txGuid < b.txGuid ||
    (a.txGuid = b.txGuid && (b.shares < a.shares || (a.shares = b.shares && a.guid ≤ b.guid)))))

def orderLotOutflows (db : Db) (splits : List Split) : List LotOutflow :=
  ((splits.map fun s => ⟨s.guid, s.txGuid, (db.postDate s).getD 0, -s.qty⟩).filter fun o =>
    0 < o.shares).insertionSort fun a b => a.before b

/-- The shares that left a lot ahead of an outflow, zero for a split that is not one. -/
def sharesOutBeforeSplit (db : Db) (splits : List Split) (splitGuid : String) : ℚ :=
  let outflows := orderLotOutflows db splits
  if outflows.any fun o => o.guid = splitGuid then
    ((outflows.takeWhile fun o => o.guid ≠ splitGuid).map LotOutflow.shares).sum
  else 0

structure SourceLotBasis where
  totalBasis : ℚ
  boughtShares : ℚ
  splits : List Split

def readSourceLotBasis (db : Db) (sourceLotGuid : String) : Option SourceLotBasis :=
  let splits := db.splitsOfLot sourceLotGuid
  let fees := allocateLotTradeFees host db splits
  let buys := splits.filter fun s => 0 < s.qty
  let boughtShares := (buys.map Split.qty).sum
  -- the recorded value of a transfer-in is not a purchase cost
  let buyCost : ℚ :=
    if (db.slotText sourceLotGuid sourceLotSlot).isSome then 0
    else (buys.map fun s => |s.val| + (fees s.guid).getD 0).sum
  if boughtShares ≤ 0 then none
  else some ⟨buyCost + readCarriedBasis host db sourceLotGuid, boughtShares, splits⟩

/-- The basis that leaves a source lot with some of its shares, through the given split. -/
def computeCarriedBasis (db : Db) (sourceLotGuid : String) (transferredShares : ℚ)
    (sourceSplit : Option (String × ℚ)) : Option ℚ :=
  match sourceSplit.bind fun s => (readAvgCostBasis host db s.1).map fun basis => (basis, |s.2|) with
  | some (avgBasis, splitShares) =>
    some (if 0 < splitShares then avgBasis * (transferredShares / splitShares) else avgBasis)
  | none =>
    (readSourceLotBasis host db sourceLotGuid).map fun source =>
      apportionCarriedBasis source.totalBasis source.boughtShares
        ((sourceSplit.map fun s => sharesOutBeforeSplit db source.splits s.1).getD 0)
        transferredShares

/-- The slot text of a carried basis, none when there is none to store. -/
def carriedBasisSlotValue (carriedBasis : Option ℚ) : Option String :=
  (carriedBasis.filter fun basis => 0 < |basis|).map fun basis =>
    host.numberText (toBasisUnits basis / 10 ^ 6)

/-- Store the carried basis of a destination lot, replacing any it has. -/
def writeCarriedBasisSlot (lotGuid : String) (carriedBasis : Option ℚ) : Tx Unit := do
  deleteSlots fun r => r.objGuid = lotGuid ∧ r.name = carriedBasisSlot
  (carriedBasisSlotValue host carriedBasis).forM (createSlot lotGuid carriedBasisSlot)

/-! ## Reapportioning after a change -/

structure ReconciledDestinationLot where
  lotGuid : String
  accountGuid : Option String
  carriedBasis : ℚ
deriving DecidableEq, Repr

structure OutflowWalk where
  sharesOut : ℚ
  storedOfLot : String → Option String
  rewritten : List ReconciledDestinationLot

/-- Where the destination lots of a transfer level are found, read once for the level. -/
structure TransferLevel where
  links : List Slot
  sourceSplitOfLot : String → Option String
  txOfLegacyLot : String → Option String

/-- The links of the given source lots to their destination lots. -/
def transferLevel (db : Db) (wanted : List String) : TransferLevel :=
  let links := db.slots.filter fun r =>
    r.name = sourceLotSlot ∧ ∃ guid ∈ wanted, r.stringVal = some guid
  let sourceSplitOfLot (lot : String) :=
    ((db.slots.filter fun r => r.name = sourceSplitSlot ∧ r.objGuid = lot).filterMap fun r =>
      r.stringVal.filter fun text => text ≠ "").getLast?
  { links
    sourceSplitOfLot
    txOfLegacyLot := fun lot =>
      if (sourceSplitOfLot lot).isSome then none
      else ((db.splitsOfLot lot).find? fun s => s.txGuid ≠ "" ∧ 0 < s.qty).map Split.txGuid }

/-- The destination lot of an outflow: the lot that names it, else the first lot that entered
through its transaction. -/
def TransferLevel.destinationOf (level : TransferLevel) (sourceLotGuid : String)
    (outflow : LotOutflow) : Option String :=
  let dests := (level.links.filter fun r => r.stringVal = some sourceLotGuid).map Slot.objGuid
  ((dests.filter fun d => level.sourceSplitOfLot d = some outflow.guid).getLast?).or
    (dests.find? fun d => level.txOfLegacyLot d = some outflow.txGuid)

/-- One outflow of the walk: its slice, written when the stored one differs. -/
def reconcileOutflow (level : TransferLevel) (sourceLotGuid : String) (source : SourceLotBasis)
    (avgBasisByOutflow : String → Option ℚ) (walk : OutflowWalk) (outflow : LotOutflow) :
    Tx OutflowWalk := do
  let slice := (avgBasisByOutflow outflow.guid).getD
    (apportionCarriedBasis source.totalBasis source.boughtShares walk.sharesOut outflow.shares)
  let walk := { walk with sharesOut := walk.sharesOut + outflow.shares }
  match level.destinationOf sourceLotGuid outflow with
  | none => pure walk
  | some dest =>
    let next := carriedBasisSlotValue host (some slice)
    if walk.storedOfLot dest = next then pure walk
    else do
      let db ← get
      writeCarriedBasisSlot host dest (some slice)
      pure { walk with
        storedOfLot := fun lot => if lot = dest then next else walk.storedOfLot lot
        rewritten := walk.rewritten ++ [⟨dest, (db.lot? dest).bind Lot.accountGuid, slice⟩] }

def reconcileSource (level : TransferLevel) (walk : OutflowWalk) (sourceLotGuid : String) :
    Tx OutflowWalk := do
  let db ← get
  if level.links.any fun r => r.stringVal = some sourceLotGuid then
    match readSourceLotBasis host db sourceLotGuid with
    | none => pure walk
    | some source =>
      (orderLotOutflows db source.splits).foldlM
        (reconcileOutflow host level sourceLotGuid source (readAvgCostBasis host db))
        { walk with sharesOut := 0 }
  else pure walk

def reconcileOneTransferLevel (sourceLotGuids : List String) :
    Tx (List ReconciledDestinationLot) := do
  let db ← get
  let wanted := ((sourceLotGuids.filter fun guid => guid ≠ "").eraseDups).insertionSort (· ≤ ·)
  let level := transferLevel db wanted
  let stored (lot : String) := db.slotString lot carriedBasisSlot
  let walk ← wanted.foldlM (reconcileSource host level) ⟨0, stored, []⟩
  pure walk.rewritten

/-- The walk over transfer hops; every hop visits a lot that no earlier hop has. -/
def reconcileFrom : ℕ → List String → List String → Tx (List ReconciledDestinationLot)
  | 0, _, _ => pure []
  | fuel + 1, visited, frontier =>
    if frontier = [] then pure []
    else do
      let level ← reconcileOneTransferLevel host frontier
      let visited := visited ++ frontier
      let rest ← reconcileFrom fuel visited
        (((level.map ReconciledDestinationLot.lotGuid).eraseDups).filter fun g => g ∉ visited)
      pure (level ++ rest)

/-- Reapportion the basis of the given source lots over all their outflows, following chains of
transfers.  The lots beyond the first hop are owners of link slots, which bounds the hops. -/
def reconcileCarriedBasisForSourceLots (sourceLotGuids : List String) :
    Tx (List ReconciledDestinationLot) := do
  let db ← get
  reconcileFrom host (db.slots.length + 1) []
    (sourceLotGuids.filter fun guid => guid ≠ "").eraseDups

end Lots
