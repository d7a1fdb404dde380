import GnucashWeb.Lots.Gains

/-!
# Lot-assignment runs

`assignWithStrategy` classifies the unassigned splits of an account and replays them in date order
against its lots, then books the gains of the lots it closed.
-/

open Ledger Transact

namespace Lots

inductive LotAssignmentMethod
  | fifo | lifo | average
deriving DecidableEq, Repr

variable (host : Host)

/-! ## Unassigned splits -/

/-- The order of unassigned splits: post date with missing dates last, transaction, split. -/
def fetchedBefore (db : Db) (a b : Split) : Bool :=
  let byGuid := a.txGuid < b.txGuid || (a.txGuid = b.txGuid && a.guid ≤ b.guid)
  match db.postDate a, db.postDate b with
  | some x, some y => x < y || (x = y && byGuid)
  | some _, none => true
  | none, some _ => false
  | none, none => byGuid

def getUnassignedSplits (db : Db) (accountGuid : String) : List Split :=
  ((db.splitsOfAccount accountGuid).filter fun s => s.lotGuid = none).insertionSort
    fun a b => fetchedBefore db a b

/-! ## Open lots -/

def createLot (accountGuid title runId : String) : Tx String := do
  let guid ← generateGuid host
  createLotRow ⟨guid, some accountGuid, 0⟩
  createSlot guid "title" title
  createSlot guid generatedSlot runId
  pure guid

def readLotAcquisitionDate (db : Db) (lotGuid : String) : Option ℤ :=
  (db.slotText lotGuid acquisitionDateSlot).bind host.parseDate

def lotShares (db : Db) (lotGuid : String) : ℚ := ((db.splitsOfLot lotGuid).map Split.qty).sum

def loadOpenLots (db : Db) (accountGuid : String) (qtyEps : ℚ) : List OpenLot :=
  ((db.lots.filter fun l => l.accountGuid = some accountGuid ∧ l.isClosed = 0).filter fun l =>
    qtyEps < lotShares db l.guid).map fun l =>
      ⟨l.guid, lotShares db l.guid, (readLotAcquisitionDate host db l.guid).or
        ((db.splitsOfLot l.guid).filterMap db.postDate).min?⟩

def orderLotsForConsumption (openLots : List OpenLot) (strategy : LotAssignmentMethod) :
    List OpenLot :=
  let ordered := openLots.insertionSort fun a b => a.openDate.getD 0 ≤ b.openDate.getD 0
  if strategy = .lifo then ordered.reverse else ordered

def addShares (openLots : List OpenLot) (allocations : List Allocation) : List OpenLot :=
  allocations.foldl (fun lots a =>
    lots.map fun l => if l.guid = a.lotGuid then { l with shares := l.shares + a.shares } else l)
    openLots

/-! ## Events -/

inductive ScrubEventKind
  | transferIn | buy | sell | adjustment
deriving DecidableEq, Repr

structure ScrubEvent where
  kind : ScrubEventKind
  split : Split

/-- Whether a transaction moves the given commodity in another account. -/
def hasSameCommodityCounter (db : Db) (accountGuid : String) (commodityGuid : Option String)
    (split : Split) : Bool :=
  (db.splitsOfTx split.txGuid).any fun s =>
    s.accountGuid ≠ accountGuid ∧ db.commodity s = commodityGuid ∧ !db.onType .trading s ∧
      0 < |s.qty|

/-- Whether a transaction moves another commodity in another account. -/
def hasOtherCommodityCounter (db : Db) (commodityGuid : Option String) (split : Split) : Bool :=
  (db.splitsOfTx split.txGuid).any fun s =>
    s.accountGuid ≠ split.accountGuid ∧ (db.commodity s).isSome ∧ db.commodity s ≠ commodityGuid ∧
      !db.onType .trading s ∧ 0 < |s.qty|

def hasMatchingSend (db : Db) (accountGuid : String) (commodityGuid : Option String)
    (split : Split) : Bool :=
  (db.splitsOfTx split.txGuid).any fun s =>
    s.accountGuid ≠ accountGuid ∧ db.commodity s = commodityGuid ∧ !db.onType .trading s ∧ s.qty < 0

/-- The event of one unassigned split; a zero-value trade is valued on the way. -/
def classifySplit (accountGuid : String) (commodityGuid : Option String) (runId : String)
    (s : Split) : Tx (ScrubEvent × Option Warning) := do
  let db ← get
  let trade : ScrubEventKind := if 0 < s.qty then .buy else .sell
  let same := hasSameCommodityCounter db accountGuid commodityGuid s
  if 0 < s.qty ∧ hasMatchingSend db accountGuid commodityGuid s then pure (⟨.transferIn, s⟩, none)
  else if |s.val| < moneyDisplayEpsilon ∧ !same then
    if hasOtherCommodityCounter db commodityGuid s then do
      let traded ← valueZeroValueTrade host s.guid runId
      pure (⟨trade, s⟩, traded.warning)
    else pure (⟨.adjustment, s⟩, none)
  else pure (⟨trade, s⟩, none)

/-- The events of the unassigned splits, in the order fetched. -/
def classifySplits (accountGuid : String) (commodityGuid : Option String) (runId : String) :
    List Split → Tx (List (ScrubEvent × Option Warning))
  | [] => pure []
  | s :: rest => do
    let event ← classifySplit host accountGuid commodityGuid runId s
    let events ← classifySplits accountGuid commodityGuid runId rest
    pure (event :: events)

/-- Chronological order, the order fetched among events of one date. -/
def sortScrubEvents (db : Db) (events : List ScrubEvent) : List ScrubEvent :=
  events.insertionSort fun a b =>
    (db.postDate a.split).getD 0 ≤ (db.postDate b.split).getD 0

def openingBasisForExistingLot (lotGuid : String) (shares : ℚ) : Tx ℚ := do
  let pooled ← readLiveAvgBasisRemaining host lotGuid
  let db ← get
  pure (pooled.getD ((computeCarriedBasis host db lotGuid shares none).getD 0))

/-- The basis of the lots that were open before the run, added up. -/
def openingBasis : List OpenLot → Tx ℚ
  | [] => pure 0
  | lot :: lots => do
    let basis ← openingBasisForExistingLot host lot.guid lot.shares
    let rest ← openingBasis lots
    pure (basis + rest)

/-- What a run reads before the replay: the revalued amounts and the commissions of its events. -/
structure Pricing where
  value : Split → ℚ
  tradeFee : Split → ℚ

def pricing (db : Db) (events : List ScrubEvent) : Pricing :=
  let rows := db.splits.filter fun s => s.txGuid ∈ events.map fun e => e.split.txGuid
  let accountName (s : Split) := ((db.account? s.accountGuid).map Account.name).getD ""
  let fees := host.allocateTradeFees db accountName rows
  { value := fun s => ((db.split? s.guid).map Split.val).getD s.val
    tradeFee := fun s => (fees s.guid).getD 0 }

/-! ## Replay -/

structure Replay where
  openLots : List OpenLot
  poolShares : ℚ
  poolBasis : ℚ
  lotsCreated : ℕ
  splitsCreated : ℕ
  splitsAssigned : ℕ
  warnings : List Warning

/-- What stays fixed while a run replays its events. -/
structure RunContext where
  accountGuid : String
  strategy : LotAssignmentMethod
  runId : String
  qtyEps : ℚ
  pricing : Pricing

/-- The pooled basis of one share, zero once the pool is empty. -/
def Replay.averagePerShare (p : Replay) (qtyEps : ℚ) : ℚ :=
  if qtyEps < p.poolShares then p.poolBasis / p.poolShares else 0

/-- The lots a transfer created, with the basis that travelled with their shares. -/
def transferredLots (db : Db) (postDate : Option ℤ) (lotGuids : List String) :
    List (OpenLot × ℚ) :=
  lotGuids.map fun lotGuid =>
    let carried := readCarriedBasis host db lotGuid
    let recorded := ((db.splitsOfLot lotGuid).map fun s => |s.val|).sum
    (⟨lotGuid, lotShares db lotGuid, (readLotAcquisitionDate host db lotGuid).or postDate⟩,
      if moneyDisplayEpsilon < |carried| then carried else recorded)

def replayTransferIn (c : RunContext) (s : Split) (p : Replay) : Tx Replay := do
  let result ← splitTransferAcrossSourceLots host s.guid c.runId
  let db ← get
  let lots := transferredLots host db (db.postDate s) result.lotGuids
  pure { p with
    openLots := p.openLots ++ lots.map Prod.fst
    poolShares := if c.strategy = .average then
      p.poolShares + (lots.map fun l => l.1.shares).sum else p.poolShares
    poolBasis := if c.strategy = .average then
      p.poolBasis + (lots.map Prod.snd).sum else p.poolBasis
    lotsCreated := p.lotsCreated + result.lotsCreated
    splitsCreated := p.splitsCreated + result.subSplitsCreated
    splitsAssigned := p.splitsAssigned + 1 }

def replayBuy (c : RunContext) (s : Split) (p : Replay) : Tx Replay := do
  let db ← get
  let lotGuid ← createLot host c.accountGuid ("Buy " ++ titleDate host (db.postDate s)) c.runId
  updateSplit s.guid fun s => { s with lotGuid := some lotGuid }
  pure { p with
    openLots := p.openLots ++ [⟨lotGuid, s.qty, db.postDate s⟩]
    poolShares := if c.strategy = .average then p.poolShares + s.qty else p.poolShares
    poolBasis := if c.strategy = .average then
      p.poolBasis + (|c.pricing.value s| + c.pricing.tradeFee s) else p.poolBasis
    lotsCreated := p.lotsCreated + 1
    splitsAssigned := p.splitsAssigned + 1 }

def replayAdjustment (c : RunContext) (s : Split) (p : Replay) : Tx Replay := do
  let result ← assignAdjustmentToLots host s.guid p.openLots c.runId c.qtyEps
  pure { p with
    openLots := addShares p.openLots result.sharesAdded
    poolShares := if c.strategy = .average ∧ result.lotsUsed ≠ [] then p.poolShares + s.qty
      else p.poolShares
    splitsCreated := p.splitsCreated + result.subSplitsCreated.length
    splitsAssigned := p.splitsAssigned + 1
    warnings := p.warnings ++ result.warning.toList }

/-- Record the pooled basis of the shares a sale consumed and take them out of the pool. -/
def priceDisposal (c : RunContext) (avgPerShare : ℚ) (allocations : List ConsumedShares)
    (p : Replay) : Tx Replay := do
  allocations.forM fun a => writeAvgCostBasis host a.splitGuid (avgPerShare * a.shares) c.runId
  let consumed := (allocations.map ConsumedShares.shares).sum
  let emptied := p.poolShares - consumed ≤ c.qtyEps
  pure { p with
    poolShares := if emptied then 0 else p.poolShares - consumed
    poolBasis := if emptied then 0 else p.poolBasis - avgPerShare * consumed }

def replaySell (c : RunContext) (s : Split) (p : Replay) : Tx Replay := do
  let avgPerShare := p.averagePerShare c.qtyEps
  let result ← splitSellAcrossLots host s.guid (orderLotsForConsumption p.openLots c.strategy)
    c.runId c.qtyEps
  let p : Replay := { p with
    openLots := addShares p.openLots (result.allocations.map fun a => ⟨a.lotGuid, -a.shares⟩)
    splitsCreated := p.splitsCreated + result.subSplitsCreated.length
    splitsAssigned := p.splitsAssigned + 1
    warnings := p.warnings ++ result.warning.toList }
  if c.strategy = .average then priceDisposal host c avgPerShare result.allocations p else pure p

def replayEvent (c : RunContext) (p : Replay) (event : ScrubEvent) : Tx Replay :=
  match event.kind with
  | .transferIn => replayTransferIn host c event.split p
  | .buy => replayBuy host c event.split p
  | .adjustment => replayAdjustment host c event.split p
  | .sell => replaySell host c event.split p

/-! ## The run -/

structure AutoAssignResult where
  lotsCreated : ℕ
  splitsAssigned : ℕ
  splitsCreated : ℕ
  gainsTransactions : ℕ
  totalRealizedGain : ℚ
  method : LotAssignmentMethod
  runId : String
  warnings : List Warning
deriving DecidableEq, Repr

/-- The result of a run so far, with the gain of one more lot. -/
def AutoAssignResult.addGain (r : AutoAssignResult) (lotGuid : String)
    (gains : CapitalGainsResult) : AutoAssignResult :=
  { r with
    gainsTransactions := r.gainsTransactions + if gains.gainsTransactionGuid.isSome then 1 else 0
    splitsCreated := r.splitsCreated + if gains.gainsTransactionGuid.isSome then 2 else 0
    totalRealizedGain := r.totalRealizedGain + gains.gainLoss
    warnings := r.warnings ++ (gains.skippedReason.map (Warning.gainsSkipped lotGuid)).toList }

/-- Book the gain of a lot the run emptied; a lot still open gets its share of the pool. -/
def closeOpenLot (c : RunContext) (finalAveragePerShare : ℚ) (r : AutoAssignResult)
    (lot : OpenLot) : Tx AutoAssignResult :=
  if |lot.shares| < c.qtyEps then do
    let gains ← generateCapitalGains host lot.guid c.runId
    pure (r.addGain lot.guid gains)
  else do
    onlyIf (c.strategy = .average) <|
      writeAvgBasisRemaining host lot.guid (finalAveragePerShare * lot.shares) c.runId
    pure r

def runEvents (c : RunContext) (openLots : List OpenLot) (poolBasis : ℚ)
    (events : List ScrubEvent) (warnings : List Warning) : Tx AutoAssignResult := do
  let db ← get
  let poolShares := if c.strategy = .average then (openLots.map OpenLot.shares).sum else 0
  let p ← (sortScrubEvents db events).foldlM (replayEvent host c)
    ⟨openLots, poolShares, poolBasis, 0, 0, 0, warnings⟩
  let db ← get
  let _ ← reconcileCarriedBasisForSourceLots host
    ((db.lots.filter fun l => l.accountGuid = some c.accountGuid).map Lot.guid)
  p.openLots.foldlM (closeOpenLot host c (p.averagePerShare c.qtyEps))
    ⟨p.lotsCreated, p.splitsAssigned, p.splitsCreated, 0, 0, c.strategy, c.runId, p.warnings⟩

/-- The events of the splits above the share tolerance, with the lots open before the run. -/
def assignSplits (account : Account) (strategy : LotAssignmentMethod) (runId : String)
    (splits : List Split) : Tx AutoAssignResult := do
  let qtyEps := qtyEpsilonForScu account.commodityScu
  let classified ← classifySplits host account.guid account.commodityGuid runId
    (splits.filter fun s => qtyEps < |s.qty|)
  let events := classified.map Prod.fst
  let db ← get
  let openLots := loadOpenLots host db account.guid qtyEps
  let poolBasis ← if strategy = .average then openingBasis host openLots else pure 0
  runEvents host ⟨account.guid, strategy, runId, qtyEps, pricing host db events⟩ openLots poolBasis
    events (classified.filterMap Prod.snd)

def assignWithStrategy (accountGuid : String) (strategy : LotAssignmentMethod) :
    Tx AutoAssignResult := do
  let runId ← generateGuid host
  let db ← get
  match db.account? accountGuid with
  | none => throw (.accountNotFound accountGuid)
  | some account => do
    onlyIf (strategy ≠ .average) (clearAverageCostArtifacts accountGuid)
    let db ← get
    match getUnassignedSplits db accountGuid with
    | [] => pure ⟨0, 0, 0, 0, 0, strategy, runId, []⟩
    | splits => assignSplits host account strategy runId splits

end Lots
