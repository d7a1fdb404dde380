import GnucashWeb.Lots.CarriedBasis
import GnucashWeb.Lib.Text

/-!
# The scrub engine

Assigning one split to lots: a sale across the open lots, a transfer across the lots it came from,
the valuation of a zero-value trade and a stock-split adjustment.  A split that is divided or
revalued keeps its amounts in `original_*` slots and is tagged with the run, as is every split
created for it.
-/

open Ledger Transact

namespace Lots

structure OpenLot where
  guid : String
  shares : ℚ
  openDate : Option ℤ
deriving DecidableEq, Repr

inductive SkippedReason
  | notClosed (remainingShares : ℚ)
  | preExistingGainsSplit
  | closedByTransfer
  | breakEven
  | zeroProceeds
  | taxExempt
deriving DecidableEq, Repr

inductive Warning
  | sellQuantityZero
  | noOpenLots
  | oversell (sold excess : ℚ)
  | notTradeLeg
  | noCounterLeg
  | noPrice (postDate : ℤ) (txGuid : String)
  | adjustmentWithoutLots
  | gainsSkipped (lotGuid : String) (reason : SkippedReason)
deriving DecidableEq, Repr

variable (host : Host)

/-! ## Marks -/

/-- The text of a `bigint`. -/
def bigIntText (n : ℤ) : String := String.ofList (Text.intDigits n)

/-- Keep the amounts of a split in its `original_*` slots and tag it with the run. -/
def stashOriginal (s : Split) (runId : String) : Tx Unit := do
  createSlot s.guid originalQuantityNum (bigIntText s.quantity.num)
  createSlot s.guid originalQuantityDenom (bigIntText s.quantity.denom)
  createSlot s.guid originalValueNum (bigIntText s.value.num)
  createSlot s.guid originalValueDenom (bigIntText s.value.denom)
  createSlot s.guid generatedSlot runId

/-- Tag a generated sub-split with its run and the split it was carved from. -/
def tagGeneratedSubSplit (subGuid parentSplitGuid runId : String) : Tx Unit := do
  createSlot subGuid generatedSlot runId
  createSlot subGuid parentSplitSlot parentSplitGuid

def createSubSplit (parent : Split) (quantity value : Amount) (lotGuid : Option String)
    (runId : String) : Tx String := do
  let subGuid ← generateGuid host
  createSplit { parent with guid := subGuid, quantity, value, lotGuid }
  tagGeneratedSubSplit subGuid parent.guid runId
  pure subGuid

/-- `transactionImbalance`: the sum of a transaction's split values. -/
def transactionImbalance (db : Db) (txGuid : String) : ℚ :=
  ((db.splitsOfTx txGuid).map Split.val).sum

/-- Fail when the values of a transaction moved by more than half a cent. -/
def assertBalanceKept (txGuid : String) (before : ℚ) : Tx Unit := do
  let db ← get
  let after := transactionImbalance db txGuid
  onlyIf (moneyDisplayEpsilon < |after - before|) <|
    throw (.balanceMoved txGuid (after - before) before after)

/-! ## Sales -/

/-- Shares of one lot that a disposal consumes. -/
structure Allocation where
  lotGuid : String
  shares : ℚ
deriving DecidableEq, Repr

/-- Take shares from the lots in order until none are left to sell. -/
def allocate (qtyEpsilon : ℚ) : List OpenLot → ℚ → List Allocation × ℚ
  | [], leftToSell => ([], leftToSell)
  | lot :: lots, leftToSell =>
    if leftToSell < qtyEpsilon then ([], leftToSell)
    else
      let take := min lot.shares leftToSell
      let rest := allocate qtyEpsilon lots (leftToSell - take)
      (⟨lot.guid, take⟩ :: rest.1, rest.2)

structure ConsumedShares where
  splitGuid : String
  lotGuid : String
  shares : ℚ
deriving DecidableEq, Repr

/-- The result of a sale; the shares of `allocations` have left the open lots. -/
structure SplitSellResult where
  subSplitsCreated : List String
  allocations : List ConsumedShares
  warning : Option Warning
deriving DecidableEq, Repr

/-- The amounts of a sale's part that takes some of its shares. -/
def sellPart (sell : Split) (shares : ℚ) : Amount × Amount :=
  let pricePerShare := |sell.val| / |sell.qty|
  let valueSign : ℚ := if sell.val < 0 then -1 else 1
  (fromDecimal (-shares) sell.quantity.denom,
    fromDecimal (valueSign * shares * pricePerShare) sell.value.denom)

/-- The sub-splits of a sale after its first allocation, with the numerators used so far.  The last
one absorbs the rounding, unless the lots do not cover the sale. -/
def createSellSubSplits (sell : Split) (runId : String) (isOversell : Bool) :
    List Allocation → ℤ → ℤ → Tx (List ConsumedShares × ℤ × ℤ)
  | [], usedQtyNum, usedValNum => pure ([], usedQtyNum, usedValNum)
  | alloc :: rest, usedQtyNum, usedValNum => do
    let part : Amount × Amount :=
      if rest = [] ∧ !isOversell then
        (⟨sell.quantity.num - usedQtyNum, sell.quantity.denom⟩,
          ⟨sell.value.num - usedValNum, sell.value.denom⟩)
      else sellPart sell alloc.shares
    let subGuid ← createSubSplit host sell part.1 part.2 (some alloc.lotGuid) runId
    let r ← createSellSubSplits sell runId isOversell rest (usedQtyNum + part.1.num)
      (usedValNum + part.2.num)
    pure (⟨subGuid, alloc.lotGuid, alloc.shares⟩ :: r.1, r.2)

/-- The part of an oversell that no lot covers, left unassigned. -/
def createRemainder (sell : Split) (runId : String) (isOversell : Bool)
    (usedQtyNum usedValNum : ℤ) : Tx (List String) :=
  if isOversell then do
    let subGuid ← createSubSplit host sell
      ⟨sell.quantity.num - usedQtyNum, sell.quantity.denom⟩
      ⟨sell.value.num - usedValNum, sell.value.denom⟩ none runId
    pure [subGuid]
  else pure []

/-- A sale over several lots: the split keeps the first allocation, sub-splits take the others and
the remainder of an oversell. -/
def divideSell (sell : Split) (runId : String) (first : Allocation) (rest : List Allocation)
    (excess : Option ℚ) : Tx SplitSellResult := do
  let db ← get
  let imbalanceBefore := transactionImbalance db sell.txGuid
  stashOriginal sell runId
  let firstPart := sellPart sell first.shares
  updateSplit sell.guid fun s =>
    { s with lotGuid := some first.lotGuid, quantity := firstPart.1, value := firstPart.2 }
  let r ← createSellSubSplits host sell runId excess.isSome rest firstPart.1.num firstPart.2.num
  let remainder ← createRemainder host sell runId excess.isSome r.2.1 r.2.2
  assertBalanceKept sell.txGuid imbalanceBefore
  pure ⟨r.1.map ConsumedShares.splitGuid ++ remainder,
    ⟨sell.guid, first.lotGuid, first.shares⟩ :: r.1, excess.map (Warning.oversell |sell.qty|)⟩

/-- Assign a sale to the open lots, in the order given. -/
def splitSellAcrossLots (sellSplitGuid : String) (openLots : List OpenLot) (runId : String)
    (qtyEpsilon : ℚ) : Tx SplitSellResult := do
  let db ← get
  match db.split? sellSplitGuid with
  | none => throw (.splitNotFound sellSplitGuid)
  | some sell =>
    if |sell.qty| < qtyEpsilon then pure ⟨[], [], some .sellQuantityZero⟩
    else
      match allocate qtyEpsilon (openLots.filter fun l => qtyEpsilon < l.shares) |sell.qty| with
      | ([], _) => pure ⟨[], [], some .noOpenLots⟩
      | (first :: rest, leftToSell) =>
        if rest = [] ∧ ¬qtyEpsilon < leftToSell then do
          -- the sale fits in one lot: the user's own split is assigned to it
          updateSplit sellSplitGuid fun s => { s with lotGuid := some first.lotGuid }
          pure ⟨[], [⟨sellSplitGuid, first.lotGuid, first.shares⟩], none⟩
        else
          divideSell host sell runId first rest
            (if qtyEpsilon < leftToSell then some leftToSell else none)

/-! ## Transfers -/

/-- The splits a transfer-in came from: the same commodity leaving another account. -/
def transferSources (db : Db) (split : Split) : List Split :=
  (db.splitsOfTx split.txGuid).filter fun s =>
    s.accountGuid ≠ split.accountGuid ∧ db.commodity s = db.commodity split ∧
      !db.onType .trading s ∧ s.qty < 0

def titleDate (postDate : Option ℤ) : String := (postDate.map host.isoDay).getD "Unknown"

/-- Give a destination lot the acquisition date of its source lot: the slot, else the earliest
post date of its splits. -/
def carryAcquisitionDate (lotGuid sourceLotGuid : String) : Tx Unit := do
  let db ← get
  let earliest := ((db.splitsOfLot sourceLotGuid).filterMap db.postDate).min?.map host.toISOString
  ((db.slotText sourceLotGuid acquisitionDateSlot).or earliest).forM
    (createSlot lotGuid acquisitionDateSlot)

/-- Link a destination lot to the split and the lot its shares left. -/
def linkSource (lotGuid : String) (shares : ℚ) (sourceSplit : Split) (sourceLotGuid : String) :
    Tx Unit := do
  createSlot lotGuid sourceLotSlot sourceLotGuid
  createSlot lotGuid sourceSplitSlot sourceSplit.guid
  onlyIf (0 < shares) do
    let db ← get
    writeCarriedBasisSlot host lotGuid
      (computeCarriedBasis host db sourceLotGuid shares (some (sourceSplit.guid, sourceSplit.qty)))
  carryAcquisitionDate host lotGuid sourceLotGuid

def createTaggedLot (accountGuid runId : String) : Tx String := do
  let lotGuid ← generateGuid host
  createLotRow ⟨lotGuid, some accountGuid, 0⟩
  createSlot lotGuid generatedSlot runId
  pure lotGuid

/-- The destination lot of a transfer-in, linked to its source when that has a lot. -/
def createDestLot (split : Split) (postDate : Option ℤ) (runId : String) (shares : ℚ)
    (source : Option (Split × String)) : Tx String := do
  let lotGuid ← createTaggedLot host split.accountGuid runId
  source.forM fun s => linkSource host lotGuid shares s.1 s.2
  createSlot lotGuid "title" ("Transfer " ++ titleDate host postDate)
  pure lotGuid

structure LinkTransferResult where
  lotGuid : String
  created : Bool
deriving DecidableEq, Repr

/-- Give a transfer-in a lot of its own, linked to the source split's lot. -/
def linkTransferToLot (splitGuid runId : String) : Tx LinkTransferResult := do
  let db ← get
  match db.split? splitGuid with
  | none => throw (.splitNotFound splitGuid)
  | some split =>
    match split.lotGuid with
    | some lotGuid => pure ⟨lotGuid, false⟩
    | none => do
      let source := (transferSources db split).head?.bind fun s => s.lotGuid.map fun l => (s, l)
      let lotGuid ← createDestLot host split (db.postDate split) runId split.qty source
      updateSplit splitGuid fun s => { s with lotGuid := some lotGuid }
      source.forM fun s => do
        let _ ← reconcileCarriedBasisForSourceLots host [s.2]
      pure ⟨lotGuid, true⟩

structure SplitTransferResult where
  lotsCreated : ℕ
  subSplitsCreated : ℕ
  lotGuids : List String
deriving DecidableEq, Repr

/-- The source splits that have a lot, in outflow order. -/
def lottedSources (db : Db) (split : Split) : List (Split × String) :=
  let lotted := (transferSources db split).filter fun s => s.lotGuid.isSome
  (orderLotOutflows db lotted).filterMap fun o =>
    (lotted.find? fun s => s.guid = o.guid).bind fun s => s.lotGuid.map fun l => (s, l)

/-- The amounts of a transfer's part that takes some of its shares. -/
def transferPart (split : Split) (shares : ℚ) : Amount × Amount :=
  (fromDecimal shares split.quantity.denom,
    fromDecimal (if 0 < split.qty then shares / split.qty * split.val else 0) split.value.denom)

/-- The sub-splits of a transfer after its first allocation; the last absorbs the rounding. -/
def createTransferSubSplits (split : Split) (postDate : Option ℤ) (runId : String) :
    List ((Split × String) × ℚ) → ℤ → ℤ → Tx (List String)
  | [], _, _ => pure []
  | (source, shares) :: rest, usedQtyNum, usedValNum => do
    let lotGuid ← createDestLot host split postDate runId shares (some source)
    let part : Amount × Amount :=
      if rest = [] then
        (⟨split.quantity.num - usedQtyNum, split.quantity.denom⟩,
          ⟨split.value.num - usedValNum, split.value.denom⟩)
      else transferPart split shares
    let _ ← createSubSplit host split part.1 part.2 (some lotGuid) runId
    let r ← createTransferSubSplits split postDate runId rest (usedQtyNum + part.1.num)
      (usedValNum + part.2.num)
    pure (lotGuid :: r)

/-- A transfer-in from several lots: the split keeps the first, sub-splits take the others. -/
def divideTransfer (split : Split) (runId : String) (first : (Split × String) × ℚ)
    (rest : List ((Split × String) × ℚ)) : Tx SplitTransferResult := do
  let db ← get
  let imbalanceBefore := transactionImbalance db split.txGuid
  let postDate := db.postDate split
  stashOriginal split runId
  let firstLotGuid ← createDestLot host split postDate runId first.2 (some first.1)
  let firstPart := transferPart split first.2
  updateSplit split.guid fun s =>
    { s with lotGuid := some firstLotGuid, quantity := firstPart.1, value := firstPart.2 }
  let lotGuids ← createTransferSubSplits host split postDate runId rest firstPart.1.num
    firstPart.2.num
  let _ ← reconcileCarriedBasisForSourceLots host ((first :: rest).map fun a => a.1.2)
  onlyIf (split.val ≠ 0) (assertBalanceKept split.txGuid imbalanceBefore)
  pure ⟨lotGuids.length + 1, lotGuids.length, firstLotGuid :: lotGuids⟩

/-- Give a transfer-in one destination lot for each lot its shares came from. -/
def splitTransferAcrossSourceLots (splitGuid runId : String) : Tx SplitTransferResult := do
  let db ← get
  match db.split? splitGuid with
  | none => throw (.splitNotFound splitGuid)
  | some split =>
    if split.lotGuid.isSome then pure ⟨0, 0, []⟩
    else
      let sources := lottedSources db split
      let totalSourceQty := (sources.map fun s => |s.1.qty|).sum
      match sources.map fun s => (s, |s.1.qty| / totalSourceQty * split.qty) with
      | first :: second :: rest => divideTransfer host split runId first (second :: rest)
      | _ => do
        let r ← linkTransferToLot host splitGuid runId
        pure ⟨if r.created then 1 else 0, 0, if r.created then [r.lotGuid] else []⟩

/-! ## Zero-value trades -/

/-- The latest price of a commodity on or before a date, in a currency when one is given. -/
def latestPrice (db : Db) (commodityGuid : String) (currencyGuid : Option String) (date : ℤ) :
    Option Price :=
  ((db.prices.filter fun p => p.commodityGuid = commodityGuid ∧ p.date ≤ date ∧
    ∀ c ∈ currencyGuid, p.currencyGuid = c).insertionSort fun a b => b.date ≤ a.date).head?

/-- The price of a commodity on a date, preferring the given currency. -/
def lookupPriceOn (db : Db) (commodityGuid : String) (preferred : Option String) (date : ℤ) :
    Option ℚ :=
  let row := (preferred.bind fun c => latestPrice db commodityGuid (some c) date).or
    (latestPrice db commodityGuid none date)
  (row.map fun p => p.value.toDecimalNumber).filter fun price => 0 < price

/-- The other legs of a zero-value trade: another commodity that changes quantity at no value. -/
def counterLegs (db : Db) (split : Split) : List Split :=
  (db.splitsOfTx split.txGuid).filter fun s =>
    s.guid ≠ split.guid ∧ s.accountGuid ≠ split.accountGuid ∧
      (db.commodity s).isSome ∧ db.commodity s ≠ db.commodity split ∧ !db.onType .trading s ∧
      0 < |s.qty| ∧ |s.val| < moneyDisplayEpsilon

def largestLeg (leg : Split) (legs : List Split) : Split :=
  legs.foldl (fun best cur => if |best.qty| < |cur.qty| then cur else best) leg

/-- The value of a trade between two legs: the disposal's market value, else the acquisition's. -/
def tradeValue (db : Db) (own counter : Split) : Option ℚ :=
  let disposal := if own.qty < 0 then own else counter
  let acquisition := if own.qty < 0 then counter else own
  let tx := db.transaction? own.txGuid
  let postDate := (db.postDate own).getD host.now
  let marketValue (leg : Split) : Option ℚ :=
    (db.commodity leg).bind fun commodity =>
      (lookupPriceOn db commodity (tx.map Transaction.currencyGuid) postDate).map fun p =>
        |leg.qty| * p
  ((marketValue disposal).or (marketValue acquisition)).filter fun value => 0 < value

def findProtectedSplits (accountName : Split → Option String) (rows : List Split) :
    List ProtectedSplitRef :=
  (rows.filter fun s => s.reconcileState = .y ∨ s.reconcileState = .f).map fun s =>
    ⟨s.guid, s.txGuid, s.accountGuid, accountName s, s.reconcileState⟩

/-- `assertSplitsNotProtected`: fail when a row is reconciled or frozen. -/
def assertSplitsNotProtected (operation : String) (accountName : Split → Option String)
    (rows : List Split) : Tx Unit :=
  let refs := findProtectedSplits accountName rows
  onlyIf (refs ≠ []) (throw (.reconciledSplit operation refs))

structure ValueTradeResult where
  valued : Bool
  warning : Option Warning
deriving DecidableEq, Repr

/-- Rewrite one leg's value, a debit for shares received and a credit for shares given. -/
def valueLeg (runId : String) (value : ℚ) (leg : Split) : Tx Unit := do
  stashOriginal leg runId
  let denom := if 0 < leg.value.denom then leg.value.denom else 100
  let newVal := fromDecimal (if 0 < leg.qty then value else -value) denom
  updateSplit leg.guid fun s => { s with value := newVal }

/-- Value both legs of a zero-value commodity-for-commodity trade from the price table. -/
def valueZeroValueTrade (splitGuid runId : String) : Tx ValueTradeResult := do
  let db ← get
  match db.split? splitGuid with
  | none => throw (.splitNotFound splitGuid)
  | some split =>
    if moneyDisplayEpsilon < |split.val| then pure ⟨true, none⟩
    else if ¬0 < |split.qty| then pure ⟨false, some .notTradeLeg⟩
    else
      match counterLegs db split with
      | [] => pure ⟨false, some .noCounterLeg⟩
      | leg :: legs =>
        let counter := largestLeg leg legs
        match tradeValue host db split counter with
        | none =>
          pure ⟨false, some (.noPrice ((db.postDate split).getD host.now) split.txGuid)⟩
        | some value => do
          assertSplitsNotProtected "value this zero-value trade" (fun _ => none) [split, counter]
          valueLeg runId value split
          valueLeg runId value counter
          pure ⟨true, none⟩

/-! ## Stock splits -/

/-- The result of an adjustment, with the shares each lot gained. -/
structure AdjustmentResult where
  subSplitsCreated : List String
  sharesAdded : List Allocation
  warning : Option Warning
deriving DecidableEq, Repr

/-- `lotsUsed`. -/
def AdjustmentResult.lotsUsed (r : AdjustmentResult) : List String :=
  r.sharesAdded.map Allocation.lotGuid

/-- The quantity an adjustment gives one of its lots, the last absorbing the rounding. -/
def adjustmentPart (adj : Split) (totalShares : ℚ) (isLast : Bool) (usedQtyNum : ℤ)
    (lot : OpenLot) : Amount :=
  if isLast then ⟨adj.quantity.num - usedQtyNum, adj.quantity.denom⟩
  else fromDecimal (adj.qty * (lot.shares / totalShares)) adj.quantity.denom

def createAdjustmentSubSplits (adj : Split) (totalShares : ℚ) (runId : String) :
    List OpenLot → ℤ → Tx (List (String × Allocation))
  | [], _ => pure []
  | lot :: rest, usedQtyNum => do
    let part := adjustmentPart adj totalShares (rest = []) usedQtyNum lot
    let subGuid ← createSubSplit host adj part ⟨0, adj.value.denom⟩ (some lot.guid) runId
    let r ← createAdjustmentSubSplits adj totalShares runId rest (usedQtyNum + part.num)
    pure ((subGuid, ⟨lot.guid, part.toDecimalNumber⟩) :: r)

/-- An adjustment over several lots, in proportion to their shares. -/
def divideAdjustment (adj : Split) (runId : String) (first : OpenLot) (rest : List OpenLot) :
    Tx AdjustmentResult := do
  let totalShares := ((first :: rest).map OpenLot.shares).sum
  stashOriginal adj runId
  let part := adjustmentPart adj totalShares (rest = []) 0 first
  updateSplit adj.guid fun s => { s with lotGuid := some first.guid, quantity := part }
  let r ← createAdjustmentSubSplits host adj totalShares runId rest part.num
  pure ⟨r.map Prod.fst, ⟨first.guid, part.toDecimalNumber⟩ :: r.map Prod.snd, none⟩

/-- Assign a stock split to the open lots, scaling them. -/
def assignAdjustmentToLots (adjSplitGuid : String) (openLots : List OpenLot) (runId : String)
    (qtyEpsilon : ℚ) : Tx AdjustmentResult := do
  let db ← get
  match db.split? adjSplitGuid with
  | none => throw (.splitNotFound adjSplitGuid)
  | some adj =>
    match openLots.filter fun l => qtyEpsilon < l.shares with
    | [] => pure ⟨[], [], some .adjustmentWithoutLots⟩
    | [lot] => do
      updateSplit adjSplitGuid fun s => { s with lotGuid := some lot.guid }
      pure ⟨[], [⟨lot.guid, adj.qty⟩], none⟩
    | first :: rest => divideAdjustment host adj runId first rest

end Lots
