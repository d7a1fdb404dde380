import GnucashWeb.Lots.Scrub

/-!
# Capital gains

The gain of a closed lot and the transaction that books it.
-/

open Ledger Transact

namespace Lots

variable (host : Host)

/-! ## The lot's splits -/

inductive Direction
  | incoming | outgoing
deriving DecidableEq, Repr

/-- `isOwnAccountCommodityTransfer`: whether a split is one leg of a transfer of the same commodity
between own accounts. -/
def isOwnAccountCommodityTransfer (db : Db) (split : Split) (commodityGuid : Option String)
    (direction : Direction) : Bool :=
  let sign : ℚ := match direction with
    | .incoming => 1
    | .outgoing => -1
  0 < sign * split.qty ∧ (db.splitsOfTx split.txGuid).any fun s =>
    s.accountGuid ≠ split.accountGuid ∧ db.commodity s = commodityGuid ∧ !db.onType .trading s ∧
      0 < -sign * s.qty

structure LotFlows where
  splits : List Split
  buys : List Split
  sells : List Split
  transfersOut : List Split

def lotFlows (db : Db) (account : Account) (qtyEps : ℚ) (splits : List Split) : LotFlows :=
  let outgoing := splits.filter fun s => s.qty < -qtyEps
  let isTransferOut (s : Split) :=
    isOwnAccountCommodityTransfer db { s with accountGuid := account.guid } account.commodityGuid
      .outgoing
  { splits
    buys := splits.filter fun s => qtyEps < s.qty
    sells := outgoing.filter fun s => !isTransferOut s
    transfersOut := outgoing.filter isTransferOut }

/-- What the gain of a lot is computed from besides its splits. -/
structure BasisSources where
  feeOf : Split → ℚ
  avgBasis : Split → Option ℚ
  carriedBasis : ℚ
  isTransferIn : Split → Bool

/-- What the gain of a lot reads from the tables. -/
def basisSources (db : Db) (lot : Lot) (account : Account) (splits : List Split) : BasisSources :=
  let fees := allocateLotTradeFees host db splits
  { feeOf := fun s => (fees s.guid).getD 0
    avgBasis := fun s => readAvgCostBasis host db s.guid
    carriedBasis := readCarriedBasis host db lot.guid
    isTransferIn := fun s =>
      isOwnAccountCommodityTransfer db { s with accountGuid := account.guid } account.commodityGuid
        .incoming }

def LotFlows.grossSaleProceeds (f : LotFlows) : ℚ := -(f.sells.map Split.val).sum

def LotFlows.soldShares (f : LotFlows) : ℚ := (f.sells.map fun s => |s.qty|).sum

/-- The gain of a closed lot: pooled when every sale has a pooled basis, from the sum of all values
when every share was bought and sold, else pro rata. -/
def gainLoss (b : BasisSources) (qtyEps : ℚ) (f : LotFlows) : ℚ :=
  let saleProceeds := f.grossSaleProceeds - (f.sells.map b.feeOf).sum
  if f.sells ≠ [] ∧ f.sells.all fun s => (b.avgBasis s).isSome then
    saleProceeds - (f.sells.map fun s => (b.avgBasis s).getD 0).sum
  else if f.transfersOut = [] ∧ |b.carriedBasis| < moneyDisplayEpsilon then
    -(f.splits.map Split.val).sum - (f.splits.map b.feeOf).sum
  else
    let boughtShares := (f.buys.map Split.qty).sum
    let replaced (s : Split) : Prop :=
      moneyDisplayEpsilon ≤ |b.carriedBasis| ∧ b.isTransferIn s
    let buyCost := (f.buys.map fun s => (if replaced s then 0 else |s.val|) + b.feeOf s).sum
    let basisPerShare := if qtyEps < boughtShares then (buyCost + b.carriedBasis) / boughtShares
      else 0
    saleProceeds - f.soldShares * basisPerShare

/-! ## Booking -/

structure CapitalGainsResult where
  gainsTransactionGuid : Option String
  skippedReason : Option SkippedReason
  gainLoss : ℚ
  holdingPeriod : Option HoldingPeriod
  taxClassification : TaxClassification
deriving DecidableEq, Repr

/-- The result for a lot that books no gain. -/
def skipped (reason : SkippedReason) (gain : ℚ) (tax : TaxClassification) : CapitalGainsResult :=
  ⟨none, some reason, gain, none, tax⟩

def closeLot (lotGuid : String) : Tx Unit := updateLot lotGuid fun l => { l with isClosed := 1 }

/-- The holding period of a lot: from its acquisition date, else its first split, to its last. -/
def holdingPeriod (db : Db) (lotGuid : String) (splits : List Split) : Option HoldingPeriod :=
  let dates := splits.filterMap db.postDate
  let openDate : Option (Option ℤ) :=
    match db.slotText lotGuid acquisitionDateSlot with
    | some text => some (host.parseDate text)
    | none => dates.min?.map some
  openDate.bind fun opened => dates.max?.map fun closed =>
    if host.isLongTerm opened closed then .longTerm else .shortTerm

/-- A split of a gains transaction: no shares, an amount of money. -/
def gainsSplit (guid txGuid accountGuid : String) (value : Amount) (scu : ℤ)
    (lotGuid : Option String) : Split where
  guid
  txGuid
  accountGuid
  memo := ""
  action := ""
  reconcileState := .n
  reconcileDate := none
  value
  quantity := ⟨0, scu⟩
  lotGuid

/-- Create the gains transaction of a lot: its account against the gains account. -/
def bookGain (lot : Lot) (account : Account) (gain : ℚ) (target : GainsTarget) (postDate : ℤ)
    (runId : String) : Tx String := do
  let scu := if account.commodityScu = 0 then 100 else account.commodityScu
  let valFrac := fromDecimal |gain| target.currencyFraction
  let txGuid ← generateGuid host
  createTransaction ⟨txGuid, target.currencyGuid, some postDate,
    "Realized " ++ (if 0 ≤ gain then "Gain" else "Loss") ++ " — Lot " ++ lot.guid.take 8⟩
  createSlot txGuid generatedSlot runId
  let investGuid ← generateGuid host
  createSplit (gainsSplit investGuid txGuid account.guid
    ⟨if 0 ≤ gain then valFrac.num else -valFrac.num, valFrac.denom⟩ scu (some lot.guid))
  createSlot investGuid generatedSlot runId
  let gainsGuid ← generateGuid host
  createSplit (gainsSplit gainsGuid txGuid target.accountGuid
    ⟨if 0 ≤ gain then -valFrac.num else valFrac.num, valFrac.denom⟩ scu none)
  createSlot gainsGuid generatedSlot runId
  pure txGuid

def createAccounts (created : List Account) : Tx Unit :=
  modify fun db => { db with
    accounts := db.accounts ++ created
    drawn := db.drawn + created.length }

def bookAndClose (lot : Lot) (account : Account) (splits : List Split) (gain : ℚ)
    (tax : TaxClassification) (runId : String) : Tx CapitalGainsResult := do
  let db ← get
  let period := holdingPeriod host db lot.guid splits
  let target ← liftM (host.gainsTarget db account splits tax period)
  createAccounts target.created
  let postDate := ((splits.filterMap db.postDate).max?).getD host.now
  let txGuid ← bookGain host lot account gain target postDate runId
  closeLot lot.guid
  pure ⟨some txGuid, none, gain, period, tax⟩

/-- What a closed lot without a gains split comes to: a reason to book nothing, with the gain and
the tax class reported, or a gain to book. -/
inductive GainsOutcome
  | skip (reason : SkippedReason) (gain : ℚ) (tax : TaxClassification)
  | book (gain : ℚ) (tax : TaxClassification)
deriving DecidableEq, Repr

/-- The decisions of `generateCapitalGains` for a closed lot without a gains split. -/
def gainsOutcome (b : BasisSources) (qtyEps : ℚ) (f : LotFlows) (tax : TaxClassification) :
    GainsOutcome :=
  let gain := gainLoss b qtyEps f
  if f.transfersOut ≠ [] ∧ f.sells = [] then .skip .closedByTransfer 0 .normal
  else if |gain| < moneyDisplayEpsilon then .skip .breakEven 0 .normal
  else if qtyEps < f.soldShares ∧ |f.grossSaleProceeds| < moneyDisplayEpsilon then
    .skip .zeroProceeds 0 .normal
  else if tax = .exempt then .skip .taxExempt gain .exempt
  else .book gain tax

/-- Close a lot whose shares are gone and book its gain. -/
def generateCapitalGains (lotGuid runId : String) : Tx CapitalGainsResult := do
  let db ← get
  match (db.lot? lotGuid).bind fun lot =>
      (lot.accountGuid.bind db.account?).map fun account => (lot, account) with
  | none => throw (.lotNotFound lotGuid)
  | some (lot, account) =>
    let qtyEps := qtyEpsilonForScu account.commodityScu
    let splits := db.splitsOfLot lotGuid
    let totalShares := (splits.map Split.qty).sum
    if qtyEps < |totalShares| then pure (skipped (.notClosed totalShares) 0 .normal)
    else if splits.any fun s => |s.qty| < qtyEps ∧ moneyDisplayEpsilon < |s.val| then
      pure (skipped .preExistingGainsSplit 0 .normal)
    else
      match gainsOutcome (basisSources host db lot account splits) qtyEps
          (lotFlows db account qtyEps splits) (host.classifyAccountTax db account.guid) with
      | .skip reason gain tax => do
        closeLot lotGuid
        pure (skipped reason gain tax)
      | .book gain tax => bookAndClose host lot account splits gain tax runId

end Lots
