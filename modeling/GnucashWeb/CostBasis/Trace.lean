import GnucashWeb.CostBasis.Pool
import GnucashWeb.Lib.Memo

/-!
# Tracing the cost basis of transferred shares

`traceCostBasis` follows transferred shares through the accounts they came from, with a cache that
keeps the result of every split it has traced and marks the splits it is tracing.  The hop limit
counts down as the room left.  Rows that are queried once are kept in the cache too.

`traceCostBasis_eq` reads the trace as a memoized recursion, and `transferLinks` are the traces that
one asks for (`transferLinks_of_asks`).
-/

open Ledger Lots Memo

namespace CostBasis

/-! ## Queries -/

/-- The rows that are kept in the cache: the splits of a lot, the carried basis of a lot, and the
splits of an account in a commodity up to a date. -/
inductive Lookup
  | lot (lotGuid : String)
  | carried (lotGuid : String)
  | account (accountGuid commodityGuid : String) (asOfDate : ℤ)
deriving DecidableEq, Repr

def Lookup.Rows : Lookup → Type
  | .lot _ => List Split
  | .carried _ => ℚ
  | .account .. => List Split

structure Request where
  transferInSplitGuid : String
  method : CostBasisMethod
  commodityGuid : String
  transferredShares : ℚ
deriving DecidableEq, Repr

/-- The key of a result: guids hold no hyphen, so the text of a key is its two parts. -/
def Request.cacheKey (q : Request) : String × CostBasisMethod := (q.transferInSplitGuid, q.method)

abbrev Tracing := Dialogue Lookup Lookup.Rows Request CostBasisResult

abbrev CostBasisCache := Cache Lookup Lookup.Rows (String × CostBasisMethod) CostBasisResult

def getLotSplits (lotGuid : String) : Tracing (List Split) := .read (.lot lotGuid) .done

def getLotCarriedBasis (lotGuid : String) : Tracing ℚ := .read (.carried lotGuid) .done

def getAccountSplits (accountGuid commodityGuid : String) (asOfDate : ℤ) : Tracing (List Split) :=
  .read (.account accountGuid commodityGuid asOfDate) .done

def traceTransfer (q : Request) : Tracing CostBasisResult := .ask q .done

variable (host : Host) (db : Db)

def fetch : (l : Lookup) → l.Rows
  | .lot lotGuid => db.splits.filter fun s => s.lotGuid = some lotGuid
  | .carried lotGuid => readCarriedBasis host db lotGuid
  | .account accountGuid commodityGuid asOfDate =>
    db.splits.filter fun s => s.accountGuid = accountGuid ∧ db.commodity s = some commodityGuid ∧
      (db.postDate s).any (· ≤ asOfDate)

def siblings (s : Split) : List Split := db.splits.filter fun t => t.txGuid = s.txGuid

/-- Whether a split can be the sending side of a transfer into an account. -/
def isSender (accountGuid commodityGuid : String) (s : Split) : Bool :=
  s.accountGuid ≠ accountGuid && db.commodity s = some commodityGuid && !db.onType .trading s &&
    s.qty < 0

/-- `isOwnAccountCommodityTransfer` for shares that come in. -/
def isTransferInSplit (s : Split) (accountGuid commodityGuid : String) : Bool :=
  0 < s.qty && (siblings db s).any (isSender db accountGuid commodityGuid)

def byPostDate (splits : List Split) : List Split :=
  splits.insertionSort fun a b => (db.postDate a).getD 0 ≤ (db.postDate b).getD 0

/-! ## Lots of purchased shares -/

structure PurchaseLot where
  shares : ℚ
  costPerShare : ℚ
  uncoveredFraction : ℚ
deriving DecidableEq, Repr

def consumptionOrder (lots : List PurchaseLot) (method : CostBasisMethod) : List PurchaseLot :=
  if method = .lifo then lots.reverse else lots

/-- Take sold shares from the lots in order. -/
def sellFrom : ℚ → List PurchaseLot → List PurchaseLot
  | _, [] => []
  | soldRemaining, lot :: lots =>
    if soldRemaining ≤ 0 then lot :: lots
    else
      let soldFromLot := min lot.shares soldRemaining
      { lot with shares := lot.shares - soldFromLot } :: sellFrom (soldRemaining - soldFromLot) lots

structure Allocation where
  remainingShares : ℚ
  coveredShares : ℚ
  uncoveredShares : ℚ
  basis : ℚ

def allocateLot (a : Allocation) (lot : PurchaseLot) : Allocation :=
  if a.remainingShares ≤ 0 ∨ lot.shares ≤ 0 then a
  else
    let allocated := min lot.shares a.remainingShares
    let allocatedUncovered := allocated * lot.uncoveredFraction
    ⟨a.remainingShares - allocated, a.coveredShares + (allocated - allocatedUncovered),
      a.uncoveredShares + allocatedUncovered,
      a.basis + (allocated - allocatedUncovered) * lot.costPerShare⟩

/-! ## The replay of an account -/

/-- A lot for shares that were traced: the uncovered shares ride along as a fraction. -/
def tracedLot (qty : ℚ) (traced : CostBasisResult) : PurchaseLot :=
  ⟨qty, if qtyEps < traced.coveredShares then traced.basisOfCoveredShares / traced.coveredShares
    else 0, min 1 (traced.uncoveredShares / qty)⟩

def noTraceableBasis (traced : CostBasisResult) (s : Split) : String :=
  round4 host traced.uncoveredShares ++ " of " ++ round4 host s.qty ++
    " share(s) transferred in on " ++ dateLabel host (db.postDate s)

def replayLots (method : CostBasisMethod) (accountGuid commodityGuid : String)
    (state : List PurchaseLot × List String) (s : Split) :
    Tracing (List PurchaseLot × List String) :=
  let (lots, warnings) := state
  if 0 < s.qty then
    if isTransferInSplit db s accountGuid commodityGuid then do
      let traced ← traceTransfer ⟨s.guid, method, commodityGuid, s.qty⟩
      let warnings := collectWarnings warnings traced.warnings
      let warnings :=
        if qtyEps < traced.uncoveredShares then
          warnings ++
            [noTraceableBasis host db traced s ++ " have no traceable cost basis in this book."]
        else warnings
      pure (lots ++ [tracedLot s.qty traced], warnings)
    else pure (lots ++ [⟨s.qty, |s.val| / s.qty, 0⟩], warnings)
  else if s.qty < 0 then
    pure (consumptionOrder (sellFrom |s.qty| (consumptionOrder lots method)) method, warnings)
  else pure state

/-- One split of the replay that fills the average-cost pool. -/
def replayPool (accountGuid commodityGuid : String) (pool : CostBasisPool) (s : Split) :
    Tracing CostBasisPool :=
  if 0 < s.qty then
    if isTransferInSplit db s accountGuid commodityGuid then do
      let traced ← traceTransfer ⟨s.guid, .average, commodityGuid, s.qty⟩
      let pool := addTracedTransferToPool pool traced
      if qtyEps < traced.uncoveredShares then
        pure { pool with
          warnings := collectWarnings pool.warnings
            [noTraceableBasis host db traced s ++ " excluded from the average-cost pool: no traceable cost basis in this book."] }
      else pure pool
    else pure (addPurchaseToPool pool s.qty |s.val|)
  else if s.qty < 0 then pure (removeSharesFromPool host pool |s.qty| (some |s.val|))
  else pure pool

/-- Allocate the requested shares from the lots that are left. -/
def allocateFromLots (method : CostBasisMethod) (sharesNeeded : ℚ) (lots : List PurchaseLot)
    (warnings : List String) : CostBasisResult :=
  let a := (consumptionOrder lots method).foldl allocateLot ⟨sharesNeeded, 0, 0, 0⟩
  let perShareCost := if 0 < a.coveredShares then a.basis / a.coveredShares else 0
  if qtyEps < a.remainingShares then
    ⟨a.coveredShares, a.uncoveredShares + a.remainingShares, a.basis, perShareCost, method, none,
      warnings ++ [exceedsHistory host a.remainingShares]⟩
  else ⟨a.coveredShares, a.uncoveredShares, a.basis, perShareCost, method, none, warnings⟩

/-- The splits of an account that are replayed: not those of the transfer being traced. -/
def replayed (splits : List Split) (excludeTxGuid : String) : List Split :=
  byPostDate db (splits.filter fun s => s.txGuid ≠ excludeTxGuid)

def getAccountCostBasis (accountGuid commodityGuid : String) (method : CostBasisMethod)
    (sharesNeeded : ℚ) (asOfDate : ℤ) (excludeTxGuid : String) : Tracing CostBasisResult := do
  let splits ← getAccountSplits accountGuid commodityGuid asOfDate
  let sortedSplits := replayed db splits excludeTxGuid
  if method = .average then do
    let pool ← sortedSplits.foldlM (replayPool host db accountGuid commodityGuid)
      createCostBasisPool
    pure (drawFromPool host pool sharesNeeded .average)
  else do
    let (lots, warnings) ← sortedSplits.foldlM
      (replayLots host db method accountGuid commodityGuid) ([], [])
    pure (allocateFromLots host method sharesNeeded lots warnings)

/-! ## The trace -/

/-- The basis from the lot of a transfer split: its carried basis and its own purchases over all
shares that came in, or its own purchases. -/
def lotBasis (transferSplit : Split) (allLotSplits : List Split) (carriedBasis : ℚ) (q : Request) :
    Option CostBasisResult :=
  let lotSplits := byPostDate db (allLotSplits.filter fun s => s.guid ≠ q.transferInSplitGuid)
  let purchaseSplits := lotSplits.filter fun s => 0 < s.qty
  let totalShares := (purchaseSplits.map Split.qty).sum
  let totalCost := (purchaseSplits.map fun s => |s.val|).sum
  let incomingShares := totalShares + max 0 transferSplit.qty
  if 0 < carriedBasis ∧ qtyEps < incomingShares then
    some (covered q.transferredShares
      ((totalCost + carriedBasis) / incomingShares * q.transferredShares) q.method)
  else if qtyEps < totalShares then
    some (covered q.transferredShares (totalCost / totalShares * q.transferredShares) q.method)
  else none

/-- Step 1: the basis from the lot of a transfer split, when it has one. -/
def lookUpLotBasis (transferSplit : Split) (q : Request) : Tracing (Option CostBasisResult) :=
  match transferSplit.lotGuid.filter (· ≠ "") with
  | some lotGuid => do
    let allLotSplits ← getLotSplits lotGuid
    let carriedBasis ← getLotCarriedBasis lotGuid
    pure (lotBasis db transferSplit allLotSplits carriedBasis q)
  | none => pure none

def findSourceSplit (transferSplit : Split) (commodityGuid : String) : Option Split :=
  (siblings db transferSplit).find? (isSender db transferSplit.accountGuid commodityGuid)

/-- Steps 2 and 3: the basis from the history of the sending account. -/
def traceTransferChain (transferSplit : Split) (q : Request) : Tracing CostBasisResult :=
  match findSourceSplit db transferSplit q.commodityGuid with
  | none => pure (covered q.transferredShares 0 q.method)
  | some sourceSplit => do
    let result ← getAccountCostBasis host db sourceSplit.accountGuid q.commodityGuid q.method
      q.transferredShares ((db.postDate transferSplit).getD host.now) transferSplit.txGuid
    pure { result with tracedFromAccount := (db.account? sourceSplit.accountGuid).map Account.name }

def traceSplit (q : Request) : Tracing CostBasisResult :=
  match db.split? q.transferInSplitGuid with
  | none => pure (uncovered q.transferredShares q.method
      (round4 host q.transferredShares ++ " share(s) reported without a cost basis: the transfer split could not be read."))
  | some transferSplit => do
    match ← lookUpLotBasis db transferSplit q with
    | some result => pure result
    | none => traceTransferChain host db transferSplit q

def maxTraceDepth : ℕ := 200

def tooDeep (q : Request) : CostBasisResult :=
  uncovered q.transferredShares q.method
    (round4 host q.transferredShares ++ " share(s) reported without a cost basis: the transfer chain is deeper than 200 hops and was not followed further.")

def loopsBack (q : Request) : CostBasisResult :=
  uncovered q.transferredShares q.method
    (round4 host q.transferredShares ++ " share(s) reported without a cost basis: the transfer chain loops back on itself.")

/-- Trace a split with room for so many more hops: a kept result first, then the hop limit, then
the mark of a trace in progress. -/
def traceCostBasis : ℕ → Request → CostBasisCache → CostBasisResult × CostBasisCache
  | 0, q, cache =>
    match cache.answers q.cacheKey with
    | some (.answer result) => (result, cache)
    | _ => (tooDeep host q, cache)
  | room + 1, q, cache =>
    match cache.answers q.cacheKey with
    | some (.answer result) => (result, cache)
    | some .inProgress => (loopsBack host q, cache)
    | none =>
      let (result, cache) := run (fetch host db) (traceCostBasis room) (traceSplit host db q)
        (cache.set q.cacheKey .inProgress)
      (result, cache.set q.cacheKey (.answer result))

def tracing : Recursion Lookup Lookup.Rows Request (String × CostBasisMethod) CostBasisResult where
  source := fetch host db
  key := Request.cacheKey
  body := traceSplit host db
  exhausted := tooDeep host
  circular := loopsBack host

theorem traceCostBasis_eq (room : ℕ) :
    traceCostBasis host db room = (tracing host db).call room := by
  induction room with
  | zero =>
    funext q cache
    unfold traceCostBasis Recursion.call
    have hkey : (tracing host db).key q = q.cacheKey := rfl
    rw [hkey]
    rcases cache.answers q.cacheKey with _ | _ | result <;> rfl
  | succ room ih =>
    funext q cache
    unfold traceCostBasis Recursion.call
    have hkey : (tracing host db).key q = q.cacheKey := rfl
    rw [ih, hkey]
    rcases cache.answers q.cacheKey with _ | _ | result <;> rfl

/-! ## The traces a trace asks for -/

def settledByLot (transferSplit : Split) (q : Request) : Option CostBasisResult :=
  (transferSplit.lotGuid.filter (· ≠ "")).bind fun lotGuid =>
    lotBasis db transferSplit (fetch host db (.lot lotGuid)) (fetch host db (.carried lotGuid)) q

/-- The transfers into the sending account that are traced for a trace. -/
def transferLinks (q : Request) : List Request :=
  match db.split? q.transferInSplitGuid with
  | none => []
  | some transferSplit =>
    if (settledByLot host db transferSplit q).isSome then []
    else
      match findSourceSplit db transferSplit q.commodityGuid with
      | none => []
      | some sourceSplit =>
        let asOfDate := (db.postDate transferSplit).getD host.now
        ((replayed db (fetch host db (.account sourceSplit.accountGuid q.commodityGuid asOfDate))
          transferSplit.txGuid).filter fun s =>
            isTransferInSplit db s sourceSplit.accountGuid q.commodityGuid).map fun s =>
              ⟨s.guid, q.method, q.commodityGuid, s.qty⟩

variable {host db}

variable {accountGuid commodityGuid : String} {p : Request}

theorem of_asks_replayLots {method : CostBasisMethod}
    {state : List PurchaseLot × List String} {s : Split}
    (h : (replayLots host db method accountGuid commodityGuid state s).Asks (fetch host db) p) :
    isTransferInSplit db s accountGuid commodityGuid = true ∧
      p = ⟨s.guid, method, commodityGuid, s.qty⟩ := by
  unfold replayLots at h
  dsimp only at h
  split at h
  · split at h
    · rename_i hin
      rcases h with rfl | ⟨traced, h⟩
      · exact ⟨hin, rfl⟩
      · exact absurd h id
    · exact absurd h id
  · split at h <;> exact absurd h id

theorem of_asks_replayPool {pool : CostBasisPool} {s : Split}
    (h : (replayPool host db accountGuid commodityGuid pool s).Asks (fetch host db) p) :
    isTransferInSplit db s accountGuid commodityGuid = true ∧
      p = ⟨s.guid, .average, commodityGuid, s.qty⟩ := by
  unfold replayPool at h
  split at h
  · split at h
    · rename_i hin
      rcases h with rfl | ⟨traced, h⟩
      · exact ⟨hin, rfl⟩
      · dsimp only [Dialogue.bind] at h
        split at h <;> exact absurd h id
    · exact absurd h id
  · split at h <;> exact absurd h id

theorem of_asks_getAccountCostBasis {method : CostBasisMethod}
    {sharesNeeded : ℚ} {asOfDate : ℤ} {excludeTxGuid : String}
    (h : (getAccountCostBasis host db accountGuid commodityGuid method sharesNeeded asOfDate
      excludeTxGuid).Asks (fetch host db) p) :
    ∃ s ∈ replayed db (fetch host db (.account accountGuid commodityGuid asOfDate)) excludeTxGuid,
      isTransferInSplit db s accountGuid commodityGuid = true ∧
        p = ⟨s.guid, method, commodityGuid, s.qty⟩ := by
  unfold getAccountCostBasis at h
  have h : Dialogue.Asks (fetch host db) (if method = .average then _ else _ : Tracing _) p := h
  by_cases haverage : method = .average
  · rw [if_pos haverage] at h
    rcases Dialogue.asks_bind h with h | ⟨pool, h⟩
    · obtain ⟨s, hs, pool, h⟩ := Dialogue.asks_foldlM h
      rw [haverage]
      exact ⟨s, hs, of_asks_replayPool h⟩
    · exact absurd h id
  · rw [if_neg haverage] at h
    rcases Dialogue.asks_bind h with h | ⟨lots, h⟩
    · obtain ⟨s, hs, state, h⟩ := Dialogue.asks_foldlM h
      exact ⟨s, hs, of_asks_replayLots h⟩
    · exact absurd h id

theorem asks_lookUpLotBasis {transferSplit : Split} {q : Request}
    {f : Option CostBasisResult → Tracing CostBasisResult} :
    (lookUpLotBasis db transferSplit q >>= f).Asks (fetch host db) p =
      (f (settledByLot host db transferSplit q)).Asks (fetch host db) p := by
  unfold lookUpLotBasis settledByLot
  cases transferSplit.lotGuid.filter (· ≠ "") <;> rfl

theorem transferLinks_of_asks {q : Request} (h : (tracing host db).Asks q p) :
    p ∈ transferLinks host db q := by
  have h : Dialogue.Asks (fetch host db) (traceSplit host db q) p := h
  unfold traceSplit at h
  unfold transferLinks
  cases hsplit : db.split? q.transferInSplitGuid with
  | none =>
    rw [hsplit] at h
    exact absurd h id
  | some transferSplit =>
    rw [hsplit] at h
    dsimp only at h ⊢
    cases hsettled : settledByLot host db transferSplit q with
    | some result =>
      rw [asks_lookUpLotBasis, hsettled] at h
      exact absurd h id
    | none =>
      rw [asks_lookUpLotBasis, hsettled] at h
      unfold traceTransferChain at h
      cases hsource : findSourceSplit db transferSplit q.commodityGuid with
      | none =>
        rw [hsource] at h
        exact absurd h id
      | some sourceSplit =>
        rw [hsource] at h
        rcases Dialogue.asks_bind h with h | ⟨result, h⟩
        · obtain ⟨s, hs, hin, rfl⟩ := of_asks_getAccountCostBasis h
          exact List.mem_map.2 ⟨s, List.mem_filter.2 ⟨hs, hin⟩, rfl⟩
        · exact absurd h id

end CostBasis
