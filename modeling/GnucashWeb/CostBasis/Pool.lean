import GnucashWeb.Lots.CarriedBasis

/-!
# Cost-basis pools

The basis of a number of shares, split by whether it could be established, and the running pool of
shares that the average method replays an account into.
-/

open Ledger Lots

namespace CostBasis

inductive CostBasisMethod
  | fifo | lifo | average
deriving DecidableEq, Repr

def qtyEps : ℚ := 1 / 10000

structure CostBasisResult where
  coveredShares : ℚ
  uncoveredShares : ℚ
  basisOfCoveredShares : ℚ
  perShareCost : ℚ
  method : CostBasisMethod
  tracedFromAccount : Option String
  warnings : List String
deriving DecidableEq, Repr

structure CostBasisPool where
  coveredShares : ℚ
  uncoveredShares : ℚ
  basisOfCoveredShares : ℚ
  warnings : List String
  shortShares : ℚ
  shortProceeds : ℚ
  shortProceedsIncomplete : Bool
deriving DecidableEq, Repr

def createCostBasisPool : CostBasisPool := ⟨0, 0, 0, [], 0, 0, false⟩

variable (host : Host)

/-! ## Texts -/

/-- A share count in a warning: four decimals. -/
def round4 (n : ℚ) : String := host.numberText (mathRound (n * 10000) / 10000)

def dateLabel : Option ℤ → String
  | some date => host.isoDay date
  | none => "an unknown date"

def collectWarnings (into : List String) (added : List String) : List String :=
  added.foldl (fun into w => if w ∈ into then into else into ++ [w]) into

def covered (shares basis : ℚ) (method : CostBasisMethod) : CostBasisResult :=
  ⟨shares, 0, basis, if 0 < shares then basis / shares else 0, method, none, []⟩

/-- Shares without a basis, with the reason. -/
def uncovered (shares : ℚ) (method : CostBasisMethod) (warning : String) : CostBasisResult :=
  ⟨0, shares, 0, 0, method, none, [warning]⟩

/-! ## Pool operations -/

/-- Buy back shares that were sold short, with their part of the proceeds. -/
def retireShort (pool : CostBasisPool) (coveredBack : ℚ) : CostBasisPool :=
  if pool.shortShares - coveredBack ≤ 0 then
    { pool with shortShares := 0, shortProceeds := 0, shortProceedsIncomplete := false }
  else
    { pool with
      shortProceeds := pool.shortProceeds - pool.shortProceeds * (coveredBack / pool.shortShares)
      shortShares := pool.shortShares - coveredBack }

def addPurchaseToPool (pool : CostBasisPool) (shares cost : ℚ) : CostBasisPool :=
  let openLong (pool : CostBasisPool) (shares cost : ℚ) : CostBasisPool :=
    { pool with
      coveredShares := pool.coveredShares + shares
      basisOfCoveredShares := pool.basisOfCoveredShares + cost }
  if 0 < pool.shortShares ∧ 0 < shares then
    let coveredBack := min shares pool.shortShares
    let left := shares - coveredBack
    if left ≤ 0 then retireShort pool coveredBack
    else openLong (retireShort pool coveredBack) left (cost / shares * left)
  else openLong pool shares cost

/-- Fold in traced shares: a short position is bought back first, and what is left keeps its split
into covered and uncovered shares. -/
def addTracedTransferToPool (pool : CostBasisPool) (traced : CostBasisResult) : CostBasisPool :=
  let pool := { pool with warnings := collectWarnings pool.warnings traced.warnings }
  let add (pool : CostBasisPool) (fraction : ℚ) : CostBasisPool :=
    { pool with
      coveredShares := pool.coveredShares + traced.coveredShares * fraction
      uncoveredShares := pool.uncoveredShares + traced.uncoveredShares * fraction
      basisOfCoveredShares := pool.basisOfCoveredShares + traced.basisOfCoveredShares * fraction }
  let incoming := traced.coveredShares + traced.uncoveredShares
  if 0 < pool.shortShares ∧ 0 < incoming then
    let coveredBack := min incoming pool.shortShares
    let surviving := (incoming - coveredBack) / incoming
    if surviving ≤ 0 then retireShort pool coveredBack
    else add (retireShort pool coveredBack) surviving
  else add pool 1

def poolNetShares (pool : CostBasisPool) : ℚ :=
  pool.coveredShares + pool.uncoveredShares - pool.shortShares

def poolPerShareCost (pool : CostBasisPool) : ℚ :=
  if 0 < pool.coveredShares then pool.basisOfCoveredShares / pool.coveredShares else 0

/-- A sale takes covered and uncovered shares pro rata; past zero it opens a short position. -/
def removeSharesFromPool (pool : CostBasisPool) (shares : ℚ) (proceeds : Option ℚ) :
    CostBasisPool :=
  let poolShares := pool.coveredShares + pool.uncoveredShares
  let sold := min shares (max 0 poolShares)
  let drained :=
    if 0 < poolShares then
      let fromCovered := sold * (pool.coveredShares / poolShares)
      { pool with
        basisOfCoveredShares := pool.basisOfCoveredShares - poolPerShareCost pool * fromCovered
        coveredShares := pool.coveredShares - fromCovered
        uncoveredShares := max 0 (pool.uncoveredShares - (sold - fromCovered)) }
    else pool
  let shorted := shares - sold
  if shorted ≤ 0 then drained
  else
    match proceeds with
    | none =>
      { drained with
        shortShares := drained.shortShares + shorted
        shortProceedsIncomplete := true
        warnings := collectWarnings drained.warnings
          [round4 host shorted ++ " share(s) were sold short without readable proceeds: the short position's basis is incomplete."] }
    | some proceeds =>
      { drained with
        shortShares := drained.shortShares + shorted
        shortProceeds := drained.shortProceeds +
          if 0 < shares then proceeds * (shorted / shares) else 0 }

def exceedsHistory (shares : ℚ) : String :=
  round4 host shares ++ " share(s) exceed the traced history available in the source account: reported without a cost basis."

def drawFromPool (pool : CostBasisPool) (sharesNeeded : ℚ) (method : CostBasisMethod) :
    CostBasisResult :=
  let poolShares := pool.coveredShares + pool.uncoveredShares
  let perShareCost := poolPerShareCost pool
  let draw := min sharesNeeded poolShares
  let shortfall := max 0 (sharesNeeded - draw)
  let coveredShares := if 0 < poolShares then draw * (pool.coveredShares / poolShares) else 0
  let warnings :=
    if qtyEps < shortfall then collectWarnings pool.warnings [exceedsHistory host shortfall]
    else pool.warnings
  ⟨coveredShares, sharesNeeded - coveredShares, perShareCost * coveredShares, perShareCost, method,
    none, warnings⟩

end CostBasis
