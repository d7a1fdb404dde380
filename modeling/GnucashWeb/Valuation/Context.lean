import GnucashWeb.Ledger.Book
import Mathlib.Logic.Function.Basic

/-!
# Valuation contexts

The context that values accounts in the report currency: the latest prices between the commodities of
the accounts, the report currency and the pivots, and a multiplier for each commodity, kept once it is
computed.  The texts of gaps and the notes on stale prices, which no multiplier depends on, are left
out.
-/

namespace Valuation

open Ledger

/-! ## Data -/

abbrev Guid := ℕ

structure AccountValuationInput where
  accountType : AccountType
  commodityGuid : Option Guid
  commodityNamespace : Option (List Char)
deriving DecidableEq

inductive ValuationGapReason
  | missingSecurityPrice
  | missingExchangeRate
deriving DecidableEq

/-- A row of `prices`; days are counted. -/
structure PriceRow where
  commodityGuid : Guid
  currencyGuid : Guid
  date : ℤ
  value : Amount
deriving DecidableEq

/-- A rate, with the date of the oldest quote that it is built from. -/
structure DatedRate where
  rate : ℚ
  date : Option ℤ
deriving DecidableEq

/-- The latest rate from one commodity to another. -/
abbrev PricePairs := Guid → Guid → Option DatedRate

def CURRENCY : List Char := "CURRENCY".toList

/-! ## Rates -/

def olderDate : Option ℤ → Option ℤ → Option ℤ
  | none, b => b
  | some a, none => some a
  | some a, some b => some (min a b)

def isInvestmentAccount (account : AccountValuationInput) : Bool :=
  (account.accountType = .stock || account.accountType = .mutual) &&
    account.commodityGuid.isSome && account.commodityNamespace ≠ some CURRENCY

def latest (rows : List PriceRow) : Option PriceRow :=
  rows.foldl (fun best r => if best.any fun b => r.date ≤ b.date then best else some r) none

def loadLatestPricePairs (prices : List PriceRow) (commodityGuids : List Guid) (asOf : ℤ) :
    PricePairs := fun fromGuid toGuid =>
  let rows := prices.filter fun p =>
    p.date ≤ asOf ∧ p.commodityGuid ∈ commodityGuids ∧ p.currencyGuid ∈ commodityGuids ∧
      0 < p.value.num ∧ p.commodityGuid = fromGuid ∧ p.currencyGuid = toGuid
  (latest rows).map fun p => ⟨p.value.toDecimalNumber, some p.date⟩

def getPairRate (pricePairs : PricePairs) (fromGuid toGuid : Guid) : Option DatedRate :=
  if fromGuid = toGuid then some ⟨1, none⟩
  else
    match pricePairs fromGuid toGuid with
    | some direct => some direct
    | none => (pricePairs toGuid fromGuid).map fun inverse =>
      ⟨if inverse.rate ≠ 0 then 1 / inverse.rate else 0, inverse.date⟩

def viaPivot (pricePairs : PricePairs) (fromGuid toGuid pivotGuid : Guid) : Option DatedRate :=
  if pivotGuid = fromGuid ∨ pivotGuid = toGuid then none
  else
    match getPairRate pricePairs fromGuid pivotGuid, getPairRate pricePairs pivotGuid toGuid with
    | some fromToPivot, some pivotToTarget =>
      some ⟨fromToPivot.rate * pivotToTarget.rate, olderDate fromToPivot.date pivotToTarget.date⟩
    | _, _ => none

def getConversionRate (pricePairs : PricePairs) (fromGuid toGuid : Guid)
    (pivotGuids : List Guid) : Option DatedRate :=
  match getPairRate pricePairs fromGuid toGuid with
  | some directOrInverse => some directOrInverse
  | none => pivotGuids.findSome? (viaPivot pricePairs fromGuid toGuid)

/-! ## Contexts -/

/-- What was computed for the commodities so far. -/
structure Caches where
  multiplierCache : Guid → Option ℚ
  gapReasons : Guid → Option ValuationGapReason
  rateDates : Guid → Option ℤ

def Caches.empty : Caches := ⟨fun _ => none, fun _ => none, fun _ => none⟩

def Caches.rated (c : Caches) (commodityGuid : Guid) (rate : Option DatedRate)
    (reason : ValuationGapReason) : Caches where
  multiplierCache := Function.update c.multiplierCache commodityGuid
    (some (rate.elim 0 DatedRate.rate))
  gapReasons := if rate.isNone then Function.update c.gapReasons commodityGuid (some reason)
    else c.gapReasons
  rateDates := match rate.bind DatedRate.date with
    | none => c.rateDates
    | some date => Function.update c.rateDates commodityGuid (some date)

def Caches.atFace (c : Caches) (commodityGuid : Guid) : Caches :=
  { c with multiplierCache := Function.update c.multiplierCache commodityGuid (some 1) }

section Build

variable (pricePairs : PricePairs) (reportCurrencyGuid : Option Guid) (pivotGuids : List Guid)

def addAccount (c : Caches) (account : AccountValuationInput) : Caches :=
  match account.commodityGuid with
  | none => c
  | some commodityGuid =>
    if (c.multiplierCache commodityGuid).isSome then c
    else
      match reportCurrencyGuid with
      | none => c.atFace commodityGuid
      | some reportGuid =>
        let rate := getConversionRate pricePairs commodityGuid reportGuid pivotGuids
        if isInvestmentAccount account then
          c.rated commodityGuid rate .missingSecurityPrice
        else if account.commodityNamespace = some CURRENCY then
          c.rated commodityGuid rate .missingExchangeRate
        else c.atFace commodityGuid

end Build

structure AccountValuationContext where
  reportCurrencyGuid : Option Guid
  caches : Caches

def AccountValuationContext.getMultiplier (ctx : AccountValuationContext)
    (account : AccountValuationInput) : ℚ :=
  match account.commodityGuid with
  | none => 1
  | some commodityGuid => (ctx.caches.multiplierCache commodityGuid).getD 1

def AccountValuationContext.isConvertible (ctx : AccountValuationContext)
    (account : AccountValuationInput) : Bool :=
  match account.commodityGuid with
  | none => true
  | some commodityGuid => (ctx.caches.gapReasons commodityGuid).isNone

def commodityGuids (accounts : List AccountValuationInput) (reportCurrencyGuid : Option Guid)
    (pivotGuids : List Guid) : List Guid :=
  reportCurrencyGuid.toList ++ accounts.filterMap AccountValuationInput.commodityGuid ++ pivotGuids

/-- Pivots are the rows of the currencies that rates may go through; without a report currency there
are none. -/
def buildAccountValuationContext (prices : List PriceRow) (pivots : List Guid)
    (accounts : List AccountValuationInput) (asOf : ℤ) (reportCurrencyGuid : Option Guid) :
    AccountValuationContext :=
  let pivotGuids := if reportCurrencyGuid.isSome then pivots else []
  let pricePairs :=
    loadLatestPricePairs prices (commodityGuids accounts reportCurrencyGuid pivotGuids) asOf
  ⟨reportCurrencyGuid, accounts.foldl (addAccount pricePairs reportCurrencyGuid pivotGuids) .empty⟩

end Valuation
