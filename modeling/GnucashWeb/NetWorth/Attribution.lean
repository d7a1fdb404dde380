import GnucashWeb.Lib.Civil
import GnucashWeb.Lib.Grouping
import Mathlib.Algebra.BigOperators.Group.List.Basic
import Mathlib.Algebra.Order.Ring.Rat
import Mathlib.Algebra.Order.Group.Unbundled.Abs

/-!
# Net-worth attribution

What `loadAttributionInput` reads of a book for a period, and what `computeNetWorthAttribution` makes of
it: net worth at both ends and, month by month, savings, market gains, debt paydown and the rest.
Amounts are exact and not rounded to cents; rows that only explain a figure, names and labels are left
out.  An instant counts milliseconds from the first day of the calendar, and `rate` stands for
`findExchangeRate` into the base currency.
-/

namespace NetWorth

abbrev Guid := ℕ

/-! ## Accounts -/

inductive AccountType
  | asset
  | bank
  | cash
  | receivable
  | liability
  | credit
  | payable
  | stock
  | mutual
  | income
  | expense
  | other
deriving DecidableEq

inductive AttributionGroup
  | cash
  | investment
  | liability
  | income
  | expense
  | other
deriving DecidableEq

structure Account where
  guid : Guid
  accountType : AccountType
  commodityGuid : Option Guid
  commodityNamespace : Option String
deriving DecidableEq

def CASH_ASSET_TYPES : List AccountType := [.asset, .bank, .cash, .receivable]
def LIABILITY_TYPES : List AccountType := [.liability, .credit, .payable]
def INVESTMENT_TYPES : List AccountType := [.stock, .mutual]

def Account.isCurrency (a : Account) : Bool := a.commodityNamespace = some "CURRENCY"

def classifyAccount (a : Account) : AttributionGroup :=
  if a.accountType ∈ INVESTMENT_TYPES ∧ a.commodityGuid.isSome ∧ ¬a.isCurrency then .investment
  else if a.accountType ∈ CASH_ASSET_TYPES ∨ a.accountType ∈ INVESTMENT_TYPES then .cash
  else if a.accountType ∈ LIABILITY_TYPES then .liability
  else if a.accountType = .income then .income
  else if a.accountType = .expense then .expense
  else .other

/-! ## Prices and months -/

structure PricePoint where
  date : ℤ
  value : ℚ
deriving DecidableEq

/-- The latest price at or before an instant, or the earliest one; prices have their dates
descending. -/
def priceAsOf (prices : List PricePoint) (asOf : ℤ) : ℚ :=
  match prices.getLast? with
  | none => 0
  | some earliest => ((prices.find? fun p => p.date ≤ asOf).getD earliest).value

def msPerDay : ℤ := 86400000

/-- `monthKeyOf`: the month of an instant. -/
def monthOf (t : ℤ) : ℤ := Civil.monthIndex (t / msPerDay)

def monthEnd (month : ℤ) : ℤ := Civil.dateIn (month + 1) 0 * msPerDay + (msPerDay - 1)

structure MonthBucket where
  month : ℤ
  endsAt : ℤ
deriving DecidableEq

def bucketsFrom (periodEnd : ℤ) : ℕ → ℤ → List MonthBucket
  | 0, _ => []
  | fuel + 1, month =>
    ⟨month, if periodEnd < monthEnd month then periodEnd else monthEnd month⟩ ::
      if periodEnd ≤ monthEnd month then [] else bucketsFrom periodEnd fuel (month + 1)

/-- The safety valve stops after 1201 months. -/
def maxBuckets : ℕ := 1201

def buildMonthBuckets (periodStart periodEnd : ℤ) : List MonthBucket :=
  bucketsFrom periodEnd maxBuckets (monthOf periodStart)

/-! ## The computation -/

inductive TxGuid
  | stored (guid : Guid)
  /-- `__fx_reval_` and the guid of an account. -/
  | fxReval (accountGuid : Guid)
deriving DecidableEq

structure AttributionSplit where
  txGuid : TxGuid
  accountGuid : Guid
  postDate : ℤ
  value : ℚ
  quantity : ℚ
deriving DecidableEq

structure AttributionInput where
  accounts : List Account
  startingCashValues : Guid → ℚ
  startingInvestmentQty : Guid → ℚ
  periodSplits : List AttributionSplit
  prices : Guid → List PricePoint
  periodStart : ℤ
  periodEnd : ℤ

namespace AttributionInput

variable (input : AttributionInput)

def buckets : List MonthBucket := buildMonthBuckets input.periodStart input.periodEnd

/-- `groupByGuid`, where the last account with a guid counts. -/
def groupOf (guid : Guid) : AttributionGroup :=
  ((input.accounts.reverse.find? fun a => a.guid = guid).map classifyAccount).getD .other

/-- `txSplits`. -/
def transactions : List (TxGuid × List AttributionSplit) :=
  Grouping.grouped AttributionSplit.txGuid input.periodSplits

/-- The transactions of a month, by the date of the first split. -/
def transactionsIn (month : ℤ) : List (TxGuid × List AttributionSplit) :=
  input.transactions.filter fun tx => tx.2.head?.map (fun s => monthOf s.postDate) = some month

/-- The values of the splits of a transaction in some groups. -/
def sumOf (groups : List AttributionGroup) (splits : List AttributionSplit) : ℚ :=
  ((splits.filter fun s => input.groupOf s.accountGuid ∈ groups).map AttributionSplit.value).sum

def savingsContrib (splits : List AttributionSplit) : ℚ :=
  -(input.sumOf [.income, .expense] splits + input.sumOf [.liability] splits)

def debtContrib (splits : List AttributionSplit) : ℚ := input.sumOf [.liability] splits

def otherContrib (splits : List AttributionSplit) : ℚ :=
  input.sumOf [.cash, .investment] splits + input.sumOf [.income, .expense] splits +
    input.sumOf [.liability] splits

def inMonth (contrib : List AttributionSplit → ℚ) (month : ℤ) : ℚ :=
  ((input.transactionsIn month).map fun tx => contrib tx.2).sum

/-- What the splits on an account add up to in a transaction. -/
def onAccount (f : AttributionSplit → ℚ) (guid : Guid) (splits : List AttributionSplit) : ℚ :=
  ((splits.filter fun s => s.accountGuid = guid).map f).sum

/-- `cashFlowByAccount` and `liabFlowByAccount` after some months. -/
def flow (months : List MonthBucket) (guid : Guid) : ℚ :=
  (months.map fun b => input.inMonth (onAccount AttributionSplit.value guid) b.month).sum

def invested (guid : Guid) (month : ℤ) : ℚ :=
  input.inMonth (onAccount AttributionSplit.value guid) month

def qtyDelta (guid : Guid) (month : ℤ) : ℚ :=
  input.inMonth (onAccount AttributionSplit.quantity guid) month

/-! ### Holdings -/

structure Holding where
  qty : ℚ
  value : ℚ

def priceHistory (a : Account) : List PricePoint :=
  (a.commodityGuid.map input.prices).getD []

def startHolding (a : Account) : Holding :=
  let startQty := input.startingInvestmentQty a.guid
  ⟨startQty, startQty * priceAsOf (input.priceHistory a) input.periodStart⟩

def advance (a : Account) (h : Holding) (b : MonthBucket) : Holding :=
  let qty := h.qty + input.qtyDelta a.guid b.month
  ⟨qty, qty * priceAsOf (input.priceHistory a) b.endsAt⟩

def holdingAfter (a : Account) (months : List MonthBucket) : Holding :=
  months.foldl (input.advance a) (input.startHolding a)

/-- The gain of a holding over a month, after some months. -/
def gain (a : Account) (before : List MonthBucket) (b : MonthBucket) : ℚ :=
  (input.holdingAfter a (before ++ [b])).value - (input.holdingAfter a before).value -
    input.invested a.guid b.month

def investments : List Account :=
  input.accounts.filter fun a => input.groupOf a.guid = .investment

def cashAndLiabilities : List Account :=
  input.accounts.filter fun a =>
    input.groupOf a.guid = .cash ∨ input.groupOf a.guid = .liability

/-! ### Results -/

structure AttributionMonth where
  month : ℤ
  savings : ℚ
  marketGains : ℚ
  debtPaydown : ℚ
  other : ℚ

def AttributionMonth.netChange (m : AttributionMonth) : ℚ :=
  m.savings + m.marketGains + m.debtPaydown + m.other

def monthly : List AttributionMonth :=
  input.buckets.zipIdx.map fun (b, i) =>
    { month := b.month
      savings := input.inMonth input.savingsContrib b.month
      marketGains := (input.investments.map fun a => input.gain a (input.buckets.take i) b).sum
      debtPaydown := input.inMonth input.debtContrib b.month
      other := input.inMonth input.otherContrib b.month }

def startNetWorth : ℚ :=
  (input.cashAndLiabilities.map fun a => input.startingCashValues a.guid).sum +
    (input.investments.map fun a => (input.startHolding a).value).sum

def endNetWorth : ℚ :=
  (input.cashAndLiabilities.map fun a =>
    input.startingCashValues a.guid + input.flow input.buckets a.guid).sum +
    (input.investments.map fun a => (input.holdingAfter a input.buckets).value).sum

end AttributionInput

/-- What the report shows, without the rounding. -/
structure NetWorthAttributionResult where
  startNetWorth : ℚ
  endNetWorth : ℚ
  savings : ℚ
  marketGains : ℚ
  debtPaydown : ℚ
  other : ℚ
  monthly : List AttributionInput.AttributionMonth

open AttributionInput in
def computeNetWorthAttribution (input : AttributionInput) : NetWorthAttributionResult :=
  let savings := (input.monthly.map AttributionMonth.savings).sum
  let marketGains := (input.monthly.map AttributionMonth.marketGains).sum
  let debtPaydown := (input.monthly.map AttributionMonth.debtPaydown).sum
  let totalChange := input.endNetWorth - input.startNetWorth
  { startNetWorth := input.startNetWorth
    endNetWorth := input.endNetWorth
    savings, marketGains, debtPaydown
    other := totalChange - savings - marketGains - debtPaydown
    monthly := input.monthly }

/-! ## Loading -/

structure Split where
  accountGuid : Guid
  value : ℚ
  quantity : ℚ
deriving DecidableEq

structure Transaction where
  guid : Guid
  postDate : Option ℤ
  splits : List Split
deriving DecidableEq

/-- A book: the prices of each commodity have their dates descending and are positive, and `base` is
the base currency. -/
structure Book where
  accounts : List Account
  transactions : List Transaction
  prices : Guid → List PricePoint
  base : Option Guid
  accountKeys : (accounts.map Account.guid).Nodup

section

variable (rate : Guid → ℤ → Option ℚ) (book : Book)

/-- `findExchangeRate` at an instant, or 1 where there is none. -/
def rateAt (g : Guid) (t : ℤ) : ℚ := (rate g t).getD 1

/-- `rateFor`: the rate of an account into the base currency. -/
def rateFor (a : Account) (t : ℤ) : ℚ :=
  match a.commodityGuid with
  | none => 1
  | some g => if ¬a.isCurrency ∨ book.base = none ∨ book.base = some g then 1 else rateAt rate g t

def Book.accountOf (guid : Guid) : Option Account := book.accounts.find? fun a => a.guid = guid

/-- The splits on accounts of the book in transactions that a query selects. -/
def Book.splitsWhere (p : ℤ → Bool) : List (Guid × ℤ × Split) :=
  book.transactions.flatMap fun tx =>
    match tx.postDate with
    | none => []
    | some d =>
      if p d then
        (tx.splits.filter fun s => (book.accountOf s.accountGuid).isSome).map
          fun s => (tx.guid, d, s)
      else []

/-- The amount of a split in the base currency, at the rate of an instant. -/
def valueAt (t : ℤ) (s : Split) : ℚ :=
  match book.accountOf s.accountGuid with
  | none => s.value
  | some a => if a.isCurrency then s.quantity * rateFor rate book a t else s.value

def startingQty (periodStart : ℤ) (guid : Guid) : ℚ :=
  (((book.splitsWhere fun d => d < periodStart).filter fun r => r.2.2.accountGuid = guid).map
    fun r => r.2.2.quantity).sum

def startingValue (periodStart : ℤ) (guid : Guid) : ℚ :=
  (((book.splitsWhere fun d => d < periodStart).filter fun r => r.2.2.accountGuid = guid).map
    fun r => r.2.2.value).sum

/-- A currency account opens with its quantity at the start rate, another one with its values. -/
def startingCash (periodStart : ℤ) (guid : Guid) : ℚ :=
  match book.accountOf guid with
  | none => startingValue book periodStart guid
  | some a =>
    if a.isCurrency then startingQty book periodStart guid * rateFor rate book a periodStart
    else startingValue book periodStart guid

/-- The revaluation of the opening balance of an account, when it is seen. -/
def fxReval (periodStart periodEnd : ℤ) (a : Account) : Option AttributionSplit :=
  match a.commodityGuid with
  | none => none
  | some g =>
    if classifyAccount a ≠ .cash ∨ ¬a.isCurrency ∨ book.base = some g then none
    else
      let startQty := startingQty book periodStart a.guid
      let reval := startQty * ((if book.base = none then 1 else rateAt rate g periodEnd) -
        (if book.base = none then 1 else rateAt rate g periodStart))
      if |startQty| < 1 / 1000000000 ∨ |reval| < 5 / 1000 then none
      else some ⟨.fxReval a.guid, a.guid, periodEnd, reval, 0⟩

def startOfDay (day : ℤ) : ℤ := day * msPerDay

def endOfDay (day : ℤ) : ℤ := day * msPerDay + (msPerDay - 1)

/-- A period is given by its first and its last day. -/
def loadAttributionInput (startDate endDate : ℤ) : AttributionInput :=
  let periodStart := startOfDay startDate
  let periodEnd := endOfDay endDate
  { accounts := book.accounts
    startingCashValues := startingCash rate book periodStart
    startingInvestmentQty := startingQty book periodStart
    periodSplits :=
      ((book.splitsWhere fun d => periodStart ≤ d ∧ d ≤ periodEnd).map fun r =>
        ⟨.stored r.1, r.2.2.accountGuid, r.2.1, valueAt rate book periodEnd r.2.2,
          r.2.2.quantity⟩) ++
        book.accounts.filterMap (fxReval rate book periodStart periodEnd)
    prices := book.prices
    periodStart, periodEnd }

/-- `generateNetWorthAttribution`, before it is dressed up. -/
def attribution (startDate endDate : ℤ) : NetWorthAttributionResult :=
  computeNetWorthAttribution (loadAttributionInput rate book startDate endDate)

end

end NetWorth
