import GnucashWeb.NetWorth.Additive
import GnucashWeb.Reports.Financial
import GnucashWeb.Valuation.Independent
import Mathlib.Data.List.Sort

/-!
# Net worth outside the balance sheet

The financial summary values a book like the balance sheet does, the time machine values securities at
their latest price and everything else at its face, and the attribution of net worth reads the same
tables.  The coverage of a change, and the tree, the paths and the subtotals of the time machine, which
no net worth depends on, are left out.
-/

namespace Reports

open Ledger (AccountType)

/-! ## The financial summary -/

namespace FinancialSummary

def ASSET_TYPES : List AccountType := [.asset, .bank, .cash, .receivable]
def LIABILITY_TYPES : List AccountType := [.liability, .credit, .payable]
def INVESTMENT_TYPES : List AccountType := [.stock, .mutual]

/-- `complete` is that of the coverage. -/
structure NetWorthResult where
  assets : ℚ
  liabilities : ℚ
  investmentValue : ℚ
  netWorth : ℚ
  complete : Bool

structure NetWorthSummary where
  atStart : NetWorthResult
  atEnd : NetWorthResult
  change : ℚ
  changePercent : ℚ

section

variable (quotes : Quotes) (book : Book)

def accounts : List Account := book.selected (ASSET_TYPES ++ LIABILITY_TYPES ++ INVESTMENT_TYPES)

def valuation (asOf : ℤ) : Valuation.AccountValuationContext :=
  Valuation.buildAccountValuationContext quotes.prices quotes.pivots
    ((accounts book).map Account.toValuation) asOf quotes.reportCurrencyGuid

/-- `quantityByAccount`: of the splits read through the end date, those posted by a date. -/
def quantityByAccount (endDate asOf : ℤ) (a : Account) : ℚ :=
  book.sumSplits Split.quantity (fun d => d ≤ endDate ∧ d ≤ asOf) a.guid

/-- The values of the accounts of some types, added up. -/
def totalOf (endDate asOf : ℤ) (types : List AccountType) : ℚ :=
  (((accounts book).filter fun a => a.accountType ∈ types).map fun a =>
    quantityByAccount book endDate asOf a *
      (valuation quotes book asOf).getMultiplier a.toValuation).sum

def computeNetWorthAtDate (endDate asOf : ℤ) : NetWorthResult :=
  let assets := totalOf quotes book endDate asOf ASSET_TYPES
  let liabilities := totalOf quotes book endDate asOf LIABILITY_TYPES
  let investmentValue := totalOf quotes book endDate asOf INVESTMENT_TYPES
  { assets, liabilities, investmentValue
    netWorth := assets + investmentValue + liabilities
    complete := (accounts book).all fun a =>
      |quantityByAccount book endDate asOf a| ≤ UNVALUED_QUANTITY_EPSILON ||
        (valuation quotes book asOf).isConvertible a.toValuation }

def computeNetWorthSummary (startDate endDate : ℤ) : NetWorthSummary :=
  let atEnd := computeNetWorthAtDate quotes book endDate endDate
  let atStart := computeNetWorthAtDate quotes book endDate startDate
  let change := atEnd.netWorth - atStart.netWorth
  { atStart, atEnd, change
    changePercent := if atStart.netWorth ≠ 0 then change / |atStart.netWorth| * 100 else 0 }

end

end FinancialSummary

/-! ## The time machine -/

namespace TimeMachine

def ASSET_TYPES : List AccountType := [.asset, .bank, .cash, .stock, .mutual, .receivable]
def LIABILITY_TYPES : List AccountType := [.liability, .credit, .payable]

structure AsOfAccount where
  guid : Guid
  accountType : AccountType
  quantity : ℚ
  balance : ℚ

structure AsOfSummary where
  netWorth : ℚ
  assets : ℚ
  liabilities : ℚ
  byType : AccountType → ℚ

structure BookAsOf where
  accounts : List AsOfAccount
  summary : AsOfSummary

def isSecurity (account : Account) : Bool :=
  account.commodityGuid.isSome && account.commodityNamespace ≠ some Valuation.CURRENCY

section

variable (quotes : Quotes) (book : Book)

def sumQuantitiesAsOf (cutoff : ℤ) (guid : Guid) : ℚ :=
  book.sumSplits Split.quantity (fun d => d ≤ cutoff) guid

/-- The latest price of a commodity, in whatever currency it is quoted. -/
def pickLatestPricesAsOf (cutoff : ℤ) (commodityGuid : Guid) : Option ℚ :=
  (Valuation.latest (quotes.prices.filter fun p => p.date ≤ cutoff ∧ 0 < p.value.num ∧
    0 < p.value.toDecimalNumber ∧ p.commodityGuid = commodityGuid)).map fun p =>
      p.value.toDecimalNumber

def unitValue (cutoff : ℤ) (account : Account) : ℚ :=
  if isSecurity account then
    (account.commodityGuid.bind (pickLatestPricesAsOf quotes cutoff)).getD 0
  else 1

/-- `buildAsOfTree`, its flat list. -/
def buildAsOfTree (cutoff : ℤ) : List AsOfAccount :=
  (book.accounts.filter fun a => a.accountType ≠ .root ∧ ¬a.hidden).map fun a =>
    let quantity := sumQuantitiesAsOf book cutoff a.guid
    ⟨a.guid, a.accountType, quantity, quantity * unitValue quotes cutoff a⟩

def balanceOf (flat : List AsOfAccount) (types : List AccountType) : ℚ :=
  ((flat.filter fun a => a.accountType ∈ types).map AsOfAccount.balance).sum

def summarizeAsOf (flat : List AsOfAccount) : AsOfSummary :=
  let assets := balanceOf flat ASSET_TYPES
  let liabilities := balanceOf flat LIABILITY_TYPES
  { netWorth := assets + liabilities
    assets, liabilities
    byType := fun accountType => balanceOf flat [accountType] }

def bookAsOf (date : ℤ) : BookAsOf :=
  let flat := buildAsOfTree quotes book (NetWorth.endOfDay date)
  ⟨flat, summarizeAsOf flat⟩

end

end TimeMachine

/-! ## The attribution -/

def attributionType : AccountType → NetWorth.AccountType
  | .asset => .asset
  | .bank => .bank
  | .cash => .cash
  | .receivable => .receivable
  | .liability => .liability
  | .credit => .credit
  | .payable => .payable
  | .stock => .stock
  | .mutual => .mutual
  | .income => .income
  | .expense => .expense
  | _ => .other

def Account.toAttribution (a : Account) : NetWorth.Account :=
  ⟨a.guid, attributionType a.accountType, a.commodityGuid, a.commodityNamespace.map String.ofList⟩

/-- The positive prices of a commodity, in whatever currency it is quoted. -/
def Quotes.rowsOf (quotes : Quotes) (commodityGuid : Guid) : List Valuation.PriceRow :=
  quotes.prices.filter fun p => p.commodityGuid = commodityGuid ∧ 0 < p.value.num

/-- The prices of a commodity with their dates descending. -/
def Quotes.history (quotes : Quotes) (commodityGuid : Guid) : List NetWorth.PricePoint :=
  ((quotes.rowsOf commodityGuid).insertionSort fun p q => q.date ≤ p.date).map fun p =>
    ⟨p.date, p.value.toDecimalNumber⟩

/-- The book as the attribution reads it; its transactions are numbered. -/
def Book.toAttribution (quotes : Quotes) (book : Book)
    (hkeys : (book.accounts.map Account.guid).Nodup) : NetWorth.Book where
  accounts := book.accounts.map Account.toAttribution
  transactions := book.transactions.zipIdx.map fun (tx, i) =>
    ⟨i, tx.postDate, tx.splits.map fun s => ⟨s.accountGuid, s.value, s.quantity⟩⟩
  prices := quotes.history
  base := quotes.reportCurrencyGuid
  accountKeys := by
    rw [List.map_map]
    exact hkeys

end Reports
