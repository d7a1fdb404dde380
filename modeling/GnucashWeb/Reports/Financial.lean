import GnucashWeb.Reports.Hierarchy
import GnucashWeb.Valuation.Context

/-!
# The financial statements

The balance sheet, the trial balance and the cash-flow statement of a book at a date or over a range,
with exact amounts.  Names, paths, the order of the trial balance's rows and the comparison with an
earlier date are left out.
-/

namespace Reports

open Ledger (AccountType round2)

/-! ## Books -/

structure Account where
  guid : Guid
  accountType : AccountType
  parentGuid : Option Guid
  commodityGuid : Option Guid
  commodityNamespace : Option (List Char)
  hidden : Bool
deriving DecidableEq

structure Split where
  accountGuid : Guid
  value : ℚ
  quantity : ℚ
deriving DecidableEq

structure Transaction where
  postDate : Option ℤ
  splits : List Split
deriving DecidableEq

structure Book where
  accounts : List Account
  transactions : List Transaction

/-- The rows that accounts are valued with. -/
structure Quotes where
  prices : List Valuation.PriceRow
  pivots : List Guid
  reportCurrencyGuid : Option Guid

namespace Book

variable (book : Book)

def splitsIn (inRange : ℤ → Bool) : List Split :=
  book.transactions.flatMap fun tx => if tx.postDate.any inRange then tx.splits else []

/-- `sumSplitsByAccount`, for one of the two sums. -/
def sumSplits (amount : Split → ℚ) (inRange : ℤ → Bool) (guid : Guid) : ℚ :=
  (((book.splitsIn inRange).filter fun s => s.accountGuid = guid).map amount).sum

/-- The accounts of some types that are not hidden. -/
def selected (types : List AccountType) : List Account :=
  book.accounts.filter fun a => a.accountType ∈ types ∧ ¬a.hidden

/-- `resolveRootGuid` in a book. -/
def resolveRootGuid : Option Guid :=
  (book.accounts.find? fun a => a.accountType = .root).map Account.guid

end Book

/-! ## The balance sheet -/

mutual

def negateItem : LineItem → LineItem
  | .mk guid amount previousAmount children depth =>
    .mk guid (-amount) (previousAmount.map fun previous => -previous) (negateItems children)
      depth

def negateItems : List LineItem → List LineItem
  | [] => []
  | item :: rest => negateItem item :: negateItems rest

end

def assetTypes : List AccountType := [.asset, .bank, .cash, .stock, .mutual, .receivable]
def liabilityTypes : List AccountType := [.liability, .credit, .payable]
def equityTypes : List AccountType := [.equity]
def INCOME_EXPENSE_TYPES : List AccountType := [.income, .expense]

def Account.toValuation (a : Account) : Valuation.AccountValuationInput :=
  ⟨a.accountType, a.commodityGuid, a.commodityNamespace⟩

/-- The synthetic row is kept apart from the items of the equity accounts. -/
structure BalanceSheet where
  assetItems : List LineItem
  liabilityItems : List LineItem
  equityItems : List LineItem
  retainedEarningsItem : Option ℚ
  totalAssets : ℚ
  totalLiabilities : ℚ
  totalEquity : ℚ
  grandTotal : Option ℚ

def UNVALUED_QUANTITY_EPSILON : ℚ := 1 / 1000000000

section

variable (quotes : Quotes) (book : Book)

def sheetAccounts : List Account :=
  book.selected (assetTypes ++ liabilityTypes ++ equityTypes ++ INCOME_EXPENSE_TYPES)

def valuation (endDate : ℤ) : Valuation.AccountValuationContext :=
  Valuation.buildAccountValuationContext quotes.prices quotes.pivots
    ((sheetAccounts book).map Account.toValuation) endDate quotes.reportCurrencyGuid

def quantityAt (endDate : ℤ) (a : Account) : ℚ :=
  book.sumSplits Split.quantity (fun d => d ≤ endDate) a.guid

def balanceAt (endDate : ℤ) (a : Account) : ℚ :=
  quantityAt book endDate a * (valuation quotes book endDate).getMultiplier a.toValuation

/-- `collectValuationCoverage(..).complete`. -/
def coverageComplete (endDate : ℤ) : Bool :=
  (sheetAccounts book).all fun a =>
    |quantityAt book endDate a| ≤ UNVALUED_QUANTITY_EPSILON ||
      (valuation quotes book endDate).isConvertible a.toValuation

def withBalance (balance : Account → ℚ) (a : Account) : AccountWithBalance :=
  ⟨a.guid, a.parentGuid, balance a, none⟩

def sectionAccounts (endDate : ℤ) (types : List AccountType) : List AccountWithBalance :=
  ((sheetAccounts book).filter fun a => a.accountType ∈ types).map
    (withBalance (balanceAt quotes book endDate))

def retainedEarnings (endDate : ℤ) : ℚ :=
  -(((sheetAccounts book).filter fun a => a.accountType ∈ INCOME_EXPENSE_TYPES).map
    (balanceAt quotes book endDate)).sum

def generateBalanceSheet (endDate : ℤ) : BalanceSheet :=
  let rootGuid := book.resolveRootGuid
  let assetItems := buildHierarchy (sectionAccounts quotes book endDate assetTypes) rootGuid
  let liabilityItems :=
    (buildHierarchy (sectionAccounts quotes book endDate liabilityTypes) rootGuid).map negateItem
  let equityItems :=
    (buildHierarchy (sectionAccounts quotes book endDate equityTypes) rootGuid).map negateItem
  let retained := retainedEarnings quotes book endDate
  let retainedEarningsItem := if 5 / 1000 < |retained| then some retained else none
  let totalAssets := (assetItems.map LineItem.amount).sum
  let totalLiabilities := (liabilityItems.map LineItem.amount).sum
  let totalEquity := (equityItems.map LineItem.amount).sum + retainedEarningsItem.getD 0
  { assetItems, liabilityItems, equityItems, retainedEarningsItem
    totalAssets, totalLiabilities, totalEquity
    grandTotal :=
      if coverageComplete quotes book endDate then
        some (totalAssets - totalLiabilities - totalEquity)
      else none }

end

/-! ## The trial balance -/

def DEBIT_NORMAL_TYPES : List AccountType :=
  [.asset, .bank, .cash, .stock, .mutual, .expense, .receivable]

def CREDIT_NORMAL_TYPES : List AccountType := [.liability, .credit, .equity, .income, .payable]

def ALL_ACCOUNT_TYPES : List AccountType := DEBIT_NORMAL_TYPES ++ CREDIT_NORMAL_TYPES ++ [.trading]

structure TrialBalanceEntry where
  guid : Guid
  accountType : AccountType
  debit : ℚ
  credit : ℚ
deriving DecidableEq

/-- The columns of a balance: by the normal side of the type and the sign. -/
def columns (accountType : AccountType) (rawBalance : ℚ) : ℚ × ℚ :=
  if accountType ∈ DEBIT_NORMAL_TYPES then
    if 0 ≤ rawBalance then (rawBalance, 0) else (0, |rawBalance|)
  else if accountType ∈ CREDIT_NORMAL_TYPES then
    if rawBalance ≤ 0 then (0, |rawBalance|) else (rawBalance, 0)
  else if 0 ≤ rawBalance then (rawBalance, 0)
  else (0, |rawBalance|)

structure TrialBalance where
  entries : List TrialBalanceEntry
  totalDebits : ℚ
  totalCredits : ℚ

/-- The row of an account, unless its balance is zero. -/
def trialEntry (book : Book) (showZeroBalances : Bool) (endDate : ℤ) (a : Account) :
    Option TrialBalanceEntry :=
  let rawBalance := book.sumSplits Split.value (fun d => d ≤ endDate) a.guid
  if |rawBalance| < 5 / 1000 ∧ ¬showZeroBalances then none
  else
    let c := columns a.accountType rawBalance
    some ⟨a.guid, a.accountType, round2 c.1, round2 c.2⟩

def generateTrialBalance (book : Book) (showZeroBalances : Bool) (endDate : ℤ) : TrialBalance :=
  let entries := (book.selected ALL_ACCOUNT_TYPES).filterMap
    (trialEntry book showZeroBalances endDate)
  { entries
    totalDebits := round2 (entries.map TrialBalanceEntry.debit).sum
    totalCredits := round2 (entries.map TrialBalanceEntry.credit).sum }

/-! ## Cash flow -/

inductive CashFlowCategory
  | operating
  | investing
  | financing
  | cash
deriving DecidableEq

def getCashFlowCategory : AccountType → Option CashFlowCategory
  | .bank | .cash => some .cash
  | .income | .expense | .receivable | .payable => some .operating
  | .stock | .mutual | .asset => some .investing
  | .liability | .credit | .equity => some .financing
  | _ => none

structure CashFlow where
  totalOperating : ℚ
  totalInvesting : ℚ
  totalFinancing : ℚ
  totalCashChange : ℚ

/-- The change of an account: investments by value, others by quantity. -/
def netChange (book : Book) (inRange : ℤ → Bool) (a : Account) : ℚ :=
  if a.accountType = .stock ∨ a.accountType = .mutual then
    book.sumSplits Split.value inRange a.guid
  else book.sumSplits Split.quantity inRange a.guid

/-- `getAccountChanges`: the amounts of the lines of a category. -/
def accountChanges (book : Book) (showZeroBalances : Bool) (inRange : ℤ → Bool)
    (category : CashFlowCategory) : List ℚ :=
  ((book.accounts.filter fun a =>
    ¬a.hidden ∧ getCashFlowCategory a.accountType = some category).map
      (netChange book inRange)).filter fun change => change ≠ 0 ∨ showZeroBalances

def generateCashFlow (book : Book) (showZeroBalances : Bool) (startDate endDate : ℤ) : CashFlow :=
  let changes := accountChanges book showZeroBalances fun d => startDate ≤ d ∧ d ≤ endDate
  { totalOperating := ((changes .operating).map fun change => -change).sum
    totalInvesting := ((changes .investing).map fun change => -change).sum
    totalFinancing := ((changes .financing).map fun change => -change).sum
    totalCashChange := (changes .cash).sum }

end Reports
