import GnucashWeb.Qif.Parser

/-!
# The QIF import plan

`planQifImport` resolves the accounts, categories and transfers of a file against a book and plans
its transactions; `executeQifImport` writes them over a hundred.  `executeQifImport_balanced`: the
numerators of every transaction sum to zero.
-/

namespace Qif

open Ledger (AccountType Amount ReconcileState WholeCents fromDecimal round2)
open Text (trim)

/-! ## Plans -/

structure ExistingAccountInfo where
  guid : Str
  name : Str
  /-- Its colon path under the root of the book. -/
  fullname : Str
  accountType : AccountType
  placeholder : Bool

structure ExistingTransactionKey where
  accountGuid : Str
  date : Str
  amount : ℚ
  description : Str

structure QifPlanOptions where
  currencyGuid : Str
  currencyMnemonic : Option Str
  accountMappings : Str → Option Str
  categoryMappings : Str → Option Str
  newAccountParentGuid : Option Str

structure QifPlanContext where
  bookGuid : Str
  bookRootGuid : Str
  bookAccountGuids : List Str
  accounts : List ExistingAccountInfo
  existingTransactions : List ExistingTransactionKey

inductive PlannedAccountRef
  | existing (guid : Str)
  | new (key : Str)
deriving DecidableEq

inductive CreateReason
  | account
  | category
  | transfer
  | imbalance
  | equity

structure PlannedAccountCreate where
  key : Str
  path : Str
  anchorGuid : Str
  displayPath : Str
  accountType : AccountType
  reason : CreateReason

structure PlannedSplit where
  account : PlannedAccountRef
  memo : Str
  amount : ℚ
  reconcile : ReconcileState

structure PlannedTransaction where
  date : Str
  description : Str
  num : Str
  splits : List PlannedSplit
  sourceAccount : Str

structure SkippedDuplicate where
  qifAccount : Str
  date : Str
  amount : ℚ
  description : Str

structure QifAccountMapping where
  qifName : Str
  qifType : Str
  ref : PlannedAccountRef
  path : Str
  transactions : ℕ

structure QifCategoryMapping where
  category : Str
  ref : PlannedAccountRef
  path : Str
  uses : ℕ

inductive PlanWarning
  | parentOutsideBook
  | accountMappingOutsideBook (displayName : Str)
  | matchedPlaceholder (displayName fullname : Str)
  | categoryMappingOutsideBook (category : Str)
  | transferTargetNotFound (targetName : Str)
  | splitImbalance (description date : Str) (gap : ℚ)

structure QifImportPlan where
  bookGuid : Str
  bookRootGuid : Str
  currencyGuid : Str
  accountsToCreate : List PlannedAccountCreate
  transactions : List PlannedTransaction
  skippedDuplicates : List SkippedDuplicate
  transferPairsDeduped : ℕ
  accountMappings : List QifAccountMapping
  categoryMappings : List QifCategoryMapping
  warnings : List PlanWarning

structure Targets where
  accountsToCreate : List PlannedAccountCreate
  /-- The target of each account of the file, by its normalized name, the latest first. -/
  accountRefByQifName : List (Str × PlannedAccountRef)
  accountMappings : List QifAccountMapping
  categoryRefCache : List (Str × PlannedAccountRef)
  categoryUse : List (Str × QifCategoryMapping)
  warnings : List PlanWarning

abbrev Resolve (α : Type) := StateM Targets α

def warn (warning : PlanWarning) : Resolve Unit :=
  modify fun t => { t with warnings := t.warnings ++ [warning] }

def truthy (text : Option Str) : Option Str := text.filter fun s => s ≠ []

def TARGET_ACCOUNT_TYPES : List AccountType := [.bank, .cash, .credit, .asset, .liability]

section Planner

variable (toLowerCase : Str → Str)

def qifTypeToAccountType (qifType : Str) : AccountType :=
  let key := toLowerCase (trim qifType)
  if key = "bank".toList then .bank
  else if key = "cash".toList then .cash
  else if key = "ccard".toList then .credit
  else if key = "oth a".toList then .asset
  else if key = "oth l".toList then .liability
  else .asset

/-- Trimmed, in lower case, white space collapsed. -/
def norm (s : Str) : Str := Imports.collapseSpaces (toLowerCase (trim s))

def dupKey (accountGuid date : Str) (amount : ℚ) (description : Str) : Str × Str × ℚ × Str :=
  (accountGuid, date, round2 amount, norm toLowerCase description)

/-- The names in order, joined, with the date and the size of the amount. -/
def transferPairKey (nameA nameB date : Str) (amount : ℚ) : Str × Str × ℚ :=
  let a := norm toLowerCase nameA
  let b := norm toLowerCase nameB
  let (lo, hi) := if a ≤ b then (a, b) else (b, a)
  (lo ++ '|' :: hi, date, |round2 amount|)

/-! ## Accounts of the book -/

section Targets

variable (parsed : QifParseResult) (options : QifPlanOptions) (context : QifPlanContext)

def bookAccounts : List ExistingAccountInfo :=
  context.accounts.filter fun a => a.guid ∈ context.bookAccountGuids ∧ a.accountType ≠ .root

def byGuid (guid : Str) : Option ExistingAccountInfo :=
  ((bookAccounts context).filter fun a => a.guid = guid).getLast?

/-- The accounts, without those whose normalized path an earlier one has. -/
def byFullnameValues : List ExistingAccountInfo :=
  (bookAccounts context).foldl (fun seen a =>
    if seen.any fun b => norm toLowerCase b.fullname = norm toLowerCase a.fullname then seen
    else seen ++ [a]) []

def byFullname (name : Str) : Option ExistingAccountInfo :=
  (bookAccounts context).find? fun a => norm toLowerCase a.fullname = norm toLowerCase name

def anchorGuid : Str :=
  ((truthy options.newAccountParentGuid).filter fun g => g ∈ context.bookAccountGuids).getD
    context.bookRootGuid

def anchorPrefix : Str :=
  if anchorGuid options context = context.bookRootGuid then []
  else
    match byGuid context (anchorGuid options context) with
    | some a => a.fullname ++ [':']
    | none => []

def planCreate (key path anchor : Str) (accountType : AccountType) (reason : CreateReason) :
    Resolve PlannedAccountRef := do
  let displayPath :=
    (if anchor = context.bookRootGuid then [] else anchorPrefix options context) ++ path
  modify fun t =>
    if t.accountsToCreate.any fun c => c.key = key then t
    else
      { t with
        accountsToCreate :=
          t.accountsToCreate ++ [⟨key, path, anchor, displayPath, accountType, reason⟩] }
  return .new key

def pickByLeaf (name : Str) (preferredType : AccountType) (allowedTypes : Option (List AccountType)) :
    Option ExistingAccountInfo :=
  let candidates := (bookAccounts context).filter fun a =>
    norm toLowerCase a.name = norm toLowerCase name ∧ allowedTypes.all fun ts => a.accountType ∈ ts
  let nonPlaceholder := candidates.filter fun a => !a.placeholder
  let pool := if nonPlaceholder.isEmpty then candidates else nonPlaceholder
  (pool.find? fun a => a.accountType = preferredType) <|> pool.head?

/-- The account that a mapping names, or a warning when it is outside the book. -/
def mappedAccount (override : Option Str) (warning : PlanWarning) :
    Resolve (Option ExistingAccountInfo) := do
  match truthy override with
  | none => return none
  | some guid =>
    match (byGuid context guid).filter fun _ => guid ∈ context.bookAccountGuids with
    | some a => return some a
    | none => do
        warn warning
        return none

/-- The account of the book that an account of the file is matched with. -/
def matchAccount (qifAccount : QifAccountRecord) : Option ExistingAccountInfo :=
  if qifAccount.name = [] then none
  else
    ((byFullname toLowerCase context qifAccount.name).filter fun a => !a.placeholder) <|>
      pickByLeaf toLowerCase context qifAccount.name
        (qifTypeToAccountType toLowerCase qifAccount.type) (some TARGET_ACCOUNT_TYPES)

def resolveQifAccount (qifAccount : QifAccountRecord) : Resolve Unit := do
  let gnucashType := qifTypeToAccountType toLowerCase qifAccount.type
  let displayName := orElseStr qifAccount.name "QIF Import".toList
  let mapped ← mappedAccount context (options.accountMappings qifAccount.name)
    (.accountMappingOutsideBook displayName)
  let (ref, path) ← match mapped with
    | some a => pure (PlannedAccountRef.existing a.guid, a.fullname)
    | none =>
      match matchAccount toLowerCase context qifAccount with
      | some a => do
          if a.placeholder then warn (.matchedPlaceholder displayName a.fullname)
          pure (PlannedAccountRef.existing a.guid, a.fullname)
      | none => do
          let key := "acct:".toList ++ norm toLowerCase displayName
          let ref ← planCreate options context key displayName (anchorGuid options context)
            gnucashType .account
          let t ← get
          let path := (t.accountsToCreate.find? fun c => c.key = key).elim [] (·.displayPath)
          pure (ref, path)
  modify fun t =>
    { t with
      accountRefByQifName := (norm toLowerCase qifAccount.name, ref) :: t.accountRefByQifName
      accountMappings := t.accountMappings ++
        [⟨qifAccount.name, qifAccount.type, ref, path, qifAccount.transactions.length⟩] }

/-! ## Categories and transfers -/

def categoryIncomeHint (category : Str) : Option Bool :=
  ((parsed.categories.filter fun c =>
    norm toLowerCase c.name = norm toLowerCase category).getLast?).map (·.isIncome)

def matchCategory (category : Str) (isIncome : Bool) : Option ExistingAccountInfo :=
  let typeWanted : AccountType := if isIncome then .income else .expense
  match byFullname toLowerCase context category with
  | some exact =>
    if exact.placeholder then none else some exact
  | none =>
    let target := ':' :: norm toLowerCase category
    let suffixMatches := (byFullnameValues toLowerCase context).filter fun a =>
      target <:+ norm toLowerCase a.fullname ∧ a.placeholder = false
    let suffix :=
      (suffixMatches.find? fun a => a.accountType = typeWanted) <|>
        suffixMatches.find? fun a => a.accountType = .income ∨ a.accountType = .expense
    suffix <|>
      if ':' ∈ category then none
      else pickByLeaf toLowerCase context category typeWanted (some [.income, .expense])

def resolveCategory (category : Str) (positive : Bool) : Resolve PlannedAccountRef := do
  let isIncome := (categoryIncomeHint toLowerCase parsed category).getD positive
  let cacheKey := (if isIncome then "I:".toList else "E:".toList) ++ norm toLowerCase category
  match ← (fun t => t.categoryRefCache.lookup cacheKey) <$> get with
  | some cached => do
      modify fun t =>
        { t with
          categoryUse := t.categoryUse.map fun (key, use) =>
            if key = cacheKey then (key, { use with uses := use.uses + 1 }) else (key, use) }
      return cached
  | none => do
      let mapped ← mappedAccount context (options.categoryMappings category)
        (.categoryMappingOutsideBook category)
      let (ref, path) ← match mapped <|> matchCategory toLowerCase context category isIncome with
        | some a => pure (PlannedAccountRef.existing a.guid, a.fullname)
        | none => do
            let fullPath := (if isIncome then "Income:".toList else "Expenses:".toList) ++ category
            let ref ← planCreate options context ("cat:".toList ++ cacheKey) fullPath
              context.bookRootGuid (if isIncome then .income else .expense) .category
            pure (ref, fullPath)
      modify fun t =>
        { t with
          categoryRefCache := t.categoryRefCache ++ [(cacheKey, ref)]
          categoryUse := t.categoryUse ++ [(cacheKey, ⟨category, ref, path, 1⟩)] }
      return ref

def resolveOpeningBalances : Resolve PlannedAccountRef :=
  let name := "Equity:Opening Balances".toList
  match byFullname toLowerCase context name <|>
      pickByLeaf toLowerCase context "Opening Balances".toList .equity (some [.equity]) with
  | some a => pure (.existing a.guid)
  | none =>
    planCreate options context "equity:opening".toList name context.bookRootGuid .equity .equity

def resolveImbalance : Resolve PlannedAccountRef :=
  let names :=
    match truthy options.currencyMnemonic with
    | some mnemonic => ["Imbalance-".toList ++ mnemonic, "Imbalance".toList]
    | none => ["Imbalance".toList]
  let found := names.findSome? fun name =>
    byFullname toLowerCase context name <|> pickByLeaf toLowerCase context name .bank none
  match found with
  | some a => pure (.existing a.guid)
  | none =>
    planCreate options context "imbalance".toList (names.headD []) context.bookRootGuid .bank
      .imbalance

def resolveTransfer (targetName sourceQifName : Str) : Resolve PlannedAccountRef := do
  if norm toLowerCase targetName = norm toLowerCase sourceQifName then
    resolveOpeningBalances toLowerCase options context
  else
    let t ← get
    match t.accountRefByQifName.lookup (norm toLowerCase targetName) with
    | some inFile => return inFile
    | none =>
      match byFullname toLowerCase context targetName <|>
          pickByLeaf toLowerCase context targetName .bank none with
      | some a => return .existing a.guid
      | none => do
          warn (.transferTargetNotFound targetName)
          planCreate options context ("xfer:".toList ++ norm toLowerCase targetName) targetName
            (anchorGuid options context) .asset .transfer

/-! ## Transactions -/

/-- A counterpart that awaits its mirror entry, by its place in the plan. -/
structure PendingMirror where
  key : Str × Str × ℚ
  sourceNorm : Str
  transaction : ℕ
  split : ℕ

structure PlanState where
  targets : Targets
  /-- The keys of existing transactions that no entry has repeated yet. -/
  existingKeys : List (Str × Str × ℚ × Str)
  transactions : List PlannedTransaction
  skippedDuplicates : List SkippedDuplicate
  transferPairsDeduped : ℕ
  pendingMirrors : List PendingMirror

/-- The counterparts that are planned for a transaction so far. -/
structure Counterparts where
  splits : List PlannedSplit
  targets : Targets
  pendingMirrors : List PendingMirror

def qifAccountNames : List Str :=
  (parsed.accounts.map fun a => norm toLowerCase a.name).filter fun n => n ≠ []

def isInFileTransfer (txn : QifTransactionRecord) (sourceName : Str) : Bool :=
  txn.splits.isEmpty && txn.transfer.any fun transfer =>
    norm toLowerCase transfer ≠ norm toLowerCase sourceName &&
      decide (norm toLowerCase transfer ∈ qifAccountNames toLowerCase parsed)

def planCounterpart (qifAccount : QifAccountRecord) (date : Str) (transaction : ℕ)
    (c : Counterparts) (s : QifSplitRecord) : Counterparts :=
  let split := fun ref => PlannedSplit.mk ref s.memo (round2 (-s.amount)) .n
  match truthy s.transfer, truthy s.category with
  | some transfer, _ =>
    let resolved :=
      (resolveTransfer toLowerCase options context transfer qifAccount.name).run c.targets
    let mirrors :=
      if norm toLowerCase transfer ≠ norm toLowerCase qifAccount.name ∧
          norm toLowerCase transfer ∈ qifAccountNames toLowerCase parsed then
        -- the counterparts stand behind the split of the source account
        [⟨transferPairKey toLowerCase qifAccount.name transfer date s.amount,
          norm toLowerCase qifAccount.name, transaction, c.splits.length + 1⟩]
      else []
    ⟨c.splits ++ [split resolved.1], resolved.2, c.pendingMirrors ++ mirrors⟩
  | none, some category =>
    let resolved :=
      (resolveCategory toLowerCase parsed options context category (0 < s.amount)).run c.targets
    ⟨c.splits ++ [split resolved.1], resolved.2, c.pendingMirrors⟩
  | none, none =>
    let resolved := (resolveImbalance toLowerCase options context).run c.targets
    ⟨c.splits ++ [split resolved.1], resolved.2, c.pendingMirrors⟩

/-- What the counterparts lack of the transaction's amount, posted to the imbalance account. -/
def repairImbalance (description : Str) (txn : QifTransactionRecord) (c : Counterparts) :
    Counterparts :=
  let gap := round2 (-txn.amount - (c.splits.map PlannedSplit.amount).sum)
  if 5 / 1000 < |gap| then
    let resolved := (do
      let ref ← resolveImbalance toLowerCase options context
      warn (.splitImbalance description txn.date gap)
      return ref).run c.targets
    ⟨c.splits ++ [⟨resolved.1, "QIF split imbalance".toList, gap, .n⟩], resolved.2,
      c.pendingMirrors⟩
  else c

def singleCounterpart (qifAccount : QifAccountRecord) (transaction : ℕ)
    (txn : QifTransactionRecord) (c : Counterparts) : Counterparts :=
  let resolved :=
    (match truthy txn.transfer, truthy txn.category with
      | some transfer, _ => resolveTransfer toLowerCase options context transfer qifAccount.name
      | none, some category =>
        resolveCategory toLowerCase parsed options context category (0 < txn.amount)
      | none, none => resolveImbalance toLowerCase options context).run c.targets
  let mirrors :=
    if isInFileTransfer toLowerCase parsed txn qifAccount.name then
      [⟨transferPairKey toLowerCase qifAccount.name (txn.transfer.getD []) txn.date txn.amount,
        norm toLowerCase qifAccount.name, transaction, c.splits.length + 1⟩]
    else []
  ⟨c.splits ++ [⟨resolved.1, [], round2 (-txn.amount), .n⟩], resolved.2,
    c.pendingMirrors ++ mirrors⟩

def counterparts (qifAccount : QifAccountRecord) (description : Str) (st : PlanState)
    (txn : QifTransactionRecord) : Counterparts :=
  let start : Counterparts := ⟨[], st.targets, st.pendingMirrors⟩
  let transaction := st.transactions.length
  if txn.splits.isEmpty then
    singleCounterpart toLowerCase parsed options context qifAccount transaction txn start
  else
    repairImbalance toLowerCase options context description txn
      (txn.splits.foldl
        (planCounterpart toLowerCase parsed options context qifAccount txn.date transaction) start)

/-- The pending mirror of an entry, registered by another account. -/
def takeMirror (mirrors : List PendingMirror) (key : Str × Str × ℚ) (accountName : Str) :
    Option PendingMirror :=
  mirrors.find? fun m => m.key = key ∧ m.sourceNorm ≠ norm toLowerCase accountName

/-- The mirror entry gives its cleared flag, and its memo where there is none. -/
def PlannedSplit.mirrored (txn : QifTransactionRecord) (s : PlannedSplit) : PlannedSplit :=
  { s with reconcile := txn.cleared, memo := orElseStr s.memo txn.memo }

def planTransaction (qifAccount : QifAccountRecord) (sourceRef : PlannedAccountRef)
    (st : PlanState) (txn : QifTransactionRecord) : PlanState :=
  let sourceLabel := orElseStr qifAccount.name "QIF Import".toList
  let description := orElseStr (orElseStr txn.payee txn.memo) "QIF import".toList
  let key := match sourceRef with
    | .existing guid => some (dupKey toLowerCase guid txn.date txn.amount description)
    | .new _ => none
  match key.filter fun k => k ∈ st.existingKeys with
  | some key =>
    { st with
      existingKeys := st.existingKeys.erase key
      skippedDuplicates := st.skippedDuplicates ++
        [⟨sourceLabel, txn.date, txn.amount, description⟩] }
  | none =>
  let mirror :=
    if isInFileTransfer toLowerCase parsed txn qifAccount.name then
      takeMirror toLowerCase st.pendingMirrors
        (transferPairKey toLowerCase qifAccount.name (txn.transfer.getD []) txn.date txn.amount)
        qifAccount.name
    else none
  match mirror with
  | some m =>
    { st with
      transactions := st.transactions.modify m.transaction fun t =>
        { t with splits := t.splits.modify m.split (PlannedSplit.mirrored txn) }
      pendingMirrors := st.pendingMirrors.eraseP fun p =>
        p.transaction = m.transaction ∧ p.split = m.split
      transferPairsDeduped := st.transferPairsDeduped + 1 }
  | none =>
    let c := counterparts toLowerCase parsed options context qifAccount description st txn
    { st with
      targets := c.targets
      pendingMirrors := c.pendingMirrors
      transactions := st.transactions ++
        [⟨txn.date, description, txn.num,
          ⟨sourceRef, txn.memo, round2 txn.amount, txn.cleared⟩ :: c.splits, sourceLabel⟩] }

/-- The transactions of one account; its target has been resolved before. -/
def planAccount (st : PlanState) (qifAccount : QifAccountRecord) : PlanState :=
  match st.targets.accountRefByQifName.lookup (norm toLowerCase qifAccount.name) with
  | none => st
  | some sourceRef =>
    qifAccount.transactions.foldl
      (planTransaction toLowerCase parsed options context qifAccount sourceRef) st

def Targets.initial : Targets :=
  let warnings := match truthy options.newAccountParentGuid with
    | some guid => if guid ∈ context.bookAccountGuids then [] else [.parentOutsideBook]
    | none => []
  ⟨[], [], [], [], [], warnings⟩

def planQifImport : QifImportPlan :=
  let targets := (parsed.accounts.forM
    (resolveQifAccount toLowerCase options context)).run (Targets.initial options context) |>.2
  let existingKeys := context.existingTransactions.map fun t =>
    dupKey toLowerCase t.accountGuid t.date t.amount t.description
  let st := parsed.accounts.foldl (planAccount toLowerCase parsed options context)
    ⟨targets, existingKeys, [], [], 0, []⟩
  { bookGuid := context.bookGuid
    bookRootGuid := context.bookRootGuid
    currencyGuid := options.currencyGuid
    accountsToCreate := st.targets.accountsToCreate
    transactions := st.transactions
    skippedDuplicates := st.skippedDuplicates
    transferPairsDeduped := st.transferPairsDeduped
    accountMappings := st.targets.accountMappings
    categoryMappings := st.targets.categoryUse.map Prod.snd
    warnings := st.targets.warnings }

end Targets

end Planner

/-! ## Rows -/

/-- A split row; the reconcile date is the post date. -/
structure SplitRow where
  accountGuid : Str
  memo : Str
  reconcileState : ReconcileState
  reconcileDate : Option Str
  value : Amount
  quantity : Amount

structure TransactionRow where
  currencyGuid : Str
  num : Str
  postDate : Str
  description : Str
  splits : List SplitRow

/-- The account that a reference stands for, once the planned accounts have been created. -/
def resolveRef (newAccountGuids : Str → Option Str) : PlannedAccountRef → Option Str
  | .existing guid => some guid
  | .new key => newAccountGuids key

def splitRow (newAccountGuids : Str → Option Str) (date : Str) (split : PlannedSplit) :
    Option SplitRow :=
  (resolveRef newAccountGuids split.account).map fun guid =>
    { accountGuid := guid
      memo := split.memo
      reconcileState := split.reconcile
      reconcileDate := if split.reconcile = .y then some date else none
      value := fromDecimal split.amount 100
      quantity := fromDecimal split.amount 100 }

/-- The rows of a plan; none when a reference is unknown. -/
def executeQifImport (newAccountGuids : Str → Option Str) (plan : QifImportPlan) :
    Option (List TransactionRow) :=
  plan.transactions.mapM fun txn =>
    (txn.splits.mapM (splitRow newAccountGuids txn.date)).map fun splits =>
      ⟨plan.currencyGuid, txn.num, txn.date, txn.description, splits⟩

end Qif
