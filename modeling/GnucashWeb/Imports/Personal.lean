import GnucashWeb.Imports.QboJournal
import GnucashWeb.Ledger.Book

/-!
# Personal finance exports

The Mint, YNAB and Monarch parsers, and the plan that gives each record a source account, a category
and two splits unless it repeats an existing transaction.  The resolution rows and the warnings of the
preview are left out.  The splits of a planned transaction are an amount in cents and its opposite
(`amounts_plannedTransaction`).
-/

namespace Imports

open Ledger (AccountType WholeCents round2 round2_of_wholeCents wholeCents_round2)

/-! ## Records -/

inductive PersonalSource
  | mint
  | ynab
  | monarch
deriving DecidableEq

structure PersonalRecord where
  date : ℤ
  description : Cell
  memo : Cell
  /-- Positive into the account. -/
  amount : ℚ
  category : Cell
  account : Cell
  row : ℕ

inductive PersonalMessage
  | headerNotFound (source : PersonalSource)
  | unrecognizedDate (text : Cell)
  | unparseableAmount (text : Cell)
  | unparseableOutflow (text : Cell)
  | unparseableInflow (text : Cell)
  | unknownType (text : Cell)

structure PersonalParseError where
  row : ℕ
  message : PersonalMessage

structure PersonalParseResult where
  records : List PersonalRecord
  errors : List PersonalParseError

def joinMemo (parts : List Cell) : Cell := List.intercalate " | ".toList (parts.filter fun p => p ≠ [])

/-- A part with a label, blank if there is nothing to label. -/
def labelled (label : String) (text : Cell) : Cell := if text = [] then [] else label.toList ++ text

def firstText (texts : List Cell) (default : String) : Cell :=
  (texts.find? fun t => t ≠ []).getD default.toList

abbrev PersonalReader := ℕ → List Cell → PersonalMessage ⊕ PersonalRecord

section Parsers

variable (toLowerCase : List Char → List Char) (locale : ImportLocale) (cols : String → Option ℕ)

def MINT_COLUMNS : List ColumnSpec :=
  [⟨"date", ["date"], true⟩, ⟨"description", ["description"], true⟩,
    ⟨"originalDescription", ["original description"], false⟩, ⟨"amount", ["amount"], true⟩,
    ⟨"type", ["transaction type", "type"], true⟩, ⟨"category", ["category"], false⟩,
    ⟨"account", ["account name", "account"], false⟩, ⟨"labels", ["labels"], false⟩,
    ⟨"notes", ["notes"], false⟩]

/-- The amount with the sign of the transaction type; none for an unknown type. -/
def mintAmount (type : Cell) (parsed : ℚ) : Option ℚ :=
  if type = "debit".toList then some (-|parsed|)
  else if type = "credit".toList then some |parsed|
  else if type = [] then some parsed
  else none

def mintRow : PersonalReader := fun rowNum row =>
  let text := fun key => cellAt row (cols key)
  match parseLocaleDate (text "date") locale.dayFirst with
  | none => .inl (.unrecognizedDate (text "date"))
  | some date =>
  match parseLocaleNumber (text "amount") locale.decimal with
  | none => .inl (.unparseableAmount (text "amount"))
  | some parsed =>
  match mintAmount (toLowerCase (Text.trim (text "type"))) parsed with
  | none => .inl (.unknownType (text "type"))
  | some amount =>
    let original := text "originalDescription"
    .inr
      { date := date
        description := firstText [text "description", original] "Mint import"
        memo := joinMemo [if original = text "description" then [] else original, text "notes",
          labelled "Labels: " (text "labels")]
        amount := amount
        category := text "category"
        account := text "account"
        row := rowNum }

def YNAB_COLUMNS : List ColumnSpec :=
  [⟨"account", ["account"], true⟩, ⟨"flag", ["flag"], false⟩, ⟨"date", ["date"], true⟩,
    ⟨"payee", ["payee"], true⟩, ⟨"categoryCombined", ["category group/category"], false⟩,
    ⟨"categoryGroup", ["category group"], false⟩, ⟨"category", ["category"], false⟩,
    ⟨"memo", ["memo"], false⟩, ⟨"outflow", ["outflow"], true⟩, ⟨"inflow", ["inflow"], true⟩]

/-- The combined category, else the group and the category joined. -/
def ynabCategory (combined group category : Cell) : Cell :=
  if combined ≠ [] then combined
  else if group ≠ [] ∧ category ≠ [] then group ++ ": ".toList ++ category
  else if category ≠ [] then category else group

def ynabRow : PersonalReader := fun rowNum row =>
  let text := fun key => cellAt row (cols key)
  match parseLocaleDate (text "date") locale.dayFirst with
  | none => .inl (.unrecognizedDate (text "date"))
  | some date =>
  match parseLocaleNumber (text "outflow") locale.decimal,
    parseLocaleNumber (text "inflow") locale.decimal with
  | some outflow, some inflow =>
    .inr
      { date := date
        description := firstText [text "payee", text "memo"] "YNAB import"
        memo := joinMemo [text "memo", labelled "Flag: " (text "flag")]
        amount := round2 (inflow - |outflow|)
        category := ynabCategory (text "categoryCombined") (text "categoryGroup")
          (text "category")
        account := text "account"
        row := rowNum }
  | none, _ => .inl (.unparseableOutflow (text "outflow"))
  | some _, none => .inl (.unparseableInflow (text "inflow"))

def MONARCH_COLUMNS : List ColumnSpec :=
  [⟨"date", ["date"], true⟩, ⟨"merchant", ["merchant", "description"], true⟩,
    ⟨"category", ["category"], false⟩, ⟨"account", ["account", "account name"], true⟩,
    ⟨"originalStatement", ["original statement"], false⟩, ⟨"notes", ["notes"], false⟩,
    ⟨"amount", ["amount"], true⟩, ⟨"tags", ["tags"], false⟩]

def monarchRow : PersonalReader := fun rowNum row =>
  let text := fun key => cellAt row (cols key)
  match parseLocaleDate (text "date") locale.dayFirst with
  | none => .inl (.unrecognizedDate (text "date"))
  | some date =>
  match parseLocaleNumber (text "amount") locale.decimal with
  | none => .inl (.unparseableAmount (text "amount"))
  | some amount =>
    let original := text "originalStatement"
    .inr
      { date := date
        description := firstText [text "merchant", original] "Monarch import"
        memo := joinMemo [if original = text "merchant" then [] else original, text "notes",
          labelled "Tags: " (text "tags")]
        amount := amount
        category := text "category"
        account := text "account"
        row := rowNum }

def PersonalSource.columns : PersonalSource → List ColumnSpec
  | .mint => MINT_COLUMNS
  | .ynab => YNAB_COLUMNS
  | .monarch => MONARCH_COLUMNS

def PersonalSource.reader : PersonalSource → PersonalReader
  | .mint => mintRow toLowerCase locale cols
  | .ynab => ynabRow locale cols
  | .monarch => monarchRow locale cols

end Parsers

def parsePersonalCsv (toLowerCase : List Char → List Char) (source : PersonalSource)
    (content : List Char) (locale : ImportLocale) : PersonalParseResult :=
  let rows := splitCsvRows content
  match detectHeaderRow toLowerCase rows source.columns with
  | none => ⟨[], [⟨1, .headerNotFound source⟩]⟩
  | some (headerIdx, cols) =>
    let results := (dataRows rows headerIdx).map fun (rowNum, row) =>
      (rowNum, source.reader toLowerCase locale cols rowNum row)
    { records := results.filterMap fun result => result.2.getRight?
      errors := results.filterMap fun result =>
        result.2.getLeft?.map fun message => ⟨result.1, message⟩ }

/-! ## Targets -/

structure BookAccount where
  guid : Cell
  name : Cell
  /-- Its colon path under the root of the book. -/
  fullname : Cell
  accountType : AccountType
  placeholder : Bool

inductive PlannedAccountRef
  | existing (guid : Cell)
  | new (key : Cell)
deriving DecidableEq

structure PlannedAccountCreate where
  key : Cell
  path : Cell
  accountType : AccountType

def SOURCE_TARGET_TYPES : List AccountType := [.bank, .cash, .credit, .asset, .liability]

def CATEGORY_TARGET_TYPES : List AccountType := [.income, .expense]

def UNCATEGORIZED : Cell := "Uncategorized".toList

def categoryLabel (category : Cell) : Cell :=
  if Text.trim category = [] then UNCATEGORIZED else Text.trim category

/-- `new`, `new:BANK` or `new:CREDIT`, with the type it names. -/
def newMapping? (mapping : Cell) : Option (Option AccountType) :=
  if mapping = "new".toList then some none
  else if mapping = "new:BANK".toList then some (some .bank)
  else if mapping = "new:CREDIT".toList then some (some .credit)
  else none

/-- The first candidate of a preferred type, a placeholder only where there is nothing else. -/
def pickPreferred (candidates : List BookAccount) (preferred : List AccountType) :
    Option BookAccount :=
  let nonPlaceholder := candidates.filter fun a => !a.placeholder
  let pool := if nonPlaceholder = [] then candidates else nonPlaceholder
  (preferred.findSome? fun t => pool.find? fun a => a.accountType = t) <|> pool.head?

def tightColons (path : Cell) : Cell := List.intercalate [':'] ((Text.split ':' path).map Text.trim)

section Targets

variable (toLowerCase : List Char → List Char)

def norm (s : Cell) : Cell := normHeader toLowerCase s

/-- Either name contains the other, the shorter one at least half of the longer. -/
def containsEitherWay (leaf target : Cell) : Bool :=
  let (short, long) := if leaf.length ≤ target.length then (leaf, target) else (target, leaf)
  short <:+: long && long.length ≤ 2 * short.length

def suggestSourceAccount (sourceName : Cell) (accounts : List BookAccount) : Option BookAccount :=
  let target := norm toLowerCase sourceName
  let preferred : List AccountType := [.bank, .credit, .cash]
  if target = [] then none
  else
    let eligible := accounts.filter fun a => a.accountType ∈ SOURCE_TARGET_TYPES
    let exactFull := eligible.filter fun a => norm toLowerCase a.fullname = target
    if exactFull ≠ [] then pickPreferred exactFull preferred
    else
      let exactLeaf := eligible.filter fun a => norm toLowerCase a.name = target
      if exactLeaf ≠ [] then pickPreferred exactLeaf preferred
      else if 4 ≤ target.length then
        match eligible.filter fun a => 4 ≤ (norm toLowerCase a.name).length ∧
            containsEitherWay (norm toLowerCase a.name) target with
        | [only] => some only
        | _ => none
      else none

def suggestCategoryAccount (category : Cell) (accounts : List BookAccount) (preferIncome : Bool) :
    Option BookAccount :=
  let path := fun s => norm toLowerCase (tightColons s)
  let target := path (categoryLabel category)
  let preferred : List AccountType := if preferIncome then [.income, .expense] else [.expense, .income]
  if target = [] then none
  else
    let eligible := accounts.filter fun a => a.accountType ∈ CATEGORY_TARGET_TYPES
    let exactFull := eligible.filter fun a => path a.fullname = target
    if exactFull ≠ [] then pickPreferred exactFull preferred
    else
      let suffix := eligible.filter fun a => (':' :: target) <:+ path a.fullname
      if suffix ≠ [] then pickPreferred suffix preferred
      else
        let leafTarget := ((Text.split ':' target).getLast?).getD []
        let exactLeaf := eligible.filter fun a => norm toLowerCase a.name = leafTarget
        if exactLeaf ≠ [] then pickPreferred exactLeaf preferred else none

def defaultSourceAccountType (sourceName : Cell) : AccountType :=
  let cardWords :=
    ["credit", "card", "visa", "mastercard", "amex", "american express", "discover"]
  if cardWords.any fun w => w.toList <:+: norm toLowerCase sourceName then .credit else .bank

def defaultCategoryPath (category : Cell) (majorityInflow : Bool) : Cell × AccountType :=
  let segments := pathSegments (categoryLabel category)
  let tail := if segments = [] then UNCATEGORIZED else List.intercalate [':'] segments
  if majorityInflow then ("Income:Imported:".toList ++ tail, .income)
  else ("Expenses:Imported:".toList ++ tail, .expense)

structure PersonalPlanOptions where
  accountMappings : Cell → Option Cell
  categoryMappings : Cell → Option Cell
  skipDuplicates : Bool

variable (accounts : List BookAccount) (options : PersonalPlanOptions)

/-- The account of a book that a mapping names, if it is of an accepted type. -/
def mappedAccount? (types : List AccountType) (mapping : Cell) : Option BookAccount :=
  (accounts.find? fun a => a.guid = mapping).filter fun a => a.accountType ∈ types

/-- The target of a source account and the account to create for it. -/
def resolveSource (name : Cell) : PlannedAccountRef × Option PlannedAccountCreate :=
  let create := fun type =>
    let key := "src:".toList ++ norm toLowerCase name
    (PlannedAccountRef.new key, some ⟨key, name, type⟩)
  let suggest :=
    match suggestSourceAccount toLowerCase name accounts with
    | some a => (PlannedAccountRef.existing a.guid, none)
    | none => create (defaultSourceAccountType toLowerCase name)
  match (options.accountMappings name).filter fun m => m ≠ [] with
  | none => suggest
  | some mapping =>
  match newMapping? mapping with
  | some type => create (type.getD (defaultSourceAccountType toLowerCase name))
  | none =>
  match mappedAccount? accounts SOURCE_TARGET_TYPES mapping with
  | some a => (.existing a.guid, none)
  | none => suggest

/-- The target of a category, given whether most of its records are inflows. -/
def resolveCategory (label : Cell) (majorityInflow : Bool) :
    PlannedAccountRef × Option PlannedAccountCreate :=
  let created :=
    let key := "cat:".toList ++ norm toLowerCase label
    let path := defaultCategoryPath label majorityInflow
    (PlannedAccountRef.new key, some ⟨key, path.1, path.2⟩)
  let suggest :=
    match suggestCategoryAccount toLowerCase label accounts majorityInflow with
    | some a => (PlannedAccountRef.existing a.guid, none)
    | none => created
  match (options.categoryMappings label).filter fun m => m ≠ [] with
  | none => suggest
  | some mapping =>
    if (newMapping? mapping).isSome then created
    else
      match mappedAccount? accounts CATEGORY_TARGET_TYPES mapping with
      | some a => (.existing a.guid, none)
      | none => suggest

def PersonalRecord.accountName (r : PersonalRecord) : Cell :=
  if Text.trim r.account = [] then "(no account)".toList else Text.trim r.account

def majorityInflow (records : List PersonalRecord) (label : Cell) : Bool :=
  let recs := records.filter fun r => categoryLabel r.category = label
  recs.length < 2 * (recs.filter fun r => 0 < r.amount).length

/-- Lower case, what is no letter or digit a space, spaces collapsed. -/
def normalizeDescription (s : Cell) : Cell :=
  collapseSpaces (Text.trim ((toLowerCase s).map fun c =>
    if c.isDigit ∨ ('a' ≤ c ∧ c ≤ 'z') then c else ' '))

/-- Equal once normalized, or one contains the other, which has at least four characters. -/
def isSimilarDescription (a b : Cell) : Bool :=
  let na := normalizeDescription toLowerCase a
  let nb := normalizeDescription toLowerCase b
  let (short, long) := if na.length ≤ nb.length then (na, nb) else (nb, na)
  na = nb || (4 ≤ short.length && short <:+: long)

structure ExistingTransactionKey where
  accountGuid : Cell
  date : ℤ
  amount : ℚ
  description : Cell
deriving DecidableEq

/-- An existing transaction that a record repeats. -/
def isMatch (r : PersonalRecord) (targetGuid : Cell) (t : ExistingTransactionKey) : Bool :=
  t.accountGuid = targetGuid && t.date = r.date && round2 t.amount = round2 r.amount &&
    isSimilarDescription toLowerCase t.description r.description

/-! ## Plan -/

structure PlannedPersonalTransaction where
  date : ℤ
  description : Cell
  sourceAccount : Cell
  category : Cell
  row : ℕ
  splits : List (PlannedAccountRef × Cell × ℚ)

structure PersonalImportPlan where
  accountsToCreate : List PlannedAccountCreate
  transactions : List PlannedPersonalTransaction
  duplicates : List PersonalRecord

def sourceRef (r : PersonalRecord) : PlannedAccountRef :=
  (resolveSource toLowerCase accounts options r.accountName).1

/-- The target of a record's category, among all the records. -/
def categoryRef (records : List PersonalRecord) (r : PersonalRecord) : PlannedAccountRef :=
  let label := categoryLabel r.category
  (resolveCategory toLowerCase accounts options label (majorityInflow records label)).1

def plannedTransaction (records : List PersonalRecord) (r : PersonalRecord) :
    PlannedPersonalTransaction :=
  { date := r.date
    description := r.description
    sourceAccount := r.accountName
    category := categoryLabel r.category
    row := r.row
    splits := [(sourceRef toLowerCase accounts options r, r.memo, round2 r.amount),
      (categoryRef toLowerCase accounts options records r, [], round2 (-r.amount))] }

/-- The existing transactions once a record has used up the first that it repeats; none if it
repeats none. -/
def consume (r : PersonalRecord) (existing : List ExistingTransactionKey) :
    Option (List ExistingTransactionKey) :=
  match sourceRef toLowerCase accounts options r with
  | .new _ => none
  | .existing guid =>
    if existing.any (isMatch toLowerCase r guid) then
      some (existing.eraseP (isMatch toLowerCase r guid))
    else none

/-- The records that are planned and those that are duplicates, in order. -/
def divideRecords : List PersonalRecord → List ExistingTransactionKey →
    List PersonalRecord × List PersonalRecord
  | [], _ => ([], [])
  | r :: rs, existing =>
    match consume toLowerCase accounts options r existing with
    | some rest =>
      let later := divideRecords rs rest
      (if options.skipDuplicates then later.1 else r :: later.1, r :: later.2)
    | none =>
      let later := divideRecords rs existing
      (r :: later.1, later.2)

/-- The accounts to create, one for each key: those of the source accounts, then those of the
categories. -/
def plannedAccounts (records : List PersonalRecord) : List PlannedAccountCreate :=
  let sources := (records.map PersonalRecord.accountName).eraseDups.filterMap fun name =>
    (resolveSource toLowerCase accounts options name).2
  let categories := (records.map fun r => categoryLabel r.category).eraseDups.filterMap fun label =>
    (resolveCategory toLowerCase accounts options label (majorityInflow records label)).2
  (sources ++ categories).eraseDupsBy fun a b => a.key == b.key

def buildPersonalPlan (records : List PersonalRecord) (existing : List ExistingTransactionKey) :
    PersonalImportPlan :=
  let divided := divideRecords toLowerCase accounts options records existing
  { accountsToCreate := plannedAccounts toLowerCase accounts options records
    transactions := divided.1.map (plannedTransaction toLowerCase accounts options records)
    duplicates := divided.2 }

end Targets

/-! ## Planned amounts -/

theorem wholeCents_neg_abs {a : ℚ} (h : WholeCents a) : WholeCents (-|a|) := by
  rcases abs_choice a with habs | habs
  · rw [habs]
    exact h.neg
  · rw [habs, neg_neg]
    exact h

theorem wholeCents_mintAmount {type : Cell} {parsed amount : ℚ} (h : WholeCents parsed)
    (hamount : mintAmount type parsed = some amount) : WholeCents amount := by
  unfold mintAmount at hamount
  split at hamount
  · exact Option.some.inj hamount ▸ wholeCents_neg_abs h
  · split at hamount
    · rw [← Option.some.inj hamount, ← neg_neg |parsed|]
      exact (wholeCents_neg_abs h).neg
    · split at hamount
      · exact Option.some.inj hamount ▸ h
      · exact absurd hamount (by simp)

theorem wholeCents_reader {toLowerCase : List Char → List Char} {locale : ImportLocale}
    {cols : String → Option ℕ} {source : PersonalSource} {rowNum : ℕ} {row : List Cell}
    {r : PersonalRecord} (h : source.reader toLowerCase locale cols rowNum row = .inr r) :
    WholeCents r.amount := by
  cases source with
  | mint =>
    simp only [PersonalSource.reader, mintRow] at h
    split at h
    · exact absurd h (by simp)
    · split at h
      · exact absurd h (by simp)
      · rename_i hparsed
        split at h
        · exact absurd h (by simp)
        · rename_i hamount
          obtain rfl := Sum.inr.inj h
          exact wholeCents_mintAmount (wholeCents_parseLocaleNumber hparsed) hamount
  | ynab =>
    simp only [PersonalSource.reader, ynabRow] at h
    split at h
    · exact absurd h (by simp)
    · split at h
      · obtain rfl := Sum.inr.inj h
        exact wholeCents_round2 _
      · exact absurd h (by simp)
      · exact absurd h (by simp)
  | monarch =>
    simp only [PersonalSource.reader, monarchRow] at h
    split at h
    · exact absurd h (by simp)
    · split at h
      · exact absurd h (by simp)
      · rename_i hamount
        obtain rfl := Sum.inr.inj h
        exact wholeCents_parseLocaleNumber hamount

theorem wholeCents_parsePersonalCsv {toLowerCase : List Char → List Char} {source : PersonalSource}
    {content : List Char} {locale : ImportLocale} {r : PersonalRecord}
    (h : r ∈ (parsePersonalCsv toLowerCase source content locale).records) :
    WholeCents r.amount := by
  unfold parsePersonalCsv at h
  simp only at h
  split at h
  · exact absurd h (by simp)
  · simp only [List.mem_filterMap, List.mem_map] at h
    obtain ⟨_, ⟨⟨rowNum, row⟩, -, rfl⟩, hright⟩ := h
    exact wholeCents_reader (Sum.getRight?_eq_some_iff.1 hright)

theorem mem_divideRecords {toLowerCase : List Char → List Char} {accounts : List BookAccount}
    {options : PersonalPlanOptions} {records : List PersonalRecord}
    {existing : List ExistingTransactionKey} {r : PersonalRecord}
    (h : r ∈ (divideRecords toLowerCase accounts options records existing).1) : r ∈ records := by
  induction records generalizing existing with
  | nil => exact h
  | cons first records ih =>
    unfold divideRecords at h
    cases hconsume : consume toLowerCase accounts options first existing with
    | none =>
      rw [hconsume] at h
      rcases List.mem_cons.1 h with rfl | h
      · exact List.mem_cons_self
      · exact List.mem_cons_of_mem _ (ih h)
    | some rest =>
      rw [hconsume] at h
      simp only at h
      split at h
      · exact List.mem_cons_of_mem _ (ih h)
      · rcases List.mem_cons.1 h with rfl | h
        · exact List.mem_cons_self
        · exact List.mem_cons_of_mem _ (ih h)

theorem amounts_plannedTransaction {toLowerCase : List Char → List Char}
    {accounts : List BookAccount} {options : PersonalPlanOptions} (records : List PersonalRecord)
    {r : PersonalRecord} (h : WholeCents r.amount) :
    (plannedTransaction toLowerCase accounts options records r).splits.map (fun s => s.2.2) =
      [r.amount, -r.amount] := by
  simp [plannedTransaction, round2_of_wholeCents h, round2_of_wholeCents h.neg]

end Imports
