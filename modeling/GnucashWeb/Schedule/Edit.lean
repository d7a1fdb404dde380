import GnucashWeb.Schedule.Execute

/-!
# Editing and deleting schedules

`updateScheduledTransaction` replaces the template and the recurrence of a schedule by those of an
input, `scheduledToInput` makes an input of a schedule, and `deleteScheduledTransaction` deletes a
schedule with its template.  Dates are day numbers.
-/

open Ledger (Amount Account Transaction Split)
open Recurrence

namespace Schedule

/-! ## Rows -/

structure ScheduleDetails where
  startDate : Option ℤ
  autoCreate : ℤ
  autoNotify : ℤ

structure EditDb extends Db where
  details : String → ScheduleDetails
  isPlaceholder : String → Bool

/-! ## Input -/

structure InputSplit where
  accountGuid : String
  amount : ℚ
deriving DecidableEq, Repr

structure CreateScheduledTxInput where
  name : String
  startDate : ℤ
  endDate : Option ℤ
  recurrence : RecurrencePattern
  splits : List InputSplit
  autoCreate : Bool
  autoNotify : Bool
deriving DecidableEq, Repr

structure ScheduledTransaction where
  guid : String
  name : String
  startDate : Option ℤ
  endDate : Option ℤ
  recurrence : Option RecurrencePattern
  splits : List ResolvedSplit
  autoCreate : Bool
  autoNotify : Bool
deriving DecidableEq, Repr

inductive EditError
  | nameEmpty
  | nameTooLong
  | fewSplits
  | endBeforeStart
  | multNotPositive
  | invalidSplitAccount
  | unbalanced (refusal : Refusal)
  | invalidPeriodType
  | outsideBook
  | accountsNotFound (guids : List String)
  | placeholderAccount
  | notFound
  | templateCurrencyNotFound
  | recordNotFound
  | noRecurrence
deriving DecidableEq, Repr

/-- The text of an error, with numbers in the host's notation and the period type that is not known. -/
def EditError.message (numberText : ℚ → String) (periodType : String) : EditError → String
  | .nameEmpty => "Name must be non-empty"
  | .nameTooLong => "Name must be 255 characters or fewer"
  | .fewSplits => "At least 2 splits are required"
  | .endBeforeStart => "End date cannot be before start date"
  | .multNotPositive => "Recurrence multiplier must be a positive integer"
  | .invalidSplitAccount => "Every split must reference a valid account"
  | .unbalanced refusal => refusal.message numberText
  | .invalidPeriodType => "Invalid period type: " ++ periodType
  | .outsideBook => "Every split account must belong to the active book"
  | .accountsNotFound guids => "Account(s) not found: " ++ ", ".intercalate guids
  | .placeholderAccount => "Scheduled transaction splits cannot use placeholder accounts"
  | .notFound => "Scheduled transaction not found"
  | .templateCurrencyNotFound => "Template currency not found"
  | .recordNotFound => "Record to update or delete not found"
  | .noRecurrence => "Scheduled transaction has no recurrence"

def utf16Length (text : String) : ℕ :=
  (text.toList.map fun c => if c.toNat < 0x10000 then 1 else 2).sum

/-- The checks of an input; the scope is the accounts of the book, where one is given. -/
def validateScheduledTransactionInput (s : EditDb) (scope : Option (List String))
    (input : CreateScheduledTxInput) : Option EditError :=
  if Text.trim input.name.toList = [] then some .nameEmpty
  else if 255 < utf16Length input.name then some .nameTooLong
  else if input.splits.length < 2 then some .fewSplits
  else if input.endDate.any (· < input.startDate) then some .endBeforeStart
  else if input.recurrence.mult < 1 then some .multNotPositive
  else if input.splits.any fun split => Text.trim split.accountGuid.toList = [] then
    some .invalidSplitAccount
  else
    match balanceSplitNumerators (input.splits.map InputSplit.amount) postingDenom with
    | .error refusal => some (.unbalanced refusal)
    | .ok _ =>
      if input.recurrence.periodType = .unknown then some .invalidPeriodType
      else
        let accountGuids := (input.splits.map InputSplit.accountGuid).eraseDups
        let missing := accountGuids.filter (· ∉ s.accounts.map Account.guid)
        if scope.any fun guids => accountGuids.any (· ∉ guids) then some .outsideBook
        else if missing ≠ [] then some (.accountsNotFound missing)
        else if accountGuids.any s.isPlaceholder then some .placeholderAccount
        else none

/-- The accounts below the template account of a schedule. -/
def childRows (db : Db) (sx : SchedXAction) : List Account :=
  db.accounts.filter fun a => a.parentGuid = some sx.templateActGuid

def childGuids (db : Db) (sx : SchedXAction) : List String := (childRows db sx).map Account.guid

def transactionGuids (db : Db) (sx : SchedXAction) : List String :=
  (db.splits.filter fun s => s.accountGuid ∈ childGuids db sx).map Split.txGuid

/-- Both the editor and the deletion delete what is below the template account. -/
def deleteTemplateContents (db : Db) (sx : SchedXAction) : Db :=
  { db with
    splits := db.splits.filter fun s => s.accountGuid ∉ childGuids db sx
    slots := db.slots.filter fun r =>
      r.objGuid ∉ childGuids db sx ∧ r.objGuid ∉ transactionGuids db sx
    accounts := db.accounts.filter fun a => a.guid ∉ childGuids db sx
    transactions := db.transactions.filter fun t => t.guid ∉ transactionGuids db sx }

/-- The app layout of a template: a child account, an `account` slot and a split for each input
split. -/
def createTemplateContents (host : Host) (db : Db) (sxRootGuid currencyGuid name : String)
    (splits : List InputSplit) (nums : List ℤ) : Db :=
  let n := splits.length
  let childGuid (i : ℕ) := host.generateGuid (db.drawn + i)
  let txGuid := host.generateGuid (db.drawn + n)
  { db with
    accounts := db.accounts ++ (List.range n).map fun i =>
      ⟨childGuid i, "", .bank, some currencyGuid, 100, some sxRootGuid⟩
    slots := db.slots ++ (List.range n).map fun i =>
      ⟨childGuid i, "account", 4, splits[i]?.map InputSplit.accountGuid, none, none⟩
    transactions := db.transactions ++ [⟨txGuid, currencyGuid, none, name⟩]
    splits := db.splits ++ (List.range n).map fun i =>
      let amount : Amount := ⟨nums.getD i 0, postingDenom⟩
      ⟨host.generateGuid (db.drawn + n + 1 + i), txGuid, childGuid i, "", "", .n, none, amount,
        amount, none⟩
    drawn := db.drawn + n + 1 + n }

/-! ## The calls -/

def listed (s : EditDb) (sx : SchedXAction) : ScheduledTransaction where
  guid := sx.guid
  name := sx.name
  startDate := (s.details sx.guid).startDate
  endDate := sx.endDate
  recurrence := (patternsOf s.recurrences sx.guid).head?
  splits := resolveTemplateSplits s.toDb sx.templateActGuid
  autoCreate := (s.details sx.guid).autoCreate = 1
  autoNotify := (s.details sx.guid).autoNotify = 1

def getScheduledTransaction (s : EditDb) (guid : String) : Option ScheduledTransaction :=
  (s.schedule? guid).map (listed s)

def scheduledToInput (value : ScheduledTransaction) : Except EditError CreateScheduledTxInput :=
  match value.recurrence with
  | none => .error .noRecurrence
  | some recurrence => .ok
      { name := value.name
        startDate := value.startDate.getD recurrence.periodStart
        endDate := value.endDate
        recurrence
        splits := value.splits.map fun split => ⟨split.accountGuid, split.amount⟩
        autoCreate := value.autoCreate
        autoNotify := value.autoNotify }

/-- The currency of the first child account, else that of the template account. -/
def templateCurrency (db : Db) (sx : SchedXAction) : Option String :=
  (((childRows db sx).head?.bind Account.commodityGuid).or
    (((deleteTemplateContents db sx).accounts.find? fun a => a.guid = sx.templateActGuid).bind
      Account.commodityGuid)).filter (· ≠ "")

/-- The template account is still there when its contents are deleted. -/
def hasTemplateAccount (db : Db) (sx : SchedXAction) : Bool :=
  sx.templateActGuid ∈ (deleteTemplateContents db sx).accounts.map Account.guid

/-- The transaction of an update: the schedule has the new template and one recurrence row. -/
def rewriteSchedule (host : Host) (s : EditDb) (sx : SchedXAction) (currencyGuid : String)
    (input : CreateScheduledTxInput) (nums : List ℤ) : EditDb :=
  let cleared := deleteTemplateContents s.toDb sx
  let renamed : Db := { cleared with
    accounts := Rows.editAt Account.guid sx.templateActGuid
      (fun a => { a with name := input.name }) cleared.accounts }
  let filled := createTemplateContents host renamed sx.templateActGuid currencyGuid input.name
    input.splits nums
  { s with
    toDb := { filled with
      schedxactions := Rows.editAt SchedXAction.guid sx.guid
        (fun row => { row with name := input.name, endDate := input.endDate })
        filled.schedxactions
      recurrences := (filled.recurrences.filter fun r => r.objGuid ≠ sx.guid) ++
        [⟨sx.guid, input.recurrence.mult, input.recurrence.periodType,
          some input.recurrence.periodStart, input.recurrence.weekendAdjust⟩] }
    details := Function.update s.details sx.guid
      ⟨some input.startDate, if input.autoCreate then 1 else 0, if input.autoNotify then 1 else 0⟩ }

def updateScheduledTransaction (host : Host) (s : EditDb) (guid : String)
    (input : CreateScheduledTxInput) (scope : Option (List String)) : Except EditError EditDb :=
  match validateScheduledTransactionInput s scope input, s.schedule? guid with
  | some e, _ => .error e
  | none, none => .error .notFound
  | none, some sx =>
    let before := listed s sx
    if scope.any fun guids =>
        before.splits = [] || before.splits.any fun split => split.accountGuid ∉ guids then
      .error .notFound
    else
      match templateCurrency s.toDb sx,
        balanceSplitNumerators (input.splits.map InputSplit.amount) postingDenom with
      | none, _ => .error .templateCurrencyNotFound
      | some _, .error refusal => .error (.unbalanced refusal)
      | some currencyGuid, .ok nums =>
        if hasTemplateAccount s.toDb sx then
          .ok (rewriteSchedule host s sx currencyGuid input nums)
        else .error .recordNotFound

/-- The tables after the update of a schedule, which writes all or nothing. -/
def afterUpdate (host : Host) (s : EditDb) (guid : String) (input : CreateScheduledTxInput)
    (scope : Option (List String)) : EditDb :=
  (updateScheduledTransaction host s guid input scope).toOption.getD s

/-- The tables without a schedule, with what the deletion returns. -/
def deleteScheduledTransaction (s : EditDb) (guid : String) :
    Except EditError (EditDb × Option CreateScheduledTxInput) :=
  match s.schedule? guid with
  | none => .ok (s, none)
  | some sx => do
      let snapshot ← scheduledToInput (listed s sx)
      let cleared := deleteTemplateContents s.toDb sx
      if hasTemplateAccount s.toDb sx then
        .ok ({ s with
          toDb := { cleared with
            recurrences := cleared.recurrences.filter fun r => r.objGuid ≠ guid
            schedxactions := cleared.schedxactions.filter fun row => row.guid ≠ guid
            slots := cleared.slots.filter fun r => r.objGuid ≠ sx.templateActGuid
            accounts := cleared.accounts.filter fun a => a.guid ≠ sx.templateActGuid } },
          some snapshot)
      else .error .recordNotFound

end Schedule
