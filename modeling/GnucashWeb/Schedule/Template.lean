import GnucashWeb.Ledger.Book
import GnucashWeb.Lib.Text
import GnucashWeb.Recurrence.Pattern

/-!
# Schedules and their templates

The tables of scheduled transactions, the splits that a template resolves to, and the next
occurrence that the list of schedules offers.  Times are milliseconds since the start of day 0 of the
calendar, days are day numbers, and the numbers that the program reads from two columns are exact.
-/

open Ledger (Amount Account Transaction Split)
open Recurrence

namespace Schedule

/-! ## Rows -/

/-- A slot row of any type, with the columns that templates use. -/
structure Slot where
  objGuid : String
  name : String
  slotType : ℤ
  guidVal : Option String
  stringVal : Option String
  numericVal : Option Amount
deriving DecidableEq, Repr

structure SchedXAction where
  guid : String
  name : String
  enabled : ℤ
  endDate : Option ℤ
  lastOccur : Option ℤ
  remOccur : ℤ
  instanceCount : ℤ
  templateActGuid : String
deriving DecidableEq, Repr

/-- A row of `recurrences`. -/
structure RecurrenceRow where
  objGuid : String
  mult : ℕ
  periodType : PeriodType
  periodStart : Option ℤ
  weekendAdjust : WeekendAdjust
deriving DecidableEq, Repr

/-- The tables, the root accounts of the books, and the number of guids drawn so far. -/
structure Db where
  accounts : List Account
  bookRoots : List String
  transactions : List Transaction
  splits : List Split
  slots : List Slot
  schedxactions : List SchedXAction
  recurrences : List RecurrenceRow
  drawn : ℕ
deriving DecidableEq, Repr

namespace Db

variable (db : Db)

def schedule? (guid : String) : Option SchedXAction :=
  db.schedxactions.find? fun sx => sx.guid = guid

/-- `accountNames.get(guid) || 'Unknown'`. -/
def accountName (guid : String) : String :=
  (((db.accounts.find? fun a => a.guid = guid).map Account.name).filter (· ≠ "")).getD "Unknown"

end Db

/-! ## Template splits -/

structure ResolvedSplit where
  accountGuid : String
  accountName : String
  amount : ℚ
  templateAccountGuid : String
deriving DecidableEq, Repr

/-- A column that is neither null nor empty, as `if (slot.guid_val)` tests it. -/
def present (column : Option String) : Option String := column.filter (· ≠ "")

/-- The account that the last `account` slot of a template account names. -/
def templateToReal (db : Db) (templateGuid : String) : Option String :=
  ((db.slots.filter fun r => r.objGuid = templateGuid ∧ r.slotType = 4 ∧ r.name = "account").filterMap
    fun r => present r.guidVal).getLast?

/-- The app layout: one child account for each split, which names the real account. -/
def resolveAppLayout (db : Db) (templateActGuid : String) : List ResolvedSplit :=
  let templateGuids :=
    (db.accounts.filter fun a => a.parentGuid = some templateActGuid).map Account.guid
  (db.splits.filter fun s => s.accountGuid ∈ templateGuids).filterMap fun s =>
    (templateToReal db s.accountGuid).map fun realGuid =>
      ⟨realGuid, db.accountName realGuid, s.val, s.accountGuid⟩

/-- `plainFormulaOf`: the number of a formula that is a plain number, else zero. -/
def plainFormulaOf (formula : Option String) : ℚ :=
  let cs := Text.trim ((formula.getD "").toList)
  let body := if cs.head? = some '-' then cs.tail else cs
  let sign : ℚ := if cs.head? = some '-' then -1 else 1
  match body.splitOnP fun c => c = '.' || c = ',' with
  | [whole] => ((Text.readDecimal whole).map fun n : ℕ => sign * n).getD 0
  | [whole, fraction] =>
    match Text.readDecimal whole, Text.readDecimal fraction with
    | some n, some m => sign * (n + m / 10 ^ fraction.length)
    | _, _ => 0
  | _ => 0

def numericOf (row : Option Slot) : ℚ :=
  ((row.bind Slot.numericVal).map Amount.toDecimalNumber).getD 0

/-- The children of the frame that a split's last `sched-xaction` row names. -/
def frameChildren (db : Db) (splitGuid : String) : Option (List Slot) :=
  (((db.slots.filter fun r => r.objGuid = splitGuid ∧ r.name = "sched-xaction" ∧ r.slotType = 9).filterMap
    fun r => present r.guidVal).getLast?).map fun frameGuid =>
      db.slots.filter fun r => r.objGuid = frameGuid

/-- The amount of a native template split: its value, else its numerics, else its formulas. -/
def nativeAmount (value : ℚ) (child : String → Option Slot) : ℚ :=
  if value ≠ 0 then value
  else
    let debitNumeric := child "debit-numeric"
    let creditNumeric := child "credit-numeric"
    if debitNumeric.isSome ∨ creditNumeric.isSome then numericOf debitNumeric - numericOf creditNumeric
    else
      plainFormulaOf ((child "debit-formula").bind Slot.stringVal) -
        plainFormulaOf ((child "credit-formula").bind Slot.stringVal)

/-- The native layout: the splits are on the template account and each carries a frame. -/
def resolveNativeLayout (db : Db) (templateActGuid : String) : List ResolvedSplit :=
  (db.splits.filter fun s => s.accountGuid = templateActGuid).filterMap fun s => do
    let children ← frameChildren db s.guid
    let child (suffix : String) := children.find? fun r => r.name = "sched-xaction/" ++ suffix
    let realGuid ← present ((child "account").bind Slot.guidVal)
    pure ⟨realGuid, db.accountName realGuid, nativeAmount s.val child, s.accountGuid⟩

/-- `resolveTemplateSplits`: the native layout where the app layout gives nothing. -/
def resolveTemplateSplits (db : Db) (templateActGuid : String) : List ResolvedSplit :=
  let splits := resolveAppLayout db templateActGuid
  if splits = [] then resolveNativeLayout db templateActGuid else splits

/-! ## The list of schedules -/

/-- The day of a time, as the first ten characters of its ISO text give it. -/
def isoDay (time : ℤ) : ℤ := time / 86400000

def noon (day : ℤ) : ℤ := day * 86400000 + 43200000

@[simp] theorem isoDay_noon (day : ℤ) : isoDay (noon day) = day := by
  unfold isoDay noon
  omega

def patternsOf (recurrences : List RecurrenceRow) (sxGuid : String) : List RecurrencePattern :=
  (recurrences.filter fun r => r.objGuid = sxGuid).filterMap fun r =>
    r.periodStart.map fun periodStart =>
      ⟨r.periodType, if r.mult = 0 then 1 else r.mult, periodStart, r.weekendAdjust⟩

/-- `row.rem_occur > 0 ? row.rem_occur : null`. -/
def listedRemaining (remOccur : ℤ) : Option ℕ :=
  if 0 < remOccur then some remOccur.toNat else none

/-- The `nextOccurrence` that `fetchScheduledTransactions` gives a schedule, with the remaining
occurrences that it counts. -/
def nextOccurrence (recurrences : List RecurrenceRow) (today : ℤ) (row : SchedXAction)
    (remaining : Option ℕ) : Option ℤ :=
  let patterns := patternsOf recurrences row.guid
  if row.enabled ≠ 0 ∧ patterns ≠ [] then
    (computeNextOccurrencesForPatterns patterns (row.lastOccur.map isoDay) row.endDate remaining 1
      today).head?
  else none

end Schedule
