import GnucashWeb.FundingRules.Rules
import GnucashWeb.Lib.Runs
import GnucashWeb.Lib.Sessions
import Mathlib.Data.List.Sort

/-!
# Runs of the funding rules

`runFundingRules` and `applySweep` statement by statement, any number of runs beside each other and
beside edits of the tables.  The database transaction of a sweep takes the advisory lock of its rule
and deposit, checks again that no transaction has the stamp, and writes the sweep.  Notifications
are left out, for nothing else is decided by them.
-/

namespace FundingRules

open Ledger (round2)
open Sessions

/-! ## Tables -/

/-- The tables; `sweeps` are the sweeps that runs have made, `drawn` the guids that are in use or
were. -/
structure Db where
  accounts : List Account
  transactions : List Transaction
  rules : List FundingRule
  lockDates : List (String × ℤ)
  sweeps : List Sweep
  drawn : List String
deriving DecidableEq

structure RunOptions where
  bookGuid : Option String
  cutoff : ℤ
deriving DecidableEq

namespace Db

variable (db : Db)

def activeRules (options : RunOptions) : List FundingRule :=
  (db.rules.filter fun r =>
    r.active = true ∧ options.bookGuid.all fun g => r.bookGuid = g).insertionSort
      fun a b => a.id ≤ b.id

def getAccountGuidsForBook (bookGuid : String) : List String :=
  (db.accounts.filter fun a => a.bookGuid = bookGuid).map Account.guid

def account? (guid : String) : Option Account := db.accounts.find? fun a => a.guid = guid

def hasNum (num : String) : Bool := db.transactions.any fun t => t.num = num

def lockDate? (bookGuid : String) : Option ℤ :=
  (db.lockDates.find? fun e => e.1 = bookGuid).map (·.2)

end Db

/-- What a transaction credits to an account; a split without a denominator does not count. -/
def creditedTo (accountGuid : String) (t : Transaction) : ℚ :=
  ((t.splits.filter fun s => s.accountGuid = accountGuid ∧ 0 < s.value.num ∧ s.value.denom ≠ 0).map
    fun s => s.value.exact).sum

/-- A transaction as a deposit of an account: dated from the cutoff on, not a sweep, and crediting
the account. -/
def asDeposit (triggerAccountGuid : String) (cutoff : ℤ) (t : Transaction) :
    Option DepositCandidate :=
  t.postDate.bind fun postDate =>
    if cutoff ≤ postDate ∧ isStamp t.num = false ∧ 0 < creditedTo triggerAccountGuid t then
      some ⟨t.guid, postDate, t.description.getD "", round2 (creditedTo triggerAccountGuid t)⟩
    else none

def loadRecentDeposits (triggerAccountGuid : String) (cutoff : ℤ) (db : Db) :
    List DepositCandidate :=
  (db.transactions.filterMap (asDeposit triggerAccountGuid cutoff)).insertionSort
    fun a b => a.postDate ≤ b.postDate

def msPerDay : ℤ := 24 * 60 * 60 * 1000

/-- `findLockedDate` for one date; the day of the lock is locked. -/
def isLocked (lockDate : Option ℤ) (date : ℤ) : Bool :=
  lockDate.any fun lock => date / msPerDay ≤ lock

def accountsInBook (rule : FundingRule) (trigger : String) (db : Db) :
    Except FundingRuleError Unit :=
  let guids := trigger :: rule.allocations.map FundingAllocation.accountGuid
  if guids.all fun g => g ∈ db.getAccountGuidsForBook rule.bookGuid then .ok ()
  else .error .accountsNotInBook

/-- The currency checks of `applySweep`: the currency of the sweep. -/
def sweepCurrency (rule : FundingRule) (trigger : String) (db : Db) :
    Except FundingRuleError String :=
  match db.account? trigger with
  | none => .error .triggerNotCurrency
  | some account =>
    match account.commodityGuid with
    | none => .error .triggerNotCurrency
    | some currencyGuid =>
      if account.isCurrency = false then .error .triggerNotCurrency
      else do
        rule.allocations.forM fun alloc =>
          match db.account? alloc.accountGuid with
          | none => .error .envelopeGone
          | some envelope =>
            if envelope.commodityGuid = some currencyGuid then .ok () else .error .envelopeCurrency
        pure currencyGuid

/-! ## Phases -/

/-- The rule at hand with its trigger account, and the rules after it. -/
structure RuleAt where
  options : RunOptions
  rule : FundingRule
  trigger : String
  rest : List FundingRule

structure DepositAt extends RuleAt where
  deposit : DepositCandidate
  deposits : List DepositCandidate

namespace DepositAt

variable (p : DepositAt)

def dedupeKey : String := fundingDedupeKey p.rule.id p.deposit.txGuid

def lockKey : String := fundingSweepLockKey p.rule.id p.deposit.txGuid

def sweep (currencyGuid guid : String) : Sweep := ⟨guid, p.rule, p.trigger, currencyGuid, p.deposit⟩

end DepositAt

inductive Phase
  | idle
  | scanning (options : RunOptions)
  | checking (r : RuleAt)
  | listing (r : RuleAt)
  /-- The cheap check for the stamp. -/
  | deduping (p : DepositAt)
  | dating (p : DepositAt)
  | guarding (p : DepositAt)
  | validating (p : DepositAt)
  | locking (p : DepositAt) (currencyGuid : String)
  /-- The check for the stamp under the lock. -/
  | rechecking (p : DepositAt) (currencyGuid : String)
  | writing (p : DepositAt) (currencyGuid : String)

def nextRule (options : RunOptions) : List FundingRule → Phase
  | [] => .idle
  | rule :: rest =>
    match rule.triggerAccountGuid.filter fun trigger => trigger ≠ "" ∧ rule.allocations ≠ [] with
    | none => nextRule options rest
    | some trigger => .checking ⟨options, rule, trigger, rest⟩

def nextDeposit (host : Host) (r : RuleAt) : List DepositCandidate → Phase
  | [] => nextRule r.options r.rest
  | deposit :: deposits =>
    if ruleMatchesDeposit host r.rule deposit then .deduping ⟨r, deposit, deposits⟩
    else nextDeposit host r deposits

def Phase.ruleAt? : Phase → Option RuleAt
  | .checking r | .listing r => some r
  | .deduping p | .dating p | .guarding p | .validating p => some p.toRuleAt
  | .locking p _ | .rechecking p _ | .writing p _ => some p.toRuleAt
  | _ => none

/-! ## Steps -/

inductive Step
  | call (k : ℕ) (options : RunOptions)
  /-- The next statement of a run; a sweep draws a guid. -/
  | advance (k : ℕ) (guid : String)
  /-- The next statement fails. -/
  | fail (k : ℕ)
  /-- The process of a run dies. -/
  | crash (k : ℕ)
  /-- Another request changes the tables. -/
  | edit (db : Db)

abbrev RunState := Sys Db ℤ Phase

def start (db : Db) : RunState := ⟨db, fun _ => none, fun _ => .idle⟩

/-- The tables after a sweep: its guid has to be new and its rule still there. -/
def writeSweep (a : Sweep) (db : Db) : Option Db :=
  if a.guid ∉ db.drawn ∧ db.rules.any fun r => r.id = a.rule.id then
    some { db with
      transactions := a.sweepTransaction :: db.transactions
      rules := db.rules.map fun r => if r.id = a.rule.id then
        { r with lastAppliedTxnGuid := some a.deposit.txGuid } else r
      sweeps := a :: db.sweeps
      drawn := a.guid :: db.drawn }
  else none

section Next

variable (host : Host)

/-- An error leads to the next rule, its transaction rolled back. -/
def throwNext (k : ℕ) (r : RuleAt) (s : RunState) : RunState :=
  s.close k s.db (nextRule r.options r.rest)

def advanceNext (k : ℕ) (guid : String) (s : RunState) : Option RunState :=
  match s.phase k with
  | .idle => none
  | .scanning options => some (s.goto k (nextRule options (s.db.activeRules options)))
  | .checking r =>
    some (if (accountsInBook r.rule r.trigger s.db).isOk then s.goto k (.listing r)
      else throwNext k r s)
  | .listing r =>
    some (s.goto k (nextDeposit host r (loadRecentDeposits r.trigger r.options.cutoff s.db)))
  | .deduping p =>
    some (s.goto k (if s.db.hasNum p.dedupeKey then nextDeposit host p.toRuleAt p.deposits
      else .dating p))
  | .dating p =>
    some (s.goto k (if isLocked (s.db.lockDate? p.rule.bookGuid) p.deposit.postDate then
      nextDeposit host p.toRuleAt p.deposits else .guarding p))
  | .guarding p =>
    some (if (accountsInBook p.rule p.trigger s.db).isOk then s.goto k (.validating p)
      else throwNext k p.toRuleAt s)
  | .validating p =>
    some (match sweepCurrency p.rule p.trigger s.db with
      | .ok currencyGuid => s.goto k (.locking p currencyGuid)
      | .error _ => throwNext k p.toRuleAt s)
  | .locking p currencyGuid =>
    let row := host.hashtext p.lockKey
    if s.CanTake row k then some ((s.take row k).goto k (.rechecking p currencyGuid)) else none
  | .rechecking p currencyGuid =>
    some (if s.db.hasNum p.dedupeKey then s.close k s.db (nextDeposit host p.toRuleAt p.deposits)
      else s.goto k (.writing p currencyGuid))
  | .writing p currencyGuid =>
    some (match writeSweep (p.sweep currencyGuid guid) s.db with
      | some db => s.close k db (nextDeposit host p.toRuleAt p.deposits)
      | none => throwNext k p.toRuleAt s)

/-- An error in a rule leads to the next rule, any other ends the run. -/
def failNext (k : ℕ) (s : RunState) : RunState :=
  match (s.phase k).ruleAt? with
  | some r => throwNext k r s
  | none => s.close k s.db .idle

def next : Step → RunState → Option RunState
  | .call k options, s =>
    match s.phase k with
    | .idle => some (s.goto k (.scanning options))
    | _ => none
  | .advance k guid, s => advanceNext host k guid s
  | .fail k, s => some (failNext k s)
  | .crash k, s => some (s.close k s.db .idle)
  | .edit db, s => some { s with db := db }

end Next

end FundingRules
