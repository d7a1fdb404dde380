import GnucashWeb.Edits.Tables
import GnucashWeb.Lib.Statements
import Mathlib.Data.List.Sort

/-!
# Posting a payslip

`postPayslipTransaction` with its route: the claim of the payslip for five minutes, the search for a
bank deposit, the database transaction that links a transaction which matches, rewrites the deposit or
writes a new one, and the release of the claim after an error.  Templates and documents are left out:
nothing here is decided by them.  Times are milliseconds, and `tick` lets them pass.
-/

namespace Payslips

open Ledger (Split fromDecimal mathRound round2)
open Edits (Transaction LockDate assertNotLocked assertSplitsNotProtected msPerDay)
open Rows Statements Txn

/-! ## Payslips -/

inductive Category
  | earnings | tax | deduction | employerContribution | reimbursement
deriving DecidableEq, Repr

structure PayslipLineItem where
  category : Category
  label : String
  normalizedLabel : String
  amount : ℚ
deriving DecidableEq

/-- The columns of a payslip that no posting writes; `payDate` is a day, `netPay` in cents. -/
structure Payslip where
  id : ℕ
  bookGuid : String
  payDate : ℤ
  employerName : String
  netPay : Option ℤ
  lineItems : List PayslipLineItem
deriving DecidableEq

structure Mapping where
  bookGuid : String
  employerName : String
  category : Category
  normalizedLabel : String
  accountGuid : String
deriving DecidableEq

structure World where
  payslips : List Payslip
  ids : (payslips.map Payslip.id).Nodup
  mappings : List Mapping
  bookAccountGuids : String → List String

/-- `Number(payslip.net_pay)`, or 0. -/
def Payslip.net (p : Payslip) : ℚ := (p.netPay.getD 0 : ℚ) / 100

def World.accountOf (w : World) (p : Payslip) (item : PayslipLineItem) : Option String :=
  (w.mappings.find? fun m => m.bookGuid = p.bookGuid ∧ m.employerName = p.employerName ∧
    m.category = item.category ∧ m.normalizedLabel = item.normalizedLabel).map Mapping.accountGuid

/-! ## Splits -/

structure PayslipSplit where
  accountGuid : String
  amount : ℚ
  memo : String
deriving DecidableEq

def postedItems (lineItems : List PayslipLineItem) : List PayslipLineItem :=
  lineItems.filter fun item => item.category ≠ .employerContribution

def validatePayslipBalance (lineItems : List PayslipLineItem) (netPay : ℚ) : ℚ :=
  round2 (((postedItems lineItems).map PayslipLineItem.amount).sum - netPay)

def buildSplitsFromLineItems (accountOf : PayslipLineItem → Option String)
    (lineItems : List PayslipLineItem) (depositAccountGuid : String) (netPay : ℚ) :
    List PayslipSplit :=
  ((postedItems lineItems).filterMap fun item =>
    (accountOf item).map fun accountGuid => ⟨accountGuid, -item.amount, item.label⟩) ++
      [⟨depositAccountGuid, netPay, "Net Pay"⟩]

/-- A request to post a payslip: what it brings along, the lock date as the cache has it at its two
checks, and the guids in the order in which they are drawn. -/
structure Call where
  payslipId : ℕ
  bookGuid : String
  depositAccountGuid : String
  currencyGuid : String
  imbalanceAccountGuid : Option String
  lockDate : Option LockDate
  lockDateOfDeposit : Option LockDate
  generateGuid : ℕ → String

/-- The splits of a posting, with one for the imbalance when there is an account for it. -/
def postingSplits (w : World) (call : Call) (p : Payslip) : List PayslipSplit :=
  let imbalance := validatePayslipBalance p.lineItems p.net
  let splits := buildSplitsFromLineItems (w.accountOf p) p.lineItems call.depositAccountGuid p.net
  match call.imbalanceAccountGuid with
  | some accountGuid => if imbalance ≠ 0 then splits ++ [⟨accountGuid, imbalance, "Imbalance"⟩] else splits
  | none => splits

/-- A posting that has passed the checks of the route and the sum check of its splits. -/
structure Posting (w : World) where
  call : Call
  payslip : Payslip
  mem : payslip ∈ w.payslips
  id_eq : payslip.id = call.payslipId
  balanced : round2 ((postingSplits w call payslip).map PayslipSplit.amount).sum = 0

variable {w : World}

namespace Posting

variable (p : Posting w)

def id : ℕ := p.payslip.id

def splits : List PayslipSplit := postingSplits w p.call p.payslip

def postDate : ℤ := p.payslip.payDate * msPerDay + msPerDay / 2

def description : String := "Payslip: " ++ p.payslip.employerName

def rows (txGuid : String) : List Split :=
  p.splits.mapIdx fun i s =>
    { guid := p.call.generateGuid (i + 1)
      txGuid := txGuid
      accountGuid := s.accountGuid
      memo := s.memo
      action := ""
      reconcileState := .n
      reconcileDate := none
      value := fromDecimal s.amount 100
      quantity := fromDecimal s.amount 100
      lotGuid := none }

end Posting

/-! ## Tables -/

inductive Status
  | processing | needsMapping | ready | posting | posted | error
deriving DecidableEq, Repr

abbrev PriorStatus := { status : Status // status ≠ .posted }

/-- The columns of a payslip that postings write; `claims` counts the claims that were taken. -/
structure PayslipRow where
  id : ℕ
  status : Status
  updatedAt : Option ℤ
  transactionGuid : Option String
  depositAccountGuid : Option String
  claims : ℕ
deriving DecidableEq, Repr

/-- A row of `gnucash_web_transaction_meta`. -/
structure Meta where
  transactionGuid : String
  source : String
  matchType : Option String
  originalDescription : Option String
deriving DecidableEq, Repr

/-- The tables and the time; `written` are the payslips with the transactions written or rewritten for
them, and `undone` counts the claims that were released by another attempt than their own. -/
structure Db extends Edits.Db where
  metas : List Meta
  payslips : List PayslipRow
  now : ℤ
  written : List (ℕ × String)
  undone : ℕ
deriving DecidableEq

namespace Db

variable (db : Db)

def payslip? (id : ℕ) : Option PayslipRow := db.payslips.find? fun r => r.id = id

def meta? (txGuid : String) : Option Meta := db.metas.find? fun m => m.transactionGuid = txGuid

end Db

inductive Failure
  | conflict (payslipId : ℕ)
  | alreadyPosted
  | notFound
  | recordNotFound
  | ledger (e : Edits.Failure)
  /-- A statement of the database fails. -/
  | database
deriving DecidableEq

inductive Key
  | payslip (id : ℕ)
  | transaction (guid : String)
deriving DecidableEq, Repr

def present (db : Db) : Key → Bool
  | .payslip id => (db.payslip? id).isSome
  | .transaction guid => (db.transaction? guid).isSome

abbrev Tx (α : Type) := Txn Db Key Failure α

/-- What a posting has done with the ledger. -/
inductive Outcome
  | linked (txGuid : String)
  | replaced (txGuid : String)
  | created (txGuid : String)
deriving DecidableEq, Repr

def Outcome.txGuid : Outcome → String
  | linked g | replaced g | created g => g

/-- What a database transaction has done when it commits; a claim and what follows from it have the
number of the claim. -/
inductive Receipt (w : World)
  | claimed (id : ℕ) (priorStatus : PriorStatus) (claim : ℕ)
  | posted (p : Posting w) (claim : ℕ) (o : Outcome)
  | released (id : ℕ) (claim : ℕ)
  | ticked

/-! ## The claim -/

/-- `POSTING_CLAIM_TTL_MS`. -/
def postingClaimTtl : ℤ := 5 * 60 * 1000

/-- A payslip that may be claimed: not posted, and not claimed since some time. -/
def PayslipRow.Claimable (staleBefore : ℤ) (r : PayslipRow) : Prop :=
  r.status ≠ .posted ∧
    (r.status ≠ .posting ∨ r.updatedAt = none ∨ ∃ t ∈ r.updatedAt, t < staleBefore)

instance (staleBefore : ℤ) (r : PayslipRow) : Decidable (r.Claimable staleBefore) :=
  inferInstanceAs (Decidable (_ ∧ (_ ∨ _ ∨ _)))

/-- The status of a payslip that may be claimed, and the number of its claims so far. -/
def PayslipRow.claimable? (staleBefore : ℤ) (r : PayslipRow) : Option (PriorStatus × ℕ) :=
  if h : r.Claimable staleBefore then some (⟨r.status, h.1⟩, r.claims) else none

def takeClaim (id : ℕ) (now : ℤ) (db : Db) : Db :=
  { db with
    payslips := editAt PayslipRow.id id
      (fun r => { r with
        status := .posting
        updatedAt := some now
        claims := r.claims + 1 }) db.payslips }

def claimPayslipForPosting (id : ℕ) : Tx (Receipt w) := do
  let now ← select fun db => db.now
  let _ ← lock (.payslip id)
  let row ← select fun db => db.payslip? id
  let claimed ← expect (row.bind (PayslipRow.claimable? (now - postingClaimTtl))) (.conflict id)
  let now ← select fun db => db.now
  write (takeClaim id now)
  pure (.claimed id claimed.1 (claimed.2 + 1))

def putBack (id : ℕ) (priorStatus : PriorStatus) (claim : ℕ) (now : ℤ) (db : Db) : Db :=
  { db with
    payslips := editAt PayslipRow.id id
      (fun r => if r.status = .posting then
        { r with
          status := priorStatus.val
          updatedAt := some now } else r) db.payslips
    undone := db.undone + if (db.payslip? id).any fun r =>
      r.status = .posting ∧ r.claims ≠ claim then 1 else 0 }

def releasePayslipClaim (id : ℕ) (priorStatus : PriorStatus) (claim : ℕ) : Tx (Receipt w) := do
  let now ← select fun db => db.now
  let _ ← lock (.payslip id)
  write (putBack id priorStatus claim now)
  pure (.released id claim)

/-! ## The searches -/

def Posting.inWindow (p : Posting w) (t : Transaction) : Bool :=
  t.postDate.any fun d => |d - p.postDate| ≤ 3 * msPerDay

/-- A split with about the amount that is expected. -/
def Near (expected : PayslipSplit) (s : Split) : Prop := |s.value.exact - expected.amount| < 15 / 1000

instance (expected : PayslipSplit) (s : Split) : Decidable (Near expected s) :=
  inferInstanceAs (Decidable (_ < _))

/-- Every expected split has one on its account with about its amount. -/
def exactMatch (expected : List PayslipSplit) (actual : List Split) : Bool :=
  expected.all fun e => actual.any fun s => s.accountGuid = e.accountGuid ∧ Near e s

/-- The expected amounts are taken from the actual ones, one each. -/
def amountMatch : List PayslipSplit → List Split → Bool
  | [], _ => true
  | e :: rest, actual =>
    (actual.any fun s => Near e s) && amountMatch rest (actual.eraseP fun s => Near e s)

def firstMatch (expected : List PayslipSplit) : List String → Tx (Option String)
  | [] => pure none
  | guid :: rest => do
    let actual ← select fun db => db.splitsOfTx guid
    if exactMatch expected actual || amountMatch expected actual then pure (some guid)
    else firstMatch expected rest

def findMatchingTransaction (p : Posting w) : Tx (Option String) := do
  let candidates ← select fun db => (db.transactions.filter fun t =>
    p.inWindow t ∧ (db.splitsOfTx t.guid).length = p.splits.length).map Transaction.guid
  firstMatch p.splits candidates

def Posting.distance (p : Posting w) (t : Transaction) : ℤ := |t.postDate.getD 0 - p.postDate|

/-- The bank deposits of the net pay on the deposit account, the nearest first. -/
def simpleFinDeposits (p : Posting w) (db : Db) : List Transaction :=
  (db.transactions.filter fun t =>
    p.inWindow t ∧ ((db.splitsOfTx t.guid).any fun s =>
      s.accountGuid = p.call.depositAccountGuid ∧ |s.value.exact - p.payslip.net| < 2 / 100) ∧
        (db.metas.any fun m => m.transactionGuid = t.guid ∧ m.source = "simplefin")).insertionSort
          fun a b => p.distance a ≤ p.distance b

/-- A deposit, when there is one; it must not be in a locked period. -/
def findSimpleFinDeposit (p : Posting w) : Tx (Option String) := do
  let deposit ← select fun db => (simpleFinDeposits p db).head?
  let date := (deposit.bind Transaction.postDate).map Edits.LockableDate.date
  check ((assertNotLocked p.call.lockDateOfDeposit [date]).mapError Failure.ledger)
  pure (deposit.map Transaction.guid)

/-! ## The writes -/

def linkPayslip (p : Posting w) (txGuid : String) (now : ℤ) (db : Db) : Option Db :=
  if (db.payslip? p.id).isSome then
    some { db with
      payslips := editAt PayslipRow.id p.id
        (fun r => { r with
          status := .posted
          transactionGuid := some txGuid
          depositAccountGuid := some p.call.depositAccountGuid
          updatedAt := some now }) db.payslips }
  else none

def updateMeta (txGuid : String) (db : Db) : Option Db :=
  if (db.meta? txGuid).isSome then
    some { db with
      metas := editAt Meta.transactionGuid txGuid
        (fun m => { m with matchType := some "payslip_verified" }) db.metas }
  else none

def createMeta (m : Meta) (db : Db) : Option Db :=
  if (db.meta? m.transactionGuid).isNone then some { db with metas := db.metas ++ [m] } else none

def insertSplit (s : Split) (db : Db) : Option Db :=
  (Edits.insertSplit s db.toDb).map fun ledger => { db with toDb := ledger }

def insertSplits : List Split → Db → Option Db
  | [], db => some db
  | s :: rest, db => (insertSplit s db).bind (insertSplits rest)

/-- The splits of a transaction are deleted, and its description is set. -/
def clearTransaction (txGuid description : String) (db : Db) : Db :=
  { db with
    splits := db.splits.filter fun s => s.txGuid ≠ txGuid
    transactions := editAt Transaction.guid txGuid
      (fun t => { t with description := some description }) db.transactions }

def noteWritten (id : ℕ) (txGuid : String) (db : Db) : Db :=
  { db with written := (id, txGuid) :: db.written }

def insertTransaction (t : Transaction) (db : Db) : Option Db :=
  (Edits.insertTransaction t db.toDb).map fun ledger => { db with toDb := ledger }

/-- `update` of the payslip, which waits for its row. -/
def postPayslip (p : Posting w) (txGuid : String) : Tx Unit := do
  let now ← select fun db => db.now
  let _ ← lock (.payslip p.id)
  tryWrite (linkPayslip p txGuid now)

def linkExisting (p : Posting w) (txGuid : String) : Tx Unit := do
  postPayslip p txGuid
  let existingMeta ← select fun db => db.meta? txGuid
  tryWrite (match existingMeta with
    | some _ => updateMeta txGuid
    | none => createMeta ⟨txGuid, "payslip", some "payslip_verified", none⟩)

/-- The deposit is rewritten, unless a split of it in the book is reconciled. -/
def replaceDeposit (p : Posting w) (txGuid : String) : Tx Unit := do
  let bookAccountGuids := w.bookAccountGuids p.call.bookGuid
  require (bookAccountGuids ≠ []) .notFound
  let inBook ← select fun db => (db.splitsOfTx txGuid).any fun s => s.accountGuid ∈ bookAccountGuids
  lockAll (if inBook then [.transaction txGuid] else [])
  let rows ← select fun db => (db.toDb, (db.splitsOfTx txGuid).filter fun s =>
    s.accountGuid ∈ bookAccountGuids)
  check ((assertSplitsNotProtected "replace this deposit with payslip detail" rows.1 rows.2).mapError
    Failure.ledger)
  write (clearTransaction txGuid p.description)
  tryWrite (insertSplits (p.rows txGuid))
  write (noteWritten p.id txGuid)
  postPayslip p txGuid
  tryWrite (updateMeta txGuid)

def createTransaction (p : Posting w) : Tx Unit := do
  let enterDate ← select fun db => db.now
  tryWrite (insertTransaction ⟨p.call.generateGuid 0, p.call.currencyGuid, "", some p.postDate,
    some enterDate, some p.description⟩)
  tryWrite (insertSplits (p.rows (p.call.generateGuid 0)))
  write (noteWritten p.id (p.call.generateGuid 0))
  postPayslip p (p.call.generateGuid 0)
  tryWrite (createMeta ⟨p.call.generateGuid 0, "payslip", none, some p.description⟩)

def postTransaction (p : Posting w) (claim : ℕ) : Tx (Receipt w) := do
  let simpleFinMatch ← findSimpleFinDeposit p
  let existingGuid ← findMatchingTransaction p
  match existingGuid with
  | some guid => do
    linkExisting p guid
    pure (.posted p claim (.linked guid))
  | none =>
    match simpleFinMatch with
    | some guid => do
      replaceDeposit p guid
      pure (.posted p claim (.replaced guid))
    | none => do
      createTransaction p
      pure (.posted p claim (.created (p.call.generateGuid 0)))

/-! ## Requests -/

abbrev Scripts (w : World) := Script Db Key Failure (Receipt w)

/-- A claim, the posting, and the release when the posting fails. -/
def attempt (p : Posting w) : Scripts w :=
  .exec (claimPayslipForPosting p.id) fun
    | .ok (.claimed id priorStatus claim) =>
      .exec (postTransaction p claim) fun
        | .ok _ => .stop
        | .error _ => .single (releasePayslipClaim id priorStatus claim)
    | _ => .stop

/-- The status read of the route, and the period lock. -/
def precheck (p : Posting w) : Tx (Receipt w) := do
  let row ← select fun db => db.payslip? p.id
  let row ← expect row .notFound
  require (row.status ≠ .posted) .alreadyPosted
  check ((assertNotLocked p.call.lockDate [some (.date p.postDate)]).mapError Failure.ledger)
  pure .ticked

theorem id_of_find? {call : Call} {payslip : Payslip} {payslips : List Payslip}
    (h : (payslips.find? fun p => p.id = call.payslipId ∧ p.bookGuid = call.bookGuid) = some payslip) :
    payslip.id = call.payslipId := by
  have hfound := List.find?_some h
  simp only [decide_eq_true_eq] at hfound
  exact hfound.1

/-- The payslip of a request, when the checks that read no table pass: it is of the book, every posted
item has an account, and the splits sum to zero. -/
def posting? (w : World) (call : Call) : Option (Posting w) :=
  match h : w.payslips.find? fun p => p.id = call.payslipId ∧ p.bookGuid = call.bookGuid with
  | none => none
  | some payslip =>
    if (postedItems payslip.lineItems).all fun item => (w.accountOf payslip item).isSome then
      if hsum : round2 ((postingSplits w call payslip).map PayslipSplit.amount).sum = 0 then
        some ⟨call, payslip, List.mem_of_find?_eq_some h, id_of_find? h, hsum⟩
      else none
    else none

inductive Request
  | post (call : Call)
  /-- Time passes. -/
  | tick (time : ℕ)

def serve (w : World) : Request → Scripts w
  | .post call =>
    match posting? w call with
    | none => .stop
    | some p =>
      .exec (precheck p) fun
        | .ok _ => attempt p
        | .error _ => .stop
  | .tick time => .single do
    write fun db => { db with now := db.now + time }
    pure .ticked

abbrev PayslipStep := Step Request Failure

abbrev PayslipState (w : World) := System Db Key Failure (Receipt w)

def next (w : World) : PayslipStep → PayslipState w → Option (PayslipState w) :=
  Statements.next present (serve w)

end Payslips
