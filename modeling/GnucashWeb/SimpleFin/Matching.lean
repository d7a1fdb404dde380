import GnucashWeb.SimpleFin.Sync

/-!
# The tables that a sync links rows in, and its two matchers

Transactions, splits and the meta rows that record the ids of feed rows, with the queries and the
choices of `findAndLinkManualMatch` and `findAndLinkTransferDedupMatch`.  `done` is what the runs
report, the latest first: it is no table, and nothing reads it.
-/

namespace SimpleFin.Import

open Edits (Transaction msPerDay)
open Ledger (Amount Split fromDecimal)

/-! ## Rows -/

structure FeedTransaction extends Row where
  description : String
  payee : String
  memo : String
  pending : Bool
deriving DecidableEq

/-- A row of `gnucash_web_transaction_meta`; a deleted transaction leaves it without a guid. -/
structure Meta where
  transactionGuid : Option String
  source : String
  reviewed : Bool
  simplefinTransactionId : Option String
  simplefinTransactionId2 : Option String
  confidence : Option String
  deletedAt : Option ℤ
  matchType : Option String
  matchConfidence : Option String
  originalDescription : Option String
deriving DecidableEq

inductive Way
  | imported
  | manualReconciliation
  | transferDedup
deriving DecidableEq, Repr

/-- A row that a run counts as done: its account, and the transaction and the split it is linked
to. -/
structure Done where
  way : Way
  row : Row
  accountGuid : String
  txGuid : String
  splitGuid : String
deriving DecidableEq

structure Db where
  transactions : List Transaction
  splits : List Split
  metas : List Meta
  done : List Done
deriving DecidableEq

variable (db : Db)

def Db.meta? (txGuid : String) : Option Meta :=
  db.metas.find? fun m => m.transactionGuid = some txGuid

def Db.splitsOfTx (txGuid : String) : List Split := db.splits.filter fun s => s.txGuid = txGuid

def Meta.ids (m : Meta) : List String :=
  m.simplefinTransactionId.toList ++ m.simplefinTransactionId2.toList

def toNumDenom (amount : ℚ) (precision : ℕ) : Amount := fromDecimal amount (10 ^ precision)

/-- `Math.round(Math.log10(scu))`. -/
def scuPrecision (scu : ℕ) : ℕ := Nat.log 10 (10 * scu * scu) / 2

/-- The value that is stored for an amount: its rounded size with its sign. -/
def signedValue (amount : ℚ) (precision : ℕ) : Amount :=
  let size := toNumDenom |amount| precision
  if 0 < amount then size else ⟨-size.num, size.denom⟩

def oppositeValue (amount : ℚ) (precision : ℕ) : Amount :=
  let size := toNumDenom |amount| precision
  if 0 < amount then ⟨-size.num, size.denom⟩ else size

/-! ## Candidates -/

/-- What a sync is told of its settings and of the language. -/
structure Host where
  matchWindowDays : ℚ
  /-- Whether the partial unique index on the first id column was created. -/
  indexed : Bool
  /-- The score of two descriptions: the words and the beginning that they share. -/
  descScore : String → String → ℕ

structure MappedAccount where
  guid : String
  commodityScu : ℕ
  isInvestment : Bool
deriving DecidableEq

variable (host : Host) (row : FeedTransaction)

/-- Whether a post date is in the window around a posting time. -/
def inWindow (postDate : ℤ) : Prop :=
  ⌊row.posted * 1000 - host.matchWindowDays * msPerDay⌋ ≤ postDate ∧
    postDate ≤ ⌊row.posted * 1000 + host.matchWindowDays * msPerDay⌋

instance (postDate : ℤ) : Decidable (inWindow host row postDate) :=
  inferInstanceAs (Decidable (_ ∧ _))

/-- The days from a posting time to a post date. -/
def dayOffset (postDate : ℤ) : ℚ := (row.posted * 1000 - postDate).natAbs / msPerDay

/-- A candidate of the manual match, with the split that it was found by. -/
structure ReconciliationCandidate where
  transactionGuid : String
  postDate : ℤ
  description : String
  hasMeta : Bool
  splitGuid : String
deriving DecidableEq

def btrim (text : String) : String :=
  String.ofList (((text.toList.dropWhile (· = ' ')).reverse.dropWhile (· = ' ')).reverse)

/-- Whether nothing was recorded for a transaction and it is not deleted. -/
def IsFree (m : Option Meta) : Prop :=
  m.bind Meta.simplefinTransactionId = none ∧ m.bind Meta.deletedAt = none

instance (m : Option Meta) : Decidable (IsFree m) := inferInstanceAs (Decidable (_ ∧ _))

/-- The candidates of one transaction, one for each of its splits in the account with the value. -/
def candidatesOf (account : MappedAccount) (value : Amount) (t : Transaction) :
    List ReconciliationCandidate :=
  match t.postDate with
  | none => []
  | some postDate =>
    if inWindow host row postDate ∧ IsFree (db.meta? t.guid) then
      let original := ((db.meta? t.guid).bind Meta.originalDescription).filter fun text =>
        btrim text ≠ ""
      let splits := (db.splitsOfTx t.guid).filter fun s =>
        s.accountGuid = account.guid ∧ s.value = value
      splits.map fun s =>
        ⟨t.guid, postDate, original.getD (t.description.getD ""), (db.meta? t.guid).isSome, s.guid⟩
    else []

/-- The order of the post dates, and of the entry dates under it. -/
def earlier (t t' : Transaction) : Prop :=
  t.postDate.getD 0 < t'.postDate.getD 0 ∨
    (t.postDate.getD 0 = t'.postDate.getD 0 ∧
      match t.enterDate, t'.enterDate with
      | _, none => True
      | none, some _ => False
      | some d, some d' => d ≤ d')

instance : DecidableRel earlier := fun t t' => by
  unfold earlier
  cases t.enterDate <;> cases t'.enterDate <;> infer_instance

def manualCandidates (account : MappedAccount) (amount : ℚ) : List ReconciliationCandidate :=
  let value := signedValue amount (scuPrecision account.commodityScu)
  (db.transactions.insertionSort earlier).flatMap (candidatesOf db host row account value)

/-- What `selectManualReconciliationMatch` picks. -/
structure ManualMatch where
  transactionGuid : String
  confidence : String
  hasMeta : Bool
  splitGuid : String
deriving DecidableEq

/-- The order of the scores: the nearer day first, then the higher score. -/
def better (c c' : ReconciliationCandidate) : Prop :=
  dayOffset row c.postDate < dayOffset row c'.postDate ∨
    (dayOffset row c.postDate = dayOffset row c'.postDate ∧
      host.descScore row.description c'.description ≤ host.descScore row.description c.description)

instance : DecidableRel (better host row) := fun _ _ => inferInstanceAs (Decidable (_ ∨ _))

def selectManualReconciliationMatch (candidates : List ReconciliationCandidate) :
    Option ManualMatch :=
  let scored := candidates.filter fun c => dayOffset row c.postDate ≤ host.matchWindowDays
  (scored.insertionSort (better host row)).head?.map fun best =>
    ⟨best.transactionGuid, if dayOffset row best.postDate ≤ 1 then "high" else "medium",
      best.hasMeta, best.splitGuid⟩

structure TransferDedupCandidate where
  transactionGuid : String
  postDate : ℤ
  splitAccountGuid : String
  destSplitGuid : String
  destAccountGuid : String
deriving DecidableEq

/-- Whether a transaction carries exactly one id, of another row. -/
def HasOneId (m : Meta) : Prop :=
  m.simplefinTransactionId.any (fun id => id ≠ row.id) = true ∧
    m.simplefinTransactionId2 = none ∧ m.deletedAt = none

instance (m : Meta) : Decidable (HasOneId row m) := inferInstanceAs (Decidable (_ ∧ _))

/-- The candidates of one transaction: a split in another mapped account with the opposite value,
and the other split. -/
def pairsOf (others : List String) (value : Amount) (t : Transaction) :
    List TransferDedupCandidate :=
  match t.postDate, db.meta? t.guid with
  | some postDate, some m =>
    let splits := db.splitsOfTx t.guid
    if inWindow host row postDate ∧ HasOneId row m ∧ splits.length = 2 then
      (splits.filter fun s₁ => s₁.accountGuid ∈ others ∧ s₁.value = value).flatMap fun s₁ =>
        (splits.filter fun s₂ => s₂.guid ≠ s₁.guid).map fun s₂ =>
          ⟨t.guid, postDate, s₁.accountGuid, s₂.guid, s₂.accountGuid⟩
    else []
  | _, _ => []

/-- The candidates of the transfer match, one for each transaction. -/
def transferCandidates (account : MappedAccount) (mapped : List String) (amount : ℚ) :
    List TransferDedupCandidate :=
  let value := oppositeValue amount (scuPrecision account.commodityScu)
  let others := mapped.filter fun g => g ≠ account.guid
  (db.transactions.insertionSort fun t t' => t.guid ≤ t'.guid).flatMap fun t =>
    (pairsOf db host row others value t).head?.toList

def selectTransferDedupMatch (candidates : List TransferDedupCandidate) :
    Option TransferDedupCandidate :=
  let scored := candidates.filter fun c => dayOffset row c.postDate ≤ host.matchWindowDays
  (scored.insertionSort fun c c' => dayOffset row c.postDate ≤ dayOffset row c'.postDate).head?

end SimpleFin.Import
