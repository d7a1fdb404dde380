import GnucashWeb.Ledger.Amount
import GnucashWeb.Lib.Text
import Mathlib.Algebra.Order.BigOperators.Group.List

/-!
# Funding rules

A rule watches an account and sweeps fixed amounts into envelope accounts when a deposit lands.
This is what it decides on one deposit: whether the deposit matches, and the transaction that is
made.  `balanced_sweepTransaction` says that the splits of that transaction sum to zero, which rests
on the whole cents that `parseAllocations` leaves, and `moved_sweepTransaction` that it moves the
total of the allocations.  Numbers are exact, times are milliseconds.
-/

namespace FundingRules

open Ledger (Amount WholeCents fromDecimal round2 exact_fromDecimal
  round2_of_wholeCents wholeCents_round2 wholeCents_sum)

/-! ## Data -/

/-- What the database and the language decide: the hash of a lock key and the lower case of a
text. -/
structure Host where
  hashtext : String → ℤ
  toLowerCase : String → String

/-- An envelope with its fixed amount, as `parseAllocations` leaves it. -/
structure FundingAllocation where
  accountGuid : String
  amount : ℚ
  nonneg : 0 ≤ amount
  wholeCents : WholeCents amount
deriving DecidableEq

structure FundingRule where
  id : ℕ
  bookGuid : String
  name : String
  triggerAccountGuid : Option String
  triggerDescriptionMatch : Option String
  minAmount : Option ℚ
  allocations : List FundingAllocation
  active : Bool
  lastAppliedTxnGuid : Option String
deriving DecidableEq

structure DepositCandidate where
  txGuid : String
  postDate : ℤ
  description : String
  amount : ℚ
deriving DecidableEq

structure Account where
  guid : String
  /-- The book whose account tree it is in. -/
  bookGuid : String
  commodityGuid : Option String
  isCurrency : Bool
deriving DecidableEq

structure Split where
  accountGuid : String
  memo : String
  value : Amount
  quantity : Amount
deriving DecidableEq

structure Transaction where
  guid : String
  currencyGuid : String
  num : String
  postDate : Option ℤ
  description : Option String
  splits : List Split
deriving DecidableEq

namespace Transaction

def total (t : Transaction) : ℚ := (t.splits.map fun s => s.value.exact).sum

def moved (t : Transaction) : ℚ :=
  ((t.splits.map fun s => s.value.exact).filter fun value => 0 < value).sum

end Transaction

inductive FundingRuleError
  | atLeastOneAllocation
  | atMostAllocations
  | allocation (n : ℕ) (problem : String)
  | accountsNotInBook
  | triggerNotCurrency
  | envelopeGone
  | envelopeCurrency
deriving DecidableEq, Repr

def allocationsTotal (allocations : List FundingAllocation) : ℚ :=
  round2 (allocations.map FundingAllocation.amount).sum

def includes (pattern text : String) : Bool :=
  text.toList.tails.any fun rest => pattern.toList.isPrefixOf rest

def descriptionMatches (host : Host) (pattern : Option String) (description : String) : Bool :=
  let p := host.toLowerCase (String.ofList (Text.trim (pattern.getD "").toList))
  p = "" || includes p (host.toLowerCase description)

def ruleMatchesDeposit (host : Host) (rule : FundingRule) (deposit : DepositCandidate) : Bool :=
  rule.active && decide (0 < deposit.amount) &&
    descriptionMatches host rule.triggerDescriptionMatch deposit.description &&
    rule.minAmount.all fun minAmount => minAmount ≤ deposit.amount

/-! ## Stamps -/

def dedupePrefix : String := "autofund:"

/-- What the keys of a rule and a deposit have in common. -/
def pairKey (ruleId : ℕ) (triggerTxnGuid : String) : String :=
  toString ruleId ++ ":" ++ triggerTxnGuid

def fundingDedupeKey (ruleId : ℕ) (triggerTxnGuid : String) : String :=
  dedupePrefix ++ pairKey ruleId triggerTxnGuid

def fundingSweepLockKey (ruleId : ℕ) (triggerTxnGuid : String) : String :=
  "fundsweep:" ++ pairKey ruleId triggerTxnGuid

/-- `num LIKE 'autofund:%'`. -/
def isStamp (num : String) : Bool := dedupePrefix.toList.isPrefixOf num.toList

@[simp] theorem isStamp_fundingDedupeKey (ruleId : ℕ) (triggerTxnGuid : String) :
    isStamp (fundingDedupeKey ruleId triggerTxnGuid) = true := by
  simp [isStamp, fundingDedupeKey, String.toList_append]

theorem lockKey_eq_of_dedupeKey_eq {i j : ℕ} {g g' : String}
    (h : fundingDedupeKey i g = fundingDedupeKey j g') :
    fundingSweepLockKey i g = fundingSweepLockKey j g' := by
  have hpair : pairKey i g = pairKey j g' := by
    simpa [fundingDedupeKey, String.ext_iff, String.toList_append] using h
  rw [fundingSweepLockKey, fundingSweepLockKey, hpair]

/-! ## The sweep -/

structure Sweep where
  guid : String
  rule : FundingRule
  trigger : String
  currencyGuid : String
  deposit : DepositCandidate
deriving DecidableEq

namespace Sweep

variable (a : Sweep)

def dedupeKey : String := fundingDedupeKey a.rule.id a.deposit.txGuid

def description : String := "Auto-fund: " ++ a.rule.name

def envelopeSplit (alloc : FundingAllocation) : Split :=
  let value := fromDecimal alloc.amount 100
  ⟨alloc.accountGuid, a.description, value, value⟩

def bankSplit : Split :=
  let total := fromDecimal (allocationsTotal a.rule.allocations) 100
  let value : Amount := ⟨-total.num, total.denom⟩
  ⟨a.trigger, a.description, value, value⟩

/-- The transaction that `applySweep` writes. -/
def sweepTransaction : Transaction where
  guid := a.guid
  currencyGuid := a.currencyGuid
  num := a.dedupeKey
  postDate := some a.deposit.postDate
  description := some a.description
  splits := a.rule.allocations.map a.envelopeSplit ++ [a.bankSplit]

theorem allocationsTotal_eq (allocations : List FundingAllocation) :
    allocationsTotal allocations = (allocations.map FundingAllocation.amount).sum :=
  round2_of_wholeCents (wholeCents_sum (by simp [FundingAllocation.wholeCents]))

theorem map_envelopeSplit (allocations : List FundingAllocation) :
    (allocations.map a.envelopeSplit).map (fun s => s.value.exact) =
      allocations.map FundingAllocation.amount := by
  rw [List.map_map]
  exact List.map_congr_left fun alloc _ => exact_fromDecimal alloc.wholeCents

theorem exact_bankSplit : a.bankSplit.value.exact = -allocationsTotal a.rule.allocations := by
  have htotal : (fromDecimal (allocationsTotal a.rule.allocations) 100).exact =
      allocationsTotal a.rule.allocations := exact_fromDecimal (wholeCents_round2 _)
  rw [← htotal]
  simp [bankSplit, Amount.exact, neg_div]

theorem balanced_sweepTransaction : a.sweepTransaction.total = 0 := by
  rw [Transaction.total, sweepTransaction, List.map_append, map_envelopeSplit, List.sum_append,
    List.map_singleton, List.sum_singleton, exact_bankSplit, allocationsTotal_eq]
  exact add_neg_cancel _

theorem sum_filter_pos {values : List ℚ} (h : ∀ value ∈ values, 0 ≤ value) :
    (values.filter fun value => 0 < value).sum = values.sum := by
  induction values with
  | nil => rfl
  | cons value rest ih =>
    obtain ⟨hvalue, hrest⟩ := List.forall_mem_cons.1 h
    rcases hvalue.eq_or_lt with rfl | hpos
    · simp [ih hrest]
    · simp [hpos, ih hrest]

theorem moved_sweepTransaction :
    a.sweepTransaction.moved = allocationsTotal a.rule.allocations := by
  have hamounts : ∀ amount ∈ a.rule.allocations.map FundingAllocation.amount, 0 ≤ amount := by
    simp [FundingAllocation.nonneg]
  have htotal : 0 ≤ allocationsTotal a.rule.allocations :=
    allocationsTotal_eq _ ▸ List.sum_nonneg hamounts
  have hbank : ¬ 0 < a.bankSplit.value.exact := by
    rw [exact_bankSplit]
    linarith
  rw [Transaction.moved, sweepTransaction, List.map_append, map_envelopeSplit, List.map_singleton,
    List.filter_append, List.sum_append, sum_filter_pos hamounts, allocationsTotal_eq]
  simp [hbank]

end Sweep

end FundingRules
