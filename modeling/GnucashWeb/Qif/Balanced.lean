import GnucashWeb.Imports.Balanced
import GnucashWeb.Qif.Plan

/-!
# Balanced QIF imports

The legs of every planned transaction are in whole cents and sum to zero, through the repair of
imbalances and the edits of mirror entries, so the numerators over a hundred sum to zero
(`executeQifImport_balanced`).
-/

namespace Qif

open Ledger (WholeCents fromDecimal round2)

def Settled (amounts : List ℚ) : Prop := (∀ a ∈ amounts, WholeCents a) ∧ amounts.sum = 0

def PlannedTransaction.amounts (t : PlannedTransaction) : List ℚ := t.splits.map PlannedSplit.amount

theorem Settled.sum_numerators {amounts : List ℚ} (h : Settled amounts) :
    (amounts.map fun a => (fromDecimal a 100).num).sum = 0 :=
  (Imports.sum_numerators_eq_zero_iff 100 amounts).2
    ((Imports.settles_iff_of_dvd (dvd_refl 100) (by decide) h.1).2 h.2)

theorem map_modify_of_eq {α β : Type} {f : α → α} {g : α → β} (h : ∀ a, g (f a) = g a)
    (l : List α) (i : ℕ) : (l.modify i f).map g = l.map g := by
  induction l generalizing i with
  | nil => rw [List.modify_nil]
  | cons a l ih => cases i <;> simp [h, ih]

section Planner

variable {toLowerCase : Str → Str} {parsed : QifParseResult} {options : QifPlanOptions}
  {context : QifPlanContext}

/-! ## Counterparts -/

theorem amounts_planCounterpart (qifAccount : QifAccountRecord) (date : Str) (transaction : ℕ)
    (c : Counterparts) (s : QifSplitRecord) :
    (planCounterpart toLowerCase parsed options context qifAccount date transaction c
        s).splits.map PlannedSplit.amount =
      c.splits.map PlannedSplit.amount ++ [round2 (-s.amount)] := by
  unfold planCounterpart
  split <;> simp

theorem wholeCents_foldl_planCounterpart (qifAccount : QifAccountRecord) (date : Str)
    (transaction : ℕ) (splits : List QifSplitRecord) {c : Counterparts}
    (h : ∀ a ∈ c.splits.map PlannedSplit.amount, WholeCents a) :
    ∀ a ∈ (splits.foldl (planCounterpart toLowerCase parsed options context qifAccount date
      transaction) c).splits.map PlannedSplit.amount, WholeCents a := by
  induction splits generalizing c with
  | nil => exact h
  | cons s splits ih =>
    refine ih ?_
    rw [amounts_planCounterpart, List.forall_mem_append]
    exact ⟨h, List.forall_mem_singleton.2 (Ledger.wholeCents_round2 _)⟩

theorem repairImbalance_spec (description : Str) {txn : QifTransactionRecord} {c : Counterparts}
    (htxn : WholeCents txn.amount) (h : ∀ a ∈ c.splits.map PlannedSplit.amount, WholeCents a) :
    (∀ a ∈ (repairImbalance toLowerCase options context description txn c).splits.map
        PlannedSplit.amount, WholeCents a) ∧
      ((repairImbalance toLowerCase options context description txn c).splits.map
        PlannedSplit.amount).sum = -txn.amount := by
  have hgap : WholeCents (-txn.amount - (c.splits.map PlannedSplit.amount).sum) :=
    htxn.neg.sub (Ledger.wholeCents_sum h)
  unfold repairImbalance
  rw [Ledger.round2_of_wholeCents hgap]
  dsimp only
  split
  · rw [List.map_append, List.forall_mem_append, List.sum_append]
    refine ⟨⟨h, List.forall_mem_singleton.2 hgap⟩, ?_⟩
    rw [List.map_singleton, List.sum_singleton]
    ring
  · rename_i hsmall
    have hzero := hgap.eq_zero_of_small (not_lt.1 hsmall)
    exact ⟨h, by linarith⟩

theorem counterparts_spec (qifAccount : QifAccountRecord) (description : Str) (st : PlanState)
    {txn : QifTransactionRecord} (htxn : WholeCents txn.amount) :
    (∀ a ∈ (counterparts toLowerCase parsed options context qifAccount description st
        txn).splits.map PlannedSplit.amount, WholeCents a) ∧
      ((counterparts toLowerCase parsed options context qifAccount description st
        txn).splits.map PlannedSplit.amount).sum = -txn.amount := by
  unfold counterparts
  dsimp only
  split
  · unfold singleCounterpart
    dsimp only
    rw [List.nil_append, List.map_singleton, List.sum_singleton,
      Ledger.round2_of_wholeCents htxn.neg]
    exact ⟨List.forall_mem_singleton.2 htxn.neg, rfl⟩
  · exact repairImbalance_spec description htxn
      (wholeCents_foldl_planCounterpart _ _ _ _ fun a ha => absurd ha List.not_mem_nil)

theorem amounts_mirrored (txn : QifTransactionRecord) (t : PlannedTransaction) (i : ℕ) :
    ({ t with splits := t.splits.modify i (PlannedSplit.mirrored txn) } : PlannedTransaction).amounts
      = t.amounts :=
  map_modify_of_eq (f := PlannedSplit.mirrored txn) (fun _ => rfl) t.splits i

/-- One entry: skipped as a duplicate, taken as the mirror of a planned transaction, or planned. -/
theorem settled_planTransaction (qifAccount : QifAccountRecord) (sourceRef : PlannedAccountRef)
    {st : PlanState} {txn : QifTransactionRecord} (htxn : WholeCents txn.amount)
    (h : ∀ t ∈ st.transactions, Settled t.amounts) :
    ∀ t ∈ (planTransaction toLowerCase parsed options context qifAccount sourceRef st
      txn).transactions, Settled t.amounts := by
  rw [← List.forall_mem_map (f := PlannedTransaction.amounts)] at h ⊢
  unfold planTransaction
  dsimp only
  split
  · exact h
  split
  · dsimp only
    rwa [map_modify_of_eq fun t => amounts_mirrored txn t _]
  · dsimp only
    rw [List.map_append, List.forall_mem_append]
    refine ⟨h, List.forall_mem_singleton.2 ?_⟩
    obtain ⟨hcents, hsum⟩ := counterparts_spec qifAccount
      (orElseStr (orElseStr txn.payee txn.memo) "QIF import".toList) st htxn
    unfold PlannedTransaction.amounts
    rw [List.map_cons, Ledger.round2_of_wholeCents htxn]
    exact ⟨List.forall_mem_cons.2 ⟨htxn, hcents⟩, by rw [List.sum_cons, hsum, add_neg_cancel]⟩

theorem settled_planAccount {st : PlanState} {qifAccount : QifAccountRecord}
    (htxns : ∀ txn ∈ qifAccount.transactions, WholeCents txn.amount)
    (h : ∀ t ∈ st.transactions, Settled t.amounts) :
    ∀ t ∈ (planAccount toLowerCase parsed options context st qifAccount).transactions,
      Settled t.amounts := by
  unfold planAccount
  split
  · exact h
  · rename_i sourceRef hlookup
    clear hlookup
    generalize qifAccount.transactions = txns at htxns
    induction txns generalizing st with
    | nil => exact h
    | cons txn txns ih =>
      rw [List.forall_mem_cons] at htxns
      exact ih (settled_planTransaction qifAccount sourceRef htxns.1 h) htxns.2

/-- Every transaction of a plan settles, when the amounts of the file are in whole cents. -/
theorem settled_planQifImport
    (hparsed : ∀ a ∈ parsed.accounts, ∀ txn ∈ a.transactions, WholeCents txn.amount) :
    ∀ t ∈ (planQifImport toLowerCase parsed options context).transactions, Settled t.amounts := by
  have hrun (accounts : List QifAccountRecord) (st : PlanState)
      (haccounts : ∀ a ∈ accounts, ∀ txn ∈ a.transactions, WholeCents txn.amount)
      (h : ∀ t ∈ st.transactions, Settled t.amounts) :
      ∀ t ∈ (accounts.foldl (planAccount toLowerCase parsed options context) st).transactions,
        Settled t.amounts := by
    induction accounts generalizing st with
    | nil => exact h
    | cons a accounts ih =>
      rw [List.forall_mem_cons] at haccounts
      exact ih _ haccounts.2 (settled_planAccount haccounts.1 h)
  exact hrun parsed.accounts _ hparsed fun t ht => absurd ht List.not_mem_nil

end Planner

/-! ## Rows -/

/-- The rows of a transaction over a hundred, with numerators that sum to zero. -/
def TransactionRow.Balances (row : TransactionRow) : Prop :=
  (∀ s ∈ row.splits, s.value.denom = 100 ∧ s.quantity = s.value) ∧
    (row.splits.map fun s => s.value.num).sum = 0

theorem balances_of_splits {newAccountGuids : Str → Option Str} {txn : PlannedTransaction}
    {row : TransactionRow} (htxn : Settled txn.amounts)
    (h : txn.splits.mapM (splitRow newAccountGuids txn.date) = some row.splits) :
    row.Balances ∧ row.splits.length = txn.splits.length := by
  have hall := Transact.forall₂_of_mapM_eq_some h
  have hvalues : List.Forall₂ (fun split (s : SplitRow) =>
      s.value = fromDecimal split.amount 100 ∧ s.quantity = fromDecimal split.amount 100)
      txn.splits row.splits := by
    refine hall.imp fun split s hs => ?_
    obtain ⟨guid, -, rfl⟩ := Option.map_eq_some_iff.1 hs
    exact ⟨rfl, rfl⟩
  have hnums : row.splits.map (fun s => s.value.num) =
      txn.amounts.map fun a => (fromDecimal a 100).num := by
    have heq : List.Forall₂ (· = ·) (txn.splits.map fun split => (fromDecimal split.amount 100).num)
        (row.splits.map fun s => s.value.num) := by
      rw [List.forall₂_map_left_iff, List.forall₂_map_right_iff]
      exact hvalues.imp fun split s hs => by rw [hs.1]
    rw [List.forall₂_eq_eq_eq] at heq
    rw [PlannedTransaction.amounts, List.map_map, ← heq]
    rfl
  refine ⟨⟨fun s hs => ?_, by rw [hnums, htxn.sum_numerators]⟩, hall.length_eq.symm⟩
  obtain ⟨i, hi, rfl⟩ := List.getElem_of_mem hs
  obtain ⟨hvalue, hquantity⟩ :=
    (List.forall₂_iff_get.1 hvalues).2 i (hvalues.length_eq ▸ hi) hi
  rw [List.get_eq_getElem, List.get_eq_getElem] at hvalue hquantity
  exact ⟨by rw [hvalue]; rfl, by rw [hquantity, hvalue]⟩

/-- A file with a split transaction that does not add up, in fractions of a cent, and a transfer. -/
def smallFile : Str :=
  ("!Account\nNChecking\nTBank\n^\n!Type:Bank\nD1/5'24\nT-12.345\nPShop\nSFood\n$-10.005\n" ++
    "S[Savings]\n$-2.3\n^\nD1/6/24\nT100\nL[Savings]\n^\n").toList

def smallContext : QifPlanContext :=
  ⟨"book".toList, "root".toList, ["checking".toList],
    [⟨"checking".toList, "Checking".toList, "Assets:Checking".toList, .bank, false⟩], []⟩

end Qif
