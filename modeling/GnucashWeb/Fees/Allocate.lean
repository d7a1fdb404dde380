import GnucashWeb.Fees.Apportion
import GnucashWeb.Ledger.Amount
import GnucashWeb.Lib.Calendar

/-!
# Allocating trade fees

`allocateTradeFees` capitalizes the fees of each transaction into its security splits and lists the
fee splits it has capitalized.  The main results are `groups_byTx` (the transactions partition the
splits) and `allocateTx_attributed` and `allocateTx_not_attributed` (what a turn of the loop adds).
-/

namespace Fees

open Ledger Calendar Text

/-! ## Splits and results -/

structure FeeAllocationSplit where
  guid : String
  txGuid : String
  accountGuid : String
  accountType : String
  accountPath : List Char
  value : ℚ
  quantity : ℚ
  txDescription : Option (List Char)
  txDate : Option (List Char)
deriving DecidableEq, Repr

structure TradeFeeAllocation where
  fees : String → Option ℚ
  capitalizedFeeSplitGuids : List String
  warnings : List (List Char)

/-- What the loop over the transactions has collected. -/
structure Progress where
  fees : String → Option ℚ
  capitalizedFeeSplitGuids : List String
  warnings : List (List Char)
  suppressed : ℕ

def SECURITY_ACCOUNT_TYPES : List String := ["STOCK", "MUTUAL"]
def QTY_EPS : ℚ := 1 / 10 ^ 9
def CENT_EPS : ℚ := 5 / 1000
def MAX_WARNINGS : ℕ := 25

/-! ## Warnings -/

/-- A warning is recorded once, and counted only when there are too many. -/
def Progress.warn (acc : Progress) (message : List Char) : Progress :=
  if message ∈ acc.warnings then acc
  else if MAX_WARNINGS ≤ acc.warnings.length then { acc with suppressed := acc.suppressed + 1 }
  else { acc with warnings := acc.warnings ++ [message] }

@[simp] theorem Progress.warn_fees (acc : Progress) (message : List Char) :
    (acc.warn message).fees = acc.fees := by
  unfold Progress.warn
  split_ifs <;> rfl

@[simp] theorem Progress.warn_capitalized (acc : Progress) (message : List Char) :
    (acc.warn message).capitalizedFeeSplitGuids = acc.capitalizedFeeSplitGuids := by
  unfold Progress.warn
  split_ifs <;> rfl

/-- `toFixed(2)` of a number that is not negative. -/
def toFixed2 (x : ℚ) : List Char :=
  let cents := (mathRound (x * 100)).toNat
  natDigits (cents / 100) ++ '.' :: pad 2 (cents % 100)

def txLabel (splits : List FeeAllocationSplit) : List Char :=
  let dated := splits.findSome? fun s => s.txDate.filter (· ≠ [])
  let described := splits.findSome? fun s => s.txDescription.filter (· ≠ [])
  let day := (dated.getD []).take 10
  let label := (([day, described.getD []].filter (· ≠ [])).intersperse [' ']).flatten
  if label = [] then (splits.head?.elim [] fun s => s.txGuid.toList) else label

/-- The amount and the account of an expense, as the warnings name them. -/
def postedTo (expense : FeeAllocationSplit) (between : String) : List Char :=
  '$' :: toFixed2 |expense.value| ++ between.toList ++ '"' :: expense.accountPath ++ ['"']

/-- What the loop over the expenses of a transaction reports of one of them. -/
def expenseWarning (taxMappedAccounts : List String) (txSplits : List FeeAllocationSplit)
    (expense : FeeAllocationSplit) : Option (List Char) :=
  match classifyFeeAccount expense.accountPath with
  | .notFee => none
  | .ambiguous =>
    some (txLabel txSplits ++ ": ".toList ++ postedTo expense " posted to " ++
      (" was NOT added to cost basis — the account name " ++
      "reads as BOTH a trade fee and a non-fee charge (interest, tax or " ++
      "similar), so it cannot be classified safely. Split or rename the account " ++
      "if part of it is a commission.").toList)
  | .unrecognized =>
    some (txLabel txSplits ++ ": ".toList ++ postedTo expense " posted to " ++
      (" was NOT added to cost basis — the account is not " ++
      "recognized as a commission or trading fee. Rename it if it is one.").toList)
  | .fee =>
    if expense.accountGuid ∈ taxMappedAccounts then
      some (txLabel txSplits ++ ": the ".toList ++ postedTo expense " fee in " ++
        (" was added to cost basis, and this split is " ++
        "therefore EXCLUDED from the tax category its account is mapped to — a " ++
        "trade commission is part of the security's cost, not a deduction. Remap " ++
        "the account, or split the non-fee charges out of it.").toList)
    else none

/-- The fees of a ticket that could not be attributed, and why. -/
def unattributed (txSplits : List FeeAllocationSplit) (totalFee : ℚ) (why : String) : List Char :=
  txLabel txSplits ++ ": $".toList ++ toFixed2 |totalFee| ++
    " of fees could not be attributed — ".toList ++ why.toList

def mixedText : String :=
  "this transaction both adds and removes shares (an in-kind " ++
  "transfer, or a combined buy/sell), so there is no way to tell how much of " ++
  "the fee belongs to the purchase versus the sale. Split it into separate " ++
  "transactions to have it counted."

def unvaluedText : String :=
  "the security splits carry no value (an unpriced or in-kind " ++
  "movement), so there is nothing to apportion the fee against."

/-! ## One transaction -/

def expenses (txSplits : List FeeAllocationSplit) : List FeeAllocationSplit :=
  txSplits.filter fun s => s.accountType = "EXPENSE" ∧ CENT_EPS ≤ |s.value|

/-- The expenses that are confidently a fee. -/
def eligible (txSplits : List FeeAllocationSplit) : List FeeAllocationSplit :=
  (expenses txSplits).filter fun s => classifyFeeAccount s.accountPath = .fee

def totalFee (txSplits : List FeeAllocationSplit) : ℚ := ((eligible txSplits).map (·.value)).sum

def securitySplits (txSplits : List FeeAllocationSplit) : List FeeAllocationSplit :=
  txSplits.filter fun s => s.accountType ∈ SECURITY_ACCOUNT_TYPES ∧ QTY_EPS < |s.quantity|

def Mixed (txSplits : List FeeAllocationSplit) : Prop :=
  (∃ s ∈ securitySplits txSplits, 0 < s.quantity) ∧ ∃ s ∈ securitySplits txSplits, s.quantity < 0

instance (txSplits : List FeeAllocationSplit) : Decidable (Mixed txSplits) :=
  inferInstanceAs (Decidable (_ ∧ _))

def weights (txSplits : List FeeAllocationSplit) : List ℚ :=
  (securitySplits txSplits).map fun s => |s.value|

def cents (txSplits : List FeeAllocationSplit) : List ℤ :=
  apportionCents (mathRound (totalFee txSplits * 100)) (weights txSplits)

/-- `fees.set(guid, (fees.get(guid) ?? 0) + cents / 100)`, skipped for no cents. -/
def addFee (fees : String → Option ℚ) (share : FeeAllocationSplit × ℤ) : String → Option ℚ :=
  if share.2 = 0 then fees
  else Function.update fees share.1.guid (some ((fees share.1.guid).getD 0 + share.2 / 100))

/-- The body of the loop over the transactions. -/
def allocateTx (taxMappedAccounts : List String) (acc : Progress)
    (txSplits : List FeeAllocationSplit) : Progress :=
  if expenses txSplits = [] then acc
  else
    let acc := ((expenses txSplits).filterMap (expenseWarning taxMappedAccounts txSplits)).foldl
      Progress.warn acc
    if |totalFee txSplits| < CENT_EPS then acc
    else if securitySplits txSplits = [] then acc
    else if Mixed txSplits then acc.warn (unattributed txSplits (totalFee txSplits) mixedText)
    else if (weights txSplits).sum < CENT_EPS then
      acc.warn (unattributed txSplits (totalFee txSplits) unvaluedText)
    else
      { acc with
        fees := ((securitySplits txSplits).zip (cents txSplits)).foldl addFee acc.fees
        capitalizedFeeSplitGuids :=
          acc.capitalizedFeeSplitGuids ++ (eligible txSplits).map (·.guid) }

/-! ## All transactions -/

/-- Put a split into the list of its transaction, a new list at the end. -/
def pushTx (split : FeeAllocationSplit) :
    List (String × List FeeAllocationSplit) → List (String × List FeeAllocationSplit)
  | [] => [(split.txGuid, [split])]
  | (txGuid, list) :: rest =>
    if txGuid = split.txGuid then (txGuid, list ++ [split]) :: rest
    else (txGuid, list) :: pushTx split rest

/-- The splits of each transaction, in the order in which the transactions first occur. -/
def byTx (splits : List FeeAllocationSplit) : List (String × List FeeAllocationSplit) :=
  splits.foldl (fun groups split => pushTx split groups) []

/-- The warnings, with the number of the suppressed ones at the end. -/
def reported (acc : Progress) : List (List Char) :=
  if 0 < acc.suppressed then
    acc.warnings ++
      [natDigits acc.suppressed ++ " further trade-fee notice".toList ++
        (if acc.suppressed = 1 then " was" else "s were").toList ++
        " suppressed (only the first ".toList ++ natDigits MAX_WARNINGS ++
        " are listed). Resolve these and re-run to see the rest.".toList]
  else acc.warnings

def Progress.none : Progress := ⟨fun _ => Option.none, [], [], 0⟩

def allocateTradeFees (splits : List FeeAllocationSplit) (taxMappedAccounts : List String) :
    TradeFeeAllocation :=
  let acc := ((byTx splits).map Prod.snd).foldl (allocateTx taxMappedAccounts) Progress.none
  ⟨acc.fees, acc.capitalizedFeeSplitGuids, reported acc⟩

/-! ## Grouping -/

/-- What the lists of the transactions hold: the splits of each transaction, each listed once. -/
structure Groups (splits : List FeeAllocationSplit)
    (groups : List (String × List FeeAllocationSplit)) : Prop where
  nodup : (groups.map Prod.fst).Nodup
  keys : ∀ t, t ∈ groups.map Prod.fst ↔ ∃ s ∈ splits, s.txGuid = t
  lists : ∀ g ∈ groups, g.2 = splits.filter (·.txGuid = g.1)

variable {split : FeeAllocationSplit} {groups : List (String × List FeeAllocationSplit)}
  {fees : String → Option ℚ}

theorem mem_fst_pushTx {t : String} :
    t ∈ (pushTx split groups).map Prod.fst ↔ t = split.txGuid ∨ t ∈ groups.map Prod.fst := by
  induction groups with
  | nil => simp [pushTx]
  | cons g groups ih =>
    obtain ⟨txGuid, list⟩ := g
    unfold pushTx
    split
    · simp_all
    · rw [List.map_cons, List.mem_cons, ih, List.map_cons, List.mem_cons]
      tauto

theorem nodup_fst_pushTx (h : (groups.map Prod.fst).Nodup) :
    ((pushTx split groups).map Prod.fst).Nodup := by
  induction groups with
  | nil => simp [pushTx]
  | cons g groups ih =>
    obtain ⟨txGuid, list⟩ := g
    rw [List.map_cons, List.nodup_cons] at h
    unfold pushTx
    split
    · exact List.nodup_cons.2 h
    · rename_i hne
      refine List.nodup_cons.2 ⟨fun hmem => ?_, ih h.2⟩
      exact (mem_fst_pushTx.1 hmem).elim hne h.1

theorem mem_pushTx {g : String × List FeeAllocationSplit} (hnd : (groups.map Prod.fst).Nodup)
    (hg : g ∈ pushTx split groups) :
    (g.1 ≠ split.txGuid ∧ g ∈ groups) ∨
      (g.1 = split.txGuid ∧ split.txGuid ∉ groups.map Prod.fst ∧ g.2 = [split]) ∨
      (g.1 = split.txGuid ∧ ∃ list, (g.1, list) ∈ groups ∧ g.2 = list ++ [split]) := by
  induction groups with
  | nil => simp_all [pushTx]
  | cons head groups ih =>
    obtain ⟨txGuid, list⟩ := head
    rw [List.map_cons, List.nodup_cons] at hnd
    unfold pushTx at hg
    split at hg
    case isTrue heq =>
      rcases List.mem_cons.1 hg with rfl | hg
      · exact .inr (.inr ⟨heq, list, List.mem_cons_self, rfl⟩)
      · refine .inl ⟨fun h => hnd.1 ?_, List.mem_cons_of_mem _ hg⟩
        have hmem : g.1 ∈ groups.map Prod.fst := List.mem_map_of_mem hg
        rwa [h, ← heq] at hmem
    case isFalse hne =>
      rcases List.mem_cons.1 hg with rfl | hg
      · exact .inl ⟨hne, List.mem_cons_self⟩
      · rcases ih hnd.2 hg with ⟨h, hm⟩ | ⟨h, hm, hl⟩ | ⟨h, old, hm, hl⟩
        · exact .inl ⟨h, List.mem_cons_of_mem _ hm⟩
        · refine .inr (.inl ⟨h, fun hmem => ?_, hl⟩)
          exact (List.mem_cons.1 hmem).elim (fun h => hne h.symm) hm
        · exact .inr (.inr ⟨h, old, List.mem_cons_of_mem _ hm, hl⟩)

theorem Groups.push {splits : List FeeAllocationSplit} (h : Groups splits groups)
    (split : FeeAllocationSplit) : Groups (splits ++ [split]) (pushTx split groups) := by
  refine ⟨nodup_fst_pushTx h.nodup, fun t => ?_, fun g hg => ?_⟩
  · rw [mem_fst_pushTx, h.keys]
    simp only [List.mem_append, List.mem_singleton, or_and_right, exists_or, exists_eq_left]
    rw [or_comm, eq_comm]
  · rw [List.filter_append]
    rcases mem_pushTx h.nodup hg with ⟨hne, hm⟩ | ⟨heq, hnew, hl⟩ | ⟨heq, old, hm, hl⟩
    · rw [h.lists g hm, List.filter_singleton, decide_eq_false (Ne.symm hne)]
      simp
    · have hnone : splits.filter (·.txGuid = g.1) = [] := by
        refine List.filter_eq_nil_iff.2 fun s hs => ?_
        rw [decide_eq_true_eq, heq]
        exact fun hst => hnew ((h.keys _).2 ⟨s, hs, hst⟩)
      rw [hnone, hl, heq]
      simp
    · rw [hl, ← h.lists _ hm, heq]
      simp

theorem groups_byTx (splits : List FeeAllocationSplit) : Groups splits (byTx splits) := by
  unfold byTx
  induction splits using List.reverseRecOn with
  | nil => exact ⟨by simp, by simp, by simp⟩
  | append_singleton splits split ih =>
    rw [List.foldl_append]
    exact ih.push split

/-! ## What one transaction adds -/

/-- A transaction whose fees pass every guard. -/
structure Attributed (txSplits : List FeeAllocationSplit) : Prop where
  material : CENT_EPS ≤ |totalFee txSplits|
  secured : securitySplits txSplits ≠ []
  oneWay : ¬ Mixed txSplits
  valued : CENT_EPS ≤ (weights txSplits).sum

def shares (txSplits : List FeeAllocationSplit) : List (FeeAllocationSplit × ℤ) :=
  (securitySplits txSplits).zip (cents txSplits)

theorem eligible_ne_nil {txSplits : List FeeAllocationSplit}
    (h : CENT_EPS ≤ |totalFee txSplits|) : eligible txSplits ≠ [] := by
  intro hnil
  rw [totalFee, hnil] at h
  norm_num [CENT_EPS] at h

theorem expenses_ne_nil {txSplits : List FeeAllocationSplit}
    (h : CENT_EPS ≤ |totalFee txSplits|) : expenses txSplits ≠ [] := by
  intro hnil
  refine eligible_ne_nil h ?_
  rw [eligible, hnil]
  rfl

@[simp] theorem foldl_warn_fees (messages : List (List Char)) (acc : Progress) :
    (messages.foldl Progress.warn acc).fees = acc.fees := by
  induction messages generalizing acc with
  | nil => rfl
  | cons message messages ih => rw [List.foldl_cons, ih, Progress.warn_fees]

@[simp] theorem foldl_warn_capitalized (messages : List (List Char)) (acc : Progress) :
    (messages.foldl Progress.warn acc).capitalizedFeeSplitGuids =
      acc.capitalizedFeeSplitGuids := by
  induction messages generalizing acc with
  | nil => rfl
  | cons message messages ih => rw [List.foldl_cons, ih, Progress.warn_capitalized]

variable {taxMappedAccounts : List String} {acc : Progress} {txSplits : List FeeAllocationSplit}

theorem allocateTx_attributed (h : Attributed txSplits) :
    (allocateTx taxMappedAccounts acc txSplits).fees = (shares txSplits).foldl addFee acc.fees ∧
      (allocateTx taxMappedAccounts acc txSplits).capitalizedFeeSplitGuids =
        acc.capitalizedFeeSplitGuids ++ (eligible txSplits).map (·.guid) := by
  unfold allocateTx
  dsimp only
  rw [if_neg (expenses_ne_nil h.material), if_neg (not_lt.2 h.material), if_neg h.secured,
    if_neg h.oneWay, if_neg (not_lt.2 h.valued)]
  simp [shares]

theorem allocateTx_not_attributed (h : ¬ Attributed txSplits) :
    (allocateTx taxMappedAccounts acc txSplits).fees = acc.fees ∧
      (allocateTx taxMappedAccounts acc txSplits).capitalizedFeeSplitGuids =
        acc.capitalizedFeeSplitGuids := by
  unfold allocateTx
  dsimp only
  split_ifs with h1 h2 h3 h4 h5
  · simp
  · simp
  · simp
  · simp
  · simp
  · exact absurd ⟨not_lt.1 h2, h3, h4, not_lt.1 h5⟩ h

theorem addFee_of_ne {share : FeeAllocationSplit × ℤ} {guid : String}
    (h : guid ≠ share.1.guid) : addFee fees share guid = fees guid := by
  unfold addFee
  split
  · rfl
  · exact Function.update_of_ne h ..

theorem foldl_addFee_of_notMem {pairs : List (FeeAllocationSplit × ℤ)}
    {guid : String} (h : guid ∉ pairs.map (·.1.guid)) :
    pairs.foldl addFee fees guid = fees guid := by
  induction pairs generalizing fees with
  | nil => rfl
  | cons share pairs ih =>
    rw [List.map_cons, List.mem_cons, not_or] at h
    rw [List.foldl_cons, ih h.2, addFee_of_ne h.1]

theorem foldl_addFee_of_mem {pairs : List (FeeAllocationSplit × ℤ)}
    (hnd : (pairs.map (·.1.guid)).Nodup) (hnone : ∀ share ∈ pairs, fees share.1.guid = none)
    {share : FeeAllocationSplit × ℤ} (hs : share ∈ pairs) :
    pairs.foldl addFee fees share.1.guid =
      if share.2 = 0 then none else some ((share.2 : ℚ) / 100) := by
  induction pairs generalizing fees with
  | nil => simp at hs
  | cons head pairs ih =>
    rw [List.map_cons, List.nodup_cons] at hnd
    rw [List.foldl_cons]
    rcases List.mem_cons.1 hs with rfl | hs
    · rw [foldl_addFee_of_notMem hnd.1, addFee, hnone _ List.mem_cons_self]
      split
      · exact hnone _ List.mem_cons_self
      · rw [Function.update_self, Option.getD_none, zero_add]
    · refine ih hnd.2 (fun other ho => ?_) hs
      have hne : other.1.guid ≠ head.1.guid := fun heq =>
        hnd.1 (heq ▸ List.mem_map_of_mem (f := fun share => share.1.guid) ho)
      rw [addFee_of_ne hne]
      exact hnone _ (List.mem_cons_of_mem _ ho)

theorem length_cents (txSplits : List FeeAllocationSplit) :
    (cents txSplits).length = (securitySplits txSplits).length := by
  rw [cents, length_apportionCents, weights, List.length_map]

theorem map_fst_shares (txSplits : List FeeAllocationSplit) :
    (shares txSplits).map Prod.fst = securitySplits txSplits :=
  List.map_fst_zip (length_cents txSplits).ge

theorem map_snd_shares (txSplits : List FeeAllocationSplit) :
    (shares txSplits).map Prod.snd = cents txSplits :=
  List.map_snd_zip (length_cents txSplits).le

theorem map_guid_shares (txSplits : List FeeAllocationSplit) :
    (shares txSplits).map (·.1.guid) = (securitySplits txSplits).map (·.guid) := by
  rw [← map_fst_shares, List.map_map]
  rfl

end Fees
