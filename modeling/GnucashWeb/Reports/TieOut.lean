import GnucashWeb.Reports.Worth

/-!
# The statements tie out

In a single-currency book of whole cents whose transactions balance, the balance sheet misses zero by
the balances of the trading accounts and of the root, which it leaves out, the trial balance by that of
the root, and the sections of the cash flow exceed the change of cash by the change of what they leave
out (`tie_out`).
-/

namespace Reports

open Ledger (AccountType WholeCents wholeCents_sum round2_of_wholeCents)
open Forest ListSums

/-! ## Single-currency books -/

structure SingleCurrency (quotes : Quotes) (book : Book) : Prop where
  forested : book.Forested
  currency : ∀ a ∈ book.accounts, ∀ g ∈ a.commodityGuid, ∀ base ∈ quotes.reportCurrencyGuid, g = base
  shown : ∀ a ∈ book.accounts, ¬a.hidden
  posted : ∀ tx ∈ book.transactions, ∀ s ∈ tx.splits,
    s.accountGuid ∈ book.accounts.map Account.guid
  cents : ∀ tx ∈ book.transactions, ∀ s ∈ tx.splits, s.quantity = s.value ∧ WholeCents s.value
  balanced : ∀ tx ∈ book.transactions, (tx.splits.map Split.value).sum = 0

def Book.posted (book : Book) (types : List AccountType) (inRange : ℤ → Bool) : ℚ :=
  ((book.selected types).map fun a => book.sumSplits Split.value inRange a.guid).sum

def unlisted : List AccountType := [.root, .currency]

variable {quotes : Quotes} {book : Book} {inRange : ℤ → Bool} {g : Guid}

/-! ## Sums of splits -/

theorem exists_of_mem_splitsIn {s : Split} (hs : s ∈ book.splitsIn inRange) :
    ∃ tx ∈ book.transactions, s ∈ tx.splits := by
  obtain ⟨tx, htx, hmem⟩ := List.mem_flatMap.1 hs
  split at hmem
  · exact ⟨tx, htx, hmem⟩
  · cases hmem

theorem posted_append {xs ys : List AccountType} (h : ∀ x ∈ xs, x ∉ ys) :
    book.posted (xs ++ ys) inRange = book.posted xs inRange + book.posted ys inRange :=
  sum_selected_append _ h

theorem posted_range {startDate endDate : ℤ} (h : startDate ≤ endDate) (types : List AccountType) :
    book.posted types (fun d => startDate ≤ d ∧ d ≤ endDate) =
      book.posted types (fun d => d ≤ endDate) - book.posted types fun d => d < startDate := by
  have hsplits (g : Guid) : book.sumSplits Split.value (fun d => d ≤ endDate) g =
      book.sumSplits Split.value (fun d => startDate ≤ d ∧ d ≤ endDate) g +
        book.sumSplits Split.value (fun d => d < startDate) g := by
    simp only [Book.sumSplits, Book.splitsIn, List.filter_flatMap, sum_flatMap]
    rw [← List.sum_map_add]
    congr 1
    refine List.map_congr_left fun tx _ => ?_
    cases tx.postDate with
    | none => simp
    | some d =>
      by_cases hstart : startDate ≤ d
      · simp [hstart, not_lt.2 hstart]
      · have hend : d ≤ endDate := (not_le.1 hstart).le.trans h
        simp [hstart, hend, not_le.1 hstart]
  simp only [Book.posted, hsplits, List.sum_map_add]
  ring

namespace SingleCurrency

variable (h : SingleCurrency quotes book)

include h

theorem sumSplits_quantity :
    book.sumSplits Split.quantity inRange g = book.sumSplits Split.value inRange g := by
  rw [Book.sumSplits, Book.sumSplits]
  congr 1
  refine List.map_congr_left fun s hs => ?_
  obtain ⟨tx, htx, hmem⟩ := exists_of_mem_splitsIn (List.mem_filter.1 hs).1
  exact (h.cents tx htx s hmem).1

theorem wholeCents_sumSplits : WholeCents (book.sumSplits Split.value inRange g) := by
  refine wholeCents_sum fun x hx => ?_
  obtain ⟨s, hs, rfl⟩ := List.mem_map.1 hx
  obtain ⟨tx, htx, hmem⟩ := exists_of_mem_splitsIn (List.mem_filter.1 hs).1
  exact (h.cents tx htx s hmem).2

theorem wholeCents_posted (types : List AccountType) : WholeCents (book.posted types inRange) := by
  refine wholeCents_sum fun x hx => ?_
  obtain ⟨a, -, rfl⟩ := List.mem_map.1 hx
  exact h.wholeCents_sumSplits

theorem posted_all {types : List AccountType} (htypes : ∀ x, x ∈ types) :
    book.posted types inRange = 0 := by
  have hselected : book.selected types = book.accounts :=
    List.filter_eq_self.2 fun a ha => decide_eq_true ⟨htypes _, h.shown a ha⟩
  have hsplit (s : Split) (hs : s ∈ book.splitsIn inRange) :
      (book.accounts.map fun a =>
        if decide (s.accountGuid = a.guid) = true then s.value else 0).sum = s.value := by
    obtain ⟨tx, htx, hmem⟩ := exists_of_mem_splitsIn hs
    have hsum := sum_ite_eq s.value h.forested.keys (h.posted tx htx s hmem)
    rw [List.map_map] at hsum
    refine (congrArg List.sum (List.map_congr_left fun a _ => ?_)).trans hsum
    exact if_congr (decide_eq_true_iff.trans eq_comm) rfl rfl
  have hsplits : ((book.splitsIn inRange).map Split.value).sum = 0 := by
    rw [Book.splitsIn, sum_flatMap]
    refine List.sum_eq_zero fun x hx => ?_
    obtain ⟨tx, htx, rfl⟩ := List.mem_map.1 hx
    split
    · exact h.balanced tx htx
    · rfl
  simp only [Book.posted, hselected, Book.sumSplits, sum_filter_map]
  rw [sum_comm, List.map_congr_left hsplit, hsplits]

theorem posted_eq_neg {xs ys : List AccountType} (hdisjoint : ∀ x ∈ xs, x ∉ ys)
    (hall : ∀ x, x ∈ xs ++ ys) : book.posted xs inRange = -book.posted ys inRange := by
  have hzero : book.posted (xs ++ ys) inRange = 0 := h.posted_all hall
  rw [posted_append hdisjoint] at hzero
  exact eq_neg_of_add_eq_zero_left hzero

theorem unvalued {a : Account} (ha : a ∈ sheetAccounts book) (endDate : ℤ) :
    (valuation quotes book endDate).getMultiplier a.toValuation = 1 ∧
      (valuation quotes book endDate).isConvertible a.toValuation := by
  have hmem : a ∈ book.accounts := (List.mem_filter.1 ha).1
  unfold valuation
  cases hreport : quotes.reportCurrencyGuid with
  | none => exact Valuation.faceOnly _ _
  | some base =>
    cases hg : a.commodityGuid with
    | none =>
      simp [Valuation.AccountValuationContext.getMultiplier,
        Valuation.AccountValuationContext.isConvertible, Account.toValuation, hg]
    | some g =>
      obtain rfl : g = base := h.currency a hmem g hg base hreport
      obtain ⟨first, -, hmultiplier, hconvertible⟩ := Valuation.context_eq
        (List.mem_map_of_mem (f := Account.toValuation) ha) (show _ = some g from hg)
      have hrate (t : ℤ) : Valuation.rateOf quotes.prices quotes.pivots t g g =
          some ⟨1, none⟩ := by
        rw [Valuation.rateOf, Valuation.getConversionRate, Valuation.getPairRate, if_pos rfl]
      rw [hmultiplier, hconvertible, hrate]
      simp

theorem sum_balanceAt (endDate : ℤ) {types : List AccountType}
    (hsub : ∀ x ∈ types, x ∈ assetTypes ++ liabilityTypes ++ equityTypes ++ INCOME_EXPENSE_TYPES) :
    ((book.selected types).map (balanceAt quotes book endDate)).sum =
      book.posted types fun d => d ≤ endDate := by
  rw [Book.posted]
  congr 1
  refine List.map_congr_left fun a ha => ?_
  rw [← selected_filter hsub] at ha
  rw [balanceAt, (h.unvalued (List.mem_filter.1 ha).1 endDate).1, mul_one, quantityAt,
    h.sumSplits_quantity]

theorem grandTotal_eq (endDate : ℤ) : (generateBalanceSheet quotes book endDate).grandTotal =
    some (-book.posted (.trading :: unlisted) fun d => d ≤ endDate) := by
  have hcomplete : coverageComplete quotes book endDate = true :=
    List.all_eq_true.2 fun a ha => by
      rw [(h.unvalued ha endDate).2, Bool.or_true]
  have hassets : ((buildHierarchy (sectionAccounts quotes book endDate assetTypes)
      book.resolveRootGuid).map LineItem.amount).sum =
        book.posted assetTypes fun d => d ≤ endDate :=
    (sum_section h.forested (by decide) (by decide) endDate).trans
      (h.sum_balanceAt endDate (by decide))
  have hnegated {types : List AccountType} (hroot : .root ∉ types) (hsub : ∀ x ∈ types,
      x ∈ assetTypes ++ liabilityTypes ++ equityTypes ++ INCOME_EXPENSE_TYPES) :
      (((buildHierarchy (sectionAccounts quotes book endDate types)
        book.resolveRootGuid).map negateItem).map LineItem.amount).sum =
          -book.posted types fun d => d ≤ endDate := by
    simp only [List.map_map, Function.comp_def, amount_negateItem]
    rw [sum_neg, sum_section h.forested hroot hsub, h.sum_balanceAt endDate hsub]
  have hretained : retainedEarnings quotes book endDate =
      -book.posted INCOME_EXPENSE_TYPES fun d => d ≤ endDate := by
    rw [retainedEarnings, sheetAccounts, selected_filter (by decide),
      h.sum_balanceAt endDate (by decide)]
  -- A row that is not shown is worth nothing.
  have hrow : (if 5 / 1000 < |retainedEarnings quotes book endDate| then
      some (retainedEarnings quotes book endDate) else none).getD 0 =
        -book.posted INCOME_EXPENSE_TYPES fun d => d ≤ endDate := by
    rw [hretained]
    split
    · rfl
    · next hsmall =>
        exact ((h.wholeCents_posted _).neg.eq_zero_of_small (not_lt.1 hsmall)).symm
  have hparts : book.posted (assetTypes ++ liabilityTypes ++ equityTypes ++ INCOME_EXPENSE_TYPES)
      (fun d => d ≤ endDate) = -book.posted (.trading :: unlisted) fun d => d ≤ endDate :=
    h.posted_eq_neg (by decide) fun x => by cases x <;> decide
  rw [posted_append (by decide), posted_append (by decide), posted_append (by decide)] at hparts
  simp only [generateBalanceSheet, hcomplete, if_true, hassets, hrow,
    @hnegated liabilityTypes (by decide) (by decide),
    @hnegated equityTypes (by decide) (by decide), Option.some_inj]
  linarith

end SingleCurrency

theorem columns_eq (accountType : AccountType) (rawBalance : ℚ) :
    columns accountType rawBalance = (max rawBalance 0, max (-rawBalance) 0) := by
  unfold columns
  rcases le_total 0 rawBalance with hpos | hneg
  · by_cases hzero : rawBalance ≤ 0
    · simp [le_antisymm hzero hpos]
    · simp [hpos, hzero]
  · by_cases hzero : 0 ≤ rawBalance
    · simp [le_antisymm hneg hzero]
    · simp [hneg, hzero, abs_of_nonpos hneg]

namespace SingleCurrency

variable (h : SingleCurrency quotes book)

include h

theorem trialEntry_eq (showZeroBalances : Bool) (endDate : ℤ) (a : Account) :
    ((trialEntry book showZeroBalances endDate a).map TrialBalanceEntry.debit).getD 0 =
        max (book.sumSplits Split.value (fun d => d ≤ endDate) a.guid) 0 ∧
      ((trialEntry book showZeroBalances endDate a).map TrialBalanceEntry.credit).getD 0 =
        max (-book.sumSplits Split.value (fun d => d ≤ endDate) a.guid) 0 := by
  have hcents : WholeCents (book.sumSplits Split.value (fun d => d ≤ endDate) a.guid) :=
    h.wholeCents_sumSplits
  simp only [trialEntry, columns_eq]
  split
  · next hsmall =>
      have hzero := hcents.eq_zero_of_small hsmall.1.le
      simp [hzero]
  · exact ⟨round2_of_wholeCents hcents.max_zero, round2_of_wholeCents hcents.neg.max_zero⟩

theorem trialBalance_eq (showZeroBalances : Bool) (endDate : ℤ) :
    (generateTrialBalance book showZeroBalances endDate).totalDebits -
      (generateTrialBalance book showZeroBalances endDate).totalCredits =
        -book.posted unlisted fun d => d ≤ endDate := by
  have hdebits : (generateTrialBalance book showZeroBalances endDate).totalDebits =
      ((book.selected ALL_ACCOUNT_TYPES).map fun a =>
        max (book.sumSplits Split.value (fun d => d ≤ endDate) a.guid) 0).sum := by
    simp only [generateTrialBalance, sum_filterMap, (h.trialEntry_eq showZeroBalances endDate _).1]
    refine round2_of_wholeCents (wholeCents_sum fun x hx => ?_)
    obtain ⟨a, -, rfl⟩ := List.mem_map.1 hx
    exact h.wholeCents_sumSplits.max_zero
  have hcredits : (generateTrialBalance book showZeroBalances endDate).totalCredits =
      ((book.selected ALL_ACCOUNT_TYPES).map fun a =>
        max (-book.sumSplits Split.value (fun d => d ≤ endDate) a.guid) 0).sum := by
    simp only [generateTrialBalance, sum_filterMap, (h.trialEntry_eq showZeroBalances endDate _).2]
    refine round2_of_wholeCents (wholeCents_sum fun x hx => ?_)
    obtain ⟨a, -, rfl⟩ := List.mem_map.1 hx
    exact h.wholeCents_sumSplits.neg.max_zero
  have hbalance : book.posted ALL_ACCOUNT_TYPES (fun d => d ≤ endDate) =
      -book.posted unlisted fun d => d ≤ endDate :=
    h.posted_eq_neg (by decide) fun x => by cases x <;> decide
  rw [hdebits, hcredits, ← hbalance, Book.posted, sub_eq_iff_eq_add, ← List.sum_map_add]
  congr 1
  refine List.map_congr_left fun a _ => ?_
  generalize book.sumSplits Split.value (fun d => d ≤ endDate) a.guid = balance
  rcases le_total 0 balance with hpos | hneg
  · rw [max_eq_left hpos, max_eq_right (neg_nonpos.2 hpos), add_zero]
  · rw [max_eq_right hneg, max_eq_left (neg_nonneg.2 hneg), add_neg_cancel]

theorem sum_accountChanges (showZeroBalances : Bool) {category : CashFlowCategory}
    {types : List AccountType}
    (htypes : ∀ x, getCashFlowCategory x = some category ↔ x ∈ types) :
    (accountChanges book showZeroBalances inRange category).sum = book.posted types inRange := by
  have hselected : (book.accounts.filter fun a =>
      ¬a.hidden ∧ getCashFlowCategory a.accountType = some category) = book.selected types := by
    refine List.filter_congr fun a _ => decide_eq_decide.2 ?_
    rw [htypes, and_comm]
  have hkept (changes : List ℚ) :
      (changes.filter fun change => change ≠ 0 ∨ showZeroBalances).sum = changes.sum := by
    induction changes with
    | nil => rfl
    | cons change rest ih =>
      by_cases hchange : change = 0
      · cases showZeroBalances <;> simp_all
      · simp_all
  rw [accountChanges, hkept, hselected, Book.posted]
  congr 1
  refine List.map_congr_left fun a _ => ?_
  rw [netChange, h.sumSplits_quantity, ite_self]

theorem cashFlow_eq (showZeroBalances : Bool) (startDate endDate : ℤ) :
    let flow := generateCashFlow book showZeroBalances startDate endDate
    let inRange : ℤ → Bool := fun d => startDate ≤ d ∧ d ≤ endDate
    flow.totalOperating + flow.totalInvesting + flow.totalFinancing =
      book.posted [.bank, .cash] inRange + book.posted (.trading :: unlisted) inRange := by
  intro flow inRange
  have hnegated {category : CashFlowCategory} {types : List AccountType}
      (htypes : ∀ x, getCashFlowCategory x = some category ↔ x ∈ types) :
      ((accountChanges book showZeroBalances inRange category).map fun change => -change).sum =
        -book.posted types inRange := by
    rw [sum_neg, List.map_id', h.sum_accountChanges showZeroBalances htypes]
  have hoperating : flow.totalOperating =
      -book.posted [.income, .expense, .receivable, .payable] inRange :=
    hnegated fun x => by cases x <;> decide
  have hinvesting : flow.totalInvesting = -book.posted [.stock, .mutual, .asset] inRange :=
    hnegated fun x => by cases x <;> decide
  have hfinancing : flow.totalFinancing = -book.posted [.liability, .credit, .equity] inRange :=
    hnegated fun x => by cases x <;> decide
  have hall : book.posted ([.bank, .cash] ++ (.trading :: unlisted) ++
      [.income, .expense, .receivable, .payable] ++ [.stock, .mutual, .asset] ++
      [.liability, .credit, .equity]) inRange = 0 :=
    h.posted_all fun x => by cases x <;> decide
  rw [posted_append (by decide), posted_append (by decide), posted_append (by decide),
    posted_append (by decide)] at hall
  rw [hoperating, hinvesting, hfinancing]
  linarith

end SingleCurrency

/-! ## All statements -/

/-- The change of the balances of the accounts of some types over a range. -/
def Book.change (book : Book) (types : List AccountType) (startDate endDate : ℤ) : ℚ :=
  book.posted types (fun d => d ≤ endDate) - book.posted types fun d => d < startDate

/-- The statements of a single-currency book tie out up to what they leave out, and the hierarchy that
they share neither drops a balance nor counts it twice. -/
theorem tie_out :
    (∀ (quotes : Quotes) (book : Book), SingleCurrency quotes book →
      (∀ endDate, (generateBalanceSheet quotes book endDate).grandTotal =
        some (-book.posted (.trading :: unlisted) fun d => d ≤ endDate)) ∧
      (∀ showZeroBalances endDate,
        (generateTrialBalance book showZeroBalances endDate).totalDebits -
          (generateTrialBalance book showZeroBalances endDate).totalCredits =
            -book.posted unlisted fun d => d ≤ endDate) ∧
      ∀ showZeroBalances startDate endDate, startDate ≤ endDate →
        let flow := generateCashFlow book showZeroBalances startDate endDate
        flow.totalOperating + flow.totalInvesting + flow.totalFinancing =
          book.change [.bank, .cash] startDate endDate +
            book.change (.trading :: unlisted) startDate endDate) ∧
      ∀ (accounts : List AccountWithBalance) (p : AccountWithBalance → Bool)
        (parentGuid : Option Guid), IsForest accounts →
        (∀ g ∈ parentGuid, g ∉ (accounts.filter p).map AccountWithBalance.guid) →
        ((buildHierarchy (accounts.filter p) parentGuid).map LineItem.amount).sum =
            ((accounts.filter p).map AccountWithBalance.balance).sum ∧
          (LineItem.guidsOf (buildHierarchy (accounts.filter p) parentGuid)).Perm
            ((accounts.filter p).map AccountWithBalance.guid) := by
  refine ⟨fun quotes book h => ⟨h.grandTotal_eq, h.trialBalance_eq, ?_⟩,
    fun accounts p parentGuid hforest hroot => hierarchy_exact hforest p hroot⟩
  intro showZeroBalances startDate endDate hle flow
  rw [h.cashFlow_eq, posted_range hle, posted_range hle]
  rfl

def groceries : Book where
  accounts := [⟨1, .root, none, none, none, false⟩,
    ⟨2, .bank, some 1, some 0, some Valuation.CURRENCY, false⟩,
    ⟨3, .credit, some 1, some 0, some Valuation.CURRENCY, false⟩,
    ⟨4, .expense, some 1, some 0, some Valuation.CURRENCY, false⟩]
  transactions := [⟨some 1, [⟨3, -30, -30⟩, ⟨4, 30, 30⟩]⟩, ⟨some 2, [⟨2, -30, -30⟩, ⟨3, 30, 30⟩]⟩]

def noQuotes : Quotes := ⟨[], [], some 0⟩

theorem singleCurrency_groceries : SingleCurrency noQuotes groceries :=
  ⟨Book.forested_of_lt (by decide) (by decide), by decide, by decide, by decide, by decide +kernel,
    by decide +kernel⟩

theorem tie_out_groceries :
    (generateBalanceSheet noQuotes groceries 3).grandTotal =
        some (-groceries.posted (.trading :: unlisted) fun d => d ≤ 3) ∧
      (let flow := generateCashFlow groceries false 0 3
      flow.totalOperating + flow.totalInvesting + flow.totalFinancing =
        groceries.change [.bank, .cash] 0 3 + groceries.change (.trading :: unlisted) 0 3) ∧
      ((buildHierarchy ((sectionAccounts noQuotes groceries 3 assetTypes).filter fun _ => true)
        groceries.resolveRootGuid).map LineItem.amount).sum =
          (((sectionAccounts noQuotes groceries 3 assetTypes).filter fun _ => true).map
            AccountWithBalance.balance).sum := by
  obtain ⟨hsheet, -, hflow⟩ := tie_out.1 noQuotes groceries singleCurrency_groceries
  exact ⟨hsheet 3, hflow false 0 3 (by decide),
    (tie_out.2 _ _ _ (forest_section singleCurrency_groceries.forested assetTypes 3)
      (by decide +kernel)).1⟩

def traded : Book where
  accounts := [⟨1, .root, none, none, none, false⟩,
    ⟨2, .bank, some 1, some 0, some Valuation.CURRENCY, false⟩,
    ⟨3, .trading, some 1, some 0, some Valuation.CURRENCY, false⟩]
  transactions := [⟨some 1, [⟨2, 100, 100⟩, ⟨3, -100, -100⟩]⟩]

theorem singleCurrency_traded : SingleCurrency noQuotes traded :=
  ⟨Book.forested_of_lt (by decide) (by decide), by decide, by decide, by decide, by decide +kernel,
    by decide +kernel⟩

theorem traded_not_tied :
    ¬ ∀ (quotes : Quotes) (book : Book), SingleCurrency quotes book →
      (∀ endDate, (generateBalanceSheet quotes book endDate).grandTotal = some 0) ∧
        (∀ showZeroBalances endDate,
          (generateTrialBalance book showZeroBalances endDate).totalDebits =
            (generateTrialBalance book showZeroBalances endDate).totalCredits) ∧
        ∀ showZeroBalances startDate endDate, startDate ≤ endDate →
          let flow := generateCashFlow book showZeroBalances startDate endDate
          flow.totalOperating + flow.totalInvesting + flow.totalFinancing =
            book.change [.bank, .cash] startDate endDate := by
  intro h
  have hsheet := (h noQuotes traded singleCurrency_traded).1 1
  have hgrand : (generateBalanceSheet noQuotes traded 1).grandTotal = some 100 := by decide +kernel
  rw [hgrand] at hsheet
  exact absurd (Option.some.inj hsheet) (by norm_num)

end Reports
