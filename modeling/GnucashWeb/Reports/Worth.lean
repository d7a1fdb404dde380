import GnucashWeb.Reports.NetWorth

/-!
# The worth of the counted accounts

The balance sheet and the financial summary both come to the quantities of the accounts that net worth
counts, each times what a unit is worth (`sheet_worth`, `summary_worth`), where the accounts of one
commodity are valued alike.
-/

namespace Reports

open Ledger (AccountType)
open Forest ListSums

/-! ## Conditions -/

/-- The cutoff of the balance sheet, `T23:59:59Z`. -/
def lastSecond (day : ℤ) : ℤ := day * NetWorth.msPerDay + 86399000

structure WholeSeconds (quotes : Quotes) (book : Book) : Prop where
  posts : ∀ tx ∈ book.transactions, ∀ d ∈ tx.postDate, (1000 : ℤ) ∣ d
  prices : ∀ p ∈ quotes.prices, (1000 : ℤ) ∣ p.date

/-- Distinct accounts that are not above themselves. -/
structure Book.Forested (book : Book) : Prop where
  keys : (book.accounts.map Account.guid).Nodup
  acyclic : Acyclic fun g =>
    (book.accounts.find? fun a => a.guid = g).bind Account.parentGuid

/-- Accounts of one commodity are all valued by its rate or all at their face. -/
def ValuedAlike (book : Book) : Prop :=
  ∀ a ∈ sheetAccounts book, ∀ b ∈ sheetAccounts book, ∀ g ∈ a.commodityGuid,
    b.commodityGuid = some g → (Valuation.Rated a.toValuation ↔ Valuation.Rated b.toValuation)

instance (book : Book) : Decidable (ValuedAlike book) := by
  unfold ValuedAlike
  infer_instance

def netWorthTypes : List AccountType := assetTypes ++ liabilityTypes

def HasPosts (book : Book) (t : ℤ) (a : Account) : Prop :=
  ∃ tx ∈ book.transactions, ∃ d ∈ tx.postDate, d ≤ t ∧ ∃ s ∈ tx.splits, s.accountGuid = a.guid

variable {quotes : Quotes} {book : Book} {s t : ℤ}

theorem Book.forested_of_lt (hkeys : (book.accounts.map Account.guid).Nodup)
    (h : ∀ a ∈ book.accounts, ∀ p ∈ a.parentGuid, p < a.guid) : book.Forested := by
  refine ⟨hkeys, acyclic_of_lt id fun g p hparent => ?_⟩
  obtain ⟨a, ha, hp⟩ := Option.bind_eq_some_iff.1 hparent
  have hfound := List.find?_some ha
  have hguid : a.guid = g := of_decide_eq_true hfound
  rw [← hguid]
  exact h a (List.mem_of_find?_eq_some ha) p hp

structure SameDates (quotes : Quotes) (book : Book) (s t : ℤ) : Prop where
  posts : ∀ tx ∈ book.transactions, ∀ d ∈ tx.postDate, (d ≤ s ↔ d ≤ t)
  prices : ∀ p ∈ quotes.prices, (p.date ≤ s ↔ p.date ≤ t)

theorem WholeSeconds.sameDates (h : WholeSeconds quotes book) {day : ℤ} (hs : lastSecond day ≤ s)
    (hs' : s ≤ NetWorth.endOfDay day) (ht : lastSecond day ≤ t) (ht' : t ≤ NetWorth.endOfDay day) :
    SameDates quotes book s t := by
  have hdated (d : ℤ) (hd : (1000 : ℤ) ∣ d) : d ≤ s ↔ d ≤ t := by
    obtain ⟨k, rfl⟩ := hd
    simp only [lastSecond, NetWorth.endOfDay, NetWorth.msPerDay] at hs hs' ht ht'
    omega
  exact ⟨fun tx htx d hd => hdated d (h.posts tx htx d hd), fun p hp => hdated _ (h.prices p hp)⟩

theorem sumSplits_congr {p q : ℤ → Bool} (f : Split → ℚ) (g : Guid)
    (h : ∀ tx ∈ book.transactions, ∀ d ∈ tx.postDate, p d = q d) :
    book.sumSplits f p g = book.sumSplits f q g := by
  have hsplits : book.splitsIn p = book.splitsIn q := by
    refine List.flatMap_congr fun tx htx => ?_
    cases hd : tx.postDate with
    | none => rfl
    | some d => simp [h tx htx d hd]
  rw [Book.sumSplits, hsplits, Book.sumSplits]

theorem rateOf_dates (h : SameDates quotes book s t) (pivots : List Guid) (base g : Guid) :
    Valuation.rateOf quotes.prices pivots s base g =
      Valuation.rateOf quotes.prices pivots t base g := by
  have hpairs (guids : List Guid) : Valuation.loadLatestPricePairs quotes.prices guids s =
      Valuation.loadLatestPricePairs quotes.prices guids t := by
    funext a b
    simp only [Valuation.loadLatestPricePairs]
    congr 2
    refine List.filter_congr fun p hp => ?_
    rw [decide_eq_decide, h.prices p hp]
  rw [Valuation.rateOf, hpairs, Valuation.rateOf]

/-- What an account is multiplied by, whatever the other accounts are. -/
def multiplierAt (quotes : Quotes) (t : ℤ) (a : Account) : ℚ :=
  match quotes.reportCurrencyGuid, a.commodityGuid with
  | some base, some g =>
    if Valuation.Rated a.toValuation then
      (Valuation.rateOf quotes.prices quotes.pivots t base g).elim 0 Valuation.DatedRate.rate
    else 1
  | _, _ => 1

variable {a : Account} {types : List AccountType}

theorem getMultiplier_eq {accounts : List Account} (ha : a ∈ accounts)
    (halike : ∀ b ∈ accounts, ∀ g, a.commodityGuid = some g → b.commodityGuid = some g →
      (Valuation.Rated a.toValuation ↔ Valuation.Rated b.toValuation)) (t : ℤ) :
    (Valuation.buildAccountValuationContext quotes.prices quotes.pivots
      (accounts.map Account.toValuation) t quotes.reportCurrencyGuid).getMultiplier a.toValuation =
        multiplierAt quotes t a := by
  unfold multiplierAt
  cases hreport : quotes.reportCurrencyGuid with
  | none => exact (Valuation.faceOnly _ _).1
  | some base =>
    cases hg : a.commodityGuid with
    | none => simp [Valuation.AccountValuationContext.getMultiplier, Account.toValuation, hg]
    | some g =>
      obtain ⟨first, hfirst, hmultiplier, -⟩ := Valuation.context_eq
        (List.mem_map_of_mem (f := Account.toValuation) ha) (show _ = some g from hg)
      obtain ⟨b, hb, rfl⟩ := List.mem_map.1 (List.mem_of_find?_eq_some hfirst)
      have hfound := List.find?_some hfirst
      have hbg : b.commodityGuid = some g := of_decide_eq_true hfound
      rw [hmultiplier]
      simp only [halike b hb g hg hbg]

theorem multiplierAt_dates (h : SameDates quotes book s t) (a : Account) :
    multiplierAt quotes s a = multiplierAt quotes t a := by
  unfold multiplierAt
  cases quotes.reportCurrencyGuid with
  | none => rfl
  | some base =>
    cases a.commodityGuid with
    | none => rfl
    | some g => simp only [rateOf_dates h]

/-! ## Sums over accounts -/

/-- The quantities of the accounts that net worth counts, each times what a unit is worth. -/
def worth (book : Book) (t : ℤ) (unit : Account → ℚ) : ℚ :=
  ((book.selected netWorthTypes).map fun a => quantityAt book t a * unit a).sum

theorem selected_filter {more : List AccountType} (h : ∀ x ∈ types, x ∈ more) :
    (book.selected more).filter (fun a => a.accountType ∈ types) = book.selected types := by
  rw [Book.selected, Book.selected, List.filter_filter]
  refine List.filter_congr fun a _ => ?_
  rw [← Bool.decide_and, decide_eq_decide]
  exact ⟨fun ⟨htype, _, hhidden⟩ => ⟨htype, hhidden⟩,
    fun ⟨htype, hhidden⟩ => ⟨htype, h _ htype, hhidden⟩⟩

theorem selected_congr {types' : List AccountType} (h : ∀ x, x ∈ types ↔ x ∈ types') :
    book.selected types = book.selected types' := by
  rw [Book.selected, Book.selected]
  exact List.filter_congr fun a _ => decide_eq_decide.2 (and_congr_left' (h _))

theorem sum_selected_append (f : Account → ℚ) {xs ys : List AccountType}
    (h : ∀ x ∈ xs, x ∉ ys) :
    ((book.selected (xs ++ ys)).map f).sum =
      ((book.selected xs).map f).sum + ((book.selected ys).map f).sum := by
  simp only [Book.selected, sum_filter_map]
  rw [← List.sum_map_add]
  congr 1
  refine List.map_congr_left fun a _ => ?_
  by_cases hx : a.accountType ∈ xs
  · simp [hx, h _ hx]
  · simp [hx]

theorem quantityAt_dates (h : SameDates quotes book s t) (a : Account) :
    quantityAt book s a = quantityAt book t a :=
  sumSplits_congr _ _ fun tx htx d hd => decide_eq_decide.2 (h.posts tx htx d hd)

theorem worth_dates (h : SameDates quotes book s t) :
    worth book s (multiplierAt quotes s) = worth book t (multiplierAt quotes t) := by
  simp only [worth, quantityAt_dates h, multiplierAt_dates h]

theorem quantityAt_eq_zero (h : ¬HasPosts book t a) : quantityAt book t a = 0 := by
  refine List.sum_eq_zero fun x hx => ?_
  obtain ⟨s, hs, rfl⟩ := List.mem_map.1 hx
  obtain ⟨hmem, hguid⟩ := List.mem_filter.1 hs
  obtain ⟨tx, htx, hsplit⟩ := List.mem_flatMap.1 hmem
  split at hsplit
  · next hdate =>
      obtain ⟨d, hd, hle⟩ := (Option.any_eq_true _ _).1 hdate
      exact absurd ⟨tx, htx, d, hd, of_decide_eq_true hle, s, hsplit, of_decide_eq_true hguid⟩ h
  · cases hsplit

theorem worth_congr {unit unit' : Account → ℚ}
    (h : ∀ a ∈ book.selected netWorthTypes, HasPosts book t a → unit a = unit' a) :
    worth book t unit = worth book t unit' := by
  unfold worth
  congr 1
  refine List.map_congr_left fun a ha => ?_
  by_cases hposts : HasPosts book t a
  · rw [h a ha hposts]
  · rw [quantityAt_eq_zero hposts, zero_mul, zero_mul]

/-! ## The balance sheet and the summary -/

section Sheet

variable (hforest : book.Forested)

include hforest

theorem forest_section (types : List AccountType) (endDate : ℤ) :
    IsForest (sectionAccounts quotes book endDate types) := by
  have hall : IsForest (book.accounts.map (withBalance (balanceAt quotes book endDate))) := by
    refine ⟨?_, ?_⟩
    · rw [List.map_map]
      exact hforest.keys
    · have hparent : parentOf (book.accounts.map (withBalance (balanceAt quotes book endDate))) =
          fun g => (book.accounts.find? fun a => a.guid = g).bind Account.parentGuid := by
        funext g
        rw [parentOf, List.find?_map, Option.bind_map]
        rfl
      rw [hparent]
      exact hforest.acyclic
  exact hall.sublist ((List.filter_sublist.trans List.filter_sublist).map _)

theorem root_notMem (types : List AccountType) (htypes : .root ∉ types) (endDate : ℤ) :
    ∀ g ∈ book.resolveRootGuid,
      g ∉ (sectionAccounts quotes book endDate types).map AccountWithBalance.guid := by
  intro g hg hmem
  obtain ⟨root, hroot, rfl⟩ := Option.map_eq_some_iff.1 hg
  have hfound := List.find?_some hroot
  have htype : root.accountType = .root := of_decide_eq_true hfound
  obtain ⟨x, hx, hguid⟩ := List.mem_map.1 hmem
  obtain ⟨a, ha, rfl⟩ := List.mem_map.1 hx
  obtain ⟨hsheet, hin⟩ := List.mem_filter.1 ha
  have haroot : a = root := List.inj_on_of_nodup_map hforest.keys (List.mem_filter.1 hsheet).1
    (List.mem_of_find?_eq_some hroot) hguid
  rw [haroot, htype] at hin
  exact htypes (of_decide_eq_true hin)

theorem sum_section (htypes : .root ∉ types)
    (hsub : ∀ x ∈ types, x ∈ assetTypes ++ liabilityTypes ++ equityTypes ++ INCOME_EXPENSE_TYPES)
    (endDate : ℤ) :
    ((buildHierarchy (sectionAccounts quotes book endDate types)
      book.resolveRootGuid).map LineItem.amount).sum =
        ((book.selected types).map (balanceAt quotes book endDate)).sum := by
  rw [sum_buildHierarchy (forest_section hforest types endDate)
    (root_notMem hforest types htypes endDate), sectionAccounts, List.map_map, sheetAccounts,
    selected_filter hsub]
  rfl

end Sheet

theorem balanceAt_eq (halike : ValuedAlike book) (endDate : ℤ)
    (ha : a ∈ sheetAccounts book) : balanceAt quotes book endDate a =
      quantityAt book endDate a * multiplierAt quotes endDate a := by
  rw [balanceAt, valuation, getMultiplier_eq ha (halike a ha)]

theorem sum_balances (halike : ValuedAlike book) (endDate : ℤ)
    (hsub : ∀ x ∈ types, x ∈ assetTypes ++ liabilityTypes ++ equityTypes ++ INCOME_EXPENSE_TYPES) :
    ((book.selected types).map (balanceAt quotes book endDate)).sum =
      ((book.selected types).map fun a =>
        quantityAt book endDate a * multiplierAt quotes endDate a).sum := by
  congr 1
  refine List.map_congr_left fun a ha => balanceAt_eq halike endDate ?_
  rw [← selected_filter hsub] at ha
  exact (List.mem_filter.1 ha).1

@[simp] theorem amount_negateItem (item : LineItem) : (negateItem item).amount = -item.amount := by
  cases item
  rfl

theorem sheet_worth (hforest : book.Forested) (halike : ValuedAlike book) (endDate : ℤ) :
    (generateBalanceSheet quotes book endDate).totalAssets -
      (generateBalanceSheet quotes book endDate).totalLiabilities =
        worth book endDate (multiplierAt quotes endDate) := by
  have hassets : (generateBalanceSheet quotes book endDate).totalAssets =
      ((book.selected assetTypes).map fun a =>
        quantityAt book endDate a * multiplierAt quotes endDate a).sum :=
    (sum_section hforest (by decide) (by decide) endDate).trans
      (sum_balances halike endDate (by decide))
  have hliabilities : (generateBalanceSheet quotes book endDate).totalLiabilities =
      -((book.selected liabilityTypes).map fun a =>
        quantityAt book endDate a * multiplierAt quotes endDate a).sum := by
    simp only [generateBalanceSheet, List.map_map, Function.comp_def, amount_negateItem]
    rw [sum_neg, sum_section hforest (by decide) (by decide),
      sum_balances halike endDate (by decide)]
  rw [hassets, hliabilities, sub_neg_eq_add, worth, netWorthTypes,
    sum_selected_append _ (by decide)]

theorem accounts_sub : ∀ a ∈ FinancialSummary.accounts book, a ∈ sheetAccounts book := by
  intro a ha
  obtain ⟨hmem, hcond⟩ := List.mem_filter.1 ha
  obtain ⟨htype, hhidden⟩ := of_decide_eq_true hcond
  refine List.mem_filter.2 ⟨hmem, decide_eq_true ⟨?_, hhidden⟩⟩
  revert htype
  cases a.accountType <;> decide

theorem sum_summary (halike : ValuedAlike book) (endDate : ℤ)
    (hsub : ∀ x ∈ types, x ∈ FinancialSummary.ASSET_TYPES ++ FinancialSummary.LIABILITY_TYPES ++
      FinancialSummary.INVESTMENT_TYPES) :
    FinancialSummary.totalOf quotes book endDate endDate types =
      ((book.selected types).map fun a =>
        quantityAt book endDate a * multiplierAt quotes endDate a).sum := by
  have hquantity (a : Account) :
      FinancialSummary.quantityByAccount book endDate endDate a = quantityAt book endDate a :=
    sumSplits_congr _ _ fun _ _ _ _ => decide_eq_decide.2 (and_self_iff)
  rw [FinancialSummary.totalOf, FinancialSummary.accounts, selected_filter hsub]
  congr 1
  refine List.map_congr_left fun a ha => ?_
  rw [← selected_filter hsub] at ha
  have hmem : a ∈ FinancialSummary.accounts book := (List.mem_filter.1 ha).1
  rw [hquantity, FinancialSummary.valuation, getMultiplier_eq hmem fun b hb =>
    halike a (accounts_sub a hmem) b (accounts_sub b hb)]

theorem summary_worth (halike : ValuedAlike book) (startDate endDate : ℤ) :
    (FinancialSummary.computeNetWorthSummary quotes book startDate endDate).atEnd.netWorth =
      worth book endDate (multiplierAt quotes endDate) := by
  have htypes : book.selected netWorthTypes = book.selected (FinancialSummary.ASSET_TYPES ++
      FinancialSummary.INVESTMENT_TYPES ++ FinancialSummary.LIABILITY_TYPES) :=
    selected_congr fun x => by cases x <;> decide
  rw [worth, htypes, sum_selected_append _ (by decide), sum_selected_append _ (by decide),
    ← sum_summary halike endDate (by decide), ← sum_summary halike endDate (by decide),
    ← sum_summary halike endDate (by decide)]
  rfl

end Reports
