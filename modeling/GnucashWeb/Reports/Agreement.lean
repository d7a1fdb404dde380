import GnucashWeb.NetWorth.PeriodEnd
import GnucashWeb.Reports.Worth

/-!
# Net worth across the reports

The balance sheet and the financial summary agree on every book whose accounts of one commodity are
valued alike.  The time machine agrees with them where cash and debts are in the report currency and
holdings are quoted in it, and the attribution where, besides, no hidden account has a balance
(`netWorth_agrees`).
-/

namespace Reports

open Ledger (AccountType)
open Forest ListSums

/-! ## Books at home -/

/-- The one price of a commodity that is the latest at an instant. -/
structure IsQuote (quotes : Quotes) (t : ℤ) (g : Guid) (p : Valuation.PriceRow) : Prop where
  mem : p ∈ quotes.rowsOf g
  date : p.date ≤ t
  positive : 0 < p.value.toDecimalNumber
  latest : ∀ q ∈ quotes.rowsOf g, q.date ≤ t → q = p ∨ q.date < p.date

/-- A holding of a security whose latest price is in the base currency. -/
structure Held (quotes : Quotes) (base : Guid) (t : ℤ) (a : Account) (g : Guid)
    (p : Valuation.PriceRow) : Prop where
  commodity : a.commodityGuid = some g
  ne_base : g ≠ base
  fund : a.accountType = .stock ∨ a.accountType = .mutual
  security : a.commodityNamespace ≠ some Valuation.CURRENCY
  quote : IsQuote quotes t g p
  quoted : p.currencyGuid = base

def InBase (base : Guid) (a : Account) : Prop :=
  a.commodityGuid = some base ∧ a.commodityNamespace = some Valuation.CURRENCY

/-- Cash and debts are in the base currency, and holdings are quoted in it. -/
structure AtHome (quotes : Quotes) (book : Book) (base : Guid) (t : ℤ) : Prop where
  report : quotes.reportCurrencyGuid = some base
  accounts : ∀ a ∈ book.accounts, a.accountType ∈ netWorthTypes → HasPosts book t a →
    InBase base a ∨ ∃ g p, Held quotes base t a g p

variable {quotes : Quotes} {book : Book} {base : Guid} {t : ℤ}

theorem latest_concat (rows : List Valuation.PriceRow) (r : Valuation.PriceRow) :
    Valuation.latest (rows ++ [r]) =
      if (Valuation.latest rows).any fun b => r.date ≤ b.date then Valuation.latest rows
      else some r := by
  rw [Valuation.latest, List.foldl_concat]
  rfl

theorem mem_of_latest {rows : List Valuation.PriceRow} {p : Valuation.PriceRow}
    (h : Valuation.latest rows = some p) : p ∈ rows := by
  induction rows using List.reverseRecOn with
  | nil => cases h
  | append_singleton rows r ih =>
    rw [latest_concat] at h
    split at h
    · exact List.mem_append_left _ (ih h)
    · cases h
      simp

theorem latest_eq {rows : List Valuation.PriceRow} {p : Valuation.PriceRow} (hp : p ∈ rows)
    (h : ∀ q ∈ rows, q = p ∨ q.date < p.date) : Valuation.latest rows = some p := by
  induction rows using List.reverseRecOn with
  | nil => cases hp
  | append_singleton rows r ih =>
    have hrows (q : Valuation.PriceRow) (hq : q ∈ rows) : q = p ∨ q.date < p.date :=
      h q (List.mem_append_left _ hq)
    have hr := h r (by simp)
    rw [latest_concat]
    by_cases hmem : p ∈ rows
    · rw [ih hmem hrows, if_pos]
      rcases hr with rfl | hlt
      · simp
      · simpa using hlt.le
    · have hrp : p = r := by simpa [hmem] using hp
      subst hrp
      rw [if_neg]
      intro hany
      obtain ⟨b, hb, hle⟩ := (Option.any_eq_true _ _).1 hany
      have hbmem := mem_of_latest hb
      rcases hrows b hbmem with rfl | hlt
      · exact hmem hbmem
      · exact absurd (of_decide_eq_true hle) (not_le.2 hlt)

theorem priceAsOf_eq {points : List NetWorth.PricePoint} {t : ℤ} {p : NetWorth.PricePoint}
    (hsorted : points.Pairwise fun p q => q.date ≤ p.date) (hp : p ∈ points) (hdate : p.date ≤ t)
    (h : ∀ q ∈ points, q.date ≤ t → q = p ∨ q.date < p.date) :
    NetWorth.priceAsOf points t = p.value := by
  have hfind : points.find? (fun q => q.date ≤ t) = some p := by
    induction points with
    | nil => cases hp
    | cons q rest ih =>
      rw [List.pairwise_cons] at hsorted
      by_cases hq : q.date ≤ t
      · rw [List.find?_cons_of_pos (by simpa using hq)]
        rcases h q List.mem_cons_self hq with rfl | hlt
        · rfl
        · rcases List.mem_cons.1 hp with rfl | hmem
          · rfl
          · exact absurd (hsorted.1 p hmem) (not_le.2 hlt)
      · rw [List.find?_cons_of_neg (by simpa using hq)]
        have hmem : p ∈ rest := by
          rcases List.mem_cons.1 hp with rfl | hmem
          · exact absurd hdate hq
          · exact hmem
        exact ih hsorted.2 hmem fun x hx => h x (List.mem_cons_of_mem _ hx)
  unfold NetWorth.priceAsOf
  cases hlast : points.getLast? with
  | none =>
    rw [List.getLast?_eq_none_iff] at hlast
    rw [hlast] at hp
    cases hp
  | some last => simp [hfind]

namespace Held

variable {a : Account} {g : Guid} {p : Valuation.PriceRow}

theorem multiplier (hreport : quotes.reportCurrencyGuid = some base)
    (h : Held quotes base t a g p) : multiplierAt quotes t a = p.value.toDecimalNumber := by
  obtain ⟨hmem, hpcond⟩ := List.mem_filter.1 h.quote.mem
  obtain ⟨hcommodity, hnum⟩ := of_decide_eq_true hpcond
  have hrated : Valuation.Rated a.toValuation := by
    refine .inl ?_
    rcases h.fund with hfund | hfund <;>
      simp [Valuation.isInvestmentAccount, Account.toValuation, hfund, h.commodity, h.security]
  have hrate : Valuation.rateOf quotes.prices quotes.pivots t base g =
      some ⟨p.value.toDecimalNumber, some p.date⟩ := by
    rw [Valuation.rateOf, Valuation.getConversionRate, Valuation.getPairRate, if_neg h.ne_base]
    simp only [Valuation.loadLatestPricePairs]
    rw [latest_eq (p := p)]
    · rfl
    · refine List.mem_filter.2 ⟨hmem, decide_eq_true ?_⟩
      simp [h.quote.date, hcommodity, h.quoted, hnum]
    · intro q hq
      obtain ⟨hqmem, hqcond⟩ := List.mem_filter.1 hq
      obtain ⟨hdate, -, -, hqnum, hqg, -⟩ := of_decide_eq_true hqcond
      exact h.quote.latest q (List.mem_filter.2 ⟨hqmem, decide_eq_true ⟨hqg, hqnum⟩⟩) hdate
  unfold multiplierAt
  simp only [hreport, h.commodity, if_pos hrated, hrate]
  rfl

theorem unitValue (h : Held quotes base t a g p) :
    TimeMachine.unitValue quotes t a = p.value.toDecimalNumber := by
  obtain ⟨hmem, hpcond⟩ := List.mem_filter.1 h.quote.mem
  obtain ⟨hcommodity, hnum⟩ := of_decide_eq_true hpcond
  have hsecurity : TimeMachine.isSecurity a = true := by
    simp [TimeMachine.isSecurity, h.commodity, h.security]
  have hlatest : TimeMachine.pickLatestPricesAsOf quotes t g = some p.value.toDecimalNumber := by
    rw [TimeMachine.pickLatestPricesAsOf, latest_eq (p := p)]
    · rfl
    · exact List.mem_filter.2
        ⟨hmem, decide_eq_true ⟨h.quote.date, hnum, h.quote.positive, hcommodity⟩⟩
    · intro q hq
      obtain ⟨hqmem, hqcond⟩ := List.mem_filter.1 hq
      obtain ⟨hdate, hqnum, -, hqg⟩ := of_decide_eq_true hqcond
      exact h.quote.latest q (List.mem_filter.2 ⟨hqmem, decide_eq_true ⟨hqg, hqnum⟩⟩) hdate
  rw [TimeMachine.unitValue, if_pos hsecurity, h.commodity, Option.bind_some, hlatest]
  rfl

theorem priceAsOf (h : Held quotes base t a g p) :
    NetWorth.priceAsOf (quotes.history g) t = p.value.toDecimalNumber := by
  have hsorted : ((quotes.rowsOf g).insertionSort fun p q => q.date ≤ p.date).Pairwise
      fun p q => q.date ≤ p.date := List.pairwise_insertionSort _ _
  refine priceAsOf_eq (p := ⟨p.date, p.value.toDecimalNumber⟩) ?_ ?_ h.quote.date ?_
  · rw [Quotes.history, List.pairwise_map]
    exact hsorted
  · exact List.mem_map.2 ⟨p, (List.mem_insertionSort _).2 h.quote.mem, rfl⟩
  · intro q hq hdate
    obtain ⟨r, hr, rfl⟩ := List.mem_map.1 hq
    rcases h.quote.latest r ((List.mem_insertionSort _).1 hr) hdate with rfl | hlt
    · exact .inl rfl
    · exact .inr hlt

end Held

/-! ## The time machine -/

theorem InBase.multiplier (hreport : quotes.reportCurrencyGuid = some base) {a : Account}
    (h : InBase base a) : multiplierAt quotes t a = 1 := by
  have hrated : Valuation.Rated a.toValuation := .inr h.2
  have hrate : Valuation.rateOf quotes.prices quotes.pivots t base base = some ⟨1, none⟩ := by
    rw [Valuation.rateOf, Valuation.getConversionRate, Valuation.getPairRate, if_pos rfl]
  unfold multiplierAt
  simp only [hreport, h.1, if_pos hrated, hrate]
  rfl

theorem InBase.unitValue {a : Account} (h : InBase base a) :
    TimeMachine.unitValue quotes t a = 1 := by
  have hsecurity : ¬TimeMachine.isSecurity a = true := by simp [TimeMachine.isSecurity, h.1, h.2]
  rw [TimeMachine.unitValue, if_neg hsecurity]

theorem balanceOf_eq (types : List AccountType) (hroot : .root ∉ types) (cutoff : ℤ) :
    TimeMachine.balanceOf (TimeMachine.buildAsOfTree quotes book cutoff) types =
      ((book.selected types).map fun a =>
        quantityAt book cutoff a * TimeMachine.unitValue quotes cutoff a).sum := by
  rw [TimeMachine.balanceOf, TimeMachine.buildAsOfTree, List.filter_map, List.map_map,
    List.filter_filter]
  have hselected : (book.accounts.filter fun a =>
      ((fun x : TimeMachine.AsOfAccount => decide (x.accountType ∈ types)) ∘ fun a : Account =>
        (⟨a.guid, a.accountType, TimeMachine.sumQuantitiesAsOf book cutoff a.guid,
          TimeMachine.sumQuantitiesAsOf book cutoff a.guid *
            TimeMachine.unitValue quotes cutoff a⟩ : TimeMachine.AsOfAccount)) a &&
        decide (a.accountType ≠ .root ∧ ¬a.hidden)) = book.selected types := by
    refine List.filter_congr fun a _ => ?_
    rw [Function.comp_apply, ← Bool.decide_and, decide_eq_decide]
    refine ⟨fun ⟨htype, _, hhidden⟩ => ⟨htype, hhidden⟩,
      fun ⟨htype, hhidden⟩ => ⟨htype, fun h => hroot (h ▸ htype), hhidden⟩⟩
  rw [hselected]
  rfl

theorem bookAsOf_worth (day : ℤ) : (TimeMachine.bookAsOf quotes book day).summary.netWorth =
    worth book (NetWorth.endOfDay day)
      (TimeMachine.unitValue quotes (NetWorth.endOfDay day)) := by
  rw [worth, netWorthTypes, sum_selected_append _ (by decide), ← balanceOf_eq _ (by decide),
    ← balanceOf_eq _ (by decide)]
  rfl

theorem AtHome.unitValue (h : AtHome quotes book base t) :
    worth book t (TimeMachine.unitValue quotes t) = worth book t (multiplierAt quotes t) := by
  refine worth_congr fun a ha hposts => ?_
  obtain ⟨hmem, hcond⟩ := List.mem_filter.1 ha
  rcases h.accounts a hmem (of_decide_eq_true hcond).1 hposts with hbase | ⟨g, p, hheld⟩
  · rw [hbase.unitValue, hbase.multiplier h.report]
  · rw [hheld.unitValue, hheld.multiplier h.report]

/-! ## The attribution -/

theorem map_ofList_eq_some (name : Option (List Char)) (text : String) :
    name.map String.ofList = some text ↔ name = some text.toList := by
  cases name with
  | none => simp
  | some name =>
    rw [Option.map_some, Option.some_inj, Option.some_inj]
    constructor
    · rintro rfl
      rw [String.toList_ofList]
    · rintro rfl
      rw [String.ofList_toList]

theorem isCurrency_toAttribution (a : Account) :
    a.toAttribution.isCurrency = true ↔ a.commodityNamespace = some Valuation.CURRENCY :=
  decide_eq_true_iff.trans (map_ofList_eq_some _ _)

section Attribution

variable {rate : Guid → ℤ → Option ℚ} {hkeys : (book.accounts.map Account.guid).Nodup}
  {startDate day : ℤ} {a : Account}

theorem mem_toAttribution (ha : a ∈ book.accounts) :
    a.toAttribution ∈ (book.toAttribution quotes hkeys).accounts := List.mem_map_of_mem ha

theorem total_quantityOn (ha : a ∈ book.accounts) (t : ℤ) :
    (book.toAttribution quotes hkeys).total (fun d => d ≤ t) (NetWorth.quantityOn a.guid) =
      quantityAt book t a := by
  have hsplits (splits : List Split) :
      (((splits.map fun s => (⟨s.accountGuid, s.value, s.quantity⟩ : NetWorth.Split)).filter
        fun s => ((book.toAttribution quotes hkeys).accountOf s.accountGuid).isSome).map
          (NetWorth.quantityOn a.guid)).sum =
        ((splits.filter fun s => s.accountGuid = a.guid).map Split.quantity).sum := by
    have hfound := NetWorth.accountOf_eq (@mem_toAttribution quotes book hkeys a ha)
    have hsome : ((book.toAttribution quotes hkeys).accountOf a.guid).isSome :=
      Option.isSome_iff_exists.2 ⟨_, hfound⟩
    rw [sum_filter_map, sum_filter_map, List.map_map]
    congr 1
    refine List.map_congr_left fun s _ => ?_
    simp only [Function.comp_apply, NetWorth.quantityOn, decide_eq_true_eq]
    by_cases hguid : s.accountGuid = a.guid
    · rw [hguid, if_pos hsome]
    · simp only [if_neg hguid, ite_self]
  rw [NetWorth.total_eq, quantityAt, Book.sumSplits, Book.splitsIn, List.filter_flatMap, sum_flatMap]
  congr 1
  refine Eq.trans ?_ (congrArg (List.map _) (List.zipIdx_map_fst 0 book.transactions))
  rw [List.map_map]
  change (book.transactions.zipIdx.map _).map _ = _
  rw [List.map_map]
  refine List.map_congr_left fun x _ => ?_
  simp only [Function.comp_apply]
  cases x.1.postDate with
  | none => rfl
  | some d =>
    by_cases hd : d ≤ t
    · simp [hd]
      exact hsplits x.1.splits
    · simp [hd]

theorem idle_toAttribution (h : ¬HasPosts book t a) :
    NetWorth.Idle (book.toAttribution quotes hkeys) t a.guid := by
  intro tx htx d hd hle s hs hguid
  obtain ⟨x, hx, rfl⟩ := List.mem_map.1 htx
  obtain ⟨split, hsplit, rfl⟩ := List.mem_map.1 hs
  exact h ⟨x.1, List.fst_mem_of_mem_zipIdx hx, d, hd, hle, split, hsplit, hguid⟩

theorem classify_inBase (h : InBase base a) (htype : a.accountType ∈ netWorthTypes) :
    NetWorth.classifyAccount a.toAttribution = .cash ∨
      NetWorth.classifyAccount a.toAttribution = .liability := by
  have htypes : attributionType a.accountType ∈ NetWorth.CASH_ASSET_TYPES ∨
      attributionType a.accountType ∈ NetWorth.INVESTMENT_TYPES ∨
      attributionType a.accountType ∈ NetWorth.LIABILITY_TYPES := by
    revert htype
    cases a.accountType <;> decide
  have hcurrency := (isCurrency_toAttribution a).2 h.2
  rw [NetWorth.classifyAccount, if_neg fun hcond => hcond.2.2 hcurrency]
  by_cases hcash : a.toAttribution.accountType ∈ NetWorth.CASH_ASSET_TYPES ∨
      a.toAttribution.accountType ∈ NetWorth.INVESTMENT_TYPES
  · exact .inl (if_pos hcash)
  · rw [if_neg hcash, if_pos]
    · exact .inr rfl
    · rw [not_or] at hcash
      exact (htypes.resolve_left hcash.1).resolve_left hcash.2

theorem classify_held {g : Guid} {p : Valuation.PriceRow} (h : Held quotes base t a g p) :
    NetWorth.classifyAccount a.toAttribution = .investment := by
  have hfund : attributionType a.accountType ∈ NetWorth.INVESTMENT_TYPES := by
    rcases h.fund with hfund | hfund <;> rw [hfund] <;> decide
  have hsome : a.toAttribution.commodityGuid.isSome := Option.isSome_iff_exists.2 ⟨g, h.commodity⟩
  rw [NetWorth.classifyAccount, if_pos]
  exact ⟨hfund, hsome, fun hcurrency => h.security ((isCurrency_toAttribution a).1 hcurrency)⟩

/-- What net worth does not count is in none of the groups that the attribution adds up. -/
theorem endOf_uncounted {book : NetWorth.Book} (htype : a.accountType ∉ netWorthTypes) :
    NetWorth.endOf rate book startDate day a.toAttribution = 0 := by
  have htypes : a.toAttribution.accountType ∉ NetWorth.CASH_ASSET_TYPES ∧
      a.toAttribution.accountType ∉ NetWorth.INVESTMENT_TYPES ∧
      a.toAttribution.accountType ∉ NetWorth.LIABILITY_TYPES := by
    revert htype
    change _ → attributionType a.accountType ∉ _ ∧ attributionType a.accountType ∉ _ ∧
      attributionType a.accountType ∉ _
    cases a.accountType <;> decide
  have hclass : NetWorth.classifyAccount a.toAttribution = .income ∨
      NetWorth.classifyAccount a.toAttribution = .expense ∨
      NetWorth.classifyAccount a.toAttribution = .other := by
    rw [NetWorth.classifyAccount, if_neg fun hcond => htypes.2.1 hcond.1,
      if_neg (not_or.2 ⟨htypes.1, htypes.2.1⟩), if_neg htypes.2.2]
    split
    · exact .inl rfl
    · split
      · exact .inr (.inl rfl)
      · exact .inr (.inr rfl)
  rw [NetWorth.endOf]
  rcases hclass with h | h | h <;> rw [h]

theorem AtHome.endOf (h : AtHome quotes book base (NetWorth.endOfDay day))
    (hle : startDate ≤ day) (ha : a ∈ book.accounts) (htype : a.accountType ∈ netWorthTypes) :
    NetWorth.endOf rate (book.toAttribution quotes hkeys) startDate day a.toAttribution =
      quantityAt book (NetWorth.endOfDay day) a *
        multiplierAt quotes (NetWorth.endOfDay day) a := by
  have hmem := @mem_toAttribution quotes book hkeys a ha
  by_cases hposts : HasPosts book (NetWorth.endOfDay day) a
  · rcases h.accounts a ha htype hposts with hbase | ⟨g, p, hheld⟩
    · rw [NetWorth.endOf_home hle hmem ((isCurrency_toAttribution a).2 hbase.2)
        (Option.isSome_iff_exists.2 ⟨base, hbase.1⟩) (h.report.trans hbase.1.symm)
        (classify_inBase hbase htype), hbase.multiplier h.report, mul_one]
      exact total_quantityOn ha _
    · have hhistory : (book.toAttribution quotes hkeys).history a.toAttribution =
          quotes.history g := by
        rw [NetWorth.Book.history, show a.toAttribution.commodityGuid = some g from hheld.commodity]
        rfl
      rw [NetWorth.endOf_holding hle hmem (classify_held hheld), hhistory, hheld.priceAsOf,
        hheld.multiplier h.report]
      exact congrArg (· * _) (total_quantityOn ha _)
  · rw [NetWorth.endOf_idle hle hmem (idle_toAttribution hposts), quantityAt_eq_zero hposts,
      zero_mul]

/-- No hidden account that net worth counts has a balance. -/
def HiddenEmpty (book : Book) (t : ℤ) : Prop :=
  ∀ a ∈ book.accounts, a.accountType ∈ netWorthTypes → a.hidden → quantityAt book t a = 0

theorem AtHome.attribution (h : AtHome quotes book base (NetWorth.endOfDay day))
    (hidden : HiddenEmpty book (NetWorth.endOfDay day)) (hle : startDate ≤ day)
    (hmonths : NetWorth.monthOf (NetWorth.endOfDay day) ≤
      NetWorth.monthOf (NetWorth.startOfDay startDate) + 1200) :
    (NetWorth.attribution rate (book.toAttribution quotes hkeys) startDate day).endNetWorth =
      worth book (NetWorth.endOfDay day) (multiplierAt quotes (NetWorth.endOfDay day)) := by
  rw [NetWorth.endNetWorth_eq hle hmonths, worth, Book.selected, sum_filter_map]
  change ((book.accounts.map Account.toAttribution).map _).sum = _
  rw [List.map_map]
  congr 1
  refine List.map_congr_left fun a ha => ?_
  rw [Function.comp_apply]
  by_cases htype : a.accountType ∈ netWorthTypes
  · rw [h.endOf hle ha htype]
    by_cases hhidden : a.hidden = true
    · rw [hidden a ha htype hhidden, zero_mul, ite_self]
    · rw [if_pos (decide_eq_true ⟨htype, hhidden⟩)]
  · rw [endOf_uncounted htype, if_neg (by simp [htype])]

end Attribution

/-! ## Agreement -/

/-- The balance sheet's assets less its liabilities. -/
def sheetNetWorth (quotes : Quotes) (book : Book) (day : ℤ) : ℚ :=
  let sheet := generateBalanceSheet quotes book (lastSecond day)
  sheet.totalAssets - sheet.totalLiabilities

theorem sheetNetWorth_eq (hforest : book.Forested) (hseconds : WholeSeconds quotes book)
    (halike : ValuedAlike book) {day : ℤ} (ht : lastSecond day ≤ t)
    (ht' : t ≤ NetWorth.endOfDay day) :
    sheetNetWorth quotes book day = worth book t (multiplierAt quotes t) :=
  (sheet_worth hforest halike _).trans
    (worth_dates (hseconds.sameDates le_rfl (ht.trans ht') ht ht'))

theorem lastSecond_le (day : ℤ) : lastSecond day ≤ NetWorth.endOfDay day := by
  unfold lastSecond NetWorth.endOfDay NetWorth.msPerDay
  omega

/-- The summary agrees with the balance sheet at any instant of the last second; the time machine,
where cash and debts are in the base currency and holdings are quoted in it; and the attribution of a
period that the months fit, where hidden accounts are besides empty. -/
theorem netWorth_agrees (rate : Guid → ℤ → Option ℚ) (quotes : Quotes) (book : Book)
    (hforest : book.Forested) (hseconds : WholeSeconds quotes book) (halike : ValuedAlike book)
    (day : ℤ) :
    (∀ startDate t, lastSecond day ≤ t → t ≤ NetWorth.endOfDay day →
      (FinancialSummary.computeNetWorthSummary quotes book startDate t).atEnd.netWorth =
        sheetNetWorth quotes book day) ∧
      ∀ base, AtHome quotes book base (NetWorth.endOfDay day) →
        (TimeMachine.bookAsOf quotes book day).summary.netWorth = sheetNetWorth quotes book day ∧
          (HiddenEmpty book (NetWorth.endOfDay day) → ∀ startDate, startDate ≤ day →
            NetWorth.monthOf (NetWorth.endOfDay day) ≤
                NetWorth.monthOf (NetWorth.startOfDay startDate) + 1200 →
              (NetWorth.attribution rate (book.toAttribution quotes hforest.keys) startDate
                day).endNetWorth = sheetNetWorth quotes book day) := by
  have hsheet := sheetNetWorth_eq hforest hseconds halike (lastSecond_le day) le_rfl
  refine ⟨fun startDate t ht ht' => ?_, fun base hhome => ⟨?_, fun hidden startDate hle hm => ?_⟩⟩
  · rw [summary_worth halike, sheetNetWorth_eq hforest hseconds halike ht ht']
  · rw [bookAsOf_worth, hhome.unitValue, hsheet]
  · rw [hhome.attribution hidden hle hm, hsheet]

def household : Book where
  accounts := [⟨1, .root, none, none, none, false⟩,
    ⟨2, .bank, some 1, some 0, some Valuation.CURRENCY, false⟩,
    ⟨3, .credit, some 1, some 0, some Valuation.CURRENCY, false⟩,
    ⟨4, .mutual, some 1, some 9, some "FUND".toList, false⟩]
  transactions := [⟨some (NetWorth.startOfDay 1), [⟨2, 70, 70⟩, ⟨3, -100, -100⟩, ⟨4, 30, 3⟩]⟩]

def fundPrices : Quotes where
  prices := [⟨9, 0, NetWorth.startOfDay 0, ⟨10, 1⟩⟩, ⟨9, 0, NetWorth.startOfDay 2, ⟨12, 1⟩⟩]
  pivots := []
  reportCurrencyGuid := some 0

theorem household_forested : household.Forested := Book.forested_of_lt (by decide) (by decide)

theorem household_agrees :
    (FinancialSummary.computeNetWorthSummary fundPrices household 0 (lastSecond 3)).atEnd.netWorth =
        sheetNetWorth fundPrices household 3 ∧
      (TimeMachine.bookAsOf fundPrices household 3).summary.netWorth =
        sheetNetWorth fundPrices household 3 ∧
      (NetWorth.attribution (fun _ _ => none)
        (household.toAttribution fundPrices household_forested.keys) 0 3).endNetWorth =
          sheetNetWorth fundPrices household 3 := by
  have hhome : AtHome fundPrices household 0 (NetWorth.endOfDay 3) := by
    refine ⟨rfl, fun a ha htype _ => ?_⟩
    simp only [household, List.mem_cons, List.not_mem_nil, or_false] at ha
    rcases ha with rfl | rfl | rfl | rfl
    · exact absurd htype (by decide)
    · exact .inl ⟨rfl, rfl⟩
    · exact .inl ⟨rfl, rfl⟩
    · refine .inr ⟨9, ⟨9, 0, NetWorth.startOfDay 2, ⟨12, 1⟩⟩, rfl, by decide, .inr rfl,
        by decide, ⟨by decide, by decide, by decide +kernel, by decide⟩, rfl⟩
  have hhidden : HiddenEmpty household (NetWorth.endOfDay 3) := by
    unfold HiddenEmpty
    decide
  have hagrees := netWorth_agrees (fun _ _ => none) fundPrices household household_forested
    ⟨by decide, by decide⟩ (by decide) 3
  obtain ⟨htime, hattribution⟩ := hagrees.2 0 hhome
  exact ⟨hagrees.1 0 (lastSecond 3) le_rfl (by decide), htime,
    hattribution hhidden 0 (by decide) (by decide +kernel)⟩

/-- Cash in a foreign currency, and hidden cash. -/
def abroad : Book where
  accounts := [⟨1, .root, none, none, none, false⟩,
    ⟨2, .bank, some 1, some 5, some Valuation.CURRENCY, false⟩,
    ⟨3, .bank, some 1, some 0, some Valuation.CURRENCY, true⟩,
    ⟨4, .equity, some 1, some 0, some Valuation.CURRENCY, false⟩]
  transactions := [⟨some (NetWorth.startOfDay 1),
    [⟨2, 110, 100⟩, ⟨3, 50, 50⟩, ⟨4, -160, -160⟩]⟩]

def foreignRate : Quotes where
  prices := [⟨5, 0, NetWorth.startOfDay 0, ⟨11, 10⟩⟩]
  pivots := []
  reportCurrencyGuid := some 0

theorem abroad_forested : abroad.Forested := Book.forested_of_lt (by decide) (by decide)

theorem netWorth_abroad :
    sheetNetWorth foreignRate abroad 1 = 110 ∧
      (TimeMachine.bookAsOf foreignRate abroad 1).summary.netWorth = 100 ∧
      (NetWorth.attribution (fun _ _ => some (11 / 10))
        (abroad.toAttribution foreignRate abroad_forested.keys) 0 1).endNetWorth = 160 := by
  decide +kernel

theorem netWorth_disagrees :
    ¬ ∀ (rate : Guid → ℤ → Option ℚ) (quotes : Quotes) (book : Book) (hforest : book.Forested)
      (startDate day : ℤ), WholeSeconds quotes book → ValuedAlike book →
      coverageComplete quotes book (lastSecond day) → startDate ≤ day →
      (FinancialSummary.computeNetWorthSummary quotes book startDate
          (lastSecond day)).atEnd.netWorth = sheetNetWorth quotes book day ∧
        (TimeMachine.bookAsOf quotes book day).summary.netWorth = sheetNetWorth quotes book day ∧
        (NetWorth.attribution rate (book.toAttribution quotes hforest.keys) startDate
          day).endNetWorth = sheetNetWorth quotes book day := by
  intro h
  obtain ⟨-, htime, -⟩ := h (fun _ _ => some (11 / 10)) foreignRate abroad abroad_forested 0 1
    ⟨by decide, by decide⟩ (by decide) (by decide +kernel) (by decide)
  rw [netWorth_abroad.1, netWorth_abroad.2.1] at htime
  exact absurd htime (by norm_num)

end Reports
