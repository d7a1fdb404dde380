import GnucashWeb.NetWorth.Exact
import Mathlib.Algebra.BigOperators.Ring.List

/-!
# Two periods and the whole

For two consecutive periods the components add up to those of the whole, and the first ends with the
net worth that the second starts with, when the rates of foreign accounts are the same at the ends of
the periods, no price changes between the end of the first and the start of the second, and the months
fit the safety valve (`exact_and_additive`).  A deposit in a foreign currency is valued at the rate at
the end of its period (`deposit_not_additive`).
-/

namespace NetWorth

open ListSums

/-! ## Months -/

theorem monthIndex_le_iff (n m : ℤ) : Civil.monthIndex n ≤ m ↔ n ≤ Civil.dateIn (m + 1) 0 := by
  have hone : Civil.dateIn (m + 1) 1 = Civil.dateIn (m + 1) 0 + 1 := Civil.dateIn_add (m + 1) 0 1
  have hdate := Civil.getDate_mem_lengthOf n
  have hn : n = Civil.dateIn (Civil.monthIndex n) 1 + (Civil.getDate n - 1) := by
    rw [← Civil.dateIn_add, show 1 + (Civil.getDate n - 1) = Civil.getDate n by omega,
      Civil.dateIn_getDate]
  constructor
  · intro h
    have hmonth := Civil.dateIn_add_le (t := Civil.monthIndex n + 1) (u := m + 1) (by omega)
    have hnext := Civil.dateIn_succ (Civil.monthIndex n)
    rw [show Civil.lengthOf (Civil.monthIndex n) + 1 = 1 + Civil.lengthOf (Civil.monthIndex n) by
      omega, Civil.dateIn_add] at hnext
    omega
  · intro h
    by_contra hlt
    have hmonth := Civil.dateIn_add_le (t := m + 1) (u := Civil.monthIndex n) (by omega)
    omega

theorem monthOf_le_iff (t m : ℤ) : monthOf t ≤ m ↔ t ≤ monthEnd m := by
  rw [monthOf, monthIndex_le_iff, monthEnd, msPerDay]
  omega

theorem monthOf_mono {t u : ℤ} (h : t ≤ u) : monthOf t ≤ monthOf u :=
  (monthOf_le_iff t _).2 (h.trans ((monthOf_le_iff u _).1 le_rfl))

variable {stop m : ℤ} {fuel : ℕ}

theorem le_month_of_mem {b : MonthBucket} (h : b ∈ bucketsFrom stop fuel m) : m ≤ b.month := by
  induction fuel generalizing m with
  | zero => cases h
  | succ fuel ih =>
    rw [bucketsFrom] at h
    rcases List.mem_cons.1 h with rfl | h
    · exact le_rfl
    · split at h
      · cases h
      · have := ih h
        omega

theorem nodup_months (stop : ℤ) (fuel : ℕ) (m : ℤ) :
    ((bucketsFrom stop fuel m).map MonthBucket.month).Nodup := by
  induction fuel generalizing m with
  | zero => exact List.nodup_nil
  | succ fuel ih =>
    rw [bucketsFrom, List.map_cons, List.nodup_cons]
    split
    · exact ⟨List.not_mem_nil, List.nodup_nil⟩
    · refine ⟨fun hmem => ?_, ih (m + 1)⟩
      obtain ⟨b, hb, hmonth⟩ := List.mem_map.1 hmem
      have hle := le_month_of_mem hb
      change b.month = m at hmonth
      omega

theorem mem_months {k : ℤ} (hm : m ≤ k) (hk : k ≤ monthOf stop) (hfuel : monthOf stop < m + fuel) :
    k ∈ (bucketsFrom stop fuel m).map MonthBucket.month := by
  induction fuel generalizing m with
  | zero => omega
  | succ fuel ih =>
    rw [bucketsFrom, List.map_cons, List.mem_cons]
    by_cases hkm : k = m
    · exact .inl hkm
    · have hstop : ¬stop ≤ monthEnd m := by
        rw [← monthOf_le_iff]
        omega
      rw [if_neg hstop]
      exact .inr (ih (by omega) (by push_cast at hfuel ⊢; omega))

theorem getLast_buckets (hm : m ≤ monthOf stop) (hfuel : monthOf stop < m + fuel) :
    ((bucketsFrom stop fuel m).getLast?).map MonthBucket.endsAt = some stop := by
  induction fuel generalizing m with
  | zero => omega
  | succ fuel ih =>
    rw [bucketsFrom]
    by_cases hstop : stop ≤ monthEnd m
    · rw [if_pos hstop, List.getLast?_singleton, Option.map_some]
      split
      · rfl
      · change some (monthEnd m) = some stop
        congr 1
        omega
    · have hlt : ¬monthOf stop ≤ m := fun h => hstop ((monthOf_le_iff stop m).1 h)
      have hrest := ih (m := m + 1) (by omega) (by push_cast at hfuel ⊢; omega)
      obtain ⟨last, hlast, hends⟩ := Option.map_eq_some_iff.1 hrest
      rw [if_neg hstop, List.getLast?_cons, hlast]
      exact congrArg some hends

theorem sum_keys {v : ℚ} (k : Option ℤ) {ms : List ℤ} (h : ms.Nodup) :
    (ms.map fun m => if k = some m then v else 0).sum = if k.any (· ∈ ms) then v else 0 := by
  induction ms with
  | nil => cases k <;> simp
  | cons m ms ih =>
    rw [List.nodup_cons] at h
    rw [List.map_cons, List.sum_cons, ih h.2]
    cases k with
    | none => simp
    | some k =>
      by_cases hk : k = m
      · subst hk
        simp [h.1]
      · simp [hk]

theorem sum_grouped {α κ : Type} [DecidableEq κ] (key : α → κ) (f : α → ℚ) (xs : List α) :
    ((Grouping.grouped key xs).map fun g => (g.2.map f).sum).sum = (xs.map f).sum := by
  have hinsert (k : κ) (x : α) (groups : List (κ × List α)) :
      ((Grouping.insert k x groups).map fun g => (g.2.map f).sum).sum =
        (groups.map fun g => (g.2.map f).sum).sum + f x := by
    induction groups with
    | nil => simp [Grouping.insert]
    | cons g groups ih =>
      rw [Grouping.insert]
      split
      · simp
        ring
      · rw [List.map_cons, List.sum_cons, ih, List.map_cons, List.sum_cons, add_assoc]
  induction xs using List.reverseRecOn with
  | nil => rfl
  | append_singleton xs x ih =>
    rw [Grouping.grouped_concat, hinsert, ih]
    simp

namespace AttributionInput

variable {input : AttributionInput}

theorem sum_inMonth {contrib : List AttributionSplit → ℚ} {w : AttributionSplit → ℚ}
    (h : ∀ l, contrib l = (l.map w).sum)
    (hcover : ∀ s ∈ input.periodSplits,
      monthOf s.postDate ∈ input.buckets.map MonthBucket.month) :
    (input.buckets.map fun b => input.inMonth contrib b.month).sum =
      (input.periodSplits.map w).sum := by
  have hmonths : (input.buckets.map fun b => input.inMonth contrib b.month) =
      (input.buckets.map MonthBucket.month).map (input.inMonth contrib) := by
    rw [List.map_map]
    rfl
  have hmonth (m : ℤ) : input.inMonth contrib m = (input.transactions.map fun tx =>
      if tx.2.head?.map (fun s => monthOf s.postDate) = some m then (tx.2.map w).sum else 0).sum := by
    rw [inMonth, transactionsIn, sum_filter_map]
    simp only [decide_eq_true_eq, h]
  rw [hmonths, ← sum_grouped AttributionSplit.txGuid w input.periodSplits]
  have hnodup : (input.buckets.map MonthBucket.month).Nodup := nodup_months ..
  rw [funext hmonth, sum_comm]
  congr 1
  refine List.map_congr_left fun tx htx => ?_
  rw [sum_keys _ hnodup]
  cases hsplits : tx.2 with
  | nil => simp
  | cons s rest =>
    have hmem : s ∈ input.periodSplits := by
      obtain ⟨-, hgroup⟩ := (Grouping.mem_grouped_iff ..).1 htx
      have hs : s ∈ tx.2 := by rw [hsplits]; exact List.mem_cons_self
      rw [hgroup] at hs
      exact (List.mem_filter.1 hs).1
    rw [if_pos]
    simpa using hcover s hmem

theorem holdingAfter_concat (a : Account) (months : List MonthBucket) (b : MonthBucket) :
    input.holdingAfter a (months ++ [b]) = input.advance a (input.holdingAfter a months) b := by
  simp [holdingAfter]

theorem qty_holdingAfter (a : Account) (months : List MonthBucket) :
    (input.holdingAfter a months).qty =
      input.startingInvestmentQty a.guid +
        (months.map fun b => input.qtyDelta a.guid b.month).sum := by
  induction months using List.reverseRecOn with
  | nil => simp [holdingAfter, startHolding]
  | append_singleton months b ih =>
    rw [holdingAfter_concat, advance, ih]
    simp
    ring

theorem value_holdingAfter (a : Account) {months : List MonthBucket}
    (h : months.getLast?.map MonthBucket.endsAt = some stop) :
    (input.holdingAfter a months).value =
      (input.holdingAfter a months).qty * priceAsOf (input.priceHistory a) stop := by
  induction months using List.reverseRecOn with
  | nil => cases h
  | append_singleton months b _ =>
    rw [List.getLast?_concat] at h
    cases h
    rw [holdingAfter_concat]
    rfl

/-- The gains of all months: what a holding gains over the period beyond what is invested. -/
theorem sum_marketGains :
    (input.monthly.map AttributionMonth.marketGains).sum =
      (input.investments.map fun a => (input.holdingAfter a input.buckets).value -
        (input.startHolding a).value -
        (input.buckets.map fun b => input.invested a.guid b.month).sum).sum := by
  have hstep (before : List MonthBucket) (b : MonthBucket) :
      (input.investments.map fun a => input.gain a before b).sum =
        (input.investments.map fun a => (input.holdingAfter a (before ++ [b])).value -
          ((before ++ [b]).map fun b => input.invested a.guid b.month).sum).sum -
        (input.investments.map fun a => (input.holdingAfter a before).value -
          (before.map fun b => input.invested a.guid b.month).sum).sum := by
    rw [eq_sub_iff_add_eq, ← List.sum_map_add]
    congr 1
    refine List.map_congr_left fun a _ => ?_
    rw [gain, List.map_append, List.sum_append]
    simp
    ring
  have hprefixes := sum_prefixes
    (fun months => (input.investments.map fun a => (input.holdingAfter a months).value -
      (months.map fun b => input.invested a.guid b.month).sum).sum)
    (fun before b => (input.investments.map fun a => input.gain a before b).sum)
    hstep [] input.buckets
  rw [monthly, List.map_map]
  refine hprefixes.trans ?_
  rw [sub_eq_iff_eq_add, ← List.sum_map_add]
  congr 1
  refine List.map_congr_left fun a _ => ?_
  simp [holdingAfter]
  ring

/-! ## Totals -/

/-- Every split is dated in a month of the period, whose last bucket ends with it. -/
structure Covered (input : AttributionInput) : Prop where
  months : ∀ s ∈ input.periodSplits, monthOf s.postDate ∈ input.buckets.map MonthBucket.month
  last : input.buckets.getLast?.map MonthBucket.endsAt = some input.periodEnd

theorem monthly_map (f : AttributionMonth → ℚ) (g : ℤ → ℚ)
    (h : ∀ b gains, f ⟨b, input.inMonth input.savingsContrib b, gains,
      input.inMonth input.debtContrib b, input.inMonth input.otherContrib b⟩ = g b) :
    input.monthly.map f = input.buckets.map fun b => g b.month := by
  rw [monthly, List.map_map]
  have hfun : (f ∘ fun x : MonthBucket × ℕ => (
      { month := x.1.month
        savings := input.inMonth input.savingsContrib x.1.month
        marketGains :=
          (input.investments.map fun a => input.gain a (input.buckets.take x.2) x.1).sum
        debtPaydown := input.inMonth input.debtContrib x.1.month
        other := input.inMonth input.otherContrib x.1.month } : AttributionMonth)) =
      (fun b : MonthBucket => g b.month) ∘ Prod.fst := funext fun x => h _ _
  refine (congrArg (fun k => List.map k input.buckets.zipIdx) hfun).trans ?_
  rw [← List.map_map, List.zipIdx_map_fst]

theorem total_savings (h : Covered input) :
    (computeNetWorthAttribution input).savings = (input.periodSplits.map fun s =>
      -(input.weight [.income, .expense] s + input.weight [.liability] s)).sum := by
  have hmonthly := monthly_map AttributionMonth.savings
    (input.inMonth input.savingsContrib) fun _ _ => rfl
  rw [← sum_inMonth savingsContrib_eq h.months, ← hmonthly]
  rfl

theorem total_debt (h : Covered input) :
    (computeNetWorthAttribution input).debtPaydown =
      (input.periodSplits.map (input.weight [.liability])).sum := by
  have hmonthly := monthly_map AttributionMonth.debtPaydown
    (input.inMonth input.debtContrib) fun _ _ => rfl
  rw [← sum_inMonth debtContrib_eq h.months, ← hmonthly]
  rfl

/-- What the splits of the period on an account add up to. -/
def totalOn (input : AttributionInput) (f : AttributionSplit → ℚ) (guid : Guid) : ℚ :=
  (input.periodSplits.map fun s => if s.accountGuid = guid then f s else 0).sum

theorem flow_eq (h : Covered input) (guid : Guid) :
    input.flow input.buckets guid = input.totalOn AttributionSplit.value guid :=
  sum_inMonth (onAccount_eq _ _) h.months

theorem invested_eq (h : Covered input) (guid : Guid) :
    (input.buckets.map fun b => input.invested guid b.month).sum =
      input.totalOn AttributionSplit.value guid :=
  sum_inMonth (onAccount_eq _ _) h.months

theorem endValue_eq (h : Covered input) (a : Account) :
    (input.holdingAfter a input.buckets).value =
      (input.startingInvestmentQty a.guid + input.totalOn AttributionSplit.quantity a.guid) *
        priceAsOf (input.priceHistory a) input.periodEnd := by
  have hqty : (input.buckets.map fun b => input.qtyDelta a.guid b.month).sum =
      input.totalOn AttributionSplit.quantity a.guid :=
    sum_inMonth (onAccount_eq _ _) h.months
  rw [value_holdingAfter a h.last, qty_holdingAfter, hqty]

end AttributionInput

/-! ## What is loaded -/

section

variable {rate : Guid → ℤ → Option ℚ} {book : Book}

/-- What the splits of the transactions in some days add up to. -/
def Book.total (book : Book) (p : ℤ → Bool) (f : Split → ℚ) : ℚ :=
  ((book.splitsWhere p).map fun r => f r.2.2).sum

theorem total_eq (p : ℤ → Bool) (f : Split → ℚ) :
    book.total p f = (book.transactions.map fun tx => match tx.postDate with
      | none => 0
      | some d => if p d then
          ((tx.splits.filter fun s => (book.accountOf s.accountGuid).isSome).map f).sum else 0).sum := by
  rw [Book.total, Book.splitsWhere, sum_flatMap]
  congr 1
  refine List.map_congr_left fun tx _ => ?_
  cases tx.postDate with
  | none => rfl
  | some d =>
    by_cases hp : p d = true
    · simp only [hp, if_true, List.map_map]
      rfl
    · simp [hp]

theorem total_add {p q whole : ℤ → Bool} (h : ∀ d, whole d = (p d || q d))
    (hdisjoint : ∀ d, p d = true → q d = false) (f : Split → ℚ) :
    book.total whole f = book.total p f + book.total q f := by
  rw [total_eq, total_eq, total_eq, ← List.sum_map_add]
  congr 1
  refine List.map_congr_left fun tx _ => ?_
  cases tx.postDate with
  | none => simp
  | some d =>
    simp only [h]
    by_cases hp : p d = true
    · simp [hp, hdisjoint d hp]
    · simp [hp]

theorem total_congr {p : ℤ → Bool} {f g : Split → ℚ} (h : ∀ s, f s = g s) :
    book.total p f = book.total p g := by
  rw [funext h]

theorem accountOf_mem {guid : Guid} {a : Account} (h : book.accountOf guid = some a) :
    a ∈ book.accounts := List.mem_of_find?_eq_some h

def SameRates (rate : Guid → ℤ → Option ℚ) (book : Book) (t u : ℤ) : Prop :=
  ∀ a ∈ book.accounts, rateFor rate book a t = rateFor rate book a u

theorem valueAt_eq {t u : ℤ} (h : SameRates rate book t u) (s : Split) :
    valueAt rate book t s = valueAt rate book u s := by
  unfold valueAt
  cases hacct : book.accountOf s.accountGuid with
  | none => rfl
  | some a => simp only [h a (accountOf_mem hacct)]

def valueOn (rate : Guid → ℤ → Option ℚ) (book : Book) (t : ℤ) (guid : Guid) (s : Split) : ℚ :=
  if s.accountGuid = guid then valueAt rate book t s else 0

def quantityOn (guid : Guid) (s : Split) : ℚ := if s.accountGuid = guid then s.quantity else 0

theorem startingQty_eq (t : ℤ) (guid : Guid) :
    startingQty book t guid = book.total (fun d => d < t) (quantityOn guid) := by
  rw [startingQty, sum_filter_map]
  simp only [decide_eq_true_eq]
  rfl

theorem startingCash_eq (t : ℤ) (guid : Guid) :
    startingCash rate book t guid = book.total (fun d => d < t) (valueOn rate book t guid) := by
  have hvalues (h : ∀ s : Split, s.accountGuid = guid → valueAt rate book t s = s.value) :
      startingValue book t guid = book.total (fun d => d < t) (valueOn rate book t guid) := by
    rw [startingValue, sum_filter_map, Book.total]
    congr 1
    refine List.map_congr_left fun r _ => ?_
    simp only [decide_eq_true_eq, valueOn]
    by_cases hg : r.2.2.accountGuid = guid
    · rw [if_pos hg, if_pos hg, h _ hg]
    · rw [if_neg hg, if_neg hg]
  unfold startingCash
  cases hacct : book.accountOf guid with
  | none =>
    refine hvalues fun s hs => ?_
    rw [valueAt, hs, hacct]
  | some a =>
    by_cases hcurrency : a.isCurrency = true
    · simp only [hcurrency, if_true]
      rw [startingQty_eq, Book.total, Book.total, ← List.sum_map_mul_right]
      congr 1
      refine List.map_congr_left fun r _ => ?_
      rw [quantityOn, valueOn]
      by_cases hg : r.2.2.accountGuid = guid
      · rw [if_pos hg, if_pos hg, valueAt, hg, hacct]
        simp [hcurrency]
      · rw [if_neg hg, if_neg hg, zero_mul]
    · simp only [hcurrency]
      refine hvalues fun s hs => ?_
      rw [valueAt, hs, hacct]
      simp [hcurrency]

theorem fxReval_eq_none {periodStart periodEnd : ℤ}
    (h : SameRates rate book periodEnd periodStart) {a : Account} (ha : a ∈ book.accounts) :
    fxReval rate book periodStart periodEnd a = none := by
  unfold fxReval
  cases hcommodity : a.commodityGuid with
  | none => rfl
  | some g =>
    simp only
    split
    · rfl
    · next hguard =>
        simp only [not_or, not_not] at hguard
        have hrate : (if book.base = none then 1 else rateAt rate g periodEnd) =
            if book.base = none then 1 else rateAt rate g periodStart := by
          by_cases hbase : book.base = none
          · rw [if_pos hbase, if_pos hbase]
          · have hsame := h a ha
            simp only [rateFor, hcommodity, hguard.2.1, hguard.2.2, hbase] at hsame
            simpa [hbase] using hsame
        rw [hrate, sub_self, mul_zero, abs_zero]
        exact if_pos (.inr (by norm_num))

/-- A revaluation is of an opening balance in another currency, dated at the end of the period. -/
structure Revalued (book : Book) (periodStart periodEnd : ℤ) (a : Account) (s : AttributionSplit) :
    Prop where
  postDate : s.postDate = periodEnd
  account : s.accountGuid = a.guid
  abroad : book.base ≠ a.commodityGuid
  opened : startingQty book periodStart a.guid ≠ 0

theorem revalued_of_fxReval {periodStart periodEnd : ℤ} {a : Account} {s : AttributionSplit}
    (h : fxReval rate book periodStart periodEnd a = some s) :
    Revalued book periodStart periodEnd a s := by
  unfold fxReval at h
  cases hcommodity : a.commodityGuid with
  | none => simp [hcommodity] at h
  | some g =>
    simp only [hcommodity, ite_eq_left_iff, reduceCtorEq] at h
    by_cases hguard : classifyAccount a ≠ .cash ∨ ¬a.isCurrency ∨ book.base = some g
    · rw [if_pos hguard] at h
      cases h
    · rw [if_neg hguard] at h
      rw [not_or, not_or] at hguard
      by_cases hseen : |startingQty book periodStart a.guid| < 1 / 1000000000 ∨
          |startingQty book periodStart a.guid *
            ((if book.base = none then 1 else rateAt rate g periodEnd) -
              (if book.base = none then 1 else rateAt rate g periodStart))| < 5 / 1000
      · rw [if_pos hseen] at h
        cases h
      · rw [if_neg hseen] at h
        rw [← Option.some.inj h]
        refine ⟨rfl, rfl, by rw [hcommodity]; exact hguard.2.2, fun hzero => hseen (.inl ?_)⟩
        rw [hzero, abs_zero]
        norm_num

/-! ## A period at steady rates -/

/-- The value of a split on accounts in some groups. -/
def weightOn (rate : Guid → ℤ → Option ℚ) (book : Book) (t : ℤ) (groups : List AttributionGroup)
    (s : Split) : ℚ :=
  if (loadAttributionInput rate book 0 0).groupOf s.accountGuid ∈ groups then valueAt rate book t s
  else 0

def within (startDate endDate d : ℤ) : Bool := startOfDay startDate ≤ d ∧ d ≤ endOfDay endDate

/-- Rates as at one instant at both ends, and months that fit the safety valve. -/
structure SteadyPeriod (rate : Guid → ℤ → Option ℚ) (book : Book) (t startDate endDate : ℤ) :
    Prop where
  ordered : startDate ≤ endDate
  starts : SameRates rate book (startOfDay startDate) t
  ends : SameRates rate book (endOfDay endDate) t
  months : monthOf (endOfDay endDate) ≤ monthOf (startOfDay startDate) + 1200

variable {t startDate endDate : ℤ}

theorem startOfDay_le_endOfDay (h : startDate ≤ endDate) :
    startOfDay startDate ≤ endOfDay endDate := by
  unfold startOfDay endOfDay msPerDay
  omega

theorem periodSplits_eq (h : SteadyPeriod rate book t startDate endDate) :
    (loadAttributionInput rate book startDate endDate).periodSplits =
      (book.splitsWhere (within startDate endDate)).map fun r =>
        ⟨.stored r.1, r.2.2.accountGuid, r.2.1, valueAt rate book t r.2.2, r.2.2.quantity⟩ := by
  have hreval : book.accounts.filterMap
      (fxReval rate book (startOfDay startDate) (endOfDay endDate)) = [] := by
    refine List.filterMap_eq_nil_iff.2 fun a ha => fxReval_eq_none ?_ ha
    exact fun b hb => (h.ends b hb).trans (h.starts b hb).symm
  have hvalue (s : Split) : valueAt rate book (endOfDay endDate) s = valueAt rate book t s :=
    valueAt_eq h.ends s
  simp only [loadAttributionInput, hreval, List.append_nil, hvalue]
  rfl

theorem sum_periodSplits (h : SteadyPeriod rate book t startDate endDate)
    {w : AttributionSplit → ℚ} {f : Split → ℚ}
    (hw : ∀ guid d s, w ⟨guid, s.accountGuid, d, valueAt rate book t s, s.quantity⟩ = f s) :
    ((loadAttributionInput rate book startDate endDate).periodSplits.map w).sum =
      book.total (within startDate endDate) f := by
  rw [periodSplits_eq h, List.map_map, Book.total]
  congr 1
  exact List.map_congr_left fun r _ => hw _ _ _

theorem postDate_of_mem (hle : startDate ≤ endDate) {s : AttributionSplit}
    (hs : s ∈ (loadAttributionInput rate book startDate endDate).periodSplits) :
    within startDate endDate s.postDate = true := by
  rcases List.mem_append.1 hs with hs | hs
  · obtain ⟨r, hr, rfl⟩ := List.mem_map.1 hs
    obtain ⟨tx, -, hrow⟩ := List.mem_flatMap.1 hr
    cases hdate : tx.postDate with
    | none =>
      rw [hdate] at hrow
      cases hrow
    | some d =>
      simp only [hdate] at hrow
      split at hrow
      · next hp =>
          obtain ⟨s, -, rfl⟩ := List.mem_map.1 hrow
          exact hp
      · cases hrow
  · obtain ⟨a, -, hreval⟩ := List.mem_filterMap.1 hs
    rw [(revalued_of_fxReval hreval).postDate, within, decide_eq_true_iff]
    exact ⟨startOfDay_le_endOfDay hle, le_rfl⟩

theorem covered (hle : startDate ≤ endDate)
    (hmonths : monthOf (endOfDay endDate) ≤ monthOf (startOfDay startDate) + 1200) :
    (loadAttributionInput rate book startDate endDate).Covered := by
  have hlast : monthOf (endOfDay endDate) < monthOf (startOfDay startDate) + (1201 : ℕ) := by
    push_cast
    omega
  refine ⟨fun s hs => ?_, getLast_buckets (monthOf_mono (startOfDay_le_endOfDay hle)) hlast⟩
  have hbounds := of_decide_eq_true (postDate_of_mem hle hs)
  exact mem_months (monthOf_mono hbounds.1) (monthOf_mono hbounds.2) hlast

theorem SteadyPeriod.covered (h : SteadyPeriod rate book t startDate endDate) :
    (loadAttributionInput rate book startDate endDate).Covered :=
  NetWorth.covered h.ordered h.months

theorem totalOn_value (h : SteadyPeriod rate book t startDate endDate) (guid : Guid) :
    (loadAttributionInput rate book startDate endDate).totalOn AttributionSplit.value guid =
      book.total (within startDate endDate) (valueOn rate book t guid) :=
  sum_periodSplits h fun _ _ _ => rfl

theorem totalOn_quantity (h : SteadyPeriod rate book t startDate endDate) (guid : Guid) :
    (loadAttributionInput rate book startDate endDate).totalOn AttributionSplit.quantity guid =
      book.total (within startDate endDate) (quantityOn guid) :=
  sum_periodSplits h fun _ _ _ => rfl

theorem startingCash_steady (h : SteadyPeriod rate book t startDate endDate) (guid : Guid) :
    startingCash rate book (startOfDay startDate) guid =
      book.total (fun d => d < startOfDay startDate) (valueOn rate book t guid) := by
  rw [startingCash_eq]
  refine total_congr fun s => ?_
  rw [valueOn, valueOn, valueAt_eq h.starts]

theorem savings_steady (h : SteadyPeriod rate book t startDate endDate) :
    (attribution rate book startDate endDate).savings =
      book.total (within startDate endDate) fun s =>
        -(weightOn rate book t [.income, .expense] s + weightOn rate book t [.liability] s) :=
  (AttributionInput.total_savings h.covered).trans (sum_periodSplits h fun _ _ _ => rfl)

theorem debt_steady (h : SteadyPeriod rate book t startDate endDate) :
    (attribution rate book startDate endDate).debtPaydown =
      book.total (within startDate endDate) (weightOn rate book t [.liability]) :=
  (AttributionInput.total_debt h.covered).trans (sum_periodSplits h fun _ _ _ => rfl)

/-- The accounts that are kept by value, and those that are priced. -/
def Book.valued (book : Book) : List Account :=
  (loadAttributionInput (fun _ _ => none) book 0 0).cashAndLiabilities

def Book.priced (book : Book) : List Account :=
  (loadAttributionInput (fun _ _ => none) book 0 0).investments

def Book.history (book : Book) (a : Account) : List PricePoint :=
  (a.commodityGuid.map book.prices).getD []

theorem startNetWorth_steady (h : SteadyPeriod rate book t startDate endDate) :
    (attribution rate book startDate endDate).startNetWorth =
      (book.valued.map fun a =>
        book.total (fun d => d < startOfDay startDate) (valueOn rate book t a.guid)).sum +
      (book.priced.map fun a =>
        book.total (fun d => d < startOfDay startDate) (quantityOn a.guid) *
          priceAsOf (book.history a) (startOfDay startDate)).sum := by
  simp only [← startingCash_steady h, ← startingQty_eq]
  rfl

theorem endNetWorth_steady (h : SteadyPeriod rate book t startDate endDate) :
    (attribution rate book startDate endDate).endNetWorth =
      (book.valued.map fun a =>
        book.total (fun d => d < startOfDay startDate) (valueOn rate book t a.guid) +
          book.total (within startDate endDate) (valueOn rate book t a.guid)).sum +
      (book.priced.map fun a =>
        (book.total (fun d => d < startOfDay startDate) (quantityOn a.guid) +
          book.total (within startDate endDate) (quantityOn a.guid)) *
          priceAsOf (book.history a) (endOfDay endDate)).sum := by
  simp only [← startingCash_steady h, ← startingQty_eq, ← totalOn_value h, ← totalOn_quantity h]
  change (loadAttributionInput rate book startDate endDate).endNetWorth = _
  rw [AttributionInput.endNetWorth]
  simp only [AttributionInput.flow_eq h.covered, AttributionInput.endValue_eq h.covered]
  rfl

theorem marketGains_steady (h : SteadyPeriod rate book t startDate endDate) :
    (attribution rate book startDate endDate).marketGains =
      (book.priced.map fun a =>
        (book.total (fun d => d < startOfDay startDate) (quantityOn a.guid) +
          book.total (within startDate endDate) (quantityOn a.guid)) *
          priceAsOf (book.history a) (endOfDay endDate) -
        book.total (fun d => d < startOfDay startDate) (quantityOn a.guid) *
          priceAsOf (book.history a) (startOfDay startDate) -
        book.total (within startDate endDate) (valueOn rate book t a.guid)).sum := by
  simp only [← startingQty_eq, ← totalOn_value h, ← totalOn_quantity h]
  refine AttributionInput.sum_marketGains.trans ?_
  simp only [AttributionInput.invested_eq h.covered, AttributionInput.endValue_eq h.covered]
  rfl

/-! ## Two periods -/

structure Additive (whole first second : NetWorthAttributionResult) : Prop where
  boundary : first.endNetWorth = second.startNetWorth
  savings : whole.savings = first.savings + second.savings
  marketGains : whole.marketGains = first.marketGains + second.marketGains
  debtPaydown : whole.debtPaydown = first.debtPaydown + second.debtPaydown
  other : whole.other = first.other + second.other

/-- Foreign accounts have the same rates at the ends of both periods, no price of a holding changes
between them, and the months fit the safety valve. -/
structure Steady (rate : Guid → ℤ → Option ℚ) (book : Book) (a b c : ℤ) : Prop where
  rates : ∀ t ∈ [endOfDay b, startOfDay (b + 1), endOfDay c],
    SameRates rate book t (startOfDay a)
  prices : ∀ account ∈ book.accounts, classifyAccount account = .investment →
    priceAsOf (book.history account) (endOfDay b) =
      priceAsOf (book.history account) (startOfDay (b + 1))
  months : monthOf (endOfDay c) ≤ monthOf (startOfDay a) + 1200

theorem startOfDay_succ (day : ℤ) : startOfDay (day + 1) = endOfDay day + 1 := by
  unfold startOfDay endOfDay msPerDay
  omega

variable {a b c : ℤ}

theorem Steady.whole (h : Steady rate book a b c) (hab : a ≤ b) (hbc : b < c) :
    SteadyPeriod rate book (startOfDay a) a c :=
  ⟨by omega, fun _ _ => rfl, h.rates _ (by simp), h.months⟩

theorem Steady.first (h : Steady rate book a b c) (hab : a ≤ b) (hbc : b < c) :
    SteadyPeriod rate book (startOfDay a) a b := by
  refine ⟨hab, fun _ _ => rfl, h.rates _ (by simp), ?_⟩
  have hmono : monthOf (endOfDay b) ≤ monthOf (endOfDay c) := by
    apply monthOf_mono
    unfold endOfDay msPerDay
    omega
  exact hmono.trans h.months

theorem Steady.second (h : Steady rate book a b c) (hab : a ≤ b) (hbc : b < c) :
    SteadyPeriod rate book (startOfDay a) (b + 1) c := by
  refine ⟨by omega, h.rates _ (by simp), h.rates _ (by simp), ?_⟩
  have hmono : monthOf (startOfDay a) ≤ monthOf (startOfDay (b + 1)) := by
    apply monthOf_mono
    unfold startOfDay msPerDay
    omega
  have hmonths := h.months
  omega

theorem total_whole (hab : a ≤ b) (hbc : b < c) (f : Split → ℚ) :
    book.total (within a c) f = book.total (within a b) f + book.total (within (b + 1) c) f := by
  have hsucc := startOfDay_succ b
  have hle := startOfDay_le_endOfDay hab
  have hle' := startOfDay_le_endOfDay (show b + 1 ≤ c by omega)
  refine total_add (fun d => ?_) (fun d hd => ?_) f
  · rw [within, within, within, ← Bool.decide_or, decide_eq_decide]
    omega
  · rw [within, decide_eq_true_iff] at hd
    rw [within, decide_eq_false_iff_not]
    omega

theorem total_before (hab : a ≤ b) (f : Split → ℚ) :
    book.total (fun d => d < startOfDay (b + 1)) f =
      book.total (fun d => d < startOfDay a) f + book.total (within a b) f := by
  have hsucc := startOfDay_succ b
  have hle := startOfDay_le_endOfDay hab
  refine total_add (fun d => ?_) (fun d hd => ?_) f
  · rw [within, ← Bool.decide_or, decide_eq_decide]
    omega
  · rw [decide_eq_true_iff] at hd
    rw [within, decide_eq_false_iff_not]
    omega

theorem groupOf_of_mem {account : Account} (h : account ∈ book.accounts) :
    (loadAttributionInput rate book 0 0).groupOf account.guid = classifyAccount account := by
  have hfind : book.accounts.reverse.find? (fun x => x.guid = account.guid) = some account := by
    cases hsome : book.accounts.reverse.find? (fun x => x.guid = account.guid) with
    | none =>
      have hnone := List.find?_eq_none.1 hsome account (List.mem_reverse.2 h)
      simp at hnone
    | some x =>
      have hx : x ∈ book.accounts := List.mem_reverse.1 (List.mem_of_find?_eq_some hsome)
      have hguid : x.guid = account.guid := by simpa using List.find?_some hsome
      rw [List.inj_on_of_nodup_map book.accountKeys hx h hguid]
  change ((book.accounts.reverse.find? _).map classifyAccount).getD .other = _
  rw [hfind]
  rfl

theorem Steady.price (h : Steady rate book a b c) {account : Account}
    (hmem : account ∈ book.priced) :
    priceAsOf (book.history account) (endOfDay b) =
      priceAsOf (book.history account) (startOfDay (b + 1)) := by
  obtain ⟨haccount, hgroup⟩ := List.mem_filter.1 hmem
  refine h.prices account haccount ?_
  rw [← @groupOf_of_mem (fun _ _ => none) book account haccount]
  exact of_decide_eq_true hgroup

theorem additive (h : Steady rate book a b c) (hab : a ≤ b) (hbc : b < c) :
    Additive (attribution rate book a c) (attribution rate book a b)
      (attribution rate book (b + 1) c) := by
  have hwhole := h.whole hab hbc
  have hfirst := h.first hab hbc
  have hsecond := h.second hab hbc
  have hboundary : (attribution rate book a b).endNetWorth =
      (attribution rate book (b + 1) c).startNetWorth := by
    rw [endNetWorth_steady hfirst, startNetWorth_steady hsecond]
    simp only [total_before hab]
    congr 2
    exact List.map_congr_left fun account hmem => by rw [h.price hmem]
  have hends : (attribution rate book a c).endNetWorth =
      (attribution rate book (b + 1) c).endNetWorth := by
    rw [endNetWorth_steady hwhole, endNetWorth_steady hsecond]
    simp only [total_before hab, total_whole hab hbc, add_assoc]
  have hstarts : (attribution rate book a c).startNetWorth =
      (attribution rate book a b).startNetWorth := rfl
  have hsavings : (attribution rate book a c).savings =
      (attribution rate book a b).savings + (attribution rate book (b + 1) c).savings := by
    rw [savings_steady hwhole, savings_steady hfirst, savings_steady hsecond]
    exact total_whole hab hbc _
  have hdebt : (attribution rate book a c).debtPaydown =
      (attribution rate book a b).debtPaydown + (attribution rate book (b + 1) c).debtPaydown := by
    rw [debt_steady hwhole, debt_steady hfirst, debt_steady hsecond]
    exact total_whole hab hbc _
  have hmarket : (attribution rate book a c).marketGains =
      (attribution rate book a b).marketGains + (attribution rate book (b + 1) c).marketGains := by
    rw [marketGains_steady hwhole, marketGains_steady hfirst, marketGains_steady hsecond,
      ← List.sum_map_add]
    simp only [total_before hab, total_whole hab hbc]
    congr 1
    refine List.map_congr_left fun account hmem => ?_
    rw [h.price hmem]
    ring
  refine ⟨hboundary, hsavings, hmarket, hdebt, ?_⟩
  -- The rest is what the other components leave of the change.
  change (attribution rate book a c).endNetWorth - (attribution rate book a c).startNetWorth -
      (attribution rate book a c).savings - (attribution rate book a c).marketGains -
      (attribution rate book a c).debtPaydown =
    (attribution rate book a b).endNetWorth - (attribution rate book a b).startNetWorth -
        (attribution rate book a b).savings - (attribution rate book a b).marketGains -
        (attribution rate book a b).debtPaydown +
      ((attribution rate book (b + 1) c).endNetWorth -
        (attribution rate book (b + 1) c).startNetWorth -
        (attribution rate book (b + 1) c).savings -
        (attribution rate book (b + 1) c).marketGains -
        (attribution rate book (b + 1) c).debtPaydown)
  linarith

end

/-- Every period of every book is attributed exactly, month by month; and two periods add up to the
whole at steady rates and prices. -/
theorem exact_and_additive (rate : Guid → ℤ → Option ℚ) (book : Book) :
    (∀ startDate endDate, (loadAttributionInput rate book startDate endDate).Exact) ∧
      ∀ a b c, a ≤ b → b < c → Steady rate book a b c →
        Additive (attribution rate book a c) (attribution rate book a b)
          (attribution rate book (b + 1) c) :=
  ⟨fun _ _ => AttributionInput.exact_of_nodup book.accountKeys,
    fun _ _ _ hab hbc h => additive h hab hbc⟩

def salaried : Book where
  accounts := [⟨1, .bank, some 0, some "CURRENCY"⟩, ⟨2, .income, some 0, some "CURRENCY"⟩,
    ⟨3, .stock, some 9, some "NASDAQ"⟩]
  transactions := [⟨7, some (startOfDay 1), [⟨1, 100, 100⟩, ⟨2, -100, -100⟩]⟩,
    ⟨8, some (startOfDay 3), [⟨1, -50, -50⟩, ⟨3, 50, 5⟩]⟩]
  prices g := if g = 9 then [⟨startOfDay 40, 12⟩, ⟨startOfDay 0, 10⟩] else []
  base := some 0
  accountKeys := by decide

theorem additive_salaried :
    Additive (attribution (fun _ _ => none) salaried 0 50)
      (attribution (fun _ _ => none) salaried 0 10)
      (attribution (fun _ _ => none) salaried 11 50) := by
  have hsteady : Steady (fun _ _ => none) salaried 0 10 50 :=
    ⟨fun _ _ _ _ => rfl, by decide +kernel, by decide +kernel⟩
  exact (exact_and_additive _ salaried).2 0 10 50 (by decide) (by decide) hsteady

/-- A deposit in a currency whose rate doubles later. -/
def deposit : Book where
  accounts := [⟨1, .bank, some 5, some "CURRENCY"⟩, ⟨2, .income, some 5, some "CURRENCY"⟩]
  transactions := [⟨7, some (startOfDay 1), [⟨1, 100, 100⟩, ⟨2, -100, -100⟩]⟩]
  prices _ := []
  base := some 0
  accountKeys := by decide

def doubling (_ : Guid) (t : ℤ) : Option ℚ := if t < startOfDay 20 then some 1 else some 2

theorem deposit_not_additive :
    ¬ ∀ (rate : Guid → ℤ → Option ℚ) (book : Book),
      (∀ startDate endDate, (loadAttributionInput rate book startDate endDate).Exact) ∧
        ∀ a b c, a ≤ b → b < c →
          Additive (attribution rate book a c) (attribution rate book a b)
            (attribution rate book (b + 1) c) := by
  intro h
  have hsavings := ((h doubling deposit).2 0 10 30 (by decide) (by decide)).savings
  have hne : (attribution doubling deposit 0 30).savings ≠
      (attribution doubling deposit 0 10).savings +
        (attribution doubling deposit (10 + 1) 30).savings := by
    decide +kernel
  exact hne hsavings

end NetWorth
