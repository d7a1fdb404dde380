import GnucashWeb.Lib.ListSums
import GnucashWeb.NetWorth.Attribution
import Mathlib.Tactic.Linarith

/-!
# The attribution is exact

A month's savings, gains, paydown and rest are the change of net worth over the month, whatever was
loaded, as long as no two accounts have one guid (`exact_of_nodup`).
-/

namespace NetWorth

open ListSums

theorem sum_accounts (p : Guid → Bool) (guid : Guid) (v : ℚ) {accounts : List Account}
    (h : (accounts.map Account.guid).Nodup) :
    ((accounts.filter fun a => p a.guid).map fun a => if guid = a.guid then v else 0).sum =
      if p guid ∧ guid ∈ accounts.map Account.guid then v else 0 := by
  induction accounts with
  | nil => simp
  | cons a accounts ih =>
    rw [List.map_cons, List.nodup_cons] at h
    have hrest := ih h.2
    by_cases hg : guid = a.guid
    · subst hg
      rw [if_neg fun hmem => h.1 hmem.2] at hrest
      rw [List.filter_cons]
      by_cases hp : p a.guid = true
      · rw [if_pos hp, List.map_cons, List.sum_cons, hrest]
        simp [hp]
      · rw [if_neg hp, hrest]
        simp [hp]
    · have hmem : guid ∈ (a :: accounts).map Account.guid ↔ guid ∈ accounts.map Account.guid := by
        rw [List.map_cons, List.mem_cons]
        exact or_iff_right hg
      have hcond : (if p guid ∧ guid ∈ (a :: accounts).map Account.guid then v else 0) =
          if p guid ∧ guid ∈ accounts.map Account.guid then v else 0 :=
        if_congr (and_congr_right fun _ => hmem) rfl rfl
      rw [hcond, ← hrest, List.filter_cons]
      by_cases hp : p a.guid = true
      · rw [if_pos hp, List.map_cons, List.sum_cons, if_neg hg, zero_add]
      · rw [if_neg hp]

namespace AttributionInput

variable {input : AttributionInput}

/-! ## Sums over splits -/

def splitsIn (input : AttributionInput) (month : ℤ) : List AttributionSplit :=
  (input.transactionsIn month).flatMap Prod.snd

theorem inMonth_eq {contrib : List AttributionSplit → ℚ} {w : AttributionSplit → ℚ}
    (h : ∀ l, contrib l = (l.map w).sum) (month : ℤ) :
    input.inMonth contrib month = ((input.splitsIn month).map w).sum := by
  rw [splitsIn, sum_flatMap, inMonth]
  simp only [h]

def weight (input : AttributionInput) (groups : List AttributionGroup) (s : AttributionSplit) : ℚ :=
  if input.groupOf s.accountGuid ∈ groups then s.value else 0

theorem sumOf_eq (groups : List AttributionGroup) (splits : List AttributionSplit) :
    input.sumOf groups splits = (splits.map (input.weight groups)).sum := by
  rw [sumOf, sum_filter_map]
  simp only [decide_eq_true_eq]
  rfl

theorem onAccount_eq (f : AttributionSplit → ℚ) (guid : Guid) (splits : List AttributionSplit) :
    onAccount f guid splits =
      (splits.map fun s => if s.accountGuid = guid then f s else 0).sum := by
  rw [onAccount, sum_filter_map]
  simp only [decide_eq_true_eq]

theorem savingsContrib_eq (splits : List AttributionSplit) :
    input.savingsContrib splits =
      (splits.map fun s => -(input.weight [.income, .expense] s + input.weight [.liability] s)).sum := by
  rw [savingsContrib, sumOf_eq, sumOf_eq, ← List.sum_map_add, ← sum_neg]

theorem debtContrib_eq (splits : List AttributionSplit) :
    input.debtContrib splits = (splits.map (input.weight [.liability])).sum := sumOf_eq ..

theorem otherContrib_eq (splits : List AttributionSplit) :
    input.otherContrib splits =
      (splits.map fun s => input.weight [.cash, .investment] s +
        input.weight [.income, .expense] s + input.weight [.liability] s).sum := by
  rw [otherContrib, sumOf_eq, sumOf_eq, sumOf_eq, ← List.sum_map_add, ← List.sum_map_add]

/-! ## Months -/

theorem groupOf_of_notMem {guid : Guid} (h : guid ∉ input.accounts.map Account.guid) :
    input.groupOf guid = .other := by
  have hnone : input.accounts.reverse.find? (fun a => a.guid = guid) = none := by
    refine List.find?_eq_none.2 fun a ha => ?_
    simp only [decide_eq_true_eq]
    rintro rfl
    exact h (List.mem_map.2 ⟨a, List.mem_reverse.1 ha, rfl⟩)
  rw [groupOf, hnone]
  rfl

theorem sum_onAccounts (h : (input.accounts.map Account.guid).Nodup)
    (groups : List AttributionGroup) (hother : .other ∉ groups) (month : ℤ) :
    ((input.accounts.filter fun a => input.groupOf a.guid ∈ groups).map fun a =>
      input.inMonth (onAccount AttributionSplit.value a.guid) month).sum =
      ((input.splitsIn month).map (input.weight groups)).sum := by
  have hsplit (a : Account) : input.inMonth (onAccount AttributionSplit.value a.guid) month =
      ((input.splitsIn month).map fun s => if s.accountGuid = a.guid then s.value else 0).sum :=
    inMonth_eq (onAccount_eq _ _) month
  simp only [hsplit]
  rw [sum_comm]
  congr 1
  refine List.map_congr_left fun s _ => ?_
  have hsum := sum_accounts (fun g => decide (input.groupOf g ∈ groups)) s.accountGuid s.value h
  rw [hsum, weight]
  by_cases hmem : s.accountGuid ∈ input.accounts.map Account.guid
  · simp [hmem]
  · have hgroup := groupOf_of_notMem hmem
    rw [if_neg fun hcond => hmem hcond.2, if_neg]
    rw [hgroup]
    exact hother

def netWorthAfter (input : AttributionInput) (months : List MonthBucket) : ℚ :=
  (input.cashAndLiabilities.map fun a =>
    input.startingCashValues a.guid + input.flow months a.guid).sum +
    (input.investments.map fun a => (input.holdingAfter a months).value).sum

theorem flow_concat (months : List MonthBucket) (b : MonthBucket) (guid : Guid) :
    input.flow (months ++ [b]) guid = input.flow months guid +
      input.inMonth (onAccount AttributionSplit.value guid) b.month := by
  simp [flow]

theorem netWorthAfter_concat (months : List MonthBucket) (b : MonthBucket) :
    input.netWorthAfter (months ++ [b]) - input.netWorthAfter months =
      (input.cashAndLiabilities.map fun a =>
        input.inMonth (onAccount AttributionSplit.value a.guid) b.month).sum +
      (input.investments.map fun a => input.gain a months b).sum +
      (input.investments.map fun a => input.invested a.guid b.month).sum := by
  have hholding (a : Account) : (input.holdingAfter a (months ++ [b])).value =
      input.gain a months b + input.invested a.guid b.month +
        (input.holdingAfter a months).value := by
    rw [gain]
    ring
  simp only [netWorthAfter, flow_concat, hholding, List.sum_map_add]
  ring

theorem month_exact (h : (input.accounts.map Account.guid).Nodup) (months : List MonthBucket)
    (b : MonthBucket) :
    input.inMonth input.savingsContrib b.month +
        (input.investments.map fun a => input.gain a months b).sum +
        input.inMonth input.debtContrib b.month + input.inMonth input.otherContrib b.month =
      input.netWorthAfter (months ++ [b]) - input.netWorthAfter months := by
  have hcash : input.cashAndLiabilities =
      input.accounts.filter fun a => input.groupOf a.guid ∈ [.cash, .liability] := by
    simp [cashAndLiabilities]
  have hinvest : input.investments =
      input.accounts.filter fun a => input.groupOf a.guid ∈ [.investment] := by
    simp [investments]
  have hcashSum := sum_onAccounts h [.cash, .liability] (by decide) b.month
  have hinvestSum := sum_onAccounts h [.investment] (by decide) b.month
  rw [netWorthAfter_concat, inMonth_eq savingsContrib_eq, inMonth_eq debtContrib_eq,
    inMonth_eq otherContrib_eq]
  unfold invested
  rw [hcash, hcashSum, hinvest, hinvestSum]
  have hweights (s : AttributionSplit) :
      -(input.weight [.income, .expense] s + input.weight [.liability] s) +
        input.weight [.liability] s + (input.weight [.cash, .investment] s +
          input.weight [.income, .expense] s + input.weight [.liability] s) =
      input.weight [.cash, .liability] s + input.weight [.investment] s := by
    unfold weight
    cases input.groupOf s.accountGuid <;> simp
  have hsum := congrArg List.sum
    (List.map_congr_left (l := input.splitsIn b.month) fun s _ => hweights s)
  simp only [List.sum_map_add] at hsum ⊢
  linarith

theorem netWorthAfter_nil : input.netWorthAfter [] = input.startNetWorth := by
  simp [netWorthAfter, startNetWorth, flow, holdingAfter]

structure Exact (input : AttributionInput) : Prop where
  month : ∀ (i : ℕ) (b : MonthBucket) (m : AttributionMonth), input.buckets[i]? = some b →
    input.monthly[i]? = some m →
    m.netChange = input.netWorthAfter (input.buckets.take i ++ [b]) -
      input.netWorthAfter (input.buckets.take i)
  starts : input.netWorthAfter [] = (computeNetWorthAttribution input).startNetWorth
  ends : input.netWorthAfter input.buckets = (computeNetWorthAttribution input).endNetWorth
  sum : (input.monthly.map AttributionMonth.netChange).sum =
    (computeNetWorthAttribution input).endNetWorth -
      (computeNetWorthAttribution input).startNetWorth
  other : (computeNetWorthAttribution input).other =
    (input.monthly.map AttributionMonth.other).sum

theorem sum_netChange (months : List AttributionMonth) :
    (months.map AttributionMonth.netChange).sum =
      (months.map AttributionMonth.savings).sum + (months.map AttributionMonth.marketGains).sum +
        (months.map AttributionMonth.debtPaydown).sum +
        (months.map AttributionMonth.other).sum := by
  unfold AttributionMonth.netChange
  simp only [List.sum_map_add]

theorem exact_of_nodup (h : (input.accounts.map Account.guid).Nodup) : Exact input := by
  have hsum : (input.monthly.map AttributionMonth.netChange).sum =
      input.endNetWorth - input.startNetWorth := by
    have hprefixes := sum_prefixes input.netWorthAfter _
      (fun before b => month_exact h before b) [] input.buckets
    rw [netWorthAfter_nil] at hprefixes
    rw [monthly, List.map_map]
    exact hprefixes
  refine ⟨fun i b m hb hm => ?_, netWorthAfter_nil, rfl, hsum, ?_⟩
  · have hmonth : input.monthly[i]? = some
        { month := b.month
          savings := input.inMonth input.savingsContrib b.month
          marketGains :=
            (input.investments.map fun a => input.gain a (input.buckets.take i) b).sum
          debtPaydown := input.inMonth input.debtContrib b.month
          other := input.inMonth input.otherContrib b.month } := by
      simp [monthly, List.getElem?_map, List.getElem?_zipIdx, hb]
    rw [hmonth] at hm
    cases hm
    exact month_exact h _ b
  · rw [sum_netChange] at hsum
    simp only [computeNetWorthAttribution]
    linarith

end AttributionInput

end NetWorth
