import GnucashWeb.NetWorth.Additive

/-!
# Net worth at the end of a period

The end net worth of an attribution is a sum over the accounts of the book (`endNetWorth_eq`).  An
account in the base currency is worth its quantity, a holding its quantity at the price of the last day,
and an account without splits nothing, whatever the rates are.
-/

namespace NetWorth

open ListSums

variable {rate : Guid → ℤ → Option ℚ} {book : Book} {startDate endDate : ℤ} {a : Account}

/-! ## Accounts -/

/-- What an account adds to the net worth at the end of a period. -/
def endOf (rate : Guid → ℤ → Option ℚ) (book : Book) (startDate endDate : ℤ) (a : Account) : ℚ :=
  let input := loadAttributionInput rate book startDate endDate
  match classifyAccount a with
  | .cash | .liability =>
    input.startingCashValues a.guid + input.totalOn AttributionSplit.value a.guid
  | .investment =>
    (input.startingInvestmentQty a.guid + input.totalOn AttributionSplit.quantity a.guid) *
      priceAsOf (book.history a) (endOfDay endDate)
  | _ => 0

theorem endNetWorth_eq (hle : startDate ≤ endDate)
    (hmonths : monthOf (endOfDay endDate) ≤ monthOf (startOfDay startDate) + 1200) :
    (attribution rate book startDate endDate).endNetWorth =
      (book.accounts.map (endOf rate book startDate endDate)).sum := by
  have hcovered := @covered rate book startDate endDate hle hmonths
  change (loadAttributionInput rate book startDate endDate).endNetWorth = _
  rw [AttributionInput.endNetWorth, AttributionInput.cashAndLiabilities,
    AttributionInput.investments, sum_filter_map, sum_filter_map, ← List.sum_map_add]
  simp only [AttributionInput.flow_eq hcovered, AttributionInput.endValue_eq hcovered]
  congr 1
  refine List.map_congr_left fun a ha => ?_
  have hgroup : (loadAttributionInput rate book startDate endDate).groupOf a.guid =
      classifyAccount a := @groupOf_of_mem rate book a ha
  have hprice : priceAsOf ((loadAttributionInput rate book startDate endDate).priceHistory a)
      (loadAttributionInput rate book startDate endDate).periodEnd =
        priceAsOf (book.history a) (endOfDay endDate) := rfl
  rw [hgroup, hprice, endOf]
  cases classifyAccount a <;> simp

theorem accountOf_eq (ha : a ∈ book.accounts) : book.accountOf a.guid = some a := by
  cases hfind : book.accountOf a.guid with
  | none =>
    have hnone := List.find?_eq_none.1 hfind a ha
    simp at hnone
  | some b =>
    have hguid : b.guid = a.guid := by simpa using List.find?_some hfind
    rw [List.inj_on_of_nodup_map book.accountKeys (accountOf_mem hfind) ha hguid]

theorem totalOn_eq (ha : a ∈ book.accounts)
    (hnone : fxReval rate book (startOfDay startDate) (endOfDay endDate) a = none)
    {w : AttributionSplit → ℚ} {f : Split → ℚ}
    (hw : ∀ guid d s,
      w ⟨guid, s.accountGuid, d, valueAt rate book (endOfDay endDate) s, s.quantity⟩ = f s) :
    (loadAttributionInput rate book startDate endDate).totalOn w a.guid =
      book.total (within startDate endDate) fun s => if s.accountGuid = a.guid then f s else 0 := by
  have hreval : ((book.accounts.filterMap
      (fxReval rate book (startOfDay startDate) (endOfDay endDate))).map fun s =>
        if s.accountGuid = a.guid then w s else 0).sum = 0 := by
    refine List.sum_eq_zero fun x hx => ?_
    obtain ⟨s, hs, rfl⟩ := List.mem_map.1 hx
    obtain ⟨b, hb, hsome⟩ := List.mem_filterMap.1 hs
    rw [if_neg]
    intro hguid
    rw [(revalued_of_fxReval hsome).account] at hguid
    rw [List.inj_on_of_nodup_map book.accountKeys hb ha hguid, hnone] at hsome
    cases hsome
  simp only [AttributionInput.totalOn, loadAttributionInput, List.map_append, List.sum_append]
  rw [hreval, add_zero, List.map_map, Book.total]
  congr 1
  refine List.map_congr_left fun r _ => ?_
  simp only [Function.comp_apply, hw]

theorem total_upto (hle : startDate ≤ endDate) (f : Split → ℚ) :
    book.total (fun d => d ≤ endOfDay endDate) f =
      book.total (fun d => d < startOfDay startDate) f +
        book.total (within startDate endDate) f := by
  have hbounds := startOfDay_le_endOfDay hle
  refine total_add (fun d => ?_) (fun d hd => ?_) f
  · rw [within, ← Bool.decide_or, decide_eq_decide]
    omega
  · rw [decide_eq_true_iff] at hd
    rw [within, decide_eq_false_iff_not]
    omega

theorem endOf_home (hle : startDate ≤ endDate) (ha : a ∈ book.accounts)
    (hcurrency : a.isCurrency = true) (hcommodity : a.commodityGuid.isSome)
    (hbase : book.base = a.commodityGuid)
    (hgroup : classifyAccount a = .cash ∨ classifyAccount a = .liability) :
    endOf rate book startDate endDate a =
      book.total (fun d => d ≤ endOfDay endDate) (quantityOn a.guid) := by
  have hnone : fxReval rate book (startOfDay startDate) (endOfDay endDate) a = none :=
    Option.eq_none_iff_forall_not_mem.2 fun s hs => (revalued_of_fxReval hs).abroad hbase
  have hvalue (t : ℤ) (s : Split) : valueOn rate book t a.guid s = quantityOn a.guid s := by
    unfold valueOn quantityOn
    by_cases hs : s.accountGuid = a.guid
    · obtain ⟨g, hg⟩ := Option.isSome_iff_exists.1 hcommodity
      rw [if_pos hs, if_pos hs, valueAt, hs, accountOf_eq ha]
      simp [hcurrency, rateFor, hbase, hg]
    · rw [if_neg hs, if_neg hs]
  have hend : endOf rate book startDate endDate a =
      startingCash rate book (startOfDay startDate) a.guid +
        (loadAttributionInput rate book startDate endDate).totalOn AttributionSplit.value a.guid := by
    rw [endOf]
    rcases hgroup with h | h <;> rw [h] <;> rfl
  rw [hend, startingCash_eq, totalOn_eq ha hnone (f := valueAt rate book (endOfDay endDate))
    fun _ _ _ => rfl, total_upto hle, total_congr (hvalue _)]
  exact congrArg _ (total_congr (hvalue _))

theorem endOf_holding (hle : startDate ≤ endDate) (ha : a ∈ book.accounts)
    (hgroup : classifyAccount a = .investment) :
    endOf rate book startDate endDate a =
      book.total (fun d => d ≤ endOfDay endDate) (quantityOn a.guid) *
        priceAsOf (book.history a) (endOfDay endDate) := by
  have hnone : fxReval rate book (startOfDay startDate) (endOfDay endDate) a = none := by
    unfold fxReval
    cases a.commodityGuid <;> simp [hgroup]
  have hend : endOf rate book startDate endDate a =
      (startingQty book (startOfDay startDate) a.guid +
        (loadAttributionInput rate book startDate endDate).totalOn AttributionSplit.quantity
          a.guid) * priceAsOf (book.history a) (endOfDay endDate) := by
    rw [endOf, hgroup]
    rfl
  rw [hend, startingQty_eq, totalOn_eq ha hnone (f := Split.quantity) fun _ _ _ => rfl,
    total_upto hle]
  rfl

/-- No split is posted on an account by an instant. -/
def Idle (book : Book) (t : ℤ) (guid : Guid) : Prop :=
  ∀ tx ∈ book.transactions, ∀ d ∈ tx.postDate, d ≤ t → ∀ s ∈ tx.splits, s.accountGuid ≠ guid

theorem total_idle {t : ℤ} {guid : Guid} (h : Idle book t guid) {p : ℤ → Bool}
    (hp : ∀ d, p d = true → d ≤ t) {f : Split → ℚ} (hf : ∀ s, s.accountGuid ≠ guid → f s = 0) :
    book.total p f = 0 := by
  rw [Book.total]
  refine List.sum_eq_zero fun x hx => ?_
  obtain ⟨r, hr, rfl⟩ := List.mem_map.1 hx
  obtain ⟨tx, htx, hrow⟩ := List.mem_flatMap.1 hr
  cases hdate : tx.postDate with
  | none =>
    rw [hdate] at hrow
    cases hrow
  | some d =>
    simp only [hdate] at hrow
    split at hrow
    · next hd =>
        obtain ⟨s, hs, rfl⟩ := List.mem_map.1 hrow
        exact hf s (h tx htx d hdate (hp d hd) s (List.mem_filter.1 hs).1)
    · cases hrow

theorem endOf_idle (hle : startDate ≤ endDate) (ha : a ∈ book.accounts)
    (h : Idle book (endOfDay endDate) a.guid) : endOf rate book startDate endDate a = 0 := by
  have hbefore (d : ℤ) (hd : decide (d < startOfDay startDate) = true) : d ≤ endOfDay endDate :=
    (of_decide_eq_true hd).le.trans (startOfDay_le_endOfDay hle)
  have hwithin (d : ℤ) (hd : within startDate endDate d = true) : d ≤ endOfDay endDate :=
    (of_decide_eq_true hd).2
  have hqty : startingQty book (startOfDay startDate) a.guid = 0 := by
    rw [startingQty_eq]
    exact total_idle h hbefore fun s hs => if_neg hs
  have hcash : startingCash rate book (startOfDay startDate) a.guid = 0 := by
    rw [startingCash_eq]
    exact total_idle h hbefore fun s hs => if_neg hs
  have hnone : fxReval rate book (startOfDay startDate) (endOfDay endDate) a = none :=
    Option.eq_none_iff_forall_not_mem.2 fun s hs => (revalued_of_fxReval hs).opened hqty
  have htotal {w : AttributionSplit → ℚ} {f : Split → ℚ} (hw : ∀ guid d s,
      w ⟨guid, s.accountGuid, d, valueAt rate book (endOfDay endDate) s, s.quantity⟩ = f s) :
      (loadAttributionInput rate book startDate endDate).totalOn w a.guid = 0 := by
    rw [totalOn_eq ha hnone hw]
    exact total_idle h hwithin fun s hs => if_neg hs
  have hvalue := htotal (w := AttributionSplit.value) fun _ _ _ => rfl
  have hquantity := htotal (w := AttributionSplit.quantity) fun _ _ _ => rfl
  unfold endOf
  simp only [hvalue, hquantity]
  cases classifyAccount a <;> simp [loadAttributionInput, hcash, hqty]

end NetWorth
