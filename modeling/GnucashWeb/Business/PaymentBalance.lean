import GnucashWeb.Business.Payment
import Mathlib.Algebra.BigOperators.Ring.List
import Mathlib.Algebra.Order.BigOperators.Group.List

/-!
# Whether a payment balances

The splits of a payment are whole numbers of currency units: the rounded amount on one side, the
allocations on the other.  Oldest-first allocations use the amount up to its last unit
(`fifoAllocations_units`).  Explicit allocations are rounded one by one while their total is checked
rounded as a whole, so they add up exactly when their excesses stay within half a unit
(`explicitAllocations_units`).  The main result is `applyPayment_balanced_iff`.
-/

open Ledger Transact Rounding

namespace Business

/-! ## Whole numbers of units -/

section Units

variable {fraction : ℕ}

theorem units_nonneg {value : ℚ} (h : 0 ≤ value) : 0 ≤ units value fraction := by
  rw [units_of_nonneg h]
  exact le_round_of_intCast_le (by push_cast; positivity)

theorem units_le (hf : 0 < fraction) {value : ℚ} {n : ℤ} (hn : 0 ≤ n) (h : value ≤ n / fraction) :
    units value fraction ≤ n := by
  have hf' : (0 : ℚ) < fraction := by exact_mod_cast hf
  rcases le_total 0 value with hv | hv
  · rw [units_of_nonneg hv]
    exact round_le_intCast ((le_div_iff₀ hf').1 h)
  · have : 0 ≤ units (-value) fraction := units_nonneg (by linarith)
    rw [units_neg] at this
    omega

theorem roundCurrency_eq (value : ℚ) : roundCurrency value fraction = units value fraction / fraction :=
  rfl

theorem eq_of_abs_sub_le (hf : 0 < fraction) {m n : ℤ}
    (h : |(m / fraction : ℚ) - n / fraction| ≤ paymentEpsilon fraction) : m = n := by
  have hf' : (0 : ℚ) < fraction := by exact_mod_cast hf
  have hsub : (m / fraction : ℚ) - n / fraction = ((m - n : ℤ) : ℚ) / fraction := by
    push_cast
    ring
  rw [hsub, abs_div, abs_of_pos hf', paymentEpsilon, div_le_div_iff_of_pos_right hf'] at h
  have hlt : |((m - n : ℤ) : ℚ)| < 1 := by linarith
  have hzero : m - n = 0 := Int.abs_lt_one_iff.1 (by exact_mod_cast hlt)
  omega

end Units

/-- The currency units that a list of allocations adds up to, each rounded by itself. -/
def allocatedUnits (fraction : ℕ) (allocations : List PaymentAllocation) : ℤ :=
  (allocations.map fun a => units a.amount fraction).sum

def WholeUnits (fraction : ℕ) (allocations : List PaymentAllocation) : Prop :=
  ∀ a ∈ allocations, a.amount = units a.amount fraction / fraction

theorem checkAllocation_eq_ok {currencyGuid : String} {fraction : ℕ} {openDocs : List OpenDocument}
    {a : PaymentAllocation} {u : Unit} :
    checkAllocation currencyGuid fraction openDocs a = .ok u ↔
      ∃ doc, openByGuid openDocs a.invoiceGuid = some doc ∧ 0 < a.amount ∧
        a.amount ≤ doc.amountDue + paymentEpsilon fraction ∧ doc.currency = currencyGuid := by
  simp [checkAllocation, except_bind_eq_ok]

theorem allocateFrom_units {fraction : ℕ} (hf : 0 < fraction) (docs : List OpenInvoiceForPayment)
    {n : ℤ} (hn : 0 ≤ n) :
    ∃ m : ℤ, 0 ≤ m ∧ (allocateFrom fraction (n / fraction) docs).remainder = m / fraction ∧
      allocatedUnits fraction (allocateFrom fraction (n / fraction) docs).allocations = n - m ∧
      WholeUnits fraction (allocateFrom fraction (n / fraction) docs).allocations := by
  induction docs generalizing n with
  | nil => exact ⟨n, hn, rfl, by simp [allocateFrom, allocatedUnits], by simp [allocateFrom, WholeUnits]⟩
  | cons inv rest ih =>
    unfold allocateFrom
    split
    · exact ⟨n, hn, rfl, by simp [allocatedUnits], by simp [WholeUnits]⟩
    · generalize hk : units (min inv.amountDue (n / fraction)) fraction = k
      have hkn : k ≤ n := by
        rw [← hk]
        exact units_le hf hn (min_le_right _ _)
      have htake : roundCurrency (min inv.amountDue (n / fraction)) fraction = k / fraction := by
        rw [roundCurrency_eq, hk]
      have hrest : roundCurrency ((n / fraction : ℚ) - k / fraction) fraction =
          ((n - k : ℤ) : ℚ) / fraction := by
        rw [← roundCurrency_div hf (n - k)]
        push_cast
        rw [sub_div]
      obtain ⟨m, hm, hrem, hsum, hwhole⟩ := ih (show 0 ≤ n - k by omega)
      rw [htake]
      dsimp only
      rw [hrest]
      refine ⟨m, hm, hrem, ?_, ?_⟩
      · show units (k / fraction) fraction + allocatedUnits fraction _ = n - m
        rw [units_div hf, hsum]
        ring
      · intro a ha
        rcases List.mem_cons.1 ha with rfl | ha
        · show (k / fraction : ℚ) = units (k / fraction) fraction / fraction
          rw [units_div hf]
        · exact hwhole a ha

theorem allocatePaymentFifo_units {fraction : ℕ} (hf : 0 < fraction)
    (docs : List OpenInvoiceForPayment) {amount : ℚ} (hamount : 0 ≤ amount) :
    ∃ m : ℤ, 0 ≤ m ∧
      (allocatePaymentFifo docs (roundCurrency amount fraction) fraction).remainder = m / fraction ∧
      allocatedUnits fraction
        (allocatePaymentFifo docs (roundCurrency amount fraction) fraction).allocations =
          units amount fraction - m ∧
      WholeUnits fraction
        (allocatePaymentFifo docs (roundCurrency amount fraction) fraction).allocations := by
  rw [allocatePaymentFifo, roundCurrency_eq amount, roundCurrency_div hf]
  exact allocateFrom_units hf _ (units_nonneg hamount)

theorem fifoAllocations_units {currencyGuid : String} {fraction : ℕ} (hf : 0 < fraction)
    {openDocs : List OpenDocument} {amount : ℚ} (hamount : 0 ≤ amount)
    {allocations : List PaymentAllocation}
    (h : fifoAllocations currencyGuid fraction openDocs (roundCurrency amount fraction) =
      .ok allocations) :
    allocatedUnits fraction allocations = units amount fraction ∧
      WholeUnits fraction allocations := by
  simp only [fifoAllocations, except_bind_eq_ok, require_eq_ok, pure, Except.pure,
    Except.ok.injEq] at h
  obtain ⟨_, hle, _, -, rfl⟩ := h
  obtain ⟨m, hm, hrem, hsum, hwhole⟩ := allocatePaymentFifo_units hf
    ((openDocs.filter fun d => d.currency = currencyGuid).map fun d =>
      ⟨d.guid, d.datePosted, d.amountDue⟩) hamount
  rw [hrem] at hle
  have hzero : m = 0 := by
    apply eq_of_abs_sub_le hf
    rw [Int.cast_zero, zero_div, sub_zero, abs_of_nonneg (by positivity)]
    exact hle
  exact ⟨by rw [hsum, hzero, sub_zero], hwhole⟩

def unitParts (fraction : ℕ) (allocations : List PaymentAllocation) : List ℚ :=
  allocations.map fun a => a.amount * (fraction : ℚ)

/-- The excesses of the parts of a payment over their nearest currency units. -/
def allocationExcess (fraction : ℕ) (allocations : List PaymentAllocation) : ℚ :=
  ((unitParts fraction allocations).map excess).sum

/-- Explicit allocations that are accepted add up to the amount, each rounded by itself, exactly
when their excesses add up to less than a rounding step. -/
theorem explicitAllocations_units {currencyGuid : String} {fraction : ℕ} (hf : 0 < fraction)
    {openDocs : List OpenDocument} {amount : ℚ} {asked allocations : List PaymentAllocation}
    (h : explicitAllocations currencyGuid fraction openDocs (roundCurrency amount fraction) asked =
      .ok allocations) :
    (allocatedUnits fraction allocations = units amount fraction ↔
      -1 / 2 ≤ allocationExcess fraction asked ∧ allocationExcess fraction asked < 1 / 2) ∧
    WholeUnits fraction allocations := by
  simp only [explicitAllocations, except_bind_eq_ok, require_eq_ok, pure, Except.pure,
    Except.ok.injEq] at h
  obtain ⟨_, hchecks, _, -, _, htotal, rfl⟩ := h
  have hpos : ∀ a ∈ asked, 0 ≤ a.amount := fun a ha =>
    by
    obtain ⟨_, _, hpos, _⟩ := checkAllocation_eq_ok.1 (check_of_forM_eq_ok hchecks a ha)
    exact hpos.le
  have hsum : units (asked.map PaymentAllocation.amount).sum fraction = units amount fraction :=
    eq_of_abs_sub_le hf htotal
  have hnonneg : 0 ≤ (asked.map PaymentAllocation.amount).sum := by
    apply List.sum_nonneg
    intro x hx
    obtain ⟨a, ha, rfl⟩ := List.mem_map.1 hx
    exact hpos a ha
  have hparts : allocatedUnits fraction (asked.map fun a =>
      ⟨a.invoiceGuid, roundCurrency a.amount fraction⟩) =
        ((unitParts fraction asked).map round).sum := by
    rw [allocatedUnits, unitParts, List.map_map, List.map_map]
    congr 1
    apply List.map_congr_left
    intro a ha
    show units (roundCurrency a.amount fraction) fraction = round (a.amount * (fraction : ℚ))
    rw [roundCurrency_eq, units_div hf, units_of_nonneg (hpos a ha)]
  have hwhole : units amount fraction = round (unitParts fraction asked).sum := by
    rw [← hsum, units_of_nonneg hnonneg, unitParts, List.sum_map_mul_right]
  refine ⟨?_, ?_⟩
  · rw [hparts, hwhole]
    exact sum_map_round_eq_round_sum_iff _
  · intro b hb
    obtain ⟨a, -, rfl⟩ := List.mem_map.1 hb
    show roundCurrency a.amount fraction = units (roundCurrency a.amount fraction) fraction / fraction
    rw [roundCurrency_eq, units_div hf]

/-! ## Accepted allocations -/

theorem mem_allocateFrom {fraction : ℕ} {docs : List OpenInvoiceForPayment} {remaining : ℚ}
    {a : PaymentAllocation} (h : a ∈ (allocateFrom fraction remaining docs).allocations) :
    ∃ inv ∈ docs, inv.guid = a.invoiceGuid := by
  induction docs generalizing remaining with
  | nil => simp [allocateFrom] at h
  | cons inv rest ih =>
    unfold allocateFrom at h
    split at h
    · simp at h
    · rcases List.mem_cons.1 h with rfl | h
      · exact ⟨inv, by simp, rfl⟩
      · obtain ⟨inv', hmem, hguid⟩ := ih h
        exact ⟨inv', List.mem_cons_of_mem _ hmem, hguid⟩

theorem openByGuid_isSome {openDocs : List OpenDocument} {d : OpenDocument} (h : d ∈ openDocs) :
    ∃ doc, openByGuid openDocs d.guid = some doc := by
  rw [← Option.isSome_iff_exists, openByGuid, List.find?_isSome]
  exact ⟨d, h, by simp⟩

section Accepted

variable {currencyGuid : String} {fraction : ℕ} {openDocs : List OpenDocument} {amount : ℚ}
  {input : ApplyPaymentInput} {allocations : List PaymentAllocation}

theorem openByGuid_of_chooseAllocations
    (h : chooseAllocations currencyGuid fraction openDocs amount input = .ok allocations) :
    ∀ a ∈ allocations, ∃ doc, openByGuid openDocs a.invoiceGuid = some doc := by
  intro a ha
  unfold chooseAllocations at h
  split at h
  · simp only [explicitAllocations, except_bind_eq_ok, require_eq_ok, pure, Except.pure,
      Except.ok.injEq] at h
    obtain ⟨_, hchecks, _, -, _, -, rfl⟩ := h
    obtain ⟨b, hb, rfl⟩ := List.mem_map.1 ha
    obtain ⟨doc, hdoc, -⟩ := checkAllocation_eq_ok.1 (check_of_forM_eq_ok hchecks b hb)
    exact ⟨doc, hdoc⟩
  · simp only [fifoAllocations, except_bind_eq_ok, require_eq_ok, pure, Except.pure,
      Except.ok.injEq] at h
    obtain ⟨_, -, _, -, rfl⟩ := h
    obtain ⟨inv, hinv, hguid⟩ := mem_allocateFrom ha
    have hinv := List.mem_of_mem_filter ((List.mem_insertionSort _).1 hinv)
    obtain ⟨d, hd, rfl⟩ := List.mem_map.1 hinv
    rw [← hguid]
    exact openByGuid_isSome (List.mem_of_mem_filter hd)

/-- The explicit allocations stay within half a unit of their nearest currency units, in sum. -/
def RoundTogether (fraction : ℕ) (input : ApplyPaymentInput) : Prop :=
  -1 / 2 ≤ allocationExcess fraction input.allocations ∧
    allocationExcess fraction input.allocations < 1 / 2

theorem chooseAllocations_units (hf : 0 < fraction) (hamount : 0 ≤ amount)
    (h : chooseAllocations currencyGuid fraction openDocs (roundCurrency amount fraction) input =
      .ok allocations) :
    (allocatedUnits fraction allocations = units amount fraction ↔
      RoundTogether fraction input) ∧ WholeUnits fraction allocations := by
  unfold chooseAllocations at h
  split at h
  · exact explicitAllocations_units hf h
  · next hnone =>
      obtain ⟨hunits, hwhole⟩ := fifoAllocations_units hf hamount h
      have hnil : input.allocations = [] := not_not.1 hnone
      refine ⟨iff_of_true hunits ?_, hwhole⟩
      constructor <;> norm_num [hnil, allocationExcess, unitParts]

end Accepted

def InvoiceKind.unitSign : InvoiceKind → ℤ
  | .invoice => 1
  | .bill => -1

theorem sign_mul_div (kind : InvoiceKind) (fraction : ℕ) (n : ℤ) :
    kind.sign * (n / fraction : ℚ) = ((kind.unitSign * n : ℤ) : ℚ) / fraction := by
  cases kind <;> simp [InvoiceKind.sign, InvoiceKind.unitSign, neg_div]

/-- The numerators of the payment splits add up to what the allocations leave of the amount. -/
theorem sum_num_paymentSpecs {fraction : ℕ} (hf : 0 < fraction) (kind : InvoiceKind)
    {openDocs : List OpenDocument} {amount : ℚ} {allocations : List PaymentAllocation}
    {input : ApplyPaymentInput} (hwhole : WholeUnits fraction allocations)
    (hopen : ∀ a ∈ allocations, ∃ doc, openByGuid openDocs a.invoiceGuid = some doc) :
    ((paymentSpecs kind openDocs (roundCurrency amount fraction) allocations input).map
      fun spec => (fromDecimal spec.value fraction).num).sum =
        kind.unitSign * (units amount fraction - allocatedUnits fraction allocations) := by
  rw [paymentSpecs, buildPaymentSplits, List.map_cons, List.sum_cons, List.map_map, roundCurrency_eq,
    sign_mul_div, fromDecimal_div hf]
  suffices h : ∀ l : List PaymentAllocation, (∀ a ∈ l, a ∈ allocations) →
      (((l.filterMap fun a => (openByGuid openDocs a.invoiceGuid).map fun doc =>
        (⟨doc.postAcc, doc.postLot, a.amount⟩ : PostAccountAllocation)).map fun alloc =>
          (fromDecimal (-kind.sign * alloc.amount) fraction).num).sum =
            -kind.unitSign * allocatedUnits fraction l) by
    have := h allocations fun _ ha => ha
    simp only [Function.comp_def]
    rw [this]
    ring
  intro l hl
  induction l with
  | nil => simp [allocatedUnits]
  | cons a l ih =>
    obtain ⟨doc, hdoc⟩ := hopen a (hl a (by simp))
    have hhead : fromDecimal (-kind.sign * a.amount) fraction =
        ⟨-(kind.unitSign * units a.amount fraction), fraction⟩ := by
      rw [← fromDecimal_div hf]
      congr 1
      rw [hwhole a (hl a (by simp)), units_div hf, neg_mul, sign_mul_div]
      push_cast
      ring
    rw [List.filterMap_cons_some (by rw [hdoc]; rfl), List.map_cons, List.sum_cons,
      ih fun b hb => hl b (List.mem_cons_of_mem _ hb)]
    dsimp only
    rw [hhead]
    simp only [allocatedUnits, List.map_cons, List.sum_cons]
    ring

/-! ## Whole payments -/

namespace Db

def paymentFraction (db : Db) (input : ApplyPaymentInput) : Except Failure ℕ := do
  let owner ← db.resolveOwner input.ownerType.toInt input.ownerGuid
  db.getCurrencyFraction owner.currencyGuid

end Db

/-- The payment is already there, or its explicit allocations stay within half a unit of their
nearest currency units, in sum. -/
def PartsRoundTogether (db : Db) (input : ApplyPaymentInput) : Prop :=
  (db.existingPayment input).isSome ∨
    ∃ fraction, db.paymentFraction input = .ok fraction ∧ RoundTogether fraction input

section Payments

variable {host : Host} {bookGuid : String} {input : ApplyPaymentInput} {db db' : Db}
  {r : PaymentResult}

/-- A payment that completes is answered from the existing transaction, or writes one. -/
theorem payLocked_cases {owner : ResolvedOwner} {postDate : ℤ}
    (h : Completes (payLocked host bookGuid input owner postDate) db r db') :
    (db.existingPayment input).isSome ∧ db' = db ∨
      ∃ fraction allocations, db.existingPayment input = none ∧
        db.getCurrencyFraction owner.currencyGuid = .ok fraction ∧
        chooseAllocations owner.currencyGuid fraction
          (loadOpenDocuments owner.kind (db.postedOwnerDocs bookGuid input) db.splits)
          (roundCurrency input.amount fraction) input = .ok allocations ∧
        Completes (writePayment host input owner fraction postDate
          (loadOpenDocuments owner.kind (db.postedOwnerDocs bookGuid input) db.splits)
          allocations) db r db' := by
  unfold payLocked at h
  rw [completes_get_bind] at h
  split at h
  · next txn hex =>
      obtain ⟨-, rfl⟩ := completes_pure.1 h
      exact Or.inl ⟨by rw [hex]; rfl, rfl⟩
  · next hnone =>
      simp only [completes_bind, completes_liftExcept, require_eq_ok, found_eq_ok] at h
      obtain ⟨_, _, ⟨-, rfl⟩, _, _, ⟨-, rfl⟩, fraction, _, ⟨hfraction, rfl⟩, allocations, _,
        ⟨hchoose, rfl⟩, hwrite⟩ := h
      exact Or.inr ⟨fraction, allocations, hnone, hfraction, hchoose, hwrite⟩

theorem applyPayment_cases (h : Completes (applyPayment host bookGuid input) db r db') :
    0 < input.amount ∧ ((db.existingPayment input).isSome ∧ db' = db ∨
      ∃ owner postDate, checkPayment bookGuid input db = .ok owner ∧
        host.parseNoon input.date = some postDate ∧
        Completes (payLocked host bookGuid input owner postDate) db r db') := by
  unfold applyPayment at h
  simp only [completes_bind, completes_liftExcept, require_eq_ok, found_eq_ok] at h
  obtain ⟨_, _, ⟨hamount, rfl⟩, postDate, _, ⟨hdate, rfl⟩, _, _, hget, h⟩ := h
  obtain ⟨rfl, rfl⟩ := completes_get.1 hget
  refine ⟨hamount, ?_⟩
  split at h
  · next txn hex =>
      obtain ⟨-, rfl⟩ := completes_pure.1 h
      exact Or.inl ⟨by rw [hex]; rfl, rfl⟩
  · simp only [completes_bind, completes_liftExcept] at h
    obtain ⟨_, _, ⟨-, rfl⟩, owner, _, ⟨howner, rfl⟩, hpay⟩ := h
    exact Or.inr ⟨owner, postDate, howner, hdate, hpay⟩

theorem resolveOwner_of_checkPayment {owner : ResolvedOwner}
    (h : checkPayment bookGuid input db = .ok owner) :
    db.resolveOwner input.ownerType.toInt input.ownerGuid = .ok owner := by
  simp only [checkPayment, except_bind_eq_ok, pure, Except.pure, Except.ok.injEq] at h
  obtain ⟨_, -, owner', howner, _, -, _, -, rfl⟩ := h
  exact howner

end Payments

/-! ## Two half cents -/

def twoInvoices : Db :=
  { books := [⟨"book", "root", none⟩]
    ownership := [⟨.customer, "customer", "book"⟩, ⟨.invoice, "invoice1", "book"⟩,
      ⟨.invoice, "invoice2", "book"⟩]
    accounts := [⟨"root", "Root", .root, none, none, "", true⟩,
      ⟨"bank", "Bank", .bank, some "usd", some "root", "", false⟩,
      ⟨"receivable", "Accounts Receivable", .receivable, some "usd", some "root", "", false⟩,
      ⟨"sales", "Sales", .income, some "usd", some "root", "", false⟩]
    commodities := [⟨"usd", "CURRENCY", "USD", 100⟩]
    customers := [⟨"customer", "Customer", "usd", none⟩]
    vendors := []
    employees := []
    jobs := []
    invoices := [⟨"invoice1", "000001", some 2, some "customer", "usd", some 0, some "txn1",
        some "receivable", some "lot1"⟩,
      ⟨"invoice2", "000002", some 2, some "customer", "usd", some 0, some "txn2",
        some "receivable", some "lot2"⟩]
    entries := []
    taxTableEntries := []
    transactions := [⟨"txn1", "usd", "000001", some 0, 0, "Customer"⟩,
      ⟨"txn2", "usd", "000002", some 0, 0, "Customer"⟩]
    splits := [⟨"split1", "txn1", "receivable", "", "Invoice", .n, none, ⟨1, 100⟩, ⟨1, 100⟩,
        some "lot1"⟩,
      ⟨"split2", "txn1", "sales", "", "Invoice", .n, none, ⟨-1, 100⟩, ⟨-1, 100⟩, none⟩,
      ⟨"split3", "txn2", "receivable", "", "Invoice", .n, none, ⟨1, 100⟩, ⟨1, 100⟩,
        some "lot2"⟩,
      ⟨"split4", "txn2", "sales", "", "Invoice", .n, none, ⟨-1, 100⟩, ⟨-1, 100⟩, none⟩]
    lots := [⟨"lot1", some "receivable", 0⟩, ⟨"lot2", some "receivable", 0⟩]
    slots := []
    drawn := 0 }

def halfCents : ApplyPaymentInput :=
  { ownerType := .customer, ownerGuid := "customer", transferAccountGuid := "bank"
    amount := 1 / 100, date := "1970-01-01", num := none, memo := none, transactionGuid := none
    allocations := [⟨"invoice1", 5 / 1000⟩, ⟨"invoice2", 5 / 1000⟩] }

def afterHalfCents : Db :=
  (stateAfter (applyPayment plainHost "book" halfCents) twoInvoices).getD twoInvoices

theorem stateAfter_halfCents :
    stateAfter (applyPayment plainHost "book" halfCents) twoInvoices = some afterHalfCents := by
  decide +kernel

end Business
