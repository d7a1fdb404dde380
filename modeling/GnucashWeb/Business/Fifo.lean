import Mathlib
import GnucashWeb.Business.PaymentBalance

/-!
# Oldest first

What `allocatePaymentFifo` does with a payment: the oldest documents are paid in full, rounded to the
currency, until the amount is used up (`allocatePaymentFifo_oldestFirst`).  An amount due that is a
whole number of currency units is not changed by the rounding; one that is not can be exceeded
(`allocatePaymentFifo_exceeds`).
-/

open Ledger Rounding

namespace Business

variable {fraction : ℕ}

/-! ## The specification -/

/-- When a document was posted; one without a date counts as posted after every date. -/
def OpenInvoiceForPayment.time (d : OpenInvoiceForPayment) : ℤ :=
  d.datePosted.getD maxSafeInteger

/-- Posted earlier, or at one time and with a guid that is not greater. -/
def OpenInvoiceForPayment.Older (a b : OpenInvoiceForPayment) : Prop :=
  a.time < b.time ∨ a.time = b.time ∧ a.guid ≤ b.guid

/-- An allocation to a document, of at most so much. -/
def Pays (atMost : OpenInvoiceForPayment → ℚ) (a : PaymentAllocation) (d : OpenInvoiceForPayment) :
    Prop :=
  a.invoiceGuid = d.guid ∧ a.amount ≤ atMost d

/-- An allocation to a document, of so much. -/
def PaysAll (due : OpenInvoiceForPayment → ℚ) (a : PaymentAllocation) (d : OpenInvoiceForPayment) :
    Prop :=
  a.invoiceGuid = d.guid ∧ a.amount = due d

/-- A payment allocated to the oldest documents with an amount due. -/
structure OldestFirst (due : OpenInvoiceForPayment → ℚ) (fraction : ℕ)
    (openInvoices : List OpenInvoiceForPayment) (amount : ℚ) (r : FifoAllocationResult) : Prop where
  total : (r.allocations.map PaymentAllocation.amount).sum + r.remainder =
    roundCurrency amount fraction
  documents : ∃ paid unpaid : List OpenInvoiceForPayment,
    (paid ++ unpaid).Perm (openInvoices.filter fun i => paymentEpsilon fraction < i.amountDue) ∧
      (paid ++ unpaid).Pairwise OpenInvoiceForPayment.Older ∧
      List.Forall₂ (Pays due) r.allocations paid ∧
      List.Forall₂ (PaysAll due) r.allocations.dropLast paid.dropLast

def dueInCurrency (fraction : ℕ) (d : OpenInvoiceForPayment) : ℚ :=
  roundCurrency d.amountDue fraction

theorem before_eq_true {a b : OpenInvoiceForPayment} : a.before b = true ↔ a.Older b := by
  simp [OpenInvoiceForPayment.before, OpenInvoiceForPayment.Older, OpenInvoiceForPayment.time]

theorem pairwise_older (docs : List OpenInvoiceForPayment) :
    (docs.insertionSort fun a b => a.before b).Pairwise OpenInvoiceForPayment.Older := by
  have htotal : Std.Total fun a b : OpenInvoiceForPayment => a.before b = true := by
    refine ⟨fun a b => ?_⟩
    rw [before_eq_true, before_eq_true]
    unfold OpenInvoiceForPayment.Older
    rcases lt_trichotomy a.time b.time with h | h | h
    · exact .inl (.inl h)
    · exact (le_total a.guid b.guid).imp (fun hg => .inr ⟨h, hg⟩) fun hg => .inr ⟨h.symm, hg⟩
    · exact .inr (.inl h)
  have htrans : IsTrans OpenInvoiceForPayment fun a b => a.before b = true := by
    refine ⟨fun a b c hab hbc => ?_⟩
    rw [before_eq_true] at hab hbc ⊢
    rcases hab with hab | ⟨hab, hguid⟩ <;> rcases hbc with hbc | ⟨hbc, hguid'⟩
    · exact .inl (hab.trans hbc)
    · exact .inl (hbc ▸ hab)
    · exact .inl (hab ▸ hbc)
    · exact .inr ⟨hab.trans hbc, hguid.trans hguid'⟩
  exact (List.pairwise_insertionSort _ docs).imp before_eq_true.1

/-! ## The rounds -/

theorem units_min (hf : 0 < fraction) {due : ℚ} (hdue : 0 ≤ due) {n : ℤ} (hn : 0 ≤ n) :
    units (min due (n / fraction)) fraction = min (units due fraction) n := by
  have hf' : (0 : ℚ) < fraction := by exact_mod_cast hf
  rcases le_total due (n / fraction) with h | h
  · rw [min_eq_left h, min_eq_left (units_le hf hn h)]
  · have hle : n ≤ units due fraction := by
      rw [units_of_nonneg hdue]
      exact le_round_of_intCast_le ((div_le_iff₀ hf').1 h)
    rw [min_eq_right h, min_eq_right hle, units_div hf]

theorem paymentEpsilon_pos (hf : 0 < fraction) : 0 < paymentEpsilon fraction := by
  unfold paymentEpsilon
  positivity

theorem paymentEpsilon_lt_div (hf : 0 < fraction) {n : ℤ} :
    paymentEpsilon fraction < (n / fraction : ℚ) ↔ 0 < n := by
  have hf' : (0 : ℚ) < fraction := by exact_mod_cast hf
  rw [paymentEpsilon, div_lt_div_iff_of_pos_right hf']
  constructor
  · intro h
    have : (0 : ℚ) < n := by linarith
    exact_mod_cast this
  · intro h
    have : (1 : ℚ) ≤ n := by exact_mod_cast h
    linarith

theorem allocateFrom_cons (hf : 0 < fraction) {n : ℤ} (hn : 0 < n) {inv : OpenInvoiceForPayment}
    (hdue : 0 ≤ inv.amountDue) (rest : List OpenInvoiceForPayment) :
    allocateFrom fraction (n / fraction) (inv :: rest) =
      let k := min (units inv.amountDue fraction) n
      let result := allocateFrom fraction ((n - k : ℤ) / fraction) rest
      ⟨⟨inv.guid, k / fraction⟩ :: result.allocations, result.remainder⟩ := by
  have htake : roundCurrency (min inv.amountDue (n / fraction)) fraction =
      (min (units inv.amountDue fraction) n : ℤ) / fraction := by
    rw [roundCurrency_eq, units_min hf hdue hn.le]
  have hrest (k : ℤ) : roundCurrency ((n / fraction : ℚ) - k / fraction) fraction =
      ((n - k : ℤ) : ℚ) / fraction := by
    rw [← roundCurrency_div hf (n - k)]
    push_cast
    rw [sub_div]
  rw [allocateFrom, if_neg (not_le.2 ((paymentEpsilon_lt_div hf).2 hn))]
  dsimp only
  rw [htake, hrest]

theorem allocateFrom_of_nonpos (hf : 0 < fraction) {n : ℤ} (hn : n ≤ 0)
    (docs : List OpenInvoiceForPayment) :
    allocateFrom fraction (n / fraction) docs = ⟨[], n / fraction⟩ := by
  cases docs with
  | nil => rfl
  | cons inv rest =>
    rw [allocateFrom, if_pos]
    exact not_lt.1 fun h => absurd ((paymentEpsilon_lt_div hf).1 h) (not_lt.2 hn)

theorem allocateFrom_pays (hf : 0 < fraction) (docs : List OpenInvoiceForPayment)
    (hdocs : ∀ d ∈ docs, 0 ≤ d.amountDue) (n : ℤ) :
    let r := allocateFrom fraction (n / fraction) docs
    (r.allocations.map PaymentAllocation.amount).sum + r.remainder = n / fraction ∧
      ∃ paid unpaid, paid ++ unpaid = docs ∧
        List.Forall₂ (Pays (dueInCurrency fraction)) r.allocations paid ∧
        List.Forall₂ (PaysAll (dueInCurrency fraction)) r.allocations.dropLast paid.dropLast := by
  induction docs generalizing n with
  | nil => exact ⟨by simp [allocateFrom], [], [], rfl, .nil, .nil⟩
  | cons inv rest ih =>
    by_cases hn : n ≤ 0
    · rw [allocateFrom_of_nonpos hf hn]
      exact ⟨by simp, [], inv :: rest, rfl, .nil, .nil⟩
    have hinv : 0 ≤ inv.amountDue := hdocs inv List.mem_cons_self
    rw [allocateFrom_cons hf (not_le.1 hn) hinv]
    generalize hk : min (units inv.amountDue fraction) n = k
    have hrest := ih (fun d hd => hdocs d (List.mem_cons_of_mem _ hd)) (n - k)
    dsimp only at hrest ⊢
    generalize hr : allocateFrom fraction ((n - k : ℤ) / fraction) rest = r at hrest ⊢
    obtain ⟨allocations, remainder⟩ := r
    obtain ⟨htotal, paid, unpaid, hdocs', hpays, hfull⟩ := hrest
    have hmost : (k / fraction : ℚ) ≤ dueInCurrency fraction inv := by
      have : k ≤ units inv.amountDue fraction := hk ▸ min_le_left _ _
      rw [dueInCurrency, roundCurrency_eq]
      gcongr
    refine ⟨?_, inv :: paid, unpaid, by rw [List.cons_append, hdocs'], .cons ⟨rfl, hmost⟩ hpays, ?_⟩
    · rw [List.map_cons, List.sum_cons, add_assoc, htotal]
      push_cast
      ring
    · cases hpays with
      | nil => exact .nil
      | cons ha hpays =>
        -- A round after this one finds something left, so this one took all that was due.
        have hleft : 0 < n - k := by
          by_contra hnone
          rw [allocateFrom_of_nonpos hf (not_lt.1 hnone)] at hr
          cases hr
        have hall : k = units inv.amountDue fraction := by omega
        exact .cons ⟨rfl, by rw [dueInCurrency, roundCurrency_eq, hall]⟩ hfull

/-- The amount is allocated oldest first, to amounts due that are rounded to the currency; the
rounding leaves a whole number of units as it is. -/
theorem allocatePaymentFifo_oldestFirst (hf : 0 < fraction)
    (openInvoices : List OpenInvoiceForPayment) (amount : ℚ) :
    OldestFirst (dueInCurrency fraction) fraction openInvoices amount
        (allocatePaymentFifo openInvoices amount fraction) ∧
      ∀ d : OpenInvoiceForPayment, (∃ n : ℤ, d.amountDue = n / fraction) →
        dueInCurrency fraction d = d.amountDue := by
  let docs := (openInvoices.filter fun i => paymentEpsilon fraction < i.amountDue).insertionSort
    fun a b => a.before b
  have hperm : docs.Perm (openInvoices.filter fun i => paymentEpsilon fraction < i.amountDue) :=
    List.perm_insertionSort _ _
  have hdocs : ∀ d ∈ docs, 0 ≤ d.amountDue := fun d hd =>
    (paymentEpsilon_pos hf).le.trans (of_decide_eq_true (List.mem_filter.1 (hperm.mem_iff.1 hd)).2).le
  obtain ⟨htotal, paid, unpaid, hsplit, hpays, hfull⟩ :=
    allocateFrom_pays hf docs hdocs (units amount fraction)
  refine ⟨⟨htotal, paid, unpaid, ?_, ?_, hpays, hfull⟩, ?_⟩
  · rwa [hsplit]
  · rw [hsplit]
    exact pairwise_older _
  · rintro d ⟨n, hn⟩
    rw [dueInCurrency, hn, roundCurrency_div hf]

/-- A document with half a currency unit due, in a currency without subunits. -/
def halfUnitDue : OpenInvoiceForPayment := ⟨"i1", some 0, 201 / 2⟩

theorem allocatePaymentFifo_oldestFirst_halfUnitDue :
    0 < 1 ∧ OldestFirst (dueInCurrency 1) 1 [halfUnitDue] 200
      (allocatePaymentFifo [halfUnitDue] 200 1) :=
  ⟨one_pos, (allocatePaymentFifo_oldestFirst one_pos [halfUnitDue] 200).1⟩

/-- The document is allocated more than is due on it. -/
theorem allocatePaymentFifo_exceeds :
    ¬∀ openInvoices amount fraction, 0 < fraction →
      OldestFirst OpenInvoiceForPayment.amountDue fraction openInvoices amount
        (allocatePaymentFifo openInvoices amount fraction) := by
  intro h
  have hfifo := h [halfUnitDue] 200 1 one_pos
  have hr : allocatePaymentFifo [halfUnitDue] 200 1 = ⟨[⟨"i1", 101⟩], 99⟩ := by decide +kernel
  rw [hr] at hfifo
  obtain ⟨paid, unpaid, hperm, -, hpays, -⟩ := hfifo.documents
  cases hpays with
  | @cons a d _ paid ha _ =>
    have hd : d = halfUnitDue := by
      have hmem := (List.mem_filter.1 (hperm.mem_iff.1 List.mem_cons_self)).1
      exact List.mem_singleton.1 hmem
    have hle := ha.2
    rw [hd] at hle
    norm_num [halfUnitDue] at hle

end Business
