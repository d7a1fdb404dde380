import GnucashWeb.Ledger.Amount
import GnucashWeb.Lib.Rounding
import Mathlib.Data.List.Sort

/-!
# Document totals, posting and payment splits

The arithmetic of documents: the value of an entry, the totals of a document, the splits of a
posting and of a payment, and the oldest-first allocation of a payment.  Amounts are exact numbers.

A number that `roundCurrency` returns is a whole number of currency units (`roundCurrency_eq`), so
`fromDecimal` stores it exactly (`fromDecimal_div`).
-/

open Ledger

namespace Business

/-! ## Rounding to the currency -/

/-- A number in currency units, rounded half away from zero. -/
def units (value : ℚ) (fraction : ℕ) : ℤ :=
  (if value < 0 then -1 else 1) * mathRound (|value| * fraction)

def roundCurrency (value : ℚ) (fraction : ℕ) : ℚ := units value fraction / fraction

/-- The fraction of `roundCurrency` when the caller names none. -/
def defaultFraction : ℕ := 100

theorem mathRound_eq_round (x : ℚ) : mathRound x = round x := (round_eq x).symm

theorem units_of_nonneg {value : ℚ} (h : 0 ≤ value) (fraction : ℕ) :
    units value fraction = round (value * fraction) := by
  rw [units, if_neg (not_lt.2 h), one_mul, mathRound_eq_round, abs_of_nonneg h]

theorem units_neg (value : ℚ) (fraction : ℕ) : units (-value) fraction = -units value fraction := by
  rcases lt_trichotomy value 0 with h | rfl | h
  · rw [units, units, if_neg (by linarith), if_pos h, abs_neg]
    ring
  · simp [units, mathRound_eq_round]
  · rw [units, units, if_pos (by linarith), if_neg (by linarith), abs_neg]
    ring

section Whole

variable {fraction : ℕ} (hf : 0 < fraction)
include hf

theorem div_mul_fraction (n : ℤ) : (n / fraction : ℚ) * fraction = n := by
  have : (fraction : ℚ) ≠ 0 := by exact_mod_cast hf.ne'
  field_simp

theorem units_div (n : ℤ) : units (n / fraction : ℚ) fraction = n := by
  rcases le_total 0 n with h | h
  · rw [units_of_nonneg (by positivity), div_mul_fraction hf, round_intCast]
  · have h' : (n : ℚ) / fraction = -((-n : ℤ) / fraction : ℚ) := by
      push_cast
      ring
    rw [h', units_neg, units_of_nonneg (by have : 0 ≤ -n := by omega
                                           positivity),
      div_mul_fraction hf, round_intCast, neg_neg]

theorem roundCurrency_div (n : ℤ) : roundCurrency (n / fraction : ℚ) fraction = n / fraction := by
  rw [roundCurrency, units_div hf]

theorem fromDecimal_div (n : ℤ) : fromDecimal (n / fraction : ℚ) fraction = ⟨n, fraction⟩ := by
  rw [fromDecimal, Int.cast_natCast, div_mul_fraction hf, mathRound_eq_round, round_intCast]

end Whole

/-! ## Documents -/

inductive InvoiceKind
  | invoice | bill
deriving DecidableEq, Repr

inductive DiscountType
  | value | percent
deriving DecidableEq, Repr

inductive DiscountHow
  | pretax | sametime | posttax
deriving DecidableEq, Repr

/-- Whether a tax is a percentage or a flat amount for each entry. -/
inductive TaxType
  | value | percent
deriving DecidableEq, Repr

structure TaxTableEntrySpec where
  accountGuid : String
  type : TaxType
  amount : ℚ
deriving DecidableEq, Repr

structure TaxTableSpec where
  guid : String
  entries : List TaxTableEntrySpec
deriving DecidableEq, Repr

structure EntryLineInput where
  accountGuid : String
  description : String
  quantity : ℚ
  price : ℚ
  discount : ℚ
  discountType : DiscountType
  discountHow : DiscountHow
  taxable : Bool
  taxIncluded : Bool
  taxTable : Option TaxTableSpec
deriving DecidableEq, Repr

structure ComputedEntryTax where
  accountGuid : String
  amount : ℚ
deriving DecidableEq, Repr

structure ComputedEntry where
  subtotal : ℚ
  discountValue : ℚ
  net : ℚ
  taxes : List ComputedEntryTax
  taxTotal : ℚ
  gross : ℚ
deriving DecidableEq, Repr

structure InvoiceTotals where
  subtotal : ℚ
  discountTotal : ℚ
  taxTotal : ℚ
  total : ℚ
  entries : List ComputedEntry
  taxByAccount : List ComputedEntryTax
deriving DecidableEq, Repr

namespace EntryLineInput

variable (line : EntryLineInput)

def table : Option TaxTableSpec :=
  if line.taxable then line.taxTable.filter fun t => t.entries ≠ [] else none

def taxRows : List TaxTableEntrySpec := (line.table.map TaxTableSpec.entries).getD []

def tpercent : ℚ :=
  ((line.taxRows.filter fun e => e.type = .percent).map TaxTableEntrySpec.amount).sum / 100

def tvalue : ℚ :=
  ((line.taxRows.filter fun e => e.type = .value).map TaxTableEntrySpec.amount).sum

def includesTax : Bool := line.table.isSome && line.taxIncluded

/-- The divisor that backs out an included tax is zero, so no value is a number. -/
def undefinedPretax : Bool := line.includesTax && 1 + line.tpercent = 0

def pretax : ℚ :=
  let aggregate := line.quantity * line.price
  if line.includesTax then (aggregate - line.tvalue) / (1 + line.tpercent) else aggregate

def discountRaw : ℚ :=
  if line.discount = 0 then 0
  else
    match line.discountType, line.discountHow with
    | .value, _ => line.discount
    | .percent, .posttax =>
      (line.pretax + if line.table.isSome then line.pretax * line.tpercent + line.tvalue else 0) *
        line.discount / 100
    | .percent, _ => line.pretax * line.discount / 100

def netRaw : ℚ := line.pretax - line.discountRaw

/-- The value that percentage taxes are computed on. -/
def taxBase : ℚ := if line.discountHow = .pretax then line.netRaw else line.pretax

def taxes (fraction : ℕ) : List ComputedEntryTax :=
  (line.taxRows.map fun e =>
    (⟨e.accountGuid, roundCurrency
      (match e.type with
        | .percent => line.taxBase * e.amount / 100
        | .value => e.amount) fraction⟩ : ComputedEntryTax)).filter fun t => t.amount ≠ 0

end EntryLineInput

def computeEntry (line : EntryLineInput) (fraction : ℕ) : ComputedEntry :=
  let net := roundCurrency line.netRaw fraction
  let taxes := line.taxes fraction
  let taxTotal := roundCurrency (taxes.map ComputedEntryTax.amount).sum fraction
  { subtotal := roundCurrency line.pretax fraction
    discountValue := roundCurrency line.discountRaw fraction
    net := net
    taxes := taxes
    taxTotal := taxTotal
    gross := roundCurrency (net + taxTotal) fraction }

/-- Add a tax to the amount of its account, in the order in which accounts first appear. -/
def addTax (fraction : ℕ) (taxMap : List ComputedEntryTax) (t : ComputedEntryTax) :
    List ComputedEntryTax :=
  if taxMap.any fun m => m.accountGuid = t.accountGuid then
    taxMap.map fun m =>
      if m.accountGuid = t.accountGuid then ⟨m.accountGuid, roundCurrency (m.amount + t.amount) fraction⟩
      else m
  else taxMap ++ [⟨t.accountGuid, roundCurrency (0 + t.amount) fraction⟩]

def addEntry (fraction : ℕ) (totals : InvoiceTotals) (e : ComputedEntry) : InvoiceTotals :=
  { totals with
    subtotal := roundCurrency (totals.subtotal + e.subtotal) fraction
    discountTotal := roundCurrency (totals.discountTotal + e.discountValue) fraction
    taxTotal := roundCurrency (totals.taxTotal + e.taxTotal) fraction
    total := roundCurrency (totals.total + e.net + e.taxTotal) fraction
    taxByAccount := e.taxes.foldl (addTax fraction) totals.taxByAccount }

/-- The values of the lines, the totals, and the taxes by account. -/
def computeInvoiceTotals (lines : List EntryLineInput) (fraction : ℕ) : InvoiceTotals :=
  let entries := lines.map fun l => computeEntry l fraction
  entries.foldl (addEntry fraction) ⟨0, 0, 0, 0, entries, []⟩

structure PostingSplitSpec where
  accountGuid : String
  value : ℚ
  memo : String
  action : String
  /-- The split on the receivable or payable account, which carries the lot. -/
  isPostSplit : Bool
deriving DecidableEq, Repr

/-- The sign of a document's total on its receivable or payable account. -/
def InvoiceKind.sign : InvoiceKind → ℚ
  | .invoice => 1
  | .bill => -1

/-- The signed splits of a posting: the total, the lines, then the taxes by account. -/
def buildPostingSplits (kind : InvoiceKind) (totals : InvoiceTotals) (lines : List EntryLineInput)
    (postAccountGuid memo : String) : List PostingSplitSpec :=
  let action := match kind with
    | .invoice => "Invoice"
    | .bill => "Bill"
  let lineSplits := (lines.zip totals.entries).filterMap fun (line, computed) =>
    if computed.net = 0 then none
    else some ⟨line.accountGuid, -kind.sign * computed.net, line.description, action, false⟩
  let taxSplits := totals.taxByAccount.filterMap fun t =>
    if t.amount = 0 then none
    else some ⟨t.accountGuid, -kind.sign * t.amount, "", action, false⟩
  ⟨postAccountGuid, kind.sign * totals.total, memo, action, true⟩ :: lineSplits ++ taxSplits

/-! ## Payments -/

/-- What is still due on a document, read off the split values of its lot. -/
def amountDueFromLotSplits (kind : InvoiceKind) (splitValues : List ℚ) (fraction : ℕ) : ℚ :=
  roundCurrency (match kind with
    | .invoice => splitValues.sum
    | .bill => -splitValues.sum) fraction

structure OpenInvoiceForPayment where
  guid : String
  datePosted : Option ℤ
  amountDue : ℚ
deriving DecidableEq, Repr

structure PaymentAllocation where
  invoiceGuid : String
  amount : ℚ
deriving DecidableEq, Repr

structure FifoAllocationResult where
  allocations : List PaymentAllocation
  remainder : ℚ
deriving DecidableEq, Repr

/-- The tolerance of payments: half a currency unit. -/
def paymentEpsilon (fraction : ℕ) : ℚ := 1 / 2 / fraction

/-- `Number.MAX_SAFE_INTEGER`, the posting time of a document without one. -/
def maxSafeInteger : ℤ := 9007199254740991

/-- Older documents come first, then smaller guids. -/
def OpenInvoiceForPayment.before (a b : OpenInvoiceForPayment) : Bool :=
  let ta := a.datePosted.getD maxSafeInteger
  let tb := b.datePosted.getD maxSafeInteger
  ta < tb || (ta = tb && a.guid ≤ b.guid)

/-- The rounds of `allocatePaymentFifo`. -/
def allocateFrom (fraction : ℕ) : ℚ → List OpenInvoiceForPayment → FifoAllocationResult
  | remaining, [] => ⟨[], remaining⟩
  | remaining, inv :: rest =>
    if remaining ≤ paymentEpsilon fraction then ⟨[], remaining⟩
    else
      let take := roundCurrency (min inv.amountDue remaining) fraction
      let result := allocateFrom fraction (roundCurrency (remaining - take) fraction) rest
      ⟨⟨inv.guid, take⟩ :: result.allocations, result.remainder⟩

/-- Allocate a payment across open documents, oldest first. -/
def allocatePaymentFifo (openInvoices : List OpenInvoiceForPayment) (amount : ℚ) (fraction : ℕ) :
    FifoAllocationResult :=
  allocateFrom fraction (roundCurrency amount fraction)
    ((openInvoices.filter fun i => paymentEpsilon fraction < i.amountDue).insertionSort
      fun a b => a.before b)

structure PaymentSplitSpec where
  accountGuid : String
  value : ℚ
  memo : String
  action : String
  lotGuid : Option String
deriving DecidableEq, Repr

/-- The part of a payment that goes to one document. -/
structure PostAccountAllocation where
  accountGuid : String
  lotGuid : String
  amount : ℚ
deriving DecidableEq, Repr

/-- The signed splits of a payment: the transfer account, then one split for each allocation. -/
def buildPaymentSplits (kind : InvoiceKind) (amount : ℚ) (transferAccountGuid : String)
    (postAccountAllocations : List PostAccountAllocation) (memo : String) :
    List PaymentSplitSpec :=
  ⟨transferAccountGuid, kind.sign * amount, memo, "", none⟩ ::
    postAccountAllocations.map fun alloc =>
      ⟨alloc.accountGuid, -kind.sign * alloc.amount, "", "Payment", some alloc.lotGuid⟩

end Business
