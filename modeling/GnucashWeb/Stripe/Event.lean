import Mathlib
import GnucashWeb.Business.Payment

/-!
# A payment event of the provider

What `processStripeWebhook` makes of an event whose signature it has verified: the row of the event
and the statements on it, the checks of the invoice and of the accounts, and the transaction of the
fee.  The payment itself is `applyPayment`, under a guid that the event determines.
-/

open Transact Business
open Ledger (Split fromDecimal)

namespace Stripe

/-! ## Events -/

/-- The fields of `data.object` that are read. -/
structure EventObject where
  id : Option String
  /-- Seconds. -/
  created : Option ℤ
  amountTotal : Option ℚ
  amountReceived : Option ℚ
  paymentIntent : Option String
  paymentStatus : Option String
  invoiceGuid : Option String
deriving DecidableEq, Repr

structure StripeEvent where
  id : String
  type : String
  object : EventObject
deriving DecidableEq, Repr

/-- The connection whose secret signed the event; it belongs to the book that the event names. -/
structure StripeConnection where
  bookGuid : String
  transferAccountGuid : String
  feeAccountGuid : Option String
deriving DecidableEq, Repr

/-- What the webhook takes from its surroundings; a digest has 64 hexadecimal digits. -/
structure Env where
  host : Host
  sha256Hex : String → List Char
  length_sha256Hex : ∀ text, (sha256Hex text).length = 64

def shouldPostStripeEvent (type : String) (paymentStatus : Option String) : Bool :=
  type = "checkout.session.async_payment_succeeded" ||
    (type = "checkout.session.completed" && paymentStatus = some "paid")

/-- `/^[0-9a-f]{32}$/`. -/
def isGuidText (text : String) : Bool :=
  text.toList.length = 32 && text.toList.all fun c => c.isDigit || ('a' ≤ c && c ≤ 'f')

inductive Route
  | paymentFailed
  | ignored
  | pending
  | missingInvoice
  | post (invoiceGuid : String)
deriving DecidableEq, Repr

namespace StripeEvent

variable (event : StripeEvent)

/-- The branches of `processStripeWebhook` after the claim of the row. -/
def route : Route :=
  if "payment_failed".toList <:+: event.type.toList ∨
      event.type = "checkout.session.async_payment_failed" then .paymentFailed
  else if event.type ∉ ["checkout.session.completed", "checkout.session.async_payment_succeeded"] then
    .ignored
  else if shouldPostStripeEvent event.type event.object.paymentStatus = false then .pending
  else
    match event.object.invoiceGuid with
    | some invoiceGuid => if isGuidText invoiceGuid then .post invoiceGuid else .missingInvoice
    | none => .missingInvoice

def Payable : Prop := ∃ invoiceGuid, event.route = .post invoiceGuid

def amount : ℚ := (event.object.amountTotal.or event.object.amountReceived).getD 0 / 100

/-- The guid of the transaction of a kind that an event stands for. -/
def stableTransactionGuid (env : Env) (kind : String) : String :=
  String.ofList ((env.sha256Hex ("stripe:" ++ kind ++ ":" ++ event.id)).take 32)

def paymentGuid (env : Env) : String := event.stableTransactionGuid env "payment"

def feeGuid (env : Env) : String := event.stableTransactionGuid env "fee"

theorem paymentGuid_ne (env : Env) : event.paymentGuid env ≠ "" := by
  intro h
  have hlength := congrArg (fun s : String => s.toList.length) h
  simp [paymentGuid, stableTransactionGuid, env.length_sha256Hex] at hlength

end StripeEvent

/-! ## The row of an event -/

inductive Problem
  | text (message : String)
  | payment (failure : Failure)
deriving DecidableEq, Repr

inductive EventStatus
  | processing | paymentPosted | cleared | failed | ignored | pending
deriving DecidableEq, Repr

/-- A row of `gnucash_web_payment_events`; times are milliseconds. -/
structure EventRow where
  status : EventStatus
  errorMessage : Option Problem
  receivedAt : ℤ
  amount : ℚ
  fee : Option ℚ
  paymentTransactionGuid : Option String
  feeTransactionGuid : Option String
deriving DecidableEq, Repr

/-- After how long a row in progress may be taken over: five minutes. -/
def takeover : ℤ := 5 * 60 * 1000

namespace EventRow

def received (amount : ℚ) (now : ℤ) : EventRow := ⟨.processing, none, now, amount, none, none, none⟩

def Reclaimable (r : EventRow) (now : ℤ) : Prop :=
  r.status = .paymentPosted ∨ (r.status = .failed ∧ r.errorMessage ≠ none) ∨
    (r.status = .processing ∧ r.receivedAt < now - takeover)

instance (r : EventRow) (now : ℤ) : Decidable (r.Reclaimable now) :=
  inferInstanceAs (Decidable (_ ∨ (_ ∧ _) ∨ (_ ∧ _)))

def reclaim (now : ℤ) (r : EventRow) : EventRow :=
  { r with status := .processing, errorMessage := none, receivedAt := now }

def setPosted (amount : ℚ) (payment : String) (r : EventRow) : EventRow :=
  { r with status := .paymentPosted, amount := amount, paymentTransactionGuid := some payment }

def setCleared (amount fee : ℚ) (payment : String) (feeTransaction : Option String)
    (r : EventRow) : EventRow :=
  { r with
    status := .cleared, amount := amount, fee := some fee
    paymentTransactionGuid := some payment, feeTransactionGuid := feeTransaction }

def setProblem (problem : Problem) (paymentExists : Option String) (r : EventRow) : EventRow :=
  { r with
    status := if paymentExists.isSome then .paymentPosted else .failed
    errorMessage := some problem
    paymentTransactionGuid := r.paymentTransactionGuid.or paymentExists }

end EventRow

/-! ## The checks of a payable event -/

structure Prepared where
  invoiceGuid : String
  currencyGuid : String
  /-- Milliseconds. -/
  date : ℤ
  input : ApplyPaymentInput
deriving DecidableEq, Repr

/-- `getAccountGuidsForBook`: the account is under the root of the book. -/
def accountInBook (db : Db) (bookGuid accountGuid : String) : Bool :=
  ((db.book? bookGuid).map BookRow.rootAccountGuid).any fun root =>
    root ∈ db.ancestors (db.accounts.length + 1) (some accountGuid)

/-- `endCustomerGuid`: the customer of an invoice or of its job. -/
def endCustomerGuid (db : Db) (invoiceGuid : String) : Option String := do
  let invoice ← db.invoice? invoiceGuid
  let owner ← invoice.ownerGuid.filter (· ≠ "")
  if invoice.ownerType = some ownerTypeCustomer then some owner
  else if invoice.ownerType = some ownerTypeJob then do
    let job ← db.jobs.find? fun j => j.guid = owner
    if job.ownerType = ownerTypeCustomer then job.ownerGuid.filter (· ≠ "") else none
  else none

/-- The invoice behind `getInvoiceWithStatus`, which is null in another book. -/
def invoiceInBook (db : Db) (bookGuid invoiceGuid : String) : Option Invoice :=
  (db.invoice? invoiceGuid).filter fun _ => db.isEntityOwnedByBook .invoice invoiceGuid bookGuid

/-- Throw a message unless a condition holds. -/
def demand (c : Prop) [Decidable c] (message : String) : Except Problem Unit :=
  if c then .ok () else .error (.text message)

def demandSome {α : Type} (row : Option α) (message : String) : Except Problem α :=
  row.elim (.error (.text message)) .ok

/-- The date of an event: its creation, or the whole seconds of the clock. -/
def StripeEvent.date (event : StripeEvent) (env : Env) : ℤ :=
  event.object.created.getD (env.host.now / 1000) * 1000

def paymentInput (env : Env) (connection : StripeConnection) (event : StripeEvent)
    (invoiceGuid customerGuid : String) : ApplyPaymentInput :=
  { ownerType := .customer
    ownerGuid := customerGuid
    transferAccountGuid := connection.transferAccountGuid
    amount := event.amount
    date := env.host.isoDay (event.date env)
    num := event.object.paymentIntent.or event.object.id
    memo := some ("Stripe " ++ event.id)
    transactionGuid := some (event.paymentGuid env)
    allocations := [⟨invoiceGuid, event.amount⟩] }

/-- The invoice of the signing connection's book and its owner, checked. -/
def prepare (env : Env) (connection : StripeConnection) (event : StripeEvent)
    (invoiceGuid : String) (db : Db) : Except Problem Prepared := do
  let invoice ← demandSome (invoiceInBook db connection.bookGuid invoiceGuid)
    "Invoice is outside the signing connection book"
  let owner ← (db.resolveOwner (invoice.ownerType.getD 0) (invoice.ownerGuid.getD "")).mapError
    .payment
  demand ((∃ postAcc ∈ invoice.postAcc.filter (· ≠ ""),
      accountInBook db connection.bookGuid postAcc) ∧
      accountInBook db connection.bookGuid connection.transferAccountGuid ∧
      ∀ feeAccount ∈ connection.feeAccountGuid.filter (· ≠ ""),
        accountInBook db connection.bookGuid feeAccount)
    "Invoice or payment account is outside the signing connection book"
  demand (owner.kind = .invoice) "Invoice customer not found"
  let customerGuid ← demandSome (endCustomerGuid db invoiceGuid) "Invoice customer not found"
  demand (0 < event.amount) "Payment amount is missing"
  return ⟨invoiceGuid, invoice.currency, event.date env,
    paymentInput env connection event invoiceGuid customerGuid⟩

theorem transactionGuid_of_prepare {env : Env} {connection : StripeConnection}
    {event : StripeEvent} {invoiceGuid : String} {db : Db} {p : Prepared}
    (h : prepare env connection event invoiceGuid db = .ok p) :
    p.input.transactionGuid = some (event.paymentGuid env) := by
  simp only [prepare, except_bind_eq_ok, pure, Except.pure, Except.ok.injEq] at h
  obtain ⟨_, -, _, -, _, -, _, -, customerGuid, -, _, -, rfl⟩ := h
  rfl

/-! ## The transaction of the fee -/

def feeSplit (guid : String) (spec : String × String × ℚ) (splitGuid : String) : Split :=
  let amount := fromDecimal spec.2.2 100
  { guid := splitGuid, txGuid := guid, accountGuid := spec.1, memo := spec.2.1, action := "Fee"
    reconcileState := .n, reconcileDate := none, value := amount, quantity := amount
    lotGuid := none }

def feeTxn (env : Env) (event : StripeEvent) (p : Prepared) : Txn :=
  ⟨event.feeGuid env, p.currencyGuid, "", some p.date, env.host.now, "Stripe processing fee"⟩

/-- The database transaction of `createFeeTransaction`. -/
def writeFee (env : Env) (connection : StripeConnection) (event : StripeEvent) (p : Prepared)
    (feeAccountGuid : String) (fee : ℚ) : Tx Unit := do
  createTransaction (feeTxn env event p)
  createSplits env.host (feeSplit (event.feeGuid env))
    [(feeAccountGuid, "Stripe event " ++ event.id, fee),
      (connection.transferAccountGuid, "Stripe fee for invoice " ++ p.invoiceGuid, -fee)]
  createSlot ⟨event.feeGuid env, "gnucash-web/payment-event", .string event.id⟩
  createSlot ⟨event.feeGuid env, "gnucash-web/invoice-guid", .string p.invoiceGuid⟩

/-- The rows that link a payment to its event and its invoice. -/
def linkSlots (event : StripeEvent) (invoiceGuid payment : String) : List SlotRow :=
  [⟨payment, "gnucash-web/payment-event", .string event.id⟩,
    ⟨payment, "gnucash-web/invoice-guid", .string invoiceGuid⟩]

theorem completes_writeFee {env : Env} {connection : StripeConnection} {event : StripeEvent}
    {p : Prepared} {feeAccountGuid : String} {fee : ℚ} {db db' : Db} {u : Unit}
    (h : Completes (writeFee env connection event p feeAccountGuid fee) db u db') :
    db.transaction? (event.feeGuid env) = none ∧
      db'.transactions = db.transactions ++ [feeTxn env event p] := by
  simp only [writeFee, completes_bind, completes_createTransaction, completes_createSplits,
    completes_createSlot] at h
  obtain ⟨_, _, ⟨hnew, rfl⟩, _, _, rfl, _, _, rfl, rfl⟩ := h
  exact ⟨hnew, rfl⟩

end Stripe
