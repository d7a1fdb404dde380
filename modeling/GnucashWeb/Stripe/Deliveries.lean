import GnucashWeb.Business.PaymentBalance
import GnucashWeb.Lib.Runs
import GnucashWeb.Stripe.Event

/-!
# Deliveries of one payment event

Any number of deliveries of one event, with their database steps in any order.  A delivery may crash
or meet a failing statement after every step, the clock may be set at will, and other requests may
change the ledger as they like outside the two transactions of the event.

`paid_once` says what every run keeps, at most one payment and one fee, and when every delivery that
is acknowledged without a retry finds the payment committed: exactly when no delivery finds the row
of the event in progress, for five minutes at most, while the payment is not committed.
-/

open Runs Transact Business

namespace Stripe

/-! ## Deliveries -/

/-- What `processStripeWebhook` returns. -/
structure Answer where
  accepted : Bool
  duplicate : Bool
  message : Option Problem
  retry : Bool
deriving DecidableEq, Repr

/-- The acknowledgement after which the provider sends the event no more. -/
def Answer.final (a : Answer) : Bool := a.accepted && !a.retry

inductive Phase
  | idle
  /-- The insert met the row of the event. -/
  | conflicted
  | claimed
  | preparing (invoiceGuid : String)
  | prepared (p : Prepared)
  | paid (p : Prepared) (payment : String)
  /-- No slot links the payment to the event yet. -/
  | unlinked (p : Prepared) (payment : String)
  | linked (p : Prepared) (payment : String)
  | posted (p : Prepared) (payment : String)
  | feeLoaded (p : Prepared) (payment : String) (fee : ℚ)
  /-- There is no fee transaction yet. -/
  | feeAbsent (p : Prepared) (payment : String) (fee : ℚ) (feeAccountGuid : String)
  | feeKnown (p : Prepared) (payment : String) (fee : ℚ) (feeTransaction : Option String)
  | cleared
  | catching (problem : Problem)
  | caught (problem : Problem) (paymentExists : Option String)
  | answered (answer : Answer)
  /-- The handler threw, which the provider sees as an error. -/
  | threw
  | crashed
deriving DecidableEq, Repr

/-- Whether a delivery is inside the `try` block. -/
def Phase.inTry : Phase → Bool
  | .preparing _ | .prepared _ | .paid _ _ | .unlinked _ _ | .linked _ _ | .posted _ _
  | .feeLoaded _ _ _ | .feeAbsent _ _ _ _ | .feeKnown _ _ _ _ | .cleared => true
  | _ => false

/-- The committed row of the event, the ledger, and the deliveries. -/
structure Sys where
  row : Option EventRow
  db : Db
  deliveries : ℕ → Phase
  now : ℤ
  /-- The transactions that the payment steps of the deliveries committed. -/
  payments : List Txn
  /-- The transactions that their fee steps committed. -/
  fees : List Txn

namespace Sys

def setPhase (s : Sys) (w : ℕ) (p : Phase) : Sys :=
  { s with deliveries := Function.update s.deliveries w p }

def updateRow (s : Sys) (f : EventRow → EventRow) : Sys := { s with row := s.row.map f }

end Sys

/-! ## Steps -/

inductive Step
  | clock (now : ℤ)
  /-- Another request changes the ledger. -/
  | ledger (db : Db)
  | insert (w : ℕ)
  | reclaim (w : ℕ)
  | dispatch (w : ℕ)
  | prepare (w : ℕ)
  | pay (w : ℕ)
  | findLink (w : ℕ)
  | link (w : ℕ)
  | post (w : ℕ)
  | loadFee (w : ℕ) (fee : Except Problem ℚ)
  | findFee (w : ℕ)
  | writeFee (w : ℕ)
  | clear (w : ℕ)
  | finish (w : ℕ)
  /-- A statement throws, and its transaction is rolled back. -/
  | fail (w : ℕ) (problem : Problem)
  | findPayment (w : ℕ)
  | recordProblem (w : ℕ)
  | crash (w : ℕ)

section Next

variable (env : Env) (connection : StripeConnection) (event : StripeEvent)

/-- The branches of an event that is not to be posted. -/
def dispatch (w : ℕ) (s : Sys) : Sys :=
  let answer (f : EventRow → EventRow) (message : Option Problem) : Sys :=
    (s.updateRow f).setPhase w (.answered ⟨true, false, message, false⟩)
  match event.route with
  | .paymentFailed => answer (fun r => { r with status := .failed }) none
  | .ignored => answer (fun r => { r with status := .ignored }) none
  | .pending => answer (fun r => { r with status := .pending }) none
  | .missingInvoice =>
    let message := some (Problem.text "Missing invoice metadata")
    answer (fun r => { r with status := .failed, errorMessage := message }) message
  | .post invoiceGuid => s.setPhase w (.preparing invoiceGuid)

/-- The payment, with the transactions that it commits. -/
def pay (w : ℕ) (p : Prepared) (s : Sys) : Sys :=
  match applyPayment env.host connection.bookGuid p.input s.db with
  | .ok (r, db) =>
    { s.setPhase w (.paid p r.transactionGuid) with
      db := db, payments := s.payments ++ db.transactions.drop s.db.transactions.length }
  | .error failure => s.setPhase w (.catching (.payment failure))

/-- The first read of `createFeeTransaction`. -/
def findFee (w : ℕ) (p : Prepared) (payment : String) (fee : ℚ) (s : Sys) : Sys :=
  match connection.feeAccountGuid.filter fun g => 0 < fee ∧ g ≠ "" with
  | none => s.setPhase w (.feeKnown p payment fee none)
  | some feeAccountGuid =>
    match s.db.transaction? (event.feeGuid env) with
    | some t => s.setPhase w (.feeKnown p payment fee (some t.guid))
    | none => s.setPhase w (.feeAbsent p payment fee feeAccountGuid)

def commitFee (w : ℕ) (p : Prepared) (payment : String) (fee : ℚ) (feeAccountGuid : String)
    (s : Sys) : Sys :=
  match writeFee env connection event p feeAccountGuid fee s.db with
  | .ok (_, db) =>
    { s.setPhase w (.feeKnown p payment fee (some (event.feeGuid env))) with
      db := db, fees := s.fees ++ db.transactions.drop s.db.transactions.length }
  | .error failure => s.setPhase w (.catching (.payment failure))

/-- One step of a delivery inside the `try` block. -/
def advance (w : ℕ) (step : Step) (s : Sys) : Option Sys :=
  match step, s.deliveries w with
  | .prepare _, .preparing invoiceGuid =>
    match prepare env connection event invoiceGuid s.db with
    | .ok p => some (s.setPhase w (.prepared p))
    | .error problem => some (s.setPhase w (.catching problem))
  | .pay _, .prepared p => some (pay env connection w p s)
  | .findLink _, .paid p payment =>
    if ⟨payment, "gnucash-web/payment-event", .string event.id⟩ ∈ s.db.slots then
      some (s.setPhase w (.linked p payment))
    else some (s.setPhase w (.unlinked p payment))
  | .link _, .unlinked p payment =>
    some { s.setPhase w (.linked p payment) with
      db := { s.db with slots := s.db.slots ++ linkSlots event p.invoiceGuid payment } }
  | .post _, .linked p payment =>
    some ((s.updateRow (.setPosted event.amount payment)).setPhase w (.posted p payment))
  | .loadFee _ fee, .posted p payment =>
    match fee with
    | .ok fee => some (s.setPhase w (.feeLoaded p payment (max 0 (fee / 100))))
    | .error problem => some (s.setPhase w (.catching problem))
  | .findFee _, .feeLoaded p payment fee => some (findFee env connection event w p payment fee s)
  | .writeFee _, .feeAbsent p payment fee feeAccountGuid =>
    some (commitFee env connection event w p payment fee feeAccountGuid s)
  | .clear _, .feeKnown _ payment fee feeTransaction =>
    some ((s.updateRow (.setCleared event.amount fee payment feeTransaction)).setPhase w .cleared)
  | .finish _, .cleared => some (s.setPhase w (.answered ⟨true, false, none, false⟩))
  | _, _ => none

/-- A statement throws: in the `try` block the delivery catches, elsewhere the handler throws. -/
def fail (w : ℕ) (problem : Problem) (s : Sys) : Option Sys :=
  if (s.deliveries w).inTry then some (s.setPhase w (.catching problem))
  else
    match s.deliveries w with
    | .answered _ | .threw | .crashed => none
    | _ => some (s.setPhase w .threw)

def findPayment (w : ℕ) (s : Sys) : Option Sys :=
  match s.deliveries w with
  | .catching problem =>
    some (s.setPhase w (.caught problem
      ((s.db.transaction? (event.paymentGuid env)).map Txn.guid)))
  | _ => none

/-- The update of the error path, and its answer. -/
def recordProblem (w : ℕ) (s : Sys) : Option Sys :=
  match s.deliveries w with
  | .caught problem paymentExists =>
    some ((s.updateRow (.setProblem problem paymentExists)).setPhase w
      (.answered ⟨true, false, some problem, true⟩))
  | _ => none

def crash (w : ℕ) (s : Sys) : Option Sys :=
  match s.deliveries w with
  | .answered _ | .threw => none
  | _ => some (s.setPhase w .crashed)

/-- Other requests leave the transaction under a guid as it is. -/
def Untouched (guid : String) (db db' : Db) : Prop := db'.transaction? guid = db.transaction? guid

instance (guid : String) (db db' : Db) : Decidable (Untouched guid db db') :=
  inferInstanceAs (Decidable (_ = _))

/-- One database step of a delivery, or a step of its surroundings. -/
def next : Step → Sys → Option Sys
  | .clock now, s => some { s with now := now }
  | .ledger db, s =>
    if Untouched (event.paymentGuid env) s.db db ∧ Untouched (event.feeGuid env) s.db db then
      some { s with db := db }
    else none
  | .insert w, s =>
    if s.deliveries w = .idle then
      match s.row with
      | none => some { s.setPhase w .claimed with row := some (.received event.amount s.now) }
      | some _ => some (s.setPhase w .conflicted)
    else none
  | .reclaim w, s =>
    if s.deliveries w = .conflicted then
      if ∃ r ∈ s.row, r.Reclaimable s.now then
        some ((s.updateRow (.reclaim s.now)).setPhase w .claimed)
      else some (s.setPhase w (.answered ⟨true, true, none, false⟩))
    else none
  | .dispatch w, s => if s.deliveries w = .claimed then some (dispatch event w s) else none
  | .fail w problem, s => fail w problem s
  | .findPayment w, s => findPayment env event w s
  | .recordProblem w, s => recordProblem w s
  | .crash w, s => crash w s
  | .prepare w, s => advance env connection event w (.prepare w) s
  | .pay w, s => advance env connection event w (.pay w) s
  | .findLink w, s => advance env connection event w (.findLink w) s
  | .link w, s => advance env connection event w (.link w) s
  | .post w, s => advance env connection event w (.post w) s
  | .loadFee w fee, s => advance env connection event w (.loadFee w fee) s
  | .findFee w, s => advance env connection event w (.findFee w) s
  | .writeFee w, s => advance env connection event w (.writeFee w) s
  | .clear w, s => advance env connection event w (.clear w) s
  | .finish w, s => advance env connection event w (.finish w) s

end Next

/-! ## The invariant -/

def Committed (guid : String) (db : Db) : Prop := (db.transaction? guid).isSome

/-- Nothing was committed, or one transaction that is still there. -/
def Once (guid : String) (db : Db) (committed : List Txn) : Prop :=
  committed = [] ∨ ∃ t, committed = [t] ∧ Committed guid db

section Invariant

variable (env : Env) (event : StripeEvent)

def RowInv (db : Db) (r : EventRow) : Prop :=
  r.status = .processing ∨ r.status = .paymentPosted ∨
    (r.status = .failed ∧ r.errorMessage ≠ none) ∨
      (r.status = .cleared ∧ Committed (event.paymentGuid env) db)

/-- What the phase of a delivery says of the ledger; `acks` is whether an acknowledgement without a
retry counts. -/
def PhaseInv (acks : Prop) (s : Sys) : Phase → Prop
  | .conflicted => s.row.isSome
  | .prepared p => p.input.transactionGuid = some (event.paymentGuid env)
  | .paid _ payment | .unlinked _ payment | .linked _ payment | .posted _ payment
  | .feeLoaded _ payment _ | .feeAbsent _ payment _ _ | .feeKnown _ payment _ _ =>
    payment = event.paymentGuid env ∧ Committed (event.paymentGuid env) s.db
  | .cleared => Committed (event.paymentGuid env) s.db
  | .answered a => acks → a.final = true → Committed (event.paymentGuid env) s.db
  | _ => True

structure Inv (acks : Prop) (s : Sys) : Prop where
  row : ∀ r ∈ s.row, RowInv env event s.db r
  phases : ∀ w, PhaseInv env event acks s (s.deliveries w)
  payments : Once (event.paymentGuid env) s.db s.payments
  fees : Once (event.feeGuid env) s.db s.fees

end Invariant

/-! ## Frame lemmas -/

section Frame

variable {env : Env} {event : StripeEvent} {acks : Prop} {s : Sys} {db : Db} {guid : String}

theorem Committed.append {more : List Txn} (h : Committed guid s.db)
    (hdb : db.transactions = s.db.transactions ++ more) : Committed guid db := by
  unfold Committed Db.transaction? at *
  rw [hdb, List.find?_append, Option.isSome_or, h, Bool.true_or]

theorem Committed.mono {t : Txn} (ht : t.guid = guid)
    (hdb : db.transactions = s.db.transactions ++ [t]) : Committed guid db := by
  unfold Committed Db.transaction?
  rw [List.find?_isSome, hdb]
  exact ⟨t, by simp, by simpa using ht⟩

theorem Once.mono {committed : List Txn} (h : Once guid s.db committed)
    (hdb : Committed guid s.db → Committed guid db) : Once guid db committed :=
  h.imp id fun ⟨t, ht, hc⟩ => ⟨t, ht, hdb hc⟩

theorem RowInv.mono {r : EventRow} (h : RowInv env event s.db r)
    (hdb : Committed (event.paymentGuid env) s.db → Committed (event.paymentGuid env) db) :
    RowInv env event db r :=
  h.imp id fun h => h.imp id fun h => h.imp id fun h => ⟨h.1, hdb h.2⟩

theorem PhaseInv.mono {s' : Sys} {p : Phase} (h : PhaseInv env event acks s p)
    (hrow : s.row.isSome → s'.row.isSome)
    (hdb : Committed (event.paymentGuid env) s.db → Committed (event.paymentGuid env) s'.db) :
    PhaseInv env event acks s' p := by
  cases p with
  | conflicted => exact hrow h
  | prepared p => exact h
  | paid | unlinked | linked | posted | feeLoaded | feeAbsent | feeKnown => exact ⟨h.1, hdb h.2⟩
  | cleared => exact hdb h
  | answered a => exact fun ha hf => hdb (h ha hf)
  | _ => trivial

theorem Inv.setPhase (h : Inv env event acks s) (w : ℕ) {p : Phase}
    (hp : PhaseInv env event acks s p) : Inv env event acks (s.setPhase w p) :=
  ⟨h.row, (Function.forall_update_iff s.deliveries fun _ q => PhaseInv env event acks s q).2
    ⟨hp, fun v _ => h.phases v⟩, h.payments, h.fees⟩

theorem Inv.setRow (h : Inv env event acks s) {row : Option EventRow}
    (hsome : s.row.isSome → row.isSome) (hrow : ∀ r ∈ row, RowInv env event s.db r) :
    Inv env event acks { s with row := row } :=
  ⟨hrow, fun w => (h.phases w).mono hsome id, h.payments, h.fees⟩

theorem Inv.updateRow (h : Inv env event acks s) {f : EventRow → EventRow}
    (hf : ∀ r, RowInv env event s.db (f r)) : Inv env event acks (s.updateRow f) := by
  refine h.setRow (fun hs => by simpa using hs) fun r hr => ?_
  obtain ⟨r', -, rfl⟩ := Option.map_eq_some_iff.1 hr
  exact hf r'

theorem Inv.setDb (h : Inv env event acks s) {payments fees : List Txn}
    (hdb : Committed (event.paymentGuid env) s.db → Committed (event.paymentGuid env) db)
    (hpayments : Once (event.paymentGuid env) db payments)
    (hfees : Once (event.feeGuid env) db fees) :
    Inv env event acks { s with db := db, payments := payments, fees := fees } :=
  ⟨fun r hr => (h.row r hr).mono hdb, fun w => (h.phases w).mono id hdb, hpayments, hfees⟩

end Frame

/-! ## What every step keeps -/

section Steps

variable {env : Env} {connection : StripeConnection} {event : StripeEvent} {acks : Prop} {s s' : Sys}
  {w : ℕ}

theorem Inv.pay (h : Inv env event acks s) {p : Prepared}
    (hguid : p.input.transactionGuid = some (event.paymentGuid env)) :
    Inv env event acks (pay env connection w p s) := by
  unfold Stripe.pay
  split
  case h_2 => exact h.setPhase w trivial
  case h_1 r db hpay =>
      obtain ⟨hr, ⟨hcommitted, rfl⟩ | ⟨hnone, t, ht, htransactions⟩⟩ :=
        applyPayment_paysUnder (event.paymentGuid_ne env) hguid hpay
      · rw [List.drop_length, List.append_nil]
        exact h.setPhase w ⟨hr, hcommitted⟩
      · have hcommitted := Committed.mono ht htransactions
        have hpayments : s.payments = [] := by
          rcases h.payments with hnil | ⟨_, -, hc⟩
          · exact hnil
          · rw [Committed, hnone] at hc
            cases hc
        have hfees : Once (event.feeGuid env) db s.fees :=
          h.fees.mono fun hc => hc.append htransactions
        rw [htransactions, List.drop_left, hpayments, List.nil_append]
        exact (h.setDb (fun _ => hcommitted) (.inr ⟨t, rfl, hcommitted⟩) hfees).setPhase w
          ⟨hr, hcommitted⟩

theorem Inv.findFee (h : Inv env event acks s) {p : Prepared} {payment : String} {fee : ℚ}
    (hp : PhaseInv env event acks s (.feeLoaded p payment fee)) :
    Inv env event acks (findFee env connection event w p payment fee s) := by
  unfold Stripe.findFee
  split
  · exact h.setPhase w hp
  · split
    · exact h.setPhase w hp
    · exact h.setPhase w hp

theorem Inv.commitFee (h : Inv env event acks s) {p : Prepared} {payment : String} {fee : ℚ}
    {feeAccountGuid : String}
    (hp : PhaseInv env event acks s (.feeAbsent p payment fee feeAccountGuid)) :
    Inv env event acks (commitFee env connection event w p payment fee feeAccountGuid s) := by
  unfold Stripe.commitFee
  split
  case h_2 => exact h.setPhase w trivial
  case h_1 u db hfee =>
      obtain ⟨hnone, htransactions⟩ := completes_writeFee hfee
      have hfees : s.fees = [] := by
        rcases h.fees with hnil | ⟨_, -, hc⟩
        · exact hnil
        · rw [Committed, hnone] at hc
          cases hc
      have hkeep : Committed (event.paymentGuid env) s.db → Committed (event.paymentGuid env) db :=
        fun hc => hc.append htransactions
      rw [htransactions, List.drop_left, hfees, List.nil_append]
      exact (h.setDb hkeep (h.payments.mono hkeep)
        (.inr ⟨_, rfl, Committed.mono rfl htransactions⟩)).setPhase w ⟨hp.1, hkeep hp.2⟩

theorem Inv.advance (h : Inv env event acks s) {step : Step}
    (hnext : advance env connection event w step s = some s') : Inv env event acks s' := by
  have hp := h.phases w
  unfold Stripe.advance at hnext
  split at hnext
  case h_1 invoiceGuid hphase =>
      split at hnext
      case h_1 p hprepare =>
          cases hnext
          exact h.setPhase w (transactionGuid_of_prepare hprepare)
      case h_2 =>
          cases hnext
          exact h.setPhase w trivial
  case h_2 p hphase =>
      rw [hphase] at hp
      cases hnext
      exact h.pay hp
  case h_3 p payment hphase =>
      rw [hphase] at hp
      split at hnext
      all_goals
        cases hnext
        exact h.setPhase w hp
  case h_4 p payment hphase =>
      rw [hphase] at hp
      cases hnext
      have hslots : Inv env event acks { s with
          db := { s.db with slots := s.db.slots ++ linkSlots event p.invoiceGuid payment } } :=
        h.setDb id h.payments h.fees
      exact hslots.setPhase w (p := .linked p payment) hp
  case h_5 p payment hphase =>
      rw [hphase] at hp
      cases hnext
      exact (h.updateRow fun _ => .inr (.inl rfl)).setPhase w hp
  case h_6 p payment hphase =>
      rw [hphase] at hp
      split at hnext
      · cases hnext
        exact h.setPhase w hp
      · cases hnext
        exact h.setPhase w trivial
  case h_7 p payment fee hphase =>
      rw [hphase] at hp
      cases hnext
      exact h.findFee hp
  case h_8 p payment fee feeAccountGuid hphase =>
      rw [hphase] at hp
      cases hnext
      exact h.commitFee hp
  case h_9 p payment fee feeTransaction hphase =>
      rw [hphase] at hp
      cases hnext
      exact (h.updateRow fun _ => .inr (.inr (.inr ⟨rfl, hp.2⟩))).setPhase w hp.2
  case h_10 hphase =>
      rw [hphase] at hp
      cases hnext
      exact h.setPhase w fun _ _ => hp
  case h_11 => cases hnext

theorem Inv.fail (h : Inv env event acks s) {problem : Problem}
    (hnext : fail w problem s = some s') : Inv env event acks s' := by
  unfold Stripe.fail at hnext
  split at hnext
  · cases hnext
    exact h.setPhase w (p := .catching problem) trivial
  · split at hnext
    case h_4 =>
        cases hnext
        exact h.setPhase w (p := .threw) trivial
    all_goals cases hnext

theorem Inv.findPayment (h : Inv env event acks s) (hnext : findPayment env event w s = some s') :
    Inv env event acks s' := by
  unfold Stripe.findPayment at hnext
  split at hnext
  · cases hnext
    exact h.setPhase w (p := .caught _ _) trivial
  · cases hnext

theorem Inv.recordProblem (h : Inv env event acks s) (hnext : recordProblem w s = some s') :
    Inv env event acks s' := by
  unfold Stripe.recordProblem at hnext
  split at hnext
  case h_1 problem paymentExists hphase =>
      cases hnext
      refine (h.updateRow fun r => ?_).setPhase w ?_
      · cases paymentExists with
        | none => exact .inr (.inr (.inl ⟨rfl, by simp [EventRow.setProblem]⟩))
        | some guid => exact .inr (.inl rfl)
      · intro _ hfinal
        cases hfinal
  case h_2 => cases hnext

theorem Inv.crash (h : Inv env event acks s) (hnext : crash w s = some s') :
    Inv env event acks s' := by
  unfold Stripe.crash at hnext
  split at hnext
  case h_3 =>
      cases hnext
      exact h.setPhase w (p := .crashed) trivial
  all_goals cases hnext

/-- A delivery meets the row in progress, for five minutes at most, and no payment yet. -/
def InFlight (env : Env) (event : StripeEvent) (s : Sys) : Prop :=
  (∃ r ∈ s.row, r.status = .processing ∧ s.now - takeover ≤ r.receivedAt) ∧
    s.db.transaction? (event.paymentGuid env) = none

/-- No delivery whose insert met the row finds the event in flight. -/
def NotInFlight (env : Env) (event : StripeEvent) : Step → Sys → Prop
  | .reclaim w, s => s.deliveries w = .conflicted → ¬InFlight env event s
  | _, _ => True

theorem Inv.reclaim (h : Inv env event acks s)
    (hC : acks → s.deliveries w = .conflicted → ¬InFlight env event s)
    (hnext : next env connection event (.reclaim w) s = some s') : Inv env event acks s' := by
  obtain ⟨hw, hnext⟩ := Option.ite_none_right_eq_some.1 hnext
  have hp := h.phases w
  rw [hw] at hp
  split at hnext
  case isTrue =>
      cases hnext
      exact (h.updateRow fun _ => .inl rfl).setPhase w trivial
  case isFalse hnot =>
      cases hnext
      refine h.setPhase w fun hacks _ => ?_
      obtain ⟨r, hr⟩ := Option.isSome_iff_exists.1 hp
      have hnotr : ¬r.Reclaimable s.now := fun hre => hnot ⟨r, hr, hre⟩
      simp only [EventRow.Reclaimable, not_or, not_and, not_lt] at hnotr
      rcases h.row r hr with hs | hs | ⟨hs, he⟩ | ⟨-, hc⟩
      · by_contra hc
        have hnone : s.db.transaction? (event.paymentGuid env) = none := by
          simpa [Committed] using hc
        exact hC hacks hw ⟨⟨r, hr, hs, hnotr.2.2 hs⟩, hnone⟩
      · exact absurd hs hnotr.1
      · exact absurd he (hnotr.2.1 hs)
      · exact hc

/-- Every step keeps the invariant; it keeps that of the acknowledgements when no delivery finds the
event in flight. -/
theorem inv_next (hpay : event.Payable) (l : Step) (s s' : Sys)
    (hC : acks → NotInFlight env event l s) (hnext : next env connection event l s = some s')
    (h : Inv env event acks s) : Inv env event acks s' := by
  cases l with
  | clock now =>
    cases hnext
    exact ⟨h.row, fun w => (h.phases w).mono id id, h.payments, h.fees⟩
  | ledger db =>
    obtain ⟨⟨hpayment, hfee⟩, heq⟩ := Option.ite_none_right_eq_some.1 hnext
    cases heq
    have keep (guid : String) (hu : Untouched guid s.db db) (hc : Committed guid s.db) :
        Committed guid db := by
      rwa [Committed, hu]
    exact h.setDb (keep _ hpayment) (h.payments.mono (keep _ hpayment))
      (h.fees.mono (keep _ hfee))
  | insert w =>
    obtain ⟨hw, hnext⟩ := Option.ite_none_right_eq_some.1 hnext
    split at hnext
    case h_1 hrow =>
        cases hnext
        refine (h.setRow (fun _ => rfl) ?_).setPhase w (p := .claimed) trivial
        rintro _ ⟨⟩
        exact .inl rfl
    case h_2 r hrow =>
        cases hnext
        refine h.setPhase w ?_
        change s.row.isSome = true
        rw [hrow]
        rfl
  | reclaim w => exact h.reclaim hC hnext
  | dispatch w =>
    obtain ⟨hw, heq⟩ := Option.ite_none_right_eq_some.1 hnext
    cases heq
    obtain ⟨invoiceGuid, hroute⟩ := hpay
    unfold dispatch
    rw [hroute]
    exact h.setPhase w trivial
  | fail w problem => exact h.fail hnext
  | findPayment w => exact h.findPayment hnext
  | recordProblem w => exact h.recordProblem hnext
  | crash w => exact h.crash hnext
  | prepare w | pay w | findLink w | link w | post w | findFee w | writeFee w | clear w
  | finish w => exact h.advance hnext
  | loadFee w fee => exact h.advance hnext

end Steps

/-! ## Runs from the first delivery on -/

structure Fresh (s : Sys) : Prop where
  row : s.row = none
  idle : ∀ w, s.deliveries w = .idle
  payments : s.payments = []
  fees : s.fees = []

/-- Every delivery that was acknowledged without a retry finds the payment committed. -/
def Acked (env : Env) (event : StripeEvent) (s : Sys) : Prop :=
  ∀ w a, s.deliveries w = .answered a → a.final = true → Committed (event.paymentGuid env) s.db

def Acknowledged (env : Env) (connection : StripeConnection) (event : StripeEvent) (l : Step)
    (s : Sys) : Prop :=
  ∀ t ∈ next env connection event l s, Acked env event t

instance (env : Env) (event : StripeEvent) (s : Sys) : Decidable (InFlight env event s) :=
  inferInstanceAs (Decidable ((∃ r ∈ s.row, _ ∧ _) ∧ _))

instance (env : Env) (event : StripeEvent) : ∀ l s, Decidable (NotInFlight env event l s)
  | .reclaim w, s =>
    inferInstanceAs (Decidable (s.deliveries w = .conflicted → ¬InFlight env event s))
  | .clock _, _ | .ledger _, _ | .insert _, _ | .dispatch _, _ | .prepare _, _ | .pay _, _
  | .findLink _, _ | .link _, _ | .post _, _ | .loadFee _ _, _ | .findFee _, _ | .writeFee _, _
  | .clear _, _ | .finish _, _ | .fail _ _, _ | .findPayment _, _ | .recordProblem _, _
  | .crash _, _ => isTrue trivial

section Runs

variable {env : Env} {connection : StripeConnection} {event : StripeEvent} {acks : Prop}
  {s s' : Sys} {steps : List Step}

theorem Fresh.inv (h : Fresh s) : Inv env event acks s where
  row := by simp [h.row]
  phases w := by
    rw [h.idle w]
    trivial
  payments := .inl h.payments
  fees := .inl h.fees

theorem Once.length_le {guid : String} {db : Db} {committed : List Txn}
    (h : Once guid db committed) : committed.length ≤ 1 := by
  rcases h with rfl | ⟨t, rfl, -⟩
  · exact Nat.zero_le 1
  · exact le_refl 1

theorem Inv.acked (h : Inv env event True s) : Acked env event s := by
  intro w a hw hfinal
  have hp := h.phases w
  rw [hw] at hp
  exact hp trivial hfinal

theorem notInFlight_of_acknowledged {l : Step} (h : Acknowledged env connection event l s) :
    NotInFlight env event l s := by
  cases l with
  | reclaim w =>
    rintro hw ⟨⟨r, hr, hstatus, hfresh⟩, hnone⟩
    have hnot : ¬∃ r ∈ s.row, r.Reclaimable s.now := by
      rintro ⟨r', hr', hre⟩
      cases Option.mem_unique hr hr'
      simp [EventRow.Reclaimable, hstatus, not_lt.2 hfresh] at hre
    have hnext : next env connection event (.reclaim w) s =
        some (s.setPhase w (.answered ⟨true, true, none, false⟩)) := by
      rw [next, if_pos hw, if_neg hnot]
    have hcommitted := h _ hnext w _ (Function.update_self ..) rfl
    change (s.db.transaction? (event.paymentGuid env)).isSome = true at hcommitted
    rw [hnone] at hcommitted
    cases hcommitted
  | _ => trivial

/-- At most one payment and one fee are committed in every run, and every final acknowledgement
finds the payment committed exactly when no delivery finds the event in flight. -/
theorem paid_once (hpay : event.Payable) (hfresh : Fresh s)
    (hrun : run (next env connection event) steps s = some s') :
    s'.payments.length ≤ 1 ∧ s'.fees.length ≤ 1 ∧
      (Along (next env connection event) (Acknowledged env connection event) steps s ↔
        Along (next env connection event) (NotInFlight env event) steps s) := by
  have hinv : Inv env event False s' :=
    invariant (fun l s s' => inv_next hpay l s s' False.elim) hrun hfresh.inv
  refine ⟨hinv.payments.length_le, hinv.fees.length_le, ?_, ?_⟩
  · exact along_imp (P := fun _ => True) (fun _ _ _ _ _ _ => trivial)
      (fun l s _ => notInFlight_of_acknowledged) trivial
  · refine along_imp (P := Inv env event True)
      (fun l s s' hC hnext => inv_next hpay l s s' (fun _ => hC) hnext) ?_ hfresh.inv
    intro l s hi hC t ht
    exact (inv_next hpay l s t (fun _ => hC) ht hi).acked

end Runs

/-! ## Two deliveries -/

def invoiceA : String := String.ofList (List.replicate 32 'a')

def oneOpenInvoice : Db :=
  { twoInvoices with
    ownership := [⟨.customer, "customer", "book"⟩, ⟨.invoice, invoiceA, "book"⟩]
    accounts := twoInvoices.accounts ++
      [⟨"fees", "Fees", .expense, some "usd", some "root", "", false⟩]
    invoices := [⟨invoiceA, "000001", some 2, some "customer", "usd", some 0, some "txn1",
      some "receivable", some "lot1"⟩] }

def oneCentPaid : StripeEvent :=
  ⟨"evt_1", "checkout.session.completed",
    ⟨some "cs_1", some 0, some 1, none, some "pi_1", some "paid", some invoiceA⟩⟩

def bookConnection : StripeConnection := ⟨"book", "bank", some "fees"⟩

def digests (text : String) : List Char :=
  if text = "stripe:payment:evt_1" then
    "d576e27078c84b5c7b61592988c2eaabf2c99f0a787c1ed5483e57379654144f".toList
  else "e8910cdd35a4aa7a199f07e07990ebb99227e4a680093253408e25e24f58f13f".toList

def plainEnv : Env where
  host := plainHost
  sha256Hex := digests
  length_sha256Hex text := by
    unfold digests
    split <;> decide

def unreceived : Sys := ⟨none, oneOpenInvoice, fun _ => .idle, 0, [], []⟩

theorem fresh_unreceived : Fresh unreceived := ⟨rfl, fun _ => rfl, rfl, rfl⟩

theorem payable_oneCentPaid : oneCentPaid.Payable := ⟨invoiceA, by decide +kernel⟩

/-- A delivery that completes, and a later one of the same event. -/
def redelivered : List Step :=
  [.insert 0, .dispatch 0, .prepare 0, .pay 0, .findLink 0, .link 0, .post 0, .loadFee 0 (.ok 30),
    .findFee 0, .writeFee 0, .clear 0, .finish 0, .insert 1, .reclaim 1]

def afterRedelivery : Sys :=
  (run (next plainEnv bookConnection oneCentPaid) redelivered unreceived).getD unreceived

theorem run_redelivered :
    run (next plainEnv bookConnection oneCentPaid) redelivered unreceived = some afterRedelivery := by
  have hsome : (run (next plainEnv bookConnection oneCentPaid) redelivered unreceived).isSome := by
    decide +kernel
  obtain ⟨s, hs⟩ := Option.isSome_iff_exists.1 hsome
  rw [afterRedelivery, hs, Option.getD_some]

theorem paid_once_redelivered :
    (afterRedelivery.payments.length = 1 ∧ afterRedelivery.fees.length = 1 ∧
      afterRedelivery.deliveries 1 = .answered ⟨true, true, none, false⟩) ∧
    Along (next plainEnv bookConnection oneCentPaid)
      (Acknowledged plainEnv bookConnection oneCentPaid) redelivered unreceived :=
  have h := paid_once payable_oneCentPaid fresh_unreceived run_redelivered
  ⟨by decide +kernel, h.2.2.2 (by decide +kernel)⟩

/-- A second delivery while the first has claimed the row and done nothing else. -/
def concurrentDelivery : List Step := [.insert 0, .insert 1, .reclaim 1]

def afterConcurrent : Sys :=
  (run (next plainEnv bookConnection oneCentPaid) concurrentDelivery unreceived).getD unreceived

theorem run_concurrentDelivery :
    run (next plainEnv bookConnection oneCentPaid) concurrentDelivery unreceived =
      some afterConcurrent := by
  have hsome :
      (run (next plainEnv bookConnection oneCentPaid) concurrentDelivery unreceived).isSome := by
    decide +kernel
  obtain ⟨s, hs⟩ := Option.isSome_iff_exists.1 hsome
  rw [afterConcurrent, hs, Option.getD_some]

/-- The second delivery is acknowledged as a duplicate, and there is no payment. -/
theorem acknowledged_in_flight :
    (afterConcurrent.deliveries 1 = .answered ⟨true, true, none, false⟩ ∧
      afterConcurrent.payments = []) ∧
    ¬∀ (env : Env) (connection : StripeConnection) (event : StripeEvent) (steps : List Step)
      (s s' : Sys), event.Payable → Fresh s →
        run (next env connection event) steps s = some s' →
          s'.payments.length ≤ 1 ∧ s'.fees.length ≤ 1 ∧
            Along (next env connection event) (Acknowledged env connection event) steps s := by
  refine ⟨by decide +kernel, fun h => ?_⟩
  have halong := (h _ _ _ _ _ _ payable_oneCentPaid fresh_unreceived run_concurrentDelivery).2.2
  have hnot : Along (next plainEnv bookConnection oneCentPaid) (NotInFlight plainEnv oneCentPaid)
      concurrentDelivery unreceived :=
    along_imp (P := fun _ => True) (fun _ _ _ _ _ _ => trivial)
      (fun l s _ => notInFlight_of_acknowledged) trivial halong
  exact absurd hnot (by decide +kernel)

end Stripe
