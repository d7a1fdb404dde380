import GnucashWeb.Lib.Runs
import GnucashWeb.Lib.Sessions
import GnucashWeb.Lib.Text

/-!
# One reimbursement request

A request of an employee, the documents of its book that belong to employees, and the sessions that
approve the request, reject it, undo what was decided, or post its voucher.  The first three work
under one advisory lock; posting and deleting a voucher take no notice of it.  Who approved, the reason
of a rejection and the times are not read by any of them and are left out, and so are the entries of a
voucher.
-/

namespace Reimbursements

open Sessions

/-! ## Tables -/

abbrev Guid := ℕ

inductive ReimbursementStatus
  | submitted
  | approved
  | posted
  | rejected
deriving DecidableEq

structure ReimbursementRequest where
  id : ℕ
  employeeGuid : Guid
  status : ReimbursementStatus
  voucherGuid : Option Guid
deriving DecidableEq

/-- A document of the book whose owner is an employee. -/
structure Voucher where
  guid : Guid
  ownerGuid : Guid
  billingId : List Char
  posted : Bool
deriving DecidableEq

structure Db where
  request : ReimbursementRequest
  vouchers : List Voucher
  nextGuid : Guid

def billingId (id : ℕ) : List Char := "REIMB-".toList ++ Text.natDigits id

/-! ## Queries -/

def isOrphan (r : ReimbursementRequest) (v : Voucher) : Bool :=
  v.ownerGuid = r.employeeGuid && v.billingId = billingId r.id && !v.posted

def Db.findOrphan (db : Db) : Option Voucher := db.vouchers.find? (isOrphan db.request)

/-- A voucher that is there and has no posting. -/
def Db.isDraft (db : Db) (guid : Guid) : Bool :=
  db.vouchers.any fun v => v.guid = guid && !v.posted

def Db.has (db : Db) (guid : Guid) : Bool := db.vouchers.any fun v => v.guid = guid

def newVoucher (db : Db) : Voucher :=
  ⟨db.nextGuid, db.request.employeeGuid, billingId db.request.id, false⟩

def Db.createVoucher (db : Db) : Db :=
  { db with vouchers := db.vouchers ++ [newVoucher db], nextGuid := db.nextGuid + 1 }

/-- A draft voucher goes; a posted one stays. -/
def Db.deleteVoucher (db : Db) (guid : Guid) : Db :=
  { db with vouchers := db.vouchers.filter fun v => !(v.guid = guid && !v.posted) }

def Db.postVoucher (db : Db) (guid : Guid) : Db :=
  { db with
    vouchers := db.vouchers.map fun v => if v.guid = guid then { v with posted := true } else v }

def Db.setStatus (db : Db) (status : ReimbursementStatus) (voucherGuid : Option Guid) : Db :=
  { db with request := { db.request with status, voucherGuid } }

/-- The update of an approval, where the status is still `submitted`. -/
def Db.approve (db : Db) (guid : Guid) : Db :=
  if db.request.status = .submitted then db.setStatus .approved (some guid) else db

/-- The update of a rejection, which leaves the voucher that the row names. -/
def Db.reject (db : Db) : Db :=
  if db.request.status = .submitted then db.setStatus .rejected db.request.voucherGuid else db

/-- The update of an undo, which has no condition on the status. -/
def Db.reset (db : Db) : Db := db.setStatus .submitted none

def Db.markReimbursementVoucherPosted (db : Db) (guid : Guid) : Db :=
  if db.request.voucherGuid = some guid ∧ db.request.status = .approved then
    db.setStatus .posted db.request.voucherGuid
  else db

/-! ## Sessions -/

inductive Phase
  | idle
  /-- An approval that read a submitted request, before it looks for an orphan. -/
  | finding
  | adopting (guid : Guid)
  | creating
  | approving (guid : Guid)
  | rejecting
  /-- An undo of an approval, before it deletes the voucher. -/
  | deleting (guid : Guid)
  | resetting
  /-- A voucher was posted and its request is not marked. -/
  | marking (guid : Guid)
deriving DecidableEq

def Phase.Locked : Phase → Prop
  | .idle | .marking _ => False
  | _ => True

abbrev State := Sys Db Unit Phase

def approveReimbursement (db : Db) : Phase :=
  if db.request.status = .submitted then .finding else .idle

def rejectReimbursement (db : Db) (reason : List Char) : Phase :=
  if db.request.status = .submitted ∧ Text.trim reason ≠ [] then .rejecting else .idle

def undoReimbursementDecision (db : Db) : Phase :=
  match db.request.status, db.request.voucherGuid with
  | .approved, some guid => .deleting guid
  | .rejected, _ => .resetting
  | _, _ => .idle

inductive Step
  | approve (k : ℕ)
  | reject (k : ℕ) (reason : List Char)
  | undo (k : ℕ)
  | post (k : ℕ) (guid : Guid)
  | delete (guid : Guid)
  | advance (k : ℕ)
  | crash (k : ℕ)
deriving DecidableEq

/-- An idle session waits for the lock, reads the request, and goes on or gives up. -/
def State.begin (s : State) (k : ℕ) (p : Phase) : Option State :=
  if s.phase k = .idle ∧ s.holder () = none then
    some (if p = .idle then s else (s.take () k).goto k p)
  else none

def State.write (s : State) (k : ℕ) (db : Db) (p : Phase) : State := { s with db }.goto k p

def State.advance (s : State) (k : ℕ) : Option State :=
  match s.phase k with
  | .idle => none
  | .finding => some (s.goto k (s.db.findOrphan.elim .creating fun v => .adopting v.guid))
  | .adopting guid =>
    some (if s.db.has guid then s.goto k (.approving guid) else s.close k s.db .idle)
  | .creating => some (s.write k s.db.createVoucher (.approving s.db.nextGuid))
  | .approving guid => some (s.close k (s.db.approve guid) .idle)
  | .rejecting => some (s.close k s.db.reject .idle)
  | .deleting guid =>
    some (if s.db.isDraft guid then s.write k (s.db.deleteVoucher guid) .resetting
      else s.close k s.db .idle)
  | .resetting => some (s.close k s.db.reset .idle)
  | .marking guid => some (s.close k (s.db.markReimbursementVoucherPosted guid) .idle)

/-- A query that fails ends its session as a crash does. -/
def next : Step → State → Option State
  | .approve k, s => s.begin k (approveReimbursement s.db)
  | .reject k reason, s => s.begin k (rejectReimbursement s.db reason)
  | .undo k, s => s.begin k (undoReimbursementDecision s.db)
  | .post k guid, s =>
    if s.phase k = .idle ∧ s.db.isDraft guid then
      some (s.write k (s.db.postVoucher guid) (.marking guid))
    else none
  | .delete guid, s => some { s with db := s.db.deleteVoucher guid }
  | .advance k, s => s.advance k
  | .crash k, s => some (s.close k s.db .idle)

def start (id : ℕ) (employeeGuid : Guid) : State :=
  ⟨⟨⟨id, employeeGuid, .submitted, none⟩, [], 0⟩, fun _ => none, fun _ => .idle⟩

/-! ## Writes -/

variable {db : Db} {guid : Guid} {v : Voucher}

theorem has_iff : db.has guid ↔ ∃ v ∈ db.vouchers, v.guid = guid := by simp [Db.has]

theorem isDraft_iff : db.isDraft guid ↔ ∃ v ∈ db.vouchers, v.guid = guid ∧ v.posted = false := by
  simp [Db.isDraft]

theorem mem_deleteVoucher :
    v ∈ (db.deleteVoucher guid).vouchers ↔
      v ∈ db.vouchers ∧ (v.guid = guid → v.posted = true) := by
  simp [Db.deleteVoucher, List.mem_filter, imp_iff_not_or]

theorem mem_postVoucher {w : Voucher} :
    w ∈ (db.postVoucher guid).vouchers ↔
      ∃ v ∈ db.vouchers, (if v.guid = guid then { v with posted := true } else v) = w := by
  simp [Db.postVoucher, List.mem_map]

@[simp] theorem request_deleteVoucher : (db.deleteVoucher guid).request = db.request := rfl

@[simp] theorem request_postVoucher : (db.postVoucher guid).request = db.request := rfl

@[simp] theorem request_createVoucher : db.createVoucher.request = db.request := rfl

@[simp] theorem vouchers_setStatus {status : ReimbursementStatus} {voucherGuid : Option Guid} :
    (db.setStatus status voucherGuid).vouchers = db.vouchers := rfl

theorem approve_of_submitted (h : db.request.status = .submitted) :
    db.approve guid = db.setStatus .approved (some guid) := if_pos h

theorem reject_of_submitted (h : db.request.status = .submitted) :
    db.reject = db.setStatus .rejected db.request.voucherGuid := if_pos h

end Reimbursements
