import GnucashWeb.Lib.Civil
import GnucashWeb.Lib.Runs
import GnucashWeb.Lib.Sessions
import Mathlib.Data.Rat.Defs

/-!
# Membership dues

Renewal periods, and `recordPayment` query by query.  Dates are days: their texts compare as they do,
for a date is stored only in a year from 1000 to 9999.  Beside the payments stands the history of
the requests that recorded them, each with the payments that it read.
-/

namespace Membership

open Civil Sessions

/-! ## Renewal periods -/

inductive RenewalMode
  | calendarYear | anniversary | lifetime
deriving DecidableEq, Repr

structure MembershipPeriod where
  periodStart : ℤ
  /-- Nothing for lifetime memberships. -/
  periodEnd : Option ℤ
deriving DecidableEq, Repr

def addDays (date days : ℤ) : ℤ := newDate (getFullYear date) (getMonth date) (getDate date + days)

def addOneYearMinusDay (date : ℤ) : ℤ :=
  newDate (getFullYear date + 1) (getMonth date) (getDate date - 1)

def thisYearStart (date : ℤ) : ℤ := newDate (getFullYear date) 0 1

def thisYearEnd (date : ℤ) : ℤ := newDate (getFullYear date) 11 31

/-- The year that a calendar-year payment covers: the next one if the member is already paid through
this one. -/
def targetYear (paidDate : ℤ) : Option ℤ → ℤ
  | some paidThrough =>
    if thisYearEnd paidDate ≤ paidThrough then getFullYear paidThrough + 1
    else getFullYear paidDate
  | none => getFullYear paidDate

def anniversaryStart (paidDate : ℤ) : Option ℤ → ℤ
  | some paidThrough => if paidDate ≤ paidThrough then addDays paidThrough 1 else paidDate
  | none => paidDate

def computeMembershipPeriod (mode : RenewalMode) (paidDate : ℤ) (paidThrough : Option ℤ) :
    MembershipPeriod :=
  match mode with
  | .lifetime => ⟨paidDate, none⟩
  | .calendarYear =>
    ⟨newDate (targetYear paidDate paidThrough) 0 1,
      some (newDate (targetYear paidDate paidThrough) 11 31)⟩
  | .anniversary =>
    ⟨anniversaryStart paidDate paidThrough,
      some (addOneYearMinusDay (anniversaryStart paidDate paidThrough))⟩

def notePeriodEnd (state : Option ℤ × Bool) : Option ℤ → Option ℤ × Bool
  | none => (state.1, true)
  | some day => (some (state.1.elim day (max day)), state.2)

/-- The last day that is paid for, and whether a payment is for a lifetime. -/
def derivePaidThrough (periodEnds : List (Option ℤ)) : Option ℤ × Bool :=
  periodEnds.foldl notePeriodEnd (none, false)

/-- An explicit period wins over the one that the type's renewal mode gives. -/
def resolvePaymentPeriod (mode : RenewalMode) (paidDate : ℤ) (paidThrough : Option ℤ) :
    Option MembershipPeriod → Except String MembershipPeriod
  | some override =>
    if override.periodEnd.any (· < override.periodStart) then
      .error "periodEnd must be on or after periodStart"
    else .ok override
  | none => .ok (computeMembershipPeriod mode paidDate paidThrough)

/-! ## Tables -/

structure Member where
  id : ℕ
  bookGuid : String
  membershipTypeId : Option ℕ
deriving DecidableEq, Repr

structure MembershipType where
  id : ℕ
  bookGuid : String
  name : String
  amount : ℚ
  renewalMode : RenewalMode
deriving DecidableEq, Repr

structure PaymentInput where
  membershipTypeId : Option ℕ
  amount : Option ℚ
  paidDate : ℤ
  method : String
  reference : Option String
  notes : Option String
  periodStart : Option ℤ
  periodEnd : Option ℤ
deriving DecidableEq, Repr

def PaymentInput.override (input : PaymentInput) : Option MembershipPeriod :=
  input.periodStart.map fun periodStart => ⟨periodStart, input.periodEnd⟩

/-- A row of `gnucash_web_membership_payments`. -/
structure Payment where
  id : ℕ
  bookGuid : String
  memberId : ℕ
  membershipTypeId : ℕ
  amount : ℚ
  paidDate : ℤ
  periodStart : ℤ
  periodEnd : Option ℤ
  method : String
  reference : Option String
  notes : Option String
deriving DecidableEq, Repr

/-- A payment that was recorded: the request, the mode of its type and the payments that it read. -/
structure Recorded where
  payment : Payment
  input : PaymentInput
  mode : RenewalMode
  seen : List Payment
deriving DecidableEq

structure Db where
  members : List Member
  types : List MembershipType
  payments : List Payment
  /-- The next payment's id. -/
  nextId : ℕ
  /-- The latest first. -/
  history : List Recorded

/-! ## Recording a payment -/

structure RecordPaymentResult where
  payment : Payment
  membershipTypeName : String
  paidThrough : Option ℤ
  hasLifetime : Bool
deriving DecidableEq

inductive Outcome
  | returned (result : Option RecordPaymentResult)
  /-- A validation error. -/
  | thrown (message : String)
  /-- The client of the database refuses an invalid date. -/
  | refused
deriving DecidableEq

inductive Phase
  | idle
  | reading (bookGuid : String) (memberId : ℕ) (input : PaymentInput)
  | typing (bookGuid : String) (memberId typeId : ℕ) (input : PaymentInput) (seen : List Payment)
  | creating (type : MembershipType) (memberId : ℕ) (input : PaymentInput) (seen : List Payment)
    (period : MembershipPeriod)
  | done (outcome : Outcome)

/-- A date as it is stored, unless its year has fewer or more than four digits. -/
def parseDate (date : ℤ) : Option ℤ :=
  if 1000 ≤ getFullYear date ∧ getFullYear date ≤ 9999 then some date else none

/-- The member's query comes with the member's payments. -/
def afterMember (db : Db) (bookGuid : String) (memberId : ℕ) (input : PaymentInput) : Phase :=
  match (db.members.find? fun m => m.id = memberId).filter fun m => m.bookGuid = bookGuid with
  | none => .done (.returned none)
  | some member =>
    match input.membershipTypeId.or member.membershipTypeId with
    | none => .done (.thrown "Member has no membership type — pick one for this payment")
    | some typeId =>
      .typing bookGuid memberId typeId input (db.payments.filter fun p => p.memberId = memberId)

def afterType (db : Db) (bookGuid : String) (memberId typeId : ℕ) (input : PaymentInput)
    (seen : List Payment) : Phase :=
  match (db.types.find? fun t => t.id = typeId).filter fun t => t.bookGuid = bookGuid with
  | none => .done (.thrown "Membership type not found")
  | some type =>
    match resolvePaymentPeriod type.renewalMode input.paidDate
        (derivePaidThrough (seen.map Payment.periodEnd)).1 input.override with
    | .error message => .done (.thrown message)
    | .ok period => .creating type memberId input seen period

def newPayment (id : ℕ) (type : MembershipType) (memberId : ℕ) (input : PaymentInput)
    (period : MembershipPeriod) : Option Payment := do
  let paidDate ← parseDate input.paidDate
  let periodStart ← parseDate period.periodStart
  let periodEnd ← period.periodEnd.mapM parseDate
  some ⟨id, type.bookGuid, memberId, type.id, input.amount.getD type.amount, paidDate, periodStart,
    periodEnd, input.method, input.reference, input.notes⟩

def Db.insert (db : Db) (r : Recorded) : Db :=
  { db with
    payments := db.payments ++ [r.payment]
    nextId := db.nextId + 1
    history := r :: db.history }

def resultOf (type : MembershipType) (seen : List Payment) (payment : Payment) :
    RecordPaymentResult :=
  let after := derivePaidThrough (seen.map Payment.periodEnd ++ [payment.periodEnd])
  ⟨payment, type.name, after.1, after.2⟩

abbrev State := Sys Db Empty Phase

inductive Step
  | call (k : ℕ) (bookGuid : String) (memberId : ℕ) (input : PaymentInput)
  /-- The next query of a request. -/
  | advance (k : ℕ)
  | crash (k : ℕ)
  /-- Members and types are edited. -/
  | saveMember (member : Member)
  | saveType (type : MembershipType)

def start : State := ⟨⟨[], [], [], 1, []⟩, Empty.elim, fun _ => .idle⟩

def advanceNext (k : ℕ) (s : State) : Option State :=
  match s.phase k with
  | .idle => none
  | .reading bookGuid memberId input => some (s.goto k (afterMember s.db bookGuid memberId input))
  | .typing bookGuid memberId typeId input seen =>
    some (s.goto k (afterType s.db bookGuid memberId typeId input seen))
  | .creating type memberId input seen period =>
    match newPayment s.db.nextId type memberId input period with
    | none => some (s.goto k (.done .refused))
    | some payment =>
      some (s.close k (s.db.insert ⟨payment, input, type.renewalMode, seen⟩)
        (.done (.returned (some (resultOf type seen payment)))))
  | .done _ => none

def next : Step → State → Option State
  | .call k bookGuid memberId input, s =>
    match s.phase k with
    | .idle => some (s.goto k (.reading bookGuid memberId input))
    | _ => none
  | .advance k, s => advanceNext k s
  | .crash k, s => some (s.goto k .idle)
  | .saveMember member, s =>
    some { s with db.members := member :: s.db.members.filter fun m => m.id ≠ member.id }
  | .saveType type, s =>
    some { s with db.types := type :: s.db.types.filter fun t => t.id ≠ type.id }

end Membership
