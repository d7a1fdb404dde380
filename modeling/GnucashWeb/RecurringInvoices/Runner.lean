import GnucashWeb.Lib.Rows
import GnucashWeb.Lib.Runs
import GnucashWeb.Lib.Sessions
import GnucashWeb.Lib.Text
import GnucashWeb.Recurrence.Composite

/-!
# The recurring-invoice runner

Runs of `runDueRecurringInvoices` and `updateRecurringInvoice` side by side, statement by statement:
a run scans the due definitions, then claims and generates one occurrence after the other; an edit
reads a definition and writes all of it back.  Dates are days.  `createInvoice` is one step that
makes an invoice or fails; the notifications are left out, for nothing else is decided by them.
`nextOccurrence_spec` says that the date after an occurrence is the first one.
-/

namespace RecurringInvoices

open Recurrence Sessions Rows

/-! ## Definitions -/

inductive OwnerType
  | customer | vendor
deriving DecidableEq, Repr

inductive RecurringPeriodType
  | daily | weekly | month | year
deriving DecidableEq, Repr

structure InvoiceEntryInput where
  accountGuid : String
  quantity : ℚ
  price : ℚ
deriving DecidableEq

/-- The frozen body of `createInvoice`. -/
structure RecurringTemplate where
  entries : List InvoiceEntryInput
  notes : Option String
  billingId : Option String
  termsGuid : Option String
  currencyGuid : Option String
deriving DecidableEq

/-- A row of `gnucash_web_recurring_invoices`. -/
structure RecurringInvoiceDef where
  id : ℕ
  bookGuid : String
  name : String
  ownerType : OwnerType
  ownerGuid : String
  template : RecurringTemplate
  periodType : RecurringPeriodType
  mult : ℕ
  startDate : ℤ
  lastRun : Option ℤ
  nextDate : ℤ
  autoPost : Bool
  active : Bool
deriving DecidableEq

/-- An invoice that a run has generated, with the definition and the occurrence that it is for. -/
structure Generated where
  defId : ℕ
  occurrence : ℤ
  bookGuid : String
  ownerType : OwnerType
  ownerGuid : String
  template : RecurringTemplate
  invoiceGuid : String
  posted : Bool
deriving DecidableEq

/-- The tables; `claimed` are the occurrences that runs have claimed, `lost` those that a run had
claimed as it failed or died. -/
structure Db where
  defs : List RecurringInvoiceDef
  generated : List Generated
  claimed : List (ℕ × ℤ)
  lost : List (ℕ × ℤ)
deriving DecidableEq

def RecurringPeriodType.toPeriodType : RecurringPeriodType → PeriodType
  | .daily => .daily
  | .weekly => .weekly
  | .month => .month
  | .year => .year

namespace RecurringInvoiceDef

variable (d : RecurringInvoiceDef)

def pattern : RecurrencePattern := ⟨d.periodType.toPeriodType, d.mult, d.startDate, .none⟩

/-- `nextOccurrenceIso`, with no value where it throws. -/
def nextOccurrence (after : ℤ) : Option ℤ :=
  (computeNextOccurrences d.pattern none none none 1 after).head?

end RecurringInvoiceDef

/-! ## Requests -/

structure RunOptions where
  bookGuid : String
  asOf : ℤ
  defId : Option ℕ

structure UpdateRecurringInput where
  name : Option String
  template : Option RecurringTemplate
  periodType : Option RecurringPeriodType
  mult : Option ℕ
  startDate : Option ℤ
  nextDate : Option ℤ
  autoPost : Option Bool
  active : Option Bool

inductive Request
  | run (options : RunOptions)
  | update (bookGuid : String) (id : ℕ) (input : UpdateRecurringInput)

inductive Invalid
  | name | ownerGuid | mult | entries | entryAccount
deriving DecidableEq, Repr

def validateRecurringInput (d : RecurringInvoiceDef) : Option Invalid :=
  if Text.trim d.name.toList = [] then some .name
  else if d.ownerGuid.length ≠ 32 then some .ownerGuid
  else if d.mult < 1 ∨ 120 < d.mult then some .mult
  else if d.template.entries = [] then some .entries
  else if d.template.entries.any fun e => e.accountGuid = "" then some .entryAccount
  else none

/-- A definition with the changes of an edit. -/
def UpdateRecurringInput.merge (input : UpdateRecurringInput) (existing : RecurringInvoiceDef) :
    RecurringInvoiceDef :=
  { existing with
    name := input.name.getD existing.name
    template := input.template.getD existing.template
    periodType := input.periodType.getD existing.periodType
    mult := input.mult.getD existing.mult
    startDate := input.startDate.getD existing.startDate
    nextDate := input.nextDate.getD existing.nextDate
    autoPost := input.autoPost.getD existing.autoPost
    active := input.active.getD existing.active }

/-! ## Phases -/

/-- Where a run is in its definitions: the one at hand, how many occurrences were tried, and the
definitions after it. -/
structure Progress where
  asOf : ℤ
  row : RecurringInvoiceDef
  tried : ℕ
  rest : List RecurringInvoiceDef

inductive Phase
  | idle
  | scanning (options : RunOptions)
  | claiming (p : Progress) (occurrence : ℤ)
  | creating (p : Progress) (occurrence next : ℤ)
  | posting (p : Progress) (occurrence next : ℤ) (invoiceGuid : String)
  | editing (bookGuid : String) (id : ℕ) (input : UpdateRecurringInput)
  | writing (merged : RecurringInvoiceDef)

/-- The occurrence that a session has claimed and not generated yet. -/
def Phase.inHand : Phase → Option (ℕ × ℤ)
  | .creating p occurrence _ => some (p.row.id, occurrence)
  | _ => none

def maxCatchupPerDef : ℕ := 12

def nextDef (asOf : ℤ) : List RecurringInvoiceDef → Phase
  | [] => .idle
  | row :: rest => if row.nextDate ≤ asOf then .claiming ⟨asOf, row, 0, rest⟩ row.nextDate
    else nextDef asOf rest

def nextOccurrencePhase (p : Progress) (next : ℤ) : Phase :=
  if p.tried + 1 < maxCatchupPerDef ∧ next ≤ p.asOf then
    .claiming { p with tried := p.tried + 1 } next
  else nextDef p.asOf p.rest

def dueBefore (a b : RecurringInvoiceDef) : Prop :=
  a.nextDate < b.nextDate ∨ (a.nextDate = b.nextDate ∧ a.id ≤ b.id)

instance : DecidableRel dueBefore := fun _ _ => inferInstanceAs (Decidable (_ ∨ _ ∧ _))

def dueRows (options : RunOptions) (db : Db) : List RecurringInvoiceDef :=
  (db.defs.filter fun d => d.bookGuid = options.bookGuid ∧ d.active = true ∧
    d.nextDate ≤ options.asOf ∧ options.defId.all fun id => d.id = id).insertionSort dueBefore

/-! ## Statements -/

/-- Claim an occurrence: the next date is advanced when it is still the expected one. -/
def claim (id : ℕ) (occurrence next : ℤ) (db : Db) : Option Db :=
  if db.defs.any fun d => d.id = id ∧ d.nextDate = occurrence then
    some { db with
      defs := db.defs.map fun d => if d.id = id ∧ d.nextDate = occurrence then
        { d with nextDate := next, lastRun := some occurrence } else d
      claimed := (id, occurrence) :: db.claimed }
  else none

def generate (row : RecurringInvoiceDef) (occurrence : ℤ) (invoiceGuid : String) (db : Db) : Db :=
  { db with generated :=
      ⟨row.id, occurrence, row.bookGuid, row.ownerType, row.ownerGuid, row.template, invoiceGuid,
        false⟩ :: db.generated }

def post (invoiceGuid : String) (db : Db) : Db :=
  { db with
    generated := editAt Generated.invoiceGuid invoiceGuid (fun g => { g with posted := true })
      db.generated }

/-- The update of an edit writes every column but the last run. -/
def writeBack (merged : RecurringInvoiceDef) (db : Db) : Db :=
  { db with
    defs := db.defs.map fun d => if d.bookGuid = merged.bookGuid ∧ d.id = merged.id then
      { merged with
        name := String.ofList (Text.trim merged.name.toList)
        ownerType := d.ownerType
        ownerGuid := d.ownerGuid
        lastRun := d.lastRun } else d }

/-- An occurrence that is still in hand as a session fails or dies is lost. -/
def lose (p : Phase) (db : Db) : Db := { db with lost := p.inHand.toList ++ db.lost }

/-! ## Steps -/

inductive Step
  | call (k : ℕ) (req : Request)
  /-- The next statement of a session; `createInvoice` draws a guid. -/
  | advance (k : ℕ) (invoiceGuid : String)
  /-- The next statement fails. -/
  | fail (k : ℕ)
  /-- The process of a session dies. -/
  | crash (k : ℕ)

abbrev RunState := Sys Db Empty Phase

def start (db : Db) : RunState := ⟨db, fun _ => none, fun _ => .idle⟩

def callNext (k : ℕ) (req : Request) (s : RunState) : Option RunState :=
  match s.phase k, req with
  | .idle, .run options => some (s.close k s.db (.scanning options))
  | .idle, .update bookGuid id input => some (s.close k s.db (.editing bookGuid id input))
  | _, _ => none

/-- The claim of the next occurrence; the definition is left when it cannot be made. -/
def claimNext (k : ℕ) (p : Progress) (occurrence : ℤ) (s : RunState) : RunState :=
  match p.row.nextOccurrence occurrence with
  | none => s.close k s.db (nextDef p.asOf p.rest)
  | some next =>
    match claim p.row.id occurrence next s.db with
    | none => s.close k s.db (nextDef p.asOf p.rest)
    | some db => s.close k db (.creating p occurrence next)

def editNext (k : ℕ) (bookGuid : String) (id : ℕ) (input : UpdateRecurringInput) (s : RunState) :
    RunState :=
  match s.db.defs.find? fun d => d.bookGuid = bookGuid ∧ d.id = id with
  | none => s.close k s.db .idle
  | some existing =>
    match validateRecurringInput (input.merge existing) with
    | some _ => s.close k s.db .idle
    | none => s.close k s.db (.writing (input.merge existing))

def advanceNext (k : ℕ) (invoiceGuid : String) (s : RunState) : Option RunState :=
  match s.phase k with
  | .idle => none
  | .scanning options => some (s.close k s.db (nextDef options.asOf (dueRows options s.db)))
  | .claiming p occurrence => some (claimNext k p occurrence s)
  | .creating p occurrence next =>
    some (s.close k (generate p.row occurrence invoiceGuid s.db)
      (.posting p occurrence next invoiceGuid))
  | .posting p _ next guid =>
    some (s.close k (if p.row.autoPost = true then post guid s.db else s.db)
      (nextOccurrencePhase p next))
  | .editing bookGuid id input => some (editNext k bookGuid id input s)
  | .writing merged => some (s.close k (writeBack merged s.db) .idle)

/-- A failure in a definition leads to the next one, any other ends the request. -/
def failNext (k : ℕ) (s : RunState) : Option RunState :=
  match s.phase k with
  | .idle => none
  | .claiming p _ => some (s.close k s.db (nextDef p.asOf p.rest))
  | .creating p _ _ => some (s.close k (lose (s.phase k) s.db) (nextDef p.asOf p.rest))
  | .posting p _ _ _ => some (s.close k s.db (nextDef p.asOf p.rest))
  | _ => some (s.close k s.db .idle)

def next : Step → RunState → Option RunState
  | .call k req, s => callNext k req s
  | .advance k invoiceGuid, s => advanceNext k invoiceGuid s
  | .fail k, s => failNext k s
  | .crash k, s => some (s.close k (lose (s.phase k) s.db) .idle)

theorem repeats_pattern (d : RecurringInvoiceDef) : Repeats d.pattern := by
  unfold Repeats RecurringInvoiceDef.pattern
  cases d.periodType <;> simp [RecurringPeriodType.toPeriodType]

theorem schedule_isPrefix {p : RecurrencePattern} (h : Repeats p) {m n : ℕ} (hmn : m ≤ n) :
    schedule p m <+: schedule p n := by
  unfold schedule
  rw [generateRawDates_eq h, generateRawDates_eq h]
  exact (take_passes_isPrefix _ hmn hmn).map _

theorem nextOccurrence_eq (d : RecurringInvoiceDef) (after : ℤ) :
    d.nextOccurrence after =
      ((schedule d.pattern (maxIterations + 1)).filter (after < ·)).head? := by
  unfold RecurringInvoiceDef.nextOccurrence computeNextOccurrences
  rw [if_neg nofun, if_neg one_ne_zero]
  dsimp only
  rw [Civil.fields_newDate, collect_eq Nat.one_pos, List.head?_take, if_neg one_ne_zero]
  rfl

theorem lt_nextOccurrence {d : RecurringInvoiceDef} {after next : ℤ}
    (h : d.nextOccurrence after = some next) : after < next := by
  rw [nextOccurrence_eq] at h
  simpa using (List.mem_filter.1 (List.mem_of_head? h)).2

theorem nextOccurrence_spec {d : RecurringInvoiceDef} {after next : ℤ} (hm : 1 ≤ d.mult)
    (h : d.nextOccurrence after = some next) :
    ∀ n, ∀ x ∈ schedule d.pattern n, after < x → next ≤ x := by
  rw [nextOccurrence_eq] at h
  obtain ⟨hmem, -⟩ := List.mem_filter.1 (List.mem_of_head? h)
  intro n x hx hafter
  -- Both parts of the schedule are parts of one that is long enough.
  have hrep := repeats_pattern d
  have hx := (schedule_isPrefix hrep (le_max_left n (maxIterations + 1))).subset hx
  obtain ⟨later, hlater⟩ := schedule_isPrefix hrep (le_max_right n (maxIterations + 1))
  have hsorted := schedule_sorted (p := d.pattern) hm (max n (maxIterations + 1))
  rw [← hlater] at hx hsorted
  obtain ⟨hfirst, -, hacross⟩ := List.pairwise_append.1 hsorted
  rcases List.mem_append.1 hx with hx | hx
  · have hx : x ∈ (schedule d.pattern (maxIterations + 1)).filter (after < ·) :=
      List.mem_filter.2 ⟨hx, by simpa using hafter⟩
    obtain ⟨rest, hrest⟩ := List.head?_eq_some_iff.1 h
    have hpair := hfirst.filter (after < ·)
    rw [hrest] at hx hpair
    rcases List.mem_cons.1 hx with rfl | hx
    · exact le_rfl
    · exact (List.pairwise_cons.1 hpair).1 x hx
  · exact hacross next hmem x hx

end RecurringInvoices
