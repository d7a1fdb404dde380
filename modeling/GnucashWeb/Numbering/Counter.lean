import Mathlib
import GnucashWeb.Lib.Sessions
import GnucashWeb.Lib.Runs
import GnucashWeb.Lib.Versions
import GnucashWeb.Numbering.Format

/-!
# The counters of document numbers

`nextCounterId` as a transaction that takes one database step at a time, among any number of such
transactions.  A call looks for the counter's slot in the frame of the book, then on the book
itself.  A slot that it finds it raises by one; the row stays locked until the transaction ends.
Else it takes the advisory lock of the counter, looks again, and creates the slot from the numbers
of the existing documents, with the frame if the book has none.  The lock is keyed by the counter,
the frame is shared by all counters of the book.

Neither query for a slot has an order, so each may answer with any row that the transaction sees.
-/

open RowLocks Versions

namespace Numbering

/-! ## Rows and calls -/

def SLOT_INT64 : ℕ := 1
def SLOT_FRAME : ℕ := 9

structure SlotRow where
  objGuid : String
  name : String
  slotType : ℕ
  int64Val : Option ℤ
  guidVal : Option String
deriving DecidableEq, Repr

/-- `COALESCE(int64_val, 0)`. -/
def SlotRow.value (row : SlotRow) : ℤ := row.int64Val.getD 0

def IsFrame (book : String) (row : SlotRow) : Prop :=
  row.objGuid = book ∧ row.name = "counters" ∧ row.slotType = SLOT_FRAME

instance (book : String) : DecidablePred (IsFrame book) :=
  fun _ => inferInstanceAs (Decidable (_ ∧ _))

def counterSlotName (counterName : String) : String := "counters/" ++ counterName

def IsCounter (objGuid counterName : String) (row : SlotRow) : Prop :=
  row.objGuid = objGuid ∧ row.name = counterSlotName counterName

instance (objGuid counterName : String) : DecidablePred (IsCounter objGuid counterName) :=
  fun _ => inferInstanceAs (Decidable (_ ∧ _))

structure Call where
  bookGuid : String
  counterName : String
deriving DecidableEq, Repr

/-- How far the call of a transaction has come; `locked` after the advisory lock. -/
inductive Phase
  | idle
  | atFrame (c : Call) (locked : Bool)
  | atChild (c : Call) (locked : Bool) (frameGuid : String)
  | atFlat (c : Call) (locked : Bool) (frameGuid : Option String)
  | atIncrement (c : Call) (slotId : ℕ)
  | atLock (c : Call)
  | atSeed (c : Call) (frameGuid : Option String)
  | atCreateFrame (c : Call) (next : ℕ)
  | atCreateCounter (c : Call) (next : ℕ) (frameGuid : String)
  | returned (c : Call) (value : ℤ)
  | committed (c : Call) (value : ℤ)
deriving DecidableEq

/-- The slots, the number of identifiers drawn, the advisory locks and the transactions. -/
structure Counters where
  slots : ℕ → Option (Version SlotRow)
  serial : ℕ
  locks : ℤ → Option ℕ
  phase : ℕ → Phase

namespace Counters

def setPhase (s : Counters) (k : ℕ) (phase : Phase) : Counters :=
  { s with phase := Function.update s.phase k phase }

def insert (s : Counters) (k : ℕ) (row : SlotRow) : Counters :=
  { s with
    slots := Function.update s.slots s.serial (some ⟨row, some k, none⟩)
    serial := s.serial + 1 }

/-- `generateGuid`: a GUID that neither a book nor a slot has. -/
def Fresh (books : List String) (s : Counters) (guid : String) : Prop :=
  guid ≠ "" ∧ guid ∉ books ∧
    ∀ i < s.serial, ∀ v ∈ s.slots i, v.row.objGuid ≠ guid ∧ v.row.guidVal ≠ some guid

instance (books : List String) (s : Counters) (guid : String) : Decidable (s.Fresh books guid) :=
  inferInstanceAs (Decidable (_ ∧ _))

end Counters

/-! ## Steps -/

inductive Step
  | call (k : ℕ) (c : Call)
  | findFrame (k : ℕ) (found : Option ℕ)
  | findChild (k : ℕ) (found : Option ℕ)
  | findFlat (k : ℕ) (found : Option ℕ)
  | increment (k : ℕ)
  | lock (k : ℕ)
  /-- The identifiers that the query for existing documents finds. -/
  | seed (k : ℕ) (existingIds : List (List Char))
  | createFrame (k : ℕ) (guid : String)
  | createCounter (k : ℕ)
  | commit (k : ℕ)
  | abort (k : ℕ)
deriving DecidableEq

section Next

variable (hashtext : String → ℤ) (books : List String)

def callNext (k : ℕ) (c : Call) (s : Counters) : Option Counters :=
  match s.phase k with
  | .idle => if c.bookGuid ∈ books then some (s.setPhase k (.atFrame c false)) else none
  | _ => none

/-- `frame?.guid_val`, as far as it is truthy. -/
def frameGuidOf (s : Counters) (found : Option ℕ) : Option String :=
  found.bind fun i => (s.slots i).bind fun v => v.row.guidVal.filter (· ≠ "")

def findFrameNext (k : ℕ) (found : Option ℕ) (s : Counters) : Option Counters :=
  match s.phase k with
  | .atFrame c locked =>
    if Answers s.slots s.serial k (IsFrame c.bookGuid) found then
      match frameGuidOf s found with
      | some guid => some (s.setPhase k (.atChild c locked guid))
      | none => some (s.setPhase k (.atFlat c locked none))
    else none
  | _ => none

def findChildNext (k : ℕ) (found : Option ℕ) (s : Counters) : Option Counters :=
  match s.phase k with
  | .atChild c locked guid =>
    if Answers s.slots s.serial k (IsCounter guid c.counterName) found then
      match found with
      | some slotId => some (s.setPhase k (.atIncrement c slotId))
      | none => some (s.setPhase k (.atFlat c locked (some guid)))
    else none
  | _ => none

def findFlatNext (k : ℕ) (found : Option ℕ) (s : Counters) : Option Counters :=
  match s.phase k with
  | .atFlat c locked frameGuid =>
    if Answers s.slots s.serial k (IsCounter c.bookGuid c.counterName) found then
      match found, locked with
      | some slotId, _ => some (s.setPhase k (.atIncrement c slotId))
      | none, false => some (s.setPhase k (.atLock c))
      | none, true => some (s.setPhase k (.atSeed c frameGuid))
    else none
  | _ => none

/-- The largest `bigint`. -/
def maxInt64 : ℤ := 2 ^ 63 - 1

/-- The atomic update; it waits while another transaction has the row, and fails on an overflow. -/
def incrementNext (k : ℕ) (s : Counters) : Option Counters :=
  match s.phase k with
  | .atIncrement c slotId =>
    (s.slots slotId).bind fun v =>
      let value := v.row.value + 1
      if v.Visible k ∧ v.update = none ∧ value ≤ maxInt64 then
        some { s with
          slots := Function.update s.slots slotId
            (some { v with update := some (k, { v.row with int64Val := some value }) })
          phase := Function.update s.phase k (.returned c value) }
      else none
  | _ => none

def lockKey (c : Call) : ℤ := hashtext ("gncCounter:" ++ c.bookGuid ++ ":" ++ c.counterName)

def lockNext (k : ℕ) (s : Counters) : Option Counters :=
  match s.phase k with
  | .atLock c =>
    if s.locks (lockKey hashtext c) = none then
      some { s with
        locks := acquire s.locks (lockKey hashtext c) k
        phase := Function.update s.phase k (.atFrame c true) }
    else none
  | _ => none

def seedNext (k : ℕ) (existingIds : List (List Char)) (s : Counters) : Option Counters :=
  match s.phase k with
  | .atSeed c (some guid) =>
    some (s.setPhase k (.atCreateCounter c (nextIdFromExisting existingIds) guid))
  | .atSeed c none => some (s.setPhase k (.atCreateFrame c (nextIdFromExisting existingIds)))
  | _ => none

def createFrameNext (k : ℕ) (guid : String) (s : Counters) : Option Counters :=
  match s.phase k with
  | .atCreateFrame c next =>
    if s.Fresh books guid then
      some ((s.insert k ⟨c.bookGuid, "counters", SLOT_FRAME, none, some guid⟩).setPhase k
        (.atCreateCounter c next guid))
    else none
  | _ => none

def createCounterNext (k : ℕ) (s : Counters) : Option Counters :=
  match s.phase k with
  | .atCreateCounter c next guid =>
    if (next : ℤ) ≤ maxInt64 then
      some ((s.insert k
        ⟨guid, counterSlotName c.counterName, SLOT_INT64, some next, none⟩).setPhase k
          (.returned c next))
    else none
  | _ => none

def commitNext (k : ℕ) (s : Counters) : Option Counters :=
  match s.phase k with
  | .returned c value =>
    some { s with
      slots := fun i => (s.slots i).map (Version.commit k)
      locks := release s.locks k
      phase := Function.update s.phase k (.committed c value) }
  | _ => none

/-- A transaction that has not committed rolls back, and its number with it. -/
def abortNext (k : ℕ) (s : Counters) : Option Counters :=
  match s.phase k with
  | .idle | .committed _ _ => none
  | _ =>
    some { s with
      slots := fun i => (s.slots i).bind (Version.rollback k)
      locks := release s.locks k
      phase := Function.update s.phase k .idle }

def next : Step → Counters → Option Counters
  | .call k c => callNext books k c
  | .findFrame k found => findFrameNext k found
  | .findChild k found => findChildNext k found
  | .findFlat k found => findFlatNext k found
  | .increment k => incrementNext k
  | .lock k => lockNext hashtext k
  | .seed k existingIds => seedNext k existingIds
  | .createFrame k guid => createFrameNext books k guid
  | .createCounter k => createCounterNext k
  | .commit k => commitNext k
  | .abort k => abortNext k

end Next

end Numbering
