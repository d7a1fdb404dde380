import GnucashWeb.Numbering.Steps

/-!
# The numbers of one counter are distinct

`numbers_distinct`: in every run in which no call creates a frame for a book that has one, or is
about to have one, the numbers handed out for one book and one counter are distinct.
`numbers_distinct_false` is a run in which two counters of one book create its frame at the same
time; a third call for the first counter finds the other frame and starts the counter again.
-/

open Runs Versions

namespace Numbering

/-- The document number that a transaction has been given and has not rolled back. -/
def handedOut : Phase → Option (Call × List Char)
  | .returned c value | .committed c value => some (c, formatInvoiceId value)
  | _ => none

/-- No two transactions have one number of one counter. -/
def Distinct (s : Counters) : Prop :=
  ∀ j k c number, j ≠ k → handedOut (s.phase j) = some (c, number) →
    handedOut (s.phase k) ≠ some (c, number)

/-- The slots before the first call: all committed, at most one frame a book, with a GUID of its
own, and at most one slot of a name under an object. -/
structure Initial (books : List String) (s : Counters) : Prop where
  idle : ∀ k, s.phase k = .idle
  committed : ∀ i v, s.slots i = some v → i < s.serial ∧ v.insertedBy = none ∧ v.update = none
  frameGuid : ∀ book ∈ books, ∀ i guid, Frame s.shapes book i guid →
    ∃ text, guid = some text ∧ text ≠ "" ∧ text ∉ books
  frameUnique : ∀ book ∈ books, ∀ i j guid guid', Frame s.shapes book i guid →
    Frame s.shapes book j guid' → i = j
  frameApart : ∀ book ∈ books, ∀ book' ∈ books, ∀ i j guid, Frame s.shapes book i guid →
    Frame s.shapes book' j guid → book = book'
  slotUnique : ∀ objGuid counterName i j, Slot s.shapes objGuid counterName i →
    Slot s.shapes objGuid counterName j → i = j

variable {hashtext : String → ℤ} {books : List String} {s s' : Counters}

theorem Initial.not_insertedBy (h : Initial books s) {k i : ℕ} : ¬ s.InsertedBy k i := by
  rintro ⟨v, hv, hins⟩
  rw [(h.committed i v hv).2.1] at hins
  cases hins

theorem Initial.committed_of_shape (h : Initial books s) {i : ℕ} {row : SlotRow}
    (hrow : s.shapes i = some row) : s.Committed i :=
  (Counters.committed_or_inserted hrow).resolve_right fun ⟨_, hk⟩ => h.not_insertedBy hk

theorem Initial.inv (h : Initial books s) : Inv hashtext books s where
  slots :=
    { bounded := fun i v hv => (h.committed i v hv).1
      frameGuid := h.frameGuid
      frameUnique := h.frameUnique
      frameApart := h.frameApart
      slotUnique := h.slotUnique
      childFrame := fun c _ i j guid ⟨row, hrow, _⟩ _ =>
        ⟨fun _ => h.committed_of_shape hrow, fun k hk => absurd hk h.not_insertedBy⟩
      childInserted := fun c _ i k _ hk => absurd hk h.not_insertedBy
      flatCommitted := fun c _ i ⟨row, hrow, _⟩ => h.committed_of_shape hrow
      raised := fun i v k w hv hu => by
        rw [(h.committed i v hv).2.2] at hu
        cases hu }
  inserting := fun i k hi => absurd hi h.not_insertedBy
  phases := fun k => by
    rw [h.idle k]
    trivial
  distinct := fun j k c m n _ hj => by
    rw [h.idle j] at hj
    cases hj

/-! ## The numbers -/

/-- The value behind a number that is handed out: what its transaction has committed, or what it
has written into a row that no one else can write. -/
theorem handedOut_eq_some {phase : Phase} {c : Call} {number : List Char}
    (h : handedOut phase = some (c, number)) :
    ∃ value, (phase = .returned c value ∨ phase = .committed c value) ∧
      number = formatInvoiceId value := by
  unfold handedOut at h
  split at h
  case h_1 c' value =>
    cases h
    exact ⟨value, .inl rfl, rfl⟩
  case h_2 c' value =>
    cases h
    exact ⟨value, .inr rfl, rfl⟩
  case h_3 => cases h

theorem Inv.lt_of_returned (h : Inv hashtext books s) {j k : ℕ} {c : Call} {m n : ℤ}
    (hj : s.phase j = .committed c m) (hk : s.phase k = .returned c n) : m < n := by
  obtain ⟨hb, i, v, hv, hcounter, hcase⟩ : PhaseOk hashtext books s k (.returned c n) :=
    hk ▸ h.phases k
  obtain ⟨-, i', v', hv', hcounter', hins', hle⟩ :
      PhaseOk hashtext books s j (.committed c m) := hj ▸ h.phases j
  obtain rfl := h.slots.counterAt_unique hb hcounter hcounter'
  rw [hv, Option.some.injEq] at hv'
  subst hv'
  rcases hcase with ⟨-, w, hw, hvalue⟩ | ⟨hins, -⟩
  · rw [(h.slots.raised i v k w hv hw).2] at hvalue
    simp only [SlotRow.value, Option.getD_some] at hvalue hle
    omega
  · rw [hins] at hins'
    cases hins'

theorem Inv.returned_unique (h : Inv hashtext books s) {j k : ℕ} {c : Call} {m n : ℤ}
    (hj : s.phase j = .returned c m) (hk : s.phase k = .returned c n) : j = k := by
  obtain ⟨hb, i, v, hv, hcounter, hcase⟩ : PhaseOk hashtext books s k (.returned c n) :=
    hk ▸ h.phases k
  obtain ⟨-, i', v', hv', hcounter', hcase'⟩ : PhaseOk hashtext books s j (.returned c m) :=
    hj ▸ h.phases j
  obtain rfl := h.slots.counterAt_unique hb hcounter hcounter'
  rw [hv, Option.some.injEq] at hv'
  subst hv'
  rcases hcase with ⟨hins, w, hw, -⟩ | ⟨hins, -⟩ <;>
    rcases hcase' with ⟨hins', w', hw', -⟩ | ⟨hins', -⟩
  · rw [hw, Option.some.injEq, Prod.mk.injEq] at hw'
    exact hw'.1.symm
  · rw [hins] at hins'
    cases hins'
  · rw [hins] at hins'
    cases hins'
  · rw [hins, Option.some.injEq] at hins'
    exact hins'.symm

theorem Inv.distinct_numbers (h : Inv hashtext books s) : Distinct s := by
  intro j k c number hjk hj hk
  obtain ⟨m, hm, rfl⟩ := handedOut_eq_some hj
  obtain ⟨n, hn, heq⟩ := handedOut_eq_some hk
  obtain rfl := formatInvoiceId_inj heq
  rcases hm with hm | hm <;> rcases hn with hn | hn
  · exact hjk (h.returned_unique hm hn)
  · exact absurd (h.lt_of_returned hn hm) (Int.lt_irrefl m)
  · exact absurd (h.lt_of_returned hm hn) (Int.lt_irrefl m)
  · exact h.distinct j k c m m hjk hm hn rfl

/-- In every run in which a frame is only created for a book that has none, committed or not, the
numbers handed out for one book and one counter are distinct. -/
theorem numbers_distinct {steps : List Step} (h : Initial books s)
    (hrun : run (next hashtext books) steps s = some s')
    (halong : Along (next hashtext books) OneFrame steps s) : Distinct s' :=
  (invariant_along (P := Inv hashtext books) (fun _ _ _ => inv_next) hrun halong
    h.inv).distinct_numbers

/-! ## Two runs -/

def newBook : Counters := ⟨fun _ => none, 0, fun _ => none, fun _ => .idle⟩

theorem initial_newBook (books : List String) : Initial books newBook where
  idle _ := rfl
  committed _ _ hv := by cases hv
  frameGuid _ _ _ _ := fun ⟨_, hrow, _⟩ => by cases hrow
  frameUnique _ _ _ _ _ _ := fun ⟨_, hrow, _⟩ => by cases hrow
  frameApart _ _ _ _ _ _ _ := fun ⟨_, hrow, _⟩ => by cases hrow
  slotUnique _ _ _ _ := fun ⟨_, hrow, _⟩ => by cases hrow

/-- A hash of the two keys of the book that tells them apart. -/
def keyLength (text : String) : ℤ := text.length

def gncInvoice : Call := ⟨"book", "gncInvoice"⟩
def gncBill : Call := ⟨"book", "gncBill"⟩

/-- A call that finds nothing, up to the creation of its slots. -/
def bootstrap (k : ℕ) (existingIds : List (List Char)) : List Step :=
  [.findFrame k none, .findFlat k none, .lock k, .findFrame k none, .findFlat k none,
    .seed k existingIds]

/-- Two calls for the invoice counter that find no slot at first: the second waits for the lock and
raises what the first has created. -/
def inTurn : List Step :=
  [Step.call 0 gncInvoice, .call 1 gncInvoice, .findFrame 1 none, .findFlat 1 none] ++
    bootstrap 0 [] ++ [Step.createFrame 0 "f", .createCounter 0, .commit 0] ++
    [Step.lock 1, .findFrame 1 (some 0), .findChild 1 (some 1), .increment 1]

/-- The numbers of two calls that race to create the counter. -/
theorem numbers_distinct_inTurn :
    ∃ s', run (next keyLength ["book"]) inTurn newBook = some s' ∧
      Along (next keyLength ["book"]) OneFrame inTurn newBook ∧ Distinct s' := by
  obtain ⟨s', hrun⟩ := Option.isSome_iff_exists.1
    (show (run (next keyLength ["book"]) inTurn newBook).isSome by decide +kernel)
  have halong : Along (next keyLength ["book"]) OneFrame inTurn newBook := by decide +kernel
  exact ⟨s', hrun, halong, numbers_distinct (initial_newBook _) hrun halong⟩

/-- The first call for a bill and the first for an invoice create the frame at the same time.  A
second invoice reads the frame of the first, a third reads the other frame and starts again. -/
def twoFrames : List Step :=
  [Step.call 0 gncInvoice, .call 1 gncBill] ++ bootstrap 0 [] ++ bootstrap 1 [] ++
    [Step.createFrame 1 "f1", .createFrame 0 "f0", .createCounter 0, .createCounter 1, .commit 0] ++
    [Step.call 2 gncInvoice, .findFrame 2 (some 1), .findChild 2 (some 2), .commit 1] ++
    [Step.call 3 gncInvoice, .findFrame 3 (some 0), .findChild 3 none, .findFlat 3 none, .lock 3,
      .findFrame 3 (some 0), .findChild 3 none, .findFlat 3 none, .seed 3 ["000001".toList],
      .createCounter 3, .commit 3, .increment 2, .commit 2]

theorem numbers_distinct_false :
    ¬ ∀ (hashtext : String → ℤ) (books : List String) (steps : List Step) (s s' : Counters),
      Initial books s → run (next hashtext books) steps s = some s' → Distinct s' := by
  intro h
  obtain ⟨s', hrun⟩ := Option.isSome_iff_exists.1
    (show (run (next keyLength ["book"]) twoFrames newBook).isSome by decide +kernel)
  have hnumbers : (run (next keyLength ["book"]) twoFrames newBook).map
      (fun s => (handedOut (s.phase 2), handedOut (s.phase 3))) =
        some (some (gncInvoice, "000002".toList), some (gncInvoice, "000002".toList)) := by
    decide +kernel
  rw [hrun, Option.map_some, Option.some.injEq, Prod.mk.injEq] at hnumbers
  exact h keyLength ["book"] twoFrames newBook s' (initial_newBook _) hrun 2 3 _ _ (by decide)
    hnumbers.1 hnumbers.2

end Numbering
