import GnucashWeb.Numbering.Counter

/-!
# What the slots of the counters look like

Which slot is the one of a counter, what every transaction may rely on at each point of its call,
and what another transaction may do to the slots without disturbing it (`PhaseOk.keeps`).
-/

open RowLocks Versions

namespace Numbering

/-! ## Slots by shape -/

def SlotRow.shape (row : SlotRow) : SlotRow := { row with int64Val := none }

/-- The slots without the numbers, those of open transactions among them. -/
def Counters.shapes (s : Counters) : ℕ → Option SlotRow :=
  fun i => (s.slots i).map fun v => v.row.shape

def Frame (slots : ℕ → Option SlotRow) (book : String) (i : ℕ) (guid : Option String) : Prop :=
  ∃ row, slots i = some row ∧ IsFrame book row ∧ row.guidVal = guid

def Slot (slots : ℕ → Option SlotRow) (objGuid counterName : String) (i : ℕ) : Prop :=
  ∃ row, slots i = some row ∧ IsCounter objGuid counterName row

/-- A slot of the counter in the frame of the book. -/
def Child (slots : ℕ → Option SlotRow) (c : Call) (i : ℕ) : Prop :=
  ∃ j guid, Frame slots c.bookGuid j (some guid) ∧ Slot slots guid c.counterName i

/-- A slot of the counter on the book itself. -/
def Flat (slots : ℕ → Option SlotRow) (c : Call) (i : ℕ) : Prop :=
  Slot slots c.bookGuid c.counterName i

def NoChild (slots : ℕ → Option SlotRow) (c : Call) : Prop := ∀ i, ¬ Child slots c i

def CounterAt (slots : ℕ → Option SlotRow) (c : Call) (i : ℕ) : Prop :=
  Child slots c i ∨ (Flat slots c i ∧ NoChild slots c)

variable {i : ℕ} {row : SlotRow} {book : String}

namespace Counters

def Committed (s : Counters) (i : ℕ) : Prop := ∃ v, s.slots i = some v ∧ v.insertedBy = none

def InsertedBy (s : Counters) (k i : ℕ) : Prop := ∃ v, s.slots i = some v ∧ v.insertedBy = some k

theorem shapes_of_slots {s : Counters} {v : Version SlotRow} (h : s.slots i = some v) :
    s.shapes i = some v.row.shape := by
  rw [shapes, h]
  rfl

theorem slots_of_shapes {s : Counters} (h : s.shapes i = some row) :
    ∃ v, s.slots i = some v ∧ v.row.shape = row :=
  Option.map_eq_some_iff.1 h

theorem committed_or_inserted {s : Counters} (h : s.shapes i = some row) :
    s.Committed i ∨ ∃ k, s.InsertedBy k i := by
  obtain ⟨v, hv, -⟩ := slots_of_shapes h
  cases hins : v.insertedBy with
  | none => exact .inl ⟨v, hv, hins⟩
  | some k => exact .inr ⟨k, v, hv, hins⟩

theorem Committed.not_insertedBy {s : Counters} {k : ℕ} (h : s.Committed i) :
    ¬ s.InsertedBy k i := by
  rintro ⟨v, hv, hins⟩
  obtain ⟨w, hw, hnone⟩ := h
  rw [hv, Option.some.injEq] at hw
  subst hw
  simp [hins] at hnone

end Counters

theorem isFrame_shape :
    IsFrame book row.shape ↔ IsFrame book row := Iff.rfl

theorem isCounter_shape {objGuid counterName : String} :
    IsCounter objGuid counterName row.shape ↔ IsCounter objGuid counterName row := Iff.rfl

theorem counterSlotName_inj {a b : String} (h : counterSlotName a = counterSlotName b) : a = b :=
  String.append_right_inj _ |>.1 h

theorem counterSlotName_ne (a : String) : counterSlotName a ≠ "counters" := by
  intro h
  have := congrArg String.length h
  rw [counterSlotName, String.length_append] at this
  have hlen : "counters/".length = 9 := rfl
  have hlen' : "counters".length = 8 := rfl
  omega

/-! ## The invariant -/

section Invariant

variable (hashtext : String → ℤ) (books : List String)

/-- The transaction has the lock of the counter. -/
def Holds (s : Counters) (k : ℕ) (c : Call) : Prop := s.locks (lockKey hashtext c) = some k

/-- The book's frame, with its GUID, is there for everyone. -/
def HasFrame (s : Counters) (c : Call) (guid : String) : Prop :=
  ∃ j, s.Committed j ∧ Frame s.shapes c.bookGuid j (some guid)

/-- A phase in which the transaction may have inserted slots. -/
def Phase.Inserting : Phase → Prop
  | .atCreateCounter .. | .returned .. => True
  | _ => False

def PhaseOk (s : Counters) (k : ℕ) : Phase → Prop
  | .idle => True
  | .atFrame c locked => c.bookGuid ∈ books ∧ (locked = true → Holds hashtext s k c)
  | .atChild c locked guid =>
    c.bookGuid ∈ books ∧ (locked = true → Holds hashtext s k c) ∧ HasFrame s c guid
  | .atFlat c locked frameGuid =>
    c.bookGuid ∈ books ∧ (locked = true → Holds hashtext s k c) ∧
      ((∃ i, Flat s.shapes c i) → NoChild s.shapes c) ∧
        (locked = true → ∀ guid, frameGuid = some guid → HasFrame s c guid ∧ NoChild s.shapes c)
  | .atIncrement c i => c.bookGuid ∈ books ∧ s.Committed i ∧ CounterAt s.shapes c i
  | .atLock c => c.bookGuid ∈ books
  | .atSeed c frameGuid =>
    c.bookGuid ∈ books ∧ Holds hashtext s k c ∧ (∀ i, ¬ Flat s.shapes c i) ∧
      ∀ guid, frameGuid = some guid → HasFrame s c guid ∧ NoChild s.shapes c
  | .atCreateFrame c _ =>
    c.bookGuid ∈ books ∧ Holds hashtext s k c ∧ ∀ i, ¬ Flat s.shapes c i
  | .atCreateCounter c _ guid =>
    c.bookGuid ∈ books ∧ Holds hashtext s k c ∧ (∀ i, ¬ Flat s.shapes c i) ∧
      NoChild s.shapes c ∧
        ∃ j, (s.Committed j ∨ s.InsertedBy k j) ∧ Frame s.shapes c.bookGuid j (some guid)
  | .returned c value =>
    c.bookGuid ∈ books ∧ ∃ i v, s.slots i = some v ∧ CounterAt s.shapes c i ∧
      ((v.insertedBy = none ∧ ∃ w, v.update = some (k, w) ∧ w.value = value) ∨
        (v.insertedBy = some k ∧ v.row.value = value ∧ Holds hashtext s k c))
  | .committed c value =>
    c.bookGuid ∈ books ∧ ∃ i v, s.slots i = some v ∧ CounterAt s.shapes c i ∧
      v.insertedBy = none ∧ value ≤ v.row.value

structure SlotsOk (s : Counters) : Prop where
  bounded : ∀ i v, s.slots i = some v → i < s.serial
  frameGuid : ∀ book ∈ books, ∀ i guid, Frame s.shapes book i guid →
    ∃ text, guid = some text ∧ text ≠ "" ∧ text ∉ books
  frameUnique : ∀ book ∈ books, ∀ i j guid guid', Frame s.shapes book i guid →
    Frame s.shapes book j guid' → i = j
  frameApart : ∀ book ∈ books, ∀ book' ∈ books, ∀ i j guid, Frame s.shapes book i guid →
    Frame s.shapes book' j guid → book = book'
  slotUnique : ∀ objGuid counterName i j, Slot s.shapes objGuid counterName i →
    Slot s.shapes objGuid counterName j → i = j
  /-- A slot in a frame is there for no one who does not see the frame. -/
  childFrame : ∀ c : Call, c.bookGuid ∈ books → ∀ i j guid, Frame s.shapes c.bookGuid j (some guid) →
    Slot s.shapes guid c.counterName i →
      (s.Committed i → s.Committed j) ∧
        ∀ k, s.InsertedBy k i → s.Committed j ∨ s.InsertedBy k j
  childInserted : ∀ c : Call, c.bookGuid ∈ books → ∀ i k, Child s.shapes c i → s.InsertedBy k i →
    Holds hashtext s k c ∧ ∀ j, ¬ Flat s.shapes c j
  flatCommitted : ∀ c : Call, c.bookGuid ∈ books → ∀ i, Flat s.shapes c i → s.Committed i
  /-- A pending update raises a committed counter by one. -/
  raised : ∀ i v k w, s.slots i = some v → v.update = some (k, w) →
    v.insertedBy = none ∧ w = { v.row with int64Val := some (v.row.value + 1) }

structure Inv (s : Counters) : Prop where
  slots : SlotsOk hashtext books s
  inserting : ∀ i k, s.InsertedBy k i → (s.phase k).Inserting
  phases : ∀ k, PhaseOk hashtext books s k (s.phase k)
  distinct : ∀ j k c m n, j ≠ k → s.phase j = .committed c m → s.phase k = .committed c n → m ≠ n

variable {hashtext books} {s s' : Counters}

theorem SlotsOk.frameGuid_eq (h : SlotsOk hashtext books s) (hb : book ∈ books)
    {j : ℕ} {guid guid' : String} (hi : Frame s.shapes book i (some guid))
    (hj : Frame s.shapes book j (some guid')) : guid = guid' := by
  obtain rfl := h.frameUnique _ hb _ _ _ _ hi hj
  obtain ⟨row, hrow, -, hg⟩ := hi
  obtain ⟨row', hrow', -, hg'⟩ := hj
  rw [hrow, Option.some.injEq] at hrow'
  rw [← Option.some.injEq, ← hg, ← hg', hrow']

variable {c : Call}

theorem SlotsOk.counterAt_unique (h : SlotsOk hashtext books s)
    (hc : c.bookGuid ∈ books) {j : ℕ} (hi : CounterAt s.shapes c i)
    (hj : CounterAt s.shapes c j) : i = j := by
  rcases hi with ⟨p, g, hp, hi⟩ | ⟨hi, hno⟩
  · rcases hj with ⟨q, g', hq, hj⟩ | ⟨-, hno⟩
    · obtain rfl := h.frameGuid_eq hc hp hq
      exact h.slotUnique _ _ _ _ hi hj
    · exact absurd ⟨p, g, hp, hi⟩ (hno i)
  · rcases hj with hj | ⟨hj, -⟩
    · exact absurd hj (hno j)
    · exact h.slotUnique _ _ _ _ hi hj

/-! ## What others may do -/

/-- A row that a transaction sees, before and after a step of another. -/
structure Grown (j : ℕ) (v v' : Version SlotRow) : Prop where
  shape : v'.row.shape = v.row.shape
  inserted : v'.insertedBy = v.insertedBy
  value : v.row.value ≤ v'.row.value
  update : ∀ w, v.update = some (j, w) → v'.update = some (j, w)
  own : v.insertedBy = some j → v'.row.value = v.row.value

theorem Grown.refl (j : ℕ) (v : Version SlotRow) : Grown j v v :=
  ⟨rfl, rfl, Int.le_refl _, fun _ => id, fun _ => rfl⟩

variable (hashtext books) in
/-- A step that does not disturb a transaction. -/
structure Keeps (s s' : Counters) (j : ℕ) : Prop where
  locks : ∀ key, s.locks key = some j → s'.locks key = some j
  rows : ∀ i v, s.slots i = some v → v.Visible j → ∃ v', s'.slots i = some v' ∧ Grown j v v'
  flat : ∀ c : Call, c.bookGuid ∈ books → ∀ i, Flat s'.shapes c i → Flat s.shapes c i
  noChild : ∀ c : Call, c.bookGuid ∈ books → NoChild s.shapes c →
    (∃ i, Flat s.shapes c i) ∨ Holds hashtext s j c → NoChild s'.shapes c

namespace Keeps

variable {j : ℕ} (h : Keeps hashtext books s s' j)

include h

theorem shape (hv : s.Committed i ∨ s.InsertedBy j i)
    (hrow : s.shapes i = some row) : s'.shapes i = some row := by
  obtain ⟨v, hs, rfl⟩ := Counters.slots_of_shapes hrow
  have hvis : v.Visible j := by
    rcases hv with ⟨w, hw, hins⟩ | ⟨w, hw, hins⟩ <;> rw [hs, Option.some.injEq] at hw <;> subst hw
    · exact .inl hins
    · exact .inr hins
  obtain ⟨v', hs', hg⟩ := h.rows i v hs hvis
  rw [Counters.shapes_of_slots hs', hg.shape]

theorem committed (hc : s.Committed i) : s'.Committed i := by
  obtain ⟨v, hs, hins⟩ := hc
  obtain ⟨v', hs', hg⟩ := h.rows i v hs (.inl hins)
  exact ⟨v', hs', hg.inserted.trans hins⟩

theorem insertedBy (hc : s.InsertedBy j i) : s'.InsertedBy j i := by
  obtain ⟨v, hs, hins⟩ := hc
  obtain ⟨v', hs', hg⟩ := h.rows i v hs (.inr hins)
  exact ⟨v', hs', hg.inserted.trans hins⟩

theorem visible (hv : s.Committed i ∨ s.InsertedBy j i) :
    s'.Committed i ∨ s'.InsertedBy j i := hv.imp h.committed h.insertedBy

theorem frame {guid : Option String}
    (hv : s.Committed i ∨ s.InsertedBy j i) (hf : Frame s.shapes book i guid) :
    Frame s'.shapes book i guid := by
  obtain ⟨row, hrow, hframe⟩ := hf
  exact ⟨row, h.shape hv hrow, hframe⟩

theorem slot {objGuid counterName : String} (hv : s.Committed i ∨ s.InsertedBy j i)
    (hf : Slot s.shapes objGuid counterName i) : Slot s'.shapes objGuid counterName i := by
  obtain ⟨row, hrow, hslot⟩ := hf
  exact ⟨row, h.shape hv hrow, hslot⟩

theorem hasFrame {guid : String} (hf : HasFrame s c guid) : HasFrame s' c guid := by
  obtain ⟨i, hi, hf⟩ := hf
  exact ⟨i, h.committed hi, h.frame (.inl hi) hf⟩

theorem counterAt (hs : SlotsOk hashtext books s) (hb : c.bookGuid ∈ books)
    (hv : s.Committed i ∨ s.InsertedBy j i) (hc : CounterAt s.shapes c i) :
    CounterAt s'.shapes c i := by
  rcases hc with ⟨p, guid, hp, hi⟩ | ⟨hi, hno⟩
  · have hframe := hs.childFrame c hb i p guid hp hi
    have hvp : s.Committed p ∨ s.InsertedBy j p := by
      rcases hv with hv | hv
      · exact .inl (hframe.1 hv)
      · exact hframe.2 j hv
    exact .inl ⟨p, guid, h.frame hvp hp, h.slot hv hi⟩
  · exact .inr ⟨h.slot hv hi, h.noChild c hb hno (.inl ⟨i, hi⟩)⟩

end Keeps

theorem PhaseOk.keeps (hs : SlotsOk hashtext books s) {j : ℕ} {phase : Phase}
    (h : Keeps hashtext books s s' j) (hp : PhaseOk hashtext books s j phase) :
    PhaseOk hashtext books s' j phase := by
  cases phase with
  | idle => trivial
  | atFrame c locked => exact ⟨hp.1, fun hl => h.locks _ (hp.2 hl)⟩
  | atChild c locked guid =>
    exact ⟨hp.1, fun hl => h.locks _ (hp.2.1 hl), h.hasFrame hp.2.2⟩
  | atFlat c locked frameGuid =>
    obtain ⟨hb, hl, hflat, hchild⟩ := hp
    refine ⟨hb, fun hlocked => h.locks _ (hl hlocked), ?_, fun hlocked guid hguid => ?_⟩
    · rintro ⟨i, hi⟩
      have hex : ∃ i, Flat s.shapes c i := ⟨i, h.flat c hb i hi⟩
      exact h.noChild c hb (hflat hex) (.inl hex)
    · have hc := hchild hlocked guid hguid
      exact ⟨h.hasFrame hc.1, h.noChild c hb hc.2 (.inr (hl hlocked))⟩
  | atIncrement c i =>
    exact ⟨hp.1, h.committed hp.2.1, h.counterAt hs hp.1 (.inl hp.2.1) hp.2.2⟩
  | atLock c => exact hp
  | atSeed c frameGuid =>
    obtain ⟨hb, hl, hflat, hchild⟩ := hp
    refine ⟨hb, h.locks _ hl, fun i hi => hflat i (h.flat c hb i hi), fun guid hguid => ?_⟩
    have hc := hchild guid hguid
    exact ⟨h.hasFrame hc.1, h.noChild c hb hc.2 (.inr hl)⟩
  | atCreateFrame c next =>
    exact ⟨hp.1, h.locks _ hp.2.1, fun i hi => hp.2.2 i (h.flat c hp.1 i hi)⟩
  | atCreateCounter c next guid =>
    obtain ⟨hb, hl, hflat, hchild, i, hv, hf⟩ := hp
    exact ⟨hb, h.locks _ hl, fun i hi => hflat i (h.flat c hb i hi),
      h.noChild c hb hchild (.inr hl), i, h.visible hv, h.frame hv hf⟩
  | returned c value =>
    obtain ⟨hb, i, v, hv, hc, hcase⟩ := hp
    have hvis : v.Visible j := hcase.imp (fun h => h.1) (fun h => h.1)
    have hvi : s.Committed i ∨ s.InsertedBy j i :=
      hvis.imp (fun hins => ⟨v, hv, hins⟩) (fun hins => ⟨v, hv, hins⟩)
    obtain ⟨v', hv', hg⟩ := h.rows i v hv hvis
    refine ⟨hb, i, v', hv', h.counterAt hs hb hvi hc, ?_⟩
    rcases hcase with ⟨hins, w, hw, hvalue⟩ | ⟨hins, hvalue, hl⟩
    · exact .inl ⟨hg.inserted.trans hins, w, hg.update w hw, hvalue⟩
    · exact .inr ⟨hg.inserted.trans hins, (hg.own hins).trans hvalue, h.locks _ hl⟩
  | committed c value =>
    obtain ⟨hb, i, v, hv, hc, hins, hvalue⟩ := hp
    obtain ⟨v', hv', hg⟩ := h.rows i v hv (.inl hins)
    exact ⟨hb, i, v', hv', h.counterAt hs hb (.inl ⟨v, hv, hins⟩) hc, hg.inserted.trans hins,
      Int.le_trans hvalue hg.value⟩

end Invariant

end Numbering
