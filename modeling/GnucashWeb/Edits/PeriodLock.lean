import GnucashWeb.Edits.Commits

/-!
# The period lock under concurrent requests

Any number of requests run side by side, among them creates, updates and deletes of transactions and
requests that set the lock date of a book.

`respects_iff` is the main result: no create, update or delete commits a change of a transaction that
is dated, before or after, on or before the lock date in force exactly when no such lock date was
committed after the request read the lock date, and no new post date names an earlier day than the
one it starts with.
-/

namespace Edits

open Ledger Statements Runs

/-! ## What is promised -/

def Db.postDate? (db : Db) (guid : String) : Option ℤ :=
  (db.transaction? guid).bind Transaction.postDate

/-- A date, if there is one, comes after a lock date. -/
def NotLocked (lock : LockDate) (date : Option ℤ) : Prop := ∀ t ∈ date, lock.day < t / msPerDay

instance (lock : LockDate) (date : Option ℤ) : Decidable (NotLocked lock date) :=
  inferInstanceAs (Decidable (∀ t ∈ date, _))

/-- The dates of a transaction before and after a commit come after the lock date in force. -/
def DatesRespect (bookGuid txGuid : String) (db db' : Db) : Prop :=
  ∀ lock ∈ db.lockDate? bookGuid,
    NotLocked lock (db.postDate? txGuid) ∧ NotLocked lock (db'.postDate? txGuid)

instance (bookGuid txGuid : String) (db db' : Db) : Decidable (DatesRespect bookGuid txGuid db db') :=
  inferInstanceAs (Decidable (∀ lock ∈ db.lockDate? bookGuid, _))

/-- A create, an update or a delete changes one transaction only, and none that is locked. -/
def Respects (_ : Set String) (a : Receipt) (db db' : Db) : Prop :=
  match a with
  | .written bookGuid txGuid _ _ => Only txGuid db db' ∧ DatesRespect bookGuid txGuid db db'
  | _ => True

/-- The lock date in force is the one that the request read or locks none of its dates, and a text
that comes after it names a day after it. -/
def InTime (host : Host) (_ : Set String) (a : Receipt) (db _ : Db) : Prop :=
  match a with
  | .written bookGuid txGuid lockDate text =>
    ∀ lock ∈ db.lockDate? bookGuid,
      (lockDate ≠ some lock →
        NotLocked lock (db.postDate? txGuid) ∧ NotLocked lock (text.bind host.newDate)) ∧
      ∀ x ∈ text, Civil.isoText lock.day < x.toList.take 10 → NotLocked lock (host.newDate x)
  | _ => True

/-! ## What a request may rely on -/

def KeepsDates (L : Set String) (db db' : Db) : Prop :=
  ∀ g ∈ L, ∀ row, db.transaction? g = some row →
    ∃ row', db'.transaction? g = some row' ∧ row'.postDate = row.postDate

instance (L : Set String) : Std.Refl (KeepsDates L) := ⟨fun _ _ _ row h => ⟨row, h, rfl⟩⟩

instance isTrans_keepsDates (L : Set String) : IsTrans Db (KeepsDates L) := by
  refine ⟨fun a b c hab hbc g hg row hrow => ?_⟩
  obtain ⟨row', hrow', hdate⟩ := hab g hg row hrow
  obtain ⟨row'', hrow'', hdate'⟩ := hbc g hg row' hrow'
  exact ⟨row'', hrow'', hdate'.trans hdate⟩

variable {host : Host} {L : Set String} {a : Receipt} {db db' : Db}

theorem SameDates.keeps (h : SameDates db db') (L' : Set String) : KeepsDates L' db db' := by
  intro g _ row hrow
  have hdate := h g
  rw [hrow] at hdate
  obtain ⟨row', hrow', hdate'⟩ := Option.map_eq_some_iff.1 hdate
  exact ⟨row', hrow', hdate'⟩

theorem keepsDates_of_commit (h : CommitSpec host KeepsDates L a db db') {L' : Set String}
    (hdisj : ∀ g ∈ L', g ∉ L) : KeepsDates L' db db' := by
  cases a with
  | written bookGuid txGuid lockDate text =>
    intro g hg row hrow
    by_cases heq : g = txGuid
    · subst heq
      rcases h.origin with ⟨hnone, -⟩ | hheld
      · rw [hnone] at hrow
        cases hrow
      · exact absurd hheld.mem (hdisj g hg)
    · exact ⟨row, (h.only.transaction g heq).trans hrow, rfl⟩
  | lockDateSet => exact h.dates.keeps L'
  | edited results => exact h.dates.keeps L'
  | moved count => exact h.dates.keeps L'
  | reconciled updated => exact h.dates.keeps L'

/-- The date that a request checked is still the one of its transaction when it commits. -/
theorem passed_of_wrote {txGuid : String} {lockDate : Option LockDate} {text : Option String}
    (h : Wrote host KeepsDates L txGuid lockDate text db db') :
    Passed lockDate (db.postDate? txGuid) text := by
  rcases h.origin with ⟨hnone, -, hpassed⟩ | hheld
  · rwa [Db.postDate?, hnone]
  · obtain ⟨v, v', row, h₁, h₂, hrow, hpassed, -⟩ := hheld.read
    obtain ⟨row', hrow', hdate⟩ := IsTrans.trans _ _ _ h₁ h₂ txGuid hheld.mem row hrow
    rw [Db.postDate?, hrow', Option.bind_some, hdate]
    exact hpassed

theorem respects_iff_of_commit (h : CommitSpec host KeepsDates L a db db') :
    Respects L a db db' ↔ InTime host L a db db' := by
  cases a with
  | written bookGuid txGuid lockDate text =>
    have hnew : db'.postDate? txGuid = text.bind host.newDate := h.date
    have hpassed := passed_of_wrote h
    simp only [Respects, InTime, DatesRespect, hnew]
    constructor
    · rintro ⟨-, hdates⟩ lock hlock
      refine ⟨fun _ => hdates lock hlock, fun x hx _ => ?_⟩
      rw [Option.mem_def] at hx
      subst hx
      exact (hdates lock hlock).2
    · refine fun hin => ⟨h.only, fun lock hlock => ?_⟩
      obtain ⟨hchanged, hspelt⟩ := hin lock hlock
      by_cases hsame : lockDate = some lock
      · obtain ⟨hold, htext⟩ := hpassed lock hsame
        refine ⟨fun t ht => lt_of_isoText_lt (hold t ht), fun t ht => ?_⟩
        obtain ⟨x, hx, hxt⟩ := Option.bind_eq_some_iff.1 ht
        exact hspelt x hx (htext x hx) t hxt
      · exact hchanged hsame
  | lockDateSet => exact Iff.rfl
  | edited results => exact Iff.rfl
  | moved count => exact Iff.rfl
  | reconciled updated => exact Iff.rfl

/-- In every interleaving of requests, every create, update and delete respects the lock date in force
when it commits exactly when every one of them commits in time. -/
theorem respects_iff (host : Host) (steps : List EditStep) (db : Db) :
    Along (next host) (AtCommit Respects) steps (start db) ↔
      Along (next host) (AtCommit (InTime host)) steps (start db) :=
  along_atCommit_iff (fun _ => isTrans_keepsDates _) (good_serve fun _ => isTrans_keepsDates _)
    (fun _ _ _ _ _ h => ⟨trivial, fun _ hdisj => keepsDates_of_commit h hdisj⟩)
    (fun _ _ _ _ _ h => respects_iff_of_commit h) steps trivial

/-! ## A year end -/

def hexGuid (c : Char) : String := String.ofList (List.replicate 32 c)

def timeOf (year month day hour : ℤ) : ℤ :=
  Civil.newDate year month day * msPerDay + hour * 3600000

def singleCurrency (splits : List SplitInput) (_ : Db) : Except Failure (List ProcessedSplit) :=
  .ok (splits.map fun s => ⟨s.guid, s.accountGuid, s.value,
    ⟨s.quantityNum.getD s.value.num, s.quantityDenom.getD s.value.denom⟩, s.memo, s.action,
    s.reconcileState⟩)

def yearEndHost : Host where
  newDate text :=
    if text = "2024-12-30" then some (timeOf 2024 11 30 0)
    else if text = "2025-01-01T00:30:00+02:00" then some (timeOf 2024 11 31 22 + 1800000)
    else none
  replaceDescription current _ _ := current
  processMultiCurrencySplits := singleCurrency

def clerk : Caller where
  bookGuid := hexGuid 'b'
  bookAccountGuids := [hexGuid '1', hexGuid '2']
  now := timeOf 2025 0 2 9
  generateGuid n := String.ofList ('s' :: (Nat.toDigits 10 n))

def groceries (postDate : String) : CreateTransactionRequest where
  guid := none
  currencyGuid := hexGuid 'c'
  num := none
  postDate := postDate
  description := "Groceries"
  splits := [⟨none, hexGuid '1', ⟨-1000, 100⟩, none, none, none, none, none⟩,
    ⟨none, hexGuid '2', ⟨1000, 100⟩, none, none, none, none, none⟩]

def yearEnd : LockDate := ⟨Civil.newDate 2024 11 31, by decide⟩

def openBook (lockDate : Option LockDate) : Db := ⟨[], [], [], [⟨hexGuid 'b', lockDate⟩]⟩

def stepsOf (k : ℕ) (req : Request) (n : ℕ) : List EditStep :=
  .call k req :: List.replicate n (.advance k)

/-- A create that has read the lock date when the year is closed and commits after that. -/
def closedMeanwhile : List EditStep :=
  stepsOf 0 (.create clerk (groceries "2024-12-30")) 5 ++
    stepsOf 1 (.setLockDate (hexGuid 'b') (some yearEnd)) 2 ++ [Step.advance 0]

/-- A create that is dated by a text with an offset, when the year is closed. -/
def offsetText : List EditStep :=
  stepsOf 0 (.create clerk (groceries "2025-01-01T00:30:00+02:00")) 6

def AtDates (_ : Set String) (a : Receipt) (db db' : Db) : Prop :=
  match a with
  | .written bookGuid txGuid _ _ => DatesRespect bookGuid txGuid db db'
  | _ => True

instance : DecidableCommit AtDates where
  dec _ _ a db db' :=
    match a with
    | .written bookGuid txGuid _ _ => inferInstanceAs (Decidable (DatesRespect bookGuid txGuid db db'))
    | .lockDateSet => isTrue trivial
    | .edited _ => isTrue trivial
    | .moved _ => isTrue trivial
    | .reconciled _ => isTrue trivial

theorem along_atDates {steps : List EditStep}
    (h : Along (next host) (AtCommit Respects) steps (start db)) :
    Along (next host) (AtCommit AtDates) steps (start db) := by
  refine along_imp (P := fun _ => True) (fun _ _ _ _ _ _ => trivial) (fun l s _ hl => ?_) trivial h
  refine hl.imp fun k a w rest db' _ _ hr => ?_
  cases a with
  | written bookGuid txGuid lockDate text => exact hr.2
  | lockDateSet => trivial
  | edited results => trivial
  | moved count => trivial
  | reconciled updated => trivial

/-- A transaction is created in the closed year after the year was closed, and another one by a text
that is read as a day of the next year. -/
theorem respects_yearEnd_false :
    ¬Along (next yearEndHost) (AtCommit Respects) closedMeanwhile (start (openBook none)) ∧
      ¬Along (next yearEndHost) (AtCommit Respects) offsetText (start (openBook (some yearEnd))) := by
  constructor
  · intro h
    exact absurd (along_atDates h) (by decide +kernel)
  · intro h
    exact absurd (along_atDates h) (by decide +kernel)

end Edits
