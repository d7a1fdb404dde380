import GnucashWeb.Edits.PeriodLock

/-!
# Reconciled splits under concurrent requests

The guard of the reconciled splits reads the splits of a transaction under its row lock, and relies on
every change of a reconcile state being made under that lock.

`protects_of_landed` is the main result: when every reconcile request writes splits only of
transactions that it holds, no commit changes the amount, the account or the post date of a reconciled
or frozen split, or deletes one.
-/

namespace Edits

open Ledger Statements Runs

/-! ## What is promised -/

/-- Every protected split is booked as before, in a transaction with the same post date. -/
def Protects (_ : Set String) (_ : Receipt) (db db' : Db) : Prop :=
  ∀ s ∈ db.splits, IsProtected s →
    (∃ s' ∈ db'.splits, SameBooking s s') ∧
      ∀ row ∈ db.transaction? s.txGuid,
        ∃ row' ∈ db'.transaction? s.txGuid, row'.postDate = row.postDate

instance (s s' : Split) : Decidable (SameBooking s s') :=
  decidable_of_iff (s'.guid = s.guid ∧ s'.txGuid = s.txGuid ∧ s'.accountGuid = s.accountGuid ∧
    s'.value = s.value ∧ s'.quantity = s.quantity)
    ⟨fun ⟨h₁, h₂, h₃, h₄, h₅⟩ => ⟨h₁, h₂, h₃, h₄, h₅⟩, fun ⟨h₁, h₂, h₃, h₄, h₅⟩ => ⟨h₁, h₂, h₃, h₄, h₅⟩⟩

instance : DecidableCommit Protects where
  dec _ _ _ db _ := inferInstanceAs (Decidable (∀ s ∈ db.splits, _))

/-- A reconcile request writes splits only of transactions whose rows it holds. -/
def Landed (L : Set String) (a : Receipt) (db _ : Db) : Prop :=
  match a with
  | .reconciled updated => ∀ s ∈ db.splits, updated s = true → s.txGuid ∈ L
  | _ => True

instance : DecidableCommit Landed where
  dec L _ a db _ :=
    match a with
    | .reconciled updated =>
      inferInstanceAs (Decidable (∀ s ∈ db.splits, updated s = true → s.txGuid ∈ L))
    | .written .. => isTrue trivial
    | .lockDateSet => isTrue trivial
    | .edited _ => isTrue trivial
    | .moved _ => isTrue trivial

/-! ## What a request may rely on -/

/-- None of the splits of a transaction is protected. -/
def Open (guid : String) (db : Db) : Prop := ∀ s ∈ db.splitsOfTx guid, ¬IsProtected s

/-- Locked transactions that are there stay, and none of their splits becomes protected. -/
def KeepsOpen (L : Set String) (db db' : Db) : Prop :=
  ∀ g ∈ L, (db.transaction? g).isSome → (db'.transaction? g).isSome ∧ (Open g db → Open g db')

instance (L : Set String) : Std.Refl (KeepsOpen L) := ⟨fun _ _ _ h => ⟨h, id⟩⟩

instance isTrans_keepsOpen (L : Set String) : IsTrans Db (KeepsOpen L) := by
  refine ⟨fun a b c hab hbc g hg hsome => ?_⟩
  obtain ⟨hsome', hopen⟩ := hab g hg hsome
  obtain ⟨hsome'', hopen'⟩ := hbc g hg hsome'
  exact ⟨hsome'', hopen' ∘ hopen⟩

variable {host : Host} {L : Set String} {a : Receipt} {db db' : Db} {p : Split → Bool}

theorem mem_splitsOfTx {guid : String} {s : Split} :
    s ∈ db.splitsOfTx guid ↔ s ∈ db.splits ∧ s.txGuid = guid := by simp [Db.splitsOfTx]

theorem isProtected_congr {s s' : Split} (h : s'.reconcileState = s.reconcileState) :
    IsProtected s' ↔ IsProtected s := by rw [IsProtected, IsProtected, h]

/-- A write that changes the states of splits of held transactions only keeps the others open. -/
theorem Touches.keepsOpen (h : Touches p db db')
    (hp : ∀ s ∈ db.splits, p s = true → s.txGuid ∈ L) {L' : Set String}
    (hdisj : ∀ g ∈ L', g ∉ L) : KeepsOpen L' db db' := by
  intro g hg hsome
  constructor
  · have hdate := congrArg Option.isSome (h.dates g)
    rw [Option.isSome_map, Option.isSome_map] at hdate
    rw [hdate]
    exact hsome
  · intro hopen s' hs'
    obtain ⟨hmem', htx'⟩ := mem_splitsOfTx.1 hs'
    obtain ⟨s, hs, htx, hstate⟩ := h.source s' hmem'
    have hsg : s.txGuid = g := htx.symm.trans htx'
    have hnot : p s = false := by
      by_contra hps
      exact hdisj g hg (hsg ▸ hp s hs (by simpa using hps))
    rw [isProtected_congr (hstate hnot)]
    exact hopen s (mem_splitsOfTx.2 ⟨hs, hsg⟩)

theorem keepsOpen_of_commit (h : CommitSpec host KeepsOpen L a db db') (hland : Landed L a db db')
    {L' : Set String} (hdisj : ∀ g ∈ L', g ∉ L) : KeepsOpen L' db db' := by
  have hnone : ∀ s ∈ db.splits, false = true → s.txGuid ∈ L := fun _ _ h => by cases h
  cases a with
  | written bookGuid txGuid lockDate text =>
    intro g hg hsome
    by_cases heq : g = txGuid
    · subst heq
      rcases h.origin with ⟨hnone, -⟩ | hheld
      · rw [hnone] at hsome
        cases hsome
      · exact absurd hheld.mem (hdisj g hg)
    · rw [h.only.transaction g heq, Open, Open, h.only.splits g heq]
      exact ⟨hsome, id⟩
  | lockDateSet => exact Touches.keepsOpen h hnone hdisj
  | edited results => exact Touches.keepsOpen h hnone hdisj
  | moved count => exact Touches.keepsOpen h hnone hdisj
  | reconciled updated => exact Touches.keepsOpen h hland hdisj

/-- The splits of a transaction that a request updates or deletes are not protected when it
commits. -/
theorem open_of_held {guid : String} {lockDate : Option LockDate} {text : Option String}
    (h : Held KeepsOpen L guid lockDate text db) : Open guid db := by
  obtain ⟨v, v', row, h₁, h₂, hrow, -, hopen⟩ := h.read
  have hsome : (v.transaction? guid).isSome := by
    rw [hrow]
    rfl
  exact (h₂ guid h.mem (h₁ guid h.mem hsome).1).2 hopen

theorem Touches.protects (h : Touches p db db') : Protects L a db db' := by
  intro s hs hprot
  obtain ⟨s', hs', hsame, -⟩ := h.kept s hs hprot
  refine ⟨⟨s', hs', hsame⟩, fun row hrow => ?_⟩
  have hdate := h.dates s.txGuid
  rw [hrow] at hdate
  obtain ⟨row', hrow', hdate'⟩ := Option.map_eq_some_iff.1 hdate
  exact ⟨row', hrow', hdate'⟩

/-- A create changes no split, and an update or a delete those of its own transaction. -/
theorem protects_of_wrote {guid : String} {lockDate : Option LockDate} {text : Option String}
    (h : Wrote host KeepsOpen L guid lockDate text db db') : Protects L a db db' := by
  intro s hs hprot
  have hkept : s ∈ db'.splits ∧ (s.txGuid = guid → db.transaction? guid = none) := by
    by_cases hguid : s.txGuid = guid
    · rcases h.origin with ⟨hnone, hsub, -⟩ | hheld
      · exact ⟨hsub hs, fun _ => hnone⟩
      · exact absurd hprot (open_of_held hheld s (mem_splitsOfTx.2 ⟨hs, hguid⟩))
    · have hmem := mem_splitsOfTx.2 ⟨hs, rfl⟩
      rw [← h.only.splits _ hguid] at hmem
      exact ⟨(mem_splitsOfTx.1 hmem).1, fun heq => absurd heq hguid⟩
  refine ⟨⟨s, hkept.1, .refl⟩, fun row hrow => ?_⟩
  have hne : s.txGuid ≠ guid := by
    intro heq
    rw [heq, hkept.2 heq] at hrow
    cases hrow
  exact ⟨row, (h.only.transaction _ hne).trans hrow, rfl⟩

theorem protects_of_commit (h : CommitSpec host KeepsOpen L a db db') : Protects L a db db' := by
  cases a with
  | written bookGuid txGuid lockDate text => exact protects_of_wrote h
  | lockDateSet => exact Touches.protects h
  | edited results => exact Touches.protects h
  | moved count => exact Touches.protects h
  | reconciled updated => exact Touches.protects h

/-- In every interleaving of requests whose reconcile requests all write splits of transactions that
they hold, every commit protects the reconciled splits. -/
theorem protects_of_landed (host : Host) (steps : List EditStep) (db : Db)
    (h : Along (next host) (AtCommit Landed) steps (start db)) :
    Along (next host) (AtCommit Protects) steps (start db) :=
  along_atCommit (fun _ => isTrans_keepsOpen _) (good_serve fun _ => isTrans_keepsOpen _)
    (fun _ _ _ _ _ h hland => ⟨trivial, fun _ hdisj => keepsOpen_of_commit h hland hdisj⟩)
    (fun _ _ _ _ _ h _ => protects_of_commit h) trivial h

/-! ## A split that is entered again -/

def purchase (tx first second : Char) : List Split :=
  [⟨hexGuid first, hexGuid tx, hexGuid '1', "", "", .n, none, ⟨-1000, 100⟩, ⟨-1000, 100⟩, none⟩,
    ⟨hexGuid second, hexGuid tx, hexGuid '2', "", "", .n, none, ⟨1000, 100⟩, ⟨1000, 100⟩, none⟩]

/-- Two purchases, `d` with the splits `3` and `4`, and `e` with the splits `5` and `6`. -/
def twoPurchases : Db where
  accounts := []
  transactions := [⟨hexGuid 'd', hexGuid 'c', "", some 0, none, some "Groceries"⟩,
    ⟨hexGuid 'e', hexGuid 'c', "", some 0, none, some "Groceries"⟩]
  splits := purchase 'd' '3' '4' ++ purchase 'e' '5' '6'
  settings := []

/-- The body of an update that names the splits by their guids. -/
def renamed (first second : Char) : CreateTransactionRequest :=
  { groceries "2024-12-30" with
    splits := [⟨some (hexGuid first), hexGuid '1', ⟨-1000, 100⟩, none, none, none, none, none⟩,
      ⟨some (hexGuid second), hexGuid '2', ⟨1000, 100⟩, none, none, none, none, none⟩] }

/-- Reconcile split `3`. -/
def reconcileThree : Request := .bulkReconcile clerk [hexGuid '3'] .y 0

/-- Reconcile split `3`, then try to delete its transaction. -/
def reconcileThenDelete : List EditStep :=
  stepsOf 0 reconcileThree 6 ++ stepsOf 1 (.delete clerk (hexGuid 'd') (some clerk.now)) 6

/-- While split `3` of `d` is being reconciled, updates drop it from `d` and enter it in `e`, and a
delete of `e` passes its guard before the reconcile commits. -/
def reentered : List EditStep :=
  stepsOf 0 reconcileThree 1 ++ stepsOf 1 (.update clerk (hexGuid 'd') none (renamed '7' '4')) 11 ++
    stepsOf 1 (.update clerk (hexGuid 'e') none (renamed '3' '6')) 11 ++
    stepsOf 1 (.delete clerk (hexGuid 'e') (some clerk.now)) 5 ++ List.replicate 5 (Step.advance 0) ++
    List.replicate 3 (Step.advance 1)

theorem protects_twoPurchases :
    (run (next yearEndHost) reconcileThenDelete (start twoPurchases)).isSome ∧
      Along (next yearEndHost) (AtCommit Protects) reconcileThenDelete (start twoPurchases) :=
  ⟨by decide +kernel,
    protects_of_landed yearEndHost reconcileThenDelete twoPurchases (by decide +kernel)⟩

/-- The delete destroys the split after it was reconciled. -/
theorem protects_twoPurchases_false :
    ¬Along (next yearEndHost) (AtCommit Protects) reentered (start twoPurchases) := by decide +kernel

end Edits
