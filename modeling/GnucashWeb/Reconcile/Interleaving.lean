import GnucashWeb.Lib.Sessions
import GnucashWeb.Lib.Runs
import GnucashWeb.Reconcile.TieOut

/-!
# Concurrent finalizations

Any number of finalizations of one account, each a database transaction that sees what is committed
at each of its reads and whose writes are seen when it commits.  A finalization first takes the lock
of the account, then those of the transactions of its splits, reads, sums and writes.

`commit_tiesOut_iff` is the main result: in every state that any interleaving reaches, a commit ties
out exactly when the transactions of the selected splits have a post date, and every other step
leaves the tables as they were.
-/

open Ledger (Split)
open Runs RowLocks Transact

namespace Reconcile

/-! ## Sessions of the database -/

inductive Phase
  | idle
  /-- The transaction has begun, and waits for the lock of the account. -/
  | begun (input : FinalizeInput)
  | inside (input : FinalizeInput)
  /-- The transactions still to lock. -/
  | locking (input : FinalizeInput) (todo : List String)
  | read (input : FinalizeInput) (selectedUnits : ℤ)
  | summed (input : FinalizeInput) (selectedUnits reconciledUnits : ℤ)
deriving DecidableEq

/-- Whether a finalization holds the lock of the account. -/
def Phase.isInside : Phase → Bool
  | .idle => false
  | .begun _ => false
  | _ => true

/-- The committed tables, who locks the account and each transaction, and the finalizations. -/
structure System where
  db : Db
  holder : Option ℕ
  rowHolder : String → Option ℕ
  phase : ℕ → Phase

namespace System

def start (db : Db) : System := ⟨db, none, fun _ => none, fun _ => .idle⟩

def setPhase (s : System) (k : ℕ) (phase : Phase) : System :=
  { s with phase := Function.update s.phase k phase }

/-- A transaction ends: its locks are given back. -/
def finish (s : System) (k : ℕ) (db : Db) : System :=
  ⟨db, if s.holder = some k then none else s.holder, release s.rowHolder k,
    Function.update s.phase k .idle⟩

variable (s : System) {j k : ℕ} {phase : Phase} {db : Db}

@[simp] theorem setPhase_db : (s.setPhase k phase).db = s.db := rfl

@[simp] theorem setPhase_phase_self : (s.setPhase k phase).phase k = phase :=
  Function.update_self ..

theorem setPhase_phase_of_ne (h : j ≠ k) : (s.setPhase k phase).phase j = s.phase j :=
  Function.update_of_ne h ..

@[simp] theorem finish_db : (s.finish k db).db = db := rfl

@[simp] theorem finish_phase_self : (s.finish k db).phase k = .idle := Function.update_self ..

theorem finish_phase_of_ne (h : j ≠ k) : (s.finish k db).phase j = s.phase j :=
  Function.update_of_ne h ..

/-- A transaction that ends leaves the lock of the account with another finalization. -/
theorem finish_holder_of_ne (hj : s.holder = some j) (h : j ≠ k) :
    (s.finish k db).holder = some j := by
  have hne : s.holder ≠ some k := by simpa [hj] using h
  rw [finish, if_neg hne, hj]

end System

/-! ## Steps -/

inductive Step
  | call (k : ℕ) (input : FinalizeInput)
  | lockAccount (k : ℕ)
  | preRead (k : ℕ)
  | lockTransaction (k : ℕ)
  | read (k : ℕ)
  | sum (k : ℕ)
  | commit (k : ℕ)
  /-- A finalization throws: its transaction is rolled back. -/
  | abort (k : ℕ)
deriving DecidableEq

section Next

variable (host : Host) (accountGuid : String)

def callNext (k : ℕ) (input : FinalizeInput) (s : System) : Option System :=
  match s.phase k with
  | .idle => some (s.setPhase k (.begun input))
  | _ => none

/-- The lock of the account, when no other finalization has it. -/
def lockAccountNext (k : ℕ) (s : System) : Option System :=
  match s.phase k, s.holder with
  | .begun input, none => some { s.setPhase k (.inside input) with holder := some k }
  | _, _ => none

/-- The transactions of the selected splits, in order. -/
def parentTxGuids (input : FinalizeInput) (db : Db) : List String :=
  (((db.splits.filter fun s => s.guid ∈ input.uniqueGuids).map Split.txGuid).eraseDups).insertionSort
    (· ≤ ·)

def preReadNext (k : ℕ) (s : System) : Option System :=
  match s.phase k with
  | .inside input => some (s.setPhase k (.locking input (parentTxGuids input s.db)))
  | _ => none

def lockTransactionNext (k : ℕ) (s : System) : Option System :=
  match s.phase k with
  | .locking input (guid :: todo) =>
    if s.rowHolder guid = none ∨ s.rowHolder guid = some k then
      some { s.setPhase k (.locking input todo) with rowHolder := acquire s.rowHolder guid k }
    else none
  | _ => none

def readNext (k : ℕ) (s : System) : Option System :=
  match s.phase k with
  | .locking input [] =>
    match readSelected accountGuid input s.db with
    | .ok selectedUnits => some (s.setPhase k (.read input selectedUnits))
    | .error _ => none
  | _ => none

def sumNext (k : ℕ) (s : System) : Option System :=
  match s.phase k with
  | .read input selectedUnits =>
    match summarizeReconciled accountGuid input.commodityScu s.db with
    | .ok reconciledUnits => some (s.setPhase k (.summed input selectedUnits reconciledUnits))
    | .error _ => none
  | _ => none

def commitNext (k : ℕ) (s : System) : Option System :=
  match s.phase k with
  | .summed input selectedUnits reconciledUnits =>
    (stateAfter (writeFinalization host accountGuid input selectedUnits reconciledUnits) s.db).map
      (s.finish k)
  | _ => none

def next : Step → System → Option System
  | .call k input, s => callNext k input s
  | .lockAccount k, s => lockAccountNext k s
  | .preRead k, s => preReadNext k s
  | .lockTransaction k, s => lockTransactionNext k s
  | .read k, s => readNext accountGuid k s
  | .sum k, s => sumNext accountGuid k s
  | .commit k, s => commitNext host accountGuid k s
  | .abort k, s => some (s.finish k s.db)

end Next

/-! ## What the lock of the account keeps -/

variable {host : Host} {accountGuid : String} {s s' : System}

/-- The sums that a finalization has taken are those of the tables as they are now. -/
def Phase.UpToDate (accountGuid : String) (db : Db) : Phase → Prop
  | .read input selectedUnits => readSelected accountGuid input db = .ok selectedUnits
  | .summed input selectedUnits reconciledUnits =>
    readSelected accountGuid input db = .ok selectedUnits ∧
      summarizeReconciled accountGuid input.commodityScu db = .ok reconciledUnits
  | _ => True

/-- A finalization past the lock of the account holds it, its sums are up to date, and split guids
are distinct. -/
structure Sound (accountGuid : String) (s : System) : Prop where
  inside : ∀ k, (s.phase k).isInside → s.holder = some k
  upToDate : ∀ k, (s.phase k).UpToDate accountGuid s.db
  keys : (s.db.splits.map Split.guid).Nodup

theorem sound_start {db : Db} (hkeys : (db.splits.map Split.guid).Nodup) :
    Sound accountGuid (System.start db) where
  inside _ h := by cases h
  upToDate _ := trivial
  keys := hkeys

/-- A step of one finalization that changes no table keeps the invariant, when the new phase is
up to date and the lock is held. -/
theorem Sound.setPhase (hs : Sound accountGuid s) {k : ℕ} {phase : Phase}
    (hin : phase.isInside → s.holder = some k) (hup : phase.UpToDate accountGuid s.db) :
    Sound accountGuid (s.setPhase k phase) where
  inside j hj := by
    by_cases hjk : j = k
    · subst hjk
      rw [System.setPhase_phase_self] at hj
      exact hin hj
    · rw [System.setPhase_phase_of_ne s hjk] at hj
      exact hs.inside j hj
  upToDate j := by
    by_cases hjk : j = k
    · subst hjk
      rw [System.setPhase_phase_self]
      exact hup
    · rw [System.setPhase_phase_of_ne s hjk]
      exact hs.upToDate j
  keys := hs.keys

/-- A transaction that ends keeps the invariant when it writes nothing or holds the lock. -/
theorem Sound.finish (hs : Sound accountGuid s) {k : ℕ} {db : Db}
    (hdb : db = s.db ∨ s.holder = some k) (hkeys : (db.splits.map Split.guid).Nodup) :
    Sound accountGuid (s.finish k db) where
  inside j hj := by
    by_cases hjk : j = k
    · subst hjk
      rw [System.finish_phase_self] at hj
      cases hj
    · rw [System.finish_phase_of_ne s hjk] at hj
      exact s.finish_holder_of_ne (hs.inside j hj) hjk
  upToDate j := by
    by_cases hjk : j = k
    · subst hjk
      rw [System.finish_phase_self]
      trivial
    · rw [System.finish_phase_of_ne s hjk, System.finish_db]
      have hup := hs.upToDate j
      rcases hdb with rfl | hheld
      · exact hup
      -- another finalization holds the lock, so this one has taken no sum
      · have hout : ¬(s.phase j).isInside := fun hin => by
          have heq := (hs.inside j hin).symm.trans hheld
          exact hjk (Option.some.inj heq)
        cases hphase : s.phase j with
        | read | summed => simp [hphase, Phase.isInside] at hout
        | _ => trivial
  keys := hkeys

theorem commitNext_cases {k : ℕ} (hs : Sound accountGuid s)
    (h : commitNext host accountGuid k s = some s') :
    ∃ input selectedUnits reconciledUnits n db',
      s.phase k = .summed input selectedUnits reconciledUnits ∧ s.holder = some k ∧
        readSelected accountGuid input s.db = .ok selectedUnits ∧
        summarizeReconciled accountGuid input.commodityScu s.db = .ok reconciledUnits ∧
        Completes (writeFinalization host accountGuid input selectedUnits reconciledUnits) s.db n
          db' ∧ s' = s.finish k db' := by
  unfold commitNext at h
  split at h
  · next input selectedUnits reconciledUnits hphase =>
      obtain ⟨db', hdb, rfl⟩ := Option.map_eq_some_iff.1 h
      obtain ⟨n, hn⟩ := exists_completes hdb
      have hin := hs.inside k (by rw [hphase]; rfl)
      have hup := hs.upToDate k
      rw [hphase] at hup
      exact ⟨input, selectedUnits, reconciledUnits, n, db', hphase, hin, hup.1, hup.2, hn, rfl⟩
  · cases h

theorem sound_next {l : Step} (h : next host accountGuid l s = some s')
    (hs : Sound accountGuid s) : Sound accountGuid s' := by
  cases l with
  | call k input =>
    simp only [next, callNext] at h
    split at h
    · cases h
      exact hs.setPhase (fun hin => by cases hin) trivial
    · cases h
  | lockAccount k =>
    simp only [next, lockAccountNext] at h
    split at h
    · next input hphase hfree =>
        cases h
        have hnone (j : ℕ) : ¬(s.phase j).isInside := fun hj => by
          rw [hs.inside j hj] at hfree
          cases hfree
        have hheld : Sound accountGuid { s with holder := some k } :=
          ⟨fun j hj => absurd hj (hnone j), hs.upToDate, hs.keys⟩
        exact hheld.setPhase (fun _ => rfl) trivial
    · cases h
  | preRead k =>
    simp only [next, preReadNext] at h
    split at h
    · next input hphase =>
        cases h
        exact hs.setPhase (fun _ => hs.inside k (by rw [hphase]; rfl)) trivial
    · cases h
  | lockTransaction k =>
    simp only [next, lockTransactionNext] at h
    split at h
    · next input guid todo hphase =>
        split at h
        · cases h
          have hrows : Sound accountGuid { s with rowHolder := acquire s.rowHolder guid k } :=
            ⟨hs.inside, hs.upToDate, hs.keys⟩
          exact hrows.setPhase (fun _ => hs.inside k (by rw [hphase]; rfl)) trivial
        · cases h
    · cases h
  | read k =>
    simp only [next, readNext] at h
    split at h
    · next input hphase =>
        split at h
        · next selectedUnits hread =>
            cases h
            exact hs.setPhase (fun _ => hs.inside k (by rw [hphase]; rfl)) hread
        · cases h
    · cases h
  | sum k =>
    simp only [next, sumNext] at h
    split at h
    · next input selectedUnits hphase =>
        split at h
        · next reconciledUnits hsum =>
            cases h
            have hup := hs.upToDate k
            rw [hphase] at hup
            exact hs.setPhase (fun _ => hs.inside k (by rw [hphase]; rfl)) ⟨hup, hsum⟩
        · cases h
    · cases h
  | commit k =>
    obtain ⟨input, _, _, n, db', -, hheld, hread, hsum, hwrite, rfl⟩ := commitNext_cases hs h
    exact hs.finish (Or.inr hheld) (tiesOut_iff hs.keys hread hsum hwrite).1
  | abort k =>
    cases h
    exact hs.finish (Or.inl rfl) hs.keys

theorem sound_run {db : Db} (hkeys : (db.splits.map Split.guid).Nodup) {steps : List Step}
    (hrun : run (next host accountGuid) steps (System.start db) = some s) : Sound accountGuid s :=
  invariant (fun _ _ _ h => sound_next h) hrun (sound_start hkeys)

theorem db_next {l : Step} (h : next host accountGuid l s = some s') (hl : ∀ k, l ≠ .commit k) :
    s'.db = s.db := by
  cases l with
  | commit k => exact absurd rfl (hl k)
  | call k input | preRead k =>
    simp only [next, callNext, preReadNext] at h
    split at h <;> cases h
    rfl
  | lockAccount k =>
    simp only [next, lockAccountNext] at h
    split at h <;> cases h
    rfl
  | lockTransaction k =>
    simp only [next, lockTransactionNext] at h
    split at h
    · split at h <;> cases h
      rfl
    · cases h
  | read k | sum k =>
    simp only [next, readNext, sumNext] at h
    split at h
    · split at h <;> cases h
      rfl
    · cases h
  | abort k =>
    cases h
    rfl

/-- In every interleaving, a commit ties out exactly when the transactions of the selected splits
have a post date; whatever else happens, in particular to a finalization that throws, the tables stay
as they are. -/
theorem commit_tiesOut_iff {db : Db} (hkeys : (db.splits.map Split.guid).Nodup)
    {steps : List Step}
    (hrun : run (next host accountGuid) steps (System.start db) = some s) :
    (∀ l s', (∀ k, l ≠ .commit k) → next host accountGuid l s = some s' → s'.db = s.db) ∧
      ∀ k s', next host accountGuid (.commit k) s = some s' →
        ∃ input selectedUnits reconciledUnits,
          s.phase k = .summed input selectedUnits reconciledUnits ∧
            (TiesOut accountGuid input s.db s'.db ↔ SelectedDated input s.db) := by
  have hs := sound_run hkeys hrun
  refine ⟨fun l s' hl h => db_next h hl, fun k s' h => ?_⟩
  obtain ⟨input, selectedUnits, reconciledUnits, n, db', hphase, -, hread, hsum, hwrite, rfl⟩ :=
    commitNext_cases hs h
  exact ⟨input, selectedUnits, reconciledUnits, hphase, (tiesOut_iff hs.keys hread hsum hwrite).2⟩

/-! ## A split without a date -/

def plainHost : Host where
  generateGuid n := String.ofList ('g' :: Text.natDigits n)
  now := 0

/-- A bank account with one unreconciled split of ten dollars on a transaction with a given post
date. -/
def checking (postDate : Option ℤ) : Db where
  accounts := [⟨"bank", "Checking", .bank, some "usd", 100, some "root"⟩]
  commodities := [⟨"usd", "CURRENCY", "USD"⟩]
  books := [⟨"book", "root"⟩]
  transactions := [⟨"t", "usd", postDate, none, "Deposit"⟩]
  splits := [⟨"s", "t", "bank", "", "", .n, none, ⟨1000, 100⟩, ⟨1000, 100⟩, none⟩]
  sessions := []
  actions := []
  drawn := 0

/-- A statement of ten dollars at the end of the first day of time, with the split. -/
def tenDollars : FinalizeInput where
  statementDate := 0
  endingBalance := "10.00"
  splitGuids := ["s"]
  completion := none
  createAdjustment := false
  commodityScu := 100

/-- One finalization, to the state before its commit. -/
def tenDollarsSteps : List Step :=
  [.call 0 tenDollars, .lockAccount 0, .preRead 0, .lockTransaction 0, .read 0, .sum 0]

def beforeCommit (postDate : Option ℤ) : Option System :=
  run (next plainHost "bank") tenDollarsSteps (System.start (checking postDate))

theorem exists_beforeCommit {postDate : Option ℤ}
    (h : (beforeCommit postDate).map (fun s => (s.db, s.phase 0)) =
      some (checking postDate, .summed tenDollars 1000 0))
    (hcommit : ((beforeCommit postDate).bind (next plainHost "bank" (.commit 0))).isSome) :
    ∃ s s', beforeCommit postDate = some s ∧ next plainHost "bank" (.commit 0) s = some s' ∧
      s.db = checking postDate ∧ s.phase 0 = .summed tenDollars 1000 0 := by
  obtain ⟨s, hs, hpair⟩ := Option.map_eq_some_iff.1 h
  obtain ⟨hdb, hphase⟩ := Prod.mk.inj hpair
  rw [hs, Option.bind_some] at hcommit
  obtain ⟨s', hs'⟩ := Option.isSome_iff_exists.1 hcommit
  exact ⟨s, s', hs, hs', hdb, hphase⟩

/-- With a post date on the statement's day the finalization ties out. -/
theorem commit_tiesOut_iff_checking :
    ∃ s s', beforeCommit (some 0) = some s ∧ next plainHost "bank" (.commit 0) s = some s' ∧
      TiesOut "bank" tenDollars s.db s'.db := by
  have hreach := @exists_beforeCommit (some 0) (by decide) (by decide)
  obtain ⟨s, s', hs, hs', hdb, hphase⟩ := hreach
  have hkeys : ((checking (some 0)).splits.map Split.guid).Nodup := by decide
  obtain ⟨input, _, _, hphase', hiff⟩ := (commit_tiesOut_iff hkeys hs).2 0 s' hs'
  obtain rfl : input = tenDollars := by
    rw [hphase] at hphase'
    exact (Phase.summed.inj hphase').1.symm
  refine ⟨s, s', hs, hs', hiff.2 ?_⟩
  rw [hdb]
  decide

/-- Without a post date the finalization commits and does not tie out: the split that it marks has no
date. -/
theorem commit_tiesOut_checking_false :
    ∃ s s', beforeCommit none = some s ∧ next plainHost "bank" (.commit 0) s = some s' ∧
      ¬TiesOut "bank" tenDollars s.db s'.db := by
  have hreach := @exists_beforeCommit none (by decide) (by decide)
  obtain ⟨s, s', hs, hs', hdb, -⟩ := hreach
  refine ⟨s, s', hs, hs', fun hties => ?_⟩
  rw [hdb] at hties
  obtain ⟨-, -, d, hd, -⟩ := hties.marked _ List.mem_cons_self (List.mem_singleton_self _)
  cases hd

end Reconcile
