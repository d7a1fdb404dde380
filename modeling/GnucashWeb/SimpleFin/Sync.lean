import Mathlib
import GnucashWeb.Edits.Tables
import GnucashWeb.Lib.Runs

/-!
# A synchronisation

The window that is asked for, and the synchronisation of an account.
-/

/-!
## The window of a bank-feed sync

What a sync asks the feed for: the start of the window from the cursors of the mapped accounts, the
cursor after a pass, and the chunks of the request.  Times are milliseconds and posting times
seconds, both since the start of day 0 of the calendar.

`exists_chunk` says that the chunks cover the window, and `computeSyncStart_le` that the window
reaches back a week before every cursor or ninety days.
-/

namespace SimpleFin

open Edits (msPerDay LockDate)

/-! ## Dates of the feed -/

/-- A time zone: at most fourteen hours ahead and twelve behind. -/
structure TimeZone where
  offset : ℤ → ℤ
  bounded : ∀ t, -43200 ≤ offset t ∧ offset t ≤ 50400

theorem TimeZone.bounded_zero (_ : ℤ) : -43200 ≤ (0 : ℤ) ∧ (0 : ℤ) ≤ 50400 := by decide

/-- The midnight of the calendar date of a posting time in the zone of the bank. -/
def normalizePostDate (zone : TimeZone) (posted : ℤ) : ℤ :=
  (posted + zone.offset posted) / 86400 * msPerDay

theorem normalizePostDate_bounds (zone : TimeZone) (posted : ℤ) :
    posted * 1000 - msPerDay - 43200000 ≤ normalizePostDate zone posted ∧
      normalizePostDate zone posted ≤ posted * 1000 + 50400000 := by
  obtain ⟨hlow, hhigh⟩ := zone.bounded posted
  unfold normalizePostDate msPerDay
  omega

/-! ## Cursors -/

def syncOverlapDays : ℤ := 7

def syncBootstrapDays : ℤ := 90

def maxRetryLookbackDays : ℤ := 30

def earliest (d : ℤ) (ds : List ℤ) : ℤ := ds.foldl (fun e d => if d < e then d else e) d

/-- Ninety days back when an account was never synced, else the oldest cursor with an overlap. -/
def computeSyncStart (lastSyncs : List (Option ℤ)) (now : ℤ) : ℤ :=
  if none ∈ lastSyncs then now - syncBootstrapDays * msPerDay
  else
    match lastSyncs.filterMap id with
    | [] => now - syncBootstrapDays * msPerDay
    | d :: ds => earliest d ds - syncOverlapDays * msPerDay

/-- The oldest failed posting date, but no earlier than the retry lookback. -/
def computeSafeSyncCursor (now : ℤ) (failedPostDates : List ℤ) : ℤ :=
  match failedPostDates with
  | [] => now
  | d :: ds =>
    let oldestFailure := earliest d ds
    let floor := now - maxRetryLookbackDays * msPerDay
    if floor < oldestFailure then oldestFailure else floor

theorem earliest_le {d e : ℤ} {ds : List ℤ} (h : e ∈ d :: ds) : earliest d ds ≤ e := by
  unfold earliest
  induction ds generalizing d e with
  | nil =>
    obtain rfl : e = d := by simpa using h
    exact le_rfl
  | cons d' ds ih =>
    have hle : ∀ e', (if d' < d then d' else d) ≤ e' →
        ds.foldl (fun e d => if d < e then d else e) (if d' < d then d' else d) ≤ e' :=
      fun e' he' => (ih (List.mem_cons_self ..)).trans he'
    rw [List.foldl_cons]
    rcases List.mem_cons.1 h with rfl | h
    · exact hle e (by split <;> omega)
    · rcases List.mem_cons.1 h with rfl | h
      · exact hle e (by split <;> omega)
      · exact ih (List.mem_cons_of_mem _ h)

theorem computeSyncStart_le {lastSyncs : List (Option ℤ)} {c : ℤ} (now : ℤ)
    (hc : some c ∈ lastSyncs) :
    computeSyncStart lastSyncs now ≤ c - syncOverlapDays * msPerDay ∨
      computeSyncStart lastSyncs now = now - syncBootstrapDays * msPerDay := by
  unfold computeSyncStart
  split
  · exact .inr rfl
  · have hmem : c ∈ lastSyncs.filterMap id := List.mem_filterMap.2 ⟨_, hc, rfl⟩
    split
    · exact .inr rfl
    · next d ds hsome =>
        rw [hsome] at hmem
        have hle := earliest_le hmem
        exact .inl (by omega)

theorem computeSyncStart_of_none {lastSyncs : List (Option ℤ)} (now : ℤ) (h : none ∈ lastSyncs) :
    computeSyncStart lastSyncs now = now - syncBootstrapDays * msPerDay := by
  rw [computeSyncStart, if_pos h]

theorem computeSafeSyncCursor_le {now e d : ℤ} {failed : List ℤ} (he : e ∈ failed) (hed : e ≤ d)
    (hlook : now - maxRetryLookbackDays * msPerDay ≤ d) : computeSafeSyncCursor now failed ≤ d := by
  cases failed with
  | nil => cases he
  | cons e' es =>
    have hle := earliest_le he
    unfold computeSafeSyncCursor
    dsimp only
    split <;> omega

/-! ## Chunks -/

/-- A request, from a second on and before another. -/
structure Chunk where
  start : ℤ
  stop : ℤ
deriving DecidableEq, Repr

/-- The loop of `dateChunks`. -/
def chunksFrom (maxDays : ℤ) : ℕ → ℤ → ℤ → List Chunk
  | 0, _, _ => []
  | fuel + 1, current, stop =>
    if current < stop then
      let chunkEnd := min (current + maxDays * msPerDay) stop
      ⟨current / 1000, chunkEnd / 1000⟩ :: chunksFrom maxDays fuel chunkEnd stop
    else []

/-- The chunks of a window, of sixty days at most; each takes at least one millisecond of it. -/
def dateChunks (start stop : ℤ) : List Chunk :=
  chunksFrom 60 (((stop - start) / (60 * msPerDay)).toNat + 1) start stop

/-- Whether a posting time is in one of the chunks. -/
def Covers (chunks : List Chunk) (posted : ℤ) : Prop :=
  ∃ c ∈ chunks, c.start ≤ posted ∧ posted < c.stop

instance (chunks : List Chunk) (posted : ℤ) : Decidable (Covers chunks posted) :=
  inferInstanceAs (Decidable (∃ c ∈ chunks, _))

theorem covers_chunksFrom {maxDays : ℤ} (hmax : 0 < maxDays) {fuel : ℕ} {current stop posted : ℤ}
    (hfuel : stop - current ≤ fuel * (maxDays * msPerDay)) (hstart : current / 1000 ≤ posted)
    (hstop : posted < stop / 1000) : Covers (chunksFrom maxDays fuel current stop) posted := by
  induction fuel generalizing current with
  | zero => omega
  | succ fuel ih =>
    have hlt : current < stop := by omega
    have hstep : 0 < maxDays * msPerDay := Int.mul_pos hmax (by decide)
    rw [chunksFrom, if_pos hlt]
    by_cases hfirst : posted < min (current + maxDays * msPerDay) stop / 1000
    · exact ⟨_, List.mem_cons_self .., hstart, hfirst⟩
    · have hrest : stop - min (current + maxDays * msPerDay) stop ≤
          fuel * (maxDays * msPerDay) := by
        push_cast at hfuel
        have hsplit : ((fuel : ℤ) + 1) * (maxDays * msPerDay) =
            fuel * (maxDays * msPerDay) + maxDays * msPerDay := by ring
        have hnonneg : 0 ≤ (fuel : ℤ) * (maxDays * msPerDay) :=
          Int.mul_nonneg (Int.natCast_nonneg _) hstep.le
        omega
      obtain ⟨c, hc, hposted⟩ := ih hrest (by omega)
      exact ⟨c, List.mem_cons_of_mem _ hc, hposted⟩

theorem lt_of_covers_chunksFrom {maxDays : ℤ} {fuel : ℕ} {current stop posted : ℤ}
    (h : Covers (chunksFrom maxDays fuel current stop) posted) : posted < stop / 1000 := by
  induction fuel generalizing current with
  | zero =>
    obtain ⟨c, hc, -⟩ := h
    cases hc
  | succ fuel ih =>
    obtain ⟨c, hc, hstart, hstop⟩ := h
    rw [chunksFrom] at hc
    split at hc
    · rcases List.mem_cons.1 hc with rfl | hc
      · have hend : min (current + maxDays * msPerDay) stop ≤ stop := min_le_right ..
        dsimp only at hstop
        omega
      · exact ih ⟨c, hc, hstart, hstop⟩
    · cases hc

theorem exists_chunk {start stop posted : ℤ} (hstart : start / 1000 ≤ posted)
    (hstop : posted < stop / 1000) : Covers (dateChunks start stop) posted := by
  refine covers_chunksFrom (by decide) ?_ hstart hstop
  have hpos : (0 : ℤ) < 60 * msPerDay := by decide
  have hdiv := Int.lt_mul_ediv_self_add (x := stop - start) hpos
  have hnonneg : 0 ≤ (stop - start) / (60 * msPerDay) := Int.ediv_nonneg (by omega) hpos.le
  push_cast [Int.toNat_of_nonneg hnonneg]
  have hcomm : ((stop - start) / (60 * msPerDay) + 1) * (60 * msPerDay) =
      60 * msPerDay * ((stop - start) / (60 * msPerDay)) + 60 * msPerDay := by ring
  omega

theorem lt_of_covers {start stop posted : ℤ} (h : Covers (dateChunks start stop) posted) :
    posted < stop / 1000 :=
  lt_of_covers_chunksFrom h

end SimpleFin

/-!
## A sync run

One run of `runSimpleFinSync` over the mapped accounts of a connection, with what it reports of each
account.  What becomes of a row that is neither recorded nor locked is an input of the run: a
matcher or the import records it, the import fails, or an exception ends the pass of its account.
Runs over one connection never overlap, by an advisory lock.
-/

namespace SimpleFin

open Edits (msPerDay LockDate LockableDate findLockedDate)
open Rows

/-- A row of the feed; an amount that is no number has no value. -/
structure Row where
  id : String
  accountId : String
  posted : ℤ
  amount : Option ℚ
deriving DecidableEq

def Row.isImportable (row : Row) : Bool := row.amount.any fun a => a ≠ 0

/-- A row of the account map, with its cursor. -/
structure Mapping where
  accountId : String
  lastSync : Option ℤ
deriving DecidableEq, Repr

/-- What a run did with an account whose rows it went through. -/
structure Report where
  accountId : String
  /-- The cursor that the run found. -/
  cursor : Option ℤ
  failed : List Row
  locked : List Row
  /-- Whether the pass ended without an exception, and the cursor was stored. -/
  completed : Bool
deriving DecidableEq

/-- A connection: its mapped accounts, the feed ids recorded in the book, the rows of the bank, the
time, and the reports so far, the latest first. -/
structure Connection where
  mappings : List Mapping
  recorded : List String
  bank : List Row
  clock : ℤ
  log : List Report

/-! ## Runs -/

/-- What becomes of a row that is to be imported. -/
inductive Outcome
  | recorded
  | failed
  /-- An exception outside of the handler of the row. -/
  | thrown
deriving DecidableEq, Repr

structure Run where
  /-- The time since the last one. -/
  wait : ℕ
  /-- The rows that are new at the bank. -/
  posted : List Row
  /-- The time from the computation of the window to its end. -/
  elapsed : ℕ
  /-- The rows that the feed returns, or a failed request. -/
  feed : Option (List Row)
  lockDate : Option LockDate
  attempt : Row → Outcome
  /-- Whether the ledger account of a mapped account is found with its currency. -/
  opens : String → Bool
  took : String → ℕ
  /-- Whether the update of the cursor succeeds. -/
  stores : String → Bool

/-- The loop over the rows of an account: the ids not to import, the recorded ids, and the rows that
failed or were skipped as locked. -/
structure Pass where
  existing : List String
  recorded : List String
  failed : List Row
  locked : List Row
  earliestFailed : Option ℤ

variable (zone : TimeZone)

def isLocked (lockDate : Option LockDate) (row : Row) : Bool :=
  (findLockedDate (lockDate.map fun lock => Civil.isoText lock.day)
    [some (.date (normalizePostDate zone row.posted))]).isSome

def Pass.fail (p : Pass) (row : Row) : Pass :=
  let date := normalizePostDate zone row.posted
  { p with
    failed := row :: p.failed
    earliestFailed :=
      match p.earliestFailed with
      | none => some date
      | some e => if date < e then some date else some e }

def processRow (run : Run) (row : Row) (p : Pass) : Pass × Bool :=
  if row.id ∈ p.existing then (p, true)
  else if isLocked zone run.lockDate row then ({ p with locked := row :: p.locked }, true)
  else if row.isImportable = false then ({ p with existing := row.id :: p.existing }, true)
  else
    match run.attempt row with
    | .recorded =>
      ({ p with existing := row.id :: p.existing, recorded := row.id :: p.recorded }, true)
    | .failed => (p.fail zone row, true)
    | .thrown => (p, false)

def processRows (run : Run) : List Row → Pass → Pass × Bool
  | [], p => (p, true)
  | row :: rows, p =>
    match processRow zone run row p with
    | (p, true) => processRows run rows p
    | (p, false) => (p, false)

def rowsOf (rows : List Row) (m : Mapping) : List Row :=
  rows.filter fun row => row.accountId = m.accountId

def Connection.afterPass (s : Connection) (m : Mapping) (p : Pass) (completed : Bool) (now : ℤ) :
    Connection :=
  let cursor := computeSafeSyncCursor now p.earliestFailed.toList
  { s with
    mappings :=
      if completed then
        editAt Mapping.accountId m.accountId (fun m => ⟨m.accountId, some cursor⟩) s.mappings
      else s.mappings
    recorded := p.recorded
    clock := now
    log := ⟨m.accountId, m.lastSync, p.failed, p.locked, completed⟩ :: s.log }

def processAccount (run : Run) (rows : List Row) (s : Connection × List String) (m : Mapping) :
    Connection × List String :=
  let now := s.1.clock + run.took m.accountId
  if rowsOf rows m = [] ∨ run.opens m.accountId = false then ({ s.1 with clock := now }, s.2)
  else
    let pass := processRows zone run (rowsOf rows m) ⟨s.2, s.1.recorded, [], [], none⟩
    (s.1.afterPass m pass.1 (pass.2 && run.stores m.accountId) now, pass.1.existing)

def request (run : Run) (s : Connection) : List Chunk :=
  let now := s.clock + run.wait
  dateChunks (computeSyncStart (s.mappings.map Mapping.lastSync) now) (now + run.elapsed)

/-- The feed returns the rows of the bank that are dated inside the chunks. -/
def Answers (bank : List Row) (chunks : List Chunk) (rows : List Row) : Prop :=
  (∀ row ∈ rows, row ∈ bank ∧ Covers chunks row.posted) ∧
    ∀ row ∈ bank, Covers chunks row.posted → row ∈ rows

instance (bank : List Row) (chunks : List Chunk) (rows : List Row) :
    Decidable (Answers bank chunks rows) :=
  inferInstanceAs (Decidable (_ ∧ _))

/-- A run, when the ids of the bank tell its rows apart and the feed answers. -/
def next (run : Run) (s : Connection) : Option Connection :=
  let bank := s.bank ++ run.posted
  let asked := { s with bank := bank, clock := s.clock + run.wait + run.elapsed }
  if (bank.map Row.id).Nodup then
    match run.feed with
    | none => some asked
    | some rows =>
      if Answers bank (request run s) rows then
        let existing := (rows.map Row.id).filter fun id => id ∈ s.recorded
        some (s.mappings.foldl (processAccount zone run rows) (asked, existing)).1
      else none
  else none

end SimpleFin
