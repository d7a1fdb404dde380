import GnucashWeb.Lib.Runs
import GnucashWeb.Lib.Sessions
import GnucashWeb.Schedule.Execute

/-!
# Concurrent calls on one schedule

Any number of calls that execute or skip an occurrence of one schedule, each a database transaction
that first locks the row of the schedule.  The answers that the calls got are kept, the latest first.

`once_iff` is the main result: in every interleaving no date is processed twice and the counts are
right, and the refusals say what they should exactly when every call names a date that was processed
or, of a schedule whose count is not zero, a date after the last one.
-/

open Runs Sessions Transact Recurrence

namespace Schedule

/-! ## Calls in flight -/

/-- An answer, with the call and the row that the call found. -/
structure Answered where
  call : Call
  found : Option SchedXAction
  answer : Except Refusal Done
deriving DecidableEq

structure World where
  db : Db
  answers : List Answered

inductive Phase
  | idle
  | called (call : Call)
  /-- The row of the schedule is locked. -/
  | locked (call : Call) (found : Option SchedXAction)
deriving DecidableEq

abbrev System := Sys World String Phase

def start (db : Db) : System := ⟨⟨db, []⟩, fun _ => none, fun _ => .idle⟩

inductive Step
  | call (k : ℕ) (call : Call)
  | lock (k : ℕ)
  | finish (k : ℕ)
  /-- A call throws: its transaction is rolled back. -/
  | abort (k : ℕ)
deriving DecidableEq

section Next

variable (host : Host) (sxGuid : String)

def callNext (k : ℕ) (call : Call) (s : System) : Option System :=
  match s.phase k with
  | .idle => some (s.goto k (.called call))
  | _ => none

/-- `SELECT ... FOR UPDATE`: the row is read when the lock is free. -/
def lockNext (k : ℕ) (s : System) : Option System :=
  match s.phase k with
  | .called call =>
    match s.db.db.schedule? sxGuid with
    | none => some (s.goto k (.locked call none))
    | some row =>
      if s.CanTake sxGuid k then some ((s.take sxGuid k).goto k (.locked call (some row))) else none
  | _ => none

def answered (call : Call) (found : Option SchedXAction) (w : World) : World :=
  match process host sxGuid found call w.db with
  | .ok (done, db) => ⟨db, ⟨call, found, .ok done⟩ :: w.answers⟩
  | .error refusal => ⟨w.db, ⟨call, found, .error refusal⟩ :: w.answers⟩

def finishNext (k : ℕ) (s : System) : Option System :=
  match s.phase k with
  | .locked call found => some (s.close k (answered host sxGuid call found s.db) .idle)
  | _ => none

def next : Step → System → Option System
  | .call k call, s => callNext k call s
  | .lock k, s => lockNext sxGuid k s
  | .finish k, s => finishNext host sxGuid k s
  | .abort k, s => some (s.close k s.db .idle)

end Next

/-! ## What the answers say -/

def Answered.date? (a : Answered) : Option ℤ :=
  match a.answer with
  | .ok _ => some a.call.occurrenceDate
  | .error _ => none

def Answered.isExecution (a : Answered) : Bool :=
  a.date?.isSome && a.call.action = .execute

/-- The dates that were processed, with those processed before the first call. -/
def processedDates (before : List ℤ) (answers : List Answered) : List ℤ :=
  answers.filterMap Answered.date? ++ before

/-- The list of schedules offers no occurrence, and would offer one if occurrences were not
counted. -/
def OutOfOccurrences (recurrences : List RecurrenceRow) (today : ℤ) (row : SchedXAction) : Prop :=
  nextOccurrence recurrences today row (listedRemaining row.remOccur) = none ∧
    nextOccurrence recurrences today row none ≠ none

/-- A refusal as already executed names a processed date, and a call is refused as exhausted exactly
when the list is out of occurrences. -/
def FairAnswer (recurrences : List RecurrenceRow) (dates : List ℤ) (a : Answered) : Prop :=
  (a.answer = .error .alreadyExecuted → a.call.occurrenceDate ∈ dates) ∧
    ∀ row ∈ a.found, ∀ today,
      a.answer = .error .noRemaining ↔ OutOfOccurrences recurrences today row

def Fair (recurrences : List RecurrenceRow) (before : List ℤ) : List Answered → Prop
  | [] => True
  | a :: earlier =>
    Fair recurrences before earlier ∧ FairAnswer recurrences (processedDates before earlier) a

structure Counts (row₀ row : SchedXAction) (answers : List Answered) : Prop where
  instances : row.instanceCount = row₀.instanceCount + (answers.filter Answered.isExecution).length
  remaining : 0 ≤ row₀.remOccur →
    row.remOccur = row₀.remOccur - (answers.filterMap Answered.date?).length ∧ 0 ≤ row.remOccur
  unlimited : row₀.remOccur = -1 → row.remOccur = -1

/-- Every occurrence is processed at most once, the counts are right and every answer is fair. -/
structure Once (sxGuid : String) (before : List ℤ) (row₀ : SchedXAction) (w : World) : Prop where
  once : (processedDates before w.answers).Nodup
  counts : ∃ row, w.db.schedule? sxGuid = some row ∧ Counts row₀ row w.answers
  fair : Fair w.db.recurrences before w.answers

/-- A call names a date that was processed, or a date after the last one of a schedule whose count is
not zero. -/
def InTurn (before : List ℤ) (l : Step) (s : System) : Prop :=
  match l with
  | .finish k =>
    match s.phase k with
    | .locked call (some row) =>
      call.occurrenceDate ∈ processedDates before s.db.answers ∨
        alreadyProcessed row.lastOccur call.occurrenceDate = false ∧ row.remOccur ≠ 0
    | _ => True
  | _ => True

instance (before : List ℤ) (l : Step) (s : System) : Decidable (InTurn before l s) := by
  unfold InTurn
  split
  · split <;> infer_instance
  · infer_instance

theorem collect_some {adjust : WeekendAdjust} {endDate : Option ℤ} {afterDate : ℤ} {n : ℕ}
    (dates : List ℤ) :
    collect adjust endDate afterDate (some n) 1 dates = collect adjust endDate afterDate none 1 dates := by
  induction dates with
  | nil => rfl
  | cons d dates ih => simp [collect, ih]

theorem listedRemaining_cases (remOccur : ℤ) :
    listedRemaining remOccur = none ∨ ∃ n, 1 ≤ n ∧ listedRemaining remOccur = some n := by
  unfold listedRemaining
  split
  · next h => exact .inr ⟨remOccur.toNat, by omega, rfl⟩
  · exact .inl rfl

theorem nextOccurrence_some {recurrences : List RecurrenceRow} {today : ℤ} {row : SchedXAction} {n : ℕ}
    (hn : 1 ≤ n) :
    nextOccurrence recurrences today row (some n) = nextOccurrence recurrences today row none := by
  have hrow (p : RecurrencePattern) (last : Option ℤ) :
      computeNextOccurrences p last row.endDate (some n) 1 today =
        computeNextOccurrences p last row.endDate none 1 today := by
    have hne : n ≠ 0 := by omega
    simp [computeNextOccurrences, collect_some, hne]
  have htake : min 1 n = 1 := by omega
  simp [nextOccurrence, computeNextOccurrencesForPatterns, hrow, htake]

theorem not_outOfOccurrences {recurrences : List RecurrenceRow} {today : ℤ} {row : SchedXAction} :
    ¬OutOfOccurrences recurrences today row := by
  rintro ⟨hnone, hsome⟩
  rcases listedRemaining_cases row.remOccur with h | ⟨n, hn, h⟩
  · rw [h] at hnone
    exact hsome hnone
  · rw [h, nextOccurrence_some hn] at hnone
    exact hsome hnone

/-! ## What one answer changes -/

variable {host : Host} {sxGuid : String} {before : List ℤ} {row₀ row : SchedXAction} {w : World}
  {call : Call}

/-- What every call keeps: dates are processed once and are past the last occurrence, and the counts
are right. -/
structure Kept (sxGuid : String) (before : List ℤ) (row₀ : SchedXAction) (w : World) : Prop where
  once : (processedDates before w.answers).Nodup
  counts : ∃ row, w.db.schedule? sxGuid = some row ∧ Counts row₀ row w.answers ∧
    ∀ d ∈ processedDates before w.answers, alreadyProcessed row.lastOccur d = true

theorem checkOccurrence_eq_ok {occurrenceDate : ℤ} :
    checkOccurrence row occurrenceDate = .ok () ↔
      alreadyProcessed row.lastOccur occurrenceDate = false ∧ row.remOccur ≠ 0 := by
  unfold checkOccurrence
  split_ifs with hdone hrem
  · simp [hdone]
  · simp [hrem]
  · simp [hdone, hrem]

theorem Counts.processed {answers : List Answered} (h : Counts row₀ row answers)
    (hrem : row.remOccur ≠ 0) {done : Done} :
    Counts row₀ (row.processed call) (⟨call, some row, .ok done⟩ :: answers) where
  instances := by
    by_cases hexec : call.action = .execute
    · simp [SchedXAction.processed, Answered.isExecution, Answered.date?, hexec, h.instances]
      omega
    · simp [SchedXAction.processed, Answered.isExecution, Answered.date?, hexec, h.instances]
  remaining h₀ := by
    obtain ⟨heq, hle⟩ := h.remaining h₀
    have hne : row.remOccur ≠ -1 := by omega
    have hdates : (⟨call, some row, .ok done⟩ :: answers).filterMap Answered.date? =
        call.occurrenceDate :: answers.filterMap Answered.date? := rfl
    rw [hdates, List.length_cons, SchedXAction.processed, newRemOccur, if_neg hne]
    dsimp only
    omega
  unlimited h₀ := by
    rw [SchedXAction.processed, newRemOccur, if_pos (h.unlimited h₀)]

/-- A date past the check is not among the dates that were processed, and those stay processed. -/
theorem alreadyProcessed_of_later {d e : ℤ} (hd : alreadyProcessed row.lastOccur d = true)
    (he : alreadyProcessed row.lastOccur e = false) : d < e := by
  cases hlast : row.lastOccur with
  | none => simp [alreadyProcessed, hlast] at hd
  | some last =>
    simp only [alreadyProcessed, hlast, Option.any_some, decide_eq_true_eq,
      decide_eq_false_iff_not] at hd he
    omega

theorem kept_answered (h : Kept sxGuid before row₀ w) (hrow : w.db.schedule? sxGuid = some row) :
    Kept sxGuid before row₀ (answered host sxGuid call (some row) w) ∧
      (answered host sxGuid call (some row) w).db.recurrences = w.db.recurrences := by
  obtain ⟨row', hrow', hcounts, hdates⟩ := h.counts
  obtain rfl : row' = row := Option.some.inj (hrow'.symm.trans hrow)
  have hguid : row'.guid = sxGuid := by simpa using List.find?_some hrow
  subst hguid
  unfold answered
  cases hp : process host row'.guid (some row') call w.db with
  | error e =>
    exact ⟨⟨h.once, row', hrow, ⟨hcounts.1, hcounts.2, hcounts.3⟩, hdates⟩, rfl⟩
  | ok result =>
    obtain ⟨done, db'⟩ := result
    obtain ⟨hcheck, hrow'', hrec⟩ := schedule_process hp hrow
    obtain ⟨hnew, hrem⟩ := checkOccurrence_eq_ok.1 hcheck
    have hlater : ∀ d ∈ processedDates before w.answers, d < call.occurrenceDate :=
      fun d hd => alreadyProcessed_of_later (hdates d hd) hnew
    refine ⟨⟨?_, row'.processed call, hrow'', hcounts.processed hrem, ?_⟩, hrec⟩
    · show (call.occurrenceDate :: processedDates before w.answers).Nodup
      exact List.nodup_cons.2 ⟨fun hmem => lt_irrefl _ (hlater _ hmem), h.once⟩
    · show ∀ d ∈ call.occurrenceDate :: processedDates before w.answers, _
      intro d hd
      have hle : d ≤ call.occurrenceDate := by
        rcases List.mem_cons.1 hd with rfl | hd
        · exact le_rfl
        · exact (hlater d hd).le
      simpa [alreadyProcessed, SchedXAction.processed] using hle

theorem fair_answered (h : Kept sxGuid before row₀ w) (hrow : w.db.schedule? sxGuid = some row) :
    Fair (answered host sxGuid call (some row) w).db.recurrences before
        (answered host sxGuid call (some row) w).answers ↔
      Fair w.db.recurrences before w.answers ∧
        (call.occurrenceDate ∈ processedDates before w.answers ∨
          alreadyProcessed row.lastOccur call.occurrenceDate = false ∧ row.remOccur ≠ 0) := by
  rw [(kept_answered h hrow).2]
  obtain ⟨row', hrow', -, hdates⟩ := h.counts
  obtain rfl : row' = row := Option.some.inj (hrow'.symm.trans hrow)
  have hguid : row'.guid = sxGuid := by simpa using List.find?_some hrow
  subst hguid
  unfold answered
  cases hp : process host row'.guid (some row') call w.db with
  | error e =>
    obtain ⟨halready, hnone⟩ := process_refused hp
    simp only [Fair, FairAnswer, not_outOfOccurrences, iff_false, Option.mem_def, Option.some.injEq,
      Except.error.injEq, forall_eq', forall_const]
    refine and_congr_right fun _ => ?_
    rw [halready, hnone]
    by_cases hdone : alreadyProcessed row'.lastOccur call.occurrenceDate = true
    · simp [hdone]
    · have hnew : call.occurrenceDate ∉ processedDates before w.answers :=
        fun hmem => hdone (hdates _ hmem)
      simp [hdone, hnew]
  | ok result =>
    obtain ⟨done, db'⟩ := result
    obtain ⟨hcheck, -, -⟩ := schedule_process hp hrow
    simp [Fair, FairAnswer, not_outOfOccurrences, checkOccurrence_eq_ok.1 hcheck]

/-! ## Runs -/

/-- A call past the lock holds it, and the row it found is the row as it is now. -/
def Phase.Ok (sxGuid : String) (w : World) (holder : String → Option ℕ) (k : ℕ) : Phase → Prop
  | .locked _ (some row) => holder sxGuid = some k ∧ w.db.schedule? sxGuid = some row
  | .locked _ none => False
  | _ => True

structure Inv (sxGuid : String) (before : List ℤ) (row₀ : SchedXAction) (s : System) : Prop where
  sound : Sound (Phase.Ok sxGuid) s
  kept : Kept sxGuid before row₀ s.db

variable {s s' : System} {k : ℕ}

theorem Phase.Ok.of_locked {holder : String → Option ℕ} {found : Option SchedXAction}
    (h : Phase.Ok sxGuid w holder k (.locked call found)) :
    ∃ row, found = some row ∧ holder sxGuid = some k ∧ w.db.schedule? sxGuid = some row := by
  cases found with
  | none => exact h.elim
  | some row => exact ⟨row, rfl, h⟩

/-- A call that ends leaves the others what they rely on, when it writes nothing or holds the lock. -/
theorem sound_close (hs : Sound (Phase.Ok sxGuid) s) {w' : World}
    (hw : w' = s.db ∨ s.holder sxGuid = some k) :
    Sound (Phase.Ok sxGuid) (s.close k w' .idle) := by
  refine hs.close trivial fun j hjk hok => ?_
  cases hphase : s.phase j with
  | idle => trivial
  | called call => trivial
  | locked call found =>
    rw [hphase] at hok
    obtain ⟨row, rfl, hheld, hrow⟩ := hok.of_locked
    refine ⟨RowLocks.release_of_held hheld hjk, ?_⟩
    rcases hw with rfl | hk
    · exact hrow
    · exact absurd (Option.some.inj (hheld.symm.trans hk)) hjk

theorem inv_next {l : Step} (h : next host sxGuid l s = some s') (hs : Inv sxGuid before row₀ s) :
    Inv sxGuid before row₀ s' := by
  cases l with
  | call k call =>
    simp only [next, callNext] at h
    split at h
    · cases h
      exact ⟨hs.sound.goto trivial, hs.kept⟩
    · cases h
  | lock k =>
    simp only [next, lockNext] at h
    split at h
    · next call hphase =>
        obtain ⟨row, hrow, -⟩ := hs.kept.counts
        simp only [hrow] at h
        split at h
        · next hfree =>
            cases h
            refine ⟨Sound.goto (hs.sound.take fun j hok => ?_) ⟨RowLocks.acquire_self, hrow⟩, hs.kept⟩
            cases hj : s.phase j with
            | idle => trivial
            | called call => trivial
            | locked call found =>
              rw [hj] at hok
              obtain ⟨row', rfl, hheld, hrow'⟩ := hok.of_locked
              exact ⟨RowLocks.acquire_of_held hfree hheld, hrow'⟩
        · cases h
    · cases h
  | finish k =>
    simp only [next, finishNext] at h
    split at h
    · next call found hphase =>
        cases h
        have hok := hs.sound k
        rw [hphase] at hok
        obtain ⟨row, rfl, hheld, hrow⟩ := hok.of_locked
        exact ⟨sound_close hs.sound (.inr hheld), (kept_answered hs.kept hrow).1⟩
    · cases h
  | abort k =>
    cases h
    exact ⟨sound_close hs.sound (.inl rfl), hs.kept⟩

theorem fair_next {l : Step} (h : next host sxGuid l s = some s') (hs : Inv sxGuid before row₀ s) :
    Fair s'.db.db.recurrences before s'.db.answers ↔
      Fair s.db.db.recurrences before s.db.answers ∧ InTurn before l s := by
  cases l with
  | call k call =>
    simp only [next, callNext] at h
    split at h <;> cases h
    simp [InTurn]
  | lock k =>
    simp only [next, lockNext] at h
    split at h
    · split at h
      · cases h
        simp [InTurn]
      · split at h <;> cases h
        simp [InTurn]
    · cases h
  | finish k =>
    simp only [next, finishNext] at h
    split at h
    · next call found hphase =>
        cases h
        have hok := hs.sound k
        rw [hphase] at hok
        obtain ⟨row, rfl, -, hrow⟩ := hok.of_locked
        rw [Sys.close_db, fair_answered hs.kept hrow]
        simp [InTurn, hphase]
    · cases h
  | abort k =>
    cases h
    simp [InTurn]

/-- In a run, the invariant holds at the end, and the answers are fair exactly when every call is in
turn. -/
theorem fair_run {db : Db} (hrow : db.schedule? sxGuid = some row₀) (honce : before.Nodup)
    (hbefore : ∀ d ∈ before, alreadyProcessed row₀.lastOccur d = true) {steps : List Step}
    (hrun : run (next host sxGuid) steps (start db) = some s) :
    Inv sxGuid before row₀ s ∧
      (Fair s.db.db.recurrences before s.db.answers ↔
        Along (next host sxGuid) (InTurn before) steps (start db)) := by
  have hstart : Inv sxGuid before row₀ (start db) :=
    ⟨fun _ => trivial, honce, row₀, hrow,
      ⟨by simp [start], fun h => by simp [start, h], id⟩, hbefore⟩
  refine ⟨invariant (fun _ _ _ h => inv_next h) hrun hstart, ?_⟩
  rw [holds_iff_along (fun _ _ _ h => inv_next h) (fun _ _ _ h hs => fair_next h hs) hrun hstart]
  exact and_iff_right trivial

/-- In every interleaving of calls on a schedule, every occurrence is processed at most once, the
counts are right and every answer is fair exactly when every call is in turn. -/
theorem once_iff {db : Db} (hrow : db.schedule? sxGuid = some row₀) (honce : before.Nodup)
    (hbefore : ∀ d ∈ before, alreadyProcessed row₀.lastOccur d = true) {steps : List Step}
    (hrun : run (next host sxGuid) steps (start db) = some s) :
    Once sxGuid before row₀ s.db ↔ Along (next host sxGuid) (InTurn before) steps (start db) := by
  obtain ⟨hinv, hfair⟩ := fair_run hrow honce hbefore hrun
  obtain ⟨row, hrow', hcounts, -⟩ := hinv.kept.counts
  constructor
  · exact fun h => hfair.1 h.fair
  · exact fun h => ⟨hinv.kept.once, ⟨row, hrow', hcounts⟩, hfair.2 h⟩

/-! ## A schedule from an imported book -/

def plainHost : Host where
  generateGuid n := String.ofList ('g' :: Text.natDigits n)
  now := 0

/-- A monthly rent with a template in the app layout, last processed on day 31. -/
def rent (remOccur : ℤ) : SchedXAction :=
  ⟨"sx", "Rent", 1, none, some (noon 31), remOccur, 1, "template"⟩

def rentBook (remOccur : ℤ) : Db where
  accounts := [⟨"root", "Root", .root, some "usd", 100, none⟩,
    ⟨"from", "From", .bank, some "usd", 100, some "template"⟩,
    ⟨"to", "To", .bank, some "usd", 100, some "template"⟩]
  bookRoots := ["root"]
  transactions := []
  splits := [⟨"s1", "t", "from", "", "", .n, none, ⟨-90000, 100⟩, ⟨-90000, 100⟩, none⟩,
    ⟨"s2", "t", "to", "", "", .n, none, ⟨90000, 100⟩, ⟨90000, 100⟩, none⟩]
  slots := [⟨"from", "account", 4, some "bank", none, none⟩,
    ⟨"to", "account", 4, some "housing", none, none⟩]
  schedxactions := [rent remOccur]
  recurrences := [⟨"sx", 1, .month, some 0, .none⟩]
  drawn := 0

def oneByOne (calls : List Call) : List Step :=
  calls.zipIdx.flatMap fun (call, k) => [.call k call, .lock k, .finish k]

def inOrder : List Step := oneByOne [⟨.execute, 59⟩, ⟨.skip, 90⟩, ⟨.execute, 59⟩]

theorem once_rent :
    ∃ s, run (next plainHost "sx") inOrder (start (rentBook (-1))) = some s ∧
      Once "sx" [31] (rent (-1)) s.db := by
  have hrun : (run (next plainHost "sx") inOrder (start (rentBook (-1)))).isSome = true := by
    decide +kernel
  obtain ⟨s, hs⟩ := Option.isSome_iff_exists.1 hrun
  have hturn : Along (next plainHost "sx") (InTurn [31]) inOrder (start (rentBook (-1))) := by
    decide +kernel
  exact ⟨s, hs, (once_iff rfl (by simp) (by decide) hs).2 hturn⟩

theorem not_once_of_not_along {db : Db} {steps : List Step} (hrow : db.schedule? sxGuid = some row₀)
    (honce : before.Nodup) (hbefore : ∀ d ∈ before, alreadyProcessed row₀.lastOccur d = true)
    (hrun : (run (next host sxGuid) steps (start db)).isSome = true)
    (hturn : ¬Along (next host sxGuid) (InTurn before) steps (start db)) :
    ∃ s, run (next host sxGuid) steps (start db) = some s ∧ ¬Once sxGuid before row₀ s.db := by
  obtain ⟨s, hs⟩ := Option.isSome_iff_exists.1 hrun
  exact ⟨s, hs, fun h => hturn ((fair_run hrow honce hbefore hs).2.1 h.fair)⟩

/-- An imported schedule that counts no occurrences is refused as exhausted, and a date before the
last one is refused as executed though it never was. -/
theorem once_rent_false :
    (∃ s, run (next plainHost "sx") (oneByOne [⟨.execute, 59⟩]) (start (rentBook 0)) = some s ∧
        ¬Once "sx" [31] (rent 0) s.db) ∧
      ∃ s, run (next plainHost "sx") (oneByOne [⟨.execute, 90⟩, ⟨.execute, 59⟩])
          (start (rentBook (-1))) = some s ∧ ¬Once "sx" [31] (rent (-1)) s.db :=
  ⟨not_once_of_not_along rfl (by simp) (by decide) (by decide +kernel) (by decide +kernel),
    not_once_of_not_along rfl (by simp) (by decide) (by decide +kernel) (by decide +kernel)⟩

end Schedule
