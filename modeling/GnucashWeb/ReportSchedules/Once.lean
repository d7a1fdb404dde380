import Mathlib
import GnucashWeb.Lib.Runs
import GnucashWeb.Lib.Sessions
import GnucashWeb.Lib.Text
import GnucashWeb.ReportSchedules.Cadence

/-!
# Report schedules that run once

The runs of report schedules as database steps of clients side by side, and how often a schedule is run.
-/

/-!
## Runs of a report schedule

The runs of one schedule that are not forced, step by step: read the schedule, prepare the report, send
the email, stamp the occurrence; and the edits of the schedule meanwhile.  What other tables and the
mail server answer comes with a step.  The report itself is left out.  Beside the schedule stands a
history of what was sent and stamped.
-/

namespace ReportSchedules

open Sessions

/-! ## State -/

/-- A row of `gnucash_web_report_schedules`.  Days are counted; the cadence is given apart. -/
structure ReportSchedule where
  savedReportId : Option ℕ
  baseReportType : Option (List Char)
  anchorDay : ℤ
  recipients : List Char
  enabled : Bool
  lastRunAt : Option ℤ
  lastRunPeriod : Option ℤ
deriving DecidableEq

inductive Event
  | sent (occurrence : ℤ) (recipients : List (List Char))
  | stamped (occurrence : ℤ)
deriving DecidableEq

/-- The schedule and the history, the last event first. -/
structure Db where
  schedule : ReportSchedule
  history : List Event

inductive Phase
  | idle
  | reading (now : ℤ)
  | preparing (schedule : ReportSchedule) (now occurrence : ℤ)
  | sending (now occurrence : ℤ) (recipients : List (List Char))
  | stamping (now occurrence : ℤ)
deriving DecidableEq

abbrev State := Sys Db Empty Phase

/-- A schedule that is created, and no run. -/
def start (schedule : ReportSchedule) : State :=
  ⟨⟨{ schedule with lastRunAt := none, lastRunPeriod := none }, []⟩, Empty.elim, fun _ => .idle⟩

/-! ## Runs -/

def SCHEDULABLE_REPORT_TYPES : List (List Char) :=
  ["balance_sheet".toList, "income_statement".toList, "cash_flow".toList, "budget_report".toList,
    "net_worth_chart".toList, "trial_balance".toList]

structure Answer where
  /-- The base type of the saved report, if that is found. -/
  saved : Option (List Char)
  emailConfigured : Bool
  userEmail : Option (List Char)
  /-- Whether the report is generated without an error. -/
  generated : Bool
  sent : Bool

/-- Whether a schedule's occurrence on a day has not been run. -/
def isScheduleDue (cadence : ScheduleCadence) (schedule : ReportSchedule) (now : ℤ) : Bool :=
  schedule.enabled && some (currentOccurrence cadence schedule.anchorDay now) ≠
    schedule.lastRunPeriod

/-- The type of the report: a saved report comes before a base type. -/
def reportTypeOf (a : Answer) (schedule : ReportSchedule) : Option (List Char) :=
  match schedule.savedReportId with
  | some _ => a.saved
  | none => schedule.baseReportType

def isSchedulableReportType (type : Option (List Char)) : Bool :=
  type.any fun t => t ∈ SCHEDULABLE_REPORT_TYPES

def resolveRecipients (a : Answer) (schedule : ReportSchedule) : List (List Char) :=
  let explicit := ((Text.split ',' schedule.recipients).map Text.trim).filter fun r => r ≠ []
  if explicit ≠ [] then explicit else (a.userEmail.filter fun email => email ≠ []).toList

inductive Step
  | run (k : ℕ) (now : ℤ)
  | advance (k : ℕ) (a : Answer)
  | edit (savedReportId : Option ℕ) (baseReportType : Option (List Char)) (anchorDay : ℤ)
    (recipients : List Char) (enabled : Bool)
  /-- A run ends early, but not between sending and stamping. -/
  | crash (k : ℕ)

section Next

variable (cadence : ScheduleCadence)

def prepare (a : Answer) (schedule : ReportSchedule) (now occurrence : ℤ) : Phase :=
  let recipients := resolveRecipients a schedule
  if isSchedulableReportType (reportTypeOf a schedule) && a.emailConfigured && recipients ≠ [] &&
      a.generated then .sending now occurrence recipients
  else .idle

def stampLastRun (schedule : ReportSchedule) (runAt occurrence : ℤ) : ReportSchedule :=
  { schedule with lastRunAt := some runAt, lastRunPeriod := some occurrence }

def updateReportSchedule (savedReportId : Option ℕ) (baseReportType : Option (List Char))
    (anchorDay : ℤ) (recipients : List Char) (enabled : Bool) (schedule : ReportSchedule) :
    ReportSchedule :=
  { schedule with
    savedReportId
    baseReportType
    anchorDay := clampAnchorDay cadence anchorDay
    recipients
    enabled }

def advanceNext (k : ℕ) (a : Answer) (s : State) : Option State :=
  match s.phase k with
  | .idle => none
  | .reading now =>
    let schedule := s.db.schedule
    if isScheduleDue cadence schedule now then
      some (s.goto k
        (.preparing schedule now (currentOccurrence cadence schedule.anchorDay now)))
    else some (s.goto k .idle)
  | .preparing schedule now occurrence => some (s.goto k (prepare a schedule now occurrence))
  | .sending now occurrence recipients =>
    if a.sent then
      some (s.close k { s.db with history := .sent occurrence recipients :: s.db.history }
        (.stamping now occurrence))
    else some (s.goto k .idle)
  | .stamping now occurrence =>
    some (s.close k
      ⟨stampLastRun s.db.schedule now occurrence, .stamped occurrence :: s.db.history⟩ .idle)

def next : Step → State → Option State
  | .run k now, s =>
    match s.phase k with
    | .idle => some (s.goto k (.reading now))
    | _ => none
  | .advance k a, s => advanceNext cadence k a s
  | .edit savedReportId baseReportType anchorDay recipients enabled, s =>
    some { s with db := { s.db with
      schedule := updateReportSchedule cadence savedReportId baseReportType anchorDay recipients
        enabled s.db.schedule } }
  | .crash k, s =>
    match s.phase k with
    | .stamping _ _ => none
    | _ => some (s.goto k .idle)

end Next

end ReportSchedules

/-!
## A report is sent once for each occurrence

Along every run in which an email is sent only while no other run has sent and not yet stamped, and for
a period after that of the last stamped occurrence, each reporting period is emailed once.  Always,
what is marked as run was sent, and the periods of consecutive occurrences follow each other
(`sentOnce_of_run`).  Two runs that read a schedule at the same time both send (`twoRuns_not_once`).
-/

namespace ReportSchedules

open Runs Sessions

/-! ## What is asked of the history -/

def Event.sent? : Event → Option ℤ
  | .sent occurrence _ => some occurrence
  | .stamped _ => none

def sent (history : List Event) : List ℤ := history.filterMap Event.sent?

def Once (cadence : ScheduleCadence) (db : Db) : Prop :=
  ((sent db.history).map (reportPeriodFor cadence)).Nodup

instance (cadence : ScheduleCadence) (db : Db) : Decidable (Once cadence db) :=
  inferInstanceAs (Decidable (List.Nodup _))

structure Marked (db : Db) : Prop where
  stamped : ∀ occurrence, .stamped occurrence ∈ db.history → occurrence ∈ sent db.history
  lastRunPeriod : ∀ occurrence ∈ db.schedule.lastRunPeriod, occurrence ∈ sent db.history

variable (cadence : ScheduleCadence)

/-- An email is sent after the last one was stamped, for a later period than that. -/
def Unraced : Step → State → Prop
  | .advance k a, s =>
    match s.phase k with
    | .sending _ occurrence _ => a.sent = true →
        (∀ j now other, s.phase j ≠ .stamping now other) ∧
          ∀ last ∈ s.db.schedule.lastRunPeriod,
            (reportPeriodFor cadence last).startDate <
              (reportPeriodFor cadence occurrence).startDate
    | _ => True
  | _, _ => True

structure MarkInv (s : State) : Prop where
  marked : Marked s.db
  stamping : ∀ k now occurrence, s.phase k = .stamping now occurrence →
    occurrence ∈ sent s.db.history

variable {s : State} {k : ℕ} {l : Step}

theorem MarkInv.goto (hs : MarkInv s) {p : Phase}
    (hp : ∀ now occurrence, p ≠ .stamping now occurrence) : MarkInv (s.goto k p) := by
  refine ⟨hs.marked, fun j now occurrence hj => ?_⟩
  by_cases hjk : j = k
  · subst hjk
    rw [Sys.goto_phase_self] at hj
    exact absurd hj (hp now occurrence)
  · rw [Sys.goto_phase_of_ne hjk] at hj
    exact hs.stamping j now occurrence hj

theorem prepare_ne_stamping (a : Answer) (schedule : ReportSchedule) (now occurrence n o : ℤ) :
    prepare a schedule now occurrence ≠ .stamping n o := by
  simp only [prepare]
  split <;> exact Phase.noConfusion

theorem markInv_next {s' : State} (hnext : next cadence l s = some s')
    (hs : MarkInv s) : MarkInv s' := by
  cases l with
  | run k now =>
    simp only [next] at hnext
    split at hnext
    · cases hnext
      exact hs.goto fun _ _ h => nomatch h
    · cases hnext
  | edit savedReportId baseReportType anchorDay recipients enabled =>
    cases hnext
    exact ⟨⟨hs.marked.stamped, hs.marked.lastRunPeriod⟩, hs.stamping⟩
  | crash k =>
    simp only [next] at hnext
    split at hnext
    · cases hnext
    · cases hnext
      exact hs.goto fun _ _ h => nomatch h
  | advance k a =>
    simp only [next, advanceNext] at hnext
    cases hphase : s.phase k with
    | idle => simp [hphase] at hnext
    | reading now =>
      rw [hphase] at hnext
      simp only at hnext
      split at hnext <;> cases hnext <;> exact hs.goto fun _ _ h => nomatch h
    | preparing schedule now occurrence =>
      rw [hphase] at hnext
      cases hnext
      exact hs.goto (prepare_ne_stamping a schedule now occurrence)
    | sending now occurrence recipients =>
      rw [hphase] at hnext
      simp only at hnext
      split at hnext
      · cases hnext
        refine ⟨⟨fun o ho => ?_, fun o ho => ?_⟩, fun j n o hj => ?_⟩
        · have hold := (List.mem_cons.1 ho).resolve_left (by simp)
          exact List.mem_cons_of_mem _ (hs.marked.stamped o hold)
        · exact List.mem_cons_of_mem _ (hs.marked.lastRunPeriod o ho)
        · by_cases hjk : j = k
          · subst hjk
            rw [Sys.close_phase_self] at hj
            cases hj
            exact List.mem_cons_self
          · rw [Sys.close_phase_of_ne hjk] at hj
            exact List.mem_cons_of_mem _ (hs.stamping j n o hj)
      · cases hnext
        exact hs.goto fun _ _ h => nomatch h
    | stamping now occurrence =>
      rw [hphase] at hnext
      cases hnext
      have hsent := hs.stamping k now occurrence hphase
      refine ⟨⟨fun o ho => ?_, fun o ho => ?_⟩, fun j n o hj => ?_⟩
      · rcases List.mem_cons.1 ho with heq | ho
        · cases heq
          exact hsent
        · exact hs.marked.stamped o ho
      · cases ho
        exact hsent
      · by_cases hjk : j = k
        · subst hjk
          rw [Sys.close_phase_self] at hj
          cases hj
        · rw [Sys.close_phase_of_ne hjk] at hj
          exact hs.stamping j n o hj

/-! ## One email for a period -/

/-- Periods are emailed in order, and what was sent last is stamped or about to be. -/
structure Inv (s : State) : Prop where
  ordered : ((sent s.db.history).map fun o => (reportPeriodFor cadence o).startDate).Pairwise (· > ·)
  single : ∀ j k now now' o o', s.phase j = .stamping now o → s.phase k = .stamping now' o' → j = k
  stamping : ∀ k now o, s.phase k = .stamping now o →
    (sent s.db.history).head? = some o ∧ s.db.schedule.lastRunPeriod ≠ some o
  stamped : (∀ k now o, s.phase k ≠ .stamping now o) →
    (sent s.db.history).head? = s.db.schedule.lastRunPeriod

variable {cadence}

theorem Inv.once (hs : Inv cadence s) : Once cadence s.db := by
  have hstarts : ((sent s.db.history).map (reportPeriodFor cadence)).Pairwise
      fun p q => p.startDate > q.startDate := by
    rw [List.pairwise_map]
    exact List.pairwise_map.1 hs.ordered
  refine hstarts.imp fun h heq => ?_
  rw [heq] at h
  exact Int.lt_irrefl _ h

theorem Inv.goto (hs : Inv cadence s) {p : Phase}
    (hk : ∀ now o, s.phase k ≠ .stamping now o) (hp : ∀ now o, p ≠ .stamping now o) :
    Inv cadence (s.goto k p) := by
  have hphase (j : ℕ) (now o : ℤ) :
      (s.goto k p).phase j = .stamping now o ↔ s.phase j = .stamping now o := by
    by_cases hjk : j = k
    · subst hjk
      rw [Sys.goto_phase_self]
      exact iff_of_false (hp now o) (hk now o)
    · rw [Sys.goto_phase_of_ne hjk]
  refine ⟨hs.ordered, fun i j now now' o o' hi hj => ?_, fun j now o hj => ?_, fun hnone => ?_⟩
  · exact hs.single i j now now' o o' ((hphase i now o).1 hi) ((hphase j now' o').1 hj)
  · exact hs.stamping j now o ((hphase j now o).1 hj)
  · exact hs.stamped fun j now o hj => hnone j now o ((hphase j now o).2 hj)

theorem inv_send (hs : Inv cadence s) {now occurrence : ℤ}
    {recipients : List (List Char)} (hnone : ∀ j now other, s.phase j ≠ .stamping now other)
    (hlast : ∀ last ∈ s.db.schedule.lastRunPeriod, (reportPeriodFor cadence last).startDate <
      (reportPeriodFor cadence occurrence).startDate) :
    Inv cadence (s.close k { s.db with history := .sent occurrence recipients :: s.db.history }
      (.stamping now occurrence)) := by
  have hself (j : ℕ) (n o : ℤ) (hj : (Function.update s.phase k (.stamping now occurrence)) j =
      .stamping n o) : j = k ∧ o = occurrence := by
    by_cases hjk : j = k
    · subst hjk
      rw [Function.update_self] at hj
      cases hj
      exact ⟨rfl, rfl⟩
    · rw [Function.update_of_ne hjk] at hj
      exact absurd hj (hnone j n o)
  have hhead := hs.stamped hnone
  refine ⟨List.pairwise_cons.2 ⟨fun d hd => ?_, hs.ordered⟩, fun i j n n' o o' hi hj => ?_,
    fun j n o hj => ?_, fun hnone' => ?_⟩
  · obtain ⟨o, ho, rfl⟩ := List.mem_map.1 hd
    change o ∈ sent s.db.history at ho
    cases hsent : sent s.db.history with
    | nil => rw [hsent] at ho; cases ho
    | cons last rest =>
      rw [hsent, List.head?_cons] at hhead
      have hlt := hlast last hhead.symm
      have hordered := hs.ordered
      rw [hsent] at ho hordered
      rcases List.mem_cons.1 ho with rfl | ho
      · exact hlt
      · have hold := (List.pairwise_cons.1 hordered).1 _ (List.mem_map_of_mem ho)
        exact Int.lt_trans hold hlt
  · exact (hself i n o hi).1.trans (hself j n' o' hj).1.symm
  · obtain ⟨-, rfl⟩ := hself j n o hj
    refine ⟨rfl, fun heq => ?_⟩
    exact absurd (hlast o heq) (Int.lt_irrefl _)
  · exact absurd Sys.close_phase_self (hnone' k now occurrence)

theorem inv_stamp (hs : Inv cadence s) {now occurrence : ℤ}
    (hk : s.phase k = .stamping now occurrence) :
    Inv cadence (s.close k
      ⟨stampLastRun s.db.schedule now occurrence, .stamped occurrence :: s.db.history⟩ .idle) := by
  have hnone (j : ℕ) (n o : ℤ) :
      Function.update s.phase k .idle j ≠ .stamping n o := by
    intro hj
    by_cases hjk : j = k
    · subst hjk
      rw [Function.update_self] at hj
      cases hj
    · rw [Function.update_of_ne hjk] at hj
      exact hjk (hs.single j k n now o occurrence hj hk)
  refine ⟨hs.ordered, fun i j n n' o o' hi _ => absurd hi (hnone i n o),
    fun j n o hj => absurd hj (hnone j n o), fun _ => ?_⟩
  exact (hs.stamping k now occurrence hk).1

theorem inv_next {s' : State} (hl : Unraced cadence l s)
    (hnext : next cadence l s = some s') (hs : Inv cadence s) : Inv cadence s' := by
  cases l with
  | run k now =>
    simp only [next] at hnext
    split at hnext
    · next hidle =>
        cases hnext
        exact hs.goto (by simp [hidle]) (by simp)
    · cases hnext
  | edit savedReportId baseReportType anchorDay recipients enabled =>
    cases hnext
    exact ⟨hs.ordered, hs.single, hs.stamping, hs.stamped⟩
  | crash k =>
    simp only [next] at hnext
    split at hnext
    · cases hnext
    · next hnot =>
        cases hnext
        exact hs.goto (fun now o h => hnot now o h) (by simp)
  | advance k a =>
    simp only [next, advanceNext] at hnext
    simp only [Unraced] at hl
    cases hphase : s.phase k with
    | idle => simp [hphase] at hnext
    | reading now =>
      rw [hphase] at hnext
      simp only at hnext
      split at hnext <;> cases hnext <;> exact hs.goto (by simp [hphase]) (by simp)
    | preparing schedule now occurrence =>
      rw [hphase] at hnext
      cases hnext
      exact hs.goto (by simp [hphase]) (prepare_ne_stamping a schedule now occurrence)
    | sending now occurrence recipients =>
      rw [hphase] at hnext hl
      simp only at hnext hl
      split at hnext
      · next hsent =>
          cases hnext
          exact inv_send hs (hl hsent).1 (hl hsent).2
      · cases hnext
        exact hs.goto (by simp [hphase]) (by simp)
    | stamping now occurrence =>
      rw [hphase] at hnext
      cases hnext
      exact inv_stamp hs hphase

theorem inv_start (schedule : ReportSchedule) : Inv cadence (start schedule) :=
  ⟨List.Pairwise.nil, by simp [start], by simp [start], fun _ => rfl⟩

theorem markInv_start (schedule : ReportSchedule) : MarkInv (start schedule) :=
  ⟨⟨by simp [start], by simp [start]⟩, by simp [start]⟩

variable (cadence)

/-- Reports are sent once along a run without races; always, only what was sent is marked as run, and
periods follow each other. -/
theorem sentOnce_of_run (schedule : ReportSchedule) :
    (∀ (steps : List Step) (s : State), run (next cadence) steps (start schedule) = some s →
      Along (next cadence) (Unraced cadence) steps (start schedule) → Once cadence s.db) ∧
    (∀ (steps : List Step) (s : State), run (next cadence) steps (start schedule) = some s →
      Marked s.db) ∧
    ∀ anchorDay today : ℤ,
      currentOccurrence cadence anchorDay (today + 1) =
          currentOccurrence cadence anchorDay today ∨
        (reportPeriodFor cadence (currentOccurrence cadence anchorDay (today + 1))).startDate =
          (reportPeriodFor cadence (currentOccurrence cadence anchorDay today)).endDate + 1 := by
  refine ⟨fun steps s hrun h => ?_, fun steps s hrun => ?_, periods_follow cadence⟩
  · have hs : Inv cadence s := invariant_along
      (fun l s s' hl hnext => inv_next hl hnext) hrun h (inv_start schedule)
    exact hs.once
  · have hs : MarkInv s := invariant
      (fun l s s' hnext => markInv_next cadence hnext) hrun (markInv_start schedule)
    exact hs.marked

/-! ## Two runs -/

/-- An email is sent after what was sent last was stamped, for a later period than that. -/
def Apart : Step → State → Prop
  | .advance k a, s =>
    match s.phase k with
    | .sending _ occurrence _ => a.sent = true →
        (sent s.db.history).head? = s.db.schedule.lastRunPeriod ∧
          ∀ last ∈ s.db.schedule.lastRunPeriod,
            (reportPeriodFor cadence last).startDate <
              (reportPeriodFor cadence occurrence).startDate
    | _ => True
  | _, _ => True

instance (l : Step) (s : State) : Decidable (Apart cadence l s) := by
  cases l with
  | advance =>
    unfold Apart
    simp only
    split <;> infer_instance
  | _ => exact isTrue trivial

theorem unraced_of_apart (hs : Inv cadence s) (h : Apart cadence l s) :
    Unraced cadence l s := by
  cases l with
  | advance k a =>
    simp only [Apart, Unraced] at h ⊢
    split at h
    · intro hsent
      obtain ⟨hhead, hlast⟩ := h hsent
      refine ⟨fun j now other hj => ?_, hlast⟩
      obtain ⟨hother, hne⟩ := hs.stamping j now other hj
      exact hne (hhead.symm.trans hother)
    · trivial
  | _ => trivial

def balanceSheet : ReportSchedule :=
  ⟨none, some "balance_sheet".toList, 5, [], true, none, none⟩

def fine : Answer := ⟨none, true, some "a@b".toList, true, true⟩

def refused : Answer := { fine with sent := false }

/-- Runs in two months, with a failure and a crash before the second one and an edit. -/
def twoMonths : List Step :=
  [.run 0 100, .advance 0 fine, .advance 0 fine, .advance 0 fine, .advance 0 fine,
    .run 1 101, .advance 1 fine, .edit none (some "cash_flow".toList) 6 [] true,
    .run 0 135, .advance 0 fine, .advance 0 fine, .advance 0 refused, .run 0 136, .crash 0,
    .run 0 136, .advance 0 fine, .advance 0 fine, .advance 0 fine, .advance 0 fine]

theorem once_twoMonths : ∃ s, run (next .monthly) twoMonths (start balanceSheet) = some s ∧
    Once .monthly s.db := by
  have hsome : (run (next .monthly) twoMonths (start balanceSheet)).isSome := by decide +kernel
  obtain ⟨s, hs⟩ := Option.isSome_iff_exists.1 hsome
  have hapart : Along (next .monthly) (Apart .monthly) twoMonths (start balanceSheet) := by
    decide +kernel
  have hunraced : Along (next .monthly) (Unraced .monthly) twoMonths (start balanceSheet) :=
    along_imp
      (fun l s s' hl hnext hs => inv_next (unraced_of_apart .monthly hs hl) hnext hs)
      (fun l s hs hl => unraced_of_apart .monthly hs hl) (inv_start balanceSheet) hapart
  exact ⟨s, hs, (sentOnce_of_run .monthly balanceSheet).1 twoMonths s hs hunraced⟩

/-- Two runs on a day that read the schedule before either stamps it. -/
def twoRuns : List Step :=
  [.run 0 100, .run 1 100, .advance 0 fine, .advance 1 fine, .advance 0 fine, .advance 1 fine,
    .advance 0 fine, .advance 1 fine]

theorem twoRuns_not_once :
    ¬ ∀ (steps : List Step) (s : State),
      run (next .monthly) steps (start balanceSheet) = some s → Once .monthly s.db := by
  intro h
  have hsent : (run (next .monthly) twoRuns (start balanceSheet)).map
      (fun s => decide (Once .monthly s.db)) = some false := by
    decide +kernel
  obtain ⟨s, hs, hnot⟩ := Option.map_eq_some_iff.1 hsent
  exact of_decide_eq_false hnot (h twoRuns s hs)

end ReportSchedules
