import GnucashWeb.Depreciation.Schedule
import GnucashWeb.Lib.Runs
import GnucashWeb.Lib.Sessions
import Mathlib.Algebra.Order.BigOperators.Group.List
import Mathlib.Data.List.Forall2

/-!
# Depreciation that is posted once

The processing of depreciation schedules as database steps, and how often a month is posted.
-/

/-!
## Processing a depreciation schedule

`processDepreciationSchedule`, commit by commit: the schedule row is read, each pending entry is
posted as a transaction of its own, and then the date of the last one is written to the row.  Prices
are stored in cents.  The period lock and the account's currency are looked up elsewhere; where they
refuse a posting, the call fails.
-/

open Ledger Civil Sessions

namespace Depreciation

/-- A row of `gnucash_web_depreciation_schedules`. -/
structure Schedule where
  id : ℕ
  accountGuid : String
  contraAccountGuid : String
  /-- In cents. -/
  purchasePrice : ℤ
  purchaseDate : ℤ
  usefulLifeYears : ℤ
  /-- In cents. -/
  salvageValue : ℤ
  method : Method
  declineRate : Option ℚ
  frequency : Frequency
  isAppreciation : Bool
  lastTransactionDate : Option ℤ
  enabled : Bool
deriving DecidableEq, Repr

def Schedule.config (s : Schedule) : DepreciationConfig :=
  ⟨s.purchasePrice / 100, s.purchaseDate, s.salvageValue / 100, s.usefulLifeYears, s.method,
    s.declineRate, s.frequency, s.isAppreciation⟩

def Schedule.lastTxDate (s : Schedule) : ℤ := s.lastTransactionDate.getD s.purchaseDate

inductive ValuationType
  | depreciation | appreciation
deriving DecidableEq, Repr

def Schedule.type (s : Schedule) : ValuationType :=
  if s.isAppreciation then .appreciation else .depreciation

def ValuationType.name : ValuationType → String
  | .depreciation => "depreciation"
  | .appreciation => "appreciation"

def Method.name : Method → String
  | .straightLine => "straight-line"
  | .decliningBalance => "declining-balance"

/-- A valuation transaction with the values of its two splits in cents. -/
structure Valuation where
  date : ℤ
  description : String
  memo : String
  assetAccountGuid : String
  assetSplitValue : ℤ
  contraAccountGuid : String
  contraSplitValue : ℤ
deriving DecidableEq, Repr

structure CreateValuationTransactionParams where
  assetAccountGuid : String
  contraAccountGuid : String
  amount : ℚ
  type : ValuationType
  date : ℤ
  description : Option String
  memo : Option String

def createValuationTransaction (p : CreateValuationTransactionParams) : Except String Valuation :=
  if p.amount ≤ 0 then .error "Amount must be positive"
  else
    let valueNum := mathRound (p.amount * 100)
    let sign := match p.type with
      | .depreciation => -1
      | .appreciation => 1
    let defaultText := match p.type with
      | .depreciation => "Depreciation"
      | .appreciation => "Appreciation"
    .ok ⟨p.date, p.description.getD defaultText, p.memo.getD (defaultText ++ " entry"),
      p.assetAccountGuid, sign * valueNum, p.contraAccountGuid, -(sign * valueNum)⟩

def entryParams (s : Schedule) (entry : ScheduleEntry) : CreateValuationTransactionParams :=
  ⟨s.accountGuid, s.contraAccountGuid, entry.periodAmount, s.type, entry.date,
    some ("Scheduled " ++ s.type.name ++ ": " ++ s.method.name),
    some ("Auto-generated from schedule #" ++ toString s.id)⟩

/-- The entries after the last transaction date, up to a date. -/
def pendingEntries (s : Schedule) (endDate : ℤ) : List ScheduleEntry :=
  s.config.generateSchedule.filter fun entry => s.lastTxDate < entry.date ∧ entry.date ≤ endDate

/-! ## Calls -/

/-- The schedule row, the transactions posted for it, and the balance of the asset without them. -/
structure Db where
  schedule : Schedule
  posted : List Valuation
  otherBalance : ℚ
deriving DecidableEq

/-- `getAssetBalance`. -/
def Db.assetBalance (db : Db) : ℚ :=
  db.otherBalance + ((db.posted.map Valuation.assetSplitValue).sum : ℤ) / 100

inductive Outcome
  | returned (transactionsCreated : ℕ) (newBalance : ℚ)
  | thrown (message : String)
deriving DecidableEq

/-- How far a call has come; a posting call remembers how many transactions it found. -/
inductive Phase
  | idle
  | reading (endDate : ℤ)
  | posting (found transactionsCreated : ℕ) (pending : List ScheduleEntry) (latestDate : Option ℤ)
  | counting (transactionsCreated : ℕ)
  | done (outcome : Outcome)
deriving DecidableEq

abbrev State := Sys Db Empty Phase

inductive Step
  | call (k : ℕ) (endDate : ℤ)
  /-- The next read or commit of a call. -/
  | advance (k : ℕ)
  /-- A call dies, or what it does next fails. -/
  | crash (k : ℕ)
deriving DecidableEq

def afterRead (db : Db) (endDate : ℤ) : Phase :=
  if db.schedule.enabled then
    .posting db.posted.length 0 (pendingEntries db.schedule endDate) none
  else .done (.thrown "Depreciation schedule is disabled")

def advanceNext (k : ℕ) (s : State) : Option State :=
  match s.phase k with
  | .idle => none
  | .reading endDate => some (s.goto k (afterRead s.db endDate))
  | .posting found created (entry :: pending) _ =>
    match createValuationTransaction (entryParams s.db.schedule entry) with
    | .error message => some (s.goto k (.done (.thrown message)))
    | .ok valuation =>
      some (s.close k { s.db with posted := s.db.posted ++ [valuation] }
        (.posting found (created + 1) pending (some entry.date)))
  | .posting _ created [] (some latestDate) =>
    some (s.close k { s.db with schedule.lastTransactionDate := some latestDate }
      (.counting created))
  | .posting _ created [] none => some (s.goto k (.counting created))
  | .counting created => some (s.goto k (.done (.returned created s.db.assetBalance)))
  | .done _ => none

def next : Step → State → Option State
  | .call k endDate, s =>
    match s.phase k with
    | .idle => some (s.goto k (.reading endDate))
    | _ => none
  | .advance k, s => advanceNext k s
  | .crash k, s => some (s.goto k .idle)

/-- A schedule for which nothing is posted, and no call. -/
def start (schedule : Schedule) (otherBalance : ℚ) : State :=
  ⟨⟨{ schedule with lastTransactionDate := none }, [], otherBalance⟩, Empty.elim, fun _ => .idle⟩

end Depreciation

/-!
## Every entry is posted once

When no call reads the schedule while its last date is behind what is posted, and none posts after
another one did, the transactions are those of the first entries, each once.  For a plain schedule
they hold one entry for every period, do not go below the salvage value, and add up to the whole
(`postedOnce_of_run`).
-/

open Ledger Civil Sessions Runs

namespace Depreciation

def Posts (schedule : Schedule) (entry : ScheduleEntry) (t : Valuation) : Prop :=
  createValuationTransaction (entryParams schedule entry) = .ok t

/-- An entry lies in the so-many-th period after the month of the purchase. -/
def InPeriod (schedule : Schedule) (k : ℕ) (entry : ScheduleEntry) : Prop :=
  monthIndex schedule.purchaseDate + (k - 1) * monthsPerPeriod schedule.frequency <
      monthIndex entry.date ∧
    monthIndex entry.date ≤
      monthIndex schedule.purchaseDate + k * monthsPerPeriod schedule.frequency

def finalCumulative (schedule : Schedule) : ℚ :=
  (schedule.config.generateSchedule.getLast?.map ScheduleEntry.cumulativeAmount).getD 0

structure PostedOnce (schedule : Schedule) (posted : List Valuation) : Prop where
  /-- Every transaction posts an entry, and no two have one date. -/
  entries : ∀ t ∈ posted, ∃ e ∈ schedule.config.generateSchedule, Posts schedule e t
  once : (posted.map Valuation.date).Nodup
  periods : ∀ k, 1 ≤ k → k ≤ schedule.config.generateSchedule.length →
    ∃! i : ℕ, ∃ e, schedule.config.generateSchedule[i]? = some e ∧ InPeriod schedule k e
  salvage : schedule.salvageValue ≤
    schedule.purchasePrice + (posted.map Valuation.assetSplitValue).sum
  inFull : (∀ e ∈ schedule.config.generateSchedule, ∃ t ∈ posted, Posts schedule e t) →
    (posted.map fun t => |t.assetSplitValue|).sum = mathRound (finalCumulative schedule * 100)

/-! ## Postings -/

theorem exists_of_forall₂ {α β : Type} {R : α → β → Prop} {l : List α} {m : List β}
    (h : List.Forall₂ R l m) {b : β} (hb : b ∈ m) : ∃ a ∈ l, R a b := by
  induction h with
  | nil => exact absurd hb List.not_mem_nil
  | cons hr _ ih =>
    rcases List.mem_cons.1 hb with rfl | hb
    · exact ⟨_, List.mem_cons_self, hr⟩
    · obtain ⟨a, ha, hab⟩ := ih hb
      exact ⟨a, List.mem_cons_of_mem _ ha, hab⟩

theorem mathRound_nonneg {x : ℚ} (h : 0 ≤ x) : 0 ≤ mathRound (x * 100) :=
  Int.floor_nonneg.2 (by positivity)

variable {schedule : Schedule} {posted : List Valuation}

theorem posts_spec {e : ScheduleEntry} {t : Valuation} (h : Posts schedule e t) :
    0 < e.periodAmount ∧ t.date = e.date ∧
      t.assetSplitValue =
        (if schedule.isAppreciation then 1 else -1) * mathRound (e.periodAmount * 100) := by
  unfold Posts createValuationTransaction at h
  split at h
  · cases h
  · next hpos =>
      cases h
      refine ⟨not_le.1 hpos, rfl, ?_⟩
      simp only [entryParams, Schedule.type]
      cases schedule.isAppreciation <;> rfl

def PostsFirst (schedule : Schedule) (posted : List Valuation) : Prop :=
  List.Forall₂ (Posts schedule) (schedule.config.generateSchedule.take posted.length) posted

theorem PostsFirst.length_le (h : PostsFirst schedule posted) :
    posted.length ≤ schedule.config.generateSchedule.length := by
  have hlength := h.length_eq
  rw [List.length_take] at hlength
  omega

theorem PostsFirst.map_date (h : PostsFirst schedule posted) :
    posted.map Valuation.date =
      (schedule.config.generateSchedule.take posted.length).map ScheduleEntry.date := by
  rw [← List.forall₂_eq_eq_eq, List.forall₂_map_left_iff, List.forall₂_map_right_iff]
  exact h.flip.imp fun t e ht => (posts_spec ht).2.1

theorem PostsFirst.length_eq_of_all (h : PostsFirst schedule posted)
    (hall : ∀ e ∈ schedule.config.generateSchedule, ∃ t ∈ posted, Posts schedule e t) :
    posted.length = schedule.config.generateSchedule.length := by
  by_contra hne
  have hlt : posted.length < schedule.config.generateSchedule.length :=
    lt_of_le_of_ne h.length_le hne
  obtain ⟨t, ht, hposts⟩ := hall _ (List.getElem_mem hlt)
  have hdate : t.date ∈ (schedule.config.generateSchedule.take posted.length).map
      ScheduleEntry.date := h.map_date ▸ List.mem_map_of_mem ht
  obtain ⟨e, he, heq⟩ := List.mem_map.1 hdate
  have hsorted := (sorted_generateSchedule schedule.config).1
  rw [← List.take_append_drop posted.length schedule.config.generateSchedule] at hsorted
  have hbefore := (List.pairwise_append.1 hsorted).2.2 e he
    schedule.config.generateSchedule[posted.length] (by
      rw [List.drop_eq_getElem_cons hlt]
      exact List.mem_cons_self)
  rw [heq, (posts_spec hposts).2.1] at hbefore
  exact lt_irrefl _ hbefore

theorem sign_config :
    schedule.config.sign = ((if schedule.isAppreciation then 1 else -1 : ℤ) : ℚ) := by
  unfold DepreciationConfig.sign Schedule.config
  split <;> simp

variable {entries : List ScheduleEntry} {p : Phase}

theorem sums_of_posts (hentries : ∀ e ∈ entries, WholeCents e.periodAmount)
    (h : List.Forall₂ (Posts schedule) entries posted) :
    (((posted.map Valuation.assetSplitValue).sum : ℤ) : ℚ) =
        schedule.config.sign * ((entries.map ScheduleEntry.periodAmount).sum * 100) ∧
      (((posted.map fun t => |t.assetSplitValue|).sum : ℤ) : ℚ) =
        (entries.map ScheduleEntry.periodAmount).sum * 100 ∧
      0 ≤ (entries.map ScheduleEntry.periodAmount).sum := by
  induction h with
  | nil => simp
  | cons hposts _ ih =>
    obtain ⟨hamount, hentries⟩ := List.forall_mem_cons.1 hentries
    obtain ⟨hvalue, habs, hnonneg⟩ := ih hentries
    obtain ⟨hpos, -, hasset⟩ := posts_spec hposts
    have hcents := mathRound_nonneg hpos.le
    simp only [List.map_cons, List.sum_cons, Int.cast_add, hvalue, habs]
    refine ⟨?_, ?_, by linarith⟩
    · rw [hasset, Int.cast_mul, hamount, ← sign_config]
      ring
    · rw [hasset, abs_mul, abs_of_nonneg hcents]
      have hone : |if schedule.isAppreciation = true then (1 : ℤ) else -1| = 1 := by
        split <;> rfl
      rw [hone, one_mul, hamount]
      ring

theorem postedOnce_of_first (hplain : schedule.config.Plain)
    (hsalvage : schedule.salvageValue ≤ schedule.purchasePrice) (h : PostsFirst schedule posted) :
    PostedOnce schedule posted := by
  have hprice : WholeCents schedule.config.purchasePrice :=
    wholeCents_iff.2 ⟨schedule.purchasePrice, div_mul_cancel₀ _ (by norm_num)⟩
  have hsalvageCents : WholeCents schedule.config.salvageValue :=
    wholeCents_iff.2 ⟨schedule.salvageValue, div_mul_cancel₀ _ (by norm_num)⟩
  have hentry : ∀ {i : ℕ} {e : ScheduleEntry}, schedule.config.generateSchedule[i]? = some e →
      WholeCents e.periodAmount ∧ monthIndex e.date = monthIndex schedule.purchaseDate +
        (i + 1) * monthsPerPeriod schedule.frequency :=
    entry_of_plain hplain hprice hsalvageCents
  have hcents : ∀ e ∈ schedule.config.generateSchedule, WholeCents e.periodAmount := fun e he => by
    obtain ⟨i, hi⟩ := List.mem_iff_getElem?.1 he
    exact (hentry hi).1
  have hsorted := (sorted_generateSchedule schedule.config).1
  obtain ⟨hvalue, habs, hnonneg⟩ := sums_of_posts
    (fun e he => hcents e (List.mem_of_mem_take he)) h
  refine ⟨fun t ht => ?_, ?_, fun k hk hle => ?_, ?_, fun hall => ?_⟩
  · obtain ⟨e, he, hposts⟩ := exists_of_forall₂ h ht
    exact ⟨e, List.mem_of_mem_take he, hposts⟩
  · rw [h.map_date]
    exact List.pairwise_map.2 ((hsorted.sublist (List.take_sublist ..)).imp fun hlt => hlt.ne)
  · have hpos := monthsPerPeriod_pos schedule.frequency
    obtain ⟨i, rfl⟩ : ∃ i, k = i + 1 := ⟨k - 1, by omega⟩
    refine ⟨i, ⟨_, List.getElem?_eq_getElem hle, ?_⟩, ?_⟩
    · have hmonth := (hentry (List.getElem?_eq_getElem hle)).2
      unfold InPeriod
      rw [hmonth]
      push_cast
      constructor <;> linarith
    · rintro j ⟨e, he, hlower, hupper⟩
      rw [(hentry he).2] at hlower hupper
      have hlower' : ((i + 1 : ℕ) - 1 : ℤ) < j + 1 := lt_of_mul_lt_mul_right
        (a := monthsPerPeriod schedule.frequency) (by exact lt_of_add_lt_add_left hlower) hpos.le
      have hupper' : (j + 1 : ℤ) ≤ (i + 1 : ℕ) := le_of_mul_le_mul_right
        (a := monthsPerPeriod schedule.frequency) (by exact le_of_add_le_add_left hupper) hpos
      push_cast at hlower' hupper'
      omega
  · have hvalue' : ((schedule.purchasePrice + (posted.map Valuation.assetSplitValue).sum : ℤ) : ℚ) =
        schedule.config.purchasePrice * 100 + schedule.config.sign *
          (((schedule.config.generateSchedule.take posted.length).map
            ScheduleEntry.periodAmount).sum * 100) := by
      rw [Int.cast_add, hvalue]
      change _ = (schedule.purchasePrice : ℚ) / 100 * 100 + _
      rw [div_mul_cancel₀ _ (by norm_num)]
    have hle : schedule.config.salvageValue ≤ schedule.config.purchasePrice :=
      div_le_div_of_nonneg_right (by exact_mod_cast hsalvage) (by norm_num)
    have hgoal : ((schedule.salvageValue : ℤ) : ℚ) ≤
        ((schedule.purchasePrice + (posted.map Valuation.assetSplitValue).sum : ℤ) : ℚ) := by
      have hcast : (schedule.salvageValue : ℚ) = schedule.config.salvageValue * 100 :=
        (div_mul_cancel₀ _ (by norm_num)).symm
      rw [hvalue', hcast]
      cases happ : schedule.config.isAppreciation with
      | true =>
        rw [DepreciationConfig.sign, if_pos happ]
        linarith
      | false =>
        have hroom := sum_take_entriesFrom happ posted.length schedule.config.totalPeriods.toNat
          (advanceDate schedule.config.purchaseDate schedule.config.frequency) 0 hle
        rw [DepreciationConfig.sign, if_neg (by simp [happ])]
        change ((schedule.config.generateSchedule.take _).map _).sum ≤ _ at hroom
        linarith
    exact_mod_cast hgoal
  · rw [h.length_eq_of_all hall, List.take_length] at habs
    have hfinal : finalCumulative schedule =
        (schedule.config.generateSchedule.map ScheduleEntry.periodAmount).sum := by
      unfold finalCumulative
      cases hlast : schedule.config.generateSchedule.getLast? with
      | none => simp [List.getLast?_eq_none_iff.1 hlast]
      | some e =>
        have hsum := cumulative_entriesFrom _ _ _ _ e hlast
        rw [zero_add] at hsum
        exact hsum
    rw [hfinal, ← habs, mathRound_intCast]

/-! ## Runs -/

/-- A call reads the schedule when its last date is not behind what is posted, and posts when none
was posted by another since. -/
def Unraced : Step → State → Prop
  | .advance k, s =>
    match s.phase k with
    | .reading _ => ∀ t ∈ s.db.posted, t.date ≤ s.db.schedule.lastTxDate
    | .posting found created (_ :: _) _ => s.db.posted.length = found + created
    | _ => True
  | _, _ => True

instance (l : Step) (s : State) : Decidable (Unraced l s) := by
  unfold Unraced
  split
  · split <;> infer_instance
  · infer_instance

theorem filter_eq_take (h : entries.Pairwise fun e f => e.date < f.date) (endDate : ℤ) :
    ∃ r, (entries.filter fun e => e.date ≤ endDate) = entries.take r := by
  induction entries with
  | nil => exact ⟨0, rfl⟩
  | cons e rest ih =>
    obtain ⟨hfirst, hrest⟩ := List.pairwise_cons.1 h
    by_cases hle : e.date ≤ endDate
    · obtain ⟨r, hr⟩ := ih hrest
      exact ⟨r + 1, by rw [List.filter_cons_of_pos (by simpa using hle), hr, List.take_succ_cons]⟩
    · refine ⟨0, ?_⟩
      rw [List.take_zero, List.filter_eq_nil_iff]
      intro f hf
      rcases List.mem_cons.1 hf with rfl | hf
      · simpa using hle
      · have hlt := hfirst f hf
        simp
        omega

variable (schedule) in
/-- A call that posts goes on where it began, and remembers a date that is posted. -/
def PhaseOk (db : Db) : Phase → Prop
  | .posting found created pending latestDate =>
    found + created ≤ db.posted.length ∧
      (∃ r, pending = (schedule.config.generateSchedule.drop (found + created)).take r) ∧
        ∀ d, latestDate = some d → ∃ t ∈ db.posted, t.date = d
  | _ => True

variable (schedule) in
/-- The row but for its last date, the transactions and the calls, throughout a run. -/
structure Inv (s : State) : Prop where
  row : ∃ d, s.db.schedule = { schedule with lastTransactionDate := d }
  last : ∀ d, s.db.schedule.lastTransactionDate = some d → ∃ t ∈ s.db.posted, t.date = d
  first : PostsFirst schedule s.db.posted
  phases : ∀ k, PhaseOk schedule s.db (s.phase k)

variable {s s' : State} {k : ℕ}

theorem PhaseOk.mono {db db' : Db} (h : PhaseOk schedule db p)
    (hposted : ∃ more, db'.posted = db.posted ++ more) : PhaseOk schedule db' p := by
  obtain ⟨more, hmore⟩ := hposted
  unfold PhaseOk at h ⊢
  split
  · obtain ⟨hle, hpending, hlatest⟩ := h
    refine ⟨by rw [hmore, List.length_append]; omega, hpending, fun d hd => ?_⟩
    obtain ⟨t, ht, hdate⟩ := hlatest d hd
    exact ⟨t, hmore ▸ List.mem_append_left _ ht, hdate⟩
  · trivial

theorem Inv.goto (hs : Inv schedule s) (hp : PhaseOk schedule s.db p) :
    Inv schedule (s.goto k p) := by
  refine ⟨hs.row, hs.last, hs.first, fun j => ?_⟩
  by_cases hjk : j = k
  · subst hjk
    rwa [Sys.goto_phase_self]
  · rw [Sys.goto_phase_of_ne hjk]
    exact hs.phases j

theorem Inv.phases_close (hs : Inv schedule s) {db : Db}
    (hposted : ∃ more, db.posted = s.db.posted ++ more) (hp : PhaseOk schedule db p) (j : ℕ) :
    PhaseOk schedule db ((s.close k db p).phase j) := by
  by_cases hjk : j = k
  · subst hjk
    rwa [Sys.close_phase_self]
  · rw [Sys.close_phase_of_ne hjk]
    exact (hs.phases j).mono hposted

/-- What is pending when the last date is not behind what is posted comes right after it. -/
theorem Inv.pending_eq (hs : Inv schedule s)
    (hlast : ∀ t ∈ s.db.posted, t.date ≤ s.db.schedule.lastTxDate) (endDate : ℤ) :
    ∃ r, pendingEntries s.db.schedule endDate =
      (schedule.config.generateSchedule.drop s.db.posted.length).take r := by
  obtain ⟨hsorted, hafter⟩ := sorted_generateSchedule schedule.config
  obtain ⟨d, hrow⟩ := hs.row
  have hconfig : s.db.schedule.config = schedule.config := by rw [hrow]; rfl
  have hposted : ∀ e ∈ schedule.config.generateSchedule.take s.db.posted.length,
      e.date ≤ s.db.schedule.lastTxDate := by
    intro e he
    have hdate := List.mem_map_of_mem (f := ScheduleEntry.date) he
    rw [← hs.first.map_date] at hdate
    obtain ⟨t, ht, hdate⟩ := List.mem_map.1 hdate
    exact hdate ▸ hlast t ht
  rw [← List.take_append_drop s.db.posted.length schedule.config.generateSchedule] at hsorted
  obtain ⟨-, hdrop, hbetween⟩ := List.pairwise_append.1 hsorted
  have hnew : ∀ e ∈ schedule.config.generateSchedule.drop s.db.posted.length,
      s.db.schedule.lastTxDate < e.date := by
    intro e he
    cases hd : s.db.schedule.lastTransactionDate with
    | none =>
      have hpurchase : s.db.schedule.lastTxDate = schedule.purchaseDate := by
        rw [Schedule.lastTxDate, hd, hrow]
        rfl
      rw [hpurchase]
      exact hafter e (List.mem_of_mem_drop he)
    | some d =>
      obtain ⟨t, ht, hdate⟩ := hs.last d hd
      obtain ⟨f, hf, hposts⟩ := exists_of_forall₂ hs.first ht
      rw [Schedule.lastTxDate, hd, Option.getD_some, ← hdate, (posts_spec hposts).2.1]
      exact hbetween f hf e he
  obtain ⟨r, hr⟩ := filter_eq_take hdrop endDate
  refine ⟨r, ?_⟩
  rw [← hr, pendingEntries, hconfig,
    ← List.take_append_drop s.db.posted.length schedule.config.generateSchedule, List.filter_append,
    List.take_append_drop]
  rw [List.filter_eq_nil_iff.2 fun e he => by simp [(hposted e he).not_gt], List.nil_append]
  exact List.filter_congr fun e he => by simp [hnew e he]

theorem next_of_pending {pending : List ScheduleEntry} {entry : ScheduleEntry} {m r : ℕ}
    (h : entry :: pending = (entries.drop m).take r) :
    entries.take (m + 1) = entries.take m ++ [entry] ∧
      ∃ r', pending = (entries.drop (m + 1)).take r' := by
  have hlt : m < entries.length := by
    by_contra hge
    rw [List.drop_eq_nil_of_le (not_lt.1 hge), List.take_nil] at h
    cases h
  rw [List.drop_eq_getElem_cons hlt] at h
  cases r with
  | zero => cases h
  | succ r =>
    rw [List.take_succ_cons] at h
    obtain ⟨rfl, hpending⟩ := List.cons.inj h
    exact ⟨(List.take_concat_get' entries m hlt).symm, r, hpending⟩

theorem inv_next {l : Step} (hl : Unraced l s) (hnext : next l s = some s') (hs : Inv schedule s) :
    Inv schedule s' := by
  cases l with
  | call k endDate =>
    simp only [next] at hnext
    split at hnext
    · cases hnext
      exact hs.goto trivial
    · cases hnext
  | crash k =>
    cases hnext
    exact hs.goto trivial
  | advance k =>
    have hk := hs.phases k
    simp only [next, advanceNext] at hnext
    simp only [Unraced] at hl
    cases hphase : s.phase k with
    | idle => simp [hphase] at hnext
    | done outcome => simp [hphase] at hnext
    | reading endDate =>
      rw [hphase] at hnext hl
      cases hnext
      refine hs.goto ?_
      unfold afterRead
      split
      · exact ⟨le_rfl, hs.pending_eq hl endDate, fun _ h => by cases h⟩
      · trivial
    | counting created =>
      rw [hphase] at hnext
      cases hnext
      exact hs.goto trivial
    | posting found created pending latestDate =>
      rw [hphase] at hnext hl hk
      obtain ⟨hle, ⟨r, hpending⟩, hlatest⟩ := hk
      cases pending with
      | nil =>
        cases latestDate with
        | none =>
          cases hnext
          exact hs.goto trivial
        | some d =>
          cases hnext
          obtain ⟨d', hrow⟩ := hs.row
          exact ⟨⟨some d, by rw [Sys.close_db, hrow]⟩,
            fun _ hd => hlatest _ (hd ▸ rfl), hs.first,
            hs.phases_close ⟨[], (List.append_nil _).symm⟩ trivial⟩
      | cons entry pending =>
        dsimp only at hnext hl
        split at hnext
        · cases hnext
          exact hs.goto trivial
        · next t ht =>
            cases hnext
            obtain ⟨d, hrow⟩ := hs.row
            have hposts : Posts schedule entry t := by
              rw [hrow] at ht
              exact ht
            rw [← hl] at hpending
            obtain ⟨htake, r', hrest⟩ := next_of_pending hpending
            refine ⟨⟨d, hrow⟩, fun d hd => ?_, ?_, hs.phases_close ⟨[t], rfl⟩ ⟨?_, ⟨r', ?_⟩, ?_⟩⟩
            · obtain ⟨t', ht', hdate⟩ := hs.last d hd
              exact ⟨t', List.mem_append_left _ ht', hdate⟩
            · unfold PostsFirst
              rw [Sys.close_db, List.length_append, List.length_singleton, htake]
              exact List.rel_append hs.first (.cons hposts .nil)
            · change found + (created + 1) ≤ (s.db.posted ++ [t]).length
              rw [List.length_append, List.length_singleton]
              omega
            · rw [hrest, hl, Nat.add_assoc]
            · rintro _ ⟨⟩
              exact ⟨t, List.mem_append_right _ (List.mem_singleton_self t),
                (posts_spec hposts).2.1⟩

theorem inv_start (schedule : Schedule) (otherBalance : ℚ) :
    Inv schedule (start schedule otherBalance) :=
  ⟨⟨none, rfl⟩, fun _ h => (by cases h), .nil, fun _ => trivial⟩

/-- Along every run without races the entries of a plain schedule are posted once and in full. -/
theorem postedOnce_of_run (schedule : Schedule) (otherBalance : ℚ)
    (hplain : schedule.config.Plain) (hsalvage : schedule.salvageValue ≤ schedule.purchasePrice)
    {steps : List Step} (hrun : run next steps (start schedule otherBalance) = some s)
    (h : Along next Unraced steps (start schedule otherBalance)) :
    PostedOnce schedule s.db.posted := by
  have hs : Inv schedule s := invariant_along (P := Inv schedule)
    (fun l s s' hl hnext => inv_next hl hnext) hrun h (inv_start schedule otherBalance)
  exact postedOnce_of_first hplain hsalvage hs.first

/-! ## A year of depreciation -/

/-- A straight line of whole cents from one of the first 28 days of a month is plain. -/
theorem plain_of_straightLine {config : DepreciationConfig} (hmethod : config.method = .straightLine)
    (hday : getDate config.purchaseDate ≤ 28) (hcents : WholeCents config.straightLinePeriodAmount) :
    config.Plain := by
  refine ⟨fun k _ => hday.trans (lengthOf_bounds _).1, fun k _ _ => ?_⟩
  rw [DepreciationConfig.rawAmount, hmethod]
  exact hcents

/-- Twelve hundred dollars, down to nothing in twelve months. -/
def oneYear : Schedule :=
  ⟨7, "van", "wear", 120000, newDate 2024 0 15, 1, 0, .straightLine, none, .monthly, false, none, true⟩

/-- A call posts the first two months, and another the rest. -/
def twoCalls : List Step :=
  [Step.call 0 (newDate 2024 2 20)] ++ List.replicate 5 (Step.advance 0) ++
    [Step.call 1 (newDate 2025 5 1)] ++ List.replicate 13 (Step.advance 1)

theorem postedOnce_twoCalls : ∃ s, run next twoCalls (start oneYear 1200) = some s ∧
    PostedOnce oneYear s.db.posted := by
  have hsome : (run next twoCalls (start oneYear 1200)).isSome := by decide +kernel
  obtain ⟨s, hs⟩ := Option.isSome_iff_exists.1 hsome
  refine ⟨s, hs, postedOnce_of_run oneYear 1200 ?_ (by decide) hs (by decide +kernel)⟩
  exact plain_of_straightLine rfl (by decide) (by decide +kernel)

/-- A call dies after it has posted the first month, and another posts it again. -/
def crashed : List Step :=
  [.call 0 (newDate 2024 2 20), .advance 0, .advance 0, .crash 0, .call 1 (newDate 2024 2 20),
    .advance 1, .advance 1]

theorem postedOnce_crashed_false :
    ¬ ∀ (schedule : Schedule) (otherBalance : ℚ) (steps : List Step) (s : State),
      schedule.salvageValue ≤ schedule.purchasePrice →
        run next steps (start schedule otherBalance) = some s → PostedOnce schedule s.db.posted := by
  intro hclaim
  have hrun : (run next crashed (start oneYear 1200)).any (fun s =>
      s.db.posted.map Valuation.date = [newDate 2024 1 15, newDate 2024 1 15]) = true := by
    decide +kernel
  obtain ⟨s, hs, hdates⟩ := (Option.any_eq_true _ _).1 hrun
  have honce := (hclaim oneYear 1200 crashed s (by decide) hs).once
  rw [of_decide_eq_true hdates] at honce
  revert honce
  decide

end Depreciation
