import GnucashWeb.Ledger.Amount
import GnucashWeb.Lib.Civil
import Mathlib.Algebra.Order.Field.Rat

/-!
# Depreciation schedules

The entries of a depreciation or appreciation schedule.  A schedule that steps from a day that every
month of it has, by amounts in whole cents, has one entry in every period, and its amounts are whole
cents (`entry_of_plain`).
-/

open Ledger Civil

namespace Depreciation

/-! ## The calculator -/

inductive Method
  | straightLine | decliningBalance
deriving DecidableEq, Repr

inductive Frequency
  | monthly | quarterly | yearly
deriving DecidableEq, Repr

structure DepreciationConfig where
  purchasePrice : ℚ
  purchaseDate : ℤ
  salvageValue : ℚ
  usefulLifeYears : ℤ
  method : Method
  declineRate : Option ℚ
  frequency : Frequency
  isAppreciation : Bool
deriving DecidableEq, Repr

structure ScheduleEntry where
  date : ℤ
  periodAmount : ℚ
  cumulativeAmount : ℚ
  bookValue : ℚ
deriving DecidableEq, Repr

def periodsPerYear : Frequency → ℤ
  | .monthly => 12
  | .quarterly => 4
  | .yearly => 1

/-- The next date: a day that the month lacks runs over into the next one. -/
def advanceDate (date : ℤ) : Frequency → ℤ
  | .monthly => newDate (getFullYear date) (getMonth date + 1) (getDate date)
  | .quarterly => newDate (getFullYear date) (getMonth date + 3) (getDate date)
  | .yearly => newDate (getFullYear date + 1) (getMonth date) (getDate date)

namespace DepreciationConfig

variable (config : DepreciationConfig)

def totalPeriods : ℤ := config.usefulLifeYears * periodsPerYear config.frequency

def straightLinePeriodAmount : ℚ :=
  if config.totalPeriods = 0 then 0
  else |config.purchasePrice - config.salvageValue| / config.totalPeriods

def periodRate : ℚ :=
  config.declineRate.getD (2 / config.usefulLifeYears) / periodsPerYear config.frequency

/-- The amount of a period before the salvage value limits it. -/
def rawAmount (bookValue : ℚ) : ℚ :=
  match config.method with
  | .straightLine => config.straightLinePeriodAmount
  | .decliningBalance => bookValue * config.periodRate

/-- The amount of a period and the book value after it; depreciation stops at the salvage value. -/
def period (bookValue : ℚ) : Option (ℚ × ℚ) :=
  if config.isAppreciation then
    some (config.rawAmount bookValue, bookValue + config.rawAmount bookValue)
  else
    let maxDepr := max 0 (bookValue - config.salvageValue)
    let actualAmount := min (config.rawAmount bookValue) maxDepr
    if actualAmount ≤ 0 then none else some (actualAmount, bookValue - actualAmount)

def entriesFrom : ℕ → ℤ → ℚ → ℚ → List ScheduleEntry
  | 0, _, _, _ => []
  | periodsLeft + 1, currentDate, bookValue, cumulativeAmount =>
    match config.period bookValue with
    | none => []
    | some (amount, bookValue') =>
      ⟨currentDate, amount, cumulativeAmount + amount, bookValue'⟩ ::
        entriesFrom periodsLeft (advanceDate currentDate config.frequency) bookValue'
          (cumulativeAmount + amount)

def generateSchedule : List ScheduleEntry :=
  config.entriesFrom config.totalPeriods.toNat (advanceDate config.purchaseDate config.frequency)
    config.purchasePrice 0

end DepreciationConfig

/-! ## Dates -/

def monthsPerPeriod : Frequency → ℤ
  | .monthly => 1
  | .quarterly => 3
  | .yearly => 12

theorem monthsPerPeriod_pos (frequency : Frequency) : 0 < monthsPerPeriod frequency := by
  cases frequency <;> decide

theorem advanceDate_eq (date : ℤ) (frequency : Frequency) :
    advanceDate date frequency =
      dateIn (monthIndex date + monthsPerPeriod frequency) (getDate date) := by
  cases frequency <;> simp only [advanceDate, newDate_eq_dateIn, monthIndex, monthsPerPeriod] <;>
    congr 1 <;> omega

theorem lt_advanceDate (date : ℤ) (frequency : Frequency) : date < advanceDate date frequency := by
  have hpos := monthsPerPeriod_pos frequency
  have hlater : monthIndex date ≤ monthIndex date + monthsPerPeriod frequency := by omega
  have hle := dateIn_add_le hlater
  have hdate := dateIn_getDate date
  have h₁ := dateIn_add (monthIndex date) 1 (getDate date - 1)
  have h₂ := dateIn_add (monthIndex date + monthsPerPeriod frequency) 1 (getDate date - 1)
  rw [show 1 + (getDate date - 1) = getDate date by omega] at h₁ h₂
  rw [advanceDate_eq]
  omega

variable {config : DepreciationConfig}

theorem sorted_entriesFrom (n : ℕ) (date : ℤ) (bookValue cumulativeAmount : ℚ) :
    (config.entriesFrom n date bookValue cumulativeAmount).Pairwise (fun e f => e.date < f.date) ∧
      ∀ e ∈ config.entriesFrom n date bookValue cumulativeAmount, date ≤ e.date := by
  induction n generalizing date bookValue cumulativeAmount with
  | zero => exact ⟨.nil, fun _ h => absurd h List.not_mem_nil⟩
  | succ n ih =>
    unfold DepreciationConfig.entriesFrom
    split
    · exact ⟨.nil, fun _ h => absurd h List.not_mem_nil⟩
    · next amount bookValue' _ =>
        have hlt := lt_advanceDate date config.frequency
        obtain ⟨hsorted, hafter⟩ := ih (advanceDate date config.frequency) bookValue'
          (cumulativeAmount + amount)
        refine ⟨List.pairwise_cons.2 ⟨fun e he => ?_, hsorted⟩, fun e he => ?_⟩
        · exact hlt.trans_le (hafter e he)
        · rcases List.mem_cons.1 he with rfl | he
          · exact le_rfl
          · exact hlt.le.trans (hafter e he)

theorem sorted_generateSchedule (config : DepreciationConfig) :
    config.generateSchedule.Pairwise (fun e f => e.date < f.date) ∧
      ∀ e ∈ config.generateSchedule, config.purchaseDate < e.date := by
  obtain ⟨hsorted, hafter⟩ := @sorted_entriesFrom config config.totalPeriods.toNat
    (advanceDate config.purchaseDate config.frequency) config.purchasePrice 0
  exact ⟨hsorted, fun e he => (lt_advanceDate _ _).trans_le (hafter e he)⟩

def DepreciationConfig.sign (config : DepreciationConfig) : ℚ :=
  if config.isAppreciation then 1 else -1

theorem period_eq_some {bookValue amount bookValue' : ℚ}
    (h : config.period bookValue = some (amount, bookValue')) :
    bookValue' = bookValue + config.sign * amount ∧
      (config.isAppreciation = false →
        0 < amount ∧ amount ≤ bookValue - config.salvageValue ∧
          amount = min (config.rawAmount bookValue) (bookValue - config.salvageValue)) ∧
        (config.isAppreciation = true → amount = config.rawAmount bookValue) := by
  unfold DepreciationConfig.period at h
  unfold DepreciationConfig.sign
  cases happ : config.isAppreciation with
  | true =>
    rw [happ] at h
    obtain ⟨rfl, rfl⟩ := Prod.mk.inj (Option.some.inj h)
    simp
  | false =>
    rw [happ] at h
    simp only [Bool.false_eq_true, if_false] at h
    split at h
    · cases h
    · next hpos =>
        obtain ⟨rfl, rfl⟩ := Prod.mk.inj (Option.some.inj h)
        rw [not_le] at hpos
        have hroom : 0 < bookValue - config.salvageValue := by
          by_contra hle
          rw [max_eq_left (not_lt.1 hle)] at hpos
          exact absurd hpos (not_lt.2 (min_le_right _ _))
        rw [max_eq_right hroom.le] at hpos ⊢
        refine ⟨by simp; ring, fun _ => ⟨hpos, min_le_right _ _, rfl⟩, by simp⟩

theorem cumulative_entriesFrom (n : ℕ) (date : ℤ) (bookValue cumulativeAmount : ℚ) :
    ∀ e ∈ (config.entriesFrom n date bookValue cumulativeAmount).getLast?,
      e.cumulativeAmount = cumulativeAmount +
        ((config.entriesFrom n date bookValue cumulativeAmount).map ScheduleEntry.periodAmount).sum := by
  induction n generalizing date bookValue cumulativeAmount with
  | zero => exact fun _ h => by cases h
  | succ n ih =>
    unfold DepreciationConfig.entriesFrom
    split
    · exact fun _ h => by cases h
    · next amount bookValue' _ =>
        intro e he
        have hrest := ih (advanceDate date config.frequency) bookValue' (cumulativeAmount + amount)
        revert he hrest
        generalize config.entriesFrom n (advanceDate date config.frequency) bookValue'
          (cumulativeAmount + amount) = rest
        intro he hrest
        cases rest with
        | nil =>
          obtain rfl := Option.some.inj he
          simp
        | cons f rest =>
          rw [List.getLast?_cons_cons] at he
          rw [hrest e he]
          simp [add_assoc]

theorem sum_take_entriesFrom (happ : config.isAppreciation = false) (m n : ℕ) (date : ℤ)
    {bookValue : ℚ} (cumulativeAmount : ℚ) (hbook : config.salvageValue ≤ bookValue) :
    (((config.entriesFrom n date bookValue cumulativeAmount).take m).map
      ScheduleEntry.periodAmount).sum ≤ bookValue - config.salvageValue := by
  induction n generalizing m date bookValue cumulativeAmount with
  | zero => simpa [DepreciationConfig.entriesFrom] using hbook
  | succ n ih =>
    unfold DepreciationConfig.entriesFrom
    split
    · simpa using hbook
    · next amount bookValue' hperiod =>
        obtain ⟨hvalue, hamount, -⟩ := period_eq_some hperiod
        obtain ⟨-, hroom, -⟩ := hamount happ
        rw [DepreciationConfig.sign, if_neg (by simp [happ])] at hvalue
        cases m with
        | zero => simpa using hbook
        | succ m =>
          have hrest := @ih m (advanceDate date config.frequency) bookValue'
            (cumulativeAmount + amount) (by linarith)
          rw [List.take_succ_cons, List.map_cons, List.sum_cons]
          dsimp only
          linarith

/-! ## Plain schedules -/

namespace DepreciationConfig

variable (config : DepreciationConfig)

def valueAfter (k : ℕ) : ℚ :=
  match config.method with
  | .straightLine => config.purchasePrice + config.sign * (k * config.straightLinePeriodAmount)
  | .decliningBalance => config.purchasePrice * (1 + config.sign * config.periodRate) ^ k

/-- The schedule has a period after this many: its life is not over, and depreciation has not come
down to the salvage value. -/
def Reaches (k : ℕ) : Prop :=
  k < config.totalPeriods ∧
    (config.isAppreciation = false → ∀ j ≤ k, config.salvageValue < config.valueAfter j)

/-- A schedule in which every month in which a period ends has the day of the purchase, and every
amount that the salvage value does not limit is in whole cents. -/
structure Plain : Prop where
  days : ∀ k, config.Reaches k → getDate config.purchaseDate ≤
    lengthOf (monthIndex config.purchaseDate + (k + 1) * monthsPerPeriod config.frequency)
  cents : ∀ k, config.Reaches k →
    (config.isAppreciation = false →
      config.rawAmount (config.valueAfter k) ≤ config.valueAfter k - config.salvageValue) →
    WholeCents (config.rawAmount (config.valueAfter k))

end DepreciationConfig

theorem valueAfter_succ (k : ℕ) :
    config.valueAfter (k + 1) =
      config.valueAfter k + config.sign * config.rawAmount (config.valueAfter k) := by
  unfold DepreciationConfig.valueAfter DepreciationConfig.rawAmount
  cases config.method with
  | straightLine =>
    push_cast
    ring
  | decliningBalance =>
    dsimp only
    ring

theorem entriesFrom_salvage (happ : config.isAppreciation = false) (n : ℕ) (date : ℤ)
    (cumulativeAmount : ℚ) : config.entriesFrom n date config.salvageValue cumulativeAmount = [] := by
  cases n with
  | zero => rfl
  | succ n =>
    have hperiod : config.period config.salvageValue = none := by
      simp [DepreciationConfig.period, happ]
    rw [DepreciationConfig.entriesFrom, hperiod]

/-- In a plain schedule every entry lies in its period, and its amount is whole cents. -/
theorem entriesFrom_of_plain (h : config.Plain) (hsalvage : WholeCents config.salvageValue)
    {n k : ℕ} (hperiods : (k + n : ℤ) ≤ config.totalPeriods) {date : ℤ} (cumulativeAmount : ℚ)
    (hdate : date = dateIn (monthIndex config.purchaseDate +
      (k + 1) * monthsPerPeriod config.frequency) (getDate config.purchaseDate))
    (hvalue : WholeCents (config.valueAfter k))
    (habove : config.isAppreciation = false → ∀ j < k, config.salvageValue < config.valueAfter j) :
    ∀ (i : ℕ) (e : ScheduleEntry),
      (config.entriesFrom n date (config.valueAfter k) cumulativeAmount)[i]? = some e →
      WholeCents e.periodAmount ∧ monthIndex e.date = monthIndex config.purchaseDate +
        (k + i + 1) * monthsPerPeriod config.frequency := by
  induction n generalizing k date cumulativeAmount with
  | zero =>
    intro i e he
    rw [DepreciationConfig.entriesFrom, List.getElem?_nil] at he
    cases he
  | succ n ih =>
    intro i e he
    rw [DepreciationConfig.entriesFrom] at he
    cases hperiod : config.period (config.valueAfter k) with
    | none => simp [hperiod] at he
    | some result =>
      obtain ⟨amount, bookValue'⟩ := result
      rw [hperiod] at he
      dsimp only at he
      obtain ⟨hbook, hdepr, happr⟩ := period_eq_some hperiod
      have habove' : config.isAppreciation = false →
          ∀ j < k + 1, config.salvageValue < config.valueAfter j := by
        intro happ j hj
        rcases Nat.lt_succ_iff_lt_or_eq.1 hj with hj | rfl
        · exact habove happ j hj
        · linarith [(hdepr happ).1, (hdepr happ).2.1]
      have hreaches : config.Reaches k :=
        ⟨by push_cast at hperiods; omega, fun happ j hj => habove' happ j (by omega)⟩
      have hfits := h.days k hreaches
      have hday := getDate_mem_lengthOf config.purchaseDate
      have hmonth := monthIndex_dateIn ⟨hday.1, hfits⟩
      have hmonthDay := getDate_dateIn ⟨hday.1, hfits⟩
      have hamount : WholeCents amount := by
        cases happ : config.isAppreciation with
        | true =>
          rw [happr happ]
          exact h.cents k hreaches (by simp [happ])
        | false =>
          obtain ⟨-, -, hmin⟩ := hdepr happ
          rcases min_choice (config.rawAmount (config.valueAfter k))
              (config.valueAfter k - config.salvageValue) with hraw | hroom
          · rw [hmin, hraw]
            exact h.cents k hreaches fun _ => min_eq_left_iff.1 hraw
          · rw [hmin, hroom]
            exact hvalue.sub hsalvage
      cases i with
      | zero =>
        obtain rfl := Option.some.inj he
        refine ⟨hamount, ?_⟩
        rw [hdate, hmonth]
        push_cast
        ring
      | succ i =>
        rw [List.getElem?_cons_succ] at he
        by_cases hunlimited : amount = config.rawAmount (config.valueAfter k)
        · rw [hunlimited] at hbook
          rw [hbook, ← valueAfter_succ] at he
          have hrest := ih (k := k + 1) (by push_cast at hperiods ⊢; omega) _ ?_ ?_ habove' i e he
          · refine ⟨hrest.1, ?_⟩
            rw [hrest.2]
            push_cast
            ring
          · rw [hdate, advanceDate_eq, hmonth, hmonthDay]
            congr 1
            push_cast
            ring
          · rw [valueAfter_succ, ← hunlimited]
            unfold DepreciationConfig.sign
            split
            · rw [one_mul]
              exact hvalue.add hamount
            · rw [neg_one_mul, ← sub_eq_add_neg]
              exact hvalue.sub hamount
        · -- the salvage value limits the amount, and nothing is left
          have happ : config.isAppreciation = false :=
            Bool.eq_false_iff.2 fun happ => hunlimited (happr happ)
          obtain ⟨-, -, hmin⟩ := hdepr happ
          have hroom : amount = config.valueAfter k - config.salvageValue := by
            rcases min_choice (config.rawAmount (config.valueAfter k))
              (config.valueAfter k - config.salvageValue) with hraw | hroom
            · exact absurd (hmin.trans hraw) hunlimited
            · exact hmin.trans hroom
          rw [DepreciationConfig.sign, if_neg (by simp [happ]), hroom, neg_one_mul, neg_sub,
            add_sub_cancel] at hbook
          rw [hbook, entriesFrom_salvage happ, List.getElem?_nil] at he
          cases he

theorem valueAfter_zero : config.valueAfter 0 = config.purchasePrice := by
  unfold DepreciationConfig.valueAfter
  cases config.method <;> simp

theorem entry_of_plain (h : config.Plain) (hprice : WholeCents config.purchasePrice)
    (hsalvage : WholeCents config.salvageValue) {i : ℕ} {e : ScheduleEntry}
    (he : config.generateSchedule[i]? = some e) :
    WholeCents e.periodAmount ∧ monthIndex e.date = monthIndex config.purchaseDate +
      (i + 1) * monthsPerPeriod config.frequency := by
  unfold DepreciationConfig.generateSchedule at he
  rw [← valueAfter_zero] at he
  by_cases hpos : 0 ≤ config.totalPeriods
  · have hentry := entriesFrom_of_plain h hsalvage (k := 0) (by simp [hpos]) 0
      (by rw [advanceDate_eq]; simp) (by rwa [valueAfter_zero]) (fun _ j hj => absurd hj (by omega))
      i e he
    simpa using hentry
  · rw [Int.toNat_of_nonpos (by omega)] at he
    cases he

end Depreciation
