import Mathlib.Data.List.Infix
import GnucashWeb.Recurrence.Pattern

/-!
# The raw dates of a pattern

Every pattern but the single one repeats a block of dates at a fixed stride: a day, or the anchor
dates of a month or of a year.  `generateStep_eq` reads the generator in this way and
`matchesRawAnchor_iff` the test for an anchor; `blockAt_spaced` says that the blocks of an anchored
pattern lie at least five days apart, more than a weekend can move two dates towards each other.
-/

open Civil

namespace Recurrence

/-! ## Weekends -/

/-- Where a date moves for a weekend, by its day of the week. -/
def weekendShift (adjust : WeekendAdjust) (dow : ℤ) : ℤ :=
  match adjust with
  | .none => 0
  | .back => if dow = 0 then -2 else if dow = 6 then -1 else 0
  | .forward => if dow = 0 then 1 else if dow = 6 then 2 else 0

theorem newDate_getDate_add (n k : ℤ) :
    newDate (getFullYear n) (getMonth n) (getDate n + k) = n + k := by
  rw [newDate_add, fields_newDate]

theorem newDate_getDate_sub (n k : ℤ) :
    newDate (getFullYear n) (getMonth n) (getDate n - k) = n - k :=
  newDate_getDate_add n (-k)

theorem applyWeekendAdjust_eq (n : ℤ) (adjust : WeekendAdjust) :
    applyWeekendAdjust n adjust = n + weekendShift adjust ((n + 1) % 7) := by
  unfold applyWeekendAdjust weekendShift getDay
  cases adjust with
  | none => simp
  | back =>
    simp only [newDate_getDate_sub]
    split_ifs <;> omega
  | forward =>
    simp only [newDate_getDate_add]
    split_ifs <;> omega

section Adjust

variable {adjust : WeekendAdjust} {m n : ℤ}

theorem adjust_bounds (adjust : WeekendAdjust) (n : ℤ) :
    n - 2 ≤ applyWeekendAdjust n adjust ∧ applyWeekendAdjust n adjust ≤ n + 2 := by
  rw [applyWeekendAdjust_eq]
  cases adjust <;> simp only [weekendShift] <;> omega

theorem adjust_le_adjust (adjust : WeekendAdjust) (h : m ≤ n) :
    applyWeekendAdjust m adjust ≤ applyWeekendAdjust n adjust := by
  rw [applyWeekendAdjust_eq, applyWeekendAdjust_eq]
  cases adjust <;> simp only [weekendShift] <;> omega

theorem adjust_adjust : applyWeekendAdjust (applyWeekendAdjust n adjust) adjust =
    applyWeekendAdjust n adjust := by
  rw [applyWeekendAdjust_eq n, applyWeekendAdjust_eq]
  cases adjust <;> simp only [weekendShift] <;> omega

theorem adjust_add_weeks (k : ℤ) :
    applyWeekendAdjust (n + 7 * k) adjust = applyWeekendAdjust n adjust + 7 * k := by
  have hmod : (n + 7 * k + 1) % 7 = (n + 1) % 7 := by omega
  rw [applyWeekendAdjust_eq, applyWeekendAdjust_eq, hmod]
  omega

@[simp] theorem adjust_none : applyWeekendAdjust n .none = n := rfl

theorem eq_of_adjust_wednesday (h : (m + 1) % 7 = 3) (hn : applyWeekendAdjust n adjust = m) :
    n = m := by
  rw [applyWeekendAdjust_eq] at hn
  cases adjust <;> simp only [weekendShift] at hn <;> omega

theorem adjust_wednesday (h : (m + 1) % 7 = 3) : applyWeekendAdjust m adjust = m := by
  rw [applyWeekendAdjust_eq]
  cases adjust <;> simp only [weekendShift] <;> omega

end Adjust

/-! ## Anchor days of a month -/

theorem lastDayOfMonth_eq (year month : ℤ) :
    lastDayOfMonth year month = lengthOf (12 * year + month) := getDate_day_zero year month

theorem clampDay_eq (year month day : ℤ) :
    clampDay year month day = min day (lengthOf (12 * year + month)) := by
  rw [clampDay, lastDayOfMonth_eq]

theorem twelve_mul_ediv_add (y m : ℤ) : 12 * (y + m / 12) + m % 12 = 12 * y + m := by omega

theorem monthDay_eq (year month day : ℤ) :
    monthDay year month day =
      dateIn (12 * year + month) (min day (lengthOf (12 * year + month))) := by
  rw [monthDay, clampDay_eq, newDate_eq_dateIn, twelve_mul_ediv_add]

theorem monthIndex_first (t : ℤ) : monthIndex (dateIn t 1) = t := by
  have := lengthOf_bounds t
  exact monthIndex_dateIn (by omega)

theorem monthDay_one (year month : ℤ) : monthDay year month 1 = dateIn (12 * year + month) 1 := by
  have := lengthOf_bounds (12 * year + month)
  rw [monthDay_eq, min_eq_left (by omega)]

theorem fields_first (t : ℤ) :
    12 * getFullYear (dateIn t 1) + getMonth (dateIn t 1) = t := monthIndex_first t

theorem endOfMonth_eq (year month : ℤ) :
    endOfMonth year month = dateIn (12 * year + month) (lengthOf (12 * year + month)) := by
  unfold endOfMonth
  dsimp only
  rw [monthDay_one, newDate_eq_dateIn, lastDayOfMonth_eq, fields_first]

def weekdayDay (periodType : PeriodType) (periodStart t : ℤ) : ℤ :=
  let (weekday, ordinal) := weekdayAnchor periodStart
  let last := lengthOf t
  if periodType = .lastWeekday then last - (getDay (dateIn t last) - weekday + 7) % 7
  else
    let day := 1 + (weekday - getDay (dateIn t 1) + 7) % 7 + (ordinal - 1) * 7
    dropWeeks last day.toNat day

theorem weekdayOccurrence_eq (periodType : PeriodType) (periodStart year month : ℤ) :
    weekdayOccurrence periodType periodStart year month =
      dateIn (12 * year + month) (weekdayDay periodType periodStart (12 * year + month)) := by
  unfold weekdayOccurrence weekdayDay lastWeekdayOfMonth nthWeekdayOfMonth weekdayAnchor
  dsimp only
  rw [monthDay_one]
  simp only [newDate_eq_dateIn, lastDayOfMonth_eq, fields_first]
  split <;> rfl

theorem dropWeeks_spec (last day : ℤ) {fuel : ℕ} (hfuel : day ≤ fuel) (hlast : 28 ≤ last) :
    (day ≤ last → dropWeeks last fuel day = day) ∧
      (last < day → last - 7 < dropWeeks last fuel day ∧ dropWeeks last fuel day ≤ last) := by
  induction fuel generalizing day with
  | zero =>
    refine ⟨fun _ => rfl, fun h => ?_⟩
    omega
  | succ fuel ih =>
    unfold dropWeeks
    by_cases h : last < day
    · rw [if_pos h]
      have hprev := ih (day - 7) (by omega)
      refine ⟨fun hle => by omega, fun _ => ?_⟩
      by_cases hagain : last < day - 7
      · exact hprev.2 hagain
      · rw [hprev.1 (by omega)]
        omega
    · rw [if_neg h]
      exact ⟨fun _ => rfl, fun hlt => absurd hlt h⟩

theorem ordinal_mem (n : ℤ) : 1 ≤ (weekdayAnchor n).2 ∧ (weekdayAnchor n).2 ≤ 5 := by
  have hday := getDate_mem_lengthOf n
  have hlen := lengthOf_bounds (monthIndex n)
  unfold weekdayAnchor
  dsimp only
  omega

/-- Where the weekday occurrence stands: in the ordinal's week, or in the last seven days. -/
theorem weekdayDay_mem (periodType : PeriodType) (periodStart t : ℤ) :
    (1 ≤ weekdayDay periodType periodStart t ∧
      weekdayDay periodType periodStart t ≤ lengthOf t) ∧
      ((lengthOf t - 7 < weekdayDay periodType periodStart t ∧
          (periodType = .lastWeekday ∨ (weekdayAnchor periodStart).2 = 5)) ∨
        (7 * (weekdayAnchor periodStart).2 - 7 < weekdayDay periodType periodStart t ∧
          weekdayDay periodType periodStart t ≤ 7 * (weekdayAnchor periodStart).2 ∧
            periodType ≠ .lastWeekday ∧ (weekdayAnchor periodStart).2 ≤ 4)) := by
  have hlen := lengthOf_bounds t
  have hord := ordinal_mem periodStart
  unfold weekdayDay
  dsimp only
  split
  · rename_i hlast
    refine ⟨by omega, .inl ⟨by omega, .inl hlast⟩⟩
  · rename_i hlast
    have hdrop := dropWeeks_spec (lengthOf t)
      (1 + ((weekdayAnchor periodStart).1 - getDay (dateIn t 1) + 7) % 7 +
        ((weekdayAnchor periodStart).2 - 1) * 7) (Int.self_le_toNat _) (by omega)
    by_cases hfive : (weekdayAnchor periodStart).2 = 5
    · refine ⟨?_, .inl ⟨?_, .inr hfive⟩⟩ <;> omega
    · refine ⟨?_, .inr ⟨?_, ?_, hlast, ?_⟩⟩ <;> omega

def anchorDays (p : RecurrencePattern) (t : ℤ) : List ℤ :=
  let start := getDate p.periodStart
  match p.periodType with
  | .month | .year => [min start (lengthOf t)]
  | .endOfMonth => [lengthOf t]
  | .nthWeekday | .lastWeekday => [weekdayDay p.periodType p.periodStart t]
  | .semiMonthly =>
    if min start (lengthOf t) = min (start + 15) (lengthOf t) then [min start (lengthOf t)]
    else [min start (lengthOf t), min (start + 15) (lengthOf t)]
  | .once | .daily | .weekly | .unknown => []

theorem semiMonthlyAnchorDays_eq (p : RecurrencePattern) (year month : ℤ)
    (h : p.periodType = .semiMonthly) :
    semiMonthlyAnchorDays p.periodStart year month = anchorDays p (12 * year + month) := by
  unfold semiMonthlyAnchorDays anchorDays
  simp only [clampDay_eq, h]

variable {p : RecurrencePattern}

theorem anchorDays_mem {t d : ℤ} (h : d ∈ anchorDays p t) :
    1 ≤ d ∧ d ≤ lengthOf t := by
  have hlen := lengthOf_bounds t
  have hstart := getDate_mem_lengthOf p.periodStart
  unfold anchorDays at h
  cases hp : p.periodType <;> simp only [hp] at h
  case nthWeekday => exact List.mem_singleton.1 h ▸ (weekdayDay_mem ..).1
  case lastWeekday => exact List.mem_singleton.1 h ▸ (weekdayDay_mem ..).1
  case semiMonthly =>
    split at h
    · rw [List.mem_singleton] at h
      omega
    · rw [List.mem_cons, List.mem_singleton] at h
      omega
  all_goals first
    | exact absurd h List.not_mem_nil
    | rw [List.mem_singleton] at h; omega

theorem anchorDays_succ {t d e : ℤ} (hd : d ∈ anchorDays p t)
    (he : e ∈ anchorDays p (t + 1)) : d + 5 ≤ lengthOf t + e := by
  have hlen := lengthOf_bounds t
  have hlen' := lengthOf_bounds (t + 1)
  have hstart := getDate_mem_lengthOf p.periodStart
  have hweek := weekdayDay_mem p.periodType p.periodStart t
  have hweek' := weekdayDay_mem p.periodType p.periodStart (t + 1)
  unfold anchorDays at hd he
  cases hp : p.periodType <;> simp only [hp, reduceCtorEq, false_or, true_or, ne_eq,
    not_false_eq_true, not_true_eq_false, true_and, false_and, and_true, and_false, or_false]
    at hd he hweek hweek'
  case semiMonthly =>
    split at hd <;> split at he <;> simp only [List.mem_cons, List.not_mem_nil, or_false] at hd he <;>
      omega
  all_goals first
    | exact absurd hd List.not_mem_nil
    | rw [List.mem_singleton] at hd he; omega

/-! ## Blocks -/

/-- The place of a date in the cycle of a period: the day, the month or the year. -/
def indexOf (periodType : PeriodType) (date : ℤ) : ℤ :=
  match periodType with
  | .daily | .weekly => date
  | .year => getFullYear date
  | .month | .endOfMonth | .nthWeekday | .lastWeekday | .semiMonthly => monthIndex date
  | .once | .unknown => 0

/-- How far one pass of the generator moves in the cycle. -/
def strideOf (p : RecurrencePattern) : ℤ :=
  match p.periodType with
  | .weekly => p.mult * 7
  | _ => p.mult

def blockMonth (p : RecurrencePattern) (i : ℤ) : ℤ :=
  match p.periodType with
  | .year => 12 * i + getMonth p.periodStart
  | _ => i

def blockAt (p : RecurrencePattern) (i : ℤ) : List ℤ :=
  match p.periodType with
  | .daily | .weekly => [i]
  | _ => (anchorDays p (blockMonth p i)).map (dateIn (blockMonth p i))

/-- The patterns whose generator does not end. -/
def Repeats (p : RecurrencePattern) : Prop :=
  p.periodType ≠ .once ∧ p.periodType ≠ .unknown

theorem blockAt_anchored (h : isAnchored p.periodType = true) (i : ℤ) :
    blockAt p i = (anchorDays p (blockMonth p i)).map (dateIn (blockMonth p i)) := by
  unfold blockAt
  cases hp : p.periodType <;> simp_all [isAnchored]

theorem monthIndex_add (n k : ℤ) :
    12 * getFullYear n + (getMonth n + k) = monthIndex n + k := by
  unfold monthIndex
  omega

theorem generateStep_eq (h : Repeats p) (startFrom : ℤ) (step : ℕ) :
    generateStep p startFrom step =
      blockAt p (indexOf p.periodType startFrom + step * strideOf p) := by
  unfold generateStep blockAt strideOf indexOf blockMonth anchorDays
  dsimp only
  cases hp : p.periodType <;> simp only [newDate_getDate_add]
  case once => exact absurd hp h.1
  case unknown => exact absurd hp h.2
  case weekly => rw [Int.mul_assoc]
  case month => rw [monthDay_eq, monthIndex_add, List.map_cons, List.map_nil]
  case endOfMonth => rw [endOfMonth_eq, monthIndex_add, List.map_cons, List.map_nil]
  case nthWeekday => rw [weekdayOccurrence_eq, monthIndex_add, List.map_cons, List.map_nil]
  case lastWeekday => rw [weekdayOccurrence_eq, monthIndex_add, List.map_cons, List.map_nil]
  case year =>
    rw [clampDay_eq, newDate_eq_dateIn, List.map_cons, List.map_nil]
  case semiMonthly =>
    rw [semiMonthlyAnchorDays_eq p _ _ hp]
    simp only [newDate_eq_dateIn, twelve_mul_ediv_add, monthIndex_add]
    unfold anchorDays
    simp only [hp]

theorem indexOf_of_mem_blockAt (h : Repeats p) {i x : ℤ}
    (hx : x ∈ blockAt p i) : indexOf p.periodType x = i := by
  by_cases ha : isAnchored p.periodType = true
  · rw [blockAt_anchored ha] at hx
    obtain ⟨d, hd, rfl⟩ := List.mem_map.1 hx
    have hindex := monthIndex_dateIn (anchorDays_mem hd)
    have hmonth := getMonth_mem p.periodStart
    unfold blockMonth at hindex
    unfold indexOf blockMonth
    cases hp : p.periodType <;> simp only [hp] at hindex ⊢ <;> simp_all [isAnchored]
    case year =>
      have hm := getMonth_mem (dateIn (12 * i + getMonth p.periodStart) d)
      unfold monthIndex at hindex
      omega
  · unfold blockAt at hx
    unfold indexOf
    cases hp : p.periodType <;> simp_all [isAnchored, Repeats]

theorem blockAt_spaced (h : isAnchored p.periodType = true) {i j x y : ℤ}
    (hx : x ∈ blockAt p i) (hy : y ∈ blockAt p j) (hij : i < j) : x + 5 ≤ y := by
  rw [blockAt_anchored h] at hx hy
  obtain ⟨d, hd, rfl⟩ := List.mem_map.1 hx
  obtain ⟨e, he, rfl⟩ := List.mem_map.1 hy
  have hlt : blockMonth p i < blockMonth p j := by
    unfold blockMonth
    cases p.periodType <;> dsimp only <;> omega
  generalize blockMonth p i = t at hd hlt ⊢
  generalize blockMonth p j = u at he hlt ⊢
  have hday := anchorDays_mem hd
  have hday' := anchorDays_mem he
  have hnext := dateIn_succ t
  have hx1 := dateIn_add t 1 (d - 1)
  have hl1 := dateIn_add t 1 (lengthOf t)
  have hy1 := dateIn_add u 1 (e - 1)
  rw [show 1 + (d - 1) = d by omega] at hx1
  rw [show 1 + (e - 1) = e by omega] at hy1
  rw [show lengthOf t + 1 = 1 + lengthOf t by omega] at hnext
  by_cases hsucc : u = t + 1
  · subst hsucc
    have hgap := anchorDays_succ hd he
    omega
  · have hle := dateIn_add_le (t := t + 1) (u := u) (by omega)
    omega

end Recurrence
