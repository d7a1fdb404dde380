import Mathlib.Data.List.Sort
import GnucashWeb.Lib.Civil

/-!
# Recurrence patterns

The occurrence dates of a recurrence pattern and of a composite schedule.  A date is a day number;
times of day do not occur, and neither do the years that the host's date constructor reads as two
digits.  The generator of raw dates is the list of what its loop yields, pass by pass.
-/

open Civil

namespace Recurrence

/-! ## Patterns -/

inductive PeriodType
  | once | daily | weekly | month | endOfMonth | nthWeekday | lastWeekday | semiMonthly | year
  | unknown
deriving DecidableEq, Repr

inductive WeekendAdjust
  | none | back | forward
deriving DecidableEq, Repr

structure RecurrencePattern where
  periodType : PeriodType
  mult : ℕ
  periodStart : ℤ
  weekendAdjust : WeekendAdjust
deriving DecidableEq, Repr

/-! ## Dates in a month -/

def lastDayOfMonth (year month : ℤ) : ℤ := getDate (newDate year (month + 1) 0)

def clampDay (year month day : ℤ) : ℤ := min day (lastDayOfMonth year month)

/-- A Saturday or Sunday moves to the Friday before or to the Monday after. -/
def applyWeekendAdjust (date : ℤ) (adjust : WeekendAdjust) : ℤ :=
  let dow := getDay date
  match adjust with
  | .back =>
    if dow = 0 then newDate (getFullYear date) (getMonth date) (getDate date - 2)
    else if dow = 6 then newDate (getFullYear date) (getMonth date) (getDate date - 1)
    else date
  | .forward =>
    if dow = 0 then newDate (getFullYear date) (getMonth date) (getDate date + 1)
    else if dow = 6 then newDate (getFullYear date) (getMonth date) (getDate date + 2)
    else date
  | .none => date

def monthDay (year month day : ℤ) : ℤ :=
  let targetYear := year + month / 12
  let targetMonth := month % 12
  newDate targetYear targetMonth (clampDay targetYear targetMonth day)

def addMonths (base n : ℤ) : ℤ := monthDay (getFullYear base) (getMonth base + n) (getDate base)

/-- `while (day > last) day -= 7`; a month holds at most five of a weekday. -/
def dropWeeks (last : ℤ) : ℕ → ℤ → ℤ
  | 0, day => day
  | fuel + 1, day => if last < day then dropWeeks last fuel (day - 7) else day

def nthWeekdayOfMonth (year month weekday nth : ℤ) : ℤ :=
  let firstDow := getDay (newDate year month 1)
  let last := lastDayOfMonth year month
  let day := 1 + (weekday - firstDow + 7) % 7 + (nth - 1) * 7
  newDate year month (dropWeeks last day.toNat day)

def lastWeekdayOfMonth (year month weekday : ℤ) : ℤ :=
  let last := lastDayOfMonth year month
  let lastDow := getDay (newDate year month last)
  newDate year month (last - (lastDow - weekday + 7) % 7)

def weekdayAnchor (periodStart : ℤ) : ℤ × ℤ := (getDay periodStart, (getDate periodStart - 1) / 7 + 1)

def weekdayOccurrence (periodType : PeriodType) (periodStart year month : ℤ) : ℤ :=
  let (weekday, ordinal) := weekdayAnchor periodStart
  let base := monthDay year month 1
  if periodType = .lastWeekday then
    lastWeekdayOfMonth (getFullYear base) (getMonth base) weekday
  else nthWeekdayOfMonth (getFullYear base) (getMonth base) weekday ordinal

def endOfMonth (year month : ℤ) : ℤ :=
  let base := monthDay year month 1
  newDate (getFullYear base) (getMonth base) (lastDayOfMonth (getFullYear base) (getMonth base))

/-- The two days of a semi-monthly schedule, or the one when both are the last of the month. -/
def semiMonthlyAnchorDays (periodStart year month : ℤ) : List ℤ :=
  let first := clampDay year month (getDate periodStart)
  let second := clampDay year month (getDate periodStart + 15)
  if first = second then [first] else [first, second]

/-- What one pass of the loop of `generateRawDates` yields. -/
def generateStep (pattern : RecurrencePattern) (startFrom : ℤ) (step : ℕ) : List ℤ :=
  let mult : ℤ := pattern.mult
  match pattern.periodType with
  | .once =>
    if step = 0 then
      [newDate (getFullYear pattern.periodStart) (getMonth pattern.periodStart)
        (getDate pattern.periodStart)]
    else []
  | .daily => [newDate (getFullYear startFrom) (getMonth startFrom) (getDate startFrom + step * mult)]
  | .weekly =>
    [newDate (getFullYear startFrom) (getMonth startFrom) (getDate startFrom + step * mult * 7)]
  | .month =>
    [monthDay (getFullYear startFrom) (getMonth startFrom + step * mult)
      (getDate pattern.periodStart)]
  | .endOfMonth => [endOfMonth (getFullYear startFrom) (getMonth startFrom + step * mult)]
  | .semiMonthly =>
    let totalMonth := getMonth startFrom + step * mult
    let y := getFullYear startFrom + totalMonth / 12
    let m := totalMonth % 12
    (semiMonthlyAnchorDays pattern.periodStart y m).map fun day => newDate y m day
  | .year =>
    let year := getFullYear startFrom + step * mult
    let anchorMonth := getMonth pattern.periodStart
    [newDate year anchorMonth (clampDay year anchorMonth (getDate pattern.periodStart))]
  | .nthWeekday | .lastWeekday =>
    [weekdayOccurrence pattern.periodType pattern.periodStart (getFullYear startFrom)
      (getMonth startFrom + step * mult)]
  | .unknown => []

/-- The first so many raw dates that `generateRawDates` yields. -/
def generateRawDates (pattern : RecurrencePattern) (startFrom : ℤ) (n : ℕ) : List ℤ :=
  ((List.range n).flatMap (generateStep pattern startFrom)).take n

/-! ## After the last occurrence -/

def isAnchored : PeriodType → Bool
  | .month | .endOfMonth | .nthWeekday | .lastWeekday | .semiMonthly | .year => true
  | .once | .daily | .weekly | .unknown => false

def isMonthly (periodType : PeriodType) : Bool := isAnchored periodType && periodType ≠ .year

def matchesRawAnchor (pattern : RecurrencePattern) (candidate : ℤ) : Bool :=
  let year := getFullYear candidate
  let month := getMonth candidate
  match pattern.periodType with
  | .month => getDate candidate = clampDay year month (getDate pattern.periodStart)
  | .endOfMonth => getDate candidate = lastDayOfMonth year month
  | .nthWeekday | .lastWeekday =>
    candidate = weekdayOccurrence pattern.periodType pattern.periodStart year month
  | .semiMonthly => getDate candidate ∈ semiMonthlyAnchorDays pattern.periodStart year month
  | .year =>
    month = getMonth pattern.periodStart &&
      getDate candidate = clampDay year month (getDate pattern.periodStart)
  | .once | .daily | .weekly | .unknown => false

/-- The raw dates within two days of a stored date that are adjusted to it. -/
def rawCandidates (pattern : RecurrencePattern) (lastOccur : ℤ) : List ℤ :=
  ([-2, -1, 0, 1, 2].map fun delta =>
    newDate (getFullYear lastOccur) (getMonth lastOccur) (getDate lastOccur + delta)).filter
      fun candidate => matchesRawAnchor pattern candidate &&
        applyWeekendAdjust candidate pattern.weekendAdjust = lastOccur

/-- The raw date of a stored one, the closest when there are several. -/
def rawAnchoredOccurrence (pattern : RecurrencePattern) (lastOccur : ℤ) : ℤ :=
  if pattern.weekendAdjust = .none then lastOccur
  else
    ((rawCandidates pattern lastOccur).insertionSort
      fun a b => (a - lastOccur).natAbs ≤ (b - lastOccur).natAbs).headD lastOccur

def computeFirstAfterLast (pattern : RecurrencePattern) (lastOccur : ℤ) : ℤ :=
  let mult : ℤ := pattern.mult
  let periodStart := pattern.periodStart
  let rawLast :=
    if isAnchored pattern.periodType then rawAnchoredOccurrence pattern lastOccur else lastOccur
  match pattern.periodType with
  | .daily => newDate (getFullYear lastOccur) (getMonth lastOccur) (getDate lastOccur + mult)
  | .weekly => newDate (getFullYear lastOccur) (getMonth lastOccur) (getDate lastOccur + mult * 7)
  | .month => monthDay (getFullYear rawLast) (getMonth rawLast + mult) (getDate periodStart)
  | .endOfMonth => endOfMonth (getFullYear rawLast) (getMonth rawLast + mult)
  | .nthWeekday | .lastWeekday =>
    weekdayOccurrence pattern.periodType periodStart (getFullYear rawLast)
      (getMonth rawLast + mult)
  | .semiMonthly =>
    let anchors := semiMonthlyAnchorDays periodStart (getFullYear rawLast) (getMonth rawLast)
    match anchors.find? (getDate rawLast < ·) with
    | some nextAnchor => newDate (getFullYear rawLast) (getMonth rawLast) nextAnchor
    | none =>
      let next := addMonths rawLast mult
      newDate (getFullYear next) (getMonth next)
        ((semiMonthlyAnchorDays periodStart (getFullYear next) (getMonth next)).headD 1)
  | .year =>
    let targetYear := getFullYear rawLast + mult
    let month := getMonth periodStart
    newDate targetYear month (clampDay targetYear month (getDate periodStart))
  | .once | .unknown => newDate (getFullYear lastOccur) (getMonth lastOccur) (getDate lastOccur)

/-! ## Occurrences -/

def maxIterations : ℕ := 10000

/-- The loop over the raw dates, with how many dates are still wanted and may still occur. -/
def collect (adjust : WeekendAdjust) (endDate : Option ℤ) (afterDate : ℤ) :
    Option ℕ → ℕ → List ℤ → List ℤ
  | _, _, [] => []
  | remaining, room, rawDate :: rest =>
    let adjusted := applyWeekendAdjust rawDate adjust
    if endDate.any (· < adjusted) then []
    else if adjusted ≤ afterDate then collect adjust endDate afterDate remaining room rest
    else if remaining.any (· ≤ 1) || room ≤ 1 then [adjusted]
    else adjusted :: collect adjust endDate afterDate (remaining.map (· - 1)) (room - 1) rest

def computeNextOccurrences (pattern : RecurrencePattern) (lastOccur endDate : Option ℤ)
    (remainingOccurrences : Option ℕ) (count : ℕ) (afterDate : ℤ) : List ℤ :=
  if remainingOccurrences = some 0 then []
  else if count = 0 then []
  else
    let startFrom :=
      match lastOccur with
      | some lastOccur => computeFirstAfterLast pattern lastOccur
      | none =>
        newDate (getFullYear pattern.periodStart) (getMonth pattern.periodStart)
          (getDate pattern.periodStart)
    collect pattern.weekendAdjust endDate afterDate remainingOccurrences count
      (generateRawDates pattern startFrom (maxIterations + 1))

def occurrenceBelongsToMonthlyPattern (pattern : RecurrencePattern) (occurrence : ℤ) : Bool :=
  if ¬ isMonthly pattern.periodType then true
  else
    let raw := rawAnchoredOccurrence pattern occurrence
    let monthDelta := (getFullYear raw - getFullYear pattern.periodStart) * 12 + getMonth raw -
      getMonth pattern.periodStart
    matchesRawAnchor pattern raw && 0 ≤ monthDelta && monthDelta % pattern.mult = 0

/-- `byTime.set`: a date is kept once. -/
def byTimeSet (dates : List ℤ) (date : ℤ) : List ℤ :=
  if date ∈ dates then dates else dates ++ [date]

def computeNextOccurrencesForPatterns (patterns : List RecurrencePattern)
    (lastOccur endDate : Option ℤ) (remainingOccurrences : Option ℕ) (count : ℕ)
    (afterDate : ℤ) : List ℤ :=
  if patterns = [] ∨ count = 0 then []
  else
    let byTime := (patterns.flatMap fun pattern =>
      computeNextOccurrences pattern
        (lastOccur.filter (occurrenceBelongsToMonthlyPattern pattern)) endDate
        remainingOccurrences count afterDate).foldl byTimeSet []
    (byTime.insertionSort (· ≤ ·)).take (min count (remainingOccurrences.getD count))

end Recurrence
