import Mathlib.Data.Int.Notation
import Mathlib.Tactic.Common

/-!
# The civil calendar on day numbers

A date is the number of days since the first of January of year 1, in the Gregorian calendar
extended to all years.  `newDate` builds one from a year, a month index and a day, each of which
may lie outside its range; `getFullYear`, `getMonth` and `getDate` read the fields back
(`newDate_fields`, `fields_newDate`), and `getDay` is the day of the week.  Months count from 0.
-/

namespace Civil

def isLeap (y : ℤ) : Bool := y % 4 = 0 && (y % 100 ≠ 0 || y % 400 = 0)

def yearStart (y : ℤ) : ℤ := 365 * (y - 1) + (y - 1) / 4 - (y - 1) / 100 + (y - 1) / 400

def monthStart (y m : ℤ) : ℤ :=
  (367 * (m + 1) - 362) / 12 - (if m < 2 then 0 else if isLeap y then 1 else 2)

def daysInMonth (y m : ℤ) : ℤ := monthStart y (m + 1) - monthStart y m

/-- `new Date(year, month, day)`, with overflow from the days to the months to the years. -/
def newDate (year month day : ℤ) : ℤ :=
  yearStart (year + month / 12) + monthStart (year + month / 12) (month % 12) + (day - 1)

def getFullYear (n : ℤ) : ℤ :=
  let y := 400 * n / 146097 + 1
  if n < yearStart y then y - 1 else if yearStart (y + 1) ≤ n then y + 1 else y

def monthOfDay (y doy : ℤ) : ℤ :=
  let correction := if doy < monthStart y 2 then 0 else if isLeap y then 1 else 2
  (12 * (doy + correction) + 6) / 367

def getMonth (n : ℤ) : ℤ := monthOfDay (getFullYear n) (n - yearStart (getFullYear n))

def getDate (n : ℤ) : ℤ :=
  n - yearStart (getFullYear n) - monthStart (getFullYear n) (getMonth n) + 1

def getDay (n : ℤ) : ℤ := (n + 1) % 7

/-! ## Years -/

theorem isLeap_iff (y : ℤ) : isLeap y = true ↔ y % 4 = 0 ∧ (y % 100 ≠ 0 ∨ y % 400 = 0) := by
  simp [isLeap]

variable {y m d t : ℤ}

theorem isLeap_pred (h : isLeap y = true) : isLeap (y - 1) = false := by
  rw [isLeap_iff] at h
  rw [← Bool.not_eq_true, isLeap_iff]
  omega

theorem yearStart_succ (y : ℤ) : yearStart (y + 1) = yearStart y + (if isLeap y then 366 else 365) := by
  have hleap := isLeap_iff y
  unfold yearStart
  split
  · have := hleap.1 ‹_›
    omega
  · have : ¬ (y % 4 = 0 ∧ (y % 100 ≠ 0 ∨ y % 400 = 0)) := fun h => absurd (hleap.2 h) ‹_›
    omega

theorem yearStart_add_le {z : ℤ} (h : y < z) : yearStart (y + 1) ≤ yearStart z := by
  unfold yearStart
  omega

theorem yearStart_bounds (y : ℤ) :
    146097 * (y - 1) - 700 ≤ 400 * yearStart y ∧ 400 * yearStart y ≤ 146097 * (y - 1) + 400 := by
  unfold yearStart
  omega

theorem getFullYear_spec (n : ℤ) :
    yearStart (getFullYear n) ≤ n ∧ n < yearStart (getFullYear n + 1) := by
  have hq := Int.mul_ediv_add_emod (400 * n) 146097
  have hr := Int.emod_nonneg (400 * n) (show (146097 : ℤ) ≠ 0 by decide)
  have hr' := Int.emod_lt_of_pos (400 * n) (show (0 : ℤ) < 146097 by decide)
  have hprev := yearStart_bounds (400 * n / 146097)
  have hthis := yearStart_bounds (400 * n / 146097 + 1)
  have hnext := yearStart_bounds (400 * n / 146097 + 1 + 1)
  have hafter := yearStart_bounds (400 * n / 146097 + 1 + 1 + 1)
  unfold getFullYear
  dsimp only
  split
  · rw [show 400 * n / 146097 + 1 - 1 = 400 * n / 146097 by omega]
    omega
  · split <;> omega

theorem getFullYear_eq {n : ℤ} (h : yearStart y ≤ n) (h' : n < yearStart (y + 1)) :
    getFullYear n = y := by
  have hspec := getFullYear_spec n
  rcases Int.lt_trichotomy (getFullYear n) y with hlt | heq | hgt
  · have := yearStart_add_le hlt
    omega
  · exact heq
  · have := yearStart_add_le hgt
    omega

theorem getFullYear_mono {n : ℤ} (h : m ≤ n) : getFullYear m ≤ getFullYear n := by
  have hm := getFullYear_spec m
  have hn := getFullYear_spec n
  by_contra hlt
  have := yearStart_add_le (Int.not_le.1 hlt)
  omega

/-! ## Months -/

theorem monthStart_zero (y : ℤ) : monthStart y 0 = 0 := by
  unfold monthStart
  rw [if_pos (by decide)]
  decide

theorem monthStart_twelve (y : ℤ) : monthStart y 12 = if isLeap y then 366 else 365 := by
  unfold monthStart
  rw [if_neg (by decide)]
  split <;> decide

theorem daysInMonth_bounds (y : ℤ) (h : 0 ≤ m ∧ m < 12) :
    28 ≤ daysInMonth y m ∧ daysInMonth y m ≤ 31 := by
  unfold daysInMonth monthStart
  split_ifs <;> omega

theorem monthOfDay_spec (y : ℤ) {doy : ℤ} (h : 0 ≤ doy) (h' : doy < monthStart y 12) :
    (0 ≤ monthOfDay y doy ∧ monthOfDay y doy < 12) ∧ monthStart y (monthOfDay y doy) ≤ doy ∧
      doy < monthStart y (monthOfDay y doy + 1) := by
  rw [monthStart_twelve] at h'
  unfold monthOfDay monthStart
  dsimp only
  cases hleap : isLeap y <;>
    simp only [hleap, Bool.false_eq_true, if_false, if_true] at h' ⊢ <;> split_ifs <;> omega

theorem monthOfDay_eq (y : ℤ) (hm : 0 ≤ m ∧ m < 12) (hd : 1 ≤ d ∧ d ≤ daysInMonth y m) :
    monthOfDay y (monthStart y m + (d - 1)) = m := by
  unfold daysInMonth monthStart at hd
  unfold monthOfDay monthStart
  dsimp only
  cases hleap : isLeap y <;>
    simp only [hleap, Bool.false_eq_true, if_false, if_true] at hd ⊢ <;>
      split_ifs at hd ⊢ <;> omega

theorem monthStart_add_le (y : ℤ) (hm : 0 ≤ m ∧ m < 12) (hd : 1 ≤ d ∧ d ≤ daysInMonth y m) :
    0 ≤ monthStart y m + (d - 1) ∧ monthStart y m + (d - 1) < monthStart y 12 := by
  unfold daysInMonth monthStart at *
  split_ifs at hd ⊢ <;> omega

/-! ## Fields -/

theorem newDate_of_mem (hm : 0 ≤ m ∧ m < 12) (d : ℤ) :
    newDate y m d = yearStart y + (monthStart y m + (d - 1)) := by
  have hdiv : m / 12 = 0 := by omega
  have hmod : m % 12 = m := by omega
  rw [newDate, hdiv, hmod, Int.add_zero, Int.add_assoc]

theorem monthStart_twelve_eq (y : ℤ) : yearStart y + monthStart y 12 = yearStart (y + 1) := by
  rw [yearStart_succ, monthStart_twelve]

theorem newDate_fields (hm : 0 ≤ m ∧ m < 12) (hd : 1 ≤ d ∧ d ≤ daysInMonth y m) :
    getFullYear (newDate y m d) = y ∧ getMonth (newDate y m d) = m ∧
      getDate (newDate y m d) = d := by
  have hrange := monthStart_add_le y hm hd
  have htwelve := monthStart_twelve_eq y
  have hy : getFullYear (newDate y m d) = y := by
    rw [newDate_of_mem hm]
    apply getFullYear_eq <;> omega
  have hdoy : newDate y m d - yearStart y = monthStart y m + (d - 1) := by
    rw [newDate_of_mem hm]
    omega
  have hmonth : getMonth (newDate y m d) = m := by
    rw [getMonth, hy, hdoy, monthOfDay_eq y hm hd]
  refine ⟨hy, hmonth, ?_⟩
  rw [getDate, hy, hmonth, hdoy]
  omega

theorem getMonth_mem (n : ℤ) : 0 ≤ getMonth n ∧ getMonth n < 12 := by
  have hspec := getFullYear_spec n
  have htwelve := monthStart_twelve_eq (getFullYear n)
  exact (monthOfDay_spec (getFullYear n) (by omega) (by omega)).1

theorem getDate_mem (n : ℤ) :
    1 ≤ getDate n ∧ getDate n ≤ daysInMonth (getFullYear n) (getMonth n) := by
  have hspec := getFullYear_spec n
  have htwelve := monthStart_twelve_eq (getFullYear n)
  obtain ⟨-, hlo, hhi⟩ := monthOfDay_spec (getFullYear n)
    (show 0 ≤ n - yearStart (getFullYear n) by omega) (by omega)
  unfold getDate daysInMonth getMonth
  omega

theorem fields_newDate (n : ℤ) : newDate (getFullYear n) (getMonth n) (getDate n) = n := by
  rw [newDate_of_mem (getMonth_mem n), getDate]
  omega

theorem newDate_add (y m d k : ℤ) : newDate y m (d + k) = newDate y m d + k := by
  unfold newDate
  omega

/-! ## Months counted through the years -/

def monthIndex (n : ℤ) : ℤ := 12 * getFullYear n + getMonth n

def dateIn (t d : ℤ) : ℤ := newDate 0 t d

theorem newDate_eq_dateIn (y m d : ℤ) : newDate y m d = dateIn (12 * y + m) d := by
  have hdiv : (12 * y + m) / 12 = y + m / 12 := by omega
  have hmod : (12 * y + m) % 12 = m % 12 := by omega
  rw [dateIn, newDate, newDate, hdiv, hmod, Int.zero_add]

def lengthOf (t : ℤ) : ℤ := daysInMonth (t / 12) (t % 12)

theorem lengthOf_bounds (t : ℤ) : 28 ≤ lengthOf t ∧ lengthOf t ≤ 31 :=
  daysInMonth_bounds _ (by omega)

theorem dateIn_eq (t d : ℤ) : dateIn t d = newDate (t / 12) (t % 12) d := by
  rw [newDate_eq_dateIn]
  congr 1
  omega

theorem monthIndex_dateIn (hd : 1 ≤ d ∧ d ≤ lengthOf t) : monthIndex (dateIn t d) = t := by
  obtain ⟨hy, hm, -⟩ := newDate_fields (y := t / 12) (m := t % 12) (by omega) hd
  rw [monthIndex, dateIn_eq, hy, hm]
  omega

theorem getDate_dateIn (hd : 1 ≤ d ∧ d ≤ lengthOf t) : getDate (dateIn t d) = d := by
  rw [dateIn_eq]
  exact (newDate_fields (by omega) hd).2.2

theorem dateIn_getDate (n : ℤ) : dateIn (monthIndex n) (getDate n) = n := by
  rw [monthIndex, ← newDate_eq_dateIn, fields_newDate]

theorem monthIndex_div (n : ℤ) : monthIndex n / 12 = getFullYear n := by
  have hm := getMonth_mem n
  unfold monthIndex
  omega

theorem monthIndex_mod (n : ℤ) : monthIndex n % 12 = getMonth n := by
  have hm := getMonth_mem n
  unfold monthIndex
  omega

theorem getDate_mem_lengthOf (n : ℤ) : 1 ≤ getDate n ∧ getDate n ≤ lengthOf (monthIndex n) := by
  rw [lengthOf, monthIndex_div, monthIndex_mod]
  exact getDate_mem n

theorem lengthOf_february (h : t % 12 = 1) :
    lengthOf t = if isLeap (t / 12) then 29 else 28 := by
  rw [lengthOf, h]
  unfold daysInMonth monthStart
  cases isLeap (t / 12) <;> decide

theorem lengthOf_sub_twelve (h : t % 12 ≠ 1) : lengthOf (t - 12) = lengthOf t := by
  have hmod : (t - 12) % 12 = t % 12 := by omega
  unfold lengthOf daysInMonth monthStart
  rw [hmod]
  split_ifs <;> omega

theorem dateIn_succ (t : ℤ) : dateIn (t + 1) 1 = dateIn t (lengthOf t + 1) := by
  rw [dateIn_eq, dateIn_eq]
  rw [newDate_of_mem (by omega), newDate_of_mem (by omega), lengthOf, daysInMonth]
  by_cases hlast : t % 12 = 11
  · have hdiv : (t + 1) / 12 = t / 12 + 1 := by omega
    have hmod : (t + 1) % 12 = 0 := by omega
    have htwelve := monthStart_twelve_eq (t / 12)
    rw [hdiv, hmod, hlast, monthStart_zero]
    rw [show (11 : ℤ) + 1 = 12 by decide]
    omega
  · have hdiv : (t + 1) / 12 = t / 12 := by omega
    have hmod : (t + 1) % 12 = t % 12 + 1 := by omega
    rw [hdiv, hmod]
    omega

theorem dateIn_add (t d k : ℤ) : dateIn t (d + k) = dateIn t d + k := newDate_add ..

theorem dateIn_add_le {u : ℤ} (h : t ≤ u) : dateIn t 1 + 28 * (u - t) ≤ dateIn u 1 := by
  obtain ⟨k, rfl⟩ := Int.le.dest h
  induction k with
  | zero => simp
  | succ k ih =>
    have hstep := dateIn_succ (t + k)
    have hlen := lengthOf_bounds (t + k)
    have hadd := dateIn_add (t + k) 1 (lengthOf (t + k))
    have hk := ih (by omega)
    rw [show lengthOf (t + k) + 1 = 1 + lengthOf (t + k) by omega] at hstep
    push_cast
    rw [← Int.add_assoc]
    omega

theorem newDate_zero (y m : ℤ) :
    newDate y (m + 1) 0 = dateIn (12 * y + m) (lengthOf (12 * y + m)) := by
  have hzero := dateIn_add (12 * y + m + 1) 1 (-1)
  have hsucc := dateIn_succ (12 * y + m)
  have hback := dateIn_add (12 * y + m) (lengthOf (12 * y + m)) 1
  rw [newDate_eq_dateIn, ← Int.add_assoc, show (0 : ℤ) = 1 + -1 by decide]
  omega

theorem getDate_day_zero (y m : ℤ) : getDate (newDate y (m + 1) 0) = lengthOf (12 * y + m) := by
  have hlen := lengthOf_bounds (12 * y + m)
  rw [newDate_zero, getDate_dateIn (by omega)]

end Civil
