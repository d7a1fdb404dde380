import GnucashWeb.Imports.Cells
import GnucashWeb.Lib.Calendar
import GnucashWeb.Lib.IsoDate
import GnucashWeb.Lib.Transact
import GnucashWeb.Numbering.Format

/-!
# Budget periods

`computePeriodRanges` gives the first and the last day of each period of a budget as ISO keys, and
`shiftDateKeyOneYearBack` the keys of the year before.  `partitioned_iff`: the periods and those of
the year before partition the calendar, unless a later period starts on a leap day or on the first
of March of the year after one, or a key has no year from 1001 to 9999.
-/

namespace Budgets

open Civil

/-! ## Keys -/

/-- A `YYYY-MM-DD` key. -/
structure DateKey where
  day : ℤ
  fourDigit : FourDigit day

def DateKey.text (key : DateKey) : List Char := isoText key.day

/-- `parseInt(text, 10)`; none is `NaN`. -/
def parseInt (cs : List Char) : Option ℤ :=
  let s := cs.dropWhile Text.isSpace
  let negative := s.head? = some '-'
  let digits := (if s.head? = some '-' ∨ s.head? = some '+' then s.tail else s).takeWhile Char.isDigit
  if digits = [] then none
  else some (if negative then -(Imports.number digits : ℤ) else Imports.number digits)

structure DateParts where
  y : Option ℤ
  m : Option ℤ
  d : Option ℤ

/-- The numbers of `key.split('-')`. -/
def dateParts (key : List Char) : DateParts :=
  let parts := (Text.split '-' key).map parseInt
  ⟨parts[0]?.join, parts[1]?.join, parts[2]?.join⟩

/-- `String(n)`. -/
def numberText : Option ℤ → List Char
  | some n => Text.intDigits n
  | none => "NaN".toList

def pad2 (n : Option ℤ) : List Char := Numbering.padStart 2 '0' (numberText n)

/-- The year that `Date.UTC` takes a number for. -/
def utcYear (y : ℤ) : ℤ := if 0 ≤ y ∧ y ≤ 99 then 1900 + y else y

/-- The days that a `Date` can hold. -/
def IsDate (day : ℤ) : Prop := |day - newDate 1970 0 1| ≤ 100000000

instance (day : ℤ) : Decidable (IsDate day) := inferInstanceAs (Decidable (_ ≤ _))

/-- `new Date(Date.UTC(y, m, d))`; none is an invalid date. -/
def dateUTC (y m d : Option ℤ) : Option ℤ := do
  let day := newDate (utcYear (← y)) (← m) (← d)
  if IsDate day then some day else none

def shiftDateKeyOneYearBack (key : List Char) : List Char :=
  let parts := dateParts key
  let lastDay := (dateUTC (parts.y.map (· - 1)) parts.m (some 0)).map getDate
  let day := parts.d.bind fun d => lastDay.map fun last => min d last
  numberText (parts.y.map (· - 1)) ++ '-' :: pad2 parts.m ++ '-' :: pad2 day

/-! ## Ranges -/

structure BudgetRecurrence where
  periodType : List Char
  mult : ℤ
  periodStart : DateKey

structure PeriodRange where
  periodNum : ℕ
  startKey : List Char
  endKey : List Char
  label : List Char

inductive PeriodLength
  | months (n : ℤ)
  | days (n : ℤ)

def PeriodLength.count : PeriodLength → ℤ
  | months n => n
  | days n => n

section Ranges

variable (toLowerCase : List Char → List Char)

def BudgetRecurrence.length (recurrence : BudgetRecurrence) : PeriodLength :=
  let type := toLowerCase
    (if recurrence.periodType = [] then "month".toList else recurrence.periodType)
  let mult := max 1 (if recurrence.mult = 0 then 1 else recurrence.mult)
  if type = "year".toList then .months (12 * mult)
  else if type = "week".toList then .days (7 * mult)
  else if type = "day".toList then .days mult
  else .months mult

def MONTHS : List String :=
  ["Jan", "Feb", "Mar", "Apr", "May", "Jun", "Jul", "Aug", "Sep", "Oct", "Nov", "Dec"]

/-- `MONTHS[m - 1]`. -/
def monthName (m : Option ℤ) : List Char :=
  ((m.bind fun m => if 1 ≤ m then MONTHS[(m - 1).toNat]? else none).getD "undefined").toList

def labelForRange (startKey endKey : List Char) (length : PeriodLength) : List Char :=
  let s := dateParts startKey
  let e := dateParts endKey
  match length with
  | .days _ => startKey ++ " – ".toList ++ endKey
  | .months n =>
    if n = 1 then monthName s.m ++ ' ' :: numberText s.y
    else if n = 12 ∧ s.m = some 1 then numberText s.y
    else if s.y = e.y ∧ s.y.isSome then
      monthName s.m ++ '–' :: monthName e.m ++ ' ' :: numberText s.y
    else
      monthName s.m ++ ' ' :: numberText s.y ++ " – ".toList ++ monthName e.m ++ ' ' ::
        numberText e.y

/-- The first and the last day of a period; none when one is an invalid date. -/
def periodDays (parts : DateParts) (length : PeriodLength) (i : ℕ) : Option (ℤ × ℤ) :=
  match length with
  | .months n => do
      let start ← dateUTC parts.y (parts.m.map fun m => m - 1 + i * n) (some 1)
      let finish ← dateUTC parts.y (parts.m.map fun m => m - 1 + (i + 1) * n) (some 0)
      return (start, finish)
  | .days n => do
      let m := parts.m.map (· - 1)
      let start ← dateUTC parts.y m (parts.d.map fun d => d + i * n)
      let finish ← dateUTC parts.y m (parts.d.map fun d => d + (i + 1) * n - 1)
      return (start, finish)

/-- The ranges of the periods; none when a date is invalid, which throws. -/
def computePeriodRanges (recurrence : BudgetRecurrence) (numPeriods : ℕ) :
    Option (List PeriodRange) :=
  let length := recurrence.length toLowerCase
  (List.range numPeriods).mapM fun i =>
    (periodDays (dateParts recurrence.periodStart.text) length i).map fun (start, finish) =>
      ⟨i, isoText start, isoText finish, labelForRange (isoText start) (isoText finish) length⟩

def priorRange (r : PeriodRange) : PeriodRange :=
  { r with
    startKey := shiftDateKeyOneYearBack r.startKey
    endKey := shiftDateKeyOneYearBack r.endKey }

def PeriodRange.Holds (r : PeriodRange) (key : List Char) : Prop :=
  r.startKey ≤ key ∧ key ≤ r.endKey

instance (r : PeriodRange) (key : List Char) : Decidable (r.Holds key) :=
  inferInstanceAs (Decidable (_ ∧ _))

def findCurrentPeriodNum (ranges : List PeriodRange) (asOf : List Char) : Option ℕ :=
  (ranges.find? fun r => r.Holds asOf).map PeriodRange.periodNum

end Ranges

/-! ## Reading keys -/

theorem digits_eq_pad (w n : ℕ) : digits w n = Calendar.pad w n := by
  induction w generalizing n with
  | zero => rfl
  | succ w ih => rw [digits, Calendar.pad, ih]

theorem isDigit_of_mem_digits {w n : ℕ} {c : Char} (h : c ∈ digits w n) : c.isDigit = true :=
  Calendar.isDigit_of_mem_pad (digits_eq_pad w n ▸ h)

theorem parseInt_digits {w n : ℕ} (hn : n < 10 ^ (w + 1)) :
    parseInt (digits (w + 1) n) = some (n : ℤ) := by
  have hdigit : ∀ c ∈ digits (w + 1) n, c.isDigit = true := fun c => isDigit_of_mem_digits
  have hspace : (digits (w + 1) n).dropWhile Text.isSpace = digits (w + 1) n :=
    Text.dropWhile_isSpace_eq fun c hc =>
      Text.isSpace_of_isDigit (hdigit c (List.mem_of_mem_head? hc))
  have hhead : ∀ c : Char, c.isDigit = false → (digits (w + 1) n).head? ≠ some c := by
    intro c hc heq
    exact absurd (hdigit c (List.mem_of_mem_head? heq)) (by simp [hc])
  have htake : (digits (w + 1) n).takeWhile Char.isDigit = digits (w + 1) n :=
    List.takeWhile_eq_self_iff.2 hdigit
  have hne : digits (w + 1) n ≠ [] := by simp [digits]
  unfold parseInt
  dsimp only
  rw [hspace, if_neg (not_or.2 ⟨hhead '-' (by decide), hhead '+' (by decide)⟩), htake, if_neg hne,
    if_neg (hhead '-' (by decide)), Imports.number, digits_eq_pad, Calendar.ofDigitChars_pad hn]

theorem minus_notMem_digits (w n : ℕ) : '-' ∉ digits w n := fun h =>
  absurd (isDigit_of_mem_digits h) (by decide)

theorem dateParts_isoText {d : ℤ} (hd : FourDigit d) :
    dateParts (isoText d) = ⟨some (getFullYear d), some (getMonth d + 1), some (getDate d)⟩ := by
  have hm := getMonth_mem d
  have hdate := getDate_mem_lengthOf d
  have hlen := lengthOf_bounds (monthIndex d)
  have hsplit : Text.split '-' (isoText d) =
      [digits 4 (getFullYear d).toNat, digits 2 (getMonth d + 1).toNat,
        digits 2 (getDate d).toNat] := by
    rw [isoText, if_pos hd, monthDayText, Text.split,
      List.splitOn_append_cons_self_of_not_mem (minus_notMem_digits _ _),
      List.splitOn_append_cons_self_of_not_mem (minus_notMem_digits _ _),
      List.splitOn_eq_singleton (minus_notMem_digits _ _)]
  obtain ⟨h₀, h₁⟩ := hd
  unfold dateParts
  rw [hsplit]
  simp only [List.map_cons, List.map_nil]
  rw [parseInt_digits (by omega), parseInt_digits (by omega), parseInt_digits (by omega),
    Int.toNat_of_nonneg h₀, Int.toNat_of_nonneg (by omega), Int.toNat_of_nonneg (by omega)]
  rfl

section Ranges

variable (toLowerCase : List Char → List Char) (recurrence : BudgetRecurrence)

/-- The first day of a period: so many whole months after the month of the start, or so many days
after the start. -/
def firstDay (i : ℕ) : ℤ :=
  let start := recurrence.periodStart.day
  match recurrence.length toLowerCase with
  | .months n => newDate (utcYear (getFullYear start)) (getMonth start + i * n) 1
  | .days n => newDate (utcYear (getFullYear start)) (getMonth start) (getDate start + i * n)

theorem length_pos : 1 ≤ (recurrence.length toLowerCase).count := by
  have hmult : 1 ≤ max 1 (if recurrence.mult = 0 then 1 else recurrence.mult) := le_max_left _ _
  unfold BudgetRecurrence.length
  generalize max 1 (if recurrence.mult = 0 then 1 else recurrence.mult) = mult at hmult ⊢
  dsimp only
  split_ifs <;> simp only [PeriodLength.count] <;> omega

theorem firstDay_lt_succ (i : ℕ) :
    firstDay toLowerCase recurrence i < firstDay toLowerCase recurrence (i + 1) := by
  have hpos := length_pos toLowerCase recurrence
  unfold firstDay
  generalize recurrence.length toLowerCase = length at hpos ⊢
  cases length with
  | months n =>
    change 1 ≤ n at hpos
    have hle := dateIn_add_le (show
        12 * utcYear (getFullYear recurrence.periodStart.day) +
            (getMonth recurrence.periodStart.day + i * n) ≤
          12 * utcYear (getFullYear recurrence.periodStart.day) +
            (getMonth recurrence.periodStart.day + (i + 1 : ℕ) * n) by
      push_cast
      nlinarith)
    dsimp only
    rw [newDate_eq_dateIn, newDate_eq_dateIn]
    push_cast at hle ⊢
    nlinarith
  | days n =>
    change 1 ≤ n at hpos
    dsimp only
    rw [newDate_add, newDate_add]
    push_cast
    nlinarith

theorem periodDays_eq (i : ℕ) :
    periodDays (dateParts recurrence.periodStart.text) (recurrence.length toLowerCase) i =
      if IsDate (firstDay toLowerCase recurrence i) ∧
          IsDate (firstDay toLowerCase recurrence (i + 1) - 1) then
        some (firstDay toLowerCase recurrence i, firstDay toLowerCase recurrence (i + 1) - 1)
      else none := by
  rw [DateKey.text, dateParts_isoText recurrence.periodStart.fourDigit]
  unfold periodDays firstDay dateUTC
  dsimp only
  cases recurrence.length toLowerCase with
  | months n =>
    have hlast (y m : ℤ) : newDate y m 0 = newDate y m 1 - 1 := by
      simpa [sub_eq_add_neg] using newDate_add y m 1 (-1)
    simp only [Option.map_some, Option.bind_eq_bind, Option.bind_some, hlast,
      add_sub_cancel_right, Nat.cast_add, Nat.cast_one]
    split_ifs <;> simp_all
  | days n =>
    have hlast (y m d : ℤ) : newDate y m (d - 1) = newDate y m d - 1 := newDate_add y m d (-1)
    simp only [Option.map_some, Option.bind_eq_bind, Option.bind_some, hlast,
      add_sub_cancel_right, Nat.cast_add, Nat.cast_one]
    split_ifs <;> simp_all

end Ranges

/-! ## The year before -/

/-- The same day of the year before, the last of February for a leap day. -/
def priorDay (d : ℤ) : ℤ :=
  dateIn (monthIndex d - 12) (min (getDate d) (lengthOf (monthIndex d - 12)))

theorem priorDay_fields (d : ℤ) :
    monthIndex (priorDay d) = monthIndex d - 12 ∧
      getDate (priorDay d) = min (getDate d) (lengthOf (monthIndex d - 12)) := by
  have hd := getDate_mem_lengthOf d
  have hlen := lengthOf_bounds (monthIndex d - 12)
  have hmem : 1 ≤ min (getDate d) (lengthOf (monthIndex d - 12)) ∧
      min (getDate d) (lengthOf (monthIndex d - 12)) ≤ lengthOf (monthIndex d - 12) :=
    ⟨le_min hd.1 (by omega), min_le_right _ _⟩
  exact ⟨monthIndex_dateIn hmem, getDate_dateIn hmem⟩

theorem getFullYear_priorDay (d : ℤ) :
    getFullYear (priorDay d) = getFullYear d - 1 ∧ getMonth (priorDay d) = getMonth d := by
  have hfields := (priorDay_fields d).1
  have hdiv := monthIndex_div (priorDay d)
  have hmod := monthIndex_mod (priorDay d)
  have hdiv' := monthIndex_div d
  have hmod' := monthIndex_mod d
  rw [hfields] at hdiv hmod
  omega

theorem isDate_of_year {d : ℤ} (h : 0 ≤ getFullYear d ∧ getFullYear d ≤ 9999) : IsDate d := by
  have hspec := getFullYear_spec d
  have hlow := yearStart_bounds (getFullYear d)
  have hhigh := yearStart_bounds (getFullYear d + 1)
  have hepoch : newDate 1970 0 1 = 719162 := by decide
  rw [IsDate, hepoch, abs_le]
  omega

theorem natDigits_eq_digits {n : ℕ} (h : 1000 ≤ n) (h' : n ≤ 9999) :
    Text.natDigits n = digits 4 n := by
  have hlast : n / 10 / 10 / 10 < 10 := by omega
  rw [Text.natDigits, Nat.toDigits_of_base_le (by decide) (by omega),
    Nat.toDigits_of_base_le (by decide) (by omega), Nat.toDigits_of_base_le (by decide) (by omega),
    Nat.toDigits_of_lt_base hlast]
  simp [digits, Nat.mod_eq_of_lt hlast]

theorem pad2_eq_digits {n : ℤ} (h : 1 ≤ n) (h' : n ≤ 31) :
    pad2 (some n) = digits 2 n.toNat := by
  obtain ⟨k, rfl⟩ := Int.eq_ofNat_of_zero_le (show 0 ≤ n by omega)
  have hk : 1 ≤ k ∧ k ≤ 31 := by omega
  rw [Int.toNat_natCast]
  obtain ⟨h₁, h₂⟩ := hk
  interval_cases k <;> decide

theorem lastDay_prior {d : ℤ} (h : 1001 ≤ getFullYear d) (h' : getFullYear d ≤ 9999) :
    (dateUTC (some (getFullYear d - 1)) (some (getMonth d + 1)) (some 0)).map getDate =
      some (lengthOf (monthIndex d - 12)) := by
  have hindex : 12 * (getFullYear d - 1) + getMonth d = monthIndex d - 12 := by
    unfold monthIndex
    omega
  have hzero := newDate_zero (getFullYear d - 1) (getMonth d)
  have hlen := lengthOf_bounds (monthIndex d - 12)
  rw [hindex] at hzero
  have hyear : getFullYear (newDate (getFullYear d - 1) (getMonth d + 1) 0) = getFullYear d - 1 := by
    rw [← monthIndex_div, hzero, monthIndex_dateIn (by omega), ← hindex]
    have hm := getMonth_mem d
    omega
  have hutc : utcYear (getFullYear d - 1) = getFullYear d - 1 := if_neg (by omega)
  have hdate : IsDate (newDate (getFullYear d - 1) (getMonth d + 1) 0) :=
    isDate_of_year (by omega)
  change Option.map getDate (if IsDate (newDate (utcYear (getFullYear d - 1)) (getMonth d + 1) 0)
    then some _ else none) = _
  rw [hutc, if_pos hdate, Option.map_some, hzero, getDate_dateIn (by omega)]

theorem shiftDateKeyOneYearBack_isoText {d : ℤ} (h : 1001 ≤ getFullYear d)
    (h' : getFullYear d ≤ 9999) : shiftDateKeyOneYearBack (isoText d) = isoText (priorDay d) := by
  have hd := getDate_mem_lengthOf d
  have hm := getMonth_mem d
  have hlen := lengthOf_bounds (monthIndex d)
  have hlen' := lengthOf_bounds (monthIndex d - 12)
  obtain ⟨hyear, hmonth⟩ := getFullYear_priorDay d
  have hdate := (priorDay_fields d).2
  have hfour : FourDigit (priorDay d) := ⟨by omega, by omega⟩
  have hyears : numberText (some (getFullYear d - 1)) = digits 4 (getFullYear d - 1).toNat := by
    obtain ⟨k, hk⟩ := Int.eq_ofNat_of_zero_le (show 0 ≤ getFullYear d - 1 by omega)
    rw [hk, Int.toNat_natCast]
    exact natDigits_eq_digits (by omega) (by omega)
  unfold shiftDateKeyOneYearBack
  rw [dateParts_isoText ⟨by omega, h'⟩]
  dsimp only [Option.map_some, Option.bind_some]
  rw [lastDay_prior h h', Option.map_some, hyears, pad2_eq_digits (by omega) (by omega),
    pad2_eq_digits (le_min hd.1 (by omega)) (min_le_left _ _ |>.trans (by omega)), isoText,
    if_pos hfour, monthDayText, hyear, hmonth, hdate, List.append_assoc]
  rfl

theorem nan_notMem_isoText (d : ℤ) : 'N' ∉ isoText d := by
  have hdigits (w n : ℕ) : 'N' ∉ digits w n := fun h => absurd (isDigit_of_mem_digits h) (by decide)
  have htext : 'N' ∉ monthDayText d := by
    unfold monthDayText
    simp [hdigits]
  unfold isoText
  split
  · simp [hdigits, htext]
  · refine fun h => ?_
    have hmem := List.mem_of_mem_take h
    rw [List.mem_cons, List.mem_append] at hmem
    rcases hmem with hsign | hmem | hmem
    · split at hsign <;> exact absurd hsign (by decide)
    · exact hdigits _ _ hmem
    · exact htext hmem

theorem shift_ne_of_day_none {key : List Char} (h : (dateParts key).d = none) (e : ℤ) :
    shiftDateKeyOneYearBack key ≠ isoText e := by
  intro heq
  refine nan_notMem_isoText e (heq ▸ ?_)
  unfold shiftDateKeyOneYearBack
  dsimp only
  rw [h]
  exact List.mem_append_right _ (List.mem_cons_of_mem _ (show 'N' ∈ pad2 none by decide))

theorem dateParts_isoText_d {d : ℤ} (h : 10000 ≤ getFullYear d) :
    (dateParts (isoText d)).d = none := by
  have hfour : ¬FourDigit d := fun hd => by
    have := hd.2
    omega
  have htext : isoText d =
      ('+' :: digits 6 (getFullYear d).natAbs) ++ '-' :: digits 2 (getMonth d + 1).toNat := by
    rw [isoText, if_neg hfour, if_pos (by omega), monthDayText, ← List.cons_append,
      List.take_append, List.take_of_length_le (by simp), List.length_cons, length_digits,
      List.take_succ_cons, List.take_append, List.take_of_length_le (by simp)]
    simp
  have hsign : '-' ∉ '+' :: digits 6 (getFullYear d).natAbs := by
    rw [List.mem_cons, not_or]
    exact ⟨by decide, minus_notMem_digits _ _⟩
  have hsplit : Text.split '-' (isoText d) =
      ['+' :: digits 6 (getFullYear d).natAbs, digits 2 (getMonth d + 1).toNat] := by
    rw [htext, Text.split, List.splitOn_append_cons_self_of_not_mem hsign,
      List.splitOn_eq_singleton (minus_notMem_digits _ _)]
  unfold dateParts
  rw [hsplit]
  rfl

theorem shift_ne_of_year_le {d : ℤ} (hd : FourDigit d) (h : getFullYear d ≤ 1000) (e : ℤ) :
    shiftDateKeyOneYearBack (isoText d) ≠ isoText e := by
  have hm := getMonth_mem d
  have hdate := getDate_mem_lengthOf d
  have hlen := lengthOf_bounds (monthIndex d)
  have hpad {n : ℤ} (h : 1 ≤ n) (h' : n ≤ 31) : (pad2 (some n)).length = 2 := by
    rw [pad2_eq_digits h h', length_digits]
  have hyear : (numberText (some (getFullYear d - 1))).length ≤ 3 := by
    obtain ⟨h₀, -⟩ := hd
    by_cases hzero : getFullYear d = 0
    · rw [hzero]
      decide
    · obtain ⟨k, hk⟩ := Int.eq_ofNat_of_zero_le (show 0 ≤ getFullYear d - 1 by omega)
      rw [hk]
      exact (Nat.length_toDigits_le_iff (by decide) (by decide)).2 (by omega)
  intro heq
  have hcount := congrArg List.length heq
  rw [length_isoText] at hcount
  unfold shiftDateKeyOneYearBack at heq hcount
  rw [dateParts_isoText hd] at heq hcount
  dsimp only [Option.map_some, Option.bind_some] at heq hcount
  cases hlast : (dateUTC (some (getFullYear d - 1)) (some (getMonth d + 1)) (some 0)).map getDate with
  | none =>
    rw [hlast] at heq
    refine nan_notMem_isoText e (heq ▸ ?_)
    exact List.mem_append_right _ (List.mem_cons_of_mem _ (show 'N' ∈ pad2 none by decide))
  | some last =>
    rw [hlast] at hcount
    have hlast' : 1 ≤ last := by
      obtain ⟨day, -, rfl⟩ := Option.map_eq_some_iff.1 hlast
      exact (getDate_mem_lengthOf day).1
    simp only [Option.map_some, List.length_append, List.length_cons] at hcount
    rw [hpad (by omega) (by omega), hpad (le_min hdate.1 hlast') (min_le_left _ _ |>.trans
      (by omega))] at hcount
    omega

/-- The days of two neighbouring periods, a year back, stay neighbours unless the second starts on
a leap day or on the first of March of the year after one. -/
def LosesLeapDay (day : ℤ) : Prop :=
  getMonth day = 1 ∧ getDate day = 29 ∨
    getMonth day = 2 ∧ getDate day = 1 ∧ isLeap (getFullYear day - 1) = true

instance (day : ℤ) : Decidable (LosesLeapDay day) := inferInstanceAs (Decidable (_ ∨ _))

theorem dateIn_eq_succ_iff {t d e : ℤ} : dateIn t d = dateIn t e + 1 ↔ d = e + 1 := by
  have hd := dateIn_add t 1 (d - 1)
  have he := dateIn_add t 1 (e - 1)
  rw [show 1 + (d - 1) = d by omega] at hd
  rw [show 1 + (e - 1) = e by omega] at he
  omega

theorem priorDay_succ_iff (d : ℤ) :
    priorDay (d + 1) = priorDay d + 1 ↔ ¬LosesLeapDay (d + 1) := by
  have hd := getDate_mem_lengthOf d
  have hlen := lengthOf_bounds (monthIndex d)
  have hlen' := lengthOf_bounds (monthIndex d - 12)
  have hday := dateIn_getDate d
  have hdiv := monthIndex_div d
  have hmod := monthIndex_mod d
  have hfeb (t : ℤ) (h : t % 12 = 1) := lengthOf_february h
  rcases lt_or_eq_of_le hd.2 with hinside | hend
  · have hnext : d + 1 = dateIn (monthIndex d) (getDate d + 1) := by rw [dateIn_add, hday]
    have hmem : 1 ≤ getDate d + 1 ∧ getDate d + 1 ≤ lengthOf (monthIndex d) := by omega
    have hindex : monthIndex (d + 1) = monthIndex d := by rw [hnext, monthIndex_dateIn hmem]
    have hdate : getDate (d + 1) = getDate d + 1 := by rw [hnext, getDate_dateIn hmem]
    have hmonth : getMonth (d + 1) = getMonth d := by
      rw [← monthIndex_mod, hindex, hmod]
    unfold priorDay
    rw [hindex, hdate, dateIn_eq_succ_iff]
    unfold LosesLeapDay
    rw [hmonth, hdate, or_iff_left (by rintro ⟨-, hone, -⟩; omega)]
    by_cases hfebruary : monthIndex d % 12 = 1
    · have h₁ := hfeb _ hfebruary
      have h₂ := hfeb (monthIndex d - 12) (by omega)
      have hprev : (monthIndex d - 12) / 12 = monthIndex d / 12 - 1 := by omega
      rw [hprev] at h₂
      cases hleap : isLeap (monthIndex d / 12) with
      | true =>
        rw [hleap, if_pos rfl] at h₁
        rw [isLeap_pred hleap, if_neg Bool.false_ne_true] at h₂
        omega
      | false =>
        rw [hleap, if_neg Bool.false_ne_true] at h₁
        have := lengthOf_bounds (monthIndex d - 12)
        split_ifs at h₂ <;> omega
    · have hsame := lengthOf_sub_twelve hfebruary
      omega
  · have hnext : d + 1 = dateIn (monthIndex d + 1) 1 := by
      rw [dateIn_succ, dateIn_add, ← hend, hday]
    have hlen'' := lengthOf_bounds (monthIndex d + 1)
    have hmem : (1 : ℤ) ≤ 1 ∧ 1 ≤ lengthOf (monthIndex d + 1) := by omega
    have hindex : monthIndex (d + 1) = monthIndex d + 1 := by rw [hnext, monthIndex_dateIn hmem]
    have hdate : getDate (d + 1) = 1 := by rw [hnext, getDate_dateIn hmem]
    have hmonth : getMonth (d + 1) = (monthIndex d + 1) % 12 := by rw [← monthIndex_mod, hindex]
    have hyear : getFullYear (d + 1) = (monthIndex d + 1) / 12 := by rw [← monthIndex_div, hindex]
    have hfirst : dateIn (monthIndex d + 1 - 12) 1 =
        dateIn (monthIndex d - 12) (lengthOf (monthIndex d - 12) + 1) := by
      rw [← dateIn_succ]
      congr 1
      omega
    have hlen₃ := lengthOf_bounds (monthIndex d + 1 - 12)
    unfold priorDay
    rw [hindex, hdate, min_eq_left (show (1 : ℤ) ≤ lengthOf (monthIndex d + 1 - 12) by omega),
      hfirst, dateIn_eq_succ_iff, hend]
    unfold LosesLeapDay
    rw [hmonth, hdate, hyear]
    by_cases hfebruary : monthIndex d % 12 = 1
    · have h₁ := hfeb _ hfebruary
      have h₂ := hfeb (monthIndex d - 12) (by omega)
      have hprev : (monthIndex d + 1) / 12 - 1 = (monthIndex d - 12) / 12 := by omega
      rw [hprev]
      unfold isLeap at h₁ h₂ ⊢
      split_ifs at h₁ h₂ <;> simp_all <;> omega
    · have hsame := lengthOf_sub_twelve hfebruary
      omega

theorem priorDay_mono {d e : ℤ} (h : d ≤ e) : priorDay d ≤ priorDay e := by
  obtain ⟨hd, hd'⟩ := priorDay_fields d
  obtain ⟨he, he'⟩ := priorDay_fields e
  rcases h.lt_or_eq with hlt | rfl
  · rcases (lt_iff_fields d e).1 hlt with hindex | ⟨hindex, hdate⟩
    · exact ((lt_iff_fields _ _).2 (.inl (by omega))).le
    · by_contra hgt
      rcases (lt_iff_fields _ _).1 (not_le.1 hgt) with hindex' | ⟨-, hdate'⟩
      · omega
      · rw [hindex] at hd'
        omega
  · exact le_rfl

/-! ## Partitions -/

/-- The ranges are those of days that follow each other, each day from the first to the last lies in
exactly one, and no other day lies in any. -/
def Partition (ranges : List PeriodRange) : Prop :=
  ∃ days : List (ℤ × ℤ),
    (ranges.map fun r => (r.startKey, r.endKey)) =
        (days.map fun d => (isoText d.1, isoText d.2)) ∧
      (∀ d ∈ days, d.1 ≤ d.2) ∧
      (∀ i a b, days[i]? = some a → days[i + 1]? = some b → b.1 = a.2 + 1) ∧
      ∀ a ∈ days.head?, ∀ b ∈ days.getLast?, ∀ day,
        (a.1 ≤ day → day ≤ b.2 → ∃! i : ℕ, ∃ r ∈ ranges[i]?, r.Holds (isoText day)) ∧
          ∀ r ∈ ranges, r.Holds (isoText day) → a.1 ≤ day ∧ day ≤ b.2

section Starts

variable {n : ℕ} {s : ℕ → ℤ}

theorem le_of_steps (hs : ∀ i < n, s i < s (i + 1)) {i j : ℕ} (hij : i ≤ j) (hj : j ≤ n) :
    s i ≤ s j := by
  induction j with
  | zero => rw [Nat.le_zero.1 hij]
  | succ j ih =>
    rcases Nat.le_succ_iff.1 hij with hle | rfl
    · exact (ih hle (by omega)).trans (hs j (by omega)).le
    · exact le_rfl

theorem exists_index (n : ℕ) (s : ℕ → ℤ) {day : ℤ} (h₀ : s 0 ≤ day) (h₁ : day < s n) :
    ∃ i < n, s i ≤ day ∧ day < s (i + 1) := by
  induction n with
  | zero => omega
  | succ n ih =>
    by_cases hday : day < s n
    · obtain ⟨i, hi, hmem⟩ := ih hday
      exact ⟨i, by omega, hmem⟩
    · exact ⟨n, by omega, not_lt.1 hday, h₁⟩

theorem getElem?_map_range {α : Type} {f : ℕ → α} {i : ℕ} {x : α} :
    ((List.range n).map f)[i]? = some x ↔ i < n ∧ f i = x := by
  rw [List.getElem?_map, Option.map_eq_some_iff]
  constructor
  · rintro ⟨k, hk, rfl⟩
    obtain ⟨hi, hk⟩ := List.getElem?_eq_some_iff.1 hk
    rw [List.getElem_range] at hk
    rw [List.length_range] at hi
    exact ⟨hi, by rw [hk]⟩
  · rintro ⟨hi, rfl⟩
    exact ⟨i, List.getElem?_range hi, rfl⟩

theorem holds_iff {ranges : List PeriodRange} (hs : ∀ i < n, s i < s (i + 1))
    (hfirst : FourDigit (s 0)) (hlast : FourDigit (s n - 1))
    (hranges : (ranges.map fun r => (r.startKey, r.endKey)) =
      (List.range n).map fun i => (isoText (s i), isoText (s (i + 1) - 1))) {i : ℕ} {day : ℤ} :
    (∃ r ∈ ranges[i]?, r.Holds (isoText day)) ↔ i < n ∧ s i ≤ day ∧ day < s (i + 1) := by
  have hget : (ranges[i]?.map fun r => (r.startKey, r.endKey)) =
      ((List.range n).map fun i => (isoText (s i), isoText (s (i + 1) - 1)))[i]? := by
    rw [← hranges, List.getElem?_map]
  have hiff (hi : i < n) : (isoText (s i) ≤ isoText day ∧ isoText day ≤ isoText (s (i + 1) - 1)) ↔
      s i ≤ day ∧ day < s (i + 1) := by
    have h₀ := le_of_steps hs (Nat.zero_le i) hi.le
    have h₁ := le_of_steps hs (show i + 1 ≤ n by omega) le_rfl
    have hstep := hs i hi
    have hstart := fourDigit_of_mem hfirst hlast h₀ (by omega)
    have hend := fourDigit_of_mem hfirst hlast (show s 0 ≤ s (i + 1) - 1 by omega) (by omega)
    by_cases hday : FourDigit day
    · rw [isoText_le_iff hstart hday, isoText_le_iff hday hend]
      omega
    · refine iff_of_false (fun h => ?_) fun h => hday (fourDigit_of_mem hstart hend h.1 (by omega))
      exact not_le.2 (isoText_lt_of_not_fourDigit hday hstart) h.1
  constructor
  · rintro ⟨r, hr, hstart, hend⟩
    rw [Option.mem_def.1 hr, Option.map_some, eq_comm, getElem?_map_range] at hget
    obtain ⟨hi, heq⟩ := hget
    rw [← (Prod.mk.inj heq).1] at hstart
    rw [← (Prod.mk.inj heq).2] at hend
    exact ⟨hi, (hiff hi).1 ⟨hstart, hend⟩⟩
  · rintro ⟨hi, hmem⟩
    rw [getElem?_map_range.2 ⟨hi, rfl⟩] at hget
    obtain ⟨r, hr, heq⟩ := Option.map_eq_some_iff.1 hget
    refine ⟨r, hr, ?_⟩
    rw [PeriodRange.Holds, (Prod.mk.inj heq).1, (Prod.mk.inj heq).2]
    exact (hiff hi).2 hmem

theorem partition_of_starts {ranges : List PeriodRange} (hs : ∀ i < n, s i < s (i + 1))
    (hfour : 0 < n → FourDigit (s 0) ∧ FourDigit (s n - 1))
    (hranges : (ranges.map fun r => (r.startKey, r.endKey)) =
      (List.range n).map fun i => (isoText (s i), isoText (s (i + 1) - 1))) :
    Partition ranges := by
  refine ⟨(List.range n).map fun i => (s i, s (i + 1) - 1), by rw [hranges, List.map_map]; rfl,
    ?_, ?_, ?_⟩
  · intro d hd
    obtain ⟨i, hi, rfl⟩ := List.mem_map.1 hd
    have := hs i (List.mem_range.1 hi)
    dsimp only
    omega
  · intro i a b ha hb
    obtain ⟨-, rfl⟩ := getElem?_map_range.1 ha
    obtain ⟨-, rfl⟩ := getElem?_map_range.1 hb
    dsimp only
    omega
  · intro a ha b hb day
    rw [Option.mem_def, List.head?_eq_getElem?, getElem?_map_range] at ha
    rw [Option.mem_def, List.getLast?_eq_getElem?, List.length_map, List.length_range,
      getElem?_map_range] at hb
    obtain ⟨hn, rfl⟩ := ha
    obtain ⟨-, rfl⟩ := hb
    dsimp only
    rw [Nat.sub_add_cancel hn]
    obtain ⟨hfirst, hlast⟩ := hfour hn
    have hholds (i : ℕ) : (∃ r ∈ ranges[i]?, r.Holds (isoText day)) ↔
        i < n ∧ s i ≤ day ∧ day < s (i + 1) := holds_iff hs hfirst hlast hranges
    constructor
    · intro had hdb
      obtain ⟨i, hi, hmem⟩ := exists_index n s had (by omega)
      refine ⟨i, (hholds i).2 ⟨hi, hmem⟩, fun j hj => ?_⟩
      obtain ⟨hj, hmem'⟩ := (hholds j).1 hj
      rcases lt_trichotomy i j with hlt | heq | hgt
      · have := le_of_steps hs (show i + 1 ≤ j by omega) hj.le
        omega
      · exact heq.symm
      · have := le_of_steps hs (show j + 1 ≤ i by omega) hi.le
        omega
    · intro r hr hin
      obtain ⟨i, hi, rfl⟩ := List.getElem_of_mem hr
      obtain ⟨hi, hmem⟩ := (hholds i).1 ⟨_, List.getElem?_eq_getElem hi, hin⟩
      have h₀ := le_of_steps hs (Nat.zero_le i) hi.le
      have h₁ := le_of_steps hs (show i + 1 ≤ n by omega) le_rfl
      omega

end Starts

/-! ## The ranges of a budget -/

section Ranges

variable {toLowerCase : List Char → List Char} {recurrence : BudgetRecurrence} {n : ℕ}

theorem keys_computePeriodRanges {ranges : List PeriodRange}
    (h : computePeriodRanges toLowerCase recurrence n = some ranges) :
    (ranges.map fun r => (r.startKey, r.endKey)) = (List.range n).map fun i =>
      (isoText (firstDay toLowerCase recurrence i),
        isoText (firstDay toLowerCase recurrence (i + 1) - 1)) := by
  have hall := Transact.forall₂_of_mapM_eq_some h
  refine Eq.symm ((List.forall₂_eq_eq_eq (α := List Char × List Char)) ▸ ?_)
  rw [List.forall₂_map_left_iff, List.forall₂_map_right_iff]
  refine hall.imp fun i r hr => ?_
  obtain ⟨days, hdays, rfl⟩ := Option.map_eq_some_iff.1 hr
  rw [periodDays_eq] at hdays
  split at hdays
  · rw [← Option.some.inj hdays]
  · cases hdays

theorem getElem?_computePeriodRanges {ranges : List PeriodRange}
    (h : computePeriodRanges toLowerCase recurrence n = some ranges) {p : ℕ} (hp : p < n) :
    ∃ r, ranges[p]? = some r ∧ r.periodNum = p := by
  have hall := Transact.forall₂_of_mapM_eq_some h
  have hlen : ranges.length = n := by rw [← hall.length_eq, List.length_range]
  have hr := (List.forall₂_iff_get.1 hall).2 p (by simpa using hp) (by omega)
  obtain ⟨days, -, hdays⟩ := Option.map_eq_some_iff.1 hr
  refine ⟨ranges[p], List.getElem?_eq_getElem (by omega), ?_⟩
  rw [List.get_eq_getElem, List.get_eq_getElem, List.getElem_range] at hdays
  rw [← hdays]

theorem computePeriodRanges_isSome
    (h : ∀ i < n, IsDate (firstDay toLowerCase recurrence i) ∧
      IsDate (firstDay toLowerCase recurrence (i + 1) - 1)) :
    ∃ ranges, computePeriodRanges toLowerCase recurrence n = some ranges := by
  refine Transact.exists_mapM_eq_some fun i hi => ?_
  rw [periodDays_eq, if_pos (h i (List.mem_range.1 hi))]
  exact ⟨_, rfl⟩

theorem getFullYear_firstDay_zero : 0 ≤ getFullYear (firstDay toLowerCase recurrence 0) := by
  have hm := getMonth_mem recurrence.periodStart.day
  have hd := getDate_mem_lengthOf recurrence.periodStart.day
  obtain ⟨h₀, -⟩ := recurrence.periodStart.fourDigit
  have hyear : 0 ≤ utcYear (getFullYear recurrence.periodStart.day) := by
    unfold utcYear
    split_ifs <;> omega
  have hmonth (y m : ℤ) (hm : 0 ≤ m ∧ m < 12) : 0 ≤ monthStart y m := by
    unfold monthStart
    split_ifs <;> omega
  have hlater {d : ℤ} (hd : 1 ≤ d) :
      0 ≤ getFullYear (newDate (utcYear (getFullYear recurrence.periodStart.day))
        (getMonth recurrence.periodStart.day) d) := by
    rw [newDate_of_mem hm]
    have hstart := hmonth (utcYear (getFullYear recurrence.periodStart.day)) _ hm
    have hspec := getFullYear_eq (n := yearStart (utcYear (getFullYear recurrence.periodStart.day)))
      le_rfl (by rw [yearStart_succ]; split_ifs <;> omega)
    exact hyear.trans (hspec.symm.le.trans (getFullYear_mono (by omega)))
  unfold firstDay
  cases recurrence.length toLowerCase with
  | months n => simpa using hlater le_rfl
  | days n => simpa using hlater hd.1

variable (toLowerCase recurrence n) in
/-- The keys of the periods have years from 1001 to 9999, and no period but the first starts where
the year before loses or repeats a day. -/
def KeepsLeapDays : Prop :=
  0 < n → 1001 ≤ getFullYear (firstDay toLowerCase recurrence 0) ∧
    getFullYear (firstDay toLowerCase recurrence n - 1) ≤ 9999 ∧
    ∀ i < n, 0 < i → ¬LosesLeapDay (firstDay toLowerCase recurrence i)

theorem KeepsLeapDays.years (h : KeepsLeapDays toLowerCase recurrence n) {i : ℕ} (hi : i < n) :
    (1001 ≤ getFullYear (firstDay toLowerCase recurrence i) ∧
        getFullYear (firstDay toLowerCase recurrence i) ≤ 9999) ∧
      1001 ≤ getFullYear (firstDay toLowerCase recurrence (i + 1) - 1) ∧
      getFullYear (firstDay toLowerCase recurrence (i + 1) - 1) ≤ 9999 := by
  obtain ⟨hfirst, hlast, -⟩ := h (by omega)
  have hs : ∀ i < n, firstDay toLowerCase recurrence i < firstDay toLowerCase recurrence (i + 1) :=
    fun i _ => firstDay_lt_succ toLowerCase recurrence i
  have h₀ := le_of_steps hs (Nat.zero_le i) hi.le
  have h₁ := le_of_steps hs (show i + 1 ≤ n by omega) le_rfl
  have hstep := hs i hi
  have hmono₁ := getFullYear_mono h₀
  have hmono₂ := getFullYear_mono (show firstDay toLowerCase recurrence i ≤
    firstDay toLowerCase recurrence (i + 1) - 1 by omega)
  have hmono₃ := getFullYear_mono (show firstDay toLowerCase recurrence (i + 1) - 1 ≤
    firstDay toLowerCase recurrence n - 1 by omega)
  omega

theorem exists_ranges (hlast : 0 < n → FourDigit (firstDay toLowerCase recurrence n - 1)) :
    ∃ ranges, computePeriodRanges toLowerCase recurrence n = some ranges := by
  have hs : ∀ i < n, firstDay toLowerCase recurrence i < firstDay toLowerCase recurrence (i + 1) :=
    fun i _ => firstDay_lt_succ toLowerCase recurrence i
  refine computePeriodRanges_isSome fun i hi => ?_
  have h₀ := le_of_steps hs (Nat.zero_le i) hi.le
  have h₁ := le_of_steps hs (show i + 1 ≤ n by omega) le_rfl
  have hstep := hs i hi
  have hyear {d : ℤ} (hd : firstDay toLowerCase recurrence 0 ≤ d)
      (hd' : d ≤ firstDay toLowerCase recurrence n - 1) : IsDate d :=
    isDate_of_year ⟨getFullYear_firstDay_zero.trans (getFullYear_mono hd),
      (getFullYear_mono hd').trans (hlast (by omega)).2⟩
  exact ⟨hyear h₀ (by omega), hyear (by omega) (by omega)⟩

theorem KeepsLeapDays.exists_ranges (h : KeepsLeapDays toLowerCase recurrence n) :
    ∃ ranges, computePeriodRanges toLowerCase recurrence n = some ranges := by
  refine Budgets.exists_ranges fun hn => ?_
  have hlast := (h.years (show n - 1 < n by omega)).2
  rw [Nat.sub_add_cancel hn] at hlast
  exact ⟨by omega, by omega⟩

theorem fourDigit_firstDay_zero (hn : 0 < n)
    (hlast : FourDigit (firstDay toLowerCase recurrence n - 1)) :
    FourDigit (firstDay toLowerCase recurrence 0) := by
  have hs : ∀ i < n, firstDay toLowerCase recurrence i < firstDay toLowerCase recurrence (i + 1) :=
    fun i _ => firstDay_lt_succ toLowerCase recurrence i
  have h₀ := le_of_steps hs (show 1 ≤ n from hn) le_rfl
  have hstep : firstDay toLowerCase recurrence 0 < firstDay toLowerCase recurrence 1 := hs 0 hn
  have hmono := getFullYear_mono (show
    firstDay toLowerCase recurrence 0 ≤ firstDay toLowerCase recurrence n - 1 by omega)
  exact ⟨getFullYear_firstDay_zero, hmono.trans hlast.2⟩

theorem partition_computePeriodRanges {ranges : List PeriodRange}
    (hlast : 0 < n → FourDigit (firstDay toLowerCase recurrence n - 1))
    (hranges : computePeriodRanges toLowerCase recurrence n = some ranges) : Partition ranges :=
  partition_of_starts (fun i _ => firstDay_lt_succ toLowerCase recurrence i)
    (fun hn => ⟨fourDigit_firstDay_zero hn (hlast hn), hlast hn⟩) (keys_computePeriodRanges hranges)

theorem KeepsLeapDays.partition (h : KeepsLeapDays toLowerCase recurrence n)
    {ranges : List PeriodRange} (hranges : computePeriodRanges toLowerCase recurrence n = some ranges) :
    Partition ranges := by
  refine partition_computePeriodRanges (fun hn => ?_) hranges
  have hlast := (h.years (show n - 1 < n by omega)).2
  rw [Nat.sub_add_cancel hn] at hlast
  exact ⟨by omega, by omega⟩

theorem keys_priorRange {ranges : List PeriodRange}
    (hranges : computePeriodRanges toLowerCase recurrence n = some ranges) :
    ((ranges.map priorRange).map fun r => (r.startKey, r.endKey)) = (List.range n).map fun i =>
      (shiftDateKeyOneYearBack (isoText (firstDay toLowerCase recurrence i)),
        shiftDateKeyOneYearBack (isoText (firstDay toLowerCase recurrence (i + 1) - 1))) := by
  have hkeys := congrArg (List.map fun k : List Char × List Char =>
    (shiftDateKeyOneYearBack k.1, shiftDateKeyOneYearBack k.2)) (keys_computePeriodRanges hranges)
  rw [List.map_map, List.map_map] at hkeys
  rw [List.map_map]
  exact hkeys

theorem KeepsLeapDays.partition_prior (h : KeepsLeapDays toLowerCase recurrence n)
    {ranges : List PeriodRange} (hranges : computePeriodRanges toLowerCase recurrence n = some ranges) :
    Partition (ranges.map priorRange) := by
  -- the prior days of the starts, and the day after the prior day of the last one
  let s (i : ℕ) : ℤ :=
    if i < n then priorDay (firstDay toLowerCase recurrence i)
    else priorDay (firstDay toLowerCase recurrence n - 1) + 1
  have hnext {i : ℕ} (hi : i < n) :
      s (i + 1) = priorDay (firstDay toLowerCase recurrence (i + 1) - 1) + 1 := by
    by_cases hlast : i + 1 < n
    · have hkeeps := (h (by omega)).2.2 (i + 1) hlast (by omega)
      have hsucc := priorDay_succ_iff (firstDay toLowerCase recurrence (i + 1) - 1)
      rw [sub_add_cancel] at hsucc
      exact (if_pos hlast).trans (hsucc.2 hkeeps)
    · obtain rfl : n = i + 1 := by omega
      exact if_neg (lt_irrefl _)
  have hfields {i : ℕ} (hi : i < n) := getFullYear_priorDay (firstDay toLowerCase recurrence i)
  have hfields' (i : ℕ) := getFullYear_priorDay (firstDay toLowerCase recurrence (i + 1) - 1)
  refine @partition_of_starts n s _ (fun i hi => ?_) (fun hn => ?_) ?_
  · have hlt := firstDay_lt_succ toLowerCase recurrence i
    have hmono := priorDay_mono (show firstDay toLowerCase recurrence i ≤
      firstDay toLowerCase recurrence (i + 1) - 1 by omega)
    rw [hnext hi, show s i = priorDay (firstDay toLowerCase recurrence i) from if_pos hi]
    omega
  · have hfirst := (h.years hn).1
    have hlast := (h.years (show n - 1 < n by omega)).2
    have hfield := (hfields hn).1
    have hfield' := (hfields' (n - 1)).1
    rw [Nat.sub_add_cancel hn] at hlast hfield'
    rw [show s 0 = priorDay (firstDay toLowerCase recurrence 0) from if_pos hn,
      show s n = priorDay (firstDay toLowerCase recurrence n - 1) + 1 from if_neg (lt_irrefl n),
      add_sub_cancel_right]
    exact ⟨⟨by omega, by omega⟩, by omega, by omega⟩
  · rw [keys_priorRange hranges]
    refine List.map_congr_left fun i hi => ?_
    rw [List.mem_range] at hi
    have hyears := h.years hi
    rw [hnext hi, add_sub_cancel_right, shiftDateKeyOneYearBack_isoText hyears.1.1 hyears.1.2,
      shiftDateKeyOneYearBack_isoText hyears.2.1 hyears.2.2]
    rw [show s i = priorDay (firstDay toLowerCase recurrence i) from if_pos hi]

/-- Ranges of the year before that are a partition are those of years from 1001 to 9999 whose
starts neither lose nor repeat a day. -/
theorem keepsLeapDays_of_partition {ranges : List PeriodRange}
    (hranges : computePeriodRanges toLowerCase recurrence n = some ranges)
    (h : Partition (ranges.map priorRange)) : KeepsLeapDays toLowerCase recurrence n := by
  intro hn
  obtain ⟨days, hkeys, -, hchain, -⟩ := h
  rw [keys_priorRange hranges] at hkeys
  have hget {i : ℕ} (hi : i < n) : ∃ d, days[i]? = some d ∧
      shiftDateKeyOneYearBack (isoText (firstDay toLowerCase recurrence i)) = isoText d.1 ∧
      shiftDateKeyOneYearBack (isoText (firstDay toLowerCase recurrence (i + 1) - 1)) =
        isoText d.2 := by
    have hentry := (getElem?_map_range (n := n) (f := fun i =>
      (shiftDateKeyOneYearBack (isoText (firstDay toLowerCase recurrence i)),
        shiftDateKeyOneYearBack (isoText (firstDay toLowerCase recurrence (i + 1) - 1))))).2 ⟨hi, rfl⟩
    rw [hkeys, List.getElem?_map, Option.map_eq_some_iff] at hentry
    obtain ⟨d, hd, heq⟩ := hentry
    exact ⟨d, hd, (Prod.mk.inj heq).1.symm, (Prod.mk.inj heq).2.symm⟩
  have hs : ∀ i < n, firstDay toLowerCase recurrence i < firstDay toLowerCase recurrence (i + 1) :=
    fun i _ => firstDay_lt_succ toLowerCase recurrence i
  have hlast : getFullYear (firstDay toLowerCase recurrence n - 1) ≤ 9999 := by
    by_contra hyear
    obtain ⟨d, -, -, hend⟩ := hget (show n - 1 < n by omega)
    rw [Nat.sub_add_cancel hn] at hend
    exact shift_ne_of_day_none (dateParts_isoText_d (by omega)) d.2 hend
  have hfirst : 1001 ≤ getFullYear (firstDay toLowerCase recurrence 0) := by
    by_contra hyear
    obtain ⟨d, -, hstart, -⟩ := hget hn
    have hzero := @getFullYear_firstDay_zero toLowerCase recurrence
    exact shift_ne_of_year_le ⟨hzero, by omega⟩ (by omega) d.1 hstart
  refine ⟨hfirst, hlast, fun i hi hpos hloses => ?_⟩
  obtain ⟨a, ha, -, hend⟩ := hget (show i - 1 < n by omega)
  obtain ⟨b, hb, hstart, -⟩ := hget hi
  rw [Nat.sub_add_cancel hpos] at hend
  have hab := hchain (i - 1) a b ha (by rw [Nat.sub_add_cancel hpos]; exact hb)
  have h₀ := le_of_steps hs (Nat.zero_le (i - 1)) (by omega)
  have h₁ := le_of_steps hs (show i ≤ n by omega) le_rfl
  have hstep := hs (i - 1) (by omega)
  have hstep' := hs i hi
  have h₂ := le_of_steps hs (show i + 1 ≤ n by omega) le_rfl
  rw [Nat.sub_add_cancel hpos] at hstep
  have hyears {d : ℤ} (h₀ : firstDay toLowerCase recurrence 0 ≤ d)
      (h₁ : d ≤ firstDay toLowerCase recurrence n - 1) :
      1001 ≤ getFullYear d ∧ getFullYear d ≤ 9999 :=
    ⟨hfirst.trans (getFullYear_mono h₀), (getFullYear_mono h₁).trans hlast⟩
  have hprior {d e : ℤ} (hd : 1001 ≤ getFullYear d ∧ getFullYear d ≤ 9999)
      (heq : shiftDateKeyOneYearBack (isoText d) = isoText e) : priorDay d = e := by
    have hfield := (getFullYear_priorDay d).1
    rw [shiftDateKeyOneYearBack_isoText hd.1 hd.2] at heq
    exact isoText_inj ⟨by omega, by omega⟩ heq
  have hend' := hprior (hyears (by omega) (by omega)) hend
  have hstart' := hprior (hyears (by omega) (by omega)) hstart
  have hsucc := priorDay_succ_iff (firstDay toLowerCase recurrence i - 1)
  rw [sub_add_cancel, hend', hstart'] at hsucc
  exact hsucc.1 hab hloses

end Ranges

end Budgets
