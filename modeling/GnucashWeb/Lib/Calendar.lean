import GnucashWeb.Lib.Text
import Mathlib.Tactic

/-!
# Calendar dates

A `UtcDate` is a point in time of the years 0 to 9999, held as its UTC calendar fields.  This file
gives its ISO text (`toISOString`), the reader of the texts that name such a date (`readUtc`) and
the round trips `readUtc_timestamp` and `readUtc_midnight`.
-/

open Text

namespace Calendar

/-! ## Dates -/

def isLeap (year : ℕ) : Bool := year % 4 = 0 && (year % 100 ≠ 0 || year % 400 = 0)

/-- The number of days of a month (0 for a number that is not a month). -/
def daysInMonth (year month : ℕ) : ℕ :=
  if month = 2 then (if isLeap year then 29 else 28)
  else if month ∈ [4, 6, 9, 11] then 30
  else if 1 ≤ month ∧ month ≤ 12 then 31
  else 0

structure UtcDate where
  year : ℕ
  month : ℕ
  day : ℕ
  hour : ℕ
  minute : ℕ
  second : ℕ
  milli : ℕ
  valid : year < 10000 ∧ (1 ≤ month ∧ month ≤ 12) ∧ (1 ≤ day ∧ day ≤ daysInMonth year month) ∧
    hour < 24 ∧ minute < 60 ∧ second < 60 ∧ milli < 1000
  deriving DecidableEq

theorem daysInMonth_le (year month : ℕ) : daysInMonth year month ≤ 31 := by
  unfold daysInMonth
  split_ifs <;> omega

theorem UtcDate.day_lt (d : UtcDate) : d.day < 100 :=
  lt_of_le_of_lt (d.valid.2.2.1.2.trans (daysInMonth_le _ _)) (by decide)

def UtcDate.ofFields (year month day hour minute second milli : ℕ) : Option UtcDate :=
  if h : year < 10000 ∧ (1 ≤ month ∧ month ≤ 12) ∧ (1 ≤ day ∧ day ≤ daysInMonth year month) ∧
      hour < 24 ∧ minute < 60 ∧ second < 60 ∧ milli < 1000 then
    some ⟨year, month, day, hour, minute, second, milli, h⟩
  else none

theorem UtcDate.ofFields_self (d : UtcDate) :
    ofFields d.year d.month d.day d.hour d.minute d.second d.milli = some d := by
  unfold ofFields
  rw [dif_pos d.valid]

def UtcDate.midnight (d : UtcDate) : UtcDate :=
  ⟨d.year, d.month, d.day, 0, 0, 0, 0, d.valid.1, d.valid.2.1, d.valid.2.2.1, by decide⟩

/-! ## Fixed-width numbers -/

/-- The last `width` decimal digits of a number. -/
def pad : ℕ → ℕ → List Char
  | 0, _ => []
  | width + 1, n => pad width (n / 10) ++ [Nat.digitChar (n % 10)]

/-- Reads a number of `width` digits and returns the text after it. -/
def readNum (width : ℕ) (cs : List Char) : Option (ℕ × List Char) :=
  if width ≤ cs.length ∧ (cs.take width).all Char.isDigit then
    some (Nat.ofDigitChars 10 (cs.take width) 0, cs.drop width)
  else none

@[simp] theorem length_pad (width n : ℕ) : (pad width n).length = width := by
  induction width generalizing n with
  | zero => rfl
  | succ width ih => simp [pad, ih]

theorem isDigit_digitChar {n : ℕ} (h : n < 10) : (Nat.digitChar n).isDigit = true := by
  interval_cases n <;> rfl

theorem isDigit_of_mem_pad {width n : ℕ} {c : Char} (h : c ∈ pad width n) : c.isDigit = true := by
  induction width generalizing n with
  | zero => exact absurd h (by simp [pad])
  | succ width ih =>
    rcases List.mem_append.1 h with h | h
    · exact ih h
    · rw [List.mem_singleton.1 h]
      exact isDigit_digitChar (Nat.mod_lt _ (by decide))

theorem ofDigitChars_pad {width n : ℕ} (h : n < 10 ^ width) :
    Nat.ofDigitChars 10 (pad width n) 0 = n := by
  induction width generalizing n with
  | zero => simp_all [pad]
  | succ width ih =>
    have hdiv : n / 10 < 10 ^ width := by
      rw [Nat.div_lt_iff_lt_mul (by decide)]
      rwa [pow_succ] at h
    rw [pad, Nat.ofDigitChars_append, ih hdiv,
      Nat.ofDigitChars_cons_digitChar_of_lt_ten (Nat.mod_lt _ (by decide)), Nat.ofDigitChars_nil]
    omega

theorem readNum_pad {width n : ℕ} (h : n < 10 ^ width) (cs : List Char) :
    readNum width (pad width n ++ cs) = some (n, cs) := by
  have htake : (pad width n ++ cs).take width = pad width n := by
    rw [List.take_append_of_le_length (by simp)]
    exact List.take_of_length_le (by simp)
  have hdrop : (pad width n ++ cs).drop width = cs := by
    rw [List.drop_append_of_le_length (by simp)]
    simp
  unfold readNum
  rw [htake, hdrop, ofDigitChars_pad h,
    if_pos ⟨by simp, List.all_eq_true.2 fun _ => isDigit_of_mem_pad⟩]

def readText (text cs : List Char) : Option (List Char) :=
  if text.isPrefixOf cs then some (cs.drop text.length) else none

theorem readText_append (text cs : List Char) : readText text (text ++ cs) = some cs := by
  unfold readText
  rw [if_pos (List.isPrefixOf_iff_prefix.2 (List.prefix_append _ _)), List.drop_left]

theorem readText_cons (c : Char) (cs : List Char) : readText [c] (c :: cs) = some cs :=
  readText_append [c] cs

/-! ## ISO texts -/

/-- The day of a date, `YYYY-MM-DD`. -/
def isoDay (d : UtcDate) : List Char :=
  pad 4 d.year ++ '-' :: (pad 2 d.month ++ '-' :: pad 2 d.day)

/-- The time of a date, `HH:MM:SS`. -/
def isoTime (d : UtcDate) : List Char :=
  pad 2 d.hour ++ ':' :: (pad 2 d.minute ++ ':' :: pad 2 d.second)

/-- `toISOString`, `YYYY-MM-DDTHH:MM:SS.mmmZ`. -/
def toISOString (d : UtcDate) : List Char :=
  isoDay d ++ 'T' :: (isoTime d ++ '.' :: (pad 3 d.milli ++ ['Z']))

/-- Reads `YYYY-MM-DD` and returns the three numbers and the text after them. -/
def readDay (cs : List Char) : Option (ℕ × ℕ × ℕ × List Char) := do
  let (year, cs) ← readNum 4 cs
  let cs ← readText ['-'] cs
  let (month, cs) ← readNum 2 cs
  let cs ← readText ['-'] cs
  let (day, cs) ← readNum 2 cs
  return (year, month, day, cs)

/-- Reads `HH:MM:SS` and returns the three numbers and the text after them. -/
def readTime (cs : List Char) : Option (ℕ × ℕ × ℕ × List Char) := do
  let (hour, cs) ← readNum 2 cs
  let cs ← readText [':'] cs
  let (minute, cs) ← readNum 2 cs
  let cs ← readText [':'] cs
  let (second, cs) ← readNum 2 cs
  return (hour, minute, second, cs)

/-- Reads the zone after a time, ` +0000` or `.mmmZ`, and returns the milliseconds. -/
def readZone (cs : List Char) : Option ℕ :=
  if cs = " +0000".toList then some 0
  else do
    let cs ← readText ['.'] cs
    let (milli, cs) ← readNum 3 cs
    if cs = ['Z'] then some milli else none

/-- The texts of a UTC date, `YYYY-MM-DDTHH:MM:SS` followed by ` +0000` or `.mmmZ`. -/
def readUtc (cs : List Char) : Option UtcDate := do
  let (year, month, day, cs) ← readDay cs
  let cs ← readText ['T'] cs
  let (hour, minute, second, cs) ← readTime cs
  let milli ← readZone cs
  UtcDate.ofFields year month day hour minute second milli

theorem readDay_isoDay (d : UtcDate) (cs : List Char) :
    readDay (isoDay d ++ cs) = some (d.year, d.month, d.day, cs) := by
  have hy : d.year < 10 ^ 4 := d.valid.1
  have hm : d.month < 10 ^ 2 := lt_of_le_of_lt d.valid.2.1.2 (by decide)
  have hd : d.day < 10 ^ 2 := d.day_lt
  simp only [readDay, isoDay, List.append_assoc, List.cons_append, readNum_pad hy,
    readNum_pad hm, readNum_pad hd, readText_cons, Option.bind_eq_bind, Option.bind_some, Option.pure_def]

theorem readTime_isoTime (d : UtcDate) (cs : List Char) :
    readTime (isoTime d ++ cs) = some (d.hour, d.minute, d.second, cs) := by
  have hh : d.hour < 10 ^ 2 := d.valid.2.2.2.1.trans (by decide)
  have hm : d.minute < 10 ^ 2 := d.valid.2.2.2.2.1.trans (by decide)
  have hs : d.second < 10 ^ 2 := d.valid.2.2.2.2.2.1.trans (by decide)
  simp only [readTime, isoTime, List.append_assoc, List.cons_append, readNum_pad hh,
    readNum_pad hm, readNum_pad hs, readText_cons, Option.bind_eq_bind, Option.bind_some,
    Option.pure_def]

theorem readUtc_of_zone (d : UtcDate) {zone : List Char} (hz : readZone zone = some d.milli) :
    readUtc (isoDay d ++ 'T' :: (isoTime d ++ zone)) = some d := by
  simp only [readUtc, readDay_isoDay, readText_cons, readTime_isoTime, hz, Option.bind_eq_bind,
    Option.bind_some, UtcDate.ofFields_self]

theorem readUtc_timestamp {d : UtcDate} (h : d.milli = 0) :
    readUtc (isoDay d ++ 'T' :: (isoTime d ++ " +0000".toList)) = some d :=
  readUtc_of_zone d (by rw [h]; rfl)

theorem readUtc_midnight (d : UtcDate) :
    readUtc (isoDay d ++ "T00:00:00.000Z".toList) = some d.midnight := by
  have htext : "T00:00:00.000Z".toList = 'T' :: (isoTime d.midnight ++ ".000Z".toList) := by
    simp [isoTime, UtcDate.midnight, pad, Nat.digitChar]
  rw [htext]
  exact readUtc_of_zone d.midnight rfl

end Calendar
