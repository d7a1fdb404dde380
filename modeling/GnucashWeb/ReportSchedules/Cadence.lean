import GnucashWeb.Lib.Civil

/-!
# Cadences of report schedules

The occurrence that a schedule is due for on a day, and the reporting period that it covers.  From one
day to the next the occurrence stays or moves on to one whose period follows that of the last without
gap or overlap (`periods_follow`).
-/

namespace ReportSchedules

open Civil

inductive ScheduleCadence
  | weekly
  | monthly
  | quarterly
deriving DecidableEq

structure Period where
  startDate : ℤ
  endDate : ℤ
deriving DecidableEq

/-- Days of the week from 0 to 6, of a month from 1 to 28. -/
def clampAnchorDay (cadence : ScheduleCadence) (day : ℤ) : ℤ :=
  match cadence with
  | .weekly => min 6 (max 0 day)
  | _ => min 28 (max 1 day)

def currentOccurrence (cadence : ScheduleCadence) (anchorDay today : ℤ) : ℤ :=
  let day := clampAnchorDay cadence anchorDay
  match cadence with
  | .weekly => today - (getDay today - day + 7) % 7
  | .monthly =>
    let occ := newDate (getFullYear today) (getMonth today) day
    if today < occ then newDate (getFullYear today) (getMonth today - 1) day else occ
  | .quarterly =>
    let quarterMonth := getMonth today / 3 * 3
    let occ := newDate (getFullYear today) quarterMonth day
    if today < occ then newDate (getFullYear today) (quarterMonth - 3) day else occ

def reportPeriodFor (cadence : ScheduleCadence) (occurrence : ℤ) : Period :=
  let y := getFullYear occurrence
  let m := getMonth occurrence
  let d := getDate occurrence
  match cadence with
  | .weekly => ⟨newDate y m (d - 7), newDate y m (d - 1)⟩
  | .monthly => ⟨newDate y (m - 1) 1, newDate y m 0⟩
  | .quarterly =>
    let quarterMonth := m / 3 * 3
    ⟨newDate y (quarterMonth - 3) 1, newDate y quarterMonth 0⟩

/-! ## Spans of months -/

def spanStart (w i : ℤ) : ℤ := dateIn (w * i) 1

section Spans

variable {w : ℤ} (hw : 0 < w)

include hw

theorem spanStart_add_le {i j : ℤ} (h : i < j) : spanStart w i + 28 ≤ spanStart w j := by
  have hmul := Int.mul_le_mul_of_nonneg_left (show i + 1 ≤ j by omega) (Int.le_of_lt hw)
  rw [Int.mul_add, Int.mul_one] at hmul
  have hle := dateIn_add_le (show w * i ≤ w * j by omega)
  unfold spanStart
  omega

theorem mem_span (n : ℤ) :
    spanStart w (monthIndex n / w) ≤ n ∧ n < spanStart w (monthIndex n / w + 1) := by
  have hdate := dateIn_getDate n
  have hmem := getDate_mem_lengthOf n
  have hadd := dateIn_add (monthIndex n) 1 (getDate n - 1)
  have hend := dateIn_add (monthIndex n) 1 (lengthOf (monthIndex n))
  have hsucc := dateIn_succ (monthIndex n)
  rw [show 1 + (getDate n - 1) = getDate n by omega, hdate] at hadd
  rw [show 1 + lengthOf (monthIndex n) = lengthOf (monthIndex n) + 1 by omega, ← hsucc] at hend
  have hlo : w * (monthIndex n / w) ≤ monthIndex n := Int.mul_ediv_self_le (Int.ne_of_gt hw)
  have hhi : monthIndex n + 1 ≤ w * (monthIndex n / w + 1) := by
    have := Int.lt_mul_ediv_self_add (x := monthIndex n) hw
    rw [Int.mul_add, Int.mul_one]
    omega
  have h₁ := dateIn_add_le hlo
  have h₂ := dateIn_add_le hhi
  unfold spanStart
  omega

theorem monthIndex_anchor (i : ℤ) {day : ℤ} (hday : 1 ≤ day ∧ day ≤ 28) :
    monthIndex (dateIn (w * i) day) / w = i := by
  have hlen := lengthOf_bounds (w * i)
  rw [monthIndex_dateIn (by omega), Int.mul_ediv_cancel_left _ (Int.ne_of_gt hw)]

theorem anchor_cases (n : ℤ) {day : ℤ} (hday : 1 ≤ day ∧ day ≤ 28) :
    ∃ i, (if n < dateIn (w * (monthIndex n / w)) day
        then dateIn (w * (monthIndex n / w - 1)) day
        else dateIn (w * (monthIndex n / w)) day) = dateIn (w * i) day ∧
      dateIn (w * i) day ≤ n ∧ n < dateIn (w * (i + 1)) day := by
  obtain ⟨hlo, hhi⟩ := mem_span hw n
  have hanchor (i : ℤ) : dateIn (w * i) day = spanStart w i + (day - 1) := by
    rw [spanStart, ← dateIn_add]
    congr 1
    omega
  have hbefore := spanStart_add_le hw (show monthIndex n / w - 1 < monthIndex n / w by omega)
  split
  · next hlt =>
      refine ⟨monthIndex n / w - 1, rfl, ?_, ?_⟩
      · rw [hanchor]
        omega
      · rw [Int.sub_add_cancel]
        exact hlt
  · next hge =>
      refine ⟨monthIndex n / w, rfl, by omega, ?_⟩
      rw [hanchor]
      omega

theorem anchor_step {day i j n : ℤ} (hi : dateIn (w * i) day ≤ n ∧ n < dateIn (w * (i + 1)) day)
    (hj : dateIn (w * j) day ≤ n + 1 ∧ n + 1 < dateIn (w * (j + 1)) day) : j = i ∨ j = i + 1 := by
  have hanchor (i : ℤ) : dateIn (w * i) day = spanStart w i + (day - 1) := by
    rw [spanStart, ← dateIn_add]
    congr 1
    omega
  have hmono {a b : ℤ} (h : a < b) := spanStart_add_le hw h
  rw [hanchor, hanchor] at hi hj
  rcases Int.lt_trichotomy j i with hlt | heq | hgt
  · by_cases hnext : j + 1 = i
    · subst hnext
      omega
    · have := hmono (show j + 1 < i by omega)
      omega
  · exact .inl heq
  · by_cases hnext : j = i + 1
    · exact .inr hnext
    · have := hmono (show i + 1 < j by omega)
      omega

end Spans

/-! ## Occurrences -/

def ScheduleCadence.width : ScheduleCadence → ℤ
  | .quarterly => 3
  | _ => 1

theorem ScheduleCadence.width_pos (cadence : ScheduleCadence) : 0 < cadence.width := by
  cases cadence <;> decide

theorem clamp_mem {cadence : ScheduleCadence} (h : cadence ≠ .weekly) (day : ℤ) :
    1 ≤ clampAnchorDay cadence day ∧ clampAnchorDay cadence day ≤ 28 := by
  cases cadence with
  | weekly => exact absurd rfl h
  | monthly => simp only [clampAnchorDay]; omega
  | quarterly => simp only [clampAnchorDay]; omega

theorem currentOccurrence_eq {cadence : ScheduleCadence} (h : cadence ≠ .weekly)
    (anchorDay today : ℤ) :
    currentOccurrence cadence anchorDay today =
      let w := cadence.width
      let day := clampAnchorDay cadence anchorDay
      if today < dateIn (w * (monthIndex today / w)) day
        then dateIn (w * (monthIndex today / w - 1)) day
        else dateIn (w * (monthIndex today / w)) day := by
  have hmonth := getMonth_mem today
  cases cadence with
  | weekly => exact absurd rfl h
  | monthly =>
    simp only [currentOccurrence, ScheduleCadence.width, newDate_eq_dateIn, monthIndex]
    simp only [Int.ediv_one, Int.one_mul, Int.add_sub_assoc]
  | quarterly =>
    simp only [currentOccurrence, ScheduleCadence.width, newDate_eq_dateIn, monthIndex]
    rw [show 12 * getFullYear today + getMonth today / 3 * 3 =
        3 * ((12 * getFullYear today + getMonth today) / 3) by omega,
      show 12 * getFullYear today + (getMonth today / 3 * 3 - 3) =
        3 * ((12 * getFullYear today + getMonth today) / 3 - 1) by omega]
    rfl

theorem reportPeriodFor_eq {cadence : ScheduleCadence} (h : cadence ≠ .weekly) (occurrence : ℤ) :
    reportPeriodFor cadence occurrence =
      let i := monthIndex occurrence / cadence.width
      ⟨spanStart cadence.width (i - 1), spanStart cadence.width i - 1⟩ := by
  have hmonth := getMonth_mem occurrence
  have hzero (t : ℤ) : dateIn t 0 = dateIn t 1 - 1 := by
    have := dateIn_add t 1 (-1)
    rw [show (1 : ℤ) + -1 = 0 by decide] at this
    omega
  cases cadence with
  | weekly => exact absurd rfl h
  | monthly =>
    simp only [reportPeriodFor, ScheduleCadence.width, newDate_eq_dateIn, monthIndex, spanStart]
    simp only [Int.ediv_one, Int.one_mul, Int.add_sub_assoc, hzero]
  | quarterly =>
    simp only [reportPeriodFor, ScheduleCadence.width, newDate_eq_dateIn, monthIndex, spanStart,
      hzero]
    rw [show 12 * getFullYear occurrence + getMonth occurrence / 3 * 3 =
        3 * ((12 * getFullYear occurrence + getMonth occurrence) / 3) by omega,
      show 12 * getFullYear occurrence + (getMonth occurrence / 3 * 3 - 3) =
        3 * ((12 * getFullYear occurrence + getMonth occurrence) / 3 - 1) by omega]

theorem reportPeriodFor_weekly (occurrence : ℤ) :
    reportPeriodFor .weekly occurrence = ⟨occurrence - 7, occurrence - 1⟩ := by
  have hfields := fields_newDate occurrence
  have hback (k : ℤ) : newDate (getFullYear occurrence) (getMonth occurrence)
      (getDate occurrence - k) = occurrence - k := by
    have := newDate_add (getFullYear occurrence) (getMonth occurrence) (getDate occurrence) (-k)
    rw [hfields] at this
    exact this
  simp only [reportPeriodFor, hback]

/-- From a day to the next the occurrence stays, or its period starts after the last one ended. -/
theorem periods_follow (cadence : ScheduleCadence) (anchorDay today : ℤ) :
    currentOccurrence cadence anchorDay (today + 1) = currentOccurrence cadence anchorDay today ∨
      (reportPeriodFor cadence (currentOccurrence cadence anchorDay (today + 1))).startDate =
        (reportPeriodFor cadence (currentOccurrence cadence anchorDay today)).endDate + 1 := by
  by_cases h : cadence = .weekly
  · subst h
    simp only [reportPeriodFor_weekly]
    simp only [currentOccurrence, getDay, clampAnchorDay]
    omega
  · have hday := clamp_mem h anchorDay
    have hw := cadence.width_pos
    rw [currentOccurrence_eq h, currentOccurrence_eq h]
    obtain ⟨i, hi, hi'⟩ := anchor_cases hw today hday
    obtain ⟨j, hj, hj'⟩ := anchor_cases hw (today + 1) hday
    simp only [hi, hj]
    rcases anchor_step hw hi' hj' with rfl | rfl
    · exact .inl rfl
    · right
      simp only [reportPeriodFor_eq h, monthIndex_anchor hw _ hday]
      rw [Int.add_sub_cancel, Int.sub_add_cancel]

end ReportSchedules
