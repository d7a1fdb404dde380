import Mathlib
import GnucashWeb.Recurrence.Advance

/-!
# Resuming a schedule from its last occurrence

`resumes_iff`: resumed at an occurrence, a pattern goes on with the occurrences that follow it in the
schedule from the start, unless it is a daily pattern whose days are moved by weekends off the days
of the schedule.  The generator is cut off after `maxIterations + 1` raw dates.
-/

open Civil

namespace Recurrence

/-- The occurrences among the first raw dates from the start of a pattern. -/
def schedule (p : RecurrencePattern) (n : ℕ) : List ℤ :=
  (generateRawDates p p.periodStart n).map fun x => applyWeekendAdjust x p.weekendAdjust

/-- Resumed at `d`, a pattern gives the first occurrences after `d` of every long enough part of its
schedule: as many as asked for, as long as that is within the safety limit. -/
def Resumes (p : RecurrencePattern) (d : ℤ) : Prop :=
  ∀ count, ∃ m ≤ count, (count < maxIterations → m = count) ∧ ∃ N, ∀ n, N ≤ n →
    computeNextOccurrences p (some d) none none count d =
      ((schedule p n).filter (d < ·)).take m

/-! ## Lists of blocks -/

/-- The blocks of so many passes from a place in the cycle. -/
def passes (p : RecurrencePattern) (a : ℤ) (n : ℕ) : List ℤ :=
  (List.range n).flatMap fun j : ℕ => blockAt p (a + j * strideOf p)

variable {p : RecurrencePattern}

variable {a x d b : ℤ} {n : ℕ}

theorem mem_passes :
    x ∈ passes p a n ↔ ∃ j < n, x ∈ blockAt p (a + (j : ℤ) * strideOf p) := by
  simp [passes]

theorem passes_add (a : ℤ) (m n : ℕ) :
    passes p a (m + n) = passes p a m ++ passes p (a + m * strideOf p) n := by
  unfold passes
  rw [List.range_add, List.flatMap_append, List.flatMap_map]
  congr 1
  refine List.flatMap_congr fun j _ => ?_
  rw [Nat.cast_add, Int.add_mul, Int.add_assoc]

theorem length_blockAt (h : Repeats p) (i : ℤ) :
    1 ≤ (blockAt p i).length ∧ (blockAt p i).length ≤ 2 := by
  unfold blockAt anchorDays
  cases hp : p.periodType <;> simp only [List.length_map]
  case once => exact absurd hp h.1
  case unknown => exact absurd hp h.2
  case semiMonthly => split <;> simp
  all_goals simp

theorem length_passes (h : Repeats p) (a : ℤ) (n : ℕ) :
    n ≤ (passes p a n).length ∧ (passes p a n).length ≤ 2 * n := by
  induction n with
  | zero => simp [passes]
  | succ n ih =>
    have hone : passes p (a + n * strideOf p) 1 = blockAt p (a + n * strideOf p) := by
      simp [passes]
    have hlen := length_blockAt h (a + n * strideOf p)
    rw [passes_add, List.length_append, hone]
    omega

theorem generateRawDates_eq (h : Repeats p) (startFrom : ℤ) (n : ℕ) :
    generateRawDates p startFrom n = (passes p (indexOf p.periodType startFrom) n).take n := by
  unfold generateRawDates passes
  congr 1
  exact List.flatMap_congr fun j _ => generateStep_eq h startFrom j

theorem collect_eq {adjust : WeekendAdjust} {afterDate : ℤ} {room : ℕ} (h : 0 < room)
    (rawDates : List ℤ) :
    collect adjust none afterDate none room rawDates =
      ((rawDates.map fun x => applyWeekendAdjust x adjust).filter (afterDate < ·)).take room := by
  induction rawDates generalizing room with
  | nil => simp [collect]
  | cons x rest ih =>
    unfold collect
    simp only [Option.any_none, Bool.false_eq_true, if_false, Bool.false_or, decide_eq_true_eq,
      Option.map_none, List.map_cons]
    by_cases hle : applyWeekendAdjust x adjust ≤ afterDate
    · rw [if_pos hle, List.filter_cons_of_neg (by simpa using hle)]
      exact ih h
    · rw [if_neg hle, List.filter_cons_of_pos (by simpa using hle)]
      by_cases hroom : room ≤ 1
      · obtain rfl : room = 1 := by omega
        simp
      · obtain ⟨room, rfl⟩ : ∃ k, room = k + 1 := ⟨room - 1, by omega⟩
        rw [if_neg hroom, ih (by omega), List.take_succ_cons]
        rfl

theorem computeNextOccurrences_some (p : RecurrencePattern) (lastOccur afterDate : ℤ) (count : ℕ) :
    computeNextOccurrences p (some lastOccur) none none count afterDate =
      (((generateRawDates p (computeFirstAfterLast p lastOccur) (maxIterations + 1)).map
        fun x => applyWeekendAdjust x p.weekendAdjust).filter (afterDate < ·)).take count := by
  unfold computeNextOccurrences
  rw [if_neg (by simp)]
  by_cases h : count = 0
  · rw [if_pos h, h, List.take_zero]
  · rw [if_neg h]
    exact collect_eq (by omega) _

/-- The occurrences after a date among the first raw dates from a place in the cycle. -/
def following (p : RecurrencePattern) (d a : ℤ) (n : ℕ) : List ℤ :=
  (((passes p a n).take n).map fun x => applyWeekendAdjust x p.weekendAdjust).filter (d < ·)

theorem filter_passes_eq_nil (h : ∀ j < n, ∀ x ∈ blockAt p (a + (j : ℤ) * strideOf p),
      applyWeekendAdjust x p.weekendAdjust ≤ d) :
    ((passes p a n).map fun x => applyWeekendAdjust x p.weekendAdjust).filter (d < ·) = [] := by
  refine List.filter_eq_nil_iff.2 fun y hy => ?_
  obtain ⟨x, hx, rfl⟩ := List.mem_map.1 hy
  obtain ⟨j, hj, hx⟩ := mem_passes.1 hx
  simpa using h j hj x hx

theorem take_passes_isPrefix (a : ℤ) {m k : ℕ} (hn : m ≤ n) (hk : m ≤ k) :
    (passes p a m).take m <+: (passes p a n).take k := by
  obtain ⟨r, rfl⟩ := Nat.exists_eq_add_of_le hn
  rw [passes_add]
  exact ((List.prefix_append _ _).take m).trans (List.take_prefix_take_left hk)

/-- Two starts whose places differ by passes that only hold dates up to `d` have the same dates
after `d`. -/
theorem following_isPrefix (h : Repeats p) {K : ℤ} (hb : b = a + K * strideOf p)
    (hbefore : ∀ j : ℤ, min K 0 ≤ j → j < max K 0 → ∀ x ∈ blockAt p (a + j * strideOf p),
      applyWeekendAdjust x p.weekendAdjust ≤ d) (M : ℕ) :
    ∃ N, ∀ n, N ≤ n → following p d b M <+: following p d a n := by
  subst hb
  obtain ⟨k, rfl | rfl⟩ := Int.eq_nat_or_neg K
  · refine ⟨2 * k + M, fun n hn => ?_⟩
    obtain ⟨r, rfl⟩ := Nat.exists_eq_add_of_le (show k ≤ n by omega)
    have hlen := length_passes h a k
    unfold following
    rw [passes_add, List.take_append, List.take_of_length_le (l := passes p a k) (by omega),
      List.map_append, List.filter_append, filter_passes_eq_nil (fun j hj => hbefore j (by omega) (by omega)),
      List.nil_append]
    exact ((take_passes_isPrefix _ (by omega) (by omega)).map _).filter _
  · refine ⟨2 * M, fun n hn => ?_⟩
    have hback : a + -(k : ℤ) * strideOf p + k * strideOf p = a := by ring
    have hlen := length_passes h a M
    have hpre : (passes p (a + -(k : ℤ) * strideOf p) M).take M <+:
        passes p (a + -(k : ℤ) * strideOf p) k ++ passes p a M := by
      have hsplit := passes_add (p := p) (a + -(k : ℤ) * strideOf p) k M
      rw [hback] at hsplit
      rw [← hsplit]
      have := take_passes_isPrefix (p := p) (a + -(k : ℤ) * strideOf p) (m := M) (n := k + M)
        (k := (passes p (a + -(k : ℤ) * strideOf p) (k + M)).length) (by omega)
        (by have := (length_passes h (a + -(k : ℤ) * strideOf p) (k + M)).1; omega)
      rwa [List.take_length] at this
    have hpast : ∀ j < k, ∀ x ∈ blockAt p (a + -(k : ℤ) * strideOf p + (j : ℤ) * strideOf p),
        applyWeekendAdjust x p.weekendAdjust ≤ d := by
      intro j hj x hx
      refine hbefore (-k + j) (by omega) (by omega) x ?_
      rwa [show a + (-(k : ℤ) + j) * strideOf p =
        a + -(k : ℤ) * strideOf p + j * strideOf p by ring]
    have hfilter := (hpre.map fun x => applyWeekendAdjust x p.weekendAdjust).filter (d < ·)
    rw [List.map_append, List.filter_append, filter_passes_eq_nil hpast, List.nil_append] at hfilter
    refine hfilter.trans ?_
    have hall : passes p a M <+: (passes p a n).take n := by
      obtain ⟨r, rfl⟩ := Nat.exists_eq_add_of_le (show M ≤ n by omega)
      rw [passes_add, List.take_append, List.take_of_length_le (l := passes p a M) (by omega)]
      exact List.prefix_append _ _
    exact (hall.map _).filter _

/-- When all but two of the first raw dates lie after `d`, at most two are missing. -/
theorem length_following (h : Repeats p) {M : ℕ}
    (hfar : ∀ x ∈ (passes p b M).drop 2, d < applyWeekendAdjust x p.weekendAdjust) :
    M - 2 ≤ (following p d b M).length := by
  have hlen := (length_passes h b M).1
  have hsub : ((((passes p b M).take M).drop 2).map fun x => applyWeekendAdjust x p.weekendAdjust)
      |>.Sublist (following p d b M) := by
    have hself : ((((passes p b M).take M).drop 2).map
        fun x => applyWeekendAdjust x p.weekendAdjust).filter (d < ·) =
          (((passes p b M).take M).drop 2).map fun x => applyWeekendAdjust x p.weekendAdjust := by
      refine List.filter_eq_self.2 fun y hy => ?_
      obtain ⟨x, hx, rfl⟩ := List.mem_map.1 hy
      rw [List.drop_take] at hx
      simpa using hfar x (List.mem_of_mem_take hx)
    rw [← hself]
    exact ((List.drop_sublist 2 _).map _).filter _
  have hle := hsub.length_le
  rw [List.length_map, List.length_drop, List.length_take] at hle
  omega

/-- A resumption at a place of the same cycle, from which all but two raw dates lie after `d` and
before which none does. -/
theorem resumes_of_following (h : Repeats p) {K : ℤ}
    (hb : b = indexOf p.periodType p.periodStart + K * strideOf p) (hbefore : ∀ j : ℤ, j < max K 0 →
      ∀ x ∈ blockAt p (indexOf p.periodType p.periodStart + j * strideOf p),
        applyWeekendAdjust x p.weekendAdjust ≤ d)
    (hfar : ∀ x ∈ (passes p b (maxIterations + 1)).drop 2,
      d < applyWeekendAdjust x p.weekendAdjust)
    (hfirst : ∀ count, computeNextOccurrences p (some d) none none count d =
      (following p d b (maxIterations + 1)).take count) : Resumes p d := by
  intro count
  have hlen := length_following h hfar
  have harith : ∀ M len : ℕ, M + 1 - 2 ≤ len → count < M → count ≤ len := by omega
  refine ⟨min count (following p d b (maxIterations + 1)).length, min_le_left .., fun hc => ?_, ?_⟩
  · exact min_eq_left (harith maxIterations _ hlen hc)
  · obtain ⟨N, hN⟩ := following_isPrefix h hb (fun j _ hj => hbefore j hj) (maxIterations + 1)
    refine ⟨N, fun n hn => ?_⟩
    have hpre := List.prefix_iff_eq_take.1 (hN n hn)
    have hschedule : (schedule p n).filter (d < ·) =
        following p d (indexOf p.periodType p.periodStart) n := by
      rw [schedule, generateRawDates_eq h]
      rfl
    rw [hfirst, hschedule]
    exact (congrArg (List.take count) hpre).trans List.take_take

/-! ## Occurrences -/

theorem exists_block_of_mem_schedule (h : Repeats p) (hd : d ∈ schedule p n) :
    ∃ k : ℕ, ∃ r ∈ blockAt p (indexOf p.periodType p.periodStart + k * strideOf p),
      applyWeekendAdjust r p.weekendAdjust = d := by
  unfold schedule at hd
  obtain ⟨r, hr, hadjust⟩ := List.mem_map.1 hd
  rw [generateRawDates_eq h] at hr
  obtain ⟨k, -, hk⟩ := mem_passes.1 (List.mem_of_mem_take hr)
  exact ⟨k, r, hk, hadjust⟩

theorem strideOf_pos (hm : 1 ≤ p.mult) : 1 ≤ strideOf p := by
  unfold strideOf
  split <;> omega

theorem place_lt {s i j : ℤ} (hs : 1 ≤ s) (h : i < j) : a + i * s < a + j * s := by
  have := Int.mul_lt_mul_of_pos_right h (show 0 < s by omega)
  omega

theorem exists_later_block (h : Repeats p) (hs : 1 ≤ strideOf p)
    (hx : x ∈ (passes p b n).drop 2) : ∃ i, b < i ∧ x ∈ blockAt p i := by
  cases n with
  | zero => simp [passes] at hx
  | succ n =>
    have hsplit := passes_add (p := p) b 1 n
    have hone : passes p b 1 = blockAt p b := by simp [passes]
    have hlen := length_blockAt h b
    rw [Nat.add_comm, hsplit, hone, List.drop_append, List.drop_of_length_le (by omega),
      List.nil_append] at hx
    obtain ⟨j, -, hj⟩ := mem_passes.1 (List.mem_of_mem_drop hx)
    have hj' := Int.mul_nonneg (show (0 : ℤ) ≤ j by omega) (show 0 ≤ strideOf p by omega)
    exact ⟨_, by omega, hj⟩

theorem resumes_anchored (ha : isAnchored p.periodType = true) (hm : 1 ≤ p.mult)
    (hd : d ∈ schedule p n) : Resumes p d := by
  have h : Repeats p := by
    unfold Repeats
    cases hp : p.periodType <;> simp_all [isAnchored]
  have hs := strideOf_pos hm
  obtain ⟨k, r, hr, rfl⟩ := exists_block_of_mem_schedule h hd
  have hbound := adjust_bounds p.weekendAdjust r
  -- blocks before that of the raw date lie before it, and later ones after the stored date
  have hpast : ∀ j : ℤ, j < k → ∀ x ∈ blockAt p (indexOf p.periodType p.periodStart + j * strideOf p),
      applyWeekendAdjust x p.weekendAdjust ≤ applyWeekendAdjust r p.weekendAdjust := by
    intro j hj x hx
    have := blockAt_spaced ha hx hr (place_lt hs hj)
    exact adjust_le_adjust _ (by omega)
  have hlater : ∀ i, indexOf p.periodType p.periodStart + k * strideOf p < i → ∀ x ∈ blockAt p i,
      applyWeekendAdjust r p.weekendAdjust < applyWeekendAdjust x p.weekendAdjust := by
    intro i hi x hx
    have hgap := blockAt_spaced ha hr hx hi
    have hx' := adjust_bounds p.weekendAdjust x
    omega
  have hfirst : ∀ count, computeNextOccurrences p (some (applyWeekendAdjust r p.weekendAdjust)) none
      none count (applyWeekendAdjust r p.weekendAdjust) =
        (following p (applyWeekendAdjust r p.weekendAdjust)
          (indexOf p.periodType (computeFirstAfterLast p (applyWeekendAdjust r p.weekendAdjust)))
          (maxIterations + 1)).take count := fun count => by
    rw [computeNextOccurrences_some, generateRawDates_eq h]
    rfl
  have hdrop : ∀ b, indexOf p.periodType p.periodStart + k * strideOf p ≤ b →
      ∀ x ∈ (passes p b (maxIterations + 1)).drop 2,
        applyWeekendAdjust r p.weekendAdjust < applyWeekendAdjust x p.weekendAdjust := by
    intro b hb x hx
    obtain ⟨i, hi, hx⟩ := exists_later_block h hs hx
    exact hlater i (Int.lt_of_le_of_lt hb hi) x hx
  rcases computeFirstAfterLast_anchored ha h hr with hindex | ⟨hindex, hover⟩
  · refine resumes_of_following (K := k) h hindex (fun j hj => hpast j (by omega)) ?_ hfirst
    exact hdrop _ (by rw [hindex])
  · refine resumes_of_following (K := k + 1) h (hindex.trans (by ring)) (fun j hj => ?_) ?_ hfirst
    · rcases Int.lt_or_eq_of_le (show j ≤ k by omega) with hlt | rfl
      · exact hpast j hlt
      · exact hover
    · exact hdrop _ (by rw [hindex]; omega)

/-! ## Patterns of days -/

def CountsDays (p : RecurrencePattern) : Prop := p.periodType = .daily ∨ p.periodType = .weekly

section Days

variable (h : CountsDays p)

include h

theorem CountsDays.repeats : Repeats p := by
  rcases h with h | h <;> simp [Repeats, h]

theorem blockAt_days (i : ℤ) : blockAt p i = [i] := by
  rcases h with h | h <;> simp [blockAt, h]

theorem indexOf_days (n : ℤ) : indexOf p.periodType n = n := by
  rcases h with h | h <;> simp [indexOf, h]

theorem computeFirstAfterLast_days (d : ℤ) : computeFirstAfterLast p d = d + strideOf p := by
  unfold computeFirstAfterLast strideOf
  rcases h with h | h <;> simp only [h, newDate_getDate_add]

theorem passes_days (a : ℤ) (n : ℕ) :
    passes p a n = (List.range n).map fun j : ℕ => a + j * strideOf p := by
  unfold passes
  simp only [blockAt_days h]
  exact List.map_eq_flatMap.symm

theorem hfirst_days (d : ℤ) (count : ℕ) :
    computeNextOccurrences p (some d) none none count d =
      (following p d (d + strideOf p) (maxIterations + 1)).take count := by
  rw [computeNextOccurrences_some, generateRawDates_eq h.repeats, indexOf_days h,
    computeFirstAfterLast_days h]
  rfl

theorem mem_drop_passes_days (hs : 1 ≤ strideOf p)
    (hx : x ∈ (passes p b n).drop 2) : b + 2 ≤ x := by
  rw [passes_days h, ← List.map_drop, List.mem_map] at hx
  obtain ⟨j, hj, rfl⟩ := hx
  rw [List.range_eq_range', List.drop_range', List.mem_range'_1] at hj
  have hmul := Int.mul_le_mul_of_nonneg_right (show (2 : ℤ) ≤ j by omega)
    (show 0 ≤ strideOf p by omega)
  omega

theorem resumes_weeks (hm : 1 ≤ p.mult) (hweek : 7 ∣ strideOf p)
    (hd : d ∈ schedule p n) : Resumes p d := by
  have hs := strideOf_pos hm
  obtain ⟨k, r, hr, hadjust⟩ := exists_block_of_mem_schedule h.repeats hd
  rw [blockAt_days h, List.mem_singleton] at hr
  have hbound := adjust_bounds p.weekendAdjust r
  obtain ⟨w, hw⟩ := hweek
  -- the adjusted dates are those of the schedule, week for week
  have hsame : following p d (d + strideOf p) (maxIterations + 1) =
      following p d (r + strideOf p) (maxIterations + 1) := by
    unfold following
    rw [passes_days h, passes_days h, ← List.map_take, ← List.map_take, List.map_map, List.map_map]
    refine congrArg (List.filter _) (List.map_congr_left fun j _ => ?_)
    have hshift : ∀ a : ℤ, a + strideOf p + j * strideOf p = a + 7 * (w + j * w) := fun a => by
      rw [hw]
      ring
    simp only [Function.comp_apply]
    rw [hshift, hshift, adjust_add_weeks, adjust_add_weeks, ← hadjust, adjust_adjust]
  refine resumes_of_following (K := k + 1) h.repeats (b := r + strideOf p) ?_ (fun j hj x hx => ?_)
    (fun x hx => ?_) (fun count => by rw [hfirst_days h, hsame])
  · rw [hr]
    ring
  · rw [blockAt_days h, List.mem_singleton] at hx
    have hle := Int.mul_le_mul_of_nonneg_right (show j ≤ k by omega)
      (show 0 ≤ strideOf p by omega)
    rw [← hadjust]
    exact adjust_le_adjust _ (by omega)
  · have hge := mem_drop_passes_days h hs hx
    have hx' := adjust_bounds p.weekendAdjust x
    omega

theorem resumes_on_phase (hm : 1 ≤ p.mult) (hphase : strideOf p ∣ d - p.periodStart)
    (hd : d ∈ schedule p n) : Resumes p d := by
  have hs := strideOf_pos hm
  obtain ⟨k, r, hr, hadjust⟩ := exists_block_of_mem_schedule h.repeats hd
  rw [blockAt_days h, List.mem_singleton, indexOf_days h] at hr
  obtain ⟨q, hq⟩ := hphase
  have hself : applyWeekendAdjust d p.weekendAdjust = d := by rw [← hadjust, adjust_adjust]
  refine resumes_of_following (K := q + 1) h.repeats (b := d + strideOf p) ?_ (fun j hj x hx => ?_)
    (fun x hx => ?_) (hfirst_days h d)
  · rw [indexOf_days h]
    linear_combination hq
  · rw [blockAt_days h, List.mem_singleton, indexOf_days h] at hx
    by_cases hjq : j ≤ q
    · have hle := Int.mul_le_mul_of_nonneg_right hjq (show 0 ≤ strideOf p by omega)
      rw [Int.mul_comm (strideOf p)] at hq
      rw [← hself]
      exact adjust_le_adjust _ (by omega)
    · -- only before the start, so before the raw date of the occurrence
      have hle := Int.mul_le_mul_of_nonneg_right (show j ≤ k by omega)
        (show 0 ≤ strideOf p by omega)
      rw [← hadjust]
      exact adjust_le_adjust _ (by omega)
  · have hge := mem_drop_passes_days h hs hx
    have hx' := adjust_bounds p.weekendAdjust x
    omega

end Days

theorem exists_wednesday (r : ℤ) {s : ℤ} (h : ¬ 7 ∣ s) :
    ∃ j : ℕ, 1 ≤ j ∧ j ≤ 7 ∧ (r + j * s + 1) % 7 = 3 := by
  have hfin : ∀ u < 7, ∀ v < 7, v ≠ 0 → ∃ j < 8, 1 ≤ j ∧ (u + j * v + 1) % 7 = 3 := by decide
  obtain ⟨j, hj, hj1, hmod⟩ := hfin (r % 7).toNat (by omega) (s % 7).toNat (by omega) (by omega)
  refine ⟨j, hj1, by omega, ?_⟩
  interval_cases j <;> omega

/-- A daily pattern whose step is not whole weeks does not resume at an occurrence off its days. -/
theorem not_resumes_daily (hp : p.periodType = .daily) (hm : 1 ≤ p.mult)
    (hd : d ∈ schedule p n) (hphase : ¬ (p.mult : ℤ) ∣ d - p.periodStart) (hweek : ¬ 7 ∣ p.mult) :
    ¬ Resumes p d := by
  have h : CountsDays p := .inl hp
  have hstride : strideOf p = p.mult := by simp [strideOf, hp]
  obtain ⟨k, r, hr, hadjust⟩ := exists_block_of_mem_schedule h.repeats hd
  rw [blockAt_days h, List.mem_singleton, indexOf_days h] at hr
  obtain ⟨j, hj1, hj7, hwed⟩ := exists_wednesday r (s := strideOf p) (by rw [hstride]; omega)
  have hoff : ¬ strideOf p ∣ d - r := by
    rintro ⟨q, hq⟩
    refine hphase ⟨q + k, ?_⟩
    rw [← hstride]
    linear_combination hq + hr
  have hjs := Int.mul_le_mul_of_nonneg_right (show (1 : ℤ) ≤ j by omega)
    (show 0 ≤ strideOf p by omega)
  have hlt : d < r + j * strideOf p := by
    have hle := adjust_le_adjust p.weekendAdjust (show r ≤ r + j * strideOf p by omega)
    rw [adjust_wednesday hwed, hadjust] at hle
    rcases Int.lt_or_eq_of_le hle with hlt | heq
    · exact hlt
    · exact absurd ⟨j, by rw [heq]; ring⟩ hoff
  intro hres
  obtain ⟨m, -, hm7, N, hN⟩ := hres 7
  obtain rfl := hm7 (by decide)
  have hlist := hN (k + 1 + (7 + N)) (by omega)
  -- the Wednesday is among the first seven occurrences after the last one
  have hmem : r + j * strideOf p ∈ computeNextOccurrences p (some d) none none 7 d := by
    have hlen : ∀ a n, (passes p a n).length = n := fun a n => by simp [passes_days h]
    rw [hlist, schedule, generateRawDates_eq h.repeats, indexOf_days h,
      List.take_of_length_le (hlen _ _).le, passes_add _ (k + 1), passes_add _ 7,
      List.map_append, List.filter_append, List.map_append, List.filter_append,
      filter_passes_eq_nil, List.nil_append]
    · refine (((List.prefix_append _ _).take 7).subset ?_)
      rw [List.take_of_length_le]
      · refine List.mem_filter.2 ⟨List.mem_map.2 ⟨r + j * strideOf p, ?_, adjust_wednesday hwed⟩,
          by simpa using hlt⟩
        rw [passes_days h, List.mem_map]
        refine ⟨j - 1, List.mem_range.2 (by omega), ?_⟩
        rw [hr]
        push_cast [hj1]
        ring
      · refine (List.length_filter_le ..).trans ?_
        rw [List.length_map, hlen]
    · intro i hi x hx
      rw [blockAt_days h, List.mem_singleton] at hx
      have hle := Int.mul_le_mul_of_nonneg_right (show (i : ℤ) ≤ k by omega)
        (show 0 ≤ strideOf p by omega)
      rw [← hadjust]
      exact adjust_le_adjust _ (by omega)
  rw [hfirst_days h] at hmem
  have hmem := List.mem_of_mem_filter (List.mem_of_mem_take hmem)
  obtain ⟨y, hy, hyx⟩ := List.mem_map.1 hmem
  obtain rfl := eq_of_adjust_wednesday hwed hyx
  obtain ⟨i, -, hi⟩ := mem_passes.1 (List.mem_of_mem_take hy)
  rw [blockAt_days h, List.mem_singleton] at hi
  exact hoff ⟨j - 1 - i, by linear_combination (-1) * hi⟩

/-! ## The single occurrence -/

theorem resumes_once (hp : p.periodType = .once) (hd : d ∈ schedule p n) :
    Resumes p d := by
  have hraw : ∀ startFrom n, ∀ x ∈ generateRawDates p startFrom n, x = p.periodStart := by
    intro startFrom n x hx
    obtain ⟨j, -, hj⟩ := List.mem_flatMap.1 (List.mem_of_mem_take hx)
    simp only [generateStep, hp, fields_newDate] at hj
    split at hj
    · exact List.mem_singleton.1 hj
    · exact absurd hj List.not_mem_nil
  have hall : ∀ startFrom n, ((generateRawDates p startFrom n).map
      fun x => applyWeekendAdjust x p.weekendAdjust).filter (d < ·) = [] := by
    intro startFrom n'
    obtain ⟨r, hr, rfl⟩ := List.mem_map.1 hd
    refine List.filter_eq_nil_iff.2 fun y hy => ?_
    obtain ⟨x, hx, rfl⟩ := List.mem_map.1 hy
    rw [hraw _ _ x hx, hraw _ _ r hr]
    simp
  refine fun count => ⟨count, le_rfl, fun _ => rfl, 0, fun n _ => ?_⟩
  rw [computeNextOccurrences_some, hall, schedule, hall]

/-- At an occurrence of its schedule a pattern resumes unless it is a daily one whose occurrence a
weekend has moved off its days and whose step is not whole weeks. -/
theorem resumes_iff (hm : 1 ≤ p.mult) {d : ℤ} {n : ℕ} (hd : d ∈ schedule p n) :
    Resumes p d ↔
      (p.periodType = .daily → (p.mult : ℤ) ∣ d - p.periodStart ∨ 7 ∣ p.mult) := by
  by_cases hdaily : p.periodType = .daily
  · have h : CountsDays p := .inl hdaily
    have hstride : strideOf p = p.mult := by simp [strideOf, hdaily]
    constructor
    · intro hres _
      by_contra hcon
      rw [not_or] at hcon
      exact not_resumes_daily hdaily hm hd hcon.1 hcon.2 hres
    · intro hcond
      rcases hcond hdaily with hphase | hweek
      · exact resumes_on_phase h hm (by rwa [hstride]) hd
      · exact resumes_weeks h hm (by rw [hstride]; omega) hd
  · refine iff_of_true ?_ fun hp => absurd hp hdaily
    by_cases ha : isAnchored p.periodType = true
    · exact resumes_anchored ha hm hd
    · cases hp : p.periodType <;> simp only [hp, isAnchored, not_true_eq_false] at ha
      case daily => exact absurd hp hdaily
      case once => exact resumes_once hp hd
      case weekly => exact resumes_weeks (.inr hp) hm ⟨p.mult, by simp [strideOf, hp, mul_comm]⟩ hd
      case unknown =>
        have hnil : schedule p n = [] := by
          simp [schedule, generateRawDates, generateStep, hp]
        rw [hnil] at hd
        exact absurd hd List.not_mem_nil

/-- A rent on the last of January, moved back from weekends. -/
def monthEndRent : RecurrencePattern := ⟨.month, 1, newDate 2024 0 31, .back⟩

/-- The rent of March, a Sunday, is paid on Friday the 29th. -/
theorem resumes_iff_monthEndRent :
    1 ≤ monthEndRent.mult ∧ newDate 2024 2 29 ∈ schedule monthEndRent 3 ∧
      (Resumes monthEndRent (newDate 2024 2 29) ↔
        (monthEndRent.periodType = .daily →
          (monthEndRent.mult : ℤ) ∣ newDate 2024 2 29 - monthEndRent.periodStart ∨
            7 ∣ monthEndRent.mult)) :=
  ⟨by decide, by decide +kernel, resumes_iff (n := 3) (by decide) (by decide +kernel)⟩

/-- Every second day from a Saturday, moved back from weekends. -/
def everySecondDay : RecurrencePattern := ⟨.daily, 2, newDate 2024 0 6, .back⟩

/-- The Saturday is stored as the Friday before, and the schedule goes on with the other days. -/
theorem resumes_everySecondDay_false :
    ¬ ∀ (p : RecurrencePattern) (d : ℤ) (n : ℕ), 1 ≤ p.mult → d ∈ schedule p n → Resumes p d := by
  intro h
  have hmem : newDate 2024 0 5 ∈ schedule everySecondDay 1 := by decide +kernel
  refine not_resumes_daily rfl (by decide) hmem (by decide +kernel) (by decide) ?_
  exact h everySecondDay (newDate 2024 0 5) 1 (by decide) hmem

end Recurrence
