import GnucashWeb.Lib.SortedUnion
import GnucashWeb.Recurrence.Resume

/-!
# Composite schedules

A composite schedule is the union of its rows, and its stored date belongs to the union.
`unites_of_keeps`: resumed there, it gives the first dates of the union after it when no row repeats
a date and every row that takes the stored date for its own finds its place in its own cycle again.
A weekly row takes every stored date for its own (`unites_firstAndMondays_false`).
-/

open Civil SortedUnion

namespace Recurrence

/-- The occurrences of a row after a date, among the first so many from its start. -/
def upcoming (p : RecurrencePattern) (d : ℤ) (n : ℕ) : List ℤ := (schedule p n).filter (d < ·)

/-- Resumed at `d`, a composite schedule gives the first dates after `d` of the union of all long
enough parts of its rows' schedules. -/
def Unites (ps : List RecurrencePattern) (d : ℤ) (count : ℕ) : Prop :=
  ∃ N, ∀ n, N ≤ n → computeNextOccurrencesForPatterns ps (some d) none none count d =
    (sortedUnion (ps.map fun p => upcoming p d n)).take count

/-- What a row adds to a composite schedule resumed at `d`. -/
def rowOccurrences (p : RecurrencePattern) (d : ℤ) (count : ℕ) : List ℤ :=
  computeNextOccurrences p ((some d).filter (occurrenceBelongsToMonthlyPattern p)) none none count d

/-- A row adds the first dates of its own schedule. -/
def Gives (p : RecurrencePattern) (d : ℤ) (count : ℕ) : Prop :=
  ∃ N, ∀ n, N ≤ n → rowOccurrences p d count = (upcoming p d n).take count

variable {p : RecurrencePattern} {ps : List RecurrencePattern} {d : ℤ} {count : ℕ}

/-! ## The union of the rows -/

theorem foldl_byTimeSet {dates : List ℤ} (h : dates.Nodup) (added : List ℤ) :
    (added.foldl byTimeSet dates).Nodup ∧
      ∀ x, x ∈ added.foldl byTimeSet dates ↔ x ∈ dates ∨ x ∈ added := by
  induction added generalizing dates with
  | nil => simpa using h
  | cons y added ih =>
    rw [List.foldl_cons]
    by_cases hy : y ∈ dates
    · rw [byTimeSet, if_pos hy]
      refine ⟨(ih h).1, fun x => ?_⟩
      rw [(ih h).2, List.mem_cons]
      constructor
      · rintro (hx | hx) <;> simp [hx]
      · rintro (hx | rfl | hx) <;> simp_all
    · rw [byTimeSet, if_neg hy]
      have hnodup : (dates ++ [y]).Nodup := by
        rw [List.nodup_append]
        exact ⟨h, List.nodup_singleton y, fun a ha b hb hab =>
          hy (List.mem_singleton.1 hb ▸ hab ▸ ha)⟩
      refine ⟨(ih hnodup).1, fun x => ?_⟩
      rw [(ih hnodup).2, List.mem_append, List.mem_singleton, List.mem_cons, or_assoc]

theorem computeNextOccurrencesForPatterns_eq (ps : List RecurrencePattern) (d : ℤ) (count : ℕ) :
    computeNextOccurrencesForPatterns ps (some d) none none count d =
      (sortedUnion (ps.map fun p => rowOccurrences p d count)).take count := by
  unfold computeNextOccurrencesForPatterns
  split
  · rename_i hcase
    rcases hcase with rfl | rfl
    · simp [sortedUnion]
    · simp
  · dsimp only [Option.getD_none]
    rw [min_self]
    obtain ⟨hnodup, hmem⟩ := foldl_byTimeSet List.nodup_nil
      (ps.flatMap fun p => rowOccurrences p d count)
    refine congrArg (List.take count) (insertionSort_eq_sortedUnion hnodup fun x => ?_)
    refine (hmem x).trans ?_
    rw [List.mem_flatMap]
    simp

theorem exists_common_bound {P : RecurrencePattern → ℕ → Prop}
    (h : ∀ p ∈ ps, ∃ N, ∀ n, N ≤ n → P p n) : ∃ N, ∀ n, N ≤ n → ∀ p ∈ ps, P p n := by
  induction ps with
  | nil => exact ⟨0, by simp⟩
  | cons p ps ih =>
    obtain ⟨N, hN⟩ := h p List.mem_cons_self
    obtain ⟨M, hM⟩ := ih fun q hq => h q (List.mem_cons_of_mem _ hq)
    refine ⟨max N M, fun n hn q hq => ?_⟩
    rcases List.mem_cons.1 hq with rfl | hq
    · exact hN n (by omega)
    · exact hM n (by omega) q hq

/-- Rows that add the first dates of their own schedules, in order and without repetitions, are
united. -/
theorem unites_of_gives (hsorted : ∀ p ∈ ps, ∀ n, (upcoming p d n).Pairwise (· ≤ ·))
    (hnodup : ∀ p ∈ ps, ∀ n, ((upcoming p d n).take count).Nodup)
    (h : ∀ p ∈ ps, Gives p d count) : Unites ps d count := by
  obtain ⟨N, hN⟩ := exists_common_bound h
  refine ⟨N, fun n hn => ?_⟩
  have hrows : (ps.map fun p => rowOccurrences p d count) =
      (ps.map fun p => upcoming p d n).map (List.take count) := by
    rw [List.map_map]
    exact List.map_congr_left fun p hp => hN n hn p hp
  rw [computeNextOccurrencesForPatterns_eq, hrows]
  refine take_sortedUnion (fun l hl => ?_) fun l hl => ?_
  · obtain ⟨p, hp, rfl⟩ := List.mem_map.1 hl
    exact hsorted p hp n
  · obtain ⟨p, hp, rfl⟩ := List.mem_map.1 hl
    exact hnodup p hp n

/-! ## The order of a schedule -/

theorem blockAt_sorted (p : RecurrencePattern) (i : ℤ) : (blockAt p i).Pairwise (· < ·) := by
  unfold blockAt anchorDays
  cases hp : p.periodType <;> simp only [List.map_cons, List.map_nil, List.pairwise_singleton,
    List.Pairwise.nil]
  case semiMonthly =>
    split
    · exact List.pairwise_singleton _ _
    · rename_i hne
      generalize blockMonth p i = t at hne
      have hfirst := dateIn_eq_add t (min (getDate p.periodStart) (lengthOf t))
      have hsecond := dateIn_eq_add t (min (getDate p.periodStart + 15) (lengthOf t))
      simp only [List.map_cons, List.map_nil, List.pairwise_cons, List.mem_singleton,
        forall_eq, List.not_mem_nil, IsEmpty.forall_iff, implies_true, List.Pairwise.nil, and_true]
      omega

/-- What holds from every date of a block to the later dates of it, and from every date to those of
later blocks, holds along the raw dates. -/
theorem passes_pairwise {R : ℤ → ℤ → Prop} (hblock : ∀ i, (blockAt p i).Pairwise R)
    (hnext : ∀ i (k : ℕ), 1 ≤ k → ∀ x ∈ blockAt p i, ∀ y ∈ blockAt p (i + k * strideOf p), R x y)
    (a : ℤ) (n : ℕ) : (passes p a n).Pairwise R := by
  unfold passes
  refine List.pairwise_flatMap.2 ⟨fun j _ => hblock _, ?_⟩
  refine List.pairwise_lt_range.imp fun {i j} hij x hx y hy => ?_
  obtain ⟨k, rfl⟩ := Nat.exists_eq_add_of_lt hij
  refine hnext _ (k + 1) (by omega) x hx y ?_
  rwa [show a + (i : ℤ) * strideOf p + ((k + 1 : ℕ) : ℤ) * strideOf p =
    a + ((i + k + 1 : ℕ) : ℤ) * strideOf p by push_cast; ring]

theorem countsDays_of_repeats (h : Repeats p) (ha : ¬ isAnchored p.periodType = true) :
    CountsDays p := by
  cases hp : p.periodType <;> simp_all [isAnchored, Repeats, CountsDays]

theorem lt_of_later_block (h : Repeats p) (hm : 1 ≤ p.mult) {i x y : ℤ} {k : ℕ} (hk : 1 ≤ k)
    (hx : x ∈ blockAt p i) (hy : y ∈ blockAt p (i + k * strideOf p)) : x < y := by
  have hs := strideOf_pos hm
  have hplace := place_lt (a := i) hs (show (0 : ℤ) < k by omega)
  rw [Int.zero_mul, Int.add_zero] at hplace
  by_cases ha : isAnchored p.periodType = true
  · have := blockAt_spaced ha hx hy hplace
    omega
  · have hdays := countsDays_of_repeats h ha
    rw [blockAt_days hdays, List.mem_singleton] at hx hy
    omega

theorem passes_sorted (h : Repeats p) (hm : 1 ≤ p.mult) (a : ℤ) (n : ℕ) :
    (passes p a n).Pairwise (· < ·) :=
  passes_pairwise (blockAt_sorted p) (fun _ _ hk _ hx _ hy => lt_of_later_block h hm hk hx hy) a n

theorem generateRawDates_single (h : ¬ Repeats p) (startFrom : ℤ) (n : ℕ) :
    generateRawDates p startFrom (n + 1) =
      if p.periodType = .once then [p.periodStart] else [] := by
  unfold generateRawDates
  rw [List.range_succ_eq_map, List.flatMap_cons, List.flatMap_map]
  unfold Repeats at h
  by_cases honce : p.periodType = .once
  · simp [generateStep, honce, fields_newDate]
  · have hunknown : p.periodType = .unknown := by
      by_contra hne
      exact h ⟨honce, hne⟩
    simp [generateStep, hunknown]

theorem schedule_sorted (hm : 1 ≤ p.mult) (n : ℕ) : (schedule p n).Pairwise (· ≤ ·) := by
  by_cases h : Repeats p
  · unfold schedule
    rw [generateRawDates_eq h, List.pairwise_map]
    exact ((passes_sorted h hm _ n).sublist (List.take_sublist _ _)).imp fun hlt =>
      adjust_le_adjust _ hlt.le
  · cases n with
    | zero => simp [schedule, generateRawDates]
    | succ n =>
      rw [schedule, generateRawDates_single h]
      split <;> simp

theorem upcoming_nodup (hm : 1 ≤ p.mult) {n : ℕ}
    (h : p.periodType = .daily ∨ p.periodType = .semiMonthly → p.weekendAdjust = .none) :
    (upcoming p d n).Nodup := by
  refine List.Nodup.sublist List.filter_sublist ?_
  by_cases hrep : Repeats p
  · rw [schedule, generateRawDates_eq hrep]
    refine List.pairwise_map.2 (List.Pairwise.sublist (List.take_sublist _ _) ?_)
    by_cases hnone : p.weekendAdjust = .none
    · rw [hnone]
      exact (passes_sorted hrep hm _ n).imp fun hlt => hlt.ne
    · have hperiod : p.periodType ≠ .daily ∧ p.periodType ≠ .semiMonthly :=
        ⟨fun hp => hnone (h (.inl hp)), fun hp => hnone (h (.inr hp))⟩
      refine passes_pairwise (fun i => ?_) (fun i k hk x hx y hy => ?_) _ n
      · unfold blockAt anchorDays
        cases hp : p.periodType <;> simp_all
      · by_cases ha : isAnchored p.periodType = true
        · have hplace := place_lt (a := i) (strideOf_pos hm) (show (0 : ℤ) < k by omega)
          have hgap := blockAt_spaced ha hx hy (by simpa using hplace)
          have hx' := adjust_bounds p.weekendAdjust x
          have hy' := adjust_bounds p.weekendAdjust y
          omega
        · have hweekly := (countsDays_of_repeats hrep ha).resolve_left hperiod.1
          rw [blockAt_days (.inr hweekly), List.mem_singleton] at hx hy
          have hstride : i + k * strideOf p = i + 7 * (k * p.mult) := by
            simp only [strideOf, hweekly]
            ring
          have hpos := Int.mul_pos (show (0 : ℤ) < k by omega) (show (0 : ℤ) < p.mult by omega)
          rw [hx, hy, hstride, adjust_add_weeks]
          omega
  · cases n with
    | zero => simp [schedule, generateRawDates]
    | succ n =>
      rw [schedule, generateRawDates_single hrep]
      split <;> simp

/-! ## A row that starts over or goes on -/

theorem rowOccurrences_of_belongs (h : occurrenceBelongsToMonthlyPattern p d = true) :
    rowOccurrences p d count =
      (((generateRawDates p (computeFirstAfterLast p d) (maxIterations + 1)).map
        fun x => applyWeekendAdjust x p.weekendAdjust).filter (d < ·)).take count := by
  rw [rowOccurrences, Option.filter_some, if_pos h, computeNextOccurrences_some]

theorem rowOccurrences_of_not_belongs (h : occurrenceBelongsToMonthlyPattern p d = false) :
    rowOccurrences p d count = (upcoming p d (maxIterations + 1)).take count := by
  rw [rowOccurrences, Option.filter_some, if_neg (by simp [h])]
  unfold computeNextOccurrences
  rw [if_neg (by simp)]
  by_cases hcount : count = 0
  · rw [if_pos hcount, hcount, List.take_zero]
  · rw [if_neg hcount]
    dsimp only
    rw [fields_newDate]
    exact collect_eq (by omega) _

theorem gives_single (h : ¬ Repeats p) : Gives p d count := by
  refine ⟨1, fun n hn => ?_⟩
  obtain ⟨n, rfl⟩ : ∃ k, n = k + 1 := ⟨n - 1, by omega⟩
  have hbelongs : occurrenceBelongsToMonthlyPattern p d = true := by
    unfold Repeats at h
    unfold occurrenceBelongsToMonthlyPattern isMonthly
    cases hp : p.periodType <;> simp_all [isAnchored]
  rw [rowOccurrences_of_belongs hbelongs, generateRawDates_single h, upcoming, schedule,
    generateRawDates_single h]

/-- A row that goes on from a place of its cycle before which its schedule holds no date after `d`,
and from which it reaches enough of them. -/
theorem gives_of_following (h : Repeats p) {b : ℤ} {K : ℕ}
    (hb : b = indexOf p.periodType p.periodStart + K * strideOf p)
    (hbefore : ∀ j : ℤ, 0 ≤ j → j < K →
      ∀ x ∈ blockAt p (indexOf p.periodType p.periodStart + j * strideOf p),
        applyWeekendAdjust x p.weekendAdjust ≤ d)
    (hlen : count ≤ (following p d b (maxIterations + 1)).length)
    (hrow : rowOccurrences p d count = (following p d b (maxIterations + 1)).take count) :
    Gives p d count := by
  obtain ⟨N, hN⟩ := following_isPrefix h hb (fun j hj hj' => hbefore j (by omega) (by omega))
    (maxIterations + 1)
  refine ⟨N, fun n hn => ?_⟩
  have hpre := List.prefix_iff_eq_take.1 (hN n hn)
  have hupcoming : upcoming p d n = following p d (indexOf p.periodType p.periodStart) n := by
    rw [upcoming, schedule, generateRawDates_eq h]
    rfl
  rw [hrow, hupcoming]
  refine (congrArg (List.take count) hpre).trans ?_
  rw [List.take_take, min_eq_left hlen]

theorem gives_of_not_belongs (h : Repeats p)
    (hbelongs : occurrenceBelongsToMonthlyPattern p d = false)
    (hreach : count + ((schedule p (maxIterations + 1)).filter (· ≤ d)).length ≤ maxIterations + 1) :
    Gives p d count := by
  have hfollowing : upcoming p d (maxIterations + 1) =
      following p d (indexOf p.periodType p.periodStart) (maxIterations + 1) := by
    rw [upcoming, schedule, generateRawDates_eq h]
    rfl
  refine gives_of_following (K := 0) h (by simp) (fun j hj hj' => by omega) ?_
    ((rowOccurrences_of_not_belongs hbelongs).trans (congrArg _ hfollowing))
  rw [← hfollowing]
  have hall : (schedule p (maxIterations + 1)).length = maxIterations + 1 := by
    have hlen := (length_passes h (indexOf p.periodType p.periodStart) (maxIterations + 1)).1
    rw [schedule, generateRawDates_eq h, List.length_map, List.length_take, min_eq_left hlen]
  have hsplit := List.length_eq_length_filter_add (l := schedule p (maxIterations + 1)) (d < ·)
  have hpast : ((schedule p (maxIterations + 1)).filter fun x => !decide (d < x)) =
      (schedule p (maxIterations + 1)).filter (· ≤ d) := by
    refine List.filter_congr fun x _ => ?_
    rw [Bool.eq_iff_iff]
    simp
  rw [hpast, hall] at hsplit
  unfold upcoming
  generalize ((schedule p (maxIterations + 1)).filter (· ≤ d)).length = past at hreach hsplit
  generalize ((schedule p (maxIterations + 1)).filter (d < ·)).length = left at hsplit ⊢
  generalize maxIterations = M at hreach hsplit
  omega

theorem gives_of_belongs (h : Repeats p)
    (hbelongs : occurrenceBelongsToMonthlyPattern p d = true) (hcount : count < maxIterations)
    {b : ℤ} (hindex : indexOf p.periodType (computeFirstAfterLast p d) = b) {K : ℕ}
    (hb : b = indexOf p.periodType p.periodStart + K * strideOf p)
    (hbefore : ∀ j : ℤ, 0 ≤ j → j < K →
      ∀ x ∈ blockAt p (indexOf p.periodType p.periodStart + j * strideOf p),
        applyWeekendAdjust x p.weekendAdjust ≤ d)
    (hfar : ∀ x ∈ (passes p b (maxIterations + 1)).drop 2,
      d < applyWeekendAdjust x p.weekendAdjust) : Gives p d count := by
  have hlen := length_following h hfar
  have harith : ∀ M len : ℕ, M + 1 - 2 ≤ len → count < M → count ≤ len := by omega
  refine gives_of_following h hb hbefore (harith _ _ hlen hcount) ?_
  rw [rowOccurrences_of_belongs hbelongs, generateRawDates_eq h, hindex]
  rfl

/-- Where a row that takes the stored date for its own finds its place in its cycle again. -/
def FindsPlace (p : RecurrencePattern) (d : ℤ) : Prop :=
  let adjust x := applyWeekendAdjust x p.weekendAdjust
  let raw := rawAnchoredOccurrence p d
  match p.periodType with
  | .once | .unknown => True
  | .daily | .weekly =>
    ∃ r, strideOf p ∣ r - p.periodStart ∧ p.periodStart ≤ r + strideOf p ∧ adjust r = adjust d ∧
      (r < p.periodStart ∨ adjust d ≤ d) ∧ (r = d ∨ 7 ∣ strideOf p)
  | .year =>
    (p.mult : ℤ) ∣ getFullYear raw - getFullYear p.periodStart ∧
      getFullYear p.periodStart ≤ getFullYear raw + p.mult ∧
        (getFullYear p.periodStart ≤ getFullYear raw →
          ∀ x ∈ blockAt p (getFullYear raw), adjust x ≤ d)
  | .month | .endOfMonth | .nthWeekday | .lastWeekday | .semiMonthly =>
    adjust raw ≤ d ∨ p.periodType = .semiMonthly ∧
      ∃ day ∈ semiMonthlyAnchorDays p.periodStart (getFullYear raw) (getMonth raw), getDate raw < day

theorem gives_days (h : CountsDays p) (hm : 1 ≤ p.mult) (hcount : count < maxIterations)
    (hplace : FindsPlace p d) : Gives p d count := by
  have hs := strideOf_pos hm
  have hbelongs : occurrenceBelongsToMonthlyPattern p d = true := by
    unfold occurrenceBelongsToMonthlyPattern isMonthly
    rcases h with h | h <;> simp [h, isAnchored]
  obtain ⟨r, ⟨q, hq⟩, hstart, hadjust, hpast, hphase⟩ : ∃ r, strideOf p ∣ r - p.periodStart ∧
      p.periodStart ≤ r + strideOf p ∧
        applyWeekendAdjust r p.weekendAdjust = applyWeekendAdjust d p.weekendAdjust ∧
          (r < p.periodStart ∨ applyWeekendAdjust d p.weekendAdjust ≤ d) ∧
            (r = d ∨ 7 ∣ strideOf p) := by
    unfold FindsPlace at hplace
    rcases h with h | h <;> simpa only [h] using hplace
  -- the adjusted dates from the stored date are those from the day of the cycle
  have hsame : following p d (d + strideOf p) (maxIterations + 1) =
      following p d (r + strideOf p) (maxIterations + 1) := by
    rcases hphase with rfl | ⟨w, hw⟩
    · rfl
    · unfold following
      rw [passes_days h, passes_days h, ← List.map_take, ← List.map_take, List.map_map,
        List.map_map]
      refine congrArg (List.filter _) (List.map_congr_left fun j _ => ?_)
      have hshift : ∀ a : ℤ, a + strideOf p + j * strideOf p = a + 7 * (w + j * w) := fun a => by
        rw [hw]
        ring
      simp only [Function.comp_apply]
      rw [hshift, hshift, adjust_add_weeks, adjust_add_weeks, hadjust]
  obtain ⟨K, hK⟩ : ∃ K : ℕ, q + 1 = K := by
    refine ⟨(q + 1).toNat, (Int.toNat_of_nonneg ?_).symm⟩
    by_contra hneg
    have hle := Int.mul_le_mul_of_nonneg_left (show q ≤ -2 by omega) (show 0 ≤ strideOf p by omega)
    omega
  refine gives_of_following (b := r + strideOf p) (K := K) h.repeats ?_ (fun j hj hjK x hx => ?_) ?_ ?_
  · rw [indexOf_days h, ← hK]
    linear_combination hq
  · rw [blockAt_days h, List.mem_singleton, indexOf_days h] at hx
    have hle := Int.mul_le_mul_of_nonneg_right (show j ≤ q by omega) (show 0 ≤ strideOf p by omega)
    have hnn := Int.mul_nonneg hj (show 0 ≤ strideOf p by omega)
    rw [Int.mul_comm (strideOf p)] at hq
    have hxr := adjust_le_adjust p.weekendAdjust (show x ≤ r by omega)
    rcases hpast with hlt | hpast
    · omega
    · omega
  · rw [← hsame]
    have hlen := length_following h.repeats (d := d) (b := d + strideOf p)
      (M := maxIterations + 1) fun x hx => by
        have hge := mem_drop_passes_days h hs hx
        have hx' := adjust_bounds p.weekendAdjust x
        omega
    have harith : ∀ M len : ℕ, M + 1 - 2 ≤ len → count < M → count ≤ len := by omega
    exact harith _ _ hlen hcount
  · rw [rowOccurrences, Option.filter_some, if_pos hbelongs, hfirst_days h, hsame]

theorem rawAnchoredOccurrence_near :
    d - 2 ≤ rawAnchoredOccurrence p d ∧ rawAnchoredOccurrence p d ≤ d + 2 := by
  unfold rawAnchoredOccurrence
  split
  · omega
  · by_cases hnil : rawCandidates p d = []
    · rw [hnil]
      simp
    · exact (mem_rawCandidates.1 (head_insertionSort_mem hnil d)).1

theorem gives_monthly (h : isMonthly p.periodType = true) (hm : 1 ≤ p.mult)
    (hbelongs : occurrenceBelongsToMonthlyPattern p d = true) (hcount : count < maxIterations)
    (hplace : FindsPlace p d) : Gives p d count := by
  have hs := strideOf_pos hm
  have ha : isAnchored p.periodType = true := by
    unfold isMonthly at h
    simp_all
  have hrep : Repeats p := by
    unfold Repeats
    cases hp : p.periodType <;> simp_all [isAnchored]
  have hperiod : ∀ x, indexOf p.periodType x = monthIndex x ∧ strideOf p = p.mult := fun x => by
    unfold indexOf strideOf
    cases hp : p.periodType <;> simp_all [isMonthly, isAnchored]
  have hnear := rawAnchoredOccurrence_near (p := p) (d := d)
  -- the raw date is one of the pattern, a whole number of steps from the start
  obtain ⟨hraw, k, hk⟩ : rawAnchoredOccurrence p d ∈
      blockAt p (indexOf p.periodType (rawAnchoredOccurrence p d)) ∧
        ∃ k : ℕ, indexOf p.periodType (rawAnchoredOccurrence p d) =
          indexOf p.periodType p.periodStart + k * strideOf p := by
    have hb := hbelongs
    unfold occurrenceBelongsToMonthlyPattern at hb
    rw [if_neg (by simpa using h)] at hb
    simp only [Bool.and_eq_true, decide_eq_true_eq] at hb
    obtain ⟨⟨hmatch, hnn⟩, hmod⟩ := hb
    refine ⟨(matchesRawAnchor_iff ha _).1 hmatch, ?_⟩
    obtain ⟨q, hq⟩ := Int.dvd_of_emod_eq_zero hmod
    have hqnn : 0 ≤ q := by
      by_contra hneg
      have hle := Int.mul_le_mul_of_nonneg_left (show q ≤ -1 by omega)
        (show (0 : ℤ) ≤ p.mult by omega)
      omega
    refine ⟨q.toNat, ?_⟩
    rw [(hperiod _).1, (hperiod _).1, (hperiod 0).2, Int.toNat_of_nonneg hqnn, Int.mul_comm]
    unfold monthIndex
    omega
  generalize hi : indexOf p.periodType (rawAnchoredOccurrence p d) = i at hraw hk
  -- earlier blocks lie before the stored date and later ones after it
  have hpast : ∀ j : ℤ, j < k →
      ∀ x ∈ blockAt p (indexOf p.periodType p.periodStart + j * strideOf p),
        applyWeekendAdjust x p.weekendAdjust ≤ d := by
    intro j hj x hx
    have hgap := blockAt_spaced ha hx hraw (hk ▸ place_lt hs hj)
    have hx' := adjust_bounds p.weekendAdjust x
    omega
  have hlater : ∀ b, i ≤ b → ∀ x ∈ (passes p b (maxIterations + 1)).drop 2,
      d < applyWeekendAdjust x p.weekendAdjust := by
    intro b hb x hx
    obtain ⟨j, hj, hx⟩ := exists_later_block hrep hs hx
    have hgap := blockAt_spaced ha hraw hx (show i < j by omega)
    have hx' := adjust_bounds p.weekendAdjust x
    omega
  rcases computeFirstAfterLast_raw ha hrep hraw with hindex | ⟨hindex, hover⟩
  · exact gives_of_belongs (K := k) hrep hbelongs hcount hindex hk
      (fun j _ hj => hpast j (by omega)) (hlater i (by omega))
  · refine gives_of_belongs (K := k + 1) hrep hbelongs hcount hindex ?_ (fun j _ hj x hx => ?_)
      (hlater _ (by omega))
    · rw [hk]
      push_cast
      ring
    · rcases Int.lt_or_eq_of_le (show j ≤ k by omega) with hlt | rfl
      · exact hpast j hlt x hx
      · rw [← hk] at hx
        have hadjust : applyWeekendAdjust (rawAnchoredOccurrence p d) p.weekendAdjust ≤ d := by
          have hcases : applyWeekendAdjust (rawAnchoredOccurrence p d) p.weekendAdjust ≤ d ∨
              p.periodType = .semiMonthly ∧ ∃ day ∈ semiMonthlyAnchorDays p.periodStart
                (getFullYear (rawAnchoredOccurrence p d)) (getMonth (rawAnchoredOccurrence p d)),
                  getDate (rawAnchoredOccurrence p d) < day := by
            unfold FindsPlace at hplace
            cases hp : p.periodType <;> simp_all [isMonthly, isAnchored]
          refine hcases.resolve_right ?_
          rintro ⟨hsemi, day, hday, hlt⟩
          -- a later anchor of the month is in the block, which the raw date was to end
          rw [semiMonthlyAnchorDays_eq p _ _ hsemi, monthIndex_eq, ← (hperiod _).1, hi] at hday
          have hmem : dateIn i day ∈ blockAt p i := by
            rw [blockAt_anchored ha, show blockMonth p i = i by simp [blockMonth, hsemi]]
            exact List.mem_map_of_mem hday
          have hle := hover _ hmem
          have hday1 := dateIn_eq_add i day
          have hraw1 := dateIn_eq_add i (getDate (rawAnchoredOccurrence p d))
          have hself := dateIn_getDate (rawAnchoredOccurrence p d)
          rw [← (hperiod _).1, hi] at hself
          omega
        exact Int.le_trans (adjust_le_adjust _ (hover x hx)) hadjust

theorem gives_year (h : p.periodType = .year) (hm : 1 ≤ p.mult) (hcount : count < maxIterations)
    (hplace : FindsPlace p d) : Gives p d count := by
  have hs := strideOf_pos hm
  have ha : isAnchored p.periodType = true := by rw [h]; rfl
  have hrep : Repeats p := by simp [Repeats, h]
  have hstride : strideOf p = p.mult := by simp [strideOf, h]
  have hyear : ∀ x, indexOf p.periodType x = getFullYear x := fun x => by simp [indexOf, h]
  have hbelongs : occurrenceBelongsToMonthlyPattern p d = true := by
    simp [occurrenceBelongsToMonthlyPattern, isMonthly, h]
  have hnear := rawAnchoredOccurrence_near (p := p) (d := d)
  simp only [FindsPlace, h] at hplace
  obtain ⟨⟨q, hq⟩, hstart, hover⟩ := hplace
  obtain ⟨K, hK⟩ : ∃ K : ℕ, q + 1 = K := by
    refine ⟨(q + 1).toNat, (Int.toNat_of_nonneg ?_).symm⟩
    by_contra hneg
    have hle := Int.mul_le_mul_of_nonneg_left (show q ≤ -2 by omega)
      (show (0 : ℤ) ≤ p.mult by omega)
    omega
  have hindex : indexOf p.periodType (computeFirstAfterLast p d) =
      getFullYear (rawAnchoredOccurrence p d) + p.mult := by
    refine indexOf_of_mem_blockAt hrep ?_
    unfold computeFirstAfterLast blockAt anchorDays blockMonth
    simp only [h, isAnchored, if_true, List.map_cons, List.map_nil, List.mem_singleton]
    rw [clampDay_eq, newDate_eq_dateIn]
  refine gives_of_belongs (K := K) hrep hbelongs hcount hindex ?_ (fun j hj hjK x hx => ?_) ?_
  · rw [hyear, hstride, ← hK]
    linear_combination hq
  · rw [hyear, hstride] at hx
    have hjq := Int.mul_le_mul_of_nonneg_right (show j ≤ q by omega) (show (0 : ℤ) ≤ p.mult by omega)
    have hqnn := Int.mul_nonneg (show 0 ≤ q by omega) (show (0 : ℤ) ≤ p.mult by omega)
    rw [Int.mul_comm (p.mult : ℤ)] at hq
    have hstored := hover (by omega)
    rcases Int.lt_or_eq_of_le (show getFullYear p.periodStart + j * p.mult ≤
        getFullYear (rawAnchoredOccurrence p d) by omega) with hlt | heq
    · -- an earlier year than that of the raw date
      obtain ⟨y, hy⟩ := List.exists_mem_of_ne_nil _ (List.ne_nil_of_length_pos
        (length_blockAt hrep (getFullYear (rawAnchoredOccurrence p d))).1)
      have hgap := blockAt_spaced ha hx hy hlt
      exact Int.le_trans (adjust_le_adjust _ (by omega)) (hstored y hy)
    · rw [heq] at hx
      exact hstored x hx
  · intro x hx
    obtain ⟨i, hi, hx⟩ := exists_later_block hrep hs hx
    -- the year after that of the raw date lies between
    obtain ⟨y, hy⟩ := List.exists_mem_of_ne_nil _ (List.ne_nil_of_length_pos
      (length_blockAt hrep (getFullYear (rawAnchoredOccurrence p d) + 1)).1)
    have hgap := blockAt_spaced ha hy hx (by omega)
    have hnext := (hyear y).symm.trans (indexOf_of_mem_blockAt hrep hy)
    have hspec := (getFullYear_spec y).1
    have hspec' := (getFullYear_spec (rawAnchoredOccurrence p d)).2
    rw [hnext] at hspec
    have hx' := adjust_bounds p.weekendAdjust x
    omega

/-! ## Resuming a composite schedule -/

/-- A row keeps to its schedule from a stored date on: the dates asked for are distinct, when it
takes the stored date for its own it finds its place, and else it reaches the dates asked for from
its start within the safety limit. -/
structure RowKeeps (p : RecurrencePattern) (d : ℤ) (count : ℕ) : Prop where
  distinct : ∀ n, ((upcoming p d n).take count).Nodup
  finds : occurrenceBelongsToMonthlyPattern p d = true → FindsPlace p d
  reaches : occurrenceBelongsToMonthlyPattern p d = false →
    count + ((schedule p (maxIterations + 1)).filter (· ≤ d)).length ≤ maxIterations + 1

theorem RowKeeps.gives (h : RowKeeps p d count) (hm : 1 ≤ p.mult) (hcount : count < maxIterations) :
    Gives p d count := by
  cases hbelongs : occurrenceBelongsToMonthlyPattern p d with
  | false =>
    have hrep : Repeats p := by
      unfold occurrenceBelongsToMonthlyPattern isMonthly at hbelongs
      unfold Repeats
      cases hp : p.periodType <;> simp_all [isAnchored]
    exact gives_of_not_belongs hrep hbelongs (h.reaches hbelongs)
  | true =>
    have hplace := h.finds hbelongs
    cases hp : p.periodType with
    | once => exact gives_single (by simp [Repeats, hp])
    | unknown => exact gives_single (by simp [Repeats, hp])
    | daily => exact gives_days (.inl hp) hm hcount hplace
    | weekly => exact gives_days (.inr hp) hm hcount hplace
    | year => exact gives_year hp hm hcount hplace
    | month | endOfMonth | nthWeekday | lastWeekday | semiMonthly =>
      exact gives_monthly (by rw [hp]; rfl) hm hbelongs hcount hplace

/-- Resumed at a stored date from which every row keeps to its schedule, a composite schedule gives
the first dates of the union of the schedules after it. -/
theorem unites_of_keeps (hm : ∀ p ∈ ps, 1 ≤ p.mult) (hcount : count < maxIterations)
    (h : ∀ p ∈ ps, RowKeeps p d count) : Unites ps d count :=
  unites_of_gives (fun p hp n => (schedule_sorted (hm p hp) n).sublist List.filter_sublist)
    (fun p hp => (h p hp).distinct) fun p hp => (h p hp).gives (hm p hp) hcount

/-- Every Monday from January 1, and the fifteenth of the month, first a Monday. -/
def mondaysAndFifteenth : List RecurrencePattern :=
  [⟨.weekly, 1, newDate 2024 0 1, .none⟩, ⟨.month, 1, newDate 2024 0 15, .none⟩]

/-- Both rows go on from the Monday that is a fifteenth. -/
theorem unites_mondaysAndFifteenth :
    (∀ p ∈ mondaysAndFifteenth, 1 ≤ p.mult) ∧ 3 < maxIterations ∧
      (∀ p ∈ mondaysAndFifteenth, RowKeeps p (newDate 2024 0 15) 3) ∧
        Unites mondaysAndFifteenth (newDate 2024 0 15) 3 := by
  have hm : ∀ p ∈ mondaysAndFifteenth, 1 ≤ p.mult := by decide
  have hcount : 3 < maxIterations := by decide
  have h : ∀ p ∈ mondaysAndFifteenth, RowKeeps p (newDate 2024 0 15) 3 := by
    intro p hp
    have hnone : p.weekendAdjust = .none := by
      revert p
      decide
    refine ⟨fun n => (upcoming_nodup (hm p hp) fun _ => hnone).sublist (List.take_sublist _ _),
      fun _ => ?_, fun hno => ?_⟩
    · rcases List.mem_cons.1 hp with rfl | hp
      · exact ⟨newDate 2024 0 15, ⟨2, by decide +kernel⟩, by decide +kernel, rfl,
          .inr (by decide +kernel), .inl rfl⟩
      · obtain rfl := List.mem_singleton.1 hp
        exact .inl (by decide +kernel)
    · revert hno
      revert p
      decide +kernel
  exact ⟨hm, hcount, h, unites_of_keeps hm hcount h⟩

/-- After Thursday, February 15, the Mondays go on as Thursdays. -/
theorem unites_mondaysAndFifteenth_false :
    ¬ ∀ (ps : List RecurrencePattern) (d : ℤ) (count n : ℕ) (p : RecurrencePattern),
      (∀ q ∈ ps, 1 ≤ q.mult) → p ∈ ps → d ∈ schedule p n → Unites ps d count := by
  intro h
  obtain ⟨N, hN⟩ := h mondaysAndFifteenth (newDate 2024 1 15) 1 2
    ⟨.month, 1, newDate 2024 0 15, .none⟩ (by decide) (by decide) (by decide +kernel)
  have hrun : computeNextOccurrencesForPatterns mondaysAndFifteenth (some (newDate 2024 1 15)) none
      none 1 (newDate 2024 1 15) = [newDate 2024 1 22] := by decide +kernel
  have hmem : newDate 2024 1 22 ∈
      sortedUnion (mondaysAndFifteenth.map fun p => upcoming p (newDate 2024 1 15) N) := by
    refine List.mem_of_mem_take (i := 1) ?_
    rw [← hN N le_rfl, hrun]
    exact List.mem_singleton_self _
  obtain ⟨l, hl, hmem⟩ := mem_sortedUnion.1 hmem
  obtain ⟨p, hp, rfl⟩ := List.mem_map.1 hl
  have hmem := List.mem_of_mem_filter hmem
  rcases List.mem_cons.1 hp with rfl | hp
  · -- no Monday
    obtain ⟨k, r, hr, hadjust⟩ := exists_block_of_mem_schedule (by simp [Repeats]) hmem
    simp only [blockAt, strideOf, indexOf, List.mem_singleton, adjust_none] at hr hadjust
    rw [hr, show newDate 2024 1 22 = 738937 by decide, show newDate 2024 0 1 = 738885 by decide]
      at hadjust
    omega
  · -- no fifteenth
    obtain rfl := List.mem_singleton.1 hp
    obtain ⟨k, r, hr, hadjust⟩ := exists_block_of_mem_schedule (by simp [Repeats]) hmem
    have hmatch := (matchesRawAnchor_iff rfl r).2
      (by rwa [indexOf_of_mem_blockAt (by simp [Repeats]) hr])
    rw [adjust_none] at hadjust
    rw [hadjust] at hmatch
    revert hmatch
    decide +kernel

end Recurrence
