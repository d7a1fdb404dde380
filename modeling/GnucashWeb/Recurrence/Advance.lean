import GnucashWeb.Recurrence.Stream

/-!
# Advancing from the last occurrence

A stored date is an adjusted one.  `rawAnchoredOccurrence_spec` says that an anchored pattern finds
a raw date of the block it came from, and `computeFirstAfterLast_anchored` that it goes on with the
rest of that block or with the block one stride later.
-/

open Civil

namespace Recurrence

variable {p : RecurrencePattern}

theorem dateIn_eq_add (t d : ℤ) : dateIn t d = dateIn t 1 + (d - 1) := by
  have h := dateIn_add t 1 (d - 1)
  rwa [show 1 + (d - 1) = d by omega] at h

theorem dateIn_inj {t d e : ℤ} : dateIn t d = dateIn t e ↔ d = e := by
  rw [dateIn_eq_add t d, dateIn_eq_add t e]
  omega

theorem eq_dateIn_iff {x d : ℤ} : x = dateIn (monthIndex x) d ↔ getDate x = d := by
  constructor
  · intro h
    exact dateIn_inj.1 ((dateIn_getDate x).trans h)
  · rintro rfl
    exact (dateIn_getDate x).symm

theorem monthIndex_eq (x : ℤ) : 12 * getFullYear x + getMonth x = monthIndex x := rfl

theorem matchesRawAnchor_iff (h : isAnchored p.periodType = true) (x : ℤ) :
    matchesRawAnchor p x = true ↔ x ∈ blockAt p (indexOf p.periodType x) := by
  rw [blockAt_anchored h, List.mem_map]
  unfold matchesRawAnchor indexOf blockMonth anchorDays
  dsimp only
  cases hp : p.periodType <;> simp only [hp, isAnchored, Bool.false_eq_true] at h ⊢
  case month =>
    rw [decide_eq_true_eq, clampDay_eq, monthIndex_eq, ← eq_dateIn_iff]
    simp [eq_comm]
  case endOfMonth =>
    rw [decide_eq_true_eq, lastDayOfMonth_eq, monthIndex_eq, ← eq_dateIn_iff]
    simp [eq_comm]
  case nthWeekday =>
    rw [decide_eq_true_eq, weekdayOccurrence_eq, monthIndex_eq]
    simp [eq_comm]
  case lastWeekday =>
    rw [decide_eq_true_eq, weekdayOccurrence_eq, monthIndex_eq]
    simp [eq_comm]
  case semiMonthly =>
    rw [decide_eq_true_eq, semiMonthlyAnchorDays_eq p _ _ hp, monthIndex_eq]
    simp only [anchorDays, hp]
    constructor
    · intro hx
      exact ⟨getDate x, hx, dateIn_getDate x⟩
    · rintro ⟨d, hd, hx⟩
      rwa [eq_dateIn_iff.1 hx.symm]
  case year =>
    rw [Bool.and_eq_true, decide_eq_true_eq, decide_eq_true_eq, clampDay_eq]
    simp only [List.mem_singleton, exists_eq_left]
    constructor
    · rintro ⟨hm, hd⟩
      rw [monthIndex_eq] at hd
      rw [← hm, monthIndex_eq]
      exact (eq_dateIn_iff.2 hd).symm
    · intro hx
      have hlen := lengthOf_bounds (12 * getFullYear x + getMonth p.periodStart)
      have hstart := getDate_mem_lengthOf p.periodStart
      have hindex : monthIndex x = 12 * getFullYear x + getMonth p.periodStart := by
        have hmonth := monthIndex_dateIn (t := 12 * getFullYear x + getMonth p.periodStart)
          (d := min (getDate p.periodStart)
            (lengthOf (12 * getFullYear x + getMonth p.periodStart))) (by omega)
        rwa [hx] at hmonth
      rw [← hindex] at hx
      refine ⟨?_, ?_⟩
      · unfold monthIndex at hindex
        omega
      · rw [monthIndex_eq]
        exact eq_dateIn_iff.1 hx.symm

/-! ## The raw date of a stored one -/

theorem head_insertionSort_mem {r : ℤ → ℤ → Prop} [DecidableRel r] {l : List ℤ} (h : l ≠ [])
    (d : ℤ) : (l.insertionSort r).headD d ∈ l := by
  have hperm := List.perm_insertionSort r l
  cases hsort : l.insertionSort r with
  | nil =>
    rw [hsort] at hperm
    exact absurd hperm.symm.eq_nil h
  | cons a rest =>
    rw [hsort] at hperm
    exact hperm.mem_iff.1 List.mem_cons_self

theorem mem_rawCandidates {lastOccur x : ℤ} :
    x ∈ rawCandidates p lastOccur ↔
      (lastOccur - 2 ≤ x ∧ x ≤ lastOccur + 2) ∧ matchesRawAnchor p x = true ∧
        applyWeekendAdjust x p.weekendAdjust = lastOccur := by
  unfold rawCandidates
  rw [List.mem_filter, Bool.and_eq_true, decide_eq_true_eq]
  refine and_congr_left fun _ => ?_
  simp only [newDate_getDate_add, List.mem_map, List.mem_cons, List.not_mem_nil, or_false,
    exists_eq_or_imp, exists_eq_left]
  omega

/-- From the adjusted date of a raw date of a block, the pattern finds a raw date of the same block
with that adjusted date. -/
theorem rawAnchoredOccurrence_spec (h : isAnchored p.periodType = true) (hrep : Repeats p)
    {i r : ℤ} (hr : r ∈ blockAt p i) :
    rawAnchoredOccurrence p (applyWeekendAdjust r p.weekendAdjust) ∈ blockAt p i ∧
      applyWeekendAdjust (rawAnchoredOccurrence p (applyWeekendAdjust r p.weekendAdjust))
        p.weekendAdjust = applyWeekendAdjust r p.weekendAdjust := by
  unfold rawAnchoredOccurrence
  by_cases hnone : p.weekendAdjust = .none
  · rw [if_pos hnone, hnone]
    exact ⟨hr, rfl⟩
  · rw [if_neg hnone]
    have hindex := indexOf_of_mem_blockAt hrep hr
    have hself : r ∈ rawCandidates p (applyWeekendAdjust r p.weekendAdjust) := by
      have hb := adjust_bounds p.weekendAdjust r
      rw [mem_rawCandidates, matchesRawAnchor_iff h, hindex]
      exact ⟨by omega, hr, rfl⟩
    generalize hd : applyWeekendAdjust r p.weekendAdjust = d at hself ⊢
    have hmem := head_insertionSort_mem
      (r := fun a b : ℤ => (a - d).natAbs ≤ (b - d).natAbs) (List.ne_nil_of_mem hself) d
    generalize ((rawCandidates p d).insertionSort fun a b : ℤ =>
      (a - d).natAbs ≤ (b - d).natAbs).headD d = q at hmem ⊢
    obtain ⟨hnear, hmatch, hadjust⟩ := mem_rawCandidates.1 hmem
    refine ⟨?_, hadjust⟩
    rw [matchesRawAnchor_iff h] at hmatch
    -- another block is too far away
    have hb := adjust_bounds p.weekendAdjust r
    rcases Int.lt_trichotomy (indexOf p.periodType q) i with hlt | heq | hgt
    · have := blockAt_spaced h hmatch hr hlt
      omega
    · rwa [heq] at hmatch
    · have := blockAt_spaced h hr hmatch hgt
      omega

theorem anchorDays_ne_nil (h : isAnchored p.periodType = true) (t : ℤ) : anchorDays p t ≠ [] := by
  unfold anchorDays
  cases hp : p.periodType <;> simp only [hp, isAnchored, Bool.false_eq_true] at h ⊢
  case semiMonthly => split <;> simp
  all_goals simp

theorem blockAt_single (h : isAnchored p.periodType = true) (hs : p.periodType ≠ .semiMonthly)
    {i r x : ℤ} (hr : r ∈ blockAt p i) (hx : x ∈ blockAt p i) : x = r := by
  rw [blockAt_anchored h] at hr hx
  unfold anchorDays at hr hx
  cases hp : p.periodType <;> simp_all [isAnchored]

/-- An anchored pattern goes on from a raw date with the rest of its block, or one stride later when
the raw date is the last of the block. -/
theorem computeFirstAfterLast_raw (h : isAnchored p.periodType = true) (hrep : Repeats p)
    {d i : ℤ} (hraw : rawAnchoredOccurrence p d ∈ blockAt p i) :
    indexOf p.periodType (computeFirstAfterLast p d) = i ∨
      (indexOf p.periodType (computeFirstAfterLast p d) = i + strideOf p ∧
        ∀ x ∈ blockAt p i, x ≤ rawAnchoredOccurrence p d) := by
  unfold computeFirstAfterLast
  simp only [h, if_true]
  generalize hq : rawAnchoredOccurrence p d = q
  rw [hq] at hraw
  have hindex := indexOf_of_mem_blockAt hrep hraw
  have hover : p.periodType ≠ .semiMonthly → ∀ x ∈ blockAt p i, x ≤ q := by
    intro hs x hx
    rw [blockAt_single h hs hraw hx]
  have hstart := getDate_mem_lengthOf p.periodStart
  cases hp : p.periodType <;> simp only [hp, isAnchored, Bool.false_eq_true] at h
  case month =>
    refine .inr ⟨?_, hover (by simp [hp])⟩
    simp only [hp, indexOf] at hindex ⊢
    have hlen := lengthOf_bounds (monthIndex q + p.mult)
    rw [monthDay_eq, monthIndex_add, monthIndex_dateIn (by omega), hindex, strideOf, hp]
  case endOfMonth =>
    refine .inr ⟨?_, hover (by simp [hp])⟩
    simp only [hp, indexOf] at hindex ⊢
    have hlen := lengthOf_bounds (monthIndex q + p.mult)
    rw [endOfMonth_eq, monthIndex_add, monthIndex_dateIn (by omega), hindex, strideOf, hp]
  case nthWeekday =>
    refine .inr ⟨?_, hover (by simp [hp])⟩
    simp only [hp, indexOf] at hindex ⊢
    rw [weekdayOccurrence_eq, monthIndex_add, monthIndex_dateIn (weekdayDay_mem ..).1, hindex,
      strideOf, hp]
  case lastWeekday =>
    refine .inr ⟨?_, hover (by simp [hp])⟩
    simp only [hp, indexOf] at hindex ⊢
    rw [weekdayOccurrence_eq, monthIndex_add, monthIndex_dateIn (weekdayDay_mem ..).1, hindex,
      strideOf, hp]
  case year =>
    refine .inr ⟨?_, hover (by simp [hp])⟩
    simp only [hp, indexOf] at hindex ⊢
    have hlen := lengthOf_bounds (12 * (getFullYear q + p.mult) + getMonth p.periodStart)
    have hmonth := getMonth_mem p.periodStart
    have hnext := monthIndex_dateIn (t := 12 * (getFullYear q + p.mult) + getMonth p.periodStart)
      (d := min (getDate p.periodStart)
        (lengthOf (12 * (getFullYear q + p.mult) + getMonth p.periodStart))) (by omega)
    rw [← newDate_eq_dateIn, ← clampDay_eq] at hnext
    have hmonth' := getMonth_mem (newDate (getFullYear q + p.mult) (getMonth p.periodStart)
      (clampDay (getFullYear q + p.mult) (getMonth p.periodStart) (getDate p.periodStart)))
    simp only [monthIndex, strideOf, hp] at hnext ⊢
    omega
  case semiMonthly =>
    simp only [hp, indexOf] at hindex ⊢
    rw [semiMonthlyAnchorDays_eq p _ _ hp, monthIndex_eq, hindex]
    cases hfind : (anchorDays p i).find? (getDate q < ·) with
    | some nextAnchor =>
      refine .inl ?_
      dsimp only
      rw [newDate_eq_dateIn, monthIndex_eq, hindex]
      exact monthIndex_dateIn (anchorDays_mem (List.mem_of_find?_eq_some hfind))
    | none =>
      refine .inr ⟨?_, fun x hx => ?_⟩
      · have hq' := getDate_mem_lengthOf q
        have hlen := lengthOf_bounds (i + p.mult)
        have hnext : monthIndex (addMonths q p.mult) = i + p.mult := by
          rw [addMonths, monthDay_eq, monthIndex_add, hindex]
          exact monthIndex_dateIn (by omega)
        dsimp only
        rw [semiMonthlyAnchorDays_eq p _ _ hp, newDate_eq_dateIn, monthIndex_eq, hnext, strideOf, hp]
        refine monthIndex_dateIn (anchorDays_mem (p := p) ?_)
        rw [List.headD_eq_head?_getD, List.head?_eq_some_head (anchorDays_ne_nil (by rw [hp]; rfl) _)]
        exact List.head_mem _
      · have hb := List.find?_eq_none.1 hfind
        rw [blockAt_anchored (by rw [hp]; rfl), List.mem_map] at hx
        obtain ⟨e, he, rfl⟩ := hx
        simp only [blockMonth, hp] at he ⊢
        have hle : e ≤ getDate q := by simpa using hb e he
        have hqi : q = dateIn i (getDate q) := by
          rw [← hindex]
          exact (dateIn_getDate q).symm
        have he1 := dateIn_eq_add i e
        have hq1 := dateIn_eq_add i (getDate q)
        omega

/-- An anchored pattern goes on from the adjusted date of a raw date with the rest of its block, or
one stride later when the whole block is over. -/
theorem computeFirstAfterLast_anchored (h : isAnchored p.periodType = true) (hrep : Repeats p)
    {i r : ℤ} (hr : r ∈ blockAt p i) :
    let d := applyWeekendAdjust r p.weekendAdjust
    indexOf p.periodType (computeFirstAfterLast p d) = i ∨
      (indexOf p.periodType (computeFirstAfterLast p d) = i + strideOf p ∧
        ∀ x ∈ blockAt p i, applyWeekendAdjust x p.weekendAdjust ≤ d) := by
  intro d
  obtain ⟨hraw, hadjust⟩ := rawAnchoredOccurrence_spec h hrep hr
  refine (computeFirstAfterLast_raw h hrep hraw).imp_right fun ⟨hindex, hover⟩ => ⟨hindex, ?_⟩
  intro x hx
  exact Int.le_trans (adjust_le_adjust _ (hover x hx)) (Int.le_of_eq hadjust)

end Recurrence
