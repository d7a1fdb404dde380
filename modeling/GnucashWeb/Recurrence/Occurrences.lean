import GnucashWeb.Recurrence.Composite

/-!
# The first occurrences of a schedule

What `computeNextOccurrences` returns for a schedule that has not occurred yet: the due dates among
the first `maxIterations + 1` raw dates (`computeNextOccurrences_none`).  These are the first due dates
of the whole schedule unless the iterations end before there are enough of them, or two of them have
been moved to one day (`isFirstDue_iff`).
-/

open Civil

namespace Recurrence

variable {p : RecurrencePattern} {endDate : Option ℤ} {remaining : Option ℕ} {afterDate : ℤ}

/-! ## Due dates -/

/-- After one date and not after the other. -/
def isDue (endDate : Option ℤ) (afterDate d : ℤ) : Bool := afterDate < d && !endDate.any (· < d)

/-- The due dates among the first raw dates of a schedule, each as often as it occurs. -/
def dueAmong (p : RecurrencePattern) (endDate : Option ℤ) (afterDate : ℤ) (n : ℕ) : List ℤ :=
  (schedule p n).filter (isDue endDate afterDate)

def Due (p : RecurrencePattern) (endDate : Option ℤ) (afterDate d : ℤ) : Prop :=
  (∃ n, d ∈ schedule p n) ∧ isDue endDate afterDate d = true

def wanted (remaining : Option ℕ) (count : ℕ) : ℕ := min count (remaining.getD count)

/-- The first due dates, as many as are wanted or all there are, in increasing order. -/
structure IsFirstDue (p : RecurrencePattern) (endDate : Option ℤ) (afterDate : ℤ) (wanted : ℕ)
    (dates : List ℤ) : Prop where
  increasing : dates.Pairwise (· < ·)
  due : ∀ d ∈ dates, Due p endDate afterDate d
  first : ∀ d ∈ dates, ∀ e, Due p endDate afterDate e → e < d → e ∈ dates
  length_le : dates.length ≤ wanted
  all : dates.length = wanted ∨ ∀ e, Due p endDate afterDate e → e ∈ dates

/-- The iterations reach as many due dates as are wanted, or all there are. -/
def Reaches (p : RecurrencePattern) (endDate : Option ℤ) (afterDate : ℤ) (wanted : ℕ) : Prop :=
  wanted ≤ (dueAmong p endDate afterDate (maxIterations + 1)).length ∨
    ∀ n, ∀ d ∈ dueAmong p endDate afterDate n, d ∈ dueAmong p endDate afterDate (maxIterations + 1)

theorem collect_eq_take {adjust : WeekendAdjust} {room : ℕ} (hroom : 0 < room)
    (hremaining : remaining ≠ some 0) {rawDates : List ℤ}
    (hsorted : (rawDates.map fun x => applyWeekendAdjust x adjust).Pairwise (· ≤ ·)) :
    collect adjust endDate afterDate remaining room rawDates =
      ((rawDates.map fun x => applyWeekendAdjust x adjust).filter (isDue endDate afterDate)).take
        (wanted remaining room) := by
  induction rawDates generalizing room remaining with
  | nil => simp [collect]
  | cons x rest ih =>
    rw [List.map_cons, List.pairwise_cons] at hsorted
    obtain ⟨hlater, hrest⟩ := hsorted
    unfold collect
    dsimp only
    rw [List.map_cons]
    by_cases hend : endDate.any (· < applyWeekendAdjust x adjust) = true
    · -- Whatever comes later is after the end, too.
      rw [if_pos hend, List.filter_eq_nil_iff.2, List.take_nil]
      intro y hy
      obtain ⟨last, rfl, hlast⟩ : ∃ last, endDate = some last ∧
          last < applyWeekendAdjust x adjust := by
        simpa [Option.any_eq_true] using hend
      have hle : applyWeekendAdjust x adjust ≤ y := by
        rcases List.mem_cons.1 hy with rfl | hy
        · exact le_rfl
        · exact hlater y hy
      have hlt : last < y := by omega
      simp [isDue, hlt]
    rw [if_neg hend]
    by_cases hle : applyWeekendAdjust x adjust ≤ afterDate
    · rw [if_pos hle, List.filter_cons_of_neg (by simp [isDue, not_lt.2 hle])]
      exact ih hroom hremaining hrest
    have hdue : isDue endDate afterDate (applyWeekendAdjust x adjust) = true := by
      simp only [isDue, Bool.and_eq_true, decide_eq_true_eq, Bool.not_eq_true']
      exact ⟨not_le.1 hle, by simpa using hend⟩
    rw [if_neg hle, List.filter_cons_of_pos hdue]
    by_cases hlast : (remaining.any (· ≤ 1) || decide (room ≤ 1)) = true
    · have hone : wanted remaining room = 1 := by
        unfold wanted
        cases remaining with
        | none =>
          have : room ≤ 1 := by simpa using hlast
          simp only [Option.getD_none, min_self]
          omega
        | some k =>
          have hk : k ≤ 1 ∨ room ≤ 1 := by simpa using hlast
          have hpos : k ≠ 0 := fun h => hremaining (congrArg some h)
          simp only [Option.getD_some]
          omega
      rw [if_pos hlast, hone]
      rfl
    · have hmore : wanted remaining room = wanted (remaining.map (· - 1)) (room - 1) + 1 := by
        unfold wanted
        cases remaining with
        | none =>
          have : 1 < room := by simpa using hlast
          simp only [Option.map_none, Option.getD_none, min_self]
          omega
        | some k =>
          have hk : 1 < k ∧ 1 < room := by simpa using hlast
          simp only [Option.map_some, Option.getD_some]
          omega
      rw [if_neg hlast, hmore, List.take_succ_cons]
      refine congrArg _ (ih ?_ ?_ hrest)
      · have : ¬room ≤ 1 := fun h => hlast (by simp [h])
        omega
      · cases remaining with
        | none => simp
        | some k =>
          have hk : ¬k ≤ 1 := fun h => hlast (by simp [h])
          simp only [Option.map_some, ne_eq, Option.some.injEq]
          omega

/-! ## The dates that are returned -/

theorem schedule_isPrefix (p : RecurrencePattern) {m n : ℕ} (h : m ≤ n) :
    schedule p m <+: schedule p n := by
  by_cases hrep : Repeats p
  · unfold schedule
    rw [generateRawDates_eq hrep, generateRawDates_eq hrep]
    exact (take_passes_isPrefix _ h h).map _
  · cases m with
    | zero => simp [schedule, generateRawDates]
    | succ m =>
      obtain ⟨n, rfl⟩ : ∃ k, n = k + 1 := ⟨n - 1, by omega⟩
      rw [schedule, schedule, generateRawDates_single hrep, generateRawDates_single hrep]

theorem schedule_pairwise (hm : Repeats p → 1 ≤ p.mult) (n : ℕ) :
    (schedule p n).Pairwise (· ≤ ·) := by
  by_cases hrep : Repeats p
  · exact schedule_sorted (hm hrep) n
  · cases n with
    | zero => simp [schedule, generateRawDates]
    | succ n =>
      rw [schedule, generateRawDates_single hrep]
      split <;> simp

theorem dueAmong_isPrefix (p : RecurrencePattern) (endDate : Option ℤ) (afterDate : ℤ) {m n : ℕ}
    (h : m ≤ n) : dueAmong p endDate afterDate m <+: dueAmong p endDate afterDate n :=
  (schedule_isPrefix p h).filter _

theorem dueAmong_pairwise (hm : Repeats p → 1 ≤ p.mult) (n : ℕ) :
    (dueAmong p endDate afterDate n).Pairwise (· ≤ ·) :=
  (schedule_pairwise hm n).sublist List.filter_sublist

theorem due_iff {d : ℤ} : Due p endDate afterDate d ↔ ∃ n, d ∈ dueAmong p endDate afterDate n := by
  simp only [Due, dueAmong, List.mem_filter, exists_and_right]

theorem computeNextOccurrences_none (hm : Repeats p → 1 ≤ p.mult) (endDate : Option ℤ)
    (remaining : Option ℕ) (count : ℕ) (afterDate : ℤ) :
    computeNextOccurrences p none endDate remaining count afterDate =
      (dueAmong p endDate afterDate (maxIterations + 1)).take (wanted remaining count) := by
  unfold computeNextOccurrences
  by_cases hremaining : remaining = some 0
  · rw [if_pos hremaining, wanted, hremaining]
    simp
  rw [if_neg hremaining]
  by_cases hcount : count = 0
  · rw [if_pos hcount, wanted, hcount]
    simp
  rw [if_neg hcount]
  have hstart : newDate (getFullYear p.periodStart) (getMonth p.periodStart)
      (getDate p.periodStart) = p.periodStart := fields_newDate p.periodStart
  unfold dueAmong schedule
  rw [← collect_eq_take (Nat.pos_of_ne_zero hcount) hremaining
    (schedule_pairwise hm (maxIterations + 1))]
  exact congrArg (fun start => collect p.weekendAdjust endDate afterDate remaining count
    (generateRawDates p start (maxIterations + 1))) hstart

theorem mem_take_of_lt {l : List ℤ} (hl : l.Pairwise (· ≤ ·)) {k : ℕ} {d e : ℤ} (hd : d ∈ l.take k)
    (he : e ∈ l) (hlt : e < d) : e ∈ l.take k := by
  rw [← List.take_append_drop k l] at hl he
  refine (List.mem_append.1 he).resolve_right fun he => ?_
  exact absurd ((List.pairwise_append.1 hl).2.2 d hd e he) (not_le.2 hlt)

theorem mem_dueAmong_of_lt (hm : Repeats p → 1 ≤ p.mult) {d e : ℤ} {n : ℕ}
    (hd : d ∈ dueAmong p endDate afterDate n) (he : Due p endDate afterDate e) (hlt : e < d) :
    e ∈ dueAmong p endDate afterDate n := by
  obtain ⟨k, he⟩ := due_iff.1 he
  rcases le_total k n with hkn | hkn
  · exact (dueAmong_isPrefix p endDate afterDate hkn).subset he
  · have hpart := dueAmong_isPrefix p endDate afterDate hkn
    rw [List.prefix_iff_eq_take.1 hpart] at hd ⊢
    exact mem_take_of_lt (dueAmong_pairwise hm k) hd he hlt

/-- The dates that are returned are the first due dates exactly when the iterations reach enough of
them and weekends move no two of those to one day. -/
theorem isFirstDue_iff_reaches_and_nodup (hm : Repeats p → 1 ≤ p.mult) (endDate : Option ℤ) (remaining : Option ℕ)
    (count : ℕ) (afterDate : ℤ) :
    IsFirstDue p endDate afterDate (wanted remaining count)
        (computeNextOccurrences p none endDate remaining count afterDate) ↔
      Reaches p endDate afterDate (wanted remaining count) ∧
        ((dueAmong p endDate afterDate (maxIterations + 1)).take (wanted remaining count)).Nodup := by
  rw [computeNextOccurrences_none hm]
  generalize wanted remaining count = k
  have hsorted : (dueAmong p endDate afterDate (maxIterations + 1)).Pairwise (· ≤ ·) :=
    dueAmong_pairwise hm (maxIterations + 1)
  constructor
  · intro h
    refine ⟨?_, h.increasing.imp fun hlt => hlt.ne⟩
    rcases h.all with hlength | hall
    · rw [List.length_take] at hlength
      exact .inl (by omega)
    · exact .inr fun n d hd => List.mem_of_mem_take (hall d (due_iff.2 ⟨n, hd⟩))
  · rintro ⟨hreaches, hnodup⟩
    refine ⟨?_, fun d hd => due_iff.2 ⟨_, List.mem_of_mem_take hd⟩, fun d hd e he hlt => ?_,
      List.length_take_le _ _, ?_⟩
    · exact (hsorted.sublist (List.take_sublist _ _)).imp₂ (fun _ _ => lt_of_le_of_ne) hnodup
    · exact mem_take_of_lt hsorted hd
        (mem_dueAmong_of_lt hm (List.mem_of_mem_take hd) he hlt) hlt
    · by_cases hlength : k ≤ (dueAmong p endDate afterDate (maxIterations + 1)).length
      · exact .inl (List.length_take_of_le hlength)
      · refine .inr fun e he => ?_
        obtain ⟨n, he⟩ := due_iff.1 he
        rw [List.take_of_length_le (by omega)]
        exact hreaches.resolve_left hlength n e he

/-- For a pattern that repeats at a positive interval or not at all and whose wanted dates weekends
keep apart, the dates that are returned are the first due dates exactly when the iterations reach
enough of them. -/
theorem isFirstDue_iff (hm : Repeats p → 1 ≤ p.mult) (endDate : Option ℤ) (remaining : Option ℕ)
    (count : ℕ) (afterDate : ℤ)
    (hapart : ((dueAmong p endDate afterDate (maxIterations + 1)).take
      (wanted remaining count)).Nodup) :
    IsFirstDue p endDate afterDate (wanted remaining count)
        (computeNextOccurrences p none endDate remaining count afterDate) ↔
      Reaches p endDate afterDate (wanted remaining count) := by
  rw [isFirstDue_iff_reaches_and_nodup hm, and_iff_left hapart]

/-! ## A schedule that started long ago -/

def everyDay : RecurrencePattern := ⟨.daily, 1, newDate 2024 0 1, .none⟩

theorem everyDay_repeats : Repeats everyDay := ⟨nofun, nofun⟩

theorem mem_schedule_everyDay {n : ℕ} {d : ℤ} :
    d ∈ schedule everyDay n ↔ ∃ j < n, newDate 2024 0 1 + (j : ℤ) = d := by
  have hpasses : passes everyDay (indexOf everyDay.periodType everyDay.periodStart) n =
      (List.range n).map fun j : ℕ => newDate 2024 0 1 + (j : ℤ) := by
    rw [passes, List.map_eq_flatMap]
    simp [blockAt, everyDay, indexOf, strideOf]
  have hraw : generateRawDates everyDay everyDay.periodStart n =
      (List.range n).map fun j : ℕ => newDate 2024 0 1 + (j : ℤ) := by
    rw [generateRawDates_eq everyDay_repeats, hpasses, List.take_of_length_le (by simp)]
  rw [schedule, hraw]
  simp [everyDay, applyWeekendAdjust]

theorem isFirstDue_iff_everyDay :
    (Repeats everyDay → 1 ≤ everyDay.mult) ∧
      ((dueAmong everyDay none (newDate 2024 0 31) (maxIterations + 1)).take
        (wanted (some 3) 5)).Nodup ∧
      (IsFirstDue everyDay none (newDate 2024 0 31) (wanted (some 3) 5)
          (computeNextOccurrences everyDay none none (some 3) 5 (newDate 2024 0 31)) ↔
        Reaches everyDay none (newDate 2024 0 31) (wanted (some 3) 5)) := by
  have hapart : ((dueAmong everyDay none (newDate 2024 0 31) (maxIterations + 1)).take
      (wanted (some 3) 5)).Nodup := by
    have hsame : dueAmong everyDay none (newDate 2024 0 31) (maxIterations + 1) =
        upcoming everyDay (newDate 2024 0 31) (maxIterations + 1) :=
      List.filter_congr fun d _ => by simp [isDue]
    rw [hsame]
    exact (upcoming_nodup le_rfl fun _ => rfl).sublist (List.take_sublist _ _)
  exact ⟨fun _ => le_rfl, hapart, isFirstDue_iff (fun _ => le_rfl) none (some 3) 5 _ hapart⟩

/-- The day after the last iteration is due, but nothing is returned. -/
theorem not_isFirstDue_everyDay :
    ¬ ∀ (p : RecurrencePattern) (endDate : Option ℤ) (remaining : Option ℕ) (count : ℕ)
      (afterDate : ℤ), (Repeats p → 1 ≤ p.mult) →
        IsFirstDue p endDate afterDate (wanted remaining count)
          (computeNextOccurrences p none endDate remaining count afterDate) := by
  intro h
  have hm : Repeats everyDay → 1 ≤ everyDay.mult := fun _ => le_rfl
  have hfirst := h everyDay none none 1 (newDate 2024 0 1 + (maxIterations : ℤ)) hm
  have hreach := ((isFirstDue_iff_reaches_and_nodup hm _ _ _ _).1 hfirst).1
  have hnone : dueAmong everyDay none (newDate 2024 0 1 + (maxIterations : ℤ))
      (maxIterations + 1) = [] := by
    refine List.filter_eq_nil_iff.2 fun d hd => ?_
    obtain ⟨j, hj, rfl⟩ := mem_schedule_everyDay.1 hd
    simp only [isDue, Option.any_none, Bool.not_false, Bool.and_true, decide_eq_true_eq]
    omega
  rw [Reaches, hnone] at hreach
  have hdue : newDate 2024 0 1 + ((maxIterations + 1 : ℕ) : ℤ) ∈
      dueAmong everyDay none (newDate 2024 0 1 + (maxIterations : ℤ)) (maxIterations + 2) := by
    refine List.mem_filter.2 ⟨mem_schedule_everyDay.2 ⟨_, by omega, rfl⟩, ?_⟩
    simp [isDue]
  rcases hreach with hlength | hall
  · simp [wanted] at hlength
  · exact List.not_mem_nil (hall _ _ hdue)

end Recurrence
