import GnucashWeb.Budgets.Periods
import GnucashWeb.Ledger.Book
import GnucashWeb.Lib.Forest
import GnucashWeb.Lib.ListSums

/-!
# Budget roll-ups

`bucketSplitsRollup` adds each split to the rows of its account and of the budgeted accounts above
it, in the period of its date.  `periodsPartition_iff` is the result about periods: they partition
the calendar, and the splits are counted in one period each, when `KeepsLeapDays` holds.
-/

namespace Budgets

open Civil
open Ledger (AccountType Amount)

abbrev Guid := String

/-! ## The account tree -/

structure AccountRow where
  guid : Guid
  parentGuid : Option Guid
  name : String
  accountType : AccountType
  mnemonic : Option String

def parentIn (rows : List AccountRow) (g : Guid) : Option Guid :=
  (rows.find? fun a => a.guid = g).bind AccountRow.parentGuid

/-- The accounts, of which none is above itself and each parent is one. -/
structure AccountTree where
  rows : List AccountRow
  keys : (rows.map AccountRow.guid).Nodup
  acyclic : Forest.Acyclic (parentIn rows)
  parents : ∀ a ∈ rows, ∀ p ∈ a.parentGuid, p ∈ rows.map AccountRow.guid

namespace AccountTree

variable (tree : AccountTree)

def parentOf (g : Guid) : Option Guid := parentIn tree.rows g

def typeOf (g : Guid) : Option AccountType :=
  (tree.rows.find? fun a => a.guid = g).map AccountRow.accountType

def Under (g root : Guid) : Prop := Relation.ReflTransGen (Forest.IsParent tree.parentOf) g root

end AccountTree

/-- The roots in whose subtrees an account lies: those on the way up from it. -/
def loadSubtreeMap (tree : AccountTree) (rootGuids : List Guid) (g : Guid) : List Guid :=
  (Forest.path tree.parentOf tree.rows.length g).filter fun root =>
    root ∈ rootGuids ∧ root ∈ tree.rows.map AccountRow.guid

/-! ## Splits -/

structure LoadedSplit where
  accountGuid : Guid
  quantity : Amount
  /-- The day of its date in universal time. -/
  postDate : Option ℤ

def signCorrectAmount (accountType : Option AccountType) (raw : ℚ) : ℚ :=
  if accountType = some .income then -raw else raw

/-- The rows of the accounts that have one. -/
abbrev Matrices := Guid → Option (List ℚ)

/-- `row[p] += amount`, in a row of zeros where there is none. -/
def Matrices.add (m : Matrices) (numPeriods p : ℕ) (root : Guid) (amount : ℚ) : Matrices :=
  Function.update m root
    (some (((m root).getD (List.replicate numPeriods 0)).modify p (· + amount)))

variable {p : ℕ}

section Rollup

variable (ranges : List PeriodRange) (descendantToRoots : Guid → List Guid)
  (rootTypes : Guid → Option AccountType) (numPeriods : ℕ)

/-- The period of a date: the first range that has its key. -/
def periodIdx (postDate : Option ℤ) : Option ℕ :=
  postDate.bind fun day => ranges.findIdx? fun r => r.Holds (isoText day)

def bucketSplit (m : Matrices) (split : LoadedSplit) : Matrices :=
  match periodIdx ranges split.postDate with
  | none => m
  | some p =>
    (descendantToRoots split.accountGuid).foldl (fun m root =>
      m.add numPeriods p root
        (signCorrectAmount (rootTypes root) split.quantity.toDecimalNumber)) m

def bucketSplitsRollup (splits : List LoadedSplit) : Matrices :=
  splits.foldl (bucketSplit ranges descendantToRoots rootTypes numPeriods) fun _ => none

/-- `(matrices.get(root) || zeros)[p] || 0`. -/
def Matrices.entry (m : Matrices) (numPeriods : ℕ) (root : Guid) (p : ℕ) : ℚ :=
  ((m root).getD (List.replicate numPeriods 0))[p]?.getD 0

/-- What a split adds to the row of an account in a period. -/
def share (root : Guid) (p : ℕ) (split : LoadedSplit) : ℚ :=
  if periodIdx ranges split.postDate = some p ∧ root ∈ descendantToRoots split.accountGuid then
    signCorrectAmount (rootTypes root) split.quantity.toDecimalNumber
  else 0

/-! ## What the rows hold -/

def Matrices.Full (m : Matrices) (numPeriods : ℕ) : Prop :=
  ∀ root, ∀ row ∈ m root, row.length = numPeriods

variable {ranges descendantToRoots rootTypes numPeriods}

variable {m : Matrices}

theorem Matrices.Full.length (h : m.Full numPeriods) (root : Guid) :
    ((m root).getD (List.replicate numPeriods 0)).length = numPeriods := by
  cases hrow : m root with
  | none => simp
  | some row => exact h root row hrow

theorem Matrices.Full.add (h : m.Full numPeriods) (p : ℕ) (root : Guid)
    (amount : ℚ) : (m.add numPeriods p root amount).Full numPeriods := by
  intro g row hrow
  unfold Matrices.add at hrow
  by_cases hg : g = root
  · subst hg
    rw [Function.update_self] at hrow
    rw [← Option.some.inj hrow, List.length_modify, h.length]
  · rw [Function.update_of_ne hg] at hrow
    exact h g row hrow

theorem Matrices.entry_add (h : m.Full numPeriods) (hp : p < numPeriods)
    (q : ℕ) (root g : Guid) (amount : ℚ) :
    (m.add numPeriods q root amount).entry numPeriods g p =
      m.entry numPeriods g p + if g = root ∧ q = p then amount else 0 := by
  unfold Matrices.entry Matrices.add
  by_cases hg : g = root
  · subst hg
    have hlen := h.length g
    rw [Function.update_self, Option.getD_some, List.getElem?_modify]
    by_cases hq : q = p
    · subst hq
      rw [List.getElem?_eq_getElem (by omega)]
      simp
    · simp [hq]
  · rw [Function.update_of_ne hg]
    simp [hg]

theorem add_roots (hm : m.Full numPeriods) {q : ℕ} (hp : p < numPeriods)
    (amount : Guid → ℚ) (g : Guid) {roots : List Guid} (hroots : roots.Nodup) :
    (roots.foldl (fun m root => m.add numPeriods q root (amount root)) m).Full numPeriods ∧
      (roots.foldl (fun m root => m.add numPeriods q root (amount root)) m).entry numPeriods g p =
        m.entry numPeriods g p + if q = p ∧ g ∈ roots then amount g else 0 := by
  induction roots generalizing m with
  | nil => simpa using hm
  | cons root roots ih =>
    rw [List.nodup_cons] at hroots
    have hadd := hm.add q root (amount root)
    obtain ⟨hfull, hentry⟩ := ih hadd hroots.2
    refine ⟨hfull, ?_⟩
    rw [List.foldl_cons, hentry, Matrices.entry_add hm hp]
    by_cases hg : g = root
    · subst hg
      simp [hroots.1]
    · simp [hg]

theorem bucketSplit_spec (hroots : ∀ g, (descendantToRoots g).Nodup)
    (hm : m.Full numPeriods) (hp : p < numPeriods) (split : LoadedSplit) (g : Guid) :
    (bucketSplit ranges descendantToRoots rootTypes numPeriods m split).Full numPeriods ∧
      (bucketSplit ranges descendantToRoots rootTypes numPeriods m split).entry numPeriods g p =
        m.entry numPeriods g p + share ranges descendantToRoots rootTypes g p split := by
  unfold bucketSplit share
  cases periodIdx ranges split.postDate with
  | none => simpa using hm
  | some q =>
    obtain ⟨hfull, hentry⟩ := add_roots hm hp (q := q) (fun root =>
      signCorrectAmount (rootTypes root) split.quantity.toDecimalNumber) g
      (hroots split.accountGuid)
    refine ⟨hfull, ?_⟩
    dsimp only
    rw [hentry]
    simp

theorem entry_bucketSplitsRollup (hroots : ∀ g, (descendantToRoots g).Nodup)
    (splits : List LoadedSplit) (hp : p < numPeriods) (g : Guid) :
    (bucketSplitsRollup ranges descendantToRoots rootTypes numPeriods splits).entry numPeriods g p =
      (splits.map (share ranges descendantToRoots rootTypes g p)).sum := by
  have hrun (splits : List LoadedSplit) (m : Matrices) (hm : m.Full numPeriods) :
      (splits.foldl (bucketSplit ranges descendantToRoots rootTypes numPeriods) m).entry
          numPeriods g p =
        m.entry numPeriods g p +
          (splits.map (share ranges descendantToRoots rootTypes g p)).sum := by
    induction splits generalizing m with
    | nil => simp
    | cons split splits ih =>
      obtain ⟨hfull, hentry⟩ := bucketSplit_spec hroots hm hp split g
      rw [List.foldl_cons, ih _ hfull, hentry, List.map_cons, List.sum_cons, add_assoc]
  have hzero : (Matrices.entry (fun _ => none) numPeriods g p) = 0 := by
    unfold Matrices.entry
    simp [hp]
  exact (hrun splits (fun _ => none) fun g row hrow => by cases hrow).trans (by rw [hzero, zero_add])

end Rollup

section Tree

variable (tree : AccountTree) (rootGuids : List Guid)

theorem AccountTree.exists_root (g : Guid) :
    ∃ r, Forest.rootWithin tree.parentOf tree.rows.length g = some r := by
  have hnodes : ∀ a b, tree.parentOf a = some b → b ∈ (tree.rows.map AccountRow.guid).toFinset := by
    intro a b hab
    obtain ⟨row, hrow, hparent⟩ := Option.bind_eq_some_iff.1 hab
    exact List.mem_toFinset.2 (tree.parents row (List.mem_of_find?_eq_some hrow) b hparent)
  have hcard := Forest.Acyclic.rootWithin_card tree.acyclic _ hnodes g
  rwa [List.toFinset_card_of_nodup tree.keys, List.length_map] at hcard

theorem mem_loadSubtreeMap {g root : Guid} :
    root ∈ loadSubtreeMap tree rootGuids g ↔
      (root ∈ rootGuids ∧ root ∈ tree.rows.map AccountRow.guid) ∧ tree.Under g root := by
  obtain ⟨r, hr⟩ := tree.exists_root g
  rw [loadSubtreeMap, List.mem_filter, Forest.mem_path_iff hr, decide_eq_true_iff, and_comm]
  rfl

theorem nodup_loadSubtreeMap (g : Guid) : (loadSubtreeMap tree rootGuids g).Nodup :=
  (Forest.Acyclic.nodup_path tree.acyclic _ g).filter _

end Tree

/-! ## Periods that partition the calendar -/

def LoadedSplit.DatedIn (split : LoadedSplit) (ranges : List PeriodRange) (p : ℕ) : Prop :=
  ∃ day ∈ split.postDate, ∃ r ∈ ranges[p]?, r.Holds (isoText day)

theorem Partition.unique {ranges : List PeriodRange} (h : Partition ranges) {day : ℤ} {q : ℕ}
    (hp : ∃ r ∈ ranges[p]?, r.Holds (isoText day)) (hq : ∃ r ∈ ranges[q]?, r.Holds (isoText day)) :
    p = q := by
  obtain ⟨days, hkeys, -, -, hdays⟩ := h
  obtain ⟨r, hr, hin⟩ := hp
  have hmem : r ∈ ranges := List.mem_of_getElem? hr
  have hne : days ≠ [] := by
    rintro rfl
    rw [List.map_nil, List.map_eq_nil_iff] at hkeys
    rw [hkeys] at hmem
    exact absurd hmem List.not_mem_nil
  have hspan := hdays _ (List.head?_eq_some_head hne) _ (List.getLast?_eq_some_getLast hne) day
  obtain ⟨hfirst, hlast⟩ := hspan.2 r hmem hin
  exact (hspan.1 hfirst hlast).unique ⟨r, hr, hin⟩ hq

theorem periodIdx_eq_some_iff {ranges : List PeriodRange} (h : Partition ranges)
    {split : LoadedSplit} :
    periodIdx ranges split.postDate = some p ↔ split.DatedIn ranges p := by
  unfold periodIdx LoadedSplit.DatedIn
  rw [Option.bind_eq_some_iff]
  refine exists_congr fun day => and_congr_right fun _ => ?_
  constructor
  · intro hfind
    obtain ⟨hp, hholds, -⟩ := List.findIdx?_eq_some_iff_getElem.1 hfind
    exact ⟨ranges[p], List.getElem?_eq_getElem hp, of_decide_eq_true hholds⟩
  · rintro ⟨r, hr, hholds⟩
    cases hfind : ranges.findIdx? fun r => decide (r.Holds (isoText day)) with
    | none =>
      have hnot := List.findIdx?_eq_none_iff.1 hfind r (List.mem_of_getElem? hr)
      exact absurd hholds (of_decide_eq_false hnot)
    | some q =>
      obtain ⟨hq, hholds', -⟩ := List.findIdx?_eq_some_iff_getElem.1 hfind
      have hother : ∃ r ∈ ranges[q]?, r.Holds (isoText day) :=
        ⟨ranges[q], List.getElem?_eq_getElem hq, of_decide_eq_true hholds'⟩
      rw [h.unique hother ⟨r, hr, hholds⟩]

open scoped Classical in
/-- Each split counts in the one period that it is dated in, for its account and each budgeted
account above it. -/
def BucketsOnce (ranges : List PeriodRange) (numPeriods : ℕ) : Prop :=
  ∀ (tree : AccountTree) (rootGuids : List Guid) (rootTypes : Guid → Option AccountType)
    (splits : List LoadedSplit) (root : Guid) (p : ℕ), p < numPeriods → root ∈ rootGuids →
    root ∈ tree.rows.map AccountRow.guid →
    (bucketSplitsRollup ranges (loadSubtreeMap tree rootGuids) rootTypes numPeriods splits).entry
        numPeriods root p =
      (splits.map fun split =>
        if split.DatedIn ranges p ∧ tree.Under split.accountGuid root then
          signCorrectAmount (rootTypes root) split.quantity.toDecimalNumber
        else 0).sum

theorem Partition.bucketsOnce {ranges : List PeriodRange} (h : Partition ranges) (n : ℕ) :
    BucketsOnce ranges n := by
  intro tree rootGuids rootTypes splits root p hp hroot haccount
  rw [entry_bucketSplitsRollup (nodup_loadSubtreeMap tree rootGuids) splits hp]
  congr 1
  refine List.map_congr_left fun split _ => ?_
  have hiff : (periodIdx ranges split.postDate = some p ∧
      root ∈ loadSubtreeMap tree rootGuids split.accountGuid) ↔
      split.DatedIn ranges p ∧ tree.Under split.accountGuid root := by
    rw [periodIdx_eq_some_iff h, mem_loadSubtreeMap, and_iff_right (And.intro hroot haccount)]
  unfold share
  by_cases hcounted : split.DatedIn ranges p ∧ tree.Under split.accountGuid root
  · rw [if_pos (hiff.2 hcounted), if_pos hcounted]
  · rw [if_neg (mt hiff.1 hcounted), if_neg hcounted]

/-- The periods and those of the year before partition the calendar, and the splits are counted in
one period each. -/
def PeriodsPartition (toLowerCase : List Char → List Char) (recurrence : BudgetRecurrence) (n : ℕ) :
    Prop :=
  ∃ ranges, computePeriodRanges toLowerCase recurrence n = some ranges ∧
    Partition ranges ∧ BucketsOnce ranges n ∧
    Partition (ranges.map priorRange) ∧ BucketsOnce (ranges.map priorRange) n

theorem periodsPartition_iff (toLowerCase : List Char → List Char) (recurrence : BudgetRecurrence)
    (n : ℕ) :
    PeriodsPartition toLowerCase recurrence n ↔ KeepsLeapDays toLowerCase recurrence n := by
  constructor
  · rintro ⟨ranges, hranges, -, -, hprior, -⟩
    exact keepsLeapDays_of_partition hranges hprior
  · intro h
    obtain ⟨ranges, hranges⟩ := h.exists_ranges
    have hcurrent := h.partition hranges
    have hprior := h.partition_prior hranges
    exact ⟨ranges, hranges, hcurrent, hcurrent.bucketsOnce n, hprior, hprior.bucketsOnce n⟩

/-- The 29th of February 2024 lies in no period of the year before the months of 2025. -/
theorem not_periodsPartition_2025 :
    ¬PeriodsPartition id ⟨"month".toList, 1, ⟨newDate 2025 0 1, by decide⟩⟩ 12 := by
  rintro ⟨ranges, hranges, -, -, hprior, -⟩
  have hkeeps := keepsLeapDays_of_partition hranges hprior
  exact (hkeeps (by decide)).2.2 2 (by decide) (by decide) (by decide)

end Budgets
