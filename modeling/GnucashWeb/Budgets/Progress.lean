import GnucashWeb.Budgets.Rollup
import GnucashWeb.Lib.Grouping

/-!
# Budget progress

`loadBudgetActuals` builds a row for each budgeted account and `computeBudgetProgress` the totals
over the expense accounts that lie under no other budgeted account.  `periodTotal_iff`: a total is
what was spent under the budgeted expense accounts, unless some of it lies under an expense account
that a budgeted account of another type is above.
-/

namespace Budgets

open Civil
open Ledger (AccountType Amount WholeCents round2)

/-! ## Progress -/

def EPSILON : ℚ := 5 / 1000

def round4 (value : ℚ) : ℚ := Ledger.mathRound (value * 10000) / 10000

def pctOf (actual budgeted : ℚ) : Option ℚ :=
  if budgeted ≠ 0 then some (round2 (actual / budgeted * 100)) else none

structure PeriodProgress where
  periodNum : ℕ
  budgeted : ℚ
  actual : ℚ
  remaining : ℚ
  pctUsed : Option ℚ

structure TotalProgress where
  budgeted : ℚ
  actual : ℚ
  remaining : ℚ
  pctUsed : Option ℚ

inductive PacingStatus
  | onTrack
  | warning
  | over

structure PacingInfo where
  periodNum : ℕ
  budgeted : ℚ
  actual : ℚ
  pctUsed : Option ℚ
  elapsedFraction : ℚ
  paceRatio : Option ℚ
  projected : ℚ
  projectedOver : ℚ
  status : PacingStatus

structure ProgressAccountInput where
  guid : Guid
  name : String
  type : Option AccountType
  currency : String
  budgeted : List ℚ
  actual : List ℚ
  budgetedAncestorGuids : List Guid

structure AccountProgress where
  guid : Guid
  name : String
  type : Option AccountType
  currency : String
  periods : List PeriodProgress
  total : TotalProgress
  pacing : Option PacingInfo
  nestedUnderBudgeted : Bool

structure BudgetProgressResult where
  currentPeriod : Option ℕ
  elapsedFraction : Option ℚ
  accounts : List AccountProgress
  periodTotals : List PeriodProgress
  totals : TotalProgress
  pacing : Option PacingInfo

/-- The day of a `YYYY-MM-DD` key. -/
def keyDay (key : List Char) : Option ℤ :=
  match dateParts key with
  | ⟨some y, some m, some d⟩ => some (newDate y (m - 1) d)
  | _ => none

def computeElapsedFraction (range : PeriodRange) (asOf : List Char) : Option ℚ := do
  let start ← keyDay range.startKey
  let finish ← keyDay range.endKey
  let at' ← keyDay asOf
  let totalDays := finish - start + 1
  if totalDays ≤ 0 then return 1
  else if at' < start then return 0
  else if finish ≤ at' then return 1
  else return min 1 (max 0 ((at' - start + 1 : ℤ) / totalDays))

def computePacing (budgeted actual : ℚ) (periodNum : ℕ) (elapsedFraction : ℚ) : PacingInfo :=
  let projected := if 0 < elapsedFraction then actual / elapsedFraction else actual
  let paceRatio :=
    if budgeted ≠ 0 ∧ 0 < elapsedFraction then some (actual / budgeted / elapsedFraction) else none
  { periodNum := periodNum
    budgeted := round2 budgeted
    actual := round2 actual
    pctUsed := pctOf actual budgeted
    elapsedFraction := round4 elapsedFraction
    paceRatio := paceRatio.map round4
    projected := round2 projected
    projectedOver := round2 (max 0 (projected - budgeted))
    status :=
      if budgeted + EPSILON < actual then .over
      else if budgeted + EPSILON < projected then .warning
      else .onTrack }

def makePeriodProgress (periodNum : ℕ) (budgeted actual : ℚ) : PeriodProgress :=
  ⟨periodNum, round2 budgeted, round2 actual, round2 (budgeted - actual), pctOf actual budgeted⟩

def makeTotal (budgeted actual : ℚ) : TotalProgress :=
  ⟨round2 budgeted, round2 actual, round2 (budgeted - actual), pctOf actual budgeted⟩

/-- `values[p] || 0`. -/
def at0 (values : List ℚ) (p : ℕ) : ℚ := values[p]?.getD 0

def accountProgress (ranges : List PeriodRange) (current : Option (ℕ × ℚ))
    (acc : ProgressAccountInput) : AccountProgress :=
  let periods := ranges.map fun r =>
    makePeriodProgress r.periodNum (at0 acc.budgeted r.periodNum) (at0 acc.actual r.periodNum)
  { guid := acc.guid
    name := acc.name
    type := acc.type
    currency := acc.currency
    periods := periods
    total := makeTotal (periods.map PeriodProgress.budgeted).sum
      (periods.map PeriodProgress.actual).sum
    pacing := current.map fun (p, fraction) =>
      computePacing (at0 acc.budgeted p) (at0 acc.actual p) p fraction
    nestedUnderBudgeted := !acc.budgetedAncestorGuids.isEmpty }

/-- The accounts of the totals: expense accounts under no other budgeted account. -/
def isTotalled (acc : ProgressAccountInput) : Bool :=
  acc.type = some .expense && acc.budgetedAncestorGuids.isEmpty

def computeBudgetProgress (ranges : List PeriodRange) (accounts : List ProgressAccountInput)
    (asOf : List Char) : BudgetProgressResult :=
  let currentPeriod := findCurrentPeriodNum ranges asOf
  let elapsedFraction := currentPeriod.bind fun p =>
    ranges[p]?.bind fun r => computeElapsedFraction r asOf
  let current := currentPeriod.bind fun p => elapsedFraction.map fun fraction => (p, fraction)
  let expense := accounts.filter isTotalled
  let periodTotals := ranges.map fun r =>
    makePeriodProgress r.periodNum (expense.map fun a => at0 a.budgeted r.periodNum).sum
      (expense.map fun a => at0 a.actual r.periodNum).sum
  { currentPeriod := currentPeriod
    elapsedFraction := elapsedFraction
    accounts := accounts.map (accountProgress ranges current)
    periodTotals := periodTotals
    totals := makeTotal (periodTotals.map PeriodProgress.budgeted).sum
      (periodTotals.map PeriodProgress.actual).sum
    pacing := current.map fun (p, fraction) =>
      computePacing ((periodTotals[p]?.map PeriodProgress.budgeted).getD 0)
        ((periodTotals[p]?.map PeriodProgress.actual).getD 0) p fraction }

/-! ## The rows -/

structure BudgetAmount where
  accountGuid : Guid
  periodNum : ℤ
  amount : Amount

/-- A budget with the amounts that are on accounts of the tree. -/
structure Budget (tree : AccountTree) where
  numPeriods : ℕ
  recurrence : BudgetRecurrence
  amounts : List BudgetAmount
  accounts : ∀ a ∈ amounts, a.accountGuid ∈ tree.rows.map AccountRow.guid

section Loader

variable {tree : AccountTree} (bookGuids : List Guid) (budget : Budget tree)

/-- The amounts on accounts of the book, in a period of the budget. -/
def bookAmounts : List BudgetAmount :=
  budget.amounts.filter fun a =>
    a.accountGuid ∈ bookGuids ∧ 0 ≤ a.periodNum ∧ a.periodNum < budget.numPeriods

/-- The budgeted accounts, in the order of their first amounts. -/
def accountGuids : List Guid :=
  (Grouping.grouped BudgetAmount.accountGuid (bookAmounts bookGuids budget)).map Prod.fst

def budgetedRow (g : Guid) : List ℚ :=
  (List.range budget.numPeriods).map fun p : ℕ =>
    (((bookAmounts bookGuids budget).filter fun a => a.accountGuid = g ∧ a.periodNum = (p : ℤ)).map fun a =>
      signCorrectAmount (tree.typeOf g) a.amount.toDecimalNumber).sum

/-- The other budgeted accounts that an account lies under. -/
def budgetedAncestors (g : Guid) : List Guid :=
  (loadSubtreeMap tree (accountGuids bookGuids budget) g).filter fun root => root ≠ g

/-- The splits of accounts under a budgeted account, from the first day to the last. -/
def loadSplits (ranges : List PeriodRange) (splits : List LoadedSplit) : List LoadedSplit :=
  splits.filter fun s =>
    loadSubtreeMap tree (accountGuids bookGuids budget) s.accountGuid ≠ [] ∧
      ∃ day ∈ s.postDate,
        (∀ r ∈ ranges.head?, ∀ first ∈ keyDay r.startKey, first ≤ day) ∧
          ∀ r ∈ ranges.getLast?, ∀ last ∈ keyDay r.endKey, day ≤ last

def progressAccount (matrices : Matrices) (g : Guid) : ProgressAccountInput :=
  let row := tree.rows.find? fun a => a.guid = g
  { guid := g
    name := (row.map AccountRow.name).getD ""
    type := tree.typeOf g
    currency := (row.bind AccountRow.mnemonic).getD "USD"
    budgeted := budgetedRow bookGuids budget g
    actual := (matrices g).getD (List.replicate budget.numPeriods 0)
    budgetedAncestorGuids := budgetedAncestors bookGuids budget g }

/-- The progress of a budget, without the comparison with the year before; none when a period has no
valid date. -/
def loadBudgetActuals (toLowerCase : List Char → List Char) (splits : List LoadedSplit)
    (asOf : List Char) : Option BudgetProgressResult :=
  (computePeriodRanges toLowerCase budget.recurrence budget.numPeriods).map fun ranges =>
    let guids := accountGuids bookGuids budget
    let matrices := bucketSplitsRollup ranges (loadSubtreeMap tree guids) tree.typeOf
      budget.numPeriods (loadSplits bookGuids budget ranges splits)
    computeBudgetProgress ranges (guids.map (progressAccount bookGuids budget matrices)) asOf

end Loader

/-! ## What a total counts -/

section Totals

variable {tree : AccountTree} (bookGuids : List Guid) (budget : Budget tree)

def IsBudgetedExpense (g : Guid) : Prop :=
  g ∈ accountGuids bookGuids budget ∧ tree.typeOf g = some .expense

def UnderExpense (g : Guid) : Prop :=
  ∃ root, IsBudgetedExpense bookGuids budget root ∧ tree.Under g root

def Topmost (g : Guid) : Prop :=
  ∀ root ∈ accountGuids bookGuids budget, tree.Under g root → root = g

/-- An account is or lies under a budgeted expense account that no other budgeted account is
above. -/
def UnderTopmostExpense (g : Guid) : Prop :=
  ∃ root, IsBudgetedExpense bookGuids budget root ∧ Topmost bookGuids budget root ∧
    tree.Under g root

open scoped Classical in
/-- What the splits dated in a period on certain accounts come to. -/
noncomputable def spent (ranges : List PeriodRange) (splits : List LoadedSplit) (p : ℕ)
    (keep : Guid → Prop) : ℚ :=
  (splits.map fun s =>
    if s.DatedIn ranges p ∧ keep s.accountGuid then s.quantity.toDecimalNumber else 0).sum

variable {bookGuids budget}

theorem mem_rows_of_mem_accountGuids {g : Guid} (h : g ∈ accountGuids bookGuids budget) :
    g ∈ tree.rows.map AccountRow.guid := by
  obtain ⟨group, hgroup, rfl⟩ := List.mem_map.1 h
  obtain ⟨⟨a, ha, hkey⟩, -⟩ := (Grouping.mem_grouped_iff _ _ _).1 hgroup
  rw [← hkey]
  exact budget.accounts a (List.mem_of_mem_filter ha)

theorem mem_roots {g root : Guid} :
    root ∈ loadSubtreeMap tree (accountGuids bookGuids budget) g ↔
      root ∈ accountGuids bookGuids budget ∧ tree.Under g root := by
  rw [mem_loadSubtreeMap]
  exact ⟨fun h => ⟨h.1.1, h.2⟩, fun h => ⟨⟨h.1, mem_rows_of_mem_accountGuids h.1⟩, h.2⟩⟩

theorem isTotalled_progressAccount (matrices : Matrices) (g : Guid) :
    isTotalled (progressAccount bookGuids budget matrices g) = true ↔
      tree.typeOf g = some .expense ∧ Topmost bookGuids budget g := by
  unfold isTotalled progressAccount budgetedAncestors Topmost
  rw [Bool.and_eq_true, decide_eq_true_iff, List.isEmpty_iff, List.filter_eq_nil_iff]
  refine and_congr_right fun _ => ⟨fun h root hroot hunder => ?_, fun h root hroot => ?_⟩
  · simpa using h root (mem_roots.2 ⟨hroot, hunder⟩)
  · simpa using h root (mem_roots.1 hroot).1 (mem_roots.1 hroot).2

theorem Topmost.unique {g root root' : Guid} (hroot : root ∈ accountGuids bookGuids budget)
    (hroot' : root' ∈ accountGuids bookGuids budget) (h : Topmost bookGuids budget root)
    (h' : Topmost bookGuids budget root') (hg : tree.Under g root) (hg' : tree.Under g root') :
    root = root' := by
  rcases Forest.above_or_above hg hg' with habove | habove
  · exact (h root' hroot' habove).symm
  · exact h' root hroot habove

theorem keyDay_isoText {d : ℤ} (hd : FourDigit d) : keyDay (isoText d) = some d := by
  rw [keyDay, dateParts_isoText hd]
  simp only [add_sub_cancel_right, fields_newDate]

theorem startKey_head {ranges : List PeriodRange} {n : ℕ} {s : ℕ → ℤ}
    (hkeys : (ranges.map fun r => (r.startKey, r.endKey)) =
      (List.range n).map fun i => (isoText (s i), isoText (s (i + 1) - 1))) :
    (∀ r ∈ ranges.head?, r.startKey = isoText (s 0)) ∧
      ∀ r ∈ ranges.getLast?, r.endKey = isoText (s n - 1) := by
  have hget (i : ℕ) (r : PeriodRange) (hr : ranges[i]? = some r) :
      i < n ∧ r.startKey = isoText (s i) ∧ r.endKey = isoText (s (i + 1) - 1) := by
    have hmap := congrArg (fun keys => keys[i]?) hkeys
    rw [List.getElem?_map, hr, Option.map_some, eq_comm, getElem?_map_range] at hmap
    exact ⟨hmap.1, (Prod.mk.inj hmap.2).1.symm, (Prod.mk.inj hmap.2).2.symm⟩
  have hlen : ranges.length = n := by
    have := congrArg List.length hkeys
    rwa [List.length_map, List.length_map, List.length_range] at this
  refine ⟨fun r hr => ?_, fun r hr => ?_⟩
  · rw [List.head?_eq_getElem?] at hr
    exact (hget 0 r hr).2.1
  · rw [List.getLast?_eq_getElem?] at hr
    obtain ⟨hlt, -, hend⟩ := hget _ r hr
    rw [hend, hlen, Nat.sub_add_cancel (by omega)]

section Run

variable {ranges : List PeriodRange} {toLowerCase : List Char → List Char}
  (hranges : computePeriodRanges toLowerCase budget.recurrence budget.numPeriods = some ranges)
  (hlast : FourDigit (firstDay toLowerCase budget.recurrence budget.numPeriods - 1))

include hranges hlast

theorem mem_loadSplits {splits : List LoadedSplit} {s : LoadedSplit} (hs : s ∈ splits) {p : ℕ}
    (hdated : s.DatedIn ranges p)
    (hroots : loadSubtreeMap tree (accountGuids bookGuids budget) s.accountGuid ≠ []) :
    s ∈ loadSplits bookGuids budget ranges splits := by
  have hsteps : ∀ i < budget.numPeriods, firstDay toLowerCase budget.recurrence i <
      firstDay toLowerCase budget.recurrence (i + 1) := fun i _ => firstDay_lt_succ _ _ i
  have hkeys := keys_computePeriodRanges hranges
  obtain ⟨day, hday, hin⟩ := hdated
  have hp : p < budget.numPeriods := by
    obtain ⟨r, hr, -⟩ := hin
    have hlen := congrArg List.length hkeys
    rw [List.length_map, List.length_map, List.length_range] at hlen
    exact hlen ▸ (List.getElem?_eq_some_iff.1 hr).1
  have hfirst := fourDigit_firstDay_zero (Nat.zero_lt_of_lt hp) hlast
  obtain ⟨-, hlow, hhigh⟩ := (holds_iff hsteps hfirst hlast hkeys).1 hin
  have hlow' := le_of_steps hsteps (Nat.zero_le p) hp.le
  have hhigh' := le_of_steps hsteps (show p + 1 ≤ budget.numPeriods from hp) le_rfl
  obtain ⟨hhead, hend⟩ := startKey_head hkeys
  refine List.mem_filter.2 ⟨hs, decide_eq_true ⟨hroots, day, hday, fun r hr first hf => ?_,
    fun r hr last hl => ?_⟩⟩
  · rw [hhead r hr, keyDay_isoText hfirst] at hf
    rw [← Option.some.inj hf]
    omega
  · rw [hend r hr, keyDay_isoText hlast] at hl
    rw [← Option.some.inj hl]
    omega

open scoped Classical in
theorem actual_progressAccount (splits : List LoadedSplit) {p : ℕ} (hp : p < budget.numPeriods)
    (g : Guid) :
    let guids := accountGuids bookGuids budget
    let matrices := bucketSplitsRollup ranges (loadSubtreeMap tree guids) tree.typeOf
      budget.numPeriods (loadSplits bookGuids budget ranges splits)
    at0 (progressAccount bookGuids budget matrices g).actual p =
      (splits.map fun s =>
        if s.DatedIn ranges p ∧ g ∈ guids ∧ tree.Under s.accountGuid g then
          signCorrectAmount (tree.typeOf g) s.quantity.toDecimalNumber
        else 0).sum := by
  intro guids matrices
  have hpartition := partition_computePeriodRanges (fun _ => hlast) hranges
  refine (entry_bucketSplitsRollup (nodup_loadSubtreeMap tree guids) _ hp g).trans ?_
  rw [loadSplits, ListSums.sum_filter_map]
  refine congrArg List.sum (List.map_congr_left fun s hs => ?_)
  have hiff : (periodIdx ranges s.postDate = some p ∧ g ∈ loadSubtreeMap tree guids s.accountGuid) ↔
      s.DatedIn ranges p ∧ g ∈ guids ∧ tree.Under s.accountGuid g := by
    rw [periodIdx_eq_some_iff hpartition, mem_roots]
  by_cases hcounts : s.DatedIn ranges p ∧ g ∈ guids ∧ tree.Under s.accountGuid g
  · have hloaded := mem_loadSplits hranges hlast hs hcounts.1 (List.ne_nil_of_mem (hiff.2 hcounts).2)
    rw [if_pos (List.mem_filter.1 hloaded).2, share, if_pos (hiff.2 hcounts), if_pos hcounts]
  · rw [share, if_neg (mt hiff.1 hcounts), ite_self, if_neg hcounts]

theorem sum_totalled (splits : List LoadedSplit) {p : ℕ} (hp : p < budget.numPeriods) :
    let guids := accountGuids bookGuids budget
    let matrices := bucketSplitsRollup ranges (loadSubtreeMap tree guids) tree.typeOf
      budget.numPeriods (loadSplits bookGuids budget ranges splits)
    (((guids.map (progressAccount bookGuids budget matrices)).filter isTotalled).map fun a =>
        at0 a.actual p).sum = spent ranges splits p (UnderTopmostExpense bookGuids budget) := by
  classical
  intro guids matrices
  set totalled := guids.filter fun g => isTotalled (progressAccount bookGuids budget matrices g)
    with htotalled
  have hmem {g : Guid} : g ∈ totalled ↔
      IsBudgetedExpense bookGuids budget g ∧ Topmost bookGuids budget g := by
    rw [htotalled, List.mem_filter, isTotalled_progressAccount, IsBudgetedExpense, and_assoc]
  have hnodup : totalled.Nodup := (Grouping.nodup_grouped _ _).filter _
  rw [List.filter_map, List.map_map]
  refine (congrArg List.sum (List.map_congr_left fun g _ =>
    actual_progressAccount hranges hlast splits hp g)).trans ?_
  rw [ListSums.sum_comm, spent]
  refine congrArg List.sum (List.map_congr_left fun s _ => ?_)
  by_cases hcounts : s.DatedIn ranges p ∧ UnderTopmostExpense bookGuids budget s.accountGuid
  · -- the row of the one topmost account above has the split
    obtain ⟨hdated, root, hexpense, htop, hunder⟩ := hcounts
    rw [if_pos ⟨hdated, root, hexpense, htop, hunder⟩]
    refine (congrArg List.sum (List.map_congr_left fun g hg => ?_)).trans
      (ListSums.sum_ite_eq s.quantity.toDecimalNumber hnodup (hmem.2 ⟨hexpense, htop⟩))
    obtain ⟨hg, hgtop⟩ := hmem.1 hg
    by_cases heq : g = root
    · subst heq
      rw [if_pos ⟨hdated, hg.1, hunder⟩, if_pos rfl, hg.2, signCorrectAmount, if_neg (by decide)]
    · rw [if_neg fun h => heq (hgtop.unique hg.1 hexpense.1 htop h.2.2 hunder), if_neg heq]
  · rw [if_neg hcounts]
    refine List.sum_eq_zero fun v hv => ?_
    obtain ⟨g, hg, rfl⟩ := List.mem_map.1 hv
    obtain ⟨hg, hgtop⟩ := hmem.1 hg
    exact if_neg fun h => hcounts ⟨h.1, g, hg, hgtop, h.2.2⟩

variable (bookGuids) in
theorem actual_periodTotal (splits : List LoadedSplit) (asOf : List Char) {p : ℕ}
    (hp : p < budget.numPeriods) :
    ∃ result, loadBudgetActuals bookGuids budget toLowerCase splits asOf = some result ∧
      result.periodTotals[p]?.map PeriodProgress.actual =
        some (round2 (spent ranges splits p (UnderTopmostExpense bookGuids budget))) := by
  obtain ⟨r, hr, hnum⟩ := getElem?_computePeriodRanges hranges hp
  refine ⟨_, by rw [loadBudgetActuals, hranges, Option.map_some], ?_⟩
  rw [← sum_totalled hranges hlast splits hp]
  simp only [computeBudgetProgress, List.getElem?_map, hr, Option.map_some, makePeriodProgress, hnum]

end Run

theorem round2_sub_eq_iff {s d : ℚ} : round2 (s - d) = s ↔ WholeCents s ∧ round2 (-d) = 0 := by
  have hround (hs : WholeCents s) : round2 (s - d) = s + round2 (-d) := by
    obtain ⟨n, hn⟩ := Ledger.wholeCents_iff.1 hs
    have hmul : (s - d) * 100 = n + -d * 100 := by rw [← hn]; ring
    have hs' : s = n / 100 := by rw [← hn]; ring
    rw [round2, round2, hmul, Ledger.mathRound, add_assoc, Int.floor_intCast_add, Int.cast_add,
      add_div, ← hs']
    rfl
  constructor
  · intro h
    have hs : WholeCents s := h ▸ Ledger.wholeCents_round2 _
    rw [hround hs, add_eq_left] at h
    exact ⟨hs, h⟩
  · rintro ⟨hs, hd⟩
    rw [hround hs, hd, add_zero]

theorem spent_split (ranges : List PeriodRange) (splits : List LoadedSplit) (p : ℕ) :
    spent ranges splits p (UnderTopmostExpense bookGuids budget) =
      spent ranges splits p (UnderExpense bookGuids budget) -
        spent ranges splits p fun g =>
          UnderExpense bookGuids budget g ∧ ¬UnderTopmostExpense bookGuids budget g := by
  classical
  rw [eq_sub_iff_add_eq]
  unfold spent
  rw [← List.sum_map_add]
  refine congrArg List.sum (List.map_congr_left fun s _ => ?_)
  have hunder : UnderTopmostExpense bookGuids budget s.accountGuid →
      UnderExpense bookGuids budget s.accountGuid :=
    fun ⟨root, hroot, _, h⟩ => ⟨root, hroot, h⟩
  by_cases hdated : s.DatedIn ranges p <;>
    by_cases htop : UnderTopmostExpense bookGuids budget s.accountGuid <;>
    by_cases hexp : UnderExpense bookGuids budget s.accountGuid <;> simp_all


/-- The total of a period is what the splits dated in it on the accounts under budgeted expense
accounts come to, each counted once. -/
def PeriodTotalCountsOnce (bookGuids : List Guid) (budget : Budget tree)
    (toLowerCase : List Char → List Char) (splits : List LoadedSplit) (asOf : List Char) (p : ℕ) :
    Prop :=
  ∃ ranges result,
    computePeriodRanges toLowerCase budget.recurrence budget.numPeriods = some ranges ∧
      loadBudgetActuals bookGuids budget toLowerCase splits asOf = some result ∧
      result.periodTotals[p]?.map PeriodProgress.actual =
        some (spent ranges splits p (UnderExpense bookGuids budget))

end Totals

/-! ## An expense account under an income account -/

/-- Expenses that are booked against an income account. -/
def rentalTree : AccountTree where
  rows := [⟨"rent", none, "Rental income", .income, some "USD"⟩,
    ⟨"repairs", some "rent", "Repairs", .expense, some "USD"⟩]
  keys := by decide
  acyclic := by
    have hparent {a b : Guid} (h : Forest.IsParent (parentIn
        [⟨"rent", none, "Rental income", .income, some "USD"⟩,
          ⟨"repairs", some "rent", "Repairs", .expense, some "USD"⟩]) a b) :
        a = "repairs" ∧ b = "rent" := by
      unfold Forest.IsParent parentIn at h
      by_cases hrent : a = "rent"
      · subst hrent
        cases h
      · by_cases hrepairs : a = "repairs"
        · subst hrepairs
          exact ⟨rfl, (Option.some.inj h).symm⟩
        · simp [Ne.symm hrent, Ne.symm hrepairs] at h
    intro a h
    obtain ⟨b, hab, -⟩ := Relation.TransGen.head'_iff.1 h
    obtain ⟨c, -, hca⟩ := Relation.TransGen.tail'_iff.1 h
    exact absurd ((hparent hab).1.symm.trans (hparent hca).2) (by decide)
  parents := by decide

def january2025 : BudgetRecurrence := ⟨"month".toList, 1, ⟨newDate 2025 0 1, by decide⟩⟩

def rentalBudget (budgeted : List Guid) (h : ∀ g ∈ budgeted, g = "rent" ∨ g = "repairs") :
    Budget rentalTree where
  numPeriods := 1
  recurrence := january2025
  amounts := budgeted.map fun g => ⟨g, 0, ⟨100, 100⟩⟩
  accounts := by
    intro a ha
    obtain ⟨g, hg, rfl⟩ := List.mem_map.1 ha
    rcases h g hg with rfl | rfl <;> decide

def repairSplits : List LoadedSplit := [⟨"repairs", ⟨100, 100⟩, some (newDate 2025 0 15)⟩]

end Budgets
