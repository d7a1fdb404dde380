import Mathlib
import GnucashWeb.Ledger.Book

/-!
# Matching statement lines with splits

`matchStatementLines` goes through the lines by date and gives each the nearest split that is not used
yet and has its amount.  What is nearest is a least element in an order (`rank`), which is strict on
splits with different guids, so that neither the order of the splits nor that of the lines matters.
-/

namespace BankStatements

open Ledger (ReconcileState moneyDisplayEpsilon)

/-! ## Lines and splits -/

/-- A guid as its UTF-16 code units, which comparisons go by. -/
abbrev Guid := List ℕ

/-- A statement line; dates are milliseconds, and money into the account is positive. -/
structure StatementLineInput where
  lineId : ℕ
  date : ℤ
  amountSigned : ℚ
deriving DecidableEq

structure LedgerSplitInput where
  splitGuid : Guid
  date : ℤ
  amountSigned : ℚ
  reconcileState : Option ReconcileState
deriving DecidableEq

structure MatchedPair where
  lineId : ℕ
  splitGuid : Guid
deriving DecidableEq, Repr

structure MatchResult where
  matched : List MatchedPair
  missingOnStatement : List ℕ
  inLedgerNotOnStatement : List Guid
deriving DecidableEq, Repr

structure MatchOptions where
  windowDays : Option ℚ

def defaultMatchWindowDays : ℚ := 4

def dayDistance (a b : ℤ) : ℚ := (a - b).natAbs / 86400000

/-! ## The matcher -/

/-- The amounts agree, and the dates are within the window. -/
def Pairable (windowDays : ℚ) (line : StatementLineInput) (split : LedgerSplitInput) : Prop :=
  |split.amountSigned - line.amountSigned| < moneyDisplayEpsilon ∧
    dayDistance line.date split.date ≤ windowDays

instance (windowDays : ℚ) (line : StatementLineInput) (split : LedgerSplitInput) :
    Decidable (Pairable windowDays line split) :=
  inferInstanceAs (Decidable (_ ∧ _))

/-- Whether a split can be matched with a line. -/
def Eligible (windowDays : ℚ) (used : List Guid) (line : StatementLineInput)
    (split : LedgerSplitInput) : Prop :=
  split.splitGuid ∉ used ∧ Pairable windowDays line split

instance (windowDays : ℚ) (used : List Guid) (line : StatementLineInput)
    (split : LedgerSplitInput) : Decidable (Eligible windowDays used line split) :=
  inferInstanceAs (Decidable (_ ∧ _))

/-- The closest date wins, then the earlier split date, then the smaller guid. -/
def Nearer (line : StatementLineInput) (split best : LedgerSplitInput) : Prop :=
  dayDistance line.date split.date < dayDistance line.date best.date ∨
    (dayDistance line.date split.date = dayDistance line.date best.date ∧
      (split.date < best.date ∨ (split.date = best.date ∧ split.splitGuid < best.splitGuid)))

instance (line : StatementLineInput) (split best : LedgerSplitInput) :
    Decidable (Nearer line split best) :=
  inferInstanceAs (Decidable (_ ∨ _ ∧ (_ ∨ _ ∧ _)))

def betterOf (windowDays : ℚ) (used : List Guid) (line : StatementLineInput)
    (best : Option LedgerSplitInput) (split : LedgerSplitInput) : Option LedgerSplitInput :=
  if Eligible windowDays used line split then
    match best with
    | none => some split
    | some b => if Nearer line split b then some split else some b
  else best

def bestSplit (windowDays : ℚ) (used : List Guid) (line : StatementLineInput)
    (splits : List LedgerSplitInput) : Option LedgerSplitInput :=
  splits.foldl (betterOf windowDays used line) none

def matchFrom (windowDays : ℚ) (splits : List LedgerSplitInput) :
    List StatementLineInput → List Guid → List MatchedPair
  | [], _ => []
  | line :: lines, used =>
    match bestSplit windowDays used line splits with
    | some split =>
      ⟨line.lineId, split.splitGuid⟩ ::
        matchFrom windowDays splits lines (split.splitGuid :: used)
    | none => matchFrom windowDays splits lines used

def lineOrder (a b : StatementLineInput) : Prop :=
  a.date < b.date ∨ (a.date = b.date ∧ a.lineId ≤ b.lineId)

instance : DecidableRel lineOrder := fun _ _ => inferInstanceAs (Decidable (_ ∨ _ ∧ _))

def matchStatementLines (lines : List StatementLineInput) (ledgerSplits : List LedgerSplitInput)
    (options : MatchOptions) : MatchResult :=
  let windowDays := options.windowDays.getD defaultMatchWindowDays
  let matched := matchFrom windowDays ledgerSplits (lines.insertionSort lineOrder) []
  { matched := matched
    missingOnStatement :=
      (lines.filter fun l => l.lineId ∉ matched.map MatchedPair.lineId).map
        StatementLineInput.lineId
    inLedgerNotOnStatement :=
      (ledgerSplits.filter fun s => s.splitGuid ∉ matched.map MatchedPair.splitGuid).map
        LedgerSplitInput.splitGuid }

/-! ## The best split -/

section Best

variable {windowDays : ℚ} {used : List Guid} {line : StatementLineInput}
  {splits splits' : List LedgerSplitInput} {split : LedgerSplitInput}

/-- The place of a split in the order of preference for a line. -/
def rank (line : StatementLineInput) (split : LedgerSplitInput) : ℚ ×ₗ ℤ ×ₗ Guid :=
  toLex (dayDistance line.date split.date, toLex (split.date, split.splitGuid))

theorem nearer_iff_rank_lt (line : StatementLineInput) (split best : LedgerSplitInput) :
    Nearer line split best ↔ rank line split < rank line best := by
  rw [rank, rank, Prod.Lex.toLex_lt_toLex, Prod.Lex.toLex_lt_toLex]
  rfl

theorem guid_of_rank_eq {a b : LedgerSplitInput} (h : rank line a = rank line b) :
    a.splitGuid = b.splitGuid := by
  have hsnd := congrArg Prod.snd (toLex.injective h)
  exact congrArg Prod.snd (toLex.injective hsnd)

/-- The best split is the least of those that can be matched. -/
theorem bestSplit_eq_argmin (windowDays : ℚ) (used : List Guid) (line : StatementLineInput)
    (splits : List LedgerSplitInput) :
    bestSplit windowDays used line splits =
      (splits.filter fun s => Eligible windowDays used line s).argmin (rank line) := by
  rw [bestSplit, List.argmin, List.foldl_filter]
  congr 1
  funext best split
  unfold betterOf List.argAux
  simp only [decide_eq_true_eq, nearer_iff_rank_lt]
  split
  · cases best <;> rfl
  · rfl

theorem bestSplit_spec (h : bestSplit windowDays used line splits = some split) :
    split ∈ splits ∧ Eligible windowDays used line split := by
  rw [bestSplit_eq_argmin] at h
  simpa using List.mem_filter.1 (List.argmin_mem h)

theorem bestSplit_eq_none_iff :
    bestSplit windowDays used line splits = none ↔
      ∀ s ∈ splits, ¬Eligible windowDays used line s := by
  rw [bestSplit_eq_argmin, List.argmin_eq_none, List.filter_eq_nil_iff]
  simp

/-- With distinct guids, the order of the splits does not matter. -/
theorem bestSplit_perm (hsplits : (splits.map LedgerSplitInput.splitGuid).Nodup)
    (h : splits'.Perm splits) (windowDays : ℚ) (used : List Guid) (line : StatementLineInput) :
    bestSplit windowDays used line splits' = bestSplit windowDays used line splits := by
  cases hbest : bestSplit windowDays used line splits with
  | none =>
    rw [bestSplit_eq_none_iff] at hbest ⊢
    exact fun s hs => hbest s (h.subset hs)
  | some a =>
    cases hbest' : bestSplit windowDays used line splits' with
    | none =>
      obtain ⟨ha, helig⟩ := bestSplit_spec hbest
      exact absurd helig (bestSplit_eq_none_iff.1 hbest' a (h.symm.subset ha))
    | some b =>
      have ha := (bestSplit_spec hbest).1
      have hb := (bestSplit_spec hbest').1
      rw [bestSplit_eq_argmin] at hbest hbest'
      have hperm := h.filter fun s => decide (Eligible windowDays used line s)
      have hba := List.le_of_mem_argmin (hperm.symm.subset (List.argmin_mem hbest)) hbest'
      have hab := List.le_of_mem_argmin (hperm.subset (List.argmin_mem hbest')) hbest
      have hguid := guid_of_rank_eq (le_antisymm hba hab)
      exact congrArg some (List.inj_on_of_nodup_map hsplits (h.subset hb) ha hguid)

end Best
/-! ## The loop -/

section Loop

variable {windowDays : ℚ} {used : List Guid} {lines : List StatementLineInput}
  {splits splits' : List LedgerSplitInput} {pair : MatchedPair}

theorem matchFrom_cons {line : StatementLineInput} :
    matchFrom windowDays splits (line :: lines) used =
      match bestSplit windowDays used line splits with
      | some split =>
        ⟨line.lineId, split.splitGuid⟩ ::
          matchFrom windowDays splits lines (split.splitGuid :: used)
      | none => matchFrom windowDays splits lines used := rfl

/-- A match is of a line and a split that is not used, and the two can be paired. -/
theorem mem_matchFrom (h : pair ∈ matchFrom windowDays splits lines used) :
    pair.splitGuid ∉ used ∧ ∃ line ∈ lines, ∃ split ∈ splits,
      line.lineId = pair.lineId ∧ split.splitGuid = pair.splitGuid ∧
        Pairable windowDays line split := by
  induction lines generalizing used with
  | nil => cases h
  | cons line lines ih =>
    rw [matchFrom_cons] at h
    split at h
    · next split hbest =>
        obtain ⟨hmem, hfree, hpair⟩ := bestSplit_spec hbest
        rcases List.mem_cons.1 h with rfl | h
        · exact ⟨hfree, line, List.mem_cons_self .., split, hmem, rfl, rfl, hpair⟩
        · obtain ⟨hused, l, hl, rest⟩ := ih h
          exact ⟨fun hmem => hused (List.mem_cons_of_mem _ hmem), l, List.mem_cons_of_mem _ hl, rest⟩
    · obtain ⟨hused, l, hl, rest⟩ := ih h
      exact ⟨hused, l, List.mem_cons_of_mem _ hl, rest⟩

theorem splitGuid_matchFrom_subset :
    (matchFrom windowDays splits lines used).map MatchedPair.splitGuid ⊆
      splits.map LedgerSplitInput.splitGuid := by
  intro guid hguid
  obtain ⟨pair, hpair, rfl⟩ := List.mem_map.1 hguid
  obtain ⟨-, line, -, split, hsplit, -, hguid, -⟩ := mem_matchFrom hpair
  exact hguid ▸ List.mem_map_of_mem hsplit

theorem nodup_splitGuid_matchFrom (windowDays : ℚ) (splits : List LedgerSplitInput)
    (lines : List StatementLineInput) (used : List Guid) :
    ((matchFrom windowDays splits lines used).map MatchedPair.splitGuid).Nodup := by
  induction lines generalizing used with
  | nil => exact List.nodup_nil
  | cons line lines ih =>
    rw [matchFrom_cons]
    split
    · next split _ =>
        refine List.nodup_cons.2 ⟨fun hmem => ?_, ih _⟩
        obtain ⟨pair, hpair, hguid⟩ := List.mem_map.1 hmem
        exact (mem_matchFrom hpair).1 (hguid ▸ List.mem_cons_self ..)
    · exact ih _

/-- The lines are matched in their order, each at most once. -/
theorem lineId_matchFrom_sublist (windowDays : ℚ) (splits : List LedgerSplitInput)
    (lines : List StatementLineInput) (used : List Guid) :
    ((matchFrom windowDays splits lines used).map MatchedPair.lineId).Sublist
      (lines.map StatementLineInput.lineId) := by
  induction lines generalizing used with
  | nil => exact List.Sublist.refl _
  | cons line lines ih =>
    rw [matchFrom_cons]
    split
    · exact (ih _).cons_cons _
    · exact (ih _).cons _

/-- When a line is left, so is no split that is neither used nor matched and could be paired with it:
later lines only use more splits. -/
theorem matchFrom_maximal {line : StatementLineInput} {split : LedgerSplitInput}
    (hline : line ∈ lines) (hsplit : split ∈ splits) (hpair : Pairable windowDays line split)
    (hleft : line.lineId ∉ (matchFrom windowDays splits lines used).map MatchedPair.lineId) :
    split.splitGuid ∈ used ∨
      split.splitGuid ∈ (matchFrom windowDays splits lines used).map MatchedPair.splitGuid := by
  induction lines generalizing used with
  | nil => cases hline
  | cons l lines ih =>
    rw [matchFrom_cons] at hleft ⊢
    split at hleft
    · next best _ =>
        rw [List.map_cons, List.mem_cons, not_or] at hleft
        have hmem : line ∈ lines :=
          (List.mem_cons.1 hline).resolve_left fun heq => hleft.1 (heq ▸ rfl)
        rw [List.map_cons, List.mem_cons]
        have := ih hmem hleft.2
        rw [List.mem_cons] at this
        tauto
    · next hnone =>
        rcases List.mem_cons.1 hline with rfl | hmem
        · left
          by_contra hfree
          exact bestSplit_eq_none_iff.1 hnone split hsplit ⟨hfree, hpair⟩
        · exact ih hmem hleft

theorem matchFrom_perm (hsplits : (splits.map LedgerSplitInput.splitGuid).Nodup)
    (h : splits'.Perm splits) (windowDays : ℚ) (lines : List StatementLineInput)
    (used : List Guid) :
    matchFrom windowDays splits' lines used = matchFrom windowDays splits lines used := by
  induction lines generalizing used with
  | nil => rfl
  | cons line lines ih => simp only [matchFrom_cons, bestSplit_perm hsplits h, ih]

end Loop

instance : Std.Total lineOrder where
  total a b := by
    unfold lineOrder
    omega

instance : IsTrans StatementLineInput lineOrder where
  trans a b c hab hbc := by
    unfold lineOrder at *
    omega

/-- Lines with distinct ids are sorted to the same list in whatever order they come. -/
theorem insertionSort_perm {lines lines' : List StatementLineInput}
    (hlines : (lines.map StatementLineInput.lineId).Nodup) (h : lines'.Perm lines) :
    lines'.insertionSort lineOrder = lines.insertionSort lineOrder := by
  refine List.Perm.eq_of_pairwise (fun a b ha hb hab hba => ?_)
    (List.pairwise_insertionSort lineOrder lines') (List.pairwise_insertionSort lineOrder lines)
    ((List.perm_insertionSort _ _).trans (h.trans (List.perm_insertionSort _ _).symm))
  have hid : a.lineId = b.lineId := by
    unfold lineOrder at hab hba
    omega
  exact List.inj_on_of_nodup_map hlines (h.subset ((List.mem_insertionSort _).1 ha))
    ((List.mem_insertionSort _).1 hb) hid

/-! ## What is matched -/

/-- A pairing of lines with splits, one to one, of amounts that agree and dates within the window,
that leaves no line and split that could be paired. -/
structure IsMatching (windowDays : ℚ) (lines : List StatementLineInput)
    (ledgerSplits : List LedgerSplitInput) (result : MatchResult) : Prop where
  lines_once : (result.matched.map MatchedPair.lineId).Nodup
  splits_once : (result.matched.map MatchedPair.splitGuid).Nodup
  agrees : ∀ pair ∈ result.matched, ∃ line ∈ lines, ∃ split ∈ ledgerSplits,
    line.lineId = pair.lineId ∧ split.splitGuid = pair.splitGuid ∧ Pairable windowDays line split
  lines_rest : (result.matched.map MatchedPair.lineId ++ result.missingOnStatement).Perm
    (lines.map StatementLineInput.lineId)
  splits_rest : (result.matched.map MatchedPair.splitGuid ++ result.inLedgerNotOnStatement).Perm
    (ledgerSplits.map LedgerSplitInput.splitGuid)
  maximal : ∀ line ∈ lines, ∀ split ∈ ledgerSplits, line.lineId ∈ result.missingOnStatement →
    split.splitGuid ∈ result.inLedgerNotOnStatement → ¬Pairable windowDays line split

/-- Some of the keys of a list and the keys of the rows without them are the keys of the list. -/
theorem append_rest_perm {α κ : Type} [BEq κ] [LawfulBEq κ] {key : α → κ} {rows : List α} {some : List κ}
    (hrows : (rows.map key).Nodup) (hsome : some.Nodup) (hsub : some ⊆ rows.map key) :
    (some ++ (rows.filter fun r => key r ∉ some).map key).Perm (rows.map key) := by
  have hrest : (rows.filter fun r => key r ∉ some).map key =
      (rows.map key).filter fun k => k ∉ some := by
    rw [List.filter_map]
    rfl
  rw [hrest]
  refine (List.perm_ext_iff_of_nodup ?_ hrows).2 fun k => ?_
  · exact hsome.append (hrows.filter _) fun k hk hk' => by simp [hk] at hk'
  · rw [List.mem_append, List.mem_filter]
    by_cases hk : k ∈ some
    · simp [hk, hsub hk]
    · simp [hk]

theorem matchStatementLines_spec {lines : List StatementLineInput}
    {ledgerSplits : List LedgerSplitInput}
    (hlines : (lines.map StatementLineInput.lineId).Nodup)
    (hsplits : (ledgerSplits.map LedgerSplitInput.splitGuid).Nodup) (options : MatchOptions) :
    IsMatching (options.windowDays.getD defaultMatchWindowDays) lines ledgerSplits
        (matchStatementLines lines ledgerSplits options) ∧
      ∀ lines' ledgerSplits', lines'.Perm lines → ledgerSplits'.Perm ledgerSplits →
        (matchStatementLines lines' ledgerSplits' options).matched =
          (matchStatementLines lines ledgerSplits options).matched := by
  have hsort := List.perm_insertionSort lineOrder lines
  have hids := lineId_matchFrom_sublist (options.windowDays.getD defaultMatchWindowDays)
    ledgerSplits (lines.insertionSort lineOrder) []
  have hline := hids.nodup ((hsort.map _).nodup_iff.2 hlines)
  have hsplit := nodup_splitGuid_matchFrom (options.windowDays.getD defaultMatchWindowDays)
    ledgerSplits (lines.insertionSort lineOrder) []
  refine ⟨⟨hline, hsplit, fun pair hpair => ?_, ?_, ?_, ?_⟩, ?_⟩
  · obtain ⟨-, line, hline, rest⟩ := mem_matchFrom hpair
    exact ⟨line, hsort.subset hline, rest⟩
  · exact append_rest_perm hlines hline fun id hid => (hsort.map _).subset (hids.subset hid)
  · exact append_rest_perm hsplits hsplit splitGuid_matchFrom_subset
  · intro line hline split hsplit hmissing hleft hpair
    obtain ⟨l, hl, hlid⟩ := List.mem_map.1 hmissing
    obtain ⟨s, hs, hsid⟩ := List.mem_map.1 hleft
    have hl := (List.mem_filter.1 hl).2
    have hs := (List.mem_filter.1 hs).2
    rw [decide_eq_true_eq, hlid] at hl
    rw [decide_eq_true_eq, hsid] at hs
    rcases matchFrom_maximal (hsort.symm.subset hline) hsplit hpair hl with hused | hmatched
    · cases hused
    · exact hs hmatched
  · intro lines' splits' hl hs
    change matchFrom _ splits' (lines'.insertionSort lineOrder) [] = matchFrom _ ledgerSplits _ []
    rw [insertionSort_perm hlines hl, matchFrom_perm hsplits hs]

def equalLines : List StatementLineInput := [⟨1, 0, 20⟩, ⟨2, 86400000, 20⟩]

def equalSplits : List LedgerSplitInput :=
  [⟨[98], 86400000, 20, some .n⟩, ⟨[97], 0, 20, some .c⟩, ⟨[99], 864000000, 20, none⟩]

/-- Two lines of one amount, each with a split of its day, and a split that is too late for both. -/
theorem matchStatementLines_spec_equalLines :
    IsMatching 4 equalLines equalSplits (matchStatementLines equalLines equalSplits ⟨none⟩) ∧
      ∀ lines' ledgerSplits', lines'.Perm equalLines → ledgerSplits'.Perm equalSplits →
        (matchStatementLines lines' ledgerSplits' ⟨none⟩).matched =
          (matchStatementLines equalLines equalSplits ⟨none⟩).matched :=
  matchStatementLines_spec (by decide) (by decide) ⟨none⟩

end BankStatements
