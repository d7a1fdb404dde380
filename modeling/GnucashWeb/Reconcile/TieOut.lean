import GnucashWeb.Reconcile.Finalize
import Mathlib.Algebra.BigOperators.Ring.Finset
import Mathlib.Data.List.Perm.Subperm

/-!
# Tying out

`tiesOut_iff`: when the sums are those of the tables that are written, what a finalization writes ties
out exactly when the transactions of all selected splits have a post date.
-/

open Ledger (Amount Account ReconcileState Split)
open Transact Rows

namespace Reconcile

/-! ## The property -/

def reconciledBalance (db : Db) (accountGuid : String) : ℚ :=
  total (fun s : Split => s.accountGuid = accountGuid ∧ s.reconcileState = .y)
    (fun s => s.quantity.exact) db.splits

/-- What a finalization promises of the tables before and after it: the reconciled balance is the
ending balance, every selected split was unreconciled, of the account and dated by the end of the
statement's day, and the other splits are as they were. -/
structure TiesOut (accountGuid : String) (input : FinalizeInput) (db db' : Db) : Prop where
  units : ∃ units : ℤ, decimalToUnits input.endingBalance input.commodityScu = .ok units ∧
    reconciledBalance db' accountGuid * input.commodityScu = units
  balance : ∃ t, readDecimalText input.endingBalance = some t ∧
    reconciledBalance db' accountGuid = t.value
  marked : ∀ s ∈ db.splits, s.guid ∈ input.splitGuids →
    s.accountGuid = accountGuid ∧ s.reconcileState ≠ .y ∧
      ∃ d ∈ db.postDate s, d ≤ statementDateCutoff input.statementDate
  others : ∀ s ∈ db.splits, s.guid ∉ input.splitGuids → s ∈ db'.splits

/-- The transactions of the selected splits have a post date. -/
def SelectedDated (input : FinalizeInput) (db : Db) : Prop :=
  ∀ s ∈ db.splits, s.guid ∈ input.splitGuids → (db.postDate s).isSome

instance (input : FinalizeInput) (db : Db) : Decidable (SelectedDated input db) :=
  inferInstanceAs (Decidable (∀ s ∈ db.splits, s.guid ∈ input.splitGuids → (db.postDate s).isSome))

/-! ## What the reads say -/

variable {host : Host} {accountGuid : String} {input : FinalizeInput} {db db' : Db}

variable {u : Unit} {units selectedUnits reconciledUnits : ℤ} {rows : List Split}

theorem check_eq_ok {c : Prop} [Decidable c] {failure : Failure} :
    check c failure = .ok u ↔ c := by
  unfold check
  by_cases hc : c <;> simp [hc]

theorem refuse_eq_ok {offending : List Split} {failure : List String → Failure} :
    refuse offending failure = .ok u ↔ offending = [] := check_eq_ok

theorem mem_uniqueGuids {g : String} : g ∈ input.uniqueGuids ↔ g ∈ input.splitGuids :=
  List.mem_eraseDups

theorem sumUnits_exact {scu : ℤ} {splits : List Split} (h : sumUnits scu splits = .ok units) :
    (units : ℚ) = (splits.map fun s => s.quantity.exact).sum * scu := by
  induction splits generalizing units with
  | nil =>
    cases h
    simp
  | cons s splits ih =>
    obtain ⟨n, hn, h⟩ := except_bind_eq_ok.1 h
    obtain ⟨rest, hrest, h⟩ := except_bind_eq_ok.1 h
    cases h
    rw [List.map_cons, List.sum_cons, add_mul, Int.cast_add, splitToUnits_exact hn, ih hrest]

/-- What the validated read says of the tables it reads. -/
structure Selected (accountGuid : String) (input : FinalizeInput) (db : Db) (units : ℤ) : Prop where
  sum : (units : ℚ) = total (fun s : Split => s.guid ∈ input.splitGuids)
    (fun s => s.quantity.exact) db.splits * input.commodityScu
  present : ∀ g ∈ input.splitGuids, g ∈ db.splits.map Split.guid
  account : ∀ s ∈ db.splits, s.guid ∈ input.splitGuids → s.accountGuid = accountGuid
  unreconciled : ∀ s ∈ db.splits, s.guid ∈ input.splitGuids → s.reconcileState ≠ .y
  dated : ∀ s ∈ db.splits, s.guid ∈ input.splitGuids →
    ∀ d ∈ db.postDate s, d ≤ statementDateCutoff input.statementDate

theorem forall_mem_of_length_eq {guids : List String}
    (hrows : (rows.map Split.guid).Nodup) (hsub : ∀ s ∈ rows, s.guid ∈ guids)
    (hlen : rows.length = guids.length) : ∀ g ∈ guids, g ∈ rows.map Split.guid := by
  have hsubset : rows.map Split.guid ⊆ guids := by
    intro g hg
    obtain ⟨s, hs, rfl⟩ := List.mem_map.1 hg
    exact hsub s hs
  have hperm := (List.Nodup.subperm hrows hsubset).perm_of_length_le (by simp [hlen])
  exact fun g hg => hperm.mem_iff.2 hg

theorem selected_of_readSelected (hkeys : (db.splits.map Split.guid).Nodup)
    (h : readSelected accountGuid input db = .ok units) :
    Selected accountGuid input db units := by
  unfold readSelected at h
  have hmem {s : Split} : s ∈ (db.splits.filter fun s => s.guid ∈ input.uniqueGuids) ↔
      s ∈ db.splits ∧ s.guid ∈ input.splitGuids := by
    rw [List.mem_filter, decide_eq_true_eq, mem_uniqueGuids]
  split at h
  · next hnil =>
      have hnone {g : String} : g ∉ input.splitGuids := by
        rw [← mem_uniqueGuids, hnil]
        exact List.not_mem_nil
      cases h
      refine ⟨?_, fun g hg => absurd hg hnone, fun s _ hs => absurd hs hnone,
        fun s _ hs => absurd hs hnone, fun s _ hs => absurd hs hnone⟩
      rw [total_eq_zero fun s _ hs => absurd hs hnone]
      simp
  · obtain ⟨_, -, h⟩ := except_bind_eq_ok.1 h
    obtain ⟨_, hlen, h⟩ := except_bind_eq_ok.1 h
    obtain ⟨_, haccount, h⟩ := except_bind_eq_ok.1 h
    obtain ⟨_, hstate, h⟩ := except_bind_eq_ok.1 h
    obtain ⟨_, hdate, h⟩ := except_bind_eq_ok.1 h
    rw [check_eq_ok] at hlen
    rw [refuse_eq_ok, List.filter_eq_nil_iff] at haccount hstate hdate
    refine ⟨?_, ?_, ?_, ?_, ?_⟩
    · rw [sumUnits_exact h, total]
      simp only [mem_uniqueGuids]
    · intro g hg
      have hall := forall_mem_of_length_eq ((List.filter_sublist.map _).nodup hkeys)
        (fun s hs => of_decide_eq_true (List.mem_filter.1 hs).2) hlen g (mem_uniqueGuids.2 hg)
      exact List.map_subset _ (List.filter_subset_self _) hall
    · intro s hs hg
      simpa using haccount s (hmem.2 ⟨hs, hg⟩)
    · intro s hs hg
      simpa using hstate s (hmem.2 ⟨hs, hg⟩)
    · intro s hs hg d hd
      have hnot := hdate s (hmem.2 ⟨hs, hg⟩)
      by_contra hlt
      exact hnot (decide_eq_true ⟨d, hd, not_le.1 hlt⟩)

theorem reconciledBalance_of_summarize {scu : ℤ}
    (h : summarizeReconciled accountGuid scu db = .ok units) :
    (units : ℚ) = reconciledBalance db accountGuid * scu := by
  unfold summarizeReconciled at h
  dsimp only at h
  split at h
  · cases h
  · next hdenom =>
      split at h
      · cases h
      · next hmod =>
          split at h
          · cases h
            rw [Bool.not_eq_true, List.any_eq_false] at hdenom hmod
            rw [reconciledBalance, total, Int.cast_list_sum, List.map_map, ← List.sum_map_mul_right]
            refine congrArg List.sum (List.map_congr_left fun s hs => ?_)
            have hd : s.quantity.denom ≠ 0 := by simpa using hdenom s hs
            have hm : (s.quantity.num * scu).tmod s.quantity.denom = 0 := by simpa using hmod s hs
            simp only [Function.comp, tdiv_exact hd hm, Amount.exact]
            push_cast
            ring
          · cases h

/-! ## What the writes do -/

def SameSplits (db db' : Db) : Prop := db'.splits = db.splits

instance : IsPreorder Db SameSplits where
  refl _ := rfl
  trans _ _ _ h h' := Eq.trans h' h

theorem sameSplits_generateGuid : Preserves SameSplits (generateGuid host) := by
  intro db g db' h
  rw [generateGuid, completes_get_bind] at h
  simp only [completes_bind, completes_set, completes_pure] at h
  obtain ⟨_, t, rfl, -, rfl⟩ := h
  rfl

theorem sameSplits_findOrCreateFrom (currencyGuid : String) (segments : List String)
    (parentGuid : String) :
    Preserves SameSplits (findOrCreateFrom host currencyGuid parentGuid segments) := by
  induction segments generalizing parentGuid with
  | nil => exact preserves_pure _
  | cons segment segments ih =>
    refine preserves_get.bind fun db => ?_
    split
    · exact ih _
    · refine sameSplits_generateGuid.bind fun _ => ?_
      exact Preserves.bind (preserves_modify fun _ => rfl) fun _ => ih _

theorem sameSplits_createTransaction (t : Transaction) :
    Preserves SameSplits (createTransaction t) := by
  intro db u db' h
  rw [createTransaction, completes_get_bind] at h
  rcases completes_ite.1 h with ⟨-, h⟩ | ⟨-, h⟩
  · exact (completes_throw.1 h).elim
  · rw [completes_set.1 h]
    rfl

theorem sameSplits_completeSession (differenceUnits : ℤ) (completion : ReconciliationCompletion) :
    Preserves SameSplits (completeSession host accountGuid input differenceUnits completion) := by
  refine preserves_get.bind fun db => ?_
  refine preserves_ite (preserves_modify fun _ => rfl) ?_
  split
  · exact preserves_modify fun _ => rfl
  · exact sameSplits_generateGuid.bind fun _ => preserves_modify fun _ => rfl

theorem splits_createSplits (h : Completes (createSplits rows) db u db') :
    db'.splits = db.splits ++ rows ∧ ((db.splits ++ rows).map Split.guid).Nodup := by
  rw [createSplits, completes_get_bind] at h
  rcases completes_ite.1 h with ⟨⟨hnd, -⟩, hset⟩ | ⟨-, hthrow⟩
  · rw [completes_set.1 hset]
    exact ⟨rfl, hnd⟩
  · exact (completes_throw.1 hthrow).elim

/-- The splits of an adjustment: one of the account, reconciled, and one that is not reconciled, with
guids that no split has. -/
structure Adjusts (accountGuid : String) (input : FinalizeInput) (differenceUnits : ℤ)
    (before rows : List Split) : Prop where
  fresh : ∀ s ∈ rows, s.guid ∉ before.map Split.guid
  balance : total (fun s : Split => s.accountGuid = accountGuid ∧ s.reconcileState = .y)
    (fun s => s.quantity.exact) rows = differenceUnits / input.commodityScu

theorem adjusts_createAdjustment {differenceUnits : ℤ}
    (h : Completes (createAdjustment host accountGuid input differenceUnits) db u db') :
    ∃ rows, db'.splits = db.splits ++ rows ∧ ((db.splits ++ rows).map Split.guid).Nodup ∧
      Adjusts accountGuid input differenceUnits db.splits rows := by
  rw [createAdjustment, completes_get_bind] at h
  dsimp only at h
  split at h
  · next commodityGuid book _ _ =>
      simp only [completes_bind] at h
      obtain ⟨_, t₁, hcheck, imbalance, t₂, hfind, txGuid, t₃, htx, _, t₄, hcreate, g, t₅, hg, g', t₆,
        hg', hsplits⟩ := h
      obtain ⟨-, rfl⟩ := completes_liftExcept.1 hcheck
      have hsame : t₆.splits = t₁.splits := by
        rw [sameSplits_generateGuid _ _ _ hg', sameSplits_generateGuid _ _ _ hg,
          sameSplits_createTransaction _ _ _ _ hcreate, sameSplits_generateGuid _ _ _ htx,
          sameSplits_findOrCreateFrom _ _ _ _ _ _ hfind]
      obtain ⟨hrows, hnd⟩ := splits_createSplits hsplits
      rw [hsame] at hrows hnd
      refine ⟨_, hrows, hnd, fun s hs hmem => ?_, ?_⟩
      · rw [List.map_append, List.nodup_append] at hnd
        exact hnd.2.2 _ hmem _ (List.mem_map_of_mem hs) rfl
      · simp [total, Amount.exact]
  · exact (completes_throw.1 h).elim

/-- All that a finalization writes of splits: an adjustment for a difference, and the marks. -/
theorem splits_writeFinalization {n : ℕ} (hkeys : (db.splits.map Split.guid).Nodup)
    (h : Completes (writeFinalization host accountGuid input selectedUnits reconciledUnits) db n
      db') :
    ∃ units rows, decimalToUnits input.endingBalance input.commodityScu = .ok units ∧
      db'.splits = (db.splits ++ rows).map (mark accountGuid input) ∧
      ((db.splits ++ rows).map Split.guid).Nodup ∧
      Adjusts accountGuid input (units - (reconciledUnits + selectedUnits)) db.splits rows := by
  simp only [writeFinalization, completes_bind, completes_pure] at h
  obtain ⟨units, t, hunits, _, t₁, hadjust, updated, t₂, hmark, _, t₃, hsession, -, rfl⟩ := h
  obtain ⟨hok, rfl⟩ := completes_liftExcept.1 hunits
  have hrows : ∃ rows, t₁.splits = t.splits ++ rows ∧ ((t.splits ++ rows).map Split.guid).Nodup ∧
      Adjusts accountGuid input (units - (reconciledUnits + selectedUnits)) t.splits rows := by
    rcases completes_onlyIf.1 hadjust with ⟨-, hadjust⟩ | ⟨hzero, rfl⟩
    · rcases completes_ite.1 hadjust with ⟨-, hadjust⟩ | ⟨-, hthrow⟩
      · exact adjusts_createAdjustment hadjust
      · exact (completes_throw.1 hthrow).elim
    · refine ⟨[], by simp, by simpa using hkeys, by simp, ?_⟩
      rw [not_not.1 hzero]
      simp
  have hmarked : t₂.splits = t₁.splits.map (mark accountGuid input) := by
    rw [markReconciled, completes_get_bind] at hmark
    rcases completes_ite.1 hmark with ⟨hnil, hmark⟩ | ⟨-, hmark⟩
    · obtain ⟨-, rfl⟩ := completes_pure.1 hmark
      have hid : mark accountGuid input = id := by
        funext s
        simp [mark, hnil]
      rw [hid, List.map_id]
    · simp only [completes_bind, completes_modify] at hmark
      obtain ⟨_, t', rfl, hpure⟩ := hmark
      obtain ⟨-, rfl⟩ := completes_pure.1 hpure
      rfl
  have hkept : db'.splits = t₂.splits := by
    refine preserves_option_forM (R := SameSplits) (fun completion _ => ?_) _ _ _ hsession
    exact (sameSplits_completeSession _ completion).bind fun _ => preserves_modify fun _ => rfl
  obtain ⟨rows, hsplits, hnd, hadjusts⟩ := hrows
  refine ⟨units, rows, hok, ?_, hnd, hadjusts⟩
  rw [hkept, hmarked, hsplits]

theorem mark_of_notMem {s : Split} (h : s.guid ∉ input.splitGuids) :
    mark accountGuid input s = s :=
  if_neg fun hs => h (mem_uniqueGuids.1 hs.1)

theorem reconciledBalance_written
    (hscu : input.commodityScu ≠ 0) (hsel : Selected accountGuid input db selectedUnits)
    (hrec : (reconciledUnits : ℚ) = reconciledBalance db accountGuid * input.commodityScu)
    (hadjusts : Adjusts accountGuid input (units - (reconciledUnits + selectedUnits)) db.splits rows)
    (hsplits : db'.splits = (db.splits ++ rows).map (mark accountGuid input)) :
    reconciledBalance db' accountGuid * input.commodityScu = units := by
  have hne : (input.commodityScu : ℚ) ≠ 0 := Int.cast_ne_zero.2 hscu
  have hrows : rows.map (mark accountGuid input) = rows := by
    refine (List.map_congr_left fun s hs => ?_).trans (List.map_id rows)
    exact mark_of_notMem fun hg => hadjusts.fresh s hs (hsel.present _ hg)
  have hmarked : total (fun s : Split => s.accountGuid = accountGuid ∧ s.reconcileState = .y)
      (fun s => s.quantity.exact) (db.splits.map (mark accountGuid input)) =
      reconciledBalance db accountGuid + total (fun s : Split => s.guid ∈ input.splitGuids)
        (fun s => s.quantity.exact) db.splits := by
    refine total_map_add (fun s hs => ?_) (fun s hs hg hp => hsel.unreconciled s hs hg hp.2) ?_
    · by_cases hg : s.guid ∈ input.splitGuids
      · have ha := hsel.account s hs hg
        simp [mark, mem_uniqueGuids, hg, ha]
      · simp [mark_of_notMem, hg]
    · intro s hs
      unfold mark
      split <;> rfl
  rw [reconciledBalance, hsplits, List.map_append, total_append, hrows, hadjusts.balance, hmarked]
  have hsum := hsel.sum
  push_cast
  rw [add_mul, add_mul, div_mul_cancel₀ _ hne, ← hrec, ← hsum]
  ring

/-- When the sums are those of the tables, a finalization that writes ties out exactly when the
transactions of the selected splits have a post date. -/
theorem tiesOut_iff {n : ℕ} (hkeys : (db.splits.map Split.guid).Nodup)
    (hread : readSelected accountGuid input db = .ok selectedUnits)
    (hsum : summarizeReconciled accountGuid input.commodityScu db = .ok reconciledUnits)
    (h : Completes (writeFinalization host accountGuid input selectedUnits reconciledUnits) db n
      db') :
    (db'.splits.map Split.guid).Nodup ∧
      (TiesOut accountGuid input db db' ↔ SelectedDated input db) := by
  have hsel := selected_of_readSelected hkeys hread
  obtain ⟨units, rows, hunits, hsplits, hnd, hadjusts⟩ := splits_writeFinalization hkeys h
  obtain ⟨t, ht, hvalue⟩ := decimalToUnits_exact hunits
  have hscu : input.commodityScu ≠ 0 := by
    obtain ⟨places, hplaces, -⟩ := except_bind_eq_ok.1 hunits
    rw [decimalPlacesForScu_eq_ok_iff.1 hplaces]
    exact pow_ne_zero _ (by decide)
  have hbalance := reconciledBalance_written hscu hsel (reconciledBalance_of_summarize hsum)
    hadjusts hsplits
  have hne : (input.commodityScu : ℚ) ≠ 0 := Int.cast_ne_zero.2 hscu
  refine ⟨?_, fun hties s hs hg => ?_, fun hdated => ⟨⟨units, hunits, hbalance⟩, ⟨t, ht, ?_⟩, ?_, ?_⟩⟩
  · rw [hsplits, List.map_map]
    refine (congrArg List.Nodup (List.map_congr_left fun s _ => ?_)).mpr hnd
    simp only [Function.comp, mark]
    split <;> rfl
  · obtain ⟨-, -, d, hd, -⟩ := hties.marked s hs hg
    rw [hd]
    rfl
  · exact mul_right_cancel₀ hne (hbalance.trans hvalue)
  · intro s hs hg
    obtain ⟨d, hd⟩ := Option.isSome_iff_exists.1 (hdated s hs hg)
    exact ⟨hsel.account s hs hg, hsel.unreconciled s hs hg, d, hd, hsel.dated s hs hg d hd⟩
  · intro s hs hg
    rw [hsplits]
    refine List.mem_map.2 ⟨s, List.mem_append_left _ hs, mark_of_notMem hg⟩

end Reconcile
