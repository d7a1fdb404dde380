import GnucashWeb.Fees.Allocate

/-!
# The fees and the excluded splits agree

One report adds the allocated fees to the basis, another drops the listed fee splits from the
deductions.  `allocation_consistent_iff` says for which transactions the two move the same cents: for all but
those whose fees pass every guard and come to minus half a cent.
-/

namespace Fees

open Ledger

/-! ## The property -/

namespace TradeFeeAllocation

variable (out : TradeFeeAllocation) (txSplits : List FeeAllocationSplit)

def feeOf (guid : String) : ℚ := (out.fees guid).getD 0

/-- The splits of a transaction that are listed as capitalized. -/
def listed : List FeeAllocationSplit :=
  txSplits.filter fun s => s.guid ∈ out.capitalizedFeeSplitGuids

/-- The security splits of a transaction that have a fee. -/
def charged : List FeeAllocationSplit :=
  (securitySplits txSplits).filter fun s => (out.fees s.guid).isSome

/-- The fees of a transaction's security splits come to the rounded total of its listed splits,
it has listed splits exactly when it has fees, and it has neither in both directions. -/
structure Consistent : Prop where
  sum : ((securitySplits txSplits).map fun s => out.feeOf s.guid * 100).sum =
    mathRound (((out.listed txSplits).map (·.value)).sum * 100)
  iff : out.listed txSplits ≠ [] ↔ out.charged txSplits ≠ []
  mixed : Mixed txSplits → out.listed txSplits = [] ∧ out.charged txSplits = []

end TradeFeeAllocation

/-- The fees pass every guard and come to minus half a cent, which rounds to no cents. -/
def HalfCentCredit (txSplits : List FeeAllocationSplit) : Prop :=
  Attributed txSplits ∧ totalFee txSplits = -1 / 200

theorem mathRound_eq_zero_iff {total : ℚ} (h : CENT_EPS ≤ |total|) :
    mathRound (total * 100) = 0 ↔ total = -1 / 200 := by
  unfold mathRound
  rw [Int.floor_eq_zero_iff, Set.mem_Ico]
  unfold CENT_EPS at h
  constructor
  · rintro ⟨hlo, hhi⟩
    rcases le_abs.1 h with hpos | hneg
    · linarith
    · linarith
  · rintro rfl
    norm_num

theorem weights_ne_nil {txSplits : List FeeAllocationSplit} (h : securitySplits txSplits ≠ []) :
    weights txSplits ≠ [] := by
  rwa [weights, ne_eq, List.map_eq_nil_iff]

theorem apportionCents_zero {weights : List ℚ} {c : ℤ} (h : c ∈ apportionCents 0 weights) :
    c = 0 := by
  unfold apportionCents at h
  split at h
  · simp at h
  · split_ifs at h <;> simp_all [evenParts, bumpLeading, weightedParts, handOut]

variable {txSplits : List FeeAllocationSplit}

theorem sum_cents (h : securitySplits txSplits ≠ []) :
    (cents txSplits).sum = mathRound (totalFee txSplits * 100) :=
  sum_apportionCents (weights_ne_nil h)

theorem cents_eq_zero_iff (h : Attributed txSplits) :
    (∀ c ∈ cents txSplits, c = 0) ↔ totalFee txSplits = -1 / 200 := by
  rw [← mathRound_eq_zero_iff h.material]
  constructor
  · intro hzero
    rw [← sum_cents h.secured]
    exact List.sum_eq_zero hzero
  · intro hround c hc
    rw [cents, hround] at hc
    exact apportionCents_zero hc

/-! ## The outcome for one transaction -/

/-- What the fees and the list hold of the splits of a transaction. -/
structure Settles (acc : Progress) (txSplits : List FeeAllocationSplit) : Prop where
  shared : Attributed txSplits → ∀ share ∈ shares txSplits,
    acc.fees share.1.guid = if share.2 = 0 then none else some ((share.2 : ℚ) / 100)
  listed : Attributed txSplits → ∀ s ∈ txSplits,
    s.guid ∈ acc.capitalizedFeeSplitGuids ↔ s ∈ eligible txSplits
  refused : ¬ Attributed txSplits → ∀ s ∈ txSplits,
    acc.fees s.guid = none ∧ s.guid ∉ acc.capitalizedFeeSplitGuids

variable (taxMappedAccounts : List String) {acc : Progress}

/-- The splits of a transaction that has had no turn yet. -/
def Untouched (acc : Progress) (txSplits : List FeeAllocationSplit) : Prop :=
  ∀ s ∈ txSplits, acc.fees s.guid = none ∧ s.guid ∉ acc.capitalizedFeeSplitGuids

theorem mem_of_mem_eligible {s : FeeAllocationSplit} (h : s ∈ eligible txSplits) : s ∈ txSplits :=
  List.mem_of_mem_filter (List.mem_of_mem_filter h)

theorem nodup_shares (h : (txSplits.map (·.guid)).Nodup) :
    ((shares txSplits).map (·.1.guid)).Nodup := by
  rw [map_guid_shares]
  exact h.sublist (List.filter_sublist.map _)

theorem mem_of_mem_shares {share : FeeAllocationSplit × ℤ} (h : share ∈ shares txSplits) :
    share.1 ∈ securitySplits txSplits := by
  rw [← map_fst_shares]
  exact List.mem_map_of_mem h

theorem settles_allocateTx (hnd : (txSplits.map (·.guid)).Nodup) (hu : Untouched acc txSplits) :
    Settles (allocateTx taxMappedAccounts acc txSplits) txSplits := by
  refine ⟨fun ha share hs => ?_, fun ha s hs => ?_, fun ha s hs => ?_⟩
  · rw [(allocateTx_attributed ha).1]
    refine foldl_addFee_of_mem (nodup_shares hnd) (fun other ho => ?_) hs
    exact (hu _ (List.mem_of_mem_filter (mem_of_mem_shares ho))).1
  · rw [(allocateTx_attributed ha).2, List.mem_append, or_iff_right (hu s hs).2, List.mem_map]
    constructor
    · rintro ⟨other, ho, heq⟩
      rwa [← List.inj_on_of_nodup_map hnd (mem_of_mem_eligible ho) hs heq]
    · exact fun h => ⟨s, h, rfl⟩
  · rw [(allocateTx_not_attributed ha).1, (allocateTx_not_attributed ha).2]
    exact hu s hs

theorem allocateTx_of_notMem (acc : Progress) {guid : String} (h : guid ∉ txSplits.map (·.guid)) :
    (allocateTx taxMappedAccounts acc txSplits).fees guid = acc.fees guid ∧
      (guid ∈ (allocateTx taxMappedAccounts acc txSplits).capitalizedFeeSplitGuids ↔
        guid ∈ acc.capitalizedFeeSplitGuids) := by
  by_cases ha : Attributed txSplits
  · have hshares : guid ∉ (shares txSplits).map (·.1.guid) := fun hmem => by
      rw [map_guid_shares] at hmem
      exact h ((List.filter_sublist.map _).subset hmem)
    have hlisted : guid ∉ (eligible txSplits).map (·.guid) := fun hmem => by
      obtain ⟨s, hs, rfl⟩ := List.mem_map.1 hmem
      exact h (List.mem_map_of_mem (mem_of_mem_eligible hs))
    rw [(allocateTx_attributed ha).1, (allocateTx_attributed ha).2, List.mem_append,
      foldl_addFee_of_notMem hshares]
    exact ⟨rfl, or_iff_left hlisted⟩
  · rw [(allocateTx_not_attributed ha).1, (allocateTx_not_attributed ha).2]
    exact ⟨rfl, Iff.rfl⟩

theorem foldl_of_notMem (acc : Progress) {groups : List (List FeeAllocationSplit)} {guid : String}
    (h : ∀ G ∈ groups, guid ∉ G.map (·.guid)) :
    (groups.foldl (allocateTx taxMappedAccounts) acc).fees guid = acc.fees guid ∧
      (guid ∈ (groups.foldl (allocateTx taxMappedAccounts) acc).capitalizedFeeSplitGuids ↔
        guid ∈ acc.capitalizedFeeSplitGuids) := by
  induction groups generalizing acc with
  | nil => exact ⟨rfl, Iff.rfl⟩
  | cons G groups ih =>
    have hG := allocateTx_of_notMem taxMappedAccounts acc (h G List.mem_cons_self)
    have hrest := ih (allocateTx taxMappedAccounts acc G)
      fun G' hG' => h G' (List.mem_cons_of_mem _ hG')
    exact ⟨hrest.1.trans hG.1, hrest.2.trans hG.2⟩

theorem Settles.congr {acc acc' : Progress} (h : Settles acc txSplits)
    (heq : ∀ s ∈ txSplits, acc'.fees s.guid = acc.fees s.guid ∧
      (s.guid ∈ acc'.capitalizedFeeSplitGuids ↔ s.guid ∈ acc.capitalizedFeeSplitGuids)) :
    Settles acc' txSplits where
  shared ha share hs := by
    rw [(heq _ (List.mem_of_mem_filter (mem_of_mem_shares hs))).1]
    exact h.shared ha share hs
  listed ha s hs := (heq s hs).2.trans (h.listed ha s hs)
  refused ha s hs := by
    rw [(heq s hs).1, (heq s hs).2]
    exact h.refused ha s hs

/-- No split of one list has the GUID of a split of the other. -/
def Apart (G H : List FeeAllocationSplit) : Prop := ∀ s ∈ G, ∀ t ∈ H, s.guid ≠ t.guid

theorem Apart.notMem {G H : List FeeAllocationSplit} (h : Apart G H) {s : FeeAllocationSplit}
    (hs : s ∈ G) : s.guid ∉ H.map (·.guid) := fun hmem => by
  obtain ⟨t, ht, heq⟩ := List.mem_map.1 hmem
  exact h s hs t ht heq.symm

theorem settles_foldl {groups : List (List FeeAllocationSplit)}
    (hnd : ∀ G ∈ groups, (G.map (·.guid)).Nodup) (hap : groups.Pairwise Apart)
    (hu : ∀ G ∈ groups, Untouched acc G) {G : List FeeAllocationSplit} (hG : G ∈ groups) :
    Settles (groups.foldl (allocateTx taxMappedAccounts) acc) G := by
  induction groups generalizing acc with
  | nil => simp at hG
  | cons H groups ih =>
    rw [List.pairwise_cons] at hap
    rw [List.foldl_cons]
    rcases List.mem_cons.1 hG with rfl | hG
    · refine (settles_allocateTx taxMappedAccounts (hnd G List.mem_cons_self)
        (hu G List.mem_cons_self)).congr fun s hs => ?_
      exact foldl_of_notMem taxMappedAccounts _ fun H hH => (hap.1 H hH).notMem hs
    · refine ih (fun G' hG' => hnd G' (List.mem_cons_of_mem _ hG')) hap.2 (fun G' hG' s hs => ?_) hG
      have hne : s.guid ∉ H.map (·.guid) := fun hmem => by
        obtain ⟨t, ht, heq⟩ := List.mem_map.1 hmem
        exact hap.1 G' hG' t ht s hs heq
      have hframe := allocateTx_of_notMem taxMappedAccounts acc hne
      rw [hframe.1, hframe.2]
      exact hu G' (List.mem_cons_of_mem _ hG') s hs

theorem settles_allocateTradeFees {splits : List FeeAllocationSplit}
    (hguids : (splits.map (·.guid)).Nodup) {split : FeeAllocationSplit} (hs : split ∈ splits) :
    Settles (((byTx splits).map Prod.snd).foldl (allocateTx taxMappedAccounts) Progress.none)
      (splits.filter (·.txGuid = split.txGuid)) := by
  have hgroups := groups_byTx splits
  have hsub : ∀ g ∈ byTx splits, g.2 = splits.filter (·.txGuid = g.1) := hgroups.lists
  have hfresh : ∀ G, Untouched Progress.none G := fun G s _ => ⟨rfl, by simp [Progress.none]⟩
  refine settles_foldl taxMappedAccounts (fun G hG => ?_) ?_ (fun G _ => hfresh G) ?_
  · obtain ⟨g, hg, rfl⟩ := List.mem_map.1 hG
    rw [hsub g hg]
    exact hguids.sublist (List.filter_sublist.map _)
  · rw [List.pairwise_map]
    refine (List.pairwise_map.1 hgroups.nodup).imp_of_mem fun {g h} hg hh hne s hs t ht heq => ?_
    rw [hsub g hg, List.mem_filter, decide_eq_true_eq] at hs
    rw [hsub h hh, List.mem_filter, decide_eq_true_eq] at ht
    have hst : s = t := List.inj_on_of_nodup_map hguids hs.1 ht.1 heq
    exact hne (hs.2.symm.trans (hst ▸ ht.2))
  · obtain ⟨g, hg, hfst⟩ := List.mem_map.1 ((hgroups.keys split.txGuid).2 ⟨split, hs, rfl⟩)
    rw [← hfst, ← hsub g hg]
    exact List.mem_map_of_mem hg

/-! ## When the two agree -/

section Agreement

variable (warnings : List (List Char))

theorem listed_of_attributed (h : Settles acc txSplits) (ha : Attributed txSplits) :
    TradeFeeAllocation.listed ⟨acc.fees, acc.capitalizedFeeSplitGuids, warnings⟩ txSplits =
      eligible txSplits := by
  unfold TradeFeeAllocation.listed eligible expenses
  rw [List.filter_filter]
  refine List.filter_congr fun s hs => ?_
  have hmem := h.listed ha s hs
  unfold eligible expenses at hmem
  simp only [List.mem_filter, hs, true_and] at hmem
  rw [Bool.eq_iff_iff, decide_eq_true_eq, hmem, Bool.and_eq_true]
  exact and_comm

theorem not_attributed_neither (h : Settles acc txSplits) (ha : ¬ Attributed txSplits) :
    TradeFeeAllocation.listed ⟨acc.fees, acc.capitalizedFeeSplitGuids, warnings⟩ txSplits = [] ∧
      TradeFeeAllocation.charged ⟨acc.fees, acc.capitalizedFeeSplitGuids, warnings⟩ txSplits =
        [] := by
  constructor
  · refine List.filter_eq_nil_iff.2 fun s hs => ?_
    rw [decide_eq_true_eq]
    exact (h.refused ha s hs).2
  · refine List.filter_eq_nil_iff.2 fun s hs => ?_
    dsimp only
    rw [(h.refused ha s (List.mem_of_mem_filter hs)).1]
    simp

theorem charged_eq_nil_iff (h : Settles acc txSplits) (ha : Attributed txSplits) :
    TradeFeeAllocation.charged ⟨acc.fees, acc.capitalizedFeeSplitGuids, warnings⟩ txSplits = [] ↔
      ∀ c ∈ cents txSplits, c = 0 := by
  unfold TradeFeeAllocation.charged
  rw [List.filter_eq_nil_iff, ← map_fst_shares, ← map_snd_shares]
  simp only [List.forall_mem_map]
  refine forall₂_congr fun share hs => ?_
  rw [h.shared ha share hs]
  by_cases hc : share.2 = 0 <;> simp [hc]

theorem sum_feeOf (h : Settles acc txSplits) (ha : Attributed txSplits) :
    ((securitySplits txSplits).map fun s =>
      TradeFeeAllocation.feeOf ⟨acc.fees, acc.capitalizedFeeSplitGuids, warnings⟩ s.guid
        * 100).sum = mathRound (totalFee txSplits * 100) := by
  rw [← sum_cents ha.secured, ← map_fst_shares, ← map_snd_shares, List.map_map, Int.cast_list_sum,
    List.map_map]
  refine congrArg List.sum (List.map_congr_left fun share hs => ?_)
  simp only [Function.comp_apply, TradeFeeAllocation.feeOf, h.shared ha share hs]
  by_cases hc : share.2 = 0 <;> simp [hc]

theorem Settles.consistent_iff (h : Settles acc txSplits) :
    TradeFeeAllocation.Consistent ⟨acc.fees, acc.capitalizedFeeSplitGuids, warnings⟩ txSplits ↔
      ¬ HalfCentCredit txSplits := by
  by_cases ha : Attributed txSplits
  · have hlisted := listed_of_attributed warnings h ha
    have hne := eligible_ne_nil ha.material
    have hcharged := (charged_eq_nil_iff warnings h ha).trans (cents_eq_zero_iff ha)
    constructor
    · intro hc hcredit
      exact hc.iff.1 (hlisted ▸ hne) (hcharged.2 hcredit.2)
    · intro hcredit
      refine ⟨?_, ?_, fun hm => absurd hm ha.oneWay⟩
      · rw [hlisted]
        exact sum_feeOf warnings h ha
      · rw [hlisted, ne_eq, ne_eq, hcharged]
        exact iff_of_true hne fun htotal => hcredit ⟨ha, htotal⟩
  · have hneither := not_attributed_neither warnings h ha
    refine iff_of_true ⟨?_, ?_, fun _ => hneither⟩ fun hcredit => ha hcredit.1
    · rw [hneither.1]
      refine (List.sum_eq_zero fun x hx => ?_).trans (by norm_num [mathRound])
      obtain ⟨s, hs, rfl⟩ := List.mem_map.1 hx
      simp [TradeFeeAllocation.feeOf, (h.refused ha s (List.mem_of_mem_filter hs)).1]
    · rw [hneither.1, hneither.2]

end Agreement

/-- For every list of splits with distinct GUIDs and every transaction in it, the fees and the list
of capitalized splits agree unless its fees pass every guard and come to minus half a cent. -/
theorem allocation_consistent_iff {splits : List FeeAllocationSplit}
    (hguids : (splits.map (·.guid)).Nodup) {split : FeeAllocationSplit} (hs : split ∈ splits) :
    (allocateTradeFees splits taxMappedAccounts).Consistent
        (splits.filter (·.txGuid = split.txGuid)) ↔
      ¬ HalfCentCredit (splits.filter (·.txGuid = split.txGuid)) :=
  (settles_allocateTradeFees taxMappedAccounts hguids hs).consistent_iff _

def purchase : FeeAllocationSplit :=
  ⟨"s1", "t1", "vti", "STOCK", "Assets:VTI".toList, 100, 10, none, none⟩

def commission (value : ℚ) : FeeAllocationSplit :=
  ⟨"s2", "t1", "fees", "EXPENSE", "Expenses:Commissions".toList, value, value, none, none⟩

/-- A purchase with a commission of five dollars. -/
theorem allocation_consistent_purchase :
    ([purchase, commission 5].map (·.guid)).Nodup ∧ purchase ∈ [purchase, commission 5] ∧
      ((allocateTradeFees [purchase, commission 5] []).Consistent
          ([purchase, commission 5].filter (·.txGuid = purchase.txGuid)) ↔
        ¬ HalfCentCredit ([purchase, commission 5].filter (·.txGuid = purchase.txGuid))) :=
  ⟨by decide, by decide, allocation_consistent_iff [] (by decide) (by decide)⟩

/-- A refund of half a cent is listed, and no fee is allocated. -/
theorem half_cent_credit_lost :
    ¬ ∀ (splits : List FeeAllocationSplit) (taxMappedAccounts : List String),
      (splits.map (·.guid)).Nodup → ∀ split ∈ splits,
        (allocateTradeFees splits taxMappedAccounts).Consistent
          (splits.filter (·.txGuid = split.txGuid)) := by
  intro h
  have hc := h [purchase, commission (-1 / 200)] [] (by decide) purchase (by decide)
  have hlisted : (allocateTradeFees [purchase, commission (-1 / 200)] []).listed
      ([purchase, commission (-1 / 200)].filter (·.txGuid = purchase.txGuid)) ≠ [] := by
    decide +kernel
  have hcharged : (allocateTradeFees [purchase, commission (-1 / 200)] []).charged
      ([purchase, commission (-1 / 200)].filter (·.txGuid = purchase.txGuid)) = [] := by
    decide +kernel
  exact hc.iff.1 hlisted hcharged

end Fees
