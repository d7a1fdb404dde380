import GnucashWeb.Lots.CarriedBasis

/-!
# The slices of a carried basis

The slices that the outflows of a lot take from its basis, each asked for on its own.  They are the
differences of one rounded cumulative allocation (`sum_take_slicesFrom`), so they keep the sign of the
basis, never add up to more than it and use it up when the outflows drain the lot
(`slices_telescope`).
-/

open Ledger

namespace Lots

def lotSlices (db : Db) (splits : List Split) (totalBasis boughtShares : ℚ) : List ℚ :=
  (orderLotOutflows db splits).map fun o =>
    apportionCarriedBasis totalBasis boughtShares (sharesOutBeforeSplit db splits o.guid) o.shares

def quantizedBasis (totalBasis : ℚ) : ℚ := toBasisUnits totalBasis / 10 ^ 6

/-- The slices of the outflows that follow after some shares have left. -/
def slicesFrom (totalBasis boughtShares : ℚ) : ℚ → List ℚ → List ℚ
  | _, [] => []
  | sharesOut, shares :: rest =>
    apportionCarriedBasis totalBasis boughtShares sharesOut shares ::
      slicesFrom totalBasis boughtShares (sharesOut + shares) rest

/-! ## The cumulative allocation -/

variable {x y sharesOut : ℚ} {n : ℤ} {db : Db} {splits : List Split}

theorem mathRound_mono (h : x ≤ y) : mathRound x ≤ mathRound y :=
  Int.floor_mono (by linarith)

theorem mathRound_le (h : x ≤ n) : mathRound x ≤ n :=
  mathRound_intCast n ▸ mathRound_mono h

theorem le_mathRound (h : (n : ℚ) ≤ x) : n ≤ mathRound x :=
  mathRound_intCast n ▸ mathRound_mono h

theorem toBasisUnits_nonneg {amount : ℚ} (h : 0 ≤ amount) : 0 ≤ toBasisUnits amount :=
  le_mathRound (by push_cast; positivity)

theorem toBasisUnits_nonpos {amount : ℚ} (h : amount ≤ 0) : toBasisUnits amount ≤ 0 :=
  mathRound_le (by push_cast; exact mul_nonpos_of_nonpos_of_nonneg h (by norm_num))

/-- The millionths of a basis that have left with some shares of a lot. -/
def unitsAt (totalBasis boughtShares sharesOut : ℚ) : ℤ :=
  cumulativeUnitsAt (toBasisUnits totalBasis) boughtShares
    (max (1 / 10 ^ 9) (boughtShares * (1 / 10 ^ 12))) (min sharesOut boughtShares)

variable {totalBasis boughtShares : ℚ}

theorem unitsAt_zero : unitsAt totalBasis boughtShares 0 = 0 := by
  unfold unitsAt cumulativeUnitsAt
  rw [if_pos (min_le_left _ _)]

theorem unitsAt_drained (hb : 0 < boughtShares) (h : boughtShares ≤ sharesOut) :
    unitsAt totalBasis boughtShares sharesOut = toBasisUnits totalBasis := by
  have hdrained : boughtShares - max (1 / 10 ^ 9) (boughtShares * (1 / 10 ^ 12)) ≤ boughtShares := by
    have : (0 : ℚ) < max (1 / 10 ^ 9) (boughtShares * (1 / 10 ^ 12)) :=
      lt_max_of_lt_left (by norm_num)
    linarith
  unfold unitsAt cumulativeUnitsAt
  rw [min_eq_right h, if_neg hb.not_ge, if_pos hdrained]

theorem fraction_mem {f : ℚ} (hf : 0 ≤ f) (hf1 : f ≤ 1) :
    (0 ≤ n → (0 : ℚ) ≤ n * f ∧ n * f ≤ n) ∧ (n ≤ 0 → (n : ℚ) ≤ n * f ∧ n * f ≤ 0) := by
  constructor
  · intro hn
    have hn : (0 : ℚ) ≤ n := by exact_mod_cast hn
    exact ⟨mul_nonneg hn hf, mul_le_of_le_one_right hn hf1⟩
  · intro hn
    have hn : (n : ℚ) ≤ 0 := by exact_mod_cast hn
    exact ⟨le_mul_of_le_one_right hn hf1, mul_nonpos_of_nonpos_of_nonneg hn hf⟩

theorem unitsAt_mono (hb : 0 < boughtShares) (htotal : 0 ≤ toBasisUnits totalBasis)
    (h : x ≤ y) : unitsAt totalBasis boughtShares x ≤ unitsAt totalBasis boughtShares y := by
  have hxy : min x boughtShares ≤ min y boughtShares := min_le_min_right _ h
  have hy : min y boughtShares ≤ boughtShares := min_le_right _ _
  have hmem {z : ℚ} (hz : 0 < z) (hzb : z ≤ boughtShares) :=
    (fraction_mem (n := toBasisUnits totalBasis) (div_pos hz hb).le ((div_le_one hb).2 hzb)).1 htotal
  unfold unitsAt cumulativeUnitsAt
  generalize min x boughtShares = x, min y boughtShares = y at hxy hy
  by_cases hx0 : x ≤ 0
  · rw [if_pos hx0]
    split_ifs with hy0 hdrained
    · exact le_rfl
    · exact htotal
    · exact le_mathRound (by simpa using (hmem (not_le.1 hy0) hy).1)
  · have hx := not_le.1 hx0
    rw [if_neg hx0, if_neg (hx.trans_le hxy).not_ge]
    split_ifs with hdx hdy hdy
    · exact le_rfl
    · exact absurd (hdx.trans hxy) hdy
    · exact mathRound_le (hmem hx (hxy.trans hy)).2
    · have htotal : (0 : ℚ) ≤ toBasisUnits totalBasis := by exact_mod_cast htotal
      exact mathRound_mono (by gcongr)

theorem unitsAt_anti (hb : 0 < boughtShares) (htotal : toBasisUnits totalBasis ≤ 0)
    (h : x ≤ y) : unitsAt totalBasis boughtShares y ≤ unitsAt totalBasis boughtShares x := by
  have hxy : min x boughtShares ≤ min y boughtShares := min_le_min_right _ h
  have hy : min y boughtShares ≤ boughtShares := min_le_right _ _
  have hmem {z : ℚ} (hz : 0 < z) (hzb : z ≤ boughtShares) :=
    (fraction_mem (n := toBasisUnits totalBasis) (div_pos hz hb).le ((div_le_one hb).2 hzb)).2 htotal
  unfold unitsAt cumulativeUnitsAt
  generalize min x boughtShares = x, min y boughtShares = y at hxy hy
  by_cases hx0 : x ≤ 0
  · rw [if_pos hx0]
    split_ifs with hy0 hdrained
    · exact le_rfl
    · exact htotal
    · exact mathRound_le (by simpa using (hmem (not_le.1 hy0) hy).2)
  · have hx := not_le.1 hx0
    rw [if_neg hx0, if_neg (hx.trans_le hxy).not_ge]
    split_ifs with hdy hdx hdx
    · exact le_rfl
    · exact le_mathRound (hmem hx (hxy.trans hy)).1
    · exact absurd (hdx.trans hxy) hdy
    · have htotal : (toBasisUnits totalBasis : ℚ) ≤ 0 := by exact_mod_cast htotal
      exact mathRound_mono (mul_le_mul_of_nonpos_left (by gcongr) htotal)

/-! ## The walk over the outflows -/

theorem apportionCarriedBasis_eq (hb : 0 < boughtShares) {shares : ℚ} (hout : 0 ≤ sharesOut)
    (hs : 0 < shares) :
    apportionCarriedBasis totalBasis boughtShares sharesOut shares =
      ((unitsAt totalBasis boughtShares (sharesOut + shares) -
        unitsAt totalBasis boughtShares sharesOut : ℤ) : ℚ) / 10 ^ 6 := by
  have hafter : min (min sharesOut boughtShares + shares) boughtShares =
      min (sharesOut + shares) boughtShares := by
    rw [← min_add_add_right, min_assoc, min_eq_right (le_add_of_nonneg_right hs.le)]
  unfold apportionCarriedBasis unitsAt
  rw [if_pos ⟨hb, hs⟩]
  dsimp only
  rw [max_eq_left hout, hafter]

theorem sum_take_slicesFrom (hb : 0 < boughtShares) (hout : 0 ≤ sharesOut)
    {shares : List ℚ} (hs : ∀ s ∈ shares, 0 < s) (n : ℕ) :
    ((slicesFrom totalBasis boughtShares sharesOut shares).take n).sum =
      ((unitsAt totalBasis boughtShares (sharesOut + (shares.take n).sum) -
        unitsAt totalBasis boughtShares sharesOut : ℤ) : ℚ) / 10 ^ 6 := by
  induction shares generalizing sharesOut n with
  | nil => simp [slicesFrom]
  | cons s rest ih =>
    obtain ⟨hs0, hrest⟩ := List.forall_mem_cons.1 hs
    cases n with
    | zero => simp
    | succ n =>
      rw [slicesFrom, List.take_succ_cons, List.sum_cons, List.take_succ_cons, List.sum_cons,
        ih (by positivity) hrest, apportionCarriedBasis_eq hb hout hs0, ← add_assoc]
      push_cast
      ring

theorem mem_slicesFrom (hb : 0 < boughtShares) (hout : 0 ≤ sharesOut)
    {shares : List ℚ} (hs : ∀ s ∈ shares, 0 < s) {slice : ℚ}
    (h : slice ∈ slicesFrom totalBasis boughtShares sharesOut shares) :
    ∃ x y, x ≤ y ∧ slice = ((unitsAt totalBasis boughtShares y -
      unitsAt totalBasis boughtShares x : ℤ) : ℚ) / 10 ^ 6 := by
  induction shares generalizing sharesOut with
  | nil => cases h
  | cons s rest ih =>
    obtain ⟨hs0, hrest⟩ := List.forall_mem_cons.1 hs
    rcases List.mem_cons.1 h with rfl | h
    · exact ⟨sharesOut, sharesOut + s, by linarith, apportionCarriedBasis_eq hb hout hs0⟩
    · exact ih (by positivity) hrest h

theorem length_slicesFrom (sharesOut : ℚ) (shares : List ℚ) :
    (slicesFrom totalBasis boughtShares sharesOut shares).length = shares.length := by
  induction shares generalizing sharesOut with
  | nil => rfl
  | cons s rest ih => simp [slicesFrom, ih]

theorem slicesFrom_of_nonpos (hb : boughtShares ≤ 0) (sharesOut : ℚ) (shares : List ℚ) :
    slicesFrom totalBasis boughtShares sharesOut shares = List.replicate shares.length 0 := by
  induction shares generalizing sharesOut with
  | nil => rfl
  | cons s rest ih =>
    rw [slicesFrom, ih, apportionCarriedBasis, if_neg fun h => hb.not_gt h.1]
    rfl

theorem sum_take_slicesFrom_zero (hb : 0 < boughtShares) {shares : List ℚ} (hs : ∀ s ∈ shares, 0 < s)
    (n : ℕ) : ((slicesFrom totalBasis boughtShares 0 shares).take n).sum =
      (unitsAt totalBasis boughtShares (shares.take n).sum : ℚ) / 10 ^ 6 := by
  rw [sum_take_slicesFrom hb le_rfl hs, unitsAt_zero, zero_add, sub_zero]

theorem slicesFrom_nonneg (hbasis : 0 ≤ totalBasis) {shares : List ℚ} (hs : ∀ s ∈ shares, 0 < s) :
    (∀ slice ∈ slicesFrom totalBasis boughtShares 0 shares, 0 ≤ slice) ∧
      ∀ n, ((slicesFrom totalBasis boughtShares 0 shares).take n).sum ≤ quantizedBasis totalBasis := by
  have hunits := toBasisUnits_nonneg hbasis
  by_cases hb : 0 < boughtShares
  · refine ⟨fun slice hslice => ?_, fun n => ?_⟩
    · obtain ⟨x, y, hxy, rfl⟩ := mem_slicesFrom hb le_rfl hs hslice
      exact div_nonneg (by exact_mod_cast sub_nonneg.2 (unitsAt_mono hb hunits hxy)) (by norm_num)
    · have hle := unitsAt_mono hb hunits (le_max_left (shares.take n).sum boughtShares)
      rw [unitsAt_drained hb (le_max_right _ _)] at hle
      rw [sum_take_slicesFrom_zero hb hs]
      exact div_le_div_of_nonneg_right (by exact_mod_cast hle) (by norm_num)
  · rw [slicesFrom_of_nonpos (not_lt.1 hb)]
    refine ⟨fun slice h => (List.eq_of_mem_replicate h).ge, fun n => ?_⟩
    rw [List.take_replicate, List.sum_replicate, nsmul_zero]
    exact div_nonneg (by exact_mod_cast hunits) (by norm_num)

theorem slicesFrom_nonpos (hbasis : totalBasis ≤ 0) {shares : List ℚ} (hs : ∀ s ∈ shares, 0 < s) :
    (∀ slice ∈ slicesFrom totalBasis boughtShares 0 shares, slice ≤ 0) ∧
      ∀ n, quantizedBasis totalBasis ≤ ((slicesFrom totalBasis boughtShares 0 shares).take n).sum := by
  have hunits := toBasisUnits_nonpos hbasis
  by_cases hb : 0 < boughtShares
  · refine ⟨fun slice hslice => ?_, fun n => ?_⟩
    · obtain ⟨x, y, hxy, rfl⟩ := mem_slicesFrom hb le_rfl hs hslice
      exact div_nonpos_of_nonpos_of_nonneg
        (by exact_mod_cast sub_nonpos.2 (unitsAt_anti hb hunits hxy)) (by norm_num)
    · have hle := unitsAt_anti hb hunits (le_max_left (shares.take n).sum boughtShares)
      rw [unitsAt_drained hb (le_max_right _ _)] at hle
      rw [sum_take_slicesFrom_zero hb hs]
      exact div_le_div_of_nonneg_right (by exact_mod_cast hle) (by norm_num)
  · rw [slicesFrom_of_nonpos (not_lt.1 hb)]
    refine ⟨fun slice h => (List.eq_of_mem_replicate h).le, fun n => ?_⟩
    rw [List.take_replicate, List.sum_replicate, nsmul_zero]
    exact div_nonpos_of_nonpos_of_nonneg (by exact_mod_cast hunits) (by norm_num)

theorem sum_slicesFrom (hb : 0 < boughtShares) {shares : List ℚ} (hs : ∀ s ∈ shares, 0 < s)
    (hdrained : boughtShares ≤ shares.sum) :
    (slicesFrom totalBasis boughtShares 0 shares).sum = quantizedBasis totalBasis := by
  have hall := @sum_take_slicesFrom_zero totalBasis _ hb _ hs
    (slicesFrom totalBasis boughtShares 0 shares).length
  rwa [List.take_length, length_slicesFrom, List.take_length, unitsAt_drained hb hdrained] at hall

/-! ## Outflows asked for on their own -/

theorem shares_pos {o : LotOutflow} (h : o ∈ orderLotOutflows db splits) : 0 < o.shares := by
  rw [orderLotOutflows, List.mem_insertionSort, List.mem_filter] at h
  simpa using h.2

theorem nodup_outflows (hnodup : (splits.map Split.guid).Nodup) :
    ((orderLotOutflows db splits).map LotOutflow.guid).Nodup := by
  have hperm : ((orderLotOutflows db splits).map LotOutflow.guid).Perm _ :=
    (List.perm_insertionSort _ _).map _
  refine hperm.nodup_iff.2 (List.Nodup.sublist (List.Sublist.map _ List.filter_sublist) ?_)
  rw [List.map_map]
  exact hnodup

theorem takeWhile_of_nodup {before after : List LotOutflow} {o : LotOutflow}
    (h : ((before ++ o :: after).map LotOutflow.guid).Nodup) :
    (before ++ o :: after).takeWhile (fun p => p.guid ≠ o.guid) = before := by
  have hbefore : ∀ p ∈ before, p.guid ≠ o.guid := by
    intro p hp heq
    rw [List.map_append, List.nodup_append] at h
    exact h.2.2 _ (List.mem_map_of_mem hp) _ (List.mem_map_of_mem List.mem_cons_self) heq
  rw [List.takeWhile_append_of_pos fun p hp => by simpa using hbefore p hp,
    List.takeWhile_cons_of_neg (by simp), List.append_nil]

theorem lotSlices_eq (hnodup : (splits.map Split.guid).Nodup) :
    lotSlices db splits totalBasis boughtShares =
      slicesFrom totalBasis boughtShares 0 ((orderLotOutflows db splits).map LotOutflow.shares) := by
  have hrest (before rest : List LotOutflow) (h : before ++ rest = orderLotOutflows db splits) :
      rest.map (fun o => apportionCarriedBasis totalBasis boughtShares
        (sharesOutBeforeSplit db splits o.guid) o.shares) =
      slicesFrom totalBasis boughtShares (before.map LotOutflow.shares).sum
        (rest.map LotOutflow.shares) := by
    induction rest generalizing before with
    | nil => rfl
    | cons o rest ih =>
      have hnd := @nodup_outflows db _ hnodup
      have hany : (orderLotOutflows db splits).any (fun p => p.guid = o.guid) = true := by
        rw [← h]
        simp
      have hbefore : sharesOutBeforeSplit db splits o.guid =
          (before.map LotOutflow.shares).sum := by
        rw [← h] at hnd hany
        unfold sharesOutBeforeSplit
        dsimp only
        rw [← h, if_pos hany, takeWhile_of_nodup hnd]
      have hnext := ih (before ++ [o]) (by simpa using h)
      rw [List.map_append, List.sum_append, List.map_singleton, List.sum_singleton] at hnext
      rw [List.map_cons, List.map_cons, slicesFrom, hnext, hbefore]
  exact hrest [] _ rfl

/-- The slices of a lot's outflows keep the sign of the basis, their running sums stay between zero
and the quantized basis, and they use it up when the outflows drain a lot that shares entered. -/
theorem slices_telescope (db : Db) (splits : List Split) (hnodup : (splits.map Split.guid).Nodup)
    (totalBasis boughtShares : ℚ) :
    (0 ≤ totalBasis → (∀ slice ∈ lotSlices db splits totalBasis boughtShares, 0 ≤ slice) ∧
      ∀ n, ((lotSlices db splits totalBasis boughtShares).take n).sum ≤ quantizedBasis totalBasis) ∧
    (totalBasis ≤ 0 → (∀ slice ∈ lotSlices db splits totalBasis boughtShares, slice ≤ 0) ∧
      ∀ n, quantizedBasis totalBasis ≤ ((lotSlices db splits totalBasis boughtShares).take n).sum) ∧
    (0 < boughtShares →
      boughtShares ≤ ((orderLotOutflows db splits).map LotOutflow.shares).sum →
        (lotSlices db splits totalBasis boughtShares).sum = quantizedBasis totalBasis) := by
  have hpos : ∀ s ∈ (orderLotOutflows db splits).map LotOutflow.shares, 0 < s := by
    intro s hs
    obtain ⟨o, ho, rfl⟩ := List.mem_map.1 hs
    exact shares_pos ho
  rw [lotSlices_eq hnodup]
  exact ⟨fun h => slicesFrom_nonneg h hpos, fun h => slicesFrom_nonpos h hpos,
    fun hb hdrained => sum_slicesFrom hb hpos hdrained⟩

/-- A sale of one share out of three and a sale of the other two. -/
def twoSales : List Split :=
  [⟨"s1", "t1", "a", "", "", .n, none, ⟨0, 1⟩, ⟨-1, 1⟩, none⟩,
    ⟨"s2", "t2", "a", "", "", .n, none, ⟨0, 1⟩, ⟨-2, 1⟩, none⟩]

theorem slices_telescope_twoSales :
    (twoSales.map Split.guid).Nodup ∧
      (lotSlices ⟨[], [], [], [], [], [], [], 0⟩ twoSales 10 3).sum = quantizedBasis 10 := by
  have h := slices_telescope ⟨[], [], [], [], [], [], [], 0⟩ twoSales (by decide) 10 3
  exact ⟨by decide, h.2.2 (by norm_num) (by decide +kernel)⟩

/-- A negative basis leaves in negative slices. -/
theorem slices_negative_false :
    ¬ ∀ (db : Db) (splits : List Split), (splits.map Split.guid).Nodup →
      ∀ totalBasis boughtShares : ℚ,
        (∀ slice ∈ lotSlices db splits totalBasis boughtShares, 0 ≤ slice) ∧
          (∀ n, ((lotSlices db splits totalBasis boughtShares).take n).sum ≤
            quantizedBasis totalBasis) ∧
          (boughtShares ≤ ((orderLotOutflows db splits).map LotOutflow.shares).sum →
            (lotSlices db splits totalBasis boughtShares).sum = quantizedBasis totalBasis) := by
  intro h
  have hnonneg := (h ⟨[], [], [], [], [], [], [], 0⟩ twoSales (by decide) (-10) 3).1
  revert hnonneg
  decide +kernel

end Lots
