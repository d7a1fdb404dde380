import GnucashWeb.Lib.Rounding
import GnucashWeb.Schedule.Execute

/-!
# Rounding the splits of a schedule

`balanceSplitNumerators` rounds every amount to the nearest unit and lets one split take what the
roundings add up to.  Whether they may have added it is read off the number of splits, so that an
imbalance of the amounts themselves passes for one of the roundings when it is small:
`roundsOnly_iff` says when it does not.
-/

namespace Schedule

variable {amounts : List ℚ} {denom : ℤ} {nums : List ℤ}

/-! ## The specification -/

def IsNearest (denom : ℤ) (amount : ℚ) (n : ℤ) : Prop := |(n : ℚ) - amount * denom| ≤ 1 / 2

/-- Numerators that sum to zero, each the nearest to its amount but for one that is relieved of what
rounding has added to all of them. -/
structure AbsorbsResidue (amounts : List ℚ) (denom : ℤ) (nums : List ℤ) : Prop where
  sum_zero : nums.sum = 0
  residue : ∃ nearest : List ℤ, ∃ absorber < amounts.length, ∃ residue : ℤ,
    List.Forall₂ (IsNearest denom) amounts nearest ∧
      (residue : ℚ) = nearest.sum - amounts.sum * denom ∧
      nums = nearest.modify absorber (· - residue)

/-- Amounts whose numerators are made by rounding, and by nothing else. -/
structure RoundsOnly (amounts : List ℚ) (denom : ℤ) : Prop where
  accepted : ∀ nums, balanceSplitNumerators amounts denom = .ok nums →
    AbsorbsResidue amounts denom nums
  whole : (∀ amount ∈ amounts, ∃ n : ℤ, amount * denom = n) → amounts.sum ≠ 0 →
    ∀ nums, balanceSplitNumerators amounts denom ≠ .ok nums
  balanced : amounts.sum = 0 → ∃ nums, balanceSplitNumerators amounts denom = .ok nums

/-! ## The nearest numerators -/

def nearestUnits (amounts : List ℚ) (denom : ℤ) : List ℤ :=
  amounts.map fun amount => Ledger.mathRound (amount * denom)

/-- The bound that the roundings of so many splits are held to. -/
def roundingBound (amounts : List ℚ) : ℕ := (amounts.length + 1) / 2

theorem mathRound_add_excess (x : ℚ) : (Ledger.mathRound x : ℚ) = x - Rounding.excess x := by
  have h := Rounding.add_excess x
  rw [round_eq] at h
  unfold Ledger.mathRound
  linarith

theorem abs_excess_le (x : ℚ) : |Rounding.excess x| ≤ 1 / 2 := by
  obtain ⟨hlow, hhigh⟩ := Rounding.excess_mem x
  rw [abs_le]
  constructor <;> linarith

theorem nearest_nearestUnits (amounts : List ℚ) (denom : ℤ) :
    List.Forall₂ (IsNearest denom) amounts (nearestUnits amounts denom) := by
  unfold nearestUnits
  rw [List.forall₂_map_right_iff, List.forall₂_same]
  intro amount _
  unfold IsNearest
  have hsub : (Ledger.mathRound (amount * denom) : ℚ) - amount * denom =
      -Rounding.excess (amount * denom) := by
    rw [mathRound_add_excess]
    ring
  rw [hsub, abs_neg]
  exact abs_excess_le _

theorem abs_sum_nearestUnits_sub_le (amounts : List ℚ) (denom : ℤ) :
    |((nearestUnits amounts denom).sum : ℚ) - amounts.sum * denom| ≤ amounts.length / 2 := by
  induction amounts with
  | nil => simp [nearestUnits]
  | cons amount rest ih =>
    have hone := abs_excess_le (amount * denom)
    have hsplit : ((nearestUnits (amount :: rest) denom).sum : ℚ) - (amount :: rest).sum * denom =
        -Rounding.excess (amount * denom) +
          (((nearestUnits rest denom).sum : ℚ) - rest.sum * denom) := by
      simp only [nearestUnits, List.map_cons, List.sum_cons, Int.cast_add, mathRound_add_excess]
      ring
    rw [hsplit, List.length_cons]
    refine (abs_add_le _ _).trans ?_
    rw [abs_neg]
    rw [Nat.cast_add, Nat.cast_one]
    linarith

theorem natAbs_sum_le (hsum : amounts.sum = 0) :
    (nearestUnits amounts denom).sum.natAbs ≤ roundingBound amounts := by
  have h := abs_sum_nearestUnits_sub_le amounts denom
  rw [hsum, zero_mul, sub_zero, ← Int.cast_abs, le_div_iff₀ (by norm_num)] at h
  have h' : |(nearestUnits amounts denom).sum| * 2 ≤ (amounts.length : ℤ) := by exact_mod_cast h
  rw [Int.abs_eq_natAbs] at h'
  unfold roundingBound
  omega

theorem absorberOf_lt (h : nums ≠ []) : absorberOf nums < nums.length := by
  have hpos : 0 < nums.length := List.length_pos_iff.2 h
  have hfold (is : List ℕ) (his : ∀ i ∈ is, i < nums.length) (start : ℕ)
      (hstart : start < nums.length) :
      is.foldl (fun absorber i =>
        if (nums.getD absorber 0).natAbs < (nums.getD i 0).natAbs then i else absorber) start <
          nums.length := by
    induction is generalizing start with
    | nil => exact hstart
    | cons i is ih =>
      refine ih (fun i hi => his i (List.mem_cons_of_mem _ hi)) _ ?_
      dsimp only
      split
      · exact his i List.mem_cons_self
      · exact hstart
  exact hfold _ (fun i hi => List.mem_range.1 hi) 0 hpos

theorem sum_modify_sub {l : List ℤ} {i : ℕ} (hi : i < l.length) (r : ℤ) :
    (l.modify i (· - r)).sum = l.sum - r := by
  induction l generalizing i with
  | nil => simp at hi
  | cons n l ih =>
    cases i with
    | zero =>
      rw [List.modify_zero_cons, List.sum_cons, List.sum_cons]
      ring
    | succ i =>
      rw [List.modify_succ_cons, List.sum_cons, List.sum_cons, ih (by simpa using hi)]
      ring

/-! ## When only roundings are absorbed -/

theorem balanceSplitNumerators_eq (amounts : List ℚ) (denom : ℤ) :
    balanceSplitNumerators amounts denom =
      if amounts = [] then .error .noSplits
      else if roundingBound amounts < (nearestUnits amounts denom).sum.natAbs then
        .error (.unbalanced ((nearestUnits amounts denom).sum / denom))
      else .ok ((nearestUnits amounts denom).modify (absorberOf (nearestUnits amounts denom))
        (· - (nearestUnits amounts denom).sum)) := rfl

theorem balanceSplitNumerators_eq_ok (hne : amounts ≠ [])
    (hle : (nearestUnits amounts denom).sum.natAbs ≤ roundingBound amounts) :
    balanceSplitNumerators amounts denom =
      .ok ((nearestUnits amounts denom).modify (absorberOf (nearestUnits amounts denom))
        (· - (nearestUnits amounts denom).sum)) := by
  rw [balanceSplitNumerators_eq, if_neg hne, if_neg (not_lt.2 hle)]

theorem balanceSplitNumerators_ne_ok
    (hlt : roundingBound amounts < (nearestUnits amounts denom).sum.natAbs) (nums : List ℤ) :
    balanceSplitNumerators amounts denom ≠ .ok nums := by
  rw [balanceSplitNumerators_eq, if_pos hlt]
  split <;> exact nofun

theorem AbsorbsResidue.sum_eq_zero (hdenom : 0 < denom) (h : AbsorbsResidue amounts denom nums) :
    amounts.sum = 0 := by
  obtain ⟨nearest, absorber, habsorber, residue, hnearest, hresidue, hnums⟩ := h.residue
  rw [hnearest.length_eq] at habsorber
  have hsum : nearest.sum - residue = 0 := by
    rw [← sum_modify_sub habsorber, ← hnums, h.sum_zero]
  have hcast : (nearest.sum : ℚ) = residue := by exact_mod_cast sub_eq_zero.1 hsum
  have hzero : amounts.sum * (denom : ℚ) = 0 := by linarith
  exact (mul_eq_zero.1 hzero).resolve_right (by exact_mod_cast hdenom.ne')

theorem absorbsResidue_of_sum_eq_zero (hsum : amounts.sum = 0) (hne : amounts ≠ []) :
    ∃ nums, balanceSplitNumerators amounts denom = .ok nums ∧
      AbsorbsResidue amounts denom nums := by
  have hlength : (nearestUnits amounts denom).length = amounts.length := List.length_map _
  have habsorber : absorberOf (nearestUnits amounts denom) < (nearestUnits amounts denom).length :=
    absorberOf_lt fun h => hne (List.map_eq_nil_iff.1 h)
  refine ⟨_, balanceSplitNumerators_eq_ok hne (natAbs_sum_le hsum), ?_, nearestUnits amounts denom,
    absorberOf (nearestUnits amounts denom), hlength ▸ habsorber, (nearestUnits amounts denom).sum,
    nearest_nearestUnits amounts denom, ?_, rfl⟩
  · rw [sum_modify_sub habsorber, sub_self]
  · rw [hsum, zero_mul, sub_zero]

/-- Nothing but roundings is absorbed exactly when there are splits, and the amounts sum to zero or
their nearest numerators are off by more than half a unit for each split. -/
theorem roundsOnly_iff (amounts : List ℚ) {denom : ℤ} (hdenom : 0 < denom) :
    RoundsOnly amounts denom ↔ amounts ≠ [] ∧
      (amounts.sum = 0 ∨ roundingBound amounts < (nearestUnits amounts denom).sum.natAbs) := by
  constructor
  · intro h
    have hne : amounts ≠ [] := by
      rintro rfl
      obtain ⟨nums, hnums⟩ := h.balanced List.sum_nil
      exact absurd hnums nofun
    refine ⟨hne, or_iff_not_imp_right.2 fun hle => ?_⟩
    exact (h.accepted _ (balanceSplitNumerators_eq_ok hne (not_lt.1 hle))).sum_eq_zero hdenom
  · rintro ⟨hne, hsum | hlt⟩
    · obtain ⟨nums, hok, habsorbs⟩ : ∃ nums, balanceSplitNumerators amounts denom = .ok nums ∧
          AbsorbsResidue amounts denom nums := absorbsResidue_of_sum_eq_zero hsum hne
      refine ⟨fun nums' h => ?_, fun _ hnot => absurd hsum hnot, fun _ => ⟨nums, hok⟩⟩
      obtain rfl : nums = nums' := Except.ok.inj (hok.symm.trans h)
      exact habsorbs
    · refine ⟨fun nums h => absurd h (balanceSplitNumerators_ne_ok hlt nums),
        fun _ _ => balanceSplitNumerators_ne_ok hlt, fun hsum => ?_⟩
      exact absurd (natAbs_sum_le hsum) (not_le.2 hlt)

theorem roundsOnly_thirds : RoundsOnly [334 / 1000, 333 / 1000, -667 / 1000] postingDenom :=
  (roundsOnly_iff _ (by decide)).2 ⟨List.cons_ne_nil _ _, .inl (by norm_num)⟩

/-- One euro against 99 cents is posted as 99 cents. -/
theorem not_roundsOnly_offByCent : ¬RoundsOnly [1, -99 / 100] postingDenom := by
  intro h
  refine h.whole ?_ (by norm_num) [99, -99] (by decide +kernel)
  simp only [List.mem_cons, List.not_mem_nil, or_false, forall_eq_or_imp, forall_eq]
  exact ⟨⟨100, by norm_num [postingDenom]⟩, ⟨-99, by norm_num [postingDenom]⟩⟩

end Schedule
