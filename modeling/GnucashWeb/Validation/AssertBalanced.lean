import Mathlib
import GnucashWeb.Lib.Transact

/-!
# The balance gate

`assertBalanced` brings the values of splits to their least common denominator and accepts them when
their sum is zero.  Denominators may differ and be negative.  `assertBalanced_accepts_iff` says exactly
what is accepted.
-/

open Transact (except_bind_eq_ok)

namespace Validation

/-! ## Values -/

/-- A `number` (one that is finite) or a `bigint`. -/
inductive IntegerInput
  | number (value : ℚ)
  | bigint (value : ℤ)
deriving DecidableEq, Repr

namespace IntegerInput

def value : IntegerInput → ℚ
  | number value => value
  | bigint value => value

/-- `Number.isSafeInteger`, for numbers. -/
def IsSafe : IntegerInput → Prop
  | number value => value.den = 1 ∧ |value.num| ≤ 2 ^ 53 - 1
  | bigint _ => True

instance (n : IntegerInput) : Decidable n.IsSafe := by
  cases n <;> unfold IsSafe <;> infer_instance

end IntegerInput

structure BalanceSplit where
  valueNum : IntegerInput
  valueDenom : IntegerInput
deriving DecidableEq, Repr

def BalanceSplit.value (s : BalanceSplit) : ℚ := s.valueNum.value / s.valueDenom.value

inductive ValueField
  | numerator
  | denominator
deriving DecidableEq, Repr

inductive BalanceError
  | notSafeInteger (field : ValueField)
  | zeroDenominator
  | unbalanced (num denom : ℤ)
deriving DecidableEq, Repr

def BalanceError.message : BalanceError → String
  | .notSafeInteger .numerator => "Split value numerator must be a safe integer"
  | .notSafeInteger .denominator => "Split value denominator must be a safe integer"
  | .zeroDenominator => "Split value denominator must be non-zero"
  | .unbalanced num denom => s!"Splits must sum to zero exactly (current sum: {num}/{denom})"

/-! ## The gate -/

/-- Euclid's loop; the remainder has the sign of the dividend. -/
def gcd (a b : ℤ) : ℤ :=
  if b = 0 then (if a < 0 then -a else a) else gcd b (a.tmod b)
termination_by b.natAbs
decreasing_by
  rename_i hb
  rw [Int.natAbs_tmod]
  exact Nat.mod_lt _ (Int.natAbs_pos.2 hb)

def toBigInt (n : IntegerInput) (field : ValueField) : Except BalanceError ℤ :=
  match n with
  | .bigint value => .ok value
  | .number value =>
    if (IntegerInput.number value).IsSafe then .ok value.num else .error (.notSafeInteger field)

/-- One round of the first loop: the common denominator with that of one more split. -/
def extendDenominator (commonDenominator : ℤ) (split : BalanceSplit) : Except BalanceError ℤ := do
  let denominator ← toBigInt split.valueDenom .denominator
  if denominator = 0 then throw .zeroDenominator
  let absoluteDenominator := if denominator < 0 then -denominator else denominator
  return commonDenominator.tdiv (gcd commonDenominator absoluteDenominator) * absoluteDenominator

/-- One round of the second loop: the total with the value of one more split. -/
def addValue (commonDenominator total : ℤ) (split : BalanceSplit) : Except BalanceError ℤ := do
  let numerator ← toBigInt split.valueNum .numerator
  let denominator ← toBigInt split.valueDenom .denominator
  return total + numerator * commonDenominator.tdiv denominator

def assertBalanced (splits : List BalanceSplit) : Except BalanceError Unit := do
  let commonDenominator ← splits.foldlM extendDenominator 1
  let total ← splits.foldlM (addValue commonDenominator) 0
  if total ≠ 0 then
    let divisor := gcd total commonDenominator
    throw (.unbalanced (total.tdiv divisor) (commonDenominator.tdiv divisor))

theorem gcd_eq (a b : ℤ) : gcd a b = Int.gcd a b := by
  induction a, b using gcd.induct with
  | case1 a ha =>
    rw [gcd, if_pos rfl, if_pos ha, Int.gcd_zero_right]
    omega
  | case2 a ha =>
    rw [gcd, if_pos rfl, if_neg ha, Int.gcd_zero_right]
    omega
  | case3 a b hb ih =>
    rw [gcd, if_neg hb, ih, Int.gcd_comm b, Int.gcd, Int.gcd, Int.natAbs_tmod, ← Nat.gcd_rec,
      Nat.gcd_comm]

/-! ## The common denominator -/

variable {n : IntegerInput} {field : ValueField} {z c c' total total' : ℤ} {s : BalanceSplit}
  {splits : List BalanceSplit}

theorem toBigInt_eq_ok_iff : toBigInt n field = .ok z ↔ n.IsSafe ∧ n.value = z := by
  cases n with
  | bigint value => simp [toBigInt, IntegerInput.IsSafe, IntegerInput.value]
  | number value =>
    simp only [toBigInt, IntegerInput.value]
    by_cases hsafe : (IntegerInput.number value).IsSafe
    · have hvalue : (value.num : ℚ) = value := Rat.coe_int_num_of_den_eq_one hsafe.1
      rw [if_pos hsafe, Except.ok.injEq, and_iff_right hsafe, ← hvalue, Rat.num_intCast,
        Int.cast_inj]
    · simp [hsafe]

def BalanceSplit.HasDenominator (s : BalanceSplit) (d : ℤ) : Prop :=
  s.valueDenom.IsSafe ∧ s.valueDenom.value = d ∧ d ≠ 0

theorem tdiv_gcd_mul (hc : 0 < c) (d : ℤ) :
    c.tdiv (gcd c (if d < 0 then -d else d)) * (if d < 0 then -d else d) = Int.lcm c d := by
  lift c to ℕ using hc.le
  have habs : (if d < 0 then -d else d) = (d.natAbs : ℤ) := by
    split <;> omega
  rw [habs, gcd_eq, Int.gcd_natCast_natCast, Int.natCast_tdiv_eq_ediv, ← Int.natCast_ediv,
    ← Nat.cast_mul, Int.lcm, Int.natAbs_natCast, Nat.lcm,
    Nat.div_mul_right_comm (Nat.gcd_dvd_left ..)]

theorem extendDenominator_eq_ok_iff (hc : 0 < c) :
    extendDenominator c s = .ok c' ↔ ∃ d, s.HasDenominator d ∧ c' = Int.lcm c d := by
  unfold extendDenominator BalanceSplit.HasDenominator
  cases hread : toBigInt s.valueDenom .denominator with
  | error e =>
    have hnot (d : ℤ) : ¬(s.valueDenom.IsSafe ∧ s.valueDenom.value = d) := fun h => by
      simp [toBigInt_eq_ok_iff.2 h] at hread
    constructor
    · intro h
      cases h
    · rintro ⟨d, ⟨hsafe, hvalue, -⟩, -⟩
      exact absurd ⟨hsafe, hvalue⟩ (hnot d)
  | ok d =>
    obtain ⟨hsafe, hvalue⟩ := toBigInt_eq_ok_iff.1 hread
    simp only [hsafe, hvalue, Int.cast_inj, true_and, bind, Except.bind]
    by_cases hd : d = 0
    · simp [hd, throw, throwThe, MonadExceptOf.throw]
    · simp [hd, tdiv_gcd_mul hc, pure, Except.pure, eq_comm]

theorem commonDenominator_spec (hc : 0 < c) (h : splits.foldlM extendDenominator c = .ok c') :
    0 < c' ∧ c ∣ c' ∧ ∀ s ∈ splits, ∃ d, s.HasDenominator d ∧ d ∣ c' := by
  induction splits generalizing c with
  | nil =>
    cases h
    exact ⟨hc, dvd_rfl, by simp⟩
  | cons s splits ih =>
    rw [List.foldlM_cons, except_bind_eq_ok] at h
    obtain ⟨c₁, hfirst, hrest⟩ := h
    obtain ⟨d, hd, rfl⟩ := (extendDenominator_eq_ok_iff hc).1 hfirst
    have hpos : 0 < (Int.lcm c d : ℤ) := by exact_mod_cast Int.lcm_pos hc.ne' hd.2.2
    obtain ⟨hc', hdvd, hall⟩ := ih hpos hrest
    refine ⟨hc', (Int.dvd_lcm_left c d).trans hdvd, fun t ht => ?_⟩
    rcases List.mem_cons.1 ht with rfl | ht
    · exact ⟨d, hd, (Int.dvd_lcm_right c d).trans hdvd⟩
    · exact hall t ht

theorem exists_commonDenominator (hc : 0 < c) (h : ∀ s ∈ splits, ∃ d, s.HasDenominator d) :
    ∃ c', splits.foldlM extendDenominator c = .ok c' := by
  induction splits generalizing c with
  | nil => exact ⟨c, rfl⟩
  | cons s splits ih =>
    obtain ⟨d, hd⟩ := h s List.mem_cons_self
    have hpos : 0 < (Int.lcm c d : ℤ) := by exact_mod_cast Int.lcm_pos hc.ne' hd.2.2
    obtain ⟨c', hrest⟩ := ih hpos fun t ht => h t (List.mem_cons_of_mem _ ht)
    refine ⟨c', ?_⟩
    rw [List.foldlM_cons, except_bind_eq_ok]
    exact ⟨_, (extendDenominator_eq_ok_iff hc).2 ⟨d, hd, rfl⟩, hrest⟩

theorem exists_toBigInt (h : n.IsSafe) : ∃ z, toBigInt n field = .ok z := by
  cases n with
  | bigint z => exact ⟨z, rfl⟩
  | number value => exact ⟨value.num, by rw [toBigInt, if_pos h]⟩

theorem addValue_eq_ok_iff {d : ℤ} (hd : s.HasDenominator d) (hdvd : d ∣ c) :
    addValue c total s = .ok total' ↔
      s.valueNum.IsSafe ∧ (total' : ℚ) = total + c * s.value := by
  obtain ⟨k, rfl⟩ := hdvd
  have hd0 : (d : ℚ) ≠ 0 := by exact_mod_cast hd.2.2
  have hread : toBigInt s.valueDenom .denominator = .ok d := toBigInt_eq_ok_iff.2 ⟨hd.1, hd.2.1⟩
  have hadd (z : ℤ) : ((total + z * (d * k).tdiv d : ℤ) : ℚ) =
      total + (d * k : ℤ) * (z / d) := by
    rw [Int.mul_tdiv_cancel_left k hd.2.2]
    push_cast
    field_simp
  unfold addValue BalanceSplit.value
  simp only [except_bind_eq_ok, hread, Except.ok.injEq, pure, Except.pure, hd.2.1]
  constructor
  · rintro ⟨z, hz, _, rfl, rfl⟩
    obtain ⟨hsafe, hvalue⟩ := toBigInt_eq_ok_iff.1 hz
    exact ⟨hsafe, hvalue ▸ hadd z⟩
  · rintro ⟨hsafe, htotal⟩
    obtain ⟨z, hz⟩ := exists_toBigInt hsafe
    rw [(toBigInt_eq_ok_iff.1 hz).2, ← hadd z, Int.cast_inj] at htotal
    exact ⟨z, hz, d, rfl, htotal.symm⟩

theorem exists_addValue {d : ℤ} (hd : s.HasDenominator d) (hsafe : s.valueNum.IsSafe) :
    ∃ total', addValue c total s = .ok total' := by
  obtain ⟨z, hz⟩ := exists_toBigInt hsafe
  have hread : toBigInt s.valueDenom .denominator = .ok d := toBigInt_eq_ok_iff.2 ⟨hd.1, hd.2.1⟩
  exact ⟨total + z * c.tdiv d, by rw [addValue, hz, hread]; rfl⟩

theorem foldlM_addValue_eq_ok_iff (h : ∀ s ∈ splits, ∃ d, s.HasDenominator d ∧ d ∣ c) :
    splits.foldlM (addValue c) total = .ok total' ↔
      (∀ s ∈ splits, s.valueNum.IsSafe) ∧
        (total' : ℚ) = total + c * (splits.map BalanceSplit.value).sum := by
  induction splits generalizing total with
  | nil => simp [pure, Except.pure, eq_comm]
  | cons s splits ih =>
    obtain ⟨d, hd, hdvd⟩ := h s List.mem_cons_self
    have ih {t : ℤ} := @ih t fun s hs => h s (List.mem_cons_of_mem _ hs)
    rw [List.foldlM_cons, except_bind_eq_ok, List.forall_mem_cons, List.map_cons,
      List.sum_cons]
    constructor
    · rintro ⟨t, hfirst, hrest⟩
      obtain ⟨hsafe, ht⟩ := (addValue_eq_ok_iff hd hdvd).1 hfirst
      obtain ⟨hall, htotal⟩ := ih.1 hrest
      refine ⟨⟨hsafe, hall⟩, ?_⟩
      rw [htotal, ht]
      ring
    · rintro ⟨⟨hsafe, hall⟩, htotal⟩
      obtain ⟨t, hfirst⟩ := exists_addValue hd hsafe
      refine ⟨t, hfirst, ih.2 ⟨hall, ?_⟩⟩
      rw [htotal, ((addValue_eq_ok_iff hd hdvd).1 hfirst).2]
      ring

/-! ## What is accepted -/

theorem exists_hasDenominator_iff :
    (∃ d, s.HasDenominator d) ↔ s.valueDenom.IsSafe ∧ s.valueDenom.value ≠ 0 := by
  constructor
  · rintro ⟨d, hsafe, hvalue, hd⟩
    exact ⟨hsafe, by rw [hvalue]; exact_mod_cast hd⟩
  · rintro ⟨hsafe, hne⟩
    obtain ⟨d, hd⟩ := @exists_toBigInt _ .denominator hsafe
    obtain ⟨-, hvalue⟩ := toBigInt_eq_ok_iff.1 hd
    rw [hvalue] at hne
    exact ⟨d, hsafe, hvalue, by exact_mod_cast hne⟩

theorem assertBalanced_eq_ok_iff_total :
    assertBalanced splits = .ok () ↔
      ∃ c, splits.foldlM extendDenominator 1 = .ok c ∧ splits.foldlM (addValue c) 0 = .ok 0 := by
  unfold assertBalanced
  simp only [except_bind_eq_ok]
  refine exists_congr fun c => and_congr_right fun _ => ?_
  constructor
  · rintro ⟨total, htotal, h⟩
    by_cases hzero : total = 0
    · rwa [hzero] at htotal
    · simp [hzero, throw, throwThe, MonadExceptOf.throw] at h
  · exact fun h => ⟨0, h, rfl⟩

/-- Splits are accepted when all their numbers are safe integers, no denominator is zero, and the
values sum to exactly zero. -/
theorem assertBalanced_accepts_iff (splits : List BalanceSplit) :
    assertBalanced splits = .ok () ↔
      (∀ s ∈ splits, s.valueNum.IsSafe ∧ s.valueDenom.IsSafe ∧ s.valueDenom.value ≠ 0) ∧
        (splits.map BalanceSplit.value).sum = 0 := by
  rw [assertBalanced_eq_ok_iff_total]
  constructor
  · rintro ⟨c, hc, htotal⟩
    obtain ⟨hpos, -, hall⟩ := commonDenominator_spec one_pos hc
    obtain ⟨hnum, hsum⟩ := (foldlM_addValue_eq_ok_iff hall).1 htotal
    have hc0 : (c : ℚ) ≠ 0 := by exact_mod_cast hpos.ne'
    refine ⟨fun s hs => ⟨hnum s hs, ?_⟩, ?_⟩
    · obtain ⟨d, hd, -⟩ := hall s hs
      exact exists_hasDenominator_iff.1 ⟨d, hd⟩
    · rw [Int.cast_zero, zero_add, eq_comm] at hsum
      exact (mul_eq_zero.1 hsum).resolve_left hc0
  · rintro ⟨hsafe, hsum⟩
    obtain ⟨c, hc⟩ := exists_commonDenominator one_pos fun s hs =>
      exists_hasDenominator_iff.2 (hsafe s hs).2
    have hall := (commonDenominator_spec one_pos hc).2.2
    refine ⟨c, hc, (foldlM_addValue_eq_ok_iff hall).2 ⟨fun s hs => (hsafe s hs).1, ?_⟩⟩
    rw [hsum, mul_zero, add_zero]

/-- A numerator that is an integer, given as a `number` beyond the safe integers. -/
def beyondSafe : List BalanceSplit :=
  [⟨.bigint 1, .bigint (-3)⟩, ⟨.number (2 ^ 53), .number 1⟩, ⟨.bigint 1, .bigint 3⟩,
    ⟨.bigint (-2 ^ 53), .bigint 1⟩]

theorem assertBalanced_rejects_beyondSafe :
    ((∀ s ∈ beyondSafe, s.valueNum.value.den = 1 ∧ s.valueDenom.value.den = 1 ∧
      s.valueDenom.value ≠ 0) ∧ (beyondSafe.map BalanceSplit.value).sum = 0) ∧
    assertBalanced beyondSafe ≠ .ok () := by
  refine ⟨⟨by decide +kernel, by decide +kernel⟩, fun h => ?_⟩
  obtain ⟨c, hc, htotal⟩ := assertBalanced_eq_ok_iff_total.1 h
  have hall := (commonDenominator_spec one_pos hc).2.2
  have hsafe := ((foldlM_addValue_eq_ok_iff hall).1 htotal).1 ⟨.number (2 ^ 53), .number 1⟩
    (by simp [beyondSafe])
  exact absurd hsafe (by decide +kernel)

end Validation
