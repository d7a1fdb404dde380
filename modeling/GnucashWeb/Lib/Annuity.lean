import Mathlib.Algebra.Order.Field.Basic
import Mathlib.Tactic.FieldSimp
import Mathlib.Tactic.GCongr
import Mathlib.Tactic.Linarith
import Mathlib.Tactic.Positivity
import Mathlib.Tactic.Ring

/-!
# Annuities

What equal payments at the ends of the coming periods are worth now, at a rate of interest for each
period.  A debt that is worth no more than so many payments is paid off by them
(`max_le_presentValue`), and payments that fall due more often, at the same nominal rate, are worth
more (`presentValue_mul`, `one_add_pow_le`).
-/

namespace Annuity

variable {K : Type*} [Field K] [LinearOrder K] [IsStrictOrderedRing K] {rate pay : K}

/-- The worth of `k` payments. -/
def presentValue (rate pay : K) : ℕ → K
  | 0 => 0
  | k + 1 => (presentValue rate pay k + pay) / (1 + rate)

theorem presentValue_nonneg (hrate : 0 ≤ rate) (hpay : 0 ≤ pay) (k : ℕ) :
    0 ≤ presentValue rate pay k := by
  induction k with
  | zero => exact le_rfl
  | succ k ih => exact div_nonneg (add_nonneg ih hpay) (by linarith)

/-- A payment on a debt that the payments are worth leaves what the rest of them is worth. -/
theorem max_le_presentValue (hrate : 0 ≤ rate) (hpay : 0 ≤ pay) {debt : K} {k : ℕ}
    (h : debt ≤ presentValue rate pay (k + 1)) :
    max 0 (debt + debt * rate - pay) ≤ presentValue rate pay k := by
  refine max_le (presentValue_nonneg hrate hpay k) ?_
  have hpos : 0 < 1 + rate := by linarith
  rw [presentValue, le_div_iff₀ hpos] at h
  linarith

theorem presentValue_zero_rate (pay : K) (k : ℕ) : presentValue 0 pay k = k * pay := by
  induction k with
  | zero => simp [presentValue]
  | succ k ih =>
    rw [presentValue, ih]
    push_cast
    ring

theorem presentValue_mul (hrate : 0 ≤ rate) (pay : K) (k : ℕ) :
    presentValue rate pay k * (rate * (1 + rate) ^ k) = pay * ((1 + rate) ^ k - 1) := by
  have hpos : 0 < 1 + rate := by linarith
  induction k with
  | zero => simp [presentValue]
  | succ k ih =>
    calc presentValue rate pay (k + 1) * (rate * (1 + rate) ^ (k + 1))
        = presentValue rate pay k * (rate * (1 + rate) ^ k) + pay * (rate * (1 + rate) ^ k) := by
          rw [presentValue, pow_succ]
          field_simp
      _ = pay * ((1 + rate) ^ (k + 1) - 1) := by
          rw [ih, pow_succ]
          ring

/-- The interest on what payments are worth is no more than a payment. -/
theorem presentValue_mul_rate_le (hrate : 0 ≤ rate) (hpay : 0 ≤ pay) (k : ℕ) :
    presentValue rate pay k * rate ≤ pay := by
  induction k with
  | zero => simpa [presentValue] using hpay
  | succ k ih =>
    rw [presentValue, div_mul_eq_mul_div, div_le_iff₀ (by linarith)]
    linarith

/-- Thirteen periods at a rate outgrow six at the rate that is thirteen sixths of it. -/
theorem one_add_pow_le (hrate : 0 ≤ rate) (k : ℕ) :
    (1 + 13 / 6 * rate) ^ (6 * k) ≤ (1 + rate) ^ (13 * k) := by
  have hone : (1 + 13 / 6 * rate) ^ 6 ≤ (1 + rate) ^ 13 := by
    rw [← sub_nonneg]
    ring_nf
    positivity
  rw [pow_mul, pow_mul]
  exact pow_le_pow_left₀ (by positivity) hone k

end Annuity
