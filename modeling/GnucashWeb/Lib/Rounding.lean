import Mathlib.Algebra.BigOperators.Group.List.Basic
import Mathlib.Algebra.Order.Round
import Mathlib.Tactic.Linarith
import Mathlib.Tactic.Ring

/-!
# Rounding the parts of a sum

Halves are rounded up, as `round` does.  The `excess` of a number is what rounding takes away from
it.  The rounded parts of a sum add up to the rounded sum exactly when the excesses of the parts add
up to at least `-1/2` and to less than `1/2` (`sum_map_round_eq_round_sum_iff`).
-/

namespace Rounding

variable {K : Type} [Field K] [LinearOrder K] [IsStrictOrderedRing K] [FloorRing K]

/-- What rounding to the nearest integer takes away. -/
def excess (x : K) : K := x - round x

theorem round_le_round {x y : K} (h : x ≤ y) : round x ≤ round y := by
  rw [round_eq, round_eq]
  exact Int.floor_mono (by linarith)

theorem round_le_intCast {x : K} {n : ℤ} (h : x ≤ n) : round x ≤ n := by
  simpa using round_le_round h

theorem le_round_of_intCast_le {x : K} {n : ℤ} (h : (n : K) ≤ x) : n ≤ round x := by
  simpa using round_le_round h

theorem excess_mem (x : K) : -1 / 2 ≤ excess x ∧ excess x < 1 / 2 := by
  have h := round_eq_iff.1 (rfl : round x = round x)
  unfold excess
  exact ⟨by linarith [h.1], by linarith [h.2]⟩

/-- A number is half a unit short of its rounded value exactly when it lies half-way. -/
theorem excess_eq_neg_half_iff (x : K) : excess x = -1 / 2 ↔ Int.fract x = 1 / 2 := by
  have hfloor : Int.fract x = x - ⌊x⌋ := rfl
  constructor
  · intro h
    have hx : x = ((round x - 1 : ℤ) : K) + 1 / 2 := by
      unfold excess at h
      push_cast
      linarith
    rw [hx, Int.fract_intCast_add, Int.fract_eq_self.2 ⟨by norm_num, by norm_num⟩]
  · intro h
    have hround : round x = ⌊x⌋ + 1 := by
      rw [round_eq, Int.floor_eq_iff]
      push_cast
      constructor <;> linarith
    unfold excess
    rw [hround]
    push_cast
    linarith

theorem fract_neg_eq_half_iff (x : K) :
    Int.fract (-x) = 1 / 2 ↔ Int.fract x = 1 / 2 := by
  by_cases h : Int.fract x = 0
  · rw [Int.fract_neg_eq_zero.2 h, h]
  · rw [Int.fract_neg h]
    constructor <;> intro h' <;> linarith

@[simp] theorem excess_intCast (n : ℤ) : excess (n : K) = 0 := by
  simp [excess]

omit [IsStrictOrderedRing K] in
theorem add_excess (x : K) : round x + excess x = x := by
  simp [excess]

omit [IsStrictOrderedRing K] in
theorem sum_eq_sum_round_add (l : List K) :
    l.sum = ((l.map round).sum : ℤ) + (l.map excess).sum := by
  induction l with
  | nil => simp
  | cons x l ih =>
    simp only [List.map_cons, List.sum_cons, Int.cast_add]
    rw [ih]
    nth_rewrite 1 [← add_excess x]
    ring

theorem round_sum (l : List K) :
    round l.sum = (l.map round).sum + round (l.map excess).sum := by
  rw [sum_eq_sum_round_add l, add_comm, round_add_intCast, add_comm]

theorem sum_map_round_eq_round_sum_iff (l : List K) :
    (l.map round).sum = round l.sum ↔
      -1 / 2 ≤ (l.map excess).sum ∧ (l.map excess).sum < 1 / 2 := by
  have h : (l.map round).sum = round l.sum ↔ round (l.map excess).sum = 0 := by
    rw [round_sum]
    constructor <;> intro h <;> omega
  rw [h, round_eq_zero_iff, Set.mem_Ico, neg_div]

end Rounding
