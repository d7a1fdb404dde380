import Mathlib.Algebra.BigOperators.Group.List.Basic
import Mathlib.Algebra.Order.Ring.Rat
import Mathlib.Data.Rat.Floor
import Mathlib.Tactic.Linarith
import Mathlib.Tactic.Ring

/-!
# Amounts

Amounts as fractions, and amounts in whole cents.
-/

/-!
## Stored amounts

An amount is stored as a pair of integer columns.  `toDecimalNumber` is the number the program
computes with and `fromDecimal` the pair it stores for a number; both are exact here, so a number
is a rational.
-/

namespace Ledger

/-- A pair of `*_num` and `*_denom` columns. -/
structure Amount where
  num : ℤ
  denom : ℤ
deriving DecidableEq, Repr

namespace Amount

/-- The fraction that the two columns stand for, zero for a zero denominator. -/
def exact (a : Amount) : ℚ := a.num / a.denom

theorem exact_add (m n denom : ℤ) :
    exact ⟨m + n, denom⟩ = exact ⟨m, denom⟩ + exact ⟨n, denom⟩ := by
  simp [exact, add_div]

theorem exact_sub (m n denom : ℤ) :
    exact ⟨m - n, denom⟩ = exact ⟨m, denom⟩ - exact ⟨n, denom⟩ := by
  simp [exact, sub_div]

/-- The loop of `powerOfTenExponent`, which divides by ten while it can. -/
def powerOfTenExponentFrom : ℕ → ℕ → ℕ → Option ℕ
  | 0, _, _ => none
  | fuel + 1, value, exponent =>
    if value % 10 = 0 then powerOfTenExponentFrom fuel (value / 10) (exponent + 1)
    else if value = 1 then some exponent
    else none

/-- The `p` with `d = 10 ^ p`, for a positive `d`. -/
def powerOfTenExponent (d : ℕ) : Option ℕ := powerOfTenExponentFrom d d 0

/-- The number of an amount: exact for a whole quotient and for a power of ten, else rounded half
up to ten places. -/
def toDecimalNumber (a : Amount) : ℚ :=
  let d := a.denom.natAbs
  let n := a.num.natAbs
  if d = 0 ∨ n = 0 then 0
  else
    let sign : ℚ := if a.num < 0 ↔ a.denom < 0 then 1 else -1
    let remainder := n % d
    if remainder = 0 then sign * (n / d : ℕ)
    else
      match powerOfTenExponent d with
      | some exponent => sign * ((n / d : ℕ) + remainder / 10 ^ exponent)
      | none => sign * ((n / d : ℕ) + ((remainder * 10 ^ 10 * 2 + d) / (d * 2) : ℕ) / 10 ^ 10)

theorem toDecimalNumber_of_powerOfTen {d e : ℕ} (hexponent : powerOfTenExponent d = some e)
    (hd : d = 10 ^ e) (n : ℤ) : toDecimalNumber ⟨n, d⟩ = n / d := by
  have hpos : 0 < d := hd ▸ Nat.pow_pos (by decide)
  have hd' : (d : ℚ) = 10 ^ e := by exact_mod_cast hd
  have hsplit : (n.natAbs : ℚ) = d * (n.natAbs / d : ℕ) + (n.natAbs % d : ℕ) := by
    exact_mod_cast (Nat.div_add_mod n.natAbs d).symm
  have hsign : (n : ℚ) = (if 0 ≤ n then 1 else -1) * (n.natAbs : ℚ) := by
    rw [Nat.cast_natAbs]
    split
    · rw [abs_of_nonneg ‹0 ≤ n›, one_mul]
    · rw [abs_of_neg (not_le.1 ‹¬0 ≤ n›), Int.cast_neg]
      ring
  have hneg : ¬(d : ℤ) < 0 := by omega
  unfold toDecimalNumber
  simp only [Int.natAbs_natCast, hneg, iff_false, not_lt, hexponent]
  by_cases hzero : n = 0
  · simp [hzero]
  have hne : ¬(d = 0 ∨ n.natAbs = 0) := by omega
  rw [if_neg hne, hsign, hsplit]
  have hd0 : (d : ℚ) ≠ 0 := by exact_mod_cast hpos.ne'
  split
  · rename_i hmod
    rw [hmod]
    push_cast
    field_simp
    ring
  · rw [← hd']
    field_simp

end Amount

/-- `Math.round`: the nearest integer, halves rounded up. -/
def mathRound (x : ℚ) : ℤ := ⌊x + 1 / 2⌋

/-- The amount stored for a number over a given denominator. -/
def fromDecimal (value : ℚ) (denom : ℤ) : Amount := ⟨mathRound (value * denom), denom⟩

@[simp] theorem fromDecimal_denom (value : ℚ) (denom : ℤ) :
    (fromDecimal value denom).denom = denom := rfl

/-! ## Tolerances -/

def moneyDisplayEpsilon : ℚ := 5 / 1000

/-- The share tolerance of coarse commodities. -/
def defaultQtyEpsilon : ℚ := 1 / 10000

/-- The share tolerance of a commodity with `scu` units per share. -/
def qtyEpsilonForScu (scu : ℤ) : ℚ :=
  if scu ≤ 0 then defaultQtyEpsilon else min defaultQtyEpsilon (1 / 2 / scu)

theorem qtyEpsilonForScu_pos (scu : ℤ) : 0 < qtyEpsilonForScu scu := by
  unfold qtyEpsilonForScu defaultQtyEpsilon
  split
  · norm_num
  · rename_i h
    have hs : (0 : ℚ) < scu := by exact_mod_cast not_le.1 h
    exact lt_min (by norm_num) (by positivity)

end Ledger

/-!
## Whole cents

Amounts that are rounded to cents and stored over a hundred.  What is rounded is in whole cents
(`wholeCents_round2`), and whole cents are stored exactly (`exact_fromDecimal`).
-/

namespace Ledger

theorem mathRound_intCast (n : ℤ) : mathRound n = n := by
  rw [mathRound, Int.floor_intCast_add]
  norm_num

def WholeCents (amount : ℚ) : Prop := (mathRound (amount * 100) : ℚ) = amount * 100

instance (amount : ℚ) : Decidable (WholeCents amount) := inferInstanceAs (Decidable (_ = _))

/-- `Math.round(n * 100) / 100`. -/
def round2 (n : ℚ) : ℚ := mathRound (n * 100) / 100

variable {amount : ℚ}

theorem wholeCents_iff : WholeCents amount ↔ ∃ n : ℤ, amount * 100 = n := by
  constructor
  · exact fun h => ⟨_, h.symm⟩
  · rintro ⟨n, hn⟩
    rw [WholeCents, hn, mathRound_intCast]

theorem wholeCents_round2 (n : ℚ) : WholeCents (round2 n) :=
  wholeCents_iff.2 ⟨mathRound (n * 100), div_mul_cancel₀ _ (by norm_num)⟩

theorem round2_of_wholeCents (h : WholeCents amount) : round2 amount = amount := by
  rw [round2, h, mul_div_cancel_right₀ _ (by norm_num)]

theorem wholeCents_zero : WholeCents 0 := wholeCents_iff.2 ⟨0, by norm_num⟩

theorem WholeCents.neg (h : WholeCents amount) : WholeCents (-amount) := by
  obtain ⟨n, hn⟩ := wholeCents_iff.1 h
  exact wholeCents_iff.2 ⟨-n, by rw [neg_mul, hn, Int.cast_neg]⟩

theorem WholeCents.add {a b : ℚ} (ha : WholeCents a) (hb : WholeCents b) : WholeCents (a + b) := by
  obtain ⟨m, hm⟩ := wholeCents_iff.1 ha
  obtain ⟨n, hn⟩ := wholeCents_iff.1 hb
  exact wholeCents_iff.2 ⟨m + n, by rw [add_mul, hm, hn, Int.cast_add]⟩

theorem WholeCents.sub {a b : ℚ} (ha : WholeCents a) (hb : WholeCents b) : WholeCents (a - b) :=
  sub_eq_add_neg a b ▸ ha.add hb.neg

theorem wholeCents_sum {amounts : List ℚ} (h : ∀ amount ∈ amounts, WholeCents amount) :
    WholeCents amounts.sum := by
  induction amounts with
  | nil => exact wholeCents_zero
  | cons amount rest ih =>
    obtain ⟨hamount, hrest⟩ := List.forall_mem_cons.1 h
    rw [List.sum_cons]
    exact hamount.add (ih hrest)

theorem WholeCents.max_zero (h : WholeCents amount) : WholeCents (max amount 0) := by
  rcases le_total amount 0 with hle | hle
  · rw [max_eq_right hle]
    exact wholeCents_zero
  · rwa [max_eq_left hle]

theorem WholeCents.eq_zero_of_small (h : WholeCents amount)
    (hsmall : |amount| ≤ 5 / 1000) : amount = 0 := by
  obtain ⟨n, hn⟩ := wholeCents_iff.1 h
  obtain ⟨hlow, hhigh⟩ := abs_le.1 hsmall
  have hlt : (n : ℚ) < 1 := by
    rw [← hn]
    linarith
  have hgt : (-1 : ℚ) < n := by
    rw [← hn]
    linarith
  have hzero : n = 0 := by
    have hlt' : n < 1 := by exact_mod_cast hlt
    have hgt' : -1 < n := by exact_mod_cast hgt
    omega
  rw [hzero, Int.cast_zero] at hn
  linarith

theorem exact_fromDecimal (h : WholeCents amount) :
    (fromDecimal amount 100).exact = amount := by
  unfold fromDecimal Amount.exact
  rw [Int.cast_ofNat, h, mul_div_cancel_right₀ _ (by norm_num)]

end Ledger
