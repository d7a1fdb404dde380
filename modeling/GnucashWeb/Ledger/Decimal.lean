import GnucashWeb.Numbering.Format
import GnucashWeb.Reconcile.Units

/-!
# Fractions as decimal texts

`toDecimal` writes a fraction as a decimal text.  Read as a decimal, the text is the number that
`toDecimalNumber` gives (`readDecimalText_toDecimal`): the fraction itself, where ten decimals or
a power of ten can hold it, and else the nearest number with ten decimals.
-/

namespace Ledger

open Numbering (padStart)
open Reconcile (DecimalText digitsValue readDecimalText)
open Text (natDigits)

def ARBITRARY_DENOM_SCALE : ℕ := 10

def ARBITRARY_DENOM_POW : ℕ := 10 ^ ARBITRARY_DENOM_SCALE

/-- `text.replace(/0+$/, '')`. -/
def trimZeros (cs : List Char) : List Char := cs.rdropWhile fun c => c = '0'

def toDecimal (n rawD : ℤ) : List Char :=
  if rawD = 0 then ['0']
  else
    let d := rawD.natAbs
    let absoluteN := n.natAbs
    if absoluteN = 0 then ['0']
    else
      let sign := if n < 0 ↔ rawD < 0 then [] else ['-']
      let integerPart := absoluteN / d
      let remainder := absoluteN % d
      if remainder = 0 then sign ++ natDigits integerPart
      else
        match Amount.powerOfTenExponent d with
        | some exponent =>
          sign ++ natDigits integerPart ++ '.' :: padStart exponent '0' (natDigits remainder)
        | none =>
          let scaled := (remainder * ARBITRARY_DENOM_POW * 2 + d) / (d * 2)
          if ARBITRARY_DENOM_POW ≤ scaled then sign ++ natDigits (integerPart + 1)
          else
            let fraction := trimZeros (padStart ARBITRARY_DENOM_SCALE '0' (natDigits scaled))
            if fraction = [] then sign ++ natDigits integerPart
            else sign ++ natDigits integerPart ++ '.' :: fraction

/-! ## Powers of ten -/

theorem Amount.powerOfTenExponentFrom_eq_some_iff {fuel value exponent e : ℕ} (hpos : 0 < value)
    (hfuel : value ≤ fuel) :
    powerOfTenExponentFrom fuel value exponent = some e ↔
      ∃ k, value = 10 ^ k ∧ e = exponent + k := by
  induction fuel generalizing value exponent with
  | zero => omega
  | succ fuel ih =>
    unfold powerOfTenExponentFrom
    by_cases hten : value % 10 = 0
    · rw [if_pos hten, ih (by omega) (by omega)]
      constructor
      · rintro ⟨k, hk, rfl⟩
        exact ⟨k + 1, by rw [pow_succ]; omega, by omega⟩
      · rintro ⟨k, hk, rfl⟩
        cases k with
        | zero => omega
        | succ k => exact ⟨k, by rw [pow_succ] at hk; omega, by omega⟩
    · rw [if_neg hten]
      by_cases hone : value = 1
      · rw [if_pos hone, Option.some.injEq]
        constructor
        · rintro rfl
          exact ⟨0, hone, rfl⟩
        · rintro ⟨k, hk, rfl⟩
          cases k with
          | zero => rfl
          | succ k => rw [pow_succ] at hk; omega
      · rw [if_neg hone]
        refine iff_of_false (by simp) ?_
        rintro ⟨k, hk, -⟩
        cases k with
        | zero => exact hone hk
        | succ k => rw [pow_succ] at hk; omega

theorem Amount.powerOfTenExponent_eq_some_iff {d e : ℕ} (hpos : 0 < d) :
    powerOfTenExponent d = some e ↔ d = 10 ^ e := by
  rw [powerOfTenExponent, powerOfTenExponentFrom_eq_some_iff hpos le_rfl]
  simp

/-! ## The text -/

def signText (negative : Bool) : List Char := if negative then ['-'] else []

theorem point_notMem_of_isDigit {cs : List Char} (h : ∀ c ∈ cs, c.isDigit = true) : '.' ∉ cs :=
  fun hmem => absurd (h _ hmem) (by decide)

theorem readDecimalText_whole (negative : Bool) {whole : List Char} (hne : whole ≠ [])
    (hdigit : ∀ c ∈ whole, c.isDigit = true) :
    readDecimalText (String.ofList (signText negative ++ whole)) = some ⟨negative, whole, []⟩ := by
  obtain ⟨c, cs, rfl⟩ := List.exists_cons_of_ne_nil hne
  have hc : c ≠ '-' := by
    rintro rfl
    exact absurd (hdigit '-' List.mem_cons_self) (by decide)
  have hsplit : Text.split '.' (c :: cs) = [c :: cs] :=
    List.splitOn_eq_singleton (point_notMem_of_isDigit hdigit)
  have hall : (c :: cs).all Char.isDigit = true := List.all_eq_true.2 hdigit
  unfold readDecimalText signText
  rw [String.toList_ofList]
  cases negative with
  | true => simp [hsplit, hall]
  | false => simp [hc, hsplit, hall]

theorem readDecimalText_point (negative : Bool) {whole fraction : List Char} (hne : whole ≠ [])
    (hdigit : ∀ c ∈ whole, c.isDigit = true) (hne' : fraction ≠ [])
    (hdigit' : ∀ c ∈ fraction, c.isDigit = true) :
    readDecimalText (String.ofList (signText negative ++ whole ++ '.' :: fraction)) =
      some ⟨negative, whole, fraction⟩ := by
  obtain ⟨c, cs, rfl⟩ := List.exists_cons_of_ne_nil hne
  have hc : c ≠ '-' := by
    rintro rfl
    exact absurd (hdigit '-' List.mem_cons_self) (by decide)
  have hsplit : Text.split '.' (c :: (cs ++ '.' :: fraction)) = [c :: cs, fraction] := by
    rw [Text.split, ← List.cons_append,
      List.splitOn_append_cons_self_of_not_mem (point_notMem_of_isDigit hdigit),
      List.splitOn_eq_singleton (point_notMem_of_isDigit hdigit')]
  have hall : (c :: cs).all Char.isDigit = true := List.all_eq_true.2 hdigit
  have hall' : fraction.all Char.isDigit = true := List.all_eq_true.2 hdigit'
  unfold readDecimalText signText
  rw [String.toList_ofList]
  cases negative with
  | true => simp [hsplit, hall, hne', hall']
  | false => simp [hc, hsplit, hall, hne', hall']

theorem length_padStart {width n : ℕ} (hwidth : 0 < width) (hn : n < 10 ^ width) :
    (padStart width '0' (natDigits n)).length = width := by
  have hlen := (Nat.length_toDigits_le_iff (show 1 < 10 by decide) hwidth).2 hn
  rw [padStart, List.length_append, List.length_replicate, natDigits]
  omega

theorem isDigit_of_mem_padStart {width n : ℕ} {c : Char}
    (hc : c ∈ padStart width '0' (natDigits n)) : c.isDigit = true := by
  rcases List.mem_append.1 hc with hzero | hdigit
  · rw [List.eq_of_mem_replicate hzero]
    decide
  · exact Text.isDigit_of_mem_natDigits hdigit

theorem digitsValue_trimZeros (cs : List Char) :
    (digitsValue (trimZeros cs) / 10 ^ (trimZeros cs).length : ℚ) =
      digitsValue cs / 10 ^ cs.length := by
  unfold trimZeros
  induction cs using List.reverseRecOn with
  | nil => rfl
  | append_singleton cs c ih =>
    by_cases hc : c = '0'
    · subst hc
      rw [List.rdropWhile_concat_pos _ _ _ (by simp), ih, digitsValue, digitsValue,
        Nat.ofDigitChars_append, Nat.ofDigitChars_cons, Nat.ofDigitChars_nil, List.length_append,
        List.length_singleton, pow_succ']
      norm_num [mul_div_mul_left]
    · rw [List.rdropWhile_concat_neg _ _ _ (by simpa using hc)]

theorem digitsValue_natDigits (n : ℕ) : digitsValue (natDigits n) = n :=
  Nat.ofDigitChars_ten_toDigits

theorem digitsValue_nil : digitsValue [] = 0 := Nat.ofDigitChars_nil

theorem decimals_spec {scaled : ℕ} (h : scaled < ARBITRARY_DENOM_POW) :
    let fraction := trimZeros (padStart ARBITRARY_DENOM_SCALE '0' (natDigits scaled))
    (∀ c ∈ fraction, c.isDigit = true) ∧
      (digitsValue fraction / 10 ^ fraction.length : ℚ) = scaled / 10 ^ 10 := by
  refine ⟨fun c hc => isDigit_of_mem_padStart ((List.rdropWhile_prefix _ _).subset hc), ?_⟩
  rw [digitsValue_trimZeros, length_padStart (by decide) h, digitsValue,
    Numbering.ofDigitChars_padStart, ARBITRARY_DENOM_SCALE]

theorem scaled_le {remainder d : ℕ} (h : remainder < d) :
    (remainder * ARBITRARY_DENOM_POW * 2 + d) / (d * 2) ≤ ARBITRARY_DENOM_POW := by
  have hmul := Nat.mul_le_mul_right ARBITRARY_DENOM_POW h.le
  refine Nat.lt_succ_iff.1 (Nat.div_lt_of_lt_mul ?_)
  rw [Nat.succ_eq_add_one, mul_add, mul_one, mul_right_comm d 2]
  omega

theorem div_neg_iff_signs {n d : ℤ} (hn : n ≠ 0) (hd : d ≠ 0) :
    (n / d : ℚ) < 0 ↔ ¬(n < 0 ↔ d < 0) := by
  rw [div_neg_iff]
  norm_cast
  omega

theorem readDecimalText_toDecimal (n : ℤ) {rawD : ℤ} (hd : rawD ≠ 0) :
    ∃ t, readDecimalText (String.ofList (toDecimal n rawD)) = some t ∧
      (t.negative = true ↔ (n / rawD : ℚ) < 0) ∧ t.value = Amount.toDecimalNumber ⟨n, rawD⟩ := by
  have hd' : rawD.natAbs ≠ 0 := by omega
  by_cases hn : n = 0
  · subst hn
    refine ⟨⟨false, natDigits 0, []⟩, ?_, by simp, ?_⟩
    · rw [toDecimal, if_neg hd]
      exact readDecimalText_whole false (Text.natDigits_ne_nil 0) (by decide)
    · rw [DecimalText.value, digitsValue_natDigits, digitsValue_nil]
      simp [Amount.toDecimalNumber]
  have hn' : n.natAbs ≠ 0 := by omega
  set negative := decide ¬(n < 0 ↔ rawD < 0) with hnegative
  have hsign : (if n < 0 ↔ rawD < 0 then [] else ['-']) = signText negative := by
    by_cases hsame : n < 0 ↔ rawD < 0 <;> simp [signText, hnegative, hsame]
  have hfactor : (if n < 0 ↔ rawD < 0 then 1 else -1 : ℚ) = if negative then -1 else 1 := by
    by_cases hsame : n < 0 ↔ rawD < 0 <;> simp [hnegative, hsame]
  have hneg : negative = true ↔ (n / rawD : ℚ) < 0 := by
    rw [div_neg_iff_signs hn hd, hnegative, decide_eq_true_iff]
  have hdigits (k : ℕ) : ∀ c ∈ natDigits k, c.isDigit = true :=
    fun _ => Text.isDigit_of_mem_natDigits
  have hwhole (k : ℕ) := readDecimalText_whole negative (Text.natDigits_ne_nil k) (hdigits k)
  have hvalue (k : ℕ) : DecimalText.value ⟨negative, natDigits k, []⟩ =
      (if negative then -1 else 1) * k := by
    rw [DecimalText.value, digitsValue_natDigits, digitsValue_nil, Nat.cast_zero, zero_div, add_zero]
  unfold toDecimal Amount.toDecimalNumber
  simp only [if_neg hd, hsign, hfactor, hd', hn', or_self, if_false]
  generalize n.natAbs / rawD.natAbs = integerPart
  have hlt : n.natAbs % rawD.natAbs < rawD.natAbs := Nat.mod_lt _ (by omega)
  generalize n.natAbs % rawD.natAbs = remainder at hlt ⊢
  by_cases hzero : remainder = 0
  · rw [if_pos hzero, if_pos hzero]
    exact ⟨_, hwhole integerPart, hneg, hvalue integerPart⟩
  rw [if_neg hzero, if_neg hzero]
  cases hexponent : Amount.powerOfTenExponent rawD.natAbs with
  | some exponent =>
    have hpow := (Amount.powerOfTenExponent_eq_some_iff (by omega)).1 hexponent
    have hpos : 0 < exponent := by
      rw [Nat.pos_iff_ne_zero]
      rintro rfl
      rw [hpow] at hlt
      omega
    have hlen := length_padStart hpos (hpow ▸ hlt)
    have hne : padStart exponent '0' (natDigits remainder) ≠ [] := by
      rw [← List.length_pos_iff, hlen]
      exact hpos
    refine ⟨_, readDecimalText_point negative (Text.natDigits_ne_nil integerPart)
      (hdigits integerPart) hne fun _ => isDigit_of_mem_padStart, hneg, ?_⟩
    rw [DecimalText.value, digitsValue_natDigits, hlen, digitsValue,
      Numbering.ofDigitChars_padStart]
  | none =>
    dsimp only
    have hle := scaled_le hlt
    change ∃ t : DecimalText, _ ∧ _ ∧ t.value = (if negative then -1 else 1 : ℚ) * (integerPart +
      ((remainder * ARBITRARY_DENOM_POW * 2 + rawD.natAbs) / (rawD.natAbs * 2) : ℕ) / 10 ^ 10)
    generalize (remainder * ARBITRARY_DENOM_POW * 2 + rawD.natAbs) / (rawD.natAbs * 2) = scaled
      at hle ⊢
    by_cases hcarry : ARBITRARY_DENOM_POW ≤ scaled
    · rw [if_pos hcarry, hle.antisymm hcarry]
      refine ⟨_, hwhole (integerPart + 1), hneg, (hvalue _).trans ?_⟩
      norm_num [ARBITRARY_DENOM_POW, ARBITRARY_DENOM_SCALE]
    rw [if_neg hcarry]
    obtain ⟨hfraction, hdecimals⟩ := decimals_spec (not_le.1 hcarry)
    generalize trimZeros (padStart ARBITRARY_DENOM_SCALE '0' (natDigits scaled)) = fraction
      at hfraction hdecimals ⊢
    by_cases hnil : fraction = []
    · subst hnil
      rw [digitsValue_nil, Nat.cast_zero, zero_div] at hdecimals
      rw [if_pos rfl, ← hdecimals, add_zero]
      exact ⟨_, hwhole integerPart, hneg, hvalue integerPart⟩
    · rw [if_neg hnil]
      refine ⟨_, readDecimalText_point negative (Text.natDigits_ne_nil integerPart)
        (hdigits integerPart) hnil hfraction, hneg, ?_⟩
      rw [DecimalText.value, digitsValue_natDigits, hdecimals]

/-! ## The number -/

/-- The number with ten decimals that is nearest to a number, the farther from zero of two. -/
def NearestDecimal (x y : ℚ) : Prop :=
  ∃ k : ℤ, y = k / 10 ^ 10 ∧ ∀ j : ℤ, j ≠ k →
    |x - y| < |x - j / 10 ^ 10| ∨ |x - y| = |x - j / 10 ^ 10| ∧ |(j / 10 ^ 10 : ℚ)| < |y|

theorem NearestDecimal.neg {x y : ℚ} (h : NearestDecimal x y) : NearestDecimal (-x) (-y) := by
  obtain ⟨k, rfl, hnearest⟩ := h
  refine ⟨-k, by push_cast; ring, fun j hj => ?_⟩
  have hx (z : ℚ) : |-x - z| = |x - -z| := by rw [← abs_neg]; congr 1; ring
  have hneg := hnearest (-j) (by omega)
  rw [hx, hx, neg_neg, abs_neg, ← abs_neg (j / 10 ^ 10 : ℚ)]
  rwa [Int.cast_neg, neg_div] at hneg

theorem floor_nearest {u : ℚ} (hu : 0 ≤ u) {j : ℤ} (hj : j ≠ ⌊u + 1 / 2⌋) :
    |u - ⌊u + 1 / 2⌋| < |u - j| ∨
      |u - ⌊u + 1 / 2⌋| = |u - j| ∧ |(j : ℚ)| < |(⌊u + 1 / 2⌋ : ℚ)| := by
  have hlow := Int.floor_le (u + 1 / 2)
  have hhigh := Int.lt_floor_add_one (u + 1 / 2)
  generalize ⌊u + 1 / 2⌋ = k at hj hlow hhigh ⊢
  have hdist : |u - k| ≤ 1 / 2 := abs_le.2 ⟨by linarith, by linarith⟩
  rcases lt_or_gt_of_ne hj with hlt | hgt
  · have hj1 : (j : ℚ) + 1 ≤ k := by exact_mod_cast hlt
    rw [abs_of_pos (show 0 < u - j by linarith)]
    rcases hdist.lt_or_eq with hstrict | htie
    · exact .inl (by linarith)
    · -- a tie is to the number below, which is not negative
      have hk : u - k = -(1 / 2) := by
        rcases eq_or_eq_neg_of_abs_eq htie with h | h
        · linarith
        · exact h
      rcases hj1.lt_or_eq with hbelow | hnext
      · exact .inl (by linarith)
      · have hj0 : (0 : ℚ) ≤ j := by
          have hj' : ((-1 : ℤ) : ℚ) < j := by push_cast; linarith
          have hj'' : -1 < j := by exact_mod_cast hj'
          exact_mod_cast (show 0 ≤ j by omega)
        refine .inr ⟨by linarith, ?_⟩
        rw [abs_of_nonneg hj0, abs_of_nonneg (by linarith)]
        linarith
  · have hj1 : (k : ℚ) + 1 ≤ j := by exact_mod_cast hgt
    refine .inl ?_
    rw [abs_of_neg (show u - j < 0 by linarith)]
    linarith

theorem nearestDecimal_floor {x : ℚ} (hx : 0 ≤ x) :
    NearestDecimal x (⌊x * 10 ^ 10 + 1 / 2⌋ / 10 ^ 10) := by
  refine ⟨⌊x * 10 ^ 10 + 1 / 2⌋, rfl, fun j hj => ?_⟩
  have hpow : (0 : ℚ) < 10 ^ 10 := by positivity
  have hscale (z : ℤ) : |x - z / 10 ^ 10| = |x * 10 ^ 10 - z| / 10 ^ 10 := by
    rw [← abs_of_pos hpow, ← abs_div, abs_of_pos hpow, sub_div, mul_div_cancel_right₀ _ hpow.ne']
  have hnearest := floor_nearest (show 0 ≤ x * 10 ^ 10 by positivity) hj
  rwa [hscale, hscale, abs_div, abs_div, abs_of_pos hpow, div_lt_div_iff_of_pos_right hpow,
    div_left_inj' hpow.ne', div_lt_div_iff_of_pos_right hpow]

theorem NearestDecimal.eq_of_exact {x y : ℚ} (h : NearestDecimal x y) {k : ℤ}
    (hk : x * 10 ^ 10 = k) : y = x := by
  have hx : x = k / 10 ^ 10 := by
    rw [← hk, mul_div_cancel_right₀ _ (by positivity)]
  obtain ⟨i, rfl, hnearest⟩ := h
  by_cases hi : k = i
  · rw [hx, hi]
  · rcases hnearest k hi with hlt | ⟨heq, -⟩
    · rw [← hx, sub_self, abs_zero] at hlt
      exact absurd hlt (not_lt.2 (abs_nonneg _))
    · rw [← hx, sub_self, abs_zero, abs_eq_zero, sub_eq_zero] at heq
      exact heq.symm

theorem rounded_quotient {N D : ℕ} (hD : 0 < D) :
    ((N / D : ℕ) + ((N % D * 10 ^ 10 * 2 + D) / (D * 2) : ℕ) / 10 ^ 10 : ℚ) =
      ⌊(N / D : ℚ) * 10 ^ 10 + 1 / 2⌋ / 10 ^ 10 := by
  have hD' : (D : ℚ) ≠ 0 := by exact_mod_cast hD.ne'
  have hsplit : (N : ℚ) = D * (N / D : ℕ) + (N % D : ℕ) := by
    exact_mod_cast (Nat.div_add_mod N D).symm
  generalize N / D = q at hsplit ⊢
  generalize N % D = r at hsplit ⊢
  have heq : (N / D : ℚ) * 10 ^ 10 + 1 / 2 = ((q * 10 ^ 10 : ℕ) : ℤ) +
      ((r * 10 ^ 10 * 2 + D : ℕ) : ℚ) / ((D * 2 : ℕ) : ℚ) := by
    rw [hsplit]
    push_cast
    field_simp
    ring
  have hfloor : ⌊(N / D : ℚ) * 10 ^ 10 + 1 / 2⌋ =
      ((q * 10 ^ 10 + (r * 10 ^ 10 * 2 + D) / (D * 2) : ℕ) : ℤ) := by
    rw [heq, Int.floor_intCast_add, Rat.floor_natCast_div_natCast]
    rfl
  rw [hfloor, Int.cast_natCast, Nat.cast_add, Nat.cast_mul, add_div]
  congr 1
  rw [Nat.cast_pow, Nat.cast_ofNat, mul_div_cancel_right₀ _ (by positivity)]

def IsPowerOfTen (d : ℕ) : Prop := ∃ e, d = 10 ^ e

/-- The number is the fraction where the denominator is a power of ten, and else the nearest with
ten decimals. -/
theorem Amount.toDecimalNumber_spec (n : ℤ) {d : ℤ} (hd : d ≠ 0) :
    (IsPowerOfTen d.natAbs → toDecimalNumber ⟨n, d⟩ = n / d) ∧
      (¬IsPowerOfTen d.natAbs → NearestDecimal (n / d) (toDecimalNumber ⟨n, d⟩)) := by
  have hD : 0 < d.natAbs := by omega
  have hD' : (d.natAbs : ℚ) ≠ 0 := by exact_mod_cast hD.ne'
  by_cases hn : n = 0
  · subst hn
    have hzero : toDecimalNumber ⟨0, d⟩ = 0 := by simp [toDecimalNumber]
    rw [hzero, Int.cast_zero, zero_div]
    refine ⟨fun _ => rfl, fun _ => ?_⟩
    have hnearest := nearestDecimal_floor (le_refl (0 : ℚ))
    rwa [hnearest.eq_of_exact (k := 0) (by simp)] at hnearest
  have hne : ¬(d.natAbs = 0 ∨ n.natAbs = 0) := by omega
  have hsplit : (n.natAbs : ℚ) = d.natAbs * (n.natAbs / d.natAbs : ℕ) + (n.natAbs % d.natAbs : ℕ) := by
    exact_mod_cast (Nat.div_add_mod n.natAbs d.natAbs).symm
  have hwhole : n.natAbs % d.natAbs = 0 →
      ((n.natAbs / d.natAbs : ℕ) : ℚ) = n.natAbs / d.natAbs := by
    intro hzero
    rw [hzero, Nat.cast_zero, add_zero] at hsplit
    rw [hsplit, mul_div_cancel_left₀ _ hD']
  have hsign : (n / d : ℚ) = (if n < 0 ↔ d < 0 then 1 else -1) * (n.natAbs / d.natAbs : ℚ) := by
    rw [Nat.cast_natAbs, Nat.cast_natAbs, Int.cast_abs, Int.cast_abs, ← abs_div]
    have hneg := div_neg_iff_signs hn hd
    by_cases hsame : n < 0 ↔ d < 0
    · rw [if_pos hsame, one_mul, abs_of_nonneg (not_lt.1 fun h => hneg.1 h hsame)]
    · rw [if_neg hsame, abs_of_neg (hneg.2 hsame), neg_mul_neg, one_mul]
  have hsigned {x y : ℚ} (h : NearestDecimal x y) : NearestDecimal
      ((if n < 0 ↔ d < 0 then 1 else -1) * x) ((if n < 0 ↔ d < 0 then 1 else -1) * y) := by
    by_cases hsame : n < 0 ↔ d < 0
    · simpa [hsame] using h
    · simpa [hsame] using h.neg
  unfold toDecimalNumber
  dsimp only
  rw [if_neg hne, hsign]
  constructor
  · rintro ⟨e, he⟩
    rw [(powerOfTenExponent_eq_some_iff hD).2 he]
    by_cases hzero : n.natAbs % d.natAbs = 0
    · rw [if_pos hzero, hwhole hzero]
    · rw [if_neg hzero]
      dsimp only
      rw [hsplit, he, Nat.cast_pow, Nat.cast_ofNat]
      congr 1
      field_simp
  · intro hpow
    have hnone : powerOfTenExponent d.natAbs = none := by
      rw [Option.eq_none_iff_forall_ne_some]
      exact fun e he => hpow ⟨e, (powerOfTenExponent_eq_some_iff hD).1 he⟩
    have hnearest := nearestDecimal_floor (show (0 : ℚ) ≤ n.natAbs / d.natAbs by positivity)
    rw [← rounded_quotient hD] at hnearest
    by_cases hzero : n.natAbs % d.natAbs = 0
    · have hhalf : (0 * 10 ^ 10 * 2 + d.natAbs) / (d.natAbs * 2) = 0 :=
        Nat.div_eq_of_lt (by omega)
      rw [hzero, hhalf, Nat.cast_zero, zero_div, add_zero] at hnearest
      rw [if_pos hzero]
      exact hsigned hnearest
    · rw [if_neg hzero, hnone]
      exact hsigned hnearest

/-- The text of a fraction is a decimal, whose sign is that of the fraction and whose number is the
fraction, where ten decimals or a power of ten can hold it, and else the nearest with ten. -/
theorem toDecimal_spec (n : ℤ) {d : ℤ} (hd : d ≠ 0) :
    ∃ t, readDecimalText (String.ofList (toDecimal n d)) = some t ∧
      (IsPowerOfTen d.natAbs ∨ (∃ k : ℤ, (n / d : ℚ) * 10 ^ 10 = k) → t.value = n / d) ∧
      (¬IsPowerOfTen d.natAbs → NearestDecimal (n / d) t.value) ∧
      (t.negative = true ↔ (n / d : ℚ) < 0) ∧
      (t.negative = true → t.value = 0 → (n / d : ℚ) ≠ 0 ∧ NearestDecimal (n / d) 0) := by
  obtain ⟨t, ht, hneg, hvalue⟩ := readDecimalText_toDecimal n hd
  obtain ⟨hexact, hnearest⟩ := Amount.toDecimalNumber_spec n hd
  rw [← hvalue] at hexact hnearest
  refine ⟨t, ht, fun h => ?_, hnearest, hneg, fun hminus hzero => ?_⟩
  · by_cases hpow : IsPowerOfTen d.natAbs
    · exact hexact hpow
    · obtain ⟨k, hk⟩ := h.resolve_left hpow
      exact (hnearest hpow).eq_of_exact hk
  · have hne := (hneg.1 hminus).ne
    refine ⟨hne, hzero ▸ hnearest fun hpow => hne ?_⟩
    rw [← hexact hpow, hzero]

theorem toDecimal_spec_neg_third :
    ∃ t, readDecimalText (String.ofList (toDecimal (-1) 3)) = some t ∧
      (IsPowerOfTen 3 ∨ (∃ k : ℤ, ((-1 : ℤ) / (3 : ℤ) : ℚ) * 10 ^ 10 = k) →
        t.value = (-1 : ℤ) / (3 : ℤ)) ∧
      (¬IsPowerOfTen 3 → NearestDecimal ((-1 : ℤ) / (3 : ℤ)) t.value) ∧
      (t.negative = true ↔ ((-1 : ℤ) / (3 : ℤ) : ℚ) < 0) ∧
      (t.negative = true → t.value = 0 →
        ((-1 : ℤ) / (3 : ℤ) : ℚ) ≠ 0 ∧ NearestDecimal ((-1 : ℤ) / (3 : ℤ)) 0) :=
  toDecimal_spec (-1) (by decide)

end Ledger
