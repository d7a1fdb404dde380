import GnucashWeb.Ledger.Book
import GnucashWeb.Lib.Text

/-!
# Units of a commodity

A reconciliation counts in units of the account's commodity, whose number per commodity is a power
of ten.  A balance given as a decimal text and a split's quantity are converted to units exactly, or
refused.
-/

open Ledger (Amount)

namespace Reconcile

inductive Failure
  | scuNotPowerOfTen
  | endingBalanceNotDecimal
  | endingBalanceTooPrecise (places : ℕ)
  | splitNotRepresentable
  | reconciledSplitNotRepresentable
  | splitsNotFound (missing : List String)
  | wrongAccount (splitGuids : List String)
  | alreadyReconciled (splitGuids : List String)
  | postedAfterStatement (splitGuids : List String)
  | differenceNotZero (differenceUnits : ℤ)
  | noCommodityOrBookRoot
  | shareAdjustment
  /-- An error of the database: a missing parent row, a key that is there, a number out of range. -/
  | database
deriving DecidableEq, Repr

/-! ## The units of a commodity -/

/-- The loop of `decimalPlacesForScu`, which divides by ten while it can. -/
def decimalPlacesFrom : ℕ → ℤ → ℕ → Option ℕ
  | 0, _, _ => none
  | fuel + 1, value, places =>
    if 1 < value ∧ value % 10 = 0 then decimalPlacesFrom fuel (value / 10) (places + 1)
    else if value = 1 then some places
    else none

def decimalPlacesForScu (scu : ℤ) : Except Failure ℕ :=
  match decimalPlacesFrom (scu.toNat + 1) scu 0 with
  | some places => .ok places
  | none => .error .scuNotPowerOfTen

theorem decimalPlacesFrom_pow {fuel k places : ℕ} (h : k < fuel) :
    decimalPlacesFrom fuel (10 ^ k) places = some (places + k) := by
  induction k generalizing fuel places with
  | zero =>
    obtain ⟨fuel, rfl⟩ : ∃ n, fuel = n + 1 := ⟨fuel - 1, by omega⟩
    simp [decimalPlacesFrom]
  | succ k ih =>
    obtain ⟨fuel, rfl⟩ : ∃ n, fuel = n + 1 := ⟨fuel - 1, by omega⟩
    have hpos : (1 : ℤ) ≤ 10 ^ k := one_le_pow₀ (by decide)
    have hone : (1 : ℤ) < 10 ^ (k + 1) := by rw [pow_succ]; omega
    have hmod : (10 : ℤ) ^ (k + 1) % 10 = 0 := by rw [pow_succ]; omega
    have hdiv : (10 : ℤ) ^ (k + 1) / 10 = 10 ^ k := by rw [pow_succ]; omega
    rw [decimalPlacesFrom, if_pos ⟨hone, hmod⟩, hdiv, ih (by omega)]
    congr 1
    omega

theorem eq_pow_of_decimalPlacesFrom {fuel : ℕ} {value : ℤ} {places p : ℕ}
    (h : decimalPlacesFrom fuel value places = some p) :
    ∃ k, p = places + k ∧ value = 10 ^ k := by
  induction fuel generalizing value places with
  | zero => cases h
  | succ fuel ih =>
    rw [decimalPlacesFrom] at h
    split at h
    · next hten =>
        obtain ⟨k, hp, hk⟩ := ih h
        refine ⟨k + 1, by omega, ?_⟩
        rw [pow_succ, ← hk]
        omega
    · split at h
      · next hone => exact ⟨0, by cases h; rfl, by simpa using hone⟩
      · cases h

theorem decimalPlacesForScu_eq_ok_iff {scu : ℤ} {p : ℕ} :
    decimalPlacesForScu scu = .ok p ↔ scu = 10 ^ p := by
  rw [decimalPlacesForScu]
  constructor
  · intro h
    split at h
    · next places hplaces =>
        cases h
        obtain ⟨k, hp, hk⟩ := eq_pow_of_decimalPlacesFrom hplaces
        rwa [hp, Nat.zero_add]
    · cases h
  · rintro rfl
    have hlt : p < ((10 : ℤ) ^ p).toNat + 1 := by
      have hp : p < 10 ^ p := Nat.lt_pow_self (by decide)
      have hcast : ((10 : ℤ) ^ p).toNat = 10 ^ p := by
        rw [show (10 : ℤ) ^ p = ((10 ^ p : ℕ) : ℤ) by push_cast; rfl, Int.toNat_natCast]
      omega
    rw [decimalPlacesFrom_pow hlt, Nat.zero_add]

/-! ## Balances -/

def digitsValue (cs : List Char) : ℕ := Nat.ofDigitChars 10 cs 0

/-- A balance text: a sign, and the digits before and after the point. -/
structure DecimalText where
  negative : Bool
  whole : List Char
  fraction : List Char
deriving DecidableEq, Repr

/-- Read a text that matches `^-?\d+(?:\.\d+)?$`. -/
def readDecimalText (text : String) : Option DecimalText :=
  let cs := text.toList
  let negative : Bool := cs.head? = some '-'
  let digits (ds : List Char) : Bool := ds ≠ [] && ds.all Char.isDigit
  match Text.split '.' (if negative then cs.tail else cs) with
  | [whole] => if digits whole then some ⟨negative, whole, []⟩ else none
  | [whole, fraction] =>
    if digits whole && digits fraction then some ⟨negative, whole, fraction⟩ else none
  | _ => none

def DecimalText.value (t : DecimalText) : ℚ :=
  (if t.negative then -1 else 1) *
    (digitsValue t.whole + digitsValue t.fraction / 10 ^ t.fraction.length)

def decimalToUnits (text : String) (scu : ℤ) : Except Failure ℤ := do
  let places ← decimalPlacesForScu scu
  match readDecimalText text with
  | none => throw .endingBalanceNotDecimal
  | some t =>
    if places < t.fraction.length then throw (.endingBalanceTooPrecise places)
    else
      let units := digitsValue t.whole * scu +
        digitsValue ((t.fraction ++ List.replicate places '0').take places)
      pure (if t.negative then -units else units)

theorem digitsValue_padded {ds : List Char} {places : ℕ} (h : ds.length ≤ places) :
    digitsValue ((ds ++ List.replicate places '0').take places) =
      digitsValue ds * 10 ^ (places - ds.length) := by
  rw [List.take_append, List.take_of_length_le h, List.take_replicate,
    min_eq_left (Nat.sub_le _ _), digitsValue, Nat.ofDigitChars_append,
    Nat.ofDigitChars_replicate_zero, digitsValue, mul_comm]

theorem decimalToUnits_exact {text : String} {scu units : ℤ}
    (h : decimalToUnits text scu = .ok units) :
    ∃ t, readDecimalText text = some t ∧ (units : ℚ) = t.value * scu := by
  obtain ⟨places, hplaces, h⟩ := Transact.except_bind_eq_ok.1 h
  have hscu := decimalPlacesForScu_eq_ok_iff.1 hplaces
  cases ht : readDecimalText text with
  | none =>
    rw [ht] at h
    cases h
  | some t =>
    rw [ht] at h
    refine ⟨t, rfl, ?_⟩
    dsimp only at h
    split at h
    · cases h
    · next hlen =>
        rw [not_lt] at hlen
        have hpow : (10 : ℚ) ^ places =
            10 ^ (places - t.fraction.length) * 10 ^ t.fraction.length := by
          rw [← pow_add, Nat.sub_add_cancel hlen]
        have hne : (10 : ℚ) ^ t.fraction.length ≠ 0 := pow_ne_zero _ (by norm_num)
        have hunits : ((digitsValue t.whole * scu +
            digitsValue ((t.fraction ++ List.replicate places '0').take places) : ℤ) : ℚ) =
            (digitsValue t.whole + digitsValue t.fraction / 10 ^ t.fraction.length) * scu := by
          rw [digitsValue_padded hlen, hscu]
          push_cast
          rw [hpow]
          field_simp
        have hok := Except.ok.inj h
        rw [← hok, DecimalText.value]
        split
        · rw [Int.cast_neg, hunits]
          ring
        · rw [hunits]
          ring

/-- A quantity in units; the remainder and the quotient are those of `bigint`. -/
def splitToUnits (quantity : Amount) (scu : ℤ) : Except Failure ℤ :=
  if quantity.denom = 0 ∨ (quantity.num * scu).tmod quantity.denom ≠ 0 then
    .error .splitNotRepresentable
  else .ok ((quantity.num * scu).tdiv quantity.denom)

theorem tdiv_exact {n d : ℤ} (hd : d ≠ 0) (h : n.tmod d = 0) : ((n.tdiv d : ℤ) : ℚ) = n / d := by
  have hmul : d * n.tdiv d = n := by
    have hdiv := Int.mul_tdiv_add_tmod n d
    rwa [h, add_zero] at hdiv
  have hcast : (d : ℚ) ≠ 0 := Int.cast_ne_zero.2 hd
  rw [eq_div_iff hcast, mul_comm]
  exact_mod_cast hmul

theorem splitToUnits_exact {quantity : Amount} {scu units : ℤ}
    (h : splitToUnits quantity scu = .ok units) : (units : ℚ) = quantity.exact * scu := by
  unfold splitToUnits at h
  split at h
  · cases h
  · next hnot =>
      rw [not_or, not_not] at hnot
      rw [← Except.ok.inj h, tdiv_exact hnot.1 hnot.2, Amount.exact]
      push_cast
      ring

end Reconcile
