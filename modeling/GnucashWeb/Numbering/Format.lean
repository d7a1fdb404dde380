import GnucashWeb.Lib.Text

/-!
# Document numbers

The number after the existing ones, and the text of a number.  Distinct numbers have distinct
texts (`formatInvoiceId_inj`).
-/

namespace Numbering

open Text

/-- The number of an identifier that is a plain numeral, leading zeros allowed. -/
def numericId (id : List Char) : Option ℕ := readDecimal id

def nextIdFromExisting (existingIds : List (List Char)) : ℕ :=
  (existingIds.filterMap numericId).foldl max 0 + 1

/-- `padStart`: a text filled up in front. -/
def padStart (width : ℕ) (fill : Char) (cs : List Char) : List Char :=
  List.replicate (width - cs.length) fill ++ cs

def formatInvoiceId (n : ℤ) : List Char := padStart 6 '0' (intDigits n)

theorem ofDigitChars_padStart (width n : ℕ) :
    Nat.ofDigitChars 10 (padStart width '0' (natDigits n)) 0 = n := by
  have hzeros : ∀ (z : ℕ) (cs : List Char),
      Nat.ofDigitChars 10 (List.replicate z '0' ++ cs) 0 = Nat.ofDigitChars 10 cs 0 := by
    intro z cs
    induction z with
    | zero => rfl
    | succ z ih =>
      rw [List.replicate_succ, List.cons_append, Nat.ofDigitChars_cons]
      exact ih
  rw [padStart, hzeros]
  exact Nat.ofDigitChars_ten_toDigits

theorem minus_notMem_natDigits (n : ℕ) : '-' ∉ natDigits n := fun h => by
  simpa using isDigit_of_mem_natDigits h

theorem minus_notMem_replicate (z : ℕ) : '-' ∉ List.replicate z '0' := by
  rw [List.mem_replicate]
  exact fun h => absurd h.2 (by decide)

theorem formatInvoiceId_inj {m n : ℤ} (h : formatInvoiceId m = formatInvoiceId n) : m = n := by
  have hnat : ∀ k : ℕ, '-' ∉ formatInvoiceId k := fun k => by
    rw [formatInvoiceId, padStart, List.mem_append, not_or]
    exact ⟨minus_notMem_replicate _, minus_notMem_natDigits k⟩
  have hneg : ∀ k : ℕ, '-' ∈ formatInvoiceId (.negSucc k) := fun k => by
    rw [formatInvoiceId, padStart, intDigits]
    simp
  cases m with
  | ofNat m =>
    cases n with
    | ofNat n =>
      have hval := congrArg (fun cs => Nat.ofDigitChars 10 cs 0) h
      simp only [formatInvoiceId, intDigits, ofDigitChars_padStart] at hval
      rw [hval]
    | negSucc n => exact absurd (h ▸ hneg n) (hnat m)
  | negSucc m =>
    cases n with
    | ofNat n => exact absurd (h ▸ hneg m) (hnat n)
    | negSucc n =>
      -- the digits stand after the only sign
      have hdrop : ∀ k, (formatInvoiceId (.negSucc k)).dropWhile (· ≠ '-') =
          '-' :: natDigits (k + 1) := fun k => by
        rw [formatInvoiceId, padStart, intDigits, List.dropWhile_append_of_pos]
        · simp
        · intro c hc
          have := (List.mem_replicate.1 hc).2
          simp [this]
      have htail := congrArg (List.dropWhile (· ≠ '-')) h
      rw [hdrop, hdrop, List.cons.injEq] at htail
      have hval := congrArg (fun cs => Nat.ofDigitChars 10 cs 0) htail.2
      simp only [natDigits, Nat.ofDigitChars_ten_toDigits] at hval
      omega

end Numbering
