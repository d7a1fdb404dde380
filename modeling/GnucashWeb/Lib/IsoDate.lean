import GnucashWeb.Lib.Civil
import Mathlib.Data.Char
import Mathlib.Data.List.Lex
import Mathlib.Tactic.Linarith

/-!
# The first ten characters of an ISO date

`isoText` is the text that `toISOString().slice(0, 10)` gives for a day.  Texts of days in years of
four digits compare as the days do (`isoText_lt_iff`), and the text of any other day comes before
them.
-/

namespace Civil

/-! ## Padded numbers -/

/-- The last `w` decimal digits of a number. -/
def digits : ℕ → ℕ → List Char
  | 0, _ => []
  | w + 1, n => digits w (n / 10) ++ [Nat.digitChar (n % 10)]

theorem toNat_digitChar {n : ℕ} (h : n < 10) : (Nat.digitChar n).toNat = 48 + n :=
  Nat.toNat_digitChar_of_lt_ten h

theorem digitChar_lt_iff {m n : ℕ} (hm : m < 10) (hn : n < 10) :
    Nat.digitChar m < Nat.digitChar n ↔ m < n := by
  rw [Char.lt_def, UInt32.lt_iff_toNat_lt]
  change (Nat.digitChar m).toNat < (Nat.digitChar n).toNat ↔ _
  rw [toNat_digitChar hm, toNat_digitChar hn]
  omega

theorem digitChar_eq_iff {m n : ℕ} (hm : m < 10) (hn : n < 10) :
    Nat.digitChar m = Nat.digitChar n ↔ m = n := by
  constructor
  · intro h
    have hnat := congrArg Char.toNat h
    rw [toNat_digitChar hm, toNat_digitChar hn] at hnat
    omega
  · exact fun h => h ▸ rfl

theorem digits_append_lt_iff {w m n : ℕ} (hm : m < 10 ^ w) (hn : n < 10 ^ w) {s t : List Char} :
    digits w m ++ s < digits w n ++ t ↔ m < n ∨ m = n ∧ s < t := by
  induction w generalizing m n s t with
  | zero =>
    have hm0 : m = 0 := by simpa using hm
    have hn0 : n = 0 := by simpa using hn
    simp [digits, hm0, hn0]
  | succ w ih =>
    rw [pow_succ] at hm hn
    have hlt := digitChar_lt_iff (Nat.mod_lt m (by omega : 10 > 0)) (Nat.mod_lt n (by omega : 10 > 0))
    have heq := digitChar_eq_iff (Nat.mod_lt m (by omega : 10 > 0)) (Nat.mod_lt n (by omega : 10 > 0))
    rw [digits, digits, List.append_assoc, List.append_assoc,
      ih (by omega) (by omega), List.singleton_append, List.singleton_append,
      List.cons_lt_cons_iff, hlt, heq]
    constructor
    · rintro (h | ⟨h, h' | ⟨h', hst⟩⟩)
      · exact .inl (by omega)
      · exact .inl (by omega)
      · exact .inr ⟨by omega, hst⟩
    · rintro (h | ⟨rfl, hst⟩)
      · by_cases hdiv : m / 10 < n / 10
        · exact .inl hdiv
        · exact .inr ⟨by omega, .inl (by omega)⟩
      · exact .inr ⟨rfl, .inr ⟨rfl, hst⟩⟩

theorem head_digits {w n : ℕ} : ∃ d < 10, ∃ rest, digits (w + 1) n = Nat.digitChar d :: rest := by
  induction w generalizing n with
  | zero => exact ⟨n % 10, Nat.mod_lt n (by omega), [], rfl⟩
  | succ w ih =>
    obtain ⟨d, hd, rest, hrest⟩ := @ih (n / 10)
    exact ⟨d, hd, rest ++ [Nat.digitChar (n % 10)], by rw [digits, hrest, List.cons_append]⟩

/-! ## Dates -/

/-- Whether the year of a day has four digits in an ISO text. -/
def FourDigit (day : ℤ) : Prop := 0 ≤ getFullYear day ∧ getFullYear day ≤ 9999

instance (day : ℤ) : Decidable (FourDigit day) := inferInstanceAs (Decidable (_ ∧ _))

/-- `-MM-DD`. -/
def monthDayText (day : ℤ) : List Char :=
  '-' :: (digits 2 (getMonth day + 1).toNat ++ '-' :: digits 2 (getDate day).toNat)

def isoText (day : ℤ) : List Char :=
  if FourDigit day then digits 4 (getFullYear day).toNat ++ monthDayText day
  else
    ((if 0 ≤ getFullYear day then '+' else '-') ::
      (digits 6 (getFullYear day).natAbs ++ monthDayText day)).take 10

theorem lt_iff_fields (d e : ℤ) :
    d < e ↔ monthIndex d < monthIndex e ∨ monthIndex d = monthIndex e ∧ getDate d < getDate e := by
  have hlater {d e : ℤ} (h : monthIndex d < monthIndex e) : d < e := by
    have hd := dateIn_getDate d
    have he := dateIn_getDate e
    have hd' := getDate_mem_lengthOf d
    have he' := getDate_mem_lengthOf e
    have hnext := dateIn_succ (monthIndex d)
    have hle := dateIn_add_le (show monthIndex d + 1 ≤ monthIndex e by omega)
    have h₁ := dateIn_add (monthIndex d) 1 (getDate d - 1)
    have h₂ := dateIn_add (monthIndex d) 1 (lengthOf (monthIndex d))
    have h₃ := dateIn_add (monthIndex e) 1 (getDate e - 1)
    rw [show 1 + (getDate d - 1) = getDate d by omega, hd] at h₁
    rw [show 1 + (getDate e - 1) = getDate e by omega, he] at h₃
    rw [show 1 + lengthOf (monthIndex d) = lengthOf (monthIndex d) + 1 by omega, ← hnext] at h₂
    omega
  have hsame (h : monthIndex d = monthIndex e) : d - e = getDate d - getDate e := by
    have h₁ := dateIn_add (monthIndex d) (getDate e) (getDate d - getDate e)
    rw [show getDate e + (getDate d - getDate e) = getDate d by omega, dateIn_getDate, h,
      dateIn_getDate] at h₁
    omega
  rcases lt_trichotomy (monthIndex d) (monthIndex e) with h | h | h
  · exact iff_of_true (hlater h) (.inl h)
  · have := hsame h
    omega
  · have := hlater h
    omega

theorem isoText_lt_iff {d e : ℤ} (hd : FourDigit d) (he : FourDigit e) :
    isoText d < isoText e ↔ d < e := by
  have hmd := getMonth_mem d
  have hme := getMonth_mem e
  have hdd := getDate_mem_lengthOf d
  have hde := getDate_mem_lengthOf e
  have hld := lengthOf_bounds (monthIndex d)
  have hle := lengthOf_bounds (monthIndex e)
  obtain ⟨hd₀, hd₁⟩ := hd
  obtain ⟨he₀, he₁⟩ := he
  rw [isoText, isoText, if_pos ⟨hd₀, hd₁⟩, if_pos ⟨he₀, he₁⟩, monthDayText, monthDayText,
    digits_append_lt_iff (by omega) (by omega), List.cons_lt_cons_iff,
    digits_append_lt_iff (by omega) (by omega), List.cons_lt_cons_iff, ← List.append_nil (digits 2 _),
    ← List.append_nil (digits 2 (getDate e).toNat), digits_append_lt_iff (by omega) (by omega),
    lt_iff_fields]
  have hdash : ¬ '-' < '-' := by decide
  have hnil : ¬([] : List Char) < [] := List.not_lt_nil _
  simp only [hdash, hnil, false_or, true_and, and_false, or_false]
  unfold monthIndex
  omega

/-- The text of a day in a year of more digits, or before year 0, comes before the others. -/
theorem isoText_lt_of_not_fourDigit {d e : ℤ} (hd : ¬FourDigit d) (he : FourDigit e) :
    isoText d < isoText e := by
  obtain ⟨c, hc, rest, hrest⟩ := @head_digits 3 (getFullYear e).toNat
  rw [isoText, isoText, if_neg hd, if_pos he, hrest, List.take_succ_cons, List.cons_append,
    List.cons_lt_cons_iff]
  left
  rw [Char.lt_def, UInt32.lt_iff_toNat_lt]
  change _ < (Nat.digitChar c).toNat
  rw [toNat_digitChar hc]
  split
  · change 43 < 48 + c
    omega
  · change 45 < 48 + c
    omega

theorem isoText_inj {d e : ℤ} (hd : FourDigit d) (h : isoText d = isoText e) : d = e := by
  have hirrefl : ¬isoText d < isoText d := List.lt_irrefl _
  by_cases he : FourDigit e
  · have hde := isoText_lt_iff hd he
    have hed := isoText_lt_iff he hd
    rw [← h] at hde hed
    have := mt hde.2 hirrefl
    have := mt hed.2 hirrefl
    omega
  · have hlt := isoText_lt_of_not_fourDigit he hd
    rw [← h] at hlt
    exact absurd hlt hirrefl

theorem isoText_le_iff {d e : ℤ} (hd : FourDigit d) (he : FourDigit e) :
    isoText d ≤ isoText e ↔ d ≤ e := by
  rw [← not_lt, isoText_lt_iff he hd, not_lt]

theorem fourDigit_of_mem {a b d : ℤ} (ha : FourDigit a) (hb : FourDigit b) (had : a ≤ d)
    (hdb : d ≤ b) : FourDigit d :=
  ⟨ha.1.trans (getFullYear_mono had), (getFullYear_mono hdb).trans hb.2⟩

@[simp] theorem length_digits (w n : ℕ) : (digits w n).length = w := by
  induction w generalizing n with
  | zero => rfl
  | succ w ih => simp [digits, ih]

theorem length_isoText (d : ℤ) : (isoText d).length = 10 := by
  unfold isoText monthDayText
  split <;> simp

end Civil
