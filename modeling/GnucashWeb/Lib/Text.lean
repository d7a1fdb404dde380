import Mathlib.Data.Int.Notation
import Mathlib.Data.Nat.Notation
import Mathlib.Data.List.Basic
import Mathlib.Data.List.DropRight
import Mathlib.Tactic.Common

/-!
# Text primitives of the host language

The string operations the program uses, over lists of characters: white space trimming, splitting
at a separator, the `BigInt` reader and the search for a text in another.  The main results are
`bigInt_intDigits` (the reader inverts the decimal writer) and `infix_append_cons_iff`.
-/

namespace Text

/-- A property of the characters of a text is decided by going through them. -/
instance (priority := 2000) decidableForallMem (p : Char → Prop) [DecidablePred p]
    (cs : List Char) : Decidable (∀ c ∈ cs, p c) := List.decidableBAll p cs

instance (priority := 2000) decidableForallMemHead (p : Char → Prop) [DecidablePred p] :
    (head : Option Char) → Decidable (∀ c ∈ head, p c)
  | none => isTrue (by simp)
  | some c => decidable_of_iff (p c) (by simp)

/-- Membership in a list of texts is decided through this instance. -/
instance lawfulBEqChars : LawfulBEq (List Char) := inferInstance

/-! ## White space -/

/-- The white space and line terminators that `trim` removes and that `\s` matches. -/
def isSpace (c : Char) : Bool :=
  c.toNat ∈ [0x09, 0x0A, 0x0B, 0x0C, 0x0D, 0x20, 0xA0, 0x1680, 0x2028, 0x2029, 0x202F, 0x205F,
    0x3000, 0xFEFF] || (0x2000 ≤ c.toNat && c.toNat ≤ 0x200A)

/-- `trim`: white space removed at both ends. -/
def trim (cs : List Char) : List Char :=
  ((cs.dropWhile isSpace).reverse.dropWhile isSpace).reverse

variable {cs : List Char} {c : Char}

theorem dropWhile_isSpace_eq (h : ∀ c ∈ cs.head?, isSpace c = false) :
    cs.dropWhile isSpace = cs := by
  cases cs with
  | nil => rfl
  | cons c cs => simp [h c (by simp)]

theorem trim_eq (hh : ∀ c ∈ cs.head?, isSpace c = false)
    (hl : ∀ c ∈ cs.getLast?, isSpace c = false) : trim cs = cs := by
  unfold trim
  rw [dropWhile_isSpace_eq hh, dropWhile_isSpace_eq (by simpa using hl), List.reverse_reverse]

theorem trim_eq_of_forall (h : ∀ c ∈ cs, isSpace c = false) : trim cs = cs :=
  trim_eq (fun c hc => h c (List.mem_of_mem_head? hc))
    (fun c hc => h c (List.mem_of_mem_getLast? hc))

theorem trim_trim (cs : List Char) : trim (trim cs) = trim cs := by
  have hpre : trim cs <+: cs.dropWhile isSpace := List.rdropWhile_prefix ..
  have hdrop : (trim cs).dropWhile isSpace = trim cs := by
    refine dropWhile_isSpace_eq fun c hc => ?_
    obtain ⟨t, ht⟩ := List.head?_eq_some_iff.1 hc
    obtain ⟨r, hr⟩ := hpre
    have hnot := List.head?_dropWhile_not isSpace cs
    rwa [← hr, ht] at hnot
  change List.rdropWhile isSpace ((trim cs).dropWhile isSpace) = trim cs
  rw [hdrop]
  exact List.rdropWhile_idempotent ..

theorem filter_dropWhile_isSpace {p : Char → Bool} (hp : ∀ c, isSpace c = true → p c = false)
    (cs : List Char) : (cs.dropWhile isSpace).filter p = cs.filter p := by
  induction cs with
  | nil => rfl
  | cons c cs ih =>
    rw [List.dropWhile_cons]
    split
    · rename_i hc
      rw [ih, List.filter_cons_of_neg (by simp [hp c hc])]
    · rfl

theorem filter_trim {p : Char → Bool} (hp : ∀ c, isSpace c = true → p c = false)
    (cs : List Char) : (trim cs).filter p = cs.filter p := by
  rw [trim, List.filter_reverse, filter_dropWhile_isSpace hp, ← List.filter_reverse,
    List.reverse_reverse, filter_dropWhile_isSpace hp]

theorem trim_eq_nil_iff : trim cs = [] ↔ ∀ c ∈ cs, isSpace c = true := by
  rw [trim, List.reverse_eq_nil_iff, List.dropWhile_eq_nil_iff]
  constructor
  · intro h
    rw [← List.dropWhile_eq_nil_iff]
    by_contra hne
    have hhead := List.head_dropWhile_not isSpace hne
    rw [h _ (by simp)] at hhead
    cases hhead
  · intro h c hc
    exact h c ((List.dropWhile_suffix _).subset (List.mem_reverse.1 hc))

theorem dropWhile_append_isSpace {sp : List Char} (hsp : ∀ c ∈ sp, isSpace c = true)
    (cs : List Char) : (sp ++ cs).dropWhile isSpace = cs.dropWhile isSpace := by
  rw [List.dropWhile_append, List.dropWhile_eq_nil_iff.2 hsp]
  rfl

theorem trim_padded {sp sp' : List Char} (hsp : ∀ c ∈ sp, isSpace c = true)
    (hsp' : ∀ c ∈ sp', isSpace c = true) (cs : List Char) : trim (sp ++ cs ++ sp') = trim cs := by
  rw [List.append_assoc, trim, dropWhile_append_isSpace hsp, List.dropWhile_append]
  split
  · rename_i hnil
    rw [List.isEmpty_iff, List.dropWhile_eq_nil_iff] at hnil
    rw [trim_eq_nil_iff.2 hnil, List.dropWhile_eq_nil_iff.2 hsp']
    rfl
  · rw [List.reverse_append, dropWhile_append_isSpace (by simpa using hsp')]
    rfl

theorem trim_subset : trim cs ⊆ cs := by
  intro c hc
  rw [trim, List.mem_reverse] at hc
  exact (List.dropWhile_suffix _).subset
    (List.mem_reverse.1 ((List.dropWhile_suffix _).subset hc))

theorem head?_dropWhile_append (h : ∃ c ∈ cs, isSpace c = false)
    (rest : List Char) : ∃ c ∈ cs, ((cs ++ rest).dropWhile isSpace).head? = some c := by
  have hne : cs.dropWhile isSpace ≠ [] := by
    intro hnil
    obtain ⟨c, hc, hvisible⟩ := h
    rw [List.dropWhile_eq_nil_iff.1 hnil c hc] at hvisible
    cases hvisible
  obtain ⟨c, t, ht⟩ := List.exists_cons_of_ne_nil hne
  refine ⟨c, (List.dropWhile_suffix isSpace).subset (ht ▸ List.mem_cons_self), ?_⟩
  rw [List.dropWhile_append, ht]
  rfl

/-- A text that begins with text that is not white space is trimmed to text that begins there. -/
theorem head?_trim_append (h : ∃ c ∈ cs, isSpace c = false) (rest : List Char) :
    ∃ c ∈ cs, (trim (cs ++ rest)).head? = some c := by
  obtain ⟨c, hc, hhead⟩ := head?_dropWhile_append h rest
  refine ⟨c, hc, ?_⟩
  have hpre : trim (cs ++ rest) <+: (cs ++ rest).dropWhile isSpace := List.rdropWhile_prefix ..
  have hne : trim (cs ++ rest) ≠ [] := by
    obtain ⟨d, hd, hvisible⟩ := h
    intro hnil
    rw [trim_eq_nil_iff.1 hnil d (List.mem_append_left _ hd)] at hvisible
    cases hvisible
  obtain ⟨d, t, ht⟩ := List.exists_cons_of_ne_nil hne
  obtain ⟨r, hr⟩ := hpre
  rw [← hr, ht] at hhead
  rw [ht]
  exact hhead

/-- A text that ends with text that is not white space is trimmed to text that ends there. -/
theorem getLast?_trim_append (h : ∃ c ∈ cs, isSpace c = false)
    (rest : List Char) : ∃ c ∈ cs, (trim (rest ++ cs)).getLast? = some c := by
  obtain ⟨d, hd, hvisible⟩ := h
  have hsplit : ∃ pre post, (rest ++ cs).dropWhile isSpace = pre ++ post ∧ d ∈ post ∧ post ⊆ cs := by
    rw [List.dropWhile_append]
    split
    · refine ⟨[], _, rfl, ?_, (List.dropWhile_suffix isSpace).subset⟩
      rw [← List.takeWhile_append_dropWhile (p := isSpace) (l := cs), List.mem_append] at hd
      refine hd.resolve_left fun hmem => ?_
      rw [List.mem_takeWhile_imp hmem] at hvisible
      cases hvisible
    · exact ⟨_, cs, rfl, hd, fun _ => id⟩
  obtain ⟨pre, post, heq, hmem, hsub⟩ := hsplit
  obtain ⟨c, hc, hhead⟩ :=
    head?_dropWhile_append ⟨d, List.mem_reverse.2 hmem, hvisible⟩ pre.reverse
  refine ⟨c, hsub (List.mem_reverse.1 hc), ?_⟩
  rw [trim, heq, List.getLast?_reverse, List.reverse_append]
  exact hhead

/-! ## Reading integers -/

def readDecimal (cs : List Char) : Option ℕ :=
  if cs ≠ [] ∧ cs.all Char.isDigit then some (Nat.ofDigitChars 10 cs 0) else none

def digitValue (base : ℕ) (c : Char) : Option ℕ :=
  let v :=
    if c.isDigit then some (c.toNat - '0'.toNat)
    else if 'a' ≤ c ∧ c ≤ 'f' then some (c.toNat - 'a'.toNat + 10)
    else if 'A' ≤ c ∧ c ≤ 'F' then some (c.toNat - 'A'.toNat + 10)
    else none
  v.filter (· < base)

/-- The value of an unsigned literal in a base up to 16, without its prefix. -/
def readBase (base : ℕ) (cs : List Char) : Option ℕ :=
  if cs = [] then none
  else cs.foldlM (fun acc c => (digitValue base c).map (acc * base + ·)) 0

/-- The reader behind `BigInt(text)`: white space trimmed, the empty text zero, a prefix `0x`,
`0o` or `0b` without a sign, else decimal digits with an optional sign; anything else throws. -/
def bigInt (text : List Char) : Option ℤ :=
  match trim text with
  | [] => some 0
  | '-' :: cs => (readDecimal cs).map fun n : ℕ => -(n : ℤ)
  | '+' :: cs => (readDecimal cs).map fun n : ℕ => (n : ℤ)
  | '0' :: 'x' :: cs => (readBase 16 cs).map fun n : ℕ => (n : ℤ)
  | '0' :: 'X' :: cs => (readBase 16 cs).map fun n : ℕ => (n : ℤ)
  | '0' :: 'o' :: cs => (readBase 8 cs).map fun n : ℕ => (n : ℤ)
  | '0' :: 'O' :: cs => (readBase 8 cs).map fun n : ℕ => (n : ℤ)
  | '0' :: 'b' :: cs => (readBase 2 cs).map fun n : ℕ => (n : ℤ)
  | '0' :: 'B' :: cs => (readBase 2 cs).map fun n : ℕ => (n : ℤ)
  | cs => (readDecimal cs).map fun n : ℕ => (n : ℤ)

def natDigits (n : ℕ) : List Char := Nat.toDigits 10 n

/-- `toString` of a `bigint`. -/
def intDigits : ℤ → List Char
  | .ofNat n => natDigits n
  | .negSucc n => '-' :: natDigits (n + 1)

theorem bigInt_trim (text : List Char) : bigInt (trim text) = bigInt text := by
  unfold bigInt
  rw [trim_trim]

theorem isDigit_of_mem_natDigits {n : ℕ} (h : c ∈ natDigits n) : c.isDigit = true :=
  Nat.isDigit_of_mem_toDigits (by decide) (by decide) h

theorem natDigits_ne_nil (n : ℕ) : natDigits n ≠ [] := Nat.toDigits_ne_nil

theorem readDecimal_natDigits (n : ℕ) : readDecimal (natDigits n) = some n := by
  unfold readDecimal
  rw [if_pos ⟨natDigits_ne_nil n, List.all_eq_true.2 fun _ => isDigit_of_mem_natDigits⟩]
  exact congrArg some Nat.ofDigitChars_ten_toDigits

theorem isSpace_of_isDigit (h : c.isDigit = true) : isSpace c = false := by
  have hc : 48 ≤ c.toNat ∧ c.toNat ≤ 57 := by
    simpa [Char.isDigit, UInt32.le_iff_toNat_le] using h
  have hmem : c.toNat ∉ [0x09, 0x0A, 0x0B, 0x0C, 0x0D, 0x20, 0xA0, 0x1680, 0x2028, 0x2029, 0x202F,
      0x205F, 0x3000, 0xFEFF] := by
    simp only [List.mem_cons, List.not_mem_nil, or_false, not_or]
    omega
  unfold isSpace
  rw [decide_eq_false hmem, decide_eq_false (show ¬0x2000 ≤ c.toNat by omega)]
  rfl

theorem isSpace_intDigits {n : ℤ} (h : c ∈ intDigits n) : isSpace c = false := by
  cases n with
  | ofNat n => exact isSpace_of_isDigit (isDigit_of_mem_natDigits h)
  | negSucc n =>
    rcases List.mem_cons.1 h with rfl | h
    · decide
    · exact isSpace_of_isDigit (isDigit_of_mem_natDigits h)

theorem slash_notMem_intDigits (n : ℤ) : '/' ∉ intDigits n := by
  cases n with
  | ofNat n =>
    intro h
    exact absurd (isDigit_of_mem_natDigits h) (by decide)
  | negSucc n =>
    intro h
    rcases List.mem_cons.1 h with h | h
    · exact absurd h (by decide)
    · exact absurd (isDigit_of_mem_natDigits h) (by decide)

theorem trim_intDigits (n : ℤ) : trim (intDigits n) = intDigits n :=
  trim_eq_of_forall fun _ => isSpace_intDigits

theorem bigInt_of_digits (ht : trim cs = cs) (hne : cs ≠ [])
    (hd : ∀ c ∈ cs, c.isDigit = true) : bigInt cs = (readDecimal cs).map fun n : ℕ => (n : ℤ) := by
  have head (c : Char) (ds : List Char) (h : cs = c :: ds) : c.isDigit = true :=
    hd c (by simp [h])
  have second (b c : Char) (ds : List Char) (h : cs = b :: c :: ds) : c.isDigit = true :=
    hd c (by simp [h])
  unfold bigInt
  rw [ht]
  split
  · exact absurd rfl hne
  · exact absurd (head _ _ rfl) (by decide)
  · exact absurd (head _ _ rfl) (by decide)
  all_goals first | rfl | exact absurd (second _ _ _ rfl) (by decide)

/-- `BigInt` reads back what `toString` writes. -/
@[simp] theorem bigInt_intDigits (n : ℤ) : bigInt (intDigits n) = some n := by
  cases n with
  | ofNat n =>
    have ht : trim (natDigits n) = natDigits n := trim_intDigits (.ofNat n)
    change bigInt (natDigits n) = _
    rw [bigInt_of_digits ht (natDigits_ne_nil n) fun _ => isDigit_of_mem_natDigits,
      readDecimal_natDigits]
    rfl
  | negSucc n =>
    unfold bigInt
    rw [trim_intDigits]
    change (readDecimal (natDigits (n + 1))).map _ = _
    rw [readDecimal_natDigits]
    rfl

/-- `split(sep)` for a one-character separator. -/
def split (sep : Char) (cs : List Char) : List (List Char) := cs.splitOn sep

/-- A text that does not contain the character at a joint lies on one side of the joint. -/
theorem infix_append_cons_iff {p xs ys : List Char} (hc : c ∉ p) :
    p <:+: xs ++ c :: ys ↔ p <:+: xs ∨ p <:+: ys := by
  have hshort (l : List Char) (hl : c ∉ l) : l <+: c :: ys → l = [] := by
    intro h
    rcases List.prefix_cons_iff.1 h with rfl | ⟨t, rfl, _⟩
    · rfl
    · simp at hl
  rw [List.infix_append_iff]
  constructor
  · rintro (h | h | ⟨l₁, l₂, rfl, h₁, h₂⟩)
    · exact .inl h
    · rcases List.infix_cons_iff.1 h with h | h
      · rw [hshort p hc h]
        exact .inl (List.nil_infix)
      · exact .inr h
    · have hnil := hshort l₂ (fun h => hc (List.mem_append_right l₁ h)) h₂
      rw [hnil, List.append_nil]
      exact .inl h₁.isInfix
  · rintro (h | h)
    · exact .inl h
    · exact .inr (.inl (List.infix_cons h))

theorem infix_append_append_iff {p xs ds ys : List Char} (hne : ds ≠ [])
    (hd : ∀ d ∈ ds, d ∉ p) : p <:+: xs ++ (ds ++ ys) ↔ p <:+: xs ∨ p <:+: ys := by
  induction ds generalizing xs with
  | nil => exact absurd rfl hne
  | cons d ds ih =>
    rw [List.cons_append, infix_append_cons_iff (hd d (by simp))]
    cases ds with
    | nil => rfl
    | cons e ds =>
      have hrest := @ih [] (by simp) (fun d hd' => hd d (List.mem_cons_of_mem _ hd'))
      rw [List.nil_append] at hrest
      rw [hrest, List.infix_nil]
      constructor
      · rintro (h | rfl | h)
        · exact .inl h
        · exact .inl List.nil_infix
        · exact .inr h
      · rintro (h | h)
        · exact .inl h
        · exact .inr (.inr h)

end Text
