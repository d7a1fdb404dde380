import GnucashWeb.Imports.Cells

/-!
# Rendered amounts

Amounts as spreadsheets write them, in either locale: grouped digits, a currency symbol, a minus sign
or parentheses.  `parseLocaleNumber` reads back the amount where the sign comes first
(`parseLocaleNumber_text`), and loses the sign behind a symbol.
-/

namespace Imports

open Ledger (WholeCents round2)

/-! ## Renderings -/

def Separator.char : Separator → Char
  | point => '.'
  | comma => ','

def Separator.thousands : Separator → Char
  | point => ','
  | comma => '.'

def decimalsValue (decimals : Option (List Char)) : ℚ :=
  decimals.elim 0 fun ds => number ds / 10 ^ ds.length

/-- The digits of an amount in whole cents. -/
structure Magnitude (decimal : Separator) where
  whole : List Char
  decimals : Option (List Char)
  wholeChars : ∀ c ∈ whole, c.isDigit = true ∨ c = decimal.thousands
  decimalChars : ∀ ds ∈ decimals, ∀ c ∈ ds, c.isDigit = true
  digit : (∃ c ∈ whole, c.isDigit = true) ∨ ∃ ds ∈ decimals, ds ≠ []
  cents : WholeCents (number (whole.filter Char.isDigit) + decimalsValue decimals)

namespace Magnitude

variable {decimal : Separator}

def value (m : Magnitude decimal) : ℚ :=
  number (m.whole.filter Char.isDigit) + decimalsValue m.decimals

def digitsWith (m : Magnitude decimal) (sep : Char) : List Char :=
  m.whole.filter Char.isDigit ++ m.decimals.elim [] fun ds => sep :: ds

def text (m : Magnitude decimal) : List Char :=
  m.whole ++ m.decimals.elim [] fun ds => decimal.char :: ds

end Magnitude

inductive Sign
  | none
  | minus
  | parentheses
deriving DecidableEq

/-- The characters of currency symbols and codes, and the white space around them. -/
def IsSymbolChar (decimal : Separator) (c : Char) : Prop :=
  c.isDigit = false ∧ c ≠ decimal.char ∧ c ≠ '-' ∧ c ≠ '(' ∧ c ≠ ')' ∧ isLineTerminator c = false

/-- An amount with its sign, and text before the sign, between the sign and the digits, behind the
digits, and behind the closing parenthesis. -/
structure Rendering (decimal : Separator) where
  sign : Sign
  magnitude : Magnitude decimal
  before : List Char
  after : List Char
  behind : List Char
  outside : List Char
  symbols : ∀ c ∈ before ++ after ++ behind ++ outside, IsSymbolChar decimal c

namespace Rendering

variable {decimal : Separator}

def amount (r : Rendering decimal) : ℚ :=
  if r.sign = .none then r.magnitude.value else -r.magnitude.value

/-- What stands between the parentheses, or follows the minus sign. -/
def inner (r : Rendering decimal) : List Char := r.after ++ r.magnitude.text ++ r.behind

def signed (r : Rendering decimal) : List Char :=
  match r.sign with
  | .none => r.inner
  | .minus => '-' :: r.inner
  | .parentheses => '(' :: r.inner ++ [')']

def text (r : Rendering decimal) : List Char := r.before ++ r.signed ++ r.outside

/-- No symbol stands before the sign, nor behind the closing parenthesis. -/
def SignFirst (r : Rendering decimal) : Prop :=
  (r.sign ≠ .none → ∀ c ∈ r.before, Text.isSpace c = true) ∧
    (r.sign = .parentheses → ∀ c ∈ r.outside, Text.isSpace c = true)

instance (r : Rendering decimal) : Decidable r.SignFirst := inferInstanceAs (Decidable (_ ∧ _))

end Rendering

/-! ## What is read of a cell -/

def signOf (s : Cell) : ℚ :=
  let sign : ℚ := if (parenthesised? s).isSome then -1 else 1
  if ((parenthesised? s).getD s).head? = some '-' then -sign else sign

def kept (decimal : Separator) (c : Char) : Bool := c.isDigit || c = decimal.char

variable {s raw : Cell} {c : Char} {cs : List Char}

theorem significant_congr {decimal : Separator} {t : Cell}
    (h : s.filter (kept decimal) = t.filter (kept decimal)) :
    significant decimal s = significant decimal t := by
  cases decimal with
  | point => exact h
  | comma => exact congrArg (replaceFirst ',' '.') h

theorem parenthesised?_eq_some_iff {inner : Cell} :
    parenthesised? s = some inner ↔
      s = '(' :: inner ++ [')'] ∧ inner.any isLineTerminator = false := by
  unfold parenthesised?
  split
  · rename_i rest
    constructor
    · intro h
      split_ifs at h with hcond
      cases h
      obtain ⟨inner, rfl⟩ : ∃ inner, rest = inner ++ [')'] :=
        ⟨_, (List.dropLast_append_getLast? ')' hcond.1).symm⟩
      rw [List.dropLast_concat]
      refine ⟨rfl, ?_⟩
      have hany := hcond.2
      rw [List.any_append, Bool.or_eq_true, not_or] at hany
      simpa using hany.1
    · rintro ⟨heq, hinner⟩
      cases heq
      simp [hinner, isLineTerminator]
  · rename_i hne
    simp only [reduceCtorEq, List.cons_append, false_iff, not_and]
    intro heq
    exact absurd heq (hne _)

theorem kept_paren (decimal : Separator) :
    kept decimal '(' = false ∧ kept decimal ')' = false ∧ kept decimal '-' = false := by
  cases decimal <;> decide

theorem significant_parenthesised (decimal : Separator) (s : Cell) :
    significant decimal ((parenthesised? s).getD s) = significant decimal s := by
  cases h : parenthesised? s with
  | none => rfl
  | some inner =>
    obtain ⟨rfl, -⟩ := parenthesised?_eq_some_iff.1 h
    refine significant_congr ?_
    simp [kept_paren]

theorem kept_of_isSpace {decimal : Separator} (h : Text.isSpace c = true) :
    kept decimal c = false := by
  have hdigit : c.isDigit = false := by
    by_contra hd
    rw [Text.isSpace_of_isDigit (by simpa using hd)] at h
    cases h
  have hchar : c ≠ decimal.char := by
    rintro rfl
    revert h
    cases decimal <;> decide
  simp [kept, hdigit, hchar]

theorem significant_trim (decimal : Separator) (raw : Cell) :
    significant decimal (Text.trim raw) = significant decimal raw :=
  significant_congr (Text.filter_trim (fun _ => kept_of_isSpace) raw)

def IsBlank (raw : Cell) : Prop :=
  Text.trim raw = [] ∨ Text.trim raw = ['-'] ∨ Text.trim raw = ['-', '-']

theorem not_isBlank (decimal : Separator) (hc : c ∈ raw)
    (hkept : kept decimal c = true) : ¬IsBlank raw := by
  intro hblank
  have hmem : c ∈ (Text.trim raw).filter (kept decimal) := by
    rw [Text.filter_trim fun _ => kept_of_isSpace]
    exact List.mem_filter.2 ⟨hc, hkept⟩
  rcases hblank with h | h | h <;> rw [h] at hmem <;> simp [kept_paren] at hmem

theorem parseLocaleNumber_eq (h : ¬IsBlank raw) (decimal : Separator) :
    parseLocaleNumber raw decimal =
      if significant decimal raw = [] ∨ significant decimal raw = ['.'] then none
      else ((numberOf (significant decimal raw)).filter fun n => n < infinityFrom).map
        fun n => round2 (signOf (Text.trim raw) * n) := by
  unfold IsBlank at h
  unfold parseLocaleNumber
  dsimp only
  rw [if_neg h, significant_parenthesised, significant_trim]
  rfl

/-! ## Two separators, or no digit -/

theorem split_of_mem (h : '.' ∈ cs) :
    ∃ a b, cs = a ++ '.' :: b ∧ '.' ∉ a ∧ Text.split '.' cs = a :: Text.split '.' b := by
  obtain ⟨a, b, rfl, ha⟩ := List.eq_append_cons_of_mem h
  exact ⟨a, b, rfl, ha, List.splitOn_append_cons_self_of_not_mem ha b⟩

theorem numberOf_of_two_points (h : 2 ≤ cs.count '.') : numberOf cs = none := by
  obtain ⟨a, b, rfl, ha, hsplit⟩ := split_of_mem (List.count_pos_iff.1 (by omega : 0 < cs.count '.'))
  have hb : '.' ∈ b := by
    rw [List.count_append, List.count_eq_zero.2 ha, List.count_cons_self] at h
    exact List.count_pos_iff.1 (by omega)
  obtain ⟨c, d, rfl, -, hsplit'⟩ := split_of_mem hb
  have hne : Text.split '.' d ≠ [] := List.splitOn_ne_nil '.' d
  unfold numberOf
  rw [hsplit, hsplit']
  split
  · rfl
  · split <;> simp_all

theorem mem_replaceFirst {old new : Char} (hne : new ≠ old)
    (h : 2 ≤ cs.count old) : old ∈ replaceFirst old new cs := by
  induction cs with
  | nil => simp at h
  | cons c cs ih =>
    unfold replaceFirst
    split
    · rename_i hc
      subst hc
      rw [List.count_cons_self] at h
      exact List.mem_cons_of_mem _ (List.count_pos_iff.1 (by omega))
    · rename_i hc
      rw [List.count_cons_of_ne hc] at h
      exact List.mem_cons_of_mem _ (ih h)

theorem numberOf_significant {decimal : Separator} (h : 2 ≤ s.count decimal.char) :
    numberOf (significant decimal s) = none := by
  have hcount : (s.filter (kept decimal)).count decimal.char = s.count decimal.char :=
    List.count_filter (by simp [kept])
  rw [← hcount] at h
  cases decimal with
  | point => exact numberOf_of_two_points h
  | comma =>
    have hmem : ',' ∈ significant .comma s := mem_replaceFirst (by decide) h
    unfold numberOf
    rw [if_pos hmem]

theorem filter_kept_of_no_digit {decimal : Separator} (h : ∀ c ∈ s, c.isDigit = false) :
    s.filter (kept decimal) = List.replicate (s.count decimal.char) decimal.char := by
  rw [← List.filter_eq]
  refine List.filter_congr fun c hc => ?_
  simp [kept, h c hc]

theorem parseLocaleNumber_of_two_separators {decimal : Separator}
    (h : 2 ≤ raw.count decimal.char) : parseLocaleNumber raw decimal = none := by
  have hblank : ¬IsBlank raw :=
    not_isBlank decimal (List.count_pos_iff.1 (by omega : 0 < raw.count decimal.char))
      (by simp [kept])
  rw [parseLocaleNumber_eq hblank, numberOf_significant h]
  simp

theorem parseLocaleNumber_of_no_digit {decimal : Separator} (hblank : ¬IsBlank raw)
    (h : ∀ c ∈ raw, c.isDigit = false) : parseLocaleNumber raw decimal = none := by
  by_cases htwo : 2 ≤ raw.count decimal.char
  · exact parseLocaleNumber_of_two_separators htwo
  · have hkept : significant decimal raw = [] ∨ significant decimal raw = ['.'] := by
      have hsig : significant decimal raw =
          significant decimal (List.replicate (raw.count decimal.char) decimal.char) :=
        significant_congr <| by
          rw [filter_kept_of_no_digit h, List.filter_replicate_of_pos (by simp [kept])]
      rw [hsig]
      obtain hzero | hone : raw.count decimal.char = 0 ∨ raw.count decimal.char = 1 := by omega
      · rw [hzero]
        cases decimal <;> exact .inl rfl
      · rw [hone]
        cases decimal <;> exact .inr rfl
    rw [parseLocaleNumber_eq hblank, if_pos hkept]

/-! ## The digits of a rendering -/

theorem kept_thousands (decimal : Separator) : kept decimal decimal.thousands = false := by
  cases decimal <;> decide

namespace Magnitude

variable {decimal : Separator}

theorem filter_kept_text (m : Magnitude decimal) :
    m.text.filter (kept decimal) = m.digitsWith decimal.char := by
  have hwhole : m.whole.filter (kept decimal) = m.whole.filter Char.isDigit := by
    refine List.filter_congr fun c hc => ?_
    rcases m.wholeChars c hc with h | rfl
    · simp [kept, h]
    · rw [kept_thousands]
      cases decimal <;> rfl
  have hdecimals := m.decimalChars
  rw [text, digitsWith, List.filter_append, hwhole]
  cases hds : m.decimals with
  | none => rfl
  | some ds =>
    have hall : ∀ c ∈ decimal.char :: ds, kept decimal c = true := by
      rw [List.forall_mem_cons]
      exact ⟨by simp [kept], fun c hc => by simp [kept, hdecimals ds hds c hc]⟩
    simp only [Option.elim_some]
    rw [List.filter_eq_self.2 hall]

theorem digit_whole (m : Magnitude decimal) (h : c ∈ m.whole.filter Char.isDigit) :
    c.isDigit = true :=
  (List.mem_filter.1 h).2

theorem replaceFirst_digitsWith (m : Magnitude decimal) {old : Char} (new : Char)
    (hold : old.isDigit = false) : replaceFirst old new (m.digitsWith old) = m.digitsWith new := by
  have hwhole : ∀ c ∈ m.whole.filter Char.isDigit, c ≠ old := by
    rintro c hc rfl
    rw [m.digit_whole hc] at hold
    cases hold
  unfold digitsWith
  generalize m.whole.filter Char.isDigit = whole at hwhole
  induction whole with
  | nil =>
    cases m.decimals with
    | none => rfl
    | some ds => simp [replaceFirst]
  | cons c whole ih =>
    rw [List.forall_mem_cons] at hwhole
    rw [List.cons_append, replaceFirst, if_neg hwhole.1, ih hwhole.2, List.cons_append]

theorem numberOf_digitsWith (m : Magnitude decimal) :
    numberOf (m.digitsWith '.') = some m.value := by
  have hno (c : Char) (hc : c.isDigit = false) : c ∉ m.whole.filter Char.isDigit := by
    intro hmem
    rw [m.digit_whole hmem] at hc
    cases hc
  have hnoDecimals (ds : List Char) (hds : m.decimals = some ds) (c : Char)
      (hc : c.isDigit = false) : c ∉ ds := by
    intro hmem
    rw [m.decimalChars ds hds c hmem] at hc
    cases hc
  unfold numberOf digitsWith value decimalsValue
  cases hds : m.decimals with
  | none =>
    have hsplit : Text.split '.' (m.whole.filter Char.isDigit) = [m.whole.filter Char.isDigit] :=
      List.splitOn_eq_singleton (hno '.' (by decide))
    simp only [Option.elim_none, List.append_nil, if_neg (hno ',' (by decide)), hsplit, add_zero]
  | some ds =>
    have hsplit : Text.split '.' (m.whole.filter Char.isDigit ++ '.' :: ds) =
        [m.whole.filter Char.isDigit, ds] := by
      rw [Text.split, List.splitOn_append_cons_self_of_not_mem (hno '.' (by decide)),
        List.splitOn_eq_singleton (hnoDecimals ds hds '.' (by decide))]
    have hcomma : ',' ∉ m.whole.filter Char.isDigit ++ '.' :: ds := by
      rw [List.mem_append, List.mem_cons, not_or, not_or]
      exact ⟨hno ',' (by decide), by decide, hnoDecimals ds hds ',' (by decide)⟩
    simp only [Option.elim_some, if_neg hcomma, hsplit]

theorem exists_digit_mem (m : Magnitude decimal) (sep : Char) :
    ∃ c ∈ m.digitsWith sep, c.isDigit = true := by
  rcases m.digit with ⟨c, hc, hdigit⟩ | ⟨ds, hds, hne⟩
  · exact ⟨c, List.mem_append_left _ (List.mem_filter.2 ⟨hc, hdigit⟩), hdigit⟩
  · obtain ⟨c, ds, rfl⟩ := List.exists_cons_of_ne_nil hne
    refine ⟨c, List.mem_append_right _ ?_, m.decimalChars _ hds c List.mem_cons_self⟩
    rw [hds]
    simp

theorem digitsWith_ne (m : Magnitude decimal) :
    ¬(m.digitsWith '.' = [] ∨ m.digitsWith '.' = ['.']) := by
  obtain ⟨c, hc, hdigit⟩ := m.exists_digit_mem '.'
  rintro (h | h) <;> rw [h] at hc
  · cases hc
  · rw [List.mem_singleton.1 hc] at hdigit
    cases hdigit

end Magnitude

namespace Rendering

variable {decimal : Separator} (r : Rendering decimal)

theorem isSymbolChar (hc : c ∈ r.before ∨ c ∈ r.after ∨ c ∈ r.behind ∨ c ∈ r.outside) :
    IsSymbolChar decimal c :=
  r.symbols c (by simpa [or_assoc] using hc)

theorem filter_kept_symbol {sym : List Char} (h : ∀ c ∈ sym, IsSymbolChar decimal c) :
    sym.filter (kept decimal) = [] := by
  refine List.filter_eq_nil_iff.2 fun c hc => ?_
  simp [kept, (h c hc).1, (h c hc).2.1]

theorem filter_kept_text :
    r.text.filter (kept decimal) = r.magnitude.digitsWith decimal.char := by
  have hbefore := filter_kept_symbol fun c hc => r.isSymbolChar (.inl hc)
  have hafter := filter_kept_symbol fun c hc => r.isSymbolChar (.inr (.inl hc))
  have hbehind := filter_kept_symbol fun c hc => r.isSymbolChar (.inr (.inr (.inl hc)))
  have houtside := filter_kept_symbol fun c hc => r.isSymbolChar (.inr (.inr (.inr hc)))
  have hinner : r.inner.filter (kept decimal) = r.magnitude.digitsWith decimal.char := by
    rw [inner, List.filter_append, List.filter_append, hafter, hbehind,
      Magnitude.filter_kept_text, List.nil_append, List.append_nil]
  have hsigned : r.signed.filter (kept decimal) = r.inner.filter (kept decimal) := by
    unfold signed
    cases r.sign <;> simp [kept_paren]
  rw [text, List.filter_append, List.filter_append, hbefore, houtside, hsigned, hinner,
    List.nil_append, List.append_nil]

theorem significant_text : significant decimal r.text = r.magnitude.digitsWith '.' := by
  have hkept := r.filter_kept_text
  cases decimal with
  | point => exact hkept
  | comma =>
    have h := congrArg (replaceFirst ',' '.') hkept
    exact h.trans (r.magnitude.replaceFirst_digitsWith '.' (by decide))

theorem not_isBlank_text : ¬IsBlank r.text := by
  obtain ⟨c, hc, hdigit⟩ := r.magnitude.exists_digit_mem decimal.char
  rw [← r.filter_kept_text] at hc
  exact not_isBlank decimal (List.mem_filter.1 hc).1 (List.mem_filter.1 hc).2

/-- What may stand anywhere but in the place of the sign. -/
def IsPlain (c : Char) : Prop := c ≠ '-' ∧ c ≠ '(' ∧ c ≠ ')' ∧ isLineTerminator c = false

theorem isPlain_symbol (h : IsSymbolChar decimal c) : IsPlain c := h.2.2

theorem isPlain_of_isDigit (h : c.isDigit = true) : IsPlain c := by
  refine ⟨?_, ?_, ?_, ?_⟩
  any_goals
    rintro rfl
    exact absurd h (by decide)
  rw [isLineTerminator, decide_eq_false_iff_not]
  intro hmem
  simp only [List.mem_cons, List.not_mem_nil, or_false] at hmem
  rcases hmem with rfl | rfl | rfl | rfl <;> exact absurd h (by decide)

theorem isPlain_separators (decimal : Separator) :
    IsPlain decimal.char ∧ IsPlain decimal.thousands := by
  cases decimal <;> unfold IsPlain <;> decide

theorem isPlain_inner (h : c ∈ r.inner) : IsPlain c := by
  rw [inner, List.mem_append, List.mem_append] at h
  rcases h with (h | h) | h
  · exact isPlain_symbol (r.isSymbolChar (.inr (.inl h)))
  · rw [Magnitude.text, List.mem_append] at h
    rcases h with h | h
    · rcases r.magnitude.wholeChars c h with hdigit | rfl
      · exact isPlain_of_isDigit hdigit
      · exact (isPlain_separators decimal).2
    · cases hds : r.magnitude.decimals with
      | none => simp [hds] at h
      | some ds =>
        rw [hds, Option.elim_some, List.mem_cons] at h
        rcases h with rfl | h
        · exact (isPlain_separators decimal).1
        · exact isPlain_of_isDigit (r.magnitude.decimalChars ds hds c h)
  · exact isPlain_symbol (r.isSymbolChar (.inr (.inr (.inl h))))

theorem signOf_of_head? (hparen : s.head? ≠ some '(') :
    signOf s = if s.head? = some '-' then -1 else 1 := by
  have hnone : parenthesised? s = none := by
    by_contra hsome
    obtain ⟨inner, h⟩ := Option.ne_none_iff_exists'.1 hsome
    obtain ⟨rfl, -⟩ := parenthesised?_eq_some_iff.1 h
    exact hparen rfl
  simp [signOf, hnone]

theorem signOf_of_plain (h : ∀ c, s.head? = some c → IsPlain c) : signOf s = 1 := by
  rw [signOf_of_head? fun hhead => (h _ hhead).2.1 rfl, if_neg fun hhead => (h _ hhead).1 rfl]

theorem signOf_text_none (h : r.sign = .none) : signOf (Text.trim r.text) = 1 := by
  refine signOf_of_plain fun c hhead => ?_
  have hc := Text.trim_subset (List.mem_of_mem_head? hhead)
  rw [text, signed, h, List.mem_append, List.mem_append] at hc
  rcases hc with (hc | hc) | hc
  · exact isPlain_symbol (r.isSymbolChar (.inl hc))
  · exact r.isPlain_inner hc
  · exact isPlain_symbol (r.isSymbolChar (.inr (.inr (.inr hc))))

theorem signOf_text_symbol (h : ∃ c ∈ r.before, Text.isSpace c = false) :
    signOf (Text.trim r.text) = 1 := by
  obtain ⟨c, hc, hhead⟩ := Text.head?_trim_append h (r.signed ++ r.outside)
  rw [← List.append_assoc] at hhead
  refine signOf_of_plain fun d hd => ?_
  rw [text, hhead] at hd
  cases hd
  exact isPlain_symbol (r.isSymbolChar (.inl hc))

theorem trim_text_of_spaces (h : ∀ c ∈ r.before, Text.isSpace c = true) :
    Text.trim r.text = Text.trim (r.signed ++ r.outside) := by
  rw [text, List.append_assoc, ← List.append_nil (r.before ++ _),
    Text.trim_padded h (by simp)]

theorem head?_trim_cons (hc : Text.isSpace c = false) (cs : List Char) :
    (Text.trim (c :: cs)).head? = some c := by
  obtain ⟨d, hd, hhead⟩ := Text.head?_trim_append ⟨c, List.mem_singleton_self c, hc⟩ cs
  rw [List.mem_singleton.1 hd] at hhead
  exact hhead

theorem signOf_text_minus (hsign : r.sign = .minus)
    (h : ∀ c ∈ r.before, Text.isSpace c = true) : signOf (Text.trim r.text) = -1 := by
  have hhead : (Text.trim r.text).head? = some '-' := by
    rw [r.trim_text_of_spaces h, signed, hsign]
    exact head?_trim_cons (by decide) _
  rw [signOf_of_head? (by rw [hhead]; decide), if_pos hhead]

theorem signOf_text_parentheses (hsign : r.sign = .parentheses)
    (h : ∀ c ∈ r.before, Text.isSpace c = true) (houtside : ∀ c ∈ r.outside, Text.isSpace c = true) :
    signOf (Text.trim r.text) = -1 := by
  have htrim : Text.trim r.text = '(' :: r.inner ++ [')'] := by
    rw [text, Text.trim_padded h houtside, signed, hsign]
    refine Text.trim_eq (fun c hc => ?_) (fun c hc => ?_)
    · cases hc
      decide
    · rw [List.getLast?_concat] at hc
      cases hc
      decide
  have hline : r.inner.any isLineTerminator = false := by
    rw [List.any_eq_false]
    exact fun c hc => by simp [(r.isPlain_inner hc).2.2.2]
  have hinner : parenthesised? (Text.trim r.text) = some r.inner :=
    parenthesised?_eq_some_iff.2 ⟨htrim, hline⟩
  have hminus : r.inner.head? ≠ some '-' := fun hhead =>
    (r.isPlain_inner (List.mem_of_mem_head? hhead)).1 rfl
  simp [signOf, hinner, hminus]

theorem signOf_text_outside (hsign : r.sign = .parentheses)
    (h : ∀ c ∈ r.before, Text.isSpace c = true)
    (houtside : ∃ c ∈ r.outside, Text.isSpace c = false) : signOf (Text.trim r.text) = 1 := by
  have hhead : (Text.trim r.text).head? = some '(' := by
    rw [r.trim_text_of_spaces h, signed, hsign]
    exact head?_trim_cons (by decide) _
  obtain ⟨c, hc, hlast⟩ := Text.getLast?_trim_append houtside (r.before ++ r.signed)
  have hnone : parenthesised? (Text.trim r.text) = none := by
    by_contra hsome
    obtain ⟨inner, hinner⟩ := Option.ne_none_iff_exists'.1 hsome
    obtain ⟨htrim, -⟩ := parenthesised?_eq_some_iff.1 hinner
    have hlast' : (Text.trim r.text).getLast? = some ')' := by
      rw [htrim]
      exact List.getLast?_concat
    rw [show r.before ++ r.signed ++ r.outside = r.text from rfl, hlast'] at hlast
    cases hlast
    exact (isPlain_symbol (r.isSymbolChar (.inr (.inr (.inr hc))))).2.2.1 rfl
  simp [signOf, hnone, hhead]

theorem signOf_text :
    signOf (Text.trim r.text) = if r.sign ≠ .none ∧ r.SignFirst then -1 else 1 := by
  by_cases hbefore : ∀ c ∈ r.before, Text.isSpace c = true
  · cases hsign : r.sign with
    | none => simp [r.signOf_text_none hsign]
    | minus =>
      have hfirst : r.SignFirst := ⟨fun _ => hbefore, fun h => by simp [hsign] at h⟩
      rw [r.signOf_text_minus hsign hbefore, if_pos ⟨by decide, hfirst⟩]
    | parentheses =>
      by_cases houtside : ∀ c ∈ r.outside, Text.isSpace c = true
      · have hfirst : r.SignFirst := ⟨fun _ => hbefore, fun _ => houtside⟩
        rw [r.signOf_text_parentheses hsign hbefore houtside, if_pos ⟨by decide, hfirst⟩]
      · have hvisible : ∃ c ∈ r.outside, Text.isSpace c = false := by simpa using houtside
        rw [r.signOf_text_outside hsign hbefore hvisible]
        simp [SignFirst, hsign, houtside]
  · have hvisible : ∃ c ∈ r.before, Text.isSpace c = false := by simpa using hbefore
    rw [r.signOf_text_symbol hvisible, if_neg]
    rintro ⟨hsign, hfirst⟩
    exact hbefore (hfirst.1 hsign)

/-- A rendered amount is read back where its sign comes first; else the sign is lost. -/
theorem parseLocaleNumber_rendering (h : r.magnitude.value < infinityFrom) :
    parseLocaleNumber r.text decimal =
      some (if r.SignFirst then r.amount else r.magnitude.value) := by
  rw [parseLocaleNumber_eq r.not_isBlank_text, r.significant_text, if_neg r.magnitude.digitsWith_ne,
    r.magnitude.numberOf_digitsWith, r.signOf_text]
  have hcents : WholeCents r.magnitude.value := r.magnitude.cents
  have hfinite : decide (r.magnitude.value < infinityFrom) = true := decide_eq_true h
  rw [Option.filter_some, if_pos hfinite, Option.map_some]
  congr 1
  by_cases hsign : r.sign = .none
  · simp [hsign, amount, Ledger.round2_of_wholeCents hcents]
  · by_cases hfirst : r.SignFirst
    · simp [hsign, hfirst, amount, Ledger.round2_of_wholeCents hcents.neg]
    · simp [hfirst, Ledger.round2_of_wholeCents hcents]

end Rendering

def dollars : Rendering .point where
  sign := .minus
  magnitude :=
    { whole := "1,234".toList
      decimals := some "56".toList
      wholeChars := by decide
      decimalChars := by decide
      digit := .inl ⟨'1', by decide, by decide⟩
      cents := by decide +kernel }
  before := []
  after := "$".toList
  behind := []
  outside := []
  symbols := by unfold IsSymbolChar; decide

end Imports
