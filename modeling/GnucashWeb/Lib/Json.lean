import Mathlib.Data.Char
import Mathlib.Data.List.Basic

/-!
# JSON texts

`JSON.stringify` of texts, of texts or null, and of lists of texts.  Each of the encodings is told
apart from what follows it (`quote_append_inj`, `nullable_append_inj`, `array_append_inj`), so that
equal JSON texts are those of equal values.
-/

namespace Json

/-! ## Characters -/

def hexDigit (n : ℕ) : Char := Char.ofNat (if n < 10 then 48 + n else 87 + n)

def hexValue (c : Char) : ℕ := if c.toNat < 58 then c.toNat - 48 else c.toNat - 87

/-- What stands for a character between quotes. -/
def escape (c : Char) : List Char :=
  if c = '"' then ['\\', '"']
  else if c = '\\' then ['\\', '\\']
  else if c = '\x08' then ['\\', 'b']
  else if c = '\x0c' then ['\\', 'f']
  else if c = '\n' then ['\\', 'n']
  else if c = '\r' then ['\\', 'r']
  else if c = '\t' then ['\\', 't']
  else if c.toNat < 32 then
    ['\\', 'u', '0', '0', hexDigit (c.toNat / 16), hexDigit (c.toNat % 16)]
  else [c]

/-- Read one character between quotes; the closing quote is none. -/
def unescape : List Char → Option (Char × List Char)
  | '\\' :: 'u' :: _ :: _ :: h :: l :: rest =>
    some (Char.ofNat (16 * hexValue h + hexValue l), rest)
  | '\\' :: 'b' :: rest => some ('\x08', rest)
  | '\\' :: 'f' :: rest => some ('\x0c', rest)
  | '\\' :: 'n' :: rest => some ('\n', rest)
  | '\\' :: 'r' :: rest => some ('\r', rest)
  | '\\' :: 't' :: rest => some ('\t', rest)
  | '\\' :: c :: rest => some (c, rest)
  | '"' :: _ => none
  | c :: rest => some (c, rest)
  | [] => none

theorem hexValue_hexDigit : ∀ n < 16, hexValue (hexDigit n) = n := by decide

theorem unescape_escape (c : Char) (rest : List Char) :
    unescape (escape c ++ rest) = some (c, rest) := by
  unfold escape
  split_ifs with hquote hback hb hf hn hr ht hcontrol
  · rw [hquote]; rfl
  · rw [hback]; rfl
  · rw [hb]; rfl
  · rw [hf]; rfl
  · rw [hn]; rfl
  · rw [hr]; rfl
  · rw [ht]; rfl
  · have hhigh := hexValue_hexDigit (c.toNat / 16) (by omega)
    have hlow := hexValue_hexDigit (c.toNat % 16) (by omega)
    have hcode : 16 * (c.toNat / 16) + c.toNat % 16 = c.toNat := by omega
    simp only [List.cons_append, List.nil_append, unescape, hhigh, hlow, hcode, Char.ofNat_toNat]
  · simp only [List.cons_append, List.nil_append]
    unfold unescape
    split <;> simp_all

/-! ## Texts -/

def quote (text : String) : List Char := '"' :: text.toList.flatMap escape ++ ['"']

theorem escaped_append_inj {cs ds r r' : List Char}
    (h : cs.flatMap escape ++ '"' :: r = ds.flatMap escape ++ '"' :: r') : cs = ds ∧ r = r' := by
  induction cs generalizing ds with
  | nil =>
    cases ds with
    | nil => exact ⟨rfl, (List.cons.inj h).2⟩
    | cons d ds =>
      rw [List.flatMap_cons, List.append_assoc] at h
      have := congrArg unescape h
      rw [unescape_escape] at this
      exact absurd this nofun
  | cons c cs ih =>
    rw [List.flatMap_cons, List.append_assoc] at h
    cases ds with
    | nil =>
      have := congrArg unescape h
      rw [unescape_escape] at this
      exact absurd this nofun
    | cons d ds =>
      rw [List.flatMap_cons, List.append_assoc] at h
      have := congrArg unescape h
      rw [unescape_escape, unescape_escape, Option.some_inj, Prod.mk.injEq] at this
      obtain ⟨hcs, hr⟩ := ih this.2
      exact ⟨congrArg₂ List.cons this.1 hcs, hr⟩

@[simp] theorem quote_append_inj {s t : String} {r r' : List Char} :
    quote s ++ r = quote t ++ r' ↔ s = t ∧ r = r' := by
  refine ⟨fun h => ?_, by rintro ⟨rfl, rfl⟩; rfl⟩
  simp only [quote, List.cons_append, List.append_assoc, List.nil_append, List.cons.injEq,
    true_and] at h
  obtain ⟨hst, hr⟩ := escaped_append_inj h
  exact ⟨String.toList_injective hst, hr⟩

def nullable : Option String → List Char
  | none => ['n', 'u', 'l', 'l']
  | some text => quote text

@[simp] theorem nullable_append_inj {s t : Option String} {r r' : List Char} :
    nullable s ++ r = nullable t ++ r' ↔ s = t ∧ r = r' := by
  cases s <;> cases t <;> simp [nullable]
  all_goals simp [quote]

def arrayTail : List String → List Char
  | [] => [']']
  | text :: rest => ',' :: quote text ++ arrayTail rest

def array : List String → List Char
  | [] => ['[', ']']
  | text :: rest => '[' :: quote text ++ arrayTail rest

theorem arrayTail_append_inj {l m : List String} {r r' : List Char}
    (h : arrayTail l ++ r = arrayTail m ++ r') : l = m ∧ r = r' := by
  induction l generalizing m with
  | nil =>
    cases m with
    | nil => exact ⟨rfl, (List.cons.inj h).2⟩
    | cons t m => simp [arrayTail] at h
  | cons s l ih =>
    cases m with
    | nil => simp [arrayTail] at h
    | cons t m =>
      simp only [arrayTail, List.cons_append, List.append_assoc, List.cons.injEq, true_and,
        quote_append_inj] at h
      obtain ⟨rfl, h⟩ := h
      obtain ⟨rfl, rfl⟩ := ih h
      exact ⟨rfl, rfl⟩

@[simp] theorem array_append_inj {l m : List String} {r r' : List Char} :
    array l ++ r = array m ++ r' ↔ l = m ∧ r = r' := by
  refine ⟨fun h => ?_, by rintro ⟨rfl, rfl⟩; rfl⟩
  cases l with
  | nil =>
    cases m with
    | nil => exact ⟨rfl, by simpa [array] using h⟩
    | cons t m => simp [array, quote] at h
  | cons s l =>
    cases m with
    | nil => simp [array, quote] at h
    | cons t m =>
      simp only [array, List.cons_append, List.append_assoc, List.cons.injEq, true_and,
        quote_append_inj] at h
      obtain ⟨rfl, h⟩ := h
      obtain ⟨rfl, rfl⟩ := arrayTail_append_inj h
      exact ⟨rfl, rfl⟩

end Json
