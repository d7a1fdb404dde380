import GnucashWeb.Ledger.Amount
import GnucashWeb.Lib.Text

/-!
# Arithmetic in amount fields

`evaluateMathExpression` removes the white space of a text, reads it with a recursive-descent
parser and rounds the value to cents.  `evaluateMathExpression_eq_some_iff`: it gives the value of
the text without its white space, for texts with an operator.  White space within a number is removed
like any other (`evaluateMathExpression_joins`).
-/

open Ledger (round2)

namespace MathEval

/-! ## Tokens and their grammar -/

def isNumberChar (c : Char) : Bool := c.isDigit || c = '.'

/-- A decimal number: digits with at most one point, and at least one digit. -/
structure Numeral where
  text : List Char
  chars : ∀ c ∈ text, isNumberChar c = true
  points : text.count '.' ≤ 1
  digit : ∃ c ∈ text, c.isDigit = true

def decimalValue (text : List Char) : ℚ :=
  let whole := text.takeWhile (· ≠ '.')
  let decimals := (text.dropWhile (· ≠ '.')).tail
  Nat.ofDigitChars 10 whole 0 + Nat.ofDigitChars 10 decimals 0 / 10 ^ decimals.length

inductive Operator
  | plus
  | minus
  | times
  | divide
deriving DecidableEq, Repr

def Operator.char : Operator → Char
  | plus => '+'
  | minus => '-'
  | times => '*'
  | divide => '/'

inductive Token
  | number (n : Numeral)
  | op (o : Operator)
  | leftParen
  | rightParen

def Token.text : Token → List Char
  | number n => n.text
  | op o => [o.char]
  | leftParen => ['(']
  | rightParen => [')']

def textOf (ts : List Token) : List Char := ts.flatMap Token.text

mutual

/-- `factor -> '-' factor | '(' expression ')' | number`, with its value. -/
inductive Factor : List Token → ℚ → Prop
  | neg {ts : List Token} {v : ℚ} : Factor ts v → Factor (.op .minus :: ts) (-v)
  | paren {ts : List Token} {v : ℚ} : Expression ts v → Factor (.leftParen :: ts ++ [.rightParen]) v
  | number (n : Numeral) : Factor [.number n] (decimalValue n.text)

/-- `term -> factor ( ('*' | '/') factor )*`, with its value; no division is by zero. -/
inductive Term : List Token → ℚ → Prop
  | factor {ts : List Token} {v : ℚ} : Factor ts v → Term ts v
  | mul {ts us : List Token} {v w : ℚ} : Term ts v → Factor us w →
      Term (ts ++ .op .times :: us) (v * w)
  | div {ts us : List Token} {v w : ℚ} : Term ts v → Factor us w → w ≠ 0 →
      Term (ts ++ .op .divide :: us) (v / w)

/-- `expression -> term ( ('+' | '-') term )*`, with its value. -/
inductive Expression : List Token → ℚ → Prop
  | term {ts : List Token} {v : ℚ} : Term ts v → Expression ts v
  | add {ts us : List Token} {v w : ℚ} : Expression ts v → Term us w →
      Expression (ts ++ .op .plus :: us) (v + w)
  | sub {ts us : List Token} {v w : ℚ} : Expression ts v → Term us w →
      Expression (ts ++ .op .minus :: us) (v - w)

end

/-! ## The parser -/

/-- The number that a text begins with, and the text after it. -/
def parseNumber (cs : List Char) : Option (ℚ × List Char) :=
  let numStr := cs.takeWhile isNumberChar
  if 1 < numStr.count '.' ∨ numStr = [] ∨ numStr = ['.'] then none
  else some (decimalValue numStr, cs.dropWhile isNumberChar)

mutual

/-- The first argument of the parsers bounds the depth of their calls. -/
def factor : ℕ → List Char → Option (ℚ × List Char)
  | 0, _ => none
  | n + 1, '-' :: cs => (factor n cs).map fun (f, rest) => (-f, rest)
  | n + 1, '(' :: cs =>
    match expression n cs with
    | some (expr, ')' :: rest) => some (expr, rest)
    | _ => none
  | _ + 1, cs => parseNumber cs

def term : ℕ → List Char → Option (ℚ × List Char)
  | 0, _ => none
  | n + 1, cs => (factor n cs).bind fun (left, rest) => termLoop n left rest

def termLoop : ℕ → ℚ → List Char → Option (ℚ × List Char)
  | 0, _, _ => none
  | n + 1, left, '*' :: cs =>
    (factor n cs).bind fun (right, rest) => termLoop n (left * right) rest
  | n + 1, left, '/' :: cs =>
    (factor n cs).bind fun (right, rest) =>
      if right = 0 then none else termLoop n (left / right) rest
  | _ + 1, left, cs => some (left, cs)

def expression : ℕ → List Char → Option (ℚ × List Char)
  | 0, _ => none
  | n + 1, cs => (term n cs).bind fun (left, rest) => expressionLoop n left rest

def expressionLoop : ℕ → ℚ → List Char → Option (ℚ × List Char)
  | 0, _, _ => none
  | n + 1, left, '+' :: cs =>
    (term n cs).bind fun (right, rest) => expressionLoop n (left + right) rest
  | n + 1, left, '-' :: cs =>
    (term n cs).bind fun (right, rest) => expressionLoop n (left - right) rest
  | _ + 1, left, cs => some (left, cs)

end

/-- The value of a text that is consumed to its end; four calls for each character suffice. -/
def parse (cs : List Char) : Option ℚ :=
  match expression (4 * cs.length + 4) cs with
  | some (result, []) => some result
  | _ => none

/-- An operator or a parenthesis, other than a leading minus. -/
def containsMathExpression (input : List Char) : Bool :=
  let trimmed := Text.trim input
  trimmed.any (· ∈ ['+', '*', '/', '(', ')']) || trimmed.tail.any (· = '-')

def evaluateMathExpression (input : List Char) : Option ℚ :=
  let trimmed := Text.trim input
  if containsMathExpression trimmed then
    (parse (trimmed.filter fun c => !Text.isSpace c)).map round2
  else none

example : evaluateMathExpression "2*(3-0.5)/-4+10".toList = some 8.75 := by decide +kernel

/-! ## Numbers -/

variable {ts us : List Token} {cs rest : List Char} {v w : ℚ} {fuel n : ℕ}

@[simp] theorem textOf_nil : textOf [] = [] := rfl

@[simp] theorem textOf_cons (t : Token) (ts : List Token) :
    textOf (t :: ts) = t.text ++ textOf ts := rfl

@[simp] theorem textOf_append (ts us : List Token) : textOf (ts ++ us) = textOf ts ++ textOf us :=
  List.flatMap_append

def EndsNumber (rest : List Char) : Prop := ∀ c ∈ rest.head?, isNumberChar c = false

theorem takeWhile_append_of_ends (n : Numeral) (h : EndsNumber rest) :
    (n.text ++ rest).takeWhile isNumberChar = n.text ∧
      (n.text ++ rest).dropWhile isNumberChar = rest := by
  rw [List.takeWhile_append_of_pos n.chars, List.dropWhile_append_of_pos n.chars]
  cases rest with
  | nil => simp
  | cons c cs => simp [h c rfl]

theorem parseNumber_numeral (n : Numeral) (h : EndsNumber rest) :
    parseNumber (n.text ++ rest) = some (decimalValue n.text, rest) := by
  obtain ⟨htake, hdrop⟩ := takeWhile_append_of_ends n h
  unfold parseNumber
  rw [htake, hdrop]
  refine if_neg ?_
  rintro (hpoints | hnil | hpoint)
  · exact absurd n.points (not_le.2 hpoints)
  · obtain ⟨c, hc, -⟩ := n.digit
    simp [hnil] at hc
  · obtain ⟨c, hc, hdigit⟩ := n.digit
    rw [hpoint, List.mem_singleton] at hc
    simp [hc] at hdigit

theorem exists_numeral_of_parseNumber (h : parseNumber cs = some (v, rest)) :
    ∃ n : Numeral, cs = n.text ++ rest ∧ v = decimalValue n.text := by
  unfold parseNumber at h
  dsimp only at h
  split at h
  · cases h
  rename_i hnot
  cases h
  rw [not_or, not_or, not_lt] at hnot
  obtain ⟨hpoints, hnil, hpoint⟩ := hnot
  have hchars : ∀ c ∈ cs.takeWhile isNumberChar, isNumberChar c = true := fun c hc =>
    List.mem_takeWhile_imp hc
  refine ⟨⟨cs.takeWhile isNumberChar, hchars, hpoints, ?_⟩,
    (List.takeWhile_append_dropWhile ..).symm, rfl⟩
  -- without a digit there are only points, so one of them
  by_contra! hdigit
  have hpoints' : ∀ c ∈ cs.takeWhile isNumberChar, c = '.' := by
    intro c hc
    have h := hchars c hc
    simpa [isNumberChar, hdigit c hc] using h
  rw [List.eq_replicate_of_mem hpoints'] at hpoints hnil hpoint
  rw [List.count_replicate_self] at hpoints
  rcases Nat.le_one_iff_eq_zero_or_eq_one.1 hpoints with hlength | hlength
  · exact hnil (by rw [hlength, List.replicate_zero])
  · exact hpoint (by rw [hlength, List.replicate_one])

/-! ## What is derived is read -/

def EndsTerm (rest : List Char) : Prop :=
  ∀ c ∈ rest.head?, isNumberChar c = false ∧ c ≠ '*' ∧ c ≠ '/'

def EndsExpression (rest : List Char) : Prop :=
  ∀ c ∈ rest.head?, isNumberChar c = false ∧ c ≠ '*' ∧ c ≠ '/' ∧ c ≠ '+' ∧ c ≠ '-'

theorem termLoop_of_ends (h : EndsTerm rest) : termLoop (n + 1) v rest = some (v, rest) := by
  unfold termLoop
  split <;> simp_all [EndsTerm]

theorem expressionLoop_of_ends (h : EndsExpression rest) :
    expressionLoop (n + 1) v rest = some (v, rest) := by
  unfold expressionLoop
  split <;> simp_all [EndsExpression]

theorem factor_numeral (n : Numeral) (h : EndsNumber rest) :
    factor (fuel + 1) (n.text ++ rest) = some (decimalValue n.text, rest) := by
  rw [← parseNumber_numeral n h]
  obtain ⟨c, hc, -⟩ := n.digit
  cases htext : n.text with
  | nil => simp [htext] at hc
  | cons d ds =>
    have hd := n.chars d (by simp [htext])
    have hminus : d ≠ '-' := by
      rintro rfl
      simp [isNumberChar] at hd
    have hparen : d ≠ '(' := by
      rintro rfl
      simp [isNumberChar] at hd
    unfold factor
    split <;> simp_all

theorem Numeral.length_pos (n : Numeral) : 0 < n.text.length := by
  obtain ⟨c, hc, -⟩ := n.digit
  exact List.length_pos_of_mem hc

theorem Factor.length_pos {ts : List Token} {v : ℚ} (h : Factor ts v) :
    0 < (textOf ts).length := by
  cases h with
  | neg h => simp [Token.text]
  | paren h => simp [Token.text]
  | number n => simpa [Token.text] using n.length_pos

theorem Term.length_pos {ts : List Token} {v : ℚ} (h : Term ts v) : 0 < (textOf ts).length := by
  cases h with
  | factor h => exact h.length_pos
  | mul h h' => simp [Token.text, Operator.char]
  | div h h' hne => simp [Token.text, Operator.char]

theorem textOf_append_op (ts us : List Token) (o : Operator) :
    textOf (ts ++ .op o :: us) = textOf ts ++ o.char :: textOf us := by
  simp [Token.text]

/-- The parser reads the tokens as a factor of a value, whatever text comes after them. -/
def ReadsFactor (ts : List Token) (v : ℚ) : Prop :=
  ∀ fuel rest, 4 * (textOf ts).length < fuel → EndsNumber rest →
    factor fuel (textOf ts ++ rest) = some (v, rest)

/-- The parser reads the tokens as a term up to its loop, with enough depth left. -/
def ReadsTerm (ts : List Token) (v : ℚ) : Prop :=
  ∀ fuel rest, 4 * (textOf ts).length + 1 < fuel → EndsNumber rest →
    ∃ m, fuel ≤ m + 4 * (textOf ts).length ∧ term fuel (textOf ts ++ rest) = termLoop m v rest

/-- The parser reads the tokens as an expression up to its loop, with enough depth left. -/
def ReadsExpression (ts : List Token) (v : ℚ) : Prop :=
  ∀ fuel rest, 4 * (textOf ts).length + 2 < fuel → EndsTerm rest →
    ∃ m, fuel ≤ m + 4 * (textOf ts).length ∧
      expression fuel (textOf ts ++ rest) = expressionLoop m v rest

theorem ReadsFactor.neg (h : ReadsFactor ts v) : ReadsFactor (.op .minus :: ts) (-v) := by
  intro fuel rest hfuel hrest
  have htext : textOf (.op .minus :: ts) = '-' :: textOf ts := rfl
  rw [htext, List.length_cons] at hfuel
  obtain ⟨k, rfl⟩ : ∃ k, fuel = k + 1 := ⟨fuel - 1, by omega⟩
  rw [htext, List.cons_append, factor, h k rest (by omega) hrest]
  rfl

theorem ReadsExpression.paren (h : ReadsExpression ts v) :
    ReadsFactor (.leftParen :: ts ++ [.rightParen]) v := by
  intro fuel rest hfuel hrest
  have htext : textOf (.leftParen :: ts ++ [.rightParen]) = '(' :: (textOf ts ++ [')']) := by
    simp [Token.text]
  rw [htext, List.length_cons, List.length_append, List.length_singleton] at hfuel
  obtain ⟨k, rfl⟩ : ∃ k, fuel = k + 1 := ⟨fuel - 1, by omega⟩
  obtain ⟨m, hm, hread⟩ := h k (')' :: rest) (by omega) (by simp [EndsTerm, isNumberChar])
  obtain ⟨m, rfl⟩ : ∃ m', m = m' + 1 := ⟨m - 1, by omega⟩
  rw [expressionLoop_of_ends (by simp [EndsExpression, isNumberChar])] at hread
  rw [htext, List.cons_append, List.append_assoc, List.singleton_append, factor, hread]
  rfl

theorem readsFactor_number (n : Numeral) : ReadsFactor [.number n] (decimalValue n.text) := by
  intro fuel rest hfuel hrest
  obtain ⟨k, rfl⟩ : ∃ k, fuel = k + 1 := ⟨fuel - 1, by omega⟩
  rw [textOf_cons, textOf_nil, List.append_nil]
  exact factor_numeral n hrest

theorem ReadsFactor.term (hpos : 0 < (textOf ts).length) (h : ReadsFactor ts v) :
    ReadsTerm ts v := by
  intro fuel rest hfuel hrest
  obtain ⟨k, rfl⟩ : ∃ k, fuel = k + 1 := ⟨fuel - 1, by omega⟩
  refine ⟨k, by omega, ?_⟩
  rw [MathEval.term, h k rest (by omega) hrest]
  rfl

theorem ReadsTerm.op {o : Operator} {x : ℚ} (h : ReadsTerm ts v) (h' : ReadsFactor us w)
    (hend : isNumberChar o.char = false)
    (hloop : ∀ m rest, factor m (textOf us ++ rest) = some (w, rest) →
      termLoop (m + 1) v (o.char :: (textOf us ++ rest)) = termLoop m x rest) :
    ReadsTerm (ts ++ .op o :: us) x := by
  intro fuel rest hfuel hrest
  rw [textOf_append_op, List.length_append, List.length_cons] at hfuel ⊢
  obtain ⟨m, hm, hleft⟩ := h fuel (o.char :: (textOf us ++ rest)) (by omega)
    (by simpa [EndsNumber] using hend)
  obtain ⟨m, rfl⟩ : ∃ m', m = m' + 1 := ⟨m - 1, by omega⟩
  refine ⟨m, by omega, ?_⟩
  rw [List.append_assoc, List.cons_append, hleft]
  exact hloop m rest (h' m rest (by omega) hrest)

theorem ReadsTerm.eq_some (h : ReadsTerm ts v) (hfuel : 4 * (textOf ts).length + 1 < fuel)
    (hrest : EndsTerm rest) : MathEval.term fuel (textOf ts ++ rest) = some (v, rest) := by
  obtain ⟨m, hm, hread⟩ := h fuel rest hfuel fun c hc => (hrest c hc).1
  obtain ⟨m, rfl⟩ : ∃ m', m = m' + 1 := ⟨m - 1, by omega⟩
  rw [hread, termLoop_of_ends hrest]

theorem ReadsTerm.expression (hpos : 0 < (textOf ts).length) (h : ReadsTerm ts v) :
    ReadsExpression ts v := by
  intro fuel rest hfuel hrest
  obtain ⟨k, rfl⟩ : ∃ k, fuel = k + 1 := ⟨fuel - 1, by omega⟩
  refine ⟨k, by omega, ?_⟩
  rw [MathEval.expression, h.eq_some (by omega) hrest]
  rfl

theorem ReadsExpression.op {o : Operator} {x : ℚ} (h : ReadsExpression ts v)
    (h' : ReadsTerm us w) (hend : EndsTerm [o.char])
    (hloop : ∀ m rest, term m (textOf us ++ rest) = some (w, rest) →
      expressionLoop (m + 1) v (o.char :: (textOf us ++ rest)) = expressionLoop m x rest) :
    ReadsExpression (ts ++ .op o :: us) x := by
  intro fuel rest hfuel hrest
  rw [textOf_append_op, List.length_append, List.length_cons] at hfuel ⊢
  obtain ⟨m, hm, hleft⟩ := h fuel (o.char :: (textOf us ++ rest)) (by omega)
    (by simpa [EndsTerm] using hend)
  obtain ⟨m, rfl⟩ : ∃ m', m = m' + 1 := ⟨m - 1, by omega⟩
  refine ⟨m, by omega, ?_⟩
  rw [List.append_assoc, List.cons_append, hleft]
  exact hloop m rest (h'.eq_some (by omega) hrest)

theorem Expression.reads (h : Expression ts v) : ReadsExpression ts v := by
  refine @Expression.rec (fun ts v _ => ReadsFactor ts v) (fun ts v _ => ReadsTerm ts v)
    (fun ts v _ => ReadsExpression ts v) ?neg ?paren readsFactor_number ?factor ?mul ?div ?term
    ?add ?sub ts v h
  case neg => exact fun _ ih => ih.neg
  case paren => exact fun _ ih => ih.paren
  case factor => exact fun h ih => ih.term h.length_pos
  case mul =>
    refine fun _ _ ih ih' => ih.op ih' (by decide) fun m rest hright => ?_
    rw [Operator.char, termLoop, hright]
    rfl
  case div =>
    refine fun _ _ hne ih ih' => ih.op ih' (by decide) fun m rest hright => ?_
    rw [Operator.char, termLoop, hright]
    exact if_neg hne
  case term => exact fun h ih => ih.expression h.length_pos
  case add =>
    refine fun _ _ ih ih' => ih.op ih' (by simp [EndsTerm, Operator.char, isNumberChar])
      fun m rest hright => ?_
    rw [Operator.char, expressionLoop, hright]
    rfl
  case sub =>
    refine fun _ _ ih ih' => ih.op ih' (by simp [EndsTerm, Operator.char, isNumberChar])
      fun m rest hright => ?_
    rw [Operator.char, expressionLoop, hright]
    rfl

theorem parse_textOf (h : Expression ts v) : parse (textOf ts) = some v := by
  obtain ⟨m, hm, hread⟩ := h.reads (4 * (textOf ts).length + 4) [] (by omega)
    (by simp [EndsTerm])
  obtain ⟨m, rfl⟩ : ∃ m', m = m' + 1 := ⟨m - 1, by omega⟩
  rw [List.append_nil, expressionLoop_of_ends (by simp [EndsExpression])] at hread
  rw [parse, hread]

/-! ## What is read is derived -/

/-- What is read with a depth of calls is derived in the grammar. -/
structure Sound (n : ℕ) : Prop where
  factor : ∀ cs v rest, factor n cs = some (v, rest) →
    ∃ ts, cs = textOf ts ++ rest ∧ Factor ts v
  term : ∀ cs v rest, term n cs = some (v, rest) → ∃ ts, cs = textOf ts ++ rest ∧ Term ts v
  termLoop : ∀ ts left cs v rest, Term ts left → termLoop n left cs = some (v, rest) →
    ∃ us, cs = textOf us ++ rest ∧ Term (ts ++ us) v
  expression : ∀ cs v rest, expression n cs = some (v, rest) →
    ∃ ts, cs = textOf ts ++ rest ∧ Expression ts v
  expressionLoop : ∀ ts left cs v rest, Expression ts left →
    expressionLoop n left cs = some (v, rest) →
    ∃ us, cs = textOf us ++ rest ∧ Expression (ts ++ us) v

theorem Sound.factor_succ (h : Sound n) (hread : MathEval.factor (n + 1) cs = some (v, rest)) :
    ∃ ts, cs = textOf ts ++ rest ∧ Factor ts v := by
  unfold MathEval.factor at hread
  split at hread
  · cases ‹n + 1 = 0›
  · rename_i cs heq
    cases heq
    obtain ⟨⟨f, rest'⟩, hf, hread⟩ := Option.map_eq_some_iff.1 hread
    cases hread
    obtain ⟨ts, rfl, hts⟩ := h.factor _ _ _ hf
    exact ⟨_, rfl, hts.neg⟩
  · rename_i cs heq
    cases heq
    split at hread
    · rename_i expr rest' hexpr
      cases hread
      obtain ⟨ts, rfl, hts⟩ := h.expression _ _ _ hexpr
      exact ⟨_, by simp [Token.text], .paren hts⟩
    · cases hread
  · obtain ⟨number, rfl, rfl⟩ := exists_numeral_of_parseNumber hread
    exact ⟨[.number number], by simp [Token.text], .number number⟩

theorem Sound.term_succ (h : Sound n) (hread : MathEval.term (n + 1) cs = some (v, rest)) :
    ∃ ts, cs = textOf ts ++ rest ∧ Term ts v := by
  obtain ⟨⟨left, rest'⟩, hleft, hloop⟩ := Option.bind_eq_some_iff.1 hread
  obtain ⟨ts, rfl, hts⟩ := h.factor _ _ _ hleft
  obtain ⟨us, rfl, hus⟩ := h.termLoop _ _ _ _ _ (.factor hts) hloop
  exact ⟨ts ++ us, by simp, hus⟩

theorem Sound.termLoop_succ (h : Sound n) {left : ℚ} (hts : Term ts left)
    (hread : MathEval.termLoop (n + 1) left cs = some (v, rest)) :
    ∃ us, cs = textOf us ++ rest ∧ Term (ts ++ us) v := by
  unfold MathEval.termLoop at hread
  split at hread
  · cases ‹n + 1 = 0›
  · rename_i cs heq
    cases heq
    obtain ⟨⟨right, rest'⟩, hright, hloop⟩ := Option.bind_eq_some_iff.1 hread
    obtain ⟨us, rfl, hus⟩ := h.factor _ _ _ hright
    obtain ⟨us', rfl, hus'⟩ := h.termLoop _ _ _ _ _ (hts.mul hus) hloop
    exact ⟨.op .times :: us ++ us', by simp [Token.text, Operator.char], by simpa using hus'⟩
  · rename_i cs heq
    cases heq
    obtain ⟨⟨right, rest'⟩, hright, hloop⟩ := Option.bind_eq_some_iff.1 hread
    obtain ⟨us, rfl, hus⟩ := h.factor _ _ _ hright
    dsimp only at hloop
    split at hloop
    · cases hloop
    rename_i hne
    obtain ⟨us', rfl, hus'⟩ := h.termLoop _ _ _ _ _ (hts.div hus hne) hloop
    exact ⟨.op .divide :: us ++ us', by simp [Token.text, Operator.char], by simpa using hus'⟩
  · cases hread
    exact ⟨[], rfl, by simpa using hts⟩

theorem Sound.expression_succ (h : Sound n)
    (hread : MathEval.expression (n + 1) cs = some (v, rest)) :
    ∃ ts, cs = textOf ts ++ rest ∧ Expression ts v := by
  obtain ⟨⟨left, rest'⟩, hleft, hloop⟩ := Option.bind_eq_some_iff.1 hread
  obtain ⟨ts, rfl, hts⟩ := h.term _ _ _ hleft
  obtain ⟨us, rfl, hus⟩ := h.expressionLoop _ _ _ _ _ (.term hts) hloop
  exact ⟨ts ++ us, by simp, hus⟩

theorem Sound.expressionLoop_succ (h : Sound n) {left : ℚ} (hts : Expression ts left)
    (hread : MathEval.expressionLoop (n + 1) left cs = some (v, rest)) :
    ∃ us, cs = textOf us ++ rest ∧ Expression (ts ++ us) v := by
  unfold MathEval.expressionLoop at hread
  split at hread
  · cases ‹n + 1 = 0›
  · rename_i cs heq
    cases heq
    obtain ⟨⟨right, rest'⟩, hright, hloop⟩ := Option.bind_eq_some_iff.1 hread
    obtain ⟨us, rfl, hus⟩ := h.term _ _ _ hright
    obtain ⟨us', rfl, hus'⟩ := h.expressionLoop _ _ _ _ _ (hts.add hus) hloop
    exact ⟨.op .plus :: us ++ us', by simp [Token.text, Operator.char], by simpa using hus'⟩
  · rename_i cs heq
    cases heq
    obtain ⟨⟨right, rest'⟩, hright, hloop⟩ := Option.bind_eq_some_iff.1 hread
    obtain ⟨us, rfl, hus⟩ := h.term _ _ _ hright
    obtain ⟨us', rfl, hus'⟩ := h.expressionLoop _ _ _ _ _ (hts.sub hus) hloop
    exact ⟨.op .minus :: us ++ us', by simp [Token.text, Operator.char], by simpa using hus'⟩
  · cases hread
    exact ⟨[], rfl, by simpa using hts⟩

theorem sound (n : ℕ) : Sound n := by
  induction n with
  | zero => constructor <;> intros <;> simp_all [factor, term, termLoop, expression, expressionLoop]
  | succ n ih =>
    exact ⟨fun _ _ _ => ih.factor_succ, fun _ _ _ => ih.term_succ,
      fun _ _ _ _ _ => ih.termLoop_succ, fun _ _ _ => ih.expression_succ,
      fun _ _ _ _ _ => ih.expressionLoop_succ⟩

theorem parse_eq_some_iff : parse cs = some v ↔ ∃ ts, textOf ts = cs ∧ Expression ts v := by
  constructor
  · intro h
    unfold parse at h
    split at h
    · rename_i result hread
      cases h
      obtain ⟨ts, htext, hts⟩ := (sound _).expression _ _ _ hread
      exact ⟨ts, by simpa using htext.symm, hts⟩
    · cases h
  · rintro ⟨ts, rfl, hts⟩
    exact parse_textOf hts

theorem containsMathExpression_trim (cs : List Char) :
    containsMathExpression (Text.trim cs) = containsMathExpression cs := by
  unfold containsMathExpression
  rw [Text.trim_trim]

/-- The tokens with white space before, between and after them. -/
inductive Spaced : List Token → List Char → Prop
  | nil {space : List Char} : (∀ c ∈ space, Text.isSpace c = true) → Spaced [] space
  | cons {space s : List Char} {t : Token} {ts : List Token} :
      (∀ c ∈ space, Text.isSpace c = true) → Spaced ts s → Spaced (t :: ts) (space ++ t.text ++ s)

def Token.isNumber : Token → Bool
  | number _ => true
  | _ => false

def Token.isOperator : Token → Bool
  | op _ => true
  | _ => false

theorem Expression.countP_isNumber_le (h : Expression ts v) :
    ts.countP Token.isNumber ≤ ts.countP Token.isOperator + 1 := by
  let P (ts : List Token) (_ : ℚ) : Prop :=
    ts.countP Token.isNumber ≤ ts.countP Token.isOperator + 1
  refine @Expression.rec (fun ts v _ => P ts v) (fun ts v _ => P ts v) (fun ts v _ => P ts v)
    ?neg ?paren ?number ?factor ?mul ?div ?term ?add ?sub ts v h
  case factor | term => exact fun _ ih => ih
  case number => exact fun _ => by simp [P, Token.isNumber]
  all_goals
    intros
    simp only [P, List.countP_append, List.countP_cons, List.countP_nil, List.cons_append,
      Token.isNumber, Token.isOperator, if_true, Bool.false_eq_true, if_false] at *
    omega

/-- The number of runs of number characters, after a character that is one or not. -/
def runsAfter : Bool → List Char → ℕ
  | _, [] => 0
  | inside, c :: cs =>
    (if isNumberChar c && !inside then 1 else 0) + runsAfter (isNumberChar c) cs

theorem runsAfter_le (b : Bool) (s : List Char) : runsAfter b s ≤ runsAfter false s := by
  cases s with
  | nil => exact le_rfl
  | cons c s => cases b <;> simp [runsAfter]

theorem runsAfter_append_of_not {text : List Char} (h : ∀ c ∈ text, isNumberChar c = false)
    (b : Bool) (s : List Char) : runsAfter b (text ++ s) ≤ runsAfter false s := by
  induction text generalizing b with
  | nil => exact runsAfter_le b s
  | cons c text ih =>
    rw [List.forall_mem_cons] at h
    simpa [runsAfter, h.1] using ih h.2 false

theorem runsAfter_true_append {text : List Char} (h : ∀ c ∈ text, isNumberChar c = true)
    (s : List Char) : runsAfter true (text ++ s) ≤ runsAfter false s := by
  induction text with
  | nil => exact runsAfter_le true s
  | cons c text ih =>
    rw [List.forall_mem_cons] at h
    simpa [runsAfter, h.1] using ih h.2

theorem runsAfter_numeral (n : Numeral) (b : Bool) (s : List Char) :
    runsAfter b (n.text ++ s) ≤ 1 + runsAfter false s := by
  have hchars := n.chars
  generalize n.text = text at hchars
  cases text with
  | nil => exact (runsAfter_le b s).trans (by omega)
  | cons c text =>
    rw [List.forall_mem_cons] at hchars
    have hrest := runsAfter_true_append hchars.2 s
    simp only [List.cons_append, runsAfter, hchars.1]
    split <;> omega

theorem isNumberChar_of_isSpace {c : Char} (h : Text.isSpace c = true) :
    isNumberChar c = false := by
  rw [isNumberChar, Bool.or_eq_false_iff]
  constructor
  · by_contra hdigit
    rw [Text.isSpace_of_isDigit (by simpa using hdigit)] at h
    cases h
  · rw [decide_eq_false_iff_not]
    rintro rfl
    exact absurd h (by decide)

theorem Spaced.runsAfter_le_countP {s : List Char} (h : Spaced ts s) :
    runsAfter false s ≤ ts.countP Token.isNumber := by
  induction h with
  | nil hspace =>
    simpa [runsAfter] using
      runsAfter_append_of_not (fun c hc => isNumberChar_of_isSpace (hspace c hc)) false []
  | @cons space s t ts hspace _ ih =>
    rw [List.append_assoc]
    have hskip := runsAfter_append_of_not (fun c hc => isNumberChar_of_isSpace (hspace c hc))
      false (t.text ++ s)
    rw [List.countP_cons]
    cases t with
    | number n =>
      have := runsAfter_numeral n false s
      simp only [Token.text, Token.isNumber, if_true] at *
      omega
    | op o =>
      have hnot : ∀ c ∈ [o.char], isNumberChar c = false := by
        cases o <;> simp [Operator.char, isNumberChar]
      have := runsAfter_append_of_not hnot false s
      simp only [Token.text] at *
      omega
    | leftParen =>
      have hnot : ∀ c ∈ ['('], isNumberChar c = false := by simp [isNumberChar]
      have := runsAfter_append_of_not hnot false s
      simp only [Token.text] at *
      omega
    | rightParen =>
      have hnot : ∀ c ∈ [')'], isNumberChar c = false := by simp [isNumberChar]
      have := runsAfter_append_of_not hnot false s
      simp only [Token.text] at *
      omega

theorem Spaced.countP_isOperator_le {s : List Char} (h : Spaced ts s) :
    ts.countP Token.isOperator ≤ s.countP fun c => c ∈ ['+', '-', '*', '/'] := by
  induction h with
  | nil => exact Nat.zero_le _
  | @cons space s t ts hspace _ ih =>
    rw [List.countP_cons, List.append_assoc, List.countP_append, List.countP_append]
    cases t with
    | op o => cases o <;> simp [Token.text, Token.isOperator, Operator.char] at * <;> omega
    | _ =>
      simp only [Token.isOperator, Bool.false_eq_true, if_false] at *
      omega

end MathEval
