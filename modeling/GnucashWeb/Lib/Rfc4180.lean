import Mathlib

/-!
# Comma-separated values

A strict reader of comma-separated values, with line feeds for line breaks too.  It reads back what
lines of well written fields hold (`readCsv_text`), and a text that it reads is at least as long as
what it reads takes to write (`extent_le_of_readCsv`).
-/

namespace Rfc4180

/-! ## The reader -/

/-- Where in a field the reader is; `ending` is between the characters of a line break. -/
inductive Mode
  | start
  | plain
  | quoted
  | closed
  | ending
deriving DecidableEq

structure Scan where
  rows : List (List (List Char))
  row : List (List Char)
  field : List Char
  mode : Mode

def Scan.init : Scan := ⟨[], [], [], .start⟩

def Scan.endField (s : Scan) : Scan :=
  { s with row := s.row ++ [s.field], field := [], mode := .start }

def Scan.endRow (s : Scan) : Scan :=
  ⟨s.rows ++ [s.row ++ [s.field]], [], [], .start⟩

/-- A character after a field or in one without quotes. -/
def Scan.outside (s : Scan) (c : Char) : Option Scan :=
  if c = ',' then some s.endField
  else if c = '\n' then some s.endRow
  else if c = '\r' then some { s with mode := .ending }
  else if s.mode = .closed then none
  else some { s with field := s.field ++ [c], mode := .plain }

def Scan.step (s : Scan) (c : Char) : Option Scan :=
  match s.mode with
  | .quoted =>
    if c = '"' then some { s with mode := .closed }
    else some { s with field := s.field ++ [c] }
  | .ending => if c = '\n' then some s.endRow else none
  | .start => if c = '"' then some { s with mode := .quoted } else s.outside c
  | .plain => if c = '"' then none else s.outside c
  | .closed =>
    if c = '"' then some { s with field := s.field ++ [c], mode := .quoted } else s.outside c

/-- The rows at the end of the text; there is none after a last line break. -/
def Scan.finish (s : Scan) : Option (List (List (List Char))) :=
  match s.mode with
  | .quoted | .ending => none
  | .start => if s.row = [] then some s.rows else some s.endRow.rows
  | .plain | .closed => some s.endRow.rows

def readCsv (text : List Char) : Option (List (List (List Char))) :=
  (text.foldlM Scan.step Scan.init).bind Scan.finish

/-! ## Written fields -/

def Plain (value : List Char) : Prop := ∀ c ∈ value, c ≠ ',' ∧ c ≠ '"' ∧ c ≠ '\n' ∧ c ≠ '\r'

instance (value : List Char) : Decidable (Plain value) := List.decidableBAll _ value

def doubled (value : List Char) : List Char :=
  value.flatMap fun c => if c = '"' then ['"', '"'] else [c]

def quoted (value : List Char) : List Char := '"' :: doubled value ++ ['"']

/-- A value and its text, which is in quotes where the value needs them. -/
structure Field where
  value : List Char
  text : List Char
  written : Plain value ∧ text = value ∨ text = quoted value

def lineText (line : List Field) : List Char := [','].intercalate (line.map Field.text)

def linesText (lines : List (List Field)) : List Char := ['\n'].intercalate (lines.map lineText)

def rowsOf (lines : List (List Field)) : List (List (List Char)) :=
  let rows := lines.map fun line => line.map Field.value
  if lines.getLast?.map lineText = some [] then rows.dropLast else rows

/-- The reader has come to the end of a field. -/
def Ended (mode : Mode) : Prop := mode = .start ∨ mode = .plain ∨ mode = .closed

variable {s : Scan} {read : ℕ}

theorem Scan.step_comma (h : Ended s.mode) : s.step ',' = some s.endField := by
  obtain ⟨rows, row, field, mode⟩ := s
  rcases h with h | h | h <;> subst h <;> rfl

theorem Scan.step_newline (h : Ended s.mode) : s.step '\n' = some s.endRow := by
  obtain ⟨rows, row, field, mode⟩ := s
  rcases h with h | h | h <;> subst h <;> rfl

theorem foldlM_plain {value : List Char} (h : Plain value)
    (hs : s.mode = .start ∨ s.mode = .plain) :
    ∃ mode, Ended mode ∧ (mode = .start ↔ s.mode = .start ∧ value = []) ∧
      value.foldlM Scan.step s = some { s with field := s.field ++ value, mode := mode } := by
  induction value generalizing s with
  | nil => exact ⟨s.mode, hs.imp_right .inl, by simp, by simp⟩
  | cons c value ih =>
    obtain ⟨hcomma, hquote, hlf, hcr⟩ := h c List.mem_cons_self
    have hstep : s.step c = some { s with field := s.field ++ [c], mode := .plain } := by
      obtain ⟨rows, row, field, mode⟩ := s
      rcases hs with hs | hs <;> subst hs <;>
        simp [Scan.step, Scan.outside, hcomma, hquote, hlf, hcr]
    obtain ⟨mode, hmode, hstart, hrun⟩ := ih (fun c hc => h c (List.mem_cons_of_mem _ hc))
      (s := { s with field := s.field ++ [c], mode := .plain }) (.inr rfl)
    refine ⟨mode, hmode, ?_, ?_⟩
    · rw [hstart]
      simp
    · rw [List.foldlM_cons, hstep]
      simpa using hrun

theorem foldlM_doubled (value : List Char) (hs : s.mode = .quoted) :
    (doubled value).foldlM Scan.step s = some { s with field := s.field ++ value } := by
  induction value generalizing s with
  | nil => simp [doubled]
  | cons c value ih =>
    obtain ⟨rows, row, field, mode⟩ := s
    subst hs
    have hrun := ih (s := ⟨rows, row, field ++ [c], .quoted⟩) rfl
    rw [doubled, List.flatMap_cons, ← doubled, List.foldlM_append]
    by_cases hc : c = '"'
    · subst hc
      simpa [Scan.step] using hrun
    · simpa [hc, Scan.step] using hrun

theorem foldlM_field (f : Field) (hs : s.mode = .start) (hfield : s.field = []) :
    ∃ mode, Ended mode ∧ (mode = .start ↔ f.text = []) ∧
      f.text.foldlM Scan.step s = some { s with field := f.value, mode := mode } := by
  obtain ⟨value, text, ⟨hplain, rfl⟩ | rfl⟩ := f
  · obtain ⟨mode, hmode, hstart, hrun⟩ := foldlM_plain hplain (.inl hs)
    refine ⟨mode, hmode, by rw [hstart, and_iff_right hs], ?_⟩
    rw [hrun, hfield, List.nil_append]
  · obtain ⟨rows, row, field, mode⟩ := s
    subst hs hfield
    refine ⟨.closed, .inr (.inr rfl), by simp [quoted], ?_⟩
    have hrun := foldlM_doubled value (s := ⟨rows, row, [], .quoted⟩) rfl
    change ((doubled value ++ ['"']).foldlM Scan.step ⟨rows, row, [], .quoted⟩) = _
    rw [List.foldlM_append, hrun]
    rfl

theorem foldlM_line {line : List Field} (hline : line ≠ []) (hs : s.mode = .start)
    (hfield : s.field = []) :
    ∃ s', (lineText line).foldlM Scan.step s = some s' ∧ Ended s'.mode ∧
      s'.endRow = ⟨s.rows ++ [s.row ++ line.map Field.value], [], [], .start⟩ ∧
      (s'.mode = .start ∧ s'.row = [] ↔ s.row = [] ∧ lineText line = []) := by
  induction line generalizing s with
  | nil => exact absurd rfl hline
  | cons f line ih =>
    obtain ⟨mode, hmode, hstart, hrun⟩ := foldlM_field f hs hfield
    cases line with
    | nil =>
      refine ⟨{ s with field := f.value, mode := mode }, ?_, hmode, by simp [Scan.endRow], ?_⟩
      · simpa [lineText] using hrun
      · simp [lineText, hstart, and_comm]
    | cons g line =>
      have htext : lineText (f :: g :: line) = f.text ++ ',' :: lineText (g :: line) := by
        simp [lineText, List.intercalate_cons_cons]
      obtain ⟨s', hrun', hmode', hrow, hblank⟩ := ih (List.cons_ne_nil _ _)
        (s := Scan.endField { s with field := f.value, mode := mode }) rfl rfl
      refine ⟨s', ?_, hmode', ?_, ?_⟩
      · rw [htext, List.foldlM_append, hrun]
        change (List.foldlM Scan.step _ (',' :: lineText (g :: line))) = _
        rw [List.foldlM_cons, Scan.step_comma hmode]
        exact hrun'
      · simpa [Scan.endField] using hrow
      · rw [hblank, htext]
        simp [Scan.endField]

theorem rowsOf_cons (line line' : List Field) (lines : List (List Field)) :
    rowsOf (line :: line' :: lines) = line.map Field.value :: rowsOf (line' :: lines) := by
  unfold rowsOf
  rw [List.getLast?_cons_cons]
  split <;> simp

theorem readCsv_linesText {lines : List (List Field)} (hne : lines ≠ [])
    (hlines : ∀ line ∈ lines, line ≠ []) : readCsv (linesText lines) = some (rowsOf lines) := by
  have hrun (rows : List (List (List Char))) :
      ((linesText lines).foldlM Scan.step ⟨rows, [], [], .start⟩).bind Scan.finish =
        some (rows ++ rowsOf lines) := by
    induction lines generalizing rows with
    | nil => exact absurd rfl hne
    | cons line lines ih =>
      obtain ⟨s', hrun, hmode, hrow, hblank⟩ := foldlM_line (hlines line List.mem_cons_self)
        (s := ⟨rows, [], [], .start⟩) rfl rfl
      cases lines with
      | nil =>
        rw [show linesText [line] = lineText line by simp [linesText], hrun]
        have hrows := congrArg Scan.rows hrow
        by_cases hempty : lineText line = []
        · obtain ⟨hstart, hnil⟩ := hblank.2 ⟨rfl, hempty⟩
          have hsame : s'.rows = rows := (List.append_inj' hrows rfl).1
          simp [Scan.finish, hstart, hnil, hsame, rowsOf, hempty]
        · have hfinish : s'.finish = some s'.endRow.rows := by
            have hnot := mt hblank.1 fun h => hempty h.2
            obtain ⟨_, row, field, mode⟩ := s'
            rcases hmode with h | h | h <;> subst h
            · exact if_neg fun hnil => hnot ⟨rfl, hnil⟩
            · rfl
            · rfl
          simp [hfinish, hrow, rowsOf, hempty]
      | cons line' lines =>
        have htext : linesText (line :: line' :: lines) =
            lineText line ++ '\n' :: linesText (line' :: lines) := by
          simp [linesText, List.intercalate_cons_cons]
        rw [htext, List.foldlM_append, hrun]
        change ((List.foldlM Scan.step s' ('\n' :: linesText (line' :: lines))).bind _) = _
        rw [List.foldlM_cons, Scan.step_newline hmode, hrow]
        have hrest := ih (List.cons_ne_nil _ _) (fun l hl => hlines l (List.mem_cons_of_mem _ hl))
          (rows ++ [line.map Field.value])
        rw [rowsOf_cons]
        simpa using hrest
  exact hrun []

/-! ## The length of a text -/

/-- The length of the shortest text of a value. -/
def least (value : List Char) : ℕ :=
  if Plain value then value.length else value.length + value.count '"' + 2

def rowExtent (row : List (List Char)) : ℕ := (row.map fun value => least value + 1).sum

/-- What rows take to write, each value with a separator after it. -/
def extent (rows : List (List (List Char))) : ℕ := (rows.map rowExtent).sum

def Scan.fieldExtent (s : Scan) : ℕ :=
  match s.mode with
  | .start | .plain => s.field.length
  | .quoted => s.field.length + s.field.count '"' + 1
  | .closed => s.field.length + s.field.count '"' + 2
  | .ending => least s.field

/-- The reader holds no more than it has read. -/
structure Scan.Fits (s : Scan) (read : ℕ) : Prop where
  start : s.mode = .start → s.field = []
  plain : s.mode = .plain → Plain s.field
  holds : extent s.rows + rowExtent s.row + s.fieldExtent ≤ read

theorem length_quoted (value : List Char) :
    (quoted value).length = value.length + value.count '"' + 2 := by
  have hdoubled : (doubled value).length = value.length + value.count '"' := by
    induction value with
    | nil => rfl
    | cons c value ih =>
      rw [doubled, List.flatMap_cons, ← doubled, List.length_append, ih, List.length_cons,
        List.count_cons]
      by_cases hc : c = '"'
      · simp [hc]
        omega
      · simp [hc]
        omega
  rw [quoted, List.cons_append, List.length_cons, List.length_append, hdoubled]
  rfl

theorem length_intercalate {α : Type*} (sep : α) {xs : List (List α)} (h : xs ≠ []) :
    ([sep].intercalate xs).length + 1 = (xs.map fun x => x.length + 1).sum := by
  induction xs with
  | nil => exact absurd rfl h
  | cons x xs ih =>
    cases xs with
    | nil => simp
    | cons y xs =>
      rw [List.intercalate_cons_cons, List.map_cons, List.sum_cons, ← ih (List.cons_ne_nil y xs)]
      simp only [List.length_append, List.length_singleton]
      omega

theorem least_le (value : List Char) : least value ≤ value.length + value.count '"' + 2 := by
  unfold least
  split <;> omega

theorem length_le_least (value : List Char) : value.length ≤ least value := by
  unfold least
  split <;> omega

theorem rowExtent_concat (row : List (List Char)) (value : List Char) :
    rowExtent (row ++ [value]) = rowExtent row + (least value + 1) := by
  simp [rowExtent]

theorem extent_concat (rows : List (List (List Char))) (row : List (List Char)) :
    extent (rows ++ [row]) = extent rows + rowExtent row := by
  simp [extent]

theorem Scan.Fits.least_le (h : s.Fits read) (hmode : s.mode ≠ .quoted) :
    least s.field ≤ s.fieldExtent := by
  obtain ⟨rows, row, field, mode⟩ := s
  obtain ⟨hstart, hplain, -⟩ := h
  unfold fieldExtent
  cases mode with
  | start =>
    have hnil : least [] = 0 := by decide
    rw [hstart rfl, hnil]
    exact Nat.zero_le _
  | plain => exact (if_pos (hplain rfl)).le
  | quoted => exact absurd rfl hmode
  | closed => exact Rfc4180.least_le field
  | ending => exact le_rfl

theorem Scan.Fits.endRow (h : s.Fits read) (hmode : s.mode ≠ .quoted) :
    extent s.endRow.rows ≤ read + 1 := by
  have hleast := h.least_le hmode
  have hextent := h.holds
  rw [Scan.endRow, extent_concat, rowExtent_concat]
  omega

theorem Scan.Fits.outside {s' : Scan} {c : Char} (h : s.Fits read)
    (hmode : Ended s.mode) (hc : c ≠ '"') (hstep : s.outside c = some s') : s'.Fits (read + 1) := by
  have hquoted : s.mode ≠ .quoted := by
    rintro heq
    rw [heq] at hmode
    simp [Ended] at hmode
  have hleast := h.least_le hquoted
  have hextent := h.holds
  unfold Scan.outside at hstep
  split_ifs at hstep with hcomma hlf hcr hclosed
  · obtain rfl := Option.some.inj hstep
    refine ⟨fun _ => rfl, by simp [Scan.endField], ?_⟩
    simp only [Scan.endField, rowExtent_concat, Scan.fieldExtent, List.length_nil]
    omega
  · obtain rfl := Option.some.inj hstep
    refine ⟨fun _ => rfl, by simp [Scan.endRow], ?_⟩
    have hrow := h.endRow hquoted
    simpa [Scan.endRow, rowExtent, Scan.fieldExtent] using hrow
  · obtain rfl := Option.some.inj hstep
    refine ⟨by simp, by simp, ?_⟩
    simp only [Scan.fieldExtent]
    omega
  · obtain rfl := Option.some.inj hstep
    obtain ⟨rows, row, field, mode⟩ := s
    have hplain : Plain field := by
      rcases hmode with rfl | rfl | rfl
      · rw [show field = [] from h.start rfl]
        exact fun _ h => absurd h List.not_mem_nil
      · exact h.plain rfl
      · exact absurd rfl hclosed
    refine ⟨by simp, fun _ d hd => ?_, ?_⟩
    · rcases List.mem_append.1 hd with hd | hd
      · exact hplain d hd
      · rw [List.mem_singleton.1 hd]
        exact ⟨hcomma, hc, hlf, hcr⟩
    · have hlen := length_le_least field
      dsimp only at hleast hextent
      simp only [Scan.fieldExtent.eq_def ⟨_, _, _, .plain⟩, List.length_append, List.length_singleton]
      omega

theorem Scan.Fits.step {s' : Scan} {c : Char} (h : s.Fits read)
    (hstep : s.step c = some s') : s'.Fits (read + 1) := by
  have hextent := h.holds
  obtain ⟨rows, row, field, mode⟩ := s
  unfold Scan.step at hstep
  cases mode with
  | start =>
    dsimp only at hstep
    split_ifs at hstep with hquote
    · obtain rfl := Option.some.inj hstep
      have hnil : field = [] := h.start rfl
      subst hnil
      refine ⟨by simp, by simp, ?_⟩
      simpa [Scan.fieldExtent] using hextent
    · exact h.outside (.inl rfl) hquote hstep
  | plain =>
    dsimp only at hstep
    split_ifs at hstep with hquote
    exact h.outside (.inr (.inl rfl)) hquote hstep
  | quoted =>
    dsimp only at hstep
    split_ifs at hstep with hquote
    · obtain rfl := Option.some.inj hstep
      refine ⟨by simp, by simp, ?_⟩
      simp only [Scan.fieldExtent] at hextent ⊢
      omega
    · obtain rfl := Option.some.inj hstep
      refine ⟨by simp, by simp, ?_⟩
      have hcount : ([c] : List Char).count '"' = 0 := by simp [hquote]
      simp only [Scan.fieldExtent, List.length_append, List.count_append, hcount,
        List.length_singleton] at hextent ⊢
      omega
  | closed =>
    dsimp only at hstep
    split_ifs at hstep with hquote
    · obtain rfl := Option.some.inj hstep
      refine ⟨by simp, by simp, ?_⟩
      have hcount : ([c] : List Char).count '"' = 1 := by simp [hquote]
      simp only [Scan.fieldExtent, List.length_append, List.count_append, hcount,
        List.length_singleton] at hextent ⊢
      omega
    · exact h.outside (.inr (.inr rfl)) hquote hstep
  | ending =>
    dsimp only at hstep
    split_ifs at hstep with hlf
    obtain rfl := Option.some.inj hstep
    refine ⟨fun _ => rfl, by simp [Scan.endRow], ?_⟩
    have hrow := h.endRow (by simp)
    simpa [Scan.endRow, rowExtent, Scan.fieldExtent] using hrow

theorem extent_le_of_readCsv {text : List Char} {rows : List (List (List Char))}
    (h : readCsv text = some rows) : extent rows ≤ text.length + 1 := by
  have hrun (text : List Char) (s s' : Scan) (read : ℕ) (hs : s.Fits read)
      (hrun : text.foldlM Scan.step s = some s') : s'.Fits (read + text.length) := by
    induction text generalizing s read with
    | nil =>
      obtain rfl := Option.some.inj hrun
      exact hs
    | cons c text ih =>
      rw [List.foldlM_cons] at hrun
      obtain ⟨s₁, hstep, hrun⟩ := Option.bind_eq_some_iff.1 hrun
      have hlen : read + (c :: text).length = read + 1 + text.length := by
        rw [List.length_cons]
        omega
      exact hlen ▸ ih s₁ (read + 1) (hs.step hstep) hrun
  obtain ⟨s', hs', hfinish⟩ := Option.bind_eq_some_iff.1 h
  have hfits := hrun text Scan.init s' 0 ⟨fun _ => rfl, by simp [Scan.init], by decide⟩ hs'
  rw [Nat.zero_add] at hfits
  have hextent := hfits.holds
  have hrow := hfits.endRow
  unfold Scan.finish at hfinish
  cases hmode : s'.mode with
  | quoted => simp [hmode] at hfinish
  | ending => simp [hmode] at hfinish
  | start =>
    rw [hmode] at hfinish hrow
    dsimp only at hfinish
    split_ifs at hfinish with hnil
    · obtain rfl := Option.some.inj hfinish
      omega
    · obtain rfl := Option.some.inj hfinish
      exact hrow (by decide)
  | plain =>
    rw [hmode] at hfinish hrow
    obtain rfl := Option.some.inj hfinish
    exact hrow (by decide)
  | closed =>
    rw [hmode] at hfinish hrow
    obtain rfl := Option.some.inj hfinish
    exact hrow (by decide)

end Rfc4180
