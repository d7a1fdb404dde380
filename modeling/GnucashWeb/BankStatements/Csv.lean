import GnucashWeb.Lib.Text

/-!
# Splitting statement files into rows and cells

`splitCsvRows` splits a file into rows and `parseCsvLine` a row into cells, each with a quote state
of its own.  `splitCsvRows_encoded`: together they invert the quoting of a table, and they agree on
which characters are quoted.
-/

namespace StatementCsv

/-! ## The scanners -/

/-- The state of the loop of `parseCsvLine`. -/
structure CellScan where
  fields : List (List Char)
  current : List Char
  inQuotes : Bool
deriving DecidableEq, Repr

def CellScan.start : CellScan := ⟨[], [], false⟩

/-- The loop of `parseCsvLine`. -/
def CellScan.run (s : CellScan) : List Char → CellScan
  | [] => s
  | ch :: rest =>
    if s.inQuotes then
      if ch = '"' then
        match rest with
        | '"' :: rest' => run { s with current := s.current ++ ['"'] } rest'
        | rest => run { s with inQuotes := false } rest
      else run { s with current := s.current ++ [ch] } rest
    else if ch = '"' then run { s with inQuotes := true } rest
    else if ch = ',' then
      run { s with fields := s.fields ++ [s.current], current := [] } rest
    else run { s with current := s.current ++ [ch] } rest

def parseCsvLine (line : List Char) : List (List Char) :=
  let s := CellScan.start.run line
  (s.fields ++ [s.current]).map Text.trim

/-- The state of the loop of `splitCsvRows`. -/
structure RowScan where
  rows : List (List Char)
  current : List Char
  inQuotes : Bool
deriving DecidableEq, Repr

def RowScan.start : RowScan := ⟨[], [], false⟩

def RowScan.push (s : RowScan) : RowScan :=
  { s with
    rows := if (Text.trim s.current).length > 0 then s.rows ++ [s.current] else s.rows
    current := [] }

/-- The loop of `splitCsvRows`. -/
def RowScan.run (s : RowScan) : List Char → RowScan
  | [] => s
  | ch :: rest =>
    if ch = '"' then run { s with inQuotes := !s.inQuotes, current := s.current ++ [ch] } rest
    else if (ch = '\n' ∨ ch = '\r') ∧ ¬s.inQuotes then
      match ch, rest with
      | '\r', '\n' :: rest' => run s.push rest'
      | _, rest => run s.push rest
    else run { s with current := s.current ++ [ch] } rest

def splitCsvRows (content : List Char) : List (List Char) :=
  (RowScan.start.run content).push.rows

/-! ## The scanners, one character at a time -/

/-- What one character does to the rows.  The line feed of `\r\n` is like a row of its own, which is
blank. -/
def RowScan.step (s : RowScan) (ch : Char) : RowScan :=
  if ch = '"' then { s with inQuotes := !s.inQuotes, current := s.current ++ [ch] }
  else if (ch = '\n' ∨ ch = '\r') ∧ ¬s.inQuotes then s.push
  else { s with current := s.current ++ [ch] }

@[simp] theorem RowScan.push_inQuotes (s : RowScan) : s.push.inQuotes = s.inQuotes := rfl

@[simp] theorem RowScan.push_push (s : RowScan) : s.push.push = s.push := by
  simp [push, Text.trim]

theorem RowScan.step_quote (s : RowScan) :
    s.step '"' = { s with inQuotes := !s.inQuotes, current := s.current ++ ['"'] } := rfl

theorem RowScan.step_end {s : RowScan} {ch : Char} (hend : ch = '\n' ∨ ch = '\r')
    (hs : s.inQuotes = false) : s.step ch = s.push := by
  rcases hend with rfl | rfl <;> simp [step, hs]

theorem RowScan.step_other {s : RowScan} {ch : Char} (hquote : ch ≠ '"')
    (h : ¬((ch = '\n' ∨ ch = '\r') ∧ ¬s.inQuotes)) :
    s.step ch = { s with current := s.current ++ [ch] } := by
  rw [step, if_neg hquote, if_neg h]

theorem RowScan.run_eq_foldl (s : RowScan) (content : List Char) :
    s.run content = content.foldl step s := by
  fun_induction RowScan.run s content with
  | case1 s => rfl
  | case2 s rest ih => rw [ih, List.foldl_cons, step_quote]
  | case3 s rest' _ hend ih =>
    have hs : s.inQuotes = false := by simpa using hend.2
    rw [ih, List.foldl_cons, List.foldl_cons, step_end (.inr rfl) hs,
      step_end (s := s.push) (.inl rfl) hs, push_push]
  | case4 s ch _ hend rest _ ih =>
    rw [ih, List.foldl_cons, step_end hend.1 (by simpa using hend.2)]
  | case5 s ch rest hquote hend ih => rw [ih, List.foldl_cons, step_other hquote hend]

theorem RowScan.run_append (s : RowScan) (pre post : List Char) :
    s.run (pre ++ post) = (s.run pre).run post := by
  rw [run_eq_foldl, run_eq_foldl, run_eq_foldl, List.foldl_append]

namespace CellScan

variable {s : CellScan} {ch : Char} {rest : List Char}

theorem run_cons : s.run (ch :: rest) =
    if s.inQuotes then
      if ch = '"' then
        match rest with
        | '"' :: rest' => { s with current := s.current ++ ['"'] }.run rest'
        | rest => { s with inQuotes := false }.run rest
      else { s with current := s.current ++ [ch] }.run rest
    else if ch = '"' then { s with inQuotes := true }.run rest
    else if ch = ',' then { s with fields := s.fields ++ [s.current], current := [] }.run rest
    else { s with current := s.current ++ [ch] }.run rest := run.eq_def s (ch :: rest)

theorem run_doubled (hs : s.inQuotes = true) :
    s.run ('"' :: '"' :: rest) = { s with current := s.current ++ ['"'] }.run rest := by
  rw [run_cons]
  simp only [hs, if_true]

theorem run_closing (hs : s.inQuotes = true) (h : ∀ rest', rest ≠ '"' :: rest') :
    s.run ('"' :: rest) = { s with inQuotes := false }.run rest := by
  rw [run_cons]
  simp only [hs, if_true]

theorem run_quoted (hs : s.inQuotes = true) (h : ch ≠ '"') :
    s.run (ch :: rest) = { s with current := s.current ++ [ch] }.run rest := by
  rw [run_cons]
  simp only [hs, if_true, if_neg h]

theorem run_opening (hs : s.inQuotes = false) :
    s.run ('"' :: rest) = { s with inQuotes := true }.run rest := by
  rw [run_cons]
  simp [hs]

theorem run_comma (hs : s.inQuotes = false) :
    s.run (',' :: rest) =
      { s with fields := s.fields ++ [s.current], current := [] }.run rest := by
  rw [run_cons]
  simp [hs]

theorem run_plain (hs : s.inQuotes = false) (hquote : ch ≠ '"') (hcomma : ch ≠ ',') :
    s.run (ch :: rest) = { s with current := s.current ++ [ch] }.run rest := by
  rw [run_cons]
  simp [hs, hquote, hcomma]

/-- The loop over the cells comes to every character that is not the second of two quotes. -/
theorem run_append (s : CellScan) (pre : List Char) {post : List Char}
    (h : ∀ rest, post ≠ '"' :: rest) : s.run (pre ++ post) = (s.run pre).run post := by
  fun_induction CellScan.run s pre with
  | case1 s => rfl
  | case2 s hs rest' ih => exact (run_doubled hs).trans ih
  | case3 s hs rest hrest ih =>
    refine (run_closing hs fun rest' heq => ?_).trans ih
    cases rest with
    | nil => exact h rest' heq
    | cons c rest => exact hrest rest (by rw [(List.cons.inj heq).1])
  | case4 s ch rest hs hch ih => exact (run_quoted hs hch).trans ih
  | case5 s rest hs ih => exact (run_opening (by simpa using hs)).trans ih
  | case6 s rest hs _ ih => exact (run_comma (by simpa using hs)).trans ih
  | case7 s ch rest hs hquote hcomma ih =>
    exact (run_plain (by simpa using hs) hquote hcomma).trans ih

end CellScan

@[simp] theorem RowScan.step_inQuotes (s : RowScan) (ch : Char) :
    (s.step ch).inQuotes = if ch = '"' then !s.inQuotes else s.inQuotes := by
  unfold step
  split_ifs <;> rfl

/-- Both scanners are inside or outside quotes at the end of a text: a doubled quote closes and
opens a field of the row scanner. -/
theorem inQuotes_run (s : CellScan) (r : RowScan) (h : s.inQuotes = r.inQuotes)
    (text : List Char) : (s.run text).inQuotes = (r.run text).inQuotes := by
  rw [RowScan.run_eq_foldl]
  fun_induction CellScan.run s text generalizing r with
  | case1 s => exact h
  | case2 s hs rest' ih =>
    exact ih ((r.step '"').step '"') (by simp [h])
  | case3 s hs rest _ ih => exact ih (r.step '"') (by simp [← h, hs])
  | case4 s ch rest hs hch ih => exact ih (r.step ch) (by simp [h, hch])
  | case5 s rest hs ih => exact ih (r.step '"') (by simpa [← h] using hs)
  | case6 s rest hs _ ih => exact ih (r.step ',') (by simp [h])
  | case7 s ch rest hs hquote _ ih => exact ih (r.step ch) (by simp [h, hquote])

/-! ## Encoded tables -/

structure Cell where
  value : List Char
  quoted : Bool
  quotedWhereNeeded : quoted = false → ∀ c ∈ value, c ≠ '"' ∧ c ≠ ',' ∧ c ≠ '\n' ∧ c ≠ '\r'

def doubled (value : List Char) : List Char :=
  value.flatMap fun c => if c = '"' then ['"', '"'] else [c]

def Cell.text (c : Cell) : List Char :=
  if c.quoted then '"' :: doubled c.value ++ ['"'] else c.value

def rowText (row : List Cell) : List Char := [','].intercalate (row.map Cell.text)

inductive LineEnd
  | lf
  | cr
  | crlf

def LineEnd.text : LineEnd → List Char
  | lf => ['\n']
  | cr => ['\r']
  | crlf => ['\r', '\n']

/-- Rows with their line ends, and a last row without one. -/
structure Table where
  rows : List (List Cell × LineEnd)
  last : Option (List Cell)

def Table.allRows (t : Table) : List (List Cell) := t.rows.map Prod.fst ++ t.last.toList

def Table.text (t : Table) : List Char :=
  t.rows.flatMap (fun (row, lineEnd) => rowText row ++ lineEnd.text) ++
    (t.last.toList.map rowText).flatten

/-- A row that is written as an empty line or as white space. -/
def IsBlank (row : List Cell) : Prop := Text.trim (rowText row) = []

instance (row : List Cell) : Decidable (IsBlank row) := inferInstanceAs (Decidable (_ = _))

/-! ## The cells of a row -/

theorem doubled_cons_quote (cs : List Char) : doubled ('"' :: cs) = '"' :: '"' :: doubled cs := rfl

theorem doubled_cons_of_ne {c : Char} (h : c ≠ '"') (cs : List Char) :
    doubled (c :: cs) = c :: doubled cs := by
  simp [doubled, h]

theorem CellScan.run_doubled_text {s : CellScan} (hs : s.inQuotes = true) (value : List Char) :
    s.run (doubled value ++ ['"']) =
      { s with current := s.current ++ value, inQuotes := false } := by
  induction value generalizing s with
  | nil =>
    rw [doubled, List.flatMap_nil, List.nil_append, run_closing hs (by simp)]
    simp [run]
  | cons c value ih =>
    by_cases hc : c = '"'
    · subst hc
      rw [doubled_cons_quote, List.cons_append, List.cons_append, run_doubled hs, ih (by exact hs)]
      simp
    · rw [doubled_cons_of_ne hc, List.cons_append, run_quoted hs hc, ih (by exact hs)]
      simp

theorem CellScan.run_plain_text {s : CellScan} (hs : s.inQuotes = false) {value : List Char}
    (h : ∀ c ∈ value, c ≠ '"' ∧ c ≠ ',' ∧ c ≠ '\n' ∧ c ≠ '\r') :
    s.run value = { s with current := s.current ++ value } := by
  induction value generalizing s with
  | nil => simp [run]
  | cons c value ih =>
    rw [List.forall_mem_cons] at h
    rw [run_plain hs h.1.1 h.1.2.1, ih (by exact hs) h.2]
    simp

theorem CellScan.run_cell {s : CellScan} (hs : s.inQuotes = false) (c : Cell) :
    s.run c.text = { s with current := s.current ++ c.value } := by
  rw [Cell.text]
  split
  · rw [List.cons_append, run_opening hs, run_doubled_text rfl, ← hs]
  · rename_i hquoted
    exact run_plain_text hs (c.quotedWhereNeeded (by simpa using hquoted))

theorem CellScan.run_rowText {s : CellScan} (hs : s.inQuotes = false) (c : Cell)
    (row : List Cell) :
    (s.run (rowText (c :: row))).fields ++ [(s.run (rowText (c :: row))).current] =
      s.fields ++ (s.current ++ c.value) :: row.map Cell.value := by
  induction row generalizing s c with
  | nil => simp [rowText, run_cell hs]
  | cons d row ih =>
    have htext : rowText (c :: d :: row) = c.text ++ ',' :: rowText (d :: row) := by
      simp [rowText, List.intercalate_cons_cons]
    rw [htext, run_append _ _ (by simp), run_cell hs, run_comma (by exact hs), ih (by exact hs)]
    simp

theorem parseCsvLine_rowText {row : List Cell} (h : row ≠ []) :
    parseCsvLine (rowText row) = row.map fun c => Text.trim c.value := by
  obtain ⟨c, row, rfl⟩ := List.exists_cons_of_ne_nil h
  rw [parseCsvLine, CellScan.run_rowText rfl]
  simp [CellScan.start, Function.comp_def]

/-! ## The rows of a table -/

theorem RowScan.run_doubled_text {s : RowScan} (hs : s.inQuotes = true) (value : List Char) :
    (doubled value).foldl step s = { s with current := s.current ++ doubled value } := by
  induction value generalizing s with
  | nil => simp [doubled]
  | cons c value ih =>
    by_cases hc : c = '"'
    · subst hc
      rw [doubled_cons_quote, List.foldl_cons, List.foldl_cons, step_quote, step_quote,
        ih (by simpa using hs)]
      simp
    · rw [doubled_cons_of_ne hc, List.foldl_cons, step_other hc (by simp [hs]), ih (by exact hs)]
      simp

theorem RowScan.run_cell {s : RowScan} (hs : s.inQuotes = false) (c : Cell) :
    c.text.foldl step s = { s with current := s.current ++ c.text } := by
  rw [Cell.text]
  split
  · rw [List.cons_append, List.foldl_cons, List.foldl_append, step_quote,
      run_doubled_text (by simp [hs]), List.foldl_cons, step_quote]
    simp
  · rename_i hquoted
    have h := c.quotedWhereNeeded (by simpa using hquoted)
    generalize c.value = value at h
    induction value generalizing s with
    | nil => simp
    | cons c value ih =>
      rw [List.forall_mem_cons] at h
      rw [List.foldl_cons, step_other h.1.1 (by simp [h.1]), ih (by exact hs) h.2]
      simp

theorem RowScan.run_rowText {s : RowScan} (hs : s.inQuotes = false) (row : List Cell) :
    (rowText row).foldl step s = { s with current := s.current ++ rowText row } := by
  induction row generalizing s with
  | nil => simp [rowText]
  | cons c row ih =>
    cases row with
    | nil => simpa [rowText] using run_cell hs c
    | cons d row =>
      have htext : rowText (c :: d :: row) = c.text ++ ',' :: rowText (d :: row) := by
        simp [rowText, List.intercalate_cons_cons]
      rw [htext, List.foldl_append, run_cell hs, List.foldl_cons,
        step_other (by decide) (by simp), ih (by exact hs)]
      simp

theorem RowScan.run_lineEnd {s : RowScan} (hs : s.inQuotes = false) (lineEnd : LineEnd) :
    lineEnd.text.foldl step s = s.push := by
  cases lineEnd with
  | lf => exact step_end (.inl rfl) hs
  | cr => exact step_end (.inr rfl) hs
  | crlf =>
    rw [LineEnd.text, List.foldl_cons, step_end (.inr rfl) hs]
    exact (step_end (s := s.push) (.inl rfl) hs).trans (push_push s)

def nonBlank (rows : List (List Cell)) : List (List Cell) := rows.filter fun row => ¬IsBlank row

theorem RowScan.push_rowText {s : RowScan} (row : List Cell) (hcurrent : s.current = rowText row) :
    s.push = { s with rows := s.rows ++ (nonBlank [row]).map rowText, current := [] } := by
  unfold push nonBlank
  rw [hcurrent]
  by_cases hblank : IsBlank row
  · have htrim : Text.trim (rowText row) = [] := hblank
    simp [hblank, htrim]
  · have htrim : Text.trim (rowText row) ≠ [] := hblank
    simp [hblank, List.length_pos_iff.2 htrim]

theorem RowScan.run_rows {s : RowScan} (hs : s.inQuotes = false) (hcurrent : s.current = [])
    (rows : List (List Cell × LineEnd)) :
    (rows.flatMap fun (row, lineEnd) => rowText row ++ lineEnd.text).foldl step s =
      { s with rows := s.rows ++ (nonBlank (rows.map Prod.fst)).map rowText } := by
  induction rows generalizing s with
  | nil => simp [nonBlank]
  | cons r rows ih =>
    obtain ⟨row, lineEnd⟩ := r
    have hrow : nonBlank (row :: rows.map Prod.fst) =
        nonBlank [row] ++ nonBlank (rows.map Prod.fst) :=
      List.filter_append [row] _
    rw [List.flatMap_cons, List.foldl_append, List.foldl_append, run_rowText hs,
      run_lineEnd (by exact hs), push_rowText row (by simp [hcurrent]),
      ih (by exact hs) rfl, List.map_cons, hrow]
    simp [hcurrent]

theorem splitCsvRows_text (t : Table) :
    splitCsvRows t.text = (nonBlank t.allRows).map rowText := by
  obtain ⟨rows, last⟩ := t
  rw [splitCsvRows, RowScan.run_eq_foldl, Table.text, List.foldl_append,
    RowScan.run_rows rfl rfl, Table.allRows]
  cases last with
  | none => simp [RowScan.start, RowScan.push, Text.trim]
  | some row =>
    have hrow : nonBlank (rows.map Prod.fst ++ [row]) =
        nonBlank (rows.map Prod.fst) ++ nonBlank [row] :=
      List.filter_append _ [row]
    simp only [Option.toList_some, List.map_singleton, List.flatten_singleton, hrow]
    rw [RowScan.run_rowText rfl, RowScan.push_rowText row rfl]
    simp [RowScan.start]

/-- At each character of a text but its quotes, the loops of both scanners have come to that
character, and both are inside or both outside quotes. -/
def QuotesAgree (text : List Char) : Prop :=
  ∀ (s : CellScan) (r : RowScan), s.inQuotes = r.inQuotes → ∀ pre ch post,
    text = pre ++ ch :: post → ch ≠ '"' →
      s.run text = (s.run pre).run (ch :: post) ∧ r.run text = (r.run pre).run (ch :: post) ∧
        (s.run pre).inQuotes = (r.run pre).inQuotes

theorem quotesAgree (text : List Char) : QuotesAgree text := by
  intro s r h pre ch post htext hch
  subst htext
  refine ⟨s.run_append pre fun rest heq => hch ?_, r.run_append pre _, inQuotes_run s r h pre⟩
  exact (List.cons.inj heq).1

/-- Splitting a file into rows and these into cells gives back the rows that are not blank, their
cells trimmed, and the two scanners agree on the quotes of every text. -/
theorem parseCsvLine_splitCsvRows (t : Table) :
    (splitCsvRows t.text).map parseCsvLine =
        (t.allRows.filter fun row => ¬IsBlank row).map (List.map fun c => Text.trim c.value) ∧
      ∀ text, QuotesAgree text := by
  refine ⟨?_, quotesAgree⟩
  rw [splitCsvRows_text, List.map_map]
  refine List.map_congr_left fun row hrow => parseCsvLine_rowText ?_
  rintro rfl
  exact of_decide_eq_true (List.mem_filter.1 hrow).2 rfl

end StatementCsv
