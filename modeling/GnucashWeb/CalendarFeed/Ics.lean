import Mathlib
import GnucashWeb.Lib.ContentLines
import GnucashWeb.Lib.IsoDate
import GnucashWeb.Lib.Text

/-!
# The calendar feed

`buildIcs` writes events as a stream of content lines.  `recovered_iff`: whatever the texts of the
events, the lines are at most 75 octets long, and the stream is read back as the calendar with these
events, unless a text has a control character that is neither a tab nor a line end.
-/

namespace Ical

open ContentLines

/-! ## Texts and lines -/

def replaceChar (c : Char) (text : List Char) (value : List Char) : List Char :=
  value.flatMap fun d => if d = c then text else [d]

/-- `replace(/\r\n|\r|\n/g, '\\n')`. -/
def replaceNewlines : List Char → List Char
  | '\r' :: '\n' :: cs => '\\' :: 'n' :: replaceNewlines cs
  | '\r' :: cs => '\\' :: 'n' :: replaceNewlines cs
  | '\n' :: cs => '\\' :: 'n' :: replaceNewlines cs
  | c :: cs => c :: replaceNewlines cs
  | [] => []

def escapeIcsText (value : List Char) : List Char :=
  replaceNewlines <| replaceChar ',' ['\\', ','] <| replaceChar ';' ['\\', ';'] <|
    replaceChar '\\' ['\\', '\\'] value

/-- The state of the loop of `foldIcsLine`. -/
structure Folding where
  out : List (List Char)
  current : List Char
  currentBytes : ℕ

def LIMIT : ℕ := 75

def Folding.step (s : Folding) (ch : Char) : Folding :=
  let s := if s.currentBytes + ch.utf8Size > LIMIT then ⟨s.out ++ [s.current], [' '], 1⟩ else s
  ⟨s.out, s.current ++ [ch], s.currentBytes + ch.utf8Size⟩

def foldIcsLine (line : List Char) : List (List Char) :=
  let s := line.foldl Folding.step ⟨[], [], 0⟩
  s.out ++ [s.current]

/-! ## Dates -/

/-- The digits of `^(\d{4})-(\d{2})-(\d{2})`. -/
def isoDigits : List Char → Option (List Char)
  | y₁ :: y₂ :: y₃ :: y₄ :: '-' :: m₁ :: m₂ :: '-' :: d₁ :: d₂ :: _ =>
    let digits := [y₁, y₂, y₃, y₄, m₁, m₂, d₁, d₂]
    if digits.all Char.isDigit then some digits else none
  | _ => none

/-- The day of an event: a date, or a text that begins with an ISO date. -/
inductive EventDate
  | date (day : ℤ)
  | text (text : List Char) (iso : (isoDigits text).isSome = true)

def formatIcsDate : EventDate → List Char
  | .date day =>
    Text.intDigits (Civil.getFullYear day) ++
      (Civil.digits 2 (Civil.getMonth day + 1).toNat ++ Civil.digits 2 (Civil.getDate day).toNat)
  | .text text iso => (isoDigits text).get iso

/-- A time: the day and the milliseconds of the day, in universal time. -/
structure Time where
  day : ℤ
  ms : ℕ

def toISOString (t : Time) : List Char :=
  let year := Civil.getFullYear t.day
  (if Civil.FourDigit t.day then Civil.digits 4 year.toNat
    else (if 0 ≤ year then '+' else '-') :: Civil.digits 6 year.natAbs) ++
  Civil.monthDayText t.day ++ 'T' :: Civil.digits 2 (t.ms / 3600000) ++
  ':' :: Civil.digits 2 (t.ms / 60000 % 60) ++ ':' :: Civil.digits 2 (t.ms / 1000 % 60) ++
  '.' :: Civil.digits 3 (t.ms % 1000) ++ ['Z']

/-- `replace(/\.\d{3}/, '')`. -/
def removeMillis : List Char → List Char
  | '.' :: a :: b :: c :: rest =>
    if a.isDigit ∧ b.isDigit ∧ c.isDigit then rest else '.' :: removeMillis (a :: b :: c :: rest)
  | c :: cs => c :: removeMillis cs
  | [] => []

def formatIcsDateTime (t : Time) : List Char :=
  removeMillis ((toISOString t).filter fun c => c ≠ '-' ∧ c ≠ ':')

/-! ## The stream -/

structure IcsEvent where
  uid : List Char
  date : EventDate
  summary : List Char
  description : Option (List Char)

def brand : List Char := "Folio".toList

/-- The description that is written: one that is not empty. -/
def IcsEvent.written (e : IcsEvent) : Option (List Char) := e.description.filter fun d => d ≠ []

def IcsEvent.lines (dtstamp : List Char) (e : IcsEvent) : List (List Char) :=
  ["BEGIN:VEVENT".toList, "UID:".toList ++ escapeIcsText e.uid, "DTSTAMP:".toList ++ dtstamp,
    "DTSTART;VALUE=DATE:".toList ++ formatIcsDate e.date,
    "SUMMARY:".toList ++ escapeIcsText e.summary] ++
  (e.written.toList.map fun d => "DESCRIPTION:".toList ++ escapeIcsText d) ++
  ["END:VEVENT".toList]

def calendarLines (events : List IcsEvent) (calendarName : Option (List Char)) (now : Time) :
    List (List Char) :=
  ["BEGIN:VCALENDAR".toList, "VERSION:2.0".toList,
    "PRODID:-//".toList ++ brand ++ "//Calendar Feed//EN".toList, "CALSCALE:GREGORIAN".toList,
    "METHOD:PUBLISH".toList, "X-WR-CALNAME:".toList ++ escapeIcsText (calendarName.getD brand)] ++
  events.flatMap (IcsEvent.lines (formatIcsDateTime now)) ++ ["END:VCALENDAR".toList]

def buildIcs (events : List IcsEvent) (calendarName : Option (List Char)) (now : Time) :
    List Char :=
  ['\r', '\n'].intercalate ((calendarLines events calendarName now).flatMap foldIcsLine) ++
    ['\r', '\n']

/-! ## What should be read back -/

def octets (line : List Char) : ℕ := (line.map Char.utf8Size).sum

/-- A text with all its line ends as line feeds. -/
def normalized : List Char → List Char
  | '\r' :: '\n' :: cs => '\n' :: normalized cs
  | '\r' :: cs => '\n' :: normalized cs
  | c :: cs => c :: normalized cs
  | [] => []

def textProperty (name : String) (text : List Char) : Property :=
  ⟨name.toList, [], normalized text⟩

def IcsEvent.properties (dtstamp : List Char) (e : IcsEvent) : List Property :=
  [textProperty "UID" e.uid, ⟨"DTSTAMP".toList, [], dtstamp⟩,
    ⟨"DTSTART".toList, [("VALUE".toList, ["DATE".toList])], formatIcsDate e.date⟩,
    textProperty "SUMMARY" e.summary] ++ e.written.toList.map (textProperty "DESCRIPTION")

/-- The calendar with its header, and an event for each of the list. -/
def calendarOf (events : List IcsEvent) (calendarName : Option (List Char)) (now : Time) :
    Component :=
  ⟨"VCALENDAR".toList,
    [textProperty "VERSION" "2.0".toList,
      textProperty "PRODID" ("-//".toList ++ brand ++ "//Calendar Feed//EN".toList),
      textProperty "CALSCALE" "GREGORIAN".toList, textProperty "METHOD" "PUBLISH".toList,
      textProperty "X-WR-CALNAME" (calendarName.getD brand)],
    events.map fun e => ⟨"VEVENT".toList, e.properties (formatIcsDateTime now), []⟩⟩

def isText (name : List Char) : Bool :=
  name ∉ ["BEGIN".toList, "END".toList, "DTSTAMP".toList, "DTSTART".toList]

/-- The lines of the stream are at most 75 octets long, and it is read as the calendar. -/
def Recovered (events : List IcsEvent) (calendarName : Option (List Char)) (now : Time) : Prop :=
  (∃ lines, lines? (buildIcs events calendarName now) = some lines ∧
      ∀ line ∈ lines, octets line ≤ 75) ∧
    parse isText (buildIcs events calendarName now) = some (calendarOf events calendarName now)

def IcsEvent.texts (e : IcsEvent) : List (List Char) := e.uid :: e.summary :: e.written.toList

def textsOf (events : List IcsEvent) (calendarName : Option (List Char)) : List (List Char) :=
  calendarName.getD brand :: events.flatMap IcsEvent.texts

/-- A text whose control characters are tabs and line ends. -/
def IsPrintable (text : List Char) : Prop :=
  ∀ c ∈ text, isControl c = true → c = '\r' ∨ c = '\n'

/-! ## Escaped texts -/

def escapeChar (c : Char) : List Char := if c = '\\' ∨ c = ';' ∨ c = ',' then ['\\', c] else [c]

theorem escapeIcsText_eq (value : List Char) :
    escapeIcsText value = replaceNewlines (value.flatMap escapeChar) := by
  unfold escapeIcsText replaceChar
  rw [List.flatMap_assoc, List.flatMap_assoc]
  congr 2
  funext c
  unfold escapeChar
  by_cases h₁ : c = '\\'
  · subst h₁
    decide
  by_cases h₂ : c = ';'
  · subst h₂
    decide
  by_cases h₃ : c = ','
  · subst h₃
    decide
  · simp [h₁, h₂, h₃]

theorem replaceNewlines_cons {c : Char} (hr : c ≠ '\r') (hn : c ≠ '\n') (cs : List Char) :
    replaceNewlines (c :: cs) = c :: replaceNewlines cs := by
  rw [replaceNewlines] <;> simp [hr, hn]

theorem escapeIcsText_cons {c : Char} (hr : c ≠ '\r') (hn : c ≠ '\n') (cs : List Char) :
    escapeIcsText (c :: cs) = escapeChar c ++ escapeIcsText cs := by
  rw [escapeIcsText_eq, escapeIcsText_eq, List.flatMap_cons]
  unfold escapeChar
  split
  · rw [List.cons_append, List.singleton_append, replaceNewlines_cons (by decide) (by decide),
      replaceNewlines_cons hr hn]
    rfl
  · rw [List.singleton_append, replaceNewlines_cons hr hn]
    rfl

theorem escapeIcsText_crlf (cs : List Char) :
    escapeIcsText ('\r' :: '\n' :: cs) = '\\' :: 'n' :: escapeIcsText cs := by
  rw [escapeIcsText_eq, escapeIcsText_eq]
  rfl

theorem escapeIcsText_lf (cs : List Char) :
    escapeIcsText ('\n' :: cs) = '\\' :: 'n' :: escapeIcsText cs := by
  rw [escapeIcsText_eq, escapeIcsText_eq]
  rfl

theorem escapeIcsText_cr {cs : List Char} (h : ∀ rest, cs ≠ '\n' :: rest) :
    escapeIcsText ('\r' :: cs) = '\\' :: 'n' :: escapeIcsText cs := by
  rw [escapeIcsText_eq, escapeIcsText_eq, List.flatMap_cons]
  change replaceNewlines ('\r' :: cs.flatMap escapeChar) = _
  rw [replaceNewlines]
  intro rest heq
  cases cs with
  | nil => cases heq
  | cons c cs =>
    rw [List.flatMap_cons] at heq
    unfold escapeChar at heq
    split at heq
    · exact absurd (List.cons.inj heq).1 (by decide)
    · exact h cs (by rw [(List.cons.inj heq).1])

theorem isPrintable_cons {c : Char} {cs : List Char} (h : IsPrintable (c :: cs)) :
    IsPrintable cs :=
  fun d hd => h d (List.mem_cons_of_mem c hd)

@[simp] theorem isControl_escape :
    isControl '\\' = false ∧ isControl 'n' = false ∧ isControl '\r' = true ∧
      isControl '\n' = true := by
  decide

theorem any_isControl_escapeIcsText (text : List Char) :
    (escapeIcsText text).any isControl =
      text.any fun c => isControl c && c ≠ '\r' && c ≠ '\n' := by
  fun_induction normalized text with
  | case1 cs ih => simpa [escapeIcsText_crlf] using ih
  | case2 cs hcs ih => simpa [escapeIcsText_cr hcs] using ih
  | case3 c cs hcrlf hcr ih =>
    have hr : c ≠ '\r' := fun heq => hcr heq
    by_cases hn : c = '\n'
    · subst hn
      simpa [escapeIcsText_lf] using ih
    · rw [escapeIcsText_cons hr hn, List.any_append, ih, List.any_cons]
      unfold escapeChar
      split <;> simp [hr, hn]
  | case4 => rfl

theorem cr_notMem_escapeIcsText (text : List Char) : '\r' ∉ escapeIcsText text := by
  fun_induction normalized text with
  | case1 cs ih => simpa [escapeIcsText_crlf] using ih
  | case2 cs hcs ih => simpa [escapeIcsText_cr hcs] using ih
  | case3 c cs hcrlf hcr ih =>
    have hr : c ≠ '\r' := fun heq => hcr heq
    by_cases hn : c = '\n'
    · subst hn
      simpa [escapeIcsText_lf] using ih
    · rw [escapeIcsText_cons hr hn, List.mem_append, not_or]
      refine ⟨?_, ih⟩
      unfold escapeChar
      split <;> simp [Ne.symm hr]
  | case4 => exact List.not_mem_nil

theorem unescapeText_escapeIcsText {text : List Char} (h : IsPrintable text) :
    unescapeText (escapeIcsText text) = some (normalized text) := by
  fun_induction normalized text with
  | case1 cs ih =>
    rw [escapeIcsText_crlf, unescapeText, ih (isPrintable_cons (isPrintable_cons h))]
    rfl
  | case2 cs hcs ih =>
    rw [escapeIcsText_cr hcs, unescapeText, ih (isPrintable_cons h)]
    rfl
  | case3 c cs hcrlf hcr ih =>
    have hr : c ≠ '\r' := fun heq => hcr heq
    have ih := ih (isPrintable_cons h)
    by_cases hn : c = '\n'
    · subst hn
      rw [escapeIcsText_lf, unescapeText, ih]
      rfl
    · rw [escapeIcsText_cons hr hn]
      unfold escapeChar
      split
      · rename_i hspecial
        rcases hspecial with rfl | rfl | rfl <;>
          rw [List.cons_append, List.singleton_append, unescapeText, ih] <;> rfl
      · rename_i hplain
        have hcontrol : isControl c ≠ true := fun hc =>
          (h c List.mem_cons_self hc).elim hr hn
        rw [List.singleton_append, unescapeText_cons (by tauto), ih]
        rfl
  | case4 => rfl

/-! ## Folded lines -/

theorem octets_append (l m : List Char) : octets (l ++ m) = octets l + octets m := by
  simp [octets]

/-- Pieces of at most 75 octets that are a line, each but the first after a space. -/
def IsFolding (line : List Char) (pieces : List (List Char)) : Prop :=
  (∃ (first : List Char) (more : List (List Char)),
      pieces = first :: more.map (' ' :: ·) ∧ first ++ more.flatten = line) ∧
    ∀ piece ∈ pieces, octets piece ≤ 75

theorem Folding.step_spec {s : Folding} {line : List Char} (ch : Char)
    (hbytes : s.currentBytes = octets s.current)
    (h : IsFolding line (s.out ++ [s.current])) :
    (s.step ch).currentBytes = octets (s.step ch).current ∧
      IsFolding (line ++ [ch]) ((s.step ch).out ++ [(s.step ch).current]) := by
  have hch : octets [ch] = ch.utf8Size := by simp [octets]
  have hsize : ch.utf8Size ≤ 4 := Char.utf8Size_le_four ch
  obtain ⟨⟨first, more, hpieces, hline⟩, hle⟩ := h
  unfold step
  dsimp only
  split
  · have hspace : octets [' '] = 1 := by decide
    refine ⟨by rw [octets_append, hch, hspace], ⟨first, more ++ [[ch]], ?_, ?_⟩, ?_⟩
    · rw [hpieces]
      simp
    · rw [List.flatten_append, ← List.append_assoc, hline]
      simp
    · refine List.forall_mem_append.2 ⟨hle, List.forall_mem_singleton.2 ?_⟩
      rw [octets_append, hch, hspace]
      omega
  · rename_i hfits
    refine ⟨by rw [octets_append, hch, hbytes], ?_, ?_⟩
    · rcases List.eq_nil_or_concat' more with rfl | ⟨more, last, rfl⟩
      · obtain ⟨hout, hcurrent⟩ :=
          List.append_inj' (show s.out ++ [s.current] = [] ++ [first] from hpieces) rfl
        refine ⟨first ++ [ch], [], ?_, by simpa using hline⟩
        rw [hout, (List.cons.inj hcurrent).1]
        simp
      · rw [List.map_append, ← List.cons_append] at hpieces
        obtain ⟨hout, hcurrent⟩ := List.append_inj' hpieces rfl
        refine ⟨first, more ++ [last ++ [ch]], ?_, ?_⟩
        · rw [hout, (List.cons.inj hcurrent).1]
          simp
        · rw [← hline]
          simp
    · rw [List.forall_mem_append] at hle ⊢
      refine ⟨hle.1, List.forall_mem_singleton.2 ?_⟩
      rw [octets_append, hch, ← hbytes]
      exact not_lt.1 hfits

theorem isFolding_foldIcsLine (line : List Char) : IsFolding line (foldIcsLine line) := by
  have hloop (cs : List Char) (s : Folding) (l : List Char)
      (hbytes : s.currentBytes = octets s.current) (h : IsFolding l (s.out ++ [s.current])) :
      IsFolding (l ++ cs) ((cs.foldl Folding.step s).out ++ [(cs.foldl Folding.step s).current]) := by
    induction cs generalizing s l with
    | nil => simpa using h
    | cons c cs ih =>
      obtain ⟨hbytes', h'⟩ := Folding.step_spec c hbytes h
      simpa using ih (s.step c) (l ++ [c]) hbytes' h'
  exact hloop line ⟨[], [], 0⟩ [] rfl ⟨⟨[], [], rfl, rfl⟩, by simp [octets]⟩

theorem IsFolding.cr_notMem {line : List Char} {pieces : List (List Char)}
    (h : IsFolding line pieces) (hline : '\r' ∉ line) : ∀ piece ∈ pieces, '\r' ∉ piece := by
  obtain ⟨⟨first, more, rfl, rfl⟩, -⟩ := h
  rw [List.mem_append, not_or] at hline
  refine List.forall_mem_cons.2 ⟨hline.1, fun piece hpiece => ?_⟩
  obtain ⟨tail, htail, rfl⟩ := List.mem_map.1 hpiece
  rw [List.mem_cons, not_or]
  exact ⟨by decide, fun hr => hline.2 (List.mem_flatten.2 ⟨tail, htail, hr⟩)⟩

theorem endLines_append (l m : List (List Char)) : endLines (l ++ m) = endLines l ++ endLines m :=
  List.flatMap_append

theorem IsFolding.endLines {line : List Char} {pieces : List (List Char)}
    (h : IsFolding line pieces) :
    ∃ (first : List Char) (more : List (List Char)), first ++ more.flatten = line ∧
      endLines pieces =
        first ++ ((more.flatMap fun piece => '\r' :: '\n' :: ' ' :: piece) ++ ['\r', '\n']) := by
  obtain ⟨⟨first, more, rfl, hline⟩, -⟩ := h
  refine ⟨first, more, hline, ?_⟩
  clear hline
  induction more generalizing first with
  | nil => simp [ContentLines.endLines]
  | cons piece more ih =>
    have hcons : ContentLines.endLines (first :: (piece :: more).map (' ' :: ·)) =
        first ++ '\r' :: '\n' :: ContentLines.endLines ((' ' :: piece) :: more.map (' ' :: ·)) := by
      simp [ContentLines.endLines]
    rw [hcons, ih (' ' :: piece)]
    simp

theorem unfolded_endLines {lines : List (List Char)} (hcr : ∀ line ∈ lines, '\r' ∉ line)
    (hstart : ∀ line ∈ lines, ∀ c ∈ line.head?, c ≠ ' ' ∧ c ≠ '\t') :
    unfolded (endLines (lines.flatMap foldIcsLine)) = endLines lines ∧
      ∀ c ∈ (endLines (lines.flatMap foldIcsLine)).head?, c ≠ ' ' ∧ c ≠ '\t' := by
  induction lines with
  | nil => exact ⟨rfl, by simp [endLines]⟩
  | cons line lines ih =>
    rw [List.forall_mem_cons] at hcr hstart
    obtain ⟨hrest, hhead⟩ := ih hcr.2 hstart.2
    obtain ⟨first, more, rfl, hpieces⟩ := (isFolding_foldIcsLine line).endLines
    have hnot := hcr.1
    rw [List.mem_append, not_or] at hnot
    have hmore : ∀ piece ∈ more, '\r' ∉ piece := fun piece hpiece hr =>
      hnot.2 (List.mem_flatten.2 ⟨piece, hpiece, hr⟩)
    rw [List.flatMap_cons, endLines_append, hpieces]
    constructor
    · rw [List.append_assoc, List.append_assoc, unfolded_append hnot.1, unfolded_flatMap hmore]
      change first ++ (more.flatten ++
        unfolded ('\r' :: '\n' :: endLines (lines.flatMap foldIcsLine))) = _
      rw [unfolded_end hhead, hrest]
      simp [endLines]
    · cases first with
      | nil => cases more <;> simp
      | cons c first => exact hstart.1

theorem intercalate_append_eq_endLines {lines : List (List Char)} (h : lines ≠ []) :
    ['\r', '\n'].intercalate lines ++ ['\r', '\n'] = endLines lines := by
  induction lines with
  | nil => exact absurd rfl h
  | cons line lines ih =>
    cases lines with
    | nil => simp [endLines]
    | cons next lines =>
      have hrest := ih (List.cons_ne_nil _ _)
      rw [List.intercalate_cons_cons, List.append_assoc, List.append_assoc, hrest]
      simp [endLines]

theorem buildIcs_eq (events : List IcsEvent) (calendarName : Option (List Char)) (now : Time) :
    buildIcs events calendarName now =
      endLines ((calendarLines events calendarName now).flatMap foldIcsLine) := by
  refine intercalate_append_eq_endLines fun h => ?_
  rw [List.flatMap_eq_nil_iff] at h
  have hfirst := h "BEGIN:VCALENDAR".toList (by simp [calendarLines])
  obtain ⟨⟨first, more, hpieces, -⟩, -⟩ := isFolding_foldIcsLine "BEGIN:VCALENDAR".toList
  rw [hfirst] at hpieces
  cases hpieces

/-! ## Dates without control characters -/

theorem isControl_of_isDigit {c : Char} (h : c.isDigit = true) : isControl c = false := by
  have hc : 48 ≤ c.toNat ∧ c.toNat ≤ 57 := by
    simpa [Char.isDigit, UInt32.le_iff_toNat_le] using h
  unfold isControl
  rw [decide_eq_false (show ¬c.toNat < 0x20 by omega), decide_eq_false (show ¬c.toNat = 0x7F by omega)]
  rfl

theorem any_isControl_digits (w n : ℕ) : (Civil.digits w n).any isControl = false := by
  induction w generalizing n with
  | zero => rfl
  | succ w ih =>
    have hdigit : (Nat.digitChar (n % 10)).isDigit = true :=
      by rw [Nat.isDigit_digitChar]; exact decide_eq_true (Nat.mod_lt n (by decide))
    simp [Civil.digits, ih, isControl_of_isDigit hdigit]

theorem any_isControl_intDigits (n : ℤ) : (Text.intDigits n).any isControl = false := by
  have hnat (n : ℕ) : (Text.natDigits n).any isControl = false :=
    List.any_eq_false.2 fun c hc => by
      simp [isControl_of_isDigit (Text.isDigit_of_mem_natDigits hc)]
  cases n with
  | ofNat n => exact hnat n
  | negSucc n =>
    rw [Text.intDigits, List.any_cons, hnat]
    decide

theorem any_isControl_formatIcsDate (date : EventDate) :
    (formatIcsDate date).any isControl = false := by
  cases date with
  | date day => simp only [formatIcsDate, List.any_append, any_isControl_intDigits,
      any_isControl_digits, Bool.or_false]
  | text text iso =>
    obtain ⟨digits, hdigits⟩ := Option.isSome_iff_exists.1 iso
    have hall : digits.all Char.isDigit = true := by
      unfold isoDigits at hdigits
      split at hdigits
      · dsimp only at hdigits
        split at hdigits
        · rename_i hall
          rwa [← Option.some.inj hdigits]
        · cases hdigits
      · cases hdigits
    have hget : formatIcsDate (.text text iso) = digits := Option.get_of_eq_some iso hdigits
    rw [hget]
    exact List.any_eq_false.2 fun c hc => by
      simp [isControl_of_isDigit (List.all_eq_true.1 hall c hc)]

theorem mem_of_mem_removeMillis {c : Char} {cs : List Char} (h : c ∈ removeMillis cs) : c ∈ cs := by
  fun_induction removeMillis cs with
  | case1 a b d rest hdigits => simp [h]
  | case2 a b d rest hdigits ih =>
    rcases List.mem_cons.1 h with rfl | h
    · exact List.mem_cons_self
    · exact List.mem_cons_of_mem _ (ih h)
  | case3 c' cs hne ih =>
    rcases List.mem_cons.1 h with rfl | h
    · exact List.mem_cons_self
    · exact List.mem_cons_of_mem _ (ih h)
  | case4 => exact h

theorem any_isControl_toISOString (t : Time) : (toISOString t).any isControl = false := by
  have hsigns : isControl '-' = false ∧ isControl '+' = false ∧ isControl 'T' = false ∧
      isControl ':' = false ∧ isControl '.' = false ∧ isControl 'Z' = false := by
    decide
  unfold toISOString Civil.monthDayText
  dsimp only
  split
  · simp [any_isControl_digits, hsigns]
  · split <;> simp [any_isControl_digits, hsigns]

theorem any_isControl_formatIcsDateTime (t : Time) :
    (formatIcsDateTime t).any isControl = false := by
  have hiso := List.any_eq_false.1 (any_isControl_toISOString t)
  exact List.any_eq_false.2 fun c hc => hiso c (List.mem_of_mem_filter (mem_of_mem_removeMillis hc))

/-! ## Lines -/

/-- A line without a carriage return that does not go on from the one before. -/
def IsContentLine (line : List Char) : Prop :=
  '\r' ∉ line ∧ ∀ c ∈ line.head?, c ≠ ' ' ∧ c ≠ '\t'

instance (line : List Char) : Decidable (IsContentLine line) :=
  inferInstanceAs (Decidable (_ ∧ _))

theorem isContentLine_append {name value : List Char} (hname : IsContentLine name)
    (hne : name ≠ []) (hvalue : '\r' ∉ value) : IsContentLine (name ++ value) := by
  refine ⟨fun h => (List.mem_append.1 h).elim hname.1 hvalue, ?_⟩
  rw [List.head?_append_of_ne_nil _ hne]
  exact hname.2

theorem cr_notMem_of_any {value : List Char} (h : value.any isControl = false) : '\r' ∉ value :=
  fun hr => List.any_eq_false.1 h '\r' hr (by decide)

theorem isContentLine_of_mem_lines {dtstamp : List Char} (hdtstamp : '\r' ∉ dtstamp)
    {e : IcsEvent} : ∀ line ∈ e.lines dtstamp, IsContentLine line := by
  have hdate := cr_notMem_of_any (any_isControl_formatIcsDate e.date)
  have htext (text : List Char) := cr_notMem_escapeIcsText text
  unfold IcsEvent.lines
  simp only [List.forall_mem_append, List.forall_mem_cons, List.forall_mem_map]
  exact ⟨⟨⟨by decide, isContentLine_append (by decide) (by decide) (htext _),
    isContentLine_append (by decide) (by decide) hdtstamp,
    isContentLine_append (by decide) (by decide) hdate,
    isContentLine_append (by decide) (by decide) (htext _), List.forall_mem_nil _⟩,
    fun d _ => isContentLine_append (by decide) (by decide) (htext d)⟩,
    by decide, List.forall_mem_nil _⟩

theorem isContentLine_of_mem_calendarLines (events : List IcsEvent)
    (calendarName : Option (List Char)) (now : Time) :
    ∀ line ∈ calendarLines events calendarName now, IsContentLine line := by
  have hdtstamp := cr_notMem_of_any (any_isControl_formatIcsDateTime now)
  unfold calendarLines
  simp only [List.forall_mem_append, List.forall_mem_cons]
  refine ⟨⟨⟨by decide, by decide, by decide, by decide, by decide,
    isContentLine_append (by decide) (by decide) (cr_notMem_escapeIcsText _),
    List.forall_mem_nil _⟩, fun line hline => ?_⟩, by decide, List.forall_mem_nil _⟩
  obtain ⟨e, -, hline⟩ := List.mem_flatMap.1 hline
  exact isContentLine_of_mem_lines hdtstamp line hline

theorem lines?_unfolded_buildIcs (events : List IcsEvent) (calendarName : Option (List Char))
    (now : Time) :
    lines? (unfolded (buildIcs events calendarName now)) =
      some (calendarLines events calendarName now) := by
  have hlines := isContentLine_of_mem_calendarLines events calendarName now
  rw [buildIcs_eq, (unfolded_endLines (fun l hl => (hlines l hl).1) fun l hl => (hlines l hl).2).1]
  exact lines?_endLines fun l hl => (hlines l hl).1

theorem lines?_buildIcs (events : List IcsEvent) (calendarName : Option (List Char))
    (now : Time) :
    ∃ lines, lines? (buildIcs events calendarName now) = some lines ∧
      ∀ line ∈ lines, octets line ≤ 75 := by
  have hlines := isContentLine_of_mem_calendarLines events calendarName now
  rw [buildIcs_eq]
  refine ⟨_, lines?_endLines fun piece hpiece => ?_, fun piece hpiece => ?_⟩
  · obtain ⟨line, hline, hpiece⟩ := List.mem_flatMap.1 hpiece
    exact (isFolding_foldIcsLine line).cr_notMem (hlines line hline).1 piece hpiece
  · obtain ⟨line, -, hpiece⟩ := List.mem_flatMap.1 hpiece
    exact (isFolding_foldIcsLine line).2 piece hpiece

/-! ## Properties -/

def IsTextName (name : List Char) : Prop :=
  name ≠ [] ∧ (∀ c ∈ name, isNameChar c = true) ∧ isText name = true

instance (name : List Char) : Decidable (IsTextName name) :=
  inferInstanceAs (Decidable (_ ∧ _ ∧ _))

theorem isPrintable_iff (text : List Char) :
    IsPrintable text ↔ (escapeIcsText text).any isControl = false := by
  rw [any_isControl_escapeIcsText, List.any_eq_false]
  unfold IsPrintable
  refine forall₂_congr fun c _ => ?_
  by_cases hr : c = '\r'
  · simp [hr]
  by_cases hn : c = '\n'
  · simp [hn]
  · simp [hr, hn]

theorem readLine_text {name text : List Char} (hname : IsTextName name) (h : IsPrintable text) :
    readLine isText (name ++ ':' :: escapeIcsText text) = some ⟨name, [], normalized text⟩ := by
  rw [readLine, parseLine_colon hname.1 hname.2.1, (isPrintable_iff text).1 h]
  rw [if_neg (by decide), Option.bind_some, decoded, if_pos hname.2.2,
    unescapeText_escapeIcsText h]
  rfl

theorem isPrintable_of_readLine {name text : List Char} (hname : IsTextName name)
    (h : (readLine isText (name ++ ':' :: escapeIcsText text)).isSome = true) :
    IsPrintable text := by
  rw [isPrintable_iff, ← Bool.not_eq_true]
  intro hcontrol
  rw [readLine, parseLine_colon hname.1 hname.2.1, if_pos hcontrol] at h
  cases h

theorem readLine_dtstamp (now : Time) :
    readLine isText ("DTSTAMP:".toList ++ formatIcsDateTime now) =
      some ⟨"DTSTAMP".toList, [], formatIcsDateTime now⟩ := by
  have hline := @parseLine_colon "DTSTAMP".toList (formatIcsDateTime now) (by decide) (by decide)
  rw [any_isControl_formatIcsDateTime, if_neg (by decide)] at hline
  change (parseLine ("DTSTAMP".toList ++ ':' :: formatIcsDateTime now)).bind _ = _
  rw [hline]
  rfl

theorem readLine_dtstart (date : EventDate) :
    readLine isText ("DTSTART;VALUE=DATE:".toList ++ formatIcsDate date) =
      some ⟨"DTSTART".toList, [("VALUE".toList, ["DATE".toList])], formatIcsDate date⟩ := by
  have hline := @parseLine_param "DTSTART".toList "VALUE".toList "DATE".toList (formatIcsDate date)
    (by decide) (by decide) (by decide) (by decide) (by decide)
  rw [any_isControl_formatIcsDate, if_neg (by decide)] at hline
  change (parseLine ("DTSTART".toList ++
    (';' :: "VALUE".toList ++ '=' :: "DATE".toList ++ ':' :: formatIcsDate date))).bind _ = _
  rw [hline]
  rfl

/-! ## The calendar that is read back -/

abbrev ReadsAs (lines : List (List Char)) (properties : List Property) : Prop :=
  List.Forall₂ (fun line p => readLine isText line = some p) lines properties

theorem ReadsAs.append {lines lines' : List (List Char)} {properties properties' : List Property}
    (h : ReadsAs lines properties) (h' : ReadsAs lines' properties') :
    ReadsAs (lines ++ lines') (properties ++ properties') :=
  List.rel_append h h'

theorem readsAs_lines {e : IcsEvent} (now : Time) (h : ∀ text ∈ e.texts, IsPrintable text) :
    ReadsAs (e.lines (formatIcsDateTime now))
      (leafLines "VEVENT".toList (e.properties (formatIcsDateTime now))) := by
  have huid : IsPrintable e.uid := h _ (by simp [IcsEvent.texts])
  have hsummary : IsPrintable e.summary := h _ (by simp [IcsEvent.texts])
  have hdescription : ReadsAs
      (e.written.toList.map fun d => "DESCRIPTION:".toList ++ escapeIcsText d)
      (e.written.toList.map (textProperty "DESCRIPTION")) := by
    cases hwritten : e.written with
    | none => exact .nil
    | some d =>
      have hd : IsPrintable d := h d (by simp [IcsEvent.texts, hwritten])
      exact .cons (@readLine_text "DESCRIPTION".toList d (by decide) hd) .nil
  have hfirst : ReadsAs
      ["BEGIN:VEVENT".toList, "UID:".toList ++ escapeIcsText e.uid,
        "DTSTAMP:".toList ++ formatIcsDateTime now,
        "DTSTART;VALUE=DATE:".toList ++ formatIcsDate e.date,
        "SUMMARY:".toList ++ escapeIcsText e.summary]
      [beginLine "VEVENT".toList, textProperty "UID" e.uid,
        ⟨"DTSTAMP".toList, [], formatIcsDateTime now⟩,
        ⟨"DTSTART".toList, [("VALUE".toList, ["DATE".toList])], formatIcsDate e.date⟩,
        textProperty "SUMMARY" e.summary] :=
    .cons (by decide) (.cons (@readLine_text "UID".toList _ (by decide) huid)
      (.cons (readLine_dtstamp now) (.cons (readLine_dtstart e.date)
        (.cons (@readLine_text "SUMMARY".toList _ (by decide) hsummary) .nil))))
  have hlast : ReadsAs ["END:VEVENT".toList] [endLine "VEVENT".toList] := .cons (by decide) .nil
  exact (hfirst.append hdescription).append hlast

theorem readsAs_calendarLines {events : List IcsEvent} {calendarName : Option (List Char)}
    (now : Time) (h : ∀ text ∈ textsOf events calendarName, IsPrintable text) :
    ReadsAs (calendarLines events calendarName now)
      (beginLine "VCALENDAR".toList :: (calendarOf events calendarName now).properties ++
        ((events.map fun e => e.properties (formatIcsDateTime now)).flatMap
          (leafLines "VEVENT".toList) ++ [endLine "VCALENDAR".toList])) := by
  rw [textsOf, List.forall_mem_cons] at h
  have hname : readLine isText
      ("X-WR-CALNAME".toList ++ ':' :: escapeIcsText (calendarName.getD brand)) =
      some (textProperty "X-WR-CALNAME" (calendarName.getD brand)) :=
    readLine_text (by decide) h.1
  have hevents : ReadsAs (events.flatMap (IcsEvent.lines (formatIcsDateTime now)))
      ((events.map fun e => e.properties (formatIcsDateTime now)).flatMap
        (leafLines "VEVENT".toList)) := by
    obtain ⟨-, h⟩ := h
    induction events with
    | nil => exact .nil
    | cons e events ih =>
      rw [List.flatMap_cons, List.forall_mem_append] at h
      exact (readsAs_lines now h.1).append (ih h.2)
  have hheader : ReadsAs
      ["BEGIN:VCALENDAR".toList, "VERSION:2.0".toList,
        "PRODID:-//".toList ++ brand ++ "//Calendar Feed//EN".toList, "CALSCALE:GREGORIAN".toList,
        "METHOD:PUBLISH".toList, "X-WR-CALNAME:".toList ++ escapeIcsText (calendarName.getD brand)]
      (beginLine "VCALENDAR".toList :: (calendarOf events calendarName now).properties) :=
    .cons (by decide) (.cons (by decide) (.cons (by decide) (.cons (by decide)
      (.cons (by decide) (.cons hname .nil)))))
  have hlast : ReadsAs ["END:VCALENDAR".toList] [endLine "VCALENDAR".toList] :=
    .cons (by decide) .nil
  unfold calendarLines
  rw [List.append_assoc]
  exact hheader.append (hevents.append hlast)

theorem isPlain_properties (dtstamp : List Char) (e : IcsEvent) :
    ∀ p ∈ e.properties dtstamp, p.IsPlain := by
  have hplain : ∀ name ∈ ["UID".toList, "DTSTAMP".toList, "DTSTART".toList, "SUMMARY".toList,
      "DESCRIPTION".toList],
      name.map Char.toUpper ≠ "BEGIN".toList ∧ name.map Char.toUpper ≠ "END".toList := by
    decide
  intro p hp
  refine hplain p.name ?_
  unfold IcsEvent.properties at hp
  simp only [List.mem_append, List.mem_cons, List.mem_map, List.not_mem_nil, or_false] at hp
  rcases hp with (rfl | rfl | rfl | rfl) | ⟨d, -, rfl⟩ <;> simp [textProperty]

theorem components_calendar (events : List IcsEvent) (calendarName : Option (List Char))
    (now : Time) :
    components [] (beginLine "VCALENDAR".toList :: (calendarOf events calendarName now).properties ++
        ((events.map fun e => e.properties (formatIcsDateTime now)).flatMap
          (leafLines "VEVENT".toList) ++ [endLine "VCALENDAR".toList])) =
      some (calendarOf events calendarName now) := by
  have hheader : ∀ p ∈ (calendarOf events calendarName now).properties, p.IsPlain := by
    have hplain : ∀ name ∈ ["VERSION".toList, "PRODID".toList, "CALSCALE".toList, "METHOD".toList,
        "X-WR-CALNAME".toList],
        name.map Char.toUpper ≠ "BEGIN".toList ∧ name.map Char.toUpper ≠ "END".toList := by
      decide
    intro p hp
    refine hplain p.name ?_
    simp only [calendarOf, List.mem_cons, List.not_mem_nil, or_false] at hp
    rcases hp with rfl | rfl | rfl | rfl | rfl <;> simp [textProperty]
  have hevents : ∀ properties ∈ events.map fun e => e.properties (formatIcsDateTime now),
      ∀ p ∈ properties, p.IsPlain := by
    intro properties hproperties
    obtain ⟨e, -, rfl⟩ := List.mem_map.1 hproperties
    exact isPlain_properties _ e
  rw [List.cons_append, components_begin, components_plain hheader, components_flatMap hevents]
  have hlast : components [⟨"VCALENDAR".toList, (calendarOf events calendarName now).properties,
      (calendarOf events calendarName now).components⟩] [endLine "VCALENDAR".toList] =
      some (calendarOf events calendarName now) :=
    components_last
  rw [List.map_map]
  exact hlast

theorem exists_line_of_mem_textsOf {events : List IcsEvent} {calendarName : Option (List Char)}
    (now : Time) {text : List Char} (h : text ∈ textsOf events calendarName) :
    ∃ name, IsTextName name ∧
      name ++ ':' :: escapeIcsText text ∈ calendarLines events calendarName now := by
  rcases List.mem_cons.1 h with rfl | h
  · exact ⟨"X-WR-CALNAME".toList, by decide, by simp [calendarLines]⟩
  · obtain ⟨e, he, htext⟩ := List.mem_flatMap.1 h
    have hlines {line : List Char} (hline : line ∈ e.lines (formatIcsDateTime now)) :
        line ∈ calendarLines events calendarName now := by
      refine List.mem_append_left _ (List.mem_append_right _ ?_)
      exact List.mem_flatMap.2 ⟨e, he, hline⟩
    unfold IcsEvent.texts at htext
    rw [List.mem_cons, List.mem_cons, Option.mem_toList] at htext
    rcases htext with rfl | rfl | htext
    · exact ⟨"UID".toList, by decide, hlines (by simp [IcsEvent.lines])⟩
    · exact ⟨"SUMMARY".toList, by decide, hlines (by simp [IcsEvent.lines])⟩
    · exact ⟨"DESCRIPTION".toList, by decide, hlines (by simp [IcsEvent.lines, htext])⟩

/-- The feed is read back exactly when its texts have no control characters but tabs and line
ends. -/
theorem recovered_iff (events : List IcsEvent) (calendarName : Option (List Char)) (now : Time) :
    Recovered events calendarName now ↔
      ∀ text ∈ textsOf events calendarName, IsPrintable text := by
  have hunfolded := lines?_unfolded_buildIcs events calendarName now
  constructor
  · rintro ⟨-, hparse⟩ text htext
    obtain ⟨name, hname, hline⟩ := exists_line_of_mem_textsOf now htext
    exact isPrintable_of_readLine hname (readLine_isSome_of_parse hparse hunfolded _ hline)
  · intro h
    refine ⟨lines?_buildIcs events calendarName now, ?_⟩
    rw [parse_of_lines hunfolded (readsAs_calendarLines now h), components_calendar]

/-- A summary that is the control character U+0001 is written as it is. -/
theorem not_recovered_control :
    ¬Recovered [⟨"bill-1".toList, .date 20000, ['\x01'], none⟩] none ⟨20000, 0⟩ := by
  rintro ⟨-, hparse⟩
  have hline : "SUMMARY".toList ++ ':' :: escapeIcsText ['\x01'] ∈
      calendarLines [⟨"bill-1".toList, .date 20000, ['\x01'], none⟩] none ⟨20000, 0⟩ := by
    simp [calendarLines, IcsEvent.lines]
  have hread := readLine_isSome_of_parse hparse (lines?_unfolded_buildIcs _ _ _) _ hline
  revert hread
  decide

end Ical
