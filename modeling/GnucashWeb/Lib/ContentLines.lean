import GnucashWeb.Lib.Transact
import Mathlib.Data.List.Forall2

/-!
# Streams of content lines

The grammar of calendar streams: lines that end with CRLF and may be folded, properties with
parameters, text values with their escapes, and components between `BEGIN` and `END`.  The main
results are `unfolded_append`, `parseLine_colon`, `parse_of_lines` and `components_flatMap`, which
read back what is written.
-/

namespace ContentLines

/-! ## Characters -/

def isControl (c : Char) : Bool := (c.toNat < 0x20 && c ≠ '\t') || c.toNat = 0x7F

def isNameChar (c : Char) : Bool := c.isAlphanum || c = '-'

def isSafeChar (c : Char) : Bool := !isControl c && c ∉ ['"', ';', ':', ',']

/-- A line end and one white space character after it are removed. -/
def unfolded : List Char → List Char
  | '\r' :: '\n' :: ' ' :: cs => unfolded cs
  | '\r' :: '\n' :: '\t' :: cs => unfolded cs
  | c :: cs => c :: unfolded cs
  | [] => []

/-- The lines of a stream, and what follows the last line end. -/
def splitLines : List Char → List (List Char) × List Char
  | '\r' :: '\n' :: cs => ([] :: (splitLines cs).1, (splitLines cs).2)
  | c :: cs =>
    match splitLines cs with
    | ([], last) => ([], c :: last)
    | (line :: lines, last) => ((c :: line) :: lines, last)
  | [] => ([], [])

def lines? (stream : List Char) : Option (List (List Char)) :=
  match splitLines stream with
  | (lines, []) => some lines
  | _ => none

def endLines (lines : List (List Char)) : List Char := lines.flatMap fun l => l ++ ['\r', '\n']

/-! ## Properties -/

structure Property where
  name : List Char
  params : List (List Char × List (List Char))
  value : List Char
deriving DecidableEq

def paramValue : List Char → Option (List Char × List Char)
  | '"' :: cs =>
    match cs.dropWhile fun c => !isControl c && c ≠ '"' with
    | '"' :: rest => some (cs.takeWhile fun c => !isControl c && c ≠ '"', rest)
    | _ => none
  | cs => some (cs.takeWhile isSafeChar, cs.dropWhile isSafeChar)

/-- The values of a parameter, and what follows them; the first argument bounds their number. -/
def paramValues : ℕ → List Char → Option (List (List Char) × List Char)
  | 0, _ => none
  | n + 1, cs =>
    match paramValue cs with
    | none => none
    | some (v, ',' :: rest) => (paramValues n rest).map fun (vs, rest) => (v :: vs, rest)
    | some (v, rest) => some ([v], rest)

/-- The parameters and the value of a property. -/
def afterName : ℕ → List Char → Option (List (List Char × List (List Char)) × List Char)
  | 0, _ => none
  | _ + 1, ':' :: value => if value.any isControl then none else some ([], value)
  | n + 1, ';' :: cs =>
    let name := cs.takeWhile isNameChar
    match cs.dropWhile isNameChar with
    | '=' :: rest =>
      if name = [] then none
      else
        match paramValues (rest.length + 1) rest with
        | none => none
        | some (vs, rest) => (afterName n rest).map fun (params, value) =>
          ((name, vs) :: params, value)
    | _ => none
  | _ + 1, _ => none

/-- `name *(";" param) ":" value`. -/
def parseLine (line : List Char) : Option Property :=
  let name := line.takeWhile isNameChar
  if name = [] then none
  else (afterName (line.length + 1) (line.dropWhile isNameChar)).map fun (params, value) =>
    ⟨name, params, value⟩

def unescapeText : List Char → Option (List Char)
  | [] => some []
  | '\\' :: '\\' :: cs => (unescapeText cs).map ('\\' :: ·)
  | '\\' :: ';' :: cs => (unescapeText cs).map (';' :: ·)
  | '\\' :: ',' :: cs => (unescapeText cs).map (',' :: ·)
  | '\\' :: 'n' :: cs => (unescapeText cs).map ('\n' :: ·)
  | '\\' :: 'N' :: cs => (unescapeText cs).map ('\n' :: ·)
  | c :: cs =>
    if c = '\\' ∨ c = ';' ∨ c = ',' ∨ isControl c = true then none
    else (unescapeText cs).map (c :: ·)

/-! ## Components -/

structure Component where
  name : List Char
  properties : List Property
  components : List Component

/-- A component that has begun: its name, and what has been read of it. -/
structure Frame where
  name : List Char
  properties : List Property
  components : List Component

/-- The components that the rest of a stream completes, the innermost first. -/
def components : List Frame → List Property → Option Component
  | _, [] => none
  | stack, p :: ps =>
    if p.name.map Char.toUpper = "BEGIN".toList then components (⟨p.value, [], []⟩ :: stack) ps
    else if p.name.map Char.toUpper = "END".toList then
      match stack with
      | [] => none
      | [top] =>
        if p.value = top.name ∧ ps = [] then some ⟨top.name, top.properties, top.components⟩
        else none
      | top :: next :: stack =>
        if p.value = top.name then
          components ({ next with
            components := next.components ++ [⟨top.name, top.properties, top.components⟩] } ::
              stack) ps
        else none
    else
      match stack with
      | [] => none
      | top :: stack => components ({ top with properties := top.properties ++ [p] } :: stack) ps

section Values

variable (isText : List Char → Bool)

/-- A property with its value decoded, when its name says that it is a text. -/
def decoded (p : Property) : Option Property :=
  if isText p.name then (unescapeText p.value).map fun value => { p with value := value } else some p

def readLine (line : List Char) : Option Property := (parseLine line).bind (decoded isText)

/-- The component of a stream that consists of one. -/
def parse (stream : List Char) : Option Component := do
  let lines ← lines? (unfolded stream)
  let properties ← lines.mapM (readLine isText)
  components [] properties

end Values

/-! ## Folded lines -/

theorem unfolded_cons_of_ne {c : Char} (h : c ≠ '\r') (cs : List Char) :
    unfolded (c :: cs) = c :: unfolded cs := by
  rw [unfolded] <;> simp [h]

theorem unfolded_append {line : List Char} (h : '\r' ∉ line) (rest : List Char) :
    unfolded (line ++ rest) = line ++ unfolded rest := by
  induction line with
  | nil => rfl
  | cons c line ih =>
    rw [List.mem_cons, not_or] at h
    rw [List.cons_append, unfolded_cons_of_ne (Ne.symm h.1), ih h.2, List.cons_append]

theorem unfolded_flatMap {more : List (List Char)} (h : ∀ piece ∈ more, '\r' ∉ piece)
    (rest : List Char) :
    unfolded ((more.flatMap fun piece => '\r' :: '\n' :: ' ' :: piece) ++ rest) =
      more.flatten ++ unfolded rest := by
  induction more with
  | nil => rfl
  | cons piece more ih =>
    rw [List.forall_mem_cons] at h
    rw [List.flatMap_cons, List.append_assoc, List.cons_append, List.cons_append,
      List.cons_append, unfolded, unfolded_append h.1, ih h.2, List.flatten_cons,
      List.append_assoc]

theorem unfolded_end {rest : List Char} (h : ∀ c ∈ rest.head?, c ≠ ' ' ∧ c ≠ '\t') :
    unfolded ('\r' :: '\n' :: rest) = '\r' :: '\n' :: unfolded rest := by
  cases rest with
  | nil => rfl
  | cons c rest =>
    have hc := h c rfl
    have hline : unfolded ('\n' :: c :: rest) = '\n' :: unfolded (c :: rest) :=
      unfolded_cons_of_ne (by decide) _
    rw [← hline, unfolded] <;> simp [hc]

theorem splitLines_append {line : List Char} (h : '\r' ∉ line) (rest : List Char) :
    splitLines (line ++ '\r' :: '\n' :: rest) =
      (line :: (splitLines rest).1, (splitLines rest).2) := by
  induction line with
  | nil => rfl
  | cons c line ih =>
    rw [List.mem_cons, not_or] at h
    rw [List.cons_append, splitLines, ih h.2]
    rintro cs rfl
    exact absurd rfl h.1

theorem splitLines_endLines {lines : List (List Char)} (h : ∀ line ∈ lines, '\r' ∉ line) :
    splitLines (endLines lines) = (lines, []) := by
  induction lines with
  | nil => rfl
  | cons line lines ih =>
    rw [List.forall_mem_cons] at h
    have hcons : endLines (line :: lines) = line ++ '\r' :: '\n' :: endLines lines := by
      simp [endLines]
    rw [hcons, splitLines_append h.1, ih h.2]

/-! ## One line -/

theorem span_append {p : Char → Bool} {cs rest : List Char} (hcs : ∀ c ∈ cs, p c = true)
    (hrest : ∀ c ∈ rest.head?, p c = false) :
    (cs ++ rest).takeWhile p = cs ∧ (cs ++ rest).dropWhile p = rest := by
  rw [List.takeWhile_append_of_pos hcs, List.dropWhile_append_of_pos hcs]
  cases rest with
  | nil => simp
  | cons c rest => simp [hrest c rfl]

theorem afterName_colon {n : ℕ} {value : List Char} :
    afterName (n + 1) (':' :: value) = if value.any isControl then none else some ([], value) := by
  rw [afterName]

theorem afterName_param {n : ℕ} {name value rest : List Char} (hne : name ≠ [])
    (hname : ∀ c ∈ name, isNameChar c = true) (hvalue : ∀ c ∈ value, isSafeChar c = true) :
    afterName (n + 1) (';' :: name ++ '=' :: value ++ ':' :: rest) =
      (afterName n (':' :: rest)).map fun (params, last) => ((name, [value]) :: params, last) := by
  have hspan := @span_append _ _ ('=' :: value ++ ':' :: rest) hname
    (by simp [show isNameChar '=' = false by decide])
  have hspan' := @span_append _ _ (':' :: rest) hvalue
    (by simp [show isSafeChar ':' = false by decide])
  have hquote : ∀ cs, value ++ ':' :: rest = '"' :: cs → False := by
    intro cs heq
    cases value with
    | nil => cases heq
    | cons c value =>
      have hc := hvalue c List.mem_cons_self
      rw [(List.cons.inj heq).1] at hc
      exact absurd hc (by decide)
  have hone : paramValue (value ++ ':' :: rest) = some (value, ':' :: rest) := by
    rw [paramValue, hspan'.1, hspan'.2]
    exact hquote
  have hvalues : paramValues ((value ++ ':' :: rest).length + 1) (value ++ ':' :: rest) =
      some ([value], ':' :: rest) := by
    rw [paramValues, hone]
    rfl
  rw [show ';' :: name ++ '=' :: value ++ ':' :: rest =
    ';' :: (name ++ '=' :: value ++ ':' :: rest) from rfl, List.append_assoc, afterName]
  simp only [List.cons_append] at hspan ⊢
  rw [hspan.1, hspan.2]
  simp only [if_neg hne, hvalues]

/-- A property without parameters is read back, unless its value has a control character. -/
theorem parseLine_colon {name value : List Char} (hne : name ≠ [])
    (hname : ∀ c ∈ name, isNameChar c = true) :
    parseLine (name ++ ':' :: value) =
      if value.any isControl then none else some ⟨name, [], value⟩ := by
  have hspan := @span_append _ _ (':' :: value) hname
    (by simp [show isNameChar ':' = false by decide])
  unfold parseLine
  dsimp only
  rw [hspan.1, hspan.2, if_neg hne, afterName_colon]
  split <;> rfl

/-- A property with one parameter is read back, unless its value has a control character. -/
theorem parseLine_param {name param paramValue value : List Char} (hne : name ≠ [])
    (hname : ∀ c ∈ name, isNameChar c = true) (hparamne : param ≠ [])
    (hparam : ∀ c ∈ param, isNameChar c = true) (hvalue : ∀ c ∈ paramValue, isSafeChar c = true) :
    parseLine (name ++ (';' :: param ++ '=' :: paramValue ++ ':' :: value)) =
      if value.any isControl then none else some ⟨name, [(param, [paramValue])], value⟩ := by
  have hspan := @span_append _ _ (';' :: param ++ '=' :: paramValue ++ ':' :: value) hname
    (by simp [show isNameChar ';' = false by decide])
  unfold parseLine
  dsimp only
  rw [hspan.1, hspan.2, if_neg hne, afterName_param hparamne hparam hvalue]
  obtain ⟨n, hn⟩ : ∃ n,
      (name ++ (';' :: param ++ '=' :: paramValue ++ ':' :: value)).length = n + 1 :=
    Nat.exists_eq_add_one.2 (List.length_pos_of_ne_nil (by simp [hne]))
  rw [hn, afterName_colon]
  split <;> rfl

theorem unescapeText_cons {c : Char} (h : ¬(c = '\\' ∨ c = ';' ∨ c = ',' ∨ isControl c = true))
    (cs : List Char) : unescapeText (c :: cs) = (unescapeText cs).map (c :: ·) := by
  rw [unescapeText, if_neg h]
  all_goals exact fun cs heq => absurd (.inl heq) h

section Streams

variable {isText : List Char → Bool} {stream : List Char} {lines : List (List Char)}

theorem lines?_endLines (h : ∀ line ∈ lines, '\r' ∉ line) : lines? (endLines lines) = some lines := by
  rw [lines?, splitLines_endLines h]

theorem parse_of_lines {properties : List Property} (hlines : lines? (unfolded stream) = some lines)
    (h : List.Forall₂ (fun line p => readLine isText line = some p) lines properties) :
    parse isText stream = components [] properties := by
  have hread : lines.mapM (readLine isText) = some properties := by
    clear hlines
    induction h with
    | nil => rfl
    | cons hline _ ih =>
      rw [List.mapM_cons, hline, ih]
      rfl
  rw [parse, hlines, Option.bind_eq_bind, Option.bind_some, hread]
  rfl

theorem readLine_isSome_of_parse {component : Component} (h : parse isText stream = some component)
    (hlines : lines? (unfolded stream) = some lines) :
    ∀ line ∈ lines, (readLine isText line).isSome = true := by
  rw [parse, hlines, Option.bind_eq_bind, Option.bind_some, Option.bind_eq_bind,
    Option.bind_eq_some_iff] at h
  obtain ⟨properties, hread, -⟩ := h
  intro line hline
  obtain ⟨i, hi, rfl⟩ := List.getElem_of_mem hline
  have hall := Transact.forall₂_of_mapM_eq_some hread
  have hp := (List.forall₂_iff_get.1 hall).2 i hi (hall.length_eq ▸ hi)
  exact Option.isSome_iff_exists.2 ⟨_, hp⟩

end Streams

/-! ## Components -/

/-- A property that neither begins nor ends a component. -/
def Property.IsPlain (p : Property) : Prop :=
  p.name.map Char.toUpper ≠ "BEGIN".toList ∧ p.name.map Char.toUpper ≠ "END".toList

def beginLine (name : List Char) : Property := ⟨"BEGIN".toList, [], name⟩

def endLine (name : List Char) : Property := ⟨"END".toList, [], name⟩

section Read

variable {stack : List Frame} {top : Frame} {ps : List Property}

theorem components_begin (name : List Char) :
    components stack (beginLine name :: ps) = components (⟨name, [], []⟩ :: stack) ps := by
  have hbegin : (beginLine name).name.map Char.toUpper = "BEGIN".toList := by
    change "BEGIN".toList.map Char.toUpper = _
    decide
  rw [components.eq_def]
  simp only [if_pos hbegin]
  rfl

theorem components_plain {properties : List Property} (h : ∀ p ∈ properties, p.IsPlain) :
    components (top :: stack) (properties ++ ps) =
      components ({ top with properties := top.properties ++ properties } :: stack) ps := by
  induction properties generalizing top with
  | nil => simp
  | cons p properties ih =>
    rw [List.forall_mem_cons] at h
    rw [List.cons_append, components.eq_def]
    simp only [if_neg h.1.1, if_neg h.1.2]
    rw [ih h.2]
    simp

theorem map_toUpper_end (name : List Char) :
    (endLine name).name.map Char.toUpper ≠ "BEGIN".toList ∧
      (endLine name).name.map Char.toUpper = "END".toList := by
  change "END".toList.map Char.toUpper ≠ _ ∧ "END".toList.map Char.toUpper = _
  decide

theorem components_end {next : Frame} :
    components (top :: next :: stack) (endLine top.name :: ps) =
      components ({ next with
        components := next.components ++ [⟨top.name, top.properties, top.components⟩] } ::
          stack) ps := by
  obtain ⟨hbegin, hend⟩ := map_toUpper_end top.name
  rw [components.eq_def]
  simp only [if_neg hbegin, if_pos hend]
  simp [endLine]

theorem components_last :
    components [top] [endLine top.name] =
      some ⟨top.name, top.properties, top.components⟩ := by
  obtain ⟨hbegin, hend⟩ := map_toUpper_end top.name
  rw [components.eq_def]
  simp only [if_neg hbegin, if_pos hend]
  simp [endLine]

def leafLines (name : List Char) (properties : List Property) : List Property :=
  beginLine name :: properties ++ [endLine name]

theorem components_flatMap {name : List Char} {leaves : List (List Property)}
    (h : ∀ properties ∈ leaves, ∀ p ∈ properties, p.IsPlain) :
    components (top :: stack) (leaves.flatMap (leafLines name) ++ ps) =
      components ({ top with
        components := top.components ++ leaves.map fun properties => ⟨name, properties, []⟩ } ::
          stack) ps := by
  induction leaves generalizing top with
  | nil => simp
  | cons properties leaves ih =>
    rw [List.forall_mem_cons] at h
    rw [List.flatMap_cons, leafLines, List.append_assoc, List.append_assoc, List.cons_append,
      components_begin, components_plain h.1, List.singleton_append]
    have hend := @components_end stack ⟨name, [] ++ properties, []⟩
      (leaves.flatMap (leafLines name) ++ ps) top
    rw [hend, ih h.2]
    simp

end Read

end ContentLines
