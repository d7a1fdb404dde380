import GnucashWeb.Slots.Shuffled

/-!
# Payload round trips

For each scalar payload text that is well formed, the row column written for it reads back as the
same payload: `parseFractionParts_eq`, `parseTimespecString_timespecText` and `formatTimespec_eq`.
`WellFormed` collects the conditions over a tree.
-/

open Text Calendar

namespace Slots

/-! ## Numbers -/

theorem bigInt_integer {value : String} {i : ℤ} (h : integerValue value = some i) :
    bigInt (if value = "" then ['0'] else value.toList) = some i := by
  split_ifs with h0
  · subst h0
    exact h
  · exact h

theorem integerValue_intDigits (i : ℤ) : integerValue (String.ofList (intDigits i)) = some i := by
  rw [integerValue, String.toList_ofList, bigInt_intDigits]

theorem parseFractionParts_eq {value : String} {f : ℤ × ℤ} (h : fractionValue value = some f) :
    parseFractionParts value.toList = f := by
  unfold fractionValue at h
  unfold parseFractionParts
  split at h
  · next num heq =>
      obtain ⟨n, hn, rfl⟩ := Option.map_eq_some_iff.1 h
      have hread : bigInt (if trim num = [] then ['0'] else trim num) = some n := by
        rw [← bigInt_trim] at hn
        split_ifs with h0
        · rw [h0] at hn
          exact hn
        · exact hn
      simp only [heq, hread]
  · next num denom heq =>
      obtain ⟨n, hn, h⟩ := Option.bind_eq_some_iff.1 h
      obtain ⟨d, hd, rfl⟩ := Option.map_eq_some_iff.1 h
      simp only [heq, bigInt_trim, hn, hd]
  · exact absurd h (by simp)

theorem fractionValue_intDigits (f : ℤ × ℤ) :
    fractionValue (String.ofList (intDigits f.1 ++ '/' :: intDigits f.2)) = some f := by
  have hsplit : split '/' (intDigits f.1 ++ '/' :: intDigits f.2) =
      [intDigits f.1, intDigits f.2] := by
    unfold split
    rw [List.splitOn_append_cons_self_of_not_mem (slash_notMem_intDigits _),
      List.splitOn_eq_singleton (slash_notMem_intDigits _)]
  simp only [fractionValue, String.toList_ofList, hsplit, bigInt_intDigits, Option.bind_some,
    Option.map_some]

/-! ## Dates -/

/-- The timespec text of a date, `YYYY-MM-DD HH:MM:SS +0000`. -/
def timespecText (d : UtcDate) : String :=
  String.ofList (isoDay d ++ ' ' :: (isoTime d ++ " +0000".toList))

/-- The gdate text of a date, `YYYY-MM-DD`. -/
def gdateText (d : UtcDate) : String := String.ofList (isoDay d)

theorem length_isoDay (d : UtcDate) : (isoDay d).length = 10 := by simp [isoDay]

theorem length_isoTime (d : UtcDate) : (isoTime d).length = 8 := by simp [isoTime]

theorem hasShape_append {p q cs ds : List Char} (h : p.length = cs.length) :
    hasShape (p ++ q) (cs ++ ds) = (hasShape p cs && hasShape q ds) := by
  induction p generalizing cs with
  | nil =>
    obtain rfl := List.length_eq_zero_iff.1 h.symm
    rfl
  | cons a p ih =>
    cases cs with
    | nil => exact absurd h (by simp)
    | cons c cs =>
      rw [List.cons_append, List.cons_append, hasShape, hasShape, ih (Nat.succ.inj h),
        Bool.and_assoc]

theorem hasShape_of_isDigit {cs : List Char} (h : ∀ c ∈ cs, c.isDigit = true) :
    hasShape (List.replicate cs.length 'd') cs = true := by
  induction cs with
  | nil => rfl
  | cons c cs ih =>
    have ih := ih fun c hc => h c (List.mem_cons_of_mem _ hc)
    simp [List.replicate_succ, hasShape, ih, h c (by simp)]

theorem hasShape_pad (width n : ℕ) : hasShape (List.replicate width 'd') (pad width n) = true := by
  have h : hasShape (List.replicate (pad width n).length 'd') (pad width n) = true :=
    hasShape_of_isDigit fun _ => isDigit_of_mem_pad
  rwa [length_pad] at h

theorem hasShape_isoDay (d : UtcDate) : hasShape "dddd-dd-dd".toList (isoDay d) = true := by
  have hp : "dddd-dd-dd".toList =
      List.replicate 4 'd' ++ (['-'] ++ (List.replicate 2 'd' ++ (['-'] ++ List.replicate 2 'd'))) := by
    decide
  have hd : isoDay d = pad 4 d.year ++ (['-'] ++ (pad 2 d.month ++ (['-'] ++ pad 2 d.day))) := by
    simp [isoDay]
  rw [hp, hd, hasShape_append (by simp), hasShape_append rfl, hasShape_append (by simp),
    hasShape_append rfl, hasShape_pad, hasShape_pad, hasShape_pad]
  rfl

theorem hasShape_isoTime (d : UtcDate) : hasShape "dd:dd:dd".toList (isoTime d) = true := by
  have hp : "dd:dd:dd".toList =
      List.replicate 2 'd' ++ ([':'] ++ (List.replicate 2 'd' ++ ([':'] ++ List.replicate 2 'd'))) := by
    decide
  have hd : isoTime d = pad 2 d.hour ++ ([':'] ++ (pad 2 d.minute ++ ([':'] ++ pad 2 d.second))) := by
    simp [isoTime]
  rw [hp, hd, hasShape_append (by simp), hasShape_append rfl, hasShape_append (by simp),
    hasShape_append rfl, hasShape_pad, hasShape_pad, hasShape_pad]
  rfl

theorem isDigit_head_pad {width n : ℕ} {c : Char} {cs : List Char} (hw : width ≠ 0)
    (hc : c ∈ (pad width n ++ cs).head?) : c.isDigit = true := by
  have hne : pad width n ≠ [] := by
    intro h
    have := congrArg List.length h
    simp at this
    exact hw this
  rw [List.head?_append_of_ne_nil _ hne] at hc
  exact isDigit_of_mem_pad (List.mem_of_mem_head? hc)

theorem isoLike_timespec (d : UtcDate) (zone : List Char) :
    isoLike (isoDay d ++ ' ' :: (isoTime d ++ zone)) = isoDay d ++ 'T' :: (isoTime d ++ zone) := by
  have htake : (isoDay d ++ ' ' :: (isoTime d ++ zone)).take 10 = isoDay d := by
    rw [← length_isoDay d, List.take_left]
  have hdrop : (isoDay d ++ ' ' :: (isoTime d ++ zone)).drop 10 = ' ' :: (isoTime d ++ zone) := by
    rw [← length_isoDay d, List.drop_left]
  have htime : (' ' :: (isoTime d ++ zone)).dropWhile isSpace = isoTime d ++ zone := by
    rw [List.dropWhile_cons, if_pos (by decide)]
    refine dropWhile_isSpace_eq fun c hc => isSpace_of_isDigit ?_
    rw [isoTime, List.append_assoc] at hc
    exact isDigit_head_pad (by decide) hc
  have hshape : (isoTime d ++ zone).take 8 = isoTime d := by
    rw [← length_isoTime d, List.take_left]
  have hne : ' ' :: (isoTime d ++ zone) ≠ isoTime d ++ zone := fun h => by
    have := congrArg List.length h
    simp at this
  simp only [isoLike, htake, hdrop, htime, hshape, hasShape_isoDay, hasShape_isoTime, ne_eq, hne,
    not_false_eq_true, and_self, if_true]

theorem trim_timespec (d : UtcDate) :
    trim (isoDay d ++ ' ' :: (isoTime d ++ " +0000".toList)) =
      isoDay d ++ ' ' :: (isoTime d ++ " +0000".toList) := by
  apply trim_eq
  · intro c hc
    rw [isoDay, List.append_assoc] at hc
    exact isSpace_of_isDigit (isDigit_head_pad (by decide) hc)
  · intro c hc
    have hlast : (isoDay d ++ ' ' :: (isoTime d ++ " +0000".toList)).getLast? = some '0' := by
      rw [List.getLast?_append_of_ne_nil _ (by simp), ← List.cons_append,
        List.getLast?_append_of_ne_nil _ (by decide)]
      decide
    rw [hlast] at hc
    obtain rfl := Option.some.inj hc
    decide

theorem parseTimespecString_timespecText (host : Host) {d : UtcDate} (h : d.milli = 0) :
    host.parseTimespecString (timespecText d) = some d := by
  have hne : timespecText d ≠ "" := fun h => by
    have := congrArg (fun s => s.toList.length) h
    simp [timespecText] at this
  unfold Host.parseTimespecString
  rw [if_neg hne]
  simp only [timespecText, String.toList_ofList, trim_timespec, isoLike_timespec, Host.newDate,
    readUtc_timestamp h, Option.orElse_some]

theorem replaceT_of_notMem {cs : List Char} (h : 'T' ∉ cs) (ds : List Char) :
    replaceT (cs ++ 'T' :: ds) = cs ++ ' ' :: ds := by
  induction cs with
  | nil => rfl
  | cons c cs ih =>
    have hc : c ≠ 'T' := fun hc => h (by simp [hc])
    rw [List.cons_append, replaceT, if_neg hc, ih fun hm => h (List.mem_cons_of_mem _ hm)]
    rfl

theorem T_notMem_isoDay (d : UtcDate) : 'T' ∉ isoDay d := by
  have hpad (width n : ℕ) : 'T' ∉ pad width n := fun h =>
    absurd (isDigit_of_mem_pad h) (by decide)
  simp [isoDay, hpad]

theorem formatTimespec_eq (d : UtcDate) : formatTimespec d = timespecText d := by
  have hlen : (isoDay d ++ ' ' :: isoTime d).length = 19 := by
    simp [length_isoDay, length_isoTime]
  have hshape : hasShape ".dddZ".toList ('.' :: (pad 3 d.milli ++ ['Z'])) = true := by
    have hp : ".dddZ".toList = ['.'] ++ (List.replicate 3 'd' ++ ['Z']) := by decide
    change hasShape _ (['.'] ++ (pad 3 d.milli ++ ['Z'])) = true
    rw [hp, hasShape_append rfl, hasShape_append (by simp), hasShape_pad]
    rfl
  have hT : replaceT (toISOString d) =
      (isoDay d ++ ' ' :: isoTime d) ++ '.' :: (pad 3 d.milli ++ ['Z']) := by
    rw [toISOString, replaceT_of_notMem (T_notMem_isoDay d)]
    simp
  have hkeep : ((isoDay d ++ ' ' :: isoTime d) ++ '.' :: (pad 3 d.milli ++ ['Z'])).length - 5 =
      (isoDay d ++ ' ' :: isoTime d).length := by
    simp only [List.length_append, List.length_cons, length_pad, List.length_nil]
    omega
  unfold formatTimespec timespecText replaceMillis
  rw [hT]
  simp only [hkeep, List.drop_left, hshape, if_true, List.take_left]
  simp

theorem take_toISOString (d : UtcDate) : String.ofList ((toISOString d).take 10) = gdateText d := by
  rw [toISOString, ← length_isoDay d, List.take_left]
  rfl

theorem newDate_gdateText (host : Host) (d : UtcDate) :
    host.newDate ((gdateText d).toList ++ "T00:00:00.000Z".toList) = some d.midnight := by
  rw [gdateText, String.toList_ofList, Host.newDate, readUtc_midnight]
  rfl

theorem gdateText_midnight (d : UtcDate) : gdateText d.midnight = gdateText d := rfl

theorem gdateText_ne_empty (d : UtcDate) : gdateText d ≠ "" := fun h => by
  have := congrArg (fun s => s.toList.length) h
  simp [gdateText, length_isoDay] at this

/-! ## Well-formed trees -/

mutual

/-- Every payload of the tree is well formed: integers and fractions that `BigInt` reads, and
dates in their canonical texts or empty.  Other payloads may be any text. -/
def WellFormed {ν : Type} : SlotValue ν → Prop
  | .integer value => (integerValue value).isSome
  | .numeric value => (fractionValue value).isSome
  | .timespec value => value = "" ∨ ∃ d : UtcDate, d.milli = 0 ∧ value = timespecText d
  | .gdate value => value = "" ∨ ∃ d : UtcDate, value = gdateText d
  | .list values => ItemsWellFormed values
  | .frame slots => SlotsWellFormed slots
  | _ => True

def ItemsWellFormed {ν : Type} : List (SlotValue ν) → Prop
  | [] => True
  | item :: values => WellFormed item ∧ ItemsWellFormed values

def SlotsWellFormed {ν : Type} : List (GnuCashSlot ν) → Prop
  | [] => True
  | (_, value) :: slots => WellFormed value ∧ SlotsWellFormed slots

end

section

variable {ν : Type}

theorem slotsWellFormed_iff {ss : List (GnuCashSlot ν)} :
    SlotsWellFormed ss ↔ ∀ s ∈ ss, WellFormed s.2 := by
  induction ss with
  | nil => simp [SlotsWellFormed]
  | cons s ss ih => simp [SlotsWellFormed, ih]

theorem itemsWellFormed_iff {vs : List (SlotValue ν)} :
    ItemsWellFormed vs ↔ ∀ v ∈ vs, WellFormed v := by
  induction vs with
  | nil => simp [ItemsWellFormed]
  | cons v vs ih => simp [ItemsWellFormed, ih]

end

end Slots
