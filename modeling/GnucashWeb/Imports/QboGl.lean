import GnucashWeb.Imports.QboJournal
import GnucashWeb.Lib.Grouping

/-!
# The General Ledger report

`parseQboGeneralLedgerRows`: entries under account sections become transactions again, by grouping
them across the accounts.  The reconstruction counts are left out.  The amounts of the transactions
are those of the groups, or of their only opposite pair (`mem_amounts_parseQboGeneralLedgerRows`).
-/

namespace Imports

open Ledger (WholeCents round2)

structure GlColumns where
  date : Option ℕ
  type : Option ℕ
  num : Option ℕ
  name : Option ℕ
  memo : Option ℕ
  split : Option ℕ
  amount : Option ℕ
  balance : Option ℕ

structure GlEntry where
  accountPath : Cell
  date : ℤ
  type : Cell
  num : Cell
  name : Cell
  memo : Cell
  amount : ℚ
  row : ℕ

/-- A General Ledger header has an amount and a balance, and neither debit nor credit. -/
def detectGlHeader (toLowerCase : List Char → List Char) (cells : List Cell) : Option GlColumns :=
  let norm := cells.map (normHeader toLowerCase)
  if norm.any (includes "debit") ∨ norm.any (includes "credit") then none
  else
    let date := findHeader norm dateMatchers
    let amount := findHeader norm [.is "amount", .by (includes "amount")]
    let balance := findHeader norm [.is "balance", .by (includes "balance")]
    if date.isNone ∨ amount.isNone ∨ balance.isNone then none
    else some
      { date := date
        type := findHeader norm typeMatchers
        num := findHeader norm numMatchers
        name := findHeader norm nameMatchers
        memo := findHeader norm memoMatchers
        split := findHeader norm [.is "split"]
        amount := amount
        balance := balance }

/-! ## Rows to entries -/

/-- `/^beginning balance$/i`. -/
def isBeginningBalance (label : Cell) : Bool := label.map Char.toLower = "beginning balance".toList

/-- `/^total(?:\s+for\s+(.+))?$/i`, with the name it captures. -/
def totalMatch? (label : Cell) : Option (Option Cell) :=
  if (label.take 5).map Char.toLower ≠ "total".toList then none
  else
    match label.drop 5 with
    | [] => some none
    | rest => do
        let afterTotal ← spaces rest
        if (afterTotal.take 3).map Char.toLower ≠ "for".toList then none
        else
          let name ← spaces (afterTotal.drop 3)
          if name = [] ∨ name.any isLineTerminator then none else some (some name)

def lastIndexOf? (target : Cell) (stack : List Cell) : Option ℕ :=
  (stack.reverse.findIdx? fun s => s = target).map fun i => stack.length - 1 - i

structure GlState where
  sectionStack : List Cell
  entries : List GlEntry
  errors : List QboParseError
  orphanRowsReported : Bool

def GlState.fail (st : GlState) (row : ℕ) (message : QboMessage) : GlState :=
  { st with errors := st.errors ++ [⟨row, message⟩] }

section Rows

variable (toLowerCase : List Char → List Char) (locale : ImportLocale) (cols : GlColumns)

/-- A row with a date: an entry of the open section. -/
def readEntry (st : GlState) (rowNum : ℕ) (row : List Cell) (iso : ℤ) : GlState :=
  if st.sectionStack = [] then
    if st.orphanRowsReported then st
    else { st.fail rowNum .rowBeforeSection with orphanRowsReported := true }
  else
    let amountRaw := cellAt row cols.amount
    let path := List.intercalate [':'] st.sectionStack
    match parseQboAmount amountRaw locale with
    | none => st.fail rowNum (.unparseableAmount amountRaw path)
    | some amount =>
      { st with
        entries := st.entries ++
          [{ accountPath := path
             date := iso
             type := cellAt row cols.type
             num := cellAt row cols.num
             name := cellAt row cols.name
             memo := cellAt row cols.memo
             amount := amount
             row := rowNum }] }

/-- The stack once a total row has closed a section. -/
def closeSection (stack : List Cell) (name : Option Cell) : List Cell :=
  match name.map fun n => toLowerCase (canonicalAccountPath n) with
  | none | some [] => stack.dropLast
  | some target =>
    stack.take ((lastIndexOf? target (stack.map toLowerCase)).getD (stack.length - 1))

/-- A row without a date: a beginning balance, a total, a section header or an artifact. -/
def readLabel (st : GlState) (row : List Cell) : GlState :=
  let label := (row.find? fun c => c ≠ []).getD []
  if isBeginningBalance label then st
  else
    match totalMatch? label with
    | some name => { st with sectionStack := closeSection toLowerCase st.sectionStack name }
    | none =>
      if cellAt row cols.amount = [] ∧ canonicalAccountPath label ≠ [] then
        { st with sectionStack := st.sectionStack ++ [canonicalAccountPath label] }
      else st

def readGlRow (st : GlState) (numbered : ℕ × List Cell) : GlState :=
  let (rowNum, row) := numbered
  let dateRaw := cellAt row cols.date
  match (if dateRaw ≠ [] then parseQboDate dateRaw locale else none) with
  | some iso => readEntry locale cols st rowNum row iso
  | none => readLabel toLowerCase cols st row

end Rows

/-! ## Entries to transactions -/

def GlEntry.key (toLowerCase : List Char → List Char) (e : GlEntry) : ℤ × Cell :=
  (e.date, List.intercalate ['\x00']
    [toLowerCase e.type, toLowerCase e.num, toLowerCase (if e.name = [] then e.memo else e.name)])

def firstRow (group : List GlEntry) : ℕ := ((group.map GlEntry.row).min?).getD 0

/-- The transaction of some entries, the first one apart. -/
def emit (first : GlEntry) (group : List GlEntry) : QboJournalTransaction :=
  { date := first.date
    type := first.type
    num := first.num
    name := ((group.find? fun e => e.name ≠ []).map GlEntry.name).getD []
    memo := ((group.find? fun e => e.memo ≠ []).map GlEntry.memo).getD []
    lines := group.map fun e => ⟨e.accountPath, e.amount, e.memo, e.row⟩
    startRow := firstRow group }

def failGroup (first : GlEntry) (group : List GlEntry) (sum : ℚ) : QboParseError :=
  ⟨firstRow group, .notReconstructed first.date first.type first.name (group.map GlEntry.row) sum⟩

/-- Two amounts that are not zero and whose sum is within a cent of zero. -/
def Opposite (a b : ℚ) : Prop := 5 / 1000 < |a| ∧ |round2 (a + b)| ≤ 1 / 100

instance (a b : ℚ) : Decidable (Opposite a b) := inferInstanceAs (Decidable (_ ∧ _))

def oppositePairs (amounts : List ℚ) : List (ℕ × ℕ) :=
  (List.range amounts.length).flatMap fun i =>
    ((List.range amounts.length).filter fun j =>
      i < j ∧ Opposite (amounts.getD i 0) (amounts.getD j 0)).map fun j => (i, j)

def groupSum (group : List GlEntry) : ℚ := round2 (group.map GlEntry.amount).sum

/-- The transaction reconstructed from a group and the error of what is left of it. -/
def reconstruct (first : GlEntry) (group : List GlEntry) :
    Option QboJournalTransaction × Option QboParseError :=
  if |groupSum group| ≤ 1 / 100 then
    (if 2 ≤ group.length then some (emit first group) else none, none)
  else
    match oppositePairs (group.map GlEntry.amount) with
    | [(i, j)] =>
      let a := group.getD i first
      let b := group.getD j first
      let rest := (group.zipIdx.filter fun e => e.2 ≠ i ∧ e.2 ≠ j).map Prod.fst
      (some (emit a [a, b]), some (failGroup (rest.headD first) rest (groupSum rest)))
    | _ => (none, some (failGroup first group (groupSum group)))

def reconstructAll (toLowerCase : List Char → List Char) (entries : List GlEntry) :
    List (Option QboJournalTransaction × Option QboParseError) :=
  (Grouping.grouped (GlEntry.key toLowerCase) entries).filterMap fun group =>
    group.2.head?.map fun first => reconstruct first group.2

/-- The entries of a report and the errors of its rows, without a header none. -/
def readGl (toLowerCase : List Char → List Char) (rows : List (List Cell)) (locale : ImportLocale) :
    List GlEntry × List QboParseError :=
  match locateHeader (detectGlHeader toLowerCase) rows with
  | none => ([], [⟨1, .headerNotFound⟩])
  | some (headerIdx, cols) =>
    let st := (dataRows rows headerIdx).foldl (readGlRow toLowerCase locale cols)
      ⟨[], [], [], false⟩
    (st.entries, st.errors)

def parseQboGeneralLedgerRows (toLowerCase : List Char → List Char) (rows : List (List Cell))
    (locale : ImportLocale) : QboJournalParseResult :=
  let read := readGl toLowerCase rows locale
  let groups := reconstructAll toLowerCase read.1
  { transactions := (groups.filterMap Prod.fst).mergeSort fun a b =>
      a.date < b.date || (a.date = b.date && a.startRow ≤ b.startRow)
    errors := read.2 ++ groups.filterMap Prod.snd }

/-! ## The amounts that are imported -/

def groupAmounts (amounts : List ℚ) : Option (List ℚ) :=
  if |round2 amounts.sum| ≤ 1 / 100 then (if 2 ≤ amounts.length then some amounts else none)
  else
    match oppositePairs amounts with
    | [(i, j)] => some [amounts.getD i 0, amounts.getD j 0]
    | _ => none

theorem amounts_emit (first : GlEntry) (group : List GlEntry) :
    (emit first group).amounts = group.map GlEntry.amount := by
  simp [emit, QboJournalTransaction.amounts, Function.comp_def]

theorem lt_length_of_mem_oppositePairs {amounts : List ℚ} {i j : ℕ}
    (h : (i, j) ∈ oppositePairs amounts) : i < amounts.length ∧ j < amounts.length := by
  simp only [oppositePairs, List.mem_flatMap, List.mem_map, List.mem_filter, List.mem_range,
    Prod.mk.injEq] at h
  obtain ⟨i', hi, j', ⟨hj, -⟩, rfl, rfl⟩ := h
  exact ⟨hi, hj⟩

theorem amounts_reconstruct (first : GlEntry) (group : List GlEntry) :
    (reconstruct first group).1.map QboJournalTransaction.amounts =
      groupAmounts (group.map GlEntry.amount) := by
  have hget : ∀ i < group.length,
      (group.getD i first).amount = (group.map GlEntry.amount).getD i 0 := by
    intro i hi
    simp [List.getD_eq_getElem?_getD, hi]
  unfold reconstruct groupAmounts groupSum
  rw [List.length_map]
  by_cases hsum : |round2 (group.map GlEntry.amount).sum| ≤ 1 / 100
  · rw [if_pos hsum, if_pos hsum]
    by_cases hlength : 2 ≤ group.length
    · rw [if_pos hlength, if_pos hlength, Option.map_some, amounts_emit]
    · rw [if_neg hlength, if_neg hlength]
      rfl
  · rw [if_neg hsum, if_neg hsum]
    match hpairs : oppositePairs (group.map GlEntry.amount) with
    | [(i, j)] =>
      have hlt := lt_length_of_mem_oppositePairs (hpairs ▸ List.mem_singleton_self (i, j))
      rw [List.length_map] at hlt
      simp only [Option.map_some, amounts_emit, List.map_cons, List.map_nil, hget i hlt.1,
        hget j hlt.2]
    | [] => rfl
    | _ :: _ :: _ => rfl

/-- Amounts that are imported are those of the entries that share a key, if they are accepted. -/
theorem mem_amounts_parseQboGeneralLedgerRows (toLowerCase : List Char → List Char)
    (rows : List (List Cell)) (locale : ImportLocale) (amounts : List ℚ) :
    amounts ∈ (parseQboGeneralLedgerRows toLowerCase rows locale).transactions.map
        QboJournalTransaction.amounts ↔
      ∃ e ∈ (readGl toLowerCase rows locale).1,
        groupAmounts (((readGl toLowerCase rows locale).1.filter fun e' =>
          e'.key toLowerCase = e.key toLowerCase).map GlEntry.amount) = some amounts := by
  generalize hentries : (readGl toLowerCase rows locale).1 = entries
  simp only [parseQboGeneralLedgerRows, hentries, reconstructAll, List.mem_map, List.mem_mergeSort,
    List.mem_filterMap]
  constructor
  · rintro ⟨txn, ⟨result, ⟨⟨k, group⟩, hgroup, hresult⟩, htxn⟩, rfl⟩
    obtain ⟨first, -, rfl⟩ := Option.map_eq_some_iff.1 hresult
    obtain ⟨⟨e, he, hk⟩, hmembers⟩ := (Grouping.mem_grouped_iff ..).1 hgroup
    simp only at hk hmembers htxn
    refine ⟨e, he, ?_⟩
    rw [hk, ← hmembers, ← amounts_reconstruct first, htxn]
    rfl
  · rintro ⟨e, he, hamounts⟩
    obtain ⟨first, hfirst⟩ : ∃ first,
        (entries.filter fun e' => e'.key toLowerCase = e.key toLowerCase).head? = some first := by
      rw [← Option.isSome_iff_exists, List.isSome_head?]
      exact List.ne_nil_of_mem (List.mem_filter.2 ⟨he, by simp⟩)
    rw [← amounts_reconstruct first] at hamounts
    obtain ⟨txn, htxn, rfl⟩ := Option.map_eq_some_iff.1 hamounts
    have hgroup : (e.key toLowerCase,
        entries.filter fun e' => e'.key toLowerCase = e.key toLowerCase) ∈
          Grouping.grouped (GlEntry.key toLowerCase) entries :=
      (Grouping.mem_grouped_iff ..).2 ⟨⟨e, he, rfl⟩, rfl⟩
    refine ⟨txn, ⟨_, ⟨_, hgroup, ?_⟩, htxn⟩, rfl⟩
    rw [hfirst]
    rfl

end Imports
