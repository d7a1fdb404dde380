import GnucashWeb.Lib.Calendar
import GnucashWeb.Lib.Table
import Mathlib.Data.List.Sort

/-!
# The slot codec

Typed slots (`SlotValue`, `GnuCashSlot`) and the rows of the native `slots` table (`DbSlotRow`).
`slotsToDbRows` flattens a slot tree: a frame or a list gets a row of its own whose `guidVal` is a
fresh guid, and its children carry slash-joined names under that guid.  `dbRowsToSlots` rebuilds
the tree of an object from indexed rows, in the order the rows were loaded.
-/

open Text Calendar Table

namespace Slots

/-! ## Typed slots -/

/-- A typed slot value; `ν` is the type of double payloads, every other payload is text. -/
inductive SlotValue (ν : Type) where
  | integer (value : String)
  | double (value : ν)
  | numeric (value : String)
  | string (value : String)
  | guid (value : String)
  | timespec (value : String)
  | gdate (value : String)
  | list (values : List (SlotValue ν))
  | frame (slots : List (String × SlotValue ν))

/-- Induction over a slot tree, with the hypothesis for every item of a list and every child of a
frame. -/
@[induction_eliminator]
theorem SlotValue.induction {ν : Type} {motive : SlotValue ν → Prop}
    (integer : ∀ value, motive (.integer value)) (double : ∀ value, motive (.double value))
    (numeric : ∀ value, motive (.numeric value)) (string : ∀ value, motive (.string value))
    (guid : ∀ value, motive (.guid value)) (timespec : ∀ value, motive (.timespec value))
    (gdate : ∀ value, motive (.gdate value))
    (list : ∀ values, (∀ v ∈ values, motive v) → motive (.list values))
    (frame : ∀ slots : List (String × SlotValue ν), (∀ s ∈ slots, motive s.2) →
      motive (.frame slots)) (v : SlotValue ν) : motive v :=
  @SlotValue.rec ν motive (fun values => ∀ v ∈ values, motive v)
    (fun slots => ∀ s ∈ slots, motive s.2) (fun s => motive s.2)
    integer double numeric string guid timespec gdate list frame
    (fun _ h => absurd h List.not_mem_nil)
    (fun _ _ h hs => List.forall_mem_cons.2 ⟨h, hs⟩)
    (fun _ h => absurd h List.not_mem_nil)
    (fun _ _ h hs => List.forall_mem_cons.2 ⟨h, hs⟩)
    (fun _ _ h => h) v

abbrev GnuCashSlot (ν : Type) := String × SlotValue ν

/-! ## Table rows -/

/-! The `slot_type` numbers of the native table. -/

namespace SlotType

@[match_pattern] abbrev INT64 : ℕ := 1
@[match_pattern] abbrev DOUBLE : ℕ := 2
@[match_pattern] abbrev NUMERIC : ℕ := 3
@[match_pattern] abbrev STRING : ℕ := 4
@[match_pattern] abbrev GUID : ℕ := 5
@[match_pattern] abbrev TIMESPEC : ℕ := 6
@[match_pattern] abbrev LIST : ℕ := 8
@[match_pattern] abbrev FRAME : ℕ := 9
@[match_pattern] abbrev GDATE : ℕ := 10

end SlotType

/-- One row of the native `slots` table. -/
structure DbSlotRow (ν : Type) where
  objGuid : String
  name : String
  slotType : ℕ
  int64Val : Option ℤ
  stringVal : Option String
  doubleVal : Option ν
  timespecVal : Option UtcDate
  guidVal : Option String
  numericValNum : Option ℤ
  numericValDenom : Option ℤ
  gdateVal : Option UtcDate
  deriving DecidableEq

def emptyRow {ν : Type} (objGuid name : String) (slotType : ℕ) : DbSlotRow ν :=
  ⟨objGuid, name, slotType, none, none, none, none, none, none, none, none⟩

/-- What the program takes from its host: the date texts the engine accepts beside the UTC ones,
and the guids that successive calls of `generateGuid` return. -/
structure Host where
  parseDate : List Char → Option UtcDate
  generateGuid : ℕ → String

/-! ## Payload texts -/

/-- The parts of a `num/denom` text; a bare integer has denominator 1, and a part that is no
integer gives 0/1. -/
def parseFractionParts (fractionStr : List Char) : ℤ × ℤ :=
  match split '/' fractionStr with
  | [num, denom] =>
    match bigInt (trim num), bigInt (trim denom) with
    | some n, some d => (n, d)
    | _, _ => (0, 1)
  | num :: _ =>
    match bigInt (if trim num = [] then ['0'] else trim num) with
    | some n => (n, 1)
    | none => (0, 1)
  | [] => (0, 1)

/-- `new Date(text)`, none for an invalid date. -/
def Host.newDate (host : Host) (text : List Char) : Option UtcDate :=
  (readUtc text).orElse fun _ => host.parseDate text

/-- Whether the text has the shape of the pattern, where `d` stands for any digit. -/
def hasShape : List Char → List Char → Bool
  | [], [] => true
  | p :: pattern, c :: cs => (if p = 'd' then c.isDigit else p == c) && hasShape pattern cs
  | _, _ => false

/-- The white space between a leading date and a time replaced by `T`. -/
def isoLike (cs : List Char) : List Char :=
  let rest := cs.drop 10
  let time := rest.dropWhile isSpace
  if hasShape "dddd-dd-dd".toList (cs.take 10) ∧ rest ≠ time ∧
      hasShape "dd:dd:dd".toList (time.take 8) then
    cs.take 10 ++ 'T' :: time
  else cs

/-- Parses a timespec text, null when it is empty or no date. -/
def Host.parseTimespecString (host : Host) (value : String) : Option UtcDate :=
  if value = "" then none
  else
    let trimmed := trim value.toList
    (host.newDate (isoLike trimmed)).orElse fun _ => host.newDate trimmed

/-- The first `T` replaced by a space. -/
def replaceT : List Char → List Char
  | [] => []
  | c :: cs => if c = 'T' then ' ' :: cs else c :: replaceT cs

/-- A trailing `.mmmZ` replaced by ` +0000`. -/
def replaceMillis (cs : List Char) : List Char :=
  let keep := cs.length - 5
  if hasShape ".dddZ".toList (cs.drop keep) then cs.take keep ++ " +0000".toList else cs

def formatTimespec (d : UtcDate) : String :=
  String.ofList (replaceMillis (replaceT (toISOString d)))

section Write

variable {ν : Type} (host : Host)

mutual

/-- The rows of one value under the given owner and name, with the count of guids drawn so far.
None stands for a thrown error: an integer text `BigInt` rejects, or a date that is invalid and
so cannot be inserted. -/
def pushValueRows (owner name : String) :
    SlotValue ν → ℕ → Option (List (DbSlotRow ν) × ℕ)
  | .integer value, n => do
      let i ← bigInt (if value = "" then ['0'] else value.toList)
      some ([{ (emptyRow owner name SlotType.INT64 : DbSlotRow ν) with int64Val := some i }], n)
  | .double value, n =>
    some ([{ (emptyRow owner name SlotType.DOUBLE : DbSlotRow ν) with doubleVal := some value }], n)
  | .numeric value, n =>
    let fraction := parseFractionParts value.toList
    some ([{ (emptyRow owner name SlotType.NUMERIC : DbSlotRow ν) with
      numericValNum := some fraction.1, numericValDenom := some fraction.2 }], n)
  | .string value, n =>
    some ([{ (emptyRow owner name SlotType.STRING : DbSlotRow ν) with stringVal := some value }], n)
  | .guid value, n =>
    some ([{ (emptyRow owner name SlotType.GUID : DbSlotRow ν) with guidVal := some value }], n)
  | .timespec value, n =>
    some ([{ (emptyRow owner name SlotType.TIMESPEC : DbSlotRow ν) with
      timespecVal := host.parseTimespecString value }], n)
  | .gdate value, n =>
    if value = "" then some ([emptyRow owner name SlotType.GDATE], n)
    else do
      let d ← host.newDate (value.toList ++ "T00:00:00.000Z".toList)
      some ([{ (emptyRow owner name SlotType.GDATE : DbSlotRow ν) with gdateVal := some d }], n)
  | .frame slots, n => do
      let frameGuid := host.generateGuid n
      let row := { (emptyRow owner name SlotType.FRAME : DbSlotRow ν) with guidVal := some frameGuid }
      let (rows, n) ← walk frameGuid (name ++ "/") slots (n + 1)
      some (row :: rows, n)
  | .list values, n => do
      let listGuid := host.generateGuid n
      let row := { (emptyRow owner name SlotType.LIST : DbSlotRow ν) with guidVal := some listGuid }
      let (rows, n) ← pushItems listGuid (name ++ "/") values (n + 1)
      some (row :: rows, n)

def walk (owner parentPath : String) :
    List (GnuCashSlot ν) → ℕ → Option (List (DbSlotRow ν) × ℕ)
  | [], n => some ([], n)
  | (key, value) :: slots, n => do
      let (rows, n) ← pushValueRows owner (parentPath ++ key) value n
      let (rows', n) ← walk owner parentPath slots n
      some (rows ++ rows', n)

def pushItems (owner name : String) :
    List (SlotValue ν) → ℕ → Option (List (DbSlotRow ν) × ℕ)
  | [], n => some ([], n)
  | item :: values, n => do
      let (rows, n) ← pushValueRows owner name item n
      let (rows', n) ← pushItems owner name values n
      some (rows ++ rows', n)

end

def slotsToDbRows (objGuid : String) (slots : List (GnuCashSlot ν)) :
    Option (List (DbSlotRow ν)) :=
  (walk host objGuid "" slots 0).map Prod.fst

end Write

/-! ## Rows to typed -/

/-- Loaded rows collected by `obj_guid`. -/
abbrev SlotIndex (ν : Type) := List (String × List (DbSlotRow ν))

/-- Indexes loaded rows by `obj_guid`. -/
def indexDbSlotRows {ν : Type} (rows : List (DbSlotRow ν)) : SlotIndex ν :=
  indexBy DbSlotRow.objGuid rows

/-- What one reconstruction shares between its calls. -/
structure ReadState where
  visited : List String
  skipped : List String

/-- The UTF-16 code units of a text, which its comparison goes by. -/
def codeUnits (s : String) : List ℕ :=
  s.toList.flatMap fun c =>
    if c.toNat < 0x10000 then [c.toNat]
    else [0xD800 + (c.toNat - 0x10000) / 0x400, 0xDC00 + (c.toNat - 0x10000) % 0x400]

/-- The rows in the order of their names, rows of one name in loaded order. -/
def sortByName {ν : Type} (rows : List (DbSlotRow ν)) : List (DbSlotRow ν) :=
  rows.insertionSort fun a b => codeUnits a.name ≤ codeUnits b.name

/-- The key of a row below a path: the path stripped, or the last segment of another path. -/
def keyOf (parentPath name : String) : String :=
  if parentPath.toList.isPrefixOf name.toList then
    String.ofList (name.toList.drop parentPath.toList.length)
  else String.ofList ((split '/' name.toList).getLastD name.toList)

/-- Reads rows in order and keeps the values that are not null. -/
def readAll {α β : Type} (read : α → ReadState → Option β × ReadState) :
    List α → ReadState → List β × ReadState
  | [], st => ([], st)
  | a :: as, st =>
    let (b, st) := read a st
    let (bs, st) := readAll read as st
    (b.toList ++ bs, st)

section Read

variable {ν : Type} [Zero ν] (index : SlotIndex ν)

/-- The slots stored under a guid, sorted by name; `value` reads the value of a row. -/
def treeFor (value : DbSlotRow ν → ReadState → Option (SlotValue ν) × ReadState)
    (objGuid parentPath : String) (st : ReadState) : List (GnuCashSlot ν) × ReadState :=
  readAll (fun row st => (value row st).map (Option.map (Prod.mk (keyOf parentPath row.name))) id)
    (sortByName (lookup objGuid index)) st

/-- The value of a row.  Every nested call marks one more guid as visited, so a fuel of one more
than the number of rows is never used up. -/
def valueFromRow : ℕ → DbSlotRow ν → ReadState → Option (SlotValue ν) × ReadState
  | 0, _, st => (none, st)
  | fuel + 1, row, st =>
    match row.slotType with
    | SlotType.INT64 => (some (.integer (String.ofList (intDigits (row.int64Val.getD 0)))), st)
    | SlotType.DOUBLE => (some (.double (row.doubleVal.getD 0)), st)
    | SlotType.NUMERIC =>
      (some (.numeric (String.ofList (intDigits (row.numericValNum.getD 0) ++
        '/' :: intDigits (row.numericValDenom.getD 1)))), st)
    | SlotType.STRING => (some (.string (row.stringVal.getD "")), st)
    | SlotType.GUID => (some (.guid (row.guidVal.getD "")), st)
    | SlotType.TIMESPEC =>
      (some (.timespec ((row.timespecVal.map formatTimespec).getD "")), st)
    | SlotType.GDATE =>
      (some (.gdate ((row.gdateVal.map fun d =>
        String.ofList ((toISOString d).take 10)).getD "")), st)
    | SlotType.FRAME =>
      let guid := row.guidVal.getD ""
      if guid = "" ∨ guid ∈ st.visited then (some (.frame []), st)
      else
        let (slots, st) := treeFor index (valueFromRow fuel) guid (row.name ++ "/")
          { st with visited := guid :: st.visited }
        (some (.frame slots), st)
    | SlotType.LIST =>
      let guid := row.guidVal.getD ""
      if guid = "" ∨ guid ∈ st.visited then (some (.list []), st)
      else
        let (values, st) := readAll (valueFromRow fuel) (lookup guid index)
          { st with visited := guid :: st.visited }
        (some (.list values), st)
    | _ =>
      (none, { st with skipped := st.skipped ++
        [s!"Slot \"{row.name}\" with unsupported slot_type {row.slotType} skipped (obj {row.objGuid})"] })

end Read

/-- Reconstructs the slots of an object from loaded rows, with the notes on skipped rows. -/
def dbRowsToSlots {ν : Type} [Zero ν] (rows : List (DbSlotRow ν)) (objGuid : String) :
    List (GnuCashSlot ν) × List String :=
  let index := indexDbSlotRows rows
  let (slots, st) := treeFor index (valueFromRow index (rows.length + 1)) objGuid ""
    { visited := [objGuid], skipped := [] }
  (slots, st.skipped)

end Slots
