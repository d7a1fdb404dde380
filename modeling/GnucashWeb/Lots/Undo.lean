import GnucashWeb.Lots.Moves

/-!
# Restoring and deleting

What the parts of an undo do to the tables: `restoredAll` gives every split of a list of stash rows
the amounts of its first row, and `withoutTransactions` deletes whole transactions.
-/

open Ledger Transact Rows

namespace Lots

variable {db db' : Db} {u : Unit}

/-! ## Restoring -/

def originalOf (texts : String × String × String × String) : Option (Amount × Amount) := do
  let qtyNum ← Text.bigInt texts.1.toList
  let qtyDenom ← Text.bigInt texts.2.1.toList
  let valNum ← Text.bigInt texts.2.2.1.toList
  let valDenom ← Text.bigInt texts.2.2.2.toList
  pure (⟨qtyNum, qtyDenom⟩, ⟨valNum, valDenom⟩)

def rowOriginal (db : Db) (row : Slot) : Option (Amount × Amount) :=
  (stashTexts db row).bind originalOf

/-- Whether a row can be restored: it holds no stash, or numbers for a split there is. -/
def Restorable (db : Db) (row : Slot) : Prop :=
  ∀ texts ∈ stashTexts db row, (originalOf texts).isSome ∧ (db.split? row.objGuid).isSome

/-- A split with the given amounts, outside any lot. -/
def restore (original : Option (Amount × Amount)) (s : Split) : Split :=
  match original with
  | some (quantity, value) => { s with quantity, value, lotGuid := none }
  | none => s

@[simp] theorem restore_guid (o : Option (Amount × Amount)) (s : Split) :
    (restore o s).guid = s.guid := by
  cases o <;> rfl

theorem sameRow_restore (o : Option (Amount × Amount)) (s : Split) : SameRow s (restore o s) := by
  cases o <;> rfl

def withoutStashes (guids : List String) (slots : List Slot) : List Slot :=
  slots.filter fun r => ¬(r.objGuid ∈ guids ∧ r.name ∈ stashSlotNames)

def restoredAt (db : Db) (row : Slot) : Db :=
  { db with
    splits := db.splits.map fun s =>
      if s.guid = row.objGuid then restore (rowOriginal db row) s else s
    slots := withoutStashes [row.objGuid] db.slots }

/-- The amounts that a list of rows restores to a split: those of its first row. -/
def restoredFrom (db : Db) (rows : List Slot) (guid : String) : Option (Amount × Amount) :=
  (rows.find? fun r => r.objGuid = guid).bind (rowOriginal db)

def restoredAll (db : Db) (rows : List Slot) : Db :=
  { db with
    splits := db.splits.map fun s => restore (restoredFrom db rows s.guid) s
    slots := withoutStashes (rows.map Slot.objGuid) db.slots }

@[simp] theorem completes_toBigInt {text : String} {n : ℤ} :
    Completes (toBigInt text) db n db' ↔ Text.bigInt text.toList = some n ∧ db' = db := by
  unfold toBigInt
  cases h : Text.bigInt text.toList with
  | none => simp
  | some m => simp [eq_comm]

theorem completes_restoreSplit {guid : String} {texts : String × String × String × String} :
    Completes (restoreSplit guid texts) db u db' ↔
      ∃ o, originalOf texts = some o ∧ (db.split? guid).isSome ∧
        db' = { db with
          splits := editAt Split.guid guid
            (fun s => { s with quantity := o.1, value := o.2, lotGuid := none }) db.splits } := by
  simp only [restoreSplit, completes_bind, completes_toBigInt, completes_updateSplit, originalOf,
    Option.bind_eq_bind, Option.bind_eq_some_iff]
  constructor
  · rintro ⟨a, _, ⟨ha, rfl⟩, b, _, ⟨hb, rfl⟩, d, _, ⟨hd, rfl⟩, e, _, ⟨he, rfl⟩, hs, rfl⟩
    exact ⟨_, ⟨a, ha, b, hb, d, hd, e, he, rfl⟩, hs, rfl⟩
  · rintro ⟨o, ⟨a, ha, b, hb, d, hd, e, he, ho⟩, hs, rfl⟩
    cases ho
    exact ⟨a, db, ⟨ha, rfl⟩, b, db, ⟨hb, rfl⟩, d, db, ⟨hd, rfl⟩, e, db, ⟨he, rfl⟩, hs, rfl⟩

theorem completes_restoreOriginal {row : Slot} :
    Completes (restoreOriginal row) db u db' ↔ Restorable db row ∧ db' = restoredAt db row := by
  have hslots (slots : List Slot) : slots.filter (fun r =>
      !decide (r.objGuid = row.objGuid ∧ r.name ∈ stashSlotNames)) =
      withoutStashes [row.objGuid] slots := by
    simp [withoutStashes]
  rw [restoreOriginal, completes_get_bind, completes_bind]
  cases ht : stashTexts db row with
  | none =>
    have hid : db.splits.map (fun s => if s.guid = row.objGuid then restore none s else s) =
        db.splits := by
      simp [restore]
    simp only [Restorable, restoredAt, rowOriginal, ht, Option.bind_none, hid]
    constructor
    · rintro ⟨_, _, h₁, h₂⟩
      obtain ⟨-, rfl⟩ := completes_pure.1 h₁
      obtain rfl := completes_deleteSlots.1 h₂
      exact ⟨by simp, by rw [hslots]⟩
    · rintro ⟨-, rfl⟩
      exact ⟨⟨⟩, db, completes_pure.2 ⟨rfl, rfl⟩, completes_deleteSlots.2 (by rw [hslots])⟩
  | some texts =>
    simp only [Restorable, restoredAt, rowOriginal, ht, Option.bind_some]
    constructor
    · rintro ⟨_, db₁, h₁, h₂⟩
      obtain ⟨o, ho, hs, rfl⟩ := completes_restoreSplit.1 h₁
      obtain rfl := completes_deleteSlots.1 h₂
      refine ⟨?_, ?_⟩
      · intro t hmem
        cases hmem
        exact ⟨by rw [ho]; rfl, hs⟩
      · rw [hslots, ho]
        rfl
    · rintro ⟨hres, rfl⟩
      obtain ⟨hsome, hs⟩ := hres texts rfl
      obtain ⟨o, ho⟩ := Option.isSome_iff_exists.1 hsome
      refine ⟨⟨⟩, _, completes_restoreSplit.2 ⟨o, ho, hs, rfl⟩, ?_⟩
      rw [completes_deleteSlots, hslots, ho]
      rfl

/-! ## Restoring a list of rows -/

theorem slotText_of_slots {guid name : String}
    (h : db'.slots.find? (fun r => r.objGuid = guid ∧ r.name = name) =
      db.slots.find? fun r => r.objGuid = guid ∧ r.name = name) :
    db'.slotText guid name = db.slotText guid name := by
  rw [Db.slotText, Db.slotText, Db.slotString, Db.slotString, Db.slot?, Db.slot?, h]

theorem find?_withoutStashes {guids : List String} {slots : List Slot} {guid name : String}
    (h : guid ∉ guids) :
    (withoutStashes guids slots).find? (fun r => r.objGuid = guid ∧ r.name = name) =
      slots.find? fun r => r.objGuid = guid ∧ r.name = name := by
  rw [withoutStashes, List.find?_filter]
  refine congrFun (congrArg _ (funext fun r => ?_)) _
  by_cases hr : r.objGuid = guid
  · simp [hr, h]
  · simp [hr]

theorem stashTexts_restoredAt_of_ne {row row' : Slot} (h : row'.objGuid ≠ row.objGuid) :
    stashTexts (restoredAt db row) row' = stashTexts db row' := by
  have htext (name : String) :
      (restoredAt db row).slotText row'.objGuid name = db.slotText row'.objGuid name :=
    slotText_of_slots (find?_withoutStashes (by simpa using h))
  simp only [stashTexts, htext]

theorem stashTexts_restoredAt_self {row row' : Slot} (h : row'.objGuid = row.objGuid) :
    stashTexts (restoredAt db row) row' = none := by
  have hnone : (restoredAt db row).slotText row'.objGuid originalQuantityDenom = none := by
    have hfind : (restoredAt db row).slots.find? (fun r =>
        r.objGuid = row'.objGuid ∧ r.name = originalQuantityDenom) = none := by
      refine List.find?_eq_none.2 fun r hr hp => ?_
      obtain ⟨hg, hn⟩ := of_decide_eq_true hp
      refine of_decide_eq_true (List.mem_filter.1 hr).2 ⟨?_, ?_⟩
      · simp [hg, h]
      · rw [hn]
        decide
    simp only [Db.slotText, Db.slotString, Db.slot?, hfind]
    rfl
  simp only [stashTexts, hnone]
  cases row'.stringVal.filter fun text => text ≠ "" <;> rfl

theorem restoredFrom_restoredAt (row : Slot) (rows : List Slot) (guid : String) :
    restoredFrom (restoredAt db row) rows guid =
      if guid = row.objGuid then none else restoredFrom db rows guid := by
  rw [restoredFrom, restoredFrom]
  cases hf : rows.find? fun r => r.objGuid = guid with
  | none => simp
  | some row' =>
    have hg : row'.objGuid = guid := by simpa using List.find?_some hf
    simp only [Option.bind_some, rowOriginal]
    by_cases h : guid = row.objGuid
    · rw [if_pos h, stashTexts_restoredAt_self (hg.trans h)]
      rfl
    · rw [if_neg h, stashTexts_restoredAt_of_ne (hg ▸ h)]

theorem restoredFrom_cons (row : Slot) (rows : List Slot) (guid : String) :
    restoredFrom db (row :: rows) guid =
      if guid = row.objGuid then rowOriginal db row else restoredFrom db rows guid := by
  by_cases h : guid = row.objGuid
  · simp [restoredFrom, h]
  · have h' : ¬row.objGuid = guid := fun he => h he.symm
    simp [restoredFrom, h, h']

theorem restoredAll_cons (row : Slot) (rows : List Slot) :
    restoredAll (restoredAt db row) rows = restoredAll db (row :: rows) := by
  have hsplits : (restoredAt db row).splits.map
      (fun s => restore (restoredFrom (restoredAt db row) rows s.guid) s) =
      db.splits.map fun s => restore (restoredFrom db (row :: rows) s.guid) s := by
    rw [restoredAt, List.map_map]
    refine List.map_congr_left fun s _ => ?_
    change restore (restoredFrom (restoredAt db row) rows _) _ = _
    rw [restoredFrom_cons]
    by_cases hg : s.guid = row.objGuid
    · simp only [if_pos hg, restore_guid, restoredFrom_restoredAt]
      rfl
    · simp only [if_neg hg, restoredFrom_restoredAt]
  have hslots : withoutStashes (rows.map Slot.objGuid) (restoredAt db row).slots =
      withoutStashes ((row :: rows).map Slot.objGuid) db.slots := by
    rw [restoredAt, withoutStashes, withoutStashes, withoutStashes, List.filter_filter]
    refine List.filter_congr fun r _ => ?_
    by_cases h₁ : r.objGuid = row.objGuid <;> by_cases h₂ : r.name ∈ stashSlotNames <;>
      simp [h₁, h₂]
  rw [restoredAll, restoredAll, hsplits, hslots]
  rfl

theorem restoredAll_nil : restoredAll db [] = db := by
  have hsplits : db.splits.map (fun s => restore (restoredFrom db [] s.guid) s) = db.splits := by
    simp [restoredFrom, restore]
  have hslots : withoutStashes [] db.slots = db.slots := by
    simp [withoutStashes]
  rw [restoredAll, hsplits, List.map_nil, hslots]

theorem completes_forM_restoreOriginal {rows : List Slot}
    (h : Completes (rows.forM restoreOriginal) db u db') : db' = restoredAll db rows := by
  induction rows generalizing db with
  | nil =>
    obtain ⟨-, rfl⟩ := completes_pure.1 h
    exact restoredAll_nil.symm
  | cons row rows ih =>
    obtain ⟨_, db₁, h₁, h₂⟩ := completes_bind.1 h
    obtain ⟨-, rfl⟩ := completes_restoreOriginal.1 h₁
    rw [ih h₂, restoredAll_cons]

theorem restoredFrom_eq_original {rows : List Slot} {guid : String}
    (h : rows.find? (fun r => r.objGuid = guid) =
      db.slots.find? fun r => r.objGuid = guid ∧ r.name = originalQuantityNum) :
    restoredFrom db rows guid = (marked db).original guid := by
  have htext (name : String) (hn : name ∈ markNames) :
      (marked db).text guid name = db.slotText guid name := by
    have hfind : (marked db).marks.find? (fun r => r.objGuid = guid ∧ r.name = name) =
        db.slots.find? fun r => r.objGuid = guid ∧ r.name = name := by
      rw [marked, List.find?_filter]
      refine congrFun (congrArg _ (funext fun r => ?_)) _
      by_cases hr : r.name = name
      · simp [hr, hn]
      · simp [hr]
    rw [Marked.text, hfind, Db.slotText, Db.slotString, Db.slot?]
  have hnum := htext originalQuantityNum (by decide)
  rw [Db.slotText, Db.slotString, Db.slot?] at hnum
  rw [restoredFrom, h, Marked.original]
  simp only [Marked.int, hnum, htext originalQuantityDenom (by decide),
    htext originalValueNum (by decide), htext originalValueDenom (by decide)]
  cases hf : db.slots.find? fun r => r.objGuid = guid ∧ r.name = originalQuantityNum with
  | none => rfl
  | some row =>
    have hp := List.find?_some hf
    have hg : row.objGuid = guid := (of_decide_eq_true hp).1
    simp only [Option.bind_some, rowOriginal, stashTexts, hg]
    cases row.stringVal.filter fun text => text ≠ "" <;>
      cases db.slotText guid originalQuantityDenom <;>
      cases db.slotText guid originalValueNum <;>
      cases db.slotText guid originalValueDenom <;> simp [originalOf]

end Lots
