import GnucashWeb.Lib.SortedUnion
import GnucashWeb.Lots.Revert

/-!
# The basis rows of one lot

A lot's history rows and average-cost slots are all that its pooled basis is read from.  What a write
to another lot and the rest of an undo leave of them (`SameBasis`), and that no undo creates a lot.
-/

open Ledger Transact KeyOrder

namespace Lots

/-! ## The rows of a lot -/

def historyOf (db : Db) (lotGuid : String) : List HistoryRow :=
  db.history.filter fun h => h.lotGuid = lotGuid

def avgSlotsOf (db : Db) (lotGuid : String) : List Slot :=
  db.slots.filter fun r => r.objGuid = lotGuid ∧ r.name ∈ avgLotSlotNames

/-- The history rows of a lot have distinct sequence numbers, as its primary key says. -/
def HasKeys (db : Db) (lotGuid : String) : Prop :=
  ((historyOf db lotGuid).map HistoryRow.seqNo).Nodup

/-- The tables hold the same history rows and average-cost slots of a lot. -/
def SameBasis (lotGuid : String) (db db' : Db) : Prop :=
  historyOf db' lotGuid = historyOf db lotGuid ∧ avgSlotsOf db' lotGuid = avgSlotsOf db lotGuid

instance (lotGuid : String) : IsPreorder Db (SameBasis lotGuid) where
  refl _ := ⟨rfl, rfl⟩
  trans _ _ _ h h' := ⟨h'.1.trans h.1, h'.2.trans h.2⟩

variable {db db' : Db} {l : String}

variable {name : String} {R : Db → Db → Prop}

theorem slotString_eq (h : name ∈ avgLotSlotNames) :
    db.slotString l name =
      ((avgSlotsOf db l).find? fun r => r.name = name).bind Slot.stringVal := by
  rw [Db.slotString, Db.slot?, avgSlotsOf, List.find?_filter]
  congr 2
  funext r
  by_cases hr : r.name = name
  · simp [hr, h]
  · simp [hr]

theorem SameBasis.slotString_eq (h : SameBasis l db db')
    (hname : name ∈ avgLotSlotNames) : db'.slotString l name = db.slotString l name := by
  rw [Lots.slotString_eq hname, Lots.slotString_eq hname, h.2]

theorem SameBasis.hasKeys (h : SameBasis l db db') (hkeys : HasKeys db l) : HasKeys db' l := by
  rw [HasKeys, h.1]
  exact hkeys

/-! ## What leaves the rows alone -/

theorem sameBasis_createSlot {objGuid value : String} (h : objGuid ≠ l ∨ name ∉ avgLotSlotNames) :
    Preserves (SameBasis l) (createSlot objGuid name value) := by
  refine preserves_modify fun db => ⟨rfl, ?_⟩
  have hnot : ¬(objGuid = l ∧ name ∈ avgLotSlotNames) := fun ⟨ho, hn⟩ => h.elim (· ho) (· hn)
  simp only [avgSlotsOf, List.filter_append, List.filter_cons, List.filter_nil]
  simp [hnot]

theorem sameBasis_deleteSlots {p : Slot → Bool}
    (h : ∀ r, p r → ¬(r.objGuid = l ∧ r.name ∈ avgLotSlotNames)) :
    Preserves (SameBasis l) (deleteSlots p) := by
  refine preserves_modify fun db => ⟨rfl, ?_⟩
  rw [avgSlotsOf, avgSlotsOf, List.filter_filter]
  refine List.filter_congr fun r _ => ?_
  by_cases hr : r.objGuid = l ∧ r.name ∈ avgLotSlotNames
  · have hp : p r = false := Bool.eq_false_iff.2 fun hp => h r hp hr
    simp [hr, hp]
  · simp [hr]

theorem sameBasis_deleteSlots_of_ne {p : Slot → Bool} (h : ∀ r, p r → r.objGuid ≠ l) :
    Preserves (SameBasis l) (deleteSlots p) :=
  sameBasis_deleteSlots fun r hr hl => h r hr hl.1

theorem sameBasis_updateSplits {p : Split → Bool} {f : Split → Split} :
    Preserves (SameBasis l) (updateSplits p f) :=
  preserves_modify fun _ => ⟨rfl, rfl⟩

theorem sameBasis_deleteAvgBasisHistoryForLots {lotGuids : List String} (h : l ∉ lotGuids) :
    Preserves (SameBasis l) (deleteAvgBasisHistoryForLots lotGuids) := by
  refine preserves_modify fun db => ⟨?_, rfl⟩
  rw [historyOf, historyOf, List.filter_filter]
  refine List.filter_congr fun r _ => ?_
  by_cases hr : r.lotGuid = l
  · simp [hr, h]
  · simp [hr]

theorem sameBasis_replaceAvgBasisHistory {m : String} (h : m ≠ l) (stack : List AvgBasisWrite) :
    Preserves (SameBasis l) (replaceAvgBasisHistory m stack) := by
  refine (sameBasis_deleteAvgBasisHistoryForLots (by simpa using h.symm)).bind fun _ => ?_
  refine preserves_modify fun db => ⟨?_, rfl⟩
  refine (List.filter_append _ _).trans ?_
  refine Eq.trans (congrArg (historyOf db l ++ ·) (List.filter_eq_nil_iff.2 ?_)) (List.append_nil _)
  intro r hr
  obtain ⟨⟨w, i⟩, -, rfl⟩ := List.mem_map.1 hr
  simpa using h

theorem sameBasis_appendAvgBasisHistory {m : String} (h : m ≠ l) (entry : AvgBasisWrite) :
    Preserves (SameBasis l) (appendAvgBasisHistory m entry) := by
  refine preserves_modify fun db => ⟨?_, rfl⟩
  simp [historyOf, List.filter_append, h]

theorem sameBasis_popAvgBasisHistoryTopForRun {m : String} (h : m ≠ l) (runId : String) :
    Preserves (SameBasis l) (popAvgBasisHistoryTopForRun m runId) := by
  refine preserves_modify fun db => ⟨?_, rfl⟩
  rw [historyOf, historyOf, List.filter_filter]
  refine List.filter_congr fun r _ => ?_
  by_cases hr : r.lotGuid = l
  · have hm : ¬l = m := fun hm => h hm.symm
    simp [hr, hm]
  · simp [hr]

theorem sameBasis_deleteAvgSlots {m : String} (h : m ≠ l) (names : List String) :
    Preserves (SameBasis l) (deleteSlots fun r => r.objGuid = m ∧ r.name ∈ names) := by
  refine sameBasis_deleteSlots_of_ne fun r hr => ?_
  rw [(of_decide_eq_true hr).1]
  exact h

theorem sameBasis_materializeAvgBasisTop {m : String} (h : m ≠ l) (top : AvgBasisWrite) :
    Preserves (SameBasis l) (materializeAvgBasisTop m top) :=
  (sameBasis_createSlot (Or.inl h)).bind fun _ =>
    preserves_option_forM fun _ _ => sameBasis_createSlot (Or.inl h)

section OtherLot

variable (host : Host) {m : String}

theorem sameBasis_readAvgBasisWrites (h : m ≠ l) :
    Preserves (SameBasis l) (readAvgBasisWrites host m) := by
  refine preserves_get.bind fun db => ?_
  refine preserves_ite (preserves_pure _) ?_
  refine preserves_get.bind fun db => ?_
  refine (preserves_onlyIf fun _ => sameBasis_replaceAvgBasisHistory h _).bind fun _ => ?_
  exact (preserves_onlyIf fun _ => sameBasis_deleteAvgSlots h _).bind fun _ => preserves_pure _

theorem sameBasis_writeAvgBasisWrites (h : m ≠ l) (stack : List AvgBasisWrite) :
    Preserves (SameBasis l) (writeAvgBasisWrites host m stack) := by
  have hreplace : Preserves (SameBasis l) (do
      replaceAvgBasisHistory m stack
      deleteSlots fun r => r.objGuid = m ∧ r.name ∈ avgLotSlotNames) :=
    (sameBasis_replaceAvgBasisHistory h _).bind fun _ => sameBasis_deleteAvgSlots h _
  unfold writeAvgBasisWrites
  cases stack.getLast? with
  | none => exact hreplace
  | some top =>
    exact preserves_ite (preserves_throw _)
      (hreplace.bind fun _ => sameBasis_materializeAvgBasisTop h _)

theorem sameBasis_writeAvgBasisRemaining (h : m ≠ l) (basis : ℚ) (runId : String) :
    Preserves (SameBasis l) (writeAvgBasisRemaining host m basis runId) := by
  refine (sameBasis_readAvgBasisWrites host h).bind fun _ => ?_
  refine (sameBasis_popAvgBasisHistoryTopForRun h _).bind fun _ => ?_
  refine (sameBasis_appendAvgBasisHistory h _).bind fun _ => ?_
  refine (sameBasis_deleteAvgSlots h _).bind fun _ => ?_
  exact sameBasis_materializeAvgBasisTop h _

end OtherLot

/-! ## The rest of an undo -/

theorem stashSlotNames_disjoint (h : name ∈ stashSlotNames) :
    name ∉ avgLotSlotNames := by
  simp only [stashSlotNames, List.mem_cons, List.not_mem_nil, or_false] at h
  rcases h with rfl | rfl | rfl | rfl | rfl <;> decide

theorem avgSplitSlotNames_disjoint (h : name ∈ avgSplitSlotNames) :
    name ∉ avgLotSlotNames := by
  simp only [avgSplitSlotNames, List.mem_cons, List.not_mem_nil, or_false] at h
  rcases h with rfl | rfl <;> decide

theorem preserves_toBigInt [IsPreorder Db R] (text : String) :
    Preserves R (toBigInt text) := by
  unfold toBigInt
  split
  · exact preserves_pure _
  · exact preserves_throw _

theorem preserves_updateSplit [IsPreorder Db R] {guid : String}
    {f : Split → Split} (h : Preserves R (updateSplits (fun s => s.guid = guid) f)) :
    Preserves R (updateSplit guid f) :=
  preserves_get.bind fun _ => preserves_ite h (preserves_throw _)

theorem preserves_restoreSplit [IsPreorder Db R] (h : ∀ p q v, Preserves R (updateSplits p fun s =>
      { s with quantity := q, value := v, lotGuid := none })) (guid : String)
    (texts : String × String × String × String) : Preserves R (restoreSplit guid texts) := by
  unfold restoreSplit
  refine (preserves_toBigInt _).bind fun _ => (preserves_toBigInt _).bind fun _ => ?_
  refine (preserves_toBigInt _).bind fun _ => (preserves_toBigInt _).bind fun _ => ?_
  exact preserves_updateSplit (h _ _ _)

theorem sameBasis_restoreOriginal (row : Slot) : Preserves (SameBasis l) (restoreOriginal row) := by
  refine preserves_get.bind fun db => ?_
  refine (preserves_option_forM fun _ _ => ?_).bind fun _ => ?_
  · exact preserves_restoreSplit (fun _ _ _ => sameBasis_updateSplits) _ _
  · exact sameBasis_deleteSlots fun r hr hl =>
      stashSlotNames_disjoint (of_decide_eq_true hr).2 hl.2

theorem sameBasis_deleteSplitRows {guids : List String} (h : l ∉ guids) :
    Preserves (SameBasis l) (deleteSplitRows guids) := by
  refine (sameBasis_deleteSlots_of_ne fun r hr hl => ?_).bind fun _ =>
    preserves_modify fun _ => ⟨rfl, rfl⟩
  rw [hl] at hr
  exact h (of_decide_eq_true hr)

theorem sameBasis_deleteTaggedLots {lotGuids : List String} (h : l ∉ lotGuids) :
    Preserves (SameBasis l) (deleteTaggedLots lotGuids) := by
  refine sameBasis_updateSplits.bind fun _ => ?_
  refine (sameBasis_deleteSlots_of_ne fun r hr hl => ?_).bind fun _ => ?_
  · rw [hl] at hr
    exact h (of_decide_eq_true hr)
  · exact (sameBasis_deleteAvgBasisHistoryForLots h).bind fun _ =>
      preserves_modify fun _ => ⟨rfl, rfl⟩

/-- Deleting whole transactions leaves the rows of a lot whose guid is no row's of theirs. -/
theorem sameBasis_deleteWholeTransactions {txGuids : List String} {u : Unit}
    (hs : l ∉ db.splits.map Split.guid) (ht : l ∉ txGuids)
    (h : Completes (deleteWholeTransactions txGuids) db u db') : SameBasis l db db' := by
  rw [deleteWholeTransactions, completes_get_bind] at h
  refine Preserves.bind (sameBasis_deleteSlots_of_ne ?_) (fun _ => ?_) _ _ _ h
  · intro r hr hl
    rw [hl] at hr
    obtain ⟨s, hs', rfl⟩ := List.mem_map.1 (of_decide_eq_true hr)
    exact hs (List.mem_map_of_mem (List.mem_of_mem_filter hs'))
  · refine Preserves.bind (preserves_modify fun _ => ⟨rfl, rfl⟩) fun _ => ?_
    refine (sameBasis_deleteSlots_of_ne fun r hr hl => ?_).bind fun _ =>
      preserves_modify fun _ => ⟨rfl, rfl⟩
    rw [hl] at hr
    exact ht (of_decide_eq_true hr)

theorem sameBasis_detachPriced (splitGuids lotGuids : List String) :
    Preserves (SameBasis l) (detachPriced splitGuids lotGuids) := by
  refine sameBasis_updateSplits.bind fun _ => preserves_get.bind fun db => ?_
  refine preserves_forM fun lot _ => preserves_get.bind fun db => preserves_onlyIf fun _ => ?_
  exact preserves_get.bind fun db =>
    preserves_ite (preserves_modify fun _ => ⟨rfl, rfl⟩) (preserves_throw _)

end Lots
