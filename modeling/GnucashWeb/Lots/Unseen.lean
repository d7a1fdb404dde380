import GnucashWeb.Lots.Moves

/-!
# What an undo does not see

`Unseen` relates tables with the same view.  Every write of the average-cost history, of the pooled
basis of a lot and of a carried basis is unseen.
-/

open Ledger Transact Rows

namespace Lots

def Unseen (db db' : Db) : Prop := marked db' = marked db

instance : IsPreorder Db Unseen where
  refl _ := rfl
  trans _ _ _ h h' := Eq.trans h' h

def seenNames : List String := avgCostBasisRunSlot :: markNames

theorem preserves_createSlot {objGuid name value : String} (h : name ∉ seenNames) :
    Preserves Unseen (createSlot objGuid name value) := by
  have hm : name ∉ markNames := fun hm => h (List.mem_cons_of_mem _ hm)
  have hp : name ≠ avgCostBasisRunSlot := fun hp => h (by simp [seenNames, hp])
  refine preserves_modify fun db => ?_
  simp [Unseen, marked, List.filter_append, hm, hp]

theorem preserves_deleteSlots {p : Slot → Bool} (h : ∀ r, p r → r.name ∉ seenNames) :
    Preserves Unseen (deleteSlots p) := by
  refine preserves_modify fun db => ?_
  have hkeep (q : Slot → Bool) (hq : ∀ r, q r → r.name ∈ seenNames) :
      (db.slots.filter fun r => !p r).filter q = db.slots.filter q := by
    rw [List.filter_filter]
    refine List.filter_congr fun r _ => ?_
    by_cases hr : q r
    · have hpr : p r = false := Bool.eq_false_iff.2 fun hpr => h r hpr (hq r hr)
      simp [hr, hpr]
    · simp [hr]
  have hm := hkeep (fun r => r.name ∈ markNames) fun r hr =>
    List.mem_cons_of_mem _ (of_decide_eq_true hr)
  have hp := hkeep (fun r => r.name = avgCostBasisRunSlot) fun r hr => by
    simp [seenNames, of_decide_eq_true hr]
  simp only [Unseen, marked, hm, hp]

/-! ## The write history -/

variable (host : Host)

theorem preserves_deleteAvgBasisHistoryForLots (lotGuids : List String) :
    Preserves Unseen (deleteAvgBasisHistoryForLots lotGuids) :=
  preserves_modify fun _ => rfl

theorem preserves_replaceAvgBasisHistory (lotGuid : String) (stack : List AvgBasisWrite) :
    Preserves Unseen (replaceAvgBasisHistory lotGuid stack) :=
  (preserves_deleteAvgBasisHistoryForLots _).bind fun _ => preserves_modify fun _ => rfl

theorem avgLotSlotNames_unseen {name : String} (h : name ∈ avgLotSlotNames) :
    name ∉ seenNames := by
  simp only [avgLotSlotNames, List.mem_cons, List.not_mem_nil, or_false] at h
  rcases h with rfl | rfl | rfl | rfl <;> decide

theorem preserves_deleteAvgLotSlots (lotGuid : String) (names : List String)
    (h : ∀ name ∈ names, name ∈ avgLotSlotNames) :
    Preserves Unseen (deleteSlots fun r => r.objGuid = lotGuid ∧ r.name ∈ names) :=
  preserves_deleteSlots fun _ hr => avgLotSlotNames_unseen (h _ (of_decide_eq_true hr).2)

theorem preserves_adoptLegacyAvgBasisHistory (lotGuid : String) :
    Preserves Unseen (adoptLegacyAvgBasisHistory host lotGuid) := by
  unfold adoptLegacyAvgBasisHistory
  refine preserves_get.bind fun db => ?_
  refine (preserves_onlyIf fun _ => preserves_replaceAvgBasisHistory _ _).bind fun _ => ?_
  refine (preserves_onlyIf fun _ => ?_).bind fun _ => preserves_pure _
  exact preserves_deleteAvgLotSlots lotGuid _ (by simp [avgLotSlotNames])

theorem preserves_readAvgBasisWrites (lotGuid : String) :
    Preserves Unseen (readAvgBasisWrites host lotGuid) := by
  unfold readAvgBasisWrites
  exact preserves_get.bind fun db =>
    preserves_ite (preserves_pure _) (preserves_adoptLegacyAvgBasisHistory host lotGuid)

theorem preserves_materializeAvgBasisTop (lotGuid : String) (top : AvgBasisWrite) :
    Preserves Unseen (materializeAvgBasisTop lotGuid top) := by
  unfold materializeAvgBasisTop
  refine (preserves_createSlot (by decide)).bind fun _ => ?_
  exact preserves_option_forM fun _ _ => preserves_createSlot (by decide)

theorem preserves_writeAvgBasisWrites (lotGuid : String) (stack : List AvgBasisWrite) :
    Preserves Unseen (writeAvgBasisWrites host lotGuid stack) := by
  have hreplace : Preserves Unseen (do
      replaceAvgBasisHistory lotGuid stack
      deleteSlots fun r => r.objGuid = lotGuid ∧ r.name ∈ avgLotSlotNames) :=
    (preserves_replaceAvgBasisHistory _ _).bind fun _ =>
      preserves_deleteAvgLotSlots lotGuid _ fun _ h => h
  unfold writeAvgBasisWrites
  cases stack.getLast? with
  | none => exact hreplace
  | some top =>
    exact preserves_ite (preserves_throw _)
      (hreplace.bind fun _ => preserves_materializeAvgBasisTop _ _)

theorem preserves_writeAvgBasisRemaining (lotGuid : String) (basis : ℚ) (runId : String) :
    Preserves Unseen (writeAvgBasisRemaining host lotGuid basis runId) := by
  unfold writeAvgBasisRemaining
  refine (preserves_readAvgBasisWrites host lotGuid).bind fun _ => ?_
  refine Preserves.bind (preserves_modify fun _ => rfl) fun _ => ?_
  refine Preserves.bind (preserves_modify fun _ => rfl) fun _ => ?_
  refine (preserves_deleteAvgLotSlots lotGuid _ fun _ h => h).bind fun _ => ?_
  exact preserves_materializeAvgBasisTop _ _

theorem preserves_readLiveAvgBasisRemaining (lotGuid : String) :
    Preserves Unseen (readLiveAvgBasisRemaining host lotGuid) := by
  unfold readLiveAvgBasisRemaining
  refine preserves_get.bind fun db => ?_
  dsimp only
  split
  · exact preserves_pure _
  · refine (preserves_readAvgBasisWrites host lotGuid).bind fun stack => ?_
    split
    · exact preserves_pure _
    · refine preserves_ite (preserves_throw _) ?_
      split <;> exact preserves_throw _

theorem preserves_openingBasis (lots : List OpenLot) : Preserves Unseen (openingBasis host lots) := by
  induction lots with
  | nil => exact preserves_pure _
  | cons lot lots ih =>
    refine Preserves.bind ?_ fun _ => ih.bind fun _ => preserves_pure _
    exact (preserves_readLiveAvgBasisRemaining host lot.guid).bind fun _ =>
      preserves_get.bind fun _ => preserves_pure _

/-! ## Carried basis -/

theorem preserves_writeCarriedBasisSlot (lotGuid : String) (carriedBasis : Option ℚ) :
    Preserves Unseen (writeCarriedBasisSlot host lotGuid carriedBasis) := by
  unfold writeCarriedBasisSlot
  refine Preserves.bind (preserves_deleteSlots fun r hr => ?_) fun _ => ?_
  · rw [(of_decide_eq_true hr).2]
    decide
  · exact preserves_option_forM fun _ _ => preserves_createSlot (by decide)

section Walk

variable {R : Db → Db → Prop} [IsPreorder Db R]
  (hwrite : ∀ lotGuid basis, Preserves R (writeCarriedBasisSlot host lotGuid basis))

include hwrite

/-- What the writes of carried basis keep, one outflow keeps, and so does the whole walk. -/
theorem preserves_reconcileOutflow (level : TransferLevel) (sourceLotGuid : String)
    (source : SourceLotBasis) (avgBasisByOutflow : String → Option ℚ) (walk : OutflowWalk)
    (outflow : LotOutflow) :
    Preserves R
      (reconcileOutflow host level sourceLotGuid source avgBasisByOutflow walk outflow) := by
  unfold reconcileOutflow
  dsimp only
  split
  · exact preserves_pure _
  · refine preserves_ite (preserves_pure _) (preserves_get.bind fun db => ?_)
    exact (hwrite _ _).bind fun _ => preserves_pure _

theorem preserves_reconcileSource (level : TransferLevel) (walk : OutflowWalk)
    (sourceLotGuid : String) :
    Preserves R (reconcileSource host level walk sourceLotGuid) := by
  unfold reconcileSource
  refine preserves_get.bind fun db => preserves_ite ?_ (preserves_pure _)
  split
  · exact preserves_pure _
  · exact preserves_foldlM
      (fun _ _ _ => preserves_reconcileOutflow host hwrite _ _ _ _ _ _) _

theorem preserves_reconcileFrom (fuel : ℕ) (visited frontier : List String) :
    Preserves R (reconcileFrom host fuel visited frontier) := by
  induction fuel generalizing visited frontier with
  | zero => exact preserves_pure _
  | succ fuel ih =>
    unfold reconcileFrom
    refine preserves_ite (preserves_pure _) ?_
    refine Preserves.bind ?_ fun level => (ih _ _).bind fun _ => preserves_pure _
    exact preserves_get.bind fun db =>
      (preserves_foldlM (fun _ _ _ => preserves_reconcileSource host hwrite _ _ _) _).bind
        fun _ => preserves_pure _

theorem preserves_reconcile (sourceLotGuids : List String) :
    Preserves R (reconcileCarriedBasisForSourceLots host sourceLotGuids) :=
  preserves_get.bind fun _ => preserves_reconcileFrom host hwrite _ _ _

end Walk

theorem preserves_reconcileCarriedBasisForSourceLots (sourceLotGuids : List String) :
    Preserves Unseen (reconcileCarriedBasisForSourceLots host sourceLotGuids) :=
  preserves_reconcile host (preserves_writeCarriedBasisSlot host) sourceLotGuids

theorem preserves_linkSource (lotGuid : String) (shares : ℚ) (sourceSplit : Split)
    (sourceLotGuid : String) :
    Preserves Unseen (linkSource host lotGuid shares sourceSplit sourceLotGuid) := by
  unfold linkSource carryAcquisitionDate
  refine (preserves_createSlot (by decide)).bind fun _ => ?_
  refine (preserves_createSlot (by decide)).bind fun _ => ?_
  refine Preserves.bind (preserves_onlyIf fun _ => preserves_get.bind fun _ =>
    preserves_writeCarriedBasisSlot host _ _) fun _ => ?_
  exact preserves_get.bind fun _ =>
    preserves_option_forM fun _ _ => preserves_createSlot (by decide)

end Lots
