import GnucashWeb.Lots.BasisHistory
import GnucashWeb.Lots.Clearing

/-!
# Writing and reverting runs in any order

`live_eq_newest`: after any writes of a lot's pooled basis by any runs and any reverts, the live slot
holds the value of the newest write whose run has not been reverted since, and its run beside it.
-/

open Ledger Transact WriteLog

namespace Lots

/-! ## An undo creates no rows -/

/-- The splits, transactions and lots of the later tables are among those of the earlier. -/
structure Fewer (db db' : Db) : Prop where
  splits : db'.splits.map Split.guid ⊆ db.splits.map Split.guid
  transactions : db'.transactions.map Transaction.guid ⊆ db.transactions.map Transaction.guid
  lots : db'.lots.map Lot.guid ⊆ db.lots.map Lot.guid

instance : IsPreorder Db Fewer where
  refl _ := ⟨fun _ h => h, fun _ h => h, fun _ h => h⟩
  trans _ _ _ h h' := ⟨fun _ hx => h.splits (h'.splits hx),
    fun _ hx => h.transactions (h'.transactions hx), fun _ hx => h.lots (h'.lots hx)⟩

variable {host : Host} {db db' : Db} {l : String}

theorem lot?_isSome_iff : (db.lot? l).isSome ↔ l ∈ db.lots.map Lot.guid := by
  rw [Db.lot?, List.find?_isSome, List.mem_map]
  simp

theorem Fewer.lot? (h : Fewer db db') (hlot : (db'.lot? l).isSome) : (db.lot? l).isSome :=
  lot?_isSome_iff.2 (h.lots (lot?_isSome_iff.1 hlot))

theorem Unseen.fewer (h : Unseen db db') : Fewer db db' := by
  have hsplits : db'.splits = db.splits := congrArg Marked.splits h
  have htransactions : db'.transactions = db.transactions := congrArg Marked.transactions h
  have hlots : db'.lots = db.lots := congrArg Marked.lots h
  constructor
  · rw [hsplits]
    exact fun _ hx => hx
  · rw [htransactions]
    exact fun _ hx => hx
  · rw [hlots]
    exact fun _ hx => hx

theorem fewer_deleteSlots (p : Slot → Bool) : Preserves Fewer (deleteSlots p) :=
  preserves_modify fun _ => ⟨fun _ h => h, fun _ h => h, fun _ h => h⟩

theorem fewer_updateSplits {p : Split → Bool} {f : Split → Split} (hf : ∀ s, (f s).guid = s.guid) :
    Preserves Fewer (updateSplits p f) := by
  refine preserves_modify fun db => ⟨?_, fun _ h => h, fun _ h => h⟩
  rw [List.map_map, List.map_congr_left]
  · exact fun _ h => h
  · intro s _
    by_cases hp : p s <;> simp [hp, hf]

theorem fewer_updateLots {p : Lot → Bool} {f : Lot → Lot} (hf : ∀ x, (f x).guid = x.guid) :
    Preserves Fewer (updateLots p f) := by
  refine preserves_modify fun db => ⟨fun _ h => h, fun _ h => h, ?_⟩
  rw [List.map_map, List.map_congr_left]
  · exact fun _ h => h
  · intro x _
    by_cases hp : p x <;> simp [hp, hf]

theorem fewer_deleteSplits (p : Split → Bool) : Preserves Fewer (deleteSplits p) :=
  preserves_modify fun _ => ⟨List.map_subset _ (List.filter_subset_self _), fun _ h => h, fun _ h => h⟩

theorem fewer_deleteTransactions (p : Transaction → Bool) :
    Preserves Fewer (deleteTransactions p) :=
  preserves_modify fun _ => ⟨fun _ h => h, List.map_subset _ (List.filter_subset_self _), fun _ h => h⟩

theorem fewer_deleteLots (p : Lot → Bool) : Preserves Fewer (deleteLots p) :=
  preserves_modify fun _ => ⟨fun _ h => h, fun _ h => h, List.map_subset _ (List.filter_subset_self _)⟩

theorem fewer_deleteWholeTransactions (txGuids : List String) :
    Preserves Fewer (deleteWholeTransactions txGuids) := by
  refine preserves_get.bind fun db => (fewer_deleteSlots _).bind fun _ => ?_
  refine (fewer_deleteSplits _).bind fun _ => (fewer_deleteSlots _).bind fun _ => ?_
  exact fewer_deleteTransactions _

theorem fewer_deleteSplitRows (guids : List String) : Preserves Fewer (deleteSplitRows guids) :=
  (fewer_deleteSlots _).bind fun _ => fewer_deleteSplits _

theorem fewer_restoreOriginal (row : Slot) : Preserves Fewer (restoreOriginal row) := by
  refine preserves_get.bind fun db => ?_
  refine (preserves_option_forM fun _ _ => ?_).bind fun _ => fewer_deleteSlots _
  exact preserves_restoreSplit (fun _ _ _ => fewer_updateSplits fun _ => rfl) _ _

theorem fewer_deleteTaggedLots (lotGuids : List String) :
    Preserves Fewer (deleteTaggedLots lotGuids) := by
  refine Preserves.bind (fewer_updateSplits ?_) fun _ => (fewer_deleteSlots _).bind fun _ => ?_
  · exact fun _ => rfl
  · refine Preserves.bind ?_ fun _ => fewer_deleteLots _
    exact preserves_modify fun _ => ⟨fun _ h => h, fun _ h => h, fun _ h => h⟩

theorem fewer_clearAverageCostArtifactsForRun (runId : String) (artifacts : RunAverageArtifacts) :
    Preserves Fewer (clearAverageCostArtifactsForRun host runId artifacts) := by
  refine (fewer_deleteSlots _).bind fun _ => preserves_get.bind fun db => ?_
  have hwrite (m : String) (stack : List AvgBasisWrite) :
      Preserves Fewer (writeAvgBasisWrites host m stack) :=
    (preserves_writeAvgBasisWrites host m stack).mono fun _ _ h => h.fewer
  refine preserves_forM fun m _ => preserves_ite ?_ (hwrite m [])
  refine Preserves.bind ?_ fun _ => hwrite m _
  exact (preserves_readAvgBasisWrites host m).mono fun _ _ h => h.fewer

theorem fewer_detachPriced (splitGuids lotGuids : List String) :
    Preserves Fewer (detachPriced splitGuids lotGuids) := by
  refine Preserves.bind (fewer_updateSplits ?_) fun _ => preserves_get.bind fun db => ?_
  · exact fun _ => rfl
  · refine preserves_forM fun lot _ => preserves_get.bind fun db => preserves_onlyIf fun _ => ?_
    refine preserves_get.bind fun db => preserves_ite (fewer_updateLots ?_) (preserves_throw _)
    exact fun _ => rfl

theorem fewer_undoFootprint (runId : String) (fp : RunFootprint) :
    Preserves Fewer (undoFootprint host runId fp) := by
  refine (fewer_deleteWholeTransactions _).bind fun _ => (fewer_deleteSplitRows _).bind fun _ => ?_
  refine (preserves_forM fun row _ => fewer_restoreOriginal row).bind fun _ => ?_
  refine (fewer_deleteTaggedLots _).bind fun _ => ?_
  refine Preserves.bind (fewer_updateLots ?_) fun _ => ?_
  · exact fun _ => rfl
  · exact (fewer_clearAverageCostArtifactsForRun _ _).bind fun _ => fewer_detachPriced _ _

theorem lot?_deleteTaggedLots {lotGuids : List String} {u : Unit} (hmem : l ∈ lotGuids)
    (h : Completes (deleteTaggedLots lotGuids) db u db') : (db'.lot? l).isSome = false := by
  simp only [deleteTaggedLots, completes_bind, completes_updateSplits, completes_deleteSlots,
    completes_deleteLots, deleteAvgBasisHistoryForLots, completes_modify] at h
  obtain ⟨-, t, -, -, t', -, -, t'', -, rfl⟩ := h
  refine Bool.eq_false_iff.2 fun hlot => ?_
  obtain ⟨x, hx, hguid⟩ := List.mem_map.1 (lot?_isSome_iff.1 hlot)
  have hkept := (List.mem_filter.1 hx).2
  rw [hguid] at hkept
  simp [hmem] at hkept

/-! ## Reverting one run -/

theorem touchedLotGuids_eq_nil {artifacts : RunAverageArtifacts}
    (h : artifacts.nonempty = false) : artifacts.touchedLotGuids = [] := by
  simp only [RunAverageArtifacts.nonempty, Bool.or_eq_false_iff, decide_eq_false_iff_not, ne_eq,
    Decidable.not_not] at h
  rw [RunAverageArtifacts.touchedLotGuids, h.1.2, h.2]
  rfl

section Revert

variable {parseArray : String → Option (List (Option LegacyEntry))}
  (hdecode : host.decodeAvgBasisHistory = decodeAvgBasisHistory host parseArray)
  {ws : List (Option String × String)} {runId : String}

include hdecode

theorem without_eq_self (hl : Logged host db l ws)
    (h : l ∉ (findAverageCostArtifactsForRun host db runId).touchedLotGuids) :
    without runId ws = ws := by
  rw [without, List.filter_eq_self]
  intro w hw
  rw [← hl.log, basisLog] at hw
  obtain ⟨entry, hentry, rfl⟩ := List.mem_map.1 hw
  exact decide_eq_true fun hrun => h (mem_touchedLotGuids hdecode hentry hrun)

theorem logged_clearAverageCostArtifactsForRun {artifacts : RunAverageArtifacts}
    (hlot : (db.lot? l).isSome) {u : Unit} (hl : Logged host db l ws)
    (h : Completes (clearAverageCostArtifactsForRun host runId artifacts) db u db') :
    Logged host db' l (if l ∈ artifacts.touchedLotGuids then without runId ws else ws) := by
  rw [clearAverageCostArtifactsForRun] at h
  obtain ⟨_, t, hslots, h⟩ := completes_bind.1 h
  rw [completes_get_bind] at h
  have hsame : SameBasis l db t :=
    sameBasis_deleteSlots (fun r hr hl' => avgSplitSlotNames_disjoint (of_decide_eq_true hr).2 hl'.2)
      _ _ _ hslots
  have hlots : t.lot? l = db.lot? l := by rw [completes_deleteSlots.1 hslots]; rfl
  exact logged_clearTouched hdecode (hlots ▸ hlot) (hl.of_sameBasis hsame) h

theorem logged_undoFootprint {u : Unit} (hs : l ∉ db.splits.map Split.guid)
    (ht : l ∉ db.transactions.map Transaction.guid) (hl : Logged host db l ws)
    (h : Completes (undoFootprint host runId (runFootprint host db runId)) db u db')
    (hlot : (db'.lot? l).isSome) : Logged host db' l (without runId ws) := by
  simp only [undoFootprint, completes_bind] at h
  obtain ⟨_, t₁, h₁, _, t₂, h₂, _, t₃, h₃, _, t₄, h₄, _, t₅, h₅, _, t₆, h₆, h₇⟩ := h
  have hlot₆ := (fewer_detachPriced _ _ _ _ _ h₇).lot? hlot
  have hlot₅ := (fewer_clearAverageCostArtifactsForRun _ _ _ _ _ h₆).lot? hlot₆
  have hguids (x : Lot) : ({ x with isClosed := 0 } : Lot).guid = x.guid := rfl
  have hlot₄ := (fewer_updateLots hguids _ _ _ h₅).lot? hlot₅
  have hsame₁ : SameBasis l db t₁ := by
    refine sameBasis_deleteWholeTransactions hs ?_ h₁
    exact fun hmem => ht (List.map_subset _ (List.filter_subset_self _) hmem)
  have hsame₂ : SameBasis l t₁ t₂ := by
    refine sameBasis_deleteSplitRows ?_ _ _ _ h₂
    exact fun hmem => hs (List.map_subset _ (List.filter_subset_self _) (List.mem_of_mem_filter hmem))
  have hsame₃ : SameBasis l t₂ t₃ :=
    preserves_forM (fun row _ => sameBasis_restoreOriginal row) _ _ _ h₃
  have hsame₄ : SameBasis l t₃ t₄ := by
    refine sameBasis_deleteTaggedLots (fun hmem => ?_) _ _ _ h₄
    rw [lot?_deleteTaggedLots hmem h₄] at hlot₄
    cases hlot₄
  have hsame₅ : SameBasis l t₄ t₅ := preserves_modify (fun _ => ⟨rfl, rfl⟩) _ _ _ h₅
  have hl₅ : Logged host t₅ l ws :=
    ((((hl.of_sameBasis hsame₁).of_sameBasis hsame₂).of_sameBasis hsame₃).of_sameBasis
      hsame₄).of_sameBasis hsame₅
  have hl₆ := logged_clearAverageCostArtifactsForRun hdecode hlot₅ hl₅ h₆
  have hws : (if l ∈ (runFootprint host db runId).artifacts.touchedLotGuids then without runId ws
      else ws) = without runId ws := by
    split
    · rfl
    · next hmem => exact (without_eq_self hdecode hl hmem).symm
  rw [hws] at hl₆
  exact hl₆.of_sameBasis (sameBasis_detachPriced _ _ _ _ _ h₇)

theorem logged_revertScrubRun {allowed : Option (List String)} {n : ℕ}
    (hs : l ∉ db.splits.map Split.guid) (ht : l ∉ db.transactions.map Transaction.guid)
    (hl : Logged host db l ws) (h : Completes (revertScrubRun host runId allowed) db n db')
    (hlot : (db'.lot? l).isSome) : Logged host db' l (without runId ws) ∧ Fewer db db' := by
  rw [revertScrubRun, completes_get_bind] at h
  dsimp only at h
  rcases completes_ite.1 h with ⟨hnone, h⟩ | ⟨-, h⟩
  · obtain ⟨-, rfl⟩ := completes_pure.1 h
    rw [without_eq_self hdecode hl]
    · exact ⟨hl, refl _⟩
    · have hempty := touchedLotGuids_eq_nil (by simpa using hnone.2)
      rw [runFootprint] at hempty
      rw [hempty]
      exact List.not_mem_nil
  · rcases completes_ite.1 h with ⟨-, h⟩ | ⟨-, h⟩
    · exact (completes_throw.1 h).elim
    · simp only [completes_bind, completes_pure] at h
      obtain ⟨_, t, hassert, _, t', hundo, -, rfl⟩ := h
      obtain rfl := completes_assertRevertPreservesReconciled hassert
      exact ⟨logged_undoFootprint hdecode hs ht hl hundo hlot, fewer_undoFootprint _ _ _ _ _ hundo⟩

end Revert

/-! ## Any order of writes and reverts -/

/-- A write of a lot's pooled basis by a run, or the revert of a run. -/
inductive BasisOp
  | write (lotGuid : String) (basis : ℚ) (runId : String)
  | revert (runId : String) (allowedAccountGuids : Option (List String))

/-- The database transaction of an operation. -/
def BasisOp.run (host : Host) : BasisOp → Tx Unit
  | .write lotGuid basis runId => writeAvgBasisRemaining host lotGuid basis runId
  | .revert runId allowed => do
      let _ ← revertScrubRun host runId allowed
      pure ()

/-- The tables after some operations; one that fails leaves them as they were. -/
def afterOps (host : Host) (db : Db) (ops : List BasisOp) : Db :=
  ops.foldl (fun db op => attempt (op.run host) db) db

def completed (host : Host) : Db → List BasisOp → List BasisOp
  | _, [] => []
  | db, op :: ops =>
    if (stateAfter (op.run host) db).isSome then
      op :: completed host (attempt (op.run host) db) ops
    else completed host (attempt (op.run host) db) ops

/-- What an operation is to the log of a lot: a write of its own, or the withdrawal of a run. -/
def BasisOp.event (host : Host) (lotGuid : String) :
    BasisOp → Option (Event (Option String × String) String)
  | .write l basis runId =>
    if l = lotGuid then some (.write (some runId, formatBasis host basis)) else none
  | .revert runId _ => some (.withdraw runId)

/-- The writes of a lot and the withdrawals of runs, in the order they completed. -/
def basisEvents (host : Host) (db : Db) (lotGuid : String) (ops : List BasisOp) :
    List (Event (Option String × String) String) :=
  (completed host db ops).filterMap (BasisOp.event host lotGuid)

/-- The writes whose run has not been reverted since: of those before the operations, then of the
operations' own. -/
def unreverted (host : Host) (db : Db) (lotGuid : String) (ops : List BasisOp) :
    List (Option String × String) :=
  ((basisLog host db lotGuid).filter fun w =>
      !withdrawn Prod.fst (basisEvents host db lotGuid ops) w) ++
    standing Prod.fst (basisEvents host db lotGuid ops)

structure OwnGuid (db : Db) (lotGuid : String) : Prop where
  splits : lotGuid ∉ db.splits.map Split.guid
  transactions : lotGuid ∉ db.transactions.map Transaction.guid

theorem OwnGuid.of_fewer (h : OwnGuid db l) (hf : Fewer db db') : OwnGuid db' l where
  splits hmem := h.splits (hf.splits hmem)
  transactions hmem := h.transactions (hf.transactions hmem)

section Runs

variable {parseArray : String → Option (List (Option LegacyEntry))}
  (hdecode : host.decodeAvgBasisHistory = decodeAvgBasisHistory host parseArray)
  {ws ws' : List (Option String × String)}

theorem thins_popFor (h : Thins Prod.fst ws ws') (runId value : String) :
    Thins Prod.fst (popFor runId ws ++ [(some runId, value)]) (ws' ++ [(some runId, value)]) := by
  rw [popFor]
  split
  · next htop =>
      rcases List.eq_nil_or_concat ws with rfl | ⟨s, top, rfl⟩
      · cases htop
      · rw [List.concat_eq_append] at h htop ⊢
        rw [List.getLast?_concat] at htop
        rw [List.dropLast_concat]
        exact h.replaceTop htop
  · exact h.concat _

include hdecode

/-- Each operation that completes does to a lot that is left what its event does to the lot's log. -/
theorem logged_run {op : BasisOp} {u : Unit} (hown : OwnGuid db l) (hl : Logged host db l ws)
    (hthins : Thins Prod.fst ws ws') (h : Completes (op.run host) db u db')
    (hlot : (db'.lot? l).isSome) :
    ∃ ws₁, Logged host db' l ws₁ ∧
      Thins Prod.fst ws₁ ((op.event host l).toList.foldl (log Prod.fst) ws') := by
  cases op with
  | write m basis runId =>
    by_cases hm : m = l
    · obtain rfl := hm
      refine ⟨_, logged_writeAvgBasisRemaining hl h, ?_⟩
      simp only [BasisOp.event, if_true, Option.toList_some, List.foldl_cons, List.foldl_nil]
      exact thins_popFor hthins _ _
    · refine ⟨ws, hl.of_sameBasis (sameBasis_writeAvgBasisRemaining host hm basis runId _ _ _ h), ?_⟩
      simpa [BasisOp.event, hm] using hthins
  | revert runId allowed =>
    simp only [BasisOp.run, completes_bind] at h
    obtain ⟨n, t, h, hpure⟩ := h
    obtain ⟨-, rfl⟩ := completes_pure.1 hpure
    exact ⟨_, (logged_revertScrubRun hdecode hown.splits hown.transactions hl h hlot).1,
      hthins.filter runId⟩

omit hdecode in
theorem fewer_run (op : BasisOp) : Preserves Fewer (op.run host) := by
  cases op with
  | write m basis runId =>
    exact (preserves_writeAvgBasisRemaining host m basis runId).mono fun _ _ h => h.fewer
  | revert runId allowed =>
    refine Preserves.bind ?_ fun _ => preserves_pure _
    refine preserves_get.bind fun db => preserves_ite (preserves_pure _) ?_
    refine preserves_ite (preserves_throw _) ?_
    refine Preserves.bind ?_ fun _ => (fewer_undoFootprint _ _).bind fun _ => preserves_pure _
    intro t _ t' h
    rw [completes_assertRevertPreservesReconciled h]
    exact refl _

omit hdecode in
theorem fewer_afterOps (ops : List BasisOp) : Fewer db (afterOps host db ops) := by
  induction ops generalizing db with
  | nil => exact refl _
  | cons op ops ih =>
    have hop : Fewer db (attempt (op.run host) db) :=
      attempt_induction (refl db) fun _ _ h => fewer_run op _ _ _ h
    exact IsTrans.trans _ _ _ hop ih

/-- After any operations a lot that is left has the log that their events make, thinned. -/
theorem logged_afterOps {ops : List BasisOp} (hown : OwnGuid db l) (hl : Logged host db l ws)
    (hthins : Thins Prod.fst ws ws') (hlot : ((afterOps host db ops).lot? l).isSome) :
    ∃ ws₁, Logged host (afterOps host db ops) l ws₁ ∧
      Thins Prod.fst ws₁ ((basisEvents host db l ops).foldl (log Prod.fst) ws') := by
  induction ops generalizing db ws ws' with
  | nil => exact ⟨ws, hl, hthins⟩
  | cons op ops ih =>
    cases hop : stateAfter (op.run host) db with
    | none =>
      have hsame : attempt (op.run host) db = db := by rw [attempt, hop, Option.getD_none]
      have hafter : afterOps host db (op :: ops) = afterOps host db ops := by
        rw [afterOps, List.foldl_cons, hsame]
        rfl
      have hevents : basisEvents host db l (op :: ops) = basisEvents host db l ops := by
        rw [basisEvents, completed, hop, if_neg (by simp), hsame]
        rfl
      rw [hafter] at hlot ⊢
      rw [hevents]
      exact ih hown hl hthins hlot
    | some t =>
      have hnext : attempt (op.run host) db = t := by rw [attempt, hop, Option.getD_some]
      have hafter : afterOps host db (op :: ops) = afterOps host t ops := by
        rw [afterOps, List.foldl_cons, hnext]
        rfl
      have hevents : basisEvents host db l (op :: ops) =
          (op.event host l).toList ++ basisEvents host t l ops := by
        rw [basisEvents, completed, hop, if_pos Option.isSome_some, hnext, List.filterMap_cons]
        cases op.event host l <;> rfl
      rw [hafter] at hlot ⊢
      rw [hevents, List.foldl_append]
      obtain ⟨u, hcompletes⟩ := stateAfter_eq_some.1 hop
      have hfewer := fewer_run op _ _ _ hcompletes
      obtain ⟨ws₁, hl₁, hthins₁⟩ :=
        logged_run hdecode hown hl hthins hcompletes ((fewer_afterOps ops).lot? hlot)
      exact ih (hown.of_fewer hfewer) hl₁ hthins₁ hlot

/-- In every order of writes and reverts the live slots of a lot hold the newest write whose run has
not been reverted since, nothing when there is none, and never a write of a run that was reverted
and wrote no more. -/
theorem live_eq_newest (hown : OwnGuid db l) (hkeys : HasKeys db l)
    (hmirrors : Mirrors db l (basisLog host db l)) (ops : List BasisOp)
    (hlot : ((afterOps host db ops).lot? l).isSome) :
    (afterOps host db ops).slotString l avgBasisRemainingSlot =
        (unreverted host db l ops).getLast?.map Prod.snd ∧
      (afterOps host db ops).slotString l avgBasisRemainingRunSlot =
        (unreverted host db l ops).getLast?.bind Prod.fst ∧
      ∀ before runId after, basisEvents host db l ops = before ++ .withdraw runId :: after →
        (∀ w, .write w ∈ after → w.1 ≠ some runId) →
        (afterOps host db ops).slotString l avgBasisRemainingRunSlot ≠ some runId := by
  obtain ⟨ws, hl, hthins⟩ :=
    logged_afterOps hdecode hown ⟨hkeys, rfl, hmirrors⟩ (Thins.refl _) hlot
  have hlive : ws.getLast? = (unreverted host db l ops).getLast? := by
    rw [hthins.getLast?_eq, foldl_log, unreverted]
  have hrun := hl.mirrors.2
  refine ⟨hlive ▸ hl.mirrors.1, hlive ▸ hrun, ?_⟩
  intro before runId after hevents hafter hslot
  rw [hrun, hthins.getLast?_eq, hevents, Option.bind_eq_some_iff] at hslot
  obtain ⟨w, hw, hwrun⟩ := hslot
  exact owner_ne_of_mem_log hafter (List.mem_of_getLast? hw) hwrun

end Runs

/-- The plain host with a text for one share's basis and another for any other. -/
def notedHost : Host := { plainHost with numberText := fun q => if q = 1 then "1" else "2" }

theorem notedHost_decode :
    notedHost.decodeAvgBasisHistory = decodeAvgBasisHistory notedHost fun _ => some [] := by
  funext raw legacyRun
  unfold decodeAvgBasisHistory
  cases raw.filter fun text => decide (text ≠ "") <;> rfl

def valuedLot : Db where
  accounts := []
  transactions := []
  splits := []
  lots := [⟨"lot", some "fund", 0⟩]
  slots := [⟨"lot", avgBasisRemainingSlot, some "5"⟩]
  prices := []
  history := []
  drawn := 0

/-- Two runs write and the first is reverted: the second's value stays, then the older layout's. -/
theorem live_eq_newest_valuedLot :
    (afterOps notedHost valuedLot [.write "lot" 1 "a", .write "lot" 2 "b", .revert "a" none]).slotString
        "lot" avgBasisRemainingSlot = some "2" ∧
      (afterOps notedHost valuedLot
        [.write "lot" 1 "a", .write "lot" 2 "b", .revert "a" none, .revert "b" none]).slotString
        "lot" avgBasisRemainingSlot = some "5" := by
  have hown : OwnGuid valuedLot "lot" := ⟨by decide, by decide⟩
  have hkeys : HasKeys valuedLot "lot" := List.nodup_nil
  have hmirrors : Mirrors valuedLot "lot" (basisLog notedHost valuedLot "lot") := by
    refine ⟨?_, ?_⟩ <;> decide
  constructor
  · exact (live_eq_newest notedHost_decode hown hkeys hmirrors _ (by decide)).1.trans (by decide +kernel)
  · exact (live_eq_newest notedHost_decode hown hkeys hmirrors _ (by decide)).1.trans (by decide +kernel)

end Lots
