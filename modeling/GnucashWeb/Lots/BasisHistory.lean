import GnucashWeb.Lib.WriteLog
import GnucashWeb.Lots.BasisView

/-!
# The history of a pooled basis

What each operation on the pooled basis of a lot does to the lot's writes and to the slots that
mirror the latest of them.
-/

open Ledger Transact KeyOrder WriteLog

namespace Lots

/-! ## Documents of an older layout -/

/-- An element of a stored document: its `run` and `value`, each when it is a text. -/
structure LegacyEntry where
  run : Option String
  value : Option String
deriving DecidableEq, Repr

/-- The writes of a slot document of an older layout, or its single value.  `parseArray` reads the
elements of a JSON array, none for an element that is not an object. -/
def decodeAvgBasisHistory (host : Host) (parseArray : String → Option (List (Option LegacyEntry)))
    (raw legacyRun : Option String) : List AvgBasisWrite :=
  match raw.filter fun text => text ≠ "" with
  | none => []
  | some text =>
    match parseArray text with
    | some entries => entries.filterMap fun entry => do
        let entry ← entry
        let value ← entry.value
        pure ⟨entry.run, value, host.isCorruptBasisValue value⟩
    | none => if (host.parseFloat text).isNone then [] else [⟨legacyRun, text, false⟩]

variable {host : Host} {parseArray : String → Option (List (Option LegacyEntry))}

theorem decodeAvgBasisHistory_none (legacyRun : Option String) :
    decodeAvgBasisHistory host parseArray none legacyRun = [] := rfl

theorem run_of_mem_decode {raw legacyRun : Option String} {w : AvgBasisWrite} {r : String}
    (hw : w ∈ decodeAvgBasisHistory host parseArray raw legacyRun) (hr : w.run = some r) :
    w ∈ decodeAvgBasisHistory host parseArray raw none ∨ legacyRun = some r := by
  unfold decodeAvgBasisHistory at hw ⊢
  revert hw
  cases raw.filter fun text => decide (text ≠ "") with
  | none => exact fun hw => absurd hw List.not_mem_nil
  | some text =>
    dsimp only
    cases parseArray text with
    | some entries => exact Or.inl
    | none =>
      intro hw
      dsimp only at hw
      split at hw
      · exact absurd hw List.not_mem_nil
      · obtain rfl := List.mem_singleton.1 hw
        exact Or.inr hr

/-! ## The writes of a lot -/

/-- The writes in the slots of an older layout, the live value on top. -/
def legacyStack (host : Host) (db : Db) (lotGuid : String) : List AvgBasisWrite :=
  host.decodeAvgBasisHistory (db.slotString lotGuid avgBasisRemainingPrevSlot)
      (db.slotString lotGuid avgBasisRemainingPrevRunSlot) ++
    ((db.slotString lotGuid avgBasisRemainingSlot).map fun current =>
      (⟨db.slotString lotGuid avgBasisRemainingRunSlot, current,
        host.isCorruptBasisValue current⟩ : AvgBasisWrite)).toList

/-- The writes of a lot: its history, else what the slots of an older layout hold. -/
def basisWrites (host : Host) (db : Db) (lotGuid : String) : List AvgBasisWrite :=
  if readAvgBasisHistory host db lotGuid ≠ [] then readAvgBasisHistory host db lotGuid
  else legacyStack host db lotGuid

def written (w : AvgBasisWrite) : Option String × String := (w.run, w.value)

/-- The writes of a lot by run and value, oldest first. -/
def basisLog (host : Host) (db : Db) (lotGuid : String) : List (Option String × String) :=
  (basisWrites host db lotGuid).map written

/-- The live slots hold the latest of some writes, with its run. -/
def Mirrors (db : Db) (lotGuid : String) (ws : List (Option String × String)) : Prop :=
  db.slotString lotGuid avgBasisRemainingSlot = ws.getLast?.map Prod.snd ∧
    db.slotString lotGuid avgBasisRemainingRunSlot = ws.getLast?.bind Prod.fst

variable {db db' : Db} {l : String}

theorem readAvgBasisHistory_eq (host : Host) (db : Db) (l : String) :
    readAvgBasisHistory host db l = (inKeyOrder HistoryRow.seqNo (historyOf db l)).map fun h =>
      ⟨h.runId, h.basisVal, host.isCorruptBasisValue h.basisVal⟩ := rfl

def storedLog (db : Db) (lotGuid : String) : List (Option String × String) :=
  (inKeyOrder HistoryRow.seqNo (historyOf db lotGuid)).map fun h => (h.runId, h.basisVal)

theorem map_written_readAvgBasisHistory (host : Host) (db : Db) (l : String) :
    (readAvgBasisHistory host db l).map written = storedLog db l := by
  rw [readAvgBasisHistory_eq, List.map_map]
  rfl

theorem readAvgBasisHistory_eq_nil_iff {host : Host} :
    readAvgBasisHistory host db l = [] ↔ storedLog db l = [] := by
  rw [← map_written_readAvgBasisHistory host, List.map_eq_nil_iff]

theorem basisLog_of_stored (h : storedLog db l ≠ []) : basisLog host db l = storedLog db l := by
  rw [basisLog, basisWrites, if_pos fun hnil => h (readAvgBasisHistory_eq_nil_iff.1 hnil),
    map_written_readAvgBasisHistory]

theorem basisLog_of_legacy (h : storedLog db l = []) :
    basisLog host db l = (legacyStack host db l).map written := by
  rw [basisLog, basisWrites, if_neg (not_not.2 (readAvgBasisHistory_eq_nil_iff.2 h))]

theorem SameBasis.basisWrites_eq (h : SameBasis l db db') (host : Host) :
    basisWrites host db' l = basisWrites host db l := by
  have hread : readAvgBasisHistory host db' l = readAvgBasisHistory host db l := by
    rw [readAvgBasisHistory_eq, readAvgBasisHistory_eq, h.1]
  have hlegacy : legacyStack host db' l = legacyStack host db l := by
    simp only [legacyStack]
    rw [h.slotString_eq (by decide), h.slotString_eq (by decide), h.slotString_eq (by decide),
      h.slotString_eq (by decide)]
  rw [basisWrites, basisWrites, hread, hlegacy]

theorem SameBasis.basisLog_eq (h : SameBasis l db db') (host : Host) :
    basisLog host db' l = basisLog host db l := by
  rw [basisLog, basisLog, h.basisWrites_eq]

variable {ws : List (Option String × String)} {stack : List AvgBasisWrite} {u : Unit}
  {runId : String}

theorem SameBasis.mirrors (h : SameBasis l db db') (hm : Mirrors db l ws) : Mirrors db' l ws := by
  unfold Mirrors
  rw [h.slotString_eq (by decide), h.slotString_eq (by decide)]
  exact hm

/-- What is so of a lot between the operations on its basis: the writes are those of a log. -/
structure Logged (host : Host) (db : Db) (lotGuid : String) (ws : List (Option String × String)) :
    Prop where
  keys : HasKeys db lotGuid
  log : basisLog host db lotGuid = ws
  mirrors : Mirrors db lotGuid ws

theorem Logged.of_sameBasis (h : Logged host db l ws)
    (hs : SameBasis l db db') : Logged host db' l ws where
  keys := hs.hasKeys h.keys
  log := (hs.basisLog_eq host).trans h.log
  mirrors := hs.mirrors h.mirrors

/-! ## Writing the history -/

theorem historyOf_replaceAvgBasisHistory (h : Completes (replaceAvgBasisHistory l stack) db u db') :
    historyOf db' l = (stack.zipIdx.map fun (w, i) => ⟨l, i, w.run, w.value⟩) ∧
      db'.slots = db.slots := by
  simp only [replaceAvgBasisHistory, deleteAvgBasisHistoryForLots, completes_bind,
    completes_modify] at h
  obtain ⟨-, t, rfl, rfl⟩ := h
  refine ⟨?_, rfl⟩
  rw [historyOf, List.filter_append, List.filter_filter, List.filter_eq_nil_iff.2,
    List.nil_append, List.filter_eq_self.2]
  · intro r hr
    obtain ⟨⟨w, i⟩, -, rfl⟩ := List.mem_map.1 hr
    simp
  · intro r _
    simp

theorem storedLog_replaceAvgBasisHistory (h : Completes (replaceAvgBasisHistory l stack) db u db') :
    HasKeys db' l ∧ storedLog db' l = stack.map written := by
  obtain ⟨hrows, -⟩ := historyOf_replaceAvgBasisHistory h
  have hlt : (historyOf db' l).Pairwise fun a b => a.seqNo < b.seqNo := by
    rw [hrows, List.pairwise_map]
    refine (List.pairwise_iff_getElem.2 fun i j hi hj hij => ?_)
    simpa [List.getElem_zipIdx] using hij
  refine ⟨List.pairwise_map.2 (hlt.imp fun hab => ne_of_lt hab), ?_⟩
  rw [storedLog, inKeyOrder_eq hlt (List.Perm.refl _), hrows, List.map_map]
  calc (stack.zipIdx.map _) = stack.zipIdx.map (written ∘ Prod.fst) := rfl
    _ = stack.map written := by rw [← List.map_map, List.zipIdx_map_fst]

theorem storedLog_readAvgBasisWrites (hkeys : HasKeys db l)
    (h : Completes (readAvgBasisWrites host l) db stack db') :
    stack = basisWrites host db l ∧ HasKeys db' l ∧ storedLog db' l = basisLog host db l := by
  rw [readAvgBasisWrites, completes_get_bind] at h
  dsimp only at h
  rcases completes_ite.1 h with ⟨hread, h⟩ | ⟨hread, h⟩
  · obtain ⟨rfl, rfl⟩ := completes_pure.1 h
    refine ⟨(if_pos hread).symm, hkeys, (basisLog_of_stored fun hnil => ?_).symm⟩
    exact hread (readAvgBasisHistory_eq_nil_iff.2 hnil)
  · have hnil : storedLog db l = [] := readAvgBasisHistory_eq_nil_iff.1 (not_not.1 hread)
    have hlog : basisLog host db l = (legacyStack host db l).map written :=
      basisLog_of_legacy hnil
    rw [adoptLegacyAvgBasisHistory, completes_get_bind] at h
    simp only [completes_bind, completes_pure] at h
    obtain ⟨_, t, hreplace, _, t', hslots, rfl, rfl⟩ := h
    -- the slots that are deleted afterwards are not the history's
    have hhistory : db'.history = t.history := by
      rcases completes_onlyIf.1 hslots with ⟨-, hslots⟩ | ⟨-, rfl⟩
      · rw [completes_deleteSlots.1 hslots]
      · rfl
    have hkept : (HasKeys t l → HasKeys db' l) ∧ storedLog db' l = storedLog t l := by
      simp only [HasKeys, storedLog, historyOf, hhistory]
      exact ⟨id, trivial⟩
    refine ⟨(if_neg hread).symm, ?_⟩
    rw [hkept.2, hlog]
    rcases completes_onlyIf.1 hreplace with ⟨-, hreplace⟩ | ⟨hempty, rfl⟩
    · obtain ⟨hkeys', hstored⟩ := storedLog_replaceAvgBasisHistory hreplace
      exact ⟨hkept.1 hkeys', hstored⟩
    · have hlegacy : legacyStack host t l = [] := not_not.1 hempty
      rw [hlegacy, hnil]
      exact ⟨hkept.1 hkeys, rfl⟩

/-- The log without its top when a run wrote it. -/
def popFor (runId : String) (ws : List (Option String × String)) : List (Option String × String) :=
  if ws.getLast?.bind Prod.fst = some runId then ws.dropLast else ws

theorem maxSeqNo_eq (db : Db) (l : String) :
    maxSeqNo db l = ((historyOf db l).map HistoryRow.seqNo).max? := rfl

theorem storedLog_popAvgBasisHistoryTopForRun (hkeys : HasKeys db l)
    (h : Completes (popAvgBasisHistoryTopForRun l runId) db u db') :
    HasKeys db' l ∧ storedLog db' l = popFor runId (storedLog db l) := by
  have hrows : historyOf db' l = (historyOf db l).filter fun r =>
      ¬(r.runId = some runId ∧ some r.seqNo = ((historyOf db l).map HistoryRow.seqNo).max?) := by
    rw [popAvgBasisHistoryTopForRun, completes_modify] at h
    rw [h, historyOf, historyOf, List.filter_filter, List.filter_filter]
    refine List.filter_congr fun r _ => ?_
    by_cases hr : r.lotGuid = l
    · simp [hr, maxSeqNo_eq, historyOf]
    · simp [hr]
  refine ⟨?_, ?_⟩
  · rw [HasKeys, hrows]
    exact (List.filter_sublist.map _).nodup hkeys
  · rw [storedLog, storedLog, hrows]
    rcases List.eq_nil_or_concat (inKeyOrder HistoryRow.seqNo (historyOf db l)) with hnil | ⟨s, a, hs⟩
    · rw [inKeyOrder_filter hkeys, hnil]
      rfl
    · rw [List.concat_eq_append] at hs
      rw [inKeyOrder_filter_top hkeys (fun r => r.runId = some runId) hs, hs, popFor]
      by_cases ha : a.runId = some runId <;> simp [ha]

theorem storedLog_appendAvgBasisHistory {entry : AvgBasisWrite} (hkeys : HasKeys db l)
    (h : Completes (appendAvgBasisHistory l entry) db u db') :
    HasKeys db' l ∧ storedLog db' l = storedLog db l ++ [written entry] := by
  rw [appendAvgBasisHistory, completes_modify] at h
  set seqNo : ℤ := ((maxSeqNo db l).map (· + 1)).getD 0 with hseq
  have hrows : historyOf db' l = historyOf db l ++ [⟨l, seqNo, entry.run, entry.value⟩] := by
    rw [h]
    simp [historyOf, List.filter_append]
  have hlt : ∀ r ∈ historyOf db l, r.seqNo < seqNo := by
    intro r hr
    have hmem : r.seqNo ∈ (historyOf db l).map HistoryRow.seqNo := List.mem_map_of_mem hr
    cases hmax : ((historyOf db l).map HistoryRow.seqNo).max? with
    | none =>
      rw [List.max?_eq_none_iff.1 hmax] at hmem
      exact absurd hmem List.not_mem_nil
    | some m =>
      have hle : r.seqNo ≤ m := (List.max?_eq_some_iff.1 hmax).2 _ hmem
      rw [maxSeqNo_eq, hmax] at hseq
      simp only [Option.map_some, Option.getD_some] at hseq
      omega
  refine ⟨?_, ?_⟩
  · rw [HasKeys, hrows, List.map_append, List.nodup_append]
    refine ⟨hkeys, List.nodup_singleton _, ?_⟩
    intro k hk k' hk'
    obtain ⟨r, hr, rfl⟩ := List.mem_map.1 hk
    obtain rfl := List.mem_singleton.1 hk'
    exact (hlt r hr).ne
  · rw [storedLog, storedLog, hrows, inKeyOrder_concat hkeys hlt, List.map_append]
    rfl

theorem avgSlotsOf_deleteSlots
    (h : Completes (deleteSlots fun r => r.objGuid = l ∧ r.name ∈ avgLotSlotNames) db u db') :
    avgSlotsOf db' l = [] ∧ db'.history = db.history := by
  rw [completes_deleteSlots.1 h]
  refine ⟨?_, rfl⟩
  rw [avgSlotsOf, List.filter_filter, List.filter_eq_nil_iff]
  intro r _
  simp

theorem slotString_of_avgSlotsOf_nil (h : avgSlotsOf db l = []) {name : String}
    (hname : name ∈ avgLotSlotNames) : db.slotString l name = none := by
  rw [slotString_eq hname, h]
  rfl

theorem mirrors_materializeAvgBasisTop {top : AvgBasisWrite} (hnil : avgSlotsOf db l = [])
    (h : Completes (materializeAvgBasisTop l top) db u db')
    (hws : ws.getLast? = some (written top)) :
    Mirrors db' l ws ∧ db'.history = db.history := by
  simp only [materializeAvgBasisTop, completes_bind, completes_createSlot] at h
  obtain ⟨-, t, rfl, h⟩ := h
  unfold Mirrors
  rw [slotString_eq (by decide), slotString_eq (by decide), hws]
  cases hrun : top.run with
  | none =>
    rw [hrun] at h
    obtain ⟨-, rfl⟩ := completes_pure.1 h
    have hrows : avgSlotsOf { db with slots := db.slots ++
        [⟨l, avgBasisRemainingSlot, some top.value⟩] } l =
        [⟨l, avgBasisRemainingSlot, some top.value⟩] := by
      rw [avgSlotsOf] at hnil
      simp only [avgSlotsOf, List.filter_append, hnil]
      simp [avgLotSlotNames]
    rw [hrows]
    simp [written, hrun, avgBasisRemainingSlot, avgBasisRemainingRunSlot]
  | some r =>
    rw [hrun] at h
    obtain rfl := completes_createSlot.1 h
    have hrows : avgSlotsOf { db with slots := db.slots ++
        [⟨l, avgBasisRemainingSlot, some top.value⟩] ++
          [⟨l, avgBasisRemainingRunSlot, some r⟩] } l =
        [⟨l, avgBasisRemainingSlot, some top.value⟩, ⟨l, avgBasisRemainingRunSlot, some r⟩] := by
      rw [avgSlotsOf] at hnil
      simp only [avgSlotsOf, List.filter_append, hnil]
      simp [avgLotSlotNames]
    rw [hrows]
    simp [written, hrun, avgBasisRemainingSlot, avgBasisRemainingRunSlot]

/-- A run's write takes the place of its own write on top, or goes on top of the others. -/
theorem logged_writeAvgBasisRemaining {basis : ℚ} (hl : Logged host db l ws)
    (h : Completes (writeAvgBasisRemaining host l basis runId) db u db') :
    Logged host db' l (popFor runId ws ++ [(some runId, formatBasis host basis)]) := by
  simp only [writeAvgBasisRemaining, completes_bind] at h
  obtain ⟨_, t₁, hread, _, t₂, hpop, _, t₃, happend, _, t₄, hdelete, htop⟩ := h
  obtain ⟨-, hkeys₁, hlog₁⟩ := storedLog_readAvgBasisWrites hl.keys hread
  obtain ⟨hkeys₂, hlog₂⟩ := storedLog_popAvgBasisHistoryTopForRun hkeys₁ hpop
  obtain ⟨hkeys₃, hlog₃⟩ := storedLog_appendAvgBasisHistory hkeys₂ happend
  obtain ⟨hnil, hhistory₄⟩ := avgSlotsOf_deleteSlots hdelete
  rw [hlog₂, hlog₁, hl.log] at hlog₃
  have hlast : (popFor runId ws ++ [(some runId, formatBasis host basis)]).getLast? =
      some (some runId, formatBasis host basis) := List.getLast?_concat
  obtain ⟨hmirrors, hhistory⟩ := mirrors_materializeAvgBasisTop hnil htop hlast
  have hrows : historyOf db' l = historyOf t₃ l := by
    rw [historyOf, historyOf, hhistory, hhistory₄]
  have hlog : storedLog db' l = popFor runId ws ++ [(some runId, formatBasis host basis)] := by
    rw [storedLog, hrows]
    exact hlog₃
  refine ⟨?_, ?_, hmirrors⟩
  · rw [HasKeys, hrows]
    exact hkeys₃
  · rw [basisLog_of_stored, hlog]
    rw [hlog]
    exact List.append_ne_nil_of_right_ne_nil _ (List.cons_ne_nil _ _)

/-! ## Withdrawing a run -/

def without (runId : String) (ws : List (Option String × String)) : List (Option String × String) :=
  ws.filter fun w => w.1 ≠ some runId

theorem without_without (runId : String) (ws : List (Option String × String)) :
    without runId (without runId ws) = without runId ws := by
  rw [without, without, List.filter_filter]
  simp

theorem map_written_filter (stack : List AvgBasisWrite) (runId : String) :
    (stack.filter fun entry => entry.run ≠ some runId).map written =
      without runId (stack.map written) := by
  rw [without, List.filter_map]
  rfl

def withdrawFrom (host : Host) (runId : String) (lotGuid : String) : Tx Unit := do
  let stack ← readAvgBasisWrites host lotGuid
  writeAvgBasisWrites host lotGuid (stack.filter fun entry => entry.run ≠ some runId)

theorem sameBasis_withdrawFrom {m : String} (h : m ≠ l) (runId : String) :
    Preserves (SameBasis l) (withdrawFrom host runId m) :=
  (sameBasis_readAvgBasisWrites host h).bind fun _ => sameBasis_writeAvgBasisWrites host h _

section Decoded

variable (hdecode : host.decodeAvgBasisHistory = decodeAvgBasisHistory host parseArray)

include hdecode

theorem basisLog_of_nil (hstored : storedLog db l = []) (hslots : avgSlotsOf db l = []) :
    basisLog host db l = [] := by
  have hempty {name : String} (hname : name ∈ avgLotSlotNames) : db.slotString l name = none :=
    slotString_of_avgSlotsOf_nil hslots hname
  rw [basisLog_of_legacy hstored, legacyStack, hempty (by decide), hempty (by decide),
    hempty (by decide), hempty (by decide), hdecode]
  rfl

theorem logged_writeAvgBasisWrites (h : Completes (writeAvgBasisWrites host l stack) db u db') :
    Logged host db' l (stack.map written) := by
  unfold writeAvgBasisWrites at h
  dsimp only at h
  cases htop : stack.getLast? with
  | none =>
    rw [htop] at h
    simp only [completes_bind] at h
    obtain ⟨_, t, hreplace, hdelete⟩ := h
    obtain ⟨hkeys, hlog⟩ := storedLog_replaceAvgBasisHistory hreplace
    obtain ⟨hnil, hhistory⟩ := avgSlotsOf_deleteSlots hdelete
    have hrows : historyOf db' l = historyOf t l := by rw [historyOf, historyOf, hhistory]
    have hstack : stack = [] := List.getLast?_eq_none_iff.1 htop
    have hstored : storedLog db' l = [] := by
      rw [storedLog, hrows]
      exact hlog.trans (by rw [hstack, List.map_nil])
    rw [hstack, List.map_nil]
    refine ⟨?_, basisLog_of_nil hdecode hstored hnil, ?_, ?_⟩
    · rw [HasKeys, hrows]
      exact hkeys
    · exact slotString_of_avgSlotsOf_nil hnil (by decide)
    · exact slotString_of_avgSlotsOf_nil hnil (by decide)
  | some top =>
    rw [htop] at h
    rcases completes_ite.1 h with ⟨-, h⟩ | ⟨-, h⟩
    · exact (completes_throw.1 h).elim
    · simp only [completes_bind] at h
      obtain ⟨_, t', ⟨_, t, hreplace, hdelete⟩, hmaterialize⟩ := h
      obtain ⟨hkeys, hlog⟩ := storedLog_replaceAvgBasisHistory hreplace
      obtain ⟨hnil, hhistory'⟩ := avgSlotsOf_deleteSlots hdelete
      have hlast : (stack.map written).getLast? = some (written top) := by
        rw [List.getLast?_map, htop, Option.map_some]
      obtain ⟨hmirrors, hhistory⟩ := mirrors_materializeAvgBasisTop hnil hmaterialize hlast
      have hrows : historyOf db' l = historyOf t l := by
        rw [historyOf, historyOf, hhistory, hhistory']
      have hstored : storedLog db' l = stack.map written := by
        rw [storedLog, hrows]
        exact hlog
      refine ⟨?_, ?_, hmirrors⟩
      · rw [HasKeys, hrows]
        exact hkeys
      · rw [basisLog_of_stored, hstored]
        rw [hstored, ne_eq, List.map_eq_nil_iff]
        rintro rfl
        cases htop

theorem logged_withdrawFrom
    (hl : Logged host db l ws) (h : Completes (withdrawFrom host runId l) db u db') :
    Logged host db' l (without runId ws) := by
  simp only [withdrawFrom, completes_bind] at h
  obtain ⟨stack, t, hread, hwrite⟩ := h
  obtain ⟨rfl, -, -⟩ := storedLog_readAvgBasisWrites hl.keys hread
  have hlogged := logged_writeAvgBasisWrites hdecode hwrite
  rwa [map_written_filter, ← basisLog, hl.log] at hlogged

/-- The undo of a run withdraws it from a lot that exists, when the lot is among those it touched. -/
theorem logged_clearTouched {touched : List String} {db₀ : Db} (hlot : (db₀.lot? l).isSome)
    (hl : Logged host db l ws) (h : Completes (touched.forM fun lotGuid =>
      if (db₀.lot? lotGuid).isSome then withdrawFrom host runId lotGuid
      else writeAvgBasisWrites host lotGuid []) db u db') :
    Logged host db' l (if l ∈ touched then without runId ws else ws) := by
  induction touched generalizing db ws with
  | nil =>
    obtain ⟨-, rfl⟩ := completes_pure.1 h
    simpa using hl
  | cons m touched ih =>
    obtain ⟨_, t, hm, hrest⟩ := completes_bind.1 h
    dsimp only at hm
    by_cases hml : m = l
    · obtain rfl := hml
      rw [if_pos hlot] at hm
      have hlogged := ih (logged_withdrawFrom hdecode hl hm) hrest
      rw [without_without, ite_self] at hlogged
      simpa using hlogged
    · have hsame : SameBasis l db t := by
        split at hm
        · exact sameBasis_withdrawFrom hml runId _ _ _ hm
        · exact sameBasis_writeAvgBasisWrites host hml [] _ _ _ hm
      have hmem : l ∈ m :: touched ↔ l ∈ touched := by
        simp [List.mem_cons, Ne.symm hml]
      simp only [hmem]
      exact ih (hl.of_sameBasis hsame) hrest

theorem mem_touchedLotGuids {w : AvgBasisWrite}
    (hw : w ∈ basisWrites host db l) (hrun : w.run = some runId) :
    l ∈ (findAverageCostArtifactsForRun host db runId).touchedLotGuids := by
  have hslot {name text : String} (h : db.slotString l name = some text) :
      ∃ r ∈ db.slots, r.objGuid = l ∧ r.name = name ∧ r.stringVal = some text := by
    obtain ⟨r, hr, htext⟩ := Option.bind_eq_some_iff.1 h
    have hkey := List.find?_some hr
    simp only [decide_eq_true_eq] at hkey
    exact ⟨r, List.mem_of_find?_eq_some hr, hkey.1, hkey.2, htext⟩
  have hown {name : String} (h : db.slotString l name = some runId) :
      l ∈ ownedBy db runId name := by
    obtain ⟨r, hr, rfl, hname, htext⟩ := hslot h
    rw [ownedBy, List.mem_eraseDups]
    exact List.mem_map_of_mem (List.mem_filter.2 ⟨hr, by simp [hname, htext]⟩)
  rw [RunAverageArtifacts.touchedLotGuids, List.mem_eraseDups, List.mem_append]
  simp only [findAverageCostArtifactsForRun, List.mem_eraseDups, List.mem_append]
  rw [basisWrites] at hw
  split at hw
  · rw [readAvgBasisHistory_eq] at hw
    obtain ⟨row, hrow, rfl⟩ := List.mem_map.1 hw
    have hmem := mem_inKeyOrder.1 hrow
    rw [historyOf, List.mem_filter] at hmem
    refine Or.inr (Or.inl (Or.inl ?_))
    rw [lotsWithAvgBasisHistoryForRun, List.mem_eraseDups]
    refine List.mem_map.2 ⟨row, List.mem_filter.2 ⟨hmem.1, ?_⟩, of_decide_eq_true hmem.2⟩
    exact decide_eq_true hrun
  · rw [legacyStack, List.mem_append] at hw
    rcases hw with hw | hw
    · rw [hdecode] at hw
      rcases run_of_mem_decode hw hrun with hw | hlegacy
      · cases hraw : db.slotString l avgBasisRemainingPrevSlot with
        | none =>
          rw [hraw, decodeAvgBasisHistory_none] at hw
          exact absurd hw List.not_mem_nil
        | some text =>
          obtain ⟨r, hr, rfl, hname, htext⟩ := hslot hraw
          refine Or.inr (Or.inr (List.mem_map_of_mem (List.mem_filter.2 ⟨hr, ?_⟩)))
          rw [hraw, ← htext] at hw
          simp only [hname, true_and, decide_eq_true_eq, List.any_eq_true, hdecode]
          exact ⟨w, hw, hrun⟩
      · exact Or.inr (Or.inl (Or.inr (hown hlegacy)))
    · rw [Option.mem_toList, Option.map_eq_some_iff] at hw
      obtain ⟨text, -, rfl⟩ := hw
      exact Or.inl (hown hrun)

end Decoded

end Lots
