import Mathlib
import GnucashWeb.Lots.Unpriced
import GnucashWeb.Lots.RunMoves

/-!
# Conservation of the average pool

A replay under the average strategy moves basis into the pool with purchases and transfers and out
of it with disposals.  What came in is what was recorded for the disposals, up to the rounding of
the slots, with what is left in the pool and what was dropped where a sale left no more than the
share tolerance (`pool_conserved`).
-/

open Ledger Transact

namespace Lots

variable (host : Host)

/-! ## Recorded bases -/

def pricedBy (db : Db) (runId : String) : List String := ownedBy db runId avgCostBasisRunSlot

/-- The bases that a run recorded for its disposals, added up. -/
def recordedBasis (db : Db) (runId : String) : ℚ :=
  ((pricedBy db runId).map fun g => (readAvgCostBasis host db g).getD 0).sum

def slotBasis (basis : ℚ) : ℚ := mathRound (basis * 10 ^ 6) / 10 ^ 6

/-- Numbers of six decimals are read back from their texts. -/
def ReadsBack : Prop := ∀ n : ℤ, host.numberText (n / 10 ^ 6) ≠ "" ∧
  host.parseFloat (host.numberText (n / 10 ^ 6)) = some (n / 10 ^ 6 : ℚ)

/-- A run that has priced nothing yet: its events are distinct splits with guids drawn before. -/
structure NewRun (runId : String) (db : Db) (events : List ScrubEvent) : Prop where
  injective : Function.Injective host.generateGuid
  distinct : (events.map fun e => e.split.guid).Nodup
  undrawn : ∀ e ∈ events, ∀ n, db.drawn ≤ n → host.generateGuid n ≠ e.split.guid
  unpriced : pricedBy db runId = []

/-! ## The steps of a replay -/

/-- One event of a replay, with the tables and the pool before and after it. -/
structure ReplayStep where
  event : ScrubEvent
  before : Db
  pool : Replay
  after : Db
  next : Replay

/-- The steps replay their events one after another. -/
def Replays (c : RunContext) : List ReplayStep → Db → Replay → Db → Replay → Prop
  | [], db, p, db', p' => db' = db ∧ p' = p
  | s :: steps, db, p, db', p' =>
    s.before = db ∧ s.pool = p ∧ Completes (replayEvent host c p s.event) db s.next s.after ∧
      Replays c steps s.after s.next db' p'

/-- The basis that travelled with the shares of a lot, the recorded value when none did. -/
def travelledBasis (db : Db) (lotGuid : String) : ℚ :=
  let carried := readCarriedBasis host db lotGuid
  if moneyDisplayEpsilon < |carried| then carried
  else ((db.splitsOfLot lotGuid).map fun s => |s.val|).sum

namespace ReplayStep

variable (c : RunContext) (s : ReplayStep)

def sold : ℚ :=
  sharesSold c.qtyEps (orderLotsForConsumption s.pool.openLots c.strategy)
    (((s.before.split? s.event.split.guid).map Split.qty).getD 0)

/-- The basis that enters the pool: the value of a purchase with its commission, the basis that
travelled with the lots a transfer opened. -/
def entered (fee : Split → ℚ) : ℚ :=
  match s.event.kind with
  | .buy => |c.pricing.value s.event.split| + fee s.event.split
  | .transferIn =>
    ((s.next.openLots.drop s.pool.openLots.length).map fun l =>
      travelledBasis host s.after l.guid).sum
  | .adjustment => 0
  | .sell => 0

/-- The basis of the shares sold, at the average before the sale. -/
def disposed : ℚ :=
  match s.event.kind with
  | .sell => s.pool.averagePerShare c.qtyEps * s.sold c
  | _ => 0

/-- The basis dropped with the shares left when these are no more than the tolerance. -/
def dropped : ℚ :=
  match s.event.kind with
  | .sell => if s.pool.poolShares - s.sold c ≤ c.qtyEps then s.pool.poolBasis - s.disposed c else 0
  | _ => 0

end ReplayStep

/-- The commission of a purchase, its accounts classified by their full paths. -/
def pathTradeFee (db : Db) (events : List ScrubEvent) (s : Split) : ℚ :=
  let rows := db.splits.filter fun s => s.txGuid ∈ events.map fun e => e.split.txGuid
  (host.allocateTradeFees db (host.buildFeeAccountPaths db) rows s.guid).getD 0

variable {host} {db db' : Db} {runId : String}

/-! ## Writing a basis -/

theorem abs_slotBasis_sub_le (basis : ℚ) : |slotBasis basis - basis| ≤ 1 / 2 / 10 ^ 6 := by
  have hle := Int.floor_le (basis * 10 ^ 6 + 1 / 2)
  have hlt := Int.lt_floor_add_one (basis * 10 ^ 6 + 1 / 2)
  unfold slotBasis mathRound
  rw [abs_le]
  constructor <;> linarith

theorem abs_sum_slotBasis_sub_le (avgPerShare : ℚ) (shares : List ℚ) :
    |(shares.map fun x => slotBasis (avgPerShare * x)).sum - avgPerShare * shares.sum| ≤
      shares.length * (1 / 2 / 10 ^ 6) := by
  induction shares with
  | nil => simp
  | cons x shares ih =>
    have hx := abs_slotBasis_sub_le (avgPerShare * x)
    rw [List.map_cons, List.sum_cons, List.sum_cons, List.length_cons, Nat.cast_succ]
    rw [abs_le] at hx ih ⊢
    constructor <;> linarith [hx.1, hx.2, ih.1, ih.2, mul_add avgPerShare x shares.sum]

theorem pricedBy_eq (db : Db) (runId : String) :
    pricedBy db runId = (((pricedRows db).filter fun r =>
      r.name = avgCostBasisRunSlot ∧ r.stringVal = some runId).map Slot.objGuid).eraseDups := by
  rw [pricedBy, ownedBy, pricedRows, List.filter_filter]
  congr 2
  refine List.filter_congr fun r _ => ?_
  by_cases h : r.name = avgCostBasisRunSlot
  · simp [h, avgSplitSlotNames]
  · simp [h]

theorem readAvgCostBasis_eq (db : Db) (g : String) :
    readAvgCostBasis host db g = (((pricedRows db).filter fun r =>
      r.objGuid = g ∧ r.name = avgCostBasisSlot).filterMap fun r =>
        (r.stringVal.filter fun text => text ≠ "").bind host.parseFloat).getLast? := by
  rw [readAvgCostBasis, pricedRows, List.filter_filter]
  congr 2
  refine List.filter_congr fun r _ => ?_
  by_cases h : r.name = avgCostBasisSlot
  · simp [h, avgSplitSlotNames]
  · simp [h]

theorem Unpriced.recorded (h : Unpriced db db') (runId : String) :
    pricedBy db' runId = pricedBy db runId ∧
      recordedBasis host db' runId = recordedBasis host db runId := by
  have hpriced : pricedBy db' runId = pricedBy db runId := by
    rw [pricedBy_eq, pricedBy_eq, h.rows]
  refine ⟨hpriced, ?_⟩
  unfold recordedBasis
  rw [hpriced]
  refine congrArg List.sum (List.map_congr_left fun g _ => ?_)
  rw [readAvgCostBasis_eq, readAvgCostBasis_eq, h.rows]

variable {g : String} {basis : ℚ} {u : Unit} {events : List ScrubEvent}

theorem pricedRows_writeAvgCostBasis
    (h : Completes (writeAvgCostBasis host g basis runId) db u db') :
    db'.drawn = db.drawn ∧ pricedRows db' = (pricedRows db).filter (fun r => r.objGuid ≠ g) ++
      [⟨g, avgCostBasisSlot, some (formatBasis host basis)⟩,
        ⟨g, avgCostBasisRunSlot, some runId⟩] := by
  simp only [writeAvgCostBasis, completes_bind, completes_deleteSlots, completes_createSlot] at h
  obtain ⟨_, _, rfl, _, _, rfl, rfl⟩ := h
  refine ⟨rfl, ?_⟩
  simp only [pricedRows, List.filter_append, List.filter_filter, List.append_assoc]
  congr 1
  refine List.filter_congr fun r _ => ?_
  by_cases hg : r.objGuid = g <;> by_cases hn : r.name ∈ avgSplitSlotNames <;> simp [hg, hn]

theorem pricedBy_writeAvgCostBasis (hg : g ∉ pricedBy db runId)
    (h : Completes (writeAvgCostBasis host g basis runId) db u db') :
    pricedBy db' runId = pricedBy db runId ++ [g] := by
  obtain ⟨-, hrows⟩ := pricedRows_writeAvgCostBasis h
  rw [pricedBy_eq, List.mem_eraseDups] at hg
  have hkeep : ((pricedRows db).filter fun r => r.objGuid ≠ g).filter (fun r =>
      r.name = avgCostBasisRunSlot ∧ r.stringVal = some runId) = (pricedRows db).filter (fun r =>
        r.name = avgCostBasisRunSlot ∧ r.stringVal = some runId) := by
    rw [List.filter_filter]
    refine List.filter_congr fun r hr => ?_
    by_cases hq : r.name = avgCostBasisRunSlot ∧ r.stringVal = some runId
    · have hne : r.objGuid ≠ g := by
        rintro rfl
        exact hg (List.mem_map_of_mem (List.mem_filter.2 ⟨hr, by simpa using hq⟩))
      simp [hq, hne]
    · simp [hq]
  have hnew : [(⟨g, avgCostBasisSlot, some (formatBasis host basis)⟩ : Slot),
      ⟨g, avgCostBasisRunSlot, some runId⟩].filter (fun r =>
        r.name = avgCostBasisRunSlot ∧ r.stringVal = some runId) =
      [⟨g, avgCostBasisRunSlot, some runId⟩] := by
    simp [avgCostBasisSlot, avgCostBasisRunSlot]
  rw [pricedBy_eq, pricedBy_eq, hrows, List.filter_append, hkeep, hnew, List.map_append,
    List.eraseDups_append]
  congr 1
  simp only [List.map_cons, List.map_nil, List.removeAll]
  rw [List.filter_cons_of_pos (by simpa using hg)]
  rfl

theorem readAvgCostBasis_writeAvgCostBasis (hreads : ReadsBack host)
    (h : Completes (writeAvgCostBasis host g basis runId) db u db') (g' : String) :
    readAvgCostBasis host db' g' =
      if g' = g then some (slotBasis basis) else readAvgCostBasis host db g' := by
  obtain ⟨-, hrows⟩ := pricedRows_writeAvgCostBasis h
  rw [readAvgCostBasis_eq, hrows, List.filter_append, List.filter_filter]
  split
  · rename_i heq
    subst heq
    obtain ⟨hne, hparse⟩ := hreads (mathRound (basis * 10 ^ 6))
    have hold : (pricedRows db).filter (fun r => decide (r.objGuid = g' ∧
        r.name = avgCostBasisSlot) && decide (r.objGuid ≠ g')) = [] := by
      refine List.filter_eq_nil_iff.2 fun r _ => ?_
      simp only [Bool.and_eq_true, decide_eq_true_eq]
      exact fun hr => hr.2 hr.1.1
    rw [hold]
    simp [avgCostBasisSlot, avgCostBasisRunSlot, formatBasis, Option.filter, hne, hparse, slotBasis]
  · rename_i hne
    have hnew : [(⟨g, avgCostBasisSlot, some (formatBasis host basis)⟩ : Slot),
        ⟨g, avgCostBasisRunSlot, some runId⟩].filter (fun r =>
          r.objGuid = g' ∧ r.name = avgCostBasisSlot) = [] := by
      simp [Ne.symm hne]
    rw [hnew, List.append_nil, readAvgCostBasis_eq]
    congr 2
    refine List.filter_congr fun r _ => ?_
    by_cases hr : r.objGuid = g'
    · simp [hr, hne]
    · simp [hr]

theorem recorded_writeAvgCostBasis (hreads : ReadsBack host) (hg : g ∉ pricedBy db runId)
    (h : Completes (writeAvgCostBasis host g basis runId) db u db') :
    recordedBasis host db' runId = recordedBasis host db runId + slotBasis basis := by
  have hread := readAvgCostBasis_writeAvgCostBasis hreads h
  unfold recordedBasis
  rw [pricedBy_writeAvgCostBasis hg h, List.map_append, List.sum_append, List.map_singleton,
    List.sum_singleton, hread, if_pos rfl]
  congr 2
  refine List.map_congr_left fun g' hg' => ?_
  have hne : g' ≠ g := fun heq => hg (heq ▸ hg')
  rw [hread, if_neg hne]

theorem recorded_forM (hreads : ReadsBack host) {avgPerShare : ℚ}
    {allocations : List ConsumedShares} (hnodup : (allocations.map ConsumedShares.splitGuid).Nodup)
    (hnew : ∀ a ∈ allocations, a.splitGuid ∉ pricedBy db runId)
    (h : Completes (allocations.forM fun a =>
      writeAvgCostBasis host a.splitGuid (avgPerShare * a.shares) runId) db u db') :
    db'.drawn = db.drawn ∧
      pricedBy db' runId = pricedBy db runId ++ allocations.map ConsumedShares.splitGuid ∧
      recordedBasis host db' runId = recordedBasis host db runId +
        (allocations.map fun a => slotBasis (avgPerShare * a.shares)).sum := by
  induction allocations generalizing db with
  | nil =>
    obtain ⟨-, rfl⟩ := completes_pure.1 h
    simp
  | cons a rest ih =>
    obtain ⟨_, mid, hwrite, hrest⟩ := completes_bind.1 h
    obtain ⟨hfirst, hnodup⟩ := List.nodup_cons.1 hnodup
    obtain ⟨ha, hnew⟩ := List.forall_mem_cons.1 hnew
    have hpriced := pricedBy_writeAvgCostBasis ha hwrite
    obtain ⟨hdrawn, hguids, hsum⟩ := ih hnodup (fun b hb => by
      rw [hpriced, List.mem_append, List.mem_singleton]
      rintro (hmem | heq)
      · exact hnew b hb hmem
      · exact hfirst (heq ▸ List.mem_map_of_mem hb)) hrest
    refine ⟨hdrawn.trans (pricedRows_writeAvgCostBasis hwrite).1, ?_, ?_⟩
    · rw [hguids, hpriced, List.append_assoc]
      rfl
    · rw [hsum, recorded_writeAvgCostBasis hreads ha hwrite, List.map_cons, List.sum_cons]
      ring

/-! ## What a step prices -/

/-- No disposal that the run priced is an event to come or has a guid still to be drawn. -/
structure Ahead (host : Host) (runId : String) (db : Db) (events : List ScrubEvent) : Prop where
  distinct : (events.map fun e => e.split.guid).Nodup
  undrawn : ∀ e ∈ events, ∀ n, db.drawn ≤ n → host.generateGuid n ≠ e.split.guid
  priced : ∀ g ∈ pricedBy db runId, (∀ e ∈ events, e.split.guid ≠ g) ∧
    ∀ n, db.drawn ≤ n → host.generateGuid n ≠ g

theorem NewRun.ahead (h : NewRun host runId db events) :
    Ahead host runId db events where
  distinct := h.distinct
  undrawn := h.undrawn
  priced := fun g hg => by
    rw [h.unpriced] at hg
    cases hg

/-- The disposals a step priced are its own split and splits with guids drawn in it. -/
def PricedIn (host : Host) (db db' : Db) (g : String) (guids : List String) : Prop :=
  guids = [] ∨ ∃ drawn, DrawnBetween host db.drawn db'.drawn drawn ∧ guids = g :: drawn

theorem Ahead.step (hinj : Function.Injective host.generateGuid) {e : ScrubEvent}
    (h : Ahead host runId db (e :: events)) {guids : List String}
    (hdrawn : db.drawn ≤ db'.drawn) (hguids : PricedIn host db db' e.split.guid guids)
    (hpriced : pricedBy db' runId = pricedBy db runId ++ guids) : Ahead host runId db' events := by
  obtain ⟨hfirst, hdistinct⟩ := List.nodup_cons.1 h.distinct
  have hlater (f : ScrubEvent) (hf : f ∈ events) : f.split.guid ≠ e.split.guid := fun heq =>
    hfirst (List.mem_map.2 ⟨f, hf, heq⟩)
  refine ⟨hdistinct, fun f hf n hn => ?_, fun g hg => ?_⟩
  · exact h.undrawn f (List.mem_cons_of_mem _ hf) n (hdrawn.trans hn)
  rw [hpriced, List.mem_append] at hg
  rcases hg with hg | hg
  · obtain ⟨hne, hold⟩ := h.priced g hg
    exact ⟨fun f hf => hne f (List.mem_cons_of_mem _ hf), fun n hn => hold n (hdrawn.trans hn)⟩
  rcases hguids with rfl | ⟨_, ⟨ns, rfl, -, hns⟩, rfl⟩
  · cases hg
  rcases List.mem_cons.1 hg with rfl | hg
  · exact ⟨hlater, fun n hn => h.undrawn e List.mem_cons_self n (hdrawn.trans hn)⟩
  · obtain ⟨m, hm, rfl⟩ := List.mem_map.1 hg
    refine ⟨fun f hf => (h.undrawn f (List.mem_cons_of_mem _ hf) m (hns m hm).1).symm,
      fun n hn heq => ?_⟩
    have hlt := (hns m hm).2
    have := hinj heq
    omega

theorem Ahead.carriers (hinj : Function.Injective host.generateGuid) {e : ScrubEvent}
    (h : Ahead host runId db (e :: events)) {guids : List String}
    (hguids : PricedIn host db db' e.split.guid guids) :
    guids.Nodup ∧ ∀ g ∈ guids, g ∉ pricedBy db runId := by
  rcases hguids with rfl | ⟨drawn, hdrawn, rfl⟩
  · exact ⟨List.nodup_nil, fun g hg => by cases hg⟩
  have hnodup := hdrawn.nodup hinj
  obtain ⟨ns, rfl, -, hns⟩ := hdrawn
  refine ⟨List.nodup_cons.2 ⟨fun hmem => ?_, hnodup⟩, fun g hg hpriced => ?_⟩
  · obtain ⟨n, hn, heq⟩ := List.mem_map.1 hmem
    exact h.undrawn e List.mem_cons_self n (hns n hn).1 heq
  · obtain ⟨hne, hold⟩ := h.priced g hpriced
    rcases List.mem_cons.1 hg with rfl | hg
    · exact hne e List.mem_cons_self rfl
    · obtain ⟨n, hn, rfl⟩ := List.mem_map.1 hg
      exact hold n (hns n hn).1 rfl

/-! ## One event -/

/-- A step conserves the pool: what it disposes of, drops and leaves is what the pool held with what
entered, and it records what it disposes of up to the rounding of each slot. -/
structure Conserves (host : Host) (c : RunContext) (s : ReplayStep) : Prop where
  pool : s.disposed c + s.next.poolBasis + s.dropped c =
    s.pool.poolBasis + s.entered host c c.pricing.tradeFee
  drawn : s.before.drawn ≤ s.after.drawn
  priced : ∃ guids, PricedIn host s.before s.after s.event.split.guid guids ∧
    pricedBy s.after c.runId = pricedBy s.before c.runId ++ guids ∧
    |recordedBasis host s.after c.runId - recordedBasis host s.before c.runId - s.disposed c| ≤
      guids.length * (1 / 2 / 10 ^ 6)

variable {c : RunContext} {e : ScrubEvent} {p p' : Replay}

/-- A step that prices nothing conserves the pool when its basis grows by what enters. -/
theorem conserves_of_unpriced {s : ReplayStep} (h : Unpriced s.before s.after)
    (hkind : s.event.kind ≠ .sell)
    (hpool : s.next.poolBasis = s.pool.poolBasis + s.entered host c c.pricing.tradeFee) :
    Conserves host c s := by
  obtain ⟨hpriced, hrecorded⟩ := @Unpriced.recorded host _ _ h c.runId
  have hdisposed : s.disposed c = 0 := by
    unfold ReplayStep.disposed
    split
    · exact absurd ‹_› hkind
    · rfl
  have hdropped : s.dropped c = 0 := by
    unfold ReplayStep.dropped
    split
    · exact absurd ‹_› hkind
    · rfl
  refine ⟨by rw [hdisposed, hdropped, hpool]; ring, h.drawn, [], .inl rfl, ?_, ?_⟩
  · rw [hpriced, List.append_nil]
  · simp [hrecorded, hdisposed]

theorem conserves_replayTransferIn (hav : c.strategy = .average) (hkind : e.kind = .transferIn)
    (h : Completes (replayTransferIn host c e.split p) db p' db') :
    Conserves host c ⟨e, db, p, db', p'⟩ := by
  simp only [replayTransferIn, completes_bind, completes_get] at h
  obtain ⟨result, mid, h₁, _, _, ⟨rfl, rfl⟩, h₂⟩ := h
  obtain ⟨rfl, rfl⟩ := completes_pure.1 h₂
  refine conserves_of_unpriced (unpriced_splitTransferAcrossSourceLots host _ _ _ _ _ h₁)
    (by simp [hkind]) ?_
  simp only [ReplayStep.entered, hkind, if_pos hav, List.drop_left]
  simp only [transferredLots, List.map_map]
  rfl

theorem conserves_replayBuy (hav : c.strategy = .average) (hkind : e.kind = .buy)
    (h : Completes (replayBuy host c e.split p) db p' db') :
    Conserves host c ⟨e, db, p, db', p'⟩ := by
  rw [replayBuy, completes_get_bind] at h
  obtain ⟨lotGuid, mid, h₁, h⟩ := completes_bind.1 h
  obtain ⟨_, _, h₂, h₃⟩ := completes_bind.1 h
  obtain ⟨rfl, rfl⟩ := completes_pure.1 h₃
  have hunpriced : Unpriced db _ :=
    (unpriced_createLot host _ _ _ _ _ _ h₁).trans (unpriced_updateSplit _ _ _ _ _ h₂)
  refine conserves_of_unpriced hunpriced (by simp [hkind]) ?_
  simp only [ReplayStep.entered, hkind, if_pos hav]

theorem conserves_replayAdjustment (hkind : e.kind = .adjustment)
    (h : Completes (replayAdjustment host c e.split p) db p' db') :
    Conserves host c ⟨e, db, p, db', p'⟩ := by
  obtain ⟨result, _, h₁, h₂⟩ := completes_bind.1 h
  obtain ⟨rfl, rfl⟩ := completes_pure.1 h₂
  refine conserves_of_unpriced (unpriced_assignAdjustmentToLots host _ _ _ _ _ _ _ h₁)
    (by simp [hkind]) ?_
  simp only [ReplayStep.entered, hkind, add_zero]

theorem conserves_replaySell (hinj : Function.Injective host.generateGuid)
    (hreads : ReadsBack host) (hav : c.strategy = .average) (hkind : e.kind = .sell)
    (ha : Ahead host c.runId db (e :: events))
    (h : Completes (replaySell host c e.split p) db p' db') :
    Conserves host c ⟨e, db, p, db', p'⟩ := by
  rw [replaySell, completes_bind] at h
  obtain ⟨result, mid, hsell, h⟩ := h
  rw [if_pos hav, priceDisposal, completes_bind] at h
  obtain ⟨_, _, hwrites, h⟩ := h
  obtain ⟨rfl, rfl⟩ := completes_pure.1 h
  obtain ⟨sell, hs, hcarried⟩ := carried_splitSellAcrossLots hsell
  have hsold (next : Replay) : ReplayStep.sold c ⟨e, db, p, db', next⟩ =
      (result.allocations.map ConsumedShares.shares).sum := by
    rw [hcarried.shares_eq, ReplayStep.sold, hs]
    rfl
  have hguids : PricedIn host db mid e.split.guid
      (result.allocations.map ConsumedShares.splitGuid) :=
    hcarried.carriers.imp (congrArg _) id
  obtain ⟨hpriced, hrecorded⟩ := @Unpriced.recorded host _ _ hcarried.unpriced c.runId
  obtain ⟨hnodup, hnew⟩ := ha.carriers hinj hguids
  obtain ⟨hdrawn, hpriced', hrecorded'⟩ := recorded_forM hreads hnodup
    (fun a ha' => hpriced ▸ hnew _ (List.mem_map_of_mem ha')) hwrites
  have hround := abs_sum_slotBasis_sub_le (p.averagePerShare c.qtyEps)
    (result.allocations.map ConsumedShares.shares)
  rw [List.map_map, List.length_map] at hround
  refine ⟨?_, hdrawn ▸ hcarried.unpriced.drawn, _, ?_, hpriced ▸ hpriced', ?_⟩
  · simp only [ReplayStep.disposed, ReplayStep.dropped, ReplayStep.entered, hkind, hsold]
    split <;> ring
  · refine hguids.imp id ?_
    rintro ⟨guids, hbetween, heq⟩
    exact ⟨guids, hbetween.mono (Nat.le_of_eq hdrawn.symm), heq⟩
  · simp only [ReplayStep.disposed, hkind, hsold, List.length_map]
    rw [hrecorded', hrecorded, add_sub_cancel_left]
    exact hround

theorem conserves_replayEvent (hinj : Function.Injective host.generateGuid)
    (hreads : ReadsBack host) (hav : c.strategy = .average)
    (ha : Ahead host c.runId db (e :: events))
    (h : Completes (replayEvent host c p e) db p' db') : Conserves host c ⟨e, db, p, db', p'⟩ := by
  rw [replayEvent] at h
  cases hkind : e.kind with
  | transferIn => exact conserves_replayTransferIn hav hkind (by rwa [hkind] at h)
  | buy => exact conserves_replayBuy hav hkind (by rwa [hkind] at h)
  | adjustment => exact conserves_replayAdjustment hkind (by rwa [hkind] at h)
  | sell => exact conserves_replaySell hinj hreads hav hkind ha (by rwa [hkind] at h)

theorem replays_of_completes (h : Completes (events.foldlM (replayEvent host c) p) db p' db') :
    ∃ steps, Replays host c steps db p db' p' ∧ steps.map ReplayStep.event = events := by
  induction events generalizing db p with
  | nil =>
    obtain ⟨rfl, rfl⟩ := completes_pure.1 h
    exact ⟨[], ⟨rfl, rfl⟩, rfl⟩
  | cons e events ih =>
    obtain ⟨next, mid, hstep, hrest⟩ := completes_bind.1 h
    obtain ⟨steps, hsteps, rfl⟩ := ih hrest
    exact ⟨⟨e, db, p, mid, next⟩ :: steps, ⟨rfl, rfl, hstep, hsteps⟩, rfl⟩

theorem conserved_of_replays (hinj : Function.Injective host.generateGuid)
    (hreads : ReadsBack host) (hav : c.strategy = .average) {steps : List ReplayStep}
    (h : Replays host c steps db p db' p')
    (ha : Ahead host c.runId db (steps.map ReplayStep.event)) :
    (steps.map fun s => s.disposed c).sum + p'.poolBasis + (steps.map fun s => s.dropped c).sum =
        p.poolBasis + (steps.map fun s => s.entered host c c.pricing.tradeFee).sum ∧
      ∃ guids, pricedBy db' c.runId = pricedBy db c.runId ++ guids ∧
        |recordedBasis host db' c.runId - recordedBasis host db c.runId -
          (steps.map fun s => s.disposed c).sum| ≤ guids.length * (1 / 2 / 10 ^ 6) := by
  induction steps generalizing db p with
  | nil =>
    obtain ⟨rfl, rfl⟩ := h
    exact ⟨by simp, [], by simp, by simp⟩
  | cons s steps ih =>
    obtain ⟨rfl, rfl, hstep, hrest⟩ := h
    obtain ⟨hpool, hdrawn, guids, hguids, hpriced, hrecorded⟩ :=
      conserves_replayEvent hinj hreads hav ha hstep
    obtain ⟨hpools, later, hlater, hrecords⟩ := ih hrest (ha.step hinj hdrawn hguids hpriced)
    simp only [List.map_cons, List.sum_cons]
    refine ⟨by linarith, guids ++ later, ?_, ?_⟩
    · rw [hlater, hpriced, List.append_assoc]
    · rw [List.length_append, Nat.cast_add, add_mul]
      rw [abs_le] at hrecorded hrecords ⊢
      constructor <;> linarith [hrecorded.1, hrecorded.2, hrecords.1, hrecords.2]

/-- What a sale drops is worth no more than the tolerance at the average of the pool. -/
theorem dropped_le {s : ReplayStep} (heps : 0 < c.qtyEps) (hbasis : 0 ≤ s.pool.poolBasis)
    (hheld : c.qtyEps < s.pool.poolShares) (hsold : s.sold c ≤ s.pool.poolShares) :
    0 ≤ s.dropped c ∧ s.dropped c ≤ s.pool.averagePerShare c.qtyEps * c.qtyEps := by
  have hshares : 0 < s.pool.poolShares := heps.trans hheld
  have havg : s.pool.averagePerShare c.qtyEps = s.pool.poolBasis / s.pool.poolShares :=
    if_pos hheld
  have hnonneg : 0 ≤ s.pool.averagePerShare c.qtyEps := havg ▸ div_nonneg hbasis hshares.le
  have hwhole : s.pool.averagePerShare c.qtyEps * s.pool.poolShares = s.pool.poolBasis := by
    rw [havg, div_mul_cancel₀ _ hshares.ne']
  unfold ReplayStep.dropped ReplayStep.disposed
  split
  · split
    · rename_i hleft
      rw [← hwhole, ← mul_sub]
      exact ⟨mul_nonneg hnonneg (sub_nonneg.2 hsold), mul_le_mul_of_nonneg_left hleft hnonneg⟩
    · exact ⟨le_rfl, mul_nonneg hnonneg heps.le⟩
  · exact ⟨le_rfl, mul_nonneg hnonneg heps.le⟩

def fractionText (q : ℚ) : String :=
  String.ofList (Text.intDigits q.num ++ if q.den = 1 then [] else '/' :: Text.natDigits q.den)

def readFraction (text : String) : Option ℚ :=
  let numerator := (Text.bigInt (text.toList.takeWhile (· ≠ '/'))).map fun n : ℤ => (n : ℚ)
  match text.toList.dropWhile (· ≠ '/') with
  | [] => numerator
  | _ :: denominator => do
    let n ← numerator
    let d ← Text.readDecimal denominator
    pure (n / d)

theorem readFraction_fractionText (q : ℚ) : readFraction (fractionText q) = some q := by
  have hdigits : ∀ c ∈ Text.intDigits q.num, (decide (c ≠ '/')) = true := by
    intro c hc
    refine decide_eq_true ?_
    rintro rfl
    exact Text.slash_notMem_intDigits _ hc
  unfold readFraction fractionText
  rw [String.toList_ofList, List.takeWhile_append_of_pos hdigits,
    List.dropWhile_append_of_pos hdigits]
  split_ifs with hden
  · simp only [List.takeWhile_nil, List.append_nil, List.dropWhile_nil, Text.bigInt_intDigits,
      Option.map_some]
    rw [Rat.coe_int_num_of_den_eq_one hden]
  · rw [List.takeWhile_cons_of_neg (by simp), List.dropWhile_cons_of_neg (by simp)]
    simp only [List.append_nil, Text.bigInt_intDigits, Text.readDecimal_natDigits, Option.map_some]
    exact congrArg some (Rat.num_div_den q)

def readingHost : Host :=
  { plainHost with numberText := fractionText, parseFloat := readFraction }

theorem fractionText_ne_empty (q : ℚ) : fractionText q ≠ "" := by
  intro h
  have hlist := congrArg String.toList h
  rw [fractionText, String.toList_ofList] at hlist
  have hdigits : Text.intDigits q.num = [] := (List.append_eq_nil_iff.1 hlist).1
  cases hnum : q.num with
  | ofNat n => exact Text.natDigits_ne_nil n (by rwa [hnum] at hdigits)
  | negSucc n =>
    rw [hnum] at hdigits
    cases hdigits

theorem readingHost_readsBack : ReadsBack readingHost :=
  fun _ => ⟨fractionText_ne_empty _, readFraction_fractionText _⟩

/-- A fund bought for a value, ten shares of it, and then sold in part. -/
def poolBook (value units : ℤ) : Db :=
  ⟨[⟨"fund", "Fund", .mutual, some "fund", 100, none⟩],
    [⟨"t", "usd", some 1, "Buy"⟩, ⟨"u", "usd", some 5, "Sell"⟩],
    [⟨"b", "t", "fund", "", "", .n, none, ⟨value, 100⟩, ⟨1000000, 100000⟩, none⟩,
      ⟨"s", "u", "fund", "", "", .n, none, ⟨-value, 100⟩, ⟨-units, 100000⟩, none⟩], [], [], [], [],
    0⟩

def poolEvents (value units : ℤ) : List ScrubEvent :=
  [⟨.buy, ⟨"b", "t", "fund", "", "", .n, none, ⟨value, 100⟩, ⟨1000000, 100000⟩, none⟩⟩,
    ⟨.sell, ⟨"s", "u", "fund", "", "", .n, none, ⟨-value, 100⟩, ⟨-units, 100000⟩, none⟩⟩]

def emptyPool : Replay := ⟨[], 0, 0, 0, 0, 0, []⟩

def poolContext (value units : ℤ) : RunContext :=
  ⟨"fund", .average, "run", qtyEpsilonForScu 100,
    pricing readingHost (poolBook value units) (poolEvents value units)⟩

theorem newRun_poolBook (value units : ℤ) :
    NewRun readingHost "run" (poolBook value units)
      (sortScrubEvents (poolBook value units) (poolEvents value units)) := by
  have hperm : (sortScrubEvents (poolBook value units) (poolEvents value units)).Perm
      (poolEvents value units) := List.perm_insertionSort _ _
  refine ⟨plainHost_injective, (hperm.map _).nodup_iff.2 (by simp [poolEvents]), ?_, rfl⟩
  intro e he n _
  have hmem : e ∈ poolEvents value units := hperm.mem_iff.1 he
  simp only [poolEvents, List.mem_cons, List.not_mem_nil, or_false] at hmem
  rcases hmem with rfl | rfl
  · exact (plainHost_ne (g := "b") (by decide) n).symm
  · exact (plainHost_ne (g := "s") (by decide) n).symm

theorem sum_entered_poolBook {value units : ℤ} {steps : List ReplayStep}
    (h : steps.map ReplayStep.event =
      sortScrubEvents (poolBook value units) (poolEvents value units)) (fee : Split → ℚ) :
    (steps.map fun s => s.entered readingHost (poolContext value units) fee).sum =
      ((poolEvents value units).map fun e => if e.kind = .buy then
        |(poolContext value units).pricing.value e.split| + fee e.split else 0).sum := by
  have hperm : (steps.map ReplayStep.event).Perm (poolEvents value units) :=
    h ▸ List.perm_insertionSort _ _
  rw [← (hperm.map _).sum_eq, List.map_map]
  refine congrArg List.sum (List.map_congr_left fun s hs => ?_)
  have hmem : s.event ∈ poolEvents value units := hperm.mem_iff.1 (List.mem_map_of_mem hs)
  simp only [poolEvents, List.mem_cons, List.not_mem_nil, or_false] at hmem
  rcases hmem with hevent | hevent <;> simp [ReplayStep.entered, hevent]

end Lots
