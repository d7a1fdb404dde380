import GnucashWeb.Lots.Divisions

/-!
# Runs advance

A lot-assignment run that completes advances its own scope: the events of a run are its unassigned
splits, and every lot it fills was open before or is its own.  The main result is
`advance_assignWithStrategy`.
-/

open Ledger Transact Rows

namespace Lots

variable {host : Host} {c : Scope} {db db' : Db}

/-! ## Gains -/

theorem advance_draw (hr : Ready host c db) {n : ℕ}
    (h : marked db' = { marked db with drawn := db.drawn + n }) : Advance host c db db' := by
  refine Advance.of_splits_eq [] hr ?_ ?_ (by simp) (congrArg Marked.splits h)
  · rw [h]
    exact (Move.draw (marked db) n).path
  · rw [h, List.append_nil]

variable {u : Unit} {account : Account} {a : String} {lots : List OpenLot}
  {strategy : LotAssignmentMethod} {x : RunContext}

theorem advance_closeLot (hr : Ready host c db) {l : String} (hl : c.Fills (marked db) l)
    (h : Completes (closeLot l) db u db') : Advance host c db db' := by
  obtain ⟨-, rfl⟩ := completes_updateLot.1 h
  refine Advance.of_splits_eq [] hr ?_ (List.append_nil _).symm (by simp) rfl
  exact (Move.closeLot (marked db) hl).path

/-- The tables have one more transaction, of two splits, all tagged with the run. -/
structure Booked (host : Host) (c : Scope) (lotGuid : String) (db : Db) (t : Transaction)
    (i g : Split) (db' : Db) : Prop where
  transaction_guid : t.guid = host.generateGuid db.drawn
  invest_guid : i.guid = host.generateGuid (db.drawn + 1)
  gains_guid : g.guid = host.generateGuid (db.drawn + 2)
  invest_txGuid : i.txGuid = t.guid
  gains_txGuid : g.txGuid = t.guid
  invest_lotGuid : i.lotGuid = some lotGuid
  gains_lotGuid : g.lotGuid = none
  invest_reconcileState : i.reconcileState = .n
  gains_reconcileState : g.reconcileState = .n
  marked_eq : marked db' = { marked db with
    transactions := db.transactions ++ [t]
    splits := db.splits ++ [i, g]
    marks := (marked db).marks ++ [tagRow t.guid c.run, tagRow i.guid c.run, tagRow g.guid c.run]
    drawn := db.drawn + 3 }

theorem booked_bookGain {lot : Lot} {gain : ℚ} {target : GainsTarget} {postDate : ℤ} {guid : String}
    (h : Completes (bookGain host lot account gain target postDate c.run) db guid db') :
    ∃ t i g, Booked host c lot.guid db t i g db' := by
  simp only [bookGain, completes_bind, completes_generateGuid, completes_createTransaction,
    completes_createSlot, completes_createSplit, completes_pure] at h
  obtain ⟨_, _, ⟨rfl, rfl⟩, _, _, rfl, _, _, rfl, _, _, ⟨rfl, rfl⟩, _, _, rfl, _, _, rfl, _, _,
    ⟨rfl, rfl⟩, _, _, rfl, _, _, rfl, rfl, rfl⟩ := h
  let valFrac := fromDecimal |gain| target.currencyFraction
  let scu := if account.commodityScu = 0 then 100 else account.commodityScu
  refine ⟨⟨host.generateGuid db.drawn, target.currencyGuid, some postDate,
      "Realized " ++ (if 0 ≤ gain then "Gain" else "Loss") ++ " — Lot " ++ lot.guid.take 8⟩,
    gainsSplit (host.generateGuid (db.drawn + 1)) (host.generateGuid db.drawn) account.guid
      ⟨if 0 ≤ gain then valFrac.num else -valFrac.num, valFrac.denom⟩ scu (some lot.guid),
    gainsSplit (host.generateGuid (db.drawn + 2)) (host.generateGuid db.drawn) target.accountGuid
      ⟨if 0 ≤ gain then -valFrac.num else valFrac.num, valFrac.denom⟩ scu none,
    rfl, rfl, rfl, rfl, rfl, rfl, rfl, rfl, rfl, ?_⟩
  simp [marked, gainsSplit, tagRow, List.filter_append, markNames, stashSlotNames, generatedSlot,
    avgCostBasisRunSlot, valFrac, scu]

theorem advance_booked (hr : Ready host c db) {l : String} (hl : c.Fills (marked db) l)
    {t : Transaction} {i g : Split} (h : Booked host c l db t i g db') :
    Advance host c db db' := by
  have hsplits : db'.splits = db.splits ++ [i, g] := congrArg Marked.splits h.marked_eq
  refine Advance.of_path _ hr ?_ (congrArg Marked.marks h.marked_eq) ?_ fun t' a ht => ?_
  · rw [h.marked_eq]
    exact (Move.book (marked db) h.transaction_guid h.invest_guid h.gains_guid h.invest_txGuid
      h.gains_txGuid h.invest_lotGuid hl h.gains_lotGuid h.invest_reconcileState
      h.gains_reconcileState).path
  · simp only [List.mem_cons, List.not_mem_nil, or_false]
    have hne (s : Split) (hs : s ∈ db.splits) (n : ℕ) (hn : db.drawn ≤ n) :
        host.generateGuid n ≠ s.guid := (hr.sound.unused.splits s hs n hn).symm
    rintro r (rfl | rfl | rfl) s hs
    · exact h.transaction_guid ▸ hne s hs _ le_rfl
    · exact h.invest_guid ▸ hne s hs _ (by omega)
    · exact h.gains_guid ▸ hne s hs _ (by omega)
  · have hnew (s : Split) (hs : s ∈ [i, g]) : ¬InCell t' a s := by
      rintro ⟨rfl, -⟩
      refine hr.closed.old db.drawn le_rfl ?_
      rw [← h.transaction_guid]
      rcases List.mem_cons.1 hs with rfl | hs
      · rwa [← h.invest_txGuid]
      · cases List.mem_singleton.1 hs
        rwa [← h.gains_txGuid]
    rw [hsplits, cellQuantity, cellValue, total_append, total_append,
      total_eq_zero fun s hs hc => absurd hc (hnew s hs),
      total_eq_zero fun s hs hc => absurd hc (hnew s hs)]
    simp [cellQuantity, cellValue]

theorem advance_generateCapitalGains (hr : Ready host c db) {l : String}
    (hl : c.Fills (marked db) l) {r : CapitalGainsResult}
    (h : Completes (generateCapitalGains host l c.run) db r db') : Advance host c db db' := by
  rw [generateCapitalGains, completes_get_bind] at h
  split at h
  · exact (completes_throw.1 h).elim
  rename_i lot account hlot
  have hguid : lot.guid = l := by
    obtain ⟨lot', hlot', hmap⟩ := Option.bind_eq_some_iff.1 hlot
    obtain ⟨account', -, heq⟩ := Option.map_eq_some_iff.1 hmap
    cases heq
    exact (mem_of_lot? hlot').2
  subst hguid
  dsimp only at h
  split at h
  · obtain ⟨-, rfl⟩ := completes_pure.1 h
    exact Advance.refl _
  split at h
  · obtain ⟨-, rfl⟩ := completes_pure.1 h
    exact Advance.refl _
  split at h
  · obtain ⟨_, db₁, h₁, h₂⟩ := completes_bind.1 h
    obtain ⟨-, rfl⟩ := completes_pure.1 h₂
    exact advance_closeLot hr hl h₁
  · rw [bookAndClose, completes_get_bind] at h
    simp only [completes_bind, completes_liftExcept] at h
    obtain ⟨target, db, ⟨-, rfl⟩, _, db₁, h₁, guid, db₂, h₂, _, db₃, h₃, h₄⟩ := h
    obtain ⟨-, rfl⟩ := completes_pure.1 h₄
    have a₁ : Advance host c db db₁ := by
      obtain rfl := completes_modify.1 h₁
      exact advance_draw hr rfl
    obtain ⟨t, i, g, hbooked⟩ := booked_bookGain h₂
    have a₂ := a₁.trans (advance_booked (hr.of_advance a₁) (a₁.fills hl) hbooked)
    exact a₂.trans (advance_closeLot (hr.of_advance a₂) (a₂.fills hl) h₃)

/-! ## Classifying -/

theorem Valuable.of_rows {e : Split} (h : Valuable c e db)
    (hrows : ∀ s ∈ db'.splits, s ∈ db.splits ∨
      c.Rewritable s.guid ∧ c.Revalued s.txGuid s.accountGuid) : Valuable c e db' :=
  fun s hs htx hg hv => (hrows s hs).elim (fun hs => h s hs htx hg hv) id

theorem advance_classifySplit {commodityGuid : Option String} {e : Split}
    {r : ScrubEvent × Option Warning} (hr : Ready host c db) (he : HasRow db e)
    (hvalue : |e.val| < moneyDisplayEpsilon → Valuable c e db)
    (h : Completes (classifySplit host a commodityGuid c.run e) db r db') :
    (Advance host c db db' ∧ ∀ s ∈ db'.splits, s ∈ db.splits ∨
      c.Rewritable s.guid ∧ c.Revalued s.txGuid s.accountGuid) ∧ r.1.split = e := by
  have hid : Advance host c db db ∧ ∀ s ∈ db.splits, s ∈ db.splits ∨
      c.Rewritable s.guid ∧ c.Revalued s.txGuid s.accountGuid :=
    ⟨Advance.refl db, fun s hs => .inl hs⟩
  rw [classifySplit, completes_get_bind] at h
  dsimp only at h
  split at h
  · obtain ⟨rfl, rfl⟩ := completes_pure.1 h
    exact ⟨hid, rfl⟩
  split at h
  · rename_i hzero
    split at h
    · obtain ⟨traded, db₁, h₁, h₂⟩ := completes_bind.1 h
      obtain ⟨rfl, rfl⟩ := completes_pure.1 h₂
      exact ⟨advance_valueZeroValueTrade hr he (hvalue hzero.1) h₁, rfl⟩
    · obtain ⟨rfl, rfl⟩ := completes_pure.1 h
      exact ⟨hid, rfl⟩
  · obtain ⟨rfl, rfl⟩ := completes_pure.1 h
    exact ⟨hid, rfl⟩

theorem advance_classifySplits {commodityGuid : Option String} {splits : List Split}
    {r : List (ScrubEvent × Option Warning)} (hr : Ready host c db)
    (hrows : ∀ e ∈ splits, HasRow db e)
    (hvalue : ∀ e ∈ splits, |e.val| < moneyDisplayEpsilon → Valuable c e db)
    (h : Completes (classifySplits host a commodityGuid c.run splits) db r db') :
    Advance host c db db' ∧ ∀ event ∈ r, event.1.split ∈ splits := by
  induction splits generalizing db r with
  | nil =>
    obtain ⟨rfl, rfl⟩ := completes_pure.1 h
    exact ⟨Advance.refl _, by simp⟩
  | cons e rest ih =>
    simp only [classifySplits, completes_bind] at h
    obtain ⟨event, db₁, h₁, events, db₂, h₂, h₃⟩ := h
    obtain ⟨rfl, rfl⟩ := completes_pure.1 h₃
    obtain ⟨⟨a₁, hrows₁⟩, hevent⟩ := advance_classifySplit hr (hrows e (by simp))
      (hvalue e (by simp)) h₁
    obtain ⟨a₂, hevents⟩ := ih (hr.of_advance a₁)
      (fun e' he' => (hrows e' (List.mem_cons_of_mem _ he')).of_path a₁.path)
      (fun e' he' hv => (hvalue e' (List.mem_cons_of_mem _ he') hv).of_rows hrows₁) h₂
    refine ⟨a₁.trans a₂, fun event' hmem => ?_⟩
    rcases List.mem_cons.1 hmem with rfl | hmem
    · rw [hevent]
      exact List.mem_cons_self
    · exact List.mem_cons_of_mem _ (hevents event' hmem)

def OnlyValues (db db' : Db) : Prop :=
  db'.lots = db.lots ∧ db'.splits.map (fun s => (s.lotGuid, s.quantity)) =
    db.splits.map fun s => (s.lotGuid, s.quantity)

instance : IsPreorder Db OnlyValues where
  refl _ := ⟨rfl, rfl⟩
  trans _ _ _ h h' := ⟨h'.1.trans h.1, h'.2.trans h.2⟩

theorem preserves_valueLeg (runId : String) (value : ℚ) (leg : Split) :
    Preserves OnlyValues (valueLeg runId value leg) := by
  have hslot (a b v : String) : Preserves OnlyValues (createSlot a b v) :=
    preserves_modify fun _ => ⟨rfl, rfl⟩
  have hstash : Preserves OnlyValues (stashOriginal leg runId) :=
    (hslot _ _ _).bind fun _ => (hslot _ _ _).bind fun _ => (hslot _ _ _).bind fun _ =>
      (hslot _ _ _).bind fun _ => hslot _ _ _
  refine hstash.bind fun _ s u s' h => ?_
  obtain ⟨-, rfl⟩ := completes_updateSplit.1 h
  refine ⟨rfl, map_editAt ?_ s.splits⟩
  exact fun _ => rfl

theorem preserves_classifySplits (host : Host) (a : String) (commodityGuid : Option String)
    (runId : String) (splits : List Split) :
    Preserves OnlyValues (classifySplits host a commodityGuid runId splits) := by
  have hvalue (g : String) : Preserves OnlyValues (valueZeroValueTrade host g runId) := by
    refine preserves_get.bind fun db => ?_
    split
    · exact preserves_throw _
    refine preserves_ite (preserves_pure _) (preserves_ite (preserves_pure _) ?_)
    split
    · exact preserves_pure _
    dsimp only
    split
    · exact preserves_pure _
    · refine Preserves.bind (preserves_onlyIf fun _ => preserves_throw _) fun _ => ?_
      refine (preserves_valueLeg _ _ _).bind fun _ => (preserves_valueLeg _ _ _).bind fun _ => ?_
      exact preserves_pure _
  induction splits with
  | nil => exact preserves_pure _
  | cons s rest ih =>
    refine Preserves.bind ?_ fun _ => ih.bind fun _ => preserves_pure _
    refine preserves_get.bind fun db => preserves_ite (preserves_pure _) (preserves_ite ?_ ?_)
    · exact preserves_ite ((hvalue _).bind fun _ => preserves_pure _) (preserves_pure _)
    · exact preserves_pure _

theorem OnlyValues.lotShares_eq (h : OnlyValues db db') (l : String) :
    lotShares db' l = lotShares db l := by
  have hsum (splits : List Split) :
      ((splits.filter fun s => s.lotGuid = some l).map Split.qty).sum =
        (((splits.map fun s => (s.lotGuid, s.quantity)).filter fun x => x.1 = some l).map
          fun x => x.2.toDecimalNumber).sum := by
    rw [List.filter_map, List.map_map]
    rfl
  rw [lotShares, lotShares, Db.splitsOfLot, Db.splitsOfLot, hsum, hsum, h.2]

theorem advance_deleteAvgSplitSlots (hr : Ready host c db) {p : Slot → Bool}
    (hp : ∀ r, p r → r.name ∈ avgSplitSlotNames)
    (h : Completes (deleteSlots p) db u db') : Advance host c db db' := by
  obtain rfl := completes_deleteSlots.1 h
  have hmarks : (db.slots.filter fun r => !p r).filter (fun r => r.name ∈ markNames) =
      db.slots.filter fun r => r.name ∈ markNames := by
    rw [List.filter_filter]
    refine List.filter_congr fun r _ => ?_
    by_cases hr : p r
    · have hn := hp r hr
      have : r.name ∉ markNames := by
        simp only [avgSplitSlotNames, List.mem_cons, List.not_mem_nil, or_false] at hn
        rcases hn with hn | hn <;> rw [hn] <;> decide
      simp [this]
    · simp [hr]
  have hpriced : (db.slots.filter fun r => !p r).filter (fun r => r.name = avgCostBasisRunSlot) =
      (db.slots.filter fun r => r.name = avgCostBasisRunSlot).filter fun r => !p r := by
    rw [List.filter_filter, List.filter_filter]
    simp only [Bool.and_comm]
  have hm : marked { db with slots := db.slots.filter fun r => !p r } =
      { marked db with priced := (marked db).priced.filter fun r => !p r } := by
    simp only [marked, hmarks, hpriced]
  refine Advance.of_splits_eq [] hr ?_ ?_ (by simp) rfl
  · rw [hm]
    exact (Move.unprice (marked db) _).path
  · rw [hm, List.append_nil]

theorem advance_writeAvgCostBasis (hr : Ready host c db) {g : String} (hg : Priceable c db g)
    {basis : ℚ} (h : Completes (writeAvgCostBasis host g basis c.run) db u db') :
    Advance host c db db' := by
  simp only [writeAvgCostBasis, completes_bind] at h
  obtain ⟨_, db₁, h₁, _, db₂, h₂, h₃⟩ := h
  have a₁ := advance_deleteAvgSplitSlots hr (fun r hr => (of_decide_eq_true hr).2) h₁
  have hunseen : Unseen db₁ db₂ := preserves_createSlot (by decide) _ _ _ h₂
  have a₂ : Advance host c db db₂ := a₁.trans hunseen.advance
  have hg₂ : c.Assignable g ∨ (marked db₂).Tagged c.run g :=
    hg.imp_right (tagged_of_isPrefix a₂.path.marks_isPrefix)
  obtain rfl := completes_createSlot.1 h₃
  have hm : marked { db₂ with slots := db₂.slots ++ [⟨g, avgCostBasisRunSlot, some c.run⟩] } =
      { marked db₂ with
        priced := (marked db₂).priced ++ [⟨g, avgCostBasisRunSlot, some c.run⟩] } := by
    simp [marked, List.filter_append, markNames, stashSlotNames, avgCostBasisRunSlot,
      parentSplitSlot, originalQuantityNum, originalQuantityDenom, originalValueNum,
      originalValueDenom, generatedSlot]
  refine a₂.trans (Advance.of_splits_eq [] (hr.of_advance a₂) ?_ ?_ (by simp) rfl)
  · rw [hm]
    exact (Move.price (marked db₂) hg₂).path
  · rw [hm, List.append_nil]

theorem advance_clearAverageCostArtifacts (hr : Ready host c db)
    (h : Completes (clearAverageCostArtifacts a) db u db') : Advance host c db db' := by
  rw [clearAverageCostArtifacts, completes_get_bind] at h
  simp only [completes_bind] at h
  obtain ⟨_, db₁, h₁, _, db₂, h₂, h₃⟩ := h
  have a₁ := advance_deleteAvgSplitSlots hr (fun r hr => (of_decide_eq_true hr).2) h₁
  have hlots : Unseen db₁ db₂ := preserves_deleteSlots
    (fun r hr => avgLotSlotNames_unseen (of_decide_eq_true hr).2) _ _ _ h₂
  have hhistory : Unseen db₂ db' := preserves_deleteAvgBasisHistoryForLots _ _ _ _ h₃
  exact (a₁.trans hlots.advance).trans hhistory.advance

/-! ## Replaying -/

/-- Every lot that a run may consume is one it may fill. -/
def OpenFills (c : Scope) (db : Db) (openLots : List OpenLot) : Prop :=
  ∀ l ∈ openLots, c.Fills (marked db) l.guid

theorem OpenFills.of_advance (h : OpenFills c db lots)
    (ha : Advance host c db db') : OpenFills c db' lots :=
  fun l hl => ha.fills (h l hl)

theorem OpenFills.addShares (h : OpenFills c db lots)
    (allocations : List Allocation) : OpenFills c db (addShares lots allocations) := by
  induction allocations generalizing lots with
  | nil => exact h
  | cons a allocations ih =>
    refine ih fun l hl => ?_
    obtain ⟨l', hl', rfl⟩ := List.mem_map.1 hl
    split <;> exact h l' hl'

theorem mem_orderLotsForConsumption
    {l : OpenLot} (h : l ∈ orderLotsForConsumption lots strategy) : l ∈ lots := by
  unfold orderLotsForConsumption at h
  dsimp only at h
  split at h
  · exact (List.mem_insertionSort _).1 (List.mem_reverse.1 h)
  · exact (List.mem_insertionSort _).1 h

theorem opened_createLot {title l : String}
    (h : Completes (createLot host a title c.run) db l db') : Opened host c db a l db' := by
  simp only [createLot, completes_bind, completes_generateGuid, completes_createLotRow,
    completes_createSlot, completes_pure] at h
  obtain ⟨_, _, ⟨rfl, rfl⟩, _, _, rfl, _, _, rfl, _, _, rfl, rfl, rfl⟩ := h
  refine ⟨rfl, ?_⟩
  simp [marked, tagRow, List.filter_append, markNames, stashSlotNames, generatedSlot,
    avgCostBasisRunSlot, parentSplitSlot, originalQuantityNum, originalQuantityDenom,
    originalValueNum, originalValueDenom]

theorem advance_priceDisposal (hr : Ready host c db) (hx : x.runId = c.run)
    {avg : ℚ} {allocations : List ConsumedShares} {p r : Replay}
    (hg : ∀ a ∈ allocations, Priceable c db a.splitGuid) (hopen : OpenFills c db p.openLots)
    (h : Completes (priceDisposal host x avg allocations p) db r db') :
    Advance host c db db' ∧ OpenFills c db' r.openLots := by
  simp only [priceDisposal, completes_bind] at h
  obtain ⟨_, db₁, h₁, h₂⟩ := h
  obtain ⟨rfl, rfl⟩ := completes_pure.1 h₂
  have ha : Advance host c db db' := by
    refine h₁.forM_induction (Advance.refl db) fun a ha t u t' hadv ht => ?_
    rw [hx] at ht
    exact hadv.trans (advance_writeAvgCostBasis (hr.of_advance hadv)
      ((hg a ha).imp_right (tagged_of_isPrefix hadv.path.marks_isPrefix)) ht)
  exact ⟨ha, hopen.of_advance ha⟩

theorem advance_replayEvent (hr : Ready host c db) (hx : x.runId = c.run)
    {p r : Replay} {event : ScrubEvent} (hg : c.Rewritable event.split.guid)
    (ha : c.Assignable event.split.guid) (hopen : OpenFills c db p.openLots)
    (h : Completes (replayEvent host x p event) db r db') :
    Advance host c db db' ∧ OpenFills c db' r.openLots := by
  unfold replayEvent at h
  split at h
  · simp only [replayTransferIn, completes_bind, hx] at h
    obtain ⟨result, db₁, h₁, _, db₂, h₂, h₃⟩ := h
    obtain ⟨rfl, rfl⟩ := completes_get.1 h₂
    obtain ⟨rfl, rfl⟩ := completes_pure.1 h₃
    obtain ⟨hadv, hfills⟩ := advance_splitTransferAcrossSourceLots hr hg ha h₁
    refine ⟨hadv, forall_append (hopen.of_advance hadv) fun l hl => ?_⟩
    simp only [transferredLots, List.map_map, List.mem_map] at hl
    obtain ⟨g, hg', rfl⟩ := hl
    exact hfills g hg'
  · rw [replayBuy, completes_get_bind, completes_bind] at h
    obtain ⟨l, db₁, h₁, h⟩ := h
    obtain ⟨_, db₂, h₂, h₃⟩ := completes_bind.1 h
    obtain ⟨rfl, rfl⟩ := completes_pure.1 h₃
    rw [hx] at h₁
    have hopened := opened_createLot h₁
    have a₁ := hopened.advance hr
    have a₂ := advance_assign (hr.of_advance a₁) ha hopened.fills h₂
    refine ⟨a₁.trans a₂, forall_append (hopen.of_advance (a₁.trans a₂)) fun l' hl => ?_⟩
    cases List.mem_singleton.1 hl
    exact a₂.fills hopened.fills
  · simp only [replayAdjustment, completes_bind, hx] at h
    obtain ⟨result, db₁, h₁, h₂⟩ := h
    obtain ⟨rfl, rfl⟩ := completes_pure.1 h₂
    have hadv := advance_assignAdjustmentToLots hr hg ha hopen h₁
    exact ⟨hadv, (hopen.of_advance hadv).addShares _⟩
  · simp only [replaySell, completes_bind, hx] at h
    obtain ⟨result, db₁, h₁, h₂⟩ := h
    obtain ⟨hadv, hprice⟩ := advance_splitSellAcrossLots hr hg ha
      (fun l hl => hopen l (mem_orderLotsForConsumption hl)) h₁
    have hopen₁ := (hopen.of_advance hadv).addShares
      (result.allocations.map fun a => ⟨a.lotGuid, -a.shares⟩)
    split at h₂
    · obtain ⟨a₂, hopen₂⟩ := advance_priceDisposal (hr.of_advance hadv) hx hprice hopen₁ h₂
      exact ⟨hadv.trans a₂, hopen₂⟩
    · obtain ⟨rfl, rfl⟩ := completes_pure.1 h₂
      exact ⟨hadv, hopen₁⟩

theorem advance_closeOpenLot (hr : Ready host c db) (hx : x.runId = c.run)
    {avg : ℚ} {r r' : AutoAssignResult} {lot : OpenLot} (hl : c.Fills (marked db) lot.guid)
    (h : Completes (closeOpenLot host x avg r lot) db r' db') :
    Advance host c db db' ∧ r'.runId = r.runId := by
  unfold closeOpenLot at h
  split at h
  · obtain ⟨gains, db₁, h₁, h₂⟩ := completes_bind.1 h
    obtain ⟨rfl, rfl⟩ := completes_pure.1 h₂
    rw [hx] at h₁
    exact ⟨advance_generateCapitalGains hr hl h₁, rfl⟩
  · obtain ⟨_, db₁, h₁, h₂⟩ := completes_bind.1 h
    obtain ⟨rfl, rfl⟩ := completes_pure.1 h₂
    refine ⟨Unseen.advance ?_, rfl⟩
    exact preserves_onlyIf (fun _ => preserves_writeAvgBasisRemaining host _ _ _) _ _ _ h₁

theorem advance_runEvents (hr : Ready host c db) (hx : x.runId = c.run)
    {openLots : List OpenLot} {poolBasis : ℚ} {events : List ScrubEvent} {warnings : List Warning}
    {r : AutoAssignResult} (hopen : OpenFills c db openLots)
    (hevents : ∀ e ∈ events, c.Rewritable e.split.guid ∧ c.Assignable e.split.guid)
    (h : Completes (runEvents host x openLots poolBasis events warnings) db r db') :
    Advance host c db db' ∧ r.runId = c.run := by
  rw [runEvents, completes_get_bind] at h
  simp only [completes_bind] at h
  obtain ⟨p, db₁, h₁, _, db₂, h₂, _, db₃, h₃, h₄⟩ := h
  obtain ⟨rfl, rfl⟩ := completes_get.1 h₂
  have hreplay := h₁.foldlM_induction
    (P := fun p t => Advance host c db t ∧ OpenFills c t p.openLots) ⟨Advance.refl db, hopen⟩
    fun e he p t p' t' ht hstep => by
      have hmem := hevents e ((List.mem_insertionSort _).1 he)
      obtain ⟨hadv, hopen'⟩ :=
        advance_replayEvent (hr.of_advance ht.1) hx hmem.1 hmem.2 ht.2 hstep
      exact ⟨ht.1.trans hadv, hopen'⟩
  have hunseen : Unseen db₂ db₃ := preserves_reconcileCarriedBasisForSourceLots host _ _ _ _ h₃
  have a₂ : Advance host c db₂ db₃ := hunseen.advance
  have a₃ : Advance host c db db₃ := hreplay.1.trans a₂
  have hopen₃ : OpenFills c db₃ p.openLots := hreplay.2.of_advance a₂
  have hclose := h₄.foldlM_induction (P := fun r t => Advance host c db₃ t ∧ r.runId = c.run)
    ⟨Advance.refl db₃, hx⟩ fun lot hlot r t r' t' ht hstep => by
      obtain ⟨hadv, hid⟩ := advance_closeOpenLot (hr.of_advance (a₃.trans ht.1)) hx
        (ht.1.fills (hopen₃ lot hlot)) hstep
      exact ⟨ht.1.trans hadv, hid.trans ht.2⟩
  exact ⟨a₃.trans hclose.1, hclose.2⟩

/-! ## The run -/

theorem mem_getUnassignedSplits {s : Split} :
    s ∈ getUnassignedSplits db a ↔ s ∈ db.splits ∧ s.accountGuid = a ∧ s.lotGuid = none := by
  rw [getUnassignedSplits, List.mem_insertionSort, List.mem_filter, Db.splitsOfAccount,
    List.mem_filter]
  simp [and_assoc]

/-- The unassigned splits of an account that a run processes. -/
def Eligible (db : Db) (account : Account) (s : Split) : Prop :=
  s ∈ db.splits ∧ s.accountGuid = account.guid ∧ s.lotGuid = none ∧
    qtyEpsilonForScu account.commodityScu < |s.qty|

/-- A scope has room for a run over an account: it may divide and assign the eligible splits, revalue
the legs of the zero-value ones and fill the open lots. -/
structure Scope.Covers (c : Scope) (db : Db) (account : Account) : Prop where
  eligible : ∀ s, Eligible db account s → c.Rewritable s.guid ∧ c.Assignable s.guid
  valuable : ∀ s, Eligible db account s → |s.val| < moneyDisplayEpsilon → Valuable c s db
  openLots : ∀ l ∈ db.lots, l.accountGuid = some account.guid → l.isClosed = 0 →
    qtyEpsilonForScu account.commodityScu < lotShares db l.guid → c.OldLot l.guid

theorem Scope.Covers.of_eq (h : c.Covers db account)
    (hs : db'.splits = db.splits) (hl : db'.lots = db.lots) : c.Covers db' account where
  eligible := fun s hse => h.eligible s ⟨hs ▸ hse.1, hse.2⟩
  valuable := fun s hse hv s' hs' => h.valuable s ⟨hs ▸ hse.1, hse.2⟩ hv s' (hs ▸ hs')
  openLots := fun l hlm ha hc hshares => by
    refine h.openLots l (hl ▸ hlm) ha hc ?_
    rwa [lotShares, Db.splitsOfLot, hs] at hshares

theorem openFills_loadOpenLots (host : Host) (hc : c.Covers db account) (h : OnlyValues db db') :
    OpenFills c db' (loadOpenLots host db' account.guid
      (qtyEpsilonForScu account.commodityScu)) := by
  intro l hl
  obtain ⟨lot, hlot, rfl⟩ := List.mem_map.1 hl
  obtain ⟨hlot, hshares⟩ := List.mem_filter.1 hlot
  obtain ⟨hlot, hopen⟩ := List.mem_filter.1 hlot
  obtain ⟨ha, hclosed⟩ := of_decide_eq_true hopen
  refine ⟨List.mem_map_of_mem hlot, .inl (hc.openLots lot (h.1 ▸ hlot) ha hclosed ?_)⟩
  rw [← h.lotShares_eq]
  exact of_decide_eq_true hshares

theorem advance_assignSplits (hr : Ready host c db) (hc : c.Covers db account)
    {r : AutoAssignResult}
    (h : Completes (assignSplits host account strategy c.run (getUnassignedSplits db account.guid))
      db r db') : Advance host c db db' ∧ r.runId = c.run := by
  simp only [assignSplits, completes_bind] at h
  obtain ⟨classified, db₁, h₁, _, db₂, h₂, h₃⟩ := h
  obtain ⟨rfl, rfl⟩ := completes_get.1 h₂
  have heligible (s : Split) (hs : s ∈ (getUnassignedSplits db account.guid).filter fun s =>
      qtyEpsilonForScu account.commodityScu < |s.qty|) : Eligible db account s := by
    obtain ⟨hmem, hq⟩ := List.mem_filter.1 hs
    obtain ⟨hmem, ha, hl⟩ := mem_getUnassignedSplits.1 hmem
    exact ⟨hmem, ha, hl, of_decide_eq_true hq⟩
  obtain ⟨a₁, hevents⟩ := advance_classifySplits hr
    (fun s hs => ⟨s, (heligible s hs).1, SameRow.refl s⟩)
    (fun s hs => hc.valuable s (heligible s hs)) h₁
  have hopen := openFills_loadOpenLots host hc (preserves_classifySplits host _ _ _ _ _ _ _ h₁)
  have hmem (e : ScrubEvent) (he : e ∈ classified.map Prod.fst) :
      c.Rewritable e.split.guid ∧ c.Assignable e.split.guid := by
    obtain ⟨event, hevent, rfl⟩ := List.mem_map.1 he
    exact hc.eligible _ (heligible _ (hevents event hevent))
  rcases completes_ite.1 h₃ with ⟨-, h₃⟩ | ⟨-, h₃⟩
  · obtain ⟨basis, db₃, h₃, h₄⟩ := completes_bind.1 h₃
    have hunseen : Unseen db₂ db₃ := preserves_openingBasis host _ _ _ _ h₃
    have a₂ : Advance host c db₂ db₃ := hunseen.advance
    obtain ⟨a₃, hid⟩ := advance_runEvents (hr.of_advance (a₁.trans a₂)) rfl (hopen.of_advance a₂)
      hmem h₄
    exact ⟨(a₁.trans a₂).trans a₃, hid⟩
  · obtain ⟨basis, db₃, h₃, h₄⟩ := completes_bind.1 h₃
    obtain ⟨-, rfl⟩ := completes_pure.1 h₃
    obtain ⟨a₃, hid⟩ := advance_runEvents (hr.of_advance a₁) rfl hopen hmem h₄
    exact ⟨a₁.trans a₃, hid⟩

theorem clearAverageCostArtifacts_rows (h : Completes (clearAverageCostArtifacts a) db u db') :
    db'.splits = db.splits ∧ db'.lots = db.lots ∧ db'.transactions = db.transactions := by
  rw [clearAverageCostArtifacts, completes_get_bind] at h
  simp only [completes_bind, completes_deleteSlots, deleteAvgBasisHistoryForLots,
    completes_modify] at h
  obtain ⟨_, _, rfl, _, _, rfl, rfl⟩ := h
  exact ⟨rfl, rfl, rfl⟩

theorem advance_assignWithStrategy {accountGuid : String}
    {r : AutoAssignResult} (hr : Ready host c { db with drawn := db.drawn + 1 })
    (hrun : c.run = host.generateGuid db.drawn)
    (hc : ∀ account, db.account? accountGuid = some account → c.Covers db account)
    (h : Completes (assignWithStrategy host accountGuid strategy) db r db') :
    Advance host c { db with drawn := db.drawn + 1 } db' ∧ r.runId = c.run := by
  simp only [assignWithStrategy, completes_bind] at h
  obtain ⟨runId, db₁, h₁, _, _, h₂, h⟩ := h
  obtain ⟨rfl, rfl⟩ := completes_generateGuid.1 h₁
  obtain ⟨rfl, rfl⟩ := completes_get.1 h₂
  rw [← hrun] at h
  split at h
  · exact (completes_throw.1 h).elim
  rename_i account haccount
  have hguid : account.guid = accountGuid := by
    simpa using List.find?_some (show db.accounts.find? _ = some account from haccount)
  subst hguid
  obtain ⟨_, db₂, h₃, h⟩ := completes_bind.1 h
  have hclear : Advance host c { db with drawn := db.drawn + 1 } db₂ ∧
      db₂.splits = db.splits ∧ db₂.lots = db.lots := by
    rcases completes_onlyIf.1 h₃ with ⟨-, h₃⟩ | ⟨-, rfl⟩
    · have hrows := clearAverageCostArtifacts_rows h₃
      exact ⟨advance_clearAverageCostArtifacts hr h₃, hrows.1, hrows.2.1⟩
    · exact ⟨Advance.refl _, rfl, rfl⟩
  obtain ⟨a₁, hs, hl⟩ := hclear
  rw [completes_get_bind] at h
  split at h
  · obtain ⟨rfl, rfl⟩ := completes_pure.1 h
    exact ⟨a₁, rfl⟩
  · have hcovers := (hc account haccount).of_eq hs hl
    obtain ⟨a₂, hid⟩ := advance_assignSplits (hr.of_advance a₁) hcovers h
    exact ⟨a₁.trans a₂, hid⟩

/-- The scope of a run over any account: it may divide and assign every split there is, fill every
lot and revalue the pairs with a zero-value split. -/
def runScope (host : Host) (db : Db) : Scope where
  run := host.generateGuid db.drawn
  Rewritable g := g ∈ db.splits.map Split.guid
  Assignable _ := True
  OldLot _ := True
  Old t := ∀ n, db.drawn ≤ n → t ≠ host.generateGuid n
  Revalued t a := ∃ s ∈ db.splits, InCell t a s ∧ |s.val| ≤ moneyDisplayEpsilon

theorem ready_runScope (hinj : Function.Injective host.generateGuid)
    (h : Sound host (marked db)) :
    Ready host (runScope host db) { db with drawn := db.drawn + 1 } where
  inj := hinj
  sound := h.draw 1
  closed := by
    refine ⟨fun n hn he => ?_, fun n hn hg => ?_, fun n hn ho => ?_⟩
    · have heq := hinj he
      change db.drawn + 1 ≤ n at hn
      omega
    · obtain ⟨s, hs, he⟩ := List.mem_map.1 hg
      exact h.unused.splits s hs n (Nat.le_of_succ_le hn) he
    · exact ho n (Nat.le_of_succ_le hn) rfl

theorem covers_runScope (account : Account) : (runScope host db).Covers db account where
  eligible := fun _ hs => ⟨List.mem_map_of_mem hs.1, trivial⟩
  valuable := fun _ _ _ s hs _ _ hv => ⟨List.mem_map_of_mem hs, s, hs, ⟨rfl, rfl⟩, hv⟩
  openLots := fun _ _ _ _ _ => trivial

theorem advance_run (hinj : Function.Injective host.generateGuid) (hs : Sound host (marked db))
    {accountGuid : String} {r : AutoAssignResult}
    (h : Completes (assignWithStrategy host accountGuid strategy) db r db') :
    Advance host (runScope host db) { db with drawn := db.drawn + 1 } db' ∧
      r.runId = host.generateGuid db.drawn :=
  advance_assignWithStrategy (ready_runScope hinj hs) rfl (fun account _ => covers_runScope account)
    h

/-- A host with numbered guids, no fees, no prices in slots and one gains account. -/
def plainHost : Host where
  generateGuid n := String.ofList ('g' :: Text.natDigits n)
  now := 0
  toISOString _ := ""
  isoDay _ := ""
  parseDate _ := none
  parseFloat _ := none
  numberText _ := "0"
  isCorruptBasisValue _ := false
  decodeAvgBasisHistory _ _ := []
  buildFeeAccountPaths _ _ := ""
  allocateTradeFees _ _ _ _ := none
  classifyAccountTax _ _ := .normal
  isLongTerm _ _ := false
  gainsTarget _ _ _ _ _ := .ok ⟨"usd", 100, "income", []⟩

theorem plainHost_injective : Function.Injective plainHost.generateGuid := by
  intro m n h
  have hdigits : Text.natDigits m = Text.natDigits n := by
    have hlist := congrArg String.toList h
    simpa [plainHost] using hlist
  have hread := congrArg Text.readDecimal hdigits
  rw [Text.readDecimal_natDigits, Text.readDecimal_natDigits] at hread
  exact Option.some.inj hread

theorem plainHost_ne {g : String} (h : g.toList.head? ≠ some 'g') (n : ℕ) :
    g ≠ plainHost.generateGuid n := by
  rintro rfl
  exact h (by simp [plainHost])

end Lots
