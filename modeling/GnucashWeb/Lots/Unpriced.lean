import GnucashWeb.Lots.Unseen

/-!
# Steps that price no disposal

`Unpriced` relates tables with the same basis slots on disposal splits, where guids were drawn in
between.  Only `writeAvgCostBasis` steps out of it: dividing a sale, a transfer or a stock split
stays within, and a sale carries its shares on its own split and on guids drawn for it
(`Carried`).
-/

open Ledger Transact

namespace Lots

def pricedRows (db : Db) : List Slot := db.slots.filter fun r => r.name ∈ avgSplitSlotNames

/-- No disposal is priced, and drawn guids stay drawn. -/
structure Unpriced (db db' : Db) : Prop where
  rows : pricedRows db' = pricedRows db
  drawn : db.drawn ≤ db'.drawn

theorem Unpriced.trans {db db' db'' : Db} (h : Unpriced db db') (h' : Unpriced db' db'') :
    Unpriced db db'' :=
  ⟨h'.rows.trans h.rows, h.drawn.trans h'.drawn⟩

instance : IsPreorder Db Unpriced where
  refl _ := ⟨rfl, le_rfl⟩
  trans _ _ _ := Unpriced.trans

variable (host : Host)

/-! ## Writes -/

theorem unpriced_modify {f : Db → Db} (hslots : ∀ db, (f db).slots = db.slots)
    (hdrawn : ∀ db, (f db).drawn = db.drawn) : Preserves Unpriced (modify f : Tx PUnit) :=
  preserves_modify fun db => ⟨by rw [pricedRows, hslots, pricedRows], (hdrawn db).ge⟩

theorem unpriced_createSlot {objGuid name value : String} (h : name ∉ avgSplitSlotNames) :
    Preserves Unpriced (createSlot objGuid name value) := by
  refine preserves_modify fun db => ⟨?_, le_rfl⟩
  simp [pricedRows, List.filter_append, h]

theorem unpriced_deleteSlots {p : Slot → Bool} (h : ∀ r, p r → r.name ∉ avgSplitSlotNames) :
    Preserves Unpriced (deleteSlots p) := by
  refine preserves_modify fun db => ⟨?_, le_rfl⟩
  simp only [pricedRows, List.filter_filter]
  refine List.filter_congr fun r _ => ?_
  by_cases hr : r.name ∈ avgSplitSlotNames
  · have hp : p r = false := Bool.eq_false_iff.2 fun hp => h r hp hr
    simp [hr, hp]
  · simp [hr]

theorem unpriced_updateSplit (guid : String) (f : Split → Split) :
    Preserves Unpriced (updateSplit guid f) := by
  unfold updateSplit
  refine preserves_get.bind fun db => preserves_ite ?_ (preserves_throw _)
  exact unpriced_modify (fun _ => rfl) fun _ => rfl

theorem unpriced_generateGuid : Preserves Unpriced (generateGuid host) := by
  intro db g db' h
  simp only [generateGuid, completes_bind, completes_get, completes_set, completes_pure] at h
  obtain ⟨_, _, ⟨rfl, rfl⟩, _, _, rfl, -, rfl⟩ := h
  exact ⟨rfl, Nat.le_succ _⟩

theorem unpriced_stashOriginal (s : Split) (runId : String) :
    Preserves Unpriced (stashOriginal s runId) :=
  (unpriced_createSlot (by decide)).bind fun _ => (unpriced_createSlot (by decide)).bind fun _ =>
    (unpriced_createSlot (by decide)).bind fun _ => (unpriced_createSlot (by decide)).bind fun _ =>
      unpriced_createSlot (by decide)

theorem unpriced_createSubSplit (parent : Split) (quantity value : Amount) (lotGuid : Option String)
    (runId : String) :
    Preserves Unpriced (createSubSplit host parent quantity value lotGuid runId) := by
  refine (unpriced_generateGuid host).bind fun g => ?_
  refine Preserves.bind (unpriced_modify (fun _ => rfl) fun _ => rfl) fun _ => ?_
  refine Preserves.bind ?_ fun _ => preserves_pure _
  exact (unpriced_createSlot (by decide)).bind fun _ => unpriced_createSlot (by decide)

theorem unpriced_assertBalanceKept (txGuid : String) (before : ℚ) :
    Preserves Unpriced (assertBalanceKept txGuid before) :=
  preserves_get.bind fun _ => preserves_onlyIf fun _ => preserves_throw _

/-! ## Transfers -/

theorem unpriced_writeCarriedBasisSlot (lotGuid : String) (carriedBasis : Option ℚ) :
    Preserves Unpriced (writeCarriedBasisSlot host lotGuid carriedBasis) := by
  refine Preserves.bind (unpriced_deleteSlots fun r hr => ?_) fun _ => ?_
  · rw [(of_decide_eq_true hr).2]
    decide
  · exact preserves_option_forM fun _ _ => unpriced_createSlot (by decide)

theorem unpriced_reconcile (sourceLotGuids : List String) :
    Preserves Unpriced (reconcileCarriedBasisForSourceLots host sourceLotGuids) :=
  preserves_reconcile host (unpriced_writeCarriedBasisSlot host) sourceLotGuids

theorem unpriced_linkSource (lotGuid : String) (shares : ℚ) (sourceSplit : Split)
    (sourceLotGuid : String) :
    Preserves Unpriced (linkSource host lotGuid shares sourceSplit sourceLotGuid) := by
  unfold linkSource carryAcquisitionDate
  refine (unpriced_createSlot (by decide)).bind fun _ => ?_
  refine (unpriced_createSlot (by decide)).bind fun _ => ?_
  refine Preserves.bind (preserves_onlyIf fun _ => preserves_get.bind fun _ =>
    unpriced_writeCarriedBasisSlot host _ _) fun _ => ?_
  exact preserves_get.bind fun _ =>
    preserves_option_forM fun _ _ => unpriced_createSlot (by decide)

theorem unpriced_createDestLot (split : Split) (postDate : Option ℤ) (runId : String) (shares : ℚ)
    (source : Option (Split × String)) :
    Preserves Unpriced (createDestLot host split postDate runId shares source) := by
  unfold createDestLot createTaggedLot
  refine Preserves.bind ((unpriced_generateGuid host).bind fun _ => Preserves.bind
    (unpriced_modify (fun _ => rfl) fun _ => rfl) fun _ =>
      (unpriced_createSlot (by decide)).bind fun _ => preserves_pure _) fun _ => ?_
  refine Preserves.bind (preserves_option_forM fun _ _ => unpriced_linkSource host _ _ _ _)
    fun _ => ?_
  exact (unpriced_createSlot (by decide)).bind fun _ => preserves_pure _

theorem unpriced_linkTransferToLot (splitGuid runId : String) :
    Preserves Unpriced (linkTransferToLot host splitGuid runId) := by
  unfold linkTransferToLot
  refine preserves_get.bind fun db => ?_
  dsimp only
  split
  · exact preserves_throw _
  split
  · exact preserves_pure _
  refine (unpriced_createDestLot host _ _ _ _ _).bind fun _ => ?_
  refine (unpriced_updateSplit _ _).bind fun _ => Preserves.bind ?_ fun _ => preserves_pure _
  exact preserves_option_forM fun _ _ => (unpriced_reconcile host _).bind fun _ => preserves_pure _

theorem unpriced_createTransferSubSplits (split : Split) (postDate : Option ℤ) (runId : String)
    (sources : List ((Split × String) × ℚ)) (usedQtyNum usedValNum : ℤ) :
    Preserves Unpriced
      (createTransferSubSplits host split postDate runId sources usedQtyNum usedValNum) := by
  induction sources generalizing usedQtyNum usedValNum with
  | nil => exact preserves_pure _
  | cons source rest ih =>
    refine (unpriced_createDestLot host _ _ _ _ _).bind fun _ => ?_
    refine (unpriced_createSubSplit host _ _ _ _ _).bind fun _ => ?_
    exact (ih _ _).bind fun _ => preserves_pure _

theorem unpriced_divideTransfer (split : Split) (runId : String) (first : (Split × String) × ℚ)
    (rest : List ((Split × String) × ℚ)) :
    Preserves Unpriced (divideTransfer host split runId first rest) := by
  refine preserves_get.bind fun db => (unpriced_stashOriginal split runId).bind fun _ => ?_
  refine (unpriced_createDestLot host _ _ _ _ _).bind fun _ => ?_
  refine (unpriced_updateSplit _ _).bind fun _ => ?_
  refine (unpriced_createTransferSubSplits host _ _ _ _ _ _).bind fun _ => ?_
  refine (unpriced_reconcile host _).bind fun _ => Preserves.bind ?_ fun _ => preserves_pure _
  exact preserves_onlyIf fun _ => unpriced_assertBalanceKept _ _

theorem unpriced_splitTransferAcrossSourceLots (splitGuid runId : String) :
    Preserves Unpriced (splitTransferAcrossSourceLots host splitGuid runId) := by
  unfold splitTransferAcrossSourceLots
  refine preserves_get.bind fun db => ?_
  dsimp only
  split
  · exact preserves_throw _
  refine preserves_ite (preserves_pure _) ?_
  split
  · exact unpriced_divideTransfer host _ _ _ _
  · exact (unpriced_linkTransferToLot host _ _).bind fun _ => preserves_pure _

theorem unpriced_createLot (accountGuid title runId : String) :
    Preserves Unpriced (createLot host accountGuid title runId) := by
  refine (unpriced_generateGuid host).bind fun _ => ?_
  refine Preserves.bind (unpriced_modify (fun _ => rfl) fun _ => rfl) fun _ => ?_
  refine (unpriced_createSlot (by decide)).bind fun _ => ?_
  exact (unpriced_createSlot (by decide)).bind fun _ => preserves_pure _

theorem unpriced_createAdjustmentSubSplits (adj : Split) (totalShares : ℚ) (runId : String)
    (lots : List OpenLot) (usedQtyNum : ℤ) :
    Preserves Unpriced (createAdjustmentSubSplits host adj totalShares runId lots usedQtyNum) := by
  induction lots generalizing usedQtyNum with
  | nil => exact preserves_pure _
  | cons lot rest ih =>
    exact (unpriced_createSubSplit host _ _ _ _ _).bind fun _ =>
      (ih _).bind fun _ => preserves_pure _

theorem unpriced_assignAdjustmentToLots (adjSplitGuid : String) (openLots : List OpenLot)
    (runId : String) (qtyEpsilon : ℚ) :
    Preserves Unpriced (assignAdjustmentToLots host adjSplitGuid openLots runId qtyEpsilon) := by
  unfold assignAdjustmentToLots
  refine preserves_get.bind fun db => ?_
  split
  · exact preserves_throw _
  split
  · exact preserves_pure _
  · exact (unpriced_updateSplit _ _).bind fun _ => preserves_pure _
  · refine (unpriced_stashOriginal _ _).bind fun _ => (unpriced_updateSplit _ _).bind fun _ => ?_
    exact (unpriced_createAdjustmentSubSplits host _ _ _ _ _).bind fun _ => preserves_pure _

/-! ## Sales -/

def sharesSold (qtyEps : ℚ) (openLots : List OpenLot) (qty : ℚ) : ℚ :=
  ((allocate qtyEps (openLots.filter fun l => qtyEps < l.shares) |qty|).1.map
    Allocation.shares).sum

/-- What a sale leaves: the split itself carries the first shares it took, guids drawn for it the
others. -/
structure Carried (splitGuid : String) (shares : ℚ) (allocations : List ConsumedShares)
    (db db' : Db) : Prop where
  unpriced : Unpriced db db'
  shares_eq : (allocations.map ConsumedShares.shares).sum = shares
  carriers : allocations = [] ∨ ∃ guids, DrawnBetween host db.drawn db'.drawn guids ∧
    allocations.map ConsumedShares.splitGuid = splitGuid :: guids

variable {host} {db db' : Db}

theorem createSubSplit_guid {parent : Split} {quantity value : Amount} {lotGuid : Option String}
    {runId g : String} (h : Completes (createSubSplit host parent quantity value lotGuid runId)
      db g db') : g = host.generateGuid db.drawn ∧ db'.drawn = db.drawn + 1 := by
  simp only [createSubSplit, generateGuid, tagGeneratedSubSplit, completes_bind, completes_get,
    completes_set, completes_createSplit, completes_createSlot, completes_pure] at h
  obtain ⟨_, _, ⟨_, _, ⟨rfl, rfl⟩, _, _, rfl, rfl, rfl⟩, _, _, rfl, _, _, ⟨_, _, rfl, rfl⟩, rfl,
    rfl⟩ := h
  exact ⟨rfl, rfl⟩

theorem carried_createSellSubSplits {sell : Split} {runId : String} {isOversell : Bool}
    {allocs : List Allocation} {usedQtyNum usedValNum : ℤ} {r : List ConsumedShares × ℤ × ℤ}
    (h : Completes (createSellSubSplits host sell runId isOversell allocs usedQtyNum usedValNum)
      db r db') :
    Unpriced db db' ∧ r.1.map ConsumedShares.shares = allocs.map Allocation.shares ∧
      DrawnBetween host db.drawn db'.drawn (r.1.map ConsumedShares.splitGuid) := by
  induction allocs generalizing db usedQtyNum usedValNum r with
  | nil =>
    obtain ⟨rfl, rfl⟩ := completes_pure.1 h
    exact ⟨refl _, rfl, [], rfl, .nil, by simp⟩
  | cons alloc rest ih =>
    simp only [createSellSubSplits, completes_bind] at h
    obtain ⟨subGuid, mid, h₁, r', _, h₂, h₃⟩ := h
    obtain ⟨rfl, rfl⟩ := completes_pure.1 h₃
    obtain ⟨hrest, hshares, hguids⟩ := ih h₂
    obtain ⟨rfl, hdrawn⟩ := createSubSplit_guid h₁
    refine ⟨(unpriced_createSubSplit host _ _ _ _ _ _ _ _ h₁).trans hrest, ?_,
      hguids.cons (by omega) hrest.drawn⟩
    rw [List.map_cons, hshares, List.map_cons]

theorem carried_divideSell {sell : Split} {runId : String} {first : Allocation}
    {rest : List Allocation} {excess : Option ℚ} {r : SplitSellResult}
    (h : Completes (divideSell host sell runId first rest excess) db r db') :
    Carried host sell.guid ((first :: rest).map Allocation.shares).sum r.allocations db db' := by
  simp only [divideSell, completes_bind, completes_get] at h
  obtain ⟨_, _, ⟨rfl, rfl⟩, _, db₁, h₁, _, db₂, h₂, subs, db₃, h₃, remainder, db₄, h₄, _, db₅, h₅,
    h₆⟩ := h
  obtain ⟨rfl, rfl⟩ := completes_pure.1 h₆
  have hbefore : Unpriced _ db₂ :=
    (unpriced_stashOriginal sell runId _ _ _ h₁).trans (unpriced_updateSplit _ _ _ _ _ h₂)
  obtain ⟨hsubs, hshares, hguids⟩ := carried_createSellSubSplits h₃
  have hremainder : Unpriced db₃ db₄ := by
    refine preserves_ite (R := Unpriced) ?_ (preserves_pure _) _ _ _ h₄
    exact (unpriced_createSubSplit host _ _ _ _ _).bind fun _ => preserves_pure _
  have hafter : Unpriced db₃ _ := hremainder.trans (unpriced_assertBalanceKept _ _ _ _ _ h₅)
  refine ⟨(hbefore.trans hsubs).trans hafter, ?_, .inr ⟨_, ?_, rfl⟩⟩
  · simp only [List.map_cons, hshares]
  · obtain ⟨ks, heq, hks, hbounds⟩ := hguids
    refine ⟨ks, heq, hks, fun k hk => ⟨?_, ?_⟩⟩
    · exact hbefore.drawn.trans (hbounds k hk).1
    · exact (hbounds k hk).2.trans_le hafter.drawn

theorem carried_splitSellAcrossLots {g runId : String} {openLots : List OpenLot} {eps : ℚ}
    {r : SplitSellResult}
    (h : Completes (splitSellAcrossLots host g openLots runId eps) db r db') :
    ∃ sell, db.split? g = some sell ∧
      Carried host g (sharesSold eps openLots sell.qty) r.allocations db db' := by
  rw [splitSellAcrossLots, completes_get_bind] at h
  cases hs : db.split? g with
  | none => simp only [hs, completes_throw] at h
  | some sell =>
    refine ⟨sell, rfl, ?_⟩
    obtain ⟨-, rfl⟩ := mem_of_split? hs
    simp only [hs] at h
    unfold sharesSold
    generalize openLots.filter (fun l => eps < l.shares) = lots at h ⊢
    by_cases hzero : |sell.qty| < eps
    · rw [if_pos hzero] at h
      obtain ⟨rfl, rfl⟩ := completes_pure.1 h
      refine ⟨refl _, ?_, .inl rfl⟩
      cases lots with
      | nil => rfl
      | cons lot lots => rw [allocate, if_pos hzero]; rfl
    rw [if_neg hzero] at h
    generalize allocate eps lots |sell.qty| = result at h ⊢
    obtain ⟨allocs, leftToSell⟩ := result
    cases allocs with
    | nil =>
      obtain ⟨rfl, rfl⟩ := completes_pure.1 h
      exact ⟨refl _, rfl, .inl rfl⟩
    | cons first rest =>
      dsimp only at h ⊢
      by_cases hfits : rest = [] ∧ ¬eps < leftToSell
      · rw [if_pos hfits] at h
        obtain ⟨_, mid, h₁, h₂⟩ := completes_bind.1 h
        obtain ⟨rfl, rfl⟩ := completes_pure.1 h₂
        refine ⟨unpriced_updateSplit _ _ _ _ _ h₁, by rw [hfits.1]; rfl, .inr ⟨[], ?_, rfl⟩⟩
        exact ⟨[], rfl, .nil, by simp⟩
      · rw [if_neg hfits] at h
        exact carried_divideSell h

end Lots
