import GnucashWeb.Inventory.Fulfilment
import Mathlib.Data.List.Forall2

/-!
# Stock is never negative

What an operation does to stock is a list of deltas (`Moves`), one lemma for each operation.  An
operation that checked every delta against the stock before it keeps every item at every location
above the tolerance (`Stocked`), and so does every sequence of operations (`runAll_stocked`).
-/

open Transact
open Business (Host)

namespace Inventory

/-! ## Deltas -/

/-- A change of the stock of an item at a location. -/
structure Delta where
  itemId : ℕ
  locationId : ℕ
  quantity : ℚ

def deltaSum (deltas : List Delta) (itemId locationId : ℕ) : ℚ :=
  ((deltas.filter fun d => d.itemId = itemId ∧ d.locationId = locationId).map Delta.quantity).sum

@[simp] theorem deltaSum_nil (i l : ℕ) : deltaSum [] i l = 0 := rfl

theorem deltaSum_cons (d : Delta) (deltas : List Delta) (i l : ℕ) :
    deltaSum (d :: deltas) i l =
      (if d.itemId = i ∧ d.locationId = l then d.quantity else 0) + deltaSum deltas i l := by
  unfold deltaSum
  rw [List.filter_cons]
  split <;> simp_all

theorem deltaSum_append (deltas more : List Delta) (i l : ℕ) :
    deltaSum (deltas ++ more) i l = deltaSum deltas i l + deltaSum more i l := by
  simp [deltaSum]

theorem deltaSum_eq_zero {deltas : List Delta} {i l : ℕ}
    (h : ∀ d ∈ deltas, ¬(d.itemId = i ∧ d.locationId = l)) : deltaSum deltas i l = 0 := by
  unfold deltaSum
  rw [List.filter_eq_nil_iff.2 fun d hd => by simpa using h d hd]
  rfl

theorem deltaSum_of_nodup {deltas : List Delta} (hnodup : (deltas.map Delta.itemId).Nodup)
    {d : Delta} (hd : d ∈ deltas) : deltaSum deltas d.itemId d.locationId = d.quantity := by
  induction deltas with
  | nil => simp at hd
  | cons e rest ih =>
    obtain ⟨hnew, hrest⟩ := List.nodup_cons.1 hnodup
    rw [deltaSum_cons]
    rcases List.mem_cons.1 hd with rfl | hd
    · rw [if_pos ⟨rfl, rfl⟩, deltaSum_eq_zero, add_zero]
      rintro e he ⟨hitem, -⟩
      exact hnew (hitem ▸ List.mem_map_of_mem he)
    · rw [if_neg, ih hrest hd, zero_add]
      rintro ⟨hitem, -⟩
      exact hnew (hitem ▸ List.mem_map_of_mem hd)

/-- The stock changes by the deltas, and the items keep their ids, books and labels. -/
def Moves (deltas : List Delta) (db db' : Db) : Prop :=
  ∀ i l, db'.onHand i l = db.onHand i l + deltaSum deltas i l

theorem moves_of_movements_eq {db db' : Db} (h : db'.movements = db.movements) :
    Moves [] db db' := by
  intro i l
  simp [Db.onHand, h]

theorem Moves.trans {deltas more : List Delta} {db db₁ db' : Db} (h₁ : Moves deltas db db₁)
    (h₂ : Moves more db₁ db') : Moves (deltas ++ more) db db' := by
  intro i l
  rw [h₂, h₁, deltaSum_append, add_assoc]

def MovementInsert.delta (m : MovementInsert) : Delta := ⟨m.itemId, m.locationId, m.quantity⟩

/-- The quantities moved at the items and locations that satisfy a predicate. -/
def quantityWhere (p : ℕ → ℕ → Bool) (db : Db) : ℚ :=
  ((db.movements.filter fun m => p m.itemId m.locationId).map Movement.quantity).sum

theorem quantityWhere_insertMovement {m : MovementInsert} {db db' : Db} {r : Movement}
    (h : Completes (insertMovement m.row) db r db') (p : ℕ → ℕ → Bool) :
    quantityWhere p db' =
      quantityWhere p db + if p m.itemId m.locationId then m.quantity else 0 := by
  obtain ⟨-, rfl⟩ := completes_insertMovement.1 h
  simp only [quantityWhere, List.filter_append, List.map_append, List.sum_append]
  congr 1
  by_cases hp : p m.itemId m.locationId
  · simp [MovementInsert.row, hp]
  · rw [if_neg hp, List.filter_eq_nil_iff.2 (by simpa [MovementInsert.row] using hp)]
    rfl

theorem quantityWhere_setCounterpart {id counterpart : ℕ} {db db' : Db} {u : Unit}
    (h : Completes (setCounterpart id counterpart) db u db') (p : ℕ → ℕ → Bool) :
    quantityWhere p db' = quantityWhere p db := by
  obtain rfl := completes_setCounterpart.1 h
  simp only [quantityWhere, List.filter_map, List.map_map]
  congr 1
  have hfilter : (fun m : Movement => p m.itemId m.locationId) ∘
      (fun m => if m.id = id then { m with counterpartMovementId := some counterpart } else m) =
        fun m => p m.itemId m.locationId := by
    funext m
    dsimp only [Function.comp]
    split <;> rfl
  rw [hfilter]
  apply List.map_congr_left
  intro m _
  dsimp only [Function.comp]
  split <;> rfl

theorem moves_insertMovement {m : MovementInsert} {db db' : Db} {r : Movement}
    (h : Completes (insertMovement m.row) db r db') : Moves [m.delta] db db' := by
  intro i l
  rw [deltaSum_cons, deltaSum_nil, add_zero]
  refine (quantityWhere_insertMovement h fun i' l' => i' = i ∧ l' = l).trans ?_
  congr 1
  exact if_congr (by simp [MovementInsert.delta]) rfl rfl

theorem moves_setCounterpart {id counterpart : ℕ} {db db' : Db} {u : Unit}
    (h : Completes (setCounterpart id counterpart) db u db') : Moves [] db db' := by
  intro i l
  rw [deltaSum_nil, add_zero]
  exact quantityWhere_setCounterpart h fun i' l' => i' = i ∧ l' = l

/-! ## Postings move no stock -/

section Postings

variable {R : Db → Db → Prop} [IsPreorder Db R] {host : Host}

theorem preserves_liftExcept {α : Type} (x : Except Failure α) : Preserves R (liftM x : Tx α) := by
  intro db a db' h
  obtain ⟨-, rfl⟩ := completes_liftExcept.1 h
  exact refl _

theorem preserves_checked {date description : String} {splits : List SplitSpec}
    (hwrite : Preserves R (writeLedgerTxn host date description splits))
    (x y : Db → Except Failure Unit) : Preserves R (do
      let db ← get
      liftM (x db)
      liftM (y db)
      writeLedgerTxn host date description splits : Tx (Option String)) :=
  preserves_get.bind fun _ => (preserves_liftExcept _).bind fun _ =>
    (preserves_liftExcept _).bind fun _ => hwrite

variable (hwrite : ∀ date description splits,
  Preserves R (writeLedgerTxn host date description splits))

include hwrite

theorem preserves_maybePostCogs (item : Item) (bookGuid : String) (positiveQty : ℚ) (date : String)
    (post : Option Bool) (reference : Option String) (unitCost : ℚ) :
    Preserves R (maybePostCogs host item bookGuid positiveQty date post reference unitCost) := by
  unfold maybePostCogs
  apply preserves_ite
  · exact preserves_pure _
  · split
    · exact preserves_checked (hwrite _ _ _) _ _
    · exact preserves_throw _

theorem preserves_maybePostReturn (item : Item) (bookGuid : String) (positiveQty : ℚ)
    (date : String) (post : Option Bool) (reference : Option String) (unitCost : ℚ)
    (estimatedBasis : Bool) :
    Preserves R (maybePostReturn host item bookGuid positiveQty date post reference unitCost
      estimatedBasis) := by
  unfold maybePostReturn
  apply preserves_ite
  · exact preserves_pure _
  · split
    · exact preserves_checked (hwrite _ _ _) _ _
    · exact preserves_throw _

end Postings

def SameStock (db db' : Db) : Prop := ∃ ledger, db' = { db with ledger := ledger }

instance : IsPreorder Db SameStock where
  refl db := ⟨db.ledger, rfl⟩
  trans := by
    rintro db _ _ ⟨_, rfl⟩ ⟨ledger, rfl⟩
    exact ⟨ledger, rfl⟩

theorem preserves_onLedger {α : Type} (m : Business.Tx α) : Preserves SameStock (onLedger m) := by
  intro db a db' h
  obtain ⟨ledger, -, rfl⟩ := completes_onLedger.1 h
  exact ⟨ledger, rfl⟩

theorem sameStock_writeLedgerTxn (host : Host) (date description : String)
    (splits : List SplitSpec) : Preserves SameStock (writeLedgerTxn host date description splits) := by
  unfold writeLedgerTxn
  refine preserves_get.bind fun db => (preserves_liftExcept _).bind fun first =>
    (preserves_liftExcept _).bind fun _ => (preserves_liftExcept _).bind fun currency => ?_
  apply preserves_ite
  · exact preserves_pure _
  · exact (preserves_liftExcept _).bind fun _ => (preserves_onLedger _).bind fun _ =>
      (preserves_onLedger _).bind fun _ => (preserves_onLedger _).bind fun _ =>
        (preserves_onLedger _).bind fun _ => preserves_pure _

theorem sameStock_maybePostCogs (host : Host) (item : Item) (bookGuid : String) (positiveQty : ℚ)
    (date : String) (post : Option Bool) (reference : Option String) (unitCost : ℚ) :
    Preserves SameStock
      (maybePostCogs host item bookGuid positiveQty date post reference unitCost) :=
  preserves_maybePostCogs (sameStock_writeLedgerTxn host) _ _ _ _ _ _ _

theorem sameStock_maybePostReturn (host : Host) (item : Item) (bookGuid : String) (positiveQty : ℚ)
    (date : String) (post : Option Bool) (reference : Option String) (unitCost : ℚ)
    (estimatedBasis : Bool) :
    Preserves SameStock
      (maybePostReturn host item bookGuid positiveQty date post reference unitCost
        estimatedBasis) :=
  preserves_maybePostReturn (sameStock_writeLedgerTxn host) _ _ _ _ _ _ _ _

theorem sameStock_postReceive (host : Host) (input : ReceiveInput) (item : Item) (date : String) :
    Preserves SameStock (postReceive host input item date) := by
  unfold postReceive
  apply preserves_ite
  · exact preserves_pure _
  · split
    · exact preserves_checked (sameStock_writeLedgerTxn host _ _ _) _ _
    · exact preserves_throw _
    · exact preserves_throw _

theorem sameStock_postAssembly (host : Host) (input : AssembleInput) (bom : Bom) (output : Item)
    (date reference : String) (plan : AssemblyPlan) :
    Preserves SameStock (postAssembly host input bom output date reference plan) := by
  unfold postAssembly
  refine preserves_get.bind fun db => ?_
  split
  · apply preserves_ite
    · exact (preserves_liftExcept _).bind fun _ =>
        (preserves_forM fun _ _ => preserves_liftExcept _).bind fun _ =>
          sameStock_writeLedgerTxn _ _ _ _
    · exact preserves_pure _
  · exact preserves_pure _

theorem SameStock.moves {db db' : Db} (h : SameStock db db') : Moves [] db db' := by
  obtain ⟨ledger, rfl⟩ := h
  exact moves_of_movements_eq rfl

theorem moves_storeAvgCost {item : Item} {newAvg : ℚ} {db db' : Db} {u : Unit}
    (h : Completes (storeAvgCost item newAvg) db u db') : Moves [] db db' := by
  rcases completes_onlyIf.1 h with ⟨-, h⟩ | ⟨-, rfl⟩
  · obtain rfl := completes_updateItemAvgCost.1 h
    exact moves_of_movements_eq rfl
  · exact moves_of_movements_eq rfl

/-! ## What each operation moves -/

theorem id_of_lockItem {db : Db} {bookGuid : String} {itemId : ℕ} {item : Item}
    (h : db.lockItem bookGuid itemId = .ok item) : item.id = itemId := by
  simp only [Db.lockItem, except_bind_eq_ok, found_eq_ok, pure, Except.pure, Except.ok.injEq] at h
  obtain ⟨_, hfind, _, -, rfl⟩ := h
  have := List.find?_some hfind
  simp_all

theorem id_of_lockedItem {db : Db} {bookGuid : String} {itemId : ℕ} {item : Item}
    (h : db.lockedItem bookGuid itemId = .ok item) : item.id = itemId := by
  have := List.find?_some (found_eq_ok.1 h)
  simp_all

section Operations

variable {host : Host} {db db' : Db}

theorem moves_receiveStock {input : ReceiveInput} {r : MovementResult}
    (h : Completes (receiveStock host input) db r db') :
    Moves [⟨input.itemId, input.locationId, input.quantity⟩] db db' ∧ 0 < input.quantity := by
  unfold receiveStock at h
  simp only [completes_bind, completes_liftExcept, ofCost_eq_ok] at h
  obtain ⟨signedQty, _, ⟨hsigned, rfl⟩, date, _, ⟨-, rfl⟩, _, _, ⟨-, rfl⟩, _, _, ⟨-, rfl⟩, _, _,
    ⟨-, rfl⟩, _, _, hget, item, _, ⟨hitem, rfl⟩, _, _, ⟨-, rfl⟩, txnGuid, db₁, hpost, _, db₂, havg,
    movement, db₃, hinsert, hresult⟩ := h
  obtain ⟨-, rfl⟩ := completes_pure.1 hresult
  obtain ⟨rfl, rfl⟩ := completes_get.1 hget
  have hmoves := ((sameStock_postReceive _ _ _ _ _ _ _ hpost).moves.trans
    (moves_storeAvgCost havg)).trans (moves_insertMovement hinsert)
  unfold signedQuantityForType at hsigned
  simp only [MovementType.sign, one_ne_zero, if_false, one_mul] at hsigned
  split at hsigned
  · cases hsigned
  · next hpos =>
      cases hsigned
      rw [← id_of_lockItem hitem]
      exact ⟨hmoves, epsilon_pos.trans (not_le.1 hpos)⟩

theorem moves_shipStock {input : ShipInput} {r : MovementResult}
    (h : Completes (shipStock host input) db r db') :
    Moves [⟨input.itemId, input.locationId, -input.quantity⟩] db db' ∧
      -epsilon ≤ db.onHand input.itemId input.locationId + -input.quantity := by
  unfold shipStock at h
  simp only [completes_bind, completes_liftExcept, ofCost_eq_ok] at h
  obtain ⟨signedQty, _, ⟨hsigned, rfl⟩, date, _, ⟨-, rfl⟩, _, _, hget, item, _, ⟨hitem, rfl⟩, _, _,
    ⟨-, rfl⟩, _, _, ⟨hstock, rfl⟩, cost, _, ⟨-, rfl⟩, txnGuid, db₁, hpost, movement, db₂, hinsert,
    hresult⟩ := h
  obtain ⟨-, rfl⟩ := completes_pure.1 hresult
  obtain ⟨rfl, rfl⟩ := completes_get.1 hget
  have hmoves := (sameStock_maybePostCogs _ _ _ _ _ _ _ _ _ _ _ hpost).moves.trans
    (moves_insertMovement hinsert)
  unfold signedQuantityForType at hsigned
  simp only [MovementType.sign, neg_eq_zero, one_ne_zero, if_false, neg_mul, one_mul] at hsigned
  split at hsigned
  · cases hsigned
  · cases hsigned
    rw [← id_of_lockItem hitem]
    exact ⟨hmoves, assertSufficientStock_eq_ok.1 hstock⟩

theorem moves_adjustStock {input : AdjustInput} {r : MovementResult}
    (h : Completes (adjustStock host input) db r db') :
    Moves [⟨input.itemId, input.locationId, input.quantity⟩] db db' ∧
      (0 ≤ input.quantity ∨
        -epsilon ≤ db.onHand input.itemId input.locationId + input.quantity) := by
  unfold adjustStock at h
  simp only [completes_bind, completes_liftExcept, ofCost_eq_ok, completes_ite] at h
  obtain ⟨signedQty, _, ⟨hsigned, rfl⟩, date, _, ⟨-, rfl⟩, _, _, ⟨-, rfl⟩, _, _, hget, item, _,
    ⟨hitem, rfl⟩, _, _, ⟨-, rfl⟩, h⟩ := h
  obtain ⟨rfl, rfl⟩ := completes_get.1 hget
  have hq : signedQty = input.quantity := by
    unfold signedQuantityForType at hsigned
    simp only [MovementType.sign, if_true] at hsigned
    split at hsigned <;> cases hsigned
    rfl
  subst hq
  rw [← id_of_lockItem hitem]
  rcases h with ⟨-, _, _, ⟨hstock, rfl⟩, _, db₁, havg, _, _, ⟨-, rfl⟩, _, _, hinsert, hresult⟩ |
    ⟨hnonneg, _, db₁, havg, _, _, ⟨-, rfl⟩, _, _, hinsert, hresult⟩
  · obtain ⟨-, rfl⟩ := completes_pure.1 hresult
    exact ⟨(moves_storeAvgCost havg).trans (moves_insertMovement hinsert),
      Or.inr (assertSufficientStock_eq_ok.1 hstock)⟩
  · obtain ⟨-, rfl⟩ := completes_pure.1 hresult
    exact ⟨(moves_storeAvgCost havg).trans (moves_insertMovement hinsert),
      Or.inl (not_lt.1 hnonneg)⟩

theorem transferStock_inserts {input : TransferInput} {r : TransferResult}
    (h : Completes (transferStock host input) db r db') :
    ∃ out inn : MovementInsert, ∃ outRow innRow db₁ db₂ u,
      out.delta = ⟨input.itemId, input.fromLocationId, -input.quantity⟩ ∧
      inn.delta = ⟨input.itemId, input.toLocationId, input.quantity⟩ ∧
      Completes (insertMovement out.row) db outRow db₁ ∧
      Completes (insertMovement inn.row) db₁ innRow db₂ ∧
      Completes (setCounterpart outRow.id innRow.id) db₂ u db' ∧
      input.fromLocationId ≠ input.toLocationId ∧ 0 < input.quantity ∧
      -epsilon ≤ db.onHand input.itemId input.fromLocationId + -input.quantity := by
  unfold transferStock at h
  simp only [completes_bind, completes_liftExcept, ofCost_eq_ok, require_eq_ok] at h
  obtain ⟨_, _, ⟨hne, rfl⟩, _, _, ⟨hpos, rfl⟩, date, _, ⟨-, rfl⟩, _, _, hget, item, _, ⟨hitem, rfl⟩,
    _, _, ⟨-, rfl⟩, _, _, ⟨-, rfl⟩, _, _, ⟨hstock, rfl⟩, out, db₁, hout, inn, db₂, hin, _, db₃,
    hset, hresult⟩ := h
  obtain ⟨-, rfl⟩ := completes_pure.1 hresult
  obtain ⟨rfl, rfl⟩ := completes_get.1 hget
  rw [← id_of_lockItem hitem]
  exact ⟨_, _, out, inn, db₁, db₂, _, rfl, rfl, hout, hin, hset, hne, hpos,
    assertSufficientStock_eq_ok.1 hstock⟩

theorem moves_transferStock {input : TransferInput} {r : TransferResult}
    (h : Completes (transferStock host input) db r db') :
    Moves [⟨input.itemId, input.fromLocationId, -input.quantity⟩,
      ⟨input.itemId, input.toLocationId, input.quantity⟩] db db' ∧
      input.fromLocationId ≠ input.toLocationId ∧ 0 < input.quantity ∧
      -epsilon ≤ db.onHand input.itemId input.fromLocationId + -input.quantity := by
  obtain ⟨out, inn, _, _, _, _, _, hout, hinn, h₁, h₂, h₃, hne, hpos, hstock⟩ :=
    transferStock_inserts h
  have hmoves := ((moves_insertMovement h₁).trans (moves_insertMovement h₂)).trans
    (moves_setCounterpart h₃)
  rw [hout, hinn] at hmoves
  exact ⟨hmoves, hne, hpos, hstock⟩

theorem onHandTotal_transferStock {input : TransferInput} {r : TransferResult}
    (h : Completes (transferStock host input) db r db') (itemId : ℕ) :
    db'.onHandTotal itemId = db.onHandTotal itemId := by
  obtain ⟨out, inn, _, _, _, _, _, hout, hinn, h₁, h₂, h₃, -⟩ := transferStock_inserts h
  simp only [MovementInsert.delta, Delta.mk.injEq] at hout hinn
  let p : ℕ → ℕ → Bool := fun i _ => i = itemId
  calc db'.onHandTotal itemId = quantityWhere p db' := rfl
    _ = quantityWhere p db + (if p out.itemId out.locationId then out.quantity else 0) +
          if p inn.itemId inn.locationId then inn.quantity else 0 := by
        rw [quantityWhere_setCounterpart h₃, quantityWhere_insertMovement h₂,
          quantityWhere_insertMovement h₁]
    _ = quantityWhere p db := by
        rw [hout.1, hout.2.2, hinn.1, hinn.2.2]
        split <;> simp_all [p]

def FulfillmentAllocation.shipped (a : FulfillmentAllocation) : Delta :=
  ⟨a.itemId, a.locationId, -a.quantity⟩

def FulfillmentAllocation.returned (a : FulfillmentAllocation) : Delta :=
  ⟨a.itemId, a.locationId, a.quantity⟩

theorem deltaSum_shipped (allocations : List FulfillmentAllocation) (i l : ℕ) :
    deltaSum (allocations.map FulfillmentAllocation.shipped) i l = -demand allocations i l := by
  induction allocations with
  | nil => rfl
  | cons a rest ih =>
    rw [List.map_cons, deltaSum_cons, ih]
    unfold demand
    by_cases hm : a.itemId = i ∧ a.locationId = l
    · rw [if_pos (show a.shipped.itemId = i ∧ a.shipped.locationId = l from hm),
        List.filter_cons_of_pos (by simpa using hm), List.map_cons, List.sum_cons, neg_add]
      rfl
    · rw [if_neg (show ¬(a.shipped.itemId = i ∧ a.shipped.locationId = l) from hm),
        List.filter_cons_of_neg (by simpa using hm), zero_add]

theorem moves_shipAllocation {input : FulfillInput} {date reference : String}
    {a : FulfillmentAllocation} {r : Movement}
    (h : Completes (shipAllocation host input date reference a) db r db') :
    Moves [a.shipped] db db' := by
  unfold shipAllocation at h
  simp only [completes_bind, completes_liftExcept] at h
  obtain ⟨_, _, hget, item, _, ⟨hitem, rfl⟩, cost, _, ⟨-, rfl⟩, txnGuid, db₁, hpost, hinsert⟩ := h
  obtain ⟨rfl, rfl⟩ := completes_get.1 hget
  have hmoves := (sameStock_maybePostCogs _ _ _ _ _ _ _ _ _ _ _ hpost).moves.trans
    (moves_insertMovement hinsert)
  rw [FulfillmentAllocation.shipped, ← id_of_lockedItem hitem]
  exact hmoves

theorem moves_returnAllocation {input : FulfillInput} {date reference : String}
    {a : FulfillmentAllocation} {r : Movement × Option (String × ℚ)}
    (h : Completes (returnAllocation host input date reference a) db r db') :
    Moves [a.returned] db db' := by
  unfold returnAllocation at h
  simp only [completes_bind, completes_liftExcept] at h
  obtain ⟨_, _, hget, item, _, ⟨hitem, rfl⟩, txnGuid, db₁, hpost, _, db₂, havg, movement, db₃,
    hinsert, hresult⟩ := h
  obtain ⟨-, rfl⟩ := completes_pure.1 hresult
  obtain ⟨rfl, rfl⟩ := completes_get.1 hget
  have hmoves := ((sameStock_maybePostReturn _ _ _ _ _ _ _ _ _ _ _ _ hpost).moves.trans
    (moves_storeAvgCost havg)).trans (moves_insertMovement hinsert)
  rw [FulfillmentAllocation.returned, ← id_of_lockedItem hitem]
  exact hmoves

theorem moves_mapM {α β : Type} {f : α → Tx β} {delta : α → Delta}
    (hf : ∀ a db b db', Completes (f a) db b db' → Moves [delta a] db db') {l : List α}
    {bs : List β} (h : Completes (l.mapM f) db bs db') : Moves (l.map delta) db db' := by
  refine h.mapM_induction (R := fun l s t => Moves (l.map delta) s t)
    (fun s => moves_of_movements_eq rfl) ?_
  intro a l b s t u hab hl
  exact (hf a s b t hab).trans hl

theorem moves_fulfilLocked {input : FulfillInput} {date id : String} {r : FulfillResult}
    (h : Completes (fulfilLocked host input date id) db r db') :
    Moves (input.allocations.map FulfillmentAllocation.shipped) db db' ∧
      ∀ a ∈ input.allocations, -epsilon ≤ db.onHand a.itemId a.locationId +
        -demand input.allocations a.itemId a.locationId := by
  unfold fulfilLocked at h
  rw [completes_get_bind] at h
  simp only [completes_bind, completes_liftExcept] at h
  obtain ⟨_, _, ⟨-, rfl⟩, _, db₁, hlocations, _, _, ⟨-, rfl⟩, _, _, ⟨hdemand, rfl⟩, movements, db₂,
    hship, hresult⟩ := h
  obtain ⟨-, rfl⟩ := completes_pure.1 hresult
  rw [hlocations.forM_checks] at hship
  refine ⟨moves_mapM (fun _ _ _ _ => moves_shipAllocation) hship, ?_⟩
  intro a ha
  have hcheck := check_of_forM_eq_ok hdemand a ha
  obtain ⟨item, -, hcheck⟩ := except_bind_eq_ok.1 hcheck
  exact assertSufficientStock_eq_ok.1 (ofCost_eq_ok.1 hcheck)

theorem moves_fulfillInvoiceLines {input : FulfillInput} {r : FulfillResult}
    (h : Completes (fulfillInvoiceLines host input) db r db') :
    Moves (input.allocations.map FulfillmentAllocation.shipped) db db' ∧
      ∀ a ∈ input.allocations, -epsilon ≤ db.onHand a.itemId a.locationId +
        -demand input.allocations a.itemId a.locationId := by
  unfold fulfillInvoiceLines at h
  simp only [completes_bind, completes_liftExcept] at h
  obtain ⟨date, _, ⟨-, rfl⟩, _, _, hget, id, _, ⟨-, rfl⟩, hlocked⟩ := h
  obtain ⟨rfl, rfl⟩ := completes_get.1 hget
  exact moves_fulfilLocked hlocked

theorem moves_returnLocked {input : FulfillInput} {date id : String} {r : FulfillResult}
    (h : Completes (returnLocked host input date id) db r db') :
    Moves (input.allocations.map FulfillmentAllocation.returned) db db' := by
  unfold returnLocked at h
  rw [completes_get_bind] at h
  simp only [completes_bind, completes_liftExcept] at h
  obtain ⟨_, _, ⟨-, rfl⟩, _, db₁, hlocations, returned, db₂, hreturn, hresult⟩ := h
  obtain ⟨-, rfl⟩ := completes_pure.1 hresult
  rw [hlocations.forM_checks] at hreturn
  exact moves_mapM (fun _ _ _ _ => moves_returnAllocation) hreturn

theorem quantity_pos_of_checks {allocations : List FulfillmentAllocation}
    {known : FulfillmentAllocation → Prop} [DecidablePred known]
    {unknown : FulfillmentAllocation → Failure} {u : Unit}
    (h : (allocations.forM fun a => do
      require (a.entryGuid ≠ "") .entryRequired
      require (known a) (unknown a)
      require (0 < a.quantity) .allocationNotPositive) = .ok u) :
    ∀ a ∈ allocations, 0 < a.quantity := by
  intro a ha
  have hcheck := check_of_forM_eq_ok h a ha
  simp only [except_bind_eq_ok, require_eq_ok] at hcheck
  obtain ⟨-, -, -, -, hpos⟩ := hcheck
  exact hpos

theorem quantity_pos_of_validateReturn {allocations : List FulfillmentAllocation}
    {fulfilledByEntry : String → Option ℚ} {u : Unit}
    (h : validateReturnAllocations allocations fulfilledByEntry = .ok u) :
    ∀ a ∈ allocations, 0 < a.quantity := by
  simp only [validateReturnAllocations, except_bind_eq_ok] at h
  obtain ⟨_, -, _, heach, -⟩ := h
  exact quantity_pos_of_checks heach

theorem moves_returnToStock {input : FulfillInput} {r : FulfillResult}
    (h : Completes (returnToStock host input) db r db') :
    Moves (input.allocations.map FulfillmentAllocation.returned) db db' ∧
      ∀ a ∈ input.allocations, 0 < a.quantity := by
  unfold returnToStock at h
  simp only [completes_bind, completes_liftExcept] at h
  obtain ⟨date, _, ⟨-, rfl⟩, _, _, hget, id, _, ⟨hprepare, rfl⟩, hlocked⟩ := h
  obtain ⟨rfl, rfl⟩ := completes_get.1 hget
  refine ⟨moves_returnLocked hlocked, ?_⟩
  simp only [prepareReturn, except_bind_eq_ok] at hprepare
  obtain ⟨_, -, _, hvalid, -⟩ := hprepare
  exact quantity_pos_of_validateReturn hvalid

/-! ## Assembling -/

/-- What an assembly takes of a component at its location. -/
def Consumption.delta (locationId : ℕ) (c : Consumption) : Delta :=
  ⟨c.itemId, locationId, c.quantity⟩

theorem moves_consumeOne {input : AssembleInput} {date reference : String}
    {txnGuid : Option String} {c : Consumption} {r : Movement}
    (h : Completes (consumeOne input date reference txnGuid c) db r db') :
    Moves [c.delta input.locationId] db db' := by
  unfold consumeOne at h
  simp only [completes_bind, completes_liftExcept] at h
  obtain ⟨_, _, hget, component, _, ⟨-, rfl⟩, hinsert⟩ := h
  obtain ⟨rfl, rfl⟩ := completes_get.1 hget
  exact moves_insertMovement hinsert

/-- A line and what the assembly consumes for it: the same item, and no more than its stock. -/
def Covers (db : Db) (locationId : ℕ) (line : BomLine) (c : Consumption) : Prop :=
  c.itemId = line.componentItemId ∧ -epsilon ≤ db.onHand c.itemId locationId + c.quantity

theorem itemId_of_componentSpec {input : AssembleInput} {line : BomLine}
    {spec : AssemblyComponentSpec} (h : db.componentSpec input line = .ok spec) :
    spec.itemId = line.componentItemId ∧
      spec.onHandAtLocation = db.onHand spec.itemId input.locationId := by
  unfold Db.componentSpec at h
  obtain ⟨component, hcomponent, h⟩ := except_bind_eq_ok.1 h
  have hid := id_of_lockedItem hcomponent
  dsimp only at h
  generalize (if 0 < input.batches then line.quantity * input.batches else 0) = consumedQty at h
  split at h <;> obtain ⟨_, -, h⟩ := except_bind_eq_ok.1 h <;> cases h <;> exact ⟨hid, rfl⟩

theorem covers_of_consumeComponent {input : AssembleInput} {line : BomLine}
    {spec : AssemblyComponentSpec} {c : Consumption}
    (hspec : db.componentSpec input line = .ok spec)
    (hc : consumeComponent input.batches spec = .ok c) : Covers db input.locationId line c := by
  obtain ⟨hitem, honHand⟩ := itemId_of_componentSpec hspec
  unfold consumeComponent at hc
  split at hc
  · cases hc
  · simp only [except_bind_eq_ok, pure, Except.pure, Except.ok.injEq] at hc
    obtain ⟨_, hstock, rfl⟩ := hc
    rw [honHand] at hstock
    exact ⟨hitem, assertSufficientStock_eq_ok.1 hstock⟩

theorem forall₂_covers {input : AssembleInput} {lines : List BomLine}
    {specs : List AssemblyComponentSpec} {consumptions : List Consumption}
    (h₁ : List.Forall₂ (fun line spec => db.componentSpec input line = .ok spec) lines specs)
    (h₂ : List.Forall₂ (fun spec c => consumeComponent input.batches spec = .ok c) specs
      consumptions) : List.Forall₂ (Covers db input.locationId) lines consumptions := by
  induction h₁ generalizing consumptions with
  | nil =>
    cases h₂
    exact List.Forall₂.nil
  | cons hline _ ih =>
    cases h₂ with
    | cons hc hrest => exact List.Forall₂.cons (covers_of_consumeComponent hline hc) (ih hrest)

theorem map_itemId_of_covers {locationId : ℕ} {lines : List BomLine}
    {consumptions : List Consumption}
    (h : List.Forall₂ (Covers db locationId) lines consumptions) :
    consumptions.map Consumption.itemId = lines.map BomLine.componentItemId := by
  induction h with
  | nil => rfl
  | cons hc _ ih => rw [List.map_cons, List.map_cons, hc.1, ih]

theorem stock_of_covers {locationId : ℕ} {lines : List BomLine} {consumptions : List Consumption}
    (h : List.Forall₂ (Covers db locationId) lines consumptions) :
    ∀ c ∈ consumptions, -epsilon ≤ db.onHand c.itemId locationId + c.quantity := by
  induction h with
  | nil => simp
  | cons hc _ ih =>
    intro c hmem
    rcases List.mem_cons.1 hmem with rfl | hmem
    · exact hc.2
    · exact ih c hmem

/-- Each line of the bill is consumed from the stock there is, and something is produced. -/
theorem plan_of_computeAssemblyCost {input : AssembleInput} {lines : List BomLine}
    {specs : List AssemblyComponentSpec} {outputQuantity : ℚ} {plan : AssemblyPlan}
    (hspecs : lines.mapM (db.componentSpec input) = .ok specs)
    (h : computeAssemblyCost specs input.batches outputQuantity = .ok plan) :
    List.Forall₂ (Covers db input.locationId) lines plan.consumptions ∧
      0 < plan.producedQuantity := by
  unfold computeAssemblyCost at h
  split at h
  · cases h
  split at h
  · cases h
  split at h
  · cases h
  next hbatches houtput _ =>
  simp only [except_bind_eq_ok, pure, Except.pure, Except.ok.injEq] at h
  obtain ⟨consumptions, hconsumptions, rfl⟩ := h
  exact ⟨forall₂_covers (forall₂_of_mapM_eq_ok hspecs) (forall₂_of_mapM_eq_ok hconsumptions),
    mul_pos (not_le.1 houtput) (not_le.1 hbatches)⟩

theorem moves_assembleBom {input : AssembleInput} {r : AssembleResult}
    (h : Completes (assembleBom host input) db r db') :
    ∃ (bom : Bom) (consumptions : List Consumption) (produced : ℚ),
      List.Forall₂ (Covers db input.locationId) bom.lines consumptions ∧ 0 < produced ∧
        Moves (consumptions.map (Consumption.delta input.locationId) ++
          [⟨bom.itemId, input.locationId, produced⟩]) db db' := by
  unfold assembleBom at h
  simp only [completes_bind, completes_liftExcept, ofCost_eq_ok] at h
  obtain ⟨date, _, ⟨-, rfl⟩, _, _, hget, bom, _, ⟨-, rfl⟩, _, _, ⟨-, rfl⟩, _, _, ⟨-, rfl⟩, output, _,
    ⟨houtput, rfl⟩, specs, _, ⟨hspecs, rfl⟩, plan, _, ⟨hplan, rfl⟩, txnGuid, db₁, hpost, consumed, db₂,
    hconsume, _, _, hafter, _, db₃, havg, produced, db₄, hinsert, hresult⟩ := h
  obtain ⟨-, rfl⟩ := completes_pure.1 hresult
  obtain ⟨-, rfl⟩ := completes_get.1 hafter
  obtain ⟨rfl, rfl⟩ := completes_get.1 hget
  obtain ⟨hcovers, hpos⟩ := plan_of_computeAssemblyCost hspecs hplan
  refine ⟨bom, plan.consumptions, plan.producedQuantity, hcovers, hpos, ?_⟩
  have hmoves := (((sameStock_postAssembly _ _ _ _ _ _ _ _ _ _ hpost).moves.trans
    (moves_mapM (fun _ _ _ _ => moves_consumeOne) hconsume)).trans
      (moves_storeAvgCost havg)).trans (moves_insertMovement hinsert)
  rw [List.nil_append, List.append_nil, MovementInsert.delta, id_of_lockedItem houtput] at hmoves
  exact hmoves

end Operations

/-! ## Never negative -/

/-- No item is below the tolerance at any location. -/
def Stocked (db : Db) : Prop := ∀ itemId locationId, -epsilon ≤ db.onHand itemId locationId

/-- Deltas that the stock covers at every place they change keep it above the tolerance. -/
theorem Stocked.moves {deltas : List Delta} {db db' : Db} (hs : Stocked db)
    (hm : Moves deltas db db')
    (h : ∀ d ∈ deltas, -epsilon ≤ db.onHand d.itemId d.locationId +
      deltaSum deltas d.itemId d.locationId) : Stocked db' := by
  intro i l
  rw [hm]
  by_cases hd : ∃ d ∈ deltas, d.itemId = i ∧ d.locationId = l
  · obtain ⟨d, hd, rfl, rfl⟩ := hd
    exact h d hd
  · rw [deltaSum_eq_zero fun d hmem heq => hd ⟨d, hmem, heq⟩, add_zero]
    exact hs i l

theorem deltaSum_nonneg {deltas : List Delta} (h : ∀ d ∈ deltas, 0 ≤ d.quantity) (i l : ℕ) :
    0 ≤ deltaSum deltas i l := by
  induction deltas with
  | nil => exact le_rfl
  | cons d rest ih =>
    rw [deltaSum_cons]
    have hrest := ih fun e he => h e (List.mem_cons_of_mem _ he)
    have hd := h d (by simp)
    split <;> linarith

theorem Stocked.moves_nonneg {deltas : List Delta} {db db' : Db} (hs : Stocked db)
    (hm : Moves deltas db db') (h : ∀ d ∈ deltas, 0 ≤ d.quantity) : Stocked db' := by
  apply hs.moves hm
  intro d _
  have := hs d.itemId d.locationId
  have := deltaSum_nonneg h d.itemId d.locationId
  linarith

section Steps

variable {host : Host} {db db' : Db}

theorem stocked_transferStock {input : TransferInput} {r : TransferResult} (hs : Stocked db)
    (h : Completes (transferStock host input) db r db') : Stocked db' := by
  obtain ⟨hm, hne, hpos, hstock⟩ := moves_transferStock h
  apply hs.moves hm
  intro d hd
  rcases List.mem_cons.1 hd with rfl | hd
  · simpa [deltaSum_cons, hne.symm] using hstock
  · rw [List.mem_singleton.1 hd]
    have := hs input.itemId input.toLocationId
    simp only [deltaSum_cons, deltaSum_nil, hne, and_false, and_self, if_true, if_false]
    linarith

/-- A bill of material names no component twice, so its lines check all that it consumes. -/
theorem stocked_assembleBom {input : AssembleInput} {r : AssembleResult} (hs : Stocked db)
    (h : Completes (assembleBom host input) db r db') : Stocked db' := by
  obtain ⟨bom, consumptions, produced, hcovers, hpos, hm⟩ := moves_assembleBom h
  have hstock := stock_of_covers hcovers
  have hnodup : ((consumptions.map (Consumption.delta input.locationId)).map
      Delta.itemId).Nodup := by
    rw [List.map_map]
    exact map_itemId_of_covers hcovers ▸ bom.nodup_components
  intro i l
  rw [hm, deltaSum_append]
  have hproduced : 0 ≤ deltaSum [⟨bom.itemId, input.locationId, produced⟩] i l :=
    deltaSum_nonneg (by simpa using hpos.le) i l
  have hconsumed : -epsilon ≤ db.onHand i l +
      deltaSum (consumptions.map (Consumption.delta input.locationId)) i l := by
    by_cases hd : ∃ d ∈ consumptions.map (Consumption.delta input.locationId),
        d.itemId = i ∧ d.locationId = l
    · obtain ⟨d, hd, rfl, rfl⟩ := hd
      rw [deltaSum_of_nodup hnodup hd]
      obtain ⟨c, hc, rfl⟩ := List.mem_map.1 hd
      exact hstock c hc
    · rw [deltaSum_eq_zero fun d hmem heq => hd ⟨d, hmem, heq⟩, add_zero]
      exact hs i l
  linarith

end Steps

/-! ## Sequences of operations -/

inductive Op
  | receive (input : ReceiveInput)
  | ship (input : ShipInput)
  | adjust (input : AdjustInput)
  | transfer (input : TransferInput)
  | assemble (input : AssembleInput)
  | fulfil (input : FulfillInput)
  | returnToStock (input : FulfillInput)

def Op.transaction (host : Host) : Op → Tx Unit
  | .receive input => do let _ ← receiveStock host input
  | .ship input => do let _ ← shipStock host input
  | .adjust input => do let _ ← adjustStock host input
  | .transfer input => do let _ ← transferStock host input
  | .assemble input => do let _ ← assembleBom host input
  | .fulfil input => do let _ ← fulfillInvoiceLines host input
  | .returnToStock input => do let _ ← Inventory.returnToStock host input

/-- The tables after a sequence of operations, each accepted or refused. -/
def runAll (host : Host) (ops : List Op) (db : Db) : Db :=
  ops.foldl (fun db op => attempt (op.transaction host) db) db

theorem stocked_transaction {host : Host} {op : Op} {db db' : Db} {u : Unit} (hs : Stocked db)
    (h : Completes (op.transaction host) db u db') : Stocked db' := by
  cases op <;> obtain ⟨r, _, hr, hend⟩ := completes_bind.1 h <;>
    obtain ⟨-, rfl⟩ := completes_pure.1 hend
  case receive input =>
      obtain ⟨hm, hpos⟩ := moves_receiveStock hr
      exact hs.moves_nonneg hm (by simpa using hpos.le)
  case ship input =>
      obtain ⟨hm, hstock⟩ := moves_shipStock hr
      exact hs.moves hm (by simpa [deltaSum_cons] using hstock)
  case adjust input =>
      obtain ⟨hm, hpos | hstock⟩ := moves_adjustStock hr
      · exact hs.moves_nonneg hm (by simpa using hpos)
      · exact hs.moves hm (by simpa [deltaSum_cons] using hstock)
  case transfer input => exact stocked_transferStock hs hr
  case assemble input => exact stocked_assembleBom hs hr
  case fulfil input =>
      obtain ⟨hm, hstock⟩ := moves_fulfillInvoiceLines hr
      apply hs.moves hm
      intro d hd
      obtain ⟨a, ha, rfl⟩ := List.mem_map.1 hd
      rw [deltaSum_shipped]
      exact hstock a ha
  case returnToStock input =>
      obtain ⟨hm, hpos⟩ := moves_returnToStock hr
      apply hs.moves_nonneg hm
      intro d hd
      obtain ⟨a, ha, rfl⟩ := List.mem_map.1 hd
      exact (hpos a ha).le

theorem stocked_runAll {host : Host} {ops : List Op} {db : Db} (hs : Stocked db) :
    Stocked (runAll host ops db) := by
  induction ops generalizing db with
  | nil => exact hs
  | cons op rest ih =>
    exact ih (attempt_induction hs fun _ _ h => stocked_transaction hs h)

/-- After any operations no stock is below the tolerance; a transfer leaves every total unchanged;
and an operation that throws leaves the tables as they were. -/
theorem stock_never_negative (host : Host) (db : Db) (hs : Stocked db) (ops : List Op) :
    Stocked (runAll host ops db) ∧
      (∀ input r db', Completes (transferStock host input) (runAll host ops db) r db' →
        ∀ itemId, db'.onHandTotal itemId = (runAll host ops db).onHandTotal itemId) ∧
      ∀ op e, op.transaction host (runAll host ops db) = .error e →
        runAll host (ops ++ [op]) db = runAll host ops db := by
  refine ⟨stocked_runAll hs, ?_, ?_⟩
  · intro input r db' h itemId
    exact onHandTotal_transferStock h itemId
  · intro op e h
    rw [runAll, List.foldl_append]
    exact attempt_of_error h

theorem stocked_of_no_movements {db : Db} (h : db.movements = []) : Stocked db := by
  intro i l
  simp [Db.onHand, h, epsilon_pos.le]

/-- A book with one item and two locations, before any movement. -/
def emptyShelves : Db :=
  { ledger := Business.Db.empty
    items := [⟨1, "book", "WIDGET", some "cogs", some "bank", false, 0, .average, true⟩]
    locations := [⟨1, "book", "Front", true⟩, ⟨2, "book", "Back", true⟩]
    movements := [], boms := [], movementSeq := 0 }

/-- Receive five, move two to the back, and try to ship four from the front. -/
def shelfOps : List Op :=
  [.receive ⟨"book", 1, 1, 5, some 2, some "2024-01-01", none, false, none⟩,
    .transfer ⟨"book", 1, 1, 2, 2, some "2024-01-02", none⟩,
    .ship ⟨"book", 1, 1, 4, some "2024-01-03", none, some false, none, none⟩]

theorem stock_never_negative_shelfOps :
    Stocked (runAll Business.plainHost shelfOps emptyShelves) :=
  (stock_never_negative Business.plainHost emptyShelves (stocked_of_no_movements rfl) shelfOps).1

example : (runAll Business.plainHost shelfOps emptyShelves).onHand 1 1 = 3 := by decide +kernel

end Inventory
