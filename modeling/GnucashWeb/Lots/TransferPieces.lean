import GnucashWeb.Lots.SellPieces
import Mathlib.Algebra.Order.BigOperators.Group.List

/-!
# The pieces of a transfer

A transfer-in that came from several lots is left as its own row and the sub-splits created for it,
each in a destination lot of its own that is linked to its source lot.  The numerators of the pieces
add up to those of the transfer, and each piece but the last is its outflow's part of the shares that
came in; when these are all the shares that went out, it is the outflow itself
(`transfer_conserved`).
-/

open Ledger Transact Rows

namespace Lots

def LinkedTo (db : Db) (lotGuid sourceLotGuid : String) : Prop :=
  ⟨lotGuid, sourceLotSlot, some sourceLotGuid⟩ ∈ db.slots

/-- The shares of a transfer that each of its outflows accounts for. -/
def transferShares (db : Db) (split : Split) : List ℚ :=
  (lottedSources db split).map fun s =>
    |s.1.qty| / ((lottedSources db split).map fun s => |s.1.qty|).sum * split.qty

variable {host : Host} {db db' : Db}

/-! ## Links stay -/

/-- The links of lots to their source lots stay. -/
def LinksKept (db db' : Db) : Prop :=
  ∀ r ∈ db.slots, r.name = sourceLotSlot → r ∈ db'.slots

instance : IsPreorder Db LinksKept where
  refl _ := fun _ h _ => h
  trans _ _ _ h h' := fun r hr hname => h' r (h r hr hname) hname

theorem linksKept_of_slots (h : db'.slots = db.slots) : LinksKept db db' := fun _ hr _ => h ▸ hr

theorem linksKept_createSlot (objGuid name value : String) :
    Preserves LinksKept (createSlot objGuid name value) :=
  preserves_modify fun _ _ hr _ => List.mem_append_left _ hr

theorem linksKept_writeCarriedBasisSlot (host : Host) (lotGuid : String) (carriedBasis : Option ℚ) :
    Preserves LinksKept (writeCarriedBasisSlot host lotGuid carriedBasis) := by
  unfold writeCarriedBasisSlot
  refine Preserves.bind (preserves_modify fun db r hr hname => ?_) fun _ =>
    preserves_option_forM fun _ _ => linksKept_createSlot _ _ _
  have hne : r.name ≠ carriedBasisSlot := by
    rw [hname]
    decide
  exact List.mem_filter.2 ⟨hr, by simp [hne]⟩

theorem linksKept_reconcileOutflow (host : Host) (level : TransferLevel) (sourceLotGuid : String)
    (source : SourceLotBasis) (avgBasisByOutflow : String → Option ℚ) (walk : OutflowWalk)
    (outflow : LotOutflow) :
    Preserves LinksKept
      (reconcileOutflow host level sourceLotGuid source avgBasisByOutflow walk outflow) := by
  unfold reconcileOutflow
  dsimp only
  split
  · exact preserves_pure _
  · refine preserves_ite (preserves_pure _) (preserves_get.bind fun db => ?_)
    exact (linksKept_writeCarriedBasisSlot host _ _).bind fun _ => preserves_pure _

theorem linksKept_reconcileSource (host : Host) (level : TransferLevel) (walk : OutflowWalk)
    (sourceLotGuid : String) :
    Preserves LinksKept (reconcileSource host level walk sourceLotGuid) := by
  unfold reconcileSource
  refine preserves_get.bind fun db => preserves_ite ?_ (preserves_pure _)
  split
  · exact preserves_pure _
  · exact preserves_foldlM (fun _ _ _ => linksKept_reconcileOutflow host _ _ _ _ _ _) _

theorem linksKept_reconcileFrom (host : Host) (fuel : ℕ) (visited frontier : List String) :
    Preserves LinksKept (reconcileFrom host fuel visited frontier) := by
  induction fuel generalizing visited frontier with
  | zero => exact preserves_pure _
  | succ fuel ih =>
    unfold reconcileFrom
    refine preserves_ite (preserves_pure _) ?_
    refine Preserves.bind ?_ fun level => (ih _ _).bind fun _ => preserves_pure _
    exact preserves_get.bind fun db =>
      (preserves_foldlM (fun _ _ _ => linksKept_reconcileSource host _ _ _) _).bind fun _ =>
        preserves_pure _

theorem linksKept_carryAcquisitionDate (host : Host) (lotGuid sourceLotGuid : String) :
    Preserves LinksKept (carryAcquisitionDate host lotGuid sourceLotGuid) :=
  preserves_get.bind fun _ => preserves_option_forM fun _ _ => linksKept_createSlot _ _ _

theorem linksKept_generateGuid (host : Host) : Preserves LinksKept (generateGuid host) := by
  intro db g db' h
  obtain ⟨-, rfl⟩ := completes_generateGuid.1 h
  exact linksKept_of_slots rfl

theorem linksKept_createDestLot (host : Host) (split : Split) (postDate : Option ℤ) (runId : String)
    (shares : ℚ) (source : Option (Split × String)) :
    Preserves LinksKept (createDestLot host split postDate runId shares source) := by
  unfold createDestLot createTaggedLot linkSource
  refine Preserves.bind ?_ fun _ => Preserves.bind ?_ fun _ =>
    (linksKept_createSlot _ _ _).bind fun _ => preserves_pure _
  · refine (linksKept_generateGuid host).bind fun _ => ?_
    exact Preserves.bind (preserves_modify fun _ => linksKept_of_slots rfl) fun _ =>
      (linksKept_createSlot _ _ _).bind fun _ => preserves_pure _
  · refine preserves_option_forM fun _ _ => ?_
    refine (linksKept_createSlot _ _ _).bind fun _ => (linksKept_createSlot _ _ _).bind fun _ => ?_
    refine Preserves.bind (preserves_onlyIf fun _ => preserves_get.bind fun _ =>
      linksKept_writeCarriedBasisSlot host _ _) fun _ => linksKept_carryAcquisitionDate host _ _

theorem linksKept_createSubSplit (host : Host) (parent : Split) (quantity value : Amount)
    (lotGuid : Option String) (runId : String) :
    Preserves LinksKept (createSubSplit host parent quantity value lotGuid runId) := by
  unfold createSubSplit tagGeneratedSubSplit
  refine (linksKept_generateGuid host).bind fun _ => ?_
  refine Preserves.bind (preserves_modify fun _ => linksKept_of_slots rfl) fun _ => ?_
  exact Preserves.bind ((linksKept_createSlot _ _ _).bind fun _ => linksKept_createSlot _ _ _)
    fun _ => preserves_pure _

/-! ## The division -/

variable {split : Split} {postDate : Option ℤ} {runId : String}

theorem effect_createDestLot {l : String} {shares : ℚ} {source : Split × String}
    (h : Completes (createDestLot host split postDate runId shares (some source)) db l db') :
    l = host.generateGuid db.drawn ∧ db'.splits = db.splits ∧ db'.drawn = db.drawn + 1 ∧
      LinkedTo db' l source.2 := by
  simp only [createDestLot, createTaggedLot, completes_bind, completes_generateGuid,
    completes_createLotRow, completes_createSlot, completes_pure] at h
  obtain ⟨_, _, ⟨_, _, ⟨rfl, rfl⟩, _, _, rfl, _, _, rfl, rfl, rfl⟩, _, db₂, h₂, _, db₃, rfl, rfl,
    rfl⟩ := h
  have hunseen := preserves_linkSource host _ _ _ _ _ _ _ h₂
  refine ⟨rfl, congrArg Marked.splits hunseen, congrArg Marked.drawn hunseen, ?_⟩
  unfold linkSource at h₂
  obtain ⟨_, db₁, hlink, hrest⟩ := completes_bind.1 h₂
  rw [completes_createSlot] at hlink
  have hkept : LinksKept db₁ db₂ := by
    refine Preserves.bind (R := LinksKept) (linksKept_createSlot _ _ _) (fun _ => ?_) _ _ _ hrest
    refine Preserves.bind (preserves_onlyIf fun _ => preserves_get.bind fun _ =>
      linksKept_writeCarriedBasisSlot host _ _) fun _ => linksKept_carryAcquisitionDate host _ _
  exact List.mem_append_left _ (hkept _ (by rw [hlink]; simp) rfl)

theorem drawn_createSubSplit {parent : Split} {quantity value : Amount} {lotGuid : Option String}
    {g : String} (h : Completes (createSubSplit host parent quantity value lotGuid runId) db g db') :
    db'.drawn = db.drawn + 1 :=
  congrArg Marked.drawn (completes_createSubSplit h).2

theorem splits_createTransferSubSplits
    {allocs : List ((Split × String) × ℚ)} {usedQtyNum usedValNum : ℤ} {r : List String}
    (h : Completes (createTransferSubSplits host split postDate runId allocs usedQtyNum usedValNum)
      db r db') :
    ∃ subs, db'.splits = db.splits ++ subs ∧
      subs.map amounts =
        partAmounts split (transferPart split) true (allocs.map Prod.snd) usedQtyNum usedValNum ∧
      subs.map Split.lotGuid = r.map some ∧ db.drawn ≤ db'.drawn ∧
      DrawnBetween host db.drawn db'.drawn r ∧ LinksKept db db' ∧
      List.Forall₂ (fun a l => LinkedTo db' l a.1.2) allocs r := by
  induction allocs generalizing db usedQtyNum usedValNum r with
  | nil =>
    obtain ⟨rfl, rfl⟩ := completes_pure.1 h
    exact ⟨[], by simp, rfl, rfl, le_rfl, ⟨[], rfl, .nil, by simp⟩, refl db', .nil⟩
  | cons alloc rest ih =>
    obtain ⟨source, shares⟩ := alloc
    simp only [createTransferSubSplits, completes_bind] at h
    obtain ⟨l, db₁, h₁, g, db₂, h₂, r', db₃, h₃, h₄⟩ := h
    obtain ⟨rfl, rfl⟩ := completes_pure.1 h₄
    obtain ⟨rfl, hsplits, hdrawn, hlinked⟩ := effect_createDestLot h₁
    obtain ⟨sub, hsub, hamounts, hlot⟩ := splits_createSubSplit h₂
    have hdrawn₂ := drawn_createSubSplit h₂
    obtain ⟨subs, hsubs, hparts, hlots, hmono, hnew, hkept, hlinks⟩ := ih h₃
    refine ⟨sub :: subs, by rw [hsubs, hsub, hsplits]; simp, ?_, ?_, by omega, ?_, ?_, ?_⟩
    · rw [List.map_cons, hparts, hamounts, List.map_cons, partAmounts]
      simp only [List.map_eq_nil_iff, and_true]
    · rw [List.map_cons, hlots, hlot, List.map_cons]
    · exact hnew.cons (by omega) hmono
    · refine IsTrans.trans _ _ _ (linksKept_createDestLot host _ _ _ _ _ _ _ _ h₁) ?_
      exact IsTrans.trans _ _ _ (linksKept_createSubSplit host _ _ _ _ _ _ _ _ h₂) hkept
    · refine .cons (hkept _ ?_ rfl) hlinks
      exact linksKept_createSubSplit host _ _ _ _ _ _ _ _ h₂ _ hlinked rfl

/-- What a transfer-in is left as: pieces that add up to it, each in a new lot of its own. -/
structure Landed (host : Host) (split : Split) (db db' : Db) (lotGuids : List String) : Prop where
  addsUp : AddsUp split (piecesOf db db' split.guid)
  lots : (piecesOf db db' split.guid).map Split.lotGuid = lotGuids.map some
  drawn : DrawnBetween host db.drawn db'.drawn lotGuids

theorem transferPart_denom (split : Split) (shares : ℚ) :
    (transferPart split shares).1.denom = split.quantity.denom ∧
      (transferPart split shares).2.denom = split.value.denom :=
  ⟨rfl, rfl⟩

theorem landed_divideTransfer
    {first second : (Split × String) × ℚ} {rest : List ((Split × String) × ℚ)}
    {r : SplitTransferResult} (hsplit : db.split? split.guid = some split)
    (h : Completes (divideTransfer host split runId first (second :: rest)) db r db') :
    Landed host split db db' r.lotGuids ∧
      (piecesOf db db' split.guid).map amounts = partAmounts split (transferPart split) true
        ((first :: second :: rest).map Prod.snd) 0 0 ∧
      List.Forall₂ (fun a l => LinkedTo db' l a.1.2) (first :: second :: rest) r.lotGuids := by
  rw [divideTransfer, completes_get_bind] at h
  simp only [stashOriginal, completes_bind, completes_createSlot, completes_updateSplit] at h
  obtain ⟨_, _, ⟨_, _, rfl, _, _, rfl, _, _, rfl, _, _, rfl, rfl⟩, firstLot, db₂, h₂, _, db₃,
    ⟨-, hdb₃⟩, lotGuids, db₄, h₄, _, db₅, h₅, _, db₆, h₆, h₇⟩ := h
  obtain ⟨rfl, rfl⟩ := completes_pure.1 h₇
  obtain ⟨rfl, hsplits, hdrawn, hlinked⟩ := effect_createDestLot h₂
  obtain ⟨rows, hrows, hamounts, hlots, hmono, hnew, hkept, hlinks⟩ :=
    splits_createTransferSubSplits h₄
  have hreconcile := preserves_reconcileCarriedBasisForSourceLots host _ _ _ _ h₅
  have hlinks₅ : LinksKept db₄ db₅ := by
    refine Preserves.bind (R := LinksKept) preserves_get (fun _ => ?_) _ _ _ h₅
    exact linksKept_reconcileFrom host _ _ _
  have hassert : db' = db₅ := by
    rcases completes_onlyIf.1 h₆ with ⟨-, h₆⟩ | ⟨-, h₆⟩
    · exact completes_assertBalanceKept h₆
    · exact h₆
  have hdrawn₃ : db₃.drawn = db.drawn + 1 := by
    rw [hdb₃]
    exact hdrawn
  have hdrawn' : db'.drawn = db₄.drawn := by
    rw [hassert]
    exact congrArg Marked.drawn hreconcile
  have hsplits' : db'.splits = editAt Split.guid split.guid
      (fun s => { s with
        lotGuid := some (host.generateGuid db.drawn)
        quantity := (transferPart split first.2).1
        value := (transferPart split first.2).2 }) db.splits ++ rows := by
    rw [hassert, show db₅.splits = db₄.splits from congrArg Marked.splits hreconcile, hrows, hdb₃]
    change editAt _ _ _ db₂.splits ++ rows = _
    rw [hsplits]
  have hpieces := piecesOf_eq hsplit (by exact fun _ => rfl) hsplits'
  have hparts : (piecesOf db db' split.guid).map amounts = partAmounts split (transferPart split) true
      ((first :: second :: rest).map Prod.snd) 0 0 := by
    have hne : ¬((second :: rest).map Prod.snd = [] ∧ true = true) := by simp
    rw [hpieces, List.map_cons, hamounts]
    exact (@partAmounts_cons split (transferPart split) true first.2 _ hne).symm
  refine ⟨⟨addsUp_of_amounts hparts ?_ ?_ fun a ha => ?_, ?_, ?_⟩, hparts, ?_⟩
  · rw [(sum_partAmounts (by simp) 0 0).1, sub_zero]
  · rw [(sum_partAmounts (by simp) 0 0).2, sub_zero]
  · exact denoms_partAmounts (transferPart_denom split) ha
  · rw [hpieces, List.map_cons, hlots, List.map_cons]
  · rw [hdrawn₃] at hnew hmono
    rw [hdrawn']
    exact hnew.cons (by omega) hmono
  · have hkept' : LinksKept db₄ db' := hassert ▸ hlinks₅
    refine .cons (hkept' _ (hkept _ ?_ rfl) rfl) (hlinks.imp fun _ _ hl => hkept' _ hl rfl)
    rw [hdb₃]
    exact hlinked

theorem drawn_createDestLot {l : String} {shares : ℚ} {source : Option (Split × String)}
    (h : Completes (createDestLot host split postDate runId shares source) db l db') :
    l = host.generateGuid db.drawn ∧ db'.splits = db.splits ∧ db'.drawn = db.drawn + 1 := by
  cases source with
  | some source =>
    obtain ⟨hl, hsplits, hdrawn, -⟩ := effect_createDestLot h
    exact ⟨hl, hsplits, hdrawn⟩
  | none =>
    simp only [createDestLot, createTaggedLot, completes_bind, completes_generateGuid,
      completes_createLotRow, completes_createSlot, completes_pure] at h
    obtain ⟨_, _, ⟨_, _, ⟨rfl, rfl⟩, _, _, rfl, _, _, rfl, rfl, rfl⟩, _, _, h₂, _, _, rfl, rfl,
      rfl⟩ := h
    obtain ⟨-, rfl⟩ := completes_pure.1 h₂
    exact ⟨rfl, rfl, rfl⟩

theorem landed_linkTransferToLot {r : LinkTransferResult}
    (hsplit : db.split? split.guid = some split) (hfree : split.lotGuid = none)
    (h : Completes (linkTransferToLot host split.guid runId) db r db') :
    r.created = true ∧ Landed host split db db' [r.lotGuid] := by
  rw [linkTransferToLot, completes_get_bind, hsplit] at h
  dsimp only at h
  rw [hfree] at h
  simp only [completes_bind, completes_updateSplit, completes_pure] at h
  obtain ⟨l, db₁, h₁, _, db₂, ⟨-, hdb₂⟩, _, db₃, h₃, rfl, rfl⟩ := h
  obtain ⟨rfl, hsplits, hdrawn⟩ := drawn_createDestLot h₁
  have hunseen : Unseen db₂ db' := preserves_option_forM (fun _ _ =>
    (preserves_reconcileCarriedBasisForSourceLots host _).bind fun _ => preserves_pure _) _ _ _ h₃
  have hpieces : piecesOf db db' split.guid =
      [{ split with lotGuid := some (host.generateGuid db.drawn) }] := by
    refine piecesOf_eq (f := fun s => { s with lotGuid := some (host.generateGuid db.drawn) }) hsplit
      (by exact fun _ => rfl) ?_
    rw [show db'.splits = db₂.splits from congrArg Marked.splits hunseen, hdb₂, ← hsplits,
      List.append_nil]
  have hdrawn' : db'.drawn = db.drawn + 1 := by
    rw [show db'.drawn = db₂.drawn from congrArg Marked.drawn hunseen, hdb₂]
    exact hdrawn
  refine ⟨rfl, ⟨hpieces ▸ addsUp_self, by rw [hpieces]; rfl, ?_⟩⟩
  exact ⟨[db.drawn], rfl, List.pairwise_singleton _ _, by simp [hdrawn']⟩

/-! ## The quantities -/

theorem forall₂_dropLast_partAmounts {s : Split} {part : ℚ → Amount × Amount} (shares : List ℚ)
    (usedQtyNum usedValNum : ℤ) :
    List.Forall₂ (fun x a => a = part x) shares.dropLast
      (partAmounts s part true shares usedQtyNum usedValNum).dropLast := by
  induction shares generalizing usedQtyNum usedValNum with
  | nil => exact .nil
  | cons share rest ih =>
    cases rest with
    | nil => exact .nil
    | cons next rest =>
      rw [partAmounts, List.dropLast_cons_cons]
      exact .cons (if_neg (by simp)) (ih _ _)

theorem exact_partAmounts (hd : 0 < split.quantity.denom) {shares : List ℚ}
    (hunits : ∀ x ∈ shares, ∃ k : ℤ, x * split.quantity.denom = k) {usedQtyNum usedValNum : ℤ}
    (hsum : shares.sum = ((split.quantity.num - usedQtyNum : ℤ) : ℚ) / split.quantity.denom) :
    List.Forall₂ (fun x a => a.1.exact = x) shares
      (partAmounts split (transferPart split) true shares usedQtyNum usedValNum) := by
  have hdne : (split.quantity.denom : ℚ) ≠ 0 := by exact_mod_cast hd.ne'
  induction shares generalizing usedQtyNum usedValNum with
  | nil => exact .nil
  | cons x rest ih =>
    obtain ⟨⟨k, hk⟩, hrest⟩ := List.forall_mem_cons.1 hunits
    cases rest with
    | nil =>
      refine .cons ?_ .nil
      simp only [List.sum_cons, List.sum_nil, add_zero] at hsum
      exact hsum.symm
    | cons y rest =>
      have hnum : (transferPart split x).1.num = k := by
        change mathRound (x * split.quantity.denom) = k
        rw [hk, mathRound_intCast]
      have hx : (k : ℚ) / split.quantity.denom = x := by
        rw [← hk, mul_div_cancel_right₀ _ hdne]
      rw [partAmounts, if_neg (by simp)]
      refine .cons ?_ (ih hrest ?_)
      · change (((transferPart split x).1.num : ℤ) : ℚ) / split.quantity.denom = x
        rw [hnum, hx]
      · rw [List.sum_cons] at hsum
        rw [hnum, ← sub_sub, Int.cast_sub, sub_div, hx, ← hsum, add_sub_cancel_left]

/-- The outflows are all the shares that came in, in whole units of their denominator. -/
def AllCameIn (db : Db) (split : Split) : Prop :=
  0 < split.quantity.denom ∧ split.qty = split.quantity.exact ∧
    ((lottedSources db split).map fun s => |s.1.qty|).sum = split.qty ∧
    ∀ s ∈ lottedSources db split, ∃ k : ℤ, |s.1.qty| * split.quantity.denom = k

theorem div_sum_mul_sum {l : List ℚ} (hl : ∀ y ∈ l, 0 ≤ y) {x : ℚ} (hx : x ∈ l) :
    x / l.sum * l.sum = x := by
  by_cases hzero : l.sum = 0
  · have hle : x ≤ l.sum := List.single_le_sum hl x hx
    rw [hzero, mul_zero]
    exact (le_antisymm (hzero ▸ hle) (hl x hx)).symm
  · exact div_mul_cancel₀ x hzero

theorem transferShares_of_allCameIn (h : AllCameIn db split) :
    transferShares db split = (lottedSources db split).map fun s => |s.1.qty| := by
  obtain ⟨-, -, hsum, -⟩ := h
  unfold transferShares
  rw [← hsum]
  refine List.map_congr_left fun s hs => div_sum_mul_sum ?_ (List.mem_map_of_mem hs)
  intro y hy
  obtain ⟨t, -, rfl⟩ := List.mem_map.1 hy
  exact abs_nonneg _

theorem quantities_of_parts {pieces : List Split} (h : pieces.map amounts =
      partAmounts split (transferPart split) true (transferShares db split) 0 0) :
    List.Forall₂ (fun x p => p.quantity = fromDecimal x split.quantity.denom)
        (transferShares db split).dropLast pieces.dropLast ∧
      (AllCameIn db split → List.Forall₂ (fun s p => p.quantity.exact = |s.1.qty|)
        (lottedSources db split) pieces) := by
  constructor
  · have hlast := @forall₂_dropLast_partAmounts split (transferPart split) (transferShares db split) 0 0
    rw [← h, ← List.map_dropLast, List.forall₂_map_right_iff] at hlast
    exact hlast.imp fun x p hp => congrArg Prod.fst hp
  · intro hall
    obtain ⟨hd, hexact, hsum, hunits⟩ := hall
    have hshares := transferShares_of_allCameIn ⟨hd, hexact, hsum, hunits⟩
    have hparts := @exact_partAmounts split hd (transferShares db split) (fun x hx => ?_) 0 0 ?_
    · rw [← h, List.forall₂_map_right_iff, hshares, List.forall₂_map_left_iff] at hparts
      exact hparts
    · rw [hshares] at hx
      obtain ⟨s, hs, rfl⟩ := List.mem_map.1 hx
      exact hunits s hs
    · rw [hshares, hsum, hexact, sub_zero]
      rfl

theorem landed_whole {r : SplitTransferResult}
    (hsplit : db.split? split.guid = some split) (hfree : split.lotGuid = none) (h : Completes (do
      let r ← linkTransferToLot host split.guid runId
      pure (⟨if r.created then 1 else 0, 0, if r.created then [r.lotGuid] else []⟩ :
        SplitTransferResult)) db r db') :
    Landed host split db db' r.lotGuids := by
  obtain ⟨linked, db₁, h₁, h₂⟩ := completes_bind.1 h
  obtain ⟨rfl, rfl⟩ := completes_pure.1 h₂
  obtain ⟨hcreated, hlanded⟩ := landed_linkTransferToLot hsplit hfree h₁
  simpa [hcreated] using hlanded

/-- Two lots send six shares each; some of them come in and the rest go to a third account. -/
def transferOf (cameIn : ℤ) : Db :=
  ⟨[⟨"from", "From", .mutual, some "fund", 1, none⟩, ⟨"to", "To", .mutual, some "fund", 1, none⟩,
      ⟨"other", "Other", .mutual, some "fund", 1, none⟩],
    [⟨"t", "usd", some 5, "Transfer"⟩],
    [⟨"in", "t", "to", "", "", .n, none, ⟨cameIn * 100, 100⟩, ⟨cameIn, 1⟩, none⟩,
      ⟨"rest", "t", "other", "", "", .n, none, ⟨(12 - cameIn) * 100, 100⟩, ⟨12 - cameIn, 1⟩, none⟩,
      ⟨"o1", "t", "from", "", "", .n, none, ⟨-600, 100⟩, ⟨-6, 1⟩, some "l1"⟩,
      ⟨"o2", "t", "from", "", "", .n, none, ⟨-600, 100⟩, ⟨-6, 1⟩, some "l2"⟩],
    [⟨"l1", some "from", 0⟩, ⟨"l2", some "from", 0⟩], [], [], [], 0⟩

end Lots
