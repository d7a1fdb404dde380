import GnucashWeb.Lots.RunMoves

/-!
# The pieces of a sale

A sale is left as its own row and the sub-splits created for it.  Their numerators add up to those of
the sale, the lots are consumed in order, each fully before the next, and a lot of whole units is
overdrawn by no more than the share tolerance and the rounding of the quantity sold
(`sell_conserved`).
-/

open Ledger Transact Rows

namespace Lots

/-- The row of a split and the rows created since. -/
def piecesOf (db db' : Db) (splitGuid : String) : List Split :=
  (db'.split? splitGuid).toList ++ db'.splits.drop db.splits.length

/-- The amounts of the pieces, in the denominators of the split, use its numerators up. -/
structure AddsUp (s : Split) (pieces : List Split) : Prop where
  quantityNum : (pieces.map fun p => p.quantity.num).sum = s.quantity.num
  valueNum : (pieces.map fun p => p.value.num).sum = s.value.num
  denoms : ∀ p ∈ pieces, p.quantity.denom = s.quantity.denom ∧ p.value.denom = s.value.denom

/-- Shares are taken from the lots in order, from each lot fully before the next. -/
def InOrder : List OpenLot → List Allocation → Prop
  | _, [] => True
  | lot :: _, [a] => a.lotGuid = lot.guid ∧ a.shares ≤ lot.shares
  | lot :: lots, a :: b :: rest =>
    a.lotGuid = lot.guid ∧ a.shares = lot.shares ∧ InOrder lots (b :: rest)
  | [], _ :: _ => False

theorem inOrder_nil (lots : List OpenLot) : InOrder lots [] := by
  cases lots <;> trivial

def ConsumedShares.taken (c : ConsumedShares) : Allocation := ⟨c.lotGuid, c.shares⟩

/-- The first pieces are in the given lots, one in each, and leave it at least so many shares. -/
def Leaves (least : ℚ) (lots : List OpenLot) (pieces : List Split) : Prop :=
  (pieces.take lots.length).map Split.lotGuid = lots.map (fun l => some l.guid) ∧
    List.Forall₂ (fun l p => least ≤ l.shares + p.quantity.exact) lots (pieces.take lots.length)

variable {host : Host} {db db' : Db}

theorem piecesOf_eq {g : String} {f : Split → Split} {s : Split} {subs : List Split}
    (hs : db.split? g = some s) (hf : ∀ r, (f r).guid = r.guid)
    (h : db'.splits = editAt Split.guid g f db.splits ++ subs) :
    piecesOf db db' g = f s :: subs := by
  have hsplit : db'.split? g = some (f s) := by
    unfold Db.split?
    rw [h, List.find?_append, find?_editAt hf hs]
    rfl
  have hlength : (editAt Split.guid g f db.splits).length = db.splits.length := List.length_map _
  rw [piecesOf, hsplit, h, ← hlength, List.drop_left]
  rfl

theorem piecesOf_of_eq {g : String} {s : Split} (hs : db.split? g = some s)
    (h : db'.splits = db.splits) : piecesOf db db' g = [s] := by
  unfold piecesOf Db.split? at *
  rw [h, hs, List.drop_length]
  rfl

/-! ## The allocation -/

theorem allocate_zero {eps : ℚ} (heps : 0 < eps) (lots : List OpenLot) :
    allocate eps lots 0 = ([], 0) := by
  cases lots with
  | nil => rfl
  | cons lot lots => rw [allocate, if_pos heps]

theorem allocate_left {eps : ℚ} {lots : List OpenLot} {shares : ℚ} :
    (allocate eps lots shares).2 =
      shares - ((allocate eps lots shares).1.map Allocation.shares).sum := by
  induction lots generalizing shares with
  | nil => simp [allocate]
  | cons lot lots ih =>
    rw [allocate]
    split
    · simp
    · dsimp only
      rw [ih, List.map_cons, List.sum_cons]
      ring

theorem inOrder_allocate {eps : ℚ} (heps : 0 < eps) (lots : List OpenLot) (shares : ℚ) :
    InOrder lots (allocate eps lots shares).1 := by
  induction lots generalizing shares with
  | nil => trivial
  | cons lot lots ih =>
    rw [allocate]
    split
    · trivial
    · have hrest := ih (shares - min lot.shares shares)
      dsimp only
      cases hnext : (allocate eps lots (shares - min lot.shares shares)).1 with
      | nil => exact ⟨rfl, min_le_left _ _⟩
      | cons b rest =>
        rw [hnext] at hrest
        refine ⟨rfl, (min_choice lot.shares shares).resolve_right fun hall => ?_, hrest⟩
        rw [hall, sub_self, allocate_zero heps] at hnext
        cases hnext

theorem fully_allocate {eps : ℚ} (heps : 0 < eps) {lots : List OpenLot} {shares : ℚ}
    (h : eps < (allocate eps lots shares).2) :
    List.Forall₂ (fun (l : OpenLot) (a : Allocation) => a.lotGuid = l.guid ∧ a.shares = l.shares) lots
      (allocate eps lots shares).1 := by
  induction lots generalizing shares with
  | nil => exact .nil
  | cons lot lots ih =>
    rw [allocate] at h ⊢
    split at h
    · rename_i hlt
      exact absurd h hlt.not_gt
    · rename_i hlt
      rw [if_neg hlt]
      refine .cons ⟨rfl, (min_choice lot.shares shares).resolve_right fun hall => ?_⟩ (ih h)
      dsimp only at h
      rw [hall, sub_self, allocate_zero heps] at h
      exact h.not_gt heps

/-! ## The amounts -/

/-- The amounts of the parts of a split after some numerators are used.  When the parts are complete,
the last takes what the others leave. -/
def partAmounts (s : Split) (part : ℚ → Amount × Amount) (complete : Bool) :
    List ℚ → ℤ → ℤ → List (Amount × Amount)
  | [], _, _ => []
  | shares :: rest, usedQtyNum, usedValNum =>
    let next : Amount × Amount :=
      if rest = [] ∧ complete then
        (⟨s.quantity.num - usedQtyNum, s.quantity.denom⟩,
          ⟨s.value.num - usedValNum, s.value.denom⟩)
      else part shares
    next :: partAmounts s part complete rest (usedQtyNum + next.1.num) (usedValNum + next.2.num)

def amounts (p : Split) : Amount × Amount := (p.quantity, p.value)

theorem splits_createSubSplit {parent : Split} {quantity value : Amount} {lotGuid : Option String}
    {runId g : String} (h : Completes (createSubSplit host parent quantity value lotGuid runId) db g db') :
    ∃ sub, db'.splits = db.splits ++ [sub] ∧ amounts sub = (quantity, value) ∧
      sub.lotGuid = lotGuid :=
  ⟨_, congrArg Marked.splits (completes_createSubSplit h).2, rfl, rfl⟩

theorem splits_createSellSubSplits {sell : Split} {runId : String} {isOversell : Bool}
    {allocs : List Allocation} {usedQtyNum usedValNum : ℤ} {r : List ConsumedShares × ℤ × ℤ}
    (h : Completes (createSellSubSplits host sell runId isOversell allocs usedQtyNum usedValNum)
      db r db') :
    ∃ subs, db'.splits = db.splits ++ subs ∧
      subs.map amounts =
        partAmounts sell (sellPart sell) (!isOversell) (allocs.map Allocation.shares) usedQtyNum usedValNum ∧
      subs.map Split.lotGuid = allocs.map (fun a => some a.lotGuid) ∧
      r.1.map ConsumedShares.taken = allocs ∧
      r.2.1 = usedQtyNum + (subs.map fun p => p.quantity.num).sum ∧
      r.2.2 = usedValNum + (subs.map fun p => p.value.num).sum := by
  induction allocs generalizing db usedQtyNum usedValNum r with
  | nil =>
    obtain ⟨rfl, rfl⟩ := completes_pure.1 h
    exact ⟨[], by simp, rfl, rfl, rfl, by simp, by simp⟩
  | cons alloc rest ih =>
    simp only [createSellSubSplits, completes_bind] at h
    obtain ⟨subGuid, db₁, h₁, r', db₂, h₂, h₃⟩ := h
    obtain ⟨rfl, rfl⟩ := completes_pure.1 h₃
    obtain ⟨sub, hsub, hamounts, hlot⟩ := splits_createSubSplit h₁
    obtain ⟨subs, hsubs, hparts, hlots, htaken, hq, hv⟩ := ih h₂
    have hquantity := congrArg Prod.fst hamounts
    have hvalue := congrArg Prod.snd hamounts
    dsimp only [amounts] at hquantity hvalue
    refine ⟨sub :: subs, by rw [hsubs, hsub]; simp, ?_, ?_, ?_, ?_, ?_⟩
    · rw [List.map_cons, hparts, hamounts, List.map_cons, partAmounts]
      simp only [List.map_eq_nil_iff]
    · rw [List.map_cons, hlots, hlot, List.map_cons]
    · rw [List.map_cons, htaken]
      rfl
    · rw [hq, List.map_cons, List.sum_cons, hquantity]
      ring
    · rw [hv, List.map_cons, List.sum_cons, hvalue]
      ring

section Parts

variable {s : Split} {part : ℚ → Amount × Amount} {complete : Bool}

theorem denoms_partAmounts
    (hpart : ∀ x, (part x).1.denom = s.quantity.denom ∧ (part x).2.denom = s.value.denom)
    {shares : List ℚ} {usedQtyNum usedValNum : ℤ} {a : Amount × Amount}
    (h : a ∈ partAmounts s part complete shares usedQtyNum usedValNum) :
    a.1.denom = s.quantity.denom ∧ a.2.denom = s.value.denom := by
  induction shares generalizing usedQtyNum usedValNum with
  | nil => cases h
  | cons share rest ih =>
    rcases List.mem_cons.1 h with rfl | h
    · split
      · exact ⟨rfl, rfl⟩
      · exact hpart share
    · exact ih h

theorem length_partAmounts (shares : List ℚ) (usedQtyNum usedValNum : ℤ) :
    (partAmounts s part complete shares usedQtyNum usedValNum).length = shares.length := by
  induction shares generalizing usedQtyNum usedValNum with
  | nil => rfl
  | cons share rest ih => rw [partAmounts, List.length_cons, List.length_cons, ih]

theorem sum_partAmounts {shares : List ℚ} (hshares : shares ≠ []) (usedQtyNum usedValNum : ℤ) :
    ((partAmounts s part true shares usedQtyNum usedValNum).map fun a => a.1.num).sum =
        s.quantity.num - usedQtyNum ∧
      ((partAmounts s part true shares usedQtyNum usedValNum).map fun a => a.2.num).sum =
        s.value.num - usedValNum := by
  induction shares generalizing usedQtyNum usedValNum with
  | nil => exact absurd rfl hshares
  | cons share rest ih =>
    rw [partAmounts]
    by_cases hrest : rest = []
    · subst hrest
      simp [partAmounts]
    · rw [if_neg fun h => hrest h.1, List.map_cons, List.map_cons, List.sum_cons, List.sum_cons,
        (ih hrest _ _).1, (ih hrest _ _).2]
      exact ⟨by ring, by ring⟩

theorem partAmounts_cons {share : ℚ} {rest : List ℚ} (h : ¬(rest = [] ∧ complete = true)) :
    partAmounts s part complete (share :: rest) 0 0 =
      part share :: partAmounts s part complete rest (part share).1.num (part share).2.num := by
  rw [partAmounts, if_neg h, zero_add, zero_add]

end Parts

theorem exact_sellPart {sell : Split} {shares : ℚ} {k : ℤ} (hd : 0 < sell.quantity.denom)
    (hk : shares * sell.quantity.denom = k) :
    (sellPart sell shares).1.num = -k ∧ (sellPart sell shares).1.exact = -shares := by
  have hd : (sell.quantity.denom : ℚ) ≠ 0 := by exact_mod_cast hd.ne'
  have hnum : (sellPart sell shares).1.num = -k := by
    change mathRound (-shares * sell.quantity.denom) = -k
    rw [neg_mul, hk, ← Int.cast_neg, mathRound_intCast]
  refine ⟨hnum, ?_⟩
  change (((sellPart sell shares).1.num : ℤ) : ℚ) / sell.quantity.denom = -shares
  rw [hnum, Int.cast_neg, ← hk, neg_div, mul_div_cancel_right₀ _ hd]

def WholeUnits (denom : ℤ) (lots : List OpenLot) : Prop :=
  ∀ l ∈ lots, ∃ k : ℤ, l.shares * denom = k

theorem leaves_complete {sell : Split} {least : ℚ} (hleast : least ≤ 0)
    (hd : 0 < sell.quantity.denom) {lots : List OpenLot} {allocs : List Allocation}
    (hunits : WholeUnits sell.quantity.denom lots) (horder : InOrder lots allocs)
    {usedQtyNum usedValNum : ℤ}
    (hleft : least - (allocs.map Allocation.shares).sum ≤
      ((sell.quantity.num - usedQtyNum : ℤ) : ℚ) / sell.quantity.denom) :
    List.Forall₂ (fun (l : OpenLot) (a : Amount × Amount) => least ≤ l.shares + a.1.exact)
      (lots.take allocs.length)
      (partAmounts sell (sellPart sell) true (allocs.map Allocation.shares) usedQtyNum usedValNum) := by
  induction allocs generalizing lots usedQtyNum usedValNum with
  | nil => exact .nil
  | cons a rest ih =>
    cases lots with
    | nil => cases rest <;> exact horder.elim
    | cons lot lots =>
      obtain ⟨⟨k, hk⟩, hrest⟩ := List.forall_mem_cons.1 hunits
      cases rest with
      | nil =>
        refine .cons ?_ .nil
        have hle : a.shares ≤ lot.shares := horder.2
        simp only [List.map_cons, List.map_nil, List.sum_cons, List.sum_nil, add_zero] at hleft
        change least ≤ lot.shares +
          ((sell.quantity.num - usedQtyNum : ℤ) : ℚ) / sell.quantity.denom
        linarith
      | cons b rest =>
        obtain ⟨-, hfull, horder⟩ := horder
        obtain ⟨hnum, hexact⟩ := exact_sellPart hd hk
        rw [← hfull] at hnum hexact hk
        refine .cons ?_ (ih hrest horder ?_)
        · change least ≤ lot.shares + (sellPart sell a.shares).1.exact
          rw [hexact, ← hfull, add_neg_cancel]
          exact hleast
        · have hsum : ((sell.quantity.num - (usedQtyNum + -k) : ℤ) : ℚ) / sell.quantity.denom =
              ((sell.quantity.num - usedQtyNum : ℤ) : ℚ) / sell.quantity.denom + a.shares := by
            have hdne : (sell.quantity.denom : ℚ) ≠ 0 := by exact_mod_cast hd.ne'
            rw [eq_div_of_mul_eq hdne hk, ← add_div]
            push_cast
            ring
          change least - _ ≤
            ((sell.quantity.num - (usedQtyNum + (sellPart sell a.shares).1.num) : ℤ) : ℚ) / _
          rw [hnum, hsum]
          simp only [List.map_cons, List.sum_cons] at hleft ⊢
          linarith

theorem leaves_oversell {sell : Split} (hd : 0 < sell.quantity.denom)
    {lots : List OpenLot} {allocs : List Allocation}
    (hunits : WholeUnits sell.quantity.denom lots)
    (hfull : List.Forall₂ (fun (l : OpenLot) (a : Allocation) =>
      a.lotGuid = l.guid ∧ a.shares = l.shares) lots allocs) (usedQtyNum usedValNum : ℤ) :
    List.Forall₂ (fun (l : OpenLot) (a : Amount × Amount) => l.shares + a.1.exact = 0) lots
      (partAmounts sell (sellPart sell) false (allocs.map Allocation.shares) usedQtyNum usedValNum) := by
  induction hfull generalizing usedQtyNum usedValNum with
  | nil => exact .nil
  | @cons lot a lots allocs hhead hrest ih =>
    obtain ⟨⟨k, hk⟩, hunits⟩ := List.forall_mem_cons.1 hunits
    refine .cons ?_ (ih hunits _ _)
    rw [if_neg (by simp), hhead.2, (exact_sellPart hd hk).2, add_neg_cancel]

/-! ## The division -/

theorem addsUp_of_amounts {s : Split} {pieces : List Split} {parts : List (Amount × Amount)}
    (h : pieces.map amounts = parts) (hq : (parts.map fun a => a.1.num).sum = s.quantity.num)
    (hv : (parts.map fun a => a.2.num).sum = s.value.num)
    (hdenoms : ∀ a ∈ parts, a.1.denom = s.quantity.denom ∧ a.2.denom = s.value.denom) :
    AddsUp s pieces := by
  subst h
  rw [List.map_map] at hq hv
  exact ⟨hq, hv, fun p hp => hdenoms _ (List.mem_map_of_mem hp)⟩

theorem addsUp_self {s : Split} {l : Option String} : AddsUp s [{ s with lotGuid := l }] :=
  addsUp_of_amounts rfl (by simp [amounts]) (by simp [amounts]) (by simp [amounts])

theorem splits_createRemainder {sell : Split} {runId : String} {isOversell : Bool}
    {usedQtyNum usedValNum : ℤ} {r : List String}
    (h : Completes (createRemainder host sell runId isOversell usedQtyNum usedValNum) db r db') :
    ∃ rows, db'.splits = db.splits ++ rows ∧ rows.map amounts =
      if isOversell then [(⟨sell.quantity.num - usedQtyNum, sell.quantity.denom⟩,
        ⟨sell.value.num - usedValNum, sell.value.denom⟩)] else [] := by
  cases isOversell with
  | false =>
    obtain ⟨-, rfl⟩ := completes_pure.1 h
    exact ⟨[], by simp, rfl⟩
  | true =>
    obtain ⟨subGuid, db₁, h₁, h₂⟩ := completes_bind.1 h
    obtain ⟨-, rfl⟩ := completes_pure.1 h₂
    obtain ⟨sub, hsub, hamounts, -⟩ := splits_createSubSplit h₁
    exact ⟨[sub], hsub, by rw [List.map_singleton, hamounts, if_pos rfl]⟩

/-- What dividing a sale does: the amounts of the pieces, their lots and what the result reports. -/
structure Divided (sell : Split) (isOversell : Bool) (allocs : List Allocation) (db db' : Db)
    (r : SplitSellResult) : Prop where
  parts : ∃ remainder : List (Amount × Amount),
    (piecesOf db db' sell.guid).map amounts =
      partAmounts sell (sellPart sell) (!isOversell) (allocs.map Allocation.shares) 0 0 ++ remainder ∧
    (isOversell = false → remainder = [])
  addsUp : AddsUp sell (piecesOf db db' sell.guid)
  lots : ∃ rest, (piecesOf db db' sell.guid).map Split.lotGuid =
    allocs.map (fun a => some a.lotGuid) ++ rest
  taken : r.allocations.map ConsumedShares.taken = allocs

theorem divided_divideSell {sell : Split} {runId : String} {first : Allocation}
    {rest : List Allocation} {excess : Option ℚ} {r : SplitSellResult}
    (hsell : db.split? sell.guid = some sell) (hparts : rest ≠ [] ∨ excess.isSome = true)
    (h : Completes (divideSell host sell runId first rest excess) db r db') :
    Divided sell excess.isSome (first :: rest) db db' r := by
  rw [divideSell, completes_get_bind] at h
  simp only [stashOriginal, completes_bind, completes_createSlot, completes_updateSplit] at h
  obtain ⟨_, _, ⟨_, _, rfl, _, _, rfl, _, _, rfl, _, _, rfl, rfl⟩, _, _, ⟨-, rfl⟩, subs, db₃, h₃,
    remainder, db₄, h₄, _, db₅, h₅, h₆⟩ := h
  obtain ⟨rfl, rfl⟩ := completes_pure.1 h₆
  obtain rfl := completes_assertBalanceKept h₅
  obtain ⟨rows, hrows, hamounts, hlots, htaken, hq, hv⟩ := splits_createSellSubSplits h₃
  have hfirst : partAmounts sell (sellPart sell) (!excess.isSome)
      ((first :: rest).map Allocation.shares) 0 0 = sellPart sell first.shares ::
        partAmounts sell (sellPart sell) (!excess.isSome) (rest.map Allocation.shares)
          (sellPart sell first.shares).1.num (sellPart sell first.shares).2.num := by
    refine partAmounts_cons ?_
    rintro ⟨hnil, hnone⟩
    rcases hparts with hparts | hparts
    · exact hparts (List.map_eq_nil_iff.1 hnil)
    · simp [hparts] at hnone
  obtain ⟨extra, hextra, hremainder⟩ := splits_createRemainder h₄
  have hsplits : db'.splits = editAt Split.guid sell.guid
      (fun s => { s with
        lotGuid := some first.lotGuid
        quantity := (sellPart sell first.shares).1
        value := (sellPart sell first.shares).2 }) db.splits ++ (rows ++ extra) := by
    rw [hextra, hrows, List.append_assoc]
  have hpieces := piecesOf_eq hsell (by exact fun _ => rfl) hsplits
  have hparts : (piecesOf db db' sell.guid).map amounts = partAmounts sell (sellPart sell) (!excess.isSome)
      ((first :: rest).map Allocation.shares) 0 0 ++ extra.map amounts := by
    rw [hpieces, hfirst, List.map_cons, List.map_append, hamounts]
    rfl
  have hused (w : Amount × Amount → ℤ) : ((partAmounts sell (sellPart sell) (!excess.isSome)
      ((first :: rest).map Allocation.shares) 0 0).map w).sum =
        w (sellPart sell first.shares) + (rows.map fun p => w (amounts p)).sum := by
    rw [hfirst, ← hamounts, List.map_cons, List.sum_cons, List.map_map]
    rfl
  have hdenoms : ∀ a ∈ partAmounts sell (sellPart sell) (!excess.isSome) ((first :: rest).map Allocation.shares) 0 0 ++
      extra.map amounts, a.1.denom = sell.quantity.denom ∧ a.2.denom = sell.value.denom := by
    intro a ha
    rcases List.mem_append.1 ha with ha | ha
    · exact denoms_partAmounts (sellPart_denom sell) ha
    · rw [hremainder] at ha
      split at ha
      · obtain rfl := List.mem_singleton.1 ha
        exact ⟨rfl, rfl⟩
      · cases ha
  refine ⟨⟨_, hparts, fun hfit => by rw [hremainder, hfit]; rfl⟩,
    addsUp_of_amounts hparts ?_ ?_ hdenoms, ⟨extra.map Split.lotGuid, ?_⟩, ?_⟩
  · rw [List.map_append, List.sum_append, hremainder]
    cases hexcess : excess.isSome with
    | false =>
      rw [Bool.not_false, (sum_partAmounts (by simp) 0 0).1]
      simp
    | true =>
      rw [← hexcess, hused fun a => a.1.num, hq]
      simp [amounts]
  · rw [List.map_append, List.sum_append, hremainder]
    cases hexcess : excess.isSome with
    | false =>
      rw [Bool.not_false, (sum_partAmounts (by simp) 0 0).2]
      simp
    | true =>
      rw [← hexcess, hused fun a => a.2.num, hv]
      simp [amounts]
  · rw [hpieces, List.map_cons, List.map_append, hlots]
    rfl
  · rw [List.map_cons, htaken]
    rfl

/-! ## Sales -/

theorem inOrder_guids {lots : List OpenLot} {allocs : List Allocation} (h : InOrder lots allocs) :
    (lots.take allocs.length).map OpenLot.guid = allocs.map Allocation.lotGuid := by
  induction allocs generalizing lots with
  | nil => rfl
  | cons a rest ih =>
    cases lots with
    | nil => cases rest <;> exact h.elim
    | cons lot lots =>
      cases rest with
      | nil => simp [show a.lotGuid = lot.guid from h.1]
      | cons b rest =>
        rw [List.length_cons, List.take_succ_cons, List.map_cons, List.map_cons, ih h.2.2, h.1]

theorem inOrder_length {lots : List OpenLot} {allocs : List Allocation} (h : InOrder lots allocs) :
    (lots.take allocs.length).length = allocs.length := by
  simpa using congrArg List.length (inOrder_guids h)

theorem Leaves.nonneg {denom : ℤ} (hd : 0 < denom) {least : ℚ} {lots : List OpenLot}
    {pieces : List Split} (h : Leaves least lots pieces) (hunits : WholeUnits denom lots)
    (hdenoms : ∀ p ∈ pieces, p.quantity.denom = denom) (hleast : -1 < least * denom) :
    Leaves 0 lots pieces := by
  refine ⟨h.1, List.forall₂_iff_zip.2 ⟨(List.forall₂_iff_zip.1 h.2).1, fun {l p} hmem => ?_⟩⟩
  have hle := (List.forall₂_iff_zip.1 h.2).2 hmem
  obtain ⟨hl, hp⟩ := List.of_mem_zip hmem
  obtain ⟨k, hk⟩ := hunits l hl
  have hd : (0 : ℚ) < denom := by exact_mod_cast hd
  have hsum : (l.shares + p.quantity.exact) * denom = ((k + p.quantity.num : ℤ) : ℚ) := by
    rw [add_mul, hk, Amount.exact, hdenoms p (List.mem_of_mem_take hp), div_mul_cancel₀ _ hd.ne',
      Int.cast_add]
  have hlow : ((-1 : ℤ) : ℚ) < ((k + p.quantity.num : ℤ) : ℚ) := by
    rw [← hsum, Int.cast_neg, Int.cast_one]
    exact hleast.trans_le (mul_le_mul_of_nonneg_right hle hd.le)
  have hlow := Int.cast_lt.1 hlow
  refine nonneg_of_mul_nonneg_left ?_ hd
  rw [hsum]
  exact_mod_cast (by omega : (0 : ℤ) ≤ k + p.quantity.num)

/-- How far a sale can overdraw a lot of whole units. -/
def overdraft (sell : Split) (qtyEpsilon : ℚ) : ℚ :=
  qtyEpsilon + |sell.qty - sell.quantity.exact|

theorem exact_add_abs_qty (sell : Split) :
    -|sell.qty - sell.quantity.exact| - |sell.qty| ≤ sell.quantity.exact := by
  linarith [neg_abs_le sell.qty, neg_le_abs (sell.qty - sell.quantity.exact), le_abs_self
    (sell.qty - sell.quantity.exact)]

theorem leaves_nil {least : ℚ} {pieces : List Split} : Leaves least [] pieces :=
  ⟨rfl, .nil⟩

theorem Divided.leaves {sell : Split} {isOversell : Bool} {allocs : List Allocation}
    {r : SplitSellResult} (h : Divided sell isOversell allocs db db' r) {lots : List OpenLot}
    (horder : InOrder lots allocs) {least : ℚ}
    (hleast : List.Forall₂ (fun (l : OpenLot) (a : Amount × Amount) => least ≤ l.shares + a.1.exact)
      (lots.take allocs.length)
      (partAmounts sell (sellPart sell) (!isOversell) (allocs.map Allocation.shares) 0 0)) :
    Leaves least (lots.take allocs.length) (piecesOf db db' sell.guid) := by
  obtain ⟨remainder, hamounts, -⟩ := h.parts
  obtain ⟨rest, hlots⟩ := h.lots
  have hlength := inOrder_length horder
  unfold Leaves
  rw [hlength]
  constructor
  · have hguids := congrArg (List.map some) (inOrder_guids horder)
    rw [List.map_map, List.map_map] at hguids
    rw [List.map_take, hlots, List.take_left' (List.length_map _)]
    exact hguids.symm
  · have hparts : ((piecesOf db db' sell.guid).take allocs.length).map amounts =
        partAmounts sell (sellPart sell) (!isOversell) (allocs.map Allocation.shares) 0 0 := by
      rw [List.map_take, hamounts, List.take_left' (by rw [length_partAmounts, List.length_map])]
    rw [← hparts, List.forall₂_map_right_iff] at hleast
    exact hleast

theorem sell_pieces {sellSplitGuid runId : String} {openLots : List OpenLot} {qtyEpsilon : ℚ}
    {sell : Split} {r : SplitSellResult} (hsell : db.split? sellSplitGuid = some sell)
    (heps : 0 < qtyEpsilon)
    (h : Completes (splitSellAcrossLots host sellSplitGuid openLots runId qtyEpsilon) db r db') :
    let lots := openLots.filter fun l => qtyEpsilon < l.shares
    AddsUp sell (piecesOf db db' sellSplitGuid) ∧
      InOrder lots (r.allocations.map ConsumedShares.taken) ∧
      (0 < sell.quantity.denom → WholeUnits sell.quantity.denom openLots →
        Leaves (-overdraft sell qtyEpsilon) (lots.take r.allocations.length)
          (piecesOf db db' sellSplitGuid)) := by
  have hover : 0 ≤ overdraft sell qtyEpsilon := add_nonneg heps.le (abs_nonneg _)
  obtain rfl : sell.guid = sellSplitGuid := (mem_of_split? hsell).2
  unfold splitSellAcrossLots at h
  rw [completes_get_bind, hsell] at h
  dsimp only at h ⊢
  by_cases hzero : |sell.qty| < qtyEpsilon
  · rw [if_pos hzero] at h
    obtain ⟨rfl, rfl⟩ := completes_pure.1 h
    rw [piecesOf_of_eq hsell rfl]
    exact ⟨addsUp_self (l := sell.lotGuid), inOrder_nil _, fun _ _ => leaves_nil⟩
  rw [if_neg hzero] at h
  generalize hlots : openLots.filter (fun l => qtyEpsilon < l.shares) = lots at h ⊢
  have horder := inOrder_allocate heps lots |sell.qty|
  have hleft := @allocate_left qtyEpsilon lots |sell.qty|
  have hfull := @fully_allocate _ heps lots |sell.qty|
  generalize allocate qtyEpsilon lots |sell.qty| = result at horder hleft hfull h
  obtain ⟨allocs, leftToSell⟩ := result
  dsimp only at horder hleft hfull h
  cases allocs with
  | nil =>
    obtain ⟨rfl, rfl⟩ := completes_pure.1 h
    rw [piecesOf_of_eq hsell rfl]
    exact ⟨addsUp_self (l := sell.lotGuid), inOrder_nil _, fun _ _ => leaves_nil⟩
  | cons first rest =>
    have hunitsOf (hunits : WholeUnits sell.quantity.denom openLots) :
        WholeUnits sell.quantity.denom lots := by
      intro l hl
      rw [← hlots] at hl
      exact hunits l (List.mem_of_mem_filter hl)
    by_cases hfits : rest = [] ∧ ¬qtyEpsilon < leftToSell
    · simp only [if_pos hfits, completes_bind, completes_updateSplit, completes_pure] at h
      obtain ⟨_, _, ⟨-, rfl⟩, rfl, rfl⟩ := h
      obtain ⟨rfl, hfits⟩ := hfits
      have hpieces := @piecesOf_eq db { db with
        splits := editAt Split.guid sell.guid
          (fun s => { s with lotGuid := some first.lotGuid }) db.splits }
        _ _ _ [] hsell (by exact fun _ => rfl) (List.append_nil _).symm
      rw [hpieces]
      refine ⟨addsUp_self, horder, fun _ _ => ?_⟩
      cases lots with
      | nil => exact horder.elim
      | cons lot lots =>
        refine ⟨congrArg (fun g => [some g]) horder.1, .cons ?_ .nil⟩
        have hle : first.shares ≤ lot.shares := horder.2
        have hexact := exact_add_abs_qty sell
        simp only [List.map_cons, List.map_nil, List.sum_cons, List.sum_nil, add_zero] at hleft
        change -overdraft sell qtyEpsilon ≤ lot.shares + sell.quantity.exact
        unfold overdraft
        linarith
    · dsimp only at h
      rw [if_neg hfits] at h
      have hdivided := divided_divideSell hsell (by
        by_cases hnil : rest = []
        · exact .inr (by rw [if_pos (not_not.1 fun hn => hfits ⟨hnil, hn⟩)]; rfl)
        · exact .inl hnil) h
      have hlength : r.allocations.length = (first :: rest).length := by
        rw [← hdivided.taken, List.length_map]
      rw [hdivided.taken, hlength]
      refine ⟨hdivided.addsUp, horder, fun hd hunits => hdivided.leaves horder ?_⟩
      have hunits := hunitsOf hunits
      by_cases hexcess : qtyEpsilon < leftToSell
      · have hall := hfull hexcess
        rw [if_pos hexcess, ← hall.length_eq, List.take_length]
        exact (leaves_oversell hd hunits hall 0 0).imp fun l a hla =>
          hla.symm ▸ neg_nonpos.2 hover
      · rw [if_neg hexcess]
        refine leaves_complete (neg_nonpos.2 hover) hd hunits horder ?_
        have hexact := exact_add_abs_qty sell
        rw [sub_zero]
        change -overdraft sell qtyEpsilon - _ ≤ sell.quantity.exact
        unfold overdraft
        linarith

def saleOf (units : ℤ) : Db :=
  ⟨[⟨"fund", "Fund", .mutual, some "fund", 100, none⟩], [⟨"t", "usd", some 5, "Sell"⟩],
    [⟨"s", "t", "fund", "", "", .n, none, ⟨-1200, 100⟩, ⟨-units, 100000⟩, none⟩], [], [], [], [], 0⟩

end Lots
