import GnucashWeb.Lots.ScrubMoves

/-!
# Divisions add up

Sales, transfers and stock splits divide a split into parts whose amounts add up to those of the
split, and a valuation changes values of the revalued pairs only: each advances the run.
-/

open Ledger Transact Rows

namespace Lots

variable {host : Host} {c : Scope} {db db' : Db}

variable {u : Unit} {eps : ℚ} {sell split : Split} {usedQtyNum usedValNum : ℤ} {g : String}

theorem completes_assertBalanceKept {txGuid : String} {before : ℚ}
    (h : Completes (assertBalanceKept txGuid before) db u db') : db' = db := by
  simp only [assertBalanceKept, completes_bind, completes_get, completes_onlyIf, completes_throw,
    and_false, false_or] at h
  obtain ⟨_, _, ⟨rfl, rfl⟩, -, rfl⟩ := h
  rfl

/-! ## Sales -/

theorem sellPart_denom (sell : Split) (shares : ℚ) :
    (sellPart sell shares).1.denom = sell.quantity.denom ∧
      (sellPart sell shares).2.denom = sell.value.denom :=
  ⟨rfl, rfl⟩

theorem allocate_lotGuid {lots : List OpenLot} {shares : ℚ} {a : Allocation}
    (h : a ∈ (allocate eps lots shares).1) : ∃ l ∈ lots, l.guid = a.lotGuid := by
  induction lots generalizing shares with
  | nil => cases h
  | cons lot lots ih =>
    rw [allocate] at h
    split at h
    · cases h
    · rcases List.mem_cons.1 h with rfl | h
      · exact ⟨lot, by simp, rfl⟩
      · obtain ⟨l, hl, he⟩ := ih h
        exact ⟨l, List.mem_cons_of_mem _ hl, he⟩

/-- What the sub-splits of a division do: they take the parts between two numerators, cover the
split and, when they are complete, use its amounts up. -/
structure SellParts (host : Host) (c : Scope) (sell : Split) (complete : Prop) (db : Db)
    (usedQtyNum usedValNum : ℤ) (r : List ConsumedShares × ℤ × ℤ) (db' : Db) : Prop where
  stage : Stage host c sell db db' (Amount.exact ⟨r.2.1 - usedQtyNum, sell.quantity.denom⟩)
    (Amount.exact ⟨r.2.2 - usedValNum, sell.value.denom⟩)
  covered : complete → Covered c (marked db') sell
  usedUp : complete → r.2.1 = sell.quantity.num ∧ r.2.2 = sell.value.num
  tagged : ∀ a ∈ r.1, (marked db').Tagged c.run a.splitGuid

theorem stage_createSellSubSplits {isOversell : Bool} {allocs : List Allocation}
    {r : List ConsumedShares × ℤ × ℤ} (hr : Ready host c db)
    (hp : Dividing c db sell) (hl : ∀ a ∈ allocs, c.Fills (marked db) a.lotGuid)
    (h : Completes (createSellSubSplits host sell c.run isOversell allocs usedQtyNum usedValNum)
      db r db') :
    SellParts host c sell (allocs ≠ [] ∧ isOversell = false) db usedQtyNum usedValNum r db' := by
  induction allocs generalizing db usedQtyNum usedValNum r with
  | nil =>
    obtain ⟨rfl, rfl⟩ := completes_pure.1 h
    refine ⟨?_, fun h => absurd rfl h.1, fun h => absurd rfl h.1, by simp⟩
    simpa [Amount.exact] using Stage.refl sell db'
  | cons alloc rest ih =>
    simp only [createSellSubSplits, completes_bind] at h
    obtain ⟨subGuid, db₁, h₁, r', db₂, h₂, h₃⟩ := h
    obtain ⟨rfl, rfl⟩ := completes_pure.1 h₃
    generalize hpart : (if rest = [] ∧ (!isOversell) = true then
      ((⟨sell.quantity.num - usedQtyNum, sell.quantity.denom⟩ : Amount),
        (⟨sell.value.num - usedValNum, sell.value.denom⟩ : Amount))
      else sellPart sell alloc.shares) = part at h₁ h₂
    have hdenom : part.1.denom = sell.quantity.denom ∧ part.2.denom = sell.value.denom := by
      rw [← hpart]
      split
      · exact ⟨rfl, rfl⟩
      · exact sellPart_denom sell alloc.shares
    have hcarved := stage_createSubSplit hr hp (fun l hl' => ?_) h₁
    · have hrest := ih (hr.of_path hcarved.stage.path) (hp.of_path hcarved.stage.path)
        (fun a ha => hcarved.stage.path.fills (hl a (List.mem_cons_of_mem _ ha))) h₂
      refine ⟨(hcarved.stage.trans hrest.stage).congr ?_ ?_, fun _ => ?_, fun hc => ?_, ?_⟩
      · have hq : part.1 = ⟨part.1.num, sell.quantity.denom⟩ := by rw [← hdenom.1]
        rw [hq, ← Amount.exact_add]
        congr 2
        ring
      · have hv : part.2 = ⟨part.2.num, sell.value.denom⟩ := by rw [← hdenom.2]
        rw [hv, ← Amount.exact_add]
        congr 2
        ring
      · exact hcarved.covered.mono (SameRow.refl sell) hrest.stage.path
      · by_cases hnil : rest = []
        · subst hnil
          obtain ⟨rfl, -⟩ := completes_pure.1 h₂
          rw [if_pos ⟨rfl, by simp [hc.2]⟩] at hpart
          rw [← hpart]
          exact ⟨by ring, by ring⟩
        · exact hrest.usedUp ⟨hnil, hc.2⟩
      · intro a ha
        rcases List.mem_cons.1 ha with rfl | ha
        · exact tagged_of_isPrefix hrest.stage.path.marks_isPrefix hcarved.tagged
        · exact hrest.tagged a ha
    · cases hl'
      exact hl alloc (by simp)

theorem stage_createRemainder {isOversell : Bool}
    {r : List String} (hr : Ready host c db) (hp : Dividing c db sell)
    (h : Completes (createRemainder host sell c.run isOversell usedQtyNum usedValNum) db r db') :
    (isOversell = true ∧ Covered c (marked db') sell ∧
      Stage host c sell db db' (Amount.exact ⟨sell.quantity.num - usedQtyNum, sell.quantity.denom⟩)
        (Amount.exact ⟨sell.value.num - usedValNum, sell.value.denom⟩)) ∨
      isOversell = false ∧ db' = db := by
  cases isOversell with
  | false =>
    obtain ⟨-, rfl⟩ := completes_pure.1 h
    exact .inr ⟨rfl, rfl⟩
  | true =>
    obtain ⟨subGuid, db₁, h₁, h₂⟩ := completes_bind.1 h
    obtain ⟨-, rfl⟩ := completes_pure.1 h₂
    have hcarved := stage_createSubSplit hr hp (by simp) h₁
    exact .inl ⟨rfl, hcarved.covered, hcarved.stage⟩

/-- The splits that carry the shares of a sale may be priced by the run. -/
def Priceable (c : Scope) (db : Db) (g : String) : Prop :=
  c.Assignable g ∨ (marked db).Tagged c.run g

theorem advance_divideSell {first : Allocation} {rest : List Allocation}
    {excess : Option ℚ} {r : SplitSellResult} (hr : Ready host c db) (hs : sell ∈ db.splits)
    (hg : c.Rewritable sell.guid) (ha : c.Assignable sell.guid)
    (hl : ∀ a ∈ first :: rest, c.Fills (marked db) a.lotGuid)
    (hparts : rest ≠ [] ∨ excess.isSome = true)
    (h : Completes (divideSell host sell c.run first rest excess) db r db') :
    Advance host c db db' ∧ ∀ a ∈ r.allocations, Priceable c db' a.splitGuid := by
  simp only [divideSell, completes_bind, completes_get] at h
  obtain ⟨_, _, ⟨rfl, rfl⟩, _, db₁, h₁, _, db₂, h₂, subs, db₃, h₃, remainder, db₄, h₄, _, db₅, h₅,
    h₆⟩ := h
  obtain ⟨rfl, rfl⟩ := completes_pure.1 h₆
  obtain rfl := completes_assertBalanceKept h₅
  obtain ⟨s₁, hsplits, hst⟩ := stage_stash hs hg h₁
  have hr₁ := hr.of_path s₁.path
  have s₂ := stage_rewrite_assign hr₁ (hsplits ▸ hs) hg ha hst
    (s₁.path.fills (hl first (by simp))) (fun _ => sellPart sell first.shares) h₂
  have s₁₂ := s₁.trans s₂
  have hrow : Dividing c db₁ sell := ⟨⟨sell, hsplits ▸ hs, SameRow.refl sell⟩, hg, hst⟩
  have hparts₃ := stage_createSellSubSplits (hr.of_path s₁₂.path) (hrow.of_path s₂.path)
    (fun a ha => s₁₂.path.fills (hl a (List.mem_cons_of_mem _ ha))) h₃
  have s₁₂₃ := s₁₂.trans hparts₃.stage
  have hq : (sellPart sell first.shares).1.exact =
      Amount.exact ⟨(sellPart sell first.shares).1.num, sell.quantity.denom⟩ := rfl
  have hv : (sellPart sell first.shares).2.exact =
      Amount.exact ⟨(sellPart sell first.shares).2.num, sell.value.denom⟩ := rfl
  have hsell (n : ℤ) : Amount.exact ⟨sell.quantity.num - n, sell.quantity.denom⟩ =
      sell.quantity.exact - Amount.exact ⟨n, sell.quantity.denom⟩ := Amount.exact_sub ..
  rcases stage_createRemainder (hr.of_path s₁₂₃.path)
      ((hrow.of_path s₂.path).of_path hparts₃.stage.path) h₄ with
    ⟨_, hcov, s₄⟩ | ⟨hover, rfl⟩
  · have s := s₁₂₃.trans s₄
    refine ⟨s.advance hr hs (SameRow.refl sell) ?_ (.inl ?_) fun _ => hcov, ?_⟩
    · simp only [hq, Amount.exact_sub]
      change _ + (sell.quantity.exact - _) = _
      ring
    · simp only [hv, Amount.exact_sub]
      change _ + (sell.value.exact - _) = _
      ring
    · intro a ha'
      rcases List.mem_cons.1 ha' with rfl | ha'
      · exact .inl ha
      · exact .inr (tagged_of_isPrefix s₄.path.marks_isPrefix (hparts₃.tagged a ha'))
  · have hrest : rest ≠ [] := hparts.resolve_right (by simp [hover])
    obtain ⟨hqn, hvn⟩ := hparts₃.usedUp ⟨hrest, hover⟩
    refine ⟨s₁₂₃.advance hr hs (SameRow.refl sell) ?_ (.inl ?_) fun _ =>
      hparts₃.covered ⟨hrest, hover⟩, ?_⟩
    · simp only [hq, hqn, Amount.exact_sub]
      change _ + (sell.quantity.exact - _) = _
      ring
    · simp only [hv, hvn, Amount.exact_sub]
      change _ + (sell.value.exact - _) = _
      ring
    · intro a ha'
      rcases List.mem_cons.1 ha' with rfl | ha'
      · exact .inl ha
      · exact .inr (hparts₃.tagged a ha')

theorem advance_splitSellAcrossLots {openLots : List OpenLot}
    {r : SplitSellResult} (hr : Ready host c db) (hg : c.Rewritable g) (ha : c.Assignable g)
    (hl : ∀ l ∈ openLots, c.Fills (marked db) l.guid)
    (h : Completes (splitSellAcrossLots host g openLots c.run eps) db r db') :
    Advance host c db db' ∧ ∀ a ∈ r.allocations, Priceable c db' a.splitGuid := by
  rw [splitSellAcrossLots, completes_get_bind] at h
  cases hs : db.split? g with
  | none =>
    simp only [hs, completes_throw] at h
  | some sell =>
    obtain ⟨hmem, rfl⟩ := mem_of_split? hs
    simp only [hs] at h
    split at h
    · obtain ⟨rfl, rfl⟩ := completes_pure.1 h
      exact ⟨Advance.refl _, by simp⟩
    · cases halloc : allocate eps (openLots.filter fun l => eps < l.shares) |sell.qty| with
      | mk allocs leftToSell =>
        have hfill (a : Allocation) (ha : a ∈ allocs) : c.Fills (marked db) a.lotGuid := by
          have hmem : a ∈ (allocate eps (openLots.filter fun l => eps < l.shares)
            |sell.qty|).1 := by rw [halloc]; exact ha
          obtain ⟨l, hl', he⟩ := allocate_lotGuid hmem
          exact he ▸ hl l (List.mem_filter.1 hl').1
        simp only [halloc] at h
        cases allocs with
        | nil =>
          obtain ⟨rfl, rfl⟩ := completes_pure.1 h
          exact ⟨Advance.refl _, by simp⟩
        | cons first rest =>
          simp only at h
          split at h
          · obtain ⟨_, db₁, h₁, h₂⟩ := completes_bind.1 h
            obtain ⟨rfl, rfl⟩ := completes_pure.1 h₂
            refine ⟨advance_assign hr ha (hfill first (by simp)) h₁, ?_⟩
            simpa using .inl ha
          · rename_i hnot
            refine advance_divideSell hr hmem hg ha hfill ?_ h
            by_cases hrest : rest = []
            · refine .inr ?_
              have hleft : eps < leftToSell := by
                by_contra hc
                exact hnot ⟨hrest, hc⟩
              rw [if_pos hleft]
              rfl
            · exact .inl hrest

theorem stage_createDestLot {p : Split} {postDate : Option ℤ} {shares : ℚ}
    {source : Option (Split × String)} {l : String}
    (h : Completes (createDestLot host split postDate c.run shares source) db l db') :
    Stage host c p db db' 0 0 ∧ c.Fills (marked db') l ∧ db'.splits = db.splits := by
  obtain ⟨db₁, hopen, hunseen⟩ := opened_createDestLot h
  have hmarked : marked db' = marked db₁ := hunseen
  refine ⟨((hopen.stage).trans (hunseen.stage p)).congr (by ring) (by ring), ?_, ?_⟩
  · rw [hmarked]
    exact hopen.fills
  · exact (congrArg Marked.splits hmarked).trans hopen.splits

theorem stage_createTransferSubSplits {postDate : Option ℤ}
    {source : (Split × String) × ℚ} {rest : List ((Split × String) × ℚ)}
    {r : List String} (hr : Ready host c db) (hp : Dividing c db split)
    (h : Completes (createTransferSubSplits host split postDate c.run (source :: rest) usedQtyNum
      usedValNum) db r db') :
    Stage host c split db db'
        (Amount.exact ⟨split.quantity.num - usedQtyNum, split.quantity.denom⟩)
        (Amount.exact ⟨split.value.num - usedValNum, split.value.denom⟩) ∧
      Covered c (marked db') split ∧ ∀ l ∈ r, c.Fills (marked db') l := by
  induction rest generalizing db source usedQtyNum usedValNum r with
  | nil =>
    simp only [createTransferSubSplits, completes_bind] at h
    obtain ⟨lotGuid, db₁, h₁, g, db₂, h₂, r', db₃, h₃, h₄⟩ := h
    obtain ⟨rfl, rfl⟩ := completes_pure.1 h₃
    obtain ⟨rfl, rfl⟩ := completes_pure.1 h₄
    obtain ⟨s₁, hfill, -⟩ := stage_createDestLot (p := split) h₁
    have hcarved := stage_createSubSplit (hr.of_path s₁.path) (hp.of_path s₁.path)
      (fun l hl => by cases hl; exact hfill) h₂
    refine ⟨(s₁.trans hcarved.stage).congr ?_ ?_, hcarved.covered, ?_⟩
    · simp
    · simp
    · simpa using hcarved.stage.path.fills hfill
  | cons next rest ih =>
    rw [createTransferSubSplits, completes_bind] at h
    obtain ⟨lotGuid, db₁, h₁, h⟩ := h
    obtain ⟨g, db₂, h₂, h⟩ := completes_bind.1 h
    obtain ⟨r', db₃, h₃, h₄⟩ := completes_bind.1 h
    obtain ⟨rfl, rfl⟩ := completes_pure.1 h₄
    simp only [List.cons_ne_nil, if_false] at h₂ h₃
    obtain ⟨s₁, hfill, -⟩ := stage_createDestLot (p := split) h₁
    have hcarved := stage_createSubSplit (hr.of_path s₁.path) (hp.of_path s₁.path)
      (fun l hl => by cases hl; exact hfill) h₂
    have s₂ := s₁.trans hcarved.stage
    obtain ⟨s₃, hcov, hfills⟩ := ih (hr.of_path s₂.path) (hp.of_path s₂.path) h₃
    have hq : (transferPart split source.2).1.exact =
        Amount.exact ⟨(transferPart split source.2).1.num, split.quantity.denom⟩ := rfl
    have hv : (transferPart split source.2).2.exact =
        Amount.exact ⟨(transferPart split source.2).2.num, split.value.denom⟩ := rfl
    refine ⟨(s₂.trans s₃).congr ?_ ?_, hcov, ?_⟩
    · rw [zero_add, hq, ← Amount.exact_add]
      congr 2
      ring
    · rw [zero_add, hv, ← Amount.exact_add]
      congr 2
      ring
    · intro l hl
      rcases List.mem_cons.1 hl with rfl | hl
      · exact s₃.path.fills (hcarved.stage.path.fills hfill)
      · exact hfills l hl

theorem advance_linkTransferToLot {r : LinkTransferResult} (hr : Ready host c db)
    (ha : c.Assignable g) (h : Completes (linkTransferToLot host g c.run) db r db') :
    Advance host c db db' ∧ (r.created = true → c.Fills (marked db') r.lotGuid) := by
  rw [linkTransferToLot, completes_get_bind] at h
  cases hs : db.split? g with
  | none => simp only [hs, completes_throw] at h
  | some split =>
    simp only [hs] at h
    cases hlot : split.lotGuid with
    | some l =>
      simp only [hlot] at h
      obtain ⟨rfl, rfl⟩ := completes_pure.1 h
      exact ⟨Advance.refl _, by simp⟩
    | none =>
      simp only [hlot, completes_bind] at h
      obtain ⟨l, db₁, h₁, _, db₂, h₂, _, db₃, h₃, h₄⟩ := h
      obtain ⟨rfl, rfl⟩ := completes_pure.1 h₄
      obtain ⟨db₀, hopen, hunseen⟩ := opened_createDestLot h₁
      have a₁ : Advance host c db db₁ := (hopen.advance hr).trans hunseen.advance
      have hfill : c.Fills (marked db₁) l := by
        rw [show marked db₁ = marked db₀ from hunseen]
        exact hopen.fills
      have a₂ := advance_assign (hr.of_advance a₁) ha hfill h₂
      have a₃ : Unseen db₂ db' := by
        refine preserves_option_forM (fun s _ => ?_) _ _ _ h₃
        exact (preserves_reconcileCarriedBasisForSourceLots host _).bind fun _ =>
          preserves_pure _
      exact ⟨(a₁.trans a₂).trans a₃.advance, fun _ => (a₂.trans a₃.advance).fills hfill⟩

theorem advance_divideTransfer {first second : (Split × String) × ℚ}
    {rest : List ((Split × String) × ℚ)} {r : SplitTransferResult} (hr : Ready host c db)
    (hs : split ∈ db.splits) (hg : c.Rewritable split.guid) (ha : c.Assignable split.guid)
    (h : Completes (divideTransfer host split c.run first (second :: rest)) db r db') :
    Advance host c db db' ∧ ∀ l ∈ r.lotGuids, c.Fills (marked db') l := by
  rw [divideTransfer, completes_get_bind] at h
  simp only [completes_bind] at h
  obtain ⟨_, db₁, h₁, l, db₂, h₂, _, db₃, h₃, ls, db₄, h₄, _, db₅, h₅, _, db₆, h₆, h₇⟩ := h
  obtain ⟨rfl, rfl⟩ := completes_pure.1 h₇
  obtain rfl : db' = db₅ := by
    rcases completes_onlyIf.1 h₆ with ⟨-, h₆⟩ | ⟨-, h₆⟩
    · exact completes_assertBalanceKept h₆
    · exact h₆
  obtain ⟨s₁, hsplits, hst⟩ := stage_stash hs hg h₁
  obtain ⟨s₂, hfill, hsplits₂⟩ := stage_createDestLot (p := split) h₂
  have s₁₂ := s₁.trans s₂
  have hmem : split ∈ db₂.splits := by rwa [hsplits₂, hsplits]
  have s₃ := stage_rewrite_assign (hr.of_path s₁₂.path) hmem hg ha
    (stashed_of_isPrefix s₂.path.marks_isPrefix hst) hfill (fun _ => transferPart split first.2) h₃
  have s₁₂₃ := s₁₂.trans s₃
  have hrow : Dividing c db₂ split := ⟨⟨split, hmem, SameRow.refl split⟩, hg,
    stashed_of_isPrefix s₂.path.marks_isPrefix hst⟩
  obtain ⟨s₄, hcov, hfills⟩ := stage_createTransferSubSplits (hr.of_path s₁₂₃.path)
    (hrow.of_path s₃.path) h₄
  have hunseen : Unseen db₄ db' := preserves_reconcileCarriedBasisForSourceLots host _ _ _ _ h₅
  have s := (s₁₂₃.trans s₄).trans (hunseen.stage split)
  have hq : (transferPart split first.2).1.exact =
      Amount.exact ⟨(transferPart split first.2).1.num, split.quantity.denom⟩ := rfl
  have hv : (transferPart split first.2).2.exact =
      Amount.exact ⟨(transferPart split first.2).2.num, split.value.denom⟩ := rfl
  have hmarked : marked db' = marked db₄ := hunseen
  refine ⟨s.advance hr hs (SameRow.refl split) ?_ (.inl ?_) fun _ => ?_, ?_⟩
  · simp only [hq, Amount.exact_sub]
    change _ + (split.quantity.exact - _) + 0 = _
    ring
  · simp only [hv, Amount.exact_sub]
    change _ + (split.value.exact - _) + 0 = _
    ring
  · rwa [hmarked]
  · rw [hmarked]
    intro l' hl
    rcases List.mem_cons.1 hl with rfl | hl
    · exact s₄.path.fills (s₃.path.fills hfill)
    · exact hfills l' hl

theorem advance_splitTransferAcrossSourceLots {r : SplitTransferResult}
    (hr : Ready host c db) (hg : c.Rewritable g) (ha : c.Assignable g)
    (h : Completes (splitTransferAcrossSourceLots host g c.run) db r db') :
    Advance host c db db' ∧ ∀ l ∈ r.lotGuids, c.Fills (marked db') l := by
  rw [splitTransferAcrossSourceLots, completes_get_bind] at h
  cases hs : db.split? g with
  | none => simp only [hs, completes_throw] at h
  | some split =>
    obtain ⟨hmem, rfl⟩ := mem_of_split? hs
    simp only [hs] at h
    split at h
    · obtain ⟨rfl, rfl⟩ := completes_pure.1 h
      exact ⟨Advance.refl _, by simp⟩
    · split at h
      · exact advance_divideTransfer hr hmem hg ha h
      · obtain ⟨linked, db₁, h₁, h₂⟩ := completes_bind.1 h
        obtain ⟨rfl, rfl⟩ := completes_pure.1 h₂
        obtain ⟨a, hfill⟩ := advance_linkTransferToLot hr ha h₁
        refine ⟨a, fun l hl => ?_⟩
        cases hcreated : linked.created with
        | false => simp [hcreated] at hl
        | true =>
          simp only [hcreated, if_true, List.mem_singleton] at hl
          exact hl ▸ hfill hcreated

/-! ## Valuations -/

/-- The zero-value legs of a split's transaction may be revalued. -/
def Valuable (c : Scope) (e : Split) (db : Db) : Prop :=
  ∀ s ∈ db.splits, s.txGuid = e.txGuid → (s.guid = e.guid ∨ s.accountGuid ≠ e.accountGuid) →
    |s.val| ≤ moneyDisplayEpsilon → c.Rewritable s.guid ∧ c.Revalued s.txGuid s.accountGuid

theorem mem_counterLegs {s : Split} (h : s ∈ counterLegs db split) :
    s ∈ db.splits ∧ s.txGuid = split.txGuid ∧ s.guid ≠ split.guid ∧
      s.accountGuid ≠ split.accountGuid ∧ |s.val| < moneyDisplayEpsilon := by
  obtain ⟨h₁, h₂⟩ := List.mem_filter.1 h
  obtain ⟨hmem, htx⟩ := List.mem_filter.1 h₁
  obtain ⟨hg, ha, -, -, -, -, hv⟩ := of_decide_eq_true h₂
  exact ⟨hmem, of_decide_eq_true htx, hg, ha, hv⟩

theorem largestLeg_mem (leg : Split) (legs : List Split) : largestLeg leg legs ∈ leg :: legs := by
  induction legs generalizing leg with
  | nil => simp [largestLeg]
  | cons next legs ih =>
    have hstep := ih (if |leg.qty| < |next.qty| then next else leg)
    rw [largestLeg, List.foldl_cons]
    rw [largestLeg] at hstep
    rcases List.mem_cons.1 hstep with h | h
    · rw [h]
      split <;> simp
    · exact List.mem_cons_of_mem _ (List.mem_cons_of_mem _ h)

theorem stage_valueLeg {leg : Split} {value : ℚ} (hr : Ready host c db) (hs : leg ∈ db.splits)
    (hg : c.Rewritable leg.guid) (h : Completes (valueLeg c.run value leg) db u db') :
    (∃ dv, Stage host c leg db db' 0 dv) ∧
      ∀ s ∈ db'.splits, s ∈ db.splits ∨ SameRow leg s := by
  simp only [valueLeg, completes_bind] at h
  obtain ⟨_, db₁, h₁, h₂⟩ := h
  generalize fromDecimal (if 0 < leg.qty then value else -value)
    (if 0 < leg.value.denom then leg.value.denom else 100) = newVal at h₂
  have hstash : Stage host c leg db db₁ 0 0 ∧ _ := stage_stash hs hg h₁
  obtain ⟨s₁, hsplits, hst⟩ := hstash
  have s₂ := stage_rewrite (hr.of_path s₁.path) (hsplits ▸ hs) hg hst
    (fun s => (s.quantity, newVal)) h₂
  refine ⟨⟨_, (s₁.trans s₂).congr (by simp) rfl⟩, fun s hs' => ?_⟩
  obtain ⟨-, rfl⟩ := completes_updateSplit.1 h₂
  obtain ⟨s₀, hs₀, rfl⟩ := mem_editAt.1 hs'
  rw [hsplits] at hs₀
  split
  · rename_i hguid
    have heq : s₀ = leg := List.inj_on_of_nodup_map hr.sound.nodup hs₀ hs hguid
    subst heq
    exact .inr rfl
  · exact .inl hs₀

theorem completes_assertSplitsNotProtected {operation : String}
    {accountName : Split → Option String} {rows : List Split}
    (h : Completes (assertSplitsNotProtected operation accountName rows) db u db') :
    db' = db ∧ ∀ s ∈ rows, ¬Protected s := by
  simp only [assertSplitsNotProtected, completes_onlyIf, completes_throw, and_false, false_or,
    not_not] at h
  refine ⟨h.2, fun s hs hprot => ?_⟩
  have hnil := List.map_eq_nil_iff.1 h.1
  exact List.filter_eq_nil_iff.1 hnil s hs (decide_eq_true hprot)

theorem advance_valueZeroValueTrade {e : Split} {r : ValueTradeResult} (hr : Ready host c db)
    (he : HasRow db e) (hvalue : Valuable c e db)
    (h : Completes (valueZeroValueTrade host e.guid c.run) db r db') :
    Advance host c db db' ∧ ∀ s ∈ db'.splits, s ∈ db.splits ∨
      c.Rewritable s.guid ∧ c.Revalued s.txGuid s.accountGuid := by
  have hid : Advance host c db db ∧ ∀ s ∈ db.splits, s ∈ db.splits ∨
      c.Rewritable s.guid ∧ c.Revalued s.txGuid s.accountGuid :=
    ⟨Advance.refl db, fun s hs => .inl hs⟩
  rw [valueZeroValueTrade, completes_get_bind] at h
  cases hs : db.split? e.guid with
  | none => simp only [hs, completes_throw] at h
  | some split =>
    obtain ⟨hmem, hguid⟩ := mem_of_split? hs
    obtain ⟨e₀, he₀, hrow⟩ := he
    have heq : e₀ = split := List.inj_on_of_nodup_map hr.sound.nodup he₀ hmem
      (hrow.guid_eq.symm.trans hguid.symm)
    subst heq
    simp only [hs] at h
    split at h
    · obtain ⟨-, rfl⟩ := completes_pure.1 h
      exact hid
    rename_i hsmall
    split at h
    · obtain ⟨-, rfl⟩ := completes_pure.1 h
      exact hid
    split at h
    · obtain ⟨-, rfl⟩ := completes_pure.1 h
      exact hid
    rename_i leg legs hlegs
    split at h
    · obtain ⟨-, rfl⟩ := completes_pure.1 h
      exact hid
    rename_i value _
    generalize hcounter : largestLeg leg legs = counter at h
    have hleg : counter ∈ counterLegs db e₀ := by
      rw [hlegs, ← hcounter]
      exact largestLeg_mem leg legs
    obtain ⟨hcmem, hctx, hcg, hca, hcv⟩ := mem_counterLegs hleg
    simp only [completes_bind] at h
    obtain ⟨_, db₁, h₁, _, db₂, h₂, _, db₃, h₃, h₄⟩ := h
    obtain ⟨-, rfl⟩ := completes_pure.1 h₄
    obtain ⟨rfl, hprot⟩ := completes_assertSplitsNotProtected h₁
    obtain ⟨hown, hownCell⟩ := hvalue e₀ hmem hrow.txGuid_eq.symm (.inl hrow.guid_eq.symm)
      (not_lt.1 hsmall)
    obtain ⟨hother, hotherCell⟩ := hvalue counter hcmem (hctx.trans hrow.txGuid_eq.symm)
      (.inr fun ha => hca (ha.trans hrow.accountGuid_eq)) hcv.le
    obtain ⟨⟨dv₂, s₂⟩, hrows₂⟩ := stage_valueLeg hr hmem hown h₂
    have a₂ := s₂.advance hr hmem (SameRow.refl e₀) rfl (.inr hownCell)
      fun hp => absurd hp (hprot e₀ (by simp))
    have hr₂ := hr.of_advance a₂
    have hcmem₂ : counter ∈ db₂.splits := by
      obtain ⟨s', hs', hrow'⟩ := a₂.path.persists hcmem
      rcases hrows₂ s' hs' with hold | hsame
      · have : s' = counter :=
          List.inj_on_of_nodup_map hr.sound.nodup hold hcmem hrow'.guid_eq
        exact this ▸ hs'
      · exact absurd (hrow'.guid_eq.symm.trans hsame.guid_eq) hcg
    obtain ⟨⟨dv₃, s₃⟩, hrows₃⟩ := stage_valueLeg hr₂ hcmem₂ hother h₃
    have a₃ := s₃.advance hr₂ hcmem₂ (SameRow.refl counter) rfl (.inr hotherCell)
      fun hp => absurd hp (hprot counter (by simp))
    refine ⟨a₂.trans a₃, fun s hs => ?_⟩
    rcases hrows₃ s hs with hs | hsame
    · rcases hrows₂ s hs with hs | hsame
      · exact .inl hs
      · rw [hsame.guid_eq, hsame.txGuid_eq, hsame.accountGuid_eq]
        exact .inr ⟨hown, hownCell⟩
    · rw [hsame.guid_eq, hsame.txGuid_eq, hsame.accountGuid_eq]
      exact .inr ⟨hother, hotherCell⟩

theorem stage_createAdjustmentSubSplits {adj : Split} {totalShares : ℚ} {lot : OpenLot}
    {rest : List OpenLot} {r : List (String × Allocation)} (hr : Ready host c db)
    (hp : Dividing c db adj) (hl : ∀ l ∈ lot :: rest, c.Fills (marked db) l.guid)
    (h : Completes (createAdjustmentSubSplits host adj totalShares c.run (lot :: rest) usedQtyNum)
      db r db') :
    Stage host c adj db db'
        (Amount.exact ⟨adj.quantity.num - usedQtyNum, adj.quantity.denom⟩) 0 ∧
      Covered c (marked db') adj := by
  have hzero : Amount.exact ⟨0, adj.value.denom⟩ = 0 := by simp [Amount.exact]
  induction rest generalizing db lot usedQtyNum r with
  | nil =>
    simp only [createAdjustmentSubSplits, completes_bind] at h
    obtain ⟨g, db₁, h₁, r', db₂, h₂, h₃⟩ := h
    obtain ⟨rfl, rfl⟩ := completes_pure.1 h₂
    obtain ⟨rfl, rfl⟩ := completes_pure.1 h₃
    have hcarved := stage_createSubSplit hr hp (fun l hl' => ?_) h₁
    · exact ⟨hcarved.stage.congr rfl hzero, hcarved.covered⟩
    · cases hl'
      exact hl lot (by simp)
  | cons next rest ih =>
    rw [createAdjustmentSubSplits, completes_bind] at h
    obtain ⟨g, db₁, h₁, h⟩ := h
    obtain ⟨r', db₂, h₂, h₃⟩ := completes_bind.1 h
    obtain ⟨rfl, rfl⟩ := completes_pure.1 h₃
    have hcarved := stage_createSubSplit hr hp (fun l hl' => ?_) h₁
    · have s₁ := hcarved.stage
      obtain ⟨s₂, hcov⟩ := ih (hr.of_path s₁.path) (hp.of_path s₁.path)
        (fun l hl' => s₁.path.fills (hl l (List.mem_cons_of_mem _ hl'))) h₂
      refine ⟨(s₁.trans s₂).congr ?_ ?_, hcov⟩
      · generalize hpart : adjustmentPart adj totalShares (decide (next :: rest = []))
          usedQtyNum lot = part
        have hdenom : part = ⟨part.num, adj.quantity.denom⟩ := by
          rw [← hpart]
          simp [adjustmentPart]
          rfl
        rw [hdenom, ← Amount.exact_add]
        congr 2
        ring
      · rw [hzero, zero_add]
    · cases hl'
      exact hl lot (by simp)

theorem advance_divideAdjustment {adj : Split} {first second : OpenLot} {rest : List OpenLot}
    {r : AdjustmentResult} (hr : Ready host c db) (hs : adj ∈ db.splits)
    (hg : c.Rewritable adj.guid) (ha : c.Assignable adj.guid)
    (hl : ∀ l ∈ first :: second :: rest, c.Fills (marked db) l.guid)
    (h : Completes (divideAdjustment host adj c.run first (second :: rest)) db r db') :
    Advance host c db db' := by
  simp only [divideAdjustment, completes_bind] at h
  obtain ⟨_, db₁, h₁, _, db₂, h₂, _, db₃, h₃, h₄⟩ := h
  obtain ⟨rfl, rfl⟩ := completes_pure.1 h₄
  generalize hpart : adjustmentPart adj ((first :: second :: rest).map OpenLot.shares).sum
    (decide (second :: rest = [])) 0 first = part at h₂ h₃
  have hstash : Stage host c adj db db₁ 0 0 ∧ _ := stage_stash hs hg h₁
  obtain ⟨s₁, hsplits, hst⟩ := hstash
  have s₂ := stage_rewrite_assign (hr.of_path s₁.path) (hsplits ▸ hs) hg ha hst
    (s₁.path.fills (hl first (by simp))) (fun s => (part, s.value)) h₂
  have s₁₂ := s₁.trans s₂
  have hrow : Dividing c db₁ adj := ⟨⟨adj, hsplits ▸ hs, SameRow.refl adj⟩, hg, hst⟩
  obtain ⟨s₃, hcov⟩ := stage_createAdjustmentSubSplits (hr.of_path s₁₂.path)
    (hrow.of_path s₂.path)
    (fun l hl' => s₁₂.path.fills (hl l (List.mem_cons_of_mem _ hl'))) h₃
  refine (s₁₂.trans s₃).advance hr hs (SameRow.refl adj) ?_ (.inl ?_) fun _ => hcov
  · have hdenom : part = ⟨part.num, adj.quantity.denom⟩ := by
      rw [← hpart]
      simp [adjustmentPart]
      rfl
    rw [Amount.exact_sub, ← hdenom]
    change _ + (adj.quantity.exact - _) = _
    ring
  · ring

theorem advance_assignAdjustmentToLots {openLots : List OpenLot}
    {r : AdjustmentResult} (hr : Ready host c db) (hg : c.Rewritable g) (ha : c.Assignable g)
    (hl : ∀ l ∈ openLots, c.Fills (marked db) l.guid)
    (h : Completes (assignAdjustmentToLots host g openLots c.run eps) db r db') :
    Advance host c db db' := by
  rw [assignAdjustmentToLots, completes_get_bind] at h
  cases hs : db.split? g with
  | none => simp only [hs, completes_throw] at h
  | some adj =>
    obtain ⟨hmem, rfl⟩ := mem_of_split? hs
    have hfilter (l : OpenLot) (hl' : l ∈ openLots.filter fun l => eps < l.shares) :
        c.Fills (marked db) l.guid := hl l (List.mem_filter.1 hl').1
    simp only [hs] at h
    split at h
    · obtain ⟨-, rfl⟩ := completes_pure.1 h
      exact Advance.refl _
    · rename_i lot hlots
      obtain ⟨_, db₁, h₁, h₂⟩ := completes_bind.1 h
      obtain ⟨rfl, rfl⟩ := completes_pure.1 h₂
      exact advance_assign hr ha (hfilter lot (by simp [hlots])) h₁
    · rename_i first rest hne hlots
      cases rest with
      | nil => exact (hne rfl).elim
      | cons second rest =>
        exact advance_divideAdjustment hr hmem hg ha (hlots ▸ hfilter) h

end Lots
