import GnucashWeb.CostBasis.Trace
import GnucashWeb.Lots.RunMoves
import Mathlib.Algebra.Order.BigOperators.Group.List

/-!
# The coverage of traced shares

A trace accounts for the shares it is asked for: covered and uncovered shares add up to them, and
the basis is that of the covered ones.  The average method accounts for all of them.  The other
methods leave out what the history of the sending account lacks when that is no more than the share
tolerance (`accountedFor_iff`).
-/

/-!
## Sharing a trace cache

`traceAll_eq_fresh`: traces that share a cache give the results they give with caches of their own,
when any two different traces whose chains of transfers meet have chains within the hop limit and
ask for the same shares of the splits they meet in.  A result that was cut short by a loop or by the
limit is kept like any other, so traces that meet in one can differ (`traceAll_roundTrip_false`).
-/

open Ledger Lots Memo

namespace CostBasis

variable (host : Host) (db : Db)

def traceAll : List Request → CostBasisCache → List CostBasisResult
  | [], _ => []
  | q :: qs, cache =>
    let (result, cache) := traceCostBasis host db maxTraceDepth q cache
    result :: traceAll qs cache

def traceFresh (q : Request) : CostBasisResult :=
  (traceCostBasis host db maxTraceDepth q .empty).1

def Links (q p : Request) : Prop := p ∈ transferLinks host db q

theorem traceAll_eq (qs : List Request) (cache : CostBasisCache) :
    traceAll host db qs cache = (tracing host db).calls maxTraceDepth qs cache := by
  induction qs generalizing cache with
  | nil => rfl
  | cons q qs ih =>
    unfold traceAll Recursion.calls
    rw [traceCostBasis_eq]
    exact congrArg _ (ih _)

/-- Traces that are apart give with a shared cache the results they give with an empty one. -/
theorem traceAll_eq_fresh {qs : List Request}
    (h : ∀ q ∈ qs, ∀ p ∈ qs, Apart (Links host db) Request.cacheKey maxTraceDepth q p) :
    traceAll host db qs .empty = qs.map (traceFresh host db) := by
  have hfresh : traceFresh host db = (tracing host db).fresh maxTraceDepth := by
    funext q
    unfold traceFresh Recursion.fresh
    rw [traceCostBasis_eq]
  have hasks : ∀ q ∈ qs, ∀ p ∈ qs,
      Apart (tracing host db).Asks (tracing host db).key (199 + 1) q p := fun q hq p hp =>
    (h q hq p hp).mono fun _ _ => transferLinks_of_asks
  rw [traceAll_eq, hfresh]
  exact Recursion.calls_eq_fresh hasks

/-! ## A chain and a round trip -/

def wholeHost : Host :=
  { plainHost with
    numberText := fun n => String.ofList (Text.natDigits n.num.toNat)
    isoDay := fun _ => "1970-01-01" }

/-- A leg of a transaction, in whole shares and whole dollars. -/
def leg (guid txGuid accountGuid : String) (shares dollars : ℤ) : Split :=
  ⟨guid, txGuid, accountGuid, "", "", .n, none, ⟨dollars, 1⟩, ⟨shares, 1⟩, none⟩

def brokers : List Account :=
  [⟨"cash", "Cash", .bank, some "usd", 100, none⟩, ⟨"a", "Broker A", .stock, some "fund", 1, none⟩,
    ⟨"b", "Broker B", .stock, some "fund", 1, none⟩, ⟨"c", "Broker C", .stock, some "fund", 1, none⟩]

def purchase : List Split := [leg "cash1" "buy" "cash" (-1000) (-1000), leg "buy1" "buy" "a" 10 1000]

/-- Ten shares go from broker A to broker B and on to broker C. -/
def chainBook : Db :=
  ⟨brokers, [⟨"buy", "usd", some 1, ""⟩, ⟨"t1", "usd", some 2, ""⟩, ⟨"t2", "usd", some 3, ""⟩],
    purchase ++ [leg "out1" "t1" "a" (-10) 0, leg "in1" "t1" "b" 10 0, leg "out2" "t2" "b" (-10) 0,
      leg "in2" "t2" "c" 10 0], [], [], [], [], 0⟩

/-- Ten shares go from broker A to broker B and back on one day. -/
def roundTripBook : Db :=
  ⟨brokers, [⟨"buy", "usd", some 1, ""⟩, ⟨"t1", "usd", some 2, ""⟩, ⟨"t2", "usd", some 2, ""⟩],
    purchase ++ [leg "out1" "t1" "a" (-10) 0, leg "in1" "t1" "b" 10 0, leg "out2" "t2" "b" (-10) 0,
      leg "in2" "t2" "a" 10 0], [], [], [], [], 0⟩

def bothTransfers : List Request :=
  [⟨"in1", .fifo, "fund", 10⟩, ⟨"in2", .fifo, "fund", 10⟩]

theorem apart_chainBook : ∀ q ∈ bothTransfers, ∀ p ∈ bothTransfers,
    Apart (Links wholeHost chainBook) Request.cacheKey maxTraceDepth q p := by
  have hclosed : ∀ q ∈ bothTransfers, ∀ p ∈ transferLinks wholeHost chainBook q,
      p ∈ bothTransfers ∧ transferLinks wholeHost chainBook p = [] := by decide +kernel
  have hkeys : ∀ a ∈ bothTransfers, ∀ b ∈ bothTransfers, a.cacheKey = b.cacheKey → a = b := by
    decide
  have hreach : ∀ q ∈ bothTransfers, ∀ a, Reaches (Links wholeHost chainBook) q a →
      a ∈ bothTransfers := by
    intro q hq a ha
    induction ha with
    | refl => exact hq
    | tail _ hstep ih => exact (hclosed _ ih _ hstep).1
  have hclean : ∀ q ∈ bothTransfers,
      Clean (Links wholeHost chainBook) Request.cacheKey maxTraceDepth q := by
    refine fun q hq => ⟨?_, fun a ha b hb => hkeys a (hreach q hq a ha) b (hreach q hq b hb)⟩
    rintro ⟨p, hp, p', hp', -⟩
    rw [Links, (hclosed q hq p hp).2] at hp'
    exact absurd hp' List.not_mem_nil
  exact fun q hq p hp _ _ => ⟨hclean q hq, hclean p hp, fun a b ha hb =>
    hkeys a (hreach q hq a ha) b (hreach p hp b hb)⟩

theorem traceAll_chainBook :
    (∀ q ∈ bothTransfers, ∀ p ∈ bothTransfers,
      Apart (Links wholeHost chainBook) Request.cacheKey maxTraceDepth q p) ∧
        traceAll wholeHost chainBook bothTransfers .empty =
          bothTransfers.map (traceFresh wholeHost chainBook) :=
  ⟨apart_chainBook, traceAll_eq_fresh wholeHost chainBook apart_chainBook⟩

/-- While the first transfer is traced, the second meets its mark and is kept without a basis; traced
on its own it has the basis of the purchase. -/
theorem traceAll_roundTrip_false :
    ¬ ∀ (host : Host) (db : Db) (qs : List Request),
      traceAll host db qs .empty = qs.map (traceFresh host db) := by
  intro h
  have hcovered := congrArg (List.map CostBasisResult.coveredShares)
    (h wholeHost roundTripBook bothTransfers)
  revert hcovered
  decide +kernel

end CostBasis

open Ledger Lots Memo

namespace CostBasis

/-- A result whose covered and uncovered shares are the requested ones and whose basis is that of
its covered shares. -/
structure AccountedFor (requested : ℚ) (r : CostBasisResult) : Prop where
  shares : r.coveredShares + r.uncoveredShares = requested
  basis : 0 ≤ requested → r.basisOfCoveredShares = r.perShareCost * r.coveredShares

/-- The shares in the lots of an account after some splits: a sale takes no more than there are. -/
def heldAfter (splits : List Split) : ℚ := splits.foldl (fun held s => max 0 (held + s.qty)) 0

/-- Some shares are requested beyond those held, but no more than the tolerance. -/
def Dust (requested held : ℚ) : Prop :=
  requested - min (max requested 0) held ≠ 0 ∧ requested - min (max requested 0) held ≤ qtyEps

instance (requested held : ℚ) : Decidable (Dust requested held) :=
  inferInstanceAs (Decidable (_ ∧ _))

section Book

variable (host : Host) (db : Db)

/-- The history of the sending account that a trace replays, if it comes to that. -/
def sourceHistory (q : Request) : Option (List Split) := do
  let transferSplit ← db.split? q.transferInSplitGuid
  if (settledByLot host db transferSplit q).isSome then none
  else do
    let sourceSplit ← findSourceSplit db transferSplit q.commodityGuid
    some (replayed db (fetch host db (.account sourceSplit.accountGuid q.commodityGuid
      ((db.postDate transferSplit).getD host.now))) transferSplit.txGuid)

/-- A trace by lots for which the sending account lacks no more shares than the tolerance. -/
def DustLeft (q : Request) : Prop :=
  q.method ≠ .average ∧ ∃ splits ∈ sourceHistory host db q,
    Dust q.transferredShares (heldAfter splits)

instance (q : Request) : Decidable (DustLeft host db q) := inferInstanceAs (Decidable (_ ∧ _))

/-- A trace of all the shares of a split in its own commodity. -/
def OwnRequest (q : Request) : Prop :=
  ∃ s ∈ db.splits, s.guid = q.transferInSplitGuid ∧ db.commodity s = some q.commodityGuid ∧
    s.qty = q.transferredShares

end Book

variable {host : Host} {db : Db}

theorem accountedFor_covered (shares perShareCost : ℚ) (method : CostBasisMethod) :
    AccountedFor shares (covered shares (perShareCost * shares) method) where
  shares := add_zero shares
  basis := by
    intro hnonneg
    unfold covered
    dsimp only
    rcases hnonneg.eq_or_lt with rfl | hpos
    · simp
    · rw [if_pos hpos, mul_div_cancel_right₀ _ hpos.ne']

theorem accountedFor_uncovered (shares : ℚ) (method : CostBasisMethod) (warning : String) :
    AccountedFor shares (uncovered shares method warning) :=
  ⟨zero_add shares, fun _ => (mul_zero _).symm⟩

theorem accountedFor_drawFromPool (pool : CostBasisPool) (sharesNeeded : ℚ)
    (method : CostBasisMethod) :
    AccountedFor sharesNeeded (drawFromPool host pool sharesNeeded method) :=
  ⟨add_sub_cancel _ _, fun _ => rfl⟩

theorem accountedFor_of_lotBasis {transferSplit : Split} {allLotSplits : List Split}
    {carriedBasis : ℚ} {q : Request} {r : CostBasisResult}
    (h : lotBasis db transferSplit allLotSplits carriedBasis q = some r) :
    AccountedFor q.transferredShares r := by
  unfold lotBasis at h
  dsimp only at h
  split at h
  · cases h
    exact accountedFor_covered _ _ _
  · split at h
    · cases h
      exact accountedFor_covered _ _ _
    · cases h

/-! ## Lots -/

/-- Lots with no negative shares, uncovered at most as a whole. -/
def LotsOk (lots : List PurchaseLot) : Prop :=
  ∀ lot ∈ lots, 0 ≤ lot.shares ∧ lot.uncoveredFraction ≤ 1

def lotShares (lots : List PurchaseLot) : ℚ := (lots.map PurchaseLot.shares).sum

theorem LotsOk.lotShares_nonneg {lots : List PurchaseLot} (h : LotsOk lots) : 0 ≤ lotShares lots :=
  List.sum_nonneg fun x hx => by
    obtain ⟨lot, hlot, rfl⟩ := List.mem_map.1 hx
    exact (h lot hlot).1

theorem consumptionOrder_perm (lots : List PurchaseLot) (method : CostBasisMethod) :
    (consumptionOrder lots method).Perm lots := by
  unfold consumptionOrder
  split
  · exact List.reverse_perm lots
  · exact .refl lots

theorem LotsOk.perm {lots lots' : List PurchaseLot} (h : LotsOk lots) (hperm : lots'.Perm lots) :
    LotsOk lots' ∧ lotShares lots' = lotShares lots :=
  ⟨fun lot hlot => h lot (hperm.mem_iff.1 hlot), (hperm.map _).sum_eq⟩

theorem lotsOk_sellFrom {lots : List PurchaseLot} (h : LotsOk lots) {soldRemaining : ℚ}
    (hsold : 0 ≤ soldRemaining) :
    LotsOk (sellFrom soldRemaining lots) ∧
      lotShares (sellFrom soldRemaining lots) = max 0 (lotShares lots - soldRemaining) := by
  induction lots generalizing soldRemaining with
  | nil =>
    refine ⟨h, ?_⟩
    simp [sellFrom, lotShares, hsold]
  | cons lot lots ih =>
    obtain ⟨hlot, hlots⟩ := List.forall_mem_cons.1 h
    unfold sellFrom
    by_cases hzero : soldRemaining ≤ 0
    · rw [if_pos hzero, le_antisymm hzero hsold, sub_zero]
      exact ⟨h, (max_eq_right h.lotShares_nonneg).symm⟩
    · rw [if_neg hzero]
      have hrest : 0 ≤ lotShares lots := LotsOk.lotShares_nonneg hlots
      obtain ⟨hok, hsum⟩ := ih hlots (sub_nonneg.2 (min_le_right lot.shares soldRemaining))
      refine ⟨List.forall_mem_cons.2 ⟨⟨sub_nonneg.2 (min_le_left _ _), hlot.2⟩, hok⟩, ?_⟩
      change lot.shares - min lot.shares soldRemaining + lotShares (sellFrom _ lots) = _
      rw [hsum]
      change _ = max 0 (lot.shares + lotShares lots - soldRemaining)
      rcases le_total lot.shares soldRemaining with hle | hle
      · rw [min_eq_left hle, sub_self, zero_add]
        congr 1
        ring
      · rw [min_eq_right hle, sub_self, sub_zero, max_eq_right hrest, max_eq_right (by linarith)]
        ring

/-! ## Allocations -/

/-- What an allocation has covered is not negative, and its basis is that of what it covered. -/
structure Allocation.Ok (requested : ℚ) (a : Allocation) : Prop where
  shares : a.coveredShares + a.uncoveredShares + a.remainingShares = requested
  covered : 0 ≤ a.coveredShares
  basis : a.coveredShares = 0 → a.basis = 0

theorem allocateLot_ok {requested : ℚ} {a : Allocation} (h : a.Ok requested) {lot : PurchaseLot}
    (hlot : 0 ≤ lot.shares ∧ lot.uncoveredFraction ≤ 1) :
    (allocateLot a lot).Ok requested ∧
      (allocateLot a lot).remainingShares =
        a.remainingShares - min (max a.remainingShares 0) lot.shares := by
  unfold allocateLot
  by_cases hskip : a.remainingShares ≤ 0 ∨ lot.shares ≤ 0
  · rw [if_pos hskip]
    refine ⟨h, ?_⟩
    rcases hskip with hrem | hempty
    · rw [max_eq_right hrem, min_eq_left hlot.1, sub_zero]
    · rw [le_antisymm hempty hlot.1, min_eq_right (le_max_right _ _), sub_zero]
  · rw [if_neg hskip]
    obtain ⟨hrem, hshares⟩ := not_or.1 hskip
    rw [not_le] at hrem hshares
    have hallocated : 0 < min lot.shares a.remainingShares := lt_min hshares hrem
    have hnew : 0 ≤ min lot.shares a.remainingShares -
        min lot.shares a.remainingShares * lot.uncoveredFraction := by
      nlinarith [hlot.2]
    refine ⟨⟨?_, ?_, fun hzero => ?_⟩, ?_⟩
    · have hshares := h.shares
      dsimp only
      linarith
    · exact add_nonneg h.covered hnew
    · obtain ⟨hcovered, hadded⟩ := (add_eq_zero_iff_of_nonneg h.covered hnew).1 hzero
      dsimp only
      rw [h.basis hcovered, hadded, zero_mul, zero_add]
    · rw [max_eq_left hrem.le, min_comm]

theorem sub_min_sub_min {r x y : ℚ} (hx : 0 ≤ x) (hy : 0 ≤ y) :
    r - min (max r 0) x - min (max (r - min (max r 0) x) 0) y = r - min (max r 0) (x + y) := by
  rcases le_total r 0 with hr | hr
  · rw [max_eq_right hr, min_eq_left hx, sub_zero, max_eq_right hr, min_eq_left hy,
      min_eq_left (add_nonneg hx hy)]
  · rw [max_eq_left hr]
    rcases le_total r x with hle | hle
    · rw [min_eq_left hle, sub_self, max_self, min_eq_left hy, min_eq_left (by linarith), sub_self,
        sub_self]
    · rw [min_eq_right hle, max_eq_left (sub_nonneg.2 hle), sub_sub, ← min_add_add_left]
      congr 2
      ring

theorem allocateLots_ok {requested : ℚ} {lots : List PurchaseLot} (hlots : LotsOk lots)
    {a : Allocation} (h : a.Ok requested) :
    (lots.foldl allocateLot a).Ok requested ∧
      (lots.foldl allocateLot a).remainingShares =
        a.remainingShares - min (max a.remainingShares 0) (lotShares lots) := by
  induction lots generalizing a with
  | nil =>
    refine ⟨h, ?_⟩
    simp [lotShares]
  | cons lot lots ih =>
    obtain ⟨hlot, hlots⟩ := List.forall_mem_cons.1 hlots
    obtain ⟨hok, hremaining⟩ := allocateLot_ok h hlot
    obtain ⟨hfinal, hleft⟩ := ih hlots hok
    refine ⟨hfinal, ?_⟩
    rw [List.foldl_cons, hleft, hremaining]
    change _ = a.remainingShares - min (max a.remainingShares 0) (lot.shares + lotShares lots)
    have hrest : 0 ≤ lotShares lots := LotsOk.lotShares_nonneg hlots
    exact sub_min_sub_min hlot.1 hrest

theorem accountedFor_allocateFromLots {method : CostBasisMethod} {lots : List PurchaseLot}
    (hlots : LotsOk lots) (sharesNeeded : ℚ) (warnings : List String) :
    AccountedFor sharesNeeded (allocateFromLots host method sharesNeeded lots warnings) ↔
      ¬Dust sharesNeeded (lotShares lots) := by
  obtain ⟨hordered, hsum⟩ := hlots.perm (consumptionOrder_perm lots method)
  obtain ⟨hok, hremaining⟩ := @allocateLots_ok sharesNeeded _ hordered
    ⟨sharesNeeded, 0, 0, 0⟩ ⟨by simp, le_rfl, fun _ => rfl⟩
  unfold allocateFromLots Dust
  rw [← hsum]
  dsimp only at hremaining ⊢
  rw [← hremaining]
  generalize (consumptionOrder lots method).foldl allocateLot ⟨sharesNeeded, 0, 0, 0⟩ = a at hok ⊢
  have hbasis : a.basis = (if 0 < a.coveredShares then a.basis / a.coveredShares else 0) *
      a.coveredShares := by
    by_cases hpos : 0 < a.coveredShares
    · rw [if_pos hpos, div_mul_cancel₀ _ hpos.ne']
    · rw [if_neg hpos, zero_mul]
      exact hok.basis (le_antisymm (not_lt.1 hpos) hok.covered)
  have hshares := hok.shares
  by_cases hrem : qtyEps < a.remainingShares
  · rw [if_pos hrem]
    exact iff_of_true ⟨by dsimp only; linarith, fun _ => hbasis⟩ fun h => absurd h.2 (not_le.2 hrem)
  · rw [if_neg hrem]
    constructor
    · intro h hdust
      have hsum := h.shares
      dsimp only at hsum
      exact hdust.1 (by linarith)
    · intro hdust
      have hzero : a.remainingShares = 0 := by
        by_contra hne
        exact hdust ⟨hne, not_lt.1 hrem⟩
      exact ⟨by dsimp only; linarith, fun _ => hbasis⟩

def Holds (state : List PurchaseLot × List String) (held : ℚ) : Prop :=
  LotsOk state.1 ∧ lotShares state.1 = held

theorem Holds.append {lots : List PurchaseLot} {warnings warnings' : List String} {held : ℚ}
    (h : Holds (lots, warnings) held) {lot : PurchaseLot}
    (hlot : 0 ≤ lot.shares ∧ lot.uncoveredFraction ≤ 1) :
    Holds (lots ++ [lot], warnings') (max 0 (held + lot.shares)) := by
  obtain ⟨hok, rfl⟩ := h
  refine ⟨fun l hl => ?_, ?_⟩
  · rcases List.mem_append.1 hl with hl | hl
    · exact hok l hl
    · exact List.mem_singleton.1 hl ▸ hlot
  · rw [max_eq_right (add_nonneg hok.lotShares_nonneg hlot.1)]
    simp [lotShares]

theorem yields_replayLots (method : CostBasisMethod) (accountGuid commodityGuid : String)
    {state : List PurchaseLot × List String} {held : ℚ} (s : Split) (h : Holds state held) :
    (replayLots host db method accountGuid commodityGuid state s).Yields (fetch host db)
      fun state' => Holds state' (max 0 (held + s.qty)) := by
  obtain ⟨lots, warnings⟩ := state
  unfold replayLots
  dsimp only
  by_cases hin : 0 < s.qty
  · rw [if_pos hin]
    split
    · exact fun traced => h.append ⟨hin.le, min_le_left _ _⟩
    · exact h.append ⟨hin.le, zero_le_one⟩
  · rw [if_neg hin]
    obtain ⟨hok, rfl⟩ := h
    split
    · rename_i hout
      obtain ⟨hordered, hsum⟩ := hok.perm (consumptionOrder_perm lots method)
      obtain ⟨hsold, hleft⟩ := lotsOk_sellFrom hordered (abs_nonneg s.qty)
      obtain ⟨hfinal, hfinalSum⟩ := hsold.perm (consumptionOrder_perm _ method)
      refine ⟨hfinal, ?_⟩
      rw [hfinalSum, hleft, hsum, abs_of_neg hout, sub_neg_eq_add]
    · rename_i hout
      rw [le_antisymm (not_lt.1 hin) (not_lt.1 hout), add_zero]
      exact ⟨hok, (max_eq_right hok.lotShares_nonneg).symm⟩

theorem yields_getAccountCostBasis (accountGuid commodityGuid : String) (method : CostBasisMethod)
    (sharesNeeded : ℚ) (asOfDate : ℤ) (excludeTxGuid : String) :
    (getAccountCostBasis host db accountGuid commodityGuid method sharesNeeded asOfDate
      excludeTxGuid).Yields (fetch host db) fun r =>
        AccountedFor sharesNeeded r ↔ ¬(method ≠ .average ∧ Dust sharesNeeded (heldAfter
          (replayed db (fetch host db (.account accountGuid commodityGuid asOfDate))
            excludeTxGuid))) := by
  unfold getAccountCostBasis
  change Dialogue.Yields _ _ (if method = .average then _ else _ : Tracing _)
  by_cases haverage : method = .average
  · rw [if_pos haverage]
    refine Dialogue.yields_bind_of_forall fun pool => ?_
    exact iff_of_true (accountedFor_drawFromPool _ _ _) fun h => h.1 haverage
  · rw [if_neg haverage]
    have hempty : Holds ([], []) 0 := ⟨fun _ h => absurd h List.not_mem_nil, rfl⟩
    refine Dialogue.Yields.bind (Dialogue.yields_foldlM
      (fun state held s h => yields_replayLots method accountGuid commodityGuid s h) hempty) ?_
    rintro ⟨lots, warnings⟩ ⟨hok, hheld⟩
    refine (accountedFor_allocateFromLots hok sharesNeeded warnings).trans ?_
    rw [hheld]
    exact not_congr ⟨fun h => ⟨haverage, h⟩, And.right⟩

theorem yields_lookUpLotBasis {transferSplit : Split} {q : Request}
    {f : Option CostBasisResult → Tracing CostBasisResult} {post : CostBasisResult → Prop} :
    (lookUpLotBasis db transferSplit q >>= f).Yields (fetch host db) post =
      (f (settledByLot host db transferSplit q)).Yields (fetch host db) post := by
  unfold lookUpLotBasis settledByLot
  cases transferSplit.lotGuid.filter (· ≠ "") <;> rfl

theorem accountedFor_of_settledByLot {transferSplit : Split} {q : Request} {r : CostBasisResult}
    (h : settledByLot host db transferSplit q = some r) : AccountedFor q.transferredShares r := by
  obtain ⟨lotGuid, -, h⟩ := Option.bind_eq_some_iff.1 h
  exact accountedFor_of_lotBasis h

theorem yields_traceSplit (q : Request) :
    (traceSplit host db q).Yields (fetch host db) fun r =>
      AccountedFor q.transferredShares r ↔ ¬DustLeft host db q := by
  have hnone : sourceHistory host db q = none → ¬DustLeft host db q := by
    rintro h ⟨-, splits, hsplits, -⟩
    rw [h] at hsplits
    cases hsplits
  unfold traceSplit
  cases hsplit : db.split? q.transferInSplitGuid with
  | none => exact iff_of_true (accountedFor_uncovered _ _ _) (hnone (by simp [sourceHistory, hsplit]))
  | some transferSplit =>
    dsimp only
    rw [yields_lookUpLotBasis]
    cases hsettled : settledByLot host db transferSplit q with
    | some result =>
      exact iff_of_true (accountedFor_of_settledByLot hsettled)
        (hnone (by simp [sourceHistory, hsplit, hsettled]))
    | none =>
      unfold traceTransferChain
      cases hsource : findSourceSplit db transferSplit q.commodityGuid with
      | none =>
        have hzero := accountedFor_covered q.transferredShares 0 q.method
        rw [zero_mul] at hzero
        exact iff_of_true hzero (hnone (by simp [sourceHistory, hsplit, hsettled, hsource]))
      | some sourceSplit =>
        refine (yields_getAccountCostBasis sourceSplit.accountGuid q.commodityGuid q.method
          q.transferredShares _ transferSplit.txGuid).bind fun r h => ?_
        have hsame : AccountedFor q.transferredShares { r with
            tracedFromAccount := (db.account? sourceSplit.accountGuid).map Account.name } ↔
              AccountedFor q.transferredShares r := ⟨fun h => ⟨h.1, h.2⟩, fun h => ⟨h.1, h.2⟩⟩
        refine hsame.trans (h.trans (not_congr ?_))
        simp [DustLeft, sourceHistory, hsplit, hsettled, hsource]

/-! ## Traces that share a cache -/

theorem ownRequest_of_asks {q p : Request} (h : (tracing host db).Asks q p) : OwnRequest db p := by
  have hlinks := transferLinks_of_asks h
  unfold transferLinks at hlinks
  split at hlinks
  · cases hlinks
  · split at hlinks
    · cases hlinks
    · split at hlinks
      · cases hlinks
      · obtain ⟨s, hs, rfl⟩ := List.mem_map.1 hlinks
        have hreplayed := (List.mem_filter.1 hs).1
        unfold replayed byPostDate at hreplayed
        rw [List.mem_insertionSort] at hreplayed
        obtain ⟨hmem, hrow⟩ := List.mem_filter.1 (List.mem_filter.1 hreplayed).1
        exact ⟨s, hmem, rfl, (of_decide_eq_true hrow).2.1, rfl⟩

theorem OwnRequest.eq_of_key (hguids : (db.splits.map Split.guid).Nodup) {q p : Request}
    (hq : OwnRequest db q) (hp : OwnRequest db p) (hkey : p.cacheKey = q.cacheKey) : p = q := by
  obtain ⟨s, hs, hguid, hcommodity, hqty⟩ := hq
  obtain ⟨t, ht, hguid', hcommodity', hqty'⟩ := hp
  obtain ⟨hsplit, hmethod⟩ := Prod.mk.inj hkey
  obtain rfl : t = s := List.inj_on_of_nodup_map hguids ht hs (by rw [hguid', hsplit, hguid])
  have hcommodities := Option.some.inj (hcommodity'.symm.trans hcommodity)
  cases p
  cases q
  simp_all

variable (host db) in
/-- A trace accounts for the shares it is asked for just when it leaves no dust: with a cache of its
own for any request, and with a shared cache for traces of splits as they are. -/
theorem accountedFor_iff :
    (∀ q, AccountedFor q.transferredShares (traceFresh host db q) ↔ ¬DustLeft host db q) ∧
      ((db.splits.map Split.guid).Nodup → ∀ qs, (∀ q ∈ qs, OwnRequest db q) →
        List.Forall₂ (fun q r => AccountedFor q.transferredShares r ↔ ¬DustLeft host db q) qs
          (traceAll host db qs .empty)) := by
  constructor
  · intro q
    unfold traceFresh
    rw [traceCostBasis_eq]
    exact Recursion.fresh_yields (P := tracing host db) (yields_traceSplit q)
  · intro hguids qs hqs
    rw [traceAll_eq]
    exact Recursion.calls_yield (P := tracing host db) (D := OwnRequest db)
      (fun q _ => yields_traceSplit q) (fun _ _ _ hp => ownRequest_of_asks hp)
      (fun q hq p hp hkey => hq.eq_of_key hguids hp hkey) hqs

/-- The transfers of the chain are accounted for, traced one after the other. -/
theorem accountedFor_chainBook :
    AccountedFor 10 (traceFresh wholeHost chainBook ⟨"in2", .fifo, "fund", 10⟩) ∧
      List.Forall₂ (fun q r => AccountedFor q.transferredShares r ↔ ¬DustLeft wholeHost chainBook q)
        bothTransfers (traceAll wholeHost chainBook bothTransfers .empty) := by
  obtain ⟨hfresh, hshared⟩ := accountedFor_iff wholeHost chainBook
  refine ⟨(hfresh ⟨"in2", .fifo, "fund", 10⟩).2 (by decide +kernel), ?_⟩
  refine hshared (by decide +kernel) _ fun q hq => ?_
  rcases List.mem_cons.1 hq with rfl | hq
  · exact ⟨leg "in1" "t1" "b" 10 0, by decide +kernel, rfl, by decide +kernel, by decide +kernel⟩
  · obtain rfl := List.mem_singleton.1 hq
    exact ⟨leg "in2" "t2" "c" 10 0, by decide +kernel, rfl, by decide +kernel, by decide +kernel⟩

/-- Ten shares go out of an account that bought a twenty-thousandth less. -/
def dustBook : Db :=
  ⟨brokers, [⟨"buy", "usd", some 1, ""⟩, ⟨"t1", "usd", some 2, ""⟩],
    [leg "cash1" "buy" "cash" (-1000) (-1000),
      { leg "buy1" "buy" "a" 0 1000 with quantity := ⟨999995, 100000⟩ },
      leg "out1" "t1" "a" (-10) 0, leg "in1" "t1" "b" 10 0], [], [], [], [], 0⟩

/-- The missing shares are neither covered nor uncovered. -/
theorem accountedFor_dustBook_false :
    ¬ ∀ (host : Host) (db : Db) (q : Request), OwnRequest db q →
      AccountedFor q.transferredShares (traceFresh host db q) := by
  intro hclaim
  have hshares := (hclaim wholeHost dustBook ⟨"in1", .fifo, "fund", 10⟩
    ⟨leg "in1" "t1" "b" 10 0, by decide +kernel, rfl, by decide +kernel, by decide +kernel⟩).shares
  revert hshares
  decide +kernel

end CostBasis
