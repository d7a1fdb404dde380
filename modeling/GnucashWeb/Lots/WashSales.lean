import Mathlib.Algebra.BigOperators.Ring.List
import GnucashWeb.Lots.Gains

/-!
# Wash sales

`matchWashSales` allocates the shares of buys to loss sales, first come first served, and
`washAdjustmentFor` adds up the loss that is disallowed for a sale.  No share is allocated twice:
not those of a buy, over all sales, and not those of a sale, so that no more than its loss is
disallowed (`matchWashSales_allocates`).
-/

open Ledger Rows

namespace Lots

/-! ## Matching -/

/-- A sale at a loss; the realized loss is negative. -/
structure LossSale where
  split : Split
  realizedLoss : ℚ
deriving DecidableEq, Repr

def LossSale.soldShares (sell : LossSale) : ℚ := |sell.split.qty|

/-- A buy whose shares replace shares of a loss sale. -/
structure WashMatch where
  sell : LossSale
  buy : Split
  sellDate : ℤ
  buyDate : ℤ
  replacementShares : ℚ
  daysApart : ℤ
deriving DecidableEq, Repr

/-- `WASH_WINDOW_DAYS`. -/
def washWindowDays : ℤ := 30

/-- `utcDayMs`, as a number of days. -/
def utcDay (date : ℤ) : ℤ := date / 86400000

def ofSameLot (buy sell : Split) : Bool :=
  buy.lotGuid.any (· ≠ "") ∧ sell.lotGuid.any (· ≠ "") ∧ buy.lotGuid = sell.lotGuid

variable (db : Db)

/-- What one buy replaces of one sale, given what is left of both. -/
def washMatch (sell : LossSale) (sellDate : ℤ) (buy : Split)
    (availableReplacementShares unmatchedSoldShares : ℚ) : Option WashMatch :=
  (db.postDate buy).bind fun buyDate =>
    if ofSameLot buy sell.split then none
    else
      let daysApart := |utcDay buyDate - utcDay sellDate|
      if daysApart ≤ washWindowDays ∧ buy.guid ≠ sell.split.guid then
        let replacementShares := min availableReplacementShares unmatchedSoldShares
        if replacementShares ≤ defaultQtyEpsilon then none
        else some ⟨sell, buy, sellDate, buyDate, replacementShares, daysApart⟩
      else none

/-- The buys that replace one sale, and what is left of all buys. -/
def matchBuys (sell : LossSale) (sellDate : ℤ) :
    List Split → ℚ → (String → ℚ) → List WashMatch × (String → ℚ)
  | [], _, remaining => ([], remaining)
  | buy :: buys, unmatched, remaining =>
    if unmatched ≤ defaultQtyEpsilon then ([], remaining)
    else
      match washMatch db sell sellDate buy (remaining buy.guid) unmatched with
      | none => matchBuys sell sellDate buys unmatched remaining
      | some m =>
        let rest := matchBuys sell sellDate buys (unmatched - m.replacementShares)
          (Function.update remaining buy.guid (remaining buy.guid - m.replacementShares))
        (m :: rest.1, rest.2)

/-- The buys that replace the sales, one sale after the other. -/
def matchSells (buys : List Split) : List LossSale → (String → ℚ) → List WashMatch
  | [], _ => []
  | sell :: sells, remaining =>
    match db.postDate sell.split with
    | none => matchSells buys sells remaining
    | some sellDate =>
      let matched := matchBuys db sell sellDate buys sell.soldShares remaining
      matched.1 ++ matchSells buys sells matched.2

/-- `remainingReplacementShares` before the first sale. -/
def replacementShares (buys : List Split) : String → ℚ :=
  buys.foldl (fun remaining buy => Function.update remaining buy.guid (max 0 buy.qty)) 0

def matchWashSales (buys : List Split) (sells : List LossSale) : List WashMatch :=
  matchSells db buys sells (replacementShares buys)

/-- The part of the realized loss that is disallowed; negative. -/
def WashMatch.loss (m : WashMatch) : ℚ :=
  m.sell.realizedLoss *
    if 0 < m.sell.soldShares then m.replacementShares / m.sell.soldShares else 0

structure WashSaleResult where
  splitGuid : String
  sellDate : String
  sellAccountGuid : String
  sellAccountName : String
  ticker : String
  shares : ℚ
  loss : ℚ
  washBuyDate : String
  washBuyAccountGuid : String
  washBuyAccountName : String
  replacementShares : ℚ
  daysApart : ℤ
deriving DecidableEq, Repr

def WashMatch.result (host : Host) (accounts : List Account) (ticker : String) (m : WashMatch) :
    WashSaleResult :=
  let nameOf (guid : String) := ((accounts.find? fun a => a.guid = guid).map Account.name).getD ""
  { splitGuid := m.sell.split.guid
    sellDate := host.toISOString m.sellDate
    sellAccountGuid := m.sell.split.accountGuid
    sellAccountName := nameOf m.sell.split.accountGuid
    ticker
    shares := m.sell.soldShares
    loss := m.loss
    washBuyDate := host.toISOString m.buyDate
    washBuyAccountGuid := m.buy.accountGuid
    washBuyAccountName := nameOf m.buy.accountGuid
    replacementShares := m.replacementShares
    daysApart := m.daysApart }

/-- The loss of a sale on Form 8949 that is disallowed. -/
def washAdjustmentFor (splitGuid : String) (rawGain : ℚ) (washSales : List WashSaleResult) : ℚ :=
  if 0 ≤ rawGain then 0
  else
    let matched := washSales.filter fun ws => ws.splitGuid = splitGuid
    if matched = [] then 0 else min ((matched.map fun ws => |ws.loss|).sum) (-rawGain)

/-- A match within the window and of another lot. -/
structure IsReplacement (buys : List Split) (sells : List LossSale) (m : WashMatch) : Prop where
  buy_mem : m.buy ∈ buys
  sell_mem : m.sell ∈ sells
  shares_pos : 0 < m.replacementShares
  buyDate : db.postDate m.buy = some m.buyDate
  sellDate : db.postDate m.sell.split = some m.sellDate
  window : |utcDay m.buyDate - utcDay m.sellDate| ≤ 30
  otherSplit : m.buy.guid ≠ m.sell.split.guid
  otherLot : ∀ lotGuid, lotGuid ≠ "" → m.sell.split.lotGuid = some lotGuid →
    m.buy.lotGuid ≠ some lotGuid

structure Allocates (buys : List Split) (sells : List LossSale) (ms : List WashMatch) : Prop where
  replacement : ∀ m ∈ ms, IsReplacement db buys sells m
  bought : ∀ buy ∈ buys, total (fun m => m.buy.guid = buy.guid) WashMatch.replacementShares ms ≤
    max 0 buy.qty
  sold : ∀ sell ∈ sells, total (fun m => m.sell.split.guid = sell.split.guid)
    WashMatch.replacementShares ms ≤ sell.soldShares
  disallowed : ∀ sell ∈ sells, total (fun m => m.sell.split.guid = sell.split.guid)
    (fun m => |m.loss|) ms ≤ |sell.realizedLoss|

/-! ## One sale -/

variable {db} {sell : LossSale} {buy : Split} {buys : List Split} {sells : List LossSale}
  {sellDate : ℤ} {unmatched available : ℚ} {remaining : String → ℚ} {m : WashMatch}

theorem washMatch_eq_some (h : washMatch db sell sellDate buy available unmatched = some m) :
    m.sell = sell ∧ m.buy = buy ∧ m.sellDate = sellDate ∧ db.postDate buy = some m.buyDate ∧
      m.replacementShares = min available unmatched ∧ defaultQtyEpsilon < m.replacementShares ∧
      |utcDay m.buyDate - utcDay sellDate| ≤ 30 ∧ buy.guid ≠ sell.split.guid ∧
      ofSameLot buy sell.split = false := by
  unfold washMatch at h
  obtain ⟨buyDate, hdate, h⟩ := Option.bind_eq_some_iff.1 h
  split at h
  · cases h
  rename_i hlot
  dsimp only at h
  split at h
  · rename_i hwindow
    split at h
    · cases h
    · rename_i hshares
      cases h
      exact ⟨rfl, rfl, rfl, hdate, rfl, not_le.1 hshares, hwindow.1, hwindow.2,
        Bool.eq_false_iff.2 hlot⟩
  · cases h

theorem otherLot_of_ofSameLot (h : ofSameLot buy sell.split = false) (lotGuid : String)
    (hne : lotGuid ≠ "") (hsell : sell.split.lotGuid = some lotGuid) :
    buy.lotGuid ≠ some lotGuid := by
  intro hbuy
  simp [ofSameLot, hsell, hbuy, hne] at h

theorem isReplacement_washMatch (hbuy : buy ∈ buys) (hsell : sell ∈ sells)
    (hdate : db.postDate sell.split = some sellDate)
    (h : washMatch db sell sellDate buy available unmatched = some m) :
    IsReplacement db buys sells m := by
  obtain ⟨rfl, rfl, rfl, hbuyDate, -, hshares, hwindow, hne, hlot⟩ := washMatch_eq_some h
  have heps : (0 : ℚ) < defaultQtyEpsilon := by norm_num [defaultQtyEpsilon]
  exact ⟨hbuy, hsell, heps.trans hshares, hbuyDate, hdate, hwindow, hne,
    otherLot_of_ofSameLot hlot⟩

theorem matchBuys_of_none {rest : List Split} (hmore : ¬unmatched ≤ defaultQtyEpsilon)
    (h : washMatch db sell sellDate buy (remaining buy.guid) unmatched = none) :
    matchBuys db sell sellDate (buy :: rest) unmatched remaining =
      matchBuys db sell sellDate rest unmatched remaining := by
  rw [matchBuys, if_neg hmore, h]

theorem matchBuys_of_some {rest : List Split} (hmore : ¬unmatched ≤ defaultQtyEpsilon)
    (h : washMatch db sell sellDate buy (remaining buy.guid) unmatched = some m) :
    matchBuys db sell sellDate (buy :: rest) unmatched remaining =
      (m :: (matchBuys db sell sellDate rest (unmatched - m.replacementShares)
          (Function.update remaining buy.guid
            (remaining buy.guid - m.replacementShares))).1,
        (matchBuys db sell sellDate rest (unmatched - m.replacementShares)
          (Function.update remaining buy.guid
            (remaining buy.guid - m.replacementShares))).2) := by
  rw [matchBuys, if_neg hmore, h]

/-- What is matched to a sale is at most what was sold, and what is matched to a buy is taken from
what was left of it. -/
theorem matchBuys_spec (hsell : sell ∈ sells) (hdate : db.postDate sell.split = some sellDate)
    {rest : List Split} (hrest : rest ⊆ buys) (hunmatched : 0 ≤ unmatched)
    (hremaining : ∀ g, 0 ≤ remaining g) :
    (∀ m ∈ (matchBuys db sell sellDate rest unmatched remaining).1,
      m.sell = sell ∧ IsReplacement db buys sells m) ∧
    (((matchBuys db sell sellDate rest unmatched remaining).1).map
      WashMatch.replacementShares).sum ≤ unmatched ∧
    ∀ g, 0 ≤ (matchBuys db sell sellDate rest unmatched remaining).2 g ∧
      total (fun m => m.buy.guid = g) WashMatch.replacementShares
          (matchBuys db sell sellDate rest unmatched remaining).1 +
        (matchBuys db sell sellDate rest unmatched remaining).2 g = remaining g := by
  induction rest generalizing unmatched remaining with
  | nil =>
    exact ⟨by simp [matchBuys], by simpa [matchBuys] using hunmatched,
      fun g => by simp [matchBuys, hremaining]⟩
  | cons buy rest ih =>
    have hbuy : buy ∈ buys := hrest List.mem_cons_self
    have hrest : rest ⊆ buys := fun b hb => hrest (List.mem_cons_of_mem _ hb)
    by_cases hdone : unmatched ≤ defaultQtyEpsilon
    · rw [matchBuys, if_pos hdone]
      exact ⟨by simp, by simpa using hunmatched, fun g => by simp [hremaining]⟩
    cases hm : washMatch db sell sellDate buy (remaining buy.guid) unmatched with
    | none =>
      rw [matchBuys_of_none hdone hm]
      exact ih hrest hunmatched hremaining
    | some m =>
      obtain ⟨hmsell, hmbuy, -, -, hshares, -⟩ := washMatch_eq_some hm
      have hle : m.replacementShares ≤ unmatched := hshares.le.trans (min_le_right _ _)
      have hle' : m.replacementShares ≤ remaining buy.guid := hshares.le.trans (min_le_left _ _)
      have hleft (g : String) : 0 ≤ Function.update remaining buy.guid
          (remaining buy.guid - m.replacementShares) g := by
        by_cases hg : g = buy.guid
        · subst hg
          simpa using hle'
        · simpa [hg] using hremaining g
      obtain ⟨hall, hsum, htaken⟩ := ih hrest (sub_nonneg.2 hle) hleft
      rw [matchBuys_of_some hdone hm]
      refine ⟨?_, ?_, fun g => ⟨(htaken g).1, ?_⟩⟩
      · rintro m' hm'
        rcases List.mem_cons.1 hm' with rfl | hm'
        · exact ⟨hmsell, isReplacement_washMatch hbuy hsell hdate hm⟩
        · exact hall m' hm'
      · rw [List.map_cons, List.sum_cons]
        linarith
      · have htotal := (htaken g).2
        rw [total_cons, hmbuy]
        by_cases hg : buy.guid = g
        · subst hg
          rw [Function.update_self] at htotal
          rw [if_pos rfl]
          linarith
        · rw [Function.update_of_ne (Ne.symm hg)] at htotal
          rw [if_neg hg]
          linarith

/-! ## All sales -/

theorem total_sell_eq_zero {ms : List WashMatch} {w : WashMatch → ℚ}
    (h : ∀ m ∈ ms, m.sell.split.guid ≠ sell.split.guid) :
    total (fun m : WashMatch => m.sell.split.guid = sell.split.guid) w ms = 0 :=
  total_eq_zero fun m hm hguid => absurd hguid (h m hm)

theorem matchSells_spec (db : Db) (buys : List Split) {rest : List LossSale} (hrest : rest ⊆ sells)
    (hkeys : (rest.map fun sell => sell.split.guid).Nodup) (hremaining : ∀ g, 0 ≤ remaining g) :
    (∀ m ∈ matchSells db buys rest remaining,
      m.sell ∈ rest ∧ IsReplacement db buys sells m) ∧
    (∀ g, total (fun m => m.buy.guid = g) WashMatch.replacementShares
      (matchSells db buys rest remaining) ≤ remaining g) ∧
    ∀ sell ∈ rest, total (fun m => m.sell.split.guid = sell.split.guid)
      WashMatch.replacementShares (matchSells db buys rest remaining) ≤ sell.soldShares := by
  induction rest generalizing remaining with
  | nil => simp [matchSells, hremaining]
  | cons sell rest ih =>
    have hsell : sell ∈ sells := hrest List.mem_cons_self
    have hrest : rest ⊆ sells := fun s hs => hrest (List.mem_cons_of_mem _ hs)
    rw [List.map_cons, List.nodup_cons] at hkeys
    obtain ⟨hnew, hkeys⟩ := hkeys
    have hother {other : LossSale} (h : other ∈ rest) : other.split.guid ≠ sell.split.guid :=
      fun hguid => hnew (hguid ▸ List.mem_map_of_mem h)
    cases hdate : db.postDate sell.split with
    | none =>
      obtain ⟨hall, hbought, hsold⟩ := ih hrest hkeys hremaining
      rw [matchSells, hdate]
      refine ⟨fun m hm => (hall m hm).imp_left (List.mem_cons_of_mem _), hbought,
        fun s hs => ?_⟩
      rcases List.mem_cons.1 hs with rfl | hs
      · rw [total_sell_eq_zero fun m hm => hother (hall m hm).1]
        exact abs_nonneg _
      · exact hsold s hs
    | some sellDate =>
      obtain ⟨hmatched, hsum, htaken⟩ := matchBuys_spec hsell hdate
        (List.Subset.refl buys) (abs_nonneg sell.split.qty) hremaining
      obtain ⟨hall, hbought, hsold⟩ := ih hrest hkeys fun g => (htaken g).1
      rw [matchSells, hdate]
      dsimp only
      rw [LossSale.soldShares]
      generalize matchBuys db sell sellDate buys |sell.split.qty| remaining = matched at *
      refine ⟨fun m hm => ?_, fun g => ?_, fun s hs => ?_⟩
      · rcases List.mem_append.1 hm with hm | hm
        · exact ⟨by simp [(hmatched m hm).1], (hmatched m hm).2⟩
        · exact (hall m hm).imp_left (List.mem_cons_of_mem _)
      · have htotal := (htaken g).2
        have hle := hbought g
        rw [total_append]
        linarith
      · rw [total_append]
        rcases List.mem_cons.1 hs with rfl | hs
        · rw [total_sell_eq_zero fun m hm => hother (hall m hm).1, add_zero]
          refine le_trans (le_of_eq ?_) hsum
          rw [total, List.filter_eq_self.2 fun m hm => by simp [(hmatched m hm).1]]
        · rw [total_sell_eq_zero fun m hm => ?_, zero_add]
          · exact hsold s hs
          · rw [(hmatched m hm).1]
            exact (hother hs).symm

theorem foldl_replacementShares_nonneg (hremaining : ∀ g, 0 ≤ remaining g) (buys : List Split)
    (g : String) :
    0 ≤ buys.foldl (fun remaining buy => Function.update remaining buy.guid (max 0 buy.qty))
      remaining g := by
  induction buys generalizing remaining with
  | nil => exact hremaining g
  | cons buy buys ih =>
    refine ih fun g => ?_
    by_cases hg : g = buy.guid
    · simp [hg]
    · simpa [hg] using hremaining g

theorem foldl_replacementShares_of_notMem {g : String} (h : g ∉ buys.map Split.guid)
    (remaining : String → ℚ) :
    buys.foldl (fun remaining buy => Function.update remaining buy.guid (max 0 buy.qty))
      remaining g = remaining g := by
  induction buys generalizing remaining with
  | nil => rfl
  | cons buy buys ih =>
    rw [List.map_cons, List.mem_cons, not_or] at h
    rw [List.foldl_cons, ih h.2, Function.update_of_ne h.1]

theorem replacementShares_of_mem (hkeys : (buys.map Split.guid).Nodup) (h : buy ∈ buys) :
    replacementShares buys buy.guid = max 0 buy.qty := by
  unfold replacementShares
  generalize (0 : String → ℚ) = remaining
  induction buys generalizing remaining with
  | nil => cases h
  | cons b buys ih =>
    rw [List.map_cons, List.nodup_cons] at hkeys
    rw [List.foldl_cons]
    rcases List.mem_cons.1 h with rfl | h
    · rw [foldl_replacementShares_of_notMem hkeys.1, Function.update_self]
    · exact ih hkeys.2 h _

theorem abs_loss (m : WashMatch) (h : 0 ≤ m.replacementShares) :
    |m.loss| = |m.sell.realizedLoss| / m.sell.soldShares * m.replacementShares := by
  have hsold : 0 ≤ m.sell.soldShares := abs_nonneg _
  unfold WashMatch.loss
  rcases hsold.eq_or_lt with hzero | hpos
  · simp [← hzero]
  · rw [if_pos hpos, abs_mul, abs_of_nonneg (div_nonneg h hpos.le)]
    ring

theorem total_abs_loss_le {ms : List WashMatch} (hkeys : (sells.map fun s => s.split.guid).Nodup)
    (hsell : sell ∈ sells) (hms : ∀ m ∈ ms, m.sell ∈ sells ∧ 0 ≤ m.replacementShares)
    (hsold : total (fun m => m.sell.split.guid = sell.split.guid) WashMatch.replacementShares ms ≤
      sell.soldShares) :
    total (fun m => m.sell.split.guid = sell.split.guid) (fun m => |m.loss|) ms ≤
      |sell.realizedLoss| := by
  have hloss : total (fun m : WashMatch => m.sell.split.guid = sell.split.guid)
      (fun m => |m.loss|) ms = total (fun m => m.sell.split.guid = sell.split.guid)
        (fun m => |sell.realizedLoss| / sell.soldShares * m.replacementShares) ms :=
    total_congr fun m hm hguid => by
      rw [abs_loss m (hms m hm).2, List.inj_on_of_nodup_map hkeys (hms m hm).1 hsell hguid]
  have hsame : total (fun m : WashMatch => m.sell.split.guid = sell.split.guid)
      (fun m => |m.loss|) ms = |sell.realizedLoss| / sell.soldShares *
        total (fun m => m.sell.split.guid = sell.split.guid) WashMatch.replacementShares ms :=
    hloss.trans (List.sum_map_mul_left _ _ _)
  rw [hsame]
  have hnonneg : 0 ≤ sell.soldShares := abs_nonneg _
  rcases hnonneg.eq_or_lt with hzero | hpos
  · simp [← hzero]
  · calc |sell.realizedLoss| / sell.soldShares * _
        ≤ |sell.realizedLoss| / sell.soldShares * sell.soldShares :=
          mul_le_mul_of_nonneg_left hsold (div_nonneg (abs_nonneg _) hnonneg)
      _ = |sell.realizedLoss| := div_mul_cancel₀ _ hpos.ne'

/-! ## Nothing twice -/

theorem washAdjustmentFor_le (splitGuid : String) (rawGain : ℚ)
    (washSales : List WashSaleResult) :
    washAdjustmentFor splitGuid rawGain washSales ≤ max 0 (-rawGain) := by
  unfold washAdjustmentFor
  split
  · exact le_max_left _ _
  · dsimp only
    split
    · exact le_max_left _ _
    · exact (min_le_right _ _).trans (le_max_right _ _)

/-- The shares of every list of buys are matched to every list of loss sales within the window, none
of them twice, and no more than the loss of a sale is disallowed. -/
theorem matchWashSales_allocates (db : Db) (buys : List Split) (sells : List LossSale)
    (hbuys : (buys.map Split.guid).Nodup) (hsells : (sells.map fun s => s.split.guid).Nodup) :
    Allocates db buys sells (matchWashSales db buys sells) ∧
      ∀ (host : Host) (accounts : List Account) (ticker splitGuid : String) (rawGain : ℚ),
        washAdjustmentFor splitGuid rawGain
          ((matchWashSales db buys sells).map fun m => m.result host accounts ticker) ≤
            max 0 (-rawGain) := by
  have hnonneg (g : String) : 0 ≤ replacementShares buys g :=
    foldl_replacementShares_nonneg (fun _ => le_rfl) buys g
  obtain ⟨hall, hbought, hsold⟩ := matchSells_spec db buys (List.Subset.refl sells)
    hsells hnonneg
  refine ⟨⟨fun m hm => (hall m hm).2, fun buy hbuy => ?_, hsold, fun sell hsell => ?_⟩,
    fun _ _ _ _ _ => washAdjustmentFor_le _ _ _⟩
  · exact (hbought buy.guid).trans_eq (replacementShares_of_mem hbuys hbuy)
  · exact total_abs_loss_le hsells hsell
      (fun m hm => ⟨(hall m hm).1, (hall m hm).2.shares_pos.le⟩) (hsold sell hsell)

/-- Ten shares sold at a loss, and four and eight bought within the window. -/
def replacedSale : Db where
  accounts := [⟨"A", "A", .stock, some "fund", 10000, none⟩]
  transactions := [⟨"t1", "usd", some 0, ""⟩, ⟨"t2", "usd", some (20 * 86400000), ""⟩,
    ⟨"t3", "usd", some (30 * 86400000 + 1), ""⟩]
  splits := [⟨"s", "t1", "A", "", "", .n, none, ⟨-900, 100⟩, ⟨-10, 1⟩, some "l1"⟩,
    ⟨"b1", "t2", "A", "", "", .n, none, ⟨400, 100⟩, ⟨4, 1⟩, some "l2"⟩,
    ⟨"b2", "t3", "A", "", "", .n, none, ⟨800, 100⟩, ⟨8, 1⟩, none⟩]
  lots := []
  slots := []
  prices := []
  history := []
  drawn := 0

def replacedSells : List LossSale :=
  ((replacedSale.splits.filter fun s => s.qty < 0).map fun s => ⟨s, -100⟩)

def replacementBuys : List Split := replacedSale.splits.filter fun s => 0 < s.qty

theorem matchWashSales_allocates_replacedSale :
    (replacementBuys.map Split.guid).Nodup ∧
      (replacedSells.map fun s => s.split.guid).Nodup ∧
      Allocates replacedSale replacementBuys replacedSells
        (matchWashSales replacedSale replacementBuys replacedSells) ∧
      (matchWashSales replacedSale replacementBuys replacedSells).map WashMatch.replacementShares =
        [4, 6] := by
  have hbuys : (replacementBuys.map Split.guid).Nodup := by decide +kernel
  have hsells : (replacedSells.map fun s => s.split.guid).Nodup := by decide +kernel
  exact ⟨hbuys, hsells, (matchWashSales_allocates replacedSale _ _ hbuys hsells).1,
    by decide +kernel⟩

end Lots
