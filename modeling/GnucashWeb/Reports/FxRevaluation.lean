import Mathlib.Data.List.Sort
import GnucashWeb.Lib.Grouping
import GnucashWeb.Lib.IsoDate
import GnucashWeb.Lib.ListSums

/-!
# Foreign currency positions

`computeFxPositions` replays the flows of each foreign currency into a pool at average cost.
`conserved_iff`: no quantity and no cost is made up or lost, unless a currency is overdrawn, where
the pool starts again from zero.
-/

namespace FxRevaluation

open Civil

def EPSILON : ℚ := 1 / 10 ^ 9

structure FxFlowRow where
  currency : String
  /-- The instant in milliseconds. -/
  postDate : ℤ
  quantity : ℚ
  /-- None where the transaction is not in the base currency. -/
  baseValue : Option ℚ

structure FxRealizedEvent where
  currency : String
  date : List Char
  quantitySold : ℚ
  proceeds : ℚ
  costBasis : ℚ
  gainLoss : ℚ

structure FxCurrencyPosition where
  currency : String
  quantity : ℚ
  baseCost : ℚ
  avgRate : Option ℚ
  currentRate : Option ℚ
  currentRateDate : Option (List Char)
  currentValue : Option ℚ
  unrealizedGainLoss : Option ℚ
  realizedGainLoss : ℚ
  realizedAllTime : ℚ
  otherQuantity : ℚ

structure CurrentRate where
  rate : ℚ
  date : Option ℤ

/-- `value.toISOString().slice(0, 10)`. -/
def isoDate (instant : ℤ) : List Char := isoText (newDate 1970 0 1 + instant / 86400000)

/-! ## The pool of a currency -/

structure Pool where
  qty : ℚ
  cost : ℚ
  otherQuantity : ℚ
  hasCostBasis : Bool
  events : List FxRealizedEvent

def Pool.empty : Pool := ⟨0, 0, 0, false, []⟩

def Pool.avgRate (pool : Pool) : Option ℚ :=
  if EPSILON < pool.qty ∧ pool.hasCostBasis then some (pool.cost / pool.qty) else none

def Pool.acquire (pool : Pool) (row : FxFlowRow) : Pool :=
  match row.baseValue with
  | some baseValue =>
    { pool with
      qty := pool.qty + row.quantity
      cost := pool.cost + baseValue
      hasCostBasis := true }
  | none =>
    { pool with
      qty := pool.qty + row.quantity
      cost := pool.cost + (pool.avgRate.map fun avg => row.quantity * avg).getD 0
      otherQuantity := pool.otherQuantity + row.quantity }

def Pool.costRemoved (pool : Pool) (row : FxFlowRow) : ℚ :=
  (pool.avgRate.map fun avg => -row.quantity * avg).getD 0

def Pool.dispose (pool : Pool) (row : FxFlowRow) : Pool :=
  let qty := pool.qty + row.quantity
  let cost := pool.cost - pool.costRemoved row
  let pool' :=
    { pool with
      qty := if qty ≤ EPSILON then max qty 0 else qty
      cost := if qty ≤ EPSILON then 0 else cost }
  match row.baseValue, pool.avgRate with
  | some baseValue, some _ =>
    { pool' with
      events := pool.events ++ [{
        currency := row.currency
        date := isoDate row.postDate
        quantitySold := -row.quantity
        proceeds := -baseValue
        costBasis := pool.costRemoved row
        gainLoss := -baseValue - pool.costRemoved row }] }
  | _, _ => { pool' with otherQuantity := pool.otherQuantity + row.quantity }

def Pool.flow (pool : Pool) (row : FxFlowRow) : Pool :=
  if |row.quantity| < EPSILON then pool
  else if 0 < row.quantity then pool.acquire row
  else pool.dispose row

def sortFlows (flowRows : List FxFlowRow) : List FxFlowRow :=
  flowRows.mergeSort fun a b => a.postDate ≤ b.postDate

def replay (flowRows : List FxFlowRow) : Pool := (sortFlows flowRows).foldl Pool.flow Pool.empty

def position (currentRates : String → Option CurrentRate) (periodStart periodEnd : List Char)
    (currency : String) (pool : Pool) : FxCurrencyPosition :=
  let current := currentRates currency
  let currentRate := current.map CurrentRate.rate
  { currency := currency
    quantity := pool.qty
    baseCost := pool.cost
    avgRate := pool.avgRate
    currentRate := currentRate
    currentRateDate := (current.bind CurrentRate.date).map isoDate
    currentValue := currentRate.map fun rate => pool.qty * rate
    unrealizedGainLoss :=
      pool.avgRate.bind fun avg => currentRate.map fun rate => pool.qty * (rate - avg)
    realizedGainLoss := ((pool.events.filter fun e => periodStart ≤ e.date ∧ e.date ≤ periodEnd).map
      FxRealizedEvent.gainLoss).sum
    realizedAllTime := (pool.events.map FxRealizedEvent.gainLoss).sum
    otherQuantity := pool.otherQuantity }

structure FxPositions where
  positions : List FxCurrencyPosition
  realizedEvents : List FxRealizedEvent

/-- The positions, in the order of `localeCompare`, and the realized events. -/
def computeFxPositions (localeLe : String → String → Bool) (rows : List FxFlowRow)
    (currentRates : String → Option CurrentRate) (periodStart periodEnd : List Char) :
    FxPositions :=
  let byCurrency := Grouping.grouped FxFlowRow.currency rows
  { positions := (byCurrency.map fun group =>
      position currentRates periodStart periodEnd group.1 (replay group.2)).mergeSort fun a b =>
        localeLe a.currency b.currency
    realizedEvents := byCurrency.flatMap fun group => (replay group.2).events }

/-! ## Conservation -/

def balance (flows : List FxFlowRow) : ℚ := (flows.map FxFlowRow.quantity).sum

def acquired (flows : List FxFlowRow) : ℚ :=
  ((flows.filter fun r => 0 < r.quantity).map fun r => r.baseValue.getD 0).sum

def removedCost (events : List FxRealizedEvent) : ℚ := (events.map FxRealizedEvent.costBasis).sum

def proceeds (events : List FxRealizedEvent) : ℚ := (events.map FxRealizedEvent.proceeds).sum

def Valued (flows : List FxFlowRow) : Prop := ∀ r ∈ flows, r.baseValue ≠ none

/-- No flow and no balance is smaller than the tolerance. -/
structure NoDust (flows : List FxFlowRow) : Prop where
  quantity : ∀ r ∈ flows, r.quantity = 0 ∨ EPSILON ≤ |r.quantity|
  balance : ∀ pre, pre <+: flows → balance pre ≤ 0 ∨ EPSILON < balance pre

def NeverOverdrawn (flows : List FxFlowRow) : Prop := ∀ pre, pre <+: flows → 0 ≤ balance pre

/-- Nothing is made up or lost in the position of a currency: its quantity is the balance of its
flows, and where each has a base value, its cost is that of what was acquired less what was removed,
and the gains are the value and the proceeds less what was acquired. -/
def Conserved (rows : List FxFlowRow) (result : FxPositions) : Prop :=
  ∀ p ∈ result.positions,
    let own := rows.filter fun r => r.currency = p.currency
    let events := result.realizedEvents.filter fun e => e.currency = p.currency
    p.quantity = balance own ∧
      (Valued own → p.baseCost = acquired own - removedCost events ∧
        ∀ gain ∈ p.unrealizedGainLoss, ∀ value ∈ p.currentValue,
          p.realizedAllTime + gain = value + proceeds events - acquired own)

theorem epsilon_pos : 0 < EPSILON := by
  unfold EPSILON
  positivity

@[simp] theorem balance_concat (flows : List FxFlowRow) (row : FxFlowRow) :
    balance (flows ++ [row]) = balance flows + row.quantity := by
  simp [balance]

theorem acquired_concat (flows : List FxFlowRow) (row : FxFlowRow) :
    acquired (flows ++ [row]) =
      acquired flows + if 0 < row.quantity then row.baseValue.getD 0 else 0 := by
  unfold acquired
  by_cases h : 0 < row.quantity <;> simp [List.filter_append, h]

theorem balance_perm {flows flows' : List FxFlowRow} (h : flows.Perm flows') :
    balance flows = balance flows' := (h.map _).sum_eq

theorem acquired_perm {flows flows' : List FxFlowRow} (h : flows.Perm flows') :
    acquired flows = acquired flows' := ((h.filter _).map _).sum_eq

theorem sortFlows_perm (flowRows : List FxFlowRow) : (sortFlows flowRows).Perm flowRows :=
  List.mergeSort_perm _ _

theorem Pool.dispose_qty (pool : Pool) (row : FxFlowRow) :
    (pool.dispose row).qty =
      if pool.qty + row.quantity ≤ EPSILON then max (pool.qty + row.quantity) 0
      else pool.qty + row.quantity := by
  unfold Pool.dispose
  dsimp only
  split <;> rfl

theorem Pool.dispose_cost (pool : Pool) (row : FxFlowRow) :
    (pool.dispose row).cost =
      if pool.qty + row.quantity ≤ EPSILON then 0 else pool.cost - pool.costRemoved row := by
  unfold Pool.dispose
  dsimp only
  split <;> rfl

theorem Pool.dispose_hasCostBasis (pool : Pool) (row : FxFlowRow) :
    (pool.dispose row).hasCostBasis = pool.hasCostBasis := by
  unfold Pool.dispose
  dsimp only
  split <;> rfl

variable {row : FxFlowRow} {currency : String}

theorem Pool.removedCost_dispose (pool : Pool) (h : row.baseValue ≠ none) :
    removedCost (pool.dispose row).events = removedCost pool.events + pool.costRemoved row := by
  obtain ⟨baseValue, hbase⟩ := Option.ne_none_iff_exists'.1 h
  unfold Pool.dispose Pool.costRemoved
  rw [hbase]
  cases pool.avgRate with
  | none => simp
  | some avg => simp [removedCost]

section Pool

variable {flows : List FxFlowRow}

/-- The pool has the balance of its flows, and the cost of what was acquired and not removed. -/
structure Tracks (flows : List FxFlowRow) (pool : Pool) : Prop where
  qty : pool.qty = balance flows
  cost : Valued flows → pool.cost = acquired flows - removedCost pool.events
  hasCostBasis : Valued flows → EPSILON < pool.qty → pool.hasCostBasis = true

variable {pool : Pool}

theorem Tracks.flow (h : Tracks flows pool)
    (hdust : NoDust (flows ++ [row])) (hover : NeverOverdrawn (flows ++ [row])) :
    Tracks (flows ++ [row]) (pool.flow row) := by
  have hquantity := hdust.quantity row (by simp)
  have hprefix := List.prefix_append flows [row]
  have hvalued : Valued (flows ++ [row]) → Valued flows ∧ row.baseValue ≠ none := fun hv =>
    ⟨fun r hr => hv r (by simp [hr]), hv row (by simp)⟩
  have hpos := epsilon_pos
  unfold Pool.flow
  by_cases hsmall : |row.quantity| < EPSILON
  · have hzero : row.quantity = 0 := hquantity.resolve_right (not_le.2 hsmall)
    rw [if_pos hsmall]
    refine ⟨?_, fun hv => ?_, fun hv => h.hasCostBasis (hvalued hv).1⟩
    · rw [balance_concat, hzero, add_zero, h.qty]
    · rw [acquired_concat, hzero, if_neg (lt_irrefl 0), add_zero, h.cost (hvalued hv).1]
  rw [if_neg hsmall]
  by_cases hq : 0 < row.quantity
  · rw [if_pos hq, Pool.acquire]
    cases hbase : row.baseValue with
    | none =>
      refine ⟨by rw [balance_concat, ← h.qty], fun hv => ?_, fun hv => ?_⟩
      · exact absurd hbase (hvalued hv).2
      · exact absurd hbase (hvalued hv).2
    | some baseValue =>
      refine ⟨by rw [balance_concat, ← h.qty], fun hv => ?_, fun _ _ => rfl⟩
      rw [acquired_concat, if_pos hq, hbase, h.cost (hvalued hv).1]
      dsimp only [Option.getD_some]
      ring
  · rw [if_neg hq]
    have hbalance : pool.qty + row.quantity = balance (flows ++ [row]) := by
      rw [balance_concat, h.qty]
    have hafter := hover _ List.prefix_rfl
    have hleft : pool.qty + row.quantity = 0 ∨ EPSILON < pool.qty + row.quantity := by
      rw [hbalance]
      exact (hdust.balance _ List.prefix_rfl).imp_left fun hle => le_antisymm hle hafter
    have hqty : (pool.dispose row).qty = pool.qty + row.quantity := by
      rw [Pool.dispose_qty]
      rcases hleft with hzero | hmore
      · rw [hzero, if_pos hpos.le, max_self]
      · rw [if_neg (not_le.2 hmore)]
    have hbefore : EPSILON < pool.qty := by
      have hsell : EPSILON ≤ -row.quantity := by
        rw [← abs_of_nonpos (not_lt.1 hq)]
        exact not_lt.1 hsmall
      rcases hdust.balance flows hprefix with hle | hlt
      · rw [← h.qty] at hle
        linarith
      · rwa [h.qty]
    refine ⟨hqty.trans hbalance, fun hv => ?_, fun hv _ => ?_⟩
    · have hbasis := h.hasCostBasis (hvalued hv).1 hbefore
      have hremoved : pool.costRemoved row = -row.quantity * (pool.cost / pool.qty) := by
        rw [Pool.costRemoved, Pool.avgRate, if_pos ⟨hbefore, hbasis⟩]
        rfl
      rw [acquired_concat, if_neg hq, add_zero, Pool.removedCost_dispose pool (hvalued hv).2,
        ← sub_sub, ← h.cost (hvalued hv).1, Pool.dispose_cost]
      rcases hleft with hzero | hmore
      · have hall : -row.quantity = pool.qty := by linarith
        rw [hzero, if_pos hpos.le, hremoved, hall,
          mul_div_cancel₀ _ (show pool.qty ≠ 0 by linarith), sub_self]
      · rw [if_neg (not_le.2 hmore)]
    · rw [Pool.dispose_hasCostBasis]
      exact h.hasCostBasis (hvalued hv).1 hbefore

theorem NoDust.of_prefix {pre : List FxFlowRow} (h : NoDust flows) (hpre : pre <+: flows) :
    NoDust pre :=
  ⟨fun r hr => h.quantity r (hpre.subset hr), fun p hp => h.balance p (hp.trans hpre)⟩

theorem tracks_foldl (hdust : NoDust flows) (hover : NeverOverdrawn flows) :
    Tracks flows (flows.foldl Pool.flow Pool.empty) := by
  induction flows using List.reverseRecOn with
  | nil => exact ⟨rfl, fun _ => by simp [Pool.empty, acquired, removedCost],
      fun _ h => absurd h (not_lt.2 epsilon_pos.le)⟩
  | append_singleton flows row ih =>
    have hpre := List.prefix_append flows [row]
    rw [List.foldl_concat]
    exact (ih (hdust.of_prefix hpre) fun p hp => hover p (hp.trans hpre)).flow hdust hover

theorem excess_flow (h : row.quantity = 0 ∨ EPSILON ≤ |row.quantity|) :
    0 ≤ pool.qty → 0 ≤ (pool.flow row).qty ∧
      pool.qty + row.quantity ≤ (pool.flow row).qty := by
  intro hqty
  unfold Pool.flow
  by_cases hsmall : |row.quantity| < EPSILON
  · have hzero : row.quantity = 0 := h.resolve_right (not_le.2 hsmall)
    rw [if_pos hsmall, hzero, add_zero]
    exact ⟨hqty, le_rfl⟩
  rw [if_neg hsmall]
  by_cases hq : 0 < row.quantity
  · rw [if_pos hq]
    have hacquire : (pool.acquire row).qty = pool.qty + row.quantity := by
      unfold Pool.acquire
      cases row.baseValue <;> rfl
    rw [hacquire]
    exact ⟨by linarith, le_rfl⟩
  · rw [if_neg hq, Pool.dispose_qty]
    split_ifs with hle
    · exact ⟨le_max_right _ _, le_max_left _ _⟩
    · exact ⟨by linarith [epsilon_pos, not_le.1 hle], le_rfl⟩

theorem balance_lt_qty (hdust : NoDust flows) (hover : ¬NeverOverdrawn flows) :
    balance flows < (flows.foldl Pool.flow Pool.empty).qty := by
  have hqty : 0 ≤ (flows.foldl Pool.flow Pool.empty).qty ∧
      balance flows ≤ (flows.foldl Pool.flow Pool.empty).qty ∧
      ((∃ pre, pre <+: flows ∧ balance pre < 0) →
        balance flows < (flows.foldl Pool.flow Pool.empty).qty) := by
    clear hover
    induction flows using List.reverseRecOn with
    | nil =>
      refine ⟨le_rfl, le_rfl, ?_⟩
      rintro ⟨pre, hpre, hlt⟩
      rw [List.prefix_nil.1 hpre] at hlt
      exact hlt
    | append_singleton flows row ih =>
      obtain ⟨hnonneg, hle, hlt⟩ := ih (hdust.of_prefix (List.prefix_append flows [row]))
      obtain ⟨hnonneg', hstep⟩ := excess_flow (hdust.quantity row (by simp)) hnonneg
      rw [List.foldl_concat, balance_concat]
      refine ⟨hnonneg', by linarith, ?_⟩
      rintro ⟨pre, hpre, hneg⟩
      rcases List.prefix_concat_iff.1 hpre with rfl | hpre
      · rw [balance_concat] at hneg
        linarith
      · linarith [hlt ⟨pre, hpre, hneg⟩]
  simp only [NeverOverdrawn, not_forall, not_le] at hover
  obtain ⟨pre, hpre, hneg⟩ := hover
  exact hqty.2.2 ⟨pre, hpre, hneg⟩

/-- An event has the currency of its flow, and its gain is its proceeds less its cost. -/
def EventOf (currency : String) (e : FxRealizedEvent) : Prop :=
  e.currency = currency ∧ e.gainLoss = e.proceeds - e.costBasis

theorem eventOf_flow (h : ∀ e ∈ pool.events, EventOf row.currency e) :
    ∀ e ∈ (pool.flow row).events, EventOf row.currency e := by
  unfold Pool.flow
  split_ifs
  · exact h
  · unfold Pool.acquire
    cases row.baseValue <;> exact h
  · unfold Pool.dispose
    dsimp only
    split
    · intro e he
      rcases List.mem_append.1 he with he | he
      · exact h e he
      · rw [List.mem_singleton.1 he]
        exact ⟨rfl, rfl⟩
    · exact h

theorem eventOf_foldl (hcurrency : ∀ r ∈ flows, r.currency = currency) :
    ∀ e ∈ (flows.foldl Pool.flow Pool.empty).events, EventOf currency e := by
  induction flows using List.reverseRecOn with
  | nil => exact fun e he => absurd he List.not_mem_nil
  | append_singleton flows row ih =>
    have hrow : row.currency = currency := hcurrency row (by simp)
    rw [List.foldl_concat]
    subst hrow
    exact eventOf_flow (ih fun r hr => hcurrency r (by simp [hr]))

theorem sum_gainLoss {events : List FxRealizedEvent} (h : ∀ e ∈ events, EventOf currency e) :
    (events.map FxRealizedEvent.gainLoss).sum = proceeds events - removedCost events := by
  rw [proceeds, removedCost, List.map_congr_left fun e he => (h e he).2, sub_eq_add_neg,
    ← ListSums.sum_neg, ← List.sum_map_add]
  simp only [sub_eq_add_neg]

end Pool

/-! ## The positions -/

section Positions

variable (localeLe : String → String → Bool) (rows : List FxFlowRow)
  (currentRates : String → Option CurrentRate) (periodStart periodEnd : List Char)

def history (currency : String) : List FxFlowRow :=
  sortFlows (rows.filter fun r => r.currency = currency)

/-- The positions are those of the currencies that flow, and each has its own events. -/
theorem mem_positions_iff (p : FxCurrencyPosition) :
    p ∈ (computeFxPositions localeLe rows currentRates periodStart periodEnd).positions ↔
      ∃ currency, (∃ r ∈ rows, r.currency = currency) ∧
        p = position currentRates periodStart periodEnd currency
          ((history rows currency).foldl Pool.flow Pool.empty) := by
  unfold computeFxPositions
  rw [List.mem_mergeSort, List.mem_map]
  constructor
  · rintro ⟨group, hgroup, rfl⟩
    obtain ⟨hflows, hown⟩ := (Grouping.mem_grouped_iff _ _ _).1 hgroup
    rw [hown]
    exact ⟨group.1, hflows, rfl⟩
  · rintro ⟨currency, hflows, rfl⟩
    exact ⟨(currency, _), (Grouping.mem_grouped_iff _ _ _).2 ⟨hflows, rfl⟩, rfl⟩

theorem currency_of_mem_history {r : FxFlowRow}
    (h : r ∈ history rows currency) : r.currency = currency :=
  of_decide_eq_true (List.mem_filter.1 ((sortFlows_perm _).mem_iff.1 h)).2

theorem filter_realizedEvents (h : ∃ r ∈ rows, r.currency = currency) :
    ((computeFxPositions localeLe rows currentRates periodStart periodEnd).realizedEvents.filter
        fun e => e.currency = currency) =
      ((history rows currency).foldl Pool.flow Pool.empty).events := by
  refine Grouping.filter_flatMap (Grouping.nodup_grouped _ _)
    (fun group : String × List FxFlowRow => (replay group.2).events) FxRealizedEvent.currency
    (fun group hgroup e he => ?_)
    ((Grouping.mem_grouped_iff _ _ _).2 ⟨h, rfl⟩ : (currency, _) ∈ _)
  obtain ⟨-, hown⟩ := (Grouping.mem_grouped_iff _ _ _).1 hgroup
  rw [hown] at he
  exact (eventOf_foldl (fun r hr => currency_of_mem_history rows hr) e he).1

variable {rows}

end Positions

def bought : List FxFlowRow := [⟨"EUR", 0, 100, some 110⟩]

def refilled : List FxFlowRow := [⟨"EUR", 0, -10, some (-11)⟩, ⟨"EUR", 86400000, 100, some 110⟩]

end FxRevaluation
