import GnucashWeb.Inventory.Costing
import Mathlib.Algebra.BigOperators.Group.List.Basic
import Mathlib.Data.List.Induction
import Mathlib.Tactic.Ring

/-!
# Layers and consumptions

The layers rebuilt from a history against the layers that consumptions leave.  A consumption leaves
what the rebuilt history has (`buildFifoLayers_concat`).  It drops a remainder of the last layer it
touches that is within the tolerance, and nothing else: `takes_takeLayers` says what one consumption
does, `Accounted` what holds after every history that never ships more than is on hand.  Histories in
whole multiples of a unit above the tolerance drop nothing.
-/

namespace Inventory

/-! ## Layers -/

def quantityOf (layers : List FifoLayer) : ℚ := (layers.map FifoLayer.quantity).sum

def valueOf (layers : List FifoLayer) : ℚ := (layers.map fun l => l.quantity * l.unitCost).sum

@[simp] theorem quantityOf_nil : quantityOf [] = 0 := rfl

@[simp] theorem quantityOf_cons (l : FifoLayer) (layers : List FifoLayer) :
    quantityOf (l :: layers) = l.quantity + quantityOf layers := by
  simp [quantityOf]

@[simp] theorem quantityOf_append (layers more : List FifoLayer) :
    quantityOf (layers ++ more) = quantityOf layers + quantityOf more := by
  simp [quantityOf]

@[simp] theorem valueOf_nil : valueOf [] = 0 := rfl

@[simp] theorem valueOf_cons (l : FifoLayer) (layers : List FifoLayer) :
    valueOf (l :: layers) = l.quantity * l.unitCost + valueOf layers := by
  simp [valueOf]

@[simp] theorem valueOf_append (layers more : List FifoLayer) :
    valueOf (layers ++ more) = valueOf layers + valueOf more := by
  simp [valueOf]

def Positive (layers : List FifoLayer) : Prop := ∀ l ∈ layers, 0 < l.quantity

/-- What is taken of the layers, what is left of them, and a remainder within the tolerance that is
dropped once all is taken.  Less is taken than asked for only within the tolerance, or when nothing is
left. -/
structure Takes (layers : List FifoLayer) (asked : ℚ) (taken left : List FifoLayer)
    (dropped : FifoLayer) : Prop where
  dropped_nonneg : 0 ≤ dropped.quantity
  dropped_le : dropped.quantity ≤ epsilon
  quantity : quantityOf layers = quantityOf taken + quantityOf left + dropped.quantity
  value : valueOf layers = valueOf taken + valueOf left + valueOf [dropped]
  atMost : quantityOf taken ≤ asked
  all : 0 < dropped.quantity → quantityOf taken = asked
  met : left = [] ∨ asked - quantityOf taken ≤ epsilon
  positive : Positive left

variable {layers : List FifoLayer} {q : ℚ} {movements : List Movement} {m : Movement}

theorem takeLayers_of_le (h : q ≤ epsilon) :
    takeLayers layers q = ([], layers) := by
  cases layers with
  | nil => rfl
  | cons head rest => rw [takeLayers, if_pos h]

theorem takes_of_le (hpos : Positive layers) (hq : 0 ≤ q)
    (h : q ≤ epsilon) : Takes layers q [] layers ⟨0, 0⟩ :=
  ⟨le_rfl, epsilon_pos.le, by simp, by simp, hq, fun h => absurd h (lt_irrefl 0), .inr (by simpa),
    hpos⟩

theorem takes_takeLayers (hpos : Positive layers) (hq : 0 ≤ q) :
    ∃ dropped, Takes layers q (takeLayers layers q).1 (takeLayers layers q).2 dropped := by
  induction layers generalizing q with
  | nil =>
    exact ⟨⟨0, 0⟩, le_rfl, epsilon_pos.le, by simp [takeLayers], by simp [takeLayers],
      by simpa [takeLayers], fun h => absurd h (lt_irrefl 0), .inl rfl, nofun⟩
  | cons head rest ih =>
    by_cases hsmall : q ≤ epsilon
    · rw [takeLayers_of_le hsmall]
      exact ⟨_, takes_of_le hpos hq hsmall⟩
    have hhead : 0 < head.quantity := hpos head List.mem_cons_self
    have hrest : Positive rest := fun l hl => hpos l (List.mem_cons_of_mem _ hl)
    rw [takeLayers, if_neg hsmall]
    dsimp only
    by_cases hends : head.quantity - min head.quantity q ≤ epsilon
    · rw [if_pos hends]
      rcases le_total head.quantity q with hle | hle
      · -- The whole layer is taken, and more may be.
        rw [min_eq_left hle]
        obtain ⟨dropped, h⟩ := ih hrest (sub_nonneg.2 hle)
        refine ⟨dropped, h.dropped_nonneg, h.dropped_le, ?_, ?_, ?_, fun hd => ?_, ?_, h.positive⟩
        · rw [quantityOf_cons, quantityOf_cons, h.quantity]
          ring
        · rw [valueOf_cons, valueOf_cons, h.value]
          ring
        · rw [quantityOf_cons]
          linarith [h.atMost]
        · rw [quantityOf_cons, h.all hd]
          ring
        · rw [quantityOf_cons]
          exact h.met.imp_right fun hmet => by linarith
      · -- The rest of the layer is within the tolerance.
        rw [min_eq_right hle] at hends ⊢
        rw [sub_self, takeLayers_of_le epsilon_pos.le]
        refine ⟨⟨head.quantity - q, head.unitCost⟩, sub_nonneg.2 hle, hends, ?_, ?_, ?_, fun _ => ?_,
          .inr ?_, hrest⟩
        all_goals simp only [quantityOf_cons, valueOf_cons, quantityOf_nil, valueOf_nil]
        · ring
        · ring
        · linarith
        · ring
        · linarith [epsilon_pos]
    · rw [if_neg hends]
      have hle : q ≤ head.quantity := by
        by_contra hnot
        rw [min_eq_left (not_le.1 hnot).le, sub_self] at hends
        exact hends epsilon_pos.le
      rw [min_eq_right hle] at hends ⊢
      refine ⟨⟨0, 0⟩, le_rfl, epsilon_pos.le, ?_, ?_, ?_, fun h => absurd h (lt_irrefl 0), .inr ?_,
        fun l hl => ?_⟩
      all_goals try simp only [quantityOf_cons, valueOf_cons, quantityOf_nil, valueOf_nil]
      · ring
      · ring
      · linarith
      · linarith [epsilon_pos]
      · rcases List.mem_cons.1 hl with rfl | hl
        · exact epsilon_pos.trans (not_le.1 hends)
        · exact hrest l hl

/-! ## Histories -/

/-- A move between locations, which layers ignore. -/
def Movement.isTransfer (m : Movement) : Bool :=
  m.movementType = .transferIn ∨ m.movementType = .transferOut

def Movement.stocked (m : Movement) : ℚ := if m.isTransfer then 0 else m.quantity

def Movement.inboundCost (m : Movement) : ℚ :=
  if ¬m.isTransfer ∧ 0 < m.quantity then m.quantity * m.unitCost.getD 0 else 0

/-- The stock of the book, with what is under way between its locations. -/
def stock (movements : List Movement) : ℚ := (movements.map Movement.stocked).sum

def inboundCost (movements : List Movement) : ℚ := (movements.map Movement.inboundCost).sum

def takenBy (layers : List FifoLayer) (m : Movement) : List FifoLayer :=
  if ¬m.isTransfer ∧ m.quantity < 0 then (takeLayers layers (-m.quantity)).1 else []

/-- The cost of all consumptions, each from the layers before it. -/
def consumedCost : List FifoLayer → List Movement → ℚ
  | _, [] => 0
  | layers, m :: rest => valueOf (takenBy layers m) + consumedCost (addToLayers layers m) rest

/-- No consumption of the history is of more than is on hand. -/
def NeverOverships (movements : List Movement) : Prop :=
  ∀ before m, before ++ [m] <+: movements → m.isTransfer = false → m.quantity < 0 →
    -m.quantity ≤ stock before

theorem stock_concat (movements : List Movement) (m : Movement) :
    stock (movements ++ [m]) = stock movements + m.stocked := by
  simp [stock]

theorem inboundCost_concat (movements : List Movement) (m : Movement) :
    inboundCost (movements ++ [m]) = inboundCost movements + m.inboundCost := by
  simp [inboundCost]

theorem buildFifoLayers_concat (movements : List Movement) (m : Movement) :
    buildFifoLayers (movements ++ [m]) = addToLayers (buildFifoLayers movements) m := by
  simp [buildFifoLayers]

theorem consumedCost_concat (layers : List FifoLayer) (movements : List Movement) (m : Movement) :
    consumedCost layers (movements ++ [m]) =
      consumedCost layers movements + valueOf (takenBy (movements.foldl addToLayers layers) m) := by
  induction movements generalizing layers with
  | nil => simp [consumedCost]
  | cons head rest ih =>
    rw [List.cons_append, consumedCost, ih, consumedCost, List.foldl_cons, add_assoc]

theorem NeverOverships.of_concat
    (h : NeverOverships (movements ++ [m])) : NeverOverships movements :=
  fun before m' hpart => h before m' (hpart.trans (List.prefix_append _ _))

theorem NeverOverships.stock_nonneg (h : NeverOverships movements) :
    0 ≤ stock movements := by
  induction movements using List.reverseRecOn with
  | nil => exact le_rfl
  | append_singleton movements m ih =>
    have hbefore := ih h.of_concat
    have hm := h movements m List.prefix_rfl
    rw [stock_concat, Movement.stocked]
    split_ifs with htransfer
    · linarith
    · rcases lt_or_ge m.quantity 0 with hout | hin
      · linarith [hm (by simpa using htransfer) hout]
      · linarith

/-- Appending a movement other than a transfer, of a quantity that is not inbound, consumes it. -/
theorem addToLayers_consumption (htransfer : m.isTransfer = false)
    (hquantity : m.quantity ≤ 0) (layers : List FifoLayer) :
    addToLayers layers m = (takeLayers layers (-m.quantity)).2 := by
  have hnot : ¬(m.movementType = .transferIn ∨ m.movementType = .transferOut) :=
    of_decide_eq_false htransfer
  have hε := epsilon_pos
  rw [addToLayers, if_neg hnot, if_neg (by linarith)]
  split
  · rfl
  · rw [takeLayers_of_le (by linarith)]

theorem computeFifoConsumption_eq_ok {c : FifoConsumption} :
    computeFifoConsumption layers q = .ok c ↔
      (0 < q ∧ q ≤ quantityOf layers + epsilon) ∧
        c = ⟨valueOf (takeLayers layers q).1, valueOf (takeLayers layers q).1 / q,
          (takeLayers layers q).1, (takeLayers layers q).2⟩ := by
  unfold computeFifoConsumption
  dsimp only
  by_cases hq : q ≤ 0
  · rw [if_pos hq]
    exact ⟨nofun, fun h => absurd hq (not_le.2 h.1.1)⟩
  rw [if_neg hq]
  by_cases hmore : (layers.map FifoLayer.quantity).sum + epsilon < q
  · rw [if_pos hmore]
    exact ⟨nofun, fun h => absurd hmore (not_lt.2 h.1.2)⟩
  rw [if_neg hmore, Except.ok.injEq]
  exact ⟨fun h => ⟨⟨not_le.1 hq, not_lt.1 hmore⟩, h.symm⟩, fun h => h.2.symm⟩

/-! ## What histories keep -/

theorem positive_addToLayers (h : Positive layers) (m : Movement) :
    Positive (addToLayers layers m) := by
  unfold addToLayers
  split_ifs with htransfer hin hout
  · exact h
  · intro l hl
    rcases List.mem_append.1 hl with hl | hl
    · exact h l hl
    · rw [List.mem_singleton.1 hl]
      exact epsilon_pos.trans hin
  · have hε := epsilon_pos
    obtain ⟨dropped, htakes⟩ := takes_takeLayers h (q := -m.quantity) (by linarith)
    exact htakes.positive
  · exact h

theorem positive_buildFifoLayers (movements : List Movement) :
    Positive (buildFifoLayers movements) := by
  induction movements using List.reverseRecOn with
  | nil => exact nofun
  | append_singleton movements m ih =>
    rw [buildFifoLayers_concat]
    exact positive_addToLayers ih m

/-- What one movement does: what it brings is layered, taken or dropped within the tolerance, and what
it asks for and does not get is within the tolerance, or more than there was. -/
structure Steps (layers : List FifoLayer) (m : Movement) (dropped : FifoLayer) (unmet : ℚ) : Prop where
  dropped_nonneg : 0 ≤ dropped.quantity
  dropped_le : dropped.quantity ≤ epsilon
  unmet_nonneg : 0 ≤ unmet
  unmet_le : addToLayers layers m = [] ∨ unmet ≤ epsilon
  all : 0 < dropped.quantity → unmet = 0
  value : valueOf layers + m.inboundCost =
    valueOf (addToLayers layers m) + valueOf (takenBy layers m) + valueOf [dropped]
  quantity : quantityOf (addToLayers layers m) =
    quantityOf layers + m.stocked - dropped.quantity + unmet

theorem steps_addToLayers (h : Positive layers) (m : Movement) :
    ∃ dropped unmet, Steps layers m dropped unmet := by
  have hε := epsilon_pos
  by_cases htransfer : m.isTransfer = true
  · have hmove : m.movementType = .transferIn ∨ m.movementType = .transferOut :=
      of_decide_eq_true htransfer
    have hsame : addToLayers layers m = layers := by rw [addToLayers, if_pos hmove]
    refine ⟨⟨0, 0⟩, 0, le_rfl, hε.le, le_rfl, .inr hε.le, fun h => absurd h (lt_irrefl 0), ?_, ?_⟩
    · simp [hsame, Movement.inboundCost, takenBy, htransfer]
    · simp [hsame, Movement.stocked, htransfer]
  have htransfer : m.isTransfer = false := by simpa using htransfer
  have hnot : ¬(m.movementType = .transferIn ∨ m.movementType = .transferOut) :=
    of_decide_eq_false htransfer
  have hstocked : m.stocked = m.quantity := by simp [Movement.stocked, htransfer]
  rcases lt_or_ge 0 m.quantity with hin | hout
  · have hcost : m.inboundCost = m.quantity * m.unitCost.getD 0 := by
      simp [Movement.inboundCost, htransfer, hin]
    have htaken : takenBy layers m = [] := by simp [takenBy, hin.le]
    by_cases hlayer : epsilon < m.quantity
    · have hadd : addToLayers layers m = layers ++ [⟨m.quantity, m.unitCost.getD 0⟩] := by
        rw [addToLayers, if_neg hnot, if_pos hlayer]
      refine ⟨⟨0, 0⟩, 0, le_rfl, hε.le, le_rfl, .inr hε.le, fun h => absurd h (lt_irrefl 0), ?_, ?_⟩
      · simp [hadd, hcost, htaken]
      · simp [hadd, hstocked]
    · -- A movement within the tolerance makes no layer.
      have hadd : addToLayers layers m = layers := by
        rw [addToLayers, if_neg hnot, if_neg hlayer, if_neg (by linarith)]
      refine ⟨⟨m.quantity, m.unitCost.getD 0⟩, 0, hin.le, not_lt.1 hlayer, le_rfl, .inr hε.le,
        fun _ => rfl, ?_, ?_⟩
      · simp [hadd, hcost, htaken]
      · simp [hadd, hstocked]
  · obtain ⟨dropped, ht⟩ := takes_takeLayers h (q := -m.quantity) (by linarith)
    rw [← addToLayers_consumption htransfer hout] at ht
    have htaken : takenBy layers m = (takeLayers layers (-m.quantity)).1 := by
      rcases hout.lt_or_eq with hlt | hzero
      · simp [takenBy, htransfer, hlt]
      · rw [hzero, neg_zero, takeLayers_of_le hε.le]
        simp [takenBy, hzero]
    rw [← htaken] at ht
    refine ⟨dropped, -m.quantity - quantityOf (takenBy layers m), ht.dropped_nonneg, ht.dropped_le,
      sub_nonneg.2 ht.atMost, ht.met, fun hd => ?_, ?_, ?_⟩
    · rw [ht.all hd, sub_self]
    · rw [show m.inboundCost = 0 by simp [Movement.inboundCost, not_lt.2 hout], add_zero, ht.value]
      ring
    · rw [hstocked, ht.quantity]
      ring

theorem Steps.drift {dropped : FifoLayer} {unmet onHand : ℚ}
    (hs : Steps layers m dropped unmet) (henough : 0 ≤ onHand + m.stocked) :
    |onHand + m.stocked - quantityOf (addToLayers layers m)| ≤
      |onHand - quantityOf layers| + epsilon := by
  have hε := epsilon_pos
  have hd := hs.dropped_nonneg
  have hd' := hs.dropped_le
  have hu := hs.unmet_nonneg
  have hquantity := hs.quantity
  have hmove : onHand + m.stocked - quantityOf (addToLayers layers m) =
      onHand - quantityOf layers + (dropped.quantity - unmet) := by
    rw [hquantity]
    ring
  have hwithin (hle : |dropped.quantity - unmet| ≤ epsilon) :
      |onHand + m.stocked - quantityOf (addToLayers layers m)| ≤
        |onHand - quantityOf layers| + epsilon := by
    rw [hmove]
    exact (abs_add_le _ _).trans (by linarith)
  rcases hd.lt_or_eq with hpos | hzero
  · rw [hs.all hpos, sub_zero, abs_of_nonneg hd] at hwithin
    exact hwithin hd'
  · rcases hs.unmet_le with hleft | hle
    · -- Nothing is left in the layers, and there was enough on hand.
      rw [hleft, quantityOf_nil, sub_zero] at hmove ⊢
      rw [abs_of_nonneg henough]
      have := le_abs_self (onHand - quantityOf layers)
      linarith
    · rw [← hzero, zero_sub, abs_neg, abs_of_nonneg hu] at hwithin
      exact hwithin hle

/-- What the tolerance takes from a history: the dropped remainders, one for each movement at most. -/
structure Accounted (movements : List Movement) (dropped : List FifoLayer) : Prop where
  length : dropped.length = movements.length
  small : ∀ d ∈ dropped, 0 ≤ d.quantity ∧ d.quantity ≤ epsilon
  cost : inboundCost movements =
    consumedCost [] movements + valueOf (buildFifoLayers movements) + valueOf dropped
  quantity : |stock movements - quantityOf (buildFifoLayers movements)| ≤ movements.length * epsilon

theorem exists_accounted (h : NeverOverships movements) :
    ∃ dropped, Accounted movements dropped := by
  induction movements using List.reverseRecOn with
  | nil =>
    exact ⟨[], rfl, nofun, by simp [inboundCost, consumedCost, buildFifoLayers],
      by simp [stock, buildFifoLayers]⟩
  | append_singleton movements m ih =>
    obtain ⟨dropped, hbefore⟩ := ih h.of_concat
    obtain ⟨remainder, unmet, hs⟩ := steps_addToLayers (positive_buildFifoLayers movements) m
    have henough : 0 ≤ stock movements + m.stocked := stock_concat movements m ▸ h.stock_nonneg
    refine ⟨dropped ++ [remainder], ?_, fun d hd => ?_, ?_, ?_⟩
    · simp [hbefore.length]
    · rcases List.mem_append.1 hd with hd | hd
      · exact hbefore.small d hd
      · rw [List.mem_singleton.1 hd]
        exact ⟨hs.dropped_nonneg, hs.dropped_le⟩
    · have hcost := hbefore.cost
      have hvalue := hs.value
      rw [inboundCost_concat, consumedCost_concat, buildFifoLayers_concat, valueOf_append]
      unfold buildFifoLayers at hcost hvalue ⊢
      linarith
    · have hdrift := hs.drift henough
      have hquantity := hbefore.quantity
      rw [stock_concat, buildFifoLayers_concat, List.length_append, List.length_singleton]
      push_cast
      linarith

/-! ## Whole multiples of a unit -/

def IsMultiple (unit q : ℚ) : Prop := ∃ n : ℤ, q = n * unit

section Multiples

variable {unit : ℚ}

theorem IsMultiple.add {p : ℚ} (hp : IsMultiple unit p) (hq : IsMultiple unit q) :
    IsMultiple unit (p + q) := by
  obtain ⟨m, rfl⟩ := hp
  obtain ⟨n, rfl⟩ := hq
  exact ⟨m + n, by push_cast; ring⟩

theorem IsMultiple.neg (hq : IsMultiple unit q) : IsMultiple unit (-q) := by
  obtain ⟨n, rfl⟩ := hq
  exact ⟨-n, by push_cast; ring⟩

theorem IsMultiple.sub {p : ℚ} (hp : IsMultiple unit p) (hq : IsMultiple unit q) :
    IsMultiple unit (p - q) := sub_eq_add_neg p q ▸ hp.add hq.neg

theorem isMultiple_zero : IsMultiple unit 0 := ⟨0, by simp⟩

/-- A multiple of a unit above the tolerance is not within the tolerance unless it is zero. -/
theorem IsMultiple.eq_zero (hunit : epsilon < unit) (hq : IsMultiple unit q) (hnonneg : 0 ≤ q)
    (hle : q ≤ epsilon) : q = 0 := by
  obtain ⟨n, rfl⟩ := hq
  have hpos : 0 < unit := epsilon_pos.trans hunit
  have hn : 0 ≤ n := by exact_mod_cast nonneg_of_mul_nonneg_left hnonneg hpos
  have hn' : n < 1 := by
    by_contra hge
    have hge : (1 : ℚ) ≤ n := by exact_mod_cast not_lt.1 hge
    have := mul_le_mul_of_nonneg_right hge hpos.le
    linarith
  rw [show n = 0 by omega]
  simp

def Multiples (unit : ℚ) (layers : List FifoLayer) : Prop := ∀ l ∈ layers, IsMultiple unit l.quantity

theorem Multiples.isMultiple_quantityOf (h : Multiples unit layers) :
    IsMultiple unit (quantityOf layers) := by
  induction layers with
  | nil => exact isMultiple_zero
  | cons l layers ih =>
    rw [quantityOf_cons]
    exact (h l List.mem_cons_self).add (ih fun m hm => h m (List.mem_cons_of_mem _ hm))

theorem multiples_takeLayers (h : Multiples unit layers)
    (hq : IsMultiple unit q) : Multiples unit (takeLayers layers q).2 := by
  induction layers generalizing q with
  | nil => exact nofun
  | cons head rest ih =>
    have hhead : IsMultiple unit head.quantity := h head List.mem_cons_self
    have hrest : Multiples unit rest := fun l hl => h l (List.mem_cons_of_mem _ hl)
    have htake : IsMultiple unit (min head.quantity q) := by
      rcases min_choice head.quantity q with hmin | hmin <;> rw [hmin] <;> assumption
    rw [takeLayers]
    dsimp only
    split_ifs
    · exact h
    · exact ih hrest (hq.sub htake)
    · intro l hl
      rcases List.mem_cons.1 hl with rfl | hl
      · exact hhead.sub htake
      · exact hrest l hl

theorem multiples_addToLayers (h : Multiples unit layers)
    (hm : IsMultiple unit m.quantity) : Multiples unit (addToLayers layers m) := by
  unfold addToLayers
  split_ifs
  · exact h
  · intro l hl
    rcases List.mem_append.1 hl with hl | hl
    · exact h l hl
    · rw [List.mem_singleton.1 hl]
      exact hm
  · exact multiples_takeLayers h hm.neg
  · exact h

theorem Steps.exact (hunit : epsilon < unit)
    {dropped : FifoLayer} {unmet : ℚ} (hs : Steps layers m dropped unmet)
    (hlayers : Multiples unit layers) (hm : IsMultiple unit m.quantity)
    (henough : 0 ≤ quantityOf layers + m.stocked) : dropped.quantity = 0 ∧ unmet = 0 := by
  have hstocked : IsMultiple unit m.stocked := by
    unfold Movement.stocked
    split
    · exact isMultiple_zero
    · exact hm
  have hafter := (multiples_addToLayers hlayers hm).isMultiple_quantityOf
  have hdiff : IsMultiple unit (dropped.quantity - unmet) := by
    have heq : dropped.quantity - unmet =
        quantityOf layers + m.stocked - quantityOf (addToLayers layers m) := by
      rw [hs.quantity]
      ring
    rw [heq]
    exact (hlayers.isMultiple_quantityOf.add hstocked).sub hafter
  have hdropped : dropped.quantity = 0 := by
    by_contra hne
    have hpos : 0 < dropped.quantity := hs.dropped_nonneg.lt_of_ne (Ne.symm hne)
    rw [hs.all hpos, sub_zero] at hdiff
    exact hne (hdiff.eq_zero hunit hs.dropped_nonneg hs.dropped_le)
  refine ⟨hdropped, ?_⟩
  rcases hs.unmet_le with hleft | hle
  · have hquantity := hs.quantity
    rw [hleft, quantityOf_nil, hdropped] at hquantity
    linarith [hs.unmet_nonneg]
  · rw [hdropped, zero_sub] at hdiff
    exact (neg_neg unmet ▸ hdiff.neg).eq_zero hunit hs.unmet_nonneg hle

structure Exact (unit : ℚ) (movements : List Movement) : Prop where
  cost : inboundCost movements = consumedCost [] movements + valueOf (buildFifoLayers movements)
  quantity : quantityOf (buildFifoLayers movements) = stock movements
  layers : Multiples unit (buildFifoLayers movements)

theorem exact_of_multiples (hunit : epsilon < unit)
    (hmultiples : ∀ m ∈ movements, IsMultiple unit m.quantity) (h : NeverOverships movements) :
    Exact unit movements := by
  induction movements using List.reverseRecOn with
  | nil =>
    exact ⟨by simp [inboundCost, consumedCost, buildFifoLayers], by simp [stock, buildFifoLayers],
      nofun⟩
  | append_singleton movements m ih =>
    have hbefore := ih (fun m hm => hmultiples m (List.mem_append_left _ hm)) h.of_concat
    have hm : IsMultiple unit m.quantity := hmultiples m (by simp)
    have henough : 0 ≤ quantityOf (buildFifoLayers movements) + m.stocked := by
      rw [hbefore.quantity, ← stock_concat]
      exact h.stock_nonneg
    obtain ⟨dropped, unmet, hs⟩ := steps_addToLayers (positive_buildFifoLayers movements) m
    obtain ⟨hdropped, hunmet⟩ := hs.exact hunit hbefore.layers hm henough
    have hvalue := hs.value
    have hquantity := hs.quantity
    have hcost := hbefore.cost
    rw [valueOf_cons, valueOf_nil, hdropped, zero_mul, add_zero, add_zero] at hvalue
    rw [hdropped, hunmet, sub_zero, add_zero] at hquantity
    refine ⟨?_, ?_, ?_⟩
    · rw [inboundCost_concat, consumedCost_concat, buildFifoLayers_concat]
      unfold buildFifoLayers at hcost hvalue ⊢
      linarith
    · rw [buildFifoLayers_concat, stock_concat, hquantity, hbefore.quantity]
    · rw [buildFifoLayers_concat]
      exact multiples_addToLayers hbefore.layers hm

theorem Exact.accepts (h : Exact unit movements) (hq : 0 < q) (hle : q ≤ stock movements) :
    ∃ c, computeFifoConsumption (buildFifoLayers movements) q = .ok c := by
  refine ⟨_, computeFifoConsumption_eq_ok.2 ⟨⟨hq, ?_⟩, rfl⟩⟩
  rw [h.quantity]
  linarith [epsilon_pos]

end Multiples

/-! ## Layers and consumptions agree -/

/-- The quantity on hand in the book, the sum of all movements. -/
def onHand (movements : List Movement) : ℚ := (movements.map Movement.quantity).sum

/-- What the moves between locations add up to. -/
def inTransit (movements : List Movement) : ℚ :=
  (movements.map fun m => if m.isTransfer then m.quantity else 0).sum

theorem onHand_eq (movements : List Movement) : onHand movements = stock movements + inTransit movements := by
  unfold onHand stock inTransit
  rw [← List.sum_map_add]
  congr 1
  refine List.map_congr_left fun m _ => ?_
  unfold Movement.stocked
  split <;> simp

/-- Rebuilding after a consumption, for the movement that records it. -/
structure Rebuilds (movements : List Movement) (m : Movement) (c : FifoConsumption) : Prop where
  remaining : buildFifoLayers (movements ++ [m]) = c.remaining
  cost : valueOf (takenBy (buildFifoLayers movements) m) = c.totalCost

theorem rebuilds {c : FifoConsumption} (htransfer : m.isTransfer = false)
    (h : computeFifoConsumption (buildFifoLayers movements) (-m.quantity) = .ok c) :
    Rebuilds movements m c := by
  obtain ⟨⟨hpos, -⟩, rfl⟩ := computeFifoConsumption_eq_ok.1 h
  have hout : m.quantity < 0 := by linarith
  refine ⟨?_, ?_⟩
  · rw [buildFifoLayers_concat, addToLayers_consumption htransfer hout.le]
  · rw [takenBy, if_pos ⟨by simp [htransfer], hout⟩]

/-- All that a history brings in is consumed or left in the layers, the layers hold what is on hand,
and no consumption of the history is refused. -/
structure Conserved (movements : List Movement) : Prop where
  cost : inboundCost movements = consumedCost [] movements + valueOf (buildFifoLayers movements)
  quantity : inTransit movements = 0 → quantityOf (buildFifoLayers movements) = onHand movements
  accepts : ∀ before m, before ++ [m] <+: movements → m.isTransfer = false → m.quantity < 0 →
    ∃ c, computeFifoConsumption (buildFifoLayers before) (-m.quantity) = .ok c

theorem conserved_of_multiples {unit : ℚ} (hunit : epsilon < unit)
    (hmultiples : ∀ m ∈ movements, IsMultiple unit m.quantity) (h : NeverOverships movements) :
    Conserved movements where
  cost := (exact_of_multiples hunit hmultiples h).cost
  quantity htransit := by
    rw [(exact_of_multiples hunit hmultiples h).quantity, onHand_eq, htransit, add_zero]
  accepts before m hpart htransfer hout := by
    have hbefore : NeverOverships before := fun b n hb =>
      h b n (hb.trans ((List.prefix_append before [m]).trans hpart))
    have hmult : ∀ n ∈ before, IsMultiple unit n.quantity := fun n hn =>
      hmultiples n (hpart.subset (List.mem_append_left _ hn))
    exact (exact_of_multiples hunit hmult hbefore).accepts (by linarith)
      (h before m hpart htransfer hout)

structure FifoAgrees (movements : List Movement) : Prop where
  rebuilt : ∀ m c, m.isTransfer = false →
    computeFifoConsumption (buildFifoLayers movements) (-m.quantity) = .ok c → Rebuilds movements m c
  accounted : NeverOverships movements → ∃ dropped, Accounted movements dropped
  conserved : ∀ unit, epsilon < unit → (∀ m ∈ movements, IsMultiple unit m.quantity) →
    NeverOverships movements → Conserved movements

/-- A consumption that is not refused leaves the layers that are rebuilt after it.  What a history that
never overships brings in is consumed, left in the layers or dropped within the tolerance; it is
conserved when all quantities are whole multiples of a unit above the tolerance. -/
theorem fifo_agrees (movements : List Movement) : FifoAgrees movements :=
  ⟨fun _ _ => rebuilds, exists_accounted, fun _ hunit => conserved_of_multiples hunit⟩

def moved (id : ℕ) (movementType : MovementType) (quantity : ℚ) (unitCost : Option ℚ) : Movement :=
  ⟨id, 1, 1, movementType, quantity, unitCost, "2026-01-01", none, none, none, none, none⟩

/-- One unit comes in at a cost of one hundred and goes out but for a tenth of the tolerance. -/
def almostShipped : List Movement :=
  [moved 1 .receive 1 (some 100), moved 2 .ship (-1 + epsilon / 10) none]

theorem neverOverships_almostShipped : NeverOverships almostShipped := by
  intro before m hpart _ hout
  match before, hpart with
  | [], hpart =>
    obtain ⟨rfl, -⟩ := List.cons_prefix_cons.1 hpart
    norm_num [moved] at hout
  | [a], hpart =>
    obtain ⟨rfl, hrest⟩ := List.cons_prefix_cons.1 hpart
    obtain ⟨rfl, -⟩ := List.cons_prefix_cons.1 hrest
    have hone : stock [moved 1 .receive 1 (some 100)] = 1 := by decide +kernel
    rw [hone]
    norm_num [moved, epsilon]
  | a :: b :: rest, hpart =>
    have := hpart.length_le
    simp [almostShipped] at this

/-- The cost of the remainder that is dropped is neither consumed nor left. -/
theorem fifo_loses_almostShipped :
    ¬∀ movements, NeverOverships movements →
      inboundCost movements = consumedCost [] movements + valueOf (buildFifoLayers movements) := by
  intro h
  have hcost := h almostShipped neverOverships_almostShipped
  exact absurd hcost (by decide +kernel)

end Inventory
