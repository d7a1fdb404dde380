import GnucashWeb.Valuation.Context

/-!
# An account's valuation and the other accounts

The context of some accounts values each of them as a context of that account alone does exactly when
every account whose commodity another one met first is valued by a rate like that one, or by its face
like that one, or the rate is one (`independent_iff`).  A fund held as an asset before it is held as a
fund gets the face value (`assetFirst_not_independent`).
-/

namespace Valuation

open Ledger

/-! ## Conditions -/

/-- Whether an account is valued by a rate; the others are valued at their face. -/
def Rated (account : AccountValuationInput) : Prop :=
  isInvestmentAccount account = true ∨ account.commodityNamespace = some CURRENCY

instance (account : AccountValuationInput) : Decidable (Rated account) :=
  inferInstanceAs (Decidable (_ ∨ _))

def firstWith (accounts : List AccountValuationInput) (commodityGuid : Guid) :
    Option AccountValuationInput :=
  accounts.find? fun a => a.commodityGuid = some commodityGuid

section

variable (prices : List PriceRow) (pivots : List Guid) (asOf : ℤ) (reportGuid : Guid)

def rateOf (commodityGuid : Guid) : Option DatedRate :=
  getConversionRate
    (loadLatestPricePairs prices (reportGuid :: commodityGuid :: pivots) asOf) commodityGuid
    reportGuid pivots

/-- An account is valued like the first one of its commodity, or it makes no difference. -/
def Alike (accounts : List AccountValuationInput) (account : AccountValuationInput) : Prop :=
  ∀ g ∈ account.commodityGuid, ∀ first ∈ firstWith accounts g,
    (Rated first ↔ Rated account) ∨
      (rateOf prices pivots asOf reportGuid g).map DatedRate.rate = some 1

end

def Independent (prices : List PriceRow) (pivots : List Guid) (asOf : ℤ)
    (reportCurrencyGuid : Option Guid) (accounts : List AccountValuationInput) : Prop :=
  ∀ account ∈ accounts,
    let ctx := buildAccountValuationContext prices pivots accounts asOf reportCurrencyGuid
    let alone := buildAccountValuationContext prices pivots [account] asOf reportCurrencyGuid
    ctx.getMultiplier account = alone.getMultiplier account ∧
      ctx.isConvertible account = alone.isConvertible account

theorem loadLatestPricePairs_congr {prices : List PriceRow} {guids guids' : List Guid} {asOf : ℤ}
    {a b : Guid} (ha : a ∈ guids) (hb : b ∈ guids) (ha' : a ∈ guids') (hb' : b ∈ guids') :
    loadLatestPricePairs prices guids asOf a b = loadLatestPricePairs prices guids' asOf a b := by
  simp only [loadLatestPricePairs]
  congr 2
  apply List.filter_congr
  intro p _
  rw [decide_eq_decide]
  constructor
  · rintro ⟨hdate, -, -, hnum, rfl, rfl⟩
    exact ⟨hdate, ha', hb', hnum, rfl, rfl⟩
  · rintro ⟨hdate, -, -, hnum, rfl, rfl⟩
    exact ⟨hdate, ha, hb, hnum, rfl, rfl⟩

section Rates

variable {pairs pairs' : PricePairs} {guids : List Guid}
  (h : ∀ a ∈ guids, ∀ b ∈ guids, pairs a b = pairs' a b)

include h

theorem getPairRate_congr {a b : Guid} (ha : a ∈ guids) (hb : b ∈ guids) :
    getPairRate pairs a b = getPairRate pairs' a b := by
  unfold getPairRate
  rw [h a ha b hb, h b hb a ha]

theorem getConversionRate_congr {a b : Guid} (ha : a ∈ guids) (hb : b ∈ guids)
    {pivotGuids : List Guid} (hpivots : ∀ p ∈ pivotGuids, p ∈ guids) :
    getConversionRate pairs a b pivotGuids = getConversionRate pairs' a b pivotGuids := by
  have hvia : ∀ p ∈ pivotGuids, viaPivot pairs a b p = viaPivot pairs' a b p := by
    intro p hp
    unfold viaPivot
    rw [getPairRate_congr h ha (hpivots p hp), getPairRate_congr h (hpivots p hp) hb]
  have hfind : pivotGuids.findSome? (viaPivot pairs a b) =
      pivotGuids.findSome? (viaPivot pairs' a b) := by
    clear hpivots
    induction pivotGuids with
    | nil => rfl
    | cons p rest ih =>
      rw [List.findSome?_cons, List.findSome?_cons, hvia p List.mem_cons_self,
        ih fun q hq => hvia q (List.mem_cons_of_mem _ hq)]
  unfold getConversionRate
  rw [getPairRate_congr h ha hb, hfind]

end Rates

/-! ## The loop -/

section Loop

variable (pairs : PricePairs) (reportCurrencyGuid : Option Guid) (pivotGuids : List Guid)

/-- The multiplier that is kept when a commodity is met in an account. -/
def multiplierOf (account : AccountValuationInput) (g : Guid) : ℚ :=
  match reportCurrencyGuid with
  | none => 1
  | some reportGuid =>
    if Rated account then
      (getConversionRate pairs g reportGuid pivotGuids).elim 0 DatedRate.rate
    else 1

/-- Whether a gap is kept when a commodity is met in an account. -/
def gapOf (account : AccountValuationInput) (g : Guid) : Bool :=
  match reportCurrencyGuid with
  | none => false
  | some reportGuid =>
    Rated account && (getConversionRate pairs g reportGuid pivotGuids).isNone

variable {pairs reportCurrencyGuid pivotGuids} {c : Caches} {account : AccountValuationInput}
  {g : Guid}

theorem gapReasons_rated (rate : Option DatedRate) (reason : ValuationGapReason)
    (hnone : c.gapReasons g = none) :
    ((c.rated g rate reason).gapReasons g).isSome = rate.isNone := by
  unfold Caches.rated
  cases rate <;> simp [hnone]

theorem addAccount_of_known (h : account.commodityGuid = some g → (c.multiplierCache g).isSome) :
    (addAccount pairs reportCurrencyGuid pivotGuids c account).multiplierCache g =
        c.multiplierCache g ∧
      (addAccount pairs reportCurrencyGuid pivotGuids c account).gapReasons g = c.gapReasons g := by
  unfold addAccount
  split
  · exact ⟨rfl, rfl⟩
  · next g' hg' =>
      split
      · exact ⟨rfl, rfl⟩
      · next hunknown =>
          have hne : g ≠ g' := by
            rintro rfl
            exact hunknown (h hg')
          have hrated (rate : Option DatedRate) (reason : ValuationGapReason) :
              (c.rated g' rate reason).multiplierCache g = c.multiplierCache g ∧
                (c.rated g' rate reason).gapReasons g = c.gapReasons g := by
            unfold Caches.rated
            cases rate <;> simp [Function.update_of_ne hne]
          have hface : (c.atFace g').multiplierCache g = c.multiplierCache g :=
            Function.update_of_ne hne ..
          split
          · exact ⟨hface, rfl⟩
          · simp only
            split
            · exact hrated ..
            · split
              · exact hrated ..
              · exact ⟨hface, rfl⟩

theorem addAccount_of_new (h : account.commodityGuid = some g) (hnew : c.multiplierCache g = none)
    (hgap : c.gapReasons g = none) :
    (addAccount pairs reportCurrencyGuid pivotGuids c account).multiplierCache g =
        some (multiplierOf pairs reportCurrencyGuid pivotGuids account g) ∧
      ((addAccount pairs reportCurrencyGuid pivotGuids c account).gapReasons g).isSome =
        gapOf pairs reportCurrencyGuid pivotGuids account g := by
  have hrated (rate : Option DatedRate) (reason : ValuationGapReason) :
      (c.rated g rate reason).multiplierCache g = some (rate.elim 0 DatedRate.rate) :=
    Function.update_self ..
  have hface : (c.atFace g).multiplierCache g = some 1 := Function.update_self ..
  have hfaceGap : ((c.atFace g).gapReasons g).isSome = false := by simp [Caches.atFace, hgap]
  simp only [addAccount, h, hnew, Option.isSome_none, Bool.false_eq_true, if_false]
  cases reportCurrencyGuid with
  | none => exact ⟨hface, hfaceGap⟩
  | some reportGuid =>
    simp only [multiplierOf, gapOf, Rated]
    by_cases hinvestment : isInvestmentAccount account = true
    · simp [hinvestment, hrated, gapReasons_rated _ _ hgap]
    · by_cases hcurrency : account.commodityNamespace = some CURRENCY
      · simp [hinvestment, hcurrency, hrated, gapReasons_rated _ _ hgap]
      · simp [hinvestment, hcurrency, hface, hfaceGap]

def Caches.Sound (c : Caches) : Prop := ∀ g, c.multiplierCache g = none → c.gapReasons g = none

theorem addAccount_sound (hc : c.Sound) :
    (addAccount pairs reportCurrencyGuid pivotGuids c account).Sound := by
  intro g hg
  by_cases hknown : account.commodityGuid = some g → (c.multiplierCache g).isSome
  · obtain ⟨hmultiplier, hgap⟩ :=
      @addAccount_of_known pairs reportCurrencyGuid pivotGuids c account g hknown
    rw [hgap]
    exact hc g (hmultiplier.symm.trans hg)
  · rw [Classical.not_imp, Option.not_isSome_iff_eq_none] at hknown
    have hnew := (@addAccount_of_new pairs reportCurrencyGuid pivotGuids c account g hknown.1
      hknown.2 (hc g hknown.2)).1
    rw [hg] at hnew
    cases hnew

theorem foldl_addAccount_of_known (accounts : List AccountValuationInput)
    (h : (c.multiplierCache g).isSome) :
    (accounts.foldl (addAccount pairs reportCurrencyGuid pivotGuids) c).multiplierCache g =
        c.multiplierCache g ∧
      (accounts.foldl (addAccount pairs reportCurrencyGuid pivotGuids) c).gapReasons g =
        c.gapReasons g := by
  induction accounts generalizing c with
  | nil => exact ⟨rfl, rfl⟩
  | cons account rest ih =>
    obtain ⟨hmultiplier, hgap⟩ :=
      @addAccount_of_known pairs reportCurrencyGuid pivotGuids c account g fun _ => h
    have hrest := ih (hmultiplier ▸ h)
    exact ⟨hrest.1.trans hmultiplier, hrest.2.trans hgap⟩

theorem foldl_addAccount (accounts : List AccountValuationInput) (hc : c.Sound)
    (hnew : c.multiplierCache g = none) :
    (accounts.foldl (addAccount pairs reportCurrencyGuid pivotGuids) c).multiplierCache g =
        (firstWith accounts g).map (multiplierOf pairs reportCurrencyGuid pivotGuids · g) ∧
      ((accounts.foldl (addAccount pairs reportCurrencyGuid pivotGuids) c).gapReasons g).isSome =
        (firstWith accounts g).any (gapOf pairs reportCurrencyGuid pivotGuids · g) := by
  induction accounts generalizing c with
  | nil => exact ⟨hnew, by simp [firstWith, hc g hnew]⟩
  | cons account rest ih =>
    rw [List.foldl_cons]
    by_cases hg : account.commodityGuid = some g
    · have hfirst : firstWith (account :: rest) g = some account := by simp [firstWith, hg]
      obtain ⟨hmultiplier, hgap⟩ :=
        @addAccount_of_new pairs reportCurrencyGuid pivotGuids c account g hg hnew (hc g hnew)
      have hrest := @foldl_addAccount_of_known pairs reportCurrencyGuid pivotGuids
        (addAccount pairs reportCurrencyGuid pivotGuids c account) g rest
        (by rw [hmultiplier]; rfl)
      rw [hfirst, hrest.1, hrest.2]
      exact ⟨hmultiplier, hgap⟩
    · have hfirst : firstWith (account :: rest) g = firstWith rest g := by simp [firstWith, hg]
      obtain ⟨hmultiplier, -⟩ :=
        @addAccount_of_known pairs reportCurrencyGuid pivotGuids c account g fun h => absurd h hg
      rw [hfirst]
      exact ih (addAccount_sound hc) (hmultiplier.trans hnew)

end Loop

/-! ## One account and all of them -/

section Contexts

variable {prices : List PriceRow} {pivots : List Guid} {asOf : ℤ} {reportGuid g : Guid}
  {accounts : List AccountValuationInput} {account : AccountValuationInput}

theorem conversionRate_eq (hg : g ∈ commodityGuids accounts (some reportGuid) pivots) :
    getConversionRate
        (loadLatestPricePairs prices (commodityGuids accounts (some reportGuid) pivots) asOf) g
        reportGuid pivots =
      rateOf prices pivots asOf reportGuid g := by
  have hsub : ∀ a ∈ reportGuid :: g :: pivots,
      a ∈ commodityGuids accounts (some reportGuid) pivots := by
    intro a ha
    simp only [List.mem_cons] at ha
    rcases ha with rfl | rfl | ha
    · simp [commodityGuids]
    · exact hg
    · simp [commodityGuids, ha]
  apply @getConversionRate_congr _ _ (reportGuid :: g :: pivots)
  · exact fun a ha b hb => loadLatestPricePairs_congr (hsub a ha) (hsub b hb) ha hb
  · simp
  · simp
  · exact fun p hp => by simp [hp]

theorem context_eq (haccount : account ∈ accounts) (hg : account.commodityGuid = some g) :
    ∃ first, firstWith accounts g = some first ∧
      (buildAccountValuationContext prices pivots accounts asOf (some reportGuid)).getMultiplier
          account =
        (if Rated first then (rateOf prices pivots asOf reportGuid g).elim 0 DatedRate.rate
          else 1) ∧
      (buildAccountValuationContext prices pivots accounts asOf (some reportGuid)).isConvertible
          account =
        !(Rated first && (rateOf prices pivots asOf reportGuid g).isNone) := by
  have hsome : (firstWith accounts g).isSome := by
    rw [firstWith, List.find?_isSome]
    exact ⟨account, haccount, by simpa using hg⟩
  obtain ⟨first, hfirst⟩ := Option.isSome_iff_exists.1 hsome
  have hmem : g ∈ commodityGuids accounts (some reportGuid) pivots := by
    have : g ∈ accounts.filterMap AccountValuationInput.commodityGuid :=
      List.mem_filterMap.2 ⟨account, haccount, hg⟩
    simp [commodityGuids, this]
  obtain ⟨hmultiplier, hgap⟩ := @foldl_addAccount
    (loadLatestPricePairs prices (commodityGuids accounts (some reportGuid) pivots) asOf)
    (some reportGuid) pivots .empty g accounts (fun _ _ => rfl) rfl
  rw [hfirst] at hmultiplier hgap
  have hconv : ∀ o : Option ValuationGapReason, o.isNone = !o.isSome := by
    intro o
    cases o <;> rfl
  refine ⟨first, hfirst, ?_, ?_⟩
  · simp only [AccountValuationContext.getMultiplier, hg, buildAccountValuationContext,
      Option.isSome_some, if_true, hmultiplier, Option.map_some, Option.getD_some, multiplierOf,
      conversionRate_eq hmem]
  · simp only [AccountValuationContext.isConvertible, hg, buildAccountValuationContext,
      Option.isSome_some, if_true, hconv, hgap, Option.any_some, gapOf, conversionRate_eq hmem]

theorem faceOnly (accounts : List AccountValuationInput) (account : AccountValuationInput) :
    (buildAccountValuationContext prices pivots accounts asOf none).getMultiplier account = 1 ∧
      (buildAccountValuationContext prices pivots accounts asOf none).isConvertible account := by
  cases hg : account.commodityGuid with
  | none => simp [AccountValuationContext.getMultiplier, AccountValuationContext.isConvertible, hg]
  | some g =>
    obtain ⟨hmultiplier, hgap⟩ := @foldl_addAccount
      (loadLatestPricePairs prices (commodityGuids accounts none []) asOf) none [] .empty g
      accounts (fun _ _ => rfl) rfl
    constructor
    · simp only [AccountValuationContext.getMultiplier, hg, buildAccountValuationContext,
        Option.isSome_none, Bool.false_eq_true, if_false, hmultiplier]
      cases firstWith accounts g <;> rfl
    · simp only [AccountValuationContext.isConvertible, hg, buildAccountValuationContext,
        Option.isSome_none, Bool.false_eq_true, if_false]
      cases hfirst : firstWith accounts g <;> simp_all [gapOf]

theorem values_eq_iff (p q : Prop) [Decidable p] [Decidable q] (rate : Option DatedRate) :
    ((if p then rate.elim 0 DatedRate.rate else 1) =
          (if q then rate.elim 0 DatedRate.rate else 1) ∧
        (!(decide p && rate.isNone)) = !(decide q && rate.isNone)) ↔
      ((p ↔ q) ∨ rate.map DatedRate.rate = some 1) := by
  cases rate with
  | none => by_cases hp : p <;> by_cases hq : q <;> simp [hp, hq]
  | some rate => by_cases hp : p <;> by_cases hq : q <;> simp [hp, hq, eq_comm]

end Contexts

/-- The other accounts make no difference exactly when those of one commodity are valued alike. -/
theorem independent_iff (prices : List PriceRow) (pivots : List Guid) (asOf : ℤ)
    (reportCurrencyGuid : Option Guid) (accounts : List AccountValuationInput) :
    Independent prices pivots asOf reportCurrencyGuid accounts ↔
      ∀ reportGuid ∈ reportCurrencyGuid, ∀ account ∈ accounts,
        Alike prices pivots asOf reportGuid accounts account := by
  cases reportCurrencyGuid with
  | none =>
    refine iff_of_true (fun account _ => ?_) (fun _ h => by cases h)
    obtain ⟨hmultiplier, hconvertible⟩ := @faceOnly prices pivots asOf accounts account
    obtain ⟨hmultiplier', hconvertible'⟩ := @faceOnly prices pivots asOf [account] account
    exact ⟨hmultiplier.trans hmultiplier'.symm, hconvertible.trans hconvertible'.symm⟩
  | some reportGuid =>
    simp only [Option.mem_some_iff, forall_eq']
    refine forall₂_congr fun account haccount => ?_
    unfold Alike
    cases hg : account.commodityGuid with
    | none =>
      simp [AccountValuationContext.getMultiplier, AccountValuationContext.isConvertible, hg]
    | some g =>
      obtain ⟨first, hfirst, hmultiplier, hconvertible⟩ :=
        @context_eq prices pivots asOf reportGuid g accounts account haccount hg
      obtain ⟨only, honly, hmultiplier', hconvertible'⟩ :=
        @context_eq prices pivots asOf reportGuid g [account] account List.mem_cons_self hg
      have hsame : only = account := by
        rw [firstWith, List.find?_singleton, if_pos (by simpa using hg)] at honly
        exact (Option.some.inj honly).symm
      subst hsame
      simp only [Option.mem_some_iff, forall_eq', hfirst]
      rw [hmultiplier, hconvertible, hmultiplier', hconvertible']
      exact values_eq_iff (Rated first) (Rated only) _

def assetFirst : List AccountValuationInput :=
  [⟨.asset, some 5, some "FUND".toList⟩, ⟨.mutual, some 5, some "FUND".toList⟩]

theorem assetFirst_not_independent :
    ¬ ∀ (prices : List PriceRow) (pivots : List Guid) (asOf : ℤ) (reportCurrencyGuid : Option Guid)
      (accounts : List AccountValuationInput),
      Independent prices pivots asOf reportCurrencyGuid accounts := by
  intro h
  have hmultipliers :
      (buildAccountValuationContext [⟨5, 0, 0, ⟨150, 1⟩⟩] [] assetFirst 0 (some 0)).getMultiplier
          ⟨.mutual, some 5, some "FUND".toList⟩ = 1 ∧
        (buildAccountValuationContext [⟨5, 0, 0, ⟨150, 1⟩⟩] []
          [⟨.mutual, some 5, some "FUND".toList⟩] 0 (some 0)).getMultiplier
          ⟨.mutual, some 5, some "FUND".toList⟩ = 150 := by
    decide +kernel
  have hsame := (h [⟨5, 0, 0, ⟨150, 1⟩⟩] [] 0 (some 0) assetFirst
    ⟨.mutual, some 5, some "FUND".toList⟩ (by simp [assetFirst])).1
  rw [hmultipliers.1, hmultipliers.2] at hsame
  exact absurd hsame (by norm_num)

end Valuation
