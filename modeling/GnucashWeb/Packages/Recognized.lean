import GnucashWeb.Lib.Alone
import GnucashWeb.Packages.Within

/-!
# What the redemptions of a package recognize

Each redemption recognizes the rounded share of its sessions, and the one that exhausts the package
what is left, whatever was redeemed before and is deleted later.  `recognized_of_apportioned`: the
amounts stay within the price where the shares of up to all but two sessions are multiples of the
share of one.
-/

namespace Packages

open Ledger (Amount Split Account fromDecimal mathRound mathRound_intCast)
open Rows Statements

/-! ## Shares in the smallest unit -/

/-- The share of some of `n` sessions in `k` units, halves rounded up. -/
def share (k n v : ℤ) : ℤ := (2 * k * v + n) / (2 * n)

/-- What `n` shares of one session leave of the price. -/
def residue (k n : ℤ) : ℤ := k - n * share k n 1

/-- The prices in units and the numbers of sessions whose shares do not drift. -/
def Apportioned (k n : ℤ) : Prop := n ≤ 3 ∨ n ∣ k ∨ n = 4 ∧ k % 4 = 3

instance (k n : ℤ) : Decidable (Apportioned k n) := inferInstanceAs (Decidable (_ ∨ _))

section Shares

variable {k n v : ℤ}

theorem share_of_dvd (hn : 0 < n) (m : ℤ) : share (n * m) n v = v * m := by
  have hhalf : n / (2 * n) = 0 := Int.ediv_eq_zero_of_lt hn.le (by omega)
  rw [share, show 2 * (n * m) * v + n = n + v * m * (2 * n) by ring,
    Int.add_mul_ediv_right _ _ (by omega), hhalf, zero_add]

/-- Up to all but two sessions have as many shares of one; all but one have, or leave nothing. -/
theorem share_eq (h : Apportioned k n) (hv : 1 ≤ v) (hlt : v < n) :
    share k n v = v * share k n 1 ∨
      v = n - 1 ∧ share k n v = v * share k n 1 + residue k n := by
  have hsmall (hn : n ≤ 3 ∨ n = 4 ∧ k % 4 = 3) : share k n v = v * share k n 1 ∨
      v = n - 1 ∧ share k n v = v * share k n 1 + residue k n := by
    obtain ⟨rfl, rfl⟩ | ⟨rfl, rfl⟩ | ⟨rfl, rfl⟩ | ⟨rfl, rfl⟩ | ⟨rfl, rfl⟩ | ⟨rfl, rfl⟩ :
        n = 2 ∧ v = 1 ∨ n = 3 ∧ v = 1 ∨ n = 3 ∧ v = 2 ∨ n = 4 ∧ v = 1 ∨ n = 4 ∧ v = 2 ∨
          n = 4 ∧ v = 3 := by
      omega
    all_goals
      unfold residue share
      omega
  rcases h with h | ⟨m, rfl⟩ | h
  · exact hsmall (.inl h)
  · left
    rw [share_of_dvd (by omega), share_of_dvd (by omega), one_mul]
  · exact hsmall (.inr h)

theorem neg_residue_le (h : Apportioned k n) (hk : 0 ≤ k) (hn : 1 ≤ n) :
    0 ≤ share k n 1 ∧ -residue k n ≤ share k n 1 := by
  have hsmall (hn' : n ≤ 3 ∨ n = 4 ∧ k % 4 = 3) :
      0 ≤ share k n 1 ∧ -residue k n ≤ share k n 1 := by
    obtain rfl | rfl | rfl | rfl : n = 1 ∨ n = 2 ∨ n = 3 ∨ n = 4 := by omega
    all_goals
      unfold residue share
      omega
  rcases h with h | ⟨m, rfl⟩ | h
  · exact hsmall (.inl h)
  · have hm : 0 ≤ m := nonneg_of_mul_nonneg_right hk (by omega)
    rw [residue, share_of_dvd (by omega), one_mul]
    omega
  · exact hsmall (.inr h)

end Shares

/-! ## The redemptions of a package -/

/-- A redemption: its sessions, and what it recognizes in units. -/
structure Item where
  sessions : ℤ
  units : ℤ
deriving DecidableEq, Repr

namespace Item

variable (k n : ℤ)

/-- What a redemption recognizes over the shares of its sessions. -/
def excess (i : Item) : ℤ := i.units - i.sessions * share k n 1

end Item

/-- The sessions are within the package, and at most one redemption recognizes the residue over its
shares; when all sessions are redeemed, one does. -/
structure Even (k n : ℤ) (items : List Item) : Prop where
  sessions : ∀ i ∈ items, 1 ≤ i.sessions
  within : (items.map Item.sessions).sum ≤ n
  excess : ∀ i ∈ items, i.excess k n = 0 ∨ i.excess k n = residue k n
  once : items.Pairwise fun i j => i.excess k n = 0 ∨ j.excess k n = 0
  exhausted : (items.map Item.sessions).sum = n → (items.map Item.units).sum = k

section Items

variable {k n : ℤ} {items : List Item}

theorem sum_units (items : List Item) :
    (items.map Item.units).sum =
      (items.map Item.sessions).sum * share k n 1 + (items.map (Item.excess k n)).sum := by
  induction items with
  | nil => simp
  | cons i items ih =>
    simp only [List.map_cons, List.sum_cons, ih, Item.excess]
    ring

theorem Even.sum_excess (h : Even k n items) :
    (∀ i ∈ items, i.excess k n = 0) ∧ (items.map (Item.excess k n)).sum = 0 ∨
      (items.map (Item.excess k n)).sum = residue k n := by
  obtain ⟨-, -, hexcess, honce, -⟩ := h
  induction items with
  | nil => simp
  | cons i items ih =>
    rw [List.forall_mem_cons] at hexcess
    rw [List.pairwise_cons] at honce
    rw [List.map_cons, List.sum_cons]
    rcases ih hexcess.2 honce.2 with ⟨hzero, hsum⟩ | hsum
    · rw [hsum, add_zero, List.forall_mem_cons]
      rcases hexcess.1 with hi | hi
      · exact .inl ⟨⟨hi, hzero⟩, hi⟩
      · exact .inr hi
    · by_cases hi : i.excess k n = 0
      · exact .inr (by rw [hi, hsum, zero_add])
      · have hzero : ∀ j ∈ items, j.excess k n = 0 :=
          fun j hj => (honce.1 j hj).resolve_left hi
        have hnil : (items.map (Item.excess k n)).sum = 0 :=
          List.sum_eq_zero fun e he => by
            obtain ⟨j, hj, rfl⟩ := List.mem_map.1 he
            exact hzero j hj
        rw [hnil, add_zero]
        exact .inr (hexcess.1.resolve_left hi)

theorem even_nil (hn : 1 ≤ n) : Even k n [] where
  sessions := by simp
  within := by simpa using hn.trans' (by decide)
  excess := by simp
  once := .nil
  exhausted h := by simp at h; omega

theorem Even.units_le (h : Even k n items) (happ : Apportioned k n) (hk : 0 ≤ k) (hn : 1 ≤ n) :
    (∀ i ∈ items, 0 ≤ i.units) ∧ (items.map Item.units).sum ≤ k := by
  obtain ⟨hshare, hres⟩ := neg_residue_le happ hk hn
  constructor
  · intro i hi
    have hone := h.sessions i hi
    have hle : share k n 1 ≤ i.sessions * share k n 1 := le_mul_of_one_le_left hshare hone
    rcases h.excess i hi with he | he <;> unfold Item.excess at he <;> omega
  · rcases h.within.lt_or_eq with hlt | heq
    · have hle : (items.map Item.sessions).sum * share k n 1 ≤ (n - 1) * share k n 1 :=
        mul_le_mul_of_nonneg_right (by omega) hshare
      have hsplit : (n - 1) * share k n 1 = n * share k n 1 - share k n 1 := by ring
      have hresidue : residue k n = k - n * share k n 1 := rfl
      rw [@sum_units k n]
      rcases h.sum_excess with ⟨-, he⟩ | he <;> omega
    · exact (h.exhausted heq).le

theorem sum_sessions_lt {items' : List Item} (hone : ∀ i ∈ items, 1 ≤ i.sessions)
    (hsub : items'.Sublist items) :
    items' = items ∨ (items'.map Item.sessions).sum < (items.map Item.sessions).sum := by
  induction hsub with
  | slnil => exact .inl rfl
  | cons i hsub ih =>
    rw [List.forall_mem_cons] at hone
    right
    rw [List.map_cons, List.sum_cons]
    rcases ih hone.2 with rfl | hlt <;> omega
  | cons_cons i hsub ih =>
    rw [List.forall_mem_cons] at hone
    rcases ih hone.2 with rfl | hlt
    · exact .inl rfl
    · exact .inr (by simpa using hlt)

theorem Even.sublist {items' : List Item} (h : Even k n items) (hsub : items'.Sublist items) :
    Even k n items' := by
  rcases sum_sessions_lt h.sessions hsub with rfl | hlt
  · exact h
  · exact ⟨fun i hi => h.sessions i (hsub.subset hi), hlt.le.trans h.within,
      fun i hi => h.excess i (hsub.subset hi), h.once.sublist hsub,
      fun heq => absurd (heq ▸ hlt) h.within.not_gt⟩

theorem Even.redeem {v : ℤ} (h : Even k n items) (happ : Apportioned k n) (hv : 1 ≤ v)
    (hlt : (items.map Item.sessions).sum + v < n) : Even k n (items ++ [⟨v, share k n v⟩]) := by
  have hnonneg : 0 ≤ (items.map Item.sessions).sum := List.sum_nonneg fun w hw => by
    obtain ⟨i, hi, rfl⟩ := List.mem_map.1 hw
    exact (h.sessions i hi).trans' (by decide)
  have hsum : ((items ++ [(⟨v, share k n v⟩ : Item)]).map Item.sessions).sum =
      (items.map Item.sessions).sum + v := by simp
  refine ⟨List.forall_mem_append.2 ⟨h.sessions, List.forall_mem_singleton.2 hv⟩,
    hsum.trans_le hlt.le, List.forall_mem_append.2 ⟨h.excess, List.forall_mem_singleton.2 ?_⟩, ?_,
    fun heq => absurd (hsum.symm.trans heq) hlt.ne⟩
  · rcases share_eq happ hv (by omega) with heq | ⟨-, heq⟩
    · exact .inl (by simp [Item.excess, heq])
    · exact .inr (by simp [Item.excess, heq])
  · refine List.pairwise_append.2 ⟨h.once, List.pairwise_singleton .., fun i hi j hj => ?_⟩
    obtain rfl := List.mem_singleton.1 hj
    rcases share_eq happ hv (by omega) with heq | ⟨hlast, -⟩
    · exact .inr (by simp [Item.excess, heq])
    · -- All but one session: nothing else is redeemed.
      have hle : i.sessions ≤ (items.map Item.sessions).sum :=
        List.single_le_sum (fun w hw => by
          obtain ⟨j, hj, rfl⟩ := List.mem_map.1 hw
          exact (h.sessions j hj).trans' (by decide)) _ (List.mem_map_of_mem hi)
      have hone := h.sessions i hi
      omega

theorem Even.redeemLast {v : ℤ} (h : Even k n items) (hv : 1 ≤ v)
    (heq : (items.map Item.sessions).sum + v = n) :
    Even k n (items ++ [⟨v, k - (items.map Item.units).sum⟩]) := by
  have hsum : ((items ++ [(⟨v, k - (items.map Item.units).sum⟩ : Item)]).map Item.sessions).sum =
      (items.map Item.sessions).sum + v := by simp
  have hexcess : Item.excess k n ⟨v, k - (items.map Item.units).sum⟩ =
      residue k n - (items.map (Item.excess k n)).sum := by
    have hunits := @sum_units k n items
    have hn : n * share k n 1 =
        (items.map Item.sessions).sum * share k n 1 + v * share k n 1 := by
      rw [← heq, add_mul]
    change k - (items.map Item.units).sum - v * share k n 1 =
      k - n * share k n 1 - (items.map (Item.excess k n)).sum
    omega
  refine ⟨List.forall_mem_append.2 ⟨h.sessions, List.forall_mem_singleton.2 hv⟩,
    (hsum.trans heq).le, List.forall_mem_append.2 ⟨h.excess, List.forall_mem_singleton.2 ?_⟩, ?_,
    fun _ => by simp⟩
  · rcases h.sum_excess with ⟨-, he⟩ | he
    · exact .inr (by rw [hexcess, he, sub_zero])
    · exact .inl (by rw [hexcess, he, sub_self])
  · refine List.pairwise_append.2 ⟨h.once, List.pairwise_singleton .., fun i hi j hj => ?_⟩
    obtain rfl := List.mem_singleton.1 hj
    rcases h.sum_excess with ⟨hzero, -⟩ | he
    · exact .inl (hzero i hi)
    · exact .inr (by rw [hexcess, he, sub_self])

end Items

section Amounts

variable {k n f : ℤ}

theorem roundToFraction_div (hf : 0 < f) (z : ℤ) : roundToFraction (z / f) f = z / f := by
  have hf' : (0 : ℚ) < f := Int.cast_pos.2 hf
  have habs : |(z / f : ℚ)| * f = (|z| : ℤ) := by
    rw [abs_div, abs_of_pos hf', div_mul_cancel₀ _ hf'.ne', Int.cast_abs]
  unfold roundToFraction
  rw [habs, mathRound_intCast]
  congr 1
  split_ifs with hneg
  · have hz : (z : ℚ) < 0 := by simpa [div_neg_iff, hf', hf'.not_gt] using hneg
    rw [Int.cast_abs, abs_of_neg hz]
    ring
  · have hz : 0 ≤ (z : ℚ) := by
      by_contra h
      exact hneg (div_neg_of_neg_of_pos (not_le.1 h) hf')
    rw [Int.cast_abs, abs_of_nonneg hz, one_mul]

theorem mathRound_div {a b : ℤ} (hb : 0 < b) :
    mathRound ((a : ℚ) / b) = (2 * a + b) / (2 * b) := by
  have hb' : (b : ℚ) ≠ 0 := (Int.cast_pos.2 hb).ne'
  have hhalf : (a / b + 1 / 2 : ℚ) = ((2 * a + b : ℤ) : ℚ) / ((2 * b : ℤ) : ℚ) := by
    push_cast
    field_simp
  rw [mathRound, hhalf, Int.floor_div_cast_of_nonneg (by omega), Int.floor_intCast]

theorem roundToFraction_share {v : ℤ} (hf : 0 < f) (hk : 0 ≤ k) (hn : 0 < n) (hv : 0 ≤ v) :
    roundToFraction ((k / f : ℚ) / n * v) f = (share k n v : ℚ) / f := by
  have hf' : (0 : ℚ) < f := Int.cast_pos.2 hf
  have hn' : (0 : ℚ) < n := Int.cast_pos.2 hn
  have hk' : (0 : ℚ) ≤ k := Int.cast_nonneg hk
  have hv' : (0 : ℚ) ≤ v := Int.cast_nonneg hv
  have hvalue : (0 : ℚ) ≤ (k / f : ℚ) / n * v := by positivity
  have hunits : (k / f : ℚ) / n * v * f = ((k * v : ℤ) : ℚ) / n := by
    push_cast
    field_simp
  unfold roundToFraction share
  rw [if_neg hvalue.not_gt, one_mul, abs_of_nonneg hvalue, hunits, mathRound_div hn, mul_assoc]

end Amounts

/-! ## The accounts of a redemption -/

structure Grown (db db' : Db) : Prop where
  frame : Frame db db'
  packages : db'.packages = db.packages
  commodities : db'.commodities = db.commodities
  accounts : ∃ created, db'.accounts = db.accounts ++ created ∧
    ∀ a ∈ created, db.account? a.guid = none

variable {guid : String} {packageId : ℕ} {date sessions : ℤ} {notes : Option String}
  {receipt : Receipt}

section Accounts

variable {db db' db'' : Db} {env : Env} {present : Key → Bool}

theorem Grown.refl : Grown db db := ⟨.refl, rfl, rfl, [], by simp, by simp⟩

theorem account?_append {created : List Account}
    (haccounts : db'.accounts = db.accounts ++ created) :
    db'.account? guid = (db.account? guid).or (created.find? fun a => a.guid = guid) := by
  unfold Edits.Db.account?
  rw [haccounts, List.find?_append]

theorem Grown.trans (h : Grown db db') (h' : Grown db' db'') : Grown db db'' := by
  obtain ⟨created, haccounts, hnew⟩ := h.accounts
  obtain ⟨created', haccounts', hnew'⟩ := h'.accounts
  refine ⟨h.frame.trans h'.frame, h'.packages.trans h.packages,
    h'.commodities.trans h.commodities, created ++ created',
    by rw [haccounts', haccounts, List.append_assoc],
    List.forall_mem_append.2 ⟨hnew, fun a ha => ?_⟩⟩
  have hnone := hnew' a ha
  rw [account?_append haccounts, Option.or_eq_none_iff] at hnone
  exact hnone.1

theorem Grown.account? (h : Grown db db') {a : Account}
    (ha : db.account? guid = some a) : db'.account? guid = some a := by
  obtain ⟨created, haccounts, -⟩ := h.accounts
  rw [account?_append haccounts, ha, Option.some_or]

theorem Grown.mem_accounts (h : Grown db db') {a b : Account}
    (ha : (db.account? b.guid) = some a) (hb : b ∈ db'.accounts) : b ∈ db.accounts := by
  obtain ⟨created, haccounts, hnew⟩ := h.accounts
  rw [haccounts, List.mem_append] at hb
  exact hb.resolve_right fun hmem => by simp [hnew b hmem] at ha

theorem grown_insertAccount {a : Account} (h : insertAccount a db = some db') : Grown db db' := by
  have hframe := framing_insertAccount a db db' h
  unfold insertAccount at h
  split_ifs at h with hnone
  cases h
  refine ⟨hframe, rfl, rfl, [a], rfl, fun b hb => ?_⟩
  rw [List.mem_singleton.1 hb]
  exact Option.isNone_iff_eq_none.1 hnone

theorem mem_of_insertAccount {a : Account} (h : insertAccount a db = some db') :
    a ∈ db'.accounts := by
  unfold insertAccount at h
  split_ifs at h
  cases h
  simp

theorem child?_eq_some {parentGuid name : String} {a : Account}
    (h : db.child? parentGuid name = some a) : a ∈ db.accounts ∧ a.name = name := by
  refine ⟨List.mem_of_find?_eq_some h, ?_⟩
  have hname := List.find?_some h
  simp only [decide_eq_true_eq] at hname
  exact hname.1

theorem alone_ensureFrom {currencyGuid : String} {accountType : Ledger.AccountType} {i : ℕ}
    {path : List String} {parentGuid : String}
    (h : (ensureFrom env currencyGuid accountType i path parentGuid).alone present db =
      some (.ok (guid, db'))) :
    Grown db db' ∧ ∀ name ∈ path.getLast?, ∃ a ∈ db'.accounts, a.guid = guid ∧ a.name = name := by
  induction path generalizing i parentGuid db with
  | nil =>
    cases h
    exact ⟨.refl, by simp⟩
  | cons segment rest ih =>
    unfold ensureFrom at h
    simp only [alone_bind_eq_ok, alone_select, Option.some.injEq, Except.ok.injEq,
      Prod.mk.injEq] at h
    obtain ⟨_, _, ⟨rfl, rfl⟩, _, db₁, hlock, existing, _, ⟨hexisting, rfl⟩, _, db₂, hcreate,
      hrest⟩ := h
    have hsame : db₁ = db := by
      rw [alone_onlyIf] at hlock
      split_ifs at hlock <;> simp_all [alone_bind]
    subst hsame
    have hchild : existing = db₁.child? parentGuid segment := by
      rw [← hexisting, ite_self]
    -- The account of the segment, found or created.
    have hsegment : Grown db₁ db₂ ∧ ∃ a ∈ db₂.accounts,
        a.guid = (existing.map Account.guid).getD (env.generateGuid i) ∧ a.name = segment := by
      rw [alone_onlyIf] at hcreate
      cases existing with
      | none =>
        rw [if_pos rfl, alone_tryWrite, Option.map_eq_some_iff] at hcreate
        obtain ⟨db₃, hinsert, heq⟩ := hcreate
        cases heq
        exact ⟨grown_insertAccount hinsert, _, mem_of_insertAccount hinsert, rfl, rfl⟩
      | some a =>
        rw [if_neg (by simp)] at hcreate
        cases hcreate
        obtain ⟨ha, hname⟩ := child?_eq_some hchild.symm
        exact ⟨.refl, a, ha, rfl, hname⟩
    obtain ⟨hgrown, a, ha, hguid, hname⟩ := hsegment
    cases rest with
    | nil =>
      cases hrest
      refine ⟨hgrown, fun name hlast => ⟨a, ha, hguid, ?_⟩⟩
      rw [hname]
      exact Option.some.inj hlast
    | cons next rest =>
      obtain ⟨hgrown', hlast⟩ := ih hrest
      exact ⟨hgrown.trans hgrown', hlast⟩

/-- The income account of a package is the one it names, else one called Package Revenue. -/
theorem alone_incomeAccount {pkg : PackageRow} {liabilityGuid : String}
    (h : (incomeAccount env pkg liabilityGuid).alone present db = some (.ok (guid, db'))) :
    ∃ db₁, Grown db db₁ ∧
      (pkg.incomeAccountGuid = some guid ∧ db' = db₁ ∨
        pkg.incomeAccountGuid = none ∧ db' = setIncomeAccount pkg.id guid db₁ ∧
          ∃ a ∈ db₁.accounts, a.guid = guid ∧ a.name = "Package Revenue") := by
  unfold incomeAccount at h
  split at h
  · rename_i named hnamed
    cases h
    exact ⟨db, .refl, .inl ⟨hnamed, rfl⟩⟩
  · rename_i hnone
    simp only [alone_bind_eq_ok, alone_select, alone_expect_eq_ok, alone_write, alone_pure,
      Option.some.injEq, Except.ok.injEq, Prod.mk.injEq] at h
    obtain ⟨_, _, ⟨rfl, rfl⟩, book, _, ⟨-, rfl⟩, _, _, ⟨rfl, rfl⟩, _, db₁, hensure, _, _,
      ⟨-, rfl⟩, rfl, rfl⟩ := h
    obtain ⟨hgrown, hlast⟩ := alone_ensureFrom hensure
    exact ⟨db₁, hgrown, .inr ⟨hnone, rfl, hlast _ rfl⟩⟩

theorem alone_redeemSession
    (h : (redeemSession env packageId date sessions notes).alone present db =
      some (.ok (receipt, db'))) :
    1 ≤ sessions ∧ ∃ pkg liabilityGuid guid db₀ currencyGuid t,
      db.package? packageId = some pkg ∧ pkg.liabilityAccountGuid = some liabilityGuid ∧
      sessions ≤ pkg.sessionsTotal - redeemedSessions db packageId ∧
      (incomeAccount env pkg liabilityGuid).alone present db = some (.ok (guid, db₀)) ∧
      (db₀.account? liabilityGuid).bind Account.commodityGuid = some currencyGuid ∧
      t.debitAccountGuid = liabilityGuid ∧ t.creditAccountGuid = guid ∧
      t.fraction = db₀.currencyFraction currencyGuid ∧
      t.amount = computeRedemptionAmount pkg.price pkg.sessionsTotal sessions
        (redeemedSessions db packageId)
        (redemptionAmounts db₀ pkg liabilityGuid (db.redemptionsOf packageId)) t.fraction ∧
      (∀ u ∈ db₀.transactions, u.guid ≠ t.txn.guid) ∧
      db' = createRedemption packageId date sessions t.txn.guid (trimmedNotes notes)
        (addTxn t db₀) := by
  unfold redeemSession at h
  simp only [alone_bind_eq_ok, alone_select, alone_require_eq_ok, alone_expect_eq_ok,
    alone_check_eq_ok, alone_write, alone_tryWrite, alone_pure, Option.some.injEq,
    Except.ok.injEq, Prod.mk.injEq, Option.map_eq_some_iff, and_assoc, exists_and_left,
    exists_eq_left', exists_const] at h
  obtain ⟨hsessions, -, -, pkg, hpkg, liabilityGuid, hliability, hremaining, guid, db₀, hincome,
    currencyGuid, hcurrency, db₁, ⟨_, hcreate, -, rfl⟩, -, -, rfl⟩ := h
  obtain ⟨hfresh, rfl⟩ := createTwoSplitTxn_eq_some hcreate
  exact ⟨hsessions, pkg, liabilityGuid, guid, db₀, currencyGuid, _,
    (Option.filter_eq_some_iff.1 hpkg).1, hliability, hremaining, hincome, hcurrency, rfl, rfl,
    rfl, rfl, hfresh, rfl⟩

theorem alone_deleteRedemption {redemptionId : ℕ}
    (h : (deleteRedemption env redemptionId).alone present db = some (.ok (receipt, db'))) :
    ∃ r ∈ db.redemptions, ∀ guid, r.txnGuid = some guid →
      db' = { removeTxn guid db with redemptions := db.redemptions.filter fun r' => r'.id ≠ r.id } := by
  unfold deleteRedemption at h
  simp only [alone_bind_eq_ok, alone_select, alone_expect_eq_ok, alone_tryWrite, alone_pure,
    Option.some.injEq, Except.ok.injEq, Prod.mk.injEq, Option.map_eq_some_iff] at h
  obtain ⟨_, _, ⟨rfl, rfl⟩, r, _, ⟨hread, rfl⟩, _, db₁, hdelete, _, _, ⟨_, hremove, -, rfl⟩, -,
    rfl⟩ := h
  obtain ⟨hread, -⟩ := Option.filter_eq_some_iff.1 hread
  have hid : r.id = redemptionId := by simpa using List.find?_some hread
  refine ⟨r, List.mem_of_find?_eq_some hread, fun guid hguid => ?_⟩
  rw [hguid] at hdelete
  unfold deleteTxn at hdelete
  simp only [alone_bind_eq_ok, alone_select, alone_check_eq_ok, alone_write, Option.some.injEq,
    Except.ok.injEq, Prod.mk.injEq] at hdelete
  obtain ⟨_, _, ⟨rfl, rfl⟩, _, _, ⟨-, rfl⟩, _, _, ⟨rfl, rfl⟩, _, _, ⟨-, rfl⟩, -, rfl⟩ := hdelete
  unfold removeRedemption at hremove
  split_ifs at hremove
  cases hremove
  rw [hid]
  rfl

end Accounts

/-! ## What is recognized -/

/-- Amounts over a fraction are read back as they are stored. -/
def ReadExactly (f : ℤ) : Prop := ∀ z : ℤ, (⟨z, f⟩ : Amount).toDecimalNumber = z / f

/-- The debits of the liability account in the transaction of a redemption. -/
def debits (db : Db) (liabilityGuid : String) (r : RedemptionRow) : List Split :=
  db.splits.filter fun s => r.txnGuid = some s.txGuid ∧ s.accountGuid = liabilityGuid

def recognized (db : Db) (p : PackageRow) (liabilityGuid : String) (r : RedemptionRow) : ℚ :=
  let perSession : ℚ := if 0 < p.sessionsTotal then p.price / p.sessionsTotal else 0
  if debits db liabilityGuid r = [] then roundToFraction (perSession * r.sessions) 100
  else ((debits db liabilityGuid r).map fun s => s.value.toDecimalNumber).sum

theorem redemptionAmounts_eq_map (db : Db) (p : PackageRow) (liabilityGuid : String)
    (rs : List RedemptionRow) :
    redemptionAmounts db p liabilityGuid rs = rs.map (recognized db p liabilityGuid) := rfl

/-- The amounts are not negative and within the price, and are the price when all sessions are
redeemed. -/
def Recognized (p : PackageRow) (liabilityGuid : String) (db : Db) : Prop :=
  let amounts := redemptionAmounts db p liabilityGuid (db.redemptionsOf p.id)
  (∀ a ∈ amounts, 0 ≤ a) ∧ amounts.sum ≤ p.price ∧
    (redeemedSessions db p.id = p.sessionsTotal → amounts.sum = p.price)

instance (p : PackageRow) (liabilityGuid : String) (db : Db) :
    Decidable (Recognized p liabilityGuid db) := inferInstanceAs (Decidable (_ ∧ _ ∧ _))

def itemOf (db : Db) (p : PackageRow) (liabilityGuid : String) (f : ℤ) (r : RedemptionRow) : Item :=
  ⟨r.sessions, ⌊recognized db p liabilityGuid r * f⌋⟩

/-- The redemptions are credited to another account than the liability account. -/
def IncomeApart (db : Db) (liabilityGuid : String) (p : PackageRow) : Prop :=
  p.incomeAccountGuid ≠ some liabilityGuid ∧
    (p.incomeAccountGuid = none →
      ∀ a ∈ db.accounts, a.guid = liabilityGuid → a.name ≠ "Package Revenue")

/-- A package that was sold for `k` units of its currency, and has no redemptions yet. -/
structure Sold (db : Db) (p : PackageRow) (liabilityGuid currencyGuid : String) (f k : ℤ) : Prop where
  booked : Booked db
  mem : p ∈ db.packages
  unredeemed : db.redemptionsOf p.id = []
  sessions : 1 ≤ p.sessionsTotal
  account : p.liabilityAccountGuid = some liabilityGuid
  liability : (db.account? liabilityGuid).bind Account.commodityGuid = some currencyGuid
  fraction : db.currencyFraction currencyGuid = f
  positive : 0 < f
  exact : ReadExactly f
  price : p.price = k / f
  nonneg : 0 ≤ k
  income : IncomeApart db liabilityGuid p

/-- What requests keep of a package that was sold. -/
structure Ready (p : PackageRow) (liabilityGuid currencyGuid : String) (f k : ℤ) (db : Db) :
    Prop where
  booked : Booked db
  package : ∀ q ∈ db.packages, q.id = p.id → q.core = p.core ∧ IncomeApart db liabilityGuid q
  liability : (db.account? liabilityGuid).bind Account.commodityGuid = some currencyGuid
  fraction : db.currencyFraction currencyGuid = f
  whole : ∀ r ∈ db.redemptionsOf p.id, ∃ z : ℤ, recognized db p liabilityGuid r = z / f
  even : Even k p.sessionsTotal ((db.redemptionsOf p.id).map (itemOf db p liabilityGuid f))

section Steps

variable {db db' : Db} {p q : PackageRow} {liabilityGuid currencyGuid : String} {f k : ℤ}

theorem Sold.ready (h : Sold db p liabilityGuid currencyGuid f k) :
    Ready p liabilityGuid currencyGuid f k db where
  booked := h.booked
  package q hq hid := by
    obtain rfl := h.booked.eq_of_id hq h.mem hid
    exact ⟨rfl, h.income⟩
  liability := h.liability
  fraction := h.fraction
  whole := by simp [h.unredeemed]
  even := by
    rw [h.unredeemed]
    exact even_nil h.sessions

variable {r : RedemptionRow}

theorem recognized_of_debits (h : debits db' liabilityGuid r = debits db liabilityGuid r) :
    recognized db' p liabilityGuid r = recognized db p liabilityGuid r := by
  unfold recognized
  rw [h]

theorem recognized_of_core (h : q.core = p.core) (r : RedemptionRow) :
    recognized db q liabilityGuid r = recognized db p liabilityGuid r := by
  have hsessions := PackageRow.sessionsTotal_of_core h
  have hprice : q.core.price = p.core.price := congrArg PackageRow.price h
  change q.price = p.price at hprice
  unfold recognized
  rw [hsessions, hprice]

theorem map_itemOf_congr {rs : List RedemptionRow}
    (h : ∀ r ∈ rs, recognized db' p liabilityGuid r = recognized db p liabilityGuid r) :
    rs.map (itemOf db' p liabilityGuid f) = rs.map (itemOf db p liabilityGuid f) :=
  List.map_congr_left fun r hr => by rw [itemOf, itemOf, h r hr]

theorem recognized_eq_units (hf : 0 < f) (h : ∃ z : ℤ, recognized db p liabilityGuid r = z / f) :
    recognized db p liabilityGuid r = (itemOf db p liabilityGuid f r).units / f := by
  obtain ⟨z, hz⟩ := h
  have hf' : (f : ℚ) ≠ 0 := (Int.cast_pos.2 hf).ne'
  rw [itemOf, hz, div_mul_cancel₀ _ hf', Int.floor_intCast]

theorem sum_recognized (hf : 0 < f) {rs : List RedemptionRow}
    (h : ∀ r ∈ rs, ∃ z : ℤ, recognized db p liabilityGuid r = z / f) :
    (rs.map (recognized db p liabilityGuid)).sum =
      ((rs.map (itemOf db p liabilityGuid f)).map Item.units).sum / (f : ℚ) := by
  induction rs with
  | nil => simp
  | cons r rs ih =>
    rw [List.forall_mem_cons] at h
    simp only [List.map_cons, List.sum_cons, ih h.2, recognized_eq_units hf h.1]
    push_cast
    ring

theorem redeemedSessions_eq (db : Db) (p : PackageRow) (liabilityGuid : String) (f : ℤ) :
    redeemedSessions db p.id =
      (((db.redemptionsOf p.id).map (itemOf db p liabilityGuid f)).map Item.sessions).sum := by
  rw [List.map_map]
  rfl

theorem Ready.kept (h : Ready p liabilityGuid currencyGuid f k db) (hf : 0 < f)
    (hprice : p.price = k / f) (hk : 0 ≤ k) (hn : 1 ≤ p.sessionsTotal)
    (happ : Apportioned k p.sessionsTotal) : Recognized p liabilityGuid db := by
  have hf' : (0 : ℚ) < f := Int.cast_pos.2 hf
  obtain ⟨hnonneg, hle⟩ := h.even.units_le happ hk hn
  have hsum := sum_recognized hf h.whole
  refine ⟨fun a ha => ?_, ?_, fun hall => ?_⟩
  · obtain ⟨r, hr, rfl⟩ := List.mem_map.1 ha
    have hunits := hnonneg _ (List.mem_map_of_mem hr)
    change 0 ≤ recognized db p liabilityGuid r
    rw [recognized_eq_units hf (h.whole r hr)]
    exact div_nonneg (Int.cast_nonneg hunits) hf'.le
  · rw [redemptionAmounts_eq_map, hsum, hprice]
    exact div_le_div_of_nonneg_right (by exact_mod_cast hle) hf'.le
  · rw [redemptionAmounts_eq_map, hsum, hprice]
    rw [redeemedSessions_eq db p liabilityGuid f] at hall
    rw [h.even.exhausted hall]

theorem Ready.frame (h : Ready p liabilityGuid currencyGuid f k db) (hframe : Frame db db')
    (hcommodities : db'.commodities = db.commodities)
    (hliability : (db'.account? liabilityGuid).bind Account.commodityGuid = some currencyGuid)
    (hpackage : ∀ q ∈ db'.packages, q.id = p.id → q.core = p.core ∧ IncomeApart db' liabilityGuid q) :
    Ready p liabilityGuid currencyGuid f k db' := by
  have hrows : db'.redemptionsOf p.id = db.redemptionsOf p.id := by
    unfold Db.redemptionsOf
    rw [hframe.redemptions]
  have hsame (r : RedemptionRow) :
      recognized db' p liabilityGuid r = recognized db p liabilityGuid r :=
    recognized_of_debits (by unfold debits; rw [hframe.splits])
  refine ⟨h.booked.frame hframe, hpackage, hliability, ?_, fun r hr => ?_, ?_⟩
  · unfold Db.currencyFraction
    rw [hcommodities]
    exact h.fraction
  · rw [hsame]
    exact h.whole r (hrows ▸ hr)
  · rw [hrows, map_itemOf_congr fun r _ => hsame r]
    exact h.even

theorem Ready.grown (h : Ready p liabilityGuid currencyGuid f k db) (hgrown : Grown db db') :
    Ready p liabilityGuid currencyGuid f k db' := by
  obtain ⟨a, ha, hcurrency⟩ := Option.bind_eq_some_iff.1 h.liability
  refine h.frame hgrown.frame hgrown.commodities ?_ fun q hq hid => ?_
  · rw [hgrown.account? ha]
    exact hcurrency
  · rw [hgrown.packages] at hq
    obtain ⟨hcore, hincome, hnamed⟩ := h.package q hq hid
    refine ⟨hcore, hincome, fun hnone b hb hguid => ?_⟩
    exact hnamed hnone b (hgrown.mem_accounts (hguid ▸ ha) hb) hguid

theorem Ready.withIncomeAccount {env : Env} {present : Key → Bool} {pkg : PackageRow}
    {pkgLiabilityGuid : String} {db₀ : Db} (h : Ready p liabilityGuid currencyGuid f k db)
    (hpkg : pkg ∈ db.packages)
    (hincome : (incomeAccount env pkg pkgLiabilityGuid).alone present db = some (.ok (guid, db₀))) :
    Ready p liabilityGuid currencyGuid f k db₀ ∧ Frame db db₀ ∧
      (pkg.id = p.id → guid ≠ liabilityGuid) := by
  obtain ⟨db₁, hgrown, hcases⟩ := alone_incomeAccount hincome
  have hready := h.grown hgrown
  rcases hcases with ⟨hnamed, rfl⟩ | ⟨hnone, rfl, a, ha, hguid, hname⟩
  · refine ⟨hready, hgrown.frame, fun hid heq => (h.package pkg hpkg hid).2.1 ?_⟩
    rw [hnamed, heq]
  · have hpkg' : pkg ∈ db₁.packages := hgrown.packages ▸ hpkg
    have hne (hid : pkg.id = p.id) : guid ≠ liabilityGuid := fun heq =>
      (hready.package pkg hpkg' hid).2.2 hnone a ha (hguid.trans heq) hname
    have hframe := framing_setIncomeAccount pkg.id guid db₁ _ rfl
    refine ⟨hready.frame hframe rfl hready.liability fun q hq hid => ?_, hgrown.frame.trans hframe,
      hne⟩
    obtain ⟨q', hq', rfl⟩ := mem_editAt.1 hq
    by_cases hedit : q'.id = pkg.id
    · rw [if_pos hedit] at hid ⊢
      have hid' : q'.id = p.id := hid
      obtain ⟨hcore, -⟩ := hready.package q' hq' hid'
      refine ⟨hcore, fun heq => hne (hedit.symm.trans hid') (Option.some.inj heq), ?_⟩
      exact fun hnone' => absurd hnone' (by simp)
    · rw [if_neg hedit] at hid ⊢
      exact hready.package q' hq' hid

theorem Ready.redeemed (h : Ready p liabilityGuid currencyGuid f k db) (hf : 0 < f)
    (hprice : p.price = k / f) (hk : 0 ≤ k) (happ : Apportioned k p.sessionsTotal)
    (hsessions : 1 ≤ sessions) (hremaining : sessions ≤ p.sessionsTotal - redeemedSessions db p.id) :
    ∃ u : ℤ, computeRedemptionAmount p.price p.sessionsTotal sessions (redeemedSessions db p.id)
        (redemptionAmounts db p liabilityGuid (db.redemptionsOf p.id)) f = u / f ∧
      Even k p.sessionsTotal
        ((db.redemptionsOf p.id).map (itemOf db p liabilityGuid f) ++ [⟨sessions, u⟩]) := by
  have hbefore := redeemedSessions_eq db p liabilityGuid f
  have hnonneg : 0 ≤ redeemedSessions db p.id := by
    rw [hbefore]
    refine List.sum_nonneg fun v hv => ?_
    obtain ⟨i, hi, rfl⟩ := List.mem_map.1 hv
    exact (h.even.sessions i hi).trans' (by decide)
  unfold computeRedemptionAmount
  rw [if_neg (by omega), redemptionAmounts_eq_map, sum_recognized hf h.whole, hprice]
  by_cases hlast : p.sessionsTotal ≤ redeemedSessions db p.id + sessions
  · refine ⟨_, ?_, h.even.redeemLast hsessions (by omega)⟩
    rw [if_pos hlast, ← sub_div, ← Int.cast_sub, roundToFraction_div hf]
  · refine ⟨_, ?_, h.even.redeem happ hsessions (by omega)⟩
    rw [if_neg hlast, roundToFraction_share hf hk (by omega) (by omega)]

/-- The transaction of another redemption is not in the debits of one that was there. -/
theorem debits_addTxn_of_mem {t : TwoSplitTxn} (hdb : Booked db)
    (hfresh : ∀ u ∈ db.transactions, u.guid ≠ t.txn.guid) (hr : r ∈ db.redemptions) :
    debits (addTxn t db) liabilityGuid r = debits db liabilityGuid r := by
  obtain ⟨u, hu, hguid⟩ := hdb.redeemed r hr
  have hne : r.txnGuid ≠ some t.txn.guid := by
    rw [hguid]
    exact fun heq => hfresh u hu (Option.some.inj heq)
  have hnone : [t.debit, t.credit].filter (fun s : Split =>
      r.txnGuid = some s.txGuid ∧ s.accountGuid = liabilityGuid) = [] := by
    refine List.filter_eq_nil_iff.2 fun s hs => ?_
    rcases List.mem_pair.1 hs with rfl | rfl
    · exact fun h => hne (of_decide_eq_true h).1
    · exact fun h => hne (of_decide_eq_true h).1
  unfold debits
  change (db.splits ++ [t.debit, t.credit]).filter _ = _
  rw [List.filter_append, hnone, List.append_nil]

theorem debits_addTxn_self {t : TwoSplitTxn} (hdb : Booked db)
    (hfresh : ∀ u ∈ db.transactions, u.guid ≠ t.txn.guid) (hr : r.txnGuid = some t.txn.guid)
    (hdebit : t.debitAccountGuid = liabilityGuid) (hcredit : t.creditAccountGuid ≠ liabilityGuid) :
    debits (addTxn t db) liabilityGuid r = [t.debit] := by
  have hold : db.splits.filter (fun s =>
      r.txnGuid = some s.txGuid ∧ s.accountGuid = liabilityGuid) = [] := by
    refine List.filter_eq_nil_iff.2 fun s hs => ?_
    obtain ⟨u, hu, hguid⟩ := hdb.owned s hs
    have hne : r.txnGuid ≠ some s.txGuid := by
      rw [hr, ← hguid]
      exact fun heq => hfresh u hu (Option.some.inj heq).symm
    exact fun h => hne (of_decide_eq_true h).1
  have hin : r.txnGuid = some t.debit.txGuid ∧ t.debit.accountGuid = liabilityGuid := ⟨hr, hdebit⟩
  have hout : ¬(r.txnGuid = some t.credit.txGuid ∧ t.credit.accountGuid = liabilityGuid) :=
    fun h => hcredit h.2
  unfold debits
  change (db.splits ++ [t.debit, t.credit]).filter _ = _
  rw [List.filter_append, hold, List.nil_append, List.filter_cons_of_pos (by simpa using hin),
    List.filter_cons_of_neg (by simpa using hout), List.filter_nil]

theorem recognized_addTxn_self {t : TwoSplitTxn} {u : ℤ} (hdb : Booked db)
    (hexact : ReadExactly f) (hf : 0 < f)
    (hfresh : ∀ u ∈ db.transactions, u.guid ≠ t.txn.guid) (hr : r.txnGuid = some t.txn.guid)
    (hdebit : t.debitAccountGuid = liabilityGuid) (hcredit : t.creditAccountGuid ≠ liabilityGuid)
    (hfraction : t.fraction = f) (hamount : t.amount = u / f) :
    recognized (addTxn t db) p liabilityGuid r = u / f := by
  have hf' : (f : ℚ) ≠ 0 := (Int.cast_pos.2 hf).ne'
  have hvalue : t.debit.value = ⟨u, f⟩ := by
    change fromDecimal t.amount t.fraction = _
    rw [fromDecimal, hamount, hfraction, div_mul_cancel₀ _ hf', mathRound_intCast]
  unfold recognized
  rw [debits_addTxn_self hdb hfresh hr hdebit hcredit]
  simp [hvalue, hexact u]

theorem Ready.book {t : TwoSplitTxn}
    (h : Ready p liabilityGuid currencyGuid f k db) (hsessions : 1 ≤ sessions) (hexact : t.Exact)
    (hfresh : ∀ u ∈ db.transactions, u.guid ≠ t.txn.guid) (hnew : packageId = p.id → ∃ u : ℤ,
      (∀ r : RedemptionRow, r.txnGuid = some t.txn.guid →
        recognized (addTxn t db) p liabilityGuid r = u / f) ∧ 0 < f ∧
      Even k p.sessionsTotal
        ((db.redemptionsOf p.id).map (itemOf db p liabilityGuid f) ++ [⟨sessions, u⟩])) :
    Ready p liabilityGuid currencyGuid f k
      (createRedemption packageId date sessions t.txn.guid notes (addTxn t db)) := by
  set new : RedemptionRow :=
    ⟨(addTxn t db).lastRedemptionId + 1, packageId, date, sessions, some t.txn.guid, notes⟩ with hdef
  set db' := createRedemption packageId date sessions t.txn.guid notes (addTxn t db) with hdb'
  have hold (r : RedemptionRow) (hr : r ∈ db.redemptionsOf p.id) :
      recognized db' p liabilityGuid r = recognized db p liabilityGuid r :=
    recognized_of_debits (debits_addTxn_of_mem h.booked hfresh (List.mem_filter.1 hr).1)
  have hrows : db'.redemptionsOf p.id =
      db.redemptionsOf p.id ++ if packageId = p.id then [new] else [] := by
    change (db.redemptions ++ [new]).filter _ = _
    rw [List.filter_append]
    congr 1
    split_ifs with hid
    · exact List.filter_cons_of_pos (by simpa [hdef] using hid)
    · exact List.filter_cons_of_neg (by simpa [hdef] using hid)
  refine ⟨h.booked.redeem hsessions hexact hfresh, h.package, h.liability, h.fraction, ?_, ?_⟩
  all_goals
    rw [hrows]
    split_ifs with hid
  · obtain ⟨u, hrecognized, -, -⟩ := hnew hid
    refine List.forall_mem_append.2 ⟨fun r hr => ?_, List.forall_mem_singleton.2 ⟨u, ?_⟩⟩
    · rw [hold r hr]
      exact h.whole r hr
    · exact hrecognized new rfl
  · rw [List.append_nil]
    intro r hr
    rw [hold r hr]
    exact h.whole r hr
  · obtain ⟨u, hrecognized, hf, heven⟩ := hnew hid
    have hf' : (f : ℚ) ≠ 0 := (Int.cast_pos.2 hf).ne'
    have hitem : itemOf db' p liabilityGuid f new = ⟨sessions, u⟩ := by
      have hnew' : recognized db' p liabilityGuid new = u / f := hrecognized new rfl
      rw [itemOf, hnew', div_mul_cancel₀ _ hf', Int.floor_intCast]
    rw [List.map_append, map_itemOf_congr hold, List.map_singleton, hitem]
    exact heven
  · rw [List.append_nil, map_itemOf_congr hold]
    exact h.even

theorem Ready.delete (h : Ready p liabilityGuid currencyGuid f k db) (hr : r ∈ db.redemptions)
    (hguid : r.txnGuid = some guid) :
    Ready p liabilityGuid currencyGuid f k
      { removeTxn guid db with
        redemptions := db.redemptions.filter fun r' => r'.id ≠ r.id } := by
  have hsymm : Std.Symm fun x y : RedemptionRow => x.id ≠ y.id ∧ x.txnGuid ≠ y.txnGuid :=
    ⟨fun _ _ h => ⟨h.1.symm, h.2.symm⟩⟩
  set db' : Db := { removeTxn guid db with
    redemptions := db.redemptions.filter fun r' => r'.id ≠ r.id } with hdb'
  have hrows : (db'.redemptionsOf p.id).Sublist (db.redemptionsOf p.id) :=
    List.filter_sublist.filter _
  have hold (r' : RedemptionRow) (hr' : r' ∈ db'.redemptionsOf p.id) :
      recognized db' p liabilityGuid r' = recognized db p liabilityGuid r' := by
    refine recognized_of_debits ?_
    obtain ⟨hmem, hid⟩ := List.mem_filter.1 (List.mem_filter.1 hr').1
    have hne : r' ≠ r := fun heq => by simp [heq] at hid
    have htxn : r'.txnGuid ≠ some guid := hguid ▸ (h.booked.apart.forall hmem hr hne).2
    change (db.splits.filter fun s => s.txGuid ≠ guid).filter _ = _
    rw [List.filter_filter]
    refine List.filter_congr fun s _ => ?_
    by_cases hs : r'.txnGuid = some s.txGuid
    · have hkeep : s.txGuid ≠ guid := fun heq => htxn (hs.trans (congrArg some heq))
      simp [hs, hkeep]
    · simp [hs]
  refine ⟨h.booked.delete hr hguid, h.package, h.liability, h.fraction, fun r' hr' => ?_, ?_⟩
  · rw [hold r' hr']
    exact h.whole r' (hrows.subset hr')
  · rw [map_itemOf_congr hold]
    exact h.even.sublist (hrows.map _)

end Steps

/-! ## Requests one after the other -/

/-- The tables after a request that has them to itself. -/
def serveAlone (db : Db) (req : Request) : Db := (serve req).final (fun _ _ => true) [none] db

section Requests

variable {db : Db} {p : PackageRow} {liabilityGuid currencyGuid : String} {f k : ℤ}

theorem final_single {t : Tx Receipt} (hkeep : ∀ receipt db', t.alone (fun _ => true) db =
      some (.ok (receipt, db')) → Ready p liabilityGuid currencyGuid f k db')
    (h : Ready p liabilityGuid currencyGuid f k db) :
    Ready p liabilityGuid currencyGuid f k
      ((Script.single t).final (fun _ _ => true) [none] db) := by
  unfold Script.single Script.final
  split
  · rename_i receipt db' halone
    exact hkeep receipt db' halone
  · exact h
  · exact h

theorem redemptionAmounts_of_core {q : PackageRow} (h : q.core = p.core) (rs : List RedemptionRow) :
    redemptionAmounts db q liabilityGuid rs = redemptionAmounts db p liabilityGuid rs :=
  List.map_congr_left fun r _ => recognized_of_core h r

theorem Ready.redeem {db₁ : Db} {env : Env} {db' : Db}
    (hsold : Sold db₁ p liabilityGuid currencyGuid f k) (happ : Apportioned k p.sessionsTotal)
    (h : Ready p liabilityGuid currencyGuid f k db)
    (halone : (redeemSession env packageId date sessions notes).alone (fun _ => true) db =
      some (.ok (receipt, db'))) : Ready p liabilityGuid currencyGuid f k db' := by
  obtain ⟨hsessions, pkg, pkgLiabilityGuid, guid, db₀, pkgCurrencyGuid, t, hfind, hliability,
    hremaining, hincome, hcurrency, hdebit, hcredit, hfraction, hamount, hfresh, rfl⟩ :=
    alone_redeemSession halone
  have hpkg : pkg ∈ db.packages := List.mem_of_find?_eq_some hfind
  have hid : pkg.id = packageId := by simpa using List.find?_some hfind
  obtain ⟨hready, hframe, hne⟩ := h.withIncomeAccount hpkg hincome
  have hexact : t.Exact := by
    refine TwoSplitTxn.exact_of_mul ?_
    rw [hamount]
    exact exact_computeRedemptionAmount (hfraction ▸ currencyFraction_ne_zero)
  refine hready.book hsessions hexact hfresh fun hp => ?_
  obtain ⟨hcore, -⟩ := h.package pkg hpkg (hid.trans hp)
  have hsame : pkgLiabilityGuid = liabilityGuid := by
    have haccount : pkg.core.liabilityAccountGuid = p.core.liabilityAccountGuid :=
      congrArg PackageRow.liabilityAccountGuid hcore
    exact Option.some.inj (hliability.symm.trans (haccount.trans hsold.account))
  subst hsame
  have hcurrency' : pkgCurrencyGuid = currencyGuid :=
    Option.some.inj (hcurrency.symm.trans hready.liability)
  have hf : t.fraction = f := by rw [hfraction, hcurrency', hready.fraction]
  have hrows : db.redemptionsOf packageId = db₀.redemptionsOf p.id := by
    unfold Db.redemptionsOf
    rw [hp, hframe.redemptions]
  have hbefore : redeemedSessions db packageId = redeemedSessions db₀ p.id := by
    unfold redeemedSessions
    rw [hrows]
  have hprice : pkg.core.price = p.core.price := congrArg PackageRow.price hcore
  change pkg.price = p.price at hprice
  have htotal := PackageRow.sessionsTotal_of_core hcore
  rw [hbefore, htotal] at hremaining
  obtain ⟨u, hu, heven⟩ := hready.redeemed hsold.positive hsold.price hsold.nonneg happ hsessions
    hremaining
  refine ⟨u, fun r hr => ?_, hsold.positive, heven⟩
  refine recognized_addTxn_self hready.booked hsold.exact hsold.positive hfresh hr hdebit ?_ hf ?_
  · rw [hcredit]
    exact hne (hid.trans hp)
  · rw [hamount, hf, hbefore, hrows, redemptionAmounts_of_core hcore, hprice, htotal, hu]

theorem Ready.serve {db₁ : Db} (hsold : Sold db₁ p liabilityGuid currencyGuid f k)
    (happ : Apportioned k p.sessionsTotal) (h : Ready p liabilityGuid currencyGuid f k db)
    (req : Request) : Ready p liabilityGuid currencyGuid f k (serveAlone db req) := by
  cases req with
  | redeemSession env packageId date sessions notes =>
    exact final_single (fun receipt db' halone => h.redeem hsold happ halone) h
  | deleteRedemption env redemptionId =>
    refine final_single (fun receipt db' halone => ?_) h
    obtain ⟨r, hr, hdelete⟩ := alone_deleteRedemption halone
    obtain ⟨u, -, hguid⟩ := h.booked.redeemed r hr
    rw [hdelete u.guid hguid]
    exact h.delete hr hguid

end Requests

/-! ## A package that drifts -/

def redeem (guids : List String) (sessions : ℤ) : Request :=
  .redeemSession (envWith guids) 1 0 sessions none

def deleteRedemptions (ids : List ℕ) : List Request := ids.map (.deleteRedemption (envWith []))

theorem sold_soldPackage : Sold soldPackage
    ⟨1, "book", "Trio", 3, 100, some "unearned", some "income", some "sale"⟩ "unearned" "usd" 100
    10000 where
  booked := booked_soldPackage
  mem := by decide
  unredeemed := by decide
  sessions := by decide
  account := rfl
  liability := by decide
  fraction := by decide
  positive := by decide
  exact := @Amount.toDecimalNumber_of_powerOfTen 100 2 (by decide) rfl
  price := by norm_num
  nonneg := by decide
  income := ⟨by decide, by decide⟩

def centPackage : Db :=
  { soldPackage with
    splits := [newSplit "s1" "sale" "bank" "" ⟨1, 100⟩, newSplit "s2" "sale" "unearned" "" ⟨-1, 100⟩]
    packages := [⟨1, "book", "Quartet", 4, 1 / 100, some "unearned", some "income", some "sale"⟩] }

/-- Four single redemptions, of which the last recognizes the cent; the first three are deleted, and
two sessions recognize another cent. -/
def redeemedTwice : List Request :=
  redeem ["t1", "a1", "b1"] 1 :: redeem ["t2", "a2", "b2"] 1 :: redeem ["t3", "a3", "b3"] 1 ::
    redeem ["t4", "a4", "b4"] 1 :: deleteRedemptions [1, 2, 3] ++ [redeem ["t5", "a5", "b5"] 2]

end Packages
