import Mathlib
import GnucashWeb.Packages.Redeem

/-!
# Packages are not redeemed over their sessions

A redemption counts the sessions that are left in a query of its own and locks nothing, so another
one may commit between its count and its insert.  `kept_iff` is the main result: in every
interleaving, the commits leave each package within its sessions, and its revenue and its liability
together at its price, exactly when every redemption that commits would still pass its own check.
-/

namespace Packages

open Ledger (Split fromDecimal mathRound mathRound_intCast)
open Rows Statements Runs

/-! ## What is promised -/

section Figures

variable (db : Db)

def redeemedSessions (packageId : ℕ) : ℤ :=
  ((db.redemptionsOf packageId).map RedemptionRow.sessions).sum

/-- The value of those splits of a transaction that are in an account, or outside it. -/
def txnTotal (inside : Bool) (accountGuid : Option String) (txnGuid : Option String) : ℚ :=
  total (fun s : Split => txnGuid = some s.txGuid ∧
    decide (accountGuid = some s.accountGuid) = inside) (fun s => s.value.exact) db.splits

/-- What the redemptions of a package credit to income. -/
def revenue (p : PackageRow) : ℚ :=
  ((db.redemptionsOf p.id).map fun r => -txnTotal db false p.liabilityAccountGuid r.txnGuid).sum

/-- What the sale and the redemptions of a package leave in its liability account. -/
def liability (p : PackageRow) : ℚ :=
  -txnTotal db true p.liabilityAccountGuid p.saleTxnGuid -
    ((db.redemptionsOf p.id).map fun r => txnTotal db true p.liabilityAccountGuid r.txnGuid).sum

/-- A package is within its sessions, and its revenue and its liability are its price. -/
def KeptPackage (p : PackageRow) : Prop :=
  redeemedSessions db p.id ≤ p.sessionsTotal ∧ revenue db p + liability db p = p.price

instance (p : PackageRow) : Decidable (KeptPackage db p) := inferInstanceAs (Decidable (_ ∧ _))

end Figures

def Kept (_ : Set Key) (_ : Receipt) (_ db' : Db) : Prop := ∀ p ∈ db'.packages, KeptPackage db' p

/-- The check of a redemption would pass as it commits: with the sessions that are redeemed by
then, its own are within the package. -/
def StillRemaining (_ : Set Key) (a : Receipt) (db _ : Db) : Prop :=
  match a with
  | .redeemed pkg sessions => sessions ≤ pkg.sessionsTotal - redeemedSessions db pkg.id
  | .deleted _ => True

instance : DecidableCommit Kept where
  dec _ _ _ _ db' := inferInstanceAs (Decidable (∀ p ∈ db'.packages, KeptPackage db' p))

/-! ## What always holds -/

/-- A package without its income account, which the first redemption sets. -/
def PackageRow.core (p : PackageRow) : PackageRow := { p with incomeAccountGuid := none }

/-- The splits of a transaction cancel out. -/
def Balanced (db : Db) (txnGuid : Option String) : Prop :=
  total (fun s : Split => txnGuid = some s.txGuid) (fun s => s.value.exact) db.splits = 0

/-- The books of the packages, whatever has been redeemed: each sale and each redemption has its own
transaction, that of a sale credits the price, and that of a redemption is balanced. -/
structure Booked (db : Db) : Prop where
  owned : ∀ s ∈ db.splits, ∃ t ∈ db.transactions, t.guid = s.txGuid
  packageIds : (db.packages.map PackageRow.id).Nodup
  sold : ∀ p ∈ db.packages, ∃ t ∈ db.transactions, p.saleTxnGuid = some t.guid
  credited : ∀ p ∈ db.packages, -txnTotal db true p.liabilityAccountGuid p.saleTxnGuid = p.price
  sale : ∀ p ∈ db.packages, ∀ r ∈ db.redemptions, r.txnGuid ≠ p.saleTxnGuid
  sessions : ∀ r ∈ db.redemptions, 1 ≤ r.sessions
  redemptionIds : ∀ r ∈ db.redemptions, r.id ≤ db.lastRedemptionId
  apart : db.redemptions.Pairwise fun r r' => r.id ≠ r'.id ∧ r.txnGuid ≠ r'.txnGuid
  redeemed : ∀ r ∈ db.redemptions, ∃ t ∈ db.transactions, r.txnGuid = some t.guid
  balanced : ∀ r ∈ db.redemptions, Balanced db r.txnGuid

/-- Only accounts and income accounts differ. -/
structure Frame (db db' : Db) : Prop where
  splits : db'.splits = db.splits
  transactions : db'.transactions = db.transactions
  redemptions : db'.redemptions = db.redemptions
  lastRedemptionId : db'.lastRedemptionId = db.lastRedemptionId
  packages : db'.packages.map PackageRow.core = db.packages.map PackageRow.core

variable {db db' db'' : Db} {p : PackageRow}

theorem Frame.refl : Frame db db := ⟨rfl, rfl, rfl, rfl, rfl⟩

theorem Frame.trans (h : Frame db db') (h' : Frame db' db'') : Frame db db'' :=
  ⟨h'.1.trans h.1, h'.2.trans h.2, h'.3.trans h.3, h'.4.trans h.4, h'.5.trans h.5⟩

theorem PackageRow.id_of_core {p q : PackageRow} (h : p.core = q.core) : p.id = q.id := by
  cases p
  cases q
  exact (PackageRow.mk.inj h).1

theorem PackageRow.sessionsTotal_of_core {p q : PackageRow} (h : p.core = q.core) :
    p.sessionsTotal = q.sessionsTotal := by
  cases p
  cases q
  exact (PackageRow.mk.inj h).2.2.2.1

theorem exists_core (h : db'.packages.map PackageRow.core = db.packages.map PackageRow.core)
    (hp : p ∈ db'.packages) : ∃ q ∈ db.packages, q.core = p.core :=
  List.mem_map.1 (h ▸ List.mem_map_of_mem hp)

theorem txnTotal_add (account txnGuid : Option String) :
    txnTotal db true account txnGuid + txnTotal db false account txnGuid =
      total (fun s : Split => txnGuid = some s.txGuid) (fun s => s.value.exact) db.splits := by
  unfold txnTotal
  induction db.splits with
  | nil => simp
  | cons s rest ih =>
    rw [total_cons, total_cons, total_cons, ← ih]
    by_cases htxn : txnGuid = some s.txGuid
    · by_cases hacc : account = some s.accountGuid
      · simp [htxn, hacc, add_assoc]
      · simp [htxn, hacc, add_left_comm]
    · simp [htxn]

/-- The revenue and the liability of a package are its price, whatever has been redeemed. -/
theorem Booked.price (h : Booked db) (hp : p ∈ db.packages) :
    revenue db p + liability db p = p.price := by
  have hzero : ∀ r ∈ db.redemptionsOf p.id, txnTotal db false p.liabilityAccountGuid r.txnGuid =
      -txnTotal db true p.liabilityAccountGuid r.txnGuid := by
    intro r hr
    have hbal := h.balanced r (List.mem_filter.1 hr).1
    rw [Balanced, ← txnTotal_add p.liabilityAccountGuid] at hbal
    linarith
  have hrevenue : revenue db p =
      ((db.redemptionsOf p.id).map fun r => txnTotal db true p.liabilityAccountGuid r.txnGuid).sum := by
    refine congrArg List.sum (List.map_congr_left fun r hr => ?_)
    rw [hzero r hr, neg_neg]
  rw [hrevenue, liability, h.credited p hp]
  ring

/-- No package is redeemed over its sessions. -/
def Within (db : Db) : Prop := ∀ p ∈ db.packages, redeemedSessions db p.id ≤ p.sessionsTotal

theorem Booked.kept_iff_within (h : Booked db) {L : Set Key} {a : Receipt} {db₀ : Db} :
    Kept L a db₀ db ↔ Within db :=
  forall₂_congr fun _ hp => and_iff_left (h.price hp)

/-! ## Writes -/

variable {txnGuid : Option String} {guid : String}

theorem total_filter_of_imp {α : Type} {p q : α → Prop} [DecidablePred p] [DecidablePred q]
    {w : α → ℚ} (h : ∀ r, p r → q r) (rows : List α) :
    total p w (rows.filter q) = total p w rows := by
  unfold total
  rw [List.filter_filter]
  refine congrArg (fun rows => (List.map w rows).sum) (List.filter_congr fun r _ => ?_)
  by_cases hp : p r
  · simp [hp, h r hp]
  · simp [hp]

theorem total_splits_append {q : Split → Prop} [DecidablePred q] {d c : Split} {rows : List Split}
    (hq : ∀ s, q s → s.txGuid ≠ guid) (hd : d.txGuid = guid) (hc : c.txGuid = guid) :
    total q (fun s => s.value.exact) (rows ++ [d, c]) =
      total q (fun s => s.value.exact) rows := by
  rw [total_append, add_eq_left]
  refine total_eq_zero fun s hs hqs => absurd ?_ (hq s hqs)
  rcases List.mem_pair.1 hs with rfl | rfl
  · exact hd
  · exact hc

/-- The tables with the transaction of a redemption. -/
def addTxn (t : TwoSplitTxn) (db : Db) : Db :=
  { db with
    transactions := db.transactions ++ [t.txn]
    splits := db.splits ++ [t.debit, t.credit] }

variable {t : TwoSplitTxn} {sessions date : ℤ} {packageId : ℕ} {notes : Option String}
  {pkg : PackageRow}

theorem createTwoSplitTxn_eq_some (h : createTwoSplitTxn t db = some db') :
    (∀ u ∈ db.transactions, u.guid ≠ t.txn.guid) ∧ db' = addTxn t db := by
  unfold createTwoSplitTxn at h
  obtain ⟨ledger₁, h₁, h⟩ := Option.bind_eq_some_iff.1 h
  obtain ⟨ledger₂, h₂, h⟩ := Option.bind_eq_some_iff.1 h
  obtain ⟨ledger₃, h₃, h⟩ := Option.bind_eq_some_iff.1 h
  unfold Edits.insertTransaction at h₁
  unfold Edits.insertSplit at h₂ h₃
  split_ifs at h₁ h₂ h₃ with hnone
  cases h₁
  cases h₂
  cases h₃
  cases h
  refine ⟨fun u hu hguid => ?_, by simp [addTxn]⟩
  have hfind := List.find?_eq_none.1 (Option.isNone_iff_eq_none.1 hnone) u hu
  simp [hguid] at hfind

def TwoSplitTxn.Exact (t : TwoSplitTxn) : Prop :=
  (fromDecimal (-t.amount) t.fraction).num = -(fromDecimal t.amount t.fraction).num

theorem exact_of_roundToFraction {value : ℚ} {fraction : ℤ} (hf : fraction ≠ 0) :
    ∃ n : ℤ, roundToFraction value fraction * fraction = n := by
  have hf' : (fraction : ℚ) ≠ 0 := Int.cast_ne_zero.2 hf
  unfold roundToFraction
  rw [div_mul_cancel₀ _ hf']
  split_ifs
  · exact ⟨-mathRound (|value| * fraction), by push_cast; ring⟩
  · exact ⟨mathRound (|value| * fraction), by ring⟩

theorem exact_computeRedemptionAmount {price : ℚ} {sessionsTotal redeemedBefore : ℤ}
    {priorAmounts : List ℚ} {fraction : ℤ} (hf : fraction ≠ 0) :
    ∃ n : ℤ, computeRedemptionAmount price sessionsTotal sessions redeemedBefore priorAmounts
      fraction * fraction = n := by
  unfold computeRedemptionAmount
  split_ifs
  · exact ⟨0, by simp⟩
  · exact exact_of_roundToFraction hf
  · exact exact_of_roundToFraction hf

theorem TwoSplitTxn.exact_of_mul (h : ∃ n : ℤ, t.amount * t.fraction = n) :
    t.Exact := by
  obtain ⟨n, hn⟩ := h
  have hneg : -t.amount * t.fraction = ((-n : ℤ) : ℚ) := by
    rw [neg_mul, hn]
    push_cast
    rfl
  change mathRound (-t.amount * t.fraction) = -mathRound (t.amount * t.fraction)
  rw [hneg, hn, mathRound_intCast, mathRound_intCast]

theorem currencyFraction_ne_zero {currencyGuid : String} : db.currencyFraction currencyGuid ≠ 0 := by
  unfold Db.currencyFraction
  dsimp only
  split_ifs with h
  · decide
  · exact h

theorem Booked.redeem
    (h : Booked db) (hsessions : 1 ≤ sessions) (hexact : t.Exact) (hfresh : ∀ u ∈ db.transactions, u.guid ≠ t.txn.guid) :
    Booked (createRedemption packageId date sessions t.txn.guid notes (addTxn t db)) := by
  have hkeep {q : Split → Prop} [DecidablePred q] (hq : ∀ s, q s → s.txGuid ≠ t.txn.guid) :
      total q (fun s => s.value.exact) (db.splits ++ [t.debit, t.credit]) =
        total q (fun s => s.value.exact) db.splits :=
    total_splits_append hq rfl rfl
  have hother {g : Option String} (hg : ∃ u ∈ db.transactions, g = some u.guid) {s : Split}
      (hs : g = some s.txGuid) : s.txGuid ≠ t.txn.guid := by
    obtain ⟨u, hu, rfl⟩ := hg
    exact Option.some.inj hs ▸ hfresh u hu
  have hin {g : Option String} (hg : ∃ u ∈ db.transactions, g = some u.guid) :
      ∃ u ∈ db.transactions ++ [t.txn], g = some u.guid := by
    obtain ⟨u, hu, rfl⟩ := hg
    exact ⟨u, List.mem_append_left _ hu, rfl⟩
  have hnotNew {g : Option String} (hg : ∃ u ∈ db.transactions, g = some u.guid) :
      g ≠ some t.txn.guid := by
    obtain ⟨u, hu, rfl⟩ := hg
    exact fun heq => hfresh u hu (Option.some.inj heq)
  refine ⟨?_, h.packageIds, fun p hp => hin (h.sold p hp), fun p hp => ?_, fun p hp => ?_,
    List.forall_mem_append.2 ⟨h.sessions, List.forall_mem_singleton.2 hsessions⟩, ?_, ?_, ?_, ?_⟩
  · refine List.forall_mem_append.2 ⟨fun s hs => ?_, fun s hs => ?_⟩
    · obtain ⟨u, hu, hguid⟩ := h.owned s hs
      exact ⟨u, List.mem_append_left _ hu, hguid⟩
    · refine ⟨t.txn, List.mem_append_right _ (List.mem_singleton_self _), ?_⟩
      rcases List.mem_pair.1 hs with rfl | rfl <;> rfl
  · exact (congrArg Neg.neg (hkeep fun s hs => hother (h.sold p hp) hs.1)).trans (h.credited p hp)
  · refine List.forall_mem_append.2 ⟨h.sale p hp, List.forall_mem_singleton.2 ?_⟩
    exact (hnotNew (h.sold p hp)).symm
  · refine List.forall_mem_append.2 ⟨fun r hr => ?_, List.forall_mem_singleton.2 le_rfl⟩
    exact Nat.le_succ_of_le (h.redemptionIds r hr)
  · refine List.pairwise_append.2 ⟨h.apart, List.pairwise_singleton .., fun r hr r' hr' => ?_⟩
    obtain rfl := List.mem_singleton.1 hr'
    exact ⟨(Nat.lt_succ_of_le (h.redemptionIds r hr)).ne, hnotNew (h.redeemed r hr)⟩
  · refine List.forall_mem_append.2 ⟨fun r hr => hin (h.redeemed r hr), ?_⟩
    exact List.forall_mem_singleton.2 ⟨t.txn, by simp [addTxn, createRedemption], rfl⟩
  · refine List.forall_mem_append.2 ⟨fun r hr => ?_, List.forall_mem_singleton.2 ?_⟩
    · exact (hkeep fun s hs => hother (h.redeemed r hr) hs).trans (h.balanced r hr)
    · have hzero : total (fun s : Split => some t.txn.guid = some s.txGuid)
          (fun s => s.value.exact) db.splits = 0 :=
        total_eq_zero fun s hs heq => by
          obtain ⟨u, hu, hguid⟩ := h.owned s hs
          exact absurd (hguid.trans (Option.some.inj heq).symm) (hfresh u hu)
      change total (fun s : Split => some t.txn.guid = some s.txGuid) (fun s => s.value.exact)
        (db.splits ++ [t.debit, t.credit]) = 0
      have hdebit : some t.txn.guid = some t.debit.txGuid := rfl
      have hcredit : some t.txn.guid = some t.credit.txGuid := rfl
      rw [total_append, hzero, total_cons, total_cons, total_nil, if_pos hdebit, if_pos hcredit]
      have hneg : t.credit.value.exact = -t.debit.value.exact := by
        change ((fromDecimal (-t.amount) t.fraction).num : ℚ) / t.fraction =
          -((fromDecimal t.amount t.fraction).num / t.fraction)
        rw [hexact]
        push_cast
        ring
      rw [hneg]
      ring

theorem Booked.delete {r : RedemptionRow} (h : Booked db) (hr : r ∈ db.redemptions)
    (hguid : r.txnGuid = some guid) :
    Booked { removeTxn guid db with redemptions := db.redemptions.filter fun r' => r'.id ≠ r.id } := by
  have hmem {r' : RedemptionRow} (hr' : r' ∈ db.redemptions.filter fun r' => r'.id ≠ r.id) :
      r' ∈ db.redemptions ∧ r'.txnGuid ≠ some guid := by
    obtain ⟨hr', hid⟩ := List.mem_filter.1 hr'
    refine ⟨hr', fun heq => ?_⟩
    have hne : r' ≠ r := fun heq => by simp [heq] at hid
    have hsymm : Std.Symm fun x y : RedemptionRow => x.id ≠ y.id ∧ x.txnGuid ≠ y.txnGuid :=
      ⟨fun _ _ h => ⟨h.1.symm, h.2.symm⟩⟩
    exact (h.apart.forall hr' hr hne).2 (heq.trans hguid.symm)
  have hkeep {q : Split → Prop} [DecidablePred q] {g : Option String} (hg : g ≠ some guid)
      (hq : ∀ s, q s → g = some s.txGuid) :
      total q (fun s => s.value.exact) (db.splits.filter fun s => s.txGuid ≠ guid) =
        total q (fun s => s.value.exact) db.splits :=
    total_filter_of_imp (q := fun s : Split => s.txGuid ≠ guid)
      (fun s hs heq => hg ((hq s hs).trans (congrArg some heq))) _
  have hin {g : Option String} (hg : ∃ u ∈ db.transactions, g = some u.guid) (hne : g ≠ some guid) :
      ∃ u ∈ db.transactions.filter (fun u => u.guid ≠ guid), g = some u.guid := by
    obtain ⟨u, hu, rfl⟩ := hg
    exact ⟨u, List.mem_filter.2 ⟨hu, by simpa using hne⟩, rfl⟩
  have hsale {p : PackageRow} (hp : p ∈ db.packages) : p.saleTxnGuid ≠ some guid :=
    fun heq => h.sale p hp r hr (hguid.trans heq.symm)
  refine ⟨fun s hs => ?_, h.packageIds, fun p hp => hin (h.sold p hp) (hsale hp), fun p hp => ?_,
    fun p hp r' hr' => h.sale p hp r' (hmem hr').1, fun r' hr' => h.sessions r' (hmem hr').1,
    fun r' hr' => h.redemptionIds r' (hmem hr').1,
    h.apart.filter _, fun r' hr' => hin (h.redeemed r' (hmem hr').1) (hmem hr').2, fun r' hr' => ?_⟩
  · obtain ⟨hs, hne⟩ := List.mem_filter.1 hs
    obtain ⟨u, hu, hu'⟩ := h.owned s hs
    exact ⟨u, List.mem_filter.2 ⟨hu, by simpa [hu'] using hne⟩, hu'⟩
  · exact (congrArg Neg.neg (hkeep (hsale hp) fun s hs => hs.1)).trans (h.credited p hp)
  · exact (hkeep (hmem hr').2 fun s hs => hs).trans (h.balanced r' (hmem hr').1)

theorem Booked.frame (h : Booked db) (hf : Frame db db') : Booked db' := by
  have hcore {p : PackageRow} (hp : p ∈ db'.packages) : ∃ q ∈ db.packages, q.core = p.core :=
    exists_core hf.packages hp
  have htotal (inside : Bool) (a g : Option String) :
      txnTotal db' inside a g = txnTotal db inside a g := by rw [txnTotal, txnTotal, hf.splits]
  refine ⟨?_, ?_, fun p hp => ?_, fun p hp => ?_, fun p hp => ?_, ?_, ?_, ?_, ?_, ?_⟩
  · rw [hf.splits, hf.transactions]
    exact h.owned
  · have hids := congrArg (List.map PackageRow.id) hf.packages
    rw [List.map_map, List.map_map] at hids
    change db'.packages.map PackageRow.id = db.packages.map PackageRow.id at hids
    exact hids ▸ h.packageIds
  · obtain ⟨q, hq, heq⟩ := hcore hp
    rw [hf.transactions, show p.saleTxnGuid = q.saleTxnGuid from (congrArg PackageRow.saleTxnGuid heq).symm]
    exact h.sold q hq
  · obtain ⟨q, hq, heq⟩ := hcore hp
    rw [htotal, show p.saleTxnGuid = q.saleTxnGuid from (congrArg PackageRow.saleTxnGuid heq).symm,
      show p.liabilityAccountGuid = q.liabilityAccountGuid from
        (congrArg PackageRow.liabilityAccountGuid heq).symm,
      show p.price = q.price from (congrArg PackageRow.price heq).symm]
    exact h.credited q hq
  · obtain ⟨q, hq, heq⟩ := hcore hp
    rw [hf.redemptions, show p.saleTxnGuid = q.saleTxnGuid from (congrArg PackageRow.saleTxnGuid heq).symm]
    exact h.sale q hq
  · rw [hf.redemptions]
    exact h.sessions
  · rw [hf.redemptions, hf.lastRedemptionId]
    exact h.redemptionIds
  · rw [hf.redemptions]
    exact h.apart
  · rw [hf.redemptions, hf.transactions]
    exact h.redeemed
  · rw [hf.redemptions]
    intro r hr
    rw [Balanced, hf.splits]
    exact h.balanced r hr

/-! ## What the commits do -/

/-- What other requests leave of the books: the packages, and the redemptions that are not new. -/
structure Later (db db' : Db) : Prop where
  packages : db'.packages.map PackageRow.core = db.packages.map PackageRow.core
  redemptions : ∀ r ∈ db'.redemptions, r ∈ db.redemptions ∨ db.lastRedemptionId < r.id
  lastRedemptionId : db.lastRedemptionId ≤ db'.lastRedemptionId

def Rely (_ : Set Key) (db db' : Db) : Prop := Booked db → Booked db' ∧ Later db db'

theorem Later.refl : Later db db := ⟨rfl, fun _ hr => .inl hr, le_rfl⟩

theorem Later.trans (h : Later db db') (h' : Later db' db'') : Later db db'' where
  packages := h'.packages.trans h.packages
  redemptions r hr := by
    rcases h'.redemptions r hr with hr | hlt
    · exact h.redemptions r hr
    · exact .inr (h.lastRedemptionId.trans_lt hlt)
  lastRedemptionId := h.lastRedemptionId.trans h'.lastRedemptionId

theorem Rely.refl {L : Set Key} : Rely L db db := fun h => ⟨h, .refl⟩

theorem Rely.trans {L L' : Set Key} (h : Rely L db db') (h' : Rely L' db' db'') : Rely L db db'' := by
  intro hdb
  obtain ⟨hdb', hlater⟩ := h hdb
  obtain ⟨hdb'', hlater'⟩ := h' hdb'
  exact ⟨hdb'', hlater.trans hlater'⟩

instance (L : Set Key) : Std.Refl (Rely L) := ⟨fun _ => .refl⟩

theorem isTrans_rely (L : Set Key) : IsTrans Db (Rely L) := ⟨fun _ _ _ h h' => h.trans h'⟩

def CommitSpec (_ : Set Key) (a : Receipt) (db db' : Db) : Prop :=
  match a with
  | .redeemed pkg sessions =>
    1 ≤ sessions ∧ (∃ q ∈ db.packages, q.core = pkg.core) ∧ ∃ db₀ t date notes, Frame db db₀ ∧ t.Exact ∧
      (∀ u ∈ db₀.transactions, u.guid ≠ t.txn.guid) ∧
        db' = createRedemption pkg.id date sessions t.txn.guid notes (addTxn t db₀)
  | .deleted r =>
    r ∈ db.redemptions ∧ ∀ guid, r.txnGuid = some guid →
      db' = { removeTxn guid db with redemptions := db.redemptions.filter fun r' => r'.id ≠ r.id }

section Programs

variable {env : Env} {w : Db → Option Db} {L : Set Key}

def Framing (w : Db → Option Db) : Prop := ∀ x y, w x = some y → Frame x y

theorem framing_some : Framing some := by
  rintro x _ ⟨⟩
  exact .refl

theorem Framing.then {f : Db → Option Db} (hw : Framing w) (hf : Framing f) :
    Framing fun x => (w x).bind f := by
  intro x z hz
  obtain ⟨y, hy, hyz⟩ := Option.bind_eq_some_iff.1 hz
  exact (hw x y hy).trans (hf y z hyz)

theorem framing_insertAccount (a : Ledger.Account) : Framing (insertAccount a) := by
  intro x y h
  unfold insertAccount at h
  split_ifs at h
  cases h
  exact ⟨rfl, rfl, rfl, rfl, rfl⟩

theorem framing_setIncomeAccount (packageId : ℕ) (guid : String) :
    Framing fun x => some (setIncomeAccount packageId guid x) := by
  rintro x _ ⟨⟩
  refine ⟨rfl, rfl, rfl, rfl, ?_⟩
  refine map_editAt (g := PackageRow.core) ?_ x.packages
  exact fun _ => rfl

theorem wp_ensureFrom {currencyGuid : String} {accountType : Ledger.AccountType} {i : ℕ}
    {path : List String} {parentGuid : String}
    {Q : String → Set Key → (Db → Option Db) → Db → Prop} (hw : Framing w)
    (h : ∀ guid L' w' db', Framing w' → Rely L db db' → Q guid L' w' db') :
    (ensureFrom env currencyGuid accountType i path parentGuid).wp Rely (fun _ _ => true) Q L w db := by
  induction path generalizing i parentGuid L w db with
  | nil => exact h _ _ _ _ hw .refl
  | cons segment rest ih =>
    simp only [ensureFrom, wp_bind, wp_select, wp_onlyIf, wp_lock, wp_pure, wp_tryWrite]
    have hrest {L₂ : Set Key} {db₁ db₂ : Db} (h₁ : Rely L db db₁) (h₂ : Rely L db₁ db₂)
        (existing : Option Ledger.Account) (parent : String) :
        (existing = none → (ensureFrom env currencyGuid accountType (i + 1) rest parent).wp Rely
          (fun _ _ => true) Q L₂ (fun x => (w x).bind (insertAccount
            ⟨env.generateGuid i, segment, accountType, some currencyGuid, 100, some parentGuid⟩))
            db₂) ∧
        (¬existing = none → (ensureFrom env currencyGuid accountType (i + 1) rest parent).wp Rely
          (fun _ _ => true) Q L₂ w db₂) := by
      have hdb := h₁.trans h₂
      constructor
      · refine fun _ => ih (hw.then (framing_insertAccount _)) fun guid L' w' db' hw' h' => ?_
        exact h guid L' w' db' hw' (hdb.trans h')
      · refine fun _ => ih hw fun guid L' w' db' hw' h' => ?_
        exact h guid L' w' db' hw' (hdb.trans h')
    intro db₁ h₁ v hv
    refine ⟨fun _ db₂ h₂ db₃ h₃ v₃ hv₃ => ?_, fun _ db₂ h₂ v₂ hv₂ => ?_⟩
    · exact hrest h₁ (h₂.trans h₃) _ _
    · exact hrest h₁ h₂ _ _

theorem wp_incomeAccount {liabilityGuid : String}
    {Q : String → Set Key → (Db → Option Db) → Db → Prop}
    (h : ∀ guid L' w' db', Framing w' → Rely L db db' → Q guid L' w' db') :
    (incomeAccount env pkg liabilityGuid).wp Rely (fun _ _ => true) Q L some db := by
  unfold incomeAccount
  split
  · exact h _ _ _ _ framing_some .refl
  · simp only [wp_bind, wp_select, wp_expect]
    intro db₁ h₁ v₁ _ book _ db₂ h₂ v₂ _
    refine wp_ensureFrom framing_some fun guid L' w' db' hw' h' => ?_
    simp only [wp_bind, wp_write, wp_pure]
    refine h guid L' _ db' (hw'.then (framing_setIncomeAccount _ _)) ?_
    exact (h₁.trans h₂).trans h'

theorem Later.exists_core {bookGuid : String} (h : Later db db')
    (hp : (db.package? packageId).filter (fun p => p.bookGuid = bookGuid) = some p) :
    p.id = packageId ∧ ∃ q ∈ db'.packages, q.core = p.core := by
  obtain ⟨hfind, -⟩ := Option.filter_eq_some_iff.1 hp
  refine ⟨by simpa using List.find?_some hfind, ?_⟩
  exact Packages.exists_core h.packages.symm (List.mem_of_find?_eq_some hfind)

theorem wp_redeemSession
    (hdb : Booked db) : (redeemSession env packageId date sessions notes).wp Rely (fun _ _ => true)
      (Commits Rely CommitSpec) ∅ some db := by
  simp only [redeemSession, wp_bind, wp_require, wp_check, wp_select, wp_expect]
  rintro hsessions _ - db₁ h₁ _ ⟨⟩ pkg hpkg liabilityGuid - db₂ h₂ _ - -
  refine wp_incomeAccount fun incomeGuid L w db₃ hw h₃ => ?_
  simp only [wp_bind, wp_select, wp_expect, wp_tryWrite, wp_write, wp_pure]
  rintro db₄ h₄ _ - currencyGuid - db₅ h₅ v₅ hv₅ db₆ h₆ v₆ hv₆ x h₇ z hz
  obtain ⟨y, hy, hyz⟩ := Option.bind_eq_some_iff.1 hz
  obtain ⟨db₀, hx, hy⟩ := Option.bind_eq_some_iff.1 hy
  cases hyz
  obtain ⟨hdb₁, -⟩ := h₁ hdb
  obtain ⟨-, hlater⟩ := (h₂.trans (h₃.trans (h₄.trans (h₅.trans (h₆.trans h₇))))) hdb₁
  obtain ⟨hid, hcore⟩ := hlater.exists_core hpkg
  obtain ⟨hfresh, rfl⟩ := createTwoSplitTxn_eq_some hy
  refine ⟨hsessions, hcore, db₀, _, date, trimmedNotes notes, hw x db₀ hx, ?_, hfresh, by rw [hid]⟩
  exact TwoSplitTxn.exact_of_mul (exact_computeRedemptionAmount currencyFraction_ne_zero)

theorem mem_of_removeRedemption {x y : Db} {redemption : RedemptionRow} {id : ℕ}
    {f : Db → Db} (hdb : Booked db) (hlater : Later db x)
    (hread : db.redemption? id = some redemption) (hf : ∀ x, (f x).redemptions = x.redemptions)
    (hy : removeRedemption id (f x) = some y) :
    redemption ∈ x.redemptions ∧ redemption.id = id ∧
      y = { f x with redemptions := x.redemptions.filter fun r => r.id ≠ id } := by
  unfold removeRedemption at hy
  split_ifs at hy with hsome
  cases hy
  obtain ⟨r, hr⟩ := Option.isSome_iff_exists.1 hsome
  have hid : redemption.id = id := by simpa using List.find?_some hread
  have hrid : r.id = id := by simpa using List.find?_some hr
  have hmem : r ∈ x.redemptions := hf x ▸ List.mem_of_find?_eq_some hr
  have hread' := List.mem_of_find?_eq_some hread
  have hsame : r = redemption := by
    rcases hlater.redemptions r hmem with hold | hnew
    · by_contra hne
      have hsymm : Std.Symm fun x y : RedemptionRow => x.id ≠ y.id ∧ x.txnGuid ≠ y.txnGuid :=
        ⟨fun _ _ h => ⟨h.1.symm, h.2.symm⟩⟩
      exact (hdb.apart.forall hold hread' hne).1 (hrid.trans hid.symm)
    · have hle := hdb.redemptionIds redemption hread'
      omega
  exact ⟨hsame ▸ hmem, hid, by rw [hf]⟩

theorem wp_deleteTxn {txnGuid : Option String} {Q : Unit → Set Key → (Db → Option Db) → Db → Prop}
    (hnone : txnGuid = none → ∀ db', Rely L db db' → Q () L some db')
    (hsome : ∀ guid, txnGuid = some guid → ∀ db', Rely L db db' →
      Q () L (fun x => (some x).bind fun v => some (removeTxn guid v)) db') :
    (deleteTxn env txnGuid).wp Rely (fun _ _ => true) Q L some db := by
  cases txnGuid with
  | none => exact hnone rfl db .refl
  | some guid =>
    simp only [deleteTxn, wp_bind, wp_select, wp_check, wp_write]
    rintro db₁ h₁ _ - _ - db₂ h₂ _ - _ -
    exact hsome guid rfl db₂ (h₁.trans h₂)

theorem wp_deleteRedemption {redemptionId : ℕ} (hdb : Booked db) :
    (deleteRedemption env redemptionId).wp Rely (fun _ _ => true) (Commits Rely CommitSpec) ∅ some
      db := by
  simp only [deleteRedemption, wp_bind, wp_select, wp_expect]
  rintro db₁ h₁ _ ⟨⟩ redemption hread
  obtain ⟨hdb₁, -⟩ := h₁ hdb
  obtain ⟨hread, -⟩ := Option.filter_eq_some_iff.1 hread
  refine wp_deleteTxn (fun hnone db₂ h₂ => ?_) fun guid hguid db₂ h₂ => ?_
  · simp only [wp_bind, wp_tryWrite, wp_pure]
    intro x h₃ y hy
    obtain ⟨hmem, hid, rfl⟩ := mem_of_removeRedemption (f := fun x => x) hdb₁ ((h₂.trans h₃) hdb₁).2
      hread (fun _ => rfl) hy
    exact ⟨hmem, fun guid hguid => by cases hnone.symm.trans hguid⟩
  · simp only [wp_bind, wp_tryWrite, wp_pure]
    intro x h₃ y hy
    obtain ⟨hmem, hid, rfl⟩ := mem_of_removeRedemption (f := removeTxn guid) hdb₁
      ((h₂.trans h₃) hdb₁).2 hread (fun _ => rfl) hy
    refine ⟨hmem, fun guid' hguid' => ?_⟩
    cases hguid.symm.trans hguid'
    rw [hid]

theorem good_serve {I : Db → Prop} (hI : ∀ db, I db → Booked db) (req : Request) :
    (serve req).Good Rely (fun _ _ => true) I CommitSpec := by
  cases req with
  | redeemSession env packageId date sessions notes =>
    exact ⟨fun db hdb => wp_redeemSession (hI db hdb), fun _ => trivial⟩
  | deleteRedemption env redemptionId =>
    exact ⟨fun db hdb => wp_deleteRedemption (hI db hdb), fun _ => trivial⟩

end Programs

/-! ## What a commit leaves -/

variable {L : Set Key} {a : Receipt}

theorem booked_of_commit (hdb : Booked db) (h : CommitSpec L a db db') : Booked db' ∧ Later db db' := by
  cases a with
  | redeemed pkg sessions =>
    obtain ⟨hsessions, -, db₀, t, date, notes, hframe, hexact, hfresh, rfl⟩ := h
    refine ⟨(hdb.frame hframe).redeem hsessions hexact hfresh, hframe.packages, fun r hr => ?_, ?_⟩
    · rcases List.mem_append.1 hr with hr | hr
      · exact .inl (hframe.redemptions ▸ hr)
      · obtain rfl := List.mem_singleton.1 hr
        exact .inr (hframe.lastRedemptionId ▸ Nat.lt_succ_self _)
    · exact hframe.lastRedemptionId ▸ Nat.le_succ _
  | deleted r =>
    obtain ⟨hr, hdel⟩ := h
    obtain ⟨t, ht, hguid⟩ := hdb.redeemed r hr
    rw [hdel t.guid hguid]
    exact ⟨hdb.delete hr hguid, rfl, fun r' hr' => .inl (List.mem_filter.1 hr').1, le_rfl⟩

theorem Booked.eq_of_id {p q : PackageRow} (h : Booked db) (hp : p ∈ db.packages)
    (hq : q ∈ db.packages) (hid : p.id = q.id) : p = q :=
  List.inj_on_of_nodup_map h.packageIds hp hq hid

theorem redeemedSessions_redeem {db₀ : Db} {id : ℕ} (hframe : Frame db db₀) :
    redeemedSessions (createRedemption packageId date sessions t.txn.guid notes (addTxn t db₀)) id =
      redeemedSessions db id + if packageId = id then sessions else 0 := by
  have hrows : (createRedemption packageId date sessions t.txn.guid notes (addTxn t db₀)).redemptions =
      db.redemptions ++ [⟨db₀.lastRedemptionId + 1, packageId, date, sessions, some t.txn.guid, notes⟩] := by
    rw [← hframe.redemptions]
    rfl
  unfold redeemedSessions Db.redemptionsOf
  rw [hrows, List.filter_append, List.map_append, List.sum_append]
  by_cases h : packageId = id <;> simp [h]

theorem stillRemaining_of_within (hdb : Booked db)
    (h : CommitSpec L (.redeemed pkg sessions) db db') (hwithin : Within db') :
    StillRemaining L (.redeemed pkg sessions) db db' := by
  have hpackages := (booked_of_commit hdb h).2.packages
  obtain ⟨-, ⟨q, hq, hcore⟩, db₀, t, date, notes, hframe, hexact, hfresh, rfl⟩ := h
  obtain ⟨p, hp, hpq⟩ := exists_core hpackages.symm hq
  have hid : p.id = pkg.id := PackageRow.id_of_core (hpq.trans hcore)
  have htotal : p.sessionsTotal = pkg.sessionsTotal :=
    PackageRow.sessionsTotal_of_core (hpq.trans hcore)
  have hle := hwithin p hp
  rw [redeemedSessions_redeem hframe, hid, htotal, if_pos rfl] at hle
  exact le_sub_iff_add_le'.2 hle

theorem within_of_redeemed (hdb : Booked db)
    (h : CommitSpec L (.redeemed pkg sessions) db db') (hwithin : Within db)
    (hremaining : StillRemaining L (.redeemed pkg sessions) db db') : Within db' := by
  have hpackages := (booked_of_commit hdb h).2.packages
  obtain ⟨-, ⟨q, hq, hcore⟩, db₀, t, date, notes, hframe, hexact, hfresh, rfl⟩ := h
  intro p hp
  obtain ⟨p', hp', hpp'⟩ := exists_core hpackages hp
  have hle := hwithin p' hp'
  rw [redeemedSessions_redeem hframe, ← PackageRow.id_of_core hpp',
    ← PackageRow.sessionsTotal_of_core hpp']
  split_ifs with hid
  · have hqid : q.id = pkg.id := PackageRow.id_of_core hcore
    obtain rfl := hdb.eq_of_id hp' hq (hid.symm.trans hqid.symm)
    change sessions ≤ pkg.sessionsTotal - redeemedSessions db pkg.id at hremaining
    rw [hid, ← PackageRow.sessionsTotal_of_core hcore] at hremaining
    exact le_sub_iff_add_le'.1 hremaining
  · rwa [add_zero]

theorem within_of_deleted {r : RedemptionRow} (hdb : Booked db)
    (h : CommitSpec L (.deleted r) db db') (hwithin : Within db) : Within db' := by
  obtain ⟨hr, hdel⟩ := h
  obtain ⟨t, ht, hguid⟩ := hdb.redeemed r hr
  rw [hdel t.guid hguid]
  refine fun p hp => le_trans ?_ (hwithin p hp)
  have hsub : (db.redemptions.filter fun r' => r'.id ≠ r.id).Sublist db.redemptions :=
    List.filter_sublist
  have hrows := (hsub.filter fun r' => r'.packageId = p.id).map RedemptionRow.sessions
  refine hrows.sum_le_sum fun n hn => ?_
  obtain ⟨r', hr', rfl⟩ := List.mem_map.1 hn
  have hpos := hdb.sessions r' (List.mem_filter.1 hr').1
  omega

/-- In every interleaving, the commits keep every package exactly when each redemption, as it
commits, still finds its sessions remaining. -/
theorem kept_iff (steps : List PackageStep) (db : Db) (hdb : Booked db) (hwithin : Within db) :
    Along next (AtCommit Kept) steps (start db) ↔
      Along next (AtCommit StillRemaining) steps (start db) := by
  constructor
  · refine along_atCommit isTrans_rely (good_serve fun _ h => h) (fun _ _ _ _ hdb h _ => ?_)
      (fun L a db db' hdb h hkept => ?_) hdb
    · exact ⟨(booked_of_commit hdb h).1, fun _ _ _ => booked_of_commit hdb h⟩
    · have hwithin' := (booked_of_commit hdb h).1.kept_iff_within.1 hkept
      cases a with
      | redeemed pkg sessions => exact stillRemaining_of_within hdb h hwithin'
      | deleted r => trivial
  · have hkeeps {L : Set Key} {a : Receipt} {db db' : Db} (hI : Booked db ∧ Within db)
        (h : CommitSpec L a db db') (hremaining : StillRemaining L a db db') :
        Booked db' ∧ Within db' := by
      refine ⟨(booked_of_commit hI.1 h).1, ?_⟩
      cases a with
      | redeemed pkg sessions => exact within_of_redeemed hI.1 h hI.2 hremaining
      | deleted r => exact within_of_deleted hI.1 h hI.2
    refine along_atCommit isTrans_rely (good_serve (I := fun db => Booked db ∧ Within db) fun _ h => h.1)
      (fun _ _ _ _ hI h hC => ⟨hkeeps hI h hC, fun _ _ _ => booked_of_commit hI.1 h⟩)
      (fun _ _ _ _ hI h hC => ?_) ⟨hdb, hwithin⟩
    obtain ⟨hdb', hwithin'⟩ := hkeeps hI h hC
    exact hdb'.kept_iff_within.2 hwithin'

/-! ## Two redemptions at once -/

def soldPackage : Db where
  accounts := [⟨"bank", "Bank", .bank, some "usd", 100, some "root"⟩,
    ⟨"unearned", "Packages", .liability, some "usd", 100, some "root"⟩,
    ⟨"income", "Package Revenue", .income, some "usd", 100, some "root"⟩]
  transactions := [⟨"sale", "usd", "", some 0, some 0, some "Package sale: Trio"⟩]
  splits := [newSplit "s1" "sale" "bank" "" ⟨10000, 100⟩, newSplit "s2" "sale" "unearned" "" ⟨-10000, 100⟩]
  settings := []
  books := [⟨"book", "root"⟩]
  commodities := [⟨"usd", 100⟩]
  packages := [⟨1, "book", "Trio", 3, 100, some "unearned", some "income", some "sale"⟩]
  redemptions := []
  lastRedemptionId := 0

/-- A request whose transaction and splits get the given guids. -/
def envWith (guids : List String) : Env :=
  ⟨"book", ["bank", "unearned", "income"], none, 0, fun i => guids.getD i ""⟩

def redeemTwo (k : ℕ) (guids : List String) : PackageStep :=
  .call k (.redeemSession (envWith guids) 1 0 2 none)

theorem booked_soldPackage : Booked soldPackage where
  owned := by decide
  packageIds := by decide
  sold := by decide
  credited := by decide +kernel
  sale := by decide
  sessions := by decide
  redemptionIds := by decide
  apart := by decide
  redeemed := by decide
  balanced := by simp [soldPackage]

/-- Two sessions are redeemed, the redemption is deleted, and two are redeemed again. -/
def redeemedAgain : List PackageStep :=
  redeemTwo 0 ["t1", "a1", "b1"] :: List.replicate 8 (Step.advance 0) ++
    Step.call 1 (.deleteRedemption (envWith []) 1) :: List.replicate 6 (Step.advance 1) ++
      redeemTwo 2 ["t2", "a2", "b2"] :: List.replicate 8 (Step.advance 2)

/-- Two redemptions of two sessions each count the sessions before one of them commits. -/
def bothCount : List PackageStep :=
  redeemTwo 0 ["t1", "a1", "b1"] :: List.replicate 2 (Step.advance 0) ++
    redeemTwo 1 ["t2", "a2", "b2"] :: List.replicate 2 (Step.advance 1) ++
      List.replicate 6 (Step.advance 0) ++ List.replicate 6 (Step.advance 1)

theorem kept_redeemedAgain :
    (run next redeemedAgain (start soldPackage)).isSome ∧
      (Along next (AtCommit Kept) redeemedAgain (start soldPackage) ↔
        Along next (AtCommit StillRemaining) redeemedAgain (start soldPackage)) :=
  ⟨by decide +kernel, kept_iff redeemedAgain soldPackage booked_soldPackage (by
    unfold Within
    decide)⟩

/-- Four sessions of three are redeemed. -/
theorem kept_bothCount_false : ¬Along next (AtCommit Kept) bothCount (start soldPackage) := by
  decide +kernel

end Packages
