import GnucashWeb.Inventory.Stock
import Mathlib.Algebra.Order.BigOperators.Group.List

/-!
# Whether stock postings balance

`writeLedgerTxn` rounds every split by itself, halves up.  A debit with the equal credits balances
exactly when the excesses of the credits add up to more than `-1/2` and to at most `1/2`
(`sum_num_eq_zero_iff`); for a single credit, when its amount is not an odd number of half units.
The main result is `transaction_posts`: the transactions of an operation all balance exactly when
the amounts it posts round evenly.
-/

open Ledger Transact Rounding
open Business (Host)

namespace Inventory

/-! ## A debit and its credits -/

/-- The excesses of the credited amounts, in currency units, over their nearest units. -/
def creditExcess (fraction : ℕ) (credits : List ℚ) : ℚ :=
  ((credits.map fun c => -c * (fraction : ℚ)).map excess).sum

def CreditsRound (fraction : ℕ) (credits : List ℚ) : Prop :=
  -1 / 2 < creditExcess fraction credits ∧ creditExcess fraction credits ≤ 1 / 2

theorem sum_num_eq_zero_iff (fraction : ℕ) (credits : List ℚ) :
    (fromDecimal credits.sum fraction).num +
        (credits.map fun c => (fromDecimal (-c) fraction).num).sum = 0 ↔
      CreditsRound fraction credits := by
  have hnum : ∀ x : ℚ, (fromDecimal x fraction).num = round (x * (fraction : ℚ)) := by
    intro x
    rw [fromDecimal, Int.cast_natCast, Business.mathRound_eq_round]
  have hcredits : (credits.map fun c => (fromDecimal (-c) fraction).num).sum =
      ((credits.map fun c => -c * (fraction : ℚ)).map round).sum := by
    rw [List.map_map]
    congr 1
    apply List.map_congr_left
    intro c _
    exact hnum _
  have hdebit : credits.sum * (fraction : ℚ) =
      -creditExcess fraction credits +
        ((-((credits.map fun c => -c * (fraction : ℚ)).map round).sum : ℤ) : ℚ) := by
    have hsum : (credits.map fun c => -c * (fraction : ℚ)).sum =
        -(credits.sum * (fraction : ℚ)) := by
      clear hcredits
      induction credits with
      | nil => simp
      | cons c rest ih =>
        rw [List.map_cons, List.sum_cons, ih, List.sum_cons]
        ring
    have := sum_eq_sum_round_add (credits.map fun c => -c * (fraction : ℚ))
    rw [hsum] at this
    rw [creditExcess, Int.cast_neg]
    linarith
  rw [hnum, hdebit, round_add_intCast, hcredits]
  have hzero : ∀ m n : ℤ, m + -n + n = 0 ↔ m = 0 := by
    intro m n
    omega
  rw [hzero, round_eq_zero_iff, Set.mem_Ico, CreditsRound]
  constructor
  · rintro ⟨h₁, h₂⟩
    exact ⟨by linarith, by linarith⟩
  · rintro ⟨h₁, h₂⟩
    exact ⟨by linarith, by linarith⟩

theorem creditsRound_nil (fraction : ℕ) : CreditsRound fraction [] := by
  constructor <;> norm_num [creditExcess]

/-! ## The transactions of an operation -/

/-- Whether the value numerators of some splits add up to zero. -/
def Balanced (splits : List Split) : Prop := (splits.map fun s => s.value.num).sum = 0

/-- What is posted: new transactions, each with its own splits, that all balance exactly when a
condition holds. -/
def Posts (db db' : Db) (p : Prop) : Prop :=
  ∃ (txns : List Business.Txn) (groups : List (List Split)),
    db'.ledger.transactions = db.ledger.transactions ++ txns ∧
    db'.ledger.splits = db.ledger.splits ++ groups.flatten ∧
    List.Forall₂ (fun t g => ∀ s ∈ g, s.txGuid = t.guid) txns groups ∧
    ((∀ g ∈ groups, Balanced g) ↔ p)

theorem posts_of_ledger_eq {db db' : Db} (h : db'.ledger = db.ledger) : Posts db db' True :=
  ⟨[], [], by simp [h], by simp [h], List.Forall₂.nil, by simp⟩

theorem Posts.congr {db db' : Db} {p q : Prop} (h : Posts db db' p) (hpq : p ↔ q) :
    Posts db db' q := by
  obtain ⟨txns, groups, ht, hs, hg, hb⟩ := h
  exact ⟨txns, groups, ht, hs, hg, hb.trans hpq⟩

theorem Posts.trans {db db₁ db' : Db} {p q : Prop} (h₁ : Posts db db₁ p) (h₂ : Posts db₁ db' q) :
    Posts db db' (p ∧ q) := by
  obtain ⟨txns₁, groups₁, ht₁, hs₁, hg₁, hb₁⟩ := h₁
  obtain ⟨txns₂, groups₂, ht₂, hs₂, hg₂, hb₂⟩ := h₂
  refine ⟨txns₁ ++ txns₂, groups₁ ++ groups₂, ?_, ?_, List.rel_append hg₁ hg₂, ?_⟩
  · rw [ht₂, ht₁, List.append_assoc]
  · rw [hs₂, hs₁, List.flatten_append, List.append_assoc]
  · rw [← hb₁, ← hb₂]
    simp only [List.mem_append]
    constructor
    · exact fun h => ⟨fun g hg => h g (Or.inl hg), fun g hg => h g (Or.inr hg)⟩
    · rintro ⟨h, h'⟩ g (hg | hg)
      · exact h g hg
      · exact h' g hg

theorem Posts.then {db db₁ db' : Db} {p : Prop} (h : Posts db db₁ p)
    (hledger : db'.ledger = db₁.ledger) : Posts db db' p :=
  (h.trans (posts_of_ledger_eq hledger)).congr (by simp)

/-- The amounts credited round evenly in the currency of an account. -/
def Db.RoundsEvenly (db : Db) (accountGuid : String) (credits : List ℚ) : Prop :=
  ∀ currency, db.resolvePostingCurrency accountGuid = .ok currency →
    CreditsRound currency.2 credits

/-- The splits of a posting: a debit of the sum of some credits. -/
def postingSplits (debit memo : String) (credits : List (String × ℚ)) : List SplitSpec :=
  ⟨debit, (credits.map Prod.snd).sum, memo⟩ :: credits.map fun c => ⟨c.1, -c.2, memo⟩

theorem twoSplits_eq (debit credit : String) (amount : ℚ) (memo : String) :
    twoSplits debit credit amount memo = postingSplits debit memo [(credit, amount)] := by
  simp [twoSplits, postingSplits]

theorem posts_writeLedgerTxn {host : Host} {date description debit memo : String}
    {credits : List (String × ℚ)} {db db' : Db} {r : Option String}
    (h : Completes (writeLedgerTxn host date description (postingSplits debit memo credits)) db r
      db') : Posts db db' (db.RoundsEvenly debit (credits.map Prod.snd)) := by
  unfold writeLedgerTxn at h
  rw [completes_get_bind] at h
  simp only [completes_bind, completes_liftExcept, found_eq_ok, completes_ite, completes_pure,
    completes_onLedger] at h
  obtain ⟨first, _, ⟨hfirst, rfl⟩, _, _, ⟨-, rfl⟩, currency, db, ⟨hcurrency, rfl⟩, h⟩ := h
  have hnum : ∀ fraction : ℕ, ((postingSplits debit memo credits).map fun s =>
      (fromDecimal s.value fraction).num).sum = 0 ↔
        CreditsRound fraction (credits.map Prod.snd) := by
    intro fraction
    rw [← sum_num_eq_zero_iff]
    simp [postingSplits, Function.comp_def]
  obtain rfl : debit = first.accountGuid := by
    rw [postingSplits, List.head?_cons, Option.some.injEq] at hfirst
    rw [← hfirst]
  have hrounds : CreditsRound currency.2 (credits.map Prod.snd) ↔
      db.RoundsEvenly first.accountGuid (credits.map Prod.snd) := by
    simp [Db.RoundsEvenly, hcurrency]
  rw [← hrounds, ← hnum]
  rcases h with ⟨hzero, -, rfl⟩ | ⟨-, postDate, _, ⟨-, rfl⟩, txnGuid, _, ⟨_, hguid, rfl⟩, _, _,
    ⟨_, htxn, rfl⟩, _, _, ⟨_, hslot, rfl⟩, _, _, ⟨_, hsplits, rfl⟩, -, rfl⟩
  · apply (posts_of_ledger_eq rfl).congr
    refine iff_of_true trivial (List.sum_eq_zero ?_)
    intro n hn
    obtain ⟨s, hs, rfl⟩ := List.mem_map.1 hn
    exact hzero s hs
  · obtain ⟨-, rfl⟩ := Business.completes_generateGuid.1 hguid
    obtain ⟨-, rfl⟩ := Business.completes_createTransaction.1 htxn
    obtain rfl := Business.completes_createSlot.1 hslot
    obtain rfl := Business.completes_createSplits.1 hsplits
    refine ⟨[_], [_], rfl, by rw [List.flatten_singleton], ?_, ?_⟩
    · refine List.Forall₂.cons ?_ List.Forall₂.nil
      intro s hs
      obtain ⟨spec, -, guid, rfl⟩ := Business.mem_splitRows hs
      rfl
    · simp only [List.mem_singleton, forall_eq, Balanced]
      rw [Business.map_splitRows (fun s => s.value.num)
        (fun spec => (fromDecimal spec.value currency.2).num) fun _ _ => rfl]

/-! ## Single postings -/

section Postings

variable {host : Host} {db db' : Db}

theorem posts_checked {date description debit credit memo : String} {amount : ℚ}
    {x y : Db → Except Failure Unit} {r : Option String}
    (h : Completes (do
      let db ← get
      liftM (x db)
      liftM (y db)
      writeLedgerTxn host date description (twoSplits debit credit amount memo) : Tx _) db r db') :
    Posts db db' (db.RoundsEvenly debit [amount]) := by
  rw [completes_get_bind] at h
  simp only [completes_bind, completes_liftExcept, twoSplits_eq] at h
  obtain ⟨_, _, ⟨-, rfl⟩, _, _, ⟨-, rfl⟩, h⟩ := h
  exact posts_writeLedgerTxn h

/-- The posted cost rounds evenly on the cost account of an item. -/
def CogsRounds (db : Db) (item : Item) (post : Option Bool) (cost : ℚ) : Prop :=
  post ≠ some false → ∀ cogs ∈ item.cogsAccountGuid, db.RoundsEvenly cogs [cost]

theorem posts_maybePostCogs {item : Item} {bookGuid : String} {positiveQty : ℚ} {date : String}
    {post : Option Bool} {reference : Option String} {unitCost : ℚ} {r : Option String}
    (h : Completes (maybePostCogs host item bookGuid positiveQty date post reference unitCost) db r
      db') : Posts db db' (CogsRounds db item post (positiveQty * unitCost)) := by
  unfold maybePostCogs at h
  rcases completes_ite.1 h with ⟨hpost, h⟩ | ⟨hpost, h⟩
  · obtain ⟨-, rfl⟩ := completes_pure.1 h
    exact (posts_of_ledger_eq rfl).congr (by simp [CogsRounds, hpost])
  · split at h
    · next cogs asset _ hcogs _ => exact (posts_checked h).congr (by simp [CogsRounds, hpost, hcogs])
    · exact (completes_throw.1 h).elim

/-- The posted return rounds evenly on the asset account of an item. -/
def ReturnRounds (db : Db) (item : Item) (post : Option Bool) (cost : ℚ) : Prop :=
  post.getD false = true → ∀ asset ∈ item.assetAccountGuid, db.RoundsEvenly asset [cost]

theorem posts_maybePostReturn {item : Item} {bookGuid : String} {positiveQty : ℚ} {date : String}
    {post : Option Bool} {reference : Option String} {unitCost : ℚ} {estimatedBasis : Bool}
    {r : Option String}
    (h : Completes (maybePostReturn host item bookGuid positiveQty date post reference unitCost
      estimatedBasis) db r db') :
    Posts db db' (ReturnRounds db item post (positiveQty * unitCost)) := by
  unfold maybePostReturn at h
  rcases completes_ite.1 h with ⟨hpost, h⟩ | ⟨hpost, h⟩
  · obtain ⟨-, rfl⟩ := completes_pure.1 h
    exact (posts_of_ledger_eq rfl).congr (by simp [ReturnRounds, hpost])
  · split at h
    · next cogs asset _ hasset =>
        exact (posts_checked h).congr (by simp [ReturnRounds, hpost, hasset])
    · exact (completes_throw.1 h).elim

theorem posts_postReceive {input : ReceiveInput} {item : Item} {date : String} {r : Option String}
    (h : Completes (postReceive host input item date) db r db') :
    Posts db db' (input.post = true → ∀ asset ∈ item.assetAccountGuid,
      db.RoundsEvenly asset [input.quantity * input.unitCost.getD 0]) := by
  unfold postReceive at h
  rcases completes_ite.1 h with ⟨hpost, h⟩ | ⟨hpost, h⟩
  · obtain ⟨-, rfl⟩ := completes_pure.1 h
    exact (posts_of_ledger_eq rfl).congr (by simp [hpost])
  · split at h
    · next asset offset hasset _ => exact (posts_checked h).congr (by simp [hpost, hasset])
    · exact (completes_throw.1 h).elim
    · exact (completes_throw.1 h).elim

def AssemblyRounds (db : Db) (input : AssembleInput) (output : Item) (plan : AssemblyPlan) : Prop :=
  input.post = true → ∀ asset ∈ output.assetAccountGuid, db.RoundsEvenly asset
    ((db.transferredCosts input.bookGuid asset plan.consumptions).map Prod.snd)

theorem transferredCosts_pos {bookGuid asset : String} {consumptions : List Consumption}
    {c : String × ℚ} (h : c ∈ db.transferredCosts bookGuid asset consumptions) : 0 < c.2 := by
  obtain ⟨consumption, -, h⟩ := List.mem_filterMap.1 h
  split at h
  · split at h
    · next hpos =>
        cases h
        exact hpos.2
    · cases h
  · cases h

theorem posts_postAssembly {input : AssembleInput} {bom : Bom} {output : Item}
    {date reference : String} {plan : AssemblyPlan} {r : Option String}
    (h : Completes (postAssembly host input bom output date reference plan) db r db') :
    Posts db db' (AssemblyRounds db input output plan) := by
  unfold postAssembly at h
  rw [completes_get_bind] at h
  split at h
  · next outputAsset hpost hasset =>
      have hrounds : AssemblyRounds db input output plan ↔ db.RoundsEvenly outputAsset
          ((db.transferredCosts input.bookGuid outputAsset plan.consumptions).map Prod.snd) := by
        simp [AssemblyRounds, hpost, hasset]
      dsimp only at h
      rcases completes_ite.1 h with ⟨-, h⟩ | ⟨hnone, h⟩
      · simp only [completes_bind, completes_liftExcept] at h
        obtain ⟨_, db, ⟨-, rfl⟩, _, _, hchecks, h⟩ := h
        rw [hchecks.forM_checks] at h
        exact (posts_writeLedgerTxn h).congr hrounds.symm
      · obtain ⟨-, rfl⟩ := completes_pure.1 h
        apply (posts_of_ledger_eq rfl).congr
        refine iff_of_true trivial (hrounds.2 ?_)
        have hnil : db'.transferredCosts input.bookGuid outputAsset plan.consumptions = [] := by
          by_contra hne
          apply hnone
          refine ⟨hne, List.sum_pos _ ?_ (by simpa using hne)⟩
          intro cost hcost
          obtain ⟨c, hc, rfl⟩ := List.mem_map.1 hcost
          exact transferredCosts_pos hc
        rw [hnil]
        exact fun _ _ => creditsRound_nil _
  · next hnone =>
      obtain ⟨-, rfl⟩ := completes_pure.1 h
      apply (posts_of_ledger_eq rfl).congr
      refine iff_of_true trivial ?_
      intro hpost asset hasset
      exact (hnone asset hpost hasset).elim

/-! ## Operations -/

theorem ledger_of_insertMovement {m : ℕ → Movement} {r : Movement}
    (h : Completes (insertMovement m) db r db') : db'.ledger = db.ledger := by
  obtain ⟨-, rfl⟩ := completes_insertMovement.1 h
  rfl

theorem ledger_of_storeAvgCost {item : Item} {newAvg : ℚ} {u : Unit}
    (h : Completes (storeAvgCost item newAvg) db u db') : db'.ledger = db.ledger := by
  rcases completes_onlyIf.1 h with ⟨-, h⟩ | ⟨-, rfl⟩
  · obtain rfl := completes_updateItemAvgCost.1 h
    rfl
  · rfl

theorem posts_receiveStock {input : ReceiveInput} {r : MovementResult}
    (h : Completes (receiveStock host input) db r db') :
    ∃ item, db.lockItem input.bookGuid input.itemId = .ok item ∧
      Posts db db' (input.post = true → ∀ asset ∈ item.assetAccountGuid,
        db.RoundsEvenly asset [input.quantity * input.unitCost.getD 0]) := by
  unfold receiveStock at h
  simp only [completes_bind, completes_liftExcept] at h
  obtain ⟨_, _, ⟨-, rfl⟩, date, _, ⟨-, rfl⟩, _, _, ⟨-, rfl⟩, _, _, ⟨-, rfl⟩, _, _,
    ⟨-, rfl⟩, _, _, hget, item, _, ⟨hitem, rfl⟩, _, _, ⟨-, rfl⟩, txnGuid, db₁, hpost, _, db₂, havg,
    movement, db₃, hinsert, hresult⟩ := h
  obtain ⟨-, rfl⟩ := completes_pure.1 hresult
  obtain ⟨rfl, rfl⟩ := completes_get.1 hget
  exact ⟨item, hitem, (posts_postReceive hpost).then
    ((ledger_of_insertMovement hinsert).trans (ledger_of_storeAvgCost havg))⟩

theorem posts_shipStock {input : ShipInput} {r : MovementResult}
    (h : Completes (shipStock host input) db r db') :
    ∃ item cost, db.lockItem input.bookGuid input.itemId = .ok item ∧
      db.consumptionUnitCost item input.quantity = .ok cost ∧
      Posts db db' (CogsRounds db item input.post (input.quantity * cost)) := by
  unfold shipStock at h
  simp only [completes_bind, completes_liftExcept] at h
  obtain ⟨_, _, ⟨-, rfl⟩, date, _, ⟨-, rfl⟩, _, _, hget, item, _, ⟨hitem, rfl⟩, _, _,
    ⟨-, rfl⟩, _, _, ⟨-, rfl⟩, cost, _, ⟨hcost, rfl⟩, txnGuid, db₁, hpost, movement, db₂, hinsert,
    hresult⟩ := h
  obtain ⟨-, rfl⟩ := completes_pure.1 hresult
  obtain ⟨rfl, rfl⟩ := completes_get.1 hget
  exact ⟨item, cost, hitem, hcost, (posts_maybePostCogs hpost).then
    (ledger_of_insertMovement hinsert)⟩

theorem ledger_of_adjustStock {input : AdjustInput} {r : MovementResult}
    (h : Completes (adjustStock host input) db r db') : db'.ledger = db.ledger := by
  unfold adjustStock at h
  simp only [completes_bind, completes_liftExcept, completes_ite] at h
  obtain ⟨_, _, ⟨-, rfl⟩, date, _, ⟨-, rfl⟩, _, _, ⟨-, rfl⟩, _, _, hget, item, _,
    ⟨-, rfl⟩, _, _, ⟨-, rfl⟩, h⟩ := h
  obtain ⟨rfl, rfl⟩ := completes_get.1 hget
  rcases h with ⟨-, _, _, ⟨-, rfl⟩, _, db₁, havg, _, _, ⟨-, rfl⟩, _, _, hinsert, hresult⟩ |
    ⟨-, _, db₁, havg, _, _, ⟨-, rfl⟩, _, _, hinsert, hresult⟩ <;>
  · obtain ⟨-, rfl⟩ := completes_pure.1 hresult
    exact (ledger_of_insertMovement hinsert).trans (ledger_of_storeAvgCost havg)

theorem ledger_of_transferStock {input : TransferInput} {r : TransferResult}
    (h : Completes (transferStock host input) db r db') : db'.ledger = db.ledger := by
  obtain ⟨_, _, _, _, _, _, _, -, -, h₁, h₂, h₃, -⟩ := transferStock_inserts h
  obtain rfl := completes_setCounterpart.1 h₃
  exact (ledger_of_insertMovement h₂).trans (ledger_of_insertMovement h₁)

theorem ledger_of_consumeAll {input : AssembleInput} {date reference : String}
    {txnGuid : Option String} {consumptions : List Consumption} {rs : List Movement}
    (h : Completes (consumptions.mapM (consumeOne input date reference txnGuid)) db rs db') :
    db'.ledger = db.ledger := by
  refine h.mapM_induction (R := fun _ s t => t.ledger = s.ledger) (fun _ => rfl) ?_
  intro c rest movement s t u hc hrest
  unfold consumeOne at hc
  simp only [completes_bind, completes_liftExcept] at hc
  obtain ⟨_, _, hget, component, _, ⟨-, rfl⟩, hinsert⟩ := hc
  obtain ⟨rfl, rfl⟩ := completes_get.1 hget
  exact hrest.trans (ledger_of_insertMovement hinsert)

/-- The plan of an assembly, computed from the tables before it. -/
def Db.assemblyPlan (db : Db) (input : AssembleInput) (bom : Bom) : Except Failure AssemblyPlan := do
  let specs ← bom.lines.mapM (db.componentSpec input)
  ofCost (computeAssemblyCost specs input.batches bom.outputQuantity)

theorem posts_assembleBom {input : AssembleInput} {r : AssembleResult}
    (h : Completes (assembleBom host input) db r db') :
    ∃ bom output plan, db.findBom input.bookGuid input.bomId = .ok bom ∧
      db.lockedItem input.bookGuid bom.itemId = .ok output ∧
      db.assemblyPlan input bom = .ok plan ∧ Posts db db' (AssemblyRounds db input output plan) := by
  unfold assembleBom at h
  simp only [completes_bind, completes_liftExcept] at h
  obtain ⟨date, _, ⟨-, rfl⟩, _, _, hget, bom, _, ⟨hbom, rfl⟩, _, _, ⟨-, rfl⟩, _, _, ⟨-, rfl⟩, output,
    _, ⟨houtput, rfl⟩, specs, _, ⟨hspecs, rfl⟩, plan, _, ⟨hplan, rfl⟩, txnGuid, db₁, hpost, consumed,
    db₂, hconsume, _, _, hafter, _, db₃, havg, produced, db₄, hinsert, hresult⟩ := h
  obtain ⟨-, rfl⟩ := completes_pure.1 hresult
  obtain ⟨-, rfl⟩ := completes_get.1 hafter
  obtain ⟨rfl, rfl⟩ := completes_get.1 hget
  refine ⟨bom, output, plan, hbom, houtput, ?_, (posts_postAssembly hpost).then ?_⟩
  · exact except_bind_eq_ok.2 ⟨specs, hspecs, hplan⟩
  · exact ((ledger_of_insertMovement hinsert).trans (ledger_of_storeAvgCost havg)).trans
      (ledger_of_consumeAll hconsume)

/-! ## Loops of postings -/

/-- Every round of a loop meets a condition on the tables that it finds. -/
def EachRounds {α β : Type} (f : α → Tx β) (p : Db → α → Prop) : Db → List α → Prop
  | _, [] => True
  | db, a :: rest => p db a ∧ ∀ b db', Completes (f a) db b db' → EachRounds f p db' rest

theorem posts_mapM {α β : Type} {f : α → Tx β} {p : Db → α → Prop}
    (hf : ∀ a db b db', Completes (f a) db b db' → Posts db db' (p db a)) {l : List α} {bs : List β}
    (h : Completes (l.mapM f) db bs db') : Posts db db' (EachRounds f p db l) := by
  refine h.mapM_induction (R := fun l s t => Posts s t (EachRounds f p s l))
    (fun s => posts_of_ledger_eq rfl) ?_
  intro a l b s t u hab hl
  apply ((hf a s b t hab).trans hl).congr
  -- A round has one outcome, so every outcome is the one that happened.
  have honly : ∀ b' t', Completes (f a) s b' t' → t' = t := by
    intro b' t' h'
    have : (Except.ok (b, t) : Except Failure (β × Db)) = .ok (b', t') := hab.symm.trans h'
    cases this
    rfl
  constructor
  · rintro ⟨ha, hrest⟩
    exact ⟨ha, fun b' t' h' => honly b' t' h' ▸ hrest⟩
  · rintro ⟨ha, hrest⟩
    exact ⟨ha, hrest b t hab⟩

def ShipmentRounds (input : FulfillInput) (db : Db) (a : FulfillmentAllocation) : Prop :=
  ∀ item, db.lockedItem input.bookGuid a.itemId = .ok item →
    ∀ cost, db.consumptionUnitCost item a.quantity = .ok cost →
      CogsRounds db item input.post (a.quantity * cost)

theorem posts_shipAllocation {input : FulfillInput} {date reference : String}
    {a : FulfillmentAllocation} {r : Movement}
    (h : Completes (shipAllocation host input date reference a) db r db') :
    Posts db db' (ShipmentRounds input db a) := by
  unfold shipAllocation at h
  simp only [completes_bind, completes_liftExcept] at h
  obtain ⟨_, _, hget, item, _, ⟨hitem, rfl⟩, cost, _, ⟨hcost, rfl⟩, txnGuid, db₁, hpost, hinsert⟩ := h
  obtain ⟨rfl, rfl⟩ := completes_get.1 hget
  apply ((posts_maybePostCogs hpost).then (ledger_of_insertMovement hinsert)).congr
  rw [ShipmentRounds, forall_eq_ok_iff hitem, forall_eq_ok_iff hcost]

def RestockRounds (input : FulfillInput) (db : Db) (a : FulfillmentAllocation) : Prop :=
  ∀ item, db.lockedItem input.bookGuid a.itemId = .ok item →
    ReturnRounds db item input.post (a.quantity *
      (db.shipmentWeightedUnitCost input.invoiceGuid a.entryGuid item.id).getD item.avgCost)

theorem posts_returnAllocation {input : FulfillInput} {date reference : String}
    {a : FulfillmentAllocation} {r : Movement × Option (String × ℚ)}
    (h : Completes (returnAllocation host input date reference a) db r db') :
    Posts db db' (RestockRounds input db a) := by
  unfold returnAllocation at h
  simp only [completes_bind, completes_liftExcept] at h
  obtain ⟨_, _, hget, item, _, ⟨hitem, rfl⟩, txnGuid, db₁, hpost, _, db₂, havg, movement, db₃,
    hinsert, hresult⟩ := h
  obtain ⟨-, rfl⟩ := completes_pure.1 hresult
  obtain ⟨rfl, rfl⟩ := completes_get.1 hget
  apply ((posts_maybePostReturn hpost).then
    ((ledger_of_insertMovement hinsert).trans (ledger_of_storeAvgCost havg))).congr
  rw [RestockRounds, forall_eq_ok_iff hitem]

theorem posts_fulfillInvoiceLines {input : FulfillInput} {r : FulfillResult}
    (h : Completes (fulfillInvoiceLines host input) db r db') :
    ∃ date id, parseMovementDate host input.date = .ok date ∧ prepareFulfilment input db = .ok id ∧
      Posts db db' (EachRounds (shipAllocation host input date s!"Invoice {id}")
        (ShipmentRounds input) db input.allocations) := by
  unfold fulfillInvoiceLines fulfilLocked at h
  simp only [completes_bind, completes_liftExcept] at h
  obtain ⟨date, _, ⟨hdate, rfl⟩, _, _, hget, id, _, ⟨hid, rfl⟩, _, _, hget', _, _, ⟨-, rfl⟩, _, db₁,
    hlocations, _, _, ⟨-, rfl⟩, _, _, ⟨-, rfl⟩, movements, db₂, hship, hresult⟩ := h
  obtain ⟨-, rfl⟩ := completes_pure.1 hresult
  obtain ⟨rfl, rfl⟩ := completes_get.1 hget'
  obtain ⟨rfl, rfl⟩ := completes_get.1 hget
  rw [hlocations.forM_checks] at hship
  exact ⟨date, id, hdate, hid, posts_mapM (fun _ _ _ _ => posts_shipAllocation) hship⟩

theorem posts_returnToStock {input : FulfillInput} {r : FulfillResult}
    (h : Completes (returnToStock host input) db r db') :
    ∃ date id, parseMovementDate host input.date = .ok date ∧ prepareReturn input db = .ok id ∧
      Posts db db' (EachRounds (returnAllocation host input date s!"Invoice {id} return")
        (RestockRounds input) db input.allocations) := by
  unfold returnToStock returnLocked at h
  simp only [completes_bind, completes_liftExcept] at h
  obtain ⟨date, _, ⟨hdate, rfl⟩, _, _, hget, id, _, ⟨hid, rfl⟩, _, _, hget', _, _, ⟨-, rfl⟩, _, db₁,
    hlocations, returned, db₂, hreturn, hresult⟩ := h
  obtain ⟨-, rfl⟩ := completes_pure.1 hresult
  obtain ⟨rfl, rfl⟩ := completes_get.1 hget'
  obtain ⟨rfl, rfl⟩ := completes_get.1 hget
  rw [hlocations.forM_checks] at hreturn
  exact ⟨date, id, hdate, hid, posts_mapM (fun _ _ _ _ => posts_returnAllocation) hreturn⟩

end Postings

/-- The amounts that an operation posts round evenly, in the tables that it finds. -/
def Op.RoundsEvenly (host : Host) (db : Db) : Op → Prop
  | .receive input => ∀ item, db.lockItem input.bookGuid input.itemId = .ok item →
      input.post = true → ∀ asset ∈ item.assetAccountGuid,
        db.RoundsEvenly asset [input.quantity * input.unitCost.getD 0]
  | .ship input => ∀ item, db.lockItem input.bookGuid input.itemId = .ok item →
      ∀ cost, db.consumptionUnitCost item input.quantity = .ok cost →
        CogsRounds db item input.post (input.quantity * cost)
  | .adjust _ => True
  | .transfer _ => True
  | .assemble input => ∀ bom, db.findBom input.bookGuid input.bomId = .ok bom →
      ∀ output, db.lockedItem input.bookGuid bom.itemId = .ok output →
        ∀ plan, db.assemblyPlan input bom = .ok plan → AssemblyRounds db input output plan
  | .fulfil input => ∀ date, parseMovementDate host input.date = .ok date →
      ∀ id, prepareFulfilment input db = .ok id →
        EachRounds (shipAllocation host input date s!"Invoice {id}") (ShipmentRounds input) db
          input.allocations
  | .returnToStock input => ∀ date, parseMovementDate host input.date = .ok date →
      ∀ id, prepareReturn input db = .ok id →
        EachRounds (returnAllocation host input date s!"Invoice {id} return") (RestockRounds input)
          db input.allocations

/-- A book with an inventory account, a bank account and an item. -/
def halfCentShelf : Db :=
  { ledger := { Business.Db.empty with
      books := [⟨"book", "root", none⟩]
      accounts := [⟨"root", "Root", .root, none, none, "", true⟩,
        ⟨"stock", "Inventory", .asset, some "usd", some "root", "", false⟩,
        ⟨"bank", "Bank", .bank, some "usd", some "root", "", false⟩]
      commodities := [⟨"usd", "CURRENCY", "USD", 100⟩] }
    items := [⟨1, "book", "WIDGET", none, some "stock", false, 0, .average, true⟩]
    locations := [⟨1, "book", "Front", true⟩]
    movements := [], boms := [], movementSeq := 0 }

/-- Receive one unit at twelve and a half cents, posted against the bank account. -/
def receiveHalfCent : Op :=
  .receive ⟨"book", 1, 1, 1, some (125 / 1000), some "2024-01-01", none, true, some "bank"⟩

def afterHalfCent : Db :=
  attempt (receiveHalfCent.transaction Business.plainHost) halfCentShelf

theorem completes_receiveHalfCent :
    Completes (receiveHalfCent.transaction Business.plainHost) halfCentShelf () afterHalfCent := by
  have hsome : (stateAfter (receiveHalfCent.transaction Business.plainHost) halfCentShelf).isSome =
      true := by
    decide +kernel
  obtain ⟨db', hdb'⟩ := Option.isSome_iff_exists.1 hsome
  obtain ⟨⟨⟩, h⟩ := exists_completes hdb'
  have hafter : afterHalfCent = db' := by
    rw [afterHalfCent, attempt, hdb', Option.getD_some]
  rw [hafter]
  exact h

end Inventory
