import GnucashWeb.Payslips.Commits

/-!
# A payslip is posted once

`kept_of_run` is the main result: in every run whose postings commit under their own claims, on
transactions of the book that no payslip has, every payslip is posted at most once, as a transaction
with its net pay, and what is written for it balances.  Two payslips of equal amounts find one
transaction (`twoEmployees_not_kept`).
-/

namespace Payslips

open Ledger (Split fromDecimal mathRound round2 WholeCents)
open Edits (Transaction)
open Rows Statements RowLocks Runs Txn

variable {w : World} {db db' : Db} {L L' : Set Key} {p : Posting w} {g : String}

/-! ## What is promised -/

/-- A payslip is linked to a transaction of its book that has its net pay in its deposit account. -/
structure LinkedTo (w : World) (p : Payslip) (depositAccountGuid : Option String) (g : String)
    (db : Db) : Prop where
  there : ∃ t ∈ db.transactions, t.guid = g
  inBook : ∀ s ∈ db.splitsOfTx g, s.accountGuid ∈ w.bookAccountGuids p.bookGuid
  netPay : ∃ s ∈ db.splitsOfTx g, depositAccountGuid = some s.accountGuid ∧ s.value.exact = p.net

structure Kept (w : World) (db : Db) : Prop where
  once : ∀ id, (db.written.filter fun e => e.1 = id).length ≤ 1
  linked : ∀ r ∈ db.payslips, r.status = .posted → ∃ p ∈ w.payslips, p.id = r.id ∧
    ∃ g, r.transactionGuid = some g ∧ LinkedTo w p r.depositAccountGuid g db
  apart : ∀ r ∈ db.payslips, ∀ r' ∈ db.payslips, r.transactionGuid ≠ none →
    r.transactionGuid = r'.transactionGuid → r.id = r'.id
  released : db.undone = 0
  balanced : ∀ e ∈ db.written, ((db.splitsOfTx e.2).map fun s => s.value.num).sum = 0

/-- Tables in which every payslip so far is posted as promised. -/
structure Ordered (w : World) (db : Db) : Prop extends Kept w db where
  ids : (db.payslips.map PayslipRow.id).Nodup
  owned : ∀ s ∈ db.splits, ∃ t ∈ db.transactions, t.guid = s.txGuid
  links : ∀ r ∈ db.payslips, r.transactionGuid ≠ none → r.status = .posted
  done : ∀ e ∈ db.written, ∃ r ∈ db.payslips, r.id = e.1 ∧ r.status = .posted

/-! ## When it is kept -/

def Unlinked (g : String) (db : Db) : Prop := ∀ r ∈ db.payslips, r.transactionGuid ≠ some g

/-- The line items are in whole cents, and the accounts are of the book. -/
def Posting.Clean (p : Posting w) : Prop :=
  (∀ item ∈ postedItems p.payslip.lineItems, WholeCents item.amount) ∧
    ∀ s ∈ p.splits, s.accountGuid ∈ w.bookAccountGuids p.payslip.bookGuid

/-- A transaction of the book that has the net pay in the deposit account. -/
def Posting.Fits (p : Posting w) (g : String) (db : Db) : Prop :=
  (∀ s ∈ db.splitsOfTx g, s.accountGuid ∈ w.bookAccountGuids p.payslip.bookGuid) ∧
    ∃ s ∈ db.splitsOfTx g, s.accountGuid = p.call.depositAccountGuid ∧ s.value.exact = p.payslip.net

/-- What a posting finds as it commits: its claim is the last one and in force, and the transaction that
it links or rewrites is linked to no payslip. -/
def Settled (w : World) (_ : Set Key) (r : Receipt w) (db _ : Db) : Prop :=
  match r with
  | .posted p claim o =>
    (∃ r ∈ db.payslip? p.id, r.status = .posting ∧ r.claims = claim) ∧
      match o with
      | .linked g => Unlinked g db ∧ p.Fits g db
      | .replaced g => Unlinked g db ∧ p.Clean
      | .created _ => p.Clean
  | .released id claim => ∀ r ∈ db.payslip? id, r.status = .posting → r.claims = claim
  | _ => True

instance (g : String) (db : Db) : Decidable (Unlinked g db) := by
  unfold Unlinked
  infer_instance

instance (p : Posting w) : Decidable p.Clean := by
  unfold Posting.Clean
  infer_instance

instance (p : Posting w) (g : String) (db : Db) : Decidable (p.Fits g db) := by
  unfold Posting.Fits
  infer_instance

instance : DecidableCommit (Settled w) where
  dec _ _ r db db' := by
    unfold Settled
    split
    · next o =>
        cases o <;> infer_instance
    · infer_instance
    · infer_instance

/-! ## What is written -/

theorem wholeCents_net (p : Payslip) : WholeCents p.net := by
  refine Ledger.wholeCents_iff.2 ⟨p.netPay.getD 0, ?_⟩
  rw [Payslip.net, div_mul_cancel₀ _ (by norm_num)]

theorem Posting.Clean.wholeCents (hp : p.Clean) : ∀ s ∈ p.splits, WholeCents s.amount := by
  have hitems : ∀ s ∈ buildSplitsFromLineItems (w.accountOf p.payslip) p.payslip.lineItems
      p.call.depositAccountGuid p.payslip.net, WholeCents s.amount := by
    intro s hs
    rcases List.mem_append.1 hs with hs | hs
    · obtain ⟨item, hitem, hsome⟩ := List.mem_filterMap.1 hs
      obtain ⟨a, -, rfl⟩ := Option.map_eq_some_iff.1 hsome
      exact (hp.1 item hitem).neg
    · obtain rfl := List.mem_singleton.1 hs
      exact wholeCents_net p.payslip
  intro s hs
  unfold Posting.splits postingSplits at hs
  split at hs
  · dsimp only at hs
    split at hs
    · rcases List.mem_append.1 hs with hs | hs
      · exact hitems s hs
      · obtain rfl := List.mem_singleton.1 hs
        exact Ledger.wholeCents_round2 _
    · exact hitems s hs
  · exact hitems s hs

theorem sum_mathRound {amounts : List ℚ} (h : ∀ a ∈ amounts, WholeCents a) :
    (((amounts.map fun a => mathRound (a * 100)).sum : ℤ) : ℚ) = amounts.sum * 100 := by
  induction amounts with
  | nil => simp
  | cons a rest ih =>
    obtain ⟨ha, hrest⟩ := List.forall_mem_cons.1 h
    rw [List.map_cons, List.sum_cons, List.sum_cons, Int.cast_add, ih hrest, ha, add_mul]

theorem map_num_rows (p : Posting w) (g : String) :
    (p.rows g).map (fun s => s.value.num) =
      (p.splits.map PayslipSplit.amount).map fun a => mathRound (a * 100) := by
  refine List.ext_getElem (by simp [Posting.rows]) fun i hi hi' => ?_
  simp [Posting.rows, fromDecimal]

theorem sum_rows (hp : p.Clean) (g : String) : ((p.rows g).map fun s => s.value.num).sum = 0 := by
  have hcents : ∀ a ∈ p.splits.map PayslipSplit.amount, WholeCents a := by
    intro a ha
    obtain ⟨s, hs, rfl⟩ := List.mem_map.1 ha
    exact hp.wholeCents s hs
  have hbalanced : (p.splits.map PayslipSplit.amount).sum = 0 := by
    have hround := Ledger.round2_of_wholeCents (Ledger.wholeCents_sum hcents)
    exact hround.symm.trans p.balanced
  rw [map_num_rows]
  have hsum := sum_mathRound hcents
  rw [hbalanced, zero_mul] at hsum
  exact_mod_cast hsum

theorem mem_rows {s : Split} (hs : s ∈ p.rows g) :
    s.txGuid = g ∧ ∃ t ∈ p.splits, s.accountGuid = t.accountGuid := by
  obtain ⟨i, hi, rfl⟩ := List.mem_mapIdx.1 hs
  exact ⟨rfl, p.splits[i], List.getElem_mem hi, rfl⟩

theorem exists_netPay (p : Posting w) (g : String) :
    ∃ s ∈ p.rows g, p.call.depositAccountGuid = s.accountGuid ∧ s.value.exact = p.payslip.net := by
  have hmem : ⟨p.call.depositAccountGuid, p.payslip.net, "Net Pay"⟩ ∈ p.splits := by
    have hbase : ⟨p.call.depositAccountGuid, p.payslip.net, "Net Pay"⟩ ∈
        buildSplitsFromLineItems (w.accountOf p.payslip) p.payslip.lineItems
          p.call.depositAccountGuid p.payslip.net :=
      List.mem_append_right _ (List.mem_singleton_self _)
    unfold Posting.splits postingSplits
    split
    · dsimp only
      split
      · exact List.mem_append_left _ hbase
      · exact hbase
    · exact hbase
  obtain ⟨i, hi, heq⟩ := List.getElem_of_mem hmem
  refine ⟨_, List.mem_mapIdx.2 ⟨i, hi, rfl⟩, ?_, ?_⟩
  · rw [heq]
  · dsimp only
    rw [heq]
    exact Ledger.exact_fromDecimal (wholeCents_net p.payslip)

/-! ## What a commit leaves -/

theorem eq_of_id (hdb : Ordered w db) {r r' : PayslipRow} (hr : r ∈ db.payslips)
    (hr' : r' ∈ db.payslips) (hid : r.id = r'.id) : r = r' :=
  List.inj_on_of_nodup_map hdb.ids hr hr' hid

theorem payslip?_eq_some (hdb : Ordered w db) {id : ℕ} {r : PayslipRow} :
    db.payslip? id = some r ↔ r ∈ db.payslips ∧ r.id = id := by
  constructor
  · exact fun h => ⟨List.mem_of_find?_eq_some h, by simpa using List.find?_some h⟩
  · rintro ⟨hr, rfl⟩
    obtain ⟨r', hr'⟩ := Option.isSome_iff_exists.1
      (isSome_payslip?.2 (List.mem_map_of_mem (f := PayslipRow.id) hr))
    have hid : r'.id = r.id := by simpa using List.find?_some hr'
    rw [hr', eq_of_id hdb (List.mem_of_find?_eq_some hr') hr hid]

theorem Ordered.edit (hdb : Ordered w db) {id : ℕ} {f : PayslipRow → PayslipRow}
    (hpayslips : db'.payslips = editAt PayslipRow.id id f db.payslips) (htoDb : db'.toDb = db.toDb)
    (hwritten : db'.written = db.written) (hundone : db'.undone = 0)
    (hkeep : ∀ r, (f r).id = r.id ∧ (f r).transactionGuid = r.transactionGuid ∧
      (f r).depositAccountGuid = r.depositAccountGuid)
    (hposted : ∀ r ∈ db.payslips, r.id = id → ((f r).status = .posted ↔ r.status = .posted)) :
    Ordered w db' := by
  have hold {r' : PayslipRow} (hr' : r' ∈ db'.payslips) : ∃ r ∈ db.payslips, r'.id = r.id ∧
      r'.transactionGuid = r.transactionGuid ∧ r'.depositAccountGuid = r.depositAccountGuid ∧
        (r'.status = .posted ↔ r.status = .posted) := by
    rw [hpayslips, mem_editAt] at hr'
    obtain ⟨r, hr, rfl⟩ := hr'
    refine ⟨r, hr, ?_⟩
    split
    · next hid => exact ⟨(hkeep r).1, (hkeep r).2.1, (hkeep r).2.2, hposted r hr hid⟩
    · exact ⟨rfl, rfl, rfl, Iff.rfl⟩
  have hlinkedTo {p : Payslip} {a : Option String} {g : String} (h : LinkedTo w p a g db) :
      LinkedTo w p a g db' := by
    refine ⟨?_, ?_, ?_⟩
    · rw [htoDb]
      exact h.there
    · rw [htoDb]
      exact h.inBook
    · rw [htoDb]
      exact h.netPay
  refine ⟨⟨?_, fun r' hr' hst => ?_, fun r₁ hr₁ r₂ hr₂ hne heq => ?_, hundone, ?_⟩, ?_, ?_,
    fun r' hr' hne => ?_, fun e he => ?_⟩
  · rw [hwritten]
    exact hdb.once
  · obtain ⟨r, hr, hid, htxn, hdeposit, hiff⟩ := hold hr'
    obtain ⟨p, hp, hpid, g, hg, hlink⟩ := hdb.linked r hr (hiff.1 hst)
    exact ⟨p, hp, hpid.trans hid.symm, g, htxn.trans hg, hdeposit ▸ hlinkedTo hlink⟩
  · obtain ⟨s₁, hs₁, hid₁, htxn₁, -, -⟩ := hold hr₁
    obtain ⟨s₂, hs₂, hid₂, htxn₂, -, -⟩ := hold hr₂
    rw [hid₁, hid₂]
    exact hdb.apart s₁ hs₁ s₂ hs₂ (htxn₁ ▸ hne) (htxn₁.symm.trans (heq.trans htxn₂))
  · rw [hwritten, htoDb]
    exact hdb.balanced
  · have hids : (editAt PayslipRow.id id f db.payslips).map PayslipRow.id =
        db.payslips.map PayslipRow.id := map_editAt (fun r => (hkeep r).1) db.payslips
    rw [hpayslips, hids]
    exact hdb.ids
  · rw [htoDb]
    exact hdb.owned
  · obtain ⟨r, hr, -, htxn, -, hiff⟩ := hold hr'
    exact hiff.2 (hdb.links r hr (htxn ▸ hne))
  · rw [hwritten] at he
    obtain ⟨r, hr, hid, hst⟩ := hdb.done e he
    refine ⟨if r.id = id then f r else r, ?_, ?_⟩
    · rw [hpayslips, mem_editAt]
      exact ⟨r, hr, rfl⟩
    · split
      · next hrid => exact ⟨(hkeep r).1.trans hid, (hposted r hr hrid).2 hst⟩
      · exact ⟨hid, hst⟩

theorem Posts.mem {r' : PayslipRow} (h : Posts p g db db') (hr' : r' ∈ db'.payslips) :
    (r' ∈ db.payslips ∧ r'.id ≠ p.id) ∨ (r'.id = p.id ∧ r'.status = .posted ∧
      r'.transactionGuid = some g ∧ r'.depositAccountGuid = some p.call.depositAccountGuid) := by
  obtain ⟨now, hpayslips⟩ := h.payslips
  rw [hpayslips, mem_editAt] at hr'
  obtain ⟨r, hr, rfl⟩ := hr'
  split
  · next hid => exact .inr ⟨hid, rfl, rfl, rfl⟩
  · next hid => exact .inl ⟨hr, hid⟩

theorem Posts.exists_posted {id : ℕ} (h : Posts p g db db')
    (hid : id = p.id ∨ ∃ r ∈ db.payslips, r.id = id ∧ r.status = .posted) :
    ∃ r ∈ db'.payslips, r.id = id ∧ r.status = .posted := by
  obtain ⟨now, hpayslips⟩ := h.payslips
  have hedit {r : PayslipRow} (hr : r ∈ db.payslips) :
      (if r.id = p.id then { r with
        status := .posted
        transactionGuid := some g
        depositAccountGuid := some p.call.depositAccountGuid
        updatedAt := some now } else r) ∈ db'.payslips := by
    rw [hpayslips, mem_editAt]
    exact ⟨r, hr, rfl⟩
  rcases hid with rfl | ⟨r, hr, rfl, hst⟩
  · obtain ⟨r, hr⟩ := Option.isSome_iff_exists.1 h.there
    have hrid : r.id = p.id := by simpa using List.find?_some hr
    have hmem := hedit (List.mem_of_find?_eq_some hr)
    rw [if_pos hrid] at hmem
    exact ⟨_, hmem, hrid, rfl⟩
  · have hmem := hedit hr
    split_ifs at hmem
    · exact ⟨_, hmem, rfl, rfl⟩
    · exact ⟨r, hmem, rfl, hst⟩

/-- What a posting leaves of the ledger: its own transaction is as promised, and the others are as
they were. -/
structure Books (p : Posting w) (g : String) (db db' : Db) : Prop where
  linked : LinkedTo w p.payslip (some p.call.depositAccountGuid) g db'
  there : ∀ g', (∃ t ∈ db.transactions, t.guid = g') → ∃ t ∈ db'.transactions, t.guid = g'
  other : ∀ g', g' ≠ g → db'.splitsOfTx g' = db.splitsOfTx g'
  owned : ∀ s ∈ db'.splits, ∃ t ∈ db'.transactions, t.guid = s.txGuid
  written : db'.written = db.written ∧ db'.splitsOfTx g = db.splitsOfTx g ∨
    db'.written = (p.id, g) :: db.written ∧ ((db'.splitsOfTx g).map fun s => s.value.num).sum = 0

theorem Ordered.post (hdb : Ordered w db) (hposts : Posts p g db db') (hbooks : Books p g db db')
    (hunlinked : Unlinked g db) (hposting : ∃ r ∈ db.payslip? p.id, r.status = .posting) :
    Ordered w db' := by
  obtain ⟨r₀, hr₀, hst₀⟩ := hposting
  obtain ⟨hmem₀, hid₀⟩ := (payslip?_eq_some hdb).1 hr₀
  have hnone : ∀ e ∈ db.written, e.1 ≠ p.id := by
    intro e he heq
    obtain ⟨r, hr, hid, hst⟩ := hdb.done e he
    rw [eq_of_id hdb hr hmem₀ (hid.trans (heq.trans hid₀.symm)), hst₀] at hst
    cases hst
  refine ⟨⟨fun id => ?_, fun r' hr' hst => ?_, fun r₁ hr₁ r₂ hr₂ hne heq => ?_,
    hposts.undone.trans hdb.released, fun e he => ?_⟩, ?_, hbooks.owned, fun r' hr' hne => ?_,
    fun e he => ?_⟩
  · rcases hbooks.written with ⟨hwritten, -⟩ | ⟨hwritten, -⟩
    · rw [hwritten]
      exact hdb.once id
    · rw [hwritten, List.filter_cons]
      split
      · next hid =>
          rw [decide_eq_true_eq] at hid
          have hempty : db.written.filter (fun e => e.1 = id) = [] :=
            List.filter_eq_nil_iff.2 fun e he => by simpa [← hid] using hnone e he
          rw [hempty]
          simp
      · exact hdb.once id
  · rcases hposts.mem hr' with ⟨hr, -⟩ | ⟨hid, -, htxn, hdeposit⟩
    · obtain ⟨q, hq, hqid, g', hg', hlink⟩ := hdb.linked r' hr hst
      have hne : g' ≠ g := fun heq => hunlinked r' hr (hg'.trans (congrArg some heq))
      refine ⟨q, hq, hqid, g', hg', hbooks.there g' hlink.there, ?_, ?_⟩
      · rw [hbooks.other g' hne]
        exact hlink.inBook
      · rw [hbooks.other g' hne]
        exact hlink.netPay
    · exact ⟨p.payslip, p.mem, hid.symm, g, htxn, hdeposit ▸ hbooks.linked⟩
  · rcases hposts.mem hr₁ with ⟨hold₁, hid₁⟩ | ⟨hid₁, -, htxn₁, -⟩
    · rcases hposts.mem hr₂ with ⟨hold₂, -⟩ | ⟨-, -, htxn₂, -⟩
      · exact hdb.apart r₁ hold₁ r₂ hold₂ hne heq
      · exact absurd (heq.trans htxn₂) (hunlinked r₁ hold₁)
    · rcases hposts.mem hr₂ with ⟨hold₂, -⟩ | ⟨hid₂, -, -, -⟩
      · exact absurd (heq.symm.trans htxn₁) (hunlinked r₂ hold₂)
      · exact hid₁.trans hid₂.symm
  · by_cases heg : e.2 = g
    · rcases hbooks.written with ⟨hwritten, hsplits⟩ | ⟨hwritten, hsum⟩
      · rw [heg, hsplits, ← heg]
        exact hdb.balanced e (hwritten ▸ he)
      · rw [heg]
        exact hsum
    · rw [hbooks.other _ heg]
      rcases hbooks.written with ⟨hwritten, -⟩ | ⟨hwritten, -⟩
      · exact hdb.balanced e (hwritten ▸ he)
      · rw [hwritten] at he
        rcases List.mem_cons.1 he with rfl | he
        · exact absurd rfl heg
        · exact hdb.balanced e he
  · obtain ⟨now, hpayslips⟩ := hposts.payslips
    rw [hpayslips, map_editAt]
    · exact hdb.ids
    · exact fun _ => rfl
  · rcases hposts.mem hr' with ⟨hr, -⟩ | ⟨-, hst, -, -⟩
    · exact hdb.links r' hr hne
    · exact hst
  · refine hposts.exists_posted ?_
    rcases hbooks.written with ⟨hwritten, -⟩ | ⟨hwritten, -⟩
    · exact .inr (hdb.done e (hwritten ▸ he))
    · rw [hwritten] at he
      rcases List.mem_cons.1 he with rfl | he
      · exact .inl rfl
      · exact .inr (hdb.done e he)

theorem splitsOfTx_append (h : db'.splits = db.splits ++ p.rows g) (g' : String) :
    db'.splitsOfTx g' = db.splitsOfTx g' ++ if g' = g then p.rows g else [] := by
  have hrows : (p.rows g).filter (fun s => s.txGuid = g') = if g' = g then p.rows g else [] := by
    split
    · next heq => exact List.filter_eq_self.2 fun s hs => by simp [(mem_rows hs).1, heq]
    · next hne => exact List.filter_eq_nil_iff.2 fun s hs => by simp [(mem_rows hs).1, Ne.symm hne]
  rw [Edits.Db.splitsOfTx, h, List.filter_append, hrows]
  rfl

theorem linkedTo_of_rows (hp : p.Clean) (hsplits : db.splitsOfTx g = p.rows g)
    (hthere : ∃ t ∈ db.transactions, t.guid = g) :
    LinkedTo w p.payslip (some p.call.depositAccountGuid) g db := by
  refine ⟨hthere, fun s hs => ?_, ?_⟩
  · obtain ⟨-, t, ht, hacct⟩ := mem_rows (hsplits ▸ hs)
    exact hacct ▸ hp.2 t ht
  · obtain ⟨s, hs, hacct, hvalue⟩ := exists_netPay p g
    exact ⟨s, hsplits ▸ hs, congrArg some hacct, hvalue⟩

theorem books_of_linked (hdb : Ordered w db) (h : LedgerSpec p (.linked g) db db')
    (hfits : p.Fits g db) : Books p g db db' := by
  obtain ⟨htoDb, hwritten⟩ := h
  obtain ⟨hbook, s, hs, hacct, hvalue⟩ := hfits
  have hthere : ∃ t ∈ db.transactions, t.guid = g := by
    obtain ⟨hmem, htx⟩ := List.mem_filter.1 hs
    rw [decide_eq_true_eq] at htx
    exact htx ▸ hdb.owned s hmem
  refine ⟨⟨?_, ?_, ?_⟩, ?_, ?_, ?_, .inl ⟨hwritten, by rw [htoDb]⟩⟩
  · rwa [htoDb]
  · rwa [htoDb]
  · rw [htoDb]
    exact ⟨s, hs, congrArg some hacct.symm, hvalue⟩
  · rw [htoDb]
    exact fun _ h => h
  · rw [htoDb]
    exact fun _ _ => rfl
  · rw [htoDb]
    exact hdb.owned

theorem exists_guid {guids : List String} (h : db'.transactions.map Transaction.guid = guids)
    {g' : String} : (∃ t ∈ db'.transactions, t.guid = g') ↔ g' ∈ guids := by
  rw [← h, List.mem_map]

theorem books_of_replaced (hdb : Ordered w db) (h : LedgerSpec p (.replaced g) db db')
    (hp : p.Clean) : Books p g db db' := by
  obtain ⟨hthere, hguids, hsplits, hwritten⟩ := h
  have hkeep (g' : String) (hg' : ∃ t ∈ db.transactions, t.guid = g') :
      ∃ t ∈ db'.transactions, t.guid = g' := by
    rw [exists_guid hguids]
    exact List.mem_map.2 hg'
  have hof (g' : String) : db'.splitsOfTx g' =
      if g' = g then p.rows g else db.splitsOfTx g' := by
    let cleared : Db := { db with splits := db.splits.filter fun s => s.txGuid ≠ g }
    have hcleared : db'.splitsOfTx g' =
        cleared.splitsOfTx g' ++ if g' = g then p.rows g else [] := splitsOfTx_append hsplits g'
    rw [hcleared, Edits.Db.splitsOfTx, List.filter_filter]
    split
    · next heq =>
        rw [List.filter_eq_nil_iff.2 fun s hs => by simp [heq], List.nil_append]
    · next hne =>
        rw [List.append_nil, Edits.Db.splitsOfTx]
        refine List.filter_congr fun s hs => ?_
        by_cases hg' : s.txGuid = g'
        · simp [hg', hne]
        · simp [hg']
  have hself : db'.splitsOfTx g = p.rows g := by rw [hof, if_pos rfl]
  refine ⟨linkedTo_of_rows hp hself (hkeep g hthere), hkeep, fun g' hg' => ?_, fun s hs => ?_,
    .inr ⟨hwritten, hself ▸ sum_rows hp g⟩⟩
  · rw [hof, if_neg hg']
  · rw [hsplits] at hs
    rcases List.mem_append.1 hs with hs | hs
    · exact hkeep _ (hdb.owned s (List.mem_filter.1 hs).1)
    · exact (mem_rows hs).1.symm ▸ hkeep g hthere

theorem books_of_created (hdb : Ordered w db) (h : LedgerSpec p (.created g) db db')
    (hp : p.Clean) : Books p g db db' := by
  obtain ⟨hfresh, hguids, hsplits, hwritten⟩ := h
  have hkeep (g' : String) (hg' : ∃ t ∈ db.transactions, t.guid = g') :
      ∃ t ∈ db'.transactions, t.guid = g' := by
    rw [exists_guid hguids]
    exact List.mem_append_left _ (List.mem_map.2 hg')
  have hthere : ∃ t ∈ db'.transactions, t.guid = g :=
    (exists_guid hguids).2 (List.mem_append_right _ (List.mem_singleton_self g))
  have hnone : db.splitsOfTx g = [] := by
    refine List.filter_eq_nil_iff.2 fun s hs htx => ?_
    obtain ⟨t, ht, hguid⟩ := hdb.owned s hs
    rw [decide_eq_true_eq] at htx
    exact hfresh t ht (hguid.trans htx)
  have hself : db'.splitsOfTx g = p.rows g := by
    rw [splitsOfTx_append hsplits, hnone, if_pos rfl, List.nil_append]
  refine ⟨linkedTo_of_rows hp hself hthere, hkeep, fun g' hg' => ?_, fun s hs => ?_,
    .inr ⟨hwritten, hself ▸ sum_rows hp g⟩⟩
  · rw [splitsOfTx_append hsplits, if_neg hg', List.append_nil]
  · rw [hsplits] at hs
    rcases List.mem_append.1 hs with hs | hs
    · exact hkeep _ (hdb.owned s hs)
    · exact (mem_rows hs).1.symm ▸ hthere

theorem unlinked_of_fresh (hdb : Ordered w db) (hfresh : ∀ t ∈ db.transactions, t.guid ≠ g) :
    Unlinked g db := by
  intro r hr hg
  obtain ⟨p, -, -, g', hg', hlink⟩ := hdb.linked r hr (hdb.links r hr (by simp [hg]))
  cases hg.symm.trans hg'
  obtain ⟨t, ht, hguid⟩ := hlink.there
  exact hfresh t ht hguid

theorem ordered_of_commit {r : Receipt w} (hdb : Ordered w db) (h : CommitSpec w L r db db')
    (hsettled : Settled w L r db db') : Ordered w db' := by
  cases r with
  | claimed id priorStatus claim =>
    obtain ⟨-, ⟨r, hr, hst⟩, now, rfl⟩ := h
    obtain ⟨hmem, hid⟩ := (payslip?_eq_some hdb).1 hr
    refine hdb.edit rfl rfl rfl hdb.released (fun _ => ⟨rfl, rfl, rfl⟩) fun r' hr' hid' => ?_
    rw [eq_of_id hdb hr' hmem (hid'.trans hid.symm)]
    simp [hst]
  | posted p claim o =>
    obtain ⟨-, hposts, hledger⟩ := h
    obtain ⟨⟨r, hr, hst, -⟩, hfound⟩ := hsettled
    have hposting : ∃ r ∈ db.payslip? p.id, r.status = .posting := ⟨r, hr, hst⟩
    cases o with
    | linked g => exact hdb.post hposts (books_of_linked hdb hledger hfound.2) hfound.1 hposting
    | replaced g =>
      exact hdb.post hposts (books_of_replaced hdb hledger hfound.2) hfound.1 hposting
    | created g =>
      exact hdb.post hposts (books_of_created hdb hledger hfound)
        (unlinked_of_fresh hdb hledger.1) hposting
  | released id claim =>
    obtain ⟨-, priorStatus, now, rfl⟩ := h
    have hundone : (putBack id priorStatus claim now db).undone = 0 := by
      have hfalse : ¬((db.payslip? id).any fun r => r.status = .posting ∧ r.claims ≠ claim) = true := by
        cases hr : db.payslip? id with
        | none => simp
        | some r => simpa using fun hst => hsettled r hr hst
      rw [putBack]
      dsimp only
      rw [if_neg hfalse]
      exact hdb.released
    refine hdb.edit rfl rfl rfl hundone (fun r => ?_) fun r _ _ => ?_
    · split <;> exact ⟨rfl, rfl, rfl⟩
    · split
      · next hst => simp [hst, priorStatus.property]
      · exact Iff.rfl
  | ticked =>
    obtain ⟨now, rfl⟩ := h
    exact ⟨⟨hdb.once, fun r hr hst => by
      obtain ⟨p, hp, hid, g, hg, hlink⟩ := hdb.linked r hr hst
      exact ⟨p, hp, hid, g, hg, hlink.there, hlink.inBook, hlink.netPay⟩, hdb.apart, hdb.released,
      hdb.balanced⟩, hdb.ids, hdb.owned, hdb.links, hdb.done⟩

theorem payslip?_editAt_of_ne {id id' : ℕ} {f : PayslipRow → PayslipRow}
    (hpayslips : db'.payslips = editAt PayslipRow.id id f db.payslips) (hf : ∀ r, (f r).id = r.id)
    (hne : id' ≠ id) :
    db'.payslip? id' = db.payslip? id' := by
  rw [Db.payslip?, hpayslips]
  exact find?_editAt_of_ne hf hne

theorem rely_of_commit {r : Receipt w} (h : CommitSpec w L r db db')
    (hL : ∀ row ∈ L', row ∉ L) : Rely L' db db' := by
  have hids {id : ℕ} {f : PayslipRow → PayslipRow} (hf : ∀ r, (f r).id = r.id) :
      (editAt PayslipRow.id id f db.payslips).map PayslipRow.id = db.payslips.map PayslipRow.id :=
    map_editAt hf db.payslips
  cases r with
  | claimed id priorStatus claim =>
    obtain ⟨hmem, -, now, rfl⟩ := h
    refine ⟨hids fun _ => rfl, fun id' hid' => ?_, fun _ h => h⟩
    have hrows : (takeClaim id now db).payslips = editAt PayslipRow.id id _ db.payslips := rfl
    refine payslip?_editAt_of_ne hrows (fun _ => rfl) ?_
    rintro rfl
    exact hL _ hid' hmem
  | posted p claim o =>
    obtain ⟨hmem, hposts, hledger⟩ := h
    obtain ⟨now, hpayslips⟩ := hposts.payslips
    refine ⟨by rw [hpayslips, hids]; exact fun _ => rfl, fun id' hid' =>
      payslip?_editAt_of_ne hpayslips (fun _ => rfl) ?_, fun g' hg' => ?_⟩
    · rintro rfl
      exact hL _ hid' hmem
    · cases o with
      | linked g => rwa [hledger.1]
      | replaced g => exact (exists_guid hledger.2.1).2 (List.mem_map.2 hg')
      | created g =>
        exact (exists_guid hledger.2.1).2 (List.mem_append_left _ (List.mem_map.2 hg'))
  | released id claim =>
    obtain ⟨hmem, priorStatus, now, rfl⟩ := h
    have hid (r : PayslipRow) : (if r.status = .posting then
        { r with
          status := priorStatus.val
          updatedAt := some now } else r).id = r.id := by split <;> rfl
    refine ⟨hids hid, fun id' hid' => ?_, fun _ h => h⟩
    by_cases hne : id' = id
    · subst hne
      have hnone : ¬(db.payslip? id').isSome := fun hsome => hL _ hid' (hmem hsome)
      have hids' := @hids id' _ hid
      have hnone' : ¬((putBack id' priorStatus claim now db).payslip? id').isSome := by
        rw [isSome_payslip?] at hnone ⊢
        exact hids'.symm ▸ hnone
      rw [Option.not_isSome_iff_eq_none] at hnone hnone'
      rw [hnone, hnone']
    · exact payslip?_editAt_of_ne rfl hid hne
  | ticked =>
    obtain ⟨now, rfl⟩ := h
    exact ⟨rfl, fun _ _ => rfl, fun _ h => h⟩

/-- In every state that a run reaches whose postings and releases are all settled, every payslip is
posted once and as promised. -/
theorem kept_of_run (w : World) {steps : List PayslipStep} {s : PayslipState w} (hdb : Ordered w db)
    (hrun : run (next w) steps (start db) = some s)
    (hsettled : Along (next w) (AtCommit (Settled w)) steps (start db)) : Kept w s.db := by
  have hs : Ordered w s.db := tables_of_run isTrans_rely (fun req => good_serve req)
    (fun _ _ _ _ hI h hC => ⟨ordered_of_commit hI h hC, fun _ hL => rely_of_commit h hL⟩) hdb hrun
    hsettled
  exact hs.toKept

/-! ## Two employees -/

def payslipOf (id : ℕ) (employer : String) (cents : ℤ) : Payslip where
  id := id
  bookGuid := "book"
  payDate := 20000
  employerName := employer
  netPay := some cents
  lineItems := [⟨.earnings, "Pay", "pay", cents / 100⟩]

/-- A book in which two employers pay into one bank account. -/
def household (first second : ℤ) : World where
  payslips := [payslipOf 1 "Acme" first, payslipOf 2 "Beta" second]
  ids := by simp [payslipOf]
  mappings := ["Acme", "Beta"].map fun employer => ⟨"book", employer, .earnings, "pay", "income"⟩
  bookAccountGuids := fun _ => ["bank", "income"]

def received : Db where
  accounts := []
  transactions := []
  splits := []
  settings := []
  metas := []
  payslips := [⟨1, .ready, none, none, none, 0⟩, ⟨2, .ready, none, none, none, 0⟩]
  now := 0
  written := []
  undone := 0

def posts (k id : ℕ) (guids : List String) : PayslipStep :=
  .call k (.post ⟨id, "book", "bank", "usd", none, none, none, fun i => guids.getD i ""⟩)

theorem ordered_received (w : World) : Ordered w received where
  once := by simp [received]
  linked := by simp [received]
  apart := by simp [received]
  released := rfl
  balanced := by simp [received]
  ids := by decide
  owned := by simp [received]
  links := by simp [received]
  done := by simp [received]

/-- A payslip is posted twice at once, and the other one after it. -/
def postedTwice : List PayslipStep :=
  [posts 0 1 ["t1", "a1", "b1"], posts 1 1 ["t2", "a2", "b2"]] ++
    List.replicate 8 (Step.advance 0) ++ List.replicate 6 (Step.advance 1) ++
      List.replicate 11 (Step.advance 0) ++
      posts 2 2 ["t3", "a3", "b3"] :: List.replicate 20 (Step.advance 2)

theorem kept_postedTwice :
    ∃ s, run (next (household 10000 8000)) postedTwice (start received) = some s ∧
      s.db.written = [(2, "t3"), (1, "t1")] ∧ Kept (household 10000 8000) s.db := by
  obtain ⟨s, hs, hwritten⟩ : ∃ s ∈ run (next (household 10000 8000)) postedTwice (start received),
      s.db.written = [(2, "t3"), (1, "t1")] := by decide +kernel
  exact ⟨s, hs, hwritten, kept_of_run _ (ordered_received _) hs (by decide +kernel)⟩

/-- Two payslips of one amount are posted one after the other. -/
def oneAfterTheOther : List PayslipStep :=
  posts 0 1 ["t1", "a1", "b1"] :: List.replicate 19 (Step.advance 0) ++
    posts 1 2 ["t2", "a2", "b2"] :: List.replicate 17 (Step.advance 1)

/-- The second payslip is linked to the transaction of the first. -/
theorem twoEmployees_not_kept : Ordered (household 10000 10000) received ∧
    ∃ s, run (next (household 10000 10000)) oneAfterTheOther (start received) = some s ∧
      ¬ Kept (household 10000 10000) s.db := by
  obtain ⟨s, hs, r, hr, r', hr', hsome, heq, hne⟩ :
      ∃ s ∈ run (next (household 10000 10000)) oneAfterTheOther (start received),
        ∃ r ∈ s.db.payslips, ∃ r' ∈ s.db.payslips, r.transactionGuid ≠ none ∧
          r.transactionGuid = r'.transactionGuid ∧ r.id ≠ r'.id := by decide +kernel
  exact ⟨ordered_received _, s, hs, fun hkept => hne (hkept.apart r hr r' hr' hsome heq)⟩

end Payslips
