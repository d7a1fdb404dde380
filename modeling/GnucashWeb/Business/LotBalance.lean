import GnucashWeb.Business.PaymentBalance
import GnucashWeb.Business.Posting
import Mathlib.Order.Interval.Set.UnorderedInterval

/-!
# The balance of a document's lot

The lot of a posted document holds what was posted less what was paid.  `Sound` says what tables
keep whose documents are posted, unposted and paid: every posted document has a lot of its own, in
whole units of its currency, whose balance stays between zero and the posted total.

`Sound.post`, `Sound.unpost` and `Sound.pay` are the steps; a payment needs that each part is at most
what its lot holds when it is written.
-/

open Transact Rows
open Ledger (Amount Split Lot fromDecimal)

namespace Business

/-! ## Balances -/

namespace Db

variable (db : Db)

def lotBalance (lotGuid : String) : ℚ :=
  total (fun s : Split => s.lotGuid = some lotGuid) (fun s => s.value.exact) db.splits

def postedTotal (txGuid lotGuid : String) : ℚ :=
  total (fun s : Split => s.lotGuid = some lotGuid ∧ s.txGuid = txGuid) (fun s => s.value.exact)
    db.splits

end Db

/-- The balance of the lot of every posted document is between zero and the posted total. -/
def WithinTotals (db : Db) : Prop :=
  ∀ i ∈ db.invoices, ∀ t ∈ i.postTxn, ∀ g ∈ i.postLot,
    db.lotBalance g ∈ Set.uIcc 0 (db.postedTotal t g)

variable {g : String}

theorem exists_lotBalance_eq {db : Db} {fraction : ℕ}
    (h : ∀ s ∈ db.splits, s.lotGuid = some g → s.value.denom = fraction) :
    ∃ n : ℤ, db.lotBalance g = n / fraction := by
  unfold Db.lotBalance
  generalize db.splits = splits at h
  induction splits with
  | nil => exact ⟨0, by simp⟩
  | cons s rest ih =>
    obtain ⟨n, hn⟩ := ih fun s hs => h s (List.mem_cons_of_mem _ hs)
    rw [total_cons, hn]
    by_cases hs : s.lotGuid = some g
    · refine ⟨s.value.num + n, ?_⟩
      rw [if_pos hs, Amount.exact, h s (by simp) hs]
      push_cast
      ring
    · exact ⟨n, by simp [hs]⟩

/-- The posting of a document under a transaction is in order. -/
structure Kept (db : Db) (i : Invoice) (t : String) : Prop where
  txn : (db.transaction? t).isSome
  lot : ∀ g ∈ i.postLot, ∃ l ∈ db.lots, l.guid = g
  own : ∀ s ∈ db.splits, s.txGuid = t → s.lotGuid = none ∨ s.lotGuid = i.postLot
  units : ∀ g ∈ i.postLot, ∀ fraction, db.getCurrencyFraction i.currency = .ok fraction →
    ∀ s ∈ db.splits, s.lotGuid = some g → s.value.denom = fraction
  within : ∀ g ∈ i.postLot, db.lotBalance g ∈ Set.uIcc 0 (db.postedTotal t g)

/-- Rows have keys, splits belong to rows, and posted documents are in order. -/
structure Sound (db : Db) : Prop where
  invoices : (db.invoices.map Invoice.guid).Nodup
  splitTxn : ∀ s ∈ db.splits, (db.transaction? s.txGuid).isSome
  splitLot : ∀ s ∈ db.splits, ∀ g ∈ s.lotGuid, ∃ l ∈ db.lots, l.guid = g
  docs : ∀ i ∈ db.invoices, ∀ t ∈ i.postTxn, Kept db i t
  lots : ∀ i ∈ db.invoices, ∀ j ∈ db.invoices, i.postTxn.isSome → j.postTxn.isSome →
    ∀ g, i.postLot = some g → j.postLot = some g → i = j

theorem Sound.withinTotals {db : Db} (h : Sound db) : WithinTotals db :=
  fun i hi t ht => (h.docs i hi t ht).within

theorem Sound.eq_of_guid {db : Db} (h : Sound db) {i j : Invoice} (hi : i ∈ db.invoices)
    (hj : j ∈ db.invoices) (heq : i.guid = j.guid) : i = j :=
  List.inj_on_of_nodup_map h.invoices hi hj heq

theorem mem_of_invoice? {db : Db} {guid : String} {i : Invoice} (h : db.invoice? guid = some i) :
    i ∈ db.invoices ∧ i.guid = guid :=
  ⟨List.mem_of_find?_eq_some h, by simpa using List.find?_some h⟩

/-! ## A transaction more -/

/-- The tables with one transaction more and its splits. -/
structure Extends (db db' : Db) (t : String) (new : List Split) : Prop where
  splits : db'.splits = db.splits ++ new
  newTxn : db.transaction? t = none
  ofTxn : ∀ s ∈ new, s.txGuid = t
  txn : (db'.transaction? t).isSome
  oldTxn : ∀ g, (db.transaction? g).isSome → (db'.transaction? g).isSome
  lots : ∀ l ∈ db.lots, ∃ l' ∈ db'.lots, l'.guid = l.guid
  commodities : db'.commodities = db.commodities

section Extends

variable {db db' : Db} {t t' : String} {new : List Split} {i : Invoice}

theorem transaction?_append {x : Txn} (h : db'.transactions = db.transactions ++ [x]) :
    (db'.transaction? x.guid).isSome ∧
      ∀ g, (db.transaction? g).isSome → (db'.transaction? g).isSome := by
  unfold Db.transaction?
  rw [h]
  refine ⟨?_, fun g hg => ?_⟩
  · rw [List.find?_isSome]
    exact ⟨x, by simp, by simp⟩
  · rw [List.find?_append, Option.isSome_or, hg, Bool.true_or]

theorem Extends.getCurrencyFraction (h : Extends db db' t new) (currencyGuid : String) :
    db'.getCurrencyFraction currencyGuid = db.getCurrencyFraction currencyGuid := by
  rw [Db.getCurrencyFraction, Db.getCurrencyFraction, h.commodities]

theorem Extends.lotBalance (h : Extends db db' t new) (g : String) :
    db'.lotBalance g = db.lotBalance g +
      total (fun s : Split => s.lotGuid = some g) (fun s => s.value.exact) new := by
  rw [Db.lotBalance, h.splits, total_append]
  rfl

theorem Extends.postedTotal (h : Extends db db' t new) (g : String)
    (ht' : (db.transaction? t').isSome) : db'.postedTotal t' g = db.postedTotal t' g := by
  have hne : t ≠ t' := by
    rintro rfl
    rw [h.newTxn] at ht'
    cases ht'
  have hnew : total (fun s : Split => s.lotGuid = some g ∧ s.txGuid = t')
      (fun s => s.value.exact) new = 0 :=
    total_eq_zero fun s hs hst => absurd ((h.ofTxn s hs).symm.trans hst.2) hne
  rw [Db.postedTotal, h.splits, total_append, hnew, add_zero]
  rfl

/-- A posting stays in order when the new splits of its lot count its units and leave a balance
between zero and the one before. -/
theorem Kept.extend (hkept : Kept db i t') (h : Extends db db' t new)
    (hunits : ∀ g ∈ i.postLot, ∀ fraction, db.getCurrencyFraction i.currency = .ok fraction →
      ∀ s ∈ new, s.lotGuid = some g → s.value.denom = fraction)
    (hbalance : ∀ g ∈ i.postLot, db'.lotBalance g ∈ Set.uIcc 0 (db.lotBalance g)) :
    Kept db' i t' := by
  refine ⟨h.oldTxn _ hkept.txn, fun g hg => ?_, fun s hs hst => ?_, fun g hg fraction hf s hs hsg => ?_,
    fun g hg => ?_⟩
  · obtain ⟨l, hl, rfl⟩ := hkept.lot g hg
    exact h.lots l hl
  · rw [h.splits] at hs
    rcases List.mem_append.1 hs with hs | hs
    · exact hkept.own s hs hst
    · have htxn := hkept.txn
      rw [← hst, h.ofTxn s hs, h.newTxn] at htxn
      cases htxn
  · rw [h.getCurrencyFraction] at hf
    rw [h.splits] at hs
    rcases List.mem_append.1 hs with hs | hs
    · exact hkept.units g hg fraction hf s hs hsg
    · exact hunits g hg fraction hf s hs hsg
  · rw [h.postedTotal g hkept.txn]
    exact Set.uIcc_subset_uIcc Set.left_mem_uIcc (hkept.within g hg) (hbalance g hg)

theorem Extends.lotBalance_eq (h : Extends db db' t new)
    (hnew : ∀ s ∈ new, s.lotGuid ≠ some g) : db'.lotBalance g = db.lotBalance g := by
  rw [h.lotBalance, total_eq_zero fun s hs hsg => absurd hsg (hnew s hs), add_zero]

theorem Kept.bystander (hkept : Kept db i t') (h : Extends db db' t new)
    (hnew : ∀ g ∈ i.postLot, ∀ s ∈ new, s.lotGuid ≠ some g) : Kept db' i t' := by
  refine hkept.extend h (fun g hg _ _ s hs hsg => absurd hsg (hnew g hg s hs)) fun g hg => ?_
  rw [h.lotBalance_eq (hnew g hg)]
  exact Set.right_mem_uIcc

theorem Sound.extend (hsound : Sound db) (h : Extends db db' t new)
    (hinvoices : (db'.invoices.map Invoice.guid).Nodup)
    (hlot : ∀ s ∈ new, ∀ g ∈ s.lotGuid, ∃ l ∈ db'.lots, l.guid = g)
    (hdocs : ∀ i ∈ db'.invoices, ∀ t ∈ i.postTxn, Kept db' i t)
    (hlots : ∀ i ∈ db'.invoices, ∀ j ∈ db'.invoices, i.postTxn.isSome → j.postTxn.isSome →
      ∀ g, i.postLot = some g → j.postLot = some g → i = j) : Sound db' := by
  refine ⟨hinvoices, fun s hs => ?_, fun s hs g hg => ?_, hdocs, hlots⟩
  · rw [h.splits] at hs
    rcases List.mem_append.1 hs with hs | hs
    · exact h.oldTxn _ (hsound.splitTxn s hs)
    · rw [h.ofTxn s hs]
      exact h.txn
  · rw [h.splits] at hs
    rcases List.mem_append.1 hs with hs | hs
    · obtain ⟨l, hl, rfl⟩ := hsound.splitLot s hs g hg
      exact h.lots l hl
    · exact hlot s hs g hg

end Extends

/-- The guids that the host draws from now on are distinct and name no lot. -/
structure Host.DrawsLots (host : Host) (db : Db) : Prop where
  injective : Function.Injective host.generateGuid
  unknown : ∀ n, db.drawn ≤ n → ∀ l ∈ db.lots, l.guid ≠ host.generateGuid n

theorem Host.DrawsLots.mono {host : Host} {db db' : Db} (h : host.DrawsLots db)
    (hdrawn : db.drawn ≤ db'.drawn)
    (hlots : ∀ l ∈ db'.lots, (∃ l' ∈ db.lots, l'.guid = l.guid) ∨
      ∃ n < db'.drawn, l.guid = host.generateGuid n) : host.DrawsLots db' := by
  refine ⟨h.injective, fun n hn l hl heq => ?_⟩
  rcases hlots l hl with ⟨l', hl', hguid⟩ | ⟨m, hm, hguid⟩
  · exact h.unknown n (hdrawn.trans hn) l' hl' (hguid.trans heq)
  · have := h.injective (hguid.symm.trans heq)
    omega

theorem Host.DrawsLots.of_guids {host : Host} {db db' : Db} (h : host.DrawsLots db)
    (hdrawn : db.drawn ≤ db'.drawn) (hlots : db'.lots.map Lot.guid = db.lots.map Lot.guid) :
    host.DrawsLots db' := by
  refine h.mono hdrawn fun l hl => .inl ?_
  exact List.mem_map.1 (hlots ▸ List.mem_map_of_mem hl)

theorem exists_lot_of_guids {db db' : Db} (h : db'.lots.map Lot.guid = db.lots.map Lot.guid) :
    ∀ l ∈ db.lots, ∃ l' ∈ db'.lots, l'.guid = l.guid :=
  fun _ hl => List.mem_map.1 (h ▸ List.mem_map_of_mem hl)

/-- The documents that a commit does not touch keep their rows, and their lots what they hold. -/
structure Frame (touched : String → Prop) (db db' : Db) : Prop where
  commodities : db'.commodities = db.commodities
  row : ∀ i ∈ db.invoices, ¬touched i.guid → i ∈ db'.invoices
  balance : ∀ i ∈ db.invoices, ¬touched i.guid → i.postTxn.isSome → ∀ g ∈ i.postLot,
    db'.lotBalance g = db.lotBalance g

/-! ## Posting -/

def commitPosting (host : Host) (guid : String) (input : PostInvoiceInput) (p : Posting) :
    Tx PostResult := do
  let postAccountGuid ← findOrCreatePostAccount host p.owner.kind p.bookRootGuid p.invoice.currency
  writePosting host guid input p postAccountGuid

section Post

variable {host : Host} {guid : String} {input : PostInvoiceInput} {p : Posting} {db db' : Db}
  {r : PostResult}

structure Posted (host : Host) (guid : String) (p : Posting) (r : PostResult) (new : List Split)
    (db db' : Db) : Prop where
  grows : Extends db db' r.transactionGuid new
  lots : db'.lots = db.lots ++ [⟨r.lotGuid, some r.postAccountGuid, 0⟩]
  invoices : db'.invoices =
    editAt Invoice.guid guid (markPosted p.postDate r) db.invoices
  drawn : ∃ n, db.drawn ≤ n ∧ n < db'.drawn ∧ r.lotGuid = host.generateGuid n
  new : ∀ s ∈ new, s.value.denom = p.fraction ∧ (s.lotGuid = none ∨ s.lotGuid = some r.lotGuid)

theorem posted_commitPosting (h : Completes (commitPosting host guid input p) db r db') :
    ∃ new, Posted host guid p r new db db' := by
  unfold commitPosting at h
  obtain ⟨a, db₁, hfind, hwrite⟩ := completes_bind.1 h
  obtain ⟨hdb₁, hdrawn⟩ := findOrCreatePostAccount_effect hfind
  obtain ⟨hr, hnew, hdb'⟩ := writePosting_effect hwrite
  have htransactions : db₁.transactions = db.transactions := by rw [hdb₁]
  have hlots : db₁.lots = db.lots := by rw [hdb₁]
  have hsplits : db₁.splits = db.splits := by rw [hdb₁]
  have hinvoices : db₁.invoices = db.invoices := by rw [hdb₁]
  have hcommodities : db₁.commodities = db.commodities := by rw [hdb₁]
  have happend : db'.transactions =
      db.transactions ++ [postingTxn host input p r.transactionGuid] := by
    rw [hdb', ← htransactions]
  refine ⟨_, ⟨by rw [hdb', hsplits], ?_, ?_, ?_, ?_, ?_, ?_⟩, ?_, ?_, ?_, ?_⟩
  · rw [Db.transaction?, ← htransactions]
    exact hnew
  · intro s hs
    obtain ⟨spec, -, g, rfl⟩ := mem_splitRows hs
    rfl
  · exact (transaction?_append happend).1
  · exact (transaction?_append happend).2
  · intro l hl
    refine ⟨l, ?_, rfl⟩
    rw [hdb', hlots]
    exact List.mem_append_left _ hl
  · rw [hdb', ← hcommodities]
  · rw [hdb', ← hlots, hr]
  · rw [hdb', ← hinvoices]
    rfl
  · exact ⟨db₁.drawn, hdrawn, by rw [hdb']; dsimp only; omega, by rw [hr]⟩
  · intro s hs
    obtain ⟨spec, -, g, rfl⟩ := mem_splitRows hs
    refine ⟨rfl, ?_⟩
    simp only [postingSplit]
    split
    · exact .inr rfl
    · exact .inl rfl

variable {new : List Split}

theorem Posted.newLot (h : Posted host guid p r new db db') (hdraws : host.DrawsLots db) :
    ∀ l ∈ db.lots, l.guid ≠ r.lotGuid := by
  obtain ⟨n, hn, -, heq⟩ := h.drawn
  rw [heq]
  exact hdraws.unknown n hn

theorem Posted.kept (h : Posted host guid p r new db db') (hsound : Sound db)
    (hdraws : host.DrawsLots db)
    (hfraction : db.getCurrencyFraction p.invoice.currency = .ok p.fraction) :
    Kept db' (markPosted p.postDate r p.invoice) r.transactionGuid := by
  have hold (s : Split) (hs : s ∈ db.splits) :
      s.lotGuid ≠ some r.lotGuid ∧ s.txGuid ≠ r.transactionGuid := by
    refine ⟨fun hlot => ?_, fun htx => ?_⟩
    · obtain ⟨l, hl, heq⟩ := hsound.splitLot s hs _ hlot
      exact h.newLot hdraws l hl heq
    · have hsome := hsound.splitTxn s hs
      rw [htx, h.grows.newTxn] at hsome
      cases hsome
  refine ⟨h.grows.txn, fun g hg => ?_, fun s hs hst => ?_, fun g hg fraction hf s hs hsg => ?_,
    fun g hg => ?_⟩
  · obtain rfl : r.lotGuid = g := Option.some.inj hg
    refine ⟨⟨r.lotGuid, some r.postAccountGuid, 0⟩, ?_, rfl⟩
    rw [h.lots]
    exact List.mem_append_right _ (List.mem_singleton.2 rfl)
  · rw [h.grows.splits] at hs
    rcases List.mem_append.1 hs with hs | hs
    · exact absurd hst (hold s hs).2
    · exact (h.new s hs).2
  · obtain rfl : r.lotGuid = g := Option.some.inj hg
    have heq : fraction = p.fraction := by
      rw [h.grows.getCurrencyFraction] at hf
      exact Except.ok.inj (hf.symm.trans hfraction)
    rw [h.grows.splits] at hs
    rcases List.mem_append.1 hs with hs | hs
    · exact absurd hsg (hold s hs).1
    · rw [heq]
      exact (h.new s hs).1
  · obtain rfl : r.lotGuid = g := Option.some.inj hg
    have hall : db'.lotBalance r.lotGuid = db'.postedTotal r.transactionGuid r.lotGuid := by
      unfold Db.lotBalance Db.postedTotal total
      refine congrArg (fun l => (List.map _ l).sum) (List.filter_congr fun s hs => ?_)
      rw [h.grows.splits] at hs
      rcases List.mem_append.1 hs with hs | hs
      · simp [(hold s hs).1]
      · simp [h.grows.ofTxn s hs]
    rw [hall]
    exact Set.right_mem_uIcc

theorem Posted.sound (h : Posted host guid p r new db db') (hsound : Sound db)
    (hdraws : host.DrawsLots db) (hmem : p.invoice ∈ db.invoices) (hguid : p.invoice.guid = guid)
    (hfraction : db.getCurrencyFraction p.invoice.currency = .ok p.fraction) : Sound db' := by
  have hrow (i : Invoice) (hi : i ∈ db'.invoices) :
      i = markPosted p.postDate r p.invoice ∨ i ∈ db.invoices ∧ i.guid ≠ guid := by
    rw [h.invoices] at hi
    obtain ⟨j, hj, rfl⟩ := mem_editAt.1 hi
    split
    · next hjg =>
        rw [hsound.eq_of_guid hj hmem (hjg.trans hguid.symm)]
        exact .inl rfl
    · next hjg => exact .inr ⟨hj, hjg⟩
  have hapart (i : Invoice) (hi : i ∈ db.invoices) (hposted : i.postTxn.isSome) :
      i.postLot ≠ some r.lotGuid := by
    intro hlot
    obtain ⟨t, ht⟩ := Option.isSome_iff_exists.1 hposted
    obtain ⟨l, hl, heq⟩ := (hsound.docs i hi t ht).lot _ hlot
    exact h.newLot hdraws l hl heq
  refine hsound.extend h.grows ?_ ?_ ?_ ?_
  · rw [h.invoices, map_editAt (f := markPosted p.postDate r) fun _ => rfl]
    exact hsound.invoices
  · intro s hs g hg
    rcases (h.new s hs).2 with hlot | hlot
    · rw [hlot] at hg
      cases hg
    · obtain rfl : r.lotGuid = g := Option.some.inj (hlot.symm.trans hg)
      refine ⟨⟨r.lotGuid, some r.postAccountGuid, 0⟩, ?_, rfl⟩
      rw [h.lots]
      exact List.mem_append_right _ (List.mem_singleton.2 rfl)
  · intro i hi t ht
    rcases hrow i hi with rfl | ⟨hi, -⟩
    · obtain rfl : r.transactionGuid = t := Option.some.inj ht
      exact h.kept hsound hdraws hfraction
    · refine (hsound.docs i hi t ht).bystander h.grows fun g hg s hs hsg => ?_
      rcases (h.new s hs).2 with hlot | hlot
      · rw [hlot] at hsg
        cases hsg
      · exact hapart i hi (by rw [ht]; rfl) (hg.trans (hsg.symm.trans hlot))
  · intro i hi j hj hiposted hjposted g hig hjg
    rcases hrow i hi with rfl | ⟨hi, -⟩ <;> rcases hrow j hj with rfl | ⟨hj, -⟩
    · rfl
    · exact absurd (hjg.trans hig.symm) (hapart j hj hjposted)
    · exact absurd (hig.trans hjg.symm) (hapart i hi hiposted)
    · exact hsound.lots i hi j hj hiposted hjposted g hig hjg

theorem Posted.drawsLots (h : Posted host guid p r new db db') (hdraws : host.DrawsLots db) :
    host.DrawsLots db' := by
  obtain ⟨n, hle, hlt, heq⟩ := h.drawn
  refine hdraws.mono (hle.trans hlt.le) fun l hl => ?_
  rw [h.lots] at hl
  rcases List.mem_append.1 hl with hl | hl
  · exact .inl ⟨l, hl, rfl⟩
  · rw [List.mem_singleton.1 hl]
    exact .inr ⟨n, hlt, heq⟩

theorem Posted.frame (h : Posted host guid p r new db db') (hsound : Sound db)
    (hdraws : host.DrawsLots db) : Frame (· = guid) db db' := by
  refine ⟨h.grows.commodities, fun i hi hne => ?_, fun i hi hne hposted g hg => ?_⟩
  · rw [h.invoices]
    exact mem_editAt.2 ⟨i, hi, by rw [if_neg hne]⟩
  · refine h.grows.lotBalance_eq fun s hs hsg => ?_
    obtain ⟨t, ht⟩ := Option.isSome_iff_exists.1 hposted
    obtain ⟨l, hl, heq⟩ := (hsound.docs i hi t ht).lot g hg
    rcases (h.new s hs).2 with hlot | hlot
    · rw [hlot] at hsg
      cases hsg
    · exact h.newLot hdraws l hl (heq.trans (Option.some.inj (hsg.symm.trans hlot)))

end Post

/-! ## Unposting -/

section Unpost

variable {host : Host} {guid : String} {v : Unposting} {db db' : Db} {u : Unit} {new : List Split}

/-- The splits to be reversed are in no lot but the document's own. -/
def OwnSplits (v : Unposting) : Prop :=
  ∀ s ∈ v.splits, s.lotGuid = none ∨ s.lotGuid = v.invoice.postLot

structure Unposted (guid : String) (v : Unposting) (t : String) (new : List Split) (db db' : Db) :
    Prop where
  grows : Extends db db' t new
  lots : db'.lots.map Lot.guid = db.lots.map Lot.guid
  invoices : db'.invoices = editAt Invoice.guid guid clearPosted db.invoices
  drawn : db.drawn ≤ db'.drawn
  new : ∀ s ∈ new, s.lotGuid = none ∨ s.lotGuid = v.invoice.postLot

theorem unposted_writeReversal (hown : OwnSplits v)
    (h : Completes (writeReversal host guid v) db u db') :
    ∃ t new, Unposted guid v t new db db' := by
  obtain ⟨hnew, hdb', hlots, -⟩ := writeReversal_effect h
  have happend : db'.transactions =
      db.transactions ++ [reversalTxn host v (host.generateGuid db.drawn)] := by
    rw [hdb']
  refine ⟨_, _, ⟨by rw [hdb'], hnew, ?_, ?_, ?_, ?_, by rw [hdb']⟩, hlots, ?_, ?_, ?_⟩
  · intro s hs
    obtain ⟨spec, -, g, rfl⟩ := mem_splitRows hs
    rfl
  · exact (transaction?_append happend).1
  · exact (transaction?_append happend).2
  · exact exists_lot_of_guids hlots
  · rw [hdb']
    rfl
  · rw [hdb']
    dsimp only
    omega
  · intro s hs
    obtain ⟨spec, hspec, g, rfl⟩ := mem_splitRows hs
    exact hown spec hspec

variable {t : String}

theorem Unposted.apart (h : Unposted guid v t new db db') (hsound : Sound db)
    (hmem : v.invoice ∈ db.invoices) (hguid : v.invoice.guid = guid)
    (hposted : v.invoice.postTxn.isSome) {i : Invoice} (hi : i ∈ db.invoices) (hne : i.guid ≠ guid)
    (hiposted : i.postTxn.isSome) (hg : i.postLot = some g) {s : Split} (hs : s ∈ new) :
    s.lotGuid ≠ some g := by
  intro hsg
  rcases h.new s hs with hlot | hlot
  · rw [hlot] at hsg
    cases hsg
  · have heq := hsound.lots i hi v.invoice hmem hiposted hposted g hg (hlot.symm.trans hsg)
    exact hne (heq ▸ hguid)

theorem Unposted.sound (h : Unposted guid v t new db db') (hsound : Sound db)
    (hmem : v.invoice ∈ db.invoices) (hguid : v.invoice.guid = guid)
    (hposted : v.invoice.postTxn.isSome) : Sound db' := by
  have hrow (i : Invoice) (hi : i ∈ db'.invoices) (hiposted : i.postTxn.isSome) :
      i ∈ db.invoices ∧ i.guid ≠ guid := by
    rw [h.invoices] at hi
    obtain ⟨j, hj, rfl⟩ := mem_editAt.1 hi
    split at hiposted
    · cases hiposted
    · next hne =>
        rw [if_neg hne]
        exact ⟨hj, hne⟩
  refine hsound.extend h.grows ?_ ?_ ?_ ?_
  · rw [h.invoices, map_editAt (f := clearPosted) fun _ => rfl]
    exact hsound.invoices
  · intro s hs g hg
    rcases h.new s hs with hlot | hlot
    · rw [hlot] at hg
      cases hg
    · obtain ⟨t, ht⟩ := Option.isSome_iff_exists.1 hposted
      obtain ⟨l, hl, rfl⟩ := (hsound.docs _ hmem t ht).lot g (hlot.symm.trans hg)
      exact h.grows.lots l hl
  · intro i hi t ht
    obtain ⟨hi, hne⟩ := hrow i hi (by rw [ht]; rfl)
    exact (hsound.docs i hi t ht).bystander h.grows fun g hg s hs =>
      h.apart hsound hmem hguid hposted hi hne (by rw [ht]; rfl) hg hs
  · intro i hi j hj hiposted hjposted
    exact hsound.lots i (hrow i hi hiposted).1 j (hrow j hj hjposted).1 hiposted hjposted

theorem Unposted.frame (h : Unposted guid v t new db db') (hsound : Sound db)
    (hmem : v.invoice ∈ db.invoices) (hguid : v.invoice.guid = guid)
    (hposted : v.invoice.postTxn.isSome) : Frame (· = guid) db db' := by
  refine ⟨h.grows.commodities, fun i hi hne => ?_, fun i hi hne hiposted g hg => ?_⟩
  · rw [h.invoices]
    exact mem_editAt.2 ⟨i, hi, by rw [if_neg hne]⟩
  · exact h.grows.lotBalance_eq fun s hs =>
      h.apart hsound hmem hguid hposted hi hne hiposted hg hs

end Unpost

/-! ## Paying -/

/-- A payment is about to put into the lots what they can take: each part is for a posted document,
in whole units, and at most what is due on it. -/
structure Fits (db : Db) (owner : ResolvedOwner) (fraction : ℕ) (openDocs : List OpenDocument)
    (allocations : List PaymentAllocation) : Prop where
  nodup : (allocations.map PaymentAllocation.invoiceGuid).Nodup
  part : ∀ a ∈ allocations, ∃ d i, openByGuid openDocs a.invoiceGuid = some d ∧
    i ∈ db.invoices ∧ i.guid = a.invoiceGuid ∧ i.postTxn.isSome ∧ i.postLot = some d.postLot ∧
      i.currency = owner.currencyGuid ∧ (∃ m : ℤ, a.amount = m / fraction) ∧ 0 ≤ a.amount ∧
        a.amount ≤ owner.kind.sign * db.lotBalance d.postLot

theorem total_splitRows {α : Type} {host : Host} {row : α → String → Split} {p : Split → Prop}
    [DecidablePred p] {q : α → Prop} [DecidablePred q] {w : Split → ℚ} {v : α → ℚ}
    (hp : ∀ spec guid, p (row spec guid) ↔ q spec) (hw : ∀ spec guid, w (row spec guid) = v spec)
    (drawn : ℕ) (specs : List α) :
    total p w (splitRows host row drawn specs) = total q v specs := by
  induction specs generalizing drawn with
  | nil => rfl
  | cons spec rest ih =>
    rw [splitRows, total_cons, total_cons, ih]
    by_cases hq : q spec
    · rw [if_pos hq, if_pos ((hp _ _).2 hq), hw]
    · rw [if_neg hq, if_neg fun h => hq ((hp _ _).1 h)]

section Pay

variable {host : Host} {input : ApplyPaymentInput} {owner : ResolvedOwner} {fraction : ℕ}
  {postDate : ℤ} {openDocs : List OpenDocument} {allocations : List PaymentAllocation} {db db' : Db}
  {r : PaymentResult}

theorem Fits.frame {touched : String → Prop} (h : Fits db owner fraction openDocs allocations)
    (hframe : Frame touched db db') (hfree : ∀ a ∈ allocations, ¬touched a.invoiceGuid) :
    Fits db' owner fraction openDocs allocations := by
  refine ⟨h.nodup, fun a ha => ?_⟩
  obtain ⟨d, i, hd, hi, hguid, hposted, hlot, hcurrency, hwhole, hnonneg, hle⟩ := h.part a ha
  have hfree' : ¬touched i.guid := hguid ▸ hfree a ha
  refine ⟨d, i, hd, hframe.row i hi hfree', hguid, hposted, hlot, hcurrency, hwhole, hnonneg, ?_⟩
  rw [hframe.balance i hi hfree' hposted d.postLot hlot]
  exact hle

theorem paymentSplit_exact (hf : 0 < fraction) {kind : InvoiceKind} {amount : ℚ}
    (hwhole : ∃ m : ℤ, amount = m / fraction) :
    (fromDecimal (-kind.sign * amount) fraction).exact = -kind.sign * amount := by
  obtain ⟨m, rfl⟩ := hwhole
  have hunits : -kind.sign * (m / fraction : ℚ) = ((-(kind.unitSign * m) : ℤ) : ℚ) / fraction := by
    rw [neg_mul, sign_mul_div]
    push_cast
    ring
  rw [hunits, fromDecimal_div hf]
  simp [Amount.exact]

theorem total_paymentSpecs (hf : 0 < fraction) (hsound : Sound db)
    (hfits : Fits db owner fraction openDocs allocations) {i : Invoice} (hi : i ∈ db.invoices)
    (hposted : i.postTxn.isSome) (hg : i.postLot = some g) (amount : ℚ) :
    total (fun spec : PaymentSplitSpec => spec.lotGuid = some g)
        (fun spec => (fromDecimal spec.value fraction).exact)
        (paymentSpecs owner.kind openDocs amount allocations input) =
      -owner.kind.sign *
        total (fun a : PaymentAllocation => a.invoiceGuid = i.guid) (fun a => a.amount)
          allocations := by
  rw [paymentSpecs, buildPaymentSplits, total_cons, if_neg (by simp), zero_add]
  have hpart := hfits.part
  clear hfits
  induction allocations with
  | nil => simp
  | cons a rest ih =>
    obtain ⟨d, j, hd, hj, hjguid, hjposted, hjlot, -, hwhole, -, -⟩ := hpart a (by simp)
    have hiff : d.postLot = g ↔ a.invoiceGuid = i.guid := by
      constructor
      · intro heq
        rw [← hjguid, hsound.lots j hj i hi hjposted hposted g (heq ▸ hjlot) hg]
      · intro heq
        rw [hsound.eq_of_guid hj hi (hjguid.trans heq)] at hjlot
        exact Option.some.inj (hjlot.symm.trans hg)
    rw [List.filterMap_cons_some (by rw [hd]; rfl), List.map_cons, total_cons, total_cons,
      ih fun b hb => hpart b (List.mem_cons_of_mem _ hb)]
    by_cases heq : a.invoiceGuid = i.guid
    · have hlot : some d.postLot = some g := congrArg some (hiff.2 heq)
      rw [if_pos hlot, if_pos heq, paymentSplit_exact hf hwhole]
      ring
    · have hlot : some d.postLot ≠ some g := fun h => heq (hiff.1 (Option.some.inj h))
      rw [if_neg hlot, if_neg heq]
      ring

theorem mem_paymentSpecs {amount : ℚ} {spec : PaymentSplitSpec}
    (h : spec ∈ paymentSpecs owner.kind openDocs amount allocations input)
    (hg : spec.lotGuid = some g) :
    ∃ a ∈ allocations, ∃ d, openByGuid openDocs a.invoiceGuid = some d ∧ d.postLot = g := by
  unfold paymentSpecs buildPaymentSplits at h
  rcases List.mem_cons.1 h with rfl | h
  · cases hg
  · obtain ⟨alloc, halloc, rfl⟩ := List.mem_map.1 h
    obtain ⟨a, ha, hmap⟩ := List.mem_filterMap.1 halloc
    obtain ⟨d, hd, rfl⟩ := Option.map_eq_some_iff.1 hmap
    exact ⟨a, ha, d, hd, Option.some.inj hg⟩

theorem closeLots_guids {lotGuids : List String} {u : Unit}
    (h : Completes (lotGuids.forM closeLot) db u db') :
    db'.lots.map Lot.guid = db.lots.map Lot.guid ∧ db'.drawn = db.drawn := by
  refine h.forM_induction
    (P := fun t => t.lots.map Lot.guid = db.lots.map Lot.guid ∧ t.drawn = db.drawn) ⟨rfl, rfl⟩ ?_
  intro guid _ t _ t' ht hclose
  obtain ⟨-, rfl⟩ := completes_closeLot.1 hclose
  refine ⟨?_, ht.2⟩
  rw [← ht.1, List.map_map]
  refine List.map_congr_left fun l _ => ?_
  simp only [Function.comp]
  split <;> rfl

theorem writePayment_lots
    (h : Completes (writePayment host input owner fraction postDate openDocs allocations) db r db') :
    db'.lots.map Lot.guid = db.lots.map Lot.guid ∧ db.drawn ≤ db'.drawn := by
  obtain ⟨txnGuid, db₁, hguid, h⟩ := completes_bind.1 h
  have hdb₁ : db₁.lots = db.lots ∧ db.drawn ≤ db₁.drawn := by
    unfold paymentGuid at hguid
    cases hgiven : input.transactionGuid with
    | some guid =>
      rw [hgiven] at hguid
      rw [(completes_pure.1 hguid).2]
      exact ⟨rfl, le_rfl⟩
    | none =>
      rw [hgiven] at hguid
      rw [(completes_generateGuid.1 hguid).2]
      exact ⟨rfl, Nat.le_succ _⟩
  simp only [completes_bind, completes_createTransaction, completes_createSlot,
    completes_createSplits, completes_pure] at h
  obtain ⟨_, _, ⟨-, rfl⟩, _, _, rfl, _, _, rfl, _, _, rfl, _, _, hclose, -, rfl⟩ := h
  obtain ⟨hlots, hdrawn⟩ := closeLots_guids hclose
  refine ⟨hlots.trans (by rw [← hdb₁.1]), ?_⟩
  rw [hdrawn]
  exact hdb₁.2.trans (Nat.le_add_right _ _)

/-- What a payment that commits has done to the tables. -/
structure Paid (host : Host) (input : ApplyPaymentInput) (owner : ResolvedOwner) (fraction : ℕ)
    (openDocs : List OpenDocument) (allocations : List PaymentAllocation) (t : String)
    (new : List Split) (db db' : Db) : Prop where
  grows : Extends db db' t new
  lots : db'.lots.map Lot.guid = db.lots.map Lot.guid
  invoices : db'.invoices = db.invoices
  drawn : db.drawn ≤ db'.drawn
  new : ∃ n, new = splitRows host (paymentSplit fraction t) n
    (paymentSpecs owner.kind openDocs (roundCurrency input.amount fraction) allocations input)

theorem paid_writePayment
    (h : Completes (writePayment host input owner fraction postDate openDocs allocations) db r db') :
    ∃ t new, Paid host input owner fraction openDocs allocations t new db db' := by
  obtain ⟨drawn, specs, hnew, rfl, hdb'⟩ := writePayment_effect h
  obtain ⟨hlots, hdrawn⟩ := writePayment_lots h
  have happend : db'.transactions =
      db.transactions ++ [paymentTxn host input owner postDate r.transactionGuid] := by
    rw [hdb']
  refine ⟨r.transactionGuid, _, ⟨by rw [hdb'], hnew, ?_, ?_, ?_, ?_, by rw [hdb']⟩, hlots, ?_, hdrawn,
    ⟨drawn, rfl⟩⟩
  · intro s hs
    obtain ⟨spec, -, g, rfl⟩ := mem_splitRows hs
    rfl
  · exact (transaction?_append happend).1
  · exact (transaction?_append happend).2
  · exact exists_lot_of_guids hlots
  · rw [hdb']

variable {t : String} {new : List Split}

/-- Every split that a payment puts into a lot counts its units, in the lot of a document that is
posted. -/
theorem Paid.placed (h : Paid host input owner fraction openDocs allocations t new db db')
    (hfits : Fits db owner fraction openDocs allocations) {s : Split} (hs : s ∈ new)
    (hg : s.lotGuid = some g) :
    s.value.denom = fraction ∧ ∃ i ∈ db.invoices, i.postTxn.isSome ∧ i.postLot = some g ∧
      i.guid ∈ allocations.map PaymentAllocation.invoiceGuid ∧ i.currency = owner.currencyGuid := by
  obtain ⟨n, rfl⟩ := h.new
  obtain ⟨spec, hspec, guid, rfl⟩ := mem_splitRows hs
  obtain ⟨a, ha, d, hd, rfl⟩ := mem_paymentSpecs hspec hg
  obtain ⟨d', i, hd', hi, hguid, hposted, hlot, hcurrency, -⟩ := hfits.part a ha
  obtain rfl : d = d' := Option.some.inj (hd.symm.trans hd')
  exact ⟨rfl, i, hi, hposted, hlot, hguid ▸ List.mem_map_of_mem ha, hcurrency⟩

theorem Paid.lotBalance (h : Paid host input owner fraction openDocs allocations t new db db')
    (hf : 0 < fraction) (hsound : Sound db) (hfits : Fits db owner fraction openDocs allocations)
    {i : Invoice} (hi : i ∈ db.invoices) (hposted : i.postTxn.isSome) (hg : i.postLot = some g) :
    db'.lotBalance g = db.lotBalance g - owner.kind.sign *
      total (fun a : PaymentAllocation => a.invoiceGuid = i.guid) (fun a => a.amount)
        allocations := by
  obtain ⟨n, hnew⟩ := h.new
  rw [h.grows.lotBalance, hnew,
    total_splitRows (q := fun spec : PaymentSplitSpec => spec.lotGuid = some g)
      (v := fun spec => (fromDecimal spec.value fraction).exact) (fun _ _ => Iff.rfl)
      (fun _ _ => rfl),
    total_paymentSpecs hf hsound hfits hi hposted hg]
  ring

theorem Paid.lotBalance_mem (h : Paid host input owner fraction openDocs allocations t new db db')
    (hf : 0 < fraction) (hsound : Sound db) (hfits : Fits db owner fraction openDocs allocations)
    {i : Invoice} (hi : i ∈ db.invoices) (hposted : i.postTxn.isSome)
    (hg : i.postLot = some g) : db'.lotBalance g ∈ Set.uIcc 0 (db.lotBalance g) := by
  rw [h.lotBalance hf hsound hfits hi hposted hg]
  by_cases hmem : i.guid ∈ allocations.map PaymentAllocation.invoiceGuid
  · obtain ⟨a, ha, hguid⟩ := List.mem_map.1 hmem
    obtain ⟨d, j, hd, hj, hjguid, hjposted, hjlot, -, -, hnonneg, hle⟩ := hfits.part a ha
    rw [hsound.eq_of_guid hj hi (hjguid.trans hguid)] at hjlot
    obtain rfl : g = d.postLot := Option.some.inj (hg.symm.trans hjlot)
    rw [← hguid, total_key hfits.nodup ha, Set.mem_uIcc]
    cases hkind : owner.kind <;> rw [hkind] at hle <;> simp only [InvoiceKind.sign] at hle ⊢
    · exact .inl ⟨by linarith, by linarith⟩
    · exact .inr ⟨by linarith, by linarith⟩
  · have hnone : total (fun a : PaymentAllocation => a.invoiceGuid = i.guid) (fun a => a.amount)
        allocations = 0 :=
      total_eq_zero fun a ha heq => absurd (List.mem_map.2 ⟨a, ha, heq⟩) hmem
    rw [hnone, mul_zero, sub_zero]
    exact Set.right_mem_uIcc

theorem Paid.sound (h : Paid host input owner fraction openDocs allocations t new db db')
    (hsound : Sound db) (hfits : Fits db owner fraction openDocs allocations)
    (hfraction : db.getCurrencyFraction owner.currencyGuid = .ok fraction) : Sound db' := by
  have hf := db.getCurrencyFraction_pos hfraction
  refine hsound.extend h.grows (h.invoices ▸ hsound.invoices) ?_ ?_ (h.invoices ▸ hsound.lots)
  · intro s hs g hg
    obtain ⟨-, i, hi, hposted, hlot, -⟩ := h.placed hfits hs hg
    obtain ⟨t, ht⟩ := Option.isSome_iff_exists.1 hposted
    obtain ⟨l, hl, rfl⟩ := (hsound.docs i hi t ht).lot g hlot
    exact h.grows.lots l hl
  · intro i hi t' ht'
    rw [h.invoices] at hi
    have hposted : i.postTxn.isSome := by rw [ht']; rfl
    refine (hsound.docs i hi t' ht').extend h.grows ?_ fun g hg =>
      h.lotBalance_mem hf hsound hfits hi hposted hg
    intro g hg fraction' hf' s hs hsg
    obtain ⟨hdenom, j, hj, hjposted, hjlot, -, hcurrency⟩ := h.placed hfits hs hsg
    rw [hsound.lots i hi j hj hposted hjposted g hg hjlot, hcurrency, hfraction] at hf'
    rw [hdenom, Except.ok.inj hf']

theorem Paid.frame (h : Paid host input owner fraction openDocs allocations t new db db')
    (hsound : Sound db) (hfits : Fits db owner fraction openDocs allocations) :
    Frame (· ∈ allocations.map PaymentAllocation.invoiceGuid) db db' := by
  refine ⟨h.grows.commodities, fun i hi _ => h.invoices ▸ hi, fun i hi hne hposted g hg => ?_⟩
  refine h.grows.lotBalance_eq fun s hs hsg => ?_
  obtain ⟨-, j, hj, hjposted, hjlot, hjmem, -⟩ := h.placed hfits hs hsg
  rw [hsound.lots i hi j hj hposted hjposted g hg hjlot] at hne
  exact hne hjmem

end Pay

/-! ## What a payment chooses -/

/-- Whether a payment may give something to a document: it names none, or this one. -/
def MayPay (input : ApplyPaymentInput) (guid : String) : Prop :=
  input.allocations = [] ∨ guid ∈ input.allocations.map PaymentAllocation.invoiceGuid

instance (input : ApplyPaymentInput) (guid : String) : Decidable (MayPay input guid) :=
  inferInstanceAs (Decidable (_ ∨ _))

/-- The amount due that was read is not above what the lot holds, and no part that is asked for is
half a unit above it. -/
def DueHeld (db : Db) (kind : InvoiceKind) (fraction : ℕ) (input : ApplyPaymentInput)
    (d : OpenDocument) : Prop :=
  d.amountDue ≤ kind.sign * db.lotBalance d.postLot ∧
    ∀ a ∈ input.allocations, a.invoiceGuid = d.guid →
      a.amount ≠ d.amountDue + paymentEpsilon fraction

instance (db : Db) (kind : InvoiceKind) (fraction : ℕ) (input : ApplyPaymentInput)
    (d : OpenDocument) : Decidable (DueHeld db kind fraction input d) :=
  inferInstanceAs (Decidable (_ ∧ _))

/-- A part of a payment is a number below half a unit above an amount due, rounded. -/
def IsPart (fraction : ℕ) (due amount : ℚ) : Prop :=
  ∃ x, amount = roundCurrency x fraction ∧ 0 ≤ x ∧ x < due + paymentEpsilon fraction

section Choose

variable {currencyGuid : String} {fraction : ℕ} {openDocs : List OpenDocument} {amount : ℚ}
  {input : ApplyPaymentInput} {allocations : List PaymentAllocation}

theorem openByGuid_of_mem (hnd : (openDocs.map OpenDocument.guid).Nodup) {d : OpenDocument}
    (hd : d ∈ openDocs) : openByGuid openDocs d.guid = some d := by
  obtain ⟨d', hd'⟩ := openByGuid_isSome hd
  have hguid : d'.guid = d.guid := by simpa using List.find?_some hd'
  rw [hd', List.inj_on_of_nodup_map hnd (List.mem_of_find?_eq_some hd') hd hguid]

theorem allocateFrom_guids (remaining : ℚ) (docs : List OpenInvoiceForPayment) :
    ((allocateFrom fraction remaining docs).allocations.map PaymentAllocation.invoiceGuid).Sublist
      (docs.map OpenInvoiceForPayment.guid) := by
  induction docs generalizing remaining with
  | nil => exact List.nil_sublist _
  | cons inv rest ih =>
    unfold allocateFrom
    split
    · exact List.nil_sublist _
    · exact (ih _).cons_cons _

theorem allocateFrom_parts (hf : 0 < fraction) {remaining : ℚ} {docs : List OpenInvoiceForPayment}
    (hdue : ∀ inv ∈ docs, paymentEpsilon fraction < inv.amountDue) :
    ∀ a ∈ (allocateFrom fraction remaining docs).allocations,
      ∃ inv ∈ docs, inv.guid = a.invoiceGuid ∧ IsPart fraction inv.amountDue a.amount := by
  have heps : 0 < paymentEpsilon fraction := by
    unfold paymentEpsilon
    positivity
  induction docs generalizing remaining with
  | nil => simp [allocateFrom]
  | cons inv rest ih =>
    intro a ha
    unfold allocateFrom at ha
    split at ha
    · simp at ha
    · next hmore =>
        rcases List.mem_cons.1 ha with rfl | ha
        · have hinv := hdue inv (by simp)
          have hle : min inv.amountDue remaining ≤ inv.amountDue := min_le_left _ _
          exact ⟨inv, by simp, rfl, _, rfl, le_min (by linarith) (by linarith), by linarith⟩
        · obtain ⟨inv', hinv', hpart⟩ := ih (fun i hi => hdue i (List.mem_cons_of_mem _ hi)) a ha
          exact ⟨inv', List.mem_cons_of_mem _ hinv', hpart⟩

theorem fifoAllocations_parts (hf : 0 < fraction) (hnd : (openDocs.map OpenDocument.guid).Nodup)
    (h : fifoAllocations currencyGuid fraction openDocs amount = .ok allocations) :
    (allocations.map PaymentAllocation.invoiceGuid).Nodup ∧ ∀ a ∈ allocations, ∃ d ∈ openDocs,
      d.guid = a.invoiceGuid ∧ d.currency = currencyGuid ∧ IsPart fraction d.amountDue a.amount := by
  simp only [fifoAllocations, except_bind_eq_ok, require_eq_ok, pure, Except.pure,
    Except.ok.injEq] at h
  obtain ⟨_, -, _, -, rfl⟩ := h
  unfold allocatePaymentFifo
  refine ⟨(allocateFrom_guids _ _).nodup ?_, fun a ha => ?_⟩
  · refine ((List.perm_insertionSort _ _).map _).nodup_iff.2 ?_
    refine (List.filter_sublist.map _).nodup ?_
    rw [List.map_map]
    exact (List.filter_sublist.map _).nodup hnd
  · obtain ⟨inv, hinv, hguid, hpart⟩ := allocateFrom_parts hf (fun inv hinv => by
      simpa using List.of_mem_filter ((List.mem_insertionSort _).1 hinv)) a ha
    have hinv := List.mem_of_mem_filter ((List.mem_insertionSort _).1 hinv)
    obtain ⟨d, hd, rfl⟩ := List.mem_map.1 hinv
    exact ⟨d, List.mem_of_mem_filter hd, hguid, by simpa using List.of_mem_filter hd, hpart⟩

/-- What is chosen is a part of what is due, on different documents, unless half a unit more is
asked for. -/
theorem chooseAllocations_parts (hf : 0 < fraction) (hnd : (openDocs.map OpenDocument.guid).Nodup)
    (hhalf : ∀ d ∈ openDocs, ∀ a ∈ input.allocations, a.invoiceGuid = d.guid →
      a.amount ≠ d.amountDue + paymentEpsilon fraction)
    (h : chooseAllocations currencyGuid fraction openDocs amount input = .ok allocations) :
    (allocations.map PaymentAllocation.invoiceGuid).Nodup ∧ ∀ a ∈ allocations, ∃ d ∈ openDocs,
      d.guid = a.invoiceGuid ∧ d.currency = currencyGuid ∧ MayPay input d.guid ∧
        IsPart fraction d.amountDue a.amount := by
  unfold chooseAllocations at h
  split at h
  · simp only [explicitAllocations, except_bind_eq_ok, require_eq_ok, pure, Except.pure,
      Except.ok.injEq] at h
    obtain ⟨_, hchecks, _, hdistinct, _, -, rfl⟩ := h
    refine ⟨by simpa [List.map_map, Function.comp_def] using hdistinct, fun a ha => ?_⟩
    obtain ⟨b, hb, rfl⟩ := List.mem_map.1 ha
    obtain ⟨d, hd, hpos, hle, hcurrency⟩ :=
      checkAllocation_eq_ok.1 (check_of_forM_eq_ok hchecks b hb)
    have hguid : d.guid = b.invoiceGuid := by simpa using List.find?_some hd
    have hmem := List.mem_of_find?_eq_some hd
    refine ⟨d, hmem, hguid, hcurrency, ?_, b.amount, rfl, hpos.le, ?_⟩
    · exact .inr (hguid ▸ List.mem_map_of_mem hb)
    · exact lt_of_le_of_ne hle (hhalf d hmem b hb hguid.symm)
  · next hnone =>
      obtain ⟨hdistinct, hparts⟩ := fifoAllocations_parts hf hnd h
      refine ⟨hdistinct, fun a ha => ?_⟩
      obtain ⟨d, hd, hguid, hcurrency, hpart⟩ := hparts a ha
      exact ⟨d, hd, hguid, hcurrency, .inl (not_not.1 hnone), hpart⟩

/-- A part of an amount due is at most any whole number of units that the amount due is. -/
theorem IsPart.le (hf : 0 < fraction) {due : ℚ} (h : IsPart fraction due amount) {n : ℤ}
    (hdue : due ≤ n / fraction) : 0 ≤ amount ∧ amount ≤ n / fraction := by
  obtain ⟨x, rfl, hx, hlt⟩ := h
  have hf' : (0 : ℚ) < fraction := by exact_mod_cast hf
  have hunits : units x fraction ≤ n := by
    rw [units_of_nonneg hx, round_eq, ← Int.lt_add_one_iff, Int.floor_lt]
    have hmul : x * fraction < (n / fraction + paymentEpsilon fraction) * fraction := by
      gcongr
      linarith
    rw [paymentEpsilon, add_mul, div_mul_cancel₀ _ hf'.ne', div_mul_cancel₀ _ hf'.ne'] at hmul
    push_cast
    linarith
  rw [roundCurrency_eq]
  have hnonneg : 0 ≤ units x fraction := units_nonneg hx
  have hle : (units x fraction : ℚ) ≤ n := by exact_mod_cast hunits
  exact ⟨by positivity, by gcongr⟩

end Choose

theorem openDocument_eq_some {kind : InvoiceKind} {splits : List Split} {i : Invoice}
    {d : OpenDocument} (h : openDocument kind splits i = some d) :
    d.guid = i.guid ∧ i.postLot = some d.postLot ∧ d.currency = i.currency := by
  unfold openDocument at h
  split at h
  · next hlot hacc =>
      cases h
      exact ⟨rfl, hlot, rfl⟩
  · cases h

theorem openDocs_nodup (kind : InvoiceKind) (splits : List Split) {docs : List Invoice}
    (h : (docs.map Invoice.guid).Nodup) :
    ((loadOpenDocuments kind docs splits).map OpenDocument.guid).Nodup := by
  have hsub : ((loadOpenDocuments kind docs splits).map OpenDocument.guid).Sublist
      (docs.map Invoice.guid) := by
    unfold loadOpenDocuments
    clear h
    induction docs with
    | nil => exact List.nil_sublist _
    | cons i rest ih =>
      cases hi : openDocument kind splits i with
      | none =>
        rw [List.filterMap_cons_none hi]
        exact ih.cons _
      | some d =>
        rw [List.filterMap_cons_some hi, List.map_cons, List.map_cons,
          (openDocument_eq_some hi).1]
        exact ih.cons_cons _
  exact hsub.nodup h

/-- What a payment chooses fits, when the documents are still as they were read and hold what is due
on them. -/
theorem fits_of_chooseAllocations {db : Db} {owner : ResolvedOwner} {fraction : ℕ}
    {input : ApplyPaymentInput} {docs : List Invoice} {amount : ℚ}
    {allocations : List PaymentAllocation} (hsound : Sound db)
    (hfraction : db.getCurrencyFraction owner.currencyGuid = .ok fraction)
    (hnd : (docs.map Invoice.guid).Nodup)
    (hdocs : ∀ i ∈ docs, MayPay input i.guid → i ∈ db.invoices ∧ i.postTxn.isSome)
    (hheld : ∀ d ∈ loadOpenDocuments owner.kind docs db.splits, MayPay input d.guid →
      DueHeld db owner.kind fraction input d)
    (h : chooseAllocations owner.currencyGuid fraction
      (loadOpenDocuments owner.kind docs db.splits) amount input = .ok allocations) :
    Fits db owner fraction (loadOpenDocuments owner.kind docs db.splits) allocations ∧
      ∀ a ∈ allocations, ∃ i ∈ docs, i.guid = a.invoiceGuid ∧ MayPay input i.guid := by
  have hf := db.getCurrencyFraction_pos hfraction
  have hndOpen := openDocs_nodup owner.kind db.splits hnd
  have hhalf : ∀ d ∈ loadOpenDocuments owner.kind docs db.splits, ∀ a ∈ input.allocations,
      a.invoiceGuid = d.guid → a.amount ≠ d.amountDue + paymentEpsilon fraction := fun d hd a ha heq =>
    (hheld d hd (.inr (heq ▸ List.mem_map_of_mem ha))).2 a ha heq
  obtain ⟨hdistinct, hparts⟩ := chooseAllocations_parts hf hndOpen hhalf h
  have hread (d : OpenDocument) (hd : d ∈ loadOpenDocuments owner.kind docs db.splits) :
      ∃ i ∈ docs, d.guid = i.guid ∧ i.postLot = some d.postLot ∧ d.currency = i.currency := by
    obtain ⟨i, hi, heq⟩ := List.mem_filterMap.1 hd
    exact ⟨i, hi, openDocument_eq_some heq⟩
  refine ⟨⟨hdistinct, fun a ha => ?_⟩, fun a ha => ?_⟩
  · obtain ⟨d, hd, hguid, hcurrency, hmay, hpart⟩ := hparts a ha
    obtain ⟨i, hi, hdi, hlot, hdc⟩ := hread d hd
    obtain ⟨hmem, hposted⟩ := hdocs i hi (hdi ▸ hmay)
    obtain ⟨t, ht⟩ := Option.isSome_iff_exists.1 hposted
    have hic : i.currency = owner.currencyGuid := hdc.symm.trans hcurrency
    obtain ⟨n, hn⟩ := exists_lotBalance_eq
      ((hsound.docs i hmem t ht).units d.postLot hlot fraction (hic ▸ hfraction))
    have hdue := (hheld d hd hmay).1
    rw [hn, sign_mul_div] at hdue
    obtain ⟨hnonneg, hle⟩ := hpart.le hf hdue
    refine ⟨d, i, ?_, hmem, hdi.symm.trans hguid, hposted, hlot, hic, ?_, hnonneg, ?_⟩
    · rw [← hguid]
      exact openByGuid_of_mem hndOpen hd
    · obtain ⟨x, hx, -⟩ := hpart
      exact ⟨units x fraction, hx⟩
    · rw [hn, sign_mul_div]
      exact hle
  · obtain ⟨d, hd, hguid, -, hmay, -⟩ := hparts a ha
    obtain ⟨i, hi, hdi, -⟩ := hread d hd
    exact ⟨i, hi, hdi.symm.trans hguid, hdi ▸ hmay⟩

end Business
