import GnucashWeb.Business.Posting
import GnucashWeb.Lib.Runs

/-!
# Posting and unposting a document again and again

Runs of `postInvoice` and `unpostInvoice` on one document, whose entries may be edited in between.
`nets_out` says that everything they wrote amounts, account by account, to the live posting alone,
that what they wrote stays as it is, and that the document claims one lot and one transaction at
most.
-/

open Runs Transact
open Ledger (Amount Split Lot)

namespace Business

/-! ## Contributions -/

/-- What the splits of some transactions come to on an account, in one of the two columns. -/
def contribution (splits : List Split) (txGuids : List String) (column : Split → Amount)
    (accountGuid : String) : ℚ :=
  ((splits.filter fun s => s.txGuid ∈ txGuids ∧ s.accountGuid = accountGuid).map fun s =>
    (column s).exact).sum

def IsColumn (column : Split → Amount) : Prop := column = Split.value ∨ column = Split.quantity

section Contribution

variable {splits more : List Split} {txGuids txGuids' : List String} {column : Split → Amount}
  {a : String}

theorem contribution_append :
    contribution (splits ++ more) txGuids column a =
      contribution splits txGuids column a + contribution more txGuids column a := by
  simp [contribution]

theorem contribution_congr (h : ∀ s ∈ splits, s.txGuid ∈ txGuids ↔ s.txGuid ∈ txGuids') :
    contribution splits txGuids column a = contribution splits txGuids' column a := by
  unfold contribution
  congr 2
  exact List.filter_congr fun s hs => by simp [h s hs]

theorem contribution_eq_zero (h : ∀ s ∈ splits, s.txGuid ∉ txGuids) :
    contribution splits txGuids column a = 0 := by
  unfold contribution
  rw [List.filter_eq_nil_iff.2 fun s hs => by simp [h s hs]]
  rfl

theorem contribution_splitsOfTx (txGuid : String) :
    contribution (splits.filter fun s => s.txGuid = txGuid) [txGuid] column a =
      contribution splits [txGuid] column a := by
  unfold contribution
  rw [List.filter_filter]
  congr 2
  refine List.filter_congr fun s _ => ?_
  by_cases hs : s.txGuid = txGuid <;> simp [hs]

theorem contribution_reversal {host : Host} {reversalGuid txGuid memo : String} {drawn : ℕ}
    (hcolumn : IsColumn column) (h : ∀ s ∈ splits, s.txGuid = txGuid) :
    contribution (splitRows host (reversalSplit reversalGuid memo) drawn splits) [reversalGuid] column
      a = -contribution splits [txGuid] column a := by
  have hexact (s : Split) (guid : String) :
      (column (reversalSplit reversalGuid memo s guid)).exact = -(column s).exact := by
    rcases hcolumn with rfl | rfl <;> simp [reversalSplit, Amount.exact, neg_div]
  induction splits generalizing drawn with
  | nil => simp [contribution, splitRows]
  | cons s rest ih =>
    have hrest := @ih (drawn + 1) fun t ht => h t (List.mem_cons_of_mem _ ht)
    have hs := h s (by simp)
    unfold contribution at hrest ⊢
    by_cases ha : s.accountGuid = a
    · have hnew : (reversalSplit reversalGuid memo s (host.generateGuid drawn)).accountGuid = a := ha
      rw [splitRows, List.filter_cons_of_pos (by simp [reversalSplit, ha]),
        List.filter_cons_of_pos (by simp [hs, ha]), List.map_cons, List.map_cons, List.sum_cons,
        List.sum_cons, hrest, hexact, neg_add]
    · rw [splitRows, List.filter_cons_of_neg (by simp [reversalSplit, ha]),
        List.filter_cons_of_neg (by simp [ha]), hrest]

end Contribution

/-- A guid names a row, or is used as the guid of an object or of a frame. -/
def Db.Knows (db : Db) (g : String) : Prop :=
  (∃ t ∈ db.transactions, t.guid = g) ∨ (∃ l ∈ db.lots, l.guid = g) ∨
    (∃ s ∈ db.splits, s.txGuid = g) ∨ ∃ r ∈ db.slots, r.objGuid = g ∨ r.value = .frame g

/-- The guids that the host draws from now on are new, distinct and not empty. -/
structure Host.Fresh (host : Host) (db : Db) : Prop where
  ne_empty : ∀ n, host.generateGuid n ≠ ""
  injective : Function.Injective host.generateGuid
  unknown : ∀ n, db.drawn ≤ n → ¬db.Knows (host.generateGuid n)

theorem Host.Fresh.mono {host : Host} {db db' : Db} (h : host.Fresh db)
    (hdrawn : db.drawn ≤ db'.drawn)
    (hknows : ∀ g, db'.Knows g → db.Knows g ∨
      ∃ n, db.drawn ≤ n ∧ n < db'.drawn ∧ g = host.generateGuid n) : host.Fresh db' := by
  refine ⟨h.ne_empty, h.injective, fun n hn hk => ?_⟩
  rcases hknows _ hk with hk | ⟨m, -, hm, heq⟩
  · exact h.unknown n (hdrawn.trans hn) hk
  · have := h.injective heq
    omega

def Db.Claims (db : Db) (invoiceGuid objGuid : String) : Prop :=
  ∃ frame, ⟨objGuid, frameName, .frame frame⟩ ∈ db.slots ∧
    ⟨frame, linkName, .guid invoiceGuid⟩ ∈ db.slots

/-- The transaction that a document says is its posting. -/
def Db.liveTxn (db : Db) (guid : String) : Option String :=
  (db.invoice? guid).bind fun i => truthy i.postTxn

def Db.liveLot (db : Db) (guid : String) : Option String :=
  (db.invoice? guid).bind fun i => truthy i.postLot

/-! ## Runs of calls -/

/-- The tables, and the transactions that the calls have written. -/
structure Cycle where
  db : Db
  written : List Txn
deriving DecidableEq, Repr

inductive Call
  | post (input : PostInvoiceInput)
  | unpost
  /-- Anything else changes, outside the ledger and the posting columns of the document. -/
  | edit (db : Db)

def Invoice.postingColumns (i : Invoice) :
    Option ℤ × Option String × Option String × Option String :=
  (i.datePosted, i.postTxn, i.postAcc, i.postLot)

/-- The ledger, the slots and the posting columns of a document are as they were. -/
def LedgerKept (guid : String) (db db' : Db) : Prop :=
  db'.transactions = db.transactions ∧ db'.splits = db.splits ∧ db'.lots = db.lots ∧
    db'.slots = db.slots ∧ db'.drawn = db.drawn ∧
    (db'.invoice? guid).map Invoice.postingColumns = (db.invoice? guid).map Invoice.postingColumns

instance (guid : String) (db db' : Db) : Decidable (LedgerKept guid db db') :=
  inferInstanceAs (Decidable (_ ∧ _ ∧ _ ∧ _ ∧ _ ∧ _))

/-- A call committed: its transactions are those it appended. -/
def Cycle.commit (s : Cycle) (db : Db) : Cycle :=
  ⟨db, s.written ++ db.transactions.drop s.db.transactions.length⟩

def callNext (host : Host) (bookGuid guid : String) : Call → Cycle → Option Cycle
  | .post input, s => (stateAfter (postInvoice host bookGuid guid input) s.db).map s.commit
  | .unpost, s => (stateAfter (unpostInvoice host bookGuid guid) s.db).map s.commit
  | .edit db, s => if LedgerKept guid s.db db then some { s with db := db } else none

/-- A document that was never posted, in tables that draw fresh guids. -/
structure Draft (host : Host) (guid : String) (s : Cycle) : Prop where
  fresh : host.Fresh s.db
  unposted : s.db.liveTxn guid = none
  unlotted : s.db.liveLot guid = none
  unclaimed : ∀ objGuid, ¬s.db.Claims guid objGuid
  written : s.written = []

/-- What the calls wrote comes to the live posting alone, and the document claims one lot and one
transaction at most. -/
structure NetsOut (guid : String) (s : Cycle) : Prop where
  contributions : ∀ column a, IsColumn column →
    contribution s.db.splits (s.written.map Txn.guid) column a =
      contribution s.db.splits (s.db.liveTxn guid).toList column a
  live : ∀ t ∈ s.db.liveTxn guid, t ∈ s.written.map Txn.guid
  lots : ∀ l ∈ s.db.lots, s.db.Claims guid l.guid → s.db.liveLot guid = some l.guid
  transactions : ∀ t ∈ s.db.transactions, s.db.Claims guid t.guid →
    s.db.liveTxn guid = some t.guid

/-! ## One posting -/

/-- What a posting does: a transaction and a lot under new guids, which the document is pointed at. -/
structure Posts (host : Host) (guid : String) (db db' : Db) (t : Txn) (lot : Lot)
    (new : List Split) : Prop where
  transactions : db'.transactions = db.transactions ++ [t]
  lots : db'.lots = db.lots ++ [lot]
  splits : db'.splits = db.splits ++ new
  ofTxn : ∀ s ∈ new, s.txGuid = t.guid
  unknownTxn : ¬db.Knows t.guid
  unknownLot : ¬db.Knows lot.guid
  apart : lot.guid ≠ t.guid
  liveTxn : db'.liveTxn guid = some t.guid
  liveLot : db'.liveLot guid = some lot.guid
  claims : ∀ objGuid, db'.Claims guid objGuid →
    db.Claims guid objGuid ∨ objGuid = t.guid ∨ objGuid = lot.guid
  fresh : host.Fresh db'

section Posting

variable {host : Host} {bookGuid guid : String} {db db' : Db}

theorem fresh_findOrCreate {kind : InvoiceKind} {bookRootGuid currencyGuid a : String}
    (hfresh : host.Fresh db)
    (h : Completes (findOrCreatePostAccount host kind bookRootGuid currencyGuid) db a db') :
    host.Fresh db' := by
  obtain ⟨heq, hle⟩ := findOrCreatePostAccount_effect h
  refine hfresh.mono hle fun g hg => .inl ?_
  rw [heq] at hg
  exact hg

theorem claims_postingSlots {day : String} {objGuid : String} (hfresh : host.Fresh db)
    (hslots : db'.slots = db.slots ++ postingSlots host guid db.drawn day)
    (h : db'.Claims guid objGuid) :
    db.Claims guid objGuid ∨ objGuid = host.generateGuid (db.drawn + 2) ∨
      objGuid = host.generateGuid db.drawn := by
  obtain ⟨frame, hframe, hlink⟩ := h
  rw [hslots] at hframe hlink
  have hframe' : ⟨objGuid, frameName, .frame frame⟩ ∈ db.slots ∨
      (objGuid = host.generateGuid db.drawn ∧ frame = host.generateGuid (db.drawn + 1)) ∨
      objGuid = host.generateGuid (db.drawn + 2) ∧ frame = host.generateGuid (db.drawn + 3) := by
    simpa [postingSlots, frameName, linkName] using hframe
  have hlink' : ⟨frame, linkName, .guid guid⟩ ∈ db.slots ∨
      frame = host.generateGuid (db.drawn + 1) ∨ frame = host.generateGuid (db.drawn + 3) := by
    simpa [postingSlots, frameName, linkName] using hlink
  rcases hframe' with hframe | ⟨hobj, -⟩ | ⟨hobj, -⟩
  · rcases hlink' with hlink | hnew | hnew
    · exact .inl ⟨frame, hframe, hlink⟩
    · exact absurd (.inr (.inr (.inr ⟨_, hframe, .inr (by rw [hnew])⟩)))
        (hfresh.unknown _ (Nat.le_add_right db.drawn 1))
    · exact absurd (.inr (.inr (.inr ⟨_, hframe, .inr (by rw [hnew])⟩)))
        (hfresh.unknown _ (Nat.le_add_right db.drawn 3))
  · exact .inr (.inr hobj)
  · exact .inr (.inl hobj)

theorem knows_postingSlots {drawn : ℕ} {day g : String}
    (h : ∃ r ∈ postingSlots host guid drawn day, r.objGuid = g ∨ r.value = .frame g) :
    ∃ n, drawn ≤ n ∧ n < drawn + 4 ∧ g = host.generateGuid n := by
  obtain ⟨r, hr, h⟩ := h
  have hguid : g = host.generateGuid drawn ∨ g = host.generateGuid (drawn + 1) ∨
      g = host.generateGuid (drawn + 2) ∨ g = host.generateGuid (drawn + 3) := by
    simp only [postingSlots, List.mem_cons, List.not_mem_nil, or_false] at hr
    rcases hr with rfl | rfl | rfl | rfl | rfl | rfl | rfl <;>
      simp only [SlotValue.frame.injEq, reduceCtorEq, or_false] at h <;> grind
  rcases hguid with rfl | rfl | rfl | rfl
  · exact ⟨drawn, le_rfl, by omega, rfl⟩
  · exact ⟨drawn + 1, by omega, by omega, rfl⟩
  · exact ⟨drawn + 2, by omega, by omega, rfl⟩
  · exact ⟨drawn + 3, by omega, by omega, rfl⟩

variable {input : PostInvoiceInput} {r : PostResult}

theorem fresh_writePosting {p : Posting} {postAccountGuid : String} (hfresh : host.Fresh db)
    (h : Completes (writePosting host guid input p postAccountGuid) db r db') :
    host.Fresh db' := by
  obtain ⟨hr, -, hdb'⟩ := writePosting_effect h
  have hdrawn : db'.drawn = db.drawn + 4 + (p.specs input postAccountGuid).length := by rw [hdb']
  have htxn : r.transactionGuid = host.generateGuid (db.drawn + 2) := by rw [hr]
  have hlot : r.lotGuid = host.generateGuid db.drawn := by rw [hr]
  refine hfresh.mono (by omega) fun g hg => ?_
  have hn (n : ℕ) (hle : n < 4) (heq : g = host.generateGuid (db.drawn + n)) :
      ∃ m, db.drawn ≤ m ∧ m < db'.drawn ∧ g = host.generateGuid m :=
    ⟨db.drawn + n, by omega, by omega, heq⟩
  rcases hg with ⟨t, ht, rfl⟩ | ⟨l, hl, rfl⟩ | ⟨s, hs, rfl⟩ | hslot
  · rw [hdb'] at ht
    rcases List.mem_append.1 ht with ht | ht
    · exact .inl (.inl ⟨t, ht, rfl⟩)
    · obtain rfl := List.mem_singleton.1 ht
      exact .inr (hn 2 (by omega) htxn)
  · rw [hdb'] at hl
    rcases List.mem_append.1 hl with hl | hl
    · exact .inl (.inr (.inl ⟨l, hl, rfl⟩))
    · obtain rfl := List.mem_singleton.1 hl
      exact .inr (hn 0 (by omega) hlot)
  · rw [hdb'] at hs
    rcases List.mem_append.1 hs with hs | hs
    · exact .inl (.inr (.inr (.inl ⟨s, hs, rfl⟩)))
    · obtain ⟨spec, -, guid', rfl⟩ := mem_splitRows hs
      exact .inr (hn 2 (by omega) htxn)
  · obtain ⟨row, hrow, h⟩ := hslot
    rw [hdb'] at hrow
    rcases List.mem_append.1 hrow with hrow | hrow
    · exact .inl (.inr (.inr (.inr ⟨row, hrow, h⟩)))
    · obtain ⟨n, hle, hlt, heq⟩ := knows_postingSlots ⟨row, hrow, h⟩
      exact .inr ⟨n, hle, by omega, heq⟩

theorem posts_writePosting {p : Posting} {postAccountGuid : String}
    (hfresh : host.Fresh db) (hinvoice : (db.invoice? guid).isSome)
    (h : Completes (writePosting host guid input p postAccountGuid) db r db') :
    ∃ t lot new, Posts host guid db db' t lot new := by
  obtain ⟨hr, -, hdb'⟩ := writePosting_effect h
  have htxn : r.transactionGuid = host.generateGuid (db.drawn + 2) := by rw [hr]
  have hlot : r.lotGuid = host.generateGuid db.drawn := by rw [hr]
  obtain ⟨i, hi⟩ := Option.isSome_iff_exists.1 hinvoice
  have hlive : db'.invoice? guid = some (markPosted p.postDate r i) := by
    rw [invoice?_update (f := markPosted p.postDate r) (fun _ => rfl) (by rw [hdb']), hi]
    rfl
  have htruthy (n : ℕ) : truthy (some (host.generateGuid n)) = some (host.generateGuid n) := by
    simp [truthy, hfresh.ne_empty]
  refine ⟨_, _, _, by rw [hdb'], by rw [hdb'], by rw [hdb'], ?_, ?_, ?_, ?_, ?_, ?_, ?_, ?_⟩
  · intro s hs
    obtain ⟨spec, -, g, rfl⟩ := mem_splitRows hs
    rfl
  · change ¬db.Knows r.transactionGuid
    rw [htxn]
    exact hfresh.unknown _ (Nat.le_add_right _ _)
  · change ¬db.Knows r.lotGuid
    rw [hlot]
    exact hfresh.unknown _ le_rfl
  · change r.lotGuid ≠ r.transactionGuid
    rw [hlot, htxn]
    intro heq
    have := hfresh.injective heq
    omega
  · rw [Db.liveTxn, hlive]
    change truthy (some r.transactionGuid) = some r.transactionGuid
    rw [htxn, htruthy]
  · rw [Db.liveLot, hlive]
    change truthy (some r.lotGuid) = some r.lotGuid
    rw [hlot, htruthy]
  · intro objGuid hclaims
    have := claims_postingSlots hfresh (by rw [hdb']) hclaims
    rwa [← htxn, ← hlot] at this
  · exact fresh_writePosting hfresh h

theorem posts_postInvoice (hfresh : host.Fresh db)
    (h : Completes (postInvoice host bookGuid guid input) db r db') :
    db.liveTxn guid = none ∧ ∃ t lot new, Posts host guid db db' t lot new := by
  obtain ⟨p, a, db₁, hprepare, hfind, hwrite⟩ := postInvoice_cases h
  obtain ⟨hinvoice, hunposted, -, -⟩ := preparePosting_eq_ok hprepare
  obtain ⟨hdb₁, -⟩ := findOrCreatePostAccount_effect hfind
  have hsome : (db₁.invoice? guid).isSome := by
    rw [hdb₁]
    change (db.invoice? guid).isSome = true
    rw [hinvoice]
    rfl
  obtain ⟨t, lot, new, hposts⟩ := posts_writePosting (fresh_findOrCreate hfresh hfind) hsome hwrite
  refine ⟨by rw [Db.liveTxn, hinvoice]; exact hunposted, t, lot, new, ?_⟩
  rw [hdb₁] at hposts
  exact ⟨hposts.transactions, hposts.lots, hposts.splits, hposts.ofTxn, hposts.unknownTxn,
    hposts.unknownLot, hposts.apart, hposts.liveTxn, hposts.liveLot, hposts.claims, hposts.fresh⟩

end Posting

/-- What an unposting does: a transaction under a new guid whose splits negate those of the live one,
and a document without links. -/
structure Reverses (host : Host) (guid : String) (db db' : Db) (posting : String) (t : Txn)
    (new : List Split) : Prop where
  live : db.liveTxn guid = some posting
  transactions : db'.transactions = db.transactions ++ [t]
  lots : db'.lots.map Lot.guid = db.lots.map Lot.guid
  splits : db'.splits = db.splits ++ new
  ofTxn : ∀ s ∈ new, s.txGuid = t.guid
  negates : ∀ column a, IsColumn column →
    contribution new [t.guid] column a = -contribution db.splits [posting] column a
  unknownTxn : ¬db.Knows t.guid
  liveTxn : db'.liveTxn guid = none
  liveLot : db'.liveLot guid = none
  claims : ∀ objGuid, db'.Claims guid objGuid → db.Claims guid objGuid ∧
    db.liveTxn guid ≠ some objGuid ∧ db.liveLot guid ≠ some objGuid
  fresh : host.Fresh db'

section Unposting

variable {host : Host} {bookGuid guid : String} {db db' : Db}

theorem claims_retiresLinks {linked texts : List String} {objGuid : String}
    (h : RetiresLinks linked texts db.slots db'.slots) (hclaims : db'.Claims guid objGuid) :
    db.Claims guid objGuid ∧ objGuid ∉ linked := by
  obtain ⟨frame, hframe, hlink⟩ := hclaims
  rcases h _ hframe with ⟨hframe, hname⟩ | ⟨-, text, hvalue⟩
  · rcases h _ hlink with ⟨hlink, -⟩ | ⟨-, text, hvalue⟩
    · exact ⟨⟨frame, hframe, hlink⟩, hname rfl⟩
    · cases hvalue
  · cases hvalue

theorem fresh_writeReversal {v : Unposting} {u : Unit} (hfresh : host.Fresh db)
    (htxn : db.transaction? v.txn.guid = some v.txn)
    (h : Completes (writeReversal host guid v) db u db') : host.Fresh db' := by
  obtain ⟨-, hdb', hlots, hslots⟩ := writeReversal_effect h
  have hdrawn : db'.drawn = db.drawn + 1 + v.splits.length := by rw [hdb']
  refine hfresh.mono (by omega) fun g hg => ?_
  have hnew (heq : g = host.generateGuid db.drawn) :
      ∃ m, db.drawn ≤ m ∧ m < db'.drawn ∧ g = host.generateGuid m :=
    ⟨db.drawn, le_rfl, by omega, heq⟩
  rcases hg with ⟨t, ht, rfl⟩ | ⟨l, hl, rfl⟩ | ⟨s, hs, rfl⟩ | ⟨row, hrow, hknown⟩
  · rw [hdb'] at ht
    rcases List.mem_append.1 ht with ht | ht
    · exact .inl (.inl ⟨t, ht, rfl⟩)
    · obtain rfl := List.mem_singleton.1 ht
      exact .inr (hnew rfl)
  · have hmem : l.guid ∈ db.lots.map Lot.guid := hlots ▸ List.mem_map_of_mem hl
    obtain ⟨l', hl', heq⟩ := List.mem_map.1 hmem
    exact .inl (.inr (.inl ⟨l', hl', heq⟩))
  · rw [hdb'] at hs
    rcases List.mem_append.1 hs with hs | hs
    · exact .inl (.inr (.inr (.inl ⟨s, hs, rfl⟩)))
    · obtain ⟨spec, -, guid', rfl⟩ := mem_splitRows hs
      exact .inr (hnew rfl)
  · rcases hslots row hrow with ⟨hold, -⟩ | ⟨htext, text, hvalue⟩
    · exact .inl (.inr (.inr (.inr ⟨row, hold, hknown⟩)))
    · have hobj : row.objGuid = g := by
        rcases hknown with hobj | hframe
        · exact hobj
        · rw [hvalue] at hframe
          cases hframe
      rw [hobj] at htext
      rcases List.mem_cons.1 htext with heq | htext
      · exact .inr (hnew heq)
      · rw [List.mem_singleton.1 htext]
        exact .inl (.inl ⟨v.txn, List.mem_of_find?_eq_some htxn, rfl⟩)

theorem reverses_unpostInvoice {u : Unit} (hfresh : host.Fresh db)
    (h : Completes (unpostInvoice host bookGuid guid) db u db') :
    ∃ posting t new, Reverses host guid db db' posting t new := by
  obtain ⟨v, hprepare, hwrite⟩ := unpostInvoice_cases h
  obtain ⟨hinvoice, hposted, htxn, hsplits, -⟩ := prepareUnposting_eq_ok hprepare
  obtain ⟨-, hdb', hlots, hslots⟩ := writeReversal_effect hwrite
  have hlive : db.liveTxn guid = some v.txn.guid := by
    rw [Db.liveTxn, hinvoice]
    exact hposted
  have hlot : db.liveLot guid = truthy v.invoice.postLot := by
    rw [Db.liveLot, hinvoice]
    rfl
  have hcleared : db'.invoice? guid = some (clearPosted v.invoice) := by
    rw [invoice?_update (f := clearPosted) (fun _ => rfl) (by rw [hdb']), hinvoice]
    rfl
  refine ⟨v.txn.guid, _, _, hlive, by rw [hdb'], hlots, by rw [hdb'], ?_, ?_, ?_, ?_, ?_, ?_, ?_⟩
  · intro s hs
    obtain ⟨spec, -, g, rfl⟩ := mem_splitRows hs
    rfl
  · intro column a hcolumn
    have hof : ∀ s ∈ v.splits, s.txGuid = v.txn.guid := by
      intro s hs
      rw [hsplits] at hs
      simpa using List.of_mem_filter hs
    refine (contribution_reversal hcolumn hof).trans ?_
    rw [hsplits, Db.splitsOfTx, contribution_splitsOfTx]
  · exact hfresh.unknown _ le_rfl
  · rw [Db.liveTxn, hcleared]
    rfl
  · rw [Db.liveLot, hcleared]
    rfl
  · intro objGuid hclaims
    obtain ⟨hold, hnot⟩ := claims_retiresLinks hslots hclaims
    rw [List.mem_cons, not_or] at hnot
    refine ⟨hold, ?_, ?_⟩
    · rw [hlive]
      exact fun heq => hnot.1 (Option.some.inj heq).symm
    · rw [hlot]
      exact fun heq => hnot.2 (by simp [heq])
  · exact fresh_writeReversal hfresh htxn hwrite

end Unposting

/-! ## Many calls -/

structure CycleInv (host : Host) (guid : String) (s : Cycle) : Prop where
  fresh : host.Fresh s.db
  known : ∀ t ∈ s.written, t ∈ s.db.transactions
  contributions : ∀ column a, IsColumn column →
    contribution s.db.splits (s.written.map Txn.guid) column a =
      contribution s.db.splits (s.db.liveTxn guid).toList column a
  live : ∀ t ∈ s.db.liveTxn guid, t ∈ s.written.map Txn.guid
  unlotted : s.db.liveTxn guid = none → s.db.liveLot guid = none
  claims : ∀ objGuid, s.db.Claims guid objGuid →
    s.db.liveTxn guid = some objGuid ∨ s.db.liveLot guid = some objGuid
  lotApart : ∀ l ∈ s.db.lots, s.db.liveTxn guid ≠ some l.guid
  txnApart : ∀ t ∈ s.db.transactions, s.db.liveLot guid ≠ some t.guid

/-- The transactions written so far are still there, with the splits they had. -/
def Retains (s s' : Cycle) : Prop :=
  ∀ t ∈ s.written, t ∈ s'.written ∧ s'.db.splitsOfTx t.guid = s.db.splitsOfTx t.guid

section Steps

variable {host : Host} {bookGuid guid : String} {db db' : Db} {written : List Txn} {t : Txn}
  {new : List Split}

theorem contribution_written {txGuids : List String} {column : Split → Amount} {a : String}
    (hsplits : db'.splits = db.splits ++ new) (hof : ∀ s ∈ new, s.txGuid = t.guid)
    (hunknown : ¬db.Knows t.guid) :
    contribution db'.splits (txGuids ++ [t.guid]) column a =
      contribution db.splits txGuids column a + contribution new [t.guid] column a := by
  have hold : contribution db.splits (txGuids ++ [t.guid]) column a =
      contribution db.splits txGuids column a := by
    refine contribution_congr fun s hs => ?_
    have hne : s.txGuid ≠ t.guid := fun heq => hunknown (.inr (.inr (.inl ⟨s, hs, heq⟩)))
    simp [hne]
  have hnew : contribution new (txGuids ++ [t.guid]) column a =
      contribution new [t.guid] column a :=
    contribution_congr fun s hs => by simp [hof s hs]
  rw [hsplits, contribution_append, hold, hnew]

theorem splitsOfTx_written {t' : Txn} (hsplits : db'.splits = db.splits ++ new)
    (hof : ∀ s ∈ new, s.txGuid = t.guid) (hunknown : ¬db.Knows t.guid)
    (ht' : t' ∈ db.transactions) : db'.splitsOfTx t'.guid = db.splitsOfTx t'.guid := by
  have hnew : new.filter (fun s => s.txGuid = t'.guid) = [] := by
    rw [List.filter_eq_nil_iff]
    intro s hs heq
    rw [decide_eq_true_eq, hof s hs] at heq
    exact hunknown (.inl ⟨t', ht', heq.symm⟩)
  rw [Db.splitsOfTx, hsplits, List.filter_append, hnew, List.append_nil]
  rfl

theorem written_commit (htransactions : db'.transactions = db.transactions ++ [t]) :
    Cycle.commit ⟨db, written⟩ db' = ⟨db', written ++ [t]⟩ := by
  simp [Cycle.commit, htransactions]

theorem CycleInv.post {lot : Lot} (h : CycleInv host guid ⟨db, written⟩)
    (hunposted : db.liveTxn guid = none) (hposts : Posts host guid db db' t lot new) :
    CycleInv host guid ⟨db', written ++ [t]⟩ := by
  have hnone (objGuid : String) : ¬db.Claims guid objGuid := by
    intro hclaims
    rcases h.claims objGuid hclaims with hlive | hlive
    · exact absurd (hunposted.symm.trans hlive) (by simp)
    · exact absurd ((h.unlotted hunposted).symm.trans hlive) (by simp)
  refine ⟨hposts.fresh, ?_, ?_, ?_, ?_, ?_, ?_, ?_⟩
  · intro t' ht'
    change t' ∈ db'.transactions
    rw [hposts.transactions]
    exact List.mem_append.2 ((List.mem_append.1 ht').imp_left (h.known t'))
  · intro column a hcolumn
    have hold : contribution db.splits (written.map Txn.guid) column a = 0 := by
      refine (h.contributions column a hcolumn).trans ?_
      change contribution db.splits (db.liveTxn guid).toList column a = 0
      rw [hunposted]
      exact contribution_eq_zero fun _ _ => List.not_mem_nil
    have hlive : contribution db'.splits ([] ++ [t.guid]) column a =
        contribution db.splits [] column a + contribution new [t.guid] column a :=
      contribution_written hposts.splits hposts.ofTxn hposts.unknownTxn
    change contribution db'.splits ((written ++ [t]).map Txn.guid) column a =
      contribution db'.splits (db'.liveTxn guid).toList column a
    rw [hposts.liveTxn, List.map_append, List.map_singleton,
      contribution_written hposts.splits hposts.ofTxn hposts.unknownTxn, hold]
    exact (hlive.trans (by rw [contribution_eq_zero fun _ _ => List.not_mem_nil])).symm
  · intro t' ht'
    obtain rfl : t.guid = t' := Option.some.inj (hposts.liveTxn.symm.trans ht')
    simp
  · intro hnone
    exact absurd (hposts.liveTxn.symm.trans hnone) (by simp)
  · intro objGuid hclaims
    rcases hposts.claims objGuid hclaims with hold | rfl | rfl
    · exact absurd hold (hnone objGuid)
    · exact .inl hposts.liveTxn
    · exact .inr hposts.liveLot
  · intro l hl hlive
    have heq : t.guid = l.guid := Option.some.inj (hposts.liveTxn.symm.trans hlive)
    change l ∈ db'.lots at hl
    rw [hposts.lots] at hl
    rcases List.mem_append.1 hl with hl | hl
    · exact hposts.unknownTxn (.inr (.inl ⟨l, hl, heq.symm⟩))
    · rw [List.mem_singleton.1 hl] at heq
      exact hposts.apart heq.symm
  · intro t' ht' hlive
    have heq : lot.guid = t'.guid := Option.some.inj (hposts.liveLot.symm.trans hlive)
    change t' ∈ db'.transactions at ht'
    rw [hposts.transactions] at ht'
    rcases List.mem_append.1 ht' with ht' | ht'
    · exact hposts.unknownLot (.inl ⟨t', ht', heq.symm⟩)
    · rw [List.mem_singleton.1 ht'] at heq
      exact hposts.apart heq

theorem CycleInv.unpost {posting : String} (h : CycleInv host guid ⟨db, written⟩)
    (hreverses : Reverses host guid db db' posting t new) :
    CycleInv host guid ⟨db', written ++ [t]⟩ := by
  refine ⟨hreverses.fresh, ?_, ?_, ?_, ?_, ?_, ?_, ?_⟩
  · intro t' ht'
    change t' ∈ db'.transactions
    rw [hreverses.transactions]
    exact List.mem_append.2 ((List.mem_append.1 ht').imp_left (h.known t'))
  · intro column a hcolumn
    have hold := h.contributions column a hcolumn
    change contribution db.splits (written.map Txn.guid) column a =
      contribution db.splits (db.liveTxn guid).toList column a at hold
    change contribution db'.splits ((written ++ [t]).map Txn.guid) column a =
      contribution db'.splits (db'.liveTxn guid).toList column a
    rw [hreverses.liveTxn, List.map_append, List.map_singleton,
      contribution_written hreverses.splits hreverses.ofTxn hreverses.unknownTxn, hold,
      hreverses.live, hreverses.negates column a hcolumn]
    refine (add_neg_cancel _).trans ?_
    exact (contribution_eq_zero fun _ _ => List.not_mem_nil).symm
  · intro t' ht'
    exact absurd (hreverses.liveTxn.symm.trans ht') (by simp)
  · exact fun _ => hreverses.liveLot
  · intro objGuid hclaims
    obtain ⟨hold, htxn, hlot⟩ := hreverses.claims objGuid hclaims
    rcases h.claims objGuid hold with hlive | hlive
    · exact absurd hlive htxn
    · exact absurd hlive hlot
  · intro l _ hlive
    exact absurd (hreverses.liveTxn.symm.trans hlive) (by simp)
  · intro t' _ hlive
    exact absurd (hreverses.liveLot.symm.trans hlive) (by simp)

theorem live_of_ledgerKept (h : LedgerKept guid db db') :
    db'.liveTxn guid = db.liveTxn guid ∧ db'.liveLot guid = db.liveLot guid := by
  obtain ⟨-, -, -, -, -, hcolumns⟩ := h
  have htxn (db : Db) : db.liveTxn guid =
      ((db.invoice? guid).map Invoice.postingColumns).bind fun c => truthy c.2.1 := by
    rw [Option.bind_map]
    rfl
  have hlot (db : Db) : db.liveLot guid =
      ((db.invoice? guid).map Invoice.postingColumns).bind fun c => truthy c.2.2.2 := by
    rw [Option.bind_map]
    rfl
  rw [htxn, htxn, hlot, hlot, hcolumns]
  exact ⟨rfl, rfl⟩

theorem CycleInv.edit (h : CycleInv host guid ⟨db, written⟩) (hkept : LedgerKept guid db db') :
    CycleInv host guid ⟨db', written⟩ := by
  obtain ⟨htxn, hlot⟩ := live_of_ledgerKept hkept
  obtain ⟨htransactions, hsplits, hlots, hslots, hdrawn, -⟩ := hkept
  have hclaims (objGuid : String) : db'.Claims guid objGuid ↔ db.Claims guid objGuid := by
    unfold Db.Claims
    rw [hslots]
  have hknows (g : String) : db'.Knows g ↔ db.Knows g := by
    unfold Db.Knows
    rw [htransactions, hlots, hsplits, hslots]
  refine ⟨?_, ?_, ?_, ?_, ?_, ?_, ?_, ?_⟩
  · exact h.fresh.mono hdrawn.ge fun g hg => .inl ((hknows g).1 hg)
  · exact htransactions ▸ h.known
  · change ∀ column a, IsColumn column →
      contribution db'.splits (written.map Txn.guid) column a =
        contribution db'.splits (db'.liveTxn guid).toList column a
    rw [hsplits, htxn]
    exact h.contributions
  · exact htxn ▸ h.live
  · change db'.liveTxn guid = none → db'.liveLot guid = none
    rw [htxn, hlot]
    exact h.unlotted
  · intro objGuid hobj
    change db'.liveTxn guid = some objGuid ∨ db'.liveLot guid = some objGuid
    rw [htxn, hlot]
    exact h.claims objGuid ((hclaims objGuid).1 hobj)
  · change ∀ l ∈ db'.lots, db'.liveTxn guid ≠ some l.guid
    rw [hlots, htxn]
    exact h.lotApart
  · change ∀ t ∈ db'.transactions, db'.liveLot guid ≠ some t.guid
    rw [htransactions, hlot]
    exact h.txnApart

theorem Retains.trans {s s' s'' : Cycle} (h : Retains s s') (h' : Retains s' s'') :
    Retains s s'' := by
  intro t ht
  obtain ⟨ht', heq⟩ := h t ht
  obtain ⟨ht'', heq'⟩ := h' t ht'
  exact ⟨ht'', heq'.trans heq⟩

theorem callNext_inv {c : Call} {s s' : Cycle} (h : callNext host bookGuid guid c s = some s')
    (hinv : CycleInv host guid s) : CycleInv host guid s' ∧ Retains s s' := by
  obtain ⟨db, written⟩ := s
  cases c with
  | post input =>
    obtain ⟨db', hafter, rfl⟩ := Option.map_eq_some_iff.1 h
    obtain ⟨r, hr⟩ := exists_completes hafter
    obtain ⟨hunposted, t, lot, new, hposts⟩ := posts_postInvoice hinv.fresh hr
    rw [written_commit hposts.transactions]
    refine ⟨hinv.post hunposted hposts, fun t' ht' => ⟨List.mem_append_left _ ht', ?_⟩⟩
    exact splitsOfTx_written hposts.splits hposts.ofTxn hposts.unknownTxn (hinv.known t' ht')
  | unpost =>
    obtain ⟨db', hafter, rfl⟩ := Option.map_eq_some_iff.1 h
    obtain ⟨u, hu⟩ := exists_completes hafter
    obtain ⟨posting, t, new, hreverses⟩ := reverses_unpostInvoice hinv.fresh hu
    rw [written_commit hreverses.transactions]
    refine ⟨hinv.unpost hreverses, fun t' ht' => ⟨List.mem_append_left _ ht', ?_⟩⟩
    exact splitsOfTx_written hreverses.splits hreverses.ofTxn hreverses.unknownTxn
      (hinv.known t' ht')
  | edit db' =>
    obtain ⟨hkept, heq⟩ := Option.ite_none_right_eq_some.1 h
    cases heq
    refine ⟨hinv.edit hkept, fun t' ht' => ⟨ht', ?_⟩⟩
    simp only [Db.splitsOfTx, hkept.2.1]

end Steps

section Runs

variable {host : Host} {bookGuid guid : String} {s s₁ s₂ : Cycle} {calls more : List Call}

theorem Draft.cycleInv (h : Draft host guid s) : CycleInv host guid s := by
  refine ⟨h.fresh, ?_, ?_, ?_, fun _ => h.unlotted, ?_, ?_, ?_⟩
  · simp [h.written]
  · simp [h.written, h.unposted]
  · simp [h.unposted]
  · exact fun objGuid hclaims => absurd hclaims (h.unclaimed objGuid)
  · simp [h.unposted]
  · simp [h.unlotted]

theorem CycleInv.netsOut (h : CycleInv host guid s) : NetsOut guid s := by
  refine ⟨h.contributions, h.live, fun l hl hclaims => ?_, fun t ht hclaims => ?_⟩
  · exact (h.claims l.guid hclaims).resolve_left (h.lotApart l hl)
  · exact (h.claims t.guid hclaims).resolve_right (h.txnApart t ht)

/-- After any calls on a document, whatever was edited in between, what they wrote comes to the live
posting alone; and what the first of them wrote, the later ones leave as it is. -/
theorem nets_out (hstart : Draft host guid s)
    (h₁ : run (callNext host bookGuid guid) calls s = some s₁)
    (h₂ : run (callNext host bookGuid guid) more s₁ = some s₂) :
    NetsOut guid s₂ ∧ ∀ t ∈ s₁.written, t ∈ s₂.db.transactions ∧ t ∈ s₂.written ∧
      s₂.db.splitsOfTx t.guid = s₁.db.splitsOfTx t.guid := by
  have hinv₁ : CycleInv host guid s₁ :=
    invariant (P := CycleInv host guid) (fun _ _ _ hnext hinv => (callNext_inv hnext hinv).1) h₁
      hstart.cycleInv
  have hinv₂ : CycleInv host guid s₂ ∧ Retains s₁ s₂ := by
    refine invariant (P := fun t => CycleInv host guid t ∧ Retains s₁ t) ?_ h₂
      ⟨hinv₁, fun t ht => ⟨ht, rfl⟩⟩
    intro c t t' hnext ⟨hinv, hretains⟩
    obtain ⟨hinv', hretains'⟩ := callNext_inv hnext hinv
    exact ⟨hinv', hretains.trans hretains'⟩
  refine ⟨hinv₂.1.netsOut, fun t ht => ?_⟩
  obtain ⟨hwritten, hsplits⟩ := hinv₂.2 t ht
  exact ⟨hinv₂.1.known t hwritten, hwritten, hsplits⟩

end Runs

/-! ## Posted, unposted and posted again -/

/-- A book with one invoice of five units that is not posted. -/
def oneDraft : Db :=
  { Db.empty with
    books := [⟨"book", "root", none⟩]
    ownership := [⟨.customer, "customer", "book"⟩, ⟨.invoice, "invoice", "book"⟩]
    accounts := [⟨"root", "Root", .root, none, none, "", true⟩,
      ⟨"receivable", "Accounts Receivable", .receivable, some "usd", some "root", "", false⟩,
      ⟨"sales", "Sales", .income, some "usd", some "root", "", false⟩]
    commodities := [⟨"usd", "CURRENCY", "USD", 100⟩]
    customers := [⟨"customer", "Customer", "usd", none⟩]
    invoices := [⟨"invoice", "000001", some 2, some "customer", "usd", none, none, none, none⟩]
    entries := [⟨"entry", 0, none, ⟨1, 1⟩, some "invoice", some "sales", ⟨5, 1⟩, ⟨0, 1⟩, none,
      none, false, false, none, none, none, ⟨0, 1⟩, false, false, none⟩] }

theorem plainHost_fresh_empty {db : Db} (ht : db.transactions = []) (hl : db.lots = [])
    (hs : db.splits = []) (hr : db.slots = []) : plainHost.Fresh db := by
  refine ⟨fun n h => ?_, fun n m h => ?_, fun n _ hknown => ?_⟩
  · simpa [plainHost] using congrArg String.toList h
  · have hlength := congrArg (fun text : String => text.toList.length) h
    simpa [plainHost] using hlength
  · simp [Db.Knows, ht, hl, hs, hr] at hknown

theorem oneDraft_draft : Draft plainHost "invoice" ⟨oneDraft, []⟩ where
  fresh := plainHost_fresh_empty rfl rfl rfl rfl
  unposted := by decide +kernel
  unlotted := by decide +kernel
  unclaimed := by simp [Db.Claims, oneDraft, Db.empty]
  written := rfl

def unpostedAgain : Cycle :=
  (run (callNext plainHost "book" "invoice") [.post ⟨"1970-01-01", none, none⟩, .unpost]
    ⟨oneDraft, []⟩).getD ⟨oneDraft, []⟩

/-- The tables after the invoice is posted once more. -/
def postedAgain : Cycle :=
  (run (callNext plainHost "book" "invoice") [.post ⟨"1970-01-01", none, none⟩]
    unpostedAgain).getD unpostedAgain

theorem run_unpostedAgain :
    run (callNext plainHost "book" "invoice") [.post ⟨"1970-01-01", none, none⟩, .unpost]
      ⟨oneDraft, []⟩ = some unpostedAgain := by
  decide +kernel

theorem run_postedAgain :
    run (callNext plainHost "book" "invoice") [.post ⟨"1970-01-01", none, none⟩] unpostedAgain =
      some postedAgain := by
  decide +kernel

theorem nets_out_postedAgain :
    NetsOut "invoice" postedAgain ∧ ∀ t ∈ unpostedAgain.written,
      t ∈ postedAgain.db.transactions ∧ t ∈ postedAgain.written ∧
        postedAgain.db.splitsOfTx t.guid = unpostedAgain.db.splitsOfTx t.guid :=
  nets_out oneDraft_draft run_unpostedAgain run_postedAgain

end Business
