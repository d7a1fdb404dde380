import GnucashWeb.Business.Cycles
import GnucashWeb.Business.LotBalance
import GnucashWeb.Lib.Sessions

/-!
# Concurrent requests on documents

Any number of requests that post, unpost and pay documents of one book, each a database transaction
that sees what is committed at each of its reads.  A posting and an unposting lock their document; a
payment locks the documents that its first read finds, in the order of their guids, and reads them
again with the splits of their lots.  What a request writes is seen when it commits.

`paid_within_total` is the main result: as long as every document that a payment reads again is
among those it locked, and what it reads as due is what the lots hold, no lot crosses zero and
nothing is paid into the lot of a document that is not posted.  `paysPosted_overtaken_false` runs a payment
whose document is posted between its reads and unposted before it commits.
-/

open Runs RowLocks Transact
open Ledger (Split)

namespace Business

/-! ## Requests -/

inductive Request
  | post (guid : String) (input : PostInvoiceInput)
  | unpost (guid : String)
  | pay (input : ApplyPaymentInput)
deriving DecidableEq, Repr

/-- A payment whose first checks have passed. -/
structure Payer where
  input : ApplyPaymentInput
  owner : ResolvedOwner
  postDate : ℤ

inductive Begun
  | post (guid : String) (input : PostInvoiceInput)
  | unpost (guid : String)
  | pay (payer : Payer)

def admitPayment (host : Host) (bookGuid : String) (input : ApplyPaymentInput) (db : Db) :
    Except Failure Payer := do
  require (0 < input.amount) .paymentNotPositive
  let postDate ← found (host.parseNoon input.date) (.invalidDate "date" input.date)
  db.assertNotLocked (db.bookGuidForAccount input.transferAccountGuid) (host.isoDay postDate)
  let owner ← checkPayment bookGuid input db
  return ⟨input, owner, postDate⟩

/-- What a request does before it locks, with the documents that it then locks one by one; a payment
that is already there is answered. -/
def beginRequest (host : Host) (bookGuid : String) (db : Db) : Request → Option (Begun × List String)
  | .post guid input => some (.post guid input, [guid])
  | .unpost guid => some (.unpost guid, [guid])
  | .pay input =>
    match db.existingPayment input, admitPayment host bookGuid input db with
    | none, .ok payer => some (.pay payer, db.lockCandidates bookGuid input)
    | _, _ => none

/-- What a payment checks under its locks before it reads the documents again. -/
def checkTransfer (payer : Payer) (db : Db) : Except Failure ℕ := do
  let transferAccount ← found (db.account? payer.input.transferAccountGuid)
    (.transferAccountNotFound payer.input.transferAccountGuid)
  require (transferAccount.placeholder = false) .transferAccountPlaceholder
  db.getCurrencyFraction payer.owner.currencyGuid

inductive Phase
  | idle
  | locking (begun : Begun) (held todo : List String)
  | posting (guid : String) (input : PostInvoiceInput) (p : Posting)
  | unposting (guid : String) (v : Unposting)
  /-- The documents are read again. -/
  | reading (payer : Payer) (fraction : ℕ) (docs : List Invoice)
  /-- The splits of their lots are read, and the allocations chosen. -/
  | paying (payer : Payer) (fraction : ℕ) (openDocs : List OpenDocument)
      (allocations : List PaymentAllocation)

/-- Whether a request is a payment about to commit. -/
def Phase.isPaying : Phase → Bool
  | .paying .. => true
  | _ => false

/-- The committed tables, who locks each document, and the requests. -/
structure Sessions where
  db : Db
  holder : String → Option ℕ
  phase : ℕ → Phase

namespace Sessions

def setPhase (s : Sessions) (k : ℕ) (phase : Phase) : Sessions :=
  { s with phase := Function.update s.phase k phase }

/-- A transaction ends: its locks are given back. -/
def finish (s : Sessions) (k : ℕ) (db : Db) : Sessions :=
  ⟨db, release s.holder k, Function.update s.phase k .idle⟩

end Sessions

/-! ## Steps -/

inductive Step
  | request (k : ℕ) (request : Request)
  | lock (k : ℕ)
  | read (k : ℕ)
  | readSplits (k : ℕ)
  | commit (k : ℕ)
  /-- A request fails, or is answered without writing. -/
  | abort (k : ℕ)
deriving DecidableEq

section Next

variable (host : Host) (bookGuid : String)

def requestNext (k : ℕ) (r : Request) (s : Sessions) : Option Sessions :=
  match s.phase k with
  | .idle =>
    (beginRequest host bookGuid s.db r).map fun (begun, todo) => s.setPhase k (.locking begun [] todo)
  | _ => none

/-- The lock of the next document, when no other request has it. -/
def lockNext (k : ℕ) (s : Sessions) : Option Sessions :=
  match s.phase k with
  | .locking begun held (guid :: todo) =>
    if s.holder guid = none ∨ s.holder guid = some k then
      some { s.setPhase k (.locking begun (held ++ [guid]) todo) with
        holder := acquire s.holder guid k }
    else none
  | _ => none

def readBegun (db : Db) : Begun → Option Phase
  | .post guid input =>
    match preparePosting host bookGuid guid input db with
    | .ok p => some (.posting guid input p)
    | .error _ => none
  | .unpost guid =>
    match prepareUnposting host bookGuid guid db with
    | .ok v => some (.unposting guid v)
    | .error _ => none
  | .pay payer =>
    match db.existingPayment payer.input, checkTransfer payer db with
    | none, .ok fraction => some (.reading payer fraction (db.postedOwnerDocs bookGuid payer.input))
    | _, _ => none

def readNext (k : ℕ) (s : Sessions) : Option Sessions :=
  match s.phase k with
  | .locking begun _ [] => (readBegun host bookGuid s.db begun).map (s.setPhase k)
  | _ => none

/-- The allocations that a payment chooses from the splits it reads. -/
def choose (payer : Payer) (fraction : ℕ) (docs : List Invoice) (db : Db) :
    Except Failure (List PaymentAllocation) :=
  chooseAllocations payer.owner.currencyGuid fraction
    (loadOpenDocuments payer.owner.kind docs db.splits)
    (roundCurrency payer.input.amount fraction) payer.input

def readSplitsNext (k : ℕ) (s : Sessions) : Option Sessions :=
  match s.phase k with
  | .reading payer fraction docs =>
    match choose payer fraction docs s.db with
    | .ok allocations => some (s.setPhase k (.paying payer fraction
        (loadOpenDocuments payer.owner.kind docs s.db.splits) allocations))
    | .error _ => none
  | _ => none

def written (phase : Phase) (db : Db) : Option Db :=
  match phase with
  | .posting guid input p => stateAfter (commitPosting host guid input p) db
  | .unposting guid v => stateAfter (writeReversal host guid v) db
  | .paying payer fraction openDocs allocations =>
    stateAfter (writePayment host payer.input payer.owner fraction payer.postDate openDocs
      allocations) db
  | _ => none

def commitNext (k : ℕ) (s : Sessions) : Option Sessions :=
  (written host (s.phase k) s.db).map (s.finish k)

def next : Step → Sessions → Option Sessions
  | .request k r, s => requestNext host bookGuid k r s
  | .lock k, s => lockNext k s
  | .read k, s => readNext host bookGuid k s
  | .readSplits k, s => readSplitsNext k s
  | .commit k, s => commitNext host k s
  | .abort k, s => some (s.finish k s.db)

end Next

/-! ## What is claimed, and when it holds -/

structure Start (host : Host) (s : Sessions) : Prop where
  sound : Sound s.db
  drawsLots : host.DrawsLots s.db
  phases : ∀ k, s.phase k = .idle

/-- Every split that a payment commits is in the lot of a document that is posted then. -/
def PaysPosted (host : Host) : Step → Sessions → Prop
  | .commit k, s => (s.phase k).isPaying → ∀ db' ∈ written host (s.phase k) s.db,
      ∀ x ∈ db'.splits.drop s.db.splits.length, ∀ g ∈ x.lotGuid,
        ∃ i ∈ s.db.invoices, i.postTxn.isSome ∧ i.postLot = some g
  | _, _ => True

instance (host : Host) : ∀ step s, Decidable (PaysPosted host step s)
  | .commit _, _ => inferInstanceAs (Decidable (_ → _))
  | .request .., _ | .lock _, _ | .read _, _ | .readSplits _, _ | .abort _, _ => isTrue trivial

/-- The documents that a payment reads again are those it locked, as far as it may pay them. -/
def LocksWhatItReads (bookGuid : String) (db : Db) : Phase → Prop
  | .locking (.pay payer) held _ => ∀ i ∈ db.postedOwnerDocs bookGuid payer.input,
      MayPay payer.input i.guid → i.guid ∈ held
  | _ => True

instance (bookGuid : String) (db : Db) : ∀ phase, Decidable (LocksWhatItReads bookGuid db phase)
  | .locking (.pay _) _ _ => inferInstanceAs (Decidable (∀ i ∈ _, _))
  | .idle | .locking (.post ..) .. | .locking (.unpost _) .. | .posting .. | .unposting ..
  | .reading .. | .paying .. => isTrue trivial

/-- What is due on the documents that a payment may pay is what their lots hold, and no part is half
a unit more. -/
def ReadsDues (db : Db) : Phase → Prop
  | .reading payer fraction docs => ∀ d ∈ loadOpenDocuments payer.owner.kind docs db.splits,
      MayPay payer.input d.guid → DueHeld db payer.owner.kind fraction payer.input d
  | _ => True

instance (db : Db) : ∀ phase, Decidable (ReadsDues db phase)
  | .reading .. => inferInstanceAs (Decidable (∀ d ∈ _, _))
  | .idle | .locking .. | .posting .. | .unposting .. | .paying .. => isTrue trivial

/-- A payment finds no document that it has not locked, reads no due above what a lot holds, and is
not asked for half a unit more. -/
def Careful (bookGuid : String) : Step → Sessions → Prop
  | .read k, s => LocksWhatItReads bookGuid s.db (s.phase k)
  | .readSplits k, s => ReadsDues s.db (s.phase k)
  | _, _ => True

instance (bookGuid : String) : ∀ step s, Decidable (Careful bookGuid step s)
  | .read k, s => inferInstanceAs (Decidable (LocksWhatItReads bookGuid s.db (s.phase k)))
  | .readSplits k, s => inferInstanceAs (Decidable (ReadsDues s.db (s.phase k)))
  | .request .., _ | .lock _, _ | .commit _, _ | .abort _, _ => isTrue trivial

/-! ## The invariant -/

/-- What a request that has come so far relies on. -/
def Phase.Ok (db : Db) (holder : String → Option ℕ) (k : ℕ) : Phase → Prop
  | .idle => True
  | .locking begun held todo => (∀ g ∈ held, holder g = some k) ∧
      match begun with
      | .post guid _ | .unpost guid => guid ∈ held ++ todo
      | .pay _ => True
  | .posting guid _ p => holder guid = some k ∧ p.invoice ∈ db.invoices ∧ p.invoice.guid = guid ∧
      db.getCurrencyFraction p.invoice.currency = .ok p.fraction
  | .unposting guid v => holder guid = some k ∧ v.invoice ∈ db.invoices ∧ v.invoice.guid = guid ∧
      v.invoice.postTxn.isSome ∧ OwnSplits v
  | .reading payer fraction docs =>
    db.getCurrencyFraction payer.owner.currencyGuid = .ok fraction ∧
      (docs.map Invoice.guid).Nodup ∧ ∀ i ∈ docs, MayPay payer.input i.guid →
        holder i.guid = some k ∧ i ∈ db.invoices ∧ i.postTxn.isSome
  | .paying payer fraction openDocs allocations =>
    db.getCurrencyFraction payer.owner.currencyGuid = .ok fraction ∧
      Fits db payer.owner fraction openDocs allocations ∧
        ∀ a ∈ allocations, holder a.invoiceGuid = some k

structure Inv (host : Host) (s : Sessions) : Prop where
  sound : Sound s.db
  drawsLots : host.DrawsLots s.db
  phases : ∀ k, (s.phase k).Ok s.db s.holder k

section Invariant

variable {host : Host} {bookGuid : String} {s s' : Sessions} {k : ℕ} {db db' : Db}
  {holder holder' : String → Option ℕ} {phase : Phase}

theorem Start.inv (h : Start host s) : Inv host s := by
  refine ⟨h.sound, h.drawsLots, fun k => ?_⟩
  rw [h.phases]
  trivial

/-- A request that keeps its locks keeps what it relies on, whatever is done to other documents. -/
theorem Phase.Ok.frame {touched : String → Prop} (h : phase.Ok db holder k)
    (hframe : Frame touched db db')
    (hheld : ∀ g, holder g = some k → ¬touched g ∧ holder' g = some k) :
    phase.Ok db' holder' k := by
  have hfraction (currencyGuid : String) :
      db'.getCurrencyFraction currencyGuid = db.getCurrencyFraction currencyGuid := by
    rw [Db.getCurrencyFraction, Db.getCurrencyFraction, hframe.commodities]
  cases phase with
  | idle => trivial
  | locking begun held todo => exact ⟨fun g hg => (hheld g (h.1 g hg)).2, h.2⟩
  | posting guid input p =>
    obtain ⟨hlock, hmem, hguid, hok⟩ := h
    refine ⟨(hheld guid hlock).2, hframe.row _ hmem ?_, hguid, (hfraction _).trans hok⟩
    exact hguid ▸ (hheld guid hlock).1
  | unposting guid v =>
    obtain ⟨hlock, hmem, hguid, hposted, hown⟩ := h
    refine ⟨(hheld guid hlock).2, hframe.row _ hmem ?_, hguid, hposted, hown⟩
    exact hguid ▸ (hheld guid hlock).1
  | reading payer fraction docs =>
    obtain ⟨hok, hnd, hdocs⟩ := h
    refine ⟨(hfraction _).trans hok, hnd, fun i hi hmay => ?_⟩
    obtain ⟨hlock, hmem, hposted⟩ := hdocs i hi hmay
    exact ⟨(hheld _ hlock).2, hframe.row i hmem (hheld _ hlock).1, hposted⟩
  | paying payer fraction openDocs allocations =>
    obtain ⟨hok, hfits, hlocks⟩ := h
    refine ⟨(hfraction _).trans hok, hfits.frame hframe fun a ha => (hheld _ (hlocks a ha)).1,
      fun a ha => (hheld _ (hlocks a ha)).2⟩

theorem frame_refl (db : Db) : Frame (fun _ => False) db db :=
  ⟨rfl, fun _ hi _ => hi, fun _ _ _ _ _ _ => rfl⟩

theorem Inv.setPhase (h : Inv host s) (hphase : phase.Ok s.db s.holder k) :
    Inv host (s.setPhase k phase) := by
  refine ⟨h.sound, h.drawsLots, ?_⟩
  exact (Function.forall_update_iff _ fun j phase => Phase.Ok s.db s.holder j phase).2
    ⟨hphase, fun j _ => h.phases j⟩

/-- A transaction that ends keeps the invariant when it touches only what it has locked. -/
theorem Inv.finish {touched : String → Prop} (h : Inv host s) (hsound : Sound db)
    (hdraws : host.DrawsLots db) (hframe : Frame touched s.db db)
    (hlocks : ∀ g, touched g → s.holder g = some k) : Inv host (s.finish k db) := by
  refine ⟨hsound, hdraws, ?_⟩
  refine (Function.forall_update_iff _ fun j phase => Phase.Ok db (release s.holder k) j phase).2
    ⟨trivial, fun j hj => ?_⟩
  refine (h.phases j).frame hframe fun g hg => ⟨fun htouched => ?_, release_of_held hg hj⟩
  exact hj (Option.some.inj (hg.symm.trans (hlocks g htouched)))

theorem inv_requestNext {r : Request} (h : requestNext host bookGuid k r s = some s')
    (hinv : Inv host s) : Inv host s' := by
  unfold requestNext at h
  split at h
  · obtain ⟨⟨begun, todo⟩, hbegin, rfl⟩ := Option.map_eq_some_iff.1 h
    refine hinv.setPhase ⟨by simp, ?_⟩
    cases r with
    | post guid input =>
      cases hbegin
      simp
    | unpost guid =>
      cases hbegin
      simp
    | pay input =>
      simp only [beginRequest] at hbegin
      split at hbegin
      · cases hbegin
        trivial
      · cases hbegin
  · cases h

theorem inv_lockNext (h : lockNext k s = some s') (hinv : Inv host s) : Inv host s' := by
  unfold lockNext at h
  split at h
  · next begun held guid todo hphase =>
      obtain ⟨hfree, heq⟩ := Option.ite_none_right_eq_some.1 h
      cases heq
      have hok := hinv.phases k
      rw [hphase] at hok
      refine ⟨hinv.sound, hinv.drawsLots, ?_⟩
      refine (Function.forall_update_iff _ fun j phase =>
        Phase.Ok s.db (acquire s.holder guid k) j phase).2 ⟨⟨fun g hg => ?_, ?_⟩, fun j hj => ?_⟩
      · rcases List.mem_append.1 hg with hg | hg
        · exact acquire_of_held hfree (hok.1 g hg)
        · rw [List.mem_singleton.1 hg]
          exact acquire_self
      · have hmem := hok.2
        rw [List.append_assoc]
        exact hmem
      · exact (hinv.phases j).frame (frame_refl s.db) fun g hg =>
          ⟨id, acquire_of_held hfree hg⟩
  · cases h

theorem readBegun_ok {begun : Begun} {held : List String} (hsound : Sound db)
    (hheld : ∀ g ∈ held, holder g = some k)
    (hbegun : match begun with
      | .post guid _ | .unpost guid => guid ∈ held ++ []
      | .pay _ => True)
    (hlocks : LocksWhatItReads bookGuid db (.locking begun held []))
    (h : readBegun host bookGuid db begun = some phase) : phase.Ok db holder k := by
  cases begun with
  | post guid input =>
    simp only [readBegun] at h
    split at h
    · next p hprepare =>
        cases h
        obtain ⟨hinvoice, -, -, hfraction⟩ := preparePosting_eq_ok hprepare
        obtain ⟨hmem, hguid⟩ := mem_of_invoice? hinvoice
        exact ⟨hheld guid (by simpa using hbegun), hmem, hguid, hfraction⟩
    · cases h
  | unpost guid =>
    simp only [readBegun] at h
    split at h
    · next v hprepare =>
        cases h
        obtain ⟨hinvoice, hposted, -, hsplits, -⟩ := prepareUnposting_eq_ok hprepare
        obtain ⟨hmem, hguid⟩ := mem_of_invoice? hinvoice
        have htxn : v.invoice.postTxn = some v.txn.guid := (Option.filter_eq_some_iff.1 hposted).1
        refine ⟨hheld guid (by simpa using hbegun), hmem, hguid, by rw [htxn]; rfl, fun x hx => ?_⟩
        rw [hsplits] at hx
        obtain ⟨hx, htx⟩ := List.mem_filter.1 hx
        exact (hsound.docs v.invoice hmem _ htxn).own x hx (by simpa using htx)
    · cases h
  | pay payer =>
    simp only [readBegun] at h
    split at h
    · next fraction _ hcheck =>
        cases h
        simp only [checkTransfer, except_bind_eq_ok] at hcheck
        obtain ⟨_, -, _, -, hfraction⟩ := hcheck
        refine ⟨hfraction, (List.filter_sublist.map _).nodup hsound.invoices, fun i hi hmay => ?_⟩
        refine ⟨hheld _ (hlocks i hi hmay), List.mem_of_mem_filter hi, ?_⟩
        have hwhere := List.of_mem_filter hi
        simp only [Db.postedOwnerDocsWhere, Bool.decide_and, Bool.and_eq_true,
          decide_eq_true_eq] at hwhere
        exact hwhere.2.1
    · cases h

theorem inv_readNext (h : readNext host bookGuid k s = some s')
    (hcareful : Careful bookGuid (.read k) s) (hinv : Inv host s) : Inv host s' := by
  unfold readNext at h
  split at h
  · next begun held hphase =>
      obtain ⟨phase, hread, rfl⟩ := Option.map_eq_some_iff.1 h
      have hok := hinv.phases k
      rw [hphase] at hok
      simp only [Careful, hphase] at hcareful
      exact hinv.setPhase (readBegun_ok hinv.sound hok.1 hok.2 hcareful hread)
  · cases h

theorem inv_readSplitsNext (h : readSplitsNext k s = some s')
    (hcareful : Careful bookGuid (.readSplits k) s) (hinv : Inv host s) : Inv host s' := by
  unfold readSplitsNext at h
  split at h
  · next payer fraction docs hphase =>
      split at h
      · next allocations hchoose =>
          cases h
          have hok := hinv.phases k
          rw [hphase] at hok
          obtain ⟨hfraction, hnd, hdocs⟩ := hok
          simp only [Careful, hphase] at hcareful
          obtain ⟨hfits, hread⟩ := fits_of_chooseAllocations hinv.sound hfraction hnd
            (fun i hi hmay => (hdocs i hi hmay).2) hcareful hchoose
          refine hinv.setPhase ⟨hfraction, hfits, fun a ha => ?_⟩
          obtain ⟨i, hi, hguid, hmay⟩ := hread a ha
          exact hguid ▸ (hdocs i hi hmay).1
      · cases h
  · cases h

theorem inv_commitNext (h : commitNext host k s = some s') (hinv : Inv host s) : Inv host s' := by
  obtain ⟨db, hwritten, rfl⟩ := Option.map_eq_some_iff.1 h
  have hok := hinv.phases k
  cases hphase : s.phase k with
  | idle =>
    rw [hphase] at hwritten
    cases hwritten
  | locking begun held todo =>
    rw [hphase] at hwritten
    cases hwritten
  | posting guid input p =>
    rw [hphase] at hwritten hok
    obtain ⟨r, hr⟩ := exists_completes hwritten
    obtain ⟨new, hposted⟩ := posted_commitPosting hr
    obtain ⟨hlock, hmem, hguid, hfraction⟩ := hok
    refine hinv.finish (hposted.sound hinv.sound hinv.drawsLots hmem hguid hfraction)
      (hposted.drawsLots hinv.drawsLots) (hposted.frame hinv.sound hinv.drawsLots) ?_
    rintro _ rfl
    exact hlock
  | unposting guid v =>
    rw [hphase] at hwritten hok
    obtain ⟨u, hu⟩ := exists_completes hwritten
    obtain ⟨hlock, hmem, hguid, hposted, hown⟩ := hok
    obtain ⟨t, new, hunposted⟩ := unposted_writeReversal hown hu
    refine hinv.finish (hunposted.sound hinv.sound hmem hguid hposted)
      (hinv.drawsLots.of_guids hunposted.drawn hunposted.lots)
      (hunposted.frame hinv.sound hmem hguid hposted) ?_
    rintro _ rfl
    exact hlock
  | reading payer fraction docs =>
    rw [hphase] at hwritten
    cases hwritten
  | paying payer fraction openDocs allocations =>
    rw [hphase] at hwritten hok
    obtain ⟨r, hr⟩ := exists_completes hwritten
    obtain ⟨t, new, hpaid⟩ := paid_writePayment hr
    obtain ⟨hfraction, hfits, hlocks⟩ := hok
    refine hinv.finish (hpaid.sound hinv.sound hfits hfraction)
      (hinv.drawsLots.of_guids hpaid.drawn hpaid.lots) (hpaid.frame hinv.sound hfits) ?_
    intro g hg
    obtain ⟨a, ha, rfl⟩ := List.mem_map.1 hg
    exact hlocks a ha

theorem inv_next {step : Step} (hcareful : Careful bookGuid step s)
    (h : next host bookGuid step s = some s') (hinv : Inv host s) : Inv host s' := by
  cases step with
  | request k r => exact inv_requestNext h hinv
  | lock k => exact inv_lockNext h hinv
  | read k => exact inv_readNext h hcareful hinv
  | readSplits k => exact inv_readSplitsNext h hcareful hinv
  | commit k => exact inv_commitNext h hinv
  | abort k =>
    cases h
    exact hinv.finish hinv.sound hinv.drawsLots (frame_refl s.db) fun _ => False.elim

theorem paysPosted_of_inv {step : Step} (hinv : Inv host s) : PaysPosted host step s := by
  cases step with
  | commit k =>
    intro hpaying db' hwritten x hx g hg
    have hok := hinv.phases k
    cases hphase : s.phase k with
    | paying payer fraction openDocs allocations =>
      rw [hphase] at hok hwritten
      obtain ⟨r, hr⟩ := exists_completes hwritten
      obtain ⟨t, new, hpaid⟩ := paid_writePayment hr
      rw [hpaid.grows.splits, List.drop_left] at hx
      obtain ⟨-, i, hi, hposted, hlot, -⟩ := hpaid.placed hok.2.1 hx hg
      exact ⟨i, hi, hposted, hlot⟩
    | _ =>
      rw [hphase] at hpaying
      cases hpaying
  | _ => trivial

end Invariant

/-- In every run whose steps are all careful, the lots of posted documents stay between zero and the
posted totals, and payments go to the lots of posted documents only. -/
theorem paid_within_total {host : Host} {bookGuid : String} {steps : List Step} {s s' : Sessions}
    (hstart : Start host s) (hrun : run (next host bookGuid) steps s = some s')
    (hcareful : Along (next host bookGuid) (Careful bookGuid) steps s) :
    WithinTotals s'.db ∧ Along (next host bookGuid) (PaysPosted host) steps s := by
  have hinv : Inv host s' :=
    invariant_along (P := Inv host) (fun _ _ _ => inv_next) hrun hcareful hstart.inv
  refine ⟨hinv.sound.withinTotals, ?_⟩
  exact along_imp (P := Inv host) (fun _ _ _ => inv_next) (fun _ _ hinv _ => paysPosted_of_inv hinv)
    hstart.inv hcareful

/-! ## A document posted between the reads of a payment -/

/-- A book with a bank account and one invoice of five units that is not posted. -/
def draftAndBank : Db :=
  { oneDraft with
    accounts := oneDraft.accounts ++ [⟨"bank", "Bank", .bank, some "usd", some "root", "", false⟩] }

def payFive : ApplyPaymentInput :=
  { ownerType := .customer, ownerGuid := "customer", transferAccountGuid := "bank", amount := 5
    date := "1970-01-01", num := none, memo := none, transactionGuid := none, allocations := [] }

/-- No request on `draftAndBank` yet. -/
def waiting : Sessions := ⟨draftAndBank, fun _ => none, fun _ => .idle⟩

theorem waiting_start : Start plainHost waiting := by
  refine ⟨⟨by decide, ?_, ?_, ?_, ?_⟩, ⟨?_, ?_⟩, fun _ => rfl⟩
  · simp [waiting, draftAndBank, oneDraft, Db.empty]
  · simp [waiting, draftAndBank, oneDraft, Db.empty]
  · simp [waiting, draftAndBank, oneDraft, Db.empty]
  · simp [waiting, draftAndBank, oneDraft, Db.empty]
  · have hfresh : plainHost.Fresh oneDraft := plainHost_fresh_empty rfl rfl rfl rfl
    exact hfresh.injective
  · simp [waiting, draftAndBank, oneDraft, Db.empty]

def postThenPay : List Step :=
  [.request 0 (.post "invoice" ⟨"1970-01-01", none, none⟩), .lock 0, .read 0, .commit 0,
    .request 1 (.pay payFive), .lock 1, .read 1, .readSplits 1, .commit 1]

theorem paid_within_total_postThenPay :
    ∃ s', run (next plainHost "book") postThenPay waiting = some s' ∧ WithinTotals s'.db ∧
      Along (next plainHost "book") (PaysPosted plainHost) postThenPay waiting := by
  have hrun : (run (next plainHost "book") postThenPay waiting).isSome := by decide +kernel
  obtain ⟨s', hs'⟩ := Option.isSome_iff_exists.1 hrun
  exact ⟨s', hs', paid_within_total waiting_start hs' (by decide +kernel)⟩

/-- A payment finds no document to lock, then one that is posted meanwhile, and commits after that
one is unposted. -/
def overtaken : List Step :=
  [.request 0 (.pay payFive), .request 1 (.post "invoice" ⟨"1970-01-01", none, none⟩), .lock 1,
    .read 1, .commit 1, .read 0, .readSplits 0, .request 2 (.unpost "invoice"), .lock 2, .read 2,
    .commit 2, .commit 0]

/-- The overtaken payment goes to the lot of a document that is not posted. -/
theorem paysPosted_overtaken_false :
    ¬∀ (host : Host) (bookGuid : String) (steps : List Step) (s s' : Sessions), Start host s →
      run (next host bookGuid) steps s = some s' →
        WithinTotals s'.db ∧ Along (next host bookGuid) (PaysPosted host) steps s := by
  intro h
  have hrun : (run (next plainHost "book") overtaken waiting).isSome := by decide +kernel
  obtain ⟨s', hs'⟩ := Option.isSome_iff_exists.1 hrun
  have hpays := (h _ _ _ _ _ waiting_start hs').2
  revert hpays
  decide +kernel

end Business
