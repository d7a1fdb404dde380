import GnucashWeb.Reimbursements.Requests

/-!
# A request and its voucher

Along every run in which only the voucher of an approved request is posted, the voucher of an approval
is not deleted, and no undo crashes between deleting the voucher and resetting the request, there is
at most one voucher, a request that was not approved has none posted, a request never gets stuck, and
an approved request names its voucher unless an undo has just deleted it; it always does where no undo
deletes a voucher (`coupled_of_run`).  An undo that crashes after it deleted the voucher leaves an
approved request without one (`crashedUndo_not_coupled`).
-/

namespace Reimbursements

open Runs Sessions

/-! ## What is asked of the tables -/

def Named (db : Db) : Prop :=
  db.request.status = .approved → ∃ v ∈ db.vouchers, db.request.voucherGuid = some v.guid

/-- The operations that are offered: a crash is not one. -/
def Step.Offered : Step → Prop
  | .crash _ => False
  | _ => True

/-- Some operations bring the request back to submitted. -/
def Recovers (s : State) : Prop :=
  ∃ steps s', (∀ l ∈ steps, Step.Offered l) ∧ run next steps s = some s' ∧
    s'.db.request.status = .submitted

structure Coupled (s : State) : Prop where
  single : s.db.vouchers.length ≤ 1
  unposted : s.db.request.status = .submitted ∨ s.db.request.status = .rejected →
    ∀ v ∈ s.db.vouchers, v.posted = false
  recovers : (∀ v ∈ s.db.vouchers, v.posted = false) → Recovers s

/-- The voucher of an approval is posted after it and not deleted, and an undo does not crash
half-way. -/
def Unraced : Step → State → Prop
  | .post _ guid, s => s.db.isDraft guid →
      s.db.request.status = .approved ∧ s.db.request.voucherGuid = some guid
  | .delete guid, s => s.db.isDraft guid →
      s.db.request.status ≠ .approved ∧ ∀ k ∈ s.holder (), s.phase k ≠ .approving guid
  | .crash k, s => s.phase k = .resetting → s.db.request.status ≠ .approved
  | _, _ => True

def Phase.deletes? : Phase → Option Guid
  | .deleting guid => some guid
  | _ => none

def KeepsVoucher : Step → State → Prop
  | .advance k, s => ∀ guid ∈ (s.phase k).deletes?, s.db.isDraft guid = false
  | _, _ => True

/-! ## Invariants -/

/-- What holds of the request and its vouchers. -/
structure TablesOk (db : Db) : Prop where
  single : db.vouchers.length ≤ 1
  own : ∀ v ∈ db.vouchers, v.ownerGuid = db.request.employeeGuid ∧
    v.billingId = billingId db.request.id
  unposted : db.request.status = .submitted ∨ db.request.status = .rejected →
    ∀ v ∈ db.vouchers, v.posted = false
  settled : db.request.status = .posted → ∃ v ∈ db.vouchers, v.posted = true

def PhaseOk (db : Db) : Phase → Prop
  | .idle => True
  | .finding | .adopting _ | .rejecting => db.request.status = .submitted
  | .creating => db.request.status = .submitted ∧ db.vouchers = []
  | .approving guid => db.request.status = .submitted ∧ ∃ v ∈ db.vouchers, v.guid = guid
  | .deleting guid => db.request.status = .approved ∧ db.request.voucherGuid = some guid ∨
      db.request.status = .posted
  | .resetting => db.request.status = .rejected ∨
      db.request.status = .approved ∧ db.vouchers = []
  | .marking guid => ∃ v ∈ db.vouchers, v.guid = guid ∧ v.posted = true

structure Inv (s : State) : Prop where
  tables : TablesOk s.db
  named : s.db.request.status = .approved →
    (∃ v ∈ s.db.vouchers, s.db.request.voucherGuid = some v.guid) ∨ ∃ k, s.phase k = .resetting
  phases : ∀ k, PhaseOk s.db (s.phase k)
  held : ∀ k, (s.phase k).Locked ↔ s.holder () = some k
  idle : ∃ n, ∀ k, n ≤ k → s.phase k = .idle

variable {s : State} {k : ℕ} {p : Phase} {db : Db} {guid : Guid}

theorem TablesOk.eq_of_mem (h : TablesOk db) {v w : Voucher} (hv : v ∈ db.vouchers)
    (hw : w ∈ db.vouchers) : v = w := by
  obtain ⟨x, hx⟩ : ∃ x, db.vouchers ⊆ [x] := by
    match hlist : db.vouchers, h.single with
    | [], _ => exact ⟨v, List.nil_subset _⟩
    | [x], _ => exact ⟨x, List.Subset.refl _⟩
  exact (List.mem_singleton.1 (hx hv)).trans (List.mem_singleton.1 (hx hw)).symm

theorem Inv.not_locked (hs : Inv s) (hk : (s.phase k).Locked) {j : ℕ} (hjk : j ≠ k) :
    ¬(s.phase j).Locked := by
  intro hj
  have hholder := (hs.held k).1 hk
  rw [(hs.held j).1 hj] at hholder
  exact hjk (Option.some.inj hholder)

theorem Inv.others (hs : Inv s) (hk : (s.phase k).Locked)
    (hposted : ∀ v ∈ s.db.vouchers, v.posted = true → v ∈ db.vouchers) {j : ℕ} (hjk : j ≠ k) :
    PhaseOk db (s.phase j) := by
  have hold := hs.phases j
  have hfree := hs.not_locked hk hjk
  cases hj : s.phase j with
  | idle => trivial
  | marking guid =>
    rw [hj] at hold
    obtain ⟨v, hv, hguid, hpost⟩ := hold
    exact ⟨v, hposted v hv hpost, hguid, hpost⟩
  | _ =>
    rw [hj] at hfree
    exact (hfree trivial).elim

theorem PhaseOk.decided (h : PhaseOk db p) (hnot : db.request.status ≠ .submitted) :
    p = .idle ∨ (∃ guid, p = .deleting guid) ∨ p = .resetting ∨ ∃ guid, p = .marking guid := by
  cases p with
  | idle => exact .inl rfl
  | deleting guid => exact .inr (.inl ⟨guid, rfl⟩)
  | resetting => exact .inr (.inr (.inl rfl))
  | marking guid => exact .inr (.inr (.inr ⟨guid, rfl⟩))
  | creating => exact absurd h.1 hnot
  | approving => exact absurd h.1 hnot
  | _ => exact absurd h hnot

theorem Inv.undoing (hs : Inv s) (hholder : s.holder () = some k)
    (hnot : s.db.request.status ≠ .submitted) :
    (∃ guid, s.phase k = .deleting guid) ∨ s.phase k = .resetting := by
  have hlocked := (hs.held k).2 hholder
  rcases (hs.phases k).decided hnot with hk | hk | hk | ⟨guid, hk⟩
  · rw [hk] at hlocked
    exact hlocked.elim
  · exact .inl hk
  · exact .inr hk
  · rw [hk] at hlocked
    exact hlocked.elim

theorem phases_update (hp : PhaseOk db p) (hother : ∀ j, j ≠ k → PhaseOk db (s.phase j)) (j : ℕ) :
    PhaseOk db (Function.update s.phase k p j) := by
  by_cases hjk : j = k
  · subst hjk
    rw [Function.update_self]
    exact hp
  · rw [Function.update_of_ne hjk]
    exact hother j hjk

theorem idle_update (hs : Inv s) : ∃ n, ∀ j, n ≤ j → Function.update s.phase k p j = .idle := by
  obtain ⟨n, hn⟩ := hs.idle
  refine ⟨max n (k + 1), fun j hj => ?_⟩
  rw [Function.update_of_ne (by omega)]
  exact hn j (by omega)

theorem Inv.write (hs : Inv s) (hk : (s.phase k).Locked) (hp : p.Locked) (hok : PhaseOk db p)
    (htables : TablesOk db)
    (hposted : ∀ v ∈ s.db.vouchers, v.posted = true → v ∈ db.vouchers)
    (hnamed : db.request.status = .approved →
      (∃ v ∈ db.vouchers, db.request.voucherGuid = some v.guid) ∨ p = .resetting) :
    Inv (s.write k db p) := by
  refine ⟨htables, fun h => (hnamed h).imp_right fun hreset => ⟨k, ?_⟩,
    phases_update hok fun j hjk => hs.others hk hposted hjk, fun j => ?_,
    idle_update (s := s) hs⟩
  · rw [hreset]
    exact Function.update_self ..
  · change (Function.update s.phase k p j).Locked ↔ s.holder () = some j
    by_cases hjk : j = k
    · subst hjk
      rw [Function.update_self]
      exact iff_of_true hp ((hs.held j).1 hk)
    · rw [Function.update_of_ne hjk]
      exact hs.held j

theorem Inv.close (hs : Inv s) (hk : (s.phase k).Locked) (htables : TablesOk db)
    (hposted : ∀ v ∈ s.db.vouchers, v.posted = true → v ∈ db.vouchers) (hnamed : Named db) :
    Inv (s.close k db .idle) := by
  refine ⟨htables, fun h => .inl (hnamed h),
    phases_update (p := .idle) trivial fun j hjk => hs.others hk hposted hjk, fun j => ?_,
    idle_update hs⟩
  have hholder : (s.close k db .idle).holder () = none := if_pos ((hs.held k).1 hk)
  rw [hholder]
  refine iff_of_false ?_ (by simp)
  by_cases hjk : j = k
  · subst hjk
    rw [Sys.close_phase_self]
    exact id
  · rw [Sys.close_phase_of_ne hjk]
    exact hs.not_locked hk hjk

theorem Inv.end (hs : Inv s) (hk : ¬(s.phase k).Locked) (htables : TablesOk db)
    (hother : ∀ j, j ≠ k → PhaseOk db (s.phase j))
    (hnamed : db.request.status = .approved → s.db.request.status = .approved ∧
      db.request.voucherGuid = s.db.request.voucherGuid ∧ db.vouchers = s.db.vouchers) :
    Inv (s.close k db .idle) := by
  refine ⟨htables, fun h => ?_, phases_update (p := .idle) trivial hother, fun j => ?_,
    idle_update hs⟩
  · obtain ⟨hold, hguid, hvouchers⟩ := hnamed h
    rcases hs.named hold with hv | ⟨i, hi⟩
    · refine .inl ?_
      simp only [Sys.close_db]
      rw [hguid, hvouchers]
      exact hv
    · refine .inr ⟨i, ?_⟩
      rw [Sys.close_phase_of_ne, hi]
      rintro rfl
      exact hk (by rw [hi]; trivial)
  · have hne : s.holder () ≠ some k := fun h => hk ((hs.held k).2 h)
    have hholder : (s.close k db .idle).holder () = s.holder () := if_neg hne
    rw [hholder]
    by_cases hjk : j = k
    · subst hjk
      rw [Sys.close_phase_self]
      exact iff_of_false id hne
    · rw [Sys.close_phase_of_ne hjk]
      exact hs.held j

theorem Inv.named_of_locked (hs : Inv s) (hk : (s.phase k).Locked)
    (hne : s.phase k ≠ .resetting) : Named s.db := by
  intro h
  refine (hs.named h).resolve_right ?_
  rintro ⟨j, hj⟩
  by_cases hjk : j = k
  · exact hne (hjk ▸ hj)
  · exact hs.not_locked hk hjk (by rw [hj]; trivial)

/-! ## Beginning -/

theorem inv_begin (hs : Inv s) (hfree : s.holder () = none) (hp : p.Locked)
    (hok : PhaseOk s.db p) : Inv ((s.take () k).goto k p) := by
  have hunlocked (j : ℕ) : ¬(s.phase j).Locked := by
    intro hj
    have hholder := (hs.held j).1 hj
    rw [hfree] at hholder
    cases hholder
  refine ⟨hs.tables, fun h => .inl ((hs.named h).resolve_right ?_),
    phases_update hok fun j _ => hs.phases j, fun j => ?_, idle_update (s := s) hs⟩
  · rintro ⟨j, hj⟩
    exact hunlocked j (by rw [hj]; trivial)
  · rw [Sys.goto_holder, Sys.take_holder_self]
    by_cases hjk : j = k
    · subst hjk
      rw [Sys.goto_phase_self]
      exact iff_of_true hp rfl
    · rw [Sys.goto_phase_of_ne hjk]
      exact iff_of_false (hunlocked j) fun h => hjk (Option.some.inj h).symm

variable {s' : State} {l : Step}

theorem inv_of_begin (hs : Inv s) (h : s.begin k p = some s')
    (hp : p = .idle ∨ p.Locked ∧ PhaseOk s.db p) : Inv s' := by
  unfold State.begin at h
  split at h
  · next hguard =>
      cases h
      rcases hp with rfl | ⟨hlocked, hok⟩
      · rw [if_pos rfl]
        exact hs
      · rw [if_neg (by rintro rfl; exact hlocked)]
        exact inv_begin hs hguard.2 hlocked hok
  · cases h

theorem approve_ok : approveReimbursement db = .idle ∨
    (approveReimbursement db).Locked ∧ PhaseOk db (approveReimbursement db) := by
  unfold approveReimbursement
  split
  · next h => exact .inr ⟨trivial, h⟩
  · exact .inl rfl

theorem reject_ok {reason : List Char} : rejectReimbursement db reason = .idle ∨
    (rejectReimbursement db reason).Locked ∧ PhaseOk db (rejectReimbursement db reason) := by
  unfold rejectReimbursement
  split
  · next h => exact .inr ⟨trivial, h.1⟩
  · exact .inl rfl

theorem undo_ok : undoReimbursementDecision db = .idle ∨
    (undoReimbursementDecision db).Locked ∧ PhaseOk db (undoReimbursementDecision db) := by
  unfold undoReimbursementDecision
  split
  · next hstatus hguid => exact .inr ⟨trivial, .inl ⟨hstatus, hguid⟩⟩
  · next hstatus => exact .inr ⟨trivial, .inl hstatus⟩
  · exact .inl rfl

/-! ## Approvals and rejections -/

theorem named_of_ne (h : db.request.status ≠ .approved) : Named db := fun happroved =>
  absurd happroved h

theorem vouchers_eq_nil (hs : Inv s) (hstatus : s.db.request.status = .submitted)
    (h : s.db.findOrphan = none) : s.db.vouchers = [] := by
  refine List.eq_nil_iff_forall_not_mem.2 fun v hv => ?_
  have hnot := List.find?_eq_none.1 h v hv
  obtain ⟨howner, hbilling⟩ := hs.tables.own v hv
  have hunposted := hs.tables.unposted (.inl hstatus) v hv
  simp [isOrphan, howner, hbilling, hunposted] at hnot

theorem inv_finding (hs : Inv s) (hk : s.phase k = .finding) :
    Inv (s.goto k (s.db.findOrphan.elim .creating fun v => .adopting v.guid)) := by
  have hlocked : (s.phase k).Locked := by rw [hk]; trivial
  have hstatus : s.db.request.status = .submitted := by simpa [hk, PhaseOk] using hs.phases k
  have hnot : s.db.request.status ≠ .approved := by rw [hstatus]; decide
  cases horphan : s.db.findOrphan with
  | none =>
    exact hs.write (p := .creating) hlocked trivial
      ⟨hstatus, vouchers_eq_nil hs hstatus horphan⟩ hs.tables (fun _ hv _ => hv)
      fun h => absurd h hnot
  | some v =>
    exact hs.write (p := .adopting v.guid) hlocked trivial hstatus hs.tables
      (fun _ hv _ => hv) fun h => absurd h hnot

theorem inv_adopting (hs : Inv s) (hk : s.phase k = .adopting guid) :
    Inv (if s.db.has guid then s.goto k (.approving guid) else s.close k s.db .idle) := by
  have hlocked : (s.phase k).Locked := by rw [hk]; trivial
  have hstatus : s.db.request.status = .submitted := by simpa [hk, PhaseOk] using hs.phases k
  have hnot : s.db.request.status ≠ .approved := by rw [hstatus]; decide
  split
  · next hhas =>
      exact hs.write (p := .approving guid) hlocked trivial ⟨hstatus, has_iff.1 hhas⟩ hs.tables
        (fun _ hv _ => hv) fun h => absurd h hnot
  · exact hs.close hlocked hs.tables (fun _ hv _ => hv) (named_of_ne hnot)

theorem inv_creating (hs : Inv s) (hk : s.phase k = .creating) :
    Inv (s.write k s.db.createVoucher (.approving s.db.nextGuid)) := by
  have hlocked : (s.phase k).Locked := by rw [hk]; trivial
  obtain ⟨hstatus, hnil⟩ : s.db.request.status = .submitted ∧ s.db.vouchers = [] := by
    simpa [hk, PhaseOk] using hs.phases k
  have hvouchers : s.db.createVoucher.vouchers = [newVoucher s.db] := by
    simp [Db.createVoucher, hnil]
  have hnew {v : Voucher} (hv : v ∈ s.db.createVoucher.vouchers) : v = newVoucher s.db := by
    rw [hvouchers] at hv
    exact List.mem_singleton.1 hv
  apply hs.write (p := .approving s.db.nextGuid) hlocked trivial
  · exact ⟨hstatus, newVoucher s.db, by rw [hvouchers]; exact List.mem_singleton.2 rfl, rfl⟩
  · refine ⟨by simp [hvouchers], fun v hv => ?_, fun _ v hv => ?_, fun h => ?_⟩
    · rw [hnew hv]
      exact ⟨rfl, rfl⟩
    · rw [hnew hv]
      rfl
    · rw [request_createVoucher, hstatus] at h
      cases h
  · intro v hv
    rw [hnil] at hv
    cases hv
  · intro h
    rw [request_createVoucher, hstatus] at h
    cases h

theorem inv_approving (hs : Inv s) (hk : s.phase k = .approving guid) :
    Inv (s.close k (s.db.approve guid) .idle) := by
  have hlocked : (s.phase k).Locked := by rw [hk]; trivial
  obtain ⟨hstatus, v, hv, hguid⟩ : s.db.request.status = .submitted ∧
      ∃ v ∈ s.db.vouchers, v.guid = guid := by
    simpa [hk, PhaseOk] using hs.phases k
  rw [approve_of_submitted hstatus]
  apply hs.close hlocked
  · refine ⟨hs.tables.single, hs.tables.own, fun h => ?_, fun h => (by cases h)⟩
    rcases h with h | h <;> cases h
  · exact fun _ hv _ => hv
  · exact fun _ => ⟨v, hv, by rw [hguid]; rfl⟩

theorem inv_rejecting (hs : Inv s) (hk : s.phase k = .rejecting) :
    Inv (s.close k s.db.reject .idle) := by
  have hlocked : (s.phase k).Locked := by rw [hk]; trivial
  have hstatus : s.db.request.status = .submitted := by simpa [hk, PhaseOk] using hs.phases k
  rw [reject_of_submitted hstatus]
  apply hs.close hlocked
  · exact ⟨hs.tables.single, hs.tables.own, fun _ => hs.tables.unposted (.inl hstatus),
      fun h => by cases h⟩
  · exact fun _ hv _ => hv
  · intro h
    cases h

/-! ## Deletions and undone decisions -/

theorem TablesOk.deleteVoucher (h : TablesOk db) : TablesOk (db.deleteVoucher guid) := by
  refine ⟨Nat.le_trans (List.length_filter_le ..) h.single,
    fun v hv => h.own v (mem_deleteVoucher.1 hv).1,
    fun hstatus v hv => h.unposted hstatus v (mem_deleteVoucher.1 hv).1, fun hstatus => ?_⟩
  obtain ⟨v, hv, hposted⟩ := h.settled hstatus
  exact ⟨v, mem_deleteVoucher.2 ⟨hv, fun _ => hposted⟩, hposted⟩

theorem TablesOk.deleteVoucher_eq_nil (h : TablesOk db) (hdraft : db.isDraft guid) :
    (db.deleteVoucher guid).vouchers = [] := by
  obtain ⟨v, hv, hguid, hunposted⟩ := isDraft_iff.1 hdraft
  refine List.eq_nil_iff_forall_not_mem.2 fun w hw => ?_
  obtain ⟨hmem, hposted⟩ := mem_deleteVoucher.1 hw
  obtain rfl := h.eq_of_mem hmem hv
  rw [hposted hguid] at hunposted
  cases hunposted

theorem deleteVoucher_of_not_isDraft (h : ¬db.isDraft guid) : db.deleteVoucher guid = db := by
  have hall : ∀ v ∈ db.vouchers, (!(v.guid = guid && !v.posted)) = true := by
    simpa [Db.isDraft, imp_iff_not_or] using h
  have hvouchers : (db.deleteVoucher guid).vouchers = db.vouchers := List.filter_eq_self.2 hall
  exact congrArg (fun vouchers => { db with vouchers }) hvouchers

theorem inv_deleting (hs : Inv s) (hk : s.phase k = .deleting guid) :
    Inv (if s.db.isDraft guid then s.write k (s.db.deleteVoucher guid) .resetting
      else s.close k s.db .idle) := by
  have hlocked : (s.phase k).Locked := by rw [hk]; trivial
  have hok := hs.phases k
  rw [hk] at hok
  split
  · next hdraft =>
      have hstatus : s.db.request.status = .approved := by
        refine hok.elim And.left fun hposted => ?_
        obtain ⟨v, hv, hpost⟩ := hs.tables.settled hposted
        obtain ⟨w, hw, -, hunposted⟩ := isDraft_iff.1 hdraft
        rw [hs.tables.eq_of_mem hv hw, hunposted] at hpost
        cases hpost
      apply hs.write (p := .resetting) hlocked trivial
      · exact .inr ⟨hstatus, hs.tables.deleteVoucher_eq_nil hdraft⟩
      · exact hs.tables.deleteVoucher
      · exact fun v hv hposted => mem_deleteVoucher.2 ⟨hv, fun _ => hposted⟩
      · exact fun _ => .inr rfl
  · refine hs.close hlocked hs.tables (fun _ hv _ => hv) (hs.named_of_locked hlocked ?_)
    rw [hk]
    exact Phase.noConfusion

theorem inv_resetting (hs : Inv s) (hk : s.phase k = .resetting) :
    Inv (s.close k s.db.reset .idle) := by
  have hlocked : (s.phase k).Locked := by rw [hk]; trivial
  have hok := hs.phases k
  rw [hk] at hok
  apply hs.close hlocked
  · refine ⟨hs.tables.single, hs.tables.own, fun _ => ?_, fun h => (by cases h)⟩
    rcases hok with hstatus | ⟨-, hnil⟩
    · exact hs.tables.unposted (.inr hstatus)
    · intro v hv
      change v ∈ s.db.vouchers at hv
      rw [hnil] at hv
      cases hv
  · exact fun _ hv _ => hv
  · intro h
    cases h

theorem inv_delete (hs : Inv s) (hdraft : s.db.isDraft guid)
    (hstatus : s.db.request.status ≠ .approved)
    (hheld : ∀ k ∈ s.holder (), s.phase k ≠ .approving guid) :
    Inv { s with db := s.db.deleteVoucher guid } := by
  obtain ⟨v, hv, hguid, hunposted⟩ := isDraft_iff.1 hdraft
  refine ⟨hs.tables.deleteVoucher, fun h => absurd h hstatus, fun j => ?_, hs.held, hs.idle⟩
  have hold := hs.phases j
  change PhaseOk (s.db.deleteVoucher guid) (s.phase j)
  cases hj : s.phase j with
  | creating =>
    rw [hj] at hold
    exact ⟨hold.1, hs.tables.deleteVoucher_eq_nil hdraft⟩
  | approving other =>
    rw [hj] at hold
    obtain ⟨w, hw, hother⟩ := hold.2
    refine absurd hj ?_
    rw [← hother, hs.tables.eq_of_mem hw hv, hguid]
    exact hheld j ((hs.held j).1 (by rw [hj]; trivial))
  | resetting =>
    rw [hj] at hold
    exact hold.imp_right fun h => absurd h.1 hstatus
  | marking other =>
    rw [hj] at hold
    obtain ⟨w, hw, hother, hposted⟩ := hold
    exact ⟨w, mem_deleteVoucher.2 ⟨hw, fun _ => hposted⟩, hother, hposted⟩
  | _ =>
    rw [hj] at hold
    exact hold

theorem mem_postVoucher_of_mem (guid : Guid) {v : Voucher} (hv : v ∈ db.vouchers) :
    ∃ w ∈ (db.postVoucher guid).vouchers, w.guid = v.guid ∧ w.ownerGuid = v.ownerGuid ∧
      w.billingId = v.billingId ∧ (v.guid = guid ∨ v.posted = true → w.posted = true) := by
  refine ⟨_, mem_postVoucher.2 ⟨v, hv, rfl⟩, ?_⟩
  split
  · exact ⟨rfl, rfl, rfl, fun _ => rfl⟩
  · next hne => exact ⟨rfl, rfl, rfl, fun h => h.resolve_left hne⟩

theorem TablesOk.postVoucher (h : TablesOk db) (hstatus : db.request.status = .approved) :
    TablesOk (db.postVoucher guid) := by
  refine ⟨?_, fun w hw => ?_, fun hnot => ?_, fun hposted => ?_⟩
  · simpa [Db.postVoucher] using h.single
  · obtain ⟨v, hv, rfl⟩ := mem_postVoucher.1 hw
    split <;> exact h.own v hv
  · rw [request_postVoucher, hstatus] at hnot
    rcases hnot with hnot | hnot <;> cases hnot
  · rw [request_postVoucher, hstatus] at hposted
    cases hposted

theorem inv_post (hs : Inv s) (hidle : s.phase k = .idle) (hdraft : s.db.isDraft guid)
    (hstatus : s.db.request.status = .approved) (hnames : s.db.request.voucherGuid = some guid) :
    Inv (s.write k (s.db.postVoucher guid) (.marking guid)) := by
  obtain ⟨v, hv, hguid, -⟩ := isDraft_iff.1 hdraft
  obtain ⟨w, hw, hwguid, -, -, hposted⟩ := mem_postVoucher_of_mem guid hv
  refine ⟨hs.tables.postVoucher hstatus, fun _ => .inl ⟨w, hw, ?_⟩,
    phases_update (p := .marking guid) ⟨w, hw, hwguid.trans hguid, hposted (.inl hguid)⟩
      fun j _ => ?_, fun j => ?_, idle_update (s := s) hs⟩
  · rw [hwguid, hguid]
    exact hnames
  · have hold := hs.phases j
    change PhaseOk (s.db.postVoucher guid) (s.phase j)
    have hnot : s.db.request.status ≠ .submitted := by rw [hstatus]; decide
    rcases hold.decided hnot with hj | ⟨other, hj⟩ | hj | ⟨other, hj⟩
    · rw [hj]
      trivial
    · rw [hj] at hold ⊢
      exact hold
    · rw [hj] at hold
      rcases hold with hold | ⟨-, hnil⟩
      · rw [hstatus] at hold
        cases hold
      · rw [hnil] at hv
        cases hv
    · rw [hj] at hold ⊢
      obtain ⟨x, hx, hother, hxposted⟩ := hold
      obtain ⟨y, hy, hyguid, -, -, hyposted⟩ := mem_postVoucher_of_mem guid hx
      exact ⟨y, hy, hyguid.trans hother, hyposted (.inr hxposted)⟩
  · change (Function.update s.phase k (.marking guid) j).Locked ↔ s.holder () = some j
    rw [← hs.held j]
    by_cases hjk : j = k
    · subst hjk
      rw [Function.update_self, hidle]
      exact Iff.rfl
    · rw [Function.update_of_ne hjk]

theorem inv_marking (hs : Inv s) (hk : s.phase k = .marking guid) :
    Inv (s.close k (s.db.markReimbursementVoucherPosted guid) .idle) := by
  have hnot : ¬(s.phase k).Locked := by rw [hk]; exact id
  obtain ⟨v, hv, -, hposted⟩ : ∃ v ∈ s.db.vouchers, v.guid = guid ∧ v.posted = true := by
    simpa [hk, PhaseOk] using hs.phases k
  unfold Db.markReimbursementVoucherPosted
  split
  · next h =>
      apply hs.end hnot
      · refine ⟨hs.tables.single, hs.tables.own, fun hstatus => ?_, fun _ => ⟨v, hv, hposted⟩⟩
        rcases hstatus with hstatus | hstatus <;> cases hstatus
      · intro j _
        have hold := hs.phases j
        have hsubmitted : s.db.request.status ≠ .submitted := by rw [h.2]; decide
        rcases hold.decided hsubmitted with hj | ⟨other, hj⟩ | hj | ⟨other, hj⟩
        · rw [hj]
          trivial
        · rw [hj]
          exact .inr rfl
        · rw [hj] at hold
          rcases hold with hold | ⟨-, hnil⟩
          · rw [h.2] at hold
            cases hold
          · rw [hnil] at hv
            cases hv
        · rw [hj] at hold ⊢
          exact hold
      · intro hstatus
        cases hstatus
  · exact hs.end hnot hs.tables (fun j _ => hs.phases j) fun h => ⟨h, rfl, rfl⟩

theorem inv_advance (h : s.advance k = some s') (hs : Inv s) : Inv s' := by
  unfold State.advance at h
  split at h
  · cases h
  · next hk =>
      cases h
      exact inv_finding hs hk
  · next hk =>
      cases h
      exact inv_adopting hs hk
  · next hk =>
      cases h
      exact inv_creating hs hk
  · next hk =>
      cases h
      exact inv_approving hs hk
  · next hk =>
      cases h
      exact inv_rejecting hs hk
  · next hk =>
      cases h
      exact inv_deleting hs hk
  · next hk =>
      cases h
      exact inv_resetting hs hk
  · next hk =>
      cases h
      exact inv_marking hs hk

theorem inv_crash (hs : Inv s) (h : s.phase k = .resetting → s.db.request.status ≠ .approved) :
    Inv (s.close k s.db .idle) := by
  by_cases hlocked : (s.phase k).Locked
  · refine hs.close hlocked hs.tables (fun _ hv _ => hv) ?_
    by_cases hreset : s.phase k = .resetting
    · exact named_of_ne (h hreset)
    · exact hs.named_of_locked hlocked hreset
  · exact hs.end hlocked hs.tables (fun j _ => hs.phases j) fun h => ⟨h, rfl, rfl⟩

theorem inv_next (hl : Unraced l s) (h : next l s = some s') (hs : Inv s) : Inv s' := by
  cases l with
  | approve k => exact inv_of_begin hs h approve_ok
  | reject k reason => exact inv_of_begin hs h reject_ok
  | undo k => exact inv_of_begin hs h undo_ok
  | post k guid =>
    rw [next] at h
    split at h
    · next hguard =>
        cases h
        exact inv_post hs hguard.1 hguard.2 (hl hguard.2).1 (hl hguard.2).2
    · cases h
  | delete guid =>
    cases h
    by_cases hdraft : s.db.isDraft guid
    · exact inv_delete hs hdraft (hl hdraft).1 (hl hdraft).2
    · rw [deleteVoucher_of_not_isDraft hdraft]
      exact hs
  | advance k => exact inv_advance h hs
  | crash k =>
    cases h
    exact inv_crash hs hl

theorem inv_start (id : ℕ) (employeeGuid : Guid) : Inv (start id employeeGuid) := by
  refine ⟨⟨Nat.zero_le _, fun v hv => (by cases hv), fun _ v hv => (by cases hv),
    fun h => (by cases h)⟩, fun h => (by cases h), fun k => trivial, fun k => ?_,
    0, fun k _ => rfl⟩
  exact iff_of_false (fun h => h) nofun

/-! ## Recovery -/

theorem Recovers.of_next (h : next l s = some s') (hs' : Recovers s')
    (hl : l.Offered) : Recovers s := by
  obtain ⟨steps, t, hoffered, hrun, hstatus⟩ := hs'
  refine ⟨l :: steps, t, fun l' hl' => ?_, run_cons_eq_some.2 ⟨s', h, hrun⟩, hstatus⟩
  rcases List.mem_cons.1 hl' with rfl | hl'
  · exact hl
  · exact hoffered l' hl'

theorem recovers_submitted (h : s.db.request.status = .submitted) : Recovers s :=
  ⟨[], s, fun _ hl => (by cases hl), rfl, h⟩

theorem recovers_resetting (hk : s.phase k = .resetting) : Recovers s := by
  have hnext : next (.advance k) s = some (s.close k s.db.reset .idle) := by
    simp [next, State.advance, hk]
  exact .of_next hnext (recovers_submitted rfl) trivial

theorem recovers_deleting (hk : s.phase k = .deleting guid) (hdraft : s.db.isDraft guid) :
    Recovers s := by
  have hnext : next (.advance k) s =
      some (s.write k (s.db.deleteVoucher guid) .resetting) := by
    simp [next, State.advance, hk, hdraft]
  exact .of_next hnext (recovers_resetting (k := k) (Function.update_self ..)) trivial

theorem next_undo (hidle : s.phase k = .idle) (hfree : s.holder () = none)
    (h : undoReimbursementDecision s.db = p) (hp : p ≠ .idle) :
    next (.undo k) s = some ((s.take () k).goto k p) := by
  rw [next, State.begin, h, if_pos ⟨hidle, hfree⟩, if_neg hp]

theorem recovers_of_inv (hs : Inv s) (hposted : ∀ v ∈ s.db.vouchers, v.posted = false) :
    Recovers s := by
  obtain ⟨n, hn⟩ := hs.idle
  have hidle : s.phase n = .idle := hn n (Nat.le_refl n)
  have hdraft {v : Voucher} (hv : v ∈ s.db.vouchers) : s.db.isDraft v.guid :=
    isDraft_iff.2 ⟨v, hv, rfl, hposted v hv⟩
  by_cases hreset : ∃ k, s.phase k = .resetting
  · obtain ⟨k, hk⟩ := hreset
    exact recovers_resetting hk
  cases hstatus : s.db.request.status with
  | submitted => exact recovers_submitted hstatus
  | posted =>
    obtain ⟨v, hv, hpost⟩ := hs.tables.settled hstatus
    rw [hposted v hv] at hpost
    cases hpost
  | approved =>
    obtain ⟨v, hv, hguid⟩ := (hs.named hstatus).resolve_right hreset
    cases hholder : s.holder () with
    | none =>
      have hundo : undoReimbursementDecision s.db = .deleting v.guid := by
        simp [undoReimbursementDecision, hstatus, hguid]
      refine .of_next (next_undo hidle hholder hundo Phase.noConfusion) ?_ trivial
      exact recovers_deleting (k := n) Sys.goto_phase_self (hdraft hv)
    | some k =>
      have hnot : s.db.request.status ≠ .submitted := by rw [hstatus]; decide
      have hok := hs.phases k
      rcases hs.undoing hholder hnot with ⟨guid, hk⟩ | hk
      · rw [hk] at hok
        rcases hok with ⟨-, hnames⟩ | hok
        · rw [hguid] at hnames
          cases hnames
          exact recovers_deleting hk (hdraft hv)
        · rw [hstatus] at hok
          cases hok
      · exact recovers_resetting hk
  | rejected =>
    cases hholder : s.holder () with
    | none =>
      have hundo : undoReimbursementDecision s.db = .resetting := by
        simp [undoReimbursementDecision, hstatus]
      refine .of_next (next_undo hidle hholder hundo Phase.noConfusion) ?_ trivial
      exact recovers_resetting (k := n) Sys.goto_phase_self
    | some k =>
      have hnot : s.db.request.status ≠ .submitted := by rw [hstatus]; decide
      have hok := hs.phases k
      rcases hs.undoing hholder hnot with ⟨guid, hk⟩ | hk
      · rw [hk] at hok
        rcases hok with ⟨hok, -⟩ | hok
        · rw [hstatus] at hok
          cases hok
        · rw [hstatus] at hok
          cases hok
      · exact recovers_resetting hk

theorem Inv.coupled (hs : Inv s) : Coupled s :=
  ⟨hs.tables.single, hs.tables.unposted, recovers_of_inv hs⟩

/-! ## Runs in which no undo deletes a voucher -/

/-- No undo of an approval is past its deletion. -/
def Whole (s : State) : Prop :=
  s.db.request.status = .approved → ∀ k, s.phase k ≠ .resetting

theorem Inv.named_of_whole (hs : Inv s) (h : Whole s) : Named s.db := by
  intro hstatus
  refine (hs.named hstatus).resolve_right ?_
  rintro ⟨k, hk⟩
  exact h hstatus k hk

theorem Whole.update {t : State} (hs : Whole s) (hphase : t.phase = Function.update s.phase k p)
    (hstatus : t.db.request.status = .approved → s.db.request.status = .approved)
    (hp : p = .resetting → t.db.request.status ≠ .approved) : Whole t := by
  intro h j hj
  rw [hphase] at hj
  by_cases hjk : j = k
  · subst hjk
    rw [Function.update_self] at hj
    exact hp hj h
  · rw [Function.update_of_ne hjk] at hj
    exact hs (hstatus h) j hj

theorem whole_of_begin (hs : Whole s) (h : s.begin k p = some s')
    (hp : p = .resetting → s.db.request.status ≠ .approved) : Whole s' := by
  unfold State.begin at h
  split at h
  · cases h
    split
    · exact hs
    · exact hs.update rfl (fun h => h) hp
  · cases h

theorem whole_approving (hi : Inv s) (hk : s.phase k = .approving guid) :
    Whole (s.close k (s.db.approve guid) .idle) := by
  have hlocked : (s.phase k).Locked := by rw [hk]; trivial
  intro _ j hj
  by_cases hjk : j = k
  · subst hjk
    rw [Sys.close_phase_self] at hj
    cases hj
  · rw [Sys.close_phase_of_ne hjk] at hj
    exact hi.not_locked hlocked hjk (by rw [hj]; trivial)

theorem undo_eq_resetting (h : undoReimbursementDecision db = .resetting) :
    db.request.status ≠ .approved := by
  intro hstatus
  cases hguid : db.request.voucherGuid <;>
    simp [undoReimbursementDecision, hstatus, hguid] at h

theorem approve_ne_resetting : approveReimbursement db ≠ .resetting := by
  unfold approveReimbursement
  split <;> decide

theorem reject_ne_resetting {reason : List Char} :
    rejectReimbursement db reason ≠ .resetting := by
  unfold rejectReimbursement
  split <;> decide

theorem whole_advance (hkeeps : KeepsVoucher (.advance k) s)
    (h : s.advance k = some s') (hi : Inv s) (hs : Whole s) : Whole s' := by
  unfold State.advance at h
  split at h
  · cases h
  · next hk =>
      cases h
      cases s.db.findOrphan with
      | none => exact hs.update rfl (fun h => h) nofun
      | some => exact hs.update rfl (fun h => h) nofun
  · next hk =>
      cases h
      split
      · exact hs.update rfl (fun h => h) nofun
      · exact hs.update rfl (fun h => h) nofun
  · next hk =>
      cases h
      exact hs.update rfl (fun h => h) nofun
  · next hk =>
      cases h
      exact whole_approving hi hk
  · next hk =>
      cases h
      refine hs.update rfl (fun h => ?_) nofun
      simp only [Sys.close_db, Db.reject] at h
      split at h
      · cases h
      · exact h
  · next guid hk =>
      have hdraft : s.db.isDraft guid = false := hkeeps guid (by rw [hk]; rfl)
      cases h
      rw [if_neg (by rw [hdraft]; decide)]
      exact hs.update rfl (fun h => h) nofun
  · next hk =>
      cases h
      exact hs.update rfl (fun h => (by cases h)) nofun
  · next guid hk =>
      cases h
      refine hs.update rfl (fun h => ?_) nofun
      simp only [Sys.close_db, Db.markReimbursementVoucherPosted] at h
      split at h
      · cases h
      · exact h

theorem whole_next (hkeeps : KeepsVoucher l s) (h : next l s = some s')
    (hi : Inv s) (hs : Whole s) : Whole s' := by
  cases l with
  | approve k => exact whole_of_begin hs h fun hp => absurd hp approve_ne_resetting
  | reject k reason => exact whole_of_begin hs h fun hp => absurd hp reject_ne_resetting
  | undo k => exact whole_of_begin hs h undo_eq_resetting
  | post k guid =>
    rw [next] at h
    split at h
    · cases h
      exact hs.update rfl (fun h => h) nofun
    · cases h
  | delete guid =>
    cases h
    exact hs
  | advance k => exact whole_advance hkeeps h hi hs
  | crash k =>
    cases h
    exact hs.update rfl (fun h => h) nofun

/-! ## Runs -/

/-- A request and its voucher agree along every run without the races; at each moment, where no undo
deletes a voucher. -/
theorem coupled_of_run (id : ℕ) (employeeGuid : Guid) {steps : List Step} {s : State}
    (hrun : run next steps (start id employeeGuid) = some s) :
    (Along next Unraced steps (start id employeeGuid) →
      Coupled s ∧ (Named s.db ∨ ∃ k, s.phase k = .resetting)) ∧
    (Along next (fun l s => Unraced l s ∧ KeepsVoucher l s) steps (start id employeeGuid) →
      Coupled s ∧ Named s.db) := by
  refine ⟨fun h => ?_, fun h => ?_⟩
  · have hs : Inv s := invariant_along (fun l s s' hl hnext => inv_next hl hnext) hrun h
      (inv_start id employeeGuid)
    refine ⟨hs.coupled, ?_⟩
    by_cases hreset : ∃ k, s.phase k = .resetting
    · exact .inr hreset
    · exact .inl fun hstatus => (hs.named hstatus).resolve_right hreset
  · have hs : Inv s ∧ Whole s :=
      invariant_along (P := fun s => Inv s ∧ Whole s)
        (fun l s s' hl hnext hs =>
          ⟨inv_next hl.1 hnext hs.1, whole_next hl.2 hnext hs.1 hs.2⟩)
        hrun h ⟨inv_start id employeeGuid, fun _ _ hk => (by cases hk)⟩
    exact ⟨hs.1.coupled, hs.1.named_of_whole hs.2⟩

instance (l : Step) (s : State) : Decidable (Unraced l s) := by
  cases l <;> unfold Unraced <;> infer_instance

instance (l : Step) (s : State) : Decidable (KeepsVoucher l s) := by
  cases l <;> unfold KeepsVoucher <;> infer_instance

/-- A request is rejected, reconsidered and approved; the approval crashes, and the next one takes
its voucher, which is then posted. -/
def reconsidered : List Step :=
  [.reject 0 "No receipt".toList, .advance 0, .undo 1, .advance 1, .approve 2, .advance 2,
    .advance 2, .crash 2, .approve 3, .advance 3, .advance 3, .advance 3, .post 4 0, .advance 4]

theorem coupled_reconsidered : ∃ s, run next reconsidered (start 7 3) = some s ∧
    Coupled s ∧ Named s.db := by
  have hsome : (run next reconsidered (start 7 3)).isSome := by decide +kernel
  obtain ⟨s, hs⟩ := Option.isSome_iff_exists.1 hsome
  have halong : Along next (fun l s => Unraced l s ∧ KeepsVoucher l s) reconsidered
      (start 7 3) := by
    decide +kernel
  exact ⟨s, hs, (coupled_of_run 7 3 hs).2 halong⟩

/-- An undo of an approval crashes after it deleted the voucher. -/
def crashedUndo : List Step :=
  [.approve 0, .advance 0, .advance 0, .advance 0, .undo 1, .advance 1, .crash 1]

theorem crashedUndo_not_coupled :
    ¬ ∀ (id : ℕ) (employeeGuid : Guid) (steps : List Step) (s : State),
      run next steps (start id employeeGuid) = some s → Coupled s ∧ Named s.db := by
  intro h
  have hend : (run next crashedUndo (start 7 3)).map
      (fun s => (s.db.request.status, s.db.vouchers)) = some (.approved, []) := by
    decide +kernel
  obtain ⟨s, hs, hdb⟩ := Option.map_eq_some_iff.1 hend
  obtain ⟨v, hv, -⟩ := (h 7 3 crashedUndo s hs).2 (congrArg Prod.fst hdb)
  rw [show s.db.vouchers = [] from congrArg Prod.snd hdb] at hv
  cases hv

end Reimbursements
