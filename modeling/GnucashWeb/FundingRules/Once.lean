import GnucashWeb.FundingRules.Sweeps

/-!
# A deposit is swept once

The stamp of a sweep is the only record that a rule was applied to a deposit.  `sweptOnce_of_run` is
the main result: while other requests leave the sweeps alone, or delete them, and write no stamps,
no rule has two sweeps for one deposit, every sweep balances and moves what its rule says, and no
sweep is taken as a deposit.
-/

namespace FundingRules

open Ledger (WholeCents mathRound)
open Sessions RowLocks Runs

variable {host : Host} {s s' : RunState} {k : ℕ} {db : Db} {q : Phase}

/-! ## What is promised -/

def Sweep.IsIn (a : Sweep) (db : Db) : Prop := ∃ t ∈ db.transactions, t.guid = a.guid

/-- What holds of the sweeps that are there. -/
structure SweptOnce (host : Host) (db : Db) : Prop where
  once : ∀ a ∈ db.sweeps, ∀ b ∈ db.sweeps, a.IsIn db → b.IsIn db → a.rule.id = b.rule.id →
    a.deposit.txGuid = b.deposit.txGuid → a = b
  balanced : ∀ a ∈ db.sweeps, ∀ t ∈ db.transactions, t.guid = a.guid → t.total = 0
  derived : ∀ a ∈ db.sweeps, ruleMatchesDeposit host a.rule a.deposit = true ∧
    ∀ t ∈ db.transactions, t.guid = a.guid → t.moved = allocationsTotal a.rule.allocations
  apart : ∀ a ∈ db.sweeps, ∀ b ∈ db.sweeps, a.deposit.txGuid ≠ b.guid

/-- A transaction with the number and the splits that it had. -/
def Transaction.SameSweep (t t' : Transaction) : Prop :=
  t'.guid = t.guid ∧ t'.num = t.num ∧ t'.splits = t.splits

instance (t t' : Transaction) : Decidable (t.SameSweep t') := inferInstanceAs (Decidable (_ ∧ _))

/-- An edit may delete a sweep, or change its dates and texts, but not its number or its splits, and
it writes no stamp. -/
def Respects (db db' : Db) : Prop :=
  db'.sweeps = db.sweeps ∧ (∀ g ∈ db.drawn, g ∈ db'.drawn) ∧
    (∀ t ∈ db'.transactions, t.guid ∈ db'.drawn) ∧
    ∀ t' ∈ db'.transactions, isStamp t'.num = true ∨ (∃ a ∈ db.sweeps, a.guid = t'.guid) →
      ∃ t ∈ db.transactions, t.SameSweep t'

instance (db db' : Db) : Decidable (Respects db db') := by
  unfold Respects
  infer_instance

def Respectful (l : Step) (s : RunState) : Prop :=
  match l with
  | .edit db => Respects s.db db
  | _ => True

instance (l : Step) (s : RunState) : Decidable (Respectful l s) := by
  unfold Respectful
  split
  · infer_instance
  · infer_instance

/-! ## What always holds -/

def Phase.depositAt? : Phase → Option DepositAt
  | .deduping p | .dating p | .guarding p | .validating p => some p
  | .locking p _ | .rechecking p _ | .writing p _ => some p
  | _ => none

def Phase.lockKey? : Phase → Option String
  | .rechecking p _ | .writing p _ => some p.lockKey
  | _ => none

/-- The stamp that a run has found missing under its lock. -/
def Phase.unstamped? : Phase → Option String
  | .writing p _ => some p.dedupeKey
  | _ => none

/-- A transaction that is there or was, and is no sweep. -/
def Known (db : Db) (d : DepositCandidate) : Prop :=
  d.txGuid ∈ db.drawn ∧ ∀ a ∈ db.sweeps, a.guid ≠ d.txGuid

structure Tables (host : Host) (db : Db) : Prop where
  guids : ∀ t ∈ db.transactions, t.guid ∈ db.drawn
  drawn : ∀ a ∈ db.sweeps, a.guid ∈ db.drawn
  kept : ∀ a ∈ db.sweeps, ∀ t ∈ db.transactions, t.guid = a.guid →
    a.sweepTransaction.SameSweep t
  once : ∀ a ∈ db.sweeps, ∀ b ∈ db.sweeps, a.IsIn db → b.IsIn db → a.rule.id = b.rule.id →
    a.deposit.txGuid = b.deposit.txGuid → a = b
  known : ∀ a ∈ db.sweeps, Known db a.deposit
  matched : ∀ a ∈ db.sweeps, ruleMatchesDeposit host a.rule a.deposit = true

structure PhaseOk (host : Host) (db : Db) (holder : ℤ → Option ℕ) (k : ℕ) (q : Phase) : Prop where
  known : ∀ p ∈ q.depositAt?, ∀ d ∈ p.deposit :: p.deposits, Known db d
  matched : ∀ p ∈ q.depositAt?, ruleMatchesDeposit host p.rule p.deposit = true
  held : ∀ key ∈ q.lockKey?, holder (host.hashtext key) = some k
  unstamped : ∀ num ∈ q.unstamped?, ∀ t ∈ db.transactions, t.num ≠ num

structure Inv (host : Host) (s : RunState) : Prop where
  tables : Tables host s.db
  sound : Sound (PhaseOk host) s

variable {t : Transaction} {holder : ℤ → Option ℕ} {d : DepositCandidate} {a : Sweep} {db' : Db}
  {p : DepositAt} {guid : String}

theorem Transaction.SameSweep.trans {u v : Transaction} (h : t.SameSweep u)
    (h' : u.SameSweep v) : t.SameSweep v :=
  ⟨h'.1.trans h.1, h'.2.1.trans h.2.1, h'.2.2.trans h.2.2⟩

theorem Transaction.SameSweep.total_eq {t' : Transaction} (h : t.SameSweep t') :
    t'.total = t.total := by
  rw [Transaction.total, h.2.2]
  rfl

theorem Transaction.SameSweep.moved_eq {t' : Transaction} (h : t.SameSweep t') :
    t'.moved = t.moved := by
  rw [Transaction.moved, h.2.2]
  rfl

theorem Tables.sweptOnce (h : Tables host db) : SweptOnce host db where
  once := h.once
  balanced := fun a ha t ht hguid => by
    rw [(h.kept a ha t ht hguid).total_eq]
    exact a.balanced_sweepTransaction
  derived := fun a ha => ⟨h.matched a ha, fun t ht hguid => by
    rw [(h.kept a ha t ht hguid).moved_eq]
    exact a.moved_sweepTransaction⟩
  apart := fun a ha b hb heq => (h.known a ha).2 b hb heq.symm

/-! ## Phases without a lock -/

structure Phase.Loose (host : Host) (db : Db) (q : Phase) : Prop where
  known : ∀ p ∈ q.depositAt?, ∀ d ∈ p.deposit :: p.deposits, Known db d
  matched : ∀ p ∈ q.depositAt?, ruleMatchesDeposit host p.rule p.deposit = true
  lockKey : q.lockKey? = none
  unstamped : q.unstamped? = none

theorem Phase.Loose.phaseOk (h : q.Loose host db) :
    PhaseOk host db holder k q :=
  ⟨h.known, h.matched, by simp [h.lockKey], by simp [h.unstamped]⟩

theorem Phase.loose_of_depositAt (hdeposit : q.depositAt? = none) (hkey : q.lockKey? = none)
    (hnum : q.unstamped? = none) : q.Loose host db :=
  ⟨by simp [hdeposit], by simp [hdeposit], hkey, hnum⟩

theorem loose_nextRule {options : RunOptions} {rules : List FundingRule} :
    (nextRule options rules).Loose host db := by
  induction rules with
  | nil => exact Phase.loose_of_depositAt rfl rfl rfl
  | cons rule rest ih =>
    unfold nextRule
    split
    · exact ih
    · exact Phase.loose_of_depositAt rfl rfl rfl

theorem loose_nextDeposit {r : RuleAt} {deposits : List DepositCandidate}
    (h : ∀ d ∈ deposits, Known db d) : (nextDeposit host r deposits).Loose host db := by
  induction deposits with
  | nil => exact loose_nextRule
  | cons deposit deposits ih =>
    unfold nextDeposit
    split
    · next hmatch =>
        refine ⟨?_, ?_, rfl, rfl⟩
        · rintro p ⟨⟩
          exact h
        · rintro p ⟨⟩
          exact hmatch
    · exact ih fun d hd => h d (List.mem_cons_of_mem _ hd)

/-! ## Steps that write nothing -/

theorem PhaseOk.mono {holder' : ℤ → Option ℕ} (h : PhaseOk host db holder k q)
    (hheld : ∀ row, holder row = some k → holder' row = some k) : PhaseOk host db holder' k q :=
  ⟨h.known, h.matched, fun key hkey => hheld _ (h.held key hkey), h.unstamped⟩

theorem Inv.goto (h : Inv host s) (hq : PhaseOk host s.db s.holder k q) : Inv host (s.goto k q) :=
  ⟨h.tables, h.sound.goto hq⟩

theorem Inv.leave (h : Inv host s) (hq : q.Loose host s.db) : Inv host (s.close k s.db q) :=
  ⟨h.tables, h.sound.close hq.phaseOk fun _ hjk hj => hj.mono fun _ hrow =>
    release_of_held hrow hjk⟩

theorem Inv.take (h : Inv host s) {row : ℤ} (hfree : s.CanTake row k) :
    Inv host (s.take row k) :=
  ⟨h.tables, h.sound.take fun _ hj => hj.mono fun _ hrow => acquire_of_held hfree hrow⟩

theorem Inv.throwNext (h : Inv host s) {r : RuleAt} : Inv host (throwNext k r s) :=
  h.leave loose_nextRule

theorem Tables.known_of_mem (h : Tables host db) {trigger : String} {cutoff : ℤ}
    (hd : d ∈ loadRecentDeposits trigger cutoff db) : Known db d := by
  rw [loadRecentDeposits, List.mem_insertionSort, List.mem_filterMap] at hd
  obtain ⟨t, ht, hdeposit⟩ := hd
  simp only [asDeposit, Option.bind_eq_some_iff, Option.ite_none_right_eq_some,
    Option.some.injEq] at hdeposit
  obtain ⟨postDate, -, ⟨-, hstamp, -⟩, rfl⟩ := hdeposit
  refine ⟨h.guids t ht, fun a ha hguid => ?_⟩
  have hnum : t.num = a.dedupeKey := (h.kept a ha t ht hguid.symm).2.1
  rw [hnum, Sweep.dedupeKey, isStamp_fundingDedupeKey] at hstamp
  cases hstamp

/-! ## A sweep -/

theorem writeSweep_eq_some (h : writeSweep a db = some db') :
    a.guid ∉ db.drawn ∧ db'.transactions = a.sweepTransaction :: db.transactions ∧
      db'.sweeps = a :: db.sweeps ∧ db'.drawn = a.guid :: db.drawn := by
  unfold writeSweep at h
  split_ifs at h with hnew
  cases h
  exact ⟨hnew.1, rfl, rfl, rfl⟩

theorem Known.writeSweep (h : Known db d)
    (hwrite : FundingRules.writeSweep a db = some db') : Known db' d := by
  obtain ⟨hnew, -, hsweeps, hdrawn⟩ := writeSweep_eq_some hwrite
  refine ⟨hdrawn ▸ List.mem_cons_of_mem _ h.1, ?_⟩
  rw [hsweeps]
  refine List.forall_mem_cons.2 ⟨fun hguid => hnew (hguid ▸ h.1), h.2⟩

theorem Tables.writeSweep (h : Tables host db) (hwrite : FundingRules.writeSweep a db = some db')
    (hmatch : ruleMatchesDeposit host a.rule a.deposit = true) (hknown : Known db a.deposit)
    (hnum : ∀ t ∈ db.transactions, t.num ≠ a.dedupeKey) : Tables host db' := by
  obtain ⟨hnew, htransactions, hsweeps, hdrawn⟩ := writeSweep_eq_some hwrite
  -- The sweeps before this one and their transactions have other guids.
  have hold {b : Sweep} (hb : b ∈ db.sweeps) : b.guid ≠ a.guid :=
    fun heq => hnew (heq ▸ h.drawn b hb)
  have hisIn {b : Sweep} (hb : b ∈ db.sweeps) (hin : b.IsIn db') : b.IsIn db := by
    obtain ⟨t, ht, hguid⟩ := hin
    rw [htransactions] at ht
    rcases List.mem_cons.1 ht with rfl | ht
    · exact absurd hguid.symm (hold hb)
    · exact ⟨t, ht, hguid⟩
  have hother {b : Sweep} (hb : b ∈ db.sweeps) (hin : b.IsIn db') (hid : b.rule.id = a.rule.id)
      (hdeposit : b.deposit.txGuid = a.deposit.txGuid) : False := by
    obtain ⟨t, ht, hguid⟩ := hisIn hb hin
    refine hnum t ht ?_
    rw [(h.kept b hb t ht hguid).2.1]
    change fundingDedupeKey b.rule.id b.deposit.txGuid = _
    rw [hid, hdeposit]
    rfl
  refine ⟨?_, ?_, ?_, ?_, ?_, ?_⟩
  · rw [htransactions, hdrawn]
    exact List.forall_mem_cons.2
      ⟨List.mem_cons_self, fun t ht => List.mem_cons_of_mem _ (h.guids t ht)⟩
  · rw [hsweeps, hdrawn]
    exact List.forall_mem_cons.2
      ⟨List.mem_cons_self, fun b hb => List.mem_cons_of_mem _ (h.drawn b hb)⟩
  · rw [hsweeps, htransactions]
    refine List.forall_mem_cons.2 ⟨List.forall_mem_cons.2 ⟨fun _ => ⟨rfl, rfl, rfl⟩, fun t ht hguid => ?_⟩,
      fun b hb => List.forall_mem_cons.2 ⟨fun hguid => absurd hguid.symm (hold hb), h.kept b hb⟩⟩
    exact absurd (hguid ▸ h.guids t ht) hnew
  · rw [hsweeps]
    refine List.forall_mem_cons.2 ⟨List.forall_mem_cons.2 ⟨fun _ _ _ _ => rfl, ?_⟩,
      fun b hb => List.forall_mem_cons.2 ⟨?_, ?_⟩⟩
    · exact fun b hb _ hin hid hdeposit => (hother hb hin hid.symm hdeposit.symm).elim
    · exact fun hin _ hid hdeposit => (hother hb hin hid hdeposit).elim
    · exact fun c hc hbin hcin => h.once b hb c hc (hisIn hb hbin) (hisIn hc hcin)
  · rw [hsweeps]
    exact List.forall_mem_cons.2
      ⟨hknown.writeSweep hwrite, fun b hb => (h.known b hb).writeSweep hwrite⟩
  · rw [hsweeps]
    exact List.forall_mem_cons.2 ⟨hmatch, h.matched⟩

/-- A sweep does not disturb the other runs: who misses the same stamp holds the same lock. -/
theorem PhaseOk.writeSweep {j : ℕ} {q' : Phase}
    {currencyGuid : String} (hjk : j ≠ k) (hj : PhaseOk host db holder j q')
    (hk : PhaseOk host db holder k (.writing p currencyGuid))
    (hwrite : FundingRules.writeSweep (p.sweep currencyGuid guid) db = some db') :
    PhaseOk host db' (release holder k) j q' := by
  obtain ⟨-, htransactions, -, -⟩ := writeSweep_eq_some hwrite
  refine ⟨fun r hr d hd => (hj.known r hr d hd).writeSweep hwrite, hj.matched,
    fun key hkey => release_of_held (hj.held key hkey) hjk, fun num hnum => ?_⟩
  rw [htransactions]
  refine List.forall_mem_cons.2 ⟨fun heq => ?_, hj.unstamped num hnum⟩
  cases q' with
  | writing r c =>
    cases hnum
    have hkey : p.lockKey = r.lockKey := lockKey_eq_of_dedupeKey_eq heq
    have hjheld := hj.held r.lockKey rfl
    rw [← hkey, hk.held p.lockKey rfl] at hjheld
    exact hjk (Option.some.inj hjheld).symm
  | _ => cases hnum

theorem Inv.writeSweep (h : Inv host s) {currencyGuid : String}
    (hphase : s.phase k = .writing p currencyGuid)
    (hwrite : FundingRules.writeSweep (p.sweep currencyGuid guid) s.db = some db') :
    Inv host (s.close k db' (nextDeposit host p.toRuleAt p.deposits)) := by
  have hk := h.sound k
  rw [hphase] at hk
  refine ⟨h.tables.writeSweep hwrite (hk.matched p rfl)
    (hk.known p rfl p.deposit List.mem_cons_self) (hk.unstamped _ rfl), h.sound.close ?_ ?_⟩
  · refine (loose_nextDeposit fun d hd => ?_).phaseOk
    exact (hk.known p rfl d (List.mem_cons_of_mem _ hd)).writeSweep hwrite
  · exact fun j hjk hj => hj.writeSweep hjk hk hwrite

theorem Known.edit (h : Known db d) (hedit : Respects db db') :
    Known db' d :=
  ⟨hedit.2.1 _ h.1, hedit.1 ▸ h.2⟩

theorem Inv.edit (h : Inv host s) (hedit : Respects s.db db) : Inv host { s with db := db } := by
  obtain ⟨hsweeps, hdrawn, hguids, hkept⟩ := hedit
  have hisIn {b : Sweep} (hb : b ∈ s.db.sweeps) (hin : b.IsIn db) : b.IsIn s.db := by
    obtain ⟨t', ht', hguid⟩ := hin
    obtain ⟨t, ht, hsame⟩ := hkept t' ht' (.inr ⟨b, hb, hguid.symm⟩)
    exact ⟨t, ht, hsame.1.symm.trans hguid⟩
  refine ⟨⟨hguids, ?_, ?_, ?_, ?_, hsweeps ▸ h.tables.matched⟩, fun j => ?_⟩
  · exact hsweeps ▸ fun a ha => hdrawn _ (h.tables.drawn a ha)
  · rw [hsweeps]
    intro a ha t' ht' hguid
    obtain ⟨t, ht, hsame⟩ := hkept t' ht' (.inr ⟨a, ha, hguid.symm⟩)
    exact (h.tables.kept a ha t ht (hsame.1.symm.trans hguid)).trans hsame
  · rw [hsweeps]
    exact fun a ha b hb hain hbin => h.tables.once a ha b hb (hisIn ha hain) (hisIn hb hbin)
  · rw [hsweeps]
    exact fun a ha => (h.tables.known a ha).edit ⟨hsweeps, hdrawn, hguids, hkept⟩
  · have hj := h.sound j
    refine ⟨fun p hp d hd => (hj.known p hp d hd).edit ⟨hsweeps, hdrawn, hguids, hkept⟩,
      hj.matched, hj.held, fun num hnum t ht heq => ?_⟩
    cases hphase : s.phase j with
    | writing p c =>
      rw [hphase] at hj
      rw [hphase] at hnum
      cases hnum
      have hstamp : isStamp t.num = true := by
        rw [heq, DepositAt.dedupeKey, isStamp_fundingDedupeKey]
      obtain ⟨u, hu, hsame⟩ := hkept t ht (.inl hstamp)
      exact hj.unstamped _ rfl u hu (hsame.2.1.symm.trans heq)
    | _ =>
      rw [hphase] at hnum
      cases hnum

/-! ## A step -/

theorem PhaseOk.loose (h : PhaseOk host db holder k q) (q' : Phase)
    (hdeposit : q'.depositAt? = q.depositAt?) (hkey : q'.lockKey? = none)
    (hnum : q'.unstamped? = none) : q'.Loose host db :=
  ⟨hdeposit ▸ h.known, hdeposit ▸ h.matched, hkey, hnum⟩

theorem PhaseOk.skip (h : PhaseOk host db holder k q) (hdeposit : q.depositAt? = some p) :
    (nextDeposit host p.toRuleAt p.deposits).Loose host db :=
  loose_nextDeposit fun d hd => h.known p hdeposit d (List.mem_cons_of_mem _ hd)

theorem notMem_of_hasNum {num : String} (h : ¬ db.hasNum num = true) :
    ∀ t ∈ db.transactions, t.num ≠ num := by
  simpa [Db.hasNum] using h

theorem inv_advance (h : advanceNext host k guid s = some s') (hs : Inv host s) :
    Inv host s' := by
  have hk := hs.sound k
  cases hphase : s.phase k with
  | idle => simp [advanceNext, hphase] at h
  | scanning options =>
    simp only [advanceNext, hphase, Option.some.injEq] at h
    exact h ▸ hs.goto loose_nextRule.phaseOk
  | checking r =>
    simp only [advanceNext, hphase, Option.some.injEq] at h
    subst h
    split
    · exact hs.goto (Phase.loose_of_depositAt rfl rfl rfl).phaseOk
    · exact hs.throwNext
  | listing r =>
    simp only [advanceNext, hphase, Option.some.injEq] at h
    exact h ▸ hs.goto (loose_nextDeposit fun d hd => hs.tables.known_of_mem hd).phaseOk
  | deduping p =>
    simp only [advanceNext, hphase, Option.some.injEq] at h
    rw [hphase] at hk
    subst h
    split
    · exact hs.goto (hk.skip rfl).phaseOk
    · exact hs.goto (hk.loose (.dating p) rfl rfl rfl).phaseOk
  | dating p =>
    simp only [advanceNext, hphase, Option.some.injEq] at h
    rw [hphase] at hk
    subst h
    split
    · exact hs.goto (hk.skip rfl).phaseOk
    · exact hs.goto (hk.loose (.guarding p) rfl rfl rfl).phaseOk
  | guarding p =>
    simp only [advanceNext, hphase, Option.some.injEq] at h
    rw [hphase] at hk
    subst h
    split
    · exact hs.goto (hk.loose (.validating p) rfl rfl rfl).phaseOk
    · exact hs.throwNext
  | validating p =>
    simp only [advanceNext, hphase, Option.some.injEq] at h
    rw [hphase] at hk
    subst h
    split
    · next currencyGuid _ =>
        exact hs.goto (hk.loose (.locking p currencyGuid) rfl rfl rfl).phaseOk
    · exact hs.throwNext
  | locking p currencyGuid =>
    simp only [advanceNext, hphase] at h
    rw [hphase] at hk
    split_ifs at h with hfree
    cases h
    refine (hs.take hfree).goto ⟨hk.known, hk.matched, ?_, nofun⟩
    rintro key ⟨⟩
    exact Sys.take_holder_self
  | rechecking p currencyGuid =>
    simp only [advanceNext, hphase, Option.some.injEq] at h
    rw [hphase] at hk
    subst h
    split
    · exact hs.leave (hk.skip rfl)
    · next hnum =>
        refine hs.goto ⟨hk.known, hk.matched, hk.held, ?_⟩
        rintro num ⟨⟩
        exact notMem_of_hasNum hnum
  | writing p currencyGuid =>
    simp only [advanceNext, hphase, Option.some.injEq] at h
    subst h
    split
    · next db hwrite => exact hs.writeSweep hphase hwrite
    · exact hs.throwNext

theorem inv_next {l : Step} (hl : Respectful l s) (h : next host l s = some s')
    (hs : Inv host s) : Inv host s' := by
  cases l with
  | call k options =>
    simp only [next] at h
    split at h
    · cases h
      exact hs.goto (Phase.loose_of_depositAt rfl rfl rfl).phaseOk
    · cases h
  | advance k guid => exact inv_advance h hs
  | fail k =>
    cases h
    unfold failNext
    split
    · exact hs.throwNext
    · exact hs.leave (Phase.loose_of_depositAt rfl rfl rfl)
  | crash k =>
    cases h
    exact hs.leave (Phase.loose_of_depositAt rfl rfl rfl)
  | edit db =>
    cases h
    exact hs.edit hl

theorem inv_start (hguids : ∀ t ∈ db.transactions, t.guid ∈ db.drawn) (hsweeps : db.sweeps = []) :
    Inv host (start db) where
  tables := by
    refine ⟨hguids, ?_, ?_, ?_, ?_, ?_⟩
    all_goals simp [start, hsweeps]
  sound := fun _ => (Phase.loose_of_depositAt rfl rfl rfl).phaseOk

/-- In every state that runs reach beside respectful edits, deposits are swept once. -/
theorem sweptOnce_of_run (host : Host) {db : Db}
    (hguids : ∀ t ∈ db.transactions, t.guid ∈ db.drawn) (hsweeps : db.sweeps = [])
    {steps : List Step} {s : RunState} (hrun : run (next host) steps (start db) = some s)
    (hsteps : Along (next host) Respectful steps (start db)) : SweptOnce host s.db := by
  have hs : Inv host s := invariant_along (fun _ _ _ hl hnext hs => inv_next hl hnext hs) hrun
    hsteps (inv_start hguids hsweeps)
  exact hs.tables.sweptOnce

/-! ## Examples -/

def asciiHost : Host where
  hashtext := fun key => key.length
  toLowerCase := fun text => String.ofList (text.toList.map Char.toLower)

def paycheck : FundingRule :=
  ⟨1, "book", "Paycheck", some "bank", some "payroll", none,
    [⟨"savings", 100, by norm_num, by norm_num [WholeCents, mathRound]⟩], true, none⟩

def holiday : FundingRule :=
  ⟨2, "book", "Holiday", some "savings", none, none,
    [⟨"holiday", 25, by norm_num, by norm_num [WholeCents, mathRound]⟩], true, none⟩

def deposited : Transaction :=
  ⟨"d", "EUR", "", some 0, some "ACME Payroll",
    [⟨"bank", "", ⟨100000, 100⟩, ⟨100000, 100⟩⟩, ⟨"salary", "", ⟨-100000, 100⟩, ⟨-100000, 100⟩⟩]⟩

/-- A payday with a rule for the paycheck, and another that watches the account it fills. -/
def payday : Db where
  accounts := ["bank", "salary", "savings", "holiday"].map fun guid =>
    ⟨guid, "book", some "EUR", true⟩
  transactions := [deposited]
  rules := [paycheck, holiday]
  lockDates := []
  sweeps := []
  drawn := ["d"]

def allBooks : RunOptions := ⟨none, 0⟩

def booked : Db :=
  { payday with
    transactions := [⟨"x", "EUR", "", some 0, none, []⟩, deposited]
    drawn := ["x", "d"] }

/-- Two runs that both miss the stamp before one of them takes the lock, and an edit between. -/
def overlapping : List Step :=
  [Step.call 0 allBooks, .call 1 allBooks] ++ List.replicate 7 (Step.advance 0 "s") ++
    [Step.edit booked] ++ List.replicate 7 (Step.advance 1 "t") ++
    List.replicate 3 (Step.advance 0 "s") ++ List.replicate 2 (Step.advance 1 "t")

theorem sweptOnce_overlapping : ∃ s, run (next asciiHost) overlapping (start payday) = some s ∧
    (s.db.sweeps.map fun a => a.guid) = ["s"] ∧ SweptOnce asciiHost s.db := by
  obtain ⟨s, hs, hsweeps⟩ : ∃ s ∈ run (next asciiHost) overlapping (start payday),
      (s.db.sweeps.map fun a => a.guid) = ["s"] := by decide +kernel
  exact ⟨s, hs, hsweeps, sweptOnce_of_run asciiHost (by decide) rfl hs (by decide +kernel)⟩

def firstRun : List Step := .call 0 allBooks :: List.replicate 12 (.advance 0 "s")

/-- The tables after a run, with the numbers of all transactions taken away. -/
def renumbered : Db :=
  let db := ((run (next asciiHost) firstRun (start payday)).map fun s => s.db).getD payday
  { db with transactions := db.transactions.map fun t => { t with num := "" } }

/-- A run after the edit that takes the stamp away. -/
def rerun : List Step :=
  firstRun ++ Step.edit renumbered :: .call 0 allBooks :: List.replicate 10 (Step.advance 0 "t") ++
    List.replicate 9 (Step.advance 0 "u")

/-- Without its stamp a sweep is no record: its deposit is swept again, and it is taken as a deposit
itself. -/
theorem rerun_sweeps_again : ∃ s, run (next asciiHost) rerun (start payday) = some s ∧
    ¬ SweptOnce asciiHost s.db ∧
      ∃ a ∈ s.db.sweeps, ∃ b ∈ s.db.sweeps, a.deposit.txGuid = b.guid := by
  obtain ⟨s, hs, htwice, htaken⟩ : ∃ s ∈ run (next asciiHost) rerun (start payday),
      (∃ a ∈ s.db.sweeps, ∃ b ∈ s.db.sweeps, (∃ t ∈ s.db.transactions, t.guid = a.guid) ∧
        (∃ t ∈ s.db.transactions, t.guid = b.guid) ∧ a.rule.id = b.rule.id ∧
        a.deposit.txGuid = b.deposit.txGuid ∧ a.guid ≠ b.guid) ∧
      ∃ a ∈ s.db.sweeps, ∃ b ∈ s.db.sweeps, a.deposit.txGuid = b.guid := by decide +kernel
  obtain ⟨a, ha, b, hb, hain, hbin, hid, hdeposit, hne⟩ := htwice
  exact ⟨s, hs, fun h => hne (h.once a ha b hb hain hbin hid hdeposit ▸ rfl), htaken⟩

end FundingRules
