import GnucashWeb.Payslips.Post

/-!
# What postings commit

What the database transactions of a posting may rely on while others run beside them (`Rely`), and
what each of them does to the tables when it commits (`CommitSpec`, `good_serve`).
-/

namespace Payslips

open Ledger (Split)
open Edits (Transaction)
open Rows Statements RowLocks Runs Txn

variable {w : World} {db db' db'' : Db} {L L' : Set Key} {p : Posting w} {g : String}

/-! ## What postings may rely on -/

/-- Payslips and transactions stay, and so does a payslip whose row is locked. -/
structure Rely (L : Set Key) (db db' : Db) : Prop where
  ids : db'.payslips.map PayslipRow.id = db.payslips.map PayslipRow.id
  row : ∀ id, .payslip id ∈ L → db'.payslip? id = db.payslip? id
  there : ∀ g, (∃ t ∈ db.transactions, t.guid = g) → ∃ t ∈ db'.transactions, t.guid = g

theorem Rely.refl : Rely L db db := ⟨rfl, fun _ _ => rfl, fun _ h => h⟩

theorem Rely.trans (h : Rely L db db') (h' : Rely L db' db'') : Rely L db db'' where
  ids := h'.ids.trans h.ids
  row id hid := (h'.row id hid).trans (h.row id hid)
  there g hg := h'.there g (h.there g hg)

theorem Rely.mono (h : Rely L' db db') (hL : L ⊆ L') : Rely L db db' where
  ids := h.ids
  row id hid := h.row id (hL hid)
  there := h.there

instance (L : Set Key) : Std.Refl (Rely L) := ⟨fun _ => .refl⟩

theorem isTrans_rely (L : Set Key) : IsTrans Db (Rely L) := ⟨fun _ _ _ h h' => h.trans h'⟩

variable {id : ℕ} {x y : Db}

theorem isSome_payslip? : (db.payslip? id).isSome ↔ id ∈ db.payslips.map PayslipRow.id := by
  simp [Db.payslip?, List.find?_isSome]

theorem Rely.isSome (h : Rely L db db') :
    (db'.payslip? id).isSome ↔ (db.payslip? id).isSome := by
  rw [isSome_payslip?, isSome_payslip?, h.ids]

structure Posts (p : Posting w) (g : String) (db db' : Db) : Prop where
  there : (db.payslip? p.id).isSome
  payslips : ∃ now, db'.payslips = editAt PayslipRow.id p.id
    (fun r => { r with
      status := .posted
      transactionGuid := some g
      depositAccountGuid := some p.call.depositAccountGuid
      updatedAt := some now }) db.payslips
  undone : db'.undone = db.undone

def LedgerSpec (p : Posting w) (o : Outcome) (db db' : Db) : Prop :=
  match o with
  | .linked _ => db'.toDb = db.toDb ∧ db'.written = db.written
  | .replaced g => (∃ t ∈ db.transactions, t.guid = g) ∧
    db'.transactions.map Transaction.guid = db.transactions.map Transaction.guid ∧
      db'.splits = (db.splits.filter fun s => s.txGuid ≠ g) ++ p.rows g ∧
        db'.written = (p.id, g) :: db.written
  | .created g => (∀ t ∈ db.transactions, t.guid ≠ g) ∧
    db'.transactions.map Transaction.guid = db.transactions.map Transaction.guid ++ [g] ∧
      db'.splits = db.splits ++ p.rows g ∧ db'.written = (p.id, g) :: db.written

def CommitSpec (w : World) (L : Set Key) (r : Receipt w) (db db' : Db) : Prop :=
  match r with
  | .claimed id _ _ => .payslip id ∈ L ∧ (∃ r ∈ db.payslip? id, r.status ≠ .posted) ∧
    ∃ now, db' = takeClaim id now db
  | .posted p _ o => .payslip p.id ∈ L ∧ Posts p o.txGuid db db' ∧ LedgerSpec p o db db'
  | .released id claim => ((db.payslip? id).isSome → .payslip id ∈ L) ∧
    ∃ priorStatus now, db' = putBack id priorStatus claim now db
  | .ticked => ∃ now, db' = { db with now := now }

/-! ## The writes -/

structure SameBooks (x y : Db) : Prop where
  toDb : y.toDb = x.toDb
  payslips : y.payslips = x.payslips
  written : y.written = x.written
  undone : y.undone = x.undone

theorem sameBooks_updateMeta (h : updateMeta g x = some y) : SameBooks x y := by
  unfold updateMeta at h
  split_ifs at h
  cases h
  exact ⟨rfl, rfl, rfl, rfl⟩

theorem sameBooks_createMeta {m : Meta} (h : createMeta m x = some y) : SameBooks x y := by
  unfold createMeta at h
  split_ifs at h
  cases h
  exact ⟨rfl, rfl, rfl, rfl⟩

theorem linkPayslip_eq_some {now : ℤ} (h : linkPayslip p g now x = some y) :
    y.toDb = x.toDb ∧ y.written = x.written ∧ Posts p g x y := by
  unfold linkPayslip at h
  split_ifs at h with hthere
  cases h
  exact ⟨rfl, rfl, hthere, ⟨now, rfl⟩, rfl⟩

theorem insertSplits_eq_some {rows : List Split} (h : insertSplits rows x = some y) :
    y.transactions = x.transactions ∧ y.splits = x.splits ++ rows ∧ y.payslips = x.payslips ∧
      y.written = x.written ∧ y.undone = x.undone := by
  induction rows generalizing x with
  | nil =>
    cases h
    simp
  | cons s rest ih =>
    obtain ⟨z, hz, hrest⟩ := Option.bind_eq_some_iff.1 h
    obtain ⟨ledger, hledger, rfl⟩ := Option.map_eq_some_iff.1 hz
    unfold Edits.insertSplit at hledger
    split_ifs at hledger
    cases hledger
    obtain ⟨htxns, hsplits, hpayslips, hwritten, hundone⟩ := ih hrest
    exact ⟨htxns, by rw [hsplits, List.append_assoc]; rfl, hpayslips, hwritten, hundone⟩

theorem insertTransaction_eq_some {t : Transaction} (h : insertTransaction t x = some y) :
    (∀ u ∈ x.transactions, u.guid ≠ t.guid) ∧ y.transactions = x.transactions ++ [t] ∧
      y.splits = x.splits ∧ y.payslips = x.payslips ∧ y.written = x.written ∧
        y.undone = x.undone := by
  obtain ⟨ledger, hledger, rfl⟩ := Option.map_eq_some_iff.1 h
  unfold Edits.insertTransaction at hledger
  split_ifs at hledger with hfresh
  cases hledger
  refine ⟨fun u hu => ?_, rfl, rfl, rfl, rfl, rfl⟩
  have hnone := List.find?_eq_none.1 (Option.isNone_iff_eq_none.1 hfresh) u hu
  simpa using hnone

theorem map_guid_clearTransaction {description : String} (g : String) (x : Db) :
    (clearTransaction g description x).transactions.map Transaction.guid =
      x.transactions.map Transaction.guid := by
  refine map_editAt (g := Transaction.guid) ?_ x.transactions
  exact fun _ => rfl

/-! ## The programs -/

section Programs

variable {Q : Unit → Set Key → (Db → Option Db) → Db → Prop} {v : Db → Option Db}

theorem wp_claimPayslipForPosting :
    (claimPayslipForPosting id : Tx (Receipt w)).wp Rely present (Commits Rely (CommitSpec w)) ∅ some
      db := by
  simp only [claimPayslipForPosting, wp_bind, wp_select, wp_lock, wp_expect, wp_write, wp_pure]
  rintro db₁ h₁ _ - db₂ h₂ db₃ h₃ _ ⟨⟩ claimed hclaimed db₄ h₄ v₄ - db₅ h₅ _ ⟨⟩
  obtain ⟨row, hread, hclaimed⟩ := Option.bind_eq_some_iff.1 hclaimed
  have hclaimable : row.status ≠ .posted := by
    unfold PayslipRow.claimable? at hclaimed
    split_ifs at hclaimed with hclaimable
    exact hclaimable.1
  have hpresent : present db₂ (.payslip id) = true := h₃.isSome.1 (by rw [hread]; rfl)
  rw [if_pos hpresent] at h₃ h₄ h₅ ⊢
  have hmem : Key.payslip id ∈ insert (Key.payslip id) (∅ : Set Key) := Set.mem_insert _ ∅
  refine ⟨hmem, ⟨row, ?_, hclaimable⟩, v₄.now, rfl⟩
  rw [h₅.row id hmem, h₄.row id hmem]
  exact hread

theorem wp_releasePayslipClaim {claim : ℕ} {priorStatus : PriorStatus} :
    (releasePayslipClaim id priorStatus claim : Tx (Receipt w)).wp Rely present
      (Commits Rely (CommitSpec w)) ∅ some db := by
  simp only [releasePayslipClaim, wp_bind, wp_select, wp_lock, wp_write, wp_pure]
  rintro db₁ h₁ v₁ - db₂ h₂ db₃ h₃ _ ⟨⟩
  refine ⟨fun hsome => ?_, priorStatus, v₁.now, rfl⟩
  have hpresent : present db₂ (.payslip id) = true := h₃.isSome.1 hsome
  rw [if_pos hpresent]
  exact Set.mem_insert _ ∅

theorem wp_firstMatch {expected : List PayslipSplit} {guids : List String}
    {Q : Option String → Set Key → (Db → Option Db) → Db → Prop}
    (h : ∀ o db', Rely L db db' → Q o L some db') :
    (firstMatch expected guids).wp Rely present Q L some db := by
  induction guids generalizing db with
  | nil => exact h none db .refl
  | cons guid rest ih =>
    rw [firstMatch, wp_bind, wp_select]
    rintro db₁ h₁ actual -
    split
    · exact h _ db₁ h₁
    · exact ih fun o db' h' => h o db' (h₁.trans h')

theorem wp_findMatchingTransaction {Q : Option String → Set Key → (Db → Option Db) → Db → Prop}
    (h : ∀ o db', Rely L db db' → Q o L some db') :
    (findMatchingTransaction p).wp Rely present Q L some db := by
  rw [findMatchingTransaction, wp_bind, wp_select]
  rintro db₁ h₁ candidates -
  exact wp_firstMatch fun o db' h' => h o db' (h₁.trans h')

theorem wp_findSimpleFinDeposit {Q : Option String → Set Key → (Db → Option Db) → Db → Prop}
    (h : ∀ o db', Rely L db db' → (∀ g ∈ o, ∃ t ∈ db'.transactions, t.guid = g) →
      Q o L some db') : (findSimpleFinDeposit p).wp Rely present Q L some db := by
  simp only [findSimpleFinDeposit, wp_bind, wp_select, wp_check, wp_pure]
  rintro db₁ h₁ _ ⟨⟩ _ -
  refine h _ db₁ h₁ fun g hg => ?_
  obtain ⟨t, ht, rfl⟩ := Option.map_eq_some_iff.1 hg
  have hmem : t ∈ simpleFinDeposits p db₁ := List.mem_of_mem_head? ht
  exact ⟨t, (List.mem_filter.1 ((List.mem_insertionSort _).1 hmem)).1, rfl⟩

theorem wp_postPayslip
    (h : ∀ L' now db', L ⊆ L' → Rely L db db' →
      ((db'.payslip? p.id).isSome → .payslip p.id ∈ L') →
        Q () L' (fun x => (v x).bind (linkPayslip p g now)) db') :
    (postPayslip p g).wp Rely present Q L v db := by
  simp only [postPayslip, wp_bind, wp_select, wp_lock, wp_tryWrite]
  rintro db₁ h₁ v₁ - db₂ h₂
  split
  · exact h _ v₁.now db₂ (Set.subset_insert _ L) (h₁.trans h₂) fun _ => Set.mem_insert _ L
  · next habsent => exact h L v₁.now db₂ subset_rfl (h₁.trans h₂) fun hsome => absurd hsome habsent

theorem wp_linkExisting
    (h : ∀ L' f db', Rely L db db' → ((db'.payslip? p.id).isSome → .payslip p.id ∈ L') →
      (∀ x y, f x = some y → Posts p g x y ∧ LedgerSpec p (.linked g) x y) → Q () L' f db') :
    (linkExisting p g).wp Rely present Q L some db := by
  rw [linkExisting, wp_bind]
  refine wp_postPayslip fun L' now db₁ hL h₁ hmem => ?_
  rw [wp_bind, wp_select]
  rintro db₂ h₂ existing -
  rw [wp_tryWrite]
  refine h L' _ db₂ (h₁.trans (h₂.mono hL)) (fun hsome => hmem (h₂.isSome.1 hsome)) fun x y hy => ?_
  obtain ⟨z, hz, hy⟩ := Option.bind_eq_some_iff.1 hy
  obtain ⟨htoDb, hwritten, hthere, hpayslips, hundone⟩ := linkPayslip_eq_some hz
  have hsame : SameBooks z y := by
    cases hmeta : existing.meta? g with
    | none => exact sameBooks_createMeta (by rwa [hmeta] at hy)
    | some m => exact sameBooks_updateMeta (by rwa [hmeta] at hy)
  exact ⟨⟨hthere, by rwa [hsame.payslips], hsame.undone.trans hundone⟩, hsame.toDb.trans htoDb,
    hsame.written.trans hwritten⟩

theorem wp_createTransaction
    (h : ∀ L' f db', Rely L db db' → ((db'.payslip? p.id).isSome → .payslip p.id ∈ L') →
      (∀ x y, f x = some y → Posts p (p.call.generateGuid 0) x y ∧
        LedgerSpec p (.created (p.call.generateGuid 0)) x y) → Q () L' f db') :
    (createTransaction p).wp Rely present Q L some db := by
  simp only [createTransaction, wp_bind, wp_select, wp_tryWrite, wp_write]
  rintro db₁ h₁ now -
  refine wp_postPayslip fun L' now' db₂ hL h₂ hmem => ?_
  rw [wp_tryWrite]
  refine h L' _ db₂ (h₁.trans h₂) hmem fun x y hy => ?_
  obtain ⟨y₄, hy₄, hy⟩ := Option.bind_eq_some_iff.1 hy
  obtain ⟨y₃, hy₃, hy₄⟩ := Option.bind_eq_some_iff.1 hy₄
  obtain ⟨y₂, hy₂, hy₃⟩ := Option.bind_eq_some_iff.1 hy₃
  obtain ⟨y₁, hy₁, hy₂⟩ := Option.bind_eq_some_iff.1 hy₂
  cases hy₃
  obtain ⟨hfresh, htxns, hsplits, hpayslips₁, hwritten₁, hundone₁⟩ := insertTransaction_eq_some hy₁
  obtain ⟨htxns₂, hsplits₂, hpayslips₂, hwritten₂, hundone₂⟩ := insertSplits_eq_some hy₂
  obtain ⟨htoDb, hwritten₄, hthere, ⟨t, hpayslips₄⟩, hundone₄⟩ := linkPayslip_eq_some hy₄
  have hsame := sameBooks_createMeta hy
  have hpayslips : (noteWritten p.id (p.call.generateGuid 0) y₂).payslips = x.payslips :=
    hpayslips₂.trans hpayslips₁
  have htoDb : y.toDb = y₂.toDb := hsame.toDb.trans htoDb
  refine ⟨⟨?_, ⟨t, ?_⟩, ?_⟩, hfresh, ?_, ?_, ?_⟩
  · rw [Db.payslip?, ← hpayslips]
    exact hthere
  · rw [hsame.payslips, hpayslips₄, hpayslips]
  · exact hsame.undone.trans (hundone₄.trans (hundone₂.trans hundone₁))
  · rw [htoDb, htxns₂, htxns, List.map_append]
    rfl
  · rw [htoDb, hsplits₂, hsplits]
  · rw [hsame.written, hwritten₄]
    exact congrArg _ (hwritten₂.trans hwritten₁)

theorem wp_replaceDeposit (hg : ∃ t ∈ db.transactions, t.guid = g)
    (h : ∀ L' f db', ((db'.payslip? p.id).isSome → .payslip p.id ∈ L') →
      (∃ t ∈ db'.transactions, t.guid = g) →
      (∀ x y, (∃ t ∈ x.transactions, t.guid = g) → f x = some y →
        Posts p g x y ∧ LedgerSpec p (.replaced g) x y) → Q () L' f db') :
    (replaceDeposit p g).wp Rely present Q L some db := by
  simp only [replaceDeposit, wp_bind, wp_require, wp_select]
  rintro - db₁ h₁ inBook -
  refine wp_lockAll_of_antitone isTrans_rely (fun hL h => h.mono hL) fun L₂ db₂ h₂ => ?_
  simp only [wp_bind, wp_select, wp_check, wp_write, wp_tryWrite]
  rintro db₃ h₃ _ - _ -
  refine wp_postPayslip fun L' now db₄ hL h₄ hmem => ?_
  rw [wp_tryWrite]
  have hthere := h₄.there g (h₃.there g ((h₁.trans h₂).there g hg))
  refine h L' _ db₄ hmem hthere fun x y hx hy => ?_
  obtain ⟨y₄, hy₄, hy⟩ := Option.bind_eq_some_iff.1 hy
  obtain ⟨y₃, hy₃, hy₄⟩ := Option.bind_eq_some_iff.1 hy₄
  obtain ⟨y₂, hy₂, hy₃⟩ := Option.bind_eq_some_iff.1 hy₃
  obtain ⟨y₁, hy₁, hy₂⟩ := Option.bind_eq_some_iff.1 hy₂
  cases hy₁
  cases hy₃
  obtain ⟨htxns₂, hsplits₂, hpayslips₂, hwritten₂, hundone₂⟩ := insertSplits_eq_some hy₂
  obtain ⟨htoDb, hwritten₄, hthere, ⟨t, hpayslips₄⟩, hundone₄⟩ := linkPayslip_eq_some hy₄
  have hsame := sameBooks_updateMeta hy
  have hpayslips : (noteWritten p.id g y₂).payslips = x.payslips := hpayslips₂
  have htoDb : y.toDb = y₂.toDb := hsame.toDb.trans htoDb
  refine ⟨⟨?_, ⟨t, ?_⟩, ?_⟩, hx, ?_, ?_, ?_⟩
  · rw [Db.payslip?, ← hpayslips]
    exact hthere
  · rw [hsame.payslips, hpayslips₄, hpayslips]
  · exact hsame.undone.trans (hundone₄.trans hundone₂)
  · rw [htoDb, htxns₂, map_guid_clearTransaction]
  · rw [htoDb, hsplits₂]
    rfl
  · rw [hsame.written, hwritten₄]
    exact congrArg _ hwritten₂

theorem wp_postTransaction {claim : ℕ} :
    (postTransaction p claim).wp Rely present (Commits Rely (CommitSpec w)) ∅ some db := by
  rw [postTransaction, wp_bind]
  refine wp_findSimpleFinDeposit fun deposit db₁ h₁ hdeposit => ?_
  rw [wp_bind]
  refine wp_findMatchingTransaction fun existing db₂ h₂ => ?_
  split
  · rw [wp_bind]
    refine wp_linkExisting fun L' f db₃ h₃ hmem hf => ?_
    rw [wp_pure]
    intro db₄ h₄ db₅ hwrite
    obtain ⟨hposts, hledger⟩ := hf db₄ db₅ hwrite
    exact ⟨hmem (h₄.isSome.1 hposts.there), hposts, hledger⟩
  · split
    · rw [wp_bind]
      refine wp_replaceDeposit (h₂.there _ (hdeposit _ rfl)) fun L' f db₃ hmem hthere hf => ?_
      rw [wp_pure]
      intro db₄ h₄ db₅ hwrite
      obtain ⟨hposts, hledger⟩ := hf db₄ db₅ (h₄.there _ hthere) hwrite
      exact ⟨hmem (h₄.isSome.1 hposts.there), hposts, hledger⟩
    · rw [wp_bind]
      refine wp_createTransaction fun L' f db₃ h₃ hmem hf => ?_
      rw [wp_pure]
      intro db₄ h₄ db₅ hwrite
      obtain ⟨hposts, hledger⟩ := hf db₄ db₅ hwrite
      exact ⟨hmem (h₄.isSome.1 hposts.there), hposts, hledger⟩

theorem wp_precheck :
    (precheck p).wp Rely present (Commits Rely (CommitSpec w)) ∅ some db := by
  simp only [precheck, wp_bind, wp_select, wp_expect, wp_require, wp_check, wp_pure]
  rintro db₁ h₁ _ - row - - _ - db₂ h₂ _ ⟨⟩
  exact ⟨db₂.now, rfl⟩

theorem good_serve {I : Db → Prop} (req : Request) :
    (serve w req).Good Rely present I (CommitSpec w) := by
  have hrelease (id claim : ℕ) (priorStatus : PriorStatus) :
      (Script.single (releasePayslipClaim id priorStatus claim) : Scripts w).Good Rely present I
        (CommitSpec w) := ⟨fun db _ => wp_releasePayslipClaim, fun _ => trivial⟩
  have hpost (p : Posting w) : (attempt p).Good Rely present I (CommitSpec w) := by
    refine ⟨fun db _ => wp_claimPayslipForPosting, fun r => ?_⟩
    rcases r with e | (⟨id, priorStatus, claim⟩ | _ | _ | _)
    · trivial
    · refine ⟨fun db _ => wp_postTransaction, fun r => ?_⟩
      cases r with
      | ok a => trivial
      | error e => exact hrelease id claim priorStatus
    · trivial
    · trivial
    · trivial
  cases req with
  | post call =>
    simp only [serve]
    split
    · trivial
    · next p _ =>
        refine ⟨fun db _ => wp_precheck, fun r => ?_⟩
        cases r with
        | ok a => exact hpost p
        | error e => trivial
  | tick time =>
    refine ⟨fun db _ => ?_, fun _ => trivial⟩
    simp only [wp_bind, wp_write, wp_pure]
    rintro db₁ h₁ _ ⟨⟩
    exact ⟨_, rfl⟩

end Programs

end Payslips
