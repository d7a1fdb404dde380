import GnucashWeb.SimpleFin.Recording

/-!
# Feed rows under concurrent sync runs

A manual match and an import claim the id of their row, which keeps two of them apart, but the claim
looks at the first id column only, and both matchers write to a meta row that they read in an
earlier transaction.

`exactlyOnce_of_unraced` is the main result: when every link, as it commits, finds its row's id in
no column that its claim does not cover, and the column that it writes still empty, then no id is
ever recorded on two meta rows, created for twice, or overwritten.
-/

namespace SimpleFin.Import

open Rows Statements Runs

/-! ## What is promised -/

def RecordedOnce (db : Db) : Prop :=
  db.metas.Pairwise fun m m' => ∀ id ∈ m.ids, id ∉ m'.ids

def Db.createdIds (db : Db) : List String :=
  (db.done.filter fun d => d.way = .imported).map fun d => d.row.id

/-- After a commit each id is recorded on one meta row and created for once, and the commit has
overwritten none. -/
def ExactlyOnce (_ : Set String) (_ : Receipt) (db db' : Db) : Prop :=
  RecordedOnce db' ∧ db'.createdIds.Nodup ∧ KeepsIds db db'

instance (db : Db) : Decidable (RecordedOnce db) :=
  inferInstanceAs (Decidable (List.Pairwise _ _))

instance : DecidableCommit ExactlyOnce where
  dec _ _ _ _ _ := inferInstanceAs (Decidable (_ ∧ _ ∧ _))

/-- What nobody has done since the claim or the query of a link: a link by claim finds the id in no
second column, a pairing in no column, and both find the column that they write empty. -/
def Unraced (_ : Set String) (a : Receipt) (db _ : Db) : Prop :=
  match a with
  | .linkedManually _ row m =>
    row.id ∉ db.secondIds ∧ (db.meta? m.transactionGuid).bind Meta.simplefinTransactionId = none
  | .imported row _ => row.id ∉ db.secondIds
  | .linkedTransfer _ row c =>
    row.id ∉ db.firstIds ∧ row.id ∉ db.secondIds ∧
      (db.meta? c.transactionGuid).bind Meta.simplefinTransactionId2 = none
  | _ => True

instance : DecidableCommit Unraced where
  dec _ _ a _ _ :=
    match a with
    | .existing _ => isTrue trivial
    | .manualMatch _ => isTrue trivial
    | .transferMatch _ => isTrue trivial
    | .linkedManually .. => inferInstanceAs (Decidable (_ ∧ _))
    | .linkedTransfer .. => inferInstanceAs (Decidable (_ ∧ _))
    | .imported .. => inferInstanceAs (Decidable (_ ∉ _))
    | .refused => isTrue trivial

variable {host : Host} {db db' : Db} {id guid : String} {f : Meta → Meta} {m : Meta}

theorem recordedOnce_insertMeta (h : insertMeta host m db = some db') (honce : RecordedOnce db)
    (hnew : ∀ m' ∈ db.metas, id ∉ m'.ids) (hids : ∀ x ∈ m.ids, x = id) : RecordedOnce db' := by
  obtain ⟨rfl, -⟩ := insertMeta_eq_some h
  refine List.pairwise_append.2
    ⟨honce, List.pairwise_singleton .., fun m' hm' m'' hm'' x hx hx'' => ?_⟩
  obtain rfl := List.mem_singleton.1 hm''
  exact hnew m' hm' (hids x hx'' ▸ hx)

theorem recordedOnce_updateMetas (hkeys : Keyed db) (honce : RecordedOnce db)
    (hnew : ∀ m ∈ db.metas, id ∉ m.ids) (hids : ∀ m, ∀ x ∈ (f m).ids, x = id ∨ x ∈ m.ids) :
    RecordedOnce (updateMetas guid f db) := by
  unfold RecordedOnce updateMetas editAt
  rw [List.pairwise_map]
  refine (hkeys.apart.and honce).imp_of_mem ?_
  rintro m m' hm hm' ⟨hapart, hdisj⟩ x hx hx'
  split at hx <;> split at hx'
  · next h h' => exact hapart _ h h'
  · rcases hids m x hx with rfl | hx
    · exact hnew m' hm' hx'
    · exact hdisj x hx hx'
  · rcases hids m' x hx' with rfl | hx'
    · exact hnew m hm hx
    · exact hdisj x hx hx'
  · exact hdisj x hx hx'

/-! ## What the commits of a run do -/

/-- An id whose lock a session holds is not entered in the first column by others. -/
def KeepsFree (L : Set String) (db db' : Db) : Prop :=
  ∀ id ∈ L, id ∉ db.firstIds → id ∉ db'.firstIds

instance (L : Set String) : Std.Refl (KeepsFree L) := ⟨fun _ _ _ h => h⟩

instance isTrans_keepsFree (L : Set String) : IsTrans Db (KeepsFree L) :=
  ⟨fun _ _ _ hab hbc id hid h => hbc id hid (hab id hid h)⟩

/-- The claim of an id holds: its lock is held and it is in no first column. -/
def Claimed (id : String) (L : Set String) (db : Db) : Prop := id ∈ L ∧ id ∉ db.firstIds

def CommitSpec (host : Host) (L : Set String) (a : Receipt) (db db' : Db) : Prop :=
  match a with
  | .linkedManually _ row m =>
    Claimed row.id L db ∧ ∃ d : Done, d.way ≠ .imported ∧ ∃ db₁,
      recordManually host row m db = some db₁ ∧ db' = report d db₁
  | .linkedTransfer _ row c =>
    ∃ d : Done, d.way ≠ .imported ∧ ∃ db₁,
      updateMeta host c.transactionGuid (Meta.paired row) db = some db₁ ∧ db' = report d db₁
  | .imported row p =>
    Claimed row.id L db ∧ ∃ d : Done, d.way = .imported ∧ d.row.id = row.id ∧ ∃ db₀ db₁ : Db,
      db₀.metas = db.metas ∧ db₀.done = db.done ∧
        insertMeta host (buildImportedTransactionMeta row p.txGuid p.confidence) db₀ = some db₁ ∧
          db' = report d db₁
  | _ => db' = db

section Programs

variable {zone : TimeZone} {sync : Sync} {account : MappedAccount} {row : FeedTransaction}
  {amount : ℚ} {p : Posting}

abbrev Good (host : Host) (I : Db → Prop) : SyncScript → Prop :=
  Script.Good KeepsFree (fun _ _ => true) I (CommitSpec host)

theorem wp_claim {Q : Bool → Set String → (Db → Option Db) → Db → Prop} {db : Db}
    (hfree : ∀ db, id ∉ db.firstIds → Q true (insert id ∅) some db)
    (htaken : ∀ db, Q false (insert id ∅) some db) :
    (claimSimpleFinTransactionId id).wp KeepsFree (fun _ _ => true) Q ∅ some db := by
  unfold claimSimpleFinTransactionId
  simp only [wp_bind, wp_lock, wp_select, wp_pure, if_true]
  intro db₁ _ db₂ _ v hv
  cases hv
  cases hany : db₂.metas.any fun m => m.simplefinTransactionId = some id with
  | true => exact htaken db₂
  | false =>
    refine hfree db₂ fun hmem => ?_
    obtain ⟨m, hm, hid⟩ := mem_firstIds.1 hmem
    have hne := List.any_eq_false.1 hany m hm
    simp [hid] at hne

theorem commits_read {a : Receipt} {L : Set String}
    (ha : ∀ db db', db' = db → CommitSpec host L a db db') :
    Commits KeepsFree (CommitSpec host) a L some db :=
  fun _ _ _ h => ha _ _ (Option.some.inj h).symm

theorem wp_linkManualMatch {m : ManualMatch} :
    (linkManualMatch host account row m).wp KeepsFree (fun _ _ => true)
      (Commits KeepsFree (CommitSpec host)) ∅ some db := by
  unfold linkManualMatch
  rw [wp_bind]
  refine wp_claim (fun db hfree => ?_) fun db => commits_read fun _ _ h => h
  simp only [if_true, wp_bind, wp_tryWrite, wp_write, wp_pure]
  intro db₁ h₁ db₂ h₂
  obtain ⟨v, hv, h₂⟩ := Option.bind_eq_some_iff.1 h₂
  exact ⟨⟨.inl rfl, h₁ _ (.inl rfl) hfree⟩, _, by simp, v, hv, (Option.some.inj h₂).symm⟩

theorem wp_linkTransferDedupMatch {c : TransferDedupCandidate} :
    (linkTransferDedupMatch host account row c).wp KeepsFree (fun _ _ => true)
      (Commits KeepsFree (CommitSpec host)) ∅ some db := by
  unfold linkTransferDedupMatch
  simp only [wp_bind, wp_tryWrite, wp_write, wp_pure]
  intro db₁ h₁ db₂ h₂
  obtain ⟨v, hv, h₂⟩ := Option.bind_eq_some_iff.1 h₂
  exact ⟨_, by simp, v, hv, (Option.some.inj h₂).symm⟩

theorem insertTransaction_frame {t : Edits.Transaction} (h : insertTransaction t db = some db') :
    db'.metas = db.metas ∧ db'.done = db.done := by
  unfold insertTransaction at h
  split at h
  · cases h
  · cases h
    exact ⟨rfl, rfl⟩

theorem insertSplit_frame {s : Ledger.Split} (h : insertSplit s db = some db') :
    db'.metas = db.metas ∧ db'.done = db.done := by
  unfold insertSplit at h
  split at h
  · cases h
  · cases h
    exact ⟨rfl, rfl⟩

theorem wp_importTransaction :
    (importTransaction host zone account row amount p).wp KeepsFree (fun _ _ => true)
      (Commits KeepsFree (CommitSpec host)) ∅ some db := by
  unfold importTransaction
  dsimp only
  rw [wp_bind]
  refine wp_claim (fun db hfree => ?_) fun db => commits_read fun _ _ h => h
  simp only [if_true, wp_bind, wp_tryWrite, wp_write, wp_pure]
  intro db₁ h₁ db₂ h₂
  obtain ⟨v₄, h₂, h⟩ := Option.bind_eq_some_iff.1 h₂
  obtain ⟨v₃, h₂, hmeta⟩ := Option.bind_eq_some_iff.1 h₂
  obtain ⟨v₂, h₂, hsplit₂⟩ := Option.bind_eq_some_iff.1 h₂
  obtain ⟨v₁, htx, hsplit₁⟩ := Option.bind_eq_some_iff.1 h₂
  obtain ⟨hm₁, hd₁⟩ := insertTransaction_frame htx
  obtain ⟨hm₂, hd₂⟩ := insertSplit_frame hsplit₁
  obtain ⟨hm₃, hd₃⟩ := insertSplit_frame hsplit₂
  exact ⟨⟨.inl rfl, h₁ _ (.inl rfl) hfree⟩, _, rfl, rfl, v₃, v₄, hm₃.trans (hm₂.trans hm₁),
    hd₃.trans (hd₂.trans hd₁), hmeta, (Option.some.inj h).symm⟩

/-! ### A run -/

variable {I : Db → Prop} {existing : List String} {go stop : List String → SyncScript}

theorem good_importRow (hgo : ∀ existing, Good host I (go existing)) :
    Good host I (importRow host sync account row amount p existing go) := by
  refine ⟨fun _ _ => wp_importTransaction, fun r => ?_⟩
  rcases r with e | a
  · cases e with
    | duplicate => exact hgo _
    | other => exact hgo _
  · exact hgo _

theorem good_transferRow (hgo : ∀ existing, Good host I (go existing))
    (hstop : ∀ existing, Good host I (stop existing)) :
    Good host I (transferRow host sync account row amount p existing go stop) := by
  unfold transferRow
  split
  · refine ⟨fun _ _ _ _ _ _ => commits_read fun _ _ h => h, fun r => ?_⟩
    dsimp only
    split
    · refine ⟨fun _ _ => wp_linkTransferDedupMatch, fun r => ?_⟩
      cases r with
      | ok a => exact hgo _
      | error e => exact hstop _
    · exact good_importRow hgo
    · exact hstop _
  · exact good_importRow hgo

theorem good_syncRow (hgo : ∀ existing, Good host I (go existing))
    (hstop : ∀ existing, Good host I (stop existing)) :
    Good host I (syncRow host sync account row p existing go stop) := by
  unfold syncRow
  split_ifs
  · exact hgo _
  · exact hgo _
  · exact hgo _
  · refine ⟨fun _ _ _ _ _ _ => commits_read fun _ _ h => h, fun r => ?_⟩
    dsimp only
    split
    · refine ⟨fun _ _ => wp_linkManualMatch, fun r => ?_⟩
      dsimp only
      split
      · exact hgo _
      · exact good_transferRow hgo hstop
      · exact hstop _
    · exact good_transferRow hgo hstop
    · exact hstop _

theorem good_syncRows {rows : List (FeedTransaction × Posting)}
    (hstop : ∀ existing, Good host I (stop existing)) :
    Good host I (syncRows host sync account rows existing stop) := by
  induction rows generalizing existing with
  | nil => exact hstop existing
  | cons r rows ih => exact good_syncRow (fun existing => ih) hstop

theorem good_runSimpleFinSync (host : Host) (sync : Sync) :
    Good host I (runSimpleFinSync host sync) := by
  have haccounts (accounts) :
      ∀ existing, Good host I (syncAccounts host sync accounts existing) := by
    induction accounts with
    | nil => exact fun _ => trivial
    | cons a accounts ih => exact fun existing => good_syncRows ih
  refine ⟨fun _ _ _ _ _ _ => commits_read fun _ _ h => h, fun r => ?_⟩
  dsimp only
  split
  · exact haccounts _ _
  · trivial

end Programs

/-! ## What a commit leaves -/

/-- What holds between the commits of runs whose links all find their columns empty. -/
structure Inv (db : Db) : Prop where
  keyed : Keyed db
  once : RecordedOnce db
  created : db.createdIds.Nodup
  recorded : ∀ id ∈ db.createdIds, id ∈ db.firstIds

/-- What a write of meta rows leaves that enters one new id. -/
structure Enters (id : String) (db db' : Db) : Prop where
  keyed : Keyed db'
  once : RecordedOnce db'
  keeps : KeepsIds db db'
  done : db'.done = db.done

variable {row : FeedTransaction} {L : Set String} {a : Receipt}

theorem enters_updateMetas (hinv : Inv db) (hnew : ∀ m ∈ db.metas, id ∉ m.ids)
    (hguid : ∀ m, (f m).transactionGuid = m.transactionGuid)
    (hids : ∀ m, ∀ x ∈ (f m).ids, x = id ∨ x ∈ m.ids)
    (hkeep : ∀ m, db.meta? guid = some m →
      (∀ x ∈ m.simplefinTransactionId, (f m).simplefinTransactionId = some x) ∧
        ∀ x ∈ m.simplefinTransactionId2, (f m).simplefinTransactionId2 = some x) :
    Enters id db (updateMetas guid f db) where
  keyed := keyed_updateMetas hguid hinv.keyed
  once := recordedOnce_updateMetas hinv.keyed hinv.once hnew hids
  keeps := keepsIds_updateMetas hinv.keyed hguid hkeep
  done := rfl

theorem enters_insertMeta (hinv : Inv db) (hnew : ∀ m' ∈ db.metas, id ∉ m'.ids)
    (hids : ∀ x ∈ m.ids, x = id) (h : insertMeta host m db = some db') : Enters id db db' where
  keyed := keyed_insertMeta h hinv.keyed
  once := recordedOnce_insertMeta h hinv.once hnew hids
  keeps := keepsIds_insertMeta h
  done := by
    obtain ⟨rfl, -⟩ := insertMeta_eq_some h
    rfl

theorem enters_recordManually {m : ManualMatch} (hinv : Inv db)
    (hnew : ∀ m' ∈ db.metas, row.id ∉ m'.ids)
    (hempty : (db.meta? m.transactionGuid).bind Meta.simplefinTransactionId = none)
    (h : recordManually host row m db = some db') : Enters row.id db db' := by
  unfold recordManually at h
  split at h
  · rw [eq_of_checkIndex h]
    refine enters_updateMetas hinv hnew (fun _ => rfl) (fun m' x hx => ?_)
      fun m' hm' => ⟨fun x hx => ?_, fun x hx => hx⟩
    · rcases mem_ids.1 hx with hx | hx
      · exact .inl (Option.some.inj hx).symm
      · exact .inr (mem_ids.2 (.inr hx))
    · rw [hm', Option.bind_some] at hempty
      rw [hempty] at hx
      cases hx
  · refine enters_insertMeta hinv hnew (fun x hx => ?_) h
    rcases mem_ids.1 hx with hx | hx
    · exact (Option.some.inj hx).symm
    · cases hx

theorem enters_updateMeta_paired (hinv : Inv db) (hnew : ∀ m' ∈ db.metas, row.id ∉ m'.ids)
    (hempty : (db.meta? guid).bind Meta.simplefinTransactionId2 = none)
    (h : updateMeta host guid (Meta.paired row) db = some db') : Enters row.id db db' := by
  unfold updateMeta at h
  split at h
  · rw [eq_of_checkIndex h]
    refine enters_updateMetas hinv hnew (fun _ => rfl) (fun m' x hx => ?_)
      fun m' hm' => ⟨fun x hx => hx, fun x hx => ?_⟩
    · rcases mem_ids.1 hx with hx | hx
      · exact .inr (mem_ids.2 (.inl hx))
      · exact .inl (Option.some.inj hx).symm
    · rw [hm', Option.bind_some] at hempty
      rw [hempty] at hx
      cases hx
  · cases h

theorem Inv.congr (hinv : Inv db) (hmetas : db'.metas = db.metas) (hdone : db'.done = db.done) :
    Inv db' := by
  obtain ⟨transactions, splits, metas, done⟩ := db'
  obtain rfl : metas = db.metas := hmetas
  obtain rfl : done = db.done := hdone
  exact ⟨hinv.keyed, hinv.once, hinv.created, hinv.recorded⟩

theorem inv_report {d : Done} (hinv : Inv db) (h : Enters id db db')
    (hcreated : d.way = .imported → id ∈ db'.firstIds ∧ d.row.id = id ∧ id ∉ db.firstIds) :
    Inv (report d db') ∧ ExactlyOnce L a db (report d db') := by
  have hkept : ∀ x ∈ db.createdIds, x ∈ db'.firstIds := by
    intro x hx
    obtain ⟨m, hm, hid⟩ := mem_firstIds.1 (hinv.recorded x hx)
    obtain ⟨m', hm', -, hfirst, -⟩ := h.keeps m hm
    exact mem_firstIds.2 ⟨m', hm', hfirst x hid⟩
  have hids : (report d db').createdIds.Nodup ∧
      ∀ x ∈ (report d db').createdIds, x ∈ db'.firstIds := by
    unfold report Db.createdIds
    dsimp only
    rw [h.done, List.filter_cons]
    split
    · next hway =>
        obtain ⟨hmem, hrow, hfree⟩ := hcreated (by simpa using hway)
        rw [List.map_cons, hrow]
        refine ⟨List.nodup_cons.2 ⟨fun hx => hfree (hinv.recorded id hx), hinv.created⟩, ?_⟩
        exact List.forall_mem_cons.2 ⟨hmem, hkept⟩
    · exact ⟨hinv.created, hkept⟩
  exact ⟨⟨h.keyed, h.once, hids.1, hids.2⟩, h.once, hids.1, h.keeps⟩

theorem inv_of_commit (hinv : Inv db) (h : CommitSpec host L a db db')
    (hraced : Unraced L a db db') : Inv db' ∧ ExactlyOnce L a db db' := by
  have hrefl : Inv db ∧ ExactlyOnce L a db db :=
    ⟨hinv, hinv.once, hinv.created, fun m hm => ⟨m, hm, rfl, fun _ h => h, fun _ h => h⟩⟩
  cases a with
  | linkedManually account row m =>
    obtain ⟨⟨-, hfree⟩, d, hway, db₁, h₁, rfl⟩ := h
    have henters := enters_recordManually hinv (fun m' => notMem_ids hfree hraced.1) hraced.2 h₁
    exact inv_report hinv henters fun h => absurd h hway
  | linkedTransfer account row c =>
    obtain ⟨d, hway, db₁, h₁, rfl⟩ := h
    have henters := enters_updateMeta_paired hinv (fun m' => notMem_ids hraced.1 hraced.2.1)
      hraced.2.2 h₁
    exact inv_report hinv henters fun h => absurd h hway
  | imported row p =>
    obtain ⟨⟨-, hfree⟩, d, hway, hrow, db₀, db₁, hmetas, hdone, h₁, rfl⟩ := h
    have hinv₀ := hinv.congr hmetas hdone
    have hfree₀ : row.id ∉ db₀.firstIds := by rwa [Db.firstIds, hmetas]
    have hnew₀ : ∀ m' ∈ db₀.metas, row.id ∉ m'.ids := fun m' hm' =>
      notMem_ids hfree hraced (hmetas ▸ hm')
    have henters : Enters row.id db₀ db₁ := enters_insertMeta hinv₀ hnew₀ (fun x hx => by
      simpa [Meta.ids, buildImportedTransactionMeta] using hx) h₁
    have hfirst : row.id ∈ db₁.firstIds := (mem_firstIds_insertMeta h₁).2 (.inr rfl)
    obtain ⟨hinv', honce, hcreated, hkeeps⟩ :=
      inv_report (L := L) (a := .imported row p) hinv₀ henters fun _ => ⟨hfirst, hrow, hfree₀⟩
    exact ⟨hinv', honce, hcreated, by rwa [KeepsIds, hmetas] at hkeeps⟩
  | existing ids => exact (show db' = db from h) ▸ hrefl
  | manualMatch found => exact (show db' = db from h) ▸ hrefl
  | transferMatch found => exact (show db' = db from h) ▸ hrefl
  | refused => exact (show db' = db from h) ▸ hrefl

theorem keepsFree_of_commit (h : CommitSpec host L a db db') {L' : Set String}
    (hdisj : ∀ id ∈ L', id ∉ L) : KeepsFree L' db db' := by
  intro id hid hfree
  cases a with
  | linkedManually account row m =>
    obtain ⟨⟨hlock, -⟩, d, -, db₁, h₁, rfl⟩ := h
    have hne : id ≠ row.id := fun heq => hdisj id hid (heq ▸ hlock)
    intro hmem
    unfold recordManually at h₁
    split at h₁
    · rw [report, eq_of_checkIndex h₁] at hmem
      rcases mem_firstIds_updateMetas hmem with hmem | ⟨m', -, hmem⟩
      · exact hfree hmem
      · exact hne (Option.some.inj hmem).symm
    · rcases (mem_firstIds_insertMeta h₁).1 hmem with hmem | hmem
      · exact hfree hmem
      · exact hne (Option.some.inj hmem).symm
  | linkedTransfer account row c =>
    obtain ⟨d, -, db₁, h₁, rfl⟩ := h
    intro hmem
    unfold updateMeta at h₁
    split at h₁
    · rw [report, eq_of_checkIndex h₁] at hmem
      rcases mem_firstIds_updateMetas hmem with hmem | ⟨m', hm', hmem⟩
      · exact hfree hmem
      · exact hfree (mem_firstIds.2 ⟨m', hm', hmem⟩)
    · cases h₁
  | imported row p =>
    obtain ⟨⟨hlock, -⟩, d, -, -, db₀, db₁, hmetas, -, h₁, rfl⟩ := h
    have hne : id ≠ row.id := fun heq => hdisj id hid (heq ▸ hlock)
    intro hmem
    rcases (mem_firstIds_insertMeta h₁).1 hmem with hmem | hmem
    · rw [Db.firstIds, hmetas] at hmem
      exact hfree hmem
    · exact hne (Option.some.inj hmem).symm
  | existing ids => exact (show db' = db from h) ▸ hfree
  | manualMatch found => exact (show db' = db from h) ▸ hfree
  | transferMatch found => exact (show db' = db from h) ▸ hfree
  | refused => exact (show db' = db from h) ▸ hfree

/-- In every interleaving of sync runs whose links all find their columns empty, every commit leaves
each feed id recorded once, created for at most once, and in its place. -/
theorem exactlyOnce_of_unraced (host : Host) (steps : List SyncStep) (db : Db)
    (hkeyed : Keyed db) (honce : RecordedOnce db) (hdone : db.done = [])
    (h : Along (next host) (AtCommit Unraced) steps (start db)) :
    Along (next host) (AtCommit ExactlyOnce) steps (start db) := by
  have hnone : db.createdIds = [] := by simp [Db.createdIds, hdone]
  have hinv : Inv db := ⟨hkeyed, honce, by simp [hnone], by simp [hnone]⟩
  exact along_atCommit (fun _ => isTrans_keepsFree _) (good_runSimpleFinSync host)
    (fun _ _ _ _ hinv h hC =>
      ⟨(inv_of_commit hinv h hC).1, fun _ hdisj => keepsFree_of_commit h hdisj⟩)
    (fun _ _ _ _ hinv h hC => (inv_of_commit hinv h hC).2) hinv h

/-! ## A transfer that two connections see -/

def withdrawal : FeedTransaction := feedRow "TRN-1" "ACT-1" 0 (-10)

def deposit : FeedTransaction := feedRow "TRN-2" "ACT-2" 0 10

/-- The sync of a connection with one mapped account and one row. -/
def syncOf (account : MappedAccount) (row : FeedTransaction) (p : Posting) : Sync :=
  ⟨gmt, none, [(account, [(row, p)])]⟩

def byHand (txGuid : String) : Meta :=
  ⟨some txGuid, "manual", true, none, none, none, none, none, none, none⟩

def enteredTransfer : Db where
  transactions := [⟨"t1", "usd", "", some (738000 * 86400000), some 0, some "Transfer"⟩]
  splits := [newSplit "s1" "t1" "checking" "" ⟨-1000, 100⟩,
    newSplit "s2" "t1" "savings" "" ⟨1000, 100⟩]
  metas := [byHand "t1"]
  done := []

def withdrawalSync : SyncStep :=
  .call 0 (syncOf checking withdrawal (posting "t2" "s3" "s4" "imbalance"))

def depositSync : SyncStep :=
  .call 1 (syncOf savings deposit (posting "t3" "s5" "s6" "imbalance"))

/-- One connection is synced after the other. -/
def oneByOne : List SyncStep :=
  withdrawalSync :: List.replicate 9 (Step.advance 0) ++
    depositSync :: List.replicate 12 (Step.advance 1)

/-- Both find the transfer before one of them is linked to it. -/
def bothFindIt : List SyncStep :=
  withdrawalSync :: List.replicate 4 (Step.advance 0) ++
    depositSync :: List.replicate 4 (Step.advance 1) ++
      List.replicate 5 (Step.advance 0) ++ List.replicate 5 (Step.advance 1)

theorem exactlyOnce_oneByOne :
    (run (next threeDays) oneByOne (start enteredTransfer)).isSome ∧
      Along (next threeDays) (AtCommit ExactlyOnce) oneByOne (start enteredTransfer) :=
  ⟨by decide +kernel,
    exactlyOnce_of_unraced threeDays oneByOne enteredTransfer (by decide) (by decide) rfl
      (by decide +kernel)⟩

/-- The second link overwrites the id of the first. -/
theorem exactlyOnce_bothFindIt_false :
    ¬Along (next threeDays) (AtCommit ExactlyOnce) bothFindIt (start enteredTransfer) := by
  decide +kernel

end SimpleFin.Import
