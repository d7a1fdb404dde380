import GnucashWeb.Lots.RunMoves
import GnucashWeb.Lots.Undo

/-!
# Clearing an account

Whether `clearLotAssignments` is safe for the data of the user: `clear_userSafe_iff` says exactly
when it deletes no transaction and no split of the user and leaves their amounts as authored, in
every state that runs reach.  `clear_deletes_trade` is a state where it deletes a trade.
-/

open Ledger Transact Rows

namespace Lots

variable {host : Host} {c : Scope} {L L' : Marked} {db₀ db db' : Db}

/-! ## The splits of the user along runs -/

structure UserAuthored (host : Host) (db : Db) : Prop where
  sound : Sound host (marked db)
  unmarked : (marked db).marks = []

inductive Reachable (host : Host) (db₀ : Db) : Db → Prop
  | start : Reachable host db₀ db₀
  | assign {db db' : Db} {accountGuid : String} {strategy : LotAssignmentMethod}
      {r : AutoAssignResult} (h : Reachable host db₀ db)
      (hrun : Completes (assignWithStrategy host accountGuid strategy) db r db') :
      Reachable host db₀ db'

/-- A split of the user: without marks it has its amounts, else its first stash has them. -/
def HoldsSplit (L : Marked) (u : Split) : Prop :=
  ∃ s ∈ L.splits, SameRow u s ∧
    (¬L.HasMark u.guid ∧ s.quantity = u.quantity ∧ s.value = u.value ∨
      L.original u.guid = some (u.quantity, u.value))

variable {g a : String} {s : Split}

theorem hasMark_append {rows : List Slot} (hm : L'.marks = L.marks ++ rows)
    (hrows : ∀ r ∈ rows, r.objGuid ≠ g) : L'.HasMark g ↔ L.HasMark g := by
  rw [Marked.HasMark, Marked.HasMark, hm, List.map_append, List.mem_append]
  refine ⟨fun h => h.resolve_right fun h => ?_, .inl⟩
  obtain ⟨r, hr, he⟩ := List.mem_map.1 h
  exact hrows r hr he

theorem Sound.split_ne (hL : Sound host L) (hs : s ∈ L.splits) {n : ℕ}
    (hn : L.drawn ≤ n) : host.generateGuid n ≠ s.guid :=
  (hL.unused.splits s hs n hn).symm

theorem Move.holdsSplit (h : Move host c L L') (hL : Sound host L) {u : Split}
    (hu : HoldsSplit L u) : HoldsSplit L' u := by
  obtain ⟨s, hs, hrow, hcase⟩ := hu
  rcases hcase with ⟨hmark, hq, hv⟩ | horig
  · have hguid := hrow.guid_eq
    have hfresh (n : ℕ) (hn : L.drawn ≤ n) : host.generateGuid n ≠ u.guid :=
      hguid ▸ hL.split_ne hs hn
    cases h with
    | draw n => exact ⟨s, hs, hrow, .inl ⟨hmark, hq, hv⟩⟩
    | unprice p => exact ⟨s, hs, hrow, .inl ⟨hmark, hq, hv⟩⟩
    | price => exact ⟨s, hs, hrow, .inl ⟨hmark, hq, hv⟩⟩
    | closeLot => exact ⟨s, hs, hrow, .inl ⟨hmark, hq, hv⟩⟩
    | openLot =>
      refine ⟨s, hs, hrow, .inl ⟨fun hm => hmark ((hasMark_append rfl ?_).1 hm), hq, hv⟩⟩
      simpa [tagRow] using hfresh L.drawn le_rfl
    | assign =>
      refine ⟨_, mem_editAt.2 ⟨s, hs, rfl⟩, ?_, .inl ⟨hmark, ?_, ?_⟩⟩
      · split
        · exact hrow.trans rfl
        · exact hrow
      · split <;> exact hq
      · split <;> exact hv
    | rewrite hg ho f =>
      rename_i g
      have hne : s.guid ≠ g := by
        rintro rfl
        exact hmark (hguid ▸ hasMark_of_stashed ho)
      refine ⟨s, mem_editAt.2 ⟨s, hs, ?_⟩, hrow, .inl ⟨hmark, hq, hv⟩⟩
      rw [if_neg hne]
    | stash hs₁ hg =>
      rename_i s₁
      by_cases he : s₁.guid = u.guid
      · have heq : s₁ = s := List.inj_on_of_nodup_map hL.nodup hs₁ hs (he.trans hguid.symm)
        subst heq
        refine ⟨s₁, hs, hrow, .inr ?_⟩
        rw [← he, ← hq, ← hv]
        exact original_stash c.run fun hm => hmark (he ▸ hm)
      · refine ⟨s, hs, hrow, .inl ⟨fun hm => hmark ((hasMark_append rfl ?_).1 hm), hq, hv⟩⟩
        exact fun r hr => stashRows_objGuid r hr ▸ he
    | carve =>
      refine ⟨s, by simp [hs], hrow, .inl ⟨fun hm => hmark ((hasMark_append rfl ?_).1 hm), hq, hv⟩⟩
      simpa [tagRow] using hfresh L.drawn le_rfl
    | book ht hi hg =>
      refine ⟨s, by simp [hs], hrow, .inl ⟨fun hm => hmark ((hasMark_append rfl ?_).1 hm), hq, hv⟩⟩
      simp only [List.mem_cons, List.not_mem_nil, or_false]
      rintro r (rfl | rfl | rfl)
      · exact ht ▸ hfresh _ le_rfl
      · exact hi ▸ hfresh _ (by omega)
      · exact hg ▸ hfresh _ (by omega)
  · obtain ⟨s', hs', hrow'⟩ := h.persists hs
    exact ⟨s', hs', hrow.trans hrow', .inr (original_of_isPrefix h.marks_isPrefix horig)⟩

theorem Path.holdsSplit (hinj : Function.Injective host.generateGuid) (h : Path host c L L')
    (hc : c.Closed host L.drawn) (hL : Sound host L) {u : Split} (hu : HoldsSplit L u) :
    HoldsSplit L' u := by
  induction h with
  | refl => exact hu
  | tail hp hm ih => exact hm.holdsSplit (Path.sound hinj hp hc hL) ih

theorem Move.transactions_subset (h : Move host c L L') : L.transactions ⊆ L'.transactions := by
  cases h with
  | book => exact List.subset_append_left _ _
  | _ => exact List.Subset.refl _

theorem Path.transactions_subset (h : Path host c L L') : L.transactions ⊆ L'.transactions := by
  induction h with
  | refl => exact List.Subset.refl _
  | tail _ hm ih => exact List.Subset.trans ih hm.transactions_subset

structure Holds (host : Host) (db₀ db : Db) : Prop where
  sound : Sound host (marked db)
  transactions : db₀.transactions ⊆ db.transactions
  splits : ∀ u ∈ db₀.splits, HoldsSplit (marked db) u

/-- Runs keep the transactions of the user and, in place or stashed, the amounts of their splits. -/
theorem Reachable.holds (hinj : Function.Injective host.generateGuid)
    (hbook : UserAuthored host db₀) (h : Reachable host db₀ db) : Holds host db₀ db := by
  induction h with
  | start =>
    refine ⟨hbook.sound, List.Subset.refl _, fun u hu => ⟨u, hu, SameRow.refl u, .inl ⟨?_, rfl, rfl⟩⟩⟩
    simp [Marked.HasMark, hbook.unmarked]
  | assign _ hrun ih =>
    obtain ⟨hadv, -⟩ := advance_run hinj ih.sound hrun
    have hr := ready_runScope hinj ih.sound
    refine ⟨(hr.of_advance hadv).sound, ?_, fun u hu => ?_⟩
    · exact List.Subset.trans ih.transactions hadv.path.transactions_subset
    · exact hadv.path.holdsSplit hinj hr.closed hr.sound (ih.splits u hu)

/-! ## What a clear does -/

theorem completes_deleteWholeTransactions {txGuids : List String} {u : Unit}
    (h : Completes (deleteWholeTransactions txGuids) db u db') :
    db'.splits = db.splits.filter (fun s => s.txGuid ∉ txGuids) ∧
      db'.transactions = db.transactions.filter (fun t => t.guid ∉ txGuids) ∧
      db'.slots ⊆ db.slots := by
  rw [deleteWholeTransactions, completes_get_bind] at h
  simp only [completes_bind, completes_deleteSlots, completes_deleteSplits,
    completes_deleteTransactions] at h
  obtain ⟨_, _, rfl, _, _, rfl, _, _, rfl, rfl⟩ := h
  refine ⟨by simp, by simp, fun r hr => ?_⟩
  exact (List.mem_filter.1 (List.mem_filter.1 hr).1).1

theorem completes_forM_deleteWholeTransactions {txGuids : List String} {u : Unit}
    (h : Completes (txGuids.forM fun txGuid => deleteWholeTransactions [txGuid]) db u db') :
    db'.splits = db.splits.filter (fun s => s.txGuid ∉ txGuids) ∧
      db'.transactions = db.transactions.filter (fun t => t.guid ∉ txGuids) ∧
      db'.slots ⊆ db.slots := by
  induction txGuids generalizing db with
  | nil =>
    obtain ⟨-, rfl⟩ := completes_pure.1 h
    simp
  | cons txGuid txGuids ih =>
    obtain ⟨_, db₁, h₁, h₂⟩ := completes_bind.1 h
    obtain ⟨hs₁, ht₁, hr₁⟩ := completes_deleteWholeTransactions h₁
    obtain ⟨hs₂, ht₂, hr₂⟩ := ih h₂
    refine ⟨?_, ?_, List.Subset.trans hr₂ hr₁⟩
    · rw [hs₂, hs₁, List.filter_filter]
      refine List.filter_congr fun s _ => ?_
      simp [Bool.and_comm]
    · rw [ht₂, ht₁, List.filter_filter]
      refine List.filter_congr fun t _ => ?_
      simp [Bool.and_comm]

theorem completes_assertRevertPreservesReconciled {operation : String}
    {deletedTxGuids restoredSplitGuids taggedSplitGuids : List String} {u : Unit}
    (h : Completes (assertRevertPreservesReconciled operation deletedTxGuids restoredSplitGuids
      taggedSplitGuids) db u db') : db' = db := by
  rw [assertRevertPreservesReconciled, completes_get_bind] at h
  simp only [assertSplitsNotProtected, completes_onlyIf, completes_throw, and_false,
    false_or] at h
  exact h.2

/-- Whether a split carries the tag of a run. -/
def IsTagged (db : Db) (s : Split) : Prop :=
  ∃ r ∈ db.slots, r.objGuid = s.guid ∧ r.name = generatedSlot

def clearedAmounts (db : Db) (accountGuid : String) (s : Split) : Split :=
  restore (restoredFrom db (accountSlots db accountGuid originalQuantityNum) s.guid) s

/-- The rows that a clear leaves, before the splits still tagged are deleted. -/
structure ClearedRows (db : Db) (a : String) (db₁ db' : Db) : Prop where
  splits₁ : db₁.splits = (db.splits.map (clearedAmounts db a)).filter fun s =>
    s.txGuid ∉ generatedTxGuids db a
  slots₁ : db₁.slots ⊆
    withoutStashes ((accountSlots db a originalQuantityNum).map Slot.objGuid) db.slots
  splits : db'.splits = (db₁.splits.filter fun s =>
    s.guid ∉ (accountSlots db₁ a generatedSlot).map Slot.objGuid).map fun s =>
      if s.accountGuid = a ∧ s.lotGuid.isSome then { s with lotGuid := none } else s
  transactions : db'.transactions = db.transactions.filter fun t => t.guid ∉ generatedTxGuids db a

theorem clearedRows_clearLotAssignments {r : ClearResult}
    (h : Completes (clearLotAssignments a) db r db') : ∃ db₁, ClearedRows db a db₁ db' := by
  rw [clearLotAssignments, completes_get_bind] at h
  simp only [completes_bind, completes_get, completes_updateSplits, completes_deleteSlots,
    completes_deleteLots, completes_pure, deleteSplitRows, completes_deleteSplits] at h
  obtain ⟨_, _, h₁, _, db₂, h₂, _, db₃, h₃, _, _, ⟨rfl, rfl⟩, _, _, ⟨_, _, rfl, rfl⟩, _, db₅, h₅, _,
    _, ⟨rfl, rfl⟩, _, _, rfl, _, _, ⟨rfl, rfl⟩, _, _, rfl, _, _, rfl, -, rfl⟩ := h
  obtain rfl := completes_assertRevertPreservesReconciled h₁
  obtain rfl := completes_forM_restoreOriginal h₂
  obtain ⟨hs₃, ht₃, hr₃⟩ := completes_forM_deleteWholeTransactions h₃
  obtain ⟨hs₅, -, ht₅⟩ := clearAverageCostArtifacts_rows h₅
  refine ⟨_, hs₃, hr₃, ?_, ?_⟩
  · simp only [hs₅, decide_eq_true_eq, decide_not]
  · exact ht₅.trans ht₃

structure Cleared (db : Db) (a : String) (db' : Db) : Prop where
  transactions : db'.transactions = db.transactions.filter fun t => t.guid ∉ generatedTxGuids db a
  origin : ∀ s' ∈ db'.splits, ∃ s ∈ db.splits, s'.guid = s.guid ∧
    s'.quantity = (clearedAmounts db a s).quantity ∧ s'.value = (clearedAmounts db a s).value
  kept : ∀ s ∈ db.splits, s.txGuid ∉ generatedTxGuids db a →
    (s.accountGuid ≠ a ∨ ¬IsTagged db s ∨
      s.guid ∈ (accountSlots db a originalQuantityNum).map Slot.objGuid) →
    ∃ s' ∈ db'.splits, s'.guid = s.guid ∧
      s'.quantity = (clearedAmounts db a s).quantity ∧ s'.value = (clearedAmounts db a s).value

theorem cleared_clearLotAssignments (hnd : (db.splits.map Split.guid).Nodup)
    {r : ClearResult} (h : Completes (clearLotAssignments a) db r db') : Cleared db a db' := by
  obtain ⟨db₁, hrows⟩ := clearedRows_clearLotAssignments h
  refine ⟨hrows.transactions, fun s' hs' => ?_, fun s hs htx htag => ?_⟩
  · rw [hrows.splits] at hs'
    obtain ⟨s₁, hs₁, rfl⟩ := List.mem_map.1 hs'
    have hs₁ := (List.mem_filter.1 hs₁).1
    rw [hrows.splits₁] at hs₁
    obtain ⟨s, hs, rfl⟩ := List.mem_map.1 (List.mem_filter.1 hs₁).1
    refine ⟨s, hs, ?_⟩
    split <;> exact ⟨restore_guid _ s, rfl, rfl⟩
  · have hrow : SameRow s (clearedAmounts db a s) := sameRow_restore _ s
    have hs₁ : clearedAmounts db a s ∈ db₁.splits := by
      rw [hrows.splits₁]
      refine List.mem_filter.2 ⟨List.mem_map_of_mem hs, ?_⟩
      rw [hrow.txGuid_eq]
      exact decide_eq_true htx
    have hkeep : (clearedAmounts db a s).guid ∉
        (accountSlots db₁ a generatedSlot).map Slot.objGuid := by
      rw [hrow.guid_eq]
      intro hmem
      obtain ⟨x, hx, hxg⟩ := List.mem_map.1 hmem
      obtain ⟨hx, hp⟩ := List.mem_filter.1 hx
      obtain ⟨hname, hacc⟩ := of_decide_eq_true hp
      obtain ⟨hx, hstash⟩ := List.mem_filter.1 (hrows.slots₁ hx)
      rcases htag with hne | hnot | horig
      · obtain ⟨s₁', hs₁', hg⟩ := List.mem_map.1 hacc
        obtain ⟨hs₁', ha⟩ := List.mem_filter.1 hs₁'
        rw [hrows.splits₁] at hs₁'
        obtain ⟨s₂, hs₂, rfl⟩ := List.mem_map.1 (List.mem_filter.1 hs₁').1
        have hrow₂ : SameRow s₂ (clearedAmounts db a s₂) := sameRow_restore _ s₂
        have heq : s₂ = s :=
          List.inj_on_of_nodup_map hnd hs₂ hs (hrow₂.guid_eq.symm.trans (hg.trans hxg))
        subst heq
        exact hne (hrow₂.accountGuid_eq.symm.trans (of_decide_eq_true ha))
      · exact hnot ⟨x, hx, hxg, hname⟩
      · refine of_decide_eq_true hstash ⟨hxg ▸ horig, ?_⟩
        rw [hname]
        decide
    refine ⟨_, hrows.splits ▸ List.mem_map_of_mem
      (List.mem_filter.2 ⟨hs₁, decide_eq_true hkeep⟩), ?_⟩
    split <;> exact ⟨hrow.guid_eq, rfl, rfl⟩

/-! ## Safety -/

theorem restoredFrom_accountSlots (hg : g ∈ (db.splitsOfAccount a).map Split.guid) :
    restoredFrom db (accountSlots db a originalQuantityNum) g = (marked db).original g := by
  refine restoredFrom_eq_original ?_
  rw [accountSlots, List.find?_filter]
  refine congrFun (congrArg _ (funext fun r => ?_)) _
  by_cases h : r.objGuid = g
  · simp [h, hg]
  · simp [h]

theorem restoredFrom_accountSlots_of_notMem (hg : g ∉ (db.splitsOfAccount a).map Split.guid) :
    restoredFrom db (accountSlots db a originalQuantityNum) g = none := by
  have hnone : (accountSlots db a originalQuantityNum).find? (fun r => r.objGuid = g) = none := by
    refine List.find?_eq_none.2 fun r hr he => ?_
    have hmem := (of_decide_eq_true (List.mem_filter.1 hr).2).2
    exact hg (of_decide_eq_true he ▸ hmem)
  rw [restoredFrom, hnone]
  rfl

theorem exists_row_of_original {o : Amount × Amount} (h : L.original g = some o) :
    ∃ r ∈ L.marks, r.objGuid = g ∧ r.name = originalQuantityNum := by
  simp only [Marked.original, Option.bind_eq_bind, Option.bind_eq_some_iff] at h
  obtain ⟨n, hn, -⟩ := h
  obtain ⟨text, ht, -⟩ := Option.bind_eq_some_iff.1 hn
  obtain ⟨ht, -⟩ := Option.filter_eq_some_iff.1 ht
  obtain ⟨row, hrow, -⟩ := Option.bind_eq_some_iff.1 ht
  have hp := List.find?_some hrow
  exact ⟨row, List.mem_of_find?_eq_some hrow, of_decide_eq_true hp⟩

theorem hasMark_of_isTagged (h : IsTagged db s) : (marked db).HasMark s.guid := by
  obtain ⟨r, hr, hg, hn⟩ := h
  refine List.mem_map.2 ⟨r, List.mem_filter.2 ⟨hr, ?_⟩, hg⟩
  rw [hn]
  decide

/-- A transaction that a clear of an account takes for a generated one: it has a tagged split in the
account and as many tags on its splits as it has splits. -/
def LooksGenerated (db : Db) (a txGuid : String) : Prop :=
  (∃ s ∈ db.splitsOfTx txGuid, s.accountGuid = a ∧ IsTagged db s) ∧
    taggedCount db txGuid = (db.splitsOfTx txGuid).length

theorem mem_generatedTxGuids (hnd : (db.splits.map Split.guid).Nodup) {txGuid : String} :
    txGuid ∈ generatedTxGuids db a ↔ LooksGenerated db a txGuid := by
  simp only [generatedTxGuids, List.mem_filter, List.mem_eraseDups, List.mem_map, LooksGenerated,
    decide_eq_true_eq]
  refine and_congr_left fun _ => ⟨?_, ?_⟩
  · rintro ⟨s, ⟨hs, r, hr, hg⟩, rfl⟩
    obtain ⟨hr, hp⟩ := List.mem_filter.1 hr
    obtain ⟨hname, hacc⟩ := of_decide_eq_true hp
    obtain ⟨s', hs', hg'⟩ := List.mem_map.1 hacc
    obtain ⟨hs', ha⟩ := List.mem_filter.1 hs'
    obtain rfl := List.inj_on_of_nodup_map hnd hs' hs (hg'.trans hg)
    exact ⟨s', List.mem_filter.2 ⟨hs, by simp⟩, of_decide_eq_true ha, r, hr, hg, hname⟩
  · rintro ⟨s, hs, ha, r, hr, hg, hname⟩
    obtain ⟨hs, htx⟩ := List.mem_filter.1 hs
    refine ⟨s, ⟨hs, r, List.mem_filter.2 ⟨hr, decide_eq_true ⟨hname, ?_⟩⟩, hg⟩,
      of_decide_eq_true htx⟩
    exact hg ▸ List.mem_map_of_mem (List.mem_filter.2 ⟨hs, decide_eq_true ha⟩)

/-- Some split of the tables has the guid and the amounts of a split. -/
def HasAmounts (db : Db) (u : Split) : Prop :=
  ∃ s ∈ db.splits, s.guid = u.guid ∧ s.quantity = u.quantity ∧ s.value = u.value

/-- No transaction and no split of the user is deleted, and every split of the user has the amounts
it was authored with. -/
def UserSafe (db₀ db' : Db) : Prop :=
  (∀ t ∈ db₀.transactions, t ∈ db'.transactions) ∧ ∀ u ∈ db₀.splits, HasAmounts db' u

/-- No transaction of the user looks generated, and the splits of the user in other accounts have
the amounts they were authored with. -/
def SafeToClear (db₀ db : Db) (a : String) : Prop :=
  (∀ t ∈ db₀.transactions, ¬LooksGenerated db a t.guid) ∧
    ∀ u ∈ db₀.splits, u.accountGuid ≠ a → HasAmounts db u

theorem notMem_splitsOfAccount (hnd : (db.splits.map Split.guid).Nodup)
    (hs : s ∈ db.splits) (ha : s.accountGuid ≠ a) :
    s.guid ∉ (db.splitsOfAccount a).map Split.guid := by
  intro hmem
  obtain ⟨s', hs', hg⟩ := List.mem_map.1 hmem
  obtain ⟨hs', ha'⟩ := List.mem_filter.1 hs'
  obtain rfl := List.inj_on_of_nodup_map hnd hs' hs hg
  exact ha (of_decide_eq_true ha')

theorem clearedAmounts_of_ne (hnd : (db.splits.map Split.guid).Nodup)
    (hs : s ∈ db.splits) (ha : s.accountGuid ≠ a) : clearedAmounts db a s = s := by
  rw [clearedAmounts, restoredFrom_accountSlots_of_notMem (notMem_splitsOfAccount hnd hs ha)]
  rfl

/-- A clear keeps a split of the user in its account and gives it the amounts of the user. -/
theorem cleared_user_split (hclear : Cleared db a db') {u : Split} (hu : HoldsSplit (marked db) u)
    (htx : u.txGuid ∉ generatedTxGuids db a) (ha : u.accountGuid = a) : HasAmounts db' u := by
  obtain ⟨s, hs, hrow, hcase⟩ := hu
  have hmem : u.guid ∈ (db.splitsOfAccount a).map Split.guid := by
    rw [← hrow.guid_eq]
    refine List.mem_map_of_mem (List.mem_filter.2 ⟨hs, decide_eq_true ?_⟩)
    exact hrow.accountGuid_eq.trans ha
  have horiginal : restoredFrom db (accountSlots db a originalQuantityNum) s.guid =
      (marked db).original u.guid := by
    rw [hrow.guid_eq, restoredFrom_accountSlots hmem]
  rw [← hrow.txGuid_eq] at htx
  rcases hcase with ⟨hmark, hq, hv⟩ | horig
  · have hnone : clearedAmounts db a s = s := by
      rw [clearedAmounts, horiginal, original_eq_none_of_not_hasMark hmark]
      rfl
    obtain ⟨s', hs', hg, hq', hv'⟩ := hclear.kept s hs htx
      (.inr (.inl fun htag => hmark (hrow.guid_eq ▸ hasMark_of_isTagged htag)))
    rw [hnone] at hq' hv'
    exact ⟨s', hs', hg.trans hrow.guid_eq, hq'.trans hq, hv'.trans hv⟩
  · have hsome : (clearedAmounts db a s).quantity = u.quantity ∧
        (clearedAmounts db a s).value = u.value := by
      rw [clearedAmounts, horiginal, horig]
      exact ⟨rfl, rfl⟩
    obtain ⟨r, hr, hrg, hrn⟩ := exists_row_of_original horig
    obtain ⟨s', hs', hg, hq', hv'⟩ := hclear.kept s hs htx (.inr (.inr (List.mem_map.2
      ⟨r, List.mem_filter.2 ⟨(List.mem_filter.1 hr).1, decide_eq_true ⟨hrn, hrg ▸ hmem⟩⟩,
        hrg.trans hrow.guid_eq.symm⟩)))
    exact ⟨s', hs', hg.trans hrow.guid_eq, hq'.trans hsome.1, hv'.trans hsome.2⟩

/-- In a state that runs reach from a book of the user, a clear of an account is safe for the user
exactly when no transaction of the user looks generated and the splits of the user in other accounts
have the amounts they were authored with. -/
theorem clear_userSafe_iff (hinj : Function.Injective host.generateGuid)
    (hbook : UserAuthored host db₀) (hreach : Reachable host db₀ db) {a : String} {r : ClearResult}
    (h : Completes (clearLotAssignments a) db r db') :
    UserSafe db₀ db' ↔ SafeToClear db₀ db a := by
  have hholds := hreach.holds hinj hbook
  have hnd : (db.splits.map Split.guid).Nodup := hholds.sound.nodup
  have hclear := cleared_clearLotAssignments hnd h
  have htx (t : Transaction) (ht : t ∈ db₀.transactions) :
      t ∈ db'.transactions ↔ ¬LooksGenerated db a t.guid := by
    rw [hclear.transactions, List.mem_filter, decide_eq_true_eq, mem_generatedTxGuids hnd]
    exact and_iff_right (hholds.transactions ht)
  constructor
  · rintro ⟨hts, hus⟩
    refine ⟨fun t ht => (htx t ht).1 (hts t ht), fun u hu ha => ?_⟩
    obtain ⟨s', hs', hg', hq, hv⟩ := hus u hu
    obtain ⟨s, hs, hg, hq', hv'⟩ := hclear.origin s' hs'
    obtain ⟨s₁, hs₁, hrow, -⟩ := hholds.splits u hu
    obtain rfl := List.inj_on_of_nodup_map hnd hs₁ hs (hrow.guid_eq.trans (hg'.symm.trans hg))
    have hacc : s₁.accountGuid ≠ a := hrow.accountGuid_eq ▸ ha
    rw [clearedAmounts_of_ne hnd hs hacc] at hq' hv'
    exact ⟨s₁, hs, hrow.guid_eq, hq'.symm.trans hq, hv'.symm.trans hv⟩
  · rintro ⟨hts, hus⟩
    refine ⟨fun t ht => (htx t ht).2 (hts t ht), fun u hu => ?_⟩
    have hutx : u.txGuid ∉ generatedTxGuids db a := by
      obtain ⟨t, ht, he⟩ := List.mem_map.1 (hbook.sound.hasTransaction u hu)
      rw [mem_generatedTxGuids hnd, ← he]
      exact hts t ht
    by_cases ha : u.accountGuid = a
    · exact cleared_user_split hclear (hholds.splits u hu) hutx ha
    · obtain ⟨s₁, hs₁, hrow, -⟩ := hholds.splits u hu
      obtain ⟨s, hs, hg, hq, hv⟩ := hus u hu ha
      obtain rfl := List.inj_on_of_nodup_map hnd hs₁ hs (hrow.guid_eq.trans hg.symm)
      have hacc : s₁.accountGuid ≠ a := hrow.accountGuid_eq ▸ ha
      obtain ⟨s', hs', hg', hq', hv'⟩ := hclear.kept s₁ hs (hrow.txGuid_eq ▸ hutx) (.inl hacc)
      rw [clearedAmounts_of_ne hnd hs hacc] at hq' hv'
      exact ⟨s', hs', hg'.trans hg, hq'.trans hq, hv'.trans hv⟩

/-! ## A trade that a clear deletes -/

/-- Three units of one coin for two of another, at no value; the second coin has a price. -/
def trade : Db where
  accounts := [⟨"eth", "ETH", .stock, some "ETH", 1, none⟩,
    ⟨"btc", "BTC", .stock, some "BTC", 1, none⟩]
  transactions := [⟨"t", "usd", some 100, "swap"⟩]
  splits := [⟨"e", "t", "eth", "", "", .n, none, ⟨0, 100⟩, ⟨3, 1⟩, none⟩,
    ⟨"b", "t", "btc", "", "", .n, none, ⟨0, 100⟩, ⟨-2, 1⟩, none⟩]
  lots := []
  slots := []
  prices := [⟨"BTC", "usd", 50, ⟨1000, 100⟩⟩]
  history := []
  drawn := 0

/-- The trade after a run over the first coin. -/
def tradeAssigned : Db :=
  (stateAfter (assignWithStrategy plainHost "eth" .fifo) trade).getD trade

def tradeCleared : Db := (stateAfter (clearLotAssignments "eth") tradeAssigned).getD tradeAssigned

theorem userAuthored_trade : UserAuthored plainHost trade where
  sound := by
    refine ⟨by decide, ?_, by decide, by decide, by decide⟩
    exact Marked.UsesOnly.mono (P := fun g => g.toList.head? ≠ some 'g')
      ⟨by decide, by decide, by decide, by decide, by decide, by decide, by decide⟩
      fun g hg n _ => plainHost_ne hg n
  unmarked := rfl

theorem reachable_tradeAssigned : Reachable plainHost trade tradeAssigned := by
  have hrun : stateAfter (assignWithStrategy plainHost "eth" .fifo) trade = some tradeAssigned := by
    decide +kernel
  obtain ⟨r, hr⟩ := exists_completes hrun
  exact Reachable.start.assign hr

theorem completes_tradeCleared :
    ∃ r, Completes (clearLotAssignments "eth") tradeAssigned r tradeCleared := by
  refine exists_completes ?_
  decide +kernel

theorem clear_userSafe_iff_trade :
    UserSafe trade tradeCleared ↔ SafeToClear trade tradeAssigned "eth" := by
  obtain ⟨r, hr⟩ := completes_tradeCleared
  exact clear_userSafe_iff plainHost_injective userAuthored_trade reachable_tradeAssigned hr

/-- A clear deletes the trade of the user: the run tagged both legs when it valued them. -/
theorem clear_deletes_trade :
    UserAuthored plainHost trade ∧ Reachable plainHost trade tradeAssigned ∧
      (∃ r, Completes (clearLotAssignments "eth") tradeAssigned r tradeCleared) ∧
      tradeCleared.transactions = [] ∧ ¬UserSafe trade tradeCleared := by
  have hnil : tradeCleared.transactions = [] := by
    decide +kernel
  refine ⟨userAuthored_trade, reachable_tradeAssigned, completes_tradeCleared, hnil, fun hsafe => ?_⟩
  have hmem := hsafe.1 ⟨"t", "usd", some 100, "swap"⟩ (by simp [trade])
  rw [hnil] at hmem
  cases hmem

end Lots
