import GnucashWeb.Lib.Alone
import GnucashWeb.SimpleFin.Recording

/-!
# What a counted row stands for

A row that a run counts as done should be linked to a split of its account with its amount, and to
one that no other row is linked to.  The import rounds to two places, the manual match to the places
of the account, and the transfer match looks at the other account's split only.

`represents_iff` is the main result: after a run that nobody interleaves with, all counted rows are
represented exactly when the amounts that it imports or matches have no more places than are stored,
and every transfer that it pairs has its other split in the row's account, with the row's amount,
and is not linked to a row of that account yet.
-/

namespace SimpleFin.Import

open Ledger (Amount Split mathRound fromDecimal)
open Rows Statements

/-! ## What is promised -/

/-- A row is linked to a transaction with a split in its account and with its amount. -/
def IsRepresented (d : Done) (db : Db) : Prop :=
  d.txGuid ∈ db.transactions.map Edits.Transaction.guid ∧
    (∃ m ∈ db.metas, m.transactionGuid = some d.txGuid ∧ d.row.id ∈ m.ids) ∧
      ∃ s ∈ db.splits, s.guid = d.splitGuid ∧ s.txGuid = d.txGuid ∧
        s.accountGuid = d.accountGuid ∧ d.row.amount = some s.value.exact

/-- Every counted row is represented, and two rows are never linked to one split. -/
def Represents (db : Db) : Prop :=
  (∀ d ∈ db.done, IsRepresented d db) ∧
    db.done.Pairwise fun d d' => d.row.id ≠ d'.row.id → d.splitGuid ≠ d'.splitGuid

instance (d : Done) (db : Db) : Decidable (IsRepresented d db) :=
  inferInstanceAs (Decidable (_ ∧ (∃ m ∈ db.metas, _) ∧ ∃ s ∈ db.splits, _))

instance (db : Db) : Decidable (Represents db) :=
  inferInstanceAs (Decidable ((∀ d ∈ db.done, _) ∧ List.Pairwise _ _))

/-- An amount has so many decimal places at most. -/
def HasPlaces (amount : ℚ) (places : ℕ) : Prop := (amount * 10 ^ places).den = 1

/-- The amount of an imported or matched row has the places that are stored, and the other split of
a paired transfer is in the row's account, carries its amount, and no row of that account is linked
to the transaction yet. -/
def Fits (a : Receipt) (db _ : Db) : Prop :=
  match a with
  | .imported row _ => ∀ amount ∈ row.amount, HasPlaces amount 2
  | .linkedManually account row _ =>
    ∀ amount ∈ row.amount, HasPlaces amount (scuPrecision account.commodityScu)
  | .linkedTransfer account row c =>
    c.destAccountGuid = account.guid ∧
      (∃ s ∈ db.splits, s.guid = c.destSplitGuid ∧ row.amount = some s.value.exact) ∧
        ∀ d ∈ db.done, d.txGuid = c.transactionGuid → d.accountGuid ≠ account.guid
  | _ => True

instance (amount : ℚ) (places : ℕ) : Decidable (HasPlaces amount places) :=
  inferInstanceAs (Decidable (_ = _))

instance (a : Receipt) (db db' : Db) : Decidable (Fits a db db') :=
  match a with
  | .existing _ => isTrue trivial
  | .manualMatch _ => isTrue trivial
  | .transferMatch _ => isTrue trivial
  | .linkedManually _ row _ => inferInstanceAs (Decidable (∀ amount ∈ row.amount, _))
  | .linkedTransfer .. =>
    inferInstanceAs (Decidable (_ ∧ (∃ s ∈ db.splits, _) ∧ ∀ d ∈ db.done, _))
  | .imported row _ => inferInstanceAs (Decidable (∀ amount ∈ row.amount, _))
  | .refused => isTrue trivial

theorem mathRound_eq_iff (x : ℚ) : (mathRound x : ℚ) = x ↔ x.den = 1 := by
  constructor
  · intro h
    rw [← h]
    exact Rat.den_intCast _
  · intro h
    have hx : (x.num : ℚ) = x := (Rat.den_eq_one_iff x).1 h
    rw [← hx, mathRound, Int.floor_intCast_add]
    norm_num

theorem hasPlaces_neg {amount : ℚ} {places : ℕ} :
    HasPlaces (-amount) places ↔ HasPlaces amount places := by
  rw [HasPlaces, neg_mul, Rat.den_neg_eq_den, HasPlaces]

theorem exact_signedValue_iff (amount : ℚ) (places : ℕ) :
    (signedValue amount places).exact = amount ↔ HasPlaces amount places := by
  have hpow : ((10 : ℚ) ^ places) ≠ 0 := by positivity
  have hsize (x : ℚ) : (toNumDenom x places).exact = x ↔ HasPlaces x places := by
    rw [toNumDenom, fromDecimal, Amount.exact, HasPlaces, ← mathRound_eq_iff]
    push_cast
    rw [div_eq_iff hpow]
  unfold signedValue
  dsimp only
  split
  · next hpos => rw [abs_of_pos hpos, hsize]
  · next hneg =>
      rw [abs_of_nonpos (not_lt.1 hneg), ← hasPlaces_neg, ← hsize (-amount)]
      simp only [Amount.exact]
      push_cast
      rw [neg_div, neg_eq_iff_eq_neg]

/-! ## What the tables keep -/

/-- A row is linked to a split: its transaction records its id, and the split is in its account
unless it was paired. -/
structure IsLinked (d : Done) (s : Split) (db : Db) : Prop where
  transaction : d.txGuid ∈ db.transactions.map Edits.Transaction.guid
  recorded : ∃ m, db.meta? d.txGuid = some m ∧
    if d.way = .transferDedup then
      m.simplefinTransactionId ≠ none ∧ m.simplefinTransactionId2 = some d.row.id
    else m.simplefinTransactionId = some d.row.id
  split : s ∈ db.splits
  guid : s.guid = d.splitGuid
  txGuid : s.txGuid = d.txGuid
  account : d.way ≠ .transferDedup → s.accountGuid = d.accountGuid

/-- The keys of the tables, and a split for every counted row. -/
structure Sane (db : Db) : Prop where
  splits : (db.splits.map Split.guid).Nodup
  metas : Keyed db
  done : ∀ d ∈ db.done, ∃ s, IsLinked d s db

/-- What a link does to the tables before it is counted: transactions and splits are only added, and
the ids stay. -/
structure Extends (db db' : Db) : Prop where
  transactions : db.transactions ⊆ db'.transactions
  splits : db.splits ⊆ db'.splits
  splitKeys : (db'.splits.map Split.guid).Nodup
  metas : Keyed db'
  ids : KeepsIds db db'
  done : db'.done = db.done

variable {host : Host} {db db' : Db} {d : Done} {s t : Split} {guid : String} {m : Meta}

theorem meta?_eq_some (h : db.meta? guid = some m) :
    m ∈ db.metas ∧ m.transactionGuid = some guid :=
  ⟨List.mem_of_find?_eq_some h, by simpa using List.find?_some h⟩

theorem split_eq (hkeys : (db.splits.map Split.guid).Nodup) (hs : s ∈ db.splits)
    (ht : t ∈ db.splits) (h : s.guid = t.guid) : s = t :=
  List.inj_on_of_nodup_map hkeys hs ht h

theorem IsLinked.mem_ids (h : IsLinked d s db) :
    ∃ m ∈ db.metas, m.transactionGuid = some d.txGuid ∧ d.row.id ∈ m.ids := by
  obtain ⟨m, hm, hids⟩ := h.recorded
  obtain ⟨hmem, hguid⟩ := meta?_eq_some hm
  refine ⟨m, hmem, hguid, SimpleFin.Import.mem_ids.2 ?_⟩
  split at hids
  · exact .inr hids.2
  · exact .inl hids

theorem isRepresented_iff (hkeys : (db.splits.map Split.guid).Nodup) (h : IsLinked d s db) :
    IsRepresented d db ↔ s.accountGuid = d.accountGuid ∧ d.row.amount = some s.value.exact := by
  constructor
  · rintro ⟨-, -, s', hs', hguid, -, haccount, hamount⟩
    obtain rfl := split_eq hkeys hs' h.split (hguid.trans h.guid.symm)
    exact ⟨haccount, hamount⟩
  · rintro ⟨haccount, hamount⟩
    exact ⟨h.transaction, h.mem_ids, s, h.split, h.guid, h.txGuid, haccount, hamount⟩

theorem IsLinked.extends (h : IsLinked d s db) (hext : Extends db db') : IsLinked d s db' where
  transaction := List.map_subset _ hext.transactions h.transaction
  recorded := by
    obtain ⟨m, hm, hids⟩ := h.recorded
    obtain ⟨hmem, hguid⟩ := meta?_eq_some hm
    obtain ⟨m', hm', hguid', hfirst, hsecond⟩ := hext.ids m hmem
    refine ⟨m', hext.metas.meta?_eq hm' (hguid'.trans hguid), ?_⟩
    split at hids
    · next hway =>
        obtain ⟨x, hx⟩ := Option.ne_none_iff_exists'.1 hids.1
        rw [if_pos hway, hfirst x hx]
        exact ⟨by simp, hsecond _ hids.2⟩
    · next hway =>
        rw [if_neg hway]
        exact hfirst _ hids
  split := hext.splits h.split
  guid := h.guid
  txGuid := h.txGuid
  account := h.account

theorem IsLinked.report (h : IsLinked d s db) (e : Done) : IsLinked d s (report e db) :=
  ⟨h.transaction, h.recorded, h.split, h.guid, h.txGuid, h.account⟩

theorem sane_report (hsane : Sane db) (hext : Extends db db') (h : IsLinked d s db') :
    Sane (report d db') := by
  refine ⟨hext.splitKeys, hext.metas, fun e he => ?_⟩
  rcases List.mem_cons.1 he with rfl | he
  · exact ⟨s, h.report e⟩
  · rw [hext.done] at he
    obtain ⟨s', hs'⟩ := hsane.done e he
    exact ⟨s', (hs'.extends hext).report d⟩

theorem represents_report (hsane : Sane db) (hext : Extends db db') (h : IsLinked d s db') :
    Represents (report d db') ↔ Represents db ∧
      (s.accountGuid = d.accountGuid ∧ d.row.amount = some s.value.exact) ∧
        ∀ e ∈ db.done, d.row.id ≠ e.row.id → d.splitGuid ≠ e.splitGuid := by
  have hold : ∀ e ∈ db.done, (IsRepresented e (report d db') ↔ IsRepresented e db) := by
    intro e he
    obtain ⟨s', hs'⟩ := hsane.done e he
    have hafter : IsRepresented e (report d db') ↔
        s'.accountGuid = e.accountGuid ∧ e.row.amount = some s'.value.exact :=
      isRepresented_iff hext.splitKeys ((hs'.extends hext).report d)
    exact hafter.trans (isRepresented_iff hsane.splits hs').symm
  have hnew : IsRepresented d (report d db') ↔
      s.accountGuid = d.accountGuid ∧ d.row.amount = some s.value.exact :=
    isRepresented_iff hext.splitKeys (h.report d)
  have hdone : (report d db').done = d :: db.done := by rw [report, hext.done]
  unfold Represents
  rw [hdone, List.forall_mem_cons, List.pairwise_cons, hnew, forall₂_congr hold]
  tauto

variable {zone : TimeZone} {sync : Sync} {account : MappedAccount} {row : FeedTransaction}
  {amount : ℚ} {p : Posting} {a : Receipt}

theorem alone_claim : (claimSimpleFinTransactionId guid).alone (fun _ => true) db =
    some (.ok (!db.metas.any fun m => m.simplefinTransactionId = some guid, db)) := by
  simp [claimSimpleFinTransactionId, alone_bind]

theorem alone_linkManualMatch {m : ManualMatch}
    (h : (linkManualMatch host account row m).alone (fun _ => true) db = some (.ok (a, db'))) :
    (a = .refused ∧ db' = db) ∨
      (a = .linkedManually account row m ∧ ∃ v, recordManually host row m db = some v ∧
        db' = report ⟨.manualReconciliation, row.toRow, account.guid, m.transactionGuid,
          m.splitGuid⟩ v) := by
  unfold linkManualMatch at h
  rw [alone_bind, alone_claim, Option.bind_some] at h
  dsimp only at h
  split at h
  · cases hv : recordManually host row m db with
    | none => simp [alone_bind, hv] at h
    | some v =>
      simp only [alone_bind, alone_tryWrite, hv, alone_write, alone_pure, Option.map_some,
        Option.bind_some, Option.some.injEq, Except.ok.injEq, Prod.mk.injEq] at h
      exact .inr ⟨h.1.symm, v, rfl, h.2.symm⟩
  · simp only [alone_pure, Option.some.injEq, Except.ok.injEq, Prod.mk.injEq] at h
    exact .inl ⟨h.1.symm, h.2.symm⟩

variable {c : TransferDedupCandidate}

theorem alone_linkTransferDedupMatch
    (h : (linkTransferDedupMatch host account row c).alone (fun _ => true) db =
      some (.ok (a, db'))) :
    a = .linkedTransfer account row c ∧
      ∃ v, updateMeta host c.transactionGuid (Meta.paired row) db = some v ∧
        db' = report ⟨.transferDedup, row.toRow, account.guid, c.transactionGuid,
          c.destSplitGuid⟩ v := by
  unfold linkTransferDedupMatch at h
  cases hv : updateMeta host c.transactionGuid (Meta.paired row) db with
  | none => simp [alone_bind, hv] at h
  | some v =>
    simp only [alone_bind, alone_tryWrite, hv, alone_write, alone_pure, Option.map_some,
      Option.bind_some, Option.some.injEq, Except.ok.injEq, Prod.mk.injEq] at h
    exact ⟨h.1.symm, v, rfl, h.2.symm⟩

theorem alone_importTransaction
    (h : (importTransaction host zone account row amount p).alone (fun _ => true) db =
      some (.ok (a, db'))) :
    (a = .refused ∧ db' = db) ∨
      (a = .imported row p ∧ ∃ t : Edits.Transaction, t.guid = p.txGuid ∧ ∃ memo s₂ v₁ v₂ v₃ v₄,
        insertTransaction t db = some v₁ ∧
          insertSplit (newSplit p.split1Guid p.txGuid (account.target p) memo
            (signedValue amount 2)) v₁ = some v₂ ∧ insertSplit s₂ v₂ = some v₃ ∧
              insertMeta host (buildImportedTransactionMeta row p.txGuid p.confidence) v₃ =
                some v₄ ∧ db' =
                  report ⟨.imported, row.toRow, account.target p, p.txGuid, p.split1Guid⟩ v₄) := by
  unfold importTransaction at h
  dsimp only at h
  rw [alone_bind, alone_claim, Option.bind_some] at h
  dsimp only at h
  split at h
  · simp only [alone_bind, alone_tryWrite, alone_write, alone_pure] at h
    obtain ⟨r₁, hr₁, h⟩ := Option.bind_eq_some_iff.1 h
    obtain ⟨v₁, h₁, rfl⟩ := Option.map_eq_some_iff.1 hr₁
    obtain ⟨r₂, hr₂, h⟩ := Option.bind_eq_some_iff.1 h
    obtain ⟨v₂, h₂, rfl⟩ := Option.map_eq_some_iff.1 hr₂
    obtain ⟨r₃, hr₃, h⟩ := Option.bind_eq_some_iff.1 h
    obtain ⟨v₃, h₃, rfl⟩ := Option.map_eq_some_iff.1 hr₃
    obtain ⟨r₄, hr₄, h⟩ := Option.bind_eq_some_iff.1 h
    obtain ⟨v₄, h₄, rfl⟩ := Option.map_eq_some_iff.1 hr₄
    simp only [Option.bind_some, Option.some.injEq, Except.ok.injEq, Prod.mk.injEq] at h
    exact .inr ⟨h.1.symm, _, rfl, _, _, v₁, v₂, v₃, v₄, h₁, h₂, h₃, h₄, h.2.symm⟩
  · simp only [alone_pure, Option.some.injEq, Except.ok.injEq, Prod.mk.injEq] at h
    exact .inl ⟨h.1.symm, h.2.symm⟩

/-! ### What the writes extend -/

theorem KeepsIds.refl : KeepsIds db db := fun m hm => ⟨m, hm, rfl, fun _ h => h, fun _ h => h⟩

theorem KeepsIds.trans {db'' : Db} (h : KeepsIds db db') (h' : KeepsIds db' db'') :
    KeepsIds db db'' := by
  intro m hm
  obtain ⟨m', hm', hguid, hfirst, hsecond⟩ := h m hm
  obtain ⟨m'', hm'', hguid', hfirst', hsecond'⟩ := h' m' hm'
  exact ⟨m'', hm'', hguid'.trans hguid, fun x hx => hfirst' x (hfirst x hx),
    fun x hx => hsecond' x (hsecond x hx)⟩

theorem Extends.trans {db'' : Db} (h : Extends db db') (h' : Extends db' db'') :
    Extends db db'' where
  transactions := List.Subset.trans h.transactions h'.transactions
  splits := List.Subset.trans h.splits h'.splits
  splitKeys := h'.splitKeys
  metas := h'.metas
  ids := h.ids.trans h'.ids
  done := h'.done.trans h.done

theorem extends_insertTransaction {t : Edits.Transaction}
    (hsplits : (db.splits.map Split.guid).Nodup) (hmetas : Keyed db)
    (h : insertTransaction t db = some db') : Extends db db' ∧ t ∈ db'.transactions := by
  unfold insertTransaction at h
  split at h
  · cases h
  · cases h
    exact ⟨⟨List.subset_append_left .., List.Subset.refl _, hsplits, hmetas, .refl, rfl⟩, by simp⟩

theorem extends_insertSplit (hsplits : (db.splits.map Split.guid).Nodup) (hmetas : Keyed db)
    (h : insertSplit s db = some db') :
    Extends db db' ∧ s ∈ db'.splits ∧ s.guid ∉ db.splits.map Split.guid := by
  unfold insertSplit at h
  split at h
  · cases h
  · next hnew =>
      cases h
      refine ⟨⟨List.Subset.refl _, List.subset_append_left .., ?_, hmetas, .refl, rfl⟩, by simp,
        hnew⟩
      rw [List.map_append, List.map_singleton, ← List.concat_eq_append]
      exact hsplits.concat hnew

theorem extends_insertMeta (hsplits : (db.splits.map Split.guid).Nodup) (hmetas : Keyed db)
    (h : insertMeta host m db = some db') : Extends db db' ∧ m ∈ db'.metas := by
  have hkeys := keyed_insertMeta h hmetas
  have hkeeps := keepsIds_insertMeta h
  obtain ⟨rfl, -⟩ := insertMeta_eq_some h
  exact ⟨⟨List.Subset.refl _, List.Subset.refl _, hsplits, hkeys, hkeeps, rfl⟩, by simp⟩

theorem extends_updateMetas {f : Meta → Meta} (hsane : Sane db) (hm : db.meta? guid = some m)
    (hguid : ∀ m, (f m).transactionGuid = m.transactionGuid)
    (hfirst : ∀ x ∈ m.simplefinTransactionId, (f m).simplefinTransactionId = some x)
    (hsecond : ∀ x ∈ m.simplefinTransactionId2, (f m).simplefinTransactionId2 = some x) :
    Extends db (updateMetas guid f db) ∧ (updateMetas guid f db).meta? guid = some (f m) := by
  refine ⟨⟨List.Subset.refl _, List.Subset.refl _, hsane.splits,
    keyed_updateMetas hguid hsane.metas, keepsIds_updateMetas hsane.metas hguid fun m' hm' => ?_,
    rfl⟩, find?_editAt hguid hm⟩
  obtain rfl := Option.some.inj (hm'.symm.trans hm)
  exact ⟨hfirst, hsecond⟩

/-- A manual match is a free transaction with a split of the account that has the stored value. -/
structure FoundManually (account : MappedAccount) (amount : ℚ) (m : ManualMatch) (s : Split)
    (db : Db) : Prop where
  transaction : m.transactionGuid ∈ db.transactions.map Edits.Transaction.guid
  free : IsFree (db.meta? m.transactionGuid)
  hasMeta : m.hasMeta = (db.meta? m.transactionGuid).isSome
  split : s ∈ db.splits
  guid : s.guid = m.splitGuid
  txGuid : s.txGuid = m.transactionGuid
  owner : s.accountGuid = account.guid
  value : s.value = signedValue amount (scuPrecision account.commodityScu)

theorem foundManually {m : ManualMatch}
    (h : selectManualReconciliationMatch host row (manualCandidates db host row account amount) =
      some m) : ∃ s, FoundManually account amount m s db := by
  unfold selectManualReconciliationMatch at h
  obtain ⟨c, hc, rfl⟩ := Option.map_eq_some_iff.1 h
  have hmem : c ∈ manualCandidates db host row account amount :=
    (List.mem_filter.1 ((List.mem_insertionSort _).1 (List.mem_of_mem_head? hc))).1
  obtain ⟨t, ht, hct⟩ := List.mem_flatMap.1 hmem
  have ht : t ∈ db.transactions := (List.mem_insertionSort _).1 ht
  unfold candidatesOf at hct
  split at hct
  · cases hct
  · split at hct
    · next hcond =>
        obtain ⟨s, hs, rfl⟩ := List.mem_map.1 hct
        obtain ⟨hs, hsplit⟩ := List.mem_filter.1 hs
        obtain ⟨hs, htx⟩ := List.mem_filter.1 hs
        obtain ⟨haccount, hvalue⟩ : s.accountGuid = account.guid ∧ s.value = _ := by
          simpa using hsplit
        exact ⟨s, List.mem_map_of_mem ht, hcond.2, rfl, hs, rfl, by simpa using htx, haccount,
          hvalue⟩
    · cases hct

/-- A transfer match is a transaction with one id, of two splits: one in another account, and the
other one. -/
structure FoundTransfer (account : MappedAccount) (row : FeedTransaction)
    (c : TransferDedupCandidate) (s₁ s : Split) (db : Db) : Prop where
  transaction : c.transactionGuid ∈ db.transactions.map Edits.Transaction.guid
  recorded : ∃ m, db.meta? c.transactionGuid = some m ∧ HasOneId row m
  other : s₁.accountGuid ≠ account.guid
  split : s ∈ db.splits
  guid : s.guid = c.destSplitGuid
  txGuid : s.txGuid = c.transactionGuid
  owner : s.accountGuid = c.destAccountGuid
  two : ∀ t ∈ db.splits, t.txGuid = c.transactionGuid → t.guid = s₁.guid ∨ t.guid = s.guid
  first : s₁ ∈ db.splits

theorem eq_or_eq_of_length_two {α κ : Type} {key : α → κ} {l : List α} (hl : l.length = 2)
    {x y z : α} (hx : x ∈ l) (hy : y ∈ l) (hz : z ∈ l) (hne : key y ≠ key x) : z = x ∨ z = y := by
  obtain ⟨a, b, rfl⟩ := List.length_eq_two.1 hl
  simp only [List.mem_cons, List.not_mem_nil, or_false] at hx hy hz
  rcases hx with rfl | rfl <;> rcases hy with rfl | rfl <;> rcases hz with rfl | rfl <;> simp_all

theorem foundTransfer {mapped : List String} (h : selectTransferDedupMatch host row
      (transferCandidates db host row account mapped amount) = some c) :
    ∃ s₁ s, FoundTransfer account row c s₁ s db := by
  unfold selectTransferDedupMatch at h
  have hmem : c ∈ transferCandidates db host row account mapped amount :=
    (List.mem_filter.1 ((List.mem_insertionSort _).1 (List.mem_of_mem_head? h))).1
  obtain ⟨t, ht, hct⟩ := List.mem_flatMap.1 hmem
  have ht : t ∈ db.transactions := (List.mem_insertionSort _).1 ht
  have hct := List.mem_of_mem_head? (Option.mem_toList.1 hct)
  unfold pairsOf at hct
  split at hct
  · next postDate m hdate hmeta =>
      dsimp only at hct
      split at hct
      · next hcond =>
          obtain ⟨-, hone, htwo⟩ := hcond
          obtain ⟨s₁, hs₁, hc⟩ := List.mem_flatMap.1 hct
          obtain ⟨s, hs, rfl⟩ := List.mem_map.1 hc
          obtain ⟨hs₁, hother⟩ := List.mem_filter.1 hs₁
          obtain ⟨hs, hne⟩ := List.mem_filter.1 hs
          have hother : s₁.accountGuid ≠ account.guid := by
            simp only [List.mem_filter, decide_eq_true_eq] at hother
            exact hother.1.2
          have hne : s.guid ≠ s₁.guid := by simpa using hne
          have hmem {t' : Split} (ht' : t' ∈ db.splitsOfTx t.guid) :
              t' ∈ db.splits ∧ t'.txGuid = t.guid := by
            simpa [Db.splitsOfTx] using ht'
          refine ⟨s₁, s, List.mem_map_of_mem ht, ⟨m, hmeta, hone⟩, hother, (hmem hs).1, rfl,
            (hmem hs).2, rfl, fun t' ht' htx => ?_, (hmem hs₁).1⟩
          have ht' : t' ∈ db.splitsOfTx t.guid := by
            simpa [Db.splitsOfTx] using ⟨ht', htx⟩
          rcases eq_or_eq_of_length_two htwo hs₁ hs ht' hne with rfl | rfl
          · exact .inl rfl
          · exact .inr rfl
      · cases hct
  · cases hct

/-! ### What is represented after a link -/

/-- The tables stay sane, and the counted rows are represented when they were and the link fits. -/
def Judged (a : Receipt) (db db' : Db) : Prop :=
  Sane db' ∧ (Represents db' ↔ Represents db ∧ Fits a db db')

theorem judged_report (hsane : Sane db) (hext : Extends db db') (h : IsLinked d s db')
    (hfits : (s.accountGuid = d.accountGuid ∧ d.row.amount = some s.value.exact) ∧
      (∀ e ∈ db.done, d.row.id ≠ e.row.id → d.splitGuid ≠ e.splitGuid) ↔
        Fits a db (report d db')) :
    Judged a db (report d db') :=
  ⟨sane_report hsane hext h,
    (represents_report hsane hext h).trans (and_congr_right fun _ => hfits)⟩

theorem amount_eq_iff {x : Option ℚ} {places : ℕ} (hx : x = some amount) :
    x = some (signedValue amount places).exact ↔ ∀ y ∈ x, HasPlaces y places := by
  subst hx
  rw [Option.some_inj, eq_comm, exact_signedValue_iff]
  simp

theorem splitGuid_ne_of_free (hsane : Sane db) (hs : s ∈ db.splits)
    (hfree : (db.meta? s.txGuid).bind Meta.simplefinTransactionId = none) {e : Done}
    (he : e ∈ db.done) : s.guid ≠ e.splitGuid := by
  intro heq
  obtain ⟨s', hs'⟩ := hsane.done e he
  obtain rfl := split_eq hsane.splits hs hs'.split (heq.trans hs'.guid.symm)
  obtain ⟨m, hm, hids⟩ := hs'.recorded
  rw [hs'.txGuid, hm, Option.bind_some] at hfree
  split at hids
  · exact hids.1 hfree
  · rw [hfree] at hids
    cases hids

theorem judged_linkManualMatch {m : ManualMatch} (hsane : Sane db)
    (hamount : row.amount = some amount) (hfound : FoundManually account amount m s db)
    (h : (linkManualMatch host account row m).alone (fun _ => true) db = some (.ok (a, db'))) :
    Judged a db db' := by
  rcases alone_linkManualMatch h with ⟨rfl, rfl⟩ | ⟨rfl, v, hv, rfl⟩
  · exact ⟨hsane, (and_iff_left trivial).symm⟩
  · obtain ⟨hext, m', hm', hid⟩ : Extends db v ∧ ∃ m', v.meta? m.transactionGuid = some m' ∧
        m'.simplefinTransactionId = some row.id := by
      unfold recordManually at hv
      have hmeta := hfound.hasMeta
      split at hv
      · next hhas =>
          rw [eq_of_checkIndex hv]
          rw [hhas] at hmeta
          obtain ⟨old, hold⟩ := Option.isSome_iff_exists.1 hmeta.symm
          have hfree := hfound.free.1
          rw [hold, Option.bind_some] at hfree
          obtain ⟨hext, hnew⟩ := extends_updateMetas (f := Meta.matched row m) hsane hold
            (fun _ => rfl) (fun x hx => by rw [hfree] at hx; cases hx) fun x hx => hx
          exact ⟨hext, _, hnew, rfl⟩
      · obtain ⟨hext, hmem⟩ := extends_insertMeta hsane.splits hsane.metas hv
        exact ⟨hext, _, hext.metas.meta?_eq hmem rfl, rfl⟩
    have hlinked : IsLinked ⟨.manualReconciliation, row.toRow, account.guid, m.transactionGuid,
        m.splitGuid⟩ s v :=
      ⟨List.map_subset _ hext.transactions hfound.transaction, ⟨m', hm', hid⟩,
        hext.splits hfound.split, hfound.guid, hfound.txGuid, fun _ => hfound.owner⟩
    refine judged_report hsane hext hlinked ?_
    have hfree := hfound.free.1
    rw [← hfound.txGuid] at hfree
    have hnever : ∀ e ∈ db.done, row.id ≠ e.row.id → m.splitGuid ≠ e.splitGuid := fun e he _ =>
      hfound.guid ▸ splitGuid_ne_of_free hsane hfound.split hfree he
    refine (and_iff_left hnever).trans ((and_iff_right hfound.owner).trans ?_)
    rw [hfound.value]
    exact amount_eq_iff hamount

theorem judged_importTransaction (hsane : Sane db) (hamount : row.amount = some amount)
    (h : (importTransaction host zone account row amount p).alone (fun _ => true) db =
      some (.ok (a, db'))) :
    Judged a db db' := by
  rcases alone_importTransaction h with
    ⟨rfl, rfl⟩ | ⟨rfl, t, ht, memo, s₂, v₁, v₂, v₃, v₄, h₁, h₂, h₃, h₄, rfl⟩
  · exact ⟨hsane, (and_iff_left trivial).symm⟩
  · obtain ⟨e₁, htx⟩ := extends_insertTransaction hsane.splits hsane.metas h₁
    obtain ⟨e₂, hsplit, hfresh⟩ := extends_insertSplit e₁.splitKeys e₁.metas h₂
    obtain ⟨e₃, -, -⟩ := extends_insertSplit e₂.splitKeys e₂.metas h₃
    obtain ⟨e₄, hmeta⟩ := extends_insertMeta e₃.splitKeys e₃.metas h₄
    have hlate := e₃.trans e₄
    have hmem : p.txGuid ∈ v₄.transactions.map Edits.Transaction.guid := by
      rw [← ht]
      exact List.mem_map_of_mem (hlate.transactions (e₂.transactions htx))
    have hlinked : IsLinked ⟨.imported, row.toRow, account.target p, p.txGuid, p.split1Guid⟩ _ v₄ :=
      ⟨hmem, ⟨_, e₄.metas.meta?_eq hmeta rfl, rfl⟩, hlate.splits hsplit, rfl, rfl, fun _ => rfl⟩
    refine judged_report hsane (e₁.trans (e₂.trans hlate)) hlinked ?_
    have hnever : ∀ e ∈ db.done, row.id ≠ e.row.id → p.split1Guid ≠ e.splitGuid := by
      intro e he _ heq
      obtain ⟨s', hs'⟩ := hsane.done e he
      exact hfresh (List.mem_map.2 ⟨s', e₁.splits hs'.split, hs'.guid.trans heq.symm⟩)
    refine (and_iff_left hnever).trans ((and_iff_right rfl).trans ?_)
    exact amount_eq_iff hamount

/-- A row that was linked to the transaction of a transfer match is another one, and linked to a
split of its own account. -/
theorem earlier_of_found {s₁ : Split} (hsane : Sane db)
    (hfound : FoundTransfer account row c s₁ s db) {e : Done} (he : e ∈ db.done)
    (htx : e.txGuid = c.transactionGuid) :
    e.row.id ≠ row.id ∧ ∃ s' ∈ db.splits, s'.guid = e.splitGuid ∧ s'.txGuid = e.txGuid ∧
      s'.accountGuid = e.accountGuid := by
  obtain ⟨s', hs'⟩ := hsane.done e he
  obtain ⟨m, hm, hids⟩ := hs'.recorded
  obtain ⟨old, hold, hfirst, hsecond, -⟩ := hfound.recorded
  rw [htx, hold] at hm
  obtain rfl := Option.some.inj hm
  split at hids
  · rw [hsecond] at hids
    cases hids.2
  · next hway =>
      refine ⟨?_, s', hs'.split, hs'.guid, hs'.txGuid, hs'.account hway⟩
      rw [hids] at hfirst
      simpa using hfirst

theorem judged_linkTransferDedupMatch {s₁ : Split} (hsane : Sane db)
    (hfound : FoundTransfer account row c s₁ s db)
    (h : (linkTransferDedupMatch host account row c).alone (fun _ => true) db =
      some (.ok (a, db'))) :
    Judged a db db' := by
  obtain ⟨rfl, v, hv, rfl⟩ := alone_linkTransferDedupMatch h
  obtain ⟨old, hold, hfirst, hsecond, -⟩ := hfound.recorded
  unfold updateMeta at hv
  rw [hold, Option.isSome_some, if_pos rfl] at hv
  obtain ⟨hext, hnew⟩ := extends_updateMetas (f := Meta.paired row) hsane hold (fun _ => rfl)
    (fun x hx => hx) fun x hx => by rw [hsecond] at hx; cases hx
  rw [← eq_of_checkIndex hv] at hext hnew
  obtain ⟨x, hx, hne⟩ : ∃ x, old.simplefinTransactionId = some x ∧ x ≠ row.id := by
    simpa [Option.any_eq_true] using hfirst
  have hlinked : IsLinked ⟨.transferDedup, row.toRow, account.guid, c.transactionGuid,
      c.destSplitGuid⟩ s v :=
    ⟨List.map_subset _ hext.transactions hfound.transaction,
      ⟨_, hnew, by rw [if_pos rfl]; exact ⟨by simp [Meta.paired, hx], rfl⟩⟩,
      hext.splits hfound.split, hfound.guid, hfound.txGuid, fun h => absurd rfl h⟩
  refine judged_report hsane hext hlinked ?_
  constructor
  · rintro ⟨⟨haccount, hamount⟩, hnever⟩
    refine ⟨hfound.owner.symm.trans haccount, ⟨s, hfound.split, hfound.guid, hamount⟩, ?_⟩
    intro e he htx heq
    obtain ⟨hrow, s', hs', hguid, htx', howner⟩ := earlier_of_found hsane hfound he htx
    rcases hfound.two s' hs' (htx'.trans htx) with hfirst' | hsame
    · obtain rfl := split_eq hsane.splits hs' hfound.first hfirst'
      exact hfound.other (howner.trans heq)
    · exact hnever e he (Ne.symm hrow) (hfound.guid.symm.trans (hsame.symm.trans hguid))
  · rintro ⟨hdest, ⟨s', hs', hguid, hamount⟩, hothers⟩
    obtain rfl := split_eq hsane.splits hs' hfound.split (hguid.trans hfound.guid.symm)
    refine ⟨⟨hfound.owner.trans hdest, hamount⟩, fun e he _ heq => ?_⟩
    obtain ⟨t, ht⟩ := hsane.done e he
    obtain rfl := split_eq hsane.splits hs' ht.split (hguid.trans (heq.trans ht.guid.symm))
    have htx : e.txGuid = c.transactionGuid := ht.txGuid.symm.trans hfound.txGuid
    obtain ⟨-, s'', hs'', hguid'', -, howner⟩ := earlier_of_found hsane hfound he htx
    obtain rfl := split_eq hsane.splits hs'' hs' (hguid''.trans (heq.symm.trans hguid.symm))
    exact hothers e he htx (howner.symm.trans (hfound.owner.trans hdest))

/-! ## A run -/

variable {existing : List String} {go stop : List String → SyncScript}

/-- From sane tables on, a script leaves all counted rows represented exactly when they were and
each of its links fits. -/
def Decides (script : SyncScript) : Prop :=
  ∀ db, Sane db → script.Tracks (fun _ _ => true) Represents Fits db

theorem decides_importRow (hamount : row.amount = some amount)
    (hgo : ∀ existing, Decides (go existing)) :
    Decides (importRow host sync account row amount p existing go) := by
  intro db hsane
  refine tracks_exec (fun a db' h => ?_) fun e => ?_
  · obtain ⟨hsane', hiff⟩ := judged_importTransaction hsane hamount h
    exact ⟨hiff, hgo _ db' hsane'⟩
  · cases e with
    | duplicate => exact hgo _ db hsane
    | other => exact hgo _ db hsane

theorem decides_transferRow (hamount : row.amount = some amount)
    (hgo : ∀ existing, Decides (go existing)) (hstop : ∀ existing, Decides (stop existing)) :
    Decides (transferRow host sync account row amount p existing go stop) := by
  intro db hsane
  unfold transferRow
  split
  · refine tracks_exec (fun a db' h => ?_) fun e => hstop _ db hsane
    simp only [findTransferDedupMatch, alone_select, Option.some.injEq, Except.ok.injEq,
      Prod.mk.injEq] at h
    obtain ⟨rfl, rfl⟩ := h
    refine ⟨(and_iff_left trivial).symm, ?_⟩
    cases hmatch : selectTransferDedupMatch host row
      (transferCandidates db host row account sync.mapped amount) with
    | none => exact decides_importRow hamount hgo db hsane
    | some c =>
      obtain ⟨s₁, s, hfound⟩ := foundTransfer hmatch
      refine tracks_exec (fun a db' h => ?_) fun e => hstop _ db hsane
      obtain ⟨hsane', hiff⟩ := judged_linkTransferDedupMatch hsane hfound h
      exact ⟨hiff, hgo _ db' hsane'⟩
  · exact decides_importRow hamount hgo db hsane

theorem decides_syncRow (hgo : ∀ existing, Decides (go existing))
    (hstop : ∀ existing, Decides (stop existing)) :
    Decides (syncRow host sync account row p existing go stop) := by
  intro db hsane
  unfold syncRow
  split_ifs with hexist hlocked himport
  · exact hgo _ db hsane
  · exact hgo _ db hsane
  · exact hgo _ db hsane
  · obtain ⟨amount, hamount⟩ : ∃ amount, row.amount = some amount := by
      cases h : row.amount with
      | none => simp [Row.isImportable, h] at himport
      | some amount => exact ⟨amount, rfl⟩
    have hget : row.amount.getD 0 = amount := by simp [hamount]
    dsimp only
    rw [hget]
    have htransfer : ∀ existing, Decides
        (transferRow host sync account row amount p existing go stop) :=
      fun existing => decides_transferRow hamount hgo hstop
    refine tracks_exec (fun a db' h => ?_) fun e => hstop _ db hsane
    simp only [findManualMatch, alone_select, Option.some.injEq, Except.ok.injEq,
      Prod.mk.injEq] at h
    obtain ⟨rfl, rfl⟩ := h
    refine ⟨(and_iff_left trivial).symm, ?_⟩
    cases hmatch : selectManualReconciliationMatch host row
      (manualCandidates db host row account amount) with
    | none => exact htransfer _ db hsane
    | some m =>
      obtain ⟨s, hfound⟩ := foundManually hmatch
      refine tracks_exec (fun a db' h => ?_) fun e => hstop _ db hsane
      obtain ⟨hsane', hiff⟩ := judged_linkManualMatch hsane hamount hfound h
      refine ⟨hiff, ?_⟩
      rcases alone_linkManualMatch h with ⟨rfl, -⟩ | ⟨rfl, -⟩
      · exact htransfer _ db' hsane'
      · exact hgo _ db' hsane'

theorem decides_syncRows {rows : List (FeedTransaction × Posting)}
    (hstop : ∀ existing, Decides (stop existing)) :
    Decides (syncRows host sync account rows existing stop) := by
  induction rows generalizing existing with
  | nil => exact hstop existing
  | cons r rows ih => exact decides_syncRow (fun existing => ih) hstop

theorem decides_syncAccounts (accounts : List (MappedAccount × List (FeedTransaction × Posting))) :
    ∀ existing, Decides (syncAccounts host sync accounts existing) := by
  induction accounts with
  | nil => exact fun _ _ _ => tracks_stop
  | cons a accounts ih => exact fun existing => decides_syncRows ih

/-- After a run on its own, with any of its statements failing, every counted row is represented
exactly when that was so before and every link of the run fits. -/
theorem represents_iff (host : Host) (sync : Sync) (failures : List (Option Failure)) (db : Db)
    (hsane : Sane db) :
    Represents ((runSimpleFinSync host sync).final (fun _ _ => true) failures db) ↔
      Represents db ∧ (runSimpleFinSync host sync).Each (fun _ _ => true) Fits failures db := by
  refine tracks_exec (fun a db' h => ?_) (fun e => tracks_stop) failures
  simp only [loadExistingSimpleFinIds, alone_select, Option.some.injEq, Except.ok.injEq,
    Prod.mk.injEq] at h
  obtain ⟨rfl, rfl⟩ := h
  exact ⟨(and_iff_left trivial).symm, decides_syncAccounts _ _ db hsane⟩

/-! ## Transfers of one amount -/

def noTransactions : Db := ⟨[], [], [], []⟩

/-- A withdrawal that is imported with the other side in savings, and the deposit of it. -/
def bothSides : Sync where
  zone := gmt
  lockDate := none
  accounts := [(checking, [(feedRow "TRN-1" "ACT-1" 0 (-10), posting "t1" "s1" "s2" "savings")]),
    (savings, [(feedRow "TRN-2" "ACT-2" 1 10, posting "t2" "s3" "s4" "checking")])]

def twoWithdrawals : Sync where
  zone := gmt
  lockDate := none
  accounts := [(checking, [(feedRow "TRN-1" "ACT-1" 0 (-10), posting "t1" "s1" "s2" "savings"),
    (feedRow "TRN-3" "ACT-1" 1 (-10), posting "t3" "s5" "s6" "savings")]), (savings, [])]

def noFailures : List (Option Failure) := List.replicate 12 none

theorem sane_noTransactions : Sane noTransactions :=
  ⟨by decide, by decide, fun _ h => by cases h⟩

theorem represents_bothSides :
    Represents ((runSimpleFinSync threeDays bothSides).final (fun _ _ => true) noFailures
      noTransactions) :=
  (represents_iff threeDays bothSides noFailures noTransactions sane_noTransactions).2
    ⟨by decide, by decide +kernel⟩

/-- The second withdrawal is taken for the other side of the first, and stands nowhere in the
book. -/
theorem represents_twoWithdrawals_false :
    ¬Represents ((runSimpleFinSync threeDays twoWithdrawals).final (fun _ _ => true) noFailures
      noTransactions) := by decide +kernel

end SimpleFin.Import
