import GnucashWeb.Edits.Routes

/-!
# What the commits of the routes do

`CommitSpec` says what the commit of each kind of request does to the tables, in terms of what the
request read under its locks.  It holds whatever the other sessions may do in between
(`good_serve`), so the two guards can each be judged under the assumptions that it makes.
-/

namespace Edits

open Ledger Rows Statements

/-! ## Writes on one transaction -/

structure Only (guid : String) (db db' : Db) : Prop where
  transaction : ∀ g, g ≠ guid → db'.transaction? g = db.transaction? g
  splits : ∀ g, g ≠ guid → db'.splitsOfTx g = db.splitsOfTx g

variable {db db' db'' : Db} {guid : String}

theorem Only.trans (h : Only guid db db') (h' : Only guid db' db'') : Only guid db db'' where
  transaction g hg := (h'.transaction g hg).trans (h.transaction g hg)
  splits g hg := (h'.splits g hg).trans (h.splits g hg)

theorem only_insertTransaction {t : Transaction} (h : insertTransaction t db = some db') :
    Only t.guid db db' ∧ db.transaction? t.guid = none ∧ db'.transaction? t.guid = some t ∧
      db'.splits = db.splits := by
  unfold insertTransaction at h
  split_ifs at h with hnone
  cases h
  have hnone := Option.isNone_iff_eq_none.1 hnone
  refine ⟨⟨fun g hg => ?_, fun _ _ => rfl⟩, hnone, ?_, rfl⟩
  · simp [Db.transaction?, List.find?_append, Ne.symm hg]
  · rw [Db.transaction?] at hnone ⊢
    simp [List.find?_append, hnone]

theorem transaction?_updateTransactions {f : Transaction → Transaction}
    (hf : ∀ t, (f t).guid = t.guid) (g : String) :
    (updateTransactions guid f db).transaction? g =
      if g = guid then (db.transaction? guid).map f else db.transaction? g := by
  unfold updateTransactions Db.transaction? editAt
  induction db.transactions with
  | nil => simp
  | cons t ts ih =>
    simp only [List.map_cons, List.find?_cons]
    by_cases ht : t.guid = guid
    · by_cases hg : g = guid
      · simp [ht, hg, hf]
      · simpa [ht, hf, hg, Ne.symm hg] using ih
    · by_cases hg : g = guid
      · simpa [ht, hg] using ih
      · by_cases htg : t.guid = g
        · simp [htg, hg]
        · simpa [ht, htg, hg] using ih

theorem only_updateTransaction {f : Transaction → Transaction}
    (h : updateTransaction guid f db = some db') (hf : ∀ t, (f t).guid = t.guid) :
    Only guid db db' ∧ ∃ row, db'.transaction? guid = some (f row) := by
  unfold updateTransaction at h
  split_ifs at h with hsome
  cases h
  obtain ⟨row, hrow⟩ := Option.isSome_iff_exists.1 hsome
  refine ⟨⟨fun g hg => ?_, fun _ _ => rfl⟩, row, ?_⟩
  · rw [transaction?_updateTransactions hf, if_neg hg]
  · rw [transaction?_updateTransactions hf, if_pos rfl, hrow]
    rfl

theorem only_deleteSplits : Only guid db (deleteSplits guid db) where
  transaction _ _ := rfl
  splits g hg := by
    simp only [deleteSplits, Db.splitsOfTx, List.filter_filter]
    refine List.filter_congr fun s _ => ?_
    by_cases hs : s.txGuid = g
    · simp [hs, hg]
    · simp [hs]

theorem only_deleteTransaction (h : deleteTransaction guid db = some db') :
    Only guid db db' ∧ db'.transaction? guid = none := by
  unfold deleteTransaction at h
  split_ifs at h
  cases h
  refine ⟨⟨fun g hg => ?_, only_deleteSplits.splits⟩, ?_⟩
  · rw [Db.transaction?, Db.transaction?, List.find?_filter]
    refine congrArg (fun p => db.transactions.find? p) (funext fun t => ?_)
    by_cases ht : t.guid = g
    · simp [ht, hg]
    · simp [ht]
  · simp [Db.transaction?, List.find?_eq_none]

variable {s : Split}

theorem only_insertSplit (h : insertSplit s db = some db') :
    Only s.txGuid db db' ∧ db'.transactions = db.transactions ∧ db.splits ⊆ db'.splits := by
  unfold insertSplit at h
  split_ifs at h
  cases h
  refine ⟨⟨fun _ _ => rfl, fun g hg => ?_⟩, rfl, fun _ hs => List.mem_append_left _ hs⟩
  simp [Db.splitsOfTx, List.filter_append, Ne.symm hg]

/-! ## Writes on many splits -/

/-- Two rows of a split book the same amounts to the same account. -/
structure SameBooking (s s' : Split) : Prop where
  guid : s'.guid = s.guid
  txGuid : s'.txGuid = s.txGuid
  accountGuid : s'.accountGuid = s.accountGuid
  value : s'.value = s.value
  quantity : s'.quantity = s.quantity

theorem SameBooking.refl : SameBooking s s := ⟨rfl, rfl, rfl, rfl, rfl⟩

theorem SameBooking.trans {s' s'' : Split} (h : SameBooking s s') (h' : SameBooking s' s'') :
    SameBooking s s'' :=
  ⟨h'.1.trans h.1, h'.2.trans h.2, h'.3.trans h.3, h'.4.trans h.4, h'.5.trans h.5⟩

def SameDates (db db' : Db) : Prop :=
  ∀ g, (db'.transaction? g).map Transaction.postDate = (db.transaction? g).map Transaction.postDate

/-- The transactions keep their post dates, protected splits are booked as before, and only the
splits that match `p` change their state. -/
structure Touches (p : Split → Bool) (db db' : Db) : Prop where
  dates : SameDates db db'
  kept : ∀ s ∈ db.splits, IsProtected s → ∃ s' ∈ db'.splits, SameBooking s s' ∧
    (p s = false → s'.reconcileState = s.reconcileState)
  source : ∀ s' ∈ db'.splits, ∃ s ∈ db.splits, s'.txGuid = s.txGuid ∧
    (p s = false → s'.reconcileState = s.reconcileState)

/-- A write that changes no state and moves no protected split. -/
abbrev Rebooks := Touches fun _ => false

variable {p : Split → Bool}

theorem Touches.refl : Touches p db db where
  dates _ := rfl
  kept s hs _ := ⟨s, hs, .refl, fun _ => rfl⟩
  source s hs := ⟨s, hs, rfl, fun _ => rfl⟩

theorem Rebooks.trans (h : Rebooks db db') (h' : Rebooks db' db'') : Rebooks db db'' where
  dates g := (h'.dates g).trans (h.dates g)
  kept s hs hprot := by
    obtain ⟨s', hs', hsame, hstate⟩ := h.kept s hs hprot
    have hprot' : IsProtected s' := by
      unfold IsProtected at hprot ⊢
      rwa [hstate rfl]
    obtain ⟨s'', hs'', hsame', hstate'⟩ := h'.kept s' hs' hprot'
    exact ⟨s'', hs'', hsame.trans hsame', fun _ => (hstate' rfl).trans (hstate rfl)⟩
  source s'' hs'' := by
    obtain ⟨s', hs', htx', hstate'⟩ := h'.source s'' hs''
    obtain ⟨s, hs, htx, hstate⟩ := h.source s' hs'
    exact ⟨s, hs, htx'.trans htx, fun _ => (hstate' rfl).trans (hstate rfl)⟩

theorem Touches.then (h : Touches p db db') (hdates : SameDates db' db'')
    (hsplits : db''.splits = db'.splits) : Touches p db db'' where
  dates g := (hdates g).trans (h.dates g)
  kept := hsplits ▸ h.kept
  source := hsplits ▸ h.source

theorem sameDates_updateTransactions {f : Transaction → Transaction}
    (hf : ∀ t, (f t).guid = t.guid ∧ (f t).postDate = t.postDate) :
    SameDates db (updateTransactions guid f db) := by
  intro g
  rw [transaction?_updateTransactions fun t => (hf t).1]
  split_ifs with hg
  · subst hg
    rw [Option.map_map]
    exact congrArg (fun f => Option.map f _) (funext fun t => (hf t).2)
  · rfl

theorem sameDates_updateTransaction {f : Transaction → Transaction}
    (h : updateTransaction guid f db = some db')
    (hf : ∀ t, (f t).guid = t.guid ∧ (f t).postDate = t.postDate) : SameDates db db' ∧ db'.splits = db.splits := by
  unfold updateTransaction at h
  split_ifs at h
  cases h
  exact ⟨sameDates_updateTransactions hf, rfl⟩

theorem rebooks_updateSplits {q : Split → Bool} (hq : ∀ s, q s = true → ¬IsProtected s)
    (account : String) : Rebooks db (updateSplits q (fun s => { s with accountGuid := account }) db) where
  dates _ := rfl
  kept s hs hprot := by
    have hkeep : ¬q s = true := fun h => hq s h hprot
    exact ⟨s, List.mem_map.2 ⟨s, hs, if_neg hkeep⟩, .refl, fun _ => rfl⟩
  source s' hs' := by
    obtain ⟨s, hs, rfl⟩ := List.mem_map.1 hs'
    refine ⟨s, hs, ?_⟩
    split_ifs <;> exact ⟨rfl, fun _ => rfl⟩

theorem touches_setState (state : ReconcileState) (date : ℤ) :
    Touches p db (updateSplits p (setState state date) db) where
  dates _ := rfl
  kept s hs _ := by
    refine ⟨_, List.mem_map.2 ⟨s, hs, rfl⟩, ?_⟩
    split_ifs with hp
    · exact ⟨⟨rfl, rfl, rfl, rfl, rfl⟩, fun h => absurd hp (by simp [h])⟩
    · exact ⟨.refl, fun _ => rfl⟩
  source s' hs' := by
    obtain ⟨s, hs, rfl⟩ := List.mem_map.1 hs'
    refine ⟨s, hs, ?_⟩
    split_ifs with hp
    · exact ⟨rfl, fun h => absurd hp (by simp [h])⟩
    · exact ⟨rfl, fun _ => rfl⟩

/-! ## What a commit does -/

/-- A lock date came before the texts of an old post date and a new one. -/
def Passed (lockDate : Option LockDate) (old : Option ℤ) (text : Option String) : Prop :=
  ∀ lock, lockDate = some lock →
    (∀ t, old = some t → Civil.isoText lock.day < Civil.isoText (t / msPerDay)) ∧
      ∀ x, text = some x → Civil.isoText lock.day < x.toList.take 10

theorem passed_of_ok {lockDate : Option LockDate} {dates : List (Option LockableDate)} {u : Unit}
    (h : assertNotLocked lockDate dates = .ok u) {old : Option ℤ} {text : Option String}
    (hold : ∀ t, old = some t → some (.date t) ∈ dates)
    (htext : ∀ x, text = some x → some (.text x) ∈ dates) : Passed lockDate old text := by
  rintro lock rfl
  have hlt := assertNotLocked_eq_ok.1 h
  exact ⟨fun t ht => hlt _ (hold t ht), fun x hx => hlt _ (htext x hx)⟩

section Specs

variable (host : Host) (Rely : Set String → Db → Db → Prop)

/-- A request holds the row of a transaction, and since then its post date passed the period lock and
none of its splits was protected. -/
structure Held (L : Set String) (guid : String) (lockDate : Option LockDate) (text : Option String)
    (db : Db) : Prop where
  mem : guid ∈ L
  read : ∃ v v' row, Rely L v v' ∧ Rely L v' db ∧ v.transaction? guid = some row ∧
    Passed lockDate row.postDate text ∧ ∀ s ∈ v'.splitsOfTx guid, ¬IsProtected s

/-- A create, an update or a delete of one transaction. -/
structure Wrote (L : Set String) (guid : String) (lockDate : Option LockDate) (text : Option String)
    (db db' : Db) : Prop where
  only : Only guid db db'
  date : (db'.transaction? guid).bind Transaction.postDate = text.bind host.newDate
  origin : (db.transaction? guid = none ∧ db.splits ⊆ db'.splits ∧ Passed lockDate none text) ∨
    Held Rely L guid lockDate text db

def CommitSpec (L : Set String) (a : Receipt) (db db' : Db) : Prop :=
  match a with
  | .written _ txGuid lockDate text => Wrote host Rely L txGuid lockDate text db db'
  | .lockDateSet => Rebooks db db'
  | .edited _ => Rebooks db db'
  | .moved _ => Rebooks db db'
  | .reconciled updated => Touches updated db db'

end Specs

/-! ## Create, update, delete -/

section Programs

variable {host : Host} {Rely : Set String → Db → Db → Prop} {L : Set String}
  {w : Db → Option Db} {c : Caller}

theorem wp_lockInBook {Q : Transaction → Set String → (Db → Option Db) → Db → Prop}
    (h : ∀ v row, v.transaction? guid = some row → Q row (insert guid L) some v) :
    (lockInBook c guid).wp Rely present Q L some db := by
  simp only [lockInBook, wp_bind, wp_select, wp_require, wp_lock, wp_expect, Option.some.injEq]
  rintro v - _ rfl - v' - hfound v'' - _ rfl row hrow
  rw [if_pos hfound]
  exact h v'' row hrow

theorem wp_processSplits {splits : List SplitInput}
    {Q : List ProcessedSplit → Set String → (Db → Option Db) → Db → Prop}
    (h : ∀ v allSplits, Rely L db v → Q allSplits L w v) :
    (processSplits host c splits).wp Rely present Q L w db := by
  simp only [processSplits, wp_bind, wp_select, wp_check, wp_require, wp_pure]
  intro v hv _ _ allSplits _ _
  exact h v allSplits hv

theorem wp_insertSplits {g : String} {rows : List Split} (hrows : ∀ s ∈ rows, s.txGuid = g)
    {R : Db → Db → Prop} (hw : ∀ x y, w x = some y → R x y)
    (hR : ∀ x y z, R x y → Only g y z → z.transactions = y.transactions →
      y.splits ⊆ z.splits → R x z)
    {Q : List Unit → Set String → (Db → Option Db) → Db → Prop}
    (h : ∀ us w', (∀ x y, w' x = some y → R x y) → Q us L w' db) :
    (each (fun s => Txn.tryWrite (insertSplit s)) rows : Tx (List Unit)).wp Rely present Q L w db := by
  let J (L' : Set String) (w' : Db → Option Db) (v : Db) : Prop :=
    L' = L ∧ v = db ∧ ∀ x y, w' x = some y → R x y
  have hloop : (each (fun s => Txn.tryWrite (insertSplit s)) rows : Tx (List Unit)).wp Rely present
      (fun _ => J) L w db := by
    refine wp_each (fun s hs L' w' v hJ => ?_) ⟨rfl, rfl, hw⟩
    refine ⟨hJ.1, hJ.2.1, fun x z hz => ?_⟩
    obtain ⟨y, hy, hins⟩ := Option.bind_eq_some_iff.1 hz
    obtain ⟨honly, htx, hsub⟩ := only_insertSplit hins
    exact hR x y z (hJ.2.2 x y hy) (hrows s hs ▸ honly) htx hsub
  refine hloop.mono fun us L' w' v hJ => ?_
  obtain ⟨rfl, rfl, hw'⟩ := hJ
  exact h us w' hw'

theorem wp_create {body : CreateTransactionRequest} :
    (create host c body).wp Rely present (Commits Rely (CommitSpec host Rely)) ∅ some db := by
  simp only [create, wp_bind, wp_expect, wp_require, wp_select, wp_check, Option.some.injEq]
  rintro postDate hdate - v - _ rfl _ hlock
  refine wp_processSplits fun v' allSplits _ => ?_
  rw [wp_bind, wp_tryWrite, wp_bind]
  let txGuid := (body.guid.filter isValidGuid).getD (c.generateGuid 0)
  let R (x y : Db) : Prop := Only txGuid x y ∧ x.transaction? txGuid = none ∧ x.splits ⊆ y.splits ∧
    (y.transaction? txGuid).bind Transaction.postDate = some postDate
  refine wp_insertSplits (R := R) (g := txGuid) ?_ ?_ ?_ fun us w' hw' x hx y hy => ?_
  · intro s hs
    obtain ⟨_, -, rfl⟩ := List.mem_map.1 hs
    rfl
  · intro x y hy
    obtain ⟨honly, hnone, hsome, hsplits⟩ := only_insertTransaction hy
    exact ⟨honly, hnone, by rw [hsplits]; exact List.Subset.refl _, by rw [hsome]; rfl⟩
  · intro x y z hxy hyz htx hsub
    refine ⟨hxy.1.trans hyz, hxy.2.1, List.Subset.trans hxy.2.2.1 hsub, ?_⟩
    rw [Db.transaction?, htx]
    exact hxy.2.2.2
  · obtain ⟨honly, hnone, hsub, hpost⟩ := hw' x y hy
    refine ⟨honly, hpost.trans hdate.symm, .inl ⟨hnone, hsub, passed_of_ok hlock (by simp) ?_⟩⟩
    rintro x hx
    cases hx
    simp

theorem wp_update {originalEnterDate : Option ℤ} {body : CreateTransactionRequest}
    (htrans : ∀ L, IsTrans Db (Rely L)) :
    (update host c guid originalEnterDate body).wp Rely present (Commits Rely (CommitSpec host Rely)) ∅
      some db := by
  simp only [update, wp_bind, wp_expect, wp_require]
  rintro postDate hdate -
  refine wp_lockInBook fun v row hrow => ?_
  simp only [wp_bind, wp_require, wp_select, wp_check, Option.some.injEq]
  rintro - v₁ h₁ _ rfl _ hlock v₂ h₂ _ rfl _ hopen
  refine wp_processSplits fun v₃ allSplits h₃ => ?_
  rw [wp_bind, wp_tryWrite, wp_bind, wp_write, wp_bind]
  let R (x y : Db) : Prop := Only guid x y ∧
    (y.transaction? guid).bind Transaction.postDate = some postDate
  refine wp_insertSplits (R := R) (g := guid) ?_ ?_ ?_ fun us w' hw' x hx y hy => ?_
  · intro s hs
    obtain ⟨_, -, rfl⟩ := List.mem_map.1 hs
    rfl
  · intro x z hz
    obtain ⟨y, hy, hyz⟩ := Option.bind_eq_some_iff.1 hz
    cases hyz
    rw [Option.bind_some] at hy
    obtain ⟨honly, row', hrow'⟩ := only_updateTransaction hy fun _ => rfl
    refine ⟨honly.trans only_deleteSplits, ?_⟩
    change (y.transaction? guid).bind Transaction.postDate = _
    rw [hrow']
    rfl
  · intro x y z hxy hyz htx _
    refine ⟨hxy.1.trans hyz, ?_⟩
    rw [Db.transaction?, htx]
    exact hxy.2
  · obtain ⟨honly, hpost⟩ := hw' x y hy
    refine ⟨honly, hpost.trans hdate.symm, .inr ⟨Set.mem_insert _ _, v, v₂, row, ?_, ?_, hrow, ?_, ?_⟩⟩
    · exact (htrans _).trans _ _ _ h₁ h₂
    · exact (htrans _).trans _ _ _ h₃ hx
    · refine passed_of_ok hlock (fun t ht => by simp [ht]) ?_
      rintro x hx
      cases hx
      simp
    · exact assertSplitsNotProtected_eq_ok.1 hopen

theorem wp_delete {originalEnterDate : Option ℤ} (htrans : ∀ L, IsTrans Db (Rely L)) :
    (delete c guid originalEnterDate).wp Rely present (Commits Rely (CommitSpec host Rely)) ∅
      some db := by
  simp only [delete, wp_bind, wp_require]
  rintro -
  refine wp_lockInBook fun v row hrow => ?_
  simp only [wp_bind, wp_require, wp_select, wp_check, wp_write, wp_tryWrite, wp_pure,
    Option.some.injEq]
  rintro - v₁ h₁ _ rfl _ hlock v₂ h₂ _ rfl _ hopen x hx z hz
  obtain ⟨y, hy, hyz⟩ := Option.bind_eq_some_iff.1 hz
  cases hy
  obtain ⟨honly, hnone⟩ := only_deleteTransaction hyz
  refine ⟨only_deleteSplits.trans honly, by rw [hnone]; rfl,
    .inr ⟨Set.mem_insert _ _, v, v₂, row, ?_, hx, hrow, ?_, ?_⟩⟩
  · exact (htrans _).trans _ _ _ h₁ h₂
  · exact passed_of_ok hlock (fun t ht => by simp [ht]) (by simp)
  · exact assertSplitsNotProtected_eq_ok.1 hopen

/-! ## The other requests -/

/-- A pending write that keeps the bookings. -/
def Rebooking (w : Db → Option Db) : Prop := ∀ x y, w x = some y → Rebooks x y

theorem Rebooking.then (hw : Rebooking w) {f : Db → Option Db}
    (hf : ∀ x y, f x = some y → Rebooks x y) : Rebooking fun x => (w x).bind f := by
  intro x z hz
  obtain ⟨y, hy, hyz⟩ := Option.bind_eq_some_iff.1 hz
  exact (hw x y hy).trans (hf y z hyz)

theorem rebooks_updateTransaction {f : Transaction → Transaction}
    (hf : ∀ t, (f t).guid = t.guid ∧ (f t).postDate = t.postDate)
    (h : updateTransaction guid f db = some db') : Rebooks db db' := by
  obtain ⟨hdates, hsplits⟩ := sameDates_updateTransaction h hf
  exact Touches.refl.then hdates hsplits

theorem wp_setLockDate {bookGuid : String} {lockDate : Option LockDate} :
    (setLockDate bookGuid lockDate).wp Rely present (Commits Rely (CommitSpec host Rely)) ∅ some db := by
  simp only [setLockDate, wp_bind, wp_write, wp_pure]
  intro x _ y hy
  cases hy
  exact Touches.refl.then (fun _ => rfl) rfl

theorem wp_editDescription {edit : Option DescriptionEdit} {t : LoadedTransaction}
    (hw : Rebooking w) :
    (editDescription host c edit t).wp Rely present (fun _ _ w _ => Rebooking w) L w db := by
  have hput (text : String) : Rebooking fun x => (w x).bind (updateTransaction t.guid fun row =>
      { row with description := some text, enterDate := some c.now }) :=
    hw.then fun x y => rebooks_updateTransaction fun _ => ⟨rfl, rfl⟩
  unfold editDescription
  split
  · exact hput _
  · dsimp only
    split
    · exact hput _
    · exact hw
  · exact hw

theorem isMovable_open {guid : String} (h : isMovable guid s = true) : ¬IsProtected s := by
  simp only [isMovable, Bool.and_eq_true, Bool.not_eq_true', decide_eq_false_iff_not] at h
  exact h.2

theorem wp_recategorizeSplit {recat : Recategorize} {coreChanged : Bool}
    {move : RecategorizeSplitInfo} (hw : Rebooking w) :
    (recategorizeSplit c recat guid coreChanged move).wp Rely present (fun _ _ w _ => Rebooking w) L w
      db := by
  have hmove {w : Db → Option Db} (hw : Rebooking w) : Rebooking fun x => (w x).bind fun y =>
      some (updateSplits (isMovable move.guid)
        (fun s => { s with accountGuid := recat.toAccountGuid }) y) := by
    refine hw.then fun x y h => ?_
    cases h
    exact rebooks_updateSplits (fun s => isMovable_open) _
  have htouch : Rebooking fun x => (w x).bind (updateTransaction guid fun row =>
      { row with enterDate := some c.now }) :=
    hw.then fun x y => rebooks_updateTransaction fun _ => ⟨rfl, rfl⟩
  simp only [recategorizeSplit, wp_bind, wp_onlyIf, wp_tryWrite, wp_select, wp_write, wp_require]
  exact ⟨fun _ _ _ _ _ _ => hmove htouch, fun _ _ _ _ _ _ => hmove hw⟩

theorem wp_editOne {edit : BulkEdit} {target : Option String} {loaded : List LoadedTransaction}
    {live : Db} (hw : Rebooking w) :
    (editOne host c edit target loaded live guid).wp Rely present (fun _ _ w _ => Rebooking w) L w
      db := by
  have hplain (t : LoadedTransaction) :
      (do let _ ← editDescription host c edit.description t; pure ⟨guid, none⟩ : Tx BulkResult).wp Rely
        present (fun _ _ w _ => Rebooking w) L w db := by
    rw [wp_bind]
    exact (wp_editDescription hw).mono fun _ _ _ _ h => h
  unfold editOne
  split
  · exact hw
  · split
    · exact hw
    · split
      · exact hplain _
      · split
        · exact hw
        · exact hplain _
        · simp only [wp_bind, wp_check]
          intro _ _
          split
          · exact hw
          · rw [wp_bind]
            refine (wp_editDescription hw).mono fun _ _ _ _ h => ?_
            rw [wp_bind]
            exact (wp_recategorizeSplit h).mono fun _ _ _ _ h => h

theorem wp_recategorizeTarget {edit : BulkEdit}
    {Q : Option Account → Set String → (Db → Option Db) → Db → Prop} (hnow : ∀ target, Q target L w db)
    (h : ∀ v target, Q target L w v) : (recategorizeTarget c edit).wp Rely present Q L w db := by
  unfold recategorizeTarget
  split
  · exact hnow none
  · simp only [wp_bind, wp_require, wp_select, wp_expect, wp_pure]
    exact fun _ v _ _ _ account _ => h v (some account)

theorem rebooking_some : Rebooking some := by
  intro x y h
  cases h
  exact Touches.refl

theorem commits_of_rebooking {L : Set String} (hw : Rebooking w) {results : List BulkResult} :
    Commits Rely (CommitSpec host Rely) (.edited results) L w db := fun x _ y hy => hw x y hy

theorem wp_applyBulkEdit {edit : BulkEdit} {target : Option String} :
    (applyBulkEdit host c edit target).wp Rely present (Commits Rely (CommitSpec host Rely)) ∅ some
      db := by
  simp only [applyBulkEdit, wp_bind, wp_select]
  rintro _ - _ -
  refine wp_lockAll fun L v => ?_
  simp only [wp_bind, wp_select, wp_onlyIf, wp_check]
  rintro _ - _ - _ - _ -
  have hloop {L : Set String} {v live : Db} {loaded : List LoadedTransaction} :
      (each (editOne host c edit target loaded live) edit.transactionGuids.eraseDups).wp Rely present
        (fun _ _ w _ => Rebooking w) L some v :=
    wp_each (J := fun _ w _ => Rebooking w) (fun _ _ _ _ _ hw => wp_editOne hw) rebooking_some
  refine ⟨fun _ _ _ _ _ _ _ => ?_, fun _ _ _ _ _ => ?_⟩
  · exact hloop.mono fun _ _ _ _ hw => commits_of_rebooking hw
  · exact hloop.mono fun _ _ _ _ hw => commits_of_rebooking hw

theorem wp_bulkEdit {edit : BulkEdit} :
    (bulkEdit host c edit).wp Rely present (Commits Rely (CommitSpec host Rely)) ∅ some db := by
  rw [bulkEdit, wp_bind]
  exact wp_recategorizeTarget (fun _ => wp_applyBulkEdit) fun _ _ => wp_applyBulkEdit

theorem wp_touchAll {guids : List String}
    {R : Db → Db → Prop} (hw : ∀ x y, w x = some y → R x y)
    (hR : ∀ x y z, R x y → SameDates y z → z.splits = y.splits → R x z)
    {Q : List Unit → Set String → (Db → Option Db) → Db → Prop}
    (h : ∀ us w', (∀ x y, w' x = some y → R x y) → Q us L w' db) :
    (touchAll c guids).wp Rely present Q L w db := by
  let J (L' : Set String) (w' : Db → Option Db) (v : Db) : Prop :=
    L' = L ∧ v = db ∧ ∀ x y, w' x = some y → R x y
  have hloop : (touchAll c guids).wp Rely present (fun _ => J) L w db := by
    refine wp_each (fun guid _ L' w' v hJ => ?_) ⟨rfl, rfl, hw⟩
    refine ⟨hJ.1, hJ.2.1, fun x z hz => ?_⟩
    obtain ⟨y, hy, hyz⟩ := Option.bind_eq_some_iff.1 hz
    cases hyz
    exact hR x y _ (hJ.2.2 x y hy) (sameDates_updateTransactions fun _ => ⟨rfl, rfl⟩) rfl
  refine hloop.mono fun us L' w' v hJ => ?_
  obtain ⟨rfl, rfl, hw'⟩ := hJ
  exact h us w' hw'

theorem wp_bulkMove {splitGuids : List String} {target : String} :
    (bulkMove c splitGuids target).wp Rely present (Commits Rely (CommitSpec host Rely)) ∅ some db := by
  simp only [bulkMove, wp_bind, wp_require, wp_select, wp_expect, wp_check]
  intros
  refine wp_lockAll fun L v => ?_
  simp only [wp_bind, wp_require, wp_select, wp_check, wp_write, wp_onlyIf, diagnoseMove, wp_fail]
  rintro _ - _ - _ _ _ _ - _ - _ _ _ - _ -
  refine ⟨fun _ _ _ _ _ _ _ _ => trivial, fun _ => ?_⟩
  refine wp_touchAll (R := Rebooks) ?_ (fun x y z h => h.then) fun us w' hw' x _ y hy => hw' x y hy
  intro x y hy
  cases hy
  refine rebooks_updateSplits (fun s hs => ?_) target
  simp only [Bool.and_eq_true, Bool.not_eq_true', decide_eq_false_iff_not] at hs
  exact hs.2

variable {state : ReconcileState} {date : ℤ}

theorem wp_reconcileSplit :
    (reconcileSplit c guid state date).wp Rely present (Commits Rely (CommitSpec host Rely)) ∅ some
      db := by
  simp only [reconcileSplit, wp_bind, wp_select, wp_expect, wp_require, wp_lock, wp_write, wp_tryWrite,
    wp_pure]
  rintro _ - _ - existing - - _ - _ - _ - - x - z hz
  obtain ⟨y, hy, hyz⟩ := Option.bind_eq_some_iff.1 hz
  cases hy
  obtain ⟨hdates, hsplits⟩ := sameDates_updateTransaction hyz fun _ => ⟨rfl, rfl⟩
  exact (touches_setState state date).then hdates hsplits

theorem wp_setStates {p : Split → Bool} {guids : List String} :
    (touchAll c guids).wp Rely present
      (fun _ => Commits Rely (CommitSpec host Rely) (.reconciled p)) L
      (fun db => (some db).bind fun v => some (updateSplits p (setState state date) v)) db := by
  refine wp_touchAll (R := Touches p) ?_ (fun x y z h => h.then) fun us w' hw' x _ y hy => hw' x y hy
  intro x y hy
  cases hy
  exact touches_setState state date

theorem wp_reconcileSplits {splits : List String} :
    (reconcileSplits c splits state date).wp Rely present (Commits Rely (CommitSpec host Rely)) ∅ some
      db := by
  simp only [reconcileSplits, wp_bind, wp_select, wp_require]
  rintro _ - _ - -
  refine wp_lockAll fun L v => ?_
  rw [wp_bind, wp_write, wp_bind]
  exact wp_setStates

theorem wp_bulkReconcile {splits : List String} :
    (bulkReconcile c splits state date).wp Rely present (Commits Rely (CommitSpec host Rely)) ∅ some
      db := by
  simp only [bulkReconcile, wp_bind, wp_select, wp_require]
  rintro _ - _ - -
  refine wp_lockAll fun L v => ?_
  simp only [wp_bind, wp_select, wp_write, wp_require]
  rintro _ - _ - -
  exact wp_setStates

theorem good_serve (htrans : ∀ L, IsTrans Db (Rely L)) (req : Request) :
    (Script.single (serve host req)).Good Rely present (fun _ => True) (CommitSpec host Rely) := by
  refine ⟨fun db _ => ?_, fun _ => trivial⟩
  cases req with
  | create c body => exact wp_create
  | update c guid originalEnterDate body => exact wp_update htrans
  | delete c guid originalEnterDate => exact wp_delete htrans
  | setLockDate bookGuid lockDate => exact wp_setLockDate
  | bulkEdit c edit => exact wp_bulkEdit
  | bulkMove c splitGuids target => exact wp_bulkMove
  | reconcileSplit c guid state date => exact wp_reconcileSplit
  | reconcileSplits c splits state date => exact wp_reconcileSplits
  | bulkReconcile c splits state date => exact wp_bulkReconcile

end Programs

end Edits
