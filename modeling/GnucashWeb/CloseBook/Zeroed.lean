import GnucashWeb.CloseBook.Closing

/-!
# A close zeroes its accounts

The closing transactions balance and move the rounded balances into equity, whatever is rounded
(`Tables.balance_posting`).  `closes_exactly_iff_inCents` is the main result: in every interleaving
of closes, each leaves its accounts at zero and equity with their net income, and closes a period
once, exactly when the balances it finds are whole cents, the same in value as in the commodity of
the account.
-/

namespace CloseBook

open Ledger Rows Statements Runs

/-! ## What is promised -/

/-- The income and expense accounts of a book in the currency of the equity account. -/
def closableAccounts (r : CloseRequest) (db : Db) : List Account :=
  match db.account? r.equityAccountGuid with
  | none => []
  | some equity => db.accounts.filter fun a =>
    a.bookGuid = r.bookGuid ∧ a.IsClosing ∧ a.commodityGuid = equity.commodityGuid

namespace Receipt

def request : Receipt → CloseRequest
  | nothing r => r
  | closed r _ => r

def posted : Receipt → List Transaction
  | nothing _ => []
  | closed _ transactions => transactions

end Receipt

/-- A close dated on a day leaves its accounts at zero through that day, balances, gives equity the
net income of those accounts, and closes no period again. -/
structure ClosesExactly (_ : Set ℤ) (a : Receipt) (db db' : Db) : Prop where
  inserted : db'.transactions = db.transactions ++ a.posted
  zeroed : ∀ acct ∈ closableAccounts a.request db',
    db'.balance acct.guid a.request.closeDate = 0 ∧
      db'.quantityBalance acct.guid a.request.closeDate = 0
  balanced : ∀ t ∈ a.posted, (t.splits.map fun s => s.value.exact).sum = 0
  received : total (fun s => s.accountGuid = a.request.equityAccountGuid) (fun s => s.value.exact)
    (a.posted.flatMap Transaction.splits) =
      ((closableAccounts a.request db).map fun acct =>
        db.balance acct.guid a.request.closeDate).sum
  once : db'.closes.Nodup

/-- The balances that a close finds are whole cents, the same in the commodity of the account. -/
def InCents (_ : Set ℤ) (a : Receipt) (db _ : Db) : Prop :=
  ∀ acct ∈ closableAccounts a.request db,
    WholeCents (db.balance acct.guid a.request.closeDate) ∧
      db.quantityBalance acct.guid a.request.closeDate = db.balance acct.guid a.request.closeDate

instance : DecidableCommit ClosesExactly where
  dec _ _ a db db' := decidable_of_iff
    (db'.transactions = db.transactions ++ a.posted ∧
      (∀ acct ∈ closableAccounts a.request db',
        db'.balance acct.guid a.request.closeDate = 0 ∧
          db'.quantityBalance acct.guid a.request.closeDate = 0) ∧
      (∀ t ∈ a.posted, (t.splits.map fun s => s.value.exact).sum = 0) ∧
      total (fun s => s.accountGuid = a.request.equityAccountGuid) (fun s => s.value.exact)
        (a.posted.flatMap Transaction.splits) =
          ((closableAccounts a.request db).map fun acct =>
            db.balance acct.guid a.request.closeDate).sum ∧
      db'.closes.Nodup)
    ⟨fun h => ⟨h.1, h.2.1, h.2.2.1, h.2.2.2.1, h.2.2.2.2⟩,
      fun h => ⟨h.inserted, h.zeroed, h.balanced, h.received, h.once⟩⟩

/-! ## What a close moves -/

def closedBalance (balance : ℚ) : ℚ := if minBalance ≤ |balance| then round2 balance else 0

theorem eq_zero_of_small {amount : ℚ} (h : WholeCents amount) (hsmall : ¬minBalance ≤ |amount|) :
    amount = 0 := by
  obtain ⟨n, hn⟩ := wholeCents_iff.1 h
  rw [minBalance, not_le, abs_lt] at hsmall
  obtain ⟨hlow, hhigh⟩ := hsmall
  have hlow' : (-1 : ℚ) < n := by linarith
  have hhigh' : (n : ℚ) < 1 := by linarith
  have hzero : n = 0 := by
    have h₁ : -1 < n := by exact_mod_cast hlow'
    have h₂ : n < 1 := by exact_mod_cast hhigh'
    omega
  rw [hzero, Int.cast_zero] at hn
  linarith

theorem wholeCents_closedBalance (balance : ℚ) : WholeCents (closedBalance balance) := by
  unfold closedBalance
  split
  · exact wholeCents_round2 _
  · exact wholeCents_zero

theorem closedBalance_eq_iff {balance : ℚ} :
    closedBalance balance = balance ↔ WholeCents balance := by
  refine ⟨fun h => h ▸ wholeCents_closedBalance balance, fun h => ?_⟩
  unfold closedBalance
  split
  · exact round2_of_wholeCents h
  · next hsmall => exact (eq_zero_of_small h hsmall).symm

section Specs

variable {rows : List CloseBookAccountRow} {currencyGuid description : String}
  {p : String → Prop} [DecidablePred p]

/-- The rows that are closed move their balances; the others have none. -/
theorem total_closingRows (hcents : ∀ r ∈ rows, WholeCents r.balance)
    (htype : ∀ r ∈ rows, r.accountType = .income ∨ r.accountType = .expense) :
    total (fun r => p r.guid) (fun r => round2 (-r.balance))
      (closingRows rows .income ++ closingRows rows .expense) =
        total (fun r => p r.guid) (fun r => -r.balance) rows := by
  rw [total_append, closingRows, closingRows, total_filter, total_filter, total_add]
  refine total_congr fun r hr _ => ?_
  by_cases hsmall : minBalance ≤ |r.balance|
  · have hround : round2 (-r.balance) = -r.balance := round2_of_wholeCents (hcents r hr).neg
    rcases htype r hr with htype | htype <;> simp [htype, hsmall, hround]
  · have hzero : -r.balance = 0 := neg_eq_zero.2 (eq_zero_of_small (hcents r hr) hsmall)
    rw [if_neg fun h => hsmall h.2, if_neg fun h => hsmall h.2, hzero, add_zero]

theorem flatMap_build (type : AccountType)
    (hcurrency : ∀ r ∈ rows, r.commodityGuid = currencyGuid) :
    (buildClosingTransactions rows type description).flatMap ClosingTransactionSpec.splits =
      (closingRows rows type).map CloseBookAccountRow.closingSplit := by
  have hclosing : ∀ r ∈ closingRows rows type, r.commodityGuid = currencyGuid :=
    fun r hr => hcurrency r (List.mem_filter.1 hr).1
  unfold buildClosingTransactions
  generalize closingRows rows type = closing at *
  cases closing with
  | nil => rfl
  | cons r rest =>
    have hdups : ((r :: rest).map CloseBookAccountRow.commodityGuid).eraseDups =
        [currencyGuid] := by
      rw [List.map_cons, List.eraseDups_cons, hclosing r List.mem_cons_self]
      have hnone : (rest.map CloseBookAccountRow.commodityGuid).filter
          (fun c => !(c == currencyGuid)) = [] := by
        refine List.filter_eq_nil_iff.2 fun c hc => ?_
        obtain ⟨r', hr', rfl⟩ := List.mem_map.1 hc
        simp [hclosing r' (List.mem_cons_of_mem _ hr')]
      rw [hnone]
      rfl
    have hall : (r :: rest).filter (fun a => a.commodityGuid = currencyGuid) = r :: rest :=
      List.filter_eq_self.2 fun r' hr' => by simpa using hclosing r' hr'
    dsimp only
    rw [hdups, List.map_singleton, List.flatMap_singleton, hall]

theorem flatMap_closingSpecs (hcurrency : ∀ r ∈ rows, r.commodityGuid = currencyGuid) :
    (closingSpecs rows description).flatMap ClosingTransactionSpec.splits =
      (closingRows rows .income ++ closingRows rows .expense).map
        CloseBookAccountRow.closingSplit := by
  rw [closingSpecs, List.flatMap_append, flatMap_build _ hcurrency, flatMap_build _ hcurrency,
    List.map_append]

structure ClosingTransactionSpec.Exact (spec : ClosingTransactionSpec) : Prop where
  cents : ∀ s ∈ spec.splits, WholeCents s.amount
  equity : spec.equityAmount = -(spec.splits.map ClosingSplitSpec.amount).sum

theorem exact_closingSpecs : ∀ spec ∈ closingSpecs rows description, spec.Exact := by
  have hbuild (type : AccountType) (description : String) :
      ∀ spec ∈ buildClosingTransactions rows type description, spec.Exact := by
    intro spec hspec
    obtain ⟨currencyGuid, -, rfl⟩ := List.mem_map.1 hspec
    have hcents : ∀ s ∈ ((closingRows rows type).filter fun a => a.commodityGuid = currencyGuid).map
        CloseBookAccountRow.closingSplit, WholeCents s.amount :=
      List.forall_mem_map.2 fun a _ => wholeCents_round2 _
    exact ⟨hcents, round2_of_wholeCents (wholeCents_sum (List.forall_mem_map.2 hcents)).neg⟩
  exact List.forall_mem_append.2 ⟨hbuild _ _, hbuild _ _⟩

theorem ClosingTransactionSpec.Exact.equityCents {spec : ClosingTransactionSpec} (h : spec.Exact) :
    WholeCents spec.equityAmount :=
  h.equity ▸ (wholeCents_sum (List.forall_mem_map.2 h.cents)).neg

theorem map_exact_closingSplit {splits : List ClosingSplitSpec}
    (h : ∀ s ∈ splits, WholeCents s.amount) :
    (splits.map fun s => closingSplit s.accountGuid s.amount).map (fun s => s.value.exact) =
      splits.map ClosingSplitSpec.amount := by
  rw [List.map_map]
  exact List.map_congr_left fun s hs => exact_fromDecimal (h s hs)

theorem ClosingTransactionSpec.Exact.balanced {spec : ClosingTransactionSpec} (h : spec.Exact)
    {guid equityGuid : String} {closeDate : ℤ} :
    ((spec.transaction guid equityGuid closeDate).splits.map fun s => s.value.exact).sum = 0 := by
  have hequity : (closingSplit equityGuid spec.equityAmount).value.exact = spec.equityAmount :=
    exact_fromDecimal h.equityCents
  rw [transaction, List.map_append, map_exact_closingSplit h.cents, List.sum_append,
    List.map_singleton, List.sum_singleton, hequity, h.equity]
  exact add_neg_cancel _

end Specs

section Posted

variable {specs : List ClosingTransactionSpec} {equityGuid : String} {closeDate : ℤ}
  {p : String → Prop} [DecidablePred p] {f : Split → Amount}

/-- The splits that are posted for some specifications. -/
def entries (specs : List ClosingTransactionSpec) (equityGuid : String) : List Split :=
  specs.flatMap fun spec => (spec.splits.map fun s => closingSplit s.accountGuid s.amount) ++
    [closingSplit equityGuid spec.equityAmount]

theorem flatMap_mapIdx (guids : ℕ → String) :
    (specs.mapIdx fun i spec => spec.transaction (guids i) equityGuid closeDate).flatMap
      Transaction.splits = entries specs equityGuid := by
  induction specs generalizing guids with
  | nil => rfl
  | cons spec specs ih =>
    rw [List.mapIdx_cons, List.flatMap_cons, entries, List.flatMap_cons]
    exact congrArg _ (ih fun i => guids (i + 1))

theorem total_entries (hf : ∀ guid amount, f (closingSplit guid amount) = fromDecimal amount 100)
    (hexact : ∀ spec ∈ specs, spec.Exact) (hp : ¬p equityGuid) :
    total (fun s => p s.accountGuid) (fun s => (f s).exact) (entries specs equityGuid) =
      total (fun s => p s.accountGuid) ClosingSplitSpec.amount
        (specs.flatMap ClosingTransactionSpec.splits) := by
  induction specs with
  | nil => rfl
  | cons spec specs ih =>
    obtain ⟨hspec, hrest⟩ := List.forall_mem_cons.1 hexact
    have hequity : ¬p (closingSplit equityGuid spec.equityAmount).accountGuid := hp
    have hsplits : total (fun s => p s.accountGuid) (fun s => (f s).exact)
        (spec.splits.map fun s => closingSplit s.accountGuid s.amount) =
          total (fun s => p s.accountGuid) ClosingSplitSpec.amount spec.splits := by
      rw [total_of_map]
      refine total_congr fun s hs _ => ?_
      rw [hf, exact_fromDecimal (hspec.cents s hs)]
    rw [List.flatMap_cons, total_append, ← ih hrest, entries, List.flatMap_cons, total_append,
      total_append, hsplits, total_cons, if_neg hequity, total_nil, add_zero, add_zero]
    rfl

theorem total_entries_equity (hexact : ∀ spec ∈ specs, spec.Exact)
    (hother : ∀ s ∈ specs.flatMap ClosingTransactionSpec.splits, s.accountGuid ≠ equityGuid) :
    total (fun s => s.accountGuid = equityGuid) (fun s => s.value.exact)
      (entries specs equityGuid) =
        -((specs.flatMap ClosingTransactionSpec.splits).map ClosingSplitSpec.amount).sum := by
  induction specs with
  | nil => rfl
  | cons spec specs ih =>
    obtain ⟨hspec, hrest⟩ := List.forall_mem_cons.1 hexact
    rw [List.flatMap_cons] at hother
    obtain ⟨hsplits, hother⟩ := List.forall_mem_append.1 hother
    have hzero : total (fun s => s.accountGuid = equityGuid) (fun s => s.value.exact)
        (spec.splits.map fun s => closingSplit s.accountGuid s.amount) = 0 := by
      refine total_eq_zero fun s hs heq => ?_
      obtain ⟨s', hs', rfl⟩ := List.mem_map.1 hs
      exact absurd heq (hsplits s' hs')
    have hequity : (closingSplit equityGuid spec.equityAmount).value.exact = spec.equityAmount :=
      exact_fromDecimal hspec.equityCents
    have hself : (closingSplit equityGuid spec.equityAmount).accountGuid = equityGuid := rfl
    rw [entries, List.flatMap_cons, total_append, total_append, hzero, total_cons, if_pos hself,
      hequity, hspec.equity, total_nil, List.flatMap_cons, List.map_append, List.sum_append,
      neg_add]
    change _ + total _ _ (entries specs equityGuid) = _
    rw [ih hrest hother]
    ring

end Posted

/-! ## The accounts of a close -/

variable {db db' : Db} {r : CloseRequest} {equity acct : Account} {day : ℤ}

/-- What the tables satisfy: guids are unique, and a closed period is before its marker. -/
structure Tables (db : Db) : Prop where
  guids : (db.accounts.map Account.guid).Nodup
  marked : ∀ c ∈ db.closes, ∃ day, db.closedThrough c.1 = some day ∧ c.2 ≤ day
  once : db.closes.Nodup

theorem Tables.eq_of_guid (h : Tables db) {a b : Account} (ha : a ∈ db.accounts)
    (hb : b ∈ db.accounts) (hguid : a.guid = b.guid) : a = b :=
  List.inj_on_of_nodup_map h.guids ha hb hguid

theorem Tables.mem_bookAccountGuids (h : Tables db) {a : Account} (ha : a ∈ db.accounts)
    {bookGuid : String} : a.guid ∈ db.bookAccountGuids bookGuid ↔ a.bookGuid = bookGuid := by
  simp only [Db.bookAccountGuids, List.mem_map, List.mem_filter, decide_eq_true_eq]
  constructor
  · rintro ⟨b, ⟨hb, rfl⟩, hguid⟩
    rw [h.eq_of_guid hb ha hguid]
  · exact fun hbook => ⟨a, ⟨ha, hbook⟩, rfl⟩

def closableRows (r : CloseRequest) (equity : Account) (db : Db) : List CloseBookAccountRow :=
  (previewCloseBook (db.bookAccountGuids r.bookGuid) r.closeDate db).filter fun a =>
    a.commodityGuid = equity.commodityGuid

theorem exists_of_mem_preview {guids : List String} {row : CloseBookAccountRow}
    (h : row ∈ previewCloseBook guids day db) :
    ∃ a ∈ db.accounts, a.guid ∈ guids ∧ a.IsClosing ∧ row = ⟨a.guid, a.fullname, a.accountType,
      a.commodityGuid, round2 (db.balance a.guid day)⟩ := by
  rw [previewCloseBook, List.mem_map] at h
  obtain ⟨a, ha, rfl⟩ := h
  rw [List.mem_insertionSort, List.mem_filter, decide_eq_true_eq] at ha
  exact ⟨a, ha.1, ha.2.1, ha.2.2.1, rfl⟩

theorem mem_closableAccounts (hequity : db.account? r.equityAccountGuid = some equity) :
    acct ∈ closableAccounts r db ↔ acct ∈ db.accounts ∧ acct.bookGuid = r.bookGuid ∧
      acct.IsClosing ∧ acct.commodityGuid = equity.commodityGuid := by
  simp [closableAccounts, hequity]

theorem Tables.total_closableRows (h : Tables db)
    (hequity : db.account? r.equityAccountGuid = some equity) (p : String → Prop)
    [DecidablePred p] :
    total (fun row => p row.guid) (fun row => -row.balance) (closableRows r equity db) =
      -total (fun a => p a.guid) (fun a => closedBalance (db.balance a.guid r.closeDate))
        (closableAccounts r db) := by
  have hclosable : closableAccounts r db = db.accounts.filter fun a =>
      a.bookGuid = r.bookGuid ∧ a.IsClosing ∧ a.commodityGuid = equity.commodityGuid := by
    rw [closableAccounts, hequity]
  rw [← total_neg, closableRows, previewCloseBook, total_filter, total_of_map,
    total_perm (List.perm_insertionSort _ _), total_filter, hclosable, total_filter]
  refine total_congr fun a ha _ => ?_
  have hmem := @Tables.mem_bookAccountGuids db h a ha r.bookGuid
  rw [closedBalance]
  by_cases hbook : a.bookGuid = r.bookGuid ∧ a.IsClosing
  · by_cases hcurrency : a.commodityGuid = equity.commodityGuid
    · by_cases hsmall : minBalance ≤ |db.balance a.guid r.closeDate| <;>
        simp [hmem, hbook, hcurrency, hsmall]
    · simp [hcurrency]
  · have hleft : ¬(a.guid ∈ db.bookAccountGuids r.bookGuid ∧ a.IsClosing ∧
        minBalance ≤ |db.balance a.guid r.closeDate|) := fun h => hbook ⟨hmem.1 h.1, h.2.1⟩
    have hright : ¬(a.bookGuid = r.bookGuid ∧ a.IsClosing ∧
        a.commodityGuid = equity.commodityGuid) := fun h => hbook ⟨h.1, h.2.1⟩
    rw [if_neg hleft, if_neg hright]

theorem currency_closableRows : ∀ row ∈ closableRows r equity db,
    row.commodityGuid = equity.commodityGuid := fun row hrow => by
  simpa using (List.mem_filter.1 hrow).2

theorem exists_of_mem_splits {s : ClosingSplitSpec}
    (h : s ∈ (closingSpecs (closableRows r equity db) r.description).flatMap
      ClosingTransactionSpec.splits) :
    ∃ a ∈ db.accounts, a.guid ∈ db.bookAccountGuids r.bookGuid ∧ a.IsClosing ∧
      a.guid = s.accountGuid := by
  rw [flatMap_closingSpecs currency_closableRows] at h
  obtain ⟨row, hrow, rfl⟩ := List.mem_map.1 h
  have hrow : row ∈ closableRows r equity db :=
    (List.mem_append.1 hrow).elim (fun h => (List.mem_filter.1 h).1)
      fun h => (List.mem_filter.1 h).1
  obtain ⟨a, ha, hin, hclosing, rfl⟩ := exists_of_mem_preview (List.mem_filter.1 hrow).1
  exact ⟨a, ha, hin, hclosing, rfl⟩

theorem Tables.total_posted (h : Tables db)
    (hequity : db.account? r.equityAccountGuid = some equity) (p : String → Prop)
    [DecidablePred p] :
    total (fun s => p s.accountGuid) ClosingSplitSpec.amount
      ((closingSpecs (closableRows r equity db) r.description).flatMap
        ClosingTransactionSpec.splits) =
      -total (fun a => p a.guid) (fun a => closedBalance (db.balance a.guid r.closeDate))
        (closableAccounts r db) := by
  have hcents : ∀ row ∈ closableRows r equity db, WholeCents row.balance := fun row hrow => by
    obtain ⟨a, -, -, -, rfl⟩ := exists_of_mem_preview (List.mem_filter.1 hrow).1
    exact wholeCents_round2 _
  have htype : ∀ row ∈ closableRows r equity db,
      row.accountType = .income ∨ row.accountType = .expense := fun row hrow => by
    obtain ⟨a, -, -, htype, rfl⟩ := exists_of_mem_preview (List.mem_filter.1 hrow).1
    exact htype
  rw [flatMap_closingSpecs currency_closableRows, total_of_map,
    ← h.total_closableRows hequity p]
  exact total_closingRows hcents htype

/-! ## Commits -/

/-- The tables after the closing transactions of a request. -/
def posting (r : CloseRequest) (transactions : List Transaction) (db : Db) : Db :=
  let posted := { db with transactions := db.transactions ++ transactions }
  if transactions ≠ [] then recordClose (db.markerRows r.bookGuid) r posted else posted

section Posting

variable {transactions : List Transaction}

theorem posting_accounts : (posting r transactions db).accounts = db.accounts := by
  unfold posting
  split <;> rfl

theorem posting_transactions :
    (posting r transactions db).transactions = db.transactions ++ transactions := by
  unfold posting
  split <;> rfl

theorem filter_setMarker {markers : List (String × Option ℤ)} {bookGuid bookGuid' : String}
    (h : bookGuid' ≠ bookGuid) :
    ((markers.map fun m => if m.1 = bookGuid then (m.1, some day) else m).filter
      fun m => m.1 = bookGuid') = markers.filter fun m => m.1 = bookGuid' := by
  induction markers with
  | nil => rfl
  | cons m rest ih =>
    by_cases hm : m.1 = bookGuid
    · have hne : ¬bookGuid = bookGuid' := Ne.symm h
      simp [hm, hne, ih]
    · simp only [List.map_cons, if_neg hm, List.filter_cons, ih]

theorem markerRows_posting {bookGuid : String} (h : bookGuid ≠ r.bookGuid) :
    (posting r transactions db).markerRows bookGuid = db.markerRows bookGuid := by
  unfold posting
  split
  · unfold recordClose Db.markerRows
    dsimp only
    split
    · exact filter_setMarker h
    · have hne : ¬r.bookGuid = bookGuid := Ne.symm h
      simp [hne]
  · rfl

theorem closedThrough_setMarker {markers : List (String × Option ℤ)} {bookGuid : String}
    (h : markers.filter (fun m => m.1 = bookGuid) ≠ []) :
    (((markers.map fun m => if m.1 = bookGuid then (m.1, some day) else m).filter
      fun m => m.1 = bookGuid).head?.bind fun m => m.2) = some day := by
  induction markers with
  | nil => exact absurd rfl h
  | cons m rest ih =>
    by_cases hm : m.1 = bookGuid
    · simp [hm]
    · rw [List.filter_cons, if_neg (by simpa using hm)] at h
      rw [List.map_cons, if_neg hm, List.filter_cons, if_neg (by simpa using hm)]
      exact ih h

theorem closedThrough_posting (h : transactions ≠ []) :
    (posting r transactions db).closedThrough r.bookGuid = some r.closeDate := by
  rw [posting, if_pos h]
  unfold recordClose Db.closedThrough Db.markerRows
  dsimp only
  split
  · next hrows => exact closedThrough_setMarker hrows
  · next hrows =>
      rw [not_not] at hrows
      rw [List.filter_append, hrows]
      simp

theorem noon_le_endOfDay (day : ℤ) : noon day ≤ endOfDay day := by
  have hms : msPerDay = 86400000 := rfl
  rw [noon, endOfDay, hms]
  omega

/-- The splits of the closing transactions come on top of those through the close date. -/
theorem splitsThrough_posting {rows : List CloseBookAccountRow}
    (hposted : transactions = closingTransactions r rows) :
    (posting r transactions db).splitsThrough r.closeDate =
      db.splitsThrough r.closeDate ++
        entries (closingSpecs rows r.description) r.equityAccountGuid := by
  have hdated : ∀ t ∈ transactions,
      (t.postDate.any fun date => date ≤ endOfDay r.closeDate) = true := by
    rw [hposted]
    intro t ht
    obtain ⟨i, hi, rfl⟩ := List.mem_mapIdx.1 ht
    simpa [ClosingTransactionSpec.transaction] using noon_le_endOfDay r.closeDate
  rw [Db.splitsThrough, posting_transactions, List.filter_append, List.flatMap_append,
    List.filter_eq_self.2 hdated, hposted, closingTransactions, flatMap_mapIdx]
  rfl

end Posting

section Commit

variable (hashtext : String → ℤ)

def CommitSpec (L : Set ℤ) (a : Receipt) (db db' : Db) : Prop :=
  match a with
  | .nothing r =>
    db' = db ∧ previewCloseBook (db.bookAccountGuids r.bookGuid) r.closeDate db = []
  | .closed r transactions =>
    bookLock hashtext r.bookGuid ∈ L ∧
      isPeriodAlreadyClosed (db.closedThrough r.bookGuid) r.closeDate = false ∧
        ∃ equity, db.account? r.equityAccountGuid = some equity ∧ equity.accountType = .equity ∧
          equity.guid ∈ db.bookAccountGuids r.bookGuid ∧
            transactions = closingTransactions r (closableRows r equity db) ∧
              db' = posting r transactions db

variable {hashtext} {L : Set ℤ} {a : Receipt}

theorem Tables.commit (hdb : Tables db) (h : CommitSpec hashtext L a db db') : Tables db' := by
  cases a with
  | nothing r => exact h.1 ▸ hdb
  | closed r transactions =>
    obtain ⟨-, hopen, equity, -, -, -, -, rfl⟩ := h
    by_cases hnone : transactions = []
    · have hsame : posting r transactions db = db := by simp [posting, hnone]
      rwa [hsame]
    have hcloses : (posting r transactions db).closes =
        (r.bookGuid, r.closeDate) :: db.closes := by
      rw [posting, if_pos hnone]
      rfl
    have hearlier : ∀ c ∈ db.closes, c.1 = r.bookGuid → c.2 < r.closeDate := by
      intro c hc hbook
      obtain ⟨day, hday, hle⟩ := hdb.marked c hc
      rw [← hbook, hday] at hopen
      simp only [isPeriodAlreadyClosed, Option.any_some, decide_eq_false_iff_not] at hopen
      omega
    refine ⟨by rw [posting_accounts]; exact hdb.guids, ?_, ?_⟩
    · rw [hcloses]
      refine List.forall_mem_cons.2 ⟨⟨_, closedThrough_posting hnone, le_rfl⟩, fun c hc => ?_⟩
      by_cases hbook : c.1 = r.bookGuid
      · exact ⟨_, hbook ▸ closedThrough_posting hnone, (hearlier c hc hbook).le⟩
      · rw [Db.closedThrough, markerRows_posting hbook]
        exact hdb.marked c hc
    · rw [hcloses]
      exact List.nodup_cons.2 ⟨fun hmem => (hearlier _ hmem rfl).ne rfl, hdb.once⟩

theorem closableAccounts_congr (h : db'.accounts = db.accounts) :
    closableAccounts r db' = closableAccounts r db := by
  rw [closableAccounts, closableAccounts, Db.account?, Db.account?, h]

theorem Tables.small_of_preview_nil (hdb : Tables db)
    (h : previewCloseBook (db.bookAccountGuids r.bookGuid) r.closeDate db = [])
    (hacct : acct ∈ closableAccounts r db) :
    ¬minBalance ≤ |db.balance acct.guid r.closeDate| := by
  intro hlarge
  obtain ⟨equity, hequity⟩ : ∃ equity, db.account? r.equityAccountGuid = some equity := by
    unfold closableAccounts at hacct
    split at hacct
    · cases hacct
    · next equity hequity => exact ⟨equity, hequity⟩
  obtain ⟨hmem, hbook, htype, -⟩ := (mem_closableAccounts hequity).1 hacct
  rw [previewCloseBook, List.map_eq_nil_iff] at h
  have hin : acct ∈ (db.accounts.filter fun a => a.guid ∈ db.bookAccountGuids r.bookGuid ∧
      a.IsClosing ∧ minBalance ≤ |db.balance a.guid r.closeDate|).insertionSort
        fun a b => a.fullname ≤ b.fullname := by
    rw [List.mem_insertionSort, List.mem_filter, decide_eq_true_eq]
    exact ⟨hmem, (hdb.mem_bookAccountGuids hmem).2 hbook, htype, hlarge⟩
  rw [h] at hin
  cases hin

theorem closesExactly_nothing (hdb : Tables db)
    (h : CommitSpec hashtext L (.nothing r) db db') :
    ClosesExactly L (.nothing r) db db' ↔ InCents L (.nothing r) db db' := by
  obtain ⟨rfl, hnone⟩ := h
  constructor
  · intro hexact acct hacct
    obtain ⟨hbalance, hquantity⟩ := hexact.zeroed acct hacct
    rw [hbalance, hquantity]
    exact ⟨wholeCents_zero, rfl⟩
  · intro hcents
    have hzero : ∀ acct ∈ closableAccounts r db', db'.balance acct.guid r.closeDate = 0 :=
      fun acct hacct =>
        eq_zero_of_small (hcents acct hacct).1 (hdb.small_of_preview_nil hnone hacct)
    refine ⟨(List.append_nil _).symm, fun acct hacct => ⟨hzero acct hacct, ?_⟩, nofun, ?_, hdb.once⟩
    · exact (hcents acct hacct).2.trans (hzero acct hacct)
    · refine (List.sum_eq_zero fun x hx => ?_).symm
      obtain ⟨acct, hacct, rfl⟩ := List.mem_map.1 hx
      exact hzero acct hacct

theorem Tables.balance_posting (hdb : Tables db)
    (hequity : db.account? r.equityAccountGuid = some equity)
    (htype : equity.accountType = .equity) {transactions : List Transaction}
    (hposted : transactions = closingTransactions r (closableRows r equity db))
    (hacct : acct ∈ closableAccounts r db) :
    (posting r transactions db).balance acct.guid r.closeDate =
        db.balance acct.guid r.closeDate - closedBalance (db.balance acct.guid r.closeDate) ∧
      (posting r transactions db).quantityBalance acct.guid r.closeDate =
        db.quantityBalance acct.guid r.closeDate -
          closedBalance (db.balance acct.guid r.closeDate) := by
  obtain ⟨hmem, -, hclosing, -⟩ := (mem_closableAccounts hequity).1 hacct
  have hguid : equity.guid = r.equityAccountGuid := by simpa using List.find?_some hequity
  have hother : ¬r.equityAccountGuid = acct.guid := by
    intro heq
    have hsame : equity = acct :=
      hdb.eq_of_guid (List.mem_of_find?_eq_some hequity) hmem (hguid.trans heq)
    rw [← hsame, Account.IsClosing, htype] at hclosing
    simp at hclosing
  have hnodup : ((closableAccounts r db).map Account.guid).Nodup := by
    rw [closableAccounts, hequity]
    exact hdb.guids.sublist (List.filter_sublist.map _)
  have hentries (f : Split → Amount)
      (hf : ∀ guid amount, f (closingSplit guid amount) = fromDecimal amount 100) :
      total (fun s => s.accountGuid = acct.guid) (fun s => (f s).exact)
        (entries (closingSpecs (closableRows r equity db) r.description) r.equityAccountGuid) =
          -closedBalance (db.balance acct.guid r.closeDate) := by
    rw [total_entries (p := fun g => g = acct.guid) hf exact_closingSpecs hother,
      hdb.total_posted hequity fun g => g = acct.guid]
    exact congrArg Neg.neg (total_key hnodup hacct)
  constructor
  · rw [Db.balance, splitsThrough_posting hposted, total_append,
      hentries Split.value fun _ _ => rfl]
    exact (sub_eq_add_neg _ _).symm
  · rw [Db.quantityBalance, splitsThrough_posting hposted, total_append,
      hentries Split.quantity fun _ _ => rfl]
    exact (sub_eq_add_neg _ _).symm

theorem Tables.received_posting (hdb : Tables db)
    (hequity : db.account? r.equityAccountGuid = some equity)
    (htype : equity.accountType = .equity) :
    total (fun s => s.accountGuid = r.equityAccountGuid) (fun s => s.value.exact)
      (entries (closingSpecs (closableRows r equity db) r.description) r.equityAccountGuid) =
        ((closableAccounts r db).map fun a =>
          closedBalance (db.balance a.guid r.closeDate)).sum := by
  have hguid : equity.guid = r.equityAccountGuid := by simpa using List.find?_some hequity
  have hother : ∀ s ∈ (closingSpecs (closableRows r equity db) r.description).flatMap
      ClosingTransactionSpec.splits, s.accountGuid ≠ r.equityAccountGuid := by
    intro s hs heq
    obtain ⟨a, ha, -, hclosing, hsplit⟩ := exists_of_mem_splits hs
    have hsame : equity = a :=
      hdb.eq_of_guid (List.mem_of_find?_eq_some hequity) ha (hguid.trans (hsplit.trans heq).symm)
    rw [← hsame, Account.IsClosing, htype] at hclosing
    simp at hclosing
  have hall {α : Type} (w : α → ℚ) (rows : List α) :
      total (fun _ => True) w rows = (rows.map w).sum := by simp [total]
  have hsum := hdb.total_posted hequity fun _ => True
  rw [hall, hall] at hsum
  rw [total_entries_equity exact_closingSpecs hother, hsum, neg_neg]

theorem closesExactly_closed (hdb : Tables db) {transactions : List Transaction}
    (h : CommitSpec hashtext L (.closed r transactions) db db') :
    ClosesExactly L (.closed r transactions) db db' ↔
      InCents L (.closed r transactions) db db' := by
  have hdb' := hdb.commit h
  obtain ⟨-, -, equity, hequity, htype, -, hposted, rfl⟩ := h
  have hsame : closableAccounts r (posting r transactions db) = closableAccounts r db :=
    closableAccounts_congr posting_accounts
  constructor
  · intro hexact acct hacct
    obtain ⟨hbalance, hquantity⟩ := hexact.zeroed acct (hsame.symm ▸ hacct)
    obtain ⟨hvalue, hquant⟩ := hdb.balance_posting hequity htype hposted hacct
    change (posting r transactions db).balance acct.guid r.closeDate = 0 at hbalance
    change (posting r transactions db).quantityBalance acct.guid r.closeDate = 0 at hquantity
    rw [hvalue, sub_eq_zero] at hbalance
    rw [hquant, sub_eq_zero, ← hbalance] at hquantity
    exact ⟨closedBalance_eq_iff.1 hbalance.symm, hquantity⟩
  · intro hcents
    have hclosed : ∀ acct ∈ closableAccounts r db,
        closedBalance (db.balance acct.guid r.closeDate) = db.balance acct.guid r.closeDate :=
      fun acct hacct => closedBalance_eq_iff.2 (hcents acct hacct).1
    refine ⟨posting_transactions, fun acct hacct => ?_, fun t ht => ?_, ?_, hdb'.once⟩
    · have hacct : acct ∈ closableAccounts r db := hsame ▸ hacct
      obtain ⟨hvalue, hquant⟩ := hdb.balance_posting hequity htype hposted hacct
      have hquantity : db.quantityBalance acct.guid r.closeDate =
          db.balance acct.guid r.closeDate := (hcents acct hacct).2
      change (posting r transactions db).balance acct.guid r.closeDate = 0 ∧
        (posting r transactions db).quantityBalance acct.guid r.closeDate = 0
      rw [hvalue, hquant, hclosed acct hacct, hquantity, sub_self]
      exact ⟨rfl, rfl⟩
    · change t ∈ transactions at ht
      rw [hposted] at ht
      obtain ⟨i, hi, rfl⟩ := List.mem_mapIdx.1 ht
      exact (exact_closingSpecs _ (List.getElem_mem hi)).balanced
    · change total _ _ (transactions.flatMap Transaction.splits) = _
      rw [hposted, closingTransactions, flatMap_mapIdx]
      refine (hdb.received_posting hequity htype).trans ?_
      exact congrArg List.sum (List.map_congr_left hclosed)

theorem closesExactly_iff (hdb : Tables db) (h : CommitSpec hashtext L a db db') :
    ClosesExactly L a db db' ↔ InCents L a db db' := by
  cases a with
  | nothing r => exact closesExactly_nothing hdb h
  | closed r transactions => exact closesExactly_closed hdb h

end Commit

/-! ## Closes side by side -/

section Programs

variable (hashtext : String → ℤ)

/-- What a close relies on while it holds the locks of some books: no transaction comes to their
accounts, and their markers stay. -/
structure Rely (L : Set ℤ) (db db' : Db) : Prop where
  accounts : db'.accounts = db.accounts
  posted : ∃ more, db'.transactions = db.transactions ++ more ∧ ∀ t ∈ more, ∀ s ∈ t.splits,
    ∃ a ∈ db.accounts, a.guid = s.accountGuid ∧ bookLock hashtext a.bookGuid ∉ L
  markers : ∀ bookGuid, bookLock hashtext bookGuid ∈ L →
    db'.markerRows bookGuid = db.markerRows bookGuid

variable {hashtext} {L : Set ℤ} {db'' : Db}

theorem Rely.refl : Rely hashtext L db db :=
  ⟨rfl, ⟨[], (List.append_nil _).symm, nofun⟩, fun _ _ => rfl⟩

theorem Rely.trans (h : Rely hashtext L db db') (h' : Rely hashtext L db' db'') :
    Rely hashtext L db db'' := by
  obtain ⟨more, hmore, hother⟩ := h.posted
  obtain ⟨more', hmore', hother'⟩ := h'.posted
  refine ⟨h'.accounts.trans h.accounts, ⟨more ++ more', ?_, ?_⟩, fun b hb =>
    (h'.markers b hb).trans (h.markers b hb)⟩
  · rw [hmore', hmore, List.append_assoc]
  · exact List.forall_mem_append.2 ⟨hother, h.accounts ▸ hother'⟩

instance : Std.Refl (Rely hashtext L) := ⟨fun _ => .refl⟩

theorem isTrans_rely (L : Set ℤ) : IsTrans Db (Rely hashtext L) := ⟨fun _ _ _ h h' => h.trans h'⟩

theorem Rely.balance (h : Rely hashtext L db db')
    (hdb : (db.accounts.map Account.guid).Nodup) (hacct : acct ∈ db.accounts)
    (hlock : bookLock hashtext acct.bookGuid ∈ L) :
    db'.balance acct.guid day = db.balance acct.guid day := by
  obtain ⟨more, hmore, hother⟩ := h.posted
  rw [Db.balance, Db.splitsThrough, hmore, List.filter_append, List.flatMap_append, total_append]
  refine add_eq_left.2 (total_eq_zero fun s hs heq => ?_)
  obtain ⟨t, ht, hs⟩ := List.mem_flatMap.1 hs
  obtain ⟨a, ha, hguid, hfree⟩ := hother t (List.mem_filter.1 ht).1 s hs
  have hsame : a = acct := List.inj_on_of_nodup_map hdb ha hacct (hguid.trans heq)
  exact absurd (hsame ▸ hlock) hfree

theorem Rely.preview (h : Rely hashtext L db db')
    (hdb : (db.accounts.map Account.guid).Nodup) {bookGuid : String}
    (hlock : bookLock hashtext bookGuid ∈ L) :
    previewCloseBook (db'.bookAccountGuids bookGuid) day db' =
      previewCloseBook (db.bookAccountGuids bookGuid) day db := by
  have hguids : db'.bookAccountGuids bookGuid = db.bookAccountGuids bookGuid := by
    rw [Db.bookAccountGuids, Db.bookAccountGuids, h.accounts]
  have hbalance : ∀ a ∈ db.accounts, a.guid ∈ db.bookAccountGuids bookGuid →
      db'.balance a.guid day = db.balance a.guid day := by
    intro a ha hmem
    obtain ⟨b, hb, hguid⟩ := List.mem_map.1 hmem
    rw [List.mem_filter, decide_eq_true_eq] at hb
    have hsame : b = a := List.inj_on_of_nodup_map hdb hb.1 ha hguid
    exact h.balance hdb ha (hsame ▸ hb.2 ▸ hlock)
  have hfilter : (db.accounts.filter fun a => a.guid ∈ db.bookAccountGuids bookGuid ∧
      a.IsClosing ∧ minBalance ≤ |db'.balance a.guid day|) =
        db.accounts.filter fun a => a.guid ∈ db.bookAccountGuids bookGuid ∧ a.IsClosing ∧
          minBalance ≤ |db.balance a.guid day| := by
    refine List.filter_congr fun a ha => ?_
    by_cases hmem : a.guid ∈ db.bookAccountGuids bookGuid
    · rw [hbalance a ha hmem]
    · simp [hmem]
  rw [previewCloseBook, previewCloseBook, hguids, h.accounts, hfilter]
  refine List.map_congr_left fun a ha => ?_
  rw [List.mem_insertionSort, List.mem_filter, decide_eq_true_eq] at ha
  rw [hbalance a ha.1 ha.2.1]

theorem insertTransactions_eq_some {transactions : List Transaction}
    (h : insertTransactions transactions db = some db') :
    db' = { db with transactions := db.transactions ++ transactions } := by
  unfold insertTransactions at h
  split_ifs at h
  exact (Option.some.inj h).symm

theorem wp_executeCloseBook (hdb : Tables db) :
    (executeCloseBook hashtext r).wp (Rely hashtext) (fun _ _ => true)
      (Commits (Rely hashtext) (CommitSpec hashtext)) ∅ some db := by
  simp only [executeCloseBook, wp_bind, wp_select, wp_lock, wp_require, if_true]
  rintro db₁ h₁ _ ⟨⟩ db₂ h₂ db₃ h₃ _ ⟨⟩ hopen db₄ h₄ _ ⟨⟩
  have hlock : bookLock hashtext r.bookGuid ∈ insert (bookLock hashtext r.bookGuid) (∅ : Set ℤ) :=
    Set.mem_insert _ _
  have hnodup₄ : (db₄.accounts.map Account.guid).Nodup := by
    rw [h₄.accounts, h₃.accounts, h₂.accounts, h₁.accounts]
    exact hdb.guids
  -- The accounts of the book do not change.
  have hguids : db₁.bookAccountGuids r.bookGuid = db₄.bookAccountGuids r.bookGuid := by
    rw [Db.bookAccountGuids, Db.bookAccountGuids, h₄.accounts, h₃.accounts, h₂.accounts]
  rw [hguids]
  generalize hrows : previewCloseBook (db₄.bookAccountGuids r.bookGuid) r.closeDate db₄ = rows
  cases rows with
  | nil =>
    rintro x h₅ _ ⟨⟩
    exact ⟨rfl, (h₅.preview hnodup₄ hlock).trans hrows⟩
  | cons row rest =>
    simp only [closeRows, wp_bind, wp_select, wp_expect, wp_require, wp_tryWrite, wp_onlyIf,
      wp_write, wp_pure]
    rintro db₅ h₅ _ ⟨⟩ equity hequity htype hinBook db₆ h₆ _ ⟨⟩ -
    -- What was read holds of the tables that the commit finds.
    have hcommit {x : Db} (h₇ : Rely hashtext (insert (bookLock hashtext r.bookGuid) ∅) db₆ x) :
        isPeriodAlreadyClosed (x.closedThrough r.bookGuid) r.closeDate = false ∧
        x.markerRows r.bookGuid = db₃.markerRows r.bookGuid ∧
        x.account? r.equityAccountGuid = some equity ∧
        equity.guid ∈ x.bookAccountGuids r.bookGuid ∧
        closableRows r equity x =
          (row :: rest).filter fun a => a.commodityGuid = equity.commodityGuid := by
      have hto := (h₅.trans h₆).trans h₇
      have hmarkers := (h₄.trans hto).markers r.bookGuid hlock
      have hxguids : x.bookAccountGuids r.bookGuid = db₄.bookAccountGuids r.bookGuid := by
        rw [Db.bookAccountGuids, Db.bookAccountGuids, hto.accounts]
      refine ⟨?_, hmarkers, ?_, hxguids ▸ hinBook, ?_⟩
      · rw [Db.closedThrough, hmarkers]
        exact Bool.eq_false_iff.2 hopen
      · rw [← hequity, Db.account?, Db.account?, (h₆.trans h₇).accounts]
      · rw [closableRows, hto.preview hnodup₄ hlock, hrows]
    constructor
    · intro hne x h₇ z hz
      obtain ⟨y, hy, hyz⟩ := Option.bind_eq_some_iff.1 hz
      cases hyz
      obtain ⟨hclosed, hmarkers, hfound, hin, hclosable⟩ := hcommit h₇
      refine ⟨hlock, hclosed, equity, hfound, htype, hin, by rw [hclosable], ?_⟩
      rw [insertTransactions_eq_some hy, posting, if_pos hne, hmarkers]
    · intro hnone x h₇ z hz
      obtain ⟨hclosed, hmarkers, hfound, hin, hclosable⟩ := hcommit h₇
      refine ⟨hlock, hclosed, equity, hfound, htype, hin, by rw [hclosable], ?_⟩
      rw [insertTransactions_eq_some hz, posting, if_neg hnone]

theorem good_executeCloseBook (r : CloseRequest) :
    (Script.single (executeCloseBook hashtext r)).Good (Rely hashtext) (fun _ _ => true) Tables
      (CommitSpec hashtext) :=
  ⟨fun _ hdb => wp_executeCloseBook hdb, fun _ => trivial⟩

theorem rely_of_commit (hdb : Tables db) {a : Receipt} (h : CommitSpec hashtext L a db db')
    {L' : Set ℤ} (hL : ∀ row ∈ L', row ∉ L) : Rely hashtext L' db db' := by
  cases a with
  | nothing r => exact h.1 ▸ .refl
  | closed r transactions =>
    obtain ⟨hlock, -, equity, hequity, -, hin, hposted, rfl⟩ := h
    have hfree : bookLock hashtext r.bookGuid ∉ L' := fun hmem => hL _ hmem hlock
    refine ⟨posting_accounts, ⟨transactions, posting_transactions, ?_⟩, fun b hb => ?_⟩
    · intro t ht s hs
      have hentry : s ∈ entries (closingSpecs (closableRows r equity db) r.description)
          r.equityAccountGuid := by
        have hflat : (closingTransactions r (closableRows r equity db)).flatMap
            Transaction.splits = entries (closingSpecs (closableRows r equity db) r.description)
              r.equityAccountGuid := flatMap_mapIdx r.guids
        rw [← hflat, ← hposted]
        exact List.mem_flatMap.2 ⟨t, ht, hs⟩
      obtain ⟨spec, hspec, hs⟩ := List.mem_flatMap.1 hentry
      rcases List.mem_append.1 hs with hs | hs
      · obtain ⟨split, hsplit, rfl⟩ := List.mem_map.1 hs
        obtain ⟨a, ha, hbook, -, hguid⟩ :=
          exists_of_mem_splits (List.mem_flatMap.2 ⟨spec, hspec, hsplit⟩)
        refine ⟨a, ha, hguid, ?_⟩
        rwa [(hdb.mem_bookAccountGuids ha).1 hbook]
      · obtain rfl := List.mem_singleton.1 hs
        have hmem := List.mem_of_find?_eq_some hequity
        have hguid : equity.guid = r.equityAccountGuid := by
          simpa using List.find?_some hequity
        refine ⟨equity, hmem, hguid, ?_⟩
        rwa [(hdb.mem_bookAccountGuids hmem).1 hin]
    · refine markerRows_posting fun heq => hfree (heq ▸ hb)

/-- In every interleaving of closes, each is exact exactly when it finds whole cents, the same in
value as in the commodity of each account. -/
theorem closes_exactly_iff_inCents (hashtext : String → ℤ) (steps : List CloseStep) (db : Db)
    (hguids : (db.accounts.map Account.guid).Nodup) (hcloses : db.closes = []) :
    Along (next hashtext) (AtCommit ClosesExactly) steps (start db) ↔
      Along (next hashtext) (AtCommit InCents) steps (start db) := by
  refine along_atCommit_iff isTrans_rely good_executeCloseBook
    (fun _ _ _ _ hdb h => ⟨hdb.commit h, fun _ hL => rely_of_commit hdb h hL⟩)
    (fun _ _ _ _ hdb h => closesExactly_iff hdb h) steps ⟨hguids, ?_, ?_⟩
  · simp [hcloses]
  · simp [hcloses]

end Programs

/-! ## Examples -/

/-- A sale of some amount into an income account. -/
def soldFor (amount : Amount) : Db where
  accounts := [⟨"bank", "book", "Assets:Bank", .bank, "KWD"⟩,
    ⟨"retained", "book", "Equity:Retained", .equity, "KWD"⟩,
    ⟨"sales", "book", "Income:Sales", .income, "KWD"⟩]
  transactions := [⟨"t", "KWD", some 0, "Sale", [⟨"bank", "", amount, amount⟩,
    ⟨"sales", "", ⟨-amount.num, amount.denom⟩, ⟨-amount.num, amount.denom⟩⟩]⟩]
  markers := []
  lockDates := []
  closes := []

def closeOn (day : ℤ) (guid : String) : CloseRequest := ⟨"book", day, "retained", "", fun _ => guid⟩

/-- Two closes of one day, the second of which finds the first one's marker, and one of a later
day. -/
def closedAgain : List CloseStep :=
  Step.call 0 (closeOn 0 "c0") :: .advance 0 :: .advance 0 ::
    .call 1 (closeOn 0 "c1") :: .advance 1 :: List.replicate 7 (Step.advance 0) ++ List.replicate 3 (Step.advance 1) ++
      Step.call 2 (closeOn 1 "c2") :: List.replicate 5 (Step.advance 2)

theorem closes_exactly_closedAgain :
    (run (next fun key => key.length) closedAgain (start (soldFor ⟨1250, 100⟩))).isSome ∧
      (Along (next fun key => key.length) (AtCommit ClosesExactly) closedAgain
          (start (soldFor ⟨1250, 100⟩)) ↔
        Along (next fun key => key.length) (AtCommit InCents) closedAgain
          (start (soldFor ⟨1250, 100⟩))) :=
  ⟨by decide +kernel, closes_exactly_iff_inCents (fun key => key.length) closedAgain
    (soldFor ⟨1250, 100⟩) (by decide) rfl⟩

def closedOnce : List CloseStep := .call 0 (closeOn 0 "c0") :: List.replicate 9 (.advance 0)

/-- A close of a balance in thousandths leaves the rest of it behind. -/
theorem not_closesExactly_thousandths :
    ¬Along (next fun key => key.length) (AtCommit ClosesExactly) closedOnce
      (start (soldFor ⟨1234, 1000⟩)) := by
  decide +kernel

end CloseBook
