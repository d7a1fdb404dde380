import GnucashWeb.Lib.Kahn
import GnucashWeb.Lots.RunMoves

/-!
# The order in which accounts are scrubbed

`runScrubAllAccounts` scrubs the senders of transfers before their receivers.  Of the senders of one
receipt it reads only the first, so the order respects all transfers, in whatever order the accounts
are listed, exactly when more of the links it reads are chained up behind each receiver than behind
its senders (`runScrubAllAccounts_scrubsInOrder_iff`).
-/

open Ledger Transact
open Kahn (Entry HasChain Before)
open Relation (TransGen)

namespace Lots

/-! ## The links -/

/-- The stock and fund accounts among the accounts of a book. -/
def investmentAccounts (db : Db) (bookAccountGuids : List String) : List Account :=
  db.accounts.filter fun a =>
    a.guid ∈ bookAccountGuids ∧ (a.accountType = .stock ∨ a.accountType = .mutual)

/-- The splits with which an account receives shares. -/
def transferIns (db : Db) (acct : Account) : List Split :=
  (db.splitsOfAccount acct.guid).filter fun s => 0 < s.quantity.num

/-- Whether a split sends an account's commodity from another account. -/
def isSend (db : Db) (acct : Account) (s : Split) : Bool :=
  s.accountGuid ≠ acct.guid ∧ db.commodity s = acct.commodityGuid ∧ !db.onType .trading s ∧
    s.quantity.num < 0

/-- The first split of the same transaction that sends what is received. -/
def matchingSend (db : Db) (acct : Account) (split : Split) : Option Split :=
  (db.splitsOfTx split.txGuid).find? (isSend db acct)

/-- The accounts that an account waits for, each once. -/
def dependenciesOf (db : Db) (accounts : List Account) (acct : Account) : List String :=
  ((((transferIns db acct).filterMap (matchingSend db acct)).map Split.accountGuid).filter
    (· ∈ accounts.map Account.guid)).dedup

/-! ## The run -/

/-- Kahn's algorithm over the accounts; those on or behind a cycle follow at the end. -/
def scrubOrder (db : Db) (accounts : List Account) : List String :=
  let entries := accounts.map fun acct =>
    let deps := dependenciesOf db accounts acct
    (⟨acct.guid, deps, deps.length⟩ : Entry String)
  accounts.foldl
    (fun order acct => if acct.guid ∈ order then order else order ++ [acct.guid])
    (Kahn.sort entries)

inductive ScrubPhase
  | clear | scrub
deriving DecidableEq, Repr

structure ScrubAccountFailure where
  accountGuid : String
  accountName : String
  phase : ScrubPhase
  error : Failure

/-- The result of each account scrubbed, an error where the source has an empty result with a
warning. -/
structure ScrubAllResult where
  results : List (String × Except Failure AutoAssignResult)
  order : List String
  cleared : ℕ
  failures : List ScrubAccountFailure

variable (host : Host) (method : LotAssignmentMethod) (accounts : List Account)

def accountName (accountGuid : String) : String :=
  ((accounts.find? fun a => a.guid = accountGuid).map Account.name).getD accountGuid

def clearAccount (accountGuid : String) (db : Db) (r : ScrubAllResult) : Db × ScrubAllResult :=
  match clearLotAssignments accountGuid db with
  | .ok (clearResult, db) => (db, { r with cleared := r.cleared + clearResult.lotsDeleted })
  | .error e => (db, { r with
      failures := r.failures ++ [⟨accountGuid, accountName accounts accountGuid, .clear, e⟩] })

def scrubAccount (accountGuid : String) (db : Db) (r : ScrubAllResult) : Db × ScrubAllResult :=
  match assignWithStrategy host accountGuid method db with
  | .ok (result, db) => (db, { r with results := r.results ++ [(accountGuid, .ok result)] })
  | .error e => (db, { r with
      results := r.results ++ [(accountGuid, .error e)]
      failures := r.failures ++ [⟨accountGuid, accountName accounts accountGuid, .scrub, e⟩] })

/-- The accounts come in the order in which the database lists them. -/
def runScrubAllAccounts (clearFirst : Bool) (db : Db) : Db × ScrubAllResult :=
  let order := scrubOrder db accounts
  let cleared : Db × ScrubAllResult :=
    if clearFirst then
      order.foldl (fun s accountGuid => clearAccount accounts accountGuid s.1 s.2)
        (db, ⟨[], order, 0, []⟩)
    else (db, ⟨[], order, 0, []⟩)
  order.foldl (fun s accountGuid => scrubAccount host method accounts accountGuid s.1 s.2) cleared

variable (db : Db)

/-- A transaction moves shares from the first account to the second. -/
def Sends (sender receiver : String) : Prop :=
  sender ∈ accounts.map Account.guid ∧ ∃ acct ∈ accounts, acct.guid = receiver ∧
    ∃ split ∈ transferIns db acct, ∃ s ∈ db.splitsOfTx split.txGuid,
      isSend db acct s = true ∧ s.accountGuid = sender

/-- Every account is scrubbed once and, unless transfers go in a circle, after those it receives
from. -/
structure ScrubsInOrder (r : ScrubAllResult) : Prop where
  once : (r.results.map Prod.fst).Perm (accounts.map Account.guid)
  after : (∀ a, ¬TransGen (Sends accounts db) a a) →
    ∀ sender receiver, Sends accounts db sender receiver →
      Before (r.results.map Prod.fst) sender receiver

/-- The accounts that an account waits for. -/
def readLinks (receiver : String) : List String :=
  ((accounts.find? fun a => a.guid = receiver).map (dependenciesOf db accounts)).getD []

/-! ## Every account once -/

theorem results_scrubAccount (accountGuid : String) (r : ScrubAllResult) :
    ((scrubAccount host method accounts accountGuid db r).2.results).map Prod.fst =
      r.results.map Prod.fst ++ [accountGuid] := by
  unfold scrubAccount
  split <;> simp

theorem results_clearAccount (accountGuid : String) (r : ScrubAllResult) :
    (clearAccount accounts accountGuid db r).2.results = r.results := by
  unfold clearAccount
  split <;> rfl

theorem results_foldl_clearAccount (order : List String) (s : Db × ScrubAllResult) :
    (order.foldl (fun s accountGuid => clearAccount accounts accountGuid s.1 s.2) s).2.results =
      s.2.results := by
  induction order generalizing s with
  | nil => rfl
  | cons accountGuid rest ih => rw [List.foldl_cons, ih, results_clearAccount]

theorem results_foldl_scrubAccount (order : List String) (s : Db × ScrubAllResult) :
    ((order.foldl (fun s accountGuid => scrubAccount host method accounts accountGuid s.1 s.2)
        s).2.results).map Prod.fst = s.2.results.map Prod.fst ++ order := by
  induction order generalizing s with
  | nil => simp
  | cons accountGuid rest ih => rw [List.foldl_cons, ih, results_scrubAccount]; simp

theorem results_runScrubAllAccounts (clearFirst : Bool) :
    ((runScrubAllAccounts host method accounts clearFirst db).2.results).map Prod.fst =
      scrubOrder db accounts := by
  unfold runScrubAllAccounts
  rw [results_foldl_scrubAccount]
  cases clearFirst
  · rfl
  · simp [results_foldl_clearAccount]

variable {accounts db}

theorem foldl_addMissing (rest : List Account) {order : List String} (h : order.Nodup) :
    (rest.foldl (fun order acct => if acct.guid ∈ order then order else order ++ [acct.guid])
        order).Nodup ∧
      ∀ g, g ∈ rest.foldl (fun order acct =>
          if acct.guid ∈ order then order else order ++ [acct.guid]) order ↔
        g ∈ order ∨ g ∈ rest.map Account.guid := by
  induction rest generalizing order with
  | nil => simpa using h
  | cons acct rest ih =>
    rw [List.foldl_cons]
    by_cases hmem : acct.guid ∈ order
    · rw [if_pos hmem]
      refine ⟨(ih h).1, fun g => ?_⟩
      rw [(ih h).2 g, List.map_cons, List.mem_cons]
      constructor
      · exact fun hg => hg.imp_right .inr
      · rintro (hg | rfl | hg)
        exacts [.inl hg, .inl hmem, .inr hg]
    · rw [if_neg hmem]
      have hnodup : (order ++ [acct.guid]).Nodup := by
        simpa [List.nodup_append'] using ⟨h, hmem⟩
      refine ⟨(ih hnodup).1, fun g => ?_⟩
      rw [(ih hnodup).2 g]
      simp [or_assoc]

/-! ## The links that are read -/

theorem find?_guid (hkeys : (accounts.map Account.guid).Nodup) {acct : Account}
    (h : acct ∈ accounts) : (accounts.find? fun a => a.guid = acct.guid) = some acct := by
  cases hfind : accounts.find? fun a => a.guid = acct.guid with
  | none => simpa using List.find?_eq_none.1 hfind acct h
  | some found =>
    have hguid : found.guid = acct.guid := by simpa using List.find?_some hfind
    exact congrArg some (List.inj_on_of_nodup_map hkeys (List.mem_of_find?_eq_some hfind) h hguid)

variable {accounts' : List Account}

theorem dependenciesOf_perm (h : accounts'.Perm accounts) :
    dependenciesOf db accounts' = dependenciesOf db accounts := by
  funext acct
  unfold dependenciesOf
  congr 1
  refine List.filter_congr fun g _ => ?_
  simp only [(h.map Account.guid).mem_iff]

theorem readLinks_nodup (receiver : String) : (readLinks accounts db receiver).Nodup := by
  unfold readLinks
  cases accounts.find? fun a => a.guid = receiver with
  | none => exact .nil
  | some acct => exact List.nodup_dedup _

theorem sends_of_mem_readLinks {sender receiver : String}
    (h : sender ∈ readLinks accounts db receiver) : Sends accounts db sender receiver := by
  unfold readLinks at h
  cases hfind : accounts.find? fun a => a.guid = receiver with
  | none => simp [hfind] at h
  | some acct =>
    rw [hfind] at h
    simp only [Option.map_some, Option.getD_some, dependenciesOf, List.mem_dedup,
      List.mem_filter, List.mem_map, List.mem_filterMap, decide_eq_true_eq] at h
    obtain ⟨⟨s, ⟨split, hsplit, hs⟩, rfl⟩, hsender⟩ := h
    refine ⟨List.mem_map.2 hsender, acct, List.mem_of_find?_eq_some hfind,
      by simpa using List.find?_some hfind, split, hsplit, s, ?_, ?_, rfl⟩
    · exact List.mem_of_find?_eq_some hs
    · exact List.find?_some hs

/-- The algorithm runs on the links that are read, in whatever order the accounts are listed. -/
theorem entries_eq (hkeys : (accounts.map Account.guid).Nodup) (h : accounts'.Perm accounts) :
    (accounts'.map fun acct =>
      let deps := dependenciesOf db accounts' acct
      (⟨acct.guid, deps, deps.length⟩ : Entry String)) =
      (accounts'.map Account.guid).map (Kahn.waiting (readLinks accounts db) []) := by
  rw [List.map_map]
  refine List.map_congr_left fun acct hacct => ?_
  have hlinks : readLinks accounts db acct.guid = dependenciesOf db accounts' acct := by
    rw [readLinks, find?_guid hkeys (h.mem_iff.1 hacct), dependenciesOf_perm h]
    rfl
  simp [Kahn.waiting, hlinks]

theorem isOutput_accounts (db : Db) (hkeys : (accounts.map Account.guid).Nodup)
    (h : accounts'.Perm accounts) :
    Kahn.IsOutput (accounts'.map Account.guid) (readLinks accounts db)
      (Kahn.sort ((accounts'.map Account.guid).map (Kahn.waiting (readLinks accounts db) []))) :=
  Kahn.isOutput_sort ((h.map Account.guid).nodup_iff.2 hkeys) readLinks_nodup

theorem scrubOrder_perm (hkeys : (accounts.map Account.guid).Nodup) (h : accounts'.Perm accounts) :
    (scrubOrder db accounts').Perm (accounts'.map Account.guid) := by
  have hkeys' := (h.map Account.guid).nodup_iff.2 hkeys
  have hout := isOutput_accounts db hkeys h
  unfold scrubOrder
  rw [entries_eq hkeys h]
  obtain ⟨hnodup, hmem⟩ := foldl_addMissing accounts' (hout.nodup hkeys')
  refine (List.perm_ext_iff_of_nodup hnodup hkeys').2 fun g => ?_
  rw [hmem g]
  exact or_iff_right_of_imp fun hg => (hout.mem_iff.1 hg).1

theorem foldl_addMissing_of_subset (rest : List Account) {order : List String}
    (h : ∀ acct ∈ rest, acct.guid ∈ order) :
    rest.foldl (fun order acct => if acct.guid ∈ order then order else order ++ [acct.guid])
      order = order := by
  induction rest with
  | nil => rfl
  | cons acct rest ih =>
    rw [List.foldl_cons, if_pos (h acct List.mem_cons_self)]
    exact ih fun a ha => h a (List.mem_cons_of_mem _ ha)

theorem scrubOrder_of_acyclic (hkeys : (accounts.map Account.guid).Nodup)
    (h : accounts'.Perm accounts)
    (hacyclic : ∀ a, ¬TransGen (fun d k => d ∈ readLinks accounts db k) a a) :
    scrubOrder db accounts' =
      Kahn.sort ((accounts'.map Account.guid).map (Kahn.waiting (readLinks accounts db) [])) := by
  have hout := isOutput_accounts db hkeys h
  unfold scrubOrder
  rw [entries_eq hkeys h]
  refine foldl_addMissing_of_subset accounts' fun acct hacct => ?_
  refine hout.mem_of_acyclic (fun k _ d hd => ?_) hacyclic (List.mem_map_of_mem hacct)
  exact (h.map Account.guid).mem_iff.2 (sends_of_mem_readLinks hd).1

theorem sends_perm (h : accounts'.Perm accounts) :
    Sends accounts' db = Sends accounts db := by
  funext sender receiver
  simp only [Sends, (h.map Account.guid).mem_iff, h.mem_iff]

theorem exists_perm_accounts (hkeys : (accounts.map Account.guid).Nodup) {keys : List String}
    (h : keys.Perm (accounts.map Account.guid)) :
    ∃ accounts' : List Account, accounts'.Perm accounts ∧ accounts'.map Account.guid = keys := by
  let find (g : String) : Option Account := accounts.find? fun a => a.guid = g
  refine ⟨keys.filterMap find, ?_, ?_⟩
  · have hsame : (accounts.map Account.guid).filterMap find = accounts := by
      rw [List.filterMap_map]
      conv_rhs => rw [← List.filterMap_some (l := accounts)]
      exact List.filterMap_congr fun acct hacct => find?_guid hkeys hacct
    exact hsame ▸ h.filterMap find
  · rw [List.map_filterMap]
    conv_rhs => rw [← List.filterMap_some (l := keys)]
    refine List.filterMap_congr fun g hg => ?_
    obtain ⟨acct, hacct, rfl⟩ := List.mem_map.1 (h.mem_iff.1 hg)
    simp only [find, find?_guid hkeys hacct, Option.map_some]

variable (db)

/-- In whatever order the database lists the accounts of a book, they are scrubbed in order: exactly
when, unless transfers go in a circle, a longer chain of links that are read ends in each receiver
than in its senders. -/
theorem runScrubAllAccounts_scrubsInOrder_iff (clearFirst : Bool) (bookAccountGuids : List String)
    (hkeys : (db.accounts.map Account.guid).Nodup) :
    (∀ accounts, accounts.Perm (investmentAccounts db bookAccountGuids) →
      ScrubsInOrder accounts db (runScrubAllAccounts host method accounts clearFirst db).2) ↔
    ((∀ a, ¬TransGen (Sends (investmentAccounts db bookAccountGuids) db) a a) →
      ∀ sender receiver, Sends (investmentAccounts db bookAccountGuids) db sender receiver →
        ∃ n, HasChain (readLinks (investmentAccounts db bookAccountGuids) db) n receiver ∧
          ¬HasChain (readLinks (investmentAccounts db bookAccountGuids) db) n sender) := by
  have hkeys : ((investmentAccounts db bookAccountGuids).map Account.guid).Nodup :=
    hkeys.sublist (List.filter_sublist.map _)
  generalize investmentAccounts db bookAccountGuids = accounts at hkeys ⊢
  have hread (hacyclic : ∀ a, ¬TransGen (Sends accounts db) a a) (a : String) :
      ¬TransGen (fun d k => d ∈ readLinks accounts db k) a a := fun h =>
    hacyclic a (h.lift id fun _ _ => sends_of_mem_readLinks)
  have hchains (hacyclic : ∀ a, ¬TransGen (Sends accounts db) a a) {sender receiver : String}
      (hsends : Sends accounts db sender receiver) :
      (∀ keys : List String, keys.Perm (accounts.map Account.guid) → Before
        (Kahn.sort (keys.map (Kahn.waiting (readLinks accounts db) []))) sender receiver) ↔
      ∃ n, HasChain (readLinks accounts db) n receiver ∧
        ¬HasChain (readLinks accounts db) n sender := by
    obtain ⟨hsender, acct, hacct, rfl, hsplit⟩ := id hsends
    refine Kahn.forall_before_iff hkeys readLinks_nodup
      (fun k _ d hd => (sends_of_mem_readLinks hd).1) (hread hacyclic) hsender
      (List.mem_map_of_mem hacct) ?_
    rintro rfl
    exact hacyclic _ (.single hsends)
  constructor
  · intro hall hacyclic sender receiver hsends
    refine (hchains hacyclic hsends).1 fun keys hkeys' => ?_
    obtain ⟨accounts', hperm, rfl⟩ := exists_perm_accounts hkeys hkeys'
    have hafter := (hall accounts' hperm).after
    rw [results_runScrubAllAccounts, scrubOrder_of_acyclic hkeys hperm (hread hacyclic),
      sends_perm hperm] at hafter
    exact hafter hacyclic sender receiver hsends
  · intro h accounts' hperm
    refine ⟨?_, ?_⟩
    · rw [results_runScrubAllAccounts]
      exact scrubOrder_perm hkeys hperm
    · rw [sends_perm hperm]
      intro hacyclic sender receiver hsends
      rw [results_runScrubAllAccounts, scrubOrder_of_acyclic hkeys hperm (hread hacyclic)]
      exact (hchains hacyclic hsends).2 (h hacyclic sender receiver hsends) _
        (hperm.map Account.guid)

/-! ## A receipt from two accounts -/

/-- Shares go from `E` over `D` to `B`, and in one transaction from `A` and `B` to `C`. -/
def twoSenders : Db where
  accounts := ["A", "B", "C", "D", "E"].map fun guid =>
    ⟨guid, guid, .stock, some "fund", 10000, none⟩
  transactions := []
  splits :=
    let split (guid txGuid accountGuid : String) (shares : ℤ) : Split :=
      ⟨guid, txGuid, accountGuid, "", "", .n, none, ⟨0, 100⟩, ⟨shares, 1⟩, none⟩
    [split "1" "t1" "A" (-1), split "2" "t1" "B" (-1), split "3" "t1" "C" 2,
      split "4" "t2" "D" (-1), split "5" "t2" "B" 1, split "6" "t3" "E" (-1), split "7" "t3" "D" 1]
  lots := []
  slots := []
  prices := []
  history := []
  drawn := 0

def twoSendersAccounts : List Account := investmentAccounts twoSenders ["A", "B", "C", "D", "E"]

theorem runScrubAllAccounts_scrubsInOrder_twoSenders :
    (twoSenders.accounts.map Account.guid).Nodup ∧
      ((∀ accounts, accounts.Perm twoSendersAccounts →
        ScrubsInOrder accounts twoSenders
          (runScrubAllAccounts plainHost .fifo accounts true twoSenders).2) ↔
      ((∀ a, ¬TransGen (Sends twoSendersAccounts twoSenders) a a) →
        ∀ sender receiver, Sends twoSendersAccounts twoSenders sender receiver →
          ∃ n, HasChain (readLinks twoSendersAccounts twoSenders) n receiver ∧
            ¬HasChain (readLinks twoSendersAccounts twoSenders) n sender)) := by
  have hkeys : (twoSenders.accounts.map Account.guid).Nodup := by decide +kernel
  exact ⟨hkeys, runScrubAllAccounts_scrubsInOrder_iff plainHost .fifo twoSenders true _ hkeys⟩

def transfersTo (guid : String) : ℕ :=
  if guid = "C" then 3 else if guid = "B" then 2 else if guid = "D" then 1 else 0

theorem transfersTo_lt {a b : String} (h : TransGen (Sends twoSendersAccounts twoSenders) a b) :
    transfersTo a < transfersTo b := by
  have hsends : ∀ acct ∈ twoSendersAccounts, ∀ split ∈ transferIns twoSenders acct,
      ∀ s ∈ twoSenders.splitsOfTx split.txGuid, isSend twoSenders acct s = true →
        transfersTo s.accountGuid < transfersTo acct.guid := by
    decide +kernel
  have hone {a b : String} (h : Sends twoSendersAccounts twoSenders a b) :
      transfersTo a < transfersTo b := by
    obtain ⟨-, acct, hacct, rfl, split, hsplit, s, hs, hsend, rfl⟩ := h
    exact hsends acct hacct split hsplit s hs hsend
  induction h with
  | single h => exact hone h
  | tail _ h ih => exact ih.trans (hone h)

/-- `C` is scrubbed before `B`, from which it receives. -/
theorem not_scrubsInOrder_twoSenders :
    ¬ ∀ (host : Host) (method : LotAssignmentMethod) (clearFirst : Bool) (db : Db)
      (bookAccountGuids : List String), (db.accounts.map Account.guid).Nodup →
        ∀ accounts, accounts.Perm (investmentAccounts db bookAccountGuids) →
          ScrubsInOrder accounts db (runScrubAllAccounts host method accounts clearFirst db).2 := by
  intro h
  have hafter := (h plainHost .fifo false twoSenders ["A", "B", "C", "D", "E"] (by decide +kernel)
    twoSendersAccounts (.refl _)).after
  have horder : scrubOrder twoSenders twoSendersAccounts = ["A", "E", "C", "D", "B"] := by
    decide +kernel
  have hsends : Sends twoSendersAccounts twoSenders "B" "C" := by
    refine ⟨by decide +kernel, ⟨"C", "C", .stock, some "fund", 10000, none⟩, by decide +kernel, rfl,
      ⟨"3", "t1", "C", "", "", .n, none, ⟨0, 100⟩, ⟨2, 1⟩, none⟩, by decide +kernel,
      ⟨"2", "t1", "B", "", "", .n, none, ⟨0, 100⟩, ⟨-1, 1⟩, none⟩, by decide +kernel,
      by decide +kernel, rfl⟩
  have hbefore := hafter (fun a ha => lt_irrefl _ (transfersTo_lt ha)) "B" "C" hsends
  rw [results_runScrubAllAccounts, horder] at hbefore
  exact hbefore.not_before (by decide) ⟨["A", "E", "C"], ["D", "B"], rfl, by decide, by decide⟩

end Lots
