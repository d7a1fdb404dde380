import Mathlib
import GnucashWeb.AccountTree.Checks

/-!
# The account tree stays a forest

`siblingsDistinct_of_run` is what the name locks give: in every interleaving the names under a parent
stay distinct.  `forested_of_run` is what the tree locks give: there is no cycle either, when every
commit that writes a parent holds the lock of the tree that its account is in, and checked a parent of
that tree or no other parent was written since.  The lock is read before the transaction, so that an
account can have left the tree by then (`cycle_of_left`).
-/

namespace AccountTree

open Forest Statements RowLocks Runs Rows Txn

variable {db db' : Db} {L L' : Set Key} {tree : Prop} {guid : Guid}

/-! ## What is promised -/

/-- The accounts are a forest in which siblings have names of their own. -/
structure Db.Forested (db : Db) : Prop where
  acyclic : Acyclic db.parent?
  distinct : db.SiblingsDistinct

/-- A commit that writes a parent holds the lock of the tree that its account is in, and the new
parent was in a tree of that lock when its check read it, or no parent has been written since. -/
def Covered (_ : Set Key) (r : Receipt) (db _ : Db) : Prop :=
  match r with
  | .created _ => True
  | .changed c =>
    match c.data.parentGuid with
    | none => True
    | some dest =>
      db.lockTree c.guid = c.lockGuid ∧
        ∀ p ∈ dest, c.seen.lockTree p = c.lockGuid ∨ db.reparents = c.seen.reparents

instance : DecidableCommit Covered where
  dec _ _ r db db' := by
    unfold Covered
    split
    · infer_instance
    · split <;> infer_instance

/-! ## What a commit leaves -/

/-- An account gets a parent and a name, and the others keep theirs. -/
structure Landing (guid : Guid) (key : Option Guid × String) (db db' : Db) : Prop where
  key : db'.key? = Function.update db.key? guid (some key)
  books : db'.books = db.books
  length : db.accounts.length ≤ db'.accounts.length
  guids : (db.accounts.map Account.guid).Nodup → (db'.accounts.map Account.guid).Nodup

theorem landing_of_insert {a : Account} (h : insertAccount a db = some db') :
    db.account? a.guid = none ∧ db'.reparents = db.reparents ∧
      Landing a.guid (a.parentGuid, a.name) db db' := by
  unfold insertAccount at h
  split_ifs at h with hfresh
  cases h
  rw [Option.isNone_iff_eq_none] at hfresh
  refine ⟨hfresh, rfl, key?_insertAccount hfresh, rfl, by simp, fun hnd => ?_⟩
  rw [List.map_append, List.nodup_append]
  refine ⟨hnd, List.nodup_singleton _, fun g hg g' hg' => ?_⟩
  obtain ⟨b, hb, rfl⟩ := List.mem_map.1 hg
  obtain rfl := List.mem_singleton.1 hg'
  simpa using List.find?_eq_none.1 hfresh b hb

theorem landing_of_update {a : Account} {data : UpdateAccountInput}
    (ha : db.account? guid = some a) (h : updateAccount guid data db = some db') :
    db'.reparents = db.reparents + (if data.parentGuid.isSome then 1 else 0) ∧
      Landing guid (data.parentGuid.getD a.parentGuid, data.name.getD a.name) db db' := by
  rw [updateAccount, if_pos (by simp [ha])] at h
  cases h
  have hguids : (editAt Account.guid guid data.apply db.accounts).map Account.guid =
      db.accounts.map Account.guid := by
    refine map_editAt (g := Account.guid) ?_ db.accounts
    exact fun _ => rfl
  refine ⟨rfl, key?_updateAccount ha, rfl, ?_, fun hnd => ?_⟩
  · simp [editAt]
  · exact hguids.symm ▸ hnd

namespace Landing

variable {key : Option Guid × String} {self : Option Guid}

theorem key_of_ne (h : Landing guid key db db') {g : Guid} (hg : g ≠ guid) :
    db'.key? g = db.key? g := by rw [h.key, Function.update_of_ne hg]

theorem key_self (h : Landing guid key db db') : db'.key? guid = some key := by
  rw [h.key, Function.update_self]

theorem parent_of_ne (h : Landing guid key db db') {g : Guid} (hg : g ≠ guid) :
    db'.parent? g = db.parent? g := by rw [parent?_eq, parent?_eq, h.key_of_ne hg]

theorem parent (h : Landing guid key db db') :
    db'.parent? = Function.update db.parent? guid key.1 := by
  funext g
  by_cases hg : g = guid
  · rw [hg, Function.update_self, parent?_eq, h.key_self]
    rfl
  · rw [Function.update_of_ne hg, h.parent_of_ne hg]

theorem persist (h : Landing guid key db db') (g : Guid) (hg : (db.account? g).isSome) :
    (db'.account? g).isSome := by
  rw [← isSome_key?] at hg ⊢
  by_cases hguid : g = guid
  · rw [hguid, h.key_self]
    rfl
  · rwa [h.key_of_ne hguid]

theorem keys (h : Landing guid key db db') (hdb : db.Keys)
    (hparent : ∀ p, key.1 = some p → (db.account? p).isSome) : db'.Keys := by
  refine keys_of_parents (h.guids hdb.guids) fun g p n hg => h.persist p ?_
  by_cases hguid : g = guid
  · rw [hguid, h.key_self] at hg
    cases hg
    exact hparent p rfl
  · rw [h.key_of_ne hguid] at hg
    exact hdb.isSome_parent (by rw [parent?_eq, hg]; rfl)

/-- Names stay distinct when an account keeps its name and its parent, or lands where it may. -/
theorem distinct (h : Landing guid key db db') (hdb : db.Keys) (hdb' : db'.Keys)
    (hclaimed : db.key? guid = some key ∨ Claimed L self key db) (hself : ∀ g ∈ self, g = guid)
    (hdistinct : db.SiblingsDistinct) : db'.SiblingsDistinct := by
  rw [siblingsDistinct_iff hdb] at hdistinct
  rw [siblingsDistinct_iff hdb']
  have hland {g p n} (hn : n ≠ "") (hkey : key = (some p, n)) (hg : g ≠ guid)
      (hgk : db'.key? g = some (some p, n)) : False := by
    rw [h.key_of_ne hg] at hgk
    rcases hclaimed with hsame | hclaimed
    · exact hg (hdistinct g guid p n hgk (hkey ▸ hsame) hn)
    · subst hkey
      exact hg (hself g ((hclaimed p rfl hn).2 g hgk))
  intro g g' p n hg hg' hn
  by_cases hguid : g = guid
  · by_cases hguid' : g' = guid
    · rw [hguid, hguid']
    · rw [hguid, h.key_self] at hg
      exact (hland hn (Option.some.inj hg) hguid' hg').elim
  · by_cases hguid' : g' = guid
    · rw [hguid', h.key_self] at hg'
      exact (hland hn (Option.some.inj hg') hguid hg).elim
    · rw [h.key_of_ne hguid] at hg
      rw [h.key_of_ne hguid'] at hg'
      exact hdistinct g g' p n hg hg' hn

theorem rely (h : Landing guid key db db') (hdb' : db.Keys → db'.Keys)
    (hclaimed : db.key? guid = some key ∨ Claimed L self key db) (hL : ∀ row ∈ L', row ∉ L)
    (hrow : .row guid ∈ L ∨ db.key? guid = none ∨ db.key? guid = some key)
    (htree : tree → ∀ b, .book b ∈ L' → db.lockTree guid = some b → key.1 = db.parent? guid)
    (hreparents : db.reparents ≤ db'.reparents)
    (hsame : db'.reparents = db.reparents → db.key? guid = none ∨ key.1 = db.parent? guid) :
    Rely tree L' db db' where
  keys := hdb'
  persist := h.persist
  row g k hg hk := by
    by_cases hguid : g = guid
    · subst hguid
      rcases hrow with hrow | hrow | hrow
      · exact absurd hrow (hL _ hg)
      · cases hrow.symm.trans hk
      · rw [h.key_self, ← hrow, hk]
    · rwa [h.key_of_ne hguid]
  name g p n hn hp hk := by
    by_cases hguid : g = guid
    · subst hguid
      rw [h.key_self] at hk
      rcases hclaimed with hsame | hclaimed
      · exact hsame.trans hk
      · cases hk
        exact absurd (hclaimed p rfl hn).1 (hL _ hp)
    · rwa [h.key_of_ne hguid] at hk
  book ht hdb b y hb hy := by
    have hagree (y : Guid) (hy : db.lockTree y = some b) : db'.parent? y = db.parent? y := by
      by_cases hguid : y = guid
      · subst hguid
        rw [h.parent, Function.update_self, htree ht b hb hy]
      · exact h.parent_of_ne hguid
    exact ⟨hagree y hy, lockTree_of_agree hdb h.books h.length (h.persist y) hagree hy⟩
  reparents := hreparents
  same heq y hy := by
    by_cases hguid : y = guid
    · subst hguid
      rcases hsame heq with hnone | hkey
      · rw [← isSome_key?, hnone] at hy
        cases hy
      · rw [h.parent, Function.update_self, hkey]
    · exact h.parent_of_ne hguid

end Landing

structure Tables (tree : Prop) (db : Db) : Prop where
  keys : db.Keys
  distinct : db.SiblingsDistinct
  acyclic : tree → Acyclic db.parent?

theorem tables_of_created {a : Account} (hdb : Tables tree db)
    (h : CommitSpec tree L (.created a) db db') :
    Tables tree db' ∧ ∀ L' : Set Key, (∀ row ∈ L', row ∉ L) → Rely tree L' db db' := by
  obtain ⟨-, hparent, hclaimed, hinsert⟩ := h
  obtain ⟨hfresh, hsame, hland⟩ := landing_of_insert hinsert
  have hkeys : db'.Keys := hland.keys hdb.keys hparent
  have hnone : db.key? a.guid = none := by simp [Db.key?, hfresh]
  refine ⟨⟨hkeys, hland.distinct hdb.keys hkeys (.inr hclaimed) (fun g hg => by cases hg) hdb.distinct,
    fun htree => ?_⟩, fun L' hL => ?_⟩
  · rw [hland.parent]
    refine (hdb.acyclic htree).update (V := {g | g ≠ a.guid}) (fun g _ p hp => ?_) (fun hne => hne rfl)
      fun p hp => ?_
    · rintro rfl
      have hex := hdb.keys.isSome_parent hp
      simp [hfresh] at hex
    · rintro rfl
      have hex := hparent _ hp
      simp [hfresh] at hex
  · refine hland.rely (fun _ => hkeys) (.inr hclaimed) hL (.inr (.inl hnone))
      (fun _ b _ hlock => ?_) hsame.ge fun _ => .inl hnone
    have hex := isSome_of_lockTree hlock
    simp [hfresh] at hex

theorem tables_of_changed {c : Change} (hdb : Tables tree db)
    (h : CommitSpec tree L (.changed c) db db')
    (hcovered : tree → Covered L (.changed c) db db') :
    Tables tree db' ∧ ∀ L' : Set Key, (∀ row ∈ L', row ∉ L) → Rely tree L' db db' := by
  obtain ⟨hdest, hupdate⟩ := h
  obtain ⟨a, ha, hclaimed⟩ := hdest.claimed
  obtain ⟨hreparents, hland⟩ := landing_of_update ha hupdate
  have hkey : db.key? c.guid = some (a.parentGuid, a.name) := by simp [Db.key?, ha]
  have hold : db.parent? c.guid = a.parentGuid := by simp [Db.parent?, ha]
  have hclaimed : db.key? c.guid =
      some (c.data.parentGuid.getD a.parentGuid, c.data.name.getD a.name) ∨
        Claimed L (some c.guid) (c.data.parentGuid.getD a.parentGuid, c.data.name.getD a.name) db :=
    hclaimed.imp_left fun hsame => by rw [hkey, hsame.1, hsame.2]
  have hparent (p : Guid) (hp : c.data.parentGuid.getD a.parentGuid = some p) :
      (db.account? p).isSome := by
    cases hdata : c.data.parentGuid with
    | none =>
      rw [hdata] at hp
      exact hdb.keys.isSome_parent (hold.trans hp)
    | some dest =>
      rw [hdata] at hp
      exact hdest.parent p (hdata.trans (congrArg some hp))
  have hkeys : db'.Keys := hland.keys hdb.keys hparent
  have hstays (hdata : c.data.parentGuid = none) :
      c.data.parentGuid.getD a.parentGuid = db.parent? c.guid := by rw [hdata, hold]; rfl
  refine ⟨⟨hkeys, hland.distinct hdb.keys hkeys hclaimed (fun g hg => (Option.some.inj hg).symm)
    hdb.distinct, fun htree => ?_⟩, fun L' hL => ?_⟩
  · rw [hland.parent]
    cases hdata : c.data.parentGuid with
    | none =>
      rw [hdata] at hstays
      rw [show (none : Option (Option Guid)).getD a.parentGuid = db.parent? c.guid from hstays rfl,
        Function.update_eq_self]
      exact hdb.acyclic htree
    | some dest =>
      cases dest with
      | none =>
        exact (hdb.acyclic htree).update (V := ∅) (fun _ hg => hg.elim) (fun hg => hg)
          fun p hp => by cases hp
      | some p =>
        obtain ⟨lock, hlock, hmem⟩ := hdest.book _ hdata
        have hcov := hcovered htree
        simp only [Covered, hdata] at hcov
        have hcleared := hdest.cleared lock p hlock hdata
        obtain ⟨V, hV, hguid, hp⟩ : ∃ V : Set Guid, Closed db.parent? V ∧ c.guid ∉ V ∧ p ∈ V := by
          rcases hcov.2 p rfl with hsame | hsame
          · obtain ⟨V, hV, hguid, hp, -⟩ := hcleared _ _ (steady_tree htree) trivial
              ⟨hdest.seen, hsame.trans hlock⟩
            exact ⟨V, hV, hguid, hp⟩
          · obtain ⟨V, hV, hguid, hp, -⟩ := hcleared _ _ (steady_same c.seen.reparents) hsame.le
              ⟨hdest.seen, le_rfl, hdest.seenParent p hdata⟩
            exact ⟨V, hV, hguid, hp⟩
        refine (hdb.acyclic htree).update hV hguid fun q hq => ?_
        cases hq
        exact hp
  · refine hland.rely (fun _ => hkeys) hclaimed hL ?_ (fun htree b hb hlock => ?_)
      (by rw [hreparents]; exact Nat.le_add_right _ _) fun heq => ?_
    · by_cases htouch : c.data.name.isSome ∨ c.data.parentGuid.isSome
      · exact .inl (hdest.row htouch)
      · rw [not_or, Option.not_isSome_iff_eq_none, Option.not_isSome_iff_eq_none] at htouch
        exact .inr (.inr (by simp [hkey, htouch]))
    · cases hdata : c.data.parentGuid with
      | none => exact hdata ▸ hstays hdata
      | some dest =>
        obtain ⟨lock, hlockGuid, hmem⟩ := hdest.book _ hdata
        have hcov := hcovered htree
        simp only [Covered, hdata] at hcov
        have hsame : some b = some lock := hlock.symm.trans (hcov.1.trans hlockGuid)
        cases hsame
        exact absurd hmem (hL _ hb)
    · cases hdata : c.data.parentGuid with
      | none => exact .inr (hdata ▸ hstays hdata)
      | some dest =>
        rw [hreparents, hdata] at heq
        simp at heq

theorem tables_of_commit {r : Receipt} (hdb : Tables tree db) (h : CommitSpec tree L r db db')
    (hcovered : tree → Covered L r db db') :
    Tables tree db' ∧ ∀ L' : Set Key, (∀ row ∈ L', row ∉ L) → Rely tree L' db db' := by
  cases r with
  | created a => exact tables_of_created hdb h
  | changed c => exact tables_of_changed hdb h hcovered

/-- In every state that a run reaches whose commits are covered, the accounts are a forest in which
siblings have names of their own. -/
theorem forested_of_run {steps : List TreeStep} {s : State} (hkeys : db.Keys) (hdb : db.Forested)
    (hrun : run next steps (start db) = some s)
    (hcovered : Along next (AtCommit Covered) steps (start db)) : s.db.Forested := by
  have hs : Tables True s.db := tables_of_run isTrans_rely (good_serve fun _ h => h.keys)
    (fun _ _ _ _ hI h hC => tables_of_commit hI h fun _ => hC)
    ⟨hkeys, hdb.distinct, fun _ => hdb.acyclic⟩ hrun hcovered
  exact ⟨hs.acyclic trivial, hs.distinct⟩

/-! ## Accounts that leave the tree -/

def guidOf (c : Char) : Guid :=
  ⟨String.ofList (List.replicate 32 c), fun h => by simpa using congrArg String.toList h⟩

def accountOf (c : Char) (parent : Option Char) : Account where
  guid := guidOf c
  name := c.toString
  accountType := if parent = none then .root else .asset
  commodityGuid := none
  commodityScu := 100
  nonStdScu := 0
  parentGuid := parent.map guidOf
  code := none
  description := none
  hidden := none
  placeholder := none

/-- A book with two accounts, each with one below it. -/
def chart : Db where
  accounts := [accountOf 'r' none, accountOf 'a' (some 'r'), accountOf 'b' (some 'r'),
    accountOf 'c' (some 'a'), accountOf 'd' (some 'b')]
  books := [⟨guidOf 'k', guidOf 'r', guidOf 't'⟩]
  commodities := []
  splits := []
  reparents := 0

def chartEnv : Env := ⟨[guidOf 'k'], none, none, guidOf 'n', 10⟩

def moves (k : ℕ) (guid : Char) (parent : Option Char) : TreeStep :=
  .call k (.move chartEnv (guidOf guid) (parent.map guidOf))

def renames (k : ℕ) (guid : Char) (name : String) : TreeStep :=
  .call k (.update chartEnv (guidOf guid) ⟨some name, none, none, none, none, none, none, none⟩)

theorem keys_chart : chart.Keys where
  guids := by decide +kernel
  parents := by decide +kernel

theorem forested_chart : chart.Forested where
  acyclic := by
    have hrank : ∀ a ∈ chart.accounts, ∀ p ∈ a.parentGuid,
        (chart.accounts.map Account.guid).idxOf p <
          (chart.accounts.map Account.guid).idxOf a.guid := by decide +kernel
    refine acyclic_of_lt (fun g => (chart.accounts.map Account.guid).idxOf g) fun g p hp => ?_
    obtain ⟨a, ha, hap⟩ := Option.bind_eq_some_iff.1 hp
    exact guid_of_account? ha ▸ hrank a (List.mem_of_find?_eq_some ha) p hap
  distinct := by
    have hnames : ∀ a ∈ chart.accounts, ∀ b ∈ chart.accounts, a.name = b.name → a = b := by
      decide +kernel
    exact fun a ha b hb _ _ _ hname _ => hnames a ha b hb hname

/-- An account is renamed while another is moved below it, and then leaves the book. -/
def beside : List TreeStep :=
  [moves 0 'a' (some 'd'), renames 1 'b' "e"] ++ List.replicate 7 (Step.advance 0) ++
    List.replicate 11 (Step.advance 1) ++ List.replicate 9 (Step.advance 0) ++
      [moves 2 'b' none] ++ List.replicate 10 (Step.advance 2)

theorem forested_beside : ∃ s, run next beside (start chart) = some s ∧
    s.db.parent? (guidOf 'a') = some (guidOf 'd') ∧ s.db.parent? (guidOf 'b') = none ∧
      s.db.Forested := by
  obtain ⟨s, hs, ha, hb⟩ : ∃ s ∈ run next beside (start chart),
      s.db.parent? (guidOf 'a') = some (guidOf 'd') ∧ s.db.parent? (guidOf 'b') = none := by
    decide +kernel
  exact ⟨s, hs, ha, hb, forested_of_run keys_chart forested_chart hs (by decide +kernel)⟩

/-- An account leaves the book after two requests have found theirs in it: one that moves another
account below it, with the lock of the book, and one that moves it, with a lock of its own. -/
def crossing : List TreeStep :=
  [moves 0 'b' none, moves 1 'a' (some 'd'), moves 2 'b' (some 'c')] ++
    List.replicate 4 (Step.advance 1) ++ List.replicate 4 (Step.advance 2) ++
      List.replicate 10 (Step.advance 0) ++ List.replicate 10 (Step.advance 1) ++
        List.replicate 11 (Step.advance 2) ++ [Step.advance 1, .advance 2]

/-- Each account is above the other. -/
theorem cycle_of_left : chart.Keys ∧ chart.Forested ∧
    ∃ s, run next crossing (start chart) = some s ∧ ¬ s.db.Forested := by
  obtain ⟨s, hs, ha, hd, hb, hc⟩ : ∃ s ∈ run next crossing (start chart),
      s.db.parent? (guidOf 'a') = some (guidOf 'd') ∧ s.db.parent? (guidOf 'd') = some (guidOf 'b') ∧
        s.db.parent? (guidOf 'b') = some (guidOf 'c') ∧
          s.db.parent? (guidOf 'c') = some (guidOf 'a') := by decide +kernel
  refine ⟨keys_chart, forested_chart, s, hs, fun hforest => hforest.acyclic (guidOf 'a') ?_⟩
  have hway := Relation.TransGen.single (r := IsParent s.db.parent?) ha
  exact ((hway.tail hd).tail hb).tail hc

end AccountTree
