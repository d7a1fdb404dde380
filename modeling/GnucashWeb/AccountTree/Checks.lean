import GnucashWeb.AccountTree.Service

/-!
# What the account requests find

What a request may rely on while others run beside it (`Rely`), and what it knows of the tables when
it writes: a name that it has claimed is free, and an account is not above its new parent by whatever
was steady as the check began (`Cleared`).  `good_serve` says so of every request.
-/

namespace AccountTree

open Forest Statements RowLocks Runs Rows Txn

variable {db db' db'' : Db} {L L' : Set Key} {tree : Prop} {guid : Guid}

/-! ## Keys and names -/

/-- Guids are the primary key of the accounts, and parents are accounts. -/
structure Db.Keys (db : Db) : Prop where
  guids : (db.accounts.map Account.guid).Nodup
  parents : ∀ a ∈ db.accounts, ∀ p, a.parentGuid = some p → (db.account? p).isSome

/-- Two accounts with one parent and one name, not empty, are one account. -/
def Db.SiblingsDistinct (db : Db) : Prop :=
  ∀ a ∈ db.accounts, ∀ b ∈ db.accounts, ∀ p, a.parentGuid = some p → b.parentGuid = some p →
    a.name = b.name → a.name ≠ "" → a = b

variable {a ancestor : Account} {b lock : Guid} {seen : Db} {visited : List Guid}

theorem account?_of_mem (hdb : db.Keys) (ha : a ∈ db.accounts) :
    db.account? a.guid = some a := by
  obtain ⟨b, hb⟩ : ∃ b, db.account? a.guid = some b := by
    refine Option.isSome_iff_exists.1 (List.find?_isSome.2 ⟨a, ha, by simp⟩)
  have hmem := List.mem_of_find?_eq_some hb
  rw [hb, List.inj_on_of_nodup_map hdb.guids hmem ha (guid_of_account? hb)]

theorem key?_of_mem (hdb : db.Keys) (ha : a ∈ db.accounts) :
    db.key? a.guid = some (a.parentGuid, a.name) := by simp [Db.key?, account?_of_mem hdb ha]

theorem exists_of_key? {p : Option Guid} {n : String} (h : db.key? guid = some (p, n)) :
    ∃ a ∈ db.accounts, a.guid = guid ∧ a.parentGuid = p ∧ a.name = n := by
  obtain ⟨a, ha, heq⟩ := Option.map_eq_some_iff.1 h
  cases heq
  exact ⟨a, List.mem_of_find?_eq_some ha, guid_of_account? ha, rfl, rfl⟩

theorem siblingsDistinct_iff (hdb : db.Keys) :
    db.SiblingsDistinct ↔ ∀ g h p n, db.key? g = some (some p, n) → db.key? h = some (some p, n) →
      n ≠ "" → g = h := by
  constructor
  · intro hnames g h p n hg hh hn
    obtain ⟨a, ha, rfl, hap, rfl⟩ := exists_of_key? hg
    obtain ⟨b, hb, rfl, hbp, hbn⟩ := exists_of_key? hh
    rw [hnames a ha b hb p hap hbp hbn.symm hn]
  · intro hnames a ha b hb p hap hbp hn hne
    have hguid : a.guid = b.guid := by
      refine hnames _ _ p a.name ?_ ?_ hne
      · rw [key?_of_mem hdb ha, hap]
      · rw [key?_of_mem hdb hb, hbp, hn]
    exact List.inj_on_of_nodup_map hdb.guids ha hb hguid

theorem Db.Keys.isSome_parent {p : Guid} (hdb : db.Keys) (h : db.parent? guid = some p) :
    (db.account? p).isSome := by
  obtain ⟨a, ha, hp⟩ := Option.bind_eq_some_iff.1 h
  exact hdb.parents a (List.mem_of_find?_eq_some ha) p hp

theorem keys_of_parents (hguids : (db.accounts.map Account.guid).Nodup)
    (h : ∀ g p n, db.key? g = some (some p, n) → (db.account? p).isSome) : db.Keys where
  guids := hguids
  parents a ha p hp := by
    obtain ⟨b, hb⟩ : ∃ b, db.account? a.guid = some b := by
      refine Option.isSome_iff_exists.1 (List.find?_isSome.2 ⟨a, ha, by simp⟩)
    have hba := List.inj_on_of_nodup_map hguids (List.mem_of_find?_eq_some hb) ha
      (guid_of_account? hb)
    exact h a.guid p a.name (by simp [Db.key?, hb, hba, hp])

theorem isSome_of_lockTree (h : db.lockTree guid = some b) :
    (db.account? guid).isSome := by
  obtain ⟨a, ha, -⟩ := Option.bind_eq_some_iff.1 h
  exact Option.isSome_iff_exists.2 ⟨a, ha⟩

theorem lockTree_parent {p : Guid} (hdb : db.Keys) (h : db.lockTree guid = some b)
    (hp : db.parent? guid = some p) : db.lockTree p = some b := by
  obtain ⟨a, ha, hroot⟩ := Option.bind_eq_some_iff.1 h
  obtain ⟨r, hr, hb⟩ := Option.map_eq_some_iff.1 hroot
  obtain ⟨a', ha'⟩ := Option.isSome_iff_exists.1 (hdb.isSome_parent hp)
  rw [guid_of_account? ha] at hr
  refine Option.bind_eq_some_iff.2 ⟨a', ha', Option.map_eq_some_iff.2 ⟨r, ?_, hb⟩⟩
  rw [guid_of_account? ha']
  exact rootWithin_parent hr hp

theorem lockTree_of_agree (hdb : db.Keys) (hbooks : db'.books = db.books)
    (hlength : db.accounts.length ≤ db'.accounts.length)
    (hex : (db.account? guid).isSome → (db'.account? guid).isSome)
    (hagree : ∀ y, db.lockTree y = some b → db'.parent? y = db.parent? y)
    (h : db.lockTree guid = some b) : db'.lockTree guid = some b := by
  have hclosed : Closed db.parent? {y | db.lockTree y = some b} :=
    fun y hy p hp => lockTree_parent hdb hy hp
  obtain ⟨a, ha, hroot⟩ := Option.bind_eq_some_iff.1 h
  obtain ⟨r, hr, hb⟩ := Option.map_eq_some_iff.1 hroot
  obtain ⟨a', ha'⟩ := Option.isSome_iff_exists.1 (hex (isSome_of_lockTree h))
  rw [guid_of_account? ha] at hr
  refine Option.bind_eq_some_iff.2 ⟨a', ha', Option.map_eq_some_iff.2 ⟨r, ?_, ?_⟩⟩
  · rw [guid_of_account? ha', rootWithin_of_agree hclosed hagree h]
    exact rootWithin_mono hr hlength
  · rw [← hb, Db.lockOf, Db.lockOf, hbooks]

/-! ## What requests may rely on -/

/-- What other requests leave alone: accounts stay, the row and the names that are locked, and where
the tree locks count, the trees that are locked; without a write of a parent, all parents. -/
structure Rely (tree : Prop) (L : Set Key) (db db' : Db) : Prop where
  keys : db.Keys → db'.Keys
  persist : ∀ g, (db.account? g).isSome → (db'.account? g).isSome
  row : ∀ g k, .row g ∈ L → db.key? g = some k → db'.key? g = some k
  name : ∀ g p n, n ≠ "" → .name p n ∈ L → db'.key? g = some (some p, n) →
    db.key? g = some (some p, n)
  book : tree → db.Keys → ∀ b y, .book b ∈ L → db.lockTree y = some b →
    db'.parent? y = db.parent? y ∧ db'.lockTree y = some b
  reparents : db.reparents ≤ db'.reparents
  same : db'.reparents = db.reparents → ∀ y, (db.account? y).isSome → db'.parent? y = db.parent? y

theorem Rely.refl : Rely tree L db db where
  keys h := h
  persist _ h := h
  row _ _ _ h := h
  name _ _ _ _ _ h := h
  book _ _ _ _ _ h := ⟨rfl, h⟩
  reparents := le_rfl
  same _ _ _ := rfl

theorem Rely.trans (h : Rely tree L db db') (h' : Rely tree L db' db'') : Rely tree L db db'' where
  keys hdb := h'.keys (h.keys hdb)
  persist g hg := h'.persist g (h.persist g hg)
  row g k hg hk := h'.row g k hg (h.row g k hg hk)
  name g p n hn hp hk := h.name g p n hn hp (h'.name g p n hn hp hk)
  book ht hdb b y hb hy := by
    obtain ⟨hparent, htree⟩ := h.book ht hdb b y hb hy
    obtain ⟨hparent', htree'⟩ := h'.book ht (h.keys hdb) b y hb htree
    exact ⟨hparent'.trans hparent, htree'⟩
  reparents := h.reparents.trans h'.reparents
  same heq y hy := by
    have hle := h.reparents
    have hle' := h'.reparents
    exact (h'.same (by omega) y (h.persist y hy)).trans (h.same (by omega) y hy)

theorem Rely.mono (h : Rely tree L' db db') (hL : L ⊆ L') : Rely tree L db db' where
  keys := h.keys
  persist := h.persist
  row g k hg := h.row g k (hL hg)
  name g p n hn hp := h.name g p n hn (hL hp)
  book ht hdb b y hb := h.book ht hdb b y (hL hb)
  reparents := h.reparents
  same := h.same

instance (L : Set Key) : Std.Refl (Rely tree L) := ⟨fun _ => .refl⟩

theorem isTrans_rely (L : Set Key) : IsTrans Db (Rely tree L) := ⟨fun _ _ _ h h' => h.trans h'⟩

/-! ## What the checks find -/

/-- A name under a parent is locked, and at most one account has it. -/
def Claimed (L : Set Key) (self : Option Guid) (key : Option Guid × String) (db : Db) : Prop :=
  ∀ p, key.1 = some p → key.2 ≠ "" →
    .name p key.2 ∈ L ∧ ∀ h, db.key? h = some (some p, key.2) → self = some h

theorem Claimed.stable {self : Option Guid} {key : Option Guid × String} (h : Claimed L self key db)
    (hdb : Rely tree L db db') : Claimed L self key db' := by
  intro p hp hn
  obtain ⟨hmem, honly⟩ := h p hp hn
  exact ⟨hmem, fun g hg => honly g (hdb.name g p key.2 hn hmem hg)⟩

/-- Accounts that keep their parents while a lock is held, as long as some condition lasts. -/
structure Steady (tree : Prop) (lock : Guid) (A : Db → Prop) (K : Db → Guid → Prop) : Prop where
  back : ∀ db db', Rely tree {.book lock} db db' → A db' → A db
  keep : ∀ db db' y, Rely tree {.book lock} db db' → A db' → K db y →
    K db' y ∧ db'.parent? y = db.parent? y
  up : ∀ db y p, K db y → db.parent? y = some p → K db p ∧ (db.account? p).isSome

/-- An account is not above a new parent, by what was steady as the check began. -/
def Cleared (tree : Prop) (lock : Guid) (seen : Db) (guid p : Guid) (db : Db) : Prop :=
  ∀ A K, Steady tree lock A K → A db → K seen p →
    ∃ V : Set Guid, Closed db.parent? V ∧ guid ∉ V ∧ p ∈ V ∧ ∀ y ∈ V, K db y

theorem Cleared.stable {p : Guid} (h : Cleared tree lock seen guid p db)
    (hlock : .book lock ∈ L) (hdb : Rely tree L db db') : Cleared tree lock seen guid p db' := by
  intro A K hK hA hp
  have hrely : Rely tree {.book lock} db db' := hdb.mono (Set.singleton_subset_iff.2 hlock)
  obtain ⟨V, hV, hguid, hpV, hKV⟩ := h A K hK (hK.back _ _ hrely hA) hp
  refine ⟨V, fun y hy q hq => ?_, hguid, hpV, fun y hy => (hK.keep _ _ y hrely hA (hKV y hy)).1⟩
  rw [(hK.keep _ _ y hrely hA (hKV y hy)).2] at hq
  exact hV y hy q hq

theorem steady_tree (htree : tree) :
    Steady tree lock (fun _ => True) fun db y => db.Keys ∧ db.lockTree y = some lock where
  back _ _ _ _ := trivial
  keep db db' y h _ hy := by
    obtain ⟨hparent, hlock⟩ := h.book htree hy.1 lock y rfl hy.2
    exact ⟨⟨h.keys hy.1, hlock⟩, hparent⟩
  up db y p hy hp := ⟨⟨hy.1, lockTree_parent hy.1 hy.2 hp⟩, hy.1.isSome_parent hp⟩

theorem steady_same (n : ℕ) :
    Steady tree lock (fun db => db.reparents ≤ n)
      fun db y => db.Keys ∧ n ≤ db.reparents ∧ (db.account? y).isSome where
  back _ _ h hle := h.reparents.trans hle
  keep db db' y h hle hy := by
    obtain ⟨hkeys, hn, hex⟩ := hy
    refine ⟨⟨h.keys hkeys, hn.trans h.reparents, h.persist y hex⟩, h.same ?_ y hex⟩
    have hmono := h.reparents
    omega
  up db y p hy hp := ⟨⟨hy.1, hy.2.1, hy.1.isSome_parent hp⟩, hy.1.isSome_parent hp⟩

/-- The loop of the check has seen accounts that are above the new parent, up to one whose parent is
next. -/
def Climbing (tree : Prop) (lock : Guid) (seen : Db) (guid p : Guid) (visited : List Guid)
    (ancestor : Account) (db : Db) : Prop :=
  ancestor.guid ∈ visited ∧ guid ∉ visited ∧ p ∈ visited ∧
    ∀ A K, Steady tree lock A K → A db → K seen p →
      db.parent? ancestor.guid = ancestor.parentGuid ∧ (∀ v ∈ visited, K db v) ∧
        ∀ v ∈ visited, v ≠ ancestor.guid → ∀ q, db.parent? v = some q → q ∈ visited

theorem Climbing.stable {p : Guid}
    (h : Climbing tree lock seen guid p visited ancestor db) (hlock : .book lock ∈ L)
    (hdb : Rely tree L db db') : Climbing tree lock seen guid p visited ancestor db' := by
  obtain ⟨hmem, hguid, hp, h⟩ := h
  refine ⟨hmem, hguid, hp, fun A K hK hA hKp => ?_⟩
  have hrely : Rely tree {.book lock} db db' := hdb.mono (Set.singleton_subset_iff.2 hlock)
  obtain ⟨hparent, hKs, hup⟩ := h A K hK (hK.back _ _ hrely hA) hKp
  refine ⟨?_, fun v hv => (hK.keep _ _ v hrely hA (hKs v hv)).1, fun v hv hne q hq => ?_⟩
  · rw [(hK.keep _ _ _ hrely hA (hKs _ hmem)).2, hparent]
  · rw [(hK.keep _ _ v hrely hA (hKs v hv)).2] at hq
    exact hup v hv hne q hq

/-- The check is done when the parent of the last account is among those that it has seen. -/
theorem Climbing.cleared {p : Guid} (h : Climbing tree lock seen guid p visited ancestor db)
    (hlast : ∀ q, ancestor.parentGuid = some q → q ∈ visited) :
    Cleared tree lock seen guid p db := by
  intro A K hK hA hKp
  obtain ⟨hparent, hKs, hup⟩ := h.2.2.2 A K hK hA hKp
  refine ⟨{v | v ∈ visited}, fun v hv q hq => ?_, h.2.1, h.2.2.1, hKs⟩
  by_cases hne : v = ancestor.guid
  · rw [hne, hparent] at hq
    exact hlast q hq
  · exact hup v hv hne q hq

theorem Climbing.next {p q : Guid}
    (h : Climbing tree lock seen guid p visited ancestor db) (hq : ancestor.parentGuid = some q)
    (hguid : q ≠ guid) (ha : db.account? q = some a) :
    Climbing tree lock seen guid p (q :: visited) a db := by
  obtain rfl := guid_of_account? ha
  refine ⟨List.mem_cons_self, ?_, List.mem_cons_of_mem _ h.2.2.1, fun A K hK hA hKp => ?_⟩
  · rw [List.mem_cons]
    exact fun hor => hor.elim (fun heq => hguid heq.symm) h.2.1
  · obtain ⟨hparent, hKs, hup⟩ := h.2.2.2 A K hK hA hKp
    refine ⟨by simp [Db.parent?, ha], fun v hv => ?_, fun v hv hne r hr => ?_⟩
    · rcases List.mem_cons.1 hv with rfl | hv
      · exact (hK.up db ancestor.guid _ (hKs _ h.1) (hparent.trans hq)).1
      · exact hKs v hv
    · rcases List.mem_cons.1 hv with heq | hv
      · exact absurd heq hne
      · by_cases hlast : v = ancestor.guid
        · rw [hlast, hparent, hq] at hr
          exact Option.some.inj hr ▸ List.mem_cons_self
        · exact List.mem_cons_of_mem _ (hup v hv hlast r hr)

theorem Climbing.gone {p q : Guid}
    (h : Climbing tree lock seen guid p visited ancestor db) (hq : ancestor.parentGuid = some q)
    (ha : db.account? q = none) : Cleared tree lock seen guid p db := by
  intro A K hK hA hKp
  obtain ⟨hparent, hKs, -⟩ := h.2.2.2 A K hK hA hKp
  have hsome := (hK.up db ancestor.guid q (hKs _ h.1) (hparent.trans hq)).2
  rw [ha] at hsome
  cases hsome

/-- What an update or a move knows of the tables before its write. -/
structure Destined (tree : Prop) (L : Set Key) (c : Change) (db : Db) : Prop where
  keys : db.Keys
  row : c.data.name.isSome ∨ c.data.parentGuid.isSome → .row c.guid ∈ L
  book : ∀ dest, c.data.parentGuid = some dest → ∃ lock, c.lockGuid = some lock ∧ .book lock ∈ L
  seen : c.seen.Keys
  seenParent : ∀ p, c.data.parentGuid = some (some p) → (c.seen.account? p).isSome
  parent : ∀ p, c.data.parentGuid = some (some p) → (db.account? p).isSome
  claimed : ∃ a, db.account? c.guid = some a ∧
    ((c.data.parentGuid.getD a.parentGuid = a.parentGuid ∧ c.data.name.getD a.name = a.name) ∨
      Claimed L (some c.guid) (c.data.parentGuid.getD a.parentGuid, c.data.name.getD a.name) db)
  cleared : ∀ lock p, c.lockGuid = some lock → c.data.parentGuid = some (some p) →
    Cleared tree lock c.seen c.guid p db

theorem Destined.stable {c : Change} (h : Destined tree L c db) (hdb : Rely tree L db db') :
    Destined tree L c db' where
  keys := hdb.keys h.keys
  row := h.row
  book := h.book
  seen := h.seen
  seenParent := h.seenParent
  parent p hp := hdb.persist p (h.parent p hp)
  claimed := by
    obtain ⟨a, ha, hor⟩ := h.claimed
    by_cases htouch : c.data.name.isSome ∨ c.data.parentGuid.isSome
    · have hkey := hdb.row c.guid (a.parentGuid, a.name) (h.row htouch) (by simp [Db.key?, ha])
      obtain ⟨b, hb, heq⟩ := Option.map_eq_some_iff.1 hkey
      obtain ⟨hparent, hname⟩ := Prod.mk.inj heq
      refine ⟨b, hb, ?_⟩
      rw [hparent, hname]
      exact hor.imp_right fun hclaimed => hclaimed.stable hdb
    · obtain ⟨b, hb⟩ := Option.isSome_iff_exists.1
        (hdb.persist c.guid (Option.isSome_iff_exists.2 ⟨a, ha⟩))
      refine ⟨b, hb, .inl ?_⟩
      rw [not_or, Option.not_isSome_iff_eq_none, Option.not_isSome_iff_eq_none] at htouch
      simp [htouch]
  cleared lock p hlock hp := by
    obtain ⟨lock', hlock', hmem⟩ := h.book (some p) hp
    cases hlock.symm.trans hlock'
    exact (h.cleared lock p hlock hp).stable hmem hdb

def CommitSpec (tree : Prop) (L : Set Key) (r : Receipt) (db db' : Db) : Prop :=
  match r with
  | .created a =>
    db.Keys ∧ (∀ p, a.parentGuid = some p → (db.account? p).isSome) ∧
      Claimed L none (a.parentGuid, a.name) db ∧ insertAccount a db = some db'
  | .changed c => Destined tree L c db ∧ updateAccount c.guid c.data db = some db'

/-! ## The programs -/

section Programs

variable {env : Env} {Q : Unit → Set Key → (Db → Option Db) → Db → Prop}

theorem wp_getActiveBookRootGuid {Q : Guid → Set Key → (Db → Option Db) → Db → Prop}
    (h : ∀ guid db', Rely tree L db db' → Q guid L some db') :
    (getActiveBookRootGuid env).wp (Rely tree) present Q L some db := by
  simp only [getActiveBookRootGuid, wp_bind, wp_select, wp_expect, wp_pure]
  rintro db₁ h₁ _ - book -
  exact h _ _ h₁

theorem wp_isAccountInActiveBook {cached : Option (List Guid)}
    {Q : Bool → Set Key → (Db → Option Db) → Db → Prop}
    (h : ∀ b db', Rely tree L db db' → Q b L some db') :
    (isAccountInActiveBook env cached guid).wp (Rely tree) present Q L some db := by
  rw [isAccountInActiveBook, wp_bind]
  refine wp_getActiveBookRootGuid fun rootGuid db₁ h₁ => ?_
  split
  · exact h _ _ h₁
  · split
    · exact h _ _ h₁
    · rintro db₂ h₂ _ -
      exact h _ _ (h₁.trans h₂)

variable {parentGuid lockGuid : Option Guid} {fuel : ℕ}

theorem wp_requireParentInBook {text : String} (h : ∀ db', Rely tree L db db' → Q () L some db') :
    (requireParentInBook env text parentGuid).wp (Rely tree) present Q L some db := by
  unfold requireParentInBook
  split
  · exact h db .refl
  · rw [wp_bind]
    refine wp_isAccountInActiveBook fun b db₁ h₁ => ?_
    exact wp_require.2 fun _ => h db₁ h₁

theorem wp_parentOfNew {Q : Guid → Set Key → (Db → Option Db) → Db → Prop}
    (h : ∀ guid db', Rely tree L db db' → Q guid L some db') :
    (parentOfNew env parentGuid).wp (Rely tree) present Q L some db := by
  unfold parentOfNew
  split
  · exact wp_getActiveBookRootGuid h
  · rw [wp_bind]
    refine wp_getActiveBookRootGuid fun rootGuid db₁ h₁ => ?_
    simp only [wp_bind, wp_select, wp_require, wp_pure]
    rintro db₂ h₂ _ - -
    exact h _ _ (h₁.trans h₂)

theorem wp_claimSiblingName {self : Option Guid} {name : String}
    (h : ∀ L' db', L ⊆ L' → Rely tree L db db' → Claimed L' self (parentGuid, name) db' →
      Q () L' some db') :
    (claimSiblingName parentGuid name self).wp (Rely tree) present Q L some db := by
  unfold claimSiblingName
  split
  · exact h L db subset_rfl .refl fun p hp => nomatch hp
  · next p =>
      split
      · next hname => exact h L db subset_rfl .refl fun _ _ hne => absurd hname hne
      · simp only [wp_bind, wp_lock, present, if_true, wp_select, wp_require]
        rintro db₁ h₁ db₂ h₂ _ ⟨⟩ hclash
        have hsub : L ⊆ insert (Key.name p name) L := Set.subset_insert _ L
        refine h _ db₂ hsub (h₁.trans (h₂.mono hsub)) fun q hq _ => ?_
        cases hq
        refine ⟨Set.mem_insert _ L, fun g hg => ?_⟩
        obtain ⟨a, ha, rfl, hap, han⟩ := exists_of_key? hg
        have hnot := List.find?_eq_none.1 hclash a ha
        simpa [hap, han] using hnot

theorem wp_lockAccountKey {Q : Account → Set Key → (Db → Option Db) → Db → Prop}
    (hex : (db.account? guid).isSome)
    (h : ∀ a db', Rely tree L db db' → db'.account? guid = some a →
      Q a (insert (.row guid) L) some db') :
    (lockAccountKey guid).wp (Rely tree) present Q L some db := by
  simp only [lockAccountKey, wp_bind, wp_lock, wp_select, wp_expect]
  intro db₁ h₁
  have hpresent : present db₁ (.row guid) = true := h₁.persist guid hex
  rw [if_pos hpresent]
  rintro db₂ h₂ _ ⟨⟩ a ha
  exact h a db₂ (h₁.trans (h₂.mono (Set.subset_insert _ L))) ha

theorem wp_climb {p : Guid}
    (hlock : .book lock ∈ L) (hclimb : Climbing tree lock seen guid p visited ancestor db)
    (h : ∀ db', Rely tree L db db' → Cleared tree lock seen guid p db' → Q () L some db') :
    (climb guid fuel visited ancestor).wp (Rely tree) present Q L some db := by
  induction fuel generalizing visited ancestor db with
  | zero => trivial
  | succ fuel ih =>
    unfold climb
    split
    · next hnone =>
        exact h db .refl (hclimb.cleared fun q hq => by rw [hnone] at hq; cases hq)
    · next q hq =>
        split
        · trivial
        · next hne =>
            split
            · next hvisited =>
                refine h db .refl (hclimb.cleared fun r hr => ?_)
                rw [hq] at hr
                exact Option.some.inj hr ▸ hvisited
            · rw [wp_bind, wp_select]
              rintro db₁ h₁ _ ⟨⟩
              have hclimb₁ := hclimb.stable hlock h₁
              split
              · next hgone => exact h db₁ h₁ (hclimb₁.gone hq hgone)
              · next a ha =>
                  refine ih (hclimb₁.next hq hne ha) fun db₂ h₂ hcleared => ?_
                  exact h db₂ (h₁.trans h₂) hcleared

theorem wp_assertReparentIsAcyclic {p : Guid}
    {Q : Db → Set Key → (Db → Option Db) → Db → Prop} (hlock : .book lock ∈ L)
    (h : ∀ seen db', Rely tree L db seen → Rely tree L seen db' → (seen.account? p).isSome →
      Cleared tree lock seen guid p db' → Q seen L some db') :
    (assertReparentIsAcyclic fuel guid p).wp (Rely tree) present Q L some db := by
  simp only [assertReparentIsAcyclic, wp_bind, wp_require, wp_select, wp_expect]
  rintro hne seen hseen _ ⟨⟩ a ha
  obtain rfl := guid_of_account? ha
  have hclimb : Climbing tree lock seen guid a.guid [a.guid] a seen := by
    refine ⟨List.mem_singleton_self _, ?_, List.mem_singleton_self _, fun A K hK hA hKp => ?_⟩
    · exact fun hmem => hne (List.mem_singleton.1 hmem).symm
    · refine ⟨by simp [Db.parent?, ha], fun v hv => ?_, fun v hv hv' => ?_⟩
      · rw [List.mem_singleton.1 hv]
        exact hKp
      · exact absurd (List.mem_singleton.1 hv) hv'
  refine wp_climb hlock hclimb fun db' h' hcleared => ?_
  exact h seen db' hseen h' (by simp [ha]) hcleared

theorem wp_checkParent {dest : Option Guid} {Q : Db → Set Key → (Db → Option Db) → Db → Prop}
    (hlock : ∀ p, dest = some p → ∃ lock, lockGuid = some lock ∧ .book lock ∈ L)
    (h : ∀ seen db', Rely tree L db seen → Rely tree L seen db' →
      (∀ p, dest = some p → (seen.account? p).isSome ∧
        ∀ lock, lockGuid = some lock → Cleared tree lock seen guid p db') → Q seen L some db') :
    (checkParent fuel guid dest).wp (Rely tree) present Q L some db := by
  unfold checkParent
  split
  · rw [wp_select]
    rintro db₁ h₁ _ ⟨⟩
    exact h db₁ db₁ h₁ .refl fun p hp => nomatch hp
  · next p =>
      obtain ⟨lock, hlockGuid, hmem⟩ := hlock p rfl
      refine wp_assertReparentIsAcyclic hmem fun seen db' hseen h' hex hcleared => ?_
      refine h seen db' hseen h' ?_
      rintro _ ⟨⟩
      refine ⟨hex, fun lock' hlock' => ?_⟩
      cases hlockGuid.symm.trans hlock'
      exact hcleared

theorem wp_claimDestination {data : UpdateAccountInput}
    {Q : Db → Set Key → (Db → Option Db) → Db → Prop} (hdb : db.Keys)
    (hex : (db.account? guid).isSome)
    (hbook : ∀ dest, data.parentGuid = some dest → ∃ lock, lockGuid = some lock ∧ .book lock ∈ L)
    (h : ∀ seen L' db', Destined tree L' ⟨guid, data, lockGuid, seen⟩ db' → Q seen L' some db') :
    (AccountService.claimDestination env guid data).wp (Rely tree) present Q L some db := by
  unfold AccountService.claimDestination
  split
  · next htouch =>
      rw [wp_bind]
      refine wp_lockAccountKey hex fun a db₁ h₁ ha => ?_
      have hlock (p : Guid) (hp : data.parentGuid.getD none = some p) :
          ∃ lock, lockGuid = some lock ∧ Key.book lock ∈ insert (Key.row guid) L := by
        cases hdest : data.parentGuid with
        | none => simp [hdest] at hp
        | some dest =>
          obtain ⟨lock, hlockGuid, hmem⟩ := hbook dest hdest
          exact ⟨lock, hlockGuid, Set.mem_insert_of_mem _ hmem⟩
      rw [wp_bind]
      refine wp_checkParent hlock fun seen db₃ h₂ h₃ hchecked => ?_
      have h₁₃ := h₂.trans h₃
      obtain ⟨a₃, ha₃, hsame⟩ : ∃ a₃, db₃.account? guid = some a₃ ∧
          a₃.parentGuid = a.parentGuid ∧ a₃.name = a.name := by
        have hkey := h₁₃.row guid (a.parentGuid, a.name) (Set.mem_insert _ L) (by simp [Db.key?, ha])
        obtain ⟨a₃, ha₃, heq⟩ := Option.map_eq_some_iff.1 hkey
        exact ⟨a₃, ha₃, Prod.mk.inj heq⟩
      have hdestined {L' : Set Key} {db' : Db} (hL : insert (Key.row guid) L ⊆ L')
          (h' : Rely tree (insert (Key.row guid) L) db₃ db')
          (hclaimed : (data.parentGuid.getD a.parentGuid = a.parentGuid ∧
            data.name.getD a.name = a.name) ∨
            Claimed L' (some guid) (data.parentGuid.getD a.parentGuid, data.name.getD a.name) db') :
          Destined tree L' ⟨guid, data, lockGuid, seen⟩ db' := by
        have hrow := (h₁₃.trans h').row guid (a.parentGuid, a.name) (Set.mem_insert _ L)
          (by simp [Db.key?, ha])
        obtain ⟨a', ha', heq⟩ := Option.map_eq_some_iff.1 hrow
        obtain ⟨hparent, hname⟩ := Prod.mk.inj heq
        refine ⟨h'.keys (h₁₃.keys (h₁.keys hdb)), fun _ => hL (Set.mem_insert _ L),
          fun dest hdest => ?_, h₂.keys (h₁.keys hdb),
          fun p hp => ?_, fun p hp => ?_, ⟨a', ha', ?_⟩, fun lock p hlockGuid hp => ?_⟩
        · obtain ⟨lock, hlockGuid, hmem⟩ := hbook dest hdest
          exact ⟨lock, hlockGuid, hL (Set.mem_insert_of_mem _ hmem)⟩
        · exact (hchecked p (by simp [show data.parentGuid = _ from hp])).1
        · have hex := (hchecked p (by simp [show data.parentGuid = _ from hp])).1
          exact h'.persist p (h₃.persist p hex)
        · rw [hparent, hname]
          exact hclaimed
        · obtain ⟨lock', hlockGuid', hmem⟩ := hbook _ hp
          cases hlockGuid.symm.trans hlockGuid'
          have hcleared := (hchecked p (by simp [show data.parentGuid = _ from hp])).2 lock hlockGuid
          exact hcleared.stable (Set.mem_insert_of_mem _ hmem) h'
      rw [wp_bind, wp_onlyIf]
      constructor
      · intro _
        refine wp_claimSiblingName fun L' db₄ hL h₄ hclaimed => ?_
        exact h _ _ _ (hdestined hL h₄ (.inr hclaimed))
      · intro hsame
        rw [not_or, not_not, not_not] at hsame
        exact h _ _ _ (hdestined subset_rfl .refl (.inl hsame))
  · next htouch =>
      rw [not_or, Option.not_isSome_iff_eq_none, Option.not_isSome_iff_eq_none] at htouch
      rw [wp_select]
      rintro db₁ h₁ seen ⟨⟩
      obtain ⟨a, ha⟩ := Option.isSome_iff_exists.1 (h₁.persist guid hex)
      refine h _ _ _ ⟨h₁.keys hdb, fun hor => ?_, hbook, h₁.keys hdb, fun p hp => ?_,
        fun p hp => ?_, ⟨a, ha, .inl ?_⟩, fun lock p _ hp => ?_⟩
      · simp [htouch] at hor
      · simp [htouch] at hp
      · simp [htouch] at hp
      · simp [htouch]
      · simp [htouch] at hp

theorem wp_change {data : UpdateAccountInput} (hdb : db.Keys) (hex : (db.account? guid).isSome)
    (hlock : ∀ dest, data.parentGuid = some dest → lockGuid.isSome) :
    (AccountService.change env guid data lockGuid).wp (Rely tree) present
      (Commits (Rely tree) (CommitSpec tree)) ∅ some db := by
  rw [AccountService.change, wp_bind]
  have hrest {L : Set Key} {db' : Db} (h' : Rely tree ∅ db db')
      (hbook : ∀ dest, data.parentGuid = some dest →
        ∃ lock, lockGuid = some lock ∧ .book lock ∈ L) :
      (AccountService.claimDestination env guid data >>= fun seen => do
        tryWrite (updateAccount guid data)
        pure (Receipt.changed ⟨guid, data, lockGuid, seen⟩)).wp (Rely tree) present
          (Commits (Rely tree) (CommitSpec tree)) L some db' := by
    rw [wp_bind]
    refine wp_claimDestination (h'.keys hdb) (h'.persist guid hex) hbook fun seen L' db₁ hdest => ?_
    simp only [wp_bind, wp_tryWrite, wp_pure]
    intro db₂ h₂ db₃ hwrite
    exact ⟨hdest.stable h₂, hwrite⟩
  cases lockGuid with
  | none =>
    refine hrest .refl fun dest hdest => ?_
    have hsome := hlock dest hdest
    cases hsome
  | some lock =>
    simp only [AccountService.change.lockTreeOf, wp_lock, present, if_true]
    intro db₁ h₁
    exact hrest h₁ fun _ _ => ⟨lock, rfl, Set.mem_insert _ ∅⟩

theorem wp_expectAccount {Q : Account → Set Key → (Db → Option Db) → Db → Prop}
    (h : ∀ a db', Rely tree L db db' → db'.account? guid = some a → Q a L some db') :
    (expectAccount guid).wp (Rely tree) present Q L some db := by
  simp only [expectAccount, wp_bind, wp_select, wp_expect]
  rintro db₁ h₁ _ ⟨⟩ a ha
  exact h a db₁ h₁ ha

theorem wp_checkCommodity {existing : Account} {commodityGuid : Guid}
    (h : ∀ db', Rely tree L db db' → Q () L some db') :
    (AccountService.checkCommodity guid existing commodityGuid).wp (Rely tree) present Q L some
      db := by
  rw [AccountService.checkCommodity, wp_onlyIf]
  refine ⟨fun _ => ?_, fun _ => h db .refl⟩
  simp only [wp_bind, wp_select, wp_require]
  rintro db₁ h₁ _ - - db₂ h₂ _ - -
  exact h db₂ (h₁.trans h₂)

theorem wp_createRoute {data : CreateAccountInput} (hdb : db.Keys) :
    (createRoute env data).wp (Rely tree) present (Commits (Rely tree) (CommitSpec tree)) ∅ some
      db := by
  simp only [createRoute, wp_bind, wp_require]
  intro _
  refine wp_parentOfNew fun parentGuid db₁ h₁ => ?_
  simp only [AccountService.create, AccountService.expectParent, wp_bind, wp_select, wp_require]
  rintro db₂ h₂ _ ⟨⟩ hex db₃ h₃ _ - -
  refine wp_claimSiblingName fun L db₄ hL h₄ hclaimed => ?_
  simp only [wp_bind, wp_tryWrite, wp_pure]
  intro db₅ h₅ db₆ hwrite
  have hrest := h₃.trans (h₄.trans (h₅.mono hL))
  refine ⟨(h₁.trans (h₂.trans hrest)).keys hdb, ?_, hclaimed.stable h₅, hwrite⟩
  rintro _ ⟨⟩
  exact hrest.persist parentGuid hex

theorem wp_updateRoute {data : UpdateAccountInput} (hdb : db.Keys) :
    (updateRoute env guid data).wp (Rely tree) present (Commits (Rely tree) (CommitSpec tree)) ∅ some
      db := by
  rw [updateRoute, wp_bind]
  refine wp_isAccountInActiveBook fun inBook db₁ h₁ => ?_
  simp only [wp_bind, wp_require]
  intro _ _
  refine wp_requireParentInBook fun db₂ h₂ => ?_
  simp only [AccountService.update, wp_bind, wp_require]
  intro _
  refine wp_expectAccount fun existing db₃ h₃ ha => ?_
  have hrest {db₄ : Db} (h₄ : Rely tree ∅ db₃ db₄) :
      (do
        let bookLockGuid ← select fun db =>
          if data.parentGuid.isSome then some (db.resolveBookLockGuidForAccount guid) else none
        AccountService.change env guid data bookLockGuid : Tx Receipt).wp (Rely tree) present
          (Commits (Rely tree) (CommitSpec tree)) ∅ some db₄ := by
    rw [wp_bind, wp_select]
    rintro db₅ h₅ lockGuid ⟨⟩
    refine wp_change ((h₁.trans (h₂.trans (h₃.trans (h₄.trans h₅)))).keys hdb)
      ((h₄.trans h₅).persist guid (by simp [ha])) fun dest hdest => ?_
    simp [hdest]
  split
  · exact hrest .refl
  · rw [wp_bind]
    exact wp_checkCommodity fun db₄ h₄ => hrest h₄

theorem wp_moveRoute {newParentGuid : Option Guid} (hdb : db.Keys) :
    (moveRoute env guid newParentGuid).wp (Rely tree) present
      (Commits (Rely tree) (CommitSpec tree)) ∅ some db := by
  rw [moveRoute, wp_bind]
  refine wp_isAccountInActiveBook fun inBook db₁ h₁ => ?_
  simp only [wp_bind, wp_require]
  intro _ _
  refine wp_requireParentInBook fun db₂ h₂ => ?_
  simp only [AccountService.move, wp_bind, wp_require]
  intro _
  refine wp_expectAccount fun existing db₃ h₃ ha => ?_
  rw [wp_bind, wp_select]
  rintro db₄ h₄ _ ⟨⟩
  exact wp_change ((h₁.trans (h₂.trans (h₃.trans h₄))).keys hdb)
    (h₄.persist guid (by simp [ha])) fun _ _ => rfl

theorem good_serve {I : Db → Prop} (hI : ∀ db, I db → db.Keys) (req : Request) :
    (serve req).Good (Rely tree) present I (CommitSpec tree) := by
  cases req with
  | create env data => exact ⟨fun db hdb => wp_createRoute (hI db hdb), fun _ => trivial⟩
  | update env guid data => exact ⟨fun db hdb => wp_updateRoute (hI db hdb), fun _ => trivial⟩
  | move env guid newParentGuid => exact ⟨fun db hdb => wp_moveRoute (hI db hdb), fun _ => trivial⟩

end Programs

end AccountTree
