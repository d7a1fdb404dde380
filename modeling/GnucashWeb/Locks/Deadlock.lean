import GnucashWeb.Lib.Runs
import GnucashWeb.Lib.Sessions
import GnucashWeb.Locks.Order

/-!
# Account name locks and deadlock

Any number of transactions that claim name locks, lock, write and insert account rows, and commit
or roll back.  A claim is recorded at once and its statement queued; the database takes the
statements of one transaction in turn, and a statement waits while another transaction owns its
lock.  A failed acquisition removes its record.

`no_deadlock` is the main result: no wait-for cycle goes through a transaction that holds or awaits
a name lock, as long as different keys never share a position and no failed acquisition leaves a
claim behind that had been let through for its sake.
-/

open Runs WaitFor

namespace AccountLocks

/-! ## Transactions -/

/-- A lock in the database: that of a hashed key or that of an account row. -/
inductive Lock
  | name (hash : ℤ)
  | row (guid : Text)
deriving DecidableEq, Repr

inductive Statement
  | name (claim : HeldLock)
  | row (guid : Text)
deriving DecidableEq, Repr

def Statement.lock (hash : Text → ℤ) : Statement → Lock
  | .name h => .name (hash h.key)
  | .row g => .row g

def Statement.claim? : Statement → Option HeldLock
  | .name h => some h
  | .row _ => none

/-- Whether a statement acquires the lock of another claim than the one with an id. -/
def Statement.keeps (id : ℕ) : Statement → Bool
  | .name h => h.id ≠ id
  | .row _ => true

/-- A transaction: its scope and the statements that have not returned. -/
structure Session where
  scope : Scope
  queue : List Statement
deriving DecidableEq, Repr

/-- The transactions, and the lock table of the database. -/
structure Sys where
  sessions : ℕ → Session
  owner : Lock → Option ℕ

namespace Sys

def idle : Sys := ⟨fun _ => ⟨newScope, []⟩, fun _ => none⟩

def setSession (s : Sys) (t : ℕ) (u : Session) : Sys :=
  { s with sessions := Function.update s.sessions t u }

def give (s : Sys) (t : ℕ) (l : Lock) : Sys := { s with owner := Function.update s.owner l (some t) }

def release (s : Sys) (t : ℕ) : Sys :=
  { s with owner := fun l => if s.owner l = some t then none else s.owner l }

end Sys

/-- The session after a claim is recorded and its acquisition sent. -/
def Session.record (u : Session) (h : HeldLock) : Session :=
  ⟨{ u.scope with held := u.scope.held ++ [h] }, u.queue ++ [.name h]⟩

/-- The session after an acquisition failed: its record is removed. -/
def Session.unrecord (u : Session) (id : ℕ) : Session :=
  ⟨{ u.scope with held := u.scope.held.filter fun h => h.id ≠ id }, u.queue.filter (Statement.keeps id)⟩

inductive Step
  | claim (t id : ℕ) (parentGuid name : Text) (order : AccountLockOrder)
  | soleClaim (t id : ℕ) (parentGuid name : Text)
  | lockRow (t : ℕ) (guid : Text)
  | writeRows (t : ℕ) (operation : String) (target : Where) (rows : List Text)
  | insertRow (t : ℕ) (guid : Text)
  /-- The database grants the lock of the first statement. -/
  | grant (t : ℕ)
  | fail (t id : ℕ)
  /-- Commit or rollback. -/
  | finish (t : ℕ)
deriving DecidableEq

/-- The rows that a write reaches are among those that its `where` names. -/
def Where.Covers (target : Where) (rows : List Text) : Prop :=
  ∀ guids ∈ guidsTargetedBy target, ∀ g ∈ rows, g ∈ guids

instance (target : Where) (rows : List Text) : Decidable (target.Covers rows) :=
  inferInstanceAs (Decidable (∀ guids ∈ guidsTargetedBy target, ∀ g ∈ rows, g ∈ guids))

/-- One step; what the checks refuse changes nothing. -/
def next (hash : Text → ℤ) : Step → Sys → Option Sys
  | .claim t id parentGuid name order, s =>
    let u := s.sessions t
    if ∃ h ∈ u.scope.held, h.id = id then none
    else
      match u.scope.acquireAccountNameLock id parentGuid name order with
      | .error _ => some s
      | .ok h => some (s.setSession t (u.record h))
  | .soleClaim t id parentGuid name, s =>
    let u := s.sessions t
    if ∃ h ∈ u.scope.held, h.id = id then none
    else
      match u.scope.acquireSoleAccountNameLock id parentGuid name with
      | .error _ => some s
      | .ok h => some (s.setSession t (u.record h))
  | .lockRow t guid, s =>
    let u := s.sessions t
    match u.scope.noteAccountRowLocked guid with
    | .error _ => some s
    | .ok scope => some (s.setSession t ⟨scope, u.queue ++ [.row guid]⟩)
  | .writeRows t operation target rows, s =>
    let u := s.sessions t
    match u.scope.assertAccountRowWriteAllowed operation target with
    | .error _ => some s
    | .ok _ =>
      if target.Covers rows then
        some (s.setSession t ⟨u.scope, u.queue ++ rows.map Statement.row⟩)
      else none
  | .insertRow t guid, s =>
    let u := s.sessions t
    if s.owner (.row guid) = none then
      some ((s.setSession t ⟨u.scope.noteAccountRowInserted guid, u.queue⟩).give t (.row guid))
    else none
  | .grant t, s =>
    let u := s.sessions t
    match u.queue with
    | [] => none
    | statement :: rest =>
      let l := statement.lock hash
      if s.owner l = none ∨ s.owner l = some t then
        some ((s.setSession t ⟨u.scope, rest⟩).give t l)
      else none
  | .fail t id, s =>
    let u := s.sessions t
    if ∃ h ∈ u.queue.filterMap Statement.claim?, h.id = id then
      some (s.setSession t (u.unrecord id))
    else none
  | .finish t, s => some ((s.setSession t ⟨newScope, []⟩).release t)

def Sys.Holds (s : Sys) (t : ℕ) (l : Lock) : Prop := s.owner l = some t

/-- The first statement of a transaction waits for a lock that it does not own. -/
def Sys.Awaits (hash : Text → ℤ) (s : Sys) (t : ℕ) (l : Lock) : Prop :=
  ∃ statement ∈ (s.sessions t).queue.head?, statement.lock hash = l ∧ s.owner l ≠ some t

def Lock.IsName (l : Lock) : Prop := ∃ h, l = .name h

/-- A wait-for cycle goes through a transaction that holds or awaits a name lock. -/
def Sys.Deadlocked (hash : Text → ℤ) (s : Sys) : Prop :=
  ∃ t l, Lock.IsName l ∧ (s.Holds t l ∨ s.Awaits hash t l) ∧
    Relation.TransGen (WaitsFor s.Holds (s.Awaits hash)) t t

/-- Every participant gives a key its own position. -/
def Agreed (pos : Text → AccountLockOrder) : Step → Sys → Prop
  | .claim _ _ parentGuid name order, _ => order = pos (accountNameLockKey parentGuid name)
  | _, _ => True

instance (pos : Text → AccountLockOrder) : ∀ l s, Decidable (Agreed pos l s)
  | .claim _ _ parentGuid name order, _ =>
    inferInstanceAs (Decidable (order = pos (accountNameLockKey parentGuid name)))
  | .soleClaim .., _ | .lockRow .., _ | .writeRows .., _ | .insertRow .., _ | .grant .., _
  | .fail .., _ | .finish .., _ => isTrue trivial

/-- Every claim stands after those recorded before it, unless its key is among them. -/
def Ordered (held : List HeldLock) : Prop :=
  ∀ before h after, held = before ++ h :: after →
    (∃ e ∈ before, e.key = h.key) ∨ ∀ e ∈ before, e.Before h

/-- No other claimed key has the position of a key that is claimed, and a failed acquisition leaves
the other claims in order. -/
def Unmixed (pos : Text → AccountLockOrder) : Step → Sys → Prop
  | .claim _ _ parentGuid name _, s => ∀ u, ∀ h ∈ (s.sessions u).scope.held, h.order ≠ none →
      pos h.key = pos (accountNameLockKey parentGuid name) →
        h.key = accountNameLockKey parentGuid name
  | .fail t id, s => Ordered ((s.sessions t).unrecord id).scope.held
  | _, _ => True

/-! ## The invariant of a transaction -/

variable {h : HeldLock}

section SessionInvariant

variable {hash : Text → ℤ}

/-- The recorded claims are those whose locks the transaction owns and then those in its queue, in
order; every queued row lock is before all name locks or taken already. -/
structure SessionInv (hash : Text → ℤ) (Own : Lock → Prop) (u : Session) : Prop where
  held : ∃ done, u.scope.held = done ++ u.queue.filterMap Statement.claim? ∧
    ∀ n, Own (.name n) ↔ ∃ h ∈ done, hash h.key = n
  ordered : Ordered u.scope.held
  ids : (u.scope.held.map HeldLock.id).Nodup
  rows : ∀ before g after, u.queue = before ++ .row g :: after →
    (∀ n, ¬Own (.name n)) ∧ (∀ h, .name h ∉ before) ∨ Own (.row g) ∨ .row g ∈ before
  inserted : ∀ g ∈ u.scope.inserted, Own (.row g)
  rowLocked : ∀ g ∈ u.scope.rowLocked, Own (.row g) ∨ .row g ∈ u.queue

variable {Own : Lock → Prop} {u : Session}

variable {Own' : Lock → Prop} {g : Text}

theorem SessionInv.congr (hu : SessionInv hash Own u)
    (h : ∀ l, Own' l ↔ Own l) : SessionInv hash Own' u := by
  obtain rfl : Own' = Own := funext fun l => propext (h l)
  exact hu

theorem sessionInv_new (h : ∀ l, ¬Own l) : SessionInv hash Own ⟨newScope, []⟩ where
  held := ⟨[], rfl, by simp [h]⟩
  ordered := by simp [Ordered, newScope]
  ids := by simp [newScope]
  rows := by simp
  inserted := by simp [newScope]
  rowLocked := by simp [newScope]

theorem split_concat {α : Type} {l before after : List α} {a b : α}
    (h : l ++ [b] = before ++ a :: after) :
    (before = l ∧ a = b) ∨ ∃ after, l = before ++ a :: after := by
  rcases List.eq_nil_or_concat after with rfl | ⟨after, last, rfl⟩
  · obtain ⟨hl, hlast⟩ := List.append_inj' h rfl
    exact Or.inl ⟨hl.symm, (List.singleton_inj.1 hlast).symm⟩
  · rw [List.concat_eq_append, ← List.cons_append, ← List.append_assoc] at h
    exact Or.inr ⟨after, (List.append_inj' h rfl).1⟩

theorem ordered_append {held : List HeldLock} (hordered : Ordered held)
    (hnew : (∃ e ∈ held, e.key = h.key) ∨ ∀ e ∈ held, e.Before h) : Ordered (held ++ [h]) := by
  intro before e after heq
  obtain ⟨rfl, rfl⟩ | ⟨after, heq⟩ := split_concat heq
  · exact hnew
  · exact hordered before e after heq

theorem mem_filterMap_claim? {queue : List Statement} :
    h ∈ queue.filterMap Statement.claim? ↔ .name h ∈ queue := by
  rw [List.mem_filterMap]
  constructor
  · rintro ⟨statement, hmem, hclaim⟩
    cases statement with
    | name e =>
      cases hclaim
      exact hmem
    | row g => cases hclaim
  · exact fun hmem => ⟨.name h, hmem, rfl⟩

theorem SessionInv.no_names (hu : SessionInv hash Own u) (hnil : u.scope.held = []) :
    (∀ n, ¬Own (.name n)) ∧ ∀ h, .name h ∉ u.queue := by
  obtain ⟨done, hdone, hown⟩ := hu.held
  rw [hnil] at hdone
  obtain ⟨rfl, hclaims⟩ := List.append_eq_nil_iff.1 hdone.symm
  refine ⟨by simp [hown], ?_⟩
  intro h hmem
  have := mem_filterMap_claim?.2 hmem
  rw [hclaims] at this
  cases this

theorem SessionInv.record (hu : SessionInv hash Own u) (haccepts : Accepts u.scope h)
    (hid : ¬∃ e ∈ u.scope.held, e.id = h.id) : SessionInv hash Own (u.record h) where
  held := by
    obtain ⟨done, hdone, hown⟩ := hu.held
    refine ⟨done, ?_, hown⟩
    simp [Session.record, hdone, Statement.claim?]
  ordered := ordered_append hu.ordered haccepts
  ids := by
    rw [Session.record, List.map_append, List.nodup_append]
    refine ⟨hu.ids, by simp, ?_⟩
    intro i hi j hj
    obtain ⟨e, he, rfl⟩ := List.mem_map.1 hi
    obtain rfl : j = h.id := by simpa using hj
    exact fun heq => hid ⟨e, he, heq⟩
  rows := by
    intro before g after heq
    obtain ⟨-, hlast⟩ | ⟨after, heq⟩ := split_concat heq
    · cases hlast
    · exact hu.rows before g after heq
  inserted := hu.inserted
  rowLocked g hg := (hu.rowLocked g hg).imp_right fun hmem => List.mem_append_left _ hmem

theorem SessionInv.queueRow (hu : SessionInv hash Own u)
    (hrow : (∀ n, ¬Own (.name n)) ∧ (∀ h, .name h ∉ u.queue) ∨ Own (.row g) ∨ .row g ∈ u.queue) :
    SessionInv hash Own ⟨u.scope, u.queue ++ [.row g]⟩ where
  held := by
    obtain ⟨done, hdone, hown⟩ := hu.held
    exact ⟨done, by simp [hdone, Statement.claim?], hown⟩
  ordered := hu.ordered
  ids := hu.ids
  rows := by
    intro before g' after heq
    obtain ⟨rfl, hlast⟩ | ⟨after, heq⟩ := split_concat heq
    · cases hlast
      exact hrow
    · exact hu.rows before g' after heq
  inserted := hu.inserted
  rowLocked g' hg' := (hu.rowLocked g' hg').imp_right fun hmem => List.mem_append_left _ hmem

theorem SessionInv.queueRows {rows : List Text} (hu : SessionInv hash Own u)
    (hrows : u.scope.held = [] ∨ ∀ g ∈ rows, g ∈ u.scope.inserted ∨ g ∈ u.scope.rowLocked) :
    SessionInv hash Own ⟨u.scope, u.queue ++ rows.map Statement.row⟩ := by
  induction rows generalizing u with
  | nil => simpa using hu
  | cons g rest ih =>
    have hone : SessionInv hash Own ⟨u.scope, u.queue ++ [.row g]⟩ := by
      apply hu.queueRow
      rcases hrows with hnil | hrows
      · exact Or.inl (hu.no_names hnil)
      · right
        rcases hrows g (by simp) with hg | hg
        · exact Or.inl (hu.inserted g hg)
        · exact hu.rowLocked g hg
    have := ih hone (hrows.imp_right fun h g hg => h g (List.mem_cons_of_mem _ hg))
    simpa using this

theorem SessionInv.noteLocked (hu : SessionInv hash Own u) (hnil : u.scope.held = []) :
    SessionInv hash Own
      ⟨{ u.scope with rowLocked := u.scope.rowLocked ++ [g] }, u.queue ++ [.row g]⟩ := by
  have hrow := hu.queueRow (g := g) (Or.inl (hu.no_names hnil))
  refine ⟨hrow.held, hrow.ordered, hrow.ids, hrow.rows, hrow.inserted, ?_⟩
  intro g' hg'
  rcases List.mem_append.1 hg' with hg' | hg'
  · exact hrow.rowLocked g' hg'
  · rw [List.mem_singleton.1 hg']
    exact Or.inr (by simp)

theorem SessionInv.noteInserted (hu : SessionInv hash Own u)
    (hown : ∀ l, Own' l ↔ l = .row g ∨ Own l) :
    SessionInv hash Own' ⟨u.scope.noteAccountRowInserted g, u.queue⟩ where
  held := by
    obtain ⟨done, hdone, hnames⟩ := hu.held
    exact ⟨done, hdone, by simp [hown, hnames]⟩
  ordered := hu.ordered
  ids := hu.ids
  rows before g' after heq := by
    have := hu.rows before g' after heq
    simp only [hown, reduceCtorEq, false_or]
    tauto
  inserted g' hg' := by
    rw [hown]
    rcases List.mem_append.1 hg' with hg' | hg'
    · exact Or.inr (hu.inserted g' hg')
    · exact Or.inl (by rw [List.mem_singleton.1 hg'])
  rowLocked g' hg' := by
    rw [hown]
    exact (hu.rowLocked g' hg').imp_left Or.inr

theorem filterMap_claim?_keeps (id : ℕ) (queue : List Statement) :
    (queue.filter (Statement.keeps id)).filterMap Statement.claim? =
      (queue.filterMap Statement.claim?).filter fun h => h.id ≠ id := by
  induction queue with
  | nil => rfl
  | cons statement rest ih =>
    cases statement with
    | name h =>
      by_cases hid : h.id = id
      · simpa [Statement.keeps, Statement.claim?, hid] using ih
      · simpa [Statement.keeps, Statement.claim?, hid] using ih
    | row g =>
      have hclaim : Statement.claim? (.row g) = none := rfl
      rw [List.filter_cons_of_pos (by rfl), List.filterMap_cons_none hclaim,
        List.filterMap_cons_none hclaim, ih]

theorem SessionInv.unrecord (hu : SessionInv hash Own u) {id : ℕ}
    (hqueued : ∃ h ∈ u.queue.filterMap Statement.claim?, h.id = id)
    (hordered : Ordered (u.unrecord id).scope.held) : SessionInv hash Own (u.unrecord id) where
  held := by
    obtain ⟨done, hdone, hown⟩ := hu.held
    refine ⟨done, ?_, hown⟩
    have hids := hu.ids
    rw [hdone, List.map_append, List.nodup_append] at hids
    obtain ⟨h, hh, rfl⟩ := hqueued
    have hkeep : done.filter (fun e => e.id ≠ h.id) = done := by
      apply List.filter_eq_self.2
      intro e he
      have := hids.2.2 e.id (List.mem_map_of_mem he) h.id (List.mem_map_of_mem hh)
      simpa using this
    simp only [Session.unrecord, filterMap_claim?_keeps]
    rw [hdone, List.filter_append, hkeep]
  ordered := hordered
  ids := hu.ids.sublist (List.filter_sublist.map _)
  rows := by
    intro before g after heq
    obtain ⟨before', rest, hqueue, rfl, hrest⟩ := List.filter_eq_append_iff.1 heq
    obtain ⟨skipped, after', rfl, hskipped, -, -⟩ := List.filter_eq_cons_iff.1 hrest
    have hrow := hu.rows (before' ++ skipped) g after' (by rw [hqueue, List.append_assoc])
    rcases hrow with ⟨hnames, hbefore⟩ | hown | hmem
    · refine Or.inl ⟨hnames, ?_⟩
      intro h hh
      exact hbefore h (List.mem_append_left _ (List.mem_of_mem_filter hh))
    · exact Or.inr (Or.inl hown)
    · refine Or.inr (Or.inr ?_)
      rcases List.mem_append.1 hmem with hmem | hmem
      · exact List.mem_filter.2 ⟨hmem, rfl⟩
      · exact absurd rfl (hskipped _ hmem)
  inserted := hu.inserted
  rowLocked g hg := by
    rcases hu.rowLocked g hg with hown | hmem
    · exact Or.inl hown
    · exact Or.inr (List.mem_filter.2 ⟨hmem, rfl⟩)

theorem SessionInv.granted {statement : Statement} {rest : List Statement}
    (hu : SessionInv hash Own u) (hqueue : u.queue = statement :: rest)
    (hown : ∀ l, Own' l ↔ l = statement.lock hash ∨ Own l) :
    SessionInv hash Own' ⟨u.scope, rest⟩ := by
  obtain ⟨done, hdone, hnames⟩ := hu.held
  rw [hqueue] at hdone
  cases statement with
  | name h =>
    refine ⟨⟨done ++ [h], by simpa [Statement.claim?] using hdone, ?_⟩, hu.ordered, hu.ids, ?_, ?_,
      ?_⟩
    · intro n
      rw [hown, hnames]
      simp only [Statement.lock, Lock.name.injEq, List.mem_append, List.mem_singleton, or_and_right,
        exists_or, exists_eq_left]
      rw [or_comm, eq_comm]
    · intro before g after heq
      have hrow := hu.rows (.name h :: before) g after (hqueue.trans (congrArg _ heq))
      rcases hrow with ⟨-, hbefore⟩ | hrow | hmem
      · exact absurd List.mem_cons_self (hbefore h)
      · exact Or.inr (Or.inl ((hown _).2 (Or.inr hrow)))
      · simp only [List.mem_cons, reduceCtorEq, false_or] at hmem
        exact Or.inr (Or.inr hmem)
    · exact fun g hg => (hown _).2 (Or.inr (hu.inserted g hg))
    · intro g hg
      rcases hu.rowLocked g hg with hrow | hmem
      · exact Or.inl ((hown _).2 (Or.inr hrow))
      · rw [hqueue] at hmem
        simp only [List.mem_cons, reduceCtorEq, false_or] at hmem
        exact Or.inr hmem
  | row g₀ =>
    have hmem : ∀ g (l : List Statement), .row g ∈ Statement.row g₀ :: l →
        Own' (.row g) ∨ .row g ∈ l := by
      intro g l hg
      rcases List.mem_cons.1 hg with hg | hg
      · cases hg
        exact Or.inl ((hown _).2 (Or.inl rfl))
      · exact Or.inr hg
    have hclaim : Statement.claim? (.row g₀) = none := rfl
    rw [List.filterMap_cons_none hclaim] at hdone
    refine ⟨⟨done, hdone, ?_⟩, hu.ordered, hu.ids, ?_, ?_, ?_⟩
    · intro n
      simp [hown, hnames, Statement.lock]
    · intro before g after heq
      have hrow := hu.rows (.row g₀ :: before) g after (hqueue.trans (congrArg _ heq))
      rcases hrow with ⟨hnone, hbefore⟩ | hrow | hrow
      · refine Or.inl ⟨?_, fun h hh => hbefore h (List.mem_cons_of_mem _ hh)⟩
        intro n
        simpa [hown, Statement.lock] using hnone n
      · exact Or.inr (Or.inl ((hown _).2 (Or.inr hrow)))
      · exact Or.inr (hmem g before hrow)
    · exact fun g hg => (hown _).2 (Or.inr (hu.inserted g hg))
    · intro g hg
      rcases hu.rowLocked g hg with hrow | hrow
      · exact Or.inl ((hown _).2 (Or.inr hrow))
      · rw [hqueue] at hrow
        exact hmem g rest hrow

end SessionInvariant

/-! ## The invariant of the system -/

/-- Recorded positions are those of their keys, and different keys have different ones. -/
structure Positioned (pos : Text → AccountLockOrder) (s : Sys) : Prop where
  agreed : ∀ t, ∀ h ∈ (s.sessions t).scope.held, ∀ o ∈ h.order, o = pos h.key
  distinct : ∀ t u, ∀ h ∈ (s.sessions t).scope.held, ∀ e ∈ (s.sessions u).scope.held,
    h.order ≠ none → e.order ≠ none → pos h.key = pos e.key → h.key = e.key

structure Inv (hash : Text → ℤ) (pos : Text → AccountLockOrder) (s : Sys) : Prop where
  sessions : ∀ t, SessionInv hash (s.Holds t) (s.sessions t)
  positioned : Positioned pos s

section Invariant

variable {hash : Text → ℤ} {pos : Text → AccountLockOrder} {s : Sys}

theorem inv_idle : Inv hash pos Sys.idle where
  sessions _ := sessionInv_new (by simp [Sys.Holds, Sys.idle])
  positioned := ⟨by simp [Sys.idle, newScope], by simp [Sys.idle, newScope]⟩

@[simp] theorem sessions_setSession_self (s : Sys) (t : ℕ) (u : Session) :
    (s.setSession t u).sessions t = u :=
  Function.update_self ..

variable {t v : ℕ} {s' : Sys}

theorem sessions_setSession_ne (s : Sys) (u : Session) (h : v ≠ t) :
    (s.setSession t u).sessions v = s.sessions v :=
  Function.update_of_ne h ..

theorem Positioned.of_subset (hp : Positioned pos s)
    (h : ∀ t, (s'.sessions t).scope.held ⊆ (s.sessions t).scope.held) : Positioned pos s' where
  agreed t e he := hp.agreed t e (h t he)
  distinct t u e he e' he' := hp.distinct t u e (h t he) e' (h u he')

theorem Positioned.setSession (hp : Positioned pos s) {u : Session}
    (hs' : s'.sessions = (s.setSession t u).sessions)
    (h : u.scope.held ⊆ (s.sessions t).scope.held) : Positioned pos s' := by
  apply hp.of_subset
  intro v
  rw [hs']
  by_cases hv : v = t
  · rw [hv, sessions_setSession_self]
    exact h
  · rw [sessions_setSession_ne s u hv]
    exact List.Subset.refl _

theorem mem_held_record {e : HeldLock}
    (he : e ∈ ((s.setSession t ((s.sessions t).record h)).sessions v).scope.held) :
    e ∈ (s.sessions v).scope.held ∨ e = h := by
  by_cases hv : v = t
  · rw [hv, sessions_setSession_self, Session.record] at he
    rw [hv]
    simpa using he
  · rw [sessions_setSession_ne _ _ hv] at he
    exact Or.inl he

theorem Positioned.record (hp : Positioned pos s) (t : ℕ) (hagreed : ∀ o ∈ h.order, o = pos h.key)
    (hdistinct : h.order ≠ none → ∀ u, ∀ e ∈ (s.sessions u).scope.held, e.order ≠ none →
      pos e.key = pos h.key → e.key = h.key) :
    Positioned pos (s.setSession t ((s.sessions t).record h)) where
  agreed v e he := by
    rcases mem_held_record he with he | rfl
    · exact hp.agreed v e he
    · exact hagreed
  distinct v u e he e' he' ho ho' heq := by
    rcases mem_held_record he with hold | rfl <;> rcases mem_held_record he' with hold' | rfl
    · exact hp.distinct v u e hold e' hold' ho ho' heq
    · exact hdistinct ho' v e hold ho heq
    · exact (hdistinct ho u e' hold' ho' heq.symm).symm
    · rfl

theorem sessions_of_step (hs : ∀ v, SessionInv hash (s.Holds v) (s.sessions v))
    (hown : ∀ v, v ≠ t → ∀ l, s'.Holds v l ↔ s.Holds v l)
    (hsessions : ∀ v, v ≠ t → s'.sessions v = s.sessions v)
    (ht : SessionInv hash (s'.Holds t) (s'.sessions t)) :
    ∀ v, SessionInv hash (s'.Holds v) (s'.sessions v) := by
  intro v
  by_cases hv : v = t
  · exact hv ▸ ht
  · rw [hsessions v hv]
    exact (hs v).congr (hown v hv)

theorem sessions_setSession (hs : ∀ v, SessionInv hash (s.Holds v) (s.sessions v))
    {u : Session} (hu : SessionInv hash (s.Holds t) u) :
    ∀ v, SessionInv hash ((s.setSession t u).Holds v) ((s.setSession t u).sessions v) :=
  sessions_of_step hs (fun _ _ _ => Iff.rfl) (fun _ hv => sessions_setSession_ne s u hv)
    ((sessions_setSession_self s t u).symm ▸ hu)

theorem holds_give {l : Lock} (hfree : s.owner l = none ∨ s.owner l = some t) (k : Lock) :
    (s.give t l).Holds v k ↔ (v = t ∧ k = l) ∨ s.Holds v k := by
  change Function.update s.owner l (some t) k = some v ↔ (v = t ∧ k = l) ∨ s.owner k = some v
  by_cases hk : k = l
  · rw [hk, Function.update_self]
    rcases hfree with hfree | hfree <;> simp [hfree, eq_comm]
  · simp [hk]

theorem sessions_give (hs : ∀ v, SessionInv hash (s.Holds v) (s.sessions v)) {l : Lock}
    {u : Session} (hfree : s.owner l = none ∨ s.owner l = some t)
    (hu : SessionInv hash (fun k => k = l ∨ s.Holds t k) u) :
    ∀ v, SessionInv hash (((s.setSession t u).give t l).Holds v)
      (((s.setSession t u).give t l).sessions v) := by
  have hholds : ∀ v k, ((s.setSession t u).give t l).Holds v k ↔ (v = t ∧ k = l) ∨ s.Holds v k :=
    fun v k => holds_give (s := s.setSession t u) hfree k
  refine sessions_of_step (t := t) hs ?_ (fun _ hv => sessions_setSession_ne s u hv) ?_
  · intro v hv k
    rw [hholds]
    simp [hv]
  · have hself : ((s.setSession t u).give t l).sessions t = u := sessions_setSession_self s t u
    rw [hself]
    exact hu.congr fun k => (hholds t k).trans (by simp)

theorem inv_next (l : Step) (s s' : Sys) (hcond : Agreed pos l s ∧ Unmixed pos l s)
    (h : next hash l s = some s') (hs : Inv hash pos s) : Inv hash pos s' := by
  obtain ⟨hsessions, hpositioned⟩ := hs
  cases l with
  | claim t id parentGuid name order =>
    simp only [next] at h
    split at h
    · cases h
    next hid =>
    split at h
    · cases h
      exact ⟨hsessions, hpositioned⟩
    · next claim hclaim =>
        cases h
        obtain ⟨rfl, haccepts⟩ := accepts_acquireAccountNameLock hclaim
        refine ⟨sessions_setSession hsessions ((hsessions t).record haccepts hid),
          hpositioned.record t ?_ fun _ => hcond.2⟩
        rintro _ ⟨⟩
        exact hcond.1
  | soleClaim t id parentGuid name =>
    simp only [next] at h
    split at h
    · cases h
    next hid =>
    split at h
    · cases h
      exact ⟨hsessions, hpositioned⟩
    · next claim hclaim =>
        cases h
        obtain ⟨rfl, haccepts⟩ := accepts_acquireSoleAccountNameLock hclaim
        exact ⟨sessions_setSession hsessions ((hsessions t).record haccepts hid),
          hpositioned.record t (by simp) (by simp)⟩
  | lockRow t guid =>
    simp only [next] at h
    split at h
    · cases h
      exact ⟨hsessions, hpositioned⟩
    · next scope hscope =>
        cases h
        obtain ⟨hnil, rfl⟩ := noteAccountRowLocked_eq_ok hscope
        exact ⟨sessions_setSession hsessions ((hsessions t).noteLocked hnil),
          hpositioned.setSession rfl (List.Subset.refl _)⟩
  | writeRows t operation target rows =>
    simp only [next] at h
    split at h
    · cases h
      exact ⟨hsessions, hpositioned⟩
    · next hassert =>
        split at h
        · next hcovers =>
            cases h
            refine ⟨sessions_setSession hsessions ((hsessions t).queueRows ?_),
              hpositioned.setSession rfl (List.Subset.refl _)⟩
            refine (assertAccountRowWriteAllowed_eq_ok hassert).imp_right ?_
            rintro ⟨guids, htarget, hguids⟩ g hg
            exact hguids g (hcovers guids htarget g hg)
        · cases h
  | insertRow t guid =>
    simp only [next] at h
    split at h
    · next hfree =>
        cases h
        exact ⟨sessions_give hsessions (Or.inl hfree)
            ((hsessions t).noteInserted fun _ => Iff.rfl),
          hpositioned.setSession rfl (List.Subset.refl _)⟩
    · cases h
  | grant t =>
    simp only [next] at h
    split at h
    · cases h
    next statement rest hqueue =>
    split at h
    · next hfree =>
        cases h
        exact ⟨sessions_give hsessions hfree ((hsessions t).granted hqueue fun _ => Iff.rfl),
          hpositioned.setSession rfl (List.Subset.refl _)⟩
    · cases h
  | fail t id =>
    simp only [next] at h
    split at h
    · next hqueued =>
        cases h
        exact ⟨sessions_setSession hsessions ((hsessions t).unrecord hqueued hcond.2),
          hpositioned.setSession rfl (List.filter_subset_self _)⟩
    · cases h
  | finish t =>
    cases h
    have hholds : ∀ v k, ((s.setSession t ⟨newScope, []⟩).release t).Holds v k ↔
        v ≠ t ∧ s.Holds v k := by
      intro v k
      change (if s.owner k = some t then none else s.owner k) = some v ↔ v ≠ t ∧ s.owner k = some v
      by_cases hk : s.owner k = some t
      · simp [hk, eq_comm]
      · simp only [hk, if_false, iff_and_self]
        rintro hv rfl
        exact hk hv
    have hself : ((s.setSession t ⟨newScope, []⟩).release t).sessions t = ⟨newScope, []⟩ :=
      sessions_setSession_self s t _
    refine ⟨sessions_of_step (t := t) hsessions ?_ (fun _ hv => sessions_setSession_ne s _ hv) ?_,
      hpositioned.setSession rfl (List.nil_subset _)⟩
    · intro v hv k
      rw [hholds]
      exact and_iff_right hv
    · rw [hself]
      exact sessionInv_new fun k hk => ((hholds t k).1 hk).1 rfl

noncomputable def lockRank (hash : Text → ℤ) (pos : Text → AccountLockOrder) : Lock → Text ×ₗ List Text
  | .name n => (pos (Function.invFun hash n)).rank
  | .row _ => (pos []).rank

theorem lockRank_name (hinj : Function.Injective hash) (key : Text) :
    lockRank hash pos (.name (hash key)) = (pos key).rank := by
  rw [lockRank, Function.leftInverse_invFun hinj key]

theorem ascending (hinj : Function.Injective hash) (hs : Inv hash pos s) :
    Ascending s.Holds (s.Awaits hash) Lock.IsName (lockRank hash pos) := by
  rintro t m l ⟨n, rfl⟩ ht ⟨statement, hfirst, rfl, hwaits⟩
  obtain ⟨rest, hqueue⟩ := List.head?_eq_some_iff.1 hfirst
  have hsession := hs.sessions t
  obtain ⟨done, hdone, hnames⟩ := hsession.held
  cases statement with
  | row g =>
    exfalso
    rcases hsession.rows [] g rest hqueue with ⟨hnone, -⟩ | hown | hmem
    · rcases ht with hholds | ⟨first, hfirst', hlock, -⟩
      · exact hnone n hholds
      · cases hfirst.symm.trans hfirst'
        cases hlock
    · exact hwaits hown
    · cases hmem
  | name h =>
    refine ⟨⟨hash h.key, rfl⟩, ?_⟩
    rintro _ ⟨k, rfl⟩ hholds
    obtain ⟨e, he, rfl⟩ := (hnames k).1 hholds
    have hheld : (s.sessions t).scope.held = done ++ h :: rest.filterMap Statement.claim? := by
      rw [hdone, hqueue]
      rfl
    have hmem : ∀ e ∈ done, e ∈ (s.sessions t).scope.held := by
      intro e he
      rw [hheld]
      exact List.mem_append_left _ he
    have hmemh : h ∈ (s.sessions t).scope.held := by
      rw [hheld]
      exact List.mem_append_right _ List.mem_cons_self
    -- The awaited key is not owned, so its claim stands after all the owned ones.
    have hfresh : ∀ e ∈ done, e.key ≠ h.key := by
      intro e he hkey
      exact hwaits ((hnames _).2 ⟨e, he, congrArg hash hkey⟩)
    rcases hsession.ordered done h _ hheld with ⟨e', he', hkey⟩ | hbefore
    · exact absurd hkey (hfresh e' he')
    · obtain ⟨o, ho, o', ho', hle⟩ := hbefore e he
      obtain rfl := hs.positioned.agreed t e (hmem e he) o ho
      obtain rfl := hs.positioned.agreed t h hmemh o' ho'
      rw [Statement.lock, lockRank_name hinj, lockRank_name hinj]
      apply lt_of_le_of_ne hle
      intro hrank
      apply hfresh e he
      exact hs.positioned.distinct t t e (hmem e he) h hmemh (by simp [Option.mem_def.1 ho])
        (by simp [Option.mem_def.1 ho']) (rank_injective hrank)

theorem awaits_unique {l l' : Lock} (hl : s.Awaits hash t l) (hl' : s.Awaits hash t l') :
    l' = l := by
  obtain ⟨statement, hfirst, rfl, -⟩ := hl
  obtain ⟨statement', hfirst', rfl, -⟩ := hl'
  cases hfirst.symm.trans hfirst'
  rfl

/-- In every run in which participants agree on positions, different claimed keys never share one,
and failed acquisitions leave the other claims in order, no wait-for cycle goes through a
transaction that holds or awaits a name lock. -/
theorem no_deadlock (hinj : Function.Injective hash) {steps : List Step}
    (hrun : run (next hash) steps Sys.idle = some s)
    (halong : Along (next hash) (fun l t => Agreed pos l t ∧ Unmixed pos l t) steps Sys.idle) :
    ¬s.Deadlocked hash := by
  have hs : Inv hash pos s := invariant_along inv_next hrun halong inv_idle
  rintro ⟨t, m, hm, ht, hcycle⟩
  exact (ascending hinj hs).no_cycle (fun t l l' => awaits_unique) hm ht hcycle

end Invariant

/-! ## Runs on fixed inputs -/

def encodeText (t : Text) : ℤ := Encodable.encode t

theorem encodeText_injective : Function.Injective encodeText := fun _ _ h =>
  Encodable.encode_injective (Int.ofNat_inj.1 h)

/-- The state after some steps of transactions that have done nothing. -/
def afterSteps (steps : List Step) : Sys := (run (next encodeText) steps Sys.idle).getD Sys.idle

theorem run_afterSteps {steps : List Step}
    (h : (run (next encodeText) steps Sys.idle).isSome = true) :
    run (next encodeText) steps Sys.idle = some (afterSteps steps) := by
  obtain ⟨s, hs⟩ := Option.isSome_iff_exists.1 h
  rw [afterSteps, hs, Option.getD_some]

theorem deadlocked_of_cross {s : Sys} {hash : Text → ℤ} {n n' : ℤ} {h' : HeldLock}
    (hhead : (s.sessions 0).queue.head? = some (.name h)) (hkey : hash h.key = n)
    (hheld : s.owner (.name n) = some 1) (hhead' : (s.sessions 1).queue.head? = some (.name h'))
    (hkey' : hash h'.key = n') (hheld' : s.owner (.name n') = some 0) : s.Deadlocked hash := by
  have hfirst : WaitsFor s.Holds (s.Awaits hash) 0 1 :=
    ⟨.name n, ⟨_, hhead, by rw [Statement.lock, hkey], by simp [hheld]⟩, hheld⟩
  have hsecond : WaitsFor s.Holds (s.Awaits hash) 1 0 :=
    ⟨.name n', ⟨_, hhead', by rw [Statement.lock, hkey'], by simp [hheld']⟩, hheld'⟩
  exact ⟨0, .name n', ⟨n', rfl⟩, Or.inl hheld', (Relation.TransGen.single hfirst).tail hsecond⟩

/-- The position of the account Food below an account Home of the book. -/
def foodOrder : AccountLockOrder := ⟨units "root", [units "Home", units "Food"]⟩

/-- Two accounts named Home, and two transactions that claim Food under both, in opposite orders. -/
def twoHomes : List Step :=
  [.claim 0 1 (units "h1") (units "Food") foodOrder, .grant 0,
    .claim 1 1 (units "h2") (units "Food") foodOrder, .grant 1,
    .claim 0 2 (units "h2") (units "Food") foodOrder,
    .claim 1 2 (units "h1") (units "Food") foodOrder]

/-- Accounts of the same path have different keys and one position, so they can be claimed in any
order. -/
theorem deadlock_of_shared_position :
    ¬∀ (hash : Text → ℤ) (pos : Text → AccountLockOrder) (steps : List Step) (s : Sys),
      Function.Injective hash → run (next hash) steps Sys.idle = some s →
        Along (next hash) (Agreed pos) steps Sys.idle → ¬s.Deadlocked hash := by
  intro h
  have hrun : run (next encodeText) twoHomes Sys.idle = some (afterSteps twoHomes) :=
    run_afterSteps (by decide +kernel)
  have hagreed : Along (next encodeText) (Agreed fun _ => foodOrder) twoHomes Sys.idle := by
    decide +kernel
  apply h encodeText (fun _ => foodOrder) twoHomes _ encodeText_injective hrun hagreed
  have hhead : ((afterSteps twoHomes).sessions 0).queue.head? =
      some (.name ⟨2, accountNameLockKey (units "h2") (units "Food"), some foodOrder⟩) := by
    decide +kernel
  have hhead' : ((afterSteps twoHomes).sessions 1).queue.head? =
      some (.name ⟨2, accountNameLockKey (units "h1") (units "Food"), some foodOrder⟩) := by
    decide +kernel
  exact deadlocked_of_cross hhead rfl (by decide +kernel) hhead' rfl (by decide +kernel)

/-- A position under which no two keys share one. -/
def ownOrder (key : Text) : AccountLockOrder := ⟨key, [units "A"]⟩

def claimA (t : ℕ) : Step :=
  .claim t 1 (units "p") (units "A") (ownOrder (accountNameLockKey (units "p") (units "A")))

/-- Two transactions claim one key, and the second waits. -/
def contended : List Step := [claimA 0, .grant 0, claimA 1]

theorem no_deadlock_contended : ¬(afterSteps contended).Deadlocked encodeText := by
  have hrun : run (next encodeText) contended Sys.idle = some (afterSteps contended) :=
    run_afterSteps (by decide +kernel)
  have hown : ∀ s : Sys, Unmixed ownOrder (claimA 0) s := by
    intro s u h _ _ heq
    exact (AccountLockOrder.mk.inj heq).1
  have halong : Along (next encodeText) (fun l s => Agreed ownOrder l s ∧ Unmixed ownOrder l s)
      contended Sys.idle :=
    ⟨⟨rfl, hown _⟩, fun s _ => ⟨⟨trivial, trivial⟩, fun s _ => ⟨⟨rfl, hown s⟩, fun _ _ => trivial⟩⟩⟩
  exact no_deadlock encodeText_injective hrun halong

end AccountLocks
