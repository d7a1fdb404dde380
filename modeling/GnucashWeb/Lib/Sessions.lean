import Mathlib.Logic.Function.Basic
import Mathlib.Logic.Relation
import Mathlib.Order.Basic
import Mathlib.Data.Nat.Notation

/-!
# Sessions of a database

Any number of sessions over committed tables.  A session has a phase and holds row locks, and its
writes are seen when it closes.  `Sound` says that every session may rely on what its phase promises;
a step keeps it when the session that moves may rely on its new phase and the step does not disturb
the others.
-/

/-!
## Locks

Who holds the locks of rows, and when transactions that await locks of each other form a cycle.
-/

/-!
## Row locks

Who holds the lock of each row.  A lock is taken when it is free, and a session gives all its locks
back at once, when its transaction ends.
-/

namespace RowLocks

variable {κ ι : Type}

def acquire [DecidableEq κ] (holder : κ → Option ι) (row : κ) (session : ι) : κ → Option ι :=
  Function.update holder row (some session)

def release [DecidableEq ι] (holder : κ → Option ι) (session : ι) : κ → Option ι :=
  fun row => if holder row = some session then none else holder row

variable {holder : κ → Option ι} {row row' : κ} {session session' : ι}

@[simp] theorem acquire_self [DecidableEq κ] : acquire holder row session row = some session :=
  Function.update_self ..

theorem acquire_of_held [DecidableEq κ]
    (hfree : holder row = none ∨ holder row = some session) (h : holder row' = some session') :
    acquire holder row session row' = some session' := by
  by_cases hrow : row' = row
  · subst hrow
    rw [h] at hfree
    obtain rfl : session' = session := by simpa using hfree
    exact acquire_self
  · rw [acquire, Function.update_of_ne hrow, h]

theorem release_of_held [DecidableEq ι] (h : holder row = some session')
    (hne : session' ≠ session) :
    release holder session row = some session' := by
  rw [release, h, if_neg (by simpa using hne)]

end RowLocks

/-!
## Wait-for cycles

Transactions that hold locks and await locks of others.  When everyone who has to do with the locks
of a class awaits only locks of that class, and only above those it holds, no wait-for cycle goes
through the class (`no_cycle`).
-/

namespace WaitFor

variable {τ κ P : Type} [Preorder P]

/-- One transaction awaits a lock that another holds. -/
def WaitsFor (Holds Awaits : τ → κ → Prop) (t u : τ) : Prop := ∃ l, Awaits t l ∧ Holds u l

/-- Whoever holds or awaits a lock of the class awaits only locks of the class, above the locks of
the class that it holds. -/
def Ascending (Holds Awaits : τ → κ → Prop) (N : κ → Prop) (rank : κ → P) : Prop :=
  ∀ t m l, N m → Holds t m ∨ Awaits t m → Awaits t l →
    N l ∧ ∀ k, N k → Holds t k → rank k < rank l

variable {Holds Awaits : τ → κ → Prop} {N : κ → Prop} {rank : κ → P}

/-- Along wait-for edges the awaited lock of the class stays below a lock held at the end. -/
theorem Ascending.le_of_path (h : Ascending Holds Awaits N rank) {t u : τ}
    (hpath : Relation.TransGen (WaitsFor Holds Awaits) t u) {l : κ} (hl : N l)
    (hunique : ∀ l', Awaits t l' → l' = l) : ∃ k, N k ∧ Holds u k ∧ rank l ≤ rank k := by
  induction hpath with
  | single hedge =>
    obtain ⟨k, hk, hheld⟩ := hedge
    obtain rfl := hunique k hk
    exact ⟨k, hl, hheld, le_rfl⟩
  | tail _ hedge ih =>
    obtain ⟨k, hk, hheld, hle⟩ := ih
    obtain ⟨m, hm, hheld'⟩ := hedge
    obtain ⟨hNm, habove⟩ := h _ k m hk (Or.inl hheld) hm
    exact ⟨m, hNm, hheld', hle.trans (habove k hk hheld).le⟩

/-- No wait-for cycle goes through a transaction that holds or awaits a lock of the class. -/
theorem Ascending.no_cycle (h : Ascending Holds Awaits N rank)
    (hunique : ∀ t l l', Awaits t l → Awaits t l' → l' = l) {t : τ} {m : κ} (hm : N m)
    (ht : Holds t m ∨ Awaits t m) : ¬Relation.TransGen (WaitsFor Holds Awaits) t t := by
  intro hcycle
  obtain ⟨u, ⟨l, hl, -⟩, -⟩ := Relation.TransGen.head'_iff.1 hcycle
  obtain ⟨hNl, habove⟩ := h t m l hm ht hl
  obtain ⟨k, hk, hheld, hle⟩ := h.le_of_path hcycle hNl fun l' hl' => hunique t l l' hl hl'
  exact (habove k hk hheld).not_ge hle

end WaitFor

namespace Sessions

open RowLocks

variable {σ κ P : Type}

/-- The committed tables, who holds each row lock, and how far each session has come. -/
structure Sys (σ κ P : Type) where
  db : σ
  holder : κ → Option ℕ
  phase : ℕ → P

namespace Sys

def goto (s : Sys σ κ P) (k : ℕ) (p : P) : Sys σ κ P :=
  { s with phase := Function.update s.phase k p }

def take [DecidableEq κ] (s : Sys σ κ P) (row : κ) (k : ℕ) : Sys σ κ P :=
  { s with holder := acquire s.holder row k }

/-- A session ends: its tables are committed and its locks given back. -/
def close (s : Sys σ κ P) (k : ℕ) (db : σ) (p : P) : Sys σ κ P :=
  ⟨db, release s.holder k, Function.update s.phase k p⟩

def CanTake (s : Sys σ κ P) (row : κ) (k : ℕ) : Prop :=
  s.holder row = none ∨ s.holder row = some k

instance (s : Sys σ κ P) (row : κ) (k : ℕ) : Decidable (s.CanTake row k) :=
  inferInstanceAs (Decidable (_ ∨ _))

variable {s : Sys σ κ P} {j k : ℕ} {p : P} {db : σ} {row : κ}

@[simp] theorem goto_db : (s.goto k p).db = s.db := rfl

@[simp] theorem goto_holder : (s.goto k p).holder = s.holder := rfl

@[simp] theorem goto_phase_self : (s.goto k p).phase k = p := Function.update_self ..

theorem goto_phase_of_ne (h : j ≠ k) : (s.goto k p).phase j = s.phase j :=
  Function.update_of_ne h ..

@[simp] theorem take_db [DecidableEq κ] : (s.take row k).db = s.db := rfl

@[simp] theorem take_phase [DecidableEq κ] : (s.take row k).phase = s.phase := rfl

@[simp] theorem close_db : (s.close k db p).db = db := rfl

@[simp] theorem close_phase_self : (s.close k db p).phase k = p := Function.update_self ..

theorem close_phase_of_ne (h : j ≠ k) : (s.close k db p).phase j = s.phase j :=
  Function.update_of_ne h ..

@[simp] theorem take_holder_self [DecidableEq κ] : (s.take row k).holder row = some k :=
  acquire_self

end Sys

/-! ## What sessions rely on -/

variable {Ok : σ → (κ → Option ℕ) → ℕ → P → Prop} {s : Sys σ κ P} {k : ℕ} {p : P} {db : σ}

/-- Every session may rely on what its phase promises. -/
def Sound (Ok : σ → (κ → Option ℕ) → ℕ → P → Prop) (s : Sys σ κ P) : Prop :=
  ∀ k, Ok s.db s.holder k (s.phase k)

theorem Sound.goto (hs : Sound Ok s) (hk : Ok s.db s.holder k p) : Sound Ok (s.goto k p) := by
  intro j
  by_cases hjk : j = k
  · subst hjk
    rw [Sys.goto_phase_self]
    exact hk
  · rw [Sys.goto_phase_of_ne hjk]
    exact hs j

theorem Sound.take [DecidableEq κ] (hs : Sound Ok s) {row : κ}
    (hmono : ∀ j, Ok s.db s.holder j (s.phase j) →
      Ok s.db (acquire s.holder row k) j (s.phase j)) :
    Sound Ok (s.take row k) :=
  fun j => hmono j (hs j)

/-- A session that ends keeps what holds of the others when its writes do not disturb them. -/
theorem Sound.close (hs : Sound Ok s) (hk : Ok db (release s.holder k) k p)
    (hother : ∀ j, j ≠ k → Ok s.db s.holder j (s.phase j) →
      Ok db (release s.holder k) j (s.phase j)) :
    Sound Ok (s.close k db p) := by
  intro j
  by_cases hjk : j = k
  · subst hjk
    rw [Sys.close_phase_self]
    exact hk
  · rw [Sys.close_phase_of_ne hjk]
    exact hother j hjk (hs j)

end Sessions
