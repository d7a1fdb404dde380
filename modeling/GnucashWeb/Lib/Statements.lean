import GnucashWeb.Lib.Runs
import GnucashWeb.Lib.Sessions
import Mathlib.Data.Set.Insert

/-!
# Database transactions, statement by statement

`Txn` is a database transaction as a program of statements: each read sees what is committed when it
is made (and the transaction's own writes), a row lock waits until the row is free, and the writes
are seen by others when the transaction commits, which also gives its locks back.  A `Script` is what
a client does: one transaction after the other.

Reasoning is by rely and guarantee.  `Rely L` relates the tables before and after what other sessions
may do while a session holds the locks `L`; `Txn.wp` is the weakest precondition of a transaction
under all that, closed under the ways to build one; `safe_next` says that a step keeps what every
session relies on when the commit that it makes is one that the others allow, and `commit_spec` what
a commit then does.
-/

namespace Statements

open Sessions RowLocks Runs

variable {σ κ ε α β : Type}

/-! ## Programs -/

/-- A database transaction over tables `σ` with row locks `κ`. -/
inductive Txn (σ κ ε α : Type) : Type
  /-- Commit with a result. -/
  | done (a : α)
  /-- Roll back with an error. -/
  | fail (e : ε)
  /-- A query: go on with the tables that it sees. -/
  | query (next : σ → Txn σ κ ε α)
  /-- Lock a row, and go on with whether it is there. -/
  | locking (row : κ) (next : Bool → Txn σ κ ε α)
  /-- A write, which fails on some tables. -/
  | writing (f : σ → Option σ) (next : Txn σ κ ε α)

namespace Txn

def andThen : Txn σ κ ε α → (α → Txn σ κ ε β) → Txn σ κ ε β
  | done a, f => f a
  | fail e, _ => fail e
  | query next, f => query fun s => (next s).andThen f
  | locking row next, f => locking row fun found => (next found).andThen f
  | writing g next, f => writing g (next.andThen f)

instance : Monad (Txn σ κ ε) where
  pure := done
  bind := andThen

def select (f : σ → β) : Txn σ κ ε β := query fun s => done (f s)

/-- Lock a row: whether it is there. -/
def lock (row : κ) : Txn σ κ ε Bool := locking row done

def lockAll : List κ → Txn σ κ ε Unit
  | [] => done ()
  | row :: rows => locking row fun _ => lockAll rows

def write (f : σ → σ) : Txn σ κ ε Unit := writing (fun s => some (f s)) (done ())

def tryWrite (f : σ → Option σ) : Txn σ κ ε Unit := writing f (done ())

def check : Except ε β → Txn σ κ ε β
  | .ok b => done b
  | .error e => fail e

def require (c : Prop) [Decidable c] (e : ε) : Txn σ κ ε Unit := if c then done () else fail e

def expect (o : Option β) (e : ε) : Txn σ κ ε β :=
  match o with
  | some b => done b
  | none => fail e

def onlyIf (c : Prop) [Decidable c] (t : Txn σ κ ε Unit) : Txn σ κ ε Unit := if c then t else done ()

end Txn

/-- A transaction for each of some values, one after the other. -/
def each (body : β → Txn σ κ ε α) : List β → Txn σ κ ε (List α)
  | [] => pure []
  | x :: xs => do
    let a ← body x
    let as ← each body xs
    pure (a :: as)

/-- What a client does: transactions one after the other, each chosen from how the one before
ended. -/
inductive Script (σ κ ε α : Type) : Type
  | stop
  | exec (t : Txn σ κ ε α) (rest : Except ε α → Script σ κ ε α)

/-- A session inside a transaction: what is left of it, its own writes, and what follows it. -/
structure Session (σ κ ε α : Type) where
  prog : Txn σ κ ε α
  pending : σ → Option σ
  rest : Except ε α → Script σ κ ε α

def Script.begin : Script σ κ ε α → Option (Session σ κ ε α)
  | stop => none
  | exec t rest => some ⟨t, some, rest⟩

def Script.single (t : Txn σ κ ε α) : Script σ κ ε α := exec t fun _ => stop

abbrev System (σ κ ε α : Type) := Sys σ κ (Option (Session σ κ ε α))

def start (db : σ) : System σ κ ε α := ⟨db, fun _ => none, fun _ => none⟩

/-! ## Steps -/

inductive Step (ρ ε : Type)
  /-- A client makes a request. -/
  | call (k : ℕ) (req : ρ)
  /-- The next statement of a session, or its commit. -/
  | advance (k : ℕ)
  /-- A statement fails: the transaction is rolled back, and the client sees the error. -/
  | abort (k : ℕ) (e : ε)
  /-- The client dies: its transaction is rolled back. -/
  | crash (k : ℕ)
deriving DecidableEq

section Next

variable {ρ : Type} [DecidableEq κ] (present : σ → κ → Bool) (script : ρ → Script σ κ ε α)

def callNext (k : ℕ) (req : ρ) (s : System σ κ ε α) : Option (System σ κ ε α) :=
  match s.phase k with
  | none => some (s.goto k (script req).begin)
  | some _ => none

def lockNext (k : ℕ) (row : κ) (session : Bool → Session σ κ ε α) (s : System σ κ ε α) :
    Option (System σ κ ε α) :=
  if present s.db row then
    if s.CanTake row k then some ((s.take row k).goto k (some (session true))) else none
  else some (s.goto k (some (session false)))

def advanceNext (k : ℕ) (s : System σ κ ε α) : Option (System σ κ ε α) :=
  match s.phase k with
  | none => none
  | some ⟨.done a, w, rest⟩ => (w s.db).map fun db => s.close k db (rest (.ok a)).begin
  | some ⟨.fail e, _, rest⟩ => some (s.close k s.db (rest (.error e)).begin)
  | some ⟨.query next, w, rest⟩ => (w s.db).map fun v => s.goto k (some ⟨next v, w, rest⟩)
  | some ⟨.locking row next, w, rest⟩ =>
    lockNext present k row (fun found => ⟨next found, w, rest⟩) s
  | some ⟨.writing f next, w, rest⟩ =>
    some (s.goto k (some ⟨next, fun db => (w db).bind f, rest⟩))

def abortNext (k : ℕ) (e : ε) (s : System σ κ ε α) : Option (System σ κ ε α) :=
  match s.phase k with
  | none => none
  | some session => some (s.close k s.db (session.rest (.error e)).begin)

def next : Step ρ ε → System σ κ ε α → Option (System σ κ ε α)
  | .call k req, s => callNext script k req s
  | .advance k, s => advanceNext present k s
  | .abort k e, s => abortNext k e s
  | .crash k, s => some (s.close k s.db none)

end Next

/-! ## Weakest preconditions -/

section Wp

variable (Rely : Set κ → σ → σ → Prop) (present : σ → κ → Bool)

/-- What must hold of the locks, the own writes and the tables so that a transaction ends in what is
asked for, whatever other sessions do in between. -/
def Txn.wp : Txn σ κ ε α → (α → Set κ → (σ → Option σ) → σ → Prop) → Set κ → (σ → Option σ) → σ → Prop
  | .done a, Q, L, w, db => Q a L w db
  | .fail _, _, _, _, _ => True
  | .query next, Q, L, w, db => ∀ db', Rely L db db' → ∀ v, w db' = some v → (next v).wp Q L w db'
  | .locking row next, Q, L, w, db =>
    ∀ db', Rely L db db' →
      (next (present db' row)).wp Q (if present db' row then insert row L else L) w db'
  | .writing f next, Q, L, w, db => next.wp Q L (fun db => (w db).bind f) db

/-- What a commit does, whatever others do before it. -/
def Commits (Q : Set κ → α → σ → σ → Prop) (a : α) (L : Set κ) (w : σ → Option σ) (db : σ) : Prop :=
  ∀ db', Rely L db db' → ∀ db'', w db' = some db'' → Q L a db' db''

end Wp

section Rules

variable {Rely : Set κ → σ → σ → Prop} {present : σ → κ → Bool} {L : Set κ} {w : σ → Option σ} {db db' : σ}

open Txn

theorem wp_bind {t : Txn σ κ ε α} {f : α → Txn σ κ ε β}
    {Q : β → Set κ → (σ → Option σ) → σ → Prop} :
    (t >>= f).wp Rely present Q L w db ↔
      t.wp Rely present (fun a => (f a).wp Rely present Q) L w db := by
  change (t.andThen f).wp Rely present Q L w db ↔ _
  induction t generalizing L w db with
  | done a => exact Iff.rfl
  | fail e => exact Iff.rfl
  | query next ih =>
    simp only [andThen, wp]
    exact forall_congr' fun db' => forall_congr' fun _ => forall_congr' fun v =>
      forall_congr' fun _ => ih v
  | locking row next ih =>
    simp only [andThen, wp]
    exact forall_congr' fun db' => forall_congr' fun _ => ih _
  | writing g next ih => exact ih

variable {Q : α → Set κ → (σ → Option σ) → σ → Prop}

theorem wp_done {a : α} : (done a : Txn σ κ ε α).wp Rely present Q L w db ↔ Q a L w db := Iff.rfl

@[simp] theorem wp_pure {a : α} :
    (pure a : Txn σ κ ε α).wp Rely present Q L w db ↔ Q a L w db := Iff.rfl

@[simp] theorem wp_fail {e : ε} : (fail e : Txn σ κ ε α).wp Rely present Q L w db ↔ True := Iff.rfl

@[simp] theorem wp_select {f : σ → α} :
    (select f : Txn σ κ ε α).wp Rely present Q L w db ↔
      ∀ db', Rely L db db' → ∀ v, w db' = some v → Q (f v) L w db' := Iff.rfl

@[simp] theorem wp_lock {row : κ} {Q : Bool → Set κ → (σ → Option σ) → σ → Prop} :
    (lock row : Txn σ κ ε Bool).wp Rely present Q L w db ↔
      ∀ db', Rely L db db' →
        Q (present db' row) (if present db' row then insert row L else L) w db' := Iff.rfl

@[simp] theorem wp_write {f : σ → σ} {Q : Unit → Set κ → (σ → Option σ) → σ → Prop} :
    (write f : Txn σ κ ε Unit).wp Rely present Q L w db ↔
      Q () L (fun db => (w db).bind fun v => some (f v)) db := Iff.rfl

@[simp] theorem wp_tryWrite {f : σ → Option σ} {Q : Unit → Set κ → (σ → Option σ) → σ → Prop} :
    (tryWrite f : Txn σ κ ε Unit).wp Rely present Q L w db ↔
      Q () L (fun db => (w db).bind f) db := Iff.rfl

@[simp] theorem wp_check {x : Except ε α} :
    (check x : Txn σ κ ε α).wp Rely present Q L w db ↔ ∀ a, x = .ok a → Q a L w db := by
  cases x with
  | error e => simp [check]
  | ok a => simp [check, wp_done]

@[simp] theorem wp_require {c : Prop} [Decidable c] {e : ε}
    {Q : Unit → Set κ → (σ → Option σ) → σ → Prop} :
    (require c e : Txn σ κ ε Unit).wp Rely present Q L w db ↔ (c → Q () L w db) := by
  by_cases hc : c
  · simp [require, hc, wp_done]
  · simp [require, hc]

@[simp] theorem wp_expect {o : Option α} {e : ε} :
    (expect o e : Txn σ κ ε α).wp Rely present Q L w db ↔ ∀ a, o = some a → Q a L w db := by
  cases o with
  | none => simp [expect]
  | some a => simp [expect, wp_done]

@[simp] theorem wp_onlyIf {c : Prop} [Decidable c] {t : Txn σ κ ε Unit}
    {Q : Unit → Set κ → (σ → Option σ) → σ → Prop} :
    (onlyIf c t).wp Rely present Q L w db ↔
      (c → t.wp Rely present Q L w db) ∧ (¬c → Q () L w db) := by
  by_cases hc : c
  · simp [onlyIf, hc]
  · simp [onlyIf, hc, wp_done]

theorem wp_lockAll {rows : List κ} {Q : Unit → Set κ → (σ → Option σ) → σ → Prop}
    (h : ∀ L' db', Q () L' w db') : (lockAll rows : Txn σ κ ε Unit).wp Rely present Q L w db := by
  induction rows generalizing L db with
  | nil => exact h L db
  | cons row rows ih => exact fun db' _ => ih

theorem wp_lockAll_of_antitone [hrefl : ∀ L, Std.Refl (Rely L)] (htrans : ∀ L, IsTrans σ (Rely L))
    (hanti : ∀ {L L' : Set κ} {db db'}, L ⊆ L' → Rely L' db db' → Rely L db db') {rows : List κ}
    {Q : Unit → Set κ → (σ → Option σ) → σ → Prop}
    (h : ∀ L' db', Rely L db db' → Q () L' w db') :
    (lockAll rows : Txn σ κ ε Unit).wp Rely present Q L w db := by
  induction rows generalizing L db with
  | nil => exact h L db ((hrefl L).refl db)
  | cons row rows ih =>
    intro db₁ h₁
    refine ih fun L' db₂ h₂ => h L' db₂ ((htrans L).trans _ _ _ h₁ ?_)
    split at h₂
    · exact hanti (Set.subset_insert row L) h₂
    · exact h₂

theorem Txn.wp.mono {t : Txn σ κ ε α} {Q' : α → Set κ → (σ → Option σ) → σ → Prop}
    (h : t.wp Rely present Q L w db) (hQ : ∀ a L w db, Q a L w db → Q' a L w db) :
    t.wp Rely present Q' L w db := by
  induction t generalizing L w db with
  | done a => exact hQ _ _ _ _ h
  | fail e => trivial
  | query next ih => exact fun db' hdb v hv => ih v (h db' hdb v hv)
  | locking row next ih => exact fun db' hdb => ih _ (h db' hdb)
  | writing f next ih => exact ih h

theorem wp_each {J : Set κ → (σ → Option σ) → σ → Prop} {body : β → Txn σ κ ε α} {xs : List β}
    (hbody : ∀ x ∈ xs, ∀ L w db, J L w db → (body x).wp Rely present (fun _ => J) L w db)
    (h : J L w db) : (each body xs).wp Rely present (fun _ => J) L w db := by
  induction xs generalizing L w db with
  | nil => exact h
  | cons x xs ih =>
    rw [each, wp_bind]
    refine (hbody x (by simp) L w db h).mono fun a L w db h => ?_
    rw [wp_bind]
    exact (ih (fun y hy => hbody y (List.mem_cons_of_mem _ hy)) h).mono fun _ _ _ _ h => h

theorem Txn.wp.stable {t : Txn σ κ ε α} (htrans : ∀ L, IsTrans σ (Rely L))
    (hQ : ∀ a L w db db', Q a L w db → Rely L db db' → Q a L w db')
    (h : t.wp Rely present Q L w db) (hdb : Rely L db db') : t.wp Rely present Q L w db' := by
  induction t generalizing w db db' with
  | done a => exact hQ _ _ _ _ _ h hdb
  | fail e => trivial
  | query next ih => exact fun db'' hdb' => h db'' ((htrans L).trans _ _ _ hdb hdb')
  | locking row next ih => exact fun db'' hdb' => h db'' ((htrans L).trans _ _ _ hdb hdb')
  | writing f next ih => exact ih h hdb

theorem Commits.stable {Q : Set κ → α → σ → σ → Prop} (htrans : ∀ L, IsTrans σ (Rely L)) {a : α}
    (h : Commits Rely Q a L w db) (hdb : Rely L db db') : Commits Rely Q a L w db' :=
  fun db'' hdb' => h db'' ((htrans L).trans _ _ _ hdb hdb')

end Rules

/-! ## Sessions that run side by side -/

section Soundness

variable {ρ : Type} (Rely : Set κ → σ → σ → Prop) (present : σ → κ → Bool) (I : σ → Prop)
  (Q : Set κ → α → σ → σ → Prop)

/-- Every transaction of a script, begun on tables that satisfy `I`, commits as `Q` says. -/
def Script.Good : Script σ κ ε α → Prop
  | .stop => True
  | .exec t rest =>
    (∀ db, I db → t.wp Rely present (Commits Rely Q) ∅ some db) ∧ ∀ r, (rest r).Good

/-- A session inside a transaction commits as `Q` says, and so do the transactions after it. -/
def PhaseOk (db : σ) (holder : κ → Option ℕ) (k : ℕ) : Option (Session σ κ ε α) → Prop
  | none => ∀ row, holder row ≠ some k
  | some session =>
    session.prog.wp Rely present (Commits Rely Q) {row | holder row = some k} session.pending db ∧
      ∀ r, (session.rest r).Good Rely present I Q

/-- The tables satisfy `I`, and every session may rely on what its phase promises. -/
structure Safe (s : System σ κ ε α) : Prop where
  tables : I s.db
  sound : Sound (PhaseOk Rely present I Q) s

variable {Rely present I Q} {s s' : System σ κ ε α} {k : ℕ}

theorem safe_start {db : σ} (hI : I db) :
    Safe Rely present I Q (start db : System σ κ ε α) :=
  ⟨hI, fun _ _ h => by cases h⟩

theorem phaseOk_begin {script : Script σ κ ε α} (h : script.Good Rely present I Q) {db : σ} (hI : I db)
    {holder : κ → Option ℕ} (hfree : ∀ row, holder row ≠ some k) :
    PhaseOk Rely present I Q db holder k script.begin := by
  cases script with
  | stop => exact hfree
  | exec t rest =>
    have hempty : {row | holder row = some k} = ∅ :=
      Set.eq_empty_iff_forall_notMem.2 hfree
    refine ⟨?_, h.2⟩
    rw [hempty]
    exact h.1 db hI

theorem commit_spec [hrefl : ∀ L, Std.Refl (Rely L)] (hs : Safe Rely present I Q s) {a : α}
    {w : σ → Option σ} {rest : Except ε α → Script σ κ ε α} {db' : σ}
    (hphase : s.phase k = some ⟨.done a, w, rest⟩) (hw : w s.db = some db') :
    Q {row | s.holder row = some k} a s.db db' := by
  have hok := hs.sound k
  rw [hphase] at hok
  exact hok.1 s.db ((hrefl _).refl _) db' hw

theorem locks_acquire_self [DecidableEq κ] {holder : κ → Option ℕ} {row : κ} :
    {r | acquire holder row k r = some k} = insert row {r | holder r = some k} := by
  ext r
  by_cases hr : r = row
  · simp [acquire, hr]
  · simp [acquire, hr]

theorem locks_acquire_of_ne [DecidableEq κ] {holder : κ → Option ℕ} {row : κ} {j : ℕ} (hjk : j ≠ k)
    (hfree : holder row = none ∨ holder row = some k) :
    {r | acquire holder row k r = some j} = {r | holder r = some j} := by
  ext r
  by_cases hr : r = row
  · subst hr
    rcases hfree with hfree | hfree <;> simp [acquire, hfree, Ne.symm hjk]
  · simp [acquire, Function.update_of_ne hr]

theorem locks_release_of_ne {holder : κ → Option ℕ} {j : ℕ} (hjk : j ≠ k) :
    {r | release holder k r = some j} = {r | holder r = some j} := by
  ext r
  by_cases hr : holder r = some k
  · simp [release, hr, Ne.symm hjk]
  · simp [release, hr]

theorem release_ne {holder : κ → Option ℕ} (row : κ) : release holder k row ≠ some k := by
  unfold release
  split
  · simp
  · assumption

theorem Safe.goto (hs : Safe Rely present I Q s) {session : Session σ κ ε α}
    (hk : PhaseOk Rely present I Q s.db s.holder k (some session)) :
    Safe Rely present I Q (s.goto k (some session)) :=
  ⟨hs.tables, hs.sound.goto hk⟩

theorem Safe.lock [DecidableEq κ] (hs : Safe Rely present I Q s) {row : κ} (hfree : s.CanTake row k)
    {session : Session σ κ ε α}
    (hk : PhaseOk Rely present I Q s.db (acquire s.holder row k) k (some session)) :
    Safe Rely present I Q ((s.take row k).goto k (some session)) := by
  refine ⟨hs.tables, fun j => ?_⟩
  by_cases hjk : j = k
  · subst hjk
    rw [Sys.goto_phase_self]
    exact hk
  · rw [Sys.goto_phase_of_ne hjk, Sys.take_phase]
    have hok := hs.sound j
    cases hphase : s.phase j with
    | none =>
      rw [hphase] at hok
      intro r hr
      have hmem : r ∈ {r | acquire s.holder row k r = some j} := hr
      rw [locks_acquire_of_ne hjk hfree] at hmem
      exact hok r hmem
    | some session =>
      rw [hphase] at hok
      refine ⟨?_, hok.2⟩
      show session.prog.wp _ _ _ {r | acquire s.holder row k r = some j} _ _
      rw [locks_acquire_of_ne hjk hfree]
      exact hok.1

theorem Safe.close (hs : Safe Rely present I Q s) (htrans : ∀ L, IsTrans σ (Rely L)) {db : σ}
    (hI : I db) (hrely : ∀ j, j ≠ k → Rely {row | s.holder row = some j} s.db db)
    {p : Option (Session σ κ ε α)}
    (hk : PhaseOk Rely present I Q db (release s.holder k) k p) :
    Safe Rely present I Q (s.close k db p) := by
  refine ⟨hI, hs.sound.close hk fun j hjk hok => ?_⟩
  cases hphase : s.phase j with
  | none =>
    rw [hphase] at hok
    intro row hrow
    have hmem : row ∈ {r | release s.holder k r = some j} := hrow
    rw [locks_release_of_ne hjk] at hmem
    exact hok row hmem
  | some session =>
    rw [hphase] at hok
    refine ⟨?_, hok.2⟩
    rw [locks_release_of_ne hjk]
    exact hok.1.stable htrans (fun _ _ _ _ _ hq => hq.stable htrans) (hrely j hjk)

/-- A step keeps what every session relies on, when the commit that it makes leaves tables that the
others allow. -/
theorem safe_next [DecidableEq κ] {script : ρ → Script σ κ ε α} [hrefl : ∀ L, Std.Refl (Rely L)]
    (htrans : ∀ L, IsTrans σ (Rely L)) (hscript : ∀ req, (script req).Good Rely present I Q)
    {l : Step ρ ε} (h : next present script l s = some s') (hs : Safe Rely present I Q s)
    (hcommit : ∀ k a w rest db', l = .advance k → s.phase k = some ⟨.done a, w, rest⟩ →
      w s.db = some db' → I db' ∧ ∀ j, j ≠ k → Rely {row | s.holder row = some j} s.db db') :
    Safe Rely present I Q s' := by
  have hself (j : ℕ) : Rely {row | s.holder row = some j} s.db s.db := (hrefl _).refl _
  cases l with
  | call k req =>
    simp only [next, callNext] at h
    split at h
    · next hphase =>
        cases h
        have hfree := hs.sound k
        rw [hphase] at hfree
        exact ⟨hs.tables, hs.sound.goto (phaseOk_begin (hscript req) hs.tables hfree)⟩
    · cases h
  | advance k =>
    have hok := hs.sound k
    simp only [next, advanceNext] at h
    split at h
    · cases h
    · next a w rest hphase =>
        obtain ⟨db', hw, rfl⟩ := Option.map_eq_some_iff.1 h
        rw [hphase] at hok
        obtain ⟨hI, hrely⟩ := hcommit k a w rest db' rfl hphase hw
        exact hs.close htrans hI hrely (phaseOk_begin (hok.2 _) hI release_ne)
    · next e w rest hphase =>
        cases h
        rw [hphase] at hok
        exact hs.close htrans hs.tables (fun j _ => hself j)
          (phaseOk_begin (hok.2 _) hs.tables release_ne)
    · next cont w rest hphase =>
        obtain ⟨v, hw, rfl⟩ := Option.map_eq_some_iff.1 h
        rw [hphase] at hok
        exact hs.goto ⟨hok.1 s.db (hself k) v hw, hok.2⟩
    · next row cont w rest hphase =>
        rw [hphase] at hok
        have hwp := hok.1 s.db (hself k)
        simp only [lockNext] at h
        split at h
        · next hpresent =>
            rw [if_pos hpresent, hpresent] at hwp
            split at h
            · next hfree =>
                cases h
                exact hs.lock hfree ⟨by rwa [locks_acquire_self], hok.2⟩
            · cases h
        · next hpresent =>
            rw [if_neg hpresent, Bool.eq_false_iff.2 hpresent] at hwp
            cases h
            exact hs.goto ⟨hwp, hok.2⟩
    · next f cont w rest hphase =>
        cases h
        rw [hphase] at hok
        exact hs.goto ⟨hok.1, hok.2⟩
  | abort k e =>
    have hok := hs.sound k
    simp only [next, abortNext] at h
    split at h
    · cases h
    · next session hphase =>
        cases h
        rw [hphase] at hok
        exact hs.close htrans hs.tables (fun j _ => hself j)
          (phaseOk_begin (hok.2 _) hs.tables release_ne)
  | crash k =>
    cases h
    exact hs.close htrans hs.tables (fun j _ => hself j) release_ne

end Soundness

/-! ## Commits along a run -/

section AlongRuns

variable {ρ : Type}

/-- When a step commits, a condition on the locks, the result and the tables before and after. -/
def AtCommit (C : Set κ → α → σ → σ → Prop) (l : Step ρ ε) (s : System σ κ ε α) : Prop :=
  match l with
  | .advance k =>
    match s.phase k with
    | some ⟨.done a, w, _⟩ =>
      match w s.db with
      | some db' => C {row | s.holder row = some k} a s.db db'
      | none => True
    | _ => True
  | _ => True

/-- A condition on a commit that can be decided where the locks can. -/
class DecidableCommit (C : Set κ → α → σ → σ → Prop) where
  dec : ∀ (L : Set κ) [DecidablePred (· ∈ L)] (a : α) (db db' : σ), Decidable (C L a db db')

instance {C : Set κ → α → σ → σ → Prop} [h : DecidableCommit C] (l : Step ρ ε)
    (s : System σ κ ε α) : Decidable (AtCommit C l s) := by
  have hlocks (k : ℕ) : DecidablePred (· ∈ {row | s.holder row = some k}) :=
    fun row => inferInstanceAs (Decidable (s.holder row = some k))
  unfold AtCommit
  split
  · next k =>
      split
      · split
        · exact h.dec _ _ _ _
        · infer_instance
      · infer_instance
  · infer_instance

theorem atCommit_advance {C : Set κ → α → σ → σ → Prop} {s : System σ κ ε α} {k : ℕ} {a : α}
    {w : σ → Option σ} {rest : Except ε α → Script σ κ ε α} {db' : σ}
    (hphase : s.phase k = some ⟨.done a, w, rest⟩) (hw : w s.db = some db') :
    AtCommit C (.advance k : Step ρ ε) s ↔ C {row | s.holder row = some k} a s.db db' := by
  simp [AtCommit, hphase, hw]

theorem AtCommit.imp {C D : Set κ → α → σ → σ → Prop} {l : Step ρ ε} {s : System σ κ ε α}
    (h : AtCommit C l s)
    (hCD : ∀ k a w rest db', s.phase k = some ⟨.done a, w, rest⟩ → w s.db = some db' →
      C {row | s.holder row = some k} a s.db db' → D {row | s.holder row = some k} a s.db db') :
    AtCommit D l s := by
  unfold AtCommit at h ⊢
  split
  · next k =>
      split
      · next a w rest hphase =>
          split
          · next db' hw =>
              simp only [hphase, hw] at h
              exact hCD k a w rest db' hphase hw h
          · trivial
      · trivial
  · trivial

variable {Rely : Set κ → σ → σ → Prop} {present : σ → κ → Bool} {I : σ → Prop}
  {Q : Set κ → α → σ → σ → Prop} [DecidableEq κ] {script : ρ → Script σ κ ε α}
  [hrefl : ∀ L, Std.Refl (Rely L)] {C D : Set κ → α → σ → σ → Prop}

/-- When commits that meet a condition leave the tables as the other sessions may rely on, a step whose
commit meets it keeps what every session relies on. -/
theorem safe_of_atCommit (htrans : ∀ L, IsTrans σ (Rely L))
    (hscript : ∀ req, (script req).Good Rely present I Q)
    (hkeeps : ∀ L a db db', I db → Q L a db db' → C L a db db' →
      I db' ∧ ∀ L', (∀ row ∈ L', row ∉ L) → Rely L' db db')
    {l : Step ρ ε} {s s' : System σ κ ε α} (hC : AtCommit C l s)
    (hl : next present script l s = some s') (hs : Safe Rely present I Q s) :
    Safe Rely present I Q s' := by
  refine safe_next htrans hscript hl hs fun k a w rest db' hadv hphase hw => ?_
  subst hadv
  obtain ⟨hI', hrely⟩ := hkeeps _ a _ _ hs.tables (commit_spec hs hphase hw)
    ((atCommit_advance hphase hw).1 hC)
  refine ⟨hI', fun j hjk => hrely _ fun row hj hk => hjk ?_⟩
  exact Option.some.inj (hj.symm.trans hk)

theorem tables_of_run (htrans : ∀ L, IsTrans σ (Rely L))
    (hscript : ∀ req, (script req).Good Rely present I Q)
    (hkeeps : ∀ L a db db', I db → Q L a db db' → C L a db db' →
      I db' ∧ ∀ L', (∀ row ∈ L', row ∉ L) → Rely L' db db')
    {steps : List (Step ρ ε)} {db : σ} {s : System σ κ ε α} (hI : I db)
    (hrun : run (next present script) steps (start db) = some s)
    (h : Along (next present script) (AtCommit C) steps (start db)) : I s.db := by
  have hs : Safe Rely present I Q s := invariant_along
    (fun l s s' => safe_of_atCommit htrans hscript hkeeps) hrun h (safe_start hI)
  exact hs.tables

/-- When commits that meet a condition leave the tables as the other sessions may rely on, and do
something more, they do so along every run whose commits all meet it. -/
theorem along_atCommit (htrans : ∀ L, IsTrans σ (Rely L))
    (hscript : ∀ req, (script req).Good Rely present I Q)
    (hkeeps : ∀ L a db db', I db → Q L a db db' → C L a db db' →
      I db' ∧ ∀ L', (∀ row ∈ L', row ∉ L) → Rely L' db db')
    (hdoes : ∀ L a db db', I db → Q L a db db' → C L a db db' → D L a db db')
    {steps : List (Step ρ ε)} {db : σ} (hI : I db)
    (h : Along (next present script) (AtCommit C) steps (start db)) :
    Along (next present script) (AtCommit D) steps (start db) := by
  refine along_imp (fun l s s' => safe_of_atCommit htrans hscript hkeeps) (fun l s hs hC => ?_)
    (safe_start hI : Safe Rely present I Q _) h
  exact hC.imp fun k a w rest db' hphase hw => hdoes _ a _ _ hs.tables (commit_spec hs hphase hw)

/-- When every commit leaves the tables as the other sessions may rely on, two conditions on a commit
that agree wherever it does what it promises agree along every run. -/
theorem along_atCommit_iff (htrans : ∀ L, IsTrans σ (Rely L))
    (hscript : ∀ req, (script req).Good Rely present I Q)
    (hkeeps : ∀ L a db db', I db → Q L a db db' →
      I db' ∧ ∀ L', (∀ row ∈ L', row ∉ L) → Rely L' db db')
    (hiff : ∀ L a db db', I db → Q L a db db' → (C L a db db' ↔ D L a db db'))
    (steps : List (Step ρ ε)) {db : σ} (hI : I db) :
    Along (next present script) (AtCommit C) steps (start db) ↔
      Along (next present script) (AtCommit D) steps (start db) :=
  ⟨along_atCommit htrans hscript (fun L a db db' hI hQ _ => hkeeps L a db db' hI hQ)
      (fun L a db db' hI hQ => (hiff L a db db' hI hQ).1) hI,
    along_atCommit htrans hscript (fun L a db db' hI hQ _ => hkeeps L a db db' hI hQ)
      (fun L a db db' hI hQ => (hiff L a db db' hI hQ).2) hI⟩

end AlongRuns

end Statements
