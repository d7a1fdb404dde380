import GnucashWeb.Lib.Statements

/-!
# A client on its own

What a script does when nobody else uses the tables: each of its transactions either fails at some
statement, or commits what it read and wrote in one go.  `exists_run` says that this is a run of the
system; `tracks_exec` is the rule to show that the tables that a script leaves have a property
exactly when each of its commits meets a condition.
-/

namespace Statements

open Sessions RowLocks Runs

variable {σ κ ε α β : Type}

/-! ## One transaction -/

/-- The result of a transaction and the tables that it leaves; nothing when a write violates a
constraint. -/
def Txn.alone (present : κ → Bool) : Txn σ κ ε α → σ → Option (Except ε (α × σ))
  | .done a, v => some (.ok (a, v))
  | .fail e, _ => some (.error e)
  | .query next, v => (next v).alone present v
  | .locking row next, v => (next (present row)).alone present v
  | .writing f next, v => (f v).bind (next.alone present)

section Alone

variable {present : κ → Bool} {v : σ}

open Txn

theorem alone_done {a : α} : (done a : Txn σ κ ε α).alone present v = some (.ok (a, v)) := rfl

theorem alone_fail {e : ε} : (fail e : Txn σ κ ε α).alone present v = some (.error e) := rfl

theorem alone_writing {f : σ → Option σ} {next : Txn σ κ ε α} :
    (writing f next).alone present v = (f v).bind (next.alone present) := rfl

theorem alone_bind {t : Txn σ κ ε α} {f : α → Txn σ κ ε β} :
    (t >>= f).alone present v = (t.alone present v).bind fun
      | .ok (a, v') => (f a).alone present v'
      | .error e => some (.error e) := by
  change (t.andThen f).alone present v = _
  induction t generalizing v with
  | done a => rfl
  | fail e => rfl
  | query next ih => exact ih v
  | locking row next ih => exact ih _
  | writing g next ih =>
    simp only [andThen, alone_writing]
    cases g v with
    | none => rfl
    | some v' => exact ih

@[simp] theorem alone_pure {a : α} :
    (pure a : Txn σ κ ε α).alone present v = some (.ok (a, v)) := rfl

@[simp] theorem alone_select {f : σ → α} :
    (select f : Txn σ κ ε α).alone present v = some (.ok (f v, v)) := rfl

@[simp] theorem alone_lock {row : κ} :
    (lock row : Txn σ κ ε Bool).alone present v = some (.ok (present row, v)) := rfl

@[simp] theorem alone_write {f : σ → σ} :
    (write f : Txn σ κ ε Unit).alone present v = some (.ok ((), f v)) := rfl

@[simp] theorem alone_tryWrite {f : σ → Option σ} :
    (tryWrite f : Txn σ κ ε Unit).alone present v = (f v).map fun v' => .ok ((), v') := by
  cases hf : f v with
  | none => simp [tryWrite, alone_writing, alone_done, hf]
  | some v' => simp [tryWrite, alone_writing, alone_done, hf]

/-- A transaction that succeeds has succeeded with its first part, and from there with the rest. -/
theorem alone_bind_eq_ok {t : Txn σ κ ε α} {f : α → Txn σ κ ε β} {b : β} {v'' : σ} :
    (t >>= f).alone present v = some (.ok (b, v'')) ↔
      ∃ a v', t.alone present v = some (.ok (a, v')) ∧
        (f a).alone present v' = some (.ok (b, v'')) := by
  rw [alone_bind, Option.bind_eq_some_iff]
  constructor
  · rintro ⟨r, hr, h⟩
    cases r with
    | error e => cases h
    | ok r => exact ⟨r.1, r.2, hr, h⟩
  · rintro ⟨a, v', hr, h⟩
    exact ⟨_, hr, h⟩

theorem alone_require_eq_ok {c : Prop} [Decidable c] {e : ε} {a : Unit} {v' : σ} :
    (require c e : Txn σ κ ε Unit).alone present v = some (.ok (a, v')) ↔ c ∧ v = v' := by
  unfold require
  split <;> simp [alone_done, alone_fail, *]

theorem alone_expect_eq_ok {o : Option β} {e : ε} {b : β} {v' : σ} :
    (expect o e : Txn σ κ ε β).alone present v = some (.ok (b, v')) ↔ o = some b ∧ v = v' := by
  cases o <;> simp [expect, alone_done, alone_fail]

theorem alone_check_eq_ok {x : Except ε β} {b : β} {v' : σ} :
    (check x : Txn σ κ ε β).alone present v = some (.ok (b, v')) ↔ x = .ok b ∧ v = v' := by
  cases x <;> simp [check, alone_done, alone_fail]

theorem alone_onlyIf {c : Prop} [Decidable c] {t : Txn σ κ ε Unit} :
    (onlyIf c t).alone present v = if c then t.alone present v else some (.ok ((), v)) := by
  unfold onlyIf
  split <;> rfl

end Alone

/-! ## A script -/

section Scripts

variable (present : σ → κ → Bool)

/-- The tables that a script leaves when some of its transactions fail; a process dies when the list
is at its end, or at a write that no failure is given for. -/
def Script.final : Script σ κ ε α → List (Option ε) → σ → σ
  | .stop, _, s => s
  | .exec _ _, [], s => s
  | .exec _ rest, some e :: failures, s => (rest (.error e)).final failures s
  | .exec t rest, none :: failures, s =>
    match t.alone (present s) s with
    | some (.ok (a, s')) => (rest (.ok a)).final failures s'
    | some (.error e) => (rest (.error e)).final failures s
    | none => s

/-- Every commit of a script meets a condition on its result and the tables before and after. -/
def Script.Each (C : α → σ → σ → Prop) : Script σ κ ε α → List (Option ε) → σ → Prop
  | .stop, _, _ => True
  | .exec _ _, [], _ => True
  | .exec _ rest, some e :: failures, s => (rest (.error e)).Each C failures s
  | .exec t rest, none :: failures, s =>
    match t.alone (present s) s with
    | some (.ok (a, s')) => C a s s' ∧ (rest (.ok a)).Each C failures s'
    | some (.error e) => (rest (.error e)).Each C failures s
    | none => True

instance decidableEach {C : α → σ → σ → Prop} [∀ a s s', Decidable (C a s s')] :
    ∀ (script : Script σ κ ε α) failures s, Decidable (script.Each present C failures s)
  | .stop, _, _ => isTrue trivial
  | .exec _ _, [], _ => isTrue trivial
  | .exec _ rest, some e :: failures, s => decidableEach (rest (.error e)) failures s
  | .exec t rest, none :: failures, s => by
    unfold Script.Each
    cases t.alone (present s) s with
    | none => exact isTrue trivial
    | some r =>
      cases r with
      | error e => exact decidableEach (rest (.error e)) failures s
      | ok r =>
        let _ : Decidable ((rest (.ok r.1)).Each present C failures r.2) :=
          decidableEach (rest (.ok r.1)) failures r.2
        exact inferInstanceAs (Decidable (C r.1 s r.2 ∧ _))

variable (R : σ → Prop) (C : α → σ → σ → Prop)

/-- The tables that a script leaves have a property exactly when they had it before and every commit
meets a condition. -/
def Script.Tracks (script : Script σ κ ε α) (s : σ) : Prop :=
  ∀ failures, R (script.final present failures s) ↔ R s ∧ script.Each present C failures s

variable {present} {R C} {s : σ}

theorem tracks_stop : (Script.stop : Script σ κ ε α).Tracks present R C s :=
  fun _ => (and_iff_left trivial).symm

/-- A transaction and what follows it. -/
theorem tracks_exec {t : Txn σ κ ε α} {rest : Except ε α → Script σ κ ε α}
    (hok : ∀ a s', t.alone (present s) s = some (.ok (a, s')) →
      (R s' ↔ R s ∧ C a s s') ∧ (rest (.ok a)).Tracks present R C s')
    (herror : ∀ e, (rest (.error e)).Tracks present R C s) :
    (Script.exec t rest).Tracks present R C s := by
  intro failures
  rcases failures with _ | ⟨_ | e, failures⟩
  · exact (and_iff_left trivial).symm
  · rw [Script.final, Script.Each]
    rcases ht : t.alone (present s) s with _ | e | ⟨a, s'⟩
    · exact (and_iff_left trivial).symm
    · exact herror e failures
    · obtain ⟨hstep, hrest⟩ := hok a s' ht
      dsimp only
      rw [hrest failures, hstep, and_assoc]
  · exact herror e failures

end Scripts

/-! ## A script is a run of the system -/

section Run

variable {ρ : Type} {k : ℕ}

def tablesAfter (s : σ) : Except ε (α × σ) → σ
  | .ok (_, s') => s'
  | .error _ => s

theorem release_eq_none {s : System σ κ ε α} (hfree : ∀ row, s.CanTake row k) (row : κ) :
    release s.holder k row = none := by
  rcases hfree row with h | h <;> simp [release, h]

variable [DecidableEq κ] (present : σ → κ → Bool) (script : ρ → Script σ κ ε α)

theorem canTake_take {s : System σ κ ε α} (hfree : ∀ row, s.CanTake row k) (row row' : κ) :
    (s.take row k).CanTake row' k := by
  by_cases h : row' = row
  · exact .inr (h ▸ Sys.take_holder_self)
  · have hsame : (s.take row k).holder row' = s.holder row' := Function.update_of_ne h ..
    exact (hfree row').imp hsame.trans hsame.trans

/-- A session that runs a transaction while nobody else holds a lock. -/
theorem exists_run_txn {t : Txn σ κ ε α} {rest : Except ε α → Script σ κ ε α} {w : σ → Option σ}
    {v : σ} {r : Except ε (α × σ)} {s : System σ κ ε α}
    (ht : t.alone (present s.db) v = some r) (hw : w s.db = some v)
    (hphase : s.phase k = some ⟨t, w, rest⟩) (hfree : ∀ row, s.CanTake row k) :
    ∃ steps s', run (next present script) steps s = some s' ∧
      s'.phase k = (rest (r.map Prod.fst)).begin ∧ s'.db = tablesAfter s.db r ∧
        ∀ row, s'.CanTake row k := by
  induction t generalizing w v s with
  | done a =>
    cases ht
    refine ⟨[.advance k], s.close k v (rest (.ok a)).begin, ?_, by simp [Except.map], rfl,
      fun row => .inl (release_eq_none hfree row)⟩
    simp [run, next, advanceNext, hphase, hw]
  | fail e =>
    cases ht
    refine ⟨[.advance k], s.close k s.db (rest (.error e)).begin, ?_, by simp [Except.map], rfl,
      fun row => .inl (release_eq_none hfree row)⟩
    simp [run, next, advanceNext, hphase]
  | query cont ih =>
    obtain ⟨steps, s', hrun, h⟩ := ih v (s := s.goto k (some ⟨cont v, w, rest⟩)) ht hw
      (by simp) hfree
    refine ⟨.advance k :: steps, s', run_cons_eq_some.2 ⟨_, ?_, hrun⟩, h⟩
    simp [next, advanceNext, hphase, hw]
  | locking row cont ih =>
    cases hpresent : present s.db row with
    | true =>
      rw [Txn.alone, hpresent] at ht
      obtain ⟨steps, s', hrun, h⟩ := ih true
        (s := (s.take row k).goto k (some ⟨cont true, w, rest⟩)) ht hw (by simp)
        (canTake_take hfree row)
      refine ⟨.advance k :: steps, s', run_cons_eq_some.2 ⟨_, ?_, hrun⟩, h⟩
      simp [next, advanceNext, hphase, lockNext, hpresent, hfree row]
    | false =>
      rw [Txn.alone, hpresent] at ht
      obtain ⟨steps, s', hrun, h⟩ := ih false (s := s.goto k (some ⟨cont false, w, rest⟩)) ht hw
        (by simp) hfree
      refine ⟨.advance k :: steps, s', run_cons_eq_some.2 ⟨_, ?_, hrun⟩, h⟩
      simp [next, advanceNext, hphase, lockNext, hpresent]
  | writing f cont ih =>
    rw [Txn.alone, Option.bind_eq_some_iff] at ht
    obtain ⟨v', hv', ht⟩ := ht
    obtain ⟨steps, s', hrun, h⟩ := ih (w := fun db => (w db).bind f)
      (s := s.goto k (some ⟨cont, fun db => (w db).bind f, rest⟩)) ht (by simp [hw, hv'])
      (by simp) hfree
    refine ⟨.advance k :: steps, s', run_cons_eq_some.2 ⟨_, ?_, hrun⟩, h⟩
    simp [next, advanceNext, hphase]

theorem exists_run_script {c : Script σ κ ε α} (failures : List (Option ε)) {s : System σ κ ε α}
    (hphase : s.phase k = c.begin) (hfree : ∀ row, s.CanTake row k) :
    ∃ steps s', run (next present script) steps s = some s' ∧
      s'.db = c.final present failures s.db := by
  induction failures generalizing c s with
  | nil =>
    refine ⟨[], s, rfl, ?_⟩
    cases c <;> rfl
  | cons failure failures ih =>
    cases c with
    | stop => exact ⟨[], s, rfl, rfl⟩
    | exec t rest =>
      cases failure with
      | some e =>
        obtain ⟨steps, s', hrun, hdb⟩ := ih (c := rest (.error e))
          (s := s.close k s.db (rest (.error e)).begin) (by simp)
          fun row => .inl (release_eq_none hfree row)
        refine ⟨.abort k e :: steps, s', run_cons_eq_some.2 ⟨_, ?_, hrun⟩, hdb⟩
        simp [next, abortNext, hphase, Script.begin]
      | none =>
        rw [Script.final]
        rcases ht : t.alone (present s.db) s.db with _ | r
        · exact ⟨[], s, rfl, rfl⟩
        · obtain ⟨steps, s₁, hrun, hphase', hdb, hfree'⟩ :=
            exists_run_txn present script ht rfl hphase hfree
          obtain ⟨steps', s₂, hrun', hdb'⟩ := ih hphase' hfree'
          refine ⟨steps ++ steps', s₂, ?_, ?_⟩
          · rw [run_append, hrun, Option.bind_some, hrun']
          · rw [hdb', hdb]
            cases r with
            | error e => rfl
            | ok r => rfl

/-- What a script leaves on its own is what a run of the system leaves. -/
theorem exists_run (req : ρ) (failures : List (Option ε)) (db : σ) :
    ∃ steps s', run (next present script) steps (start db) = some s' ∧
      s'.db = (script req).final present failures db := by
  obtain ⟨steps, s', hrun, hdb⟩ := exists_run_script present script failures (k := 0)
    (c := script req) (s := (start db : System σ κ ε α).goto 0 (script req).begin) (by simp)
    fun _ => .inl rfl
  exact ⟨.call 0 req :: steps, s', run_cons_eq_some.2 ⟨_, rfl, hrun⟩, hdb⟩

end Run

end Statements
