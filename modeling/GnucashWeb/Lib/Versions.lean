import Mathlib.Data.Option.Basic
import Mathlib.Logic.Function.Basic
import Mathlib.Tactic.Common

/-!
# Row versions under concurrent transactions

A table that several open transactions work on.  A row is the version committed last, with the
transaction that has inserted it and the update that a transaction holds on it, as long as these
are open.  A transaction sees what is committed and what it has written itself; a query without an
order may answer with any row that it sees.
-/

namespace Versions

variable {α : Type}

/-- A row with what the open transactions have done to it. -/
structure Version (α : Type) where
  row : α
  insertedBy : Option ℕ
  update : Option (ℕ × α)
deriving DecidableEq

def Version.Visible (k : ℕ) (v : Version α) : Prop := v.insertedBy = none ∨ v.insertedBy = some k

instance (k : ℕ) (v : Version α) : Decidable (v.Visible k) := inferInstanceAs (Decidable (_ ∨ _))

def Version.seenBy (k : ℕ) (v : Version α) : α :=
  match v.update with
  | some (j, w) => if j = k then w else v.row
  | none => v.row

def Version.commit (k : ℕ) (v : Version α) : Version α where
  row := v.seenBy k
  insertedBy := if v.insertedBy = some k then none else v.insertedBy
  update := v.update.filter (·.1 ≠ k)

def Version.rollback (k : ℕ) (v : Version α) : Option (Version α) :=
  if v.insertedBy = some k then none else some { v with update := v.update.filter (·.1 ≠ k) }

/-- Some identifier of a row that a transaction sees and that satisfies a condition, when there is
one, is an answer of a query for the first such row. -/
def Answers (table : ℕ → Option (Version α)) (bound k : ℕ) (p : α → Prop) : Option ℕ → Prop
  | some i => ∃ v ∈ table i, v.Visible k ∧ p (v.seenBy k)
  | none => ∀ i < bound, ∀ v ∈ table i, v.Visible k → ¬ p (v.seenBy k)

instance (table : ℕ → Option (Version α)) (bound k : ℕ) (p : α → Prop) [DecidablePred p] :
    ∀ found, Decidable (Answers table bound k p found)
  | some i => inferInstanceAs (Decidable (∃ v ∈ table i, v.Visible k ∧ p (v.seenBy k)))
  | none =>
    inferInstanceAs (Decidable (∀ i < bound, ∀ v ∈ table i, v.Visible k → ¬ p (v.seenBy k)))

/-! ## What a transaction's end does to the rows of the others -/

variable {v w : Version α} {k : ℕ}

theorem insertedBy_commit_of_none (h : v.insertedBy = none) : (v.commit k).insertedBy = none := by
  rw [Version.commit, h]
  rfl

theorem rollback_eq_some :
    v.rollback k = some w ↔
      v.insertedBy ≠ some k ∧ w = { v with update := v.update.filter (·.1 ≠ k) } := by
  unfold Version.rollback
  split <;> simp_all [eq_comm]

end Versions
