import Mathlib
import GnucashWeb.Lib.Transact

/-!
# The acquisition order of account name locks

The order on the nodes of the account tree and the checks that every claim of a name lock and every
lock of an account row passes.  They read and update the scope of the transaction: what it has
claimed, the rows it inserted and the rows it locked.  Texts are lists of UTF-16 code units, as the
program compares them.  The waived sites are left out.
-/

open Transact

namespace AccountLocks

/-! ## Positions -/

abbrev Text := List ℕ

def charUnits (c : Char) : Text :=
  if c.toNat < 0x10000 then [c.toNat]
  else [0xD800 + (c.toNat - 0x10000) / 0x400, 0xDC00 + (c.toNat - 0x10000) % 0x400]

def units (s : String) : Text := s.toList.flatMap charUnits

/-- The position of an account: its book root and the names on the path to it. -/
structure AccountLockOrder where
  bookRootGuid : Text
  path : List Text
deriving DecidableEq, Repr

/-- Compare two paths segment by segment, a prefix first. -/
def comparePaths : List Text → List Text → ℤ
  | a :: as, b :: bs => if a ≠ b then (if a < b then -1 else 1) else comparePaths as bs
  | as, bs => (as.length : ℤ) - bs.length

/-- Negative when the first position must be locked first. -/
def compareLockOrder (a b : AccountLockOrder) : ℤ :=
  if a.bookRootGuid ≠ b.bookRootGuid then (if a.bookRootGuid < b.bookRootGuid then -1 else 1)
  else comparePaths a.path b.path

def AccountLockOrder.rank (o : AccountLockOrder) : Text ×ₗ List Text := toLex (o.bookRootGuid, o.path)

theorem rank_injective {a b : AccountLockOrder} (h : a.rank = b.rank) : a = b := by
  cases a
  cases b
  cases toLex.injective h
  rfl

theorem comparePaths_neg_iff (as bs : List Text) : comparePaths as bs < 0 ↔ as < bs := by
  induction as generalizing bs with
  | nil =>
    cases bs with
    | nil => simp [comparePaths]
    | cons b bs =>
      simp only [comparePaths, List.length_nil, List.length_cons, List.nil_lt_cons, iff_true]
      omega
  | cons a as ih =>
    cases bs with
    | nil =>
      simp only [comparePaths, List.length_nil, List.length_cons, List.not_lt_nil, iff_false]
      omega
    | cons b bs =>
      rw [comparePaths, List.cons_lt_cons_iff]
      by_cases hab : a = b
      · simp [hab, ih]
      · by_cases hlt : a < b
        · simp [hab, hlt]
        · simp [hab, hlt]

theorem compareLockOrder_neg_iff (a b : AccountLockOrder) :
    compareLockOrder a b < 0 ↔ a.rank < b.rank := by
  rw [compareLockOrder, AccountLockOrder.rank, AccountLockOrder.rank, Prod.Lex.toLex_lt_toLex]
  by_cases hroot : a.bookRootGuid = b.bookRootGuid
  · simp [hroot, comparePaths_neg_iff]
  · by_cases hlt : a.bookRootGuid < b.bookRootGuid
    · simp [hroot, hlt]
    · simp [hroot, hlt]

/-! ## The scope of a transaction -/

/-- A recorded claim; a sole claim has no position.  The id tells claims of one key apart. -/
structure HeldLock where
  id : ℕ
  key : Text
  order : Option AccountLockOrder
deriving DecidableEq, Repr

structure Scope where
  held : List HeldLock
  /-- The account rows that the transaction inserted. -/
  inserted : List Text
  /-- The account rows that it locked before any name. -/
  rowLocked : List Text
deriving DecidableEq, Repr

/-- `newScope`. -/
def newScope : Scope := ⟨[], [], []⟩

inductive LockError
  | pathMismatch (order : AccountLockOrder) (name : Text)
  | besideSole (heldKey key : Text)
  | outOfOrder (order held : AccountLockOrder)
  | soleBeside (key : Text) (held : List Text)
  | rowLockUnderName (guid : Text) (held : List Text)
  | rowWriteUnderName (operation : String) (target : Option (List Text)) (held : List Text)
deriving DecidableEq, Repr

def accountNameLockKey (parentGuid name : Text) : Text :=
  units "account:" ++ parentGuid ++ units ":" ++ name

def checkAgainst (key : Text) (order : AccountLockOrder) (h : HeldLock) : Except LockError Unit :=
  match h.order with
  | none => .error (.besideSole h.key key)
  | some held =>
    if compareLockOrder order held < 0 then .error (.outOfOrder order held) else .ok ()

namespace Scope

variable (scope : Scope)

def Claimed (key : Text) : Prop := ∃ h ∈ scope.held, h.key = key

instance (key : Text) : Decidable (scope.Claimed key) :=
  inferInstanceAs (Decidable (∃ h ∈ scope.held, h.key = key))

/-- `acquireAccountNameLock`, up to the acquisition: the claim to record. -/
def acquireAccountNameLock (id : ℕ) (parentGuid name : Text) (order : AccountLockOrder) :
    Except LockError HeldLock := do
  if order.path.getLast? ≠ some name then throw (.pathMismatch order name)
  else
    let key := accountNameLockKey parentGuid name
    if scope.Claimed key then return ⟨id, key, some order⟩
    else do
      scope.held.forM (checkAgainst key order)
      return ⟨id, key, some order⟩

/-- `acquireSoleAccountNameLock`, up to the acquisition. -/
def acquireSoleAccountNameLock (id : ℕ) (parentGuid name : Text) : Except LockError HeldLock :=
  let key := accountNameLockKey parentGuid name
  if scope.Claimed key then .ok ⟨id, key, none⟩
  else if scope.held ≠ [] then .error (.soleBeside key (scope.held.map HeldLock.key))
  else .ok ⟨id, key, none⟩

/-- `noteAccountRowLocked`. -/
def noteAccountRowLocked (guid : Text) : Except LockError Scope :=
  if scope.held ≠ [] then .error (.rowLockUnderName guid (scope.held.map HeldLock.key))
  else .ok { scope with rowLocked := scope.rowLocked ++ [guid] }

/-- `noteAccountRowInserted`. -/
def noteAccountRowInserted (guid : Text) : Scope :=
  { scope with inserted := scope.inserted ++ [guid] }

end Scope

/-- The shapes of the `where` of an update that can be resolved to guids, and all others. -/
inductive Where
  | guid (guid : Text)
  | guidIn (guids : List Text)
  | other
deriving DecidableEq, Repr

instance : LawfulBEq Text := inferInstance

/-- `guidsTargetedBy`. -/
def guidsTargetedBy : Where → Option (List Text)
  | .guid g => some [g]
  | .guidIn gs => some gs
  | .other => none

/-- `assertAccountRowWriteAllowed`. -/
def Scope.assertAccountRowWriteAllowed (scope : Scope) (operation : String) (target : Where) :
    Except LockError Unit :=
  if scope.held = [] then .ok ()
  else
    match guidsTargetedBy target with
    | some guids =>
      if ∀ g ∈ guids, g ∈ scope.inserted ∨ g ∈ scope.rowLocked then .ok ()
      else .error (.rowWriteUnderName operation (some guids) (scope.held.map HeldLock.key))
    | none => .error (.rowWriteUnderName operation none (scope.held.map HeldLock.key))

/-! ## What the checks accept -/

/-- Both claims have positions, and the first is not above the second. -/
def HeldLock.Before (h e : HeldLock) : Prop :=
  ∃ o ∈ h.order, ∃ o' ∈ e.order, o.rank ≤ o'.rank

section Accepted

variable {scope : Scope} {h : HeldLock} {id : ℕ} {parentGuid name : Text} {order : AccountLockOrder}

theorem checkAgainst_eq_ok {key : Text} {u : Unit} (hcheck : checkAgainst key order h = .ok u)
    (e : HeldLock) (he : e.order = some order) : h.Before e := by
  unfold checkAgainst at hcheck
  split at hcheck
  · cases hcheck
  · next held hheld =>
      split at hcheck
      · cases hcheck
      · next hle =>
          rw [compareLockOrder_neg_iff] at hle
          exact ⟨held, hheld, order, he, not_lt.1 hle⟩

/-- An accepted claim is of a key claimed before, or stands after all the claims before it. -/
def Accepts (scope : Scope) (h : HeldLock) : Prop :=
  scope.Claimed h.key ∨ ∀ e ∈ scope.held, e.Before h

theorem accepts_acquireAccountNameLock
    (hacquire : scope.acquireAccountNameLock id parentGuid name order = .ok h) :
    h = ⟨id, accountNameLockKey parentGuid name, some order⟩ ∧ Accepts scope h := by
  unfold Scope.acquireAccountNameLock at hacquire
  split at hacquire
  · cases hacquire
  dsimp only at hacquire
  split at hacquire
  · next hclaimed =>
      cases hacquire
      exact ⟨rfl, Or.inl hclaimed⟩
  · obtain ⟨_, hchecks, hresult⟩ := except_bind_eq_ok.1 hacquire
    cases hresult
    refine ⟨rfl, Or.inr ?_⟩
    intro e he
    exact checkAgainst_eq_ok (check_of_forM_eq_ok hchecks e he) _ rfl

theorem accepts_acquireSoleAccountNameLock
    (hacquire : scope.acquireSoleAccountNameLock id parentGuid name = .ok h) :
    h = ⟨id, accountNameLockKey parentGuid name, none⟩ ∧ Accepts scope h := by
  unfold Scope.acquireSoleAccountNameLock at hacquire
  dsimp only at hacquire
  split at hacquire
  · next hclaimed =>
      cases hacquire
      exact ⟨rfl, Or.inl hclaimed⟩
  · split at hacquire
    · cases hacquire
    · next hnil =>
        cases hacquire
        rw [not_not] at hnil
        exact ⟨rfl, Or.inr (by simp [hnil])⟩

theorem noteAccountRowLocked_eq_ok {guid : Text} {scope' : Scope}
    (hnote : scope.noteAccountRowLocked guid = .ok scope') :
    scope.held = [] ∧ scope' = { scope with rowLocked := scope.rowLocked ++ [guid] } := by
  unfold Scope.noteAccountRowLocked at hnote
  split at hnote
  · cases hnote
  · next hnil =>
      cases hnote
      exact ⟨not_not.1 hnil, rfl⟩

theorem assertAccountRowWriteAllowed_eq_ok {operation : String} {target : Where} {u : Unit}
    (hassert : scope.assertAccountRowWriteAllowed operation target = .ok u) :
    scope.held = [] ∨ ∃ guids, guidsTargetedBy target = some guids ∧
      ∀ g ∈ guids, g ∈ scope.inserted ∨ g ∈ scope.rowLocked := by
  unfold Scope.assertAccountRowWriteAllowed at hassert
  split at hassert
  · next hnil => exact Or.inl hnil
  · split at hassert
    · next guids htarget =>
        split at hassert
        · next hall => exact Or.inr ⟨guids, htarget, hall⟩
        · cases hassert
    · cases hassert

end Accepted

end AccountLocks
