import GnucashWeb.Lib.Forest
import Mathlib.Data.List.Infix
import Mathlib.Data.List.Nodup

/-!
# The order of imported accounts

`topologicalSortAccounts` of the XML importer, which creates the accounts of a file parents first.
The account of an id is the last one in the file that has it.  The fuel of `visit` bounds the depth
of its recursion: `none` is a recursion that goes deeper.

The recursion marks an account as visited after its parent, so that it ends exactly on the files
without a cycle of parents (`topologicalSortAccounts_iff`).
-/

open Relation (TransGen)

namespace XmlImport

/-! ## The sort -/

/-- What the sort and the creation of accounts read of `act:` elements. -/
structure GnuCashAccount where
  id : String
  name : String
  type : String
  parentId : Option String
deriving DecidableEq, Repr

/-- `accountById.get`: of two accounts with one id the later. -/
def accountById (accounts : List GnuCashAccount) (id : String) : Option GnuCashAccount :=
  accounts.reverse.find? fun a => a.id = id

/-- The parent that is visited before an account: an empty id and one that is not in the file are
none. -/
def parentToVisit (accounts : List GnuCashAccount) (account : GnuCashAccount) : Option String :=
  account.parentId.filter fun p => p ≠ "" ∧ (accountById accounts p).isSome

/-- The accounts that are sorted so far, and the ids of them. -/
structure SortState where
  sorted : List GnuCashAccount
  visited : List String
deriving DecidableEq, Repr

/-- Visit an id, with a recursion at most so deep. -/
def visit (accounts : List GnuCashAccount) : ℕ → String → SortState → Option SortState
  | 0, _, _ => none
  | depth + 1, id, s =>
    if id ∈ s.visited then some s
    else
      match accountById accounts id with
      | none => some s
      | some account =>
        let parentFirst :=
          match parentToVisit accounts account with
          | some parentId => visit accounts depth parentId s
          | none => some s
        parentFirst.map fun s => ⟨s.sorted ++ [account], s.visited ++ [id]⟩

def visitAll (accounts : List GnuCashAccount) (depth : ℕ) :
    List String → SortState → Option SortState
  | [], s => some s
  | id :: rest, s => do
    let s ← visit accounts depth id s
    visitAll accounts depth rest s

def topologicalSortAccounts (accounts : List GnuCashAccount) (depth : ℕ) :
    Option (List GnuCashAccount) :=
  (visitAll accounts depth (accounts.map GnuCashAccount.id) ⟨[], []⟩).map SortState.sorted

variable {accounts : List GnuCashAccount} {depth : ℕ} {id : String} {s s' : SortState}

variable {account : GnuCashAccount}

theorem accountById_id (h : accountById accounts id = some account) :
    account.id = id := by
  have := List.find?_some h
  simpa using this

theorem isSome_accountById : (accountById accounts id).isSome ↔
    id ∈ accounts.map GnuCashAccount.id := by
  simp [accountById]

def parentOf (accounts : List GnuCashAccount) (id : String) : Option String :=
  (accountById accounts id).bind (parentToVisit accounts)

theorem isSome_of_parentToVisit {p : String}
    (h : parentToVisit accounts account = some p) : (accountById accounts p).isSome := by
  obtain ⟨-, hp⟩ := Option.filter_eq_some_iff.1 h
  exact (of_decide_eq_true hp).2

theorem visit_cases (h : visit accounts (depth + 1) id s = some s') :
    (s' = s ∧ (id ∈ s.visited ∨ accountById accounts id = none)) ∨
      ∃ account s₁, id ∉ s.visited ∧ accountById accounts id = some account ∧
        (∀ p, parentToVisit accounts account = some p → visit accounts depth p s = some s₁) ∧
        (parentToVisit accounts account = none → s₁ = s) ∧
        s' = ⟨s₁.sorted ++ [account], s₁.visited ++ [id]⟩ := by
  unfold visit at h
  by_cases hmem : id ∈ s.visited
  · rw [if_pos hmem] at h
    exact .inl ⟨(Option.some_inj.1 h).symm, .inl hmem⟩
  rw [if_neg hmem] at h
  cases hid : accountById accounts id with
  | none =>
    rw [hid] at h
    exact .inl ⟨(Option.some_inj.1 h).symm, .inr rfl⟩
  | some account =>
    rw [hid] at h
    obtain ⟨s₁, hs₁, rfl⟩ := Option.map_eq_some_iff.1 h
    refine .inr ⟨account, s₁, hmem, rfl, fun p hp => ?_, fun hp => ?_, rfl⟩
    · rwa [hp] at hs₁
    · rw [hp] at hs₁
      exact (Option.some_inj.1 hs₁).symm

theorem parentOf_eq (h : accountById accounts id = some account) :
    parentOf accounts id = parentToVisit accounts account := by
  rw [parentOf, h, Option.bind_some]

def OnCycle (accounts : List GnuCashAccount) (id : String) : Prop :=
  TransGen (Forest.IsParent (parentOf accounts)) id id

theorem visit_offCycle (h : visit accounts depth id s = some s')
    (hs : ∀ a ∈ s.visited, ¬OnCycle accounts a) :
    ¬OnCycle accounts id ∧ ∀ a ∈ s'.visited, ¬OnCycle accounts a := by
  induction depth generalizing id s s' with
  | zero => exact absurd h nofun
  | succ depth ih =>
    obtain ⟨rfl, hmem | hnone⟩ | ⟨account, s₁, -, hid, hvisit, hroot, rfl⟩ := visit_cases h
    · exact ⟨hs id hmem, hs⟩
    · refine ⟨fun hcycle => ?_, hs⟩
      obtain ⟨b, hb, -⟩ := TransGen.head'_iff.1 hcycle
      rw [Forest.IsParent, parentOf, hnone] at hb
      exact absurd hb nofun
    · have hoff : ¬OnCycle accounts id ∧ ∀ a ∈ s₁.visited, ¬OnCycle accounts a := by
        cases hp : parentToVisit accounts account with
        | none =>
          rw [hroot hp]
          refine ⟨fun hcycle => ?_, hs⟩
          obtain ⟨b, hb, -⟩ := TransGen.head'_iff.1 hcycle
          rw [Forest.IsParent, parentOf_eq hid, hp] at hb
          exact absurd hb nofun
        | some p =>
          obtain ⟨hparent, hrest⟩ := ih (hvisit p hp) hs
          refine ⟨fun hcycle => hparent ?_, hrest⟩
          exact Forest.onCycle_parent hcycle ((parentOf_eq hid).trans hp)
      refine ⟨hoff.1, fun a ha => ?_⟩
      rcases List.mem_append.1 ha with ha | ha
      · exact hoff.2 a ha
      · rw [List.mem_singleton.1 ha]
        exact hoff.1

theorem visitAll_offCycle {ids : List String} (h : visitAll accounts depth ids s = some s')
    (hs : ∀ a ∈ s.visited, ¬OnCycle accounts a) : ∀ a ∈ ids, ¬OnCycle accounts a := by
  induction ids generalizing s with
  | nil => exact nofun
  | cons id rest ih =>
    obtain ⟨s₁, hvisit, hrest⟩ := Option.bind_eq_some_iff.1 h
    obtain ⟨hid, hs₁⟩ := visit_offCycle hvisit hs
    intro a ha
    rcases List.mem_cons.1 ha with rfl | ha
    · exact hid
    · exact ih hrest hs₁ a ha

theorem acyclic_of_topologicalSortAccounts {sorted : List GnuCashAccount}
    (h : topologicalSortAccounts accounts depth = some sorted) :
    Forest.Acyclic (parentOf accounts) := by
  obtain ⟨s, hs, -⟩ := Option.map_eq_some_iff.1 h
  intro a hcycle
  refine visitAll_offCycle hs nofun a ?_ hcycle
  obtain ⟨b, hb, -⟩ := TransGen.head'_iff.1 hcycle
  cases ha : accountById accounts a with
  | none =>
    rw [Forest.IsParent, parentOf, ha] at hb
    exact absurd hb nofun
  | some account => exact isSome_accountById.1 (by rw [ha]; rfl)

/-! ## Without a cycle -/

/-- What the visits keep: the accounts of the visited ids, each once and after its parent. -/
structure SortState.Sorted (accounts : List GnuCashAccount) (s : SortState) : Prop where
  ids : s.sorted.map GnuCashAccount.id = s.visited
  nodup : s.visited.Nodup
  account : ∀ a ∈ s.sorted, accountById accounts a.id = some a
  parentsFirst : ∀ before a, before ++ [a] <+: s.sorted →
    ∀ p, parentToVisit accounts a = some p → p ∈ before.map GnuCashAccount.id

theorem SortState.Sorted.concat (hs : s.Sorted accounts)
    (hid : accountById accounts id = some account) (hnew : id ∉ s.visited)
    (hparent : ∀ p, parentToVisit accounts account = some p → p ∈ s.visited) :
    SortState.Sorted accounts ⟨s.sorted ++ [account], s.visited ++ [id]⟩ where
  ids := by rw [List.map_append, hs.ids, List.map_singleton, accountById_id hid]
  nodup := by
    have := hs.nodup.concat hnew
    rwa [List.concat_eq_append] at this
  account a ha := by
    rcases List.mem_append.1 ha with ha | ha
    · exact hs.account a ha
    · rw [List.mem_singleton.1 ha, accountById_id hid, hid]
  parentsFirst before a hprefix p hp := by
    rcases List.prefix_concat_iff.1 hprefix with heq | hprefix
    · obtain ⟨rfl, ha⟩ := List.append_inj' heq rfl
      rw [List.singleton_inj.1 ha] at hp
      rw [hs.ids]
      exact hparent p hp
    · exact hs.parentsFirst before a hprefix p hp

theorem visit_sorted (hf : Forest.Acyclic (parentOf accounts))
    (h : visit accounts depth id s = some s') (hs : s.Sorted accounts) :
    s'.Sorted accounts ∧ s.visited ⊆ s'.visited ∧
      ((accountById accounts id).isSome → id ∈ s'.visited) ∧
      ∀ a ∈ s'.visited, a ∈ s.visited ∨
        Relation.ReflTransGen (Forest.IsParent (parentOf accounts)) id a := by
  induction depth generalizing id s s' with
  | zero => exact absurd h nofun
  | succ depth ih =>
    obtain ⟨rfl, hdone⟩ | ⟨account, s₁, hnew, hid, hvisit, hroot, rfl⟩ := visit_cases h
    · refine ⟨hs, fun _ ha => ha, fun hsome => ?_, fun _ ha => .inl ha⟩
      rcases hdone with hmem | hnone
      · exact hmem
      · rw [hnone] at hsome
        exact absurd hsome nofun
    · cases hp : parentToVisit accounts account with
      | none =>
        obtain rfl := hroot hp
        refine ⟨hs.concat hid hnew ?_, List.subset_append_left .., fun _ => ?_, fun a ha => ?_⟩
        · rw [hp]
          exact nofun
        · exact List.mem_append_right _ (List.mem_singleton_self id)
        · exact (List.mem_append.1 ha).imp_right fun ha => by rw [List.mem_singleton.1 ha]
      | some p =>
        have hstep : Forest.IsParent (parentOf accounts) id p := (parentOf_eq hid).trans hp
        obtain ⟨hs₁, hsub, hparent, hwhere⟩ := ih (hvisit p hp) hs
        have hnew₁ : id ∉ s₁.visited := fun hmem =>
          (hwhere id hmem).elim hnew fun hup => hf id (TransGen.head' hstep hup)
        refine ⟨hs₁.concat hid hnew₁ fun q hq => ?_,
          fun _ ha => List.mem_append_left _ (hsub ha), fun _ => ?_, fun a ha => ?_⟩
        · rw [hp] at hq
          rw [← Option.some_inj.1 hq]
          exact hparent (isSome_of_parentToVisit hp)
        · exact List.mem_append_right _ (List.mem_singleton_self id)
        · rcases List.mem_append.1 ha with ha | ha
          · exact (hwhere a ha).imp_right fun hup => hup.head hstep
          · rw [List.mem_singleton.1 ha]
            exact .inr .refl

theorem visitAll_sorted (hf : Forest.Acyclic (parentOf accounts)) {ids : List String}
    (h : visitAll accounts depth ids s = some s') (hs : s.Sorted accounts) :
    s'.Sorted accounts ∧ s.visited ⊆ s'.visited ∧
      ∀ id ∈ ids, (accountById accounts id).isSome → id ∈ s'.visited := by
  induction ids generalizing s with
  | nil =>
    obtain rfl := Option.some_inj.1 h
    exact ⟨hs, fun _ ha => ha, nofun⟩
  | cons id rest ih =>
    obtain ⟨s₁, hvisit, hrest⟩ := Option.bind_eq_some_iff.1 h
    obtain ⟨hs₁, hsub, hid, -⟩ := visit_sorted hf hvisit hs
    obtain ⟨hs', hsub', hids⟩ := ih hrest hs₁
    refine ⟨hs', fun _ ha => hsub' (hsub ha), fun a ha hsome => ?_⟩
    rcases List.mem_cons.1 ha with rfl | ha
    · exact hsub' (hid hsome)
    · exact hids a ha hsome

theorem visit_succ_ends (hparent : ∀ p, parentOf accounts id = some p →
    ∃ s₁, visit accounts depth p s = some s₁) : ∃ s', visit accounts (depth + 1) id s = some s' := by
  unfold visit
  split
  · exact ⟨s, rfl⟩
  · cases hid : accountById accounts id with
    | none => exact ⟨s, rfl⟩
    | some account =>
      cases hp : parentToVisit accounts account with
      | none => exact ⟨⟨s.sorted ++ [account], s.visited ++ [id]⟩, by simp [hp]⟩
      | some p =>
        obtain ⟨s₁, hs₁⟩ := hparent p ((parentOf_eq hid).trans hp)
        exact ⟨⟨s₁.sorted ++ [account], s₁.visited ++ [id]⟩, by simp [hp, hs₁]⟩

theorem visit_ends {root : String} (h : Forest.rootWithin (parentOf accounts) depth id = some root) :
    ∃ s', visit accounts (depth + 1) id s = some s' := by
  induction depth generalizing id with
  | zero =>
    refine visit_succ_ends fun p hp => ?_
    simp [Forest.rootWithin, hp] at h
  | succ depth ih =>
    refine visit_succ_ends fun p hp => ih ?_
    rwa [Forest.rootWithin_succ hp] at h

theorem visitAll_ends (h : ∀ id, ∃ root, Forest.rootWithin (parentOf accounts) depth id = some root)
    (ids : List String) (s : SortState) : ∃ s', visitAll accounts (depth + 1) ids s = some s' := by
  induction ids generalizing s with
  | nil => exact ⟨s, rfl⟩
  | cons id rest ih =>
    obtain ⟨root, hroot⟩ := h id
    obtain ⟨s₁, hs₁⟩ : ∃ s₁, visit accounts (depth + 1) id s = some s₁ := visit_ends hroot
    obtain ⟨s', hs'⟩ := ih s₁
    exact ⟨s', Option.bind_eq_some_iff.2 ⟨s₁, hs₁, hs'⟩⟩

/-- The recursion of a sort is at most one deeper than there are ids in a file without a cycle. -/
theorem topologicalSortAccounts_ends (hf : Forest.Acyclic (parentOf accounts)) :
    ∃ depth sorted, topologicalSortAccounts accounts depth = some sorted := by
  have hnodes (a b : String) (hab : parentOf accounts a = some b) :
      b ∈ (accounts.map GnuCashAccount.id).toFinset := by
    obtain ⟨account, -, hb⟩ := Option.bind_eq_some_iff.1 hab
    exact List.mem_toFinset.2 (isSome_accountById.1 (isSome_of_parentToVisit hb))
  obtain ⟨s, hs⟩ := visitAll_ends (hf.rootWithin_card _ hnodes)
    (accounts.map GnuCashAccount.id) ⟨[], []⟩
  exact ⟨_, s.sorted, Option.map_eq_some_iff.2 ⟨s, hs, rfl⟩⟩

/-! ## The order -/

/-- Every id of the file once, and every account after its parent when the file has the parent and
the parent is on no cycle. -/
structure IsOrder (accounts sorted : List GnuCashAccount) : Prop where
  nodup : (sorted.map GnuCashAccount.id).Nodup
  ids : ∀ id, id ∈ sorted.map GnuCashAccount.id ↔ id ∈ accounts.map GnuCashAccount.id
  account : ∀ a ∈ sorted, a ∈ accounts
  parentsFirst : ∀ before a, before ++ [a] <+: sorted → ∀ p, a.parentId = some p → p ≠ "" →
    p ∈ accounts.map GnuCashAccount.id → ¬OnCycle accounts p →
      p ∈ before.map GnuCashAccount.id

theorem mem_of_accountById (h : accountById accounts id = some account) :
    account ∈ accounts :=
  List.mem_reverse.1 (List.mem_of_find?_eq_some h)

theorem isOrder_topologicalSortAccounts {sorted : List GnuCashAccount}
    (h : topologicalSortAccounts accounts depth = some sorted) : IsOrder accounts sorted := by
  have hf := acyclic_of_topologicalSortAccounts h
  obtain ⟨s, hs, rfl⟩ := Option.map_eq_some_iff.1 h
  have hempty : SortState.Sorted accounts ⟨[], []⟩ :=
    ⟨rfl, List.nodup_nil, nofun, fun before a h => by simp at h⟩
  obtain ⟨hsorted, -, hids⟩ := visitAll_sorted hf hs hempty
  refine ⟨hsorted.ids ▸ hsorted.nodup, fun id => ⟨fun hid => ?_, fun hid => ?_⟩, fun a ha => ?_,
    fun before a hprefix p hp hne hmem _ => hsorted.parentsFirst before a hprefix p ?_⟩
  · obtain ⟨a, ha, rfl⟩ := List.mem_map.1 hid
    exact List.mem_map_of_mem (mem_of_accountById (hsorted.account a ha))
  · rw [hsorted.ids]
    exact hids id hid (isSome_accountById.2 hid)
  · exact mem_of_accountById (hsorted.account a ha)
  · exact Option.filter_eq_some_iff.2 ⟨hp, decide_eq_true ⟨hne, isSome_accountById.2 hmem⟩⟩

/-- The sort ends with an order of the accounts exactly when no account of the file is above itself
along parents. -/
theorem topologicalSortAccounts_iff (accounts : List GnuCashAccount) :
    (∃ depth sorted, topologicalSortAccounts accounts depth = some sorted ∧
      IsOrder accounts sorted) ↔ Forest.Acyclic (parentOf accounts) := by
  constructor
  · rintro ⟨depth, sorted, hsorted, -⟩
    exact acyclic_of_topologicalSortAccounts hsorted
  · intro hf
    obtain ⟨depth, sorted, hsorted⟩ := topologicalSortAccounts_ends hf
    exact ⟨depth, sorted, hsorted, isOrder_topologicalSortAccounts hsorted⟩

def mutualParents : List GnuCashAccount :=
  [⟨"a1", "Cash", "BANK", some "a2"⟩, ⟨"a2", "Bank", "BANK", some "a1"⟩]

/-- However deep the recursion may go, the sort of two accounts that are each other's parent does
not end. -/
theorem mutualParents_diverges :
    ¬∃ depth sorted, topologicalSortAccounts mutualParents depth = some sorted ∧
      IsOrder mutualParents sorted := by
  rintro ⟨depth, sorted, hsorted, -⟩
  have hf := acyclic_of_topologicalSortAccounts hsorted
  have hup : Forest.IsParent (parentOf mutualParents) "a1" "a2" := by
    unfold Forest.IsParent
    decide
  have hback : Forest.IsParent (parentOf mutualParents) "a2" "a1" := by
    unfold Forest.IsParent
    decide
  exact hf "a1" ((TransGen.single hup).tail hback)

end XmlImport
