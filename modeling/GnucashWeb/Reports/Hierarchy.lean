import GnucashWeb.Lib.Forest
import GnucashWeb.Lib.ListSums
import Mathlib.Algebra.BigOperators.Ring.List
import Mathlib.Data.List.Perm.Basic

/-!
# The hierarchy of a report

`buildHierarchy` makes a tree of lines of the accounts of a section, and hangs up at the top what has
its parent in no line.  For every forest of accounts and every filter, the lines at the top add up to
the balances of the accounts, and each account has exactly one line (`hierarchy_exact`).
-/

namespace Reports

open Forest ListSums

abbrev Guid := ℕ

/-! ## Lines -/

structure AccountWithBalance where
  guid : Guid
  parentGuid : Option Guid
  balance : ℚ
  previousBalance : Option ℚ
deriving DecidableEq

inductive LineItem
  | mk (guid : Guid) (amount : ℚ) (previousAmount : Option ℚ) (children : List LineItem)
      (depth : ℕ)

namespace LineItem

def amount : LineItem → ℚ
  | mk _ amount _ _ _ => amount

def previousAmount : LineItem → Option ℚ
  | mk _ _ previousAmount _ _ => previousAmount

mutual

/-- The accounts of a line and of those below it. -/
def guids : LineItem → List Guid
  | mk guid _ _ children _ => guid :: guidsOf children

def guidsOf : List LineItem → List Guid
  | [] => []
  | item :: rest => item.guids ++ guidsOf rest

end

end LineItem

/-- The recursion ends with the accounts, each of which has one parent. -/
def buildHierarchyLevel (accounts : List AccountWithBalance) :
    ℕ → Option Guid → ℕ → List LineItem
  | 0, _, _ => []
  | fuel + 1, parentGuid, depth =>
    (accounts.filter fun a => a.parentGuid = parentGuid).map fun account =>
      let childItems := buildHierarchyLevel accounts fuel (some account.guid) (depth + 1)
      .mk account.guid (account.balance + (childItems.map LineItem.amount).sum)
        (account.previousBalance.map fun previous =>
          previous + (childItems.map fun item => item.previousAmount.getD 0).sum)
        childItems depth

/-- An account whose parent is neither the root nor in the list is hung up under the root. -/
def attach (accounts : List AccountWithBalance) (parentGuid : Option Guid)
    (account : AccountWithBalance) : AccountWithBalance :=
  if account.parentGuid = parentGuid ∨
      ∃ g ∈ account.parentGuid, g ∈ accounts.map AccountWithBalance.guid then account
  else { account with parentGuid }

def buildHierarchy (accounts : List AccountWithBalance) (parentGuid : Option Guid) :
    List LineItem :=
  buildHierarchyLevel (accounts.map (attach accounts parentGuid)) (accounts.length + 1)
    parentGuid 0

/-- The weights of the accounts in the lines of a level and below. -/
def levelSum (accounts : List AccountWithBalance) (w : AccountWithBalance → ℚ) :
    ℕ → Option Guid → ℚ
  | 0, _ => 0
  | fuel + 1, parentGuid =>
    ((accounts.filter fun a => a.parentGuid = parentGuid).map fun a =>
      w a + levelSum accounts w fuel (some a.guid)).sum

variable {accounts : List AccountWithBalance}

theorem sum_amounts (fuel : ℕ) (parentGuid : Option Guid) (depth : ℕ) :
    ((buildHierarchyLevel accounts fuel parentGuid depth).map LineItem.amount).sum =
      levelSum accounts AccountWithBalance.balance fuel parentGuid := by
  induction fuel generalizing parentGuid depth with
  | zero => rfl
  | succ fuel ih =>
    rw [buildHierarchyLevel, levelSum, List.map_map]
    congr 1
    refine List.map_congr_left fun a _ => ?_
    rw [← ih (some a.guid) (depth + 1)]
    rfl

theorem count_guidsOf_map {α : Type} (g : Guid) (f : α → LineItem) (xs : List α) :
    (((LineItem.guidsOf (xs.map f)).count g : ℕ) : ℚ) =
      (xs.map fun x => (((f x).guids.count g : ℕ) : ℚ)).sum := by
  induction xs with
  | nil => simp [LineItem.guidsOf]
  | cons x xs ih =>
    rw [List.map_cons, LineItem.guidsOf, List.count_append, Nat.cast_add, ih, List.map_cons,
      List.sum_cons]

theorem count_guids (g : Guid) (fuel : ℕ) (parentGuid : Option Guid) (depth : ℕ) :
    (((LineItem.guidsOf (buildHierarchyLevel accounts fuel parentGuid depth)).count g : ℕ) : ℚ) =
      levelSum accounts (fun a => if a.guid = g then 1 else 0) fuel parentGuid := by
  induction fuel generalizing parentGuid depth with
  | zero => simp [buildHierarchyLevel, LineItem.guidsOf, levelSum]
  | succ fuel ih =>
    rw [buildHierarchyLevel, levelSum, count_guidsOf_map]
    congr 1
    refine List.map_congr_left fun a _ => ?_
    rw [← ih (some a.guid) (depth + 1), LineItem.guids, List.count_cons]
    by_cases hg : a.guid = g
    · simp [hg]
      ring
    · simp [hg]

/-! ## Ways to the top -/

def above (accounts : List AccountWithBalance) (a : AccountWithBalance) :
    Option AccountWithBalance :=
  a.parentGuid.bind fun g => accounts.find? fun b => b.guid = g

/-- How often a guid stands above an account, in so many steps. -/
def times (accounts : List AccountWithBalance) : ℕ → Option Guid → AccountWithBalance → ℚ
  | 0, _, _ => 0
  | n + 1, p, a => (if a.parentGuid = p then 1 else 0) +
      match above accounts a with
      | none => 0
      | some b => times accounts n p b

variable {a : AccountWithBalance}

theorem mem_of_above {b : AccountWithBalance} (h : above accounts a = some b) :
    b ∈ accounts ∧ a.parentGuid = some b.guid := by
  obtain ⟨g, hg, hb⟩ := Option.bind_eq_some_iff.1 h
  have hguid : b.guid = g := by simpa using List.find?_some hb
  exact ⟨List.mem_of_find?_eq_some hb, by rw [hg, hguid]⟩

theorem above_eq (hkeys : (accounts.map AccountWithBalance.guid).Nodup)
    {b : AccountWithBalance} (hb : b ∈ accounts) (h : a.parentGuid = some b.guid) :
    above accounts a = some b := by
  rw [above, h, Option.bind_some]
  cases hfind : accounts.find? fun x => x.guid = b.guid with
  | none =>
    have hnone := List.find?_eq_none.1 hfind b hb
    simp at hnone
  | some x =>
    have hguid : x.guid = b.guid := by simpa using List.find?_some hfind
    rw [List.inj_on_of_nodup_map hkeys (List.mem_of_find?_eq_some hfind) hb hguid]

theorem sum_above (hkeys : (accounts.map AccountWithBalance.guid).Nodup) (p : Option Guid)
    (a : AccountWithBalance) :
    ((accounts.filter fun b => b.parentGuid = p).map fun b =>
      if a.parentGuid = some b.guid then (1 : ℚ) else 0).sum =
      match above accounts a with
      | none => 0
      | some b => if b.parentGuid = p then 1 else 0 := by
  rw [sum_filter_map]
  cases habove : above accounts a with
  | none =>
    refine List.sum_eq_zero fun x hx => ?_
    obtain ⟨b, hb, rfl⟩ := List.mem_map.1 hx
    have hne : a.parentGuid ≠ some b.guid := by
      intro h
      rw [above_eq hkeys hb h] at habove
      cases habove
    rw [if_neg hne, ite_self]
  | some b =>
    obtain ⟨hb, hparent⟩ := mem_of_above habove
    have hterm (x : AccountWithBalance) (hx : x ∈ accounts) :
        (if decide (x.parentGuid = p) then if a.parentGuid = some x.guid then (1 : ℚ) else 0
          else 0) = if x = b then (if b.parentGuid = p then 1 else 0) else 0 := by
      by_cases hxb : x = b
      · subst hxb
        simp [hparent]
      · have hne : a.parentGuid ≠ some x.guid := by
          rw [hparent]
          exact fun h => hxb (List.inj_on_of_nodup_map hkeys hx hb (Option.some.inj h).symm)
        rw [if_neg hne, ite_self, if_neg hxb]
    rw [List.map_congr_left hterm]
    exact sum_ite_eq _ (hkeys.of_map _) hb

theorem sum_times (hkeys : (accounts.map AccountWithBalance.guid).Nodup) (n : ℕ)
    (p : Option Guid) (a : AccountWithBalance) :
    ((accounts.filter fun b => b.parentGuid = p).map fun b =>
      times accounts n (some b.guid) a).sum =
      match above accounts a with
      | none => 0
      | some b => times accounts n p b := by
  induction n generalizing a with
  | zero =>
    have hzero : ((accounts.filter fun b => b.parentGuid = p).map fun b =>
        times accounts 0 (some b.guid) a).sum = 0 :=
      List.sum_eq_zero fun x hx => by
        obtain ⟨b, -, rfl⟩ := List.mem_map.1 hx
        rfl
    rw [hzero]
    cases above accounts a <;> rfl
  | succ n ih =>
    simp only [times, List.sum_map_add, sum_above hkeys]
    cases habove : above accounts a with
    | none => simp
    | some b => simp only [ih]

theorem levelSum_eq (hkeys : (accounts.map AccountWithBalance.guid).Nodup)
    (w : AccountWithBalance → ℚ) (n : ℕ) (p : Option Guid) :
    levelSum accounts w n p = (accounts.map fun a => w a * times accounts n p a).sum := by
  induction n generalizing p with
  | zero => simp [levelSum, times]
  | succ n ih =>
    rw [levelSum, List.sum_map_add, sum_filter_map]
    simp only [ih, decide_eq_true_eq]
    rw [sum_comm, ← List.sum_map_add]
    congr 1
    refine List.map_congr_left fun a _ => ?_
    rw [List.sum_map_mul_left, sum_times hkeys, times]
    by_cases hp : a.parentGuid = p
    · rw [if_pos hp, if_pos hp, mul_add, mul_one]
    · rw [if_neg hp, if_neg hp, zero_add, zero_add]

/-! ## Forests -/

def parentOf (accounts : List AccountWithBalance) (g : Guid) : Option Guid :=
  (accounts.find? fun a => a.guid = g).bind AccountWithBalance.parentGuid

/-- Distinct accounts that are not above themselves. -/
structure IsForest (accounts : List AccountWithBalance) : Prop where
  keys : (accounts.map AccountWithBalance.guid).Nodup
  acyclic : Acyclic (parentOf accounts)

variable {parentGuid : Option Guid}

theorem parentOf_eq (hkeys : (accounts.map AccountWithBalance.guid).Nodup)
    (ha : a ∈ accounts) : parentOf accounts a.guid = a.parentGuid := by
  have hfind : accounts.find? (fun x => x.guid = a.guid) = some a := by
    have habove := above_eq (a := ⟨0, some a.guid, 0, none⟩) hkeys ha rfl
    exact habove
  rw [parentOf, hfind, Option.bind_some]

theorem IsForest.sublist (h : IsForest accounts) {kept : List AccountWithBalance}
    (hsub : kept.Sublist accounts) : IsForest kept := by
  refine ⟨h.keys.sublist (hsub.map _),
    fun g hg => h.acyclic g (Relation.TransGen.mono (fun a b hab => ?_) g g hg)⟩
  obtain ⟨x, hx, hparent⟩ := Option.bind_eq_some_iff.1 hab
  have hguid : x.guid = a := by simpa using List.find?_some hx
  have hmem := hsub.subset (List.mem_of_find?_eq_some hx)
  rw [IsParent, ← hguid, parentOf_eq h.keys hmem, hparent]

@[simp] theorem guid_attach (a : AccountWithBalance) :
    (attach accounts parentGuid a).guid = a.guid := by
  unfold attach
  split <;> rfl

@[simp] theorem balance_attach (a : AccountWithBalance) :
    (attach accounts parentGuid a).balance = a.balance := by
  unfold attach
  split <;> rfl

/-- The accounts that the lines are made of. -/
def attached (accounts : List AccountWithBalance) (parentGuid : Option Guid) :
    List AccountWithBalance :=
  accounts.map (attach accounts parentGuid)

theorem map_guid_attached :
    (attached accounts parentGuid).map AccountWithBalance.guid =
      accounts.map AccountWithBalance.guid := by
  rw [attached, List.map_map]
  exact List.map_congr_left fun a _ => guid_attach a

def up (accounts : List AccountWithBalance) (g : Guid) : Option Guid :=
  (accounts.find? fun a => a.guid = g).bind fun a => (above accounts a).map AccountWithBalance.guid

theorem up_eq (hkeys : (accounts.map AccountWithBalance.guid).Nodup)
    (ha : a ∈ accounts) : up accounts a.guid = (above accounts a).map AccountWithBalance.guid := by
  have hfind : accounts.find? (fun x => x.guid = a.guid) = some a :=
    above_eq (a := ⟨0, some a.guid, 0, none⟩) hkeys ha rfl
  rw [up, hfind, Option.bind_some]

section Attached

variable (hforest : IsForest accounts)
  (hroot : ∀ g ∈ parentGuid, g ∉ accounts.map AccountWithBalance.guid)

include hforest

theorem keys_attached : ((attached accounts parentGuid).map AccountWithBalance.guid).Nodup := by
  rw [map_guid_attached]
  exact hforest.keys

theorem attached_cases (ha : a ∈ attached accounts parentGuid) :
    a.parentGuid = parentGuid ∨ ∃ b, above (attached accounts parentGuid) a = some b := by
  obtain ⟨x, hx, rfl⟩ := List.mem_map.1 ha
  unfold attach
  split
  · next hcond =>
      refine hcond.imp_right ?_
      rintro ⟨g, hg, hmem⟩
      rw [← @map_guid_attached accounts parentGuid] at hmem
      obtain ⟨b, hb, hguid⟩ := List.mem_map.1 hmem
      exact ⟨b, above_eq (keys_attached hforest) hb (by rw [hguid]; exact hg)⟩
  · exact .inl rfl

include hroot

theorem acyclic_up : Acyclic (up (attached accounts parentGuid)) := by
  refine fun g hg => hforest.acyclic g (Relation.TransGen.mono (fun a b hab => ?_) g g hg)
  obtain ⟨x, hx, habove⟩ := Option.bind_eq_some_iff.1 hab
  obtain ⟨y, hy, rfl⟩ := Option.map_eq_some_iff.1 habove
  obtain ⟨hymem, hparent⟩ := mem_of_above hy
  have hguid : x.guid = a := by simpa using List.find?_some hx
  obtain ⟨z, hz, rfl⟩ := List.mem_map.1 (List.mem_of_find?_eq_some hx)
  have hyguid : y.guid ∈ accounts.map AccountWithBalance.guid := by
    rw [← @map_guid_attached accounts parentGuid]
    exact List.mem_map.2 ⟨y, hymem, rfl⟩
  have hzparent : z.parentGuid = some y.guid := by
    unfold attach at hparent
    split at hparent
    · exact hparent
    · exact absurd hyguid (hroot _ hparent)
  rw [IsParent, ← hguid, guid_attach, parentOf_eq hforest.keys hz, hzparent]

theorem times_eq_one (n : ℕ) (ha : a ∈ attached accounts parentGuid)
    {r : Guid} (h : rootWithin (up (attached accounts parentGuid)) n a.guid = some r) :
    times (attached accounts parentGuid) (n + 1) parentGuid a = 1 := by
  induction n generalizing a with
  | zero =>
    have hup := up_eq (keys_attached hforest) ha
    cases habove : above (attached accounts parentGuid) a with
    | none =>
      have hparent := (attached_cases hforest ha).resolve_right (by simp [habove])
      simp [times, habove, hparent]
    | some b => simp [rootWithin, hup, habove] at h
  | succ n ih =>
    have hup := up_eq (keys_attached hforest) ha
    cases habove : above (attached accounts parentGuid) a with
    | none =>
      have hparent := (attached_cases hforest ha).resolve_right (by simp [habove])
      simp [times, habove, hparent]
    | some b =>
      obtain ⟨hb, hparent⟩ := mem_of_above habove
      have hne : a.parentGuid ≠ parentGuid := by
        intro heq
        refine hroot b.guid (heq.symm.trans hparent) ?_
        rw [← @map_guid_attached accounts parentGuid]
        exact List.mem_map.2 ⟨b, hb, rfl⟩
      rw [habove, Option.map_some] at hup
      rw [rootWithin_succ hup] at h
      rw [times, if_neg hne, habove, zero_add]
      exact ih hb h

theorem levelSum_attached (w : AccountWithBalance → ℚ) :
    levelSum (attached accounts parentGuid) w (accounts.length + 1) parentGuid =
      ((attached accounts parentGuid).map w).sum := by
  rw [levelSum_eq (keys_attached hforest)]
  congr 1
  refine List.map_congr_left fun a ha => ?_
  obtain ⟨r, hr⟩ := (acyclic_up hforest hroot).rootWithin_card
    ((attached accounts parentGuid).map AccountWithBalance.guid).toFinset
    (fun g h hgh => by
      obtain ⟨x, -, habove⟩ := Option.bind_eq_some_iff.1 hgh
      obtain ⟨y, hy, rfl⟩ := Option.map_eq_some_iff.1 habove
      exact List.mem_toFinset.2 (List.mem_map.2 ⟨y, (mem_of_above hy).1, rfl⟩)) a.guid
  have hcard : ((attached accounts parentGuid).map AccountWithBalance.guid).toFinset.card ≤
      accounts.length := by
    refine (List.toFinset_card_le _).trans ?_
    rw [map_guid_attached, List.length_map]
  rw [times_eq_one hforest hroot _ ha (rootWithin_mono hr hcard), mul_one]

theorem sum_buildHierarchy :
    ((buildHierarchy accounts parentGuid).map LineItem.amount).sum =
      (accounts.map AccountWithBalance.balance).sum := by
  refine (sum_amounts _ _ 0).trans ((levelSum_attached hforest hroot _).trans ?_)
  rw [attached, List.map_map]
  congr 1
  exact List.map_congr_left fun a _ => balance_attach a

theorem perm_buildHierarchy :
    (LineItem.guidsOf (buildHierarchy accounts parentGuid)).Perm
      (accounts.map AccountWithBalance.guid) := by
  refine List.perm_iff_count.2 fun g => ?_
  have hcount := (count_guids g (accounts.length + 1) parentGuid 0).trans
    (levelSum_attached hforest hroot _)
  have hmap (xs : List AccountWithBalance) :
      (xs.map fun a => if a.guid = g then (1 : ℚ) else 0).sum =
        (((xs.map AccountWithBalance.guid).count g : ℕ) : ℚ) := by
    induction xs with
    | nil => simp
    | cons x xs ih =>
      rw [List.map_cons, List.sum_cons, ih, List.map_cons, List.count_cons]
      by_cases hx : x.guid = g
      · simp [hx]
        ring
      · simp [hx]
  rw [hmap, map_guid_attached] at hcount
  exact_mod_cast hcount

end Attached

theorem hierarchy_exact (hforest : IsForest accounts) (p : AccountWithBalance → Bool)
    (hroot : ∀ g ∈ parentGuid, g ∉ (accounts.filter p).map AccountWithBalance.guid) :
    ((buildHierarchy (accounts.filter p) parentGuid).map LineItem.amount).sum =
        ((accounts.filter p).map AccountWithBalance.balance).sum ∧
      (LineItem.guidsOf (buildHierarchy (accounts.filter p) parentGuid)).Perm
        ((accounts.filter p).map AccountWithBalance.guid) :=
  ⟨sum_buildHierarchy (hforest.sublist List.filter_sublist) hroot,
    perm_buildHierarchy (hforest.sublist List.filter_sublist) hroot⟩

end Reports
