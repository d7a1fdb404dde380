import Mathlib.Data.List.Perm.Basic
import Mathlib.Data.Nat.Notation

/-!
# Tables grouped by a key

A table is a list of rows in the order a query returned them.  This file gives the rows of one key
(`group`), the index that collects them by a pass over the table (`indexBy`, with `lookup_indexBy`)
and the two facts about reordered tables that readers of an index use (`Perm.group`,
`exists_perm_map_eq`).
-/

namespace Table

variable {α β κ : Type*} [DecidableEq κ]

/-! ## Groups -/

/-- The rows with key `k`, in table order. -/
def group (key : α → κ) (k : κ) (rows : List α) : List α := rows.filter fun r => key r = k

variable {key : α → κ} {k : κ} {rows rows' : List α}

@[simp] theorem group_nil : group key k ([] : List α) = [] := rfl

@[simp] theorem group_append (as bs : List α) :
    group key k (as ++ bs) = group key k as ++ group key k bs :=
  List.filter_append ..

theorem group_cons (a : α) (as : List α) :
    group key k (a :: as) = if key a = k then a :: group key k as else group key k as := by
  simp [group, List.filter_cons]

theorem group_eq_nil (h : ∀ r ∈ rows, key r ≠ k) : group key k rows = [] := by
  simpa [group] using h

theorem group_eq_self (h : ∀ r ∈ rows, key r = k) : group key k rows = rows := by
  simpa [group] using h

theorem mem_group {r : α} : r ∈ group key k rows ↔ r ∈ rows ∧ key r = k := by simp [group]

theorem group_flatMap_eq_nil {π : Type*} {f : π → List α} {ps : List π}
    (h : ∀ p ∈ ps, group key k (f p) = []) : group key k (ps.flatMap f) = [] := by
  refine group_eq_nil fun r hr hrk => ?_
  obtain ⟨p, hp, hrp⟩ := List.mem_flatMap.1 hr
  have hmem : r ∈ group key k (f p) := mem_group.2 ⟨hrp, hrk⟩
  rw [h p hp] at hmem
  exact absurd hmem List.not_mem_nil

theorem Perm.group (h : rows.Perm rows') : (group key k rows).Perm (group key k rows') :=
  h.filter _

theorem exists_perm_map_eq {f : α → β} {as : List α} {bs : List β} (h : bs.Perm (as.map f)) :
    ∃ as' : List α, as'.Perm as ∧ as'.map f = bs := by
  generalize hcs : as.map f = cs at h
  induction h generalizing as with
  | nil => exact ⟨as, .refl _, hcs⟩
  | @cons b bs cs _ ih =>
    obtain ⟨a, as, rfl, rfl, htail⟩ := List.map_eq_cons_iff.1 hcs
    obtain ⟨as', hp, hm⟩ := ih htail
    exact ⟨a :: as', hp.cons a, by rw [List.map_cons, hm]⟩
  | swap b c bs =>
    obtain ⟨a, as, rfl, rfl, htail⟩ := List.map_eq_cons_iff.1 hcs
    obtain ⟨a', as, rfl, rfl, rfl⟩ := List.map_eq_cons_iff.1 htail
    exact ⟨a' :: a :: as, .swap _ _ _, rfl⟩
  | trans _ _ ih₁ ih₂ =>
    obtain ⟨as₁, hp₁, hm₁⟩ := ih₂ hcs
    obtain ⟨as₂, hp₂, hm₂⟩ := ih₁ hm₁
    exact ⟨as₂, hp₂.trans hp₁, hm₂⟩

/-! ## Indexes -/

/-- Appends a row to the rows stored under its key. -/
def push (k : κ) (a : α) : List (κ × List α) → List (κ × List α)
  | [] => [(k, [a])]
  | (k', as) :: index => if k' = k then (k', as ++ [a]) :: index else (k', as) :: push k a index

/-- The rows stored under a key, none when the key is absent. -/
def lookup (k : κ) : List (κ × List α) → List α
  | [] => []
  | (k', as) :: index => if k' = k then as else lookup k index

/-- The index of a table: one pass that pushes every row under its key. -/
def indexBy (key : α → κ) (rows : List α) : List (κ × List α) :=
  rows.foldl (fun index r => push (key r) r index) []

theorem lookup_push (k k' : κ) (a : α) (index : List (κ × List α)) :
    lookup k (push k' a index) = if k' = k then lookup k index ++ [a] else lookup k index := by
  induction index with
  | nil => by_cases h : k' = k <;> simp [push, lookup, h]
  | cons e index ih =>
    obtain ⟨k'', as⟩ := e
    by_cases h'' : k'' = k'
    · subst h''
      by_cases h : k'' = k <;> simp [push, lookup, h]
    · by_cases h : k'' = k
      · subst h
        simp [push, lookup, h'', Ne.symm h'']
      · simp [push, lookup, h'', h, ih]

theorem lookup_foldl (k : κ) (rows : List α) (index : List (κ × List α)) :
    lookup k (rows.foldl (fun index r => push (key r) r index) index) =
      lookup k index ++ group key k rows := by
  induction rows generalizing index with
  | nil => simp
  | cons r rows ih =>
    rw [List.foldl_cons, ih, lookup_push, group_cons]
    by_cases h : key r = k <;> simp [h]

/-- Looking a key up in the index of a table gives the rows of that key in table order. -/
@[simp] theorem lookup_indexBy (k : κ) (rows : List α) :
    lookup k (indexBy key rows) = group key k rows :=
  (lookup_foldl k rows []).trans (List.nil_append _)

end Table
