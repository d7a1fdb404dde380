import Mathlib.Data.List.Basic
import Mathlib.Data.List.Induction
import Mathlib.Data.List.Nodup
import Mathlib.Tactic.Common

/-!
# Grouping by a key

A map from keys to lists that keeps the order of first insertion, filled one value at a time.  Its
groups are the values of each key that occurs, in their order (`mem_grouped_iff`).
-/

namespace Grouping

variable {α κ : Type} [DecidableEq κ]

/-- Append a value to the list of its key, a new key at the end. -/
def insert (k : κ) (x : α) : List (κ × List α) → List (κ × List α)
  | [] => [(k, [x])]
  | g :: groups => if g.1 = k then (k, g.2 ++ [x]) :: groups else g :: insert k x groups

def grouped (key : α → κ) (xs : List α) : List (κ × List α) :=
  xs.foldl (fun groups x => insert (key x) x groups) []

theorem grouped_concat (key : α → κ) (xs : List α) (x : α) :
    grouped key (xs ++ [x]) = insert (key x) x (grouped key xs) := by
  rw [grouped, List.foldl_append]
  rfl

theorem mem_keys_insert (k k' : κ) (x : α) (groups : List (κ × List α)) :
    k' ∈ (insert k x groups).map Prod.fst ↔ k' = k ∨ k' ∈ groups.map Prod.fst := by
  induction groups with
  | nil => simp [insert]
  | cons g groups ih =>
    by_cases hk : g.1 = k
    · rw [insert, if_pos hk, List.map_cons, List.map_cons, List.mem_cons, List.mem_cons, hk]
      exact or_self_left.symm
    · rw [insert, if_neg hk, List.map_cons, List.map_cons, List.mem_cons, List.mem_cons, ih]
      exact or_left_comm

theorem nodup_insert {k : κ} {x : α} {groups : List (κ × List α)}
    (h : (groups.map Prod.fst).Nodup) : ((insert k x groups).map Prod.fst).Nodup := by
  induction groups with
  | nil => exact List.nodup_singleton _
  | cons g groups ih =>
    rw [List.map_cons, List.nodup_cons] at h
    by_cases hk : g.1 = k
    · rw [insert, if_pos hk, List.map_cons, ← hk]
      exact List.nodup_cons.2 h
    · rw [insert, if_neg hk, List.map_cons, List.nodup_cons]
      refine ⟨fun hmem => ?_, ih h.2⟩
      rcases (mem_keys_insert ..).1 hmem with rfl | hmem
      · exact hk rfl
      · exact h.1 hmem

theorem mem_insert_iff {k : κ} {x : α} {groups : List (κ × List α)}
    (h : (groups.map Prod.fst).Nodup) (g : κ × List α) :
    g ∈ insert k x groups ↔
      g.1 ≠ k ∧ g ∈ groups ∨
      g.1 = k ∧ ((∃ old, (k, old) ∈ groups ∧ g.2 = old ++ [x]) ∨
        k ∉ groups.map Prod.fst ∧ g.2 = [x]) := by
  induction groups with
  | nil =>
    obtain ⟨k', xs⟩ := g
    simp [insert]
  | cons first groups ih =>
    obtain ⟨k', xs⟩ := g
    obtain ⟨k₁, xs₁⟩ := first
    rw [List.map_cons, List.nodup_cons] at h
    by_cases hk : k₁ = k
    · subst hk
      have hnot : ∀ old, (k₁, old) ∉ groups := fun old hmem =>
        h.1 (List.mem_map.2 ⟨(k₁, old), hmem, rfl⟩)
      by_cases hk' : k' = k₁
      · subst hk'
        simp [insert, hnot]
      · simp [insert, hk']
    · have hne : k ≠ k₁ := Ne.symm hk
      by_cases hk' : k' = k
      · subst hk'
        simp [insert, hk, hne, ih h.2]
      · simp [insert, hk, hk', ih h.2]

theorem nodup_grouped (key : α → κ) (xs : List α) : ((grouped key xs).map Prod.fst).Nodup := by
  induction xs using List.reverseRecOn with
  | nil => exact List.nodup_nil
  | append_singleton xs x ih =>
    rw [grouped_concat]
    exact nodup_insert ih

theorem mem_grouped_iff (key : α → κ) (xs : List α) (g : κ × List α) :
    g ∈ grouped key xs ↔
      (∃ x ∈ xs, key x = g.1) ∧ g.2 = xs.filter fun x => key x = g.1 := by
  obtain ⟨k, group⟩ := g
  induction xs using List.reverseRecOn generalizing k group with
  | nil => simp [grouped]
  | append_singleton xs x ih =>
    have hkeys : key x ∈ (grouped key xs).map Prod.fst ↔ ∃ y ∈ xs, key y = key x := by
      rw [List.mem_map]
      constructor
      · rintro ⟨g, hg, hk⟩
        rw [← hk]
        exact ((ih g.1 g.2).1 hg).1
      · exact fun hy => ⟨(key x, xs.filter fun y => key y = key x), (ih _ _).2 ⟨hy, rfl⟩, rfl⟩
    rw [grouped_concat, mem_insert_iff (nodup_grouped key xs)]
    by_cases hk : key x = k
    · subst hk
      by_cases hold : ∃ y ∈ xs, key y = key x
      · simp only [ne_eq, not_true, false_and, true_and, false_or, hkeys, hold, not_true, or_false,
          ih]
        simp only [List.filter_append, List.mem_append, List.mem_singleton]
        have hex : ∃ y, (y ∈ xs ∨ y = x) ∧ key y = key x := ⟨x, .inr rfl, rfl⟩
        simp only [hex, true_and, decide_true, List.filter_cons_of_pos, List.filter_nil]
        exact ⟨fun ⟨old, hold, hgroup⟩ => hold ▸ hgroup, fun hgroup => ⟨_, rfl, hgroup⟩⟩
      · have hnone : (xs.filter fun y => key y = key x) = [] := by
          simpa [List.filter_eq_nil_iff] using hold
        simp [ih, hkeys, hold, List.filter_append, hnone]
    · have hk' : k ≠ key x := Ne.symm hk
      simp [ih, hk, hk', List.filter_append]

theorem filter_flatMap {γ : Type*} {groups : List (κ × List α)}
    (hnodup : (groups.map Prod.fst).Nodup) (f : κ × List α → List γ) (key : γ → κ)
    (hkey : ∀ g ∈ groups, ∀ x ∈ f g, key x = g.1) {g : κ × List α} (hg : g ∈ groups) :
    (groups.flatMap f).filter (fun x => key x = g.1) = f g := by
  induction groups with
  | nil => cases hg
  | cons g' groups ih =>
    rw [List.map_cons, List.nodup_cons] at hnodup
    rw [List.flatMap_cons, List.filter_append]
    rcases List.mem_cons.1 hg with rfl | hg
    · have hrest : (groups.flatMap f).filter (fun x => key x = g.1) = [] := by
        refine List.filter_eq_nil_iff.2 fun x hx => ?_
        obtain ⟨other, hother, hx⟩ := List.mem_flatMap.1 hx
        rw [hkey other (List.mem_cons_of_mem _ hother) x hx, decide_eq_true_iff]
        intro heq
        exact hnodup.1 (heq ▸ List.mem_map_of_mem hother)
      rw [hrest, List.append_nil, List.filter_eq_self]
      exact fun x hx => decide_eq_true (hkey g List.mem_cons_self x hx)
    · have hfirst : (f g').filter (fun x => key x = g.1) = [] := by
        refine List.filter_eq_nil_iff.2 fun x hx => ?_
        rw [hkey g' List.mem_cons_self x hx, decide_eq_true_iff]
        intro heq
        exact hnodup.1 (heq ▸ List.mem_map_of_mem hg)
      rw [hfirst, List.nil_append]
      exact ih hnodup.2 (fun g hg => hkey g (List.mem_cons_of_mem _ hg)) hg

end Grouping
