import Mathlib.Algebra.BigOperators.Group.List.Basic
import Mathlib.Algebra.Order.Ring.Rat
import Mathlib.Tactic.Ring

/-!
# Sums over lists

Sums over a filter, over two lists in either order and over the differences of what grows along a list
(`sum_prefixes`), and the one element that a sum picks out (`sum_ite_eq`).
-/

namespace ListSums

variable {α β : Type}

theorem sum_filter_map (p : α → Bool) (f : α → ℚ) (xs : List α) :
    ((xs.filter p).map f).sum = (xs.map fun x => if p x then f x else 0).sum := by
  induction xs with
  | nil => rfl
  | cons x xs ih =>
    by_cases hp : p x = true <;> simp [hp, ih]

theorem sum_comm (f : α → β → ℚ) (xs : List α) (ys : List β) :
    (xs.map fun x => (ys.map (f x)).sum).sum = (ys.map fun y => (xs.map fun x => f x y).sum).sum := by
  induction xs with
  | nil => simp
  | cons x xs ih =>
    simp only [List.map_cons, List.sum_cons, ih]
    rw [← List.sum_map_add]

theorem sum_neg (f : α → ℚ) (xs : List α) : (xs.map fun x => -f x).sum = -(xs.map f).sum := by
  induction xs with
  | nil => simp
  | cons x xs ih =>
    rw [List.map_cons, List.sum_cons, ih, List.map_cons, List.sum_cons, neg_add]

theorem sum_flatMap (f : β → ℚ) (g : α → List β) (xs : List α) :
    ((xs.flatMap g).map f).sum = (xs.map fun x => ((g x).map f).sum).sum := by
  induction xs with
  | nil => rfl
  | cons x xs ih => simp [List.flatMap_cons, ih]

theorem sum_filterMap {α β : Type} (f : α → Option β) (w : β → ℚ) (xs : List α) :
    ((xs.filterMap f).map w).sum = (xs.map fun x => ((f x).map w).getD 0).sum := by
  induction xs with
  | nil => rfl
  | cons x xs ih =>
    cases hx : f x with
    | none => simp [hx, ih]
    | some y => simp [hx, ih]

theorem sum_prefixes (total : List β → ℚ) (f : List β → β → ℚ)
    (h : ∀ before b, f before b = total (before ++ [b]) - total before) (before rest : List β) :
    ((rest.zipIdx before.length).map fun x => f ((before ++ rest).take x.2) x.1).sum =
      total (before ++ rest) - total before := by
  induction rest generalizing before with
  | nil => simp
  | cons b rest ih =>
    have hnext := ih (before ++ [b])
    simp only [List.length_append, List.length_singleton, List.append_assoc,
      List.singleton_append] at hnext
    rw [List.zipIdx_cons, List.map_cons, List.sum_cons, hnext, List.take_left, h]
    ring

theorem sum_ite_eq [DecidableEq α] (v : ℚ) {x : α} {xs : List α} (hnodup : xs.Nodup)
    (hx : x ∈ xs) : (xs.map fun y => if y = x then v else 0).sum = v := by
  induction xs with
  | nil => cases hx
  | cons y ys ih =>
    rw [List.nodup_cons] at hnodup
    rw [List.map_cons, List.sum_cons]
    rcases List.mem_cons.1 hx with rfl | hx
    · have hzero : (ys.map fun y => if y = x then v else 0).sum = 0 := by
        refine List.sum_eq_zero fun u hu => ?_
        obtain ⟨y, hy, rfl⟩ := List.mem_map.1 hu
        rw [if_neg]
        rintro rfl
        exact hnodup.1 hy
      rw [hzero, if_pos rfl, add_zero]
    · have hne : y ≠ x := by
        rintro rfl
        exact hnodup.1 hx
      rw [if_neg hne, zero_add]
      exact ih hnodup.2 hx

end ListSums
