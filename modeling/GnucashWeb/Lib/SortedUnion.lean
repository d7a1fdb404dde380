import Mathlib.Data.List.Dedup
import Mathlib.Data.List.Sort
import Mathlib.Order.MinMax

/-!
# Sorted lists

Rows in the order of their keys, and the union of sorted lists.
-/

/-!
## Rows in key order

Rows with distinct keys, read in the order of their keys, as a query with an `ORDER BY` reads them.
-/

namespace KeyOrder

variable {α κ : Type} [LinearOrder κ] (key : α → κ)

def inKeyOrder (l : List α) : List α := l.insertionSort fun a b => key a ≤ key b

variable {key} {l : List α}

theorem perm_inKeyOrder (l : List α) : (inKeyOrder key l).Perm l := List.perm_insertionSort _ _

theorem mem_inKeyOrder {a : α} : a ∈ inKeyOrder key l ↔ a ∈ l := (perm_inKeyOrder l).mem_iff

theorem inKeyOrder_eq_nil_iff : inKeyOrder key l = [] ↔ l = [] := by
  rw [← List.length_eq_zero_iff, (perm_inKeyOrder l).length_eq, List.length_eq_zero_iff]

theorem pairwise_inKeyOrder (h : (l.map key).Nodup) :
    (inKeyOrder key l).Pairwise fun a b => key a < key b := by
  have hle : (inKeyOrder key l).Pairwise fun a b => key a ≤ key b :=
    List.pairwise_insertionSort (fun a b => key a ≤ key b) l
  have hne : (inKeyOrder key l).Pairwise fun a b => key a ≠ key b :=
    List.pairwise_map.1 (((perm_inKeyOrder l).map key).nodup_iff.2 h)
  exact (hle.and hne).imp fun ⟨hab, hnot⟩ => lt_of_le_of_ne hab hnot

theorem inKeyOrder_eq {s : List α} (hs : s.Pairwise fun a b => key a < key b) (h : l.Perm s) :
    inKeyOrder key l = s := by
  have hl : (l.map key).Nodup :=
    (h.map key).nodup_iff.2 (List.pairwise_map.2 (hs.imp fun hab => ne_of_lt hab))
  refine ((perm_inKeyOrder l).trans h).eq_of_pairwise ?_ (pairwise_inKeyOrder hl) hs
  exact fun a b _ _ hab hba => absurd hba (lt_asymm hab)

theorem inKeyOrder_filter (h : (l.map key).Nodup) (p : α → Bool) :
    inKeyOrder key (l.filter p) = (inKeyOrder key l).filter p :=
  inKeyOrder_eq ((pairwise_inKeyOrder h).sublist List.filter_sublist)
    ((perm_inKeyOrder l).symm.filter p)

theorem inKeyOrder_concat (h : (l.map key).Nodup) {a : α} (ha : ∀ b ∈ l, key b < key a) :
    inKeyOrder key (l ++ [a]) = inKeyOrder key l ++ [a] := by
  refine inKeyOrder_eq ?_ ((perm_inKeyOrder l).symm.append_right [a])
  rw [List.pairwise_append]
  refine ⟨pairwise_inKeyOrder h, List.pairwise_singleton _ _, fun b hb c hc => ?_⟩
  obtain rfl := List.mem_singleton.1 hc
  exact ha b (mem_inKeyOrder.1 hb)

theorem max?_keys (h : (l.map key).Nodup) :
    (l.map key).max? = (inKeyOrder key l).getLast?.map key := by
  rcases List.eq_nil_or_concat (inKeyOrder key l) with hnil | ⟨s, a, hs⟩
  · rw [hnil, inKeyOrder_eq_nil_iff.1 hnil]
    rfl
  · have hpw := pairwise_inKeyOrder h
    rw [hs, List.concat_eq_append, List.pairwise_append] at hpw
    have hmem {b : α} : b ∈ l ↔ b ∈ s ∨ b = a := by
      have hl : b ∈ inKeyOrder key l ↔ b ∈ l := mem_inKeyOrder
      rw [← hl, hs, List.concat_eq_append, List.mem_append, List.mem_singleton]
    rw [hs, List.concat_eq_append, List.getLast?_concat, Option.map_some]
    refine List.max?_eq_some_iff.2 ⟨List.mem_map_of_mem (hmem.2 (Or.inr rfl)), ?_⟩
    intro k hk
    obtain ⟨b, hb, rfl⟩ := List.mem_map.1 hk
    rcases hmem.1 hb with hb | rfl
    · exact (hpw.2.2 b hb a (List.mem_singleton_self a)).le
    · exact le_rfl

/-- Taking out the row with the greatest key when it passes a test takes out the last row. -/
theorem inKeyOrder_filter_top (h : (l.map key).Nodup) (q : α → Prop) [DecidablePred q] {s : List α}
    {a : α} (hs : inKeyOrder key l = s ++ [a]) :
    inKeyOrder key (l.filter fun b => ¬(q b ∧ some (key b) = (l.map key).max?)) =
      if q a then s else s ++ [a] := by
  have hpw := pairwise_inKeyOrder h
  rw [hs, List.pairwise_append] at hpw
  rw [inKeyOrder_filter h, max?_keys h, hs, List.getLast?_concat, Option.map_some,
    List.filter_append]
  have hkept : (s.filter fun b => decide ¬(q b ∧ some (key b) = some (key a))) = s :=
    List.filter_eq_self.2 fun b hb => by
      have hlt := hpw.2.2 b hb a (List.mem_singleton_self a)
      simp [hlt.ne]
  rw [hkept]
  by_cases hq : q a <;> simp [hq]

end KeyOrder

/-!
## Sorted unions

The sorted union of some lists without repetitions.  `take_sortedUnion`: when the lists are sorted
and the first `n` of each are distinct, these are enough for the first `n` of the union.
-/

namespace SortedUnion

variable {α : Type} [LinearOrder α]

/-- The members of some lists, each once, in order. -/
def sortedUnion (ls : List (List α)) : List α := ls.flatten.dedup.insertionSort (· ≤ ·)

theorem mem_sortedUnion {ls : List (List α)} {x : α} : x ∈ sortedUnion ls ↔ ∃ l ∈ ls, x ∈ l := by
  rw [sortedUnion, (List.perm_insertionSort _ _).mem_iff, List.mem_dedup, List.mem_flatten]

theorem insertionSort_pairwise_lt {l : List α} (h : l.Nodup) :
    (l.insertionSort (· ≤ ·)).Pairwise (· < ·) := by
  have hnodup : (l.insertionSort (· ≤ ·)).Nodup := (List.perm_insertionSort _ _).nodup_iff.2 h
  exact ((List.pairwise_insertionSort (· ≤ ·) l).and hnodup).imp fun ⟨hle, hne⟩ =>
    lt_of_le_of_ne hle hne

theorem sortedUnion_pairwise_lt (ls : List (List α)) : (sortedUnion ls).Pairwise (· < ·) :=
  insertionSort_pairwise_lt (List.nodup_dedup _)

theorem insertionSort_eq_sortedUnion {l : List α} {ls : List (List α)} (h : l.Nodup)
    (hmem : ∀ x, x ∈ l ↔ ∃ l' ∈ ls, x ∈ l') : l.insertionSort (· ≤ ·) = sortedUnion ls := by
  refine List.Pairwise.eq_of_mem_iff (insertionSort_pairwise_lt h) (sortedUnion_pairwise_lt ls)
    fun {x} => ?_
  rw [(List.perm_insertionSort _ _).mem_iff, hmem, mem_sortedUnion]

/-- A sublist that leaves out only what has `n` smaller members in it agrees on the first `n`. -/
theorem take_eq_take {A B : List α} {n : ℕ} (hA : A.Pairwise (· < ·)) (hB : B.Pairwise (· < ·))
    (hsub : ∀ x ∈ B, x ∈ A) (h : ∀ x ∈ A, x ∉ B → n ≤ (B.filter (· < x)).length) :
    B.take n = A.take n := by
  induction n generalizing A B with
  | zero => rfl
  | succ n ih =>
    cases A with
    | nil =>
      cases B with
      | nil => rfl
      | cons b B => exact absurd (hsub b List.mem_cons_self) List.not_mem_nil
    | cons a A =>
      rw [List.pairwise_cons] at hA
      have hmin : ∀ x ∈ B, a ≤ x := fun x hx => by
        rcases List.mem_cons.1 (hsub x hx) with rfl | hx
        · exact le_rfl
        · exact (hA.1 x hx).le
      have ha : a ∈ B := by
        by_contra hnot
        have hlen := h a List.mem_cons_self hnot
        have hnil : B.filter (· < a) = [] := List.filter_eq_nil_iff.2 fun x hx => by
          simpa using hmin x hx
        rw [hnil] at hlen
        exact absurd hlen (by simp)
      cases B with
      | nil => exact absurd ha List.not_mem_nil
      | cons b B =>
        rw [List.pairwise_cons] at hB
        have hba : b = a := by
          rcases List.mem_cons.1 ha with rfl | ha
          · rfl
          · exact absurd (hB.1 a ha) (not_lt.2 (hmin b List.mem_cons_self))
        subst hba
        rw [List.take_succ_cons, List.take_succ_cons, ih hA.2 hB.2]
        · intro x hx
          refine (List.mem_cons.1 (hsub x (List.mem_cons_of_mem _ hx))).resolve_left ?_
          rintro rfl
          exact lt_irrefl _ (hB.1 x hx)
        · intro x hx hnot
          have hlt := hA.1 x hx
          have hlen := h x (List.mem_cons_of_mem _ hx) fun hmem =>
            (List.mem_cons.1 hmem).elim (fun heq => hlt.ne heq.symm) hnot
          rw [List.filter_cons_of_pos (by simpa using hlt), List.length_cons] at hlen
          omega

/-- The first `n` of each of some sorted lists, when these are without repetitions, are enough for
the first `n` of the union. -/
theorem take_sortedUnion {ls : List (List α)} {n : ℕ} (hsorted : ∀ l ∈ ls, l.Pairwise (· ≤ ·))
    (hnodup : ∀ l ∈ ls, (l.take n).Nodup) :
    (sortedUnion (ls.map (List.take n))).take n = (sortedUnion ls).take n := by
  refine take_eq_take (sortedUnion_pairwise_lt _) (sortedUnion_pairwise_lt _) (fun x hx => ?_)
    fun x hx hnot => ?_
  · obtain ⟨_, hmap, hx⟩ := mem_sortedUnion.1 hx
    obtain ⟨l, hl, rfl⟩ := List.mem_map.1 hmap
    exact mem_sortedUnion.2 ⟨l, hl, List.mem_of_mem_take hx⟩
  · obtain ⟨l, hl, hx⟩ := mem_sortedUnion.1 hx
    have hin : ∀ y ∈ l.take n, y ∈ sortedUnion (ls.map (List.take n)) := fun y hy =>
      mem_sortedUnion.2 ⟨_, List.mem_map_of_mem hl, hy⟩
    have hdrop : x ∈ l.drop n := by
      rw [← List.take_append_drop n l, List.mem_append] at hx
      exact hx.resolve_left fun hx => hnot (hin x hx)
    -- the first members of the list of `x` come before it
    have hlt : ∀ y ∈ l.take n, y < x := by
      have hl' := hsorted l hl
      rw [← List.take_append_drop n l, List.pairwise_append] at hl'
      intro y hy
      refine lt_of_le_of_ne (hl'.2.2 y hy x hdrop) ?_
      rintro rfl
      exact hnot (hin y hy)
    have hlen : (l.take n).length = n := by
      rw [List.length_take, min_eq_left]
      have := List.length_pos_of_mem hdrop
      rw [List.length_drop] at this
      omega
    have hsubset : l.take n ⊆ (sortedUnion (ls.map (List.take n))).filter (· < x) := fun y hy =>
      List.mem_filter.2 ⟨hin y hy, by simpa using hlt y hy⟩
    have hle := (List.subperm_of_subset (hnodup l hl) hsubset).length_le
    rwa [hlen] at hle

end SortedUnion
