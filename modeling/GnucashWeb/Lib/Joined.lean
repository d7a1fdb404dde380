import Mathlib

/-!
# Joined texts

Texts joined by a separator.  The joined text gives the texts back when their number is known and
none of them has the separator (`eq_of_joined_eq`), and only then: a text with the separator can be
divided between neighbours in another way (`exists_joined_eq`).
-/

namespace Joined

variable {α : Type} [DecidableEq α] {sep : α} {l m : List (List α)}

/-- The texts with a separator between neighbours. -/
abbrev joined (sep : α) (l : List (List α)) : List α := [sep].intercalate l

omit [DecidableEq α] in
theorem joined_cons_cons (t u : List α) :
    joined sep (t :: u :: l) = t ++ sep :: joined sep (u :: l) := by
  simp [joined]

theorem count_joined (sep : α) (hl : l ≠ []) :
    (joined sep l).count sep + 1 = (l.map (List.count sep)).sum + l.length := by
  induction l with
  | nil => exact absurd rfl hl
  | cons t l ih =>
    cases l with
    | nil => simp [joined]
    | cons u l =>
      have := ih (List.cons_ne_nil u l)
      rw [joined_cons_cons, List.count_append, List.count_cons_self, List.map_cons,
        List.sum_cons, List.length_cons]
      omega

theorem sum_counts_eq_zero_iff : (l.map (List.count sep)).sum = 0 ↔ ∀ t ∈ l, sep ∉ t := by
  simp [List.sum_eq_zero_iff_forall_eq_nat, List.count_eq_zero]

theorem eq_of_joined_eq (hlen : l.length = m.length) (hl : ∀ t ∈ l, sep ∉ t)
    (h : joined sep l = joined sep m) : l = m := by
  by_cases hnil : l = []
  · subst hnil
    exact (List.length_eq_zero_iff.1 hlen.symm).symm
  have hmnil : m ≠ [] := by
    rintro rfl
    exact hnil (List.length_eq_zero_iff.1 hlen)
  have hcount := count_joined sep hnil
  rw [h, hlen, sum_counts_eq_zero_iff.2 hl] at hcount
  have hm : ∀ t ∈ m, sep ∉ t :=
    sum_counts_eq_zero_iff.1 (by have := count_joined sep hmnil; omega)
  have hsplit := congrArg (List.splitOn sep) h
  rwa [joined, joined, List.splitOn_intercalate sep hl hnil,
    List.splitOn_intercalate sep hm hmnil] at hsplit

/-- A text with the separator can be divided in another way between it and a neighbour. -/
theorem exists_joined_eq (hlen : 2 ≤ l.length) {t : List α} (ht : t ∈ l) (hsep : sep ∈ t) :
    ∃ m, m.length = l.length ∧ m ≠ l ∧ joined sep m = joined sep l := by
  induction l with
  | nil => simp at hlen
  | cons x l ih =>
    cases l with
    | nil => simp at hlen
    | cons y l =>
      by_cases hx : sep ∈ x
      · -- what follows the separator goes to the next text
        obtain ⟨u, v, rfl⟩ := List.append_of_mem hx
        refine ⟨u :: (v ++ sep :: y) :: l, rfl, ?_, ?_⟩
        · simp
        · cases l <;> simp [joined]
      rcases List.mem_cons.1 ht with rfl | ht
      · exact absurd hsep hx
      cases l with
      | nil =>
        -- what stands before the separator in the last text goes to the text before
        obtain rfl := List.mem_singleton.1 ht
        obtain ⟨u, v, rfl⟩ := List.append_of_mem hsep
        exact ⟨[x ++ sep :: u, v], rfl, by simp, by simp [joined]⟩
      | cons z l =>
        obtain ⟨m, hlength, hne, hjoined⟩ := ih (by simp) ht
        cases m with
        | nil => simp at hlength
        | cons w m =>
          refine ⟨x :: w :: m, congrArg Nat.succ hlength, fun h => hne (List.cons.inj h).2, ?_⟩
          rw [joined_cons_cons, joined_cons_cons, hjoined]

end Joined
