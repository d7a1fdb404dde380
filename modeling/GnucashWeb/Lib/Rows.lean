import Mathlib.Algebra.BigOperators.Group.List.Basic
import Mathlib.Algebra.Group.Basic
import Mathlib.Data.List.Nodup
import Mathlib.Tactic.Abel

/-!
# Rows with keys

Editing the row of a key in a table, and totals of a weight over the rows that satisfy a condition.
The main result is `total_editAt`: an edit changes a total by the change of the weight of its row.
-/

namespace Rows

variable {α κ M : Type}

variable {rows : List α} {r : α}

section Edit

variable [DecidableEq κ] {key : α → κ} {k : κ} {f : α → α}

def editAt (key : α → κ) (k : κ) (f : α → α) (rows : List α) : List α :=
  rows.map fun r => if key r = k then f r else r

theorem mem_editAt :
    r ∈ editAt key k f rows ↔ ∃ s ∈ rows, r = if key s = k then f s else s := by
  simp only [editAt, List.mem_map, eq_comm]

theorem map_editAt {β : Type} {g : α → β} (h : ∀ r, g (f r) = g r) (rows : List α) :
    (editAt key k f rows).map g = rows.map g := by
  rw [editAt, List.map_map]
  refine List.map_congr_left fun r _ => ?_
  by_cases hk : key r = k <;> simp [hk, h]

theorem editAt_editAt {g : α → α} (h : ∀ r, key (g r) = key r) (rows : List α) :
    editAt key k f (editAt key k g rows) = editAt key k (fun r => f (g r)) rows := by
  rw [editAt, editAt, editAt, List.map_map]
  refine List.map_congr_left fun r _ => ?_
  by_cases hk : key r = k <;> simp [hk, h]

theorem editAt_of_notMem (h : k ∉ rows.map key) : editAt key k f rows = rows := by
  rw [editAt]
  refine (List.map_congr_left fun r hr => ?_).trans (List.map_id rows)
  have hk : key r ≠ k := fun hk => h (hk ▸ List.mem_map_of_mem hr)
  simp [hk]

theorem find?_editAt (hf : ∀ r, key (f r) = key r) (h : rows.find? (fun r => key r = k) = some r) :
    (editAt key k f rows).find? (fun r => key r = k) = some (f r) := by
  have hkey : key r = k := by simpa using List.find?_some h
  have hcomp : ((fun r => decide (key r = k)) ∘ fun r => if key r = k then f r else r) =
      fun r => decide (key r = k) := by
    funext r
    by_cases hr : key r = k <;> simp [hr, hf]
  rw [editAt, List.find?_map, hcomp, h, Option.map_some, if_pos hkey]

theorem find?_editAt_of_ne {k' : κ} (hf : ∀ r, key (f r) = key r) (hne : k' ≠ k) :
    (editAt key k f rows).find? (fun r => key r = k') = rows.find? fun r => key r = k' := by
  induction rows with
  | nil => rfl
  | cons r rows ih =>
    rw [editAt, List.map_cons, List.find?_cons, List.find?_cons]
    by_cases hr : key r = k
    · have hr' : ¬key r = k' := fun h => hne (h.symm.trans hr)
      simp only [if_pos hr, hf, hr', decide_false]
      exact ih
    · simp only [if_neg hr]
      split
      · rfl
      · exact ih

end Edit

section Total

variable [AddCommGroup M] {p : α → Prop} [DecidablePred p] {w w' : α → M}

/-- The sum of a weight over the rows that satisfy a condition. -/
def total (p : α → Prop) [DecidablePred p] (w : α → M) (rows : List α) : M :=
  ((rows.filter p).map w).sum

@[simp] theorem total_nil : total p w [] = 0 := rfl

theorem total_cons (r : α) (rows : List α) :
    total p w (r :: rows) = (if p r then w r else 0) + total p w rows := by
  unfold total
  by_cases h : p r <;> simp [h]

@[simp] theorem total_append (rows rows' : List α) :
    total p w (rows ++ rows') = total p w rows + total p w rows' := by
  simp [total]

theorem total_congr (h : ∀ r ∈ rows, p r → w r = w' r) :
    total p w rows = total p w' rows := by
  unfold total
  refine congrArg List.sum (List.map_congr_left fun r hr => ?_)
  obtain ⟨hr, hp⟩ := List.mem_filter.1 hr
  exact h r hr (of_decide_eq_true hp)

theorem total_eq_zero (h : ∀ r ∈ rows, p r → w r = 0) : total p w rows = 0 := by
  unfold total
  refine List.sum_eq_zero fun x hx => ?_
  obtain ⟨r, hr, rfl⟩ := List.mem_map.1 hx
  obtain ⟨hr, hp⟩ := List.mem_filter.1 hr
  exact h r hr (of_decide_eq_true hp)

theorem total_add (rows : List α) :
    total p w rows + total p w' rows = total p (fun r => w r + w' r) rows :=
  List.sum_map_add.symm

theorem total_neg (rows : List α) : total p (fun r => -w r) rows = -total p w rows := by
  induction rows with
  | nil => simp
  | cons r rows ih =>
    rw [total_cons, total_cons, ih, neg_add]
    split <;> simp

theorem total_of_map {β : Type} {g : β → α} (rows : List β) :
    total p w (rows.map g) = total (fun r => p (g r)) (fun r => w (g r)) rows := by
  simp only [total, List.filter_map, List.map_map]
  rfl

theorem total_filter {q : α → Prop} [DecidablePred q] (rows : List α) :
    total p w (rows.filter q) = total p (fun r => if q r then w r else 0) rows := by
  induction rows with
  | nil => rfl
  | cons r rows ih =>
    rw [total_cons, ← ih]
    by_cases hq : q r
    · simp [hq, total_cons]
    · simp [hq]

theorem total_perm {rows' : List α} (h : rows.Perm rows') : total p w rows = total p w rows' :=
  ((h.filter _).map _).sum_eq

theorem total_map {g : α → α} (hp : ∀ r ∈ rows, p (g r) ↔ p r)
    (hw : ∀ r ∈ rows, p r → w' (g r) = w r) : total p w' (rows.map g) = total p w rows := by
  induction rows with
  | nil => rfl
  | cons r rows ih =>
    rw [List.map_cons, total_cons, total_cons,
      ih (fun s hs => hp s (List.mem_cons_of_mem r hs))
        fun s hs => hw s (List.mem_cons_of_mem r hs)]
    by_cases h : p r
    · rw [if_pos h, if_pos ((hp r (by simp)).2 h), hw r (by simp) h]
    · rw [if_neg h, if_neg fun h' => h ((hp r (by simp)).1 h')]

/-- A map over the rows that makes further rows satisfy the condition adds their total. -/
theorem total_map_add {q : α → Prop} [DecidablePred q] {g : α → α}
    (hp : ∀ r ∈ rows, p (g r) ↔ p r ∨ q r) (hpq : ∀ r ∈ rows, q r → ¬p r)
    (hw : ∀ r ∈ rows, w (g r) = w r) :
    total p w (rows.map g) = total p w rows + total q w rows := by
  induction rows with
  | nil => simp
  | cons r rows ih =>
    have hr : r ∈ r :: rows := List.mem_cons_self
    rw [List.map_cons, total_cons, total_cons, total_cons,
      ih (fun s hs => hp s (List.mem_cons_of_mem r hs))
        (fun s hs => hpq s (List.mem_cons_of_mem r hs))
        fun s hs => hw s (List.mem_cons_of_mem r hs), hw r hr]
    by_cases hq : q r
    · rw [if_pos ((hp r hr).2 (Or.inr hq)), if_neg (hpq r hr hq), if_pos hq]
      abel
    · by_cases h : p r
      · rw [if_pos ((hp r hr).2 (Or.inl h)), if_pos h, if_neg hq]
        abel
      · rw [if_neg fun h' => ((hp r hr).1 h').elim h hq, if_neg h, if_neg hq]
        abel

variable [DecidableEq κ] {key : α → κ} {k : κ} {f : α → α}

theorem total_key (hnd : (rows.map key).Nodup) (hr : r ∈ rows) :
    total (fun s => key s = key r) w rows = w r := by
  induction rows with
  | nil => exact absurd hr List.not_mem_nil
  | cons s rows ih =>
    rw [List.map_cons, List.nodup_cons] at hnd
    rw [total_cons]
    rcases List.mem_cons.1 hr with rfl | hr
    · have hrest : total (fun s => key s = key r) w rows = 0 :=
        total_eq_zero fun t ht heq => absurd (heq ▸ List.mem_map_of_mem ht) hnd.1
      rw [if_pos rfl, hrest, add_zero]
    · have hne : key s ≠ key r := fun h => hnd.1 (h ▸ List.mem_map_of_mem hr)
      rw [if_neg hne, zero_add, ih hnd.2 hr]

theorem total_editAt (hnd : (rows.map key).Nodup) (hr : r ∈ rows) (hp : p (f r) ↔ p r) :
    total p w (editAt key (key r) f rows) =
      total p w rows + if p r then w (f r) - w r else 0 := by
  induction rows with
  | nil => exact absurd hr List.not_mem_nil
  | cons s rows ih =>
    rw [List.map_cons, List.nodup_cons] at hnd
    rcases List.mem_cons.1 hr with rfl | hr
    · have hrest : editAt key (key r) f rows = rows := editAt_of_notMem hnd.1
      change total p w ((if key r = key r then f r else r) :: editAt key (key r) f rows) = _
      rw [if_pos rfl, hrest, total_cons, total_cons]
      by_cases h : p r
      · rw [if_pos h, if_pos h, if_pos (hp.2 h)]
        abel
      · rw [if_neg h, if_neg h, if_neg fun h' => h (hp.1 h')]
        abel
    · have hne : key s ≠ key r := fun h => hnd.1 (h ▸ List.mem_map_of_mem hr)
      change total p w ((if key s = key r then f s else s) :: editAt key (key r) f rows) = _
      rw [if_neg hne, total_cons, total_cons, ih hnd.2 hr, add_assoc]

end Total

end Rows
