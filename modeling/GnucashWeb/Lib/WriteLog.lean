import Mathlib.Data.List.Basic

/-!
# Logs of owned writes

A log takes writes on top and loses, whenever an owner withdraws, every write of that owner, wherever
it stands.  `foldl_log`: what is left are the writes whose owner does not withdraw after them.
`Thins` relates a log to one that keeps only the last of successive writes of one owner; it is kept
by both events and keeps the top.
-/

namespace WriteLog

variable {W O : Type}

/-- What happens to a log: a write, or the withdrawal of an owner. -/
inductive Event (W O : Type)
  | write (w : W)
  | withdraw (o : O)

section Standing

variable [DecidableEq O] (owner : W → Option O)

/-- The log after an event, oldest write first. -/
def log (ws : List W) : Event W O → List W
  | .write w => ws ++ [w]
  | .withdraw o => ws.filter fun w => owner w ≠ some o

def withdrawn (events : List (Event W O)) (w : W) : Bool :=
  events.any fun
    | .write _ => false
    | .withdraw o => owner w = some o

/-- The writes of some events whose owner does not withdraw after them. -/
def standing : List (Event W O) → List W
  | [] => []
  | .write w :: events => if withdrawn owner events w then standing events else w :: standing events
  | .withdraw _ :: events => standing events

variable {owner}

theorem foldl_log (events : List (Event W O)) (ws : List W) :
    events.foldl (log owner) ws =
      (ws.filter fun w => !withdrawn owner events w) ++ standing owner events := by
  induction events generalizing ws with
  | nil => simp [withdrawn, standing]
  | cons e events ih =>
    rw [List.foldl_cons, ih]
    cases e with
    | write v =>
      have hcons (w : W) : withdrawn owner (.write v :: events) w =
          withdrawn owner events w := rfl
      simp only [log, hcons, standing, List.filter_append, List.append_assoc]
      by_cases hv : withdrawn owner events v <;> simp [hv]
    | withdraw o =>
      simp only [log, standing, List.filter_filter]
      congr 1
      refine List.filter_congr fun w _ => ?_
      by_cases hw : owner w = some o <;> simp [withdrawn, hw]

/-- A write that stands is one of the events, and its owner does not withdraw after it. -/
theorem exists_of_mem_standing {events : List (Event W O)} {w : W}
    (h : w ∈ standing owner events) :
    ∃ before after, events = before ++ .write w :: after ∧ withdrawn owner after w = false := by
  induction events with
  | nil => cases h
  | cons e events ih =>
    cases e with
    | withdraw o =>
      obtain ⟨before, after, rfl, hw⟩ := ih h
      exact ⟨.withdraw o :: before, after, rfl, hw⟩
    | write v =>
      rw [standing] at h
      by_cases hv : withdrawn owner events v
      · rw [if_pos hv] at h
        obtain ⟨before, after, rfl, hw⟩ := ih h
        exact ⟨.write v :: before, after, rfl, hw⟩
      · rw [if_neg hv] at h
        rcases List.mem_cons.1 h with rfl | h
        · exact ⟨[], events, rfl, by simpa using hv⟩
        · obtain ⟨before, after, rfl, hw⟩ := ih h
          exact ⟨.write v :: before, after, rfl, hw⟩

/-- After a withdrawal that no write of the owner follows, no write of the owner is left. -/
theorem owner_ne_of_mem_log {before after : List (Event W O)} {o : O} {ws : List W} {w : W}
    (hafter : ∀ v, .write v ∈ after → owner v ≠ some o)
    (h : w ∈ (before ++ .withdraw o :: after).foldl (log owner) ws) : owner w ≠ some o := by
  rw [List.foldl_append, List.foldl_cons, foldl_log, List.mem_append] at h
  rcases h with h | h
  · have hkept := List.mem_of_mem_filter h
    simpa [log] using (List.mem_filter.1 hkept).2
  · obtain ⟨front, back, rfl, -⟩ := exists_of_mem_standing h
    exact hafter w (by simp)

end Standing

/-! ## Logs without successive writes of one owner -/

/-- The first log is the second without some writes that a write of the same owner follows. -/
inductive Thins (owner : W → Option O) : List W → List W → Prop
  | nil : Thins owner [] []
  | keep {s t : List W} (w : W) : Thins owner s t → Thins owner (w :: s) (w :: t)
  | drop {s t : List W} {v w : W} : owner v = owner w → Thins owner (w :: s) t →
      Thins owner (w :: s) (v :: t)

namespace Thins

variable {owner : W → Option O} {s t : List W}

theorem refl (ws : List W) : Thins owner ws ws := by
  induction ws with
  | nil => exact .nil
  | cons w ws ih => exact .keep w ih

theorem eq_nil (h : Thins owner [] t) : t = [] := by
  cases h with
  | nil => rfl

theorem ne_nil {w : W} (h : Thins owner (w :: s) t) : t ≠ [] := by
  cases h <;> exact List.cons_ne_nil _ _

theorem getLast?_eq (h : Thins owner s t) : s.getLast? = t.getLast? := by
  induction h with
  | nil => rfl
  | keep w h ih => rw [List.getLast?_cons, List.getLast?_cons, ih]
  | drop _ h ih =>
    rw [ih, List.getLast?_cons]
    cases ht : List.getLast? _ with
    | none => exact absurd (List.getLast?_eq_none_iff.1 ht) h.ne_nil
    | some x => rfl

theorem concat (h : Thins owner s t) (w : W) : Thins owner (s ++ [w]) (t ++ [w]) := by
  induction h with
  | nil => exact refl [w]
  | keep v _ ih => exact .keep v ih
  | drop hv _ ih => exact .drop hv ih

theorem replaceTop {top w : W} (h : Thins owner (s ++ [top]) t) (hw : owner top = owner w) :
    Thins owner (s ++ [w]) (t ++ [w]) := by
  generalize hs : s ++ [top] = s' at h
  induction h generalizing s with
  | nil => simp at hs
  | keep v h ih =>
    cases s with
    | nil =>
      obtain ⟨rfl, rfl⟩ := List.cons.inj hs
      rw [h.eq_nil]
      exact .drop hw (refl [w])
    | cons x s =>
      obtain ⟨rfl, rfl⟩ := List.cons.inj hs
      exact .keep x (ih rfl)
  | drop hv h ih =>
    cases s with
    | nil =>
      obtain ⟨rfl, rfl⟩ := List.cons.inj hs
      exact .drop (hv.trans hw) (ih (s := []) rfl)
    | cons x s =>
      obtain ⟨rfl, rfl⟩ := List.cons.inj hs
      exact .drop hv (ih (s := x :: s) rfl)

variable [DecidableEq O]

theorem filter (h : Thins owner s t) (o : O) :
    Thins owner (s.filter fun w => owner w ≠ some o) (t.filter fun w => owner w ≠ some o) := by
  induction h with
  | nil => exact .nil
  | keep w _ ih =>
    by_cases hw : owner w = some o
    · simpa [hw] using ih
    · simpa [hw] using ih.keep w
  | @drop s t v w hv _ ih =>
    by_cases hw : owner w = some o
    · simpa [hv.trans hw, hw] using ih
    · have hv' : owner v ≠ some o := fun h => hw (hv.symm.trans h)
      simp only [List.filter_cons, hw, hv', ne_eq, not_false_eq_true, decide_true, if_true] at ih ⊢
      exact .drop hv ih

end Thins

end WriteLog
