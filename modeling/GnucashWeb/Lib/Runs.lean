import Mathlib.Data.List.Basic
import Mathlib.Data.Option.Basic
import Mathlib.Tactic.Common

/-!
# Runs of labelled steps

A system is a function `next` that gives the state after a labelled step, or nothing when the step
is not enabled; the labels carry every choice.  `run` takes a list of steps, and `Along` says that
each of them meets a condition on the state it finds.  What such steps keep, such runs keep
(`invariant_along`).
-/

namespace Runs

variable {σ ℓ : Type} {next : ℓ → σ → Option σ}

/-- The state after some steps, when all of them are enabled. -/
def run (next : ℓ → σ → Option σ) (steps : List ℓ) (s : σ) : Option σ :=
  steps.foldlM (fun s l => next l s) s

@[simp] theorem run_nil (s : σ) : run next [] s = some s := rfl

variable {steps : List ℓ} {s s' : σ} {C : ℓ → σ → Prop} {P : σ → Prop}

theorem run_cons_eq_some {l : ℓ} :
    run next (l :: steps) s = some s' ↔ ∃ t, next l s = some t ∧ run next steps t = some s' :=
  Option.bind_eq_some_iff

theorem run_append (steps more : List ℓ) (s : σ) :
    run next (steps ++ more) s = (run next steps s).bind (run next more) :=
  List.foldlM_append ..

/-- Every step of a run meets a condition on the state that it finds. -/
def Along (next : ℓ → σ → Option σ) (C : ℓ → σ → Prop) : List ℓ → σ → Prop
  | [], _ => True
  | l :: rest, s => C l s ∧ ∀ t ∈ next l s, Along next C rest t

instance decidableAlong {C : ℓ → σ → Prop} [∀ l s, Decidable (C l s)] :
    ∀ steps s, Decidable (Along next C steps s)
  | [], _ => isTrue trivial
  | l :: rest, s =>
    let _ : Decidable (∀ t ∈ next l s, Along next C rest t) :=
      match next l s with
      | none => isTrue (by simp)
      | some t => @decidable_of_iff _ (Along next C rest t) (by simp) (decidableAlong rest t)
    inferInstanceAs (Decidable (C l s ∧ ∀ t ∈ next l s, Along next C rest t))

theorem along_of_forall {p : ℓ → Prop} (h : ∀ l ∈ steps, p l) (s : σ) :
    Along next (fun l _ => p l) steps s := by
  induction steps generalizing s with
  | nil => trivial
  | cons l rest ih =>
    exact ⟨h l (by simp), fun t _ => ih (fun l hl => h l (List.mem_cons_of_mem _ hl)) t⟩

/-- What every step keeps whose condition holds, a run keeps whose steps all meet it. -/
theorem invariant_along (hstep : ∀ l s s', C l s → next l s = some s' → P s → P s')
    (hrun : run next steps s = some s') (halong : Along next C steps s) (hP : P s) : P s' := by
  induction steps generalizing s with
  | nil =>
    cases hrun
    exact hP
  | cons l rest ih =>
    obtain ⟨t, hl, hrest⟩ := run_cons_eq_some.1 hrun
    exact ih hrest (halong.2 t hl) (hstep l s t halong.1 hl hP)

/-- A condition that implies another wherever an invariant of its steps holds implies it along a
run. -/
theorem along_imp {D : ℓ → σ → Prop} (hstep : ∀ l s s', C l s → next l s = some s' → P s → P s')
    (h : ∀ l s, P s → C l s → D l s) (hP : P s)
    (halong : Along next C steps s) : Along next D steps s := by
  induction steps generalizing s with
  | nil => trivial
  | cons l rest ih =>
    refine ⟨h l s hP halong.1, fun t ht => ?_⟩
    exact ih (hstep l s t halong.1 ht hP) (halong.2 t ht)

theorem along_congr {D : ℓ → σ → Prop}
    (hstep : ∀ l s s', next l s = some s' → P s → P s') (h : ∀ l s, P s → (C l s ↔ D l s))
    (steps : List ℓ) (hP : P s) : Along next C steps s ↔ Along next D steps s :=
  ⟨along_imp (fun l s s' _ => hstep l s s') (fun l s hs => (h l s hs).1) hP,
    along_imp (fun l s s' _ => hstep l s s') (fun l s hs => (h l s hs).2) hP⟩

theorem invariant (hstep : ∀ l s s', next l s = some s' → P s → P s')
    (hrun : run next steps s = some s') (hP : P s) : P s' := by
  have halong : Along next (fun _ _ => True) steps s := along_of_forall (fun _ _ => trivial) s
  exact invariant_along (fun l s s' _ => hstep l s s') hrun halong hP

/-- What a step keeps exactly when it meets a condition, a run keeps exactly when all its steps meet
it. -/
theorem holds_iff_along {I Q : σ → Prop} (hI : ∀ l s s', next l s = some s' → I s → I s')
    (hQ : ∀ l s s', next l s = some s' → I s → (Q s' ↔ Q s ∧ C l s))
    (hrun : run next steps s = some s') (hs : I s) : Q s' ↔ Q s ∧ Along next C steps s := by
  induction steps generalizing s with
  | nil =>
    cases hrun
    exact (and_iff_left trivial).symm
  | cons l rest ih =>
    obtain ⟨t, hl, hrest⟩ := run_cons_eq_some.1 hrun
    rw [ih hrest (hI l s t hl hs), hQ l s t hl hs, and_assoc]
    simp [Along, hl]

end Runs
