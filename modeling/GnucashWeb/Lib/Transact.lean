import Mathlib.Data.List.Basic
import Mathlib.Order.Defs.Unbundled
import Mathlib.Tactic.Common

/-!
# Computations that fail as a whole

A computation over a state either completes, with a result and a new state, or fails and leaves no
state behind, as a database transaction does.  `Completes` is its big-step relation, inverted by
one simp lemma for each way to build a computation; `Preserves` says that every completed run
relates its end states to its start states by a preorder, and is closed under all of them.
-/

namespace Transact

variable {σ ε α β γ : Type}

/-- The computation completes from `s` with the result `a` and the state `s'`. -/
def Completes (m : StateT σ (Except ε) α) (s : σ) (a : α) (s' : σ) : Prop := m s = .ok (a, s')

def onlyIf (c : Prop) [Decidable c] (m : StateT σ (Except ε) PUnit) : StateT σ (Except ε) PUnit :=
  if c then m else pure ⟨⟩

def stateAfter (m : StateT σ (Except ε) α) (s : σ) : Option σ :=
  match m s with
  | .ok (_, s') => some s'
  | .error _ => none

/-- The state after a request: that of a computation that completes, else the state before. -/
def attempt (m : StateT σ (Except ε) α) (s : σ) : σ := (stateAfter m s).getD s

theorem stateAfter_eq_some {m : StateT σ (Except ε) α} {s s' : σ} :
    stateAfter m s = some s' ↔ ∃ a, Completes m s a s' := by
  unfold stateAfter Completes
  cases m s with
  | error e => simp
  | ok p => simp [Prod.ext_iff]

theorem attempt_of_error {m : StateT σ (Except ε) α} {s : σ} {e : ε} (h : m s = .error e) :
    attempt m s = s := by
  simp [attempt, stateAfter, h]

theorem attempt_induction {m : StateT σ (Except ε) α} {P : σ → Prop} {s : σ} (hP : P s)
    (hm : ∀ a s', Completes m s a s' → P s') : P (attempt m s) := by
  unfold attempt
  cases h : stateAfter m s with
  | none => exact hP
  | some s' =>
    obtain ⟨a, ha⟩ := stateAfter_eq_some.1 h
    exact hm a s' ha

theorem exists_completes {m : StateT σ (Except ε) α} {s s' : σ} (h : stateAfter m s = some s') :
    ∃ a, Completes m s a s' := by
  unfold stateAfter at h
  split at h
  · next a t hm =>
      cases h
      exact ⟨a, hm⟩
  · cases h

theorem exists_completes_of_any {m : StateT σ (Except ε) α} {s : σ} {p : α × σ → Bool}
    (h : (m s).toOption.any p = true) : ∃ a s', Completes m s a s' ∧ p (a, s') = true := by
  unfold Completes
  cases hm : m s with
  | error e =>
    rw [hm] at h
    cases h
  | ok q =>
    rw [hm] at h
    exact ⟨q.1, q.2, rfl, h⟩

section Inversion

variable {s s' : σ}

@[simp] theorem completes_pure {a b : α} :
    Completes (pure a : StateT σ (Except ε) α) s b s' ↔ b = a ∧ s' = s := by
  unfold Completes
  constructor
  · intro h
    cases h
    exact ⟨rfl, rfl⟩
  · rintro ⟨rfl, rfl⟩
    rfl

@[simp] theorem completes_bind {m : StateT σ (Except ε) α} {f : α → StateT σ (Except ε) β} {b : β} :
    Completes (m >>= f) s b s' ↔ ∃ a t, Completes m s a t ∧ Completes (f a) t b s' := by
  unfold Completes
  constructor
  · intro h
    change (m s >>= fun p => f p.1 p.2) = _ at h
    cases hm : m s with
    | error e =>
      rw [hm] at h
      cases h
    | ok p =>
      rw [hm] at h
      exact ⟨p.1, p.2, rfl, h⟩
  · rintro ⟨a, t, hm, hf⟩
    change (m s >>= fun p => f p.1 p.2) = _
    rw [hm]
    exact hf

@[simp] theorem completes_map {m : StateT σ (Except ε) α} {f : α → β} {b : β} :
    Completes (f <$> m) s b s' ↔ ∃ a, Completes m s a s' ∧ b = f a := by
  rw [map_eq_pure_bind, completes_bind]
  constructor
  · rintro ⟨a, t, hm, hp⟩
    obtain ⟨rfl, rfl⟩ := completes_pure.1 hp
    exact ⟨a, hm, rfl⟩
  · rintro ⟨a, hm, rfl⟩
    exact ⟨a, s', hm, completes_pure.2 ⟨rfl, rfl⟩⟩

@[simp] theorem completes_get {a : σ} :
    Completes (get : StateT σ (Except ε) σ) s a s' ↔ a = s ∧ s' = s :=
  completes_pure (ε := ε)

theorem completes_get_bind {f : σ → StateT σ (Except ε) β} {b : β} :
    Completes (get >>= f) s b s' ↔ Completes (f s) s b s' := by
  simp only [completes_bind, completes_get]
  constructor
  · rintro ⟨a, t, ⟨rfl, rfl⟩, h⟩
    exact h
  · exact fun h => ⟨s, s, ⟨rfl, rfl⟩, h⟩

@[simp] theorem completes_set {t : σ} {u : PUnit} :
    Completes (set t : StateT σ (Except ε) PUnit) s u s' ↔ s' = t := by
  unfold Completes
  constructor
  · intro h
    cases h
    rfl
  · rintro rfl
    rfl

@[simp] theorem completes_modify {f : σ → σ} {u : PUnit} :
    Completes (modify f : StateT σ (Except ε) PUnit) s u s' ↔ s' = f s := by
  unfold Completes
  constructor
  · intro h
    cases h
    rfl
  · rintro rfl
    rfl

@[simp] theorem completes_throw {e : ε} {a : α} :
    Completes (throw e : StateT σ (Except ε) α) s a s' ↔ False := by
  unfold Completes
  constructor
  · intro h
    cases h
  · exact False.elim

@[simp] theorem completes_liftExcept {x : Except ε α} {a : α} :
    Completes (liftM x : StateT σ (Except ε) α) s a s' ↔ x = .ok a ∧ s' = s := by
  unfold Completes
  cases x with
  | error e =>
    constructor
    · intro h
      cases h
    · rintro ⟨h, -⟩
      cases h
  | ok b =>
    constructor
    · intro h
      cases h
      exact ⟨rfl, rfl⟩
    · rintro ⟨h, rfl⟩
      cases h
      rfl

theorem completes_ite {c : Prop} [Decidable c] {m m' : StateT σ (Except ε) α} {a : α} :
    Completes (if c then m else m') s a s' ↔
      c ∧ Completes m s a s' ∨ ¬c ∧ Completes m' s a s' := by
  by_cases h : c <;> simp [h]

theorem completes_onlyIf {c : Prop} [Decidable c] {m : StateT σ (Except ε) PUnit} {u : PUnit} :
    Completes (onlyIf c m) s u s' ↔ c ∧ Completes m s u s' ∨ ¬c ∧ s' = s := by
  unfold onlyIf
  rw [completes_ite, completes_pure]
  simp

end Inversion

/-! ## Loops -/

section Loops

variable {s s' : σ}

theorem Completes.foldlM_induction {f : β → α → StateT σ (Except ε) β} {P : β → σ → Prop}
    {l : List α} {b b' : β} (h : Completes (l.foldlM f b) s b' s') (hP : P b s)
    (hstep : ∀ a ∈ l, ∀ b t b' t', P b t → Completes (f b a) t b' t' → P b' t') : P b' s' := by
  induction l generalizing b s with
  | nil =>
    obtain ⟨rfl, rfl⟩ := completes_pure.1 h
    exact hP
  | cons a l ih =>
    obtain ⟨b₁, t, h₁, h₂⟩ := completes_bind.1 h
    exact ih h₂ (hstep a (by simp) b s b₁ t hP h₁) fun a ha =>
      hstep a (List.mem_cons_of_mem _ ha)

theorem Completes.forM_induction {f : α → StateT σ (Except ε) PUnit} {P : σ → Prop} {l : List α}
    {u : PUnit} (h : Completes (l.forM f) s u s') (hP : P s)
    (hstep : ∀ a ∈ l, ∀ t u t', P t → Completes (f a) t u t' → P t') : P s' := by
  induction l generalizing s with
  | nil =>
    obtain ⟨-, rfl⟩ := completes_pure.1 h
    exact hP
  | cons a l ih =>
    obtain ⟨u₁, t, h₁, h₂⟩ := completes_bind.1 h
    exact ih h₂ (hstep a (by simp) s u₁ t hP h₁) fun a ha => hstep a (List.mem_cons_of_mem _ ha)

theorem Completes.forM_checks {check : α → Except ε PUnit} {l : List α} {u : PUnit}
    (h : Completes (l.forM fun a => (liftM (check a) : StateT σ (Except ε) PUnit)) s u s') :
    s' = s := by
  refine h.forM_induction (P := fun t => t = s) rfl ?_
  rintro a - t _ t' rfl ha
  exact (completes_liftExcept.1 ha).2

theorem Completes.mapM_induction {f : α → StateT σ (Except ε) β} {R : List α → σ → σ → Prop}
    (hnil : ∀ s, R [] s s)
    (hcons : ∀ a l b s t u, Completes (f a) s b t → R l t u → R (a :: l) s u)
    {l : List α} {bs : List β} (h : Completes (l.mapM f) s bs s') : R l s s' := by
  induction l generalizing s bs with
  | nil =>
    obtain ⟨-, rfl⟩ := completes_pure.1 h
    exact hnil _
  | cons a l ih =>
    rw [List.mapM_cons] at h
    simp only [completes_bind, completes_pure] at h
    obtain ⟨b, t, hb, _, _, hl, -, rfl⟩ := h
    exact hcons a l b _ t _ hb (ih hl)

end Loops

/-! ## Checks without a state -/

theorem except_bind_eq_ok {x : Except ε α} {f : α → Except ε β} {b : β} :
    x >>= f = .ok b ↔ ∃ a, x = .ok a ∧ f a = .ok b := by
  cases x with
  | error e =>
    constructor
    · intro h
      cases h
    · rintro ⟨a, h, -⟩
      cases h
  | ok a =>
    constructor
    · exact fun h => ⟨a, rfl, h⟩
    · rintro ⟨a', h, h'⟩
      cases h
      exact h'

theorem forall_eq_ok_iff {x : Except ε α} {a : α} (h : x = .ok a) (p : α → Prop) :
    (∀ b, x = .ok b → p b) ↔ p a := by
  constructor
  · exact fun hp => hp a h
  · intro hp b hb
    rw [h] at hb
    cases hb
    exact hp

theorem check_of_forM_eq_ok {check : α → Except ε Unit} {l : List α} {u : Unit}
    (h : l.forM check = .ok u) : ∀ a ∈ l, check a = .ok () := by
  induction l with
  | nil => simp
  | cons a l ih =>
    obtain ⟨_, ha, hl⟩ := except_bind_eq_ok.1 h
    intro b hb
    rcases List.mem_cons.1 hb with rfl | hb
    · exact ha
    · exact ih hl b hb

theorem forall₂_of_mapM_eq_ok {f : α → Except ε β} {l : List α} {bs : List β}
    (h : l.mapM f = .ok bs) : List.Forall₂ (fun a b => f a = .ok b) l bs := by
  induction l generalizing bs with
  | nil =>
    cases h
    exact List.Forall₂.nil
  | cons a l ih =>
    rw [List.mapM_cons] at h
    obtain ⟨b, hb, h⟩ := except_bind_eq_ok.1 h
    obtain ⟨rest, hrest, h⟩ := except_bind_eq_ok.1 h
    cases h
    exact List.Forall₂.cons hb (ih hrest)

theorem forall₂_of_mapM_eq_some {f : α → Option β} {l : List α} {bs : List β}
    (h : l.mapM f = some bs) : List.Forall₂ (fun a b => f a = some b) l bs := by
  induction l generalizing bs with
  | nil =>
    cases h
    exact List.Forall₂.nil
  | cons a l ih =>
    rw [List.mapM_cons, Option.bind_eq_bind, Option.bind_eq_some_iff] at h
    obtain ⟨b, hb, h⟩ := h
    rw [Option.bind_eq_bind, Option.bind_eq_some_iff] at h
    obtain ⟨rest, hrest, h⟩ := h
    cases h
    exact List.Forall₂.cons hb (ih hrest)

theorem exists_mapM_eq_some {f : α → Option β} {l : List α} (h : ∀ a ∈ l, ∃ b, f a = some b) :
    ∃ bs, l.mapM f = some bs := by
  induction l with
  | nil => exact ⟨[], rfl⟩
  | cons a l ih =>
    rw [List.forall_mem_cons] at h
    obtain ⟨b, hb⟩ := h.1
    obtain ⟨bs, hbs⟩ := ih h.2
    exact ⟨b :: bs, by rw [List.mapM_cons, hb, hbs]; rfl⟩

/-! ## Preservation -/

/-- Every completed run relates the state before to the state after. -/
def Preserves (R : σ → σ → Prop) (m : StateT σ (Except ε) α) : Prop :=
  ∀ s a s', Completes m s a s' → R s s'

variable {R R' : σ → σ → Prop}

theorem Preserves.mono {m : StateT σ (Except ε) α} (h : Preserves R m)
    (hR : ∀ s s', R s s' → R' s s') : Preserves R' m :=
  fun s a s' hm => hR s s' (h s a s' hm)

section Preorder

variable [IsPreorder σ R]

theorem preserves_pure (a : α) : Preserves R (pure a : StateT σ (Except ε) α) := by
  intro s b s' h
  obtain ⟨-, rfl⟩ := completes_pure.1 h
  exact refl _

theorem Preserves.bind {m : StateT σ (Except ε) α} {f : α → StateT σ (Except ε) β}
    (hm : Preserves R m) (hf : ∀ a, Preserves R (f a)) : Preserves R (m >>= f) := by
  intro s b s' h
  obtain ⟨a, t, h₁, h₂⟩ := completes_bind.1 h
  exact IsTrans.trans _ _ _ (hm s a t h₁) (hf a t b s' h₂)

theorem preserves_get : Preserves R (get : StateT σ (Except ε) σ) := by
  intro s a s' h
  obtain ⟨-, rfl⟩ := completes_get.1 h
  exact refl _

omit [IsPreorder σ R] in
theorem preserves_throw (e : ε) : Preserves R (throw e : StateT σ (Except ε) α) := by
  intro s a s' h
  exact (completes_throw.1 h).elim

omit [IsPreorder σ R] in
theorem preserves_modify {f : σ → σ} (h : ∀ s, R s (f s)) :
    Preserves R (modify f : StateT σ (Except ε) PUnit) := by
  intro s a s' hs
  obtain rfl := completes_modify.1 hs
  exact h s

omit [IsPreorder σ R] in
theorem preserves_ite {c : Prop} [Decidable c] {m m' : StateT σ (Except ε) α}
    (h : Preserves R m) (h' : Preserves R m') : Preserves R (if c then m else m') := by
  split
  · exact h
  · exact h'

theorem preserves_onlyIf {c : Prop} [Decidable c] {m : StateT σ (Except ε) PUnit}
    (h : c → Preserves R m) : Preserves R (onlyIf c m) := by
  unfold onlyIf
  split
  · next hc => exact h hc
  · exact preserves_pure _

theorem preserves_option_forM {f : α → StateT σ (Except ε) PUnit} {o : Option α}
    (h : ∀ a ∈ o, Preserves R (f a)) : Preserves R (o.forM f) := by
  cases o with
  | none => exact preserves_pure _
  | some a => exact h a rfl

theorem preserves_forM {f : α → StateT σ (Except ε) PUnit} {l : List α}
    (h : ∀ a ∈ l, Preserves R (f a)) : Preserves R (l.forM f) := by
  induction l with
  | nil => exact preserves_pure _
  | cons a l ih =>
    exact (h a (by simp)).bind fun _ => ih fun b hb => h b (List.mem_cons_of_mem a hb)

theorem preserves_foldlM {f : β → α → StateT σ (Except ε) β} {l : List α}
    (h : ∀ b, ∀ a ∈ l, Preserves R (f b a)) (b : β) : Preserves R (l.foldlM f b) := by
  intro s b' s' hs
  refine hs.foldlM_induction (P := fun _ t => R s t) (refl _) ?_
  intro a ha b t b' t' hst ht
  exact IsTrans.trans _ _ _ hst (h b a ha t b' t' ht)

end Preorder

end Transact

/-!
## The errors of a computation

`FailsOnly E m` says that every error of a computation satisfies `E`, and is closed under the ways to
build a computation.
-/

namespace Transact

variable {σ ε α β : Type} {E : ε → Prop}

/-- Every error of the computation satisfies `E`. -/
def FailsOnly (E : ε → Prop) (m : StateT σ (Except ε) α) : Prop := ∀ s e, m s = .error e → E e

theorem failsOnly_pure (a : α) : FailsOnly E (pure a : StateT σ (Except ε) α) := by
  intro s e h
  cases h

theorem failsOnly_get : FailsOnly E (get : StateT σ (Except ε) σ) := by
  intro s e h
  cases h

theorem failsOnly_set (t : σ) : FailsOnly E (set t : StateT σ (Except ε) PUnit) := by
  intro s e h
  cases h

theorem failsOnly_modify (f : σ → σ) : FailsOnly E (modify f : StateT σ (Except ε) PUnit) := by
  intro s e h
  cases h

theorem failsOnly_throw {e : ε} (h : E e) : FailsOnly E (throw e : StateT σ (Except ε) α) := by
  intro s e' he
  cases he
  exact h

theorem failsOnly_liftM {x : Except ε α} (h : ∀ e, x = .error e → E e) :
    FailsOnly E (liftM x : StateT σ (Except ε) α) := by
  intro s e he
  cases x with
  | error e' =>
    cases he
    exact h e rfl
  | ok a => cases he

theorem FailsOnly.bind {m : StateT σ (Except ε) α} {f : α → StateT σ (Except ε) β}
    (hm : FailsOnly E m) (hf : ∀ a, FailsOnly E (f a)) : FailsOnly E (m >>= f) := by
  intro s e h
  change (m s >>= fun p => f p.1 p.2) = _ at h
  cases hms : m s with
  | error e' =>
    rw [hms] at h
    cases h
    exact hm s e hms
  | ok p =>
    rw [hms] at h
    exact hf p.1 p.2 e h

theorem failsOnly_ite {c : Prop} [Decidable c] {m m' : StateT σ (Except ε) α}
    (h : FailsOnly E m) (h' : FailsOnly E m') : FailsOnly E (if c then m else m') := by
  split
  · exact h
  · exact h'

theorem failsOnly_forM {f : α → StateT σ (Except ε) PUnit} {l : List α}
    (h : ∀ a ∈ l, FailsOnly E (f a)) : FailsOnly E (l.forM f) := by
  induction l with
  | nil => exact failsOnly_pure _
  | cons a l ih =>
    exact (h a (by simp)).bind fun _ => ih fun b hb => h b (List.mem_cons_of_mem a hb)

theorem liftM_bind_eq {x : Except ε α} {f : α → StateT σ (Except ε) β} {s : σ} :
    ((liftM x : StateT σ (Except ε) α) >>= f) s =
      match x with
      | .error e => .error e
      | .ok a => f a s := by
  cases x <;> rfl

end Transact
