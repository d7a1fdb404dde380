import Mathlib.Data.Finset.Card
import Mathlib.Data.Set.Basic
import Mathlib.Logic.Function.Basic
import Mathlib.Logic.Relation

/-!
# Forests

A forest as the partial function from a node to its parent.  `Acyclic.update` says when a node may be
hung up somewhere else: under a node of a set that is closed under parents and does not have it.
`rootWithin` climbs to the root of a node, which stays when a closed set keeps its parents
(`rootWithin_of_agree`) and is never further up than there are parents (`Acyclic.rootWithin_card`).
-/

namespace Forest

open Relation (TransGen)

variable {α : Type} {f g : α → Option α} {V : Set α}

/-! ## Cycles -/

def IsParent (f : α → Option α) (a b : α) : Prop := f a = some b

def Acyclic (f : α → Option α) : Prop := ∀ a, ¬TransGen (IsParent f) a a

variable {a b : α}

theorem onCycle_parent (h : TransGen (IsParent f) a a) (hab : f a = some b) :
    TransGen (IsParent f) b b := by
  obtain ⟨c, hac, hca⟩ := TransGen.head'_iff.1 h
  obtain rfl : c = b := Option.some_inj.1 (hac.symm.trans hab)
  exact TransGen.tail' hca hab

def Closed (f : α → Option α) (V : Set α) : Prop := ∀ a ∈ V, ∀ b, f a = some b → b ∈ V

theorem transGen_of_mem (hV : Closed f V) (hfg : ∀ a ∈ V, g a = f a) (ha : a ∈ V)
    (h : TransGen (IsParent g) a b) : TransGen (IsParent f) a b ∧ b ∈ V := by
  induction h with
  | @single b hab =>
    have hstep : f a = some b := (hfg a ha).symm.trans hab
    exact ⟨.single hstep, hV a ha b hstep⟩
  | @tail b c _ hbc ih =>
    have hstep : f b = some c := (hfg b ih.2).symm.trans hbc
    exact ⟨ih.1.tail hstep, hV b ih.2 c hstep⟩

theorem acyclic_of_lt (rank : α → ℕ) (h : ∀ a b, f a = some b → rank b < rank a) : Acyclic f := by
  have hfall {a b : α} (hab : TransGen (IsParent f) a b) : rank b < rank a := by
    induction hab with
    | single hab => exact h _ _ hab
    | tail _ hbc ih => exact (h _ _ hbc).trans ih
  exact fun a ha => (hfall ha).false

variable [DecidableEq α] {x : α} {dest : Option α}

/-- A way up that ends outside of the set under which a node is hung up does not use its new edge. -/
theorem transGen_of_notMem (hV : Closed f V) (hx : x ∉ V) (hdest : ∀ p ∈ dest, p ∈ V)
    (hb : b ∉ V) (h : TransGen (IsParent (Function.update f x dest)) a b) :
    TransGen (IsParent f) a b := by
  have hstep {c d : α} (hcd : Function.update f x dest c = some d) (hd : d ∉ V) :
      f c = some d ∧ c ∉ V := by
    have hcx : c ≠ x := by
      rintro rfl
      rw [Function.update_self] at hcd
      exact hd (hdest d hcd)
    rw [Function.update_of_ne hcx] at hcd
    exact ⟨hcd, fun hc => hd (hV c hc d hcd)⟩
  induction h with
  | single hab => exact .single (hstep hab hb).1
  | tail _ hbc ih =>
    obtain ⟨hold, hnot⟩ := hstep hbc hb
    exact (ih hnot).tail hold

theorem Acyclic.update (hf : Acyclic f) (hV : Closed f V) (hx : x ∉ V) (hdest : ∀ p ∈ dest, p ∈ V) :
    Acyclic (Function.update f x dest) := by
  intro a h
  by_cases ha : a ∈ V
  · have hsame (b : α) (hb : b ∈ V) : Function.update f x dest b = f b :=
      Function.update_of_ne (ne_of_mem_of_not_mem hb hx) ..
    exact hf a (transGen_of_mem hV hsame ha h).1
  · exact hf a (transGen_of_notMem hV hx hdest ha h)

/-! ## Roots -/

section Roots

omit [DecidableEq α]

/-- The root above a node, when it is at most so many steps up. -/
def rootWithin (f : α → Option α) : ℕ → α → Option α
  | 0, a =>
    match f a with
    | none => some a
    | some _ => none
  | n + 1, a =>
    match f a with
    | none => some a
    | some b => rootWithin f n b

theorem rootWithin_zero :
    rootWithin f 0 a = match f a with | none => some a | some _ => none := rfl

variable {n : ℕ} {r : α}

theorem rootWithin_add_one :
    rootWithin f (n + 1) a = match f a with | none => some a | some b => rootWithin f n b := rfl

theorem rootWithin_of_root (h : f a = none) : rootWithin f n a = some a := by
  cases n <;> simp [rootWithin_zero, rootWithin_add_one, h]

theorem rootWithin_succ (h : f a = some b) :
    rootWithin f (n + 1) a = rootWithin f n b := by
  rw [rootWithin_add_one, h]

theorem rootWithin_mono {m : ℕ} (h : rootWithin f m a = some r) (hmn : m ≤ n) :
    rootWithin f n a = some r := by
  induction m generalizing n a with
  | zero =>
    cases hfa : f a with
    | none => rwa [rootWithin_of_root hfa] at h ⊢
    | some b => simp [rootWithin_zero, hfa] at h
  | succ m ih =>
    obtain ⟨n, rfl⟩ := Nat.exists_eq_add_of_le' hmn
    rw [Nat.add_left_comm] at hmn ⊢
    cases hfa : f a with
    | none => rwa [rootWithin_of_root hfa] at h ⊢
    | some b =>
      rw [← Nat.add_assoc, rootWithin_succ hfa]
      rw [rootWithin_succ hfa] at h
      exact ih h (by omega)

theorem rootWithin_parent (h : rootWithin f n a = some r) (hab : f a = some b) :
    rootWithin f n b = some r := by
  cases n with
  | zero => simp [rootWithin_zero, hab] at h
  | succ n =>
    rw [rootWithin_succ hab] at h
    exact rootWithin_mono h n.le_succ

theorem rootWithin_of_agree (hV : Closed f V) (hfg : ∀ a ∈ V, g a = f a)
    (ha : a ∈ V) : rootWithin g n a = rootWithin f n a := by
  have hga : g a = f a := hfg a ha
  cases hfa : f a with
  | none => rw [rootWithin_of_root hfa, rootWithin_of_root (hga.trans hfa)]
  | some b =>
    induction n generalizing a b with
    | zero => simp [rootWithin_zero, hfa, hga.trans hfa]
    | succ n ih =>
      rw [rootWithin_succ hfa, rootWithin_succ (hga.trans hfa)]
      have hb : b ∈ V := hV a ha b hfa
      cases hfb : f b with
      | none => rw [rootWithin_of_root hfb, rootWithin_of_root ((hfg b hb).trans hfb)]
      | some c => exact ih hb (hfg b hb) c hfb

/-- In a forest whose parents are among so many nodes every root is at most so many steps up. -/
theorem Acyclic.rootWithin_card (hf : Acyclic f) (nodes : Finset α)
    (hnodes : ∀ a b, f a = some b → b ∈ nodes) (a : α) :
    ∃ r, rootWithin f nodes.card a = some r := by
  classical
  have hclimb (n : ℕ) (a : α) (hn : (nodes.filter (TransGen (IsParent f) a)).card ≤ n) :
      ∃ r, rootWithin f n a = some r := by
    induction n generalizing a with
    | zero =>
      cases hfa : f a with
      | none => exact ⟨a, rootWithin_of_root hfa⟩
      | some b =>
        have hb : b ∈ nodes.filter (TransGen (IsParent f) a) :=
          Finset.mem_filter.2 ⟨hnodes a b hfa, .single hfa⟩
        rw [Finset.card_eq_zero.1 (Nat.le_zero.1 hn)] at hb
        exact absurd hb (Finset.notMem_empty b)
    | succ n ih =>
      cases hfa : f a with
      | none => exact ⟨a, rootWithin_of_root hfa⟩
      | some b =>
        -- What is above the parent is above the node, and the parent is not above itself.
        have hfewer : nodes.filter (TransGen (IsParent f) b) ⊂
            nodes.filter (TransGen (IsParent f) a) := by
          refine Finset.ssubset_iff_subset_ne.2 ⟨fun x hx => ?_, fun heq => ?_⟩
          · obtain ⟨hx, hbx⟩ := Finset.mem_filter.1 hx
            exact Finset.mem_filter.2 ⟨hx, .head hfa hbx⟩
          · have hb : b ∈ nodes.filter (TransGen (IsParent f) a) :=
              Finset.mem_filter.2 ⟨hnodes a b hfa, .single hfa⟩
            rw [← heq] at hb
            exact hf b (Finset.mem_filter.1 hb).2
        have hcard := Finset.card_lt_card hfewer
        rw [rootWithin_succ hfa]
        exact ih b (by omega)
  exact hclimb _ a (Finset.card_filter_le _ _)

open Relation (ReflTransGen)

/-- A node and the nodes above it, at most so many. -/
def path (f : α → Option α) : ℕ → α → List α
  | 0, a => [a]
  | n + 1, a => a :: (f a).elim [] (path f n)

theorem path_succ : path f (n + 1) a = a :: (f a).elim [] (path f n) := rfl

theorem reflTransGen_of_mem_path (h : b ∈ path f n a) :
    ReflTransGen (IsParent f) a b := by
  induction n generalizing a with
  | zero =>
    obtain rfl := List.mem_singleton.1 h
    exact .refl
  | succ n ih =>
    rw [path_succ, List.mem_cons] at h
    rcases h with rfl | h
    · exact .refl
    · cases hfa : f a with
      | none =>
        rw [hfa] at h
        cases h
      | some c =>
        rw [hfa] at h
        exact .head hfa (ih h)

theorem mem_path_iff (hroot : rootWithin f n a = some r) :
    b ∈ path f n a ↔ ReflTransGen (IsParent f) a b := by
  refine ⟨reflTransGen_of_mem_path, fun h => ?_⟩
  induction n generalizing a with
  | zero =>
    cases hfa : f a with
    | none =>
      rcases h.cases_head with rfl | ⟨c, hac, -⟩
      · exact List.mem_singleton_self a
      · exact absurd (hfa.symm.trans hac) (by simp)
    | some c => simp [rootWithin_zero, hfa] at hroot
  | succ n ih =>
    rw [path_succ, List.mem_cons]
    rcases h.cases_head with rfl | ⟨c, hac, hcb⟩
    · exact .inl rfl
    · have hac : f a = some c := hac
      rw [rootWithin_succ hac] at hroot
      rw [hac]
      exact .inr (ih hroot hcb)

theorem Acyclic.nodup_path (hf : Acyclic f) (n : ℕ) (a : α) : (path f n a).Nodup := by
  induction n generalizing a with
  | zero => exact List.nodup_singleton a
  | succ n ih =>
    rw [path_succ, List.nodup_cons]
    cases hfa : f a with
    | none => exact ⟨List.not_mem_nil, List.nodup_nil⟩
    | some c => exact ⟨fun h => hf a (.head' hfa (reflTransGen_of_mem_path h)), ih c⟩

theorem above_or_above {c : α} (hb : ReflTransGen (IsParent f) a b)
    (hc : ReflTransGen (IsParent f) a c) :
    ReflTransGen (IsParent f) b c ∨ ReflTransGen (IsParent f) c b := by
  refine hb.total_of_right_unique (fun x y z hy hz => ?_) hc
  exact Option.some_inj.1 (hy.symm.trans hz)

end Roots

end Forest
