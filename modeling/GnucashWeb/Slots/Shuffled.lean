import GnucashWeb.Slots.Codec
import Mathlib.Data.Multiset.MapFold

/-!
# Equality of slot trees

Two slot trees are the same when they differ only in the order of frame children and in the
spelling of numbers (`Same`).  `Shuffled keep` is the weaker relation that also forgets the order
of list items unless `keep` holds.  A tree all of whose lists have equal items (`Uniform`) is the
same as each of its shuffles (`same_of_shuffled`), and a frame child can be cancelled on both
sides of `Same` (`same_of_same_frame`).
-/

open Text

namespace Slots

variable {ν : Type} {keep : Prop}

/-! ## Payloads -/

/-- The integer an integer payload names; the empty payload names zero. -/
def integerValue (value : String) : Option ℤ := bigInt value.toList

/-- The numerator and denominator a numeric payload names; a bare integer has denominator 1. -/
def fractionValue (value : String) : Option (ℤ × ℤ) :=
  match split '/' value.toList with
  | [num] => (bigInt num).map fun n => (n, 1)
  | [num, denom] => (bigInt num).bind fun n => (bigInt denom).map fun d => (n, d)
  | _ => none

/-! ## Shuffles -/

mutual

/-- `Shuffled keep a b`: the value `b` is `a` with frame children reordered, numbers respelled and,
unless `keep` holds, list items reordered, at every depth. -/
inductive Shuffled (keep : Prop) : SlotValue ν → SlotValue ν → Prop
  | integer {a b : String} (h : integerValue a = integerValue b) :
      Shuffled keep (.integer a) (.integer b)
  | double (a : ν) : Shuffled keep (.double a) (.double a)
  | numeric {a b : String} (h : fractionValue a = fractionValue b) :
      Shuffled keep (.numeric a) (.numeric b)
  | string (a : String) : Shuffled keep (.string a) (.string a)
  | guid (a : String) : Shuffled keep (.guid a) (.guid a)
  | timespec (a : String) : Shuffled keep (.timespec a) (.timespec a)
  | gdate (a : String) : Shuffled keep (.gdate a) (.gdate a)
  | list {as bs cs : List (SlotValue ν)} (h : ItemsShuffled keep as bs) (hp : bs.Perm cs)
      (hk : keep → bs = cs) : Shuffled keep (.list as) (.list cs)
  | frame {as bs cs : List (GnuCashSlot ν)} (h : SlotsShuffled keep as bs) (hp : bs.Perm cs) :
      Shuffled keep (.frame as) (.frame cs)

inductive ItemsShuffled (keep : Prop) : List (SlotValue ν) → List (SlotValue ν) → Prop
  | nil : ItemsShuffled keep [] []
  | cons {a b : SlotValue ν} {as bs : List (SlotValue ν)} (h : Shuffled keep a b)
      (hs : ItemsShuffled keep as bs) : ItemsShuffled keep (a :: as) (b :: bs)

/-- Lists of slots with equal keys and shuffled values, slot by slot. -/
inductive SlotsShuffled (keep : Prop) : List (GnuCashSlot ν) → List (GnuCashSlot ν) → Prop
  | nil : SlotsShuffled keep [] []
  | cons {k : String} {a b : SlotValue ν} {as bs : List (GnuCashSlot ν)} (h : Shuffled keep a b)
      (hs : SlotsShuffled keep as bs) : SlotsShuffled keep ((k, a) :: as) ((k, b) :: bs)

end

/-- Two values are the same up to the order of frame children and the spelling of numbers. -/
abbrev Same (a b : SlotValue ν) : Prop := Shuffled True a b

/-- The same for slots: equal keys and the same values. -/
def SameSlot (s t : GnuCashSlot ν) : Prop := s.1 = t.1 ∧ Same s.2 t.2

theorem itemsShuffled_iff {as bs : List (SlotValue ν)} :
    ItemsShuffled keep as bs ↔ List.Forall₂ (Shuffled keep) as bs := by
  constructor
  · intro h
    induction as generalizing bs with
    | nil => cases h; exact .nil
    | cons a as ih => cases h with | cons h hs => exact .cons h (ih hs)
  · intro h
    induction h with
    | nil => exact .nil
    | cons h _ ih => exact .cons h ih

theorem slotsShuffled_iff {as bs : List (GnuCashSlot ν)} :
    SlotsShuffled keep as bs ↔
      List.Forall₂ (fun s t => s.1 = t.1 ∧ Shuffled keep s.2 t.2) as bs := by
  constructor
  · intro h
    induction as generalizing bs with
    | nil => cases h; exact .nil
    | cons a as ih => cases h with | cons h hs => exact .cons ⟨rfl, h⟩ (ih hs)
  · intro h
    induction h with
    | nil => exact .nil
    | @cons s t as bs h _ ih =>
      obtain ⟨k, a⟩ := s
      obtain ⟨k', b⟩ := t
      obtain ⟨rfl, h⟩ := h
      exact .cons h ih

theorem slotsShuffled_items {vs : List (SlotValue ν)} {ts : List (GnuCashSlot ν)}
    (h : SlotsShuffled keep (vs.map (Prod.mk "")) ts) :
    ItemsShuffled keep vs (ts.map Prod.snd) := by
  induction vs generalizing ts with
  | nil => cases h; exact .nil
  | cons v vs ih => cases h with | cons h hs => exact .cons h (ih hs)

theorem SameSlot.forall₂ {as bs : List (GnuCashSlot ν)} :
    SlotsShuffled True as bs ↔ List.Forall₂ SameSlot as bs :=
  slotsShuffled_iff

/-! ## `Same` is an equivalence -/

mutual

@[refl] theorem Same.refl : ∀ a : SlotValue ν, Same a a
  | .integer _ => .integer rfl
  | .double _ => .double _
  | .numeric _ => .numeric rfl
  | .string _ => .string _
  | .guid _ => .guid _
  | .timespec _ => .timespec _
  | .gdate _ => .gdate _
  | .list as => .list (Same.refl_items as) (.refl _) fun _ => rfl
  | .frame as => .frame (Same.refl_slots as) (.refl _)

theorem Same.refl_items : ∀ as : List (SlotValue ν), ItemsShuffled True as as
  | [] => .nil
  | a :: as => .cons (Same.refl a) (Same.refl_items as)

theorem Same.refl_slots : ∀ as : List (GnuCashSlot ν), SlotsShuffled True as as
  | [] => .nil
  | (_, a) :: as => .cons (Same.refl a) (Same.refl_slots as)

end

mutual

theorem Same.symm : ∀ {a b : SlotValue ν}, Same a b → Same b a
  | .integer _, _, h => by cases h with | integer h => exact .integer h.symm
  | .double _, _, h => by cases h; exact .double _
  | .numeric _, _, h => by cases h with | numeric h => exact .numeric h.symm
  | .string _, _, h => by cases h; exact .string _
  | .guid _, _, h => by cases h; exact .guid _
  | .timespec _, _, h => by cases h; exact .timespec _
  | .gdate _, _, h => by cases h; exact .gdate _
  | .list as, _, h => by
    cases h with
    | list h _ hk =>
      obtain rfl := hk trivial
      exact .list (Same.symm_items h) (.refl _) fun _ => rfl
  | .frame as, _, h => by
    cases h with
    | frame h hp =>
      obtain ⟨cs, hcs, hperm⟩ :=
        List.perm_comp_forall₂ hp.symm (SameSlot.forall₂.1 (Same.symm_slots h))
      exact .frame (SameSlot.forall₂.2 hcs) hperm

theorem Same.symm_items : ∀ {as bs : List (SlotValue ν)},
    ItemsShuffled True as bs → ItemsShuffled True bs as
  | [], _, h => by cases h; exact .nil
  | _ :: _, _, h => by
    cases h with | cons h hs => exact .cons (Same.symm h) (Same.symm_items hs)

theorem Same.symm_slots : ∀ {as bs : List (GnuCashSlot ν)},
    SlotsShuffled True as bs → SlotsShuffled True bs as
  | [], _, h => by cases h; exact .nil
  | (_, _) :: _, _, h => by
    cases h with | cons h hs => exact .cons (Same.symm h) (Same.symm_slots hs)

end

mutual

theorem Same.trans : ∀ {a b c : SlotValue ν}, Same a b → Same b c → Same a c
  | .integer _, _, _, h, h' => by
    cases h with | integer h => cases h' with | integer h' => exact .integer (h.trans h')
  | .double _, _, _, h, h' => by cases h; exact h'
  | .numeric _, _, _, h, h' => by
    cases h with | numeric h => cases h' with | numeric h' => exact .numeric (h.trans h')
  | .string _, _, _, h, h' => by cases h; exact h'
  | .guid _, _, _, h, h' => by cases h; exact h'
  | .timespec _, _, _, h, h' => by cases h; exact h'
  | .gdate _, _, _, h, h' => by cases h; exact h'
  | .list as, _, _, h, h' => by
    cases h with
    | list h _ hk =>
      cases h' with
      | list h' _ hk' =>
        obtain rfl := hk trivial
        obtain rfl := hk' trivial
        exact .list (Same.trans_items h h') (.refl _) fun _ => rfl
  | .frame as, _, _, h, h' => by
    cases h with
    | frame h hp =>
      cases h' with
      | frame h' hp' =>
        obtain ⟨cs, hcs, hperm⟩ := List.perm_comp_forall₂ hp (SameSlot.forall₂.1 h')
        exact .frame (Same.trans_slots h (SameSlot.forall₂.2 hcs)) (hperm.trans hp')

theorem Same.trans_items : ∀ {as bs cs : List (SlotValue ν)},
    ItemsShuffled True as bs → ItemsShuffled True bs cs → ItemsShuffled True as cs
  | [], _, _, h, h' => by cases h; exact h'
  | _ :: _, _, _, h, h' => by
    cases h with
    | cons h hs =>
      cases h' with
      | cons h' hs' => exact .cons (Same.trans h h') (Same.trans_items hs hs')

theorem Same.trans_slots : ∀ {as bs cs : List (GnuCashSlot ν)},
    SlotsShuffled True as bs → SlotsShuffled True bs cs → SlotsShuffled True as cs
  | [], _, _, h, h' => by cases h; exact h'
  | (_, _) :: _, _, _, h, h' => by
    cases h with
    | cons h hs =>
      cases h' with
      | cons h' hs' => exact .cons (Same.trans h h') (Same.trans_slots hs hs')

end

/-- Slots up to `SameSlot`. -/
def sameSlotSetoid (ν : Type) : Setoid (GnuCashSlot ν) where
  r := SameSlot
  iseqv :=
    { refl := fun s => ⟨rfl, Same.refl s.2⟩
      symm := fun h => ⟨h.1.symm, h.2.symm⟩
      trans := fun h h' => ⟨h.1.trans h'.1, h.2.trans h'.2⟩ }

theorem map_mk_eq_of_forall₂ {as bs : List (GnuCashSlot ν)} (h : List.Forall₂ SameSlot as bs) :
    as.map (Quotient.mk (sameSlotSetoid ν)) = bs.map (Quotient.mk (sameSlotSetoid ν)) := by
  induction h with
  | nil => rfl
  | cons h _ ih => rw [List.map_cons, List.map_cons, ih, Quotient.sound h]

/-- When two frames are the same and so are all their children but one on each side, then those
two children are the same. -/
theorem same_of_same_frame {pre post pre' post' ts : List (GnuCashSlot ν)} {s t : GnuCashSlot ν}
    (h : Same (.frame (pre ++ s :: post)) (.frame ts)) (hts : ts.Perm (pre' ++ t :: post'))
    (hpre : List.Forall₂ SameSlot pre pre') (hpost : List.Forall₂ SameSlot post post') :
    SameSlot s t := by
  cases h with
  | @frame _ us _ h hp =>
    have hq := map_mk_eq_of_forall₂ (SameSlot.forall₂.1 h)
    have hperm := (hp.trans hts).map (Quotient.mk (sameSlotSetoid ν))
    rw [← hq, List.map_append, List.map_append, map_mk_eq_of_forall₂ hpre, List.map_cons,
      List.map_cons, map_mk_eq_of_forall₂ hpost, List.perm_append_left_iff] at hperm
    have hone : List.Perm [Quotient.mk (sameSlotSetoid ν) s] [Quotient.mk _ t] :=
      (List.perm_append_right_iff _).1 hperm
    exact Quotient.exact (List.singleton_perm_singleton.1 hone)

/-! ## Uniform lists -/

mutual

/-- Every list of the tree has items that are all the same. -/
def Uniform : SlotValue ν → Prop
  | .list as => (∀ a ∈ as, ∀ b ∈ as, Same a b) ∧ ItemsUniform as
  | .frame ss => SlotsUniform ss
  | _ => True

def ItemsUniform : List (SlotValue ν) → Prop
  | [] => True
  | a :: as => Uniform a ∧ ItemsUniform as

def SlotsUniform : List (GnuCashSlot ν) → Prop
  | [] => True
  | (_, a) :: as => Uniform a ∧ SlotsUniform as

end

theorem itemsUniform_iff {as : List (SlotValue ν)} : ItemsUniform as ↔ ∀ a ∈ as, Uniform a := by
  induction as with
  | nil => simp [ItemsUniform]
  | cons a as ih => simp [ItemsUniform, ih]

theorem slotsUniform_iff {ss : List (GnuCashSlot ν)} :
    SlotsUniform ss ↔ ∀ s ∈ ss, Uniform s.2 := by
  induction ss with
  | nil => simp [SlotsUniform]
  | cons s ss ih => simp [SlotsUniform, ih]

variable {α β : Type*} {r : α → β → Prop}

theorem forall₂_of_forall :
    ∀ {as : List α} {bs : List β}, as.length = bs.length → (∀ a ∈ as, ∀ b ∈ bs, r a b) →
      List.Forall₂ r as bs
  | [], [], _, _ => .nil
  | a :: as, b :: bs, hl, h =>
    .cons (h a (by simp) b (by simp)) (forall₂_of_forall (Nat.succ.inj hl) fun a ha b hb =>
      h a (List.mem_cons_of_mem _ ha) b (List.mem_cons_of_mem _ hb))

theorem exists_of_forall₂_mem {as : List α} {bs : List β} {b : β}
    (h : List.Forall₂ r as bs) (hb : b ∈ bs) : ∃ a ∈ as, r a b := by
  induction h with
  | nil => exact absurd hb (by simp)
  | @cons a _ _ _ hr _ ih =>
    rcases List.mem_cons.1 hb with rfl | hb
    · exact ⟨a, by simp, hr⟩
    · obtain ⟨a', ha', hr'⟩ := ih hb
      exact ⟨a', List.mem_cons_of_mem _ ha', hr'⟩

theorem forall₂_imp_mem {q : α → β → Prop} {as : List α} {bs : List β}
    (h : List.Forall₂ r as bs) (hq : ∀ a ∈ as, ∀ b ∈ bs, r a b → q a b) :
    List.Forall₂ q as bs := by
  induction h with
  | nil => exact .nil
  | cons hr _ ih =>
    exact .cons (hq _ (by simp) _ (by simp) hr) (ih fun a ha b hb =>
      hq a (List.mem_cons_of_mem _ ha) b (List.mem_cons_of_mem _ hb))

theorem forall₂_split {as : List α} {bs : List β} {a : α} (h : List.Forall₂ r as bs) (ha : a ∈ as) :
    ∃ pre post pre' b post', as = pre ++ a :: post ∧ bs = pre' ++ b :: post' ∧
      List.Forall₂ r pre pre' ∧ r a b ∧ List.Forall₂ r post post' := by
  induction h with
  | nil => exact absurd ha List.not_mem_nil
  | @cons a' b' as bs hr hs ih =>
    rcases List.mem_cons.1 ha with rfl | ha
    · exact ⟨[], as, [], b', bs, rfl, rfl, .nil, hr, hs⟩
    · obtain ⟨pre, post, pre', b, post', rfl, rfl, hpre, hab, hpost⟩ := ih ha
      exact ⟨a' :: pre, post, b' :: pre', b, post', rfl, rfl, .cons hr hpre, hab, hpost⟩

theorem forall₂_middle {a : α} {b : β} {post : List α}
    {post' : List β} : ∀ {pre : List α} {pre' : List β}, pre.length = pre'.length →
      List.Forall₂ r (pre ++ a :: post) (pre' ++ b :: post') → r a b
  | [], [], _, h => (List.forall₂_cons.1 h).1
  | _ :: _, _ :: _, hl, h => forall₂_middle (Nat.succ.inj hl) (List.forall₂_cons.1 h).2

/-- Items that are all the same stay the same when they are replaced item by item and reordered. -/
theorem forall₂_same_of_perm {as bs cs : List (SlotValue ν)}
    (huni : ∀ a ∈ as, ∀ b ∈ as, Same a b) (h : List.Forall₂ Same as bs) (hp : bs.Perm cs) :
    List.Forall₂ Same as cs := by
  refine forall₂_of_forall (h.length_eq.trans hp.length_eq) fun a ha c hc => ?_
  obtain ⟨b, hb, hbc⟩ := exists_of_forall₂_mem h (hp.mem_iff.2 hc)
  exact (huni a ha b hb).trans hbc

mutual

theorem same_of_shuffled : ∀ {a b : SlotValue ν}, Uniform a → Shuffled keep a b → Same a b
  | .integer _, _, _, h => by cases h with | integer h => exact .integer h
  | .double _, _, _, h => by cases h; exact .double _
  | .numeric _, _, _, h => by cases h with | numeric h => exact .numeric h
  | .string _, _, _, h => by cases h; exact .string _
  | .guid _, _, _, h => by cases h; exact .guid _
  | .timespec _, _, _, h => by cases h; exact .timespec _
  | .gdate _, _, _, h => by cases h; exact .gdate _
  | .list as, _, hu, h => by
    cases h with
    | list h hp _ =>
      have hsame := itemsShuffled_iff.1 (same_of_shuffled_items hu.2 h)
      exact .list (itemsShuffled_iff.2 (forall₂_same_of_perm hu.1 hsame hp)) (.refl _)
        fun _ => rfl
  | .frame as, _, hu, h => by
    cases h with
    | frame h hp => exact .frame (same_of_shuffled_slots hu h) hp

theorem same_of_shuffled_items : ∀ {as bs : List (SlotValue ν)},
    ItemsUniform as → ItemsShuffled keep as bs → ItemsShuffled True as bs
  | [], _, _, h => by cases h; exact .nil
  | _ :: _, _, hu, h => by
    cases h with
    | cons h hs => exact .cons (same_of_shuffled hu.1 h) (same_of_shuffled_items hu.2 hs)

theorem same_of_shuffled_slots : ∀ {as bs : List (GnuCashSlot ν)},
    SlotsUniform as → SlotsShuffled keep as bs → SlotsShuffled True as bs
  | [], _, _, h => by cases h; exact .nil
  | (_, _) :: _, _, hu, h => by
    cases h with
    | cons h hs => exact .cons (same_of_shuffled hu.1 h) (same_of_shuffled_slots hu.2 hs)

end

end Slots
