import Mathlib
import GnucashWeb.Slots.Payload

/-!
# The rows a slot tree is written as

Every value is written as a `Block`: one row under its owner, followed by rows under guids drawn
while it was written.  `walk_blocks` splits the rows of sibling slots into the blocks of the
slots, `group_owner` and `group_block` say which rows an index then finds under the owner and
under the guids of one block.
-/

open Table

namespace Slots

variable {ν : Type} {host : Host}

/-! ## Blocks -/

/-- The guids drawn from call `n` up to call `n'`. -/
def drawn (host : Host) (n n' : ℕ) : Set String := host.generateGuid '' Set.Ico n n'

theorem drawn_mono {n m m' n' : ℕ} (h : n ≤ m) (h' : m' ≤ n') : drawn host m m' ⊆ drawn host n n' :=
  Set.image_mono (Set.Ico_subset_Ico h h')

/-- The rows of one value: its own row and the rows of its children, with the range of the guid
calls made while they were written. -/
structure Block (ν : Type) where
  row : DbSlotRow ν
  inner : List (DbSlotRow ν)
  lo : ℕ
  hi : ℕ

def Block.rows (b : Block ν) : List (DbSlotRow ν) := b.row :: b.inner

def Block.guids (host : Host) (b : Block ν) : Set String := drawn host b.lo b.hi

/-- The block holds the rows that `pushValueRows` writes for a value. -/
def Block.Writes (host : Host) (owner name : String) (v : SlotValue ν) (b : Block ν) : Prop :=
  pushValueRows host owner name v b.lo = some (b.rows, b.hi)

/-- The rows a table holds under the guids of a block are those written there, in any order, and
in written order when `keep` holds. -/
def Block.Agrees (host : Host) (keep : Prop) (b : Block ν) (Y : List (DbSlotRow ν)) : Prop :=
  ∀ g ∈ b.guids host, (group DbSlotRow.objGuid g Y).Perm (group DbSlotRow.objGuid g b.inner) ∧
    (keep → group DbSlotRow.objGuid g Y = group DbSlotRow.objGuid g b.inner)

/-- The guid ranges of the blocks follow one another from `n` to `n'`. -/
def Chained : ℕ → List (Block ν) → ℕ → Prop
  | n, [], n' => n = n'
  | n, b :: bs, n' => b.lo = n ∧ b.lo ≤ b.hi ∧ Chained b.hi bs n'

theorem Chained.le {n n' : ℕ} {bs : List (Block ν)} (h : Chained n bs n') : n ≤ n' := by
  induction bs generalizing n with
  | nil => exact le_of_eq h
  | cons b bs ih =>
    obtain ⟨rfl, hb, hbs⟩ := h
    exact hb.trans (ih hbs)

variable {b : Block ν} {name path : String} {ss : List (GnuCashSlot ν)} {rows : List (DbSlotRow ν)}

theorem Chained.mem {n n' : ℕ} {bs : List (Block ν)} (h : Chained n bs n')
    (hb : b ∈ bs) : n ≤ b.lo ∧ b.hi ≤ n' := by
  induction bs generalizing n with
  | nil => exact absurd hb List.not_mem_nil
  | cons c bs ih =>
    obtain ⟨rfl, hc, hbs⟩ := h
    rcases List.mem_cons.1 hb with rfl | hb
    · exact ⟨le_rfl, hbs.le⟩
    · exact ⟨hc.trans (ih hbs hb).1, (ih hbs hb).2⟩

theorem Chained.guids_subset {n n' : ℕ} {bs : List (Block ν)} (h : Chained n bs n')
    (hb : b ∈ bs) : b.guids host ⊆ drawn host n n' :=
  drawn_mono (h.mem hb).1 (h.mem hb).2

theorem notMem_drawn_succ (hinj : Function.Injective host.generateGuid) (n n' : ℕ) :
    host.generateGuid n ∉ drawn host (n + 1) n' := by
  rintro ⟨i, hi, heq⟩
  rw [hinj heq] at hi
  exact absurd hi.1 (by omega)

theorem Chained.disjoint (hinj : Function.Injective host.generateGuid) {n n' : ℕ}
    {bs : List (Block ν)} (h : Chained n bs n') :
    bs.Pairwise fun b c => Disjoint (b.guids host) (c.guids host) := by
  induction bs generalizing n with
  | nil => exact .nil
  | cons b bs ih =>
    obtain ⟨rfl, _, hbs⟩ := h
    refine .cons (fun c hc => ?_) (ih hbs)
    rw [Block.guids, Block.guids, drawn, drawn, Set.disjoint_image_iff hinj]
    exact Set.Ico_disjoint_Ico_same.mono_right (Set.Ico_subset_Ico (hbs.mem hc).1 le_rfl)

/-! ## What is written -/

theorem pushItems_eq_walk (owner name : String) (vs : List (SlotValue ν)) (n : ℕ) :
    pushItems host owner name vs n = walk host owner name (vs.map (Prod.mk "")) n := by
  induction vs generalizing n with
  | nil => rfl
  | cons v vs ih => simp only [pushItems, walk, List.map_cons, ih, String.append_empty]

/-- The children of a composite value are written under its own guid, after its own row. -/
structure Block.Parent (host : Host) (name : String) (slotType : ℕ) (ss : List (GnuCashSlot ν))
    (b : Block ν) : Prop where
  slotType_eq : b.row.slotType = slotType
  guidVal_eq : b.row.guidVal = some (host.generateGuid b.lo)
  name_eq : b.row.name = name
  inner_eq : walk host (host.generateGuid b.lo) (name ++ "/") ss (b.lo + 1) = some (b.inner, b.hi)

theorem Block.Writes.frame {owner : String}
    (h : b.Writes host owner name (.frame ss)) : b.Parent host name SlotType.FRAME ss := by
  obtain ⟨⟨rows, n'⟩, hwalk, heq⟩ := Option.bind_eq_some_iff.1 h
  obtain ⟨hrows, hn⟩ := Prod.mk.inj (Option.some.inj heq)
  obtain ⟨hrow, hinner⟩ := List.cons.inj hrows
  refine ⟨?_, ?_, ?_, ?_⟩
  · rw [← hrow]; rfl
  · rw [← hrow]
  · rw [← hrow]; rfl
  · rw [← hinner, ← hn]; exact hwalk

theorem Block.Writes.list {owner : String} {vs : List (SlotValue ν)}
    (h : b.Writes host owner name (.list vs)) :
    b.Parent host name SlotType.LIST (vs.map (Prod.mk "")) := by
  obtain ⟨⟨rows, n'⟩, hwalk, heq⟩ := Option.bind_eq_some_iff.1 h
  obtain ⟨hrows, hn⟩ := Prod.mk.inj (Option.some.inj heq)
  obtain ⟨hrow, hinner⟩ := List.cons.inj hrows
  refine ⟨?_, ?_, ?_, ?_⟩
  · rw [← hrow]; rfl
  · rw [← hrow]
  · rw [← hrow]; rfl
  · rw [← hinner, ← hn, ← pushItems_eq_walk]; exact hwalk

/-- What is known of the rows written for a value: the first one is the value's own row, the
others lie under guids drawn on the way. -/
def WritesBlock (host : Host) (v : SlotValue ν) : Prop :=
  ∀ {owner name : String} {n n' : ℕ} {rows : List (DbSlotRow ν)},
    pushValueRows host owner name v n = some (rows, n') →
    n ≤ n' ∧ ∃ row inner, rows = row :: inner ∧ row.objGuid = owner ∧ row.name = name ∧
      ∀ r ∈ inner, r.objGuid ∈ drawn host n n'

theorem walk_blocks_of (h : ∀ s ∈ ss, WritesBlock host s.2) {owner : String} {n n' : ℕ}
    (hw : walk host owner path ss n = some (rows, n')) :
    ∃ bs : List (Block ν), rows = bs.flatMap Block.rows ∧ Chained n bs n' ∧
      List.Forall₂ (fun s b => b.Writes host owner (path ++ s.1) s.2) ss bs := by
  induction ss generalizing n rows with
  | nil =>
    obtain ⟨rfl, rfl⟩ := Prod.mk.inj (Option.some.inj hw)
    exact ⟨[], rfl, rfl, .nil⟩
  | cons s ss ih =>
    obtain ⟨⟨rows₁, n₁⟩, h₁, hw⟩ := Option.bind_eq_some_iff.1 hw
    obtain ⟨⟨rows₂, n₂⟩, h₂, heq⟩ := Option.bind_eq_some_iff.1 hw
    obtain ⟨rfl, rfl⟩ := Prod.mk.inj (Option.some.inj heq)
    obtain ⟨bs, rfl, hchain, hbs⟩ := ih (fun t ht => h t (List.mem_cons_of_mem _ ht)) h₂
    obtain ⟨hle, row, inner, rfl, -, -, -⟩ := h s (by simp) h₁
    exact ⟨⟨row, inner, n, n₁⟩ :: bs, rfl, ⟨rfl, hle, hchain⟩, .cons h₁ hbs⟩

theorem Block.Writes.facts_of {v : SlotValue ν} (hv : WritesBlock host v) {owner : String}
    (h : b.Writes host owner name v) :
    b.lo ≤ b.hi ∧ b.row.objGuid = owner ∧ b.row.name = name ∧
      ∀ r ∈ b.inner, r.objGuid ∈ b.guids host := by
  obtain ⟨hle, row, inner, hrows, howner, hname, hinner⟩ := hv h
  obtain ⟨rfl, rfl⟩ := List.cons.inj hrows
  exact ⟨hle, howner, hname, hinner⟩

theorem walk_objGuid_of (h : ∀ s ∈ ss, WritesBlock host s.2) {owner : String} {n n' : ℕ}
    (hw : walk host owner path ss n = some (rows, n')) :
    n ≤ n' ∧ ∀ r ∈ rows, r.objGuid = owner ∨ r.objGuid ∈ drawn host n n' := by
  obtain ⟨bs, rfl, hchain, hbs⟩ := walk_blocks_of h hw
  refine ⟨hchain.le, fun r hr => ?_⟩
  obtain ⟨b, hb, hr⟩ := List.mem_flatMap.1 hr
  obtain ⟨s, hs, hsb⟩ := exists_of_forall₂_mem hbs hb
  obtain ⟨-, howner, -, hinner⟩ := hsb.facts_of (h s hs)
  rcases List.mem_cons.1 hr with rfl | hr
  · exact .inl howner
  · exact .inr (hchain.guids_subset hb (hinner r hr))

theorem writesBlock_parent (h : ∀ s ∈ ss, WritesBlock host s.2) {n n' : ℕ}
    (hw : walk host (host.generateGuid n) path ss (n + 1) = some (rows, n')) :
    n ≤ n' ∧ ∀ r ∈ rows, r.objGuid ∈ drawn host n n' := by
  obtain ⟨hle, hrows⟩ := walk_objGuid_of h hw
  refine ⟨by omega, fun r hr => ?_⟩
  rcases hrows r hr with hr | hr
  · exact ⟨n, ⟨le_rfl, hle⟩, hr.symm⟩
  · exact drawn_mono (Nat.le_succ n) le_rfl hr

theorem writesBlock_single {v : SlotValue ν} (h : ∀ {owner name : String} {n n' : ℕ}
    {rows : List (DbSlotRow ν)}, pushValueRows host owner name v n = some (rows, n') →
      n = n' ∧ ∃ row, rows = [row] ∧ row.objGuid = owner ∧ row.name = name) :
    WritesBlock host v := by
  intro owner name n n' rows hp
  obtain ⟨rfl, row, rfl, howner, hname⟩ := h hp
  exact ⟨le_rfl, row, [], rfl, howner, hname, fun r hr => absurd hr List.not_mem_nil⟩

theorem writesBlock (v : SlotValue ν) : WritesBlock host v := by
  induction v with
  | integer value =>
    refine writesBlock_single fun hp => ?_
    obtain ⟨i, -, heq⟩ := Option.bind_eq_some_iff.1 hp
    obtain ⟨rfl, rfl⟩ := Prod.mk.inj (Option.some.inj heq)
    exact ⟨rfl, _, rfl, rfl, rfl⟩
  | double value | numeric value | string value | guid value | timespec value =>
    refine writesBlock_single fun hp => ?_
    obtain ⟨rfl, rfl⟩ := Prod.mk.inj (Option.some.inj hp)
    exact ⟨rfl, _, rfl, rfl, rfl⟩
  | gdate value =>
    refine writesBlock_single fun hp => ?_
    unfold pushValueRows at hp
    split_ifs at hp
    · obtain ⟨rfl, rfl⟩ := Prod.mk.inj (Option.some.inj hp)
      exact ⟨rfl, _, rfl, rfl, rfl⟩
    · obtain ⟨d, -, heq⟩ := Option.bind_eq_some_iff.1 hp
      obtain ⟨rfl, rfl⟩ := Prod.mk.inj (Option.some.inj heq)
      exact ⟨rfl, _, rfl, rfl, rfl⟩
  | list values ih =>
    intro owner name n n' rows hp
    obtain ⟨⟨inner, m⟩, hw, heq⟩ := Option.bind_eq_some_iff.1 hp
    obtain ⟨rfl, rfl⟩ := Prod.mk.inj (Option.some.inj heq)
    rw [pushItems_eq_walk] at hw
    obtain ⟨hle, hinner⟩ := writesBlock_parent (by simpa using ih) hw
    exact ⟨hle, _, _, rfl, rfl, rfl, hinner⟩
  | frame slots ih =>
    intro owner name n n' rows hp
    obtain ⟨⟨inner, m⟩, hw, heq⟩ := Option.bind_eq_some_iff.1 hp
    obtain ⟨rfl, rfl⟩ := Prod.mk.inj (Option.some.inj heq)
    obtain ⟨hle, hinner⟩ := writesBlock_parent ih hw
    exact ⟨hle, _, _, rfl, rfl, rfl, hinner⟩

/-- The rows written for sibling slots, split into blocks. -/
structure Siblings (host : Host) (owner path : String) (ss : List (GnuCashSlot ν)) (n n' : ℕ)
    (bs : List (Block ν)) : Prop where
  chained : Chained n bs n'
  writes : List.Forall₂ (fun s b => b.Writes host owner (path ++ s.1) s.2) ss bs

theorem walk_blocks {owner : String} {n n' : ℕ} (hw : walk host owner path ss n = some (rows, n')) :
    ∃ bs : List (Block ν), rows = bs.flatMap Block.rows ∧ Siblings host owner path ss n n' bs := by
  obtain ⟨bs, hrows, hchain, hbs⟩ := walk_blocks_of (fun s _ => writesBlock s.2) hw
  exact ⟨bs, hrows, hchain, hbs⟩

theorem Block.Parent.mem_guids {slotType : ℕ} (hb : b.Parent host name slotType ss) {g : String} :
    g ∈ b.guids host ↔ g = host.generateGuid b.lo ∨ g ∈ drawn host (b.lo + 1) b.hi := by
  obtain ⟨bs, -, hsib⟩ := walk_blocks hb.inner_eq
  have hle := hsib.chained.le
  constructor
  · rintro ⟨i, hi, rfl⟩
    rcases eq_or_lt_of_le hi.1 with rfl | hlt
    · exact .inl rfl
    · exact .inr ⟨i, ⟨hlt, hi.2⟩, rfl⟩
  · rintro (rfl | hg)
    · exact ⟨b.lo, ⟨le_rfl, hle⟩, rfl⟩
    · exact drawn_mono (Nat.le_succ _) le_rfl hg

theorem Siblings.facts {owner : String} {n n' : ℕ}
    {bs : List (Block ν)} (h : Siblings host owner path ss n n' bs) (hb : b ∈ bs) :
    b.row.objGuid = owner ∧ ∀ r ∈ b.inner, r.objGuid ∈ b.guids host := by
  obtain ⟨s, -, hsb⟩ := exists_of_forall₂_mem h.writes hb
  obtain ⟨-, howner, -, hinner⟩ := hsb.facts_of (writesBlock s.2)
  exact ⟨howner, hinner⟩

/-! ## Families of blocks -/

/-- Blocks whose own rows lie under one owner and whose inner rows lie under the guids of their
own range. -/
structure Family (host : Host) (owner : String) (n n' : ℕ) (bs : List (Block ν)) : Prop where
  chained : Chained n bs n'
  owner_eq : ∀ b ∈ bs, b.row.objGuid = owner
  inner_mem : ∀ b ∈ bs, ∀ r ∈ b.inner, r.objGuid ∈ b.guids host

theorem Siblings.family {owner : String} {n n' : ℕ}
    {bs : List (Block ν)} (h : Siblings host owner path ss n n' bs) : Family host owner n n' bs :=
  ⟨h.chained, fun _ hb => (h.facts hb).1, fun _ hb => (h.facts hb).2⟩

namespace Family

variable {owner : String} {n n' : ℕ} {bs : List (Block ν)}

theorem group_owner (h : Family host owner n n' bs) (ho : owner ∉ drawn host n n') :
    group DbSlotRow.objGuid owner (bs.flatMap Block.rows) = bs.map Block.row := by
  have hb : ∀ b ∈ bs, group DbSlotRow.objGuid owner b.rows = [b.row] := by
    intro b hb
    rw [Block.rows, group_cons, if_pos (h.owner_eq b hb), group_eq_nil fun r hr hro => ?_]
    exact ho (hro ▸ h.chained.guids_subset hb (h.inner_mem b hb r hr))
  clear h
  induction bs with
  | nil => rfl
  | cons b bs ih =>
    rw [List.flatMap_cons, group_append, hb b (by simp),
      ih fun c hc => hb c (List.mem_cons_of_mem _ hc)]
    rfl

theorem group_block (h : Family host owner n n' bs)
    (hinj : Function.Injective host.generateGuid) (ho : owner ∉ drawn host n n')
    (hb : b ∈ bs) {g : String} (hg : g ∈ b.guids host) :
    group DbSlotRow.objGuid g (bs.flatMap Block.rows) = group DbSlotRow.objGuid g b.inner := by
  have hgo : owner ≠ g := fun hog => ho (hog ▸ h.chained.guids_subset hb hg)
  have hother : ∀ c ∈ bs, Disjoint (b.guids host) (c.guids host) →
      group DbSlotRow.objGuid g c.rows = [] := by
    intro c hc hdis
    refine group_eq_nil fun r hr hrg => ?_
    rcases List.mem_cons.1 hr with rfl | hr
    · exact hgo (h.owner_eq c hc ▸ hrg)
    · exact Set.disjoint_left.1 hdis hg (hrg ▸ h.inner_mem c hc r hr)
  have hself : group DbSlotRow.objGuid g b.rows = group DbSlotRow.objGuid g b.inner := by
    rw [Block.rows, group_cons, if_neg fun hrg => hgo (h.owner_eq b hb ▸ hrg)]
  have hdis := h.chained.disjoint hinj
  obtain ⟨pre, post, rfl⟩ := List.append_of_mem hb
  obtain ⟨-, hpost, hpre⟩ := List.pairwise_append.1 hdis
  rw [List.flatMap_append, List.flatMap_cons, group_append, group_append, hself,
    group_flatMap_eq_nil fun c hc => hother c (by simp [hc]) (hpre c hc b (by simp)).symm,
    group_flatMap_eq_nil fun c hc =>
      hother c (by simp [hc]) ((List.pairwise_cons.1 hpost).1 c hc)]
  simp

theorem agrees {keep : Prop} (h : Family host owner n n' bs)
    (hinj : Function.Injective host.generateGuid) (ho : owner ∉ drawn host n n')
    {Y : List (DbSlotRow ν)} (hY : ∀ g ∈ drawn host n n', (group DbSlotRow.objGuid g Y).Perm
        (group DbSlotRow.objGuid g (bs.flatMap Block.rows)) ∧
      (keep → group DbSlotRow.objGuid g Y =
        group DbSlotRow.objGuid g (bs.flatMap Block.rows))) (hb : b ∈ bs) :
    b.Agrees host keep Y := by
  intro g hg
  have hg' := hY g (h.chained.guids_subset hb hg)
  rwa [h.group_block hinj ho hb hg] at hg'

theorem replace {pre post : List (Block ν)} {inner : List (DbSlotRow ν)}
    (h : Family host owner n n' (pre ++ b :: post)) (hp : inner.Perm b.inner) :
    Family host owner n n' (pre ++ { b with inner := inner } :: post) := by
  have hchain : ∀ {pre : List (Block ν)} {n : ℕ}, Chained n (pre ++ b :: post) n' →
      Chained n (pre ++ { b with inner := inner } :: post) n' := by
    intro pre
    induction pre with
    | nil => exact fun h => h
    | cons c pre ih => exact fun h => ⟨h.1, h.2.1, ih h.2.2⟩
  have hb : b ∈ pre ++ b :: post := by simp
  refine ⟨hchain h.chained, fun c hc => ?_, fun c hc r hr => ?_⟩
  · rcases List.mem_append.1 hc with hc | hc
    · exact h.owner_eq c (by simp [hc])
    · rcases List.mem_cons.1 hc with rfl | hc
      · exact h.owner_eq b hb
      · exact h.owner_eq c (by simp [hc])
  · rcases List.mem_append.1 hc with hc | hc
    · exact h.inner_mem c (by simp [hc]) r hr
    · rcases List.mem_cons.1 hc with rfl | hc
      · exact h.inner_mem b hb r (hp.mem_iff.1 hr)
      · exact h.inner_mem c (by simp [hc]) r hr

end Family

theorem length_rows_le {bs : List (Block ν)} (hb : b ∈ bs) :
    b.rows.length ≤ (bs.flatMap Block.rows).length := by
  obtain ⟨pre, post, rfl⟩ := List.append_of_mem hb
  simp only [List.flatMap_append, List.flatMap_cons, List.length_append]
  omega

end Slots
