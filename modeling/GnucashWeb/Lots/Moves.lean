import GnucashWeb.Lots.Revert
import Mathlib.Logic.Relation

/-!
# The moves of a run

What an undo can see of the tables is their splits, transactions and lots, the marks of runs and
the disposals a run priced.  `Move` lists every change a run makes to that; `Path` is a sequence of
moves.  `Sound`, that guids are distinct and undrawn ones unused, holds along every path.
-/

open Ledger Rows

namespace Lots

def markNames : List String := parentSplitSlot :: stashSlotNames

structure Marked where
  splits : List Split
  transactions : List Transaction
  lots : List Lot
  marks : List Slot
  priced : List Slot
  drawn : ℕ

def marked (db : Db) : Marked where
  splits := db.splits
  transactions := db.transactions
  lots := db.lots
  marks := db.slots.filter fun r => r.name ∈ markNames
  priced := db.slots.filter fun r => r.name = avgCostBasisRunSlot
  drawn := db.drawn

def tagRow (guid runId : String) : Slot := ⟨guid, generatedSlot, some runId⟩

/-- The rows that `stashOriginal` writes. -/
def stashRows (s : Split) (runId : String) : List Slot :=
  [⟨s.guid, originalQuantityNum, some (bigIntText s.quantity.num)⟩,
    ⟨s.guid, originalQuantityDenom, some (bigIntText s.quantity.denom)⟩,
    ⟨s.guid, originalValueNum, some (bigIntText s.value.num)⟩,
    ⟨s.guid, originalValueDenom, some (bigIntText s.value.denom)⟩, tagRow s.guid runId]

namespace Marked

variable (L : Marked)

/-- Whether an object carries the tag of a run. -/
def Tagged (runId guid : String) : Prop := tagRow guid runId ∈ L.marks

def HasMark (guid : String) : Prop := guid ∈ L.marks.map Slot.objGuid

/-- The text of an object's first mark with a name, none for an empty one. -/
def text (guid name : String) : Option String :=
  ((L.marks.find? fun r => r.objGuid = guid ∧ r.name = name).bind Slot.stringVal).filter
    fun text => text ≠ ""

/-- The integer in an object's first mark with a name. -/
def int (guid name : String) : Option ℤ := (L.text guid name).bind fun t => Text.bigInt t.toList

/-- The quantity and the value that a split's first stash keeps. -/
def original (guid : String) : Option (Amount × Amount) := do
  let qtyNum ← L.int guid originalQuantityNum
  let qtyDenom ← L.int guid originalQuantityDenom
  let valNum ← L.int guid originalValueNum
  let valDenom ← L.int guid originalValueDenom
  pure (⟨qtyNum, qtyDenom⟩, ⟨valNum, valDenom⟩)

/-- Whether a run holds a split's amounts in a stash. -/
def Stashed (runId guid : String) : Prop :=
  ∃ s : Split, s.guid = guid ∧ stashRows s runId ⊆ L.marks

/-- Every guid in use satisfies a condition. -/
structure UsesOnly (P : String → Prop) : Prop where
  splits : ∀ s ∈ L.splits, P s.guid
  transactions : ∀ t ∈ L.transactions, P t.guid
  lots : ∀ l ∈ L.lots, P l.guid
  marks : ∀ r ∈ L.marks, P r.objGuid
  assigned : ∀ s ∈ L.splits, ∀ l ∈ s.lotGuid, P l
  tags : ∀ r ∈ L.marks, r.name = generatedSlot → ∀ g ∈ r.stringVal, P g
  priced : ∀ r ∈ L.priced, ∀ g ∈ r.stringVal, P g

variable {L}

theorem UsesOnly.mono {P Q : String → Prop} (h : L.UsesOnly P) (hPQ : ∀ g, P g → Q g) :
    L.UsesOnly Q where
  splits := fun s hs => hPQ _ (h.splits s hs)
  transactions := fun t ht => hPQ _ (h.transactions t ht)
  lots := fun l hl => hPQ _ (h.lots l hl)
  marks := fun r hr => hPQ _ (h.marks r hr)
  assigned := fun s hs l hl => hPQ _ (h.assigned s hs l hl)
  tags := fun r hr hn g hg => hPQ _ (h.tags r hr hn g hg)
  priced := fun r hr g hg => hPQ _ (h.priced r hr g hg)

end Marked

/-- What a run is allowed: its id, the splits it may divide or revalue and those it may assign, the
older lots it may fill, and the transactions whose totals it keeps, save for the value of the listed
transaction and account pairs. -/
structure Scope where
  run : String
  Rewritable : String → Prop
  Assignable : String → Prop
  OldLot : String → Prop
  Old : String → Prop
  Revalued : String → String → Prop

/-- A lot that a run may fill: an older one of its scope or one of its own. -/
def Scope.Fills (c : Scope) (L : Marked) (lotGuid : String) : Prop :=
  lotGuid ∈ L.lots.map Lot.guid ∧ (c.OldLot lotGuid ∨ L.Tagged c.run lotGuid)

/-- A split's row with other amounts and another lot. -/
def SameRow (s s' : Split) : Prop :=
  s' = { s with quantity := s'.quantity, value := s'.value, lotGuid := s'.lotGuid }

inductive Move (host : Host) (c : Scope) : Marked → Marked → Prop
  | draw (L : Marked) (n : ℕ) : Move host c L { L with drawn := L.drawn + n }
  | unprice (L : Marked) (p : Slot → Bool) :
      Move host c L { L with priced := L.priced.filter p }
  | price (L : Marked) {g : String} (hg : c.Assignable g ∨ L.Tagged c.run g) :
      Move host c L
        { L with priced := L.priced ++ [⟨g, avgCostBasisRunSlot, some c.run⟩] }
  | openLot (L : Marked) (accountGuid : String) :
      Move host c L
        { L with
          lots := L.lots ++ [⟨host.generateGuid L.drawn, some accountGuid, 0⟩]
          marks := L.marks ++ [tagRow (host.generateGuid L.drawn) c.run]
          drawn := L.drawn + 1 }
  | closeLot (L : Marked) {l : String} (hl : c.Fills L l) :
      Move host c L { L with lots := editAt Lot.guid l (fun x => { x with isClosed := 1 }) L.lots }
  | assign (L : Marked) {g l : String} (hg : c.Assignable g) (hl : c.Fills L l) :
      Move host c L
        { L with splits := editAt Split.guid g (fun s => { s with lotGuid := some l }) L.splits }
  | stash (L : Marked) {s : Split} (hs : s ∈ L.splits) (hg : c.Rewritable s.guid) :
      Move host c L { L with marks := L.marks ++ stashRows s c.run }
  | rewrite (L : Marked) {g : String} (hg : c.Rewritable g) (ho : L.Stashed c.run g)
      (f : Split → Amount × Amount) :
      Move host c L
        { L with
          splits := editAt Split.guid g (fun s => { s with quantity := (f s).1, value := (f s).2 })
            L.splits }
  | carve (L : Marked) {p s : Split} (hs : s ∈ L.splits) (hp : SameRow s p)
      (hg : c.Rewritable p.guid) (ho : L.Stashed c.run p.guid) (quantity value : Amount)
      {lotGuid : Option String} (hl : ∀ l ∈ lotGuid, c.Fills L l) :
      Move host c L
        { L with
          splits := L.splits ++
            [{ p with guid := host.generateGuid L.drawn, quantity, value, lotGuid }]
          marks := L.marks ++ [tagRow (host.generateGuid L.drawn) c.run,
            ⟨host.generateGuid L.drawn, parentSplitSlot, some p.guid⟩]
          drawn := L.drawn + 1 }
  | book (L : Marked) {t : Transaction} {i g : Split} {l : String}
      (ht : t.guid = host.generateGuid L.drawn) (hi : i.guid = host.generateGuid (L.drawn + 1))
      (hg : g.guid = host.generateGuid (L.drawn + 2)) (hit : i.txGuid = t.guid)
      (hgt : g.txGuid = t.guid) (hil : i.lotGuid = some l) (hl : c.Fills L l)
      (hgl : g.lotGuid = none) (hi' : i.reconcileState = .n) (hg' : g.reconcileState = .n) :
      Move host c L
        { L with
          transactions := L.transactions ++ [t]
          splits := L.splits ++ [i, g]
          marks := L.marks ++ [tagRow t.guid c.run, tagRow i.guid c.run, tagRow g.guid c.run]
          drawn := L.drawn + 3 }

abbrev Path (host : Host) (c : Scope) : Marked → Marked → Prop := Relation.ReflTransGen (Move host c)

variable {host : Host} {c : Scope} {L L' : Marked}

theorem Move.path (h : Move host c L L') : Path host c L L' := Relation.ReflTransGen.single h

/-! ## What moves keep -/

theorem Move.drawn_le (h : Move host c L L') : L.drawn ≤ L'.drawn := by
  cases h <;> simp

theorem Move.marks_isPrefix (h : Move host c L L') : L.marks <+: L'.marks := by
  cases h <;> simp

theorem map_guid_close (l : String) (lots : List Lot) :
    (editAt Lot.guid l (fun x => { x with isClosed := 1 }) lots).map Lot.guid =
      lots.map Lot.guid :=
  map_editAt (f := fun x : Lot => { x with isClosed := 1 }) (g := Lot.guid) (fun _ => rfl) lots

variable {l r g : String} {α : Type} {m : ℕ} {s s' : Split} {guids : List String}

theorem Move.lots_subset (h : Move host c L L') (hl : l ∈ L.lots.map Lot.guid) :
    l ∈ L'.lots.map Lot.guid := by
  cases h with
  | openLot => simp [hl]
  | closeLot =>
    exact (map_guid_close _ L.lots).symm ▸ hl
  | _ => exact hl

theorem Path.drawn_le (h : Path host c L L') : L.drawn ≤ L'.drawn := by
  induction h with
  | refl => exact le_rfl
  | tail _ hm ih => exact ih.trans hm.drawn_le

theorem Path.marks_isPrefix (h : Path host c L L') : L.marks <+: L'.marks := by
  induction h with
  | refl => exact List.prefix_rfl
  | tail _ hm ih => exact ih.trans hm.marks_isPrefix

theorem Path.lots_subset (h : Path host c L L') (hl : l ∈ L.lots.map Lot.guid) :
    l ∈ L'.lots.map Lot.guid := by
  induction h with
  | refl => exact hl
  | tail _ hm ih => exact hm.lots_subset ih

theorem tagged_of_isPrefix (h : L.marks <+: L'.marks) (ht : L.Tagged r g) :
    L'.Tagged r g :=
  h.subset ht

theorem find?_of_isPrefix {as bs : List α} (h : as <+: bs) {p : α → Bool} {a : α}
    (ha : as.find? p = some a) : bs.find? p = some a := by
  obtain ⟨cs, rfl⟩ := h
  rw [List.find?_append, ha]
  rfl

theorem text_of_isPrefix (h : L.marks <+: L'.marks) {name text : String}
    (ht : L.text g name = some text) : L'.text g name = some text := by
  unfold Marked.text at ht ⊢
  cases hf : L.marks.find? fun r => r.objGuid = g ∧ r.name = name with
  | none =>
    rw [hf] at ht
    cases ht
  | some row =>
    rw [hf] at ht
    rw [find?_of_isPrefix h hf]
    exact ht

theorem int_of_isPrefix (h : L.marks <+: L'.marks) {name : String} {n : ℤ}
    (hn : L.int g name = some n) : L'.int g name = some n := by
  obtain ⟨text, ht, hb⟩ := Option.bind_eq_some_iff.1 hn
  exact Option.bind_eq_some_iff.2 ⟨text, text_of_isPrefix h ht, hb⟩

theorem original_of_isPrefix (h : L.marks <+: L'.marks) {o : Amount × Amount}
    (ho : L.original g = some o) : L'.original g = some o := by
  simp only [Marked.original, Option.bind_eq_bind, Option.bind_eq_some_iff] at ho ⊢
  obtain ⟨a, ha, b, hb, d, hd, e, he, h'⟩ := ho
  exact ⟨a, int_of_isPrefix h ha, b, int_of_isPrefix h hb, d, int_of_isPrefix h hd, e,
    int_of_isPrefix h he, h'⟩

theorem stashed_of_isPrefix (h : L.marks <+: L'.marks) (hs : L.Stashed r g) :
    L'.Stashed r g := by
  obtain ⟨s, hg, hrows⟩ := hs
  exact ⟨s, hg, List.Subset.trans hrows h.subset⟩

theorem Path.fills (h : Path host c L L') (hl : c.Fills L l) : c.Fills L' l :=
  ⟨h.lots_subset hl.1, hl.2.imp_right (tagged_of_isPrefix h.marks_isPrefix)⟩

/-! ## Soundness -/

/-- Every guid names one row and no undrawn guid is in use. -/
structure Sound (host : Host) (L : Marked) : Prop where
  nodup : (L.splits.map Split.guid).Nodup
  unused : L.UsesOnly fun g => ∀ n, L.drawn ≤ n → g ≠ host.generateGuid n
  split_ne_transaction : ∀ s ∈ L.splits, ∀ t ∈ L.transactions, s.guid ≠ t.guid
  split_ne_lot : ∀ s ∈ L.splits, ∀ l ∈ L.lots, s.guid ≠ l.guid
  hasTransaction : ∀ s ∈ L.splits, s.txGuid ∈ L.transactions.map Transaction.guid

theorem Sound.draw (h : Sound host L) (n : ℕ) : Sound host { L with drawn := L.drawn + n } :=
  ⟨h.nodup, { h.unused.mono fun _ hg m hm => hg m (Nat.le_of_add_right_le hm) with },
    h.split_ne_transaction, h.split_ne_lot, h.hasTransaction⟩

structure Scope.Closed (host : Host) (c : Scope) (n₀ : ℕ) : Prop where
  run : ∀ n, n₀ ≤ n → c.run ≠ host.generateGuid n
  rewritable : ∀ n, n₀ ≤ n → ¬c.Rewritable (host.generateGuid n)
  old : ∀ n, n₀ ≤ n → ¬c.Old (host.generateGuid n)

theorem Scope.Closed.mono {n : ℕ} (h : c.Closed host n) (hnm : n ≤ m) : c.Closed host m where
  run := fun k hk => h.run k (hnm.trans hk)
  rewritable := fun k hk => h.rewritable k (hnm.trans hk)
  old := fun k hk => h.old k (hnm.trans hk)

theorem SameRow.guid_eq (h : SameRow s s') : s'.guid = s.guid := by
  rw [h]

theorem SameRow.txGuid_eq (h : SameRow s s') : s'.txGuid = s.txGuid := by
  rw [h]

theorem SameRow.accountGuid_eq (h : SameRow s s') :
    s'.accountGuid = s.accountGuid := by
  rw [h]

theorem SameRow.reconcileState_eq (h : SameRow s s') :
    s'.reconcileState = s.reconcileState := by
  rw [h]

theorem SameRow.refl (s : Split) : SameRow s s := rfl

theorem SameRow.trans {s'' : Split} (h : SameRow s s') (h' : SameRow s' s'') :
    SameRow s s'' := by
  rw [h] at h'
  exact h'

theorem SameRow.symm (h : SameRow s s') : SameRow s' s := by
  rw [SameRow, h]

theorem forall_append {Q : α → Prop} {as bs : List α} (ha : ∀ a ∈ as, Q a)
    (hb : ∀ b ∈ bs, Q b) : ∀ a ∈ as ++ bs, Q a :=
  fun a h => (List.mem_append.1 h).elim (ha a) (hb a)

theorem forall_editAt {κ : Type} [DecidableEq κ] {key : α → κ} {k : κ} {f : α → α}
    {Q : α → Prop} {rows : List α} (h : ∀ r ∈ rows, Q r) (hf : ∀ r ∈ rows, Q r → Q (f r)) :
    ∀ r ∈ editAt key k f rows, Q r := by
  intro r hr
  obtain ⟨s, hs, rfl⟩ := mem_editAt.1 hr
  split
  · exact hf s hs (h s hs)
  · exact h s hs

theorem stashRows_objGuid : ∀ x ∈ stashRows s r, x.objGuid = s.guid := by
  simp [stashRows, tagRow]

theorem eq_tagRow_of_mem_stashRows :
    ∀ x ∈ stashRows s r, x.name = generatedSlot → x = tagRow s.guid r := by
  simp [stashRows, tagRow, originalQuantityNum, originalQuantityDenom, originalValueNum,
    originalValueDenom, generatedSlot]

theorem Move.usesOnly (h : Move host c L L') {P : String → Prop} (hL : L.UsesOnly P)
    (hrun : P c.run) (hnew : ∀ n, L.drawn ≤ n → n < L'.drawn → P (host.generateGuid n)) :
    L'.UsesOnly P := by
  have hfill {l : String} (hl : c.Fills L l) : P l := by
    obtain ⟨x, hx, rfl⟩ := List.mem_map.1 hl.1
    exact hL.lots x hx
  cases h with
  | draw n => exact { hL with }
  | unprice p => exact { hL with priced := fun r hr => hL.priced r (List.mem_filter.1 hr).1 }
  | price hg =>
    refine { hL with priced := forall_append hL.priced ?_ }
    simpa using hrun
  | openLot accountGuid =>
    have hn := hnew L.drawn le_rfl (by simp)
    refine { hL with
      lots := forall_append hL.lots ?_
      marks := forall_append hL.marks ?_
      tags := forall_append hL.tags ?_ }
    · simpa using hn
    · simpa [tagRow] using hn
    · simpa [tagRow] using hrun
  | closeLot hl => exact { hL with lots := forall_editAt hL.lots fun _ _ h => h }
  | assign hg hl =>
    refine { hL with
      splits := forall_editAt hL.splits fun _ _ h => h
      assigned := forall_editAt hL.assigned fun s _ h l hl' => ?_ }
    cases hl'
    exact hfill hl
  | stash hs hg =>
    refine { hL with
      marks := forall_append hL.marks fun x hx => ?_
      tags := forall_append hL.tags fun x hx hname => ?_ }
    · rw [stashRows_objGuid x hx]
      exact hL.splits _ hs
    · rw [eq_tagRow_of_mem_stashRows x hx hname]
      simpa [tagRow] using hrun
  | rewrite hg ho f =>
    exact { hL with
      splits := forall_editAt hL.splits fun _ _ h => h
      assigned := forall_editAt hL.assigned fun _ _ h => h }
  | carve hs hp hg ho quantity value hl =>
    have hn := hnew L.drawn le_rfl (by simp)
    refine { hL with
      splits := forall_append hL.splits ?_
      marks := forall_append hL.marks ?_
      assigned := forall_append hL.assigned ?_
      tags := forall_append hL.tags ?_ }
    · simpa using hn
    · simpa [tagRow] using hn
    · intro s hs' l hl'
      cases List.mem_singleton.1 hs'
      exact hfill (hl l hl')
    · simpa [tagRow, parentSplitSlot, generatedSlot] using hrun
  | book ht hi hg hit hgt hil hl hgl =>
    have ht' : P _ := ht ▸ hnew L.drawn le_rfl (by simp)
    have hi' : P _ := hi ▸ hnew (L.drawn + 1) (by simp) (by simp)
    have hg' : P _ := hg ▸ hnew (L.drawn + 2) (by simp) (by simp)
    refine { hL with
      transactions := forall_append hL.transactions ?_
      splits := forall_append hL.splits ?_
      marks := forall_append hL.marks ?_
      assigned := forall_append hL.assigned ?_
      tags := forall_append hL.tags ?_ }
    · simp [hi', hg']
    · simpa using ht'
    · simp [tagRow, ht', hi', hg']
    · simp [hil, hgl, hfill hl]
    · simp [tagRow, hrun]

theorem Move.splits_guid (h : Move host c L L') :
    L'.splits.map Split.guid = L.splits.map Split.guid ∨
      L'.splits.map Split.guid = L.splits.map Split.guid ++ [host.generateGuid L.drawn] ∨
      L'.splits.map Split.guid = L.splits.map Split.guid ++
        [host.generateGuid (L.drawn + 1), host.generateGuid (L.drawn + 2)] := by
  cases h with
  | assign =>
    refine .inl (map_editAt ?_ L.splits)
    exact fun _ => rfl
  | rewrite =>
    refine .inl (map_editAt ?_ L.splits)
    exact fun _ => rfl
  | carve => exact .inr (.inl (by simp))
  | book ht hi hg => exact .inr (.inr (by simp [hi, hg]))
  | _ => exact .inl rfl

theorem Move.sound (hinj : Function.Injective host.generateGuid) (h : Move host c L L')
    (hrun : ∀ n, L.drawn ≤ n → c.run ≠ host.generateGuid n) (hL : Sound host L) :
    Sound host L' where
  nodup := by
    have hfresh (n : ℕ) (hn : L.drawn ≤ n) : host.generateGuid n ∉ L.splits.map Split.guid := by
      intro hmem
      obtain ⟨s, hs, he⟩ := List.mem_map.1 hmem
      exact hL.unused.splits s hs n hn he
    rcases h.splits_guid with he | he | he
    · exact he ▸ hL.nodup
    · rw [he]
      exact hL.nodup.append (List.nodup_singleton _) (by simpa using hfresh L.drawn le_rfl)
    · rw [he]
      refine hL.nodup.append ?_ ?_
      · simp [hinj.eq_iff]
      · simp only [List.disjoint_cons_right, List.disjoint_nil_right, and_true]
        exact ⟨hfresh _ (by simp), hfresh _ (by simp)⟩
  unused := by
    refine h.usesOnly (P := fun g => ∀ n, L'.drawn ≤ n → g ≠ host.generateGuid n) ?_ ?_ ?_
    · exact hL.unused.mono fun g hg n hn => hg n (h.drawn_le.trans hn)
    · exact fun n hn => hrun n (h.drawn_le.trans hn)
    · intro n _ hn m hm he
      exact absurd (hinj he) (by omega)
  split_ne_transaction := by
    cases h with
    | assign => exact forall_editAt hL.split_ne_transaction fun _ _ h => h
    | rewrite => exact forall_editAt hL.split_ne_transaction fun _ _ h => h
    | carve =>
      refine forall_append hL.split_ne_transaction ?_
      simpa using fun t ht => (hL.unused.transactions t ht L.drawn le_rfl).symm
    | book ht hi hg =>
      refine forall_append (fun s hs => forall_append (hL.split_ne_transaction s hs) ?_) ?_
      · simpa [ht] using hL.unused.splits s hs L.drawn le_rfl
      · have h₁ (t : Transaction) (h : t ∈ L.transactions) :=
          hL.unused.transactions t h (L.drawn + 1) (by simp)
        have h₂ (t : Transaction) (h : t ∈ L.transactions) :=
          hL.unused.transactions t h (L.drawn + 2) (by simp)
        simp only [List.mem_append, List.mem_cons, List.not_mem_nil, or_false]
        rintro s (rfl | rfl) t (h | rfl)
        · exact hi ▸ (h₁ t h).symm
        · simp [hi, ht, hinj.eq_iff]
        · exact hg ▸ (h₂ t h).symm
        · simp [hg, ht, hinj.eq_iff]
    | _ => exact hL.split_ne_transaction
  split_ne_lot := by
    cases h with
    | assign => exact forall_editAt hL.split_ne_lot fun _ _ h => h
    | rewrite => exact forall_editAt hL.split_ne_lot fun _ _ h => h
    | openLot =>
      refine fun s hs => forall_append (hL.split_ne_lot s hs) ?_
      simpa using hL.unused.splits s hs L.drawn le_rfl
    | closeLot => exact fun s hs => forall_editAt (hL.split_ne_lot s hs) fun _ _ h => h
    | carve =>
      refine forall_append hL.split_ne_lot ?_
      simpa using fun l hl => (hL.unused.lots l hl L.drawn le_rfl).symm
    | book ht hi hg =>
      refine forall_append hL.split_ne_lot ?_
      simp only [List.mem_cons, List.not_mem_nil, or_false]
      rintro s (rfl | rfl) l hl
      · exact hi ▸ (hL.unused.lots l hl (L.drawn + 1) (by simp)).symm
      · exact hg ▸ (hL.unused.lots l hl (L.drawn + 2) (by simp)).symm
    | _ => exact hL.split_ne_lot
  hasTransaction := by
    cases h with
    | assign => exact forall_editAt hL.hasTransaction fun _ _ h => h
    | rewrite => exact forall_editAt hL.hasTransaction fun _ _ h => h
    | carve hs hp =>
      refine forall_append hL.hasTransaction ?_
      simpa [hp.txGuid_eq] using hL.hasTransaction _ hs
    | book ht hi hg hit hgt =>
      refine forall_append (fun s hs => ?_) ?_
      · simp [hL.hasTransaction s hs]
      · simp [hit, hgt]
    | _ => exact hL.hasTransaction

theorem Path.sound (hinj : Function.Injective host.generateGuid) (h : Path host c L L')
    (hc : c.Closed host L.drawn) (hL : Sound host L) : Sound host L' := by
  induction h with
  | refl => exact hL
  | tail hp hm ih => exact hm.sound hinj (hc.mono (Path.drawn_le hp)).run ih

/-! ## Stashing -/

theorem bigIntText_ne_empty (n : ℤ) : bigIntText n ≠ "" := by
  intro h
  have hd : Text.intDigits n = [] := by simpa [bigIntText] using h
  have hb := Text.bigInt_intDigits n
  cases n with
  | ofNat n => exact Text.natDigits_ne_nil n hd
  | negSucc n => cases hd

@[simp] theorem bigInt_bigIntText (n : ℤ) : Text.bigInt (bigIntText n).toList = some n := by
  simp [bigIntText]

theorem text_append (hg : ¬L.HasMark g) (rows : List Slot) (name : String) :
    { L with marks := L.marks ++ rows }.text g name = { L with marks := rows }.text g name := by
  have hnone : (L.marks.find? fun r => r.objGuid = g ∧ r.name = name) = none := by
    refine List.find?_eq_none.2 fun x hx hp => hg ?_
    exact List.mem_map.2 ⟨x, hx, (of_decide_eq_true hp).1⟩
  unfold Marked.text
  rw [List.find?_append, hnone, Option.none_or]

theorem original_eq_none_of_not_hasMark (h : ¬L.HasMark g) : L.original g = none := by
  have htext (name : String) : L.text g name = none := by
    have hnone : (L.marks.find? fun r => r.objGuid = g ∧ r.name = name) = none :=
      List.find?_eq_none.2 fun r hr hp => h (List.mem_map.2 ⟨r, hr, (of_decide_eq_true hp).1⟩)
    rw [Marked.text, hnone]
    rfl
  simp [Marked.original, Marked.int, htext]

theorem original_stash (r : String) (hs : ¬L.HasMark s.guid) :
    { L with marks := L.marks ++ stashRows s r }.original s.guid =
      some (s.quantity, s.value) := by
  simp only [Marked.original, Marked.int, text_append hs]
  simp [Marked.text, stashRows, originalQuantityNum, originalQuantityDenom, originalValueNum,
    originalValueDenom, Option.filter_some, bigIntText_ne_empty]

theorem tagged_of_stashed (h : L.Stashed r g) : L.Tagged r g := by
  obtain ⟨s, rfl, hrows⟩ := h
  exact hrows (by simp [stashRows])

/-- Guids that were drawn one after the other between two numbers. -/
def DrawnBetween (host : Host) (m n : ℕ) (guids : List String) : Prop :=
  ∃ ks : List ℕ, guids = ks.map host.generateGuid ∧ ks.Pairwise (· < ·) ∧ ∀ k ∈ ks, m ≤ k ∧ k < n

theorem DrawnBetween.nodup {n : ℕ} (h : DrawnBetween host m n guids)
    (hinj : Function.Injective host.generateGuid) : guids.Nodup := by
  obtain ⟨ks, rfl, hks, -⟩ := h
  exact List.Nodup.map hinj (hks.imp fun hlt => hlt.ne)

theorem DrawnBetween.cons {n : ℕ} (h : DrawnBetween host m n guids) {k : ℕ}
    (hkm : k < m) (hmn : m ≤ n) : DrawnBetween host k n (host.generateGuid k :: guids) := by
  obtain ⟨ks, rfl, hks, hbounds⟩ := h
  refine ⟨k :: ks, rfl, List.pairwise_cons.2 ⟨fun j hj => hkm.trans_le (hbounds j hj).1, hks⟩, ?_⟩
  intro j hj
  rcases List.mem_cons.1 hj with rfl | hj
  · exact ⟨le_rfl, hkm.trans_le hmn⟩
  · exact ⟨hkm.le.trans (hbounds j hj).1, (hbounds j hj).2⟩

theorem DrawnBetween.mono {k n : ℕ} (h : DrawnBetween host k m guids)
    (hmn : m ≤ n) : DrawnBetween host k n guids := by
  obtain ⟨ks, rfl, hks, hbounds⟩ := h
  exact ⟨ks, rfl, hks, fun j hj => ⟨(hbounds j hj).1, (hbounds j hj).2.trans_le hmn⟩⟩

end Lots
