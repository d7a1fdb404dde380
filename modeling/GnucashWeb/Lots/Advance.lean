import GnucashWeb.Lots.Unseen

/-!
# Advancing a run

`Advance` is what every finished part of a run does to the tables: it follows moves, it keeps the
quantity and the value of every old transaction and account pair that is not revalued, and it leaves
a sub-split beside every reconciled split it stashes.  `Stage` is what the parts of a division do
before the division is finished.
-/

open Ledger Transact Rows

namespace Lots

/-! ## Totals -/

/-- Whether a split is in a transaction and an account. -/
def InCell (t a : String) (s : Split) : Prop := s.txGuid = t ∧ s.accountGuid = a

instance (t a : String) : DecidablePred (InCell t a) :=
  fun s => inferInstanceAs (Decidable (s.txGuid = t ∧ s.accountGuid = a))

def cellQuantity (splits : List Split) (t a : String) : ℚ :=
  total (InCell t a) (fun s => s.quantity.exact) splits

def cellValue (splits : List Split) (t a : String) : ℚ :=
  total (InCell t a) (fun s => s.value.exact) splits

variable {s s' : Split}

theorem SameRow.inCell (h : SameRow s s') {t a : String} :
    InCell t a s' ↔ InCell t a s := by
  rw [InCell, InCell, h.txGuid_eq, h.accountGuid_eq]

/-- The totals of a split's transaction and account change by the given amounts, and no others. -/
def Shifts (splits splits' : List Split) (p : Split) (dq dv : ℚ) : Prop :=
  ∀ t a, cellQuantity splits' t a = cellQuantity splits t a + (if InCell t a p then dq else 0) ∧
    cellValue splits' t a = cellValue splits t a + (if InCell t a p then dv else 0)

theorem Shifts.refl (splits : List Split) (p : Split) : Shifts splits splits p 0 0 := by
  simp [Shifts]

theorem Shifts.trans {splits splits' splits'' : List Split} {p : Split} {dq dv dq' dv' : ℚ}
    (h : Shifts splits splits' p dq dv) (h' : Shifts splits' splits'' p dq' dv') :
    Shifts splits splits'' p (dq + dq') (dv + dv') := by
  intro t a
  rw [(h' t a).1, (h' t a).2, (h t a).1, (h t a).2]
  by_cases hp : InCell t a p <;> simp [hp, add_assoc]

theorem shifts_append (splits : List Split) {p k : Split} (ht : k.txGuid = p.txGuid)
    (ha : k.accountGuid = p.accountGuid) :
    Shifts splits (splits ++ [k]) p k.quantity.exact k.value.exact := by
  intro t a
  have hk : InCell t a k ↔ InCell t a p := by
    rw [InCell, InCell, ht, ha]
  simp [cellQuantity, cellValue, total_cons, hk]

theorem shifts_editAt {splits : List Split} (hnd : (splits.map Split.guid).Nodup) {p : Split}
    (hs : s ∈ splits) (hp : SameRow s p) {f : Split → Split} (hf : ∀ s, SameRow s (f s)) :
    Shifts splits (editAt Split.guid s.guid f splits) p
      ((f s).quantity.exact - s.quantity.exact) ((f s).value.exact - s.value.exact) := by
  intro t a
  constructor
  · rw [cellQuantity, total_editAt hnd hs (hf s).inCell]
    by_cases h : InCell t a s
    · rw [if_pos h, if_pos (hp.inCell.2 h)]
      rfl
    · rw [if_neg h, if_neg fun h' => h (hp.inCell.1 h')]
      rfl
  · rw [cellValue, total_editAt hnd hs (hf s).inCell]
    by_cases h : InCell t a s
    · rw [if_pos h, if_pos (hp.inCell.2 h)]
      rfl
    · rw [if_neg h, if_neg fun h' => h (hp.inCell.1 h')]
      rfl

variable {host : Host} {c : Scope} {L L' : Marked}

theorem Move.persists (h : Move host c L L') (hs : s ∈ L.splits) :
    ∃ s' ∈ L'.splits, SameRow s s' := by
  cases h with
  | assign =>
    refine ⟨_, mem_editAt.2 ⟨s, hs, rfl⟩, ?_⟩
    split <;> rfl
  | rewrite =>
    refine ⟨_, mem_editAt.2 ⟨s, hs, rfl⟩, ?_⟩
    split <;> rfl
  | carve => exact ⟨s, by simp [hs], rfl⟩
  | book => exact ⟨s, by simp [hs], rfl⟩
  | _ => exact ⟨s, hs, rfl⟩

theorem Path.persists (h : Path host c L L') (hs : s ∈ L.splits) :
    ∃ s' ∈ L'.splits, SameRow s s' := by
  induction h with
  | refl => exact ⟨s, hs, rfl⟩
  | tail _ hm ih =>
    obtain ⟨s', hs', h'⟩ := ih
    obtain ⟨s'', hs'', h''⟩ := hm.persists hs'
    exact ⟨s'', hs'', h'.trans h''⟩

theorem Move.origin (h : Move host c L L') (hs : s' ∈ L'.splits) :
    (∃ s ∈ L.splits, SameRow s s') ∨ ∃ n, L.drawn ≤ n ∧ s'.guid = host.generateGuid n := by
  cases h with
  | assign =>
    obtain ⟨s, hs₀, rfl⟩ := mem_editAt.1 hs
    refine .inl ⟨s, hs₀, ?_⟩
    split <;> rfl
  | rewrite =>
    obtain ⟨s, hs₀, rfl⟩ := mem_editAt.1 hs
    refine .inl ⟨s, hs₀, ?_⟩
    split <;> rfl
  | carve =>
    rcases List.mem_append.1 hs with hs | hs
    · exact .inl ⟨s', hs, rfl⟩
    · cases List.mem_singleton.1 hs
      exact .inr ⟨L.drawn, le_rfl, rfl⟩
  | book ht hi hg =>
    simp only [List.mem_append, List.mem_cons, List.not_mem_nil, or_false] at hs
    rcases hs with hs | rfl | rfl
    · exact .inl ⟨s', hs, rfl⟩
    · exact .inr ⟨_, by simp, hi⟩
    · exact .inr ⟨_, by simp, hg⟩
  | _ => exact .inl ⟨s', hs, rfl⟩

theorem Path.origin (h : Path host c L L') (hs : s' ∈ L'.splits) :
    (∃ s ∈ L.splits, SameRow s s') ∨ ∃ n, L.drawn ≤ n ∧ s'.guid = host.generateGuid n := by
  induction h generalizing s' with
  | refl => exact .inl ⟨s', hs, rfl⟩
  | tail hp hm ih =>
    rcases hm.origin hs with ⟨s, hs, h'⟩ | ⟨n, hn, h'⟩
    · rcases ih hs with ⟨s₀, hs₀, h₀⟩ | ⟨n, hn, h₀⟩
      · exact .inl ⟨s₀, hs₀, h₀.trans h'⟩
      · exact .inr ⟨n, hn, h'.guid_eq.trans h₀⟩
    · exact .inr ⟨n, (Path.drawn_le hp).trans hn, h'⟩

/-! ## Stashes along a path -/

/-- The slots of a stash that hold amounts. -/
def originalNames : List String :=
  [originalQuantityNum, originalQuantityDenom, originalValueNum, originalValueDenom]

theorem stashed_append_of_ne (rows : List Slot) {r g : String}
    (h : ∀ x ∈ rows, x.objGuid ≠ g) (hm : L'.marks = L.marks ++ rows) (hs : L'.Stashed r g) :
    L.Stashed r g := by
  obtain ⟨s, rfl, hsub⟩ := hs
  refine ⟨s, rfl, fun x hx => ?_⟩
  have hx' := hsub hx
  rw [hm, List.mem_append] at hx'
  exact hx'.resolve_right fun hr => h x hr (stashRows_objGuid x hx)

theorem hasMark_of_stashed {r g : String} (h : L.Stashed r g) : L.HasMark g :=
  List.mem_map.2 ⟨_, tagged_of_stashed h, rfl⟩

theorem tagRow_name_notMem (g r : String) : (tagRow g r).name ∉ originalNames := by
  change generatedSlot ∉ originalNames
  decide

theorem Move.marks_eq (h : Move host c L L') : ∃ rows, L'.marks = L.marks ++ rows ∧
    ∀ r ∈ rows, r.name ∈ originalNames → c.Rewritable r.objGuid := by
  cases h with
  | openLot =>
    refine ⟨_, rfl, ?_⟩
    simpa using fun hr => absurd hr (tagRow_name_notMem _ _)
  | stash hs hg =>
    refine ⟨_, rfl, fun r hr _ => ?_⟩
    rwa [stashRows_objGuid r hr]
  | carve =>
    refine ⟨_, rfl, ?_⟩
    simp only [List.mem_cons, List.not_mem_nil, or_false]
    rintro r (rfl | rfl) hr
    · exact absurd hr (tagRow_name_notMem _ _)
    · exact absurd hr (show parentSplitSlot ∉ originalNames by decide)
  | book =>
    refine ⟨_, rfl, ?_⟩
    simp only [List.mem_cons, List.not_mem_nil, or_false]
    rintro r (rfl | rfl | rfl) hr <;> exact absurd hr (tagRow_name_notMem _ _)
  | _ => exact ⟨[], by simp, by simp⟩

theorem Path.originals (h : Path host c L L') {r : Slot} (hr : r ∈ L'.marks)
    (hn : r.name ∈ originalNames) : r ∈ L.marks ∨ c.Rewritable r.objGuid := by
  induction h with
  | refl => exact .inl hr
  | tail _ hm ih =>
    obtain ⟨rows, heq, hrows⟩ := hm.marks_eq
    rw [heq, List.mem_append] at hr
    exact hr.elim ih fun hr => .inr (hrows r hr hn)

theorem Sound.not_hasMark (hL : Sound host L) {n : ℕ} (hn : L.drawn ≤ n) :
    ¬L.HasMark (host.generateGuid n) := by
  intro h
  obtain ⟨r, hr, he⟩ := List.mem_map.1 h
  exact hL.unused.marks r hr n hn he

def Protected (s : Split) : Prop := s.reconcileState = .y ∨ s.reconcileState = .f

/-- A split with a generated sub-split of it beside it. -/
def Covered (c : Scope) (L : Marked) (s : Split) : Prop :=
  ∃ k ∈ L.splits, ⟨k.guid, parentSplitSlot, some s.guid⟩ ∈ L.marks ∧ L.Tagged c.run k.guid ∧
    ¬c.Rewritable k.guid ∧ k.txGuid = s.txGuid

/-- Every reconciled split that the run stashed has a generated sub-split. -/
def Compensated (c : Scope) (L : Marked) : Prop :=
  ∀ s ∈ L.splits, Protected s → L.Stashed c.run s.guid → Covered c L s

theorem Covered.mono (hs : SameRow s s') (h : Path host c L L')
    (hk : Covered c L s) : Covered c L' s' := by
  obtain ⟨k, hkL, hparent, htag, hnot, htx⟩ := hk
  obtain ⟨k', hk', hrow⟩ := h.persists hkL
  refine ⟨k', hk', ?_, ?_, ?_, ?_⟩
  · rw [hrow.guid_eq, hs.guid_eq]
    exact h.marks_isPrefix.subset hparent
  · rw [hrow.guid_eq]
    exact tagged_of_isPrefix h.marks_isPrefix htag
  · rwa [hrow.guid_eq]
  · rw [hrow.txGuid_eq, hs.txGuid_eq, htx]

theorem Path.compensated (h : Path host c L L') (hL : Sound host L)
    (hc : c.Closed host L.drawn)
    (hnew : ∀ s ∈ L.splits, Protected s → L'.Stashed c.run s.guid →
      L.Stashed c.run s.guid ∨ Covered c L' s) (hcomp : Compensated c L) : Compensated c L' := by
  intro s' hs' hprot hst
  rcases h.origin hs' with ⟨s, hs, hrow⟩ | ⟨n, hn, hg⟩
  · have hprot' : Protected s := by
      rwa [Protected, ← hrow.reconcileState_eq]
    rw [hrow.guid_eq] at hst
    rcases hnew s hs hprot' hst with hst | hcov
    · exact (hcomp s hs hprot' hst).mono hrow h
    · have hrefl : Path host c L' L' := Relation.ReflTransGen.refl
      exact hcov.mono hrow hrefl
  · rw [hg] at hst
    obtain ⟨p, hp, hrows⟩ := hst
    have hrow : ⟨p.guid, originalQuantityNum, some (bigIntText p.quantity.num)⟩ ∈ L'.marks :=
      hrows (by simp [stashRows])
    rcases h.originals hrow (by simp [originalNames]) with hm | hr
    · exact absurd (List.mem_map.2 ⟨_, hm, hp⟩) (hL.not_hasMark hn)
    · rw [hp] at hr
      exact absurd hr (hc.rewritable n hn)

/-! ## Advancing -/

/-- The tables are sound, and guids are distinct and new to the scope. -/
structure Ready (host : Host) (c : Scope) (db : Db) : Prop where
  inj : Function.Injective host.generateGuid
  sound : Sound host (marked db)
  closed : c.Closed host db.drawn

theorem Ready.of_path {db db' : Db} (h : Ready host c db)
    (hp : Path host c (marked db) (marked db')) : Ready host c db' :=
  ⟨h.inj, hp.sound h.inj h.closed h.sound, h.closed.mono hp.drawn_le⟩

/-- What a finished part of a run does to the tables. -/
structure Advance (host : Host) (c : Scope) (db db' : Db) : Prop where
  path : Path host c (marked db) (marked db')
  quantity : ∀ t a, c.Old t → cellQuantity db'.splits t a = cellQuantity db.splits t a
  value : ∀ t a, c.Old t → ¬c.Revalued t a → cellValue db'.splits t a = cellValue db.splits t a
  compensated : Compensated c (marked db) → Compensated c (marked db')

variable {db db' db'' : Db}

theorem Advance.refl (db : Db) : Advance host c db db :=
  ⟨Relation.ReflTransGen.refl, fun _ _ _ => rfl, fun _ _ _ _ => rfl, fun h => h⟩

theorem Advance.trans (h : Advance host c db db') (h' : Advance host c db' db'') :
    Advance host c db db'' where
  path := Relation.ReflTransGen.trans h.path h'.path
  quantity := fun t a ht => (h'.quantity t a ht).trans (h.quantity t a ht)
  value := fun t a ht hv => (h'.value t a ht hv).trans (h.value t a ht hv)
  compensated := fun hc => h'.compensated (h.compensated hc)

theorem Ready.of_advance (h : Ready host c db) (ha : Advance host c db db') : Ready host c db' :=
  h.of_path ha.path

theorem Advance.fills (h : Advance host c db db') {l : String} (hl : c.Fills (marked db) l) :
    c.Fills (marked db') l :=
  h.path.fills hl

theorem Unseen.advance (h : Unseen db db') : Advance host c db db' where
  path := by
    rw [h]
  quantity := fun t a _ => by
    have hs : db'.splits = db.splits := congrArg Marked.splits h
    rw [hs]
  value := fun t a _ _ => by
    have hs : db'.splits = db.splits := congrArg Marked.splits h
    rw [hs]
  compensated := by
    rw [h]
    exact fun hc => hc

theorem Advance.of_path (rows : List Slot) (hr : Ready host c db)
    (hp : Path host c (marked db) (marked db')) (hm : (marked db').marks = (marked db).marks ++ rows)
    (hrows : ∀ r ∈ rows, ∀ s ∈ db.splits, r.objGuid ≠ s.guid)
    (htotal : ∀ t a, c.Old t → cellQuantity db'.splits t a = cellQuantity db.splits t a ∧
      cellValue db'.splits t a = cellValue db.splits t a) : Advance host c db db' where
  path := hp
  quantity := fun t a ht => (htotal t a ht).1
  value := fun t a ht _ => (htotal t a ht).2
  compensated := hp.compensated hr.sound hr.closed fun s hs _ hst =>
    .inl (stashed_append_of_ne rows (fun r hx => hrows r hx s hs) hm hst)

theorem Advance.of_splits_eq (rows : List Slot) (hr : Ready host c db)
    (hp : Path host c (marked db) (marked db')) (hm : (marked db').marks = (marked db).marks ++ rows)
    (hrows : ∀ r ∈ rows, ∀ s ∈ db.splits, r.objGuid ≠ s.guid) (hs : db'.splits = db.splits) :
    Advance host c db db' := by
  refine Advance.of_path rows hr hp hm hrows fun t a _ => ?_
  rw [hs]
  exact ⟨rfl, rfl⟩

/-! ## Dividing a split -/

/-- What a part of the division of a split does to the tables: its totals change by the given
amounts, and no other split that was there is stashed. -/
structure Stage (host : Host) (c : Scope) (p : Split) (db db' : Db) (dq dv : ℚ) : Prop where
  path : Path host c (marked db) (marked db')
  shifts : Shifts db.splits db'.splits p dq dv
  others : ∀ g, g ≠ p.guid → (∀ n, db.drawn ≤ n → g ≠ host.generateGuid n) →
    (marked db').Stashed c.run g → (marked db).Stashed c.run g

variable {p : Split} {dq dv dq' dv' : ℚ}

theorem Stage.refl (p : Split) (db : Db) : Stage host c p db db 0 0 :=
  ⟨Relation.ReflTransGen.refl, Shifts.refl _ p, fun _ _ _ h => h⟩

theorem Stage.trans (h : Stage host c p db db' dq dv) (h' : Stage host c p db' db'' dq' dv') :
    Stage host c p db db'' (dq + dq') (dv + dv') where
  path := Relation.ReflTransGen.trans h.path h'.path
  shifts := h.shifts.trans h'.shifts
  others := fun g hg hn hst =>
    h.others g hg hn (h'.others g hg (fun n hle => hn n (h.path.drawn_le.trans hle)) hst)

theorem Stage.congr (h : Stage host c p db db' dq dv) (hq : dq = dq') (hv : dv = dv') :
    Stage host c p db db' dq' dv' :=
  hq ▸ hv ▸ h

theorem Unseen.stage (p : Split) (h : Unseen db db') : Stage host c p db db' 0 0 where
  path := by
    rw [h]
  shifts := by
    have hs : db'.splits = db.splits := congrArg Marked.splits h
    rw [hs]
    exact Shifts.refl _ p
  others := by
    rw [h]
    exact fun _ _ _ h => h

/-- A division whose parts add up, with a sub-split beside a reconciled split, is finished. -/
theorem Stage.advance (h : Stage host c p db db' dq dv) (hr : Ready host c db)
    (hs : s ∈ db.splits) (hp : SameRow s p) (hq : dq = 0)
    (hv : dv = 0 ∨ c.Revalued p.txGuid p.accountGuid)
    (hcov : Protected p → Covered c (marked db') p) : Advance host c db db' where
  path := h.path
  quantity := fun t a _ => by
    rw [(h.shifts t a).1, hq]
    simp
  value := fun t a _ hnot => by
    rw [(h.shifts t a).2]
    rcases hv with rfl | hv
    · simp
    · have hcell : ¬InCell t a p := by
        rintro ⟨rfl, rfl⟩
        exact hnot hv
      simp [hcell]
  compensated := h.path.compensated hr.sound hr.closed fun s' hs' hprot hst => by
    by_cases hg : s'.guid = p.guid
    · have heq : s' = s := List.inj_on_of_nodup_map hr.sound.nodup hs' hs (hg.trans hp.guid_eq)
      subst heq
      have hprot' : Protected p := by
        rwa [Protected, hp.reconcileState_eq]
      obtain ⟨k, hk, h₁, h₂, h₃, h₄⟩ := hcov hprot'
      exact .inr ⟨k, hk, hp.guid_eq ▸ h₁, h₂, h₃, h₄.trans hp.txGuid_eq⟩
    · exact .inl (h.others _ hg (fun n hn => hr.sound.unused.splits s' hs' n hn) hst)

end Lots
