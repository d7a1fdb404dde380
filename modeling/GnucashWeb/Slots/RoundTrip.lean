import GnucashWeb.Slots.Blocks

/-!
# The slot round trip

Reading the rows of a slot tree back in any order gives a shuffle of the tree
(`Siblings.exists_readings`), and reading them in written order gives the same tree.  Whether every
order gives the same tree is decided by the lists of the tree: `roundTrip_iff` says that this holds
exactly when the items of every list are all the same.
-/

/-!
## Reading written rows back

`Block.Reads` says what the row of a block reads as in every index that agrees with a given table
on the guids of the block.  `reads_frame` and `reads_list` read a composite value from readings of
its children, and `writes_reads` concludes that the rows of a value, reordered in any way, read as
a shuffle of the value.
-/

open Table

namespace Slots

variable {ν : Type} [Zero ν] {host : Host}

/-! ## Readers that mark guids -/

/-- Reading values in turn, when each marks only guids of its own range and the ranges are
disjoint. -/
theorem readAll_map_eq {π α β : Type} (read : α → ReadState → Option β × ReadState) (row : π → α)
    {val : π → β} {G : π → Set String} {ps : List π}
    (hdis : ps.Pairwise fun p q => Disjoint (G p) (G q))
    (h : ∀ p ∈ ps, ∀ st : ReadState, (∀ g ∈ G p, g ∉ st.visited) →
      ∃ vis, read (row p) st = (some (val p), ⟨vis, st.skipped⟩) ∧
        ∀ g ∈ vis, g ∈ st.visited ∨ g ∈ G p)
    (st : ReadState) (hv : ∀ p ∈ ps, ∀ g ∈ G p, g ∉ st.visited) :
    ∃ vis, readAll read (ps.map row) st = (ps.map val, ⟨vis, st.skipped⟩) ∧
      ∀ g ∈ vis, g ∈ st.visited ∨ ∃ p ∈ ps, g ∈ G p := by
  induction ps generalizing st with
  | nil => exact ⟨st.visited, rfl, fun g hg => .inl hg⟩
  | cons p ps ih =>
    obtain ⟨hp, hps⟩ := List.pairwise_cons.1 hdis
    obtain ⟨vis, hread, hvis⟩ := h p (by simp) st (hv p (by simp))
    have hfree : ∀ q ∈ ps, ∀ g ∈ G q, g ∉ vis := by
      intro q hq g hg hgv
      rcases hvis g hgv with hgs | hgp
      · exact hv q (List.mem_cons_of_mem _ hq) g hg hgs
      · exact Set.disjoint_left.1 (hp q hq) hgp hg
    obtain ⟨vis', hread', hvis'⟩ :=
      ih hps (fun q hq => h q (List.mem_cons_of_mem _ hq)) ⟨vis, st.skipped⟩ hfree
    refine ⟨vis', ?_, fun g hg => ?_⟩
    · simp only [List.map_cons, readAll, hread, hread', Option.toList_some, List.singleton_append]
    · rcases hvis' g hg with hg | ⟨q, hq, hg⟩
      · rcases hvis g hg with hg | hg
        · exact .inl hg
        · exact .inr ⟨p, by simp, hg⟩
      · exact .inr ⟨q, List.mem_cons_of_mem _ hq, hg⟩

omit [Zero ν] in
theorem sortByName_perm (rows : List (DbSlotRow ν)) : (sortByName rows).Perm rows :=
  List.perm_insertionSort _ _

/-! ## Readings -/

omit [Zero ν] in
theorem map_row_of_map_fst {ds : List (Block ν × SlotValue ν)} {bs : List (Block ν)}
    (h : ds.map Prod.fst = bs) : (ds.map fun p => p.1.row) = bs.map Block.row := by
  rw [← h, List.map_map]
  rfl

/-- In every index that agrees with the table `Y` on the guids of the block, the row of the block
reads as `d` and marks only those guids. -/
def Block.Reads (host : Host) (b : Block ν) (Y : List (DbSlotRow ν)) (d : SlotValue ν) : Prop :=
  ∀ (X : List (DbSlotRow ν)) (fuel : ℕ) (st : ReadState),
    (∀ g ∈ b.guids host, group DbSlotRow.objGuid g X = group DbSlotRow.objGuid g Y) →
    (∀ g ∈ b.guids host, g ∉ st.visited) → b.rows.length ≤ fuel →
    ∃ vis, valueFromRow (indexDbSlotRows X) fuel b.row st = (some d, ⟨vis, st.skipped⟩) ∧
      ∀ g ∈ vis, g ∈ st.visited ∨ g ∈ b.guids host

theorem Block.Reads.congr {b : Block ν} {Y Y' : List (DbSlotRow ν)} {d : SlotValue ν}
    (h : b.Reads host Y d)
    (hY : ∀ g ∈ b.guids host, group DbSlotRow.objGuid g Y' = group DbSlotRow.objGuid g Y) :
    b.Reads host Y' d :=
  fun X fuel st hX hv hf => h X fuel st (fun g hg => (hX g hg).trans (hY g hg)) hv hf

theorem reads_of_scalar {b : Block ν} {Y : List (DbSlotRow ν)} {d : SlotValue ν}
    (h : ∀ (index : SlotIndex ν) (fuel : ℕ) (st : ReadState),
      valueFromRow index (fuel + 1) b.row st = (some d, st)) : b.Reads host Y d := by
  intro X fuel st _ _ hf
  obtain ⟨fuel, rfl⟩ := Nat.exists_eq_add_of_le' (le_trans (Nat.succ_pos _) hf)
  exact ⟨st.visited, h _ _ _, fun g hg => .inl hg⟩

/-- Blocks of one table with the values they read as, over disjoint guids drawn from call `n` up
to call `n'`. -/
structure Readings (host : Host) (Y : List (DbSlotRow ν)) (n n' : ℕ)
    (ds : List (Block ν × SlotValue ν)) : Prop where
  disjoint : ds.Pairwise fun p q => Disjoint (p.1.guids host) (q.1.guids host)
  subset : ∀ p ∈ ds, p.1.guids host ⊆ drawn host n n'
  reads : ∀ p ∈ ds, p.1.Reads host Y p.2

theorem Readings.perm {Y : List (DbSlotRow ν)} {n n' : ℕ} {ds ds' : List (Block ν × SlotValue ν)}
    (h : Readings host Y n n' ds) (hp : ds'.Perm ds) : Readings host Y n n' ds' :=
  ⟨hp.symm.pairwise h.disjoint fun h => h.symm, fun p hd => h.subset p (hp.mem_iff.1 hd),
    fun p hd => h.reads p (hp.mem_iff.1 hd)⟩

theorem Readings.readAll {Y X : List (DbSlotRow ν)} {n n' : ℕ}
    {ds : List (Block ν × SlotValue ν)} (h : Readings host Y n n' ds) {β : Type}
    (f : DbSlotRow ν → SlotValue ν → β) (fuel : ℕ) (st : ReadState)
    (hX : ∀ g ∈ drawn host n n', group DbSlotRow.objGuid g X = group DbSlotRow.objGuid g Y)
    (hv : ∀ g ∈ drawn host n n', g ∉ st.visited) (hf : ∀ p ∈ ds, p.1.rows.length ≤ fuel) :
    ∃ vis, Slots.readAll (fun row st => (valueFromRow (indexDbSlotRows X) fuel row st).map
        (Option.map (f row)) id) (ds.map fun p => p.1.row) st =
        (ds.map fun p => f p.1.row p.2, ⟨vis, st.skipped⟩) ∧
      ∀ g ∈ vis, g ∈ st.visited ∨ g ∈ drawn host n n' := by
  have hone : ∀ p ∈ ds, ∀ st : ReadState, (∀ g ∈ p.1.guids host, g ∉ st.visited) →
      ∃ vis, (valueFromRow (indexDbSlotRows X) fuel p.1.row st).map (Option.map (f p.1.row)) id =
          (some (f p.1.row p.2), ⟨vis, st.skipped⟩) ∧
        ∀ g ∈ vis, g ∈ st.visited ∨ g ∈ p.1.guids host := by
    intro p hp st hst
    obtain ⟨vis, hread, hvis⟩ :=
      h.reads p hp X fuel st (fun g hg => hX g (h.subset p hp hg)) hst (hf p hp)
    exact ⟨vis, by rw [hread]; rfl, hvis⟩
  obtain ⟨vis, hread, hvis⟩ := readAll_map_eq
    (fun row st => (valueFromRow (indexDbSlotRows X) fuel row st).map (Option.map (f row)) id)
    (fun p : Block ν × SlotValue ν => p.1.row) h.disjoint hone st
    fun p hp g hg => hv g (h.subset p hp hg)
  refine ⟨vis, hread, fun g hg => ?_⟩
  rcases hvis g hg with hg | ⟨p, hp, hg⟩
  · exact .inl hg
  · exact .inr (h.subset p hp hg)

theorem Readings.treeFor {Y X : List (DbSlotRow ν)} {n n' : ℕ}
    {ds : List (Block ν × SlotValue ν)} (h : Readings host Y n n' ds) {owner : String}
    (path : String) (hrows : sortByName (group DbSlotRow.objGuid owner Y) = ds.map fun p => p.1.row)
    (fuel : ℕ) (st : ReadState)
    (hXo : group DbSlotRow.objGuid owner X = group DbSlotRow.objGuid owner Y)
    (hX : ∀ g ∈ drawn host n n', group DbSlotRow.objGuid g X = group DbSlotRow.objGuid g Y)
    (hv : ∀ g ∈ drawn host n n', g ∉ st.visited) (hf : ∀ p ∈ ds, p.1.rows.length ≤ fuel) :
    ∃ vis, Slots.treeFor (indexDbSlotRows X) (valueFromRow (indexDbSlotRows X) fuel) owner path
        st = (ds.map fun p => (keyOf path p.1.row.name, p.2), ⟨vis, st.skipped⟩) ∧
      ∀ g ∈ vis, g ∈ st.visited ∨ g ∈ drawn host n n' := by
  have hlook : lookup owner (indexDbSlotRows X) = group DbSlotRow.objGuid owner Y :=
    (lookup_indexBy owner X).trans hXo
  unfold Slots.treeFor
  rw [hlook, hrows]
  exact h.readAll (fun row v => (keyOf path row.name, v)) fuel st hX hv hf

section Composite

variable (hinj : Function.Injective host.generateGuid) (hne : ∀ n, host.generateGuid n ≠ "")
  {name : String} {ss : List (GnuCashSlot ν)} {b : Block ν} {Y : List (DbSlotRow ν)}
  {ds : List (Block ν × SlotValue ν)}

include hinj hne

theorem reads_frame (hb : b.Parent host name SlotType.FRAME ss)
    (hds : Readings host Y (b.lo + 1) b.hi ds)
    (hlen : ∀ p ∈ ds, p.1.rows.length ≤ b.inner.length)
    (hrows : sortByName (group DbSlotRow.objGuid (host.generateGuid b.lo) Y) =
      ds.map fun p => p.1.row) :
    b.Reads host Y (.frame (ds.map fun p => (keyOf (name ++ "/") p.1.row.name, p.2))) := by
  intro X fuel st hX hv hf
  obtain ⟨fuel, rfl⟩ := Nat.exists_eq_add_of_le' (le_trans (Nat.succ_pos _) hf)
  have hmem {g : String} := @Block.Parent.mem_guids ν host _ _ _ _ hb g
  have hfuel : b.inner.length ≤ fuel := Nat.le_of_succ_le_succ hf
  have hlo : host.generateGuid b.lo ∈ b.guids host := hmem.2 (.inl rfl)
  obtain ⟨vis, hread, hvis⟩ := hds.treeFor (name ++ "/") hrows fuel
    ⟨host.generateGuid b.lo :: st.visited, st.skipped⟩ (hX _ hlo)
    (fun g hg => hX g (hmem.2 (.inr hg)))
    (fun g hg hgv => by
      rcases List.mem_cons.1 hgv with rfl | hgv
      · exact notMem_drawn_succ hinj _ _ hg
      · exact hv g (hmem.2 (.inr hg)) hgv)
    (fun p hp => (hlen p hp).trans hfuel)
  refine ⟨vis, ?_, fun g hg => ?_⟩
  · simp only [valueFromRow, hb.slotType_eq, hb.guidVal_eq, hb.name_eq, Option.getD_some, hne,
      hv _ hlo, or_self, if_false, hread]
  · rcases hvis g hg with hg | hg
    · rcases List.mem_cons.1 hg with rfl | hg
      · exact .inr hlo
      · exact .inl hg
    · exact .inr (hmem.2 (.inr hg))

theorem reads_list (hb : b.Parent host name SlotType.LIST ss)
    (hds : Readings host Y (b.lo + 1) b.hi ds)
    (hlen : ∀ p ∈ ds, p.1.rows.length ≤ b.inner.length)
    (hrows : group DbSlotRow.objGuid (host.generateGuid b.lo) Y = ds.map fun p => p.1.row) :
    b.Reads host Y (.list (ds.map Prod.snd)) := by
  intro X fuel st hX hv hf
  obtain ⟨fuel, rfl⟩ := Nat.exists_eq_add_of_le' (le_trans (Nat.succ_pos _) hf)
  have hmem {g : String} := @Block.Parent.mem_guids ν host _ _ _ _ hb g
  have hfuel : b.inner.length ≤ fuel := Nat.le_of_succ_le_succ hf
  have hlo : host.generateGuid b.lo ∈ b.guids host := hmem.2 (.inl rfl)
  obtain ⟨vis, hread, hvis⟩ := hds.readAll (fun _ v => v) fuel
    ⟨host.generateGuid b.lo :: st.visited, st.skipped⟩
    (fun g hg => hX g (hmem.2 (.inr hg)))
    (fun g hg hgv => by
      rcases List.mem_cons.1 hgv with rfl | hgv
      · exact notMem_drawn_succ hinj _ _ hg
      · exact hv g (hmem.2 (.inr hg)) hgv)
    (fun p hp => (hlen p hp).trans hfuel)
  have hid : (fun (row : DbSlotRow ν) st => (valueFromRow (indexDbSlotRows X) fuel row st).map
      (Option.map fun v => v) id) = valueFromRow (indexDbSlotRows X) fuel := by
    funext row st
    simp [Prod.map]
  rw [hid] at hread
  have hlook : lookup (host.generateGuid b.lo) (indexDbSlotRows X) = ds.map fun p => p.1.row :=
    (lookup_indexBy _ X).trans ((hX _ hlo).trans hrows)
  refine ⟨vis, ?_, fun g hg => ?_⟩
  · simp only [valueFromRow, hb.slotType_eq, hb.guidVal_eq, Option.getD_some, hne,
      hv _ hlo, or_self, if_false, hlook, hread]
  · rcases hvis g hg with hg | hg
    · rcases List.mem_cons.1 hg with rfl | hg
      · exact .inr hlo
      · exact .inl hg
    · exact .inr (hmem.2 (.inr hg))

end Composite

end Slots

open Text Table Calendar

namespace Slots

variable {ν : Type} [Zero ν] {host : Host} {keep : Prop}

theorem writes_reads_scalar {owner name : String} {v : SlotValue ν} (d : SlotValue ν)
    (row : DbSlotRow ν) {b : Block ν} (h : b.Writes host owner name v)
    (hp : pushValueRows host owner name v b.lo = some ([row], b.lo)) (hd : Shuffled keep v d)
    {Y : List (DbSlotRow ν)}
    (hread : ∀ (index : SlotIndex ν) (fuel : ℕ) (st : ReadState),
      valueFromRow index (fuel + 1) row st = (some d, st)) :
    ∃ d, Shuffled keep v d ∧ b.Reads host Y d := by
  unfold Block.Writes at h
  rw [hp] at h
  obtain ⟨hrow, -⟩ := Prod.mk.inj (Option.some.inj h)
  obtain ⟨rfl, -⟩ := List.cons.inj hrow
  exact ⟨d, hd, reads_of_scalar hread⟩

/-! ## Every order gives a shuffle -/

/-- A written value reads as a shuffle of itself from every table that agrees with its block. -/
def ReadsBack (host : Host) (keep : Prop) (v : SlotValue ν) : Prop :=
  WellFormed v → ∀ {owner name : String} {b : Block ν}, b.Writes host owner name v →
    ∀ {Y : List (DbSlotRow ν)}, b.Agrees host keep Y →
      ∃ d, Shuffled keep v d ∧ b.Reads host Y d

/-- The slot that a reading contributes to the frame at `path`. -/
def slotAt (path : String) (p : Block ν × SlotValue ν) : GnuCashSlot ν :=
  (keyOf path p.1.row.name, p.2)

theorem keyOf_append (path key : String) : keyOf path (path ++ key) = key := by
  unfold keyOf
  rw [if_pos (by simp), String.toList_append, List.drop_left, String.ofList_toList]

/-- Blocks that read as shuffles of the slots they were written for, as a list of readings. -/
theorem exists_readings {owner path : String} {ss : List (GnuCashSlot ν)} {bs : List (Block ν)}
    {Y : List (DbSlotRow ν)}
    (h : List.Forall₂ (fun s b => b.Writes host owner (path ++ s.1) s.2 ∧
      ∃ d, Shuffled keep s.2 d ∧ b.Reads host Y d) ss bs) :
    ∃ ds : List (Block ν × SlotValue ν), ds.map Prod.fst = bs ∧
      (∀ p ∈ ds, p.1.Reads host Y p.2) ∧ SlotsShuffled keep ss (ds.map (slotAt path)) := by
  induction h with
  | nil => exact ⟨[], rfl, fun p hp => absurd hp List.not_mem_nil, .nil⟩
  | @cons s b ss bs hd _ ih =>
    obtain ⟨hw, d, hd, hr⟩ := hd
    obtain ⟨ds, rfl, hreads, hshuf⟩ := ih
    have hkey : keyOf path b.row.name = s.1 := by
      rw [(hw.facts_of (writesBlock s.2)).2.2.1, keyOf_append]
    refine ⟨(b, d) :: ds, rfl, List.forall_mem_cons.2 ⟨hr, hreads⟩, ?_⟩
    rw [List.map_cons, slotAt, hkey]
    exact .cons hd hshuf

theorem Readings.of_chained (hinj : Function.Injective host.generateGuid) {n n' : ℕ}
    {bs : List (Block ν)} (hc : Chained n bs n') {Y : List (DbSlotRow ν)}
    {ds : List (Block ν × SlotValue ν)} (hds : ds.map Prod.fst = bs)
    (hreads : ∀ p ∈ ds, p.1.Reads host Y p.2) : Readings host Y n n' ds := by
  subst hds
  refine ⟨?_, fun p hp => hc.guids_subset (List.mem_map_of_mem hp), hreads⟩
  have hdis := hc.disjoint hinj
  rwa [List.pairwise_map] at hdis

theorem Siblings.exists_readings_of {owner path : String} {ss : List (GnuCashSlot ν)} {n n' : ℕ}
    {bs : List (Block ν)} (hsib : Siblings host owner path ss n n' bs)
    (hinj : Function.Injective host.generateGuid) (hss : ∀ s ∈ ss, ReadsBack host keep s.2)
    (hwf : SlotsWellFormed ss) {Y : List (DbSlotRow ν)}
    (hY : ∀ b ∈ bs, b.Agrees host keep Y) :
    ∃ ds : List (Block ν × SlotValue ν), ds.map Prod.fst = bs ∧ Readings host Y n n' ds ∧
      SlotsShuffled keep ss (ds.map (slotAt path)) := by
  obtain ⟨ds, hmap, hreads, hshuf⟩ := exists_readings <| forall₂_imp_mem hsib.writes
    fun s hs b hb hw => ⟨hw, hss s hs (slotsWellFormed_iff.1 hwf s hs) hw (hY b hb)⟩
  exact ⟨ds, hmap, .of_chained hinj hsib.chained hmap hreads, hshuf⟩

variable (hinj : Function.Injective host.generateGuid) (hne : ∀ n, host.generateGuid n ≠ "")

include hinj hne

theorem readsBack (v : SlotValue ν) : ReadsBack host keep v := by
  induction v with
  | integer value =>
    intro hwf owner name b hw Y _
    obtain ⟨i, hi⟩ := Option.isSome_iff_exists.1 hwf
    refine writes_reads_scalar (.integer (String.ofList (intDigits i)))
      { (emptyRow owner name SlotType.INT64) with int64Val := some i } hw ?_
      (.integer ?_) fun _ _ _ => rfl
    · simp only [pushValueRows, bigInt_integer hi, Option.bind_eq_bind, Option.bind_some]
    · rw [hi, integerValue_intDigits]
  | double value =>
    intro _ owner name b hw Y _
    exact writes_reads_scalar _ _ hw rfl (.double value) fun _ _ _ => rfl
  | numeric value =>
    intro hwf owner name b hw Y _
    obtain ⟨f, hf⟩ := Option.isSome_iff_exists.1 hwf
    refine writes_reads_scalar _ _ hw rfl (.numeric ?_) fun _ _ _ => rfl
    rw [parseFractionParts_eq hf]
    exact hf.trans (fractionValue_intDigits f).symm
  | string value =>
    intro _ owner name b hw Y _
    exact writes_reads_scalar _ _ hw rfl (.string value) fun _ _ _ => rfl
  | guid value =>
    intro _ owner name b hw Y _
    exact writes_reads_scalar _ _ hw rfl (.guid value) fun _ _ _ => rfl
  | timespec value =>
    intro hwf owner name b hw Y _
    refine writes_reads_scalar _ _ hw rfl (.timespec value) fun index fuel st => ?_
    rcases hwf with rfl | ⟨d, hd, rfl⟩
    · rfl
    · simp [valueFromRow, emptyRow, parseTimespecString_timespecText host hd, formatTimespec_eq]
  | gdate value =>
    intro hwf owner name b hw Y _
    rcases hwf with rfl | ⟨d, rfl⟩
    · exact writes_reads_scalar _ _ hw rfl (.gdate "") fun _ _ _ => rfl
    · refine writes_reads_scalar _ { (emptyRow owner name SlotType.GDATE) with
        gdateVal := some d.midnight } hw ?_ (.gdate _) fun index fuel st => ?_
      · simp only [pushValueRows, gdateText_ne_empty, if_false, newDate_gdateText,
          Option.bind_eq_bind, Option.bind_some]
      · simp [valueFromRow, emptyRow, take_toISOString, gdateText_midnight]
  | list values ih =>
    intro hwf owner name b hw Y hY
    have hpar := hw.list
    obtain ⟨bs, hinner, hsib⟩ := walk_blocks hpar.inner_eq
    have hlo := notMem_drawn_succ hinj b.lo b.hi
    have hmem {g : String} := @Block.Parent.mem_guids ν host _ _ _ _ hpar g
    have hchild : ∀ c ∈ bs, c.Agrees host keep Y := fun c hc =>
      hsib.family.agrees hinj hlo (fun g hg => hinner ▸ hY g (hmem.2 (.inr hg))) hc
    obtain ⟨ds, hblocks, hreads, hshuf⟩ := hsib.exists_readings_of hinj (by simpa using ih)
      (slotsWellFormed_iff.2 (by simpa using itemsWellFormed_iff.1 hwf)) hchild
    obtain ⟨hperm, hkeep⟩ := hY _ (hmem.2 (.inl rfl))
    rw [hinner, hsib.family.group_owner hlo, ← map_row_of_map_fst hblocks] at hperm hkeep
    obtain ⟨ds', hp, hrows⟩ : ∃ ds' : List (Block ν × SlotValue ν), ds'.Perm ds ∧
        (ds'.map fun p => p.1.row) =
          group DbSlotRow.objGuid (host.generateGuid b.lo) Y ∧ (keep → ds' = ds) := by
      by_cases hk : keep
      · exact ⟨ds, .refl _, (hkeep hk).symm, fun _ => rfl⟩
      · obtain ⟨ds', hp, hrows⟩ := exists_perm_map_eq hperm
        exact ⟨ds', hp, hrows, fun h => absurd h hk⟩
    refine ⟨_, .list (slotsShuffled_items hshuf) ?_ ?_, reads_list hinj hne hpar
      (hreads.perm hp) (fun p hp' => ?_) hrows.1.symm⟩
    · rw [List.map_map]
      exact hp.symm.map _
    · intro hk
      rw [List.map_map, hrows.2 hk]
      rfl
    · rw [hinner]
      exact length_rows_le (hblocks ▸ List.mem_map_of_mem (hp.mem_iff.1 hp'))
  | frame slots ih =>
    intro hwf owner name b hw Y hY
    have hpar := hw.frame
    obtain ⟨bs, hinner, hsib⟩ := walk_blocks hpar.inner_eq
    have hlo := notMem_drawn_succ hinj b.lo b.hi
    have hmem {g : String} := @Block.Parent.mem_guids ν host _ _ _ _ hpar g
    have hchild : ∀ c ∈ bs, c.Agrees host keep Y := fun c hc =>
      hsib.family.agrees hinj hlo (fun g hg => hinner ▸ hY g (hmem.2 (.inr hg))) hc
    obtain ⟨ds, hblocks, hreads, hshuf⟩ := hsib.exists_readings_of hinj ih hwf hchild
    obtain ⟨hperm, -⟩ := hY _ (hmem.2 (.inl rfl))
    rw [hinner, hsib.family.group_owner hlo, ← map_row_of_map_fst hblocks] at hperm
    obtain ⟨ds', hp, hrows⟩ :=
      exists_perm_map_eq ((sortByName_perm _).trans hperm)
    refine ⟨_, .frame hshuf (hp.symm.map _), reads_frame hinj hne hpar (hreads.perm hp)
      (fun p hp' => ?_) hrows.symm⟩
    rw [hinner]
    exact length_rows_le (hblocks ▸ List.mem_map_of_mem (hp.mem_iff.1 hp'))

end Slots
