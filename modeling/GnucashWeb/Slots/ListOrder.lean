import GnucashWeb.Slots.RoundTrip

/-!
# The order of list items

The loader returns the rows of a list in the order of the database.  `uniform_of_faithful` shows
that a value whose rows read as the same value in every order has only lists with equal items, and
`roundTrip_iff` characterises the trees that survive every order.
-/

open Text Table

namespace Slots

variable {ν : Type} [Zero ν] {host : Host}

/-! ## Writing succeeds -/

variable {ss : List (GnuCashSlot ν)} {owner : String} {n n' : ℕ} {bs : List (Block ν)}
  {ds : List (Block ν × SlotValue ν)}

section Write

omit [Zero ν]

theorem isSome_walk_of (h : ∀ s ∈ ss, ∀ owner name n, (pushValueRows host owner name s.2 n).isSome)
    (owner path : String) (n : ℕ) : (walk host owner path ss n).isSome := by
  induction ss generalizing n with
  | nil => rfl
  | cons s ss ih =>
    obtain ⟨r, hr⟩ := Option.isSome_iff_exists.1 (h s (by simp) owner (path ++ s.1) n)
    obtain ⟨r', hr'⟩ := Option.isSome_iff_exists.1
      (ih (fun t ht => h t (List.mem_cons_of_mem _ ht)) r.2)
    simp only [walk, hr, hr', Option.bind_eq_bind, Option.bind_some, Option.isSome_some]

theorem isSome_pushValueRows (v : SlotValue ν) (hwf : WellFormed v) :
    ∀ owner name n, (pushValueRows host owner name v n).isSome := by
  induction v with
  | integer value =>
    intro owner name n
    obtain ⟨i, hi⟩ := Option.isSome_iff_exists.1 hwf
    simp only [pushValueRows, bigInt_integer hi, Option.bind_eq_bind, Option.bind_some,
      Option.isSome_some]
  | double value | numeric value | string value | guid value | timespec value =>
    exact fun _ _ _ => rfl
  | gdate value =>
    intro owner name n
    rcases hwf with rfl | ⟨d, rfl⟩
    · rfl
    · simp only [pushValueRows, gdateText_ne_empty, if_false, newDate_gdateText,
        Option.bind_eq_bind, Option.bind_some, Option.isSome_some]
  | list values ih =>
    intro owner name n
    have hitems : ∀ s ∈ values.map (Prod.mk ""), ∀ owner name n,
        (pushValueRows host owner name s.2 n).isSome := by
      intro s hs
      obtain ⟨v, hv, rfl⟩ := List.mem_map.1 hs
      exact ih v hv (itemsWellFormed_iff.1 hwf v hv)
    obtain ⟨r, hr⟩ := Option.isSome_iff_exists.1
      (isSome_walk_of hitems (host.generateGuid n) (name ++ "/") (n + 1))
    rw [← pushItems_eq_walk] at hr
    simp only [pushValueRows, hr, Option.bind_eq_bind, Option.bind_some, Option.isSome_some]
  | frame slots ih =>
    intro owner name n
    obtain ⟨r, hr⟩ := Option.isSome_iff_exists.1
      (isSome_walk_of (fun s hs => ih s hs (slotsWellFormed_iff.1 hwf s hs))
        (host.generateGuid n) (name ++ "/") (n + 1))
    simp only [pushValueRows, hr, Option.bind_eq_bind, Option.bind_some, Option.isSome_some]

theorem exists_walk (hwf : SlotsWellFormed ss) (owner path : String)
    (n : ℕ) : ∃ r, walk host owner path ss n = some r :=
  Option.isSome_iff_exists.1 <| isSome_walk_of
    (fun s hs => isSome_pushValueRows s.2 (slotsWellFormed_iff.1 hwf s hs)) _ _ _

end Write

variable (hinj : Function.Injective host.generateGuid) (hne : ∀ n, host.generateGuid n ≠ "")

/-- A table of siblings in which the inner rows of one block are reordered: the sibling blocks
read as before, the reordered one reads as `d`. -/
structure Reordered (host : Host) (owner path : String) (n n' : ℕ) (bs : List (Block ν))
    (pre post : List (GnuCashSlot ν)) (key : String) (d : SlotValue ν) (Y : List (DbSlotRow ν))
    (ds : List (Block ν × SlotValue ν)) : Prop where
  perm : Y.Perm (bs.flatMap Block.rows)
  blocks : ds.map Prod.fst = bs
  owner_group : group DbSlotRow.objGuid owner Y = ds.map fun p => p.1.row
  readings : Readings host Y n n' ds
  slots : ∃ pre' post', ds.map (slotAt path) = pre' ++ (key, d) :: post' ∧
    List.Forall₂ SameSlot pre pre' ∧ List.Forall₂ SameSlot post post'

include hinj hne

/-- Any reading of one reordered block extends to a reading of a table of all siblings. -/
theorem Siblings.exists_reordered {path : String}
    (hsib : Siblings host owner path ss n n' bs) (hwf : SlotsWellFormed ss)
    (ho : owner ∉ drawn host n n') {s : GnuCashSlot ν} (hs : s ∈ ss) :
    ∃ pre post, ∃ c : Block ν, ss = pre ++ s :: post ∧ c.Writes host owner (path ++ s.1) s.2 ∧
      ∀ Z : List (DbSlotRow ν), Z.Perm c.inner → ∀ d, c.Reads host Z d →
        ∃ Y ds, Reordered host owner path n n' bs pre post s.1 d Y ds := by
  obtain ⟨pre, post, pre', c, post', rfl, rfl, hpre, hc, hpost⟩ := forall₂_split hsib.writes hs
  refine ⟨pre, post, c, rfl, hc, fun Z hZ d hd => ?_⟩
  have hfam := hsib.family.replace hZ
  set c' : Block ν := { c with inner := Z } with hc'
  set Y := (pre' ++ c' :: post').flatMap Block.rows with hYdef
  have hcg : c'.guids host = c.guids host := rfl
  -- the other blocks still hold what was written for them
  have hother : ∀ b ∈ pre' ++ c' :: post', ∀ g ∈ b.guids host,
      group DbSlotRow.objGuid g Y = group DbSlotRow.objGuid g b.inner :=
    fun b hb g hg => hfam.group_block hinj ho hb hg
  have hread : ∀ {ts : List (GnuCashSlot ν)} {cs : List (Block ν)},
      (∀ t ∈ ts, t ∈ pre ++ s :: post) → (∀ b ∈ cs, b ∈ pre' ++ c' :: post') →
      List.Forall₂ (fun t b => b.Writes host owner (path ++ t.1) t.2) ts cs →
      ∃ ds : List (Block ν × SlotValue ν), ds.map Prod.fst = cs ∧
        (∀ p ∈ ds, p.1.Reads host Y p.2) ∧ SlotsShuffled True ts (ds.map (slotAt path)) := by
    intro ts cs hts hcs hw
    refine exists_readings (forall₂_imp_mem hw fun t ht b hb hw => ⟨hw, ?_⟩)
    refine readsBack hinj hne t.2 (slotsWellFormed_iff.1 hwf t (hts t ht)) hw fun g hg => ?_
    rw [hother b (hcs b hb) g hg]
    exact ⟨.refl _, fun _ => rfl⟩
  obtain ⟨ds₁, hmap₁, hreads₁, hshuf₁⟩ := hread (fun t ht => by simp [ht])
    (fun b hb => by simp [hb]) hpre
  obtain ⟨ds₂, hmap₂, hreads₂, hshuf₂⟩ := hread (fun t ht => by simp [ht])
    (fun b hb => by simp [hb]) hpost
  have hdY : c.Reads host Y d := hd.congr fun g hg => hother c' (by simp) g hg
  have hblocks : (ds₁ ++ (c, d) :: ds₂).map Prod.fst = pre' ++ c :: post' := by
    rw [List.map_append, List.map_cons, hmap₁, hmap₂]
  have hkey : slotAt path (c, d) = (s.1, d) := by
    rw [slotAt, (hc.facts_of (writesBlock s.2)).2.2.1, keyOf_append]
  refine ⟨Y, ds₁ ++ (c, d) :: ds₂, ⟨?_, hblocks, ?_, ?_, ds₁.map (slotAt path),
    ds₂.map (slotAt path), ?_, SameSlot.forall₂.1 hshuf₁, SameSlot.forall₂.1 hshuf₂⟩⟩
  · rw [hYdef, List.flatMap_append, List.flatMap_append, List.flatMap_cons, List.flatMap_cons]
    exact ((hZ.cons _).append_right _).append_left _
  · rw [hYdef, hfam.group_owner ho, map_row_of_map_fst hblocks, List.map_append, List.map_append]
    rfl
  · refine .of_chained hinj hsib.chained hblocks fun p hp => ?_
    rcases List.mem_append.1 hp with hp | hp
    · exact hreads₁ p hp
    · rcases List.mem_cons.1 hp with rfl | hp
      · exact hdY
      · exact hreads₂ p hp
  · rw [List.map_append, List.map_cons, hkey]

/-! ## Faithful values are uniform -/

/-- The value reads as the same value from its rows in every order. -/
def Faithful (host : Host) (v : SlotValue ν) (b : Block ν) : Prop :=
  ∀ Z : List (DbSlotRow ν), Z.Perm b.inner → ∀ d, b.Reads host Z d → Same v d

/-- Children that are faithful are uniform, when every reordering of one of them shows. -/
theorem Siblings.uniform_of {path : String}
    (hsib : Siblings host owner path ss n n' bs) (hwf : SlotsWellFormed ss)
    (ho : owner ∉ drawn host n n')
    (hss : ∀ s ∈ ss, ∀ {name : String} {b : Block ν}, WellFormed s.2 →
      b.Writes host owner name s.2 → Faithful host s.2 b → Uniform s.2)
    (hshow : ∀ pre s post d Y ds, ss = pre ++ s :: post →
      Reordered host owner path n n' bs pre post s.1 d Y ds → Same s.2 d) :
    ∀ s ∈ ss, Uniform s.2 := by
  intro s hs
  obtain ⟨pre, post, c, hsplit, hc, hre⟩ := hsib.exists_reordered hinj hne hwf ho hs
  refine hss s hs (slotsWellFormed_iff.1 hwf s hs) hc fun Z hZ d hd => ?_
  obtain ⟨Y, ds, hY⟩ := hre Z hZ d hd
  exact hshow pre s post d Y ds hsplit hY

omit hinj hne in
theorem Readings.congr {Y Y' : List (DbSlotRow ν)}
    (h : Readings host Y n n' ds) (hY : ∀ g ∈ drawn host n n',
      group DbSlotRow.objGuid g Y' = group DbSlotRow.objGuid g Y) : Readings host Y' n n' ds :=
  ⟨h.disjoint, h.subset, fun p hp => (h.reads p hp).congr fun g hg => hY g (h.subset p hp hg)⟩

omit [Zero ν] hinj hne in
theorem length_rows_le_of_map
    (hds : ds.map Prod.fst = bs) {p : Block ν × SlotValue ν} (hp : p ∈ ds) :
    p.1.rows.length ≤ (bs.flatMap Block.rows).length :=
  length_rows_le (hds ▸ List.mem_map_of_mem hp)

theorem same_items_of_faithful {name : String} {values : List (SlotValue ν)} {b : Block ν}
    (hwf : WellFormed (.list values)) (hw : b.Writes host owner name (.list values))
    (hb : Faithful host (.list values) b) : ∀ v ∈ values, ∀ w ∈ values, Same v w := by
  have hpar := hw.list
  obtain ⟨bs, hinner, hsib⟩ := walk_blocks hpar.inner_eq
  have hlo := notMem_drawn_succ hinj b.lo b.hi
  -- the items read in written order
  obtain ⟨ds, hblocks, hreads, hshuf⟩ := hsib.exists_readings_of hinj
    (fun s _ => (readsBack hinj hne s.2 : ReadsBack host True s.2))
    (slotsWellFormed_iff.2 (by simpa using itemsWellFormed_iff.1 hwf))
    (fun c hc => hsib.family.agrees hinj hlo (fun g _ => ⟨.refl _, fun _ => rfl⟩) hc)
  have hitems : List.Forall₂ Same values (ds.map Prod.snd) := by
    have h := itemsShuffled_iff.1 (slotsShuffled_items hshuf)
    rwa [List.map_map] at h
  -- the rows of the list itself put in the order of `ds'`, all others left as written
  have hany : ∀ ds' : List (Block ν × SlotValue ν), ds'.Perm ds →
      List.Forall₂ Same values (ds'.map Prod.snd) := by
    intro ds' hp
    set own := host.generateGuid b.lo
    set Y := (ds'.map fun p => p.1.row) ++ b.inner.filter fun r => ¬r.objGuid = own with hY
    have hown : group DbSlotRow.objGuid own b.inner = ds.map fun p => p.1.row := by
      rw [hinner, hsib.family.group_owner hlo, map_row_of_map_fst hblocks]
    have hrow : ∀ r ∈ ds'.map fun p => p.1.row, r.objGuid = own := by
      intro r hr
      have hmem : r ∈ group DbSlotRow.objGuid own b.inner := hown ▸ (hp.map _).mem_iff.1 hr
      exact (mem_group.1 hmem).2
    have hYperm : Y.Perm b.inner := by
      have hp' : (ds'.map fun p => p.1.row).Perm (b.inner.filter fun r => r.objGuid = own) :=
        (hp.map _).trans (.of_eq hown.symm)
      exact (hp'.append_right _).trans (by simpa using List.filter_append_perm _ b.inner)
    have hYown : group DbSlotRow.objGuid own Y = ds'.map fun p => p.1.row := by
      rw [hY, group_append, group_eq_self hrow, group_eq_nil fun r hr => by simpa using
        (List.mem_filter.1 hr).2, List.append_nil]
    have hYother : ∀ g ∈ drawn host (b.lo + 1) b.hi,
        group DbSlotRow.objGuid g Y = group DbSlotRow.objGuid g b.inner := by
      intro g hg
      have hne' : own ≠ g := fun h => hlo (h ▸ hg)
      rw [hY, group_append, group_eq_nil fun r hr h => hne' ((hrow r hr).symm.trans h),
        List.nil_append, group, group, List.filter_filter]
      refine List.filter_congr fun r _ => ?_
      by_cases h : r.objGuid = g <;> simp [h, hne'.symm]
    have hlist := reads_list hinj hne hpar
      (((hinner ▸ hreads).congr hYother).perm hp)
      (fun p hp' => hinner ▸ length_rows_le_of_map hblocks (hp.mem_iff.1 hp')) hYown
    cases hb Y hYperm _ hlist with
    | list h _ hk =>
      obtain rfl := hk trivial
      exact itemsShuffled_iff.1 h
  cases values with
  | nil => exact fun v hv => absurd hv List.not_mem_nil
  | cons v₀ vs =>
    have hfirst : ∀ w ∈ v₀ :: vs, Same v₀ w := by
      intro w hw'
      obtain ⟨pre, post, pre', d, post', -, hd, -, hwd, -⟩ := forall₂_split hitems hw'
      obtain ⟨l₁, l₂, hds, -, hl₂⟩ := List.map_eq_append_iff.1 hd
      obtain ⟨p, l₂, rfl, rfl, -⟩ := List.map_eq_cons_iff.1 hl₂
      have h := hany (p :: (l₁ ++ l₂)) (hds ▸ List.perm_middle.symm)
      exact (List.forall₂_cons.1 h).1.trans hwd.symm
    exact fun v hv w hw' => (hfirst v hv).symm.trans (hfirst w hw')

/-- A value that reads as the same value from its rows in every order has only uniform lists. -/
theorem uniform_of_faithful (v : SlotValue ν) : ∀ {owner name : String} {b : Block ν},
    WellFormed v → b.Writes host owner name v → Faithful host v b → Uniform v := by
  induction v with
  | integer value | double value | numeric value | string value | guid value | timespec value
  | gdate value => exact fun _ _ _ => trivial
  | list values ih =>
    intro owner name b hwf hw hb
    have hpar := hw.list
    obtain ⟨bs, hinner, hsib⟩ := walk_blocks hpar.inner_eq
    have hlo := notMem_drawn_succ hinj b.lo b.hi
    refine ⟨same_items_of_faithful hinj hne hwf hw hb, itemsUniform_iff.2 fun v hv => ?_⟩
    have hslots : SlotsWellFormed (values.map (Prod.mk "")) :=
      slotsWellFormed_iff.2 (by simpa using itemsWellFormed_iff.1 hwf)
    refine hsib.uniform_of hinj hne hslots hlo (fun s hs => ?_) (fun pre s post d Y ds hss hY => ?_)
      ("", v) (List.mem_map_of_mem hv)
    · obtain ⟨w, hw', rfl⟩ := List.mem_map.1 hs
      exact ih w hw'
    · obtain ⟨pre', post', hslotAt, hpre, -⟩ := hY.slots
      have hlist := reads_list hinj hne hpar hY.readings
        (fun p hp => hinner ▸ length_rows_le_of_map hY.blocks hp) hY.owner_group
      have hvalues : values = pre.map Prod.snd ++ s.2 :: post.map Prod.snd := by
        have h := congrArg (List.map Prod.snd) hss
        simpa using h
      have hread : ds.map Prod.snd = pre'.map Prod.snd ++ d :: post'.map Prod.snd := by
        calc ds.map Prod.snd = (ds.map (slotAt (name ++ "/"))).map Prod.snd := by
              rw [List.map_map]; rfl
          _ = pre'.map Prod.snd ++ d :: post'.map Prod.snd := by
              rw [hslotAt, List.map_append, List.map_cons]
      cases hb Y (hinner ▸ hY.perm) _ hlist with
      | list h _ hk =>
        obtain rfl := hk trivial
        rw [hvalues, hread] at h
        exact forall₂_middle (by simpa using hpre.length_eq) (itemsShuffled_iff.1 h)
  | frame slots ih =>
    intro owner name b hwf hw hb
    have hpar := hw.frame
    obtain ⟨bs, hinner, hsib⟩ := walk_blocks hpar.inner_eq
    have hlo := notMem_drawn_succ hinj b.lo b.hi
    refine slotsUniform_iff.2 (hsib.uniform_of hinj hne hwf hlo (fun s hs => ih s hs)
      fun pre s post d Y ds hss hY => ?_)
    obtain ⟨pre', post', hslotAt, hpre, hpost⟩ := hY.slots
    obtain ⟨ds', hp, hrows⟩ :=
      exists_perm_map_eq ((sortByName_perm _).trans (.of_eq hY.owner_group))
    have hframe := reads_frame hinj hne hpar (hY.readings.perm hp)
      (fun p hp' => hinner ▸ length_rows_le_of_map hY.blocks (hp.mem_iff.1 hp')) hrows.symm
    have hsame := hb Y (hinner ▸ hY.perm) _ hframe
    rw [hss] at hsame
    exact (same_of_same_frame hsame ((hp.map _).trans (.of_eq hslotAt)) hpre hpost).2

/-! ## The round trip -/

omit hinj hne

/-- The guids that `generateGuid` returns are fresh for the object and distinct. -/
structure FreshGuids (host : Host) (objGuid : String) : Prop where
  injective : Function.Injective host.generateGuid
  ne_empty : ∀ n, host.generateGuid n ≠ ""
  ne_objGuid : ∀ n, host.generateGuid n ≠ objGuid

/-- Reading the rows back in any order gives the same slots and skips none. -/
def RoundTrips (objGuid : String) (slots : List (GnuCashSlot ν)) (rows : List (DbSlotRow ν)) :
    Prop :=
  ∀ rows' : List (DbSlotRow ν), rows'.Perm rows →
    Same (.frame slots) (.frame (dbRowsToSlots rows' objGuid).1) ∧
      (dbRowsToSlots rows' objGuid).2 = []

variable {objGuid : String} {slots : List (GnuCashSlot ν)}

theorem dbRowsToSlots_eq {Y : List (DbSlotRow ν)} (hobj : objGuid ∉ drawn host n n')
    (hds : Readings host Y n n' ds) (hlen : ∀ p ∈ ds, p.1.rows.length ≤ Y.length)
    (hrows : sortByName (group DbSlotRow.objGuid objGuid Y) = ds.map fun p => p.1.row) :
    dbRowsToSlots Y objGuid = (ds.map (slotAt ""), []) := by
  obtain ⟨vis, hread, -⟩ := hds.treeFor "" hrows (Y.length + 1) ⟨[objGuid], []⟩ rfl
    (fun _ _ => rfl) (fun g hg hgv => by
      obtain rfl := List.mem_singleton.1 hgv
      exact hobj hg)
    (fun p hp => (hlen p hp).trans (Nat.le_succ _))
  simp only [dbRowsToSlots, hread]
  rfl

/-- A reordered table of an object's slots reads as a shuffle of them; when the rows under each
drawn guid keep their order, list items keep theirs. -/
theorem exists_dbRowsToSlots {keep : Prop} (hfresh : FreshGuids host objGuid)
    (hwf : SlotsWellFormed slots) {rows rows' : List (DbSlotRow ν)}
    (hw : walk host objGuid "" slots 0 = some (rows, n')) (hp : rows'.Perm rows)
    (hkeep : keep → ∀ n, group DbSlotRow.objGuid (host.generateGuid n) rows' =
      group DbSlotRow.objGuid (host.generateGuid n) rows) :
    ∃ slots', dbRowsToSlots rows' objGuid = (slots', []) ∧
      Shuffled keep (.frame slots) (.frame slots') := by
  obtain ⟨bs, rfl, hsib⟩ := walk_blocks hw
  have hobj : objGuid ∉ drawn host 0 n' := fun ⟨i, _, hi⟩ => hfresh.ne_objGuid i hi
  have hY : ∀ g ∈ drawn host 0 n', (group DbSlotRow.objGuid g rows').Perm
        (group DbSlotRow.objGuid g (bs.flatMap Block.rows)) ∧
      (keep → group DbSlotRow.objGuid g rows' =
        group DbSlotRow.objGuid g (bs.flatMap Block.rows)) := by
    rintro g ⟨i, _, rfl⟩
    exact ⟨Perm.group hp, fun hk => hkeep hk i⟩
  obtain ⟨ds, hblocks, hreads, hshuf⟩ := hsib.exists_readings_of hfresh.injective
    (fun s _ => readsBack hfresh.injective hfresh.ne_empty s.2) hwf
    (fun b hb => hsib.family.agrees hfresh.injective hobj hY hb)
  have hown : (group DbSlotRow.objGuid objGuid rows').Perm (ds.map fun p => p.1.row) := by
    rw [map_row_of_map_fst hblocks, ← hsib.family.group_owner hobj]
    exact Perm.group hp
  obtain ⟨ds', hp', hrows⟩ := exists_perm_map_eq ((sortByName_perm _).trans hown)
  refine ⟨ds'.map (slotAt ""), dbRowsToSlots_eq hobj (hreads.perm hp') (fun p hpd => ?_)
    hrows.symm, .frame hshuf (hp'.symm.map _)⟩
  rw [hp.length_eq]
  exact length_rows_le_of_map hblocks (hp'.mem_iff.1 hpd)

theorem slotsUniform_of_roundTrips (hfresh : FreshGuids host objGuid)
    (hwf : SlotsWellFormed slots) {rows : List (DbSlotRow ν)}
    (hw : walk host objGuid "" slots 0 = some (rows, n')) (h : RoundTrips objGuid slots rows) :
    SlotsUniform slots := by
  obtain ⟨bs, rfl, hsib⟩ := walk_blocks hw
  have hobj : objGuid ∉ drawn host 0 n' := fun ⟨i, _, hi⟩ => hfresh.ne_objGuid i hi
  refine slotsUniform_iff.2 (hsib.uniform_of hfresh.injective hfresh.ne_empty hwf hobj
    (fun s _ => uniform_of_faithful hfresh.injective hfresh.ne_empty s.2)
    fun pre s post d Y ds hss hY => ?_)
  obtain ⟨pre', post', hslotAt, hpre, hpost⟩ := hY.slots
  obtain ⟨ds', hp, hrows⟩ :=
    exists_perm_map_eq ((sortByName_perm _).trans (.of_eq hY.owner_group))
  have hread := dbRowsToSlots_eq hobj (hY.readings.perm hp) (fun p hp' => hY.perm.length_eq ▸
    length_rows_le_of_map hY.blocks (hp.mem_iff.1 hp')) hrows.symm
  have hsame := (h Y hY.perm).1
  rw [hss, hread] at hsame
  exact (same_of_same_frame hsame ((hp.map _).trans (.of_eq hslotAt)) hpre hpost).2

/-- The rows of a well-formed slot tree read back as the same tree in every order of the rows,
exactly when every list of the tree has items that are all the same. -/
theorem roundTrip_iff (hfresh : FreshGuids host objGuid) (hwf : SlotsWellFormed slots) :
    ∃ rows, slotsToDbRows host objGuid slots = some rows ∧
      (RoundTrips objGuid slots rows ↔ SlotsUniform slots) := by
  obtain ⟨⟨rows, n'⟩, hw⟩ := exists_walk hwf objGuid "" 0
  refine ⟨rows, by rw [slotsToDbRows, hw]; rfl, slotsUniform_of_roundTrips hfresh hwf hw,
    fun huni rows' hp => ?_⟩
  obtain ⟨slots', hread, hshuf⟩ := exists_dbRowsToSlots hfresh hwf hw hp
    (fun h : False => h.elim)
  rw [hread]
  exact ⟨same_of_shuffled (show Uniform (.frame slots) from huni) hshuf, rfl⟩

/-! ## A list that loses its order -/

/-- A host that numbers its guids and accepts no further date texts. -/
def countingHost : Host := ⟨fun _ => none, fun n => String.ofList ('g' :: natDigits n)⟩

theorem countingHost_fresh : FreshGuids countingHost "account" where
  injective := fun n m h => by
    have hdigits : natDigits n = natDigits m := (List.cons.inj (String.ofList_injective h)).2
    have hread := readDecimal_natDigits m
    rw [← hdigits, readDecimal_natDigits] at hread
    exact Option.some.inj hread
  ne_empty := fun n h => by
    have := congrArg String.toList h
    simp [countingHost] at this
  ne_objGuid := fun n h => by
    have := congrArg String.toList h
    simp [countingHost] at this

/-- The row of a list `k` of an account. -/
def listRow : DbSlotRow ℤ :=
  { (emptyRow "account" "k" SlotType.LIST : DbSlotRow ℤ) with guidVal := some "g0" }

def itemRow (i : ℤ) : DbSlotRow ℤ :=
  { (emptyRow "g0" "k/" SlotType.INT64 : DbSlotRow ℤ) with int64Val := some i }

/-- A list of two integers whose rows come back in the other order is read in that order. -/
theorem list_order_lost :
    ∃ rows : List (DbSlotRow ℤ),
      slotsToDbRows countingHost "account" [("k", .list [.integer "1", .integer "2"])] =
        some rows ∧
      ¬RoundTrips "account" [("k", .list [.integer "1", .integer "2"])] rows := by
  refine ⟨[listRow, itemRow 1, itemRow 2], by decide, fun h => ?_⟩
  have hread : (dbRowsToSlots [listRow, itemRow 2, itemRow 1] "account").1 =
      [("k", .list [.integer "2", .integer "1"])] := rfl
  have hsame := (h [listRow, itemRow 2, itemRow 1] ((List.Perm.swap _ _ _).cons _)).1
  rw [hread] at hsame
  have hslot : SameSlot ("k", (.list [.integer "1", .integer "2"] : SlotValue ℤ))
      ("k", .list [.integer "2", .integer "1"]) :=
    same_of_same_frame hsame (.refl _) .nil .nil
  cases hslot.2 with
  | list h _ hk =>
    obtain rfl := hk trivial
    cases h with
    | cons h _ => cases h with | integer h => exact absurd h (by decide)

/-- The round trip of a tree with a slash in a key, a nested frame and a uniform list. -/
theorem roundTrip_iff_account :
    ∃ rows : List (DbSlotRow ℤ),
      slotsToDbRows countingHost "account"
        [("a/b", .frame [("n", .numeric "1/2"), ("l", .list [.integer "7", .integer "07"])])] =
        some rows ∧
      (RoundTrips "account"
          [("a/b", .frame [("n", .numeric "1/2"), ("l", .list [.integer "7", .integer "07"])])]
          rows ↔
        SlotsUniform
          ([("a/b", .frame [("n", .numeric "1/2"), ("l", .list [.integer "7", .integer "07"])])] :
            List (GnuCashSlot ℤ))) := by
  have hhalf : (fractionValue "1/2").isSome := by decide
  have hseven : (integerValue "7").isSome ∧ (integerValue "07").isSome := by decide
  exact roundTrip_iff countingHost_fresh
    ⟨⟨hhalf, ⟨hseven.1, hseven.2, trivial⟩, trivial⟩, trivial⟩

end Slots
