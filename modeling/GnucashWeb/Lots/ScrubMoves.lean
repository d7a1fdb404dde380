import GnucashWeb.Lots.Advance

/-!
# The scrub engine advances a run

Every operation of the scrub engine that completes advances the run, when its split and its lots are
in the scope of the run: sales, transfers, valuations and stock splits.
-/

open Ledger Transact Rows

namespace Lots

variable {host : Host} {c : Scope} {db db' : Db} {p : Split} {dq dv : ℚ}

/-! ## Creating lots -/

theorem Advance.of_fresh (hr : Ready host c db) (hp : Path host c (marked db) (marked db'))
    {rows : List Slot} (hm : (marked db').marks = (marked db).marks ++ rows)
    (hrows : ∀ r ∈ rows, r.objGuid = host.generateGuid db.drawn) (hs : db'.splits = db.splits) :
    Advance host c db db' := by
  refine Advance.of_splits_eq _ hr hp hm (fun r hx s hs' he => ?_) hs
  exact hr.sound.unused.splits s hs' db.drawn le_rfl (he ▸ hrows r hx)

theorem Stage.of_fresh (hp : Path host c (marked db) (marked db'))
    {rows : List Slot} (hm : (marked db').marks = (marked db).marks ++ rows)
    (hrows : ∀ r ∈ rows, r.objGuid = host.generateGuid db.drawn) (hs : db'.splits = db.splits) :
    Stage host c p db db' 0 0 where
  path := hp
  shifts := hs ▸ Shifts.refl db.splits p
  others := fun _ _ hn hst =>
    stashed_append_of_ne _ (fun r hx he => hn db.drawn le_rfl (he ▸ hrows r hx)) hm hst

/-- The tables have one more lot, tagged with the run. -/
def Opened (host : Host) (c : Scope) (db : Db) (accountGuid lotGuid : String) (db' : Db) : Prop :=
  lotGuid = host.generateGuid db.drawn ∧
    marked db' = { marked db with
      lots := db.lots ++ [⟨lotGuid, some accountGuid, 0⟩]
      marks := (marked db).marks ++ [tagRow lotGuid c.run]
      drawn := db.drawn + 1 }

variable {a l g : String} {u : Unit}

theorem Opened.path (h : Opened host c db a l db') :
    Path host c (marked db) (marked db') := by
  rw [h.2, h.1]
  exact (Move.openLot (marked db) a).path

theorem Opened.marks (h : Opened host c db a l db') :
    (marked db').marks = (marked db).marks ++ [tagRow l c.run] := by
  rw [h.2]

theorem Opened.splits (h : Opened host c db a l db') : db'.splits = db.splits :=
  congrArg Marked.splits h.2

theorem Opened.fills (h : Opened host c db a l db') : c.Fills (marked db') l := by
  rw [h.2]
  exact ⟨by simp, .inr (by simp [Marked.Tagged])⟩

theorem Opened.advance (hr : Ready host c db) (h : Opened host c db a l db') :
    Advance host c db db' :=
  Advance.of_fresh hr h.path h.marks (by simp [tagRow, h.1]) h.splits

theorem Opened.stage (h : Opened host c db a l db') :
    Stage host c p db db' 0 0 :=
  Stage.of_fresh h.path h.marks (by simp [tagRow, h.1]) h.splits

@[simp] theorem completes_generateGuid :
    Completes (generateGuid host) db g db' ↔
      g = host.generateGuid db.drawn ∧ db' = { db with drawn := db.drawn + 1 } := by
  simp [generateGuid, and_comm]

theorem opened_createTaggedLot
    (h : Completes (createTaggedLot host a c.run) db l db') : Opened host c db a l db' := by
  simp only [createTaggedLot, completes_bind, completes_generateGuid, completes_createLotRow,
    completes_createSlot, completes_pure] at h
  obtain ⟨_, _, ⟨rfl, rfl⟩, _, _, rfl, _, _, rfl, rfl, rfl⟩ := h
  refine ⟨rfl, ?_⟩
  simp [marked, tagRow, List.filter_append, markNames, stashSlotNames, generatedSlot,
    avgCostBasisRunSlot]

theorem opened_createDestLot {split : Split} {postDate : Option ℤ} {shares : ℚ}
    {source : Option (Split × String)}
    (h : Completes (createDestLot host split postDate c.run shares source) db l db') :
    ∃ db₁, Opened host c db split.accountGuid l db₁ ∧ Unseen db₁ db' := by
  simp only [createDestLot, completes_bind, completes_pure] at h
  obtain ⟨l', db₁, h₁, _, db₂, h₂, _, db₃, h₃, rfl, rfl⟩ := h
  refine ⟨db₁, opened_createTaggedLot h₁, ?_⟩
  have hlink : Unseen db₁ db₂ := by
    refine preserves_option_forM (fun s _ => ?_) _ _ _ h₂
    exact preserves_linkSource host _ _ _ _
  have htitle : Unseen db₂ db' := preserves_createSlot (by decide) _ _ _ h₃
  exact IsTrans.trans _ _ _ hlink htitle

theorem cell_editAt_of_eq {t : String} {f : Split → Split} {splits : List Split}
    (hf : ∀ s, SameRow s (f s)) (hq : ∀ s, (f s).quantity = s.quantity)
    (hv : ∀ s, (f s).value = s.value) :
    cellQuantity (editAt Split.guid g f splits) t a = cellQuantity splits t a ∧
      cellValue (editAt Split.guid g f splits) t a = cellValue splits t a := by
  constructor
  · refine total_map (fun s _ => ?_) fun s _ _ => ?_
    · split
      · exact (hf s).inCell
      · rfl
    · split
      · rw [hq]
      · rfl
  · refine total_map (fun s _ => ?_) fun s _ _ => ?_
    · split
      · exact (hf s).inCell
      · rfl
    · split
      · rw [hv]
      · rfl

theorem advance_assign (hr : Ready host c db) (hg : c.Assignable g) (hl : c.Fills (marked db) l)
    (h : Completes (updateSplit g fun s => { s with lotGuid := some l }) db u db') :
    Advance host c db db' := by
  obtain ⟨-, rfl⟩ := completes_updateSplit.1 h
  have hm : Path host c (marked db) _ := (Move.assign (marked db) hg hl).path
  refine Advance.of_path [] hr hm (by simp [marked]) (by simp) fun t a _ => ?_
  exact cell_editAt_of_eq (fun _ => rfl) (fun _ => rfl) fun _ => rfl

/-! ## Dividing -/

/-- The tables hold a split, with other amounts and another lot perhaps. -/
def HasRow (db : Db) (p : Split) : Prop := ∃ s ∈ db.splits, SameRow s p

theorem HasRow.of_path (h : HasRow db p) (hp : Path host c (marked db) (marked db')) :
    HasRow db' p := by
  obtain ⟨s, hs, hrow⟩ := h
  obtain ⟨s', hs', hrow'⟩ := hp.persists hs
  exact ⟨s', hs', hrow'.symm.trans hrow⟩

/-- A split that the run is dividing: it is in the tables, in the scope and stashed. -/
structure Dividing (c : Scope) (db : Db) (p : Split) : Prop where
  row : HasRow db p
  rewritable : c.Rewritable p.guid
  stashed : (marked db).Stashed c.run p.guid

theorem Dividing.of_path (h : Dividing c db p) (hp : Path host c (marked db) (marked db')) :
    Dividing c db' p :=
  ⟨h.row.of_path hp, h.rewritable, stashed_of_isPrefix hp.marks_isPrefix h.stashed⟩

theorem marked_stashOriginal {r : String} (h : Completes (stashOriginal p r) db u db') :
    marked db' = { marked db with marks := (marked db).marks ++ stashRows p r } ∧
      db'.splits = db.splits := by
  simp only [stashOriginal, completes_bind, completes_createSlot] at h
  obtain ⟨_, _, rfl, _, _, rfl, _, _, rfl, _, _, rfl, rfl⟩ := h
  refine ⟨?_, rfl⟩
  simp [marked, stashRows, tagRow, List.filter_append, markNames, stashSlotNames,
    originalQuantityNum, originalQuantityDenom, originalValueNum, originalValueDenom,
    generatedSlot, avgCostBasisRunSlot]

theorem stage_stash (hs : p ∈ db.splits) (hg : c.Rewritable p.guid)
    (h : Completes (stashOriginal p c.run) db u db') :
    Stage host c p db db' 0 0 ∧ db'.splits = db.splits ∧ (marked db').Stashed c.run p.guid := by
  obtain ⟨hm, hsplits⟩ := marked_stashOriginal h
  refine ⟨⟨?_, hsplits ▸ Shifts.refl db.splits p, fun g hne _ hst => ?_⟩, hsplits, ?_⟩
  · rw [hm]
    exact (Move.stash (marked db) hs hg).path
  · rw [hm] at hst
    refine stashed_append_of_ne (stashRows p c.run) (fun x hx he => hne ?_) rfl hst
    rw [← he, stashRows_objGuid x hx]
  · rw [hm]
    exact ⟨p, rfl, List.subset_append_right _ _⟩

theorem stage_rewrite (hr : Ready host c db) (hs : p ∈ db.splits) (hg : c.Rewritable p.guid)
    (ho : (marked db).Stashed c.run p.guid) (f : Split → Amount × Amount)
    (h : Completes (updateSplit p.guid fun s =>
      { s with quantity := (f s).1, value := (f s).2 }) db u db') :
    Stage host c p db db' ((f p).1.exact - p.quantity.exact) ((f p).2.exact - p.value.exact) := by
  obtain ⟨-, rfl⟩ := completes_updateSplit.1 h
  refine ⟨(Move.rewrite (marked db) hg ho f).path, ?_, fun g _ _ hst => hst⟩
  exact shifts_editAt hr.sound.nodup hs (SameRow.refl p) fun _ => rfl

theorem stage_rewrite_assign (hr : Ready host c db) (hs : p ∈ db.splits)
    (hg : c.Rewritable p.guid) (ha : c.Assignable p.guid)
    (ho : (marked db).Stashed c.run p.guid) (hl : c.Fills (marked db) l)
    (f : Split → Amount × Amount) (h : Completes (updateSplit p.guid fun s =>
      { s with lotGuid := some l, quantity := (f s).1, value := (f s).2 }) db u db') :
    Stage host c p db db' ((f p).1.exact - p.quantity.exact) ((f p).2.exact - p.value.exact) := by
  obtain ⟨-, rfl⟩ := completes_updateSplit.1 h
  refine ⟨?_, shifts_editAt hr.sound.nodup hs (SameRow.refl p) fun _ => rfl, fun g _ _ hst => hst⟩
  have he : editAt Split.guid p.guid (fun s => { s with lotGuid := some l })
      (editAt Split.guid p.guid (fun s => { s with quantity := (f s).1, value := (f s).2 })
        db.splits) =
      editAt Split.guid p.guid
        (fun s => { s with lotGuid := some l, quantity := (f s).1, value := (f s).2 }) db.splits := by
    rw [editAt_editAt]
    exact fun _ => rfl
  rw [← he]
  refine Relation.ReflTransGen.tail (Move.rewrite (marked db) hg ho f).path ?_
  exact Move.assign _ ha hl

theorem completes_createSubSplit {quantity value : Amount} {lotGuid : Option String} {r : String}
    (h : Completes (createSubSplit host p quantity value lotGuid r) db g db') :
    g = host.generateGuid db.drawn ∧ marked db' = { marked db with
      splits := db.splits ++
        [{ p with guid := host.generateGuid db.drawn, quantity, value, lotGuid }]
      marks := (marked db).marks ++ [tagRow (host.generateGuid db.drawn) r,
        ⟨host.generateGuid db.drawn, parentSplitSlot, some p.guid⟩]
      drawn := db.drawn + 1 } := by
  simp only [createSubSplit, tagGeneratedSubSplit, completes_bind, completes_generateGuid,
    completes_createSplit, completes_createSlot, completes_pure] at h
  obtain ⟨_, _, ⟨rfl, rfl⟩, _, _, rfl, _, _, ⟨_, _, rfl, rfl⟩, rfl, rfl⟩ := h
  refine ⟨rfl, ?_⟩
  simp [marked, tagRow, List.filter_append, markNames, stashSlotNames, generatedSlot,
    parentSplitSlot, avgCostBasisRunSlot]

structure Carved (host : Host) (c : Scope) (p : Split) (db : Db) (g : String) (db' : Db)
    (dq dv : ℚ) : Prop where
  stage : Stage host c p db db' dq dv
  covered : Covered c (marked db') p
  tagged : (marked db').Tagged c.run g

theorem stage_createSubSplit (hr : Ready host c db) (hp : Dividing c db p)
    {quantity value : Amount} {lotGuid : Option String} (hl : ∀ l ∈ lotGuid, c.Fills (marked db) l)
    (h : Completes (createSubSplit host p quantity value lotGuid c.run) db g db') :
    Carved host c p db g db' quantity.exact value.exact := by
  obtain ⟨⟨s, hs, hrow⟩, hg, ho⟩ := hp
  obtain ⟨rfl, hm⟩ := completes_createSubSplit h
  have hsplits := congrArg Marked.splits hm
  have hmarks := congrArg Marked.marks hm
  refine ⟨⟨?_, ?_, fun g _ hn hst => ?_⟩, ?_, ?_⟩
  · rw [hm]
    exact (Move.carve (marked db) hs hrow hg ho quantity value hl).path
  · change db'.splits = _ at hsplits
    rw [hsplits]
    exact shifts_append db.splits rfl rfl
  · refine stashed_append_of_ne _ ?_ hmarks hst
    simp only [List.mem_cons, List.not_mem_nil, or_false]
    rintro x (rfl | rfl) <;> exact (hn db.drawn le_rfl).symm
  · rw [hm]
    refine ⟨_, List.mem_append_right _ (List.mem_singleton_self _), ?_, ?_, ?_, rfl⟩
    · simp
    · simp [Marked.Tagged]
    · exact hr.closed.rewritable db.drawn le_rfl
  · rw [hm]
    simp [Marked.Tagged]

end Lots
