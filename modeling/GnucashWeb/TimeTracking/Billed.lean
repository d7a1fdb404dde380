import GnucashWeb.TimeTracking.Entries
import Mathlib.Data.List.Dedup

/-!
# Tracked time is billed once

Along every run in which a request writes to an entry that is still as it read it and that no other
request is about to mark as invoiced, each entry is on one invoice line at most, what is invoiced is
not edited or deleted, a user has one timer, and a timer is stopped once and adds its elapsed time
(`billedOnce_of_run`).  Two invoices that are generated from one entry at the same time both bill it
(`twoInvoices_not_billedOnce`).
-/

namespace TimeTracking

open Runs Sessions

/-! ## What is asked of the tables -/

def Db.billed (db : Db) : List ℕ := db.invoices.flatMap fun i => i.entries.map Prod.fst

def Event.billed : Event → List ℕ
  | .invoiced ids => ids
  | _ => []

def Event.touched? : Event → Option ℕ
  | .invoiced _ => none
  | .edited id => some id
  | .deleted id => some id
  | .stopped before _ _ => some before.id

def Event.stopped? : Event → Option ℕ
  | .stopped before _ _ => some before.id
  | _ => none

/-- An entry that was invoiced is not changed or removed later. -/
def Final : List Event → Prop
  | [] => True
  | e :: past => (∀ id ∈ e.touched?, id ∉ past.flatMap Event.billed) ∧ Final past

/-- A timer that is stopped was running, and its time is added. -/
def AddsElapsed : Event → Prop
  | .stopped before after now => ∃ t, before.timerStartedAt = some t ∧
      after = { before with
        minutes := before.minutes + computeElapsedMinutes t now
        timerStartedAt := none }
  | _ => True

def OneTimer (entries : List TimeEntryRow) : Prop :=
  ∀ r ∈ entries, ∀ r' ∈ entries, r.bookGuid = r'.bookGuid → r.userId = r'.userId →
    r.timerStartedAt.isSome → r'.timerStartedAt.isSome → r = r'

structure BilledOnce (db : Db) : Prop where
  once : db.billed.Nodup
  kept : ∀ id ∈ db.billed, ∃ r ∈ db.entries, r.id = id
  final : Final db.history
  oneTimer : OneTimer db.entries
  adds : ∀ e ∈ db.history, AddsElapsed e
  stoppedOnce : (db.history.filterMap Event.stopped?).Nodup

def Marking (s : State) (id : ℕ) : Prop :=
  ∃ k guid ids, s.phase k = .marking guid ids ∧ id ∈ ids

/-- An entry that is not marked, and is not about to be. -/
def Untaken (s : State) (id : ℕ) : Prop :=
  (∀ r ∈ s.db.entries, r.id = id → r.invoicedInvoiceGuid = none) ∧ ¬Marking s id

/-- What a request writes to is still as it was read. -/
def Unraced : Step → State → Prop
  | .call _ _, _ => True
  | .advance k a, s =>
    match s.phase k with
    | .inserting row =>
      row.timerStartedAt.isSome → s.db.running row.bookGuid row.userId = []
    | .stopping seen _ => ∀ r ∈ s.db.entries, r.id = seen.id →
        r.minutes = seen.minutes ∧ r.timerStartedAt = seen.timerStartedAt
    | .updating id _ | .deleting id => Untaken s id
    | .invoicing _ uniqueIds => a.invoiceGuid.isSome → ∀ id ∈ uniqueIds,
        (∃ r ∈ s.db.entries, r.id = id) ∧ Untaken s id
    | _ => True

/-! ## Rows over time -/

structure Derives (r r' : TimeEntryRow) : Prop where
  id : r'.id = r.id
  bookGuid : r'.bookGuid = r.bookGuid
  userId : r'.userId = r.userId
  timer : r.timerStartedAt = none → r'.timerStartedAt = none
  mark : r.invoicedInvoiceGuid.isSome → r'.invoicedInvoiceGuid.isSome

theorem Derives.refl (r : TimeEntryRow) : Derives r r := ⟨rfl, rfl, rfl, fun h => h, fun h => h⟩

theorem Derives.running {r r' : TimeEntryRow} (h : Derives r r')
    (hr' : r'.timerStartedAt.isSome) : r.timerStartedAt.isSome := by
  cases hr : r.timerStartedAt with
  | none => simp [h.timer hr] at hr'
  | some t => rfl

def Comes (db db' : Db) : Prop := ∀ r' ∈ db'.entries, ∃ r ∈ db.entries, Derives r r'

structure TablesOk (db : Db) : Prop where
  keys : (db.entries.map TimeEntryRow.id).Nodup
  fresh : ∀ r ∈ db.entries, r.id < db.nextId
  history : db.history.flatMap Event.billed = db.billed
  stopped : ∀ id ∈ db.history.filterMap Event.stopped?, id < db.nextId ∧
    ∀ r ∈ db.entries, r.id = id → r.timerStartedAt = none
  billedOnce : BilledOnce db

theorem TablesOk.eq_of_id {db : Db} (h : TablesOk db) {r r' : TimeEntryRow} (hr : r ∈ db.entries)
    (hr' : r' ∈ db.entries) (hid : r.id = r'.id) : r = r' :=
  List.inj_on_of_nodup_map h.keys hr hr' hid

theorem oneTimer_of_comes {db db' : Db} (h : OneTimer db.entries) (hcomes : Comes db db')
    (hkeys : (db'.entries.map TimeEntryRow.id).Nodup) : OneTimer db'.entries := by
  intro r hr r' hr' hbook huser hrun hrun'
  obtain ⟨q, hq, hd⟩ := hcomes r hr
  obtain ⟨q', hq', hd'⟩ := hcomes r' hr'
  have hsame : q = q' := by
    apply h q hq q' hq'
    · rw [← hd.bookGuid, hbook, hd'.bookGuid]
    · rw [← hd.userId, huser, hd'.userId]
    · exact hd.running hrun
    · exact hd'.running hrun'
  apply List.inj_on_of_nodup_map hkeys hr hr'
  rw [hd.id, hd'.id, hsame]

theorem timer_of_comes {db db' : Db} (hcomes : Comes db db') {id : ℕ}
    (h : ∀ r ∈ db.entries, r.id = id → r.timerStartedAt = none) :
    ∀ r' ∈ db'.entries, r'.id = id → r'.timerStartedAt = none := by
  intro r' hr' hid
  obtain ⟨r, hr, hd⟩ := hcomes r' hr'
  exact hd.timer (h r hr (hd.id.symm.trans hid))

/-! ## Sessions -/

def PhaseOk (db : Db) : Phase → Prop
  | .stopping seen _ => seen.timerStartedAt.isSome
  | .updating _ f => ∀ r, Derives r (f r)
  | .invoicing invoice ids =>
    (∀ guid, ((invoice guid).entries.map Prod.fst).Nodup ∧
      ∀ id, id ∈ (invoice guid).entries.map Prod.fst ↔ id ∈ ids) ∧
    ∀ id ∈ ids, id < db.nextId ∧ ∀ r ∈ db.entries, r.id = id → r.timerStartedAt = none
  | .marking _ ids => ∀ id ∈ ids, id ∈ db.billed
  | _ => True

/-- An entry that was billed is stopped, and marked or about to be. -/
def Kept (s : State) (id : ℕ) : Prop :=
  ∃ r ∈ s.db.entries, r.id = id ∧ r.timerStartedAt = none ∧
    (r.invoicedInvoiceGuid.isSome ∨ Marking s id)

structure Inv (s : State) : Prop where
  tables : TablesOk s.db
  kept : ∀ id ∈ s.db.billed, Kept s id
  phases : ∀ k, PhaseOk s.db (s.phase k)

theorem notMem_billed {s : State} (hs : Inv s) {id : ℕ} (h : Untaken s id) :
    id ∉ s.db.billed := by
  intro hid
  obtain ⟨r, hr, hrid, -, hmark | hmarking⟩ := hs.kept id hid
  · rw [h.1 r hr hrid] at hmark
    cases hmark
  · exact h.2 hmarking

/-- Writes that every session can live with. -/
structure Follows (db db' : Db) : Prop where
  nextId : db.nextId ≤ db'.nextId
  timers : ∀ id < db.nextId, (∀ r ∈ db.entries, r.id = id → r.timerStartedAt = none) →
    ∀ r ∈ db'.entries, r.id = id → r.timerStartedAt = none
  billed : ∀ id ∈ db.billed, id ∈ db'.billed

theorem follows_of_comes {db db' : Db} (hcomes : Comes db db') (hnext : db'.nextId = db.nextId)
    (hbilled : ∀ id ∈ db.billed, id ∈ db'.billed) : Follows db db' :=
  ⟨hnext.ge, fun _ _ h => timer_of_comes hcomes h, hbilled⟩

theorem PhaseOk.mono {db db' : Db} (h : Follows db db') {p : Phase} (hp : PhaseOk db p) :
    PhaseOk db' p := by
  cases p with
  | idle => trivial
  | reading => trivial
  | starting => trivial
  | inserting => trivial
  | stopping => exact hp
  | updating => exact hp
  | deleting => trivial
  | invoicing invoice ids =>
    refine ⟨hp.1, fun id hid => ?_⟩
    obtain ⟨hlt, htimer⟩ := hp.2 id hid
    exact ⟨hlt.trans_le h.nextId, h.timers id hlt htimer⟩
  | marking guid ids => exact fun id hid => h.billed id (hp id hid)

theorem Marking.of_ne {s s' : State} {k : ℕ} (hother : ∀ j, j ≠ k → s'.phase j = s.phase j)
    (hk : ∀ guid ids, s.phase k ≠ .marking guid ids) {id : ℕ} (h : Marking s id) :
    Marking s' id := by
  obtain ⟨j, guid, ids, hj, hid⟩ := h
  have hne : j ≠ k := by
    rintro rfl
    exact hk guid ids hj
  exact ⟨j, guid, ids, (hother j hne).trans hj, hid⟩

theorem Inv.goto {s : State} (hs : Inv s) {k : ℕ} {p : Phase}
    (hk : ∀ guid ids, s.phase k ≠ .marking guid ids) (hp : PhaseOk s.db p) : Inv (s.goto k p) := by
  refine ⟨hs.tables, fun id hid => ?_, fun j => ?_⟩
  · obtain ⟨r, hr, hrid, htimer, hmark⟩ := hs.kept id hid
    exact ⟨r, hr, hrid, htimer,
      hmark.imp_right (Marking.of_ne (fun j hj => Sys.goto_phase_of_ne hj) hk)⟩
  · by_cases hjk : j = k
    · subst hjk
      rw [Sys.goto_phase_self]
      exact hp
    · rw [Sys.goto_phase_of_ne hjk]
      exact hs.phases j

theorem Inv.close {s : State} (hs : Inv s) {k : ℕ} {db : Db} {p : Phase} (hdb : TablesOk db)
    (hfollows : Follows s.db db) (hkept : ∀ id ∈ db.billed, Kept (s.close k db p) id)
    (hp : PhaseOk db p) : Inv (s.close k db p) := by
  refine ⟨hdb, hkept, fun j => ?_⟩
  by_cases hjk : j = k
  · subst hjk
    rw [Sys.close_phase_self]
    exact hp
  · rw [Sys.close_phase_of_ne hjk]
    exact (hs.phases j).mono hfollows

theorem kept_close {s : State} (hs : Inv s) {k : ℕ} {db : Db} {p : Phase}
    (hk : ∀ guid ids, s.phase k ≠ .marking guid ids) {id : ℕ} (hid : id ∈ s.db.billed)
    (hstay : ∀ r ∈ s.db.entries, r.id = id → ∃ r' ∈ db.entries, Derives r r') :
    Kept (s.close k db p) id := by
  obtain ⟨r, hr, hrid, htimer, hmark⟩ := hs.kept id hid
  obtain ⟨r', hr', hd⟩ := hstay r hr hrid
  refine ⟨r', hr', hd.id.trans hrid, hd.timer htimer, ?_⟩
  exact hmark.imp hd.mark (Marking.of_ne (fun j hj => Sys.close_phase_of_ne hj) hk)

theorem map_fst_buildInvoiceEntryInputs {jobName : Guid → Option (List Char)} {accountGuid : Guid}
    {rows : List TimeEntryRow} {entries : List (ℕ × InvoiceEntryInput)}
    (h : buildInvoiceEntryInputs jobName accountGuid rows = some entries) :
    entries.map Prod.fst = rows.map TimeEntryRow.id := by
  induction rows generalizing entries with
  | nil =>
    cases h
    rfl
  | cons r rows ih =>
    simp only [buildInvoiceEntryInputs, List.mapM_cons, Option.bind_eq_bind,
      Option.bind_eq_some_iff] at h
    obtain ⟨e, he, rest, hrest, heq⟩ := h
    cases heq
    have hid : e.1 = r.id := by
      unfold buildInvoiceEntryInput at he
      split at he
      · cases he
      · split at he
        · cases he
        · cases he
          rfl
    rw [List.map_cons, List.map_cons, hid, ih hrest]

theorem mem_ids_iff {db : Db} (hdb : TablesOk db) {ids : List ℕ}
    {p : TimeEntryRow → Prop} [DecidablePred p]
    (hlen : (db.entries.filter fun r => r.id ∈ ids ∧ p r).length = ids.length) (id : ℕ) :
    id ∈ (db.entries.filter fun r => r.id ∈ ids ∧ p r).map TimeEntryRow.id ↔ id ∈ ids := by
  have hrows : ((db.entries.filter fun r => r.id ∈ ids ∧ p r).map TimeEntryRow.id).Nodup :=
    hdb.keys.sublist (List.filter_sublist.map _)
  have hsub : (db.entries.filter fun r => r.id ∈ ids ∧ p r).map TimeEntryRow.id ⊆ ids := by
    intro i hi
    obtain ⟨r, hr, rfl⟩ := List.mem_map.1 hi
    have hp := (List.mem_filter.1 hr).2
    exact (of_decide_eq_true hp).1
  have hperm := (List.subperm_of_subset hrows hsub).perm_of_length_le (by rw [List.length_map, hlen])
  exact hperm.mem_iff

theorem phaseOk_generateInvoiceLines {db : Db} (hdb : TablesOk db) (a : Answer)
    (bookGuid customerGuid : Guid) (entryIds : List ℕ) (incomeAccountGuid : Guid) :
    PhaseOk db (generateInvoiceLines a db bookGuid customerGuid entryIds incomeAccountGuid) := by
  simp only [generateInvoiceLines]
  split
  · split
    · next hrows =>
        split
        · trivial
        · next entries hbuild =>
            have hids := map_fst_buildInvoiceEntryInputs hbuild
            have hmem := mem_ids_iff hdb hrows.1
            have hperm := (List.perm_insertionSort (fun r r' : TimeEntryRow =>
              r.entryDate < r'.entryDate ∨ r.entryDate = r'.entryDate ∧ r.id ≤ r'.id)
              (db.entries.filter fun r => r.id ∈ entryIds.dedup ∧ r.bookGuid = bookGuid)).map
              TimeEntryRow.id
            refine ⟨fun guid => ⟨?_, fun id => ?_⟩, fun id hid => ?_⟩
            · rw [hids, hperm.nodup_iff]
              exact hdb.keys.sublist (List.filter_sublist.map _)
            · rw [hids, hperm.mem_iff]
              exact hmem id
            · obtain ⟨r, hr, rfl⟩ := List.mem_map.1 ((hmem id).2 hid)
              have hbillable := List.all_eq_true.1 hrows.2 r hr
              have hmem := (List.mem_filter.1 hr).1
              refine ⟨hdb.fresh r hmem, fun r' hr' hid' => ?_⟩
              rw [hdb.eq_of_id hr' hmem hid']
              simp only [Billable, Bool.and_eq_true, Option.isNone_iff_eq_none] at hbillable
              exact hbillable.1.2
    · trivial
  · trivial

theorem phaseOk_afterRead {db : Db} (hdb : TablesOk db) (a : Answer) (req : Request) :
    PhaseOk db (afterRead a db req) := by
  cases req with
  | createTimeEntry bookGuid userId input =>
    simp only [afterRead, createTimeEntry]
    split
    · trivial
    · split
      · split <;> trivial
      · trivial
  | startTimer bookGuid userId input =>
    simp only [afterRead, startTimer]
    split <;> trivial
  | stopTimer bookGuid userId =>
    simp only [afterRead, stopTimer]
    split
    · trivial
    · next running hrunning =>
        have hmem := List.mem_of_mem_head? hrunning
        rw [List.mem_insertionSort] at hmem
        have hfilter := (List.mem_filter.1 hmem).2
        simp only [Bool.and_eq_true] at hfilter
        exact hfilter.2
  | updateTimeEntry bookGuid id patch scope =>
    simp only [afterRead, updateTimeEntry]
    split
    · trivial
    · split
      · split
        · trivial
        · split
          · trivial
          · exact fun r => ⟨rfl, rfl, rfl, fun h => h, fun h => h⟩
      · trivial
  | deleteTimeEntry bookGuid id scope =>
    simp only [afterRead, deleteTimeEntry]
    split <;> trivial
  | generateInvoiceLines bookGuid customerGuid entryIds incomeAccountGuid =>
    exact phaseOk_generateInvoiceLines hdb ..

/-! ## Writing -/

theorem tablesOk_touch {db : Db} (hdb : TablesOk db) {entries : List TimeEntryRow} {e : Event}
    (hcomes : ∀ r' ∈ entries, ∃ r ∈ db.entries, Derives r r')
    (hkeys : (entries.map TimeEntryRow.id).Nodup)
    (hkept : ∀ id ∈ db.billed, ∃ r ∈ entries, r.id = id)
    (hbilled : e.billed = []) (htouched : ∀ id ∈ e.touched?, id ∉ db.billed)
    (hadds : AddsElapsed e)
    (hstopped : ∀ id ∈ e.stopped?, (∃ r ∈ db.entries, r.id = id ∧ r.timerStartedAt.isSome) ∧
      ∀ r ∈ entries, r.id = id → r.timerStartedAt = none) :
    TablesOk { db with entries := entries, history := e :: db.history } := by
  have hnew (id : ℕ) (hid : id ∈ e.stopped?) : id ∉ db.history.filterMap Event.stopped? := by
    intro hold
    obtain ⟨r, hr, hrid, htimer⟩ := (hstopped id hid).1
    rw [(hdb.stopped id hold).2 r hr hrid] at htimer
    cases htimer
  refine ⟨hkeys, fun r' hr' => ?_, ?_, fun id hid => ?_, ⟨hdb.billedOnce.once, hkept,
    ⟨fun id hid => ?_, hdb.billedOnce.final⟩, ?_, ?_, ?_⟩⟩
  · obtain ⟨r, hr, hd⟩ := hcomes r' hr'
    rw [hd.id]
    exact hdb.fresh r hr
  · rw [List.flatMap_cons, hbilled, List.nil_append]
    exact hdb.history
  · rcases List.mem_filterMap.1 hid with ⟨e', he', hid'⟩
    rcases List.mem_cons.1 he' with rfl | he'
    · obtain ⟨⟨r, hr, rfl, -⟩, htimer⟩ := hstopped id hid'
      exact ⟨hdb.fresh r hr, htimer⟩
    · obtain ⟨hlt, htimer⟩ := hdb.stopped id (List.mem_filterMap.2 ⟨e', he', hid'⟩)
      exact ⟨hlt, @timer_of_comes db { db with entries := entries } hcomes _ htimer⟩
  · rw [hdb.history]
    exact htouched id hid
  · exact @oneTimer_of_comes db { db with entries := entries } hdb.billedOnce.oneTimer
      hcomes hkeys
  · exact List.forall_mem_cons.2 ⟨hadds, hdb.billedOnce.adds⟩
  · cases hstop : e.stopped? with
    | none =>
      rw [List.filterMap_cons_none hstop]
      exact hdb.billedOnce.stoppedOnce
    | some id =>
      rw [List.filterMap_cons_some hstop, List.nodup_cons]
      exact ⟨hnew id hstop, hdb.billedOnce.stoppedOnce⟩

theorem mem_of_find? {db : Db} {id : ℕ} {r : TimeEntryRow} (h : db.find? id = some r) :
    r ∈ db.entries ∧ r.id = id :=
  ⟨List.mem_of_find?_eq_some h, by simpa using List.find?_some h⟩

theorem tablesOk_update {db : Db} (hdb : TablesOk db) {id : ℕ} {f : TimeEntryRow → TimeEntryRow}
    {event : TimeEntryRow → Event} (hf : ∀ r, r.id = id → Derives r (f r))
    (hbilled : ∀ r, (event r).billed = [])
    (htouched : ∀ r ∈ db.entries, r.id = id → ∀ i ∈ (event r).touched?, i ∉ db.billed)
    (hadds : ∀ r ∈ db.entries, r.id = id → AddsElapsed (event r))
    (hstopped : ∀ r ∈ db.entries, r.id = id → ∀ i ∈ (event r).stopped?,
      i = id ∧ r.timerStartedAt.isSome ∧ (f r).timerStartedAt = none) :
    TablesOk (db.update id f event) := by
  unfold Db.update
  split
  · exact hdb
  · next r hfind =>
      obtain ⟨hr, rfl⟩ := mem_of_find? hfind
      have hrow (q : TimeEntryRow) (hq : q ∈ db.entries) :
          Derives q (if q.id = r.id then f q else q) := by
        split
        · next hid => exact hf q hid
        · exact .refl q
      apply tablesOk_touch hdb
      · intro r' hr'
        obtain ⟨q, hq, rfl⟩ := Rows.mem_editAt.1 hr'
        exact ⟨q, hq, hrow q hq⟩
      · have hmap : (Rows.editAt TimeEntryRow.id r.id f db.entries).map TimeEntryRow.id =
            db.entries.map TimeEntryRow.id := by
          rw [Rows.editAt, List.map_map]
          exact List.map_congr_left fun q hq => (hrow q hq).id
        rw [hmap]
        exact hdb.keys
      · intro i hi
        obtain ⟨q, hq, rfl⟩ := hdb.billedOnce.kept i hi
        exact ⟨_, Rows.mem_editAt.2 ⟨q, hq, rfl⟩, (hrow q hq).id⟩
      · exact hbilled r
      · exact htouched r hr rfl
      · exact hadds r hr rfl
      · intro i hi
        obtain ⟨rfl, hrunning, hafter⟩ := hstopped r hr rfl i hi
        refine ⟨⟨r, hr, rfl, hrunning⟩, fun r' hr' hid => ?_⟩
        obtain ⟨q, hq, rfl⟩ := Rows.mem_editAt.1 hr'
        have hqid : q.id = r.id := (hrow q hq).id.symm.trans hid
        rw [if_pos hqid, hdb.eq_of_id hq hr hqid]
        exact hafter

theorem comes_update {db : Db} {id : ℕ} {f : TimeEntryRow → TimeEntryRow}
    {event : TimeEntryRow → Event} (hf : ∀ r, r.id = id → Derives r (f r)) :
    Comes db (db.update id f event) := by
  intro r' hr'
  unfold Db.update at hr'
  split at hr'
  · exact ⟨r', hr', .refl r'⟩
  · obtain ⟨q, hq, rfl⟩ := Rows.mem_editAt.1 hr'
    refine ⟨q, hq, ?_⟩
    split
    · next hid => exact hf q hid
    · exact .refl q

theorem stays_update {db : Db} {id : ℕ} {f : TimeEntryRow → TimeEntryRow}
    {event : TimeEntryRow → Event} (hf : ∀ r, r.id = id → Derives r (f r)) {r : TimeEntryRow}
    (hr : r ∈ db.entries) : ∃ r' ∈ (db.update id f event).entries, Derives r r' := by
  unfold Db.update
  split
  · exact ⟨r, hr, .refl r⟩
  · refine ⟨_, Rows.mem_editAt.2 ⟨r, hr, rfl⟩, ?_⟩
    split
    · next hid => exact hf r hid
    · exact .refl r

@[simp] theorem nextId_update {db : Db} {id : ℕ} {f : TimeEntryRow → TimeEntryRow}
    {event : TimeEntryRow → Event} : (db.update id f event).nextId = db.nextId := by
  unfold Db.update
  split <;> rfl

@[simp] theorem billed_update {db : Db} {id : ℕ} {f : TimeEntryRow → TimeEntryRow}
    {event : TimeEntryRow → Event} : (db.update id f event).billed = db.billed := by
  unfold Db.update
  split <;> rfl

theorem tablesOk_insert {db : Db} (hdb : TablesOk db) {row : TimeEntryRow}
    (hrow : row.timerStartedAt.isSome → db.running row.bookGuid row.userId = []) :
    TablesOk (db.insert row) := by
  have hidle (r : TimeEntryRow) (hr : r ∈ db.entries) (hbook : r.bookGuid = row.bookGuid)
      (huser : r.userId = row.userId) (hrun : row.timerStartedAt.isSome) :
      ¬r.timerStartedAt.isSome := by
    intro htimer
    have hnone := List.filter_eq_nil_iff.1 (hrow hrun) r hr
    simp [hbook, huser, htimer] at hnone
  refine ⟨?_, fun r hr => ?_, hdb.history, fun id hid => ?_, ⟨hdb.billedOnce.once, ?_,
    hdb.billedOnce.final, ?_, hdb.billedOnce.adds, hdb.billedOnce.stoppedOnce⟩⟩
  · have hnew : db.nextId ∉ db.entries.map TimeEntryRow.id := by
      intro hmem
      obtain ⟨r, hr, hid⟩ := List.mem_map.1 hmem
      have := hdb.fresh r hr
      omega
    have hmap : (db.insert row).entries.map TimeEntryRow.id =
        db.entries.map TimeEntryRow.id ++ [db.nextId] := by simp [Db.insert]
    rw [hmap]
    exact hdb.keys.append (List.nodup_singleton _) (by simpa using hnew)
  · rcases List.mem_append.1 hr with hr | hr
    · exact (hdb.fresh r hr).trans (Nat.lt_succ_self _)
    · rw [List.mem_singleton.1 hr]
      exact Nat.lt_succ_self _
  · obtain ⟨hlt, htimer⟩ := hdb.stopped id hid
    refine ⟨hlt.trans (Nat.lt_succ_self _), fun r hr hrid => ?_⟩
    rcases List.mem_append.1 hr with hr | hr
    · exact htimer r hr hrid
    · rw [List.mem_singleton.1 hr] at hrid
      exact absurd hrid hlt.ne'
  · intro id hid
    obtain ⟨r, hr, hrid⟩ := hdb.billedOnce.kept id hid
    exact ⟨r, List.mem_append_left _ hr, hrid⟩
  · intro r hr r' hr' hbook huser hrun hrun'
    rcases List.mem_append.1 hr with hr | hr <;> rcases List.mem_append.1 hr' with hr' | hr'
    · exact hdb.billedOnce.oneTimer r hr r' hr' hbook huser hrun hrun'
    · rw [List.mem_singleton.1 hr'] at hbook huser hrun'
      exact absurd hrun (hidle r hr hbook huser hrun')
    · rw [List.mem_singleton.1 hr] at hbook huser hrun
      exact absurd hrun' (hidle r' hr' hbook.symm huser.symm hrun)
    · rw [List.mem_singleton.1 hr, List.mem_singleton.1 hr']

theorem follows_insert {db : Db} {row : TimeEntryRow} : Follows db (db.insert row) := by
  refine ⟨Nat.le_succ _, fun id hlt h r hr hid => ?_, fun _ h => h⟩
  rcases List.mem_append.1 hr with hr | hr
  · exact h r hr hid
  · rw [List.mem_singleton.1 hr] at hid
    exact absurd hid hlt.ne'

theorem tablesOk_delete {db : Db} (hdb : TablesOk db) {id : ℕ} (hid : id ∉ db.billed) :
    TablesOk (db.delete id) := by
  unfold Db.delete
  split
  · exact hdb
  · apply tablesOk_touch hdb
    · exact fun r hr => ⟨r, List.mem_of_mem_filter hr, .refl r⟩
    · exact hdb.keys.sublist (List.filter_sublist.map _)
    · intro i hi
      obtain ⟨r, hr, rfl⟩ := hdb.billedOnce.kept i hi
      refine ⟨r, List.mem_filter.2 ⟨hr, ?_⟩, rfl⟩
      have hne : r.id ≠ id := fun h => hid (h ▸ hi)
      simpa using hne
    · rfl
    · intro i hi
      cases hi
      exact hid
    · trivial
    · intro i hi
      cases hi

theorem comes_delete {db : Db} {id : ℕ} : Comes db (db.delete id) := by
  intro r hr
  unfold Db.delete at hr
  split at hr
  · exact ⟨r, hr, .refl r⟩
  · exact ⟨r, List.mem_of_mem_filter hr, .refl r⟩

theorem stays_delete {db : Db} {id : ℕ} {r : TimeEntryRow} (hr : r ∈ db.entries)
    (hne : r.id ≠ id) : r ∈ (db.delete id).entries := by
  unfold Db.delete
  split
  · exact hr
  · exact List.mem_filter.2 ⟨hr, by simpa using hne⟩

@[simp] theorem nextId_delete {db : Db} {id : ℕ} : (db.delete id).nextId = db.nextId := by
  unfold Db.delete
  split <;> rfl

@[simp] theorem billed_delete {db : Db} {id : ℕ} : (db.delete id).billed = db.billed := by
  unfold Db.delete
  split <;> rfl

theorem billed_addInvoice {db : Db} {invoice : Invoice} :
    (db.addInvoice invoice).billed = invoice.entries.map Prod.fst ++ db.billed :=
  List.flatMap_cons

theorem tablesOk_addInvoice {db : Db} (hdb : TablesOk db) {invoice : Invoice}
    (hnodup : (invoice.entries.map Prod.fst).Nodup)
    (hnew : ∀ id ∈ invoice.entries.map Prod.fst, (∃ r ∈ db.entries, r.id = id) ∧ id ∉ db.billed) :
    TablesOk (db.addInvoice invoice) := by
  refine ⟨hdb.keys, hdb.fresh, ?_, hdb.stopped, ⟨?_, fun id hid => ?_,
    ⟨fun id hid => (by cases hid), hdb.billedOnce.final⟩, hdb.billedOnce.oneTimer,
    List.forall_mem_cons.2 ⟨trivial, hdb.billedOnce.adds⟩, hdb.billedOnce.stoppedOnce⟩⟩
  · rw [billed_addInvoice, ← hdb.history]
    exact List.flatMap_cons
  · rw [billed_addInvoice]
    exact hnodup.append hdb.billedOnce.once fun id hid hold => (hnew id hid).2 hold
  · rw [billed_addInvoice] at hid
    rcases List.mem_append.1 hid with hid | hid
    · exact (hnew id hid).1
    · exact hdb.billedOnce.kept id hid

theorem derives_mark (guid : Guid) (ids : List ℕ) (r : TimeEntryRow) :
    Derives r (if r.id ∈ ids then { r with invoicedInvoiceGuid := some guid } else r) := by
  split
  · exact ⟨rfl, rfl, rfl, fun h => h, fun _ => rfl⟩
  · exact .refl r

theorem comes_mark {db : Db} {guid : Guid} {ids : List ℕ} : Comes db (db.mark guid ids) := by
  intro r' hr'
  obtain ⟨r, hr, rfl⟩ := List.mem_map.1 hr'
  exact ⟨r, hr, derives_mark guid ids r⟩

theorem tablesOk_mark {db : Db} (hdb : TablesOk db) {guid : Guid} {ids : List ℕ} :
    TablesOk (db.mark guid ids) := by
  have hkeys : ((db.mark guid ids).entries.map TimeEntryRow.id).Nodup := by
    have hmap : (db.mark guid ids).entries.map TimeEntryRow.id =
        db.entries.map TimeEntryRow.id := by
      rw [Db.mark, List.map_map]
      exact List.map_congr_left fun r _ => (derives_mark guid ids r).id
    rw [hmap]
    exact hdb.keys
  refine ⟨hkeys, fun r' hr' => ?_, hdb.history, fun id hid => ?_, ⟨hdb.billedOnce.once,
    fun id hid => ?_, hdb.billedOnce.final, ?_, hdb.billedOnce.adds, hdb.billedOnce.stoppedOnce⟩⟩
  · obtain ⟨r, hr, hd⟩ := comes_mark r' hr'
    rw [hd.id]
    exact hdb.fresh r hr
  · obtain ⟨hlt, htimer⟩ := hdb.stopped id hid
    exact ⟨hlt, timer_of_comes comes_mark htimer⟩
  · obtain ⟨r, hr, rfl⟩ := hdb.billedOnce.kept id hid
    exact ⟨_, List.mem_map_of_mem hr, (derives_mark guid ids r).id⟩
  · exact oneTimer_of_comes hdb.billedOnce.oneTimer comes_mark hkeys

theorem kept_mark {s : State} (hs : Inv s) {k : ℕ} {guid : Guid} {ids : List ℕ}
    (hk : s.phase k = .marking guid ids) {id : ℕ} (hid : id ∈ s.db.billed) :
    Kept (s.close k (s.db.mark guid ids) .idle) id := by
  obtain ⟨r, hr, hrid, htimer, hmark⟩ := hs.kept id hid
  have hd := derives_mark guid ids r
  refine ⟨_, List.mem_map_of_mem hr, hd.id.trans hrid, hd.timer htimer, ?_⟩
  by_cases hin : r.id ∈ ids
  · exact .inl (by simp [hin])
  · rcases hmark with hmark | ⟨j, guid', ids', hj, hid'⟩
    · exact .inl (hd.mark hmark)
    · have hne : j ≠ k := by
        rintro rfl
        rw [hk] at hj
        cases hj
        exact hin (hrid ▸ hid')
      exact .inr ⟨j, guid', ids', (Sys.close_phase_of_ne hne).trans hj, hid'⟩

/-! ## Runs -/

theorem inv_update {s : State} (hs : Inv s) {k id : ℕ} {f : TimeEntryRow → TimeEntryRow}
    {event : TimeEntryRow → Event} (hk : ∀ guid ids, s.phase k ≠ .marking guid ids)
    (hf : ∀ r, r.id = id → Derives r (f r)) (hdb : TablesOk (s.db.update id f event)) :
    Inv (s.close k (s.db.update id f event) .idle) := by
  apply hs.close hdb
  · exact follows_of_comes (comes_update hf) nextId_update (fun _ h => by rwa [billed_update])
  · intro i hi
    rw [billed_update] at hi
    exact kept_close hs hk hi fun r hr _ => stays_update hf hr
  · trivial

theorem derives_stopped (seen : TimeEntryRow) (now : ℤ) (r : TimeEntryRow) :
    Derives r (stopped seen now r) :=
  ⟨rfl, rfl, rfl, fun _ => rfl, fun h => h⟩

theorem tablesOk_stop {s : State} (hs : Inv s) {seen : TimeEntryRow} {now : ℤ}
    (hseen : seen.timerStartedAt.isSome)
    (hsame : ∀ r ∈ s.db.entries, r.id = seen.id →
      r.minutes = seen.minutes ∧ r.timerStartedAt = seen.timerStartedAt) :
    TablesOk (s.db.update seen.id (stopped seen now) fun r => .stopped r (stopped seen now r) now) := by
  obtain ⟨t, ht⟩ := Option.isSome_iff_exists.1 hseen
  apply tablesOk_update hs.tables
  · exact fun r _ => derives_stopped seen now r
  · exact fun r => rfl
  · intro r hr hid i hi hbilled
    cases hi
    obtain ⟨q, hq, hqid, htimer, -⟩ := hs.kept r.id hbilled
    rw [hs.tables.eq_of_id hq hr hqid, (hsame r hr hid).2, ht] at htimer
    cases htimer
  · intro r hr hid
    obtain ⟨hminutes, htimer⟩ := hsame r hr hid
    exact ⟨t, htimer.trans ht, by simp [stopped, hminutes, ht]⟩
  · intro r hr hid i hi
    cases hi
    exact ⟨hid, by rw [(hsame r hr hid).2, ht]; rfl, rfl⟩

theorem inv_next {l : Step} {s s' : State} (hl : Unraced l s) (hnext : next l s = some s')
    (hs : Inv s) : Inv s' := by
  cases l with
  | call k req =>
    simp only [next] at hnext
    split at hnext
    · next hidle =>
        cases hnext
        exact hs.goto (by simp [hidle]) trivial
    · cases hnext
  | advance k a =>
    have hk := hs.phases k
    simp only [next, advanceNext] at hnext
    simp only [Unraced] at hl
    cases hphase : s.phase k with
    | idle => simp [hphase] at hnext
    | reading req =>
      rw [hphase] at hnext
      cases hnext
      exact hs.goto (by simp [hphase]) (phaseOk_afterRead hs.tables a req)
    | starting row =>
      rw [hphase] at hnext
      simp only at hnext
      split at hnext <;> cases hnext <;> exact hs.goto (by simp [hphase]) trivial
    | inserting row =>
      rw [hphase] at hnext hl
      cases hnext
      apply hs.close (tablesOk_insert hs.tables hl) follows_insert
      · intro id hid
        exact kept_close hs (by simp [hphase]) hid fun r hr _ =>
          ⟨r, List.mem_append_left _ hr, .refl r⟩
      · trivial
    | stopping seen now =>
      rw [hphase] at hnext hl hk
      cases hnext
      exact inv_update hs (by simp [hphase]) (fun r _ => derives_stopped seen now r)
        (tablesOk_stop hs hk hl)
    | updating id f =>
      rw [hphase] at hnext hl hk
      cases hnext
      apply inv_update hs (by simp [hphase]) fun r _ => hk r
      apply tablesOk_update hs.tables fun r _ => hk r
      · exact fun _ => rfl
      · intro r hr hid i hi
        cases hi
        exact notMem_billed hs hl
      · exact fun _ _ _ => trivial
      · intro r hr hid i hi
        cases hi
    | deleting id =>
      rw [hphase] at hnext hl
      cases hnext
      have hfree := notMem_billed hs hl
      apply hs.close (tablesOk_delete hs.tables hfree)
      · exact follows_of_comes comes_delete nextId_delete (fun _ h => by rwa [billed_delete])
      · intro i hi
        rw [billed_delete] at hi
        refine kept_close hs (by simp [hphase]) hi fun r hr hid => ⟨r, ?_, .refl r⟩
        exact stays_delete hr fun h => hfree ((hid.symm.trans h) ▸ hi)
      · trivial
    | invoicing invoice ids =>
      rw [hphase] at hnext hl hk
      simp only at hnext hl
      cases hguid : a.invoiceGuid with
      | none =>
        rw [hguid] at hnext
        cases hnext
        exact hs.goto (by simp [hphase]) trivial
      | some guid =>
        rw [hguid] at hnext hl
        cases hnext
        obtain ⟨hnodup, hmem⟩ := hk.1 guid
        have htables : TablesOk (s.db.addInvoice (invoice guid)) := by
          apply tablesOk_addInvoice hs.tables hnodup
          intro id hid
          obtain ⟨hthere, huntaken⟩ := hl rfl id ((hmem id).1 hid)
          exact ⟨hthere, notMem_billed hs huntaken⟩
        have hbilled (id : ℕ) (hid : id ∈ s.db.billed) :
            id ∈ (s.db.addInvoice (invoice guid)).billed := by
          rw [billed_addInvoice]
          exact List.mem_append_right _ hid
        apply hs.close htables ⟨le_rfl, fun _ _ h => h, hbilled⟩
        · intro id hid
          rw [billed_addInvoice] at hid
          rcases List.mem_append.1 hid with hid | hid
          · have hin := (hmem id).1 hid
            obtain ⟨⟨r, hr, hrid⟩, -⟩ := hl rfl id hin
            refine ⟨r, hr, hrid, (hk.2 id hin).2 r hr hrid, .inr ?_⟩
            exact ⟨k, guid, ids, Sys.close_phase_self, hin⟩
          · exact kept_close hs (by simp [hphase]) hid fun r hr _ => ⟨r, hr, .refl r⟩
        · intro id hid
          rw [billed_addInvoice]
          exact List.mem_append_left _ ((hmem id).2 hid)
    | marking guid ids =>
      rw [hphase] at hnext
      cases hnext
      apply hs.close (tablesOk_mark hs.tables)
      · exact follows_of_comes comes_mark rfl fun _ h => h
      · exact fun id hid => kept_mark hs hphase hid
      · trivial

theorem inv_start : Inv start :=
  ⟨⟨List.nodup_nil, by simp [start], rfl, by simp [start], ⟨List.nodup_nil, by simp [start, Db.billed],
    trivial, by simp [start, OneTimer], by simp [start], List.nodup_nil⟩⟩,
    by simp [start, Db.billed], fun _ => trivial⟩

/-- Tracked time is billed once along a run without races. -/
theorem billedOnce_of_run {steps : List Step} {s : State} (hrun : run next steps start = some s)
    (h : Along next Unraced steps start) : BilledOnce s.db := by
  have hs : Inv s := invariant_along (fun l s s' hl hnext => inv_next hl hnext) hrun h inv_start
  exact hs.tables.billedOnce

/-! ## One entry -/

/-- What a request writes to is as it was read and on no invoice. -/
def Apart : Step → State → Prop
  | .call _ _, _ => True
  | .advance k a, s =>
    match s.phase k with
    | .inserting row =>
      row.timerStartedAt.isSome → s.db.running row.bookGuid row.userId = []
    | .stopping seen _ => ∀ r ∈ s.db.entries, r.id = seen.id →
        r.minutes = seen.minutes ∧ r.timerStartedAt = seen.timerStartedAt
    | .updating id _ | .deleting id =>
      (∀ r ∈ s.db.entries, r.id = id → r.invoicedInvoiceGuid = none) ∧ id ∉ s.db.billed
    | .invoicing _ uniqueIds => a.invoiceGuid.isSome → ∀ id ∈ uniqueIds,
        (∃ r ∈ s.db.entries, r.id = id) ∧
          (∀ r ∈ s.db.entries, r.id = id → r.invoicedInvoiceGuid = none) ∧ id ∉ s.db.billed
    | _ => True

instance (l : Step) (s : State) : Decidable (Apart l s) := by
  unfold Apart
  split
  · infer_instance
  · split <;> infer_instance

theorem untaken_of_notMem {s : State} (hs : Inv s) {id : ℕ}
    (h : (∀ r ∈ s.db.entries, r.id = id → r.invoicedInvoiceGuid = none) ∧ id ∉ s.db.billed) :
    Untaken s id := by
  refine ⟨h.1, ?_⟩
  rintro ⟨k, guid, ids, hk, hid⟩
  have hbilled := hs.phases k
  rw [hk] at hbilled
  exact h.2 (hbilled id hid)

theorem unraced_of_apart {l : Step} {s : State} (hs : Inv s) (h : Apart l s) : Unraced l s := by
  cases l with
  | call => trivial
  | advance k a =>
    simp only [Apart, Unraced] at h ⊢
    split at h
    · exact h
    · exact h
    · exact untaken_of_notMem hs h
    · exact untaken_of_notMem hs h
    · exact fun hguid id hid => ⟨(h hguid id hid).1, untaken_of_notMem hs (h hguid id hid).2⟩
    · trivial

def answerAt (now : ℤ) : Answer :=
  ⟨now, fun _ => none, fun _ => none, fun _ => none, fun _ => true, some 7⟩

def anHour : TimeEntryInput := ⟨some 1, none, some 0, 60, some (some 100), none, none⟩

def bill : Request := .generateInvoiceLines 0 1 [0] 2

/-- A timer is started and stopped, its entry priced, billed, and asked to be deleted. -/
def workday : List Step :=
  [.call 0 (.startTimer 0 0 ⟨some 1, none, none⟩), .advance 0 (answerAt 0), .advance 0 (answerAt 0),
    .advance 0 (answerAt 0), .call 1 (.stopTimer 0 0), .advance 1 (answerAt 3600000),
    .advance 1 (answerAt 3600000),
    .call 0 (.updateTimeEntry 0 0 ⟨none, none, none, none, some (some 100), none, none⟩ none),
    .advance 0 (answerAt 0), .advance 0 (answerAt 0), .call 0 bill, .advance 0 (answerAt 0),
    .advance 0 (answerAt 0), .advance 0 (answerAt 0), .call 1 (.deleteTimeEntry 0 0 none),
    .advance 1 (answerAt 0)]

theorem billedOnce_workday : ∃ s, run next workday start = some s ∧ BilledOnce s.db := by
  have hsome : (run next workday start).isSome := by decide +kernel
  obtain ⟨s, hs⟩ := Option.isSome_iff_exists.1 hsome
  have hapart : Along next Apart workday start := by decide +kernel
  have hunraced : Along next Unraced workday start :=
    along_imp (fun l s s' hl hnext hs => inv_next (unraced_of_apart hs hl) hnext hs)
      (fun l s hs hl => unraced_of_apart hs hl) inv_start hapart
  exact ⟨s, hs, billedOnce_of_run hs hunraced⟩

/-- Two requests read an entry before either bills it. -/
def twoInvoices : List Step :=
  [.call 0 (.createTimeEntry 0 0 anHour), .advance 0 (answerAt 0), .advance 0 (answerAt 0),
    .call 1 bill, .call 2 bill, .advance 1 (answerAt 0), .advance 2 (answerAt 0),
    .advance 1 (answerAt 0), .advance 2 (answerAt 0)]

theorem twoInvoices_not_billedOnce :
    ¬ ∀ (steps : List Step) (s : State), run next steps start = some s → BilledOnce s.db := by
  intro h
  have hbilled : (run next twoInvoices start).map (fun s => s.db.billed) = some [0, 0] := by
    decide +kernel
  obtain ⟨s, hs, hids⟩ := Option.map_eq_some_iff.1 hbilled
  have honce := (h twoInvoices s hs).once
  rw [hids] at honce
  exact absurd honce (by decide)

end TimeTracking
