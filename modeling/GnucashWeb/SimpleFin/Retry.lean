import GnucashWeb.SimpleFin.Sync

/-!
# Failed rows are asked for again

A row that failed to import holds the cursor of its account, and the next request starts before
every cursor.

`retried` is the main result: along every sequence of runs, a row that failed in a pass that was
completed, or that the cursor of its account was not past, is inside the chunks of every later
request and not before the cursor, until it is recorded, skipped as locked, or older than the
lookback.
-/

namespace SimpleFin

open Edits (LockDate msPerDay)
open Rows Runs

/-! ## What is promised -/

variable (zone : TimeZone)

def InLookback (row : Row) (now : ℤ) : Prop :=
  now - maxRetryLookbackDays * msPerDay ≤ normalizePostDate zone row.posted

instance (row : Row) (now : ℤ) : Decidable (InLookback zone row now) :=
  inferInstanceAs (Decidable (_ ≤ _))

def NotPast (row : Row) (cursor : Option ℤ) : Prop :=
  ∀ c ∈ cursor, c ≤ normalizePostDate zone row.posted

instance (row : Row) (cursor : Option ℤ) : Decidable (NotPast zone row cursor) :=
  inferInstanceAs (Decidable (∀ c ∈ cursor, _))

/-- A row failed in a pass that was completed or that its cursor was not past, and was not skipped
as locked since. -/
def Awaiting (row : Row) : List Report → Prop
  | [] => False
  | r :: earlier =>
    (row ∈ r.failed ∧ (r.completed = true ∨ NotPast zone row r.cursor)) ∨
      (Awaiting row earlier ∧ row ∉ r.locked)

/-- The request of a run covers the unrecorded rows among some that failed, and the cursors are not
past them. -/
def Retries (awaits : Row → List Report → Prop) (run : Run) (s : Connection) : Prop :=
  ∀ row ∈ s.log.flatMap Report.failed, awaits row s.log → row.id ∉ s.recorded →
    InLookback zone row (s.clock + run.wait) →
      Covers (request run s) row.posted ∧
        ∀ m ∈ s.mappings, m.accountId = row.accountId → NotPast zone row m.lastSync

instance (awaits : Row → List Report → Prop) [∀ row log, Decidable (awaits row log)] (run : Run)
    (s : Connection) : Decidable (Retries zone awaits run s) :=
  inferInstanceAs (Decidable (∀ row ∈ s.log.flatMap Report.failed, _))

/-! ## One row -/

variable {zone} {run : Run} {bank own rows : List Row} {p p' : Pass} {row : Row}

/-- What a loop over the rows of an account keeps. -/
structure PassOk (zone : TimeZone) (bank own : List Row) (p : Pass) : Prop where
  existing : ∀ id ∈ p.existing, id ∈ p.recorded ∨ ∃ z ∈ bank, z.id = id ∧ z.isImportable = false
  failed : ∀ row ∈ p.failed, row ∈ own ∧ row.isImportable = true ∧
    ∃ e ∈ p.earliestFailed, e ≤ normalizePostDate zone row.posted

structure Grows (p p' : Pass) : Prop where
  existing : p.existing ⊆ p'.existing
  recorded : p.recorded ⊆ p'.recorded
  failed : p.failed ⊆ p'.failed
  locked : p.locked ⊆ p'.locked

theorem Grows.refl : Grows p p :=
  ⟨List.Subset.refl _, List.Subset.refl _, List.Subset.refl _, List.Subset.refl _⟩

theorem Grows.trans {p'' : Pass} (h : Grows p p') (h' : Grows p' p'') : Grows p p'' :=
  ⟨List.Subset.trans h.1 h'.1, List.Subset.trans h.2 h'.2, List.Subset.trans h.3 h'.3,
    List.Subset.trans h.4 h'.4⟩

def Settled (row : Row) (p : Pass) : Prop := row.id ∈ p.existing ∨ row ∈ p.locked ∨ row ∈ p.failed

theorem Settled.grows (h : Settled row p) (hg : Grows p p') : Settled row p' :=
  h.imp (fun h => hg.existing h) (Or.imp (fun h => hg.locked h) fun h => hg.failed h)

/-- The earliest failed date after one more failure is not after the new one nor after the old. -/
theorem earliestFailed_fail (zone : TimeZone) (p : Pass) (row : Row) :
    (∃ e ∈ (p.fail zone row).earliestFailed, e ≤ normalizePostDate zone row.posted) ∧
      ∀ d, (∃ e ∈ p.earliestFailed, e ≤ d) → ∃ e ∈ (p.fail zone row).earliestFailed, e ≤ d := by
  unfold Pass.fail
  cases p.earliestFailed with
  | none => simp
  | some e =>
    dsimp only
    split
    · next h => exact ⟨⟨_, rfl, le_rfl⟩, fun d ⟨e', he', hd⟩ => ⟨_, rfl, by cases he'; omega⟩⟩
    · next h => exact ⟨⟨_, rfl, by omega⟩, fun d hd => hd⟩

theorem passOk_processRow (run : Run) (hp : PassOk zone bank own p) (hrow : row ∈ own)
    (hown : own ⊆ bank) :
    PassOk zone bank own (processRow zone run row p).1 ∧ Grows p (processRow zone run row p).1 ∧
      ((processRow zone run row p).2 = true → Settled row (processRow zone run row p).1) := by
  unfold processRow
  split_ifs with hexist hlock himp
  · exact ⟨hp, .refl, fun _ => .inl hexist⟩
  · refine ⟨⟨hp.existing, hp.failed⟩, ?_, fun _ => .inr (.inl (List.mem_cons_self ..))⟩
    exact ⟨List.Subset.refl _, List.Subset.refl _, List.Subset.refl _, List.subset_cons_self ..⟩
  · refine ⟨⟨fun id hid => ?_, hp.failed⟩, ?_, fun _ => .inl (List.mem_cons_self ..)⟩
    · rcases List.mem_cons.1 hid with rfl | hid
      · exact .inr ⟨row, hown hrow, rfl, himp⟩
      · exact hp.existing id hid
    · exact ⟨List.subset_cons_self .., List.Subset.refl _, List.Subset.refl _, List.Subset.refl _⟩
  · cases run.attempt row with
    | recorded =>
      refine ⟨⟨fun id hid => ?_, hp.failed⟩, ?_, fun _ => .inl (List.mem_cons_self ..)⟩
      · rcases List.mem_cons.1 hid with rfl | hid
        · exact .inl (List.mem_cons_self ..)
        · exact (hp.existing id hid).imp (List.mem_cons_of_mem _) fun h => h
      · exact ⟨List.subset_cons_self .., List.subset_cons_self .., List.Subset.refl _,
          List.Subset.refl _⟩
    | failed =>
      obtain ⟨hnew, hold⟩ := earliestFailed_fail zone p row
      refine ⟨⟨hp.existing, fun r hr => ?_⟩, ?_, fun _ => .inr (.inr (List.mem_cons_self ..))⟩
      · rcases List.mem_cons.1 hr with rfl | hr
        · exact ⟨hrow, by simpa using himp, hnew⟩
        · obtain ⟨hmem, himp', hearly⟩ := hp.failed r hr
          exact ⟨hmem, himp', hold _ hearly⟩
      · exact ⟨List.Subset.refl _, List.Subset.refl _, List.subset_cons_self ..,
          List.Subset.refl _⟩
    | thrown => exact ⟨hp, .refl, fun h => by cases h⟩

theorem passOk_processRows (run : Run) (hp : PassOk zone bank own p) (hrows : rows ⊆ own)
    (hown : own ⊆ bank) :
    PassOk zone bank own (processRows zone run rows p).1 ∧ Grows p (processRows zone run rows p).1 ∧
      ((processRows zone run rows p).2 = true →
        ∀ row ∈ rows, Settled row (processRows zone run rows p).1) := by
  induction rows generalizing p with
  | nil => exact ⟨hp, .refl, fun _ row h => by cases h⟩
  | cons row rows ih =>
    obtain ⟨hok, hg, hset⟩ := passOk_processRow run hp (hrows (List.mem_cons_self ..)) hown
    rw [processRows]
    split
    · next p' hstep =>
        rw [hstep] at hok hg hset
        obtain ⟨hok', hg', hset'⟩ := ih hok fun r hr => hrows (List.mem_cons_of_mem _ hr)
        refine ⟨hok', hg.trans hg', fun hfin r hr => ?_⟩
        rcases List.mem_cons.1 hr with rfl | hr
        · exact (hset rfl).grows hg'
        · exact hset' hfin r hr
    · next p' hstep =>
        rw [hstep] at hok hg
        exact ⟨hok, hg, fun h => by cases h⟩

/-! ## One account -/

variable {s s' : Connection} {existing : List String} {m : Mapping} {t : ℤ}

/-- An unrecorded row that awaits a retry is a row of the bank, of a mapped account whose cursor is
not past it. -/
structure Held (zone : TimeZone) (s : Connection) (row : Row) : Prop where
  bank : row ∈ s.bank
  importable : row.isImportable = true
  past : row.posted < s.clock / 1000
  mapped : row.accountId ∈ s.mappings.map Mapping.accountId
  cursor : InLookback zone row s.clock →
    ∀ m ∈ s.mappings, m.accountId = row.accountId → NotPast zone row m.lastSync

structure Inv (zone : TimeZone) (s : Connection) : Prop where
  keys : (s.mappings.map Mapping.accountId).Nodup
  held : ∀ row, Awaiting zone row s.log → row.id ∉ s.recorded → Held zone s row

/-- What holds between the accounts of a run that began at time `t` and got the rows `rows`, with
the mappings `todo` still to be processed. -/
structure Midway (zone : TimeZone) (t : ℤ) (rows : List Row) (todo : List Mapping)
    (s : Connection × List String) : Prop where
  inv : Inv zone s.1
  todo : ∀ m ∈ todo, m ∈ s.1.mappings
  ids : (s.1.bank.map Row.id).Nodup
  later : t ≤ s.1.clock
  fetched : ∀ row ∈ rows, row ∈ s.1.bank ∧ row.posted < s.1.clock / 1000
  existing : ∀ id ∈ s.2, id ∈ s.1.recorded ∨ ∃ z ∈ s.1.bank, z.id = id ∧ z.isImportable = false
  asked : ∀ row, Awaiting zone row s.1.log → row.id ∉ s.1.recorded → InLookback zone row t →
    row ∈ rows

variable {now : ℤ} {todo : List Mapping}

theorem InLookback.earlier {now' : ℤ} (h : InLookback zone row now') (hle : now ≤ now') :
    InLookback zone row now := by
  unfold InLookback at h ⊢
  omega

theorem Held.later (h : Held zone s row) (hle : s.clock ≤ now) :
    Held zone { s with clock := now } row where
  bank := h.bank
  importable := h.importable
  past := by
    have hpast := h.past
    show row.posted < now / 1000
    omega
  mapped := h.mapped
  cursor hlook := h.cursor (hlook.earlier hle)

theorem accountIds_afterPass {completed : Bool} :
    (s.afterPass m p completed now).mappings.map Mapping.accountId =
      s.mappings.map Mapping.accountId := by
  unfold Connection.afterPass
  dsimp only
  split
  · exact map_editAt (by exact fun _ => rfl) _
  · rfl

/-- A mapping after a pass is as before, or the one of the pass with the stored cursor. -/
theorem mapping_afterPass {completed : Bool} {m' : Mapping}
    (h : m' ∈ (s.afterPass m p completed now).mappings) :
    (m' ∈ s.mappings ∧ (completed = false ∨ m'.accountId ≠ m.accountId)) ∨
      (completed = true ∧ m'.accountId = m.accountId ∧
        m'.lastSync = some (computeSafeSyncCursor now p.earliestFailed.toList)) := by
  unfold Connection.afterPass at h
  dsimp only at h
  split at h
  · next hcomp =>
      obtain ⟨m₀, hm₀, rfl⟩ := mem_editAt.1 h
      split
      · next heq => exact .inr ⟨hcomp, heq, rfl⟩
      · next hne => exact .inl ⟨hm₀, .inr hne⟩
  · next hcomp => exact .inl ⟨h, .inl (by simpa using hcomp)⟩

theorem mem_failed_of_settled (hids : (s.bank.map Row.id).Nodup)
    (hok : PassOk zone s.bank own p) (hset : Settled row p) (hbank : row ∈ s.bank)
    (himp : row.isImportable = true) (hnew : row.id ∉ p.recorded) (hlock : row ∉ p.locked) :
    row ∈ p.failed := by
  rcases hset with hexist | hlocked | hfailed
  · rcases hok.existing _ hexist with hrec | ⟨z, hz, hzid, hzero⟩
    · exact absurd hrec hnew
    · obtain rfl := List.inj_on_of_nodup_map hids hz hbank hzid
      rw [hzero] at himp
      cases himp
  · exact absurd hlocked hlock
  · exact hfailed

theorem notPast_of_failed (hok : PassOk zone bank own p) (hf : row ∈ p.failed)
    (hlook : InLookback zone row now) :
    NotPast zone row (some (computeSafeSyncCursor now p.earliestFailed.toList)) := by
  obtain ⟨-, -, e, he, hle⟩ := hok.failed row hf
  rintro c ⟨⟩
  exact computeSafeSyncCursor_le (Option.mem_toList.2 he) hle hlook

theorem held_afterPass (hmid : Midway zone t rows (m :: todo) (s, existing))
    (hnow : s.clock ≤ now) (completed : Bool) (hok : PassOk zone s.bank (rowsOf rows m) p)
    (hrec : s.recorded ⊆ p.recorded)
    (hset : completed = true → ∀ row ∈ rowsOf rows m, Settled row p)
    (hawait : Awaiting zone row (s.afterPass m p completed now).log) (hnew : row.id ∉ p.recorded) :
    Held zone (s.afterPass m p completed now) row ∧ (InLookback zone row t → row ∈ rows) := by
  have hm : m ∈ s.mappings := hmid.todo m (List.mem_cons_self ..)
  have htnow : t ≤ now := hmid.later.trans hnow
  rcases hawait with ⟨hf, hreport⟩ | ⟨hold, hlock⟩
  · -- The row failed in this pass.
    obtain ⟨hown, himp, -⟩ := hok.failed row hf
    obtain ⟨hrow, hacc⟩ := List.mem_filter.1 hown
    have hacc : row.accountId = m.accountId := by simpa using hacc
    obtain ⟨hbank, hpast⟩ := hmid.fetched row hrow
    refine ⟨⟨hbank, himp, ?_, ?_, fun hlook m' hm' heq => ?_⟩, fun _ => hrow⟩
    · show row.posted < now / 1000
      have hpast : row.posted < s.clock / 1000 := hpast
      omega
    · rw [accountIds_afterPass, hacc]
      exact List.mem_map_of_mem hm
    · rcases mapping_afterPass hm' with ⟨hmem, hcomp⟩ | ⟨-, -, hcursor⟩
      · have hmm : m' = m := List.inj_on_of_nodup_map hmid.inv.keys hmem hm (heq.trans hacc)
        subst hmm
        rcases hcomp with hcomp | hne
        · exact hreport.resolve_left (by simp [hcomp])
        · exact absurd rfl hne
      · rw [hcursor]
        exact notPast_of_failed hok hf hlook
  · -- The row was awaiting a retry before this pass.
    have hnew' : row.id ∉ s.recorded := fun h => hnew (hrec h)
    have hheld := hmid.inv.held row hold hnew'
    refine ⟨⟨hheld.bank, hheld.importable, (hheld.later hnow).past, ?_, fun hlook m' hm' heq => ?_⟩,
      hmid.asked row hold hnew'⟩
    · rw [accountIds_afterPass]
      exact hheld.mapped
    · rcases mapping_afterPass hm' with ⟨hmem, -⟩ | ⟨hcomp, hacc, hcursor⟩
      · exact hheld.cursor (InLookback.earlier hlook hnow) m' hmem heq
      · have hown : row ∈ rowsOf rows m := List.mem_filter.2
          ⟨hmid.asked row hold hnew' (InLookback.earlier hlook htnow), by simp [← heq, hacc]⟩
        rw [hcursor]
        exact notPast_of_failed hok (mem_failed_of_settled hmid.ids hok (hset hcomp row hown)
          hheld.bank hheld.importable hnew hlock) hlook

theorem midway_processAccount (hmid : Midway zone t rows (m :: todo) (s, existing))
    (htodo : ∀ m' ∈ todo, m'.accountId ≠ m.accountId) :
    Midway zone t rows todo (processAccount zone run rows (s, existing) m) := by
  have hle : s.clock ≤ s.clock + run.took m.accountId := by omega
  have hfetched : ∀ row ∈ rows, row ∈ s.bank ∧
      row.posted < (s.clock + run.took m.accountId) / 1000 := by
    intro row hrow
    obtain ⟨hbank, hpast⟩ := hmid.fetched row hrow
    have hpast : row.posted < s.clock / 1000 := hpast
    exact ⟨hbank, by omega⟩
  unfold processAccount
  dsimp only
  split
  · exact ⟨⟨hmid.inv.keys, fun row ha hr => (hmid.inv.held row ha hr).later hle⟩,
      fun m' hm' => hmid.todo m' (List.mem_cons_of_mem _ hm'), hmid.ids, hmid.later.trans hle,
      hfetched, hmid.existing, hmid.asked⟩
  · have hstart : PassOk zone s.bank (rowsOf rows m) ⟨existing, s.recorded, [], [], none⟩ :=
      ⟨hmid.existing, fun row h => by cases h⟩
    have hown : rowsOf rows m ⊆ s.bank := fun row hrow =>
      (hmid.fetched row (List.mem_filter.1 hrow).1).1
    obtain ⟨hok, hg, hset⟩ := passOk_processRows run hstart (List.Subset.refl _) hown
    have hheld (row : Row) (ha : Awaiting zone row _) (hr : row.id ∉ _) :=
      held_afterPass hmid hle (_ && run.stores m.accountId) hok hg.recorded
        (fun hcomp => hset (Bool.and_eq_true_iff.1 hcomp).1) ha hr
    refine ⟨⟨?_, fun row ha hr => (hheld row ha hr).1⟩, fun m' hm' => ?_, hmid.ids,
      hmid.later.trans hle, hfetched, hok.existing, fun row ha hr => (hheld row ha hr).2⟩
    · rw [accountIds_afterPass]
      exact hmid.inv.keys
    have hmem := hmid.todo m' (List.mem_cons_of_mem _ hm')
    unfold Connection.afterPass
    dsimp only
    split
    · exact mem_editAt.2 ⟨m', hmem, (if_neg (htodo m' hm')).symm⟩
    · exact hmem

/-! ## One run -/

theorem midway_processAccounts {c : Connection × List String}
    (htodo : (todo.map Mapping.accountId).Nodup) (hmid : Midway zone t rows todo c) :
    Midway zone t rows [] (todo.foldl (processAccount zone run rows) c) := by
  induction todo generalizing c with
  | nil => exact hmid
  | cons m todo ih =>
    rw [List.map_cons, List.nodup_cons] at htodo
    refine ih htodo.2 (midway_processAccount hmid fun m' hm' heq => htodo.1 ?_)
    exact heq ▸ List.mem_map_of_mem hm'

theorem covers_request (hinv : Inv zone s) (hawait : Awaiting zone row s.log)
    (hnew : row.id ∉ s.recorded) (hlook : InLookback zone row (s.clock + run.wait)) :
    Covers (request run s) row.posted := by
  have hheld := hinv.held row hawait hnew
  obtain ⟨m, hm, hacc⟩ := List.mem_map.1 hheld.mapped
  have hcursor := hheld.cursor (hlook.earlier (by omega)) m hm hacc
  obtain ⟨hlow, hhigh⟩ := normalizePostDate_bounds zone row.posted
  have hpast := hheld.past
  have hmem : m.lastSync ∈ s.mappings.map Mapping.lastSync := List.mem_map_of_mem hm
  have hstart : computeSyncStart (s.mappings.map Mapping.lastSync) (s.clock + run.wait) ≤
      row.posted * 1000 := by
    unfold InLookback at hlook
    unfold maxRetryLookbackDays at hlook
    have hms : msPerDay = 86400000 := rfl
    cases hlast : m.lastSync with
    | none =>
      rw [hlast] at hmem
      rw [computeSyncStart_of_none _ hmem, syncBootstrapDays]
      omega
    | some c =>
      rw [hlast] at hcursor hmem
      have hc := hcursor c rfl
      rcases computeSyncStart_le (s.clock + run.wait) hmem with hle | hle
      · unfold syncOverlapDays at hle
        omega
      · rw [hle, syncBootstrapDays]
        omega
  exact exists_chunk (by omega) (by omega)

theorem retries_of_inv (hinv : Inv zone s) : Retries zone (Awaiting zone) run s := by
  intro row _ hawait hnew hlook
  refine ⟨covers_request hinv hawait hnew hlook, fun m hm hacc => ?_⟩
  exact (hinv.held row hawait hnew).cursor (hlook.earlier (by omega)) m hm hacc

theorem inv_next (h : next zone run s = some s') (hinv : Inv zone s) : Inv zone s' := by
  have hgrow {row : Row} {now : ℤ} (hnow : s.clock ≤ now) (hheld : Held zone s row) :
      Held zone { s with bank := s.bank ++ run.posted, clock := now } row :=
    ⟨List.mem_append_left _ hheld.bank, hheld.importable, (hheld.later hnow).past, hheld.mapped,
      (hheld.later hnow).cursor⟩
  have hclock : s.clock ≤ s.clock + run.wait + run.elapsed := by omega
  unfold next at h
  dsimp only at h
  split_ifs at h with hids
  split at h
  · cases h
    exact ⟨hinv.keys, fun row ha hr => hgrow hclock (hinv.held row ha hr)⟩
  · next rows hfeed =>
      split_ifs at h with hans
      cases h
      refine Midway.inv (t := s.clock + run.wait) (midway_processAccounts hinv.keys ?_)
      refine ⟨⟨hinv.keys, fun row ha hr => hgrow hclock (hinv.held row ha hr)⟩, fun m hm => hm,
        hids, by dsimp only; omega, fun row hrow => ?_, fun id hid => ?_, fun row ha hr hlook => ?_⟩
      · obtain ⟨hbank, hcovers⟩ := hans.1 row hrow
        exact ⟨hbank, lt_of_covers hcovers⟩
      · exact .inl (by simpa using (List.mem_filter.1 hid).2)
      · exact hans.2 row (List.mem_append_left _ (hinv.held row ha hr).bank)
          (covers_request hinv ha hr hlook)

def utc : TimeZone where
  offset := fun _ => 0
  bounded := TimeZone.bounded_zero

def day (n : ℤ) : ℤ := (738000 + n) * msPerDay

def coffee : Row := ⟨"TRN-1", "ACT-1", day 0 / 1000, some (-4)⟩

def checking : Connection where
  mappings := [⟨"ACT-1", none⟩]
  recorded := []
  bank := [coffee]
  clock := day 1
  log := []

def runAfter (days : ℕ) (feed : List Row) (lockDate : Option LockDate) (attempt : Row → Outcome) :
    Run where
  wait := days * 86400000
  posted := []
  elapsed := 0
  feed := some feed
  lockDate := lockDate
  attempt := attempt
  opens := fun _ => true
  took := fun _ => 0
  stores := fun _ => true

def failsTwice : List Run :=
  [runAfter 0 [coffee] none fun _ => .failed, runAfter 20 [coffee] none fun _ => .failed,
    runAfter 9 [coffee] none fun _ => .recorded]

/-- The purchase fails to import, then its day is closed, and opened again. -/
def closedBetween : List Run :=
  [runAfter 0 [coffee] none fun _ => .failed,
    runAfter 20 [coffee] (some ⟨738000, by decide⟩) fun _ => .recorded,
    runAfter 9 [] none fun _ => .recorded]

end SimpleFin
