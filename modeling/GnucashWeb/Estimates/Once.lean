import GnucashWeb.Estimates.Store

/-!
# Estimates convert once

Along every run in which a request writes to what is still as it read it, and no request crashes
between creating an invoice and marking its estimate, numbers are distinct, an estimate has one invoice,
a converted estimate names the invoice that was made of its lines, and it is not changed or deleted
(`sound_of_run`).  Two conversions that read an estimate at the same time both create an invoice
(`twoConversions_not_sound`).
-/

namespace Estimates

open Runs Sessions

/-! ## Numbers -/

theorem estimateNumber_next (existing : List (List Char)) :
    estimateNumber (nextEstimateNo existing) = some (maxEstimateNumber existing + 1) := by
  have hdigits : ∀ c ∈ Numbering.padStart 4 '0'
      (Text.natDigits (maxEstimateNumber existing + 1)), c.isDigit = true := by
    intro c hc
    rcases List.mem_append.1 hc with hc | hc
    · rw [(List.mem_replicate.1 hc).2]
      decide
    · exact Text.isDigit_of_mem_natDigits hc
  have hne : Numbering.padStart 4 '0' (Text.natDigits (maxEstimateNumber existing + 1)) ≠ [] :=
    List.append_ne_nil_of_right_ne_nil _ (Text.natDigits_ne_nil _)
  have hdrop : (nextEstimateNo existing).drop 4 =
      Numbering.padStart 4 '0' (Text.natDigits (maxEstimateNumber existing + 1)) :=
    List.drop_left' rfl
  have htake : (nextEstimateNo existing).take 4 = "EST-".toList := List.take_left' rfl
  rw [estimateNumber, htake, if_pos (by decide), hdrop, Text.readDecimal,
    if_pos ⟨hne, List.all_eq_true.2 hdigits⟩, Numbering.ofDigitChars_padStart]

theorem le_foldl_max (existing : List (List Char)) (m : ℕ) :
    m ≤ existing.foldl (fun m no => (estimateNumber no).elim m (max m)) m := by
  induction existing generalizing m with
  | nil => exact Nat.le_refl m
  | cons no rest ih =>
    refine Nat.le_trans ?_ (ih _)
    change m ≤ (estimateNumber no).elim m (max m)
    cases estimateNumber no with
    | none => exact Nat.le_refl m
    | some n => exact Nat.le_max_left m n

theorem estimateNumber_le_foldl {existing : List (List Char)} {no : List Char} {n : ℕ}
    (hno : no ∈ existing) (hn : estimateNumber no = some n) (m : ℕ) :
    n ≤ existing.foldl (fun m no => (estimateNumber no).elim m (max m)) m := by
  induction existing generalizing m with
  | nil => cases hno
  | cons first rest ih =>
    rcases List.mem_cons.1 hno with rfl | hno
    · refine Nat.le_trans ?_ (le_foldl_max rest _)
      change n ≤ (estimateNumber no).elim m (max m)
      rw [hn]
      exact Nat.le_max_right m n
    · exact ih hno _

theorem estimateNumber_le_max {existing : List (List Char)} {no : List Char} {n : ℕ}
    (hno : no ∈ existing) (hn : estimateNumber no = some n) : n ≤ maxEstimateNumber existing :=
  estimateNumber_le_foldl hno hn 0

theorem nextEstimateNo_notMem (existing : List (List Char)) :
    nextEstimateNo existing ∉ existing := by
  intro hmem
  have hle := estimateNumber_le_max hmem (estimateNumber_next existing)
  omega

theorem maxEstimateNumber_append (existing : List (List Char)) (no : List Char) :
    maxEstimateNumber (existing ++ [no]) =
      (estimateNumber no).elim (maxEstimateNumber existing) (max (maxEstimateNumber existing)) := by
  simp [maxEstimateNumber]

/-! ## What is asked of the tables -/

def Event.touched? : Event → Option ℕ
  | .changed id => some id
  | .converted id => some id
  | .deleted id => some id
  | _ => none

def Event.converted? : Event → Option ℕ
  | .converted id => some id
  | _ => none

def Event.created? : Event → Option (List Char)
  | .created no => some no
  | _ => none

def converted (history : List Event) : List ℕ := history.filterMap Event.converted?

/-- Every number that an estimate ever got. -/
def created (history : List Event) : List (List Char) := history.filterMap Event.created?

/-- An estimate that was converted is not written to later. -/
def Final : List Event → Prop
  | [] => True
  | e :: past => (∀ id ∈ e.touched?, id ∉ converted past) ∧ Final past

structure Sound (db : Db) : Prop where
  numbers : db.numbers.Nodup
  once : (db.invoices.map Invoice.estimateId).Nodup
  named : ∀ r ∈ db.estimates, r.status = .converted → ∃ invoice ∈ db.invoices,
    r.convertedInvoiceGuid = some invoice.guid ∧ invoice.estimateId = r.id ∧
      estimateLinesToInvoiceEntries r.lines = some invoice.entries
  final : Final db.history

/-- Whether a request has made an invoice of an estimate that it has not marked. -/
def Marking (s : State) (id : ℕ) : Prop := ∃ k invoice, s.phase k = .marking id invoice

/-- What a request writes to is still as it was read, and nothing crashes before it marks. -/
def Unraced : Step → State → Prop
  | .call _ _, _ => True
  | .advance k a, s =>
    match s.phase k with
    | .inserting _ estimateNo => nextEstimateNo s.db.numbers = estimateNo
    | .updating id _ | .deleting id =>
      ∀ r ∈ s.db.estimates, r.id = id → r.status ≠ .converted
    | .invoicing id _ => a.invoiceGuid.isSome →
        (∃ r ∈ s.db.estimates, r.id = id ∧ r.status ≠ .converted) ∧ ¬Marking s id
    | .marking id invoice => ∀ r ∈ s.db.estimates, r.id = id →
        estimateLinesToInvoiceEntries r.lines = some invoice.entries
    | _ => True
  | .crash k, s => ∀ id invoice, s.phase k ≠ .marking id invoice

def KeepsTop : Step → State → Prop
  | .advance k _, s =>
    match s.phase k with
    | .deleting id => maxEstimateNumber (s.db.delete id).numbers = maxEstimateNumber s.db.numbers
    | _ => True
  | _, _ => True

/-! ## Invariants -/

/-- A change of an estimate that keeps what it is known by. -/
structure Edits (f : EstimateRow → EstimateRow) : Prop where
  id : ∀ r, (f r).id = r.id
  estimateNo : ∀ r, (f r).estimateNo = r.estimateNo
  status : ∀ r, (f r).status ≠ .converted

def PhaseOk (db : Db) : Phase → Prop
  | .updating _ f => Edits f
  | .readingLines row _ => row.id < db.nextId
  | .invoicing id invoice => id < db.nextId ∧ ∀ guid, (invoice guid).estimateId = id
  | .marking id invoice => invoice ∈ db.invoices ∧ invoice.estimateId = id ∧
      ∀ r ∈ db.estimates, r.id = id → r.status ≠ .converted
  | _ => True

structure Inv (s : State) : Prop where
  keys : (s.db.estimates.map EstimateRow.id).Nodup
  fresh : ∀ r ∈ s.db.estimates, r.id < s.db.nextId
  invoiced : ∀ invoice ∈ s.db.invoices, invoice.estimateId < s.db.nextId ∧
    ∀ r ∈ s.db.estimates, r.id = invoice.estimateId →
      r.status = .converted ∨ Marking s invoice.estimateId
  marked : ∀ id ∈ converted s.db.history, ∃ r ∈ s.db.estimates, r.id = id ∧ r.status = .converted
  single : ∀ j k id invoice invoice', s.phase j = .marking id invoice →
    s.phase k = .marking id invoice' → j = k
  phases : ∀ k, PhaseOk s.db (s.phase k)
  sound : Sound s.db

variable {s : State} {id k : ℕ} {db : Db} {l : Step}

theorem Inv.eq_of_id (hs : Inv s) {r r' : EstimateRow} (hr : r ∈ s.db.estimates)
    (hr' : r' ∈ s.db.estimates) (hid : r.id = r'.id) : r = r' :=
  List.inj_on_of_nodup_map hs.keys hr hr' hid

theorem Inv.notMem_converted (hs : Inv s)
    (h : ∀ r ∈ s.db.estimates, r.id = id → r.status ≠ .converted) :
    id ∉ converted s.db.history := by
  intro hmem
  obtain ⟨r, hr, hid, hstatus⟩ := hs.marked id hmem
  exact h r hr hid hstatus

theorem Inv.goto (hs : Inv s) {p : Phase} (hp : PhaseOk s.db p)
    (hk : ∀ r ∈ s.db.estimates, ∀ invoice, s.phase k ≠ .marking r.id invoice)
    (hnot : ∀ id invoice, p ≠ .marking id invoice) : Inv (s.goto k p) := by
  refine ⟨hs.keys, hs.fresh, fun invoice hinvoice => ⟨(hs.invoiced invoice hinvoice).1,
    fun r hr hid => ?_⟩, hs.marked, fun i j id v v' hi hj => ?_, fun j => ?_, hs.sound⟩
  · refine ((hs.invoiced invoice hinvoice).2 r hr hid).imp_right ?_
    rintro ⟨j, v, hj⟩
    have hne : j ≠ k := by
      rintro rfl
      exact hk r hr v (hid ▸ hj)
    exact ⟨j, v, (Sys.goto_phase_of_ne hne).trans hj⟩
  · have hne {m : ℕ} {w : Invoice} (hm : (s.goto k p).phase m = .marking id w) : m ≠ k := by
      rintro rfl
      rw [Sys.goto_phase_self] at hm
      exact hnot id w hm
    rw [Sys.goto_phase_of_ne (hne hi)] at hi
    rw [Sys.goto_phase_of_ne (hne hj)] at hj
    exact hs.single i j id v v' hi hj
  · by_cases hjk : j = k
    · subst hjk
      rw [Sys.goto_phase_self]
      exact hp
    · rw [Sys.goto_phase_of_ne hjk]
      exact hs.phases j

/-- Writes that leave converted estimates and invoices as they are. -/
structure Follows (db db' : Db) : Prop where
  nextId : db.nextId ≤ db'.nextId
  invoices : db'.invoices = db.invoices
  converted : converted db'.history = converted db.history
  old : ∀ r' ∈ db'.estimates, r'.id < db.nextId → ∃ r ∈ db.estimates, r.id = r'.id ∧
    (r.status = .converted → r' = r) ∧ (r.status ≠ .converted → r'.status ≠ .converted)
  new : ∀ r' ∈ db'.estimates, ¬r'.id < db.nextId → r'.status ≠ .converted
  stay : ∀ r ∈ db.estimates, r.status = .converted → r ∈ db'.estimates

theorem PhaseOk.mono (hs : Inv s) (h : Follows s.db db) {p : Phase}
    (hp : PhaseOk s.db p) : PhaseOk db p := by
  cases p with
  | updating => exact hp
  | readingLines => exact Nat.lt_of_lt_of_le hp h.nextId
  | invoicing => exact ⟨Nat.lt_of_lt_of_le hp.1 h.nextId, hp.2⟩
  | marking id invoice =>
    obtain ⟨hmem, rfl, hrows⟩ := hp
    refine ⟨h.invoices ▸ hmem, rfl, fun r' hr' hid => ?_⟩
    have hlt := (hs.invoiced invoice hmem).1
    obtain ⟨r, hr, hrid, -, hnot⟩ := h.old r' hr' (hid ▸ hlt)
    exact hnot (hrows r hr (hrid.trans hid))
  | _ => trivial

theorem inv_write (hs : Inv s) (h : Follows s.db db)
    (hk : ∀ id invoice, s.phase k ≠ .marking id invoice)
    (hkeys : (db.estimates.map EstimateRow.id).Nodup)
    (hfresh : ∀ r ∈ db.estimates, r.id < db.nextId) (hnumbers : db.numbers.Nodup)
    (hfinal : Final db.history) : Inv (s.close k db .idle) := by
  have hmarking {id : ℕ} (hm : Marking s id) : Marking (s.close k db .idle) id := by
    obtain ⟨j, v, hj⟩ := hm
    have hne : j ≠ k := by
      rintro rfl
      exact hk id v hj
    exact ⟨j, v, (Sys.close_phase_of_ne hne).trans hj⟩
  have hphase {j id : ℕ} {v : Invoice} (hj : (s.close k db .idle).phase j = .marking id v) :
      s.phase j = .marking id v := by
    by_cases hjk : j = k
    · subst hjk
      rw [Sys.close_phase_self] at hj
      cases hj
    · rwa [Sys.close_phase_of_ne hjk] at hj
  refine ⟨hkeys, hfresh, fun invoice hinvoice => ?_, fun id hid => ?_,
    fun i j id v v' hi hj => hs.single i j id v v' (hphase hi) (hphase hj), fun j => ?_,
    ⟨hnumbers, ?_, fun r' hr' hstatus => ?_, hfinal⟩⟩
  · have hinvoice' : invoice ∈ s.db.invoices := h.invoices ▸ hinvoice
    obtain ⟨hlt, hrows⟩ := hs.invoiced invoice hinvoice'
    refine ⟨Nat.lt_of_lt_of_le hlt h.nextId, fun r' hr' hid => ?_⟩
    obtain ⟨r, hr, hrid, hsame, -⟩ := h.old r' hr' (hid ▸ hlt)
    rcases hrows r hr (hrid.trans hid) with hstatus | hm
    · exact .inl (by rw [hsame hstatus, hstatus])
    · exact .inr (hmarking hm)
  · obtain ⟨r, hr, hrid, hstatus⟩ := hs.marked id (h.converted ▸ hid)
    exact ⟨r, h.stay r hr hstatus, hrid, hstatus⟩
  · by_cases hjk : j = k
    · subst hjk
      rw [Sys.close_phase_self]
      trivial
    · rw [Sys.close_phase_of_ne hjk]
      exact (hs.phases j).mono hs h
  · rw [Sys.close_db, h.invoices]
    exact hs.sound.once
  · by_cases hlt : r'.id < s.db.nextId
    · obtain ⟨r, hr, hrid, hsame, hnot⟩ := h.old r' hr' hlt
      have hconverted : r.status = .converted := by
        by_contra hne
        exact hnot hne hstatus
      rw [hsame hconverted, Sys.close_db, h.invoices]
      exact hs.sound.named r hr hconverted
    · exact absurd hstatus (h.new r' hr' hlt)

/-! ## Steps -/

theorem mem_of_find? {r : EstimateRow} (h : db.find? id = some r) :
    r ∈ db.estimates ∧ r.id = id :=
  ⟨List.mem_of_find?_eq_some h, by simpa using List.find?_some h⟩

theorem inv_insert (hs : Inv s) {input : CreateEstimateInput}
    {estimateNo : List Char} (hk : s.phase k = .inserting input estimateNo)
    (hno : nextEstimateNo s.db.numbers = estimateNo) :
    Inv (s.close k (s.db.insert input estimateNo) .idle) := by
  have hrows {r : EstimateRow} (hr : r ∈ (s.db.insert input estimateNo).estimates) :
      r ∈ s.db.estimates ∨ (r.id = s.db.nextId ∧ r.status = .draft) := by
    rcases List.mem_append.1 hr with hr | hr
    · exact .inl hr
    · rw [List.mem_singleton.1 hr]
      exact .inr ⟨rfl, rfl⟩
  apply inv_write hs
  · refine ⟨Nat.le_succ _, rfl, rfl, fun r' hr' hlt => ?_, fun r' hr' hge => ?_,
      fun r hr _ => List.mem_append_left _ hr⟩
    · rcases hrows hr' with hr' | ⟨hid, -⟩
      · exact ⟨r', hr', rfl, fun _ => rfl, fun h => h⟩
      · omega
    · rcases hrows hr' with hr' | ⟨-, hstatus⟩
      · exact absurd (hs.fresh r' hr') hge
      · rw [hstatus]
        decide
  · intro id invoice h
    rw [hk] at h
    cases h
  · have hnew : s.db.nextId ∉ s.db.estimates.map EstimateRow.id := by
      intro hmem
      obtain ⟨r, hr, hid⟩ := List.mem_map.1 hmem
      have := hs.fresh r hr
      omega
    have hmap : (s.db.insert input estimateNo).estimates.map EstimateRow.id =
        s.db.estimates.map EstimateRow.id ++ [s.db.nextId] := by simp [Db.insert]
    rw [hmap]
    exact hs.keys.append (List.nodup_singleton _) (by simpa using hnew)
  · intro r hr
    change r.id < s.db.nextId + 1
    rcases hrows hr with hr | ⟨hid, -⟩
    · have := hs.fresh r hr
      omega
    · omega
  · have hmap : (s.db.insert input estimateNo).numbers = s.db.numbers ++ [estimateNo] := by
      simp [Db.insert, Db.numbers]
    rw [hmap]
    have hnew : estimateNo ∉ s.db.numbers := hno ▸ nextEstimateNo_notMem _
    exact hs.sound.numbers.append (List.nodup_singleton _) (by simpa using hnew)
  · exact ⟨fun id hid => (by cases hid), hs.sound.final⟩

theorem inv_update (hs : Inv s) {f : EstimateRow → EstimateRow} (hk : s.phase k = .updating id f)
    (hrow : ∀ r ∈ s.db.estimates, r.id = id → r.status ≠ .converted) :
    Inv (s.close k (s.db.write id f (.changed id)) .idle) := by
  have hf : Edits f := by
    have hphase := hs.phases k
    rw [hk] at hphase
    exact hphase
  have hnot (i : ℕ) (invoice : Invoice) : s.phase k ≠ .marking i invoice := by
    rw [hk]
    exact Phase.noConfusion
  unfold Db.write
  split
  · apply inv_write hs ⟨le_rfl, rfl, rfl, fun r hr _ => ⟨r, hr, rfl, fun _ => rfl, fun h => h⟩,
      fun r hr hge => absurd (hs.fresh r hr) hge, fun r hr _ => hr⟩ hnot hs.keys hs.fresh
      hs.sound.numbers hs.sound.final
  · have hold {r' : EstimateRow} (hr' : r' ∈ Rows.editAt EstimateRow.id id f s.db.estimates) :
        ∃ r ∈ s.db.estimates, r.id = r'.id ∧ (r.status = .converted → r' = r) ∧
          (r.status ≠ .converted → r'.status ≠ .converted) := by
      obtain ⟨r, hr, rfl⟩ := Rows.mem_editAt.1 hr'
      refine ⟨r, hr, ?_⟩
      split
      · next hid =>
          exact ⟨(hf.id r).symm, fun h => absurd h (hrow r hr hid), fun _ => hf.status r⟩
      · exact ⟨rfl, fun _ => rfl, fun h => h⟩
    apply inv_write hs
    · refine ⟨le_rfl, rfl, rfl, fun r' hr' _ => hold hr', fun r' hr' hge => ?_,
        fun r hr hstatus => ?_⟩
      · obtain ⟨r, hr, hid, -⟩ := hold hr'
        exact absurd (hs.fresh r hr) (hid ▸ hge)
      · have hne : r.id ≠ id := fun hid => hrow r hr hid hstatus
        exact Rows.mem_editAt.2 ⟨r, hr, by rw [if_neg hne]⟩
    · exact hnot
    · simp only [Rows.map_editAt hf.id]
      exact hs.keys
    · intro r' hr'
      obtain ⟨r, hr, hid, -⟩ := hold hr'
      exact hid ▸ hs.fresh r hr
    · simp only [Db.numbers, Rows.map_editAt hf.estimateNo]
      exact hs.sound.numbers
    · refine ⟨fun i hi => ?_, hs.sound.final⟩
      cases hi
      exact hs.notMem_converted hrow

theorem inv_delete (hs : Inv s) (hk : s.phase k = .deleting id)
    (hrow : ∀ r ∈ s.db.estimates, r.id = id → r.status ≠ .converted) :
    Inv (s.close k (s.db.delete id) .idle) := by
  have hnot (i : ℕ) (invoice : Invoice) : s.phase k ≠ .marking i invoice := by
    rw [hk]
    exact Phase.noConfusion
  unfold Db.delete
  split
  · apply inv_write hs ⟨le_rfl, rfl, rfl, fun r hr _ => ⟨r, hr, rfl, fun _ => rfl, fun h => h⟩,
      fun r hr hge => absurd (hs.fresh r hr) hge, fun r hr _ => hr⟩ hnot hs.keys hs.fresh
      hs.sound.numbers hs.sound.final
  · apply inv_write hs
    · refine ⟨le_rfl, rfl, rfl, fun r hr _ => ?_, fun r hr hge => ?_, fun r hr hstatus => ?_⟩
      · exact ⟨r, List.mem_of_mem_filter hr, rfl, fun _ => rfl, fun h => h⟩
      · exact absurd (hs.fresh r (List.mem_of_mem_filter hr)) hge
      · have hne : r.id ≠ id := fun hid => hrow r hr hid hstatus
        exact List.mem_filter.2 ⟨hr, by simpa using hne⟩
    · exact hnot
    · exact hs.keys.sublist (List.filter_sublist.map _)
    · exact fun r hr => hs.fresh r (List.mem_of_mem_filter hr)
    · exact hs.sound.numbers.sublist (List.filter_sublist.map _)
    · refine ⟨fun i hi => ?_, hs.sound.final⟩
      cases hi
      exact hs.notMem_converted hrow

theorem inv_invoice (hs : Inv s) {invoice : Guid → Invoice} {guid : Guid}
    (hk : s.phase k = .invoicing id invoice)
    (hrow : ∃ r ∈ s.db.estimates, r.id = id ∧ r.status ≠ .converted) (hidle : ¬Marking s id) :
    Inv (s.close k { s.db with invoices := invoice guid :: s.db.invoices }
      (.marking id (invoice guid))) := by
  have hphase := hs.phases k
  rw [hk] at hphase
  obtain ⟨hlt, hid⟩ := hphase
  obtain ⟨r₀, hr₀, hr₀id, hr₀status⟩ := hrow
  have hrows (r : EstimateRow) (hr : r ∈ s.db.estimates) (hrid : r.id = id) :
      r.status ≠ .converted := by
    rw [hs.eq_of_id hr hr₀ (hrid.trans hr₀id.symm)]
    exact hr₀status
  refine ⟨hs.keys, hs.fresh, fun v hv => ?_, hs.marked, fun i j i' v v' hi hj => ?_, fun j => ?_,
    ⟨hs.sound.numbers, ?_, fun r hr hstatus => ?_, hs.sound.final⟩⟩
  · rcases List.mem_cons.1 hv with rfl | hv
    · rw [hid]
      exact ⟨hlt, fun r hr hrid => .inr ⟨k, invoice guid, Sys.close_phase_self⟩⟩
    · refine ⟨(hs.invoiced v hv).1, fun r hr hrid => ?_⟩
      refine ((hs.invoiced v hv).2 r hr hrid).imp_right ?_
      rintro ⟨j, w, hj⟩
      have hne : j ≠ k := by
        rintro rfl
        rw [hk] at hj
        cases hj
      exact ⟨j, w, (Sys.close_phase_of_ne hne).trans hj⟩
  · have hother {m : ℕ} {w : Invoice} (hne : m ≠ k)
        (hm : (s.close k { s.db with invoices := invoice guid :: s.db.invoices }
          (.marking id (invoice guid))).phase m = .marking i' w) : s.phase m = .marking i' w := by
      rwa [Sys.close_phase_of_ne hne] at hm
    by_cases hik : i = k <;> by_cases hjk : j = k
    · rw [hik, hjk]
    · subst hik
      rw [Sys.close_phase_self] at hi
      cases hi
      exact absurd ⟨j, v', hother hjk hj⟩ hidle
    · subst hjk
      rw [Sys.close_phase_self] at hj
      cases hj
      exact absurd ⟨i, v, hother hik hi⟩ hidle
    · exact hs.single i j i' v v' (hother hik hi) (hother hjk hj)
  · by_cases hjk : j = k
    · subst hjk
      rw [Sys.close_phase_self]
      exact ⟨List.mem_cons_self, hid guid, hrows⟩
    · rw [Sys.close_phase_of_ne hjk]
      have hold := hs.phases j
      cases hj : s.phase j with
      | marking i' v =>
        rw [hj] at hold
        exact ⟨List.mem_cons_of_mem _ hold.1, hold.2⟩
      | _ =>
        rw [hj] at hold
        exact hold
  · refine List.nodup_cons.2 ⟨fun hmem => ?_, hs.sound.once⟩
    obtain ⟨v, hv, hvid⟩ := List.mem_map.1 hmem
    rw [hid] at hvid
    rcases (hs.invoiced v hv).2 r₀ hr₀ (hr₀id.trans hvid.symm) with hstatus | hm
    · exact hr₀status hstatus
    · exact hidle (hvid ▸ hm)
  · obtain ⟨v, hv, hnamed⟩ := hs.sound.named r hr hstatus
    exact ⟨v, List.mem_cons_of_mem _ hv, hnamed⟩

theorem inv_mark (hs : Inv s) {invoice : Invoice}
    (hk : s.phase k = .marking id invoice) {r₀ : EstimateRow} (hfind : s.db.find? id = some r₀)
    (hlines : ∀ r ∈ s.db.estimates, r.id = id →
      estimateLinesToInvoiceEntries r.lines = some invoice.entries) :
    Inv (s.close k (s.db.write id (markConverted invoice.guid) (.converted id)) .idle) := by
  have hphase := hs.phases k
  rw [hk] at hphase
  obtain ⟨hinvoice, hinvoiceId, hrows⟩ := hphase
  obtain ⟨hr₀, hr₀id⟩ := mem_of_find? hfind
  have hdb : s.db.write id (markConverted invoice.guid) (.converted id) =
      { s.db with
        estimates := Rows.editAt EstimateRow.id id (markConverted invoice.guid) s.db.estimates
        history := .converted id :: s.db.history } := by
    rw [Db.write, hfind]
  rw [hdb]
  have hother {i : ℕ} {v : Invoice} {j : ℕ} (hne : i ≠ id) (hj : s.phase j = .marking i v) :
      j ≠ k := by
    rintro rfl
    rw [hk] at hj
    cases hj
    exact hne rfl
  have hphase {j i : ℕ} {v : Invoice} {db : Db} (hj : (s.close k db .idle).phase j = .marking i v) :
      j ≠ k ∧ s.phase j = .marking i v := by
    by_cases hjk : j = k
    · subst hjk
      rw [Sys.close_phase_self] at hj
      cases hj
    · exact ⟨hjk, by rwa [Sys.close_phase_of_ne hjk] at hj⟩
  have hid (r : EstimateRow) : (markConverted invoice.guid r).id = r.id := rfl
  have hnumber (r : EstimateRow) : (markConverted invoice.guid r).estimateNo = r.estimateNo := rfl
  refine ⟨?_, fun r' hr' => ?_, fun v hv => ⟨(hs.invoiced v hv).1, fun r' hr' hid => ?_⟩,
    fun i hi => ?_, fun i j i' v v' hi hj => hs.single i j i' v v' (hphase hi).2 (hphase hj).2,
    fun j => ?_, ⟨?_, hs.sound.once, fun r' hr' hstatus => ?_, fun i hi => ?_, hs.sound.final⟩⟩
  · have hmap : (Rows.editAt EstimateRow.id id (markConverted invoice.guid) s.db.estimates).map
        EstimateRow.id = s.db.estimates.map EstimateRow.id := Rows.map_editAt hid s.db.estimates
    exact hmap ▸ hs.keys
  · obtain ⟨r, hr, rfl⟩ := Rows.mem_editAt.1 hr'
    have hlt := hs.fresh r hr
    split <;> exact hlt
  · obtain ⟨r, hr, rfl⟩ := Rows.mem_editAt.1 hr'
    split
    · exact .inl rfl
    · next hne =>
        rw [if_neg hne] at hid
        refine ((hs.invoiced v hv).2 r hr hid).imp_right ?_
        rintro ⟨j, w, hj⟩
        exact ⟨j, w, (Sys.close_phase_of_ne (hother (hid ▸ hne) hj)).trans hj⟩
  · rcases List.mem_cons.1 hi with rfl | hi
    · exact ⟨_, Rows.mem_editAt.2 ⟨r₀, hr₀, rfl⟩, by rw [if_pos hr₀id]; exact ⟨hr₀id, rfl⟩⟩
    · obtain ⟨r, hr, hrid, hstatus⟩ := hs.marked i hi
      refine ⟨_, Rows.mem_editAt.2 ⟨r, hr, rfl⟩, ?_⟩
      split
      · exact ⟨hrid, rfl⟩
      · exact ⟨hrid, hstatus⟩
  · by_cases hjk : j = k
    · subst hjk
      rw [Sys.close_phase_self]
      trivial
    · rw [Sys.close_phase_of_ne hjk]
      have hold := hs.phases j
      cases hj : s.phase j with
      | marking i v =>
        rw [hj] at hold
        refine ⟨hold.1, hold.2.1, fun r' hr' hid => ?_⟩
        obtain ⟨r, hr, rfl⟩ := Rows.mem_editAt.1 hr'
        split
        · next hrid =>
            rw [if_pos hrid] at hid
            have hsame : i = id := hid.symm.trans hrid
            subst hsame
            exact absurd (hs.single j k i v invoice hj hk) hjk
        · next hne =>
            rw [if_neg hne] at hid
            exact hold.2.2 r hr hid
      | _ =>
        rw [hj] at hold
        exact hold
  · have hmap : (Rows.editAt EstimateRow.id id (markConverted invoice.guid) s.db.estimates).map
        EstimateRow.estimateNo = s.db.numbers := Rows.map_editAt hnumber s.db.estimates
    exact (congrArg List.Nodup hmap).mpr hs.sound.numbers
  · obtain ⟨r, hr, rfl⟩ := Rows.mem_editAt.1 hr'
    split at hstatus
    · next hrid =>
        rw [if_pos hrid]
        exact ⟨invoice, hinvoice, rfl, hinvoiceId.trans hrid.symm, hlines r hr hrid⟩
    · next hne =>
        rw [if_neg hne]
        exact hs.sound.named r hr hstatus
  · cases hi
    exact hs.notMem_converted hrows

theorem not_converted_of_transition {source target : EstimateStatus}
    (h : canTransitionEstimate source target) : target ≠ .converted := by
  cases source <;> cases target <;> first | decide | cases h

theorem edits_applyUpdate {seen : EstimateRow} {input : UpdateEstimateInput}
    (hseen : seen.status ≠ .converted)
    (hinput : input.status.all (canTransitionEstimate seen.status)) :
    Edits (applyUpdate seen input) := by
  refine ⟨fun _ => rfl, fun _ => rfl, fun r => ?_⟩
  change input.status.getD seen.status ≠ .converted
  cases hstatus : input.status with
  | none => exact hseen
  | some status =>
    rw [hstatus] at hinput
    exact not_converted_of_transition hinput

theorem phaseOk_afterRead (hs : Inv s) (a : Answer) (req : Request) :
    PhaseOk s.db (afterRead a s.db req) ∧
      ∀ id invoice, afterRead a s.db req ≠ .marking id invoice := by
  cases req with
  | createEstimate input =>
    simp only [afterRead, createEstimate]
    split <;> exact ⟨trivial, fun _ _ => Phase.noConfusion⟩
  | updateEstimate id input =>
    simp only [afterRead, updateEstimate]
    split
    · exact ⟨trivial, fun _ _ => Phase.noConfusion⟩
    · split
      · next h => exact ⟨edits_applyUpdate h.1 h.2.1, fun _ _ => Phase.noConfusion⟩
      · exact ⟨trivial, fun _ _ => Phase.noConfusion⟩
  | deleteEstimate id =>
    simp only [afterRead, deleteEstimate]
    split
    · exact ⟨trivial, fun _ _ => Phase.noConfusion⟩
    · split <;> exact ⟨trivial, fun _ _ => Phase.noConfusion⟩
  | convertEstimateToInvoice id =>
    simp only [afterRead, convertEstimateToInvoice]
    split
    · exact ⟨trivial, fun _ _ => Phase.noConfusion⟩
    · next row hrow =>
        split
        · exact ⟨trivial, fun _ _ => Phase.noConfusion⟩
        · split
          · exact ⟨hs.fresh row (mem_of_find? hrow).1, fun _ _ => Phase.noConfusion⟩
          · exact ⟨trivial, fun _ _ => Phase.noConfusion⟩

theorem phaseOk_afterLines {row : EstimateRow} {customerGuid : Guid}
    (h : row.id < db.nextId) : PhaseOk db (afterLines db row customerGuid) ∧
      ∀ id invoice, afterLines db row customerGuid ≠ .marking id invoice := by
  unfold afterLines
  split
  · exact ⟨trivial, fun _ _ => Phase.noConfusion⟩
  · exact ⟨⟨h, fun _ => rfl⟩, fun _ _ => Phase.noConfusion⟩

theorem inv_next {s' : State} (hl : Unraced l s) (hnext : next l s = some s')
    (hs : Inv s) : Inv s' := by
  cases l with
  | call k req =>
    simp only [next] at hnext
    split at hnext
    · next hidle =>
        cases hnext
        exact hs.goto trivial (by simp [hidle]) (by simp)
    · cases hnext
  | crash k =>
    cases hnext
    exact hs.goto trivial (fun r _ invoice => hl r.id invoice) (by simp)
  | advance k a =>
    have hk := hs.phases k
    simp only [next, advanceNext] at hnext
    simp only [Unraced] at hl
    cases hphase : s.phase k with
    | idle => simp [hphase] at hnext
    | reading req =>
      rw [hphase] at hnext
      cases hnext
      obtain ⟨hp, hnot⟩ := phaseOk_afterRead hs a req
      exact hs.goto hp (by simp [hphase]) hnot
    | numbering input =>
      rw [hphase] at hnext
      cases hnext
      exact hs.goto trivial (by simp [hphase]) (by simp)
    | inserting input estimateNo =>
      rw [hphase] at hnext hl
      cases hnext
      exact inv_insert hs hphase hl
    | updating id f =>
      rw [hphase] at hnext hl
      cases hnext
      exact inv_update hs hphase hl
    | deleting id =>
      rw [hphase] at hnext hl
      cases hnext
      exact inv_delete hs hphase hl
    | readingLines row customerGuid =>
      rw [hphase] at hnext hk
      cases hnext
      obtain ⟨hp, hnot⟩ := @phaseOk_afterLines s.db row customerGuid hk
      exact hs.goto hp (by simp [hphase]) hnot
    | invoicing id invoice =>
      rw [hphase] at hnext hl
      simp only at hnext hl
      cases hguid : a.invoiceGuid with
      | none =>
        rw [hguid] at hnext
        cases hnext
        exact hs.goto trivial (by simp [hphase]) (by simp)
      | some guid =>
        rw [hguid] at hnext hl
        cases hnext
        obtain ⟨hrow, hidle⟩ := hl rfl
        exact inv_invoice hs hphase hrow hidle
    | marking id invoice =>
      rw [hphase] at hnext hl
      simp only at hnext hl
      split at hnext
      · next hnone =>
          cases hnext
          refine hs.goto trivial (fun r hr v heq => ?_) (by simp)
          rw [hphase] at heq
          cases heq
          exact absurd hnone (Option.ne_none_iff_exists'.2
            (Option.isSome_iff_exists.1 (List.find?_isSome.2 ⟨r, hr, by simp⟩)))
      · next r₀ hfind =>
          cases hnext
          exact inv_mark hs hphase hfind hl
    | removing guid =>
      rw [hphase] at hnext
      cases hnext
      exact inv_write hs ⟨le_rfl, rfl, rfl, fun r hr _ => ⟨r, hr, rfl, fun _ => rfl, fun h => h⟩,
        fun r hr hge => absurd (hs.fresh r hr) hge, fun r hr _ => hr⟩ (by simp [hphase]) hs.keys
        hs.fresh hs.sound.numbers ⟨fun id hid => (by cases hid), hs.sound.final⟩

theorem inv_start : Inv start := by
  refine ⟨List.nodup_nil, by simp [start], by simp [start], by simp [start, converted],
    by simp [start], fun _ => trivial, ⟨List.nodup_nil, List.nodup_nil, by simp [start], trivial⟩⟩

/-! ## Numbers of deleted estimates -/

/-- The numbers that were ever given are at most the largest of the book, and distinct. -/
structure Ever (db : Db) : Prop where
  bounded : ∀ no ∈ created db.history, ∃ n, estimateNumber no = some n ∧
    n ≤ maxEstimateNumber db.numbers
  distinct : (created db.history).Nodup

theorem Ever.of_same {db' : Db} (h : Ever db) (hcreated : created db'.history =
    created db.history) (hmax : maxEstimateNumber db'.numbers = maxEstimateNumber db.numbers) :
    Ever db' := by
  refine ⟨fun no hno => ?_, hcreated ▸ h.distinct⟩
  obtain ⟨n, hn, hle⟩ := h.bounded no (hcreated ▸ hno)
  exact ⟨n, hn, hmax ▸ hle⟩

theorem Ever.write (h : Ever db) {f : EstimateRow → EstimateRow} {event : Event}
    (hf : ∀ r, (f r).estimateNo = r.estimateNo) (hevent : event.created? = none) :
    Ever (db.write id f event) := by
  unfold Db.write
  split
  · exact h
  · apply h.of_same
    · exact List.filterMap_cons_none hevent
    · simp only [Db.numbers, Rows.map_editAt hf]

theorem Ever.insert (h : Ever db) {input : CreateEstimateInput} {estimateNo : List Char}
    (hno : nextEstimateNo db.numbers = estimateNo) : Ever (db.insert input estimateNo) := by
  have hnumber : estimateNumber estimateNo = some (maxEstimateNumber db.numbers + 1) :=
    hno ▸ estimateNumber_next db.numbers
  have hmax : maxEstimateNumber (db.insert input estimateNo).numbers =
      maxEstimateNumber db.numbers + 1 := by
    have hmap : (db.insert input estimateNo).numbers = db.numbers ++ [estimateNo] := by
      simp [Db.insert, Db.numbers]
    rw [hmap, maxEstimateNumber_append, hnumber]
    exact Nat.max_eq_right (Nat.le_succ _)
  refine ⟨fun no hmem => ?_, List.nodup_cons.2 ⟨fun hmem => ?_, h.distinct⟩⟩
  · rw [hmax]
    rcases List.mem_cons.1 hmem with rfl | hmem
    · exact ⟨_, hnumber, Nat.le_refl _⟩
    · obtain ⟨n, hn, hle⟩ := h.bounded no hmem
      exact ⟨n, hn, Nat.le_succ_of_le hle⟩
  · obtain ⟨n, hn, hle⟩ := h.bounded estimateNo hmem
    rw [hnumber] at hn
    cases hn
    omega

theorem ever_next {s' : State} (hl : Unraced l s) (htop : KeepsTop l s)
    (hnext : next l s = some s') (hs : Inv s) (h : Ever s.db) : Ever s'.db := by
  cases l with
  | call k req =>
    simp only [next] at hnext
    split at hnext <;> cases hnext
    exact h
  | crash k =>
    cases hnext
    exact h
  | advance k a =>
    have hk := hs.phases k
    simp only [next, advanceNext] at hnext
    simp only [Unraced] at hl
    simp only [KeepsTop] at htop
    cases hphase : s.phase k with
    | idle => simp [hphase] at hnext
    | inserting input estimateNo =>
      rw [hphase] at hnext hl
      cases hnext
      exact h.insert hl
    | updating id f =>
      rw [hphase] at hnext hk
      cases hnext
      exact h.write hk.estimateNo rfl
    | deleting id =>
      rw [hphase] at hnext htop
      cases hnext
      refine h.of_same ?_ htop
      rw [Sys.close_db, Db.delete]
      split <;> rfl
    | invoicing id invoice =>
      rw [hphase] at hnext
      simp only at hnext
      split at hnext <;> cases hnext <;> exact ⟨h.bounded, h.distinct⟩
    | marking id invoice =>
      rw [hphase] at hnext
      simp only at hnext
      split at hnext <;> cases hnext
      · exact h
      · exact h.write (fun _ => rfl) rfl
    | removing guid =>
      rw [hphase] at hnext
      cases hnext
      exact h.of_same rfl rfl
    | reading | numbering | readingLines =>
      rw [hphase] at hnext
      cases hnext
      exact h

/-- Estimates are numbered and converted once along a run without races; and no number is given again
where the largest number is not deleted. -/
theorem sound_of_run {steps : List Step} {s : State} (hrun : run next steps start = some s) :
    (Along next Unraced steps start → Sound s.db) ∧
      (Along next (fun l s => Unraced l s ∧ KeepsTop l s) steps start →
        (created s.db.history).Nodup) := by
  refine ⟨fun h => ?_, fun h => ?_⟩
  · have hs : Inv s := invariant_along (fun l s s' hl hnext => inv_next hl hnext) hrun h inv_start
    exact hs.sound
  · have hs : Inv s ∧ Ever s.db :=
      invariant_along (P := fun s => Inv s ∧ Ever s.db)
        (fun l s s' hl hnext hs =>
          ⟨inv_next hl.1 hnext hs.1, ever_next hl.1 hl.2 hnext hs.1 hs.2⟩)
        hrun h ⟨inv_start, ⟨fun no hno => (by cases hno), List.nodup_nil⟩⟩
    exact hs.2.distinct

/-! ## One estimate -/

/-- What a request writes to is as it was read, and an estimate has no invoice yet. -/
def Apart : Step → State → Prop
  | .call _ _, _ => True
  | .advance k a, s =>
    match s.phase k with
    | .inserting _ estimateNo => nextEstimateNo s.db.numbers = estimateNo
    | .updating id _ | .deleting id =>
      ∀ r ∈ s.db.estimates, r.id = id → r.status ≠ .converted
    | .invoicing id _ => a.invoiceGuid.isSome →
        (∃ r ∈ s.db.estimates, r.id = id ∧ r.status ≠ .converted) ∧
          id ∉ s.db.invoices.map Invoice.estimateId
    | .marking id invoice => ∀ r ∈ s.db.estimates, r.id = id →
        estimateLinesToInvoiceEntries r.lines = some invoice.entries
    | _ => True
  | .crash k, s =>
    match s.phase k with
    | .marking _ _ => False
    | _ => True

instance (l : Step) (s : State) : Decidable (Apart l s) := by
  unfold Apart
  split
  · infer_instance
  · split <;> infer_instance
  · split <;> infer_instance

theorem unraced_of_apart (hs : Inv s) (h : Apart l s) : Unraced l s := by
  cases l with
  | call => trivial
  | crash k =>
    intro id invoice hk
    simp [Apart, hk] at h
  | advance k a =>
    simp only [Apart, Unraced] at h ⊢
    split at h
    · exact h
    · exact h
    · exact h
    · refine fun hguid => ⟨(h hguid).1, ?_⟩
      rintro ⟨j, v, hj⟩
      have hphase := hs.phases j
      rw [hj] at hphase
      exact (h hguid).2 (List.mem_map.2 ⟨v, hphase.1, hphase.2.1⟩)
    · exact h
    · trivial

/-- Customers are found, and the engine creates an invoice. -/
def fine : Answer := ⟨fun _ => true, some 7⟩

def anHour : CreateEstimateInput := ⟨some 1, 0, none, none, none, [⟨none, 1, 100, some 2⟩]⟩

def moreHours : UpdateEstimateInput :=
  ⟨none, none, none, none, none, some [⟨none, 1, 100, some 2⟩, ⟨none, 3, 90, some 2⟩], some .sent⟩

/-- Two estimates are created, one is changed and converted, and asked to be deleted. -/
def quote : List Step :=
  [.call 0 (.createEstimate anHour), .advance 0 fine, .advance 0 fine, .advance 0 fine,
    .call 1 (.createEstimate anHour), .advance 1 fine, .crash 1, .call 1 (.createEstimate anHour),
    .advance 1 fine, .advance 1 fine, .advance 1 fine, .call 0 (.updateEstimate 0 moreHours),
    .advance 0 fine, .advance 0 fine, .call 0 (.convertEstimateToInvoice 0), .advance 0 fine,
    .advance 0 fine, .advance 0 fine, .advance 0 fine, .call 1 (.deleteEstimate 0),
    .advance 1 fine]

theorem sound_quote : ∃ s, run next quote start = some s ∧ Sound s.db := by
  have hsome : (run next quote start).isSome := by decide +kernel
  obtain ⟨s, hs⟩ := Option.isSome_iff_exists.1 hsome
  have hapart : Along next Apart quote start := by decide +kernel
  have hunraced : Along next Unraced quote start :=
    along_imp (fun l s s' hl hnext hs => inv_next (unraced_of_apart hs hl) hnext hs)
      (fun l s hs hl => unraced_of_apart hs hl) inv_start hapart
  exact ⟨s, hs, (sound_of_run hs).1 hunraced⟩

/-- Two requests read an estimate before either creates an invoice. -/
def twoConversions : List Step :=
  [.call 0 (.createEstimate anHour), .advance 0 fine, .advance 0 fine, .advance 0 fine,
    .call 1 (.convertEstimateToInvoice 0), .call 2 (.convertEstimateToInvoice 0),
    .advance 1 fine, .advance 2 fine, .advance 1 fine, .advance 2 fine, .advance 1 fine,
    .advance 2 fine]

theorem twoConversions_not_sound :
    ¬ ∀ (steps : List Step) (s : State), run next steps start = some s → Sound s.db := by
  intro h
  have hinvoices : (run next twoConversions start).map
      (fun s => s.db.invoices.map Invoice.estimateId) = some [0, 0] := by
    decide +kernel
  obtain ⟨s, hs, hids⟩ := Option.map_eq_some_iff.1 hinvoices
  have honce := (h twoConversions s hs).once
  rw [hids] at honce
  exact absurd honce (by decide)

end Estimates
