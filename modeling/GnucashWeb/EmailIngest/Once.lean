import GnucashWeb.EmailIngest.Messages

/-!
# A message is ingested once

Along every run in which a claim succeeds only while no poller works on the message and never gives a
message without an owner another one, and in which no poller fails after an attachment landed, every
document is filed under the user of the first claim, what is ingested stays so, at most five claims
succeed, and without a crash each attachment is filed once (`safe_of_run`).  A claim that expires while
its poller still works files an attachment twice (`slowPoller_not_safe`).
-/

namespace EmailIngest

open Runs Sessions

/-! ## What is asked of the history -/

def Event.claimed? : Event → Option (Option ℕ)
  | .claimed owner => some owner
  | _ => none

def Event.filed? : Event → Option ℕ
  | .filed _ attachment => some attachment
  | _ => none

def claims (history : List Event) : List (Option ℕ) := history.filterMap Event.claimed?

def filed (history : List Event) : List ℕ := history.filterMap Event.filed?

def firstOwner (history : List Event) : Option ℕ := (claims history).getLast?.join

/-- After a message was ingested nothing else is done to it. -/
def Final : List Event → Prop
  | [] => True
  | e :: past => (.recorded .ingested ∈ past → e = .recorded .ingested) ∧ Final past

structure Safe (db : Db) : Prop where
  attributed : ∀ userId i, .filed userId i ∈ db.history → firstOwner db.history = some userId
  final : Final db.history
  kept : .recorded .ingested ∈ db.history → db.row.map MessageRow.outcome = some .ingested
  claims : (claims db.history).length ≤ INGEST_MAX_ATTEMPTS + INGEST_MAX_MANUAL_RETRIES
  once : db.crashed = false → (filed db.history).Nodup

/-- A poller that claimed the message and has not recorded an outcome or given up. -/
def Phase.Works : Phase → Prop
  | .fetching .. | .ingesting .. | .recording .. => True
  | _ => False

def Unraced (messageKey : List Char) (defaultBookGuid : Option ℕ) : Step → State → Prop
  | .advance k a, s =>
    match s.phase k with
    | .claiming sender => a.fault ≠ .before →
        (claimIngestMessage messageKey a.now (ownerOf defaultBookGuid sender) s.db.row).isSome →
        (∀ j, ¬(s.phase j).Works) ∧
          (claims s.db.history ≠ [] → (s.db.row.bind MessageRow.ownerUserId) = none →
            sender = none)
    | .ingesting _ _ _ _ landed _ => a.intake = .thrown → landed = 0
    | .recording .ingested _ => a.fault ≠ .before
    | _ => True
  | _, _ => True

/-! ## Invariants -/

structure RowOk (history : List Event) (r : MessageRow) : Prop where
  owner : ∀ userId, r.ownerUserId = some userId → firstOwner history = some userId
  attempts : (claims history).length ≤ r.attempts
  retries : r.manualRetries ≤ INGEST_MAX_MANUAL_RETRIES
  budget : (claims history).length + (if r.outcome = .retryRequested then 1 else 0) ≤
    INGEST_MAX_ATTEMPTS + r.manualRetries

def PhaseOk (db : Db) : Phase → Prop
  | .fetching owner _ _ => firstOwner db.history = some owner.userId ∧ db.row.isSome
  | .ingesting owner _ _ next landed _ => (firstOwner db.history = some owner.userId ∧
      db.row.isSome) ∧ (db.crashed = false → (∀ i ∈ filed db.history, i < next) ∧
        (landed = 0 → filed db.history = []))
  | .recording outcome _ => outcome ≠ .retryRequested ∧ db.row.isSome
  | _ => True

/-- A poller that has filed documents, or may have. -/
def Phase.Busy : Phase → Prop
  | .ingesting .. | .recording .ingested _ => True
  | _ => False

structure Inv (s : State) : Prop where
  row : ∀ r, s.db.row = some r → RowOk s.db.history r
  unclaimed : s.db.row = none → claims s.db.history = []
  single : ∀ j k, (s.phase j).Works → (s.phase k).Works → j = k
  phases : ∀ k, PhaseOk s.db (s.phase k)
  settled : .recorded .ingested ∈ s.db.history →
    s.db.row.map MessageRow.outcome = some .ingested ∧ ∀ k, ¬(s.phase k).Works
  idle : s.db.crashed = false → filed s.db.history ≠ [] → .recorded .ingested ∉ s.db.history →
    ∃ k, (s.phase k).Busy
  attributed : ∀ userId i, .filed userId i ∈ s.db.history →
    firstOwner s.db.history = some userId
  final : Final s.db.history
  once : s.db.crashed = false → (filed s.db.history).Nodup

theorem Phase.Busy.works {p : Phase} (h : p.Busy) : p.Works := by
  cases p with
  | ingesting => trivial
  | recording => trivial
  | _ => exact h.elim

theorem Inv.safe {s : State} (hs : Inv s) : Safe s.db := by
  refine ⟨hs.attributed, hs.final, fun h => (hs.settled h).1, ?_, hs.once⟩
  cases hrow : s.db.row with
  | none => simp [hs.unclaimed hrow]
  | some r =>
    have hr := hs.row r hrow
    have hbudget := hr.budget
    have hretries := hr.retries
    omega

theorem phaseOk_of_not_works {db : Db} {p : Phase} (h : ¬p.Works) : PhaseOk db p := by
  cases p with
  | fetching => exact (h trivial).elim
  | ingesting => exact (h trivial).elim
  | recording => exact (h trivial).elim
  | _ => trivial

theorem works_update {s : State} {k j : ℕ} {p : Phase} (hworks : p.Works → (s.phase k).Works)
    (h : (Function.update s.phase k p j).Works) : (s.phase j).Works := by
  by_cases hjk : j = k
  · subst hjk
    rw [Function.update_self] at h
    exact hworks h
  · rwa [Function.update_of_ne hjk] at h

theorem busy_update {s : State} {k j : ℕ} {p : Phase} (hbusy : (s.phase k).Busy → p.Busy)
    (h : (s.phase j).Busy) : (Function.update s.phase k p j).Busy := by
  by_cases hjk : j = k
  · subst hjk
    rw [Function.update_self]
    exact hbusy h
  · rwa [Function.update_of_ne hjk]

/-- Writes that leave claims and documents as they are. -/
structure Quiet (db db' : Db) : Prop where
  claims : claims db'.history = claims db.history
  filed : filed db'.history = filed db.history
  mem_filed : ∀ userId i, .filed userId i ∈ db'.history → .filed userId i ∈ db.history
  row : db.row.isSome → db'.row.isSome
  crashed : db'.crashed = false → db.crashed = false

theorem Quiet.refl (db : Db) : Quiet db db := ⟨rfl, rfl, fun _ _ h => h, fun h => h, fun h => h⟩

theorem Quiet.firstOwner {db db' : Db} (h : Quiet db db') :
    firstOwner db'.history = firstOwner db.history := by
  rw [EmailIngest.firstOwner, h.claims, EmailIngest.firstOwner]

theorem PhaseOk.mono {db db' : Db} (h : Quiet db db') {p : Phase} (hp : PhaseOk db p) :
    PhaseOk db' p := by
  cases p with
  | fetching => exact ⟨h.firstOwner.trans hp.1, h.row hp.2⟩
  | ingesting =>
    refine ⟨⟨h.firstOwner.trans hp.1.1, h.row hp.1.2⟩, fun hcrashed => ?_⟩
    rw [h.filed]
    exact hp.2 (h.crashed hcrashed)
  | recording => exact ⟨hp.1, h.row hp.2⟩
  | _ => trivial

theorem Inv.write {s : State} (hs : Inv s) {k : ℕ} {db : Db} {p : Phase} (hquiet : Quiet s.db db)
    (hrow : ∀ r, db.row = some r → RowOk db.history r) (hp : PhaseOk db p)
    (hworks : p.Works → (s.phase k).Works)
    (hsettled : .recorded .ingested ∈ db.history → db.row.map MessageRow.outcome = some .ingested ∧
      ∀ j, ¬(Function.update s.phase k p j).Works)
    (hbusy : db.crashed = false → filed db.history ≠ [] → .recorded .ingested ∉ db.history →
      (s.phase k).Busy → p.Busy)
    (hold : .recorded .ingested ∈ s.db.history → .recorded .ingested ∈ db.history)
    (hfinal : Final db.history) : Inv (s.close k db p) := by
  refine ⟨hrow, fun hnone => ?_, fun i j hi hj => ?_, fun j => ?_, hsettled,
    fun hcrashed hfiled hnot => ?_, fun userId i hmem => ?_, hfinal, fun hcrashed => ?_⟩
  · have hnone' : s.db.row = none := by
      by_contra hsome
      have := hquiet.row (Option.isSome_iff_ne_none.2 hsome)
      simp only [Sys.close_db] at hnone
      rw [hnone] at this
      cases this
    exact hquiet.claims.trans (hs.unclaimed hnone')
  · exact hs.single i j (works_update hworks hi) (works_update hworks hj)
  · by_cases hjk : j = k
    · subst hjk
      rw [Sys.close_phase_self]
      exact hp
    · rw [Sys.close_phase_of_ne hjk]
      exact (hs.phases j).mono hquiet
  · simp only [Sys.close_db] at hcrashed hfiled hnot
    obtain ⟨j, hj⟩ := hs.idle (hquiet.crashed hcrashed) (hquiet.filed ▸ hfiled)
      fun h => hnot (hold h)
    exact ⟨j, busy_update (hbusy hcrashed hfiled hnot) hj⟩
  · exact hquiet.firstOwner.trans (hs.attributed userId i (hquiet.mem_filed userId i hmem))
  · simp only [Sys.close_db] at hcrashed ⊢
    rw [hquiet.filed]
    exact hs.once (hquiet.crashed hcrashed)

theorem Inv.goto {s : State} (hs : Inv s) {k : ℕ} {p : Phase} (hp : PhaseOk s.db p)
    (hworks : p.Works → (s.phase k).Works)
    (hbusy : s.db.crashed = false → filed s.db.history ≠ [] → (s.phase k).Busy → p.Busy) :
    Inv (s.goto k p) := by
  refine ⟨hs.row, hs.unclaimed, fun i j hi hj => ?_, fun j => ?_, fun hmem => ⟨(hs.settled hmem).1,
    fun j hj => ?_⟩, fun hcrashed hfiled hnot => ?_, hs.attributed, hs.final, hs.once⟩
  · exact hs.single i j (works_update hworks hi) (works_update hworks hj)
  · by_cases hjk : j = k
    · subst hjk
      rw [Sys.goto_phase_self]
      exact hp
    · rw [Sys.goto_phase_of_ne hjk]
      exact hs.phases j
  · exact (hs.settled hmem).2 j (works_update hworks hj)
  · obtain ⟨j, hj⟩ := hs.idle hcrashed hfiled hnot
    exact ⟨j, busy_update (hbusy hcrashed hfiled) hj⟩

/-! ## Outcomes -/

theorem RowOk.outcome {history : List Event} {r : MessageRow} (h : RowOk history r)
    {outcome : Outcome} (hne : outcome ≠ .retryRequested) (now : ℤ) :
    RowOk (.recorded outcome :: history) { r with outcome, processedAt := now } := by
  refine ⟨h.owner, h.attempts, h.retries, ?_⟩
  have hbudget := h.budget
  rw [if_neg hne]
  exact Nat.le_trans (Nat.le_add_right _ _) hbudget

theorem rowOk_upserted {s : State} (hs : Inv s) {messageKey : List Char} {outcome : Outcome}
    (hne : outcome ≠ .retryRequested) (now : ℤ) :
    RowOk (.recorded outcome :: s.db.history) (upserted messageKey outcome now s.db.row) := by
  unfold upserted
  split
  · next hnone =>
      have hclaims : claims (.recorded outcome :: s.db.history) = [] := hs.unclaimed hnone
      refine ⟨fun _ h => (by cases h), ?_, Nat.zero_le _, ?_⟩
      · rw [hclaims]
        exact Nat.zero_le _
      · rw [hclaims]
        simp [newRow, hne]
  · next r hsome => exact (hs.row r hsome).outcome hne now

theorem quiet_record {db : Db} {messageKey : List Char} {outcome : Outcome} {now : ℤ} :
    Quiet db (db.recordProcessedMessage messageKey outcome now) := by
  refine ⟨rfl, rfl, fun userId i h => ?_, fun _ => rfl, fun h => h⟩
  exact (List.mem_cons.1 h).resolve_left (by simp)

theorem notMem_of_works {s : State} (hs : Inv s) {k : ℕ} (hk : (s.phase k).Works) :
    .recorded .ingested ∉ s.db.history :=
  fun h => (hs.settled h).2 k hk

theorem inv_record {s : State} (hs : Inv s) {k : ℕ} {messageKey : List Char} {outcome : Outcome}
    {now : ℤ} {p : Phase} (hk : (s.phase k).Works) (hne : outcome ≠ .retryRequested)
    (hp : ¬p.Works) (hbusy : (s.phase k).Busy → outcome = .ingested) :
    Inv (s.close k (s.db.recordProcessedMessage messageKey outcome now) p) := by
  apply hs.write quiet_record
  · intro r hr
    cases hr
    exact rowOk_upserted hs hne now
  · exact phaseOk_of_not_works hp
  · exact fun h => (hp h).elim
  · intro hmem
    rcases List.mem_cons.1 hmem with heq | hmem
    · cases heq
      refine ⟨?_, fun j hj => ?_⟩
      · simp only [Db.recordProcessedMessage, Option.map_some, Option.some.injEq]
        unfold upserted
        split <;> rfl
      · by_cases hjk : j = k
        · subst hjk
          rw [Function.update_self] at hj
          exact hp hj
        · rw [Function.update_of_ne hjk] at hj
          exact hjk (hs.single j k hj hk)
    · exact absurd hmem (notMem_of_works hs hk)
  · intro _ _ hnot hk'
    exact absurd (List.mem_cons.2 (.inl (by rw [hbusy hk']))) hnot
  · exact fun h => List.mem_cons_of_mem _ h
  · exact ⟨fun h => absurd h (notMem_of_works hs hk), hs.final⟩

theorem failureOutcome_ne (transient : Bool) (attempt : ℕ) :
    failureOutcome transient attempt ≠ .retryRequested ∧
      failureOutcome transient attempt ≠ .ingested := by
  unfold failureOutcome
  split <;> decide

theorem notMem_of_outcome {s : State} (hs : Inv s) {r : MessageRow} (hr : s.db.row = some r)
    (h : r.outcome ≠ .ingested) : .recorded .ingested ∉ s.db.history := by
  intro hmem
  have hout := (hs.settled hmem).1
  rw [hr] at hout
  exact h (Option.some.inj hout)

theorem inv_fail {s : State} (hs : Inv s) {k : ℕ} {messageKey : List Char} {transient : Bool}
    {attempt : ℕ} {now : ℤ} (hk : ¬(s.phase k).Busy) :
    Inv (s.close k (s.db.recordFailureOutcome messageKey (failureOutcome transient attempt) now)
      .idle) := by
  obtain ⟨hne, hne'⟩ := failureOutcome_ne transient attempt
  unfold Db.recordFailureOutcome
  split
  · apply hs.write (p := .idle) (.refl _) hs.row trivial (fun h => h.elim)
    · intro hmem
      refine ⟨(hs.settled hmem).1, fun j hj => (hs.settled hmem).2 j (works_update ?_ hj)⟩
      exact fun h => h.elim
    · exact fun _ _ _ h => (hk h).elim
    · exact fun h => h
    · exact hs.final
  · next hrow =>
      have hnot : .recorded .ingested ∉ s.db.history := by
        intro hmem
        obtain ⟨r, hr, hout⟩ := Option.map_eq_some_iff.1 (hs.settled hmem).1
        apply hrow
        rw [hr]
        simpa using hout
      apply hs.write (p := .idle) quiet_record
      · intro r hr
        cases hr
        exact rowOk_upserted hs hne now
      · trivial
      · exact fun h => h.elim
      · intro hmem
        rcases List.mem_cons.1 hmem with heq | hmem
        · exact absurd (Event.recorded.inj heq).symm hne'
        · exact absurd hmem hnot
      · exact fun _ _ _ h => (hk h).elim
      · exact fun h => absurd h hnot
      · exact ⟨fun h => absurd h hnot, hs.final⟩

/-! ## Claims -/

theorem firstOwner_claimed {history : List Event} {owner : Option ℕ} :
    firstOwner (.claimed owner :: history) =
      if claims history = [] then owner else firstOwner history := by
  have hclaims : claims (.claimed owner :: history) = owner :: claims history := rfl
  rw [firstOwner, hclaims]
  split
  · next h => simp [h]
  · next h =>
      obtain ⟨x, xs, hx⟩ := List.exists_cons_of_ne_nil h
      rw [firstOwner, hx, List.getLast?_cons_cons]

theorem claim_cases {messageKey : List Char} {now : ℤ} {owner : Option IngestOwnerSnapshot}
    {row : Option MessageRow} {r' : MessageRow}
    (h : claimIngestMessage messageKey now owner row = some r') :
    (row = none ∧ r' = { withOwner owner (newRow messageKey .processing now) with attempts := 1 }) ∨
      ∃ r, row = some r ∧ isClaimable now r ∧ r' = { withOwner owner r with
        outcome := .processing
        attempts := r.attempts + 1
        processedAt := now } := by
  unfold claimIngestMessage at h
  split at h
  · exact .inl ⟨rfl, (Option.some.inj h).symm⟩
  · next r =>
      split at h
      · next hclaimable => exact .inr ⟨r, rfl, hclaimable, (Option.some.inj h).symm⟩
      · cases h

theorem ownerUserId_withOwner (owner : Option IngestOwnerSnapshot) (r : MessageRow) :
    (withOwner owner r).ownerUserId =
      r.ownerUserId.or (owner.map IngestOwnerSnapshot.userId) := by
  unfold withOwner
  split
  · next h => simp [h]
  · next h => simp [h]

@[simp] theorem manualRetries_withOwner (owner : Option IngestOwnerSnapshot) (r : MessageRow) :
    (withOwner owner r).manualRetries = r.manualRetries := by
  unfold withOwner
  split <;> rfl

theorem isClaimable_outcome {now : ℤ} {r : MessageRow} (h : isClaimable now r) :
    r.outcome ≠ .ingested ∧ (r.outcome = .retryRequested ∨ r.attempts < INGEST_MAX_ATTEMPTS) := by
  simp only [isClaimable, Bool.or_eq_true, Bool.and_eq_true, decide_eq_true_eq] at h
  rcases h with (⟨⟨hout, hlt⟩, -⟩ | ⟨⟨hout, hlt⟩, -⟩) | hout
  · exact ⟨by rw [hout]; decide, .inr hlt⟩
  · exact ⟨by rw [hout]; decide, .inr hlt⟩
  · exact ⟨by rw [hout]; decide, .inl hout⟩

theorem rowOk_claim {s : State} (hs : Inv s) {messageKey : List Char} {now : ℤ}
    {owner : Option IngestOwnerSnapshot} {r' : MessageRow}
    (h : claimIngestMessage messageKey now owner s.db.row = some r')
    (howner : claims s.db.history ≠ [] → (s.db.row.bind MessageRow.ownerUserId) = none →
      owner = none) :
    RowOk (.claimed r'.ownerUserId :: s.db.history) r' := by
  have hlength : (claims (.claimed r'.ownerUserId :: s.db.history)).length =
      (claims s.db.history).length + 1 := rfl
  rcases claim_cases h with ⟨hnone, rfl⟩ | ⟨r, hr, hclaimable, rfl⟩
  · have hclaims := hs.unclaimed hnone
    refine ⟨fun userId hid => ?_, ?_, ?_, ?_⟩
    · rw [firstOwner_claimed, if_pos hclaims]
      exact hid
    · rw [hlength, hclaims]
      exact Nat.le_refl 1
    · simp [newRow]
    · have houtcome : (withOwner owner (newRow messageKey .processing now)).outcome =
          .processing := by
        simp [withOwner, newRow]
      simp only [hlength, hclaims, houtcome]
      simp [newRow, INGEST_MAX_ATTEMPTS]
  · have hrow := hs.row r hr
    obtain ⟨-, hbudget⟩ := isClaimable_outcome hclaimable
    have hattempts := hrow.attempts
    have hold := hrow.budget
    refine ⟨fun userId hid => ?_, ?_, ?_, ?_⟩
    · rw [firstOwner_claimed]
      split
      · exact hid
      · next hclaims =>
          change (withOwner owner r).ownerUserId = some userId at hid
          rw [ownerUserId_withOwner] at hid
          cases hrid : r.ownerUserId with
          | none =>
            rw [howner hclaims (by simp [hr, hrid]), hrid] at hid
            cases hid
          | some u =>
            rw [hrid] at hid
            cases hid
            exact hrow.owner userId hrid
    · rw [hlength]
      exact Nat.succ_le_succ hattempts
    · change (withOwner owner r).manualRetries ≤ _
      rw [manualRetries_withOwner]
      exact hrow.retries
    · change _ ≤ INGEST_MAX_ATTEMPTS + (withOwner owner r).manualRetries
      rw [manualRetries_withOwner, hlength, if_neg (fun h => nomatch h)]
      rcases hbudget with hretry | hlt
      · rw [if_pos hretry] at hold
        omega
      · have hmax : INGEST_MAX_ATTEMPTS = 3 := rfl
        omega

theorem phaseOk_afterClaim {history : List Event} {r : MessageRow} {crashed : Bool}
    {defaultBookGuid : Option ℕ} (h : RowOk history r) :
    PhaseOk ⟨some r, history, crashed⟩ (afterClaim defaultBookGuid r) ∧
      ¬(afterClaim defaultBookGuid r).Busy := by
  unfold afterClaim
  split
  · exact ⟨⟨by decide, rfl⟩, fun h => h.elim⟩
  · next owner howner =>
      split
      · exact ⟨trivial, fun h => h.elim⟩
      · refine ⟨⟨?_, rfl⟩, fun h => h.elim⟩
        obtain ⟨u, hu, rfl⟩ := Option.map_eq_some_iff.1 howner
        exact h.owner u hu

theorem inv_claim {s : State} (hs : Inv s) {k : ℕ} {messageKey : List Char} {now : ℤ}
    {owner : Option IngestOwnerSnapshot} {r' : MessageRow} {p : Phase}
    (h : claimIngestMessage messageKey now owner s.db.row = some r')
    (howner : claims s.db.history ≠ [] → (s.db.row.bind MessageRow.ownerUserId) = none →
      owner = none)
    (hidle : ∀ j, ¬(s.phase j).Works)
    (hp : RowOk (.claimed r'.ownerUserId :: s.db.history) r' →
      PhaseOk ⟨some r', .claimed r'.ownerUserId :: s.db.history, s.db.crashed⟩ p ∧ ¬p.Busy) :
    Inv (s.close k { s.db with
      row := some r'
      history := .claimed r'.ownerUserId :: s.db.history } p) := by
  have hrow := rowOk_claim hs h howner
  have hnot : .recorded .ingested ∉ s.db.history := by
    intro hmem
    obtain ⟨r, hr, hout⟩ := Option.map_eq_some_iff.1 (hs.settled hmem).1
    rcases claim_cases h with ⟨hnone, -⟩ | ⟨q, hq, hclaimable, -⟩
    · rw [hnone] at hr
      cases hr
    · rw [hr] at hq
      cases hq
      exact (isClaimable_outcome hclaimable).1 hout
  have hnot' : .recorded .ingested ∉ Event.claimed r'.ownerUserId :: s.db.history :=
    fun hmem => hnot ((List.mem_cons.1 hmem).resolve_left (by simp))
  have hworks (j : ℕ) (hj : (Function.update s.phase k p j).Works) : j = k := by
    by_contra hjk
    rw [Function.update_of_ne hjk] at hj
    exact hidle j hj
  refine ⟨fun r hr => ?_, fun hnone => (by cases hnone), fun i j hi hj => ?_, fun j => ?_,
    fun hmem => absurd hmem hnot', fun hcrashed hfiled _ => ?_, fun userId i hmem => ?_,
    ⟨fun hmem => absurd hmem hnot, hs.final⟩, hs.once⟩
  · cases hr
    exact hrow
  · rw [hworks i hi, hworks j hj]
  · by_cases hjk : j = k
    · subst hjk
      rw [Sys.close_phase_self]
      exact (hp hrow).1
    · rw [Sys.close_phase_of_ne hjk]
      exact phaseOk_of_not_works (hidle j)
  · obtain ⟨j, hj⟩ := hs.idle hcrashed hfiled hnot
    exact absurd hj.works (hidle j)
  · have hold := hs.attributed userId i ((List.mem_cons.1 hmem).resolve_left (by simp))
    have hclaims : claims s.db.history ≠ [] := by
      intro hnil
      rw [firstOwner, hnil] at hold
      cases hold
    simp only [Sys.close_db]
    rw [firstOwner_claimed, if_neg hclaims]
    exact hold

theorem phaseOk_ingestFrom {db : Db} {attachments : ℕ} {owner : IngestOwnerSnapshot}
    {bookGuid attempt next landed : ℕ} {transient : Bool}
    (howner : firstOwner db.history = some owner.userId ∧ db.row.isSome)
    (h : db.crashed = false → (∀ i ∈ filed db.history, i < next) ∧
      (landed = 0 → filed db.history = [])) :
    PhaseOk db (ingestFrom attachments owner bookGuid attempt next landed transient) ∧
      (db.crashed = false → filed db.history ≠ [] →
        (ingestFrom attachments owner bookGuid attempt next landed transient).Busy) := by
  unfold ingestFrom
  split
  · exact ⟨⟨howner, h⟩, fun _ _ => trivial⟩
  · split
    · next hlanded => exact ⟨trivial, fun hcrashed hfiled => (hfiled ((h hcrashed).2 hlanded)).elim⟩
    · exact ⟨⟨by decide, howner.2⟩, fun _ _ => trivial⟩

theorem inv_file {s : State} (hs : Inv s) {k attachments : ℕ} {owner : IngestOwnerSnapshot}
    {bookGuid attempt next landed : ℕ} {transient : Bool}
    (hk : s.phase k = .ingesting owner bookGuid attempt next landed transient) :
    Inv (s.close k { s.db with history := .filed owner.userId next :: s.db.history }
      (ingestFrom attachments owner bookGuid attempt (next + 1) (landed + 1) transient)) := by
  have hphase := hs.phases k
  rw [hk] at hphase
  obtain ⟨⟨howner, hrow⟩, hfiled⟩ := hphase
  have hk' : (s.phase k).Works := by
    rw [hk]
    trivial
  have hnot := notMem_of_works hs hk'
  have hnew : s.db.crashed = false →
      (∀ i ∈ filed (.filed owner.userId next :: s.db.history), i < next + 1) ∧
        (landed + 1 = 0 → filed (.filed owner.userId next :: s.db.history) = []) := by
    intro hcrashed
    refine ⟨fun i hi => ?_, fun h => nomatch h⟩
    rcases List.mem_cons.1 hi with rfl | hi
    · exact Nat.lt_succ_self _
    · exact Nat.lt_succ_of_lt ((hfiled hcrashed).1 i hi)
  obtain ⟨hp, hbusy⟩ := @phaseOk_ingestFrom
    { s.db with history := .filed owner.userId next :: s.db.history } attachments owner bookGuid
    attempt (next + 1) (landed + 1) transient ⟨howner, hrow⟩ hnew
  have hworks (_ : (ingestFrom attachments owner bookGuid attempt (next + 1) (landed + 1)
      transient).Works) : (s.phase k).Works := hk'
  refine ⟨fun r hr => ?_, hs.unclaimed, fun i j hi hj => ?_, fun j => ?_,
    fun hmem => ?_, fun hcrashed hne _ => ⟨k, ?_⟩, fun userId i hmem => ?_,
    ⟨fun hmem => absurd hmem hnot, hs.final⟩, fun hcrashed => ?_⟩
  · have hold := hs.row r hr
    exact ⟨hold.owner, hold.attempts, hold.retries, hold.budget⟩
  · exact hs.single i j (works_update hworks hi) (works_update hworks hj)
  · by_cases hjk : j = k
    · subst hjk
      rw [Sys.close_phase_self]
      exact hp
    · rw [Sys.close_phase_of_ne hjk]
      exact phaseOk_of_not_works fun hj => hjk (hs.single j k hj hk')
  · exact absurd ((List.mem_cons.1 hmem).resolve_left (by simp)) hnot
  · rw [Sys.close_phase_self]
    exact hbusy hcrashed hne
  · rcases List.mem_cons.1 hmem with heq | hmem
    · cases heq
      exact howner
    · exact hs.attributed userId i hmem
  · have hlt := (hfiled hcrashed).1
    exact List.nodup_cons.2 ⟨fun hmem => absurd (hlt next hmem) (Nat.lt_irrefl _),
      hs.once hcrashed⟩

theorem inv_rearm {s : State} (hs : Inv s) {k : ℕ} {now : ℤ} (hk : s.phase k = .rearming) :
    Inv (s.close k (s.db.rearm now) .idle) := by
  have hbusy : ¬(s.phase k).Busy := by
    rw [hk]
    exact fun h => h.elim
  have hsame : Inv (s.close k s.db .idle) := by
    apply hs.write (p := .idle) (.refl _) hs.row trivial (fun h => h.elim)
    · intro hmem
      refine ⟨(hs.settled hmem).1, fun j hj => (hs.settled hmem).2 j (works_update ?_ hj)⟩
      exact fun h => h.elim
    · exact fun _ _ _ h => (hbusy h).elim
    · exact fun h => h
    · exact hs.final
  unfold Db.rearm
  split
  · exact hsame
  · next r hr =>
      split
      · next hcond =>
          have hnot := notMem_of_outcome hs hr (by rw [hcond.1]; decide)
          have hold := hs.row r hr
          apply hs.write (p := .idle)
          · refine ⟨rfl, rfl, fun userId i h => ?_, fun _ => rfl, fun h => h⟩
            exact (List.mem_cons.1 h).resolve_left (by simp)
          · intro r' hr'
            cases hr'
            refine ⟨hold.owner, hold.attempts, hcond.2.2.2.1, ?_⟩
            have hbudget := hold.budget
            rw [hcond.1, if_neg (by decide)] at hbudget
            rw [if_pos rfl]
            exact Nat.succ_le_succ hbudget
          · trivial
          · exact fun h => h.elim
          · intro hmem
            exact absurd ((List.mem_cons.1 hmem).resolve_left (by simp)) hnot
          · exact fun _ _ _ h => (hbusy h).elim
          · exact fun h => absurd h hnot
          · exact ⟨fun h => absurd h hnot, hs.final⟩
      · exact hsame

theorem inv_deleteUser {s : State} (hs : Inv s) (userId : ℕ) :
    Inv { s with db := s.db.deleteUser userId } := by
  have hquiet : Quiet s.db (s.db.deleteUser userId) :=
    ⟨rfl, rfl, fun _ _ h => h, fun h => by simpa [Db.deleteUser] using h, fun h => h⟩
  refine ⟨fun r' hr' => ?_, fun hnone => hs.unclaimed ?_, hs.single,
    fun k => (hs.phases k).mono hquiet, fun hmem => ⟨?_, (hs.settled hmem).2⟩, hs.idle,
    hs.attributed, hs.final, hs.once⟩
  · obtain ⟨r, hr, rfl⟩ := Option.map_eq_some_iff.1 hr'
    have hold := hs.row r hr
    split
    · exact ⟨fun _ h => (by cases h), hold.attempts, hold.retries, hold.budget⟩
    · exact hold
  · simpa [Db.deleteUser] using hnone
  · obtain ⟨r, hr, hout⟩ := Option.map_eq_some_iff.1 (hs.settled hmem).1
    simp only [Db.deleteUser, hr, Option.map_some, Option.some.injEq]
    split <;> exact hout

theorem inv_crash {s : State} (hs : Inv s) (k : ℕ) :
    Inv (s.close k { s.db with crashed := true } .idle) := by
  have hquiet : Quiet s.db { s.db with crashed := true } :=
    ⟨rfl, rfl, fun _ _ h => h, fun h => h, fun h => (by cases h)⟩
  apply hs.write (p := .idle) hquiet hs.row trivial (fun h => h.elim)
  · intro hmem
    refine ⟨(hs.settled hmem).1, fun j hj => (hs.settled hmem).2 j (works_update ?_ hj)⟩
    exact fun h => h.elim
  · exact fun hcrashed => (by cases hcrashed)
  · exact fun h => h
  · exact hs.final

theorem afterRetry_cases (now : ℤ) (row : Option MessageRow) (requesterUserId : ℕ)
    (can : Option (ℕ → Bool)) :
    afterRetry now row requesterUserId can = .idle ∨
      afterRetry now row requesterUserId can = .rearming := by
  unfold afterRetry
  split
  · exact .inl rfl
  · simp only
    split
    · exact .inr rfl
    · exact .inl rfl

/-! ## Runs -/

variable (messageKey : List Char) (defaultBookGuid : Option ℕ) (attachments : ℕ)

theorem Inv.rest {s : State} (hs : Inv s) {k : ℕ} {p : Phase} (hp : ¬p.Works)
    (hk : ¬(s.phase k).Busy) : Inv (s.goto k p) :=
  hs.goto (phaseOk_of_not_works hp) (fun h => (hp h).elim) (fun _ _ h => (hk h).elim)

theorem inv_claimNext {s : State} (hs : Inv s) {k : ℕ} {a : Answer}
    {sender : Option IngestOwnerSnapshot} (hk : ¬(s.phase k).Busy)
    (hl : (claimIngestMessage messageKey a.now (ownerOf defaultBookGuid sender) s.db.row).isSome →
      (∀ j, ¬(s.phase j).Works) ∧
        (claims s.db.history ≠ [] → (s.db.row.bind MessageRow.ownerUserId) = none →
          sender = none)) :
    Inv (claimNext messageKey defaultBookGuid k a sender s) := by
  unfold claimNext
  split
  · split
    · exact hs.rest (fun h => h.elim) hk
    · exact hs.rest (fun h => h.elim) hk
  · next r hclaim =>
      obtain ⟨hidle, howner⟩ := hl (by rw [hclaim]; rfl)
      apply inv_claim hs hclaim _ hidle
      · intro hrow
        split
        · exact phaseOk_afterClaim hrow
        · exact ⟨trivial, fun h => h.elim⟩
      · intro hclaims hnone
        rw [howner hclaims hnone]
        rfl

theorem inv_ingestNext {s : State} (hs : Inv s) {k : ℕ} {a : Answer} {owner : IngestOwnerSnapshot}
    {bookGuid attempt next landed : ℕ} {transient : Bool}
    (hk : s.phase k = .ingesting owner bookGuid attempt next landed transient)
    (hl : a.intake = .thrown → landed = 0) :
    Inv (ingestNext attachments k a owner bookGuid attempt next landed transient s) := by
  have hphase := hs.phases k
  rw [hk] at hphase
  obtain ⟨howner, hfiled⟩ := hphase
  have hk' : (s.phase k).Works := by
    rw [hk]
    trivial
  unfold ingestNext
  split
  · exact inv_file hs hk
  · next t _ =>
      obtain ⟨hp, hbusy⟩ := @phaseOk_ingestFrom s.db attachments owner bookGuid attempt (next + 1)
        landed (transient || t) howner fun hcrashed =>
          ⟨fun i hi => Nat.lt_succ_of_lt ((hfiled hcrashed).1 i hi), (hfiled hcrashed).2⟩
      exact hs.goto hp (fun _ => hk') (fun hcrashed hne _ => hbusy hcrashed hne)
  · next hthrown =>
      have hlanded := hl hthrown
      apply hs.goto (p := .failing a.transient attempt) trivial (fun h => h.elim)
      exact fun hcrashed hne _ => (hne ((hfiled hcrashed).2 hlanded)).elim

theorem inv_next {l : Step} {s s' : State} (hl : Unraced messageKey defaultBookGuid l s)
    (hnext : next messageKey defaultBookGuid attachments l s = some s') (hs : Inv s) : Inv s' := by
  cases l with
  | poll k sender =>
    simp only [next] at hnext
    split at hnext
    · next hidle =>
        cases hnext
        exact hs.rest (fun h => h.elim) (by rw [hidle]; exact fun h => h.elim)
    · cases hnext
  | requestIngestRetry k requesterUserId can =>
    simp only [next] at hnext
    split at hnext
    · next hidle =>
        cases hnext
        exact hs.rest (fun h => h.elim) (by rw [hidle]; exact fun h => h.elim)
    · cases hnext
  | crash k =>
    cases hnext
    exact inv_crash hs k
  | deleteUser userId =>
    cases hnext
    exact inv_deleteUser hs userId
  | advance k a =>
    have hk := hs.phases k
    simp only [next, advanceNext] at hnext
    simp only [Unraced] at hl
    cases hphase : s.phase k with
    | idle => simp [hphase] at hnext
    | polling sender =>
      have hrest : ¬(s.phase k).Busy := by
        rw [hphase]
        exact fun h => h.elim
      rw [hphase] at hnext
      simp only at hnext
      split at hnext <;> cases hnext <;> exact hs.rest (fun h => h.elim) hrest
    | claiming sender =>
      have hrest : ¬(s.phase k).Busy := by
        rw [hphase]
        exact fun h => h.elim
      rw [hphase] at hnext hl
      simp only at hnext hl
      split at hnext
      · cases hnext
        exact hs.rest (fun h => h.elim) hrest
      · next hfault =>
          cases hnext
          exact inv_claimNext messageKey defaultBookGuid hs hrest (hl hfault)
    | fetching owner bookGuid attempt =>
      have hrest : ¬(s.phase k).Busy := by
        rw [hphase]
        exact fun h => h.elim
      have hworks : (s.phase k).Works := by
        rw [hphase]
        trivial
      rw [hphase] at hnext hk
      simp only at hnext
      have hfiled (hcrashed : s.db.crashed = false) : filed s.db.history = [] := by
        by_contra hne
        obtain ⟨j, hj⟩ := hs.idle hcrashed hne (notMem_of_works hs hworks)
        rw [hs.single j k hj.works hworks] at hj
        exact hrest hj
      split at hnext
      · cases hnext
        exact hs.rest (fun h => h.elim) hrest
      · split at hnext
        · cases hnext
          exact hs.goto ⟨by decide, hk.2⟩ (fun _ => hworks) (fun _ _ h => (hrest h).elim)
        · cases hnext
          have hnone (hcrashed : s.db.crashed = false) :
              (∀ i ∈ filed s.db.history, i < 0) ∧
                ((0 : ℕ) = 0 → filed s.db.history = []) := by
            rw [hfiled hcrashed]
            exact ⟨fun i hi => (by cases hi), fun _ => rfl⟩
          obtain ⟨hp, -⟩ := @phaseOk_ingestFrom s.db attachments owner bookGuid attempt 0 0
            false hk hnone
          exact hs.goto hp (fun _ => hworks) (fun _ _ h => (hrest h).elim)
    | ingesting owner bookGuid attempt next landed transient =>
      rw [hphase] at hnext hl
      cases hnext
      exact inv_ingestNext attachments hs hphase hl
    | recording outcome attempt =>
      have hworks : (s.phase k).Works := by
        rw [hphase]
        trivial
      have hbusy (h : (s.phase k).Busy) : outcome = .ingested := by
        rw [hphase] at h
        cases outcome with
        | ingested => rfl
        | _ => exact h.elim
      have hafter : ¬(if a.fault = .none then Phase.idle
          else .failing a.transient attempt).Works := by
        split <;> exact fun h => h.elim
      rw [hphase] at hnext hl hk
      simp only at hnext
      split at hnext
      · next hfault =>
          cases hnext
          refine hs.rest hafter fun h => ?_
          rw [hbusy h] at hl
          exact hl hfault
      · cases hnext
        exact inv_record hs hworks hk.1 hafter hbusy
    | failing transient attempt =>
      have hrest : ¬(s.phase k).Busy := by
        rw [hphase]
        exact fun h => h.elim
      rw [hphase] at hnext
      simp only at hnext
      split at hnext
      · cases hnext
        exact hs.rest (fun h => h.elim) hrest
      · cases hnext
        exact inv_fail hs hrest
    | retrying requesterUserId can =>
      rw [hphase] at hnext
      cases hnext
      have hrest : ¬(s.phase k).Busy := by
        rw [hphase]
        exact fun h => h.elim
      rcases afterRetry_cases a.now s.db.row requesterUserId can with h | h
      · rw [h]
        exact hs.rest (fun h => h.elim) hrest
      · rw [h]
        exact hs.rest (fun h => h.elim) hrest
    | rearming =>
      have hrest : ¬(s.phase k).Busy := by
        rw [hphase]
        exact fun h => h.elim
      rw [hphase] at hnext
      simp only at hnext
      split at hnext
      · cases hnext
        exact hs.rest (fun h => h.elim) hrest
      · cases hnext
        exact inv_rearm hs hphase

theorem inv_start : Inv start := by
  refine ⟨fun r hr => ?_, fun _ => rfl, fun j k hj => hj.elim, fun _ => trivial, fun hmem => ?_,
    fun _ hne => absurd rfl hne, fun userId i hmem => ?_, trivial, fun _ => List.nodup_nil⟩
  · cases hr
  · cases hmem
  · cases hmem

def Apart : Step → State → Prop
  | .advance k a, s =>
    match s.phase k with
    | .claiming _ => s.db.row = none
    | .ingesting _ _ _ _ landed _ => a.intake = .thrown → landed = 0
    | .recording .ingested _ => a.fault ≠ .before
    | _ => True
  | _, _ => True

instance (l : Step) (s : State) : Decidable (Apart l s) := by
  cases l with
  | advance =>
    unfold Apart
    simp only
    split <;> infer_instance
  | _ => exact isTrue trivial

theorem not_works_of_row {s : State} (hs : Inv s) (hrow : s.db.row = none) (j : ℕ) :
    ¬(s.phase j).Works := by
  intro hj
  have hphase := hs.phases j
  cases hp : s.phase j with
  | fetching =>
    rw [hp] at hphase
    exact absurd hphase.2 (by simp [hrow])
  | ingesting =>
    rw [hp] at hphase
    exact absurd hphase.1.2 (by simp [hrow])
  | recording =>
    rw [hp] at hphase
    exact absurd hphase.2 (by simp [hrow])
  | _ =>
    rw [hp] at hj
    exact hj

theorem unraced_of_apart {l : Step} {s : State} (hs : Inv s) (h : Apart l s) :
    Unraced messageKey defaultBookGuid l s := by
  cases l with
  | advance k a =>
    simp only [Apart, Unraced] at h ⊢
    split at h
    · exact fun _ _ => ⟨not_works_of_row hs h, fun hne => absurd (hs.unclaimed h) hne⟩
    · exact h
    · exact h
    · trivial
  | _ => trivial

def fineAt (now : ℤ) : Answer := ⟨now, .none, false, .ok⟩

def someone : IngestOwnerSnapshot := ⟨1, some 2, some 3, none⟩

/-- Two attachments are filed, and a second poll is refused. -/
def onePoll : List Step :=
  [.poll 0 (some someone), .advance 0 (fineAt 0), .advance 0 (fineAt 0), .advance 0 (fineAt 0),
    .advance 0 (fineAt 0), .deleteUser 1, .advance 0 (fineAt 0), .advance 0 (fineAt 0),
    .poll 1 (some someone), .advance 1 (fineAt 9000000)]

/-- A poller files an attachment and is slow to record it; its claim expires. -/
def slowPoller : List Step :=
  [.poll 0 (some someone), .advance 0 (fineAt 0), .advance 0 (fineAt 0), .advance 0 (fineAt 0),
    .advance 0 (fineAt 0), .poll 1 (some someone), .advance 1 (fineAt 960000),
    .advance 1 (fineAt 960000), .advance 1 (fineAt 960000), .advance 1 (fineAt 960000)]

end EmailIngest
